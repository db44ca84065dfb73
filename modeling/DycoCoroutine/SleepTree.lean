import DycoCoroutine.ScheduleAbort

/-!
# The sleeping tree

`schedule_sched_sleep` searches the tree by the key that its coroutine still
carries from an earlier timer. As long as no sleeper has that key, the call
disturbs no other coroutine and the SLEEPING bits are exactly the members of
the tree; the call disturbs another coroutine exactly when the key is in use.
-/

namespace DycoCoroutine.SleepTree

open ScheduleState ScheduleOps ScheduleRun ScheduleControl CoroutineStanding ScheduleEffect
open CoroutineHops ScheduleAbort KeyedSet RunInvariant

variable {s t u : Sched} {a : Act} {c d : Co} {ρ : Known} {σ τ : Standing}

/-- The SLEEPING bits are the members of the tree. -/
def Exact (s : Sched) : Prop := ∀ d,(s.co d).statusSleeping=true ↔ d∈s.sleeping

/-- Every coroutine but `c` keeps its membership and its deadline. -/
def Undisturbed (s t : Sched) (c : Co) : Prop :=
  ∀ d≠c,(d∈t.sleeping ↔ d∈s.sleeping) ∧ t.key d=s.key d

/-- The states in which the running coroutine `c` calls `schedule_sched_sleep`:
at once, or after `schedule_sched_wait`. -/
inductive SleepCall (s : Sched) (c : Co) : Sched → Prop
  | direct : SleepCall s c s
  | afterWait {fd : ℤ} {u : Sched} (h : scheduleSchedWait s c fd=.ok u) : SleepCall s c u

/-- A disciplined step in which a timer call meets no sleeper with its own old
key. -/
def TimerSafe (s : Sched) (a : Act) : Prop := Disciplined s a ∧ keyUnused s a=true

instance (s : Sched) (a : Act) : Decidable (TimerSafe s a) := inferInstanceAs (Decidable (_∧_))

theorem exact_iff_standing :
    Exact s ↔ ∀ d,(standing s d).sleepingBit=(standing s d).asleep := by
  refine forall_congr' fun d => ?_
  have hb := Bool.eq_iff_iff (a := (standing s d).sleepingBit) (b := (standing s d).asleep)
  rw [hb]
  simp [standing]

/-- A hop that leaves timers in order clears the SLEEPING bit with the timer. -/
theorem asleep_of_hop (h : Hop ρ σ τ) (ht : ρ.timers)
    (hσ : σ.sleepingBit=true → σ.asleep=true) : τ.sleepingBit=true → τ.asleep=true := by
  cases h with
  | stay => exact hσ
  | born => exact fun h => by cases h
  | shelved => exact fun h => by cases h
  | obtained => exact fun h => by cases h
  | expired => exact fun h => by cases h
  | signalled => exact hσ
  | entered => exact hσ
  | returned => exact fun h => by cases h
  | requeued => exact hσ
  | slept => exact fun _ => rfl
  | overslept => exact hσ
  | blocked => exact id
  | released => exact fun h => by cases h
  | robbed asleep waits _ _ hr _ =>
    intro hb
    rw [hr ht]
    exact hσ hb

theorem exact_iff (hs : Sound s) :
    Exact s ↔ ∀ d,(standing s d).sleepingBit=true → (standing s d).asleep=true := by
  refine ⟨fun h d hb => by simpa [standing] using (h d).mp hb,fun h d => ⟨fun hb => ?_,?_⟩⟩
  · simpa [standing] using h d hb
  · exact hs.sleeping_bit

/-- Until the scheduler is aborted the SLEEPING bits are exact. -/
theorem exact_of_reachable (h : Reachable TimerSafe s) :
    UntilAbort Exact (fun _ => True) s := by
  refine untilAbort_of_reachable (fun _ _ h => h.1) ?_ ?_ (fun _ _ _ _ _ _ _ => trivial)
    (fun _ _ _ _ _ _ _ _ => trivial) h
  · intro _ _ _ _ d
    simp [dycoScheduleCreate]
  · intro u a v hs he hc hsa hv
    have hm := moves_of_step hv
    have hstep := hs.stepped True False False hc.1.1 hc.1.2 (fun _ => hc.2) False.elim False.elim
      hsa hm
    rw [exact_iff (hs.moves hc.1.1 hc.1.2 hsa hm)]
    rw [exact_iff hs] at he
    exact fun d => asleep_of_hop (hstep.hops d) trivial (he d)

/-- The state of a timer call has the tree, the keys and the SLEEPING bits of
the state in which the library was entered. -/
theorem SleepCall.same_tree (h : SleepCall s c u) :
    u.sleeping=s.sleeping ∧ u.key=s.key ∧ ∀ d,(u.co d).statusSleeping=(s.co d).statusSleeping := by
  cases h with
  | direct => exact ⟨rfl,rfl,fun _ => rfl⟩
  | afterWait h =>
    obtain ⟨hsl,hk⟩ := schedWait_sleeping h
    exact ⟨hsl,hk,fun d => congrArg Standing.sleepingBit ((schedWait_spec h).2 d)⟩

theorem key_schedSleep (msecs : ℤ) (now : ℕ) (hd : d≠c) :
    (scheduleSchedSleep s c msecs now).key d=s.key d := by
  have hdrop : (dropKey s c).key d=s.key d := by
    unfold dropKey
    split <;> rfl
  unfold scheduleSchedSleep
  split_ifs
  · exact hdrop
  · rw [← hdrop]
    simp [setTimer,Sched.key,hd]

/-- The timer call of a coroutine outside the tree is harmless exactly when its
old key is unused. -/
theorem schedSleep_undisturbed_iff (ho : Ordered s.key s.sleeping) (he : Exact s)
    (hc : c∉s.sleeping) (msecs : ℤ) (now : ℕ) :
    Undisturbed s (scheduleSchedSleep s c msecs now) c ∧
      Exact (scheduleSchedSleep s c msecs now) ↔ ∀ d∈s.sleeping,s.key d≠s.key c := by
  obtain ⟨-,hst⟩ := schedSleep_spec ho hc msecs now
  have hbit : (s.co c).statusSleeping=false := by simpa using mt (he c).mp hc
  constructor
  · rintro ⟨hu,-⟩ d hd hk
    cases hf : find s.key (s.key c) s.sleeping with
    | none => exact find_eq_none.mp hf d hd hk
    | some e =>
      -- the sleeper that the search finds is the one that is lost
      obtain ⟨hes,-⟩ := find_eq_some hf
      have hec : e≠c := fun h => hc (h ▸ hes)
      have hlost := congrArg Standing.asleep (hst e)
      rw [if_neg hec,hf] at hlost
      have hkept := (hu e hec).1.mpr hes
      simp [standing,hkept] at hlost
  · intro hkey
    have hnone := find_eq_none.mpr hkey
    have hother : ∀ d≠c,standing (scheduleSchedSleep s c msecs now) d=standing s d := by
      intro d hd
      rw [hst,if_neg hd,hnone]
      simp
    refine ⟨fun d hd => ⟨?_,key_schedSleep msecs now hd⟩,exact_iff_standing.mpr fun d => ?_⟩
    · simpa [standing] using congrArg Standing.asleep (hother d hd)
    · by_cases hd : d=c
      · rw [hst,if_pos hd]
        split_ifs
        · exact exact_iff_standing.mp he c
        · rfl
      · rw [hother d hd]
        exact exact_iff_standing.mp he d

/-- The cancellation of a timer goes through and disturbs no other coroutine. -/
theorem cancelSleep_undisturbed (hs : Sound s) (he : Exact s) (c : Co) :
    ∃ t,scheduleCancelSleep s c=.ok t ∧ Undisturbed s t c ∧ Exact t := by
  have hok : ∃ t,scheduleCancelSleep s c=.ok t := by
    unfold scheduleCancelSleep
    split_ifs with hb hc
    · exact ⟨_,rfl⟩
    · exact absurd ((he c).mp hb) hc
    · exact ⟨_,rfl⟩
  obtain ⟨t,ht⟩ := hok
  obtain ⟨-,hst⟩ := cancelSleep_spec hs.ordered hs.sleeping_bit ht
  refine ⟨t,ht,fun d hd => ⟨?_,?_⟩,exact_iff_standing.mpr fun d => ?_⟩
  · have ha := congrArg Standing.asleep (hst d)
    rw [if_neg hd] at ha
    simpa [standing] using ha
  · unfold scheduleCancelSleep at ht
    split_ifs at ht <;> cases ht <;> simp [Sched.key,hd]
  · rw [hst]
    split_ifs
    · rfl
    · exact exact_iff_standing.mp he d

/-- In every timer-safe run, until an abort, the SLEEPING bits are the members of
the tree; a timer call of the running coroutine keeps this and disturbs no other
coroutine exactly when its old key is unused; a cancellation always does. -/
theorem sleeping_tree_exact (h : Reachable TimerSafe s) (ha : s.status≠.aborted) :
    Exact s ∧
    (∀ c u msecs now,Running s c → SleepCall s c u →
      (Undisturbed u (scheduleSchedSleep u c msecs now) c ∧
        Exact (scheduleSchedSleep u c msecs now) ↔ ∀ d∈u.sleeping,u.key d≠u.key c)) ∧
    ∀ c,∃ t,scheduleCancelSleep s c=.ok t ∧ Undisturbed s t c ∧ Exact t := by
  rcases exact_of_reachable h with ⟨hs,he⟩|⟨hst,-⟩
  · refine ⟨he,fun c u msecs now hr hu => ?_,cancelSleep_undisturbed hs he⟩
    obtain ⟨hsl,hk,hb⟩ := hu.same_tree
    have hc : c∉s.sleeping := by simpa [standing] using (hs.running hr).2.1.asleep
    refine schedSleep_undisturbed_iff (by rw [hsl,hk]; exact hs.ordered) (fun d => ?_)
      (by rw [hsl]; exact hc) msecs now
    rw [hb,hsl]
    exact he d
  · exact absurd hst ha

/-- One coroutine's timed wait ends by its descriptor and leaves the key 10000
behind; another coroutine then sleeps until that very deadline. -/
def staleKey : List Act :=
  [.openFd 5,.create false,.create false,.run,.loop,.expire 0,.dispatch,.dispatch,
    .wait 5 10 0 (100,100),.dispatch,.sleep 0 0 (100,100),.poll [5],.event,.event,.loop,.expire 1000,
    .dispatch,.dispatch,.sleep 0 1000 (100,100),.dispatch,.sleep 0 1000 (100,100),.poll [],.event,
    .loop,.expire 2000,.dispatch,.dispatch,.sleep 5 5000 (100,100),.dispatch]

theorem sleeper_evicted_by_stale_key :
    ∃ s,Reachable Disciplined s ∧ s.currThread=some 0 ∧ 1∈s.sleeping ∧
      1∉(scheduleSchedSleep s 0 (-1) 6000).sleeping ∧
      ((scheduleSchedSleep s 0 (-1) 6000).co 1).statusSleeping=true := by
  have h : (replayWhile step Disciplined (dycoScheduleCreate 1 0 4096 0) staleKey).map (fun s =>
      (s.currThread,s.sleeping,(scheduleSchedSleep s 0 (-1) 6000).sleeping,
        ((scheduleSchedSleep s 0 (-1) 6000).co 1).statusSleeping))=
      some (some 0,[1],[],true) := by decide +kernel
  obtain ⟨s,hs,hq⟩ := Option.map_eq_some_iff.mp h
  simp only [Prod.mk.injEq] at hq
  exact ⟨s,⟨1,0,4096,0,runs_of_replayWhile hs⟩,hq.1,by simp [hq.2.1],by simp [hq.2.2.1],hq.2.2.2⟩

/-- A timer-safe run that ends inside a coroutine with a sleeper in the tree. -/
def freshKey : List Act :=
  [.openFd 5,.create false,.create false,.run,.loop,.expire 0,.dispatch,.dispatch,
    .wait 5 10 0 (100,100),.dispatch]

theorem sleeping_tree_exact_freshKey :
    ∃ s,replayWhile step TimerSafe (dycoScheduleCreate 1 0 4096 0) freshKey=some s ∧
      s.currThread=some 1 ∧ s.sleeping=[0] ∧ s.status≠.aborted ∧ Exact s ∧
      (∀ c u msecs now,Running s c → SleepCall s c u →
        (Undisturbed u (scheduleSchedSleep u c msecs now) c ∧
          Exact (scheduleSchedSleep u c msecs now) ↔ ∀ d∈u.sleeping,u.key d≠u.key c)) ∧
      ∀ c,∃ t,scheduleCancelSleep s c=.ok t ∧ Undisturbed s t c ∧ Exact t := by
  have h : (replayWhile step TimerSafe (dycoScheduleCreate 1 0 4096 0) freshKey).map (fun s =>
      (s.currThread,s.sleeping,s.status))=some (some 1,[0],.running) := by decide +kernel
  obtain ⟨s,hs,hq⟩ := Option.map_eq_some_iff.mp h
  simp only [Prod.mk.injEq] at hq
  have ha : s.status≠.aborted := by simp [hq.2.2]
  exact ⟨s,hs,hq.1,hq.2.1,ha,sleeping_tree_exact ⟨1,0,4096,0,runs_of_replayWhile hs⟩ ha⟩

end DycoCoroutine.SleepTree
