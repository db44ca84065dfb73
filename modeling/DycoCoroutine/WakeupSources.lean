import DycoCoroutine.ScheduleAbort

/-!
# Every suspended coroutine has a wake-up source

A live coroutine that is not running stands in a ready queue, in the sleeping
tree or in `fd_co_map`, in every run in which no timer call meets a sleeper
with its own old key, no descriptor is waited on twice, every sleep fits into
an `int`, and the discipline of the ready queues is kept. SCHEDULE_ISDONE then
means what `dyco_schedule_run` reports: every coroutine has finished.
-/

namespace DycoCoroutine.WakeupSources

open ScheduleState ScheduleOps ScheduleRun ScheduleControl CoroutineStanding ScheduleEffect
open CoroutineHops ScheduleAbort KeyedSet RunInvariant

variable {s t : Sched} {a : Act} {c : Co} {ρ : Known} {σ τ : Standing}

/-- Some wake-up source holds a coroutine that is live and not running. -/
def Held (σ : Standing) : Prop :=
  σ.life=.live → σ.running=false → 0<σ.queued ∨ σ.asleep=true ∨ ∃ fd,σ.waits fd=true

/-- A hop that loses no timer, no registration and no sleep keeps a coroutine
held. -/
theorem Held.hop (hh : Held σ) (h : Hop ρ σ τ) (ht : ρ.timers) (hf : ρ.fds)
    (hsl : ρ.sleeps) : Held τ := by
  cases h with
  | stay => exact hh
  | born => exact fun _ _ => .inl (Nat.succ_pos _)
  | shelved => exact fun h => by cases h
  | obtained => exact fun _ _ => .inl (Nat.succ_pos _)
  | expired => exact fun _ _ => .inl (Nat.succ_pos _)
  | signalled => exact fun _ _ => .inl (Nat.succ_pos _)
  | entered => exact fun _ h => by cases h
  | returned => exact fun _ h => by cases h
  | requeued => exact fun _ _ => .inl (Nat.succ_pos _)
  | slept => exact fun _ _ => .inr (.inl rfl)
  | overslept hr hn => exact absurd hsl hn
  | blocked fd => exact fun _ _ => .inr (.inr ⟨fd,Function.update_self ..⟩)
  | released life doomed k hl hq hw hlife =>
    rcases hlife with rfl|rfl <;> exact fun h => by cases h
  | robbed asleep waits _ _ hta hfw =>
    obtain rfl := hta ht
    obtain rfl := hfw hf
    exact hh

/-- Every live coroutine is found under its own cid, alone in its slot, when the
scheduler is aborted. -/
def abortsRegistered (s : Sched) : Act → Bool
  | .schedAbort => (List.range s.nextCo).all fun c =>
    (s.co c).life≠.live || (ownCid s c && SlottedMap.alone cidSlot s.cidCoMap (s.co c).cid)
  | _ => true

/-- A step that can lose no wake-up source. -/
structure WakeSafe (s : Sched) (a : Act) : Prop where
  /-- The discipline of the ready queues. -/
  disciplined : Disciplined s a
  /-- A timer call meets no sleeper with its own old key. -/
  keyUnused : keyUnused s a=true
  /-- No descriptor is waited on twice. -/
  fdUnmapped : fdUnmapped s a=true
  /-- Every sleep fits into an `int`. -/
  sleepFits : sleepFits a=true
  /-- An abort finds every live coroutine. -/
  abortsRegistered : abortsRegistered s a=true
  /-- The tables are those of a finite map. -/
  tablesPlain : tablesPlain s a=true

instance (s : Sched) (a : Act) : Decidable (WakeSafe s a) :=
  decidable_of_iff (Disciplined s a ∧ keyUnused s a=true ∧ fdUnmapped s a=true ∧
    sleepFits a=true ∧ abortsRegistered s a=true ∧ tablesPlain s a=true)
    ⟨fun ⟨h₁,h₂,h₃,h₄,h₅,h₆⟩ => ⟨h₁,h₂,h₃,h₄,h₅,h₆⟩,
      fun ⟨h₁,h₂,h₃,h₄,h₅,h₆⟩ => ⟨h₁,h₂,h₃,h₄,h₅,h₆⟩⟩

/-- Every coroutine is held, registrations are in place, and a finished
scheduler has empty containers. -/
structure Guarded (s : Sched) : Prop where
  held : ∀ c,Held (standing s c)
  registered : Registered s
  finished : s.status=.done → isDone s=true

/-- `SCHEDULE_ISDONE` means that no coroutine is left but the running one. -/
theorem not_live_of_isDone (hh : Held (standing s c)) (hd : isDone s=true)
    (hr : s.currThread≠some c) : (s.co c).life≠.live := by
  intro hl
  simp only [isDone,Bool.and_eq_true,List.isEmpty_iff] at hd
  obtain ⟨⟨⟨hfd,hsl⟩,hre⟩,hur⟩ := hd
  rcases hh hl (by simpa [standing] using hr) with hq|ha|⟨fd,hw⟩
  · simp [standing,hre,hur] at hq
  · simp [standing,hsl] at ha
  · have hlookup : s.fdCoMap.lookup fd=some c := by simpa [standing] using hw
    have hmem := AList.mem_lookup_iff.mp (Option.mem_def.mpr hlookup)
    simp [hfd] at hmem

/-- Inside the scheduler every step but the loop test leaves it unfinished. -/
theorem unfinished_of_moves (hc : Control s) (hin : ∀ r,s.pc≠.main r) (hl : s.pc≠.loop)
    (h : Moves s a t) : t.status≠.done ∧ t.pc≠.main (some 0) := by
  have hst := hc.running hin
  cases flow_of_moves h with
  | stays h => exact ⟨by rw [status_eq h,hst]; decide,by rw [pc_eq h]; exact hin _⟩
  | admits hp _ _ hd => exact ⟨hd,by rw [hp]; exact hin _⟩
  | starts hne => exact absurd hst hne
  | refuses hne => exact absurd hst hne
  | finishes hp => exact absurd hp hl
  | proceeds _ hpc h =>
    simp only [controlPoint,Prod.mk.injEq] at h
    refine ⟨by rw [h.2.1,hst]; decide,fun hp => ?_⟩
    rw [← h.1,hp] at hpc
    cases hpc
  | enters _ h =>
    simp only [controlPoint,Prod.mk.injEq] at h
    exact ⟨by rw [h.2.1,hst]; decide,by simp [h.1]⟩
  | @leaves c u hr hp hcu hs h =>
    obtain ⟨urgent,last,idx,hi⟩ := hr.1
    rw [h,(control_leaveCo u c).1]
    refine ⟨?_,?_⟩
    · rcases hs with hs|hs|hs <;> rw [hs] <;> simp [hst]
    · unfold leaveCo endPhase startPhase
      rw [hp,hi]
      dsimp only
      split_ifs <;> simp

/-- Only the loop test finishes a scheduler, and a finished one keeps its empty
containers until a coroutine is created or obtained. -/
theorem finished_of_moves (hc : Control s) (hf : s.status=.done → isDone s=true)
    (h : Moves s a t) (hd : t.status=.done) : isDone t=true := by
  by_cases hin : ∀ r,s.pc≠.main r
  · by_cases hl : s.pc=.loop
    · cases h with
      | loop hp =>
        unfold loopHead at hd ⊢
        split_ifs at hd ⊢ with hi
        · exact hi
        · exact hf hd
      | _ => simp_all [inUserCode,Running]
    · exact absurd hd (unfinished_of_moves hc hin hl h).1
  · obtain ⟨r,hr⟩ : ∃ r,s.pc=.main r := by simpa using hin
    cases h with
    | create hu h => exact absurd hd (enroll_status h)
    | @poolCreate p n k hu hp =>
      have hcn := containers_cpCreate (s := s) p n k
      simp only [containers,Prod.mk.injEq] at hcn
      rw [status_eq (control_cpCreate p n k)] at hd
      simpa [isDone,hcn] using hf hd
    | obtain hu h =>
      rcases cpObtain_cases h with rfl|⟨cp,c,rest,-,-,-,h⟩
      · exact hf hd
      · exact absurd hd (enroll_status h)
    | setUrgent hu h => rcases setUrgent_cases h with rfl|⟨c,rfl⟩ <;> exact hf hd
    | openFd => exact hf hd
    | closeFd => exact hf hd
    | run hu h =>
      unfold dycoScheduleRun at h
      split at h <;> cases h
      · exact hf hd
      · exact hf hd
      · cases hd
    | _ => simp_all [Running]

/-- A pool is filled with idle coroutines. -/
theorem not_live_cpCreate (hl : ∀ d,(s.co d).life≠.live) (p : ℕ) (totalsize : ℤ) (stacksize : ℕ) :
    ∀ d,((cpCreate s p totalsize stacksize).co d).life≠.live := by
  have hfill : ∀ n s,(∀ d,(s.co d).life≠.live) → ∀ d,((cpFill p stacksize n s).co d).life≠.live := by
    intro n
    induction n with
    | zero => exact fun _ hl => hl
    | succ n ih =>
      refine fun s hl => ih _ fun d => ?_
      have hidle := (pooledRecord_standing s.pageSize p stacksize).1
      by_cases hd : d=s.nextCo
      · simp [cpAdd,newcoro,hd,hidle]
      · simpa [cpAdd,newcoro,hd] using hl d
  unfold cpCreate
  split_ifs
  · exact hl
  · exact hfill _ _ hl

/-- A guarded step of a scheduler that is not aborted. -/
theorem Guarded.moves (hs : Sound s) (hg : Guarded s) (hw : WakeSafe s a) (ha : a≠.schedAbort)
    (hm : Moves s a t) : Guarded t := by
  have hstep := hs.stepped True True True hw.disciplined.1 hw.disciplined.2 (fun _ => hw.keyUnused)
    (fun _ => ⟨hw.fdUnmapped,hg.registered⟩) (fun _ => hw.sleepFits) ha hm
  exact ⟨fun c => (hg.held c).hop (hstep.hops c) trivial trivial trivial,
    hg.registered.moves hs hw.disciplined.1 hw.disciplined.2 hw.fdUnmapped ha hm,
    finished_of_moves hs.control hg.finished hm⟩

/-- An abort that finds every live coroutine leaves none. -/
theorem not_live_of_abort (hs : Sound s) (hr : abortsRegistered s .schedAbort=true)
    (h : dycoSchedcallAbort s c=.ok t) (d : Co) : (t.co d).life≠.live := by
  have hab := abandoned_of_abort hs.store h
  intro hend
  have hl : (s.co d).life=.live := by
    by_cases hm : ∃ k,s.cidCoMap.lookup k=some d
    · obtain ⟨k,hk⟩ := hm
      exact (hs.store.cids k d hk).1
    · rwa [hab.others d (not_exists.mp hm)] at hend
  have hborn : d<s.nextCo := by
    by_contra hn
    have hu := hs.store.unborn d (not_lt.mp hn)
    simp [hu] at hl
  simp only [abortsRegistered,List.all_eq_true,List.mem_range] at hr
  have hown := hr d hborn
  simp only [hl,ownCid,ne_eq,not_true_eq_false,decide_false,Bool.false_or,Bool.and_eq_true,
    decide_eq_true_eq] at hown
  exact hab.ended _ d hown.1 hown.2 hend

theorem guarded_of_reachable (h : Reachable WakeSafe s) :
    UntilAbort Guarded (fun s => ∀ d,(s.co d).life≠.live) s := by
  refine untilAbort_of_reachable (fun _ _ h => h.disciplined) ?_
    (fun _ _ _ hs hg hw ha hv => hg.moves hs hw ha (moves_of_step hv))
    (fun _ _ _ hs _ hw h => not_live_of_abort hs hw.abortsRegistered h) ?_ h
  · intro _ _ _ _
    refine ⟨fun c => ?_,fun c => ?_,fun h => ?_⟩
    · exact fun h => by cases h
    · exact fun _ _ h => by cases h
    · cases h
  · intro u a v hst hc hl _ hm
    rcases moves_of_aborted hc hst hm with ⟨p,n,k,-,rfl⟩|⟨fds,set,pc,-,rfl⟩
    · exact not_live_cpCreate hl p n k
    · exact hl

/-- A step by which `dyco_schedule_run` returns. -/
def returnsFromRun (s : Sched) (a : Act) (t : Sched) (r : ℤ) : Prop :=
  step s a=some (.ok t) ∧ t.pc=.main (some r) ∧ (a=.run ∨ ∀ q,s.pc≠.main q)

theorem not_live_of_returns (hs : Sound s) (hg : Guarded s) (h : returnsFromRun s a t 0) (c : Co) :
    (t.co c).life≠.live := by
  obtain ⟨hstep,hpc,ha⟩ := h
  have hm := moves_of_step hstep
  by_cases hin : ∀ r,s.pc≠.main r
  · by_cases hl : s.pc=.loop
    · cases hm with
      | loop hp =>
        unfold loopHead at hpc ⊢
        split_ifs at hpc ⊢ with hi
        · refine not_live_of_isDone (hg.held c) hi ?_
          simp [hs.control.of_inPhase (by simp [hl,inPhase])]
        · cases hpc
      | _ => simp_all [inUserCode,Running]
    · exact absurd hpc (unfinished_of_moves hs.control hin hl hm).2
  · obtain rfl := ha.resolve_right hin
    obtain ⟨r,hr⟩ : ∃ r,s.pc=.main r := by simpa using hin
    have hnone := hs.control.currThread_eq_none (by simp [hr])
    cases hm with
    | run hu h =>
      unfold dycoScheduleRun at h
      split at h
      · cases h
      · cases h
        cases hpc
      · rename_i hd
        cases h
        exact not_live_of_isDone (hg.held c) (hg.finished hd) (by simp [hnone])
      · cases h
        cases hpc

/-- In every run that can lose no wake-up source, each live coroutine that is
not running is in a ready queue, the tree or `fd_co_map`, and when
`dyco_schedule_run` returns 0 no coroutine is live. -/
theorem no_coroutine_lost (h : Reachable WakeSafe s) :
    (∀ c,(s.co c).life=.live → s.currThread≠some c →
      c∈s.ready ∨ c∈s.urgentReady ∨ c∈s.sleeping ∨ ∃ fd,s.fdCoMap.lookup fd=some c) ∧
    ∀ a t,returnsFromRun s a t 0 → ∀ c,(t.co c).life≠.live := by
  rcases guarded_of_reachable h with ⟨hs,hg⟩|⟨hst,hc,hl⟩
  · refine ⟨fun c hl hr => ?_,fun a t ht c => not_live_of_returns hs hg ht c⟩
    rcases hg.held c hl (by simpa [standing] using hr) with hq|ha|⟨fd,hw⟩
    · have hmem : c∈s.urgentReady++s.ready := List.count_pos_iff.mp hq
      rcases List.mem_append.mp hmem with hu|hr
      · exact .inr (.inl hu)
      · exact .inl hr
    · exact .inr (.inr (.inl (by simpa [standing] using ha)))
    · exact .inr (.inr (.inr ⟨fd,by simpa [standing] using hw⟩))
  · refine ⟨fun c h => absurd h (hl c),fun a t ht => ?_⟩
    rcases moves_of_aborted hc hst (moves_of_step ht.1) with ⟨p,n,k,-,rfl⟩|⟨fds,set,pc,-,rfl⟩
    · exact not_live_cpCreate hl p n k
    · exact hl

/-- The only coroutine sleeps for 2^31 milliseconds: as an `int` this is
negative, so no timer is set and the scheduler has nothing left to wait for. -/
def sleptForever : List Act :=
  [.create false,.run,.loop,.expire 0,.dispatch,.dispatch,.sleep 2147483648 0 (100,100),
    .poll [],.event]

theorem sleeper_lost :
    ∃ s t,Reachable Disciplined s ∧ (s.co 0).life=.live ∧ s.currThread=none ∧
      s.ready=[] ∧ s.urgentReady=[] ∧ s.sleeping=[] ∧ s.fdCoMap.entries=[] ∧
      returnsFromRun s .loop t 0 ∧ (t.co 0).life=.live := by
  have h : (replayWhile step Disciplined (dycoScheduleCreate 1 0 4096 0) sleptForever).map (fun s =>
      ((s.co 0).life,s.currThread,isDone s,s.pc))=some (.live,none,true,.loop) := by decide +kernel
  obtain ⟨s,hs,hq⟩ := Option.map_eq_some_iff.mp h
  simp only [Prod.mk.injEq] at hq
  obtain ⟨hlife,hcur,hdone,hpc⟩ := hq
  have hempty := hdone
  simp only [isDone,Bool.and_eq_true,List.isEmpty_iff] at hempty
  obtain ⟨⟨⟨hfd,hsl⟩,hre⟩,hur⟩ := hempty
  refine ⟨s,{s with status := .done,pc := .main (some 0)},⟨1,0,4096,0,runs_of_replayWhile hs⟩,
    hlife,hcur,hre,hur,hsl,hfd,⟨?_,rfl,.inr (by simp [hpc])⟩,hlife⟩
  simp [step,hpc,loopHead,hdone]

/-- One coroutine sleeps and another waits with a timeout. -/
def sleeperAndWaiter : List Act :=
  [.openFd 5,.create false,.create true,.run,.loop,.expire 0,.dispatch,.wait 5 20 0 (100,100),
    .dispatch,.sleep 10 0 (100,100)]

theorem no_coroutine_lost_sleeperAndWaiter :
    ∃ s,replayWhile step WakeSafe (dycoScheduleCreate 1 0 4096 0) sleeperAndWaiter=some s ∧
      (s.co 0).life=.live ∧ (s.co 1).life=.live ∧ s.currThread=none ∧
      (∀ c,(s.co c).life=.live → s.currThread≠some c →
        c∈s.ready ∨ c∈s.urgentReady ∨ c∈s.sleeping ∨ ∃ fd,s.fdCoMap.lookup fd=some c) ∧
      ∀ a t,returnsFromRun s a t 0 → ∀ c,(t.co c).life≠.live := by
  have h : (replayWhile step WakeSafe (dycoScheduleCreate 1 0 4096 0) sleeperAndWaiter).map
      (fun s => ((s.co 0).life,(s.co 1).life,s.currThread))=some (.live,.live,none) := by decide +kernel
  obtain ⟨s,hs,hq⟩ := Option.map_eq_some_iff.mp h
  simp only [Prod.mk.injEq] at hq
  exact ⟨s,hs,hq.1,hq.2.1,hq.2.2,no_coroutine_lost ⟨1,0,4096,0,runs_of_replayWhile hs⟩⟩

end DycoCoroutine.WakeupSources
