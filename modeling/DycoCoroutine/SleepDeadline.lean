import DycoCoroutine.ScheduleControl

/-!
# Deadlines of sleepers

`schedule_sched_sleep` multiplies milliseconds by `1000u` in 32 bits before it adds
the product to a 64-bit time. A timer of 4294968 ms or more is therefore set too early,
unless sleepers occupy every microsecond that was lost. Phase A itself is never early: it
moves a coroutine at a clock reading not before the deadline that the coroutine was
given, whatever happened in between.
-/

namespace DycoCoroutine.SleepDeadline

open ScheduleState ScheduleOps ScheduleRun ScheduleControl KeyedSet RunInvariant

variable {s t u : Sched} {a : Act} {c d : Co} {fd : ℤ} {msecs : ℤ} {now : ℕ}

/-- The `sleep_usecs` that a timer call gives to `c`. -/
def deadline (s : Sched) (c : Co) (msecs : ℤ) (now : ℕ) : ℕ :=
  (scheduleSchedSleep s c msecs now).key c

/-- `diff_usecs(birth, usec_now()) + usecs` in the types of the source. -/
def sleepUsecs (birth now : UInt64) (msecs : Int32) : UInt64 :=
  now-birth+(msecs.toUInt32*1000).toUInt64

/-- `usec_now` is computed as a `long`. No reading of it makes the 64-bit sum wrap. -/
theorem toNat_sleepUsecs {birth now : UInt64} {msecs : Int32} (hbirth : birth≤now)
    (hnow : now.toNat<2^63) (hpos : 0 ≤ msecs.toInt) :
    (sleepUsecs birth now msecs).toNat=now.toNat-birth.toNat+msecs.toInt.toNat*1000%2^32 := by
  have hword : msecs.toUInt32.toNat=msecs.toInt.toNat := by
    have hbits : msecs.toInt=msecs.toUInt32.toBitVec.toInt := rfl
    rw [hbits,BitVec.toInt_eq_toNat_cond] at hpos ⊢
    rw [← UInt32.toNat_toBitVec]
    split_ifs at hpos ⊢ <;> omega
  have hle : birth.toNat≤now.toNat := hbirth
  rw [sleepUsecs,UInt64.toNat_add,UInt64.toNat_sub_of_le _ _ hbirth,UInt32.toNat_toUInt64,
    UInt32.toNat_mul,hword]
  exact Nat.mod_eq_of_lt (by show _+_*1000%2^32<2^64; omega)

/-- A deadline is the first key from the sum on that no sleeper has. -/
theorem deadline_eq (hpos : 0 < msecs) : deadline s c msecs now=
    firstUnused s.key (dropKey s c).sleeping ((dropKey s c).sleeping.length+1)
      (now-s.birth+msecs.toNat*1000%2^32) := by
  have hkey : (dropKey s c).key=s.key := by
    unfold dropKey
    split <;> rfl
  unfold deadline scheduleSchedSleep
  rw [if_neg (not_le.mpr hpos),← hkey]
  simp [setTimer,Sched.key]

/-- The sum is the one that the source computes in its own types. -/
theorem deadline_eq_sleepUsecs {birth reading : UInt64} {timeout : Int32}
    (hb : s.birth=birth.toNat) (hbirth : birth≤reading) (hnow : reading.toNat<2^63)
    (hpos : 0<timeout.toInt) : deadline s c timeout.toInt reading.toNat=
    firstUnused s.key (dropKey s c).sleeping ((dropKey s c).sleeping.length+1)
      (sleepUsecs birth reading timeout).toNat := by
  rw [deadline_eq hpos,toNat_sleepUsecs hbirth hnow hpos.le,hb]

/-- A deadline depends on the tree, the keys and the origin of time. -/
theorem deadline_congr (hpos : 0 < msecs) (hs : u.sleeping=s.sleeping) (hk : u.key=s.key)
    (hb : u.birth=s.birth) : deadline u c msecs now=deadline s c msecs now := by
  have hdrop : (dropKey u c).sleeping=(dropKey s c).sleeping := by
    unfold dropKey
    rw [hs,hk]
    split
    · rfl
    · exact hs
  rw [deadline_eq hpos,deadline_eq hpos,hdrop,hk,hb]

/-! ## What a step leaves alone -/

/-- The deadline of `c` and the origin of time. -/
def timerOf (c : Co) (s : Sched) : ℕ×ℕ := (s.key c,s.birth)

/-- A step that writes `sleep_usecs` of `c`: a timer call of its own, or one that makes
a new coroutine of the object. -/
def resets (s : Sched) (c : Co) : Act → Bool
  | .sleep _ _ _ => s.currThread=some c
  | .wait _ _ _ _ => s.currThread=some c
  | .obtain p _ => (s.pools p).any fun cp => cp.freelist.head?=some c
  | .create _ => s.nextCo≤c
  | .poolCreate _ _ _ => s.nextCo≤c
  | _ => false

/-- A record that keeps its deadline is replaced. -/
theorem timerOf_update {r : Coroutine} (h : timerOf c u=timerOf c s)
    (hco : t.co=Function.update u.co d r) (hr : r.sleepUsecs=(u.co d).sleepUsecs)
    (hb : t.birth=u.birth) : timerOf c t=timerOf c s := by
  refine (Prod.ext ?_ hb : timerOf c t=timerOf c u).trans h
  show (t.co c).sleepUsecs=(u.co c).sleepUsecs
  rw [hco]
  by_cases hc : c=d
  · rw [hc,Function.update_self,hr]
  · rw [Function.update_of_ne hc]

/-- The record of another coroutine is replaced. -/
theorem timerOf_update_of_ne {r : Coroutine} (h : timerOf c u=timerOf c s) (hd : d≠c)
    (hco : t.co=Function.update u.co d r) (hb : t.birth=u.birth) : timerOf c t=timerOf c s := by
  refine (Prod.ext ?_ hb : timerOf c t=timerOf c u).trans h
  show (t.co c).sleepUsecs=(u.co c).sleepUsecs
  rw [hco,Function.update_of_ne hd.symm]

/-- Queueing a coroutine moves no deadline. -/
theorem timerOf_insertReady : timerOf c (insertReady s d)=timerOf c s := by
  unfold insertReady
  split_ifs <;> exact timerOf_update rfl rfl rfl rfl

/-- Removing a sleeper moves no deadline. -/
theorem timerOf_dropKey : timerOf c (dropKey s d)=timerOf c s := by
  unfold dropKey
  split <;> rfl

/-- A timer of another coroutine moves no deadline of this one. -/
theorem timerOf_schedSleep (hd : d≠c) :
    timerOf c (scheduleSchedSleep s d msecs now)=timerOf c s := by
  unfold scheduleSchedSleep
  split_ifs
  · exact timerOf_dropKey
  · exact timerOf_update_of_ne (timerOf_dropKey (d := d)) hd rfl rfl

/-- Saving a stack moves no deadline. -/
theorem timerOf_savestk (depth : ℕ) : timerOf c (savestk s d depth)=timerOf c s := by
  unfold savestk
  split_ifs
  · rfl
  · exact timerOf_update rfl rfl rfl rfl

/-- `yield` moves no deadline. -/
theorem timerOf_yield (depth : ℕ×ℕ) (k : Cont) : timerOf c (yield s d depth k)=timerOf c s := by
  unfold yield
  split_ifs
  · exact timerOf_update rfl rfl rfl rfl
  · exact timerOf_update rfl rfl rfl rfl
  · exact timerOf_update (timerOf_savestk _) rfl rfl rfl

/-- Cancelling a timer leaves the deadline in the record. -/
theorem timerOf_cancelSleep (h : scheduleCancelSleep s d=.ok t) : timerOf c t=timerOf c s := by
  unfold scheduleCancelSleep at h
  split_ifs at h <;> cases h
  · exact timerOf_update rfl rfl rfl rfl
  · rfl

/-- The poller moves no deadline. -/
theorem timerOf_epollCtlDel (h : epollCtlDel s fd=.ok t) : timerOf c t=timerOf c s := by
  unfold epollCtlDel at h
  split_ifs at h
  cases h
  rfl

/-- Cancelling a wait moves no deadline. -/
theorem timerOf_cancelWait (h : scheduleCancelWait s d fd=.ok t) : timerOf c t=timerOf c s := by
  unfold scheduleCancelWait at h
  split_ifs at h
  · exact (timerOf_epollCtlDel h).trans (timerOf_update rfl rfl rfl rfl)
  · cases h
    rfl

/-- A release leaves the deadline in the record. -/
theorem timerOf_releaseCoro (h : releaseCoro s d=.ok t) : timerOf c t=timerOf c s := by
  obtain ⟨map,fds,set,b,rfl,-⟩ := releaseCoro_cases h
  exact timerOf_update rfl rfl rfl rfl

/-- An abort leaves the deadline in the record. -/
theorem timerOf_coroAbort (h : coroAbort s d=.ok t) : timerOf c t=timerOf c s := by
  rcases coroAbort_cases h with rfl|⟨u,hu,⟨p,rfl⟩|rfl⟩
  · rfl
  · exact timerOf_update (timerOf_releaseCoro hu) rfl rfl rfl
  · exact timerOf_update (timerOf_releaseCoro hu) rfl rfl rfl

/-- The end of `resume` moves no deadline. -/
theorem timerOf_resumeReturn (h : resumeReturn s d=.ok t) : timerOf c t=timerOf c s := by
  unfold resumeReturn at h
  dsimp only at h
  split_ifs at h
  · obtain ⟨u,hu,h⟩ := bind_eq_ok h
    have hcancel : timerOf c u=timerOf c s := (timerOf_cancelSleep hu).trans rfl
    rcases cidDelete_cases h with rfl|⟨e,v,-,-,hv,rfl⟩
    · exact hcancel
    · exact (timerOf_coroAbort hv).trans hcancel
  · obtain ⟨u,hu,h⟩ := bind_eq_ok h
    have hcancel : timerOf c u=timerOf c s := (timerOf_cancelSleep hu).trans rfl
    exact (timerOf_coroAbort h).trans hcancel
  · cases h
    rfl

/-- The rest of a round moves no deadline. -/
theorem timerOf_leaveCo : timerOf c (leaveCo s d)=timerOf c s := by
  obtain ⟨pc,h⟩ := leaveCo_eq s d
  rw [h]
  rfl

/-- Giving up control moves no deadline. -/
theorem timerOf_backToLoop (h : backToLoop s d=.ok t) : timerOf c t=timerOf c s := by
  obtain ⟨u,hu,h⟩ := bind_eq_ok h
  cases h
  exact timerOf_leaveCo.trans (timerOf_resumeReturn hu)

/-- A created coroutine has no deadline of its own yet. -/
theorem timerOf_enroll {urgent : Bool} (h : enroll s d urgent=.ok t) :
    timerOf c t=timerOf c s := by
  obtain ⟨u,hu,h⟩ := bind_eq_ok h
  have hregister : timerOf c u=timerOf c s := by
    unfold register at hu
    split_ifs at hu
    cases hu
    exact timerOf_update rfl rfl rfl rfl
  cases h
  unfold wakeScheduler queueNew
  split_ifs
  all_goals first
    | exact hregister
    | exact timerOf_update hregister rfl rfl rfl

/-- A new pool leaves the existing records alone. -/
theorem timerOf_cpCreate {p : ℕ} {totalsize : ℤ} {stacksize : ℕ} (hc : c<s.nextCo) :
    timerOf c (cpCreate s p totalsize stacksize)=timerOf c s := by
  have hfill : ∀ n s,c<s.nextCo → timerOf c (cpFill p stacksize n s)=timerOf c s := by
    intro n
    induction n with
    | zero => exact fun _ _ => rfl
    | succ n ih =>
      intro s hc
      have hne : s.nextCo≠c := hc.ne'
      refine (ih _ (hc.trans (Nat.lt_succ_self _))).trans ?_
      have hnew : timerOf c (newcoro s .idle).2=timerOf c s :=
        timerOf_update_of_ne rfl hne rfl rfl
      exact timerOf_update_of_ne hnew hne rfl rfl
  unfold cpCreate
  split_ifs
  · rfl
  · exact hfill _ _ hc

/-- `resume` moves no deadline. -/
theorem timerOf_enterCo (h : enterCo s d=.ok t) : timerOf c t=timerOf c s := by
  have hactivate : timerOf c (activate s d)=timerOf c s := timerOf_update rfl rfl rfl rfl
  unfold enterCo at h
  split at h
  · cases h
    exact hactivate
  · cases h
    exact hactivate
  · obtain ⟨u,hu,h⟩ := bind_eq_ok h
    exact (timerOf_cancelWait h).trans ((timerOf_cancelSleep hu).trans hactivate)
  · cases h
    exact timerOf_update hactivate rfl rfl rfl

/-- A kill moves no deadline. -/
theorem timerOf_kill (h : coroutineKill s d=.ok t) : timerOf c t=timerOf c s :=
  (timerOf_backToLoop h).trans (timerOf_update rfl rfl rfl rfl)

/-- No step but those that reset it changes a deadline. -/
theorem timerOf_moves (h : Moves s a t) (hr : resets s c a=false) : timerOf c t=timerOf c s := by
  cases h with
  | create hu h =>
    have hne : s.nextCo≠c := fun he => of_decide_eq_false hr he.le
    exact (timerOf_enroll h).trans (timerOf_update_of_ne rfl hne rfl rfl)
  | poolCreate => exact timerOf_cpCreate (not_le.mp (of_decide_eq_false hr))
  | obtain hu h =>
    rcases cpObtain_cases h with rfl|⟨cp,d,rest,hp,-,hl,h⟩
    · rfl
    · have hne : d≠c := by
        rintro rfl
        simp [resets,hp,hl] at hr
      exact (timerOf_enroll h).trans (timerOf_update_of_ne rfl hne rfl rfl)
  | setUrgent hu h =>
    rcases setUrgent_cases h with rfl|⟨d,rfl⟩
    · rfl
    · exact timerOf_update rfl rfl rfl rfl
  | openFd => rfl
  | closeFd => rfl
  | run hu h =>
    unfold dycoScheduleRun at h
    split at h <;> cases h <;> rfl
  | loop =>
    unfold loopHead
    split_ifs <;> rfl
  | expire hp hn h =>
    rcases phaseA_cases h with ⟨-,rfl⟩|⟨d,u,hg,-,rfl⟩
    · rfl
    · obtain ⟨rest,-,-,rfl⟩ := getExpired_cases hg
      exact timerOf_insertReady.trans (timerOf_update rfl rfl rfl rfl)
  | @dispatch urgent _ _ _ hp h =>
    rcases phaseBC_cases h with ⟨-,rfl⟩|⟨d,rest,-,-,h⟩
    · unfold endPhase startPhase
      split_ifs <;> rfl
    · have hpop : timerOf c (popQueue s urgent d rest)=timerOf c s := by
        unfold popQueue
        split_ifs <;> exact timerOf_update rfl rfl rfl rfl
      exact (timerOf_enterCo h).trans hpop
  | poll => rfl
  | eventsDone => rfl
  | event hp h =>
    rcases phaseD_cases h with rfl|⟨d,-,h⟩
    · rfl
    · exact (timerOf_cancelWait h).trans timerOf_insertReady
  | @sleep d _ _ _ _ hrun hn h =>
    have hne : d≠c := fun he => of_decide_eq_false hr (he ▸ hrun.2)
    refine (timerOf_backToLoop h).trans ((timerOf_yield _ _).trans ?_)
    split_ifs
    · exact timerOf_insertReady
    · exact timerOf_schedSleep hne
  | @wait d _ _ _ _ _ hrun hn ht h =>
    have hne : d≠c := fun he => of_decide_eq_false hr (he ▸ hrun.2)
    obtain ⟨u,hu,h⟩ := bind_eq_ok h
    have hwait : timerOf c u=timerOf c s := by
      obtain ⟨v,hv,hu⟩ := bind_eq_ok hu
      unfold epollCtlAdd at hv
      split_ifs at hv
      cases hv
      cases hu
      exact timerOf_update rfl rfl rfl rfl
    exact (timerOf_backToLoop h).trans
      ((timerOf_yield _ _).trans ((timerOf_schedSleep hne).trans hwait))
  | exit hrun h =>
    exact (timerOf_backToLoop h).trans ((timerOf_yield _ _).trans (timerOf_update rfl rfl rfl rfl))
  | abort hrun h => exact timerOf_kill h
  | checkStack hrun h =>
    split_ifs at h
    · exact timerOf_kill h
    · cases h
      rfl
  | @stop d depth hrun =>
    have hready := timerOf_insertReady (c := c) (d := d) (s := s.setCo d fun r =>
      {r with statusRunning := false,statusSchedcall := true})
    have hsave := (timerOf_savestk (d := d) depth).trans
      (hready.trans (timerOf_update rfl rfl rfl rfl))
    exact timerOf_leaveCo.trans (timerOf_update hsave rfl rfl rfl)
  | @schedAbort d _ hrun h =>
    obtain ⟨u,hu,h⟩ := bind_eq_ok h
    cases h
    obtain ⟨v,hv,hu⟩ := bind_eq_ok hu
    cases hu
    have hmark : timerOf c (s.setCo d fun r =>
        {r with statusRunning := false,statusSchedcall := true})=timerOf c s :=
      timerOf_update rfl rfl rfl rfl
    have hfold := cidClear_invariant (fun w => timerOf c w=timerOf c s)
      (fun _ _ _ hw hf => (timerOf_coroAbort hf).trans hw) hmark hv
    exact timerOf_leaveCo.trans hfold
  | epollInit =>
    unfold dycoEpollInit
    split_ifs
    · rfl
    · exact timerOf_update rfl rfl rfl rfl
  | epollDestroy =>
    unfold dycoEpollDestroy
    split_ifs
    · exact timerOf_update rfl rfl rfl rfl
    · rfl
  | signalInit =>
    unfold dycoSignalInit
    split_ifs
    · rfl
    · exact timerOf_update rfl rfl rfl rfl
  | signalDestroy =>
    unfold dycoSignalDestroy
    split_ifs
    · exact timerOf_update rfl rfl rfl rfl
    · rfl

/-- A deadline stands until the next timer call of its coroutine. -/
theorem timerOf_runs (h : Runs step (fun r b => resets r c b=false) s t) :
    timerOf c t=timerOf c s :=
  h.invariant (fun r => timerOf c r=timerOf c s) rfl fun _ _ _ hi hr ha =>
    (timerOf_moves (moves_of_step ha) hr).trans hi

/-! ## Timer calls and phase A -/

/-- The running coroutine `c` calls `schedule_sched_sleep` with `msecs` at clock reading
`now`, in `dyco_coroutine_sleep` or in a wait. -/
inductive TimerCall (s : Sched) (c : Co) (msecs : ℤ) (now : ℕ) : Act → Prop
  | sleep {m : UInt32} {depth : ℕ×ℕ} (hc : s.currThread=some c) (hm : toInt m.toNat=msecs) :
      TimerCall s c msecs now (.sleep m now depth)
  | wait {fd : ℤ} {depth : ℕ×ℕ} (hc : s.currThread=some c) :
      TimerCall s c msecs now (.wait fd msecs now depth)

/-- The step of a timer call gives the deadline. -/
theorem timerOf_timerCall (hpos : 0 < msecs) (hcall : TimerCall s c msecs now a)
    (ht : step s a=some (.ok t)) : timerOf c t=(deadline s c msecs now,s.birth) := by
  have hbirth : ∀ u : Sched,(scheduleSchedSleep u c msecs now).birth=u.birth := by
    intro u
    unfold scheduleSchedSleep setTimer dropKey
    split_ifs <;> split <;> rfl
  cases hcall with
  | @sleep m depth hc hm =>
    cases moves_of_step ht with
    | @sleep d _ _ _ _ hrun hn h =>
      obtain rfl : d=c := Option.some.inj (hrun.2.symm.trans hc)
      have hne : m≠0 := by
        rintro rfl
        rw [← hm,UInt32.toNat_zero,toInt_of_lt (by norm_num)] at hpos
        exact absurd hpos (by decide)
      refine (timerOf_backToLoop h).trans ((timerOf_yield _ _).trans ?_)
      rw [if_neg hne,hm]
      exact Prod.ext (deadline_congr (u := s.setClock now) hpos rfl rfl rfl) (hbirth _)
  | @wait fd depth hc =>
    cases moves_of_step ht with
    | @wait d _ _ _ _ _ hrun hn hne h =>
      obtain rfl : d=c := Option.some.inj (hrun.2.symm.trans hc)
      obtain ⟨u,hu,h⟩ := bind_eq_ok h
      obtain ⟨v,hv,hu⟩ := bind_eq_ok hu
      unfold epollCtlAdd at hv
      split_ifs at hv
      cases hv
      cases hu
      refine (timerOf_backToLoop h).trans ((timerOf_yield _ _).trans ?_)
      refine Prod.ext (deadline_congr hpos rfl ?_ rfl) (hbirth _)
      funext e
      have hset : timerOf e (s.setCo d fun r => {r with flagsWaiting := true})=timerOf e s :=
        timerOf_update rfl rfl rfl rfl
      exact congrArg Prod.fst hset

/-- How often a coroutine stands in the ready queues. -/
def queued (s : Sched) (c : Co) : ℕ := (s.urgentReady++s.ready).count c

/-- Phase A moves a coroutine that is due. -/
theorem phaseA_due (h : phaseA s now=.ok t) (hc : queued s c<queued t c) :
    s.key c≤now-s.birth := by
  rcases phaseA_cases h with ⟨-,rfl⟩|⟨d,u,hg,-,rfl⟩
  · exact absurd hc (lt_irrefl _)
  · obtain ⟨rest,-,hkey,rfl⟩ := getExpired_cases hg
    by_cases hcd : d=c
    · exact hcd ▸ hkey
    · refine absurd hc (not_lt.mpr (le_of_eq ?_))
      unfold insertReady
      split_ifs <;> simp [queued,List.count_append,hcd]

/-- A timer call gives a deadline that is not too early exactly if the product of its
argument and 1000 fits in 32 bits, or sleepers occupy all the microseconds in between. In
every run up to the next reset phase A moves the coroutine to a ready queue at a clock
reading not before that deadline. The search for the deadline begins with the sum that
the source computes in 64 bits. -/
theorem no_early_wakeup (now : ℕ) (hpos : 0 < msecs) :
    (now-s.birth+1000*msecs.toNat≤deadline s c msecs now ↔
      1000*msecs.toNat<2^32 ∨ ∀ k,now-s.birth+1000*msecs.toNat%2^32≤k →
        k<now-s.birth+1000*msecs.toNat → ∃ d∈(dropKey s c).sleeping,s.key d=k) ∧
    (∀ a t u v later,TimerCall s c msecs now a → step s a=some (.ok t) →
      Runs step (fun r b => resets r c b=false) t u → step u (.expire later)=some (.ok v) →
      queued u c<queued v c → deadline s c msecs now≤later-s.birth) ∧
    ∀ (birth reading : UInt64) (timeout : Int32),s.birth=birth.toNat → now=reading.toNat →
      msecs=timeout.toInt → birth≤reading → reading.toNat<2^63 →
      deadline s c msecs now=firstUnused s.key (dropKey s c).sleeping
        ((dropKey s c).sleeping.length+1) (sleepUsecs birth reading timeout).toNat := by
  refine ⟨?_,fun a t u v later hcall ht hu hv hc => ?_,?_⟩
  · rw [deadline_eq hpos,le_firstUnused_iff,mul_comm]
    refine ⟨.inr,fun h => h.elim (fun hfits k hk hlt => ?_) id⟩
    rw [Nat.mod_eq_of_lt hfits] at hk
    exact absurd hlt (not_lt.mpr hk)
  · have htimer := (timerOf_runs hu).trans (timerOf_timerCall hpos hcall ht)
    obtain ⟨hkey,hbirth⟩ := Prod.ext_iff.mp htimer
    cases moves_of_step hv with
    | expire hp hn h =>
      have hdue := phaseA_due h hc
      rw [show u.key c=_ from hkey,show u.birth=_ from hbirth] at hdue
      exact hdue
  · rintro birth reading timeout hb rfl rfl hbirth hnow
    exact deadline_eq_sleepUsecs hb hbirth hnow hpos

/-- The way into the first coroutine. -/
def firstRuns : List Act := [.create false,.run,.loop,.expire 0,.dispatch,.dispatch]

/-- The way from there to the next round of phase A. -/
def nextRound : List Act := [.poll [],.event,.loop]

/-- A sleep of 4294968 ms is over after 704 microseconds. -/
theorem long_sleep_ends_early : ∃ s t u v,Reachable (fun _ _ => True) s ∧ s.currThread=some 0 ∧
    deadline s 0 4294968 0<0-s.birth+1000*4294968 ∧
    step s (.sleep 4294968 0 (100,100))=some (.ok t) ∧ Runs step (fun _ _ => True) t u ∧
    step u (.expire 704)=some (.ok v) ∧ queued u 0<queued v 0 := by
  have h : ((replay step (dycoScheduleCreate 1 0 4096 0) firstRuns).bind fun s =>
      (replay step s [.sleep 4294968 0 (100,100)]).bind fun t =>
      (replay step t nextRound).bind fun u => (replay step u [.expire 704]).map fun v =>
        (s.currThread,deadline s 0 4294968 0,queued u 0,queued v 0))=some (some 0,704,0,1) := by
    decide +kernel
  obtain ⟨s,hs,h⟩ := Option.bind_eq_some_iff.mp h
  obtain ⟨t,ht,h⟩ := Option.bind_eq_some_iff.mp h
  obtain ⟨u,hu,h⟩ := Option.bind_eq_some_iff.mp h
  obtain ⟨v,hv,hq⟩ := Option.map_eq_some_iff.mp h
  simp only [Prod.mk.injEq] at hq
  refine ⟨s,t,u,v,⟨1,0,4096,0,runs_of_replay hs⟩,hq.1,?_,step_of_replay ht,runs_of_replay hu,
    step_of_replay hv,?_⟩
  · rw [hq.2.1]
    omega
  · rw [hq.2.2.1,hq.2.2.2]
    decide

/-- A sleep of five seconds, woken at five seconds. -/
theorem no_early_wakeup_fiveSeconds : ∃ s t u v,TimerCall s 0 5000 0 (.sleep 5000 0 (100,100)) ∧
    step s (.sleep 5000 0 (100,100))=some (.ok t) ∧ Runs step (fun r b => resets r 0 b=false) t u ∧
    step u (.expire 5000000)=some (.ok v) ∧ queued u 0<queued v 0 ∧
    0-s.birth+1000*5000≤deadline s 0 5000 0 ∧ deadline s 0 5000 0≤5000000-s.birth := by
  have h : ((replay step (dycoScheduleCreate 1 0 4096 0) firstRuns).bind fun s =>
      (replay step s [.sleep 5000 0 (100,100)]).bind fun t =>
      (replayWhile step (fun r b => resets r 0 b=false) t nextRound).bind fun u =>
      (replay step u [.expire 5000000]).map fun v =>
        (s.currThread,queued u 0,queued v 0))=some (some 0,0,1) := by
    decide +kernel
  obtain ⟨s,hs,h⟩ := Option.bind_eq_some_iff.mp h
  obtain ⟨t,ht,h⟩ := Option.bind_eq_some_iff.mp h
  obtain ⟨u,hu,h⟩ := Option.bind_eq_some_iff.mp h
  obtain ⟨v,hv,hq⟩ := Option.map_eq_some_iff.mp h
  simp only [Prod.mk.injEq] at hq
  have hcall : TimerCall s 0 5000 0 (.sleep 5000 0 (100,100)) :=
    .sleep hq.1 (toInt_of_lt (by decide))
  have hmoved : queued u 0<queued v 0 := by
    rw [hq.2.1,hq.2.2]
    decide
  obtain ⟨hiff,hrun,-⟩ := no_early_wakeup (s := s) (c := 0) 0 (show (0 : ℤ)<5000 by decide)
  exact ⟨s,t,u,v,hcall,step_of_replay ht,runs_of_replayWhile hu,step_of_replay hv,hmoved,
    hiff.mpr (.inl (by decide)),hrun _ t u v _ hcall (step_of_replay ht) (runs_of_replayWhile hu)
      (step_of_replay hv) hmoved⟩

end DycoCoroutine.SleepDeadline
