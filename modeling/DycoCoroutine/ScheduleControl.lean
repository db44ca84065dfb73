import DycoCoroutine.ScheduleRun

/-!
# Steps without a fault, and where control stands

`Moves` says once what a fault-free step has done, guards included; every
invariant is proved by cases on it. The first is the law of control. The
program counter, the scheduler status and `curr_thread` depend on the containers
only through the branches taken. No operation of a phase touches them; the
phases and the calls of coroutines do. The law that relates them holds in every
state of every run, without any condition on the actions.
-/

namespace DycoCoroutine.ScheduleControl

open ScheduleState ScheduleOps ScheduleRun RunInvariant SlottedMap

/-- The part of the state that directs control. -/
def controlPoint (s : Sched) : Pc×SchedStatus×Option Co := (s.pc,s.status,s.currThread)

variable {s t : Sched} {c : Co} {fd : ℤ}

/-- The same control point, the same program counter. -/
theorem pc_eq (h : controlPoint t=controlPoint s) : t.pc=s.pc := congrArg Prod.fst h

/-- The same control point, the same status. -/
theorem status_eq (h : controlPoint t=controlPoint s) : t.status=s.status :=
  congrArg (fun p => p.2.1) h

/-- The same control point, the same current thread. -/
theorem currThread_eq (h : controlPoint t=controlPoint s) : t.currThread=s.currThread :=
  congrArg (fun p => p.2.2) h

/-- An update of one record moves no control. -/
@[simp] theorem control_setCo (f : Coroutine → Coroutine) :
    controlPoint (s.setCo c f)=controlPoint s := rfl

/-- Queueing a coroutine moves no control. -/
@[simp] theorem control_insertReady : controlPoint (insertReady s c)=controlPoint s := by
  unfold insertReady
  split_ifs <;> rfl

/-- Removing a sleeper moves no control. -/
@[simp] theorem control_dropKey : controlPoint (dropKey s c)=controlPoint s := by
  unfold dropKey
  split <;> rfl

/-- Setting a timer moves no control. -/
@[simp] theorem control_schedSleep (msecs : ℤ) (now : ℕ) :
    controlPoint (scheduleSchedSleep s c msecs now)=controlPoint s := by
  unfold scheduleSchedSleep
  split_ifs
  · exact control_dropKey
  · exact Eq.trans rfl control_dropKey

/-- Saving a stack moves no control. -/
@[simp] theorem control_savestk (depth : ℕ) : controlPoint (savestk s c depth)=controlPoint s := by
  unfold savestk
  split_ifs <;> rfl

/-- What `yield` records about its caller is not yet the switch. -/
@[simp] theorem control_yield (depth : ℕ×ℕ) (k : Cont) :
    controlPoint (yield s c depth k)=controlPoint s := by
  unfold yield
  split_ifs <;> simp

/-- The first sleeper is the one whose time has come. -/
theorem getExpired_cases {now : ℕ} (h : scheduleGetExpired s now=some (c,t)) :
    ∃ rest,s.sleeping=c::rest ∧ s.key c≤now-s.birth ∧
      t=({s with sleeping := s.sleeping.erase c}).setCo c fun r =>
        {r with statusSleeping := false,flagsExpired := true} := by
  unfold scheduleGetExpired at h
  split at h
  · cases h
  next rest hl =>
    split_ifs at h with hk
    cases h
    exact ⟨rest,hl,hk,rfl⟩

/-- Taking an expired sleeper moves no control. -/
theorem control_getExpired {now : ℕ} (h : scheduleGetExpired s now=some (c,t)) :
    controlPoint t=controlPoint s := by
  obtain ⟨rest,-,-,rfl⟩ := getExpired_cases h
  rfl

/-- Deleting a descriptor from the poller moves no control. -/
theorem control_epollCtlDel (h : epollCtlDel s fd=.ok t) : controlPoint t=controlPoint s := by
  unfold epollCtlDel at h
  split_ifs at h
  cases h
  rfl

/-- Cancelling a timer moves no control. -/
theorem control_cancelSleep (h : scheduleCancelSleep s c=.ok t) : controlPoint t=controlPoint s := by
  unfold scheduleCancelSleep at h
  split_ifs at h <;> cases h <;> rfl

/-- Cancelling a wait moves no control. -/
theorem control_cancelWait (h : scheduleCancelWait s c fd=.ok t) : controlPoint t=controlPoint s := by
  unfold scheduleCancelWait at h
  split_ifs at h
  · have hd := control_epollCtlDel h
    exact hd
  · cases h
    rfl

/-- Registering a wait moves no control. -/
theorem control_schedWait (h : scheduleSchedWait s c fd=.ok t) : controlPoint t=controlPoint s := by
  obtain ⟨u,hu,h⟩ := bind_eq_ok h
  unfold epollCtlAdd at hu
  split_ifs at hu
  cases hu
  cases h
  rfl

/-- Entering a coroutine into the map of cids moves no control. -/
theorem control_register (h : register s c=.ok t) : controlPoint t=controlPoint s := by
  unfold register at h
  split_ifs at h
  cases h
  rfl

/-- A new member of a pool moves no control. -/
theorem control_cpAdd (p stacksize : ℕ) : controlPoint (cpAdd s p stacksize)=controlPoint s := by
  unfold cpAdd newcoro
  rfl

/-- Creating a pool moves no control. -/
theorem control_cpCreate (p : ℕ) (totalsize : ℤ) (stacksize : ℕ) :
    controlPoint (cpCreate s p totalsize stacksize)=controlPoint s := by
  have hfill : ∀ n s,controlPoint (cpFill p stacksize n s)=controlPoint s := by
    intro n
    induction n with
    | zero => exact fun _ => rfl
    | succ n ih => exact fun s => (ih _).trans (control_cpAdd p stacksize)
  unfold cpCreate
  split_ifs
  · rfl
  · exact hfill _ _

/-- Writing back what a record holds changes nothing. -/
theorem setCo_eq_self {f : Coroutine → Coroutine} (h : f (s.co c)=s.co c) : s.setCo c f=s := by
  unfold Sched.setCo
  rw [h,Function.update_eq_self]

/-- What the release of a coroutine touches: its registration and its WAITING
bit only if it is waiting. -/
theorem releaseCoro_cases (h : releaseCoro s c=.ok t) :
    ∃ map fds set b,t=Sched.setCo {s with
        coroCount := s.coroCount-1
        cidCoMap := s.cidCoMap.erase (s.co c).cid
        fdCoMap := map
        openFds := fds
        epollSet := set} c (fun r => {r with flagsWaiting := b}) ∧
      ((s.co c).flagsWaiting=false → map=s.fdCoMap ∧ b=false) ∧
      (map=s.fdCoMap ∨ ∃ k,map=s.fdCoMap.erase k) := by
  unfold releaseCoro at h
  split_ifs at h
  obtain ⟨u,hu,h⟩ := bind_eq_ok h
  have hu' : ∃ map fds set b,u=Sched.setCo {s with
        coroCount := s.coroCount-1
        cidCoMap := s.cidCoMap.erase (s.co c).cid
        fdCoMap := map
        openFds := fds
        epollSet := set} c (fun r => {r with flagsWaiting := b}) ∧
      ((s.co c).flagsWaiting=false → map=s.fdCoMap ∧ b=false) ∧
      (map=s.fdCoMap ∨ ∃ k,map=s.fdCoMap.erase k) := by
    unfold takeDownEpoll at hu
    split_ifs at hu
    · obtain ⟨v,hv,hu⟩ := bind_eq_ok hu
      obtain ⟨w,hw,hu⟩ := bind_eq_ok hu
      unfold epollCtlDel at hw
      split_ifs at hw
      cases hw
      cases hu
      unfold scheduleCancelWait at hv
      split_ifs at hv with hwait
      · unfold epollCtlDel at hv
        split_ifs at hv
        cases hv
        exact ⟨_,_,_,_,rfl,fun h => absurd hwait (by simp [h]),.inr ⟨_,rfl⟩⟩
      · cases hv
        exact ⟨_,_,_,(s.co c).flagsWaiting,(setCo_eq_self rfl).symm,fun h => ⟨rfl,h⟩,
          .inl rfl⟩
    · cases hu
      exact ⟨_,_,_,(s.co c).flagsWaiting,(setCo_eq_self rfl).symm,fun h => ⟨rfl,h⟩,
        .inl rfl⟩
  obtain ⟨map,fds,set,b,rfl,hb⟩ := hu'
  cases h
  unfold takeDownSignal
  split_ifs
  · exact ⟨map,_,_,b,rfl,hb⟩
  · exact ⟨map,fds,set,b,rfl,hb⟩

/-- The end of one coroutine touches the count, the maps, the descriptors, the
pools and its own record, and adds nothing to `fd_co_map`. -/
def EndsOnly (c : Co) (s t : Sched) : Prop :=
  t={s with
    coroCount := t.coroCount
    cidCoMap := t.cidCoMap
    fdCoMap := t.fdCoMap
    openFds := t.openFds
    epollSet := t.epollSet
    co := t.co
    pools := t.pools} ∧ (∀ d≠c,t.co d=s.co d) ∧
  (t.fdCoMap=s.fdCoMap ∨ ∃ k,t.fdCoMap=s.fdCoMap.erase k)

/-- `coro_abort` does nothing, returns a released coroutine to its pool, or frees it. -/
theorem coroAbort_cases (h : coroAbort s c=.ok t) : t=s ∨ ∃ u,releaseCoro s c=.ok u ∧
    ((∃ p,t=(u.setCo c fun r => {r with flagsUrgent := false,life := .idle}).setPool p fun cp =>
      {cp with freelist := c::cp.freelist,activenum := cp.activenum-1}) ∨
    t=u.setCo c fun r => {r with life := .freed}) := by
  unfold coroAbort cpReturn freecoro at h
  split_ifs at h
  · split at h
    · cases h
      exact .inl rfl
    · obtain ⟨u,hu,h⟩ := bind_eq_ok h
      cases h
      exact .inr ⟨u,hu,.inl ⟨_,rfl⟩⟩
  · obtain ⟨u,hu,h⟩ := bind_eq_ok h
    cases h
    exact .inr ⟨u,hu,.inr rfl⟩

/-- The abort of one coroutine ends no other. -/
theorem coroAbort_endsOnly (h : coroAbort s c=.ok t) : EndsOnly c s t := by
  rcases coroAbort_cases h with rfl|⟨u,hu,ht⟩
  · exact ⟨rfl,fun _ _ => rfl,.inl rfl⟩
  obtain ⟨map,fds,set,b,rfl,-,hm⟩ := releaseCoro_cases hu
  rcases ht with ⟨p,rfl⟩|rfl
  · exact ⟨rfl,fun d hd => by simp [hd],hm⟩
  · exact ⟨rfl,fun d hd => by simp [hd],hm⟩

/-- `coro_abort` takes the cid of the coroutine out of `cid_co_map`. -/
theorem cidCoMap_coroAbort (h : coroAbort s c=.ok t) :
    t=s ∨ t.cidCoMap=s.cidCoMap.erase (s.co c).cid := by
  rcases coroAbort_cases h with rfl|⟨u,hu,ht⟩
  · exact .inl rfl
  obtain ⟨map,fds,set,b,rfl,-⟩ := releaseCoro_cases hu
  rcases ht with ⟨p,rfl⟩|rfl <;> exact .inr rfl

/-- The abort of one coroutine moves no control. -/
theorem control_coroAbort (h : coroAbort s c=.ok t) : controlPoint t=controlPoint s := by
  have hc := congrArg controlPoint (coroAbort_endsOnly h).1
  exact hc

/-- The deletion of a killed coroutine finds nothing, or it releases the coroutine that it
finds and erases the cid once more. -/
theorem cidDelete_cases {cid : ℤ} (h : cidDeleteWithAbort s cid=.ok t) : t=s ∨
    ∃ c u,s.cidCoMap.lookup cid=some c ∧ heads cidSlot s.cidCoMap cid=false ∧
      coroAbort s c=.ok u ∧ t={u with cidCoMap := u.cidCoMap.erase cid} := by
  unfold cidDeleteWithAbort at h
  split at h
  · cases h
    exact .inl rfl
  next c hc =>
    split_ifs at h with hheads
    obtain ⟨u,hu,h⟩ := bind_eq_ok h
    cases h
    exact .inr ⟨c,u,hc,by simpa using hheads,hu,rfl⟩

/-- What every `coro_abort` keeps is kept by the clearing of a chain. -/
theorem clearChain_invariant (P : Sched → Prop)
    (hP : ∀ v c v',P v → coroAbort v c=.ok v' → P v') {l : List (Σ _ : ℤ,Co)} (hs : P s)
    (h : clearChain l s=.ok t) : P t := by
  induction l generalizing s with
  | nil =>
    cases h
    exact hs
  | cons e rest ih =>
    obtain ⟨u,hu,h⟩ := bind_eq_ok h
    split_ifs at h
    exact ih (hP _ _ _ hs hu) h

/-- What every `coro_abort` keeps is kept by the clearing of `cid_co_map`. -/
theorem cidClear_invariant (P : Sched → Prop)
    (hP : ∀ v c v',P v → coroAbort v c=.ok v' → P v') (hs : P s)
    (h : cidClearWithAbort s=.ok t) : P t := by
  refine foldlM_invariant P (fun v i v' hv hf => ?_) hs h
  unfold clearSlot at hf
  split at hf
  · cases hf
    exact hv
  · obtain ⟨u,hu,hf⟩ := bind_eq_ok hf
    exact clearChain_invariant P hP (hP _ _ _ hv hu) hf

/-- The deletion of a killed coroutine does not move control. -/
theorem control_cidDelete {cid : ℤ} (h : cidDeleteWithAbort s cid=.ok t) :
    controlPoint t=controlPoint s := by
  rcases cidDelete_cases h with rfl|⟨c,u,-,-,hu,rfl⟩
  · rfl
  · have hc := control_coroAbort hu
    exact hc

/-- Control is back in the scheduler once `resume` has handled its coroutine. -/
theorem control_resumeReturn (h : resumeReturn s c=.ok t) :
    controlPoint t=(s.pc,s.status,none) := by
  unfold resumeReturn at h
  dsimp only at h
  split_ifs at h
  · obtain ⟨u,hu,h⟩ := bind_eq_ok h
    exact (control_cidDelete h).trans (control_cancelSleep hu)
  · obtain ⟨u,hu,h⟩ := bind_eq_ok h
    exact (control_coroAbort h).trans (control_cancelSleep hu)
  · cases h
    rfl

/-- A created coroutine leaves the control where it is; only a status other than RUNNING may
change. -/
theorem control_enroll {urgent : Bool} (h : enroll s c urgent=.ok t) :
    t.pc=s.pc ∧ t.currThread=s.currThread ∧ (s.status=.running → t.status=.running) := by
  obtain ⟨u,hu,h⟩ := bind_eq_ok h
  have hc := control_register hu
  have hp := pc_eq hc
  have hr := currThread_eq hc
  have hs := status_eq hc
  cases h
  unfold wakeScheduler queueNew
  refine ⟨?_,?_,fun hrun => ?_⟩ <;> split_ifs <;> simp_all

/-- Whoever has a coroutine to run is not DONE. -/
theorem enroll_status {urgent : Bool} (h : enroll s c urgent=.ok t) : t.status≠.done := by
  obtain ⟨u,-,h⟩ := bind_eq_ok h
  cases h
  unfold wakeScheduler
  split_ifs with hd
  · exact fun h => by cases h
  · exact hd

/-- The law of control: only a resumed coroutine is the current thread, and
`dyco_schedule_run` is active exactly while the status says so. -/
structure Control (s : Sched) : Prop where
  /-- A current thread is inside phase B or C. -/
  thread : ∀ c,s.currThread=some c → ∃ urgent last idx,s.pc=.inCo urgent last idx
  /-- Inside the scheduler the status is RUNNING. -/
  running : (∀ r,s.pc≠.main r) → s.status=.running

/-- Outside a coroutine there is no current thread. -/
theorem Control.currThread_eq_none (h : Control s)
    (hp : ∀ urgent last idx,s.pc≠.inCo urgent last idx) : s.currThread=none := by
  cases hc : s.currThread with
  | none => rfl
  | some c =>
    obtain ⟨urgent,last,idx,hi⟩ := h.thread c hc
    exact absurd hi (hp urgent last idx)

/-- The discipline of control depends on the program counter, the thread and RUNNING. -/
theorem Control.of_eq (h : Control s) (hp : t.pc=s.pc) (hc : t.currThread=s.currThread)
    (hs : s.status=.running → t.status=.running) : Control t where
  thread c := by rw [hc,hp]; exact h.thread c
  running := by rw [hp]; exact fun hm => hs (h.running hm)

/-- Leaving a coroutine moves the program counter only. -/
theorem leaveCo_eq (s : Sched) (c : Co) : ∃ pc,leaveCo s c=s.goto pc := by
  unfold leaveCo endPhase startPhase
  split
  · split_ifs <;> exact ⟨_,rfl⟩
  · exact ⟨s.pc,rfl⟩

/-- Leaving a coroutine keeps the status and the thread. -/
theorem control_leaveCo (s : Sched) (c : Co) :
    (leaveCo s c).status=s.status ∧ (leaveCo s c).currThread=s.currThread := by
  obtain ⟨pc,h⟩ := leaveCo_eq s c
  rw [h]
  exact ⟨rfl,rfl⟩

/-- Giving up control leads back to the loop, or out of `dyco_schedule_run`
after a stop or an abort. -/
theorem Control.leaveCo {urgent : Bool} {last : Option Co} {idx : ℕ}
    (hp : s.pc=.inCo urgent last idx) (hc : s.currThread=none)
    (hs : s.status=.running ∨ s.status=.stopped ∨ s.status=.aborted) :
    Control (leaveCo s c) := by
  obtain ⟨hst,hcu⟩ := control_leaveCo s c
  refine ⟨fun d hd => ?_,fun hm => ?_⟩
  · rw [hcu,hc] at hd
    cases hd
  · rw [hst]
    rcases hs with hs|hs|hs
    · exact hs
    · refine absurd ?_ (hm (some 1))
      simp [ScheduleRun.leaveCo,hp,hs]
    · refine absurd ?_ (hm (some (-1)))
      simp [ScheduleRun.leaveCo,hp,hs]

/-- Giving up control clears the thread, and then the loop is entered again. -/
theorem backToLoop_control (h : backToLoop s c=.ok t) :
    ∃ u,controlPoint u=(s.pc,s.status,none) ∧ t=leaveCo u c := by
  obtain ⟨u,hu,h⟩ := bind_eq_ok h
  cases h
  exact ⟨u,control_resumeReturn hu,rfl⟩

/-- The running coroutine `c` is inside phase B or C. -/
def Running (s : Sched) (c : Co) : Prop :=
  (∃ urgent last idx,s.pc=.inCo urgent last idx) ∧ s.currThread=some c

/-- What a step without a fault has done, with the guard under which it was
possible. -/
inductive Moves (s : Sched) : Act → Sched → Prop
  | create {urgent : Bool} {t : Sched} (hu : inUserCode s)
      (h : dycoCoroutineCreate s urgent=.ok t) : Moves s (.create urgent) t
  | poolCreate {p : ℕ} {totalsize : ℤ} {stacksize : ℕ} (hu : inUserCode s)
      (hp : s.pools p=none) :
      Moves s (.poolCreate p totalsize stacksize) (cpCreate s p totalsize stacksize)
  | obtain {p : ℕ} {urgent : Bool} {t : Sched} (hu : inUserCode s)
      (h : cpObtain s p urgent=.ok t) : Moves s (.obtain p urgent) t
  | setUrgent {cid : ℤ} {urgent : Bool} {t : Sched} (hu : inUserCode s)
      (h : dycoCoroutineSetUrgent s cid urgent=.ok t) : Moves s (.setUrgent cid urgent) t
  | openFd {fd : ℤ} (hu : inUserCode s) (hf : 0≤fd ∧ fd∉s.openFds) :
      Moves s (.openFd fd) (openFd s fd)
  | closeFd {fd : ℤ} (hu : inUserCode s) : Moves s (.closeFd fd) (closeFd s fd)
  | run {t : Sched} (hu : inUserCode s) (h : dycoScheduleRun s=.ok t) : Moves s .run t
  | loop (hp : s.pc=.loop) : Moves s .loop (loopHead s)
  | expire {now : ℕ} {t : Sched} (hp : s.pc=.phaseA) (hn : s.clock≤now)
      (h : phaseA s now=.ok t) : Moves s (.expire now) t
  | dispatch {urgent : Bool} {last : Option Co} {idx : ℕ} {t : Sched}
      (hp : s.pc=.queue urgent last idx) (h : phaseBC s urgent last idx=.ok t) :
      Moves s .dispatch t
  | poll {fds : List ℤ} (hp : s.pc=.phaseD) (hn : fds.Nodup) (hf : ∀ fd∈fds,fd∈s.epollSet) :
      Moves s (.poll fds) (s.goto (.events fds))
  | eventsDone (hp : s.pc=.events []) : Moves s .event (s.goto .loop)
  | event {fd : ℤ} {rest : List ℤ} {t : Sched} (hp : s.pc=.events (fd::rest))
      (h : phaseD s fd rest=.ok t) : Moves s .event t
  | sleep {c : Co} {msecs : UInt32} {now : ℕ} {depth : ℕ×ℕ} {t : Sched} (hr : Running s c)
      (hn : s.clock≤now) (h : dycoCoroutineSleep s c msecs now depth=.ok t) :
      Moves s (.sleep msecs now depth) t
  | wait {c : Co} {fd timeout : ℤ} {now : ℕ} {depth : ℕ×ℕ} {t : Sched} (hr : Running s c)
      (hn : s.clock≤now) (ht : timeout≠0) (h : waitev s c fd timeout now depth=.ok t) :
      Moves s (.wait fd timeout now depth) t
  | exit {c : Co} {depth : ℕ×ℕ} {t : Sched} (hr : Running s c)
      (h : coroutineExit s c depth=.ok t) : Moves s (.exit depth) t
  | abort {c : Co} {t : Sched} (hr : Running s c) (h : coroutineKill s c=.ok t) :
      Moves s .abort t
  | checkStack {c : Co} {depth : ℕ} {t : Sched} (hr : Running s c)
      (h : (if checkstk s c depth then coroutineKill s c else .ok s)=.ok t) :
      Moves s (.checkStack depth) t
  | stop {c : Co} {depth : ℕ} (hr : Running s c) :
      Moves s (.stop depth) (dycoSchedcallStop s c depth)
  | schedAbort {c : Co} {t : Sched} (hr : Running s c) (h : dycoSchedcallAbort s c=.ok t) :
      Moves s .schedAbort t
  | epollInit {c : Co} {fd : ℤ} (hr : Running s c) (hf : 0≤fd ∧ fd∉s.openFds) :
      Moves s (.epollInit fd) (dycoEpollInit s c fd)
  | epollDestroy {c : Co} (hr : Running s c) : Moves s .epollDestroy (dycoEpollDestroy s c)
  | signalInit {c : Co} {fd : ℤ} (hr : Running s c) (hf : 0≤fd ∧ fd∉s.openFds) :
      Moves s (.signalInit fd) (dycoSignalInit s c fd)
  | signalDestroy {c : Co} (hr : Running s c) :
      Moves s .signalDestroy (dycoSignalDestroy s c)

/-- A call of the program happens outside the loop. -/
theorem inProgram_eq_some {r r' : Except Fault Sched} (h : inProgram s r=some r') :
    inUserCode s ∧ r=r' := by
  unfold inProgram at h
  split_ifs at h with hu
  exact ⟨hu,Option.some.inj h⟩

/-- A call of a coroutine is made by the one that runs. -/
theorem inCoroutine_eq_some {f : Co → Except Fault Sched} {r : Except Fault Sched}
    (h : inCoroutine s f=some r) : ∃ c,Running s c ∧ f c=r := by
  unfold inCoroutine at h
  split at h
  next urgent last idx c hp hc => exact ⟨c,⟨⟨urgent,last,idx,hp⟩,hc⟩,Option.some.inj h⟩
  · cases h

/-- A step without a fault is a move. -/
theorem moves_of_step {a : Act} (h : step s a=some (.ok t)) : Moves s a t := by
  cases a with
  | create urgent =>
    obtain ⟨hu,h⟩ := inProgram_eq_some h
    exact .create hu h
  | poolCreate p totalsize stacksize =>
    simp only [step] at h
    split_ifs at h with hp
    obtain ⟨hu,h⟩ := inProgram_eq_some h
    cases h
    exact .poolCreate hu hp
  | obtain p urgent =>
    obtain ⟨hu,h⟩ := inProgram_eq_some h
    exact .obtain hu h
  | setUrgent cid urgent =>
    obtain ⟨hu,h⟩ := inProgram_eq_some h
    exact .setUrgent hu h
  | openFd fd =>
    simp only [step] at h
    split_ifs at h with hf
    obtain ⟨hu,h⟩ := inProgram_eq_some h
    cases h
    exact .openFd hu hf
  | closeFd fd =>
    obtain ⟨hu,h⟩ := inProgram_eq_some h
    cases h
    exact .closeFd hu
  | run =>
    obtain ⟨hu,h⟩ := inProgram_eq_some h
    exact .run hu h
  | loop =>
    simp only [step] at h
    split_ifs at h with hp
    cases h
    exact .loop hp
  | expire now =>
    simp only [step] at h
    split_ifs at h with hp
    exact .expire hp.1 hp.2 (Option.some.inj h)
  | dispatch =>
    simp only [step] at h
    split at h
    next hp => exact .dispatch hp (Option.some.inj h)
    · cases h
  | poll fds =>
    simp only [step] at h
    split_ifs at h with hp
    cases h
    exact .poll hp.1 hp.2.1 hp.2.2.1
  | event =>
    simp only [step] at h
    split at h
    next hp =>
      cases h
      exact .eventsDone hp
    next hp => exact .event hp (Option.some.inj h)
    · cases h
  | sleep msecs now depth =>
    simp only [step] at h
    split_ifs at h with hn
    obtain ⟨c,hr,h⟩ := inCoroutine_eq_some h
    exact .sleep hr hn h
  | wait fd timeout now depth =>
    simp only [step] at h
    split_ifs at h with hn
    obtain ⟨c,hr,h⟩ := inCoroutine_eq_some h
    exact .wait hr hn.1 hn.2 h
  | exit depth =>
    obtain ⟨c,hr,h⟩ := inCoroutine_eq_some h
    exact .exit hr h
  | abort =>
    obtain ⟨c,hr,h⟩ := inCoroutine_eq_some h
    exact .abort hr h
  | checkStack depth =>
    obtain ⟨c,hr,h⟩ := inCoroutine_eq_some h
    exact .checkStack hr h
  | stop depth =>
    obtain ⟨c,hr,h⟩ := inCoroutine_eq_some h
    cases h
    exact .stop hr
  | schedAbort =>
    obtain ⟨c,hr,h⟩ := inCoroutine_eq_some h
    exact .schedAbort hr h
  | epollInit fd =>
    simp only [step] at h
    split_ifs at h with hf
    obtain ⟨c,hr,h⟩ := inCoroutine_eq_some h
    cases h
    exact .epollInit hr hf
  | epollDestroy =>
    obtain ⟨c,hr,h⟩ := inCoroutine_eq_some h
    cases h
    exact .epollDestroy hr
  | signalInit fd =>
    simp only [step] at h
    split_ifs at h with hf
    obtain ⟨c,hr,h⟩ := inCoroutine_eq_some h
    cases h
    exact .signalInit hr hf
  | signalDestroy =>
    obtain ⟨c,hr,h⟩ := inCoroutine_eq_some h
    cases h
    exact .signalDestroy hr

/-- An abort sets its status and clears the thread. -/
theorem control_scheduleAbort (h : scheduleAbort s=.ok t) :
    controlPoint t=(s.pc,.aborted,none) := by
  obtain ⟨u,hu,h⟩ := bind_eq_ok h
  have hc : controlPoint u=controlPoint s :=
    cidClear_invariant (fun v => controlPoint v=controlPoint s)
      (fun _ _ _ hv hf => (control_coroAbort hf).trans hv) rfl hu
  cases h
  simp only [controlPoint,pc_eq hc]

/-- `resume` makes its coroutine the current thread. -/
theorem control_enterCo (h : enterCo s c=.ok t) : controlPoint t=(s.pc,s.status,some c) := by
  unfold enterCo at h
  split at h
  · cases h
    rfl
  · cases h
    rfl
  · obtain ⟨u,hu,h⟩ := bind_eq_ok h
    exact (control_cancelWait h).trans (control_cancelSleep hu)
  · cases h
    rfl

/-- Taking the head of a queue moves no control. -/
theorem control_popQueue {urgent : Bool} {rest : List Co} :
    controlPoint (popQueue s urgent c rest)=controlPoint s := by
  unfold popQueue
  split_ifs <;> rfl

/-- A round of phase A ends the phase, or takes a sleeper that is due to a ready queue. -/
theorem phaseA_cases {now : ℕ} (h : phaseA s now=.ok t) :
    scheduleGetExpired (s.setClock now) now=none ∧ t=startPhase (s.setClock now) true ∨
    ∃ c u,scheduleGetExpired (s.setClock now) now=some (c,u) ∧ (s.co c).life≠.freed ∧
      t=insertReady u c := by
  unfold phaseA at h
  dsimp only at h
  split at h
  next hg =>
    cases h
    exact .inl ⟨hg,rfl⟩
  next c u hg =>
    split_ifs at h with hl
    cases h
    exact .inr ⟨c,u,hg,hl,rfl⟩

/-- A round of phase B or C ends the phase, or enters the first coroutine of the queue. -/
theorem phaseBC_cases {urgent : Bool} {last : Option Co} {idx : ℕ}
    (h : phaseBC s urgent last idx=.ok t) :
    (if urgent then s.urgentReady else s.ready)=[] ∧ t=endPhase s urgent ∨
    ∃ c rest,(if urgent then s.urgentReady else s.ready)=c::rest ∧ (s.co c).life≠.freed ∧
      enterCo ((popQueue s urgent c rest).goto (.inCo urgent last idx)) c=.ok t := by
  unfold phaseBC at h
  split at h
  next hq =>
    cases h
    exact .inl ⟨hq,rfl⟩
  next c rest hq =>
    split_ifs at h with hl
    exact .inr ⟨c,rest,hq,hl,h⟩

/-- Phase D finds no waiter for an event, or makes it ready. -/
theorem phaseD_cases {rest : List ℤ} (h : phaseD s fd rest=.ok t) : t=s.goto (.events rest) ∨
    ∃ c,s.fdCoMap.lookup fd=some c ∧
      scheduleCancelWait (insertReady (s.goto (.events rest)) c) c fd=.ok t := by
  unfold phaseD at h
  dsimp only at h
  split at h
  · cases h
    exact .inl rfl
  next c hl =>
    split_ifs at h
    exact .inr ⟨c,hl,h⟩

/-- A round of the ready descriptors drops the one it has dealt with. -/
theorem control_phaseD {rest : List ℤ} (h : phaseD s fd rest=.ok t) :
    controlPoint t=(.events rest,s.status,s.currThread) := by
  rcases phaseD_cases h with rfl|⟨c,-,h⟩
  · rfl
  · exact (control_cancelWait h).trans control_insertReady

/-- The status is RUNNING while a coroutine runs. -/
theorem Running.inside (hr : Running s c) : ∀ r,s.pc≠.main r := by
  obtain ⟨⟨urgent,last,idx,hp⟩,-⟩ := hr
  simp [hp]

/-- While a coroutine runs, the status is RUNNING. -/
theorem Control.status_of_running (h : Control s) (hr : Running s c) : s.status=.running :=
  h.running hr.inside

/-- Between the phases of the loop or in one of them, outside coroutines. -/
def inPhase (pc : Pc) : Bool :=
  match pc with
  | .main _ => false
  | .inCo _ _ _ => false
  | _ => true

/-- How a step moves control. -/
inductive Flow (s t : Sched) : Prop
  /-- Control stays where it is. -/
  | stays (h : controlPoint t=controlPoint s)
  /-- A coroutine is admitted, and a finished scheduler becomes ready again. -/
  | admits (hp : t.pc=s.pc) (hc : t.currThread=s.currThread)
      (hs : s.status=.running → t.status=.running) (hd : t.status≠.done)
  /-- `dyco_schedule_run` enters its loop. -/
  | starts (hs : s.status≠.running) (h : controlPoint t=(.loop,.running,s.currThread))
  /-- `dyco_schedule_run` returns at once. -/
  | refuses {r : Option ℤ} (hs : s.status≠.running) (h : controlPoint t=(.main r,s.status,s.currThread))
  /-- The loop ends. -/
  | finishes (hp : s.pc=.loop) (hd : isDone s=true)
      (h : controlPoint t=(.main (some 0),.done,s.currThread))
  /-- The loop goes on. -/
  | proceeds {pc : Pc} (hs : inPhase s.pc=true) (hpc : inPhase pc=true)
      (h : controlPoint t=(pc,s.status,s.currThread))
  /-- A coroutine is resumed. -/
  | enters {c : Co} {urgent : Bool} {last : Option Co} {idx : ℕ} (hs : inPhase s.pc=true)
      (h : controlPoint t=(.inCo urgent last idx,s.status,some c))
  /-- A coroutine gives up control. -/
  | leaves {c : Co} {u : Sched} (hr : Running s c) (hp : u.pc=s.pc) (hc : u.currThread=none)
      (hs : u.status=s.status ∨ u.status=.stopped ∨ u.status=.aborted) (h : t=leaveCo u c)

/-- A call that ends in `yield` or a kill gives up control. -/
theorem Flow.suspend {u : Sched} (hr : Running s c) (hc : controlPoint u=controlPoint s)
    (h : backToLoop u c=.ok t) : Flow s t := by
  obtain ⟨v,hv,rfl⟩ := backToLoop_control h
  have hpc : v.pc=u.pc := congrArg Prod.fst hv
  have hst : v.status=u.status := congrArg (fun p => p.2.1) hv
  have hcu : v.currThread=none := congrArg (fun p => p.2.2) hv
  exact .leaves hr (hpc.trans (pc_eq hc)) hcu (.inl (hst.trans (status_eq hc))) rfl

/-- A kill of the caller gives up control. -/
theorem Flow.kill (hr : Running s c) (h : coroutineKill s c=.ok t) : Flow s t := by
  unfold coroutineKill at h
  exact .suspend hr (control_setCo _) h

/-- What a stop records about its caller is not yet the switch. -/
theorem control_stopSuspend (depth : ℕ) : controlPoint (stopSuspend s c depth)=controlPoint s := by
  unfold stopSuspend
  simp

/-- `cp_obtain` returns without effect, or takes the first idle coroutine. -/
theorem cpObtain_cases {p : ℕ} {urgent : Bool} (h : cpObtain s p urgent=.ok t) :
    t=s ∨ ∃ cp c rest,s.pools p=some cp ∧ 0<cp.totalsize-cp.activenum ∧ cp.freelist=c::rest ∧
      enroll ((s.setPool p fun cp => {cp with freelist := rest,activenum := cp.activenum+1}).setCo c
        renewRecord) c urgent=.ok t := by
  unfold cpObtain at h
  split at h
  · cases h
  next cp hp =>
    split_ifs at h with hnone
    · cases h
      exact .inl rfl
    · split at h
      · cases h
      next c rest hl => exact .inr ⟨cp,c,rest,hp,not_le.mp hnone,hl,h⟩

/-- `dyco_coroutine_setUrgent` changes one flag at most. -/
theorem setUrgent_cases {cid : ℤ} {urgent : Bool} (h : dycoCoroutineSetUrgent s cid urgent=.ok t) :
    t=s ∨ ∃ c,t=s.setCo c fun r => {r with flagsUrgent := urgent} := by
  unfold dycoCoroutineSetUrgent at h
  split_ifs at h
  split at h
  · cases h
    exact .inl rfl
  next c _ =>
    cases h
    exact .inr ⟨c,rfl⟩

/-- Every step is one of the moves of control above. -/
theorem flow_of_moves {a : Act} (h : Moves s a t) : Flow s t := by
  cases h with
  | create hu h =>
    obtain ⟨hp,hc,hs⟩ := control_enroll h
    exact .admits hp hc hs (enroll_status h)
  | poolCreate => exact .stays (control_cpCreate _ _ _)
  | obtain hu h =>
    rcases cpObtain_cases h with rfl|⟨cp,c,rest,-,-,-,h⟩
    · exact .stays rfl
    · obtain ⟨hp,hc,hs⟩ := control_enroll h
      exact .admits hp hc hs (enroll_status h)
  | setUrgent hu h => rcases setUrgent_cases h with rfl|⟨c,rfl⟩ <;> exact .stays rfl
  | openFd => exact .stays rfl
  | closeFd => exact .stays rfl
  | run hu h =>
    unfold dycoScheduleRun at h
    split at h
    · cases h
    · next ha =>
      cases h
      exact .refuses (by simp [ha]) rfl
    · next ha =>
      cases h
      exact .refuses (by simp [ha]) rfl
    · next hne _ _ =>
      cases h
      exact .starts hne rfl
  | loop hp =>
    unfold loopHead
    split_ifs with hd
    · exact .finishes hp hd rfl
    · exact .proceeds (by simp [inPhase,hp]) rfl rfl
  | expire hp hn h =>
    rcases phaseA_cases h with ⟨-,rfl⟩|⟨c,u,hg,-,rfl⟩
    · exact .proceeds (by simp [inPhase,hp]) rfl rfl
    · have hc := control_getExpired hg
      exact .stays (control_insertReady.trans hc)
  | dispatch hp h =>
    rcases phaseBC_cases h with ⟨-,rfl⟩|⟨c,rest,-,-,h⟩
    · unfold endPhase startPhase
      split_ifs <;> exact .proceeds (by simp [inPhase,hp]) rfl rfl
    · have he := control_enterCo h
      rw [Sched.goto_pc,Sched.goto_status,status_eq control_popQueue] at he
      exact .enters (by simp [inPhase,hp]) he
  | poll hp => exact .proceeds (by simp [inPhase,hp]) rfl rfl
  | eventsDone hp => exact .proceeds (by simp [inPhase,hp]) rfl rfl
  | event hp h => exact .proceeds (by simp [inPhase,hp]) rfl (control_phaseD h)
  | sleep hr hn h =>
    refine .suspend hr ?_ h
    rw [control_yield]
    split_ifs
    · exact control_insertReady
    · exact control_schedSleep _ _
  | wait hr hn ht h =>
    obtain ⟨u,hu,h⟩ := bind_eq_ok h
    refine .suspend hr ?_ h
    have hc := control_schedWait hu
    rw [control_yield,control_schedSleep]
    exact hc
  | exit hr h => exact .suspend hr (by rw [control_yield]; rfl) h
  | abort hr h => exact .kill hr h
  | checkStack hr h =>
    split_ifs at h
    · exact .kill hr h
    · cases h
      exact .stays rfl
  | @stop c depth hr =>
    have hpc : (stopSuspend s c depth).pc=s.pc := pc_eq (control_stopSuspend depth)
    exact .leaves (u := scheduleStop (stopSuspend s c depth)) hr hpc rfl (.inr (.inl rfl)) rfl
  | schedAbort hr h =>
    obtain ⟨u,hu,h⟩ := bind_eq_ok h
    have hc := control_scheduleAbort hu
    cases h
    exact .leaves hr (congrArg Prod.fst hc) (congrArg (fun p => p.2.2) hc)
      (.inr (.inr (congrArg (fun p => p.2.1) hc))) rfl
  | epollInit hr hf =>
    unfold dycoEpollInit
    split_ifs <;> exact .stays rfl
  | epollDestroy hr =>
    unfold dycoEpollDestroy
    split_ifs <;> exact .stays rfl
  | signalInit hr hf =>
    unfold dycoSignalInit
    split_ifs <;> exact .stays rfl
  | signalDestroy hr =>
    unfold dycoSignalDestroy
    split_ifs <;> exact .stays rfl

/-- Inside a phase there is no current thread, and the status is RUNNING. -/
theorem Control.of_inPhase (h : Control s) (hp : inPhase s.pc=true) :
    s.currThread=none ∧ s.status=.running := by
  refine ⟨h.currThread_eq_none fun urgent last idx hi => ?_,h.running fun r hm => ?_⟩
  · rw [hi] at hp
    cases hp
  · rw [hm] at hp
    cases hp

/-- The law of control is kept by every step. -/
theorem Control.moves {a : Act} (hs : Control s) (h : Moves s a t) : Control t := by
  have hidle : s.status≠.running → s.currThread=none := by
    intro hne
    refine hs.currThread_eq_none fun urgent last idx hp => hne (hs.running ?_)
    rw [hp]
    exact fun r hm => by cases hm
  cases flow_of_moves h with
  | stays h => exact hs.of_eq (pc_eq h) (currThread_eq h) (status_eq h).trans
  | admits hp hc hst hd => exact hs.of_eq hp hc hst
  | starts hne h =>
    simp only [controlPoint,Prod.mk.injEq] at h
    exact ⟨fun c hc => by simp [h,hidle hne] at hc,fun _ => h.2.1⟩
  | refuses hne h =>
    simp only [controlPoint,Prod.mk.injEq] at h
    exact ⟨fun c hc => by simp [h,hidle hne] at hc,fun hm => absurd h.1 (hm _)⟩
  | finishes hp hd h =>
    simp only [controlPoint,Prod.mk.injEq] at h
    have hn := (hs.of_inPhase (by simp [inPhase,hp])).1
    exact ⟨fun c hc => by simp [h,hn] at hc,fun hm => absurd h.1 (hm _)⟩
  | proceeds hp hpc h =>
    simp only [controlPoint,Prod.mk.injEq] at h
    obtain ⟨hn,hst⟩ := hs.of_inPhase hp
    exact ⟨fun c hc => by simp [h,hn] at hc,fun _ => h.2.1.trans hst⟩
  | enters hp h =>
    simp only [controlPoint,Prod.mk.injEq] at h
    exact ⟨fun _ _ => ⟨_,_,_,h.1⟩,fun _ => h.2.1.trans (hs.of_inPhase hp).2⟩
  | leaves hr hp hc hst h =>
    obtain ⟨urgent,last,idx,hi⟩ := hr.1
    rw [h]
    refine .leaveCo (hp.trans hi) hc ?_
    rwa [hs.status_of_running hr] at hst

end DycoCoroutine.ScheduleControl
