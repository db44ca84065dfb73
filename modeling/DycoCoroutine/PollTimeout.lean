import DycoCoroutine.SleepDeadline
import DycoCoroutine.SleepCollision
import DycoCoroutine.ReadyQueues

/-!
# How long the scheduler waits for events

`schedule_epoll_wait` derives the timeout of `epoll_wait` from the first deadline in the
sleeping tree. Here the scheduler runs against a clock: the kernel decides how long a call
of `epoll_wait` takes, every other step has a cost. As long as the kernel honours its
timeouts and no signal arrives, a timer is served late by the cost of the steps and one
wait for events at most. An interrupted wait starts again with its whole timeout, and
then no such bound holds.
-/

namespace DycoCoroutine.PollTimeout

open ScheduleState ScheduleOps ScheduleRun ScheduleControl KeyedSet RunInvariant
open CoroutineStanding CoroutineHops ScheduleAbort ReadyQueues SleepDeadline SleepCollision

/-- What `epoll_wait` returns: events, or -1 with EINTR or with another error. -/
inductive Answer
  | events (fds : List ℤ)
  | interrupted
  | failed
  deriving DecidableEq

/-- The events that phase D handles if this is the last answer. -/
def Answer.fds : Answer → List ℤ
  | .events fds => fds
  | _ => []

/-- The microseconds that a call of `epoll_wait` takes, and what it returns. -/
structure Outcome where
  elapsed : ℕ
  answer : Answer

/-- What the kernel makes of successive calls, given their timeouts in milliseconds. -/
abbrev Kernel := List (ℤ → Outcome)

/-- `schedule_min_timeout` at clock reading `now`, in microseconds. -/
def scheduleMinTimeout (s : Sched) (loopwait now : ℕ) : ℕ :=
  match s.sleeping with
  | [] => loopwait
  | c::_ => if now-s.birth<s.key c then s.key c-(now-s.birth) else 0

/-- A call that does not wait. Its -1 is passed on, and then no event is handled. -/
def pollOnce (now : ℕ) : Kernel → Option (Except Fault (ℕ×List ℤ))
  | [] => none
  | o::_ => some (.ok (now+(o 0).elapsed,(o 0).answer.fds))

/-- The loop around `epoll_wait`: an interrupted call is made again with the same timeout. -/
def pollLoop (timeout : ℤ) (now : ℕ) : Kernel → Option (Except Fault (ℕ×List ℤ))
  | [] => none
  | o::kernel =>
    match (o timeout).answer with
    | .interrupted => pollLoop timeout (now+(o timeout).elapsed) kernel
    | .failed => some (.error .must)
    | .events fds => some (.ok (now+(o timeout).elapsed,fds))

/-- `schedule_epoll_wait` entered at time `now`: the time at which it returns and the events
it found, or `none` while it waits for an answer of the kernel. -/
def scheduleEpollWait (s : Sched) (loopwait now : ℕ) (kernel : Kernel) :
    Option (Except Fault (ℕ×List ℤ)) :=
  if s.fdCoMap.entries=[] ∧ s.sleeping=[] then some (.ok (now,[]))
  else if s.ready≠[] ∨ s.urgentReady≠[] then pollOnce now kernel
  else if scheduleMinTimeout s loopwait now=0 then pollOnce now kernel
  else pollLoop (toInt (scheduleMinTimeout s loopwait now/1000)) now kernel

/-! ## The scheduler with a clock -/

/-- A scheduler, its `loopwait_timeout`, the time, and how much of it was not spent in
`epoll_wait`. -/
structure TimedSched where
  sched : Sched
  loopwait : ℕ
  now : ℕ
  busy : ℕ

/-- A step, what it costs, and the answers of the kernel if it waits for events. -/
structure TimedAct where
  act : Act
  cost : ℕ
  kernel : Kernel

/-- DYCO_DEFAULT_TIMEOUT -/
def defaultTimeout : ℕ := 10000000

/-- `dyco_schedule_create` with its `loopwait_timeout`. -/
def timedCreate (schedId stackSize pageSize loopwait now : ℕ) : TimedSched where
  sched := dycoScheduleCreate schedId stackSize pageSize now
  loopwait := if loopwait=0 then defaultTimeout else loopwait
  now := now
  busy := 0

/-- The value of `usec_now` that a step uses. -/
def clockReading : Act → Option ℕ
  | .expire now => some now
  | .sleep _ now _ => some now
  | .wait _ _ now _ => some now
  | _ => none

/-- `schedule_epoll_wait` reports `fds` to phase D. -/
def timedPoll (w : TimedSched) (fds : List ℤ) (kernel : Kernel) :
    Option (Except Fault TimedSched) :=
  match scheduleEpollWait w.sched w.loopwait w.now kernel with
  | some (.ok (t,found)) =>
    if found=fds then
      (step w.sched (.poll fds)).map (Except.map fun s => {w with sched := s,now := t})
    else none
  | some (.error f) => some (.error f)
  | none => none

/-- A step that does not wait. It reads the clock while it is executed. -/
def timedCall (w : TimedSched) (a : Act) (cost : ℕ) : Option (Except Fault TimedSched) :=
  if (clockReading a).all fun r => w.now≤r && r≤w.now+cost then
    (step w.sched a).map
      (Except.map fun s => {w with sched := s,now := w.now+cost,busy := w.busy+cost})
  else none

/-- One step of the scheduler with a clock. -/
def timedStep (w : TimedSched) (b : TimedAct) : Option (Except Fault TimedSched) :=
  match b.act with
  | .poll fds => if w.sched.pc=.phaseD then timedPoll w fds b.kernel else none
  | a => timedCall w a b.cost

/-- The timed states that a scheduler can reach from its creation. -/
def TimedReachable (cond : Sched → Act → Prop) (w : TimedSched) : Prop :=
  ∃ schedId stackSize pageSize loopwait now,Runs timedStep (fun r b => cond r.sched b.act)
    (timedCreate schedId stackSize pageSize loopwait now) w

/-- The kernel returns when the timeout has passed, with a delay of `slack` at most. -/
def Honours (slack : ℕ) (kernel : Kernel) : Prop :=
  ∀ o∈kernel,∀ timeout,0≤timeout → (o timeout).elapsed≤timeout.toNat*1000+slack

/-- The kernel honours its timeouts and no signal arrives. -/
def Prompt (slack : ℕ) (kernel : Kernel) : Prop :=
  Honours slack kernel ∧ ∀ o∈kernel,∀ timeout,(o timeout).answer≠.interrupted

/-- How many calls with this timeout are interrupted before one is not. -/
def interruptions (timeout : ℤ) : Kernel → ℕ
  | [] => 0
  | o::kernel => if (o timeout).answer=.interrupted then interruptions timeout kernel+1 else 0

variable {s t u : Sched} {w v x : TimedSched} {a : Act} {b : TimedAct} {c : Co}
  {kernel : Kernel} {timeout msecs : ℤ} {fds : List ℤ} {slack loopwait now later : ℕ}

/-! ## One wait -/

/-- A prompt kernel interrupts no wait. -/
theorem interruptions_of_prompt (hk : Prompt slack kernel) : interruptions timeout kernel=0 := by
  cases kernel with
  | nil => rfl
  | cons o kernel => exact if_neg (hk.2 o List.mem_cons_self timeout)

/-- Time passes while the scheduler waits. -/
theorem le_epollWait (h : scheduleEpollWait s loopwait now kernel=some (.ok (later,fds))) :
    now≤later := by
  have honce : pollOnce now kernel=some (.ok (later,fds)) → now≤later := by
    intro h
    cases kernel with
    | nil => cases h
    | cons o kernel =>
      cases h
      exact Nat.le_add_right _ _
  have hloop : ∀ timeout kernel now,pollLoop timeout now kernel=some (.ok (later,fds)) →
      now≤later := by
    intro timeout kernel
    induction kernel with
    | nil =>
      intro now h
      cases h
    | cons o kernel ih =>
      intro now h
      rw [pollLoop] at h
      cases ha : (o timeout).answer with
      | failed => simp [ha] at h
      | events found =>
        simp only [ha,Option.some.injEq,Except.ok.injEq,Prod.mk.injEq] at h
        omega
      | interrupted =>
        simp only [ha] at h
        exact (Nat.le_add_right _ _).trans (ih _ h)
  unfold scheduleEpollWait at h
  split_ifs at h
  · cases h
    exact le_rfl
  · exact honce h
  · exact honce h
  · exact hloop _ _ _ h

/-- A poll without a wait takes no more than the slack. -/
theorem pollOnce_le (hk : Honours slack kernel) (h : pollOnce now kernel=some (.ok (later,fds))) :
    later≤now+slack := by
  cases kernel with
  | nil => cases h
  | cons o kernel =>
    cases h
    have helapsed := hk o List.mem_cons_self 0 le_rfl
    rw [Int.toNat_zero] at helapsed
    omega

/-- Each interruption adds a whole timeout. -/
theorem pollLoop_le (hk : Honours slack kernel) (ht : 0≤timeout)
    (h : pollLoop timeout now kernel=some (.ok (later,fds))) :
    later≤now+(interruptions timeout kernel+1)*(timeout.toNat*1000+slack) := by
  induction kernel generalizing now with
  | nil => cases h
  | cons o kernel ih =>
    have helapsed := hk o List.mem_cons_self timeout ht
    have hrest : Honours slack kernel := fun p hp => hk p (List.mem_cons_of_mem _ hp)
    rw [pollLoop] at h
    cases ha : (o timeout).answer with
    | failed => simp [ha] at h
    | events found =>
      simp only [ha,Option.some.injEq,Except.ok.injEq,Prod.mk.injEq] at h
      rw [interruptions,if_neg (by simp [ha])]
      omega
    | interrupted =>
      simp only [ha] at h
      have hle := ih hrest h
      rw [interruptions,if_pos ha,Nat.add_mul (_+1)]
      omega

/-- The tree is polled no longer than up to any of its deadlines. -/
theorem minTimeout_le (ho : Ordered s.key s.sleeping) (hc : c∈s.sleeping) :
    scheduleMinTimeout s loopwait now ≤ s.key c-(now-s.birth) := by
  unfold scheduleMinTimeout
  split
  next hs => simp [hs] at hc
  next d rest hs =>
    rw [hs] at ho hc
    have hle : s.key d ≤ s.key c := by
      rcases List.mem_cons.mp hc with rfl|hmem
      · exact le_rfl
      · exact ((List.pairwise_cons.mp ho).1 c hmem).le
    split_ifs <;> omega

/-- With a timeout that fits in an `int`, the scheduler waits no longer than for the timeout
and once more for every interruption. -/
theorem epollWait_le (hs : s.sleeping≠[]) (hfits : scheduleMinTimeout s loopwait now<2^31*1000)
    (hk : Honours slack kernel)
    (h : scheduleEpollWait s loopwait now kernel=some (.ok (later,fds))) :
    later≤now+(interruptions ↑(scheduleMinTimeout s loopwait now/1000) kernel+1)*
      (scheduleMinTimeout s loopwait now/1000*1000+slack) := by
  have hint : toInt (scheduleMinTimeout s loopwait now/1000)=
      ↑(scheduleMinTimeout s loopwait now/1000) := toInt_of_lt (by omega)
  have hslack : slack≤(interruptions ↑(scheduleMinTimeout s loopwait now/1000) kernel+1)*
      (scheduleMinTimeout s loopwait now/1000*1000+slack) :=
    (Nat.le_add_left _ _).trans (Nat.le_mul_of_pos_left _ (Nat.succ_pos _))
  unfold scheduleEpollWait at h
  rw [if_neg fun hempty => hs hempty.2] at h
  split_ifs at h
  · have honce := pollOnce_le hk h
    omega
  · have honce := pollOnce_le hk h
    omega
  · rw [hint] at h
    exact pollLoop_le hk (Int.natCast_nonneg _) h

/-! ## Steps of the timed scheduler -/

/-- A timed step is a step of the scheduler: a wait for events, or one that has its cost and
reads the clock meanwhile. -/
theorem timedStep_cases (h : timedStep w b=some (.ok v)) :
    step w.sched b.act=some (.ok v.sched) ∧ v.loopwait=w.loopwait ∧
    ((∃ fds,b.act=.poll fds ∧ v.busy=w.busy ∧
        scheduleEpollWait w.sched w.loopwait w.now b.kernel=some (.ok (v.now,fds))) ∨
      (∀ fds,b.act≠.poll fds) ∧ v.now=w.now+b.cost ∧ v.busy=w.busy+b.cost ∧
        ∀ r,clockReading b.act=some r → w.now≤r ∧ r≤w.now+b.cost) := by
  unfold timedStep at h
  split at h
  next fds ha =>
    split_ifs at h
    unfold timedPoll at h
    split at h
    next t found hw =>
      split_ifs at h with hf
      obtain ⟨r,hr,hv⟩ := Option.map_eq_some_iff.mp h
      obtain ⟨s,rfl,rfl⟩ := map_eq_ok hv
      rw [ha]
      exact ⟨hr,rfl,.inl ⟨fds,rfl,rfl,by rw [hw,hf]⟩⟩
    · cases h
    · cases h
  next hpoll =>
    unfold timedCall at h
    split_ifs at h with hread
    obtain ⟨r,hr,hv⟩ := Option.map_eq_some_iff.mp h
    obtain ⟨s,rfl,rfl⟩ := map_eq_ok hv
    refine ⟨hr,rfl,.inr ⟨hpoll,rfl,rfl,fun r hr => ?_⟩⟩
    simpa [hr] using hread

/-- A timed run is a run of the scheduler. -/
theorem runs_sched {cond : Sched → Act → Prop}
    (h : Runs timedStep (fun r b => cond r.sched b.act) w v) :
    Runs step cond w.sched v.sched := by
  induction h with
  | refl => exact .refl
  | tail _ hc ha ih => exact .tail ih hc (timedStep_cases ha).1

/-- New objects leave the origin of time alone. -/
theorem birth_cpFill (p stacksize n : ℕ) (s : Sched) : (cpFill p stacksize n s).birth=s.birth := by
  induction n generalizing s with
  | zero => rfl
  | succ n ih => exact ih _

/-- The origin of time is never moved. -/
theorem birth_moves (h : Moves s a t) : t.birth=s.birth := by
  have hkeep : ∀ d,resets s d a=false → t.birth=s.birth := fun d hr =>
    congrArg Prod.snd (timerOf_moves h hr)
  cases h with
  | create hu h => exact congrArg Prod.snd (timerOf_enroll (c := 0) h)
  | poolCreate =>
    unfold cpCreate
    split_ifs
    · rfl
    · exact birth_cpFill _ _ _ _
  | obtain hu h =>
    rcases cpObtain_cases h with rfl|⟨cp,d,rest,-,-,-,h⟩
    · rfl
    · exact congrArg Prod.snd (timerOf_enroll (c := 0) h)
  | @sleep d _ _ _ _ hr => exact hkeep (d+1) (by simp [resets,hr.2])
  | @wait d _ _ _ _ _ hr => exact hkeep (d+1) (by simp [resets,hr.2])
  | _ => exact hkeep 0 rfl

/-- The clock has not been before the origin of time. -/
theorem birth_le_now {cond : Sched → Act → Prop} (h : TimedReachable cond w) :
    w.sched.birth≤w.now := by
  obtain ⟨schedId,stackSize,pageSize,loopwait,now,h⟩ := h
  refine h.invariant (fun r => r.sched.birth≤r.now) le_rfl fun r b x hr _ hx => ?_
  obtain ⟨hstep,-,hcase⟩ := timedStep_cases hx
  rw [birth_moves (moves_of_step hstep)]
  rcases hcase with ⟨fds,-,-,hwait⟩|⟨-,hnow,-⟩
  · exact hr.trans (le_epollWait hwait)
  · omega

/-! ## Serving a timer -/

/-- Between the end of a wait for events and the end of the next phase A. -/
def probing : Pc → Bool
  | .events _ => true
  | .loop => true
  | .phaseA => true
  | _ => false

/-- The step is taken while `c` sleeps, with a prompt kernel. -/
def Asleep (slack : ℕ) (c : Co) (w : TimedSched) (b : TimedAct) : Prop :=
  (Disciplined w.sched b.act ∧ w.sched.status≠.aborted ∧ c∈w.sched.sleeping) ∧
    Prompt slack b.kernel

/-- The timer of a sleeper is not set again. -/
theorem resets_of_asleep (hs : Sound s) (hc : c∈s.sleeping) : resets s c a=false := by
  obtain ⟨hlife,hrun,-⟩ := (hs.settled c).asleep (by simpa [standing] using hc)
  have hlive : (s.co c).life=.live := hlife
  have hrunning : s.currThread≠some c := by simpa [standing] using hrun
  have hborn : c<s.nextCo := by
    by_contra hge
    simp [hs.store.unborn c (not_lt.mp hge)] at hlive
  have hbusy : ∀ p cp,s.pools p=some cp → c∉cp.freelist := by
    intro p cp hp hmem
    simp [((hs.store.freelist p cp hp).2 c).mp hmem] at hlive
  cases a with
  | sleep => simpa [resets] using hrunning
  | wait => simpa [resets] using hrunning
  | create => simpa [resets] using hborn
  | poolCreate => simpa [resets] using hborn
  | obtain p urgent =>
    cases hp : s.pools p with
    | none => simp [resets,hp]
    | some cp =>
      have hhead : cp.freelist.head?≠some c := fun hh => hbusy p cp hp (List.mem_of_head? hh)
      simpa [resets,hp] using hhead
  | _ => rfl

/-- Once a wait has ended past the deadline of a sleeper, the scheduler does nothing else
before phase A has moved it. -/
theorem probing_step (h : Moves s a t) (hp : probing s.pc=true) (ho : Ordered s.key s.sleeping)
    (hc : c∈s.sleeping) (hdue : ∀ r,clockReading a=some r → s.key c≤r-s.birth) :
    probing t.pc=true := by
  have huser : ¬inUserCode s := by
    cases hpc : s.pc <;> simp [inUserCode,probing,hpc] at hp ⊢
  have hrun : ∀ d,¬Running s d := by
    rintro d ⟨⟨urgent,last,idx,hpc⟩,-⟩
    simp [probing,hpc] at hp
  cases h with
  | loop =>
    have hne : isDone s=false := by simp [isDone,List.ne_nil_of_mem hc]
    simp [loopHead,hne,probing]
  | @expire now _ hpc hn h =>
    rcases phaseA_cases h with ⟨hnone,-⟩|⟨d,u,hg,-,rfl⟩
    · have hlate := lt_key_of_getExpired (s := s.setClock now) ho hnone c hc
      exact absurd (hdue now rfl) (not_le.mpr hlate)
    · obtain ⟨rest,-,-,rfl⟩ := getExpired_cases hg
      unfold insertReady
      split_ifs <;> exact hp
  | dispatch hpc => simp [probing,hpc] at hp
  | poll hpc => simp [probing,hpc] at hp
  | eventsDone => rfl
  | event hpc h =>
    rw [show t.pc=_ from congrArg Prod.fst (control_phaseD h)]
    rfl
  | _ => first | exact absurd ‹_› huser | exact absurd ‹_› (hrun _)

/-- A poll leads from phase D to its events. -/
theorem pc_of_poll (h : Moves s (.poll fds) t) : s.pc=.phaseD ∧ t.pc=.events fds := by
  cases h with
  | poll hp => exact ⟨hp,rfl⟩

/-- How far the clock has come since `w`, in which the deadline of `c` was set. Past the
deadline there is room for one delay of the kernel, and once it has occurred phase A is
next. -/
structure Timely (slack : ℕ) (c : Co) (w v : TimedSched) : Prop where
  reached : Reachable Disciplined v.sched
  timer : timerOf c v.sched=timerOf c w.sched
  forward : w.now≤v.now
  spent : w.busy≤v.busy
  clock : v.now+w.busy ≤ max w.now (w.sched.birth+w.sched.key c)+v.busy ∨
    probing v.sched.pc=true ∧ w.sched.birth+w.sched.key c≤v.now ∧
      v.now+w.busy ≤ max w.now (w.sched.birth+w.sched.key c)+slack+v.busy

/-- One step while `c` sleeps. -/
theorem Timely.step (h : Timely slack c w v)
    (hnear : w.sched.key c-(w.now-w.sched.birth)<2^31*1000) (hb : Asleep slack c v b)
    (hx : timedStep v b=some (.ok x)) : Timely slack c w x := by
  obtain ⟨⟨hd,hst,hc⟩,hprompt⟩ := hb
  obtain ⟨hstep,-,hcase⟩ := timedStep_cases hx
  have hsound : Sound v.sched := by
    rcases tidy_of_reachable h.reached with ⟨hs,-⟩|⟨ha,-⟩
    · exact hs
    · exact absurd ha hst
  have hm := moves_of_step hstep
  have htimer : timerOf c x.sched=timerOf c w.sched :=
    (timerOf_moves hm (resets_of_asleep hsound hc)).trans h.timer
  have hreached : Reachable Disciplined x.sched := by
    obtain ⟨schedId,stackSize,pageSize,now,hr⟩ := h.reached
    exact ⟨schedId,stackSize,pageSize,now,hr.tail hd hstep⟩
  have hkey : v.sched.key c=w.sched.key c := congrArg Prod.fst h.timer
  have hbirth : v.sched.birth=w.sched.birth := congrArg Prod.snd h.timer
  have hforward := h.forward
  have hspent := h.spent
  rcases hcase with ⟨fds,ha,hbusy,hwait⟩|⟨-,hnow,hbusy,hread⟩
  · have hmin : scheduleMinTimeout v.sched v.loopwait v.now≤
        w.sched.key c-(v.now-w.sched.birth) := by
      rw [← hkey,← hbirth]
      exact minTimeout_le hsound.ordered hc
    have hle := epollWait_le (List.ne_nil_of_mem hc) (by omega) hprompt.1 hwait
    rw [interruptions_of_prompt hprompt,zero_add,one_mul] at hle
    rw [ha] at hm
    obtain ⟨hpc,hevents⟩ := pc_of_poll hm
    refine ⟨hreached,htimer,hforward.trans (le_epollWait hwait),by omega,?_⟩
    rcases h.clock with hclock|⟨hp,-⟩
    · by_cases hlate : w.sched.birth+w.sched.key c≤x.now
      · right
        refine ⟨by rw [hevents]; rfl,hlate,?_⟩
        omega
      · left
        omega
    · simp [probing,hpc] at hp
  · refine ⟨hreached,htimer,by omega,by omega,?_⟩
    rcases h.clock with hclock|⟨hp,hdue,hclock⟩
    · left
      omega
    · right
      refine ⟨probing_step hm hp hsound.ordered hc fun r hr => ?_,by omega,by omega⟩
      have hlate := (hread r hr).1
      rw [hkey,hbirth]
      omega

/-- Every run while `c` sleeps. -/
theorem timely_of_runs (hw : Reachable Disciplined w.sched)
    (hnear : w.sched.key c-(w.now-w.sched.birth)<2^31*1000)
    (h : Runs timedStep (Asleep slack c) w v) : Timely slack c w v :=
  h.invariant (Timely slack c w) ⟨hw,rfl,le_rfl,le_rfl,.inl (by omega)⟩ fun _ _ _ hi hb hx =>
    hi.step hnear hb hx

/-- Removing a sleeper adds none. -/
theorem length_dropKey_le (s : Sched) (c : Co) :
    (dropKey s c).sleeping.length ≤ s.sleeping.length := by
  unfold dropKey
  split
  · exact List.length_erase_le
  · exact le_rfl

/-- A timer call reads the clock. -/
theorem clockReading_of_timerCall (h : TimerCall s c msecs now a) : clockReading a=some now := by
  cases h <;> rfl

/-- A coroutine sets a timer of `msecs` milliseconds at clock reading `now`. In every run from
there, as long as the coroutine sleeps and up to the step in which phase A moves it, the
clock is past the nominal deadline by the number of other sleepers, one delay of the kernel
and the time that was not spent in `epoll_wait`, at most. -/
theorem timer_served_in_time (hw : TimedReachable Disciplined w) (hd : Disciplined w.sched b.act)
    (hpos : 0 < msecs) (hcall : TimerCall w.sched c msecs now b.act)
    (hx : timedStep w b=some (.ok x)) (hlen : w.sched.sleeping.length<2^32)
    (h : Runs timedStep (Asleep slack c) x v) :
    v.now≤now+msecs.toNat*1000%2^32+w.sched.sleeping.length+slack+(v.busy-w.busy) := by
  obtain ⟨hstep,-,hcase⟩ := timedStep_cases hx
  have hborn := birth_le_now hw
  have hreached : Reachable Disciplined x.sched := by
    obtain ⟨schedId,stackSize,pageSize,loopwait,start,hr⟩ := hw
    exact ⟨schedId,stackSize,pageSize,start,(runs_sched hr).tail hd hstep⟩
  have htimer := timerOf_timerCall hpos hcall hstep
  have hkey : x.sched.key c=deadline w.sched c msecs now := congrArg Prod.fst htimer
  have hbirth : x.sched.birth=w.sched.birth := congrArg Prod.snd htimer
  have hdeadline : deadline w.sched c msecs now≤
      now-w.sched.birth+msecs.toNat*1000%2^32+w.sched.sleeping.length := by
    rw [deadline_eq hpos]
    exact (firstUnused_le _ _).trans (Nat.add_le_add_left (length_dropKey_le _ _) _)
  obtain ⟨hnow,hbusy,hread⟩ : x.now=w.now+b.cost ∧ x.busy=w.busy+b.cost ∧
      w.now≤now ∧ now≤w.now+b.cost := by
    rcases hcase with ⟨fds,ha,-⟩|⟨-,hnow,hbusy,hread⟩
    · rw [ha] at hcall
      cases hcall
    · exact ⟨hnow,hbusy,hread now (clockReading_of_timerCall hcall)⟩
  have htimely := timely_of_runs hreached (by rw [hkey,hbirth]; omega) h
  have hspent := htimely.spent
  have hclock := htimely.clock
  rw [hkey,hbirth] at hclock
  omega

/-- The coroutine sleeps five milliseconds, and the kernel returns one too late. -/
def sleepOfFive : List TimedAct :=
  [⟨.poll [],0,[fun timeout => ⟨timeout.toNat*1000+1000,.events []⟩]⟩,⟨.event,1,[]⟩,⟨.loop,1,[]⟩,
    ⟨.expire 5022,1,[]⟩]

/-- A sleep of five milliseconds that is served 13 microseconds late. -/
theorem timer_served_in_time_sleepOfFive : ∃ w x v,TimedReachable Disciplined w ∧
    timedStep w ⟨.sleep 5 10 (100,100),20,[]⟩=some (.ok x) ∧ Runs timedStep (Asleep 1000 0) x v ∧
    v.sched.ready=[0] ∧ v.now=5023 ∧ v.now≤10+5*1000%2^32+0+1000+(v.busy-w.busy) := by
  have h : ((replayWhile timedStep (fun r b => Disciplined r.sched b.act)
        (timedCreate 1 0 4096 0 0) (firstRuns.map fun a => ⟨a,0,[]⟩)).bind fun w =>
      (replay timedStep w [⟨.sleep 5 10 (100,100),20,[]⟩]).bind fun x =>
      (replayWhile timedStep (fun r b => Disciplined r.sched b.act ∧ r.sched.status≠.aborted ∧
        0∈r.sched.sleeping) x sleepOfFive).map fun v =>
        ((w.sched.currThread,w.sched.sleeping,v.sched.ready,v.now),
          decide (Disciplined w.sched (.sleep 5 10 (100,100)))))=
      some ((some 0,[],[0],5023),true) := by
    decide +kernel
  obtain ⟨w,hw,h⟩ := Option.bind_eq_some_iff.mp h
  obtain ⟨x,hx,h⟩ := Option.bind_eq_some_iff.mp h
  obtain ⟨v,hv,hq⟩ := Option.map_eq_some_iff.mp h
  simp only [Prod.mk.injEq,decide_eq_true_eq] at hq
  obtain ⟨⟨hcurrent,hsleeping,hready,hnow⟩,hd⟩ := hq
  have hreach : TimedReachable Disciplined w := ⟨1,0,4096,0,0,runs_of_replayWhile hw⟩
  have hprompt : ∀ b∈sleepOfFive,Prompt 1000 b.kernel := by
    simp [sleepOfFive,Prompt,Honours]
  have hrun := runs_of_replayWhile_forall hprompt hv
  have hcall : TimerCall w.sched 0 5 10 (.sleep 5 10 (100,100)) :=
    .sleep hcurrent (toInt_of_lt (by decide))
  have hlate := timer_served_in_time hreach hd (by decide) hcall (step_of_replay hx)
    (by simp [hsleeping]) hrun
  rw [hsleeping] at hlate
  exact ⟨w,x,v,hreach,step_of_replay hx,hrun,hready,hnow,hlate⟩

/-! ## Interrupted waits -/

/-- Signals end `n` waits right before their timeout. -/
def signalled : ℕ → Kernel
  | 0 => [fun timeout => ⟨timeout.toNat*1000,.events []⟩]
  | n+1 => (fun timeout => ⟨timeout.toNat*1000,.interrupted⟩)::signalled n

/-- A kernel that interrupts `n` waits honours their timeouts. -/
theorem honours_signalled (n : ℕ) : Honours 0 (signalled n) := by
  induction n with
  | zero => simp [signalled,Honours]
  | succ n ih =>
    refine List.forall_mem_cons.mpr ⟨?_,ih⟩
    intro timeout _
    exact Nat.le_add_right _ _

/-- It interrupts `n` waits. -/
theorem interruptions_signalled (n : ℕ) (timeout : ℤ) :
    interruptions timeout (signalled n)=n := by
  induction n with
  | zero => rfl
  | succ n ih => rw [signalled,interruptions,if_pos rfl,ih]

/-- Every interrupted wait starts again with the whole timeout. -/
theorem pollLoop_signalled (n now : ℕ) (timeout : ℤ) : pollLoop timeout now (signalled n)=
    some (.ok (now+(n+1)*(timeout.toNat*1000),[])) := by
  induction n generalizing now with
  | zero => simp [signalled,pollLoop]
  | succ n ih =>
    refine (ih _).trans ?_
    rw [Nat.add_mul (n+1),one_mul,Nat.add_right_comm,Nat.add_assoc]

/-- So does phase D when only sleepers are left. -/
theorem timedStep_signalled (hp : w.sched.pc=.phaseD) (hs : w.sched.sleeping≠[])
    (hu : w.sched.urgentReady=[]) (hr : w.sched.ready=[])
    (hpos : scheduleMinTimeout w.sched w.loopwait w.now≠0)
    (hfits : scheduleMinTimeout w.sched w.loopwait w.now<2^31*1000) (n : ℕ) :
    timedStep w ⟨.poll [],0,signalled n⟩=some (.ok {w with
      sched := w.sched.goto (.events [])
      now := w.now+(n+1)*(scheduleMinTimeout w.sched w.loopwait w.now/1000*1000)}) := by
  have hwait : scheduleEpollWait w.sched w.loopwait w.now (signalled n)=some (.ok
      (w.now+(n+1)*(scheduleMinTimeout w.sched w.loopwait w.now/1000*1000),[])) := by
    unfold scheduleEpollWait
    rw [if_neg fun hempty => hs hempty.2,if_neg (by simp [hu,hr]),if_neg hpos,
      toInt_of_lt (by omega),pollLoop_signalled,Int.toNat_natCast]
  simp [timedStep,hp,timedPoll,hwait,step,Except.map]

/-- In any run, the first sleeper is `c`, due in a millisecond or more, and nothing is ready.
However often an honest kernel interrupts the wait, it ends after one timeout more than there
were interruptions. Signals can really delay it so: after `n` of them the deadline of `c` has
passed by `n` timeouts, up to the fraction of a millisecond that is cut off, and `c` is still
asleep. -/
theorem interrupted_wait_restarts (hw : TimedReachable (fun _ _ => True) w)
    (hp : w.sched.pc=.phaseD) (hu : w.sched.urgentReady=[]) (hr : w.sched.ready=[])
    {rest : List Co} (hs : w.sched.sleeping=c::rest) {millis : ℕ}
    (hmillis : (w.sched.birth+w.sched.key c-w.now)/1000=millis) (hpos : 0 < millis)
    (hfits : millis<2^31) :
    (∀ slack kernel later fds,Honours slack kernel →
      scheduleEpollWait w.sched w.loopwait w.now kernel=some (.ok (later,fds)) →
      later≤w.now+(interruptions millis kernel+1)*(millis*1000+slack)) ∧
    ∀ n,∃ v,Honours 0 (signalled n) ∧ interruptions millis (signalled n)=n ∧
      timedStep w ⟨.poll [],0,signalled n⟩=some (.ok v) ∧ c∈v.sched.sleeping ∧ v.busy=w.busy ∧
      w.sched.birth+w.sched.key c+n*(millis*1000)<v.now+1000 := by
  have hborn := birth_le_now hw
  have hmin : scheduleMinTimeout w.sched w.loopwait w.now=w.sched.birth+w.sched.key c-w.now := by
    unfold scheduleMinTimeout
    rw [hs]
    dsimp only
    split_ifs <;> omega
  have hne : w.sched.sleeping≠[] := by simp [hs]
  constructor
  · intro slack kernel later fds hk h
    have hle := epollWait_le hne (by omega) hk h
    rwa [hmin,hmillis] at hle
  · intro n
    have hstep := timedStep_signalled hp hne hu hr (by omega) (by omega) n
    refine ⟨_,honours_signalled n,interruptions_signalled n _,hstep,by simp [hs],rfl,?_⟩
    rw [hmin,hmillis]
    show _<w.now+(n+1)*(millis*1000)+1000
    rw [Nat.add_mul n]
    omega

/-- Two interruptions make a sleeper two timeouts late. -/
theorem interrupted_wait_restarts_fourMillis : ∃ w v,TimedReachable (fun _ _ => True) w ∧
    w.sched.sleeping=[0] ∧ w.sched.birth+w.sched.key 0=5010 ∧
    timedStep w ⟨.poll [],0,signalled 2⟩=some (.ok v) ∧ 0∈v.sched.sleeping ∧
    5010+2*(4*1000)<v.now+1000 := by
  have h : (replay timedStep (timedCreate 1 0 4096 0 0) (firstRuns.map (fun a => ⟨a,0,[]⟩)++
      [⟨.sleep 5 10 (100,100),20,[]⟩])).map (fun w =>
        ((w.sched.pc,w.sched.urgentReady,w.sched.ready,w.sched.sleeping),
          w.sched.birth+w.sched.key 0,w.now))=
      some ((.phaseD,[],[],[0]),5010,20) := by
    decide +kernel
  obtain ⟨w,hw,hq⟩ := Option.map_eq_some_iff.mp h
  simp only [Prod.mk.injEq] at hq
  obtain ⟨⟨hp,hu,hr,hs⟩,hdue,hnow⟩ := hq
  have hreach : TimedReachable (fun _ _ => True) w := ⟨1,0,4096,0,0,runs_of_replay hw⟩
  have hmillis : (w.sched.birth+w.sched.key 0-w.now)/1000=4 := by rw [hdue,hnow]
  obtain ⟨v,-,-,hv,hasleep,-,hlate⟩ := (interrupted_wait_restarts hreach hp hu hr hs hmillis
    (by decide) (by decide)).2 2
  rw [hdue] at hlate
  exact ⟨w,v,hreach,hs,hdue,hv,hasleep,hlate⟩

end DycoCoroutine.PollTimeout
