import DycoCoroutine.ScheduleOps
import DycoCoroutine.RunInvariant

/-!
# The scheduling loop and the calls of coroutines

One step is one round of a phase of `dyco_schedule_run`, or one library call
of the running coroutine or of the main program up to the point where control
leaves it. Coroutine programs, clock readings, readiness of descriptors and
stack depths are the free choice of actions. Every blocking call of the
library has the same shape (register a descriptor and a timer, yield, cancel
both), so one action stands for all of them.
-/

namespace DycoCoroutine.ScheduleRun

open ScheduleState ScheduleOps RunInvariant

/-- DYCO_URGENT_MAXEXEC and DYCO_URGENT_MAXWAIT -/
def maxExec : ℕ := 128

/-- DYCO_MAX_EVENTS -/
def maxEvents : ℕ := 1024

/-- What the environment may do next. -/
inductive Act
  /-- `dyco_coroutine_create` or `dyco_coroutine_create_urgent` -/
  | create (urgent : Bool)
  /-- `dyco_coropool_create` under a new name. -/
  | poolCreate (p : ℕ) (totalsize : ℤ) (stacksize : ℕ)
  /-- `dyco_coropool_obtain` or `dyco_coropool_obtain_urgent` -/
  | obtain (p : ℕ) (urgent : Bool)
  /-- `dyco_coroutine_setUrgent` or `dyco_coroutine_unsetUrgent` -/
  | setUrgent (cid : ℤ) (urgent : Bool)
  /-- The program gets a new descriptor. -/
  | openFd (fd : ℤ)
  /-- The program closes a descriptor. -/
  | closeFd (fd : ℤ)
  /-- `dyco_schedule_run` is called. -/
  | run
  /-- The loop condition is evaluated. -/
  | loop
  /-- One round of phase A at this clock reading. -/
  | expire (now : ℕ)
  /-- One round of phase B or C, up to the entry into the coroutine. -/
  | dispatch
  /-- `epoll_wait` reports these descriptors. -/
  | poll (fds : List ℤ)
  /-- One event of phase D. -/
  | event
  /-- `dyco_coroutine_sleep` -/
  | sleep (msecs : UInt32) (now : ℕ) (depth : ℕ×ℕ)
  /-- A wait on a descriptor with a nonzero timeout, as in `waitev`. -/
  | wait (fd : ℤ) (timeout : ℤ) (now : ℕ) (depth : ℕ×ℕ)
  /-- The function of the coroutine returns. -/
  | exit (depth : ℕ×ℕ)
  /-- `dyco_coroutine_abort` -/
  | abort
  /-- `dyco_coroutine_checkStack` -/
  | checkStack (depth : ℕ)
  /-- `dyco_schedcall_stop` -/
  | stop (depth : ℕ)
  /-- `dyco_schedcall_abort` -/
  | schedAbort
  /-- `dyco_epoll_init`, with the descriptor that `epoll_create` returns. -/
  | epollInit (fd : ℤ)
  /-- `dyco_epoll_destroy` -/
  | epollDestroy
  /-- `dyco_signal_init`, with the descriptor that `signalfd` returns. -/
  | signalInit (fd : ℤ)
  /-- `dyco_signal_destroy` -/
  | signalDestroy

/-- SCHEDULE_ISDONE -/
def isDone (s : Sched) : Bool :=
  s.fdCoMap.entries.isEmpty && s.sleeping.isEmpty && s.ready.isEmpty && s.urgentReady.isEmpty

/-- Enter phase B or C, remembering the last element of its queue. -/
def startPhase (s : Sched) (urgent : Bool) : Sched :=
  s.goto (.queue urgent (if urgent then s.urgentReady else s.ready).getLast? 0)

/-- Leave phase B for C, or C for D. -/
def endPhase (s : Sched) (urgent : Bool) : Sched :=
  if urgent then startPhase s false else s.goto .phaseD

/-- The rest of a round of phase B or C, after `resume(c)` has returned. -/
def leaveCo (s : Sched) (c : Co) : Sched :=
  match s.pc with
  | .inCo urgent last idx =>
    if s.status=.stopped then s.goto (.main (some 1))
    else if s.status=.aborted then s.goto (.main (some (-1)))
    else if last=some c then endPhase s urgent
    else if idx+1=maxExec then endPhase s urgent
    else s.goto (.queue urgent last (idx+1))
  | _ => s

/-- Entry of `dyco_schedule_run`. -/
def dycoScheduleRun (s : Sched) : Except Fault Sched :=
  match s.status with
  | .running => .error .must
  | .aborted => .ok (s.goto (.main (some (-2))))
  | .done => .ok (s.goto (.main (some 0)))
  | _ => .ok {s with status := .running,pc := .loop}

/-- The loop condition of `dyco_schedule_run`. -/
def loopHead (s : Sched) : Sched :=
  if isDone s then {s with status := .done,pc := .main (some 0)}
  else s.goto .phaseA

/-- One round of phase A. -/
def phaseA (s : Sched) (now : ℕ) : Except Fault Sched :=
  let s := s.setClock now
  match scheduleGetExpired s now with
  | none => .ok (startPhase s true)
  | some (c,t) => if (s.co c).life=.freed then .error .undefined else .ok (insertReady t c)

/-- Take `c` off the queue that is being served. -/
def popQueue (s : Sched) (urgent : Bool) (c : Co) (rest : List Co) : Sched :=
  let t := s.setCo c fun r => {r with statusReady := false}
  if urgent then {t with urgentReady := rest} else {t with ready := rest}

/-- The switch that `resume` makes into the coroutine. -/
def activate (s : Sched) (c : Co) : Sched :=
  (s.setThread (some c)).setCo c fun r =>
    {r with statusNew := false,statusRunning := true,schedCount := r.schedCount+1}

/-- `resume` up to the point where the coroutine is back in its own code: a
wait first cancels its timer and its registration. -/
def enterCo (s : Sched) (c : Co) : Except Fault Sched :=
  match (s.co c).cont with
  | .entry => .ok (activate s c)
  | .sleep => .ok (activate s c)
  | .wait fd _ => do
    let t ← scheduleCancelSleep (activate s c) c
    scheduleCancelWait t c fd
  | .stop => .ok ((activate s c).setCo c fun r => {r with statusSchedcall := false})

/-- One round of phase B or C up to the entry into the coroutine. -/
def phaseBC (s : Sched) (urgent : Bool) (last : Option Co) (idx : ℕ) : Except Fault Sched :=
  match (if urgent then s.urgentReady else s.ready) with
  | [] => .ok (endPhase s urgent)
  | c::rest =>
    if (s.co c).life=.freed then .error .undefined
    else enterCo ((popQueue s urgent c rest).goto (.inCo urgent last idx)) c

/-- Phase D handles one event: the waiter becomes ready and its registration
is cancelled. -/
def phaseD (s : Sched) (fd : ℤ) (rest : List ℤ) : Except Fault Sched :=
  let s := s.goto (.events rest)
  match s.fdCoMap.lookup fd with
  | none => .ok s
  | some c =>
    if (s.co c).life=.freed then .error .undefined
    else scheduleCancelWait (insertReady s c) c fd

/-- The running coroutine has given up control. -/
def backToLoop (s : Sched) (c : Co) : Except Fault Sched := do
  let s ← resumeReturn s c
  pure (leaveCo s c)

/-- `dyco_coroutine_sleep` -/
def dycoCoroutineSleep (s : Sched) (c : Co) (msecs : UInt32) (now : ℕ) (depth : ℕ×ℕ) :
    Except Fault Sched :=
  let s := s.setClock now
  let s := if msecs=0 then insertReady s c else scheduleSchedSleep s c (toInt msecs.toNat) now
  backToLoop (yield s c depth .sleep) c

/-- A blocking wait on a descriptor. -/
def waitev (s : Sched) (c : Co) (fd timeout : ℤ) (now : ℕ) (depth : ℕ×ℕ) :
    Except Fault Sched := do
  let s ← scheduleSchedWait (s.setClock now) c fd
  let s := scheduleSchedSleep s c timeout now
  backToLoop (yield s c depth (.wait fd (0<timeout))) c

/-- The end of `execute`. -/
def coroutineExit (s : Sched) (c : Co) (depth : ℕ×ℕ) : Except Fault Sched :=
  backToLoop (yield (s.setCo c fun r => {r with statusExited := true}) c depth .entry) c

/-- Mark the running coroutine killed and give up control, as
`dyco_coroutine_abort` and an overflow found by `checkstk` do. -/
def coroutineKill (s : Sched) (c : Co) : Except Fault Sched :=
  backToLoop (s.setCo c fun r => {r with statusKilled := true,statusRunning := false}) c

/-- `dyco_schedcall_stop` up to the switch to the scheduler. -/
def stopSuspend (s : Sched) (c : Co) (depth : ℕ) : Sched :=
  let s := s.setCo c fun r => {r with statusRunning := false,statusSchedcall := true}
  (savestk (insertReady s c) c depth).setCo c fun r => {r with cont := .stop}

/-- `dyco_schedcall_stop` and the `schedule_stop` it asks for. -/
def dycoSchedcallStop (s : Sched) (c : Co) (depth : ℕ) : Sched :=
  leaveCo (scheduleStop (stopSuspend s c depth)) c

/-- `dyco_schedcall_abort` and the `schedule_abort` it asks for. -/
def dycoSchedcallAbort (s : Sched) (c : Co) : Except Fault Sched := do
  let s ← scheduleAbort (s.setCo c fun r =>
    {r with statusRunning := false,statusSchedcall := true})
  pure (leaveCo s c)

/-- `dyco_epoll_init` -/
def dycoEpollInit (s : Sched) (c : Co) (fd : ℤ) : Sched :=
  if (s.co c).flagsIomultiplexing then s
  else (openFd s fd).setCo c fun r => {r with epollfd := fd,flagsIomultiplexing := true}

/-- `dyco_epoll_destroy` -/
def dycoEpollDestroy (s : Sched) (c : Co) : Sched :=
  if (s.co c).flagsIomultiplexing then
    closeFd (s.setCo c fun r => {r with flagsIomultiplexing := false}) (s.co c).epollfd
  else s

/-- `dyco_signal_init`, as far as descriptors go. -/
def dycoSignalInit (s : Sched) (c : Co) (fd : ℤ) : Sched :=
  if (s.co c).flagsWaitsignal then s
  else (openFd s fd).setCo c fun r => {r with sigfd := fd,flagsWaitsignal := true}

/-- `dyco_signal_destroy`, as far as descriptors go. -/
def dycoSignalDestroy (s : Sched) (c : Co) : Sched :=
  if (s.co c).flagsWaitsignal then
    closeFd (s.setCo c fun r => {r with flagsWaitsignal := false}) (s.co c).sigfd
  else s

/-- `dyco_coroutine_setUrgent` and `dyco_coroutine_unsetUrgent` -/
def dycoCoroutineSetUrgent (s : Sched) (cid : ℤ) (urgent : Bool) : Except Fault Sched :=
  if s.status=.aborted then .error .undefined
  else match s.cidCoMap.lookup cid with
    | none => .ok s
    | some c => .ok (s.setCo c fun r => {r with flagsUrgent := urgent})

/-- Whether user code is being executed, in the main program or a coroutine. -/
def inUserCode (s : Sched) : Bool :=
  match s.pc with
  | .main _ => true
  | .inCo _ _ _ => true
  | _ => false

/-- An action of the running coroutine. -/
def inCoroutine (s : Sched) (f : Co → Except Fault Sched) : Option (Except Fault Sched) :=
  match s.pc,s.currThread with
  | .inCo _ _ _,some c => some (f c)
  | _,_ => none

/-- A call that the main program can make as well. -/
def inProgram (s : Sched) (r : Except Fault Sched) : Option (Except Fault Sched) :=
  if inUserCode s then some r else none

/-- One step of the machine; `none` when the action is not possible here. -/
def step (s : Sched) : Act → Option (Except Fault Sched)
  | .create urgent => inProgram s (dycoCoroutineCreate s urgent)
  | .poolCreate p totalsize stacksize =>
    if s.pools p=none then inProgram s (.ok (cpCreate s p totalsize stacksize)) else none
  | .obtain p urgent => inProgram s (cpObtain s p urgent)
  | .setUrgent cid urgent => inProgram s (dycoCoroutineSetUrgent s cid urgent)
  | .openFd fd => if 0≤fd ∧ fd∉s.openFds then inProgram s (.ok (openFd s fd)) else none
  | .closeFd fd => inProgram s (.ok (closeFd s fd))
  | .run => inProgram s (dycoScheduleRun s)
  | .loop => if s.pc=.loop then some (.ok (loopHead s)) else none
  | .expire now => if s.pc=.phaseA ∧ s.clock≤now then some (phaseA s now) else none
  | .dispatch =>
    match s.pc with
    | .queue urgent last idx => some (phaseBC s urgent last idx)
    | _ => none
  | .poll fds =>
    if s.pc=.phaseD ∧ fds.Nodup ∧ (∀ fd∈fds,fd∈s.epollSet) ∧ fds.length ≤ maxEvents ∧
        (s.fdCoMap.entries=[] ∧ s.sleeping=[] → fds=[]) then
      some (.ok (s.goto (.events fds)))
    else none
  | .event =>
    match s.pc with
    | .events [] => some (.ok (s.goto .loop))
    | .events (fd::rest) => some (phaseD s fd rest)
    | _ => none
  | .sleep msecs now depth =>
    if s.clock≤now then inCoroutine s fun c => dycoCoroutineSleep s c msecs now depth else none
  | .wait fd timeout now depth =>
    if s.clock≤now ∧ timeout≠0 then inCoroutine s fun c => waitev s c fd timeout now depth
    else none
  | .exit depth => inCoroutine s fun c => coroutineExit s c depth
  | .abort => inCoroutine s fun c => coroutineKill s c
  | .checkStack depth => inCoroutine s fun c =>
    if checkstk s c depth then coroutineKill s c else .ok s
  | .stop depth => inCoroutine s fun c => .ok (dycoSchedcallStop s c depth)
  | .schedAbort => inCoroutine s fun c => dycoSchedcallAbort s c
  | .epollInit fd =>
    if 0≤fd ∧ fd∉s.openFds then inCoroutine s fun c => .ok (dycoEpollInit s c fd) else none
  | .epollDestroy => inCoroutine s fun c => .ok (dycoEpollDestroy s c)
  | .signalInit fd =>
    if 0≤fd ∧ fd∉s.openFds then inCoroutine s fun c => .ok (dycoSignalInit s c fd) else none
  | .signalDestroy => inCoroutine s fun c => .ok (dycoSignalDestroy s c)

/-- The states that a scheduler can reach from its creation when every step
meets `cond`. -/
def Reachable (cond : Sched → Act → Prop) (s : Sched) : Prop :=
  ∃ schedId stackSize pageSize now,
    Runs step cond (dycoScheduleCreate schedId stackSize pageSize now) s

end DycoCoroutine.ScheduleRun
