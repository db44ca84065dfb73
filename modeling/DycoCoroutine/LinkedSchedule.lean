import DycoCoroutine.ScheduleRun
import DycoCoroutine.SysTreeSearch
import DycoCoroutine.SysQueue

/-!
# The scheduler over its linked containers

The functions that touch the sleeping tree or the ready queues, once more: here
the containers are the memory that the macros of `sys_tree.h` and `sys_queue.h`
work on. The rest of the scheduler is the one of `ScheduleState`, whose three
lists stay empty, and what touches no container is taken from there. `fuel`
bounds every loop of a tree macro and the retries of `schedule_sched_sleep`.
-/

namespace DycoCoroutine.LinkedSchedule

open ScheduleState LinkedTree LinkedQueue SysTree SysQueue

/-- A scheduler with linked containers. -/
structure LinkedSched where
  /-- All but the containers. -/
  rest : Sched
  /-- The root of `sleeping` and the fields `sleep_node`. -/
  sleeping : Heap Co
  /-- The heads of `urgent_ready` and `ready` and the fields `ready_next`. -/
  queues : Links Bool Co

/-- How an operation ends the process. -/
inductive Fault
  /-- As in the rest of the scheduler. -/
  | sched (f : ScheduleState.Fault)
  /-- In a macro of the tree, or for want of fuel. -/
  | tree (f : LinkedTree.Fault)
  deriving DecidableEq

/-- A call of a tree macro. -/
def ofTree {α : Type} (r : Except LinkedTree.Fault α) : Except Fault α := r.mapError .tree

/-- An operation that touches no container. -/
def LinkedSched.on (k : LinkedSched) (f : Sched → Sched) : LinkedSched := {k with rest := f k.rest}

/-- An operation that touches no container and can end the process. -/
def LinkedSched.tryOn (k : LinkedSched) (f : Sched → Except ScheduleState.Fault Sched) :
    Except Fault LinkedSched := do
  let s ← (f k.rest).mapError .sched
  pure {k with rest := s}

/-- `coroutine_sleep_cmp` -/
def coroutineSleepCmp (k : LinkedSched) : Co → Co → Ordering := keyCmp k.rest.key

/-- Set the READY bit and insert at the tail of the queue of the coroutine's urgency. -/
def insertReady (k : LinkedSched) (c : Co) : LinkedSched :=
  {k.on (·.setCo c fun r => {r with statusReady := true}) with
    queues := tailqInsertTail k.queues (k.rest.co c).flagsUrgent c}

/-- `schedule_get_expired` at clock reading `now`. -/
def scheduleGetExpired (fuel : ℕ) (k : LinkedSched) (now : ℕ) :
    Except Fault (Option (Co×LinkedSched)) := do
  match ← ofTree (rbMin fuel k.sleeping) with
  | none => pure none
  | some c =>
    if k.rest.key c≤now-k.rest.birth then
      let (sleeping,_) ← ofTree (rbRemove fuel k.sleeping c)
      pure (some (c,({k with sleeping := sleeping}).on (·.setCo c fun r =>
        {r with statusSleeping := false,flagsExpired := true})))
    else pure none

/-- The head of `schedule_sched_sleep`: whatever RB_FIND finds is removed. -/
def dropKey (fuel : ℕ) (k : LinkedSched) (c : Co) : Except Fault LinkedSched := do
  match ← ofTree (rbFind (coroutineSleepCmp k) fuel k.sleeping c) with
  | none => pure k
  | some d =>
    let (sleeping,_) ← ofTree (rbRemove fuel k.sleeping d)
    pure {k with sleeping := sleeping}

/-- The loop of `schedule_sched_sleep`: while RB_INSERT meets a coroutine with the same
key, the key is raised. -/
def insertLoop (fuel : ℕ) (c : Co) : ℕ → LinkedSched → Except Fault LinkedSched
  | 0,_ => .error (.tree .fuel)
  | n+1,k => do
    let (sleeping,found) ← ofTree (rbInsert (coroutineSleepCmp k) fuel k.sleeping c)
    let k := {k with sleeping := sleeping}
    match found with
    | some _ =>
      insertLoop fuel c n
        (k.on (·.setCo c fun r => {r with sleepUsecs := (r.sleepUsecs+1)%2^64}))
    | none => pure (k.on (·.setCo c fun r => {r with statusSleeping := true,flagsExpired := false}))

/-- `schedule_sched_sleep` at clock reading `now`. -/
def scheduleSchedSleep (fuel : ℕ) (k : LinkedSched) (c : Co) (msecs : ℤ) (now : ℕ) :
    Except Fault LinkedSched := do
  let k ← dropKey fuel k c
  if msecs≤0 then pure k
  else insertLoop fuel c fuel (k.on (·.setCo c fun r =>
    {r with sleepUsecs := (now-k.rest.birth+msecs.toNat*1000%2^32)%2^64}))

/-- `schedule_cancel_sleep` -/
def scheduleCancelSleep (fuel : ℕ) (k : LinkedSched) (c : Co) : Except Fault LinkedSched :=
  if (k.rest.co c).statusSleeping then do
    let (sleeping,_) ← ofTree (rbRemove fuel k.sleeping c)
    pure (({k with sleeping := sleeping}).on (·.setCo c fun r => {r with statusSleeping := false}))
  else .ok k

/-- Queue a new coroutine, whose READY bit is set already. -/
def queueNew (k : LinkedSched) (c : Co) (urgent : Bool) : LinkedSched :=
  if urgent then
    {k.on (·.setCo c fun r => {r with flagsUrgent := true}) with
      queues := tailqInsertTail k.queues true c}
  else {k with queues := tailqInsertTail k.queues false c}

/-- The end that creation and `cp_obtain` share. -/
def enroll (k : LinkedSched) (c : Co) (urgent : Bool) : Except Fault LinkedSched := do
  let k ← k.tryOn (ScheduleOps.register · c)
  pure ((queueNew k c urgent).on ScheduleOps.wakeScheduler)

/-- `dyco_coroutine_create` and `dyco_coroutine_create_urgent` -/
def dycoCoroutineCreate (k : LinkedSched) (urgent : Bool) : Except Fault LinkedSched :=
  let (c,s) := ScheduleOps.newcoro k.rest .live
  enroll {k with rest := s} c urgent

/-- `cp_obtain` for a symmetric pool, from the point where `cp_wait` returns. -/
def cpObtain (k : LinkedSched) (p : ℕ) (urgent : Bool) : Except Fault LinkedSched :=
  match k.rest.pools p with
  | none => .error (.sched .undefined)
  | some cp =>
    if cp.totalsize-cp.activenum≤0 then .ok k
    else match cp.freelist with
      | [] => .error (.sched .undefined)
      | c::rest =>
        let k := k.on (·.setPool p fun cp =>
          {cp with freelist := rest,activenum := cp.activenum+1})
        enroll (k.on (·.setCo c ScheduleOps.renewRecord)) c urgent

/-- `resume` after `swapcontext` has returned. -/
def resumeReturn (fuel : ℕ) (k : LinkedSched) (c : Co) : Except Fault LinkedSched := do
  let k := k.on (·.setThread none)
  if (k.rest.co c).statusKilled then
    let k ← scheduleCancelSleep fuel k c
    k.tryOn (ScheduleOps.cidDeleteWithAbort · (k.rest.co c).cid)
  else if (k.rest.co c).statusExited then
    let k ← scheduleCancelSleep fuel k c
    k.tryOn fun s =>
      if (s.co c).flagsIncoropool then ScheduleOps.cpReturn s c else ScheduleOps.freecoro s c
  else pure k

/-- SCHEDULE_ISDONE -/
def isDone (k : LinkedSched) : Bool :=
  k.rest.fdCoMap.entries.isEmpty && rbEmpty k.sleeping && tailqEmpty k.queues false &&
    tailqEmpty k.queues true

/-- Enter phase B or C, remembering the last element of its queue. -/
def startPhase (k : LinkedSched) (urgent : Bool) : LinkedSched :=
  k.on (·.goto (.queue urgent (tailqLast k.queues urgent) 0))

/-- Leave phase B for C, or C for D. -/
def endPhase (k : LinkedSched) (urgent : Bool) : LinkedSched :=
  if urgent then startPhase k false else k.on (·.goto .phaseD)

/-- The rest of a round of phase B or C, after `resume(c)` has returned. -/
def leaveCo (k : LinkedSched) (c : Co) : LinkedSched :=
  match k.rest.pc with
  | .inCo urgent last idx =>
    if k.rest.status=.stopped then k.on (·.goto (.main (some 1)))
    else if k.rest.status=.aborted then k.on (·.goto (.main (some (-1))))
    else if last=some c then endPhase k urgent
    else if idx+1=ScheduleRun.maxExec then endPhase k urgent
    else k.on (·.goto (.queue urgent last (idx+1)))
  | _ => k

/-- The loop condition of `dyco_schedule_run`. -/
def loopHead (k : LinkedSched) : LinkedSched :=
  if isDone k then k.on fun s => {s with status := .done,pc := .main (some 0)}
  else k.on (·.goto .phaseA)

/-- One round of phase A. -/
def phaseA (fuel : ℕ) (k : LinkedSched) (now : ℕ) : Except Fault LinkedSched := do
  let k := k.on (·.setClock now)
  match ← scheduleGetExpired fuel k now with
  | none => pure (startPhase k true)
  | some (c,l) =>
    if (k.rest.co c).life=.freed then .error (.sched .undefined) else pure (insertReady l c)

/-- Take `c` off the queue that is being served. -/
def popQueue (k : LinkedSched) (urgent : Bool) (c : Co) : LinkedSched :=
  {k.on (·.setCo c fun r => {r with statusReady := false}) with
    queues := tailqRemove k.queues urgent c}

/-- `resume` up to the point where the coroutine is back in its own code. -/
def enterCo (fuel : ℕ) (k : LinkedSched) (c : Co) : Except Fault LinkedSched :=
  let l := k.on (ScheduleRun.activate · c)
  match (k.rest.co c).cont with
  | .entry => .ok l
  | .sleep => .ok l
  | .wait fd _ => do
    let l ← scheduleCancelSleep fuel l c
    l.tryOn (ScheduleOps.scheduleCancelWait · c fd)
  | .stop => .ok (l.on (·.setCo c fun r => {r with statusSchedcall := false}))

/-- One round of phase B or C up to the entry into the coroutine. -/
def phaseBC (fuel : ℕ) (k : LinkedSched) (urgent : Bool) (last : Option Co) (idx : ℕ) :
    Except Fault LinkedSched :=
  match tailqFirst k.queues urgent with
  | none => .ok (endPhase k urgent)
  | some c =>
    if (k.rest.co c).life=.freed then .error (.sched .undefined)
    else enterCo fuel ((popQueue k urgent c).on (·.goto (.inCo urgent last idx))) c

/-- Phase D handles one event. -/
def phaseD (k : LinkedSched) (fd : ℤ) (rest : List ℤ) : Except Fault LinkedSched :=
  let k := k.on (·.goto (.events rest))
  match k.rest.fdCoMap.lookup fd with
  | none => .ok k
  | some c =>
    if (k.rest.co c).life=.freed then .error (.sched .undefined)
    else (insertReady k c).tryOn (ScheduleOps.scheduleCancelWait · c fd)

/-- The running coroutine has given up control. -/
def backToLoop (fuel : ℕ) (k : LinkedSched) (c : Co) : Except Fault LinkedSched := do
  let k ← resumeReturn fuel k c
  pure (leaveCo k c)

/-- `dyco_coroutine_sleep` -/
def dycoCoroutineSleep (fuel : ℕ) (k : LinkedSched) (c : Co) (msecs : UInt32) (now : ℕ)
    (depth : ℕ×ℕ) : Except Fault LinkedSched := do
  let k := k.on (·.setClock now)
  let k ← if msecs=0 then pure (insertReady k c)
    else scheduleSchedSleep fuel k c (toInt msecs.toNat) now
  backToLoop fuel (k.on (ScheduleOps.yield · c depth .sleep)) c

/-- A blocking wait on a descriptor. -/
def waitev (fuel : ℕ) (k : LinkedSched) (c : Co) (fd timeout : ℤ) (now : ℕ) (depth : ℕ×ℕ) :
    Except Fault LinkedSched := do
  let k ← (k.on (·.setClock now)).tryOn (ScheduleOps.scheduleSchedWait · c fd)
  let k ← scheduleSchedSleep fuel k c timeout now
  backToLoop fuel (k.on (ScheduleOps.yield · c depth (.wait fd (0<timeout)))) c

/-- The end of `execute`. -/
def coroutineExit (fuel : ℕ) (k : LinkedSched) (c : Co) (depth : ℕ×ℕ) :
    Except Fault LinkedSched :=
  backToLoop fuel ((k.on (·.setCo c fun r => {r with statusExited := true})).on
    (ScheduleOps.yield · c depth .entry)) c

/-- Mark the running coroutine killed and give up control. -/
def coroutineKill (fuel : ℕ) (k : LinkedSched) (c : Co) : Except Fault LinkedSched :=
  backToLoop fuel (k.on (·.setCo c fun r => {r with statusKilled := true,statusRunning := false})) c

/-- `dyco_schedcall_stop` and the `schedule_stop` it asks for. -/
def dycoSchedcallStop (k : LinkedSched) (c : Co) (depth : ℕ) : LinkedSched :=
  let k := k.on (·.setCo c fun r => {r with statusRunning := false,statusSchedcall := true})
  let k := (insertReady k c).on (ScheduleOps.savestk · c depth)
  let k := k.on (·.setCo c fun r => {r with cont := .stop})
  leaveCo (k.on ScheduleOps.scheduleStop) c

/-- `dyco_schedcall_abort` and the `schedule_abort` it asks for. -/
def dycoSchedcallAbort (k : LinkedSched) (c : Co) : Except Fault LinkedSched := do
  let k ← (k.on (·.setCo c fun r =>
    {r with statusRunning := false,statusSchedcall := true})).tryOn ScheduleOps.scheduleAbort
  pure (leaveCo k c)

/-- An action of the running coroutine. -/
def inCoroutine (k : LinkedSched) (f : Co → Except Fault LinkedSched) :
    Option (Except Fault LinkedSched) :=
  match k.rest.pc,k.rest.currThread with
  | .inCo _ _ _,some c => some (f c)
  | _,_ => none

/-- A call that the main program can make as well. -/
def inProgram (k : LinkedSched) (r : Except Fault LinkedSched) :
    Option (Except Fault LinkedSched) :=
  if ScheduleRun.inUserCode k.rest then some r else none

/-- One step of the machine; `none` when the action is not possible here. The calls that
touch no container are those of the scheduler over lists. -/
def step (fuel : ℕ) (k : LinkedSched) : ScheduleRun.Act → Option (Except Fault LinkedSched)
  | .create urgent => inProgram k (dycoCoroutineCreate k urgent)
  | .obtain p urgent => inProgram k (cpObtain k p urgent)
  | .loop => if k.rest.pc=.loop then some (.ok (loopHead k)) else none
  | .expire now =>
    if k.rest.pc=.phaseA ∧ k.rest.clock≤now then some (phaseA fuel k now) else none
  | .dispatch =>
    match k.rest.pc with
    | .queue urgent last idx => some (phaseBC fuel k urgent last idx)
    | _ => none
  | .poll fds =>
    if k.rest.pc=.phaseD ∧ fds.Nodup ∧ (∀ fd∈fds,fd∈k.rest.epollSet) ∧
        fds.length ≤ ScheduleRun.maxEvents ∧
        (k.rest.fdCoMap.entries=[] ∧ rbEmpty k.sleeping=true → fds=[]) then
      some (.ok (k.on (·.goto (.events fds))))
    else none
  | .event =>
    match k.rest.pc with
    | .events [] => some (.ok (k.on (·.goto .loop)))
    | .events (fd::rest) => some (phaseD k fd rest)
    | _ => none
  | .sleep msecs now depth =>
    if k.rest.clock≤now then
      inCoroutine k fun c => dycoCoroutineSleep fuel k c msecs now depth
    else none
  | .wait fd timeout now depth =>
    if k.rest.clock≤now ∧ timeout≠0 then
      inCoroutine k fun c => waitev fuel k c fd timeout now depth
    else none
  | .exit depth => inCoroutine k fun c => coroutineExit fuel k c depth
  | .abort => inCoroutine k fun c => coroutineKill fuel k c
  | .checkStack depth => inCoroutine k fun c =>
    if ScheduleOps.checkstk k.rest c depth then coroutineKill fuel k c else .ok k
  | .stop depth => inCoroutine k fun c => .ok (dycoSchedcallStop k c depth)
  | .schedAbort => inCoroutine k fun c => dycoSchedcallAbort k c
  | a => (ScheduleRun.step k.rest a).map fun r => k.tryOn fun _ => r

/-- A scheduler as `dyco_schedule_create` leaves it. The containers are initialised in
memory that may hold anything. -/
def dycoScheduleCreate (heap : Heap Co) (links : Links Bool Co)
    (schedId stackSize pageSize now : ℕ) : LinkedSched where
  rest := ScheduleState.dycoScheduleCreate schedId stackSize pageSize now
  sleeping := rbInit heap
  queues := tailqInit (tailqInit links true) false

end DycoCoroutine.LinkedSchedule
