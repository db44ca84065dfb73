import DycoCoroutine.ScheduleState
import DycoCoroutine.SlottedMap

/-!
# Operations on the scheduler containers

The functions of `dyco_schedule.c`, `dyco_coroutine.c` and `dyco_coropool.c`
that move a coroutine between the containers. An operation that can end the
process returns a fault. Clock readings, stack depths and new descriptors are
arguments, because the environment decides them. Allocations succeed.

The two hash tables are finite maps, as they are until one of them is resized
or gets the id -1. In `cid_co_map` the order of the nodes in a slot is kept,
because two functions walk over a slot while a callback deletes from it.
-/

namespace DycoCoroutine.ScheduleOps

open ScheduleState KeyedSet SlottedMap

/-- EPOLL_CTL_ADD on the scheduler's epoll instance: it fails on a descriptor
that is closed or already registered, and DYCO_MUST then exits. -/
def epollCtlAdd (s : Sched) (fd : ℤ) : Except Fault Sched :=
  if fd∈s.openFds ∧ fd∉s.epollSet then .ok {s with epollSet := fd::s.epollSet}
  else .error .epollCtl

/-- EPOLL_CTL_DEL on the scheduler's epoll instance: it fails on a descriptor
that is closed or not registered, and DYCO_MUST then exits. -/
def epollCtlDel (s : Sched) (fd : ℤ) : Except Fault Sched :=
  if fd∈s.openFds ∧ fd∈s.epollSet then .ok {s with epollSet := s.epollSet.erase fd}
  else .error .epollCtl

/-- The kernel hands out a descriptor that is not in use. -/
def openFd (s : Sched) (fd : ℤ) : Sched := {s with openFds := fd::s.openFds}

/-- Closing a descriptor also takes it out of the interest list. -/
def closeFd (s : Sched) (fd : ℤ) : Sched :=
  {s with openFds := s.openFds.erase fd, epollSet := s.epollSet.erase fd}

/-- Set the READY bit and insert at the tail of the queue of the coroutine's
urgency, as phase A, phase D, `dyco_coroutine_sleep` and
`dyco_schedcall_stop` all do. -/
def insertReady (s : Sched) (c : Co) : Sched :=
  let t := s.setCo c fun r => {r with statusReady := true}
  if (s.co c).flagsUrgent then {t with urgentReady := t.urgentReady++[c]}
  else {t with ready := t.ready++[c]}

/-- `schedule_get_expired` at clock reading `now`: unlink the first sleeper
when its deadline has passed. -/
def scheduleGetExpired (s : Sched) (now : ℕ) : Option (Co×Sched) :=
  match s.sleeping with
  | [] => none
  | c::_ =>
    if s.key c≤now-s.birth then
      some (c,({s with sleeping := s.sleeping.erase c}).setCo c fun r =>
        {r with statusSleeping := false,flagsExpired := true})
    else none

/-- The head of `schedule_sched_sleep`: RB_FIND searches by the key that the
coroutine still carries, and whatever it finds is removed. -/
def dropKey (s : Sched) (c : Co) : Sched :=
  match find s.key (s.key c) s.sleeping with
  | some d => {s with sleeping := s.sleeping.erase d}
  | none => s

/-- The loop of `schedule_sched_sleep`: RB_INSERT is tried from `deadline` on
until it finds an unused key. -/
def setTimer (s : Sched) (c : Co) (deadline : ℕ) : Sched :=
  let s := s.setCo c fun r =>
    {r with
      sleepUsecs := firstUnused s.key s.sleeping (s.sleeping.length+1) deadline
      statusSleeping := true
      flagsExpired := false}
  {s with sleeping := place s.key c s.sleeping}

/-- `schedule_sched_sleep` at clock reading `now`. The product of `msecs` and
`1000u` has 32 bits. -/
def scheduleSchedSleep (s : Sched) (c : Co) (msecs : ℤ) (now : ℕ) : Sched :=
  if msecs≤0 then dropKey s c
  else setTimer (dropKey s c) c (now-s.birth+msecs.toNat*1000%2^32)

/-- `schedule_cancel_sleep`. RB_REMOVE of a node that is not in the tree is
undefined. -/
def scheduleCancelSleep (s : Sched) (c : Co) : Except Fault Sched :=
  if (s.co c).statusSleeping then
    if c∈s.sleeping then
      .ok (({s with sleeping := s.sleeping.erase c}).setCo c fun r =>
        {r with statusSleeping := false})
    else .error .undefined
  else .ok s

/-- `schedule_cancel_wait` -/
def scheduleCancelWait (s : Sched) (c : Co) (fd : ℤ) : Except Fault Sched :=
  if (s.co c).flagsWaiting then
    epollCtlDel (({s with fdCoMap := s.fdCoMap.erase fd}).setCo c fun r =>
      {r with flagsWaiting := false}) fd
  else .ok s

/-- `schedule_sched_wait`. The map insertion replaces an earlier waiter. -/
def scheduleSchedWait (s : Sched) (c : Co) (fd : ℤ) : Except Fault Sched := do
  let s ← epollCtlAdd s fd
  pure (({s with fdCoMap := s.fdCoMap.insert fd c}).setCo c fun r =>
    {r with flagsWaiting := true})

/-- The record of an object that `newcoro` returns. -/
def newRecord (life : Life) : Coroutine :=
  ⟨life,.entry,true,true,false,false,false,false,false,false,false,false,
    false,false,false,false,false,0,0,0,0,none,-1,-1⟩

/-- `newcoro`, for an object that is created at once or put into a pool. -/
def newcoro (s : Sched) (life : Life) : Co×Sched :=
  (s.nextCo,({s with nextCo := s.nextCo+1}).setCo s.nextCo fun _ => newRecord life)

/-- The cid that is handed out next. -/
def nextCid (s : Sched) : ℤ := cidOf s.schedId ((s.cidGen+1)%2^24)

/-- Give `c` the next cid and enter it in `cid_co_map`. The table is gone once
the scheduler has been aborted. -/
def register (s : Sched) (c : Co) : Except Fault Sched :=
  if s.status=.aborted then .error .undefined
  else
    .ok (({s with
      cidGen := (s.cidGen+1)%2^24
      cidCoMap := enter cidSlot (nextCid s) c s.cidCoMap
      coroCount := s.coroCount+1}).setCo c fun r => {r with cid := nextCid s})

/-- A finished scheduler becomes ready again when it gets a coroutine. -/
def wakeScheduler (s : Sched) : Sched :=
  if s.status=.done then {s with status := .ready} else s

/-- Queue a new coroutine, whose READY bit is set already. -/
def queueNew (s : Sched) (c : Co) (urgent : Bool) : Sched :=
  if urgent then
    {s.setCo c fun r => {r with flagsUrgent := true} with urgentReady := s.urgentReady++[c]}
  else {s with ready := s.ready++[c]}

/-- The end that creation and `cp_obtain` share: register the coroutine and
queue it by its urgency. -/
def enroll (s : Sched) (c : Co) (urgent : Bool) : Except Fault Sched := do
  let s ← register s c
  pure (wakeScheduler (queueNew s c urgent))

/-- `dyco_coroutine_create` and `dyco_coroutine_create_urgent` -/
def dycoCoroutineCreate (s : Sched) (urgent : Bool) : Except Fault Sched :=
  let (c,s) := newcoro s .live
  enroll s c urgent

/-- The record of a coroutine in a new pool: `coro_setstack` gives it a stack
of its own if the pool has a stack size. -/
def pooledRecord (pageSize p stacksize : ℕ) : Coroutine :=
  let r := if stacksize>0 then {newRecord .idle with
      stackSize := stacksize+stacksize%pageSize
      flagsOwnstack := true
      flagsAllocstackmem := true}
    else newRecord .idle
  {r with flagsIncoropool := true,cpool := some p}

/-- One round of the loop of `cp_create` for a symmetric pool: a new object at
the head of the freelist. -/
def cpAdd (s : Sched) (p stacksize : ℕ) : Sched :=
  let (c,s) := newcoro s .idle
  let s := s.setPool p fun cp => {cp with freelist := c::cp.freelist}
  s.setCo c fun _ => pooledRecord s.pageSize p stacksize

/-- The loop of `cp_create`. -/
def cpFill (p stacksize : ℕ) : ℕ → Sched → Sched
  | 0,s => s
  | n+1,s => cpFill p stacksize n (cpAdd s p stacksize)

/-- `cp_create` for a symmetric pool, under the fresh name `p`. -/
def cpCreate (s : Sched) (p : ℕ) (totalsize : ℤ) (stacksize : ℕ) : Sched :=
  if totalsize≤0 then s
  else cpFill p stacksize totalsize.toNat
    {s with pools := Function.update s.pools p (some ⟨totalsize,0,stacksize,[]⟩)}

/-- The record that `cp_obtain` makes of a pooled one: the status word is
rebuilt, keeping the two bits that describe the stack. -/
def renewRecord (r : Coroutine) : Coroutine :=
  {r with
    life := .live
    cont := .entry
    statusNew := true
    statusReady := true
    statusExited := false
    statusRunning := false
    statusSleeping := false
    statusSchedcall := false
    statusKilled := false
    flagsUrgent := false
    flagsWaiting := false
    flagsExpired := false
    flagsIomultiplexing := false
    flagsWaitsignal := false
    flagsIncoropool := true
    schedCount := 0
    sleepUsecs := 0
    epollfd := -1
    sigfd := -1}

/-- `cp_obtain` for a symmetric pool, from the point where `cp_wait` returns
the number of available coroutines. Popping an empty freelist is undefined. -/
def cpObtain (s : Sched) (p : ℕ) (urgent : Bool) : Except Fault Sched :=
  match s.pools p with
  | none => .error .undefined
  | some cp =>
    if cp.totalsize-cp.activenum≤0 then .ok s
    else match cp.freelist with
      | [] => .error .undefined
      | c::rest =>
        let s := s.setPool p fun cp => {cp with freelist := rest,activenum := cp.activenum+1}
        enroll (s.setCo c renewRecord) c urgent

/-- A released coroutine's private epoll instance is cancelled, taken out of
the interest list once more and closed. -/
def takeDownEpoll (s : Sched) (c : Co) : Except Fault Sched :=
  if (s.co c).flagsIomultiplexing then do
    let s ← scheduleCancelWait s c (s.co c).epollfd
    let s ← epollCtlDel s (s.co c).epollfd
    pure (closeFd s (s.co c).epollfd)
  else .ok s

/-- A released coroutine's signal descriptor is closed. -/
def takeDownSignal (s : Sched) (c : Co) : Sched :=
  if (s.co c).flagsWaitsignal then closeFd s (s.co c).sigfd else s

/-- The part that `freecoro` and `cp_return` share: leave the count and
`cid_co_map`, then take down a private epoll instance and a signal
descriptor. -/
def releaseCoro (s : Sched) (c : Co) : Except Fault Sched :=
  if s.status=.aborted then .error .undefined
  else do
    let s ← takeDownEpoll {s with
      coroCount := s.coroCount-1
      cidCoMap := s.cidCoMap.erase (s.co c).cid} c
    pure (takeDownSignal s c)

/-- `freecoro` -/
def freecoro (s : Sched) (c : Co) : Except Fault Sched := do
  let s ← releaseCoro s c
  pure (s.setCo c fun r => {r with life := .freed})

/-- `cp_return` -/
def cpReturn (s : Sched) (c : Co) : Except Fault Sched :=
  match (s.co c).cpool with
  | none => .ok s
  | some p => do
    let s ← releaseCoro s c
    let s := s.setCo c fun r => {r with flagsUrgent := false,life := .idle}
    pure (s.setPool p fun cp =>
      {cp with freelist := c::cp.freelist,activenum := cp.activenum-1})

/-- `coro_abort`, for symmetric coroutines. -/
def coroAbort (s : Sched) (c : Co) : Except Fault Sched :=
  if (s.co c).flagsIncoropool then cpReturn s c else freecoro s c

/-- `htable_delete_with_freecb` on `cid_co_map` with `coro_abort`. The callback
deletes the same entry. If that is the first of several in its slot, the one
behind it is moved up and its node freed, and the caller then copies this node
and frees it again. -/
def cidDeleteWithAbort (s : Sched) (cid : ℤ) : Except Fault Sched :=
  match s.cidCoMap.lookup cid with
  | none => .ok s
  | some c =>
    if heads cidSlot s.cidCoMap cid then .error .undefined
    else do
      let s ← coroAbort s c
      pure {s with cidCoMap := s.cidCoMap.erase cid}

/-- The inner loop of `htable_clear_with_freecb` over the nodes that hang on a
slot. A node that the callback deletes is freed twice. -/
def clearChain : List (Σ _ : ℤ,Co) → Sched → Except Fault Sched
  | [],s => .ok s
  | e::rest,s => do
    let t ← coroAbort s e.2
    if t.cidCoMap.lookup e.1=none then .error .undefined else clearChain rest t

/-- One round of the outer loop of `htable_clear_with_freecb`. The callback on
the first node moves the second one up before the loop goes on behind it. -/
def clearSlot (s : Sched) (i : ℕ) : Except Fault Sched :=
  match chain cidSlot s.cidCoMap i with
  | [] => .ok s
  | e::_ => do
    let t ← coroAbort s e.2
    clearChain (chain cidSlot t.cidCoMap i).tail t

/-- The slots of `cid_co_map` that are in use, in the order of the table. -/
def usedSlots (s : Sched) : List ℕ := (s.cidCoMap.keys.map cidSlot).dedup.insertionSort (·≤·)

/-- `htable_clear_with_freecb` on `cid_co_map` with `coro_abort`. -/
def cidClearWithAbort (s : Sched) : Except Fault Sched := (usedSlots s).foldlM clearSlot s

/-- `schedule_abort`: the entries of `cid_co_map` are released and the table
goes with them. -/
def scheduleAbort (s : Sched) : Except Fault Sched := do
  let s ← cidClearWithAbort s
  pure {s with cidCoMap := ∅,currThread := none,status := .aborted}

/-- `schedule_stop` -/
def scheduleStop (s : Sched) : Sched := {s with status := .stopped,currThread := none}

/-- `checkstk`: whether the depth exceeds the stack the coroutine runs on. -/
def checkstk (s : Sched) (c : Co) (depth : ℕ) : Bool :=
  (if (s.co c).flagsOwnstack then (s.co c).stackSize else s.stackSize)<depth

/-- `savestk`, as far as sizes and flags go. -/
def savestk (s : Sched) (c : Co) (depth : ℕ) : Sched :=
  if (s.co c).flagsOwnstack then s
  else s.setCo c fun r => {r with stackSize := depth,flagsAllocstackmem := true}

/-- `yield` up to the return of control to the scheduler. A coroutine found
beyond its stack is marked killed instead of being suspended at `k`. The two
depths are those that `checkstk` and `savestk` measure. -/
def yield (s : Sched) (c : Co) (depth : ℕ×ℕ) (k : Cont) : Sched :=
  if checkstk s c depth.1 then
    s.setCo c fun r => {r with statusKilled := true,statusRunning := false}
  else
    (if (s.co c).statusExited then s else savestk s c depth.2).setCo c fun r =>
      {r with statusRunning := false,cont := k}

/-- `resume` after `swapcontext` has returned, for a coroutine that made no
scheduler call. -/
def resumeReturn (s : Sched) (c : Co) : Except Fault Sched := do
  let s := s.setThread none
  if (s.co c).statusKilled then
    let s ← scheduleCancelSleep s c
    cidDeleteWithAbort s (s.co c).cid
  else if (s.co c).statusExited then
    let s ← scheduleCancelSleep s c
    if (s.co c).flagsIncoropool then cpReturn s c else freecoro s c
  else pure s

end DycoCoroutine.ScheduleOps
