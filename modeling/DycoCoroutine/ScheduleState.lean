import Mathlib.Data.List.AList
import Mathlib.Tactic
import DycoCoroutine.HashTable
import DycoCoroutine.KeyedSet

/-!
# Scheduler, coroutine and kernel state

The record of one scheduler with its coroutine objects, its containers and
the part of the kernel that it talks to: the open descriptors, the interest
list of its epoll instance and the monotone clock. Coroutine objects are
numbered in order of allocation, so a released object is never confused with
a later one. The two hash tables appear as finite maps, the red-black tree as
a set ordered by `sleep_usecs`, the tail queues as lists. The field `life`
has no counterpart in the source: it records what the allocator and the pools
know about an object. Signal masks, user data and stack contents are separate
subjects.
-/

namespace DycoCoroutine.ScheduleState

/-- A coroutine object, by order of allocation. -/
abbrev Co := ℕ

/-- What has become of a coroutine object. -/
inductive Life
  /-- Not allocated yet. -/
  | unborn
  /-- Owned by a pool and not obtained. -/
  | idle
  /-- Created or obtained, and not yet released or returned. -/
  | live
  /-- Given back to the allocator. -/
  | freed
  deriving DecidableEq

/-- Where a suspended coroutine continues, the part of `co->ctx` that lies in
library code. -/
inductive Cont
  /-- The start of `execute`. -/
  | entry
  /-- The end of `dyco_coroutine_sleep`. -/
  | sleep
  /-- The cancellations that follow the `yield` of a wait on this descriptor,
  with or without a timer. -/
  | wait (fd : ℤ) (timed : Bool)
  /-- The end of `dyco_schedcall_stop`. -/
  | stop
  deriving DecidableEq

/-- `struct dyco_coroutine`, with one flag per status bit. -/
structure Coroutine where
  /-- What the allocator and the pools know about the object. -/
  life : Life
  /-- Where the coroutine continues when it is resumed next. -/
  cont : Cont
  /-- COROUTINE_STATUS_NEW -/
  statusNew : Bool
  /-- COROUTINE_STATUS_READY -/
  statusReady : Bool
  /-- COROUTINE_STATUS_EXITED -/
  statusExited : Bool
  /-- COROUTINE_STATUS_RUNNING -/
  statusRunning : Bool
  /-- COROUTINE_STATUS_SLEEPING -/
  statusSleeping : Bool
  /-- COROUTINE_STATUS_SCHEDCALL -/
  statusSchedcall : Bool
  /-- COROUTINE_STATUS_KILLED -/
  statusKilled : Bool
  /-- COROUTINE_FLAGS_URGENT -/
  flagsUrgent : Bool
  /-- COROUTINE_FLAGS_OWNSTACK -/
  flagsOwnstack : Bool
  /-- COROUTINE_FLAGS_ALLOCSTACKMEM -/
  flagsAllocstackmem : Bool
  /-- COROUTINE_FLAGS_WAITING -/
  flagsWaiting : Bool
  /-- COROUTINE_FLAGS_EXPIRED -/
  flagsExpired : Bool
  /-- COROUTINE_FLAGS_IOMULTIPLEXING -/
  flagsIomultiplexing : Bool
  /-- COROUTINE_FLAGS_WAITSIGNAL -/
  flagsWaitsignal : Bool
  /-- COROUTINE_FLAGS_INCOROPOOL -/
  flagsIncoropool : Bool
  /-- `stack_size`: own stack, or last saved part of the shared one. -/
  stackSize : ℕ
  /-- `sched_count` -/
  schedCount : ℕ
  /-- `sleep_usecs`, the key in the sleeping tree, relative to `birth`. -/
  sleepUsecs : ℕ
  /-- `cid` -/
  cid : ℤ
  /-- `cpool` -/
  cpool : Option ℕ
  /-- `epollfd`, -1 when unset. -/
  epollfd : ℤ
  /-- `sigfd`, -1 when unset. -/
  sigfd : ℤ

/-- `struct coroutinepool`, less the list of callers blocked in `cp_wait`. -/
structure CoroPool where
  /-- `totalsize` -/
  totalsize : ℤ
  /-- `activenum` -/
  activenum : ℤ
  /-- `stacksize` -/
  stacksize : ℕ
  /-- `freelist`, most recently returned first. -/
  freelist : List Co

/-- `dyco_schedule_status` -/
inductive SchedStatus
  | ready
  | running
  | stopped
  | aborted
  | done
  deriving DecidableEq

/-- Where the single thread of control stands. -/
inductive Pc
  /-- Outside `dyco_schedule_run`, with the result of the last call. -/
  | main (ret : Option ℤ)
  /-- At the test of SCHEDULE_ISDONE. -/
  | loop
  /-- In phase A, the sleeping coroutines. -/
  | phaseA
  /-- In phase B (`urgent`) or C, with `last_co_ready` and `idx`. -/
  | queue (urgent : Bool) (last : Option Co) (idx : ℕ)
  /-- Inside the coroutine that phase B or C resumed. -/
  | inCo (urgent : Bool) (last : Option Co) (idx : ℕ)
  /-- At the call of `schedule_epoll_wait`. -/
  | phaseD
  /-- In phase D, with the events that are left in `eventlist`. -/
  | events (fds : List ℤ)
  deriving DecidableEq

/-- Finite maps from an `int` to a coroutine, the abstract `dyco_htable`. -/
abbrev CoMap := AList fun _ : ℤ => Co

/-- The slot of a cid in `cid_co_map`, which has DYCO_HTABLE_DEFAULTWITDH. -/
def cidSlot (cid : ℤ) : ℕ := HashTable.slot (2^16-1) cid

/-- A table of the default width takes one more entry without being resized. -/
def hasRoom (map : CoMap) : Bool := map.entries.length+1<(2^16-1)*2

/-- `struct dyco_schedule`, its coroutine objects and the kernel around it. -/
structure Sched where
  /-- Descriptors that are open and can be polled. -/
  openFds : List ℤ
  /-- Interest list of `sched->epollfd`. -/
  epollSet : List ℤ
  /-- Last reading of `usec_now`. -/
  clock : ℕ
  /-- Result of `getpagesize`. -/
  pageSize : ℕ
  /-- `stack_size`, the size of the shared stack. -/
  stackSize : ℕ
  /-- `sched_id` -/
  schedId : ℕ
  /-- `birth` -/
  birth : ℕ
  /-- `coro_count`, an unsigned int. -/
  coroCount : UInt32
  /-- `_cid_gen` -/
  cidGen : ℕ
  /-- `curr_thread` -/
  currThread : Option Co
  /-- `status` -/
  status : SchedStatus
  /-- `urgent_ready`, first element first. -/
  urgentReady : List Co
  /-- `ready`, first element first. -/
  ready : List Co
  /-- `sleeping`, in key order. -/
  sleeping : List Co
  /-- `fd_co_map` -/
  fdCoMap : CoMap
  /-- `cid_co_map` -/
  cidCoMap : CoMap
  /-- The coroutine objects. -/
  co : Co → Coroutine
  /-- The next object the allocator hands out. -/
  nextCo : Co
  /-- The pools. -/
  pools : ℕ → Option CoroPool
  /-- Where control stands. -/
  pc : Pc

/-- How an operation ends the process. -/
inductive Fault
  /-- A `DYCO_MUST(epoll_ctl(...) == 0)` was not met. -/
  | epollCtl
  /-- Another `DYCO_MUST` or `DYCO_MUSTNOT` was not met. -/
  | must
  /-- Released memory was used, memory was copied beyond its end, or a tree node
  removed that is not linked. -/
  | undefined
  deriving DecidableEq

/-- The context that a library call is made in. -/
inductive Context
  /-- No scheduler, or no current coroutine. -/
  | outside
  /-- A symmetric coroutine. -/
  | symmetric
  /-- An asymmetric coroutine. -/
  | asymmetric
  deriving DecidableEq

/-- Update the object `c`. -/
@[simps] def Sched.setCo (s : Sched) (c : Co) (f : Coroutine → Coroutine) : Sched :=
  {s with co := Function.update s.co c (f (s.co c))}

theorem Sched.setCo_setCo (s : Sched) (c : Co) (f g : Coroutine → Coroutine) :
    (s.setCo c f).setCo c g=s.setCo c fun r => g (f r) := by
  simp [Sched.setCo]

/-- What an update does not touch is the same for all objects. -/
theorem Sched.proj_setCo {β : Type*} {f : Coroutine → Coroutine} (p : Coroutine → β)
    (h : ∀ r,p (f r)=p r) (s : Sched) (c d : Co) : p ((s.setCo c f).co d)=p (s.co d) := by
  by_cases hd : d=c
  · simp [hd,h]
  · simp [hd]

/-- Update the pool `p`. -/
@[simps] def Sched.setPool (s : Sched) (p : ℕ) (f : CoroPool → CoroPool) : Sched :=
  {s with pools := Function.update s.pools p ((s.pools p).map f)}

/-- Make `c` the current thread, or none. -/
@[simps] def Sched.setThread (s : Sched) (c : Option Co) : Sched := {s with currThread := c}

/-- A reading of `usec_now`. -/
@[simps] def Sched.setClock (s : Sched) (now : ℕ) : Sched := {s with clock := now}

/-- Move the program counter. -/
@[simps] def Sched.goto (s : Sched) (pc : Pc) : Sched := {s with pc := pc}

/-- Conversion of an unsigned value to `int`. -/
@[irreducible] def toInt (n : ℕ) : ℤ := (n : ℤ).bmod (2^32)

theorem toInt_of_lt {n : ℕ} (h : n<2^31) : toInt n=n := by
  unfold toInt
  rw [Int.bmod_def]
  split_ifs <;> omega

/-- A message that a channel copies to a caller: its length as an `int`, and that
many bytes. A negative length is an enormous size for `memcpy`. -/
def copyMessage (msglen : ℕ) (msg : List UInt8) : Except Fault (ℤ×List UInt8) :=
  if toInt msglen<0 then .error .undefined
  else .ok (toInt msglen,msg.take (toInt msglen).toNat)

/-- The cid built from the scheduler number and the generator. -/
def cidOf (schedId gen : ℕ) : ℤ := toInt (schedId%256*2^24+gen)

/-- Key of the sleeping tree: `coroutine_sleep_cmp` compares `sleep_usecs`. -/
def Sched.key (s : Sched) (c : Co) : ℕ := (s.co c).sleepUsecs

/-- A scheduler as `dyco_schedule_create` leaves it. The shared stack has
DYCO_MAX_STACKSIZE bytes unless a size is given. -/
def dycoScheduleCreate (schedId stackSize pageSize now : ℕ) : Sched where
  openFds := []
  epollSet := []
  clock := now
  pageSize := pageSize
  stackSize := if stackSize=0 then 64*1024 else stackSize
  schedId := schedId
  birth := now
  coroCount := 0
  cidGen := 0
  currThread := none
  status := .ready
  urgentReady := []
  ready := []
  sleeping := []
  fdCoMap := ∅
  cidCoMap := ∅
  co := fun _ => ⟨.unborn,.entry,false,false,false,false,false,false,false,false,false,false,
    false,false,false,false,false,0,0,0,0,none,-1,-1⟩
  nextCo := 0
  pools := fun _ => none
  pc := .main none

end DycoCoroutine.ScheduleState
