import DycoCoroutine.EventFd
import DycoCoroutine.RunInvariant
import DycoCoroutine.ScheduleState

/-!
# The publish/subscribe channel

`dyco_pubsub.c` as a machine of one channel, any number of callers and the
descriptor table of the process. A blocked subscriber has an event descriptor
and a node of its own; a publisher or destroyer writes to all of them, counts
them in `ack_rem` and blocks on `pub_notifyfd` until the last one that reads its
counter notifies it. A blocked call may be resumed at any time, and asymmetric
coroutines, which the channel does not support, make no calls. Calls are numbered,
and the world remembers which publish call filled the buffer last, so that a copy
can be attributed to it. Until the channel is destroyed, `sublist` and `sub_num`
describe the blocked subscribers, whatever the contexts and timeouts of the calls.
-/

namespace DycoCoroutine.PubsubChannel

open ScheduleState RunInvariant EventFd

/-- `dyco_pubsub_channel_status` -/
inductive Status
  | nop
  | empty
  | trans
  | close
  deriving DecidableEq

/-- The number of a status, which is written to the descriptors. -/
def Status.value : Status → ℕ
  | .nop => 0
  | .empty => 1
  | .trans => 2
  | .close => 3

/-- The cast of a count to a status. What is no status is handled like
PSC_STATUS_NOP. -/
def statusOf (count : ℕ) : Status :=
  match count%2^32 with
  | 1 => .empty
  | 2 => .trans
  | 3 => .close
  | _ => .nop

/-- The decrement of a `size_t`. -/
def sizePred (n : ℕ) : ℕ := if n=0 then 2^64-1 else n-1

/-- Conversion of a `size_t` to `ssize_t`. -/
@[irreducible] def toSsize (n : ℕ) : ℤ := (n : ℤ).bmod (2^64)

/-- `struct pubsub_channel` -/
structure Channel where
  /-- `maxsize` -/
  maxsize : ℕ
  /-- `msglen` -/
  msglen : ℕ
  /-- The `maxsize` bytes at `msg`. -/
  msg : List UInt8
  /-- `pub_notifyfd` -/
  pubNotifyfd : ℤ
  /-- `sub_num` -/
  subNum : ℕ
  /-- `ack_rem` -/
  ackRem : ℕ
  /-- The `notifyfd` of the nodes of `sublist`, first node first. -/
  sublist : List ℤ
  /-- `status` -/
  status : Status

/-- A call of `dyco_pubsub_subscribe` that is blocked in `psc_subwait`. -/
structure Subscription where
  /-- The number of the call. -/
  call : ℕ
  /-- The coroutine. -/
  co : ℕ
  /-- The descriptor of the call. -/
  notifyfd : ℤ

/-- A call that waits for acknowledgements. -/
inductive Request
  /-- `dyco_pubsub_publish` of a message to the subscribe calls it notified. -/
  | publish (data : List UInt8) (targets : List ℕ)
  /-- `dyco_pubsub_destroy` -/
  | destroy

/-- A call that is blocked in `psc_pubwait`. -/
structure Publisher where
  /-- The number of the call. -/
  call : ℕ
  /-- The coroutine. -/
  co : ℕ
  /-- The descriptor that the coroutine is registered for. -/
  notifyfd : ℤ
  /-- What was called. -/
  request : Request

/-- A call that has returned. -/
inductive Reply
  | published (call : ℕ) (data : List UInt8) (targets : List ℕ) (ret : ℤ)
  /-- With the bytes that were copied and the publish call they are from. -/
  | subscribed (call : ℕ) (ret : ℤ) (bytes : List UInt8) (source : Option ℕ)
  | destroyed (call : ℕ)
  deriving DecidableEq

/-- A channel, its callers and the descriptors of the process. -/
structure World where
  /-- The channel. -/
  chan : Channel
  /-- Whether the channel has been freed and the pointer to it set to NULL. -/
  freed : Bool
  /-- The descriptor table. -/
  fds : Table
  /-- The blocked subscribe calls, newest first. -/
  subs : List Subscription
  /-- The calls blocked in `psc_pubwait`. -/
  pubs : List Publisher
  /-- The publish call that has filled the buffer. -/
  source : Option ℕ
  /-- The number of calls made. -/
  calls : ℕ
  /-- The calls that have returned, oldest first. -/
  log : List Reply

/-- `dyco_pubsub_create`, with the default size DYCO_DEFAULT_CHANNELSIZE. -/
def dycoPubsubCreate (size : ℕ) : Channel :=
  let maxsize := if size>0 then size else 256
  ⟨maxsize,0,List.replicate maxsize 0,-1,0,0,[],.empty⟩

/-- A call returns. -/
def reply (w : World) (r : Reply) : World := {w with log := w.log++[r]}

/-- `psc_subnotify` -/
def pscSubnotify (w : World) : World :=
  {w with
    fds := eventfdWriteAll w.fds w.chan.sublist w.chan.status.value
    chan := {w.chan with ackRem := w.chan.subNum}}

/-- `psc_pubnotify` -/
def pscPubnotify (w : World) : Except Fault World :=
  match eventfdWrite w.fds w.chan.pubNotifyfd w.chan.status.value with
  | some fds => .ok {w with fds := fds}
  | none => .error .must

/-- `dyco_pubsub_subscribe` after `psc_subwait`, by the status that this has
returned. -/
def subscribeAfterWait (w : World) (call : ℕ) : Status → Except Fault World
  | .empty => do
    let (ret,bytes) ← copyMessage w.chan.msglen w.chan.msg
    let w ← pscPubnotify w
    pure (reply w (.subscribed call ret bytes w.source))
  | .trans => do
    let (ret,bytes) ← copyMessage w.chan.msglen w.chan.msg
    pure (reply w (.subscribed call ret bytes w.source))
  | .close => pure (reply w (.subscribed call (-1) [] none))
  | .nop => pure (reply w (.subscribed call (-2) [] none))

/-- `psc_subwait` up to `yield`, with the descriptor that `eventfd` returns. -/
def enlist (w : World) (call c : ℕ) (fd : ℤ) : World :=
  {w with
    fds := openEvent w.fds fd
    chan := {w.chan with sublist := fd::w.chan.sublist,subNum := w.chan.subNum+1}
    subs := ⟨call,c,fd⟩::w.subs}

/-- `dyco_pubsub_subscribe` up to its return or to `yield`. -/
def dycoPubsubSubscribe (w : World) (call c : ℕ) (context : Context) (maxsize : ℕ)
    (timeout fd : ℤ) : Except Fault World :=
  if w.freed ∨ maxsize<w.chan.maxsize then .ok (reply w (.subscribed call (-2) [] none))
  else if w.chan.status=.empty ∨ w.chan.status=.trans then
    if timeout=0 ∨ context=.outside then subscribeAfterWait w call w.chan.status
    else .ok (enlist w call c fd)
  else .ok (reply w (.subscribed call (-1) [] none))

/-- `psc_subwait` takes its node out of the list and closes its descriptor. -/
def leave (w : World) (v : Subscription) : World :=
  {w with
    fds := if v.notifyfd∈w.chan.sublist then close w.fds v.notifyfd else w.fds
    chan := {w.chan with
      subNum := sizePred w.chan.subNum
      sublist := w.chan.sublist.erase v.notifyfd}
    subs := w.subs.filter fun u => u.notifyfd≠v.notifyfd}

/-- `--(pschan->ack_rem)` -/
def acknowledge (w : World) : World :=
  {w with chan := {w.chan with ackRem := sizePred w.chan.ackRem}}

/-- `dyco_pubsub_subscribe` from `yield` on. The last subscriber that
acknowledges takes PSC_STATUS_EMPTY in place of what it has read. -/
def subscribeAfterYield (w : World) (v : Subscription) : Except Fault World :=
  if w.freed ∨ w.chan.sublist=[] then .error .undefined
  else match eventfdRead w.fds v.notifyfd with
    | none => subscribeAfterWait (leave w v) v.call .nop
    | some count =>
      let w := acknowledge (leave w v)
      subscribeAfterWait w v.call (if w.chan.ackRem=0 then .empty else statusOf count)

/-- `dyco_pubsub_publish` or `dyco_pubsub_destroy` after `psc_pubwait`. -/
def afterPubwait (w : World) (call : ℕ) : Request → World
  | .publish data targets => reply {w with chan := {w.chan with status := .empty}}
      (.published call data targets (toSsize data.length))
  | .destroy => reply {w with freed := true} (.destroyed call)

/-- `psc_pubwait` up to `yield`, with the descriptor that `eventfd` returns. -/
def awaitAcks (w : World) (call c : ℕ) (fd : ℤ) (request : Request) : World :=
  {w with
    fds := openEvent w.fds fd
    chan := {w.chan with pubNotifyfd := fd}
    pubs := ⟨call,c,fd,request⟩::w.pubs}

/-- `psc_pubwait` without a timeout, and what follows where it does not wait. -/
def pscPubwait (w : World) (call c : ℕ) (context : Context) (fd : ℤ) (request : Request) :
    Except Fault World :=
  if context=.outside then .ok (afterPubwait w call request)
  else .ok (awaitAcks w call c fd request)

/-- A publisher copies its message into the buffer. -/
def fill (w : World) (call : ℕ) (data : List UInt8) : World :=
  {w with
    chan := {w.chan with
      msglen := data.length
      msg := data++w.chan.msg.drop data.length
      status := .trans}
    source := some call}

/-- The subscribe calls that are registered in `sublist`. -/
def targets (w : World) : List ℕ :=
  (w.subs.filter fun v => v.notifyfd∈w.chan.sublist).map Subscription.call

/-- `dyco_pubsub_publish` up to its return or to `yield`. -/
def dycoPubsubPublish (w : World) (call c : ℕ) (context : Context) (data : List UInt8) (fd : ℤ) :
    Except Fault World :=
  if w.freed ∨ w.chan.status≠.empty ∨ data.length>w.chan.maxsize ∨ data.length=0 then
    .ok (reply w (.published call data [] (-2)))
  else if w.chan.subNum=0 then .ok (reply w (.published call data [] 0))
  else pscPubwait (pscSubnotify (fill w call data)) call c context fd (.publish data (targets w))

/-- `dyco_pubsub_destroy` up to its return or to `yield`. -/
def dycoPubsubDestroy (w : World) (call c : ℕ) (context : Context) (fd : ℤ) : Except Fault World :=
  if w.freed then .ok (reply w (.destroyed call))
  else if w.chan.subNum=0 then .ok (afterPubwait w call .destroy)
  else pscPubwait (pscSubnotify {w with chan := {w.chan with status := .close}}) call c context fd
    .destroy

/-- A publisher or destroyer from `yield` on. What it reads is not used. -/
def publishAfterYield (w : World) (p : Publisher) : Except Fault World :=
  if w.freed then .error .undefined
  else .ok (afterPubwait {w with
    fds := EventFd.close w.fds w.chan.pubNotifyfd
    pubs := w.pubs.filter fun q => q.call≠p.call} p.call p.request)

/-- What can happen next. -/
inductive Act
  /-- `dyco_pubsub_subscribe` -/
  | subscribe (c : ℕ) (context : Context) (maxsize : ℕ) (timeout fd : ℤ)
  /-- `dyco_pubsub_publish` -/
  | publish (c : ℕ) (context : Context) (data : List UInt8) (fd : ℤ)
  /-- `dyco_pubsub_destroy` -/
  | destroy (c : ℕ) (context : Context) (fd : ℤ)
  /-- The scheduler resumes a blocked subscriber. -/
  | resumeSubscriber (c : ℕ)
  /-- The scheduler resumes a call blocked in `psc_pubwait`. -/
  | resumePublisher (c : ℕ)
  /-- The program opens a descriptor of its own. -/
  | openOther (fd : ℤ)
  /-- The program closes a descriptor of its own. -/
  | closeOther (fd : ℤ)

/-- A symmetric coroutine that is not blocked can call, or the program outside
coroutines, and `eventfd` returns an unused number. -/
def callable (w : World) (c : ℕ) (context : Context) (fd : ℤ) : Bool :=
  context≠.asymmetric && 0≤fd && w.fds fd=none && w.subs.all (fun v => v.co≠c) &&
    w.pubs.all fun p => p.co≠c

/-- A call is given its number. -/
def numbered (w : World) : World := {w with calls := w.calls+1}

/-- One step of a channel and its callers. -/
def step (w : World) : Act → Option (Except Fault World)
  | .subscribe c context maxsize timeout fd =>
    if callable w c context fd then
      some (dycoPubsubSubscribe (numbered w) w.calls c context maxsize timeout fd)
    else none
  | .publish c context data fd =>
    if callable w c context fd then
      some (dycoPubsubPublish (numbered w) w.calls c context data fd)
    else none
  | .destroy c context fd =>
    if callable w c context fd then some (dycoPubsubDestroy (numbered w) w.calls c context fd)
    else none
  | .resumeSubscriber c =>
    match w.subs.find? fun v => v.co=c with
    | some v => some (subscribeAfterYield w v)
    | none => none
  | .resumePublisher c =>
    match w.pubs.find? fun p => p.co=c with
    | some p => some (publishAfterYield w p)
    | none => none
  | .openOther fd =>
    if w.fds fd=none then some (.ok {w with fds := Function.update w.fds fd (some .other)}) else none
  | .closeOther fd =>
    if w.fds fd=some .other then some (.ok {w with fds := EventFd.close w.fds fd}) else none

/-- A new channel that nobody has called yet, in a process without descriptors. -/
def newChannel (size : ℕ) : World := ⟨dycoPubsubCreate size,false,fun _ => none,[],[],none,0,[]⟩

/-- The states that a channel of this size can reach when every step meets
`cond`. -/
def Reachable (size : ℕ) (cond : World → Act → Prop) (w : World) : Prop :=
  Runs step cond (newChannel size) w

/-- A call that is blocked in `psc_pubwait` is resumed only after its counter was written
to. -/
def genuine (w : World) : Act → Bool
  | .resumePublisher c => (w.pubs.find? fun p => p.co=c).all fun p =>
    (eventfdRead w.fds p.notifyfd).isSome
  | _ => true

/-- The channel is not destroyed. -/
def keeps : Act → Bool
  | .destroy _ _ _ => false
  | _ => true

variable {w t : World} {v : Subscription} {a : Act} {call c : ℕ} {fd : ℤ} {context : Context}
  {data : List UInt8} {st : Status}

/-- What a step that does not fault can be. -/
inductive Taken (w : World) : Act → World → Prop
  /-- A subscribe call is refused. -/
  | refuseSubscriber {c maxsize : ℕ} {context : Context} {timeout fd ret : ℤ}
      (hno : w.freed=true ∨ maxsize<w.chan.maxsize ∨ w.chan.status≠.empty ∧ w.chan.status≠.trans) :
      Taken w (.subscribe c context maxsize timeout fd)
        (reply (numbered w) (.subscribed w.calls ret [] none))
  /-- A subscribe call does not wait. -/
  | copyAtOnce {c maxsize : ℕ} {context : Context} {timeout fd : ℤ} {t : World}
      (hcallable : callable w c context fd=true) (hkept : w.freed=false)
      (hroom : ¬maxsize<w.chan.maxsize)
      (hstatus : w.chan.status=.empty ∨ w.chan.status=.trans)
      (hnow : timeout=0 ∨ context=.outside)
      (ht : subscribeAfterWait (numbered w) w.calls w.chan.status=.ok t) :
      Taken w (.subscribe c context maxsize timeout fd) t
  /-- A subscribe call blocks. -/
  | enlist {c maxsize : ℕ} {timeout fd : ℤ} (hfd : w.fds fd=none) (hkept : w.freed=false)
      (hstatus : w.chan.status=.empty ∨ w.chan.status=.trans) :
      Taken w (.subscribe c .symmetric maxsize timeout fd)
        (enlist (numbered w) w.calls c fd)
  /-- A publish call is refused, or there is nobody to notify. -/
  | refusePublisher {c : ℕ} {context : Context} {data : List UInt8} {fd ret : ℤ} (hret : ret ≤ 0) :
      Taken w (.publish c context data fd) (reply (numbered w) (.published w.calls data [] ret))
  /-- A publish call notifies the subscribers. -/
  | publish {c : ℕ} {context : Context} {data : List UInt8} {fd : ℤ} {t : World}
      (hfd : w.fds fd=none) (hkept : w.freed=false) (hstatus : w.chan.status=.empty)
      (hsubs : w.chan.subNum≠0) (hdata : data.length≠0) (hroom : data.length ≤ w.chan.maxsize)
      (ht : pscPubwait (pscSubnotify (fill (numbered w) w.calls data)) w.calls c context fd
        (.publish data (targets w))=.ok t) : Taken w (.publish c context data fd) t
  /-- The channel has been freed. -/
  | destroyAgain {c : ℕ} {context : Context} {fd : ℤ} (hfreed : w.freed=true) :
      Taken w (.destroy c context fd) (reply (numbered w) (.destroyed w.calls))
  /-- Nobody is blocked. -/
  | destroyAtOnce {c : ℕ} {context : Context} {fd : ℤ} (hkept : w.freed=false)
      (hsubs : w.chan.subNum=0) :
      Taken w (.destroy c context fd) (afterPubwait (numbered w) w.calls .destroy)
  /-- A destroy call notifies the subscribers. -/
  | destroy {c : ℕ} {context : Context} {fd : ℤ} {t : World} (hfd : w.fds fd=none)
      (hkept : w.freed=false) (hsubs : w.chan.subNum≠0)
      (ht : pscPubwait (pscSubnotify {numbered w with chan := {w.chan with status := .close}})
        w.calls c context fd .destroy=.ok t) : Taken w (.destroy c context fd) t
  /-- A subscriber is resumed. -/
  | resumeSubscriber {c : ℕ} {v : Subscription} {t : World} (hv : v∈w.subs) (hc : v.co=c)
      (ht : subscribeAfterYield w v=.ok t) : Taken w (.resumeSubscriber c) t
  /-- A publisher or destroyer is resumed. -/
  | resumePublisher {c : ℕ} {p : Publisher} {t : World}
      (hp : (w.pubs.find? fun p => p.co=c)=some p) (ht : publishAfterYield w p=.ok t) :
      Taken w (.resumePublisher c) t
  /-- The program opens or closes a descriptor of its own. -/
  | elsewhere {a : Act} {fds : Table} (hk : keeps a=true)
      (hf : ∀ x n,w.fds x=some (.event n) → fds x=some (.event n)) : Taken w a {w with fds := fds}

/-- A call gets an unused number. -/
theorem fds_of_callable (h : callable w c context fd=true) : w.fds fd=none := by
  simp only [callable,Bool.and_eq_true,decide_eq_true_eq] at h
  exact h.1.1.2

/-- A coroutine that calls is symmetric. -/
theorem symmetric_of_callable (h : callable w c context fd=true) (hin : context≠.outside) :
    context=.symmetric := by
  simp only [callable,Bool.and_eq_true,decide_eq_true_eq] at h
  cases context with
  | outside => exact absurd rfl hin
  | symmetric => rfl
  | asymmetric => exact absurd rfl h.1.1.1.1

/-- Every step that does not fault is one of these. -/
theorem taken_of_step (h : step w a=some (.ok t)) : Taken w a t := by
  cases a with
  | subscribe c context maxsize timeout fd =>
    simp only [step] at h
    split_ifs at h with hc
    simp only [dycoPubsubSubscribe,Option.some.injEq] at h
    split_ifs at h with hno hstatus hnow
    · cases h
      refine .refuseSubscriber ?_
      rcases hno with hno|hno
      · exact .inl hno
      · exact .inr (.inl hno)
    · obtain ⟨hkept,hroom⟩ := not_or.mp hno
      exact .copyAtOnce hc (Bool.eq_false_iff.mpr hkept) hroom hstatus hnow h
    · obtain ⟨hkept,-⟩ := not_or.mp hno
      cases h
      obtain rfl := symmetric_of_callable hc (not_or.mp hnow).2
      exact .enlist (fds_of_callable hc) (Bool.eq_false_iff.mpr hkept) hstatus
    · cases h
      exact .refuseSubscriber (.inr (.inr (not_or.mp hstatus)))
  | publish c context data fd =>
    simp only [step] at h
    split_ifs at h with hc
    simp only [dycoPubsubPublish,Option.some.injEq] at h
    split_ifs at h with hno hsubs
    · cases h
      exact .refusePublisher (by decide)
    · cases h
      exact .refusePublisher le_rfl
    · simp only [not_or,not_not] at hno
      obtain ⟨hkept,hstatus,hroom,hdata⟩ := hno
      exact .publish (fds_of_callable hc) (Bool.eq_false_iff.mpr hkept) hstatus hsubs hdata
        (not_lt.mp hroom) h
  | destroy c context fd =>
    simp only [step] at h
    split_ifs at h with hc
    simp only [dycoPubsubDestroy,Option.some.injEq] at h
    split_ifs at h with hfreed hsubs
    · cases h
      exact .destroyAgain hfreed
    · cases h
      exact .destroyAtOnce (Bool.eq_false_iff.mpr hfreed) hsubs
    · exact .destroy (fds_of_callable hc) (Bool.eq_false_iff.mpr hfreed) hsubs h
  | resumeSubscriber c =>
    simp only [step] at h
    split at h
    next v hv =>
      exact .resumeSubscriber (List.mem_of_find?_eq_some hv) (by simpa using List.find?_some hv)
        (Option.some.inj h)
    · cases h
  | resumePublisher c =>
    simp only [step] at h
    split at h
    next p hp => exact .resumePublisher hp (Option.some.inj h)
    · cases h
  | openOther fd =>
    simp only [step] at h
    split_ifs at h with hfd
    cases h
    exact .elsewhere rfl (update_of_event fun n => by simp [hfd])
  | closeOther fd =>
    simp only [step] at h
    split_ifs at h with hfd
    cases h
    exact .elsewhere rfl (update_of_event fun n => by simp [hfd])

/-- Nothing is being published, or one publisher waits on `pub_notifyfd`. -/
inductive Phase (w : World) : Prop
  | quiet (status : w.chan.status=.empty) (pubs : w.pubs=[])
  | publishing {p : Publisher} {data : List UInt8} {targets : List ℕ} {n : ℕ}
      (status : w.chan.status=.trans) (pubs : w.pubs=[p]) (request : p.request=.publish data targets)
      (waits : p.notifyfd=w.chan.pubNotifyfd) (counter : w.fds p.notifyfd=some (.event n))
      (apart : p.notifyfd∉w.subs.map Subscription.notifyfd)

/-- The channel knows its blocked subscribers. -/
structure Enlisted (w : World) : Prop where
  /-- The channel has not been freed. -/
  kept : w.freed=false
  /-- `sublist` lists the blocked subscribers. -/
  sublist : w.chan.sublist=w.subs.map Subscription.notifyfd
  /-- `sub_num` counts them. -/
  subNum : w.chan.subNum=w.subs.length
  /-- They have different descriptors. -/
  distinct : (w.subs.map Subscription.notifyfd).Nodup
  /-- Their descriptors are open. -/
  counters : ∀ v∈w.subs,∃ n,w.fds v.notifyfd=some (.event n)
  /-- At most one publisher waits. -/
  phase : Phase w

/-- `sublist` and `sub_num` describe the blocked subscribers, and each of them has an open
descriptor of its own. -/
structure Roster (w : World) : Prop where
  sublist : w.chan.sublist=w.subs.map Subscription.notifyfd
  subNum : w.chan.subNum=w.subs.length
  distinct : (w.subs.map Subscription.notifyfd).Nodup
  counters : ∀ v∈w.subs,∃ n,w.fds v.notifyfd=some (.event n)

/-- The part of the enlistment that speaks of the list. -/
theorem Enlisted.roster (h : Enlisted w) : Roster w := ⟨h.sublist,h.subNum,h.distinct,h.counters⟩

/-- A change that leaves the lists alone and every counter a counter. -/
theorem Roster.of_same (h : Roster w) (hlist : t.chan.sublist=w.chan.sublist)
    (hnum : t.chan.subNum=w.chan.subNum) (hsubs : t.subs=w.subs) (hk : Keeps w.fds t.fds) :
    Roster t := by
  refine ⟨by rw [hlist,hsubs,h.sublist],by rw [hnum,hsubs,h.subNum],by rw [hsubs]; exact h.distinct,
    fun v hv => ?_⟩
  obtain ⟨n,hn⟩ := h.counters v (hsubs ▸ hv)
  exact hk _ n hn

/-- A number that is no counter belongs to no blocked subscriber. -/
theorem Roster.not_mem (h : Roster w) (hfd : ∀ n,w.fds fd≠some (.event n)) :
    fd∉w.subs.map Subscription.notifyfd := by
  intro hm
  obtain ⟨v,hv,rfl⟩ := List.mem_map.mp hm
  obtain ⟨n,hn⟩ := h.counters v hv
  exact hfd n hn

/-- A subscriber blocks. -/
theorem Roster.enlist (h : Roster w) (hfd : w.fds fd=none) (call c : ℕ) :
    Roster (enlist w call c fd) := by
  have hfd' : ∀ n,w.fds fd≠some (.event n) := fun n => by simp [hfd]
  have hkeep : Keeps w.fds (openEvent w.fds fd) := Keeps.update hfd' _
  refine ⟨congrArg (fd::·) h.sublist,congrArg (·+1) h.subNum,
    List.nodup_cons.mpr ⟨h.not_mem hfd',h.distinct⟩,fun v hv => ?_⟩
  rcases List.mem_cons.mp hv with rfl|hv
  · exact ⟨0,Function.update_self ..⟩
  · obtain ⟨n,hn⟩ := h.counters v hv
    exact hkeep _ n hn

/-- Leaving closes no other descriptor. -/
theorem fds_leave (hfd : fd≠v.notifyfd) : (leave w v).fds fd=w.fds fd := by
  show (if v.notifyfd∈w.chan.sublist then EventFd.close w.fds v.notifyfd else w.fds) fd=_
  split_ifs
  · exact Function.update_of_ne hfd ..
  · rfl

/-- Who stays has another descriptor than the one who left. -/
theorem mem_leave {u : Subscription} (hu : u∈(leave w v).subs) :
    u∈w.subs ∧ u.notifyfd≠v.notifyfd := by
  obtain ⟨hu,hne⟩ := List.mem_filter.mp hu
  exact ⟨hu,by simpa using hne⟩

/-- A subscriber leaves. -/
theorem Roster.leave (h : Roster w) (hv : v∈w.subs) : Roster (leave w v) := by
  have hmap := map_filter_ne h.distinct v.notifyfd
  have hlen := (perm_cons_filter_ne h.distinct hv).length_eq
  refine ⟨?_,?_,?_,fun u hu => ?_⟩
  · show w.chan.sublist.erase v.notifyfd=_
    rw [h.sublist]
    exact hmap.symm
  · show sizePred w.chan.subNum=_
    rw [h.subNum,sizePred,hlen]
    rfl
  · show (List.map _ (List.filter _ _)).Nodup
    rw [hmap]
    exact h.distinct.erase _
  · obtain ⟨hu,hne⟩ := mem_leave hu
    obtain ⟨n,hn⟩ := h.counters u hu
    exact ⟨n,(fds_leave hne).trans hn⟩

/-- The subscribers are notified. -/
theorem Roster.subnotify (h : Roster w) : Roster (pscSubnotify w) :=
  h.of_same rfl rfl rfl (Keeps.writeAll w.fds w.chan.sublist w.chan.status.value)

/-- A publisher or destroyer blocks. -/
theorem Roster.awaitAcks (h : Roster w) (hfd : w.fds fd=none) (call c : ℕ) (request : Request) :
    Roster (awaitAcks w call c fd request) :=
  h.of_same rfl rfl rfl (Keeps.update (fun n => by simp [hfd]) _)

/-- An unused number stays unused when the subscribers are notified. -/
theorem Roster.fds_subnotify (h : Roster w) (hfd : w.fds fd=none) : (pscSubnotify w).fds fd=none := by
  have hnew : fd∉w.chan.sublist := h.sublist ▸ h.not_mem fun n => by simp [hfd]
  exact (eventfdWriteAll_of_not_mem hnew).trans hfd

/-- The part of a world that registrations are made of. -/
def registration (w : World) :
    Bool×List ℤ×ℕ×Status×ℤ×List Subscription×List Publisher :=
  (w.freed,w.chan.sublist,w.chan.subNum,w.chan.status,w.chan.pubNotifyfd,w.subs,w.pubs)

/-- A change that leaves registrations alone and every counter a counter. -/
theorem Enlisted.of_same (h : Enlisted w) (hr : registration t=registration w)
    (hk : Keeps w.fds t.fds) : Enlisted t := by
  simp only [registration,Prod.mk.injEq] at hr
  obtain ⟨hf,hl,hn,hs,hp,hsubs,hpubs⟩ := hr
  obtain ⟨hlist,hnum,hdistinct,hcounters⟩ := h.roster.of_same hl hn hsubs hk
  refine ⟨by rw [hf,h.kept],hlist,hnum,hdistinct,hcounters,?_⟩
  cases h.phase with
  | quiet hst hq => exact .quiet (hs.trans hst) (hpubs.trans hq)
  | publishing hst hq hreq hw hc ha =>
    obtain ⟨m,hm⟩ := hk _ _ hc
    exact .publishing (hs.trans hst) (hpubs.trans hq) hreq (hw.trans hp.symm) hm (hsubs ▸ ha)

/-- A call that returns concerns no subscriber. -/
theorem Enlisted.reply (h : Enlisted w) (r : Reply) : Enlisted (reply w r) :=
  h.of_same rfl (Keeps.refl _)

/-- The rest of a subscribe call returns at once. It writes to `pub_notifyfd` if it has
got PSC_STATUS_EMPTY, and what it returns is from the buffer. -/
theorem subscribeAfterWait_ok (h : subscribeAfterWait w call st=.ok t) :
    ∃ fds ret bytes source,t=reply {w with fds := fds} (.subscribed call ret bytes source) ∧
      (bytes≠[] → w.chan.msglen≠0 ∧ source=w.source) ∧
      (st≠.empty → fds=w.fds) ∧
      (st=.empty → eventfdWrite w.fds w.chan.pubNotifyfd w.chan.status.value=some fds) := by
  have hcopy : ∀ {ret bytes},copyMessage w.chan.msglen w.chan.msg=.ok (ret,bytes) → bytes≠[] →
      w.chan.msglen≠0 := by
    intro ret bytes hm hne hzero
    have hnone : toInt 0=0 := toInt_of_lt (by decide)
    rw [hzero,copyMessage,hnone,if_neg (lt_irrefl 0)] at hm
    cases hm
    exact hne rfl
  cases st with
  | empty =>
    obtain ⟨⟨ret,bytes⟩,hm,h⟩ := bind_eq_ok h
    obtain ⟨u,hu,h⟩ := bind_eq_ok h
    cases h
    unfold pscPubnotify at hu
    split at hu
    next fds hw =>
      cases hu
      exact ⟨fds,ret,bytes,w.source,rfl,fun hne => ⟨hcopy hm hne,rfl⟩,fun hne => absurd rfl hne,
        fun _ => hw⟩
    · cases hu
  | trans =>
    obtain ⟨⟨ret,bytes⟩,hm,h⟩ := bind_eq_ok h
    cases h
    exact ⟨w.fds,ret,bytes,w.source,rfl,fun hne => ⟨hcopy hm hne,rfl⟩,fun _ => rfl,nofun⟩
  | close =>
    cases h
    exact ⟨w.fds,_,[],_,rfl,fun hne => absurd rfl hne,fun _ => rfl,nofun⟩
  | nop =>
    cases h
    exact ⟨w.fds,_,[],_,rfl,fun hne => absurd rfl hne,fun _ => rfl,nofun⟩

/-- After `psc_subwait` a subscribe call only writes to `pub_notifyfd`. -/
theorem subscribeAfterWait_same (h : subscribeAfterWait w call st=.ok t) :
    registration t=registration w ∧ Keeps w.fds t.fds := by
  obtain ⟨fds,ret,bytes,source,rfl,-,hsame,hwrite⟩ := subscribeAfterWait_ok h
  refine ⟨rfl,?_⟩
  by_cases hst : st=.empty
  · exact Keeps.write (hwrite hst)
  · rw [hsame hst]
    exact Keeps.refl _

/-- A subscriber that has read TRANS returns with its copy. -/
theorem subscribeAfterWait_trans {ret : ℤ} {bytes : List UInt8} {source : Option ℕ}
    (hm : copyMessage w.chan.msglen w.chan.msg=pure (ret,bytes)) (hs : w.source=source) :
    subscribeAfterWait w call .trans=.ok (reply w (.subscribed call ret bytes source)) := by
  unfold subscribeAfterWait
  rw [hm,← hs]
  rfl

/-- The last subscriber notifies the publisher and returns with its copy. -/
theorem subscribeAfterWait_empty {ret : ℤ} {bytes : List UInt8} {source : Option ℕ} {fds : Table}
    (hm : copyMessage w.chan.msglen w.chan.msg=pure (ret,bytes)) (hs : w.source=source)
    (hf : eventfdWrite w.fds w.chan.pubNotifyfd w.chan.status.value=some fds) :
    subscribeAfterWait w call .empty=
      .ok (reply {w with fds := fds} (.subscribed call ret bytes source)) := by
  unfold subscribeAfterWait pscPubnotify
  rw [hm,pure_bind,hf,← hs]
  rfl

/-- A subscriber whose counter was not written leaves and goes on with NOP. -/
theorem subscribeAfterYield_none (hne : ¬(w.freed=true ∨ w.chan.sublist=[]))
    (hr : eventfdRead w.fds v.notifyfd=none) :
    subscribeAfterYield w v=subscribeAfterWait (leave w v) v.call .nop := by
  unfold subscribeAfterYield
  rw [if_neg hne,hr]

/-- A notified subscriber acknowledges; the last one goes on with EMPTY, whatever it has read. -/
theorem subscribeAfterYield_some {count : ℕ} (hne : ¬(w.freed=true ∨ w.chan.sublist=[]))
    (hr : eventfdRead w.fds v.notifyfd=some count) :
    subscribeAfterYield w v=subscribeAfterWait (acknowledge (leave w v)) v.call
      (if (acknowledge (leave w v)).chan.ackRem=0 then .empty else statusOf count) := by
  unfold subscribeAfterYield
  rw [if_neg hne,hr]

/-- The last subscriber to acknowledge copies the buffer, whatever it has read,
and notifies the publisher. -/
theorem subscribeAfterYield_last {count : ℕ} {ret : ℤ} {bytes : List UInt8} {source : Option ℕ}
    {fds : Table} (hne : ¬(w.freed=true ∨ w.chan.sublist=[]))
    (hr : eventfdRead w.fds v.notifyfd=some count)
    (hlast : (acknowledge (leave w v)).chan.ackRem=0)
    (hm : copyMessage w.chan.msglen w.chan.msg=pure (ret,bytes)) (hs : w.source=source)
    (hf : eventfdWrite (leave w v).fds w.chan.pubNotifyfd w.chan.status.value=some fds) :
    subscribeAfterYield w v=.ok (reply {acknowledge (leave w v) with fds := fds}
      (.subscribed v.call ret bytes source)) := by
  rw [subscribeAfterYield_some hne hr,if_pos hlast]
  exact subscribeAfterWait_empty hm hs hf

/-- A length below the bound is converted as it is. -/
theorem toSsize_of_lt {n : ℕ} (h : n<2^63) : toSsize n=n := by
  unfold toSsize
  rw [Int.bmod_def]
  split_ifs <;> omega

/-- A blocked subscriber finds its channel. -/
theorem Enlisted.kept_of_mem (h : Enlisted w) (hv : v∈w.subs) :
    ¬(w.freed=true ∨ w.chan.sublist=[]) := by
  rw [h.kept,h.sublist,List.map_eq_nil_iff]
  rintro (hf|hs)
  · cases hf
  · exact absurd (hs ▸ hv) List.not_mem_nil

/-- A blocked publisher waits on `pub_notifyfd`, on which no subscriber waits. -/
theorem Enlisted.publisher {p : Publisher} (h : Enlisted w) (hp : p∈w.pubs) :
    p.notifyfd=w.chan.pubNotifyfd ∧ ∀ v∈w.subs,p.notifyfd≠v.notifyfd := by
  cases h.phase with
  | quiet _ hq =>
    rw [hq] at hp
    exact absurd hp List.not_mem_nil
  | publishing _ hq _ hw _ ha =>
    rw [hq] at hp
    cases List.mem_singleton.mp hp
    exact ⟨hw,fun v hv he => ha (he ▸ List.mem_map_of_mem hv)⟩

/-- A subscriber blocks. -/
theorem Enlisted.enlist (h : Enlisted w) (hfd : w.fds fd=none) (call c : ℕ) :
    Enlisted (enlist w call c fd) := by
  have hfd' : ∀ n,w.fds fd≠some (.event n) := fun n => by simp [hfd]
  obtain ⟨hlist,hnum,hdistinct,hcounters⟩ := h.roster.enlist hfd call c
  refine ⟨h.kept,hlist,hnum,hdistinct,hcounters,?_⟩
  cases h.phase with
  | quiet hst hq => exact .quiet hst hq
  | publishing hst hq hreq hw hc ha =>
    obtain ⟨m,hm⟩ := Keeps.update hfd' _ _ _ hc
    refine .publishing hst hq hreq hw hm fun hmem => ?_
    rcases List.mem_cons.mp hmem with he|hmem
    · exact hfd' _ (he ▸ hc)
    · exact ha hmem

/-- A subscriber leaves. -/
theorem Enlisted.leave (h : Enlisted w) (hv : v∈w.subs) : Enlisted (leave w v) := by
  have hmem : v.notifyfd∈w.subs.map Subscription.notifyfd := List.mem_map_of_mem hv
  obtain ⟨hlist,hnum,hdistinct,hcounters⟩ := h.roster.leave hv
  refine ⟨h.kept,hlist,hnum,hdistinct,hcounters,?_⟩
  cases h.phase with
  | quiet hst hq => exact .quiet hst hq
  | @publishing p _ _ _ hst hq hreq hw hc ha =>
    have hne : p.notifyfd≠v.notifyfd := fun he => ha (he ▸ hmem)
    refine .publishing hst hq hreq hw ((fds_leave hne).trans hc) fun hm => ha ?_
    obtain ⟨u,hu,he⟩ := List.mem_map.mp hm
    exact he ▸ List.mem_map_of_mem (mem_leave hu).1

/-- A subscriber is resumed. -/
theorem Enlisted.subscribeAfterYield (h : Enlisted w) (hv : v∈w.subs)
    (ht : subscribeAfterYield w v=.ok t) : Enlisted t := by
  have hl := h.leave hv
  unfold PubsubChannel.subscribeAfterYield at ht
  split_ifs at ht
  split at ht
  · obtain ⟨hr,hk⟩ := subscribeAfterWait_same ht
    exact hl.of_same hr hk
  · obtain ⟨hr,hk⟩ := subscribeAfterWait_same ht
    exact hl.of_same hr hk

/-- A publisher copies its message, notifies the subscribers and, inside a
coroutine, waits for them. -/
theorem Enlisted.publish (h : Enlisted w) (hfd : w.fds fd=none) (hst : w.chan.status=.empty)
    (ht : pscPubwait (pscSubnotify (fill w call data)) call c context fd
      (.publish data (targets w))=.ok t) : Enlisted t := by
  have hpubs : w.pubs=[] := by
    cases h.phase with
    | quiet _ hq => exact hq
    | publishing hs => rw [hst] at hs; cases hs
  have hfill : Roster (fill w call data) := h.roster.of_same rfl rfl rfl (Keeps.refl _)
  unfold pscPubwait at ht
  split_ifs at ht
  · cases ht
    obtain ⟨hlist,hnum,hdistinct,hcounters⟩ := hfill.subnotify
    exact ⟨h.kept,hlist,hnum,hdistinct,hcounters,.quiet rfl hpubs⟩
  · cases ht
    have hfd' : (pscSubnotify (fill w call data)).fds fd=none := hfill.fds_subnotify hfd
    obtain ⟨hlist,hnum,hdistinct,hcounters⟩ :=
      hfill.subnotify.awaitAcks hfd' call c (.publish data (targets w))
    exact ⟨h.kept,hlist,hnum,hdistinct,hcounters,.publishing rfl (congrArg (_::·) hpubs) rfl rfl
      (Function.update_self ..) (h.roster.not_mem fun n => by simp [hfd])⟩

/-- A publisher is resumed. -/
theorem Enlisted.publishAfterYield {p : Publisher} (h : Enlisted w) (hp : p∈w.pubs)
    (ht : publishAfterYield w p=.ok t) : Enlisted t := by
  unfold PubsubChannel.publishAfterYield at ht
  split_ifs at ht
  cases ht
  cases h.phase with
  | quiet _ hq =>
    rw [hq] at hp
    exact absurd hp List.not_mem_nil
  | publishing hst hq hreq hw hc ha =>
    rw [hq] at hp
    cases List.mem_singleton.mp hp
    rw [hreq]
    refine ⟨h.kept,h.sublist,h.subNum,h.distinct,fun v hv => ?_,.quiet rfl ?_⟩
    · obtain ⟨n,hn⟩ := h.counters v hv
      have hne : v.notifyfd≠w.chan.pubNotifyfd :=
        fun he => ha (hw ▸ he ▸ List.mem_map_of_mem hv)
      exact ⟨n,(Function.update_of_ne hne ..).trans hn⟩
    · show w.pubs.filter _=[]
      rw [hq]
      simp

/-- Every step but a destruction keeps the registrations. -/
theorem Enlisted.step (h : Enlisted w) (hk : keeps a=true) (ha : step w a=some (.ok t)) :
    Enlisted t := by
  have hn : Enlisted (numbered w) := h.of_same rfl (Keeps.refl _)
  cases taken_of_step ha with
  | refuseSubscriber => exact hn.reply _
  | copyAtOnce _ _ _ _ _ ht =>
    obtain ⟨hr,hk⟩ := subscribeAfterWait_same ht
    exact hn.of_same hr hk
  | enlist hfd => exact hn.enlist hfd ..
  | refusePublisher => exact hn.reply _
  | publish hfd _ hst _ _ _ ht => exact hn.publish hfd hst ht
  | destroyAgain => cases hk
  | destroyAtOnce => cases hk
  | destroy => cases hk
  | resumeSubscriber hv _ ht => exact h.subscribeAfterYield hv ht
  | resumePublisher hp ht => exact h.publishAfterYield (List.mem_of_find?_eq_some hp) ht
  | elsewhere _ hf => exact h.of_same rfl fun x n hx => ⟨n,hf x n hx⟩

/-- A new channel has no subscribers. -/
theorem enlisted_newChannel (size : ℕ) : Enlisted (newChannel size) := by
  refine ⟨rfl,rfl,rfl,List.nodup_nil,fun v hv => absurd hv List.not_mem_nil,.quiet rfl rfl⟩

end DycoCoroutine.PubsubChannel
