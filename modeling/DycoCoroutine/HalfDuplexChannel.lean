import DycoCoroutine.EventFd
import DycoCoroutine.RunInvariant
import DycoCoroutine.ScheduleState

/-!
# The half-duplex channel

`dyco_channel.c` as a machine of one channel and any number of callers. A call
is split in two by `hdc_wait`: the first half looks at the status and may block
on one of the two event descriptors, the second half looks at the status again.
The channel is a one-slot queue: whatever the interleaving, what the calls
report as sent is what they report as received and the message in the slot.
-/

namespace DycoCoroutine.HalfDuplexChannel

open ScheduleState RunInvariant EventFd

/-- `half_duplex_channel_status` -/
inductive Status
  | nop
  | empty
  | full
  | wantRead
  | wantWrite
  | wantClose
  | canClose
  deriving DecidableEq

/-- The number of a status, which `hdc_notify` writes. -/
def Status.value : Status → ℕ
  | .nop => 0
  | .empty => 1
  | .full => 2
  | .wantRead => 3
  | .wantWrite => 4
  | .wantClose => 5
  | .canClose => 6

/-- `struct half_duplex_channel`, with the counters of its two descriptors. -/
structure Channel where
  /-- `maxsize` -/
  maxsize : ℕ
  /-- `msglen` -/
  msglen : ℕ
  /-- The `maxsize` bytes at `msg`. -/
  msg : List UInt8
  /-- Counter of `r_notifyfd`. -/
  rNotify : ℕ
  /-- Counter of `w_notifyfd`. -/
  wNotify : ℕ
  /-- `status` -/
  status : Status

/-- A call of `dyco_channel_send` with its message, or of `dyco_channel_recv`
with the size of its buffer. -/
inductive Request
  | send (data : List UInt8)
  | recv (maxsize : ℕ)
  deriving DecidableEq

/-- `dyco_channel_create`, with the default size DYCO_DEFAULT_CHANNELSIZE. -/
def dycoChannelCreate (size : ℕ) : Channel :=
  let maxsize := if size>0 then size else 256
  ⟨maxsize,0,List.replicate maxsize 0,0,0,.empty⟩

/-- `hdc_notify` on `r_notifyfd`. A failing write is ignored. -/
def hdcNotifyR (ch : Channel) : Channel :=
  {ch with rNotify := (bump ch.rNotify ch.status.value).getD ch.rNotify}

/-- `hdc_notify` on `w_notifyfd`. -/
def hdcNotifyW (ch : Channel) : Channel :=
  {ch with wNotify := (bump ch.wNotify ch.status.value).getD ch.wNotify}

/-- A message is copied into the slot. -/
def fill (ch : Channel) (data : List UInt8) : Channel :=
  {ch with
    msglen := data.length
    msg := data++ch.msg.drop data.length
    status := .full}

/-- The message is copied to a receiver. -/
def takeMsg (ch : Channel) : Except Fault (ℤ×List UInt8) := copyMessage ch.msglen ch.msg

/-- How the first half of a call ends. -/
inductive Verdict
  /-- The call returns `ret`, having copied `bytes` to the caller. -/
  | returns (ret : ℤ) (bytes : List UInt8) (ch : Channel)
  /-- The call goes into `hdc_wait`. -/
  | waits (ch : Channel)

/-- `dyco_channel_send` up to `hdc_wait`. -/
def dycoChannelSend (ch : Channel) (data : List UInt8) : Verdict :=
  if data.length>ch.maxsize ∨ data.length=0 then .returns (-2) [] ch
  else match ch.status with
    | .empty => .returns (toInt data.length) [] (fill ch data)
    | .full => .waits {ch with status := .wantWrite}
    | .wantRead => .returns (toInt data.length) [] (hdcNotifyR (fill ch data))
    | .wantWrite => .returns (-2) [] ch
    | .wantClose => .returns (-1) [] ch
    | _ => .returns (-2) [] ch

/-- `dyco_channel_send` after `hdc_wait`. -/
def sendAfterWait (ch : Channel) (data : List UInt8) : ℤ×Channel :=
  match ch.status with
  | .empty => (toInt data.length,fill ch data)
  | .full => (-2,ch)
  | .wantRead => (toInt data.length,hdcNotifyR (fill ch data))
  | .wantWrite => (0,{ch with status := .full})
  | .wantClose => (-1,hdcNotifyR {ch with status := .canClose})
  | _ => (-1,ch)

/-- `dyco_channel_recv` up to `hdc_wait`. -/
def dycoChannelRecv (ch : Channel) (maxsize : ℕ) : Except Fault Verdict :=
  if maxsize<ch.maxsize then .ok (.returns (-2) [] ch)
  else match ch.status with
    | .empty => .ok (.waits {ch with status := .wantRead})
    | .full => do
      let (ret,bytes) ← takeMsg ch
      pure (.returns ret bytes {ch with status := .empty})
    | .wantRead => .ok (.returns (-2) [] ch)
    | .wantWrite => do
      let (ret,bytes) ← takeMsg ch
      pure (.returns ret bytes (hdcNotifyW {ch with status := .empty}))
    | .wantClose => .ok (.returns (-1) [] ch)
    | _ => .ok (.returns (-2) [] ch)

/-- `dyco_channel_recv` after `hdc_wait`. -/
def recvAfterWait (ch : Channel) : Except Fault (ℤ×List UInt8×Channel) :=
  match ch.status with
  | .empty => .ok (-2,[],ch)
  | .full => do
    let (ret,bytes) ← takeMsg ch
    pure (ret,bytes,{ch with status := .empty})
  | .wantRead => .ok (0,[],{ch with status := .empty})
  | .wantWrite => do
    let (ret,bytes) ← takeMsg ch
    pure (ret,bytes,hdcNotifyW {ch with status := .empty})
  | .wantClose => .ok (-1,[],hdcNotifyW {ch with status := .canClose})
  | _ => .ok (-1,[],ch)

/-- `dyco_channel_destroy`. Its first condition assigns WANTCLOSE to the status
instead of comparing, so the function always returns there. -/
def dycoChannelDestroy (ch : Channel) : Channel := {ch with status := .wantClose}

/-- The first half of a call. -/
def firstHalf (ch : Channel) : Request → Except Fault Verdict
  | .send data => .ok (dycoChannelSend ch data)
  | .recv maxsize => dycoChannelRecv ch maxsize

/-- The second half of a call. -/
def secondHalf (ch : Channel) : Request → Except Fault (ℤ×List UInt8×Channel)
  | .send data => .ok ((sendAfterWait ch data).1,[],(sendAfterWait ch data).2)
  | .recv _ => recvAfterWait ch

/-- A call that is blocked in `hdc_wait`. -/
structure Blocked where
  /-- What was called. -/
  request : Request
  /-- Whether a timer was set. -/
  timed : Bool
  /-- Whether the coroutine stands in a ready queue. -/
  queued : Bool

/-- A call that has returned. -/
structure Reply where
  /-- The caller. -/
  caller : ℕ
  /-- What was called. -/
  request : Request
  /-- Whether the call was blocked in `hdc_wait`. -/
  waited : Bool
  /-- The result. -/
  ret : ℤ
  /-- What was copied to the caller. -/
  bytes : List UInt8

/-- A channel and its callers. -/
structure World where
  /-- The channel. -/
  chan : Channel
  /-- The coroutine registered for `r_notifyfd`. -/
  rWaiter : Option ℕ
  /-- The coroutine registered for `w_notifyfd`. -/
  wWaiter : Option ℕ
  /-- The blocked calls. -/
  calls : ℕ → Option Blocked
  /-- The calls that have returned, oldest first. -/
  log : List Reply

/-- A new channel that nobody has called yet. -/
def newChannel (size : ℕ) : World := ⟨dycoChannelCreate size,none,none,fun _ => none,[]⟩

/-- A call returns. -/
def finish (w : World) (r : Reply) (ch : Channel) : World :=
  {w with chan := ch,calls := Function.update w.calls r.caller none,log := w.log++[r]}

/-- Register for a descriptor and suspend. EPOLL_CTL_ADD fails where another
coroutine is registered already. -/
def hdcWait (w : World) (c : ℕ) (req : Request) (timeout : ℤ) : Except Fault World :=
  let calls := Function.update w.calls c (some ⟨req,0<timeout,false⟩)
  match req with
  | .send _ =>
    if w.wWaiter=none then .ok {w with wWaiter := some c,calls := calls} else .error .epollCtl
  | .recv _ =>
    if w.rWaiter=none then .ok {w with rWaiter := some c,calls := calls} else .error .epollCtl

/-- The second half of a call of `c`. -/
def complete (w : World) (c : ℕ) (req : Request) (waited : Bool) : Except Fault World := do
  let (ret,bytes,ch) ← secondHalf w.chan req
  pure (finish w ⟨c,req,waited,ret,bytes⟩ ch)

/-- A call up to its return or to the point where it blocks. `hdc_wait` does not
wait at timeout 0 or outside a coroutine. -/
def startCall (w : World) (c : ℕ) (context : Context) (req : Request) (timeout : ℤ) :
    Except Fault World := do
  match ← firstHalf w.chan req with
  | .returns ret bytes ch => pure (finish w ⟨c,req,false,ret,bytes⟩ ch)
  | .waits ch =>
    let w := {w with chan := ch}
    if timeout=0 ∨ context=.outside then complete w c req false
    else if context=.asymmetric then .error .must
    else hdcWait w c req timeout

/-- `schedule_cancel_wait` and `eventfd_read` of a resumed call. The value that
is read is not used. -/
def unregister (w : World) (c : ℕ) : Request → World
  | .send _ => {w with
      wWaiter := if w.wWaiter=some c then none else w.wWaiter
      chan := {w.chan with wNotify := 0}}
  | .recv _ => {w with
      rWaiter := if w.rWaiter=some c then none else w.rWaiter
      chan := {w.chan with rNotify := 0}}

/-- Put the blocked call of `c` into a ready queue. -/
def enqueue (w : World) (c : ℕ) : World :=
  let b := (w.calls c).map fun b => {b with queued := true}
  {w with calls := Function.update w.calls c b}

/-- What can happen next. -/
inductive Act
  /-- A call. -/
  | call (c : ℕ) (context : Context) (req : Request) (timeout : ℤ)
  /-- Phase D of the scheduler reports `r_notifyfd`. -/
  | readable
  /-- Phase D of the scheduler reports `w_notifyfd`. -/
  | writable
  /-- Phase A of the scheduler takes the timer of a blocked call. -/
  | expire (c : ℕ)
  /-- The scheduler resumes a blocked call. -/
  | resume (c : ℕ)
  /-- `dyco_channel_destroy` -/
  | destroy

/-- One step of a channel and its callers. -/
def step (w : World) : Act → Option (Except Fault World)
  | .call c context req timeout =>
    if (w.calls c).isNone then some (startCall w c context req timeout) else none
  | .readable =>
    match w.rWaiter with
    | some c => if 0<w.chan.rNotify then some (.ok (enqueue {w with rWaiter := none} c)) else none
    | none => none
  | .writable =>
    match w.wWaiter with
    | some c => if 0<w.chan.wNotify then some (.ok (enqueue {w with wWaiter := none} c)) else none
    | none => none
  | .expire c =>
    match w.calls c with
    | some b => if b.timed then some (.ok (enqueue w c)) else none
    | none => none
  | .resume c =>
    match w.calls c with
    | some b => some (complete (unregister w c b.request) c b.request true)
    | none => none
  | .destroy => some (.ok {w with chan := dycoChannelDestroy w.chan})

/-- The states that a channel of this size can reach when every step meets
`cond`. -/
def Reachable (size : ℕ) (cond : World → Act → Prop) (w : World) : Prop :=
  Runs step cond (newChannel size) w

/-- The message that a returned call has put into the channel. -/
def Reply.sent (r : Reply) : List (List UInt8) :=
  match r.request with
  | .send data => if 0<r.ret then [data] else []
  | .recv _ => []

/-- The message that a returned call has taken out of the channel. -/
def Reply.received (r : Reply) : List (List UInt8) :=
  match r.request with
  | .send _ => []
  | .recv _ => if 0<r.ret then [r.bytes] else []

/-- The messages accepted by send calls, in order of acceptance. -/
def accepted (w : World) : List (List UInt8) := w.log.flatMap Reply.sent

/-- The messages returned by receive calls, in order of return. -/
def delivered (w : World) : List (List UInt8) := w.log.flatMap Reply.received

/-- The content of the slot. -/
def slot (ch : Channel) : List (List UInt8) :=
  if ch.status=.full ∨ ch.status=.wantWrite then [ch.msg.take ch.msglen] else []

/-- A channel that is not being closed, with a message of proper size in an
occupied slot. -/
structure Open (ch : Channel) : Prop where
  small : ch.maxsize<2^31
  room : ch.msg.length=ch.maxsize
  status : ch.status=.empty ∨ ch.status=.full ∨ ch.status=.wantRead ∨ ch.status=.wantWrite
  occupied : ch.status=.full ∨ ch.status=.wantWrite → 0<ch.msglen ∧ ch.msglen ≤ ch.maxsize

variable {ch ch' : Channel} {w w' : World} {req : Request} {data bytes : List UInt8} {ret : ℤ}

/-- A new message in the slot. -/
theorem Open.fill (h : Open ch) (h₀ : 0<data.length) (h₁ : data.length ≤ ch.maxsize) :
    Open (fill ch data) ∧ slot (fill ch data)=[data] ∧ 0<toInt data.length := by
  refine ⟨⟨h.small,?_,by simp [HalfDuplexChannel.fill],fun _ => ⟨h₀,h₁⟩⟩,?_,?_⟩
  · simp [HalfDuplexChannel.fill,h.room,h₁]
  · simp [HalfDuplexChannel.fill,slot]
  · rw [toInt_of_lt (h₁.trans_lt h.small)]
    exact_mod_cast h₀

/-- A change of status that leaves the slot as it is, or empties it. -/
theorem Open.setStatus (h : Open ch) {status : Status}
    (hs : status=.empty ∨ status=.wantRead ∨
      (status=.full ∨ status=.wantWrite) ∧ (ch.status=.full ∨ ch.status=.wantWrite)) :
    Open {ch with status := status} := by
  refine ⟨h.small,h.room,?_,fun ho => ?_⟩
  · rcases hs with rfl|rfl|⟨rfl|rfl,-⟩ <;> simp
  · rcases hs with rfl|rfl|⟨-,hs⟩
    · simp at ho
    · simp at ho
    · exact h.occupied hs

/-- The counters of the descriptors are no part of the queue. -/
theorem Open.setNotify (h : Open ch) (r n : ℕ) :
    Open {ch with rNotify := r,wNotify := n} ∧ slot {ch with rNotify := r,wNotify := n}=slot ch :=
  ⟨⟨h.small,h.room,h.status,h.occupied⟩,rfl⟩

/-- The law of the queue for one call: the slot and what the call puts in are
what the call takes out and the new slot. -/
structure Served (ch : Channel) (req : Request) (ret : ℤ) (bytes : List UInt8) (ch' : Channel) :
    Prop where
  stays : Open ch'
  maxsize : ch'.maxsize=ch.maxsize
  queue : ∀ c waited,slot ch++(Reply.mk c req waited ret bytes).sent=
    (Reply.mk c req waited ret bytes).received++slot ch'

/-- A send that finds the slot free. -/
theorem served_fill (h : Open ch) (hs : ch.status=.empty ∨ ch.status=.wantRead)
    (h₀ : 0<data.length) (h₁ : data.length ≤ ch.maxsize) :
    Served ch (.send data) (toInt data.length) [] (fill ch data) := by
  obtain ⟨ho,hslot,hpos⟩ := h.fill h₀ h₁
  refine ⟨ho,rfl,fun c waited => ?_⟩
  have hfree : slot ch=[] := by rcases hs with hs|hs <;> simp [slot,hs]
  simp [Reply.sent,Reply.received,hfree,hslot,hpos]

/-- A receive that finds a message copies it whole. -/
theorem takeMsg_served (h : Open ch) (hs : ch.status=.full ∨ ch.status=.wantWrite) (n : ℕ) :
    Yields .undefined (fun m => Served ch (.recv n) m.1 m.2 {ch with status := .empty})
      (takeMsg ch) := by
  have ho := h.occupied hs
  have hint := toInt_of_lt (ho.2.trans_lt h.small)
  unfold takeMsg copyMessage
  rw [if_neg (by omega),hint]
  refine .ok ⟨h.setStatus (.inl rfl),rfl,fun c waited => ?_⟩
  simp [Reply.sent,Reply.received,slot,hs,ho.1]

/-- A call that transfers nothing and keeps the slot. -/
theorem served_nothing (ho : Open ch') (hm : ch'.maxsize=ch.maxsize) (hs : slot ch'=slot ch)
    (hr : ret≤0) : Served ch req ret bytes ch' := by
  refine ⟨ho,hm,fun c waited => ?_⟩
  cases req <;> simp [Reply.sent,Reply.received,hs,not_lt.mpr hr]

/-- Notifying the reader does not touch the message. -/
theorem Served.notifyR (h : Served ch req ret bytes ch') : Served ch req ret bytes (hdcNotifyR ch') :=
  ⟨(h.stays.setNotify _ _).1,h.maxsize,h.queue⟩

/-- Notifying the writer does not touch the message. -/
theorem Served.notifyW (h : Served ch req ret bytes ch') : Served ch req ret bytes (hdcNotifyW ch') :=
  ⟨(h.stays.setNotify _ _).1,h.maxsize,h.queue⟩

/-- A message that passes the size check of `dyco_channel_send`. -/
def Fits (ch : Channel) : Request → Prop
  | .send data => 0<data.length ∧ data.length ≤ ch.maxsize
  | .recv _ => True

/-- What the first half of a call establishes. -/
def Begun (ch : Channel) (req : Request) : Verdict → Prop
  | .returns ret bytes ch' => Served ch req ret bytes ch'
  | .waits ch' => Open ch' ∧ ch'.maxsize=ch.maxsize ∧ slot ch'=slot ch ∧ Fits ch req

/-- A send returns at once, or waits for an empty channel. -/
theorem dycoChannelSend_begun (h : Open ch) (data : List UInt8) :
    Begun ch (.send data) (dycoChannelSend ch data) := by
  unfold dycoChannelSend
  split_ifs with hsize
  · exact served_nothing h rfl rfl (by omega)
  have hfit : 0<data.length ∧ data.length ≤ ch.maxsize := by omega
  rcases h.status with hs|hs|hs|hs <;> simp only [hs]
  · exact served_fill h (.inl hs) hfit.1 hfit.2
  · exact ⟨h.setStatus (.inr (.inr ⟨.inr rfl,.inl hs⟩)),rfl,by simp [slot,hs],hfit⟩
  · exact (served_fill h (.inr hs) hfit.1 hfit.2).notifyR
  · exact served_nothing h rfl rfl (by omega)

/-- A receive returns at once, or waits for a message. -/
theorem dycoChannelRecv_begun (h : Open ch) (n : ℕ) :
    Yields .undefined (Begun ch (.recv n)) (dycoChannelRecv ch n) := by
  unfold dycoChannelRecv
  split_ifs with hsize
  · exact .ok (served_nothing h rfl rfl (by omega))
  rcases h.status with hs|hs|hs|hs <;> simp only [hs]
  · exact .ok ⟨h.setStatus (.inr (.inl rfl)),rfl,by simp [slot,hs],trivial⟩
  · exact (takeMsg_served h (.inl hs) n).bind fun (_,_) hm => .ok hm
  · exact .ok (served_nothing h rfl rfl (by omega))
  · exact (takeMsg_served h (.inr hs) n).bind fun (_,_) hm => .ok hm.notifyW

/-- The first half of a call keeps the law of the queue and reads no impossible
length. -/
theorem firstHalf_begun (h : Open ch) (req : Request) :
    Yields .undefined (Begun ch req) (firstHalf ch req) := by
  cases req with
  | send data => exact .ok (dycoChannelSend_begun h data)
  | recv n => exact dycoChannelRecv_begun h n

/-- What the second half of a call establishes. -/
def Ended (ch : Channel) (req : Request) : ℤ×List UInt8×Channel → Prop
  | (ret,bytes,ch') => Served ch req ret bytes ch'

/-- The second half of a call keeps the law of the queue. -/
theorem secondHalf_ended (h : Open ch) (hf : Fits ch req) :
    Yields .undefined (Ended ch req) (secondHalf ch req) := by
  cases req with
  | send data =>
    unfold secondHalf sendAfterWait
    rcases h.status with hs|hs|hs|hs <;> simp only [hs]
    · exact .ok (served_fill h (.inl hs) hf.1 hf.2)
    · exact .ok (served_nothing h rfl rfl (by omega))
    · exact .ok (served_fill h (.inr hs) hf.1 hf.2).notifyR
    · exact .ok (served_nothing (h.setStatus (.inr (.inr ⟨.inl rfl,.inr hs⟩))) rfl
        (by simp [slot,hs]) le_rfl)
  | recv n =>
    unfold secondHalf recvAfterWait
    rcases h.status with hs|hs|hs|hs <;> simp only [hs]
    · exact .ok (served_nothing h rfl rfl (by omega))
    · exact (takeMsg_served h (.inl hs) n).bind fun (_,_) hm => .ok hm
    · exact .ok (served_nothing (h.setStatus (.inl rfl)) rfl (by simp [slot,hs]) le_rfl)
    · exact (takeMsg_served h (.inr hs) n).bind fun (_,_) hm => .ok hm.notifyW

/-- The invariant of a channel that is never destroyed. -/
structure Fifo (w : World) : Prop where
  stays : Open w.chan
  fits : ∀ c b,w.calls c=some b → Fits w.chan b.request
  queue : accepted w=delivered w++slot w.chan

/-- What fits depends on the size of the channel only. -/
theorem Fits.of_maxsize (h : Fits ch req) (hm : ch'.maxsize=ch.maxsize) : Fits ch' req := by
  cases req with
  | send data => exact ⟨h.1,hm ▸ h.2⟩
  | recv n => trivial

/-- A change of the channel that keeps the slot. -/
theorem Fifo.setChan (h : Fifo w) (ho : Open ch) (hm : ch.maxsize=w.chan.maxsize)
    (hs : slot ch=slot w.chan) : Fifo {w with chan := ch} :=
  ⟨ho,fun c b hb => (h.fits c b hb).of_maxsize hm,h.queue.trans (by rw [hs]; rfl)⟩

/-- A change of one blocked call. -/
theorem Fifo.setCall {c : ℕ} {b : Option Blocked} (h : Fifo w)
    (hb : ∀ b',b=some b' → Fits w.chan b'.request) :
    Fifo {w with calls := Function.update w.calls c b} := by
  refine ⟨h.stays,fun d b' hd => ?_,h.queue⟩
  by_cases hdc : d=c
  · rw [hdc] at hd
    exact hb b' (by simpa using hd)
  · exact h.fits d b' (by simpa [hdc] using hd)

/-- A call that returns keeps the law of the queue. -/
theorem Fifo.finish {c : ℕ} {waited : Bool} (h : Fifo w) (hv : Served w.chan req ret bytes ch) :
    Fifo (finish w ⟨c,req,waited,ret,bytes⟩ ch) := by
  refine ⟨hv.stays,fun d b hd => ?_,?_⟩
  · have hcalls : Fifo {w with calls := Function.update w.calls c none} :=
      h.setCall fun _ hb => by cases hb
    exact (hcalls.fits d b hd).of_maxsize hv.maxsize
  · have hq : accepted w++_=_ := congrArg (·++(Reply.mk c req waited ret bytes).sent) h.queue
    rw [List.append_assoc,hv.queue,← List.append_assoc] at hq
    simpa [accepted,delivered,HalfDuplexChannel.finish] using hq

/-- A call that comes to its end keeps the order. -/
theorem Fifo.complete (h : Fifo w) (hf : Fits w.chan req) (c : ℕ) (waited : Bool) :
    Yields .undefined Fifo (complete w c req waited) :=
  (secondHalf_ended h.stays hf).bind fun (_,_,_) hv => .ok (h.finish hv)

/-- A call that begins to wait keeps the order. -/
theorem Fifo.hdcWait (h : Fifo w) (hf : Fits w.chan req) (c : ℕ) (timeout : ℤ) :
    Yields .undefined Fifo (hdcWait w c req timeout) := by
  have hc : Fifo {w with calls := Function.update w.calls c (some ⟨req,0<timeout,false⟩)} :=
    h.setCall fun b hb => by
      cases hb
      exact hf
  unfold HalfDuplexChannel.hdcWait
  cases req with
  | send data =>
    dsimp only
    split_ifs
    · exact .ok ⟨hc.stays,hc.fits,hc.queue⟩
    · exact .error Fault.noConfusion
  | recv n =>
    dsimp only
    split_ifs
    · exact .ok ⟨hc.stays,hc.fits,hc.queue⟩
    · exact .error Fault.noConfusion

/-- A new call keeps the order. -/
theorem Fifo.startCall (h : Fifo w) (c : ℕ) (context : Context) (req : Request) (timeout : ℤ) :
    Yields .undefined Fifo (startCall w c context req timeout) := by
  refine (firstHalf_begun h.stays req).bind fun v hv => ?_
  cases v with
  | returns ret bytes ch => exact .ok (h.finish hv)
  | waits ch =>
    obtain ⟨ho,hm,hs,hf⟩ := hv
    have hw := h.setChan ho hm hs
    dsimp only
    split_ifs
    · exact hw.complete (hf.of_maxsize hm) c false
    · exact .error Fault.noConfusion
    · exact hw.hdcWait (hf.of_maxsize hm) c timeout

/-- A call that stops waiting keeps the order. -/
theorem Fifo.unregister (h : Fifo w) (c : ℕ) (req : Request) : Fifo (unregister w c req) := by
  cases req <;> exact ⟨⟨h.stays.small,h.stays.room,h.stays.status,h.stays.occupied⟩,h.fits,h.queue⟩

/-- A call that becomes ready keeps the order. -/
theorem Fifo.enqueue (h : Fifo w) (c : ℕ) : Fifo (enqueue w c) := by
  refine h.setCall fun b hb => ?_
  obtain ⟨b',hb',rfl⟩ := Option.map_eq_some_iff.mp hb
  exact h.fits c b' hb'

/-- The channel is not destroyed. -/
def Kept (_ : World) (a : Act) : Prop := a≠.destroy

instance (w : World) (a : Act) : Decidable (Kept w a) :=
  match a with
  | .destroy => isFalse fun h => h rfl
  | .call _ _ _ _ => isTrue Act.noConfusion
  | .readable => isTrue Act.noConfusion
  | .writable => isTrue Act.noConfusion
  | .expire _ => isTrue Act.noConfusion
  | .resume _ => isTrue Act.noConfusion

/-- Every step but the destruction keeps the law of the queue. -/
theorem Fifo.step {a : Act} {r : Except Fault World} (h : Fifo w) (hk : Kept w a)
    (hr : step w a=some r) : Yields .undefined Fifo r := by
  cases a with
  | call c context req timeout =>
    simp only [HalfDuplexChannel.step] at hr
    split_ifs at hr
    cases hr
    exact h.startCall c context req timeout
  | readable =>
    simp only [HalfDuplexChannel.step] at hr
    split at hr
    · split_ifs at hr
      cases hr
      refine .ok (Fifo.enqueue ?_ _)
      exact ⟨h.stays,h.fits,h.queue⟩
    · cases hr
  | writable =>
    simp only [HalfDuplexChannel.step] at hr
    split at hr
    · split_ifs at hr
      cases hr
      refine .ok (Fifo.enqueue ?_ _)
      exact ⟨h.stays,h.fits,h.queue⟩
    · cases hr
  | expire c =>
    simp only [HalfDuplexChannel.step] at hr
    split at hr
    · split_ifs at hr
      cases hr
      exact .ok (h.enqueue c)
    · cases hr
  | resume c =>
    simp only [HalfDuplexChannel.step] at hr
    split at hr
    next b hb =>
      cases hr
      have hu := h.unregister c b.request
      refine hu.complete ?_ c true
      exact (h.fits c b hb).of_maxsize (by cases b.request <;> rfl)
    · cases hr
  | destroy => exact absurd rfl hk

/-- A new channel is empty. -/
theorem fifo_newChannel {size : ℕ} (hs : size<2^31) : Fifo (newChannel size) := by
  refine ⟨⟨?_,?_,.inl rfl,?_⟩,fun c b hb => (by cases hb),rfl⟩
  · simp only [newChannel,dycoChannelCreate]
    split_ifs <;> omega
  · simp [newChannel,dycoChannelCreate]
  · rintro (h|h) <;> cases h

/-- The order holds along every run. -/
theorem fifo_of_reachable {size : ℕ} (hs : size<2^31) (h : Reachable size Kept w) : Fifo w :=
  h.invariant Fifo (fifo_newChannel hs) fun _ _ _ hi hk ha => (hi.step hk ha).post_of_ok

/-- In every interleaving of calls on a channel of less than 2^31 bytes the
messages received are a prefix of the messages sent, short of them by the one
message of an occupied slot. -/
theorem channel_fifo {size : ℕ} (hs : size<2^31) (h : Reachable size Kept w) :
    delivered w<+:accepted w ∧ (accepted w).length≤(delivered w).length+1 ∧
    ((accepted w).length=(delivered w).length+1 ↔
      w.chan.status=.full ∨ w.chan.status=.wantWrite) := by
  have hq := (fifo_of_reachable hs h).queue
  refine ⟨⟨slot w.chan,hq.symm⟩,?_,?_⟩
  · rw [hq]
    unfold slot
    split_ifs <;> simp
  · rw [hq]
    unfold slot
    split_ifs with ho <;> simp [ho]

/-- A receiver waits for the first message, and one sender waits behind the
second. -/
def twoMessages : List Act :=
  [.call 0 .symmetric (.recv 256) (-1),.call 1 .symmetric (.send [104,105]) 20,.readable,
    .resume 0,.call 1 .symmetric (.send [33]) 20,.call 2 .symmetric (.send [7]) 20]

/-- One message is received, and the next one stands in the channel. -/
theorem channel_fifo_twoMessages :
    ∃ w,replayWhile step Kept (newChannel 0) twoMessages=some w ∧
      accepted w=[[104,105],[33]] ∧ w.chan.status=.wantWrite ∧
      delivered w<+:accepted w ∧ (accepted w).length≤(delivered w).length+1 ∧
      ((accepted w).length=(delivered w).length+1 ↔
        w.chan.status=.full ∨ w.chan.status=.wantWrite) := by
  have h : (replayWhile step Kept (newChannel 0) twoMessages).map (fun w =>
      (accepted w,w.chan.status))=some ([[104,105],[33]],.wantWrite) := by decide +kernel
  obtain ⟨w,hw,hq⟩ := Option.map_eq_some_iff.mp h
  simp only [Prod.mk.injEq] at hq
  exact ⟨w,hw,hq.1,hq.2,channel_fifo (by decide) (runs_of_replayWhile hw)⟩

end DycoCoroutine.HalfDuplexChannel
