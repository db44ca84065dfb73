import DycoCoroutine.HalfDuplexChannel

/-!
# Wake-ups on the half-duplex channel

The status of a channel says that somebody is blocked but not who. As long as no
call begins while a notification of its own side is still to be read, each side
has at most one blocked call, the status asks for it until it is notified, and
it transfers a message when it is resumed. A call that overtakes a notified one
leaves it with another's status.
-/

namespace DycoCoroutine.ChannelWakeups

open ScheduleState RunInvariant EventFd HalfDuplexChannel

/-- The two sides of a channel, each with its descriptor. -/
inductive Side
  | writer
  | reader
  deriving DecidableEq

/-- The side of a call. -/
def side : Request → Side
  | .send _ => .writer
  | .recv _ => .reader

/-- The counter of the descriptor of a side. -/
def notified (ch : Channel) : Side → ℕ
  | .writer => ch.wNotify
  | .reader => ch.rNotify

/-- The coroutine registered for the descriptor of a side. -/
def waiter (w : World) : Side → Option ℕ
  | .writer => w.wWaiter
  | .reader => w.rWaiter

/-- The status that asks for a blocked call of a side. -/
def wanted : Side → Status
  | .writer => .wantWrite
  | .reader => .wantRead

/-- A status in which a call of the side transfers a message. -/
def Ready : Side → Status → Prop
  | .writer,st => st=.empty ∨ st=.wantRead
  | .reader,st => st=.full ∨ st=.wantWrite

/-- Calls are made by symmetric coroutines and wait without a timer, blocked
calls are resumed from a ready queue, and the channel is not destroyed. -/
def patient (w : World) : Act → Bool
  | .call _ context _ timeout => context=.symmetric && timeout<0
  | .resume c => (w.calls c).any fun b => b.queued
  | .destroy => false
  | _ => true

/-- No call begins while a notification of its side is still to be read, and
messages are shorter than 2^31 bytes. -/
def unhurried (w : World) : Act → Bool
  | .call _ _ (.send data) _ => w.chan.wNotify=0 && data.length<2^31
  | .call _ _ (.recv _) _ => w.chan.rNotify=0
  | _ => true

/-- A patient step that overtakes no notified call. -/
def Orderly (w : World) (a : Act) : Prop := patient w a=true ∧ unhurried w a=true

instance (w : World) (a : Act) : Decidable (Orderly w a) := inferInstanceAs (Decidable (_∧_))

/-- One side of a channel, given the status, the counter and the registration of
its descriptor, and the blocked calls. -/
structure Attended (σ : Side) (st : Status) (n : ℕ) (reg : Option ℕ) (calls : ℕ → Option Blocked) :
    Prop where
  /-- A notification comes with a status that serves the side. -/
  wake : 0<n → Ready σ st
  /-- At most one call of the side is blocked. -/
  one : ∀ c d b e,calls c=some b → calls d=some e → side b.request=σ → side e.request=σ → c=d
  /-- Until it is notified the status asks for it. -/
  asked : ∀ c b,calls c=some b → side b.request=σ → n=0 → st=wanted σ
  /-- It is queued only when it has been notified. -/
  queued : ∀ c b,calls c=some b → side b.request=σ → b.queued=true → 0<n
  /-- It is registered until it is queued. -/
  listening : ∀ c b,calls c=some b → side b.request=σ → b.queued=false → reg=some c
  /-- Nobody else is registered. -/
  registered : ∀ c,reg=some c → ∃ b,calls c=some b ∧ side b.request=σ

variable {σ : Side} {st st' : Status} {n n' : ℕ} {reg : Option ℕ} {calls calls' : ℕ → Option Blocked}
  {c : ℕ} {w w' : World}

/-- Nobody of the side is blocked. -/
def Vacant (σ : Side) (calls : ℕ → Option Blocked) : Prop :=
  ∀ c b,calls c=some b → side b.request≠σ

/-- A side that is neither notified nor asked for is vacant. -/
theorem Attended.vacant (h : Attended σ st n reg calls) (hn : n=0) (hs : st≠wanted σ) :
    Vacant σ calls :=
  fun c b hb hσ => hs (h.asked c b hb hσ hn)

/-- Nobody is notified of what is not ready. -/
theorem Attended.unnotified (h : Attended σ st n reg calls) (hr : ¬Ready σ st) : n=0 := by
  by_contra hn
  exact hr (h.wake (Nat.pos_of_ne_zero hn))

/-- A side on which nothing happens. -/
theorem Attended.same (h : Attended σ st n reg calls) (hr : Ready σ st → Ready σ st')
    (hw : st=wanted σ → st'=wanted σ)
    (hc : ∀ c b,side b.request=σ → (calls' c=some b ↔ calls c=some b)) :
    Attended σ st' n reg calls' where
  wake hn := hr (h.wake hn)
  one c d b e hb he hσ hσ' := h.one c d b e ((hc c b hσ).mp hb) ((hc d e hσ').mp he) hσ hσ'
  asked c b hb hσ hn := hw (h.asked c b ((hc c b hσ).mp hb) hσ hn)
  queued c b hb hσ hq := h.queued c b ((hc c b hσ).mp hb) hσ hq
  listening c b hb hσ hq := h.listening c b ((hc c b hσ).mp hb) hσ hq
  registered c hr := by
    obtain ⟨b,hb,hσ⟩ := h.registered c hr
    exact ⟨b,(hc c b hσ).mpr hb,hσ⟩

/-- A vacant side with nothing to read. -/
theorem attended_of_vacant (hv : Vacant σ calls) : Attended σ st 0 none calls where
  wake hn := absurd hn (lt_irrefl 0)
  one c d b e hb he hσ hσ' := absurd hσ (hv c b hb)
  asked c b hb hσ _ := absurd hσ (hv c b hb)
  queued c b hb hσ _ := absurd hσ (hv c b hb)
  listening c b hb hσ _ := absurd hσ (hv c b hb)
  registered c hr := by cases hr

/-- Without a caller nobody is registered. -/
theorem Attended.unregistered (h : Attended σ st n reg calls) (hv : Vacant σ calls) : reg=none := by
  cases hreg : reg with
  | none => rfl
  | some c =>
    obtain ⟨b,hb,hσ⟩ := h.registered c hreg
    exact absurd hσ (hv c b hb)

/-- The side that the status asks for is notified. -/
theorem Attended.notify (h : Attended σ st n reg calls) (hr : Ready σ st') (hn : 0<n')
    (hc : ∀ c b,side b.request=σ → (calls' c=some b ↔ calls c=some b)) :
    Attended σ st' n' reg calls' where
  wake _ := hr
  one c d b e hb he hσ hσ' := h.one c d b e ((hc c b hσ).mp hb) ((hc d e hσ').mp he) hσ hσ'
  asked c b hb hσ h0 := absurd hn (by omega)
  queued c b hb hσ hq := hn
  listening c b hb hσ hq := h.listening c b ((hc c b hσ).mp hb) hσ hq
  registered c hr := by
    obtain ⟨b,hb,hσ⟩ := h.registered c hr
    exact ⟨b,(hc c b hσ).mpr hb,hσ⟩

/-- A call blocks on a vacant side. -/
theorem attended_block {b : Blocked} (hv : Vacant σ calls) (hb : side b.request=σ)
    (hq : b.queued=false) :
    Attended σ (wanted σ) 0 (some c) (Function.update calls c (some b)) := by
  have honly : ∀ d e,Function.update calls c (some b) d=some e → side e.request=σ → d=c ∧ e=b := by
    intro d e he hσ
    by_cases hd : d=c
    · rw [hd,Function.update_self] at he
      exact ⟨hd,(Option.some.inj he).symm⟩
    · rw [Function.update_of_ne hd] at he
      exact absurd hσ (hv d e he)
  refine ⟨fun hn => absurd hn (lt_irrefl 0),?_,fun _ _ _ _ _ => rfl,?_,?_,?_⟩
  · intro d d' e e' he he' hσ hσ'
    rw [(honly d e he hσ).1,(honly d' e' he' hσ').1]
  · intro d e he hσ hqe
    rw [(honly d e he hσ).2,hq] at hqe
    cases hqe
  · intro d e he hσ _
    rw [(honly d e he hσ).1]
  · intro d hd
    cases hd
    exact ⟨b,Function.update_self ..,hb⟩

/-- A channel whose calls are all attended to. -/
structure Attentive (w : World) : Prop where
  /-- The channel is not being closed. -/
  status : w.chan.status=.empty ∨ w.chan.status=.full ∨ w.chan.status=.wantRead ∨
    w.chan.status=.wantWrite
  /-- A message in the slot has a length that is a positive `int`. -/
  occupied : w.chan.status=.full ∨ w.chan.status=.wantWrite → 0<toInt w.chan.msglen
  /-- Both sides are attended to. -/
  sides : ∀ σ,Attended σ w.chan.status (notified w.chan σ) (waiter w σ) w.calls
  /-- Blocked calls have no timer. -/
  untimed : ∀ c b,w.calls c=some b → b.timed=false
  /-- The length of a blocked message is a positive `int`. -/
  lengths : ∀ c b data,w.calls c=some b → b.request=.send data → 0<toInt data.length
  /-- Calls that were blocked have transferred a message. -/
  transfers : ∀ r∈w.log,r.waited=true → 0<r.ret

/-- What a returning call leaves of the channel: each side is attended to once the
caller is gone. -/
structure Left (w : World) (c : ℕ) (ch : Channel) (regs : Side → Option ℕ) : Prop where
  status : ch.status=.empty ∨ ch.status=.full ∨ ch.status=.wantRead ∨ ch.status=.wantWrite
  occupied : ch.status=.full ∨ ch.status=.wantWrite → 0<toInt ch.msglen
  sides : ∀ σ,Attended σ ch.status (notified ch σ) (regs σ) (Function.update w.calls c none)

/-- A call that returns leaves the others attended. -/
theorem Attentive.finish {ch : Channel} (h : Attentive w) (w' : World) (r : Reply)
    (hc : w'.calls=w.calls) (hl : w'.log=w.log) (hf : Left w r.caller ch (waiter w'))
    (hr : r.waited=true → 0<r.ret) :
    Attentive (finish w' r ch) := by
  have hcalls : ∀ d b,Function.update w'.calls r.caller none d=some b → w.calls d=some b := by
    intro d b hd
    rw [hc] at hd
    by_cases hdc : d=r.caller
    · simp [hdc] at hd
    · simpa [hdc] using hd
  refine ⟨hf.status,hf.occupied,fun σ => ?_,fun d b hd => h.untimed d b (hcalls d b hd),
    fun d b data hd => h.lengths d b data (hcalls d b hd),fun q hq => ?_⟩
  · have hs := hf.sides σ
    rw [← hc] at hs
    cases σ <;> exact hs
  · rw [HalfDuplexChannel.finish,hl] at hq
    rcases List.mem_append.mp hq with hq|hq
    · exact h.transfers q hq
    · rw [List.mem_singleton.mp hq]
      exact hr

/-- The status is a positive number, so a notification is seen. -/
theorem bump_value_pos (h : 0<st.value) : 0<(bump 0 st.value).getD 0 := by
  have hle : st.value ≤ maxCount := by cases st <;> decide
  simpa [bump,hle] using h

variable {ch : Channel} {data : List UInt8}

/-- The second half of a send puts its message into a free slot, when no other
sender is left. -/
theorem left_of_send (w : World) (c : ℕ) (ch : Channel) (regs : Side → Option ℕ)
    (hs : Ready .writer ch.status) (hd : 0<toInt data.length)
    (hw : ch.wNotify=0) (hv : Vacant .writer (Function.update w.calls c none))
    (hn : regs .writer=none)
    (hr : Attended .reader ch.status ch.rNotify (regs .reader) (Function.update w.calls c none)) :
    (sendAfterWait ch data).1=toInt data.length ∧ Left w c (sendAfterWait ch data).2 regs := by
  have hwriter : Attended .writer .full ch.wNotify (regs .writer)
      (Function.update w.calls c none) := by
    rw [hn,hw]
    exact attended_of_vacant hv
  unfold sendAfterWait
  rcases hs with hs|hs <;> rw [hs] at hr ⊢
  · refine ⟨rfl,.inr (.inl rfl),fun _ => hd,fun σ => ?_⟩
    cases σ with
    | writer => exact hwriter
    | reader => exact hr.same (by simp [Ready]) (by simp [wanted]) fun _ _ _ => Iff.rfl
  · refine ⟨rfl,.inr (.inl rfl),fun _ => hd,fun σ => ?_⟩
    cases σ with
    | writer => exact hwriter
    | reader =>
      have h0 : ch.rNotify=0 := hr.unnotified (by simp [Ready])
      refine hr.notify (.inl rfl) ?_ fun _ _ _ => Iff.rfl
      show 0<(bump ch.rNotify Status.full.value).getD ch.rNotify
      rw [h0]
      exact bump_value_pos (by decide)

/-- The second half of a receive takes the message out of an occupied slot, when
no other receiver is left. -/
theorem left_of_recv (w : World) (c : ℕ) (ch : Channel) (regs : Side → Option ℕ)
    (hs : Ready .reader ch.status) (hd : 0<toInt ch.msglen)
    (hw : ch.rNotify=0) (hv : Vacant .reader (Function.update w.calls c none))
    (hn : regs .reader=none)
    (hr : Attended .writer ch.status ch.wNotify (regs .writer) (Function.update w.calls c none)) :
    ∃ bytes ch',recvAfterWait ch=.ok (toInt ch.msglen,bytes,ch') ∧ Left w c ch' regs := by
  have hmsg : takeMsg ch=pure (toInt ch.msglen,ch.msg.take (toInt ch.msglen).toNat) := by
    rw [takeMsg,copyMessage,if_neg (not_lt.mpr hd.le)]
    rfl
  have hreader : Attended .reader .empty ch.rNotify (regs .reader)
      (Function.update w.calls c none) := by
    rw [hn,hw]
    exact attended_of_vacant hv
  unfold recvAfterWait
  rcases hs with hs|hs <;> rw [hs] at hr ⊢ <;> dsimp only <;> rw [hmsg,pure_bind]
  · refine ⟨_,_,rfl,.inl rfl,by simp,fun σ => ?_⟩
    cases σ with
    | writer => exact hr.same (by simp [Ready]) (by simp [wanted]) fun _ _ _ => Iff.rfl
    | reader => exact hreader
  · refine ⟨_,_,rfl,.inl rfl,by simp [hdcNotifyW],fun σ => ?_⟩
    cases σ with
    | writer =>
      have h0 : ch.wNotify=0 := hr.unnotified (by simp [Ready])
      refine hr.notify (.inl rfl) ?_ fun _ _ _ => Iff.rfl
      show 0<(bump ch.wNotify Status.empty.value).getD ch.wNotify
      rw [h0]
      exact bump_value_pos (by decide)
    | reader => exact hreader

/-- A call that changes nothing. -/
theorem Attentive.left (h : Attentive w) (hc : w.calls c=none) : Left w c w.chan (waiter w) := by
  refine ⟨h.status,h.occupied,fun σ => ?_⟩
  rw [Function.update_eq_self_iff.mpr hc.symm]
  exact h.sides σ

/-- A call that finds the slot in the wrong state blocks, since nobody else of its
side is blocked. -/
theorem Attentive.block (h : Attentive w) (req : Request) (hc : w.calls c=none)
    (hr : ¬Ready (side req) w.chan.status) (hw : w.chan.status≠wanted (side req))
    (ho : ∀ σ≠side req,(Ready σ w.chan.status → Ready σ (wanted (side req))) ∧
      w.chan.status≠wanted σ)
    (hocc : wanted (side req)=.wantWrite → w.chan.status=.full)
    (hlen : ∀ data,req=.send data → 0<toInt data.length)
    (hchan : w'.chan={w.chan with status := wanted (side req)})
    (hcalls : w'.calls=Function.update w.calls c (some ⟨req,false,false⟩)) (hlog : w'.log=w.log)
    (hreg : waiter w' (side req)=some c) (hregs : ∀ σ≠side req,waiter w' σ=waiter w σ) :
    Attentive w' := by
  have hn := (h.sides (side req)).unnotified hr
  have hv := (h.sides (side req)).vacant hn hw
  refine ⟨?_,fun ho => ?_,fun σ => ?_,fun d b hd => ?_,fun d b data hd hb => ?_,hlog ▸ h.transfers⟩
  · rw [hchan]
    cases req <;> simp [side,wanted]
  · rw [hchan] at ho ⊢
    refine h.occupied (.inl (hocc ?_))
    cases req <;> simp_all [side,wanted]
  · rw [hchan,hcalls]
    by_cases hσ : σ=side req
    · subst hσ
      have hn' : notified {w.chan with status := wanted (side req)} (side req)=0 := by
        cases req <;> exact hn
      rw [hreg,hn']
      exact attended_block hv rfl rfl
    · have hn' : notified {w.chan with status := wanted (side req)} σ=notified w.chan σ := by
        cases σ <;> rfl
      rw [hregs σ hσ,hn']
      refine (h.sides σ).same (ho σ hσ).1 (fun hs => absurd hs (ho σ hσ).2) fun d b hb => ?_
      by_cases hd : d=c
      · subst hd
        rw [Function.update_self,hc]
        refine ⟨fun he => ?_,fun he => by cases he⟩
        cases he
        exact absurd hb.symm hσ
      · rw [Function.update_of_ne hd]
  · rw [hcalls] at hd
    by_cases hdc : d=c
    · rw [hdc,Function.update_self] at hd
      cases hd
      rfl
    · rw [Function.update_of_ne hdc] at hd
      exact h.untimed d b hd
  · rw [hcalls] at hd
    by_cases hdc : d=c
    · rw [hdc,Function.update_self] at hd
      cases hd
      exact hlen data hb
    · rw [Function.update_of_ne hdc] at hd
      exact h.lengths d b data hd hb

/-- A send that need not wait. -/
theorem dycoChannelSend_eq (hs : Ready .writer ch.status) (h₀ : 0<data.length)
    (h₁ : data.length ≤ ch.maxsize) :
    dycoChannelSend ch data=.returns (sendAfterWait ch data).1 [] (sendAfterWait ch data).2 := by
  unfold dycoChannelSend sendAfterWait
  rw [if_neg (by omega)]
  rcases hs with hs|hs <;> rw [hs]

/-- A send either returns or blocks on a vacant side. -/
theorem attentive_send {timeout : ℤ} (h : Attentive w) (hc : w.calls c=none) (ht : timeout<0)
    (hn : w.chan.wNotify=0) (hlen : data.length<2^31) :
    ∃ w',startCall w c .symmetric (.send data) timeout=.ok w' ∧ Attentive w' := by
  by_cases hsize : data.length>w.chan.maxsize ∨ data.length=0
  · refine ⟨_,?_,h.finish w ⟨c,.send data,false,-2,[]⟩ rfl rfl (h.left hc) (by simp)⟩
    simp only [startCall,firstHalf,dycoChannelSend,if_pos hsize]
    rfl
  have hpos : 0<toInt data.length := by
    rw [toInt_of_lt hlen]
    omega
  by_cases hr : Ready .writer w.chan.status
  · have hupd : Function.update w.calls c none=w.calls := Function.update_eq_self_iff.mpr hc.symm
    have hv := (h.sides .writer).vacant hn (by rcases hr with hr|hr <;> simp [hr,wanted])
    obtain ⟨-,hleft⟩ := left_of_send w c w.chan (waiter w) hr hpos hn
      (by rw [hupd]; exact hv) ((h.sides .writer).unregistered hv)
      (by rw [hupd]; exact h.sides .reader)
    have hfirst : dycoChannelSend w.chan data=_ := dycoChannelSend_eq hr (by omega) (by omega)
    refine ⟨_,?_,h.finish w ⟨c,.send data,false,(sendAfterWait w.chan data).1,[]⟩ rfl rfl hleft
      (by simp)⟩
    simp only [startCall,firstHalf,hfirst]
    rfl
  · rcases h.status with hs|hs|hs|hs
    · exact absurd (.inl hs) hr
    · have hv := (h.sides .writer).vacant hn (by simp [hs,wanted])
      have hnone : w.wWaiter=none := (h.sides .writer).unregistered hv
      refine ⟨{w with
        chan := {w.chan with status := .wantWrite}
        wWaiter := some c
        calls := Function.update w.calls c (some ⟨.send data,false,false⟩)},?_,
        h.block (.send data) hc hr (by simp [hs,wanted,side]) (fun σ hσ => ?_) (fun _ => hs)
          (fun _ he => by cases he; exact hpos) rfl rfl rfl rfl fun σ hσ => ?_⟩
      · have hfirst : dycoChannelSend w.chan data=.waits {w.chan with status := .wantWrite} := by
          rw [dycoChannelSend,if_neg hsize,hs]
        simp [startCall,firstHalf,hfirst,ht.ne,not_lt.mpr ht.le,hdcWait,hnone,bind,Except.bind]
      · cases σ with
        | writer => exact absurd rfl hσ
        | reader => simp [hs,Ready,wanted,side]
      · cases σ with
        | writer => exact absurd rfl hσ
        | reader => rfl
    · exact absurd (.inr hs) hr
    · refine ⟨_,?_,h.finish w ⟨c,.send data,false,-2,[]⟩ rfl rfl (h.left hc) (by simp)⟩
      simp only [startCall,firstHalf,dycoChannelSend,if_neg hsize,hs]
      rfl

/-- A receive that need not wait. -/
theorem dycoChannelRecv_eq {n : ℕ} (hs : Ready .reader ch.status) (hn : ch.maxsize≤n) :
    dycoChannelRecv ch n=(recvAfterWait ch).map fun p => .returns p.1 p.2.1 p.2.2 := by
  unfold dycoChannelRecv recvAfterWait
  rw [if_neg (by omega)]
  rcases hs with hs|hs <;> rw [hs] <;> dsimp only <;> cases takeMsg ch <;> rfl

/-- A receive either returns or blocks on a vacant side. -/
theorem attentive_recv {timeout : ℤ} {n : ℕ} (h : Attentive w) (hc : w.calls c=none)
    (ht : timeout<0) (hn : w.chan.rNotify=0) :
    ∃ w',startCall w c .symmetric (.recv n) timeout=.ok w' ∧ Attentive w' := by
  by_cases hsize : n<w.chan.maxsize
  · refine ⟨_,?_,h.finish w ⟨c,.recv n,false,-2,[]⟩ rfl rfl (h.left hc) (by simp)⟩
    simp only [startCall,firstHalf,dycoChannelRecv,if_pos hsize]
    rfl
  by_cases hr : Ready .reader w.chan.status
  · have hupd : Function.update w.calls c none=w.calls := Function.update_eq_self_iff.mpr hc.symm
    have hv := (h.sides .reader).vacant hn (by rcases hr with hr|hr <;> simp [hr,wanted])
    obtain ⟨bytes,ch',he,hleft⟩ := left_of_recv w c w.chan (waiter w) hr (h.occupied hr) hn
      (by rw [hupd]; exact hv) ((h.sides .reader).unregistered hv)
      (by rw [hupd]; exact h.sides .writer)
    have hfirst : dycoChannelRecv w.chan n=_ := dycoChannelRecv_eq hr (by omega)
    refine ⟨_,?_,h.finish w ⟨c,.recv n,false,toInt w.chan.msglen,bytes⟩ rfl rfl hleft (by simp)⟩
    simp only [startCall,firstHalf,hfirst,he]
    rfl
  · rcases h.status with hs|hs|hs|hs
    · have hv := (h.sides .reader).vacant hn (by simp [hs,wanted])
      have hnone : w.rWaiter=none := (h.sides .reader).unregistered hv
      refine ⟨{w with
        chan := {w.chan with status := .wantRead}
        rWaiter := some c
        calls := Function.update w.calls c (some ⟨.recv n,false,false⟩)},?_,
        h.block (.recv n) hc hr (by simp [hs,wanted,side]) (fun σ hσ => ?_) (fun he => ?_)
          (fun _ he => by cases he) rfl rfl rfl rfl fun σ hσ => ?_⟩
      · have hfirst : dycoChannelRecv w.chan n=.ok (.waits {w.chan with status := .wantRead}) := by
          rw [dycoChannelRecv,if_neg hsize,hs]
        simp [startCall,firstHalf,hfirst,ht.ne,not_lt.mpr ht.le,hdcWait,hnone,bind,Except.bind]
      · cases σ with
        | writer => simp [hs,Ready,wanted,side]
        | reader => exact absurd rfl hσ
      · cases he
      · cases σ with
        | writer => rfl
        | reader => exact absurd rfl hσ
    · exact absurd (.inl hs) hr
    · refine ⟨_,?_,h.finish w ⟨c,.recv n,false,-2,[]⟩ rfl rfl (h.left hc) (by simp)⟩
      simp only [startCall,firstHalf,dycoChannelRecv,if_neg hsize,hs]
      rfl
    · exact absurd (.inr hs) hr

/-- A resumed call of the only blocked caller of its side is gone from there. -/
theorem Attended.vacated {b : Blocked} (h : Attended σ st n reg calls) (hb : calls c=some b)
    (hσ : side b.request=σ) : Vacant σ (Function.update calls c none) := by
  intro d e he hσ'
  by_cases hd : d=c
  · simp [hd] at he
  · rw [Function.update_of_ne hd] at he
    exact hd (h.one d c e b he hb hσ' hσ)

/-- The other side does not notice. -/
theorem Attended.besides {b : Blocked} (h : Attended σ st n reg calls) (hb : calls c=some b)
    (hσ : side b.request≠σ) : Attended σ st n reg (Function.update calls c none) := by
  refine h.same id id fun d e he => ?_
  by_cases hd : d=c
  · subst hd
    rw [Function.update_self,hb]
    refine ⟨fun h => (by cases h),fun h => ?_⟩
    cases h
    exact absurd he hσ
  · rw [Function.update_of_ne hd]

/-- A queued call transfers a message when it is resumed. -/
theorem attentive_resume {b : Blocked} (h : Attentive w) (hb : w.calls c=some b)
    (hq : b.queued=true) :
    ∃ w',complete (unregister w c b.request) c b.request true=.ok w' ∧ Attentive w' := by
  obtain ⟨req,timed,queued⟩ := b
  have hpos := (h.sides (side req)).queued c _ hb rfl hq
  have hready := (h.sides (side req)).wake hpos
  have hv := (h.sides (side req)).vacated hb rfl
  have hreg : ∀ d,waiter w (side req)=some d → d=c := by
    intro d hd
    obtain ⟨e,he,hσ⟩ := (h.sides (side req)).registered d hd
    exact (h.sides (side req)).one d c e _ he hb hσ rfl
  cases req with
  | send data =>
    have hother := (h.sides .reader).besides hb (by simp [side])
    have hgone : (unregister w c (.send data)).wWaiter=none := by
      cases hw : w.wWaiter with
      | none => simp [unregister,hw]
      | some d => simp [unregister,hw,hreg d hw]
    obtain ⟨hret,hleft⟩ := left_of_send w c (unregister w c (.send data)).chan
      (waiter (unregister w c (.send data)))
      hready (h.lengths c _ data hb rfl) rfl hv hgone hother
    refine ⟨_,rfl,h.finish (unregister w c (.send data)) ⟨c,.send data,true,_,[]⟩ rfl rfl hleft
      fun _ => ?_⟩
    rw [hret]
    exact h.lengths c _ data hb rfl
  | recv n =>
    have hother := (h.sides .writer).besides hb (by simp [side])
    have hgone : (unregister w c (.recv n)).rWaiter=none := by
      cases hw : w.rWaiter with
      | none => simp [unregister,hw]
      | some d => simp [unregister,hw,hreg d hw]
    obtain ⟨bytes,ch',he,hleft⟩ := left_of_recv w c (unregister w c (.recv n)).chan
      (waiter (unregister w c (.recv n)))
      hready (h.occupied hready) rfl hv hgone hother
    refine ⟨_,?_,h.finish (unregister w c (.recv n))
      ⟨c,.recv n,true,toInt w.chan.msglen,bytes⟩ rfl rfl hleft fun _ => h.occupied hready⟩
    simp only [complete,secondHalf,he]
    rfl

/-- The calls after one of them became ready. -/
theorem mem_enqueue {d : ℕ} {e : Blocked} (he : (enqueue w c).calls d=some e) :
    ∃ b,w.calls d=some b ∧ e.request=b.request ∧ e.timed=b.timed ∧
      (d≠c ∧ e=b ∨ d=c ∧ e.queued=true) := by
  by_cases hd : d=c
  · subst hd
    simp only [enqueue,Function.update_self] at he
    obtain ⟨b,hb,rfl⟩ := Option.map_eq_some_iff.mp he
    exact ⟨b,hb,rfl,rfl,.inr ⟨rfl,rfl⟩⟩
  · exact ⟨e,(Function.update_of_ne hd ..).symm.trans he,rfl,rfl,.inl ⟨hd,rfl⟩⟩

/-- The descriptor of a side is reported and its registration cancelled. -/
theorem Attended.event (h : Attended σ st n (some c) w.calls) (hn : 0<n) :
    Attended σ st n none (enqueue w c).calls := by
  refine ⟨h.wake,fun d d' e e' he he' hσ hσ' => ?_,fun _ _ _ _ h0 => absurd hn (by omega),
    fun _ _ _ _ _ => hn,fun d e he hσ hq => ?_,fun d hd => by cases hd⟩
  · obtain ⟨b,hb,hbr,-⟩ := mem_enqueue he
    obtain ⟨b',hb',hbr',-⟩ := mem_enqueue he'
    exact h.one d d' b b' hb hb' (hbr ▸ hσ) (hbr' ▸ hσ')
  · obtain ⟨b,hb,hbr,-,⟨hd,-⟩|⟨-,hqt⟩⟩ := mem_enqueue he
    · obtain ⟨b',hb',hσ'⟩ := h.registered c rfl
      exact absurd (h.one d c b b' hb hb' (hbr ▸ hσ) hσ') hd
    · rw [hqt] at hq
      cases hq

/-- The other side does not notice. -/
theorem Attended.enqueue {b : Blocked} (h : Attended σ st n reg w.calls) (hb : w.calls c=some b)
    (hσ : side b.request≠σ) : Attended σ st n reg (enqueue w c).calls := by
  refine h.same id id fun d e he => ⟨fun hd => ?_,fun hd => ?_⟩
  · obtain ⟨b',hb',hr,-,⟨-,rfl⟩|⟨rfl,-⟩⟩ := mem_enqueue hd
    · exact hb'
    · cases hb.symm.trans hb'
      exact absurd (hr ▸ he) hσ
  · have hdc : d≠c := by
      rintro rfl
      cases hb.symm.trans hd
      exact hσ he
    exact (Function.update_of_ne hdc ..).trans hd

/-- Phase D reports the descriptor of a side. -/
theorem Attentive.event (h : Attentive w) (σ : Side) (hreg : waiter w σ=some c)
    (hn : 0<notified w.chan σ)
    (hc : w'.chan=w.chan) (hcalls : w'.calls=(enqueue w c).calls) (hl : w'.log=w.log)
    (hnone : waiter w' σ=none) (hother : ∀ τ≠σ,waiter w' τ=waiter w τ) : Attentive w' := by
  obtain ⟨b,hb,hσ⟩ := (h.sides σ).registered c hreg
  refine ⟨hc ▸ h.status,hc ▸ h.occupied,fun τ => ?_,fun d e he => ?_,fun d e data he hr => ?_,
    hl ▸ h.transfers⟩
  · rw [hc,hcalls]
    by_cases hτ : τ=σ
    · have hside := h.sides σ
      rw [hreg] at hside
      rw [hτ,hnone]
      exact hside.event hn
    · rw [hother τ hτ]
      exact (h.sides τ).enqueue hb (hσ ▸ Ne.symm hτ)
  · obtain ⟨b',hb',-,ht,-⟩ := mem_enqueue (hcalls ▸ he)
    exact ht.trans (h.untimed d b' hb')
  · obtain ⟨b',hb',hr',-⟩ := mem_enqueue (hcalls ▸ he)
    exact h.lengths d b' data hb' (hr'.symm.trans hr)

/-- Every orderly step is possible without a fault and keeps both sides attended
to. -/
theorem attentive_step {a : Act} {r : Except Fault World} (h : Attentive w) (hc : Orderly w a)
    (hr : step w a=some r) : ∃ w',r=.ok w' ∧ Attentive w' := by
  obtain ⟨hp,hu⟩ := hc
  cases a with
  | call c context req timeout =>
    simp only [patient,Bool.and_eq_true,decide_eq_true_eq] at hp
    simp only [step] at hr
    split_ifs at hr with hnone
    cases hr
    rw [hp.1]
    have hnone' : w.calls c=none := by simpa using hnone
    cases req with
    | send data =>
      simp only [unhurried,Bool.and_eq_true,decide_eq_true_eq] at hu
      exact attentive_send h hnone' hp.2 hu.1 hu.2
    | recv n =>
      simp only [unhurried,decide_eq_true_eq] at hu
      exact attentive_recv h hnone' hp.2 hu
  | readable =>
    simp only [step] at hr
    split at hr
    next c hreg =>
      split_ifs at hr with hn
      cases hr
      refine ⟨_,rfl,h.event .reader hreg hn rfl rfl rfl rfl fun τ hτ => ?_⟩
      cases τ with
      | writer => rfl
      | reader => exact absurd rfl hτ
    · cases hr
  | writable =>
    simp only [step] at hr
    split at hr
    next c hreg =>
      split_ifs at hr with hn
      cases hr
      refine ⟨_,rfl,h.event .writer hreg hn rfl rfl rfl rfl fun τ hτ => ?_⟩
      cases τ with
      | writer => exact absurd rfl hτ
      | reader => rfl
    · cases hr
  | expire c =>
    simp only [step] at hr
    split at hr
    next b hb =>
      rw [h.untimed c b hb] at hr
      cases hr
    · cases hr
  | resume c =>
    simp only [step] at hr
    split at hr
    next b hb =>
      cases hr
      exact attentive_resume h hb (by simpa [patient,hb] using hp)
    · cases hr
  | destroy => cases hp

/-- A new channel has no callers. -/
theorem attentive_newChannel (size : ℕ) : Attentive (newChannel size) := by
  refine ⟨.inl rfl,fun h => ?_,fun σ => ?_,fun c b hb => ?_,fun c b data hb => ?_,
    fun r hr => absurd hr List.not_mem_nil⟩
  · rcases h with h|h <;> cases h
  · have hv : Vacant σ (newChannel size).calls := fun c b hb => by cases hb
    cases σ <;> exact attended_of_vacant hv
  · cases hb
  · cases hb

/-- Along every run the callers are attended. -/
theorem attentive_of_reachable {size : ℕ} (h : Reachable size Orderly w) : Attentive w := by
  refine h.invariant Attentive (attentive_newChannel size) fun _ _ _ hi hc ha => ?_
  obtain ⟨w',hw,hi'⟩ := attentive_step hi hc ha
  cases hw
  exact hi'

/-- A call of the other side that passes its size check. -/
def Matches (ch : Channel) : Request → Act → Prop
  | .send _,.call _ _ (.recv n) _ => ch.maxsize≤n
  | .recv _,.call _ _ (.send data) _ => 0<data.length ∧ data.length ≤ ch.maxsize
  | _,_ => False

/-- The next matching call notifies a blocked call that the status asks for. -/
theorem notifies_of_matches {a : Act} {req : Request} (hs : w.chan.status=wanted (side req))
    (hn : notified w.chan (side req)=0) (hm : Matches w.chan req a) (ha : step w a=some (.ok w')) :
    0<notified w'.chan (side req) := by
  cases a with
  | call d context other timeout =>
    simp only [step] at ha
    split_ifs at ha
    replace ha := Option.some.inj ha
    obtain ⟨v,hv,ha⟩ := bind_eq_ok ha
    cases req with
    | send data =>
      cases other with
      | send => exact hm.elim
      | recv n =>
        replace hs : w.chan.status=.wantWrite := hs
        simp only [firstHalf,dycoChannelRecv,if_neg (Nat.not_lt.mpr hm),hs] at hv
        obtain ⟨p,-,hv⟩ := bind_eq_ok hv
        cases hv
        cases ha
        replace hn : w.chan.wNotify=0 := hn
        show 0<(bump w.chan.wNotify Status.empty.value).getD w.chan.wNotify
        rw [hn]
        exact bump_value_pos (by decide)
    | recv n =>
      cases other with
      | recv => exact hm.elim
      | send data =>
        have hsize : ¬(data.length>w.chan.maxsize ∨ data.length=0) := by
          obtain ⟨h₀,h₁⟩ := hm
          omega
        replace hs : w.chan.status=.wantRead := hs
        simp only [firstHalf,dycoChannelSend,if_neg hsize,hs] at hv
        cases hv
        cases ha
        replace hn : w.chan.rNotify=0 := hn
        show 0<(bump w.chan.rNotify Status.full.value).getD w.chan.rNotify
        rw [hn]
        exact bump_value_pos (by decide)
  | _ => cases req <;> exact hm.elim

/-- In every orderly run a call that was blocked has transferred a message, the
status asks for every blocked call that has not been notified, and the next
matching call notifies it. -/
theorem blocked_calls_transfer {size : ℕ} (h : Reachable size Orderly w) :
    (∀ r∈w.log,r.waited=true → 0<r.ret) ∧
    ∀ c b,w.calls c=some b → notified w.chan (side b.request)=0 →
      w.chan.status=wanted (side b.request) ∧
      ∀ a w',Matches w.chan b.request a → step w a=some (.ok w') →
        0<notified w'.chan (side b.request) := by
  have hi := attentive_of_reachable h
  refine ⟨hi.transfers,fun c b hb hn => ?_⟩
  have hs := (hi.sides (side b.request)).asked c b hb rfl hn
  exact ⟨hs,fun a w' hm ha => notifies_of_matches hs hn hm ha⟩

/-- Between the notification of sender 1 and its resumption, sender 3 fills the
slot and sender 4 blocks. -/
def overtaken : List Act :=
  [.call 0 .symmetric (.send [1]) (-1),.call 1 .symmetric (.send [2]) (-1),
    .call 2 .symmetric (.recv 256) (-1),.call 3 .symmetric (.send [3]) (-1),.writable,
    .call 4 .symmetric (.send [4]) (-1),.resume 1]

/-- Sender 1 returns 0 and takes back the status that asks for sender 4, which
stays blocked. -/
theorem notified_sender_times_out :
    ∃ w,Runs step (fun w a => patient w a=true) (newChannel 256) w ∧
      (∃ r∈w.log,r.caller=1 ∧ r.waited=true ∧ r.ret=0) ∧
      (∃ b,w.calls 4=some b ∧ b.request=.send [4]) ∧ w.chan.wNotify=0 ∧ w.chan.status=.full := by
  have h : (replayWhile step (fun w a => patient w a=true) (newChannel 256) overtaken).map (fun w =>
      (w.log.any fun r => r.caller=1 && r.waited && r.ret=0,(w.calls 4).map (·.request),
        w.chan.wNotify,w.chan.status))=some (true,some (.send [4]),0,.full) := by decide +kernel
  obtain ⟨w,hw,hq⟩ := Option.map_eq_some_iff.mp h
  simp only [Prod.mk.injEq,List.any_eq_true,Bool.and_eq_true,decide_eq_true_eq,
    Option.map_eq_some_iff,and_assoc] at hq
  exact ⟨w,runs_of_replayWhile hw,hq⟩

/-- The same callers, with sender 1 resumed in time. -/
def resumedInTime : List Act :=
  [.call 0 .symmetric (.send [1]) (-1),.call 1 .symmetric (.send [2]) (-1),
    .call 2 .symmetric (.recv 256) (-1),.writable,.resume 1,.call 3 .symmetric (.send [3]) (-1)]

/-- Three calls transfer a byte each, and a sender waits. -/
theorem blocked_calls_transfer_resumedInTime :
    ∃ w,replayWhile step Orderly (newChannel 256) resumedInTime=some w ∧
      (w.calls 3).map (·.request)=some (.send [3]) ∧ w.log.map (·.ret)=[1,1,1] ∧
      (∀ r∈w.log,r.waited=true → 0<r.ret) ∧
      ∀ c b,w.calls c=some b → notified w.chan (side b.request)=0 →
        w.chan.status=wanted (side b.request) ∧
        ∀ a w',Matches w.chan b.request a → step w a=some (.ok w') →
          0<notified w'.chan (side b.request) := by
  have h : (replayWhile step Orderly (newChannel 256) resumedInTime).map (fun w =>
      ((w.calls 3).map (·.request),w.log.map (·.ret)))=some (some (.send [3]),[1,1,1]) := by
    decide +kernel
  obtain ⟨w,hw,hq⟩ := Option.map_eq_some_iff.mp h
  simp only [Prod.mk.injEq] at hq
  exact ⟨w,hw,hq.1,hq.2,blocked_calls_transfer (runs_of_replayWhile hw)⟩

end DycoCoroutine.ChannelWakeups
