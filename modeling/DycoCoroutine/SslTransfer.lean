import Mathlib.Tactic

/-!
# Transfers over TLS

`dyco_SSL_read` and `dyco_SSL_write` wait until the descriptor is ready, call OpenSSL, and
begin again when it wants the direction that was waited for. What the polls see and what
OpenSSL answers is the input of the model. Every success is reported as `num` bytes, also
one that moved fewer, and a call that wants the other direction is not repeated.
-/

namespace DycoCoroutine.SslTransfer

/-! ## Waiting -/

/-- The events of a wait. EPOLLERR and EPOLLHUP are always among them. -/
structure Events where
  /-- EPOLLIN -/
  epollin : Bool
  /-- EPOLLOUT -/
  epollout : Bool

/-- What `poll` sees of a descriptor. -/
structure FdState where
  readable : Bool
  writable : Bool
  /-- POLLERR, POLLHUP or POLLNVAL, which are reported unasked. -/
  broken : Bool

/-- `poll_f(&pfd, 1, 0)`; it fails if there is nothing to see. -/
def poll (events : Events) : Option FdState → ℤ
  | none => -1
  | some fd =>
    if events.epollin && fd.readable || events.epollout && fd.writable || fd.broken then 1 else 0

/-- The descriptor at the call of a wait, and when the coroutine has been resumed. -/
structure Wait where
  atOnce : Option FdState
  resumed : Option FdState

/-- The result of `waitev`. Between the two polls the coroutine is registered, suspended
and resumed; a wait that exits or is never resumed has no result. -/
def waitev (events : Events) (timeout : ℤ) (w : Wait) : ℤ :=
  if 0 < poll events w.atOnce ∨ timeout=0 then poll events w.atOnce else poll events w.resumed

/-- `dyco_coroutine_waitRead` -/
def dycoCoroutineWaitRead (timeout : ℤ) : Wait → ℤ := waitev ⟨true,false⟩ timeout

/-- `dyco_coroutine_waitWrite` -/
def dycoCoroutineWaitWrite (timeout : ℤ) : Wait → ℤ := waitev ⟨false,true⟩ timeout

/-! ## The wrappers -/

/-- The results of `SSL_get_error` that are told apart. -/
inductive SslError
  | none
  | wantRead
  | wantWrite
  | other
  deriving DecidableEq

/-- A call of `SSL_read` or `SSL_write` for `num` bytes and of `SSL_get_error` after it, with
what OpenSSL promises about them. -/
structure SslCall (num : ℤ) where
  /-- The result of the call. -/
  ret : ℤ
  /-- The result of `SSL_get_error`. -/
  err : SslError
  /-- The bytes that were stored in `buf` or written from it. -/
  bytes : List UInt8
  none_iff : err=.none ↔ 0 < ret
  length_bytes : bytes.length=ret.toNat
  ret_le : ret≤num

/-- A round of the loop: what the wait sees, and what OpenSSL answers if it is called. -/
structure Round (num : ℤ) where
  wait : Wait
  call : SslCall num

/-- What a wrapper does that can be seen from outside. -/
inductive Event (num : ℤ)
  | waited (result : ℤ)
  | called (call : SslCall num)

/-- The direction of a wrapper. -/
inductive Direction
  | read
  | write

/-- The error that asks for a direction. -/
def Direction.want : Direction → SslError
  | .read => .wantRead
  | .write => .wantWrite

/-- The other direction. -/
def Direction.opposite : Direction → Direction
  | .read => .write
  | .write => .read

/-- SSL_TIMEOUT_DEFAULT -/
def sslTimeoutDefault : ℤ := 1000

section Loop

variable {num : ℤ} (dir : Direction) (ready : Wait → ℤ)

/-- The loop of both wrappers, with the result and the events. There is none while the loop
goes on. -/
def transferLoop : List (Round num) → Option (ℤ×List (Event num))
  | [] => none
  | r::rest =>
    if ready r.wait≤0 then some (-1,[.waited (ready r.wait)])
    else if r.call.err=.none then some (num,[.waited (ready r.wait),.called r.call])
    else if r.call.err=dir.want then
      (transferLoop rest).map fun out => (out.1,.waited (ready r.wait)::.called r.call::out.2)
    else some (r.call.ret,[.waited (ready r.wait),.called r.call])

/-- The descriptor is ready in time, and OpenSSL wants the direction of the wrapper. -/
def Again (r : Round num) : Prop := 0 < ready r.wait ∧ r.call.err=dir.want

/-- The call that is made after nothing but calls that want the direction of the wrapper. -/
def Reaches (rounds : List (Round num)) (c : SslCall num) : Prop :=
  ∃ before r after,rounds=before++r::after ∧ (∀ q∈before,Again dir ready q) ∧
    0 < ready r.wait ∧ r.call=c

/-- The call that is reached does not want the other direction and, if it succeeds, moves
all bytes that were asked for. -/
def Straight (rounds : List (Round num)) : Prop :=
  ∀ c,Reaches dir ready rounds c → c.err≠dir.opposite.want ∧ (c.err=.none → c.ret=num)

/-- The events of a round in which OpenSSL is called. -/
def tried (r : Round num) : List (Event num) := [.waited (ready r.wait),.called r.call]

end Loop

/-- `dyco_SSL_read` -/
def dycoSSLRead (num : ℤ) (rounds : List (Round num)) : Option (ℤ×List (Event num)) :=
  transferLoop .read (dycoCoroutineWaitRead (-1)) rounds

/-- `dyco_SSL_write` -/
def dycoSSLWrite (num : ℤ) (rounds : List (Round num)) : Option (ℤ×List (Event num)) :=
  transferLoop .write (dycoCoroutineWaitWrite sslTimeoutDefault) rounds

/-! ## What is promised -/

variable {num : ℤ} {dir : Direction} {ready : Wait → ℤ} {rounds before after : List (Round num)}
  {r : Round num} {c : SslCall num} {out : ℤ×List (Event num)} {events : List (Event num)}

/-- OpenSSL wants to be called again. -/
def SslCall.Wants (c : SslCall num) : Prop := c.err=.wantRead ∨ c.err=.wantWrite

/-- The number of bytes that an event has moved. -/
def Event.count : Event num → ℕ
  | .waited _ => 0
  | .called c => c.bytes.length

/-- A positive result is the number of bytes that the last call has stored. -/
def StoredLast (out : ℤ×List (Event num)) : Prop :=
  0 < out.1 → ∃ c,out.2.getLast?=some (.called c) ∧ (c.bytes.length : ℤ)=out.1

/-- A positive result is the number of bytes that all calls have written. -/
def WrittenAll (out : ℤ×List (Event num)) : Prop :=
  0 < out.1 → ((out.2.map Event.count).sum : ℤ)=out.1

/-- Another wait comes next and, if the descriptor is ready, another call. -/
inductive Retries : List (Event num) → Prop
  | waited {result : ℤ} (h : result≤0) : Retries [.waited result]
  | called {result : ℤ} {c : SslCall num} {rest : List (Event num)} :
      Retries (.waited result::.called c::rest)

/-- Whenever OpenSSL wants to be called again, it is. -/
def Retried (events : List (Event num)) : Prop :=
  ∀ before c after,events=before++.called c::after → c.Wants → Retries after

/-! ## The loop -/

/-- Wanting is an error. -/
theorem Direction.want_ne_none (dir : Direction) : dir.want≠.none := by
  cases dir <;> decide

/-- A failed call returns no number of bytes. -/
theorem SslCall.ret_nonpos (c : SslCall num) (h : c.err≠.none) : c.ret≤0 :=
  not_lt.mp (mt c.none_iff.mpr h)

/-- A call that succeeds returns its number of bytes. -/
theorem SslCall.length_eq_ret (c : SslCall num) (h : c.err=.none) : (c.bytes.length : ℤ)=c.ret := by
  rw [c.length_bytes,Int.toNat_of_nonneg (c.none_iff.mp h).le]

/-- A failed call transfers nothing. -/
theorem SslCall.length_eq_zero (c : SslCall num) (h : c.err≠.none) : c.bytes.length=0 := by
  rw [c.length_bytes,Int.toNat_of_nonpos (c.ret_nonpos h)]

/-- To want is to want the one direction or the other. -/
theorem SslCall.wants_iff (c : SslCall num) (dir : Direction) :
    c.Wants ↔ c.err=dir.want ∨ c.err=dir.opposite.want := by
  cases dir with
  | read => exact Iff.rfl
  | write => exact or_comm

/-- Rounds in which OpenSSL wants the direction of the wrapper are repeated. -/
theorem transferLoop_append (h : ∀ q∈before,Again dir ready q) :
    transferLoop dir ready (before++rounds)=(transferLoop dir ready rounds).map fun out =>
      (out.1,before.flatMap (tried ready)++out.2) := by
  induction before with
  | nil => simp
  | cons q before ih =>
    obtain ⟨hready,herr⟩ := h q List.mem_cons_self
    have hne : q.call.err≠.none := herr ▸ dir.want_ne_none
    rw [List.cons_append,transferLoop,if_neg (not_le.mpr hready),if_neg hne,if_pos herr,
      ih fun q' hq => h q' (List.mem_cons_of_mem _ hq),Option.map_map]
    rfl

/-- The loop ends at a call that does not want the direction of the wrapper. -/
theorem transferLoop_of_reached (h : ∀ q∈before,Again dir ready q) (hready : 0 < ready r.wait)
    (herr : r.call.err≠dir.want) :
    transferLoop dir ready (before++r::after)=some (if r.call.err=.none then num else r.call.ret,
      before.flatMap (tried ready)++tried ready r) := by
  rw [transferLoop_append h,transferLoop,if_neg (not_le.mpr hready),if_neg herr]
  split_ifs <;> rfl

/-- The loop ends with a descriptor that is not ready, or with a call that does not want
the direction of the wrapper. -/
theorem transferLoop_cases (h : transferLoop dir ready rounds=some out) :
    ∃ before r after,rounds=before++r::after ∧ (∀ q∈before,Again dir ready q) ∧
      (ready r.wait≤0 ∧ out=(-1,before.flatMap (tried ready)++[.waited (ready r.wait)]) ∨
        0 < ready r.wait ∧ r.call.err≠dir.want ∧
          out=(if r.call.err=.none then num else r.call.ret,
            before.flatMap (tried ready)++tried ready r)) := by
  induction rounds generalizing out with
  | nil => cases h
  | cons r rest ih =>
    rw [transferLoop] at h
    split_ifs at h with hready hnone hwant
    · cases h
      exact ⟨[],r,rest,rfl,by simp,.inl ⟨hready,rfl⟩⟩
    · cases h
      have hne : r.call.err≠dir.want := fun he => dir.want_ne_none (he.symm.trans hnone)
      exact ⟨[],r,rest,rfl,by simp,.inr ⟨not_le.mp hready,hne,by rw [if_pos hnone]; rfl⟩⟩
    · obtain ⟨out',hout,rfl⟩ := Option.map_eq_some_iff.mp h
      obtain ⟨before,q,after,rfl,hbefore,hend⟩ := ih hout
      refine ⟨r::before,q,after,rfl,?_,?_⟩
      · exact List.forall_mem_cons.mpr ⟨⟨not_le.mp hready,hwant⟩,hbefore⟩
      · rcases hend with ⟨hq,rfl⟩|⟨hq,herr,rfl⟩
        · exact .inl ⟨hq,rfl⟩
        · exact .inr ⟨hq,herr,rfl⟩
    · cases h
      exact ⟨[],r,rest,rfl,by simp,.inr ⟨not_le.mp hready,hwant,by rw [if_neg hnone]; rfl⟩⟩

/-! ## Counts -/

/-- Repeated tries transfer nothing. -/
theorem count_tries (h : ∀ q∈before,Again dir ready q) :
    ((before.flatMap (tried ready)).map Event.count).sum=0 := by
  induction before with
  | nil => rfl
  | cons q before ih =>
    have hne : q.call.err≠.none := (h q List.mem_cons_self).2 ▸ dir.want_ne_none
    have hrest := ih fun q' hq => h q' (List.mem_cons_of_mem _ hq)
    simpa [tried,Event.count,q.call.length_eq_zero hne] using hrest

/-- Only the last call moves bytes, so that both ways of counting agree. -/
theorem writtenAll_iff_storedLast (h : transferLoop dir ready rounds=some out) :
    WrittenAll out ↔ StoredLast out := by
  obtain ⟨before,r,after,-,hbefore,⟨-,rfl⟩|⟨-,-,rfl⟩⟩ := transferLoop_cases h
  · have hneg : ¬(0 : ℤ) < -1 := by decide
    exact iff_of_true (fun hpos => absurd hpos hneg) fun hpos => absurd hpos hneg
  · refine imp_congr_right fun _ => ?_
    simp [tried,Event.count,count_tries hbefore]

/-! ## Repetition -/

/-- One more try before a record that is in order. -/
theorem Retried.cons {result : ℤ} (h : Retried events) (hnext : Retries events) :
    Retried (.waited result::.called c::events) := by
  intro before d after he hd
  match before with
  | [] => cases he
  | [_] =>
    cases he
    exact hnext
  | _::_::before =>
    cases he
    exact h before d after rfl hd

/-- Rounds that are repeated can be put in front. -/
theorem retried_tries (before : List (Round num)) (h : Retried events) (hnext : Retries events) :
    Retried (before.flatMap (tried ready)++events) ∧
      Retries (before.flatMap (tried ready)++events) := by
  induction before with
  | nil => exact ⟨h,hnext⟩
  | cons q before ih => exact ⟨ih.1.cons ih.2,.called⟩

/-- A wait without a call is in order. -/
theorem retried_waited (result : ℤ) : Retried [(.waited result : Event num)] := by
  intro before d after he
  match before with
  | [] => cases he
  | _::before => exact absurd he (by simp)

/-- A last call that wants nothing is in order. -/
theorem retried_called {result : ℤ} (hc : ¬c.Wants) : Retried [.waited result,.called c] := by
  intro before d after he hd
  match before with
  | [] => cases he
  | [_] =>
    cases he
    exact absurd hd hc
  | _::_::before => exact absurd he (by simp)

/-! ## Results -/

/-- The two directions are told apart. -/
theorem Direction.want_ne_opposite (dir : Direction) : dir.want≠dir.opposite.want := by
  cases dir <;> decide

/-- A record in order comes from rounds that want their own direction only. -/
theorem straight_of_exact (h : ∀ out∈transferLoop dir ready rounds,StoredLast out ∧ Retried out.2) :
    Straight dir ready rounds := by
  rintro c ⟨before,r,after,rfl,hbefore,hready,rfl⟩
  by_cases herr : r.call.err=dir.want
  · rw [herr]
    exact ⟨dir.want_ne_opposite,fun hnone => absurd hnone dir.want_ne_none⟩
  · obtain ⟨hstored,hretried⟩ := h _ (transferLoop_of_reached hbefore hready herr)
    refine ⟨fun hwant => ?_,fun hnone => ?_⟩
    · -- the last event is a call that wants to be repeated
      have hnext := hretried (before.flatMap (tried ready)++[.waited (ready r.wait)]) r.call []
        (by simp [tried]) ((r.call.wants_iff dir).mpr (.inr hwant))
      cases hnext
    · rw [if_pos hnone] at hstored
      obtain ⟨c,hlast,hlen⟩ := hstored ((r.call.none_iff.mp hnone).trans_le r.call.ret_le)
      obtain rfl : r.call=c := by simpa [tried] using hlast
      rw [← r.call.length_eq_ret hnone]
      exact hlen

/-- Rounds that want their own direction only leave a record in order. -/
theorem exact_of_straight (h : Straight dir ready rounds)
    (hout : transferLoop dir ready rounds=some out) : StoredLast out ∧ Retried out.2 := by
  obtain ⟨before,r,after,rfl,hbefore,⟨hready,rfl⟩|⟨hready,herr,rfl⟩⟩ := transferLoop_cases hout
  · refine ⟨fun hpos => absurd hpos (by decide : ¬(0 : ℤ) < -1),?_⟩
    exact (retried_tries before (retried_waited _) (.waited hready)).1
  · obtain ⟨hopposite,hfull⟩ := h r.call ⟨before,r,after,rfl,hbefore,hready,rfl⟩
    have hwants : ¬r.call.Wants := by
      rw [r.call.wants_iff dir]
      exact not_or.mpr ⟨herr,hopposite⟩
    refine ⟨fun hpos => ⟨r.call,by simp [tried],?_⟩,
      (retried_tries before (retried_called hwants) .called).1⟩
    by_cases hnone : r.call.err=.none
    · rw [r.call.length_eq_ret hnone,if_pos hnone,hfull hnone]
    · rw [if_neg hnone] at hpos
      exact absurd hpos (not_lt.mpr (r.call.ret_nonpos hnone))

/-- The wrapper is exact on exactly the straight rounds. -/
theorem exact_iff_straight :
    (∀ out∈transferLoop dir ready rounds,StoredLast out ∧ Retried out.2) ↔
      Straight dir ready rounds :=
  ⟨straight_of_exact,fun h _ hout => exact_of_straight h hout⟩

/-- `dyco_SSL_read` reports what was stored and repeats what OpenSSL wants repeated exactly
if no call that it reaches is short or wants to write; `dyco_SSL_write` likewise, if none is
short or wants to read. -/
theorem ssl_transfer_exact_iff (num : ℤ) (rounds : List (Round num)) :
    ((∀ out∈dycoSSLRead num rounds,StoredLast out ∧ Retried out.2) ↔
      Straight .read (dycoCoroutineWaitRead (-1)) rounds) ∧
    ((∀ out∈dycoSSLWrite num rounds,WrittenAll out ∧ Retried out.2) ↔
      Straight .write (dycoCoroutineWaitWrite sslTimeoutDefault) rounds) := by
  refine ⟨exact_iff_straight,?_⟩
  rw [← exact_iff_straight]
  refine forall₂_congr fun out hout => and_congr_left fun _ => ?_
  exact writtenAll_iff_storedLast hout

/-- A round on a descriptor that is ready at once. -/
def promptly (call : SslCall 4) : Round 4 :=
  ⟨⟨some ⟨true,true,false⟩,none⟩,call⟩

/-- All of four bytes. -/
def fullCall : SslCall 4 := ⟨4,.none,[1,2,3,4],by decide,rfl,by decide⟩

/-- One byte, where four were asked for. -/
def shortCall : SslCall 4 := ⟨1,.none,[1],by decide,rfl,by decide⟩

/-- Nothing, because OpenSSL has to read first. -/
def wantsRead : SslCall 4 := ⟨-1,.wantRead,[],by decide,rfl,by decide⟩

/-- Nothing, because OpenSSL has to write first. -/
def wantsWrite : SslCall 4 := ⟨-1,.wantWrite,[],by decide,rfl,by decide⟩

/-- One byte is reported as four in both directions, and a call that wants the other
direction as an error, although the descriptor stays ready. -/
theorem short_record_reported_full :
    (∃ out∈dycoSSLRead 4 [promptly shortCall],out.1=4 ∧ ¬StoredLast out) ∧
    (∃ out∈dycoSSLWrite 4 [promptly shortCall],out.1=4 ∧ ¬WrittenAll out) ∧
    (∃ out∈dycoSSLRead 4 [promptly wantsWrite,promptly fullCall],out.1=-1 ∧ ¬Retried out.2) ∧
    ∃ out∈dycoSSLWrite 4 [promptly wantsRead,promptly fullCall],out.1=-1 ∧ ¬Retried out.2 := by
  refine ⟨⟨_,rfl,rfl,fun h => ?_⟩,⟨_,rfl,rfl,fun h => ?_⟩,⟨_,rfl,rfl,fun h => ?_⟩,
    ⟨_,rfl,rfl,fun h => ?_⟩⟩
  · obtain ⟨c,hlast,hlen⟩ := h (by decide)
    obtain rfl : shortCall=c := by simpa [promptly] using hlast
    exact absurd hlen (by decide)
  · exact absurd (h (by decide)) (by decide)
  · cases h [_] wantsWrite [] rfl (.inr rfl)
  · cases h [_] wantsRead [] rfl (.inl rfl)

/-- A descriptor that becomes readable while the coroutine is suspended. -/
theorem ssl_transfer_exact_iff_secondTry :
    let rounds : List (Round 4) := [⟨⟨some ⟨false,true,false⟩,some ⟨true,true,false⟩⟩,wantsRead⟩,
      promptly fullCall]
    Straight .read (dycoCoroutineWaitRead (-1)) rounds ∧
      (dycoSSLRead 4 rounds).map Prod.fst=some 4 ∧
      ∀ out∈dycoSSLRead 4 rounds,StoredLast out ∧ Retried out.2 := by
  intro rounds
  have hstraight : Straight .read (dycoCoroutineWaitRead (-1)) rounds := by
    rintro c ⟨before,r,after,hrounds,-,-,rfl⟩
    have hr : r∈rounds := hrounds ▸ List.mem_append_right before List.mem_cons_self
    rcases List.mem_pair.mp hr with rfl|rfl <;> decide
  exact ⟨hstraight,rfl,(ssl_transfer_exact_iff 4 rounds).1.mpr hstraight⟩

end DycoCoroutine.SslTransfer
