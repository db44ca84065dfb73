import DycoCoroutine.ScheduleState

/-!
# The send loop

`dyco_send`, `dyco_sendto` and the hooks `send` and `sendto` have one body: they call
the system until the whole buffer has been accepted. The system decides how much each
call accepts, so that a list of its results is the input of the model; between two calls
`waitev` suspends the coroutine. The counter is an `int`, and ECONNRESET is reported even
after bytes have been accepted.
-/

namespace DycoCoroutine.SendLoop

open ScheduleState

/-- The values of `errno` that the loop tells apart. -/
inductive Errno
  | eagain
  | econnreset
  | other
  deriving DecidableEq

/-- What a call of `send_f` or `sendto_f` returns, and what `errno` is afterwards. A call
that succeeds leaves `errno` at some earlier value. -/
inductive Result
  | accepted (count : ℕ) (errno : Errno)
  | failed (errno : Errno)
  deriving DecidableEq

/-- The number of bytes that the system has taken over. -/
def Result.count : Result → ℕ
  | .accepted count _ => count
  | .failed _ => 0

/-- The result as it is stored in `int ret`. -/
def Result.ret : Result → ℤ
  | .accepted count _ => toInt count
  | .failed _ => -1

/-- `errno` -/
def Result.errno : Result → Errno
  | .accepted _ errno => errno
  | .failed errno => errno

/-- The system accepts between one byte and all of them, or fails. -/
def Result.possible (requested : ℕ) : Result → Bool
  | .accepted count _ => (0<count || requested=0) && count≤requested
  | .failed _ => true

/-- `dest_addr` and `addrlen` -/
abbrev Destination := List UInt8×ℕ

/-- A call of `send_f`, or of `sendto_f` with its destination. -/
structure Call where
  /-- The address, relative to `buf`. -/
  offset : ℕ
  /-- The length. -/
  requested : ℕ
  /-- `flags` -/
  flags : ℤ
  /-- The destination of `sendto_f`. -/
  dest : Option Destination
  /-- The number of bytes that were accepted. -/
  count : ℕ
  deriving DecidableEq

/-- The value that is returned when the loop is left, except on ECONNRESET. -/
def returned (sent : ℕ) (ret : ℤ) : ℤ := if ret≤0 ∧ sent=0 then ret else sent

variable (flags : ℤ) (dest : Option Destination) (len : ℕ)

/-- The loop, with the results of the calls that are still to come. There is no outcome
unless the last result makes the function return. `sent` is an `int`; it is only raised,
and to raise it beyond 2^31-1 is undefined. -/
def sendLoop : List Result → ℕ → ℤ → List Call → Option (Except Fault (ℤ×List Call))
  | [],sent,ret,calls => if sent<len then none else some (.ok (returned sent ret,calls))
  | r::rest,sent,_,calls =>
    if sent<len ∧ r.possible (len-sent)=true then
      let calls := calls++[⟨sent,len-sent,flags,dest,r.count⟩]
      if r.ret≤0 then
        match r.errno with
        | .eagain => sendLoop rest sent r.ret calls
        | .econnreset => if rest=[] then some (.ok (r.ret,calls)) else none
        | .other => if rest=[] then some (.ok (returned sent r.ret,calls)) else none
      else if 2^31 ≤ sent+r.ret.toNat then some (.error .undefined)
      else sendLoop rest (sent+r.ret.toNat) r.ret calls
    else none

/-- The body of the four functions: a first call, and the loop unless it returned 0. -/
def transfer : List Result → Option (Except Fault (ℤ×List Call))
  | [] => none
  | r::rest =>
    if r.possible len=true then
      let calls := [⟨0,len,flags,dest,r.count⟩]
      if r.ret=0 then if rest=[] then some (.ok (0,calls)) else none
      else sendLoop flags dest len rest r.ret.toNat r.ret calls
    else none

/-- `dyco_send` -/
def dycoSend (results : List Result) : Option (Except Fault (ℤ×List Call)) :=
  transfer flags none len results

/-- `dyco_sendto` -/
def dycoSendto (dest : Destination) (results : List Result) : Option (Except Fault (ℤ×List Call)) :=
  transfer flags (some dest) len results

/-- The hook `send` -/
def send (results : List Result) : Option (Except Fault (ℤ×List Call)) :=
  transfer flags none len results

/-- The hook `sendto` -/
def sendto (dest : Destination) (results : List Result) : Option (Except Fault (ℤ×List Call)) :=
  transfer flags (some dest) len results

/-- The number of bytes that calls have sent. -/
def total (calls : List Call) : ℕ := (calls.map Call.count).sum

/-- Every call that sends anything goes on where the one before has stopped. -/
def Consecutive : ℕ → List Call → Prop
  | _,[] => True
  | k,c::rest => (c.count=0 ∨ c.offset=k) ∧ Consecutive (k+c.count) rest

/-- The bytes that calls have sent. -/
def sentBytes (buf : List UInt8) (calls : List Call) : List UInt8 :=
  calls.flatMap fun c => (buf.drop c.offset).take c.count

/-- What was sent is a prefix of the buffer, without gap and repetition, and the result is
its length, or not positive if nothing was sent. -/
structure Reported (buf : List UInt8) (ret : ℤ) (calls : List Call) : Prop where
  consecutive : Consecutive 0 calls
  within : total calls≤buf.length
  bytes : sentBytes buf calls=buf.take (total calls)
  positive : 0<ret → (total calls : ℤ)=ret
  nothing : ret≤0 → total calls=0

/-- The number of bytes that the system accepts in all. -/
def accepted (results : List Result) : ℕ := (results.map Result.count).sum

variable {flags dest len} {results rest : List Result} {r : Result} {sent k : ℕ} {ret : ℤ}
  {calls calls' : List Call} {c : Call} {out : Except Fault (ℤ×List Call)} {buf : List UInt8}

/-- The bytes of one more call. -/
theorem total_append : total (calls++[c])=total calls+c.count := by simp [total]

/-- One more call goes on where the others ended, or sends nothing. -/
theorem Consecutive.append (h : Consecutive k calls) (hc : c.count=0 ∨ c.offset=k+total calls) :
    Consecutive k (calls++[c]) := by
  induction calls generalizing k with
  | nil => exact ⟨by simpa [total] using hc,trivial⟩
  | cons d calls ih =>
    refine ⟨h.1,ih h.2 ?_⟩
    simpa [total,Nat.add_assoc] using hc

/-- Consecutive calls send consecutive bytes. -/
theorem Consecutive.sentBytes (h : Consecutive k calls) (hk : k+total calls≤buf.length) :
    sentBytes buf calls=(buf.drop k).take (total calls) := by
  induction calls generalizing k with
  | nil => simp [SendLoop.sentBytes,total]
  | cons c calls ih =>
    have htotal : total (c::calls)=c.count+total calls := by simp [total]
    rw [htotal] at hk
    have hrest := ih h.2 (by omega)
    have hfirst : (buf.drop c.offset).take c.count=(buf.drop k).take c.count := by
      rcases h.1 with hzero|hoffset
      · rw [hzero,List.take_zero,List.take_zero]
      · rw [hoffset]
    rw [htotal,List.take_add,List.drop_drop]
    show (buf.drop c.offset).take c.count++SendLoop.sentBytes buf calls=_
    rw [hfirst,hrest]

/-- The last call has failed with ECONNRESET. -/
def Reset (results : List Result) : Prop := results.getLast?=some (.failed .econnreset)

/-- A single call is reset when it fails so. -/
theorem reset_singleton : Reset [r] ↔ r=.failed .econnreset := by simp [Reset]

/-- A reset is at the end, whatever came before. -/
theorem Reset.cons (h : Reset rest) : Reset (r::rest) := by
  cases rest with
  | nil => cases h
  | cons q rest => simpa [Reset] using h

/-- A call that is not reset does not decide. -/
theorem reset_cons (hr : r≠.failed .econnreset) : Reset (r::rest) ↔ Reset rest := by
  cases rest with
  | nil => simp [Reset,hr]
  | cons q rest => simp [Reset]

/-- The bytes accepted from the first call on. -/
theorem accepted_cons : accepted (r::rest)=r.count+accepted rest := by simp [accepted]

/-- A conversion to int is below its bound. -/
theorem toInt_lt (n : ℕ) : toInt n<2^31 := by
  unfold toInt
  rw [Int.bmod_def]
  split_ifs <;> omega

/-- A result of `send` is below the bound of int. -/
theorem ret_lt (r : Result) : r.ret<2^31 := by
  cases r with
  | accepted count errno => exact toInt_lt count
  | failed errno => exact (by decide : (-1 : ℤ)<2^31)

/-- A count below 2^31 is stored as it is. -/
theorem ret_of_lt (hcount : r.count<2^31) :
    r.ret=r.count ∨ r.ret= -1 ∧ r.count=0 ∧ r=.failed r.errno := by
  cases r with
  | accepted count errno => exact .inl (toInt_of_lt hcount)
  | failed errno => exact .inr ⟨rfl,rfl,rfl⟩

/-- A call that was to send something and did not fail has sent something. -/
theorem count_pos (hpossible : r.possible k=true) (hk : 0<k) (hret : r.ret=r.count) :
    0<r.count := by
  cases r with
  | accepted count errno =>
    simp only [Result.possible,Bool.and_eq_true,Bool.or_eq_true,decide_eq_true_eq] at hpossible
    show 0<count
    omega
  | failed errno => cases hret

/-- The kernel accepts no more than it is given. -/
theorem count_le (hpossible : r.possible k=true) : r.count≤k := by
  cases r with
  | accepted count errno =>
    simp only [Result.possible,Bool.and_eq_true,decide_eq_true_eq] at hpossible
    exact hpossible.2
  | failed errno => exact Nat.zero_le _

/-- What the wrapper returns is below the bound of int. -/
theorem returned_lt (hsent : sent<2^31) (hret : ret<2^31) : returned sent ret<2^31 := by
  unfold returned
  split_ifs <;> omega

/-- One pass through the loop. -/
theorem sendLoop_cons (h : sendLoop flags dest len (r::rest) sent ret calls=some out) :
    sent<len ∧ r.possible (len-sent)=true ∧
    ∃ c : Call,c.offset=sent ∧ c.count=r.count ∧
      (r.ret≤0 ∧ r.errno=.eagain ∧
          sendLoop flags dest len rest sent r.ret (calls++[c])=some out ∨
        r.ret≤0 ∧ r.errno=.econnreset ∧ rest=[] ∧ out=.ok (r.ret,calls++[c]) ∨
        r.ret≤0 ∧ r.errno=.other ∧ rest=[] ∧ out=.ok (returned sent r.ret,calls++[c]) ∨
        0<r.ret ∧ 2^31 ≤ sent+r.ret.toNat ∧ out=.error .undefined ∨
        0<r.ret ∧ sent+r.ret.toNat<2^31 ∧
          sendLoop flags dest len rest (sent+r.ret.toNat) r.ret (calls++[c])=some out) := by
  rw [sendLoop,Option.ite_none_right_eq_some] at h
  obtain ⟨⟨hlt,hpossible⟩,h⟩ := h
  refine ⟨hlt,hpossible,⟨sent,len-sent,flags,dest,r.count⟩,rfl,rfl,?_⟩
  by_cases hret : r.ret≤0
  · simp only [if_pos hret] at h
    cases herrno : r.errno with
    | eagain =>
      rw [herrno] at h
      exact .inl ⟨hret,rfl,h⟩
    | econnreset =>
      simp only [herrno,Option.ite_none_right_eq_some,Option.some.injEq] at h
      exact .inr (.inl ⟨hret,rfl,h.1,h.2.symm⟩)
    | other =>
      simp only [herrno,Option.ite_none_right_eq_some,Option.some.injEq] at h
      exact .inr (.inr (.inl ⟨hret,rfl,h.1,h.2.symm⟩))
  · simp only [if_neg hret] at h
    by_cases hover : 2^31 ≤ sent+r.ret.toNat
    · rw [if_pos hover] at h
      cases h
      exact .inr (.inr (.inr (.inl ⟨not_le.mp hret,hover,rfl⟩)))
    · rw [if_neg hover] at h
      exact .inr (.inr (.inr (.inr ⟨not_le.mp hret,not_le.mp hover,h⟩)))

/-- The loop at its end. -/
theorem sendLoop_nil (h : sendLoop flags dest len [] sent ret calls=some out) :
    len ≤ sent ∧ out=.ok (returned sent ret,calls) := by
  simp only [sendLoop,Option.ite_none_left_eq_some,Option.some.injEq] at h
  exact ⟨not_lt.mp h.1,h.2.symm⟩

/-- The calls of the loop send what their results say, and no result exceeds an `int`. -/
theorem sendLoop_total {v : ℤ}
    (h : sendLoop flags dest len results sent ret calls=some (.ok (v,calls')))
    (hsent : sent<2^31) (hret : ret<2^31) :
    total calls'=total calls+accepted results ∧ v<2^31 := by
  induction results generalizing sent ret calls with
  | nil =>
    cases (sendLoop_nil h).2
    exact ⟨rfl,returned_lt hsent hret⟩
  | cons r rest ih =>
    obtain ⟨-,-,c,-,hc,hcase⟩ := sendLoop_cons h
    have hnext : total (calls++[c])+accepted rest=total calls+accepted (r::rest) := by
      rw [total_append,accepted_cons,hc,Nat.add_assoc]
    rcases hcase with ⟨-,-,hrest⟩|⟨-,-,rfl,hout⟩|⟨-,-,rfl,hout⟩|⟨-,-,hout⟩|⟨-,hlt,hrest⟩
    · exact hnext ▸ ih hrest hsent (ret_lt r)
    · cases hout
      exact ⟨hnext,ret_lt r⟩
    · cases hout
      exact ⟨hnext,returned_lt hsent (ret_lt r)⟩
    · cases hout
    · exact hnext ▸ ih hrest hlt (ret_lt r)

/-- The result of a call tells the number of bytes that were sent. -/
def Tells (v : ℤ) (n : ℕ) : Prop := (0<v → (n : ℤ)=v) ∧ (v≤0 → n=0)

/-- The value at the end of the loop tells the bytes sent. -/
theorem tells_returned : Tells (returned sent ret) sent := by
  unfold Tells returned
  split_ifs <;> omega

/-- While the counter fits an `int`, the calls continue each other, and only ECONNRESET
hides what they have sent. -/
theorem sendLoop_spec (h : sendLoop flags dest len results sent ret calls=some out)
    (hcalls : Consecutive 0 calls) (htotal : total calls=sent) (hlen : sent≤len)
    (hsmall : sent+accepted results<2^31) :
    ∃ v calls',out=.ok (v,calls') ∧ Consecutive 0 calls' ∧ total calls'≤len ∧
      total calls'=sent+accepted results ∧
      (Tells v (total calls') ↔ ¬(Reset results ∧ 0<total calls')) := by
  induction results generalizing sent ret calls with
  | nil =>
    refine ⟨_,calls,(sendLoop_nil h).2,hcalls,htotal.le.trans hlen,htotal,?_⟩
    exact iff_of_true (htotal.symm ▸ tells_returned) fun hreset => by cases hreset.1
  | cons r rest ih =>
    obtain ⟨hlt,hpossible,c,hoffset,hc,hcase⟩ := sendLoop_cons h
    rw [accepted_cons] at hsmall ⊢
    have hnext : Consecutive 0 (calls++[c]) := hcalls.append (.inr (by omega))
    have hsum : total (calls++[c])=sent+r.count := by rw [total_append,htotal,hc]
    have hwithin := count_le hpossible
    rcases ret_of_lt (r := r) (by omega) with hcount|⟨hneg,hzero,hfailed⟩
    · -- bytes were accepted: the counter advances
      have hpos := count_pos hpossible (by omega) hcount
      have hr : r≠.failed .econnreset := by
        rintro rfl
        exact absurd hpos (lt_irrefl 0)
      have hto : r.ret.toNat=r.count := by omega
      rw [hto] at hcase
      rcases hcase with ⟨hle,-⟩|⟨hle,-⟩|⟨hle,-⟩|⟨-,hover,-⟩|⟨-,-,hrest⟩
      · omega
      · omega
      · omega
      · omega
      · rw [reset_cons hr,← Nat.add_assoc]
        exact ih hrest hnext hsum (by omega) (by omega)
    · -- nothing was accepted: the counter stays
      rw [hzero] at hsum hsmall ⊢
      rw [Nat.zero_add] at hsmall ⊢
      rcases hcase with ⟨-,he,hrest⟩|⟨-,he,rfl,rfl⟩|⟨-,he,rfl,rfl⟩|⟨hpos,-⟩|⟨hpos,-⟩
      · rw [reset_cons (by rw [hfailed,he]; simp)]
        exact ih hrest hnext hsum hlen hsmall
      · have hreset : Reset [r] := reset_singleton.mpr (by rw [hfailed,he])
        refine ⟨_,_,rfl,hnext,hsum.le.trans hlen,hsum,?_⟩
        rw [hneg]
        simp only [hreset,true_and,Tells]
        omega
      · have hreset : ¬Reset [r] := by
          rw [reset_singleton,hfailed,he]
          exact nofun
        refine ⟨_,_,rfl,hnext,hsum.le.trans hlen,hsum,iff_of_true ?_ fun h => hreset h.1⟩
        exact hsum.symm ▸ tells_returned
      · omega
      · omega

/-- The first call. -/
theorem transfer_cons (h : transfer flags dest len (r::rest)=some out) :
    r.possible len=true ∧ ∃ c : Call,c.offset=0 ∧ c.count=r.count ∧
      (r.ret=0 ∧ rest=[] ∧ out=.ok (0,[c]) ∨
        r.ret≠0 ∧ sendLoop flags dest len rest r.ret.toNat r.ret [c]=some out) := by
  rw [transfer,Option.ite_none_right_eq_some] at h
  obtain ⟨hpossible,h⟩ := h
  refine ⟨hpossible,⟨0,len,flags,dest,r.count⟩,rfl,rfl,?_⟩
  by_cases hret : r.ret=0
  · simp only [if_pos hret,Option.ite_none_right_eq_some,Option.some.injEq] at h
    exact .inl ⟨hret,h.1,h.2.symm⟩
  · simp only [if_neg hret] at h
    exact .inr ⟨hret,h⟩

/-- The calls have sent what the kernel has accepted. -/
theorem transfer_total {v : ℤ} (h : transfer flags dest len results=some (.ok (v,calls))) :
    total calls=accepted results ∧ v<2^31 := by
  cases results with
  | nil => cases h
  | cons r rest =>
    obtain ⟨-,c,-,hc,hcase⟩ := transfer_cons h
    have hfirst : total [c]=r.count := by simp [total,hc]
    rcases hcase with ⟨-,rfl,hout⟩|⟨-,hrest⟩
    · cases hout
      exact ⟨by simp [hfirst,accepted],by decide⟩
    · have hlt := ret_lt r
      rw [accepted_cons,← hfirst]
      exact sendLoop_total hrest (by omega) hlt

/-- The calls are consecutive, and the result tells their bytes unless the connection
was reset. -/
theorem transfer_spec (h : transfer flags dest len results=some out)
    (hsmall : accepted results<2^31) :
    ∃ v calls,out=.ok (v,calls) ∧ Consecutive 0 calls ∧ total calls≤len ∧
      total calls=accepted results ∧
      (Tells v (total calls) ↔ ¬(Reset results ∧ 0<total calls)) := by
  cases results with
  | nil => cases h
  | cons r rest =>
    obtain ⟨hpossible,c,hoffset,hc,hcase⟩ := transfer_cons h
    have hfirst : total [c]=r.count := by simp [total,hc]
    have hwithin := count_le hpossible
    have hcalls : Consecutive 0 [c] := ⟨.inr hoffset,trivial⟩
    rw [accepted_cons] at hsmall ⊢
    have hcount := ret_of_lt (Nat.lt_of_le_of_lt (Nat.le_add_right _ _) hsmall)
    rcases hcase with ⟨hzero,rfl,rfl⟩|⟨hne,hrest⟩
    · refine ⟨_,_,rfl,hcalls,hfirst.le.trans hwithin,hfirst,?_⟩
      rw [hfirst]
      unfold Tells
      omega
    · have hto : r.ret.toNat=r.count := by omega
      rw [hto] at hrest
      obtain ⟨v,calls',hout,hcons,hle,htotal,htells⟩ :=
        sendLoop_spec hrest hcalls hfirst hwithin hsmall
      refine ⟨v,calls',hout,hcons,hle,htotal,htells.trans (not_congr ⟨?_,?_⟩)⟩
      · exact fun ⟨hreset,hpos⟩ => ⟨hreset.cons,hpos⟩
      · rintro ⟨hreset,hpos⟩
        refine ⟨?_,hpos⟩
        cases rest with
        | nil =>
          -- the only call has failed, so that nothing was sent
          rw [reset_singleton] at hreset
          rw [htotal,hreset] at hpos
          cases hpos
        | cons q rest => simpa [Reset] using hreset

/-- An outcome of the functions: they return, and report what they have sent. -/
def ReportedBy (buf : List UInt8) (out : Except Fault (ℤ×List Call)) : Prop :=
  ∃ v calls,out=.ok (v,calls) ∧ Reported buf v calls

/-- What was sent is reported unless it reaches 2^31 bytes, which no `int` can tell, or
the connection is reset after some of it. -/
theorem transfer_reported_iff (h : transfer flags dest buf.length results=some out) :
    ReportedBy buf out ↔ accepted results<2^31 ∧ ¬(Reset results ∧ 0<accepted results) := by
  constructor
  · rintro ⟨v,calls,rfl,hreported⟩
    obtain ⟨htotal,hlt⟩ := transfer_total h
    have hsmall : accepted results<2^31 := by
      by_cases hv : 0<v
      · have := hreported.positive hv
        omega
      · have := hreported.nothing (not_lt.mp hv)
        omega
    obtain ⟨v',calls',hout,-,-,-,htells⟩ := transfer_spec h hsmall
    cases hout
    exact ⟨hsmall,htotal ▸ htells.mp ⟨hreported.positive,hreported.nothing⟩⟩
  · rintro ⟨hsmall,hreset⟩
    obtain ⟨v,calls,hout,hcons,hle,htotal,htells⟩ := transfer_spec h hsmall
    rw [← htotal] at hreset
    obtain ⟨hpositive,hnothing⟩ := htells.mpr hreset
    refine ⟨v,calls,hout,hcons,hle,?_,hpositive,hnothing⟩
    simpa using hcons.sentBytes (by simpa using hle)

/-- The four functions report what they have sent in exactly these cases. -/
theorem send_reports_iff (buf : List UInt8) (flags : ℤ) (dest : Destination)
    (results : List Result) (out : Except Fault (ℤ×List Call))
    (h : dycoSend flags buf.length results=some out ∨
      dycoSendto flags buf.length dest results=some out ∨
      send flags buf.length results=some out ∨ sendto flags buf.length dest results=some out) :
    ReportedBy buf out ↔ accepted results<2^31 ∧ ¬(Reset results ∧ 0<accepted results) := by
  rcases h with h|h|h|h <;> exact transfer_reported_iff h

/-- Two partial sends with a full buffer between them. -/
theorem send_reports_iff_twoParts :
    dycoSend 0 3 [.accepted 1 .other,.failed .eagain,.accepted 2 .eagain]=
      some (.ok (3,[⟨0,3,0,none,1⟩,⟨1,2,0,none,0⟩,⟨1,2,0,none,2⟩])) ∧
    ReportedBy [97,98,99] (.ok (3,[⟨0,3,0,none,1⟩,⟨1,2,0,none,0⟩,⟨1,2,0,none,2⟩])) := by
  have hrun : dycoSend 0 3 [.accepted 1 .other,.failed .eagain,.accepted 2 .eagain]=
      some (.ok (3,[⟨0,3,0,none,1⟩,⟨1,2,0,none,0⟩,⟨1,2,0,none,2⟩])) := by decide +kernel
  refine ⟨hrun,(send_reports_iff [97,98,99] 0 ([],0) _ _ (.inl hrun)).mpr ⟨by decide,?_⟩⟩
  rintro ⟨hreset,-⟩
  cases hreset

/-- One byte is sent, then the connection is reset: the result is -1. -/
theorem reset_hides_sent_byte :
    ¬∀ (buf : List UInt8) (flags : ℤ) (results : List Result) (v : ℤ) (calls : List Call),
      dycoSend flags buf.length results=some (.ok (v,calls)) → Reported buf v calls := by
  intro hall
  have hrun : dycoSend 0 3 [.accepted 1 .other,.failed .econnreset]=
      some (.ok (-1,[⟨0,3,0,none,1⟩,⟨1,2,0,none,0⟩])) := by decide +kernel
  exact absurd ((hall [97,98,99] 0 _ _ _ hrun).nothing (by decide)) (by decide)

end DycoCoroutine.SendLoop
