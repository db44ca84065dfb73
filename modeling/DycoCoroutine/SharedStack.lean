import DycoCoroutine.RunInvariant
import DycoCoroutine.ScheduleState

/-!
# Coroutines on the scheduler stack

A coroutine without a stack of its own runs on the stack of the scheduler. When it
yields, `savestk` copies the used part to a buffer on the heap; when it is resumed,
`loadstk` copies it back. The buffer is reallocated only if the size recorded at the
last yield is too small, and it is inherited when the coroutine returns to a pool.
Whatever the others write meanwhile, a coroutine finds its part of the stack as it
left it.
-/

namespace DycoCoroutine.SharedStack

open ScheduleState RunInvariant

/-- The memory that `co->stack` points to: a block of the heap, or memory of the
program's own. -/
inductive Buffer
  | null
  | block (q : ℕ)
  | user
  deriving DecidableEq

/-- A symmetric coroutine. -/
structure Co where
  /-- COROUTINE_STATUS_NEW -/
  new : Bool
  /-- COROUTINE_FLAGS_OWNSTACK -/
  ownstack : Bool
  /-- COROUTINE_FLAGS_ALLOCSTACKMEM -/
  allocstackmem : Bool
  /-- COROUTINE_FLAGS_INCOROPOOL -/
  incoropool : Bool
  /-- Whether the coroutine stands in the free list of its pool. -/
  idle : Bool
  /-- `stack` -/
  stack : Buffer
  /-- `stack_size` -/
  stackSize : ℕ
  /-- The scheduler stack at the yield that the coroutine has not returned from. -/
  atYield : Option (List UInt8)
  deriving DecidableEq

/-- The scheduler and its coroutines. -/
structure World where
  /-- The `stack_size` bytes at `sched->stack`, lowest address first. -/
  stack : List UInt8
  /-- The allocated blocks. -/
  heap : ℕ → Option (List UInt8)
  /-- The coroutines. -/
  co : ℕ → Option Co
  /-- `sched->curr_thread` -/
  curr : Option ℕ

/-- A scheduler without coroutines. -/
def newWorld (size : ℕ) : World := ⟨List.replicate size 0,fun _ => none,fun _ => none,none⟩

/-- The `n` bytes below the top of a stack. -/
def topBytes (n : ℕ) (stack : List UInt8) : List UInt8 := stack.drop (stack.length-n)

/-- Overwrite the bytes below the top of a stack. -/
def writeTop (stack bytes : List UInt8) : List UInt8 :=
  stack.take (stack.length-bytes.length)++bytes

/-- The bytes of a buffer. -/
def contents (heap : ℕ → Option (List UInt8)) : Buffer → List UInt8
  | .block q => (heap q).getD []
  | _ => []

/-- Replace the record of a coroutine. -/
def put (w : World) (c : ℕ) (r : Co) : World := {w with co := Function.update w.co c (some r)}

/-- `free` of a buffer. Memory of the program's own is not on this heap. -/
def release (heap : ℕ → Option (List UInt8)) : Buffer → ℕ → Option (List UInt8)
  | .block q => Function.update heap q none
  | _ => heap

/-- `realloc` to `n` bytes at the address `q`, where the bytes beyond the old end
are `junk`. There is no result if the allocator cannot have returned `q`. -/
def realloc (heap : ℕ → Option (List UInt8)) (p : Buffer) (n q : ℕ) (junk : List UInt8) :
    Option (ℕ → Option (List UInt8)) :=
  let bytes := (contents heap p++junk).take n
  let heap := release heap p
  if heap q=none ∧ bytes.length=n then some (Function.update heap q (some bytes)) else none

/-- The copy of `savestk` into a buffer that is large enough. -/
def copyOut (w : World) (c : ℕ) (r : Co) (cursize : ℕ) : Except Fault World :=
  match r.stack with
  | .block q =>
    let buf := contents w.heap (.block q)
    if buf.length<cursize ∨ w.stack.length<cursize then .error .undefined
    else
      let heap := Function.update w.heap q (some (topBytes cursize w.stack++buf.drop cursize))
      .ok (put {w with heap := heap} c {r with stackSize := cursize,allocstackmem := true})
  | _ => .error .undefined

/-- `savestk` of `c`, called with `cursize` bytes in use. The last two arguments are
the choices of the allocator. -/
def savestk (w : World) (c : ℕ) (r : Co) (cursize q : ℕ) (junk : List UInt8) :
    Option (Except Fault World) :=
  if r.ownstack then some (.ok w)
  else if r.stackSize<cursize then
    match realloc w.heap r.stack cursize q junk with
    | none => none
    | some heap => some (copyOut {w with heap := heap} c {r with stack := .block q} cursize)
  else some (copyOut w c r cursize)

/-- Whether `checkstk` finds the stack overflowed. -/
def checkstk (w : World) (r : Co) (cursize : ℕ) : Bool :=
  (if r.ownstack then r.stackSize else w.stack.length)<cursize

/-- `loadstk` -/
def loadstk (w : World) (r : Co) : Except Fault (List UInt8) :=
  if r.ownstack then .ok w.stack
  else
    let buf := contents w.heap r.stack
    if buf.length<r.stackSize ∨ w.stack.length<r.stackSize then .error .undefined
    else .ok (writeTop w.stack (buf.take r.stackSize))

/-- `init_coro`: the first frame is laid out on the stack. -/
def initCoro (w : World) (r : Co) (frame : List UInt8) : List UInt8 :=
  if r.ownstack then w.stack else writeTop w.stack frame

/-- The scheduler stack that a resumed coroutine finds. -/
def prepare (w : World) (r : Co) (frame : List UInt8) : Except Fault (List UInt8) :=
  if r.new then .ok (initCoro w r frame) else loadstk w r

/-- `resume` of `c` up to the switch to its context. -/
def resume (w : World) (c : ℕ) (r : Co) (frame : List UInt8) : Except Fault World :=
  (prepare w r frame).map fun stack =>
    put {w with stack := stack,curr := some c} c {r with new := false,atYield := none}

/-- `freecoro` -/
def freecoro (w : World) (c : ℕ) (r : Co) : World :=
  {w with
    heap := if r.allocstackmem then release w.heap r.stack else w.heap
    co := Function.update w.co c none}

/-- The end of `resume` for a coroutine that has exited or was killed: it returns to
its pool or is freed. -/
def leave (w : World) (c : ℕ) (r : Co) : World :=
  let w := {w with curr := none}
  if r.incoropool then put w c {r with idle := true} else freecoro w c r

/-- The switch back to the scheduler after the stack was saved. -/
def suspend (w : World) (c : ℕ) : World :=
  {w with
    curr := none
    co := Function.update w.co c ((w.co c).map fun r => {r with atYield := some w.stack})}

/-- The arguments of `dyco_coroutine_setStack`. -/
inductive StackArg
  /-- A size of 0. -/
  | none
  /-- No address: a block is allocated at `q`. -/
  | alloc (q : ℕ) (bytes : List UInt8)
  /-- Memory of the program's own. -/
  | user (size : ℕ)

/-- `dyco_coroutine_setStack` and `coro_setstack` of a new coroutine. -/
def setStack (w : World) (c : ℕ) (r : Co) : StackArg → Option World
  | .none => some (put w c {r with stack := .null,stackSize := 0,ownstack := false})
  | .alloc q bytes =>
    if w.heap q=none then
      some (put {w with heap := Function.update w.heap q (some bytes)} c
        {r with stack := .block q,stackSize := bytes.length,ownstack := true,allocstackmem := true})
    else none
  | .user size => some (put w c {r with stack := .user,stackSize := size,ownstack := true})

/-- `newcoro`, for a pool or not. -/
def newcoro (incoropool : Bool) : Co := ⟨true,false,false,incoropool,incoropool,.null,0,none⟩

/-- What can happen next. -/
inductive Act
  /-- A coroutine is created, for a pool or not. -/
  | create (c : ℕ) (incoropool : Bool)
  /-- The stack of a new coroutine is set. -/
  | setStack (c : ℕ) (arg : StackArg)
  /-- `cp_obtain` takes a coroutine from its pool. -/
  | obtain (c : ℕ)
  /-- A pool releases a coroutine. -/
  | drop (c : ℕ)
  /-- The scheduler resumes a coroutine. -/
  | resume (c : ℕ) (frame : List UInt8)
  /-- The running coroutine writes to its live part of the stack. -/
  | write (bytes : List UInt8)
  /-- `yield` -/
  | yield (cursize q : ℕ) (junk : List UInt8)
  /-- `dyco_schedcall_stop`, which does not check the stack. -/
  | stop (cursize q : ℕ) (junk : List UInt8)
  /-- The function of the running coroutine returns, or the coroutine is killed. -/
  | exit

/-- The running coroutine with its record. -/
def running (w : World) : Option (ℕ×Co) := w.curr.bind fun c => (w.co c).map fun r => (c,r)

/-- What the running coroutine may write to: the scheduler stack or its own. -/
def write (w : World) (r : Co) (bytes : List UInt8) : Option World :=
  if r.ownstack then
    match r.stack with
    | .block q =>
      if bytes.length=r.stackSize then some {w with heap := Function.update w.heap q (some bytes)}
      else none
    | _ => some w
  else if bytes.length ≤ w.stack.length then some {w with stack := writeTop w.stack bytes}
  else none

/-- One step. -/
def step (w : World) : Act → Option (Except Fault World)
  | .create c incoropool =>
    if w.co c=none then some (.ok (put w c (newcoro incoropool))) else none
  | .setStack c arg =>
    match w.co c with
    | some r => if r.new then (setStack w c r arg).map .ok else none
    | none => none
  | .obtain c =>
    match w.co c with
    | some r => if r.idle then some (.ok (put w c {r with new := true,idle := false})) else none
    | none => none
  | .drop c =>
    match w.co c with
    | some r => if r.idle then some (.ok (freecoro w c r)) else none
    | none => none
  | .resume c frame =>
    match w.co c with
    | some r =>
      if w.curr=none ∧ r.idle=false ∧ frame.length ≤ w.stack.length then some (resume w c r frame)
      else none
    | none => none
  | .write bytes => (running w).bind fun (_,r) => (write w r bytes).map .ok
  | .yield cursize q junk => (running w).bind fun (c,r) =>
    if cursize=0 then none
    else if checkstk w r cursize then some (.ok (leave w c r))
    else (savestk w c r cursize q junk).map fun x => x.map fun w => suspend w c
  | .stop cursize q junk => (running w).bind fun (c,r) =>
    if cursize=0 then none
    else (savestk w c r cursize q junk).map fun x => x.map fun w => suspend w c
  | .exit => (running w).map fun (c,r) => .ok (leave w c r)

/-- The states that a scheduler with a stack of this size can reach. -/
def Reachable (size : ℕ) (w : World) : Prop := Runs step (fun _ _ => True) (newWorld size) w

/-- The buffer of a coroutine that shares the scheduler stack. -/
structure Saved (size : ℕ) (heap : ℕ → Option (List UInt8)) (r : Co) : Prop where
  /-- What is copied back stays within the scheduler stack. -/
  fits : r.stackSize ≤ size
  /-- The buffer is at least as large as the recorded size. -/
  capacity : r.stackSize ≤ (contents heap r.stack).length
  /-- It never is memory of the program's own. -/
  own : r.stack≠.user
  /-- It holds what was on the stack at the last yield. -/
  copy : r.new=false → ∀ s,r.atYield=some s → s.length=size ∧
    (contents heap r.stack).take r.stackSize=topBytes r.stackSize s

/-- Every coroutine has a buffer of its own, and those that share the scheduler
stack have saved it. -/
structure Sound (size : ℕ) (w : World) : Prop where
  length : w.stack.length=size
  saved : ∀ c r,w.co c=some r → r.ownstack=false → Saved size w.heap r
  allocated : ∀ c r q,w.co c=some r → r.stack=.block q → w.heap q≠none
  distinct : ∀ c d r r' q,w.co c=some r → w.co d=some r' → r.stack=.block q →
    r'.stack=.block q → c=d
  /-- A coroutine that has been started waits in a yield. -/
  waiting : ∀ c r,w.co c=some r → r.new=false → r.idle=false → w.curr≠some c → r.atYield≠none

variable {size c cursize q : ℕ} {w t : World} {r : Co} {a : Act} {stack bytes junk : List UInt8}
  {heap heap' : ℕ → Option (List UInt8)} {curr : Option ℕ}

theorem length_writeTop (h : bytes.length ≤ stack.length) :
    (writeTop stack bytes).length=stack.length := by
  rw [writeTop,List.length_append,List.length_take,min_eq_left (Nat.sub_le ..),
    Nat.sub_add_cancel h]

theorem length_topBytes (h : cursize ≤ stack.length) :
    (topBytes cursize stack).length=cursize := by
  rw [topBytes,List.length_drop,Nat.sub_sub_self h]

/-- What was written below the top is found there. -/
theorem topBytes_writeTop (h : bytes.length ≤ stack.length) :
    topBytes bytes.length (writeTop stack bytes)=bytes := by
  rw [topBytes,length_writeTop h,writeTop,List.drop_left']
  rw [List.length_take,min_eq_left (Nat.sub_le ..)]

theorem contents_congr {b : Buffer} (h : ∀ q,b=.block q → heap q=heap' q) :
    contents heap b=contents heap' b := by
  cases b with
  | block q => exact congrArg (·.getD []) (h q rfl)
  | null => rfl
  | user => rfl

theorem Saved.congr (h : Saved size heap r) (he : ∀ q,r.stack=.block q → heap' q=heap q) :
    Saved size heap' r := by
  have hc : contents heap' r.stack=contents heap r.stack := contents_congr he
  exact ⟨h.fits,hc ▸ h.capacity,h.own,hc ▸ h.copy⟩

/-- The record of `c` and its buffer are replaced; the buffers of the others are
left alone. -/
theorem Sound.put (h : Sound size w) (hlen : stack.length=size)
    (hkeep : ∀ d r' q,d≠c → w.co d=some r' → r'.stack=.block q → heap q=w.heap q)
    (hsaved : r.ownstack=false → Saved size heap r)
    (hblock : ∀ q,r.stack=.block q → heap q≠none ∧
      ∀ d r',d≠c → w.co d=some r' → r'.stack≠.block q)
    (hwait : r.new=false → r.idle=false → curr≠some c → r.atYield≠none)
    (hcurr : ∀ d≠c,curr≠some d → w.curr≠some d) :
    Sound size (put {w with stack := stack,heap := heap,curr := curr} c r) := by
  have hco : ∀ d r',(SharedStack.put {w with stack := stack,heap := heap,curr := curr} c r).co d=
      some r' → d=c ∧ r'=r ∨ d≠c ∧ w.co d=some r' := by
    intro d r' hd
    by_cases hdc : d=c
    · subst hdc
      exact .inl ⟨rfl,Option.some.inj (hd.symm.trans (Function.update_self ..))⟩
    · exact .inr ⟨hdc,(Function.update_of_ne hdc ..).symm.trans hd⟩
  refine ⟨hlen,fun d r' hd ho => ?_,fun d r' q hd hq => ?_,fun d e r₁ r₂ q hd he h₁ h₂ => ?_,
    fun d r' hd hn hi hc => ?_⟩
  · rcases hco d r' hd with ⟨rfl,rfl⟩|⟨hdc,hd⟩
    · exact hsaved ho
    · exact (h.saved d r' hd ho).congr fun q hq => hkeep d r' q hdc hd hq
  · rcases hco d r' hd with ⟨rfl,rfl⟩|⟨hdc,hd⟩
    · exact (hblock q hq).1
    · exact (hkeep d r' q hdc hd hq).trans_ne (h.allocated d r' q hd hq)
  · rcases hco d r₁ hd with ⟨rfl,rfl⟩|⟨hdc,hd'⟩
    · rcases hco e r₂ he with ⟨rfl,rfl⟩|⟨hec,he'⟩
      · rfl
      · exact absurd h₂ ((hblock q h₁).2 e r₂ hec he')
    · rcases hco e r₂ he with ⟨rfl,rfl⟩|⟨hec,he'⟩
      · exact absurd h₁ ((hblock q h₂).2 d r₁ hdc hd')
      · exact h.distinct d e r₁ r₂ q hd' he' h₁ h₂
  · rcases hco d r' hd with ⟨rfl,rfl⟩|⟨hdc,hd⟩
    · exact hwait hn hi hc
    · exact h.waiting d r' hd hn hi (hcurr d hdc hc)

/-- Nobody else has the buffer of `c`. -/
theorem Sound.owner (h : Sound size w) (hc : w.co c=some r) (hq : r.stack=.block q) :
    w.heap q≠none ∧ ∀ d r',d≠c → w.co d=some r' → r'.stack≠.block q :=
  ⟨h.allocated c r q hc hq,fun d r' hd hr' hq' => hd (h.distinct d c r' r q hr' hc hq' hq)⟩

/-- The record of `c` is replaced by one with the same buffer. -/
theorem Sound.update {r' : Co} (h : Sound size w) (hc : w.co c=some r) (hlen : stack.length=size)
    (hs : r'.stack=r.stack) (hsaved : r'.ownstack=false → Saved size w.heap r')
    (hwait : r'.new=false → r'.idle=false → curr≠some c → r'.atYield≠none)
    (hcurr : ∀ d≠c,curr≠some d → w.curr≠some d) :
    Sound size (SharedStack.put {w with stack := stack,curr := curr} c r') := by
  show Sound size (SharedStack.put {w with stack := stack,heap := w.heap,curr := curr} c r')
  exact h.put hlen (fun _ _ _ _ _ _ => rfl) hsaved (fun _ hq => h.owner hc (hs ▸ hq)) hwait hcurr

/-- A coroutine is freed with its buffer. -/
theorem Sound.freecoro (h : Sound size w) (hc : w.co c=some r)
    (hcurr : ∀ d≠c,curr≠some d → w.curr≠some d) :
    Sound size {freecoro w c r with curr := curr} := by
  have hco : ∀ d r',(SharedStack.freecoro w c r).co d=some r' → d≠c ∧ w.co d=some r' := by
    intro d r' hd
    have hdc : d≠c := by
      rintro rfl
      cases (Function.update_self ..).symm.trans hd
    exact ⟨hdc,(Function.update_of_ne hdc ..).symm.trans hd⟩
  have hkeep : ∀ d r' q,d≠c → w.co d=some r' → r'.stack=.block q →
      (SharedStack.freecoro w c r).heap q=w.heap q := by
    intro d r' q hdc hd hq
    simp only [SharedStack.freecoro]
    split_ifs
    · cases hs : r.stack with
      | block p =>
        have hqp : q≠p := fun he => hdc (h.distinct d c r' r q hd hc hq (he ▸ hs))
        exact Function.update_of_ne hqp ..
      | null => rfl
      | user => rfl
    · rfl
  refine ⟨h.length,fun d r' hd ho => ?_,fun d r' q hd hq => ?_,fun d e r₁ r₂ q hd he h₁ h₂ => ?_,
    fun d r' hd hn hi hc' => ?_⟩
  · obtain ⟨hdc,hd⟩ := hco d r' hd
    exact (h.saved d r' hd ho).congr fun q hq => hkeep d r' q hdc hd hq
  · obtain ⟨hdc,hd⟩ := hco d r' hd
    exact (hkeep d r' q hdc hd hq).trans_ne (h.allocated d r' q hd hq)
  · exact h.distinct d e r₁ r₂ q (hco d r₁ hd).2 (hco e r₂ he).2 h₁ h₂
  · obtain ⟨hdc,hd⟩ := hco d r' hd
    exact h.waiting d r' hd hn hi (hcurr d hdc hc')

/-- The part of the record that `savestk` writes. -/
def savedRecord (r : Co) (q cursize : ℕ) : Co :=
  {r with stack := .block q,stackSize := cursize,allocstackmem := true}

/-- What `savestk` leaves on the heap for `c`: a buffer at `q` that nobody else has,
with the used part of the stack in front. -/
structure CopiedOut (w : World) (c cursize q : ℕ) (heap : ℕ → Option (List UInt8)) : Prop where
  keep : ∀ d r' p,d≠c → w.co d=some r' → r'.stack=.block p → heap p=w.heap p
  allocated : heap q≠none
  owner : ∀ d r',d≠c → w.co d=some r' → r'.stack≠.block q
  capacity : cursize ≤ (contents heap (.block q)).length
  copy : (contents heap (.block q)).take cursize=topBytes cursize w.stack

/-- The copy itself, for a buffer that `c` alone has. -/
theorem copyOut_ok (hs : r.stack=.block q) (hlen : cursize ≤ (contents heap (.block q)).length)
    (hfit : cursize ≤ w.stack.length)
    (hkeep : ∀ d r' p,d≠c → w.co d=some r' → r'.stack=.block p → heap p=w.heap p)
    (howner : ∀ d r',d≠c → w.co d=some r' → r'.stack≠.block q) :
    ∃ heap',copyOut {w with heap := heap} c r cursize=
        .ok (put {w with heap := heap'} c (savedRecord r q cursize)) ∧
      CopiedOut w c cursize q heap' := by
  have htop : (topBytes cursize w.stack).length=cursize := length_topBytes hfit
  refine ⟨Function.update heap q
      (some (topBytes cursize w.stack++(contents heap (.block q)).drop cursize)),
    ?_,fun d r' p hd hr' hp => ?_,?_,howner,?_,?_⟩
  · simp only [copyOut,hs,savedRecord]
    rw [if_neg (not_or.mpr ⟨hlen.not_gt,hfit.not_gt⟩)]
  · have hpq : p≠q := fun he => howner d r' hd hr' (he ▸ hp)
    exact (Function.update_of_ne hpq ..).trans (hkeep d r' p hd hr' hp)
  · rw [Function.update_self]
    exact fun he => by cases he
  · simp [contents,htop]
  · simp [contents,List.take_left' htop]

/-- `savestk` within the scheduler stack copies the used part. -/
theorem Sound.savestk (h : Sound size w) (hc : w.co c=some r) (ho : r.ownstack=false)
    (h0 : 0<cursize) (hfit : cursize ≤ size) {x : Except Fault World}
    (hx : savestk w c r cursize q junk=some x) :
    ∃ p heap,x=.ok (SharedStack.put {w with heap := heap} c (savedRecord r p cursize)) ∧
      CopiedOut w c cursize p heap := by
  have hsaved := h.saved c r hc ho
  have hfit' : cursize ≤ w.stack.length := h.length ▸ hfit
  rw [SharedStack.savestk,if_neg (by rw [ho]; decide)] at hx
  by_cases hlt : r.stackSize<cursize
  · rw [if_pos hlt] at hx
    cases hre : realloc w.heap r.stack cursize q junk with
    | none =>
      rw [hre] at hx
      cases hx
    | some heap =>
      rw [hre] at hx
      cases hx
      simp only [realloc] at hre
      split_ifs at hre with hq
      cases hre
      have hkeep : ∀ d r' p,d≠c → w.co d=some r' → r'.stack=.block p →
          release w.heap r.stack p=w.heap p := by
        intro d r' p hd hr' hp
        cases hs : r.stack with
        | block b =>
          have hpb : p≠b := fun he => (h.owner hc hs).2 d r' hd hr' (he ▸ hp)
          exact Function.update_of_ne hpb ..
        | null => rfl
        | user => rfl
      have howner : ∀ d r',d≠c → w.co d=some r' → r'.stack≠.block q := by
        intro d r' hd hr' hp
        exact h.allocated d r' q hr' hp ((hkeep d r' q hd hr' hp).symm.trans hq.1)
      have hlen : cursize ≤ (contents (Function.update (release w.heap r.stack) q
          (some ((contents w.heap r.stack++junk).take cursize))) (.block q)).length := by
        simp only [contents,Function.update_self,Option.getD_some]
        exact hq.2.ge
      have hkeep' : ∀ d r' p,d≠c → w.co d=some r' → r'.stack=.block p →
          Function.update (release w.heap r.stack) q
            (some ((contents w.heap r.stack++junk).take cursize)) p=w.heap p := by
        intro d r' p hd hr' hp
        have hpq : p≠q := fun he => howner d r' hd hr' (he ▸ hp)
        exact (Function.update_of_ne hpq ..).trans (hkeep d r' p hd hr' hp)
      obtain ⟨heap',hcopy,hout⟩ := copyOut_ok (r := {r with stack := .block q}) rfl hlen hfit' hkeep'
        howner
      exact ⟨q,heap',hcopy,hout⟩
  · rw [if_neg hlt] at hx
    cases hx
    have hle : cursize ≤ r.stackSize := Nat.le_of_not_lt hlt
    cases hs : r.stack with
    | block b =>
      have hlen : cursize ≤ (contents w.heap (.block b)).length :=
        hle.trans (hs ▸ hsaved.capacity)
      obtain ⟨heap',hcopy,hout⟩ := copyOut_ok hs hlen hfit' (fun _ _ _ _ _ _ => rfl)
        (h.owner hc hs).2
      exact ⟨b,heap',hcopy,hout⟩
    | null =>
      have hcap := hsaved.capacity
      rw [hs] at hcap
      have hzero : r.stackSize ≤ 0 := hcap
      omega
    | user => exact absurd hs hsaved.own

/-- The coroutine is suspended with its part of the stack saved. -/
theorem Sound.suspend {p : ℕ} (h : Sound size w) (hfit : cursize ≤ size)
    (hcurr : w.curr=some c) (hout : CopiedOut w c cursize p heap) :
    Sound size (suspend (SharedStack.put {w with heap := heap} c (savedRecord r p cursize)) c) := by
  have heq : SharedStack.suspend (SharedStack.put {w with heap := heap} c
      (savedRecord r p cursize)) c=
      SharedStack.put {w with stack := w.stack,heap := heap,curr := none} c
        {savedRecord r p cursize with atYield := some w.stack} := by
    simp [SharedStack.suspend,SharedStack.put]
  rw [heq]
  refine h.put h.length hout.keep (fun _ => ?_) (fun q hq => ?_) (fun _ _ _ he => by cases he)
    fun d hd _ he => hd (Option.some.inj (he.symm.trans hcurr))
  · refine ⟨hfit,hout.capacity,Buffer.noConfusion,fun _ s hs => ?_⟩
    cases hs
    exact ⟨h.length,hout.copy⟩
  · cases hq
    exact ⟨hout.allocated,hout.owner⟩

/-- A coroutine with its own stack is suspended. -/
theorem Sound.suspend_own (h : Sound size w) (hc : w.co c=some r) (ho : r.ownstack=true)
    (hcurr : w.curr=some c) : Sound size (SharedStack.suspend w c) := by
  have heq : SharedStack.suspend w c=
      SharedStack.put {w with stack := w.stack,curr := none} c {r with atYield := some w.stack} := by
    simp [SharedStack.suspend,SharedStack.put,hc]
  rw [heq]
  exact h.update hc h.length rfl (fun ho' => by cases ho.symm.trans ho') (fun _ _ _ he => by cases he)
    fun d hd _ he => hd (Option.some.inj (he.symm.trans hcurr))

/-- A yield or a stop that goes through. -/
theorem Sound.save (h : Sound size w) (hc : w.co c=some r) (hcurr : w.curr=some c) (h0 : cursize≠0)
    {x : Except Fault World} (hx : SharedStack.savestk w c r cursize q junk=some x)
    (ht : (x.map fun w => SharedStack.suspend w c)=.ok t) : Sound size t := by
  obtain ⟨w',rfl,rfl⟩ := map_eq_ok ht
  by_cases ho : r.ownstack=true
  · simp only [SharedStack.savestk,ho,if_true,Option.some.injEq,Except.ok.injEq] at hx
    rw [← hx]
    exact h.suspend_own hc ho hcurr
  have ho' : r.ownstack=false := Bool.eq_false_of_not_eq_true ho
  by_cases hfit : cursize ≤ size
  · obtain ⟨p,heap,hw,hout⟩ := h.savestk hc ho' (Nat.pos_of_ne_zero h0) hfit hx
    cases hw
    exact h.suspend hfit hcurr hout
  · -- the copy would begin below the scheduler stack
    exfalso
    have hlt : w.stack.length<cursize := h.length ▸ Nat.lt_of_not_le hfit
    have hfault : ∀ heap r' w',copyOut {w with heap := heap} c r' cursize≠.ok w' := by
      intro heap r' w' he
      unfold copyOut at he
      split at he
      · rw [if_pos (.inr hlt)] at he
        cases he
      · cases he
    rw [SharedStack.savestk,if_neg ho] at hx
    split_ifs at hx
    · cases hre : realloc w.heap r.stack cursize q junk with
      | none =>
        rw [hre] at hx
        cases hx
      | some heap =>
        rw [hre] at hx
        exact hfault _ _ _ (Option.some.inj hx)
    · exact hfault _ _ _ (Option.some.inj hx)

/-- The running coroutine goes away. -/
theorem Sound.leave (h : Sound size w) (hc : w.co c=some r) (hcurr : w.curr=some c) :
    Sound size (leave w c r) := by
  have hother : ∀ d≠c,w.curr≠some d := fun d hd he => hd (Option.some.inj (he.symm.trans hcurr))
  unfold SharedStack.leave
  split_ifs
  · refine h.update hc h.length rfl (fun ho => ?_) (fun _ hi => by cases hi) fun d hd _ => hother d hd
    have hs := h.saved c r hc ho
    exact ⟨hs.fits,hs.capacity,hs.own,hs.copy⟩
  · exact h.freecoro hc fun d hd _ => hother d hd

/-- The stack of a new coroutine is set. -/
theorem Sound.setStack {arg : StackArg} (h : Sound size w) (hn : r.new=true)
    (ht : SharedStack.setStack w c r arg=some t) : Sound size t := by
  have hnew : ∀ P : Prop,r.new=false → P := fun P he => by cases hn.symm.trans he
  cases arg with
  | none =>
    cases ht
    exact h.put h.length (fun _ _ _ _ _ _ => rfl)
      (fun _ => ⟨Nat.zero_le _,Nat.zero_le _,Buffer.noConfusion,hnew _⟩)
      (fun _ => Buffer.noConfusion) (hnew _) fun _ _ hd => hd
  | alloc q bytes =>
    simp only [SharedStack.setStack] at ht
    split_ifs at ht with hq
    cases ht
    have hfree : ∀ d r',w.co d=some r' → r'.stack≠.block q := fun d r' hd hp =>
      h.allocated d r' q hd hp hq
    refine h.put h.length (fun d r' p _ hd hp => ?_) (fun ho => by cases ho) (fun p hp => ?_) (hnew _)
      fun _ _ hd => hd
    · have hpq : p≠q := fun he => hfree d r' hd (he ▸ hp)
      exact Function.update_of_ne hpq ..
    · cases hp
      rw [Function.update_self]
      exact ⟨Option.some_ne_none _,fun d r' _ hd => hfree d r' hd⟩
  | user n =>
    cases ht
    exact h.put h.length (fun _ _ _ _ _ _ => rfl) (fun ho => by cases ho)
      (fun _ => Buffer.noConfusion) (hnew _) fun _ _ hd => hd

theorem put_self (hc : w.co c=some r) : put w c r=w := by
  rw [put,← hc,Function.update_eq_self]

/-- The running coroutine writes to its live part of the stack. -/
theorem Sound.write (h : Sound size w) (hc : w.co c=some r) (ht : write w r bytes=some t) :
    Sound size t := by
  by_cases ho : r.ownstack=true
  · rw [SharedStack.write,if_pos ho] at ht
    cases hs : r.stack with
    | block q =>
      rw [hs] at ht
      simp only at ht
      split_ifs at ht
      cases ht
      rw [← put_self (w := {w with heap := Function.update w.heap q (some bytes)}) hc]
      refine h.put h.length (fun d r' p hd hr' hp => ?_) (fun ho' => by cases ho.symm.trans ho')
        (fun p hp => ?_) (h.waiting c r hc) fun _ _ hd => hd
      · have hpq : p≠q := fun he => (h.owner hc hs).2 d r' hd hr' (he ▸ hp)
        exact Function.update_of_ne hpq ..
      · cases hs.symm.trans hp
        rw [Function.update_self]
        exact ⟨Option.some_ne_none _,(h.owner hc hs).2⟩
    | null =>
      rw [hs] at ht
      cases ht
      exact h
    | user =>
      rw [hs] at ht
      cases ht
      exact h
  · rw [SharedStack.write,if_neg ho] at ht
    split_ifs at ht with hfit
    cases ht
    exact ⟨(length_writeTop hfit).trans h.length,h.saved,h.allocated,h.distinct,h.waiting⟩

/-- `loadstk` finds the buffer. -/
theorem Sound.loadstk (h : Sound size w) (hc : w.co c=some r) (ho : r.ownstack=false) :
    loadstk w r=.ok (writeTop w.stack ((contents w.heap r.stack).take r.stackSize)) := by
  have hs := h.saved c r hc ho
  have hfit : r.stackSize ≤ w.stack.length := h.length ▸ hs.fits
  rw [SharedStack.loadstk,if_neg (by rw [ho]; decide)]
  exact if_neg (not_or.mpr ⟨hs.capacity.not_gt,hfit.not_gt⟩)

/-- A coroutine is resumed. -/
theorem Sound.resume {frame : List UInt8} (h : Sound size w) (hc : w.co c=some r)
    (hcurr : w.curr=none) (hf : frame.length ≤ w.stack.length)
    (ht : resume w c r frame=.ok t) : Sound size t := by
  obtain ⟨stack,hs,rfl⟩ := map_eq_ok ht
  have hlen : stack.length=size := by
    rw [← h.length]
    unfold prepare at hs
    split_ifs at hs with hn
    · cases hs
      unfold initCoro
      split_ifs
      · rfl
      · exact length_writeTop hf
    · by_cases ho : r.ownstack=true
      · rw [SharedStack.loadstk,if_pos ho] at hs
        cases hs
        rfl
      · have ho' : r.ownstack=false := Bool.eq_false_of_not_eq_true ho
        cases (h.loadstk hc ho').symm.trans hs
        refine length_writeTop ((List.length_take_le ..).trans ?_)
        exact h.length ▸ (h.saved c r hc ho').fits
  refine h.update hc hlen rfl (fun ho => ?_) (fun _ _ hne => absurd rfl hne)
    fun d _ _ => hcurr ▸ (Option.some_ne_none d).symm
  have hs := h.saved c r hc ho
  exact ⟨hs.fits,hs.capacity,hs.own,fun _ s he => by cases he⟩

theorem running_eq {p : ℕ×Co} (h : running w=some p) : w.curr=some p.1 ∧ w.co p.1=some p.2 := by
  obtain ⟨c,hc,h⟩ := Option.bind_eq_some_iff.mp h
  obtain ⟨r,hr,rfl⟩ := Option.map_eq_some_iff.mp h
  exact ⟨hc,hr⟩

/-- Every step keeps the buffers apart and the copies up to date. -/
theorem Sound.step (h : Sound size w) (ha : step w a=some (.ok t)) : Sound size t := by
  cases a with
  | create c incoropool =>
    simp only [SharedStack.step] at ha
    split_ifs at ha
    cases ha
    exact h.put h.length (fun _ _ _ _ _ _ => rfl)
      (fun _ => ⟨Nat.zero_le _,Nat.zero_le _,Buffer.noConfusion,fun hn => by cases hn⟩)
      (fun _ => Buffer.noConfusion) (fun hn => by cases hn) fun _ _ hd => hd
  | setStack c arg =>
    simp only [SharedStack.step] at ha
    split at ha
    · next r hc =>
      split_ifs at ha with hn
      obtain ⟨t,ht,hok⟩ := Option.map_eq_some_iff.mp ha
      cases hok
      exact h.setStack hn ht
    · cases ha
  | obtain c =>
    simp only [SharedStack.step] at ha
    split at ha
    · next r hc =>
      split_ifs at ha
      cases ha
      refine h.update hc h.length rfl (fun ho => ?_) (fun hn => by cases hn) fun _ _ hd => hd
      have hs := h.saved c r hc ho
      exact ⟨hs.fits,hs.capacity,hs.own,fun hn => by cases hn⟩
    · cases ha
  | drop c =>
    simp only [SharedStack.step] at ha
    split at ha
    · next r hc =>
      split_ifs at ha
      cases ha
      exact h.freecoro hc fun _ _ hd => hd
    · cases ha
  | resume c frame =>
    simp only [SharedStack.step] at ha
    split at ha
    · next r hc =>
      split_ifs at ha with hg
      exact h.resume hc hg.1 hg.2.2 (Option.some.inj ha)
    · cases ha
  | write bytes =>
    obtain ⟨⟨c,r⟩,hr,ha⟩ := Option.bind_eq_some_iff.mp ha
    obtain ⟨t,ht,hok⟩ := Option.map_eq_some_iff.mp ha
    cases hok
    exact h.write (running_eq hr).2 ht
  | yield cursize q junk =>
    obtain ⟨⟨c,r⟩,hr,ha⟩ := Option.bind_eq_some_iff.mp ha
    simp only at ha
    split_ifs at ha with h0
    · cases ha
      exact h.leave (running_eq hr).2 (running_eq hr).1
    · obtain ⟨x,hx,ht⟩ := Option.map_eq_some_iff.mp ha
      exact h.save (running_eq hr).2 (running_eq hr).1 h0 hx ht
  | stop cursize q junk =>
    obtain ⟨⟨c,r⟩,hr,ha⟩ := Option.bind_eq_some_iff.mp ha
    simp only at ha
    split_ifs at ha with h0
    obtain ⟨x,hx,ht⟩ := Option.map_eq_some_iff.mp ha
    exact h.save (running_eq hr).2 (running_eq hr).1 h0 hx ht
  | exit =>
    obtain ⟨⟨c,r⟩,hr,hok⟩ := Option.map_eq_some_iff.mp ha
    cases hok
    exact h.leave (running_eq hr).2 (running_eq hr).1

theorem sound_of_reachable (h : Reachable size w) : Sound size w := by
  refine h.invariant (Sound size) ⟨List.length_replicate ..,?_,?_,?_,?_⟩ fun _ _ _ hi _ ha => hi.step ha
  · exact fun c r hc => by cases hc
  · exact fun c r q hc => by cases hc
  · exact fun c d r r' q hc => by cases hc
  · exact fun c r hc => by cases hc

/-- Nothing that `yield` copies leaves the stack or the buffer. -/
theorem Sound.yield_ne_error (h : Sound size w) (e : Fault) :
    SharedStack.step w (.yield cursize q junk)≠some (.error e) := by
  intro ha
  obtain ⟨⟨c,r⟩,hr,ha⟩ := Option.bind_eq_some_iff.mp ha
  simp only at ha
  split_ifs at ha with h0 hover
  · cases ha
  · obtain ⟨x,hx,ht⟩ := Option.map_eq_some_iff.mp ha
    by_cases ho : r.ownstack=true
    · simp only [SharedStack.savestk,ho,if_true,Option.some.injEq] at hx
      rw [← hx] at ht
      cases ht
    · have ho' : r.ownstack=false := Bool.eq_false_of_not_eq_true ho
      have hfit : cursize ≤ size := by
        simpa [checkstk,ho',h.length] using hover
      obtain ⟨p,heap,hw,-⟩ :=
        h.savestk (running_eq hr).2 ho' (Nat.pos_of_ne_zero h0) hfit hx
      rw [hw] at ht
      cases ht

/-- For every interleaving of any coroutines, with their own stack or on the
scheduler stack, and every one of the latter: the recorded size fits into the
scheduler stack and into the buffer, no yield copies beyond either, and when the
coroutine is resumed after a yield the top bytes of the scheduler stack, as many as
were recorded, are what they were at that yield. -/
theorem shared_stack_isolated (h : Reachable size w) (hc : w.co c=some r) (ho : r.ownstack=false) :
    r.stackSize ≤ size ∧ r.stackSize ≤ (contents w.heap r.stack).length ∧
    (∀ cursize q junk e,step w (.yield cursize q junk)≠some (.error e)) ∧
    (r.new=false → r.idle=false → w.curr=none → ∀ frame,frame.length ≤ size →
      ∃ s t,r.atYield=some s ∧ step w (.resume c frame)=some (.ok t) ∧
        topBytes r.stackSize t.stack=topBytes r.stackSize s) := by
  have hi : Sound size w := sound_of_reachable h
  have hs := hi.saved c r hc ho
  refine ⟨hs.fits,hs.capacity,fun _ _ _ e => hi.yield_ne_error e,fun hn hidle hcurr frame hf => ?_⟩
  obtain ⟨s,hy⟩ := Option.ne_none_iff_exists'.mp
    (hi.waiting c r hc hn hidle (hcurr ▸ (Option.some_ne_none c).symm))
  have hlen : ((contents w.heap r.stack).take r.stackSize).length=r.stackSize :=
    List.length_take_of_le hs.capacity
  have hfit : ((contents w.heap r.stack).take r.stackSize).length ≤ w.stack.length :=
    hlen.le.trans (hi.length ▸ hs.fits)
  have hstack : prepare w r frame=
      .ok (writeTop w.stack ((contents w.heap r.stack).take r.stackSize)) := by
    rw [prepare,if_neg (by rw [hn]; decide),hi.loadstk hc ho]
  have hstep : step w (.resume c frame)=some (resume w c r frame) := by
    simp only [step,hc]
    exact if_pos ⟨hcurr,hidle,hi.length ▸ hf⟩
  rw [resume,hstack] at hstep
  have htop := topBytes_writeTop hfit
  rw [hlen] at htop
  exact ⟨s,_,hy,hstep,htop.trans (hs.copy hn s hy).2⟩

/-- Two coroutines on a stack of 8 bytes: 0 writes four bytes and yields at depth 3,
1 overwrites them, and 0 comes back. -/
def overwritten : List Act :=
  [.create 0 false,.create 1 false,.resume 0 [9],.write [1,2,3,4],.yield 3 0 [0,0,0],
    .resume 1 [9],.write [5,6,7,8,9],.stop 5 1 [0,0,0,0,0]]

/-- The first of the two finds its three bytes. -/
theorem shared_stack_isolated_overwritten :
    ∃ w r t,Reachable 8 w ∧ w.co 0=some r ∧ r.ownstack=false ∧ r.stackSize=3 ∧
      topBytes 3 w.stack=[7,8,9] ∧ step w (.resume 0 [])=some (.ok t) ∧
      topBytes 3 t.stack=[2,3,4] := by
  let r : Co := ⟨false,false,true,false,false,.block 0,3,some [0,0,0,0,1,2,3,4]⟩
  have h : (replay step (newWorld 8) overwritten).map
      (fun w => (w.co 0,w.curr,topBytes 3 w.stack))=some (some r,none,[7,8,9]) := by decide +kernel
  obtain ⟨w,hw,hq⟩ := Option.map_eq_some_iff.mp h
  simp only [Prod.mk.injEq] at hq
  obtain ⟨hc,hcurr,hstack⟩ := hq
  obtain ⟨-,-,-,hresume⟩ := shared_stack_isolated (runs_of_replay hw) hc rfl
  obtain ⟨s,t,hs,ht,htop⟩ := hresume rfl rfl hcurr [] (Nat.zero_le _)
  cases hs
  exact ⟨w,r,t,runs_of_replay hw,hc,rfl,rfl,hstack,ht,htop⟩

end DycoCoroutine.SharedStack
