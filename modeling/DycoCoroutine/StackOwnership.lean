import DycoCoroutine.RunInvariant
import DycoCoroutine.ScheduleState

/-!
# Who owns the stack of a coroutine

`co->stack` is the stack of a coroutine that has one of its own, allocated by the
library or supplied by the program, and otherwise the buffer into which `savestk`
copies the scheduler stack. Two bits say which it is, OWNSTACK and ALLOCSTACKMEM, and
the second decides whether `freecoro` and `dyco_asymcoro_free` release the memory. No
function clears it. The calls on the coroutines come in any order here, and what they
write to the other fields is arbitrary; allocations succeed.
-/

namespace DycoCoroutine.StackOwnership

open ScheduleState RunInvariant

/-- `dyco_coroutine_status`, the bits of the status word. -/
inductive Flag
  | new
  | ready
  | exited
  | running
  | sleeping
  | schedcall
  | killed
  | urgent
  | ownstack
  | allocstackmem
  | waiting
  | expired
  | iomultiplexing
  | waitsignal
  | incoropool
  | asymmetric
  deriving DecidableEq

/-- What `co->stack` points to: nothing, a block of the heap, or memory of the program. -/
inductive Buffer
  | null
  | block (q : ℕ)
  | user (addr : ℕ)
  deriving DecidableEq

/-- Who has allocated a block. -/
inductive Origin
  /-- `cp_create` -/
  | pool
  /-- `dyco_coroutine_setStack` -/
  | call
  /-- `savestk` -/
  | save
  deriving DecidableEq

/-- `struct dyco_coroutine`, less its contexts, its signal mask and its links, which are
written before they are read. -/
structure Coro where
  /-- `func` -/
  func : ℕ
  /-- `arg` -/
  arg : ℕ
  /-- `status` -/
  status : Flag → Bool
  /-- `stack` -/
  stack : Buffer
  /-- `stack_size` -/
  stackSize : ℕ
  /-- `sched_count` -/
  schedCount : ℕ
  /-- `sleep_usecs` -/
  sleepUsecs : ℕ
  /-- `cid` -/
  cid : ℤ
  /-- `cpool` -/
  cpool : Option ℕ
  /-- `udata` -/
  udata : Option ℕ
  /-- `epollfd` -/
  epollfd : ℤ
  /-- `sigfd` -/
  sigfd : ℤ
  /-- Whether `cid_co_map` has the coroutine under its cid. -/
  registered : Bool

/-- The coroutines of a scheduler, its pools and the blocks of the heap. -/
structure World where
  /-- `sched_id` -/
  schedId : ℕ
  /-- `_cid_gen` -/
  cidGen : ℕ
  /-- Result of `getpagesize`. -/
  pageSize : ℕ
  /-- The coroutine objects that are allocated. -/
  co : ℕ → Option Coro
  /-- The next object. -/
  nextCo : ℕ
  /-- The pools. -/
  pools : ℕ → Option CoroPool
  /-- The next pool. -/
  nextPool : ℕ
  /-- The allocated blocks: for which coroutine, and by whom. -/
  heap : ℕ → Option (ℕ×Origin)
  /-- The next block. -/
  nextBlock : ℕ
  /-- What `free` and `realloc` have been called with. -/
  released : List Buffer

/-- A scheduler without coroutines and pools. -/
def newWorld (schedId pageSize : ℕ) : World :=
  ⟨schedId,0,pageSize,fun _ => none,0,fun _ => none,0,fun _ => none,0,[]⟩

/-- SETBIT -/
@[simps] def Coro.setbit (r : Coro) (f : Flag) : Coro :=
  {r with status := Function.update r.status f true}

/-- CLRBIT -/
@[simps] def Coro.clrbit (r : Coro) (f : Flag) : Coro :=
  {r with status := Function.update r.status f false}

/-- Replace the record of a coroutine. -/
@[simps] def put (w : World) (c : ℕ) (r : Coro) : World :=
  {w with co := Function.update w.co c (some r)}

/-- `free` of a buffer. -/
def release (heap : ℕ → Option (ℕ×Origin)) : Buffer → ℕ → Option (ℕ×Origin)
  | .block q => Function.update heap q none
  | _ => heap

/-- A new block for the coroutine `c`. -/
@[simps] def allocate (w : World) (c : ℕ) (origin : Origin) : World :=
  {w with heap := Function.update w.heap w.nextBlock (some (c,origin)),nextBlock := w.nextBlock+1}

/-- The cid that is handed out next. -/
def World.nextCid (w : World) : ℤ := cidOf w.schedId ((w.cidGen+1)%2^24)

/-- `newcoro` -/
def newcoro : Coro where
  func := 0
  arg := 0
  status f := f=.new ∨ f=.ready
  stack := .null
  stackSize := 0
  schedCount := 0
  sleepUsecs := 0
  cid := 0
  cpool := none
  udata := none
  epollfd := -1
  sigfd := -1
  registered := false

/-- The record of a coroutine that is created with this cid. -/
def createRecord (cid : ℤ) (func arg : ℕ) (isasymmetric isurgent : Bool) : Coro :=
  {newcoro with
    func := func
    arg := arg
    cid := cid
    registered := true
    status := fun f => f=.new ∨ f=.ready ∨ f=.asymmetric ∧ isasymmetric=true ∨
      f=.urgent ∧ isurgent=true ∧ isasymmetric=false}

/-- `dyco_coroutine_create`, `dyco_coroutine_create_urgent` and `dyco_asymcoro_create` -/
def createCoro (w : World) (func arg : ℕ) (isasymmetric isurgent : Bool) : World :=
  put {w with nextCo := w.nextCo+1,cidGen := (w.cidGen+1)%2^24} w.nextCo
    (createRecord w.nextCid func arg isasymmetric isurgent)

/-- `dyco_coroutine_setStack` and `coro_setstack` on a coroutine that is new. -/
def coroSetstack (w : World) (c : ℕ) (r : Coro) (origin : Origin) (stackptr : Option ℕ)
    (stacksize : ℕ) : ℤ×World :=
  if stacksize=0 then (0,put w c ({r with stack := .null,stackSize := 0}.clrbit .ownstack))
  else match stackptr with
    | none =>
      let stackSize := stacksize+stacksize%w.pageSize
      (1,put (allocate w c origin) c
        (({r with stack := .block w.nextBlock,stackSize := stackSize}.setbit .ownstack).setbit
          .allocstackmem))
    | some addr => (1,put w c ({r with stack := .user addr,stackSize := stacksize}.setbit .ownstack))

/-- Whether `dyco_coroutine_setStack` gets past its check. -/
def Coro.settable (r : Coro) : Bool := r.registered && r.status .new

/-- `dyco_coroutine_setStack` -/
def dycoCoroutineSetStack (w : World) (c : ℕ) (stackptr : Option ℕ) (stacksize : ℕ) : ℤ×World :=
  match w.co c with
  | none => (-1,w)
  | some r => if r.settable then coroSetstack w c r .call stackptr stacksize else (-1,w)

/-- Change the record of a coroutine. -/
@[simps] def modify (w : World) (c : ℕ) (f : Coro → Coro) : World :=
  {w with co := Function.update w.co c ((w.co c).map f)}

/-- The record that the loop of `cp_create` gives a coroutine at last. -/
def pooled (p : ℕ) (r : Coro) : Coro := {r.setbit .incoropool with cpool := some p}

/-- The record of a coroutine that is to come into a pool. -/
def poolRecord (isasymmetric : Bool) : Coro :=
  if isasymmetric then newcoro.setbit .asymmetric else newcoro

/-- The new object of the loop of `cp_create` and its stack. -/
def cpNew (stacksize : ℕ) (isasymmetric : Bool) (w : World) : World :=
  let added := put {w with nextCo := w.nextCo+1} w.nextCo (poolRecord isasymmetric)
  if isasymmetric=true ∨ 0<stacksize then
    (coroSetstack added w.nextCo (poolRecord isasymmetric) .pool none stacksize).2
  else added

/-- One round of the loop of `cp_create`. -/
def cpAdd (p stacksize : ℕ) (isasymmetric : Bool) (w : World) : World :=
  let added := modify (cpNew stacksize isasymmetric w) w.nextCo (pooled p)
  {added with pools := Function.update added.pools p ((added.pools p).map fun cp =>
    {cp with freelist := w.nextCo::cp.freelist})}

/-- `cp_create` -/
def cpCreate (w : World) (totalsize : ℤ) (stacksize : ℕ) (isasymmetric : Bool) : World :=
  if totalsize≤0 then w
  else (cpAdd w.nextPool stacksize isasymmetric)^[totalsize.toNat] {w with
    pools := Function.update w.pools w.nextPool (some ⟨totalsize,0,stacksize,[]⟩)
    nextPool := w.nextPool+1}

/-- The status word that `cp_obtain` builds. -/
def newstatus (r : Coro) (isasymmetric isurgent : Bool) : Flag → Bool
  | .new => true
  | .ready => true
  | .incoropool => true
  | .ownstack => r.status .ownstack
  | .allocstackmem => r.status .allocstackmem
  | .asymmetric => isasymmetric
  | .urgent => isurgent && !isasymmetric
  | _ => false

/-- The record that `cp_obtain` makes of a pooled one. -/
def renewRecord (r : Coro) (cid : ℤ) (func arg : ℕ) (isasymmetric isurgent : Bool) : Coro :=
  {r with
    func := func
    arg := arg
    status := newstatus r isasymmetric isurgent
    schedCount := 0
    sleepUsecs := 0
    udata := none
    epollfd := -1
    sigfd := -1
    cid := cid
    registered := true}

/-- `cp_obtain` from the point where `cp_wait` returns the number of available
coroutines. -/
def cpObtain (w : World) (p func arg : ℕ) (isasymmetric isurgent : Bool) : Except Fault World :=
  match w.pools p with
  | none => .error .undefined
  | some cp =>
    if cp.totalsize-cp.activenum≤0 then .ok w
    else match cp.freelist with
      | [] => .error .undefined
      | c::rest => match w.co c with
        | none => .error .undefined
        | some r =>
          let cp := {cp with freelist := rest,activenum := cp.activenum+1}
          .ok (put {w with
            pools := Function.update w.pools p (some cp)
            cidGen := (w.cidGen+1)%2^24} c (renewRecord r w.nextCid func arg isasymmetric isurgent))

/-- `cp_return` -/
def cpReturn (w : World) (c : ℕ) (r : Coro) : Except Fault World :=
  match r.cpool with
  | none => .ok w
  | some p => match w.pools p with
    | none => .error .undefined
    | some cp =>
      let cp := {cp with freelist := c::cp.freelist,activenum := cp.activenum-1}
      .ok (put {w with pools := Function.update w.pools p (some cp)} c
        {r.clrbit .urgent with registered := false})

/-- `freecoro` and `dyco_asymcoro_free` -/
def freecoro (w : World) (c : ℕ) (r : Coro) : World :=
  if r.status .allocstackmem then
    {w with
      co := Function.update w.co c none
      heap := release w.heap r.stack
      released := w.released++[r.stack]}
  else {w with co := Function.update w.co c none}

/-- `init_coro`, or the return to a coroutine that is not new, and what follows. -/
def start (r : Coro) : Coro := {(r.clrbit .new).setbit .running with schedCount := r.schedCount+1}

/-- DYCO_MAX_STACKSIZE -/
def maxStacksize : ℕ := 64*1024

/-- `dyco_asymcororesume`, called in a coroutine (`inside`) or not: in one, a coroutine
without a stack of its own gets one. -/
def dycoAsymcororesume (w : World) (c : ℕ) (r : Coro) (inside : Bool) : World :=
  if r.status .asymmetric=false ∨ r.status .exited=true then w
  else if inside=true ∧ r.status .ownstack=false then
    modify (dycoCoroutineSetStack w c none maxStacksize).2 c start
  else modify w c start

/-- `savestk`, called with `cursize` bytes in use. -/
def savestk (w : World) (c : ℕ) (r : Coro) (cursize : ℕ) : World :=
  if r.status .ownstack then w
  else if r.stackSize<cursize then
    put {allocate {w with heap := release w.heap r.stack} c .save with
      released := w.released++[r.stack]} c
      ({r with stack := .block w.nextBlock,stackSize := cursize}.setbit .allocstackmem)
  else put w c ({r with stackSize := cursize}.setbit .allocstackmem)

/-- The bits that only the functions above write. -/
def ruled (f : Flag) : Bool :=
  f=.new ∨ f=.ownstack ∨ f=.allocstackmem ∨ f=.incoropool ∨ f=.asymmetric

/-- What running, waiting and the other calls may leave in a record. -/
structure Traces where
  /-- The bits that are set. -/
  flags : List Flag
  schedCount : ℕ
  sleepUsecs : ℕ
  udata : Option ℕ
  epollfd : ℤ
  sigfd : ℤ

/-- The record with the traces. -/
def mark (m : Traces) (r : Coro) : Coro :=
  {r with
    status := fun f => if ruled f then r.status f else f∈m.flags
    schedCount := m.schedCount
    sleepUsecs := m.sleepUsecs
    udata := m.udata
    epollfd := m.epollfd
    sigfd := m.sigfd}

/-- What can happen next. -/
inductive Act
  /-- A coroutine is created. -/
  | create (func arg : ℕ) (isasymmetric isurgent : Bool)
  /-- `cp_create` -/
  | poolCreate (totalsize : ℤ) (stacksize : ℕ) (isasymmetric : Bool)
  /-- `cp_obtain` -/
  | obtain (p func arg : ℕ) (isasymmetric isurgent : Bool)
  /-- `dyco_coroutine_setStack` and `dyco_asymcoro_setStack` -/
  | setStack (c : ℕ) (stackptr : Option ℕ) (stacksize : ℕ)
  /-- The scheduler resumes a coroutine. -/
  | resume (c : ℕ)
  /-- `dyco_asymcororesume` -/
  | asymResume (c : ℕ) (inside : Bool)
  /-- A coroutine that is not new yields. -/
  | yield (c cursize : ℕ)
  /-- Other calls. -/
  | mark (c : ℕ) (m : Traces)
  /-- `cp_return`: a coroutine of a pool exits, is killed or given back. -/
  | giveBack (c : ℕ)
  /-- `freecoro` or `dyco_asymcoro_free`: another one exits or is killed, or a pool
  shrinks. -/
  | free (c : ℕ)

/-- One step. -/
def step (w : World) : Act → Option (Except Fault World)
  | .create func arg isasymmetric isurgent =>
    some (.ok (createCoro w func arg isasymmetric isurgent))
  | .poolCreate totalsize stacksize isasymmetric =>
    some (.ok (cpCreate w totalsize stacksize isasymmetric))
  | .obtain p func arg isasymmetric isurgent => some (cpObtain w p func arg isasymmetric isurgent)
  | .setStack c stackptr stacksize => some (.ok (dycoCoroutineSetStack w c stackptr stacksize).2)
  | .resume c => (w.co c).map fun _ => .ok (modify w c start)
  | .asymResume c inside => (w.co c).map fun r => .ok (dycoAsymcororesume w c r inside)
  | .yield c cursize => (w.co c).bind fun r =>
    if r.status .new then none else some (.ok (savestk w c r cursize))
  | .mark c m => (w.co c).map fun _ => .ok (modify w c (mark m))
  | .giveBack c => (w.co c).map fun r => cpReturn w c r
  | .free c => (w.co c).map fun r => .ok (freecoro w c r)

/-! ## Buffers and their owners -/

variable {w t : World} {c d q stacksize cursize : ℕ} {r r' : Coro} {b : Buffer} {a : Act}
  {origin o : Origin} {stackptr : Option ℕ} {heap heap' : ℕ → Option (ℕ×Origin)}
  {f : Coro → Coro}

/-- The bits of a coroutine describe its buffer: memory of the program is the stack, and
not for the library to release; a block is one of this coroutine. -/
structure Held (heap : ℕ → Option (ℕ×Origin)) (c : ℕ) (r : Coro) : Prop where
  alloc : r.status .allocstackmem=true → ∀ addr,r.stack≠.user addr
  shared : r.status .ownstack=false → ∀ addr,r.stack≠.user addr
  block : ∀ q,r.stack=.block q → ∃ o,heap q=some (c,o)

/-- The library has the coroutines' blocks, and has released no memory of the
program. -/
structure Owned (w : World) : Prop where
  records : ∀ c r,w.co c=some r → Held w.heap c r
  below : ∀ q,w.nextBlock ≤ q → w.heap q=none
  released : ∀ addr,Buffer.user addr∉w.released

/-- A new scheduler has no coroutines and no blocks. -/
theorem owned_newWorld (schedId pageSize : ℕ) : Owned (newWorld schedId pageSize) :=
  ⟨fun _ _ hc => (nomatch hc),fun _ _ => rfl,fun _ ha => nomatch ha⟩

/-- What a coroutine holds stays held while its blocks stay allocated. -/
theorem Held.mono (h : Held heap c r) (hheap : ∀ q o,heap q=some (c,o) → heap' q=some (c,o)) :
    Held heap' c r := by
  refine ⟨h.alloc,h.shared,fun q hq => ?_⟩
  obtain ⟨o,ho⟩ := h.block q hq
  exact ⟨o,hheap q o ho⟩

/-- The same buffer and the same two bits. -/
def SameStack (r r' : Coro) : Prop :=
  r'.stack=r.stack ∧ r'.stackSize=r.stackSize ∧ r'.status .ownstack=r.status .ownstack ∧
    r'.status .allocstackmem=r.status .allocstackmem

/-- Records with the same stack hold the same. -/
theorem Held.same (h : Held heap c r) (hsame : SameStack r r') : Held heap c r' := by
  obtain ⟨hstack,-,hown,halloc⟩ := hsame
  refine ⟨fun hr addr => ?_,fun hr addr => ?_,fun q hq => h.block q (hstack.symm.trans hq)⟩
  · exact hstack.trans_ne (h.alloc (halloc.symm.trans hr) addr)
  · exact hstack.trans_ne (h.shared (hown.symm.trans hr) addr)

/-- A buffer that is a block of `c` or none at all. -/
def BlockOf (heap : ℕ → Option (ℕ×Origin)) (c : ℕ) (b : Buffer) : Prop :=
  ∀ q,b=.block q → ∃ o,heap q=some (c,o)

/-- `free` of a buffer of one coroutine leaves the blocks of the others. -/
theorem release_other (hb : BlockOf heap c b) (hd : d≠c) (hq : heap q=some (d,o)) :
    release heap b q=some (d,o) := by
  cases b with
  | null => exact hq
  | user addr => exact hq
  | block q' =>
    obtain ⟨o',ho'⟩ := hb q' rfl
    have hne : q≠q' := by
      rintro rfl
      exact hd (congrArg Prod.fst (Option.some.inj (hq.symm.trans ho')))
    exact (Function.update_of_ne hne ..).trans hq

/-- `free` allocates nothing. -/
theorem release_none (hq : heap q=none) : release heap b q=none := by
  cases b with
  | null => exact hq
  | user addr => exact hq
  | block q' =>
    by_cases hne : q=q'
    · subst hne
      exact Function.update_self ..
    · exact (Function.update_of_ne hne ..).trans hq

/-- A step on the coroutine `c`: the blocks of the others stay. -/
theorem Owned.change (h : Owned w)
    (hco : ∀ d r,t.co d=some r → d≠c ∧ w.co d=some r ∨ Held t.heap d r)
    (hheap : ∀ d q o,d≠c → w.heap q=some (d,o) → t.heap q=some (d,o))
    (hbelow : ∀ q,t.nextBlock ≤ q → t.heap q=none)
    (hreleased : ∀ addr,Buffer.user addr∉t.released) : Owned t := by
  refine ⟨fun d r hd => ?_,hbelow,hreleased⟩
  rcases hco d r hd with ⟨hdc,hd⟩|hheld
  · exact (h.records d r hd).mono fun q o hq => hheap d q o hdc hq
  · exact hheld

/-- The record that an update leaves under a number. -/
theorem update_cases {co : ℕ → Option Coro} {x : Option Coro}
    (h : Function.update co c x d=some r) : d≠c ∧ co d=some r ∨ d=c ∧ x=some r := by
  by_cases hdc : d=c
  · subst hdc
    rw [Function.update_self] at h
    exact .inr ⟨rfl,h⟩
  · rw [Function.update_of_ne hdc] at h
    exact .inl ⟨hdc,h⟩

/-- The record of `c` is replaced, and the heap stays. -/
theorem Owned.put (h : Owned w) (hr : Held w.heap c r) : Owned (put w c r) := by
  refine h.change (c := c) (fun d r' hd => ?_) (fun _ _ _ _ hq => hq) h.below h.released
  rcases update_cases hd with hd|⟨rfl,hr'⟩
  · exact .inl hd
  · cases hr'
    exact .inr hr

/-- A change of a record that leaves its stack alone. -/
theorem Owned.modify (h : Owned w) (hf : ∀ r,SameStack r (f r)) : Owned (modify w c f) := by
  refine h.change (c := c) (fun d r' hd => ?_) (fun _ _ _ _ hq => hq) h.below h.released
  rcases update_cases hd with hd|⟨rfl,hr'⟩
  · exact .inl hd
  · obtain ⟨r,hr,rfl⟩ := Option.map_eq_some_iff.mp hr'
    exact .inr ((h.records d r hr).same (hf r))

/-- The heap after an allocation: what was there is there, and the blocks to come are
not. -/
theorem allocate_spec (c : ℕ) (origin : Origin) (hbelow : ∀ q,w.nextBlock ≤ q → w.heap q=none) :
    (∀ d q o,w.heap q=some (d,o) → (allocate w c origin).heap q=some (d,o)) ∧
    ∀ q,w.nextBlock+1 ≤ q → (allocate w c origin).heap q=none := by
  refine ⟨fun d q o hq => ?_,fun q hq => ?_⟩
  · have hne : q≠w.nextBlock := by
      rintro rfl
      cases (hbelow _ le_rfl).symm.trans hq
    exact (Function.update_of_ne hne ..).trans hq
  · have hne : q≠w.nextBlock := by omega
    exact (Function.update_of_ne hne ..).trans (hbelow q (by omega))

/-- A new coroutine's stack is set. Memory of the program may only come to a coroutine
without the bit ALLOCSTACKMEM. -/
theorem Owned.coroSetstack (h : Owned w) (hr : Held w.heap c r)
    (hflag : stackptr.isSome=true → stacksize≠0 → r.status .allocstackmem=false) :
    Owned (coroSetstack w c r origin stackptr stacksize).2 := by
  unfold StackOwnership.coroSetstack
  split_ifs with hsize
  · exact h.put ⟨fun _ _ => nofun,fun _ _ => nofun,fun _ hq => nomatch hq⟩
  · cases stackptr with
    | none =>
      obtain ⟨hkeep,hfree⟩ := allocate_spec c origin h.below
      refine h.change (c := c) (fun d r' hd => ?_) (fun d q o _ hq => hkeep d q o hq) hfree
        h.released
      rcases update_cases hd with hd|⟨rfl,hr'⟩
      · exact .inl hd
      · cases hr'
        refine .inr ⟨fun _ _ => nofun,fun _ _ => nofun,fun q hq => ?_⟩
        cases hq
        exact ⟨origin,Function.update_self ..⟩
    | some addr =>
      refine h.put ⟨fun halloc => ?_,fun hown => ?_,fun _ hq => nomatch hq⟩
      · have hbit : r.status .allocstackmem=true := halloc
        rw [hflag rfl hsize] at hbit
        cases hbit
      · cases hown

/-- `savestk` gives the coroutine a larger block of its own, if any. -/
theorem Owned.savestk (h : Owned w) (hr : Held w.heap c r) : Owned (savestk w c r cursize) := by
  unfold StackOwnership.savestk
  split_ifs with hown hsize
  · exact h
  · have hown : r.status .ownstack=false := by simpa using hown
    obtain ⟨hkeep,hfree⟩ := allocate_spec (w := {w with heap := release w.heap r.stack}) c
      .save fun q hq => release_none (h.below q hq)
    refine h.change (c := c) (fun d r' hd => ?_)
      (fun d q o hd hq => hkeep d q o (release_other hr.block hd hq)) hfree fun addr ha => ?_
    · rcases update_cases hd with hd|⟨rfl,hr'⟩
      · exact .inl hd
      · cases hr'
        refine .inr ⟨fun _ _ => nofun,fun _ _ => nofun,fun q hq => ?_⟩
        cases hq
        exact ⟨.save,Function.update_self ..⟩
    · rcases List.mem_append.mp ha with ha|ha
      · exact h.released addr ha
      · exact hr.shared hown addr (List.mem_singleton.mp ha).symm
  · have hown : r.status .ownstack=false := by simpa using hown
    exact h.put ⟨fun _ => hr.shared hown,fun _ => hr.shared hown,hr.block⟩

/-- A freed coroutine gives back its block, and no memory of the program. -/
theorem Owned.freecoro (h : Owned w) (hr : Held w.heap c r) : Owned (freecoro w c r) := by
  have hco : ∀ {heap} d r',Function.update w.co c none d=some r' →
      d≠c ∧ w.co d=some r' ∨ Held heap d r' := by
    intro heap d r' hd
    rcases update_cases hd with hd|⟨-,hr'⟩
    · exact .inl hd
    · cases hr'
  unfold StackOwnership.freecoro
  split_ifs with halloc
  · refine h.change (c := c) hco (fun d q o hd hq => release_other hr.block hd hq)
      (fun q hq => release_none (h.below q hq)) fun addr ha => ?_
    rcases List.mem_append.mp ha with ha|ha
    · exact h.released addr ha
    · exact hr.alloc halloc addr (List.mem_singleton.mp ha).symm
  · exact h.change (c := c) hco (fun _ _ _ _ hq => hq) h.below h.released

/-! ## Runs -/

/-- Whether a step keeps the bits exact: memory of the program must not come to a
coroutine whose bit ALLOCSTACKMEM is set. -/
def keepsFlag (w : World) : Act → Bool
  | .setStack c (some _) stacksize =>
    stacksize=0 || !(w.co c).any fun r => r.settable && r.status .allocstackmem
  | _ => true

/-- Entering a coroutine leaves its stack alone. -/
theorem sameStack_start (r : Coro) : SameStack r (start r) := ⟨rfl,rfl,rfl,rfl⟩

/-- The mark of a pool leaves the stack alone. -/
theorem sameStack_pooled (p : ℕ) (r : Coro) : SameStack r (pooled p r) := ⟨rfl,rfl,rfl,rfl⟩

/-- Running leaves the stack pointer and its bits alone. -/
theorem sameStack_mark (m : Traces) (r : Coro) : SameStack r (mark m r) := ⟨rfl,rfl,rfl,rfl⟩

/-- An obtained coroutine keeps the stack of its object. -/
theorem sameStack_renewRecord (r : Coro) (cid : ℤ) (func arg : ℕ)
    (isasymmetric isurgent : Bool) :
    SameStack r (renewRecord r cid func arg isasymmetric isurgent) := ⟨rfl,rfl,rfl,rfl⟩

/-- What `cp_return` leaves of a record. -/
theorem sameStack_returned (r : Coro) :
    SameStack r {r.clrbit .urgent with registered := false} := ⟨rfl,rfl,rfl,rfl⟩

/-- A record without a buffer. -/
theorem held_of_null (h : r.stack=.null) : Held heap c r := by
  refine ⟨fun _ _ => ?_,fun _ _ => ?_,fun q hq => ?_⟩
  · rw [h]
    exact nofun
  · rw [h]
    exact nofun
  · cases h.symm.trans hq

/-- `dyco_coroutine_setStack` keeps the account unless ALLOCSTACKMEM is left over. -/
theorem Owned.setStack (h : Owned w) (hkeep : keepsFlag w (.setStack c stackptr stacksize)=true) :
    Owned (dycoCoroutineSetStack w c stackptr stacksize).2 := by
  unfold dycoCoroutineSetStack
  cases hc : w.co c with
  | none => exact h
  | some r =>
    dsimp only
    split_ifs with hsettable
    · refine h.coroSetstack (h.records c r hc) fun hsome hsize => ?_
      obtain ⟨addr,rfl⟩ := Option.isSome_iff_exists.mp hsome
      simpa [keepsFlag,hc,hsettable,hsize] using hkeep
    · exact h

/-- A new member of a pool has no stack yet. -/
theorem stack_poolRecord (isasymmetric : Bool) : (poolRecord isasymmetric).stack=.null := by
  cases isasymmetric <;> rfl

/-- A new member of a pool owns the block allocated for it. -/
theorem Owned.cpAdd {p : ℕ} {isasymmetric : Bool} (h : Owned w) :
    Owned (cpAdd p stacksize isasymmetric w) := by
  have hadded : Owned (StackOwnership.put {w with nextCo := w.nextCo+1} w.nextCo
      (poolRecord isasymmetric)) :=
    Owned.put ⟨h.records,h.below,h.released⟩ (held_of_null (stack_poolRecord isasymmetric))
  have hnew : Owned (cpNew stacksize isasymmetric w) := by
    unfold cpNew
    dsimp only
    split_ifs
    · exact hadded.coroSetstack (held_of_null (stack_poolRecord isasymmetric))
        fun hsome => by cases hsome
    · exact hadded
  have hmodified := hnew.modify (c := w.nextCo) (sameStack_pooled p)
  exact ⟨hmodified.records,hmodified.below,hmodified.released⟩

/-- What the rounds of `cp_create` keep, unless there are none. -/
theorem cpCreate_invariant (totalsize : ℤ) (isasymmetric : Bool) (inv : World → Prop)
    (hstart : inv {w with
      pools := Function.update w.pools w.nextPool (some ⟨totalsize,0,stacksize,[]⟩)
      nextPool := w.nextPool+1})
    (hadd : ∀ t,inv t → inv (cpAdd w.nextPool stacksize isasymmetric t)) :
    cpCreate w totalsize stacksize isasymmetric=w ∨
      inv (cpCreate w totalsize stacksize isasymmetric) := by
  unfold cpCreate
  split_ifs
  · exact .inl rfl
  · right
    generalize totalsize.toNat=k
    induction k with
    | zero => exact hstart
    | succ k ih =>
      rw [Function.iterate_succ_apply']
      exact hadd _ ih

/-- `cp_obtain` returns without a coroutine, or it renews the first one of the
freelist. -/
theorem cpObtain_ok {p func arg : ℕ} {isasymmetric isurgent : Bool}
    (h : cpObtain w p func arg isasymmetric isurgent=.ok t) :
    t=w ∧ (∀ cp,w.pools p=some cp → cp.totalsize-cp.activenum≤0) ∨
    ∃ cp c rest r,w.pools p=some cp ∧ cp.freelist=c::rest ∧ w.co c=some r ∧ t=put {w with
      pools := Function.update w.pools p (some {cp with
        freelist := rest,activenum := cp.activenum+1})
      cidGen := (w.cidGen+1)%2^24} c (renewRecord r w.nextCid func arg isasymmetric isurgent) := by
  unfold cpObtain at h
  split at h
  · cases h
  next cp hp =>
    split_ifs at h with hnone
    · cases h
      refine .inl ⟨rfl,fun cp' hp' => ?_⟩
      cases hp.symm.trans hp'
      exact hnone
    · split at h
      · cases h
      next c rest hl =>
        split at h
        · cases h
        next r hc =>
          cases h
          exact .inr ⟨cp,c,rest,r,hp,hl,hc,rfl⟩

/-- `cp_return` of a coroutine without a pool does nothing; otherwise it puts the
coroutine in front of the freelist. -/
theorem cpReturn_ok (h : cpReturn w c r=.ok t) : t=w ∨
    ∃ p cp,r.cpool=some p ∧ w.pools p=some cp ∧ t=put {w with
      pools := Function.update w.pools p (some {cp with
        freelist := c::cp.freelist,activenum := cp.activenum-1})} c
      {r.clrbit .urgent with registered := false} := by
  unfold cpReturn at h
  split at h
  · cases h
    exact .inl rfl
  next p hcp =>
    split at h
    · cases h
    next cp hp =>
      cases h
      exact .inr ⟨p,cp,hcp,hp,rfl⟩

/-- Every step that keeps the bits exact keeps the account. -/
theorem Owned.step (h : Owned w) (hkeep : keepsFlag w a=true) (ht : step w a=some (.ok t)) :
    Owned t := by
  cases a with
  | create func arg isasymmetric isurgent =>
    cases ht
    exact Owned.put ⟨h.records,h.below,h.released⟩ (held_of_null rfl)
  | poolCreate totalsize stacksize isasymmetric =>
    cases ht
    rcases cpCreate_invariant totalsize isasymmetric Owned
      ⟨h.records,h.below,h.released⟩ fun _ ht => ht.cpAdd with hsame|ht
    · rwa [hsame]
    · exact ht
  | obtain p func arg isasymmetric isurgent =>
    rcases cpObtain_ok (Option.some.inj ht) with ⟨rfl,-⟩|⟨cp,c,rest,r,-,-,hc,rfl⟩
    · exact h
    · exact Owned.put ⟨h.records,h.below,h.released⟩
        ((h.records c r hc).same (sameStack_renewRecord ..))
  | setStack c stackptr stacksize =>
    cases ht
    exact h.setStack hkeep
  | resume c =>
    obtain ⟨r,-,ht⟩ := Option.map_eq_some_iff.mp ht
    cases ht
    exact h.modify sameStack_start
  | asymResume c inside =>
    obtain ⟨r,-,ht⟩ := Option.map_eq_some_iff.mp ht
    cases ht
    unfold dycoAsymcororesume
    split_ifs
    · exact h
    · exact (h.setStack rfl).modify sameStack_start
    · exact h.modify sameStack_start
  | yield c cursize =>
    obtain ⟨r,hc,ht⟩ := Option.bind_eq_some_iff.mp ht
    split_ifs at ht
    cases ht
    exact h.savestk (h.records c r hc)
  | mark c m =>
    obtain ⟨r,-,ht⟩ := Option.map_eq_some_iff.mp ht
    cases ht
    exact h.modify (sameStack_mark m)
  | giveBack c =>
    obtain ⟨r,hc,ht⟩ := Option.map_eq_some_iff.mp ht
    rcases cpReturn_ok ht with rfl|⟨p,cp,-,-,rfl⟩
    · exact h
    · exact Owned.put ⟨h.records,h.below,h.released⟩
        ((h.records c r hc).same (sameStack_returned r))
  | free c =>
    obtain ⟨r,hc,ht⟩ := Option.map_eq_some_iff.mp ht
    cases ht
    exact h.freecoro (h.records c r hc)

/-- ALLOCSTACKMEM and a buffer mean that the buffer is a block of this coroutine. -/
def Exact (w : World) : Prop :=
  ∀ c r,w.co c=some r → r.status .allocstackmem=true → r.stack≠.null →
    ∃ q o,r.stack=.block q ∧ w.heap q=some (c,o)

/-- The bit tells the truth about every coroutine. -/
theorem Owned.exact (h : Owned w) : Exact w := by
  intro c r hc halloc hnull
  have hheld := h.records c r hc
  cases hstack : r.stack with
  | null => exact absurd hstack hnull
  | user addr => exact absurd hstack (hheld.alloc halloc addr)
  | block q =>
    obtain ⟨o,ho⟩ := hheld.block q hstack
    exact ⟨q,o,rfl,ho⟩

/-- The step that the condition excludes makes the bit wrong at once. -/
theorem not_exact_of_step (hkeep : keepsFlag w a=false) (ht : step w a=some (.ok t)) :
    ¬Exact t := by
  cases a with
  | setStack c stackptr stacksize =>
    cases stackptr with
    | none => cases hkeep
    | some addr =>
      simp only [keepsFlag,Bool.or_eq_false_iff,decide_eq_false_iff_not,Bool.not_eq_false',
        Option.any_eq_true,Bool.and_eq_true] at hkeep
      obtain ⟨hsize,r,hc,hsettable,halloc⟩ := hkeep
      cases ht
      intro hexact
      have hset : (dycoCoroutineSetStack w c (some addr) stacksize).2=
          put w c ({r with stack := .user addr,stackSize := stacksize}.setbit .ownstack) := by
        simp only [dycoCoroutineSetStack,hc,if_pos hsettable,coroSetstack,if_neg hsize]
      rw [hset] at hexact
      obtain ⟨q,o,hstack,-⟩ := hexact c _ (Function.update_self ..) halloc nofun
      cases hstack
  | create func arg isasymmetric isurgent => cases hkeep
  | poolCreate totalsize stacksize isasymmetric => cases hkeep
  | obtain p func arg isasymmetric isurgent => cases hkeep
  | resume c => cases hkeep
  | asymResume c inside => cases hkeep
  | yield c cursize => cases hkeep
  | mark c m => cases hkeep
  | giveBack c => cases hkeep
  | free c => cases hkeep

/-- As long as memory of the program only comes to coroutines without the bit
ALLOCSTACKMEM, the bit is exact and the library releases blocks of its own only. The
first call that does otherwise makes it wrong. -/
theorem stack_flag_exact {schedId pageSize : ℕ}
    (h : Runs step (fun w a => keepsFlag w a=true) (newWorld schedId pageSize) w) :
    Exact w ∧ (∀ addr,Buffer.user addr∉w.released) ∧
    ∀ a t,step w a=some (.ok t) → (Exact t ↔ keepsFlag w a=true) := by
  have howned : Owned w := h.invariant Owned (owned_newWorld schedId pageSize)
    fun _ _ _ hi hkeep ht => hi.step hkeep ht
  refine ⟨howned.exact,howned.released,fun a t ht => ⟨fun hexact => ?_,fun hkeep => ?_⟩⟩
  · by_contra hkeep
    exact not_exact_of_step (by simpa using hkeep) ht hexact
  · exact (howned.step hkeep ht).exact

/-- A coroutine gets a stack from the program, gives it up for one of the library, and
exits. -/
def twoStacks : List Act :=
  [.create 1 0 false false,.setStack 0 (some 7) 8192,.setStack 0 none 4096,.resume 0,.free 0]

/-- A stack of the program and then one of the library, which alone is freed. -/
theorem stack_flag_exact_twoStacks : ∃ w,
    replayWhile step (fun w a => keepsFlag w a=true) (newWorld 1 4096) twoStacks=some w ∧
    w.released=[.block 0] ∧ Exact w := by
  have hrun : ((replayWhile step (fun w a => keepsFlag w a=true) (newWorld 1 4096) twoStacks).map
      fun w => w.released)=some [.block 0] := by decide +kernel
  obtain ⟨w,hw,hreleased⟩ := Option.map_eq_some_iff.mp hrun
  exact ⟨w,hw,hreleased,(stack_flag_exact (runs_of_replayWhile hw)).1⟩

/-- The other way round: `freecoro` releases the memory of the program. -/
theorem user_stack_released : ∃ w,
    Runs step (fun _ _ => True) (newWorld 1 4096) w ∧ ¬Exact w ∧
    ∃ t,Runs step (fun _ _ => True) w t ∧ Buffer.user 7∈t.released := by
  have hrun : ((replay step (newWorld 1 4096)
      [.create 1 0 false false,.setStack 0 none 4096,.setStack 0 (some 7) 8192]).bind fun w =>
      (replay step w [.free 0]).map fun t =>
        ((w.co 0).map fun r => (r.status .allocstackmem,r.stack),t.released))=
      some (some (true,.user 7),[.user 7]) := by decide +kernel
  obtain ⟨w,hw,hrest⟩ := Option.bind_eq_some_iff.mp hrun
  obtain ⟨t,ht,hq⟩ := Option.map_eq_some_iff.mp hrest
  simp only [Prod.mk.injEq] at hq
  obtain ⟨hco,hreleased⟩ := hq
  refine ⟨w,runs_of_replay hw,fun hexact => ?_,t,runs_of_replay ht,?_⟩
  · obtain ⟨r,hr,hbits⟩ := Option.map_eq_some_iff.mp hco
    simp only [Prod.mk.injEq] at hbits
    obtain ⟨q,o,hstack,-⟩ := hexact 0 r hr hbits.1 (by rw [hbits.2]; exact nofun)
    cases hbits.2.symm.trans hstack
  · rw [hreleased]
    exact List.mem_cons_self

end DycoCoroutine.StackOwnership
