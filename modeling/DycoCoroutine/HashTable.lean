import DycoCoroutine.KeyedEntries
import DycoCoroutine.RunInvariant

/-!
# The hash table

`dyco_htable.h` for calls whose allocations succeed. A slot of the table embeds its
first node and marks emptiness by the id -1; the other nodes hang on it as a chain.
The loop of `htable_resize` that should clear the new slots clears the first one
again and again, so that the others keep the id 0 that `calloc` leaves.
-/

namespace DycoCoroutine.HashTable

open RunInvariant KeyedEntries

/-- `struct dyco_hentry` without its link. A NULL `data` is `none`. -/
structure DycoHentry (α : Type*) where
  /-- `id` -/
  id : ℤ
  /-- `data` -/
  data : Option α
  deriving DecidableEq

/-- A slot: the embedded first node and the chain behind its `next`. -/
structure Bucket (α : Type*) extends DycoHentry α where
  /-- The nodes that `next` leads to. -/
  next : List (DycoHentry α)
  deriving DecidableEq

/-- `struct dyco_htable`; only the slots up to `mask` exist. -/
structure DycoHtable (α : Type*) where
  /-- `width` -/
  width : ℕ
  /-- `mask` -/
  mask : ℕ
  /-- `count` -/
  count : ℤ
  /-- `table` -/
  table : ℕ → Bucket α

variable {α : Type*}

/-- DYCO_HTABLE_MAXWITDH -/
def maxWidth : ℕ := 24

/-- `id & mask` for an `int`. -/
def slot (mask : ℕ) (id : ℤ) : ℕ := (BitVec.ofInt 32 id &&& BitVec.ofNat 32 mask).toNat

/-- A slot that was cleared. -/
def Bucket.cleared : Bucket α := ⟨⟨-1,none⟩,[]⟩

/-- A slot as `calloc` leaves it. -/
def Bucket.zeroed : Bucket α := ⟨⟨0,none⟩,[]⟩

/-- `htable_init` -/
def htableInit (width : ℤ) : DycoHtable α :=
  let width := if width≤0 then 16 else if (maxWidth : ℤ)<width then maxWidth else width.toNat
  ⟨width,2^width-1,0,fun _ => Bucket.cleared⟩

/-- `htable_find` -/
def htableFind (ht : DycoHtable α) (id : ℤ) : Option α :=
  let bucket := ht.table (slot ht.mask id)
  if bucket.id=-1 then none
  else if bucket.id=id then bucket.data
  else match bucket.next.find? fun e => e.id=id with
    | some e => e.data
    | none => none

/-- `htable_contains` -/
def htableContains (ht : DycoHtable α) (id : ℤ) : ℤ :=
  let bucket := ht.table (slot ht.mask id)
  if bucket.id=-1 then 0
  else if bucket.id=id then 1
  else match bucket.next.find? fun e => e.id=id with
    | some _ => 1
    | none => 0

/-- One node of the old table is entered in the new one: in the embedded node of an
empty slot, otherwise right behind it. -/
def rehash (newmask : ℕ) (newtable : ℕ → Bucket α) (e : DycoHentry α) : ℕ → Bucket α :=
  let newidx := slot newmask e.id
  let bucket := newtable newidx
  if bucket.id=-1 then Function.update newtable newidx {bucket with id := e.id,data := e.data}
  else Function.update newtable newidx {bucket with next := e::bucket.next}

/-- The new table of `htable_resize` before the nodes are entered. Every round of its
first loop clears the first slot. -/
def newTable (newsize : ℕ) : ℕ → Bucket α :=
  (List.range newsize).foldl (fun table _ => Function.update table 0 Bucket.cleared)
    fun _ => Bucket.zeroed

/-- `htable_resize`, with `none` for -1. -/
def htableResize (ht : DycoHtable α) (width : ℕ) : Option (DycoHtable α) :=
  if width=ht.width ∨ maxWidth<width then none
  else
    let newmask := 2^width-1
    let round (newtable : ℕ → Bucket α) (i : ℕ) : ℕ → Bucket α :=
      if (ht.table i).id=-1 then newtable
      else (ht.table i).next.foldl (rehash newmask) (rehash newmask newtable (ht.table i).toDycoHentry)
    some {ht with
      width := width
      mask := newmask
      table := (List.range (ht.mask+1)).foldl round (newTable (2^width))}

/-- Replace a slot and set the count. -/
def putBucket (ht : DycoHtable α) (idx : ℕ) (bucket : Bucket α) (count : ℤ) : DycoHtable α :=
  {ht with table := Function.update ht.table idx bucket,count := count}

/-- The end of `htable_insert` after a node was added and counted: resize at
DYCO_HTABLE_MAXALPHA nodes per slot. -/
def grow (ht : DycoHtable α) : ℤ×DycoHtable α :=
  if (ht.mask : ℤ)*2=ht.count then
    match htableResize ht (ht.width+1) with
    | none => (-1,ht)
    | some ht => (1,ht)
  else (1,ht)

/-- Replace the data of the first node with this id, if there is one. -/
def assign (id : ℤ) (data : Option α) : List (DycoHentry α) → Option (List (DycoHentry α))
  | [] => none
  | e::rest =>
    if e.id=id then some ({e with data := data}::rest) else (assign id data rest).map (e::·)

/-- `htable_insert` -/
def htableInsert (ht : DycoHtable α) (id : ℤ) (data : Option α) : ℤ×DycoHtable α :=
  let idx := slot ht.mask id
  let bucket := ht.table idx
  if bucket.id=-1 then grow (putBucket ht idx {bucket with id := id,data := data} (ht.count+1))
  else if bucket.id=id then (0,putBucket ht idx {bucket with data := data} ht.count)
  else match assign id data bucket.next with
    | some next => (0,putBucket ht idx {bucket with next := next} ht.count)
    | none => grow (putBucket ht idx {bucket with next := ⟨id,data⟩::bucket.next} (ht.count+1))

/-- Unlink the first node with this id, if there is one. -/
def unlink (id : ℤ) : List (DycoHentry α) → Option (Option α×List (DycoHentry α))
  | [] => none
  | e::rest =>
    if e.id=id then some (e.data,rest) else (unlink id rest).map fun r => (r.1,e::r.2)

/-- `htable_delete`: its result, what it stores through a `data` that is not NULL, and
the table. -/
def htableDelete (ht : DycoHtable α) (id : ℤ) : ℤ×Option (Option α)×DycoHtable α :=
  let idx := slot ht.mask id
  let bucket := ht.table idx
  if bucket.id=-1 then (-1,none,ht)
  else if bucket.id=id then
    let bucket' := match bucket.next with
      | e::rest => ⟨e,rest⟩
      | [] => {bucket with id := -1,data := none}
    (0,some bucket.data,putBucket ht idx bucket' (ht.count-1))
  else match unlink id bucket.next with
    | some (data,next) => (0,some data,putBucket ht idx {bucket with next := next} (ht.count-1))
    | none => (-1,none,ht)

/-- The nodes of a slot. -/
def entries (bucket : Bucket α) : List (DycoHentry α) :=
  if bucket.id=-1 then [] else bucket.toDycoHentry::bucket.next

/-- The nodes that `htable_clear_with_freecb` visits and `htable_resize` enters in the
new table, in this order. -/
def visited (ht : DycoHtable α) : List (DycoHentry α) :=
  spread (fun i => entries (ht.table i)) (ht.mask+1)

/-- A call that changes the table. -/
inductive Call (α : Type*)
  /-- `htable_insert` -/
  | insert (id : ℤ) (data : Option α)
  /-- `htable_delete` -/
  | delete (id : ℤ)

/-- The id of a call. -/
def Call.id : Call α → ℤ
  | .insert id _ => id
  | .delete id => id

/-- The table after a call. -/
def call (ht : DycoHtable α) : Call α → DycoHtable α
  | .insert id data => (htableInsert ht id data).2
  | .delete id => (htableDelete ht id).2.2

/-- A finite map from ids to data. -/
abbrev FiniteMap (α : Type*) := AList fun _ : ℤ => Option α

/-- What a call does to a finite map. -/
def mapCall (m : FiniteMap α) : Call α → FiniteMap α
  | .insert id data => m.insert id data
  | .delete id => m.erase id

/-- One call on the table, and on the finite map that it should stand for. No call
faults. -/
def step (s : DycoHtable α×FiniteMap α) (c : Call α) :
    Option (Except Empty (DycoHtable α×FiniteMap α)) :=
  some (.ok (call s.1 c,mapCall s.2 c))

/-- A call that asks for a larger table. -/
def resizes (ht : DycoHtable α) : Call α → Bool
  | .insert id _ => htableContains ht id=0 && (ht.mask : ℤ)*2=ht.count+1
  | .delete _ => false

end DycoCoroutine.HashTable
