import DycoCoroutine.HashTableMap
import DycoCoroutine.ScheduleState

/-!
# The hash table and the memory of its nodes

`dyco_htable.h` once more, with the nodes that `malloc` hands out and `free` takes
back. A chain is the list of its nodes, and a node has an address, so that a pointer
to it can be kept across a call that frees it. To read a node that was freed, or to
free it again, is a fault. Without the addresses the operations are those of the
table of entries.
-/

namespace DycoCoroutine.ChainedTable

open ScheduleState RunInvariant KeyedEntries HashTable

/-- A node of a chain and its address. Its `next` is the node behind it. -/
structure Node (α : Type*) extends DycoHentry α where
  /-- The address that `malloc` has returned. -/
  addr : ℕ
  deriving DecidableEq

/-- A slot: the embedded first node and the chain behind its `next`. -/
structure Slot (α : Type*) extends DycoHentry α where
  /-- The nodes that `next` leads to. -/
  next : List (Node α)
  deriving DecidableEq

/-- `struct dyco_htable` and the allocator of its nodes. -/
structure Table (α : Type*) where
  /-- `width` -/
  width : ℕ
  /-- `mask` -/
  mask : ℕ
  /-- `count` -/
  count : ℤ
  /-- `table` -/
  table : ℕ → Slot α
  /-- The nodes that are allocated. -/
  heap : List ℕ
  /-- The address of the next node. -/
  fresh : ℕ

variable {α : Type*}

/-- A slot that was cleared. -/
def Slot.cleared : Slot α := ⟨⟨-1,none⟩,[]⟩

/-- A slot as `calloc` leaves it. -/
def Slot.zeroed : Slot α := ⟨⟨0,none⟩,[]⟩

/-- `htable_init` -/
def htableInit (width : ℤ) : Table α :=
  let width := if width≤0 then 16 else if (maxWidth : ℤ)<width then maxWidth else width.toNat
  ⟨width,2^width-1,0,fun _ => Slot.cleared,[],0⟩

/-- `free` of a node. -/
def release (heap : List ℕ) (p : ℕ) : Except Fault (List ℕ) :=
  if p∈heap then .ok (heap.erase p) else .error .undefined

/-- The loop over a chain to the first node with this id, which all functions of the
table have: the nodes before it, the node and the nodes behind it. -/
def walk (heap : List ℕ) (id : ℤ) :
    List (Node α) → Except Fault (Option (List (Node α)×Node α×List (Node α)))
  | [] => .ok none
  | n::rest =>
    if n.addr∉heap then .error .undefined
    else if n.id=id then .ok (some ([],n,rest))
    else (walk heap id rest).map (Option.map fun r => (n::r.1,r.2))

/-- `htable_find` -/
def htableFind (ht : Table α) (id : ℤ) : Except Fault (Option α) :=
  let bucket := ht.table (slot ht.mask id)
  if bucket.id=-1 then .ok none
  else if bucket.id=id then .ok bucket.data
  else (walk ht.heap id bucket.next).map fun r => r.bind fun r => r.2.1.data

/-- Replace a slot and set the count. -/
def putSlot (ht : Table α) (idx : ℕ) (bucket : Slot α) (count : ℤ) : Table α :=
  {ht with table := Function.update ht.table idx bucket,count := count}

/-- `malloc` of a node. -/
def allocate (ht : Table α) : Table α := {ht with heap := ht.fresh::ht.heap,fresh := ht.fresh+1}

/-- The embedded node of an old slot is entered in the new table: in the embedded node
of an empty slot, otherwise in a new node right behind it. -/
def rehashHead (ht : Table α) (e : DycoHentry α) : Table α :=
  let newidx := slot ht.mask e.id
  let bucket := ht.table newidx
  if bucket.id=-1 then putSlot ht newidx {bucket with id := e.id,data := e.data} ht.count
  else allocate (putSlot ht newidx {bucket with next := ⟨e,ht.fresh⟩::bucket.next} ht.count)

/-- A node of an old chain is entered in the new table: its contents in the embedded
node of an empty slot, otherwise the node itself right behind it. -/
def rehashNode (ht : Table α) (n : Node α) : Except Fault (Table α) :=
  if n.addr∉ht.heap then .error .undefined
  else
    let newidx := slot ht.mask n.id
    let bucket := ht.table newidx
    if bucket.id=-1 then (release ht.heap n.addr).map fun heap =>
      {putSlot ht newidx {bucket with id := n.id,data := n.data} ht.count with heap := heap}
    else .ok (putSlot ht newidx {bucket with next := n::bucket.next} ht.count)

/-- The new table of `htable_resize` before the nodes are entered. Every round of its
first loop clears the first slot. -/
def newTable (newsize : ℕ) : ℕ → Slot α :=
  (List.range newsize).foldl (fun table _ => Function.update table 0 Slot.cleared)
    fun _ => Slot.zeroed

/-- One round of the second loop of `htable_resize`. -/
def resizeRound (oldtable : ℕ → Slot α) (ht : Table α) (i : ℕ) : Except Fault (Table α) :=
  if (oldtable i).id=-1 then .ok ht
  else (oldtable i).next.foldlM rehashNode (rehashHead ht (oldtable i).toDycoHentry)

/-- `htable_resize`, with `none` for -1. -/
def htableResize (ht : Table α) (width : ℕ) : Except Fault (Option (Table α)) :=
  if width=ht.width ∨ maxWidth<width then .ok none
  else ((List.range (ht.mask+1)).foldlM (resizeRound ht.table)
    {ht with width := width,mask := 2^width-1,table := newTable (2^width)}).map some

/-- The end of `htable_insert` after a node was added and counted: resize at
DYCO_HTABLE_MAXALPHA nodes per slot. -/
def grow (ht : Table α) : Except Fault (ℤ×Table α) :=
  if (ht.mask : ℤ)*2=ht.count then
    (htableResize ht (ht.width+1)).map fun r => match r with
      | none => (-1,ht)
      | some ht => (1,ht)
  else .ok (1,ht)

/-- `htable_insert` -/
def htableInsert (ht : Table α) (id : ℤ) (data : Option α) : Except Fault (ℤ×Table α) :=
  let idx := slot ht.mask id
  let bucket := ht.table idx
  if bucket.id=-1 then grow (putSlot ht idx {bucket with id := id,data := data} (ht.count+1))
  else if bucket.id=id then .ok (0,putSlot ht idx {bucket with data := data} ht.count)
  else do
    match ← walk ht.heap id bucket.next with
    | some (front,n,rest) =>
      pure (0,putSlot ht idx {bucket with next := front++{n with data := data}::rest} ht.count)
    | none =>
      let next := ⟨⟨id,data⟩,ht.fresh⟩::bucket.next
      grow (allocate (putSlot ht idx {bucket with next := next} (ht.count+1)))

/-- The node behind the embedded one takes its place and is freed. -/
def promote (ht : Table α) (idx : ℕ) (n : Node α) (rest : List (Node α)) : Except Fault (Table α) :=
  (release ht.heap n.addr).map fun heap =>
    {putSlot ht idx ⟨n.toDycoHentry,rest⟩ (ht.count-1) with heap := heap}

/-- The embedded node is marked as empty. -/
def vacate (ht : Table α) (idx : ℕ) : Table α :=
  putSlot ht idx {ht.table idx with id := -1,data := none} (ht.count-1)

/-- `htable_delete` with a `data` that is NULL. -/
def htableDelete (ht : Table α) (id : ℤ) : Except Fault (ℤ×Table α) :=
  let idx := slot ht.mask id
  let bucket := ht.table idx
  if bucket.id=-1 then .ok (-1,ht)
  else if bucket.id=id then match bucket.next with
    | n::rest => (promote ht idx n rest).map fun ht => (0,ht)
    | [] => .ok (0,vacate ht idx)
  else do
    match ← walk ht.heap id bucket.next with
    | some (front,n,rest) => (release ht.heap n.addr).map fun heap =>
      (0,{putSlot ht idx {bucket with next := front++rest} (ht.count-1) with heap := heap})
    | none => pure (-1,ht)

/-- A pointer to a node of this slot is followed: the node and the nodes behind it. -/
def deref (ht : Table α) (idx p : ℕ) : Except Fault (Node α×List (Node α)) :=
  if p∉ht.heap then .error .undefined
  else match (ht.table idx).next.dropWhile fun n => n.addr≠p with
    | n::rest => .ok (n,rest)
    | [] => .error .undefined

variable {ht ht' : Table α} {heap : List ℕ} {l : List (Node α)} {b : Slot α} {n : Node α}
  {id : ℤ} {data : Option α} {leak : Multiset ℕ} {idx p : ℕ} {count : ℤ}

/-- An allocated node can be freed. -/
theorem release_of_mem (h : p∈heap) : release heap p=.ok (heap.erase p) := if_pos h

/-- The loop over a chain of allocated nodes does not fault. -/
theorem walk_cases (h : ∀ n∈l,n.addr∈heap) (id : ℤ) :
    (walk heap id l=.ok none ∧ ∀ n∈l,n.id≠id) ∨
    ∃ front n rest,walk heap id l=.ok (some (front,n,rest)) ∧ l=front++n::rest ∧ n.id=id ∧
      ∀ m∈front,m.id≠id := by
  induction l with
  | nil => exact .inl ⟨rfl,fun n hn => nomatch hn⟩
  | cons n l ih =>
    have hn : ¬n.addr∉heap := not_not_intro (h n List.mem_cons_self)
    unfold walk
    rw [if_neg hn]
    by_cases hid : n.id=id
    · rw [if_pos hid]
      exact .inr ⟨[],n,l,rfl,rfl,hid,fun m hm => nomatch hm⟩
    · rw [if_neg hid]
      rcases ih fun m hm => h m (List.mem_cons_of_mem _ hm) with ⟨hw,hl⟩|⟨front,m,rest,hw,hl,hm,hf⟩
      · rw [hw]
        refine .inl ⟨rfl,fun m hm => ?_⟩
        rcases List.mem_cons.mp hm with rfl|hm
        · exact hid
        · exact hl m hm
      · rw [hw]
        refine .inr ⟨n::front,m,rest,rfl,by rw [hl]; rfl,hm,fun x hx => ?_⟩
        rcases List.mem_cons.mp hx with rfl|hx
        · exact hid
        · exact hf x hx

/-- The loop over a chain without the id ends at its end. -/
theorem walk_of_none (h : ∀ n∈l,n.addr∈heap) (hid : ∀ n∈l,n.id≠id) : walk heap id l=.ok none := by
  rcases walk_cases h id with ⟨hw,-⟩|⟨front,n,rest,-,hl,hn,-⟩
  · exact hw
  · exact absurd hn (hid n (by simp [hl]))

/-- The loop stops at the first node with the id. -/
theorem walk_append {front rest : List (Node α)} (h : ∀ m∈front++n::rest,m.addr∈heap)
    (hf : ∀ m∈front,m.id≠n.id) : walk heap n.id (front++n::rest)=.ok (some (front,n,rest)) := by
  induction front with
  | nil =>
    have hn : ¬n.addr∉heap := not_not_intro (h n (by simp))
    simp only [List.nil_append,walk,if_neg hn,if_true]
  | cons m front ih =>
    have hm : ¬m.addr∉heap := not_not_intro (h m (by simp))
    have hne : m.id≠n.id := hf m List.mem_cons_self
    rw [List.cons_append,walk,if_neg hm,if_neg hne,
      ih (fun x hx => h x (List.mem_cons_of_mem _ hx)) fun x hx => hf x (List.mem_cons_of_mem _ hx)]
    rfl

/-! ## The nodes of the chains -/

/-- The addresses of a chain. -/
def Slot.addrs (b : Slot α) : List ℕ := b.next.map Node.addr

/-- The addresses of all chains. -/
def addrs (ht : Table α) : List ℕ := spread (fun i => (ht.table i).addrs) (ht.mask+1)

/-- The allocated nodes are those of the chains, each in one place, and those in
`leak`. -/
structure Linked (leak : Multiset ℕ) (ht : Table α) : Prop where
  nodes : (addrs ht : Multiset ℕ)+leak=ht.heap
  distinct : ht.heap.Nodup
  below : ∀ a∈ht.heap,a<ht.fresh

/-- Replacing a slot exchanges the addresses of its chain, and no others. -/
theorem addrs_putSlot (hi : idx<ht.mask+1) (b : Slot α) (count : ℤ) :
    (addrs (putSlot ht idx b count) : Multiset ℕ)+(ht.table idx).addrs=addrs ht+b.addrs := by
  have hcomp : (fun j => (Function.update ht.table idx b j).addrs)=
      Function.update (fun j => (ht.table j).addrs) idx b.addrs := by
    funext j
    exact Function.apply_update (fun _ => Slot.addrs) ht.table idx b j
  have hchange := spread_update (fun j => (ht.table j).addrs) hi b.addrs
  rw [← hcomp] at hchange
  exact hchange

/-- Every node of a chain is allocated. -/
theorem Linked.mem_heap (h : Linked leak ht) (hi : idx<ht.mask+1) (hn : n∈(ht.table idx).next) :
    n.addr∈ht.heap := by
  have hmem : n.addr∈(addrs ht : Multiset ℕ)+leak := by
    refine Multiset.mem_add.mpr (.inl (mem_spread.mpr ⟨idx,hi,?_⟩))
    exact List.mem_map_of_mem hn
  rw [h.nodes] at hmem
  exact hmem

/-- The nodes in the slot of an id can be read. -/
theorem Linked.readable (h : Linked leak ht) (id : ℤ) :
    ∀ n∈(ht.table (slot ht.mask id)).next,n.addr∈ht.heap :=
  fun _ hn => h.mem_heap (HashTableMap.slot_lt ht.mask id) hn

/-- A new table has no nodes. -/
theorem linked_htableInit (width : ℤ) : Linked 0 (htableInit width : Table α) := by
  refine ⟨?_,List.nodup_nil,fun a ha => nomatch ha⟩
  have hnone : ∀ k,spread (fun _ => (Slot.cleared : Slot α).addrs) k=[] := by
    intro k
    simp [spread,Slot.addrs,Slot.cleared]
  exact congrArg (fun l : List ℕ => (l : Multiset ℕ)+0) (hnone _)

/-- A slot keeps its nodes. -/
theorem Linked.putSlot (h : Linked leak ht) (hi : idx<ht.mask+1)
    (hb : b.addrs=(ht.table idx).addrs) (count : ℤ) : Linked leak (putSlot ht idx b count) := by
  have hchange := addrs_putSlot hi b count
  rw [hb] at hchange
  refine ⟨?_,h.distinct,h.below⟩
  rw [add_right_cancel hchange]
  exact h.nodes

/-- A slot gets a new node. -/
theorem Linked.allocate (h : Linked leak ht) (hi : idx<ht.mask+1)
    (hb : b.addrs=ht.fresh::(ht.table idx).addrs) (count : ℤ) :
    Linked leak (allocate (ChainedTable.putSlot ht idx b count)) := by
  have hchange := addrs_putSlot hi b count
  rw [hb,← Multiset.cons_coe,Multiset.add_cons,← Multiset.cons_add] at hchange
  have hfresh : ht.fresh∉ht.heap := fun hm => absurd (h.below _ hm) (lt_irrefl _)
  refine ⟨?_,List.nodup_cons.mpr ⟨hfresh,h.distinct⟩,fun a ha => ?_⟩
  · change (addrs (ChainedTable.putSlot ht idx b count) : Multiset ℕ)+leak=
      ((ht.fresh::ht.heap : List ℕ) : Multiset ℕ)
    rw [add_right_cancel hchange,Multiset.cons_add,h.nodes]
    rfl
  · rcases List.mem_cons.mp ha with rfl|ha
    · exact Nat.lt_succ_self _
    · exact (h.below a ha).trans (Nat.lt_succ_self _)

/-- A slot loses nodes, which stay allocated. -/
theorem Linked.detach {lost : Multiset ℕ} (h : Linked leak ht) (hi : idx<ht.mask+1)
    (hb : ((ht.table idx).addrs : Multiset ℕ)=lost+b.addrs) (count : ℤ) :
    Linked (lost+leak) (ChainedTable.putSlot ht idx b count) := by
  have hchange := addrs_putSlot hi b count
  rw [hb,← add_assoc] at hchange
  refine ⟨?_,h.distinct,h.below⟩
  rw [← add_assoc,add_right_cancel hchange]
  exact h.nodes

/-- A slot loses a node, which stays allocated. -/
theorem Linked.unlink (h : Linked leak ht) (hi : idx<ht.mask+1)
    (hb : ((ht.table idx).addrs : Multiset ℕ)=p ::ₘ b.addrs) (count : ℤ) :
    Linked (p ::ₘ leak) (ChainedTable.putSlot ht idx b count) := by
  rw [← Multiset.singleton_add] at hb ⊢
  exact h.detach hi hb count

/-- A node outside the chains is freed. -/
theorem Linked.free (h : Linked (p ::ₘ leak) ht) :
    p∈ht.heap ∧ Linked leak {ht with heap := ht.heap.erase p} := by
  have hnodes : p ::ₘ ((addrs ht : Multiset ℕ)+leak)=ht.heap := by
    rw [← Multiset.add_cons]
    exact h.nodes
  have hp : p∈ht.heap := by
    have hmem : p∈(ht.heap : Multiset ℕ) := hnodes ▸ Multiset.mem_cons_self ..
    exact hmem
  refine ⟨hp,?_,h.distinct.erase p,fun a ha => h.below a (List.mem_of_mem_erase ha)⟩
  have herase := congrArg (Multiset.erase · p) hnodes
  rw [Multiset.erase_cons_head,Multiset.coe_erase] at herase
  exact herase

/-! ## Deletion -/

/-- `htable_delete` finds no node. -/
theorem htableDelete_absent (h : Linked leak ht) (hid : (ht.table (slot ht.mask id)).id=-1 ∨
    (ht.table (slot ht.mask id)).id≠id ∧ ∀ n∈(ht.table (slot ht.mask id)).next,n.id≠id) :
    htableDelete ht id=.ok (-1,ht) := by
  unfold htableDelete
  by_cases hempty : (ht.table (slot ht.mask id)).id=-1
  · exact if_pos hempty
  · obtain ⟨hhead,hchain⟩ := hid.resolve_left hempty
    rw [if_neg hempty,if_neg hhead,walk_of_none (h.readable id) hchain]
    rfl

/-- `htable_find` looks for the id in the chain. -/
theorem htableFind_chain (h : Linked leak ht) (hempty : (ht.table (slot ht.mask id)).id≠-1)
    (hhead : (ht.table (slot ht.mask id)).id≠id) : htableFind ht id=
      .ok (((ht.table (slot ht.mask id)).next.find? fun n => n.id=id).bind fun n => n.data) := by
  unfold htableFind
  rw [if_neg hempty,if_neg hhead]
  rcases walk_cases (h.readable id) id with ⟨hw,hnone⟩|⟨front,n,rest,hw,hnext,hid,hfront⟩
  · have hfind : ((ht.table (slot ht.mask id)).next.find? fun n => n.id=id)=none := by
      simpa using hnone
    rw [hw,hfind]
    rfl
  · have hfind : ((front++n::rest).find? fun n => n.id=id)=some n := by
      rw [List.find?_append,List.find?_eq_none.mpr (by simpa using hfront)]
      simp [hid]
    rw [hw,hnext,hfind]
    rfl

/-- `htable_delete` finds the embedded node, which has no chain. -/
theorem htableDelete_alone (hempty : (ht.table (slot ht.mask id)).id≠-1)
    (hhead : (ht.table (slot ht.mask id)).id=id) (hnext : (ht.table (slot ht.mask id)).next=[]) :
    htableDelete ht id=.ok (0,vacate ht (slot ht.mask id)) := by
  unfold htableDelete
  rw [if_neg hempty,if_pos hhead,hnext]

/-- `htable_delete` finds the embedded node, and promotes the one behind it. -/
theorem htableDelete_head {rest : List (Node α)} (h : Linked leak ht)
    (hempty : (ht.table (slot ht.mask id)).id≠-1) (hhead : (ht.table (slot ht.mask id)).id=id)
    (hnext : (ht.table (slot ht.mask id)).next=n::rest) :
    htableDelete ht id=.ok (0,{putSlot ht (slot ht.mask id) ⟨n.toDycoHentry,rest⟩ (ht.count-1) with
      heap := ht.heap.erase n.addr}) := by
  have hn : n.addr∈ht.heap := h.readable id n (by simp [hnext])
  unfold htableDelete
  rw [if_neg hempty,if_pos hhead,hnext]
  simp only [promote,release_of_mem hn]
  rfl

/-- `htable_delete` finds a node of the chain. -/
theorem htableDelete_chain {front rest : List (Node α)} (h : Linked leak ht) (hid : n.id=id)
    (hempty : (ht.table (slot ht.mask id)).id≠-1) (hhead : (ht.table (slot ht.mask id)).id≠id)
    (hnext : (ht.table (slot ht.mask id)).next=front++n::rest) (hfront : ∀ m∈front,m.id≠id) :
    htableDelete ht id=.ok (0,{putSlot ht (slot ht.mask id)
      {ht.table (slot ht.mask id) with next := front++rest} (ht.count-1) with
      heap := ht.heap.erase n.addr}) := by
  subst hid
  have hread := h.readable n.id
  rw [hnext] at hread
  have hn : n.addr∈ht.heap := hread n (by simp)
  unfold htableDelete
  rw [if_neg hempty,if_neg hhead,hnext,walk_append hread hfront]
  show (release ht.heap n.addr).map _=_
  rw [release_of_mem hn]
  rfl

/-- `htable_delete` does not fault, the table stays linked, and it loses an entry or
stays as it is. -/
theorem Linked.htableDelete (h : Linked leak ht) (id : ℤ) :
    ∃ ret ht',htableDelete ht id=.ok (ret,ht') ∧ Linked leak ht' ∧ ht'.mask=ht.mask ∧
      ht'.width=ht.width ∧ (ht'=ht ∨ ht'.count=ht.count-1) := by
  have hi := HashTableMap.slot_lt ht.mask id
  by_cases hempty : (ht.table (slot ht.mask id)).id=-1
  · exact ⟨_,_,htableDelete_absent h (.inl hempty),h,rfl,rfl,.inl rfl⟩
  by_cases hhead : (ht.table (slot ht.mask id)).id=id
  · cases hnext : (ht.table (slot ht.mask id)).next with
    | nil =>
      exact ⟨_,_,htableDelete_alone hempty hhead hnext,h.putSlot hi (by rfl) _,rfl,rfl,.inr rfl⟩
    | cons n rest =>
      refine ⟨_,_,htableDelete_head h hempty hhead hnext,(h.unlink hi ?_ _).free.2,rfl,rfl,.inr rfl⟩
      simp [Slot.addrs,hnext]
  · rcases walk_cases (h.readable id) id with ⟨-,hchain⟩|⟨front,n,rest,-,hnext,rfl,hfront⟩
    · exact ⟨_,_,htableDelete_absent h (.inr ⟨hhead,hchain⟩),h,rfl,rfl,.inl rfl⟩
    · refine ⟨_,_,htableDelete_chain h rfl hempty hhead hnext hfront,(h.unlink hi ?_ _).free.2,rfl,
        rfl,.inr rfl⟩
      simp only [Slot.addrs,hnext,List.map_append,List.map_cons]
      exact Multiset.coe_eq_coe.mpr List.perm_middle

/-- What a deletion has left. -/
theorem Linked.of_htableDelete {ret : ℤ} (h : Linked leak ht)
    (hdelete : ChainedTable.htableDelete ht id=.ok (ret,ht')) :
    Linked leak ht' ∧ ht'.mask=ht.mask ∧ ht'.width=ht.width ∧ (ht'=ht ∨ ht'.count=ht.count-1) := by
  obtain ⟨ret₁,ht₁,hdelete₁,hleft⟩ := h.htableDelete id
  rw [hdelete] at hdelete₁
  cases hdelete₁
  exact hleft

/-! ## Insertion -/

/-- The new table of a resize has no chains. -/
theorem newTable_next (newsize i : ℕ) : (newTable newsize i : Slot α).next=[] := by
  unfold newTable
  induction newsize with
  | zero => rfl
  | succ k ih =>
    rw [List.range_succ,List.foldl_append,List.foldl_cons,List.foldl_nil]
    by_cases hi : i=0
    · subst hi
      rw [Function.update_self]
      rfl
    · rwa [Function.update_of_ne hi]

/-- The embedded node of an old slot is entered, while the nodes in `leak` are still
to come. -/
theorem Linked.rehashHead (h : Linked leak ht) (e : DycoHentry α) :
    Linked leak (rehashHead ht e) := by
  have hi := HashTableMap.slot_lt ht.mask e.id
  unfold ChainedTable.rehashHead
  dsimp only
  split_ifs
  · exact h.putSlot hi (by rfl) _
  · exact h.allocate hi (by rfl) _

/-- A node of an old chain is entered. -/
theorem Linked.rehashNode (h : Linked (n.addr ::ₘ leak) ht) :
    ∃ ht',rehashNode ht n=.ok ht' ∧ Linked leak ht' := by
  have hi := HashTableMap.slot_lt ht.mask n.id
  obtain ⟨hn,hfree⟩ := h.free
  unfold ChainedTable.rehashNode
  rw [if_neg (not_not_intro hn)]
  dsimp only
  split_ifs
  · rw [release_of_mem hn]
    exact ⟨_,rfl,hfree.putSlot hi (by rfl) _⟩
  · refine ⟨_,rfl,?_,h.distinct,h.below⟩
    have hchange := addrs_putSlot hi {ht.table (slot ht.mask n.id) with
      next := n::(ht.table (slot ht.mask n.id)).next} ht.count
    have hmore : (Slot.addrs {ht.table (slot ht.mask n.id) with
        next := n::(ht.table (slot ht.mask n.id)).next} : Multiset ℕ)=
        n.addr ::ₘ (ht.table (slot ht.mask n.id)).addrs := rfl
    rw [hmore,Multiset.add_cons,← Multiset.cons_add] at hchange
    rw [add_right_cancel hchange,Multiset.cons_add,← Multiset.add_cons]
    exact h.nodes

/-- All nodes of an old chain are entered. -/
theorem Linked.rehashNodes (h : Linked ((l.map Node.addr : List ℕ)+leak) ht) :
    ∃ ht',l.foldlM ChainedTable.rehashNode ht=.ok ht' ∧ Linked leak ht' := by
  induction l generalizing ht with
  | nil => exact ⟨ht,rfl,by simpa using h⟩
  | cons n l ih =>
    rw [List.map_cons,← Multiset.cons_coe,Multiset.cons_add] at h
    obtain ⟨ht₁,hn,h₁⟩ := h.rehashNode
    obtain ⟨ht₂,hl,h₂⟩ := ih h₁
    refine ⟨ht₂,?_,h₂⟩
    rw [List.foldlM_cons,hn]
    exact hl

/-- The second loop of `htable_resize`. The chain of a slot that is marked as empty is
lost. -/
theorem Linked.resizeRounds {oldtable : ℕ → Slot α} {rounds : List ℕ}
    (h : Linked ((rounds.flatMap fun i => (oldtable i).addrs : List ℕ)+leak) ht) :
    ∃ leak' ht',rounds.foldlM (resizeRound oldtable) ht=.ok ht' ∧ Linked leak' ht' := by
  induction rounds generalizing ht leak with
  | nil => exact ⟨_,ht,rfl,h⟩
  | cons i rounds ih =>
    rw [List.flatMap_cons,← Multiset.coe_add,add_assoc] at h
    rw [List.foldlM_cons]
    by_cases hempty : (oldtable i).id=-1
    · rw [add_left_comm] at h
      have hround : resizeRound oldtable ht i=.ok ht := if_pos hempty
      rw [hround]
      exact ih h
    · obtain ⟨ht₁,hl,h₁⟩ := (h.rehashHead (oldtable i).toDycoHentry).rehashNodes
      have hround : resizeRound oldtable ht i=.ok ht₁ := (if_neg hempty).trans hl
      rw [hround]
      exact ih h₁

/-- `htable_resize` frees nothing twice and uses no freed node; some nodes may leak. -/
theorem Linked.htableResize (h : Linked leak ht) (width : ℕ) :
    ∃ r,htableResize ht width=.ok r ∧ ∀ ht'∈r,∃ leak',Linked leak' ht' := by
  unfold ChainedTable.htableResize
  split_ifs
  · exact ⟨none,rfl,fun ht' hr => nomatch hr⟩
  · have hnew : addrs ({ht with
        width := width,mask := 2^width-1,table := newTable (2^width)} : Table α)=[] := by
      simp [addrs,spread,Slot.addrs,newTable_next]
    have hstart : Linked (((List.range (ht.mask+1)).flatMap fun i => (ht.table i).addrs : List ℕ)+leak)
        ({ht with width := width,mask := 2^width-1,table := newTable (2^width)} : Table α) := by
      refine ⟨?_,h.distinct,h.below⟩
      rw [hnew]
      refine (zero_add _).trans h.nodes
    obtain ⟨leak',ht',hrounds,h'⟩ := hstart.resizeRounds
    rw [hrounds]
    refine ⟨some ht',rfl,fun x hx => ?_⟩
    cases hx
    exact ⟨leak',h'⟩

/-- The end of `htable_insert` does so too, and nothing happens below the limit. -/
theorem Linked.grow (h : Linked leak ht) :
    ∃ ret ht',grow ht=.ok (ret,ht') ∧ (∃ leak',Linked leak' ht') ∧
      ((ht.mask : ℤ)*2≠ht.count → ret=1 ∧ ht'=ht) := by
  unfold ChainedTable.grow
  split_ifs with hfull
  · obtain ⟨r,hr,hlinked⟩ := h.htableResize (ht.width+1)
    rw [hr]
    cases r with
    | none => exact ⟨_,_,rfl,⟨leak,h⟩,fun hne => absurd hfull hne⟩
    | some ht' => exact ⟨_,_,rfl,hlinked ht' rfl,fun hne => absurd hfull hne⟩
  · exact ⟨_,_,rfl,⟨leak,h⟩,fun _ => ⟨rfl,rfl⟩⟩

/-- The table after `htable_insert` has made its entry, before it looks for a resize,
and whether a node was added. -/
inductive Entered (ht : Table α) (id : ℤ) (data : Option α) : Table α → Bool → Prop
  /-- In the embedded node of an empty slot. -/
  | vacant (hempty : (ht.table (slot ht.mask id)).id=-1) : Entered ht id data
      (putSlot ht (slot ht.mask id) {ht.table (slot ht.mask id) with id := id,data := data}
        (ht.count+1)) true
  /-- The embedded node has the id. -/
  | head (hempty : (ht.table (slot ht.mask id)).id≠-1) (hhead : (ht.table (slot ht.mask id)).id=id) :
      Entered ht id data (putSlot ht (slot ht.mask id)
        {ht.table (slot ht.mask id) with data := data} ht.count) false
  /-- A node of the chain has the id. -/
  | chain {front rest : List (Node α)} {n : Node α} (hempty : (ht.table (slot ht.mask id)).id≠-1)
      (hhead : (ht.table (slot ht.mask id)).id≠id)
      (hnext : (ht.table (slot ht.mask id)).next=front++n::rest) (hid : n.id=id)
      (hfront : ∀ m∈front,m.id≠id) :
      Entered ht id data (putSlot ht (slot ht.mask id) {ht.table (slot ht.mask id) with
        next := front++{n with data := data}::rest} ht.count) false
  /-- In a new node. -/
  | behind (hempty : (ht.table (slot ht.mask id)).id≠-1) (hhead : (ht.table (slot ht.mask id)).id≠id)
      (hchain : ∀ n∈(ht.table (slot ht.mask id)).next,n.id≠id) :
      Entered ht id data (allocate (putSlot ht (slot ht.mask id) {ht.table (slot ht.mask id) with
        next := ⟨⟨id,data⟩,ht.fresh⟩::(ht.table (slot ht.mask id)).next} (ht.count+1))) true

/-- Making an entry allocates at most the node that it links. -/
theorem Linked.entered {added : Bool} (h : Linked leak ht) (he : Entered ht id data ht' added) :
    Linked leak ht' := by
  have hi := HashTableMap.slot_lt ht.mask id
  cases he with
  | vacant => exact h.putSlot hi (by rfl) _
  | head => exact h.putSlot hi (by rfl) _
  | chain hempty hhead hnext =>
    refine h.putSlot hi ?_ _
    simp [Slot.addrs,hnext]
  | behind => exact h.allocate hi (by rfl) _

/-- `htable_insert` makes its entry, and looks for a resize if a node was added. -/
theorem Linked.htableInsert_eq (h : Linked leak ht) (id : ℤ) (data : Option α) :
    ∃ ht' added,Entered ht id data ht' added ∧
      htableInsert ht id data=if added then ChainedTable.grow ht' else .ok (0,ht') := by
  unfold htableInsert
  by_cases hempty : (ht.table (slot ht.mask id)).id=-1
  · exact ⟨_,_,.vacant hempty,if_pos hempty⟩
  by_cases hhead : (ht.table (slot ht.mask id)).id=id
  · refine ⟨_,_,.head hempty hhead,?_⟩
    rw [if_neg hempty,if_pos hhead]
    rfl
  rcases walk_cases (h.readable id) id with ⟨hw,hchain⟩|⟨front,n,rest,hw,hnext,hid,hfront⟩
  · refine ⟨_,_,.behind hempty hhead hchain,?_⟩
    rw [if_neg hempty,if_neg hhead,hw]
    rfl
  · refine ⟨_,_,.chain hempty hhead hnext hid hfront,?_⟩
    rw [if_neg hempty,if_neg hhead,hw]
    rfl

/-- `htable_insert` does not fault, and the table stays linked. -/
theorem Linked.htableInsert (h : Linked leak ht) (id : ℤ) (data : Option α) :
    ∃ ret ht',ChainedTable.htableInsert ht id data=.ok (ret,ht') ∧ ∃ leak',Linked leak' ht' := by
  obtain ⟨ht₁,added,he,hinsert⟩ := h.htableInsert_eq id data
  cases added with
  | true =>
    obtain ⟨ret,ht',hgrow,hlinked,-⟩ := (h.entered he).grow
    exact ⟨ret,ht',hinsert.trans hgrow,hlinked⟩
  | false => exact ⟨0,ht₁,hinsert,leak,h.entered he⟩

/-- An insertion without a resize loses no node. -/
theorem Linked.of_htableInsert {ret : ℤ} (h : Linked leak ht) (hfull : (ht.mask : ℤ)*2≠ht.count+1)
    (hinsert : ChainedTable.htableInsert ht id data=.ok (ret,ht')) : Linked leak ht' := by
  obtain ⟨ht₁,added,he,heq⟩ := h.htableInsert_eq id data
  have hlinked := h.entered he
  rw [hinsert] at heq
  cases added with
  | false =>
    cases heq
    exact hlinked
  | true =>
    have hsame : (ht₁.mask : ℤ)*2≠ht₁.count := by
      cases he with
      | vacant => exact hfull
      | behind => exact hfull
    obtain ⟨ret',ht₂,hgrow,-,hnone⟩ := hlinked.grow
    obtain ⟨-,rfl⟩ := hnone hsame
    cases heq.trans hgrow
    exact hlinked

/-- An insertion into an empty slot. -/
theorem htableInsert_vacant (h : ht.table (slot ht.mask id)=Slot.cleared)
    (hfull : (ht.mask : ℤ)*2≠ht.count+1) (data : Option α) : htableInsert ht id data=
      .ok (1,putSlot ht (slot ht.mask id) ⟨⟨id,data⟩,[]⟩ (ht.count+1)) := by
  simp only [htableInsert,h,Slot.cleared,if_true,grow]
  exact if_neg hfull

/-- An insertion behind the only node of a slot. -/
theorem htableInsert_second {e : DycoHentry α} (h : ht.table (slot ht.mask id)=⟨e,[]⟩)
    (hempty : e.id≠-1) (hhead : e.id≠id) (hfull : (ht.mask : ℤ)*2≠ht.count+1) (data : Option α) :
    htableInsert ht id data=.ok (1,allocate (putSlot ht (slot ht.mask id)
      ⟨e,[⟨⟨id,data⟩,ht.fresh⟩]⟩ (ht.count+1))) := by
  simp only [htableInsert,h,if_neg hempty,if_neg hhead,walk]
  exact if_neg hfull

/-- The deletion of the only node of a slot undoes its insertion. -/
theorem htableDelete_inserted (h : ht.table (slot ht.mask id)=Slot.cleared) (hid : id≠-1)
    (data : Option α) :
    htableDelete (putSlot ht (slot ht.mask id) ⟨⟨id,data⟩,[]⟩ (ht.count+1)) id=.ok (0,ht) := by
  have hslot : (putSlot ht (slot ht.mask id) ⟨⟨id,data⟩,[]⟩ (ht.count+1)).table (slot ht.mask id)=
      ⟨⟨id,data⟩,[]⟩ := Function.update_self ..
  have hback : vacate (putSlot ht (slot ht.mask id) ⟨⟨id,data⟩,[]⟩ (ht.count+1))
      (slot ht.mask id)=ht := by
    have htable : Function.update ht.table (slot ht.mask id) Slot.cleared=ht.table := by
      rw [← h,Function.update_eq_self]
    simp only [vacate,hslot]
    simp only [putSlot,Function.update_idem,add_sub_cancel_right]
    exact congrArg (fun table => {ht with table := table}) htable
  have hdelete : htableDelete (putSlot ht (slot ht.mask id) ⟨⟨id,data⟩,[]⟩ (ht.count+1)) id=
      .ok (0,vacate (putSlot ht (slot ht.mask id) ⟨⟨id,data⟩,[]⟩ (ht.count+1)) (slot ht.mask id)) := by
    refine htableDelete_alone ?_ ?_ ?_
    · exact fun he => hid ((congrArg (fun b : Slot α => b.id) hslot).symm.trans he)
    · exact congrArg (fun b : Slot α => b.id) hslot
    · exact congrArg Slot.next hslot
  rw [hdelete,hback]

/-! ## The table of entries -/

/-- A slot without the addresses. -/
def Slot.plain (b : Slot α) : Bucket α := ⟨b.toDycoHentry,b.next.map Node.toDycoHentry⟩

/-- The table without the addresses. -/
def plain (ht : Table α) : DycoHtable α := ⟨ht.width,ht.mask,ht.count,fun i => (ht.table i).plain⟩

/-- Forgetting the addresses of one replaced slot. -/
theorem plain_update (table : ℕ → Slot α) (idx : ℕ) (b : Slot α) :
    (fun i => (Function.update table idx b i).plain)=
      Function.update (fun i => (table i).plain) idx b.plain := by
  funext i
  exact Function.apply_update (fun _ => Slot.plain) table idx b i

/-- Replacing a slot commutes with forgetting the addresses. -/
theorem plain_putSlot (ht : Table α) (idx : ℕ) (b : Slot α) (count : ℤ) :
    plain (putSlot ht idx b count)=putBucket (plain ht) idx b.plain count := by
  simp only [plain,putSlot,putBucket,plain_update]

/-- The allocator is not seen without addresses. -/
theorem plain_allocate (ht : Table α) : plain (allocate ht)=plain ht := rfl

/-- The heap is not seen without addresses. -/
theorem plain_heap (ht : Table α) (heap : List ℕ) : plain {ht with heap := heap}=plain ht := rfl

/-- An embedded node is entered as in the table without addresses. -/
theorem plain_rehashHead (ht : Table α) (e : DycoHentry α) :
    plain (rehashHead ht e)={plain ht with table := rehash ht.mask (plain ht).table e} := by
  unfold rehashHead rehash
  dsimp only
  by_cases hempty : (ht.table (slot ht.mask e.id)).id=-1
  · have hplain : ((plain ht).table (slot ht.mask e.id)).id=-1 := hempty
    rw [if_pos hempty,if_pos hplain,plain_putSlot]
    rfl
  · have hplain : ((plain ht).table (slot ht.mask e.id)).id≠-1 := hempty
    rw [if_neg hempty,if_neg hplain,plain_allocate,plain_putSlot]
    rfl

/-- A node of a chain is entered as in the table without addresses. -/
theorem plain_rehashNode (h : rehashNode ht n=.ok ht') :
    plain ht'={plain ht with table := rehash ht.mask (plain ht).table n.toDycoHentry} := by
  unfold rehashNode at h
  unfold rehash
  dsimp only at h ⊢
  split_ifs at h with hread hempty
  · have hplain : ((plain ht).table (slot ht.mask n.id)).id=-1 := hempty
    obtain ⟨heap,-,rfl⟩ := map_eq_ok h
    rw [if_pos hplain,plain_heap,plain_putSlot]
    rfl
  · have hplain : ((plain ht).table (slot ht.mask n.id)).id≠-1 := hempty
    cases h
    rw [if_neg hplain,plain_putSlot]
    rfl

/-- The nodes of a chain are entered as in the table without addresses. -/
theorem plain_rehashNodes (h : l.foldlM rehashNode ht=.ok ht') : plain ht'={plain ht with
    table := (l.map Node.toDycoHentry).foldl (rehash ht.mask) (plain ht).table} := by
  induction l generalizing ht with
  | nil =>
    cases h
    rfl
  | cons n l ih =>
    rw [List.foldlM_cons] at h
    obtain ⟨ht₁,hn,h⟩ := bind_eq_ok h
    have hfirst := plain_rehashNode hn
    have hmask : ht₁.mask=ht.mask := congrArg DycoHtable.mask hfirst
    rw [ih h,hmask,hfirst]
    rfl

/-- The second loop of `htable_resize` without the addresses. -/
theorem plain_resizeRounds {oldtable : ℕ → Slot α} {rounds : List ℕ}
    (h : rounds.foldlM (resizeRound oldtable) ht=.ok ht') : plain ht'={plain ht with
      table := rounds.foldl (fun newtable i =>
        if (oldtable i).plain.id=-1 then newtable
        else (oldtable i).plain.next.foldl (rehash ht.mask)
          (rehash ht.mask newtable (oldtable i).plain.toDycoHentry)) (plain ht).table} := by
  induction rounds generalizing ht with
  | nil =>
    cases h
    rfl
  | cons i rounds ih =>
    rw [List.foldlM_cons] at h
    obtain ⟨ht₁,hi,h⟩ := bind_eq_ok h
    have hround : plain ht₁={plain ht with
        table := (if (oldtable i).plain.id=-1 then (plain ht).table
          else (oldtable i).plain.next.foldl (rehash ht.mask)
            (rehash ht.mask (plain ht).table (oldtable i).plain.toDycoHentry))} := by
      unfold resizeRound at hi
      by_cases hempty : (oldtable i).id=-1
      · have hplain : (oldtable i).plain.id=-1 := hempty
        rw [if_pos hempty] at hi
        cases hi
        rw [if_pos hplain]
      · have hplain : (oldtable i).plain.id≠-1 := hempty
        rw [if_neg hempty] at hi
        have hmask : (rehashHead ht (oldtable i).toDycoHentry).mask=ht.mask :=
          congrArg DycoHtable.mask (plain_rehashHead ..)
        rw [plain_rehashNodes hi,plain_rehashHead,hmask,if_neg hplain]
        rfl
    have hmask : ht₁.mask=ht.mask := congrArg DycoHtable.mask hround
    rw [ih h,hmask,hround]
    rfl

/-- The new array of a resize is that of the table without addresses. -/
theorem plain_newTable (newsize : ℕ) :
    (fun i => (newTable newsize i : Slot α).plain)=HashTable.newTable newsize := by
  unfold newTable HashTable.newTable
  induction newsize with
  | zero => rfl
  | succ k ih =>
    simp only [List.range_succ,List.foldl_append,List.foldl_cons,List.foldl_nil,plain_update]
    rw [ih]
    rfl

/-- `htable_resize` refines the one of the table without addresses. -/
theorem plain_htableResize {width : ℕ} {r : Option (Table α)} (h : htableResize ht width=.ok r) :
    HashTable.htableResize (plain ht) width=r.map plain := by
  unfold htableResize at h
  unfold HashTable.htableResize
  by_cases hrefused : width=ht.width ∨ maxWidth<width
  · have hplain : width=(plain ht).width ∨ maxWidth<width := hrefused
    rw [if_pos hrefused] at h
    cases h
    rw [if_pos hplain]
    rfl
  · have hplain : ¬(width=(plain ht).width ∨ maxWidth<width) := hrefused
    rw [if_neg hrefused] at h
    obtain ⟨ht',hrounds,rfl⟩ := map_eq_ok h
    have hstart : plain ({ht with
        width := width,mask := 2^width-1,table := newTable (2^width)} : Table α)=
        ⟨width,2^width-1,ht.count,HashTable.newTable (2^width)⟩ := by
      rw [← plain_newTable]
      rfl
    rw [if_neg hplain,Option.map_some,plain_resizeRounds hrounds,hstart]
    rfl

/-- The end of `htable_insert` refines that of the table without addresses. -/
theorem plain_grow {ret : ℤ} (h : grow ht=.ok (ret,ht')) : HashTable.grow (plain ht)=(ret,plain ht') := by
  unfold grow at h
  unfold HashTable.grow
  by_cases hfull : (ht.mask : ℤ)*2=ht.count
  · have hplain : ((plain ht).mask : ℤ)*2=(plain ht).count := hfull
    rw [if_pos hfull] at h
    rw [if_pos hplain]
    obtain ⟨r,hr,hret⟩ := map_eq_ok h
    have hresize := plain_htableResize hr
    rw [show (plain ht).width=ht.width from rfl,hresize]
    cases r with
    | none =>
      cases hret
      rfl
    | some ht₁ =>
      cases hret
      rfl
  · have hplain : ¬((plain ht).mask : ℤ)*2=(plain ht).count := hfull
    rw [if_neg hfull] at h
    cases h
    rw [if_neg hplain]

/-- The loop of the replacement stops at the first entry with the id. -/
theorem assign_append {front rest : List (DycoHentry α)} {e : DycoHentry α} (he : e.id=id)
    (hf : ∀ x∈front,x.id≠id) :
    assign id data (front++e::rest)=some (front++{e with data := data}::rest) := by
  induction front with
  | nil => exact if_pos he
  | cons x front ih =>
    rw [List.cons_append,assign,if_neg (hf x List.mem_cons_self),
      ih fun y hy => hf y (List.mem_cons_of_mem _ hy)]
    rfl

/-- The loop of the deletion stops at the first entry with the id. -/
theorem unlink_append {front rest : List (DycoHentry α)} {e : DycoHentry α} (he : e.id=id)
    (hf : ∀ x∈front,x.id≠id) : unlink id (front++e::rest)=some (e.data,front++rest) := by
  induction front with
  | nil => exact if_pos he
  | cons x front ih =>
    rw [List.cons_append,unlink,if_neg (hf x List.mem_cons_self),
      ih fun y hy => hf y (List.mem_cons_of_mem _ hy)]
    rfl

/-- A chain without the id has no entry under it. -/
theorem find?_plain_of_none (h : ∀ n∈l,n.id≠id) :
    ((l.map Node.toDycoHentry).find? fun e => e.id=id)=none := by
  simpa using h

/-- Making an entry refines `htable_insert` of the table without addresses. -/
theorem plain_entered {added : Bool} (h : Entered ht id data ht' added) :
    HashTable.htableInsert (plain ht) id data=
      if added then HashTable.grow (plain ht') else (0,plain ht') := by
  unfold HashTable.htableInsert
  cases h with
  | vacant hempty =>
    have hplain : ((plain ht).table (slot (plain ht).mask id)).id=-1 := hempty
    rw [if_pos hplain,plain_putSlot]
    rfl
  | head hempty hhead =>
    have hplain : ((plain ht).table (slot (plain ht).mask id)).id≠-1 := hempty
    have hplain' : ((plain ht).table (slot (plain ht).mask id)).id=id := hhead
    rw [if_neg hplain,if_pos hplain',plain_putSlot]
    rfl
  | @chain front rest n hempty hhead hnext hid hfront =>
    have hplain : ((plain ht).table (slot (plain ht).mask id)).id≠-1 := hempty
    have hplain' : ((plain ht).table (slot (plain ht).mask id)).id≠id := hhead
    have hmap : ((plain ht).table (slot (plain ht).mask id)).next=
        front.map Node.toDycoHentry++n.toDycoHentry::rest.map Node.toDycoHentry := by
      show (ht.table (slot ht.mask id)).next.map _=_
      rw [hnext]
      simp
    have hplainFront : ∀ x∈front.map Node.toDycoHentry,x.id≠id := by simpa using hfront
    rw [if_neg hplain,if_neg hplain',hmap,assign_append hid hplainFront,plain_putSlot]
    simp [Slot.plain]
    rfl
  | behind hempty hhead hchain =>
    have hplain : ((plain ht).table (slot (plain ht).mask id)).id≠-1 := hempty
    have hplain' : ((plain ht).table (slot (plain ht).mask id)).id≠id := hhead
    have hassign : assign id data ((plain ht).table (slot (plain ht).mask id)).next=none :=
      HashTableMap.assign_of_none (find?_plain_of_none hchain)
    rw [if_neg hplain,if_neg hplain',hassign]
    refine congrArg HashTable.grow ?_
    rw [plain_allocate,plain_putSlot]
    rfl

/-- `htable_insert` without the addresses. -/
theorem plain_htableInsert {ret : ℤ} (hl : Linked leak ht)
    (h : htableInsert ht id data=.ok (ret,ht')) :
    HashTable.htableInsert (plain ht) id data=(ret,plain ht') := by
  obtain ⟨ht₁,added,he,hinsert⟩ := hl.htableInsert_eq id data
  rw [plain_entered he]
  rw [h] at hinsert
  cases added with
  | true => exact plain_grow hinsert.symm
  | false =>
    cases hinsert
    rfl

/-- `htable_delete` without the addresses. -/
theorem plain_htableDelete {ret : ℤ} (hl : Linked leak ht) (h : htableDelete ht id=.ok (ret,ht')) :
    (HashTable.htableDelete (plain ht) id).2.2=plain ht' := by
  unfold HashTable.htableDelete
  by_cases hempty : (ht.table (slot ht.mask id)).id=-1
  · have hplain : ((plain ht).table (slot (plain ht).mask id)).id=-1 := hempty
    rw [htableDelete_absent hl (.inl hempty)] at h
    cases h
    rw [if_pos hplain]
  have hplain : ((plain ht).table (slot (plain ht).mask id)).id≠-1 := hempty
  rw [if_neg hplain]
  by_cases hhead : (ht.table (slot ht.mask id)).id=id
  · have hplain' : ((plain ht).table (slot (plain ht).mask id)).id=id := hhead
    rw [if_pos hplain']
    cases hnext : (ht.table (slot ht.mask id)).next with
    | nil =>
      have hmap : ((plain ht).table (slot (plain ht).mask id)).next=[] := by
        show (ht.table (slot ht.mask id)).next.map _=_
        rw [hnext]
        rfl
      rw [htableDelete_alone hempty hhead hnext] at h
      cases h
      rw [hmap,vacate,plain_putSlot]
      simp only [Slot.plain,hnext]
      rfl
    | cons n rest =>
      have hmap : ((plain ht).table (slot (plain ht).mask id)).next=
          n.toDycoHentry::rest.map Node.toDycoHentry := by
        show (ht.table (slot ht.mask id)).next.map _=_
        rw [hnext]
        rfl
      rw [htableDelete_head hl hempty hhead hnext] at h
      cases h
      rw [hmap]
      show _=plain (putSlot ht (slot ht.mask id) ⟨n.toDycoHentry,rest⟩ (ht.count-1))
      rw [plain_putSlot]
      rfl
  · have hplain' : ((plain ht).table (slot (plain ht).mask id)).id≠id := hhead
    rw [if_neg hplain']
    rcases walk_cases (hl.readable id) id with ⟨-,hchain⟩|⟨front,n,rest,-,hnext,rfl,hfront⟩
    · have hunlink : unlink id ((plain ht).table (slot (plain ht).mask id)).next=none :=
        HashTableMap.unlink_of_none (find?_plain_of_none hchain)
      rw [htableDelete_absent hl (.inr ⟨hhead,hchain⟩)] at h
      cases h
      rw [hunlink]
    · have hmap : ((plain ht).table (slot (plain ht).mask n.id)).next=
          front.map Node.toDycoHentry++n.toDycoHentry::rest.map Node.toDycoHentry := by
        show (ht.table (slot ht.mask n.id)).next.map _=_
        rw [hnext]
        simp
      have hplainFront : ∀ x∈front.map Node.toDycoHentry,x.id≠n.id := by simpa using hfront
      rw [htableDelete_chain hl rfl hempty hhead hnext hfront] at h
      cases h
      rw [hmap,unlink_append rfl hplainFront]
      show _=plain (putSlot ht (slot ht.mask n.id)
        {ht.table (slot ht.mask n.id) with next := front++rest} (ht.count-1))
      rw [plain_putSlot,← List.map_append]
      rfl

/-- The loop over a chain without the addresses. -/
theorem plain_walk (h : ∀ n∈l,n.addr∈heap) (id : ℤ) : ∃ r,walk heap id l=.ok r ∧
    ((l.map Node.toDycoHentry).find? fun e => e.id=id)=r.map fun r => r.2.1.toDycoHentry := by
  rcases walk_cases h id with ⟨hw,hchain⟩|⟨front,n,rest,hw,rfl,hid,hfront⟩
  · exact ⟨none,hw,find?_plain_of_none hchain⟩
  · refine ⟨_,hw,?_⟩
    rw [List.map_append,List.find?_append,find?_plain_of_none hfront]
    simp [hid]

/-- `htable_find` without the addresses. -/
theorem plain_htableFind (hl : Linked leak ht) (id : ℤ) :
    htableFind ht id=.ok (HashTable.htableFind (plain ht) id) := by
  obtain ⟨r,hw,hfind⟩ := plain_walk (hl.readable id) id
  have hnext : (((plain ht).table (slot (plain ht).mask id)).next.find? fun e => e.id=id)=
      r.map fun r => r.2.1.toDycoHentry := hfind
  have hid : ((plain ht).table (slot (plain ht).mask id)).id=(ht.table (slot ht.mask id)).id := rfl
  unfold htableFind HashTable.htableFind
  dsimp only
  rw [hw,hnext,hid]
  split_ifs
  · rfl
  · rfl
  · cases r <;> rfl

end DycoCoroutine.ChainedTable
