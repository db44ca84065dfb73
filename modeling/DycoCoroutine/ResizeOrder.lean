import DycoCoroutine.HashTableMap

/-!
# The order in which a resize enters the nodes

`htable_resize` visits the old nodes slot by slot. The first one that comes to an empty
new slot is embedded there, and every later one is put right behind the embedded one.
Since only the first new slot is ever empty, this decides which embedded nodes need a
node of their own, and which of several nodes with the id 0 is found afterwards: the
others of them are nodes that an earlier resize has left in the slots it did not clear.
-/

namespace DycoCoroutine.ResizeOrder

open KeyedEntries HashTable HashTableMap

variable {α : Type*} {ht t : DycoHtable α} {table : ℕ → Bucket α} {e : DycoHentry α}
  {l rest : List (DycoHentry α)} {x y : List (DycoHentry α)} {id k : ℤ} {mask i : ℕ}

/-! ## Answers -/

/-- What `htable_find` and `htable_contains` say about an id. -/
def answer (ht : DycoHtable α) (id : ℤ) : Option (Option α) := (held ht id).map DycoHentry.data

/-- `htable_find` tells the data of the answer. -/
theorem htableFind_answer (ht : DycoHtable α) (id : ℤ) :
    htableFind ht id=(answer ht id).join := by
  rw [htableFind_eq,answer]
  cases held ht id <;> rfl

/-- `htable_contains` tells whether there is an answer. -/
theorem htableContains_answer (ht : DycoHtable α) (id : ℤ) :
    htableContains ht id=if (answer ht id).isSome then 1 else 0 := by
  rw [htableContains_eq,answer,Option.isSome_map]

/-- The two functions together tell the answer. -/
theorem answer_eq_iff : answer t id=answer ht k ↔
    htableFind t id=htableFind ht k ∧ htableContains t id=htableContains ht k := by
  rw [htableFind_answer,htableFind_answer,htableContains_answer,htableContains_answer]
  cases answer t id with
  | none => cases answer ht k <;> simp
  | some a => cases answer ht k <;> simp

/-! ## Entering nodes in a new table -/

/-- The nodes that come to an empty slot, as they are found in it. -/
def arrange : List (DycoHentry α) → List (DycoHentry α)
  | [] => []
  | e::rest => e::rest.reverse

/-- No node is lost on the way to its slot. -/
theorem arrange_perm (l : List (DycoHentry α)) : (arrange l).Perm l := by
  cases l with
  | nil => exact .refl _
  | cons e rest => exact (List.reverse_perm rest).cons e

/-- A node concerns its own slot only. -/
theorem rehash_of_ne {x : DycoHentry α} (h : slot mask x.id≠i) :
    rehash mask table x i=table i := by
  unfold rehash
  split_ifs
  · exact Function.update_of_ne (Ne.symm h) ..
  · exact Function.update_of_ne (Ne.symm h) ..

/-- A slot that is not empty keeps its first node. -/
theorem entries_rehash_used (mask : ℕ) (l : List (DycoHentry α)) (h : entries (table i)=e::rest) :
    entries (l.foldl (rehash mask) table i)=
      e::((l.filter fun x => slot mask x.id=i).reverse++rest) := by
  induction l generalizing table rest with
  | nil => exact h
  | cons x l ih =>
    have hused : (table i).id≠-1 := by
      intro hempty
      rw [entries_of_eq hempty] at h
      cases h
    rw [List.foldl_cons]
    by_cases hx : slot mask x.id=i
    · have hstep : entries (rehash mask table x i)=e::x::rest := by
        rw [entries_of_ne hused] at h
        obtain ⟨rfl,rfl⟩ := List.cons.inj h
        rw [rehash,hx,if_neg hused,Function.update_self]
        exact entries_mk hused
      rw [ih hstep,List.filter_cons_of_pos (by simpa using hx)]
      simp
    · have hstep : entries (rehash mask table x i)=e::rest := by
        rw [rehash_of_ne hx]
        exact h
      rw [ih hstep,List.filter_cons_of_neg (by simpa using hx)]

/-- A cleared slot takes the first node that comes to it. -/
theorem entries_rehash_cleared (mask : ℕ) (h : table i=Bucket.cleared) (hl : ∀ e∈l,e.id≠-1) :
    entries (l.foldl (rehash mask) table i)=arrange (l.filter fun x => slot mask x.id=i) := by
  induction l generalizing table with
  | nil =>
    rw [List.foldl_nil,h]
    rfl
  | cons x l ih =>
    rw [List.foldl_cons]
    by_cases hx : slot mask x.id=i
    · have hstep : entries (rehash mask table x i)=[x] := by
        have hempty : (table i).id=-1 := congrArg (fun b => b.id) h
        rw [rehash,hx,if_pos hempty,Function.update_self,h]
        exact entries_mk (hl x List.mem_cons_self)
      rw [entries_rehash_used mask l hstep,List.filter_cons_of_pos (by simpa using hx),
        List.append_nil]
      rfl
    · rw [ih ((rehash_of_ne hx).trans h) fun e he => hl e (List.mem_cons_of_mem _ he),
        List.filter_cons_of_neg (by simpa using hx)]

/-- The slot of an id in a table twice as wide. -/
def newSlot (ht : DycoHtable α) (id : ℤ) : ℕ := slot (2^(ht.width+1)-1) id

/-- The table twice as wide. -/
def grown (ht : DycoHtable α) : DycoHtable α := {ht with
  width := ht.width+1
  mask := 2^(ht.width+1)-1
  table := (visited ht).foldl (rehash (2^(ht.width+1)-1)) (newTable (2^(ht.width+1)))}

/-- The first slot of the new array is cleared. -/
theorem newTable_zero (width : ℕ) : (newTable (2^width) 0 : Bucket α)=Bucket.cleared := by
  obtain ⟨n,hn⟩ := Nat.exists_eq_add_one.mpr (Nat.two_pow_pos width)
  rw [hn,newTable_succ,Function.update_self]

/-- The other slots of the new array are as `calloc` leaves them. -/
theorem newTable_of_ne (width : ℕ) (hi : i≠0) : (newTable (2^width) i : Bucket α)=Bucket.zeroed := by
  obtain ⟨n,hn⟩ := Nat.exists_eq_add_one.mpr (Nat.two_pow_pos width)
  rw [hn,newTable_succ,Function.update_of_ne hi]

/-- The loop of a resize meets no node marked as empty. -/
theorem id_ne_of_visited (hwf : ∀ i,WellFormed (ht.table i)) (he : e∈visited ht) : e.id≠-1 := by
  obtain ⟨i,-,he⟩ := mem_spread.mp he
  exact (hwf i).id_ne he

/-- The first new slot. -/
theorem entries_grown_zero (hwf : ∀ i,WellFormed (ht.table i)) :
    entries ((grown ht).table 0)=arrange ((visited ht).filter fun x => newSlot ht x.id=0) :=
  entries_rehash_cleared _ (newTable_zero _) fun _ he => id_ne_of_visited hwf he

/-- The other new slots begin with a node that nobody has inserted. -/
theorem entries_grown (ht : DycoHtable α) (hi : i≠0) : entries ((grown ht).table i)=
    ⟨0,none⟩::((visited ht).filter fun x => newSlot ht x.id=i).reverse := by
  have hstart : entries (newTable (2^(ht.width+1)) i : Bucket α)=[⟨0,none⟩] := by
    rw [newTable_of_ne _ hi]
    rfl
  have h := entries_rehash_used (2^(ht.width+1)-1) (visited ht) hstart
  rw [List.append_nil] at h
  exact h

/-- The nodes with an id in its new slot are those with it in the old table. -/
theorem filter_grown (hwf : ∀ i,WellFormed (ht.table i)) (k : ℤ) :
    ((entries ((grown ht).table (newSlot ht k))).filter fun e => e.id=k).Perm
      ((visited ht).filter fun e => e.id=k) := by
  have hsub : ((visited ht).filter fun e => newSlot ht e.id=newSlot ht k).filter
      (fun e => e.id=k)=(visited ht).filter fun e => e.id=k := by
    rw [List.filter_filter]
    refine List.filter_congr fun e _ => ?_
    by_cases he : e.id=k
    · simp [he]
    · simp [he]
  by_cases hk : newSlot ht k=0
  · rw [hk] at hsub ⊢
    rw [entries_grown_zero hwf,← hsub]
    exact (arrange_perm _).filter _
  · have hne : ¬(0 : ℤ)=k := by
      rintro rfl
      exact hk (slot_zero _)
    rw [entries_grown ht hk,List.filter_cons_of_neg (by simpa using hne),← hsub]
    exact (List.reverse_perm _).filter _

/-- Whether the embedded node of an old slot needs a node of its own in the new table: it
is not the first one that comes to the first slot. -/
def takesNode (ht : DycoHtable α) (i : ℕ) : Bool :=
  (ht.table i).id≠-1 && (newSlot ht (ht.table i).id≠0 ||
    (spread (fun j => entries (ht.table j)) i).any fun e => newSlot ht e.id=0)

/-- A slot without entries is one marked as empty. -/
theorem entries_eq_nil_iff {b : Bucket α} : entries b=[] ↔ b.id=-1 := by
  unfold entries
  split_ifs with h
  · simp [h]
  · simp [h]

/-- The new slot for the embedded node of an old one, when the slots before it are done. -/
theorem takesNode_iff (hwf : ∀ i,WellFormed (ht.table i)) (hi : (ht.table i).id≠-1) :
    takesNode ht i=true ↔ ((spread (fun j => entries (ht.table j)) i).foldl
      (rehash (2^(ht.width+1)-1)) (newTable (2^(ht.width+1)))
      (newSlot ht (ht.table i).id)).id≠-1 := by
  by_cases hslot : newSlot ht (ht.table i).id=0
  · have hreal : ∀ e∈spread (fun j => entries (ht.table j)) i,e.id≠-1 := by
      intro e he
      obtain ⟨j,-,he⟩ := mem_spread.mp he
      exact (hwf j).id_ne he
    have hentries := entries_rehash_cleared (2^(ht.width+1)-1) (newTable_zero (ht.width+1)) hreal
    simp only [← newSlot.eq_def] at hentries
    rw [hslot,Ne,← entries_eq_nil_iff,hentries]
    have harrange : ∀ l : List (DycoHentry α),arrange l=[] ↔ l=[] := fun l => by
      cases l <;> simp [arrange]
    rw [harrange,List.filter_eq_nil_iff]
    simp [takesNode,hi,hslot]
  · have hstart : entries (newTable (2^(ht.width+1)) (newSlot ht (ht.table i).id) : Bucket α)=
        [⟨0,none⟩] := by
      rw [newTable_of_ne _ hslot]
      rfl
    have hentries := entries_rehash_used (2^(ht.width+1)-1)
      (spread (fun j => entries (ht.table j)) i) hstart
    rw [Ne,← entries_eq_nil_iff,hentries]
    simp [takesNode,hi,hslot]

/-- No other node has the id of the one that is found under it. -/
def Lone (ht : DycoHtable α) (k : ℤ) : Prop :=
  ((visited ht).filter fun e => e.id=k).Perm (held ht k).toList

/-- A search finds the only node that there is. -/
theorem find?_of_perm {o : Option (DycoHentry α)} {p : DycoHentry α → Bool}
    (h : (l.filter p).Perm o.toList) : l.find? p=o := by
  rw [← List.head?_filter]
  cases o with
  | none => rw [List.perm_nil.mp h]; rfl
  | some e => rw [List.perm_singleton.mp h]; rfl

/-- An id with one node is answered alike after the resize. -/
theorem held_grown (hwf : ∀ i,WellFormed (ht.table i)) (h : Lone ht k) :
    held (grown ht) k=held ht k :=
  find?_of_perm ((filter_grown hwf k).trans h)

/-! ## Tables before and after their first resize -/

/-- A table that was never resized: nodes with the id 0 are in the first slot only, and
no id has two nodes. -/
structure Clean (ht : DycoHtable α) : Prop where
  apart : ∀ i,0 < i → ∀ e∈entries (ht.table i),e.id≠0
  lone : ∀ k,Lone ht k

/-- A table that was resized: every slot but the first begins with a node that nobody has
inserted. -/
structure Filled (ht : DycoHtable α) : Prop where
  wide : 0<ht.mask
  filled : ∀ i,0 < i → i ≤ ht.mask →
    ∃ chain,entries (ht.table i)=⟨0,none⟩::chain ∧ ∀ e∈chain,e.id≠0
  lone : ∀ k≠0,Lone ht k

/-- What a resize must find for the answer about the id 0 to stay: no resize has gone
before; or 0 has an entry, without data or as the first node of its slot that the new
table has in the first slot as well. -/
def keepsZero (ht : DycoHtable α) : Bool :=
  (ht.table 1).id≠0 || (held ht 0).any fun e => e.data.isNone ||
    ((entries (ht.table 0)).find? fun x => newSlot ht x.id=0).any fun x => x.id=0

/-- The new table and all its nodes. -/
theorem grown_spec (hwf : ∀ i,WellFormed (ht.table i)) (hwidth : ht.width < maxWidth) :
    (∀ i,WellFormed ((grown ht).table i)) ∧ (visited (grown ht) : Multiset (DycoHentry α))=
      (visited ht : Multiset (DycoHentry α))+Multiset.replicate (grown ht).mask ⟨0,none⟩ := by
  obtain ⟨t,ht',-,-,hwf',hall,-⟩ := htableResize_spec hwidth hwf
  cases (htableResize_eq hwidth).symm.trans ht'
  exact ⟨hwf',hall⟩

/-- The resize of a table with one node for each id leaves a filled one. -/
theorem filled_grown (hwf : ∀ i,WellFormed (ht.table i)) (hwidth : ht.width < maxWidth)
    (hlone : ∀ k≠0,Lone ht k) : Filled (grown ht) := by
  refine ⟨?_,fun i hi _ => ⟨_,entries_grown ht hi.ne',fun e he hzero => ?_⟩,fun k hk => ?_⟩
  · show 0<2^(ht.width+1)-1
    have := Nat.one_lt_two_pow (Nat.succ_ne_zero ht.width)
    omega
  · have hslot := List.of_mem_filter (List.mem_reverse.mp he)
    rw [hzero,newSlot,slot_zero] at hslot
    exact hi.ne (of_decide_eq_true hslot)
  · have hnone : (Multiset.replicate (grown ht).mask (⟨0,none⟩ : DycoHentry α)).filter
        (fun e => e.id=k)=0 := by
      refine Multiset.filter_eq_nil.mpr fun e he => ?_
      rw [Multiset.eq_of_mem_replicate he]
      exact Ne.symm hk
    have hsame := congrArg (Multiset.filter fun e => e.id=k) (grown_spec hwf hwidth).2
    rw [Multiset.filter_add,hnone,add_zero,Multiset.filter_coe,Multiset.filter_coe] at hsame
    unfold Lone
    rw [held_grown hwf (hlone k hk)]
    exact (Multiset.coe_eq_coe.mp hsame).trans (hlone k hk)

/-- The second slot of a resized table begins with the id 0. -/
theorem head_of_filled (h : Filled ht) : (ht.table 1).id=0 := by
  obtain ⟨chain,hentries,-⟩ := h.filled 1 Nat.one_pos h.wide
  unfold entries at hentries
  split_ifs at hentries
  exact congrArg DycoHentry.id (List.cons.inj hentries).1

/-- The second slot of a table that was never resized does not. -/
theorem head_of_clean (h : Clean ht) : (ht.table 1).id≠0 := by
  intro hzero
  have hne : (ht.table 1).id≠-1 := by
    rw [hzero]
    decide
  refine h.apart 1 Nat.one_pos (ht.table 1).toDycoHentry ?_ hzero
  rw [entries_of_ne hne]
  exact List.mem_cons_self

/-- The nodes with the id 0 that a resize has left behind the first slot. -/
theorem find?_behind (h : Filled ht) : ∃ behind,visited ht=entries (ht.table 0)++behind ∧
    ((behind.filter fun x => newSlot ht x.id=0).reverse.find? fun e => e.id=0)=
      some ⟨0,none⟩ := by
  refine ⟨(List.range ht.mask).flatMap fun i => entries (ht.table (i+1)),?_,?_⟩
  · rw [visited,spread,List.range_succ_eq_map,List.flatMap_cons,List.flatMap_map]
  · have hzero : ∀ e∈(List.range ht.mask).flatMap fun i => entries (ht.table (i+1)),
        e.id=0 → e=⟨0,none⟩ := by
      intro e he hid
      obtain ⟨i,hi,he⟩ := List.mem_flatMap.mp he
      obtain ⟨chain,hentries,hchain⟩ := h.filled (i+1) (Nat.succ_pos i) (List.mem_range.mp hi)
      rw [hentries] at he
      rcases List.mem_cons.mp he with rfl|he
      · rfl
      · exact absurd hid (hchain e he)
    obtain ⟨chain,hentries,-⟩ := h.filled 1 Nat.one_pos h.wide
    have hfirst : (⟨0,none⟩ : DycoHentry α)∈(List.range ht.mask).flatMap fun i =>
        entries (ht.table (i+1)) := by
      refine List.mem_flatMap.mpr ⟨0,List.mem_range.mpr h.wide,?_⟩
      rw [hentries]
      exact List.mem_cons_self
    generalize (List.range ht.mask).flatMap (fun i => entries (ht.table (i+1)))=behind at *
    cases hfind : (behind.filter fun x => newSlot ht x.id=0).reverse.find? fun e => e.id=0 with
    | none =>
      have hmem : (⟨0,none⟩ : DycoHentry α)∈
          (behind.filter fun x => newSlot ht x.id=0).reverse :=
        List.mem_reverse.mpr (List.mem_filter.mpr ⟨hfirst,decide_eq_true (slot_zero _)⟩)
      exact absurd (decide_eq_true rfl) (List.find?_eq_none.mp hfind _ hmem)
    | some e =>
      have hmem := List.mem_of_mem_filter (List.mem_reverse.mp (List.mem_of_find?_eq_some hfind))
      have hid : e.id=0 := by simpa using List.find?_some hfind
      rw [hzero e hmem hid]

/-- The answer about the id 0 after another resize. -/
theorem answer_grown_zero (hwf : ∀ i,WellFormed (ht.table i)) (h : Filled ht) :
    answer (grown ht) 0=answer ht 0 ↔ ((held ht 0).any fun e => e.data.isNone ||
      ((entries (ht.table 0)).find? fun x => newSlot ht x.id=0).any fun x => x.id=0)=true := by
  obtain ⟨behind,hvisited,hbehind⟩ := find?_behind h
  have hnew : held (grown ht) 0=(arrange (((entries (ht.table 0)).filter fun x =>
      newSlot ht x.id=0)++behind.filter fun x => newSlot ht x.id=0)).find? fun e => e.id=0 := by
    show (entries ((grown ht).table (slot _ 0))).find? _=_
    rw [slot_zero,entries_grown_zero hwf,hvisited,List.filter_append]
  have hold : held ht 0=((entries (ht.table 0)).filter fun x => newSlot ht x.id=0).find?
      fun e => e.id=0 := by
    show (entries (ht.table (slot _ 0))).find? _=_
    rw [slot_zero,List.find?_filter]
    congr 1
    funext e
    by_cases he : e.id=0
    · simp [he,newSlot,slot_zero]
    · simp [he]
  have hhead : ((entries (ht.table 0)).find? fun x => newSlot ht x.id=0)=
      ((entries (ht.table 0)).filter fun x => newSlot ht x.id=0).head? := (List.head?_filter ..).symm
  rw [answer,answer,hnew,hold,hhead]
  cases (entries (ht.table 0)).filter fun x => newSlot ht x.id=0 with
  | nil =>
    have hsome : ((arrange (behind.filter fun x => newSlot ht x.id=0)).find?
        fun e => e.id=0).isSome := by
      refine List.find?_isSome.mpr ⟨⟨0,none⟩,?_,by simp⟩
      refine (arrange_perm _).mem_iff.mpr (List.mem_reverse.mp ?_)
      exact List.mem_of_find?_eq_some hbehind
    obtain ⟨e,he⟩ := Option.isSome_iff_exists.mp hsome
    rw [List.nil_append,he]
    simp
  | cons first more =>
    show ((first::(more++_).reverse).find? _).map _=_ ↔ _
    by_cases hfirst : first.id=0
    · simp [hfirst]
    · have hskip : ((first::(more++behind.filter fun x => newSlot ht x.id=0).reverse).find?
          fun e => e.id=0)=some ⟨0,none⟩ := by
        rw [List.find?_cons_of_neg (by simpa using hfirst),List.reverse_append,List.find?_append,
          hbehind]
        rfl
      rw [hskip]
      cases ((first::more).find? fun e => e.id=0) with
      | none => simp
      | some e => cases hdata : e.data <;> simp [hdata,hfirst]

/-- A resize keeps all answers iff it keeps that about the id 0. -/
theorem answers_grown_iff (hwf : ∀ i,WellFormed (ht.table i)) (h : Clean ht ∨ Filled ht) :
    (∀ k,answer (grown ht) k=answer ht k) ↔ keepsZero ht=true := by
  have hlone : ∀ k,Lone ht k → answer (grown ht) k=answer ht k := fun k hk => by
    rw [answer,held_grown hwf hk]
    rfl
  rcases h with h|h
  · have hhead := head_of_clean h
    exact ⟨fun _ => by simp [keepsZero,hhead],fun _ k => hlone k (h.lone k)⟩
  · have hhead := head_of_filled h
    have hkeeps : keepsZero ht=((held ht 0).any fun e => e.data.isNone ||
        ((entries (ht.table 0)).find? fun x => newSlot ht x.id=0).any fun x => x.id=0) := by
      simp [keepsZero,hhead]
    rw [hkeeps,← answer_grown_zero hwf h]
    refine ⟨fun hall => hall 0,fun hzero k => ?_⟩
    by_cases hk : k=0
    · rw [hk]
      exact hzero
    · exact hlone k (h.lone k hk)

/-! ## One node in place of another -/

/-- In the slot of `id` the nodes `x` are replaced by `y`, both of this id, behind nodes of
other ids. A node that is added to a slot in use comes behind its embedded one. -/
structure Splice (ht t : DycoHtable α) (id : ℤ) (x y : List (DycoHentry α)) : Prop where
  width : t.width=ht.width
  mask : t.mask=ht.mask
  others : ∀ i≠slot ht.mask id,t.table i=ht.table i
  wf : WellFormed (t.table (slot ht.mask id))
  old : ∀ e∈x,e.id=id
  new : ∀ e∈y,e.id=id
  nodes : ∃ front rest,entries (ht.table (slot ht.mask id))=front++(x++rest) ∧
    entries (t.table (slot ht.mask id))=front++(y++rest) ∧ (∀ e∈front,e.id≠id) ∧
    (front=[] → x=[] → rest=[])

/-- An entry that is replaced keeps the slots in order. -/
theorem Splice.wellFormed (h : Splice ht t id x y) (hwf : ∀ i,WellFormed (ht.table i)) :
    ∀ i,WellFormed (t.table i) := by
  intro i
  by_cases hi : i=slot ht.mask id
  · subst hi
    exact h.wf
  · rw [h.others i hi]
    exact hwf i

/-- A search passes over nodes of other ids. -/
theorem find?_append_of_ne (hx : ∀ e∈x,e.id≠k) (l : List (DycoHentry α)) :
    ((x++l).find? fun e => e.id=k)=l.find? fun e => e.id=k := by
  have hnone : (x.find? fun e => e.id=k)=none := by simpa using hx
  rw [List.find?_append,hnone,Option.none_or]

/-- Other ids are found as before. -/
theorem Splice.held_of_ne (h : Splice ht t id x y) (hk : k≠id) : held t k=held ht k := by
  unfold held
  rw [h.mask]
  by_cases hslot : slot ht.mask k=slot ht.mask id
  · obtain ⟨front,rest,hold,hnew,-⟩ := h.nodes
    have hx : ∀ e∈x,e.id≠k := fun e he hek => hk (hek.symm.trans (h.old e he))
    have hy : ∀ e∈y,e.id≠k := fun e he hek => hk (hek.symm.trans (h.new e he))
    rw [hslot,hold,hnew,List.find?_append,find?_append_of_ne hy rest,
      ← find?_append_of_ne hx rest,← List.find?_append]
  · rw [h.others _ hslot]

/-- The new node is found. -/
theorem Splice.held_self (h : Splice ht t id x [e]) : held t id=some e := by
  obtain ⟨front,rest,-,hnew,hfront,-⟩ := h.nodes
  unfold held
  rw [h.mask,hnew,find?_append_of_ne hfront,List.singleton_append,List.find?_cons_of_pos]
  simpa using h.new e (List.mem_singleton_self e)

/-- The nodes that a resize would meet change by those replaced. -/
theorem Splice.visited (h : Splice ht t id x y) :
    (visited t : Multiset (DycoHentry α))+x=visited ht+y := by
  obtain ⟨front,rest,hold,hnew,-⟩ := h.nodes
  have htable : t.table=Function.update ht.table (slot ht.mask id) (t.table (slot ht.mask id)) := by
    funext i
    by_cases hi : i=slot ht.mask id
    · rw [hi,Function.update_self]
    · rw [Function.update_of_ne hi,h.others i hi]
  have hchange : (entries (t.table (slot ht.mask id)) : Multiset (DycoHentry α))+x=
      entries (ht.table (slot ht.mask id))+y := by
    rw [hold,hnew]
    simp only [← Multiset.coe_add]
    abel
  have hall := contents_update (slot_lt ht.mask id) hchange
  rw [← htable] at hall
  unfold HashTable.visited
  rw [h.mask]
  exact hall

/-- The nodes with another id stay. -/
theorem Splice.filter_of_ne (h : Splice ht t id x y) (hk : k≠id) :
    ((HashTable.visited t).filter fun e => e.id=k).Perm
      ((HashTable.visited ht).filter fun e => e.id=k) := by
  have hnone : ∀ {l : List (DycoHentry α)},(∀ e∈l,e.id=id) →
      (l : Multiset (DycoHentry α)).filter (fun e => e.id=k)=0 := fun {l} hl =>
    Multiset.filter_eq_nil.mpr fun e he hek => hk (hek.symm.trans (hl e he))
  have hsame := congrArg (Multiset.filter fun e => e.id=k) h.visited
  rw [Multiset.filter_add,Multiset.filter_add,hnone h.old,hnone h.new,add_zero,add_zero,
    Multiset.filter_coe,Multiset.filter_coe] at hsame
  exact Multiset.coe_eq_coe.mp hsame

/-- What is left of the nodes with the id. -/
theorem Splice.filter_self (h : Splice ht t id x y)
    (hx : ((HashTable.visited ht).filter fun e => e.id=id).Perm x) :
    ((HashTable.visited t).filter fun e => e.id=id).Perm y := by
  have hall : ∀ {l : List (DycoHentry α)},(∀ e∈l,e.id=id) →
      (l : Multiset (DycoHentry α)).filter (fun e => e.id=id)=l := fun {l} hl =>
    Multiset.filter_eq_self.mpr hl
  have hsame := congrArg (Multiset.filter fun e => e.id=id) h.visited
  rw [Multiset.filter_add,Multiset.filter_add,hall h.old,hall h.new,Multiset.filter_coe,
    Multiset.filter_coe,Multiset.coe_eq_coe.mpr hx,add_comm] at hsame
  exact Multiset.coe_eq_coe.mp (add_left_cancel hsame)

/-- A node is put in, or one is taken out. -/
theorem Splice.lone {o : Option (DycoHentry α)} (h : Splice ht t id (held ht id).toList o.toList)
    (hk : Lone ht k) : Lone t k := by
  by_cases hid : k=id
  · subst hid
    have hperm := h.filter_self hk
    unfold Lone
    cases o with
    | some e =>
      rw [h.held_self]
      exact hperm
    | none =>
      have hnone : held t k=none := by
        refine List.find?_eq_none.mpr fun e he heq => ?_
        have hmem : e∈(HashTable.visited t).filter fun e => e.id=k :=
          List.mem_filter.mpr ⟨mem_spread.mpr ⟨_,slot_lt _ _,he⟩,heq⟩
        exact absurd (hperm.mem_iff.mp hmem) (List.not_mem_nil)
      rw [hnone]
      exact hperm
  · unfold Lone
    rw [h.held_of_ne hid]
    exact (h.filter_of_ne hid).trans hk

/-- Insertions and deletions keep a table clean until the first resize. -/
theorem Splice.clean {o : Option (DycoHentry α)} (h : Splice ht t id (held ht id).toList o.toList)
    (hc : Clean ht) : Clean t := by
  refine ⟨fun i hi e he => ?_,fun k => h.lone (hc.lone k)⟩
  by_cases hslot : i=slot ht.mask id
  · subst hslot
    obtain ⟨front,rest,hold,hnew,-⟩ := h.nodes
    have hid : id≠0 := by
      rintro rfl
      rw [slot_zero] at hi
      exact lt_irrefl 0 hi
    have hkept : ∀ e∈front++((held ht id).toList++rest),e.id≠0 := hold ▸ hc.apart _ hi
    rw [hnew] at he
    simp only [List.mem_append] at he hkept
    rcases he with he|he|he
    · exact hkept e (.inl he)
    · rw [h.new e he]
      exact hid
    · exact hkept e (.inr (.inr he))
  · rw [h.others i hslot] at he
    exact hc.apart i hi e he

/-- Insertions and deletions keep a resized table filled. -/
theorem Splice.filled {o : Option (DycoHentry α)} (h : Splice ht t id (held ht id).toList o.toList)
    (hf : Filled ht) : Filled t := by
  refine ⟨by rw [h.mask]; exact hf.wide,fun i hi hle => ?_,fun k hk => h.lone (hf.lone k hk)⟩
  rw [h.mask] at hle
  obtain ⟨chain,hchain,hids⟩ := hf.filled i hi hle
  by_cases hslot : i=slot ht.mask id
  · subst hslot
    have hid : id≠0 := by
      rintro rfl
      rw [slot_zero] at hi
      exact lt_irrefl 0 hi
    obtain ⟨front,rest,hold,hnew,-,hbehind⟩ := h.nodes
    rw [hold] at hchain
    cases front with
    | nil =>
      -- The first node has the id 0, so that it is not the one that is replaced.
      cases hx : (held ht id).toList with
      | nil =>
        rw [hx,hbehind rfl hx] at hchain
        cases hchain
      | cons e l =>
        rw [hx] at hchain
        have hzero : e=⟨0,none⟩ := (List.cons.inj hchain).1
        have he : e.id=id := h.old e (by rw [hx]; exact List.mem_cons_self)
        rw [hzero] at he
        exact absurd he.symm hid
    | cons e front =>
      obtain ⟨rfl,hrest⟩ := List.cons.inj hchain
      have hrest : front++((held ht id).toList++rest)=chain := hrest
      rw [← hrest] at hids
      refine ⟨_,hnew,fun e he => ?_⟩
      change e∈front++(o.toList++rest) at he
      simp only [List.mem_append] at he hids
      rcases he with he|he|he
      · exact hids e (.inl he)
      · rw [h.new e he]
        exact hid
      · exact hids e (.inr (.inr he))
  · rw [h.others i hslot]
    exact ⟨chain,hchain,hids⟩

end DycoCoroutine.ResizeOrder
