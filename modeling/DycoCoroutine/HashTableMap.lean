import DycoCoroutine.HashTable

/-!
# The hash table as a finite map

The nodes of the table with the ids of interest are the entries of the finite map
that the same calls build. With the ids other than 0 this survives every resize;
with all ids it survives as long as there is none, since every resize leaves a node
with the id 0 in all new slots but the first.
-/

namespace DycoCoroutine.HashTableMap

open RunInvariant KeyedEntries HashTable

variable {α : Type*} {ht ht' : DycoHtable α} {m : FiniteMap α}
  {table : ℕ → Bucket α} {b : Bucket α} {e : DycoHentry α} {l l' : List (DycoHentry α)}
  {id : ℤ} {data : Option α} {mask i n : ℕ} {p : ℤ → Bool}

/-- The mask keeps slots within the array. -/
theorem slot_lt (mask : ℕ) (id : ℤ) : slot mask id < mask+1 := by
  have hmask : (BitVec.ofNat 32 mask).toNat ≤ mask := by
    rw [BitVec.toNat_ofNat]
    exact Nat.mod_le ..
  unfold slot
  rw [BitVec.toNat_and]
  exact Nat.lt_succ_of_le (Nat.and_le_right.trans hmask)

/-- The id 0 belongs to the first slot. -/
theorem slot_zero (mask : ℕ) : slot mask 0=0 := by simp [slot]

/-- An empty slot has no chain, and no chain has a node marked as empty. -/
structure WellFormed (b : Bucket α) : Prop where
  /-- An empty slot has no chain. -/
  ended : b.id=-1 → b.next=[]
  /-- The nodes of a chain are not marked as empty. -/
  real : ∀ e∈b.next,e.id≠-1

/-- An empty slot has no entries. -/
theorem entries_of_eq (h : b.id=-1) : entries b=[] := if_pos h

/-- The entries of a slot that is not empty. -/
theorem entries_of_ne (h : b.id≠-1) : entries b=b.toDycoHentry::b.next := if_neg h

/-- The entries of a slot given by its parts. -/
theorem entries_mk (h : e.id≠-1) : entries ⟨e,l⟩=e::l := if_neg h

/-- No entry has the id that marks an empty slot. -/
theorem WellFormed.id_ne (h : WellFormed b) (he : e∈entries b) : e.id≠-1 := by
  unfold entries at he
  split_ifs at he with hb
  · cases he
  · rcases List.mem_cons.mp he with rfl|he
    · exact hb
    · exact h.real e he

/-- A slot that is not empty and gets its nodes from another one and from `B`. -/
theorem WellFormed.change {b' : Bucket α} {A B : Multiset (DycoHentry α)} (h : WellFormed b)
    (hb : b'.id≠-1) (hB : ∀ e∈B,e.id≠-1)
    (hchange : (entries b' : Multiset (DycoHentry α))+A=entries b+B) : WellFormed b' := by
  refine ⟨fun he => absurd he hb,fun e he => ?_⟩
  have hmem : e∈(entries b : Multiset (DycoHentry α))+B := by
    rw [← hchange,entries_of_ne hb]
    exact Multiset.mem_add.mpr (.inl (List.mem_cons_of_mem _ he))
  rcases Multiset.mem_add.mp hmem with he|he
  · exact h.id_ne he
  · exact hB e he

/-- All nodes of the first `n` slots. -/
def contents (table : ℕ → Bucket α) (n : ℕ) : Multiset (DycoHentry α) :=
  spread (fun i => entries (table i)) n

/-- A slot is replaced by one that has `B` where the old one has `A`. -/
theorem contents_update {A B : Multiset (DycoHentry α)} (hi : i<n)
    (h : (entries b : Multiset (DycoHentry α))+A=entries (table i)+B) :
    contents (Function.update table i b) n+A=contents table n+B := by
  have hcomp : (fun j => entries (Function.update table i b j))=
      Function.update (fun j => entries (table j)) i (entries b) := by
    funext j
    exact Function.apply_update (fun _ => entries) table i b j
  have hchange := spread_update (fun j => entries (table j)) hi (entries b)
  rw [← hcomp] at hchange
  refine add_right_cancel (b := (entries (table i) : Multiset (DycoHentry α))) ?_
  calc contents (Function.update table i b) n+A+entries (table i)
      =contents (Function.update table i b) n+entries (table i)+A := add_right_comm ..
    _=contents table n+entries b+A := congrArg (·+A) hchange
    _=contents table n+(entries (table i)+B) := by rw [add_assoc,h]
    _=contents table n+B+entries (table i) := by rw [add_comm _ B,add_assoc]

/-- A slot gets one more node. -/
theorem contents_update_cons (hi : i<n)
    (h : (entries b : Multiset (DycoHentry α))=e ::ₘ entries (table i)) :
    contents (Function.update table i b) n=e ::ₘ contents table n := by
  have hchange := contents_update (A := 0) (B := {e}) hi
    (by rw [add_zero,h,add_singleton])
  rwa [add_zero,add_singleton] at hchange

/-! ## Single calls -/

/-- The node under an id. -/
def held (ht : DycoHtable α) (id : ℤ) : Option (DycoHentry α) :=
  (entries (ht.table (slot ht.mask id))).find? fun e => e.id=id

/-- An empty slot holds nothing. -/
theorem held_of_empty (hempty : (ht.table (slot ht.mask id)).id=-1) : held ht id=none := by
  rw [held,entries_of_eq hempty]
  rfl

/-- A slot that holds an id is not empty. -/
theorem head_ne_of_held (h : held ht id=some e) : (ht.table (slot ht.mask id)).id≠-1 := by
  intro hempty
  rw [held_of_empty hempty] at h
  cases h

/-- What is held under an id has this id. -/
theorem id_of_held (h : held ht id=some e) : e.id=id := by simpa using List.find?_some h

/-- What is held under an id is an entry of its slot. -/
theorem mem_of_held (h : held ht id=some e) : e∈entries (ht.table (slot ht.mask id)) :=
  List.mem_of_find?_eq_some h

/-- The embedded node is found first. -/
theorem held_of_head (hempty : (ht.table (slot ht.mask id)).id≠-1)
    (hhead : (ht.table (slot ht.mask id)).id=id) :
    held ht id=some (ht.table (slot ht.mask id)).toDycoHentry := by
  rw [held,entries_of_ne hempty,List.find?_cons_of_pos (by simpa using hhead)]

/-- Behind another embedded node the chain is searched. -/
theorem held_of_chain (hempty : (ht.table (slot ht.mask id)).id≠-1)
    (hhead : (ht.table (slot ht.mask id)).id≠id) :
    held ht id=(ht.table (slot ht.mask id)).next.find? fun e => e.id=id := by
  rw [held,entries_of_ne hempty,List.find?_cons_of_neg (by simpa using hhead)]

/-- `htable_find` returns the data held under the id. -/
theorem htableFind_eq (ht : DycoHtable α) (id : ℤ) :
    htableFind ht id=(held ht id).bind DycoHentry.data := by
  unfold htableFind
  by_cases hempty : (ht.table (slot ht.mask id)).id=-1
  · rw [held_of_empty hempty,if_pos hempty]
    rfl
  by_cases hhead : (ht.table (slot ht.mask id)).id=id
  · rw [held_of_head hempty hhead,if_neg hempty,if_pos hhead]
    rfl
  · rw [held_of_chain hempty hhead,if_neg hempty,if_neg hhead]
    cases List.find? (fun e => decide (e.id=id)) (ht.table (slot ht.mask id)).next <;> rfl

/-- `htable_contains` tells whether anything is held under the id. -/
theorem htableContains_eq (ht : DycoHtable α) (id : ℤ) :
    htableContains ht id=if (held ht id).isSome then 1 else 0 := by
  unfold htableContains
  by_cases hempty : (ht.table (slot ht.mask id)).id=-1
  · rw [held_of_empty hempty,if_pos hempty]
    rfl
  by_cases hhead : (ht.table (slot ht.mask id)).id=id
  · rw [held_of_head hempty hhead,if_neg hempty,if_pos hhead]
    rfl
  · rw [held_of_chain hempty hhead,if_neg hempty,if_neg hhead]
    cases List.find? (fun e => decide (e.id=id)) (ht.table (slot ht.mask id)).next <;> rfl

/-- Nothing is replaced in a chain without the id. -/
theorem assign_of_none (h : (l.find? fun e => e.id=id)=none) : assign id data l=none := by
  induction l with
  | nil => rfl
  | cons x rest ih =>
    obtain ⟨hx,hrest⟩ : x.id≠id ∧ (rest.find? fun e => e.id=id)=none := by simpa using h
    rw [assign,if_neg hx,ih hrest]
    rfl

/-- The loop of `htable_insert` replaces one node. -/
theorem assign_of_some (h : (l.find? fun e => e.id=id)=some e) (data : Option α) :
    ∃ l',assign id data l=some l' ∧ (l' : Multiset (DycoHentry α))+{e}=l+{⟨id,data⟩} := by
  induction l with
  | nil => cases h
  | cons x rest ih =>
    by_cases hx : x.id=id
    · have he : x=e := by simpa [List.find?_cons,hx] using h
      subst he
      refine ⟨{x with data := data}::rest,by rw [assign,if_pos hx],?_⟩
      rw [← hx]
      exact cons_add_singleton _ _ (rest : Multiset (DycoHentry α))
    · obtain ⟨l',hl',hperm⟩ := ih (by simpa [List.find?_cons,hx] using h)
      refine ⟨x::l',by rw [assign,if_neg hx,hl']; rfl,?_⟩
      rw [← Multiset.cons_coe,← Multiset.cons_coe,Multiset.cons_add,hperm,Multiset.cons_add]

/-- Nothing is taken out of a chain without the id. -/
theorem unlink_of_none (h : (l.find? fun e => e.id=id)=none) : unlink id l=none := by
  induction l with
  | nil => rfl
  | cons x rest ih =>
    obtain ⟨hx,hrest⟩ : x.id≠id ∧ (rest.find? fun e => e.id=id)=none := by simpa using h
    rw [unlink,if_neg hx,ih hrest]
    rfl

/-- The loop of `htable_delete` takes one node out. -/
theorem unlink_of_some (h : (l.find? fun e => e.id=id)=some e) :
    ∃ l',unlink id l=some (e.data,l') ∧ (l : Multiset (DycoHentry α))=e ::ₘ l' := by
  induction l with
  | nil => cases h
  | cons x rest ih =>
    by_cases hx : x.id=id
    · have he : x=e := by simpa [List.find?_cons,hx] using h
      subst he
      exact ⟨rest,by rw [unlink,if_pos hx],rfl⟩
    · obtain ⟨l',hl',hperm⟩ := ih (by simpa [List.find?_cons,hx] using h)
      refine ⟨x::l',by rw [unlink,if_neg hx,hl']; rfl,?_⟩
      rw [← Multiset.cons_coe,hperm,← Multiset.cons_coe,Multiset.cons_swap]

/-- `htable_insert` under a new id adds one node. -/
theorem htableInsert_of_none (h : held ht id=none) (hid : id≠-1) (data : Option α)
    (hwf : WellFormed (ht.table (slot ht.mask id))) :
    ∃ b,htableInsert ht id data=grow (putBucket ht (slot ht.mask id) b (ht.count+1)) ∧
      WellFormed b ∧
      (entries b : Multiset (DycoHentry α))=⟨id,data⟩ ::ₘ entries (ht.table (slot ht.mask id)) := by
  unfold htableInsert
  by_cases hempty : (ht.table (slot ht.mask id)).id=-1
  · refine ⟨_,if_pos hempty,⟨fun he => absurd he hid,hwf.real⟩,?_⟩
    rw [entries_of_eq hempty,entries_mk hid,hwf.ended hempty]
    rfl
  have hhead : (ht.table (slot ht.mask id)).id≠id := by
    intro hhead
    rw [held_of_head hempty hhead] at h
    cases h
  rw [held_of_chain hempty hhead] at h
  rw [if_neg hempty,if_neg hhead,assign_of_none h,entries_of_ne hempty]
  refine ⟨_,rfl,⟨fun he => absurd he hempty,fun e he => ?_⟩,?_⟩
  · rcases List.mem_cons.mp he with rfl|he
    · exact hid
    · exact hwf.real e he
  · rw [entries_mk hempty]
    exact Multiset.coe_eq_coe.mpr (List.Perm.swap ..)

/-- `htable_insert` under an id of the table replaces one node. -/
theorem htableInsert_of_some (h : held ht id=some e) (data : Option α)
    (hwf : WellFormed (ht.table (slot ht.mask id))) :
    ∃ b,htableInsert ht id data=(0,putBucket ht (slot ht.mask id) b ht.count) ∧ WellFormed b ∧
      (entries b : Multiset (DycoHentry α))+{e}=
        entries (ht.table (slot ht.mask id))+{⟨id,data⟩} := by
  have hid : id≠-1 := by
    rw [← id_of_held h]
    exact hwf.id_ne (mem_of_held h)
  have hempty := head_ne_of_held h
  have hmade : ∃ b : Bucket α,
      htableInsert ht id data=(0,putBucket ht (slot ht.mask id) b ht.count) ∧ b.id≠-1 ∧
      (entries b : Multiset (DycoHentry α))+{e}=
        entries (ht.table (slot ht.mask id))+{⟨id,data⟩} := by
    unfold htableInsert
    rw [if_neg hempty,entries_of_ne hempty]
    by_cases hhead : (ht.table (slot ht.mask id)).id=id
    · rw [held_of_head hempty hhead] at h
      cases h
      rw [if_pos hhead]
      refine ⟨⟨⟨id,data⟩,(ht.table (slot ht.mask id)).next⟩,by simp only [hhead],hid,?_⟩
      rw [entries_mk hid,← Multiset.cons_coe,← Multiset.cons_coe]
      exact cons_add_singleton ..
    · rw [held_of_chain hempty hhead] at h
      obtain ⟨next,hnext,hperm⟩ := assign_of_some h data
      rw [if_neg hhead,hnext]
      refine ⟨_,rfl,hempty,?_⟩
      rw [entries_mk hempty,← Multiset.cons_coe,← Multiset.cons_coe,Multiset.cons_add,hperm,
        Multiset.cons_add]
  obtain ⟨b,hinsert,hb,hchange⟩ := hmade
  refine ⟨b,hinsert,hwf.change hb (fun x hx => ?_) hchange,hchange⟩
  rw [Multiset.mem_singleton.mp hx]
  exact hid

/-- `htable_delete` of an id of the table takes one node out. -/
theorem htableDelete_of_some (h : held ht id=some e)
    (hwf : WellFormed (ht.table (slot ht.mask id))) :
    ∃ b,htableDelete ht id=(0,some e.data,putBucket ht (slot ht.mask id) b (ht.count-1)) ∧
      WellFormed b ∧
      (entries (ht.table (slot ht.mask id)) : Multiset (DycoHentry α))=e ::ₘ entries b := by
  unfold htableDelete
  have hempty := head_ne_of_held h
  rw [if_neg hempty,entries_of_ne hempty]
  by_cases hhead : (ht.table (slot ht.mask id)).id=id
  · rw [held_of_head hempty hhead] at h
    cases h
    rw [if_pos hhead]
    have hreal := hwf.real
    cases hnext : (ht.table (slot ht.mask id)).next with
    | nil => exact ⟨_,rfl,⟨fun _ => rfl,fun e he => nomatch he⟩,rfl⟩
    | cons e rest =>
      rw [hnext] at hreal
      have he : e.id≠-1 := hreal e List.mem_cons_self
      refine ⟨_,rfl,⟨fun h => absurd h he,fun x hx => hreal x (List.mem_cons_of_mem _ hx)⟩,?_⟩
      rw [entries_mk he]
      rfl
  · rw [held_of_chain hempty hhead] at h
    obtain ⟨next,hnext,hperm⟩ := unlink_of_some h
    rw [if_neg hhead,hnext]
    refine ⟨_,rfl,⟨fun he => absurd he hempty,fun x hx => hwf.real x ?_⟩,?_⟩
    · exact Multiset.mem_coe.mp (hperm ▸ Multiset.mem_cons_of_mem hx)
    · rw [entries_mk hempty,← Multiset.cons_coe,hperm,← Multiset.cons_coe,Multiset.cons_swap]

/-- Deleting an id that is not held changes nothing. -/
theorem htableDelete_of_none (h : held ht id=none) : htableDelete ht id=(-1,none,ht) := by
  unfold htableDelete
  by_cases hempty : (ht.table (slot ht.mask id)).id=-1
  · exact if_pos hempty
  by_cases hhead : (ht.table (slot ht.mask id)).id=id
  · rw [held_of_head hempty hhead] at h
    cases h
  · rw [held_of_chain hempty hhead] at h
    rw [if_neg hempty,if_neg hhead,unlink_of_none h]

/-! ## Resizing -/

/-- The first slot is cleared, the others keep the id 0. -/
theorem newTable_succ (n : ℕ) :
    (newTable (n+1) : ℕ → Bucket α)=Function.update (fun _ => Bucket.zeroed) 0 Bucket.cleared := by
  induction n with
  | zero => rfl
  | succ n ih =>
    rw [newTable,List.range_succ,List.foldl_append]
    show Function.update (newTable (n+1)) 0 _=_
    rw [ih,Function.update_idem]

/-- The nodes that the new slots hold from the start. -/
theorem contents_newTable (n : ℕ) :
    contents (newTable (n+1) : ℕ → Bucket α) (n+1)=Multiset.replicate n ⟨0,none⟩ := by
  rw [newTable_succ]
  have hcount : ∀ k : ℕ,contents (Function.update (fun _ => Bucket.zeroed) 0 Bucket.cleared) (k+1)=
      Multiset.replicate k (⟨0,none⟩ : DycoHentry α) := by
    intro k
    induction k with
    | zero => rfl
    | succ k ih =>
      rw [contents,spread_succ,← Multiset.coe_add]
      refine (congrArg (·+_) ih).trans ?_
      rw [Function.update_of_ne (Nat.succ_ne_zero k),Multiset.replicate_succ,add_comm]
      rfl
  exact hcount n

/-- One node more in the new table. -/
theorem rehash_spec (mask : ℕ) (hwf : ∀ i,WellFormed (table i)) (he : e.id≠-1) :
    (∀ i,WellFormed (rehash mask table e i)) ∧
    contents (rehash mask table e) (mask+1)=e ::ₘ contents table (mask+1) ∧
    ∀ i,∀ x∈entries (rehash mask table e i),x∈entries (table i) ∨ x=e ∧ slot mask e.id=i := by
  obtain ⟨b,hb,hwf',hadd⟩ : ∃ b,rehash mask table e=Function.update table (slot mask e.id) b ∧
      WellFormed b ∧
      (entries b : Multiset (DycoHentry α))=e ::ₘ entries (table (slot mask e.id)) := by
    unfold rehash
    by_cases hempty : (table (slot mask e.id)).id=-1
    · rw [if_pos hempty]
      refine ⟨_,rfl,⟨fun h => absurd h he,(hwf _).real⟩,?_⟩
      rw [entries_of_eq hempty,entries_mk he,(hwf _).ended hempty]
      rfl
    · rw [if_neg hempty]
      refine ⟨_,rfl,⟨fun h => absurd h hempty,fun x hx => ?_⟩,?_⟩
      · rcases List.mem_cons.mp hx with rfl|hx
        · exact he
        · exact (hwf _).real x hx
      · rw [entries_mk hempty,entries_of_ne hempty]
        exact Multiset.coe_eq_coe.mpr (List.Perm.swap ..)
  rw [hb]
  refine ⟨fun i => ?_,?_,fun i x hx => ?_⟩
  · by_cases hi : i=slot mask e.id
    · subst hi
      rw [Function.update_self]
      exact hwf'
    · rw [Function.update_of_ne hi]
      exact hwf i
  · exact contents_update_cons (slot_lt mask e.id) hadd
  · by_cases hi : i=slot mask e.id
    · subst hi
      rw [Function.update_self] at hx
      have hx' : x∈(entries b : Multiset (DycoHentry α)) := hx
      rw [hadd] at hx'
      rcases Multiset.mem_cons.mp hx' with rfl|hx'
      · exact .inr ⟨rfl,rfl⟩
      · exact .inl hx'
    · rw [Function.update_of_ne hi] at hx
      exact .inl hx

/-- All nodes of a list are entered. -/
theorem rehash_all (mask : ℕ) (hl : ∀ e∈l,e.id≠-1) (hwf : ∀ i,WellFormed (table i)) :
    (∀ i,WellFormed (l.foldl (rehash mask) table i)) ∧
    contents (l.foldl (rehash mask) table) (mask+1)=l+contents table (mask+1) ∧
    ∀ i,∀ x∈entries (l.foldl (rehash mask) table i),x∈entries (table i) ∨ slot mask x.id=i := by
  induction l generalizing table with
  | nil => exact ⟨hwf,(zero_add _).symm,fun _ _ hx => .inl hx⟩
  | cons e rest ih =>
    obtain ⟨hwf₁,hadd₁,hfrom₁⟩ := rehash_spec mask hwf (hl e List.mem_cons_self)
    obtain ⟨hwf₂,hadd₂,hfrom₂⟩ := ih (fun x hx => hl x (List.mem_cons_of_mem _ hx)) hwf₁
    refine ⟨hwf₂,?_,fun i x hx => ?_⟩
    · rw [List.foldl_cons,hadd₂,hadd₁,Multiset.add_cons,← Multiset.cons_coe,Multiset.cons_add]
    · rcases hfrom₂ i x hx with hx|hx
      · rcases hfrom₁ i x hx with hx|⟨rfl,hx⟩
        · exact .inl hx
        · exact .inr hx
      · exact .inr hx

/-- One round of the second loop of `htable_resize` enters the nodes of a slot in turn. -/
theorem rehash_bucket (mask : ℕ) (table : ℕ → Bucket α) (b : Bucket α) :
    (if b.id=-1 then table
      else b.next.foldl (rehash mask) (rehash mask table b.toDycoHentry))=
      (entries b).foldl (rehash mask) table := by
  unfold entries
  split_ifs <;> rfl

/-- The second loop of `htable_resize` enters the visited nodes in turn. -/
theorem htableResize_eq (hwidth : ht.width < maxWidth) : htableResize ht (ht.width+1)=some {ht with
    width := ht.width+1
    mask := 2^(ht.width+1)-1
    table := (visited ht).foldl (rehash (2^(ht.width+1)-1)) (newTable (2^(ht.width+1)))} := by
  have hok : ¬(ht.width+1=ht.width ∨ maxWidth<ht.width+1) := by omega
  rw [htableResize,if_neg hok,visited,spread,List.foldl_flatMap]
  simp only [rehash_bucket]

/-- The nodes of the old table come to their new slots, and every new slot but the
first holds a node with the id 0 besides. -/
theorem htableResize_spec (hwidth : ht.width < maxWidth) (hwf : ∀ i,WellFormed (ht.table i)) :
    ∃ ht',htableResize ht (ht.width+1)=some ht' ∧ ht'.count=ht.count ∧
      ht'.mask=2^(ht.width+1)-1 ∧ (∀ i,WellFormed (ht'.table i)) ∧
      (visited ht' : Multiset (DycoHentry α))=
        (visited ht : Multiset (DycoHentry α))+Multiset.replicate ht'.mask ⟨0,none⟩ ∧
      ∀ i,∀ e∈entries (ht'.table i),e.id≠0 → slot ht'.mask e.id=i := by
  have hsize : 2^(ht.width+1)-1+1=2^(ht.width+1) := Nat.sub_add_cancel Nat.one_le_two_pow
  have hreal : ∀ e∈visited ht,e.id≠-1 := by
    intro e he
    obtain ⟨i,-,he⟩ := mem_spread.mp he
    exact (hwf i).id_ne he
  have hnew : ∀ i,(newTable (2^(ht.width+1)) i : Bucket α)=Bucket.cleared ∨
      (newTable (2^(ht.width+1)) i : Bucket α)=Bucket.zeroed := by
    intro i
    rw [← hsize,newTable_succ]
    by_cases hi : i=0
    · subst hi
      exact .inl (Function.update_self ..)
    · exact .inr (Function.update_of_ne hi ..)
  have hnewWf : ∀ i,WellFormed (newTable (2^(ht.width+1)) i : Bucket α) := by
    intro i
    rcases hnew i with h|h
    · rw [h]
      exact ⟨fun _ => rfl,fun e he => nomatch he⟩
    · rw [h]
      exact ⟨fun _ => rfl,fun e he => nomatch he⟩
  obtain ⟨hwf',hadd,hfrom⟩ := rehash_all (2^(ht.width+1)-1) hreal hnewWf
  refine ⟨_,htableResize_eq hwidth,rfl,rfl,hwf',?_,fun i e he hne => ?_⟩
  · refine hadd.trans ?_
    have hzero := contents_newTable (α := α) (2^(ht.width+1)-1)
    rw [hsize] at hzero ⊢
    exact congrArg _ hzero
  · rcases hfrom i e he with he|he
    · rcases hnew i with h|h
      · rw [h] at he
        cases he
      · rw [h] at he
        cases List.mem_singleton.mp he
        exact absurd rfl hne
    · exact he

/-! ## Whole runs -/

/-- The ids that the table keeps apart from the slots that a resize leaves. -/
def nonzero (id : ℤ) : Bool := id≠0

/-- The nodes whose ids meet `p`. -/
def tracked (p : ℤ → Bool) (ht : DycoHtable α) : Multiset (DycoHentry α) :=
  (visited ht : Multiset (DycoHentry α)).filter fun e => p e.id=true

/-- The nodes whose ids meet `p` are the entries of the finite map `m`. -/
structure Represents (p : ℤ → Bool) (ht : DycoHtable α) (m : FiniteMap α) : Prop where
  /-- Every slot is as the calls leave it. -/
  wf : ∀ i,WellFormed (ht.table i)
  /-- The nodes are in the slots of their ids. -/
  placed : ∀ i,∀ e∈entries (ht.table i),p e.id=true → slot ht.mask e.id=i
  /-- The nodes are the entries of the map. -/
  holds : Holds DycoHentry.id DycoHentry.data (tracked p ht) m
  /-- The count is the size of the map. -/
  count : ht.count=m.keys.length

/-- What is held under a tracked id is a tracked entry. -/
theorem mem_tracked_of_held (h : held ht id=some e) (hid : p id=true) : e∈tracked p ht := by
  refine Multiset.mem_filter.mpr ⟨?_,by rw [id_of_held h]; exact hid⟩
  exact mem_spread.mpr ⟨_,slot_lt _ _,mem_of_held h⟩

/-- A new table represents the empty map. -/
theorem represents_htableInit (p : ℤ → Bool) (width : ℤ) :
    Represents p (htableInit width : DycoHtable α) ∅ := by
  have hempty : ∀ n,spread (fun _ => entries (Bucket.cleared : Bucket α)) n=[] := by
    intro n
    simp [spread,entries,Bucket.cleared]
  refine ⟨fun i => ⟨fun _ => rfl,fun e he => ?_⟩,fun i e he => ?_,?_,rfl⟩
  · cases he
  · cases he
  · have hnone : visited (htableInit width : DycoHtable α)=[] := hempty _
    rw [tracked,hnone]
    exact holds_empty

/-- The slot of an id tells what the map has under it. -/
theorem Represents.lookup (h : Represents p ht m) (hid : p id=true) :
    m.lookup id=(held ht id).map DycoHentry.data := by
  cases hheld : held ht id with
  | none =>
    refine h.holds.lookup_eq_none fun e he heq => ?_
    obtain ⟨hmem,hp⟩ := Multiset.mem_filter.mp he
    obtain ⟨i,-,hi⟩ := mem_spread.mp (Multiset.mem_coe.mp hmem)
    have hplace := h.placed i e hi hp
    rw [heq] at hplace
    subst hplace
    have hno := List.find?_eq_none.mp hheld e hi
    exact hno (decide_eq_true heq)
  | some e =>
    have hlookup := h.holds.lookup_of_mem (mem_tracked_of_held hheld hid)
    rwa [id_of_held hheld] at hlookup

/-- `htable_find` answers with the data that the map has. -/
theorem Represents.find (h : Represents p ht m) (hid : p id=true) :
    htableFind ht id=(m.lookup id).join := by
  rw [h.lookup hid,htableFind_eq]
  cases held ht id <;> rfl

/-- `htable_contains` answers whether the map has the id. -/
theorem Represents.contains (h : Represents p ht m) (hid : p id=true) :
    htableContains ht id=if (m.lookup id).isSome then 1 else 0 := by
  rw [h.lookup hid,htableContains_eq]
  cases held ht id <;> rfl

/-- What the map has is held by a node. -/
theorem Represents.held_of_lookup {data : Option α} (h : Represents p ht m) (hid : p id=true)
    (hlookup : m.lookup id=some data) : ∃ e,held ht id=some e := by
  rw [h.lookup hid] at hlookup
  obtain ⟨e,he,-⟩ := Option.map_eq_some_iff.mp hlookup
  exact ⟨e,he⟩

/-- The slot of `id` has `B` where it had `A`. -/
theorem Represents.putBucket (h : Represents p ht m) {A B : Multiset (DycoHentry α)}
    (hwf : WellFormed b) (hB : ∀ e∈B,e.id=id)
    (hchange : (entries b : Multiset (DycoHentry α))+A=entries (ht.table (slot ht.mask id))+B)
    (count : ℤ) :
    (∀ i,WellFormed ((putBucket ht (slot ht.mask id) b count).table i)) ∧
    (∀ i,∀ e∈entries ((HashTable.putBucket ht (slot ht.mask id) b count).table i),p e.id=true →
      slot ht.mask e.id=i) ∧
    tracked p (HashTable.putBucket ht (slot ht.mask id) b count)+A.filter (fun e => p e.id=true)=
      tracked p ht+B.filter fun e => p e.id=true := by
  refine ⟨fun i => ?_,fun i e he hp => ?_,?_⟩
  · show WellFormed (Function.update ht.table (slot ht.mask id) b i)
    by_cases hi : i=slot ht.mask id
    · subst hi
      rw [Function.update_self]
      exact hwf
    · rw [Function.update_of_ne hi]
      exact h.wf i
  · change e∈entries (Function.update ht.table (slot ht.mask id) b i) at he
    by_cases hi : i=slot ht.mask id
    · subst hi
      rw [Function.update_self] at he
      have hmem : e∈(entries (ht.table (slot ht.mask id)) : Multiset (DycoHentry α))+B := by
        rw [← hchange]
        exact Multiset.mem_add.mpr (.inl he)
      rcases Multiset.mem_add.mp hmem with hmem|hmem
      · exact h.placed _ e hmem hp
      · rw [hB e hmem]
    · rw [Function.update_of_ne hi] at he
      exact h.placed i e he hp
  · have hall := contents_update (slot_lt ht.mask id) hchange
    have hfilter := congrArg (Multiset.filter fun e => p e.id=true) hall
    rwa [Multiset.filter_add,Multiset.filter_add] at hfilter

/-- A resize keeps the nodes with the ids other than 0. -/
theorem Represents.resize (h : Represents p ht m) (hwidth : ht.width < maxWidth)
    (hzero : p 0=false) :
    ∃ ht',htableResize ht (ht.width+1)=some ht' ∧ Represents p ht' m := by
  obtain ⟨ht',hresize,hcount,-,hwf,hall,hplaced⟩ := htableResize_spec hwidth h.wf
  refine ⟨ht',hresize,hwf,fun i e he hp => hplaced i e he ?_,?_,hcount.trans h.count⟩
  · intro he0
    rw [he0,hzero] at hp
    cases hp
  · have hnone : (Multiset.replicate ht'.mask (⟨0,none⟩ : DycoHentry α)).filter
        (fun e => p e.id=true)=0 := by
      refine Multiset.filter_eq_nil.mpr fun e he => ?_
      rw [Multiset.eq_of_mem_replicate he]
      simp [hzero]
    rw [tracked,hall,Multiset.filter_add,hnone,add_zero]
    exact h.holds

/-- The end of an insertion that has added a node. -/
theorem Represents.grow (h : Represents p ht m)
    (hresize : (ht.mask : ℤ)*2=ht.count → ht.width < maxWidth ∧ p 0=false) :
    (grow ht).1=1 ∧ Represents p (grow ht).2 m := by
  unfold HashTable.grow
  by_cases hfull : (ht.mask : ℤ)*2=ht.count
  · obtain ⟨hwidth,hzero⟩ := hresize hfull
    obtain ⟨ht',hht',hrep⟩ := h.resize hwidth hzero
    rw [if_pos hfull,hht']
    exact ⟨rfl,hrep⟩
  · rw [if_neg hfull]
    exact ⟨rfl,h⟩

/-- The same whether the resize is refused or not. -/
theorem Represents.grow_any (h : Represents p ht m) (hzero : p 0=false) :
    Represents p (HashTable.grow ht).2 m := by
  by_cases hwidth : ht.width < maxWidth
  · exact (h.grow fun _ => ⟨hwidth,hzero⟩).2
  · have hnone : htableResize ht (ht.width+1)=none := if_pos (by omega)
    unfold HashTable.grow
    rw [hnone]
    split_ifs
    · exact h
    · exact h

/-- `htable_insert` under an id that the map does not have, up to the resize. -/
theorem Represents.exists_grow (h : Represents p ht m) (hp : p id=true) (hid : id≠-1)
    (hnone : held ht id=none) (data : Option α) :
    ∃ ht',htableInsert ht id data=HashTable.grow ht' ∧ ht'.width=ht.width ∧ ht'.mask=ht.mask ∧
      ht'.count=ht.count+1 ∧ Represents p ht' (m.insert id data) := by
  obtain ⟨b,hinsert,hwf,hadd⟩ := htableInsert_of_none hnone hid data (h.wf _)
  have hlookup : m.lookup id=none := by rw [h.lookup hp,hnone]; rfl
  obtain ⟨hwf',hplaced',htracked⟩ := h.putBucket (A := 0) (B := {⟨id,data⟩}) hwf
    (fun e he => by rw [Multiset.mem_singleton.mp he])
    (by rw [add_zero,hadd,add_singleton]) (ht.count+1)
  rw [Multiset.filter_zero,add_zero,Multiset.filter_singleton,if_pos hp,add_singleton] at htracked
  refine ⟨_,hinsert,rfl,rfl,rfl,hwf',hplaced',?_,?_⟩
  · rw [htracked]
    exact Holds.insert (h.holds.erase_of_lookup hlookup)
  · show ht.count+1=_
    rw [AList.keys_insert,List.erase_of_not_mem (AList.lookup_eq_none.mp hlookup),
      List.length_cons,h.count]
    push_cast
    rfl

/-- `htable_insert` under an id that the map does not have, with the resize. -/
theorem Represents.insert_of_none (h : Represents p ht m) (hp : p id=true) (hid : id≠-1)
    (hnone : held ht id=none) (data : Option α)
    (hresize : (ht.mask : ℤ)*2=ht.count+1 → ht.width < maxWidth ∧ p 0=false) :
    (htableInsert ht id data).1=1 ∧
      Represents p (htableInsert ht id data).2 (m.insert id data) := by
  obtain ⟨ht',hinsert,hwidth,hmask,hcount,hrep⟩ := h.exists_grow hp hid hnone data
  rw [hinsert]
  refine hrep.grow fun hfull => ?_
  rw [hwidth]
  rw [hmask,hcount] at hfull
  exact hresize hfull

/-- `htable_insert` under an id that the map has. -/
theorem Represents.insert_of_some (h : Represents p ht m) (hp : p id=true)
    (hsome : held ht id=some e) (data : Option α) :
    (htableInsert ht id data).1=0 ∧
      Represents p (htableInsert ht id data).2 (m.insert id data) := by
  obtain ⟨b,hinsert,hwf,hchange⟩ := htableInsert_of_some hsome data (h.wf _)
  have heq := id_of_held hsome
  have hpe : p e.id=true := by rw [heq]; exact hp
  have hlookup : m.lookup id=some e.data := by rw [h.lookup hp,hsome]; rfl
  obtain ⟨hwf',hplaced',htracked⟩ := h.putBucket (A := {e}) (B := {⟨id,data⟩}) hwf
    (fun x hx => by rw [Multiset.mem_singleton.mp hx]) hchange ht.count
  obtain ⟨rest,hrest⟩ := Multiset.exists_cons_of_mem (mem_tracked_of_held hsome hp)
  rw [Multiset.filter_singleton,if_pos hpe,Multiset.filter_singleton,if_pos hp,hrest,
    cons_add_singleton] at htracked
  have hnew := add_right_cancel htracked
  have hholds := h.holds
  rw [hrest] at hholds
  have herase := hholds.erase
  rw [heq] at herase
  rw [hinsert]
  refine ⟨rfl,hwf',hplaced',?_,?_⟩
  · rw [hnew]
    exact Holds.insert herase
  · have hkey : id∈m.keys := AList.lookup_isSome.mp (by rw [hlookup]; rfl)
    show ht.count=_
    rw [AList.keys_insert,List.length_cons,List.length_erase_of_mem hkey,h.count,
      Nat.sub_add_cancel (List.length_pos_of_mem hkey)]

/-- `htable_insert`, whether the table is resized, the resize is refused or neither. -/
theorem Represents.insert (h : Represents p ht m) (hp : p id=true) (hid : id≠-1)
    (hzero : p 0=false) (data : Option α) :
    Represents p (htableInsert ht id data).2 (m.insert id data) := by
  cases hheld : held ht id with
  | none =>
    obtain ⟨ht',hinsert,-,-,-,hrep⟩ := h.exists_grow hp hid hheld data
    rw [hinsert]
    exact hrep.grow_any hzero
  | some e => exact (h.insert_of_some hp hheld data).2

/-- `htable_delete` of an id that the map has. -/
theorem Represents.delete_of_some (h : Represents p ht m) (hp : p id=true)
    (hsome : held ht id=some e) :
    (htableDelete ht id).1=0 ∧ (htableDelete ht id).2.1=some e.data ∧
      Represents p (htableDelete ht id).2.2 (m.erase id) := by
  obtain ⟨b,hdelete,hwf,hless⟩ := htableDelete_of_some hsome (h.wf _)
  have heq := id_of_held hsome
  have hpe : p e.id=true := by rw [heq]; exact hp
  have hlookup : m.lookup id=some e.data := by rw [h.lookup hp,hsome]; rfl
  obtain ⟨hwf',hplaced',htracked⟩ := h.putBucket (A := {e}) (B := 0) hwf
    (fun x hx => absurd hx (Multiset.notMem_zero x))
    (by rw [add_zero,hless,add_singleton]) (ht.count-1)
  rw [Multiset.filter_zero,add_zero,Multiset.filter_singleton,if_pos hpe,add_singleton] at htracked
  have hholds := h.holds
  rw [← htracked] at hholds
  have herase := hholds.erase
  rw [heq] at herase
  rw [hdelete]
  refine ⟨rfl,rfl,hwf',hplaced',herase,?_⟩
  have hkey : id∈m.keys := AList.lookup_isSome.mp (by rw [hlookup]; rfl)
  show ht.count-1=_
  rw [AList.keys_erase,List.length_erase_of_mem hkey,h.count,
    Nat.cast_sub (List.length_pos_of_mem hkey)]
  rfl

/-- `htable_delete` of an id that the map does not have. -/
theorem Represents.delete_of_none (h : Represents p ht m) (hp : p id=true)
    (hnone : held ht id=none) : Represents p (htableDelete ht id).2.2 (m.erase id) := by
  have hlookup : m.lookup id=none := by rw [h.lookup hp,hnone]; rfl
  rw [htableDelete_of_none hnone]
  refine ⟨h.wf,h.placed,h.holds.erase_of_lookup hlookup,?_⟩
  rw [AList.keys_erase,List.erase_of_not_mem (AList.lookup_eq_none.mp hlookup)]
  exact h.count

/-- `htable_delete` of any id. -/
theorem Represents.delete (h : Represents p ht m) (hp : p id=true) :
    Represents p (htableDelete ht id).2.2 (m.erase id) := by
  cases hheld : held ht id with
  | some e => exact (h.delete_of_some hp hheld).2.2
  | none => exact h.delete_of_none hp hheld

/-- An insertion asks for a larger table where it fills the present one. -/
theorem resizes_insert (hnone : held ht id=none) :
    resizes ht (.insert id data)=true ↔ (ht.mask : ℤ)*2=ht.count+1 := by
  simp [resizes,htableContains_eq,hnone]

/-- A call on the table does to the tracked nodes what it does to the map. -/
theorem Represents.call {c : Call α} (h : Represents p ht m) (hp : p c.id=true) (hid : c.id≠-1)
    (hresize : resizes ht c=true → ht.width < maxWidth ∧ p 0=false) :
    Represents p (call ht c) (mapCall m c) := by
  cases c with
  | insert id data =>
    cases hheld : held ht id with
    | none =>
      exact (h.insert_of_none hp hid hheld data fun hfull =>
        hresize ((resizes_insert hheld).mpr hfull)).2
    | some e => exact (h.insert_of_some hp hheld data).2
  | delete id => exact h.delete hp

/-- Every run whose calls are on tracked ids keeps table and map together. -/
theorem represents_of_runs {width : ℤ} {cond : DycoHtable α×FiniteMap α → Call α → Prop}
    (h : Runs step cond (htableInit width,∅) (ht,m))
    (hcond : ∀ s c,cond s c → p c.id=true ∧ c.id≠-1 ∧
      (resizes s.1 c=true → s.1.width < maxWidth ∧ p 0=false)) : Represents p ht m := by
  refine h.invariant (fun s => Represents p s.1 s.2) (represents_htableInit p width) ?_
  intro s c t hs hc ha
  cases ha
  obtain ⟨hp,hid,hresize⟩ := hcond s c hc
  exact hs.call hp hid hresize

/-- Through any number of resizes, and as long as an insertion that calls for one
finds the width below DYCO_HTABLE_MAXWITDH, the table answers for every id other than
0 and -1 as the finite map that the same calls have built, and counts its entries. -/
theorem htable_refines_map {width : ℤ}
    (h : Runs step (fun s c => c.id≠0 ∧ c.id≠-1 ∧ (resizes s.1 c=true → s.1.width < maxWidth))
      (htableInit width,∅) (ht,m)) :
    ht.count=m.keys.length ∧ ∀ id : ℤ,id≠0 → id≠-1 →
      htableFind ht id=(m.lookup id).join ∧
      htableContains ht id=(if (m.lookup id).isSome then 1 else 0) ∧
      (∀ data : Option α,(resizes ht (.insert id data)=true → ht.width < maxWidth) →
        (htableInsert ht id data).1=if (m.lookup id).isSome then 0 else 1) ∧
      (htableDelete ht id).1=(if (m.lookup id).isSome then 0 else -1) ∧
      (htableDelete ht id).2.1=m.lookup id := by
  have hrep : Represents nonzero ht m := represents_of_runs h fun s c hc =>
    ⟨decide_eq_true hc.1,hc.2.1,fun hr => ⟨hc.2.2 hr,rfl⟩⟩
  refine ⟨hrep.count,fun id h0 h1 => ?_⟩
  have hp : nonzero id=true := decide_eq_true h0
  refine ⟨hrep.find hp,hrep.contains hp,?_⟩
  rw [hrep.lookup hp]
  cases hheld : held ht id with
  | none =>
    refine ⟨fun data hresize => ?_,?_,?_⟩
    · exact (hrep.insert_of_none hp h1 hheld data fun hfull =>
        ⟨hresize ((resizes_insert hheld).mpr hfull),rfl⟩).1
    · rw [htableDelete_of_none hheld]
      rfl
    · rw [htableDelete_of_none hheld]
      rfl
  | some e =>
    refine ⟨fun data _ => (hrep.insert_of_some hp hheld data).1,?_,?_⟩
    · exact (hrep.delete_of_some hp hheld).1
    · exact (hrep.delete_of_some hp hheld).2.1

/-- Two resizes, ids of both signs, a replacement and deletions of a first node and
of one in a chain. -/
def growTwice : List (Call ℕ) :=
  [.insert 1 (some 10),.insert 2 (some 20),.insert 5 none,.insert (-3) (some 30),
    .insert 4 (some 40),.insert 9 (some 90),.insert 2 (some 21),.delete 4,.delete 9]

/-- The table answers like the map after two resizes. -/
theorem htable_refines_map_growTwice :
    ∃ (ht : DycoHtable ℕ) (m : FiniteMap ℕ),replayWhile step
      (fun s c => c.id≠0 ∧ c.id≠-1 ∧ (resizes s.1 c=true → s.1.width < maxWidth))
      (htableInit 1,∅) growTwice=some (ht,m) ∧ ht.width=3 ∧ ht.count=4 ∧
      htableFind ht 2=some 21 ∧ htableFind ht (-3)=some 30 ∧ htableContains ht 9=0 ∧
      (htableDelete ht 5).1=0 ∧ (htableInsert ht 9 none).1=1 := by
  have h : (replayWhile step
      (fun s c => c.id≠0 ∧ c.id≠-1 ∧ (resizes s.1 c=true → s.1.width < maxWidth))
      (htableInit 1,∅) growTwice).map (fun s => (s.1.width,s.2.keys.length,
        [2,-3,9,5].map fun id => s.2.lookup id,resizes s.1 (.insert 9 none)))=
      some (3,4,[some (some 21),some (some 30),none,some none],false) := by decide +kernel
  obtain ⟨⟨ht,m⟩,hw,hq⟩ := Option.map_eq_some_iff.mp h
  simp only [Prod.mk.injEq,List.map_cons,List.map_nil,List.cons.injEq,and_true] at hq
  obtain ⟨hwidth,hkeys,⟨h2,h3,h9,h5⟩,hresize⟩ := hq
  obtain ⟨hcount,hmap⟩ := htable_refines_map (runs_of_replayWhile hw)
  refine ⟨ht,m,hw,hwidth,by rw [hcount,hkeys]; rfl,?_,?_,?_,?_,?_⟩
  · rw [(hmap 2 (by decide) (by decide)).1,h2]
    rfl
  · rw [(hmap (-3) (by decide) (by decide)).1,h3]
    rfl
  · rw [(hmap 9 (by decide) (by decide)).2.1,h9]
    rfl
  · rw [(hmap 5 (by decide) (by decide)).2.2.2.1,h5]
    rfl
  · rw [(hmap 9 (by decide) (by decide)).2.2.1 none (by rw [hresize]; simp),h9]
    rfl

/-- A resize leaves a node with the id 0 in every new slot but the first. -/
theorem length_visited_of_resizes {c : Call α} (h : Represents (fun _ => true) ht m)
    (hid : c.id≠-1) (hc : resizes ht c=true) (hwidth : ht.width < maxWidth) :
    (visited (call ht c)).length=(mapCall m c).keys.length+(2^(ht.width+1)-1) := by
  cases c with
  | delete id => cases hc
  | insert id data =>
    have hnone : held ht id=none := by
      cases hheld : held ht id with
      | none => rfl
      | some e => simp [resizes,htableContains_eq,hheld] at hc
    have hid' : id≠-1 := hid
    obtain ⟨ht₁,hinsert,hwidth₁,hmask₁,hcount₁,hrep⟩ := h.exists_grow rfl hid' hnone data
    obtain ⟨ht₂,hresize,-,hmask₂,-,hall,-⟩ := htableResize_spec (hwidth₁ ▸ hwidth) hrep.wf
    have hcard := hrep.holds.card
    rw [tracked,Multiset.filter_eq_self.mpr fun _ _ => rfl,Multiset.coe_card] at hcard
    have hlength := congrArg Multiset.card hall
    rw [Multiset.card_add,Multiset.card_replicate,Multiset.coe_card,Multiset.coe_card,hcard,
      hmask₂,hwidth₁] at hlength
    have hfull : (ht₁.mask : ℤ)*2=ht₁.count := by
      rw [hmask₁,hcount₁]
      exact (resizes_insert hnone).mp hc
    have hcall : call ht (.insert id data)=ht₂ := by
      show (htableInsert ht id data).2=ht₂
      rw [hinsert,HashTable.grow,if_pos hfull,hresize]
    rw [hcall]
    exact hlength

/-- In every run in which no insertion resizes the table, its nodes are the entries of
the finite map that the calls have built, every other slot is empty, the count is
their number and the id 0 is found only if it was inserted. The first resize adds
one node with the id 0 for every new slot but the first. -/
theorem table_holds_inserted {width : ℤ}
    (h : Runs step (fun s c => c.id≠-1 ∧ resizes s.1 c=false) (htableInit width,∅) (ht,m)) :
    ((visited ht).map fun e => (⟨e.id,e.data⟩ : Sigma fun _ : ℤ => Option α)).Perm m.entries ∧
    (∀ i,entries (ht.table i)=[] → (ht.table i).id=-1 ∧ (ht.table i).next=[]) ∧
    ((visited ht).length : ℤ)=ht.count ∧
    (htableContains ht 0=1 ↔ (m.lookup 0).isSome) ∧
    ∀ c : Call α,c.id≠-1 → resizes ht c=true → ht.width < maxWidth →
      (visited (call ht c)).length=(mapCall m c).keys.length+(2^(ht.width+1)-1) := by
  have hrep : Represents (fun _ => true) ht m := represents_of_runs h fun s c hc =>
    ⟨rfl,hc.1,fun hr => by rw [hc.2] at hr; cases hr⟩
  have hall : tracked (fun _ => true) ht=visited ht := Multiset.filter_eq_self.mpr fun _ _ => rfl
  refine ⟨?_,fun i hi => ?_,?_,?_,fun c hid hc hwidth =>
    length_visited_of_resizes hrep hid hc hwidth⟩
  · have hholds := hrep.holds
    rw [hall] at hholds
    exact Multiset.coe_eq_coe.mp hholds
  · have hempty : (ht.table i).id=-1 := by
      by_contra hne
      rw [entries_of_ne hne] at hi
      cases hi
    exact ⟨hempty,(hrep.wf i).ended hempty⟩
  · have hcard := hrep.holds.card
    rw [hall,Multiset.coe_card] at hcard
    rw [hcard,hrep.count]
  · rw [hrep.contains rfl]
    cases m.lookup 0 <;> simp

/-- The insertions that bring a table of two slots to its second resize. -/
def sixInserts : List (Call ℕ) :=
  [.insert 1 (some 10),.insert 2 (some 20),.insert 3 (some 30),.insert 4 (some 40),
    .insert 5 (some 50),.insert 6 (some 60)]

/-- After two insertions the table holds three nodes that were not inserted; after
six, the id 0 is found. -/
theorem resize_stores_zeros :
    (∃ (ht : DycoHtable ℕ) (m : FiniteMap ℕ),
      Runs step (fun _ c => c.id≠-1) (htableInit 1,∅) (ht,m) ∧ m.keys=[2,1] ∧ ht.count=2 ∧
      visited ht=[⟨0,none⟩,⟨1,some 10⟩,⟨0,none⟩,⟨2,some 20⟩,⟨0,none⟩]) ∧
    ∃ (ht : DycoHtable ℕ) (m : FiniteMap ℕ),
      Runs step (fun _ c => c.id≠-1) (htableInit 1,∅) (ht,m) ∧ m.lookup 0=none ∧
      htableContains ht 0=1 := by
  have hfirst : (replayWhile step (fun _ c => c.id≠-1) (htableInit 1,∅) (sixInserts.take 2)).map
      (fun s => (s.2.keys,s.1.count,visited s.1))=
      some ([2,1],2,[⟨0,none⟩,⟨1,some 10⟩,⟨0,none⟩,⟨2,some 20⟩,⟨0,none⟩]) := by decide +kernel
  have hsecond : (replayWhile step (fun _ c => c.id≠-1) (htableInit 1,∅) sixInserts).map
      (fun s => (s.2.lookup 0,htableContains s.1 0))=some (none,1) := by decide +kernel
  obtain ⟨⟨ht,m⟩,hw,hq⟩ := Option.map_eq_some_iff.mp hfirst
  obtain ⟨⟨ht',m'⟩,hw',hq'⟩ := Option.map_eq_some_iff.mp hsecond
  simp only [Prod.mk.injEq] at hq hq'
  exact ⟨⟨ht,m,runs_of_replayWhile hw,hq⟩,ht',m',runs_of_replayWhile hw',hq'⟩

/-- Ids of one slot, the id 0 among them. -/
def withoutResize : List (Call ℕ) :=
  [.insert 0 (some 1),.insert 16 (some 2),.insert 0 (some 3),.delete 16,.insert (-16) none]

/-- Before any resize the id 0 is an id like the others. -/
theorem table_holds_inserted_withoutResize :
    ∃ (ht : DycoHtable ℕ) (m : FiniteMap ℕ),
      replayWhile step (fun s c => c.id≠-1 ∧ resizes s.1 c=false) (htableInit 4,∅) withoutResize=
        some (ht,m) ∧ (visited ht).length=2 ∧ htableContains ht 0=1 ∧
      ((visited ht).map fun e => (⟨e.id,e.data⟩ : Sigma fun _ : ℤ => Option ℕ)).Perm m.entries := by
  have h : (replayWhile step (fun s c => c.id≠-1 ∧ resizes s.1 c=false) (htableInit 4,∅)
      withoutResize).map (fun s => (s.1.count,s.2.lookup 0))=some (2,some (some 3)) := by
    decide +kernel
  obtain ⟨⟨ht,m⟩,hw,hq⟩ := Option.map_eq_some_iff.mp h
  simp only [Prod.mk.injEq] at hq
  obtain ⟨hperm,-,hlength,hzero,-⟩ := table_holds_inserted (runs_of_replayWhile hw)
  rw [hq.1] at hlength
  exact ⟨ht,m,hw,by omega,hzero.mpr (by rw [hq.2]; rfl),hperm⟩

end DycoCoroutine.HashTableMap
