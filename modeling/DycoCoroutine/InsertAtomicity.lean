import DycoCoroutine.TableAllocation

/-!
# What a failed insertion leaves

`htable_insert` makes its entry before it looks for a resize. When the resize fails the
insertion returns -1, but the entry stays and is counted. A resize that succeeds keeps
all answers the first time; later it brings nodes with the id 0 that nobody has inserted
to the slot where 0 is looked for. Otherwise an insertion that returns -1 has changed
nothing, and one that returns 0 or 1 has changed the answer about its id only.
-/

namespace DycoCoroutine.InsertAtomicity

open RunInvariant HashTable HashTableMap ResizeOrder ChainedTable TableAllocation

variable {α : Type*} {h t : DycoHtable α} {ht ht' : Table α} {id : ℤ} {data : Option α}
  {leak : Multiset ℕ} {o : Outcomes}

/-! ## One entry more or less -/

/-- A slot whose nodes are spliced. -/
theorem splice_putBucket {b : Bucket α} {x y : List (DycoHentry α)}
    (front rest : List (DycoHentry α)) (hwf : WellFormed b)
    (hold : entries (h.table (slot h.mask id))=front++(x++rest))
    (hnew : entries b=front++(y++rest)) (hx : ∀ e∈x,e.id=id) (hy : ∀ e∈y,e.id=id)
    (hfront : ∀ e∈front,e.id≠id) (hempty : front=[] → x=[] → rest=[]) (count : ℤ) :
    Splice h (putBucket h (slot h.mask id) b count) id x y := by
  have hself : (putBucket h (slot h.mask id) b count).table (slot h.mask id)=b :=
    Function.update_self ..
  exact {
    width := rfl
    mask := rfl
    others := fun i hi => Function.update_of_ne hi ..
    wf := by rw [hself]; exact hwf
    old := hx
    new := hy
    nodes := ⟨front,rest,hold,by rw [hself]; exact hnew,hfront,hempty⟩}

/-- Behind a node with another id. -/
theorem ne_of_mem_cons {e : DycoHentry α} {l : List (DycoHentry α)} (he : e.id≠id)
    (hl : ∀ x∈l,x.id≠id) : ∀ x∈e::l,x.id≠id := by
  intro x hx
  rcases List.mem_cons.mp hx with rfl|hx
  · exact he
  · exact hl x hx

/-- `htable_delete` of an id of the table. -/
theorem splice_htableDelete {e : DycoHentry α} (he : held h id=some e)
    (hwf : WellFormed (h.table (slot h.mask id))) :
    Splice h (HashTable.htableDelete h id).2.2 id [e] [] := by
  have hempty := head_ne_of_held he
  have hid : ∀ x∈[e],x.id=id := by simpa using id_of_held he
  have hentries := entries_of_ne hempty
  have hreal := hwf.real
  unfold HashTable.htableDelete
  rw [if_neg hempty]
  by_cases hhead : (h.table (slot h.mask id)).id=id
  · rw [held_of_head hempty hhead] at he
    cases he
    rw [if_pos hhead]
    cases hnext : (h.table (slot h.mask id)).next with
    | nil =>
      rw [hnext] at hentries
      show Splice h (putBucket h (slot h.mask id) ⟨⟨-1,none⟩,[]⟩ _) id _ _
      have hwf' : WellFormed (⟨⟨-1,none⟩,[]⟩ : Bucket α) := ⟨fun _ => rfl,fun x hx => (nomatch hx)⟩
      exact splice_putBucket [] [] hwf' hentries rfl hid (by simp) (by simp) (fun _ _ => rfl) _
    | cons first rest =>
      rw [hnext] at hentries hreal
      have hfirst : first.id≠-1 := hreal first List.mem_cons_self
      show Splice h (putBucket h (slot h.mask id) ⟨first,rest⟩ _) id _ _
      have hwf' : WellFormed ⟨first,rest⟩ :=
        ⟨fun hz => absurd hz hfirst,fun x hx => hreal x (List.mem_cons_of_mem _ hx)⟩
      exact splice_putBucket [] (first::rest) hwf' hentries (entries_mk hfirst) hid (by simp)
        (by simp) (by simp) _
  · rw [held_of_chain hempty hhead] at he
    obtain ⟨-,front,rest,hnext,hfront⟩ := List.find?_eq_some_iff_append.mp he
    have hfront : ∀ x∈front,x.id≠id := by simpa using hfront
    rw [hnext] at hentries hreal
    rw [if_neg hhead,hnext,unlink_append (hid e List.mem_cons_self) hfront]
    show Splice h (putBucket h (slot h.mask id)
      ⟨(h.table (slot h.mask id)).toDycoHentry,front++rest⟩ _) id _ _
    have hwf' : WellFormed ⟨(h.table (slot h.mask id)).toDycoHentry,front++rest⟩ := by
      refine ⟨fun hz => absurd hz hempty,fun x hx => hreal x ?_⟩
      rcases List.mem_append.mp hx with hx|hx
      · exact List.mem_append_left _ hx
      · exact List.mem_append_right _ (List.mem_cons_of_mem _ hx)
    exact splice_putBucket (_::front) rest hwf' hentries (entries_mk hempty) hid (by simp)
      (ne_of_mem_cons hhead hfront) (by simp) _

/-- `htable_insert` under an id of the table. -/
theorem splice_htableInsert {e : DycoHentry α} (he : held h id=some e) (data : Option α)
    (hwf : WellFormed (h.table (slot h.mask id))) :
    Splice h (HashTable.htableInsert h id data).2 id [e] [⟨id,data⟩] := by
  have hempty := head_ne_of_held he
  have hid : ∀ x∈[e],x.id=id := by simpa using id_of_held he
  have hentries := entries_of_ne hempty
  have hreal := hwf.real
  unfold HashTable.htableInsert
  rw [if_neg hempty]
  by_cases hhead : (h.table (slot h.mask id)).id=id
  · rw [held_of_head hempty hhead] at he
    cases he
    rw [if_pos hhead]
    show Splice h (putBucket h (slot h.mask id)
      ⟨⟨(h.table (slot h.mask id)).id,data⟩,(h.table (slot h.mask id)).next⟩ _) id _ _
    rw [hhead]
    have hid' : id≠-1 := hhead ▸ hempty
    have hwf' : WellFormed ⟨⟨id,data⟩,(h.table (slot h.mask id)).next⟩ :=
      ⟨fun hz => absurd hz hid',hreal⟩
    exact splice_putBucket [] _ hwf' hentries (entries_mk hid') hid (by simp) (by simp) (by simp) _
  · rw [held_of_chain hempty hhead] at he
    obtain ⟨-,front,rest,hnext,hfront⟩ := List.find?_eq_some_iff_append.mp he
    have hfront : ∀ x∈front,x.id≠id := by simpa using hfront
    have heid : e.id=id := hid e List.mem_cons_self
    rw [hnext] at hentries hreal
    rw [if_neg hhead,hnext,assign_append heid hfront,heid]
    show Splice h (putBucket h (slot h.mask id)
      ⟨(h.table (slot h.mask id)).toDycoHentry,front++⟨id,data⟩::rest⟩ _) id _ _
    have hwf' : WellFormed ⟨(h.table (slot h.mask id)).toDycoHentry,front++⟨id,data⟩::rest⟩ := by
      refine ⟨fun hz => absurd hz hempty,fun x hx => ?_⟩
      simp only [List.mem_append,List.mem_cons] at hx hreal
      rcases hx with hx|rfl|hx
      · exact hreal x (.inl hx)
      · exact heid ▸ hreal e (.inr (.inl rfl))
      · exact hreal x (.inr (.inr hx))
    exact splice_putBucket (_::front) rest hwf' hentries (entries_mk hempty) hid (by simp)
      (ne_of_mem_cons hhead hfront) (by simp) _

/-- A slot with a new node. -/
def withEntry (bucket : Bucket α) (id : ℤ) (data : Option α) : Bucket α :=
  if bucket.id=-1 then {bucket with id := id,data := data}
  else {bucket with next := ⟨id,data⟩::bucket.next}

/-- The table with a new node, before `htable_insert` looks for a resize. -/
def withNode (h : DycoHtable α) (id : ℤ) (data : Option α) : DycoHtable α :=
  putBucket h (slot h.mask id) (withEntry (h.table (slot h.mask id)) id data) (h.count+1)

/-- `htable_insert` under a new id. -/
theorem splice_withNode (hnone : held h id=none) (hid : id≠-1) (data : Option α)
    (hwf : WellFormed (h.table (slot h.mask id))) :
    Splice h (withNode h id data) id [] [⟨id,data⟩] := by
  have hreal := hwf.real
  unfold withNode
  by_cases hempty : (h.table (slot h.mask id)).id=-1
  · have hnext := hwf.ended hempty
    rw [withEntry,if_pos hempty,hnext]
    have hwf' : WellFormed (⟨⟨id,data⟩,[]⟩ : Bucket α) :=
      ⟨fun _ => rfl,fun x hx => (nomatch hx)⟩
    exact splice_putBucket [] [] hwf' (entries_of_eq hempty) (entries_mk hid) (by simp) (by simp)
      (by simp) (fun _ _ => rfl) _
  · have hhead : (h.table (slot h.mask id)).id≠id := by
      intro hhead
      rw [held_of_head hempty hhead] at hnone
      cases hnone
    rw [withEntry,if_neg hempty]
    have hwf' : WellFormed ⟨(h.table (slot h.mask id)).toDycoHentry,
        ⟨id,data⟩::(h.table (slot h.mask id)).next⟩ := by
      refine ⟨fun hz => absurd hz hempty,fun x hx => ?_⟩
      rcases List.mem_cons.mp hx with rfl|hx
      · exact hid
      · exact hreal x hx
    exact splice_putBucket [_] _ hwf' (entries_of_ne hempty) (entries_mk hempty) (by simp) (by simp)
      (ne_of_mem_cons hhead (by simp)) (by simp) _

/-- The entry of an id of the table. -/
theorem entered_false (he : Entered ht id data ht' false) :
    (held (plain ht) id).isSome ∧ plain ht'=(HashTable.htableInsert (plain ht) id data).2 := by
  rw [plain_entered he]
  refine ⟨?_,rfl⟩
  cases he with
  | head hempty hhead =>
    have hplain : ((plain ht).table (slot (plain ht).mask id)).id≠-1 := hempty
    rw [held_of_head hplain hhead]
    rfl
  | @chain front rest n hempty hhead hnext hid =>
    have hplain : ((plain ht).table (slot (plain ht).mask id)).id≠-1 := hempty
    rw [held_of_chain hplain hhead,List.find?_isSome]
    refine ⟨n.toDycoHentry,List.mem_map_of_mem ?_,decide_eq_true hid⟩
    show n∈(ht.table (slot ht.mask id)).next
    rw [hnext]
    exact List.mem_append_right _ List.mem_cons_self

/-- The entry of a new id. -/
theorem entered_true (he : Entered ht id data ht' true) :
    held (plain ht) id=none ∧ plain ht'=withNode (plain ht) id data := by
  cases he with
  | vacant hempty =>
    have hplain : ((plain ht).table (slot (plain ht).mask id)).id=-1 := hempty
    refine ⟨held_of_empty hplain,?_⟩
    rw [withNode,withEntry,if_pos hplain]
    exact plain_putSlot ..
  | behind hempty hhead hchain =>
    have hplain : ((plain ht).table (slot (plain ht).mask id)).id≠-1 := hempty
    refine ⟨(held_of_chain hplain hhead).trans (find?_plain_of_none hchain),?_⟩
    rw [withNode,withEntry,if_neg hplain,plain_allocate]
    exact plain_putSlot ..

/-! ## `htable_insert` on a table that calls have made -/

/-- What the calls keep: the chains are linked, and the table is one before or after its
first resize. -/
structure Good (ht : Table α) : Prop where
  linked : ∃ leak,Linked leak ht
  wf : ∀ i,WellFormed ((plain ht).table i)
  shape : Clean (plain ht) ∨ Filled (plain ht)

/-- A node is put in, or one is taken out. -/
theorem Good.splice {e : Option (DycoHentry α)} (hg : Good ht) (hl : ∃ leak,Linked leak ht')
    (hs : Splice (plain ht) (plain ht') id (held (plain ht) id).toList e.toList) : Good ht' :=
  ⟨hl,hs.wellFormed hg.wf,hg.shape.imp hs.clean hs.filled⟩

/-- Whether the call asks for a larger table: the id is new, its node can be had, and the
table is full with it. -/
def grows (o : Outcomes) (h : DycoHtable α) (id : ℤ) : Bool :=
  HashTable.htableContains h id=0 && ((h.table (slot h.mask id)).id=-1 || o.node) &&
    (h.mask : ℤ)*2=h.count+1

theorem lacksNode_eq (o : Outcomes) (ht : Table α) (id : ℤ) : lacksNode o ht id=
    !(decide (((plain ht).table (slot (plain ht).mask id)).id=-1) || o.node) := by
  rw [Bool.not_or,← decide_not]
  rfl

/-- Whether a resize that has begun fails. -/
def halfway (o : Outcomes) (h : DycoHtable α) (id : ℤ) (data : Option α) : Bool :=
  grows o h id && h.width < maxWidth && o.table && !succeeds o (withNode h id data)

/-- What an insertion comes to. -/
inductive Inserted (o : Outcomes) (ht : Table α) (id : ℤ) (data : Option α) : ℤ → Table α → Prop
  /-- There is no memory for the node. -/
  | refused (hgrows : grows o (plain ht) id=false) : Inserted o ht id data (-1) ht
  /-- The entry is made, and no resize is asked for. -/
  | stored {ret : ℤ} {t : Table α} (hgrows : grows o (plain ht) id=false) (hret : ret=0 ∨ ret=1)
      (hgood : Good t)
      (hs : Splice (plain ht) (plain t) id (held (plain ht) id).toList [⟨id,data⟩]) :
      Inserted o ht id data ret t
  /-- The table is resized. -/
  | resized {t : Table α} (hgrows : grows o (plain ht) id=true)
      (hs : Splice (plain ht) (withNode (plain ht) id data) id (held (plain ht) id).toList
        [⟨id,data⟩])
      (ho : succeeds o (withNode (plain ht) id data)=true) (hl : ∃ leak,Linked leak t)
      (hplain : plain t=grown (withNode (plain ht) id data)) : Inserted o ht id data 1 t
  /-- The resize fails. -/
  | failed {t : Table α} (hgrows : grows o (plain ht) id=true)
      (ho : succeeds o (withNode (plain ht) id data)=false) (hcount : t.count=ht.count+1)
      (hgood : halfway o (plain ht) id data=false → Good t) : Inserted o ht id data (-1) t

/-- The end of an insertion that has added a node. -/
theorem inserted_grow (hg : Good ht) (hid : id≠-1) (he : Entered ht id data ht' true)
    (hnode : lacksNode o ht id=false) :
    ∃ ret t,grow o ht'=.ok (ret,t) ∧ Inserted o ht id data ret t := by
  obtain ⟨leak,hl⟩ := hg.linked
  obtain ⟨hnone,hplain⟩ := entered_true he
  have hl' : Linked leak ht' := hl.entered he
  have hs : Splice (plain ht) (withNode (plain ht) id data) id (held (plain ht) id).toList
      [⟨id,data⟩] := by
    rw [hnone]
    exact splice_withNode hnone hid data (hg.wf _)
  have hgood : Good ht' := by
    rw [← hplain] at hs
    exact hg.splice (e := some ⟨id,data⟩) ⟨leak,hl'⟩ hs
  have hmask : ht'.mask=ht.mask := congrArg DycoHtable.mask hplain
  have hwidth : ht'.width=ht.width := congrArg DycoHtable.width hplain
  have hcount : ht'.count=ht.count+1 := congrArg DycoHtable.count hplain
  have hgrows : grows o (plain ht) id=decide ((ht'.mask : ℤ)*2=ht'.count) := by
    rw [lacksNode_eq,Bool.not_eq_false'] at hnode
    have hnew : HashTable.htableContains (plain ht) id=0 := by
      rw [htableContains_eq,hnone]
      rfl
    rw [grows,hnew,hnode,hmask,hcount]
    simp
    rfl
  unfold TableAllocation.grow
  by_cases hfull : (ht'.mask : ℤ)*2=ht'.count
  · rw [if_pos hfull]
    rw [decide_eq_true hfull] at hgrows
    cases ho : succeeds o (withNode (plain ht) id data) with
    | true =>
      obtain ⟨t,ht,hgrown,hlinked⟩ := htableResize_succeeds hl' hgood.wf (hplain ▸ ho)
      rw [ht]
      refine ⟨1,t,rfl,.resized hgrows hs ho hlinked ?_⟩
      rw [hgrown,hplain]
    | false =>
      obtain ⟨t,hfails,hkept⟩ := htableResize_fails hl' hgood.wf (hplain ▸ ho)
      rw [hfails]
      refine ⟨-1,t,rfl,.failed hgrows ho (hkept.trans hcount) fun hwhole => ?_⟩
      have hrefused : ¬(ht'.width < maxWidth ∧ o.table=true) := by
        rintro ⟨hadmitted,htable⟩
        rw [hwidth] at hadmitted
        have hadmitted : (plain ht).width < maxWidth := hadmitted
        simp [halfway,hgrows,hadmitted,htable,ho] at hwhole
      rw [htableResize_refused hrefused] at hfails
      cases hfails
      exact hgood
  · rw [if_neg hfull]
    rw [decide_eq_false hfull] at hgrows
    refine ⟨1,ht',rfl,.stored hgrows (.inr rfl) hgood ?_⟩
    rw [hplain]
    exact hs

/-- `htable_insert` does not fault, and comes to one of these. -/
theorem inserted_htableInsert (hg : Good ht) (hid : id≠-1) (data : Option α) (o : Outcomes) :
    ∃ ret t,htableInsert o ht id data=.ok (ret,t) ∧ Inserted o ht id data ret t := by
  obtain ⟨leak,hl⟩ := hg.linked
  obtain ⟨t,added,he,hinsert⟩ := htableInsert_eq hl o id data
  rw [hinsert]
  cases added with
  | true =>
    rw [if_pos rfl]
    cases hnode : lacksNode o ht id with
    | true =>
      refine ⟨-1,ht,rfl,.refused ?_⟩
      rw [lacksNode_eq,Bool.not_eq_true'] at hnode
      rw [grows,hnode,Bool.and_false,Bool.false_and]
    | false => exact inserted_grow hg hid he hnode
  | false =>
    obtain ⟨hsome,hplain⟩ := entered_false he
    obtain ⟨e,hheld⟩ := Option.isSome_iff_exists.mp hsome
    have hs : Splice (plain ht) (plain t) id (held (plain ht) id).toList [⟨id,data⟩] := by
      rw [hplain,hheld]
      exact splice_htableInsert hheld data (hg.wf _)
    refine ⟨0,t,rfl,.stored ?_ (.inl rfl) ?_ hs⟩
    · simp [grows,htableContains_eq,hheld]
    · exact hg.splice (e := some ⟨id,data⟩) ⟨leak,hl.entered he⟩ hs

/-! ## Atomicity -/

/-- Both functions say the same about an id. -/
def Agree (t ht : Table α) (id : ℤ) : Prop :=
  ChainedTable.htableFind t id=ChainedTable.htableFind ht id ∧
    TableAllocation.htableContains t id=TableAllocation.htableContains ht id

/-- An insertion returns -1 and nothing has changed, or it returns 0 or 1, the id has the
data and all other ids are as they were. -/
def Atomic (o : Outcomes) (ht : Table α) (id : ℤ) (data : Option α) : Prop :=
  ∃ ret t,htableInsert o ht id data=.ok (ret,t) ∧
    (ret=-1 ∧ (∀ k,Agree t ht k) ∧ t.count=ht.count ∨
      (ret=0 ∨ ret=1) ∧ ChainedTable.htableFind t id=.ok data ∧
        TableAllocation.htableContains t id=.ok 1 ∧ ∀ k≠id,Agree t ht k)

/-- No resize is asked for, or it succeeds and keeps what is said about 0. -/
def meets (o : Outcomes) (h : DycoHtable α) (id : ℤ) (data : Option α) : Bool :=
  !grows o h id || succeeds o (withNode h id data) && keepsZero (withNode h id data)

theorem agree_iff {leak' : Multiset ℕ} (hl : Linked leak ht) (hl' : Linked leak' ht') (k : ℤ) :
    Agree ht' ht k ↔ answer (plain ht') k=answer (plain ht) k := by
  rw [Agree,plain_htableFind hl,plain_htableFind hl',plain_htableContains hl,
    plain_htableContains hl',answer_eq_iff]
  simp

/-- The id has the data and the others are as they were. -/
theorem stored_iff {leak' : Multiset ℕ} (hl : Linked leak ht) (hl' : Linked leak' ht')
    (hs : Splice (plain ht) t id (held (plain ht) id).toList [⟨id,data⟩]) :
    (ChainedTable.htableFind ht' id=.ok data ∧ TableAllocation.htableContains ht' id=.ok 1 ∧
      ∀ k≠id,Agree ht' ht k) ↔ ∀ k,answer (plain ht') k=answer t k := by
  have hself : answer t id=some data := by
    rw [answer,hs.held_self]
    rfl
  have hothers : ∀ k≠id,answer t k=answer (plain ht) k := fun k hk => by
    rw [answer,hs.held_of_ne hk]
    rfl
  have hid : answer (plain ht') id=answer t id ↔ ChainedTable.htableFind ht' id=.ok data ∧
      TableAllocation.htableContains ht' id=.ok 1 := by
    rw [plain_htableFind hl',plain_htableContains hl',htableFind_answer,htableContains_answer,
      hself]
    cases answer (plain ht') id <;> simp
  rw [← and_assoc,← hid]
  constructor
  · rintro ⟨hself',hothers'⟩ k
    by_cases hk : k=id
    · rw [hk]
      exact hself'
    · rw [hothers k hk]
      exact (agree_iff hl hl' k).mp (hothers' k hk)
  · intro hall
    refine ⟨hall id,fun k hk => (agree_iff hl hl' k).mpr ?_⟩
    rw [hall k]
    exact hothers k hk

/-- An insertion is atomic iff it meets the condition. -/
theorem atomic_iff (hg : Good ht) (hid : id≠-1) (data : Option α) (o : Outcomes) :
    Atomic o ht id data ↔ meets o (plain ht) id data=true := by
  obtain ⟨leak,hl⟩ := hg.linked
  obtain ⟨ret,t,hinsert,hcase⟩ := inserted_htableInsert hg hid data o
  have hatomic : Atomic o ht id data ↔ (ret=-1 ∧ (∀ k,Agree t ht k) ∧ t.count=ht.count ∨
      (ret=0 ∨ ret=1) ∧ ChainedTable.htableFind t id=.ok data ∧
        TableAllocation.htableContains t id=.ok 1 ∧ ∀ k≠id,Agree t ht k) := by
    constructor
    · rintro ⟨ret',t',hinsert',h⟩
      rw [hinsert] at hinsert'
      cases hinsert'
      exact h
    · exact fun h => ⟨ret,t,hinsert,h⟩
  rw [hatomic]
  cases hcase with
  | refused hgrows => simp [meets,hgrows,Agree]
  | stored hgrows hret hgood hs =>
    obtain ⟨leak',hl'⟩ := hgood.linked
    have hstored := (stored_iff hl hl' hs).mpr fun k => rfl
    refine iff_of_true (.inr ⟨hret,hstored⟩) ?_
    rw [meets,hgrows]
    rfl
  | resized hgrows hs ho hlinked hplain =>
    obtain ⟨leak',hl'⟩ := hlinked
    have hwf := hs.wellFormed hg.wf
    have hshape : Clean (withNode (plain ht) id data) ∨ Filled (withNode (plain ht) id data) :=
      hg.shape.imp (hs.clean (o := some ⟨id,data⟩)) (hs.filled (o := some ⟨id,data⟩))
    have hkeeps := answers_grown_iff hwf hshape
    rw [← hplain,← stored_iff hl hl' hs] at hkeeps
    rw [hkeeps]
    simp [meets,hgrows,ho]
  | failed hgrows ho hcount =>
    refine iff_of_false ?_ ?_
    · rintro (⟨-,-,hsame⟩|⟨hret,-⟩)
      · omega
      · omega
    · simp [meets,hgrows,ho]

/-! ## Runs -/

/-- A call that changes the table, with the outcomes of its allocations. -/
inductive Op (α : Type*)
  /-- `htable_insert` -/
  | insert (id : ℤ) (data : Option α) (o : Outcomes)
  /-- `htable_delete` -/
  | delete (id : ℤ)

/-- One call. -/
def step (ht : Table α) : Op α → Option (Except ScheduleState.Fault (Table α))
  | .insert id data o => some ((htableInsert o ht id data).map Prod.snd)
  | .delete id => some ((ChainedTable.htableDelete ht id).map Prod.snd)

/-- The id -1 is not inserted, and no resize fails after it has begun. -/
def whole (ht : Table α) : Op α → Bool
  | .insert id data o => id≠-1 && !halfway o (plain ht) id data
  | .delete _ => true

theorem good_htableInit (width : ℤ) : Good (ChainedTable.htableInit width : Table α) := by
  have hnone : visited (plain (ChainedTable.htableInit width : Table α))=[] := by
    refine List.eq_nil_iff_forall_not_mem.mpr fun e he => ?_
    obtain ⟨i,-,he⟩ := KeyedEntries.mem_spread.mp he
    cases he
  refine ⟨⟨0,linked_htableInit width⟩,fun i => ⟨fun _ => rfl,fun e he => nomatch he⟩,.inl ?_⟩
  refine ⟨fun i _ e he => (nomatch he),fun k => ?_⟩
  rw [Lone,hnone]
  exact .refl _

/-- An insertion that is not left halfway. -/
theorem Good.inserted {ret : ℤ} (hg : Good ht) (hwhole : halfway o (plain ht) id data=false)
    (hi : Inserted o ht id data ret ht') : Good ht' := by
  cases hi with
  | refused => exact hg
  | stored _ _ hgood => exact hgood
  | failed _ _ _ hgood => exact hgood hwhole
  | resized _ hs ho hl hplain =>
    have hwf := hs.wellFormed hg.wf
    have hwidth : (withNode (plain ht) id data).width < maxWidth := by
      simp only [TableAllocation.succeeds,Bool.and_eq_true,decide_eq_true_eq] at ho
      exact ho.1.1
    have hlone : ∀ k≠0,Lone (withNode (plain ht) id data) k := by
      intro k hk
      refine hs.lone (o := some ⟨id,data⟩) ?_
      rcases hg.shape with hclean|hfilled
      · exact hclean.lone k
      · exact hfilled.lone k hk
    refine ⟨hl,?_,.inr ?_⟩
    · rw [hplain]
      exact (grown_spec hwf hwidth).1
    · rw [hplain]
      exact filled_grown hwf hwidth hlone

/-- A deletion. -/
theorem Good.deleted {ret : ℤ} (hg : Good ht)
    (hdelete : ChainedTable.htableDelete ht id=.ok (ret,ht')) : Good ht' := by
  obtain ⟨leak,hl⟩ := hg.linked
  have hplain := plain_htableDelete hl hdelete
  have hl' : ∃ leak,Linked leak ht' := ⟨leak,(hl.of_htableDelete hdelete).1⟩
  cases hheld : held (plain ht) id with
  | none =>
    rw [htableDelete_of_none hheld] at hplain
    exact ⟨hl',hplain ▸ hg.wf,hplain ▸ hg.shape⟩
  | some e =>
    have hs := splice_htableDelete hheld (hg.wf _)
    rw [hplain] at hs
    have hs : Splice (plain ht) (plain ht') id (held (plain ht) id).toList [] := by
      rw [hheld]
      exact hs
    exact hg.splice (e := none) hl' hs

/-- One call keeps the table good. -/
theorem Good.step {op : Op α} (hg : Good ht) (hop : whole ht op=true)
    (hstep : step ht op=some (.ok ht')) : Good ht' := by
  cases op with
  | insert id data o =>
    obtain ⟨hid,hwhole⟩ : id≠-1 ∧ halfway o (plain ht) id data=false := by
      simpa [whole] using hop
    obtain ⟨ret,t,hinsert,hi⟩ := inserted_htableInsert hg hid data o
    have hstep : (htableInsert o ht id data).map Prod.snd=.ok ht' := Option.some.inj hstep
    rw [hinsert] at hstep
    cases hstep
    exact hg.inserted hwhole hi
  | delete id =>
    obtain ⟨⟨ret,t⟩,hdelete,rfl⟩ := map_eq_ok (Option.some.inj hstep)
    exact hg.deleted hdelete

/-- On every table that insertions and deletions make, without a resize that failed after
it had begun, an insertion is atomic iff it asks for no resize, or the resize is admitted,
gets all its memory and keeps what is said about the id 0. -/
theorem insertion_atomic_iff {width : ℤ}
    (hruns : Runs step (fun ht op => whole ht op=true) (ChainedTable.htableInit width) ht)
    (hid : id≠-1) (data : Option α) (o : Outcomes) :
    Atomic o ht id data ↔ meets o (plain ht) id data=true := by
  refine atomic_iff ?_ hid data o
  exact hruns.invariant Good (good_htableInit width) fun _ _ _ hg hop hstep => hg.step hop hstep

/-- All allocations succeed. -/
def plenty : Outcomes := ⟨true,true,fun _ => true⟩

/-- There is no memory for a table. -/
def scarce : Outcomes := ⟨true,false,fun _ => true⟩

/-- The first resize, with all its memory. -/
theorem insertion_atomic_iff_first : ∃ ht : Table ℕ,
    Runs step (fun ht op => whole ht op=true) (ChainedTable.htableInit 1) ht ∧
      grows plenty (plain ht) 2=true ∧ Atomic plenty ht 2 (some 20) := by
  have h : (replayWhile step (fun ht op => whole ht op=true)
      (ChainedTable.htableInit 1 : Table ℕ) [.insert 1 (some 10) plenty]).map (fun ht =>
        (grows plenty (plain ht) 2,meets plenty (plain ht) 2 (some 20)))=some (true,true) := by
    decide +kernel
  obtain ⟨ht,hrun,hq⟩ := Option.map_eq_some_iff.mp h
  simp only [Prod.mk.injEq] at hq
  obtain ⟨hgrows,hmeets⟩ := hq
  have hruns := runs_of_replayWhile hrun
  exact ⟨ht,hruns,hgrows,(insertion_atomic_iff hruns (by decide) (some 20) plenty).mpr hmeets⟩

/-- Insertions up to the second resize. -/
def untilSecond : List (Op ℕ) :=
  [.insert 1 none plenty,.insert 2 none plenty,.insert 3 none plenty,.insert 5 none plenty,
    .insert 6 none plenty]

/-- Without memory for the larger table the insertion of 2 returns -1, but 2 is found and
counted afterwards. With memory a second resize returns 1, and 0 is found though nobody
has inserted it. -/
theorem failed_insertion_stays : (∃ ht t : Table ℕ,
    Runs step (fun ht op => whole ht op=true) (ChainedTable.htableInit 1) ht ∧
      htableInsert scarce ht 2 (some 20)=.ok (-1,t) ∧
      TableAllocation.htableContains ht 2=.ok 0 ∧ TableAllocation.htableContains t 2=.ok 1 ∧
      t.count=ht.count+1 ∧ ¬Atomic scarce ht 2 (some 20)) ∧
    ∃ ht t : Table ℕ,Runs step (fun ht op => whole ht op=true) (ChainedTable.htableInit 1) ht ∧
      htableInsert plenty ht 7 (some 70)=.ok (1,t) ∧ TableAllocation.htableContains ht 0=.ok 0 ∧
      TableAllocation.htableContains t 0=.ok 1 ∧ ¬Atomic plenty ht 7 (some 70) := by
  constructor
  · have h : ((replayWhile step (fun ht op => whole ht op=true)
        (ChainedTable.htableInit 1 : Table ℕ) [.insert 1 (some 10) plenty]).bind fun ht =>
        (htableInsert scarce ht 2 (some 20)).toOption.map fun r => (r.1,
          (TableAllocation.htableContains ht 2).toOption,
          (TableAllocation.htableContains r.2 2).toOption,decide (r.2.count=ht.count+1)))=
        some (-1,some 0,some 1,true) := by decide +kernel
    obtain ⟨ht,hrun,h⟩ := Option.bind_eq_some_iff.mp h
    obtain ⟨⟨ret,t⟩,hinsert,hq⟩ := Option.map_eq_some_iff.mp h
    simp only [Prod.mk.injEq,decide_eq_true_eq] at hq
    obtain ⟨rfl,hbefore,hafter,hcount⟩ := hq
    have hinsert := ok_of_toOption hinsert
    refine ⟨ht,t,runs_of_replayWhile hrun,hinsert,ok_of_toOption hbefore,ok_of_toOption hafter,
      hcount,?_⟩
    rintro ⟨ret',t',hinsert',hcase⟩
    rw [hinsert] at hinsert'
    cases hinsert'
    rcases hcase with ⟨-,-,hsame⟩|⟨hret,-⟩
    · omega
    · omega
  · have h : ((replayWhile step (fun ht op => whole ht op=true)
        (ChainedTable.htableInit 1 : Table ℕ) untilSecond).bind fun ht =>
        (htableInsert plenty ht 7 (some 70)).toOption.map fun r => (r.1,
          (TableAllocation.htableContains ht 0).toOption,
          (TableAllocation.htableContains r.2 0).toOption))=some (1,some 0,some 1) := by
      decide +kernel
    obtain ⟨ht,hrun,h⟩ := Option.bind_eq_some_iff.mp h
    obtain ⟨⟨ret,t⟩,hinsert,hq⟩ := Option.map_eq_some_iff.mp h
    simp only [Prod.mk.injEq] at hq
    obtain ⟨rfl,hbefore,hafter⟩ := hq
    have hinsert := ok_of_toOption hinsert
    have hbefore := ok_of_toOption hbefore
    have hafter := ok_of_toOption hafter
    refine ⟨ht,t,runs_of_replayWhile hrun,hinsert,hbefore,hafter,?_⟩
    rintro ⟨ret',t',hinsert',hcase⟩
    rw [hinsert] at hinsert'
    cases hinsert'
    rcases hcase with ⟨hret,-⟩|⟨-,-,-,hothers⟩
    · omega
    · obtain ⟨-,hsame⟩ := hothers 0 (by decide)
      rw [hbefore,hafter] at hsame
      cases hsame

end DycoCoroutine.InsertAtomicity
