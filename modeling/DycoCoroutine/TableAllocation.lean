import DycoCoroutine.ChainedTable
import DycoCoroutine.ResizeOrder

/-!
# Allocations of the hash table that fail

`htable_insert` and `htable_resize` with an outcome for every allocation they attempt:
the node of a chain, the new table, and a node for the embedded node of each old slot. A
resize that fails halfway returns -1 and leaves the old table in place, whose chains lead
into the new one by then or to nodes that were freed. The allocator hands out no address
twice, so that a pointer to a freed node stays one. Without a failure the operations are
those of the table whose allocations succeed.
-/

namespace DycoCoroutine.TableAllocation

open ScheduleState RunInvariant KeyedEntries HashTable ChainedTable

/-- What the allocations of one call come to. -/
structure Outcomes where
  /-- `malloc` of the node in `htable_insert`. -/
  node : Bool
  /-- `calloc` of the new table in `htable_resize`. -/
  table : Bool
  /-- `malloc` for the embedded node of this old slot. -/
  head : ℕ → Bool

variable {α : Type*}

/-- `htable_contains` -/
def htableContains (ht : Table α) (id : ℤ) : Except Fault ℤ :=
  let bucket := ht.table (slot ht.mask id)
  if bucket.id=-1 then .ok 0
  else if bucket.id=id then .ok 1
  else (walk ht.heap id bucket.next).map fun r => if r.isSome then 1 else 0

/-- The second loop of `htable_resize` in progress. -/
structure Progress (α : Type*) where
  /-- The new table, with the allocator. -/
  new : Table α
  /-- What the old slots lead to. -/
  old : ℕ → Slot α
  /-- A `malloc` has failed, and -1 is returned. -/
  failed : Bool

/-- What `next` of an old slot leads to when its chain has been entered in the new table.
It still points to the first node, which was freed or has a new successor. -/
def relinked (new : Table α) : List (Node α) → List (Node α)
  | [] => []
  | n::_ =>
    let bucket := new.table (slot new.mask n.id)
    if bucket.id=-1 then [n] else n::bucket.next

/-- One round of the second loop of `htable_resize`. -/
def resizeRound (o : Outcomes) (oldtable : ℕ → Slot α) (s : Progress α) (i : ℕ) :
    Except Fault (Progress α) :=
  if s.failed then .ok s
  else if (oldtable i).id=-1 then .ok s
  else if (s.new.table (slot s.new.mask (oldtable i).id)).id≠-1 ∧ o.head i=false then
    .ok {s with failed := true}
  else do
    let new := rehashHead s.new (oldtable i).toDycoHentry
    let done ← (oldtable i).next.foldlM rehashNode new
    let old := Function.update s.old i {oldtable i with next := relinked new (oldtable i).next}
    .ok ⟨done,old,false⟩

/-- The tables before the second loop of `htable_resize`. -/
def resizeStart (ht : Table α) (width : ℕ) : Table α :=
  {ht with width := width,mask := 2^width-1,table := newTable (2^width)}

/-- `htable_resize` -/
def htableResize (o : Outcomes) (ht : Table α) (width : ℕ) : Except Fault (ℤ×Table α) :=
  if width=ht.width ∨ maxWidth<width then .ok (-1,ht)
  else if o.table=false then .ok (-1,ht)
  else do
    let s ← (List.range (ht.mask+1)).foldlM (resizeRound o ht.table)
      ⟨resizeStart ht width,ht.table,false⟩
    if s.failed then .ok (-1,{ht with table := s.old,heap := s.new.heap,fresh := s.new.fresh})
    else .ok (0,s.new)

/-- The end of `htable_insert` after a node was added and counted. -/
def grow (o : Outcomes) (ht : Table α) : Except Fault (ℤ×Table α) :=
  if (ht.mask : ℤ)*2=ht.count then
    (htableResize o ht (ht.width+1)).map fun r => (if r.1<0 then -1 else 1,r.2)
  else .ok (1,ht)

/-- `htable_insert` -/
def htableInsert (o : Outcomes) (ht : Table α) (id : ℤ) (data : Option α) :
    Except Fault (ℤ×Table α) :=
  let idx := slot ht.mask id
  let bucket := ht.table idx
  if bucket.id=-1 then grow o (putSlot ht idx {bucket with id := id,data := data} (ht.count+1))
  else if bucket.id=id then .ok (0,putSlot ht idx {bucket with data := data} ht.count)
  else do
    match ← walk ht.heap id bucket.next with
    | some (front,n,rest) =>
      pure (0,putSlot ht idx {bucket with next := front++{n with data := data}::rest} ht.count)
    | none =>
      if o.node=false then pure (-1,ht)
      else
        let next := ⟨⟨id,data⟩,ht.fresh⟩::bucket.next
        grow o (allocate (putSlot ht idx {bucket with next := next} (ht.count+1)))

variable {ht ht' new : Table α} {id : ℤ} {data : Option α} {leak : Multiset ℕ} {o : Outcomes}

/-- `htable_contains` without the addresses. -/
theorem plain_htableContains (hl : Linked leak ht) (id : ℤ) :
    htableContains ht id=.ok (HashTable.htableContains (plain ht) id) := by
  obtain ⟨r,hw,hfind⟩ := plain_walk (hl.readable id) id
  have hnext : (((plain ht).table (slot (plain ht).mask id)).next.find? fun e => e.id=id)=
      r.map fun r => r.2.1.toDycoHentry := hfind
  have hid : ((plain ht).table (slot (plain ht).mask id)).id=(ht.table (slot ht.mask id)).id := rfl
  unfold htableContains HashTable.htableContains
  dsimp only
  rw [hw,hnext,hid]
  split_ifs
  · rfl
  · rfl
  · cases r <;> rfl

/-! ## The second loop of `htable_resize` -/

/-- The state after the old slots below `k`, if no `malloc` has failed. -/
theorem plain_rounds {k : ℕ} {width : ℕ} (h : (List.range k).foldlM
    (ChainedTable.resizeRound ht.table) (resizeStart ht width)=.ok new) :
    (plain new).table=(spread (fun i => entries ((plain ht).table i)) k).foldl
      (rehash (2^width-1)) (HashTable.newTable (2^width)) ∧ new.mask=2^width-1 := by
  have hstart : (plain (resizeStart ht width)).table=HashTable.newTable (2^width) :=
    plain_newTable (2^width)
  have hplain := plain_resizeRounds h
  refine ⟨?_,congrArg DycoHtable.mask hplain⟩
  rw [hplain,spread,List.foldl_flatMap,← hstart]
  simp only [← HashTableMap.rehash_bucket]
  rfl

/-- One round. -/
theorem round_spec (hwf : ∀ i,HashTableMap.WellFormed ((plain ht).table i)) (o : Outcomes) {k : ℕ}
    {before : Table α} {s : Progress α} (hbefore : (List.range k).foldlM
      (ChainedTable.resizeRound ht.table) (resizeStart ht (ht.width+1))=.ok before)
    (hround : ChainedTable.resizeRound ht.table before k=.ok new)
    (hs : s.failed=false → s.new=before) : ∃ r,resizeRound o ht.table s k=.ok r ∧
      (r.failed=true ↔
        s.failed=true ∨ ResizeOrder.takesNode (plain ht) k=true ∧ o.head k=false) ∧
      (r.failed=false → r.new=new) := by
  unfold resizeRound
  by_cases hfailed : s.failed=true
  · rw [if_pos hfailed]
    exact ⟨s,rfl,⟨.inl,fun _ => hfailed⟩,fun h => absurd hfailed (Bool.eq_false_iff.mp h)⟩
  have hfailed : s.failed=false := Bool.eq_false_iff.mpr hfailed
  have hnew := hs hfailed
  rw [if_neg (Bool.eq_false_iff.mp hfailed)]
  by_cases hempty : (ht.table k).id=-1
  · have hplain : ((plain ht).table k).id=-1 := hempty
    rw [ChainedTable.resizeRound,if_pos hempty] at hround
    cases hround
    rw [if_pos hempty]
    refine ⟨s,rfl,?_,fun _ => hnew⟩
    simp [ResizeOrder.takesNode,hplain]
  have hplain : ((plain ht).table k).id≠-1 := hempty
  rw [ChainedTable.resizeRound,if_neg hempty] at hround
  rw [if_neg hempty,hnew]
  -- The new slot is in use iff the embedded node needs a node of its own.
  have htakes : ResizeOrder.takesNode (plain ht) k=true ↔
      (before.table (slot before.mask (ht.table k).id)).id≠-1 := by
    obtain ⟨htable,hmask⟩ := plain_rounds hbefore
    rw [ResizeOrder.takesNode_iff hwf hplain,hmask]
    exact (iff_of_eq (congrArg (fun b : Bucket α => b.id≠-1) (congrFun htable _))).symm
  by_cases hbad : (before.table (slot before.mask (ht.table k).id)).id≠-1 ∧ o.head k=false
  · rw [if_pos hbad]
    refine ⟨_,rfl,⟨fun _ => .inr ⟨htakes.mpr hbad.1,hbad.2⟩,fun _ => rfl⟩,fun h => ?_⟩
    cases h
  · rw [if_neg hbad]
    dsimp only
    rw [hround]
    refine ⟨_,rfl,⟨fun h => (by cases h),fun h => ?_⟩,fun _ => rfl⟩
    rcases h with h|h
    · exact absurd h (Bool.eq_false_iff.mp hfailed)
    · exact absurd ⟨htakes.mp h.1,h.2⟩ hbad

/-- The loop fails iff a `malloc` that it needs fails, and does what it does without
failures otherwise. -/
theorem rounds_spec (hwf : ∀ i,HashTableMap.WellFormed ((plain ht).table i)) (o : Outcomes) {k : ℕ}
    (h : (List.range k).foldlM (ChainedTable.resizeRound ht.table)
      (resizeStart ht (ht.width+1))=.ok new) :
    ∃ s,(List.range k).foldlM (resizeRound o ht.table)
      ⟨resizeStart ht (ht.width+1),ht.table,false⟩=.ok s ∧
      (s.failed=true ↔ ∃ i<k,ResizeOrder.takesNode (plain ht) i=true ∧ o.head i=false) ∧
      (s.failed=false → s.new=new) := by
  induction k generalizing new with
  | zero =>
    cases h
    exact ⟨_,rfl,by simp,fun _ => rfl⟩
  | succ k ih =>
    rw [List.range_succ,List.foldlM_append] at h
    obtain ⟨before,hbefore,h⟩ := bind_eq_ok h
    obtain ⟨s,hs,hfailed,hnew⟩ := ih hbefore
    have hround : ChainedTable.resizeRound ht.table before k=.ok new := by
      rw [List.foldlM_cons] at h
      obtain ⟨last,hlast,h⟩ := bind_eq_ok h
      cases h
      exact hlast
    obtain ⟨r,hr,hrfailed,hrnew⟩ := round_spec hwf o hbefore hround hnew
    refine ⟨r,?_,?_,hrnew⟩
    · rw [List.range_succ,List.foldlM_append,hs]
      show (resizeRound o ht.table s k>>=_)=_
      rw [hr]
      rfl
    rw [hrfailed,hfailed]
    constructor
    · rintro (⟨i,hi,hbad⟩|hbad)
      · exact ⟨i,by omega,hbad⟩
      · exact ⟨k,by omega,hbad⟩
    · rintro ⟨i,hi,hbad⟩
      by_cases hik : i=k
      · subst hik
        exact .inr hbad
      · exact .inl ⟨i,by omega,hbad⟩

/-- Whether a resize is admitted and all the allocations it needs succeed. -/
def succeeds (o : Outcomes) (ht : DycoHtable α) : Bool :=
  ht.width < maxWidth && o.table &&
    (List.range (ht.mask+1)).all fun i => !ResizeOrder.takesNode ht i || o.head i

/-- A resize that succeeds. -/
theorem htableResize_succeeds (hl : Linked leak ht)
    (hwf : ∀ i,HashTableMap.WellFormed ((plain ht).table i)) (ho : succeeds o (plain ht)=true) :
    ∃ t,htableResize o ht (ht.width+1)=.ok (0,t) ∧ plain t=ResizeOrder.grown (plain ht) ∧
      ∃ leak',Linked leak' t := by
  simp only [succeeds,Bool.and_eq_true,decide_eq_true_eq,List.all_eq_true,List.mem_range] at ho
  obtain ⟨⟨hwidth,htable⟩,hheads⟩ := ho
  have hwidth : ht.width < maxWidth := hwidth
  have hok : ¬(ht.width+1=ht.width ∨ maxWidth<ht.width+1) := by omega
  obtain ⟨r,hr,hlinked⟩ := hl.htableResize (ht.width+1)
  have hplain := plain_htableResize hr
  rw [ChainedTable.htableResize,if_neg hok] at hr
  obtain ⟨new,hrounds,rfl⟩ := map_eq_ok hr
  obtain ⟨s,hs,hfailed,hnew⟩ := rounds_spec hwf o hrounds
  have hnone : s.failed=false := by
    refine Bool.eq_false_iff.mpr fun h => ?_
    obtain ⟨i,hi,htakes,hhead⟩ := hfailed.mp h
    have := hheads i hi
    simp [htakes,hhead] at this
  have hgrown : HashTable.htableResize (plain ht) (ht.width+1)=
      some (ResizeOrder.grown (plain ht)) := HashTableMap.htableResize_eq hwidth
  refine ⟨new,?_,Option.some.inj (hplain.symm.trans hgrown),hlinked new rfl⟩
  rw [htableResize,if_neg hok,if_neg (Bool.ne_false_iff.mpr htable),hs]
  show (if s.failed=true then _ else _)=_
  rw [hnone,if_neg Bool.false_ne_true,hnew hnone]

/-- A resize that is not admitted or gets no new table. -/
theorem htableResize_refused (ho : ¬(ht.width < maxWidth ∧ o.table=true)) :
    htableResize o ht (ht.width+1)=.ok (-1,ht) := by
  unfold htableResize
  by_cases hwidth : ht.width < maxWidth
  · have hok : ¬(ht.width+1=ht.width ∨ maxWidth<ht.width+1) := by omega
    have htable : o.table=false := Bool.eq_false_iff.mpr fun h => ho ⟨hwidth,h⟩
    rw [if_neg hok,if_pos htable]
  · exact if_pos (by omega)

/-- A resize that does not succeed returns -1; the count stays. -/
theorem htableResize_fails (hl : Linked leak ht)
    (hwf : ∀ i,HashTableMap.WellFormed ((plain ht).table i)) (ho : succeeds o (plain ht)=false) :
    ∃ t,htableResize o ht (ht.width+1)=.ok (-1,t) ∧ t.count=ht.count := by
  by_cases hadmitted : ht.width < maxWidth ∧ o.table=true
  · obtain ⟨hwidth,htable⟩ := hadmitted
    have hok : ¬(ht.width+1=ht.width ∨ maxWidth<ht.width+1) := by omega
    obtain ⟨r,hr,-⟩ := hl.htableResize (ht.width+1)
    rw [ChainedTable.htableResize,if_neg hok] at hr
    obtain ⟨new,hrounds,rfl⟩ := map_eq_ok hr
    obtain ⟨s,hs,hfailed,-⟩ := rounds_spec hwf o hrounds
    have hsome : s.failed=true := by
      refine hfailed.mpr ?_
      have hwidth' : (plain ht).width < maxWidth := hwidth
      have hmask : (plain ht).mask=ht.mask := rfl
      simpa [succeeds,hwidth',htable,hmask] using ho
    refine ⟨{ht with table := s.old,heap := s.new.heap,fresh := s.new.fresh},?_,rfl⟩
    rw [htableResize,if_neg hok,if_neg (Bool.ne_false_iff.mpr htable),hs]
    show (if s.failed=true then _ else _)=_
    rw [hsome,if_pos rfl]
  · exact ⟨ht,htableResize_refused hadmitted,rfl⟩

/-! ## `htable_insert` -/

/-- The new node of a chain cannot be had. -/
def lacksNode (o : Outcomes) (ht : Table α) (id : ℤ) : Bool :=
  (ht.table (slot ht.mask id)).id≠-1 && !o.node

/-- `htable_insert` makes its entry, if it can, and looks for a resize if a node was
added. -/
theorem htableInsert_eq (hl : Linked leak ht) (o : Outcomes) (id : ℤ) (data : Option α) :
    ∃ t added,Entered ht id data t added ∧ htableInsert o ht id data=
      if added then if lacksNode o ht id then .ok (-1,ht) else grow o t else .ok (0,t) := by
  unfold htableInsert
  by_cases hempty : (ht.table (slot ht.mask id)).id=-1
  · refine ⟨_,_,.vacant hempty,?_⟩
    rw [if_pos hempty]
    simp [lacksNode,hempty]
  by_cases hhead : (ht.table (slot ht.mask id)).id=id
  · refine ⟨_,_,.head hempty hhead,?_⟩
    rw [if_neg hempty,if_pos hhead]
    rfl
  rcases walk_cases (hl.readable id) id with ⟨hw,hchain⟩|⟨front,n,rest,hw,hnext,hid,hfront⟩
  · refine ⟨_,_,.behind hempty hhead hchain,?_⟩
    rw [if_neg hempty,if_neg hhead,hw]
    cases hnode : o.node <;> simp [lacksNode,hempty,hnode] <;> rfl
  · refine ⟨_,_,.chain hempty hhead hnext hid hfront,?_⟩
    rw [if_neg hempty,if_neg hhead,hw]
    rfl

end DycoCoroutine.TableAllocation
