import DycoCoroutine.CoroutineRegistry

/-!
# Killing one coroutine

`htable_delete_with_freecb` finds the node of a killed coroutine and calls
`coro_abort`, which deletes the same cid from the same table. For the node of a chain
this is harmless, since it was unlinked before. The embedded node of a slot is still
in place: then the inner deletion does the whole work, and the outer one does it again,
on a count that was decreased already and through a pointer to a node that was freed.
-/

namespace DycoCoroutine.KillRemoval

open ScheduleState RunInvariant ChainedTable CoroutineRegistry
open HashTable (slot)

variable {s t : Registry} {c : Co} {ht : Table Co} {id : ℤ} {leak : Multiset ℕ} {n : Node Co}
  {front rest : List (Node Co)}

/-- The kill handling of `resume` ends without a fault. It takes the cid of `c` out of
the table, leaves every other cid as it was, decreases the count by one and frees
allocated nodes only, each at most once. -/
def KilledOnly (s : Registry) (c : Co) : Prop :=
  ∃ t,resumeKilled s c=.ok t ∧ htableFind t.cidCoMap (s.co c).cid=.ok none ∧
    (∀ id≠(s.co c).cid,htableFind t.cidCoMap id=htableFind s.cidCoMap id) ∧
    t.cidCoMap.count=s.cidCoMap.count-1 ∧ t.cidCoMap.heap.Sublist s.cidCoMap.heap

/-- The cid of `c` is not that of the embedded node of its slot, and no second node of
the chain has it. A second node without data does not matter for an asymmetric
coroutine, which `coro_abort` looks up. -/
def hangsAlone (s : Registry) (c : Co) : Bool :=
  let bucket := s.cidCoMap.table (slot s.cidCoMap.mask (s.co c).cid)
  bucket.id≠(s.co c).cid && (bucket.next.filter fun n => n.id=(s.co c).cid)[1]?.all fun m =>
    (s.co c).flagsAsymmetric && m.data=none

/-- Where `htable_find` has found something. -/
theorem find_cases (h : Linked leak ht) (hf : htableFind ht id=.ok (some c)) :
    (ht.table (slot ht.mask id)).id≠-1 ∧
    ((ht.table (slot ht.mask id)).id=id ∧ (ht.table (slot ht.mask id)).data=some c ∨
      (ht.table (slot ht.mask id)).id≠id ∧ ∃ front n rest,
        (ht.table (slot ht.mask id)).next=front++n::rest ∧ n.id=id ∧ n.data=some c ∧
        ∀ m∈front,m.id≠id) := by
  unfold htableFind at hf
  by_cases hempty : (ht.table (slot ht.mask id)).id=-1
  · rw [if_pos hempty] at hf
    cases hf
  refine ⟨hempty,?_⟩
  rw [if_neg hempty] at hf
  by_cases hhead : (ht.table (slot ht.mask id)).id=id
  · rw [if_pos hhead] at hf
    exact .inl ⟨hhead,Except.ok.inj hf⟩
  · rw [if_neg hhead] at hf
    rcases walk_cases (h.readable id) id with ⟨hw,-⟩|⟨front,n,rest,hw,hnext,hid,hfront⟩
    · rw [hw] at hf
      cases hf
    · rw [hw] at hf
      exact .inr ⟨hhead,front,n,rest,hnext,hid,Except.ok.inj hf,hfront⟩

/-- The embedded node of a slot: the count is decreased twice, or a node that was freed
is read. -/
theorem not_killedOnly_head (hs : Sane s) (hc : (s.co c).life=.live)
    (hf : htableFind s.cidCoMap (s.co c).cid=.ok (some c))
    (hempty : (s.cidCoMap.table (slot s.cidCoMap.mask (s.co c).cid)).id≠-1)
    (hhead : (s.cidCoMap.table (slot s.cidCoMap.mask (s.co c).cid)).id=(s.co c).cid)
    (hdata : (s.cidCoMap.table (slot s.cidCoMap.mask (s.co c).cid)).data=some c) :
    ¬KilledOnly s c := by
  obtain ⟨leak,hlinked⟩ := hs.linked
  obtain ⟨u,hu,hend⟩ := coroAbort_spec hs hc fun _ => hf
  obtain ⟨ret,hmap⟩ := hend.map
  have hkill : resumeKilled s c=dropHead (slot s.cidCoMap.mask (s.co c).cid)
      ((s.cidCoMap.table (slot s.cidCoMap.mask (s.co c).cid)).next.head?.map Node.addr) u := by
    have hcall : freecb s (some c)=.ok u := hu
    rw [resumeKilled,htableDeleteWithFreecb,if_neg hempty,if_pos hhead,hdata,hcall]
    rfl
  rintro ⟨t,ht,-,-,hcount,-⟩
  rw [hkill] at ht
  cases hnext : (s.cidCoMap.table (slot s.cidCoMap.mask (s.co c).cid)).next with
  | nil =>
    have hinner : htableDelete s.cidCoMap (s.co c).cid=
        .ok (0,vacate s.cidCoMap (slot s.cidCoMap.mask (s.co c).cid)) :=
      htableDelete_alone hempty hhead hnext
    have hu' : u.cidCoMap=vacate s.cidCoMap (slot s.cidCoMap.mask (s.co c).cid) :=
      (congrArg Prod.snd (Except.ok.inj (hinner.symm.trans hmap))).symm
    rw [hnext] at ht
    cases ht
    change u.cidCoMap.count-1=s.cidCoMap.count-1 at hcount
    rw [hu'] at hcount
    change s.cidCoMap.count-1-1=s.cidCoMap.count-1 at hcount
    omega
  | cons n rest =>
    have hinner := htableDelete_head hlinked hempty hhead hnext
    have hheap : u.cidCoMap.heap=s.cidCoMap.heap.erase n.addr :=
      (congrArg (fun r => r.2.heap) (Except.ok.inj (hinner.symm.trans hmap))).symm
    have hfreed : n.addr∉u.cidCoMap.heap := by
      rw [hheap]
      exact hlinked.distinct.not_mem_erase
    rw [hnext] at ht
    have hfault : deref u.cidCoMap (slot s.cidCoMap.mask (s.co c).cid) n.addr=.error .undefined :=
      if_pos hfreed
    have hdrop : dropHead (slot s.cidCoMap.mask (s.co c).cid) (some n.addr) u=.error .undefined := by
      rw [dropHead,hfault]
      rfl
    cases hdrop.symm.trans ht

/-- The slot of an id without one of its nodes. -/
def withoutNode (ht : Table Co) (id : ℤ) (front rest : List (Node Co)) : Table Co :=
  putSlot ht (slot ht.mask id) {ht.table (slot ht.mask id) with next := front++rest} ht.count

theorem Linked.withoutNode (h : Linked leak ht)
    (hnext : (ht.table (slot ht.mask id)).next=front++n::rest) :
    Linked (n.addr ::ₘ leak) (withoutNode ht id front rest) := by
  refine h.unlink (HashTableMap.slot_lt ht.mask id) ?_ _
  simp only [Slot.addrs,hnext,List.map_append,List.map_cons]
  exact Multiset.coe_eq_coe.mpr List.perm_middle

/-- Without a node of the chain the other ids are found as before. -/
theorem find_withoutNode {leak' : Multiset ℕ} {heap : List ℕ} {count : ℤ} (h : Linked leak ht)
    (h' : Linked leak' {withoutNode ht n.id front rest with heap := heap,count := count})
    (hnext : (ht.table (slot ht.mask n.id)).next=front++n::rest) {k : ℤ} (hk : k≠n.id) :
    htableFind {withoutNode ht n.id front rest with heap := heap,count := count} k=
      htableFind ht k := by
  rw [plain_htableFind h',plain_htableFind h]
  refine congrArg Except.ok ?_
  by_cases hslot : slot ht.mask k=slot ht.mask n.id
  · have hold : ((plain ht).table (slot (plain ht).mask k))=
        ⟨(ht.table (slot ht.mask n.id)).toDycoHentry,(front++n::rest).map Node.toDycoHentry⟩ := by
      show (ht.table (slot ht.mask k)).plain=_
      rw [hslot,Slot.plain,hnext]
    have hnew : (plain {withoutNode ht n.id front rest with heap := heap,count := count}).table
        (slot (plain ht).mask k)=
        ⟨(ht.table (slot ht.mask n.id)).toDycoHentry,(front++rest).map Node.toDycoHentry⟩ := by
      show (Function.update ht.table (slot ht.mask n.id) _ (slot ht.mask k)).plain=_
      rw [hslot,Function.update_self]
      rfl
    have hskip : (((front++rest).map Node.toDycoHentry).find? fun e => e.id=k)=
        ((front++n::rest).map Node.toDycoHentry).find? fun e => e.id=k := by
      simp [List.find?_append,Ne.symm hk]
    unfold HashTable.htableFind
    rw [hold,show (plain {withoutNode ht n.id front rest with heap := heap,count := count}).mask=
      (plain ht).mask from rfl,hnew]
    simp only [hskip]
  · have hsame : (plain {withoutNode ht n.id front rest with heap := heap,count := count}).table
        (slot (plain ht).mask k)=(plain ht).table (slot (plain ht).mask k) := by
      show (Function.update ht.table (slot ht.mask n.id) _ (slot ht.mask k)).plain=_
      rw [Function.update_of_ne hslot]
      rfl
    unfold HashTable.htableFind
    rw [show (plain {withoutNode ht n.id front rest with heap := heap,count := count}).mask=
      (plain ht).mask from rfl,hsame]

/-- The node `n` of the coroutine `c` hangs in the chain of its slot, behind nodes with
other ids. -/
structure Hangs (s : Registry) (c : Co) (front : List (Node Co)) (n : Node Co)
    (rest : List (Node Co)) : Prop where
  id : n.id=(s.co c).cid
  data : n.data=some c
  used : (s.cidCoMap.table (slot s.cidCoMap.mask n.id)).id≠-1
  head : (s.cidCoMap.table (slot s.cidCoMap.mask n.id)).id≠n.id
  next : (s.cidCoMap.table (slot s.cidCoMap.mask n.id)).next=front++n::rest
  first : ∀ m∈front,m.id≠n.id

theorem Hangs.find_rest (h : Hangs s c front n rest) :
    hangsAlone s c=(rest.find? fun m => m.id=n.id).all fun m =>
      (s.co c).flagsAsymmetric && m.data=none := by
  have hnone : front.filter (fun m => m.id=n.id)=[] := by simpa using h.first
  simp only [hangsAlone,← h.id]
  rw [h.next,List.filter_append,hnone]
  simp [h.head,← List.head?_eq_getElem?,List.head?_filter]

/-- A node of a chain is unlinked before `coro_abort` is called. -/
theorem Hangs.resumeKilled (h : Hangs s c front n rest) (hs : Sane s) :
    resumeKilled s c=(coroAbort (setMap s (withoutNode s.cidCoMap n.id front rest)) (some c)).bind
      (dropNode n.addr) := by
  obtain ⟨leak,hlinked⟩ := hs.linked
  have hread := hlinked.readable n.id
  rw [h.next] at hread
  rw [CoroutineRegistry.resumeKilled,htableDeleteWithFreecb,← h.id,if_neg h.used,if_neg h.head,
    h.next,walk_append hread h.first]
  show (freecb (setMap s (withoutNode s.cidCoMap n.id front rest)) n.data).bind _=_
  rw [h.data]
  rfl

/-- The slot after the node was unlinked. -/
theorem withoutNode_slot (ht : Table Co) (id : ℤ) (front rest : List (Node Co)) :
    (withoutNode ht id front rest).table (slot (withoutNode ht id front rest).mask id)=
      {ht.table (slot ht.mask id) with next := front++rest} :=
  Function.update_self ..

/-- What is found under the id of the node that was unlinked. -/
theorem Hangs.find_withoutNode {heap : List ℕ} {count : ℤ} (h : Hangs s c front n rest)
    (hl : Linked leak {withoutNode s.cidCoMap n.id front rest with heap := heap,count := count}) :
    htableFind {withoutNode s.cidCoMap n.id front rest with heap := heap,count := count} n.id=
      .ok ((rest.find? fun m => m.id=n.id).bind fun m => m.data) := by
  have hslot := withoutNode_slot s.cidCoMap n.id front rest
  have hfront : front.find? (fun m => m.id=n.id)=none := by simpa using h.first
  rw [htableFind_chain hl (hslot.symm ▸ h.used) (hslot.symm ▸ h.head)]
  show Except.ok ((List.find? _ ((withoutNode s.cidCoMap n.id front rest).table _).next).bind _)=_
  rw [hslot,List.find?_append,hfront]
  rfl

/-- `coro_abort` has left the table alone. -/
theorem Hangs.killedOnly {u : Registry} (h : Hangs s c front n rest) (hs : Sane s)
    (hu : coroAbort (setMap s (withoutNode s.cidCoMap n.id front rest)) (some c)=.ok u)
    (hmap : u.cidCoMap=withoutNode s.cidCoMap n.id front rest)
    (hnone : ((rest.find? fun m => m.id=n.id).bind fun m => m.data)=none) : KilledOnly s c := by
  obtain ⟨leak,hlinked⟩ := hs.linked
  obtain ⟨hn,hfreed⟩ := (Linked.withoutNode hlinked h.next).free
  have hfinal : Linked leak {withoutNode s.cidCoMap n.id front rest with
      heap := s.cidCoMap.heap.erase n.addr,count := s.cidCoMap.count-1} :=
    ⟨hfreed.nodes,hfreed.distinct,hfreed.below⟩
  have hdone : CoroutineRegistry.resumeKilled s c=.ok (setMap u
      {withoutNode s.cidCoMap n.id front rest with
        heap := s.cidCoMap.heap.erase n.addr,count := s.cidCoMap.count-1}) := by
    rw [h.resumeKilled hs,hu]
    show dropNode n.addr u=_
    rw [dropNode,hmap,release_of_mem hn]
    rfl
  refine ⟨_,hdone,?_,fun k hk => KillRemoval.find_withoutNode hlinked hfinal h.next (h.id ▸ hk),
    rfl,List.erase_sublist ..⟩
  rw [← h.id,← hnone]
  exact h.find_withoutNode hfinal

/-- And it must have left it alone. -/
theorem Hangs.of_killedOnly (h : Hangs s c front n rest) (hs : Sane s) (hk : KilledOnly s c) :
    ∃ u,coroAbort (setMap s (withoutNode s.cidCoMap n.id front rest)) (some c)=.ok u ∧
      u.cidCoMap=withoutNode s.cidCoMap n.id front rest ∧
      ((rest.find? fun m => m.id=n.id).bind fun m => m.data)=none := by
  obtain ⟨leak,hlinked⟩ := hs.linked
  have hunlinked := Linked.withoutNode hlinked h.next
  have hsane : Sane {setMap s (withoutNode s.cidCoMap n.id front rest) with
      aborted := s.aborted++[c]} := hs.recount rfl rfl rfl ⟨_,hunlinked⟩
  obtain ⟨t,ht,hgone,-,hcount,-⟩ := hk
  rw [h.resumeKilled hs] at ht
  obtain ⟨u,hu,ht⟩ := bind_eq_ok ht
  obtain ⟨heap,hheap,rfl⟩ := map_eq_ok ht
  have hsame : u.cidCoMap=withoutNode s.cidCoMap n.id front rest := by
    obtain ⟨d,hd⟩ := released_of_endCoro hu
    rcases hsane.map_released hd with hmap|hless
    · exact hmap
    · change u.cidCoMap.count=s.cidCoMap.count-1 at hless
      change u.cidCoMap.count-1=s.cidCoMap.count-1 at hcount
      omega
  refine ⟨u,hu,hsame,?_⟩
  obtain ⟨hn,hfreed⟩ := hunlinked.free
  rw [hsame,release_of_mem hn] at hheap
  cases hheap
  have hfinal : Linked leak {withoutNode s.cidCoMap n.id front rest with
      heap := (withoutNode s.cidCoMap n.id front rest).heap.erase n.addr,
      count := u.cidCoMap.count-1} := ⟨hfreed.nodes,hfreed.distinct,hfreed.below⟩
  change htableFind {u.cidCoMap with heap := _,count := u.cidCoMap.count-1} _=_ at hgone
  rw [hsame,← h.id] at hgone
  rw [hsame] at hfinal
  exact Except.ok.inj ((h.find_withoutNode hfinal).symm.trans hgone)

/-- An asymmetric coroutine that is not found any more is not released. -/
theorem Hangs.abort_asymmetric (h : Hangs s c front n rest) (hs : Sane s)
    (hc : (s.co c).life=.live) (hasym : (s.co c).flagsAsymmetric=true)
    (hnone : ((rest.find? fun m => m.id=n.id).bind fun m => m.data)=none) :
    coroAbort (setMap s (withoutNode s.cidCoMap n.id front rest)) (some c)=
      .ok {setMap s (withoutNode s.cidCoMap n.id front rest) with aborted := s.aborted++[c]} := by
  obtain ⟨leak,hlinked⟩ := hs.linked
  have hfind : htableFind (withoutNode s.cidCoMap n.id front rest) (s.co c).cid=.ok none := by
    rw [← h.id,← hnone]
    exact h.find_withoutNode (Linked.withoutNode hlinked h.next)
  have hok : (s.co c).life≠.freed := by
    rw [hc]
    decide
  show endCoro _ c=_
  unfold endCoro
  simp only [setMap,if_neg hok,if_pos hasym,dycoAsymcpoolReturn,dycoAsymcoroFree,hfind]
  exact ite_self _

/-- A symmetric coroutine is released, and a second node with its cid is deleted. -/
theorem Hangs.abort_symmetric (h : Hangs s c front n rest) (hs : Sane s)
    (hc : (s.co c).life=.live) (hsym : (s.co c).flagsAsymmetric=false) :
    ∃ u,coroAbort (setMap s (withoutNode s.cidCoMap n.id front rest)) (some c)=.ok u ∧
      (u.cidCoMap=withoutNode s.cidCoMap n.id front rest ↔
        (rest.find? fun m => m.id=n.id)=none) := by
  obtain ⟨leak,hlinked⟩ := hs.linked
  have hunlinked := Linked.withoutNode hlinked h.next
  have hslot := withoutNode_slot s.cidCoMap n.id front rest
  have hsane : Sane (setMap s (withoutNode s.cidCoMap n.id front rest)) :=
    hs.recount rfl rfl rfl ⟨_,hunlinked⟩
  obtain ⟨u,hu,hend⟩ := coroAbort_spec hsane hc fun h => absurd (hsym.symm.trans h) (by decide)
  obtain ⟨ret,hmap⟩ := hend.map
  have hmap : htableDelete (withoutNode s.cidCoMap n.id front rest) n.id=.ok (ret,u.cidCoMap) :=
    (congrArg _ h.id).trans hmap
  refine ⟨u,hu,fun hsame => ?_,fun hnone => ?_⟩
  · refine List.find?_eq_none.mpr fun m hm hid => ?_
    rcases walk_cases (hunlinked.readable n.id) n.id with
      ⟨-,hnone⟩|⟨front',m',rest',-,hnext',hid',hfront'⟩
    · rw [hslot] at hnone
      exact hnone m (List.mem_append_right _ hm) (of_decide_eq_true hid)
    · have hinner := htableDelete_chain hunlinked hid' (hslot.symm ▸ h.used)
        (hslot.symm ▸ h.head) hnext' hfront'
      have hcount : u.cidCoMap.count=s.cidCoMap.count-1 :=
        (congrArg (fun r => r.2.count) (Except.ok.inj (hinner.symm.trans hmap))).symm
      rw [hsame] at hcount
      change s.cidCoMap.count=s.cidCoMap.count-1 at hcount
      omega
  · have habsent : htableDelete (withoutNode s.cidCoMap n.id front rest) n.id=
        .ok (-1,withoutNode s.cidCoMap n.id front rest) := by
      refine htableDelete_absent hunlinked (.inr ?_)
      rw [hslot]
      refine ⟨h.head,fun m hm => ?_⟩
      rcases List.mem_append.mp hm with hm|hm
      · exact h.first m hm
      · exact fun hid => List.find?_eq_none.mp hnone m hm (decide_eq_true hid)
    exact (congrArg Prod.snd (Except.ok.inj (habsent.symm.trans hmap))).symm

/-- A node of a chain. -/
theorem Hangs.killedOnly_iff (h : Hangs s c front n rest) (hs : Sane s)
    (hc : (s.co c).life=.live) : KilledOnly s c ↔ hangsAlone s c=true := by
  rw [h.find_rest]
  cases hasym : (s.co c).flagsAsymmetric with
  | false =>
    obtain ⟨u,hu,hiff⟩ := h.abort_symmetric hs hc hasym
    have hall : ((rest.find? fun m => m.id=n.id).all fun m => false && m.data=none)=true ↔
        (rest.find? fun m => m.id=n.id)=none := by
      cases rest.find? fun m => m.id=n.id <;> simp
    rw [hall]
    constructor
    · intro hk
      obtain ⟨u',hu',hmap,-⟩ := h.of_killedOnly hs hk
      cases hu.symm.trans hu'
      exact hiff.mp hmap
    · intro hnone
      exact h.killedOnly hs hu (hiff.mpr hnone) (by rw [hnone]; rfl)
  | true =>
    have hall : ((rest.find? fun m => m.id=n.id).all fun m => true && m.data=none)=true ↔
        ((rest.find? fun m => m.id=n.id).bind fun m => m.data)=none := by
      cases rest.find? fun m => m.id=n.id <;> simp
    rw [hall]
    constructor
    · intro hk
      obtain ⟨u,-,-,hnone⟩ := h.of_killedOnly hs hk
      exact hnone
    · intro hnone
      exact h.killedOnly hs (h.abort_asymmetric hs hc hasym hnone) rfl hnone

/-- The kill handling of `resume` on a live coroutine that the table holds removes that
one and nothing else iff the node is in the chain of its slot, alone with its cid
there. -/
theorem kill_removes_one_iff (h : Reachable (fun _ _ => True) s) (hc : (s.co c).life=.live)
    (hf : htableFind s.cidCoMap (s.co c).cid=.ok (some c)) :
    KilledOnly s c ↔ hangsAlone s c=true := by
  have hs := sane_of_reachable h
  obtain ⟨leak,hlinked⟩ := hs.linked
  obtain ⟨hempty,⟨hhead,hdata⟩|⟨hhead,front,n,rest,hnext,hid,hdata,hfront⟩⟩ :=
    find_cases hlinked hf
  · have hnot : hangsAlone s c=false := by simp [hangsAlone,hhead]
    exact iff_of_false (not_killedOnly_head hs hc hf hempty hhead hdata) (by simp [hnot])
  · rw [← hid] at hempty hhead hnext hfront
    exact Hangs.killedOnly_iff ⟨hid,hdata,hempty,hhead,hnext,hfront⟩ hs hc

/-- The only coroutine of a scheduler is killed, and counted twice. -/
theorem kill_counts_twice : ∃ s c,Reachable (fun _ _ => True) s ∧ (s.co c).life=.live ∧
    htableFind s.cidCoMap (s.co c).cid=.ok (some c) ∧ ¬KilledOnly s c := by
  obtain ⟨hfresh,s,hs,hlone⟩ := lone_first
  have hreach : Reachable (fun _ _ => True) s := Reachable.any ⟨0,.tail .refl hfresh hs⟩
  have hlive : (s.co 0).life=.live := by rw [hlone.first]
  have hfind : htableFind s.cidCoMap (s.co 0).cid=.ok (some 0) := by
    rw [hlone.map,hlone.first]
    rfl
  have hslot : s.cidCoMap.table (slot s.cidCoMap.mask (s.co 0).cid)=⟨⟨1,some 0⟩,[]⟩ := by
    rw [hlone.map,hlone.first]
    rfl
  have hempty : (s.cidCoMap.table (slot s.cidCoMap.mask (s.co 0).cid)).id≠-1 := by
    rw [hslot]
    decide
  have hhead : (s.cidCoMap.table (slot s.cidCoMap.mask (s.co 0).cid)).id=(s.co 0).cid := by
    rw [hslot,hlone.first]
  refine ⟨s,0,hreach,hlive,hfind,?_⟩
  exact not_killedOnly_head (sane_of_reachable hreach) hlive hfind hempty hhead (by rw [hslot])

/-- The second of two coroutines in one slot. -/
theorem kill_removes_one_iff_second : ∃ c s,Reachable (fun _ _ => True) s ∧
    (s.co c).life=.live ∧ htableFind s.cidCoMap (s.co c).cid=.ok (some c) ∧
    hangsAlone s c=true ∧ KilledOnly s c := by
  obtain ⟨c,s,hs,hshared⟩ := shared_reachable
  have hlive : (s.co c).life=.live := by rw [hshared.second]
  have hslot : s.cidCoMap.table (slot s.cidCoMap.mask (s.co c).cid)=sharedSlot c := by
    have hmask : s.cidCoMap.mask=2^16-1 := by
      rw [hshared.map]
      rfl
    rw [hmask,hshared.second,slot_natCast (by norm_num),hshared.map]
    rfl
  obtain ⟨leak,hlinked⟩ := (sane_of_reachable hs).linked
  have hfind : htableFind s.cidCoMap (s.co c).cid=.ok (some c) := by
    rw [htableFind_chain hlinked,hslot,hshared.second]
    · simp [sharedSlot]
    · rw [hslot]
      show (1 : ℤ)≠-1
      decide
    · rw [hslot,hshared.second]
      show (1 : ℤ)≠_
      norm_num
  have hangs : hangsAlone s c=true := by
    simp only [hangsAlone]
    rw [hslot,hshared.second]
    simp [sharedSlot]
  exact ⟨c,s,hs.any,hlive,hfind,hangs,(kill_removes_one_iff hs.any hlive hfind).mpr hangs⟩

end DycoCoroutine.KillRemoval
