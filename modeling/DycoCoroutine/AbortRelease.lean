import DycoCoroutine.RegistryContents

/-!
# Aborting all coroutines

`htable_clear_with_freecb` calls `coro_abort` on the embedded node of a slot, which
deletes it from the table the loop runs over. With a chain behind it the next node is
promoted to its place and is never visited, and the one after that is freed by the
deletion and by the loop. So everything is released once iff no slot has a chain; and
a slot that a resize has left with the id 0 makes `coro_abort` read through NULL.
-/

namespace DycoCoroutine.AbortRelease

open ScheduleState RunInvariant ChainedTable CoroutineRegistry RegistryContents HashTableMap
open HashTable (slot DycoHentry entries)

variable {s t u : Registry} {c : Co} {i k : ℕ} {n : Node Co} {rest : List (Node Co)}
  {calls : List Co}

/-- `schedule_abort` ends without a fault, has called `coro_abort` once on every live
coroutine and on nothing else, and has freed all nodes. Its `assert` holds. -/
def AbortedOnce (s : Registry) : Prop :=
  ∃ t calls,scheduleAbort s=.ok t ∧ t.aborted=s.aborted++calls ∧ calls.Nodup ∧
    (∀ c,c∈calls ↔ (s.co c).life=.live) ∧ t.cidCoMap.heap=[] ∧ t.coroCount=0

/-- No slot has a chain, and every slot that is not empty has data. -/
def flat (ht : Table Co) : Prop :=
  ∀ i<ht.mask+1,(ht.table i).next=[] ∧ ((ht.table i).id=-1 ∨ (ht.table i).data≠none)

/-! ## The nodes of the table -/

/-- A node stands for a live coroutine. -/
theorem kept_entry {e : DycoHentry Co} (h : Kept s) (hi : i<s.cidCoMap.mask+1)
    (he : e∈entries ((plain s.cidCoMap).table i)) :
    slot s.cidCoMap.mask e.id=i ∧ ∃ c,e.data=some c ∧ (s.co c).life=.live ∧ (s.co c).cid=e.id := by
  obtain ⟨m,hrep,-,hlive⟩ := h.holds
  have hmem : e∈tracked (fun _ => true) (plain s.cidCoMap) :=
    Multiset.mem_filter.mpr ⟨KeyedEntries.mem_spread.mpr ⟨i,hi,he⟩,rfl⟩
  exact ⟨hrep.placed i e he rfl,(hlive _ _).mp (hrep.holds.lookup_of_mem hmem)⟩

/-- The embedded node of a slot in use is that of a live coroutine. -/
theorem kept_head (h : Kept s) (hi : i<s.cidCoMap.mask+1) (hused : (s.cidCoMap.table i).id≠-1) :
    slot s.cidCoMap.mask (s.cidCoMap.table i).id=i ∧ ∃ c,(s.cidCoMap.table i).data=some c ∧
      (s.co c).life=.live ∧ (s.co c).cid=(s.cidCoMap.table i).id := by
  refine kept_entry h hi ?_
  have hused' : ((plain s.cidCoMap).table i).id≠-1 := hused
  rw [entries_of_ne hused']
  exact List.mem_cons_self

/-- A node of a chain is that of a live coroutine. -/
theorem kept_chain (h : Kept s) (hi : i<s.cidCoMap.mask+1) (hused : (s.cidCoMap.table i).id≠-1)
    (hn : n∈(s.cidCoMap.table i).next) :
    slot s.cidCoMap.mask n.id=i ∧
      ∃ c,n.data=some c ∧ (s.co c).life=.live ∧ (s.co c).cid=n.id := by
  refine kept_entry h hi ?_
  have hused' : ((plain s.cidCoMap).table i).id≠-1 := hused
  rw [entries_of_ne hused']
  exact List.mem_cons_of_mem _ (List.mem_map_of_mem hn)

/-- An empty slot has no chain. -/
theorem kept_empty (h : Kept s) (hempty : (s.cidCoMap.table i).id=-1) :
    (s.cidCoMap.table i).next=[] := by
  obtain ⟨m,hrep,-,-⟩ := h.holds
  exact List.map_eq_nil_iff.mp ((hrep.wf i).ended hempty)

/-- No node of a chain is marked as empty. -/
theorem kept_real (h : Kept s) (hn : n∈(s.cidCoMap.table i).next) : n.id≠-1 := by
  obtain ⟨m,hrep,-,-⟩ := h.holds
  exact (hrep.wf i).real n.toDycoHentry (List.mem_map_of_mem hn)

/-- A table of empty slots. -/
theorem kept_all_empty (h : Kept s)
    (hempty : ∀ i<s.cidCoMap.mask+1,(s.cidCoMap.table i).id=-1) :
    (∀ c,(s.co c).life≠.live) ∧ s.cidCoMap.heap=[] ∧ s.coroCount=0 := by
  obtain ⟨m,hrep,hlen,hlive⟩ := h.holds
  have hnone : ∀ k,m.lookup k=none := by
    intro k
    rw [hrep.lookup rfl,held_of_empty (hempty _ (slot_lt ..))]
    rfl
  refine ⟨fun c hc => ?_,?_,?_⟩
  · have hsome := (hlive _ _).mpr ⟨c,rfl,hc,rfl⟩
    rw [hnone] at hsome
    cases hsome
  · have haddrs : addrs s.cidCoMap=[] := by
      refine List.eq_nil_iff_forall_not_mem.mpr fun p hp => ?_
      obtain ⟨i,hi,hp⟩ := KeyedEntries.mem_spread.mp hp
      rw [Slot.addrs,kept_empty h (hempty i hi)] at hp
      cases hp
    have hnodes := h.linked.nodes
    rw [haddrs] at hnodes
    exact Multiset.coe_eq_coe.mp hnodes.symm |>.eq_nil
  · have hkeys : m.keys=[] := by
      refine List.eq_nil_iff_forall_not_mem.mpr fun k hk => ?_
      have hsome := AList.lookup_isSome.mpr (AList.mem_keys.mpr hk)
      rw [hnone] at hsome
      cases hsome
    rw [hlen,hkeys]
    rfl

/-! ## The calls of the loop -/

/-- The calls of `coro_abort` between two states have released what they were called
with, and nothing else. -/
structure Calls (s : Registry) (calls : List Co) (t : Registry) : Prop where
  kept : Kept t
  aborted : t.aborted=s.aborted++calls
  nodup : calls.Nodup
  gone : ∀ c∈calls,(s.co c).life=.live ∧ (t.co c).life≠.live
  others : ∀ c∉calls,(t.co c).life=(s.co c).life
  mask : t.cidCoMap.mask=s.cidCoMap.mask

/-- Before the first callback. -/
theorem calls_refl (h : Kept s) : Calls s [] s :=
  ⟨h,(List.append_nil _).symm,List.nodup_nil,fun _ hc => (nomatch hc),fun _ _ => rfl,rfl⟩

/-- One call more, with a live coroutine. -/
theorem Calls.tail (h : Calls s calls t) (hc : (t.co c).life=.live) :
    ∃ u,coroAbort t (some c)=.ok u ∧ Calls s (calls++[c]) u ∧
      ∃ ret,htableDelete t.cidCoMap (t.co c).cid=.ok (ret,u.cidCoMap) := by
  have hsane : Sane {t with aborted := t.aborted++[c]} :=
    h.kept.sane.recount rfl rfl rfl h.kept.sane.linked
  have hkept : Kept {t with aborted := t.aborted++[c]} :=
    h.kept.congr hsane rfl rfl fun _ _ => Iff.rfl
  obtain ⟨u,hu,hend⟩ := coroAbort_spec h.kept.sane hc fun _ => h.kept.find_iff.mpr ⟨hc,rfl⟩
  obtain ⟨ret,hmap⟩ := hend.map
  have hmask : u.cidCoMap.mask=t.cidCoMap.mask := (h.kept.linked.of_htableDelete hmap).2.1
  have hnew : c∉calls := fun hmem => (h.gone c hmem).2 hc
  refine ⟨u,hu,⟨hkept.ended hc hend,?_,?_,fun d hd => ?_,fun d hd => ?_,hmask.trans h.mask⟩,ret,hmap⟩
  · rw [hend.aborted,h.aborted,List.append_assoc]
  · exact List.nodup_append'.mpr ⟨h.nodup,List.nodup_singleton c,by simpa using hnew⟩
  · rcases List.mem_append.mp hd with hd|hd
    · have hne : d≠c := fun heq => hnew (heq ▸ hd)
      rw [hend.others d hne]
      exact h.gone d hd
    · obtain rfl := List.mem_singleton.mp hd
      exact ⟨(h.others d hnew).symm.trans hc,hend.gone⟩
  · have hne : d≠c := by
      rintro rfl
      exact hd (List.mem_append_right _ (List.mem_singleton_self d))
    rw [hend.others d hne]
    exact h.others d fun hmem => hd (List.mem_append_left _ hmem)

/-! ## One slot -/

section Slots

variable {ht : Table Co} {id : ℤ} {leak : Multiset ℕ}

/-- Deleting the only node of a slot vacates it. -/
theorem delete_alone (hslot : slot ht.mask id=i) (hused : (ht.table i).id≠-1)
    (hid : (ht.table i).id=id) (hnext : (ht.table i).next=[]) :
    htableDelete ht id=.ok (0,vacate ht i) := by
  subst hslot
  exact htableDelete_alone hused hid hnext

/-- The node behind the embedded one is promoted. -/
theorem delete_head (h : Linked leak ht) (hslot : slot ht.mask id=i) (hused : (ht.table i).id≠-1)
    (hid : (ht.table i).id=id) (hnext : (ht.table i).next=n::rest) :
    htableDelete ht id=.ok (0,{putSlot ht i ⟨n.toDycoHentry,rest⟩ (ht.count-1) with
      heap := ht.heap.erase n.addr}) := by
  subst hslot
  exact htableDelete_head h hused hid hnext

/-- The first node of a chain is freed, whether the embedded one has its id or not. -/
theorem delete_frees (h : Linked leak ht) (hslot : slot ht.mask n.id=i)
    (hused : (ht.table i).id≠-1) (hnext : (ht.table i).next=n::rest) :
    ∃ ht',htableDelete ht n.id=.ok (0,ht') ∧ n.addr∉ht'.heap := by
  have hfreed : n.addr∉ht.heap.erase n.addr := h.distinct.not_mem_erase
  subst hslot
  by_cases hid : (ht.table (slot ht.mask n.id)).id=n.id
  · exact ⟨_,htableDelete_head h hused hid hnext,hfreed⟩
  · have hfirst : (ht.table (slot ht.mask n.id)).next=[]++n::rest := hnext
    exact ⟨_,htableDelete_chain h rfl hused hid hfirst (fun m hm => by cases hm),hfreed⟩

end Slots

/-- A slot without a chain: its coroutine is aborted, and it is empty. -/
theorem Calls.clearSlot_alone (h : Calls s calls t) (hi : i<t.cidCoMap.mask+1)
    (hused : (t.cidCoMap.table i).id≠-1) (hnext : (t.cidCoMap.table i).next=[]) :
    ∃ c u,clearSlot t i=.ok u ∧ Calls s (calls++[c]) u ∧ u.cidCoMap=vacate t.cidCoMap i := by
  obtain ⟨hslot,c,hdata,hc,hcid⟩ := kept_head h.kept hi hused
  obtain ⟨u,hu,hcalls,ret,hmap⟩ := h.tail hc
  rw [hcid,delete_alone hslot hused rfl hnext] at hmap
  have hvacant : u.cidCoMap=vacate t.cidCoMap i :=
    (congrArg Prod.snd (Except.ok.inj hmap)).symm
  have hend : (u.cidCoMap.table i).next=[] := by
    rw [hvacant]
    show (Function.update t.cidCoMap.table i _ i).next=[]
    rw [Function.update_self]
    exact hnext
  refine ⟨c,u,?_,hcalls,hvacant⟩
  rw [clearSlot,if_neg hused,hdata,hu]
  show clearChain i _ ((u.cidCoMap.table i).next.head?.map Node.addr) u=_
  rw [hend]
  cases u.cidCoMap.heap.length <;> rfl

/-- A slot with a chain: the first node of the chain is promoted while the coroutine of
the embedded one is aborted, and the loop goes on behind it. -/
theorem Calls.clearSlot_head (h : Calls s calls t) (hi : i<t.cidCoMap.mask+1)
    (hused : (t.cidCoMap.table i).id≠-1) (hnext : (t.cidCoMap.table i).next=n::rest) :
    ∃ c u,clearSlot t i=clearChain i u.cidCoMap.heap.length (rest.head?.map Node.addr) u ∧
      Calls s (calls++[c]) u ∧
      u.cidCoMap.table=Function.update t.cidCoMap.table i ⟨n.toDycoHentry,rest⟩ := by
  obtain ⟨hslot,c,hdata,hc,hcid⟩ := kept_head h.kept hi hused
  obtain ⟨u,hu,hcalls,ret,hmap⟩ := h.tail hc
  rw [hcid,delete_head h.kept.linked hslot hused rfl hnext] at hmap
  have htable : u.cidCoMap.table=Function.update t.cidCoMap.table i ⟨n.toDycoHentry,rest⟩ :=
    (congrArg (fun r => r.2.table) (Except.ok.inj hmap)).symm
  refine ⟨c,u,?_,hcalls,htable⟩
  rw [clearSlot,if_neg hused,hdata,hu]
  show clearChain i _ ((u.cidCoMap.table i).next.head?.map Node.addr) u=_
  rw [htable,Function.update_self]

/-- A chain of one node: the promoted node stays. -/
theorem Calls.clearSlot_pair (h : Calls s calls t) (hi : i<t.cidCoMap.mask+1)
    (hused : (t.cidCoMap.table i).id≠-1) (hnext : (t.cidCoMap.table i).next=[n]) :
    ∃ c u,clearSlot t i=.ok u ∧ Calls s (calls++[c]) u ∧
      u.cidCoMap.table=Function.update t.cidCoMap.table i ⟨n.toDycoHentry,[]⟩ := by
  obtain ⟨c,u,hu,hcalls,htable⟩ := h.clearSlot_head hi hused hnext
  refine ⟨c,u,hu.trans ?_,hcalls,htable⟩
  cases u.cidCoMap.heap.length <;> rfl

/-- A longer chain: its second node is freed twice. -/
theorem Calls.clearSlot_chain {m : Node Co} (h : Calls s calls t) (hi : i<t.cidCoMap.mask+1)
    (hused : (t.cidCoMap.table i).id≠-1) (hnext : (t.cidCoMap.table i).next=n::m::rest) :
    clearSlot t i=.error .undefined := by
  obtain ⟨c,u,hu,hcalls,htable⟩ := h.clearSlot_head hi hused hnext
  have hslot : u.cidCoMap.table i=⟨n.toDycoHentry,m::rest⟩ := by rw [htable,Function.update_self]
  have hi' : i<u.cidCoMap.mask+1 := by rwa [hcalls.mask.trans h.mask.symm]
  have hused' : (u.cidCoMap.table i).id≠-1 := by
    rw [hslot]
    exact kept_real h.kept (by rw [hnext]; exact List.mem_cons_self)
  have hmem : m∈(u.cidCoMap.table i).next := by
    rw [hslot]
    exact List.mem_cons_self
  have haddr : m.addr∈u.cidCoMap.heap := hcalls.kept.linked.mem_heap hi' hmem
  -- The deletion inside `coro_abort` frees the node that the loop frees after it.
  obtain ⟨hplace,d,hdata,hd,hcid⟩ := kept_chain hcalls.kept hi' hused' hmem
  obtain ⟨v,hv,-,ret,hmap⟩ := hcalls.tail hd
  obtain ⟨map,hdelete,hfreed⟩ := delete_frees hcalls.kept.linked hplace hused' (by rw [hslot])
  rw [hcid,hdelete] at hmap
  have hmap : map=v.cidCoMap := congrArg Prod.snd (Except.ok.inj hmap)
  have hderef : deref u.cidCoMap i m.addr=.ok (m,rest) := by
    rw [deref,if_neg (not_not_intro haddr),hslot]
    simp
  have hrelease : release v.cidCoMap.heap m.addr=.error .undefined := if_neg (hmap ▸ hfreed)
  obtain ⟨rounds,hrounds⟩ := Nat.exists_eq_add_one.mpr (List.length_pos_of_mem haddr)
  rw [hu,hrounds]
  show (deref u.cidCoMap i m.addr >>= _)=_
  rw [hderef]
  show (coroAbort u m.data >>= _)=_
  rw [hdata,hv]
  show (release v.cidCoMap.heap m.addr >>= _)=_
  rw [hrelease]
  rfl

/-! ## The loop -/

/-- The loop has passed the first `k` slots. Those without a chain are empty, and the
others have kept a node. -/
structure Passed (s : Registry) (k : ℕ) (calls : List Co) (t : Registry) : Prop where
  calls : Calls s calls t
  ahead : ∀ i,k ≤ i → t.cidCoMap.table i=s.cidCoMap.table i
  behind : ∀ i<k,(t.cidCoMap.table i).id=-1 ↔ (s.cidCoMap.table i).next=[]

/-- One more slot is passed. -/
theorem Passed.extend {calls' : List Co} {b : Slot Co} (h : Passed s k calls t)
    (hcalls : Calls s calls' u)
    (htable : u.cidCoMap.table=Function.update t.cidCoMap.table k b)
    (hb : b.id=-1 ↔ (s.cidCoMap.table k).next=[]) : Passed s (k+1) calls' u := by
  refine ⟨hcalls,fun i hi => ?_,fun i hi => ?_⟩
  · rw [htable,Function.update_of_ne (by omega)]
    exact h.ahead i (by omega)
  · rw [htable]
    by_cases hik : i=k
    · subst hik
      rwa [Function.update_self]
    · rw [Function.update_of_ne hik]
      exact h.behind i (by omega)

/-- A round on a slot with one node behind the embedded one at most. -/
theorem Passed.round (h : Passed s k calls t) (hk : k<s.cidCoMap.mask+1)
    (hlen : (s.cidCoMap.table k).next.length ≤ 1) :
    ∃ calls' u,clearSlot t k=.ok u ∧ Passed s (k+1) calls' u := by
  have hk' : k<t.cidCoMap.mask+1 := by rwa [h.calls.mask]
  have hslot := h.ahead k le_rfl
  by_cases hempty : (t.cidCoMap.table k).id=-1
  · have hnext := kept_empty h.calls.kept hempty
    refine ⟨calls,t,if_pos hempty,h.extend h.calls (Function.update_eq_self ..).symm ?_⟩
    rw [hslot] at hnext
    exact iff_of_true hempty hnext
  cases hnext : (t.cidCoMap.table k).next with
  | nil =>
    obtain ⟨c,u,hu,hcalls,hvacant⟩ := h.calls.clearSlot_alone hk' hempty hnext
    refine ⟨_,u,hu,h.extend hcalls (by rw [hvacant]; rfl) ?_⟩
    rw [hslot] at hnext
    exact iff_of_true rfl hnext
  | cons n rest =>
    have hrest : rest=[] := by
      rw [← hslot,hnext,List.length_cons] at hlen
      exact List.length_eq_zero_iff.mp (by omega)
    subst hrest
    obtain ⟨c,u,hu,hcalls,htable⟩ := h.calls.clearSlot_pair hk' hempty hnext
    refine ⟨_,u,hu,h.extend hcalls htable (iff_of_false ?_ ?_)⟩
    · exact kept_real h.calls.kept (by rw [hnext]; exact List.mem_cons_self)
    · rw [← hslot,hnext]
      exact List.cons_ne_nil n []

/-- A round on a longer chain. -/
theorem Passed.fault (h : Passed s k calls t) (hk : k<s.cidCoMap.mask+1)
    (hlen : 1<(s.cidCoMap.table k).next.length) : clearSlot t k=.error .undefined := by
  have hk' : k<t.cidCoMap.mask+1 := by rwa [h.calls.mask]
  rw [← h.ahead k le_rfl] at hlen
  have hused : (t.cidCoMap.table k).id≠-1 := by
    intro hempty
    rw [kept_empty h.calls.kept hempty] at hlen
    cases hlen
  match hnext : (t.cidCoMap.table k).next with
  | [] =>
    rw [hnext] at hlen
    cases hlen
  | [n] =>
    rw [hnext] at hlen
    exact absurd hlen (lt_irrefl 1)
  | n::m::rest => exact h.calls.clearSlot_chain hk' hused hnext

/-- Before the first slot. -/
theorem passed_zero (hs : Kept s) : Passed s 0 [] s :=
  ⟨calls_refl hs,fun _ _ => rfl,fun _ hi => absurd hi (Nat.not_lt_zero _)⟩

/-- The loop over the slots, one slot further. -/
theorem range_succ_foldlM (k : ℕ) (s : Registry) : (List.range (k+1)).foldlM clearSlot s=
    (List.range k).foldlM clearSlot s >>= fun t => clearSlot t k := by
  rw [List.range_succ,List.foldlM_append]
  congr 1
  funext t
  exact List.foldlM_cons.trans (bind_pure _)

/-- Rounds without a fault. -/
theorem passed_of_ok (hs : Kept s) (hk : k ≤ s.cidCoMap.mask+1)
    (h : (List.range k).foldlM clearSlot s=.ok t) : ∃ calls,Passed s k calls t := by
  induction k generalizing t with
  | zero =>
    cases h
    exact ⟨[],passed_zero hs⟩
  | succ k ih =>
    rw [range_succ_foldlM] at h
    obtain ⟨u,hu,ht⟩ := bind_eq_ok h
    obtain ⟨calls,hpassed⟩ := ih (by omega) hu
    by_cases hlen : (s.cidCoMap.table k).next.length ≤ 1
    · obtain ⟨calls',v,hv,hpassed'⟩ := hpassed.round hk hlen
      cases hv.symm.trans ht
      exact ⟨calls',hpassed'⟩
    · cases (hpassed.fault hk (by omega)).symm.trans ht

/-- There is no fault without longer chains. -/
theorem exists_passed (hs : Kept s) (hk : k ≤ s.cidCoMap.mask+1)
    (hlen : ∀ i<k,(s.cidCoMap.table i).next.length ≤ 1) :
    ∃ calls t,(List.range k).foldlM clearSlot s=.ok t ∧ Passed s k calls t := by
  induction k with
  | zero => exact ⟨[],s,rfl,passed_zero hs⟩
  | succ k ih =>
    obtain ⟨calls,t,ht,hpassed⟩ := ih (by omega) fun i hi => hlen i (by omega)
    obtain ⟨calls',u,hu,hpassed'⟩ := hpassed.round hk (hlen k (Nat.lt_succ_self k))
    refine ⟨calls',u,?_,hpassed'⟩
    rw [range_succ_foldlM,ht]
    exact hu

/-- The table holds the live coroutines: they are released once iff it is flat. -/
theorem abortedOnce_iff_of_kept (hs : Kept s) : AbortedOnce s ↔ flat s.cidCoMap := by
  constructor
  · rintro ⟨t',calls',habort,haborted,-,hmem,-,-⟩ i hi
    obtain ⟨t,ht,rfl⟩ := map_eq_ok habort
    obtain ⟨calls,hpassed⟩ := passed_of_ok hs le_rfl ht
    obtain rfl : calls=calls' :=
      List.append_cancel_left (hpassed.calls.aborted.symm.trans haborted)
    refine ⟨(hpassed.behind i hi).mp ?_,?_⟩
    · by_contra hused
      -- The node that is left stands for a live coroutine, which was not aborted.
      obtain ⟨-,d,-,hd,-⟩ := kept_head hpassed.calls.kept (by rwa [hpassed.calls.mask]) hused
      have hnot : d∉calls := fun hmem => (hpassed.calls.gone d hmem).2 hd
      exact hnot ((hmem d).mpr ((hpassed.calls.others d hnot).symm.trans hd))
    · by_cases hempty : (s.cidCoMap.table i).id=-1
      · exact .inl hempty
      · obtain ⟨-,d,hdata,-⟩ := kept_head hs hi hempty
        rw [hdata]
        exact .inr (Option.some_ne_none d)
  · intro hflat
    obtain ⟨calls,t,ht,hpassed⟩ := exists_passed hs le_rfl fun i hi => by
      rw [(hflat i hi).1]
      exact Nat.zero_le 1
    obtain ⟨hnone,hheap,hcount⟩ := kept_all_empty hpassed.calls.kept fun i hi =>
      (hpassed.behind i (by rwa [hpassed.calls.mask] at hi)).mpr
        (hflat i (by rwa [hpassed.calls.mask] at hi)).1
    have hdone : scheduleAbort s=.ok (setMap t {t.cidCoMap with
        width := 0,mask := 0,count := 0}) := by
      rw [scheduleAbort,htableClearWithFreecb,ht]
      rfl
    refine ⟨_,calls,hdone,hpassed.calls.aborted,hpassed.calls.nodup,
      fun c => ⟨fun hc => (hpassed.calls.gone c hc).1,fun hc => ?_⟩,hheap,hcount⟩
    by_contra hnot
    exact hnone c ((hpassed.calls.others c hnot).trans hc)

/-! ## Resized tables -/

/-- The callback never fills the zeroed slot. -/
theorem zeroed_of_coroAbort {data : Option Co} (h : Zeroed (plain s.cidCoMap))
    (ht : coroAbort s data=.ok t) : Zeroed (plain t.cidCoMap) := by
  cases data with
  | none => cases ht
  | some c =>
    have hsame : Zeroed (plain {s with aborted := s.aborted++[c]}.cidCoMap) := h
    obtain ⟨d,hd⟩ := released_of_endCoro ht
    exact zeroed_of_released hsame hd

/-- The loop over a chain never fills the zeroed slot. -/
theorem zeroed_of_clearChain {rounds : ℕ} {ptr : Option ℕ} (h : Zeroed (plain s.cidCoMap))
    (ht : clearChain i rounds ptr s=.ok t) : Zeroed (plain t.cidCoMap) := by
  induction rounds generalizing ptr s with
  | zero =>
    cases ptr with
    | none =>
      cases ht
      exact h
    | some p => cases ht
  | succ rounds ih =>
    cases ptr with
    | none =>
      cases ht
      exact h
    | some p =>
      obtain ⟨r,-,ht⟩ := bind_eq_ok ht
      obtain ⟨u,hu,ht⟩ := bind_eq_ok ht
      obtain ⟨heap,-,ht⟩ := bind_eq_ok ht
      have hzeroed := zeroed_of_coroAbort h hu
      have hsame : Zeroed (plain (setMap u {u.cidCoMap with heap := heap}).cidCoMap) := hzeroed
      exact ih hsame ht

/-- A round never fills the zeroed slot. -/
theorem zeroed_of_clearSlot (h : Zeroed (plain s.cidCoMap)) (ht : clearSlot s i=.ok t) :
    Zeroed (plain t.cidCoMap) := by
  unfold clearSlot at ht
  split_ifs at ht
  · cases ht
    exact h
  · obtain ⟨u,hu,ht⟩ := bind_eq_ok ht
    exact zeroed_of_clearChain (zeroed_of_coroAbort h hu) ht

/-- The second slot makes `coro_abort` read through NULL. -/
theorem clearSlot_zeroed (h : Zeroed (plain s.cidCoMap)) : clearSlot s 1=.error .undefined := by
  have hid : (s.cidCoMap.table 1).id=0 := h.id_eq
  have hdata : (s.cidCoMap.table 1).data=none := congrArg DycoHentry.data h.node
  rw [clearSlot,if_neg (by rw [hid]; decide),hdata]
  rfl

/-- So the loop comes no further. -/
theorem rounds_zeroed (h : Zeroed (plain s.cidCoMap))
    (ht : (List.range k).foldlM clearSlot s=.ok t) : k ≤ 1 ∧ Zeroed (plain t.cidCoMap) := by
  induction k generalizing t with
  | zero =>
    cases ht
    exact ⟨Nat.zero_le 1,h⟩
  | succ k ih =>
    rw [range_succ_foldlM] at ht
    obtain ⟨u,hu,ht⟩ := bind_eq_ok ht
    obtain ⟨hk,hzeroed⟩ := ih hu
    obtain rfl|rfl : k=0 ∨ k=1 := by omega
    · exact ⟨le_rfl,zeroed_of_clearSlot hzeroed ht⟩
    · cases (clearSlot_zeroed hzeroed).symm.trans ht

/-- After a resize nothing can be aborted, and the table is not flat. -/
theorem abortedOnce_iff_of_zeroed (h : Zeroed (plain s.cidCoMap)) :
    AbortedOnce s ↔ flat s.cidCoMap := by
  refine iff_of_false ?_ fun hflat => ?_
  · rintro ⟨t',calls,habort,-⟩
    obtain ⟨t,ht,-⟩ := map_eq_ok habort
    have hwide : 1 ≤ s.cidCoMap.mask := h.wide
    have hshort := (rounds_zeroed h ht).1
    omega
  · rcases (hflat 1 (Nat.succ_lt_succ h.wide)).2 with hid|hdata
    · cases h.id_eq.symm.trans hid
    · exact hdata (congrArg DycoHentry.data h.node)

/-- Every coroutine is aborted once exactly when no slot has a chain. -/
theorem abortedOnce_iff (h : Zeroed (plain s.cidCoMap) ∨ Kept s) :
    AbortedOnce s ↔ flat s.cidCoMap := by
  rcases h with hzeroed|hkept
  · exact abortedOnce_iff_of_zeroed hzeroed
  · exact abortedOnce_iff_of_kept hkept

/-- After any run in which every cid that was handed out was fresh, `schedule_abort`
releases everything once iff no slot of `cid_co_map` has a chain or lacks data. -/
theorem abort_releases_once_iff (h : Reachable Fresh s) : AbortedOnce s ↔ flat s.cidCoMap :=
  abortedOnce_iff (kept_of_reachable h).2

/-- Two coroutines in one slot: the second is not aborted. -/
theorem abort_skips_promoted : ∃ s,Reachable (fun _ _ => True) s ∧ ¬AbortedOnce s := by
  obtain ⟨c,s,hs,hshared⟩ := shared_reachable
  refine ⟨s,hs.any,fun habort => ?_⟩
  have hflat := (abortedOnce_iff (kept_of_reachable hs).2).mp habort
  have hmask : 1<s.cidCoMap.mask+1 := by
    rw [hshared.map]
    show 1<2^16-1+1
    norm_num
  have hnext := (hflat 1 hmask).1
  rw [hshared.map] at hnext
  cases hnext

/-- Two coroutines in two slots. -/
theorem abort_releases_once_iff_twoSlots : ∃ s,Reachable Fresh s ∧ flat s.cidCoMap ∧
    s.coroCount=2 ∧ AbortedOnce s := by
  obtain ⟨hfresh,s,hs,hlone⟩ := lone_first
  have hslot : slot loneTable.mask ((0+2 : ℕ) : ℤ)=2 := by decide
  have hvacant : loneTable.table (slot loneTable.mask ((0+2 : ℕ) : ℤ))=Slot.cleared := by
    rw [hslot]
    exact loneTable_of_ne (by decide)
  obtain ⟨t,ht,-,-,hmap,hcount,-,-,-⟩ :=
    hlone.create (by norm_num) (htableInsert_vacant hvacant (by decide) _)
  have hreach : Reachable Fresh t :=
    ⟨0,(Runs.refl.tail hfresh hs).tail (hlone.fresh (by norm_num) false) ht⟩
  have hflat : flat t.cidCoMap := by
    intro i _
    rw [hmap,hslot]
    by_cases hsecond : i=2
    · subst hsecond
      exact ⟨rfl,.inr (Option.some_ne_none _)⟩
    · have hold : (putSlot loneTable 2 ⟨⟨((0+2 : ℕ) : ℤ),some s.nextCo⟩,[]⟩
          (loneTable.count+1)).table i=loneTable.table i := Function.update_of_ne hsecond ..
      rw [hold]
      by_cases hfirst : i=1
      · subst hfirst
        exact ⟨rfl,.inr (Option.some_ne_none _)⟩
      · rw [loneTable_of_ne hfirst]
        exact ⟨rfl,.inl rfl⟩
  exact ⟨t,hreach,hflat,hcount,(abort_releases_once_iff hreach).mpr hflat⟩

end DycoCoroutine.AbortRelease
