import DycoCoroutine.RegistryPools

/-!
# What the table of coroutines holds

As long as every cid that is handed out is fresh, `cid_co_map` holds the live
coroutines under their cids and nothing else, and `coro_count` is their number. This
ends with the first resize, which leaves slots with the id 0 and no data behind. They
cannot be deleted, since the id 0 belongs to another slot, and stay for good. Until then
the table stands for the map of the machine of the pools, whose invariants say which
coroutines it holds.
-/

namespace DycoCoroutine.RegistryContents

open ScheduleState RunInvariant ChainedTable CoroutineRegistry HashTableMap SlottedMap
open RegistryPools
open HashTable (slot DycoHtable DycoHentry Bucket maxWidth)
open CoroutinePool (World)

/-! ## After a resize -/

section Zeroed

variable {α : Type*} {ht ht' : DycoHtable α} {table : ℕ → Bucket α} {b : Bucket α}
  {l : List (DycoHentry α)} {idx : ℕ} {count : ℤ}

/-- The second slot has the id 0 and no data. -/
structure Zeroed (ht : DycoHtable α) : Prop where
  /-- There is a second slot. -/
  wide : 1 ≤ ht.mask
  /-- Its embedded node. -/
  node : (ht.table 1).toDycoHentry=⟨0,none⟩

/-- The id of the second slot. -/
theorem Zeroed.id_eq (h : Zeroed ht) : (ht.table 1).id=0 := congrArg DycoHentry.id h.node

/-- A write elsewhere leaves the second slot as it is. -/
theorem Zeroed.putBucket (h : Zeroed ht)
    (hb : idx=1 → b.toDycoHentry=(ht.table 1).toDycoHentry) :
    Zeroed (HashTable.putBucket ht idx b count) := by
  refine ⟨h.wide,?_⟩
  show (Function.update ht.table idx b 1).toDycoHentry=_
  by_cases hidx : 1=idx
  · rw [← hidx,Function.update_self,hb hidx.symm]
    exact h.node
  · rw [Function.update_of_ne hidx]
    exact h.node

/-- The nodes that enter a new table do not displace it. -/
theorem rehash_zeroed (mask : ℕ) (h : (table 1).toDycoHentry=⟨0,none⟩) :
    (l.foldl (HashTable.rehash mask) table 1).toDycoHentry=⟨0,none⟩ := by
  induction l generalizing table with
  | nil => exact h
  | cons e l ih =>
    refine ih ?_
    have hid : (table 1).id=0 := congrArg DycoHentry.id h
    unfold HashTable.rehash
    by_cases hslot : 1=slot mask e.id
    · have hused : (table (slot mask e.id)).id≠-1 := by
        rw [← hslot,hid]
        decide
      rw [if_neg hused,← hslot,Function.update_self]
      exact h
    · split_ifs
      · rw [Function.update_of_ne hslot]
        exact h
      · rw [Function.update_of_ne hslot]
        exact h

/-- A resize leaves its second slot as `calloc` made it. -/
theorem zeroed_htableResize (hwidth : ht.width < maxWidth) :
    ∃ ht',HashTable.htableResize ht (ht.width+1)=some ht' ∧ Zeroed ht' := by
  refine ⟨_,htableResize_eq hwidth,?_,?_⟩
  · show 1 ≤ 2^(ht.width+1)-1
    have := Nat.one_lt_two_pow (Nat.succ_ne_zero ht.width)
    omega
  · refine rehash_zeroed _ ?_
    obtain ⟨k,hk⟩ := Nat.exists_eq_add_one.mpr (Nat.two_pow_pos (ht.width+1))
    rw [hk,newTable_succ]
    rfl

/-- A resize that happens. -/
theorem zeroed_grow (hwidth : ht.width < maxWidth) (hfull : (ht.mask : ℤ)*2=ht.count) :
    Zeroed (HashTable.grow ht).2 := by
  obtain ⟨ht',hresize,h⟩ := zeroed_htableResize hwidth
  rw [HashTable.grow,if_pos hfull,hresize]
  exact h

/-- The end of an insertion keeps the second slot zeroed, or makes it so again. -/
theorem Zeroed.grow (h : Zeroed ht) : Zeroed (HashTable.grow ht).2 := by
  by_cases hfull : (ht.mask : ℤ)*2=ht.count
  · by_cases hwidth : ht.width < maxWidth
    · exact zeroed_grow hwidth hfull
    · have hnone : HashTable.htableResize ht (ht.width+1)=none := if_pos (by omega)
      rw [HashTable.grow,if_pos hfull,hnone]
      exact h
  · rw [HashTable.grow,if_neg hfull]
    exact h

/-- No insertion takes the zeroed slot for an empty one. -/
theorem Zeroed.htableInsert (h : Zeroed ht) (id : ℤ) (data : Option α) :
    Zeroed (HashTable.htableInsert ht id data).2 := by
  have hid := h.id_eq
  unfold HashTable.htableInsert
  dsimp only
  split_ifs with hempty hhead
  · refine Zeroed.grow (h.putBucket fun hslot => ?_)
    rw [hslot,hid] at hempty
    cases hempty
  · refine h.putBucket fun hslot => ?_
    rw [hslot,hid] at hhead
    rw [← hhead,slot_zero] at hslot
    cases hslot
  · split
    · exact h.putBucket fun hslot => by rw [hslot]
    · exact Zeroed.grow (h.putBucket fun hslot => by rw [hslot])

/-- No deletion reaches it, whatever became of the nodes of the chains. -/
theorem zeroed_htableDelete {ht ht' : Table α} {id ret : ℤ} (h : Zeroed (plain ht))
    (hdelete : htableDelete ht id=.ok (ret,ht')) : Zeroed (plain ht') := by
  have hput : ∀ {b heap},(slot ht.mask id=1 → b.toDycoHentry=(ht.table 1).toDycoHentry) →
      Zeroed (plain {putSlot ht (slot ht.mask id) b (ht.count-1) with heap := heap}) := by
    intro b heap hb
    rw [plain_heap,plain_putSlot]
    exact h.putBucket hb
  have hhead : (ht.table (slot ht.mask id)).id=id → slot ht.mask id≠1 := by
    intro hhead hslot
    have hid : (ht.table 1).id=0 := h.id_eq
    rw [hslot,hid] at hhead
    rw [← hhead,slot_zero] at hslot
    cases hslot
  unfold htableDelete at hdelete
  dsimp only at hdelete
  split_ifs at hdelete with hempty hfirst
  · cases hdelete
    exact h
  · split at hdelete
    · obtain ⟨u,hu,hdelete⟩ := map_eq_ok hdelete
      cases hdelete
      obtain ⟨heap,-,rfl⟩ := map_eq_ok hu
      exact hput fun hslot => absurd hslot (hhead hfirst)
    · cases hdelete
      exact hput fun hslot => absurd hslot (hhead hfirst)
  · obtain ⟨w,-,hdelete⟩ := bind_eq_ok hdelete
    cases w with
    | none =>
      cases hdelete
      exact h
    | some w =>
      obtain ⟨heap,-,hdelete⟩ := map_eq_ok hdelete
      cases hdelete
      exact hput fun hslot => by rw [hslot]

end Zeroed

/-! ## Tables that stand for maps of coroutines -/

variable {s t : Registry} {w : World} {a : Act} {c d : Co} {v : ℤ → Bool} {ht ht' : Table Co}
  {m : CoMap} {m' : HashTable.FiniteMap Co} {k : ℤ}

/-- The table has the entries of the map, as far as ids with `v` go. -/
def StandsFor (v : ℤ → Bool) (ht : Table Co) (m : CoMap) : Prop :=
  ∃ m',Represents v (plain ht) m' ∧ ∀ k,m'.lookup k=(m.lookup k).map some

/-- A new entry on both sides. -/
theorem standsFor_enter (hm : ∀ k,m'.lookup k=(m.lookup k).map some)
    (h : Represents v (plain ht') (m'.insert k (some c))) :
    StandsFor v ht' (enter cidSlot k c m) := by
  refine ⟨_,h,fun x => ?_⟩
  rw [lookup_enter]
  by_cases hx : x=k
  · subst hx
    rw [AList.lookup_insert,if_pos rfl]
    rfl
  · rw [AList.lookup_insert_ne hx,if_neg hx,hm]

/-- An entry is deleted on both sides. -/
theorem standsFor_erase (hm : ∀ k,m'.lookup k=(m.lookup k).map some)
    (h : Represents v (plain ht') (m'.erase k)) : StandsFor v ht' (m.erase k) := by
  refine ⟨_,h,fun x => ?_⟩
  by_cases hx : x=k
  · subst hx
    rw [AList.lookup_erase,AList.lookup_erase]
    rfl
  · rw [AList.lookup_erase_ne hx,AList.lookup_erase_ne hx,hm]

/-- The table has its first width, all its nodes are in the chains, and it stands for the
map. -/
structure Settled (ht : Table Co) (m : CoMap) : Prop where
  linked : Linked 0 ht
  width : ht.width=16
  stands : StandsFor (fun _ => true) ht m

/-- A new table. -/
theorem settled_htableInit : Settled (htableInit 0) ∅ :=
  ⟨linked_htableInit 0,rfl,∅,represents_htableInit _ 0,fun _ => rfl⟩

/-- Such tables answer like their maps. -/
theorem answers_settled : Answers Settled := by
  refine ⟨fun {ht m} h k => ?_,fun {_ _ _ k _} h _ hdelete => ?_⟩
  · obtain ⟨m',hrep,hm⟩ := h.stands
    rw [plain_htableFind h.linked,hrep.find rfl,hm]
    cases m.lookup k <;> rfl
  · obtain ⟨m',hrep,hm⟩ := h.stands
    obtain ⟨hlinked,-,hwidth,-⟩ := h.linked.of_htableDelete hdelete
    have hrep' : Represents _ (HashTable.htableDelete _ k).2.2 _ := hrep.delete rfl
    rw [plain_htableDelete h.linked hdelete] at hrep'
    exact ⟨hlinked,hwidth.trans h.width,standsFor_erase hm hrep'⟩

/-- A new id is entered, or it makes the table resize. -/
theorem Settled.insert {ret : ℤ} (h : Settled ht m) (hk : k≠-1) (hnone : m.lookup k=none)
    (hmap : htableInsert ht k (some c)=.ok (ret,ht')) :
    Zeroed (plain ht') ∨ Settled ht' (enter cidSlot k c m) := by
  obtain ⟨m',hrep,hm⟩ := h.stands
  have hheld : held (plain ht) k=none := by
    have hlookup : m'.lookup k=_ := hrep.lookup rfl
    rw [hm,hnone] at hlookup
    exact Option.map_eq_none_iff.mp hlookup.symm
  obtain ⟨ht₁,hinsert,hwidth,hmask,hcount,hrep₁⟩ := hrep.exists_grow rfl hk hheld (some c)
  rw [plain_htableInsert h.linked hmap] at hinsert
  by_cases hfull : (ht.mask : ℤ)*2=ht.count+1
  · have hzeroed := zeroed_grow (hwidth.trans_lt (h.width.trans_lt (by decide)))
      ((congrArg (fun n : ℕ => (n : ℤ)*2) hmask).trans (hfull.trans hcount.symm))
    rw [← hinsert] at hzeroed
    exact .inl hzeroed
  · have hsame : HashTable.grow ht₁=(1,ht₁) := by
      refine if_neg ?_
      rw [hmask,hcount]
      exact hfull
    rw [hsame] at hinsert
    obtain rfl : plain ht'=ht₁ := congrArg Prod.snd hinsert
    exact .inr ⟨h.linked.of_htableInsert hfull hmap,hwidth.trans h.width,standsFor_enter hm hrep₁⟩

/-! ## The live coroutines in the table -/

/-- The table holds the live coroutines under their cids, and `coro_count` is their
number. -/
structure Kept (s : Registry) : Prop where
  sane : Sane s
  /-- No node is allocated outside the chains. -/
  linked : Linked 0 s.cidCoMap
  holds : ∃ m,Represents (fun _ => true) (plain s.cidCoMap) m ∧
    s.coroCount=UInt32.ofNat m.keys.length ∧
    ∀ k d,m.lookup k=some d ↔ ∃ c,d=some c ∧ (s.co c).life=.live ∧ (s.co c).cid=k

/-- The map of the machine of the pools has the live coroutines, and so has the table. -/
theorem kept_of_served (hs : Sane s) (h : Served Settled s w) : Kept s := by
  have hagrees := h.serves.agrees
  have hsettled := hagrees.table
  obtain ⟨m,hrep,hm⟩ := hsettled.stands
  have hkeys : m.keys.Perm w.reg.cidCoMap.keys := by
    refine (List.perm_ext_iff_of_nodup (AList.keys_nodup _) (AList.keys_nodup _)).mpr fun k => ?_
    rw [← AList.mem_keys,← AList.mem_keys,← AList.lookup_isSome,← AList.lookup_isSome,hm,
      Option.isSome_map]
  refine ⟨hs,hsettled.linked,m,hrep,?_,fun k d => ?_⟩
  · rw [hkeys.length_eq,← h.exact.count,hagrees.coroCount,UInt32.ofNat_toNat]
  · rw [hm,Option.map_eq_some_iff,← hagrees.co]
    constructor
    · rintro ⟨c,hc,rfl⟩
      exact ⟨c,rfl,h.owned.sound.entries k c hc⟩
    · rintro ⟨c,rfl,hc,rfl⟩
      exact ⟨c,h.exact.live c hc,rfl⟩

/-- What is found in the table. -/
theorem Kept.find_iff (h : Kept s) {k : ℤ} :
    htableFind s.cidCoMap k=.ok (some c) ↔ (s.co c).life=.live ∧ (s.co c).cid=k := by
  obtain ⟨m,hrep,-,hlive⟩ := h.holds
  have hfound : htableFind s.cidCoMap k=.ok (some c) ↔ m.lookup k=some (some c) := by
    rw [plain_htableFind h.linked,htableFind_eq,hrep.lookup rfl]
    cases held (plain s.cidCoMap) k <;> simp
  rw [hfound,hlive]
  constructor
  · rintro ⟨c',hc,hc'⟩
    cases hc
    exact hc'
  · exact fun hc => ⟨c,rfl,hc⟩

/-- The records change, but not the live ones. -/
theorem Kept.congr (h : Kept s) (ht : Sane t) (hmap : t.cidCoMap=s.cidCoMap)
    (hcount : t.coroCount=s.coroCount) (hco : ∀ c k,
      (t.co c).life=.live ∧ (t.co c).cid=k ↔ (s.co c).life=.live ∧ (s.co c).cid=k) : Kept t := by
  obtain ⟨m,hrep,hlen,hlive⟩ := h.holds
  refine ⟨ht,hmap.symm ▸ h.linked,m,hmap.symm ▸ hrep,hcount.trans hlen,fun k d => ?_⟩
  simp only [hlive,hco]

/-- The live coroutines after the release of one, as the entries of a map. -/
theorem lookup_ended {m : HashTable.FiniteMap Co} (hc : (s.co c).life=.live)
    (hlive : ∀ k d,m.lookup k=some d ↔ ∃ c,d=some c ∧ (s.co c).life=.live ∧ (s.co c).cid=k)
    (ht : Ended s c t) (k : ℤ) (d : Option Co) : (m.erase (s.co c).cid).lookup k=some d ↔
      ∃ c',d=some c' ∧ (t.co c').life=.live ∧ (t.co c').cid=k := by
  by_cases hk : k=(s.co c).cid
  · subst hk
    rw [AList.lookup_erase]
    refine ⟨fun hd => (nomatch hd),?_⟩
    rintro ⟨c',-,hc',hcid⟩
    have hne : c'≠c := fun heq => ht.gone (heq ▸ hc')
    rw [ht.others c' hne] at hc' hcid
    have hsame := ((hlive _ _).mpr ⟨c,rfl,hc,rfl⟩).symm.trans ((hlive _ _).mpr ⟨c',rfl,hc',hcid⟩)
    exact absurd (Option.some.inj (Option.some.inj hsame)).symm hne
  · rw [AList.lookup_erase_ne hk,hlive]
    constructor
    · rintro ⟨c',hd,hc',hcid⟩
      have hne : c'≠c := fun heq => hk (heq ▸ hcid.symm)
      exact ⟨c',hd,by rwa [ht.others c' hne],by rwa [ht.others c' hne]⟩
    · rintro ⟨c',hd,hc',hcid⟩
      have hne : c'≠c := fun heq => ht.gone (heq ▸ hc')
      rw [ht.others c' hne] at hc' hcid
      exact ⟨c',hd,hc',hcid⟩

/-- A live coroutine is released. -/
theorem Kept.ended (h : Kept s) (hc : (s.co c).life=.live) (ht : Ended s c t) : Kept t := by
  obtain ⟨m,hrep,hlen,hlive⟩ := h.holds
  obtain ⟨ret,hmap⟩ := ht.map
  have hlookup : m.lookup (s.co c).cid=some (some c) := (hlive _ _).mpr ⟨c,rfl,hc,rfl⟩
  obtain ⟨e,hheld⟩ := hrep.held_of_lookup rfl hlookup
  have hmem : (s.co c).cid∈m.keys := by
    rw [← AList.mem_keys,← AList.lookup_isSome,hlookup]
    rfl
  have hrep' := (hrep.delete_of_some rfl hheld).2.2
  rw [plain_htableDelete h.linked hmap] at hrep'
  refine ⟨ht.sane,(h.linked.of_htableDelete hmap).1,m.erase (s.co c).cid,hrep',?_,
    lookup_ended hc hlive ht⟩
  have hpos : 0 < m.keys.length := List.length_pos_of_mem hmem
  obtain ⟨n,hn⟩ := Nat.exists_eq_add_one.mpr hpos
  rw [ht.count,hlen,AList.keys_erase,List.length_erase_of_mem hmem,hn,UInt32.ofNat_add]
  exact UInt32.add_sub_cancel ..

/-! ## Resized tables stay so -/

/-- The same for the table with addresses. -/
theorem zeroed_of_insert {ret k : ℤ} {map : Table Co} (hs : Sane s)
    (h : Zeroed (plain s.cidCoMap)) (hmap : htableInsert s.cidCoMap k (some c)=.ok (ret,map)) :
    Zeroed (plain map) := by
  obtain ⟨leak,hlinked⟩ := hs.linked
  have hzeroed := h.htableInsert k (some c)
  rwa [plain_htableInsert hlinked hmap] at hzeroed

/-- The end of a coroutine never fills the zeroed slot. -/
theorem zeroed_of_released (h : Zeroed (plain s.cidCoMap)) (ht : Released s c t) :
    Zeroed (plain t.cidCoMap) := by
  rcases released_unregister ht with rfl|⟨life,u,pools,-,hu,rfl⟩
  · exact h
  · obtain ⟨-,ret,map,hmap,rfl⟩ := unregister_ok hu
    exact zeroed_htableDelete h hmap

/-- No step fills the zeroed slot. -/
theorem zeroed_of_moves {b : Bool} (hs : Sane s) (h : Zeroed (plain s.cidCoMap))
    (ht : Moves s b t) : Zeroed (plain t.cidCoMap) := by
  cases ht with
  | nothing => exact h
  | create ht =>
    obtain ⟨ret,map,hmap,rfl⟩ := register_ok ht
    exact zeroed_of_insert hs h hmap
  | poolCreate =>
    refine cpCreate_invariant (fun u => Zeroed (plain u.cidCoMap)) h h fun u p hu => ?_
    unfold CoroutineRegistry.cpAdd
    split
    · exact hu
    · exact hu
  | obtain hp hl ht =>
    obtain ⟨ret,map,hmap,rfl⟩ := register_ok ht
    exact zeroed_of_insert hs h hmap
  | exit _ ht => exact zeroed_of_released h ht
  | asymRelease _ ht => exact zeroed_of_released h ht

/-! ## Runs -/

/-- As long as the cids are fresh, the table was resized or holds the live coroutines. -/
theorem kept_of_reachable (h : Reachable Fresh s) :
    Sane s ∧ (Zeroed (plain s.cidCoMap) ∨ Kept s) := by
  obtain ⟨schedId,hruns⟩ := h
  have hinv : Sane s ∧ (Zeroed (plain s.cidCoMap) ∨ ∃ w,Served Settled s w) := by
    refine hruns.invariant
      (fun s => Sane s ∧ (Zeroed (plain s.cidCoMap) ∨ ∃ w,Served Settled s w))
      ⟨sane_newScheduler schedId,.inr ⟨_,served_newScheduler schedId settled_htableInit⟩⟩
      fun s a t hi hc ha => ⟨hi.1.moves (moves_of_step ha),?_⟩
    rcases hi with ⟨hsane,hzeroed|⟨w,hw⟩⟩
    · exact .inl (zeroed_of_moves hsane hzeroed (moves_of_step ha))
    by_cases hzeroed : Zeroed (plain t.cidCoMap)
    · exact .inl hzeroed
    · have henter : registers s a=true → Enters Settled s t w.reg.cidCoMap := by
        intro hr c ret hinsert
        have hnone := hw.lookup_nextCid (hc hr).1
        exact (hw.serves.agrees.table.insert (hc hr).2 hnone hinsert).resolve_left hzeroed
      obtain ⟨w',-,ht⟩ := hw.follow answers_settled (fun hr => ⟨henter hr,(hc hr).1⟩) ha
      exact .inr ⟨w',ht⟩
  refine ⟨hinv.1,hinv.2.imp_right fun hserved => ?_⟩
  obtain ⟨w,hw⟩ := hserved
  exact kept_of_served hinv.1 hw

end DycoCoroutine.RegistryContents
