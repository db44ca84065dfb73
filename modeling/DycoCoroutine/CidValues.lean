import DycoCoroutine.RegistryContents

/-!
# The values of cids

A cid puts the low byte of `sched_id` above 24 bits of `_cid_gen`, and the result is
stored in an `int`. From the 128th scheduler on it is negative, and for every 256th one
the generator alone makes it up, which comes to 0. Where all cids are positive and none
is that of a live coroutine, `cid_co_map` finds every live coroutine under its cid, also
in tables that were resized.
-/

namespace DycoCoroutine.CidValues

open ScheduleState RunInvariant KeyedEntries ChainedTable CoroutineRegistry RegistryContents
open HashTableMap SlottedMap RegistryPools
open HashTable (slot DycoHtable DycoHentry Bucket maxWidth visited entries)

/-- `sched_id` of the `n`-th scheduler of the process, from an atomic_uint. -/
def schedIdOf (n : ℕ) : ℕ := n%2^32

/-- The coroutine that a call registers. -/
def subject (s : Registry) : Act → Option Co
  | .create _ => some s.nextCo
  | .obtain p _ => (s.pools p).bind fun cp => cp.freelist.head?
  | _ => none

/-- The next cid is positive. -/
def Positive (s : Registry) : Prop :=
  s.schedId%256<128 ∧ (s.schedId%256≠0 ∨ (s.cidGen+1)%2^24≠0)

/-- A step that hands out a cid hands out a positive one that no live coroutine has. -/
def Valid (s : Registry) (a : Act) : Prop :=
  registers s a=true → Positive s ∧ ∀ d,(s.co d).life=.live → (s.co d).cid≠s.nextCid

/-! ## Numbers -/

/-- A cid is positive exactly when its sign bit is clear and it is not the cid 0. -/
theorem cidOf_pos_iff {schedId g : ℕ} (hg : g<2^24) :
    0<cidOf schedId g ↔ schedId%256<128 ∧ (schedId%256≠0 ∨ g≠0) := by
  have hbyte := Nat.mod_lt schedId (by decide : 256>0)
  unfold cidOf toInt
  rw [Int.bmod_def]
  split_ifs <;> omega

/-- The cid handed out next is positive exactly when the registry is `Positive`. -/
theorem nextCid_pos_iff (s : Registry) : 0<s.nextCid ↔ Positive s :=
  cidOf_pos_iff (Nat.mod_lt _ (by norm_num))

/-- The byte of a scheduler in its cids is its position modulo 256. -/
theorem schedIdOf_mod (n : ℕ) : schedIdOf n%256=n%256 :=
  Nat.mod_mod_of_dvd n (by norm_num)

/-! ## Tables after any number of resizes -/

section Blank

variable {α : Type*} {ht : DycoHtable α} {m : HashTable.FiniteMap α} {b : Bucket α} {id : ℤ}

/-- The nodes with the id 0 are those that a resize leaves. -/
def Blank (ht : DycoHtable α) : Prop := ∀ e∈visited ht,e.id=0 → e.data=none

/-- Rewriting one bucket keeps the table free of the key 0 when no new entry has it. -/
theorem Blank.putBucket {A B : Multiset (DycoHentry α)} (h : Blank ht) (hB : ∀ e∈B,e.id≠0)
    (hchange : (entries b : Multiset (DycoHentry α))+A=entries (ht.table (slot ht.mask id))+B)
    (count : ℤ) : Blank (HashTable.putBucket ht (slot ht.mask id) b count) := by
  intro e he hzero
  have hall := contents_update (slot_lt ht.mask id) hchange
  have hmem : e∈contents ht.table (ht.mask+1)+B := by
    rw [← hall]
    exact Multiset.mem_add.mpr (.inl he)
  rcases Multiset.mem_add.mp hmem with hmem|hmem
  · exact h e hmem hzero
  · exact absurd hzero (hB e hmem)

/-- Doubling the table adds no key. -/
theorem Blank.grow (h : Blank ht) (hwf : ∀ i,WellFormed (ht.table i)) :
    Blank (HashTable.grow ht).2 := by
  unfold HashTable.grow
  split_ifs
  · by_cases hwidth : ht.width < maxWidth
    · obtain ⟨ht',hresize,-,-,-,hall,-⟩ := htableResize_spec hwidth hwf
      rw [hresize]
      intro e he hzero
      have hmem : e∈(visited ht : Multiset (DycoHentry α))+
          Multiset.replicate ht'.mask ⟨0,none⟩ := hall ▸ he
      rcases Multiset.mem_add.mp hmem with hmem|hmem
      · exact h e hmem hzero
      · rw [Multiset.eq_of_mem_replicate hmem]
    · have hnone : HashTable.htableResize ht (ht.width+1)=none := if_pos (by omega)
      rw [hnone]
      exact h
  · exact h

/-- A new id, whether the table is resized, the resize is refused or neither. -/
theorem Blank.insert (h : Blank ht) (hrep : Represents nonzero ht m) (hid : 0 < id)
    (hnone : held ht id=none) (data : Option α) :
    Blank (HashTable.htableInsert ht id data).2 := by
  obtain ⟨b,hinsert,hwf,hadd⟩ := htableInsert_of_none hnone (by omega) data (hrep.wf _)
  have hchange : (entries b : Multiset (DycoHentry α))+0=
      entries (ht.table (slot ht.mask id))+{⟨id,data⟩} := by
    rw [add_zero,hadd,add_singleton]
  have hB : ∀ e∈({⟨id,data⟩} : Multiset (DycoHentry α)),e.id=id := by
    intro e he
    rw [Multiset.mem_singleton.mp he]
  rw [hinsert]
  refine (h.putBucket (fun e he => ?_) hchange _).grow (hrep.putBucket hwf hB hchange _).1
  rw [hB e he]
  exact hid.ne'

/-- A deletion adds no key. -/
theorem Blank.delete {e : DycoHentry α} (h : Blank ht) (hrep : Represents nonzero ht m)
    (hsome : held ht id=some e) : Blank (HashTable.htableDelete ht id).2.2 := by
  obtain ⟨b,hdelete,-,hless⟩ := htableDelete_of_some hsome (hrep.wf _)
  rw [hdelete]
  refine h.putBucket (A := {e}) (B := 0) (fun x hx => absurd hx (Multiset.notMem_zero x)) ?_ _
  rw [add_zero,hless,add_singleton]

/-- What a table that stands for a map answers for the id of an entry. -/
theorem find_of_lookup {x : α} (hrep : Represents nonzero ht m) (hid : id≠0)
    (hlookup : m.lookup id=some (some x)) : HashTable.htableFind ht id=some x := by
  rw [hrep.find (decide_eq_true hid),hlookup]
  rfl

/-- What such a table finds is an entry of the map. -/
theorem lookup_of_find {x : α} (h : Blank ht) (hrep : Represents nonzero ht m)
    (hfind : HashTable.htableFind ht id=some x) : m.lookup id=some (some x) := by
  rw [htableFind_eq] at hfind
  obtain ⟨e,he,hdata⟩ := Option.bind_eq_some_iff.mp hfind
  by_cases hid : id=0
  · have hmem : e∈visited ht := mem_spread.mpr ⟨_,slot_lt _ _,mem_of_held he⟩
    cases hdata.symm.trans (h e hmem ((id_of_held he).trans hid))
  · rw [hrep.lookup (decide_eq_true hid),he]
    exact congrArg some hdata

end Blank

/-! ## The live coroutines are found -/

variable {s t : Registry} {a : Act} {c d : Co} {ht ht' : Table Co} {m : CoMap} {k : ℤ}
  {isasymmetric : Bool}

/-- The table stands for the map, whose keys are positive, and has otherwise only what
resizes leave. -/
structure Listed (ht : Table Co) (m : CoMap) : Prop where
  linked : ∃ leak,Linked leak ht
  blank : Blank (plain ht)
  positive : ∀ k∈m,0<k
  stands : StandsFor nonzero ht m

/-- A new table is empty. -/
theorem listed_htableInit : Listed (htableInit 0) ∅ := by
  refine ⟨⟨0,linked_htableInit 0⟩,fun e he => ?_,fun k hk => absurd hk (AList.notMem_empty k),∅,
    represents_htableInit _ 0,fun _ => rfl⟩
  obtain ⟨i,-,hi⟩ := mem_spread.mp he
  cases hi

/-- A positive key is an id that the table is asked for. -/
theorem Listed.nonzero_of_mem (h : Listed ht m) (hk : k∈m) : nonzero k=true :=
  decide_eq_true (h.positive k hk).ne'

/-- Such tables answer like their maps. -/
theorem answers_listed : Answers Listed := by
  refine ⟨fun {ht m} h k => ?_,fun {ht ht' m k ret} h hk hdelete => ?_⟩
  · obtain ⟨leak,hlinked⟩ := h.linked
    obtain ⟨m',hrep,hm⟩ := h.stands
    rw [plain_htableFind hlinked]
    refine congrArg Except.ok (Option.ext fun c => ⟨fun hfind => ?_,fun hlookup => ?_⟩)
    · have hc := lookup_of_find h.blank hrep hfind
      rw [hm] at hc
      simpa using hc
    · have hk : k∈m := AList.lookup_isSome.mp (by rw [hlookup]; rfl)
      exact find_of_lookup hrep (h.positive k hk).ne' (by rw [hm,hlookup]; rfl)
  · obtain ⟨leak,hlinked⟩ := h.linked
    obtain ⟨m',hrep,hm⟩ := h.stands
    obtain ⟨c,hc⟩ := Option.isSome_iff_exists.mp (AList.lookup_isSome.mpr hk)
    have hp := h.nonzero_of_mem hk
    obtain ⟨e,hheld⟩ := hrep.held_of_lookup hp ((hm k).trans (congrArg _ hc))
    have hrep' := (hrep.delete_of_some hp hheld).2.2
    have hblank := h.blank.delete hrep hheld
    rw [plain_htableDelete hlinked hdelete] at hrep' hblank
    exact ⟨⟨leak,(hlinked.of_htableDelete hdelete).1⟩,hblank,
      fun x hx => h.positive x (AList.mem_erase.mp hx).2,standsFor_erase hm hrep'⟩

/-- A positive id is entered. -/
theorem Listed.insert {ret : ℤ} (h : Listed ht m) (hk : 0<k) (hnone : m.lookup k=none)
    (hmap : htableInsert ht k (some c)=.ok (ret,ht')) : Listed ht' (enter cidSlot k c m) := by
  obtain ⟨leak,hlinked⟩ := h.linked
  obtain ⟨m',hrep,hm⟩ := h.stands
  have hp : nonzero k=true := decide_eq_true hk.ne'
  have hheld : held (plain ht) k=none := by
    have hlookup := hrep.lookup hp
    rw [hm,hnone] at hlookup
    exact Option.map_eq_none_iff.mp hlookup.symm
  have hblank := h.blank.insert hrep hk hheld (some c)
  have hgrown := hrep.insert hp (by omega) rfl (some c)
  rw [plain_htableInsert hlinked hmap] at hgrown hblank
  obtain ⟨ret',map,hmap',hlinked'⟩ := hlinked.htableInsert k (some c)
  rw [hmap] at hmap'
  cases hmap'
  refine ⟨hlinked',hblank,fun x hx => ?_,standsFor_enter hm hgrown⟩
  have hx' : x∈(m.insert k c).keys := (keys_enter cidSlot k c m).mem_iff.mp hx
  rcases (AList.mem_insert m).mp hx' with rfl|hx'
  · exact hk
  · exact h.positive x hx'

/-! ## Runs -/

/-- Every valid run is one of the machine of the pools. -/
theorem served_of_valid {schedId : ℕ} (h : Runs step Valid (newScheduler schedId) s) :
    ∃ w,Served Listed s w := by
  have henter : ∀ s t w a,Served Listed s w → Valid s a → registers s a=true →
      Enters Listed s t w.reg.cidCoMap ∧ ∀ d,(s.co d).life=.live → (s.co d).cid≠s.nextCid := by
    intro s t w a hw hvalid hr
    obtain ⟨hpos,hunused⟩ := hvalid hr
    exact ⟨fun c ret hinsert => hw.serves.agrees.table.insert ((nextCid_pos_iff s).mpr hpos)
      (hw.lookup_nextCid hunused) hinsert,hunused⟩
  obtain ⟨w,-,hw⟩ := served_of_runs answers_listed listed_htableInit henter h
  exact ⟨w,hw⟩

/-- Creating a pool leaves the id of the scheduler alone. -/
theorem schedId_cpCreate {totalsize : ℤ} {stacksize : ℕ} :
    (cpCreate s totalsize stacksize isasymmetric).schedId=s.schedId := by
  refine cpCreate_invariant (fun u => u.schedId=s.schedId) rfl rfl fun u p hu => ?_
  unfold cpAdd
  split
  · exact hu
  · exact hu

/-- Ending a coroutine leaves the id of the scheduler alone. -/
theorem schedId_released (h : Released s c t) : t.schedId=s.schedId := by
  rcases released_unregister h with rfl|⟨life,u,pools,-,hu,rfl⟩
  · rfl
  · obtain ⟨-,ret,map,-,rfl⟩ := unregister_ok hu
    rfl

/-- No step changes the id of the scheduler. -/
theorem schedId_moves {b : Bool} (h : Moves s b t) : t.schedId=s.schedId := by
  cases h with
  | nothing => rfl
  | create h =>
    obtain ⟨ret,map,-,rfl⟩ := register_ok h
    rfl
  | poolCreate => exact schedId_cpCreate
  | obtain hp hl h =>
    obtain ⟨ret,map,-,rfl⟩ := register_ok h
    rfl
  | exit _ h => exact schedId_released h
  | asymRelease _ h => exact schedId_released h

/-- The id of the scheduler is the one it was created with. -/
theorem schedId_of_runs {cond : Registry → Act → Prop} {schedId : ℕ}
    (h : Runs step cond (newScheduler schedId) s) : s.schedId=schedId :=
  h.invariant (fun u => u.schedId=schedId) rfl fun _ _ _ hi _ ha =>
    (schedId_moves (moves_of_step ha)).trans hi

/-- A call that hands out a cid gives it to its coroutine. -/
theorem subject_of_step (h : step s a=some (.ok t)) (hreg : registers s a=true) :
    ∃ c,subject s a=some c ∧ (t.co c).life=.live ∧ (t.co c).cid=s.nextCid := by
  have hregister : ∀ {u : Registry} {c : Co} {must : Bool},register u c must=.ok t →
      u.nextCid=s.nextCid → (t.co c).life=.live ∧ (t.co c).cid=s.nextCid := by
    intro u c must hu hcid
    obtain ⟨ret,map,-,rfl⟩ := register_ok hu
    have hself : (enroll u c map).co c={u.co c with life := .live,cid := u.nextCid,sched := true} :=
      Function.update_self ..
    rw [hself]
    exact ⟨rfl,hcid⟩
  cases a with
  | create isasymmetric =>
    have h : createCoro s isasymmetric=.ok t := Option.some.inj h
    exact ⟨_,rfl,hregister h rfl⟩
  | obtain p isasymmetric =>
    have h : cpObtain s p isasymmetric=.ok t := Option.some.inj h
    unfold cpObtain at h
    cases hp : s.pools p with
    | none => simp [registers,hp] at hreg
    | some cp =>
      have havailable : ¬cp.totalsize-cp.activenum≤0 := by simpa [registers,hp] using hreg
      simp only [hp,if_neg havailable] at h
      cases hl : cp.freelist with
      | nil =>
        rw [hl] at h
        cases h
      | cons c rest =>
        simp only [hl] at h
        exact ⟨c,by simp [subject,hp,hl],hregister h rfl⟩
  | poolCreate totalsize stacksize isasymmetric => cases hreg
  | exit c => cases hreg
  | asymFree cid => cases hreg
  | asymReturn cid => cases hreg

/-- A cid of the `n`-th scheduler is positive iff `n` is below 128 modulo 256, and not 0
there unless the generator is not. Where all cids are positive and none is that of a live
coroutine, every live coroutine is found under its own. -/
theorem cids_positive {n : ℕ}
    (h : Runs step (fun _ _ => True) (newScheduler (schedIdOf n)) s) :
    (∀ a t,registers s a=true → step s a=some (.ok t) → ∃ c,subject s a=some c ∧
      (t.co c).life=.live ∧
      (0<(t.co c).cid ↔ n%256<128 ∧ (n%256≠0 ∨ (s.cidGen+1)%2^24≠0))) ∧
    (Runs step Valid (newScheduler (schedIdOf n)) s → ∀ c,(s.co c).life=.live →
      0<(s.co c).cid ∧ htableFind s.cidCoMap (s.co c).cid=.ok (some c)) := by
  refine ⟨fun a t hreg ht => ?_,fun hvalid c hc => ?_⟩
  · obtain ⟨c,hsubject,hlive,hcid⟩ := subject_of_step ht hreg
    refine ⟨c,hsubject,hlive,?_⟩
    rw [hcid,nextCid_pos_iff,Positive,schedId_of_runs h,schedIdOf_mod]
  · obtain ⟨w,hw⟩ := served_of_valid hvalid
    have hfind := hw.find answers_listed hc
    refine ⟨hw.serves.agrees.table.positive _ (AList.lookup_isSome.mp ?_),hfind⟩
    rw [answers_listed.find hw.serves.agrees.table] at hfind
    rw [Except.ok.inj hfind]
    rfl

/-- Whether a step is valid, which the objects that were handed out tell. -/
def valid (s : Registry) (a : Act) : Bool :=
  !registers s a || s.schedId%256<128 && (s.schedId%256≠0 || (s.cidGen+1)%2^24≠0) &&
    (List.range s.nextCo).all fun d => (s.co d).life≠.live || (s.co d).cid≠s.nextCid

/-- The other objects are not live. -/
theorem valid_iff (h : ∀ c,(s.co c).life=.live → c<s.nextCo) : valid s a=true ↔ Valid s a := by
  have hobjects : (∀ d<s.nextCo,(s.co d).life≠.live ∨ (s.co d).cid≠s.nextCid) ↔
      ∀ d,(s.co d).life=.live → (s.co d).cid≠s.nextCid := by
    constructor
    · intro hall d hd
      exact (hall d (h d hd)).resolve_left fun hne => hne hd
    · intro hall d _
      exact (em ((s.co d).life=.live)).elim (fun hd => .inr (hall d hd)) .inl
  simp only [valid,Bool.or_eq_true,Bool.and_eq_true,Bool.not_eq_true',decide_eq_true_eq,
    List.all_eq_true,List.mem_range]
  rw [hobjects,Valid,Positive]
  cases registers s a <;> simp

/-- So a run may be checked step by step. -/
theorem runs_of_valid {schedId : ℕ}
    (h : Runs step (fun s a => valid s a=true) (newScheduler schedId) s) :
    Runs step Valid (newScheduler schedId) s := by
  induction h with
  | refl => exact .refl
  | tail _ hc ha ih =>
    obtain ⟨w,hw⟩ := served_of_valid ih
    exact ih.tail ((valid_iff fun _ => hw.lt_nextCo).mp hc) ha

/-- Two coroutines are created and a third one is obtained from a pool, of which the first
one exits, before a fourth one is created. -/
def fourNamed : List Act :=
  [.create false,.create true,.poolCreate 2 0 false,.obtain 0 false,.exit 0,.create false]

/-- The coroutines of the second scheduler that live after that. -/
theorem cids_positive_fourNamed : ∃ s,
    Runs step Valid (newScheduler (schedIdOf 2)) s ∧
    [0,1,3,4].map (fun c => (s.co c).life)=[.freed,.live,.live,.live] ∧
    [1,3,4].map (fun c => (s.co c).cid)=[33554434,33554435,33554436] ∧
    [33554434,33554435,33554436].map (htableFind s.cidCoMap)=[1,3,4].map fun c => .ok (some c) := by
  have hrun : ((replayWhile step (fun s a => valid s a=true) (newScheduler (schedIdOf 2))
      fourNamed).map fun s => ([0,1,3,4].map fun c => (s.co c).life,
        [1,3,4].map fun c => (s.co c).cid))=
      some ([.freed,.live,.live,.live],[33554434,33554435,33554436]) := by decide +kernel
  obtain ⟨s,hs,hq⟩ := Option.map_eq_some_iff.mp hrun
  simp only [Prod.mk.injEq] at hq
  have hvalid := runs_of_valid (runs_of_replayWhile hs)
  have hfound := (cids_positive (n := 2) (hvalid.mono fun _ _ _ => trivial)).2 hvalid
  refine ⟨s,hvalid,hq.1,hq.2,?_⟩
  obtain ⟨hlife,hcid⟩ := hq
  simp only [List.map_cons,List.map_nil,List.cons.injEq,and_true] at hlife hcid ⊢
  rw [← hcid.1,← hcid.2.1,← hcid.2.2]
  exact ⟨(hfound 1 hlife.2.1).2,(hfound 3 hlife.2.2.1).2,(hfound 4 hlife.2.2.2).2⟩

/-- The first coroutine of the 128th scheduler. -/
theorem first_cid_negative :
    ¬∀ (n : ℕ) (s t : Registry) (a : Act) (c : Co),
      Runs step (fun _ _ => True) (newScheduler (schedIdOf n)) s → registers s a=true →
      step s a=some (.ok t) → subject s a=some c → 0<(t.co c).cid := by
  intro hall
  have hrun : ((replay step (newScheduler (schedIdOf 128)) [.create false]).map fun s =>
      (s.co 0).cid)=some (-2147483647) := by decide +kernel
  obtain ⟨t,ht,hcid⟩ := Option.map_eq_some_iff.mp hrun
  have hpos := hall 128 _ t _ 0 .refl rfl (step_of_replay ht) rfl
  rw [hcid] at hpos
  exact absurd hpos (by decide)

end DycoCoroutine.CidValues
