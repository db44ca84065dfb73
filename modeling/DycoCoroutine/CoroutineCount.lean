import DycoCoroutine.PoolOwnership

/-!
# Counting and naming coroutines

A step enters at most one coroutine in the register or releases at most one. Both
keep `coro_count` exact as long as the cids of live coroutines differ and only
live coroutines are released; `cp_resize` and `cp_destroy` release idle ones. Cids
come from a generator of 24 bits, and differ as long as no coroutine stays alive
while the generator goes around.
-/

namespace DycoCoroutine.CoroutineCount

open ScheduleState RunInvariant EventFd SlottedMap CoroutinePool PoolOwnership

variable {w t : World} {s s' : Register} {a : Act} {p : ℕ} {cp : Pool} {c d : Co}
  {bound : ℕ → ℤ → List Co → Prop} {isasymmetric : Bool} {cid : ℤ}

/-- No live coroutine has the cid that is handed out next. -/
def Fresh (s : Register) : Prop := ∀ d,(s.co d).life=.live → (s.co d).cid≠s.nextCid

/-- What a step does to the register before it enters or releases a coroutine. -/
inductive Prepares (s : Register) : Register → Prop
  /-- A new object. -/
  | newcoro {r : Coro} (hr : r.life=.idle) (hpool : r.flagsIncoropool=true → r.cpool≠none) :
      Prepares s (newcoro s r)
  /-- A coroutine of a pool gets another status word. -/
  | renew {c : Co} {isasymmetric : Bool} (hpool : (s.co c).cpool≠none) :
      Prepares s (renew s c isasymmetric)

/-- Any number of preparations. -/
abbrev Prepared : Register → Register → Prop := Relation.ReflTransGen Prepares

/-- What a step does to the register, as long as only live coroutines are released
and the next cid is not that of a live one. -/
inductive Effect (s : Register) : Register → Prop
  /-- No coroutine is entered or released. -/
  | prepared {u : Register} (h : Prepared s u) : Effect s u
  /-- One object is entered. -/
  | registered {u : Register} {c : Co} (h : Prepared s u) (hc : (u.co c).life≠.live)
      (hlt : c<u.nextCo) (hfresh : Fresh s) : Effect s (register u c)
  /-- A live coroutine is released. -/
  | released {c : Co} {life : Life} {u : Register} (hc : (s.co c).life=.live)
      (hlife : life≠.live) (h : unregister s c life=.ok u) : Effect s u
  /-- A live coroutine is released, and its cid is deleted once more. -/
  | killed {c : Co} {life : Life} {u : Register} (hc : (s.co c).life=.live)
      (hlife : life≠.live) (h : unregister s c life=.ok u) :
      Effect s {u with cidCoMap := u.cidCoMap.erase (s.co c).cid}

/-- Preparations concern neither the generator nor the live coroutines. -/
theorem prepared_keeps (h : Prepared s s') : s'.nextCid=s.nextCid ∧
    ∀ d,(s'.co d).life=.live → (s.co d).life=.live ∧ (s'.co d).cid=(s.co d).cid := by
  induction h with
  | refl => exact ⟨rfl,fun d hd => ⟨hd,rfl⟩⟩
  | @tail u v _ hv ih =>
    have hstep : v.nextCid=u.nextCid ∧
        ∀ d,(v.co d).life=.live → (u.co d).life=.live ∧ (v.co d).cid=(u.co d).cid := by
      cases hv with
      | @newcoro r hr _ =>
        refine ⟨rfl,fun d hd => ?_⟩
        have hne : d≠u.nextCo := by
          rintro rfl
          cases hr.symm.trans ((congrArg Coro.life (Function.update_self ..)).symm.trans hd)
        rw [newcoro_co_of_ne hne] at hd ⊢
        exact ⟨hd,rfl⟩
      | @renew c _ _ =>
        refine ⟨rfl,fun d hd => ?_⟩
        by_cases hdc : d=c
        · subst hdc
          rw [renew_co_self] at hd ⊢
          exact ⟨hd,rfl⟩
        · rw [renew_co_of_ne hdc] at hd ⊢
          exact ⟨hd,rfl⟩
    refine ⟨hstep.1.trans ih.1,fun d hd => ?_⟩
    obtain ⟨hu,hcid⟩ := hstep.2 d hd
    exact ⟨(ih.2 d hu).1,hcid.trans (ih.2 d hu).2⟩

/-- Preparations concern neither the count nor the map. -/
theorem prepared_map (h : Prepared s s') :
    s'.coroCount=s.coroCount ∧ s'.cidCoMap=s.cidCoMap := by
  induction h with
  | refl => exact ⟨rfl,rfl⟩
  | tail _ hv ih =>
    cases hv with
    | newcoro => exact ih
    | renew => exact ih

/-- The next cid stays unused through preparations. -/
theorem Fresh.prepared (h : Fresh s) (hp : Prepared s s') : Fresh s' := by
  obtain ⟨hnext,hkeep⟩ := prepared_keeps hp
  intro d hd
  rw [hnext,(hkeep d hd).2]
  exact h d (hkeep d hd).1

/-- A coroutine that a step brings to life has the next cid, which no live
coroutine has. -/
theorem Effect.newborn (h : Effect s s') (hc : (s'.co c).life=.live)
    (hold : (s.co c).life≠.live) : (s'.co c).cid=s.nextCid ∧ Fresh s := by
  have hreleased : ∀ {e life u},life≠Life.live → unregister s e life=.ok u →
      (u.co c).life≠.live := by
    intro e life u hlife hu hlive
    by_cases hce : c=e
    · subst hce
      rw [unregister_co_self hu] at hlive
      exact hlife hlive
    · rw [unregister_co_of_ne hu hce] at hlive
      exact hold hlive
  cases h with
  | prepared h => exact absurd ((prepared_keeps h).2 c hc).1 hold
  | @registered u e h _ _ hfresh =>
    by_cases hce : c=e
    · subst hce
      refine ⟨?_,hfresh⟩
      rw [register_co_self]
      exact (prepared_keeps h).1
    · rw [register_co_of_ne hce] at hc
      exact absurd ((prepared_keeps h).2 c hc).1 hold
  | released _ hlife hu => exact absurd hc (hreleased hlife hu)
  | killed _ hlife hu =>
    have hno := hreleased hlife hu
    exact absurd hc hno

/-- The register is exact. -/
structure Exact (s : Register) : Prop where
  /-- A live coroutine is registered under its cid. -/
  live : ∀ c,(s.co c).life=.live → s.cidCoMap.lookup (s.co c).cid=some c
  /-- The count is the number of entries. -/
  count : s.coroCount.toNat=s.cidCoMap.keys.length
  /-- The entries are cids of this scheduler. -/
  ids : ∀ k∈s.cidCoMap.keys,∃ g<2^24,k=cidOf s.schedId g
  /-- A coroutine marked as one of a pool has a pool. -/
  pooled : ∀ c,(s.co c).flagsIncoropool=true → (s.co c).cpool≠none

/-- There are no more entries than cids. -/
theorem Exact.keys_le (h : Exact s) : s.cidCoMap.keys.length≤2^24 := by
  have hsub : s.cidCoMap.keys⊆(List.range (2^24)).map (cidOf s.schedId) := by
    intro k hk
    obtain ⟨g,hg,rfl⟩ := h.ids k hk
    exact List.mem_map_of_mem (List.mem_range.mpr hg)
  have hle := (List.subperm_of_subset s.cidCoMap.nodupKeys hsub).length_le
  rwa [List.length_map,List.length_range] at hle

/-- The next cid is not registered if no live coroutine has it. -/
theorem lookup_nextCid (hs : Sound s) (hfresh : Fresh s) :
    s.cidCoMap.lookup s.nextCid=none := by
  cases hk : s.cidCoMap.lookup s.nextCid with
  | none => rfl
  | some d =>
    obtain ⟨hlive,hcid⟩ := hs.entries _ d hk
    exact absurd hcid (hfresh d hlive)

/-- A new object is not counted yet. -/
theorem Exact.newcoro {r : Coro} (h : Exact s) (hr : r.life=.idle)
    (hpool : r.flagsIncoropool=true → r.cpool≠none) : Exact (newcoro s r) := by
  have hnew : (CoroutinePool.newcoro s r).co s.nextCo=r := Function.update_self ..
  refine ⟨fun c hc => ?_,h.count,h.ids,fun c hc => ?_⟩
  · have hne : c≠s.nextCo := by
      rintro rfl
      rw [hnew,hr] at hc
      cases hc
    rw [newcoro_co_of_ne hne] at hc ⊢
    exact h.live c hc
  · by_cases hne : c=s.nextCo
    · subst hne
      rw [hnew] at hc ⊢
      exact hpool hc
    · rw [newcoro_co_of_ne hne] at hc ⊢
      exact h.pooled c hc

/-- A renewed object is counted as before. -/
theorem Exact.renew (h : Exact s) (hpool : (s.co c).cpool≠none) :
    Exact (renew s c isasymmetric) := by
  refine ⟨fun d hd => ?_,h.count,h.ids,fun d hd => ?_⟩
  · by_cases hdc : d=c
    · subst hdc
      rw [renew_co_self] at hd ⊢
      exact h.live d hd
    · rw [renew_co_of_ne hdc] at hd ⊢
      exact h.live d hd
  · by_cases hdc : d=c
    · subst hdc
      rw [renew_co_self]
      exact hpool
    · rw [renew_co_of_ne hdc] at hd ⊢
      exact h.pooled d hd

/-- Entering an object under an unused cid adds one to the count, to the live ones and
to the map. -/
theorem Exact.register (h : Exact s) (hs : Sound s) (hfresh : Fresh s) :
    Exact (register s c) := by
  have hnone := lookup_nextCid hs hfresh
  have hkey : s.nextCid∉s.cidCoMap.keys := AList.lookup_eq_none.mp hnone
  have hkeys : (enter cidSlot s.nextCid c s.cidCoMap).keys.Perm (s.nextCid::s.cidCoMap.keys) := by
    refine (keys_enter ..).trans ?_
    rw [AList.keys_insert,List.erase_of_not_mem hkey]
  refine ⟨fun d hd => ?_,?_,fun k hk => ?_,fun d hd => ?_⟩
  · by_cases hdc : d=c
    · subst hdc
      rw [register_co_self]
      exact (lookup_enter ..).trans (if_pos rfl)
    · rw [register_co_of_ne hdc] at hd ⊢
      exact ((lookup_enter ..).trans (if_neg (hfresh d hd))).trans (h.live d hd)
  · show (s.coroCount+1).toNat=(enter cidSlot s.nextCid c s.cidCoMap).keys.length
    have hle := h.keys_le
    rw [hkeys.length_eq,List.length_cons,UInt32.toNat_add,h.count]
    exact Nat.mod_eq_of_lt (by show _+1<2^32; omega)
  · have hk' : k∈s.nextCid::s.cidCoMap.keys := hkeys.mem_iff.mp hk
    rcases List.mem_cons.mp hk' with rfl|hk'
    · exact ⟨(s.cidGen+1)%2^24,Nat.mod_lt _ (by decide),rfl⟩
    · exact h.ids k hk'
  · by_cases hdc : d=c
    · subst hdc
      rw [register_co_self] at hd ⊢
      exact h.pooled d hd
    · rw [register_co_of_ne hdc] at hd ⊢
      exact h.pooled d hd

/-- Releasing a live coroutine takes one from all three. -/
theorem Exact.unregister {life : Life} (h : Exact s) (hc : (s.co c).life=.live)
    (hlife : life≠.live) (ht : unregister s c life=.ok s') : Exact s' := by
  have hs' := (unregister_ok ht).2.2
  have hkey : (s.co c).cid∈s.cidCoMap.keys := by
    rw [← AList.mem_keys,← AList.lookup_isSome,h.live c hc]
    rfl
  refine ⟨fun d hd => ?_,?_,fun k hk => ?_,fun d hd => ?_⟩
  · have hdc : d≠c := by
      rintro rfl
      rw [unregister_co_self ht] at hd
      exact hlife hd
    rw [unregister_co_of_ne ht hdc] at hd ⊢
    have hold := h.live d hd
    have hne : (s.co d).cid≠(s.co c).cid := by
      intro he
      rw [he,h.live c hc] at hold
      exact hdc (Option.some.inj hold).symm
    rw [hs']
    exact (AList.lookup_erase_ne hne).trans hold
  · rw [hs']
    show (s.coroCount-1).toNat=(s.cidCoMap.erase (s.co c).cid).keys.length
    have hpos := List.length_pos_of_mem hkey
    have hone : (1 : UInt32) ≤ s.coroCount := by
      rw [UInt32.le_iff_toNat_le,h.count]
      exact hpos
    rw [AList.keys_erase,List.length_erase_of_mem hkey,UInt32.toNat_sub_of_le _ _ hone,h.count]
    rfl
  · rw [hs'] at hk ⊢
    have hk' : k∈s.cidCoMap.keys.erase (s.co c).cid := AList.keys_erase _ s.cidCoMap ▸ hk
    exact h.ids k (List.mem_of_mem_erase hk')
  · by_cases hdc : d=c
    · subst hdc
      rw [unregister_co_self ht] at hd ⊢
      exact h.pooled d hd
    · rw [unregister_co_of_ne ht hdc] at hd ⊢
      exact h.pooled d hd

/-- Deleting a cid that is not in the map changes nothing. -/
theorem Exact.forget {k : ℤ} (h : Exact s) (hk : s.cidCoMap.lookup k=none) :
    Exact {s with cidCoMap := s.cidCoMap.erase k} := by
  have hkey : k∉s.cidCoMap.keys := AList.lookup_eq_none.mp hk
  have hkeys : (s.cidCoMap.erase k).keys=s.cidCoMap.keys := by
    rw [AList.keys_erase,List.erase_of_not_mem hkey]
  refine ⟨fun c hc => ?_,?_,fun x hx => ?_,h.pooled⟩
  · have hold := h.live c hc
    have hne : (s.co c).cid≠k := by
      intro he
      rw [he,hk] at hold
      cases hold
    exact (AList.lookup_erase_ne hne).trans hold
  · show s.coroCount.toNat=(s.cidCoMap.erase k).keys.length
    rw [hkeys]
    exact h.count
  · exact h.ids x (hkeys ▸ hx)

/-- Preparations keep the count exact. -/
theorem exact_of_prepared (h : Exact s) (hs : Sound s) (hp : Prepared s s') :
    Exact s' ∧ Sound s' := by
  induction hp with
  | refl => exact ⟨h,hs⟩
  | tail _ hv ih =>
    cases hv with
    | newcoro hr hpool => exact ⟨ih.1.newcoro hr hpool,ih.2.newcoro hr⟩
    | renew hpool => exact ⟨ih.1.renew hpool,ih.2.renew⟩

/-- Every step keeps the register exact. -/
theorem Exact.effect (h : Exact s) (hs : Sound s) (he : Effect s s') : Exact s' := by
  cases he with
  | prepared hp => exact (exact_of_prepared h hs hp).1
  | registered hp hc hlt hfresh =>
    obtain ⟨hexact,hsound⟩ := exact_of_prepared h hs hp
    exact hexact.register hsound (hfresh.prepared hp)
  | released hc hlife hu => exact h.unregister hc hlife hu
  | killed hc hlife hu =>
    refine (h.unregister hc hlife hu).forget ?_
    rw [(unregister_ok hu).2.2]
    exact AList.lookup_erase _ _

/-- `Fresh` as a test. -/
def freshCid (s : Register) : Bool :=
  (List.range s.nextCo).all fun c => (s.co c).life≠.live || (s.co c).cid≠s.nextCid

/-- A live object was handed out by the allocator. -/
theorem lt_nextCo (hs : Sound s) (hc : (s.co c).life=.live) : c<s.nextCo :=
  Nat.lt_of_not_le fun hge => by
    rw [(hs.fresh c hge).1] at hc
    cases hc

/-- The test on the objects that exist is enough: the others are not live. -/
theorem fresh_of_freshCid (hs : Sound s) (h : freshCid s=true) : Fresh s := by
  intro c hc
  have hall := List.all_eq_true.mp h c (List.mem_range.mpr (lt_nextCo hs hc))
  simpa [hc] using hall

/-- Whether a step hands out a cid. -/
def registers (w : World) : Act → Bool
  | .create => true
  | .createUrgent => true
  | .asymCreate => true
  | .obtain _ _ p _ _ _ _ => (w.pools p).any fun cp => 0<cp.totalsize-cp.activenum
  | .resume caller => (w.blocked.find? fun v => v.caller=caller).any fun v =>
    (w.pools v.pool).any fun cp => 0<cp.totalsize-cp.activenum
  | _ => false

/-- A step hands out no cid of a live coroutine. -/
def distinctCids (w : World) (a : Act) : Bool := !registers w a || freshCid w.reg

/-- The release of these idle coroutines leaves the register alone. `cp_resize` and
`cp_destroy` pass the cids of a symmetric pool to `dyco_asymcoro_free`, which does
nothing where no asymmetric coroutine is registered. -/
def releasesNothing (s : Register) (isasymmetric : Bool) (idle : List Co) : Bool :=
  idle.isEmpty || !isasymmetric && idle.all fun c =>
    (s.cidCoMap.lookup (s.co c).cid).all fun d => !(s.co d).flagsAsymmetric

/-- A pool is not resized or destroyed so that idle coroutines are released through the
register. -/
def releasesNoIdle (w : World) : Act → Bool
  | .resize p newsize isasymmetric => (w.pools p).all fun cp => cp.totalsize≤newsize ||
    releasesNothing w.reg isasymmetric (cp.freelist.take (dropCount cp newsize))
  | .destroy p isasymmetric => (w.pools p).all fun cp => cp.activenum≠0 ||
    releasesNothing w.reg isasymmetric (cp.freelist.take cp.totalsize.toNat)
  | _ => true

/-- `dyco_coroutine_create` makes an object and enters it. -/
theorem effect_createCoro (hfresh : Fresh s) : Effect s (createCoro s isasymmetric) := by
  refine .registered (.single (.newcoro rfl (by simp [newRecord]))) ?_ (Nat.lt_succ_self _) hfresh
  simp [newcoro,newRecord]

/-- The loop of `cp_create` only prepares. -/
theorem prepared_cpFill (n : ℕ) (s : Register) (cp : Pool) :
    Prepared s (cpFill p isasymmetric n s cp).1 := by
  induction n generalizing s cp with
  | zero => exact .refl
  | succ n ih => exact .head (.newcoro rfl (by simp)) (ih _ _)

/-- A round of growing only prepares. -/
theorem prepared_cpGrow (ht : cpGrow p isasymmetric w=.ok t) : Prepared w.reg t.reg := by
  unfold cpGrow at ht
  split at ht
  · cases ht
  · obtain ⟨_,hreg,-⟩ := notifyFirst_ok ht
    rw [hreg]
    exact .single (.newcoro rfl (by simp))

/-- An idle coroutine of a pool is taken and registered. -/
theorem effect_cpTake {caller : Co} {timeout : ℤ} (h : Owned bound w) (hp : w.pools p=some cp)
    (hfresh : Fresh w.reg) (ht : cpTake w caller p cp timeout isasymmetric=.ok t) :
    Effect w.reg t.reg := by
  unfold cpTake at ht
  split at ht
  · cases ht
  next c rest hfree =>
    cases ht
    obtain ⟨hidle,hcpool⟩ := (h.stocked p cp hp).idle c (by rw [hfree]; exact List.mem_cons_self)
    have hlt : c<w.reg.nextCo := Nat.lt_of_not_le fun hge => by
      rw [(h.sound.fresh c hge).1] at hidle
      cases hidle
    refine .registered (.single (.renew (by rw [hcpool]; simp))) ?_ hlt hfresh
    rw [renew_co_self]
    simp [hidle]

/-- The second half of `cp_obtain` renews an object and enters it, or leaves the
register alone. -/
theorem effect_cpObtainRest {caller : Co} {timeout : ℤ}
    (ht : cpObtainRest w caller p cp timeout isasymmetric=.ok t) (h : Owned bound w)
    (hp : w.pools p=some cp)
    (hfresh : 0<cp.totalsize-cp.activenum → Fresh w.reg) : Effect w.reg t.reg := by
  unfold cpObtainRest at ht
  split_ifs at ht with hnone
  · cases ht
    exact .prepared .refl
  · exact effect_cpTake h hp (hfresh (not_le.mp hnone)) ht

/-- `cp_obtain` enters at most one object. -/
theorem effect_cpObtain {caller : Co} {context : Context} {timeout fd : ℤ} {allocated : Bool}
    (ht : cpObtain w caller context p timeout isasymmetric fd allocated=.ok t) (h : Owned bound w)
    (hfresh : ∀ cp,w.pools p=some cp → 0<cp.totalsize-cp.activenum → Fresh w.reg) :
    Effect w.reg t.reg := by
  unfold cpObtain at ht
  split at ht
  · cases ht
  next cp hp =>
    split_ifs at ht
    · exact effect_cpObtainRest ht h hp (hfresh cp hp)
    · cases ht
      exact .prepared .refl
    · cases ht
      exact .prepared .refl

/-- A resumed waiter enters at most one object. -/
theorem effect_afterYield {v : Waiter} (ht : afterYield w v=.ok t) (h : Owned bound w)
    (hfresh : ∀ cp,w.pools v.pool=some cp → 0<cp.totalsize-cp.activenum → Fresh w.reg) :
    Effect w.reg t.reg := by
  unfold afterYield at ht
  split at ht
  · cases ht
  next cp hp =>
    dsimp only at ht
    split_ifs at ht
    · have hm := effect_cpObtainRest ht (h.congr rfl rfl rfl) hp (hfresh cp hp)
      exact hm
    · have hm := effect_cpObtainRest ht
        (h.setSublist (l := cp.sublist.erase v.notifyfd) hp rfl rfl rfl) (putPool_self ..)
        (hfresh cp hp)
      exact hm

/-- A coroutine leaves the register for its pool. -/
theorem cpReturn_unregisters (hpool : (w.reg.co c).cpool≠none) (ht : cpReturn w c=.ok t) :
    unregister w.reg c .idle=.ok t.reg := by
  unfold cpReturn at ht
  split at ht
  next hnone => exact absurd hnone hpool
  next p _ =>
    split at ht
    · cases ht
    · obtain ⟨reg,hreg,ht⟩ := bind_eq_ok ht
      obtain ⟨_,htreg,-⟩ := notifyFirst_ok ht
      rw [htreg]
      exact hreg

/-- `cp_return` on a live coroutine releases it. -/
theorem effect_cpReturn (hc : (w.reg.co c).life=.live) (ht : cpReturn w c=.ok t) :
    Effect w.reg t.reg := by
  by_cases hpool : (w.reg.co c).cpool=none
  · simp only [cpReturn,hpool] at ht
    cases ht
    exact .prepared .refl
  · exact .released hc (by decide) (cpReturn_unregisters hpool ht)

/-- `dyco_asymcpool_return` releases at most one live coroutine. -/
theorem effect_dycoAsymcpoolReturn (hs : Sound w.reg) (ht : dycoAsymcpoolReturn w cid=.ok t) :
    Effect w.reg t.reg := by
  unfold dycoAsymcpoolReturn at ht
  split at ht
  · cases ht
    exact .prepared .refl
  next c hc => exact effect_cpReturn (hs.entries _ c hc).1 ht

/-- `coro_abort` takes a live coroutine out of the register, once. -/
theorem coroAbort_unregisters (h : Exact w.reg) (hc : (w.reg.co c).life=.live)
    (ht : coroAbort w c=.ok t) : ∃ life≠Life.live,unregister w.reg c life=.ok t.reg := by
  have hlookup := h.live c hc
  unfold coroAbort at ht
  split_ifs at ht with hin hasym hasym
  · simp only [dycoAsymcpoolReturn,hlookup] at ht
    exact ⟨.idle,by decide,cpReturn_unregisters (h.pooled c hin) ht⟩
  · exact ⟨.idle,by decide,cpReturn_unregisters (h.pooled c hin) ht⟩
  · obtain ⟨reg,hreg,rfl⟩ := map_eq_ok ht
    simp only [dycoAsymcoroFree,hlookup,hasym,if_true] at hreg
    exact ⟨.freed,by decide,hreg⟩
  · obtain ⟨reg,hreg,rfl⟩ := map_eq_ok ht
    exact ⟨.freed,by decide,hreg⟩

/-- The second deletion of a killed coroutine's cid finds nothing. -/
theorem effect_resumeKilled (h : Exact w.reg) (hc : (w.reg.co c).life=.live)
    (ht : resumeKilled w c=.ok t) : Effect w.reg t.reg := by
  simp only [resumeKilled,h.live c hc] at ht
  split_ifs at ht
  obtain ⟨u,hu,rfl⟩ := map_eq_ok ht
  obtain ⟨life,hlife,hun⟩ := coroAbort_unregisters h hc hu
  exact .killed hc hlife hun

/-- An exited coroutine is released. -/
theorem effect_resumeExited (hc : (w.reg.co c).life=.live) (ht : resumeExited w c=.ok t) :
    Effect w.reg t.reg := by
  unfold resumeExited at ht
  split_ifs at ht
  · exact effect_cpReturn hc ht
  · obtain ⟨reg,hreg,rfl⟩ := map_eq_ok ht
    exact .released hc (by decide) hreg

/-- `dyco_asymcoro_free` releases at most one live coroutine. -/
theorem effect_dycoAsymcoroFree (hs : Sound s) (ht : dycoAsymcoroFree s cid=.ok s') :
    Effect s s' := by
  rcases dycoAsymcoroFree_ok ht with rfl|⟨c,hc,hreg⟩
  · exact .prepared .refl
  · exact .released (hs.entries _ c hc).1 (by decide) hreg

/-- The loops of `cp_resize` and `cp_destroy` then leave the register alone. -/
theorem times_cpDrop_reg {n : ℕ} (hp : w.pools p=some cp)
    (hidle : releasesNothing w.reg isasymmetric (cp.freelist.take n)=true)
    (ht : times (cpDrop p isasymmetric) n w=.ok t) : t.reg=w.reg := by
  induction n generalizing w cp with
  | zero =>
    cases ht
    rfl
  | succ n ih =>
    obtain ⟨u,hu,ht⟩ := bind_eq_ok ht
    simp only [cpDrop,hp] at hu
    split at hu
    · cases hu
    next c rest hfree =>
      obtain ⟨reg,hreg,hu⟩ := bind_eq_ok hu
      cases hu
      rw [hfree,List.take_succ_cons] at hidle
      simp only [releasesNothing,List.isEmpty_cons,Bool.false_or,Bool.and_eq_true,Bool.not_eq_true',
        List.all_cons] at hidle
      obtain ⟨rfl,hc,hrest⟩ := hidle
      have hsame : reg=w.reg := by
        simp only [Bool.false_eq_true,if_false,dycoAsymcoroFree] at hreg
        split at hreg
        · exact (Except.ok.inj hreg).symm
        next d hd =>
          rw [hd,Option.all_some,Bool.not_eq_true'] at hc
          rw [hc] at hreg
          exact (Except.ok.inj hreg).symm
      subst hsame
      have hrest' : releasesNothing w.reg false (rest.take n)=true :=
        Bool.or_eq_true_iff.mpr (.inr hrest)
      have hreg' := ih (w := putPool w p (takeFirst w.reg cp c rest)) (putPool_self ..)
        (by rwa [takeFirst_freelist]) ht
      exact hreg'

/-- A resize that releases no idle coroutine only makes objects. -/
theorem prepared_cpResize {newsize : ℤ}
    (hc : releasesNoIdle w (.resize p newsize isasymmetric)=true)
    (ht : cpResize w p newsize isasymmetric=.ok t) : Prepared w.reg t.reg := by
  unfold cpResize at ht
  split at ht
  · cases ht
  next cp hp =>
    split_ifs at ht with hsame hgrow
    · cases ht
      exact .refl
    · obtain ⟨u,hu,rfl⟩ := map_eq_ok ht
      exact times_invariant (fun _ b => Prepared w.reg b.reg)
        (fun _ _ _ hb hf => hb.trans (prepared_cpGrow hf)) (i := 0) .refl hu
    · obtain ⟨u,hu,rfl⟩ := map_eq_ok ht
      have hnone : cp.totalsize≤newsize ∨
          releasesNothing w.reg isasymmetric (cp.freelist.take (dropCount cp newsize))=true := by
        simpa [releasesNoIdle,hp] using hc
      have hreg : u.reg=w.reg := times_cpDrop_reg hp (hnone.resolve_left (by omega)) hu
      show Prepared w.reg u.reg
      rw [hreg]

/-- A destroyed pool without idle objects releases nothing. -/
theorem prepared_cpDestroy (hc : releasesNoIdle w (.destroy p isasymmetric)=true)
    (ht : cpDestroy w p isasymmetric=.ok t) : Prepared w.reg t.reg := by
  unfold cpDestroy at ht
  split at ht
  · cases ht
  next cp hp =>
    split_ifs at ht with hactive
    · cases ht
      exact .refl
    · obtain ⟨u,hu,rfl⟩ := map_eq_ok ht
      have hnone : cp.activenum≠0 ∨
          releasesNothing w.reg isasymmetric (cp.freelist.take cp.totalsize.toNat)=true := by
        simpa [releasesNoIdle,hp] using hc
      have hreg : u.reg=w.reg := times_cpDrop_reg hp (hnone.resolve_left hactive) hu
      show Prepared w.reg u.reg
      rw [hreg]

/-- Every step that releases no idle coroutine and hands out no cid of a live one
has such an effect. -/
theorem effect_of_step (h : Owned bound w) (he : Exact w.reg)
    (hfresh : registers w a=true → Fresh w.reg)
    (hidle : releasesNoIdle w a=true) (ha : step w a=some (.ok t)) : Effect w.reg t.reg := by
  cases happens_of_step ha with
  | create => exact effect_createCoro (hfresh rfl)
  | createUrgent => exact effect_createCoro (hfresh rfl)
  | asymCreate => exact effect_createCoro (hfresh rfl)
  | exit hactive ht => exact effect_resumeExited hactive.1 ht
  | abort hactive ht => exact effect_resumeKilled he hactive.1 ht
  | asymFree ht =>
    obtain ⟨reg,hreg,rfl⟩ := map_eq_ok ht
    exact effect_dycoAsymcoroFree h.sound hreg
  | poolCreate =>
    unfold cpCreate
    split_ifs
    · exact .prepared .refl
    · exact .prepared (prepared_cpFill ..)
  | obtain _ _ ht =>
    refine effect_cpObtain ht h fun cp hp hpos => hfresh ?_
    simp [registers,hp,sub_pos.mp hpos]
  | resume hv ht =>
    refine effect_afterYield ht h fun cp hp hpos => hfresh ?_
    simp [registers,hv,hp,sub_pos.mp hpos]
  | asymReturn ht => exact effect_dycoAsymcpoolReturn h.sound ht
  | resize ht => exact .prepared (prepared_cpResize hidle ht)
  | destroy ht => exact .prepared (prepared_cpDestroy hidle ht)
  | openOther => exact .prepared .refl
  | closeOther => exact .prepared .refl

/-- A new scheduler counts 0 and has an empty map. -/
theorem exact_newScheduler (schedId : ℕ) : Exact (newScheduler schedId).reg := by
  refine ⟨?_,?_,?_,?_⟩ <;> simp [newScheduler]

/-- The register is exact in every run that releases no idle coroutine and in which
`cond` keeps the cids apart. -/
theorem exact_of_runs {schedId : ℕ} {cond : World → Act → Prop} (inv : Register → Prop)
    (h : Runs step (fun w a => cond w a ∧ releasesNoIdle w a=true) (newScheduler schedId) w)
    (hnew : inv (newScheduler schedId).reg)
    (hfresh : ∀ w a,Sound w.reg → inv w.reg → cond w a → registers w a=true → Fresh w.reg)
    (heffect : ∀ s s',inv s → Effect s s' → inv s') : Exact w.reg ∧ inv w.reg := by
  refine (h.invariant (fun w => Owned (fun _ x _ => 0≤x) w ∧ Exact w.reg ∧ inv w.reg)
    ⟨owned_newScheduler schedId,exact_newScheduler schedId,hnew⟩ ?_).2
  intro w a t ⟨ho,hexact,hinv⟩ hc ha
  have he := effect_of_step ho hexact (hfresh w a ho.sound hinv hc.1) hc.2 ha
  exact ⟨ho.step_nonneg ha,hexact.effect ho.sound he,heffect _ _ hinv he⟩

/-- The live coroutines. -/
def liveCoros (s : Register) : Finset Co :=
  (Finset.range s.nextCo).filter fun c => (s.co c).life=.live

/-- The entries of `cid_co_map` are the live coroutines. -/
theorem Exact.card_liveCoros (h : Exact s) (hs : Sound s) :
    (liveCoros s).card=s.cidCoMap.keys.length := by
  have hmem : ∀ {c},c∈liveCoros s ↔ (s.co c).life=.live := by
    intro c
    rw [liveCoros,Finset.mem_filter,Finset.mem_range]
    exact ⟨fun hc => hc.2,fun hc => ⟨lt_nextCo hs hc,hc⟩⟩
  rw [← List.toFinset_card_of_nodup (AList.keys_nodup _)]
  refine Finset.card_nbij (fun c => (s.co c).cid) (fun c hc => ?_) (fun c hc d hd he => ?_)
    (fun k hk => ?_)
  · have hc' := h.live c (hmem.mp hc)
    refine List.mem_toFinset.mpr ?_
    exact AList.mem_keys.mp (AList.lookup_isSome.mp (by rw [hc']; rfl))
  · have hc' := h.live c (hmem.mp hc)
    have hd' := h.live d (hmem.mp hd)
    have he' : (s.co c).cid=(s.co d).cid := he
    rw [he'] at hc'
    exact Option.some.inj (hc'.symm.trans hd')
  · have hk' := AList.lookup_isSome.mpr (AList.mem_keys.mpr (List.mem_toFinset.mp hk))
    obtain ⟨c,hc⟩ := Option.isSome_iff_exists.mp hk'
    obtain ⟨hlive,hcid⟩ := hs.entries k c hc
    exact ⟨c,hmem.mpr hlive,hcid⟩

/-- `cid_co_map` stays the finite map of its entries: it is not given the cid -1 and not
resized, and nothing hangs behind the node of a coroutine that is killed. -/
def tablePlain (w : World) (a : Act) : Bool :=
  (!registers w a || w.reg.nextCid≠ -1 && hasRoom w.reg.cidCoMap) &&
  match a with
  | .abort c => !heads cidSlot w.reg.cidCoMap (w.reg.co c).cid
  | _ => true

/-- In every run in which live cids are distinct and no idle coroutine is released,
`coro_count` is the number of entries of `cid_co_map`, which are the live
coroutines; these can be released through their `sched`, and resizing or
destroying a pool without releasing idle coroutines leaves count and map alone. -/
theorem coro_count_exact {schedId : ℕ}
    (h : Runs step
      (fun w a => distinctCids w a=true ∧ releasesNoIdle w a=true ∧ tablePlain w a=true)
      (newScheduler schedId) w) :
    w.reg.coroCount.toNat=w.reg.cidCoMap.keys.length ∧
    w.reg.coroCount.toNat=(liveCoros w.reg).card ∧
    (∀ c,(w.reg.co c).life=.live → w.reg.cidCoMap.lookup (w.reg.co c).cid=some c ∧
      (w.reg.co c).sched=true) ∧
    ∀ (a : Act) (t : World),(∃ p newsize isasymmetric,a=.resize p newsize isasymmetric) ∨
      (∃ p isasymmetric,a=.destroy p isasymmetric) → releasesNoIdle w a=true →
      step w a=some (.ok t) →
      t.reg.coroCount=w.reg.coroCount ∧ t.reg.cidCoMap=w.reg.cidCoMap := by
  have hsound := (owned_of_runs h).sound
  obtain ⟨hexact,-⟩ := exact_of_runs (fun _ => True) (h.mono fun _ _ hc => ⟨hc.1,hc.2.1⟩) trivial
    (fun w a hs _ hc hr => fresh_of_freshCid hs (by simpa [distinctCids,hr] using hc))
    (fun _ _ _ _ => trivial)
  refine ⟨hexact.count,hexact.count.trans (hexact.card_liveCoros hsound).symm,
    fun c hc => ⟨hexact.live c hc,hsound.sched c hc⟩,fun a t hcase hidle ha => ?_⟩
  rcases hcase with ⟨p,newsize,isasymmetric,rfl⟩|⟨p,isasymmetric,rfl⟩
  · exact prepared_map (prepared_cpResize hidle (Option.some.inj ha))
  · exact prepared_map (prepared_cpDestroy hidle (Option.some.inj ha))

/-- A coroutine is obtained and returned; then its pool is destroyed. -/
def destroyIdle : List Act :=
  [.poolCreate 1 true,.obtain 0 .outside 0 0 true 5 true,.asymReturn 16777217,.destroy 0 true]

/-- The count of an empty register wraps around; a coroutine that was never
obtained is released through an unset `sched`. -/
theorem idle_release_breaks_count :
    (∃ w,Runs step (fun w a => distinctCids w a=true) (newScheduler 1) w ∧
      w.reg.cidCoMap.keys=[] ∧ liveCoros w.reg=∅ ∧ w.reg.coroCount=4294967295) ∧
    ∃ w,Runs step (fun w a => distinctCids w a=true) (newScheduler 1) w ∧
      step w (.destroy 0 true)=some (.error .undefined) := by
  refine ⟨?_,cpCreate (newScheduler 1) 1 true,.tail (.refl) rfl (a := .poolCreate 1 true) rfl,rfl⟩
  have h : (replayWhile step (fun w a => distinctCids w a=true) (newScheduler 1) destroyIdle).map
      (fun w => (w.reg.cidCoMap.keys,liveCoros w.reg,w.reg.coroCount))=some ([],∅,4294967295) := by
    decide +kernel
  obtain ⟨w,hw,hq⟩ := Option.map_eq_some_iff.mp h
  simp only [Prod.mk.injEq] at hq
  exact ⟨w,runs_of_replayWhile hw,hq⟩

/-- Coroutines of every kind come and go; the pool grows, and `cp_destroy` refuses
while one is in use. -/
def mixedUse : List Act :=
  [.create,.asymCreate,.poolCreate 2 true,.obtain 0 .outside 0 0 true 5 true,.resize 0 3 true,
    .destroy 0 true,.createUrgent,.exit 0,.asymReturn 16777219,.abort 5]

/-- Coroutines with and without a pool come and go, and one is left. -/
theorem coro_count_exact_mixedUse :
    ∃ w,replayWhile step
      (fun w a => distinctCids w a=true ∧ releasesNoIdle w a=true ∧ tablePlain w a=true)
      (newScheduler 1) mixedUse=some w ∧ w.reg.coroCount=1 ∧ (liveCoros w.reg).card=1 ∧
      w.reg.cidCoMap.keys.length=1 := by
  have h : (replayWhile step
      (fun w a => distinctCids w a=true ∧ releasesNoIdle w a=true ∧ tablePlain w a=true)
      (newScheduler 1) mixedUse).map (fun w => w.reg.coroCount)=some 1 := by decide +kernel
  obtain ⟨w,hw,hq⟩ := Option.map_eq_some_iff.mp h
  obtain ⟨hmap,hlive,-⟩ := coro_count_exact (runs_of_replayWhile hw)
  rw [hq] at hmap hlive
  exact ⟨w,hw,hq,hlive.symm,hmap.symm⟩

/-- Every live coroutine got its cid from the generator, which counts modulo
`2^24`. -/
structure Aged (s : Register) : Prop where
  /-- The generator counts the cids handed out. -/
  gen : s.cidGen=s.handedOut%2^24
  /-- The cid of a live coroutine, and its place in the order. -/
  cid : ∀ c,(s.co c).life=.live → (s.co c).cid=cidOf s.schedId (s.bornAt c%2^24) ∧
    s.bornAt c ≤ s.handedOut

/-- The next cid in the order of all. -/
theorem Aged.nextCid_eq (h : Aged s) : s.nextCid=cidOf s.schedId ((s.handedOut+1)%2^24) := by
  rw [Register.nextCid,h.gen,Nat.mod_add_mod]

/-- Preparations hand out no cid. -/
theorem Aged.prepared (h : Aged s) (hp : Prepared s s') : Aged s' := by
  induction hp with
  | refl => exact h
  | @tail u v _ hv ih =>
    have hkeep := (prepared_keeps (.single hv)).2
    have hsame : v.cidGen=u.cidGen ∧ v.handedOut=u.handedOut ∧ v.bornAt=u.bornAt ∧
        v.schedId=u.schedId := by
      cases hv with
      | newcoro => exact ⟨rfl,rfl,rfl,rfl⟩
      | renew => exact ⟨rfl,rfl,rfl,rfl⟩
    obtain ⟨hgen,hout,hborn,hid⟩ := hsame
    refine ⟨by rw [hgen,hout]; exact ih.gen,fun c hc => ?_⟩
    obtain ⟨hlive,hcid⟩ := hkeep c hc
    rw [hcid,hborn,hout,hid]
    exact ih.cid c hlive

/-- An entered coroutine gets the youngest cid. -/
theorem Aged.register (h : Aged s) : Aged (register s c) := by
  refine ⟨?_,fun d hd => ?_⟩
  · show (s.cidGen+1)%2^24=(s.handedOut+1)%2^24
    rw [h.gen,Nat.mod_add_mod]
  · show ((CoroutinePool.register s c).co d).cid=
        cidOf s.schedId (Function.update s.bornAt c (s.handedOut+1) d%2^24) ∧
      Function.update s.bornAt c (s.handedOut+1) d ≤ s.handedOut+1
    by_cases hdc : d=c
    · subst hdc
      rw [register_co_self,Function.update_self]
      exact ⟨h.nextCid_eq,le_rfl⟩
    · rw [register_co_of_ne hdc] at hd ⊢
      rw [Function.update_of_ne hdc]
      exact ⟨(h.cid d hd).1,Nat.le_succ_of_le (h.cid d hd).2⟩

/-- The cids of the remaining coroutines are as old as before. -/
theorem Aged.unregister {life : Life} (h : Aged s) (hlife : life≠.live)
    (ht : unregister s c life=.ok s') : Aged s' := by
  have hs' := (unregister_ok ht).2.2
  refine ⟨by rw [hs']; exact h.gen,fun d hd => ?_⟩
  have hdc : d≠c := by
    rintro rfl
    rw [unregister_co_self ht] at hd
    exact hlife hd
  rw [unregister_co_of_ne ht hdc] at hd ⊢
  rw [hs']
  exact h.cid d hd

/-- Every step keeps the order of the cids. -/
theorem Aged.effect (h : Aged s) (he : Effect s s') : Aged s' := by
  cases he with
  | prepared hp => exact h.prepared hp
  | registered hp => exact (h.prepared hp).register
  | released _ hlife hu => exact h.unregister hlife hu
  | killed _ hlife hu =>
    have hu := h.unregister hlife hu
    exact ⟨hu.gen,hu.cid⟩

/-- The generator has not gone around since a live coroutine got its cid. -/
def young (s : Register) : Bool :=
  (List.range s.nextCo).all fun c => (s.co c).life≠.live || s.handedOut+1<s.bornAt c+2^24

/-- A step hands out no cid when a live coroutine is `2^24` cids old. -/
def youngCids (w : World) (a : Act) : Bool := !registers w a || young w.reg

/-- Different values of the generator give different cids. -/
theorem cidOf_inj {id g k : ℕ} (hg : g<2^24) (hk : k<2^24) (h : cidOf id g=cidOf id k) : g=k := by
  unfold cidOf toInt at h
  rw [Int.bmod_def,Int.bmod_def] at h
  split_ifs at h <;> omega

/-- A cid is not handed out again before the generator has gone around. -/
theorem Aged.fresh (h : Aged s) (hs : Sound s) (hy : young s=true) : Fresh s := by
  intro c hc he
  have hlt : s.handedOut+1<s.bornAt c+2^24 := by
    have hall := List.all_eq_true.mp hy c (List.mem_range.mpr (lt_nextCo hs hc))
    simpa [hc] using hall
  obtain ⟨hcid,hle⟩ := h.cid c hc
  rw [hcid,h.nextCid_eq] at he
  have hmod := cidOf_inj (Nat.mod_lt _ (by decide)) (Nat.mod_lt _ (by decide)) he
  omega

/-- In every run in which no cid is handed out when a live coroutine is `2^24` cids
old, a coroutine that a step brings to life gets a cid that no live coroutine has,
and every live coroutine is found under its cid. -/
theorem live_cids_unique {schedId : ℕ}
    (h : Runs step (fun w a => youngCids w a=true ∧ releasesNoIdle w a=true)
      (newScheduler schedId) w) :
    (∀ c,(w.reg.co c).life=.live → w.reg.cidCoMap.lookup (w.reg.co c).cid=some c) ∧
    (∀ c d,(w.reg.co c).life=.live → (w.reg.co d).life=.live →
      (w.reg.co c).cid=(w.reg.co d).cid → c=d) ∧
    ∀ (a : Act) (t : World),youngCids w a=true → releasesNoIdle w a=true →
      step w a=some (.ok t) → ∀ c d,(w.reg.co c).life≠.live → (t.reg.co c).life=.live →
      (w.reg.co d).life=.live → (t.reg.co c).cid≠(w.reg.co d).cid := by
  have ho := owned_of_runs h
  have hyoung : ∀ (w : World) (a : Act),Sound w.reg → Aged w.reg → youngCids w a=true →
      registers w a=true → Fresh w.reg := fun w a hs hw hc hr =>
    hw.fresh hs (by simpa [youngCids,hr] using hc)
  have hnew : Aged (newScheduler schedId).reg := ⟨rfl,by simp [newScheduler]⟩
  obtain ⟨hexact,haged⟩ := exact_of_runs Aged h hnew hyoung fun _ _ hs he => hs.effect he
  refine ⟨hexact.live,fun c d hc hd he => ?_,fun a t hy hidle ha c d hc hlive hd he => ?_⟩
  · have hfound := hexact.live c hc
    rw [he,hexact.live d hd] at hfound
    exact (Option.some.inj hfound).symm
  · obtain ⟨hcid,hfresh⟩ :=
      (effect_of_step ho hexact (hyoung w a ho.sound haged hy) hidle ha).newborn hlive hc
    exact hfresh d hd (he.symm.trans hcid)

/-- Object 0 lives on while `n` other coroutines came and went. -/
structure Churned (n : ℕ) (w : World) : Prop where
  /-- The state is reached without resizing or destroying a pool. -/
  runs : Runs step (fun w a => releasesNoIdle w a=true) (newScheduler 1) w
  /-- The scheduler. -/
  schedId : w.reg.schedId=1
  /-- The generator. -/
  cidGen : w.reg.cidGen=(n+1)%2^24
  /-- The objects. -/
  nextCo : w.reg.nextCo=n+1
  /-- Object 0 has the first cid. -/
  first : (w.reg.co 0).life=.live ∧ (w.reg.co 0).cid=cidOf 1 1
  /-- Nobody waits for a pool. -/
  blocked : w.blocked=[]

/-- The record of a new coroutine. -/
theorem dycoCoroutineCreate_self :
    (dycoCoroutineCreate s).co s.nextCo=⟨.live,s.nextCid,true,false,false,none⟩ := by
  show (register _ s.nextCo).co s.nextCo=_
  rw [register_co_self]
  simp [newcoro,newRecord,Register.nextCid]

/-- Creating a coroutine leaves the other records alone. -/
theorem dycoCoroutineCreate_of_ne (hc : c≠s.nextCo) : (dycoCoroutineCreate s).co c=s.co c :=
  (register_co_of_ne hc).trans (newcoro_co_of_ne hc)

/-- The first coroutine is object 0. -/
theorem churned_zero : ∃ w,Churned 0 w :=
  ⟨_,.tail (a := .create) .refl rfl rfl,rfl,rfl,rfl,⟨rfl,rfl⟩,rfl⟩

/-- A coroutine that is not one of a pool is freed when it exits. -/
theorem step_exit (hactive : Active w c) (hin : (w.reg.co c).flagsIncoropool=false)
    (hs : (w.reg.co c).sched=true) :
    ∃ s',unregister w.reg c .freed=.ok s' ∧ step w (.exit c)=some (.ok {w with reg := s'}) := by
  have hok : ¬((w.reg.co c).life=.freed ∨ (w.reg.co c).sched=false) := by
    rw [hactive.1,hs]
    simp
  simp [step,hactive,resumeExited,hin,onRegister,freecoro,unregister,hok,Except.map]

/-- One more coroutine comes and goes. -/
theorem Churned.succ {n : ℕ} (h : Churned n w) : ∃ t,Churned (n+1) t := by
  let u := reply {w with reg := dycoCoroutineCreate w.reg} (.create w.reg.nextCid)
  have hco : u.reg.co w.reg.nextCo=_ := dycoCoroutineCreate_self
  have hne : 0≠w.reg.nextCo := by rw [h.nextCo]; exact (Nat.succ_ne_zero n).symm
  have hzero : u.reg.co 0=w.reg.co 0 := dycoCoroutineCreate_of_ne hne
  have hu : Runs step (fun w a => releasesNoIdle w a=true) (newScheduler 1) u :=
    .tail (a := .create) h.runs rfl rfl
  have hactive : Active u w.reg.nextCo := by
    refine ⟨by rw [hco],by rw [hco],?_⟩
    have hblocked : u.blocked=[] := h.blocked
    simp [hblocked]
  obtain ⟨s',hs',hexit⟩ := step_exit hactive (by rw [hco]) (by rw [hco])
  have hother : s'.co 0=u.reg.co 0 := unregister_co_of_ne hs' hne
  refine ⟨{u with reg := s'},.tail hu rfl hexit,?_,?_,?_,?_,h.blocked⟩
  · rw [(unregister_ok hs').2.2]
    exact h.schedId
  · rw [(unregister_ok hs').2.2]
    show (w.reg.cidGen+1)%2^24=(n+1+1)%2^24
    rw [h.cidGen,Nat.mod_add_mod]
  · rw [(unregister_ok hs').2.2]
    exact congrArg (·+1) h.nextCo
  · show (s'.co 0).life=.live ∧ (s'.co 0).cid=cidOf 1 1
    rw [hother,hzero]
    exact h.first

/-- Any number of coroutines can come and go beside object 0. -/
theorem exists_churned (n : ℕ) : ∃ w,Churned n w := by
  induction n with
  | zero => exact churned_zero
  | succ n ih =>
    obtain ⟨w,hw⟩ := ih
    exact hw.succ

/-- A coroutine lives on while `2^24-1` others come and go. The next one gets its
cid and replaces it in `cid_co_map`. -/
theorem old_coroutine_loses_cid :
    ∃ w c d,Runs step (fun w a => releasesNoIdle w a=true) (newScheduler 1) w ∧ c≠d ∧
      (w.reg.co c).life=.live ∧ (w.reg.co d).life=.live ∧ (w.reg.co c).cid=(w.reg.co d).cid ∧
      w.reg.cidCoMap.lookup (w.reg.co c).cid=some d := by
  obtain ⟨w,hw⟩ := exists_churned (2^24-1)
  have hcid : w.reg.nextCid=cidOf 1 1 := by
    rw [Register.nextCid,hw.schedId,hw.cidGen]
    exact congrArg (cidOf 1) (by decide)
  have hne : 0≠w.reg.nextCo := by rw [hw.nextCo]; decide
  let t := reply {w with reg := dycoCoroutineCreate w.reg} (.create w.reg.nextCid)
  have hzero : t.reg.co 0=w.reg.co 0 := dycoCoroutineCreate_of_ne hne
  have hlast : t.reg.co w.reg.nextCo=_ := dycoCoroutineCreate_self
  refine ⟨t,0,w.reg.nextCo,.tail (a := .create) hw.runs rfl rfl,hne,?_,by rw [hlast],?_,?_⟩
  · rw [hzero]
    exact hw.first.1
  · rw [hzero,hw.first.2,hlast,hcid]
  · rw [hzero,hw.first.2,← hcid]
    exact (lookup_enter ..).trans (if_pos rfl)

/-- Coroutines of every kind, one of which exits and one of which returns. -/
def comeAndGo : List Act :=
  [.create,.createUrgent,.asymCreate,.poolCreate 1 true,.obtain 0 .outside 0 0 true 5 true,
    .exit 1,.asymReturn 16777220]

/-- Object 1 comes and goes; objects 0 and 2 live under different cids. -/
theorem live_cids_unique_comeAndGo :
    ∃ w,replayWhile step (fun w a => youngCids w a=true ∧ releasesNoIdle w a=true)
      (newScheduler 1) comeAndGo=some w ∧ liveCoros w.reg={0,2} ∧
      w.reg.cidCoMap.lookup (w.reg.co 2).cid=some 2 ∧ (w.reg.co 0).cid≠(w.reg.co 2).cid := by
  have h : (replayWhile step (fun w a => youngCids w a=true ∧ releasesNoIdle w a=true)
      (newScheduler 1) comeAndGo).map (fun w => (liveCoros w.reg,(w.reg.co 0).life,
        (w.reg.co 2).life))=some ({0,2},.live,.live) := by decide +kernel
  obtain ⟨w,hw,hq⟩ := Option.map_eq_some_iff.mp h
  simp only [Prod.mk.injEq] at hq
  obtain ⟨hfound,hdistinct,-⟩ := live_cids_unique (runs_of_replayWhile hw)
  refine ⟨w,hw,hq.1,hfound 2 hq.2.2,fun he => ?_⟩
  cases hdistinct 0 2 hq.2.1 hq.2.2 he

end DycoCoroutine.CoroutineCount
