import DycoCoroutine.CoroutineCount
import DycoCoroutine.CoroutineRegistry
import DycoCoroutine.PoolClients

/-!
# The registry as the machine of the pools

The registry has `cid_co_map` as the table that it is, and the machine of the pools has
it as a finite map. As long as the table answers like the map, every step of the registry
is one of the machine of the pools, and the invariants of that machine are those of the
registry: the freelists hold idle coroutines of their pools, and the map has the live
coroutines under their cids and as many entries as `coro_count` says.
-/

namespace DycoCoroutine.RegistryPools

open ScheduleState RunInvariant ChainedTable SlottedMap
open CoroutinePool (Coro World Register)
open PoolClients (Adds)
open CoroutineRegistry
open PoolOwnership (Owned)
open CoroutineCount (Exact)

/-- A relation of tables and maps that tells what is found in a table and that deletions
keep. -/
structure Answers (T : Table Co → CoMap → Prop) : Prop where
  find : ∀ {ht m},T ht m → ∀ k,htableFind ht k=.ok (m.lookup k)
  delete : ∀ {ht ht' m k ret},T ht m → k∈m → htableDelete ht k=.ok (ret,ht') → T ht' (m.erase k)

variable {T : Table Co → CoMap → Prop} {s t : Registry} {r : Register} {w : World} {c : Co} {p : ℕ}
  {isasymmetric : Bool} {life : Life}

/-- The registry and the register agree, the first with its table, the second with the
map that the table stands for. -/
structure Agrees (T : Table Co → CoMap → Prop) (s : Registry) (r : Register) : Prop where
  table : T s.cidCoMap r.cidCoMap
  schedId : r.schedId=s.schedId
  cidGen : r.cidGen=s.cidGen
  coroCount : r.coroCount=s.coroCount
  nextCo : r.nextCo=s.nextCo
  co : r.co=s.co

/-- The two hand out the same cid next. -/
theorem Agrees.cid_eq (h : Agrees T s r) : r.nextCid=s.nextCid := by
  rw [Register.nextCid,Registry.nextCid,h.schedId,h.cidGen]

/-- The pools are no concern of the register. -/
theorem Agrees.around (h : Agrees T s r) (pools : ℕ → Option CoroPool) (nextPool : ℕ) :
    Agrees T {s with pools := pools,nextPool := nextPool} r :=
  ⟨h.table,h.schedId,h.cidGen,h.coroCount,h.nextCo,h.co⟩

/-- The status word of `cp_obtain` on both sides. -/
theorem Agrees.renewed (h : Agrees T s r) (c : Co) (isasymmetric : Bool) :
    Agrees T (renew s c isasymmetric) (CoroutinePool.renew r c isasymmetric) := by
  refine ⟨h.table,h.schedId,h.cidGen,h.coroCount,h.nextCo,?_⟩
  show Function.update r.co c {r.co c with flagsAsymmetric := isasymmetric,flagsIncoropool := true}=
    Function.update s.co c {s.co c with flagsAsymmetric := isasymmetric,flagsIncoropool := true}
  rw [h.co]

/-- A new object on both sides. -/
theorem Agrees.created (h : Agrees T s r) (q : Coro) :
    Agrees T (newcoro s q) (CoroutinePool.newcoro r q) := by
  refine ⟨h.table,h.schedId,h.cidGen,h.coroCount,?_,?_⟩
  · show r.nextCo+1=s.nextCo+1
    rw [h.nextCo]
  · show Function.update r.co r.nextCo q=Function.update s.co s.nextCo q
    rw [h.co,h.nextCo]

/-- The insertion under the next cid that leads to `t` is one into the map. -/
def Enters (T : Table Co → CoMap → Prop) (s t : Registry) (m : CoMap) : Prop :=
  ∀ c ret,htableInsert s.cidCoMap s.nextCid (some c)=.ok (ret,t.cidCoMap) →
    T t.cidCoMap (enter cidSlot s.nextCid c m)

/-- A coroutine is registered on both sides. -/
theorem Agrees.registered {must : Bool} (h : Agrees T s r) (henter : Enters T s t r.cidCoMap)
    (ht : register s c must=.ok t) : Agrees T t (CoroutinePool.register r c) := by
  obtain ⟨ret,map,hinsert,rfl⟩ := register_ok ht
  have hcid := h.cid_eq
  refine ⟨?_,h.schedId,?_,?_,h.nextCo,?_⟩
  · show T map (enter cidSlot r.nextCid c r.cidCoMap)
    rw [hcid]
    exact henter c ret hinsert
  · show (r.cidGen+1)%2^24=(s.cidGen+1)%2^24
    rw [h.cidGen]
  · show r.coroCount+1=s.coroCount+1
    rw [h.coroCount]
  · show Function.update r.co c {r.co c with life := .live,cid := r.nextCid,sched := true}=
      Function.update s.co c {s.co c with life := .live,cid := s.nextCid,sched := true}
    rw [h.co,hcid]

/-- A release on both sides. -/
theorem Agrees.unregistered (h : Agrees T s r) (hT : Answers T) (hk : (r.co c).cid∈r.cidCoMap)
    (ht : unregister s c life=.ok t) :
    ∃ r',CoroutinePool.unregister r c life=.ok r' ∧ Agrees T t r' := by
  have hguard : ¬((s.co c).life=.freed ∨ (s.co c).sched=false) := fun hfault => by
    rw [unregister,if_pos hfault] at ht
    cases ht
  obtain ⟨-,ret,map,hdelete,rfl⟩ := unregister_ok ht
  refine ⟨_,if_neg (h.co ▸ hguard),?_,h.schedId,h.cidGen,?_,h.nextCo,?_⟩
  · exact hT.delete h.table hk (h.co ▸ hdelete)
  · show r.coroCount-1=s.coroCount-1
    rw [h.coroCount]
  · show Function.update r.co c {r.co c with life := life}=
      Function.update s.co c {s.co c with life := life}
    rw [h.co]

/-! ## Pools -/

/-- The machine of the pools is in the state of the registry. -/
abbrev Serves (T : Table Co → CoMap → Prop) (s : Registry) (w : World) : Prop :=
  PoolClients.Serves (Agrees T s) s.pools s.nextPool w

/-- One round of the loop of `cp_create` on both sides. -/
theorem adds_cpAdd (T : Table Co → CoMap → Prop) (n p : ℕ) (isasymmetric : Bool) :
    Adds (fun s r => Agrees T s r ∧ s.nextPool=n) Registry.pools (cpAdd p isasymmetric) p
      isasymmetric := by
  intro s r cp ⟨h,hn⟩ hp
  unfold cpAdd
  rw [hp,h.nextCo]
  exact ⟨⟨(h.created _).around ..,hn⟩,rfl⟩

/-- `cp_create` on both sides. -/
theorem Serves.newPool (h : Serves T s w) (totalsize : ℤ) (stacksize : ℕ)
    (isasymmetric : Bool) : Serves T (cpCreate s totalsize stacksize isasymmetric)
      (CoroutinePool.cpCreate w totalsize isasymmetric) := by
  unfold cpCreate
  split_ifs with hn
  · rw [CoroutinePool.cpCreate,if_pos hn]
    exact h
  · have hnew : Agrees T {putPool s s.nextPool ⟨totalsize,0,stacksize,[]⟩ with
        nextPool := s.nextPool+1} w.reg := h.agrees.around ..
    obtain ⟨⟨⟨hagrees,hnext⟩,hpools,hname,hblocked,hfd⟩,-⟩ := h.poolCreate
      (adds_cpAdd T (s.nextPool+1) s.nextPool isasymmetric) ⟨hnew,rfl⟩ rfl hn
    exact ⟨hagrees,hpools,hname.trans hnext.symm,hblocked,hfd⟩

/-- A coroutine is created on both sides. -/
theorem Serves.create (h : Serves T s w) (henter : Enters T s t w.reg.cidCoMap)
    (ht : createCoro s isasymmetric=.ok t) :
    Serves T t {w with reg := CoroutinePool.createCoro w.reg isasymmetric} := by
  have hregister := (h.agrees.created (CoroutinePool.newRecord isasymmetric)).registered henter ht
  obtain ⟨ret,map,-,rfl⟩ := register_ok ht
  refine h.setReg ?_
  rw [CoroutinePool.createCoro,h.agrees.nextCo]
  exact hregister

/-- `cp_obtain` on both sides. -/
theorem Serves.obtain (h : Serves T s w)
    (henter : registers s (.obtain p isasymmetric)=true → Enters T s t w.reg.cidCoMap)
    (ht : cpObtain s p isasymmetric=.ok t) :
    ∃ w',CoroutinePool.cpObtain w 0 .outside p 0 isasymmetric 0 true=.ok w' ∧ Serves T t w' := by
  unfold cpObtain at ht
  split at ht
  · cases ht
  next cp hp =>
    split_ifs at ht with hnone
    · cases ht
      obtain ⟨cq,hcq,hsame⟩ := h.pools p cp hp
      rw [← hsame.totalsize,← hsame.activenum] at hnone
      refine ⟨_,?_,h.reply (.obtain 0 p 0 (cq.totalsize-cq.activenum))⟩
      simp only [CoroutinePool.cpObtain,hcq,or_true,if_true,CoroutinePool.cpObtainRest,if_pos hnone]
    · split at ht
      · cases ht
      next c rest hlist =>
        have hregister := ((h.agrees.around _ s.nextPool).renewed c isasymmetric).registered
          (henter (by simpa [registers,hp] using not_le.mp hnone)) ht
        obtain ⟨ret,map,-,rfl⟩ := register_ok ht
        exact h.take hp (not_le.mp hnone) hlist hregister

/-- `freecoro` on both sides. -/
theorem Serves.freed (h : Serves T s w) (hT : Answers T) (hk : (w.reg.co c).cid∈w.reg.cidCoMap)
    (ht : unregister s c life=.ok t) :
    ∃ w',CoroutinePool.onRegister w (CoroutinePool.unregister w.reg c life)=.ok w' ∧
      Serves T t w' := by
  obtain ⟨r',hr',hagrees⟩ := h.agrees.unregistered hT hk ht
  obtain ⟨-,ret,map,-,rfl⟩ := unregister_ok ht
  refine ⟨_,?_,h.setReg hagrees⟩
  rw [hr']
  rfl

/-- `cp_return` on both sides. -/
theorem Serves.returned (h : Serves T s w) (hT : Answers T)
    (hk : (w.reg.co c).cid∈w.reg.cidCoMap) (ht : cpReturn s c=.ok t) :
    ∃ w',CoroutinePool.cpReturn w c=.ok w' ∧ Serves T t w' := by
  unfold cpReturn at ht
  split_ifs at ht
  cases hc : (s.co c).cpool with
  | none =>
    simp only [hc] at ht
    cases ht
    exact ⟨w,by simp only [CoroutinePool.cpReturn,h.agrees.co,hc],h⟩
  | some p =>
    cases hp : s.pools p with
    | none =>
      simp only [hc,hp] at ht
      cases ht
    | some cp =>
      simp only [hc,hp] at ht
      obtain ⟨u,hu,rfl⟩ := map_eq_ok ht
      obtain ⟨r',hr',hagrees⟩ := h.agrees.unregistered hT hk hu
      obtain ⟨-,ret,map,-,rfl⟩ := unregister_ok hu
      exact h.giveBack (by rw [h.agrees.co,hc]) hp hr' (hagrees.around ..)

/-- The end of `resume` for an exited coroutine on both sides. -/
theorem Serves.exit (h : Serves T s w) (hT : Answers T) (hk : (w.reg.co c).cid∈w.reg.cidCoMap)
    (ht : resumeExited s c=.ok t) :
    ∃ w',CoroutinePool.resumeExited w c=.ok w' ∧ Serves T t w' := by
  unfold resumeExited at ht
  unfold CoroutinePool.resumeExited
  rw [h.agrees.co]
  split_ifs at ht ⊢
  · exact h.returned hT hk ht
  · exact h.freed hT hk ht

/-- `dyco_asymcoro_free` on both sides. -/
theorem Serves.asymFree {cid : ℤ} (h : Serves T s w) (hT : Answers T)
    (hk : ∀ c,w.reg.cidCoMap.lookup cid=some c → (w.reg.co c).cid∈w.reg.cidCoMap)
    (ht : dycoAsymcoroFree s cid=.ok t) :
    ∃ w',CoroutinePool.onRegister w (CoroutinePool.dycoAsymcoroFree w.reg cid)=.ok w' ∧
      Serves T t w' := by
  unfold dycoAsymcoroFree at ht
  unfold CoroutinePool.dycoAsymcoroFree
  rw [hT.find h.agrees.table] at ht
  cases hfind : w.reg.cidCoMap.lookup cid with
  | none =>
    rw [hfind] at ht
    cases ht
    exact ⟨w,rfl,h⟩
  | some c =>
    rw [hfind] at ht
    simp only [h.agrees.co]
    replace ht : (if (s.co c).life=.freed then .error .undefined
      else if (s.co c).flagsAsymmetric then unregister s c .freed else .ok s)=.ok t := ht
    split_ifs at ht ⊢
    · exact h.freed hT (hk c hfind) ht
    · cases ht
      exact ⟨w,rfl,h⟩

/-- `dyco_asymcpool_return` on both sides. -/
theorem Serves.asymReturn {cid : ℤ} (h : Serves T s w) (hT : Answers T)
    (hk : ∀ c,w.reg.cidCoMap.lookup cid=some c → (w.reg.co c).cid∈w.reg.cidCoMap)
    (ht : dycoAsymcpoolReturn s cid=.ok t) :
    ∃ w',CoroutinePool.dycoAsymcpoolReturn w cid=.ok w' ∧ Serves T t w' := by
  unfold dycoAsymcpoolReturn at ht
  unfold CoroutinePool.dycoAsymcpoolReturn
  rw [hT.find h.agrees.table] at ht
  cases hfind : w.reg.cidCoMap.lookup cid with
  | none =>
    rw [hfind] at ht
    cases ht
    exact ⟨w,rfl,h⟩
  | some c =>
    rw [hfind] at ht
    exact h.returned hT (hk c hfind) ht

/-! ## Runs -/

/-- What a step of the registry is to the machine of the pools. -/
def image : Act → CoroutinePool.Act
  | .create isasymmetric => if isasymmetric then .asymCreate else .create
  | .poolCreate totalsize _ isasymmetric => .poolCreate totalsize isasymmetric
  | .obtain p isasymmetric => .obtain 0 .outside p 0 isasymmetric 0 true
  | .exit c => .exit c
  | .asymFree cid => .asymFree cid
  | .asymReturn cid => .asymReturn cid

/-- The machine of the pools is in the state of the registry, with its invariants. -/
structure Served (T : Table Co → CoMap → Prop) (s : Registry) (w : World) : Prop where
  serves : Serves T s w
  owned : Owned (fun _ x _ => 0≤x) w
  exact : Exact w.reg

/-- A live coroutine is found under its cid. -/
theorem Served.find (h : Served T s w) (hT : Answers T) (hc : (s.co c).life=.live) :
    htableFind s.cidCoMap (s.co c).cid=.ok (some c) := by
  have hco := h.serves.agrees.co
  rw [hT.find h.serves.agrees.table,← hco,h.exact.live c (hco ▸ hc)]

/-- The next cid is not in the map if no live coroutine has it. -/
theorem Served.lookup_nextCid (h : Served T s w)
    (hunused : ∀ d,(s.co d).life=.live → (s.co d).cid≠s.nextCid) :
    w.reg.cidCoMap.lookup s.nextCid=none := by
  have hagrees := h.serves.agrees
  rw [← hagrees.co,← hagrees.cid_eq] at hunused
  rw [← hagrees.cid_eq]
  exact CoroutineCount.lookup_nextCid h.owned.sound hunused

/-- An object that was not handed out is not live. -/
theorem Served.lt_nextCo (h : Served T s w) (hc : (s.co c).life=.live) : c<s.nextCo := by
  have hagrees := h.serves.agrees
  rw [← hagrees.nextCo]
  exact CoroutineCount.lt_nextCo h.owned.sound (hagrees.co ▸ hc)

/-- The machine of the pools follows every step of the registry that enters no coroutine
in the table in another way than in the map. -/
theorem Serves.follow {a : Act} (h : Serves T s w) (hT : Answers T) (hw : Exact w.reg)
    (hsound : PoolOwnership.Sound w.reg)
    (henter : registers s a=true → Enters T s t w.reg.cidCoMap) (ha : step s a=some (.ok t)) :
    ∃ w',CoroutinePool.step w (image a)=some (.ok w') ∧ Serves T t w' := by
  have hmem : ∀ {k c},w.reg.cidCoMap.lookup k=some c → k∈w.reg.cidCoMap :=
    fun hk => AList.lookup_isSome.mp (by rw [hk]; rfl)
  have hcid : ∀ {k} c,w.reg.cidCoMap.lookup k=some c → (w.reg.co c).cid∈w.reg.cidCoMap :=
    fun c hk => (hsound.entries _ c hk).2.symm ▸ hmem hk
  cases a with
  | create isasymmetric =>
    have hcreate := h.create (henter rfl) (Option.some.inj ha)
    cases isasymmetric <;> exact ⟨_,rfl,hcreate.reply _⟩
  | poolCreate totalsize stacksize isasymmetric =>
    cases ha
    exact ⟨_,rfl,h.newPool ..⟩
  | obtain p isasymmetric =>
    obtain ⟨w',hw',ht⟩ := h.obtain henter (Option.some.inj ha)
    exact ⟨w',by simp [image,CoroutinePool.step,h.fd,hw'],ht⟩
  | exit c =>
    simp only [step] at ha
    split_ifs at ha with hguard
    rw [← h.agrees.co] at hguard
    obtain ⟨w',hw',ht⟩ := h.exit hT (hmem (hw.live c hguard.1)) (Option.some.inj ha)
    have hactive : CoroutinePool.Active w c := ⟨hguard.1,hguard.2,by simp [h.blocked]⟩
    exact ⟨w',by simp [image,CoroutinePool.step,hactive,hw'],ht⟩
  | asymFree cid =>
    obtain ⟨w',hw',ht⟩ := h.asymFree hT hcid (Option.some.inj ha)
    exact ⟨w',by simp [image,CoroutinePool.step,hw'],ht⟩
  | asymReturn cid =>
    obtain ⟨hguard,ha⟩ : ((w.reg.cidCoMap.lookup cid).all fun c => (w.reg.co c).flagsAsymmetric)=
        true ∧ dycoAsymcpoolReturn s cid=.ok t := by
      simp only [step,hT.find h.agrees.table] at ha
      cases hlookup : w.reg.cidCoMap.lookup cid with
      | none =>
        rw [hlookup] at ha
        exact ⟨rfl,Option.some.inj ha⟩
      | some c =>
        rw [hlookup] at ha
        dsimp only at ha
        split_ifs at ha with hasym
        exact ⟨by simpa [h.agrees.co] using hasym,Option.some.inj ha⟩
    obtain ⟨w',hw',ht⟩ := h.asymReturn hT hcid ha
    exact ⟨w',by simp [image,CoroutinePool.step,hguard,hw'],ht⟩

/-- Where no live coroutine has the next cid, the invariants are kept as well. -/
theorem Served.follow {a : Act} (h : Served T s w) (hT : Answers T)
    (henter : registers s a=true → Enters T s t w.reg.cidCoMap ∧
      ∀ d,(s.co d).life=.live → (s.co d).cid≠s.nextCid)
    (ha : step s a=some (.ok t)) :
    ∃ w',CoroutinePool.step w (image a)=some (.ok w') ∧ Served T t w' := by
  have hagrees := h.serves.agrees
  obtain ⟨w',hw',ht⟩ := h.serves.follow hT h.exact h.owned.sound (fun hr => (henter hr).1) ha
  have hregisters : CoroutineCount.registers w (image a)=true → registers s a=true := by
    intro hr
    cases a with
    | create isasymmetric => rfl
    | obtain p isasymmetric =>
      have hobtain : cpObtain s p isasymmetric=.ok t := Option.some.inj ha
      unfold cpObtain at hobtain
      split at hobtain
      · cases hobtain
      next cp hp =>
        obtain ⟨cq,hcq,hsame⟩ := h.serves.pools p cp hp
        simpa [image,CoroutineCount.registers,registers,hp,hcq,hsame.totalsize,hsame.activenum]
          using hr
    | _ => cases hr
  have heffect := CoroutineCount.effect_of_step h.owned h.exact (fun hr => ?_) ?_ hw'
  · exact ⟨w',hw',ht,h.owned.step_nonneg hw',h.exact.effect h.owned.sound heffect⟩
  · have hfresh := (henter (hregisters hr)).2
    rwa [← hagrees.co,← hagrees.cid_eq] at hfresh
  · cases a with
    | create isasymmetric => cases isasymmetric <;> rfl
    | _ => rfl

/-- A new scheduler. -/
theorem served_newScheduler (schedId : ℕ) (hnew : T (htableInit 0) ∅) :
    Served T (newScheduler schedId) (CoroutinePool.newScheduler schedId) :=
  ⟨⟨⟨hnew,rfl,rfl,rfl,rfl,rfl⟩,fun p cp hp => (by cases hp),rfl,rfl,rfl⟩,
    PoolOwnership.owned_newScheduler schedId,CoroutineCount.exact_newScheduler schedId⟩

/-- Every run of the registry that enters coroutines in the table as in the map, under cids
that no live coroutine has, is one of the machine of the pools. -/
theorem served_of_runs {schedId : ℕ} {cond : Registry → Act → Prop} (hT : Answers T)
    (hnew : T (htableInit 0) ∅)
    (henter : ∀ s t w a,Served T s w → cond s a → registers s a=true →
      Enters T s t w.reg.cidCoMap ∧ ∀ d,(s.co d).life=.live → (s.co d).cid≠s.nextCid)
    (h : Runs step cond (newScheduler schedId) s) :
    ∃ w,Runs CoroutinePool.step (fun _ _ => True) (CoroutinePool.newScheduler schedId) w ∧
      Served T s w := by
  refine h.invariant (fun s => ∃ w,Runs CoroutinePool.step (fun _ _ => True)
    (CoroutinePool.newScheduler schedId) w ∧ Served T s w)
    ⟨_,.refl,served_newScheduler schedId hnew⟩ fun s a t hi hc ha => ?_
  obtain ⟨w,hw,hserved⟩ := hi
  obtain ⟨w',hw',ht⟩ := hserved.follow hT (henter s t w a hserved hc) ha
  exact ⟨w',.tail hw trivial hw',ht⟩

end DycoCoroutine.RegistryPools
