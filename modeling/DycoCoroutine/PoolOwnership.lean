import DycoCoroutine.CoroutinePool

/-!
# The coroutines that a pool owns

Every coroutine that a pool has made is idle in its freelist, or obtained, or was
taken from the freelist, where it was released or leaks. The freelist is never
shorter than `totalsize-activenum`; it is exactly as long as long as no pool is
resized below the number of coroutines that are in use.
-/

namespace DycoCoroutine.PoolOwnership

open ScheduleState RunInvariant EventFd SlottedMap CoroutinePool

/-- The register is consistent. -/
structure Sound (s : Register) : Prop where
  /-- An entry of `cid_co_map` is a live coroutine under its own cid. -/
  entries : ∀ k c,s.cidCoMap.lookup k=some c → (s.co c).life=.live ∧ (s.co c).cid=k
  /-- A live coroutine has a scheduler. -/
  sched : ∀ c,(s.co c).life=.live → (s.co c).sched=true
  /-- Objects come from the allocator. -/
  fresh : ∀ c,s.nextCo ≤ c → (s.co c).life=.unborn ∧ (s.co c).sched=false

/-- The objects of a pool. -/
structure Stocked (s : Register) (p : ℕ) (cp : Pool) : Prop where
  /-- The freelist has idle coroutines of the pool. -/
  idle : ∀ c∈cp.freelist,(s.co c).life=.idle ∧ (s.co c).cpool=some p
  /-- No coroutine is in the freelist twice. -/
  nodup : cp.freelist.Nodup
  /-- Where the objects are. -/
  account : cp.made.Perm (cp.freelist++cp.out++(cp.gone++cp.leaked))
  /-- What is accounted as released was freed. -/
  freed : ∀ c∈cp.gone,(s.co c).life=.freed
  /-- `activenum` counts the obtained ones. -/
  active : (cp.out.length : ℤ)=cp.activenum

/-- How many more coroutines a freelist has than the sizes of the pool say. -/
def surplus (cp : Pool) : ℤ := cp.freelist.length-(cp.totalsize-cp.activenum)

/-- The register and the pools, where `bound` limits the surplus of each pool and what
it has leaked. -/
structure Owned (bound : ℕ → ℤ → List Co → Prop) (w : World) : Prop where
  /-- The register. -/
  sound : Sound w.reg
  /-- The pools were created. -/
  known : ∀ q cq,w.pools q=some cq → q<w.nextPool
  /-- The objects of the pools. -/
  stocked : ∀ q cq,w.pools q=some cq → Stocked w.reg q cq
  /-- The surplus of the pools, and what they have leaked. -/
  bounded : ∀ q cq,w.pools q=some cq → bound q (surplus cq) cq.leaked
  /-- A live coroutine of a pool was obtained from it. -/
  live : ∀ c q,(w.reg.co c).life=.live → (w.reg.co c).cpool=some q →
    ∃ cq,w.pools q=some cq ∧ c∈cq.out

variable {w t : World} {s s' : Register} {a : Act} {p q : ℕ} {cp cp' cq : Pool} {c : Co}
  {bound bound' : ℕ → ℤ → List Co → Prop} {life : Life} {cid : ℤ} {isasymmetric : Bool}

/-- A new object takes the next index and is in no map. -/
theorem Sound.newcoro {r : Coro} (h : Sound s) (hr : r.life=.idle) : Sound (newcoro s r) := by
  have hold : ∀ d≠s.nextCo,(CoroutinePool.newcoro s r).co d=s.co d :=
    fun d hd => Function.update_of_ne hd ..
  have hnew : (CoroutinePool.newcoro s r).co s.nextCo=r := Function.update_self ..
  refine ⟨fun k c hk => ?_,fun c hc => ?_,fun c hc => ?_⟩
  · have hlive := h.entries k c hk
    have hne : c≠s.nextCo := by
      rintro rfl
      rw [(h.fresh s.nextCo le_rfl).1] at hlive
      cases hlive.1
    rw [hold c hne]
    exact hlive
  · by_cases hne : c=s.nextCo
    · subst hne
      rw [hnew,hr] at hc
      cases hc
    · rw [hold c hne] at hc ⊢
      exact h.sched c hc
  · rw [hold c (Nat.ne_of_gt hc)]
    exact h.fresh c (Nat.le_of_succ_le hc)

/-- Entering one coroutine leaves the other records alone. -/
theorem register_co_of_ne {d : Co} (hd : d≠c) : (register s c).co d=s.co d :=
  Function.update_of_ne hd ..

/-- The record of a coroutine that has just been entered. -/
theorem register_co_self :
    (register s c).co c={s.co c with life := .live,cid := s.nextCid,sched := true} :=
  Function.update_self ..

/-- Entering an object that is not live under the next cid keeps the map sound. -/
theorem Sound.register (h : Sound s) (hc : (s.co c).life≠.live) (hlt : c<s.nextCo) :
    Sound (register s c) := by
  refine ⟨fun k d hk => ?_,fun d hd => ?_,fun d hd => ?_⟩
  · have hk' : (enter cidSlot s.nextCid c s.cidCoMap).lookup k=some d := hk
    rw [lookup_enter] at hk'
    split_ifs at hk' with hkc
    · cases hk'
      rw [register_co_self]
      exact ⟨rfl,hkc.symm⟩
    · have hlive := h.entries k d hk'
      have hne : d≠c := fun he => hc (he ▸ hlive.1)
      rw [register_co_of_ne hne]
      exact hlive
  · by_cases hne : d=c
    · subst hne
      rw [register_co_self]
    · rw [register_co_of_ne hne] at hd ⊢
      exact h.sched d hd
  · have hge : s.nextCo≤d := hd
    rw [register_co_of_ne (Nat.ne_of_gt (Nat.lt_of_lt_of_le hlt hge))]
    exact h.fresh d hge

/-- A release goes through `sched`, and leaves the other objects alone. -/
theorem unregister_ok (ht : unregister s c life=.ok s') :
    (s.co c).life≠.freed ∧ (s.co c).sched=true ∧ s'={s with
      coroCount := s.coroCount-1
      cidCoMap := s.cidCoMap.erase (s.co c).cid
      co := Function.update s.co c {s.co c with life := life}} := by
  unfold unregister at ht
  split_ifs at ht with hbad
  cases ht
  exact ⟨(not_or.mp hbad).1,by simpa using (not_or.mp hbad).2,rfl⟩

/-- Releasing one coroutine leaves the other records alone. -/
theorem unregister_co_of_ne {d : Co} (ht : unregister s c life=.ok s') (hd : d≠c) :
    s'.co d=s.co d := by
  rw [(unregister_ok ht).2.2]
  exact Function.update_of_ne hd ..

/-- The record of a coroutine that has just been released. -/
theorem unregister_co_self (ht : unregister s c life=.ok s') :
    s'.co c={s.co c with life := life} := by
  rw [(unregister_ok ht).2.2]
  exact Function.update_self ..

/-- Releasing a coroutine takes its own entry out of the map. -/
theorem Sound.unregister (h : Sound s) (hlife : life≠.live) (ht : unregister s c life=.ok s') :
    Sound s' := by
  obtain ⟨-,hsched,hs'⟩ := unregister_ok ht
  refine ⟨fun k d hk => ?_,fun d hd => ?_,fun d hd => ?_⟩
  · have hk' : (s.cidCoMap.erase (s.co c).cid).lookup k=some d := by
      rw [hs'] at hk
      exact hk
    have hkc : k≠(s.co c).cid := by
      rintro rfl
      rw [AList.lookup_erase] at hk'
      cases hk'
    rw [AList.lookup_erase_ne hkc] at hk'
    have hlive := h.entries k d hk'
    have hne : d≠c := fun he => hkc (he ▸ hlive.2.symm)
    rw [unregister_co_of_ne ht hne]
    exact hlive
  · by_cases hne : d=c
    · subst hne
      rw [unregister_co_self ht] at hd
      exact absurd hd hlife
    · rw [unregister_co_of_ne ht hne] at hd ⊢
      exact h.sched d hd
  · have hge : s.nextCo≤d := by
      rw [hs'] at hd
      exact hd
    have hne : d≠c := by
      rintro rfl
      rw [(h.fresh d hge).2] at hsched
      cases hsched
    rw [unregister_co_of_ne ht hne]
    exact h.fresh d hge

/-- Only the idle and the released coroutines matter. -/
theorem Stocked.congr (h : Stocked s p cp)
    (hs : ∀ c,(s.co c).life=.idle ∧ (s.co c).cpool=some p ∨ (s.co c).life=.freed → s'.co c=s.co c) :
    Stocked s' p cp := by
  refine ⟨fun c hc => ?_,h.nodup,h.account,fun c hc => ?_,h.active⟩
  · rw [hs c (.inl (h.idle c hc))]
    exact h.idle c hc
  · rw [hs c (.inr (h.freed c hc))]
    exact h.freed c hc

/-- A step that changes one object, which was not freed, frees no other. -/
theorem Stocked.freed_of_frame (h : Stocked s p cp) (hframe : ∀ d≠c,s'.co d=s.co d)
    (hc : (s.co c).life≠.freed) : ∀ d∈cp.gone,(s'.co d).life=.freed := by
  intro d hd
  have hfreed := h.freed d hd
  rwa [hframe d fun he => hc (he ▸ hfreed)]

/-- One object changes, and at most the pool that it belongs to. -/
theorem Owned.put (h : Owned bound w) (hp : w.pools p=some cp) (hs : Sound t.reg)
    (hframe : ∀ d≠c,t.reg.co d=w.reg.co d) (hc : (w.reg.co c).life=.idle → (w.reg.co c).cpool=some p)
    (hfreed : (w.reg.co c).life≠.freed)
    (hpools : t.pools=Function.update w.pools p (some cp')) (hnext : t.nextPool=w.nextPool)
    (hstock : Stocked t.reg p cp') (hbound : bound' p (surplus cp') cp'.leaked)
    (hbounds : ∀ q≠p,∀ x l,bound q x l → bound' q x l)
    (hlive : ∀ q,(t.reg.co c).life=.live → (t.reg.co c).cpool=some q → q=p ∧ c∈cp'.out)
    (hout : ∀ d∈cp.out,d≠c → d∈cp'.out) : Owned bound' t := by
  have hself : t.pools p=some cp' := by rw [hpools,Function.update_self]
  have hother : ∀ q≠p,t.pools q=w.pools q := fun q hq => by rw [hpools,Function.update_of_ne hq]
  refine ⟨hs,fun q cq hq => ?_,fun q cq hq => ?_,fun q cq hq => ?_,fun d q hd hq => ?_⟩
  · rw [hnext]
    by_cases hqp : q=p
    · subst hqp
      exact h.known q cp hp
    · exact h.known q cq ((hother q hqp).symm.trans hq)
  · by_cases hqp : q=p
    · subst hqp
      cases hself.symm.trans hq
      exact hstock
    · have hold := h.stocked q cq ((hother q hqp).symm.trans hq)
      refine hold.congr fun d hd => hframe d ?_
      rintro rfl
      rcases hd with ⟨hidle,hcpool⟩|hd
      · exact hqp (Option.some.inj (hcpool.symm.trans (hc hidle)))
      · exact hfreed hd
  · by_cases hqp : q=p
    · subst hqp
      cases hself.symm.trans hq
      exact hbound
    · exact hbounds q hqp _ _ (h.bounded q cq ((hother q hqp).symm.trans hq))
  · by_cases hdc : d=c
    · subst hdc
      obtain ⟨rfl,hm⟩ := hlive q hd hq
      exact ⟨cp',hself,hm⟩
    · rw [hframe d hdc] at hd hq
      obtain ⟨cq,hcq,hm⟩ := h.live d q hd hq
      by_cases hqp : q=p
      · subst hqp
        cases hp.symm.trans hcq
        exact ⟨cp',hself,hout d hm hdc⟩
      · exact ⟨cq,(hother q hqp).trans hcq,hm⟩

/-- One object changes that is not idle in a pool, before and after. -/
theorem Owned.of_register (h : Owned bound w) (hs : Sound t.reg)
    (hframe : ∀ d≠c,t.reg.co d=w.reg.co d) (hc : (w.reg.co c).life≠.idle)
    (hfreed : (w.reg.co c).life≠.freed)
    (hpools : t.pools=w.pools) (hnext : t.nextPool=w.nextPool)
    (hlive : (t.reg.co c).life=.live → (t.reg.co c).cpool=none) : Owned bound t := by
  refine ⟨hs,?_,fun q cq hq => ?_,?_,fun d q hd hq => ?_⟩
  · rw [hpools,hnext]
    exact h.known
  · rw [hpools] at hq
    have hold := h.stocked q cq hq
    refine hold.congr fun d hd => hframe d ?_
    rintro rfl
    exact hd.elim (fun hidle => hc hidle.1) hfreed
  · rw [hpools]
    exact h.bounded
  · rw [hpools]
    by_cases hdc : d=c
    · subst hdc
      rw [hlive hd] at hq
      cases hq
    · rw [hframe d hdc] at hd hq
      exact h.live d q hd hq

/-- What pools and coroutines are does not depend on the rest of the world. -/
theorem Owned.congr (h : Owned bound w) (hreg : t.reg=w.reg) (hpools : t.pools=w.pools)
    (hnext : t.nextPool=w.nextPool) : Owned bound t := by
  refine ⟨?_,?_,?_,?_,?_⟩
  · rw [hreg]
    exact h.sound
  · rw [hpools,hnext]
    exact h.known
  · rw [hpools,hreg]
    exact h.stocked
  · rw [hpools]
    exact h.bounded
  · rw [hpools,hreg]
    exact h.live

/-- A coroutine outside the pools concerns no pool. -/
theorem Owned.createCoro (h : Owned bound w) :
    Owned bound {w with reg := createCoro w.reg isasymmetric} := by
  have hfresh := (h.sound.fresh w.reg.nextCo le_rfl).1
  have hco : (newcoro w.reg (newRecord isasymmetric)).co w.reg.nextCo=newRecord isasymmetric :=
    Function.update_self ..
  refine h.of_register (c := w.reg.nextCo) ?_ (fun d hd => ?_) (by simp [hfresh]) (by simp [hfresh])
    rfl rfl ?_
  · refine (h.sound.newcoro (r := newRecord isasymmetric) rfl).register ?_ (Nat.lt_succ_self _)
    rw [hco]
    simp [newRecord]
  · exact (register_co_of_ne hd).trans (Function.update_of_ne hd ..)
  · intro _
    show ((register _ _).co _).cpool=none
    rw [register_co_self,hco]
    rfl

/-- A coroutine that is not idle is freed. -/
theorem Owned.unregister_freed (h : Owned bound w) (hc : (w.reg.co c).life≠.idle)
    (ht : unregister w.reg c .freed=.ok s) : Owned bound {w with reg := s} := by
  refine h.of_register (c := c) (h.sound.unregister (by decide) ht)
    (fun d hd => unregister_co_of_ne ht hd) hc (unregister_ok ht).1 rfl rfl ?_
  intro hlive
  dsimp only at hlive
  rw [unregister_co_self ht] at hlive
  cases hlive

/-- `freecoro` on a live coroutine, which is on no free list. -/
theorem Owned.freecoro (h : Owned bound w) (hc : (w.reg.co c).life=.live)
    (ht : onRegister w (freecoro w.reg c)=.ok t) : Owned bound t := by
  obtain ⟨reg,hreg,rfl⟩ := map_eq_ok ht
  exact h.unregister_freed (by simp [hc]) hreg

/-- `dyco_asymcoro_free` frees a live coroutine or does nothing. -/
theorem dycoAsymcoroFree_ok (ht : dycoAsymcoroFree s cid=.ok s') :
    s'=s ∨ ∃ c,s.cidCoMap.lookup cid=some c ∧ unregister s c .freed=.ok s' := by
  unfold dycoAsymcoroFree at ht
  split at ht
  · exact .inl (Except.ok.inj ht).symm
  next c hc =>
    split_ifs at ht
    · exact .inr ⟨c,hc,ht⟩
    · exact .inl (Except.ok.inj ht).symm

/-- `dyco_asymcoro_free` reaches live coroutines only. -/
theorem Owned.dycoAsymcoroFree (h : Owned bound w)
    (ht : onRegister w (dycoAsymcoroFree w.reg cid)=.ok t) : Owned bound t := by
  obtain ⟨reg,hreg,rfl⟩ := map_eq_ok ht
  rcases dycoAsymcoroFree_ok hreg with rfl|⟨c,hc,hreg⟩
  · exact h
  · exact h.unregister_freed (by simp [(h.sound.entries cid c hc).1]) hreg

/-- A notification changes the list of a pool only. -/
theorem notifyFirst_ok (ht : notifyFirst w p cp=.ok t) : ∃ l,t.reg=w.reg ∧
    t.nextPool=w.nextPool ∧ t.pools=Function.update w.pools p (some {cp with sublist := l}) := by
  unfold notifyFirst at ht
  split at ht
  · cases ht
    exact ⟨cp.sublist,rfl,rfl,rfl⟩
  next head rest _ =>
    split at ht
    · cases ht
    · cases ht
      exact ⟨rest,rfl,rfl,rfl⟩

/-- A live coroutine goes back to its pool. -/
theorem Owned.cpReturn (h : Owned bound w) (hc : (w.reg.co c).life=.live)
    (ht : cpReturn w c=.ok t) : Owned bound t := by
  unfold CoroutinePool.cpReturn at ht
  split at ht
  · cases ht
    exact h
  next q hq =>
    split at ht
    · cases ht
    next cq hcq =>
      obtain ⟨reg,hreg,ht⟩ := bind_eq_ok ht
      obtain ⟨l,htreg,hnext,hpools⟩ := notifyFirst_ok ht
      have hstock := h.stocked q cq hcq
      obtain ⟨cq',hcq',hout⟩ := h.live c q hc hq
      cases hcq.symm.trans hcq'
      have hco := unregister_co_self hreg
      have hnew : c∉cq.freelist := fun hm => by
        have hidle := (hstock.idle c hm).1
        rw [hc] at hidle
        cases hidle
      refine h.put (c := c) hcq ?_ (fun d hd => ?_) (by simp [hc]) (by simp [hc]) hpools hnext
        ?_ ?_ (fun _ _ _ _ hx => hx) ?_ ?_
      · rw [htreg]
        exact h.sound.unregister (by decide) hreg
      · rw [htreg]
        exact unregister_co_of_ne hreg hd
      · rw [htreg]
        refine ⟨fun d hd => ?_,List.nodup_cons.mpr ⟨hnew,hstock.nodup⟩,?_,
          hstock.freed_of_frame (fun d hd => unregister_co_of_ne hreg hd) (unregister_ok hreg).1,?_⟩
        · dsimp only
          rcases List.mem_cons.mp hd with rfl|hd
          · rw [hco]
            exact ⟨rfl,hq⟩
          · rw [unregister_co_of_ne hreg fun he => hnew (he ▸ hd)]
            exact hstock.idle d hd
        · refine hstock.account.trans ?_
          refine List.Perm.append_right _ ?_
          show (cq.freelist++cq.out).Perm (c::cq.freelist++cq.out.erase c)
          refine (List.Perm.append_left _ (List.perm_cons_erase hout)).trans ?_
          exact List.perm_middle
        · have hlen := List.length_erase_of_mem hout
          have hpos := List.length_pos_of_mem hout
          have hactive := hstock.active
          show ((cq.out.erase c).length : ℤ)=cq.activenum-1
          omega
      · have hsame : surplus {cq with
            freelist := c::cq.freelist
            activenum := cq.activenum-1
            sublist := l
            out := cq.out.erase c}=surplus cq := by
          simp only [surplus,List.length_cons]
          push_cast
          omega
        rw [hsame]
        exact h.bounded q cq hcq
      · intro r hlive
        rw [htreg] at hlive
        dsimp only at hlive
        rw [hco] at hlive
        cases hlive
      · intro d hd hne
        exact (List.mem_erase_of_ne hne).mpr hd

/-- `dyco_asymcpool_return` reaches live coroutines only. -/
theorem Owned.dycoAsymcpoolReturn (h : Owned bound w) (ht : dycoAsymcpoolReturn w cid=.ok t) :
    Owned bound t := by
  unfold CoroutinePool.dycoAsymcpoolReturn at ht
  split at ht
  · cases ht
    exact h
  next c hc => exact h.cpReturn (h.sound.entries cid c hc).1 ht

/-- An aborted coroutine goes back to its pool or is freed. -/
theorem Owned.coroAbort (h : Owned bound w) (hc : (w.reg.co c).life=.live)
    (ht : coroAbort w c=.ok t) : Owned bound t := by
  unfold CoroutinePool.coroAbort at ht
  split_ifs at ht
  · exact h.dycoAsymcpoolReturn ht
  · exact h.cpReturn hc ht
  · exact h.dycoAsymcoroFree ht
  · exact h.freecoro hc ht

/-- An entry of `cid_co_map` is deleted. -/
theorem Owned.eraseCid (h : Owned bound w) (cid : ℤ) :
    Owned bound {w with reg := {w.reg with cidCoMap := w.reg.cidCoMap.erase cid}} := by
  refine ⟨⟨fun k c hk => ?_,h.sound.sched,h.sound.fresh⟩,h.known,
    fun q cq hq => (h.stocked q cq hq).congr fun _ _ => rfl,h.bounded,h.live⟩
  have hne : k≠cid := by
    rintro rfl
    dsimp only at hk
    rw [AList.lookup_erase] at hk
    cases hk
  exact h.sound.entries k c ((AList.lookup_erase_ne hne).symm.trans hk)

/-- A killed coroutine is aborted after its resumption. -/
theorem Owned.resumeKilled (h : Owned bound w) (ht : resumeKilled w c=.ok t) : Owned bound t := by
  unfold CoroutinePool.resumeKilled at ht
  split at ht
  · cases ht
    exact h
  next d hd =>
    split_ifs at ht
    obtain ⟨u,hu,rfl⟩ := map_eq_ok ht
    exact (h.coroAbort (h.sound.entries _ d hd).1 hu).eraseCid _

/-- An exited coroutine goes back to its pool or is freed. -/
theorem Owned.resumeExited (h : Owned bound w) (hc : (w.reg.co c).life=.live)
    (ht : resumeExited w c=.ok t) : Owned bound t := by
  unfold CoroutinePool.resumeExited at ht
  split_ifs at ht
  · exact h.cpReturn hc ht
  · exact h.freecoro hc ht

/-- A new object leaves the other records alone. -/
theorem newcoro_co_of_ne {r : Coro} (hc : c≠s.nextCo) : (newcoro s r).co c=s.co c :=
  Function.update_of_ne hc ..

/-- A pool gets a new object. -/
theorem Stocked.cpAdd (h : Stocked s p cp) (hs : Sound s) (isasymmetric : Bool) :
    Stocked (cpAdd p isasymmetric s cp).1 p (cpAdd p isasymmetric s cp).2 := by
  have hnew : s.nextCo∉cp.freelist := fun hm => by
    have hidle := (h.idle s.nextCo hm).1
    rw [(hs.fresh s.nextCo le_rfl).1] at hidle
    cases hidle
  refine ⟨fun c hc => ?_,List.nodup_cons.mpr ⟨hnew,h.nodup⟩,h.account.cons _,
    h.freed_of_frame (fun _ hd => newcoro_co_of_ne hd) (by simp [(hs.fresh s.nextCo le_rfl).1]),
    h.active⟩
  rcases List.mem_cons.mp hc with rfl|hc
  · simp [CoroutinePool.cpAdd,CoroutinePool.newcoro]
  · show ((CoroutinePool.newcoro s _).co c).life=_ ∧ ((CoroutinePool.newcoro s _).co c).cpool=_
    rw [newcoro_co_of_ne fun he => hnew (he ▸ hc)]
    exact h.idle c hc

/-- The loop of `cp_create` only adds objects. -/
theorem cpFill_spec (isasymmetric : Bool) (n : ℕ) (hs : Sound s) (h : Stocked s p cp) :
    Sound (cpFill p isasymmetric n s cp).1 ∧
    Stocked (cpFill p isasymmetric n s cp).1 p (cpFill p isasymmetric n s cp).2 ∧
    surplus (cpFill p isasymmetric n s cp).2=surplus cp+n ∧
    (cpFill p isasymmetric n s cp).2.leaked=cp.leaked ∧
    (∀ d<s.nextCo,(cpFill p isasymmetric n s cp).1.co d=s.co d) ∧
    ∀ d,s.nextCo≤d → ((cpFill p isasymmetric n s cp).1.co d).life≠.live := by
  induction n generalizing s cp with
  | zero =>
    refine ⟨hs,h,by simp [cpFill],rfl,fun _ _ => rfl,fun d hd => ?_⟩
    rw [cpFill,(hs.fresh d hd).1]
    simp
  | succ n ih =>
    have hadd : Sound (cpAdd p isasymmetric s cp).1 := hs.newcoro rfl
    obtain ⟨hsound,hstock,hsurplus,hleaked,hold,hlive⟩ := ih hadd (h.cpAdd hs isasymmetric)
    rw [cpFill]
    refine ⟨hsound,hstock,?_,hleaked,fun d hd => ?_,fun d hd => ?_⟩
    · rw [hsurplus]
      simp only [surplus,cpAdd,List.length_cons]
      push_cast
      omega
    · rw [hold d (Nat.lt_succ_of_lt hd)]
      exact newcoro_co_of_ne (Nat.ne_of_lt hd)
    · rcases Nat.eq_or_lt_of_le hd with rfl|hlt
      · rw [hold s.nextCo (Nat.lt_succ_self _)]
        simp [cpAdd,newcoro]
      · exact hlive d hlt

/-- A new pool owns exactly the objects made for it. -/
theorem Owned.cpCreate (h : Owned bound w) (hzero : ∀ q,bound q 0 []) (totalsize : ℤ)
    (isasymmetric : Bool) : Owned bound (cpCreate w totalsize isasymmetric) := by
  unfold CoroutinePool.cpCreate
  split_ifs with hsize
  · exact h
  · have hnone : w.pools w.nextPool=none := by
      cases hp : w.pools w.nextPool with
      | none => rfl
      | some cp => exact absurd (h.known _ cp hp) (lt_irrefl _)
    have hempty : Stocked w.reg w.nextPool ⟨totalsize,0,[],[],[],[],[],[]⟩ :=
      ⟨fun _ hm => absurd hm List.not_mem_nil,List.nodup_nil,.refl _,
        fun _ hm => absurd hm List.not_mem_nil,rfl⟩
    obtain ⟨hsound,hstock,hsurplus,hleaked,hold,hlive⟩ :=
      cpFill_spec isasymmetric totalsize.toNat h.sound hempty
    have hlt : ∀ d,(w.reg.co d).life≠.unborn → d<w.reg.nextCo := fun d hd =>
      Nat.lt_of_not_le fun hge => hd (h.sound.fresh d hge).1
    refine ⟨hsound,fun q cq hq => ?_,fun q cq hq => ?_,fun q cq hq => ?_,fun d q hd hq => ?_⟩
    · show q<w.nextPool+1
      by_cases hqp : q=w.nextPool
      · omega
      · have hold := h.known q cq ((putPool_of_ne hqp ..).symm.trans hq)
        omega
    · by_cases hqp : q=w.nextPool
      · subst hqp
        cases (putPool_self ..).symm.trans hq
        exact hstock
      · have hpool := h.stocked q cq ((putPool_of_ne hqp ..).symm.trans hq)
        refine hpool.congr fun d hd => hold d (hlt d fun hunborn => ?_)
        rw [hunborn] at hd
        simp at hd
    · by_cases hqp : q=w.nextPool
      · subst hqp
        cases (putPool_self ..).symm.trans hq
        have hfull : surplus (⟨totalsize,0,[],[],[],[],[],[]⟩ : Pool)+totalsize.toNat=0 := by
          simp only [surplus,List.length_nil]
          omega
        rw [hsurplus,hfull,hleaked]
        exact hzero _
      · exact h.bounded q cq ((putPool_of_ne hqp ..).symm.trans hq)
    · have hd' : ((cpFill w.nextPool isasymmetric totalsize.toNat w.reg
          ⟨totalsize,0,[],[],[],[],[],[]⟩).1.co d).life=.live := hd
      have hdlt : d<w.reg.nextCo := Nat.lt_of_not_le fun hge => hlive d hge hd'
      have hco : (w.reg.co d).life=.live ∧ (w.reg.co d).cpool=some q := by
        rw [← hold d hdlt]
        exact ⟨hd,hq⟩
      obtain ⟨cq,hcq,hm⟩ := h.live d q hco.1 hco.2
      refine ⟨cq,?_,hm⟩
      have hqp : q≠w.nextPool := by
        rintro rfl
        rw [hnone] at hcq
        cases hcq
      exact (putPool_of_ne hqp ..).trans hcq

/-- A bound that the pool `p` meets after `k` coroutines more or less. -/
def shift (bound : ℕ → ℤ → List Co → Prop) (p : ℕ) (k : ℤ) (q : ℕ) (x : ℤ) (l : List Co) : Prop :=
  bound q (if q=p then x-k else x) l

/-- No shift is the bound itself. -/
theorem shift_zero (bound : ℕ → ℤ → List Co → Prop) (p : ℕ) : shift bound p 0=bound := by
  funext q x l
  simp [shift]

/-- The pool whose size changes. -/
theorem shift_self {x k : ℤ} {l : List Co} : shift bound p k p x l ↔ bound p (x-k) l := by
  simp [shift]

/-- The other pools. -/
theorem shift_of_ne {x k : ℤ} {l : List Co} (hq : q≠p) : shift bound p k q x l ↔ bound q x l := by
  simp [shift,hq]

/-- The state in the loops of `cp_resize` and `cp_destroy`. -/
def Resizing (bound : ℕ → ℤ → List Co → Prop) (p : ℕ) (totalsize activenum k : ℤ) (w : World) : Prop :=
  Owned (shift bound p k) w ∧
  ∃ cp,w.pools p=some cp ∧ cp.totalsize=totalsize ∧ cp.activenum=activenum

/-- One round of growing adds one idle object to the pool. -/
theorem Resizing.cpGrow {T A k : ℤ} (h : Resizing bound p T A k w)
    (ht : cpGrow p isasymmetric w=.ok t) : Resizing bound p T A (k+1) t := by
  obtain ⟨ho,cp,hp,hT,hA⟩ := h
  simp only [CoroutinePool.cpGrow,hp] at ht
  obtain ⟨l,hreg,hnext,hpools⟩ := notifyFirst_ok ht
  have hstock := (ho.stocked p cp hp).cpAdd ho.sound isasymmetric
  have hreg' : t.reg=(cpAdd p isasymmetric w.reg cp).1 := hreg
  have hpool : t.pools p=some {(cpAdd p isasymmetric w.reg cp).2 with sublist := l} := by
    rw [hpools,Function.update_self]
  refine ⟨?_,_,hpool,hT,hA⟩
  have hunborn := (ho.sound.fresh w.reg.nextCo le_rfl).1
  refine ho.put (c := w.reg.nextCo) hp ?_ (fun d hd => ?_) (by simp [hunborn]) (by simp [hunborn])
    hpools hnext ?_ ?_ ?_ ?_ ?_
  · rw [hreg']
    exact ho.sound.newcoro rfl
  · rw [hreg']
    exact newcoro_co_of_ne hd
  · rw [hreg']
    exact ⟨hstock.idle,hstock.nodup,hstock.account,hstock.freed,hstock.active⟩
  · have hbound := shift_self.mp (ho.bounded p cp hp)
    refine shift_self.mpr ?_
    have hone : surplus {(cpAdd p isasymmetric w.reg cp).2 with sublist := l}-(k+1)=surplus cp-k := by
      simp only [surplus,cpAdd,List.length_cons]
      push_cast
      omega
    rw [hone]
    exact hbound
  · intro q hq x l hx
    exact (shift_of_ne hq).mpr ((shift_of_ne hq).mp hx)
  · intro q hlive
    rw [hreg'] at hlive
    simp [cpAdd,newcoro] at hlive
  · intro d hd _
    exact hd

/-- The free list loses its head. -/
@[simp] theorem takeFirst_freelist {rest : List Co} : (takeFirst s cp c rest).freelist=rest := by
  unfold takeFirst
  split_ifs <;> rfl

/-- Nobody is handed out by it. -/
@[simp] theorem takeFirst_out {rest : List Co} : (takeFirst s cp c rest).out=cp.out := by
  unfold takeFirst
  split_ifs <;> rfl

/-- The objects ever made for the pool stay the same. -/
@[simp] theorem takeFirst_made {rest : List Co} : (takeFirst s cp c rest).made=cp.made := by
  unfold takeFirst
  split_ifs <;> rfl

/-- The waiters stay the same. -/
@[simp] theorem takeFirst_sublist {rest : List Co} : (takeFirst s cp c rest).sublist=cp.sublist := by
  unfold takeFirst
  split_ifs <;> rfl

/-- The size is counted down elsewhere. -/
@[simp] theorem takeFirst_totalsize {rest : List Co} :
    (takeFirst s cp c rest).totalsize=cp.totalsize := by
  unfold takeFirst
  split_ifs <;> rfl

/-- The count of those handed out stays the same. -/
@[simp] theorem takeFirst_activenum {rest : List Co} :
    (takeFirst s cp c rest).activenum=cp.activenum := by
  unfold takeFirst
  split_ifs <;> rfl

/-- The coroutine that is taken goes to one of the two accounts. -/
theorem takeFirst_perm {rest : List Co} :
    ((takeFirst s cp c rest).gone++(takeFirst s cp c rest).leaked).Perm
      (c::(cp.gone++cp.leaked)) := by
  unfold takeFirst
  split_ifs
  · exact .refl _
  · exact List.perm_middle

/-- It is accounted as released only if it was freed. -/
theorem mem_gone_takeFirst {d : Co} {rest : List Co} (hd : d∈(takeFirst s cp c rest).gone) :
    d∈cp.gone ∨ d=c ∧ (s.co c).life=.freed := by
  unfold takeFirst at hd
  split_ifs at hd with hfreed
  · exact (List.mem_cons.mp hd).symm.imp_right fun he => ⟨he,hfreed⟩
  · exact .inl hd

/-- An idle coroutine is taken from the freelist; its release changes the object `d`. -/
theorem Resizing.drop {T A k : ℤ} {d : Co} {rest : List Co} (h : Resizing bound p T A k w)
    (hp : w.pools p=some cp) (hfree : cp.freelist=c::rest)
    (hd : d=c ∨ (w.reg.co d).life=.live) (hs : Sound s)
    (hother : ∀ e≠d,s.co e=w.reg.co e) (hlife : (s.co d).life≠.live)
    (hleak : (s.co c).life=.freed ∨ ∀ x l,bound p x l → bound p x (c::l)) :
    Resizing bound p T A (k-1) (putPool {w with reg := s} p (takeFirst s cp c rest)) := by
  obtain ⟨ho,cp',hp',hT,hA⟩ := h
  cases hp.symm.trans hp'
  have hstock := ho.stocked p cp hp
  obtain ⟨hidle,hnodup,haccount,-,hactive⟩ := ho.stocked p cp hp
  rw [hfree] at hidle hnodup haccount
  have hout : d∉rest := by
    intro hm
    rcases hd with rfl|hlive
    · exact (List.nodup_cons.mp hnodup).1 hm
    · rw [(hidle d (List.mem_cons_of_mem _ hm)).1] at hlive
      cases hlive
  have hkept : (w.reg.co d).life≠.freed := by
    rcases hd with rfl|hlive
    · simp [(hidle d List.mem_cons_self).1]
    · simp [hlive]
  refine ⟨?_,_,putPool_self ..,by simpa using hT,by simpa using hA⟩
  refine ho.put (c := d) hp hs hother ?_ hkept rfl rfl
    ⟨fun e he => ?_,?_,?_,fun e he => ?_,by simpa using hactive⟩ ?_ ?_ ?_ ?_
  · intro hi
    rcases hd with rfl|hlive
    · exact (hidle d List.mem_cons_self).2
    · rw [hi] at hlive
      cases hlive
  · rw [takeFirst_freelist] at he
    show (s.co e).life=_ ∧ (s.co e).cpool=_
    rw [hother e fun heq => hout (heq ▸ he)]
    exact hidle e (List.mem_cons_of_mem _ he)
  · rw [takeFirst_freelist]
    exact (List.nodup_cons.mp hnodup).2
  · rw [takeFirst_made,takeFirst_freelist,takeFirst_out]
    refine haccount.trans ?_
    refine List.Perm.trans ?_ (takeFirst_perm.append_left _).symm
    exact List.perm_middle.symm
  · rcases mem_gone_takeFirst he with he|⟨rfl,hfreed⟩
    · exact hstock.freed_of_frame hother hkept e he
    · exact hfreed
  · have hbound := shift_self.mp (ho.bounded p cp hp)
    refine shift_self.mpr ?_
    have hone : surplus (takeFirst s cp c rest)-(k-1)=surplus cp-k := by
      simp only [surplus,hfree,List.length_cons,takeFirst_freelist,takeFirst_totalsize,
        takeFirst_activenum]
      push_cast
      omega
    rw [hone]
    unfold takeFirst
    split_ifs with hfreed
    · exact hbound
    · exact hleak.resolve_left hfreed _ _ hbound
  · intro q hq x l hx
    exact (shift_of_ne hq).mpr ((shift_of_ne hq).mp hx)
  · intro q hlive
    exact absurd hlive hlife
  · intro e he _
    rwa [takeFirst_out]

/-- What a release of an idle coroutine does to the register: the object itself, or the
one found under its cid, is freed, or nothing happens. -/
theorem Sound.releaseIdle {d : Co} (h : Sound s) (hd : (s.co d).life=.idle)
    (ht : (if isasymmetric then freecoro s d else dycoAsymcoroFree s (s.co d).cid)=.ok s') :
    Sound s' ∧ (isasymmetric=true → (s'.co d).life=.freed) ∧
    ∃ e,(e=d ∨ (s.co e).life=.live) ∧ (∀ x≠e,s'.co x=s.co x) ∧ (s'.co e).life≠.live := by
  have hun : ∀ {e},CoroutinePool.unregister s e .freed=.ok s' →
      Sound s' ∧ (∀ x≠e,s'.co x=s.co x) ∧ (s'.co e).life≠.live := by
    intro e he
    refine ⟨h.unregister (by decide) he,fun x hx => unregister_co_of_ne he hx,?_⟩
    rw [unregister_co_self he]
    exact Life.noConfusion
  cases isasymmetric with
  | true =>
    obtain ⟨hs,hrest⟩ := hun (e := d) ht
    refine ⟨hs,fun _ => ?_,d,.inl rfl,hrest⟩
    rw [unregister_co_self ht]
  | false =>
    rcases dycoAsymcoroFree_ok ht with rfl|⟨e,he,hrel⟩
    · exact ⟨h,Bool.noConfusion,d,.inl rfl,fun _ _ => rfl,by simp [hd]⟩
    · obtain ⟨hs,hrest⟩ := hun hrel
      exact ⟨hs,Bool.noConfusion,e,.inr (h.entries _ e he).1,hrest⟩

/-- One round of the loops that release idle coroutines. Those of a symmetric pool may
leak. -/
theorem Resizing.cpDrop {T A k : ℤ} (h : Resizing bound p T A k w)
    (hleak : isasymmetric=true ∨ ∀ c x l,bound p x l → bound p x (c::l))
    (ht : cpDrop p isasymmetric w=.ok t) : Resizing bound p T A (k-1) t := by
  obtain ⟨ho,cp,hp,hT,hA⟩ := h
  simp only [CoroutinePool.cpDrop,hp] at ht
  split at ht
  · cases ht
  next c rest hfree =>
    obtain ⟨reg,hreg,ht⟩ := bind_eq_ok ht
    cases ht
    have hidle := ((ho.stocked p cp hp).idle c (hfree ▸ List.mem_cons_self)).1
    obtain ⟨hs,hfreed,d,hd,hother,hlife⟩ := ho.sound.releaseIdle hidle hreg
    exact Resizing.drop ⟨ho,cp,hp,hT,hA⟩ hp hfree hd hs hother hlife
      (hleak.imp hfreed fun hl => hl c)

/-- The end of a resize: the surplus grows by what `totalsize` falls. -/
theorem Resizing.setTotalsize {T A k newsize : ℤ} (h : Resizing bound p T A k w)
    (hbound : ∀ (n : ℕ) l,bound p (n-(T-A)-k) l → bound p (n-(newsize-A)) l) :
    Owned bound (setTotalsize p newsize w) := by
  obtain ⟨ho,cp,hp,rfl,rfl⟩ := h
  have hstock := ho.stocked p cp hp
  have hold := shift_self.mp (ho.bounded p cp hp)
  have hpools : (CoroutinePool.setTotalsize p newsize w).pools=
      Function.update w.pools p (some {cp with totalsize := newsize}) := by
    simp [CoroutinePool.setTotalsize,hp]
  -- no object changes, so that any object that is not idle will do
  have hunborn := (ho.sound.fresh w.reg.nextCo le_rfl).1
  refine ho.put (c := w.reg.nextCo) hp ho.sound (fun _ _ => rfl) (by simp [hunborn])
    (by simp [hunborn]) hpools rfl
    ⟨hstock.idle,hstock.nodup,hstock.account,hstock.freed,hstock.active⟩
    (hbound cp.freelist.length _ hold) (fun q hq x l hx => (shift_of_ne hq).mp hx) ?_
    (fun _ hd _ => hd)
  intro q hlive
  have hfresh : (w.reg.co w.reg.nextCo).life=.live := hlive
  rw [hunborn] at hfresh
  cases hfresh

/-- A loop whose rounds take idle coroutines. -/
theorem Resizing.times_drop {T A : ℤ} {n : ℕ} {f : World → Except Fault World}
    (hround : ∀ k u u',Resizing bound p T A k u → f u=.ok u' → Resizing bound p T A (k-1) u')
    (h : Resizing bound p T A 0 w) (hu : times f n w=.ok t) :
    Resizing bound p T A (-(n : ℤ)) t := by
  have hloop := times_invariant (fun i => Resizing bound p T A (-(i : ℤ)))
    (fun i b b' hb hf => by
      have hnext := hround _ b b' hb hf
      rwa [show -(i : ℤ)-1= -((i+1 : ℕ) : ℤ) by push_cast; omega] at hnext)
    (i := 0) (by simpa using h) hu
  rwa [Nat.zero_add] at hloop

/-- The end of a resize that has released idle coroutines. -/
theorem Resizing.shrunk {newsize : ℤ}
    (h : Resizing bound p cp.totalsize cp.activenum (-(dropCount cp newsize : ℤ)) w)
    (hle : newsize≤cp.totalsize)
    (hbelow : newsize<cp.activenum → ∀ (n : ℕ) l,bound p (n+(cp.activenum-newsize)) l) :
    Owned bound (CoroutinePool.setTotalsize p newsize w) := by
  refine h.setTotalsize fun n l hn => ?_
  by_cases hactive : cp.activenum≤newsize
  · have he : (n : ℤ)-(cp.totalsize-cp.activenum)- -(dropCount cp newsize : ℤ)=
        n-(newsize-cp.activenum) := by
      rw [dropCount,if_pos hactive]
      omega
    rwa [he] at hn
  · have hnew := hbelow (by omega) n l
    rwa [show (n : ℤ)+(cp.activenum-newsize)=n-(newsize-cp.activenum) by omega] at hnew

/-- A pool without coroutines in use is given up. -/
theorem Resizing.destroyed {T k : ℤ}
    (h : Resizing (fun q x l => q≠p → bound q x l) p T 0 k w) :
    Owned bound (reply {w with pools := Function.update w.pools p none} (.destroy p 0)) := by
  obtain ⟨ho,cu,hcu,-,hA⟩ := h
  have hother : ∀ q cq,Function.update w.pools p none q=some cq → q≠p ∧ w.pools q=some cq := by
    intro q cq hq
    by_cases hqp : q=p
    · rw [hqp,Function.update_self] at hq
      cases hq
    · rw [Function.update_of_ne hqp] at hq
      exact ⟨hqp,hq⟩
  refine ⟨ho.sound,fun q cq hq => ho.known q cq (hother q cq hq).2,
    fun q cq hq => ho.stocked q cq (hother q cq hq).2,
    fun q cq hq => (shift_of_ne (hother q cq hq).1).mp (ho.bounded q cq (hother q cq hq).2)
      (hother q cq hq).1,
    fun d q hd hq => ?_⟩
  obtain ⟨cq,hcq,hm⟩ := ho.live d q hd hq
  have hqp : q≠p := by
    rintro rfl
    cases hcu.symm.trans hcq
    have hnone := (ho.stocked q cu hcu).active
    have hpos := List.length_pos_of_mem hm
    omega
  exact ⟨cq,(Function.update_of_ne hqp ..).trans hcq,hm⟩

/-- A weaker bound. -/
theorem Owned.mono (h : Owned bound w) (hb : ∀ q x l,bound q x l → bound' q x l) :
    Owned bound' w :=
  ⟨h.sound,h.known,h.stocked,fun q cq hq => hb _ _ _ (h.bounded q cq hq),h.live⟩

/-- Before the first round of a loop. -/
theorem Owned.resizing (h : Owned bound w) (hp : w.pools p=some cp) :
    Resizing bound p cp.totalsize cp.activenum 0 w :=
  ⟨by rw [shift_zero]; exact h,cp,hp,rfl,rfl⟩

/-- The loop of `cp_resize` that increases a pool keeps the surplus. -/
theorem Owned.grown {newsize : ℤ} (h : Owned bound w) (hp : w.pools p=some cp)
    (hless : cp.totalsize<newsize)
    (hu : times (CoroutinePool.cpGrow p isasymmetric) (newsize-cp.totalsize).toNat w=.ok t) :
    Owned bound (setTotalsize p newsize t) := by
  have hloop := times_invariant (fun i => Resizing bound p cp.totalsize cp.activenum (i : ℤ))
    (fun i _ _ hb hf => by
      have hround := hb.cpGrow hf
      exact_mod_cast hround) (i := 0) (h.resizing hp) hu
  refine hloop.setTotalsize fun n l hn => ?_
  have he : (n : ℤ)-(cp.totalsize-cp.activenum)-((0+(newsize-cp.totalsize).toNat : ℕ) : ℤ)=
      n-(newsize-cp.activenum) := by
    push_cast
    omega
  rwa [he] at hn

/-- A resize whose rounds take idle coroutines keeps the surplus, unless it goes below the
number of coroutines in use. -/
theorem Owned.resized {newsize : ℤ} {drop : World → Except Fault World} (h : Owned bound w)
    (hp : w.pools p=some cp)
    (hround : newsize<cp.totalsize → ∀ k u u',Resizing bound p cp.totalsize cp.activenum k u →
      drop u=.ok u' → Resizing bound p cp.totalsize cp.activenum (k-1) u')
    (hbelow : newsize<cp.activenum → ∀ (n : ℕ) l,bound p (n+(cp.activenum-newsize)) l)
    (ht : (if newsize=cp.totalsize then .ok w
      else if cp.totalsize<newsize then
        (times (CoroutinePool.cpGrow p isasymmetric) (newsize-cp.totalsize).toNat w).map
          (setTotalsize p newsize)
      else (times drop (dropCount cp newsize) w).map (setTotalsize p newsize))=.ok t) :
    Owned bound t := by
  split_ifs at ht with hsame hless
  · cases ht
    exact h
  · obtain ⟨u,hu,rfl⟩ := map_eq_ok ht
    exact h.grown hp hless hu
  · obtain ⟨u,hu,rfl⟩ := map_eq_ok ht
    exact ((h.resizing hp).times_drop (hround (by omega)) hu).shrunk (by omega) hbelow

/-- The same for a pool that is destroyed. -/
theorem Owned.emptied {drop : World → Except Fault World} (h : Owned bound w)
    (hp : w.pools p=some cp)
    (hround : ∀ k u u',
      Resizing (fun q x l => q≠p → bound q x l) p cp.totalsize cp.activenum k u → drop u=.ok u' →
      Resizing (fun q x l => q≠p → bound q x l) p cp.totalsize cp.activenum (k-1) u')
    (ht : (if cp.activenum≠0 then .ok (reply w (.destroy p (-1)))
      else (times drop cp.totalsize.toNat w).map fun w =>
        reply {w with pools := Function.update w.pools p none} (.destroy p 0))=.ok t) :
    Owned bound t := by
  split_ifs at ht with hzero
  · cases ht
    exact h.congr rfl rfl rfl
  · obtain ⟨u,hu,rfl⟩ := map_eq_ok ht
    have hfree : Owned (fun q x l => q≠p → bound q x l) w := h.mono fun _ _ _ hb _ => hb
    have hloop := (hfree.resizing hp).times_drop hround hu
    rw [not_not.mp hzero] at hloop
    exact hloop.destroyed

/-- A resize keeps the account when its new size and its leaks stay within the bound. -/
theorem Owned.cpResize {newsize : ℤ} (h : Owned bound w)
    (hbelow : ∀ cp,w.pools p=some cp → newsize<cp.activenum →
      ∀ (n : ℕ) l,bound p (n+(cp.activenum-newsize)) l)
    (hleak : ∀ cp,w.pools p=some cp → newsize<cp.totalsize →
      isasymmetric=true ∨ ∀ c x l,bound p x l → bound p x (c::l))
    (ht : cpResize w p newsize isasymmetric=.ok t) : Owned bound t := by
  unfold CoroutinePool.cpResize at ht
  split at ht
  · cases ht
  next cp hp =>
    exact h.resized hp (fun hlt _ _ _ hb hf => hb.cpDrop (hleak cp hp hlt) hf) (hbelow cp hp) ht

/-- A destroyed pool owes nothing, and the other pools are not touched. -/
theorem Owned.cpDestroy (h : Owned bound w) (ht : cpDestroy w p isasymmetric=.ok t) :
    Owned bound t := by
  unfold CoroutinePool.cpDestroy at ht
  split at ht
  · cases ht
  next cp hp =>
    refine h.emptied hp (fun _ _ _ hb hf => hb.cpDrop (.inr ?_) hf) ht
    exact fun _ _ _ _ hq => absurd rfl hq

/-- Renewing one record leaves the others alone. -/
theorem renew_co_of_ne {d : Co} (hd : d≠c) : (renew s c isasymmetric).co d=s.co d :=
  Function.update_of_ne hd ..

/-- The record of a pooled object that is about to be handed out. -/
theorem renew_co_self : (renew s c isasymmetric).co c=
    {s.co c with flagsAsymmetric := isasymmetric,flagsIncoropool := true} := Function.update_self ..

/-- The register does not depend on the status word. -/
theorem Sound.renew (h : Sound s) : Sound (renew s c isasymmetric) := by
  have hco : ∀ d,((CoroutinePool.renew s c isasymmetric).co d).life=(s.co d).life ∧
      ((CoroutinePool.renew s c isasymmetric).co d).cid=(s.co d).cid ∧
      ((CoroutinePool.renew s c isasymmetric).co d).sched=(s.co d).sched := by
    intro d
    by_cases hd : d=c
    · rw [hd,renew_co_self]
      exact ⟨rfl,rfl,rfl⟩
    · rw [renew_co_of_ne hd]
      exact ⟨rfl,rfl,rfl⟩
  refine ⟨fun k d hk => ?_,fun d hd => ?_,fun d hd => ?_⟩
  · rw [(hco d).1,(hco d).2.1]
    exact h.entries k d hk
  · rw [(hco d).2.2]
    exact h.sched d ((hco d).1.symm.trans hd)
  · rw [(hco d).1,(hco d).2.2]
    exact h.fresh d hd

/-- `cp_obtain` takes the first idle coroutine. -/
theorem Owned.cpTake {caller : Co} {timeout : ℤ} (h : Owned bound w) (hp : w.pools p=some cp)
    (ht : cpTake w caller p cp timeout isasymmetric=.ok t) : Owned bound t := by
  unfold CoroutinePool.cpTake at ht
  split at ht
  · cases ht
  next c rest hfree =>
    cases ht
    have hstock := h.stocked p cp hp
    obtain ⟨hidle,hnodup,haccount,-,hactive⟩ := h.stocked p cp hp
    rw [hfree] at hidle hnodup haccount
    obtain ⟨hc,hcpool⟩ := hidle c List.mem_cons_self
    have hlt : c<w.reg.nextCo := Nat.lt_of_not_le fun hge => by
      rw [(h.sound.fresh c hge).1] at hc
      cases hc
    have hframe : ∀ d≠c,(register (renew w.reg c isasymmetric) c).co d=w.reg.co d :=
      fun d hd => (register_co_of_ne hd).trans (renew_co_of_ne hd)
    have hrenew : (register (renew w.reg c isasymmetric) c).co c={w.reg.co c with
        life := .live
        cid := w.reg.nextCid
        sched := true
        flagsAsymmetric := isasymmetric
        flagsIncoropool := true} := by
      rw [register_co_self,renew_co_self]
      rfl
    have hsound : Sound (register (renew w.reg c isasymmetric) c) := by
      refine h.sound.renew.register ?_ hlt
      rw [renew_co_self]
      simp [hc]
    have hout : c∉rest := (List.nodup_cons.mp hnodup).1
    refine h.put (c := c) hp hsound hframe (fun _ => hcpool) (by simp [hc]) rfl rfl
      ⟨fun d hd => ?_,(List.nodup_cons.mp hnodup).2,?_,hstock.freed_of_frame hframe (by simp [hc]),
        ?_⟩ ?_ (fun _ _ _ _ hx => hx) ?_ ?_
    · show ((register _ c).co d).life=_ ∧ ((register _ c).co d).cpool=_
      rw [hframe d fun he => hout (he ▸ hd)]
      exact hidle d (List.mem_cons_of_mem _ hd)
    · refine haccount.trans (List.Perm.append_right _ ?_)
      show (c::(rest++cp.out)).Perm (rest++c::cp.out)
      exact List.perm_middle.symm
    · show ((c::cp.out).length : ℤ)=cp.activenum+1
      rw [List.length_cons]
      push_cast
      omega
    · have hsame : surplus {cp with
          freelist := rest
          activenum := cp.activenum+1
          out := c::cp.out}=surplus cp := by
        simp only [surplus,hfree,List.length_cons]
        push_cast
        omega
      rw [hsame]
      exact h.bounded p cp hp
    · intro q _ hq
      have hq' : ((register (renew w.reg c isasymmetric) c).co c).cpool=some q := hq
      rw [hrenew] at hq'
      exact ⟨Option.some.inj (hq'.symm.trans hcpool),List.mem_cons_self⟩
    · intro d hd _
      exact List.mem_cons_of_mem _ hd

/-- `cp_obtain` from its second half on: an object is handed out, or the caller blocks or gives
up. -/
theorem Owned.cpObtainRest {caller : Co} {timeout : ℤ} (h : Owned bound w) (hp : w.pools p=some cp)
    (ht : cpObtainRest w caller p cp timeout isasymmetric=.ok t) : Owned bound t := by
  unfold CoroutinePool.cpObtainRest at ht
  split_ifs at ht
  · cases ht
    exact h.congr rfl rfl rfl
  · exact h.cpTake hp ht

/-- The list of waiting callers does not matter. -/
theorem Owned.setSublist (h : Owned bound w) (hp : w.pools p=some cp) {l : List ℤ}
    (hreg : t.reg=w.reg) (hpools : t.pools=Function.update w.pools p (some {cp with sublist := l}))
    (hnext : t.nextPool=w.nextPool) : Owned bound t := by
  have hstock := h.stocked p cp hp
  have hunborn := (h.sound.fresh w.reg.nextCo le_rfl).1
  refine h.put (c := w.reg.nextCo) hp ?_ (fun _ _ => by rw [hreg]) (by simp [hunborn])
    (by simp [hunborn]) hpools hnext ?_ (h.bounded p cp hp) (fun _ _ _ _ hx => hx) ?_
    (fun _ hd _ => hd)
  · rw [hreg]
    exact h.sound
  · rw [hreg]
    exact ⟨hstock.idle,hstock.nodup,hstock.account,hstock.freed,hstock.active⟩
  · intro q hlive
    rw [hreg,hunborn] at hlive
    cases hlive

/-- `cp_obtain` keeps the account of every pool. -/
theorem Owned.cpObtain {caller : Co} {context : Context} {timeout fd : ℤ} {allocated : Bool}
    (h : Owned bound w)
    (ht : cpObtain w caller context p timeout isasymmetric fd allocated=.ok t) : Owned bound t := by
  unfold CoroutinePool.cpObtain at ht
  split at ht
  · cases ht
  next cp hp =>
    split_ifs at ht
    · exact h.cpObtainRest hp ht
    · cases ht
      exact h.setSublist hp rfl rfl rfl
    · cases ht
      exact h.congr rfl rfl rfl

/-- A resumed waiter goes on with `cp_obtain`. -/
theorem Owned.afterYield {v : Waiter} (h : Owned bound w) (ht : afterYield w v=.ok t) :
    Owned bound t := by
  unfold CoroutinePool.afterYield at ht
  split at ht
  · cases ht
  next cp hp =>
    dsimp only at ht
    split_ifs at ht
    · exact (h.congr (t := {w with
        fds := close w.fds v.notifyfd
        blocked := w.blocked.filter fun u => u.notifyfd≠v.notifyfd}) rfl rfl rfl).cpObtainRest hp ht
    · refine Owned.cpObtainRest (h.setSublist (l := cp.sublist.erase v.notifyfd) hp ?_ ?_ ?_)
        (putPool_self ..) ht <;> rfl

/-- Every step keeps the account, if its resizes do. -/
theorem Owned.step (h : Owned bound w) (hzero : ∀ q,bound q 0 [])
    (hbelow : ∀ q newsize isasymmetric cq,a=.resize q newsize isasymmetric → w.pools q=some cq →
      newsize<cq.activenum → ∀ (n : ℕ) l,bound q (n+(cq.activenum-newsize)) l)
    (hleak : ∀ q newsize isasymmetric cq,a=.resize q newsize isasymmetric → w.pools q=some cq →
      newsize<cq.totalsize → isasymmetric=true ∨ ∀ c x l,bound q x l → bound q x (c::l))
    (ha : step w a=some (.ok t)) : Owned bound t := by
  cases happens_of_step ha with
  | create => exact h.createCoro.congr rfl rfl rfl
  | createUrgent => exact h.createCoro.congr rfl rfl rfl
  | asymCreate => exact h.createCoro.congr rfl rfl rfl
  | exit hactive ht => exact h.resumeExited hactive.1 ht
  | abort _ ht => exact h.resumeKilled ht
  | asymFree ht => exact h.dycoAsymcoroFree ht
  | poolCreate => exact h.cpCreate hzero _ _
  | obtain _ _ ht => exact h.cpObtain ht
  | resume _ ht => exact h.afterYield ht
  | asymReturn ht => exact h.dycoAsymcpoolReturn ht
  | resize ht =>
    exact h.cpResize (fun cq hq => hbelow _ _ _ cq rfl hq) (fun cq hq => hleak _ _ _ cq rfl hq) ht
  | destroy ht => exact h.cpDestroy ht
  | openOther => exact h.congr rfl rfl rfl
  | closeOther => exact h.congr rfl rfl rfl

/-- The freelist stays long enough in every step. -/
theorem Owned.step_nonneg (h : Owned (fun _ x _ => 0≤x) w)
    (ha : CoroutinePool.step w a=some (.ok t)) : Owned (fun _ x _ => 0≤x) t := by
  refine h.step (fun _ => le_rfl) (fun q newsize isasymmetric cq _ _ hlt n _ => ?_)
    (fun _ _ _ _ _ _ _ => .inr fun _ _ _ hx => hx) ha
  omega

/-- A new scheduler has no pool. -/
theorem owned_newScheduler (schedId : ℕ) : Owned bound (newScheduler schedId) := by
  refine ⟨⟨?_,?_,?_⟩,?_,?_,?_,?_⟩ <;> simp [newScheduler]

/-- The freelist is long enough in every run. -/
theorem owned_of_runs {schedId : ℕ} {cond : World → Act → Prop}
    (h : Runs step cond (newScheduler schedId) w) : Owned (fun _ x _ => 0≤x) w :=
  h.invariant (Owned fun _ x _ => 0≤x) (owned_newScheduler schedId) fun _ _ _ hw _ ha =>
    hw.step_nonneg ha

/-- The pool `p` is not resized below the number of its coroutines in use, only an
asymmetric pool is made smaller, and what `cp_resize` or `cp_destroy` releases of it with
`freecoro` was obtained before. -/
def keepsActive (p : ℕ) (w : World) : Act → Bool
  | .resize q newsize isasymmetric => q≠p || (w.pools q).all fun cq =>
    cq.activenum≤newsize && (cq.totalsize≤newsize || isasymmetric &&
      (cq.freelist.take (dropCount cq newsize)).all fun c => (w.reg.co c).sched)
  | .destroy q isasymmetric => q≠p || (w.pools q).all fun cq =>
    cq.activenum≠0 || !isasymmetric || cq.freelist.all fun c => (w.reg.co c).sched
  | _ => true

/-- No surplus and no leak in the pool `p`. -/
def tight (p q : ℕ) (x : ℤ) (l : List Co) : Prop := 0≤x ∧ (q=p → x=0 ∧ l=[])

/-- What the condition says of a resize of the pool. -/
theorem keepsActive_resize {newsize : ℤ} (hp : w.pools p=some cp)
    (h : keepsActive p w (.resize p newsize isasymmetric)=true) :
    cp.activenum≤newsize ∧ (newsize<cp.totalsize → isasymmetric=true) := by
  simp only [keepsActive,hp,ne_eq,not_true_eq_false,decide_false,Bool.false_or,Option.all_some,
    Bool.and_eq_true,Bool.or_eq_true,decide_eq_true_eq] at h
  exact ⟨h.1,fun hlt => (h.2.resolve_left (by omega)).1⟩

/-- The pool has neither surplus nor leak in every run that keeps the condition. -/
theorem tight_of_runs {schedId : ℕ}
    (h : Runs step (fun w a => keepsActive p w a=true) (newScheduler schedId) w) :
    Owned (tight p) w := by
  refine h.invariant (Owned (tight p)) (owned_newScheduler schedId) ?_
  intro w a t hw hc ha
  refine hw.step (fun _ => ⟨le_rfl,fun _ => ⟨rfl,rfl⟩⟩)
    (fun q newsize _ cq he hq hlt n l => ⟨?_,?_⟩) (fun q newsize isasymmetric cq he hq hlt => ?_) ha
  · omega
  · rintro rfl
    subst he
    have hkeep := (keepsActive_resize hq hc).1
    omega
  · by_cases hqp : q=p
    · subst hqp he
      exact .inl ((keepsActive_resize hq hc).2 hlt)
    · exact .inr fun c x l hx => ⟨hx.1,fun he => absurd he hqp⟩

/-- A release of an idle coroutine that was obtained before, or through
`dyco_asymcoro_free`, does not fail and leaves `sched` alone. -/
theorem Sound.releaseIdle_ok {d : Co} (h : Sound s) (hd : (s.co d).life=.idle)
    (hsched : isasymmetric=true → (s.co d).sched=true) :
    ∃ s',(if isasymmetric then freecoro s d else dycoAsymcoroFree s (s.co d).cid)=.ok s' ∧
      ∀ e,(s'.co e).sched=(s.co e).sched := by
  have hun : ∀ e,(s.co e).life≠.freed → (s.co e).sched=true →
      ∃ s',CoroutinePool.unregister s e .freed=.ok s' ∧ ∀ x,(s'.co x).sched=(s.co x).sched := by
    intro e hlife hsched
    have hok : CoroutinePool.unregister s e .freed=.ok _ :=
      if_neg (not_or.mpr ⟨hlife,by simp [hsched]⟩)
    refine ⟨_,hok,fun x => ?_⟩
    by_cases hx : x=e
    · rw [hx,unregister_co_self hok]
    · rw [unregister_co_of_ne hok hx]
  cases isasymmetric with
  | true => exact hun d (by simp [hd]) (hsched rfl)
  | false =>
    show ∃ s',dycoAsymcoroFree s (s.co d).cid=.ok s' ∧ _
    unfold dycoAsymcoroFree
    cases he : s.cidCoMap.lookup (s.co d).cid with
    | none => exact ⟨s,rfl,fun _ => rfl⟩
    | some e =>
      have hlive := (h.entries _ e he).1
      dsimp only
      split_ifs
      · exact hun e (by simp [hlive]) (h.sched e hlive)
      · exact ⟨s,rfl,fun _ => rfl⟩

/-- The state in the loop of `cp_destroy` after `i` rounds. -/
structure Emptying (p : ℕ) (isasymmetric : Bool) (cp : Pool) (i : ℕ) (u : World) : Prop where
  /-- The freelist gets shorter, and an asymmetric pool does not leak. -/
  resizing : Resizing (fun q x l => q=p → x=0 ∧ (isasymmetric=true → l=[])) p cp.totalsize
    cp.activenum (-(i : ℤ)) u
  /-- The pool makes nothing, and what is released with `freecoro` has a scheduler. -/
  pool : ∃ cu,u.pools p=some cu ∧ cu.made=cp.made ∧
    (isasymmetric=true → ∀ c∈cu.freelist,(u.reg.co c).sched=true)

/-- One round of the loop of `cp_destroy`. -/
theorem Emptying.round {i : ℕ} {u : World} (h : Emptying p isasymmetric cp i u)
    (hzero : cp.activenum=0) (hi : i<cp.totalsize.toNat) :
    ∃ u',cpDrop p isasymmetric u=.ok u' ∧ Emptying p isasymmetric cp (i+1) u' := by
  obtain ⟨⟨ho,cu,hcu,hT,hA⟩,cv,hcv,hmade,hsched⟩ := h
  cases hcu.symm.trans hcv
  have hsize := ((shift_self.mp (ho.bounded p cu hcu)) rfl).1
  obtain ⟨c,rest,hfree⟩ : ∃ c rest,cu.freelist=c::rest := by
    refine List.exists_cons_of_ne_nil fun hnil => ?_
    simp only [surplus,hnil,List.length_nil] at hsize
    omega
  have hmem : c∈cu.freelist := hfree ▸ List.mem_cons_self
  have hfirst : isasymmetric=true → (u.reg.co c).sched=true := fun ha => hsched ha c hmem
  obtain ⟨reg,hreg,hkeep⟩ :=
    ho.sound.releaseIdle_ok ((ho.stocked p cu hcu).idle c hmem).1 hfirst
  have hdrop : cpDrop p isasymmetric u=
      .ok (putPool {u with reg := reg} p (takeFirst reg cu c rest)) := by
    simp only [cpDrop,hcu,hfree,hreg]
    rfl
  refine ⟨_,hdrop,?_,_,putPool_self ..,takeFirst_made.trans hmade,fun ha d hd => ?_⟩
  · have hround := Resizing.cpDrop ⟨ho,cu,hcu,hT,hA⟩ ?_ hdrop
    · rwa [show -(i : ℤ)-1= -((i+1 : ℕ) : ℤ) by push_cast; omega] at hround
    · cases isasymmetric with
      | true => exact .inl rfl
      | false => exact .inr fun c x l hx hp => ⟨(hx hp).1,Bool.noConfusion⟩
  · rw [takeFirst_freelist] at hd
    exact (hkeep d).trans (hsched ha d (hfree ▸ List.mem_cons_of_mem _ hd))

/-- The loop of `cp_destroy` takes every idle coroutine of an exact pool, and releases
them all if the pool is asymmetric. -/
theorem Owned.dropAll (h : Owned (tight p) w) (hp : w.pools p=some cp) (hzero : cp.activenum=0)
    (hsched : isasymmetric=true → ∀ c∈cp.freelist,(w.reg.co c).sched=true) :
    ∃ u cu,times (cpDrop p isasymmetric) cp.totalsize.toNat w=.ok u ∧ u.pools p=some cu ∧
      cu.freelist=[] ∧ cp.made.Perm (cu.gone++cu.leaked) ∧
      (∀ c∈cu.gone,(u.reg.co c).life=.freed) ∧ (isasymmetric=true → cu.leaked=[]) := by
  have hstart : Emptying p isasymmetric cp 0 w := by
    refine ⟨?_,cp,hp,rfl,hsched⟩
    have hfirst : Owned (fun q x l => q=p → x=0 ∧ (isasymmetric=true → l=[])) w :=
      h.mono fun q x l hx hq => ⟨(hx.2 hq).1,fun _ => (hx.2 hq).2⟩
    exact hfirst.resizing hp
  obtain ⟨u,hu,⟨ho,cu,hcu,hT,hA⟩,cv,hcv,hmade,-⟩ := times_progress (Emptying p isasymmetric cp)
    (fun i hi b hb => hb.round hzero hi) hstart
  cases hcu.symm.trans hcv
  have hstock := ho.stocked p cu hcu
  have hold : surplus cp=0 := ((h.bounded p cp hp).2 rfl).1
  obtain ⟨hnew,hleak⟩ := (shift_self.mp (ho.bounded p cu hcu)) rfl
  unfold surplus at hold hnew
  have hout : cu.out=[] := List.length_eq_zero_iff.mp (by have := hstock.active; omega)
  have hfree : cu.freelist=[] := List.length_eq_zero_iff.mp (by omega)
  have haccount := hstock.account
  rw [hout,hfree,hmade] at haccount
  exact ⟨u,cu,hu,hcu,hfree,haccount,hstock.freed,hleak⟩

/-- In every run that meets the condition, the freelist of the pool holds exactly
`totalsize-activenum` coroutines. When none is in use, these are all that it has made and
not released, and `cp_destroy` takes them all and, if the pool is asymmetric, releases
them. -/
theorem pool_owns_promised {schedId : ℕ}
    (h : Runs step (fun w a => keepsActive p w a=true) (newScheduler schedId) w)
    (hp : w.pools p=some cp) :
    (cp.freelist.length : ℤ)=cp.totalsize-cp.activenum ∧
    (cp.activenum=0 → cp.made.Perm (cp.freelist++cp.gone) ∧
      (∀ c∈cp.gone,(w.reg.co c).life=.freed) ∧
      ∀ isasymmetric,keepsActive p w (.destroy p isasymmetric)=true →
        ∃ u cu,times (cpDrop p isasymmetric) cp.totalsize.toNat w=.ok u ∧ u.pools p=some cu ∧
          cpDestroy w p isasymmetric=
            .ok (reply {u with pools := Function.update u.pools p none} (.destroy p 0)) ∧
          cu.freelist=[] ∧ cp.made.Perm (cu.gone++cu.leaked) ∧
          (∀ c∈cu.gone,(u.reg.co c).life=.freed) ∧ (isasymmetric=true → cu.leaked=[])) := by
  have ho := tight_of_runs h
  obtain ⟨hexact,hleaked⟩ := (ho.bounded p cp hp).2 rfl
  unfold surplus at hexact
  have hstock := ho.stocked p cp hp
  refine ⟨by omega,fun hzero => ⟨?_,hstock.freed,fun isasymmetric hkeep => ?_⟩⟩
  · have hout : cp.out=[] := List.length_eq_zero_iff.mp (by have := hstock.active; omega)
    have haccount := hstock.account
    rwa [hout,hleaked,List.append_nil,List.append_nil] at haccount
  · have hsched : isasymmetric=true → ∀ c∈cp.freelist,(w.reg.co c).sched=true := by
      rintro rfl
      simpa [keepsActive,hp,hzero] using hkeep
    obtain ⟨u,cu,hu,hcu,hrest⟩ := ho.dropAll hp hzero hsched
    refine ⟨u,cu,hu,hcu,?_,hrest⟩
    simp only [cpDestroy,hp,hzero,ne_eq,not_true_eq_false,if_false,hu]
    rfl

/-- Three coroutines are in use when their pool is resized to one; then they
return. -/
def shrinkInUse : List Act :=
  [.poolCreate 3 false,.obtain 0 .outside 0 0 false 5 true,.obtain 0 .outside 0 0 false 5 true,
    .obtain 0 .outside 0 0 false 5 true,.resize 0 1 false,.exit 0,.exit 1,.exit 2]

/-- The pool of size 1 keeps all three, and `cp_destroy` would take one. -/
theorem shrink_in_use_keeps_all :
    ∃ w cp,Runs step (fun _ _ => True) (newScheduler 1) w ∧ w.pools 0=some cp ∧
      cp.activenum=0 ∧ cp.totalsize=1 ∧ cp.freelist=[2,1,0] ∧ cp.gone=[] := by
  have h : ((replay step (newScheduler 1) shrinkInUse).bind fun w => (w.pools 0).map fun cp =>
      (cp.activenum,cp.totalsize,cp.freelist,cp.gone))=some (0,1,[2,1,0],[]) := by decide +kernel
  obtain ⟨w,hw,hq⟩ := Option.bind_eq_some_iff.mp h
  obtain ⟨cp,hp,hq⟩ := Option.map_eq_some_iff.mp hq
  simp only [Prod.mk.injEq] at hq
  exact ⟨w,cp,runs_of_replay hw,hp,hq⟩

/-- Two asymmetric coroutines are obtained and returned, and their pool loses one. -/
def shrinkIdle : List Act :=
  [.poolCreate 2 true,.obtain 0 .outside 0 0 true 5 true,.obtain 0 .outside 0 0 true 5 true,
    .asymReturn 16777217,.asymReturn 16777218,.resize 0 1 true]

/-- Both objects are back, the resize frees one of them, and the accounts are exact. -/
theorem pool_owns_promised_shrinkIdle :
    ∃ w cp,replayWhile step (fun w a => keepsActive 0 w a=true) (newScheduler 1) shrinkIdle=some w ∧
      w.pools 0=some cp ∧ cp.activenum=0 ∧ cp.gone=[0] ∧
      (cp.freelist.length : ℤ)=cp.totalsize-cp.activenum ∧ cp.made.Perm (cp.freelist++cp.gone) ∧
      ∃ u,times (cpDrop 0 true) cp.totalsize.toNat w=.ok u ∧ ∃ cu,u.pools 0=some cu ∧
        cp.made.Perm cu.gone := by
  have h : ((replayWhile step (fun w a => keepsActive 0 w a=true) (newScheduler 1) shrinkIdle).bind
      fun w => (w.pools 0).map fun cp =>
        (cp.activenum,cp.gone,keepsActive 0 w (.destroy 0 true)))=some (0,[0],true) := by
    decide +kernel
  obtain ⟨w,hw,hq⟩ := Option.bind_eq_some_iff.mp h
  obtain ⟨cp,hp,hq⟩ := Option.map_eq_some_iff.mp hq
  simp only [Prod.mk.injEq] at hq
  obtain ⟨hzero,hgone,hkeep⟩ := hq
  obtain ⟨hlen,hdestroy⟩ := pool_owns_promised (runs_of_replayWhile hw) hp
  obtain ⟨hmade,-,hend⟩ := hdestroy hzero
  obtain ⟨u,cu,hu,hcu,-,-,hall,-,hleak⟩ := hend true hkeep
  rw [hleak rfl,List.append_nil] at hall
  exact ⟨w,cp,hw,hp,hzero,hgone,hlen,hmade,u,hu,cu,hcu,hall⟩

end DycoCoroutine.PoolOwnership
