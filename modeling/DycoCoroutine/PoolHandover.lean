import DycoCoroutine.PoolWaiters

/-!
# What a notified caller of a pool finds

A notification tells a blocked caller that a coroutine has become available, but
does not set it aside. As long as nobody takes a coroutine that is owed to a
notified caller and a caller without time limit is resumed only after it was
notified, a call of `cp_obtain` without time limit returns with a coroutine. A
newcomer may take it first, and then the call returns 0 as if it had expired.
-/

namespace DycoCoroutine.PoolHandover

open ScheduleState RunInvariant EventFd CoroutinePool PoolOwnership PoolWaiters

variable {w t : World} {a : Act} {p q r : ℕ} {cp cq : Pool} {k : ℤ} {v : Waiter} {c : Co}
  {isasymmetric : Bool}

/-- Every caller that was notified by the pool finds a coroutine. -/
def Covered (p : ℕ) (w : World) : Prop :=
  ∀ cp,w.pools p=some cp → (notified w p : ℤ)≤available cp

/-- A step that does not concern a pool. -/
def Apart (r : ℕ) (w t : World) : Prop := t.pools r=w.pools r ∧ notified t r=notified w r

/-- Two operations in a row. -/
theorem Apart.trans {u : World} (h : Apart r w t) (k : Apart r t u) : Apart r w u :=
  ⟨k.1.trans h.1,k.2.trans h.2⟩

/-- What concerns another pool keeps this one covered. -/
theorem Apart.covered (h : Apart p w t) (hw : Covered p w) : Covered p t := by
  intro cp hp
  rw [h.2]
  exact hw cp (h.1.symm.trans hp)

/-- A notification reaches one caller of one pool. -/
theorem notifyFirst_notified (ht : notifyFirst w q cq=.ok t) (h : Waits q k w)
    (hs : cq.sublist=silent w.fds (queue w q)) :
    (∀ r≠q,Apart r w t) ∧ notified t q≤notified w q+1 := by
  unfold notifyFirst at ht
  split at ht
  · cases ht
    exact ⟨fun r hr => ⟨putPool_of_ne hr ..,rfl⟩,Nat.le_succ _⟩
  next head rest hsub =>
    have hmem : head∈silent w.fds (queue w q) := by
      rw [← hs,hsub]
      exact List.mem_cons_self
    obtain ⟨hqueue,hzero⟩ := mem_silent.mp hmem
    rw [eventfdWrite_event hzero (by decide)] at ht
    cases ht
    refine ⟨fun r hr => ⟨putPool_of_ne hr ..,?_⟩,?_⟩
    · exact tally_update_of_not_mem (h.queue_disjoint hqueue hr)
    · have htally := tally_update_of_mem (p := signalled) (t := w.fds) (d := some (.event (0+1)))
        (h.queue_nodup q) hqueue
      rw [hzero] at htally
      exact le_of_eq htally

/-- A return makes a coroutine available and notifies at most one caller. -/
theorem Covered.cpReturn (hc : Covered p w) (h : Waits p 0 w) (ht : cpReturn w c=.ok t) :
    Covered p t := by
  unfold CoroutinePool.cpReturn at ht
  split at ht
  · cases ht
    exact hc
  next q hq =>
    split at ht
    · cases ht
    next cq hcq =>
      obtain ⟨reg,-,ht⟩ := bind_eq_ok ht
      have hreg : Waits q 0 {w with reg := reg} :=
        (h.any q).of_same rfl rfl rfl fun _ _ hr => hr
      obtain ⟨hapart,hone⟩ := notifyFirst_notified ht hreg (hreg.pools q cq hcq).nodes
      by_cases hqp : p=q
      · subst hqp
        obtain ⟨l,-,-,hpools⟩ := notifyFirst_ok ht
        intro cp hp
        rw [hpools,Function.update_self] at hp
        cases hp
        have hold := hc cq hcq
        have hsame : notified {w with reg := reg} p=notified w p := rfl
        unfold available at hold ⊢
        dsimp only
        omega
      · exact (hapart p hqp).covered hc

/-- What concerns no pool keeps it covered. -/
theorem Covered.onRegister {s : Except Fault Register} (hc : Covered p w)
    (ht : onRegister w s=.ok t) : Covered p t := by
  obtain ⟨reg,-,rfl⟩ := map_eq_ok ht
  exact hc

/-- `dyco_asymcpool_return` keeps the pool covered. -/
theorem Covered.dycoAsymcpoolReturn {cid : ℤ} (hc : Covered p w) (h : Waits p 0 w)
    (ht : dycoAsymcpoolReturn w cid=.ok t) : Covered p t := by
  unfold CoroutinePool.dycoAsymcpoolReturn at ht
  split at ht
  · cases ht
    exact hc
  · exact hc.cpReturn h ht

/-- The end of an exited coroutine keeps the pool covered. -/
theorem Covered.resumeExited (hc : Covered p w) (h : Waits p 0 w) (ht : resumeExited w c=.ok t) :
    Covered p t := by
  unfold CoroutinePool.resumeExited at ht
  split_ifs at ht
  · exact hc.cpReturn h ht
  · exact hc.onRegister ht

/-- The end of a killed coroutine keeps the pool covered. -/
theorem Covered.resumeKilled (hc : Covered p w) (h : Waits p 0 w) (ht : resumeKilled w c=.ok t) :
    Covered p t := by
  unfold CoroutinePool.resumeKilled at ht
  split at ht
  · cases ht
    exact hc
  · split_ifs at ht
    obtain ⟨u,hu,rfl⟩ := map_eq_ok ht
    have hu' : Covered p u := by
      unfold coroAbort at hu
      split_ifs at hu
      · exact hc.dycoAsymcpoolReturn h hu
      · exact hc.cpReturn h hu
      · exact hc.onRegister hu
      · exact hc.onRegister hu
    exact hu'

/-- Nobody waits for a pool that has just been created. -/
theorem Covered.cpCreate (hc : Covered p w) (h : Waits p 0 w) (totalsize : ℤ)
    (isasymmetric : Bool) : Covered p (cpCreate w totalsize isasymmetric) := by
  unfold CoroutinePool.cpCreate
  split_ifs with hsize
  · exact hc
  · intro cp hp
    by_cases hqp : p=w.nextPool
    · subst hqp
      cases (putPool_self ..).symm.trans hp
      show (tally signalled w.fds (queue w w.nextPool) : ℤ)≤_
      rw [h.queue_nextPool,(cpFill_keeps ..).2]
      show (0 : ℤ)≤totalsize-0
      omega
    · exact hc cp ((putPool_of_ne hqp ..).symm.trans hp)

/-- A pool is increased without regard to the others. -/
theorem cpGrow_apart {T A : ℤ} (h : PoolWaiters.Resizing q T A k w)
    (ht : cpGrow q isasymmetric w=.ok t) (hr : r≠q) : Apart r w t := by
  obtain ⟨hw,cq,hq,-,-⟩ := h
  simp only [cpGrow,hq] at ht
  have hreg : Waits q k {w with reg := (cpAdd q isasymmetric w.reg cq).1} :=
    hw.of_same rfl rfl rfl fun _ _ h => h
  exact (notifyFirst_notified ht hreg (hreg.pools q cq hq).nodes).1 r hr

/-- An idle coroutine is released without regard to other pools. -/
theorem cpDrop_apart (ht : cpDrop q isasymmetric w=.ok t) (hr : r≠q) : Apart r w t := by
  unfold cpDrop at ht
  split at ht
  · cases ht
  · split at ht
    · cases ht
    · obtain ⟨reg,-,ht⟩ := bind_eq_ok ht
      cases ht
      exact ⟨putPool_of_ne hr ..,rfl⟩

/-- A new size concerns its own pool only. -/
theorem setTotalsize_apart {newsize : ℤ} (hr : r≠q) : Apart r w (setTotalsize q newsize w) :=
  ⟨Function.update_of_ne hr ..,rfl⟩

/-- A resize concerns its own pool only. -/
theorem cpResize_apart {newsize : ℤ} (h : Waits q 0 w)
    (ht : cpResize w q newsize isasymmetric=.ok t) (hr : r≠q) : Apart r w t := by
  unfold cpResize at ht
  split at ht
  · cases ht
  next cq hq =>
    split_ifs at ht
    · cases ht
      exact ⟨rfl,rfl⟩
    · obtain ⟨u,hu,rfl⟩ := map_eq_ok ht
      have hloop := times_invariant
        (fun i u => PoolWaiters.Resizing q cq.totalsize cq.activenum (-(i : ℤ)) u ∧ Apart r w u)
        (fun i b b' hb hf => by
          have hround := hb.1.cpGrow hf
          rw [show -(i : ℤ)-1= -((i+1 : ℕ) : ℤ) by push_cast; omega] at hround
          exact ⟨hround,hb.2.trans (cpGrow_apart hb.1 hf hr)⟩)
        (i := 0) ⟨⟨by simpa using h,cq,hq,rfl,rfl⟩,rfl,rfl⟩ hu
      exact hloop.2.trans (setTotalsize_apart hr)
    · obtain ⟨u,hu,rfl⟩ := map_eq_ok ht
      have hloop := times_invariant (fun _ u => Apart r w u)
        (fun _ _ _ hb hf => hb.trans (cpDrop_apart hf hr)) (i := 0) ⟨rfl,rfl⟩ hu
      exact hloop.trans (setTotalsize_apart hr)

/-- A pool that is destroyed has nobody to cover. -/
theorem Covered.cpDestroy (hc : Covered p w) (ht : cpDestroy w q isasymmetric=.ok t) :
    Covered p t := by
  unfold CoroutinePool.cpDestroy at ht
  split at ht
  · cases ht
  · split_ifs at ht
    · cases ht
      exact hc
    · obtain ⟨u,hu,rfl⟩ := map_eq_ok ht
      by_cases hqp : p=q
      · subst hqp
        intro cp hp
        simp [reply] at hp
      · have hloop := times_invariant (fun _ u => Apart p w u)
          (fun _ _ _ hb hf => hb.trans (cpDrop_apart hf hqp)) (i := 0) ⟨rfl,rfl⟩ hu
        have hlast : Apart p u (reply {u with pools := Function.update u.pools q none}
            (.destroy q 0)) := ⟨Function.update_of_ne hqp ..,rfl⟩
        exact (hloop.trans hlast).covered hc

/-- A coroutine of the pool can be taken without taking it from a notified
caller. -/
def spare (p : ℕ) (w : World) : Bool :=
  (w.pools p).all fun cp => available cp ≤ 0 || notified w p<available cp

/-- The pool `p` is not resized, its callers get the memory for their nodes, and
the cid 0 is not handed out to them; a blocked caller is resumed after it was notified
or, if it has a time limit, by its timer; and whoever takes a coroutine was notified or
leaves enough for those that were. -/
def handsOver (p : ℕ) (w : World) : Act → Bool
  | .obtain _ _ q _ _ _ allocated => q≠p || allocated && w.reg.nextCid≠0 && spare p w
  | .resume caller => (w.blocked.find? fun v => v.caller=caller).all fun v =>
    v.pool≠p || w.reg.nextCid≠0 && (signalled (w.fds v.notifyfd) || 0<v.timeout && spare p w)
  | .resize q _ _ => q≠p
  | _ => true

/-- Taking a coroutine from a pool with one to spare. -/
theorem Covered.cpObtainRest {caller : Co} {timeout : ℤ} (hp : w.pools q=some cq)
    (hother : ∀ cp,p≠q → w.pools p=some cp → (notified w p : ℤ)≤available cp)
    (hself : p=q → 0<available cq → (notified w p : ℤ)<available cq)
    (hzero : p=q → available cq ≤ 0 → (notified w p : ℤ)≤available cq)
    (ht : cpObtainRest w caller q cq timeout isasymmetric=.ok t) : Covered p t := by
  unfold CoroutinePool.cpObtainRest at ht
  split_ifs at ht with hnone
  · cases ht
    intro cp hcp
    by_cases hqp : p=q
    · subst hqp
      cases hp.symm.trans hcp
      exact hzero rfl hnone
    · exact hother cp hqp hcp
  · unfold cpTake at ht
    split at ht
    · cases ht
    · cases ht
      intro cp hcp
      by_cases hqp : p=q
      · subst hqp
        cases (putPool_self ..).symm.trans hcp
        have hmore : (notified w p : ℤ)<available cq := by
          refine hself rfl ?_
          unfold available
          omega
        show (notified w p : ℤ) ≤ cq.totalsize-(cq.activenum+1)
        unfold available at hmore
        omega
      · exact hother cp hqp ((putPool_of_ne hqp ..).symm.trans hcp)

/-- A pool with a coroutine to spare. -/
theorem spare_iff (hp : w.pools p=some cp) :
    spare p w=true ↔ available cp ≤ 0 ∨ (notified w p : ℤ)<available cp := by
  simp [spare,hp]

/-- `cp_obtain` keeps the pool covered when it leaves enough for those notified. -/
theorem Covered.cpObtain {caller : Co} {context : Context} {timeout fd : ℤ} {allocated : Bool}
    (hc : Covered p w) (h : Waits p 0 w) (hfd : w.fds fd=none) (hspare : q=p → spare p w=true)
    (ht : cpObtain w caller context q timeout isasymmetric fd allocated=.ok t) : Covered p t := by
  have hout : ∀ r,fd∉queue w r := fun r hm => h.not_mem_queue (.inl hfd) (queue_subset hm)
  have hopen : ∀ r,tally signalled (openEvent w.fds fd) (queue w r)=notified w r :=
    fun r => tally_update_of_not_mem (hout r)
  unfold CoroutinePool.cpObtain at ht
  split at ht
  · cases ht
  next cq hq =>
    split_ifs at ht with hrest
    · refine Covered.cpObtainRest hq (fun cp _ hp => hc cp hp) ?_ ?_ ht
      · rintro rfl hpos
        rcases (spare_iff hq).mp (hspare rfl) with hnone|hmore
        · omega
        · exact hmore
      · rintro rfl _
        exact hc cq hq
    · cases ht
      intro cp hp
      have hsame : notified {putPool {w with fds := openEvent w.fds fd} q
          {cq with sublist := cq.sublist++[fd]} with
          blocked := w.blocked++[⟨caller,q,timeout,isasymmetric,fd⟩]} p=notified w p := by
        rw [← hopen p]
        by_cases hqp : q=p
        · have hqueue : queue {putPool {w with fds := openEvent w.fds fd} q
              {cq with sublist := cq.sublist++[fd]} with
              blocked := w.blocked++[⟨caller,q,timeout,isasymmetric,fd⟩]} p=queue w p++[fd] := by
            simp [queue,hqp]
          rw [notified,hqueue,tally_concat]
          have hsilent : openEvent w.fds fd fd=some (.event 0) := Function.update_self ..
          show tally signalled (openEvent w.fds fd) (queue w p)+
            (if signalled (openEvent w.fds fd fd) then 1 else 0)=_
          rw [hsilent]
          rfl
        · have hqueue : queue {putPool {w with fds := openEvent w.fds fd} q
              {cq with sublist := cq.sublist++[fd]} with
              blocked := w.blocked++[⟨caller,q,timeout,isasymmetric,fd⟩]} p=queue w p := by
            simp [queue,hqp]
          rw [notified,hqueue]
          rfl
      rw [hsame]
      by_cases hqp : p=q
      · subst hqp
        cases (putPool_self ..).symm.trans hp
        exact hc cq hq
      · exact hc cp ((putPool_of_ne hqp ..).symm.trans hp)
    · cases ht
      intro cp hp
      show (tally signalled (openEvent w.fds fd) (queue w p) : ℤ)≤_
      rw [hopen p]
      exact hc cp hp

/-- A notified caller finds a coroutine; an expired one leaves what is owed. -/
theorem Covered.afterYield (hc : Covered p w) (h : Waits p 0 w) (hv : v∈w.blocked)
    (hspare : v.pool=p → signalled (w.fds v.notifyfd)=true ∨ spare p w=true)
    (ht : afterYield w v=.ok t) : Covered p t := by
  cases hq : w.pools v.pool with
  | none =>
    rw [CoroutinePool.afterYield,hq] at ht
    cases ht
  | some cq =>
    rw [h.afterYield_eq hq hv] at ht
    have hcount := h.notified_leave hv p
    refine Covered.cpObtainRest (putPool_self ..) (fun cp hne hp => ?_) ?_ ?_ ht
    · rw [putPool_of_ne hne] at hp
      have hold := hc cp hp
      show (notified (leave w v) p : ℤ)≤_
      omega
    · intro he hpos
      have hold := hc cq (he ▸ hq)
      show (notified (leave w v) p : ℤ)<available cq
      rcases hspare he.symm with hs|hs
      · rw [if_pos ⟨he,hs⟩] at hcount
        omega
      · have hpos' : 0<available cq := hpos
        rcases (spare_iff (he ▸ hq)).mp hs with hnone|hmore <;> omega
    · intro he _
      have hold := hc cq (he ▸ hq)
      show (notified (leave w v) p : ℤ)≤available cq
      omega

/-- Every step that hands over keeps the notified callers covered. -/
theorem Covered.step (hc : Covered p w) (h : Waits p 0 w) (hcond : handsOver p w a=true)
    (ha : step w a=some (.ok t)) : Covered p t := by
  cases happens_of_step ha with
  | create => exact hc
  | createUrgent => exact hc
  | asymCreate => exact hc
  | exit _ ht => exact hc.resumeExited h ht
  | abort _ ht => exact hc.resumeKilled h ht
  | asymFree ht => exact hc.onRegister ht
  | poolCreate => exact hc.cpCreate h _ _
  | obtain hfd _ ht =>
    refine hc.cpObtain h hfd (fun he => ?_) ht
    simp only [handsOver,he,ne_eq,not_true_eq_false,decide_false,Bool.false_or,
      Bool.and_eq_true] at hcond
    exact hcond.2
  | resume hv ht =>
    refine hc.afterYield h (List.mem_of_find?_eq_some hv) (fun he => ?_) ht
    simp only [handsOver,hv,Option.all_some,he,ne_eq,not_true_eq_false,decide_false,
      Bool.false_or,Bool.and_eq_true,Bool.or_eq_true] at hcond
    exact hcond.2.imp_right And.right
  | asymReturn ht => exact hc.dycoAsymcpoolReturn h ht
  | @resize q _ _ _ ht =>
    have hqp : q≠p := by simpa [handsOver] using hcond
    exact (cpResize_apart (h.any q) ht hqp.symm).covered hc
  | destroy ht => exact hc.cpDestroy ht
  | @openOther fd hfd =>
    intro cp hp
    have hsame : notified {w with fds := Function.update w.fds fd (some .other)} p=notified w p :=
      tally_update_of_not_mem fun hm => h.not_mem_queue (.inl hfd) (queue_subset hm)
    rw [hsame]
    exact hc cp hp
  | @closeOther fd hfd =>
    intro cp hp
    have hsame : notified {w with fds := close w.fds fd} p=notified w p :=
      tally_update_of_not_mem fun hm => h.not_mem_queue (.inr hfd) (queue_subset hm)
    rw [hsame]
    exact hc cp hp

/-- Callers are attended to and covered in every run that hands over. -/
theorem covered_of_runs {schedId : ℕ}
    (h : Runs step (fun w a => handsOver p w a=true) (newScheduler schedId) w) : Covered p w := by
  have hinv : (Waits p 0 w ∧ Owned (fun _ x _ => 0≤x) w) ∧ Covered p w := by
    refine h.invariant (fun w => (Waits p 0 w ∧ Owned (fun _ x _ => 0≤x) w) ∧ Covered p w)
      ⟨⟨waits_newScheduler schedId,owned_newScheduler schedId⟩,fun cp hp => by cases hp⟩ ?_
    rintro w a t ⟨⟨hw,ho⟩,hcov⟩ hc ha
    exact ⟨⟨hw.step ho.known ha,ho.step_nonneg ha⟩,hcov.step hw hc ha⟩
  exact hinv.2

/-- A call has taken the first idle coroutine, and returns its cid. -/
def Takes (p : ℕ) (w t : World) (ret : ℤ) : Prop :=
  ∃ cp cp' c rest,w.pools p=some cp ∧ cp.freelist=c::rest ∧ t.pools p=some cp' ∧
    cp'.freelist=rest ∧ (t.reg.co c).life=.live ∧ (t.reg.co c).cid=ret

/-- A call that finds a coroutine available takes it. -/
theorem takes_of_available {u : World} {caller : Co} {timeout : ℤ}
    (ht : cpObtainRest u caller p cq timeout isasymmetric=.ok t) (hp : w.pools p=some cp)
    (hfree : cq.freelist=cp.freelist) (hreg : u.reg=w.reg) (hpos : 0<available cq)
    (hstock : 0 ≤ surplus cq) :
    t.log=u.log++[.obtain caller p timeout w.reg.nextCid] ∧ Takes p w t w.reg.nextCid := by
  obtain ⟨c,rest,hcons,hrest⟩ := cpObtainRest_takes u caller p timeout isasymmetric hpos hstock
  rw [hrest] at ht
  cases ht
  refine ⟨by rw [← hreg]; rfl,cp,_,c,rest,hp,hfree.symm.trans hcons,putPool_self ..,rfl,?_,?_⟩
  · show ((register (renew u.reg c isasymmetric) c).co c).life=_
    rw [register_co_self]
  · show ((register (renew u.reg c isasymmetric) c).co c).cid=_
    rw [register_co_self,hreg]
    rfl

/-- In every run in which nobody takes a coroutine of the pool that is owed to a
notified caller and callers without time limit are resumed when notified, a call of
`cp_obtain` without time limit that returns, at once or when it is resumed, has taken a
coroutine and returns its cid. -/
theorem unlimited_obtain_takes {schedId : ℕ}
    (h : Runs step (fun w a => handsOver p w a=true) (newScheduler schedId) w) :
    (∀ (caller : Co) (context : Context) (timeout : ℤ) (isasymmetric : Bool) (fd : ℤ)
      (allocated : Bool) (t : World),timeout<0 →
      handsOver p w (.obtain caller context p timeout isasymmetric fd allocated)=true →
      step w (.obtain caller context p timeout isasymmetric fd allocated)=some (.ok t) →
      t.log=w.log ∨
        ∃ ret : ℤ,ret≠0 ∧ t.log=w.log++[.obtain caller p timeout ret] ∧ Takes p w t ret) ∧
    ∀ v∈w.blocked,∀ t,v.pool=p → v.timeout<0 → handsOver p w (.resume v.caller)=true →
      step w (.resume v.caller)=some (.ok t) →
      ∃ ret : ℤ,ret≠0 ∧ t.log=w.log++[.obtain v.caller p v.timeout ret] ∧ Takes p w t ret := by
  obtain ⟨hw,ho⟩ := waits_of_runs (p := p) h
  have hcov := covered_of_runs h
  refine ⟨fun caller context timeout isasymmetric fd allocated t htime hc ha => ?_,
    fun v hv t hpool htime hc ha => ?_⟩
  · simp only [handsOver,ne_eq,not_true_eq_false,decide_false,Bool.false_or,Bool.and_eq_true,
      decide_eq_true_eq] at hc
    simp only [CoroutinePool.step] at ha
    split_ifs at ha with hguard
    have ht := Option.some.inj ha
    unfold cpObtain at ht
    split at ht
    · cases ht
    next cp hp =>
      split_ifs at ht with hrest hcontext hall
      · right
        have hpos : 0<available cp := hrest.resolve_right (by omega)
        exact ⟨_,hc.1.2,takes_of_available ht hp rfl rfl hpos (ho.bounded p cp hp)⟩
      · left
        cases ht
        rfl
      · exact absurd hc.1.1 hall
  · have hfind := hw.find_caller hv
    simp only [CoroutinePool.step,hfind] at ha
    simp only [handsOver,hfind,Option.all_some,hpool,ne_eq,not_true_eq_false,decide_false,
      Bool.false_or,Bool.and_eq_true,Bool.or_eq_true,decide_eq_true_eq] at hc
    have ht := Option.some.inj ha
    have hs : signalled (w.fds v.notifyfd)=true := hc.2.resolve_right fun hlate => by
      have hpos := hlate.1
      omega
    subst hpool
    cases hp : w.pools v.pool with
    | none =>
      rw [afterYield,hp] at ht
      cases ht
    | some cp =>
      rw [hw.afterYield_eq hp hv] at ht
      -- the notification of this caller is covered by an available coroutine
      have hcount := hw.notified_leave hv v.pool
      rw [if_pos ⟨rfl,hs⟩] at hcount
      have hpos : 0<available cp := by
        have hle := hcov cp hp
        omega
      have htakes := takes_of_available ht hp rfl rfl hpos (ho.bounded _ cp hp)
      exact ⟨_,hc.1,htakes⟩

/-- Two coroutines use a pool of one. The second is notified when the pool's
coroutine returns, but the first one obtains it again. -/
def overtaken : List Act :=
  [.create,.create,.poolCreate 1 false,.obtain 0 .symmetric 0 (-1) false 5 true,
    .obtain 1 .symmetric 0 (-1) false 5 true,.exit 2,.obtain 0 .symmetric 0 (-1) false 6 true,
    .resume 1]

/-- The call of the second returns 0, although it has no time limit. -/
theorem overtaken_obtain_returns_zero :
    ∃ w,replay step (newScheduler 1) overtaken=some w ∧
      Runs step (fun _ _ => True) (newScheduler 1) w ∧
      w.log=[.create 16777217,.create 16777218,.obtain 0 0 (-1) 16777219,
        .obtain 0 0 (-1) 16777220,.obtain 1 0 (-1) 0] := by
  have h : (replay step (newScheduler 1) overtaken).map (fun w => w.log)=
      some [.create 16777217,.create 16777218,.obtain 0 0 (-1) 16777219,
        .obtain 0 0 (-1) 16777220,.obtain 1 0 (-1) 0] := by
    decide +kernel
  obtain ⟨w,hw,hq⟩ := Option.map_eq_some_iff.mp h
  exact ⟨w,hw,runs_of_replay hw,hq⟩

/-- The second coroutine is notified, and resumed before anybody else calls. -/
def inTurn : List Act :=
  [.create,.create,.poolCreate 1 false,.obtain 0 .symmetric 0 (-1) false 5 true,
    .obtain 1 .symmetric 0 (-1) false 5 true,.exit 2]

/-- A caller waits without a limit, is notified, and gets its coroutine. -/
theorem unlimited_obtain_takes_inTurn :
    ∃ w t,replayWhile step (fun w a => handsOver 0 w a=true) (newScheduler 1) inTurn=some w ∧
      w.blocked=[⟨1,0,-1,false,5⟩] ∧ step w (.resume 1)=some (.ok t) ∧
      ∃ ret : ℤ,ret≠0 ∧ t.log=w.log++[.obtain 1 0 (-1) ret] ∧ Takes 0 w t ret := by
  have h : (replayWhile step (fun w a => handsOver 0 w a=true) (newScheduler 1) inTurn).map
      (fun w => (w.blocked,handsOver 0 w (.resume 1),(replay step w [.resume 1]).isSome))=
      some ([⟨1,0,-1,false,5⟩],true,true) := by decide +kernel
  obtain ⟨w,hw,hq⟩ := Option.map_eq_some_iff.mp h
  simp only [Prod.mk.injEq] at hq
  obtain ⟨hb,hc,hs⟩ := hq
  obtain ⟨t,ht⟩ := Option.isSome_iff_exists.mp hs
  have hstep := step_of_replay ht
  exact ⟨w,t,hw,hb,hstep,(unlimited_obtain_takes (runs_of_replayWhile hw)).2 ⟨1,0,-1,false,5⟩
    (by simp [hb]) t rfl (by decide) hc hstep⟩

end DycoCoroutine.PoolHandover
