import DycoCoroutine.PoolOwnership

/-!
# Callers that wait for a pool

The `sublist` of a pool holds the nodes of exactly those blocked callers that were
not notified, in order of arrival. While there is one, every available coroutine
is owed to a caller that was notified and not yet resumed. Both hold in every run,
whoever takes a coroutine in the meantime and however the pool is resized.
-/

namespace DycoCoroutine.PoolWaiters

open ScheduleState RunInvariant EventFd CoroutinePool PoolOwnership

/-- The descriptors of the callers blocked on a pool, in order of arrival. -/
def queue (w : World) (p : ℕ) : List ℤ := (w.blocked.filter fun v => v.pool=p).map Waiter.notifyfd

/-- The number of callers that were notified by a pool and not yet resumed. -/
def notified (w : World) (p : ℕ) : ℕ := tally signalled w.fds (queue w p)

/-- The number of coroutines that can be obtained. -/
def available (cp : Pool) : ℤ := cp.totalsize-cp.activenum

/-- The nodes of a pool are those of its callers that were not notified, and all
but `slack` of the available coroutines are owed if there are any. -/
structure Attended (w : World) (p : ℕ) (cp : Pool) (slack : ℤ) : Prop where
  /-- The nodes. -/
  nodes : cp.sublist=silent w.fds (queue w p)
  /-- The available coroutines. -/
  owed : cp.sublist≠[] → available cp ≤ notified w p+slack

/-- The callers of all pools, with slack for the pool `p`. -/
structure Waits (p : ℕ) (slack : ℤ) (w : World) : Prop where
  /-- A caller is notified at most once. -/
  counters : ∀ v∈w.blocked,w.fds v.notifyfd=some (.event 0) ∨ w.fds v.notifyfd=some (.event 1)
  /-- Blocked callers have different descriptors. -/
  distinct : (w.blocked.map Waiter.notifyfd).Nodup
  /-- A coroutine is blocked in one call. -/
  callers : (w.blocked.map Waiter.caller).Nodup
  /-- A caller waits for a pool that was created. -/
  known : ∀ v∈w.blocked,v.pool<w.nextPool
  /-- Every pool is attended to. -/
  pools : ∀ q cq,w.pools q=some cq → Attended w q cq (if q=p then slack else 0)

variable {w t : World} {a : Act} {p q : ℕ} {cp cq : Pool} {k : ℤ} {v : Waiter} {fd : ℤ}

/-- More slack is less to show. -/
theorem Attended.mono {k' : ℤ} (h : Attended w p cp k) (hk : k≤k') : Attended w p cp k' :=
  ⟨h.nodes,fun hs => (h.owed hs).trans (by omega)⟩

/-- Only the descriptors of its callers matter to a pool. -/
theorem Attended.congr (h : Attended w p cp k) (hblocked : t.blocked=w.blocked)
    (hfds : silent t.fds (queue w p)=silent w.fds (queue w p))
    (htally : notified w p≤tally signalled t.fds (queue w p)) :
    Attended t p cp k := by
  have hqueue : queue t p=queue w p := by rw [queue,hblocked,queue]
  refine ⟨h.nodes.trans ?_,fun hs => (h.owed hs).trans ?_⟩
  · rw [hqueue,hfds]
  · have hmore : notified w p≤notified t p := htally.trans_eq (by rw [notified,hqueue])
    omega

/-- A pool with the same callers. -/
theorem Attended.of_pool {cp' : Pool} {k' : ℤ} (h : Attended w p cp k)
    (hs : cp'.sublist=cp.sublist) (hk : available cp'-k' ≤ available cp-k) :
    Attended w p cp' k' := by
  refine ⟨hs.trans h.nodes,fun hne => ?_⟩
  have howed := h.owed (hs ▸ hne)
  omega

/-- A descriptor in the queue of a pool is that of a caller blocked on it. -/
theorem mem_queue : fd∈queue w p ↔ ∃ v∈w.blocked,v.pool=p ∧ v.notifyfd=fd := by
  simp [queue,and_assoc]

/-- Nothing that the callers see changes. -/
theorem Waits.of_same (h : Waits p k w) (hblocked : t.blocked=w.blocked) (hfds : t.fds=w.fds)
    (hnext : t.nextPool=w.nextPool) (hpools : ∀ q cq,t.pools q=some cq → w.pools q=some cq) :
    Waits p k t := by
  refine ⟨?_,?_,?_,?_,fun q cq hq => ?_⟩
  · rw [hblocked,hfds]
    exact h.counters
  · rw [hblocked]
    exact h.distinct
  · rw [hblocked]
    exact h.callers
  · rw [hblocked,hnext]
    exact h.known
  · exact (h.pools q cq (hpools q cq hq)).congr hblocked (by rw [hfds]) (by rw [hfds,notified])

/-- Nothing that the callers see changes, except for one pool. -/
theorem Waits.of_pool {cp' : Pool} {k' : ℤ} (h : Waits p k w) (hp : w.pools p=some cp)
    (hblocked : t.blocked=w.blocked) (hfds : t.fds=w.fds) (hnext : t.nextPool=w.nextPool)
    (hpools : t.pools=Function.update w.pools p (some cp'))
    (hs : cp'.sublist=cp.sublist) (hk : available cp'-k' ≤ available cp-k) : Waits p k' t := by
  have hpool : Waits p k' {w with pools := Function.update w.pools p (some cp')} := by
    refine ⟨h.counters,h.distinct,h.callers,h.known,fun q cq hq => ?_⟩
    change Function.update w.pools p (some cp') q=some cq at hq
    by_cases hqp : q=p
    · subst hqp
      rw [Function.update_self] at hq
      cases hq
      have hold := h.pools q cp hp
      rw [if_pos rfl] at hold ⊢
      exact (hold.of_pool hs hk).congr rfl rfl le_rfl
    · rw [Function.update_of_ne hqp] at hq
      have hold := h.pools q cq hq
      rw [if_neg hqp] at hold ⊢
      exact hold.congr rfl rfl le_rfl
  refine hpool.of_same hblocked hfds hnext fun q cq hq => ?_
  rwa [hpools] at hq

/-- A call that returns concerns no waiter. -/
theorem Waits.reply {r : Reply} (h : Waits p k w) : Waits p k (reply w r) :=
  h.of_same rfl rfl rfl fun _ _ hq => hq

/-- More slack is less to show. -/
theorem Waits.mono {k' : ℤ} (h : Waits p k w) (hk : k≤k') : Waits p k' w := by
  refine ⟨h.counters,h.distinct,h.callers,h.known,fun q cq hq => (h.pools q cq hq).mono ?_⟩
  split_ifs
  · exact hk
  · exact le_rfl

/-- Without slack, the pool does not matter. -/
theorem Waits.any (h : Waits p 0 w) (q : ℕ) : Waits q 0 w := by
  refine ⟨h.counters,h.distinct,h.callers,h.known,fun r cr hr => ?_⟩
  have hold := h.pools r cr hr
  rw [ite_self] at hold ⊢
  exact hold

/-- No two callers of a pool have one descriptor. -/
theorem Waits.queue_nodup (h : Waits p k w) (q : ℕ) : (queue w q).Nodup :=
  h.distinct.sublist (List.filter_sublist.map _)

/-- A caller waits for one pool. -/
theorem Waits.queue_disjoint (h : Waits p k w) (hq : fd∈queue w q) {r : ℕ} (hr : r≠q) :
    fd∉queue w r := by
  intro hm
  obtain ⟨u,hu,hpu,he⟩ := mem_queue.mp hm
  obtain ⟨v,hv,hpv,rfl⟩ := mem_queue.mp hq
  have huv := List.inj_on_of_nodup_map h.distinct hu hv he
  exact hr (by rw [← hpu,huv,hpv])

/-- A descriptor that is not a counter of a blocked caller. -/
theorem Waits.not_mem_queue (h : Waits p k w) (hfd : w.fds fd=none ∨ w.fds fd=some .other) :
    fd∉w.blocked.map Waiter.notifyfd := by
  intro hm
  obtain ⟨v,hv,rfl⟩ := List.mem_map.mp hm
  rcases h.counters v hv with hc|hc <;> simp [hc] at hfd

/-- The queue of a pool is a part of all blocked callers. -/
theorem queue_subset (hm : fd∈queue w q) : fd∈w.blocked.map Waiter.notifyfd := by
  obtain ⟨v,hv,-,rfl⟩ := mem_queue.mp hm
  exact List.mem_map_of_mem hv

/-- A descriptor changes that belongs to no blocked caller. -/
theorem Waits.elsewhere {d : Option Desc} (h : Waits p k w)
    (hfd : fd∉w.blocked.map Waiter.notifyfd) :
    Waits p k {w with fds := Function.update w.fds fd d} := by
  have hout : ∀ q,fd∉queue w q := fun q hm => hfd (queue_subset hm)
  refine ⟨fun v hv => ?_,h.distinct,h.callers,h.known,fun q cq hq => ?_⟩
  · have hne : v.notifyfd≠fd := fun he => hfd (he ▸ List.mem_map_of_mem hv)
    dsimp only
    rw [Function.update_of_ne hne]
    exact h.counters v hv
  · exact (h.pools q cq hq).congr rfl (silent_update_of_not_mem (hout q))
      (tally_update_of_not_mem (hout q)).ge

/-- Notifying the first waiting caller covers one more available coroutine. -/
theorem Waits.notifyFirst (h : Waits p k w) (hp : Attended w p cp k)
    (ht : notifyFirst w p cp=.ok t) :
    Waits p (k-1) t ∧ t.reg=w.reg ∧ t.pools p=some {cp with sublist := cp.sublist.tail} := by
  unfold CoroutinePool.notifyFirst at ht
  have hnodes := hp.nodes
  cases hs : cp.sublist with
  | nil =>
    rw [hs] at ht
    cases ht
    refine ⟨⟨h.counters,h.distinct,h.callers,h.known,fun q cq hq => ?_⟩,rfl,?_⟩
    · by_cases hqp : q=p
      · subst hqp
        rw [putPool_self] at hq
        cases hq
        exact ⟨hp.nodes,fun hne => absurd hs hne⟩
      · rw [putPool_of_ne hqp] at hq
        have hold := h.pools q cq hq
        rw [if_neg hqp] at hold ⊢
        exact ⟨hold.nodes,hold.owed⟩
    · rw [putPool_self,List.tail_nil,← hs]
  | cons head rest =>
    rw [hs] at ht hnodes
    have hmem : head∈silent w.fds (queue w p) := hnodes ▸ List.mem_cons_self
    obtain ⟨hqueue,hzero⟩ := mem_silent.mp hmem
    dsimp only at ht
    rw [eventfdWrite_event hzero (by decide)] at ht
    cases ht
    have hnd := h.queue_nodup p
    have hsilent : silent (Function.update w.fds head (some (.event (0+1)))) (queue w p)=rest := by
      rw [silent_update_of_ne hnd (by simp),← hnodes,List.erase_cons_head]
    have htally := tally_update_of_mem (p := signalled) (t := w.fds) (d := some (.event (0+1)))
      hnd hqueue
    rw [hzero] at htally
    have hmore : tally signalled (Function.update w.fds head (some (.event (0+1)))) (queue w p)=
        notified w p+1 := htally
    refine ⟨⟨fun v hv => ?_,h.distinct,h.callers,h.known,fun q cq hq => ?_⟩,rfl,
      Function.update_self ..⟩
    · show Function.update w.fds head _ v.notifyfd=_ ∨ Function.update w.fds head _ v.notifyfd=_
      by_cases hv' : v.notifyfd=head
      · rw [hv',Function.update_self]
        exact .inr rfl
      · rw [Function.update_of_ne hv']
        exact h.counters v hv
    · by_cases hqp : q=p
      · subst hqp
        rw [putPool_self] at hq
        cases hq
        rw [if_pos rfl]
        refine ⟨hsilent.symm,fun _ => ?_⟩
        have howed := hp.owed (by simp [hs])
        show available cp ≤ (tally signalled (Function.update w.fds head _) (queue w q) : ℤ)+(k-1)
        rw [hmore]
        push_cast
        omega
      · rw [putPool_of_ne hqp] at hq
        have hold := h.pools q cq hq
        rw [if_neg hqp] at hold ⊢
        have hout := h.queue_disjoint hqueue hqp
        exact hold.congr rfl (silent_update_of_not_mem hout) (tally_update_of_not_mem hout).ge

/-- `cp_return` makes one coroutine available and notifies the first waiter, if there is one. -/
theorem Waits.cpReturn {c : Co} (h : Waits p 0 w) (ht : cpReturn w c=.ok t) : Waits p 0 t := by
  unfold CoroutinePool.cpReturn at ht
  split at ht
  · cases ht
    exact h
  next r _ =>
    split at ht
    · cases ht
    next cr hr =>
      obtain ⟨reg,-,ht⟩ := bind_eq_ok ht
      have hreg : Waits r 1 {w with reg := reg} :=
        ((h.any r).mono (by omega)).of_same rfl rfl rfl fun _ _ hq => hq
      have hold := (h.any r).pools r cr hr
      rw [if_pos rfl] at hold
      -- one more coroutine is available, which the notification makes up for
      have hmore : Attended w r {cr with
          freelist := c::cr.freelist
          activenum := cr.activenum-1
          out := cr.out.erase c} 1 := by
        refine hold.of_pool rfl ?_
        unfold available
        dsimp only
        omega
      have hnew := (hreg.notifyFirst ⟨hmore.nodes,hmore.owed⟩ ht).1
      rw [sub_self] at hnew
      exact hnew.any p

/-- `dyco_asymcpool_return` does what `cp_return` does, or nothing. -/
theorem Waits.dycoAsymcpoolReturn {cid : ℤ} (h : Waits p 0 w)
    (ht : dycoAsymcpoolReturn w cid=.ok t) : Waits p 0 t := by
  unfold CoroutinePool.dycoAsymcpoolReturn at ht
  split at ht
  · cases ht
    exact h
  · exact h.cpReturn ht

/-- The register does not matter to the callers. -/
theorem Waits.onRegister {r : Except Fault Register} (h : Waits p 0 w)
    (ht : onRegister w r=.ok t) : Waits p 0 t := by
  cases r with
  | error e => cases ht
  | ok reg =>
    cases ht
    exact h.of_same rfl rfl rfl fun _ _ hq => hq

/-- An aborted coroutine of a pool notifies the first waiter. -/
theorem Waits.coroAbort {c : Co} (h : Waits p 0 w) (ht : coroAbort w c=.ok t) : Waits p 0 t := by
  unfold CoroutinePool.coroAbort at ht
  split_ifs at ht
  · exact h.dycoAsymcpoolReturn ht
  · exact h.cpReturn ht
  · exact h.onRegister ht
  · exact h.onRegister ht

/-- The end of a killed coroutine notifies the first waiter of its pool. -/
theorem Waits.resumeKilled {c : Co} (h : Waits p 0 w) (ht : resumeKilled w c=.ok t) :
    Waits p 0 t := by
  unfold CoroutinePool.resumeKilled at ht
  split at ht
  · cases ht
    exact h
  · split_ifs at ht
    obtain ⟨u,hu,rfl⟩ := map_eq_ok ht
    exact (h.coroAbort hu).of_same rfl rfl rfl fun _ _ hq => hq

/-- The end of an exited coroutine notifies the first waiter of its pool. -/
theorem Waits.resumeExited {c : Co} (h : Waits p 0 w) (ht : resumeExited w c=.ok t) :
    Waits p 0 t := by
  unfold CoroutinePool.resumeExited at ht
  split_ifs at ht
  · exact h.cpReturn ht
  · exact h.onRegister ht

/-- New objects change the freelist of a pool only. -/
theorem cpFill_keeps (p : ℕ) (isasymmetric : Bool) (n : ℕ) (s : Register) (cp : Pool) :
    (cpFill p isasymmetric n s cp).2.sublist=cp.sublist ∧
    available (cpFill p isasymmetric n s cp).2=available cp := by
  induction n generalizing s cp with
  | zero => exact ⟨rfl,rfl⟩
  | succ n ih => exact ih ..

/-- Nobody waits for a pool that does not exist yet. -/
theorem Waits.queue_nextPool (h : Waits p k w) : queue w w.nextPool=[] := by
  refine List.eq_nil_iff_forall_not_mem.mpr fun fd hm => ?_
  obtain ⟨v,hv,hpool,-⟩ := mem_queue.mp hm
  exact absurd (h.known v hv) (by omega)

/-- Nobody waits for a new pool. -/
theorem Waits.cpCreate (h : Waits p 0 w) (totalsize : ℤ) (isasymmetric : Bool) :
    Waits p 0 (cpCreate w totalsize isasymmetric) := by
  unfold CoroutinePool.cpCreate
  split_ifs with hsize
  · exact h
  · refine ⟨h.counters,h.distinct,h.callers,fun v hv => (h.known v hv).trans (Nat.lt_succ_self _),
      fun q cq hq => ?_⟩
    by_cases hqp : q=w.nextPool
    · subst hqp
      have hcq := Option.some.inj ((putPool_self ..).symm.trans hq)
      have hs : cq.sublist=[] := by rw [← hcq,(cpFill_keeps ..).1]
      refine ⟨?_,fun hne => absurd hs hne⟩
      show cq.sublist=silent w.fds (queue w w.nextPool)
      rw [hs,h.queue_nextPool]
      rfl
    · have hold := h.pools q cq ((putPool_of_ne hqp ..).symm.trans hq)
      exact ⟨hold.nodes,hold.owed⟩

/-- The state in the loops of `cp_resize`. -/
def Resizing (p : ℕ) (totalsize activenum slack : ℤ) (w : World) : Prop :=
  Waits p slack w ∧ ∃ cp,w.pools p=some cp ∧ cp.totalsize=totalsize ∧ cp.activenum=activenum

/-- A round of growing notifies one waiter, which uses up one of the slack. -/
theorem Resizing.cpGrow {T A : ℤ} {isasymmetric : Bool} (h : Resizing p T A k w)
    (ht : cpGrow p isasymmetric w=.ok t) : Resizing p T A (k-1) t := by
  obtain ⟨hw,cp,hp,hT,hA⟩ := h
  simp only [CoroutinePool.cpGrow,hp] at ht
  have hreg : Waits p k {w with reg := (cpAdd p isasymmetric w.reg cp).1} :=
    hw.of_same rfl rfl rfl fun _ _ hq => hq
  have hpool := hreg.pools p cp hp
  rw [if_pos rfl] at hpool
  have hadd : Attended {w with reg := (cpAdd p isasymmetric w.reg cp).1} p
      (cpAdd p isasymmetric w.reg cp).2 k := hpool.of_pool rfl le_rfl
  obtain ⟨hnew,-,hp'⟩ := hreg.notifyFirst hadd ht
  exact ⟨hnew,_,hp',hT,hA⟩

/-- A round of shrinking concerns no waiter. -/
theorem Resizing.cpDrop {T A : ℤ} {isasymmetric : Bool} (h : Resizing p T A k w)
    (ht : cpDrop p isasymmetric w=.ok t) : Resizing p T A k t := by
  obtain ⟨hw,cp,hp,hT,hA⟩ := h
  simp only [CoroutinePool.cpDrop,hp] at ht
  split at ht
  · cases ht
  next c rest _ =>
    obtain ⟨reg,-,ht⟩ := bind_eq_ok ht
    cases ht
    refine ⟨hw.of_pool hp rfl rfl rfl rfl takeFirst_sublist ?_,_,putPool_self ..,
      takeFirst_totalsize.trans hT,takeFirst_activenum.trans hA⟩
    simp [available]

/-- The new size makes no more coroutines available than waiters were notified. -/
theorem Resizing.setTotalsize {T A newsize : ℤ} (h : Resizing p T A k w) (hk : newsize+k≤T) :
    Waits p 0 (setTotalsize p newsize w) := by
  obtain ⟨hw,cp,hp,rfl,rfl⟩ := h
  have hpools : (CoroutinePool.setTotalsize p newsize w).pools=
      Function.update w.pools p (some {cp with totalsize := newsize}) := by
    simp [CoroutinePool.setTotalsize,hp]
  refine hw.of_pool hp rfl rfl rfl hpools rfl ?_
  unfold available
  dsimp only
  omega

/-- `cp_resize` leaves no available coroutine that a waiter was not notified of. -/
theorem Waits.cpResize {newsize : ℤ} {isasymmetric : Bool} (h : Waits p 0 w)
    (ht : cpResize w p newsize isasymmetric=.ok t) : Waits p 0 t := by
  unfold CoroutinePool.cpResize at ht
  split at ht
  · cases ht
  next cp hp =>
    have hstart : Resizing p cp.totalsize cp.activenum 0 w := ⟨h,cp,hp,rfl,rfl⟩
    split_ifs at ht with hsame hless
    · cases ht
      exact h
    · obtain ⟨u,hu,rfl⟩ := map_eq_ok ht
      -- the slack falls with every round, as `totalsize` is written after the loop
      have hloop := times_invariant (fun i => Resizing p cp.totalsize cp.activenum (-(i : ℤ)))
        (fun i b b' hb hf => by
          have hround := hb.cpGrow hf
          rwa [show -(i : ℤ)-1= -((i+1 : ℕ) : ℤ) by push_cast; omega] at hround)
        (i := 0) (by simpa using hstart) hu
      exact hloop.setTotalsize (by push_cast; omega)
    · obtain ⟨u,hu,rfl⟩ := map_eq_ok ht
      have hloop := times_invariant (fun _ => Resizing p cp.totalsize cp.activenum 0)
        (fun _ _ _ hb hf => hb.cpDrop hf) (i := 0) hstart hu
      exact hloop.setTotalsize (by omega)

/-- A pool is not destroyed while callers wait for it. -/
theorem Waits.cpDestroy {isasymmetric : Bool} (h : Waits p 0 w)
    (ht : cpDestroy w p isasymmetric=.ok t) : Waits p 0 t := by
  unfold CoroutinePool.cpDestroy at ht
  split at ht
  · cases ht
  next cp hp =>
    have hstart : Resizing p cp.totalsize cp.activenum 0 w := ⟨h,cp,hp,rfl,rfl⟩
    split_ifs at ht
    · cases ht
      exact h.reply
    · obtain ⟨u,hu,rfl⟩ := map_eq_ok ht
      have hloop := times_invariant (fun _ => Resizing p cp.totalsize cp.activenum 0)
        (fun _ _ _ hb hf => hb.cpDrop hf) (i := 0) hstart hu
      refine hloop.1.of_same rfl rfl rfl fun q cq hq => ?_
      by_cases hqp : q=p
      · subst hqp
        exact absurd hq (by simp [CoroutinePool.reply])
      · simpa [CoroutinePool.reply,hqp] using hq

/-- A call that takes a coroutine, or finds none. -/
theorem Waits.cpObtainRest {caller : Co} {timeout : ℤ} {isasymmetric : Bool} (h : Waits p 1 w)
    (hp : w.pools p=some cp) (ht : cpObtainRest w caller p cp timeout isasymmetric=.ok t) :
    Waits p 0 t := by
  unfold CoroutinePool.cpObtainRest at ht
  split_ifs at ht with hnone
  · cases ht
    refine Waits.reply ⟨h.counters,h.distinct,h.callers,h.known,fun q cq hq => ?_⟩
    have hold := h.pools q cq hq
    rw [ite_self]
    by_cases hqp : q=p
    · subst hqp
      rw [hp] at hq
      cases hq
      refine ⟨hold.nodes,fun _ => ?_⟩
      unfold available
      omega
    · rw [if_neg hqp] at hold
      exact hold
  · unfold cpTake at ht
    split at ht
    · cases ht
    · cases ht
      refine Waits.reply (h.of_pool hp rfl rfl rfl rfl rfl ?_)
      unfold available
      dsimp only
      omega

/-- A caller that blocks finds no coroutine available. -/
theorem Waits.enter {caller : Co} {timeout : ℤ} {isasymmetric : Bool} (h : Waits p 0 w)
    (hp : w.pools p=some cp) (hnext : p<w.nextPool) (hfd : w.fds fd=none)
    (hcaller : caller∉w.blocked.map Waiter.caller) (hnone : available cp ≤ 0) :
    Waits p 0 {putPool {w with fds := openEvent w.fds fd} p {cp with sublist := cp.sublist++[fd]} with
      blocked := w.blocked++[⟨caller,p,timeout,isasymmetric,fd⟩]} := by
  have hfresh := h.not_mem_queue (.inl hfd)
  have hopen : openEvent w.fds fd fd=some (.event 0) := Function.update_self ..
  have hout : ∀ q,fd∉queue w q := fun q hm => hfresh (queue_subset hm)
  have hsilent : ∀ q,silent (openEvent w.fds fd) (queue w q)=silent w.fds (queue w q) :=
    fun q => silent_update_of_not_mem (hout q)
  have htally : ∀ q,tally signalled (openEvent w.fds fd) (queue w q)=notified w q :=
    fun q => tally_update_of_not_mem (hout q)
  refine ⟨fun v hv => ?_,?_,?_,fun v hv => ?_,fun q cq hq => ?_⟩
  · show openEvent w.fds fd v.notifyfd=_ ∨ openEvent w.fds fd v.notifyfd=_
    rcases List.mem_append.mp hv with hv|hv
    · have hne : v.notifyfd≠fd := fun he => hfresh (he ▸ List.mem_map_of_mem hv)
      rw [openEvent,Function.update_of_ne hne]
      exact h.counters v hv
    · rw [List.mem_singleton.mp hv]
      exact .inl hopen
  · simpa [List.nodup_append,h.distinct] using hfresh
  · simpa [List.nodup_append,h.callers] using hcaller
  · rcases List.mem_append.mp hv with hv|hv
    · exact h.known v hv
    · rw [List.mem_singleton.mp hv]
      exact hnext
  · rw [ite_self]
    by_cases hqp : q=p
    · subst hqp
      have hcq := Option.some.inj ((putPool_self ..).symm.trans hq)
      have hold := h.pools q cp hp
      have hqueue : ∀ l,(List.filter (fun v => v.pool=q) (l++[⟨caller,q,timeout,isasymmetric,fd⟩])).map
          Waiter.notifyfd=(l.filter fun v => v.pool=q).map Waiter.notifyfd++[fd] := by simp
      rw [← hcq]
      refine ⟨?_,fun _ => ?_⟩
      · show cp.sublist++[fd]=silent (openEvent w.fds fd) (List.map _ (List.filter _ (_++[_])))
        rw [hqueue,silent_concat_of_event hopen,hold.nodes]
        exact congrArg (·++[fd]) (hsilent q).symm
      · show available cp ≤ _
        omega
    · have hold := h.pools q cq ((putPool_of_ne hqp ..).symm.trans hq)
      have hqueue : ∀ l,(List.filter (fun v => v.pool=q) (l++[⟨caller,p,timeout,isasymmetric,fd⟩])).map
          Waiter.notifyfd=(l.filter fun v => v.pool=q).map Waiter.notifyfd := by
        intro l
        simp [Ne.symm hqp]
      rw [ite_self] at hold
      refine ⟨?_,fun hs => (hold.owed hs).trans ?_⟩
      · show cq.sublist=silent (openEvent w.fds fd) (List.map _ (List.filter _ (_++[_])))
        rw [hqueue,hold.nodes]
        exact (hsilent q).symm
      · show _≤(tally signalled (openEvent w.fds fd) (List.map _ (List.filter _ (_++[_]))) : ℤ)+0
        rw [hqueue]
        exact (congrArg (fun n : ℕ => (n : ℤ)+0) (htally q)).ge

/-- `cp_obtain` takes a coroutine, blocks its caller when there is none, or gives up. -/
theorem Waits.cpObtain {caller : Co} {context : Context} {timeout : ℤ} {isasymmetric allocated : Bool}
    (h : Waits p 0 w) (hfd : w.fds fd=none) (hknown : ∀ cp,w.pools p=some cp → p<w.nextPool)
    (hactive : context=.symmetric → Active w caller)
    (ht : cpObtain w caller context p timeout isasymmetric fd allocated=.ok t) : Waits p 0 t := by
  unfold CoroutinePool.cpObtain at ht
  split at ht
  · cases ht
  next cp hp =>
    split_ifs at ht with hrest hcontext hall
    · exact (h.mono (by omega)).cpObtainRest hp ht
    · cases ht
      have hsym : context=.symmetric := not_not.mp hcontext
      refine h.enter hp (hknown cp hp) hfd (hactive hsym).2.2 ?_
      unfold available
      omega
    · cases ht
      exact (h.elsewhere (h.not_mem_queue (.inl hfd))).reply

/-- The callers without one of them. -/
def leave (w : World) (v : Waiter) : World :=
  {w with
    fds := close w.fds v.notifyfd
    blocked := w.blocked.filter fun u => u.notifyfd≠v.notifyfd}

/-- A resumed caller leaves the queue of its own pool only. -/
theorem Waits.queue_leave (h : Waits p k w) (q : ℕ) :
    queue (leave w v) q=(queue w q).erase v.notifyfd := by
  rw [queue,queue,leave]
  dsimp only
  rw [← map_filter_ne (h.queue_nodup q),List.filter_filter,List.filter_filter]
  exact congrArg _ (List.filter_congr fun u _ => Bool.and_comm ..)

/-- One notified caller less, if it was one. -/
theorem Waits.notified_leave (h : Waits p k w) (hv : v∈w.blocked) (q : ℕ) :
    notified (leave w v) q+(if q=v.pool ∧ signalled (w.fds v.notifyfd) then 1 else 0)=
      notified w q := by
  have hleft : notified (leave w v) q=tally signalled w.fds ((queue w q).erase v.notifyfd) := by
    rw [notified,h.queue_leave]
    exact tally_update_of_not_mem (h.queue_nodup q).not_mem_erase
  rw [hleft,notified]
  by_cases hq : q=v.pool
  · have hm : v.notifyfd∈queue w q := mem_queue.mpr ⟨v,hv,hq.symm,rfl⟩
    have htally := tally_erase (p := signalled) (t := w.fds) hm
    simp only [hq,true_and] at htally ⊢
    exact htally
  · have hm : v.notifyfd∉queue w q := h.queue_disjoint (mem_queue.mpr ⟨v,hv,rfl,rfl⟩) hq
    rw [List.erase_of_not_mem hm,if_neg fun hb => hq hb.1,Nat.add_zero]

/-- A pool after one of the callers has left. -/
theorem Waits.attended_leave (h : Waits p 0 w) {cq : Pool} (hq : w.pools q=some cq)
    (hv : v∈w.blocked) : Attended (leave w v) q {cq with sublist := cq.sublist.erase v.notifyfd}
      (if q=v.pool ∧ signalled (w.fds v.notifyfd) then 1 else 0) := by
  have hold := h.pools q cq hq
  rw [ite_self] at hold
  have hnd := h.queue_nodup q
  refine ⟨?_,fun hs => ?_⟩
  · show cq.sublist.erase v.notifyfd=silent (close w.fds v.notifyfd) (queue (leave w v) q)
    rw [h.queue_leave,close,silent_update_of_not_mem hnd.not_mem_erase,silent_erase hnd,hold.nodes]
  · have hne : cq.sublist≠[] := by
      rintro he
      simp [he] at hs
    have howed := hold.owed hne
    have hcount := h.notified_leave hv q
    show available cq ≤ _
    split_ifs at hcount ⊢ <;> omega

/-- One of the callers has left: its node is not linked any more, and a coroutine
that was owed to it is not. -/
theorem Waits.leave (h : Waits p 0 w) (hp : w.pools v.pool=some cp) (hv : v∈w.blocked) :
    Waits v.pool (if signalled (w.fds v.notifyfd) then 1 else 0)
      (putPool (leave w v) v.pool {cp with sublist := cp.sublist.erase v.notifyfd}) := by
  have hkept : ∀ u∈(PoolWaiters.leave w v).blocked,u∈w.blocked ∧ u.notifyfd≠v.notifyfd :=
    fun u hu => by simpa using List.mem_filter.mp hu
  refine ⟨fun u hu => ?_,h.distinct.sublist (List.filter_sublist.map _),
    h.callers.sublist (List.filter_sublist.map _),fun u hu => h.known u (hkept u hu).1,
    fun q cq hq => ?_⟩
  · have hother : close w.fds v.notifyfd u.notifyfd=w.fds u.notifyfd :=
      Function.update_of_ne (hkept u hu).2 ..
    show close w.fds v.notifyfd u.notifyfd=_ ∨ close w.fds v.notifyfd u.notifyfd=_
    rw [hother]
    exact h.counters u (hkept u hu).1
  · by_cases hqp : q=v.pool
    · subst hqp
      rw [putPool_self] at hq
      cases hq
      have hnew := h.attended_leave hp hv
      simp only [true_and] at hnew
      rw [if_pos rfl]
      exact ⟨hnew.nodes,hnew.owed⟩
    · rw [putPool_of_ne hqp] at hq
      have hnew := h.attended_leave hq hv
      have hold := h.pools q cq hq
      have hout : v.notifyfd∉cq.sublist := by
        rw [hold.nodes,mem_silent]
        exact fun hm => h.queue_disjoint (mem_queue.mpr ⟨v,hv,rfl,rfl⟩) hqp hm.1
      rw [List.erase_of_not_mem hout] at hnew
      rw [if_neg hqp]
      simp only [hqp,false_and,if_false] at hnew
      exact ⟨hnew.nodes,hnew.owed⟩

/-- A caller that was notified is not in the list. -/
theorem Waits.erase_signalled (h : Waits p 0 w) (hp : w.pools v.pool=some cp)
    (hs : signalled (w.fds v.notifyfd)=true) : cp.sublist.erase v.notifyfd=cp.sublist := by
  refine List.erase_of_not_mem fun hm => ?_
  rw [(h.pools v.pool cp hp).nodes,mem_silent] at hm
  simp [signalled,hm.2] at hs

/-- Writing back what a pool holds changes nothing. -/
theorem putPool_eq_self (hp : w.pools p=some cp) : putPool w p cp=w := by
  unfold putPool
  rw [← hp,Function.update_eq_self]

/-- A caller can read its counter if it was notified. -/
theorem Waits.read_iff (h : Waits p k w) (hv : v∈w.blocked) :
    (eventfdRead w.fds v.notifyfd).isSome=signalled (w.fds v.notifyfd) := by
  rcases h.counters v hv with hc|hc <;> simp [eventfdRead,hc,signalled]

/-- What follows the `yield` of a blocked caller. -/
theorem Waits.afterYield_eq (h : Waits p 0 w) (hp : w.pools v.pool=some cp) (hv : v∈w.blocked) :
    afterYield w v=CoroutinePool.cpObtainRest
      (putPool (PoolWaiters.leave w v) v.pool {cp with sublist := cp.sublist.erase v.notifyfd})
      v.caller v.pool {cp with sublist := cp.sublist.erase v.notifyfd} v.timeout v.isasymmetric := by
  unfold CoroutinePool.afterYield
  rw [hp]
  dsimp only
  rw [h.read_iff hv]
  by_cases hs : signalled (w.fds v.notifyfd)=true
  · have hsame : putPool (PoolWaiters.leave w v) v.pool cp=PoolWaiters.leave w v :=
      putPool_eq_self hp
    rw [if_pos hs,h.erase_signalled hp hs,hsame]
    rfl
  · have hsilent : w.fds v.notifyfd=some (.event 0) := by simpa [signalled] using hs
    have hm : v.notifyfd∈cp.sublist := by
      rw [(h.pools v.pool cp hp).nodes,mem_silent]
      exact ⟨mem_queue.mpr ⟨v,hv,rfl,rfl⟩,hsilent⟩
    rw [if_neg hs,if_neg (List.ne_nil_of_mem hm)]
    rfl

/-- A resumed waiter leaves the queue and takes a coroutine or gives up. -/
theorem Waits.afterYield (h : Waits p 0 w) (hv : v∈w.blocked) (ht : afterYield w v=.ok t) :
    Waits v.pool 0 t := by
  cases hp : w.pools v.pool with
  | none =>
    rw [CoroutinePool.afterYield,hp] at ht
    cases ht
  | some cp =>
    rw [h.afterYield_eq hp hv] at ht
    refine ((h.leave hp hv).mono ?_).cpObtainRest (putPool_self ..) ht
    split_ifs <;> omega

/-- Every step keeps the callers attended to. -/
theorem Waits.step (h : Waits p 0 w) (hknown : ∀ q cq,w.pools q=some cq → q<w.nextPool)
    (ha : step w a=some (.ok t)) : Waits p 0 t := by
  cases happens_of_step ha with
  | create => exact h.of_same rfl rfl rfl fun _ _ hq => hq
  | createUrgent => exact h.of_same rfl rfl rfl fun _ _ hq => hq
  | asymCreate => exact h.of_same rfl rfl rfl fun _ _ hq => hq
  | exit _ ht => exact h.resumeExited ht
  | abort _ ht => exact h.resumeKilled ht
  | asymFree ht => exact h.onRegister ht
  | poolCreate => exact h.cpCreate _ _
  | @obtain _ _ q _ _ _ _ _ hfd hactive ht =>
    exact ((h.any q).cpObtain hfd (hknown q) hactive ht).any p
  | resume hv ht => exact (h.afterYield (List.mem_of_find?_eq_some hv) ht).any p
  | asymReturn ht => exact h.dycoAsymcpoolReturn ht
  | @resize q _ _ _ ht => exact ((h.any q).cpResize ht).any p
  | @destroy q _ _ ht => exact ((h.any q).cpDestroy ht).any p
  | openOther hfd => exact h.elsewhere (h.not_mem_queue (.inl hfd))
  | closeOther hfd => exact h.elsewhere (h.not_mem_queue (.inr hfd))

/-- A new scheduler has neither pools nor waiters. -/
theorem waits_newScheduler (schedId : ℕ) : Waits p 0 (newScheduler schedId) := by
  constructor <;> simp [newScheduler]

/-- Callers are attended to in every run. -/
theorem waits_of_runs {schedId : ℕ} {cond : World → Act → Prop}
    (h : Runs step cond (newScheduler schedId) w) : Waits p 0 w ∧ Owned (fun _ x _ => 0≤x) w := by
  refine h.invariant (fun w => Waits p 0 w ∧ Owned (fun _ x _ => 0≤x) w)
    ⟨waits_newScheduler schedId,owned_newScheduler schedId⟩ ?_
  rintro w a t ⟨hw,ho⟩ _ ha
  exact ⟨hw.step ho.known ha,ho.step_nonneg ha⟩

/-- The rest of `cp_obtain` takes a coroutine where one is available. -/
theorem cpObtainRest_takes (w : World) (caller : Co) (p : ℕ) (timeout : ℤ) (isasymmetric : Bool)
    (hpos : 0<available cp) (hstock : 0 ≤ surplus cp) :
    ∃ c rest,cp.freelist=c::rest ∧ cpObtainRest w caller p cp timeout isasymmetric=.ok
      (reply (putPool {w with reg := register (renew w.reg c isasymmetric) c} p {cp with
        freelist := rest
        activenum := cp.activenum+1
        out := c::cp.out}) (.obtain caller p timeout w.reg.nextCid)) := by
  unfold CoroutinePool.cpObtainRest cpTake
  unfold available at hpos
  unfold surplus at hstock
  rw [if_neg (by omega)]
  cases hfree : cp.freelist with
  | nil =>
    rw [hfree,List.length_nil] at hstock
    omega
  | cons c rest => exact ⟨c,rest,rfl,rfl⟩

/-- Without an available coroutine the call returns what is available. -/
theorem cpObtainRest_fails {caller : Co} {timeout : ℤ} {isasymmetric : Bool}
    (hnone : available cp ≤ 0) : cpObtainRest w caller p cp timeout isasymmetric=.ok
      (reply w (.obtain caller p timeout (available cp))) := by
  unfold available at hnone ⊢
  unfold CoroutinePool.cpObtainRest
  rw [if_pos hnone]

/-- A coroutine is blocked in one call, so that it is this one that is resumed. -/
theorem Waits.find_caller (h : Waits p k w) (hv : v∈w.blocked) :
    w.blocked.find? (fun u => u.caller=v.caller)=some v := by
  cases hf : w.blocked.find? fun u => u.caller=v.caller with
  | none => exact absurd (List.find?_eq_none.mp hf v hv) (by simp)
  | some u =>
    have hcaller : u.caller=v.caller := by simpa using List.find?_some hf
    rw [List.inj_on_of_nodup_map h.callers (List.mem_of_find?_eq_some hf) hv hcaller]

/-- A blocked caller that is resumed returns, and its node is unlinked. -/
theorem Waits.expire (h : Waits p 0 w) (ho : Owned (fun _ x _ => 0≤x) w) (hp : w.pools v.pool=some cp)
    (hv : v∈w.blocked) :
    ∃ t cp',CoroutinePool.step w (.resume v.caller)=some (.ok t) ∧
      t.pools v.pool=some cp' ∧ cp'.sublist=cp.sublist.erase v.notifyfd := by
  have hfind := h.find_caller hv
  have hstep : CoroutinePool.step w (.resume v.caller)=some (CoroutinePool.afterYield w v) := by
    simp only [CoroutinePool.step,hfind]
  rw [hstep,h.afterYield_eq hp hv]
  have hstock : 0 ≤ surplus {cp with sublist := cp.sublist.erase v.notifyfd} := ho.bounded _ cp hp
  by_cases hpos : 0<available {cp with sublist := cp.sublist.erase v.notifyfd}
  · obtain ⟨c,rest,-,hrest⟩ := cpObtainRest_takes (putPool (PoolWaiters.leave w v) v.pool
      {cp with sublist := cp.sublist.erase v.notifyfd}) v.caller v.pool v.timeout v.isasymmetric
      hpos hstock
    rw [hrest]
    exact ⟨_,_,rfl,putPool_self ..,rfl⟩
  · rw [cpObtainRest_fails (not_lt.mp hpos)]
    exact ⟨_,_,rfl,putPool_self ..,rfl⟩

/-- In every run, the list of a pool has the nodes of exactly those blocked callers
that were not notified, in order of arrival. While there are any, no more
coroutines are available than callers were notified and not resumed. A caller that
is resumed without a notification finds its own node and unlinks it. -/
theorem no_lost_wakeup {schedId : ℕ} (h : Runs step (fun _ _ => True) (newScheduler schedId) w)
    (hp : w.pools p=some cp) :
    (∀ v∈w.blocked,w.fds v.notifyfd=some (.event 0) ∨ w.fds v.notifyfd=some (.event 1)) ∧
    cp.sublist=silent w.fds (queue w p) ∧
    (silent w.fds (queue w p)≠[] → cp.totalsize-cp.activenum ≤ notified w p) ∧
    ∀ v∈w.blocked,v.pool=p → w.fds v.notifyfd=some (.event 0) → v.notifyfd∈cp.sublist ∧
      ∃ t cp',step w (.resume v.caller)=some (.ok t) ∧ t.pools p=some cp' ∧
        cp'.sublist=cp.sublist.erase v.notifyfd := by
  obtain ⟨hw,ho⟩ := waits_of_runs (p := p) h
  have hatt := hw.pools p cp hp
  rw [ite_self] at hatt
  refine ⟨hw.counters,hatt.nodes,fun hne => ?_,fun v hv hpool hsilent => ⟨?_,?_⟩⟩
  · have howed := hatt.owed (hatt.nodes ▸ hne)
    unfold available at howed
    omega
  · rw [hatt.nodes,mem_silent]
    exact ⟨mem_queue.mpr ⟨v,hv,hpool,rfl⟩,hsilent⟩
  · subst hpool
    exact hw.expire ho hp hv

/-- Three callers block on a pool of one, which is then resized to two. -/
def crowded : List Act :=
  [.create,.create,.create,.poolCreate 1 false,.obtain 0 .symmetric 0 (-1) false 5 true,
    .obtain 0 .symmetric 0 (-1) false 5 true,.obtain 1 .symmetric 0 10 false 6 true,
    .obtain 2 .symmetric 0 (-1) false 7 true,.resize 0 2 false]

/-- Three callers wait, the pool grows by one, and the first of them is notified. -/
theorem no_lost_wakeup_crowded :
    ∃ w cp,replay step (newScheduler 1) crowded=some w ∧ w.pools 0=some cp ∧
      cp.sublist=[6,7] ∧ queue w 0=[5,6,7] ∧ notified w 0=1 ∧ cp.totalsize-cp.activenum=1 ∧
      cp.totalsize-cp.activenum ≤ notified w 0 := by
  have h : ((replay step (newScheduler 1) crowded).bind fun w => (w.pools 0).map fun cp =>
      (w,cp)).map (fun x => (x.2.sublist,queue x.1 0,notified x.1 0,x.2.totalsize-x.2.activenum))=
      some ([6,7],[5,6,7],1,1) := by decide +kernel
  obtain ⟨⟨w,cp⟩,hx,hq⟩ := Option.map_eq_some_iff.mp h
  obtain ⟨w',hw,hx⟩ := Option.bind_eq_some_iff.mp hx
  obtain ⟨cp',hp,hx⟩ := Option.map_eq_some_iff.mp hx
  cases hx
  simp only [Prod.mk.injEq] at hq
  obtain ⟨hs,hqueue,hn,hav⟩ := hq
  obtain ⟨-,hnodes,howed,-⟩ := no_lost_wakeup (runs_of_replay hw) hp
  exact ⟨w,cp,hw,hp,hs,hqueue,hn,hav,howed (by rw [← hnodes,hs]; simp)⟩

end DycoCoroutine.PoolWaiters
