import Mathlib.Algebra.BigOperators.Group.Finset.Basic
import Mathlib.Algebra.Order.BigOperators.Group.Finset
import DycoCoroutine.Semaphore

/-!
# Fairness and exclusion of the semaphore

Waits without a timer are resumed only after they were granted. Then the wait
queue lists the blocked waits that were not granted, oldest first, it is empty
while the counter is positive, and a signal grants the first of them, which will
return 0. If nobody signals more often than it has acquired, the permits that are
held are never more than the initial value.
-/

namespace DycoCoroutine.SemaphoreFairness

open ScheduleState RunInvariant EventFd Semaphore

/-- A semaphore, with the callers of the signals that returned 0. -/
structure Ledger where
  /-- The semaphore and its callers. -/
  world : World
  /-- Who has signalled successfully, oldest first. -/
  signallers : List ℕ

/-- One step, with the coroutine that makes it. -/
def step (s : Ledger) (a : ℕ×Act) : Option (Except Fault Ledger) :=
  (Semaphore.step s.world a.2).map fun r => r.map fun t =>
    ⟨t,if t.log=s.world.log++[.signal 0] then s.signallers++[a.1] else s.signallers⟩

/-- Every wait has a timeout of 0 or none at all, and a blocked wait is resumed
because its counter was written to. -/
def patient (s : Ledger) (a : ℕ×Act) : Bool :=
  genuine s.world a.2 && match a.2 with
    | .wait _ _ timeout _ _ => timeout≤0
    | _ => true

/-- The states that a semaphore of this initial value can reach when no wait can
expire. -/
def Reachable (value : ℕ) (s : Ledger) : Prop :=
  ∃ sem,dycoSemaphoreCreate value=some sem ∧
    Runs step (fun s a => patient s a=true) ⟨newSemaphore sem,[]⟩ s

/-- The blocked waits that were not granted, in the order of their calls. -/
def ungranted (w : World) : List Waiter := w.blocked.filter fun v => w.fds v.notifyfd=some (.event 0)

/-- The coroutine of a wait that returned 0. -/
def acquirer : Reply → Option ℕ
  | .wait c ret => if ret=0 then some c else none
  | .signal _ => none

/-- How often a coroutine has acquired a permit. -/
def acquiredBy (w : World) (c : ℕ) : ℕ := (w.log.filterMap acquirer).count c

/-- How often a coroutine has signalled successfully. -/
def signalledBy (s : Ledger) (c : ℕ) : ℕ := s.signallers.count c

/-- A coroutine holds a permit. -/
def Holds (s : Ledger) (c : ℕ) : Prop := signalledBy s c<acquiredBy s.world c

variable {w t : World} {s s' : Ledger} {value : ℕ} {a : Act}

/-- The invariant of a semaphore whose waits cannot expire. -/
structure Fair (value : ℕ) (w : World) : Prop where
  /-- Permits are conserved. -/
  balanced : Balanced value w
  /-- `semval` is an `int`. -/
  bounded : w.sem.semval ≤ semValueMax
  /-- Nobody queues while there are permits. -/
  free : 0<w.sem.semval → w.sem.wqueue=[]
  /-- The queue is that of the waits that were not granted. -/
  order : w.sem.wqueue.map Node.notifyfd=silent w.fds (w.blocked.map Waiter.notifyfd)
  /-- No timer was set. -/
  untimed : ∀ v∈w.blocked,v.timed=false
  /-- A coroutine is blocked in one wait. -/
  callers : (w.blocked.map Waiter.co).Nodup

/-- The callers without a permit are those whose counters are 0. -/
theorem map_ungranted (w : World) :
    (ungranted w).map Waiter.notifyfd=silent w.fds (w.blocked.map Waiter.notifyfd) := by
  rw [ungranted,silent,List.filter_map]
  rfl

/-- A grant takes the wait off the list. -/
theorem ungranted_update (w : World) (fd : ℤ) (hb : t.blocked=w.blocked)
    (hf : t.fds=Function.update w.fds fd (some (.event 1))) :
    ungranted t=(ungranted w).filter fun u => u.notifyfd≠fd := by
  rw [ungranted,ungranted,hb,hf,List.filter_filter]
  refine List.filter_congr fun u _ => ?_
  by_cases hu : u.notifyfd=fd
  · simp [hu]
  · simp [hu]

/-- A step in which only the log grows. -/
theorem Fair.reply {r : Reply} (h : Fair value w) (hb : Balanced value (reply w r)) :
    Fair value (Semaphore.reply w r) :=
  ⟨hb,h.bounded,h.free,h.order,h.untimed,h.callers⟩

/-- A descriptor that is no counter of a blocked wait changes its meaning. -/
theorem Fair.elsewhere {fd : ℤ} {d : Option Desc} (h : Fair value w)
    (hfd : w.fds fd=none ∨ w.fds fd=some .other)
    (hb : Balanced value {w with fds := Function.update w.fds fd d}) :
    Fair value {w with fds := Function.update w.fds fd d} :=
  ⟨hb,h.bounded,h.free,h.order.trans (silent_update_of_not_mem (h.balanced.1.not_mem hfd)).symm,
    h.untimed,h.callers⟩

/-- A caller that finds no permit goes to the end of the queue. -/
theorem Fair.enterQueue {c : ℕ} {fd : ℤ} (h : Fair value w) (hfd : w.fds fd=none)
    (hc : ∀ v∈w.blocked,v.co≠c) (hval : w.sem.semval=0)
    (hb : Balanced value (enterQueue w c fd false)) : Fair value (enterQueue w c fd false) := by
  have hnew := h.balanced.1.not_mem (.inl hfd)
  have hopen : openEvent w.fds fd fd=some (.event 0) := Function.update_self ..
  have hpush := h.balanced.1.pushNode ⟨w.nextNode,fd⟩
  refine ⟨hb,?_,?_,?_,?_,?_⟩
  · show (pushNode w.sem _).semval ≤ semValueMax
    rw [hpush]
    exact h.bounded
  · intro hpos
    have hsem : (pushNode w.sem ⟨w.nextNode,fd⟩).semval=w.sem.semval := by rw [hpush]
    have hpos' : 0<(pushNode w.sem ⟨w.nextNode,fd⟩).semval := hpos
    omega
  · show (pushNode w.sem _).wqueue.map _=silent (openEvent w.fds fd) ((w.blocked++[_]).map _)
    rw [hpush,List.map_append,List.map_append]
    show _++[fd]=silent _ (_++[fd])
    rw [silent_concat_of_event hopen,openEvent,silent_update_of_not_mem hnew,h.order]
  · intro v hv
    rcases List.mem_append.mp hv with hv|hv
    · exact h.untimed v hv
    · rw [List.mem_singleton.mp hv]
  · show ((w.blocked++[_]).map Waiter.co).Nodup
    simpa [List.nodup_append,h.callers] using hc

/-- A signal takes the first node off the queue and its wait off the list of those
that were not granted. -/
theorem Fair.popNode {head : Node} {rest : List Node} (h : Fair value w)
    (hq : w.sem.wqueue=head::rest) :
    silent (Function.update w.fds head.notifyfd (some (.event 1)))
      (w.blocked.map Waiter.notifyfd)=rest.map Node.notifyfd := by
  rw [silent_update_of_ne h.balanced.1.distinct (by simp),← h.order,hq]
  exact List.erase_cons_head ..

/-- A permit goes to the first caller without one, or to the semaphore. -/
theorem Fair.signal {context : Context} (h : Fair value w) (ht : dycoSemaphoreSignal w context=.ok t) :
    Fair value t := by
  obtain ⟨u,-,hu,-,-,hb⟩ := h.balanced.signal context
  obtain ⟨u',hu',hs⟩ := h.balanced.1.signalled context
  cases ht.symm.trans hu
  cases ht.symm.trans hu'
  cases hs with
  | refused => exact h.reply hb
  | counted hmax hq =>
    refine ⟨hb,?_,fun _ => hq,h.order,h.untimed,h.callers⟩
    have hbound := h.bounded
    show w.sem.semval+1 ≤ semValueMax
    omega
  | @woken head rest hq _ _ =>
    obtain ⟨hsem,hwq,-⟩ := h.balanced.1.popNode hq
    refine ⟨hb,?_,?_,?_,h.untimed,h.callers⟩
    · show (Semaphore.popNode w.sem head rest).semval ≤ semValueMax
      rw [hsem]
      exact h.bounded
    · intro hpos
      have hpos' : 0<(Semaphore.popNode w.sem head rest).semval := hpos
      rw [hsem] at hpos'
      rw [h.free hpos'] at hq
      cases hq
    · show (Semaphore.popNode w.sem head rest).wqueue.map _=_
      rw [hwq]
      exact (h.popNode hq).symm

/-- A blocked wait that is resumed was granted. -/
theorem Fair.granted {v : Waiter} (h : Fair value w) (hv : v∈w.blocked)
    (hr : (eventfdRead w.fds v.notifyfd).isSome) : w.fds v.notifyfd=some (.event 1) := by
  rcases h.balanced.1.counters v hv with hc|hc
  · simp [eventfdRead,hc] at hr
  · exact hc

/-- A resumed caller leaves with the permit it was given. -/
theorem Fair.afterYield {v : Waiter} (h : Fair value w) (hv : v∈w.blocked)
    (hr : (eventfdRead w.fds v.notifyfd).isSome) : Fair value (afterYield w v) := by
  have hone := h.granted hv hr
  have hdistinct := h.balanced.1.distinct
  refine ⟨h.balanced.resume hv hr,h.bounded,h.free,?_,fun u hu => ?_,?_⟩
  · show w.sem.wqueue.map _=silent (close w.fds v.notifyfd) ((w.blocked.filter _).map _)
    rw [map_filter_ne hdistinct,close,silent_update_of_not_mem hdistinct.not_mem_erase,
      silent_erase hdistinct,h.order]
    refine (List.erase_of_not_mem fun hm => ?_).symm
    have hzero := (mem_silent.mp hm).2
    rw [hone] at hzero
    cases hzero
  · exact h.untimed u (List.mem_filter.mp hu).1
  · exact h.callers.sublist (List.filter_sublist.map _)

/-- A wait takes a permit only if nobody waits for it. -/
theorem Fair.wait {c : ℕ} {context : Context} {timeout fd : ℤ} {allocated : Bool} (h : Fair value w)
    (htime : timeout≤0) (hfd : w.fds fd=none) (hc : ∀ v∈w.blocked,v.co≠c)
    (ht : dycoSemaphoreWait w c context timeout fd allocated=.ok t) : Fair value t := by
  have hb := h.balanced.wait hfd ht
  unfold dycoSemaphoreWait at ht
  split_ifs at ht with hpos hzero halloc <;> cases ht
  · refine ⟨hb,?_,fun _ => h.free hpos,h.order,h.untimed,h.callers⟩
    have hbound := h.bounded
    show w.sem.semval-1 ≤ semValueMax
    omega
  · exact h.reply hb
  · have huntimed : decide (0<timeout)=false := by simpa using htime
    rw [huntimed] at hb ⊢
    exact h.enterQueue hfd hc (by omega) hb
  · have hopen := (h.balanced.1.elsewhere (d := some (.event 0)) (h.balanced.1.not_mem (.inl hfd))).2
    have hsame := h.balanced.of_same
      (h.balanced.1.elsewhere (d := some (.event 0)) (h.balanced.1.not_mem (.inl hfd))).1 rfl rfl hopen
    exact (h.elsewhere (.inl hfd) hsame).reply hb

/-- What a step may do to the waits: a successful signal grants the first wait of a
queue, a refused call changes nothing, and a granted wait stays so until it returns
0. -/
structure Orderly (w t : World) : Prop where
  grants : t.log=w.log++[.signal 0] → w.sem.wqueue≠[] → ∃ v rest,ungranted w=v::rest ∧
    ungranted t=rest ∧ t.blocked=w.blocked ∧ t.fds v.notifyfd=some (.event 1)
  refuses : (∃ c,t.log=w.log++[.wait c (-1)]) ∨ t.log=w.log++[.signal (-1)] →
    t.sem=w.sem ∧ t.blocked=w.blocked ∧ ∀ fd,w.fds fd≠none → t.fds fd=w.fds fd
  keeps : ∀ v∈w.blocked,w.fds v.notifyfd=some (.event 1) →
    v∈t.blocked ∧ t.fds v.notifyfd=some (.event 1) ∨ t.log=w.log++[.wait v.co 0]

/-- No call returns and no counter of a blocked wait changes. -/
theorem orderly_of_silent (hl : t.log=w.log) (hb : ∀ v∈w.blocked,v∈t.blocked)
    (hf : ∀ v∈w.blocked,t.fds v.notifyfd=w.fds v.notifyfd) : Orderly w t := by
  refine ⟨fun he => ?_,fun he => ?_,fun v hv hone => .inl ⟨hb v hv,(hf v hv).trans hone⟩⟩
  · rw [hl] at he
    simp at he
  · rw [hl] at he
    simp at he

/-- A wait returns at once. -/
theorem orderly_of_wait {c : ℕ} {ret : ℤ} (hl : t.log=w.log++[.wait c ret]) (hb : t.blocked=w.blocked)
    (hf : ∀ fd,w.fds fd≠none → t.fds fd=w.fds fd) (hs : ret= -1 → t.sem=w.sem) : Orderly w t := by
  refine ⟨fun he => ?_,fun he => ⟨?_,hb,hf⟩,fun v hv hone => .inl ⟨hb ▸ hv,?_⟩⟩
  · rw [hl] at he
    simp at he
  · refine hs ?_
    rw [hl] at he
    simpa using he
  · rw [hf _ (by simp [hone]),hone]

/-- A wait puts nobody before those who are there. -/
theorem orderly_wait {c : ℕ} {context : Context} {timeout fd : ℤ} {allocated : Bool} (h : Tidy w)
    (hfd : w.fds fd=none) (ht : dycoSemaphoreWait w c context timeout fd allocated=.ok t) :
    Orderly w t := by
  have hopen : ∀ x,w.fds x≠none → openEvent w.fds fd x=w.fds x :=
    fun x hx => Function.update_of_ne (fun he : x=fd => hx (he ▸ hfd)) ..
  unfold dycoSemaphoreWait at ht
  split_ifs at ht with hpos hzero halloc <;> cases ht
  · exact orderly_of_wait rfl rfl (fun _ _ => rfl) (by simp)
  · exact orderly_of_wait rfl rfl (fun _ _ => rfl) (fun _ => rfl)
  · refine orderly_of_silent rfl (fun v hv => List.mem_append_left _ hv) fun v hv => hopen _ ?_
    rcases h.counters v hv with hc|hc <;> simp [hc]
  · exact orderly_of_wait rfl rfl hopen fun _ => rfl

/-- A permit is given in the order of arrival. -/
theorem orderly_signal {context : Context} (h : Fair value w)
    (ht : dycoSemaphoreSignal w context=.ok t) : Orderly w t := by
  obtain ⟨u,hu,hs⟩ := h.balanced.1.signalled context
  cases ht.symm.trans hu
  cases hs with
  | refused =>
    exact ⟨by simp [reply],fun _ => ⟨rfl,rfl,fun _ _ => rfl⟩,fun v hv hone => .inl ⟨hv,hone⟩⟩
  | counted _ hq =>
    exact ⟨fun _ hne => absurd hq hne,by simp [reply],fun v hv hone => .inl ⟨hv,hone⟩⟩
  | @woken head rest hq _ hc =>
    refine ⟨fun _ _ => ?_,by simp [reply],fun v hv hone => .inl ⟨hv,?_⟩⟩
    · have hold := (map_ungranted w).trans h.order.symm
      rw [hq] at hold
      obtain ⟨v,vs,hv,hvfd,hvs⟩ := List.map_eq_cons_iff.mp hold
      have hnodes := h.balanced.1.nodes
      rw [hq,List.map_cons,← hvs] at hnodes
      refine ⟨v,vs,hv,?_,rfl,?_⟩
      · refine (ungranted_update w head.notifyfd (by rfl) (by rfl)).trans ?_
        rw [hv,List.filter_cons_of_neg (by simpa using hvfd)]
        refine List.filter_eq_self.mpr fun u hu => ?_
        have hne : u.notifyfd≠head.notifyfd :=
          fun he => (List.nodup_cons.mp hnodes).1 (he ▸ List.mem_map_of_mem hu)
        simpa using hne
      · rw [hvfd]
        exact Function.update_self ..
    · have hne : v.notifyfd≠head.notifyfd := by
        intro he
        rw [he,hc] at hone
        cases hone
      exact (Function.update_of_ne hne ..).trans hone

/-- A granted wait returns 0. -/
theorem Fair.afterYield_log {v : Waiter} (hone : w.fds v.notifyfd=some (.event 1)) :
    (Semaphore.afterYield w v).log=w.log++[.wait v.co 0] := by
  have hret := eventfdRead_eq_some hone Nat.one_pos
  simp [Semaphore.afterYield,Semaphore.reply,hret]

/-- A blocked wait is found by its caller. -/
theorem Fair.find_caller {v : Waiter} (h : Fair value w) (hv : v∈w.blocked) :
    w.blocked.find? (fun u => u.co=v.co)=some v := by
  have hsome : (w.blocked.find? fun u => u.co=v.co).isSome :=
    List.find?_isSome.mpr ⟨v,hv,by simp⟩
  obtain ⟨u,hu⟩ := Option.isSome_iff_exists.mp hsome
  have hco : u.co=v.co := by simpa using List.find?_some hu
  have heq : u=v := List.inj_on_of_nodup_map h.callers (List.mem_of_find?_eq_some hu) hv hco
  rw [hu,heq]

/-- A caller leaves, and the order of the others stays. -/
theorem orderly_resume {v : Waiter} (h : Fair value w) (hv : v∈w.blocked)
    (hr : (eventfdRead w.fds v.notifyfd).isSome) : Orderly w (afterYield w v) := by
  have hlog := Fair.afterYield_log (h.granted hv hr)
  refine ⟨fun he => ?_,fun he => ?_,fun u hu hone => ?_⟩
  · rw [hlog] at he
    simp at he
  · rw [hlog] at he
    simp at he
  · by_cases huv : u.notifyfd=v.notifyfd
    · have heq : u=v := List.inj_on_of_nodup_map h.balanced.1.distinct hu hv huv
      exact .inr (heq ▸ hlog)
    · refine .inl ⟨List.mem_filter.mpr ⟨hu,by simpa using huv⟩,?_⟩
      exact (Function.update_of_ne huv ..).trans hone

/-- A descriptor of the program changes. -/
theorem orderly_elsewhere {fd : ℤ} {d : Option Desc} (h : Tidy w)
    (hfd : w.fds fd=none ∨ w.fds fd=some .other) :
    Orderly w {w with fds := Function.update w.fds fd d} :=
  orderly_of_silent rfl (fun _ hv => hv) fun v hv => Function.update_of_ne
    (fun he : v.notifyfd=fd => h.not_mem hfd (he ▸ List.mem_map_of_mem hv)) ..

/-- Every step of a semaphore whose waits cannot expire is orderly and keeps the
invariant. -/
theorem Fair.step (h : Fair value w) (hg : genuine w a=true)
    (htime : ∀ c context timeout fd allocated,a=.wait c context timeout fd allocated → timeout≤0)
    (ha : Semaphore.step w a=some (.ok t)) : Fair value t ∧ Orderly w t := by
  have hb : grantedFirst w a=true → Balanced value t := fun hf => h.balanced.step hf ha
  cases a with
  | wait c context timeout fd allocated =>
    simp only [Semaphore.step] at ha
    split_ifs at ha with hfd
    have hc : ∀ v∈w.blocked,v.co≠c := by simpa using hfd.2.1
    have ht := Option.some.inj ha
    exact ⟨h.wait (htime _ _ _ _ _ rfl) hfd.1 hc ht,orderly_wait h.balanced.1 hfd.1 ht⟩
  | signal context =>
    have ht := Option.some.inj ha
    exact ⟨h.signal ht,orderly_signal h ht⟩
  | resume c =>
    simp only [Semaphore.step] at ha
    split at ha
    next v hv =>
      cases ha
      have hco : v.co=c := by simpa using List.find?_some hv
      have hmem := List.mem_of_find?_eq_some hv
      obtain ⟨u,hu,huc⟩ := List.any_eq_true.mp hg
      simp only [Bool.and_eq_true,decide_eq_true_eq,Bool.or_eq_true,h.untimed u hu] at huc
      have heq : u=v := List.inj_on_of_nodup_map h.callers hu hmem (huc.1.trans hco.symm)
      have hr : (eventfdRead w.fds v.notifyfd).isSome := by simpa [heq] using huc.2
      exact ⟨h.afterYield hmem hr,orderly_resume h hmem hr⟩
    · cases ha
  | openOther fd =>
    simp only [Semaphore.step] at ha
    split_ifs at ha with hfd
    cases ha
    exact ⟨h.elsewhere (.inl hfd) (hb rfl),orderly_elsewhere h.balanced.1 (.inl hfd)⟩
  | closeOther fd =>
    simp only [Semaphore.step] at ha
    split_ifs at ha with hfd
    cases ha
    exact ⟨h.elsewhere (.inr hfd) (hb rfl),orderly_elsewhere h.balanced.1 (.inr hfd)⟩

/-- The invariant of the ledger. -/
structure Kept (value : ℕ) (s : Ledger) : Prop where
  fair : Fair value s.world
  signallers : s.signallers.length=released s.world

/-- A step of the ledger is a step of the semaphore. -/
theorem exists_step {b : ℕ×Act} (h : step s b=some (.ok s')) :
    ∃ t,Semaphore.step s.world b.2=some (.ok t) ∧
      s'=⟨t,if t.log=s.world.log++[.signal 0] then s.signallers++[b.1] else s.signallers⟩ := by
  obtain ⟨r,hr,hs⟩ := Option.map_eq_some_iff.mp h
  obtain ⟨t,rfl,rfl⟩ := map_eq_ok hs
  exact ⟨t,hr,rfl⟩

/-- At most one call returns in a step. -/
theorem log_of_step (ha : Semaphore.step w a=some (.ok t)) : t.log=w.log ∨ ∃ r,t.log=w.log++[r] := by
  cases a with
  | wait c context timeout fd allocated =>
    simp only [Semaphore.step,dycoSemaphoreWait] at ha
    split_ifs at ha <;> cases ha
    · exact .inr ⟨_,rfl⟩
    · exact .inr ⟨_,rfl⟩
    · exact .inl rfl
    · exact .inr ⟨_,rfl⟩
  | signal context =>
    simp only [Semaphore.step,dycoSemaphoreSignal] at ha
    split_ifs at ha
    · cases ha
      exact .inr ⟨_,rfl⟩
    · split at ha
      · cases ha
        exact .inr ⟨_,rfl⟩
      · cases ha
        exact .inr ⟨_,rfl⟩
    · split at ha
      · cases ha
        exact .inr ⟨_,rfl⟩
      · split at ha <;> cases ha
        exact .inr ⟨_,rfl⟩
  | resume c =>
    simp only [Semaphore.step] at ha
    split at ha <;> cases ha
    exact .inr ⟨_,rfl⟩
  | openOther fd =>
    simp only [Semaphore.step] at ha
    split_ifs at ha
    cases ha
    exact .inl rfl
  | closeOther fd =>
    simp only [Semaphore.step] at ha
    split_ifs at ha
    cases ha
    exact .inl rfl

/-- One step keeps the account and the order. -/
theorem Kept.step {b : ℕ×Act} (h : Kept value s) (hp : patient s b=true)
    (hb : step s b=some (.ok s')) : Kept value s' ∧ Orderly s.world s'.world := by
  obtain ⟨t,ht,rfl⟩ := exists_step hb
  obtain ⟨hgenuine,htime⟩ := Bool.and_eq_true_iff.mp hp
  obtain ⟨hfair,horderly⟩ := h.fair.step hgenuine
    (fun c context timeout fd allocated he => by simpa [he] using htime) ht
  refine ⟨⟨hfair,?_⟩,horderly⟩
  have hcount := h.signallers
  show List.length (if _ then _ else _)=t.log.countP Reply.releases
  rcases log_of_step ht with hl|⟨r,hl⟩
  · rw [hl,if_neg (by simp)]
    exact hcount
  · rw [hl,List.countP_append,List.countP_singleton]
    by_cases hr : r=.signal 0
    · rw [if_pos (by rw [hr]),List.length_append,hcount,hr]
      rfl
    · have hno : r.releases=false := by
        cases r with
        | wait c ret => rfl
        | signal ret => simpa [Reply.releases] using hr
      rw [if_neg (by simpa using hr),hno,hcount]
      rfl

/-- The account holds along every run. -/
theorem kept_of_reachable (h : Reachable value s) : Kept value s := by
  obtain ⟨sem,hsem,h⟩ := h
  unfold dycoSemaphoreCreate at hsem
  split_ifs at hsem with hmax
  cases hsem
  refine h.invariant (Kept value) ⟨⟨?_,?_,?_,rfl,?_,?_⟩,rfl⟩ fun _ _ _ hi hp ha => (hi.step hp ha).1
  · exact balanced_of_reachable ⟨⟨value,[],none⟩,if_neg hmax,.refl⟩
  · exact not_lt.mp hmax
  · exact fun _ => rfl
  · simp [newSemaphore]
  · simp [newSemaphore]

/-- The callers that came through are those with a permit. -/
theorem length_acquirers (l : List Reply) :
    (l.filterMap acquirer).length=l.countP Reply.acquires := by
  induction l with
  | nil => rfl
  | cons r l ih =>
    rw [List.filterMap_cons,List.countP_cons]
    cases r with
    | wait c ret => by_cases hret : ret=0 <;> simp [acquirer,Reply.acquires,hret,ih]
    | signal ret => simp [acquirer,Reply.acquires,ih]

/-- Those who took more than they gave back are not more than what is out. -/
theorem card_add_length_le {taken given : List ℕ} {S : Finset ℕ}
    (hle : ∀ c,given.count c≤taken.count c) (hlt : ∀ c∈S,given.count c<taken.count c) :
    S.card+given.length≤taken.length := by
  -- both lengths are sums over the callers that appear anywhere
  let T := S∪(given.toFinset∪taken.toFinset)
  have hgiven : ∑ c∈T,given.count c=given.length := by
    have hm : ∀ c∈(given : Multiset ℕ),c∈T := fun c hc => by
      have hc' : c∈given := hc
      simp [T,hc']
    simpa using Multiset.sum_count_eq_card hm
  have htaken : ∑ c∈T,taken.count c=taken.length := by
    have hm : ∀ c∈(taken : Multiset ℕ),c∈T := fun c hc => by
      have hc' : c∈taken := hc
      simp [T,hc']
    simpa using Multiset.sum_count_eq_card hm
  have hcard : ∑ c∈T,(if c∈S then 1 else 0)=S.card := by
    rw [Finset.sum_ite_mem,Finset.inter_eq_right.mpr Finset.subset_union_left]
    simp
  rw [← hgiven,← htaken,← hcard,← Finset.sum_add_distrib]
  refine Finset.sum_le_sum fun c _ => ?_
  split_ifs with hc
  · have := hlt c hc
    omega
  · have := hle c
    omega

/-- Permits are held by at most as many coroutines as there were permits. -/
theorem Kept.exclusive {S : Finset ℕ} (h : Kept value s)
    (hfair : ∀ c,signalledBy s c≤acquiredBy s.world c) (hS : ∀ c∈S,Holds s c) : S.card≤value := by
  have hle := card_add_length_le hfair hS
  rw [length_acquirers,h.signallers] at hle
  have hconserved : s.world.sem.semval+acquired s.world+Semaphore.granted s.world=
      value+released s.world := h.fair.balanced.2
  unfold acquired at hconserved
  omega

/-- In every run whose waits cannot expire: the counter stays within its range and
is 0 while somebody queues; `wtail` is the last node; the queue is that of the
blocked waits that were not granted, in the order of their calls; a successful
signal grants the first of them, which stays granted until it returns 0, as it can
at any moment; a call that returns -1 changes nothing; and if nobody signals more
often than it has acquired, at most as many coroutines hold a permit as there were
permits at first. -/
theorem semaphore_fair (h : Reachable value s) :
    s.world.sem.semval ≤ semValueMax ∧
    (0<s.world.sem.semval → s.world.sem.wqueue=[]) ∧
    s.world.sem.wtail=s.world.sem.wqueue.getLast?.map Node.id ∧
    s.world.sem.wqueue.map Node.notifyfd=(ungranted s.world).map Waiter.notifyfd ∧
    (∀ b s',patient s b=true → step s b=some (.ok s') → Orderly s.world s'.world) ∧
    (∀ v∈s.world.blocked,s.world.fds v.notifyfd=some (.event 1) →
      ∃ s',step s (v.co,.resume v.co)=some (.ok s') ∧
        s'.world.log=s.world.log++[.wait v.co 0]) ∧
    ((∀ c,signalledBy s c≤acquiredBy s.world c) →
      ∀ S : Finset ℕ,(∀ c∈S,Holds s c) → S.card≤value) := by
  have hk := kept_of_reachable h
  have htidy := hk.fair.balanced.1
  refine ⟨hk.fair.bounded,hk.fair.free,htidy.tail,?_,fun b s' hp hb => (hk.step hp hb).2,?_,
    fun hfair S hS => hk.exclusive hfair hS⟩
  · rw [hk.fair.order,map_ungranted]
  · intro v hv hone
    have hstep : Semaphore.step s.world (.resume v.co)=some (.ok (afterYield s.world v)) := by
      simp only [Semaphore.step,hk.fair.find_caller hv]
    exact ⟨_,congrArg (Option.map _) hstep,Fair.afterYield_log hone⟩

/-- Two coroutines queue for the one permit and get it in the order of their
calls. -/
def takeTurns : List (ℕ×Act) :=
  [(0,.wait 0 .symmetric (-1) 5 true),(1,.wait 1 .symmetric (-1) 5 true),
    (2,.wait 2 .symmetric (-1) 6 true),(3,.wait 3 .symmetric 0 7 true),(0,.signal .symmetric),
    (1,.resume 1)]

/-- Two callers wait, and the permit goes to the first. -/
theorem semaphore_fair_takeTurns :
    ∃ s,replayWhile step (fun s a => patient s a=true) ⟨newSemaphore ⟨1,[],none⟩,[]⟩ takeTurns=some s ∧
      s.world.log=[.wait 0 0,.wait 3 (-1),.signal 0,.wait 1 0] ∧
      (ungranted s.world).map Waiter.co=[2] ∧ signalledBy s 0=1 ∧
      s.world.sem.wqueue.map Node.notifyfd=(ungranted s.world).map Waiter.notifyfd ∧
      ((∀ c,signalledBy s c≤acquiredBy s.world c) →
        ∀ S : Finset ℕ,(∀ c∈S,Holds s c) → S.card≤1) := by
  have h : (replayWhile step (fun s a => patient s a=true) ⟨newSemaphore ⟨1,[],none⟩,[]⟩ takeTurns).map
      (fun s => (s.world.log,(ungranted s.world).map Waiter.co,signalledBy s 0))=
      some ([.wait 0 0,.wait 3 (-1),.signal 0,.wait 1 0],[2],1) := by decide +kernel
  obtain ⟨s,hs,hq⟩ := Option.map_eq_some_iff.mp h
  simp only [Prod.mk.injEq] at hq
  have hreach : Reachable 1 s := ⟨_,rfl,runs_of_replayWhile hs⟩
  obtain ⟨-,-,-,horder,-,-,hexclusive⟩ := semaphore_fair hreach
  exact ⟨s,hs,hq.1,hq.2.1,hq.2.2,horder,hexclusive⟩

end DycoCoroutine.SemaphoreFairness
