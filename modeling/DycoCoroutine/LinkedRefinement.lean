import DycoCoroutine.ContainerNeutral
import DycoCoroutine.LinkedSchedule
import DycoCoroutine.SysTreeInsert
import DycoCoroutine.SysTreeRemove
import DycoCoroutine.SleepCollision
import DycoCoroutine.ReadyQueues
import DycoCoroutine.Simulation

/-!
# The linked containers refine the lists

Every operation of the scheduler over linked containers does what the same
operation does over lists, as long as no coroutine is queued twice.
-/

namespace DycoCoroutine.LinkedSchedule

open ScheduleState ContainerNeutral LinkedTree LinkedQueue SysTree SysQueue KeyedSet
open RunInvariant Simulation

variable {k : LinkedSched} {s t : Sched} {c : Co} {fuel now : ℕ}

/-- The two queues. -/
def lists (urgent ready : List Co) : Bool → List Co
  | true => urgent
  | false => ready

/-- The linked containers hold what the lists of the scheduler say. -/
structure Refines (k : LinkedSched) (s : Sched) : Prop where
  /-- All but the containers is the same. -/
  rest : withLists k.rest s.urgentReady s.ready s.sleeping=s
  /-- The tree has the sleepers in order. -/
  spans : Spans k.sleeping s.sleeping
  /-- The queues have the ready coroutines in order. -/
  holds : Holds k.queues (lists s.urgentReady s.ready)

/-- The fault that stands for one of the scheduler over lists. What is undefined there has
none. -/
def fault : ScheduleState.Fault → Option Fault
  | .undefined => none
  | f => some (.sched f)

/-- Both schedulers have the same coroutine records. -/
theorem Refines.co (h : Refines k s) : k.rest.co=s.co := by rw [← h.rest]; rfl

/-- Both schedulers stand at the same point of the program. -/
theorem Refines.pc (h : Refines k s) : k.rest.pc=s.pc := by rw [← h.rest]; rfl

/-- Both schedulers have the same status. -/
theorem Refines.status (h : Refines k s) : k.rest.status=s.status := by rw [← h.rest]; rfl

/-- Both schedulers count from the same birth. -/
theorem Refines.birth (h : Refines k s) : k.rest.birth=s.birth := by rw [← h.rest]; rfl

/-- Both schedulers have the same wake-up keys. -/
theorem Refines.key (h : Refines k s) : k.rest.key=s.key := by
  funext c
  rw [Sched.key,Sched.key,h.co]

/-- An update of the other fields on both sides keeps the refinement. -/
theorem Refines.on (h : Refines k s) {f : Sched → Sched} (hf : Neutral f) :
    Refines (k.on f) (f s) := by
  have heq : f s=withLists (f k.rest) s.urgentReady s.ready s.sleeping :=
    (congrArg f h.rest).symm.trans (hf ..)
  rw [heq]
  exact ⟨rfl,h.spans,h.holds⟩

/-- A result for the rest of the scheduler is one with the containers as they are. -/
theorem Refines.withRest (h : Refines k s) (r : Except ScheduleState.Fault Sched) :
    Answers fault Refines (k.tryOn fun _ => r)
      (r.map (withLists · s.urgentReady s.ready s.sleeping)) := by
  cases r with
  | ok t => exact .ok ⟨rfl,h.spans,h.holds⟩
  | error e =>
    cases e with
    | undefined => exact answers_of_undefined rfl
    | epollCtl => exact .error rfl
    | must => exact .error rfl

/-- An operation on the other fields ends alike on both sides. -/
theorem Refines.tryOn (h : Refines k s) {f : Sched → Except ScheduleState.Fault Sched}
    (hf : Plain f) : Answers fault Refines (k.tryOn f) (f s) := by
  have heq : f s=(f k.rest).map (withLists · s.urgentReady s.ready s.sleeping) :=
    (congrArg f h.rest).symm.trans (hf ..)
  rw [heq]
  exact h.withRest (f k.rest)

/-- Other containers on both sides. -/
theorem Refines.replace {heap : Heap Co} {links : Links Bool Co} {urgent ready sleeping : List Co}
    (h : Refines k s) (hs : Spans heap sleeping) (hq : Holds links (lists urgent ready)) :
    Refines ⟨k.rest,heap,links⟩ (withLists s urgent ready sleeping) := by
  have hrest := congrArg (withLists · urgent ready sleeping) h.rest
  exact ⟨hrest,hs,hq⟩

/-- An update of the coroutine records is the same on both sides. -/
theorem Refines.setCo (h : Refines k s) (c : Co) (f : Coroutine → Coroutine) :
    Refines (k.on (·.setCo c f)) (s.setCo c f) := h.on fun _ _ _ _ => rfl

/-! ## The ready queues -/

/-- What is in neither list is not in the one chosen. -/
theorem notMem_lists {urgent ready : List Co} (hc : c∉urgent++ready) (q : Bool) :
    c∉lists urgent ready q := by
  rw [List.mem_append,not_or] at hc
  cases q with
  | false => exact hc.2
  | true => exact hc.1

/-- Replacing the urgent list. -/
theorem update_lists_true (urgent ready l : List Co) :
    Function.update (lists urgent ready) true l=lists l ready := by
  funext q
  cases q <;> rfl

/-- Replacing the ready list. -/
theorem update_lists_false (urgent ready l : List Co) :
    Function.update (lists urgent ready) false l=lists urgent l := by
  funext q
  cases q <;> rfl

/-- `TAILQ_INSERT_TAIL` of an unqueued coroutine appends it to the list the tail queue
stands for. -/
theorem Refines.insertTail (h : Refines k s) (hc : c∉s.urgentReady++s.ready) :
    Refines {k with queues := tailqInsertTail k.queues true c}
      {s with urgentReady := s.urgentReady++[c]} ∧
    Refines {k with queues := tailqInsertTail k.queues false c} {s with ready := s.ready++[c]} := by
  have htrue := tailqInsertTail_holds (q := true) h.holds (notMem_lists hc)
  have hfalse := tailqInsertTail_holds (q := false) h.holds (notMem_lists hc)
  rw [update_lists_true] at htrue
  rw [update_lists_false] at hfalse
  exact ⟨h.replace h.spans htrue,h.replace h.spans hfalse⟩

/-- Queueing a coroutine by its urgency is the same on both sides. -/
theorem Refines.insertReady (h : Refines k s) (hc : c∉s.urgentReady++s.ready) :
    Refines (insertReady k c) (ScheduleOps.insertReady s c) := by
  have hset := (h.setCo c fun r => {r with statusReady := true}).insertTail hc
  rw [ScheduleOps.insertReady,LinkedSchedule.insertReady,h.co]
  cases (s.co c).flagsUrgent with
  | true => exact hset.1
  | false => exact hset.2

/-- Queueing a new coroutine by the flag of its creation is the same on both sides. -/
theorem Refines.queueNew (h : Refines k s) (hc : c∉s.urgentReady++s.ready) (urgent : Bool) :
    Refines (queueNew k c urgent) (ScheduleOps.queueNew s c urgent) := by
  cases urgent with
  | true => exact ((h.setCo c fun r => {r with flagsUrgent := true}).insertTail hc).1
  | false => exact (h.insertTail hc).2

/-- The cid table of an aborted scheduler is gone, and nothing is queued. -/
theorem Refines.enroll (h : Refines k s) (hc : s.status≠.aborted → c∉s.urgentReady++s.ready)
    (urgent : Bool) :
    Answers fault Refines (enroll k c urgent) (ScheduleOps.enroll s c urgent) := by
  refine (h.tryOn (plain_register c)).bind fun l t ht hl => ?_
  have hstatus : s.status≠.aborted := by
    intro ha
    rw [ScheduleOps.register,if_pos ha] at ht
    cases ht
  obtain ⟨hurgent,hready,-⟩ := (plain_register c).containers ht
  have hc' : c∉t.urgentReady++t.ready := by
    rw [hurgent,hready]
    exact hc hstatus
  exact .ok ((hl.queueNew hc' urgent).on
    (.ite (fun _ _ _ _ => Iff.rfl) (fun _ _ _ _ => rfl) fun _ _ _ _ => rfl))

/-- `dyco_coroutine_create` ends alike when the object it takes is not queued already. -/
theorem Refines.dycoCoroutineCreate (h : Refines k s)
    (hc : s.status≠.aborted → s.nextCo∉s.urgentReady++s.ready) (urgent : Bool) :
    Answers fault Refines (dycoCoroutineCreate k urgent)
      (ScheduleOps.dycoCoroutineCreate s urgent) := by
  have hnext : k.rest.nextCo=s.nextCo := by rw [← h.rest]; rfl
  have hnew := h.on (f := fun s => (ScheduleOps.newcoro s .live).2) fun _ _ _ _ => rfl
  have hcreate : LinkedSchedule.dycoCoroutineCreate k urgent=LinkedSchedule.enroll
      (k.on fun s => (ScheduleOps.newcoro s .live).2) s.nextCo urgent := by
    rw [← hnext]
    rfl
  rw [hcreate]
  exact hnew.enroll hc urgent

/-- `cp_obtain` ends alike when the object it takes from the free list is not queued already. -/
theorem Refines.cpObtain (h : Refines k s) (p : ℕ) (urgent : Bool)
    (hc : ∀ cp c rest,s.pools p=some cp → 0<cp.totalsize-cp.activenum → cp.freelist=c::rest →
      s.status≠.aborted → c∉s.urgentReady++s.ready) :
    Answers fault Refines (cpObtain k p urgent) (ScheduleOps.cpObtain s p urgent) := by
  have hpools : k.rest.pools=s.pools := by rw [← h.rest]; rfl
  rw [LinkedSchedule.cpObtain,ScheduleOps.cpObtain,hpools]
  cases hp : s.pools p with
  | none => exact answers_of_undefined rfl
  | some cp =>
    simp only
    split_ifs with hfull
    · exact .ok h
    · cases hfree : cp.freelist with
      | nil => exact answers_of_undefined rfl
      | cons c rest =>
        have hpop := h.on (f := (·.setPool p fun cp =>
          {cp with freelist := rest,activenum := cp.activenum+1})) fun _ _ _ _ => rfl
        exact (hpop.setCo c ScheduleOps.renewRecord).enroll
          (hc cp c rest hp (not_le.mp hfull) hfree) urgent

/-- Starting to work off a queue remembers the same last element on both sides. -/
theorem Refines.startPhase (h : Refines k s) (urgent : Bool) :
    Refines (startPhase k urgent) (ScheduleRun.startPhase s urgent) := by
  have hlast : tailqLast k.queues urgent=(if urgent then s.urgentReady else s.ready).getLast? := by
    rw [tailqLast,h.holds.getLast]
    cases urgent <;> rfl
  rw [LinkedSchedule.startPhase,hlast]
  exact h.on fun _ _ _ _ => rfl

/-- Leaving a queue is the same on both sides. -/
theorem Refines.endPhase (h : Refines k s) (urgent : Bool) :
    Refines (endPhase k urgent) (ScheduleRun.endPhase s urgent) := by
  cases urgent with
  | true => exact h.startPhase false
  | false => exact h.on (f := (·.goto .phaseD)) fun _ _ _ _ => rfl

/-- Coming back from a coroutine is the same on both sides. -/
theorem Refines.leaveCo (h : Refines k s) (c : Co) :
    Refines (leaveCo k c) (ScheduleRun.leaveCo s c) := by
  rw [LinkedSchedule.leaveCo,ScheduleRun.leaveCo,h.pc,h.status]
  cases s.pc with
  | inCo urgent last idx =>
    simp only
    split_ifs
    · exact h.on fun _ _ _ _ => rfl
    · exact h.on fun _ _ _ _ => rfl
    · exact h.endPhase urgent
    · exact h.endPhase urgent
    · exact h.on fun _ _ _ _ => rfl
  | _ => exact h

/-- The test for the end of the loop answers alike: a tail queue or tree is empty when its list is. -/
theorem Refines.isDone (h : Refines k s) : isDone k=ScheduleRun.isDone s := by
  have hmap : k.rest.fdCoMap=s.fdCoMap := by rw [← h.rest]; rfl
  have hempty : ∀ q,tailqEmpty k.queues q=(lists s.urgentReady s.ready q).isEmpty := by
    intro q
    rw [tailqEmpty,h.holds.first]
    cases lists s.urgentReady s.ready q <;> rfl
  rw [LinkedSchedule.isDone,ScheduleRun.isDone,hmap,rbEmpty_spans h.spans,hempty,hempty]
  rfl

/-- The head of the loop goes the same way on both sides. -/
theorem Refines.loopHead (h : Refines k s) : Refines (loopHead k) (ScheduleRun.loopHead s) := by
  rw [LinkedSchedule.loopHead,ScheduleRun.loopHead,h.isDone]
  split_ifs
  · exact h.on fun _ _ _ _ => rfl
  · exact h.on fun _ _ _ _ => rfl

/-- `TAILQ_REMOVE` of the head drops the first element of the list. -/
theorem Refines.popQueue {urgent : Bool} {rest : List Co} (h : Refines k s)
    (hq : lists s.urgentReady s.ready urgent=c::rest) :
    Refines (popQueue k urgent c) (ScheduleRun.popQueue s urgent c rest) := by
  have hmem : c∈lists s.urgentReady s.ready urgent := by
    rw [hq]
    exact List.mem_cons_self
  have hrem := tailqRemove_holds h.holds hmem
  rw [hq,List.erase_cons_head] at hrem
  have hset := h.setCo c fun r => {r with statusReady := false}
  cases urgent with
  | true =>
    rw [update_lists_true] at hrem
    exact hset.replace h.spans hrem
  | false =>
    rw [update_lists_false] at hrem
    exact hset.replace h.spans hrem

/-! ## The sleeping tree -/

/-- Rounds for the loops of the tree macros. -/
theorem log_lt {n : ℕ} (h : n+1<fuel) : 2*Nat.log 2 (n+1)<fuel := by
  have hpow : ∀ m : ℕ,2*m≤2^m := by
    intro m
    cases m with
    | zero => exact Nat.zero_le _
    | succ m =>
      have hlt := Nat.lt_two_pow_self (n := m)
      rw [Nat.pow_succ]
      omega
  exact ((hpow _).trans (Nat.pow_log_le_self 2 (Nat.succ_ne_zero n))).trans_lt h

/-- RB_REMOVE of a sleeper. -/
theorem Refines.remove (h : Refines k s) (hc : c∈s.sleeping)
    (hfuel : s.sleeping.length+1<fuel) :
    ∃ sleeping,ofTree (rbRemove fuel k.sleeping c)=.ok (sleeping,c) ∧
      Refines {k with sleeping := sleeping} {s with sleeping := s.sleeping.erase c} := by
  obtain ⟨heap,hrem,hspans⟩ := rbRemove_spans h.spans hc (log_lt hfuel)
  exact ⟨heap,by rw [ofTree,hrem]; rfl,h.replace hspans h.holds⟩

/-- `schedule_cancel_sleep` deletes the node from the tree and the coroutine from the list. -/
theorem Refines.cancelSleep (h : Refines k s) (hfuel : s.sleeping.length+1<fuel) :
    Answers fault Refines (scheduleCancelSleep fuel k c)
      (ScheduleOps.scheduleCancelSleep s c) := by
  rw [scheduleCancelSleep,ScheduleOps.scheduleCancelSleep,h.co]
  split_ifs with hbit hc
  · obtain ⟨heap,hrem,href⟩ := h.remove hc hfuel
    rw [hrem]
    exact .ok (href.setCo c _)
  · exact answers_of_undefined rfl
  · exact .ok h

/-- `RB_MIN` is the first sleeper of the list: both sides find the same one expired,
or neither. -/
theorem Refines.getExpired (h : Refines k s) (hfuel : s.sleeping.length+1<fuel) (now : ℕ) :
    ScheduleOps.scheduleGetExpired s now=none ∧ scheduleGetExpired fuel k now=.ok none ∨
    ∃ c t l,ScheduleOps.scheduleGetExpired s now=some (c,t) ∧
      scheduleGetExpired fuel k now=.ok (some (c,l)) ∧ Refines l t ∧ l.queues=k.queues := by
  have hmin := rbMin_spans h.spans (log_lt hfuel)
  rw [ScheduleOps.scheduleGetExpired,scheduleGetExpired,hmin,h.birth,h.key]
  cases hl : s.sleeping with
  | nil => exact .inl ⟨rfl,rfl⟩
  | cons c rest =>
    by_cases hdue : s.key c≤now-s.birth
    · obtain ⟨heap,hrem,href⟩ := h.remove (c := c) (by rw [hl]; exact List.mem_cons_self) hfuel
      rw [hl] at href
      refine .inr ⟨c,_,({k with sleeping := heap}).on (·.setCo c fun r =>
        {r with statusSleeping := false,flagsExpired := true}),if_pos hdue,?_,href.setCo c _,rfl⟩
      show (if s.key c≤now-s.birth then _ else _)=_
      rw [if_pos hdue,hrem]
      rfl
    · refine .inl ⟨if_neg hdue,?_⟩
      show (if s.key c≤now-s.birth then _ else _)=_
      rw [if_neg hdue]
      rfl

/-- The keys of the tree compare as those of the list. -/
theorem Refines.represents (h : Refines k s) (ho : Ordered s.key s.sleeping) :
    Represents k.sleeping k.rest.key s.sleeping := by
  rw [h.key]
  exact ⟨ho,h.spans⟩

/-- RB_FIND by the old key ends within the fuel and finds the sleeper that the list search finds. -/
theorem Refines.dropKey (h : Refines k s) (ho : Ordered s.key s.sleeping)
    (hfuel : s.sleeping.length+1<fuel) (c : Co) :
    Answers fault Refines (dropKey fuel k c) (.ok (ScheduleOps.dropKey s c)) := by
  have hfind := rbFind_represents (h.represents ho) c (log_lt hfuel)
  rw [h.key] at hfind
  rw [LinkedSchedule.dropKey,coroutineSleepCmp,h.key,hfind,ScheduleOps.dropKey]
  cases hd : find s.key (s.key c) s.sleeping with
  | none => exact .ok h
  | some d =>
    obtain ⟨heap,hrem,href⟩ := h.remove (find_eq_some hd).1 hfuel
    refine ⟨{k with sleeping := heap},?_,href⟩
    show (ofTree (rbRemove fuel k.sleeping d)>>=_)=_
    rw [hrem]
    rfl

/-- The loop raises the key as the loop over lists does. -/
theorem Refines.insertLoop {n : ℕ} (h : Refines k s) (ho : Ordered s.key s.sleeping)
    (hc : c∉s.sleeping) (hfuel : s.sleeping.length+1<fuel)
    (hloop : SleepCollision.insertLoop c n s=some t) :
    Answers fault Refines (insertLoop fuel c n k) (.ok t) := by
  induction n generalizing k s with
  | zero => cases hloop
  | succ n ih =>
    obtain ⟨heap,hins,-,hspans⟩ := rbInsert_represents (h.represents ho) c (log_lt hfuel)
    rw [h.key] at hins hspans
    rw [LinkedSchedule.insertLoop,coroutineSleepCmp,h.key,hins]
    rw [SleepCollision.insertLoop] at hloop
    have hplaced : Refines {k with sleeping := heap}
        {s with sleeping := (tryPlace s.key c s.sleeping).2} := h.replace hspans h.holds
    cases hfind : find s.key (s.key c) s.sleeping with
    | none =>
      rw [tryPlace,hfind] at hloop hplaced
      rw [tryPlace,hfind]
      cases hloop
      exact .ok (hplaced.setCo c _)
    | some d =>
      rw [tryPlace,hfind] at hloop hplaced
      rw [tryPlace,hfind]
      refine ih (hplaced.setCo c _) (ho.congr fun e he => ?_) hc hfuel hloop
      have hne : e≠c := fun heq => hc (heq ▸ he)
      simp [Sched.key,hne]

/-- The removal by the old key takes sleepers away at most. -/
theorem sleeping_dropKey (s : Sched) (c : Co) :
    (ScheduleOps.dropKey s c).sleeping.Sublist s.sleeping ∧
      (ScheduleOps.dropKey s c).key=s.key ∧ (ScheduleOps.dropKey s c).birth=s.birth := by
  unfold ScheduleOps.dropKey
  cases find s.key (s.key c) s.sleeping with
  | none => exact ⟨List.Sublist.refl _,rfl,rfl⟩
  | some d => exact ⟨List.erase_sublist,rfl,rfl⟩

/-- A window of keys one longer than the set has an unused one. -/
theorem exists_unused (key : Co → ℕ) {l : List Co} {d bound : ℕ} (h : d+l.length<bound) :
    ∃ j,d≤j ∧ j<bound ∧ ∀ e∈l,key e≠j := by
  obtain ⟨hle,hunused⟩ : firstUnused key l (l.length+1) d∈{j | d≤j ∧ ∀ e∈l,key e≠j} :=
    (isLeast_firstUnused l d).1
  exact ⟨_,hle,(firstUnused_le l d).trans_lt h,hunused⟩

/-- `schedule_sched_sleep` inserts the node where the sorted list has the coroutine. -/
theorem Refines.schedSleep (h : Refines k s) (ho : Ordered s.key s.sleeping) (hc : c∉s.sleeping)
    (hfuel : s.sleeping.length+1<fuel) (hnow : now+2^32+fuel≤2^64) (msecs : ℤ) :
    Answers fault Refines (scheduleSchedSleep fuel k c msecs now)
      (.ok (ScheduleOps.scheduleSchedSleep s c msecs now)) := by
  obtain ⟨l,hl,href⟩ := h.dropKey ho hfuel c
  obtain ⟨hsub,hkey,hbirth⟩ := sleeping_dropKey s c
  rw [scheduleSchedSleep,hl]
  show Answers fault Refines (if msecs≤0 then pure l else _) _
  by_cases hm : msecs≤0
  · rw [if_pos hm,ScheduleOps.scheduleSchedSleep,if_pos hm]
    exact .ok href
  · rw [if_neg hm]
    have hlen := hsub.length_le
    have hbound : now-s.birth+msecs.toNat*1000%2^32+s.sleeping.length<2^64 := by omega
    have hfree : ∃ j,now-s.birth+msecs.toNat*1000%2^32≤j ∧ j<2^64 ∧
        ∀ e∈(ScheduleOps.dropKey s c).sleeping,(ScheduleOps.dropKey s c).key e≠j :=
      exists_unused (ScheduleOps.dropKey s c).key (by omega)
    have hloop := SleepCollision.insertLoop_schedSleep hc (not_le.mp hm) hfree
      (hlen.trans_lt (Nat.lt_of_succ_lt hfuel))
    rw [href.birth,hbirth,Nat.mod_eq_of_lt (by omega : now-s.birth+msecs.toNat*1000%2^32<2^64)]
    have hc' : c∉(ScheduleOps.dropKey s c).sleeping := fun hmem => hc (hsub.mem hmem)
    have ho' : Ordered (ScheduleOps.dropKey s c).key (ScheduleOps.dropKey s c).sleeping := by
      rw [hkey]
      exact ho.sublist hsub
    refine (href.setCo c _).insertLoop (ho'.congr fun e he => ?_) hc'
      ((Nat.add_le_add_right hlen 1).trans_lt hfuel) hloop
    exact SleepCollision.key_setDeadline hc' he

/-! ## Control -/

/-- What `resume` does after the switch ends alike. -/
theorem Refines.resumeReturn (h : Refines k s) (hfuel : s.sleeping.length+1<fuel) (c : Co) :
    Answers fault Refines (resumeReturn fuel k c) (ScheduleOps.resumeReturn s c) := by
  have hnone := h.on (f := (·.setThread none)) fun _ _ _ _ => rfl
  rw [LinkedSchedule.resumeReturn,ScheduleOps.resumeReturn,hnone.co]
  split_ifs with hkilled hexited
  · refine (hnone.cancelSleep hfuel).bind fun l t _ hl => ?_
    rw [hl.co]
    exact hl.tryOn (plain_cidDeleteWithAbort _)
  · refine (hnone.cancelSleep hfuel).bind fun l t _ hl => ?_
    exact hl.tryOn (.ite (fun _ _ _ _ => Iff.rfl) (plain_cpReturn c) (plain_freecoro c))
  · exact .ok hnone

/-- Giving the context back to the loop ends alike. -/
theorem Refines.backToLoop (h : Refines k s) (hfuel : s.sleeping.length+1<fuel) (c : Co) :
    Answers fault Refines (backToLoop fuel k c) (ScheduleRun.backToLoop s c) :=
  (h.resumeReturn hfuel c).bind fun _ _ _ hl => .ok (hl.leaveCo c)

/-- `resume` ends alike. -/
theorem Refines.enterCo (h : Refines k s) (hfuel : s.sleeping.length+1<fuel) (c : Co) :
    Answers fault Refines (enterCo fuel k c) (ScheduleRun.enterCo s c) := by
  have hact := h.on (f := (ScheduleRun.activate · c)) fun _ _ _ _ => rfl
  rw [LinkedSchedule.enterCo,ScheduleRun.enterCo,h.co]
  cases (s.co c).cont with
  | entry => exact .ok hact
  | sleep => exact .ok hact
  | stop => exact .ok (hact.setCo c _)
  | wait fd timed =>
    exact (hact.cancelSleep hfuel).bind fun _ _ _ hl => hl.tryOn (plain_scheduleCancelWait c fd)

/-- One round of the sleepers ends alike when the expired one is not queued already. -/
theorem Refines.phaseA (h : Refines k s) (hfuel : s.sleeping.length+1<fuel)
    (hc : ∀ c t,ScheduleOps.scheduleGetExpired (s.setClock now) now=some (c,t) →
      c∉t.urgentReady++t.ready) :
    Answers fault Refines (phaseA fuel k now) (ScheduleRun.phaseA s now) := by
  have hclock := h.on (f := (·.setClock now)) fun _ _ _ _ => rfl
  rw [LinkedSchedule.phaseA,ScheduleRun.phaseA]
  rcases hclock.getExpired hfuel now with ⟨hnone,hk⟩|⟨c,t,l,hsome,hk,hl,-⟩
  · simp only [hnone,hk]
    exact .ok (hclock.startPhase true)
  · simp only [hsome,hk]
    show Answers fault Refines (if ((k.on _).rest.co c).life=.freed then _ else _) _
    rw [hclock.co]
    split_ifs
    · exact answers_of_undefined rfl
    · exact .ok (hl.insertReady (hc c t hsome))

/-- One round of a queue ends alike. -/
theorem Refines.phaseBC (h : Refines k s) (hfuel : s.sleeping.length+1<fuel) (urgent : Bool)
    (last : Option Co) (idx : ℕ) :
    Answers fault Refines (phaseBC fuel k urgent last idx)
      (ScheduleRun.phaseBC s urgent last idx) := by
  have hqueue : (if urgent then s.urgentReady else s.ready)=lists s.urgentReady s.ready urgent := by
    cases urgent <;> rfl
  rw [LinkedSchedule.phaseBC,ScheduleRun.phaseBC,tailqFirst,h.holds.first,hqueue,h.co]
  cases hq : lists s.urgentReady s.ready urgent with
  | nil => exact .ok (h.endPhase urgent)
  | cons c rest =>
    simp only [List.head?_cons]
    split_ifs
    · exact answers_of_undefined rfl
    · have hpop := (h.popQueue hq).on (f := (·.goto (.inCo urgent last idx))) fun _ _ _ _ => rfl
      refine hpop.enterCo ?_ c
      cases urgent <;> exact hfuel

/-- One round of the ready descriptors ends alike when the waiting coroutine is not queued
already. -/
theorem Refines.phaseD (h : Refines k s) (fd : ℤ) (rest : List ℤ)
    (hc : ∀ c,s.fdCoMap.lookup fd=some c → c∉s.urgentReady++s.ready) :
    Answers fault Refines (phaseD k fd rest) (ScheduleRun.phaseD s fd rest) := by
  have hgoto := h.on (f := (·.goto (.events rest))) fun _ _ _ _ => rfl
  have hmap : (k.on (·.goto (.events rest))).rest.fdCoMap=(s.goto (.events rest)).fdCoMap := by
    rw [← hgoto.rest]
    rfl
  rw [LinkedSchedule.phaseD,ScheduleRun.phaseD,hmap,hgoto.co]
  cases hl : (s.goto (.events rest)).fdCoMap.lookup fd with
  | none => exact .ok hgoto
  | some c =>
    simp only
    split_ifs
    · exact answers_of_undefined rfl
    · exact (hgoto.insertReady (hc c hl)).tryOn (plain_scheduleCancelWait c fd)

/-! ## Calls of the running coroutine -/

/-- Falling asleep adds at most one sleeper. -/
theorem length_schedSleep (s : Sched) (c : Co) (msecs : ℤ) (now : ℕ) :
    (ScheduleOps.scheduleSchedSleep s c msecs now).sleeping.length ≤ s.sleeping.length+1 := by
  have hdrop := (sleeping_dropKey s c).1.length_le
  unfold ScheduleOps.scheduleSchedSleep
  split_ifs
  · exact hdrop.trans (Nat.le_succ _)
  · rw [ScheduleOps.setTimer,place,List.orderedInsert_length]
    exact Nat.succ_le_succ hdrop

/-- Yielding and returning to the loop ends alike. -/
theorem Refines.yieldBack (h : Refines k s) (hfuel : s.sleeping.length+1<fuel) (c : Co)
    (depth : ℕ×ℕ) (cont : Cont) :
    Answers fault Refines (LinkedSchedule.backToLoop fuel
        (k.on (ScheduleOps.yield · c depth cont)) c)
      (ScheduleRun.backToLoop (ScheduleOps.yield s c depth cont) c) := by
  have hyield := neutral_yield c depth cont
  refine (h.on hyield).backToLoop ?_ c
  have hsame := (plain_ok hyield).containers (s := s) rfl
  rwa [hsame.2.2]

/-- `dyco_coroutine_sleep` ends alike, with a time of 0 queueing the caller in place
of a timer. -/
theorem Refines.sleep (h : Refines k s) (ho : Ordered s.key s.sleeping) (hc : c∉s.sleeping)
    (hfuel : s.sleeping.length+2<fuel) (hnow : now+2^32+fuel≤2^64) {msecs : UInt32}
    (hfresh : msecs=0 → c∉s.urgentReady++s.ready) (depth : ℕ×ℕ) :
    Answers fault Refines (dycoCoroutineSleep fuel k c msecs now depth)
      (ScheduleRun.dycoCoroutineSleep s c msecs now depth) := by
  have hclock := h.on (f := (·.setClock now)) fun _ _ _ _ => rfl
  rw [dycoCoroutineSleep,ScheduleRun.dycoCoroutineSleep]
  by_cases hm : msecs=0
  · simp only [if_pos hm]
    refine (hclock.insertReady (hfresh hm)).yieldBack ?_ c depth _
    have hsame : (ScheduleOps.insertReady (s.setClock now) c).sleeping=s.sleeping := by
      rw [ScheduleOps.insertReady]
      split_ifs <;> rfl
    rw [hsame]
    omega
  · simp only [if_neg hm]
    obtain ⟨l,hl,href⟩ := hclock.schedSleep ho hc (by omega : s.sleeping.length+1<fuel) hnow
      (toInt msecs.toNat)
    rw [hl]
    refine href.yieldBack ?_ c depth _
    have hlen := length_schedSleep (s.setClock now) c (toInt msecs.toNat) now
    exact (Nat.succ_le_succ hlen).trans_lt hfuel

/-- Waiting for a descriptor, with or without a timer, ends alike. -/
theorem Refines.waitev (h : Refines k s) (ho : Ordered s.key s.sleeping) (hc : c∉s.sleeping)
    (hfuel : s.sleeping.length+2<fuel) (hnow : now+2^32+fuel≤2^64) (fd timeout : ℤ)
    (depth : ℕ×ℕ) :
    Answers fault Refines (waitev fuel k c fd timeout now depth)
      (ScheduleRun.waitev s c fd timeout now depth) := by
  have hclock := h.on (f := (·.setClock now)) fun _ _ _ _ => rfl
  refine (hclock.tryOn (plain_scheduleSchedWait c fd)).bind fun l t ht hl => ?_
  obtain ⟨-,-,hsleeping⟩ := (plain_scheduleSchedWait c fd).containers ht
  replace hsleeping : t.sleeping=s.sleeping := hsleeping
  have ho' := (ScheduleEffect.schedWait_spec ht).1.ordered ho
  rw [← hsleeping] at hc hfuel
  obtain ⟨m,hm,href⟩ := hl.schedSleep ho' hc (by omega : t.sleeping.length+1<fuel) hnow timeout
  rw [hm]
  refine href.yieldBack ?_ c depth _
  exact (Nat.succ_le_succ (length_schedSleep t c timeout now)).trans_lt hfuel

/-- The end of a coroutine function ends alike. -/
theorem Refines.coroutineExit (h : Refines k s) (hfuel : s.sleeping.length+1<fuel) (c : Co)
    (depth : ℕ×ℕ) :
    Answers fault Refines (coroutineExit fuel k c depth) (ScheduleRun.coroutineExit s c depth) :=
  (h.setCo c _).yieldBack hfuel c depth _

/-- A coroutine that is killed ends alike. -/
theorem Refines.coroutineKill (h : Refines k s) (hfuel : s.sleeping.length+1<fuel) (c : Co) :
    Answers fault Refines (coroutineKill fuel k c) (ScheduleRun.coroutineKill s c) :=
  (h.setCo c _).backToLoop hfuel c

/-- `dyco_schedcall_stop` queues its caller on both sides. -/
theorem Refines.stop (h : Refines k s) (hc : c∉s.urgentReady++s.ready) (depth : ℕ) :
    Refines (dycoSchedcallStop k c depth) (ScheduleRun.dycoSchedcallStop s c depth) := by
  have hins := (h.setCo c fun r => {r with statusRunning := false,statusSchedcall := true})
    |>.insertReady hc
  have hsave := hins.on (f := (ScheduleOps.savestk · c depth))
    (.ite (fun _ _ _ _ => Iff.rfl) (fun _ _ _ _ => rfl) fun _ _ _ _ => rfl)
  exact ((hsave.setCo c _).on (f := ScheduleOps.scheduleStop) fun _ _ _ _ => rfl).leaveCo c

/-- `dyco_schedcall_abort` ends alike. -/
theorem Refines.schedAbort (h : Refines k s) (c : Co) :
    Answers fault Refines (dycoSchedcallAbort k c) (ScheduleRun.dycoSchedcallAbort s c) :=
  ((h.setCo c _).tryOn plain_scheduleAbort).bind fun _ _ _ hl => .ok (hl.leaveCo c)

/-! ## Steps and runs -/

/-- What the program outside the loop calls ends alike. -/
theorem Refines.inProgram (h : Refines k s) {r : Except Fault LinkedSched}
    {q : Except ScheduleState.Fault Sched} (hr : Answers fault Refines r q) :
    StepAnswers fault Refines (inProgram k r) (ScheduleRun.inProgram s q) := by
  have huser : ScheduleRun.inUserCode k.rest=ScheduleRun.inUserCode s := by
    rw [ScheduleRun.inUserCode,h.pc,ScheduleRun.inUserCode]
  rw [LinkedSchedule.inProgram,ScheduleRun.inProgram,huser]
  split_ifs
  · exact hr
  · trivial

/-- What a running coroutine calls ends alike. -/
theorem Refines.inCoroutine (h : Refines k s) {f : Co → Except Fault LinkedSched}
    {g : Co → Except ScheduleState.Fault Sched}
    (hf : ∀ c,ScheduleControl.Running s c → Answers fault Refines (f c) (g c)) :
    StepAnswers fault Refines (inCoroutine k f) (ScheduleRun.inCoroutine s g) := by
  have hthread : k.rest.currThread=s.currThread := by rw [← h.rest]; rfl
  rw [LinkedSchedule.inCoroutine,ScheduleRun.inCoroutine,h.pc,hthread]
  cases hpc : s.pc with
  | inCo urgent last idx =>
    cases hc : s.currThread with
    | none => trivial
    | some c => exact hf c ⟨⟨urgent,last,idx,hpc⟩,hc⟩
  | _ => trivial

/-- A call that touches no container is made on the rest of the scheduler. -/
theorem Refines.plainStep {a : ScheduleRun.Act} (h : Refines k s)
    (ha : needsNoContainer a=true) :
    StepAnswers fault Refines ((ScheduleRun.step k.rest a).map fun r => k.tryOn fun _ => r)
      (ScheduleRun.step s a) := by
  have heq : ScheduleRun.step s a=(ScheduleRun.step k.rest a).map
      (Except.map (withLists · s.urgentReady s.ready s.sleeping)) :=
    (congrArg (ScheduleRun.step · a) h.rest).symm.trans (plainStep_of_needsNoContainer ha ..)
  rw [heq]
  cases ScheduleRun.step k.rest a with
  | none => trivial
  | some r => exact h.withRest r

/-- The reading of the clock from which a deadline is computed. -/
def reading : ScheduleRun.Act → ℕ
  | .sleep _ now _ => now
  | .wait _ _ now _ => now
  | _ => 0

/-- There are more rounds than sleepers, and a deadline fits its 64 bits. -/
def Fits (fuel : ℕ) (s : Sched) (a : ScheduleRun.Act) : Prop :=
  s.sleeping.length+2<fuel ∧ reading a+2^32+fuel≤2^64

/-- One step answers, if what it inserts into a queue is in none and the running coroutine
is not in the tree. -/
theorem Refines.step {a : ScheduleRun.Act} (h : Refines k s) (hfits : Fits fuel s a)
    (hcontrol : ScheduleControl.Control s)
    (hfresh : s.status≠.aborted → ∀ c,ReadyQueues.insertion s a=some c →
      c∉s.urgentReady++s.ready)
    (hrun : ∀ c,ScheduleControl.Running s c → Ordered s.key s.sleeping ∧ c∉s.sleeping) :
    StepAnswers fault Refines (step fuel k a) (ScheduleRun.step s a) := by
  have hfuel : s.sleeping.length+1<fuel := (Nat.lt_succ_self _).trans hfits.1
  have hlive : (∀ r,s.pc≠.main r) → s.status≠.aborted := by
    intro hmain
    rw [hcontrol.running hmain]
    decide
  cases a with
  | create urgent =>
    exact h.inProgram (h.dycoCoroutineCreate (fun ha => hfresh ha _ (if_neg ha)) urgent)
  | obtain p urgent =>
    refine h.inProgram (h.cpObtain p urgent fun cp c rest hp hfull hfree ha => hfresh ha c ?_)
    have hroom : cp.activenum<cp.totalsize := by omega
    simp [ReadyQueues.insertion,hp,ha,hroom,hfree]
  | loop =>
    rw [LinkedSchedule.step,ScheduleRun.step,h.pc]
    split_ifs
    · exact ⟨_,rfl,h.loopHead⟩
    · trivial
  | expire now =>
    have hclock : k.rest.clock=s.clock := by rw [← h.rest]; rfl
    rw [LinkedSchedule.step,ScheduleRun.step,h.pc,hclock]
    split_ifs with hguard
    · refine h.phaseA hfuel fun c t ht => ?_
      obtain ⟨hsleeping,hdue,hurgent,hready,-⟩ := SleepCollision.queues_getExpired ht
      replace hsleeping : s.sleeping=c::t.sleeping := hsleeping
      rw [hurgent,hready]
      refine hfresh (hlive (by simp [hguard.1])) c ?_
      rw [ReadyQueues.insertion,hsleeping,List.head?_cons,Option.filter_some]
      exact if_pos (decide_eq_true hdue)
    · trivial
  | dispatch =>
    rw [LinkedSchedule.step,ScheduleRun.step,h.pc]
    cases s.pc with
    | queue urgent last idx => exact h.phaseBC hfuel urgent last idx
    | _ => trivial
  | poll fds =>
    have hset : k.rest.epollSet=s.epollSet := by rw [← h.rest]; rfl
    have hmap : k.rest.fdCoMap=s.fdCoMap := by rw [← h.rest]; rfl
    have hempty : rbEmpty k.sleeping=true ↔ s.sleeping=[] := by
      rw [rbEmpty_spans h.spans,List.isEmpty_iff]
    simp only [LinkedSchedule.step,ScheduleRun.step,h.pc,hset,hmap,hempty]
    split_ifs
    · exact ⟨_,rfl,h.on fun _ _ _ _ => rfl⟩
    · trivial
  | event =>
    rw [LinkedSchedule.step,ScheduleRun.step,h.pc]
    cases hpc : s.pc with
    | events fds =>
      cases fds with
      | nil => exact ⟨_,rfl,h.on fun _ _ _ _ => rfl⟩
      | cons fd rest =>
        refine h.phaseD fd rest fun c hc => hfresh (hlive (by simp [hpc])) c ?_
        rw [ReadyQueues.insertion,hpc]
        exact hc
    | _ => trivial
  | sleep msecs now depth =>
    have hclock : k.rest.clock=s.clock := by rw [← h.rest]; rfl
    rw [LinkedSchedule.step,ScheduleRun.step,hclock]
    split_ifs
    · refine h.inCoroutine fun c hc => ?_
      obtain ⟨ho,hnot⟩ := hrun c hc
      refine h.sleep ho hnot hfits.1 hfits.2 (fun hm => hfresh (hlive hc.inside) c ?_) depth
      rw [ReadyQueues.insertion,if_pos hm,hc.2]
    · trivial
  | wait fd timeout now depth =>
    have hclock : k.rest.clock=s.clock := by rw [← h.rest]; rfl
    rw [LinkedSchedule.step,ScheduleRun.step,hclock]
    split_ifs
    · refine h.inCoroutine fun c hc => ?_
      obtain ⟨ho,hnot⟩ := hrun c hc
      exact h.waitev ho hnot hfits.1 hfits.2 fd timeout depth
    · trivial
  | exit depth => exact h.inCoroutine fun c _ => h.coroutineExit hfuel c depth
  | abort => exact h.inCoroutine fun c _ => h.coroutineKill hfuel c
  | checkStack depth =>
    have hcheck : ∀ c,ScheduleOps.checkstk k.rest c depth=ScheduleOps.checkstk s c depth := by
      intro c
      rw [← h.rest]
      rfl
    refine h.inCoroutine fun c _ => ?_
    rw [hcheck]
    split_ifs
    · exact h.coroutineKill hfuel c
    · exact .ok h
  | stop depth => exact h.inCoroutine fun c hc => .ok (h.stop (hfresh (hlive hc.inside) c hc.2) depth)
  | schedAbort => exact h.inCoroutine fun c _ => h.schedAbort c
  | poolCreate p totalsize stacksize => exact h.plainStep rfl
  | setUrgent cid urgent => exact h.plainStep rfl
  | openFd fd => exact h.plainStep rfl
  | closeFd fd => exact h.plainStep rfl
  | run => exact h.plainStep rfl
  | epollInit fd => exact h.plainStep rfl
  | epollDestroy => exact h.plainStep rfl
  | signalInit fd => exact h.plainStep rfl
  | signalDestroy => exact h.plainStep rfl

/-- A new scheduler has empty containers, whatever the memory held before. -/
theorem refines_dycoScheduleCreate (heap : Heap Co) (links : Links Bool Co)
    (schedId stackSize pageSize now : ℕ) :
    Refines (dycoScheduleCreate heap links schedId stackSize pageSize now)
      (ScheduleState.dycoScheduleCreate schedId stackSize pageSize now) := by
  refine ⟨rfl,rbInit_spans heap,fun q => ?_,fun q => ?_,fun q q' x hx => ?_⟩
  · cases q with
    | false => exact tailqInit_lists _ false
    | true => exact tailqInit_other (tailqInit_lists links true) (by decide)
  · cases q <;> exact List.nodup_nil
  · cases q <;> cases hx

/-- A disciplined step for which there are rounds enough. -/
def Sized (fuel : ℕ) (s : Sched) (a : ScheduleRun.Act) : Prop :=
  ScheduleAbort.Disciplined s a ∧ Fits fuel s a

instance (fuel : ℕ) (s : Sched) (a : ScheduleRun.Act) : Decidable (Sized fuel s a) :=
  inferInstanceAs (Decidable (_∧_∧_))

/-- One step of the linked scheduler answers the step over lists, from every reachable state. -/
theorem step_answers {a : ScheduleRun.Act} (hs : ScheduleRun.Reachable (Sized fuel) s)
    (h : Refines k s) (ha : Sized fuel s a) :
    StepAnswers fault Refines (step fuel k a) (ScheduleRun.step s a) := by
  obtain ⟨schedId,stackSize,pageSize,now,hruns⟩ := hs
  have hreach : ScheduleRun.Reachable ScheduleAbort.Disciplined s :=
    ⟨schedId,stackSize,pageSize,now,hruns.mono fun _ _ h => h.1⟩
  rcases ReadyQueues.tidy_of_reachable hreach with ⟨hs,-⟩|⟨hst,hcontrol,-⟩
  · refine h.step ha.2 hs.control (fun _ c hc => ReadyQueues.insertion_fresh hs ha.1 hc)
      fun c hc => ⟨hs.ordered,?_⟩
    simpa [CoroutineStanding.standing] using (hs.running hc).2.1.asleep
  · refine h.step ha.2 hcontrol (fun hne => absurd hst hne) fun c hc => ?_
    rw [hcontrol.status_of_running hc] at hst
    cases hst

/-- The scheduler over linked containers repeats every disciplined run. -/
theorem exists_linked_run (heap : Heap Co) (links : Links Bool Co)
    {schedId stackSize pageSize now : ℕ} {acts : List ScheduleRun.Act}
    (h : replayWhile ScheduleRun.step (Sized fuel)
      (ScheduleState.dycoScheduleCreate schedId stackSize pageSize now) acts=some s) :
    ∃ k,replay (step fuel) (dycoScheduleCreate heap links schedId stackSize pageSize now) acts=
      some k ∧ Refines k s := by
  have hstep : ∀ u k a,Runs ScheduleRun.step (Sized fuel)
      (ScheduleState.dycoScheduleCreate schedId stackSize pageSize now) u → Refines k u →
      Sized fuel u a → StepAnswers fault Refines (step fuel k a) (ScheduleRun.step u a) :=
    fun u k a hruns hr ha => step_answers ⟨_,_,_,_,hruns⟩ hr ha
  exact replay_of_answers hstep
    (refines_dycoScheduleCreate heap links schedId stackSize pageSize now) h

/-- Every disciplined run of the scheduler over lists is one over the linked containers.
At its end the memory holds the red-black tree of the sleepers and the two queues, and the
next disciplined step is refused, faults or goes on in the same way on both sides. -/
theorem linked_scheduler_refines (heap : Heap Co) (links : Links Bool Co)
    {schedId stackSize pageSize now : ℕ} {acts : List ScheduleRun.Act}
    (h : replayWhile ScheduleRun.step (Sized fuel)
      (ScheduleState.dycoScheduleCreate schedId stackSize pageSize now) acts=some s) :
    ∃ k,replay (step fuel) (dycoScheduleCreate heap links schedId stackSize pageSize now) acts=
        some k ∧ Refines k s ∧
      ∀ a,Sized fuel s a → StepAnswers fault Refines (step fuel k a) (ScheduleRun.step s a) := by
  obtain ⟨k,hk,href⟩ := exists_linked_run heap links h
  exact ⟨k,hk,href,fun a ha => step_answers ⟨_,_,_,_,runs_of_replayWhile h⟩ href ha⟩

/-- Two timed waits, one woken by its descriptor and one by its timer, on memory that held
something else before. -/
theorem linked_scheduler_refines_wokenOnce :
    ∃ s k,replayWhile ScheduleRun.step (Sized 5) (ScheduleState.dycoScheduleCreate 1 0 4096 0)
        ReadyQueues.wokenOnce=some s ∧ s.ready=[1,0] ∧
      replay (step 5) (dycoScheduleCreate ⟨some 7,fun _ => ⟨some 3,some 4,none,.red⟩⟩
        ⟨fun _ => some 2,fun _ => .head true⟩ 1 0 4096 0) ReadyQueues.wokenOnce=some k ∧
      Refines k s := by
  have h : (replayWhile ScheduleRun.step (Sized 5) (ScheduleState.dycoScheduleCreate 1 0 4096 0)
      ReadyQueues.wokenOnce).map (fun s => s.ready)=some [1,0] := by decide +kernel
  obtain ⟨s,hs,hready⟩ := Option.map_eq_some_iff.mp h
  obtain ⟨k,hk,href,-⟩ := linked_scheduler_refines
    ⟨some 7,fun _ => ⟨some 3,some 4,none,.red⟩⟩ ⟨fun _ => some 2,fun _ => .head true⟩ hs
  exact ⟨s,k,hs,hready,hk,href⟩

end DycoCoroutine.LinkedSchedule
