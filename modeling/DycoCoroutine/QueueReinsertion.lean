import DycoCoroutine.LinkedRefinement

/-!
# A coroutine that is queued twice

Phase A and phase D insert a coroutine into a ready queue without a look at its
READY bit. TAILQ_INSERT_TAIL of a node that a queue already has clears the
pointer to what stands behind it, and the address behind the node is no longer
the cell that points to it. The nodes behind are lost to both queues. Removals
of a node at the head of its queue then write elsewhere, and it stays there.
-/

namespace DycoCoroutine.LinkedQueue

variable {Q N : Type*} {m m' : Links Q N} {u : Slot Q N} {l : List N} {x y : N}

/-- The nodes that can be reached from a cell. -/
inductive Reach (m : Links Q N) (u : Slot Q N) : N → Prop
  | first {x : N} : m.cell u=some x → Reach m u x
  | next {x y : N} : Reach m u x → m.cell (.next x)=some y → Reach m u y

/-- The pointers lead from the cell through the list. -/
def Leads (m : Links Q N) : Slot Q N → List N → Prop
  | u,[] => m.cell u=none
  | u,x::l => m.cell u=some x ∧ Leads m (.next x) l

theorem Hangs.leads {a b : List N} (h : Hangs m u a) (hb : Leads m (ends u a) b) :
    Leads m u (a++b) := by
  induction a generalizing u with
  | nil => exact hb
  | cons x a ih => exact ⟨h.1,ih h.2.2 hb⟩

theorem Leads.next_mem (h : Leads m u l) (hx : x∈l) (hy : m.cell (.next x)=some y) : y∈l := by
  induction l generalizing u with
  | nil => cases hx
  | cons z l ih =>
    rcases List.mem_cons.mp hx with rfl|hx
    · cases l with
      | nil => cases h.2.symm.trans hy
      | cons w l =>
        cases h.2.1.symm.trans hy
        exact List.mem_cons_of_mem _ List.mem_cons_self
    · exact List.mem_cons_of_mem z (ih h.2 hx)

/-- Only the nodes of the list are reached. -/
theorem Leads.mem_of_reach (h : Leads m u l) (hy : Reach m u y) : y∈l := by
  induction hy with
  | first hu =>
    cases l with
    | nil => cases h.symm.trans hu
    | cons z l =>
      cases h.1.symm.trans hu
      exact List.mem_cons_self
  | next _ hnext ih => exact h.next_mem ih hnext

section Reinserted

variable {lists : Q → List N} {q q' : Q} {a b : List N}

theorem Holds.notMem_of_split (h : Holds m lists) (hq : lists q=a++x::b) :
    x∉a ∧ x∉b ∧ ∀ y∈b,y∉a := by
  have hd := h.nodup q
  rw [hq] at hd
  obtain ⟨-,hxb,hacross⟩ := List.nodup_append.mp hd
  refine ⟨fun hx => hacross x hx x List.mem_cons_self rfl,(List.nodup_cons.mp hxb).1,
    fun y hy ha => hacross y ha y (List.mem_cons_of_mem x hy) rfl⟩

/-- The last cell of a queue is not the one of a node that others stand behind. -/
theorem Holds.ends_ne_of_split (h : Holds m lists) (hq : lists q=a++x::b) (hb : b≠[]) :
    ends (.head q') (lists q')≠.next x := by
  intro heq
  have hx : Owns lists q (.next x) := .inr ⟨x,by rw [hq]; simp,rfl⟩
  have hown : Owns lists q' (ends (.head q') (lists q')) := owns_ends fun _ hy => hy
  rw [heq] at hown
  obtain rfl := h.owner_unique hx hown
  rw [hq,ends_append,ends] at heq
  rcases ends_cases (.next x : Slot Q N) b with ⟨hnil,-⟩|⟨z,hz,hends⟩
  · exact hb hnil
  · rw [hends] at heq
    exact (h.notMem_of_split hq).2.1 (Slot.next.inj heq ▸ hz)

variable [DecidableEq Q] [DecidableEq N]

/-- The queue of the node ends with it. -/
theorem Holds.leads_own (h : Holds m lists) (hq : lists q=a++x::b) (hb : b≠[]) :
    Leads (m.pushed q' x (ends (.head q') (lists q'))) (.head q) (a++[x]) := by
  have hxa := (h.notMem_of_split hq).1
  have hout := h.ends_notMem q' q
  have hqueue := (h.queue q).hangs
  rw [hq] at hqueue hout
  rw [cells_append,List.mem_append,not_or] at hout
  obtain ⟨hfront,hcell,-⟩ := hangs_append.mp hqueue
  have hinner : Hangs (m.pushed q' x (ends (.head q') (lists q'))) (.head q) a := by
    refine hfront.congr (fun u hu => cell_pushed_ne ?_ ?_) fun y hy =>
      back_pushed_ne (Slot.head_ne_next q' y).symm ?_
    · rintro rfl
      exact hout.1 hu
    · rintro rfl
      exact next_notMem_cells hxa hu
    · rintro ⟨⟩
      exact hxa hy
  refine hinner.leads ⟨?_,cell_pushed_new (h.ends_ne_of_split hq hb).symm⟩
  have hne : ends (.head q) a≠ends (.head q') (lists q') := by
    intro heq
    rw [← heq] at hout
    exact hout.2 List.mem_cons_self
  rw [cell_pushed_ne hne (ends_ne_next hxa),hcell]

/-- Another queue has its nodes and at most the node besides. -/
theorem Holds.leads_other {q₁ : Q} (h : Holds m lists) (hq : lists q=a++x::b) (hb : b≠[])
    (hne : q₁≠q) :
    ∃ l,Leads (m.pushed q' x (ends (.head q') (lists q'))) (.head q₁) l ∧
      ∀ y∈l,y∈lists q₁ ∨ y=x := by
  have hx : x∉lists q₁ := fun hmem => hne (h.apart q₁ q x hmem (by rw [hq]; simp))
  have hangs := h.pushed_hangs (q := q') hx
  by_cases hsame : q₁=q'
  · subst hsame
    refine ⟨lists q₁++[x],hangs.leads ⟨cell_pushed_end,?_⟩,fun y hy => by simpa using hy⟩
    exact cell_pushed_new (h.ends_ne_of_split hq hb).symm
  · refine ⟨lists q₁++[],hangs.leads ?_,fun y hy => .inl (by simpa using hy)⟩
    show _=none
    rw [cell_pushed_ne (h.ends_ne hsame) (ends_ne_next hx)]
    exact (h.queue q₁).stop

end Reinserted

end DycoCoroutine.LinkedQueue

namespace DycoCoroutine.SysQueue

open LinkedQueue

variable {Q N : Type*} [DecidableEq Q] [DecidableEq N] {m : Links Q N} {lists : Q → List N}
  {q q' : Q} {x y : N} {a b : List N}

/-- What stands behind a node is lost when the node is inserted once more. -/
theorem not_reach_of_reinsertion (h : Holds m lists) (hq : lists q=a++x::b) (hy : y∈b)
    (q₁ : Q) : ¬Reach (tailqInsertTail m q' x) (.head q₁) y := by
  have hb : b≠[] := List.ne_nil_of_mem hy
  obtain ⟨-,hxb,hab⟩ := h.notMem_of_split hq
  rw [tailqInsertTail_eq h]
  intro hreach
  by_cases hne : q₁=q
  · subst hne
    rcases List.mem_append.mp ((h.leads_own hq hb).mem_of_reach hreach) with hmem|hmem
    · exact hab y hy hmem
    · exact hxb (List.mem_singleton.mp hmem ▸ hy)
  · obtain ⟨l,hl,hsub⟩ := h.leads_other hq hb hne
    rcases hsub y (hl.mem_of_reach hreach) with hmem|rfl
    · exact hne (h.apart q₁ q y hmem (by rw [hq]; simp [hy]))
    · exact hxb hy

/-- The queue begins with a node that the cell behind it does not point back to. -/
structure Stuck (m : Links Q N) (q : Q) (x : N) : Prop where
  first : m.cell (.head q)=some x
  back : m.back (.next x)≠.head q

/-- TAILQ_REMOVE does not take the node off. -/
theorem Stuck.remove (h : Stuck m q x) : Stuck (tailqRemove m q x) q x := by
  unfold tailqRemove
  cases hnext : m.cell (.next x) with
  | none =>
    have hback : (m.setBack (.head q) (m.back (.next x))).back (.next x)=m.back (.next x) :=
      back_setBack_ne (Slot.head_ne_next q x).symm
    simp only [hback]
    exact ⟨(cell_setCell_ne h.back.symm).trans h.first,by rw [back_setCell,hback]; exact h.back⟩
  | some y =>
    have hback : (m.setBack (.next y) (m.back (.next x))).back (.next x)=m.back (.next x) := by
      by_cases hxy : (.next x : Slot Q N)=.next y
      · rw [← hxy,back_setBack_self]
      · exact back_setBack_ne hxy
    simp only [hback]
    exact ⟨(cell_setCell_ne h.back.symm).trans h.first,by rw [back_setCell,hback]; exact h.back⟩

/-- The first node of a queue is stuck there after a second insertion. -/
theorem stuck_of_reinsertion (h : Holds m lists) (hq : lists q=x::b) :
    Stuck (tailqInsertTail m q' x) q x := by
  have hends : (.head q : Slot Q N)≠ends (.head q') (lists q') := by
    intro heq
    obtain rfl : q=q' := h.owner_unique (.inl rfl) (heq ▸ owns_ends fun _ hy => hy)
    rw [hq,ends] at heq
    rcases ends_cases (.next x : Slot Q N) b with ⟨-,hends⟩|⟨z,-,hends⟩ <;>
      cases heq.trans hends
  rw [tailqInsertTail_eq h]
  refine ⟨?_,?_⟩
  · rw [cell_pushed_ne hends (Slot.head_ne_next q x),h.first,hq,List.head?_cons]
  · rw [back_pushed_new]
    exact hends.symm

end DycoCoroutine.SysQueue

namespace DycoCoroutine.LinkedSchedule

open ScheduleState LinkedQueue SysQueue RunInvariant

variable {k k' : LinkedSched} {s : Sched} {c : Co} {a : ScheduleRun.Act} {fuel : ℕ}

theorem queues_tryOn {f : Sched → Except ScheduleState.Fault Sched} (h : k.tryOn f=.ok k') :
    k'.queues=k.queues := by
  obtain ⟨t,-,ht⟩ := bind_eq_ok h
  cases ht
  rfl

/-- A wake-up is an insertion at the tail of a queue. -/
theorem queues_of_wakeup (h : Refines k s) (hfuel : s.sleeping.length+1<fuel)
    (ha : a=.event ∨ ∃ now,a=.expire now) (hi : ReadyQueues.insertion s a=some c)
    (hstep : step fuel k a=some (.ok k')) :
    ∃ q,k'.queues=tailqInsertTail k.queues q c := by
  rcases ha with rfl|⟨now,rfl⟩
  · rw [ReadyQueues.insertion] at hi
    rw [step,h.pc] at hstep
    cases hpc : s.pc with
    | events fds =>
      rw [hpc] at hi hstep
      cases fds with
      | nil => cases hi
      | cons fd rest =>
        have hmap : k.rest.fdCoMap=s.fdCoMap := by rw [← h.rest]; rfl
        have hlookup : (k.on (·.goto (.events rest))).rest.fdCoMap.lookup fd=some c := by
          show k.rest.fdCoMap.lookup fd=some c
          rw [hmap]
          exact hi
        have hD := Option.some.inj hstep
        simp only [phaseD,hlookup] at hD
        split_ifs at hD
        exact ⟨_,queues_tryOn hD⟩
    | _ =>
      rw [hpc] at hi
      cases hi
  · obtain ⟨hhead,hdue⟩ := Option.filter_eq_some_iff.mp hi
    obtain ⟨rest,hsleeping⟩ := List.head?_eq_some_iff.mp hhead
    have hclock := h.on (f := (·.setClock now)) fun _ _ _ _ => rfl
    rw [step] at hstep
    split_ifs at hstep
    have hA := Option.some.inj hstep
    rw [phaseA] at hA
    rcases hclock.getExpired hfuel now with ⟨hnone,-⟩|⟨e,t,l,hsome,hk,-,hq⟩
    · simp only [ScheduleOps.scheduleGetExpired,Sched.setClock_sleeping,hsleeping] at hnone
      split_ifs at hnone with hlate
      exact absurd (of_decide_eq_true hdue) hlate
    · obtain ⟨rest',hrest,-⟩ := ScheduleEffect.getExpired_head hsome
      obtain rfl : c=e := (List.cons.inj (hsleeping.symm.trans hrest)).1
      obtain ⟨r,hr,hA⟩ := bind_eq_ok hA
      cases hk.symm.trans hr
      simp only at hA
      split_ifs at hA
      cases hA
      refine ⟨(l.rest.co c).flagsUrgent,?_⟩
      show tailqInsertTail l.queues _ c=_
      rw [hq]
      rfl

variable {pre behind : List Co} {q : Bool}

/-- When a coroutine that stands in a queue is woken a second time, the coroutines behind
it can no longer be reached from either queue. If it was the first of its queue, it stays
there, however often it is taken off. -/
theorem second_wakeup_cuts_queue (h : Refines k s) (hfuel : s.sleeping.length+1<fuel)
    (ha : a=.event ∨ ∃ now,a=.expire now) (hi : ReadyQueues.insertion s a=some c)
    (hq : lists s.urgentReady s.ready q=pre++c::behind)
    (hstep : step fuel k a=some (.ok k')) :
    (∀ d∈behind,∀ q',¬Reach k'.queues (.head q') d) ∧
    (pre=[] → ∀ n,tailqFirst ((popQueue · q c)^[n] k').queues q=some c) := by
  obtain ⟨q₁,hqueues⟩ := queues_of_wakeup h hfuel ha hi hstep
  constructor
  · intro d hd q'
    rw [hqueues]
    exact not_reach_of_reinsertion h.holds hq hd q'
  · rintro rfl n
    have hstuck : Stuck k'.queues q c := by
      rw [hqueues]
      exact stuck_of_reinsertion h.holds hq
    have hpops : Stuck ((popQueue · q c)^[n] k').queues q c := by
      induction n with
      | zero => exact hstuck
      | succ n ih =>
        rw [Function.iterate_succ_apply']
        exact ih.remove
    exact hpops.first

/-- Two waits are woken in one phase D, the first of them with a timer that stays armed. -/
def wokenInOneRound : List ScheduleRun.Act :=
  [.openFd 5,.openFd 6,.create false,.create false,.run,.loop,.expire 0,.dispatch,.dispatch,
    .wait 5 10 0 (100,100),.dispatch,.wait 6 (-1) 0 (100,100),.poll [5,6],.event,.event,.event,
    .loop]

/-- In the next phase A the timer expires and the second coroutine is lost. The first one
runs, ends and is released, and is resumed once more. -/
theorem second_wakeup_cuts_queue_wokenInOneRound :
    ∃ k k',replay (step 5) (dycoScheduleCreate ⟨none,fun _ => ⟨none,none,none,.black⟩⟩
        ⟨fun _ => none,fun u => u⟩ 1 0 4096 0) wokenInOneRound=some k ∧
      step 5 k (.expire 20000)=some (.ok k') ∧
      (∀ q,¬Reach k'.queues (.head q) 1) ∧
      (∀ n,tailqFirst ((popQueue · false 0)^[n] k').queues false=some 0) ∧
      ((replay (step 5) k' [.expire 20000,.dispatch,.dispatch,.exit (100,100),.poll [],.event,
        .loop,.expire 20000,.dispatch]).bind (step 5 · .dispatch)).map (·.toOption.isNone)=
        some true := by
  have hs : (replayWhile ScheduleRun.step (Sized 5) (ScheduleState.dycoScheduleCreate 1 0 4096 0)
      wokenInOneRound).map (fun s => (lists s.urgentReady s.ready false,s.sleeping,
        ReadyQueues.insertion s (.expire 20000)))=some ([0,1],[0],some 0) := by decide +kernel
  obtain ⟨s,hrun,hvalues⟩ := Option.map_eq_some_iff.mp hs
  simp only [Prod.mk.injEq] at hvalues
  obtain ⟨hq,hsleeping,hi⟩ := hvalues
  obtain ⟨k,hk,href⟩ := exists_linked_run ⟨none,fun _ => ⟨none,none,none,.black⟩⟩
    ⟨fun _ => none,fun u => u⟩ hrun
  have hend : ((replay (step 5) (dycoScheduleCreate ⟨none,fun _ => ⟨none,none,none,.black⟩⟩
      ⟨fun _ => none,fun u => u⟩ 1 0 4096 0) wokenInOneRound).bind fun k =>
        (replay (step 5) k [.expire 20000]).map fun k' =>
      ((replay (step 5) k' [.expire 20000,.dispatch,.dispatch,.exit (100,100),.poll [],.event,
        .loop,.expire 20000,.dispatch]).bind (step 5 · .dispatch)).map (·.toOption.isNone))=
        some (some true) := by decide +kernel
  rw [hk,Option.bind_some] at hend
  obtain ⟨k',hk',hlast⟩ := Option.map_eq_some_iff.mp hend
  have hstep := step_of_replay hk'
  have hfuel : s.sleeping.length+1<5 := by
    rw [hsleeping]
    decide
  replace hq : lists s.urgentReady s.ready false=[]++0::[1] := hq
  obtain ⟨hlost,hstays⟩ := second_wakeup_cuts_queue href hfuel (.inr ⟨20000,rfl⟩) hi hq hstep
  exact ⟨k,k',hk,hstep,hlost 1 List.mem_cons_self,hstays rfl,hlast⟩

end DycoCoroutine.LinkedSchedule
