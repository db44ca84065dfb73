import DycoCoroutine.EpollRegistration

/-!
# The entry of a descriptor in the scheduler

What every operation does to the entry of one descriptor in `fd_co_map`. A wait makes it,
and whoever drops it has taken the descriptor out of the interest list, which the kernel
refuses for a closed one.
-/

namespace DycoCoroutine.DescriptorEntry

open ScheduleState ScheduleOps ScheduleRun ScheduleControl ScheduleAbort EpollRegistration
open RunInvariant

variable {s t u : Sched} {a : Act} {c d : Co} {fd e : ℤ}

/-- The descriptor is not opened, and its entry is kept, or dropped while it is open. -/
structure Shrinks (fd : ℤ) (s t : Sched) : Prop where
  opened : fd∈t.openFds → fd∈s.openFds
  entry : t.fdCoMap.lookup fd=s.fdCoMap.lookup fd ∨ fd∈s.openFds ∧ t.fdCoMap.lookup fd=none

/-- The tables stay as they are. -/
theorem Shrinks.of_tables (h : tables t=tables s) : Shrinks fd s t := by
  simp only [tables,Prod.mk.injEq] at h
  exact ⟨fun ho => by rwa [h.1] at ho,.inl (by rw [h.2.2])⟩

/-- Two operations in a row. -/
theorem Shrinks.trans (h : Shrinks fd s t) (k : Shrinks fd t u) : Shrinks fd s u := by
  refine ⟨fun ho => h.opened (k.opened ho),?_⟩
  rcases k.entry with hkept|⟨ho,hnone⟩
  · rw [hkept]
    exact h.entry
  · exact .inr ⟨h.opened ho,hnone⟩

/-- What comes before leaves the tables alone. -/
theorem Shrinks.after (h : Shrinks fd u t) (hu : tables u=tables s) : Shrinks fd s t :=
  (Shrinks.of_tables hu).trans h

/-- Closing a descriptor registers none. -/
theorem shrinks_closeFd (s : Sched) (e : ℤ) : Shrinks fd s (closeFd s e) :=
  ⟨List.mem_of_mem_erase,.inl rfl⟩

/-- Deleting a descriptor registers none. -/
theorem shrinks_epollCtlDel (h : epollCtlDel s e=.ok t) : Shrinks fd s t := by
  unfold epollCtlDel at h
  split_ifs at h
  cases h
  exact ⟨id,.inl rfl⟩

/-- Cancelling a wait registers none, and needs an open descriptor. -/
theorem shrinks_cancelWait (h : scheduleCancelWait s d e=.ok t) :
    Shrinks fd s t ∧ ((s.co d).flagsWaiting=true → e∈s.openFds) := by
  unfold scheduleCancelWait at h
  split_ifs at h with hw
  · unfold epollCtlDel at h
    split_ifs at h with he
    cases h
    refine ⟨⟨id,?_⟩,fun _ => he.1⟩
    by_cases heq : fd=e
    · subst heq
      exact .inr ⟨he.1,AList.lookup_erase fd _⟩
    · exact .inl (AList.lookup_erase_ne heq)
  · cases h
    exact ⟨.of_tables rfl,fun hw' => absurd hw' hw⟩

/-- Cancelling a timer registers none. -/
theorem shrinks_cancelSleep (h : scheduleCancelSleep s d=.ok t) : Shrinks fd s t := by
  have hkept := kept_cancelSleep s d
  rw [h] at hkept
  exact .of_tables hkept.post_of_ok.tables

/-- Ending a coroutine registers none. -/
theorem shrinks_coroAbort (h : coroAbort s d=.ok t) : Shrinks fd s t := by
  have hrelease : ∀ u,releaseCoro s d=.ok u → Shrinks fd s u := by
    intro u hu
    unfold releaseCoro at hu
    split_ifs at hu
    obtain ⟨v,hv,hu⟩ := bind_eq_ok hu
    cases hu
    have hepoll : Shrinks fd s v := by
      unfold takeDownEpoll at hv
      split_ifs at hv
      · obtain ⟨x,hx,hv⟩ := bind_eq_ok hv
        obtain ⟨y,hy,hv⟩ := bind_eq_ok hv
        cases hv
        exact (((shrinks_cancelWait hx).1.trans (shrinks_epollCtlDel hy)).trans
          (shrinks_closeFd y _)).after rfl
      · cases hv
        exact .of_tables rfl
    unfold takeDownSignal
    split_ifs
    · exact hepoll.trans (shrinks_closeFd v _)
    · exact hepoll
  rcases coroAbort_cases h with rfl|⟨u,hu,⟨p,rfl⟩|rfl⟩
  · exact .of_tables rfl
  · exact (hrelease u hu).trans (.of_tables rfl)
  · exact (hrelease u hu).trans (.of_tables rfl)

/-- The running coroutine gives up control. -/
theorem shrinks_backToLoop (h : backToLoop s d=.ok t) : Shrinks fd s t := by
  obtain ⟨u,hu,h⟩ := bind_eq_ok h
  cases h
  refine Shrinks.trans (t := u) ?_ (.of_tables (tables_leaveCo u d))
  unfold resumeReturn at hu
  dsimp only at hu
  have hnone : Shrinks fd s (s.setThread none) := .of_tables rfl
  split_ifs at hu
  · obtain ⟨v,hv,hu⟩ := bind_eq_ok hu
    rcases cidDelete_cases hu with rfl|⟨c,x,-,-,hx,rfl⟩
    · exact hnone.trans (shrinks_cancelSleep hv)
    · exact (hnone.trans (shrinks_cancelSleep hv)).trans
        ((shrinks_coroAbort hx).trans (.of_tables rfl))
  · obtain ⟨v,hv,hu⟩ := bind_eq_ok hu
    exact (hnone.trans (shrinks_cancelSleep hv)).trans (shrinks_coroAbort hu)
  · cases hu
    exact hnone

/-- A coroutine that resumes from a wait still flagged takes an open descriptor back. -/
theorem shrinks_enterCo (h : enterCo s d=.ok t) : Shrinks fd s t ∧ ∀ timed,
    (s.co d).cont=.wait fd timed → (s.co d).flagsWaiting=true → fd∈s.openFds := by
  have hact := kept_activate s d
  unfold enterCo at h
  split at h
  next hk =>
    cases h
    exact ⟨.of_tables hact.tables,fun timed hw => by simp [hk] at hw⟩
  next hk =>
    cases h
    exact ⟨.of_tables hact.tables,fun timed hw => by simp [hk] at hw⟩
  next e timed hk =>
    obtain ⟨u,hu,h⟩ := bind_eq_ok h
    have hkept := kept_cancelSleep (activate s d) d
    rw [hu] at hkept
    have hsame := hact.trans hkept.post_of_ok
    have hcancel : Shrinks fd u t ∧ _ := shrinks_cancelWait h
    obtain ⟨hc,hopen⟩ := hcancel
    refine ⟨(Shrinks.of_tables hsame.tables).trans hc,fun timed' hw hbit => ?_⟩
    rw [hk] at hw
    cases hw
    have htables := hsame.tables
    simp only [tables,Prod.mk.injEq] at htables
    rw [← htables.1]
    exact hopen ((hsame.waiting d).trans hbit)
  next hk =>
    cases h
    exact ⟨.of_tables ((Eq.refl _).trans hact.tables),fun timed hw => by simp [hk] at hw⟩

/-- A created coroutine registers none. -/
theorem shrinks_enroll {urgent : Bool} (h : enroll u d urgent=.ok t) : Shrinks fd u t := by
  have htables := tables_enroll u d urgent
  rw [h] at htables
  exact .of_tables htables.post_of_ok

/-- The step hands out this descriptor, waits for it or aborts the scheduler. -/
def concerns (fd : ℤ) : Act → Bool
  | .openFd e => e=fd
  | .epollInit e => e=fd
  | .signalInit e => e=fd
  | .wait e _ _ _ => e=fd
  | .schedAbort => true
  | _ => false

/-- Opening another descriptor does not register this one. -/
theorem shrinks_openFd (s : Sched) (he : e≠fd) : Shrinks fd s (openFd s e) :=
  ⟨fun hmem => (List.mem_cons.mp hmem).resolve_left he.symm,.inl rfl⟩

/-- A wait for another descriptor does not register this one. -/
theorem shrinks_schedWait (h : scheduleSchedWait s d e=.ok t) (he : e≠fd) : Shrinks fd s t := by
  obtain ⟨u,hu,h⟩ := bind_eq_ok h
  unfold epollCtlAdd at hu
  split_ifs at hu
  cases hu
  cases h
  exact ⟨id,.inl (AList.lookup_insert_ne he.symm)⟩

/-- Every step that does not claim the descriptor. -/
theorem shrinks_of_moves (h : Moves s a t) (ha : concerns fd a=false) : Shrinks fd s t := by
  cases h with
  | create hu h => exact (shrinks_enroll h).after rfl
  | @poolCreate p totalsize stacksize =>
    have hcn := containers_cpCreate (s := s) p totalsize stacksize
    simp only [containers,Prod.mk.injEq] at hcn
    exact .of_tables (by simp [tables,hcn])
  | obtain hu h =>
    rcases cpObtain_cases h with rfl|⟨cp,d,rest,-,-,-,h⟩
    · exact .of_tables rfl
    · exact (shrinks_enroll h).after rfl
  | setUrgent hu h =>
    rcases setUrgent_cases h with rfl|⟨d,rfl⟩
    · exact .of_tables rfl
    · exact .of_tables rfl
  | openFd => exact shrinks_openFd s (of_decide_eq_false ha)
  | closeFd => exact shrinks_closeFd s _
  | run hu h =>
    unfold dycoScheduleRun at h
    split at h <;> cases h <;> exact .of_tables rfl
  | loop =>
    unfold loopHead
    split_ifs <;> exact .of_tables rfl
  | expire hp hn h =>
    rcases phaseA_cases h with ⟨-,rfl⟩|⟨d,u,hg,-,rfl⟩
    · exact .of_tables rfl
    · obtain ⟨rest,-,-,rfl⟩ := getExpired_cases hg
      exact .of_tables ((kept_insertReady _ d).tables.trans rfl)
  | @dispatch urgent _ _ _ hp h =>
    rcases phaseBC_cases h with ⟨-,rfl⟩|⟨d,rest,-,-,h⟩
    · unfold endPhase startPhase
      split_ifs <;> exact .of_tables rfl
    · exact (shrinks_enterCo h).1.after (kept_popQueue s urgent d rest).1.tables
  | poll => exact .of_tables rfl
  | eventsDone => exact .of_tables rfl
  | event hp h =>
    rcases phaseD_cases h with rfl|⟨d,-,h⟩
    · exact .of_tables rfl
    · exact (shrinks_cancelWait h).1.after ((kept_insertReady _ d).tables.trans rfl)
  | sleep hr hn h =>
    refine (shrinks_backToLoop h).after ?_
    refine (kept_yield _ _ _ _).tables.trans ?_
    split_ifs
    · exact (kept_insertReady _ _).tables.trans rfl
    · exact (kept_schedSleep _ _ _ _).tables.trans rfl
  | @wait _ _ _ now _ _ hr hn hto h =>
    obtain ⟨u,hu,h⟩ := bind_eq_ok h
    have hwait : Shrinks fd (s.setClock now) u := shrinks_schedWait hu (of_decide_eq_false ha)
    refine (hwait.trans ((shrinks_backToLoop h).after ?_)).after rfl
    exact (kept_yield _ _ _ _).tables.trans (kept_schedSleep _ _ _ _).tables
  | exit hr h =>
    refine (shrinks_backToLoop h).after ?_
    exact (kept_yield _ _ _ _).tables.trans rfl
  | abort hr h => exact (shrinks_backToLoop h).after rfl
  | checkStack hr h =>
    split_ifs at h
    · exact (shrinks_backToLoop h).after rfl
    · cases h
      exact .of_tables rfl
  | @stop d depth hr =>
    exact .of_tables ((tables_leaveCo _ _).trans
      (Eq.trans rfl (kept_stopSuspend s d depth).tables))
  | schedAbort => cases ha
  | epollInit =>
    unfold dycoEpollInit
    split_ifs
    · exact .of_tables rfl
    · exact (shrinks_openFd s (of_decide_eq_false ha)).trans (.of_tables rfl)
  | epollDestroy =>
    unfold dycoEpollDestroy
    split_ifs
    · exact (shrinks_closeFd _ _).after rfl
    · exact .of_tables rfl
  | signalInit =>
    unfold dycoSignalInit
    split_ifs
    · exact .of_tables rfl
    · exact (shrinks_openFd s (of_decide_eq_false ha)).trans (.of_tables rfl)
  | signalDestroy =>
    unfold dycoSignalDestroy
    split_ifs
    · exact (shrinks_closeFd _ _).after rfl
    · exact .of_tables rfl

end DycoCoroutine.DescriptorEntry
