import DycoCoroutine.ScheduleControl

/-!
# Phase D with DYCO_RANDOM_WAITFD

With this macro phase D fills an array of indices, shuffles it and handles the events in
the order of the array. One variable serves all three loops. The shuffle leaves it at 2,
or at the last index where there are fewer than three events, and the loop that handles
the events goes on from there: the array is a permutation, but its first entries are
passed over.
-/

namespace DycoCoroutine.EventShuffle

open ScheduleState ScheduleOps ScheduleRun ScheduleControl RunInvariant

/-- The loop that shuffles `idxarray`, with what it leaves in `idx`. The call of `rand`
at index `idx` has the result `rand idx`. -/
def shuffleLoop (rand : ℕ → ℕ) : ℕ → Array ℕ → ℕ×Array ℕ
  | 0,idxarray => (0,idxarray)
  | idx+1,idxarray =>
    if 2 < idx+1 then
      let ridx := rand (idx+1)%(idx+1)
      shuffleLoop rand idx (idxarray.swapIfInBounds (idx+1) ridx)
    else (idx+1,idxarray)

/-- `idx` and `idxarray` when the events are about to be handled. -/
def shuffled (rand : ℕ → ℕ) (nready : ℕ) : ℕ×Array ℕ :=
  shuffleLoop rand (nready-1) (Array.range nready)

/-- The indices of the events that are handled, in order. -/
def randomPass (rand : ℕ → ℕ) (nready : ℕ) : List ℕ :=
  (shuffled rand nready).2.toList.drop (shuffled rand nready).1

/-- Phase D from its first event to its last. -/
def handleEvents : List ℤ → Sched → Except Fault Sched
  | [],s => .ok s
  | fd::rest,s => phaseD s fd rest>>=handleEvents rest

/-- Two ways through phase D make the same coroutines ready and cancel the same waits, or
end in the same way. -/
inductive SameWakeups : Except Fault Sched → Except Fault Sched → Prop
  | ok {t u : Sched} (ready : ∀ c,c∈t.ready ↔ c∈u.ready)
      (urgent : ∀ c,c∈t.urgentReady ↔ c∈u.urgentReady)
      (waiting : ∀ c,(t.co c).flagsWaiting=(u.co c).flagsWaiting)
      (waits : ∀ fd,t.fdCoMap.lookup fd=u.fdCoMap.lookup fd)
      (registered : ∀ fd,fd∈t.epollSet ↔ fd∈u.epollSet) : SameWakeups (.ok t) (.ok u)
  | fault {e : Fault} : SameWakeups (.error e) (.error e)

/-- The shuffle permutes the indices, every event is handled once, and the outcome is that
of the build without the macro. -/
structure Lossless (rand : ℕ → ℕ) (nready : ℕ) (eventlist : ℕ → ℤ) : Prop where
  permutes : (shuffled rand nready).2.toList.Perm (List.range nready)
  handles : (randomPass rand nready).Perm (List.range nready)
  agrees : ∀ s,SameWakeups (handleEvents ((randomPass rand nready).map eventlist) s)
    (handleEvents ((List.range nready).map eventlist) s)

variable {rand : ℕ → ℕ} {nready idx : ℕ} {idxarray : Array ℕ} {eventlist : ℕ → ℤ}
  {s t : Sched} {fd : ℤ} {fds : List ℤ}

theorem swap_perm (idxarray : Array ℕ) (i j : ℕ) :
    (idxarray.swapIfInBounds i j).toList.Perm idxarray.toList := by
  unfold Array.swapIfInBounds
  split_ifs
  · exact (Array.swap_perm _ _).toList
  · exact .refl _
  · exact .refl _

theorem shuffleLoop_perm (rand : ℕ → ℕ) (idx : ℕ) (idxarray : Array ℕ) :
    (shuffleLoop rand idx idxarray).2.toList.Perm idxarray.toList := by
  induction idx generalizing idxarray with
  | zero => exact .refl _
  | succ idx ih =>
    rw [shuffleLoop]
    split_ifs
    · exact (ih _).trans (swap_perm ..)
    · exact .refl _

/-- The loop stops at index 2 or where it began. -/
theorem shuffleLoop_idx (rand : ℕ → ℕ) (idx : ℕ) (idxarray : Array ℕ) :
    (shuffleLoop rand idx idxarray).1=min idx 2 := by
  induction idx generalizing idxarray with
  | zero => rfl
  | succ idx ih =>
    rw [shuffleLoop]
    split_ifs with hlt
    · rw [ih]
      omega
    · show idx+1=_
      omega

/-- After the shuffle `idxarray` is a permutation of the indices. -/
theorem shuffled_perm (rand : ℕ → ℕ) (nready : ℕ) :
    (shuffled rand nready).2.toList.Perm (List.range nready) := by
  have hperm := shuffleLoop_perm rand (nready-1) (Array.range nready)
  rwa [Array.toList_range] at hperm

theorem length_randomPass (rand : ℕ → ℕ) (nready : ℕ) :
    (randomPass rand nready).length=nready-min (nready-1) 2 := by
  have hidx : (shuffled rand nready).1=min (nready-1) 2 := shuffleLoop_idx ..
  rw [randomPass,List.length_drop,(shuffled_perm rand nready).length_eq,List.length_range,hidx]

/-- No event is handled twice. -/
theorem nodup_randomPass (rand : ℕ → ℕ) (nready : ℕ) : (randomPass rand nready).Nodup :=
  ((shuffled_perm rand nready).nodup_iff.mpr List.nodup_range).sublist (List.drop_sublist ..)

/-- The steps of the machine that handle the events. -/
theorem runs_handleEvents (hpc : s.pc=.events fds) (h : handleEvents fds s=.ok t) :
    Runs step (fun _ a => a=.event) s t ∧ t.pc=.events [] := by
  suffices hgen : ∀ r,Runs step (fun _ a => a=.event) r s →
      Runs step (fun _ a => a=.event) r t ∧ t.pc=.events [] from hgen s .refl
  induction fds generalizing s with
  | nil =>
    cases h
    exact fun r hr => ⟨hr,hpc⟩
  | cons fd rest ih =>
    obtain ⟨u,hu,h⟩ := bind_eq_ok h
    have hstep : step s .event=some (.ok u) := by
      simp only [step,hpc]
      rw [hu]
    have hnext : u.pc=.events rest := congrArg Prod.fst (control_phaseD hu)
    exact fun r hr => ih hnext h r (hr.tail rfl hstep)

/-- One event leaves the waits on other descriptors alone. -/
theorem phaseD_other {rest : List ℤ} {other : ℤ} (h : phaseD s fd rest=.ok t) (hne : other≠fd) :
    t.fdCoMap.lookup other=s.fdCoMap.lookup other ∧ (other∈t.epollSet ↔ other∈s.epollSet) := by
  have hready : ∀ c,(insertReady (s.goto (.events rest)) c).fdCoMap=s.fdCoMap ∧
      (insertReady (s.goto (.events rest)) c).epollSet=s.epollSet := by
    intro c
    unfold insertReady
    split_ifs <;> exact ⟨rfl,rfl⟩
  rcases phaseD_cases h with rfl|⟨c,-,h⟩
  · exact ⟨rfl,.rfl⟩
  · obtain ⟨hmap,hset⟩ := hready c
    unfold scheduleCancelWait at h
    split_ifs at h
    · unfold epollCtlDel at h
      split_ifs at h
      cases h
      refine ⟨?_,?_⟩
      · exact (AList.lookup_erase_ne hne).trans (by rw [hmap])
      · rw [← hset]
        exact List.mem_erase_of_ne hne
    · cases h
      rw [hmap,hset]
      exact ⟨rfl,.rfl⟩

/-- The wait on a descriptor whose event is not handled goes on. -/
theorem handleEvents_other (h : handleEvents fds s=.ok t) (hfd : fd∉fds) :
    t.fdCoMap.lookup fd=s.fdCoMap.lookup fd ∧ (fd∈t.epollSet ↔ fd∈s.epollSet) := by
  induction fds generalizing s with
  | nil =>
    cases h
    exact ⟨rfl,.rfl⟩
  | cons first rest ih =>
    obtain ⟨u,hu,h⟩ := bind_eq_ok h
    obtain ⟨hne,hrest⟩ := not_or.mp (mt List.mem_cons.mpr hfd)
    obtain ⟨hmap,hset⟩ := ih h hrest
    obtain ⟨hmap',hset'⟩ := phaseD_other hu hne
    exact ⟨hmap.trans hmap',hset.trans hset'⟩

/-- As soon as there are two events, one is passed over and its coroutine goes on
waiting. -/
theorem exists_passed_over (hmany : 2≤nready) (hinj : Function.Injective eventlist)
    (h : handleEvents ((randomPass rand nready).map eventlist) s=.ok t) :
    ∃ i<nready,t.fdCoMap.lookup (eventlist i)=s.fdCoMap.lookup (eventlist i) ∧
      (eventlist i∈t.epollSet ↔ eventlist i∈s.epollSet) := by
  have hskipped : ∃ i<nready,i∉randomPass rand nready := by
    by_contra hall
    push Not at hall
    have hsub : List.range nready⊆randomPass rand nready := fun i hi => hall i (List.mem_range.mp hi)
    have hle := List.nodup_range.length_le_of_subset hsub
    rw [List.length_range,length_randomPass] at hle
    omega
  obtain ⟨i,hi,hnot⟩ := hskipped
  refine ⟨i,hi,handleEvents_other h fun hmem => hnot ?_⟩
  obtain ⟨j,hj,he⟩ := List.mem_map.mp hmem
  exact hinj he ▸ hj

/-- The shuffled array is a permutation, but every event is handled only if there is just
one. -/
theorem random_order_lossless_iff (hready : 1≤nready) :
    Lossless rand nready eventlist ↔ nready=1 := by
  constructor
  · intro h
    have hlength := h.handles.length_eq
    rw [length_randomPass,List.length_range] at hlength
    omega
  · rintro rfl
    have hpass : randomPass rand 1=List.range 1 := rfl
    refine ⟨shuffled_perm rand 1,by rw [hpass],fun s => ?_⟩
    rw [hpass]
    cases handleEvents ((List.range 1).map eventlist) s with
    | ok t => exact .ok (fun _ => .rfl) (fun _ => .rfl) (fun _ => rfl) (fun _ => rfl) fun _ => .rfl
    | error e => exact .fault

theorem random_order_lossless_iff_oneEvent :
    Lossless (fun _ => 0) 1 (fun _ => 5) ∧ ¬Lossless (fun _ => 0) 4 (fun _ => 5) := by
  refine ⟨(random_order_lossless_iff le_rfl).mpr rfl,fun h => ?_⟩
  exact absurd ((random_order_lossless_iff (by decide)).mp h) (by decide)

/-- Two coroutines wait on the descriptors 5 and 6, and both are reported. -/
def twoReported : List Act :=
  [.openFd 5,.openFd 6,.create false,.create false,.run,.loop,.expire 0,.dispatch,.dispatch,
    .wait 5 (-1) 0 (100,100),.dispatch,.wait 6 (-1) 0 (100,100),.poll [5,6]]

/-- Whatever `rand` returns, only the second coroutine becomes ready. -/
theorem first_event_passed_over : ∃ s,Reachable (fun _ _ => True) s ∧ s.pc=.events [5,6] ∧
    ∀ rand : ℕ → ℕ,∃ t u,
      handleEvents ((randomPass rand 2).map fun i => if i=0 then 5 else 6) s=.ok t ∧ t.ready=[1] ∧
      handleEvents ((List.range 2).map fun i => if i=0 then 5 else 6) s=.ok u ∧ u.ready=[0,1] ∧
      ¬Lossless rand 2 fun i => if i=0 then 5 else 6 := by
  have h : ((replay step (dycoScheduleCreate 1 0 4096 0) twoReported).bind fun s =>
      (handleEvents [6] s).toOption.bind fun t => (handleEvents [5,6] s).toOption.map fun u =>
        (s.pc,t.ready,u.ready))=some (.events [5,6],[1],[0,1]) := by decide +kernel
  obtain ⟨s,hs,h⟩ := Option.bind_eq_some_iff.mp h
  obtain ⟨t,ht,h⟩ := Option.bind_eq_some_iff.mp h
  obtain ⟨u,hu,hq⟩ := Option.map_eq_some_iff.mp h
  simp only [Prod.mk.injEq] at hq
  refine ⟨s,⟨1,0,4096,0,runs_of_replay hs⟩,hq.1,fun rand => ⟨t,u,?_,hq.2.1,?_,hq.2.2,fun hl => ?_⟩⟩
  · exact ok_of_toOption ht
  · exact ok_of_toOption hu
  · exact absurd hl.handles.length_eq (by rw [length_randomPass]; decide)

end DycoCoroutine.EventShuffle
