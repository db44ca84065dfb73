import Mathlib.Tactic

/-!
# Event descriptors

Nonblocking `eventfd` counters as the kernel keeps them: a write adds to a
counter unless the sum is too large, a read fails at zero and otherwise takes
the whole counter. A descriptor table says what every number stands for, since
a closed number may be handed out again. Descriptors of a duplicate-free list
are written to one after another, and counted by a property of what they refer
to.
-/

namespace DycoCoroutine.EventFd

/-- The largest value that an event counter can hold. -/
def maxCount : ℕ := 2^64-2

/-- `eventfd_write` on a counter, which fails where the sum is too large. -/
def bump (count value : ℕ) : Option ℕ := if count+value ≤ maxCount then some (count+value) else none

/-- What a descriptor refers to. -/
inductive Desc
  /-- An event counter. -/
  | event (count : ℕ)
  /-- Anything else. -/
  | other
  deriving DecidableEq

/-- The descriptors of a process. -/
abbrev Table := ℤ → Option Desc

/-- `eventfd(0)`, which returns the unused number `fd`. -/
def openEvent (t : Table) (fd : ℤ) : Table := Function.update t fd (some (.event 0))

/-- `close` -/
def close (t : Table) (fd : ℤ) : Table := Function.update t fd none

/-- `eventfd_write`. It fails on a closed descriptor; what is not a counter
takes the eight bytes as data. -/
def eventfdWrite (t : Table) (fd : ℤ) (value : ℕ) : Option Table :=
  match t fd with
  | some (.event n) => (bump n value).map fun m => Function.update t fd (some (.event m))
  | some .other => some t
  | none => none

/-- `eventfd_read`, for a counter that is closed afterwards. -/
def eventfdRead (t : Table) (fd : ℤ) : Option ℕ :=
  match t fd with
  | some (.event n) => if n=0 then none else some n
  | _ => none

/-- A write to each of these descriptors, where failures are ignored. -/
def eventfdWriteAll (t : Table) (fds : List ℤ) (value : ℕ) : Table :=
  fds.foldl (fun t fd => (eventfdWrite t fd value).getD t) t

/-- A write to each of these descriptors, given up at the first failure. -/
def eventfdWriteEach (t : Table) (fds : List ℤ) (value : ℕ) : Option Table :=
  fds.foldlM (fun t fd => eventfdWrite t fd value) t

/-- How many of these descriptors refer to something with the property. -/
def tally (p : Option Desc → Bool) (t : Table) (fds : List ℤ) : ℕ := fds.countP fun fd => p (t fd)

/-- Anything but a counter that was not written to. -/
def signalled (d : Option Desc) : Bool := d≠some (.event 0)

/-- The counters among these descriptors that were not written to, in order. -/
def silent (t : Table) (fds : List ℤ) : List ℤ := fds.filter fun fd => t fd=some (.event 0)

variable {p : Option Desc → Bool} {t : Table} {fd : ℤ} {fds : List ℤ} {d : Option Desc} {n value : ℕ}

/-- A write to a counter that has room. -/
theorem eventfdWrite_event (h : t fd=some (.event n)) (hn : n+value ≤ maxCount) :
    eventfdWrite t fd value=some (Function.update t fd (some (.event (n+value)))) := by
  simp [eventfdWrite,h,bump,hn]

/-- A counter that is not 0 can be read. -/
theorem eventfdRead_eq_some (h : t fd=some (.event n)) (hn : 0<n) : eventfdRead t fd=some n := by
  simp [eventfdRead,h,hn.ne']

/-- A write leaves the other descriptors alone. -/
theorem eventfdWrite_of_ne {x : ℤ} {u : Table} (h : eventfdWrite t x value=some u) (hne : fd≠x) :
    u fd=t fd := by
  unfold eventfdWrite at h
  split at h
  · obtain ⟨m,-,rfl⟩ := Option.map_eq_some_iff.mp h
    exact Function.update_of_ne hne ..
  · cases h
    rfl
  · cases h

/-- A counter only grows by a write. -/
theorem eventfdWrite_grows {x : ℤ} {u : Table} (h : eventfdWrite t x value=some u)
    (hd : t fd=some (.event n)) : ∃ k,u fd=some (.event (n+k)) := by
  by_cases hne : fd=x
  · subst hne
    simp only [eventfdWrite,hd,bump] at h
    split_ifs at h <;> cases h
    exact ⟨value,Function.update_self ..⟩
  · exact ⟨0,(eventfdWrite_of_ne h hne).trans hd⟩

/-- A write opens no descriptor. -/
theorem eventfdWrite_domain {x : ℤ} {u : Table} (h : eventfdWrite t x value=some u)
    (hd : t fd=none) : u fd=none := by
  by_cases hne : fd=x
  · subst hne
    simp [eventfdWrite,hd] at h
  · exact (eventfdWrite_of_ne h hne).trans hd

/-- What was written to is no counter at zero. -/
theorem eventfdWrite_ne_zero {u : Table} (h : eventfdWrite t fd value=some u) (hv : 0<value) :
    u fd≠some (.event 0) := by
  unfold eventfdWrite at h
  split at h
  next n hn =>
    obtain ⟨m,hm,rfl⟩ := Option.map_eq_some_iff.mp h
    unfold bump at hm
    split_ifs at hm
    cases hm
    simp
    omega
  next hother =>
    cases h
    simp [hother]
  · cases h

/-- A write to many descriptors leaves the others alone. -/
theorem eventfdWriteAll_of_not_mem (h : fd∉fds) : eventfdWriteAll t fds value fd=t fd := by
  induction fds generalizing t with
  | nil => rfl
  | cons x l ih =>
    obtain ⟨hx,hl⟩ := not_or.mp (mt List.mem_cons.mpr h)
    refine (ih hl).trans ?_
    show ((eventfdWrite t x value).getD t) fd=t fd
    cases hw : eventfdWrite t x value with
    | none => rfl
    | some u => exact eventfdWrite_of_ne hw hx

/-- Each counter among them takes the value, if it has room. -/
theorem eventfdWriteAll_of_mem (hnd : fds.Nodup) (h : fd∈fds) (hd : t fd=some (.event n)) :
    eventfdWriteAll t fds value fd=some (.event ((bump n value).getD n)) := by
  induction fds generalizing t with
  | nil => exact absurd h List.not_mem_nil
  | cons x l ih =>
    obtain ⟨hx,hl⟩ := List.nodup_cons.mp hnd
    have hstep : eventfdWriteAll t (x::l) value=
        eventfdWriteAll ((eventfdWrite t x value).getD t) l value := rfl
    have hone : ((eventfdWrite t x value).getD t) fd=eventfdWriteAll t [x] value fd := rfl
    rw [hstep]
    by_cases hfd : fd=x
    · subst hfd
      rw [eventfdWriteAll_of_not_mem hx]
      simp only [eventfdWrite,hd]
      cases bump n value <;> simp [hd]
    · refine ih hl (by simpa [hfd] using h) ?_
      rw [hone,eventfdWriteAll_of_not_mem (by simpa using hfd)]
      exact hd

/-- Successful writes leave the other descriptors alone. -/
theorem eventfdWriteEach_of_not_mem {u : Table} (h : eventfdWriteEach t fds value=some u)
    (hfd : fd∉fds) : u fd=t fd := by
  induction fds generalizing t with
  | nil =>
    cases h
    rfl
  | cons x l ih =>
    obtain ⟨hx,hl⟩ := not_or.mp (mt List.mem_cons.mpr hfd)
    rw [eventfdWriteEach,List.foldlM_cons] at h
    obtain ⟨t₁,h₁,hrest⟩ := Option.bind_eq_some_iff.mp h
    exact (ih hrest hl).trans (eventfdWrite_of_ne h₁ hx)

/-- Each counter among them has taken the value. -/
theorem eventfdWriteEach_of_mem {u : Table} (h : eventfdWriteEach t fds value=some u)
    (hnd : fds.Nodup) (hfd : fd∈fds) (hd : t fd=some (.event n)) :
    u fd=some (.event (n+value)) := by
  induction fds generalizing t with
  | nil => exact absurd hfd List.not_mem_nil
  | cons x l ih =>
    obtain ⟨hx,hl⟩ := List.nodup_cons.mp hnd
    rw [eventfdWriteEach,List.foldlM_cons] at h
    obtain ⟨t₁,h₁,hrest⟩ := Option.bind_eq_some_iff.mp h
    by_cases hne : fd=x
    · subst hne
      rw [eventfdWriteEach_of_not_mem hrest hx]
      simp only [eventfdWrite,hd,bump] at h₁
      split_ifs at h₁ with hroom <;> cases h₁
      exact Function.update_self ..
    · exact ih hrest hl (by simpa [hne] using hfd) ((eventfdWrite_of_ne h₁ hne).trans hd)

/-- Writes to counters that have room are successful. -/
theorem exists_eventfdWriteEach (hnd : fds.Nodup)
    (h : ∀ x∈fds,∃ n,t x=some (.event n) ∧ n+value ≤ maxCount) :
    ∃ u,eventfdWriteEach t fds value=some u := by
  induction fds generalizing t with
  | nil => exact ⟨t,rfl⟩
  | cons x l ih =>
    obtain ⟨hx,hl⟩ := List.nodup_cons.mp hnd
    obtain ⟨n,hn,hroom⟩ := h x List.mem_cons_self
    have hfirst := eventfdWrite_event hn hroom
    obtain ⟨u,hu⟩ := ih (t := Function.update t x (some (.event (n+value)))) hl fun y hy => by
      rw [Function.update_of_ne fun he : y=x => hx (he ▸ hy)]
      exact h y (List.mem_cons_of_mem _ hy)
    refine ⟨u,?_⟩
    rw [eventfdWriteEach,List.foldlM_cons,hfirst]
    exact hu

/-- A closed descriptor among them ends the writes. -/
theorem eventfdWriteEach_eq_none (h : fd∈fds) (hd : t fd=none) :
    eventfdWriteEach t fds value=none := by
  induction fds generalizing t with
  | nil => exact absurd h List.not_mem_nil
  | cons x l ih =>
    rw [eventfdWriteEach,List.foldlM_cons]
    cases hw : eventfdWrite t x value with
    | none => rfl
    | some u =>
      have hne : fd≠x := by
        rintro rfl
        simp [eventfdWrite,hd] at hw
      exact ih (by simpa [hne] using h) (eventfdWrite_domain hw hd)

/-- Every counter stays a counter. -/
def Keeps (t u : Table) : Prop := ∀ fd n,t fd=some (.event n) → ∃ m,u fd=some (.event m)

/-- Nothing happens. -/
theorem Keeps.refl (t : Table) : Keeps t t := fun _ n h => ⟨n,h⟩

/-- Two operations in a row. -/
theorem Keeps.trans {u x : Table} (h : Keeps t u) (k : Keeps u x) : Keeps t x := by
  intro fd n hn
  obtain ⟨m,hm⟩ := h fd n hn
  exact k fd m hm

/-- A number that is no counter changes its meaning. -/
theorem update_of_event (h : ∀ n,t fd≠some (.event n)) (x : ℤ) (n : ℕ)
    (hx : t x=some (.event n)) : Function.update t fd d x=some (.event n) := by
  have hne : x≠fd := fun he => h n (he ▸ hx)
  exact (Function.update_of_ne hne ..).trans hx

/-- A change of what is not a counter. -/
theorem Keeps.update (h : ∀ n,t fd≠some (.event n)) (d : Option Desc) :
    Keeps t (Function.update t fd d) :=
  fun x n hx => ⟨n,update_of_event h x n hx⟩

/-- A write makes no counter smaller. -/
theorem Keeps.write {u : Table} (h : eventfdWrite t fd value=some u) : Keeps t u := by
  intro x n hx
  by_cases hfd : x=fd
  · subst hfd
    simp only [eventfdWrite,hx] at h
    obtain ⟨m,-,rfl⟩ := Option.map_eq_some_iff.mp h
    exact ⟨m,Function.update_self ..⟩
  · exact ⟨n,(eventfdWrite_of_ne h hfd).trans hx⟩

/-- Writing to all makes no counter smaller. -/
theorem Keeps.writeAll (t : Table) (fds : List ℤ) (value : ℕ) :
    Keeps t (eventfdWriteAll t fds value) := by
  induction fds generalizing t with
  | nil => exact Keeps.refl t
  | cons x l ih =>
    refine Keeps.trans ?_ (ih _)
    show Keeps t ((eventfdWrite t x value).getD t)
    cases hw : eventfdWrite t x value with
    | none => exact Keeps.refl t
    | some u => exact Keeps.write hw

/-- A change elsewhere is not counted. -/
theorem tally_update_of_not_mem (h : fd∉fds) :
    tally p (Function.update t fd d) fds=tally p t fds := by
  refine List.countP_congr fun x hx => ?_
  have hne : x≠fd := fun he => h (he ▸ hx)
  rw [Function.update_of_ne hne]

/-- A change of one of the descriptors changes the count by that one. -/
theorem tally_update_of_mem (hn : fds.Nodup) (h : fd∈fds) :
    tally p (Function.update t fd d) fds+(if p (t fd) then 1 else 0)=
      tally p t fds+if p d then 1 else 0 := by
  induction fds with
  | nil => exact absurd h List.not_mem_nil
  | cons x l ih =>
    obtain ⟨hx,hl⟩ := List.nodup_cons.mp hn
    simp only [tally,List.countP_cons] at ih ⊢
    by_cases hfd : fd=x
    · subst hfd
      have hrest : tally p (Function.update t fd d) l=tally p t l := tally_update_of_not_mem hx
      simp only [tally] at hrest
      simp only [hrest,Function.update_self]
      omega
    · have hmem : fd∈l := by simpa [hfd] using h
      have hrest := ih hl hmem
      rw [Function.update_of_ne (Ne.symm hfd)]
      omega

/-- Counting one more descriptor. -/
theorem tally_concat : tally p t (fds++[fd])=tally p t fds+if p (t fd) then 1 else 0 := by
  simp only [tally,List.countP_append,List.countP_singleton]

/-- A descriptor that leaves the list takes its share with it. -/
theorem tally_erase (h : fd∈fds) :
    tally p t (fds.erase fd)+(if p (t fd) then 1 else 0)=tally p t fds := by
  have hperm := (List.perm_cons_erase h).countP_eq fun x => p (t x)
  simp only [List.countP_cons] at hperm
  exact hperm.symm

/-- The silent descriptors are those with the counter 0. -/
theorem mem_silent : fd∈silent t fds ↔ fd∈fds ∧ t fd=some (.event 0) := by
  simp [silent]

/-- A change elsewhere leaves the silent counters alone. -/
theorem silent_update_of_not_mem (h : fd∉fds) :
    silent (Function.update t fd d) fds=silent t fds := by
  refine List.filter_congr fun x hx => ?_
  have hne : x≠fd := fun he => h (he ▸ hx)
  rw [Function.update_of_ne hne]

/-- A counter that is written to or closed is not silent any more. -/
theorem silent_update_of_ne (hn : fds.Nodup) (hd : d≠some (.event 0)) :
    silent (Function.update t fd d) fds=(silent t fds).erase fd := by
  rw [silent,silent,(hn.filter _).erase_eq_filter,List.filter_filter]
  refine List.filter_congr fun x _ => ?_
  by_cases hx : x=fd
  · simp [hx,hd]
  · simp [hx]

/-- One more silent descriptor. -/
theorem silent_concat_of_event (h : t fd=some (.event 0)) :
    silent t (fds++[fd])=silent t fds++[fd] := by
  simp [silent,List.filter_append,h]

/-- One descriptor leaves the list. -/
theorem silent_erase (hn : fds.Nodup) : silent t (fds.erase fd)=(silent t fds).erase fd := by
  rw [silent,silent,(hn.filter _).erase_eq_filter,hn.erase_eq_filter,List.filter_filter,
    List.filter_filter]
  exact List.filter_congr fun x _ => Bool.and_comm ..

section Owners

variable {α : Type*} {f : α → ℤ} {l : List α} {v : α}

/-- One of several owners of different descriptors leaves. -/
theorem map_filter_ne (h : (l.map f).Nodup) (x : ℤ) :
    (l.filter fun u => f u≠x).map f=(l.map f).erase x := by
  rw [h.erase_eq_filter,List.filter_map]
  refine congrArg _ (List.filter_congr fun u _ => ?_)
  simp [bne,beq_eq_decide]

/-- The element with a key and those with other keys. -/
theorem perm_cons_filter_ne (h : (l.map f).Nodup) (hv : v∈l) :
    l.Perm (v::l.filter fun u => f u≠f v) := by
  induction l with
  | nil => exact absurd hv List.not_mem_nil
  | cons u l ih =>
    obtain ⟨hu,hl⟩ := List.nodup_cons.mp h
    rcases List.mem_cons.mp hv with rfl|hv
    · have hall : l.filter (fun u => f u≠f v)=l :=
        List.filter_eq_self.mpr fun u hm => by
          simpa using fun (he : f u=f v) => hu (he ▸ List.mem_map_of_mem hm)
      rw [List.filter_cons_of_neg (by simp),hall]
    · have hne : f u≠f v := fun he => hu (he ▸ List.mem_map_of_mem hv)
      rw [List.filter_cons_of_pos (by simpa using hne)]
      exact ((ih hl hv).cons u).trans (.swap ..)

end Owners

end DycoCoroutine.EventFd
