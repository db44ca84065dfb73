import DycoCoroutine.RunInvariant
import DycoCoroutine.ScheduleState

/-!
# The signal mask of the scheduler

`dyco_signal_init` blocks the signals of a coroutine in the scheduler context and
keeps the mask that was in force there; `dyco_signal_destroy`, or the exit of the
coroutine, installs the kept mask as a whole. This undoes the right signals when
the coroutines undo their calls in the reverse order. In another order the signals
of a coroutine are let through while it waits for them.
-/

namespace DycoCoroutine.SignalMask

open ScheduleState RunInvariant

/-- SIGKILL and SIGSTOP, and the two signals that the C library keeps to itself.
They never enter a mask. -/
def unblockable : Finset ℕ := {9,19,32,33}

/-- SIGCHLD -/
def sigchld : ℕ := 17

/-- The first argument of `sigprocmask`. -/
inductive How
  | block
  | setmask

/-- The mask that `sigprocmask` leaves in force. -/
def sigprocmask (how : How) (set mask : Finset ℕ) : Finset ℕ :=
  match how with
  | .block => mask∪set\unblockable
  | .setmask => set\unblockable

/-- The part of the process that the signal functions share. Switching contexts
saves and restores the mask, so the mask of the scheduler context changes only by
schedule calls and in `freecoro` and `cp_return`. -/
structure Process where
  /-- The mask in force in the scheduler context. -/
  mask : Finset ℕ
  /-- `co->old_sigmask` -/
  oldSigmask : ℕ → Finset ℕ
  /-- COROUTINE_FLAGS_WAITSIGNAL -/
  waitsignal : ℕ → Bool
  /-- The calls of `dyco_signal_init` that have not been undone, latest first,
  each with its caller and the mask passed. -/
  pending : List (ℕ×Finset ℕ)
  /-- Whether `dyco_signal_waitchild` has been called. -/
  waited : Bool

/-- A process without signal users. -/
def newProcess (mask : Finset ℕ) : Process :=
  ⟨mask\unblockable,fun _ => ∅,fun _ => false,[],false⟩

/-- `dyco_schedcall_sigprocmask`: the call made in the scheduler context, and the
mask that was in force there. -/
def dycoSchedcallSigprocmask (s : Process) (how : How) (set : Finset ℕ) : Process×Finset ℕ :=
  ({s with mask := sigprocmask how set s.mask},s.mask)

/-- Block `set` and keep the mask that was in force in `co->old_sigmask`. -/
def blockSaving (s : Process) (c : ℕ) (set : Finset ℕ) : Process :=
  let (s,old) := dycoSchedcallSigprocmask s .block set
  {s with oldSigmask := Function.update s.oldSigmask c old}

/-- `dyco_signal_init` called by the current thread, where `signalfd` returns `fd`. -/
def dycoSignalInit (s : Process) (curr : Option ℕ) (set : Finset ℕ) (fd : ℤ) :
    Except Fault (ℤ×Process) :=
  match curr with
  | none => .ok (-1,s)
  | some c =>
    if s.waitsignal c then .ok (-1,s)
    else if fd=-1 then .error .must
    else
      let s := blockSaving s c set
      .ok (0,{s with
        waitsignal := Function.update s.waitsignal c true
        pending := (c,set)::s.pending})

/-- Clear WAITSIGNAL and install the kept mask. -/
def restore (s : Process) (c : ℕ) : Process :=
  let s := (dycoSchedcallSigprocmask s .setmask (s.oldSigmask c)).1
  {s with
    waitsignal := Function.update s.waitsignal c false
    pending := s.pending.filter (·.1≠c)}

/-- `dyco_signal_destroy` called by the current thread. -/
def dycoSignalDestroy (s : Process) : Option ℕ → Process
  | none => s
  | some c => if s.waitsignal c then restore s c else s

/-- `freecoro` or `cp_return` of an exited coroutine. -/
def freecoro (s : Process) (c : ℕ) : Process := if s.waitsignal c then restore s c else s

/-- `dyco_signal_waitchild` called by the current thread, up to its return or to
`yield`, where `waitpid` returns `ret`. The kept mask is not installed again after
the wait. -/
def dycoSignalWaitchild (s : Process) (curr : Option ℕ) (ret timeout fd : ℤ) :
    Except Fault (Option ℤ×Process) :=
  let s := {s with waited := true}
  if timeout=0 ∨ 0<ret then .ok (some ret,s)
  else match curr with
    | none => .ok (some (-1),s)
    | some c => if fd=-1 then .error .must else .ok (none,blockSaving s c {sigchld})

/-- What can happen next. -/
inductive Act
  /-- `dyco_signal_init` -/
  | init (curr : Option ℕ) (set : Finset ℕ) (fd : ℤ)
  /-- `dyco_signal_destroy` -/
  | destroy (curr : Option ℕ)
  /-- `dyco_signal_waitchild` -/
  | waitchild (curr : Option ℕ) (ret timeout fd : ℤ)
  /-- A coroutine exits. -/
  | exit (c : ℕ)

/-- One step of the process. -/
def step (s : Process) : Act → Option (Except Fault Process)
  | .init curr set fd => some ((dycoSignalInit s curr set fd).map Prod.snd)
  | .destroy curr => some (.ok (dycoSignalDestroy s curr))
  | .waitchild curr ret timeout fd => some ((dycoSignalWaitchild s curr ret timeout fd).map Prod.snd)
  | .exit c => some (.ok (freecoro s c))

/-- The states that the process can reach when every step meets `cond`. -/
def Reachable (mask : Finset ℕ) (cond : Process → Act → Prop) (s : Process) : Prop :=
  Runs step cond (newProcess mask) s

/-- No later call of `dyco_signal_init` is pending when `c` undoes its own. -/
def latest (s : Process) (c : ℕ) : Bool :=
  !s.waitsignal c || s.pending.head?.map Prod.fst=some c

/-- Calls of `dyco_signal_init` are undone in the reverse order. -/
def lastFirst (s : Process) : Act → Bool
  | .destroy (some c) => latest s c
  | .exit c => latest s c
  | _ => true

/-- Every signal of a pending call is blocked, and without pending calls and
waits for children the mask is the one that was in force at the start. -/
structure Masked (start : Finset ℕ) (s : Process) : Prop where
  covers : ∀ p∈s.pending,p.2\unblockable⊆s.mask
  restored : s.pending=[] → s.waited=false → s.mask=start

/-- The kept masks are nested like the pending calls. -/
structure Stacked (s : Process) : Prop where
  flags : ∀ c,s.waitsignal c=true ↔ c∈s.pending.map Prod.fst
  callers : (s.pending.map Prod.fst).Nodup
  covers : ∀ p∈s.pending,p.2\unblockable⊆s.mask
  /-- A kept mask blocks the signals of all earlier calls. -/
  below : s.pending.Pairwise fun p q => q.2\unblockable⊆s.oldSigmask p.1
  blockable : Disjoint s.mask unblockable
  blockableOld : ∀ p∈s.pending,Disjoint (s.oldSigmask p.1) unblockable

/-- The mask that the oldest pending call has kept. -/
def bottom (s : Process) : Finset ℕ := s.pending.getLast?.elim s.mask fun p => s.oldSigmask p.1

/-- As long as nobody has waited for a child, undoing all calls leads back to the
mask that was in force at the start. -/
structure Nested (start : Finset ℕ) (s : Process) : Prop extends Stacked s where
  bottom : s.waited=false → bottom s=start

variable {s t : Process} {a : Act} {c : ℕ} {set start mask : Finset ℕ} {cond : Process → Act → Prop}

theorem Nested.masked (h : Nested start s) : Masked start s where
  covers := h.covers
  restored hp hw := by
    have hb := h.bottom hw
    rwa [SignalMask.bottom,hp] at hb

theorem blockSaving_oldSigmask (s : Process) (c d : ℕ) (set : Finset ℕ) :
    (blockSaving s c set).oldSigmask d=if d=c then s.mask else s.oldSigmask d := by
  simp only [blockSaving,dycoSchedcallSigprocmask,Function.update_apply]

/-- More signals are blocked, and `c` keeps the mask that was in force. -/
theorem Stacked.blockSaving (h : Stacked s) : Stacked (blockSaving s c set) := by
  have hsub : s.mask⊆(SignalMask.blockSaving s c set).mask := Finset.subset_union_left
  refine ⟨h.flags,h.callers,fun p hp => (h.covers p hp).trans hsub,?_,?_,fun p hp => ?_⟩
  · refine h.below.imp_of_mem fun {p q} _ hq hpq => ?_
    rw [blockSaving_oldSigmask]
    split_ifs
    · exact h.covers q hq
    · exact hpq
  · exact Finset.disjoint_union_left.mpr ⟨h.blockable,Finset.sdiff_disjoint⟩
  · rw [blockSaving_oldSigmask]
    split_ifs
    · exact h.blockable
    · exact h.blockableOld p hp

/-- A new call is put on top. -/
theorem Nested.init (h : Nested start s) (hc : s.waitsignal c=false) :
    Nested start {blockSaving s c set with
      waitsignal := Function.update s.waitsignal c true
      pending := (c,set)::s.pending} := by
  have hs : Stacked (blockSaving s c set) := h.toStacked.blockSaving
  have hnew : c∉s.pending.map Prod.fst := by
    rw [← h.flags,hc]
    exact Bool.false_ne_true
  refine ⟨⟨fun d => ?_,List.nodup_cons.mpr ⟨hnew,h.callers⟩,fun p hp => ?_,
    List.pairwise_cons.mpr ⟨fun q hq => ?_,hs.below⟩,hs.blockable,fun p hp => ?_⟩,fun hw => ?_⟩
  · show Function.update s.waitsignal c true d=true ↔ d∈((c,set)::s.pending).map Prod.fst
    rw [Function.update_apply,List.map_cons,List.mem_cons]
    split_ifs with hd
    · exact iff_of_true rfl (.inl hd)
    · rw [h.flags,or_iff_right hd]
  · rcases List.mem_cons.mp hp with rfl|hp
    · exact Finset.subset_union_right
    · exact hs.covers p hp
  · rw [blockSaving_oldSigmask,if_pos rfl]
    exact h.covers q hq
  · rcases List.mem_cons.mp hp with rfl|hp
    · rw [blockSaving_oldSigmask,if_pos rfl]
      exact h.blockable
    · exact hs.blockableOld p hp
  · have hb : SignalMask.bottom s=start := h.bottom hw
    rw [← hb]
    -- the new call is the oldest one only if no other was pending
    cases hp : s.pending.getLast? with
    | none =>
      rw [List.getLast?_eq_none_iff] at hp
      simp [SignalMask.bottom,hp,blockSaving_oldSigmask]
    | some p =>
      have hpc : p.1≠c := fun he => hnew (he ▸ List.mem_map_of_mem (List.mem_of_getLast? hp))
      simp [SignalMask.bottom,List.getLast?_cons,hp,blockSaving_oldSigmask,hpc]

/-- The latest call is undone. -/
theorem Nested.restore (h : Nested start s) (hl : latest s c=true) (hc : s.waitsignal c=true) :
    Nested start (restore s c) := by
  have hhead : s.pending.head?.map Prod.fst=some c := by simpa [latest,hc] using hl
  obtain ⟨p,hp,rfl⟩ := Option.map_eq_some_iff.mp hhead
  obtain ⟨rest,hrest⟩ := List.head?_eq_some_iff.mp hp
  have hcallers := h.callers
  have hbelow := h.below
  rw [hrest,List.map_cons,List.nodup_cons] at hcallers
  rw [hrest,List.pairwise_cons] at hbelow
  have hold : Disjoint (s.oldSigmask p.1) unblockable :=
    h.blockableOld p (hrest ▸ List.mem_cons_self)
  have hmask : (SignalMask.restore s p.1).mask=s.oldSigmask p.1 :=
    Finset.sdiff_eq_self_of_disjoint hold
  have hpend : (SignalMask.restore s p.1).pending=rest := by
    have hne : ∀ q∈rest,q.1≠p.1 := fun q hq he => hcallers.1 (he ▸ List.mem_map_of_mem hq)
    show s.pending.filter (·.1≠p.1)=rest
    rw [hrest,List.filter_cons_of_neg (by simp)]
    exact List.filter_eq_self.mpr fun q hq => decide_eq_true (hne q hq)
  refine ⟨⟨fun d => ?_,hpend ▸ hcallers.2,fun q hq => ?_,hpend ▸ hbelow.2,hmask ▸ hold,
    fun q hq => ?_⟩,fun hw => ?_⟩
  · show Function.update s.waitsignal p.1 false d=true ↔ _
    rw [hpend,Function.update_apply]
    split_ifs with hd
    · exact iff_of_false not_false (hd ▸ hcallers.1)
    · rw [h.flags,hrest,List.map_cons,List.mem_cons,or_iff_right hd]
  · rw [hmask]
    exact hbelow.1 q (hpend ▸ hq)
  · exact h.blockableOld q (hrest ▸ List.mem_cons_of_mem _ (hpend ▸ hq))
  · have hb : SignalMask.bottom s=start := h.bottom hw
    rw [SignalMask.bottom,hrest,List.getLast?_cons] at hb
    rw [SignalMask.bottom,hpend,hmask,← hb]
    cases rest.getLast? with
    | none => rfl
    | some q => rfl

/-- One step that undoes calls in the reverse order. -/
theorem Nested.step (h : Nested start s) (hf : lastFirst s a=true)
    (ha : step s a=some (.ok t)) : Nested start t := by
  cases a with
  | init curr set fd =>
    obtain ⟨⟨ret,t⟩,hi,rfl⟩ := map_eq_ok (Option.some.inj ha)
    cases curr with
    | none =>
      cases hi
      exact h
    | some c =>
      simp only [dycoSignalInit] at hi
      split_ifs at hi with hc
      · cases hi
        exact h
      · cases hi
        exact h.init (Bool.eq_false_of_not_eq_true hc)
  | destroy curr =>
    cases ha
    cases curr with
    | none => exact h
    | some c =>
      simp only [dycoSignalDestroy]
      split_ifs with hc
      · exact h.restore hf hc
      · exact h
  | waitchild curr ret timeout fd =>
    obtain ⟨⟨ret',t⟩,hi,rfl⟩ := map_eq_ok (Option.some.inj ha)
    have hs : Stacked {s with waited := true} :=
      ⟨h.flags,h.callers,h.covers,h.below,h.blockable,h.blockableOld⟩
    simp only [dycoSignalWaitchild] at hi
    by_cases hret : timeout=0 ∨ 0<ret
    · rw [if_pos hret] at hi
      cases hi
      exact ⟨hs,fun hw => by cases hw⟩
    rw [if_neg hret] at hi
    cases curr with
    | none =>
      cases hi
      exact ⟨hs,fun hw => by cases hw⟩
    | some c =>
      simp only at hi
      split_ifs at hi
      cases hi
      exact ⟨hs.blockSaving,fun hw => by cases hw⟩
  | exit c =>
    cases ha
    simp only [freecoro]
    split_ifs with hc
    · exact h.restore hf hc
    · exact h

theorem nested_newProcess (mask : Finset ℕ) : Nested (newProcess mask).mask (newProcess mask) where
  flags _ := iff_of_false Bool.false_ne_true List.not_mem_nil
  callers := .nil
  covers _ hp := absurd hp List.not_mem_nil
  below := .nil
  blockable := Finset.sdiff_disjoint
  blockableOld _ hp := absurd hp List.not_mem_nil
  bottom _ := rfl

/-- In every run in which calls of `dyco_signal_init` are undone, by
`dyco_signal_destroy` or by an exit, in the reverse order: the scheduler blocks
every signal of each pending call, and once there is none, and nobody has called
`dyco_signal_waitchild`, the mask is the one in force before the first call. -/
theorem mask_covers_pending (h : Reachable mask (fun s a => lastFirst s a=true) s) :
    Masked (newProcess mask).mask s :=
  (h.invariant (Nested (newProcess mask).mask) (nested_newProcess mask)
    fun _ _ _ hi hf ha => hi.step hf ha).masked

/-- Two coroutines wait for a signal each, SIGUSR1 and SIGUSR2, and the first to
come is the first to leave. -/
def firstLeaves : List Act := [.init (some 0) {10} 5,.init (some 1) {12} 6,.destroy (some 0)]

/-- The second coroutine still waits, but its signal is no longer blocked; and
when it leaves too, the signal of the first is blocked for good. -/
theorem overlapping_calls_unmask :
    (∃ s,Reachable ∅ (fun _ _ => True) s ∧ s.pending=[(1,{12})] ∧ 12∉s.mask) ∧
    ∃ s,Reachable ∅ (fun _ _ => True) s ∧ s.pending=[] ∧ s.waited=false ∧ s.mask={10} := by
  have h : (replay step (newProcess ∅) firstLeaves).map (fun s => (s.pending,s.mask))=
      some ([(1,{12})],∅) := by decide +kernel
  have h' : (replay step (newProcess ∅) (firstLeaves++[.exit 1])).map
      (fun s => (s.pending,s.waited,s.mask))=some ([],false,{10}) := by decide +kernel
  obtain ⟨s,hs,hq⟩ := Option.map_eq_some_iff.mp h
  obtain ⟨s',hs',hq'⟩ := Option.map_eq_some_iff.mp h'
  simp only [Prod.mk.injEq] at hq hq'
  exact ⟨⟨s,runs_of_replay hs,hq.1,hq.2 ▸ Finset.notMem_empty 12⟩,s',runs_of_replay hs',hq'⟩

/-- The same coroutines leave in the reverse order. -/
theorem mask_covers_pending_nestedCalls :
    ∃ s,Reachable ∅ (fun s a => lastFirst s a=true) s ∧ s.pending=[(0,{10})] ∧
      Masked (newProcess ∅).mask s := by
  have h : (replayWhile step (fun s a => lastFirst s a=true) (newProcess ∅)
      [.init (some 0) {10} 5,.init (some 1) {12} 6,.exit 1]).map Process.pending=
      some [(0,{10})] := by decide +kernel
  obtain ⟨s,hs,hq⟩ := Option.map_eq_some_iff.mp h
  exact ⟨s,runs_of_replayWhile hs,hq,mask_covers_pending (runs_of_replayWhile hs)⟩

end DycoCoroutine.SignalMask
