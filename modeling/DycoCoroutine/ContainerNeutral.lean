import DycoCoroutine.ScheduleRun

/-!
# Operations that touch no container

Most operations of the scheduler neither read nor write the sleeping tree and
the ready queues: they commute with every change of these containers. This
holds of sequences, case distinctions and folds of such operations, up to the
release of a coroutine and the abort of the whole scheduler.
-/

namespace DycoCoroutine.ContainerNeutral

open ScheduleState

/-- The scheduler with these containers in place of its own. -/
def withLists (s : Sched) (urgent ready sleeping : List Co) : Sched :=
  {s with urgentReady := urgent,ready := ready,sleeping := sleeping}

/-- The operation commutes with a change of the containers, where `act` says what the
change is for its results. -/
def Commutes {γ : Type} (act : (Sched → Sched) → γ → γ) (f : Sched → γ) : Prop :=
  ∀ s u r l,f (withLists s u r l)=act (withLists · u r l) (f s)

/-- An operation that touches no container. -/
abbrev Neutral (f : Sched → Sched) : Prop := Commutes id f

/-- The same for an operation that can end the process. -/
abbrev Plain (f : Sched → Except ScheduleState.Fault Sched) : Prop := Commutes Except.map f

section Commutes

variable {γ : Type} {act : (Sched → Sched) → γ → γ} {f g : Sched → γ}

/-- A branch on what the lists do not decide commutes when both sides do. -/
theorem Commutes.ite {p : Sched → Prop} [DecidablePred p]
    (hp : ∀ s u r l,p (withLists s u r l) ↔ p s) (hf : Commutes act f) (hg : Commutes act g) :
    Commutes act fun s => if p s then f s else g s := by
  intro s u r l
  by_cases h : p s
  · simp only [if_pos h,if_pos ((hp s u r l).mpr h)]
    exact hf s u r l
  · simp only [if_neg h,if_neg (fun h' => h ((hp s u r l).mp h'))]
    exact hg s u r l

/-- An update of the other fields may run first. -/
theorem Commutes.comp {g : Sched → Sched} (hf : Commutes act f) (hg : Neutral g) :
    Commutes act fun s => f (g s) := by
  intro s u r l
  show f (g (withLists s u r l))=_
  rw [hg]
  exact hf (g s) u r l

/-- An operation that reads a part of the scheduler before it starts. -/
theorem Commutes.read {β : Type} {f : β → Sched → γ} {p : Sched → β}
    (hf : ∀ b,Commutes act (f b)) (hp : ∀ s u r l,p (withLists s u r l)=p s) :
    Commutes act fun s => f (p s) s := by
  intro s u r l
  show f (p (withLists s u r l)) _=_
  rw [hp]
  exact hf (p s) s u r l

end Commutes

/-- Two such operations in a row are one: a fault of either ends the sequence at the
same place. -/
theorem Plain.bind {f g : Sched → Except ScheduleState.Fault Sched} (hf : Plain f)
    (hg : Plain g) : Plain fun s => f s>>=g := by
  intro s u r l
  show f (withLists s u r l)>>=g=(f s>>=g).map _
  rw [hf]
  cases f s with
  | error e => rfl
  | ok t => exact hg t u r l

/-- The containers are left as they are. -/
theorem Plain.containers {f : Sched → Except ScheduleState.Fault Sched} {s t : Sched}
    (hf : Plain f) (h : f s=.ok t) :
    t.urgentReady=s.urgentReady ∧ t.ready=s.ready ∧ t.sleeping=s.sleeping := by
  have hown := hf s s.urgentReady s.ready s.sleeping
  rw [h] at hown
  have heq : t=withLists t s.urgentReady s.ready s.sleeping := Except.ok.inj (h.symm.trans hown)
  rw [heq]
  exact ⟨rfl,rfl,rfl⟩

/-- An update of the other fields is an operation that never faults. -/
theorem plain_ok {f : Sched → Sched} (hf : Neutral f) : Plain fun s => .ok (f s) :=
  fun s u r l => congrArg Except.ok (hf s u r l)

/-- Faulting at once reads no list. -/
theorem plain_error (e : ScheduleState.Fault) : Plain fun _ => .error e := fun _ _ _ _ => rfl

/-- Adding a descriptor to the poller touches no list. -/
theorem plain_epollCtlAdd (fd : ℤ) : Plain (ScheduleOps.epollCtlAdd · fd) :=
  .ite (fun _ _ _ _ => Iff.rfl) (plain_ok fun _ _ _ _ => rfl) (plain_error _)

/-- Deleting a descriptor from the poller touches no list. -/
theorem plain_epollCtlDel (fd : ℤ) : Plain (ScheduleOps.epollCtlDel · fd) :=
  .ite (fun _ _ _ _ => Iff.rfl) (plain_ok fun _ _ _ _ => rfl) (plain_error _)

/-- `schedule_cancel_wait` works on the map of descriptors and the waiting set alone. -/
theorem plain_scheduleCancelWait (c : Co) (fd : ℤ) :
    Plain (ScheduleOps.scheduleCancelWait · c fd) :=
  .ite (fun _ _ _ _ => Iff.rfl) ((plain_epollCtlDel fd).comp fun _ _ _ _ => rfl)
    (plain_ok fun _ _ _ _ => rfl)

/-- `schedule_sched_wait` works on the map of descriptors and the waiting set alone. -/
theorem plain_scheduleSchedWait (c : Co) (fd : ℤ) :
    Plain (ScheduleOps.scheduleSchedWait · c fd) :=
  (plain_epollCtlAdd fd).bind (plain_ok fun _ _ _ _ => rfl)

/-- Entering a coroutine into the map of cids touches no list. -/
theorem plain_register (c : Co) : Plain (ScheduleOps.register · c) :=
  .ite (fun _ _ _ _ => Iff.rfl) (plain_error _) (plain_ok fun _ _ _ _ => rfl)

/-- Closing the private poller of a coroutine touches no list. -/
theorem plain_takeDownEpoll (c : Co) : Plain (ScheduleOps.takeDownEpoll · c) := by
  have hclose : Plain fun s => .ok (ScheduleOps.closeFd s (s.co c).epollfd) :=
    plain_ok fun _ _ _ _ => rfl
  have hdel : Plain fun s => ScheduleOps.epollCtlDel s (s.co c).epollfd :=
    Commutes.read plain_epollCtlDel fun _ _ _ _ => rfl
  have hcancel : Plain fun s => ScheduleOps.scheduleCancelWait s c (s.co c).epollfd :=
    Commutes.read (plain_scheduleCancelWait c) fun _ _ _ _ => rfl
  exact .ite (fun _ _ _ _ => Iff.rfl) (hcancel.bind (hdel.bind hclose))
    (plain_ok fun _ _ _ _ => rfl)

/-- Closing the signal descriptor of a coroutine touches no list. -/
theorem neutral_takeDownSignal (c : Co) : Neutral (ScheduleOps.takeDownSignal · c) :=
  .ite (fun _ _ _ _ => Iff.rfl) (fun _ _ _ _ => rfl) fun _ _ _ _ => rfl

/-- What `freecoro` and `cp_return` do alike touches no list. -/
theorem plain_releaseCoro (c : Co) : Plain (ScheduleOps.releaseCoro · c) :=
  .ite (fun _ _ _ _ => Iff.rfl) (plain_error _)
    (((plain_takeDownEpoll c).bind (plain_ok (neutral_takeDownSignal c))).comp
      fun _ _ _ _ => rfl)

/-- `freecoro` touches no list, not even when its coroutine is still queued. -/
theorem plain_freecoro (c : Co) : Plain (ScheduleOps.freecoro · c) :=
  (plain_releaseCoro c).bind (plain_ok fun _ _ _ _ => rfl)

/-- `cp_return` touches no list, not even when its coroutine is still queued. -/
theorem plain_cpReturn (c : Co) : Plain (ScheduleOps.cpReturn · c) := by
  intro s u r l
  have hpool : ((withLists s u r l).co c).cpool=(s.co c).cpool := rfl
  simp only [ScheduleOps.cpReturn,hpool]
  cases (s.co c).cpool with
  | none => rfl
  | some p => exact (plain_releaseCoro c).bind (plain_ok fun _ _ _ _ => rfl) s u r l

/-- The callback of the abort touches no list. -/
theorem plain_coroAbort (c : Co) : Plain (ScheduleOps.coroAbort · c) :=
  .ite (fun _ _ _ _ => Iff.rfl) (plain_cpReturn c) (plain_freecoro c)

/-- The deletion of a killed coroutine looks at `cid_co_map` and releases the coroutine. -/
theorem plain_cidDeleteWithAbort (cid : ℤ) : Plain (ScheduleOps.cidDeleteWithAbort · cid) := by
  intro s u r l
  have hmap : (withLists s u r l).cidCoMap=s.cidCoMap := rfl
  simp only [ScheduleOps.cidDeleteWithAbort,hmap]
  cases s.cidCoMap.lookup cid with
  | none => rfl
  | some c =>
    dsimp only
    split_ifs
    · rfl
    · exact (plain_coroAbort c).bind (plain_ok fun _ _ _ _ => rfl) s u r l

/-- The clearing of a chain, by induction on its nodes. -/
theorem plain_clearChain (nodes : List (Σ _ : ℤ,Co)) : Plain (ScheduleOps.clearChain nodes) := by
  induction nodes with
  | nil => exact plain_ok fun _ _ _ _ => rfl
  | cons e rest ih =>
    exact (plain_coroAbort e.2).bind (.ite (fun _ _ _ _ => Iff.rfl) (fun _ _ _ _ => rfl) ih)

/-- The clearing of a slot. -/
theorem plain_clearSlot (i : ℕ) : Plain (ScheduleOps.clearSlot · i) := by
  intro s u r l
  have hmap : (withLists s u r l).cidCoMap=s.cidCoMap := rfl
  simp only [ScheduleOps.clearSlot,hmap]
  cases SlottedMap.chain ScheduleState.cidSlot s.cidCoMap i with
  | nil => rfl
  | cons e rest =>
    exact (plain_coroAbort e.2).bind
      (Commutes.read plain_clearChain fun _ _ _ _ => rfl) s u r l

/-- The clearing of several slots. -/
theorem plain_foldlM (slots : List ℕ) : Plain (slots.foldlM ScheduleOps.clearSlot) := by
  induction slots with
  | nil => exact plain_ok fun _ _ _ _ => rfl
  | cons i slots ih => exact (plain_clearSlot i).bind ih

/-- The abort of the scheduler touches no container either. -/
theorem plain_scheduleAbort : Plain ScheduleOps.scheduleAbort := by
  have hall : Plain ScheduleOps.cidClearWithAbort :=
    Commutes.read plain_foldlM fun _ _ _ _ => rfl
  exact hall.bind (plain_ok fun _ _ _ _ => rfl)

/-- Filling a new pool touches no list. -/
theorem neutral_cpFill (p stacksize n : ℕ) : Neutral (ScheduleOps.cpFill p stacksize n) := by
  induction n with
  | zero => exact fun _ _ _ _ => rfl
  | succ n ih => exact fun s => ih (ScheduleOps.cpAdd s p stacksize)

/-- Giving the context back to the loop touches no list. -/
theorem neutral_yield (c : Co) (depth : ℕ×ℕ) (k : Cont) :
    Neutral (ScheduleOps.yield · c depth k) := by
  have hsave : Neutral (ScheduleOps.savestk · c depth.2) :=
    .ite (fun _ _ _ _ => Iff.rfl) (fun _ _ _ _ => rfl) fun _ _ _ _ => rfl
  have hkeep : Neutral fun s => if (s.co c).statusExited then s
      else ScheduleOps.savestk s c depth.2 :=
    .ite (fun _ _ _ _ => Iff.rfl) (fun _ _ _ _ => rfl) hsave
  refine .ite (p := fun s => ScheduleOps.checkstk s c depth.1=true) (fun _ _ _ _ => Iff.rfl)
    (fun _ _ _ _ => rfl) fun s u r l => ?_
  exact congrArg (Sched.setCo · c _) (hkeep s u r l)

/-- `dyco_coroutine_setUrgent` sets a flag and moves no queued coroutine. -/
theorem plain_setUrgent (cid : ℤ) (urgent : Bool) :
    Plain (ScheduleRun.dycoCoroutineSetUrgent · cid urgent) := by
  intro s u r l
  have hstatus : (withLists s u r l).status=s.status := rfl
  have hlookup : (withLists s u r l).cidCoMap.lookup cid=s.cidCoMap.lookup cid := rfl
  simp only [ScheduleRun.dycoCoroutineSetUrgent,hstatus,hlookup]
  split_ifs
  · rfl
  · cases s.cidCoMap.lookup cid <;> rfl

/-- Entering `dyco_schedule_run` looks at no list before its first round. -/
theorem plain_dycoScheduleRun : Plain ScheduleRun.dycoScheduleRun := by
  intro s u r l
  have hstatus : (withLists s u r l).status=s.status := rfl
  simp only [ScheduleRun.dycoScheduleRun,hstatus]
  cases s.status <;> rfl

/-- A step that touches no container. -/
abbrev PlainStep (f : Sched → Option (Except ScheduleState.Fault Sched)) : Prop :=
  Commutes (fun change => Option.map (Except.map change)) f

section PlainStep

/-- A call that is not possible here is so whatever the lists are. -/
theorem plainStep_none : PlainStep fun _ => none := fun _ _ _ _ => rfl

/-- What the program outside the loop calls keeps its form. -/
theorem Plain.inProgram {f : Sched → Except ScheduleState.Fault Sched} (hf : Plain f) :
    PlainStep fun s => ScheduleRun.inProgram s (f s) :=
  .ite (fun _ _ _ _ => Iff.rfl) (fun s u r l => congrArg some (hf s u r l)) plainStep_none

/-- What a running coroutine calls keeps its form. -/
theorem plainStep_inCoroutine {f : Co → Sched → Except ScheduleState.Fault Sched}
    (hf : ∀ c,Plain (f c)) : PlainStep fun s => ScheduleRun.inCoroutine s (f · s) := by
  intro s u r l
  have hpc : (withLists s u r l).pc=s.pc := rfl
  have hthread : (withLists s u r l).currThread=s.currThread := rfl
  simp only [ScheduleRun.inCoroutine,hpc,hthread]
  cases s.pc with
  | inCo urgent last idx =>
    cases s.currThread with
    | none => rfl
    | some c => exact congrArg some (hf c s u r l)
  | _ => rfl

/-- A call that touches no container. -/
def needsNoContainer : ScheduleRun.Act → Bool
  | .poolCreate _ _ _ | .setUrgent _ _ | .openFd _ | .closeFd _ | .run | .epollInit _
  | .epollDestroy | .signalInit _ | .signalDestroy => true
  | _ => false

/-- Every call marked as needing no container does the same over any lists. -/
theorem plainStep_of_needsNoContainer {a : ScheduleRun.Act} (h : needsNoContainer a=true) :
    PlainStep (ScheduleRun.step · a) := by
  cases a with
  | poolCreate p totalsize stacksize =>
    have hfill : Neutral (ScheduleOps.cpCreate · p totalsize stacksize) :=
      .ite (fun _ _ _ _ => Iff.rfl) (fun _ _ _ _ => rfl)
        ((neutral_cpFill p stacksize _).comp fun _ _ _ _ => rfl)
    exact .ite (fun _ _ _ _ => Iff.rfl) (plain_ok hfill).inProgram plainStep_none
  | setUrgent cid urgent => exact (plain_setUrgent cid urgent).inProgram
  | openFd fd =>
    exact .ite (fun _ _ _ _ => Iff.rfl) (Plain.inProgram (plain_ok fun _ _ _ _ => rfl))
      plainStep_none
  | closeFd fd => exact Plain.inProgram (plain_ok fun _ _ _ _ => rfl)
  | run => exact plain_dycoScheduleRun.inProgram
  | epollInit fd =>
    refine .ite (fun _ _ _ _ => Iff.rfl) (plainStep_inCoroutine fun c => ?_) plainStep_none
    exact plain_ok (.ite (fun _ _ _ _ => Iff.rfl) (fun _ _ _ _ => rfl) fun _ _ _ _ => rfl)
  | epollDestroy =>
    exact plainStep_inCoroutine fun c =>
      plain_ok (.ite (fun _ _ _ _ => Iff.rfl) (fun _ _ _ _ => rfl) fun _ _ _ _ => rfl)
  | signalInit fd =>
    refine .ite (fun _ _ _ _ => Iff.rfl) (plainStep_inCoroutine fun c => ?_) plainStep_none
    exact plain_ok (.ite (fun _ _ _ _ => Iff.rfl) (fun _ _ _ _ => rfl) fun _ _ _ _ => rfl)
  | signalDestroy =>
    exact plainStep_inCoroutine fun c =>
      plain_ok (.ite (fun _ _ _ _ => Iff.rfl) (fun _ _ _ _ => rfl) fun _ _ _ _ => rfl)
  | _ => cases h

end PlainStep

end DycoCoroutine.ContainerNeutral
