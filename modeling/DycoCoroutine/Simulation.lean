import DycoCoroutine.RunInvariant

/-!
# A concrete machine answers an abstract one

A computation answers another one if it yields a related result, or the fault
that stands for the other's fault. A fault that stands for nothing marks what
the abstract machine leaves undefined. The rules follow the sequences of a
computation, and a last one carries the relation over whole runs.
-/

namespace DycoCoroutine.Simulation

open RunInvariant

universe u v

variable {α γ : Type u} {β δ : Type v} {ε ε' : Type*} {fault : ε → Option ε'}
  {R : α → β → Prop} {S : γ → δ → Prop}

/-- The concrete computation yields a result related to the abstract one, or the
fault that stands for the abstract one. -/
def Answers (fault : ε → Option ε') (R : α → β → Prop) (r : Except ε' α) : Except ε β → Prop
  | .ok b => ∃ a,r=.ok a ∧ R a b
  | .error e => ∀ e',fault e=some e' → r=.error e'

theorem Answers.ok {a : α} {b : β} (h : R a b) : Answers fault R (.ok a) (.ok b) := ⟨a,rfl,h⟩

theorem Answers.error {e : ε} {e' : ε'} (h : fault e=some e') :
    Answers fault R (.error e') (.error e) := by
  intro e'' he
  rw [Option.some.inj (h.symm.trans he)]

theorem answers_of_undefined {e : ε} {r : Except ε' α} (h : fault e=none) :
    Answers fault R r (.error e) := by
  intro e' he
  rw [h] at he
  cases he

/-- The rule for a sequence. -/
theorem Answers.bind {r : Except ε' α} {q : Except ε β} {f : α → Except ε' γ}
    {g : β → Except ε δ} (h : Answers fault R r q)
    (hf : ∀ a b,q=.ok b → R a b → Answers fault S (f a) (g b)) :
    Answers fault S (r>>=f) (q>>=g) := by
  cases q with
  | ok b =>
    obtain ⟨a,rfl,hab⟩ := h
    exact hf a b rfl hab
  | error e =>
    intro e' he
    rw [h e' he]
    rfl

/-- The concrete step is refused with the abstract one, and answers it otherwise. -/
def StepAnswers (fault : ε → Option ε') (R : α → β → Prop) :
    Option (Except ε' α) → Option (Except ε β) → Prop
  | some r,some q => Answers fault R r q
  | none,none => True
  | _,_ => False

variable {Act : Type*} {step' : α → Act → Option (Except ε' α)}
  {step : β → Act → Option (Except ε β)} {cond : β → Act → Prop}

/-- A concrete machine whose steps answer can repeat every run. -/
theorem replay_of_answers [∀ s a,Decidable (cond s a)] {s t : β} {k : α} {acts : List Act}
    (hstep : ∀ u k a,Runs step cond s u → R k u → cond u a →
      StepAnswers fault R (step' k a) (step u a))
    (hr : R k s) (h : replayWhile step cond s acts=some t) :
    ∃ k',replay step' k acts=some k' ∧ R k' t := by
  suffices hgen : ∀ u k,Runs step cond s u → R k u → replayWhile step cond u acts=some t →
      ∃ k',replay step' k acts=some k' ∧ R k' t from hgen s k .refl hr h
  clear h hr k
  induction acts with
  | nil =>
    intro u k _ hr h
    cases h
    exact ⟨k,rfl,hr⟩
  | cons a rest ih =>
    intro u k hruns hr h
    rw [replayWhile] at h
    split_ifs at h with hc
    split at h
    · next v ha =>
      have hans := hstep u k a hruns hr hc
      rw [ha] at hans
      cases hk : step' k a with
      | none =>
        rw [hk] at hans
        cases hans
      | some r =>
        rw [hk] at hans
        obtain ⟨k₁,rfl,hr₁⟩ := hans
        obtain ⟨k',hk',hr'⟩ := ih v k₁ (hruns.tail hc ha) hr₁ h
        refine ⟨k',?_,hr'⟩
        rw [replay,hk]
        exact hk'
    · cases h

section Projection

variable {σ τ A B : Type*} {next : σ → A → Option (Except ε σ)}
  {next' : τ → B → Option (Except ε' τ)} {ok : σ → A → Prop} {ok' : τ → B → Prop}

/-- A machine each step of which is a run of another machine, as seen through `f`. An
invariant may be proved along with it. -/
theorem runs_of_projection (f : σ → τ) (inv : σ → Prop) {s t : σ} (hs : inv s)
    (hstep : ∀ u a v,inv u → ok u a → next u a=some (.ok v) →
      inv v ∧ Runs next' ok' (f u) (f v)) (h : Runs next ok s t) :
    inv t ∧ Runs next' ok' (f s) (f t) := by
  induction h with
  | refl => exact ⟨hs,.refl⟩
  | tail _ hc ha ih =>
    obtain ⟨hinv,hrun⟩ := hstep _ _ _ ih.1 hc ha
    exact ⟨hinv,ih.2.trans hrun⟩

end Projection

end DycoCoroutine.Simulation
