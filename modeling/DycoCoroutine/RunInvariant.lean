import Mathlib.Tactic

/-!
# Runs of a partial machine under a step condition

A machine is a step function that refuses an action, ends the process with a
fault, or moves to a next state. Runs record that every action met a chosen
condition in the state in which it was taken. One rule carries an invariant
over whole runs; another replays a literal list of actions as a run. The
state, action and fault types are arbitrary.
-/

namespace DycoCoroutine.RunInvariant

universe u

variable {State Act Fault : Type*}

/-- The states reached from `s` when every action taken meets `cond` in the
state in which it is taken. Faults end a run and reach no state. -/
inductive Runs (step : State → Act → Option (Except Fault State))
    (cond : State → Act → Prop) (s : State) : State → Prop
  | refl : Runs step cond s s
  | tail {t u : State} {a : Act} : Runs step cond s t → cond t a →
      step t a = some (.ok u) → Runs step cond s u

variable {step : State → Act → Option (Except Fault State)} {cond : State → Act → Prop}
  {s t u : State}

/-- A property kept by every conditioned step holds after every conditioned run. -/
theorem Runs.invariant (inv : State → Prop) (hs : inv s)
    (hstep : ∀ t a u, inv t → cond t a → step t a = some (.ok u) → inv u)
    (h : Runs step cond s t) : inv t := by
  induction h with
  | refl => exact hs
  | tail _ hc ha ih => exact hstep _ _ _ ih hc ha

/-- A run that meets a condition meets every weaker one. -/
theorem Runs.mono {cond' : State → Act → Prop} (hcond : ∀ t a, cond t a → cond' t a)
    (h : Runs step cond s t) : Runs step cond' s t := by
  induction h with
  | refl => exact .refl
  | tail _ hc ha ih => exact .tail ih (hcond _ _ hc) ha

/-- Runs can be put together. -/
theorem Runs.trans (h : Runs step cond s t) (k : Runs step cond t u) : Runs step cond s u := by
  induction k with
  | refl => exact h
  | tail _ hc ha ih => exact .tail ih hc ha

/-- A fault-free sequence has a fault-free first half and second half. -/
theorem bind_eq_ok {α β : Type u} {x : Except Fault α} {f : α → Except Fault β} {b : β}
    (h : x>>=f=.ok b) : ∃ a,x=.ok a ∧ f a=.ok b := by
  cases x with
  | error e => cases h
  | ok a => exact ⟨a,rfl,h⟩

theorem map_eq_ok {α β : Type*} {x : Except Fault α} {f : α → β} {b : β} (h : x.map f=.ok b) :
    ∃ a,x=.ok a ∧ f a=b := by
  cases x with
  | error e => cases h
  | ok a => exact ⟨a,rfl,Except.ok.inj h⟩

theorem map_eq_error {α β : Type*} {x : Except Fault α} {f : α → β} {e : Fault}
    (h : x.map f=.error e) : x=.error e := by
  cases x with
  | error e' => exact congrArg Except.error (Except.error.inj h)
  | ok a => cases h

theorem ok_of_toOption {α : Type*} {x : Except Fault α} {a : α} (h : x.toOption=some a) :
    x=.ok a := by
  cases x with
  | error e => cases h
  | ok b => exact congrArg Except.ok (Option.some.inj h)

/-- A property kept by every round holds after a fault-free fold. -/
theorem foldlM_invariant {α : Type*} {β : Type u} (inv : β → Prop) {f : β → α → Except Fault β}
    (hround : ∀ b a b',inv b → f b a=.ok b' → inv b') {l : List α} {b b' : β}
    (hb : inv b) (h : l.foldlM f b=.ok b') : inv b' := by
  induction l generalizing b with
  | nil =>
    cases h
    exact hb
  | cons a l ih =>
    rw [List.foldlM_cons] at h
    obtain ⟨b₁,h₁,h⟩ := bind_eq_ok h
    exact ih (hround _ _ _ hb h₁) h

/-- A loop of `n` rounds. -/
def times {β : Type u} (f : β → Except Fault β) : ℕ → β → Except Fault β
  | 0,b => .ok b
  | n+1,b => f b>>=times f n

/-- A property that may depend on the number of rounds. -/
theorem times_invariant {β : Type u} (inv : ℕ → β → Prop) {f : β → Except Fault β}
    (hround : ∀ i b b',inv i b → f b=.ok b' → inv (i+1) b') {n i : ℕ} {b b' : β}
    (hb : inv i b) (h : times f n b=.ok b') : inv (i+n) b' := by
  induction n generalizing i b with
  | zero =>
    cases h
    exact hb
  | succ n ih =>
    obtain ⟨b₁,h₁,h⟩ := bind_eq_ok h
    have hrest := ih (hround i b b₁ hb h₁) h
    rwa [Nat.add_right_comm,Nat.add_assoc] at hrest

/-- A loop comes to its end if every round does, from where the rounds before it lead. -/
theorem times_progress {β : Type u} (inv : ℕ → β → Prop) {f : β → Except Fault β} {n : ℕ} {b : β}
    (hround : ∀ i<n,∀ b,inv i b → ∃ b',f b=.ok b' ∧ inv (i+1) b') (hb : inv 0 b) :
    ∃ b',times f n b=.ok b' ∧ inv n b' := by
  induction n generalizing inv b with
  | zero => exact ⟨b,rfl,hb⟩
  | succ n ih =>
    obtain ⟨b₁,h₁,hb₁⟩ := hround 0 n.succ_pos b hb
    obtain ⟨b',h,hb'⟩ := ih (fun i => inv (i+1))
      (fun i hi b hb => hround (i+1) (Nat.succ_lt_succ hi) b hb) hb₁
    refine ⟨b',?_,hb'⟩
    show (f b>>=times f n)=.ok b'
    rw [h₁]
    exact h

/-- The computation does not end with the fault `bad`, and a result meets `post`. -/
inductive Yields {β : Type u} (bad : Fault) (post : β → Prop) : Except Fault β → Prop
  | ok {b : β} : post b → Yields bad post (.ok b)
  | error {e : Fault} : e≠bad → Yields bad post (.error e)

section Yields

variable {α β : Type u} {bad : Fault} {m : α → Prop} {post post' : β → Prop}

theorem Yields.post_of_ok {b : β} (h : Yields bad post (.ok b)) : post b := by
  cases h with
  | ok h => exact h

theorem Yields.mono {x : Except Fault β} (h : Yields bad post x) (hp : ∀ b,post b → post' b) :
    Yields bad post' x := by
  cases h with
  | ok h => exact .ok (hp _ h)
  | error h => exact .error h

/-- The rule for a sequence. -/
theorem Yields.bind {x : Except Fault α} {f : α → Except Fault β} (hx : Yields bad m x)
    (hf : ∀ a,m a → Yields bad post (f a)) : Yields bad post (x>>=f) := by
  cases hx with
  | ok h => exact hf _ h
  | error h => exact .error h

/-- The rule for a fold. -/
theorem Yields.foldlM {γ : Type*} {f : β → γ → Except Fault β} {l : List γ} {b : β}
    (hround : ∀ b,∀ c∈l,post b → Yields bad post (f b c)) (hb : post b) :
    Yields bad post (l.foldlM f b) := by
  induction l generalizing b with
  | nil => exact .ok hb
  | cons c l ih =>
    rw [List.foldlM_cons]
    exact (hround b c List.mem_cons_self hb).bind fun b' hb' =>
      ih (fun b c hc => hround b c (List.mem_cons_of_mem _ hc)) hb'

end Yields

/-- Take several steps as one, which is refused or ends with a fault where one of them
does. -/
def perform (step : State → Act → Option (Except Fault State)) :
    State → List Act → Option (Except Fault State)
  | s, [] => some (.ok s)
  | s, a::rest =>
    match step s a with
    | some (.ok t) => perform step t rest
    | r => r

theorem perform_cons_eq_ok {a : Act} {rest : List Act}
    (h : perform step s (a::rest) = some (.ok u)) :
    ∃ t,step s a = some (.ok t) ∧ perform step t rest = some (.ok u) := by
  rw [perform] at h
  split at h
  · next t ht => exact ⟨t,ht,h⟩
  · next hne => exact absurd h (hne u)

/-- Execute a literal list of actions, giving up at the first refusal or fault. -/
def replay (step : State → Act → Option (Except Fault State)) : State → List Act → Option State
  | s, [] => some s
  | s, a::rest =>
    match step s a with
    | some (.ok t) => replay step t rest
    | _ => none

/-- Execute a literal list of actions, also giving up where the condition fails. -/
def replayWhile (step : State → Act → Option (Except Fault State))
    (cond : State → Act → Prop) [∀ s a, Decidable (cond s a)] :
    State → List Act → Option State
  | s, [] => some s
  | s, a::rest =>
    if cond s a then
      match step s a with
      | some (.ok t) => replayWhile step cond t rest
      | _ => none
    else none

/-- A successful conditioned replay is a conditioned run. -/
theorem runs_of_replayWhile [∀ s a, Decidable (cond s a)] {acts : List Act}
    (h : replayWhile step cond s acts = some t) : Runs step cond s t := by
  suffices hgen : ∀ r, Runs step cond r s → Runs step cond r t from hgen s .refl
  induction acts generalizing s with
  | nil =>
    intro r hr
    cases h
    exact hr
  | cons a rest ih =>
    intro r hr
    rw [replayWhile] at h
    split_ifs at h with hc
    split at h
    · next v ha => exact ih h r (.tail hr hc ha)
    · cases h

/-- A property of the literal actions can be added to the condition. -/
theorem runs_of_replayWhile_forall [∀ s a, Decidable (cond s a)] {good : Act → Prop}
    {acts : List Act} (hgood : ∀ a∈acts,good a) (h : replayWhile step cond s acts = some t) :
    Runs step (fun s a => cond s a ∧ good a) s t := by
  suffices hgen : ∀ r, Runs step (fun s a => cond s a ∧ good a) r s →
      Runs step (fun s a => cond s a ∧ good a) r t from hgen s .refl
  induction acts generalizing s with
  | nil =>
    intro r hr
    cases h
    exact hr
  | cons a rest ih =>
    intro r hr
    obtain ⟨ha,hrest⟩ := List.forall_mem_cons.mp hgood
    rw [replayWhile] at h
    split_ifs at h with hc
    split at h
    · next v hv => exact ih hrest h r (.tail hr ⟨hc,ha⟩ hv)
    · cases h

/-- An unconditioned replay is one under the trivial condition. -/
theorem replay_eq_replayWhile (s : State) (acts : List Act) :
    replay step s acts = replayWhile step (fun _ _ => True) s acts := by
  induction acts generalizing s with
  | nil => rfl
  | cons a rest ih => simp only [replay,replayWhile,if_true,ih]

/-- A successful unconditioned replay is a run under the trivial condition. -/
theorem runs_of_replay {acts : List Act} (h : replay step s acts = some t) :
    Runs step (fun _ _ => True) s t := by
  rw [replay_eq_replayWhile] at h
  exact runs_of_replayWhile h

theorem step_of_replay {a : Act} (h : replay step s [a] = some t) : step s a = some (.ok t) := by
  rw [replay] at h
  split at h
  · next v ha =>
    cases h
    exact ha
  · cases h

end DycoCoroutine.RunInvariant
