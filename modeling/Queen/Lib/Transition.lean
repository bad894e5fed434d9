/-
Reachability for systems given by a transition relation, and replay of action lists for
systems given by a deterministic, partial step function.

A component of the kernel is a state type `σ`, the states it starts in, and a relation
`next` between a state and the states one operation can lead to. An invariant is proved
once for the starting states and once per transition; `Reachable.inv` then carries it
along every run. Most components are written as a step function `step : σ → α → Option σ`
(`none` when the action cannot be taken, or the operation panics or never returns); `Next step` is its
relation and `run` replays a list of actions. A replay that the kernel evaluates shows that
a state with a decidable property is reachable: the list of actions is the run that gets
there.

Nothing here names the kernel. The executor, memory-set and process models instantiate it.
-/
import Mathlib

set_option autoImplicit false

namespace Queen.Transition

variable {σ α : Type*}

/-! ## Reachable states of a relation -/

/-- The states reachable from a state satisfying `init` by finitely many `next` steps. -/
inductive Reachable (init : σ → Prop) (next : σ → σ → Prop) : σ → Prop
  | init {s : σ} : init s → Reachable init next s
  | step {s s' : σ} : Reachable init next s → next s s' → Reachable init next s'

/-- **The invariant rule.** What holds initially and is kept by every step holds in every
reachable state. -/
theorem Reachable.inv {init : σ → Prop} {next : σ → σ → Prop} {P : σ → Prop}
    (h0 : ∀ s, init s → P s) (hstep : ∀ s s', P s → next s s' → P s') {s : σ}
    (h : Reachable init next s) : P s := by
  induction h with
  | init hs => exact h0 _ hs
  | step _ hn ih => exact hstep _ _ ih hn

/-- Reachability from some starting states is reachability from any larger set of them. -/
theorem Reachable.mono {init init' : σ → Prop} {next : σ → σ → Prop}
    (hinit : ∀ s, init s → init' s) {s : σ} (h : Reachable init next s) :
    Reachable init' next s := by
  induction h with
  | init hs => exact .init (hinit _ hs)
  | step _ hn ih => exact .step ih hn

/-! ## Step functions and replays -/

/-- The transition relation of a step function: some action leads from `s` to `s'`. -/
def Next (step : σ → α → Option σ) (s s' : σ) : Prop := ∃ a, step s a = some s'

/-- Replay the actions of a list in order, stopping at the first that cannot be taken. -/
def run (step : σ → α → Option σ) : σ → List α → Option σ
  | s, [] => some s
  | s, a :: as => (step s a).bind (fun s' => run step s' as)

@[simp] theorem run_nil (step : σ → α → Option σ) (s : σ) : run step s [] = some s := rfl

@[simp] theorem run_cons (step : σ → α → Option σ) (s : σ) (a : α) (as : List α) :
    run step s (a :: as) = (step s a).bind (fun s' => run step s' as) := rfl

/-- A replay of two lists is the replay of the second from where the first ends. -/
theorem run_append (step : σ → α → Option σ) :
    ∀ (s : σ) (as bs : List α), run step s (as ++ bs) = (run step s as).bind (run step · bs)
  | s, [], bs => rfl
  | s, a :: as, bs => by
    rw [List.cons_append, run_cons, run_cons, Option.bind_assoc]
    congr 1
    funext s'
    exact run_append step s' as bs

/-- A replay from a reachable state ends in a reachable state. -/
theorem Reachable.run {init : σ → Prop} {step : σ → α → Option σ} :
    ∀ {s s' : σ} {as : List α}, Reachable init (Next step) s →
      Queen.Transition.run step s as = some s' → Reachable init (Next step) s'
  | s, s', [], hs, h => by
    simp only [run_nil, Option.some.injEq] at h
    exact h ▸ hs
  | s, s', a :: as, hs, h => by
    simp only [run_cons] at h
    cases ha : step s a with
    | none => simp [ha] at h
    | some s₁ =>
      rw [ha, Option.bind_some] at h
      exact Reachable.run (Reachable.step hs ⟨a, ha⟩) h

/-- **Replaying a run.** If the replay of `as` from the initial state ends in a state where
the decidable check `p` holds, some reachable state satisfies `p`. The check is
meant to be closed by `decide`: the kernel runs the model along the list. -/
theorem exists_reachable_of_run (step : σ → α → Option σ) (s₀ : σ) (as : List α)
    (p : σ → Bool) (h : (run step s₀ as).map p = some true) :
    ∃ s, Reachable (· = s₀) (Next step) s ∧ p s = true := by
  cases hr : run step s₀ as with
  | none => simp [hr] at h
  | some s =>
    simp only [hr, Option.map_some, Option.some.injEq] at h
    exact ⟨s, Reachable.run (Reachable.init rfl) hr, h⟩

/-! ## Simulation

A model of an implementation refines a model of what it is for when a relation between their
states is kept by every action the implementation takes: `ForwardSim`. The implementation may
fail where the other does not. Every replay and every reachable state of the implementation
then has a related one on the other side. -/

section Simulation

variable {τ : Type*} {R : σ → τ → Prop} {stepC : σ → α → Option σ} {stepA : τ → α → Option τ}

/-- `stepC` refines `stepA` under `R`, action for action: from related states, a state an
action leads `stepC` to is related to one the action leads `stepA` to. -/
def ForwardSim (R : σ → τ → Prop) (stepC : σ → α → Option σ) (stepA : τ → α → Option τ) : Prop :=
  ∀ ⦃s s' : σ⦄ ⦃t : τ⦄ ⦃a : α⦄, R s t → stepC s a = some s' → ∃ t', stepA t a = some t' ∧ R s' t'

/-- **The simulation rule.** A replay that returns on `stepC` returns on `stepA`, in a
related state. -/
theorem ForwardSim.run (h : ForwardSim R stepC stepA) :
    ∀ {s s' : σ} {t : τ} (as : List α), R s t → run stepC s as = some s' →
      ∃ t', run stepA t as = some t' ∧ R s' t'
  | s, s', t, [], hst, hs => by
    cases hs
    exact ⟨t, rfl, hst⟩
  | s, s', t, a :: as, hst, hs => by
    rw [run_cons] at hs
    obtain ⟨s₁, h₁, hs⟩ := Option.bind_eq_some_iff.mp hs
    obtain ⟨t₁, ht₁, hst₁⟩ := h hst h₁
    obtain ⟨t', ht', hst'⟩ := h.run as hst₁ hs
    exact ⟨t', by rw [run_cons, ht₁, Option.bind_some, ht'], hst'⟩

/-- **Refinement of reachable states.** When every starting state of `stepC` is related to
one of `stepA`, every state `stepC` reaches is related to one `stepA` reaches. -/
theorem ForwardSim.reachable (h : ForwardSim R stepC stepA) {initC : σ → Prop}
    {initA : τ → Prop} (h0 : ∀ s, initC s → ∃ t, initA t ∧ R s t) {s : σ}
    (hs : Reachable initC (Next stepC) s) : ∃ t, Reachable initA (Next stepA) t ∧ R s t := by
  induction hs with
  | init hs =>
    obtain ⟨t, ht, hst⟩ := h0 _ hs
    exact ⟨t, .init ht, hst⟩
  | step _ hnext ih =>
    obtain ⟨t, ht, hst⟩ := ih
    obtain ⟨a, ha⟩ := hnext
    obtain ⟨t', hA, hst'⟩ := h hst ha
    exact ⟨t', .step ht ⟨a, hA⟩, hst'⟩

end Simulation

end Queen.Transition
