import Mathlib.Logic.Relation

/-!
# Transition systems and their invariants

A system is given by its initial states and a step relation between states.  `Reachable`
is the set of states some run reaches; `Reachable.invariant` is the rule that proves a
property of every reachable state from the initial states and a single step.  A property
that is not inductive by itself is proved through a stronger invariant that is, and then
read off it.  `runFrom` replays a list of labelled steps, so that a concrete run is checked
by evaluation and its end state is known to be reachable.  `foldlM_invariant` is the loop rule
of a fold, and `foldlM_map_comm` carries a fold over to a coarser state.
-/

namespace MeetixOs
namespace Transition

universe u

variable {σ : Type u}

/-- The states reached from an initial state by any number of steps. -/
inductive Reachable (init : σ → Prop) (step : σ → σ → Prop) : σ → Prop
  | init {s : σ} : init s → Reachable init step s
  | step {s s' : σ} : Reachable init step s → step s s' → Reachable init step s'

variable {init : σ → Prop} {step : σ → σ → Prop}

/-- An invariant that holds initially and is kept by every step holds in every reachable
state. -/
theorem Reachable.invariant {I : σ → Prop} (hinit : ∀ s, init s → I s)
    (hstep : ∀ s s', I s → step s s' → I s') {s : σ} (h : Reachable init step s) : I s := by
  induction h with
  | init hs => exact hinit _ hs
  | step _ hst ih => exact hstep _ _ ih hst

/-- A run that continues from a reachable state stays among the reachable states. -/
theorem Reachable.of_reflTransGen {s s' : σ} (hs : Reachable init step s)
    (hr : Relation.ReflTransGen step s s') : Reachable init step s' := by
  induction hr with
  | refl => exact hs
  | tail _ hst ih => exact ih.step hst

/-- Replays the labelled steps `evs` from `s` with a step function that is `none` where a step
is not enabled. -/
def runFrom {ε : Type*} (f : σ → ε → Option σ) (s : σ) (evs : List ε) : Option σ :=
  evs.foldlM f s

/-- A replay from a reachable state ends in a reachable state, when every enabled labelled step
is a step of the system. -/
theorem Reachable.runFrom {ε : Type*} {f : σ → ε → Option σ}
    (hf : ∀ s e s', f s e = some s' → step s s') {s s' : σ} (hs : Reachable init step s)
    {evs : List ε} (h : Transition.runFrom f s evs = some s') : Reachable init step s' := by
  induction evs generalizing s with
  | nil =>
    simp only [Transition.runFrom, List.foldlM_nil] at h
    exact Option.some.inj h ▸ hs
  | cons e evs ih =>
    simp only [Transition.runFrom, List.foldlM_cons] at h
    cases hse : f s e with
    | none => simp [hse] at h
    | some s₁ =>
      simp only [hse, Option.bind_eq_bind, Option.bind_some] at h
      exact ih (hs.step (hf _ _ _ hse)) h

/-- The loop rule of a fold over a list: an invariant of the elements done so far that each
step extends holds of the whole list at the end.  A step sees where its element stands in the
list, so that it may use what sets the element apart from those done before. -/
theorem foldlM_invariant {α : Type*} {f : σ → α → Option σ} {xs : List α}
    {I : List α → σ → Prop}
    (hstep : ∀ done a rest s s', done ++ a :: rest = xs → I done s → f s a = some s' →
      I (done ++ [a]) s')
    {s s' : σ} (h₀ : I [] s) (h : xs.foldlM f s = some s') : I xs s' := by
  suffices hrest : ∀ rest done s, done ++ rest = xs → I done s → rest.foldlM f s = some s' →
      I xs s' from hrest xs [] s rfl h₀ h
  intro rest
  induction rest with
  | nil =>
    intro done s hxs hI hfold
    rw [List.foldlM_nil, Option.pure_def, Option.some.injEq] at hfold
    subst hfold
    rwa [← hxs, List.append_nil]
  | cons a rest ih =>
    intro done s hxs hI hfold
    rw [List.foldlM_cons, Option.bind_eq_bind, Option.bind_eq_some_iff] at hfold
    obtain ⟨s₁, h₁, hfold⟩ := hfold
    exact ih (done ++ [a]) s₁ (by rw [List.append_assoc, List.singleton_append, hxs])
      (hstep done a rest s s₁ hxs hI h₁) hfold

/-- The simulation rule of a fold through a map of its states: when every step commutes with
`g`, so does the fold. -/
theorem foldlM_map_comm {τ α : Type*} {f : σ → α → Option σ} {f' : τ → α → Option τ}
    {g : σ → τ} (hf : ∀ s a, f' (g s) a = (f s a).map g) (xs : List α) (s : σ) :
    xs.foldlM f' (g s) = (xs.foldlM f s).map g := by
  induction xs generalizing s with
  | nil => rfl
  | cons a xs ih =>
    rw [List.foldlM_cons, List.foldlM_cons, hf]
    cases f s a with
    | none => rfl
    | some s₁ => exact ih s₁

end Transition
end MeetixOs
