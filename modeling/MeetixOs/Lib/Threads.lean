import Mathlib.Algebra.BigOperators.Group.Finset.Piecewise
import Mathlib.Algebra.Order.BigOperators.Group.Finset

/-!
# Counting over threads

A system of threads keeps one local state per thread, `τ → σ`, and a step of one thread
updates one point of it.  Invariants count what the threads hold, `∑ t, g (local t)`.  This
is how such a sum changes when one thread's state changes.
-/

namespace MeetixOs
namespace Threads

variable {τ σ : Type} [Fintype τ]

/-- A sum over the threads bounds each thread's part. -/
theorem le_sum (f : τ → σ) (g : σ → ℕ) (t : τ) : g (f t) ≤ ∑ x, g (f x) := by
  have hnonneg : ∀ x ∈ (Finset.univ : Finset τ), 0 ≤ g (f x) := fun _ _ => Nat.zero_le _
  exact Finset.single_le_sum hnonneg (Finset.mem_univ t)

variable [DecidableEq τ]

/-- A sum over the threads bounds the parts of any two of them. -/
theorem add_le_sum (f : τ → σ) (g : σ → ℕ) {t t' : τ} (h : t ≠ t') :
    g (f t) + g (f t') ≤ ∑ x, g (f x) := by
  have hpair : ∑ x ∈ {t, t'}, g (f x) = g (f t) + g (f t') := Finset.sum_pair h
  rw [← hpair]
  exact Finset.sum_le_sum_of_subset (Finset.subset_univ _)

/-- Changing the state of thread `t` from `f t` to `v` changes a sum over the threads by
the difference of the two. -/
theorem sum_update_add (f : τ → σ) (g : σ → ℕ) (t : τ) (v : σ) :
    ∑ x, g (Function.update f t v x) + g (f t) = ∑ x, g (f x) + g v := by
  have hu : (fun x => g (Function.update f t v x)) = Function.update (g ∘ f) t (g v) := by
    rw [← Function.comp_update]
    rfl
  rw [hu, Finset.sum_update_of_mem (Finset.mem_univ t),
    Finset.sum_eq_add_sum_sdiff_singleton_of_mem (Finset.mem_univ t) (fun x => g (f x))]
  simp only [Function.comp]
  omega

end Threads
end MeetixOs
