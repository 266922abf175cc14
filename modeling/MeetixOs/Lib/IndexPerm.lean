import Mathlib.Data.List.Sort

/-!
# Lists indexed by `0, …, n - 1`

Code that keeps `n` objects in a fixed order by their indices, shuffles them and sorts them
back by index relies on two facts about lists of natural numbers:

* `n` distinct indices below `n` are a permutation of `List.range n`;
* a list whose keys are a permutation of `List.range n`, sorted by key, has the keys
  `0, …, n - 1` in order, whatever sort produced it.
-/

namespace MeetixOs
namespace IndexPerm

/-- `n` distinct indices below `n` are all of them. -/
theorem perm_range_of_nodup {idxs : List ℕ} {n : ℕ} (hnd : idxs.Nodup)
    (hlt : ∀ i ∈ idxs, i < n) (hlen : idxs.length = n) : idxs.Perm (List.range n) := by
  have hsub : idxs.Subperm (List.range n) :=
    List.subperm_of_subset hnd (fun i hi => List.mem_range.mpr (hlt i hi))
  exact hsub.perm_of_length_le (by rw [List.length_range, hlen])

variable {α : Type} (key : α → ℕ)

/-- Sorting by a key whose values are a permutation of the indices puts the keys in order. -/
theorem insertionSort_map_key {l : List α} {n : ℕ} (h : (l.map key).Perm (List.range n)) :
    (l.insertionSort (fun a b => key a ≤ key b)).map key = List.range n := by
  have : Std.Total (fun a b : α => key a ≤ key b) := ⟨fun a b => le_total (key a) (key b)⟩
  have : IsTrans α (fun a b => key a ≤ key b) := ⟨fun _ _ _ => le_trans⟩
  have hsorted : ((l.insertionSort (fun a b => key a ≤ key b)).map key).Pairwise (· ≤ ·) :=
    List.pairwise_map.mpr (List.pairwise_insertionSort _ l)
  have hrange : (List.range n).Pairwise (· ≤ ·) := List.pairwise_lt_range.imp le_of_lt
  have hperm := ((List.perm_insertionSort (fun a b => key a ≤ key b) l).map key).trans h
  exact hperm.eq_of_pairwise' hsorted hrange

end IndexPerm
end MeetixOs
