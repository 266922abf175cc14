import Mathlib.Data.List.Basic

/-!
# Splitting a list at a separator

A path is a string cut at a separator.  Cutting keeps the empty pieces between two
separators in a row, at the start and at the end (`List.splitOn`); a parser that drops them
sees only `pieces`, the nonempty ones.  What it prints back is `joinPieces`: a leading
separator if there was one, then the pieces joined by one separator each.  That is the
string with each run of separators made one (`collapseRuns`) and a trailing separator
dropped (`dropTrailing`), the separator alone excepted:

* `dropTrailing_collapseRuns`: `dropTrailing (collapseRuns s) = joinPieces s`;
* `pieces_intercalate`: pieces without the separator, joined, are cut back into themselves.
-/

namespace MeetixOs
namespace Split

variable {α : Type} [DecidableEq α] (sep : α)

/-- The nonempty pieces of `s` between the separators. -/
def pieces (s : List α) : List (List α) := (s.splitOn sep).filter (fun p => !p.isEmpty)

/-- A leading separator if `s` has one, then the pieces of `s` joined by one separator. -/
def joinPieces (s : List α) : List α :=
  (if s.head? = some sep then [sep] else []) ++ [sep].intercalate (pieces sep s)

/-- `s` with each run of separators made one. -/
def collapseRuns : List α → List α
  | [] => []
  | c :: rest => if c = sep ∧ rest.head? = some sep then collapseRuns rest else c :: collapseRuns rest

/-- `s` without a trailing separator, unless `s` is the separator alone. -/
def dropTrailing (s : List α) : List α :=
  if s ≠ [sep] ∧ s.getLast? = some sep then s.dropLast else s

section Pieces

variable {sep}

theorem pieces_nil : pieces sep [] = [] := by
  simp [pieces, List.splitOn_nil]

/-- A leading separator cuts off an empty piece, which is dropped. -/
theorem pieces_sep_cons (s : List α) : pieces sep (sep :: s) = pieces sep s := by
  simp [pieces, List.splitOn_cons_eq_if_modifyHead]

/-- Any other first element starts the first piece. -/
theorem pieces_cons_of_ne {c : α} (hc : c ≠ sep) (s : List α) :
    pieces sep (c :: s) =
      (c :: (s.splitOn sep).head (List.splitOn_ne_nil sep s)) ::
        ((s.splitOn sep).tail.filter (fun p => !p.isEmpty)) := by
  have hne := List.splitOn_ne_nil sep s
  rw [pieces, List.splitOn_cons_eq_if_modifyHead, if_neg (by simpa using hc)]
  obtain ⟨h, t, ht⟩ := List.exists_cons_of_ne_nil hne
  simp only [ht, List.modifyHead_cons, List.filter_cons, List.isEmpty_cons, Bool.not_false,
    if_true, List.head_cons, List.tail_cons]

/-- The first piece cut is empty exactly when `s` is empty or starts with the separator. -/
theorem head_splitOn_eq_nil_iff (s : List α) :
    (s.splitOn sep).head (List.splitOn_ne_nil sep s) = [] ↔ s = [] ∨ s.head? = some sep := by
  cases s with
  | nil => simp [List.splitOn_nil]
  | cons c s =>
    by_cases hc : c = sep
    · subst hc
      simp [List.splitOn_cons_eq_if_modifyHead]
    · have hne := List.splitOn_ne_nil sep s
      obtain ⟨h, t, ht⟩ := List.exists_cons_of_ne_nil hne
      simp [List.splitOn_cons_eq_if_modifyHead, hc, ht]

/-- The pieces of `s` once its first, possibly empty, piece is dropped when empty. -/
theorem pieces_eq (s : List α) :
    pieces sep s = ((s.splitOn sep).head (List.splitOn_ne_nil sep s) ::
      (s.splitOn sep).tail).filter (fun p => !p.isEmpty) := by
  have hne := List.splitOn_ne_nil sep s
  obtain ⟨h, t, ht⟩ := List.exists_cons_of_ne_nil hne
  simp only [pieces, ht, List.head_cons, List.tail_cons]

theorem pieces_eq_nil_iff (s : List α) : pieces sep s = [] ↔ ∀ x ∈ s, x = sep := by
  induction s with
  | nil => simp [pieces_nil]
  | cons c s ih =>
    by_cases hc : c = sep
    · subst hc
      simp [pieces_sep_cons, ih]
    · simp [pieces_cons_of_ne hc, hc]

/-- Joining the pieces after a first element that is not the separator. -/
theorem intercalate_pieces_cons {c : α} (hc : c ≠ sep) (s : List α) :
    [sep].intercalate (pieces sep (c :: s)) =
      c :: if s = [] ∨ s.head? = some sep then
        (if pieces sep s = [] then [] else sep :: [sep].intercalate (pieces sep s))
      else [sep].intercalate (pieces sep s) := by
  rw [pieces_cons_of_ne hc, pieces_eq s, List.filter_cons]
  generalize hh : (s.splitOn sep).head (List.splitOn_ne_nil sep s) = h
  have hiff := @head_splitOn_eq_nil_iff _ _ sep s
  rw [hh] at hiff
  generalize (s.splitOn sep).tail.filter (fun p => !p.isEmpty) = F
  by_cases h0 : h = []
  · subst h0
    rw [if_pos (hiff.mp rfl)]
    cases F <;> simp [List.intercalate_cons_of_ne_nil]
  · rw [if_neg (fun h' => h0 (hiff.mpr h'))]
    obtain ⟨d, h', rfl⟩ := List.exists_cons_of_ne_nil h0
    cases F <;> simp [List.intercalate_cons_of_ne_nil]

/-- Pieces without the separator, joined, are cut back into themselves. -/
theorem pieces_intercalate {L : List (List α)} (hL : ∀ l ∈ L, l ≠ [] ∧ sep ∉ l) :
    pieces sep ([sep].intercalate L) = L := by
  cases L with
  | nil => simp [pieces_nil]
  | cons l L =>
    rw [pieces, List.splitOn_intercalate sep (fun l hl => (hL l hl).2) (List.cons_ne_nil l L),
      List.filter_eq_self]
    intro l hl
    simpa [List.isEmpty_iff] using (hL l hl).1

/-- No piece cut at the separator holds it. -/
theorem not_mem_of_mem_splitOn {s p : List α} (hp : p ∈ s.splitOn sep) : sep ∉ p := by
  induction s generalizing p with
  | nil => simp_all [List.splitOn_nil]
  | cons c s ih =>
    rw [List.splitOn_cons_eq_if_modifyHead] at hp
    split at hp
    next =>
      rcases List.mem_cons.mp hp with rfl | hp
      · simp
      · exact ih hp
    next hc =>
      obtain ⟨h, t, ht⟩ := List.exists_cons_of_ne_nil (List.splitOn_ne_nil sep s)
      rw [ht, List.modifyHead_cons] at hp
      rcases List.mem_cons.mp hp with rfl | hp
      · have hh := ih (ht ▸ List.mem_cons_self)
        simp only [List.mem_cons, not_or]
        exact ⟨fun h => hc (by simp [h]), hh⟩
      · exact ih (ht ▸ List.mem_cons_of_mem h hp)

theorem mem_pieces {s p : List α} (hp : p ∈ pieces sep s) : p ≠ [] ∧ sep ∉ p := by
  unfold pieces at hp
  rw [List.mem_filter] at hp
  exact ⟨by simpa [List.isEmpty_iff] using hp.2, not_mem_of_mem_splitOn hp.1⟩

end Pieces

section Collapse

variable {sep}

theorem collapseRuns_sep_cons (s : List α) :
    collapseRuns sep (sep :: s) =
      if s.head? = some sep then collapseRuns sep s else sep :: collapseRuns sep s := by
  by_cases h : s.head? = some sep <;> simp [collapseRuns, h]

theorem collapseRuns_cons_of_ne {c : α} (hc : c ≠ sep) (s : List α) :
    collapseRuns sep (c :: s) = c :: collapseRuns sep s := by
  simp [collapseRuns, hc]

/-- Collapsing keeps the first element. -/
theorem head?_collapseRuns (s : List α) : (collapseRuns sep s).head? = s.head? := by
  induction s with
  | nil => rfl
  | cons c s ih =>
    by_cases h : c = sep ∧ s.head? = some sep
    · rw [collapseRuns, if_pos h, ih, h.2, h.1]
      rfl
    · rw [collapseRuns, if_neg h]
      rfl

theorem collapseRuns_eq_nil_iff (s : List α) : collapseRuns sep s = [] ↔ s = [] := by
  rw [← List.head?_eq_none_iff, head?_collapseRuns, List.head?_eq_none_iff]

/-- Collapsing gives the separator alone exactly from a run of separators. -/
theorem collapseRuns_eq_sep_iff (s : List α) :
    collapseRuns sep s = [sep] ↔ s ≠ [] ∧ ∀ x ∈ s, x = sep := by
  induction s with
  | nil => simp [collapseRuns]
  | cons c s ih =>
    by_cases hc : c = sep
    · subst hc
      rw [collapseRuns_sep_cons]
      split_ifs with hs
      · have hne : s ≠ [] := fun h => by simp [h] at hs
        simp [ih, hne]
      · rw [List.cons_eq_cons, collapseRuns_eq_nil_iff]
        constructor
        · rintro ⟨-, rfl⟩
          simp
        · rintro ⟨-, hall⟩
          cases s with
          | nil => exact ⟨rfl, rfl⟩
          | cons d s => exact absurd (by simp [hall d (by simp)]) hs
    · rw [collapseRuns_cons_of_ne hc]
      simp [hc]

/-- Dropping a trailing separator past a first element. -/
theorem dropTrailing_cons (a : α) {X : List α} (hX : X ≠ [sep]) :
    dropTrailing sep (a :: X) = a :: dropTrailing sep X := by
  cases X with
  | nil =>
    by_cases ha : a = sep
    · simp [dropTrailing, ha]
    · simp [dropTrailing, ha]
  | cons x X =>
    have hne : a :: x :: X ≠ [sep] := by simp
    by_cases hl : (x :: X).getLast? = some sep
    · rw [dropTrailing, if_pos ⟨hne, by rw [List.getLast?_cons_cons]; exact hl⟩, dropTrailing,
        if_pos ⟨hX, hl⟩, List.dropLast_cons_of_ne_nil (List.cons_ne_nil x X)]
    · rw [dropTrailing, if_neg (fun h => hl (by rw [← List.getLast?_cons_cons]; exact h.2)),
        dropTrailing, if_neg (fun h => hl h.2)]

/-- Printing back the pieces is collapsing the runs of separators and dropping a trailing
one, by induction on `s` with the cases of its first element. -/
theorem dropTrailing_collapseRuns (s : List α) :
    dropTrailing sep (collapseRuns sep s) = joinPieces sep s := by
  induction s with
  | nil => simp [dropTrailing, joinPieces, pieces_nil, collapseRuns]
  | cons c s ih =>
    by_cases hc : c = sep
    · subst hc
      rw [collapseRuns_sep_cons, joinPieces, pieces_sep_cons,
        if_pos (show (c :: s).head? = some c from rfl)]
      split_ifs with hs
      · rw [ih, joinPieces, if_pos hs]
      · have hX : collapseRuns c s ≠ [c] := fun h => hs (by rw [← head?_collapseRuns, h]; rfl)
        rw [dropTrailing_cons c hX, ih, joinPieces, if_neg hs]
        rfl
    · rw [collapseRuns_cons_of_ne hc, joinPieces, if_neg (by simp [hc]), List.nil_append,
        intercalate_pieces_cons hc]
      by_cases hs : s = [] ∨ s.head? = some sep
      · rw [if_pos hs]
        split_ifs with hp
        · have hrun : collapseRuns sep s = [sep] ∨ s = [] := by
            rcases hs with rfl | hs
            · exact Or.inr rfl
            · refine Or.inl ((collapseRuns_eq_sep_iff s).mpr ⟨fun h => ?_,
                (pieces_eq_nil_iff s).mp hp⟩)
              simp [h] at hs
          rcases hrun with hrun | rfl
          · rw [hrun]
            simp [dropTrailing]
          · simp [dropTrailing, hc, collapseRuns]
        · have hX : collapseRuns sep s ≠ [sep] := fun h =>
            hp ((pieces_eq_nil_iff s).mpr ((collapseRuns_eq_sep_iff s).mp h).2)
          have hs' : s.head? = some sep := by
            rcases hs with rfl | hs
            · simp [pieces_nil] at hp
            · exact hs
          rw [dropTrailing_cons c hX, ih, joinPieces, if_pos hs']
          rfl
      · rw [if_neg hs]
        have hX : collapseRuns sep s ≠ [sep] := fun h =>
          hs (Or.inr (by rw [← head?_collapseRuns, h]; rfl))
        rw [dropTrailing_cons c hX, ih, joinPieces, if_neg (fun h => hs (Or.inr h)),
          List.nil_append]

end Collapse

end Split
end MeetixOs
