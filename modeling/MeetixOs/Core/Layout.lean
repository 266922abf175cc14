import MeetixOs.Core.Usize

/-!
# `core::alloc::Layout`

A layout is a size and an alignment.  `Layout::from_size_align` accepts it when the
alignment is a power of two and the size, rounded up to the alignment, does not overflow
`isize` (its implementation tests `size > isize::MAX - (align - 1)`);
`Layout::from_size_align_unchecked` builds it without the checks, so the model keeps the
two numbers as plain fields and states the checks as `Layout.Valid`.  Alignments are
`usize` values, so a power of two is at most `2 ^ 63`.
-/

namespace MeetixOs

/-- `core::alloc::Layout`. -/
structure Layout where
  size : Nat
  align : Nat
  deriving DecidableEq, Repr

namespace Layout

/-- What `Layout::from_size_align` checks. -/
def Valid (layout : Layout) : Prop :=
  layout.align.isPowerOfTwo ∧ layout.align ≤ 2 ^ 63 ∧
    layout.size ≤ isizeMax - (layout.align - 1)

instance (layout : Layout) : Decidable layout.Valid :=
  inferInstanceAs (Decidable (_ ∧ _ ∧ _))

/-- `Layout::from_size_align`: `none` is the `Err`. -/
def fromSizeAlign (size align : Nat) : Option Layout :=
  if (⟨size, align⟩ : Layout).Valid then some ⟨size, align⟩ else none

theorem fromSizeAlign_eq_some {size align : Nat} {layout : Layout} :
    fromSizeAlign size align = some layout ↔
      (⟨size, align⟩ : Layout).Valid ∧ layout = ⟨size, align⟩ := by
  unfold fromSizeAlign
  split <;> simp_all [eq_comm]

theorem Valid.align_pos {layout : Layout} (h : layout.Valid) : 0 < layout.align :=
  Nat.pos_of_isPowerOfTwo h.1

end Layout

end MeetixOs
