import MeetixOs.Heap.SplitHole

/-!
# `split_hole` in the `debug` build

`MeetixOs.Heap.LinkedList` computes `split_hole` over unbounded `Nat`.  The kernel is built
in the `debug` profile, where every `+` and `-` on a `usize` panics on overflow, and
`align_up` adds `1` to `value | (alignment - 1)`.  `splitHoleChecked` runs each of them
checked, in the source's order; its outer `none` is the panic.

**Results.**
* `splitFrontChecked_eq`, `splitHoleChecked_eq`: the `debug` build panics exactly when the
  end of the block or the end of the hole passes `usize::MAX`, and otherwise computes what
  `splitHole` computes.
* `splitHoleChecked_spec`: an allocation it returns is cut from the hole as `Splits` says.
* `splitHole_overflows`: two good holes that end at or below `2 ^ 64`, and layouts that
  `Layout::from_size_align` accepts, on which it panics: in the `align_up` of
  `hole_info.m_addr + block_size`, and in `hole_info.m_addr + hole_info.m_size`.
-/

namespace MeetixOs
namespace Heap

open Helps

/-- The first `let` of `split_hole` in the `debug` build: `none` is an overflow panic in
`align_up` or in `hole_info.m_addr + LinkedList::block_size()`. -/
def splitFrontChecked (holeInfo : HoleInfo) (requiredAlign : Nat) :
    Option (Nat × Option HoleInfo) := do
  let alignedHoleAddr ← alignUpChecked holeInfo.addr requiredAlign
  if holeInfo.addr = alignedHoleAddr then return (holeInfo.addr, none)
  let alignedAddr ← alignUpChecked (← checkedAdd holeInfo.addr blockSize) requiredAlign
  return (alignedAddr, some ⟨holeInfo.addr, ← checkedSub alignedAddr holeInfo.addr⟩)

/-- `split_hole` in the `debug` build: the outer `none` is an overflow panic. -/
def splitHoleChecked (holeInfo : HoleInfo) (requiredLayout : Layout) :
    Option (Option Allocation) := do
  let requiredSize := requiredLayout.size
  let front ← splitFrontChecked holeInfo requiredLayout.align
  let alignedAddr := front.1
  if (← checkedAdd alignedAddr requiredSize) > (← checkedAdd holeInfo.addr holeInfo.size) then
    return none
  let alignedHole : HoleInfo :=
    ⟨alignedAddr, ← checkedSub holeInfo.size (← checkedSub alignedAddr holeInfo.addr)⟩
  if alignedHole.size = requiredSize then
    return some ⟨⟨alignedHole.addr, requiredSize⟩, front.2, none⟩
  let backSize ← checkedSub alignedHole.size requiredSize
  if backSize < blockSize then return none
  return some ⟨⟨alignedHole.addr, requiredSize⟩, front.2,
    some ⟨← checkedAdd alignedHole.addr requiredSize, backSize⟩⟩

section Checked

variable {hole : HoleInfo} {layout : Layout} {a : Nat}

/-- The block never starts before the hole. -/
theorem le_splitFront_fst (ha : a.isPowerOfTwo) : hole.addr ≤ (splitFront hole a).1 := by
  unfold splitFront
  split
  · exact Nat.le_refl _
  · exact Nat.le_trans (Nat.le_add_right _ _) (le_alignUp ha _)

/-- The checked front split panics exactly when the block start passes `usize::MAX`: an aligned
hole computes nothing more, and otherwise the first `align_up` lies below the block start. -/
theorem splitFrontChecked_eq (ha : a.isPowerOfTwo) (haddr : hole.addr ≤ usizeMax) :
    splitFrontChecked hole a =
      if (splitFront hole a).1 ≤ usizeMax then some (splitFront hole a) else none := by
  unfold splitFrontChecked
  rw [alignUpChecked_eq haddr]
  by_cases hal : hole.addr = alignUp hole.addr a
  · have hsf : splitFront hole a = (hole.addr, none) := if_pos hal
    rw [hsf, ← hal, if_pos haddr, if_pos haddr]
    simp
  · have hsf : splitFront hole a = (alignUp (hole.addr + blockSize) a,
        some ⟨hole.addr, alignUp (hole.addr + blockSize) a - hole.addr⟩) := if_neg hal
    have hge := le_alignUp ha (hole.addr + blockSize)
    have hmono : alignUp hole.addr a ≤ alignUp (hole.addr + blockSize) a :=
      alignUp_le_of_dvd ha (dvd_alignUp ha _) (by omega)
    rw [hsf]
    by_cases hfit : alignUp (hole.addr + blockSize) a ≤ usizeMax
    · have h16 : hole.addr + blockSize ≤ usizeMax := Nat.le_trans hge hfit
      have hadd : checkedAdd hole.addr blockSize = some (hole.addr + blockSize) :=
        checkedAdd_eq_some.mpr ⟨h16, rfl⟩
      have hsub : checkedSub (alignUp (hole.addr + blockSize) a) hole.addr =
          some (alignUp (hole.addr + blockSize) a - hole.addr) :=
        checkedSub_eq_some.mpr ⟨by omega, rfl⟩
      rw [if_pos (Nat.le_trans hmono hfit), if_pos hfit]
      simp only [Option.pure_def, Option.bind_eq_bind, Option.bind_some, hal, if_false, hadd,
        alignUpChecked_eq h16, hfit, if_true, hsub]
    · rw [if_neg hfit]
      by_cases hfirst : alignUp hole.addr a ≤ usizeMax
      · rw [if_pos hfirst]
        simp only [Option.pure_def, Option.bind_eq_bind, Option.bind_some, hal, if_false]
        by_cases h16 : hole.addr + blockSize ≤ usizeMax
        · simp only [checkedAdd, h16, if_true, Option.bind_some, alignUpChecked_eq h16, hfit,
            if_false, Option.bind_none]
        · simp only [checkedAdd, h16, if_false, Option.bind_none]
      · rw [if_neg hfirst]
        rfl

/-- The `debug` build's `split_hole` panics exactly when the end of the block or the end of
the hole passes `usize::MAX`, and otherwise computes what `splitHole` computes. -/
theorem splitHoleChecked_eq (hv : layout.Valid) (haddr : hole.addr ≤ usizeMax) :
    splitHoleChecked hole layout =
      if (splitFront hole layout.align).1 + layout.size ≤ usizeMax ∧
          hole.addr + hole.size ≤ usizeMax
      then some (splitHole hole layout) else none := by
  have hge : hole.addr ≤ (splitFront hole layout.align).1 := le_splitFront_fst hv.1
  unfold splitHoleChecked splitHole
  rw [splitFrontChecked_eq hv.1 haddr]
  generalize splitFront hole layout.align = front at hge ⊢
  by_cases hblock : front.1 + layout.size ≤ usizeMax
  · rw [if_pos (by omega : front.1 ≤ usizeMax)]
    by_cases hend : hole.addr + hole.size ≤ usizeMax
    · rw [if_pos ⟨hblock, hend⟩]
      have hb : checkedAdd front.1 layout.size = some (front.1 + layout.size) :=
        checkedAdd_eq_some.mpr ⟨hblock, rfl⟩
      have he : checkedAdd hole.addr hole.size = some (hole.addr + hole.size) :=
        checkedAdd_eq_some.mpr ⟨hend, rfl⟩
      simp only [Option.pure_def, Option.bind_eq_bind, Option.bind_some, hb, he]
      by_cases hsmall : front.1 + layout.size > hole.addr + hole.size
      · simp only [hsmall, if_true]
      · have hpad : checkedSub front.1 hole.addr = some (front.1 - hole.addr) :=
          checkedSub_eq_some.mpr ⟨hge, rfl⟩
        have hrest : checkedSub hole.size (front.1 - hole.addr) =
            some (hole.size - (front.1 - hole.addr)) :=
          checkedSub_eq_some.mpr ⟨by omega, rfl⟩
        have hback : checkedSub (hole.size - (front.1 - hole.addr)) layout.size =
            some (hole.size - (front.1 - hole.addr) - layout.size) :=
          checkedSub_eq_some.mpr ⟨by omega, rfl⟩
        simp only [hsmall, if_false, hpad, hrest, Option.bind_some]
        split_ifs with hexact hsliver
        · rfl
        · simp [hback, hsliver]
        · simp [hback, hsliver]
    · have hnot : ¬(front.1 + layout.size ≤ usizeMax ∧ hole.addr + hole.size ≤ usizeMax) :=
        fun h => hend h.2
      rw [if_neg hnot]
      simp [checkedAdd, hend]
  · have hnot : ¬(front.1 + layout.size ≤ usizeMax ∧ hole.addr + hole.size ≤ usizeMax) :=
      fun h => hblock h.1
    rw [if_neg hnot]
    by_cases hfront : front.1 ≤ usizeMax
    · rw [if_pos hfront]
      simp [checkedAdd, hblock]
    · rw [if_neg hfront]
      rfl

/-- An allocation the `debug` build returns for a good hole is cut from the hole as `Splits`
says. -/
theorem splitHoleChecked_spec (hg : hole.Good) (hv : layout.Valid)
    (haddr : hole.addr ≤ usizeMax) {allocation : Allocation}
    (hs : splitHoleChecked hole layout = some (some allocation)) :
    Splits hole layout allocation := by
  rw [splitHoleChecked_eq hv haddr] at hs
  split_ifs at hs
  exact splitHole_spec hg hv (Option.some.inj hs)

end Checked

/-- A good hole `8200` bytes below `2 ^ 64`, off an `8192`-byte boundary, asked for `16`
bytes at that alignment: `hole_info.m_addr + block_size` rounds up to `2 ^ 64`, and the `+ 1`
of `align_up` panics.  A good hole that ends at `2 ^ 64` panics at
`hole_info.m_addr + hole_info.m_size`, here asked for `16` bytes at `8`. -/
theorem splitHole_overflows :
    (⟨2 ^ 64 - 8200, 4096⟩ : HoleInfo).Good ∧ 2 ^ 64 - 8200 + 4096 ≤ 2 ^ 64 ∧
      Layout.fromSizeAlign 16 8192 = some ⟨16, 8192⟩ ∧
      alignUp (2 ^ 64 - 8200 + blockSize) 8192 = 2 ^ 64 ∧
      splitHoleChecked ⟨2 ^ 64 - 8200, 4096⟩ ⟨16, 8192⟩ = none ∧
      (⟨2 ^ 64 - 4096, 4096⟩ : HoleInfo).Good ∧ 2 ^ 64 - 4096 + 4096 ≤ 2 ^ 64 ∧
      Layout.fromSizeAlign 16 8 = some ⟨16, 8⟩ ∧
      splitHoleChecked ⟨2 ^ 64 - 4096, 4096⟩ ⟨16, 8⟩ = none := by
  refine ⟨⟨by decide, by decide, by decide, by decide⟩, by decide, by decide, by decide, by decide,
    ⟨by decide, by decide, by decide, by decide⟩, by decide, by decide, by decide⟩

end Heap
end MeetixOs
