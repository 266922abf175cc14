import MeetixOs.Heap.HoleList

/-!
# `split_hole` and `allocate_first_fit`

**Results.**
* `splitHole_spec`: when `split_hole` accepts a good hole for a valid layout, the block
  starts at a multiple of the layout's alignment and of `holeAlign`, lies inside the hole,
  and the paddings are exactly the bytes of the hole before and after it, each either
  absent or at least `blockSize` bytes long (`Splits`).
* `allocateFirstFit_eq_some_first`: the allocation comes from the first hole of the list
  that `split_hole` accepts, which is unlinked and nothing else changes.
* `allocateFirstFit_eq_none`: first fit fails only when `split_hole` refuses every hole.
* `splitHole_eq_none_iff`, `splitHole_admits`: `split_hole` refuses a hole exactly when it
  has no place for the block (`Admits`); its one candidate start is the best there is.
-/

namespace MeetixOs
namespace Heap

open Helps

theorem holeAlign_isPowerOfTwo : holeAlign.isPowerOfTwo := ⟨3, rfl⟩

/-- What `splitHole hole layout = some allocation` says about the allocation. -/
structure Splits (hole : HoleInfo) (layout : Layout) (allocation : Allocation) : Prop where
  size_eq : allocation.holeInfo.size = layout.size
  align_dvd : layout.align ∣ allocation.holeInfo.addr
  holeAlign_dvd : holeAlign ∣ allocation.holeInfo.addr
  addr_ge : hole.addr ≤ allocation.holeInfo.addr
  end_le : allocation.holeInfo.addr + layout.size ≤ hole.addr + hole.size
  front_eq : allocation.frontPadding =
    if allocation.holeInfo.addr = hole.addr then none
    else some ⟨hole.addr, allocation.holeInfo.addr - hole.addr⟩
  front_gap : allocation.holeInfo.addr = hole.addr ∨
    hole.addr + blockSize ≤ allocation.holeInfo.addr
  back_eq : allocation.backPadding =
    if allocation.holeInfo.addr + layout.size = hole.addr + hole.size then none
    else some ⟨allocation.holeInfo.addr + layout.size,
      hole.addr + hole.size - (allocation.holeInfo.addr + layout.size)⟩
  back_gap : allocation.holeInfo.addr + layout.size = hole.addr + hole.size ∨
    allocation.holeInfo.addr + layout.size + blockSize ≤ hole.addr + hole.size

section SplitHole

variable {hole : HoleInfo} {layout : Layout}

/-- The front of `split_hole`: the block address is aligned both ways and leaves either no
front padding or one of at least `blockSize` bytes.  Only the alignment of the hole is used. -/
theorem splitFront_spec_of_dvd (haddr : holeAlign ∣ hole.addr) (hv : layout.Valid) :
    let front := splitFront hole layout.align
    layout.align ∣ front.1 ∧ holeAlign ∣ front.1 ∧ hole.addr ≤ front.1 ∧
      front.2 = (if front.1 = hole.addr then none else some ⟨hole.addr, front.1 - hole.addr⟩) ∧
      (front.1 = hole.addr ∨ hole.addr + blockSize ≤ front.1) := by
  by_cases hal : hole.addr = alignUp hole.addr layout.align
  · simp only [splitFront, if_pos hal, if_true]
    exact ⟨(alignUp_eq_self_iff hv.1 _).mp hal.symm, haddr, le_refl _, trivial, Or.inl trivial⟩
  · have hdvd : holeAlign ∣ layout.align := by
      rcases PowTwo.dvd_or_dvd hv.1 holeAlign_isPowerOfTwo with h | h
      · exact absurd ((alignUp_of_dvd hv.1 (Nat.dvd_trans h haddr)).symm) hal
      · exact h
    have hle := le_alignUp hv.1 (hole.addr + blockSize)
    have hne : alignUp (hole.addr + blockSize) layout.align ≠ hole.addr := by
      have : blockSize = 16 := rfl
      omega
    simp only [splitFront, if_neg hal, hne, if_false]
    exact ⟨dvd_alignUp hv.1 _, Nat.dvd_trans hdvd (dvd_alignUp hv.1 _), by omega, trivial,
      Or.inr hle⟩

/-- The front of `split_hole` for a good hole. -/
theorem splitFront_spec (hg : hole.Good) (hv : layout.Valid) :
    let front := splitFront hole layout.align
    layout.align ∣ front.1 ∧ holeAlign ∣ front.1 ∧ hole.addr ≤ front.1 ∧
      front.2 = (if front.1 = hole.addr then none else some ⟨hole.addr, front.1 - hole.addr⟩) ∧
      (front.1 = hole.addr ∨ hole.addr + blockSize ≤ front.1) :=
  splitFront_spec_of_dvd hg.addr_dvd hv

/-- `split_hole` cuts a good hole in three: the front padding, the block, and the back padding,
which is empty when the block fills the rest of the hole. -/
theorem splitHole_spec (hg : hole.Good) (hv : layout.Valid)
    {allocation : Allocation} (hs : splitHole hole layout = some allocation) :
    Splits hole layout allocation := by
  obtain ⟨halign, hhole, hge, hfront, hgap⟩ := splitFront_spec hg hv
  unfold splitHole at hs
  simp only at hs
  generalize (splitFront hole layout.align).1 = A at halign hhole hge hfront hgap hs
  split_ifs at hs with hfit hexact hsmall
  · cases hs
    refine ⟨rfl, halign, hhole, hge, ?_, hfront, hgap, ?_, ?_⟩ <;> dsimp only
    · omega
    · rw [if_pos (by omega)]
    · omega
  · cases hs
    refine ⟨rfl, halign, hhole, hge, ?_, hfront, hgap, ?_, ?_⟩ <;> dsimp only
    · omega
    · rw [if_neg (by omega)]
      congr 2
      omega
    · omega

/-- A place for a block of `size` bytes aligned to `align` in `hole`: at a multiple of the
alignment, inside the hole, and leaving before and after it either nothing or at least
`blockSize` bytes, as a hole needs. -/
def Admits (hole : HoleInfo) (align size s : Nat) : Prop :=
  s % align = 0 ∧ hole.addr ≤ s ∧ s + size ≤ hole.addr + hole.size ∧
    (s - hole.addr = 0 ∨ blockSize ≤ s - hole.addr) ∧
    (hole.addr + hole.size - (s + size) = 0 ∨ blockSize ≤ hole.addr + hole.size - (s + size))

/-- Every aligned start with a front padding a hole can take is the start `split_hole`
picks or lies at least `blockSize` bytes after it: an aligned hole gives the hole's own
start, and an unaligned one an alignment of at least `16`, so that two aligned starts are
that far apart. -/
theorem splitFront_least_of_dvd (haddr : holeAlign ∣ hole.addr) (hv : layout.Valid) {s : Nat}
    (hs : layout.align ∣ s) (hfront : s = hole.addr ∨ hole.addr + blockSize ≤ s) :
    s = (splitFront hole layout.align).1 ∨ (splitFront hole layout.align).1 + blockSize ≤ s := by
  by_cases hal : hole.addr = alignUp hole.addr layout.align
  · simp only [splitFront, if_pos hal]
    exact hfront
  · simp only [splitFront, if_neg hal]
    have hne : s ≠ hole.addr := fun h => hal (alignUp_of_dvd hv.1 (h ▸ hs)).symm
    have hle := alignUp_le_of_dvd hv.1 hs (hfront.resolve_left hne)
    have h16 : blockSize ≤ layout.align := by
      rcases PowTwo.dvd_or_dvd hv.1 holeAlign_isPowerOfTwo with h | h
      · exact absurd (alignUp_of_dvd hv.1 (Nat.dvd_trans h haddr)).symm hal
      · obtain ⟨m, hm⟩ := h
        have hm1 : m ≠ 1 := fun h1 => hal (alignUp_of_dvd hv.1 (by rw [hm, h1]; exact haddr)).symm
        have hm0 : m ≠ 0 := fun h0 => by
          have hpos := hv.align_pos
          rw [hm, h0, Nat.mul_zero] at hpos
          exact Nat.lt_irrefl 0 hpos
        rw [hm]
        show 16 ≤ 8 * m
        omega
    rcases Nat.eq_or_lt_of_le hle with h | h
    · exact Or.inl h.symm
    · have hd : layout.align ∣ s - alignUp (hole.addr + blockSize) layout.align :=
        Nat.dvd_sub hs (dvd_alignUp hv.1 _)
      have := Nat.le_of_dvd (by omega) hd
      exact Or.inr (by omega)

/-- `split_hole` refuses an aligned hole exactly when the hole has no place for the block:
no other start can do better than the one it tries. -/
theorem splitHole_eq_none_iff (haddr : holeAlign ∣ hole.addr) (hv : layout.Valid) :
    splitHole hole layout = none ↔ ∀ s, ¬ Admits hole layout.align layout.size s := by
  obtain ⟨halign, -, hge, -, hgap⟩ := splitFront_spec_of_dvd haddr hv
  have hleast := fun {s} => splitFront_least_of_dvd (s := s) haddr hv
  unfold splitHole
  simp only
  generalize (splitFront hole layout.align).1 = A at halign hge hgap hleast
  constructor
  · rintro hnone s ⟨hsal, hsge, hsend, hsfront, hsback⟩
    have hA := hleast (Nat.dvd_of_mod_eq_zero hsal) (by omega)
    split_ifs at hnone with hfit hexact hsmall <;> omega
  · intro hno
    split_ifs with hfit hexact hsmall
    · rfl
    · exact absurd ⟨Nat.mod_eq_zero_of_dvd halign, hge, by omega, by omega, by omega⟩ (hno A)
    · rfl
    · exact absurd ⟨Nat.mod_eq_zero_of_dvd halign, hge, by omega, by omega, by omega⟩ (hno A)

/-- A hole longer than a block by less than `blockSize` has no place for it: at the hole's
start the block leaves a sliver behind, and any later start needs a front padding that
does not fit. -/
theorem not_admits_of_sliver {align size : Nat} (hlt : size < hole.size)
    (hsliver : hole.size < size + blockSize) (s : Nat) : ¬ Admits hole align size s := by
  rintro ⟨-, hge, hend, hfront, hback⟩
  omega

/-- The block `split_hole` cuts out is at a place the hole has for it. -/
theorem splitHole_admits (haddr : holeAlign ∣ hole.addr) (hv : layout.Valid)
    {allocation : Allocation} (hs : splitHole hole layout = some allocation) :
    Admits hole layout.align layout.size allocation.holeInfo.addr := by
  obtain ⟨halign, -, hge, -, hgap⟩ := splitFront_spec_of_dvd haddr hv
  unfold splitHole at hs
  simp only at hs
  generalize (splitFront hole layout.align).1 = A at halign hge hgap hs
  split_ifs at hs with hfit hexact hsmall <;> cases hs <;> dsimp only <;>
    exact ⟨Nat.mod_eq_zero_of_dvd halign, hge, by omega, by omega, by omega⟩

/-- The back padding of a split is a good hole. -/
theorem Splits.back_good (hg : hole.Good) (hsz : holeAlign ∣ layout.size)
    {allocation : Allocation} (hs : Splits hole layout allocation) {b : HoleInfo}
    (hb : allocation.backPadding = some b) : b.Good := by
  rw [hs.back_eq] at hb
  split_ifs at hb with he
  cases hb
  have hend : holeAlign ∣ hole.addr + hole.size := Nat.dvd_add hg.addr_dvd hg.size_dvd
  have hblk : holeAlign ∣ allocation.holeInfo.addr + layout.size :=
    Nat.dvd_add hs.holeAlign_dvd hsz
  refine ⟨?_, hblk, Nat.dvd_sub hend hblk, ?_⟩
  · have := hg.addr_pos; have := hs.addr_ge; dsimp only; omega
  · rcases hs.back_gap with h | h
    · exact absurd h he
    · dsimp only; omega

/-- The front padding of a split is a good hole. -/
theorem Splits.front_good (hg : hole.Good) {allocation : Allocation}
    (hs : Splits hole layout allocation) {f : HoleInfo} (hf : allocation.frontPadding = some f) :
    f.Good := by
  rw [hs.front_eq] at hf
  split_ifs at hf with he
  cases hf
  refine ⟨hg.addr_pos, hg.addr_dvd, Nat.dvd_sub hs.holeAlign_dvd hg.addr_dvd, ?_⟩
  rcases hs.front_gap with h | h
  · exact absurd h he
  · dsimp only; omega

end SplitHole

section FirstFit

variable {layout : Layout}

/-- First fit takes its allocation from the first hole `split_hole` accepts, and unlinks
exactly that hole. -/
theorem allocateFirstFit_eq_some_first :
    ∀ {holes rest : List HoleInfo} {allocation : Allocation},
      allocateFirstFit holes layout = some (allocation, rest) →
      ∃ pre hole post, holes = pre ++ hole :: post ∧ rest = pre ++ post ∧
        (∀ h ∈ pre, splitHole h layout = none) ∧ splitHole hole layout = some allocation
  | [], _, _, h => by simp [allocateFirstFit] at h
  | hole :: holes, rest, allocation, h => by
      unfold allocateFirstFit at h
      cases hsplit : splitHole hole layout with
      | some a =>
          rw [hsplit] at h
          cases h
          exact ⟨[], hole, holes, rfl, rfl, fun _ h => absurd h List.not_mem_nil, hsplit⟩
      | none =>
          rw [hsplit] at h
          obtain ⟨⟨a, rest'⟩, hrec, heq⟩ := Option.map_eq_some_iff.mp h
          cases heq
          obtain ⟨pre, h', post, rfl, rfl, hpre, hs⟩ := allocateFirstFit_eq_some_first hrec
          refine ⟨hole :: pre, h', post, rfl, rfl, fun h hm => ?_, hs⟩
          rcases List.mem_cons.mp hm with rfl | hm
          · exact hsplit
          · exact hpre h hm

/-- First fit takes its allocation from one hole and unlinks exactly that hole. -/
theorem allocateFirstFit_eq_some {holes rest : List HoleInfo} {allocation : Allocation}
    (h : allocateFirstFit holes layout = some (allocation, rest)) :
    ∃ pre hole post, holes = pre ++ hole :: post ∧ rest = pre ++ post ∧
      splitHole hole layout = some allocation := by
  obtain ⟨pre, hole, post, hholes, hrest, -, hs⟩ := allocateFirstFit_eq_some_first h
  exact ⟨pre, hole, post, hholes, hrest, hs⟩

/-- First fit fails exactly when `split_hole` refuses every hole. -/
theorem allocateFirstFit_eq_none :
    ∀ {holes : List HoleInfo},
      allocateFirstFit holes layout = none ↔ ∀ h ∈ holes, splitHole h layout = none
  | [] => by simp [allocateFirstFit]
  | hole :: holes => by
      unfold allocateFirstFit
      cases hsplit : splitHole hole layout with
      | some a => simp [hsplit]
      | none => simp [hsplit, allocateFirstFit_eq_none]

end FirstFit

end Heap
end MeetixOs
