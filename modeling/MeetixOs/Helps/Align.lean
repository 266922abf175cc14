import MeetixOs.Lib.PowTwo
import MeetixOs.Core.Usize

/-!
# `helps::align`: rounding to a power-of-two boundary

`LibHelps/src/align.rs` rounds a `usize` up or down with masks:

```
align_down(value, alignment) = value & !(alignment - 1)
align_up(value, alignment)   = if value & (alignment - 1) != 0 { (value | (alignment - 1)) + 1 }
                               else { value }
```

Both are only called with power-of-two alignments.  This module translates them and
derives, from the mask lemmas of `MeetixOs.Lib.PowTwo`, the facts the allocators and the
layout manager use: `alignUp v a` is the least multiple of `a` that is at least `v`, and
`alignDown v a` the greatest multiple of `a` that is at most `v`.
-/

namespace MeetixOs
namespace Helps

/-- `align_down`: clears the bits of `value` below `alignment`. -/
def alignDown (value alignment : Nat) : Nat :=
  value &&& usizeNot (alignment - 1)

/-- `align_up`: rounds `value` up to the next multiple of `alignment`. -/
def alignUp (value alignment : Nat) : Nat :=
  let alignMask := alignment - 1
  if value &&& alignMask ≠ 0 then (value ||| alignMask) + 1 else value

/-- `align_up` as the debug build runs it: the `+ 1` of its first branch panics past
`usize::MAX`, which is `none`. -/
def alignUpChecked (value alignment : Nat) : Option Nat :=
  let alignMask := alignment - 1
  if value &&& alignMask ≠ 0 then checkedAdd (value ||| alignMask) 1 else some value

section AlignUp

variable {a : Nat}

/-- Closed form of `alignUp` at a power of two. -/
theorem alignUp_two_pow (v k : Nat) :
    alignUp v (2 ^ k) = if v % 2 ^ k = 0 then v else 2 ^ k * (v / 2 ^ k + 1) := by
  unfold alignUp
  simp only [Nat.and_two_pow_sub_one_eq_mod, PowTwo.or_two_pow_sub_one]
  by_cases h : v % 2 ^ k = 0
  · simp [h]
  · have : 0 < 2 ^ k := Nat.two_pow_pos k
    simp only [ne_eq, h, not_false_eq_true, if_true, if_false, Nat.mul_add, Nat.mul_one]
    omega

theorem alignUp_of_dvd (ha : a.isPowerOfTwo) {v : Nat} (h : a ∣ v) : alignUp v a = v := by
  obtain ⟨k, rfl⟩ := ha
  rw [alignUp_two_pow, if_pos (Nat.mod_eq_zero_of_dvd h)]

theorem dvd_alignUp (ha : a.isPowerOfTwo) (v : Nat) : a ∣ alignUp v a := by
  obtain ⟨k, rfl⟩ := ha
  rw [alignUp_two_pow]
  split_ifs with h
  · exact Nat.dvd_of_mod_eq_zero h
  · exact Nat.dvd_mul_right _ _

theorem le_alignUp (ha : a.isPowerOfTwo) (v : Nat) : v ≤ alignUp v a := by
  obtain ⟨k, rfl⟩ := ha
  have hdiv := Nat.div_add_mod v (2 ^ k)
  have hmod := Nat.mod_lt v (Nat.two_pow_pos k)
  rw [alignUp_two_pow]
  split_ifs
  · exact le_refl v
  · rw [Nat.mul_add, Nat.mul_one]
    omega

theorem alignUp_lt (ha : a.isPowerOfTwo) (v : Nat) : alignUp v a < v + a := by
  obtain ⟨k, rfl⟩ := ha
  have hdiv := Nat.div_add_mod v (2 ^ k)
  rw [alignUp_two_pow]
  split_ifs
  · exact Nat.lt_add_of_pos_right (Nat.two_pow_pos k)
  · rw [Nat.mul_add, Nat.mul_one]
    omega

/-- `alignUp v a` is the least multiple of `a` above `v`. -/
theorem alignUp_le_of_dvd (ha : a.isPowerOfTwo) {v m : Nat} (hm : a ∣ m) (hvm : v ≤ m) :
    alignUp v a ≤ m := by
  have hpos : 0 < a := Nat.pos_of_isPowerOfTwo ha
  obtain ⟨q, rfl⟩ := hm
  obtain ⟨r, hr⟩ := dvd_alignUp ha v
  have hlt := alignUp_lt ha v
  have : r < q + 1 := by
    by_contra hq
    have : a * (q + 1) ≤ a * r := Nat.mul_le_mul_left a (by omega)
    rw [Nat.mul_add, Nat.mul_one] at this
    omega
  rw [hr]
  exact Nat.mul_le_mul_left a (by omega)

theorem alignUp_eq_self_iff (ha : a.isPowerOfTwo) (v : Nat) : alignUp v a = v ↔ a ∣ v :=
  ⟨fun h => h ▸ dvd_alignUp ha v, alignUp_of_dvd ha⟩

/-- On a `usize`, the checked `align_up` completes exactly when `alignUp` fits in one. -/
theorem alignUpChecked_eq {v : Nat} (hv : v ≤ usizeMax) (a : Nat) :
    alignUpChecked v a = if alignUp v a ≤ usizeMax then some (alignUp v a) else none := by
  unfold alignUpChecked alignUp checkedAdd
  by_cases h : v &&& (a - 1) ≠ 0
  · simp only [if_pos h]
  · simp only [if_neg h, if_pos hv]

end AlignUp

section AlignDown

/-- `alignDown` of a `usize` at a power of two no larger than `2 ^ 64`. -/
theorem alignDown_two_pow {v k : Nat} (hv : v < 2 ^ 64) (hk : k ≤ 64) :
    alignDown v (2 ^ k) = 2 ^ k * (v / 2 ^ k) := by
  have hmask : usizeNot (2 ^ k - 1) = 2 ^ 64 - 2 ^ k := by
    have : 2 ^ k ≤ 2 ^ 64 := Nat.pow_le_pow_right (by decide) hk
    have : 0 < 2 ^ k := Nat.two_pow_pos k
    unfold usizeNot usizeMax
    omega
  unfold alignDown
  rw [hmask, PowTwo.and_two_pow_sub_two_pow hv hk]

theorem alignDown_of_dvd {v k : Nat} (hv : v < 2 ^ 64) (hk : k ≤ 64) (h : 2 ^ k ∣ v) :
    alignDown v (2 ^ k) = v := by
  rw [alignDown_two_pow hv hk, Nat.mul_div_cancel' h]

theorem dvd_alignDown {v k : Nat} (hv : v < 2 ^ 64) (hk : k ≤ 64) :
    2 ^ k ∣ alignDown v (2 ^ k) := by
  rw [alignDown_two_pow hv hk]
  exact Nat.dvd_mul_right _ _

theorem alignDown_le {v k : Nat} (hv : v < 2 ^ 64) (hk : k ≤ 64) : alignDown v (2 ^ k) ≤ v := by
  rw [alignDown_two_pow hv hk]
  exact Nat.mul_div_le v (2 ^ k)

/-- `alignDown` at `2 ^ k` clears the bits below `k` and keeps the others. -/
theorem testBit_alignDown {v k : Nat} (hv : v < 2 ^ 64) (hk : k ≤ 64) (j : Nat) :
    (alignDown v (2 ^ k)).testBit j = (decide (k ≤ j) && v.testBit j) := by
  rw [alignDown_two_pow hv hk, PowTwo.testBit_split _ k j]
  by_cases hj : j < k
  · simp [hj, Nat.mul_mod_right]
  · simp [hj, Nat.le_of_not_lt hj, Nat.testBit_div_two_pow,
      Nat.mul_div_cancel_left _ (Nat.two_pow_pos k), Nat.sub_add_cancel (Nat.le_of_not_lt hj)]

end AlignDown

end Helps
end MeetixOs
