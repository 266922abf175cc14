import Mathlib.Data.Nat.Bitwise

/-!
# Power-of-two masks on natural numbers

Rounding an address to a power-of-two boundary is written in systems code with masks:
`v | (a - 1)` sets the bits below the boundary and `v & !(a - 1)` clears them.  This module
gives the closed forms of these two masks on `Nat`, from which the rounding functions of a
program get their arithmetic specification.

**Results.**
* `or_two_pow_sub_one`: `v ||| (2 ^ k - 1) = 2 ^ k * (v / 2 ^ k) + (2 ^ k - 1)`.
* `and_two_pow_sub_two_pow`: below `2 ^ n`, masking with `2 ^ n - 2 ^ k` (the `n`-bit
  complement of `2 ^ k - 1`) rounds down to a multiple of `2 ^ k`.
* `dvd_or_dvd`: of two powers of two, one divides the other.
-/

namespace MeetixOs
namespace PowTwo

/-- Bit `j` of `v`, split at the boundary `k`. -/
theorem testBit_split (v k j : Nat) :
    v.testBit j = if j < k then (v % 2 ^ k).testBit j else (v / 2 ^ k).testBit (j - k) := by
  conv_lhs => rw [← Nat.div_add_mod v (2 ^ k)]
  exact Nat.testBit_two_pow_mul_add _ (Nat.mod_lt _ (Nat.two_pow_pos k)) j

/-- Setting the low `k` bits keeps the high part and fills the low part with ones. -/
theorem or_two_pow_sub_one (v k : Nat) :
    v ||| (2 ^ k - 1) = 2 ^ k * (v / 2 ^ k) + (2 ^ k - 1) := by
  apply Nat.eq_of_testBit_eq
  intro j
  rw [Nat.testBit_or, Nat.testBit_two_pow_mul_add _ (Nat.sub_lt (Nat.two_pow_pos k) Nat.one_pos),
    testBit_split v k j]
  by_cases hj : j < k
  · simp [hj]
  · simp [hj, Nat.testBit_two_pow_sub_one]

/-- Bit `j` of `2 ^ n - 2 ^ k`: the bits from `k` to `n - 1`. -/
theorem testBit_two_pow_sub_two_pow {n k : Nat} (hk : k ≤ n) (j : Nat) :
    (2 ^ n - 2 ^ k).testBit j = decide (k ≤ j ∧ j < n) := by
  have hsplit : 2 ^ n - 2 ^ k = 2 ^ k * (2 ^ (n - k) - 1) + 0 := by
    rw [Nat.mul_sub_one, ← Nat.pow_add, Nat.add_sub_cancel' hk, Nat.add_zero]
  rw [hsplit, Nat.testBit_two_pow_mul_add _ (Nat.two_pow_pos k) j]
  by_cases hj : j < k
  · simp [hj]
  · simp only [hj, if_false, Nat.testBit_two_pow_sub_one]
    apply decide_eq_decide.mpr
    omega

/-- Clearing the low `k` bits of an `n`-bit value rounds it down to a multiple of `2 ^ k`. -/
theorem and_two_pow_sub_two_pow {v n k : Nat} (hv : v < 2 ^ n) (hk : k ≤ n) :
    v &&& (2 ^ n - 2 ^ k) = 2 ^ k * (v / 2 ^ k) := by
  apply Nat.eq_of_testBit_eq
  intro j
  rw [Nat.testBit_and, testBit_two_pow_sub_two_pow hk, Nat.testBit_two_pow_mul,
    testBit_split v k j]
  by_cases hj : j < k
  · simp [hj, Nat.not_le.mpr hj]
  · by_cases hjn : j < n
    · simp [hj, hjn, Nat.le_of_not_lt hj]
    · have hbit : v.testBit j = false :=
        Nat.testBit_lt_two_pow (lt_of_lt_of_le hv (Nat.pow_le_pow_right (by decide)
          (Nat.le_of_not_lt hjn)))
      rw [testBit_split v k j, if_neg hj] at hbit
      simp [hj, hjn, hbit]

/-- Of two powers of two, the smaller divides the larger. -/
theorem dvd_or_dvd {a b : Nat} (ha : a.isPowerOfTwo) (hb : b.isPowerOfTwo) : a ∣ b ∨ b ∣ a := by
  obtain ⟨i, rfl⟩ := ha
  obtain ⟨j, rfl⟩ := hb
  rcases Nat.le_total i j with h | h
  · exact Or.inl (Nat.pow_dvd_pow 2 h)
  · exact Or.inr (Nat.pow_dvd_pow 2 h)

end PowTwo
end MeetixOs
