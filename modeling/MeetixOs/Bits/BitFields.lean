import Mathlib.Data.Finset.Card
import Mathlib.Order.Interval.Finset.Nat

/-!
# Bit fields of integers and of integer slices

A model of `LibBits/src/bit_fields`.  `impl_bit_fields_for_numeric!` implements
`TBitFields` for every integer type from `u8` to `i128`; a value of such a type is its bit
pattern, a `BitVec w` where `w` is `BIT_LEN`, and the one place where a signed type behaves
otherwise (`Self::MAX` in `find_bit`) takes `signed` as a parameter.  `TBitArray for [T]` is
over `List (BitVec w)`.  A failed `assert!` or an index out of bounds is `none`.

* `bitAt`, `setBit`, `findBit`: the numeric methods.
* `sliceBitAt`, `sliceSetBit`, `sliceFindBit`: the slice methods; bit `i` of a slice is bit
  `i % BIT_LEN` of element `i / BIT_LEN`.

**Results.**
* `setBit_getLsbD`: `set_bit` changes one bit.
* `findBit_regular_spec`: a regular `find_bit` returns the least index holding the value.
* `sliceSetBit_get`, `sliceFindBit_regular_spec`: the same for slices.
* `sliceOnes_set`, `sliceOnes_clear`: the set bits of a slice as a `Finset`, and how
  `set_bit` changes it.
-/

namespace MeetixOs
namespace Bits

/-- `BitFindMode`. -/
inductive BitFindMode
  | regular
  | reverse
  deriving DecidableEq, Repr

/-- `a..=b`: `a, a + 1, …, b`, empty when `b < a`. -/
def rangeInclusive (a b : Nat) : List Nat := List.range' a (b + 1 - a)

section Numeric

variable {w : Nat}

/-- `Self::MAX` of the integer type of width `w`. -/
def maxValue (w : Nat) (signed : Bool) : BitVec w :=
  if signed then BitVec.ofNat w (2 ^ (w - 1) - 1) else BitVec.allOnes w

/-- `(*self & (1 << bit_index)) != 0`. -/
def testBit (x : BitVec w) (bitIndex : Nat) : Bool := x &&& 1#w <<< bitIndex != 0

/-- `TBitFields::bit_at`. -/
def bitAt (x : BitVec w) (bitIndex : Nat) : Option Bool :=
  if bitIndex < w then some (testBit x bitIndex) else none

/-- `TBitFields::set_bit`. -/
def setBit (x : BitVec w) (bitIndex : Nat) (bitValue : Bool) : Option (BitVec w) :=
  if bitIndex < w then
    some (if bitValue then x ||| 1#w <<< bitIndex else x &&& ~~~(1#w <<< bitIndex))
  else none

/-- `TBitFields::find_bit`.  A value all zeros or all ones answers at once; otherwise the
loop runs over `0..BIT_LEN`, or over `BIT_LEN - 1..=0` in reverse mode.  The `bit_at` of
the loops never fails its assertion. -/
def findBit (signed : Bool) (x : BitVec w) (bitValue : Bool) (findMode : BitFindMode) :
    Option Nat :=
  if (!bitValue && x == 0) || (bitValue && x == maxValue w signed) then
    match findMode with
    | .regular => some 0
    | .reverse => some (w - 1)
  else
    match findMode with
    | .regular => (List.range w).find? fun bitIndex => testBit x bitIndex == bitValue
    | .reverse => (rangeInclusive (w - 1) 0).find? fun bitIndex => testBit x bitIndex == bitValue

theorem one_shiftLeft_eq_twoPow (i : Nat) : 1#w <<< i = BitVec.twoPow w i := rfl

theorem twoPow_ne_zero {i : Nat} (hi : i < w) : BitVec.twoPow w i ≠ 0#w := by
  intro h
  have htoNat := congrArg BitVec.toNat h
  rw [BitVec.toNat_twoPow_of_lt hi, BitVec.toNat_zero] at htoNat
  exact (Nat.two_pow_pos i).ne' htoNat

theorem testBit_eq_getLsbD (x : BitVec w) {i : Nat} (hi : i < w) :
    testBit x i = x.getLsbD i := by
  unfold testBit
  rw [one_shiftLeft_eq_twoPow, BitVec.and_twoPow]
  cases x.getLsbD i <;> simp [twoPow_ne_zero hi]

/-- `set_bit` sets bit `i` to the value and keeps the others. -/
theorem setBit_getLsbD {x y : BitVec w} {i : Nat} {v : Bool} (h : setBit x i v = some y)
    (j : Nat) : y.getLsbD j = if j = i then v else x.getLsbD j := by
  unfold setBit at h
  by_cases hi : i < w
  · rw [if_pos hi, Option.some.injEq] at h
    subst h
    rw [one_shiftLeft_eq_twoPow]
    by_cases hji : j = i
    · subst hji
      cases v <;> simp [hi]
    · have hij : ¬ i = j := fun e => hji e.symm
      cases v
      · simpa [hji, hij] using BitVec.lt_of_getLsbD
      · simp [hji, hij]
  · rw [if_neg hi] at h
    cases h

theorem setBit_isSome {x : BitVec w} {i : Nat} (v : Bool) (hi : i < w) :
    (setBit x i v).isSome := by
  simp [setBit, hi]

theorem testBit_maxValue_unsigned {i : Nat} (hi : i < w) :
    testBit (maxValue w false) i = true := by
  simp [testBit_eq_getLsbD _ hi, maxValue, hi]

/-- Bit `0` of `Self::MAX` is set, for the signed types too once they have two bits. -/
theorem getLsbD_maxValue_zero (signed : Bool) (hw : 2 ≤ w) : (maxValue w signed).getLsbD 0 = true := by
  cases signed
  · simp [maxValue, show 0 < w by omega]
  · obtain ⟨k, hk⟩ : ∃ k, w - 1 = k + 1 := ⟨w - 2, by omega⟩
    have hodd : (2 ^ (w - 1) - 1) % 2 = 1 := by
      rw [hk, Nat.pow_succ]
      have := Nat.two_pow_pos k
      omega
    simp [maxValue, BitVec.getLsbD_ofNat, show 0 < w by omega, Nat.testBit_zero, hodd]

/-- The answer of the fast path of a regular `find_bit`: bit `0` has the value. -/
theorem findBit_fast_spec {signed : Bool} {x : BitVec w} {b : Bool} (hw : 0 < w)
    (hmax : (maxValue w signed).getLsbD 0 = true)
    (hfast : ((!b && x == 0) || (b && x == maxValue w signed)) = true) :
    0 < w ∧ x.getLsbD 0 = b ∧ ∀ j < 0, x.getLsbD j = !b := by
  refine ⟨hw, ?_, fun j hj => absurd hj (Nat.not_lt_zero j)⟩
  cases b
  · have hx : x = 0 := by simpa using hfast
    simp [hx]
  · have hx : x = maxValue w signed := by simpa using hfast
    rw [hx, hmax]

/-- The loop of a regular `find_bit`: the least index whose bit has the value, or none. -/
theorem find?_testBit_spec (x : BitVec w) (b : Bool) :
    match (List.range w).find? fun i => testBit x i == b with
    | some i => i < w ∧ x.getLsbD i = b ∧ ∀ j < i, x.getLsbD j = !b
    | none => ∀ j < w, x.getLsbD j = !b := by
  cases hfind : (List.range w).find? fun i => testBit x i == b with
  | some i =>
      obtain ⟨hb, hmem, hprev⟩ := List.find?_range_eq_some.mp hfind
      have hiw := List.mem_range.mp hmem
      refine ⟨hiw, by simpa [testBit_eq_getLsbD x hiw] using hb, fun j hj => ?_⟩
      have := hprev j (Nat.lt_of_lt_of_le hj (Nat.le_refl i))
      cases b <;> simpa [testBit_eq_getLsbD x (Nat.lt_trans hj hiw)] using this
  | none =>
      intro j hj
      have := List.find?_eq_none.mp hfind j (List.mem_range.mpr hj)
      cases b <;> simpa [testBit_eq_getLsbD x hj] using this

/-- A regular `find_bit` returns the least index whose bit has the value, and `None` only
when no bit has it. -/
theorem findBit_regular_spec (x : BitVec w) (hw : 0 < w) (b : Bool) :
    match findBit false x b .regular with
    | some i => i < w ∧ x.getLsbD i = b ∧ ∀ j < i, x.getLsbD j = !b
    | none => ∀ j < w, x.getLsbD j = !b := by
  unfold findBit
  split_ifs with hfast
  · have hmax := testBit_maxValue_unsigned (w := w) hw
    rw [testBit_eq_getLsbD _ hw] at hmax
    exact findBit_fast_spec hw hmax hfast
  · exact find?_testBit_spec x b

/-- The same for the signed types, whose `Self::MAX` is not all ones: the fast path still
answers bit `0`, which is set in `Self::MAX`. -/
theorem findBit_regular_spec_of_two_le (signed : Bool) (x : BitVec w) (hw : 2 ≤ w) (b : Bool) :
    match findBit signed x b .regular with
    | some i => i < w ∧ x.getLsbD i = b ∧ ∀ j < i, x.getLsbD j = !b
    | none => ∀ j < w, x.getLsbD j = !b := by
  unfold findBit
  split_ifs with hfast
  · exact findBit_fast_spec (by omega) (getLsbD_maxValue_zero signed hw) hfast
  · exact find?_testBit_spec x b

/-- `BIT_LEN - 1..=0` is an empty range once `BIT_LEN` is at least two. -/
theorem rangeInclusive_pred_zero (hw : 2 ≤ w) : rangeInclusive (w - 1) 0 = [] := by
  simp only [rangeInclusive, List.range'_eq_nil_iff]
  omega

/-- A reverse `find_bit` past the fast path finds nothing: its loop never runs. -/
theorem findBit_reverse_eq_none {signed : Bool} {x : BitVec w} {b : Bool} (hw : 2 ≤ w)
    (hslow : ((!b && x == 0) || (b && x == maxValue w signed)) = false) :
    findBit signed x b .reverse = none := by
  simp only [findBit, hslow, Bool.false_eq_true, if_false, rangeInclusive_pred_zero hw,
    List.find?_nil]

end Numeric

section Slice

variable {w : Nat}

/-- `TBitArray::bit_len`. -/
def sliceBitLen (xs : List (BitVec w)) : Nat := xs.length * w

/-- `TBitArray::bit_at`: bit `bit_index % BIT_LEN` of element `bit_index / BIT_LEN`. -/
def sliceBitAt (xs : List (BitVec w)) (bitIndex : Nat) : Option Bool :=
  xs[bitIndex / w]?.bind fun x => bitAt x (bitIndex % w)

/-- `TBitArray::set_bit`. -/
def sliceSetBit (xs : List (BitVec w)) (bitIndex : Nat) (bitValue : Bool) :
    Option (List (BitVec w)) :=
  xs[bitIndex / w]?.bind fun x =>
    (setBit x (bitIndex % w) bitValue).map fun y => xs.set (bitIndex / w) y

/-- The loop of a regular `TBitArray::find_bit` over the elements from `byteIndex` on. -/
def sliceFindBitFrom (signed : Bool) (bitValue : Bool) (findMode : BitFindMode) :
    Nat → List (BitVec w) → Option Nat
  | _, [] => none
  | byteIndex, value :: rest =>
    match findBit signed value bitValue findMode with
    | some bitIndex => some (byteIndex * w + bitIndex)
    | none => sliceFindBitFrom signed bitValue findMode (byteIndex + 1) rest

/-- `TBitArray::find_bit`: the reverse mode enumerates the reversed slice, so its
`byte_index` counts from the end. -/
def sliceFindBit (signed : Bool) (xs : List (BitVec w)) (bitValue : Bool)
    (findMode : BitFindMode) : Option Nat :=
  match findMode with
  | .regular => sliceFindBitFrom signed bitValue findMode 0 xs
  | .reverse => sliceFindBitFrom signed bitValue findMode 0 xs.reverse

/-- The bit `i` of a slice, `false` past its end. -/
def sliceGet (xs : List (BitVec w)) (i : Nat) : Bool :=
  (xs[i / w]?.map fun x => x.getLsbD (i % w)).getD false

theorem sliceBitAt_eq (xs : List (BitVec w)) (hw : 0 < w) (i : Nat) :
    sliceBitAt xs i = xs[i / w]?.map fun x => x.getLsbD (i % w) := by
  unfold sliceBitAt bitAt
  cases xs[i / w]? with
  | none => rfl
  | some x => simp [Nat.mod_lt i hw, testBit_eq_getLsbD x (Nat.mod_lt i hw)]

/-- Within the slice, `set_bit` succeeds. -/
theorem sliceSetBit_isSome {xs : List (BitVec w)} (hw : 0 < w) {i : Nat}
    (hi : i < sliceBitLen xs) (v : Bool) : (sliceSetBit xs i v).isSome := by
  have hlt : i / w < xs.length := Nat.div_lt_of_lt_mul (by simpa [sliceBitLen, Nat.mul_comm]
    using hi)
  unfold sliceSetBit
  rw [List.getElem?_eq_getElem hlt]
  simp [setBit, Nat.mod_lt i hw]

/-- A bit beyond the slice is out of bounds: `set_bit` panics. -/
theorem sliceSetBit_eq_none {xs : List (BitVec w)} (hw : 0 < w) {i : Nat}
    (hi : sliceBitLen xs ≤ i) (v : Bool) : sliceSetBit xs i v = none := by
  have hge : xs.length ≤ i / w := (Nat.le_div_iff_mul_le hw).mpr (by simpa [sliceBitLen] using hi)
  unfold sliceSetBit
  rw [List.getElem?_eq_none hge, Option.bind_none]

/-- A successful `set_bit` on a slice is `set_bit` on the element of the index, written back. -/
theorem sliceSetBit_eq_some {xs ys : List (BitVec w)} {i : Nat} {v : Bool}
    (h : sliceSetBit xs i v = some ys) :
    ∃ x y, xs[i / w]? = some x ∧ setBit x (i % w) v = some y ∧ ys = xs.set (i / w) y := by
  simp only [sliceSetBit, Option.bind_eq_some_iff, Option.map_eq_some_iff] at h
  obtain ⟨x, hx, y, hy, rfl⟩ := h
  exact ⟨x, y, hx, hy, rfl⟩

theorem sliceSetBit_length {xs ys : List (BitVec w)} {i : Nat} {v : Bool}
    (h : sliceSetBit xs i v = some ys) : ys.length = xs.length := by
  obtain ⟨x, y, -, -, rfl⟩ := sliceSetBit_eq_some h
  exact List.length_set

/-- `set_bit` on a slice changes bit `i` and keeps every other bit. -/
theorem sliceSetBit_get {xs ys : List (BitVec w)} {i : Nat} {v : Bool}
    (h : sliceSetBit xs i v = some ys) (j : Nat) :
    sliceGet ys j = if j = i then v else sliceGet xs j := by
  obtain ⟨x, y, hx, hy, rfl⟩ := sliceSetBit_eq_some h
  have hlt : i / w < xs.length := (List.getElem?_eq_some_iff.mp hx).1
  unfold sliceGet
  by_cases hblock : j / w = i / w
  · rw [hblock, List.getElem?_set_self hlt]
    simp only [Option.map_some, Option.getD_some, setBit_getLsbD hy]
    have hbit : j % w = i % w ↔ j = i := by
      constructor
      · intro hm
        rw [← Nat.div_add_mod j w, ← Nat.div_add_mod i w, hblock, hm]
      · rintro rfl
        rfl
    by_cases hji : j = i
    · simp [hji]
    · simp only [hbit.not.mpr hji, hji, if_false]
      rw [hx]
      rfl
  · have hji : j ≠ i := fun e => hblock (by rw [e])
    rw [List.getElem?_set_ne (Ne.symm hblock)]
    simp [hji]

theorem sliceGet_cons (x : BitVec w) (rest : List (BitVec w)) (hw : 0 < w) (j : Nat) :
    sliceGet (x :: rest) j = if j < w then x.getLsbD j else sliceGet rest (j - w) := by
  unfold sliceGet
  split_ifs with hj
  · simp [Nat.div_eq_of_lt hj, Nat.mod_eq_of_lt hj]
  · have hge : w ≤ j := Nat.le_of_not_lt hj
    rw [Nat.div_eq_sub_div hw hge, Nat.mod_eq_sub_mod hge]
    rfl

/-- Starting the loop one element later shifts its answer by `BIT_LEN`. -/
theorem sliceFindBitFrom_succ (signed b : Bool) (m : BitFindMode) :
    ∀ (xs : List (BitVec w)) (k : Nat),
      sliceFindBitFrom signed b m (k + 1) xs =
        (sliceFindBitFrom signed b m k xs).map (· + w)
  | [], _ => rfl
  | x :: rest, k => by
      unfold sliceFindBitFrom
      cases findBit signed x b m with
      | some i => simp only [Option.map_some, Nat.succ_mul, Nat.add_right_comm]
      | none => exact sliceFindBitFrom_succ signed b m rest (k + 1)

/-- A regular `find_bit` on a slice of unsigned integers returns the least index whose bit
has the value, and `None` only when no bit of the slice has it. -/
theorem sliceFindBit_regular_spec (hw : 0 < w) (b : Bool) :
    ∀ xs : List (BitVec w),
      match sliceFindBit false xs b .regular with
      | some i => i < sliceBitLen xs ∧ sliceGet xs i = b ∧ ∀ j < i, sliceGet xs j = !b
      | none => ∀ j < sliceBitLen xs, sliceGet xs j = !b
  | [] => by simp [sliceFindBit, sliceFindBitFrom, sliceBitLen]
  | x :: rest => by
      have hx := findBit_regular_spec x hw b
      have ih := sliceFindBit_regular_spec hw b rest
      unfold sliceFindBit at ih ⊢
      unfold sliceFindBitFrom
      simp only [sliceBitLen, List.length_cons, Nat.succ_mul] at ih ⊢
      cases hfind : findBit false x b .regular with
      | some i =>
          rw [hfind] at hx
          obtain ⟨hiw, hib, hprev⟩ := hx
          simp only [Nat.zero_mul, Nat.zero_add]
          refine ⟨by omega, ?_, fun j hj => ?_⟩
          · rw [sliceGet_cons x rest hw, if_pos hiw, hib]
          · rw [sliceGet_cons x rest hw, if_pos (Nat.lt_trans hj hiw), hprev j hj]
      | none =>
          rw [hfind] at hx
          rw [Nat.zero_add, sliceFindBitFrom_succ]
          cases hrest : sliceFindBitFrom false b .regular 0 rest with
          | some i =>
              rw [hrest] at ih
              obtain ⟨hir, hib, hprev⟩ := ih
              simp only [Option.map_some]
              refine ⟨by omega, ?_, fun j hj => ?_⟩
              · simp [sliceGet_cons x rest hw, hib]
              · rw [sliceGet_cons x rest hw]
                split_ifs with hjw
                · exact hx j hjw
                · exact hprev (j - w) (by omega)
          | none =>
              rw [hrest] at ih
              intro j hj
              rw [sliceGet_cons x rest hw]
              split_ifs with hjw
              · exact hx j hjw
              · exact ih (j - w) (by omega)

/-- The indices of the set bits of a slice. -/
def sliceOnes (xs : List (BitVec w)) : Finset Nat :=
  (Finset.range (sliceBitLen xs)).filter fun i => sliceGet xs i = true

theorem lt_sliceBitLen_of_sliceGet {xs : List (BitVec w)} {i : Nat}
    (h : sliceGet xs i = true) : i < sliceBitLen xs := by
  unfold sliceGet at h
  cases hx : xs[i / w]? with
  | none => simp [hx] at h
  | some x =>
      have hlt := (List.getElem?_eq_some_iff.mp hx).1
      rw [hx, Option.map_some, Option.getD_some] at h
      have hm := BitVec.lt_of_getLsbD h
      calc i = w * (i / w) + i % w := (Nat.div_add_mod i w).symm
        _ < w * (i / w) + w := by omega
        _ = w * (i / w + 1) := by rw [Nat.mul_succ]
        _ ≤ w * xs.length := Nat.mul_le_mul_left w hlt
        _ = sliceBitLen xs := Nat.mul_comm _ _

theorem mem_sliceOnes {xs : List (BitVec w)} {i : Nat} :
    i ∈ sliceOnes xs ↔ sliceGet xs i = true := by
  simp only [sliceOnes, Finset.mem_filter, Finset.mem_range, and_iff_right_iff_imp]
  exact lt_sliceBitLen_of_sliceGet

/-- Setting a bit adds its index to the set bits. -/
theorem sliceOnes_set {xs ys : List (BitVec w)} {i : Nat}
    (h : sliceSetBit xs i true = some ys) : sliceOnes ys = insert i (sliceOnes xs) := by
  ext j
  rw [Finset.mem_insert, mem_sliceOnes, mem_sliceOnes, sliceSetBit_get h]
  by_cases hji : j = i <;> simp [hji]

/-- Clearing a bit removes its index from the set bits. -/
theorem sliceOnes_clear {xs ys : List (BitVec w)} {i : Nat}
    (h : sliceSetBit xs i false = some ys) : sliceOnes ys = (sliceOnes xs).erase i := by
  ext j
  rw [Finset.mem_erase, mem_sliceOnes, mem_sliceOnes, sliceSetBit_get h]
  by_cases hji : j = i <;> simp [hji]

/-- Reverse `find_bit` gets the last matching bit wrong three ways: on `1u8` its loop
`BIT_LEN - 1..=0` does not run; on `i8::MAX` the fast path answers bit `7`, which is clear;
and on a slice the index of the reversed enumeration counts the elements from the end. -/
theorem findBit_reverse_misses :
    findBit false (1#8) true .reverse = none ∧ (1#8).getLsbD 0 = true ∧
    findBit true (maxValue 8 true) true .reverse = some 7 ∧ (maxValue 8 true).getLsbD 7 = false ∧
    sliceFindBit false [255#8, 0#8] true .reverse = some 15 ∧ sliceGet [255#8, 0#8] 15 = false := by
  decide

end Slice

end Bits
end MeetixOs
