import MeetixOs.Bits.BitFields
import MeetixOs.Core.Usize

/-!
# Ranges of bits: `bits_at` and `set_bits`

The range methods of `LibBits/src/bit_fields/impls.rs`, for a range `start..end` (which
`normalize_range` leaves as it is).  On an integer, `bits_at` shifts the bits above the range
out to the left and back, then the bits below it out to the right; `set_bits` checks that the
value survives the same double shift, clears the range with a mask built from `Self::MAX`, and
writes the value in.  Rust's `>>` is logical on the unsigned types and arithmetic on the signed
ones (`shiftRight`).  On a slice, a range of at most `BIT_LEN` bits lies in one element or
straddles two, and the two parts are read and written separately.

**Results.**
* `bitsAt_unsigned`, `getLsbD_readBits`: on an unsigned integer, `bits_at` is the bits of the
  range moved down to bit `0`; `setBits_unsigned`, `getLsbD_writeBits`,
  `bitsAt_setBits_unsigned`: `set_bits` writes a value that fits and keeps every other bit,
  and `bits_at` reads it back.
* `setBits_signed_breaks`: on a signed integer the arithmetic shift fills the range's top
  bit into the bits above it, so `set_bits` rejects a value that fits and `bits_at` does not
  read back what `set_bits` wrote.
* `sliceBitsAt_unsigned`, `sliceSetBits_unsigned`: the same on slices of unsigned integers,
  across the boundary of two elements; `sliceBits_round_trip` puts them together with
  `bit_at`.
-/

namespace MeetixOs
namespace Bits

section Numeric

variable {w : Nat}

/-- `>>`: logical on the unsigned types, arithmetic on the signed ones. -/
def shiftRight (signed : Bool) (x : BitVec w) (n : Nat) : BitVec w :=
  if signed then x.sshiftRight n else x >>> n

/-- `TBitFields::bits_at` on `start..end`. -/
def bitsAt (signed : Bool) (x : BitVec w) (start end_ : Nat) : Option (BitVec w) :=
  if start < w ∧ end_ ≤ w ∧ start < end_ then
    -- shift away high bits, then low bits
    let bits := shiftRight signed (x <<< (w - end_)) (w - end_)
    some (shiftRight signed bits start)
  else none

/-- `TBitFields::set_bits` on `start..end`. -/
def setBits (signed : Bool) (x : BitVec w) (start end_ : Nat) (bitsValues : BitVec w) :
    Option (BitVec w) :=
  if start < w ∧ end_ ≤ w ∧ start < end_ then
    let width := w - (end_ - start)
    -- "value does not fit into bit range"
    if shiftRight signed (bitsValues <<< width) width == bitsValues then
      let bitmask := ~~~(shiftRight signed (shiftRight signed
        (maxValue w signed <<< (w - end_)) (w - end_)) start <<< start)
      some ((x &&& bitmask) ||| bitsValues <<< start)
    else none
  else none

/-- What an unsigned `bits_at` computes. -/
def readBits (x : BitVec w) (s e : Nat) : BitVec w := (x <<< (w - e)) >>> (w - e) >>> s

/-- What an unsigned `set_bits` computes: the range cleared, and the value written in. -/
def writeBits (x v : BitVec w) (s e : Nat) : BitVec w :=
  (x &&& ~~~((BitVec.allOnes w <<< (w - e)) >>> (w - e) >>> s <<< s)) ||| v <<< s

theorem getLsbD_shiftLeft_ushiftRight (x : BitVec w) (a i : Nat) :
    ((x <<< a) >>> a).getLsbD i = (decide (i + a < w) && x.getLsbD i) := by
  simp only [BitVec.getLsbD_ushiftRight, BitVec.getLsbD_shiftLeft]
  by_cases h : i + a < w
  · simp [h, Nat.add_comm a i]
  · simp [h, Nat.add_comm a i]

theorem getLsbD_eq_false_of_toNat_lt {v : BitVec w} {n k : Nat} (hv : v.toNat < 2 ^ n)
    (hk : n ≤ k) : v.getLsbD k = false :=
  Nat.testBit_lt_two_pow (Nat.lt_of_lt_of_le hv (Nat.pow_le_pow_right (by decide) hk))

theorem toNat_lt_of_getLsbD {v : BitVec w} {n : Nat} (h : ∀ k, n ≤ k → v.getLsbD k = false) :
    v.toNat < 2 ^ n :=
  Nat.lt_pow_two_of_testBit v.toNat h

/-- An unsigned value below `2 ^ n` survives the check of `set_bits`. -/
theorem fits_unsigned {v : BitVec w} {n : Nat} (hn : n ≤ w) (hv : v.toNat < 2 ^ n) :
    (v <<< (w - n)) >>> (w - n) = v := by
  apply BitVec.eq_of_getLsbD_eq
  intro i hi
  rw [getLsbD_shiftLeft_ushiftRight]
  by_cases h : i < n
  · simp [show i + (w - n) < w by omega]
  · simp [getLsbD_eq_false_of_toNat_lt hv (Nat.le_of_not_lt h)]

/-- The mask of `set_bits` on an unsigned type clears exactly the range. -/
theorem getLsbD_bitmask {s e i : Nat} (he : e ≤ w) :
    (~~~((BitVec.allOnes w <<< (w - e)) >>> (w - e) >>> s <<< s)).getLsbD i =
      (decide (i < w) && !(decide (s ≤ i) && decide (i < e))) := by
  simp only [BitVec.getLsbD_not, BitVec.getLsbD_shiftLeft, BitVec.getLsbD_ushiftRight,
    BitVec.getLsbD_allOnes]
  by_cases hiw : i < w <;> by_cases hsi : s ≤ i <;> by_cases hie : i < e <;>
    simp [hiw, hsi, hie] <;> omega

theorem bitsAt_unsigned {x : BitVec w} {s e : Nat} (hs : s < e) (he : e ≤ w) :
    bitsAt false x s e = some (readBits x s e) := by
  simp [bitsAt, readBits, shiftRight, show s < w by omega, he, hs]

/-- Bit `k` of what an unsigned `bits_at` reads is bit `s + k` of the value, inside the
range, and clear above it. -/
theorem getLsbD_readBits {x : BitVec w} {s e k : Nat} (he : e ≤ w) :
    (readBits x s e).getLsbD k = (decide (k < e - s) && x.getLsbD (s + k)) := by
  have hlt : decide (s + k + (w - e) < w) = decide (k < e - s) :=
    decide_eq_decide.mpr (by omega)
  rw [readBits, BitVec.getLsbD_ushiftRight, getLsbD_shiftLeft_ushiftRight, hlt]

/-- Bit `i` of a range is bit `i - s` of what `bits_at` reads. -/
theorem getLsbD_readBits_sub {x : BitVec w} {s e i : Nat} (he : e ≤ w) (hs : s ≤ i) (hi : i < e) :
    (readBits x s e).getLsbD (i - s) = x.getLsbD i := by
  rw [getLsbD_readBits he, Nat.add_sub_cancel' hs]
  simp [show i - s < e - s by omega]

/-- A value whose bits below `k` are clear is a multiple of `2 ^ k`. -/
theorem toNat_mod_two_pow_eq_zero {x : BitVec w} {k : Nat} (h : ∀ i < k, x.getLsbD i = false) :
    x.toNat % 2 ^ k = 0 := by
  apply Nat.eq_of_testBit_eq
  intro i
  rw [Nat.testBit_mod_two_pow, Nat.zero_testBit]
  by_cases hi : i < k
  · simp [hi, BitVec.testBit_toNat, h i hi]
  · simp [hi]

/-- `bits_at` followed by a cast to the width of the range is `extractLsb'`. -/
theorem setWidth_readBits {x : BitVec w} {s n : Nat} (h : s + n ≤ w) :
    (readBits x s (s + n)).setWidth n = x.extractLsb' s n := by
  apply BitVec.eq_of_getLsbD_eq
  intro k hk
  rw [BitVec.getLsbD_setWidth, getLsbD_readBits h, BitVec.getLsbD_extractLsb']
  simp [hk]

theorem toNat_readBits_lt {x : BitVec w} {s e : Nat} (he : e ≤ w) :
    (readBits x s e).toNat < 2 ^ (e - s) :=
  toNat_lt_of_getLsbD fun k hk => by simp [getLsbD_readBits he, show ¬ k < e - s by omega]

theorem setBits_unsigned {x v : BitVec w} {s e : Nat} (hs : s < e) (he : e ≤ w)
    (hv : v.toNat < 2 ^ (e - s)) : setBits false x s e v = some (writeBits x v s e) := by
  have hfit := fits_unsigned (show e - s ≤ w by omega) hv
  simp [setBits, writeBits, shiftRight, maxValue, show s < w by omega, he, hs, hfit]

/-- An unsigned `set_bits` writes the value into the range and keeps every other bit. -/
theorem getLsbD_writeBits {x v : BitVec w} {s e i : Nat} (he : e ≤ w)
    (hv : v.toNat < 2 ^ (e - s)) :
    (writeBits x v s e).getLsbD i = if s ≤ i ∧ i < e then v.getLsbD (i - s) else x.getLsbD i := by
  rw [writeBits, BitVec.getLsbD_or, BitVec.getLsbD_and, getLsbD_bitmask he, BitVec.getLsbD_shiftLeft]
  by_cases hiw : i < w
  · by_cases hin : s ≤ i ∧ i < e
    · simp [hiw, hin.1, hin.2]
    · have hmask : (decide (s ≤ i) && decide (i < e)) = false := by simpa using hin
      have hshift : (!decide (i < s) && v.getLsbD (i - s)) = false := by
        by_cases hsi : s ≤ i
        · rw [getLsbD_eq_false_of_toNat_lt hv (by omega), Bool.and_false]
        · simp [Nat.lt_of_not_le hsi]
      simp [hiw, hin, hmask, hshift]
  · have hge : w ≤ i := Nat.le_of_not_lt hiw
    simp [hiw, BitVec.getLsbD_of_ge x i hge, show ¬ i < e by omega]

/-- On an unsigned integer, `bits_at` reads back what `set_bits` wrote. -/
theorem bitsAt_setBits_unsigned {x v : BitVec w} {s e : Nat} (hs : s < e) (he : e ≤ w)
    (hv : v.toNat < 2 ^ (e - s)) : bitsAt false (writeBits x v s e) s e = some v := by
  rw [bitsAt_unsigned hs he, Option.some.injEq]
  apply BitVec.eq_of_getLsbD_eq
  intro k _
  rw [getLsbD_readBits he, getLsbD_writeBits he hv]
  by_cases hk : k < e - s
  · simp [hk, show s + k < e by omega]
  · simp [hk, getLsbD_eq_false_of_toNat_lt hv (Nat.le_of_not_lt hk)]

/-- On `i8`, the value `4` fits in the range `0..3`, but `4 << 5 >> 5` is `-4`, so
`set_bits` rejects it, and `bits_at(0..3)` of `4` reads `-4`; writing `7` into `4..8` of
`-128` keeps the sign bit, and reading it back gives `-1`. -/
theorem setBits_signed_breaks :
    setBits true (0#8) 0 3 (4#8) = none ∧ bitsAt true (4#8) 0 3 = some (252#8) ∧
    setBits true (128#8) 4 8 (7#8) = some (240#8) ∧ bitsAt true (240#8) 4 8 = some (255#8) := by
  decide

end Numeric

section Slice

variable {w : Nat}

/-- `TBitArray::bits_at` on `start..end`: `bits_range.len()` is `end - start`, saturating. -/
def sliceBitsAt (signed : Bool) (xs : List (BitVec w)) (start end_ : Nat) : Option (BitVec w) :=
  if end_ - start ≤ w then
    let sliceStart := start / w
    let sliceEnd := end_ / w
    let bitStart := start % w
    let bitEnd := end_ % w
    (checkedSub sliceEnd sliceStart).bind fun d =>
      if d ≤ 1 then
        if sliceStart = sliceEnd then
          xs[sliceStart]?.bind fun x => bitsAt signed x bitStart bitEnd
        else if bitEnd = 0 then
          xs[sliceStart]?.bind fun x => bitsAt signed x bitStart w
        else
          -- the high part of the first element, then the low part of the next above it
          (xs[sliceStart]?.bind fun x => bitsAt signed x bitStart w).bind fun value =>
            (xs[sliceEnd]?.bind fun x => bitsAt signed x 0 bitEnd).bind fun high =>
              setBits signed value (w - bitStart) (end_ - start) high
      else none
  else none

/-- `self[i] = f(self[i])`, where `f` may panic. -/
def sliceUpdate (xs : List (BitVec w)) (i : Nat) (f : BitVec w → Option (BitVec w)) :
    Option (List (BitVec w)) :=
  xs[i]?.bind fun x => (f x).map fun y => xs.set i y

/-- `TBitArray::set_bits` on `start..end`. -/
def sliceSetBits (signed : Bool) (xs : List (BitVec w)) (start end_ : Nat)
    (bitsValues : BitVec w) : Option (List (BitVec w)) :=
  if end_ - start ≤ w then
    let sliceStart := start / w
    let sliceEnd := end_ / w
    let bitStart := start % w
    let bitEnd := end_ % w
    (checkedSub sliceEnd sliceStart).bind fun d =>
      if d ≤ 1 then
        if sliceStart = sliceEnd then
          sliceUpdate xs sliceStart fun x => setBits signed x bitStart bitEnd bitsValues
        else if bitEnd = 0 then
          sliceUpdate xs sliceStart fun x => setBits signed x bitStart w bitsValues
        else
          -- the low bits of the value to the first element, the rest to the next
          (bitsAt signed bitsValues 0 (w - bitStart)).bind fun low =>
            (sliceUpdate xs sliceStart fun x => setBits signed x bitStart w low).bind fun xs =>
              (bitsAt signed bitsValues (w - bitStart) w).bind fun high =>
                sliceUpdate xs sliceEnd fun x => setBits signed x 0 bitEnd high
      else none
  else none

/-- Bit `r` of element `q` is bit `q * w + r` of the slice. -/
theorem div_mod_of_lt {q r i : Nat} (hr : r < w) (hi : i = q * w + r) : i / w = q ∧ i % w = r := by
  subst hi
  constructor
  · rw [Nat.add_comm, Nat.add_mul_div_right _ _ (by omega), Nat.div_eq_of_lt hr, Nat.zero_add]
  · rw [Nat.add_comm, Nat.add_mul_mod_self_right, Nat.mod_eq_of_lt hr]

theorem sliceGet_of_getElem? {xs : List (BitVec w)} {q r i : Nat} {x : BitVec w}
    (hx : xs[q]? = some x) (hr : r < w) (hi : i = q * w + r) : sliceGet xs i = x.getLsbD r := by
  obtain ⟨hq, hrm⟩ := div_mod_of_lt hr hi
  rw [sliceGet, hq, hrm, hx]
  rfl

theorem sliceGet_set {xs : List (BitVec w)} {q : Nat} (y : BitVec w) (hq : q < xs.length)
    (i : Nat) : sliceGet (xs.set q y) i = if i / w = q then y.getLsbD (i % w) else sliceGet xs i := by
  unfold sliceGet
  split_ifs with hiq
  · rw [hiq, List.getElem?_set_self hq]
    rfl
  · rw [List.getElem?_set_ne (Ne.symm hiq)]

theorem sliceUpdate_eq {xs : List (BitVec w)} {q : Nat} {x y : BitVec w}
    {f : BitVec w → Option (BitVec w)} (hx : xs[q]? = some x) (hf : f x = some y) :
    sliceUpdate xs q f = some (xs.set q y) := by
  simp [sliceUpdate, hx, hf]

/-- Within the slice, `bit_at` is the bit of the element. -/
theorem sliceBitAt_eq_some {xs : List (BitVec w)} (hw : 0 < w) {i : Nat} (hi : i < sliceBitLen xs) :
    sliceBitAt xs i = some (sliceGet xs i) := by
  have hlt : i / w < xs.length :=
    Nat.div_lt_of_lt_mul (by simpa [sliceBitLen, Nat.mul_comm] using hi)
  rw [sliceBitAt_eq xs hw, sliceGet, List.getElem?_eq_getElem hlt]
  rfl

/-- Past the slice, `bit_at` panics. -/
theorem sliceBitAt_eq_none {xs : List (BitVec w)} (hw : 0 < w) {i : Nat} (hi : sliceBitLen xs ≤ i) :
    sliceBitAt xs i = none := by
  have hge : xs.length ≤ i / w := (Nat.le_div_iff_mul_le hw).mpr (by simpa [sliceBitLen] using hi)
  rw [sliceBitAt, List.getElem?_eq_none hge, Option.bind_none]

/-- A range of at most `w` bits starts in element `s / w` and ends in that element or the
next. -/
theorem sliceRange_split {s e : Nat} (hw : 0 < w) (hs : s < e) (hlen : e - s ≤ w) :
    s / w ≤ e / w ∧ e / w - s / w ≤ 1 := by
  have hsd := Nat.div_add_mod' s w
  have hed := Nat.div_add_mod' e w
  have hbs := Nat.mod_lt s hw
  refine ⟨Nat.div_le_div_right hs.le, ?_⟩
  by_contra h
  have hmul : (s / w + 2) * w ≤ e / w * w := Nat.mul_le_mul_right w (by omega)
  rw [Nat.add_mul] at hmul
  omega

/-- An element index below the end of the range is in the slice. -/
theorem lt_length_of_mul_add {xs : List (BitVec w)} {q r : Nat} (hr : 0 < r)
    (he : q * w + r ≤ sliceBitLen xs) : q < xs.length := by
  by_contra h
  have hmul : xs.length * w ≤ q * w := Nat.mul_le_mul_right w (Nat.le_of_not_lt h)
  simp only [sliceBitLen] at he
  omega

/-- The first element of a range inside the slice, and the `checked_sub` of the element
indexes, which does not underflow. -/
theorem sliceRange_first {xs : List (BitVec w)} {s e : Nat} (hw : 0 < w) (hs : s < e)
    (he : e ≤ sliceBitLen xs) (hlen : e - s ≤ w) :
    (∃ x, xs[s / w]? = some x) ∧ checkedSub (e / w) (s / w) = some (e / w - s / w) := by
  have hsd := Nat.div_add_mod' s w
  have hbs := Nat.mod_lt s hw
  have hqs : s / w < xs.length := lt_length_of_mul_add (r := s % w + 1) (by omega) (by omega)
  exact ⟨⟨_, List.getElem?_eq_getElem hqs⟩,
    checkedSub_eq_some.mpr ⟨(sliceRange_split hw hs hlen).1, rfl⟩⟩

/-- The second element of a range that ends inside it. -/
theorem sliceRange_second {xs : List (BitVec w)} {s e : Nat} (he : e ≤ sliceBitLen xs) (hqe : e / w = s / w + 1) (hbe0 : e % w ≠ 0) :
    ∃ x', xs[s / w + 1]? = some x' := by
  have hed := Nat.div_add_mod' e w
  rw [hqe] at hed
  have hqs' : s / w + 1 < xs.length :=
    lt_length_of_mul_add (r := e % w) (Nat.pos_of_ne_zero hbe0) (by omega)
  exact ⟨_, List.getElem?_eq_getElem hqs'⟩

/-- An unsigned `bits_at` on a slice reads, from bit `0` up, the bits of the range, whether it
lies in one element or straddles two. -/
theorem sliceBitsAt_unsigned {xs : List (BitVec w)} {s e : Nat} (hw : 0 < w) (hs : s < e)
    (he : e ≤ sliceBitLen xs) (hlen : e - s ≤ w) :
    ∃ y, sliceBitsAt false xs s e = some y ∧
      ∀ k, y.getLsbD k = (decide (k < e - s) && sliceGet xs (s + k)) := by
  have hsd := Nat.div_add_mod' s w
  have hed := Nat.div_add_mod' e w
  have hbs := Nat.mod_lt s hw
  have hbe := Nat.mod_lt e hw
  obtain ⟨hqle, hd⟩ := sliceRange_split hw hs hlen
  obtain ⟨⟨x, hx⟩, hsub⟩ := sliceRange_first hw hs he hlen
  simp only [sliceBitsAt, if_pos hlen, hsub, Option.bind_some, if_pos hd]
  split_ifs with hq hbe0
  · rw [← hq] at hed
    rw [hx, Option.bind_some, bitsAt_unsigned (by omega) hbe.le]
    refine ⟨_, rfl, fun k => ?_⟩
    rw [getLsbD_readBits hbe.le]
    by_cases hk : k < e - s
    · rw [sliceGet_of_getElem? hx (show s % w + k < w by omega) (by omega)]
      simp [hk, show k < e % w - s % w by omega]
    · simp [hk, show ¬ k < e % w - s % w by omega]
  · have hqe : e / w = s / w + 1 := by omega
    rw [hqe, Nat.add_one_mul] at hed
    rw [hx, Option.bind_some, bitsAt_unsigned hbs le_rfl]
    refine ⟨_, rfl, fun k => ?_⟩
    rw [getLsbD_readBits le_rfl]
    by_cases hk : k < e - s
    · rw [sliceGet_of_getElem? hx (show s % w + k < w by omega) (by omega)]
      simp [hk, show k < w - s % w by omega]
    · simp [hk, show ¬ k < w - s % w by omega]
  · have hqe : e / w = s / w + 1 := by omega
    obtain ⟨x', hx'⟩ := sliceRange_second he hqe hbe0
    rw [hqe, Nat.add_one_mul] at hed
    have hhigh := toNat_readBits_lt (x := x') (s := 0) hbe.le
    rw [show e % w - 0 = e - s - (w - s % w) by omega] at hhigh
    rw [hqe, hx, hx', Option.bind_some, Option.bind_some, bitsAt_unsigned hbs le_rfl,
      Option.bind_some, bitsAt_unsigned (Nat.pos_of_ne_zero hbe0) hbe.le, Option.bind_some,
      setBits_unsigned (by omega) hlen hhigh]
    refine ⟨_, rfl, fun k => ?_⟩
    rw [getLsbD_writeBits hlen hhigh, getLsbD_readBits le_rfl]
    split_ifs with hk
    · rw [getLsbD_readBits hbe.le,
        sliceGet_of_getElem? hx' (show k - (w - s % w) < w by omega)
          (by rw [Nat.add_one_mul]; omega)]
      simp [show k < e - s by omega, show k - (w - s % w) < e % w by omega]
    · by_cases hk' : k < w - s % w
      · rw [sliceGet_of_getElem? hx (show s % w + k < w by omega) (by omega)]
        simp [hk', show k < e - s by omega]
      · simp [hk', show ¬ k < e - s by omega]

/-- An unsigned `set_bits` of element `q` of a slice, where the value fits. -/
theorem sliceUpdate_setBits_unsigned {xs : List (BitVec w)} {q s e : Nat} {x v : BitVec w}
    (hx : xs[q]? = some x) (hs : s < e) (he : e ≤ w) (hv : v.toNat < 2 ^ (e - s)) :
    sliceUpdate xs q (setBits false · s e v) = some (xs.set q (writeBits x v s e)) :=
  sliceUpdate_eq hx (setBits_unsigned hs he hv)

/-- Writing bits `bs` to `be` of element `q` writes bits `q * w + bs` to `q * w + be` of the
slice. -/
theorem sliceGet_set_writeBits {xs : List (BitVec w)} {q bs be : Nat} {x v : BitVec w}
    (hw : 0 < w) (hx : xs[q]? = some x) (hbe : be ≤ w) (hv : v.toNat < 2 ^ (be - bs)) (i : Nat) :
    sliceGet (xs.set q (writeBits x v bs be)) i =
      if q * w + bs ≤ i ∧ i < q * w + be then v.getLsbD (i - (q * w + bs)) else sliceGet xs i := by
  have hq : q < xs.length := (List.getElem?_eq_some_iff.mp hx).1
  have hid := Nat.div_add_mod' i w
  have hir := Nat.mod_lt i hw
  rw [sliceGet_set _ hq]
  by_cases hiq : i / w = q
  · rw [if_pos hiq, getLsbD_writeBits hbe hv]
    rw [hiq] at hid
    by_cases hin : bs ≤ i % w ∧ i % w < be
    · rw [if_pos hin, if_pos ⟨by omega, by omega⟩]
      congr 1
      omega
    · rw [if_neg hin, if_neg (by omega)]
      exact (sliceGet_of_getElem? hx hir (by omega)).symm
  · have hout : ¬ (q * w + bs ≤ i ∧ i < q * w + be) := by
      rintro ⟨h1, h2⟩
      exact hiq (div_mod_of_lt (r := i - q * w) (by omega) (by omega)).1
    rw [if_neg hiq, if_neg hout]

/-- An unsigned `set_bits` on a slice writes a value that fits into the range, whether it lies
in one element or straddles two, and keeps every other bit. -/
theorem sliceSetBits_unsigned {xs : List (BitVec w)} {s e : Nat} {v : BitVec w} (hw : 0 < w)
    (hs : s < e) (he : e ≤ sliceBitLen xs) (hlen : e - s ≤ w) (hv : v.toNat < 2 ^ (e - s)) :
    ∃ ys, sliceSetBits false xs s e v = some ys ∧ ys.length = xs.length ∧
      ∀ i, sliceGet ys i = if s ≤ i ∧ i < e then v.getLsbD (i - s) else sliceGet xs i := by
  have hsd := Nat.div_add_mod' s w
  have hed := Nat.div_add_mod' e w
  have hbs := Nat.mod_lt s hw
  have hbe := Nat.mod_lt e hw
  obtain ⟨hqle, hd⟩ := sliceRange_split hw hs hlen
  obtain ⟨⟨x, hx⟩, hsub⟩ := sliceRange_first hw hs he hlen
  simp only [sliceSetBits, if_pos hlen, hsub, Option.bind_some, if_pos hd]
  split_ifs with hq hbe0
  · rw [← hq] at hed
    have hv' : v.toNat < 2 ^ (e % w - s % w) := by rwa [show e % w - s % w = e - s by omega]
    rw [sliceUpdate_setBits_unsigned hx (by omega) hbe.le hv']
    refine ⟨_, rfl, List.length_set .., fun i => ?_⟩
    rw [sliceGet_set_writeBits hw hx hbe.le hv' i, hsd, hed]
  · have hqe : e / w = s / w + 1 := by omega
    rw [hqe, Nat.add_one_mul] at hed
    have hend : s / w * w + w = e := by omega
    have hv' : v.toNat < 2 ^ (w - s % w) := by rwa [show w - s % w = e - s by omega]
    rw [sliceUpdate_setBits_unsigned hx hbs le_rfl hv']
    refine ⟨_, rfl, List.length_set .., fun i => ?_⟩
    rw [sliceGet_set_writeBits hw hx le_rfl hv' i, hsd, hend]
  · have hqe : e / w = s / w + 1 := by omega
    obtain ⟨x', hx'⟩ := sliceRange_second he hqe hbe0
    rw [hqe, Nat.add_one_mul] at hed
    have hx1 : (xs.set (s / w) (writeBits x (readBits v 0 (w - s % w)) (s % w) w))[s / w + 1]? =
        some x' := by
      rw [List.getElem?_set_ne (by omega), hx']
    have hlow := toNat_readBits_lt (x := v) (s := 0) (e := w - s % w) (by omega)
    rw [Nat.sub_zero] at hlow
    have hhigh : (readBits v (w - s % w) w).toNat < 2 ^ (e % w - 0) :=
      toNat_lt_of_getLsbD fun k hk => by
        rw [getLsbD_readBits le_rfl, getLsbD_eq_false_of_toNat_lt hv (by omega), Bool.and_false]
    rw [hqe, bitsAt_unsigned (by omega) (by omega), Option.bind_some,
      sliceUpdate_setBits_unsigned hx hbs le_rfl hlow, Option.bind_some,
      bitsAt_unsigned (by omega) le_rfl, Option.bind_some,
      sliceUpdate_setBits_unsigned hx1 (Nat.pos_of_ne_zero hbe0) hbe.le hhigh]
    refine ⟨_, rfl, by simp, fun i => ?_⟩
    have hmid : s / w * w + w = s + (w - s % w) := by omega
    rw [sliceGet_set_writeBits hw hx1 hbe.le hhigh, sliceGet_set_writeBits hw hx le_rfl hlow,
      Nat.add_one_mul, Nat.add_zero, hed, hsd, hmid, getLsbD_readBits le_rfl,
      getLsbD_readBits (by omega)]
    by_cases hhi : s + (w - s % w) ≤ i ∧ i < e
    · rw [if_pos hhi, if_pos ⟨by omega, hhi.2⟩]
      simp only [show i - (s + (w - s % w)) < w - (w - s % w) by omega, decide_true,
        Bool.true_and]
      congr 1
      omega
    · rw [if_neg hhi]
      by_cases hlo : s ≤ i ∧ i < s + (w - s % w)
      · rw [if_pos hlo, if_pos ⟨hlo.1, by omega⟩]
        simp only [show i - s < w - s % w - 0 by omega, decide_true, Bool.true_and, Nat.zero_add]
      · rw [if_neg hlo, if_neg (by omega)]

/-- Two slices of one length with the same bit `i` answer `bit_at(i)` alike. -/
theorem sliceBitAt_eq_of_sliceGet_eq {xs ys : List (BitVec w)} {i : Nat} (hw : 0 < w)
    (hl : ys.length = xs.length) (h : sliceGet ys i = sliceGet xs i) :
    sliceBitAt ys i = sliceBitAt xs i := by
  have hlen : sliceBitLen ys = sliceBitLen xs := by rw [sliceBitLen, sliceBitLen, hl]
  by_cases hi : i < sliceBitLen xs
  · rw [sliceBitAt_eq_some hw (hlen ▸ hi), sliceBitAt_eq_some hw hi, h]
  · rw [sliceBitAt_eq_none hw (by omega), sliceBitAt_eq_none hw (by omega)]

/-- The bit-range round trip on slices of an unsigned type: `bits_at` is the integer whose bit
`k` is `bit_at(start + k)`, and after `set_bits(start..end, v)` with `v` fitting the range,
`bits_at` reads `v` back and every bit outside the range is unchanged. -/
theorem sliceBits_round_trip {xs : List (BitVec w)} {s e : Nat} {v : BitVec w} (hw : 0 < w)
    (hs : s < e) (he : e ≤ sliceBitLen xs) (hlen : e - s ≤ w) (hv : v.toNat < 2 ^ (e - s)) :
    (∃ y, sliceBitsAt false xs s e = some y ∧
      (∀ k < e - s, sliceBitAt xs (s + k) = some (y.getLsbD k)) ∧
      ∀ k, e - s ≤ k → y.getLsbD k = false) ∧
    ∃ ys, sliceSetBits false xs s e v = some ys ∧ sliceBitsAt false ys s e = some v ∧
      ∀ i, (i < s ∨ e ≤ i) → sliceBitAt ys i = sliceBitAt xs i := by
  obtain ⟨y, hy, hbits⟩ := sliceBitsAt_unsigned hw hs he hlen
  obtain ⟨ys, hys, hl, hget⟩ := sliceSetBits_unsigned hw hs he hlen hv
  have he' : e ≤ sliceBitLen ys := by rwa [sliceBitLen, hl]
  obtain ⟨y', hy', hbits'⟩ := sliceBitsAt_unsigned hw hs he' hlen
  refine ⟨⟨y, hy, fun k hk => ?read, fun k hk => ?high⟩, ys, hys, ?back, fun i hi => ?frame⟩
  case read =>
    rw [sliceBitAt_eq_some hw (by omega), hbits, decide_eq_true hk, Bool.true_and]
  case high =>
    rw [hbits, decide_eq_false (by omega), Bool.false_and]
  case back =>
    rw [hy']
    congr 1
    apply BitVec.eq_of_getLsbD_eq
    intro k _
    rw [hbits', hget]
    by_cases hk : k < e - s
    · rw [if_pos ⟨by omega, by omega⟩, decide_eq_true hk, Bool.true_and, Nat.add_sub_cancel_left]
    · rw [decide_eq_false hk, Bool.false_and, getLsbD_eq_false_of_toNat_lt hv (by omega)]
  case frame =>
    exact sliceBitAt_eq_of_sliceGet_eq hw hl (by rw [hget, if_neg (by omega)])

theorem sliceBits_round_trip_straddle :
    0 < 8 ∧ 4 < 12 ∧ 12 ≤ sliceBitLen [0xF0#8, 0x0F#8] ∧ 12 - 4 ≤ 8 ∧
      (0xAB#8).toNat < 2 ^ (12 - 4) ∧
    ((∃ y, sliceBitsAt false [0xF0#8, 0x0F#8] 4 12 = some y ∧
      (∀ k < 12 - 4, sliceBitAt [0xF0#8, 0x0F#8] (4 + k) = some (y.getLsbD k)) ∧
      ∀ k, 12 - 4 ≤ k → y.getLsbD k = false) ∧
    ∃ ys, sliceSetBits false [0xF0#8, 0x0F#8] 4 12 (0xAB#8) = some ys ∧
      sliceBitsAt false ys 4 12 = some (0xAB#8) ∧
      ∀ i, (i < 4 ∨ 12 ≤ i) → sliceBitAt ys i = sliceBitAt [0xF0#8, 0x0F#8] i) :=
  ⟨by decide, by decide, by decide, by decide, by decide,
    sliceBits_round_trip (by decide) (by decide) (by decide) (by decide) (by decide)⟩

end Slice

end Bits
end MeetixOs
