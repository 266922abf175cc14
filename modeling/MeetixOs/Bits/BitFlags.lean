import MeetixOs.Bits.BitFields
import Mathlib

/-!
# Bit flags: `BitFlags<B, T>` as a set of flag values

A model of `LibBits/src/bit_flags.rs`.  A `BitFlags<B, T>` wraps a raw integer `B`, here its
bit pattern `BitVec w`, and reads bit `i` as the flag value of `T` whose index is `i`.  A flag
type implements `TBitFlagsValues`, that is `Into<usize>` and `TryFrom<usize>`; every flag type
of the repository derives both with `IntoPrimitive` and `TryFromPrimitive` from a `repr(usize)`
enumeration, so `try_from(i)` succeeds exactly on the discriminants (`FlagValues`).  A failed
`assert!` is `none`.

The operators come in two families.  Between two `BitFlags` and in their assign forms they
are the operator on the raw bits (`rawOp`).  With a flag value on the right they are written
with `is_enabled` and `set`, each in its own way.

**Results.**
* `set_spec`: `set` changes the membership of one flag value alone; `foldlM_bitorFlag`: `|`-ing
  flag values on one after another sets their bits.
* `bitandAssignFlag_eq`: `f &= t` leaves `f` as it is.
* `fromRaw_eq_some_iff`: `from_raw` accepts a raw value exactly when every index below
  `BIT_LEN` is the index of a flag value, whatever bits the raw value has;
  `fromRawTruncate_spec`: `from_raw_truncate` clears the bits that are no index.
* `bitFlags_lineStatus_breaks`: on the `LineStatusBits` of the UART, `from_raw` rejects a value
  made of its two flags, and `f &= InputFull` keeps `OutputEmpty`.
-/

namespace MeetixOs
namespace Bits

/-- `TBitFlagsValues`: `Into<usize>` and `TryFrom<usize>`, as `IntoPrimitive` and
`TryFromPrimitive` derive them for an enumeration, so that `try_from` inverts `into`. -/
class FlagValues (T : Type) where
  into : T → Nat
  tryFrom : Nat → Option T
  tryFrom_eq_some_iff : ∀ i t, tryFrom i = some t ↔ into t = i

/-- `BitFlags<B, T>`: the raw bits; `T` only names the flag type. -/
structure BitFlags (w : Nat) (T : Type) where
  mRawBits : BitVec w
  deriving DecidableEq, Repr

/-- The `FlagValues` that the derives give an enumeration whose variants are `variants`, with
distinct discriminants: `try_from` finds the variant with the discriminant. -/
@[reducible]
def FlagValues.ofVariants {T : Type} (variants : List T) (into : T → Nat)
    (hall : ∀ t, t ∈ variants) (hnodup : (variants.map into).Nodup) : FlagValues T where
  into := into
  tryFrom i := variants.find? fun t => into t == i
  tryFrom_eq_some_iff i t := by
    constructor
    · intro h
      simpa using List.find?_some h
    · intro h
      have hsome : (variants.find? fun t => into t == i).isSome :=
        List.find?_isSome.mpr ⟨t, hall t, by simp [h]⟩
      obtain ⟨t', ht'⟩ := Option.isSome_iff_exists.mp hsome
      have hv : into t' = i := by simpa using List.find?_some ht'
      rw [ht', List.inj_on_of_nodup_map hnodup (hall t') (hall t) (hv.trans h.symm)]

section Flags

open FlagValues

variable {w : Nat} {T : Type} [FlagValues T]

theorem tryFrom_into (t : T) : tryFrom (into t) = some t :=
  (tryFrom_eq_some_iff _ _).mpr rfl

theorem into_injective : Function.Injective (into (T := T)) := fun t t' h => by
  have h' := tryFrom_into t
  rwa [h, tryFrom_into, Option.some.injEq, eq_comm] at h'

@[simp]
theorem into_inj {t t' : T} : into t = into t' ↔ t = t' := into_injective.eq_iff

/-- `i` is the index of a flag value exactly when `try_from(i)` succeeds. -/
theorem tryFrom_isSome_iff (i : Nat) : (tryFrom (T := T) i).isSome ↔ ∃ t : T, into t = i := by
  constructor
  · intro h
    obtain ⟨t, ht⟩ := Option.isSome_iff_exists.mp h
    exact ⟨t, (tryFrom_eq_some_iff i t).mp ht⟩
  · rintro ⟨t, rfl⟩
    rw [tryFrom_into]
    rfl

/-! ### The model -/

/-- `BitFlags::new_zero`: `B::default()` is zero. -/
def newZero : BitFlags w T := ⟨0#w⟩

/-- `BitFlags::raw_bits`. -/
def rawBits (f : BitFlags w T) : BitVec w := f.mRawBits

/-- `BitFlags::from_raw`: the loop returns `None` at the first index below `BIT_LEN` that
`try_from` rejects; it does not look at `raw_bits`. -/
def fromRaw (rawBits : BitVec w) : Option (BitFlags w T) :=
  if (List.range w).all fun bitIndex => (tryFrom (T := T) bitIndex).isSome then some ⟨rawBits⟩
  else none

/-- One round of the loop of `from_raw_truncate`. -/
def truncateStep (T : Type) [FlagValues T] (rawBits : BitVec w) (bitIndex : Nat) :
    Option (BitVec w) :=
  if (tryFrom (T := T) bitIndex).isSome then some rawBits else setBit rawBits bitIndex false

/-- `BitFlags::from_raw_truncate`, also `From<B>`. -/
def fromRawTruncate (rawBits : BitVec w) : Option (BitFlags w T) :=
  ((List.range w).foldlM (truncateStep T) rawBits).map BitFlags.mk

/-- `BitFlags::is_enabled`. -/
def isEnabled (f : BitFlags w T) (bit : T) : Option Bool :=
  if into bit < w then bitAt f.mRawBits (into bit) else none

/-- `BitFlags::is_disabled`. -/
def isDisabled (f : BitFlags w T) (bit : T) : Option Bool := (isEnabled f bit).map (!·)

/-- `BitFlags::is_any_of`. -/
def isAnyOf (f : BitFlags w T) : List T → Option Bool
  | [] => some false
  | bit :: bits => (isEnabled f bit).bind fun e => if e then some true else isAnyOf f bits

/-- `BitFlags::is_all_of`. -/
def isAllOf (f : BitFlags w T) : List T → Option Bool
  | [] => some true
  | bit :: bits => (isDisabled f bit).bind fun d => if d then some false else isAllOf f bits

/-- `BitFlags::set`. -/
def set (f : BitFlags w T) (bit : T) (bitValue : Bool) : Option (BitFlags w T) :=
  if into bit < w then (setBit f.mRawBits (into bit) bitValue).map BitFlags.mk else none

/-- `BitFlags::set_enabled`. -/
def setEnabled (f : BitFlags w T) (bit : T) : Option (BitFlags w T) := set f bit true

/-- `BitFlags::set_disabled`. -/
def setDisabled (f : BitFlags w T) (bit : T) : Option (BitFlags w T) := set f bit false

/-- The operators between two `BitFlags` and their assign forms: `op` on the raw bits. -/
def rawOp (op : BitVec w → BitVec w → BitVec w) (f rhs : BitFlags w T) : BitFlags w T :=
  ⟨op f.mRawBits rhs.mRawBits⟩

/-- `BitOr::bitor`. -/
def bitor (f rhs : BitFlags w T) : BitFlags w T := rawOp (· ||| ·) f rhs

/-- `BitOrAssign::bitor_assign`: the new value of `self`. -/
def bitorAssign (f rhs : BitFlags w T) : BitFlags w T := rawOp (· ||| ·) f rhs

/-- `BitAnd::bitand`. -/
def bitand (f rhs : BitFlags w T) : BitFlags w T := rawOp (· &&& ·) f rhs

/-- `BitAndAssign::bitand_assign`. -/
def bitandAssign (f rhs : BitFlags w T) : BitFlags w T := rawOp (· &&& ·) f rhs

/-- `BitXor::bitxor`. -/
def bitxor (f rhs : BitFlags w T) : BitFlags w T := rawOp (· ^^^ ·) f rhs

/-- `BitXorAssign::bitxor_assign`. -/
def bitxorAssign (f rhs : BitFlags w T) : BitFlags w T := rawOp (· ^^^ ·) f rhs

/-- `Not::not`. -/
def not (f : BitFlags w T) : BitFlags w T := ⟨~~~f.mRawBits⟩

/-- `BitOr<T>::bitor`: a copy with `rhs` enabled. -/
def bitorFlag (f : BitFlags w T) (rhs : T) : Option (BitFlags w T) := setEnabled f rhs

/-- `BitOrAssign<T>::bitor_assign`. -/
def bitorAssignFlag (f : BitFlags w T) (rhs : T) : Option (BitFlags w T) := setEnabled f rhs

/-- `BitAnd<T>::bitand`: zero, with `rhs` enabled when it is enabled in `self`. -/
def bitandFlag (f : BitFlags w T) (rhs : T) : Option (BitFlags w T) :=
  (isEnabled f rhs).bind fun enabled => if enabled then setEnabled newZero rhs else some newZero

/-- `BitAndAssign<T>::bitand_assign`: `self.set(rhs, self.is_enabled(rhs))`. -/
def bitandAssignFlag (f : BitFlags w T) (rhs : T) : Option (BitFlags w T) :=
  (isEnabled f rhs).bind fun enabled => set f rhs enabled

/-- `BitXor<T>::bitxor`: the raw bits xor those of `rhs` alone. -/
def bitxorFlag (f : BitFlags w T) (rhs : T) : Option (BitFlags w T) :=
  (setEnabled newZero rhs).map fun rhsBf => ⟨f.mRawBits ^^^ rhsBf.mRawBits⟩

/-- `BitXorAssign<T>::bitxor_assign`. -/
def bitxorAssignFlag (f : BitFlags w T) (rhs : T) : Option (BitFlags w T) :=
  (setEnabled newZero rhs).map fun rhsBf => ⟨f.mRawBits ^^^ rhsBf.mRawBits⟩

/-! ### The set of enabled flag values -/

/-- The flag values whose bit is set. -/
def enabled (f : BitFlags w T) : Set T := {t | f.mRawBits.getLsbD (into t) = true}

@[simp]
theorem mem_enabled {f : BitFlags w T} {t : T} :
    t ∈ enabled f ↔ f.mRawBits.getLsbD (into t) = true := Iff.rfl

theorem isEnabled_eq (f : BitFlags w T) {t : T} (ht : into t < w) :
    isEnabled f t = some (f.mRawBits.getLsbD (into t)) := by
  rw [isEnabled, if_pos ht, bitAt, if_pos ht, testBit_eq_getLsbD _ ht]

/-- `set` changes the bit of one flag value, and so its membership alone. -/
theorem set_spec (f : BitFlags w T) {t : T} (ht : into t < w) (v : Bool) :
    ∃ f', set f t v = some f' ∧
      ∀ t', t' ∈ enabled f' ↔ if into t' = into t then v = true else t' ∈ enabled f := by
  obtain ⟨y, hy⟩ := Option.isSome_iff_exists.mp (setBit_isSome (x := f.mRawBits) v ht)
  refine ⟨⟨y⟩, by rw [set, if_pos ht, hy, Option.map_some], fun t' => ?_⟩
  rw [mem_enabled, setBit_getLsbD hy]
  by_cases h : into t' = into t
  · rw [if_pos h, if_pos h]
  · rw [if_neg h, if_neg h, mem_enabled]

/-- `|`-ing flag values on one after another sets their bits and keeps every other bit. -/
theorem foldlM_bitorFlag {ts : List T} (hts : ∀ t ∈ ts, into t < w) (f : BitFlags w T) :
    ∃ g, ts.foldlM bitorFlag f = some g ∧
      ∀ i, g.mRawBits.getLsbD i = (f.mRawBits.getLsbD i || decide (∃ t ∈ ts, into t = i)) := by
  induction ts generalizing f with
  | nil => exact ⟨f, rfl, fun i => by simp⟩
  | cons t ts ih =>
    have ht := hts t List.mem_cons_self
    obtain ⟨y, hy⟩ := Option.isSome_iff_exists.mp (setBit_isSome (x := f.mRawBits) true ht)
    have hset : bitorFlag f t = some ⟨y⟩ := by
      rw [bitorFlag, setEnabled, set, if_pos ht, hy, Option.map_some]
    obtain ⟨g, hg, hbits⟩ := ih (fun t' ht' => hts t' (List.mem_cons_of_mem t ht')) ⟨y⟩
    refine ⟨g, by rw [List.foldlM_cons, hset, Option.bind_eq_bind, Option.bind_some, hg], fun i => ?_⟩
    rw [hbits, setBit_getLsbD hy]
    by_cases hi : i = into t
    · subst hi
      simp
    · simp [hi, eq_comm]

/-- `f &= t` sets the bit of `t` to its own value: `f` stays as it is. -/
theorem bitandAssignFlag_eq (f : BitFlags w T) {t : T} (ht : into t < w) :
    bitandAssignFlag f t = some f := by
  rw [bitandAssignFlag, isEnabled_eq f ht, Option.bind_some, set, if_pos ht]
  obtain ⟨y, hy⟩ :=
    Option.isSome_iff_exists.mp (setBit_isSome (x := f.mRawBits) (f.mRawBits.getLsbD (into t)) ht)
  have hyf : y = f.mRawBits := BitVec.eq_of_getLsbD_eq fun i _ => by
    rw [setBit_getLsbD hy]
    split_ifs with h
    · rw [h]
    · rfl
  rw [hy, Option.map_some, hyf]

/-! ### Building from a raw value -/

/-- `from_raw` accepts `raw_bits` as it is when every index below `BIT_LEN` is the index of a
flag value, and rejects it otherwise, whichever of its bits are set. -/
theorem fromRaw_eq_some_iff {r : BitVec w} {f : BitFlags w T} :
    fromRaw r = some f ↔ f.mRawBits = r ∧ ∀ i < w, ∃ t : T, into t = i := by
  rw [fromRaw]
  split_ifs with h
  · rw [List.all_eq_true] at h
    constructor
    · rintro ⟨⟩
      exact ⟨rfl, fun i hi => (tryFrom_isSome_iff i).mp (h i (List.mem_range.mpr hi))⟩
    · rintro ⟨hr, -⟩
      rw [← hr]
  · constructor
    · rintro ⟨⟩
    rintro ⟨-, hall⟩
    refine absurd (List.all_eq_true.mpr fun i hi => ?_) h
    exact (tryFrom_isSome_iff i).mpr (hall i (List.mem_range.mp hi))

/-- One round of `from_raw_truncate` clears bit `j` when it is no index. -/
theorem truncateStep_spec (r : BitVec w) {j : Nat} (hj : j < w) :
    ∃ r', truncateStep T r j = some r' ∧
      ∀ i, r'.getLsbD i = if i = j ∧ (tryFrom (T := T) i).isSome = false then false
        else r.getLsbD i := by
  unfold truncateStep
  by_cases h : (tryFrom (T := T) j).isSome
  · refine ⟨r, if_pos h, fun i => ?_⟩
    rw [if_neg]
    rintro ⟨rfl, h'⟩
    rw [h] at h'
    cases h'
  · obtain ⟨y, hy⟩ := Option.isSome_iff_exists.mp (setBit_isSome (x := r) false hj)
    refine ⟨y, by rw [if_neg h, hy], fun i => ?_⟩
    rw [setBit_getLsbD hy]
    by_cases hij : i = j
    · subst hij
      rw [if_pos rfl, if_pos ⟨rfl, Bool.eq_false_iff.mpr h⟩]
    · rw [if_neg hij, if_neg fun h' => hij h'.1]

/-- The loop of `from_raw_truncate` over the indices of `l` clears those that are no index. -/
theorem foldlM_truncateStep {l : List Nat} (hl : ∀ j ∈ l, j < w) (r : BitVec w) :
    ∃ r', l.foldlM (truncateStep T) r = some r' ∧
      ∀ i, r'.getLsbD i = if i ∈ l ∧ (tryFrom (T := T) i).isSome = false then false
        else r.getLsbD i := by
  induction l generalizing r with
  | nil => exact ⟨r, rfl, fun i => by simp⟩
  | cons j l ih =>
    obtain ⟨r₁, h₁, hbits₁⟩ := truncateStep_spec (T := T) r (hl j List.mem_cons_self)
    obtain ⟨r', h', hbits'⟩ := ih (fun k hk => hl k (List.mem_cons_of_mem _ hk)) r₁
    refine ⟨r', by rw [List.foldlM_cons, h₁]; exact h', fun i => ?_⟩
    rw [hbits', hbits₁]
    by_cases hv : (tryFrom (T := T) i).isSome = false
    · simp only [hv, and_true, List.mem_cons]
      by_cases hj : i = j <;> by_cases hi : i ∈ l <;> simp [hj, hi]
    · simp [hv]

/-- `from_raw_truncate` keeps exactly the set bits that are indices of flag values. -/
theorem fromRawTruncate_spec (r : BitVec w) :
    ∃ f, fromRawTruncate (T := T) r = some f ∧
      ∀ i, f.mRawBits.getLsbD i = (r.getLsbD i && (tryFrom (T := T) i).isSome) := by
  obtain ⟨r', h', hbits'⟩ :=
    foldlM_truncateStep (T := T) (l := List.range w) (fun j hj => List.mem_range.mp hj) r
  refine ⟨⟨r'⟩, by rw [fromRawTruncate, h', Option.map_some], fun i => ?_⟩
  rw [hbits']
  by_cases hi : i < w
  · cases hv : (tryFrom (T := T) i).isSome <;> simp [hi]
  · rw [if_neg fun h => hi (List.mem_range.mp h.1), BitVec.getLsbD_of_ge r i (by omega),
      Bool.false_and]

end Flags

/-! ### The line status of the UART -/

/-- `LineStatusBits` of `arch/x86_64/dev/hw_uart.rs`, read by `line_status` from a `u8`. -/
inductive LineStatusBits
  | inputFull
  | outputEmpty
  deriving DecidableEq, Repr

/-- The discriminants: `InputFull` is `0`, `OutputEmpty` is `5`. -/
instance : FlagValues LineStatusBits where
  into
    | .inputFull => 0
    | .outputEmpty => 5
  tryFrom i := if i = 0 then some .inputFull else if i = 5 then some .outputEmpty else none
  tryFrom_eq_some_iff i t := by
    cases t <;> split_ifs <;> simp_all <;> omega

/-- `0x21` is `InputFull | OutputEmpty`, yet `from_raw` rejects it, as it rejects every value
of a flag type with a gap below `BIT_LEN`; and `f &= InputFull` keeps `OutputEmpty`, which
`f & InputFull` drops. -/
theorem bitFlags_lineStatus_breaks :
    (∀ i < 8, (0x21#8).getLsbD i = true →
      (FlagValues.tryFrom (T := LineStatusBits) i).isSome) ∧
    fromRaw (T := LineStatusBits) (0x21#8) = none ∧
    bitandAssignFlag (⟨0x21#8⟩ : BitFlags 8 LineStatusBits) .inputFull = some ⟨0x21#8⟩ ∧
    bitandFlag (⟨0x21#8⟩ : BitFlags 8 LineStatusBits) .inputFull = some ⟨0x01#8⟩ := by
  decide

end Bits
end MeetixOs
