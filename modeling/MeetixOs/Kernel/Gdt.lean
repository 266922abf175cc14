import MeetixOs.Bits.BitRanges
import MeetixOs.Bits.BitFlags

/-!
# The x86_64 GDT and the TSS descriptor

`arch/x86_64/gdt.rs` keeps the GDT as eight `usize` entries and the index of the next free
one, which starts at `1` after the null segment.  `add_entry` pushes a common segment as one
entry and a system segment as two, the low word first, and returns the selector
`index << 3 | ring`, the ring being `Ring3` for a common segment with `DplRing3` set and
`Ring0` otherwise; `push` panics when the table is full.  `Segment::tss_segment` builds the
system segment of a TSS from its address with `set_bits` and `bits_at`.  The segment flags
are `BitFlags<usize, SegmentFlagsBits>` (`MeetixOs.Bits.BitFlags`).

`SystemDesc` says how the processor reads a 16-byte system descriptor.

**Results.**
* `tssSegment_eq`: no assertion of `tss_segment` fails, whatever the address; the processor
  reads the descriptor with that address as its base (`base_tssBits`), the TSS's size less
  one as its limit, type `0b1001`, present set and DPL `0`.
* `addEntry_system`, `arrayIndex_new`, `cpuRingMode_new`: a system segment goes in at the
  selector's index, the high word right after it, with ring `Ring0`, when two entries are
  free.
* `gdt_tss_descriptor` puts the two together.
-/

namespace MeetixOs
namespace Kernel

open Bits

/-- `CpuRingMode` of `arch/x86_64/desc_table.rs`. -/
inductive CpuRingMode
  | ring0
  | ring1
  | ring2
  | ring3
  deriving DecidableEq, Repr

namespace CpuRingMode

/-- `cpu_ring_mode as u16`. -/
def toU16 : CpuRingMode → BitVec 16
  | ring0 => 0#16
  | ring1 => 1#16
  | ring2 => 2#16
  | ring3 => 3#16

/-- `From<u16>`; `none` is its panic on a value above `3`. -/
def fromU16 (rawValue : BitVec 16) : Option CpuRingMode :=
  match rawValue.toNat with
  | 0 => some ring0
  | 1 => some ring1
  | 2 => some ring2
  | 3 => some ring3
  | _ => none

theorem toNat_toU16_lt (cpuRingMode : CpuRingMode) : cpuRingMode.toU16.toNat < 2 ^ 2 := by
  cases cpuRingMode <;> decide

end CpuRingMode

/-- `SegmentFlagsBits`. -/
inductive SegmentFlagsBits
  | limit0 | limit1 | limit2 | limit3 | limit4 | limit5 | limit6 | limit7
  | limit8 | limit9 | limit10 | limit11 | limit12 | limit13 | limit14 | limit15
  | accessed | writeable | conforming | executable | userSegment | dplRing3 | present
  | limit16 | limit17 | limit18 | limit19
  | longMode | defaultSize | granularity
  deriving DecidableEq, Repr

namespace SegmentFlagsBits

/-- Every variant, in the order of the source. -/
def variants : List SegmentFlagsBits :=
  [limit0, limit1, limit2, limit3, limit4, limit5, limit6, limit7,
    limit8, limit9, limit10, limit11, limit12, limit13, limit14, limit15,
    accessed, writeable, conforming, executable, userSegment, dplRing3, present,
    limit16, limit17, limit18, limit19,
    longMode, defaultSize, granularity]

/-- The discriminants: the bit of the descriptor each flag is. -/
def into : SegmentFlagsBits → Nat
  | limit0 => 0 | limit1 => 1 | limit2 => 2 | limit3 => 3
  | limit4 => 4 | limit5 => 5 | limit6 => 6 | limit7 => 7
  | limit8 => 8 | limit9 => 9 | limit10 => 10 | limit11 => 11
  | limit12 => 12 | limit13 => 13 | limit14 => 14 | limit15 => 15
  | accessed => 40 | writeable => 41 | conforming => 42 | executable => 43
  | userSegment => 44 | dplRing3 => 45 | present => 47
  | limit16 => 48 | limit17 => 49 | limit18 => 50 | limit19 => 51
  | longMode => 53 | defaultSize => 54 | granularity => 55

instance : FlagValues SegmentFlagsBits :=
  FlagValues.ofVariants variants into (fun t => by cases t <;> decide) (by decide)

end SegmentFlagsBits

/-- `SegmentFlags`. -/
abbrev SegmentFlags := BitFlags 64 SegmentFlagsBits

/-- `size_of::<TaskStateSegment>()` of the `repr(C, packed)` layout of `tss.rs`: a `u32`,
three stack pointers, a `u32`, seven stack pointers, two `u32`s and two `u16`s. -/
def taskStateSegmentSize : Nat := 4 + 3 * 8 + 4 + 7 * 8 + 4 + 4 + 2 + 2

/-- `Segment`. -/
inductive Segment
  | common (rawValue : BitVec 64)
  | system (rawLowValue rawHighValue : BitVec 64)
  deriving DecidableEq, Repr

/-- `Segment::tss_segment`, from the address of the TSS; `none` is a failed assertion. -/
def tssSegment (taskStateSegmentPtr : BitVec 64) : Option Segment := do
  let bitFlags ← bitorFlag (newZero : SegmentFlags) .present
  let rawLowBits := rawBits bitFlags
  let rawLowBits ← setBits false rawLowBits 0 16 (BitVec.ofNat 64 (taskStateSegmentSize - 1))
  let rawLowBits ← setBits false rawLowBits 16 40 (← bitsAt false taskStateSegmentPtr 0 24)
  let rawLowBits ← setBits false rawLowBits 40 44 0b1001#64
  let rawLowBits ← setBits false rawLowBits 56 64 (← bitsAt false taskStateSegmentPtr 24 32)
  let rawHighBits ← setBits false 0#64 0 32 (← bitsAt false taskStateSegmentPtr 32 64)
  return .system rawLowBits rawHighBits

/-- `SegmentSelector`. -/
structure SegmentSelector where
  mRawValue : BitVec 16
  deriving DecidableEq, Repr

namespace SegmentSelector

/-- `SegmentSelector::new`. -/
def new (arrayIndex : BitVec 16) (cpuRingMode : CpuRingMode) : SegmentSelector :=
  ⟨arrayIndex <<< 3 ||| cpuRingMode.toU16⟩

/-- `array_index`. -/
def arrayIndex (self : SegmentSelector) : BitVec 16 := self.mRawValue >>> 3

/-- `cpu_ring_mode`. -/
def cpuRingMode (self : SegmentSelector) : Option CpuRingMode :=
  CpuRingMode.fromU16 (self.mRawValue &&& 0b11#16)

end SegmentSelector

/-- `GlobalDescTable`: eight entries and the next free one. -/
structure GlobalDescTable where
  mDescTable : Fin 8 → BitVec 64
  mNextFreeDesc : Nat

namespace GlobalDescTable

/-- `GlobalDescTable::new`: the null segment is entry `0`. -/
def new : GlobalDescTable := ⟨fun _ => 0#64, 1⟩

/-- `push`: the index the value went in at; `none` is the panic of a full table. -/
def push (self : GlobalDescTable) (rawValue : BitVec 64) : Option (GlobalDescTable × Nat) :=
  if h : self.mNextFreeDesc < 8 then
    some (⟨Function.update self.mDescTable ⟨self.mNextFreeDesc, h⟩ rawValue,
      self.mNextFreeDesc + 1⟩, self.mNextFreeDesc)
  else none

/-- `add_entry`. -/
def addEntry (self : GlobalDescTable) (segment : Segment) :
    Option (GlobalDescTable × SegmentSelector) := do
  let (self, insertIndex) ← match segment with
    | .common rawValue => self.push rawValue
    | .system rawLowValue rawHighValue => do
      let (self, firstIndex) ← self.push rawLowValue
      let (self, _) ← self.push rawHighValue
      pure (self, firstIndex)
  let cpuRingMode ← match segment with
    | .common rawValue => do
      let descFlags ← fromRawTruncate (T := SegmentFlagsBits) rawValue
      let dplRing3 ← isEnabled descFlags .dplRing3
      pure (if dplRing3 then CpuRingMode.ring3 else .ring0)
    | .system .. => pure .ring0
  return (self, SegmentSelector.new (BitVec.ofNat 16 insertIndex) cpuRingMode)

/-- A system segment takes the next two free entries, the low word first, with ring `Ring0`;
`push` panics when fewer than two are free. -/
theorem addEntry_system (self : GlobalDescTable) (low high : BitVec 64) :
    self.addEntry (.system low high) =
      if h : self.mNextFreeDesc + 1 < 8 then
        some (⟨Function.update (Function.update self.mDescTable ⟨self.mNextFreeDesc, by omega⟩ low)
            ⟨self.mNextFreeDesc + 1, h⟩ high, self.mNextFreeDesc + 1 + 1⟩,
          SegmentSelector.new (BitVec.ofNat 16 self.mNextFreeDesc) .ring0)
      else none := by
  by_cases h0 : self.mNextFreeDesc < 8
  · by_cases h1 : self.mNextFreeDesc + 1 < 8
    · simp [addEntry, push, h0, h1]
    · simp [addEntry, push, h0, h1]
  · simp [addEntry, push, h0, show ¬ self.mNextFreeDesc + 1 < 8 by omega]

end GlobalDescTable

namespace SegmentSelector

/-- The index is the selector's bits above the ring, which fits below them. -/
theorem arrayIndex_new {n : Nat} (hn : n < 2 ^ 13) (cpuRingMode : CpuRingMode) :
    (new (BitVec.ofNat 16 n) cpuRingMode).arrayIndex = BitVec.ofNat 16 n := by
  apply BitVec.eq_of_getLsbD_eq
  intro j hj
  have hring := getLsbD_eq_false_of_toNat_lt cpuRingMode.toNat_toU16_lt (show 2 ≤ 3 + j by omega)
  simp only [arrayIndex, new, BitVec.getLsbD_ushiftRight, BitVec.getLsbD_or,
    BitVec.getLsbD_shiftLeft, hring, Bool.or_false, Nat.add_sub_cancel_left]
  by_cases hj3 : 3 + j < 16
  · simp [hj3]
  · have hhigh : (BitVec.ofNat 16 n).getLsbD j = false :=
      getLsbD_eq_false_of_toNat_lt (n := 13) (by rw [BitVec.toNat_ofNat]; omega) (by omega)
    simp [hj3, hhigh]

/-- The ring reads back from the two low bits. -/
theorem cpuRingMode_new (arrayIndex : BitVec 16) (cpuRingMode : CpuRingMode) :
    (new arrayIndex cpuRingMode).cpuRingMode = some cpuRingMode := by
  have hmask : (arrayIndex <<< 3 ||| cpuRingMode.toU16) &&& 0b11#16 = cpuRingMode.toU16 := by
    apply BitVec.eq_of_getLsbD_eq
    intro j hj
    simp only [BitVec.getLsbD_and, BitVec.getLsbD_or, BitVec.getLsbD_shiftLeft]
    by_cases hj2 : j < 2
    · have hbit : (0b11#16 : BitVec 16).getLsbD j = true := by
        rcases (by omega : j = 0 ∨ j = 1) with rfl | rfl <;> rfl
      simp [hbit, show j < 3 by omega]
    · have hring := getLsbD_eq_false_of_toNat_lt cpuRingMode.toNat_toU16_lt (show 2 ≤ j by omega)
      have hmask := getLsbD_eq_false_of_toNat_lt (show (0b11#16 : BitVec 16).toNat < 2 ^ 2 by
        decide) (show 2 ≤ j by omega)
      simp [hring, hmask]
  rw [SegmentSelector.cpuRingMode, new, hmask]
  cases cpuRingMode <;> rfl

end SegmentSelector

/-! ### How the processor reads a 16-byte system descriptor, the low word first -/

namespace SystemDesc

/-- The base: bits `16..40` and `56..64` of the low word, then the high word's low half. -/
def base (low high : BitVec 64) : BitVec 64 :=
  (low.extractLsb' 16 24).setWidth 64 ||| (low.extractLsb' 56 8).setWidth 64 <<< 24 |||
    (high.extractLsb' 0 32).setWidth 64 <<< 32

/-- The limit: bits `0..16` and `48..52` of the low word. -/
def limit (low : BitVec 64) : Nat :=
  (low.extractLsb' 0 16).toNat ||| (low.extractLsb' 48 4).toNat <<< 16

/-- The type: bits `40..44`. -/
def type (low : BitVec 64) : BitVec 4 := low.extractLsb' 40 4

/-- The present bit, `47`. -/
def present (low : BitVec 64) : Bool := low.getLsbD 47

/-- The privilege level: bits `45..47`. -/
def dpl (low : BitVec 64) : BitVec 2 := low.extractLsb' 45 2

end SystemDesc

section TssSegment

variable (a : BitVec 64)

/-- The low word of `tss_segment`, in closed form: the present bit, the limit, the type and
the address's bits `0..24` and `24..32`. -/
def tssLowBits : BitVec 64 :=
  writeBits (writeBits (writeBits (writeBits 0x8000_0000_0000#64
    (BitVec.ofNat 64 (taskStateSegmentSize - 1)) 0 16) (readBits a 0 24) 16 40) 0b1001#64 40 44)
    (readBits a 24 32) 56 64

/-- The high word of `tss_segment`: the address's bits `32..64`. -/
def tssHighBits : BitVec 64 := writeBits 0#64 (readBits a 32 64) 0 32

/-- Every assertion of `tss_segment` holds, whatever the address. -/
theorem tssSegment_eq : tssSegment a = some (.system (tssLowBits a) (tssHighBits a)) := by
  have hpresent : bitorFlag (newZero : SegmentFlags) .present = some ⟨0x8000_0000_0000#64⟩ := by
    decide
  simp only [tssSegment, hpresent, rawBits, Option.bind_eq_bind, Option.bind_some,
    bitsAt_unsigned (show 0 < 24 by decide) (show 24 ≤ 64 by decide),
    bitsAt_unsigned (show 24 < 32 by decide) (show 32 ≤ 64 by decide),
    bitsAt_unsigned (show 32 < 64 by decide) (show 64 ≤ 64 by decide),
    setBits_unsigned (show 0 < 16 by decide) (show 16 ≤ 64 by decide)
      (show (BitVec.ofNat 64 (taskStateSegmentSize - 1)).toNat < 2 ^ (16 - 0) by decide),
    setBits_unsigned (show 16 < 40 by decide) (show 40 ≤ 64 by decide)
      (toNat_readBits_lt (x := a) (s := 0) (e := 24) (by decide)),
    setBits_unsigned (show 40 < 44 by decide) (show 44 ≤ 64 by decide)
      (show (0b1001#64).toNat < 2 ^ (44 - 40) by decide),
    setBits_unsigned (show 56 < 64 by decide) (show 64 ≤ 64 by decide)
      (toNat_readBits_lt (x := a) (s := 24) (e := 32) (by decide)),
    setBits_unsigned (show 0 < 32 by decide) (show 32 ≤ 64 by decide)
      (toNat_readBits_lt (x := a) (s := 32) (e := 64) (by decide))]
  rfl

/-- The bits of the low word, field by field. -/
theorem getLsbD_tssLowBits (i : Nat) :
    (tssLowBits a).getLsbD i =
      if i < 16 then (BitVec.ofNat 64 (taskStateSegmentSize - 1)).getLsbD i
      else if i < 40 then a.getLsbD (i - 16)
      else if i < 44 then (0b1001#64).getLsbD (i - 40)
      else if i < 56 then decide (i = 47)
      else if i < 64 then a.getLsbD (i - 32)
      else false := by
  have hpresent : (0x8000_0000_0000#64 : BitVec 64).getLsbD i = decide (i = 47) := by
    rw [show (0x8000_0000_0000#64 : BitVec 64) = BitVec.ofNat 64 (2 ^ 47) from rfl,
      BitVec.getLsbD_ofNat, Nat.testBit_two_pow]
    by_cases hi : i = 47 <;> simp [hi, eq_comm]
  rw [tssLowBits, getLsbD_writeBits (s := 56) (e := 64) (by decide)
      (toNat_readBits_lt (x := a) (s := 24) (e := 32) (by decide)),
    getLsbD_writeBits (s := 40) (e := 44) (by decide) (by decide),
    getLsbD_writeBits (s := 16) (e := 40) (by decide)
      (toNat_readBits_lt (x := a) (s := 0) (e := 24) (by decide)),
    getLsbD_writeBits (s := 0) (e := 16) (by decide) (by decide),
    getLsbD_readBits (by decide), getLsbD_readBits (by decide), hpresent]
  by_cases h16 : i < 16
  · simp [h16, show ¬ 16 ≤ i by omega, show ¬ 40 ≤ i by omega, show ¬ 56 ≤ i by omega]
  · by_cases h40 : i < 40
    · simp [h16, h40, show 16 ≤ i by omega, show ¬ 40 ≤ i by omega, show i - 16 < 24 by omega,
        show ¬ 56 ≤ i by omega]
    · by_cases h44 : i < 44
      · simp [h16, h40, h44, show ¬ 56 ≤ i by omega]
      · by_cases h56 : i < 56
        · simp [h16, h40, h44, h56]
        · by_cases h64 : i < 64
          · simp [h16, h40, h44, h56, h64, show i - 56 < 8 by omega,
              show 24 + (i - 56) = i - 32 by omega]
          · simp [h16, h40, h44, h56, h64, show i ≠ 47 by omega]

/-- The bits of the high word. -/
theorem getLsbD_tssHighBits (i : Nat) :
    (tssHighBits a).getLsbD i = (decide (i < 32) && a.getLsbD (i + 32)) := by
  rw [tssHighBits, getLsbD_writeBits (s := 0) (e := 32) (by decide)
      (toNat_readBits_lt (x := a) (s := 32) (e := 64) (by decide)),
    getLsbD_readBits (by decide)]
  by_cases h32 : i < 32
  · simp [h32, Nat.add_comm]
  · simp [h32]

/-- Bits `16..40` of the low word are the address's bits `0..24`. -/
theorem getLsbD_tssLowBits_add_16 {k : Nat} (hk : k < 24) :
    (tssLowBits a).getLsbD (16 + k) = a.getLsbD k := by
  rw [getLsbD_tssLowBits, if_neg (by omega), if_pos (by omega), Nat.add_sub_cancel_left]

/-- Bits `56..64` of the low word are the address's bits `24..32`. -/
theorem getLsbD_tssLowBits_add_56 {k : Nat} (hk : k < 8) :
    (tssLowBits a).getLsbD (56 + k) = a.getLsbD (24 + k) := by
  rw [getLsbD_tssLowBits, if_neg (by omega), if_neg (by omega), if_neg (by omega),
    if_neg (by omega), if_pos (by omega), show 56 + k - 32 = 24 + k by omega]

/-- Bits `44..56` of the low word are clear but the present bit `47`. -/
theorem getLsbD_tssLowBits_of_flags {i : Nat} (hlo : 44 ≤ i) (hhi : i < 56) :
    (tssLowBits a).getLsbD i = decide (i = 47) := by
  rw [getLsbD_tssLowBits, if_neg (by omega), if_neg (by omega), if_neg (by omega), if_pos hhi]

/-- The base the processor reads is the address. -/
theorem base_tssBits : SystemDesc.base (tssLowBits a) (tssHighBits a) = a := by
  apply BitVec.eq_of_getLsbD_eq
  intro i hi
  simp only [SystemDesc.base, BitVec.getLsbD_or, BitVec.getLsbD_shiftLeft,
    BitVec.getLsbD_setWidth, BitVec.getLsbD_extractLsb', getLsbD_tssHighBits]
  by_cases h24 : i < 24
  · simp [h24, hi, getLsbD_tssLowBits_add_16 a h24, show i < 32 by omega]
  · by_cases h32 : i < 32
    · have hmid := getLsbD_tssLowBits_add_56 a (k := i - 24) (by omega)
      rw [show 24 + (i - 24) = i by omega] at hmid
      simp [h24, h32, hi, hmid, show i - 24 < 8 by omega, show i - 24 < 64 by omega]
    · simp [h24, h32, hi, show i - 32 < 32 by omega, show i - 32 + 32 = i by omega,
        show ¬ i - 24 < 8 by omega, show i - 32 < 64 by omega]

/-- The limit is the size of the TSS less one. -/
theorem limit_tssLowBits : SystemDesc.limit (tssLowBits a) = taskStateSegmentSize - 1 := by
  have hlow : (tssLowBits a).extractLsb' 0 16 = BitVec.ofNat 16 (taskStateSegmentSize - 1) := by
    apply BitVec.eq_of_getLsbD_eq
    intro k hk
    rw [BitVec.getLsbD_extractLsb', getLsbD_tssLowBits, Nat.zero_add, if_pos hk,
      BitVec.getLsbD_ofNat, BitVec.getLsbD_ofNat]
    simp [hk, show k < 64 by omega]
  have hhigh : (tssLowBits a).extractLsb' 48 4 = 0#4 := by
    apply BitVec.eq_of_getLsbD_eq
    intro k hk
    rw [BitVec.getLsbD_extractLsb', getLsbD_tssLowBits_of_flags a (by omega) (by omega)]
    simp [show 48 + k ≠ 47 by omega]
  rw [SystemDesc.limit, hlow, hhigh]
  decide

theorem type_tssLowBits : SystemDesc.type (tssLowBits a) = 0b1001#4 := by
  apply BitVec.eq_of_getLsbD_eq
  intro k hk
  rw [SystemDesc.type, BitVec.getLsbD_extractLsb', getLsbD_tssLowBits, if_neg (by omega),
    if_neg (by omega), if_pos (by omega), Nat.add_sub_cancel_left, BitVec.getLsbD_ofNat,
    BitVec.getLsbD_ofNat]
  simp [hk, show k < 64 by omega]

theorem present_tssLowBits : SystemDesc.present (tssLowBits a) = true := by
  rw [SystemDesc.present, getLsbD_tssLowBits_of_flags a (by decide) (by decide)]
  rfl

theorem dpl_tssLowBits : SystemDesc.dpl (tssLowBits a) = 0#2 := by
  apply BitVec.eq_of_getLsbD_eq
  intro k hk
  rw [SystemDesc.dpl, BitVec.getLsbD_extractLsb', getLsbD_tssLowBits_of_flags a (by omega)
    (by omega)]
  simp [show 45 + k ≠ 47 by omega]

/-- The high word is clear above bit `32`. -/
theorem extractLsb'_tssHighBits : (tssHighBits a).extractLsb' 32 32 = 0#32 := by
  apply BitVec.eq_of_getLsbD_eq
  intro k hk
  simp [getLsbD_tssHighBits]

end TssSegment

/-- `tss_segment` builds a present, available 64-bit TSS descriptor of ring `0` for every
address; `add_entry` puts its two words at the selector's index when two entries are free, and
fails when fewer are. -/
theorem gdt_tss_descriptor (a : BitVec 64) (gdt : GlobalDescTable) :
    ∃ low high, tssSegment a = some (.system low high) ∧
      SystemDesc.base low high = a ∧ SystemDesc.limit low = taskStateSegmentSize - 1 ∧
      SystemDesc.type low = 0b1001#4 ∧ SystemDesc.present low = true ∧
      SystemDesc.dpl low = 0#2 ∧ high.extractLsb' 32 32 = 0#32 ∧
      ((gdt.addEntry (.system low high) = none ∧ 7 ≤ gdt.mNextFreeDesc) ∨
        ∃ gdt' sel, gdt.addEntry (.system low high) = some (gdt', sel) ∧
          sel.arrayIndex.toNat = gdt.mNextFreeDesc ∧
          (∃ h : gdt.mNextFreeDesc + 1 < 8,
            gdt'.mDescTable ⟨gdt.mNextFreeDesc, by omega⟩ = low ∧
            gdt'.mDescTable ⟨gdt.mNextFreeDesc + 1, h⟩ = high) ∧
          sel.cpuRingMode = some .ring0) := by
  refine ⟨tssLowBits a, tssHighBits a, tssSegment_eq a, base_tssBits a, limit_tssLowBits a,
    type_tssLowBits a, present_tssLowBits a, dpl_tssLowBits a, extractLsb'_tssHighBits a, ?_⟩
  rw [GlobalDescTable.addEntry_system]
  by_cases h : gdt.mNextFreeDesc + 1 < 8
  · refine .inr ⟨_, _, dif_pos h, ?_, ⟨h, by simp, by simp⟩, SegmentSelector.cpuRingMode_new _ _⟩
    rw [SegmentSelector.arrayIndex_new (by omega), BitVec.toNat_ofNat, Nat.mod_eq_of_lt (by omega)]
  · exact .inl ⟨dif_neg h, by omega⟩

end Kernel
end MeetixOs
