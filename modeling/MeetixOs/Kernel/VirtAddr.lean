import MeetixOs.Bits.BitRanges
import MeetixOs.Helps.Align
import MeetixOs.Kernel.PageSize

/-!
# Virtual addresses and their page-table indexes

`Kernel/src/addr/virt_addr.rs` wraps the x86_64 `HwVirtAddr` of
`arch/x86_64/addr/hw_virt_addr.rs`, a `usize` that `From<usize>` makes canonical: it shifts
the address left by `16` and back as an `isize`, so that bits `48..64` repeat bit `47`.
Bits `12..48` hold the four `9`-bit indexes of a page-table walk.
`raw_table_index_for_level` reads one with `bits_at` and casts it to `u16`, and
`page_table_index` makes it a `PageTableIndex`, whose `From<u16>` reduces modulo `512`.
`from_4kib_indexes` and `from_2mib_indexes` write the indexes into a zero `usize` with
`set_bits` and canonicalise the result; `align_down` goes through `From<usize>` as well.

**Results.**
* `getLsbD_fromUsize`, `fromUsize_canonical`: `From<usize>` keeps bits `0..48` and copies
  bit `47` above them.
* `pageTableIndex_from4KiBIndexes`: each index an address is built from is read back at its
  level, and the address is canonical and on a `4 KiB` page.
* `from4KiBIndexes_pageTableIndex`, `from2MiBIndexes_pageTableIndex`: an address rebuilt
  from its own indexes is the address aligned down to its `4 KiB` or `2 MiB` page.
* `virtAddr_index_round_trip` puts the two directions together.
-/

namespace MeetixOs
namespace Kernel

open Bits

/-- `PageTableIndex`: a `u16` that `From<u16>` keeps below `512`. -/
@[ext]
structure PageTableIndex where
  mIndex : BitVec 16
  mIndex_lt : mIndex.toNat < 512
  deriving DecidableEq

namespace PageTableIndex

/-- `From<u16>`. -/
def fromU16 (rawIndex : BitVec 16) : PageTableIndex :=
  ⟨rawIndex % 512#16, by rw [BitVec.toNat_umod]; exact Nat.mod_lt _ (by decide)⟩

/-- `From<usize>`: the `usize` is cast to `u16` first. -/
def fromUsize (rawIndex : BitVec 64) : PageTableIndex :=
  fromU16 (rawIndex.setWidth 16)

/-- `Into<usize>`. -/
def into (self : PageTableIndex) : BitVec 64 :=
  self.mIndex.setWidth 64

theorem toNat_into (self : PageTableIndex) : self.into.toNat = self.mIndex.toNat := by
  rw [into, BitVec.toNat_setWidth]
  exact Nat.mod_eq_of_lt (Nat.lt_trans self.mIndex_lt (by decide))

theorem into_toNat_lt (self : PageTableIndex) : self.into.toNat < 2 ^ 9 := by
  rw [toNat_into]
  exact self.mIndex_lt

theorem into_injective : Function.Injective into := by
  intro l l' h
  ext1
  apply BitVec.eq_of_toNat_eq
  rw [← toNat_into, ← toNat_into, h]

end PageTableIndex

/-- `PageTableLevel`, from the root table down. -/
inductive PageTableLevel
  | root
  | oneGiB
  | twoMiB
  | fourKiB
  deriving DecidableEq, Repr

/-- The lowest bit of the index that a level reads out of an address. -/
def PageTableLevel.indexShift : PageTableLevel → Nat
  | .root => 39
  | .oneGiB => 30
  | .twoMiB => 21
  | .fourKiB => 12

/-- `HwVirtAddr`. -/
structure HwVirtAddr where
  mRawVirtAddr : BitVec 64
  deriving DecidableEq, Repr

namespace HwVirtAddr

/-- `From<usize>`: `((raw_virt_addr << 16) as isize >> 16) as usize`. -/
def fromUsize (rawVirtAddr : BitVec 64) : HwVirtAddr :=
  ⟨(rawVirtAddr <<< 16).sshiftRight 16⟩

/-- `THwVirtAddr::from_4kib_indexes`. -/
def from4KiBIndexes (l4Index l3Index l2Index l1Index : PageTableIndex) : Option HwVirtAddr := do
  let rawVirtAddr ← setBits false 0#64 39 48 l4Index.into
  let rawVirtAddr ← setBits false rawVirtAddr 30 39 l3Index.into
  let rawVirtAddr ← setBits false rawVirtAddr 21 30 l2Index.into
  let rawVirtAddr ← setBits false rawVirtAddr 12 21 l1Index.into
  return fromUsize rawVirtAddr

/-- `THwVirtAddr::from_2mib_indexes`. -/
def from2MiBIndexes (l4Index l3Index l2Index : PageTableIndex) : Option HwVirtAddr := do
  let rawVirtAddr ← setBits false 0#64 39 48 l4Index.into
  let rawVirtAddr ← setBits false rawVirtAddr 30 39 l3Index.into
  let rawVirtAddr ← setBits false rawVirtAddr 21 30 l2Index.into
  return fromUsize rawVirtAddr

/-- `THwVirtAddr::raw_table_index_for_level`: `bits_at` of the level's range, `as u16`. -/
def rawTableIndexForLevel (self : HwVirtAddr) : PageTableLevel → Option (BitVec 16)
  | .root => (bitsAt false self.mRawVirtAddr 39 48).map (BitVec.setWidth 16)
  | .oneGiB => (bitsAt false self.mRawVirtAddr 30 39).map (BitVec.setWidth 16)
  | .twoMiB => (bitsAt false self.mRawVirtAddr 21 30).map (BitVec.setWidth 16)
  | .fourKiB => (bitsAt false self.mRawVirtAddr 12 21).map (BitVec.setWidth 16)

end HwVirtAddr

/-- `VirtAddr`. -/
structure VirtAddr where
  mHwVirtAddr : HwVirtAddr
  deriving DecidableEq, Repr

namespace VirtAddr

/-- `From<usize>`. -/
def fromUsize (rawVirtAddr : BitVec 64) : VirtAddr :=
  ⟨HwVirtAddr.fromUsize rawVirtAddr⟩

/-- `Deref`: the `usize` inside. -/
def raw (self : VirtAddr) : BitVec 64 :=
  self.mHwVirtAddr.mRawVirtAddr

/-- `VirtAddr::from_4kib_indexes`. -/
def from4KiBIndexes (l4Index l3Index l2Index l1Index : PageTableIndex) : Option VirtAddr :=
  (HwVirtAddr.from4KiBIndexes l4Index l3Index l2Index l1Index).map fun hw => ⟨hw⟩

/-- `VirtAddr::from_2mib_indexes`. -/
def from2MiBIndexes (l4Index l3Index l2Index : PageTableIndex) : Option VirtAddr :=
  (HwVirtAddr.from2MiBIndexes l4Index l3Index l2Index).map fun hw => ⟨hw⟩

/-- `VirtAddr::page_table_index`. -/
def pageTableIndex (self : VirtAddr) (pageTableLevel : PageTableLevel) :
    Option PageTableIndex :=
  (self.mHwVirtAddr.rawTableIndexForLevel pageTableLevel).map PageTableIndex.fromU16

/-- `TAddress::align_down`. -/
def alignDown (self : VirtAddr) (align : Nat) : VirtAddr :=
  fromUsize (BitVec.ofNat 64 (Helps.alignDown self.raw.toNat align))

/-- `TAddress::is_aligned`: the address is its own `align_down`. -/
def isAligned (self : VirtAddr) (align : Nat) : Bool :=
  self.alignDown align == self

end VirtAddr

/-- A canonical address: bits `48..64` repeat bit `47`. -/
def Canonical (x : BitVec 64) : Prop :=
  ∀ i < 16, x.getLsbD (48 + i) = x.getLsbD 47

instance : DecidablePred Canonical := fun x =>
  inferInstanceAs (Decidable (∀ i < 16, x.getLsbD (48 + i) = x.getLsbD 47))

section FromUsize

theorem getLsbD_fromUsize (a : BitVec 64) (i : Nat) :
    (HwVirtAddr.fromUsize a).mRawVirtAddr.getLsbD i =
      if i < 48 then a.getLsbD i else (decide (i < 64) && a.getLsbD 47) := by
  simp only [HwVirtAddr.fromUsize, BitVec.getLsbD_sshiftRight, BitVec.msb_eq_getLsbD_last,
    BitVec.getLsbD_shiftLeft]
  by_cases h48 : i < 48
  · simp [h48, show 16 + i < 64 by omega, show ¬ 64 ≤ i by omega]
  · by_cases h64 : i < 64
    · simp [h48, h64, show ¬ 16 + i < 64 by omega]
    · simp [h48, h64, show 64 ≤ i by omega]

theorem fromUsize_canonical (a : BitVec 64) : Canonical (HwVirtAddr.fromUsize a).mRawVirtAddr := by
  intro i hi
  rw [getLsbD_fromUsize, getLsbD_fromUsize]
  simp [show ¬ 48 + i < 48 by omega, show 48 + i < 64 by omega]

/-- `From<usize>` keeps the address modulo every power of two up to `2 ^ 48`. -/
theorem toNat_fromUsize_mod_two_pow (a : BitVec 64) {k : Nat} (hk : k ≤ 48) :
    (HwVirtAddr.fromUsize a).mRawVirtAddr.toNat % 2 ^ k = a.toNat % 2 ^ k := by
  apply Nat.eq_of_testBit_eq
  intro i
  rw [Nat.testBit_mod_two_pow, Nat.testBit_mod_two_pow, BitVec.testBit_toNat,
    BitVec.testBit_toNat]
  by_cases hi : i < k
  · rw [getLsbD_fromUsize, if_pos (by omega)]
  · simp [hi]

/-- `From<usize>` reads only bits `0..48`. -/
theorem fromUsize_congr {a b : BitVec 64} (h : ∀ i < 48, a.getLsbD i = b.getLsbD i) :
    HwVirtAddr.fromUsize a = HwVirtAddr.fromUsize b := by
  rw [HwVirtAddr.mk.injEq]
  apply BitVec.eq_of_getLsbD_eq
  intro i _
  rw [getLsbD_fromUsize, getLsbD_fromUsize]
  by_cases hi : i < 48
  · rw [if_pos hi, if_pos hi, h i hi]
  · rw [if_neg hi, if_neg hi, h 47 (by decide)]

/-- `align_down` at `2 ^ k` is `From<usize>` of any value with the address's bits `k..48`
and clear bits below `k`. -/
theorem alignDown_two_pow_eq (v : VirtAddr) {k : Nat} (hk : k ≤ 64) {y : BitVec 64}
    (hy : ∀ i < 48, y.getLsbD i = (decide (k ≤ i) && v.raw.getLsbD i)) :
    v.alignDown (2 ^ k) = VirtAddr.fromUsize y := by
  rw [VirtAddr.alignDown, VirtAddr.fromUsize, VirtAddr.fromUsize, fromUsize_congr]
  intro i hi
  rw [hy i hi, BitVec.getLsbD_ofNat, Helps.testBit_alignDown v.raw.isLt hk, BitVec.testBit_toNat]
  simp [show i < 64 by omega]

end FromUsize

section Indexes

/-- What `from_2mib_indexes` writes before `From<usize>`. -/
def raw2MiBIndexes (l4Index l3Index l2Index : PageTableIndex) : BitVec 64 :=
  writeBits (writeBits (writeBits 0#64 l4Index.into 39 48) l3Index.into 30 39) l2Index.into 21 30

/-- What `from_4kib_indexes` writes before `From<usize>`. -/
def raw4KiBIndexes (l4Index l3Index l2Index l1Index : PageTableIndex) : BitVec 64 :=
  writeBits (raw2MiBIndexes l4Index l3Index l2Index) l1Index.into 12 21

variable (l4 l3 l2 l1 : PageTableIndex)

/-- The four writes of the index constructors, each of a value that fits its nine bits. -/
theorem setBits_root (x : BitVec 64) : setBits false x 39 48 l4.into = some (writeBits x l4.into 39 48) :=
  setBits_unsigned (by decide) (by decide) l4.into_toNat_lt

theorem setBits_oneGiB (x : BitVec 64) : setBits false x 30 39 l3.into = some (writeBits x l3.into 30 39) :=
  setBits_unsigned (by decide) (by decide) l3.into_toNat_lt

theorem setBits_twoMiB (x : BitVec 64) : setBits false x 21 30 l2.into = some (writeBits x l2.into 21 30) :=
  setBits_unsigned (by decide) (by decide) l2.into_toNat_lt

theorem setBits_fourKiB (x : BitVec 64) : setBits false x 12 21 l1.into = some (writeBits x l1.into 12 21) :=
  setBits_unsigned (by decide) (by decide) l1.into_toNat_lt

theorem HwVirtAddr.from2MiBIndexes_eq :
    HwVirtAddr.from2MiBIndexes l4 l3 l2 = some (HwVirtAddr.fromUsize (raw2MiBIndexes l4 l3 l2)) := by
  simp only [HwVirtAddr.from2MiBIndexes, setBits_root, setBits_oneGiB, setBits_twoMiB,
    Option.bind_eq_bind, Option.bind_some]
  rfl

theorem HwVirtAddr.from4KiBIndexes_eq :
    HwVirtAddr.from4KiBIndexes l4 l3 l2 l1 =
      some (HwVirtAddr.fromUsize (raw4KiBIndexes l4 l3 l2 l1)) := by
  simp only [HwVirtAddr.from4KiBIndexes, setBits_root, setBits_oneGiB, setBits_twoMiB,
    setBits_fourKiB, Option.bind_eq_bind, Option.bind_some]
  rfl

theorem getLsbD_raw2MiBIndexes (i : Nat) :
    (raw2MiBIndexes l4 l3 l2).getLsbD i =
      if 21 ≤ i ∧ i < 30 then l2.into.getLsbD (i - 21)
      else if 30 ≤ i ∧ i < 39 then l3.into.getLsbD (i - 30)
      else if 39 ≤ i ∧ i < 48 then l4.into.getLsbD (i - 39) else false := by
  rw [raw2MiBIndexes, getLsbD_writeBits (s := 21) (e := 30) (by decide) l2.into_toNat_lt,
    getLsbD_writeBits (s := 30) (e := 39) (by decide) l3.into_toNat_lt,
    getLsbD_writeBits (s := 39) (e := 48) (by decide) l4.into_toNat_lt, BitVec.getLsbD_zero]

theorem getLsbD_raw4KiBIndexes (i : Nat) :
    (raw4KiBIndexes l4 l3 l2 l1).getLsbD i =
      if 12 ≤ i ∧ i < 21 then l1.into.getLsbD (i - 12) else (raw2MiBIndexes l4 l3 l2).getLsbD i := by
  rw [raw4KiBIndexes, getLsbD_writeBits (s := 12) (e := 21) (by decide) l1.into_toNat_lt]

end Indexes

section PageTableIndexes

/-- `page_table_index` reads the nine bits of its level: the cast to `u16` and the reduction
modulo `512` of `From<u16>` lose nothing of them. -/
theorem pageTableIndex_spec (v : VirtAddr) (level : PageTableLevel) :
    ∃ l, v.pageTableIndex level = some l ∧
      l.into = readBits v.raw level.indexShift (level.indexShift + 9) := by
  have hend : level.indexShift + 9 ≤ 64 := by cases level <;> decide
  refine ⟨PageTableIndex.fromU16
    ((readBits v.raw level.indexShift (level.indexShift + 9)).setWidth 16), ?_, ?_⟩
  · cases level <;>
      simp [VirtAddr.pageTableIndex, HwVirtAddr.rawTableIndexForLevel, bitsAt_unsigned,
        VirtAddr.raw, PageTableLevel.indexShift]
  · have hlt := toNat_readBits_lt (x := v.raw) (s := level.indexShift) hend
    rw [Nat.add_sub_cancel_left] at hlt
    apply BitVec.eq_of_toNat_eq
    simp only [PageTableIndex.toNat_into, PageTableIndex.fromU16, BitVec.toNat_umod,
      BitVec.toNat_setWidth]
    rw [show (512#16).toNat = 2 ^ 9 from rfl, Nat.mod_eq_of_lt (Nat.lt_trans hlt (by decide)),
      Nat.mod_eq_of_lt hlt]

/-- An address whose nine bits at a level are those of `l` has `l` as its index there. -/
theorem pageTableIndex_of_getLsbD {v : VirtAddr} {level : PageTableLevel} {l : PageTableIndex}
    (h : ∀ k < 9, v.raw.getLsbD (level.indexShift + k) = l.into.getLsbD k) :
    v.pageTableIndex level = some l := by
  obtain ⟨l', hl', hinto⟩ := pageTableIndex_spec v level
  have hend : level.indexShift + 9 ≤ 64 := by cases level <;> decide
  rw [hl', Option.some_inj, ← PageTableIndex.into_injective.eq_iff, hinto]
  apply BitVec.eq_of_getLsbD_eq
  intro k _
  rw [getLsbD_readBits hend, Nat.add_sub_cancel_left]
  by_cases hk : k < 9
  · simp [hk, h k hk]
  · simp [hk, getLsbD_eq_false_of_toNat_lt l.into_toNat_lt (Nat.le_of_not_lt hk)]

/-- The index of each level among the four of a `4 KiB` page. -/
def PageTableLevel.select (l4 l3 l2 l1 : PageTableIndex) : PageTableLevel → PageTableIndex
  | .root => l4
  | .oneGiB => l3
  | .twoMiB => l2
  | .fourKiB => l1

variable (l4 l3 l2 l1 : PageTableIndex)

theorem getLsbD_raw4KiBIndexes_field (level : PageTableLevel) {k : Nat} (hk : k < 9) :
    (raw4KiBIndexes l4 l3 l2 l1).getLsbD (level.indexShift + k) =
      (level.select l4 l3 l2 l1).into.getLsbD k := by
  cases level <;> simp only [PageTableLevel.indexShift, PageTableLevel.select,
    getLsbD_raw4KiBIndexes, getLsbD_raw2MiBIndexes]
  · rw [if_neg (by omega), if_neg (by omega), if_neg (by omega), if_pos (by omega),
      Nat.add_sub_cancel_left]
  · rw [if_neg (by omega), if_neg (by omega), if_pos (by omega), Nat.add_sub_cancel_left]
  · rw [if_neg (by omega), if_pos (by omega), Nat.add_sub_cancel_left]
  · rw [if_pos (by omega), Nat.add_sub_cancel_left]

/-- Every level of an address built from four indexes reads its own index back. -/
theorem pageTableIndex_fromUsize_raw4KiBIndexes (level : PageTableLevel) :
    (VirtAddr.fromUsize (raw4KiBIndexes l4 l3 l2 l1)).pageTableIndex level =
      some (level.select l4 l3 l2 l1) := by
  apply pageTableIndex_of_getLsbD
  intro k hk
  have hbit : level.indexShift + k < 48 := by cases level <;> simp [PageTableLevel.indexShift] <;> omega
  rw [VirtAddr.raw, VirtAddr.fromUsize, getLsbD_fromUsize, if_pos hbit,
    getLsbD_raw4KiBIndexes_field _ _ _ _ _ hk]

/-- Indexes read out of `x` write back its bits `21..48`, and nothing else. -/
theorem getLsbD_raw2MiBIndexes_readBits {x : BitVec 64} (h4 : l4.into = readBits x 39 48)
    (h3 : l3.into = readBits x 30 39) (h2 : l2.into = readBits x 21 30) (i : Nat) :
    (raw2MiBIndexes l4 l3 l2).getLsbD i = (decide (21 ≤ i) && decide (i < 48) && x.getLsbD i) := by
  rw [getLsbD_raw2MiBIndexes, h4, h3, h2]
  split_ifs with hl2 hl3 hl4
  · rw [getLsbD_readBits_sub (by decide) hl2.1 hl2.2]
    simp [hl2.1, show i < 48 by omega]
  · rw [getLsbD_readBits_sub (by decide) hl3.1 hl3.2]
    simp [show 21 ≤ i by omega, show i < 48 by omega]
  · rw [getLsbD_readBits_sub (by decide) hl4.1 hl4.2]
    simp [show 21 ≤ i by omega, hl4.2]
  · by_cases hlo : 21 ≤ i
    · simp [hlo, show ¬ i < 48 by omega]
    · simp [hlo]

/-- Indexes read out of `x` write back its bits `12..48`, and nothing else. -/
theorem getLsbD_raw4KiBIndexes_readBits {x : BitVec 64} (h4 : l4.into = readBits x 39 48)
    (h3 : l3.into = readBits x 30 39) (h2 : l2.into = readBits x 21 30)
    (h1 : l1.into = readBits x 12 21) (i : Nat) :
    (raw4KiBIndexes l4 l3 l2 l1).getLsbD i = (decide (12 ≤ i) && decide (i < 48) && x.getLsbD i) := by
  rw [getLsbD_raw4KiBIndexes, getLsbD_raw2MiBIndexes_readBits l4 l3 l2 h4 h3 h2, h1]
  split_ifs with hl1
  · rw [getLsbD_readBits_sub (by decide) hl1.1 hl1.2]
    simp [hl1.1, show i < 48 by omega]
  · by_cases hlo : 21 ≤ i
    · simp [hlo, show 12 ≤ i by omega]
    · simp [hlo, show ¬ 12 ≤ i by omega]

/-- `from_4kib_indexes` builds a canonical address on a `4 KiB` page whose every level reads
back the index it was given. -/
theorem from4KiBIndexes_spec :
    ∃ v, VirtAddr.from4KiBIndexes l4 l3 l2 l1 = some v ∧
      (∀ level, v.pageTableIndex level = some (level.select l4 l3 l2 l1)) ∧
      v.raw.toNat % page4KiBSize = 0 ∧ Canonical v.raw := by
  refine ⟨VirtAddr.fromUsize (raw4KiBIndexes l4 l3 l2 l1), ?_,
    pageTableIndex_fromUsize_raw4KiBIndexes l4 l3 l2 l1, ?_, fromUsize_canonical _⟩
  · rw [VirtAddr.from4KiBIndexes, HwVirtAddr.from4KiBIndexes_eq]
    rfl
  · apply toNat_mod_two_pow_eq_zero (k := 12)
    intro i hi
    rw [VirtAddr.raw, VirtAddr.fromUsize, getLsbD_fromUsize, if_pos (by omega),
      getLsbD_raw4KiBIndexes, if_neg (by omega), getLsbD_raw2MiBIndexes, if_neg (by omega),
      if_neg (by omega), if_neg (by omega)]

/-- The root index `256` sets bit `47`, which `From<usize>` copies into the top bits. -/
example : (VirtAddr.from4KiBIndexes (.fromU16 256#16) (.fromU16 0#16) (.fromU16 0#16)
    (.fromU16 1#16)).map VirtAddr.raw = some 0xffff800000001000#64 := by
  decide

/-- The indexes of any address rebuild it aligned down to its `4 KiB` and its `2 MiB`
page. -/
theorem from4KiBIndexes_pageTableIndex (v : VirtAddr) :
    ∃ l4 l3 l2 l1, v.pageTableIndex .root = some l4 ∧ v.pageTableIndex .oneGiB = some l3 ∧
      v.pageTableIndex .twoMiB = some l2 ∧ v.pageTableIndex .fourKiB = some l1 ∧
      VirtAddr.from4KiBIndexes l4 l3 l2 l1 = some (v.alignDown page4KiBSize) ∧
      VirtAddr.from2MiBIndexes l4 l3 l2 = some (v.alignDown page2MiBSize) := by
  obtain ⟨l4, h4, e4⟩ := pageTableIndex_spec v .root
  obtain ⟨l3, h3, e3⟩ := pageTableIndex_spec v .oneGiB
  obtain ⟨l2, h2, e2⟩ := pageTableIndex_spec v .twoMiB
  obtain ⟨l1, h1, e1⟩ := pageTableIndex_spec v .fourKiB
  refine ⟨l4, l3, l2, l1, h4, h3, h2, h1, ?_, ?_⟩
  · rw [VirtAddr.from4KiBIndexes, HwVirtAddr.from4KiBIndexes_eq, show page4KiBSize = 2 ^ 12 from rfl,
      alignDown_two_pow_eq v (by decide) fun i hi => by
        rw [getLsbD_raw4KiBIndexes_readBits l4 l3 l2 l1 e4 e3 e2 e1]
        simp [hi]]
    rfl
  · rw [VirtAddr.from2MiBIndexes, HwVirtAddr.from2MiBIndexes_eq, show page2MiBSize = 2 ^ 21 from rfl,
      alignDown_two_pow_eq v (by decide) fun i hi => by
        rw [getLsbD_raw2MiBIndexes_readBits l4 l3 l2 e4 e3 e2]
        simp [hi]]
    rfl

end PageTableIndexes

theorem virtAddr_index_round_trip :
    (∀ l4 l3 l2 l1 : PageTableIndex, ∃ v, VirtAddr.from4KiBIndexes l4 l3 l2 l1 = some v ∧
      v.pageTableIndex .root = some l4 ∧ v.pageTableIndex .oneGiB = some l3 ∧
      v.pageTableIndex .twoMiB = some l2 ∧ v.pageTableIndex .fourKiB = some l1 ∧
      v.raw.toNat % page4KiBSize = 0 ∧ Canonical v.raw) ∧
    ∀ a : BitVec 64, ∃ l4 l3 l2 l1,
      (VirtAddr.fromUsize a).pageTableIndex .root = some l4 ∧
      (VirtAddr.fromUsize a).pageTableIndex .oneGiB = some l3 ∧
      (VirtAddr.fromUsize a).pageTableIndex .twoMiB = some l2 ∧
      (VirtAddr.fromUsize a).pageTableIndex .fourKiB = some l1 ∧
      VirtAddr.from4KiBIndexes l4 l3 l2 l1 = some ((VirtAddr.fromUsize a).alignDown page4KiBSize) ∧
      VirtAddr.from2MiBIndexes l4 l3 l2 = some ((VirtAddr.fromUsize a).alignDown page2MiBSize) := by
  constructor
  · intro l4 l3 l2 l1
    obtain ⟨v, hv, hidx, halign, hcanon⟩ := from4KiBIndexes_spec l4 l3 l2 l1
    exact ⟨v, hv, hidx .root, hidx .oneGiB, hidx .twoMiB, hidx .fourKiB, halign, hcanon⟩
  · intro a
    exact from4KiBIndexes_pageTableIndex (VirtAddr.fromUsize a)

end Kernel
end MeetixOs
