import Mathlib.Data.List.Sort
import MeetixOs.Kernel.Addr
import MeetixOs.Kernel.DirectMap

/-!
# Finding the ACPI root pointer

`AcpiManager::find_root_table_in` of `Kernel/src/arch/x86_64/acpi.rs` looks for the Root
System Description Pointer in a range of memory: it steps through the range by `16` bytes,
reads a packed `RootSysDescPtr` at each address, and takes the first one whose signature is
`RSD PTR ` and whose bytes pass `is_valid_checksum` over `m_len` bytes.  `m_len` is the
field at offset `20`, which the ACPI specification adds in revision `2`: a revision-`0`
pointer is `20` bytes long and its checksum covers those `20` bytes.

`find_root_table` searches the KiB from the physical address `0x40e`, then the MiB from
`0xe0000`, both through the physical memory mapping.

Memory is a byte image, `Nat → UInt8`, read at the raw value of each address.

**Results.**
* `isValidChecksum_iff`: `is_valid_checksum` holds exactly when the bytes sum to `0` modulo
  `256`.
* `findRootTableIn_eq_acpi`: where every candidate with the signature has a revision other
  than `0`, the search finds what the ACPI rule finds.
* `findRootTableIn_revision_zero`: over a revision-`0` pointer the search reads the length
  from the byte after the pointer, and so takes a pointer whose `20` bytes do not sum to `0`
  and misses one whose bytes do.
* `findRootTable_ebda_unaligned`: `0x40e` lies `14` bytes past a `16`-byte boundary, and so
  does every address the first search of `find_root_table` checks; an aligned pointer comes
  from the second search only.
-/

namespace MeetixOs
namespace Kernel

/-- The bytes of `RSD PTR `. -/
def rsdpSignature : List UInt8 :=
  "RSD PTR ".toList.map fun c => c.toNat.toUInt8

/-- A little-endian `u32` at `addr`. -/
def readU32 (mem : Nat → UInt8) (addr : Nat) : Nat :=
  (mem addr).toNat + 2 ^ 8 * (mem (addr + 1)).toNat + 2 ^ 16 * (mem (addr + 2)).toNat +
    2 ^ 24 * (mem (addr + 3)).toNat

/-- `&rsdp.m_signature == b"RSD PTR "`: the eight bytes at the start of the pointer. -/
def hasSignature (mem : Nat → UInt8) (addr : Nat) : Bool :=
  (List.range 8).map (fun i => mem (addr + i)) == rsdpSignature

/-- `rsdp.m_len`: the `u32` at offset `20`. -/
def rsdpLen (mem : Nat → UInt8) (addr : Nat) : Nat :=
  readU32 mem (addr + 20)

/-- `rsdp.m_revision`: the byte at offset `15`. -/
def rsdpRevision (mem : Nat → UInt8) (addr : Nat) : UInt8 :=
  mem (addr + 15)

/-- `AcpiManager::is_valid_checksum`: the `len` bytes at `ptr` summed with `wrapping_add`. -/
def isValidChecksum (mem : Nat → UInt8) (ptr len : Nat) : Bool :=
  (List.range len).foldl (fun sum i => sum + mem (ptr + i)) 0 == 0

/-- `AcpiManager::find_root_table_in`: the first address of `virt_addr_range.step_by(16)`
holding the signature and passing the checksum over `m_len` bytes. -/
def findRootTableIn (mem : Nat → UInt8) (virtAddrRange : AddrRange VirtAddr) :
    Option VirtAddr :=
  (TAddress.stepBy virtAddrRange 16).find? fun virtAddr =>
    hasSignature mem (TAddress.raw virtAddr).toNat &&
      isValidChecksum mem (TAddress.raw virtAddr).toNat (rsdpLen mem (TAddress.raw virtAddr).toNat)

/-- How many bytes the ACPI rule sums: `20` for revision `0`, `m_len` after it. -/
def acpiChecksumLen (mem : Nat → UInt8) (addr : Nat) : Nat :=
  if rsdpRevision mem addr = 0 then 20 else rsdpLen mem addr

/-- A root pointer by the ACPI rule. -/
def AcpiRsdp (mem : Nat → UInt8) (addr : Nat) : Bool :=
  hasSignature mem addr && isValidChecksum mem addr (acpiChecksumLen mem addr)

/-- The addresses of `[start, stop)` on a `16`-byte boundary, in order. -/
def alignedIn (start stop : Nat) : List Nat :=
  ((List.range (stop - start)).map (start + ·)).filter fun addr => addr % 16 == 0

/-- The search the ACPI rule asks for: the first address of `[start, stop)` on a `16`-byte
boundary that holds a root pointer by that rule. -/
def findRootTableAcpi (mem : Nat → UInt8) (start stop : Nat) : Option Nat :=
  (alignedIn start stop).find? (AcpiRsdp mem)

section Checksum

/-- A `wrapping_add` fold of bytes is the sum of their values modulo `256`. -/
theorem toNat_foldl_add (xs : List UInt8) (acc : UInt8) :
    (xs.foldl (· + ·) acc).toNat = (acc.toNat + (xs.map UInt8.toNat).sum) % 256 := by
  induction xs generalizing acc with
  | nil =>
    rw [List.foldl_nil, List.map_nil, List.sum_nil, Nat.add_zero,
      Nat.mod_eq_of_lt acc.toNat_lt]
  | cons x xs ih =>
    rw [List.foldl_cons, ih, UInt8.toNat_add, List.map_cons, List.sum_cons, Nat.mod_add_mod,
      Nat.add_assoc]

/-- `is_valid_checksum` holds exactly when the `len` bytes at `ptr` sum to `0` modulo
`256`. -/
theorem isValidChecksum_iff (mem : Nat → UInt8) (ptr len : Nat) :
    isValidChecksum mem ptr len = true ↔
      ((List.range len).map fun i => (mem (ptr + i)).toNat).sum % 256 = 0 := by
  have hfold : (List.range len).foldl (fun sum i => sum + mem (ptr + i)) 0 =
      ((List.range len).map fun i => mem (ptr + i)).foldl (· + ·) 0 := by
    rw [List.foldl_map]
  rw [isValidChecksum, beq_iff_eq, hfold, ← UInt8.toNat_inj, toNat_foldl_add, List.map_map]
  simp only [UInt8.toNat_zero, Nat.zero_add, Function.comp_def]

end Checksum

section Candidates

theorem mem_alignedIn {start stop addr : Nat} :
    addr ∈ alignedIn start stop ↔ start ≤ addr ∧ addr < stop ∧ addr % 16 = 0 := by
  simp only [alignedIn, List.mem_filter, List.mem_map, List.mem_range, beq_iff_eq]
  constructor
  · rintro ⟨⟨k, hk, rfl⟩, h16⟩
    omega
  · rintro ⟨hlo, hhi, h16⟩
    exact ⟨⟨addr - start, by omega, by omega⟩, h16⟩

theorem pairwise_alignedIn (start stop : Nat) : (alignedIn start stop).Pairwise (· < ·) := by
  apply List.Pairwise.filter
  rw [List.pairwise_map]
  exact List.pairwise_lt_range.imp fun h => by omega

/-- From a start on a `16`-byte boundary, `step_by(16)` visits the aligned addresses of the
range, in order: both lists grow and hold the same addresses. -/
theorem map_raw_stepBy_sixteen {virtAddrRange : AddrRange VirtAddr}
    (hstart : (TAddress.raw virtAddrRange.start).toNat % 16 = 0) :
    (TAddress.stepBy virtAddrRange 16).map (fun a => (TAddress.raw a).toNat) =
      alignedIn (TAddress.raw virtAddrRange.start).toNat (TAddress.raw virtAddrRange.stop).toNat := by
  have hstop := TAddress.toNat_raw_le virtAddrRange.stop
  apply List.Pairwise.eq_of_mem_iff (TAddress.pairwise_stepBy virtAddrRange 16)
    (pairwise_alignedIn _ _)
  intro addr
  rw [mem_alignedIn, List.mem_map]
  constructor
  · rintro ⟨a, ha, rfl⟩
    obtain ⟨k, hk, hlt⟩ := (TAddress.mem_stepBy (by decide)).mp ha
    omega
  · rintro ⟨hlo, hhi, h16⟩
    refine ⟨TAddress.ofRaw (BitVec.ofNat 64 addr), ?_, ?_⟩
    · have hraw : (TAddress.raw (TAddress.ofRaw (BitVec.ofNat 64 addr) : VirtAddr)).toNat =
          addr := (TAddress.eq_ofRaw_ofNat_iff (by omega)).mp rfl
      rw [TAddress.mem_stepBy (by decide), hraw]
      exact ⟨(addr - (TAddress.raw virtAddrRange.start).toNat) / 16, by omega, hhi⟩
    · exact (TAddress.eq_ofRaw_ofNat_iff (by omega)).mp rfl

end Candidates

/-- From a start on a `16`-byte boundary, and where every aligned candidate with the
signature has a revision other than `0`, `m_len` is the length the ACPI rule sums, and the
search finds what the rule finds. -/
theorem findRootTableIn_eq_acpi (mem : Nat → UInt8) (virtAddrRange : AddrRange VirtAddr)
    (hstart : (TAddress.raw virtAddrRange.start).toNat % 16 = 0)
    (hrev : ∀ addr ∈ alignedIn (TAddress.raw virtAddrRange.start).toNat
        (TAddress.raw virtAddrRange.stop).toNat,
      hasSignature mem addr = true → rsdpRevision mem addr ≠ 0) :
    (findRootTableIn mem virtAddrRange).map (fun a => (TAddress.raw a).toNat) =
      findRootTableAcpi mem (TAddress.raw virtAddrRange.start).toNat
        (TAddress.raw virtAddrRange.stop).toNat := by
  rw [findRootTableAcpi, ← map_raw_stepBy_sixteen hstart, List.find?_map, findRootTableIn]
  congr 1
  apply List.find?_congr
  intro virtAddr hmem
  have haligned : (TAddress.raw virtAddr).toNat ∈ alignedIn
      (TAddress.raw virtAddrRange.start).toNat (TAddress.raw virtAddrRange.stop).toNat := by
    rw [← map_raw_stepBy_sixteen hstart]
    exact List.mem_map_of_mem hmem
  by_cases hsig : hasSignature mem (TAddress.raw virtAddr).toNat = true
  · simp only [Function.comp_apply, AcpiRsdp, acpiChecksumLen,
      if_neg (hrev _ haligned hsig)]
  · simp [AcpiRsdp, hsig]

/-- A byte image holding `bytes` from address `0` and zeros after. -/
def memOfBytes (bytes : List UInt8) : Nat → UInt8 :=
  fun addr => bytes.getD addr 0

/-- A revision-`2` root pointer of `36` bytes at `0`, whose checksum byte `0xbb` makes them
sum to `0`. -/
def rsdpRevisionTwoImage : Nat → UInt8 :=
  memOfBytes (rsdpSignature ++ 0xbb :: List.replicate 6 0 ++ [2] ++ List.replicate 4 0 ++
    [36, 0, 0, 0] ++ List.replicate 12 0)

/-- Over `[0, 48)` both searches find the pointer at `0`. -/
theorem findRootTableIn_eq_acpi_revision_two :
    (TAddress.raw (VirtAddr.fromUsize 0#64)).toNat % 16 = 0 ∧
      (∀ addr ∈ alignedIn 0 48, hasSignature rsdpRevisionTwoImage addr = true →
        rsdpRevision rsdpRevisionTwoImage addr ≠ 0) ∧
      (findRootTableIn rsdpRevisionTwoImage
          ⟨VirtAddr.fromUsize 0#64, VirtAddr.fromUsize 48#64⟩).map
          (fun a => (TAddress.raw a).toNat) = findRootTableAcpi rsdpRevisionTwoImage 0 48 ∧
      findRootTableAcpi rsdpRevisionTwoImage 0 48 = some 0 := by
  have hstart : (TAddress.raw (VirtAddr.fromUsize 0#64)).toNat % 16 = 0 := by decide
  have hrev : ∀ addr ∈ alignedIn 0 48, hasSignature rsdpRevisionTwoImage addr = true →
      rsdpRevision rsdpRevisionTwoImage addr ≠ 0 := by
    decide
  exact ⟨hstart, hrev, findRootTableIn_eq_acpi _ ⟨VirtAddr.fromUsize 0#64,
    VirtAddr.fromUsize 48#64⟩ hstart hrev, by decide⟩

/-- Over `[0, 16)` the search checks one address.  A revision-`0` pointer whose checksum byte
is `0` does not pass the ACPI rule, but the `m_len` read past it is `0` and the search takes
it; one whose checksum byte `0xe1` makes its `20` bytes sum to `0` passes the rule, but the
`m_len` of `24` read past it brings in a nonzero byte and the search misses it.  Over
`[8, 40)` the search checks `8` and `24` and misses the pointer at `16`. -/
theorem findRootTableIn_revision_zero :
    findRootTableIn (memOfBytes rsdpSignature)
        ⟨VirtAddr.fromUsize 0#64, VirtAddr.fromUsize 16#64⟩ = some (VirtAddr.fromUsize 0#64) ∧
      findRootTableAcpi (memOfBytes rsdpSignature) 0 16 = none ∧
      findRootTableIn (memOfBytes (rsdpSignature ++ 0xe1 :: List.replicate 11 0 ++ [24]))
        ⟨VirtAddr.fromUsize 0#64, VirtAddr.fromUsize 16#64⟩ = none ∧
      findRootTableAcpi (memOfBytes (rsdpSignature ++ 0xe1 :: List.replicate 11 0 ++ [24]))
        0 16 = some 0 ∧
      findRootTableIn
        (memOfBytes (List.replicate 16 0 ++ rsdpSignature ++ 0xe1 :: List.replicate 11 0 ++ [20]))
        ⟨VirtAddr.fromUsize 8#64, VirtAddr.fromUsize 40#64⟩ = none ∧
      findRootTableAcpi
        (memOfBytes (List.replicate 16 0 ++ rsdpSignature ++ 0xe1 :: List.replicate 11 0 ++ [20]))
        8 40 = some 16 := by
  refine ⟨by decide, by decide, by decide, by decide, by decide, by decide⟩

section FindRootTable

/-- `AcpiManager::find_root_table`: the search of the KiB from the physical address `0x40e`,
then of the MiB from `0xe0000`, both read through the physical memory mapping.  `none` is the
overflow panic of `to_range`, `some none` the null pointer. -/
def findRootTable (mem : Nat → UInt8) (layoutManager : LayoutManager) :
    Option (Option VirtAddr) := do
  let extBiosDataAreaRange ← TAddress.toRange (layoutManager.physToVirt 0x40e) cKiB
  let biosAreaRange ← TAddress.toRange (layoutManager.physToVirt 0xe0000) cMiB
  match findRootTableIn mem extBiosDataAreaRange with
  | some rsdpPtr => return some rsdpPtr
  | none => return findRootTableIn mem biosAreaRange

/-- Modulo `16`, the address of `physAddr` in the mapping is `physAddr` past the mapping's
start: `From<usize>` keeps the low bits, and the wrap of the `usize` sum keeps them too. -/
theorem toNat_raw_physToVirt_mod_sixteen (layoutManager : LayoutManager) (physAddr : Nat) :
    (TAddress.raw (layoutManager.physToVirt physAddr)).toNat % 16 =
      (physAddr + layoutManager.physMemMappingRange.start) % 16 := by
  have hraw : TAddress.raw (layoutManager.physToVirt physAddr) = (HwVirtAddr.fromUsize
      (BitVec.ofNat 64 (layoutManager.physAddrToVirtAddr physAddr))).mRawVirtAddr := rfl
  have h16 : (16 : Nat) = 2 ^ 4 := rfl
  rw [hraw, h16, toNat_fromUsize_mod_two_pow _ (by norm_num), BitVec.toNat_ofNat,
    Nat.mod_mod_of_dvd _ (by norm_num : 2 ^ 4 ∣ 2 ^ 64), LayoutManager.physAddrToVirtAddr]

/-- With the physical memory mapping on a `16`-byte boundary, the search of the KiB from
`0x40e` checks only addresses `14` bytes past a boundary, never one where the ACPI rule places
the pointer; an aligned pointer that `find_root_table` returns is the one the search of the
MiB from `0xe0000` finds. -/
theorem findRootTable_ebda_unaligned {mem : Nat → UInt8} {layoutManager : LayoutManager}
    (h16 : layoutManager.physMemMappingRange.start % 16 = 0) :
    (∀ extBiosDataAreaRange,
        TAddress.toRange (layoutManager.physToVirt 0x40e) cKiB = some extBiosDataAreaRange →
        ∀ virtAddr ∈ TAddress.stepBy extBiosDataAreaRange 16,
          (TAddress.raw virtAddr).toNat % 16 = 14) ∧
      ∀ rsdpPtr, findRootTable mem layoutManager = some (some rsdpPtr) →
        (TAddress.raw rsdpPtr).toNat % 16 = 0 →
        ∃ biosAreaRange,
          TAddress.toRange (layoutManager.physToVirt 0xe0000) cMiB = some biosAreaRange ∧
            findRootTableIn mem biosAreaRange = some rsdpPtr := by
  have hebda : ∀ extBiosDataAreaRange,
      TAddress.toRange (layoutManager.physToVirt 0x40e) cKiB = some extBiosDataAreaRange →
      ∀ virtAddr ∈ TAddress.stepBy extBiosDataAreaRange 16,
        (TAddress.raw virtAddr).toNat % 16 = 14 := by
    intro r hr virtAddr hmem
    rw [TAddress.mod_of_mem_stepBy (by decide) hmem, TAddress.start_of_toRange hr,
      toNat_raw_physToVirt_mod_sixteen]
    omega
  refine ⟨hebda, fun rsdpPtr h haligned => ?_⟩
  simp only [findRootTable, Option.bind_eq_bind, Option.bind_eq_some_iff] at h
  obtain ⟨extBiosDataAreaRange, hebdaRange, biosAreaRange, hbiosRange, h⟩ := h
  refine ⟨biosAreaRange, hbiosRange, ?_⟩
  cases hfound : findRootTableIn mem extBiosDataAreaRange with
  | some p =>
    rw [hfound] at h
    obtain rfl : p = rsdpPtr := Option.some.inj (Option.some.inj h)
    have h14 := hebda _ hebdaRange p (List.mem_of_find?_eq_some hfound)
    omega
  | none =>
    rw [hfound] at h
    exact Option.some.inj h

/-- The mapping at `0xffff_8000_0000_0000` is on a `16`-byte boundary. -/
theorem findRootTable_ebda_unaligned_exampleLayout :
    exampleLayout.physMemMappingRange.start % 16 = 0 ∧
      ((∀ extBiosDataAreaRange,
          TAddress.toRange (exampleLayout.physToVirt 0x40e) cKiB = some extBiosDataAreaRange →
          ∀ virtAddr ∈ TAddress.stepBy extBiosDataAreaRange 16,
            (TAddress.raw virtAddr).toNat % 16 = 14) ∧
        ∀ rsdpPtr, findRootTable (fun _ => 0) exampleLayout = some (some rsdpPtr) →
          (TAddress.raw rsdpPtr).toNat % 16 = 0 →
          ∃ biosAreaRange,
            TAddress.toRange (exampleLayout.physToVirt 0xe0000) cMiB = some biosAreaRange ∧
              findRootTableIn (fun _ => 0) biosAreaRange = some rsdpPtr) := by
  have h16 : exampleLayout.physMemMappingRange.start % 16 = 0 := by decide
  exact ⟨h16, findRootTable_ebda_unaligned h16⟩

end FindRootTable

end Kernel
end MeetixOs
