import Mathlib
import MeetixOs.Kernel.VirtAddr
import MeetixOs.Kernel.MemManager
import MeetixOs.Kernel.LayoutManager
import MeetixOs.Lib.Transition

/-!
# The page-table walk of `PageDir`

`Kernel/src/vm/page_dir.rs` finds the entry that maps a virtual address.  From the root table,
`ensure_next_page_table_from_level` takes the entry that the address's index selects at a
level; when the entry is unused it allocates a frame, points the entry at it and clears the
new table, and otherwise it follows the entry through `next_page_table`, which only asserts
that the entry is present.  `ensure_page_table_entry::<S>` goes down two levels, a third for
`Page4KiB`, and returns the entry at `S`'s level.  `MemManager::map_physical_memory`
(`vm/mem_manager.rs`) maps all physical memory with it, in `2 MiB` huge pages.

The x86_64 entry (`arch/x86_64/vm/hw_page_table_entry.rs`) is one `usize`: bit `0` present,
`1` writeable, `7` huge page, `8` global, and the frame in bits `12..52`.  Tables are reached
through the physical memory mapping that `frame_to_next_page_table` adds its offset for, so
the state sees physical memory as one page table per frame.  The frame allocator,
`MemManager::allocate_kernel_phys_frame` in the kernel, is a parameter of the walk.

**Results.**
* `ensureNextPageTableFromLevel_spec`, `ensureNextPageTableFromLevel_cases`: one step of the
  walk, in its three cases.
* `TreeIn.ensurePageTableEntry`: when the allocator hands out fresh frames (`FreshAlloc`),
  the walk keeps the tables a tree (`TreeOn`), for every page size and address.
* `ensurePageTableEntry_frame`: the walk changes only unused entries at the address's own
  indexes, and points them to new tables.
* `ensurePageTableEntry_translate`: with no huge page above `S`'s level on the address's
  path, the entry returned is the one the translation of the address (`translate`) reaches
  in the tables the walk leaves.
* `pageDir_walk_follows_huge_page`: the walk does not stop at a huge page; in a tree of
  tables where a `2 MiB` page maps an address, `ensure_page_table_entry::<Page4KiB>` returns
  an entry of the huge page's frame read as a page table.
-/

namespace MeetixOs
namespace Kernel

open Bits

/-- `HwPhysAddr::from`: the address cut to `52` bits. -/
def physAddrFromUsize (rawPhysAddr : BitVec 64) : BitVec 64 :=
  rawPhysAddr &&& 0x000f_ffff_ffff_ffff#64

/-- `PageTableIndex` as the index of the array of a table. -/
def PageTableIndex.toFin (self : PageTableIndex) : Fin 512 :=
  ⟨self.mIndex.toNat, self.mIndex_lt⟩

/-- `PageTableEntry` over the x86_64 `HwPageTableEntry`: one `usize`. -/
structure PageTableEntry where
  mEntryValue : BitVec 64
  deriving DecidableEq, Repr

namespace PageTableEntry

/-- `new`. -/
def new : PageTableEntry := ⟨0#64⟩

/-- The flag getters: `bit_at(bit_index)`, whose assertion holds at every flag's bit. -/
def flag (self : PageTableEntry) (bitIndex : Nat) : Bool :=
  testBit self.mEntryValue bitIndex

/-- The flag setters: `set_bit(bit_index, value)`; `none` is its assertion. -/
def setFlag (self : PageTableEntry) (bitIndex : Nat) (value : Bool) : Option PageTableEntry :=
  (setBit self.mEntryValue bitIndex value).map mk

/-- `is_present`. -/
def isPresent (self : PageTableEntry) : Bool := self.flag 0

/-- `is_huge_page`. -/
def isHugePage (self : PageTableEntry) : Bool := self.flag 7

/-- `is_unused`. -/
def isUnused (self : PageTableEntry) : Bool := self.mEntryValue == 0#64

/-- `raw_phys_frame`. -/
def rawPhysFrame (self : PageTableEntry) : BitVec 64 :=
  self.mEntryValue &&& 0x000f_ffff_ffff_f000#64

/-- `phys_frame`: the frame of a present entry. -/
def physFrame (self : PageTableEntry) : Option (BitVec 64) :=
  if self.isPresent then some (physAddrFromUsize self.rawPhysFrame) else none

/-- `set_phys_frame`: the frame replaces bits `12..52`. -/
def setPhysFrame (self : PageTableEntry) (physFrame : BitVec 64) : PageTableEntry :=
  ⟨physFrame ||| (self.mEntryValue &&& 0xfff0_0000_0000_0fff#64)⟩

/-- `set_present`. -/
def setPresent (self : PageTableEntry) (isPresent : Bool) : Option PageTableEntry :=
  self.setFlag 0 isPresent

/-- `set_readable`: the bit does not exist on x86_64. -/
def setReadable (self : PageTableEntry) (_isReadable : Bool) : PageTableEntry := self

/-- `set_writeable`. -/
def setWriteable (self : PageTableEntry) (isWriteable : Bool) : Option PageTableEntry :=
  self.setFlag 1 isWriteable

/-- `set_huge_page`. -/
def setHugePage (self : PageTableEntry) (isHugePage : Bool) : Option PageTableEntry :=
  self.setFlag 7 isHugePage

/-- `set_global`. -/
def setGlobal (self : PageTableEntry) (isGlobal : Bool) : Option PageTableEntry :=
  self.setFlag 8 isGlobal

/-- The table that the x86_64 walk goes on to: the frame of a present entry that is not a
huge page. -/
def pointsTo (self : PageTableEntry) : Option Nat :=
  if self.isPresent && !self.isHugePage then some self.rawPhysFrame.toNat else none

end PageTableEntry

/-- `PageTable`: `512` entries. -/
structure PageTable where
  mEntries : Fin 512 → PageTableEntry

namespace PageTable

/-- `new`. -/
def new : PageTable := ⟨fun _ => .new⟩

/-- `clear`: every entry back to `PageTableEntry::new()`. -/
def clear (_self : PageTable) : PageTable := new

/-- `Index<PageTableIndex>`. -/
def index (self : PageTable) (index : PageTableIndex) : PageTableEntry :=
  self.mEntries index.toFin

/-- A write through `IndexMut<PageTableIndex>`. -/
def set (self : PageTable) (index : PageTableIndex) (entry : PageTableEntry) : PageTable :=
  ⟨Function.update self.mEntries index.toFin entry⟩

end PageTable

/-- What the walk reads and writes: physical memory, one page table per frame, and the
state of the frame allocator. -/
structure PagingState (σ : Type) where
  tables : Nat → PageTable
  memManager : σ

namespace PagingState

variable {σ : Type}

/-- The entry at `index` of the table in frame `table`. -/
def entry (st : PagingState σ) (table : Nat) (index : PageTableIndex) : PageTableEntry :=
  (st.tables table).index index

/-- A write of the entry at `index` of the table in frame `table`. -/
def writeEntry (st : PagingState σ) (table : Nat) (index : PageTableIndex)
    (pageTableEntry : PageTableEntry) : PagingState σ :=
  { st with tables := Function.update st.tables table ((st.tables table).set index pageTableEntry) }

/-- `clear` of the table in frame `table`. -/
def clearTable (st : PagingState σ) (table : Nat) : PagingState σ :=
  { st with tables := Function.update st.tables table (st.tables table).clear }

end PagingState

/-- `PageDir`: the frame of its root table. -/
structure PageDir where
  rootPhysFrame : Nat
  deriving DecidableEq, Repr

/-- The constants of a `TPageSize` that the walk reads. -/
structure TPageSize where
  size : Nat
  pageTableLevel : PageTableLevel
  deriving DecidableEq, Repr

/-- `Page4KiB`. -/
def page4KiB : TPageSize := ⟨page4KiBSize, .fourKiB⟩

/-- `Page2MiB`. -/
def page2MiB : TPageSize := ⟨page2MiBSize, .twoMiB⟩

/-- `PageDir::next_page_table`: the frame of the table a present entry points to; `none` is
the assertion on an entry that is not present. -/
def nextPageTable (pageTableEntry : PageTableEntry) : Option Nat :=
  if pageTableEntry.isPresent then pageTableEntry.physFrame.map BitVec.toNat else none

section Walk

variable {σ : Type} (alloc : σ → Option (σ × Option Nat))

/-- The `?` of the walk: a `None` returns at once with the state reached so far; the outer
`none` is a panic. -/
def walkBind {α β : Type} (r : Option (PagingState σ × Option α))
    (f : PagingState σ → α → Option (PagingState σ × Option β)) :
    Option (PagingState σ × Option β) :=
  r.bind fun (st, a?) => match a? with
    | none => some (st, none)
    | some a => f st a

/-- A property of states that the steps of a walk keep, the walk keeps. -/
theorem walkBind_preserves {α β : Type} {P : PagingState σ → Prop}
    {r : Option (PagingState σ × Option α)}
    {f : PagingState σ → α → Option (PagingState σ × Option β)}
    (hr : ∀ st' a, r = some (st', a) → P st')
    (hf : ∀ st a, P st → ∀ st' b, f st a = some (st', b) → P st') :
    ∀ st' b, walkBind r f = some (st', b) → P st' := by
  intro st' b h
  obtain ⟨⟨st₁, a?⟩, hr₁, h₁⟩ := Option.bind_eq_some_iff.mp h
  cases a? with
  | none =>
    obtain ⟨rfl, -⟩ := Prod.mk.inj (Option.some.inj h₁)
    exact hr st₁ none hr₁
  | some a => exact hf st₁ a (hr st₁ (some a) hr₁) st' b h₁

/-- A walk that ends with a value went through every step with a value. -/
theorem walkBind_eq_some_some {α β : Type} {r : Option (PagingState σ × Option α)}
    {f : PagingState σ → α → Option (PagingState σ × Option β)} {st' : PagingState σ} {b : β}
    (h : walkBind r f = some (st', some b)) :
    ∃ st a, r = some (st, some a) ∧ f st a = some (st', some b) := by
  obtain ⟨⟨st₁, a?⟩, hr₁, h₁⟩ := Option.bind_eq_some_iff.mp h
  cases a? with
  | none => cases h₁
  | some a => exact ⟨st₁, a, hr₁, h₁⟩

/-- `PageDir::ensure_next_page_table_from_level`: the frame of the next table. -/
def ensureNextPageTableFromLevel (virtAddr : VirtAddr) (prevTable : Nat)
    (pageTableLevel : PageTableLevel) (st : PagingState σ) :
    Option (PagingState σ × Option Nat) := do
  let index ← virtAddr.pageTableIndex pageTableLevel
  let pageTableEntry := st.entry prevTable index
  if pageTableEntry.isUnused then
    let (memManager, physFrame?) ← alloc st.memManager
    match physFrame? with
    | none => return ({ st with memManager }, none)
    | some physFrame =>
      let pageTableEntry ← (pageTableEntry.setPhysFrame (BitVec.ofNat 64 physFrame)).setPresent true
      let pageTableEntry ← (pageTableEntry.setReadable true).setWriteable true
      let st := { st with memManager }.writeEntry prevTable index pageTableEntry
      let nextPageTable ← nextPageTable pageTableEntry
      -- the new table is cleared after its entry is written
      return (st.clearTable nextPageTable, some nextPageTable)
  else
    let nextPageTable ← nextPageTable pageTableEntry
    return (st, some nextPageTable)

/-- `PageDir::ensure_page_table_entry::<S>`: the table and the index of the entry that maps
`virt_addr` at `S`'s level. -/
def ensurePageTableEntry (S : TPageSize) (self : PageDir) (virtAddr : VirtAddr)
    (st : PagingState σ) : Option (PagingState σ × Option (Nat × PageTableIndex)) :=
  if virtAddr.isAligned S.size then
    walkBind (ensureNextPageTableFromLevel alloc virtAddr self.rootPhysFrame .root st)
      fun st l3PageTable =>
    walkBind (ensureNextPageTableFromLevel alloc virtAddr l3PageTable .oneGiB st)
      fun st l2PageTable =>
    -- a `Page4KiB` mapping goes a level deeper
    walkBind (if S.size == page4KiBSize then
        ensureNextPageTableFromLevel alloc virtAddr l2PageTable .twoMiB st
      else some (st, some l2PageTable))
      fun st mapPageTable =>
    (virtAddr.pageTableIndex S.pageTableLevel).map fun index => (st, some (mapPageTable, index))
  else some (st, none)

/-- One turn of `MemManager::map_physical_memory`: a global writeable `2 MiB` huge page for
`phys_addr`; `expect` panics (`none`) when there is no entry. -/
def mapPhysicalMemoryStep (layoutManager : LayoutManager) (kernelPageDir : PageDir)
    (st : PagingState σ) (physAddr : Nat) : Option (PagingState σ) := do
  let virtAddr := VirtAddr.fromUsize (BitVec.ofNat 64 (layoutManager.physAddrToVirtAddr physAddr))
  let (st, pageTableEntry?) ← ensurePageTableEntry alloc page2MiB kernelPageDir virtAddr st
  let (table, index) ← pageTableEntry?
  let pageTableEntry := (st.entry table index).setPhysFrame (BitVec.ofNat 64 physAddr)
  let pageTableEntry ← pageTableEntry.setHugePage true
  let pageTableEntry ← pageTableEntry.setPresent true
  let pageTableEntry ← (pageTableEntry.setReadable true).setWriteable true
  let pageTableEntry ← pageTableEntry.setGlobal true
  return st.writeEntry table index pageTableEntry

/-- `MemManager::map_physical_memory`: `0..last_phys_mem_addr` stepped by `2 MiB`. -/
def mapPhysicalMemory (layoutManager : LayoutManager) (kernelPageDir : PageDir)
    (lastPhysMemAddr : Nat) (st : PagingState σ) : Option (PagingState σ) :=
  (PhysRange.stepBy ⟨0, lastPhysMemAddr⟩ page2MiBSize).foldlM
    (mapPhysicalMemoryStep alloc layoutManager kernelPageDir) st

end Walk

section Lemmas

variable {σ : Type}

theorem PageTableIndex.toFin_inj {i j : PageTableIndex} : i.toFin = j.toFin ↔ i = j := by
  constructor
  · intro h
    ext1
    exact BitVec.eq_of_toNat_eq (Fin.mk.inj_iff.mp h)
  · rintro rfl
    rfl

@[simp]
theorem PageTable.index_new (i : PageTableIndex) : PageTable.new.index i = .new := rfl

@[simp]
theorem PageTable.clear_eq (t : PageTable) : t.clear = .new := rfl

@[simp]
theorem PageTable.index_set (t : PageTable) (i j : PageTableIndex) (e : PageTableEntry) :
    (t.set i e).index j = if j = i then e else t.index j := by
  simp only [PageTable.set, PageTable.index, Function.update, ← PageTableIndex.toFin_inj]
  by_cases h : j.toFin = i.toFin
  · simp [h]
  · simp [h]

@[simp]
theorem PagingState.entry_writeEntry (st : PagingState σ) (t t' : Nat) (i j : PageTableIndex)
    (e : PageTableEntry) :
    (st.writeEntry t i e).entry t' j = if t' = t ∧ j = i then e else st.entry t' j := by
  by_cases ht : t' = t
  · subst ht
    simp [PagingState.writeEntry, PagingState.entry]
  · simp [PagingState.writeEntry, PagingState.entry, ht]

@[simp]
theorem PagingState.entry_clearTable (st : PagingState σ) (t t' : Nat) (j : PageTableIndex) :
    (st.clearTable t).entry t' j = if t' = t then .new else st.entry t' j := by
  by_cases ht : t' = t
  · subst ht
    simp [PagingState.clearTable, PagingState.entry]
  · simp [PagingState.clearTable, PagingState.entry, ht]

@[simp]
theorem PagingState.memManager_writeEntry (st : PagingState σ) (t : Nat) (i : PageTableIndex)
    (e : PageTableEntry) : (st.writeEntry t i e).memManager = st.memManager := rfl

@[simp]
theorem PagingState.memManager_clearTable (st : PagingState σ) (t : Nat) :
    (st.clearTable t).memManager = st.memManager := rfl

@[simp]
theorem PagingState.entry_setMemManager (st : PagingState σ) (memManager : σ) (t : Nat)
    (i : PageTableIndex) : ({ st with memManager }).entry t i = st.entry t i := rfl

@[simp]
theorem PageTableEntry.pointsTo_new : PageTableEntry.new.pointsTo = none := rfl

@[simp]
theorem PageTableEntry.isUnused_new : PageTableEntry.new.isUnused = true := rfl

theorem PageTableEntry.eq_new_of_isUnused {e : PageTableEntry} (h : e.isUnused = true) :
    e = .new := by
  cases e
  simpa [PageTableEntry.isUnused, PageTableEntry.new] using h

theorem physAddrFromUsize_rawPhysFrame (e : PageTableEntry) :
    physAddrFromUsize e.rawPhysFrame = e.rawPhysFrame := by
  rw [physAddrFromUsize, PageTableEntry.rawPhysFrame, BitVec.and_assoc]
  rfl

/-- `next_page_table` follows a present entry to the frame in its bits `12..52`. -/
theorem nextPageTable_eq (e : PageTableEntry) :
    nextPageTable e = if e.isPresent then some e.rawPhysFrame.toNat else none := by
  by_cases h : e.isPresent
  · simp [nextPageTable, PageTableEntry.physFrame, h, physAddrFromUsize_rawPhysFrame]
  · simp [nextPageTable, h]

end Lemmas

/-- The entry `ensure_next_page_table_from_level` writes for a new table in `physFrame`:
the frame, present and writeable. -/
def tableEntry (physFrame : Nat) : PageTableEntry :=
  ⟨BitVec.ofNat 64 physFrame ||| 3#64⟩

section TableEntry

variable {physFrame : Nat}

/-- A frame on a page and below `2 ^ 52` is read back from its entry. -/
theorem tableEntry_rawPhysFrame (halign : physFrame % page4KiBSize = 0)
    (hlt : physFrame < 2 ^ 52) : (tableEntry physFrame).rawPhysFrame.toNat = physFrame := by
  rw [page4KiBSize_eq] at halign
  have hor : physFrame ||| (2 ^ 2 - 1) = physFrame + 3 := by
    rw [PowTwo.or_two_pow_sub_one]
    omega
  have hmask := PowTwo.and_two_pow_sub_two_pow (v := physFrame ||| (2 ^ 2 - 1)) (n := 52) (k := 12)
    (by rw [hor]; omega) (by decide)
  simp only [tableEntry, PageTableEntry.rawPhysFrame, BitVec.toNat_and, BitVec.toNat_or,
    BitVec.toNat_ofNat, Nat.mod_eq_of_lt (show physFrame < 2 ^ 64 by omega)]
  rw [show 3 % 2 ^ 64 = 2 ^ 2 - 1 from rfl, show 0x000f_ffff_ffff_f000 % 2 ^ 64 = 2 ^ 52 - 2 ^ 12 from rfl,
    hmask, hor]
  omega

theorem tableEntry_isPresent : (tableEntry physFrame).isPresent = true := by
  simp [tableEntry, PageTableEntry.isPresent, PageTableEntry.flag, testBit_eq_getLsbD]

theorem tableEntry_isHugePage (halign : physFrame % page4KiBSize = 0) :
    (tableEntry physFrame).isHugePage = false := by
  rw [page4KiBSize_eq] at halign
  have hbit : physFrame.testBit 7 = false := by
    have h := Nat.testBit_mod_two_pow physFrame 12 7
    rw [show 2 ^ 12 = 4096 from rfl, halign, Nat.zero_testBit] at h
    simpa using h.symm
  rw [tableEntry, PageTableEntry.isHugePage, PageTableEntry.flag,
    testBit_eq_getLsbD _ (by decide), BitVec.getLsbD_or, BitVec.getLsbD_ofNat, hbit]
  rfl

theorem tableEntry_pointsTo (halign : physFrame % page4KiBSize = 0) (hlt : physFrame < 2 ^ 52) :
    (tableEntry physFrame).pointsTo = some physFrame := by
  simp [PageTableEntry.pointsTo, tableEntry_isPresent, tableEntry_isHugePage halign,
    tableEntry_rawPhysFrame halign hlt]

theorem tableEntry_isUnused : (tableEntry physFrame).isUnused = false := by
  have h : (tableEntry physFrame).mEntryValue.getLsbD 0 = true := by simp [tableEntry]
  simp only [PageTableEntry.isUnused, beq_eq_false_iff_ne]
  intro h0
  rw [h0] at h
  simp at h

end TableEntry

theorem setters_tableEntry (physFrame : Nat) :
    ((PageTableEntry.new.setPhysFrame (BitVec.ofNat 64 physFrame)).setPresent true).bind
      (fun e => (e.setReadable true).setWriteable true) = some (tableEntry physFrame) := by
  simp only [PageTableEntry.setPresent, PageTableEntry.setWriteable, PageTableEntry.setReadable,
    PageTableEntry.setFlag, PageTableEntry.setPhysFrame, PageTableEntry.new, setBit, tableEntry]
  simp only [show 0 < 64 by decide, show 1 < 64 by decide, if_true, Option.map_some,
    Option.bind_some, BitVec.zero_and, BitVec.or_zero, BitVec.or_assoc]
  rfl

section Step

variable {σ : Type} (alloc : σ → Option (σ × Option Nat))

/-- One step of the walk: an unused entry gets a table in a fresh frame, which is cleared
after the entry is written; a present entry is followed whatever its flags; any other entry
fails the assertion of `next_page_table`. -/
theorem ensureNextPageTableFromLevel_spec (virtAddr : VirtAddr) (prevTable : Nat)
    (level : PageTableLevel) (st : PagingState σ) :
    ∃ index, virtAddr.pageTableIndex level = some index ∧
      ensureNextPageTableFromLevel alloc virtAddr prevTable level st =
        if (st.entry prevTable index).isUnused then
          (alloc st.memManager).bind fun (memManager, physFrame?) => match physFrame? with
            | none => some ({ st with memManager }, none)
            | some physFrame =>
              some ((({ st with memManager }.writeEntry prevTable index
                  (tableEntry physFrame)).clearTable (tableEntry physFrame).rawPhysFrame.toNat),
                some (tableEntry physFrame).rawPhysFrame.toNat)
        else if (st.entry prevTable index).isPresent then
          some (st, some (st.entry prevTable index).rawPhysFrame.toNat)
        else none := by
  obtain ⟨index, hindex, -⟩ := pageTableIndex_spec virtAddr level
  refine ⟨index, hindex, ?_⟩
  simp only [ensureNextPageTableFromLevel, hindex, Option.bind_eq_bind, Option.bind_some]
  by_cases hunused : (st.entry prevTable index).isUnused
  · rw [if_pos hunused, if_pos hunused, PageTableEntry.eq_new_of_isUnused hunused]
    congr 1
    funext r
    rcases r with ⟨memManager, _ | physFrame⟩
    · rfl
    · have hset := setters_tableEntry physFrame
      simp only [Option.bind_eq_some_iff] at hset
      obtain ⟨e, he, hw⟩ := hset
      simp only [he, hw, Option.bind_some, nextPageTable_eq,
        show (tableEntry physFrame).isPresent = true by
          simp [tableEntry, PageTableEntry.isPresent, PageTableEntry.flag, testBit_eq_getLsbD],
        if_true]
      rfl
  · rw [if_neg hunused, if_neg hunused, nextPageTable_eq]
    by_cases hpresent : (st.entry prevTable index).isPresent <;> simp [hpresent]

/-- What one step of the walk can do: follow a present entry, stop when the allocator has no
frame, or point an unused entry at a new table, written before the table is cleared. -/
theorem ensureNextPageTableFromLevel_cases {virtAddr : VirtAddr} {prevTable : Nat}
    {level : PageTableLevel} {st st' : PagingState σ} {r : Option Nat}
    (h : ensureNextPageTableFromLevel alloc virtAddr prevTable level st = some (st', r)) :
    ∃ index, virtAddr.pageTableIndex level = some index ∧
      (((st.entry prevTable index).isUnused = false ∧ (st.entry prevTable index).isPresent = true ∧
          st' = st ∧ r = some (st.entry prevTable index).rawPhysFrame.toNat) ∨
      ((st.entry prevTable index).isUnused = true ∧ ∃ memManager,
          alloc st.memManager = some (memManager, none) ∧ st' = { st with memManager } ∧
          r = none) ∨
      ((st.entry prevTable index).isUnused = true ∧ ∃ memManager physFrame,
          alloc st.memManager = some (memManager, some physFrame) ∧
          st' = ({ st with memManager }.writeEntry prevTable index
            (tableEntry physFrame)).clearTable (tableEntry physFrame).rawPhysFrame.toNat ∧
          r = some (tableEntry physFrame).rawPhysFrame.toNat)) := by
  obtain ⟨index, hindex, heq⟩ := ensureNextPageTableFromLevel_spec alloc virtAddr prevTable level st
  refine ⟨index, hindex, ?_⟩
  rw [heq] at h
  by_cases hunused : (st.entry prevTable index).isUnused
  · rw [if_pos hunused] at h
    obtain ⟨⟨memManager, physFrame?⟩, halloc, hstep⟩ := Option.bind_eq_some_iff.mp h
    cases physFrame? with
    | none =>
      obtain ⟨rfl, rfl⟩ := Prod.mk.inj (Option.some.inj hstep)
      exact .inr (.inl ⟨hunused, memManager, halloc, rfl, rfl⟩)
    | some physFrame =>
      obtain ⟨rfl, rfl⟩ := Prod.mk.inj (Option.some.inj hstep)
      exact .inr (.inr ⟨hunused, memManager, physFrame, halloc, rfl, rfl⟩)
  · rw [if_neg hunused] at h
    by_cases hpresent : (st.entry prevTable index).isPresent
    · rw [if_pos hpresent] at h
      obtain ⟨rfl, rfl⟩ := Prod.mk.inj (Option.some.inj h)
      exact .inl ⟨by simpa using hunused, hpresent, rfl, rfl⟩
    · rw [if_neg hpresent] at h
      cases h

/-- A property of states that every step keeps, `ensure_page_table_entry` keeps: the third
step is taken for `Page4KiB` only, and reading the index changes nothing. -/
theorem ensurePageTableEntry_preserves {P : PagingState σ → Prop} {S : TPageSize}
    {self : PageDir} {virtAddr : VirtAddr} {st st' : PagingState σ}
    {r : Option (Nat × PageTableIndex)}
    (hstep : ∀ prevTable level st₁, P st₁ → ∀ st₂ b,
      ensureNextPageTableFromLevel alloc virtAddr prevTable level st₁ = some (st₂, b) → P st₂)
    (hP : P st) (h : ensurePageTableEntry alloc S self virtAddr st = some (st', r)) : P st' := by
  have hlast : ∀ st₂ l2PageTable, P st₂ → ∀ st₃ b,
      (if S.size == page4KiBSize then
        ensureNextPageTableFromLevel alloc virtAddr l2PageTable .twoMiB st₂
      else some (st₂, some l2PageTable)) = some (st₃, b) → P st₃ := by
    intro st₂ l2PageTable hP₂ st₃ b hb
    split at hb
    · exact hstep _ _ _ hP₂ _ _ hb
    · cases hb
      exact hP₂
  have hindex : ∀ st₃ (mapPageTable : Nat), P st₃ → ∀ st₄ b,
      ((virtAddr.pageTableIndex S.pageTableLevel).map
        fun index => (st₃, some (mapPageTable, index))) = some (st₄, b) → P st₄ := by
    intro st₃ mapPageTable hP₃ st₄ b hb
    obtain ⟨index, -, hb⟩ := Option.map_eq_some_iff.mp hb
    cases hb
    exact hP₃
  unfold ensurePageTableEntry at h
  split at h
  · exact walkBind_preserves (hstep _ _ _ hP) (fun st₁ _ hP₁ =>
      walkBind_preserves (hstep _ _ _ hP₁) fun st₂ l2PageTable hP₂ =>
        walkBind_preserves (hlast st₂ l2PageTable hP₂) fun st₃ m hP₃ => hindex st₃ m hP₃) st' r h
  · cases h
    exact hP

end Step

/-! ### The allocator's state seen through a map

The walk reads the state of the frame allocator only through `alloc`, so a walk with an
allocator whose state is finer, seen through `π`, is the same walk. -/

section MapMemManager

variable {σ τ : Type} {alloc : σ → Option (σ × Option Nat)} {alloc' : τ → Option (τ × Option Nat)}
  {π : σ → τ}

/-- The same tables, with the allocator's state seen through `π`. -/
def PagingState.mapMemManager (π : σ → τ) (st : PagingState σ) : PagingState τ :=
  ⟨st.tables, π st.memManager⟩

@[simp]
theorem PagingState.entry_mapMemManager (st : PagingState σ) (t : Nat) (i : PageTableIndex) :
    (st.mapMemManager π).entry t i = st.entry t i := rfl

theorem walkBind_mapMemManager {α β : Type} {r : Option (PagingState σ × Option α)}
    {f : PagingState σ → α → Option (PagingState σ × Option β)}
    {f' : PagingState τ → α → Option (PagingState τ × Option β)}
    (hf : ∀ st a, f' (st.mapMemManager π) a =
      (f st a).map (Prod.map (PagingState.mapMemManager π) id)) :
    walkBind (r.map (Prod.map (PagingState.mapMemManager π) id)) f' =
      (walkBind r f).map (Prod.map (PagingState.mapMemManager π) id) := by
  rcases r with _ | ⟨st, _ | a⟩
  · rfl
  · rfl
  · exact hf st a

variable (hπ : ∀ s, alloc' (π s) = (alloc s).map (Prod.map π id))
include hπ

theorem ensureNextPageTableFromLevel_mapMemManager (virtAddr : VirtAddr) (prevTable : Nat)
    (level : PageTableLevel) (st : PagingState σ) :
    ensureNextPageTableFromLevel alloc' virtAddr prevTable level (st.mapMemManager π) =
      (ensureNextPageTableFromLevel alloc virtAddr prevTable level st).map
        (Prod.map (PagingState.mapMemManager π) id) := by
  obtain ⟨index, hindex, heq⟩ :=
    ensureNextPageTableFromLevel_spec alloc' virtAddr prevTable level (st.mapMemManager π)
  obtain ⟨index', hindex', heq'⟩ :=
    ensureNextPageTableFromLevel_spec alloc virtAddr prevTable level st
  obtain rfl : index' = index := Option.some.inj (hindex'.symm.trans hindex)
  rw [heq, heq', PagingState.entry_mapMemManager]
  split_ifs
  · rw [show (st.mapMemManager π).memManager = π st.memManager from rfl, hπ]
    rcases alloc st.memManager with _ | ⟨memManager, _ | physFrame⟩ <;> rfl
  · rfl
  · rfl

theorem ensurePageTableEntry_mapMemManager (S : TPageSize) (self : PageDir)
    (virtAddr : VirtAddr) (st : PagingState σ) :
    ensurePageTableEntry alloc' S self virtAddr (st.mapMemManager π) =
      (ensurePageTableEntry alloc S self virtAddr st).map
        (Prod.map (PagingState.mapMemManager π) id) := by
  unfold ensurePageTableEntry
  by_cases haligned : virtAddr.isAligned S.size
  · rw [if_pos haligned, if_pos haligned, ensureNextPageTableFromLevel_mapMemManager hπ]
    refine walkBind_mapMemManager fun st₁ l3PageTable => ?_
    rw [ensureNextPageTableFromLevel_mapMemManager hπ]
    refine walkBind_mapMemManager fun st₂ l2PageTable => ?_
    have hlast : (if S.size == page4KiBSize then
          ensureNextPageTableFromLevel alloc' virtAddr l2PageTable .twoMiB (st₂.mapMemManager π)
        else some (st₂.mapMemManager π, some l2PageTable)) =
        (if S.size == page4KiBSize then
          ensureNextPageTableFromLevel alloc virtAddr l2PageTable .twoMiB st₂
        else some (st₂, some l2PageTable)).map (Prod.map (PagingState.mapMemManager π) id) := by
      split_ifs
      · exact ensureNextPageTableFromLevel_mapMemManager hπ _ _ _ _
      · rfl
    rw [hlast]
    refine walkBind_mapMemManager fun st₃ mapPageTable => ?_
    cases virtAddr.pageTableIndex S.pageTableLevel <;> rfl
  · rw [if_neg haligned, if_neg haligned]
    rfl

theorem mapPhysicalMemoryStep_mapMemManager (layoutManager : LayoutManager)
    (kernelPageDir : PageDir) (st : PagingState σ) (physAddr : Nat) :
    mapPhysicalMemoryStep alloc' layoutManager kernelPageDir (st.mapMemManager π) physAddr =
      (mapPhysicalMemoryStep alloc layoutManager kernelPageDir st physAddr).map
        (PagingState.mapMemManager π) := by
  simp only [mapPhysicalMemoryStep, ensurePageTableEntry_mapMemManager hπ]
  rcases ensurePageTableEntry alloc page2MiB kernelPageDir _ st with _ | ⟨st₁, _ | ⟨table, index⟩⟩
  · rfl
  · rfl
  · simp only [Option.map_some, Prod.map, id, Option.bind_eq_bind, Option.bind_some,
      PagingState.entry_mapMemManager, Option.map_bind]
    rfl

/-- `map_physical_memory` with the finer allocator is the same run. -/
theorem mapPhysicalMemory_mapMemManager (layoutManager : LayoutManager)
    (kernelPageDir : PageDir) (lastPhysMemAddr : Nat) (st : PagingState σ) :
    mapPhysicalMemory alloc' layoutManager kernelPageDir lastPhysMemAddr (st.mapMemManager π) =
      (mapPhysicalMemory alloc layoutManager kernelPageDir lastPhysMemAddr st).map
        (PagingState.mapMemManager π) :=
  Transition.foldlM_map_comm (mapPhysicalMemoryStep_mapMemManager hπ layoutManager kernelPageDir)
    _ st

end MapMemManager

/-- The level of the tables that the entries of a level point to. -/
def PageTableLevel.next : PageTableLevel → Option PageTableLevel
  | .root => some .oneGiB
  | .oneGiB => some .twoMiB
  | .twoMiB => some .fourKiB
  | .fourKiB => none

/-- How many levels lie above a level. -/
def PageTableLevel.depth : PageTableLevel → Nat
  | .root => 0
  | .oneGiB => 1
  | .twoMiB => 2
  | .fourKiB => 3

section Tree

variable {σ : Type}

/-- The tables of a directory form a tree, `tableAt level` holding the frames of the tables
of each level: every entry above the last level is unused or present, a huge page is a leaf
(none in the root table), and distinct entries point to distinct tables, none the root. -/
structure TreeOn (st : PagingState σ) (root : Nat) (tableAt : PageTableLevel → Set Nat) :
    Prop where
  root_mem : root ∈ tableAt .root
  unused_or_present : ∀ level t i, level ≠ .fourKiB → t ∈ tableAt level →
    (st.entry t i).isUnused ∨ (st.entry t i).isPresent
  root_not_huge : ∀ t i, t ∈ tableAt .root → (st.entry t i).isPresent →
    (st.entry t i).isHugePage = false
  child_mem : ∀ level level' t i f, level.next = some level' → t ∈ tableAt level →
    (st.entry t i).pointsTo = some f → f ∈ tableAt level'
  child_injective : ∀ l₁ l₂ t₁ t₂ i₁ i₂ f, l₁ ≠ .fourKiB → l₂ ≠ .fourKiB →
    t₁ ∈ tableAt l₁ → t₂ ∈ tableAt l₂ → (st.entry t₁ i₁).pointsTo = some f →
    (st.entry t₂ i₂).pointsTo = some f → t₁ = t₂ ∧ i₁ = i₂
  child_ne_root : ∀ level t i, level ≠ .fourKiB → t ∈ tableAt level →
    (st.entry t i).pointsTo ≠ some root

/-- The tables reachable from `root` form a tree. -/
def Tree (st : PagingState σ) (root : Nat) : Prop :=
  ∃ tableAt, TreeOn st root tableAt

end Tree

section Translate

variable {σ : Type} {st : PagingState σ} {root : Nat} {virtAddr : VirtAddr}

/-- One level of the x86_64 translation: the table that the entry of `table` for
`virtAddr` at `level` points to. -/
def descend (st : PagingState σ) (virtAddr : VirtAddr) (level : PageTableLevel) (table : Nat) :
    Option Nat :=
  (virtAddr.pageTableIndex level).bind fun index => (st.entry table index).pointsTo

/-- The x86_64 translation of `virtAddr`, from the root table down to the table of
`level`. -/
def translate (st : PagingState σ) (root : Nat) (virtAddr : VirtAddr) :
    PageTableLevel → Option Nat
  | .root => some root
  | .oneGiB => descend st virtAddr .root root
  | .twoMiB => (descend st virtAddr .root root).bind (descend st virtAddr .oneGiB)
  | .fourKiB => ((descend st virtAddr .root root).bind (descend st virtAddr .oneGiB)).bind
      (descend st virtAddr .twoMiB)

theorem translate_next {level level' : PageTableLevel} (h : level.next = some level') :
    translate st root virtAddr level' =
      (translate st root virtAddr level).bind (descend st virtAddr level) := by
  cases level <;> simp only [PageTableLevel.next, Option.some.injEq, reduceCtorEq] at h <;>
    subst h <;> rfl

/-- Induction along the translation: a property of the root that each level passes on to
the table it points to holds of every table the translation reaches. -/
theorem translate_induction {P : PageTableLevel → Nat → Prop} (hroot : P .root root)
    (hstep : ∀ level level' t t', level.next = some level' →
      translate st root virtAddr level = some t → P level t →
      descend st virtAddr level t = some t' → P level' t') :
    ∀ level t, translate st root virtAddr level = some t → P level t := by
  have hnext : ∀ level level', level.next = some level' →
      (∀ t, translate st root virtAddr level = some t → P level t) →
      ∀ t', translate st root virtAddr level' = some t' → P level' t' := by
    intro level level' hl ih t' ht'
    rw [translate_next hl] at ht'
    obtain ⟨t, ht, hd⟩ := Option.bind_eq_some_iff.mp ht'
    exact hstep level level' t t' hl ht (ih t ht) hd
  have h₀ : ∀ t, translate st root virtAddr .root = some t → P .root t := by
    rintro t ⟨⟩
    exact hroot
  have h₁ := hnext .root .oneGiB rfl h₀
  have h₂ := hnext .oneGiB .twoMiB rfl h₁
  have h₃ := hnext .twoMiB .fourKiB rfl h₂
  intro level
  cases level
  exacts [h₀, h₁, h₂, h₃]

/-- The translation stays inside the tree. -/
theorem TreeOn.translate_mem {tableAt : PageTableLevel → Set Nat}
    (hT : TreeOn st root tableAt) :
    ∀ level t, translate st root virtAddr level = some t → t ∈ tableAt level :=
  translate_induction hT.root_mem fun level level' t t' hl _ ht hd => by
    obtain ⟨index, -, hpt⟩ := Option.bind_eq_some_iff.mp hd
    exact hT.child_mem level level' t index t' hl ht hpt

/-- The translation reaches the same tables in a state that keeps every entry it goes
through. -/
theorem translate_of_keep {st₂ : PagingState σ} {U : Set Nat}
    (hU : ∀ level t, translate st root virtAddr level = some t → t ∈ U)
    (hkeep : ∀ t i t', t ∈ U → (st.entry t i).pointsTo = some t' → st₂.entry t i = st.entry t i) :
    ∀ level t, translate st root virtAddr level = some t →
      translate st₂ root virtAddr level = some t :=
  translate_induction (P := fun level t => translate st₂ root virtAddr level = some t) rfl
    fun level level' t t' hl ht h₂ hd => by
      obtain ⟨index, hindex, hpt⟩ := Option.bind_eq_some_iff.mp hd
      rw [translate_next hl, h₂, Option.bind_some, descend, hindex, Option.bind_some,
        hkeep t index t' (hU level t ht) hpt, hpt]

end Translate

section TreeKept

variable {σ : Type} (alloc : σ → Option (σ × Option Nat)) (used : σ → Set Nat)

/-- What the walk needs of the frame allocator, with `used` the frames handed out so far: a
frame it hands out is on a page, below `2 ^ 52` and not handed out before, and is handed out
after; when it has no frame, nothing changes. -/
structure FreshAlloc : Prop where
  fresh : ∀ s s' f, alloc s = some (s', some f) →
    f % page4KiBSize = 0 ∧ f < 2 ^ 52 ∧ f ∉ used s ∧ used s' = insert f (used s)
  keep : ∀ s s', alloc s = some (s', none) → used s' = used s

/-- The tables form a tree, all in frames that the allocator has handed out. -/
def TreeIn (st : PagingState σ) (root : Nat) : Prop :=
  ∃ tableAt, TreeOn st root tableAt ∧ ∀ level, tableAt level ⊆ used st.memManager

/-- What a walk from `st₀` may have changed by `st`, in the frames `used₀` handed out before
it: an entry that was unused, at one of the address's indexes, now pointing to a new table
in a frame handed out since. -/
def WalkChanges (used₀ : Set Nat) (st₀ : PagingState σ) (virtAddr : VirtAddr)
    (st : PagingState σ) : Prop :=
  used₀ ⊆ used st.memManager ∧ ∀ t ∈ used₀, ∀ i, st.entry t i = st₀.entry t i ∨
    ((st₀.entry t i).isUnused = true ∧ (∃ level, virtAddr.pageTableIndex level = some i) ∧
      ∃ f, st.entry t i = tableEntry f ∧ f % page4KiBSize = 0 ∧ f < 2 ^ 52 ∧ f ∉ used₀)

/-- Where a walk from `st₀` stands at `level`: the tables are a tree, the translation of
the address in the current state reaches `table`, and either nothing has changed yet or
`table` is a new table, still empty. -/
def WalkAt (st₀ : PagingState σ) (root : Nat) (virtAddr : VirtAddr) (level : PageTableLevel)
    (st : PagingState σ) (table : Nat) : Prop :=
  TreeIn used st root ∧ translate st root virtAddr level = some table ∧
    (st = st₀ ∨ ∀ i, st.entry table i = .new)

variable {st : PagingState σ} {root : Nat} {tableAt : PageTableLevel → Set Nat}

/-- The tree depends on the tables alone. -/
theorem TreeOn.of_tables {σ' : Type} {st' : PagingState σ'} (hT : TreeOn st root tableAt)
    (h : st'.tables = st.tables) : TreeOn st' root tableAt := by
  obtain ⟨tables, memManager⟩ := st'
  subst h
  exact ⟨hT.root_mem, hT.unused_or_present, hT.root_not_huge, hT.child_mem, hT.child_injective,
    hT.child_ne_root⟩

/-- An entry of a table above the last level that points somewhere points to a table. -/
theorem TreeOn.pointsTo_mem (hT : TreeOn st root tableAt) {level : PageTableLevel} {t f : Nat}
    {i : PageTableIndex} (hlevel : level ≠ .fourKiB) (ht : t ∈ tableAt level)
    (hf : (st.entry t i).pointsTo = some f) : ∃ level', f ∈ tableAt level' := by
  cases level with
  | root => exact ⟨_, hT.child_mem .root .oneGiB t i f rfl ht hf⟩
  | oneGiB => exact ⟨_, hT.child_mem .oneGiB .twoMiB t i f rfl ht hf⟩
  | twoMiB => exact ⟨_, hT.child_mem .twoMiB .fourKiB t i f rfl ht hf⟩
  | fourKiB => exact absurd rfl hlevel

/-- Pointing an unused entry at a fresh frame and clearing that frame keeps the tree, with
the frame as a table of every level. -/
theorem TreeOn.create (hT : TreeOn st root tableAt) {U : Set Nat}
    (hU : ∀ level, tableAt level ⊆ U) {prevTable f : Nat} {index : PageTableIndex}
    (hf : f ∉ U) (halign : f % page4KiBSize = 0) (hlt : f < 2 ^ 52) (memManager : σ) :
    TreeOn (({ st with memManager }.writeEntry prevTable index (tableEntry f)).clearTable f) root
      (fun level => insert f (tableAt level)) := by
  have hentry : ∀ t i,
      (({ st with memManager }.writeEntry prevTable index (tableEntry f)).clearTable f).entry t i =
        if t = f then .new else if t = prevTable ∧ i = index then tableEntry f
        else st.entry t i := by
    intro t i
    simp
  have hne : ∀ level t, t ∈ tableAt level → t ≠ f := fun level t ht h => hf (h ▸ hU level ht)
  have hold : ∀ level t i, level ≠ .fourKiB → t ∈ tableAt level →
      (st.entry t i).pointsTo ≠ some f := by
    intro level t i hlevel ht hpt
    obtain ⟨level', hmem⟩ := hT.pointsTo_mem hlevel ht hpt
    exact hne level' f hmem rfl
  have hpointsTo : ∀ t i g,
      ((({ st with memManager }.writeEntry prevTable index (tableEntry f)).clearTable f).entry
        t i).pointsTo = some g →
      t ≠ f ∧ ((t = prevTable ∧ i = index ∧ g = f) ∨
        (¬ (t = prevTable ∧ i = index) ∧ (st.entry t i).pointsTo = some g)) := by
    intro t i g hg
    rw [hentry] at hg
    split_ifs at hg with htf hpi
    · cases hg
    · rw [tableEntry_pointsTo halign hlt] at hg
      exact ⟨htf, .inl ⟨hpi.1, hpi.2, (Option.some.inj hg).symm⟩⟩
    · exact ⟨htf, .inr ⟨hpi, hg⟩⟩
  have hmem : ∀ {level t}, t ∈ insert f (tableAt level) → t ≠ f → t ∈ tableAt level :=
    fun ht htf => (Set.mem_insert_iff.mp ht).resolve_left htf
  constructor
  · exact Set.mem_insert_of_mem _ hT.root_mem
  · intro level t i hlevel ht
    rw [hentry]
    split_ifs with htf hpi
    · simp
    · simp [tableEntry_isPresent]
    · exact hT.unused_or_present level t i hlevel (hmem ht htf)
  · intro t i ht hpresent
    rw [hentry] at hpresent ⊢
    split_ifs at hpresent ⊢ with htf hpi
    · cases hpresent
    · exact tableEntry_isHugePage halign
    · exact hT.root_not_huge t i (hmem ht htf) hpresent
  · intro level level' t i g hnext ht hg
    rcases hpointsTo t i g hg with ⟨htf, ⟨-, -, rfl⟩ | ⟨-, hold'⟩⟩
    · exact Set.mem_insert _ _
    · exact Set.mem_insert_of_mem _ (hT.child_mem level level' t i g hnext (hmem ht htf) hold')
  · intro l₁ l₂ t₁ t₂ i₁ i₂ g hl₁ hl₂ ht₁ ht₂ hg₁ hg₂
    rcases hpointsTo t₁ i₁ g hg₁ with ⟨htf₁, ⟨rfl, rfl, rfl⟩ | ⟨-, hold₁⟩⟩ <;>
      rcases hpointsTo t₂ i₂ g hg₂ with ⟨htf₂, ⟨rfl, rfl, hgf⟩ | ⟨-, hold₂⟩⟩
    · exact ⟨rfl, rfl⟩
    · exact absurd hold₂ (hold l₂ t₂ i₂ hl₂ (hmem ht₂ htf₂))
    · exact absurd (hgf ▸ hold₁) (hold l₁ t₁ i₁ hl₁ (hmem ht₁ htf₁))
    · exact hT.child_injective l₁ l₂ t₁ t₂ i₁ i₂ g hl₁ hl₂ (hmem ht₁ htf₁) (hmem ht₂ htf₂)
        hold₁ hold₂
  · intro level t i hlevel ht hroot
    rcases hpointsTo t i root hroot with ⟨htf, ⟨-, -, hrf⟩ | ⟨-, hold'⟩⟩
    · exact hne .root root hT.root_mem hrf
    · exact hT.child_ne_root level t i hlevel (hmem ht htf) hold'

variable {alloc used}

/-- The three cases of one step, with an allocator that hands out fresh frames: the entry
is followed, or the allocator has no frame and hands out nothing, or a fresh frame becomes
the new table. -/
theorem FreshAlloc.ensureNextPageTableFromLevel_cases (hfresh : FreshAlloc alloc used)
    {virtAddr : VirtAddr} {prevTable : Nat} {level : PageTableLevel} {st' : PagingState σ}
    {r : Option Nat}
    (h : Kernel.ensureNextPageTableFromLevel alloc virtAddr prevTable level st = some (st', r)) :
    ∃ index, virtAddr.pageTableIndex level = some index ∧
      (((st.entry prevTable index).isUnused = false ∧ (st.entry prevTable index).isPresent = true ∧
          st' = st ∧ r = some (st.entry prevTable index).rawPhysFrame.toNat) ∨
      (∃ memManager, used memManager = used st.memManager ∧ st' = { st with memManager } ∧
          r = none) ∨
      ((st.entry prevTable index).isUnused = true ∧ ∃ memManager f,
          f % page4KiBSize = 0 ∧ f < 2 ^ 52 ∧ f ∉ used st.memManager ∧
          used memManager = insert f (used st.memManager) ∧
          st' = ({ st with memManager }.writeEntry prevTable index (tableEntry f)).clearTable f ∧
          r = some f)) := by
  obtain ⟨index, hindex, hcase⟩ := Kernel.ensureNextPageTableFromLevel_cases alloc h
  refine ⟨index, hindex, ?_⟩
  rcases hcase with hfollow | ⟨-, memManager, halloc, hst, hr⟩ |
    ⟨hunused, memManager, f, halloc, hst, hr⟩
  · exact .inl hfollow
  · exact .inr (.inl ⟨memManager, hfresh.keep _ _ halloc, hst, hr⟩)
  · obtain ⟨halign, hlt, hnot, hused⟩ := hfresh.fresh _ _ _ halloc
    rw [tableEntry_rawPhysFrame halign hlt] at hst hr
    exact .inr (.inr ⟨hunused, memManager, f, halign, hlt, hnot, hused, hst, hr⟩)

/-- One step of the walk keeps the tree, whether it follows an entry, finds no frame, or
makes a new table. -/
theorem TreeIn.ensureNextPageTableFromLevel (hfresh : FreshAlloc alloc used)
    (hT : TreeIn used st root) {virtAddr : VirtAddr} {prevTable : Nat} {level : PageTableLevel}
    {st' : PagingState σ} {r : Option Nat}
    (h : Kernel.ensureNextPageTableFromLevel alloc virtAddr prevTable level st = some (st', r)) :
    TreeIn used st' root := by
  obtain ⟨tableAt, hT, hU⟩ := hT
  obtain ⟨index, -, hcase⟩ := hfresh.ensureNextPageTableFromLevel_cases h
  rcases hcase with ⟨-, -, rfl, -⟩ | ⟨memManager, hkeep, rfl, -⟩ |
    ⟨-, memManager, f, halign, hlt, hnot, hused, rfl, -⟩
  · exact ⟨tableAt, hT, hU⟩
  · refine ⟨tableAt, hT.of_tables rfl, fun level => ?_⟩
    rw [hkeep]
    exact hU level
  · refine ⟨_, hT.create hU hnot halign hlt memManager, fun level => ?_⟩
    simp only [PagingState.memManager_clearTable, PagingState.memManager_writeEntry, hused]
    exact Set.insert_subset_insert (hU level)

/-- The walk keeps the tree, for every page size and every address. -/
theorem TreeIn.ensurePageTableEntry (hfresh : FreshAlloc alloc used)
    (hT : TreeIn used st root) {S : TPageSize} {virtAddr : VirtAddr} {st' : PagingState σ}
    {r : Option (Nat × PageTableIndex)}
    (h : Kernel.ensurePageTableEntry alloc S ⟨root⟩ virtAddr st = some (st', r)) :
    TreeIn used st' root :=
  ensurePageTableEntry_preserves alloc (P := fun st => TreeIn used st root)
    (fun _ _ _ hT₁ _ _ hb => hT₁.ensureNextPageTableFromLevel hfresh hb) hT h

/-- One step keeps what the walk may have changed. -/
theorem WalkChanges.ensureNextPageTableFromLevel (hfresh : FreshAlloc alloc used)
    {used₀ : Set Nat} {st₀ st₁ : PagingState σ} {virtAddr : VirtAddr}
    (hc : WalkChanges used used₀ st₀ virtAddr st₁) {prevTable : Nat} {level : PageTableLevel}
    {st₂ : PagingState σ} {r : Option Nat}
    (h : Kernel.ensureNextPageTableFromLevel alloc virtAddr prevTable level st₁ = some (st₂, r)) :
    WalkChanges used used₀ st₀ virtAddr st₂ := by
  obtain ⟨hsub, hchanged⟩ := hc
  obtain ⟨index, hindex, hcase⟩ := hfresh.ensureNextPageTableFromLevel_cases h
  rcases hcase with ⟨-, -, rfl, -⟩ | ⟨memManager, hkeep, rfl, -⟩ |
    ⟨hunused, memManager, f, halign, hlt, hnot, hused, rfl, -⟩
  · exact ⟨hsub, hchanged⟩
  · refine ⟨?_, hchanged⟩
    rw [hkeep]
    exact hsub
  · refine ⟨?_, fun t ht i => ?_⟩
    · simp only [PagingState.memManager_clearTable, PagingState.memManager_writeEntry, hused]
      exact hsub.trans (Set.subset_insert _ _)
    · have htf : t ≠ f := fun h => hnot (h ▸ hsub ht)
      simp only [PagingState.entry_clearTable, htf, if_false, PagingState.entry_writeEntry,
        PagingState.entry_setMemManager]
      split_ifs with hpi
      · obtain ⟨rfl, rfl⟩ := hpi
        rcases hchanged t ht i with heq | ⟨-, -, f', hf', -⟩
        · rw [← heq]
          exact .inr ⟨hunused, ⟨level, hindex⟩, f, rfl, halign, hlt, fun h => hnot (hsub h)⟩
        · rw [hf', tableEntry_isUnused] at hunused
          cases hunused
      · exact hchanged t ht i

/-- The walk changes no entry of a frame handed out before it, but unused entries at one of
the address's indexes, which then point to new tables in frames handed out by the walk. -/
theorem ensurePageTableEntry_frame (hfresh : FreshAlloc alloc used) {S : TPageSize}
    {self : PageDir} {virtAddr : VirtAddr} {st' : PagingState σ}
    {r : Option (Nat × PageTableIndex)}
    (h : Kernel.ensurePageTableEntry alloc S self virtAddr st = some (st', r)) :
    ∀ t ∈ used st.memManager, ∀ i, st'.entry t i = st.entry t i ∨
      ((st.entry t i).isUnused = true ∧ (∃ level, virtAddr.pageTableIndex level = some i) ∧
        ∃ f, (st'.entry t i).pointsTo = some f ∧ f ∉ used st.memManager) := by
  have hend : WalkChanges used (used st.memManager) st virtAddr st' :=
    ensurePageTableEntry_preserves alloc
      (fun _ _ _ hc _ _ hb => hc.ensureNextPageTableFromLevel hfresh hb)
      ⟨subset_rfl, fun _ _ _ => .inl rfl⟩ h
  intro t ht i
  rcases hend.2 t ht i with heq | ⟨hunused, hlevel, f, hf, halign, hlt, hnot⟩
  · exact .inl heq
  · exact .inr ⟨hunused, hlevel, f, by rw [hf, tableEntry_pointsTo halign hlt], hnot⟩

/-- A step from where the walk stands, over an entry that is not a huge page in the
directory the walk started from, reaches the table of the next level. -/
theorem WalkAt.ensureNextPageTableFromLevel (hfresh : FreshAlloc alloc used)
    {st₀ st₁ st₂ : PagingState σ} {virtAddr : VirtAddr} {level level' : PageTableLevel}
    {prevTable next : Nat} (hnext : level.next = some level')
    (hnohuge : ∀ t index, translate st₀ root virtAddr level = some t →
      virtAddr.pageTableIndex level = some index → (st₀.entry t index).isHugePage = false)
    (hw : WalkAt used st₀ root virtAddr level st₁ prevTable)
    (h : Kernel.ensureNextPageTableFromLevel alloc virtAddr prevTable level st₁ =
      some (st₂, some next)) :
    WalkAt used st₀ root virtAddr level' st₂ next := by
  obtain ⟨hT, htr, hfirst⟩ := hw
  have hT₂ := hT.ensureNextPageTableFromLevel hfresh h
  obtain ⟨index, hindex, hcase⟩ := hfresh.ensureNextPageTableFromLevel_cases h
  rcases hcase with ⟨hunused, hpresent, hst, hr⟩ | ⟨-, -, -, hr⟩ |
    ⟨hunused, memManager, f, halign, hlt, hnot, -, rfl, hr⟩
  · subst st₂
    have hold : st₁ = st₀ := hfirst.resolve_right fun hnew => by
      rw [hnew index] at hunused
      cases hunused
    subst st₁
    have hhuge := hnohuge prevTable index htr hindex
    refine ⟨hT₂, ?_, .inl rfl⟩
    rw [translate_next hnext, htr, Option.bind_some, descend, hindex, Option.bind_some, hr]
    simp [PageTableEntry.pointsTo, hpresent, hhuge]
  · cases hr
  · cases hr
    obtain ⟨tableAt, hT₁, hU⟩ := hT
    have hpath : ∀ level t, translate st₁ root virtAddr level = some t →
        t ∈ used st₁.memManager :=
      fun level t h => hU level (hT₁.translate_mem level t h)
    have hprev : prevTable ≠ next := fun h => hnot (h ▸ hpath level prevTable htr)
    have hkeep : ∀ t i t', t ∈ used st₁.memManager → (st₁.entry t i).pointsTo = some t' →
        (({ st₁ with memManager }.writeEntry prevTable index (tableEntry next)).clearTable
          next).entry t i = st₁.entry t i := by
      intro t i t' ht hpt
      have htf : t ≠ next := fun h => hnot (h ▸ ht)
      have hpi : ¬ (t = prevTable ∧ i = index) := by
        rintro ⟨rfl, rfl⟩
        rw [PageTableEntry.eq_new_of_isUnused hunused, PageTableEntry.pointsTo_new] at hpt
        cases hpt
      simp [htf, hpi]
    refine ⟨hT₂, ?_, .inr fun i => by simp⟩
    rw [translate_next hnext, translate_of_keep hpath hkeep level prevTable htr, Option.bind_some,
      descend, hindex, Option.bind_some]
    simp [hprev, tableEntry_pointsTo halign hlt]

/-- With no huge page on the address's path above the level a `Page4KiB` or `Page2MiB` is
mapped at, the entry the walk returns is the one the translation of the address reaches in
the state the walk leaves. -/
theorem ensurePageTableEntry_translate (hfresh : FreshAlloc alloc used) {S : TPageSize}
    {self : PageDir} {virtAddr : VirtAddr} {st' : PagingState σ} {table : Nat}
    {index : PageTableIndex} (hS : S = page4KiB ∨ S = page2MiB)
    (hT : TreeIn used st self.rootPhysFrame)
    (hnohuge : ∀ level t i, level.depth < S.pageTableLevel.depth →
      translate st self.rootPhysFrame virtAddr level = some t →
      virtAddr.pageTableIndex level = some i → (st.entry t i).isHugePage = false)
    (h : ensurePageTableEntry alloc S self virtAddr st = some (st', some (table, index))) :
    translate st' self.rootPhysFrame virtAddr S.pageTableLevel = some table ∧
      virtAddr.pageTableIndex S.pageTableLevel = some index := by
  have hstep : ∀ level level' : PageTableLevel, level.next = some level' →
      level.depth < S.pageTableLevel.depth → ∀ {st₁ prevTable st₂ next},
      WalkAt used st self.rootPhysFrame virtAddr level st₁ prevTable →
      Kernel.ensureNextPageTableFromLevel alloc virtAddr prevTable level st₁ =
        some (st₂, some next) →
      WalkAt used st self.rootPhysFrame virtAddr level' st₂ next :=
    fun _ _ hnext hlt => WalkAt.ensureNextPageTableFromLevel hfresh hnext
      fun t i => hnohuge _ t i hlt
  unfold ensurePageTableEntry at h
  split at h
  · obtain ⟨st₁, l3PageTable, h₁, h⟩ := walkBind_eq_some_some h
    obtain ⟨st₂, l2PageTable, h₂, h⟩ := walkBind_eq_some_some h
    obtain ⟨st₃, mapPageTable, h₃, h⟩ := walkBind_eq_some_some h
    obtain ⟨i, hi, heq⟩ := Option.map_eq_some_iff.mp h
    cases heq
    have hdepth : 1 < S.pageTableLevel.depth := by rcases hS with rfl | rfl <;> decide
    have hw₁ := hstep .root .oneGiB rfl (Nat.zero_lt_of_lt hdepth) ⟨hT, rfl, .inl rfl⟩ h₁
    have hw₂ := hstep .oneGiB .twoMiB rfl hdepth hw₁ h₂
    rcases hS with rfl | rfl
    · rw [if_pos (by decide)] at h₃
      exact ⟨(hstep .twoMiB .fourKiB rfl (by decide) hw₂ h₃).2.1, hi⟩
    · rw [if_neg (by decide)] at h₃
      simp only [Option.some.injEq, Prod.mk.injEq] at h₃
      obtain ⟨rfl, rfl⟩ := h₃
      exact ⟨hw₂.2.1, hi⟩
  · cases h

end TreeKept

/-! ### The kernel's allocator

`allocate_kernel_phys_frame` on a bitmap in its invariant hands out fresh frames, when the
tables already in place lie outside every boot memory area. -/

section KernelAllocator

variable {bootMemAreas : List PhysRange} {kernTextPhysRange : PhysRange}

/-- The frames a walk must not reuse: those of the tables already in place, and those
`allocate_kernel_phys_frame` has handed out. -/
def KernelFrames.used (reserved : Set Nat) (s : KernelFrames bootMemAreas kernTextPhysRange) :
    Set Nat :=
  reserved ∪ {f | f ∈ s.handedOut}

/-- A good frame starts inside its boot memory area. -/
theorem GoodFrame.mem_cells {f : Nat} (h : GoodFrame bootMemAreas kernTextPhysRange f) :
    ∃ r ∈ bootMemAreas, f ∈ r.cells := by
  obtain ⟨r, hr, hsub⟩ := h.2.1
  refine ⟨r, hr, hsub (Set.left_mem_Ico.mpr ?_)⟩
  rw [page4KiBSize_eq]
  omega

/-- With the boot memory below `2 ^ 52` and the tables in place outside it, the kernel's
allocator hands out fresh frames. -/
theorem KernelFrames.freshAlloc {reserved : Set Nat}
    (hbound : ∀ r ∈ bootMemAreas, r.stop ≤ 2 ^ 52)
    (hreserved : ∀ f ∈ reserved, ∀ r ∈ bootMemAreas, f ∉ r.cells) :
    FreshAlloc (@KernelFrames.allocate bootMemAreas kernTextPhysRange)
      (KernelFrames.used reserved) where
  fresh s s' f h := by
    obtain ⟨-, hout⟩ := KernelFrames.allocate_eq_some h
    have hi := s'.inv
    rw [hout] at hi
    have hgood := hi.handedOut_good f (by simp)
    obtain ⟨r, hr, hf⟩ := hgood.mem_cells
    have hnew : f ∉ s.handedOut := (List.nodup_cons.mp (by simpa using hi.nodup)).1
    refine ⟨hgood.1, lt_of_lt_of_le hf.2 (hbound r hr), ?_, ?_⟩
    · rintro (hres | hmem)
      · exact hreserved f hres r hr hf
      · exact hnew hmem
    · ext g
      simp [KernelFrames.used, hout, or_left_comm]
  keep s s' h := by
    obtain ⟨-, hout⟩ := KernelFrames.allocate_eq_some h
    simp [KernelFrames.used, hout]

end KernelAllocator

section HugeLeaf

/-- A directory with root table `0x1000` that maps `0xffff_8000_0000_0000` with a `2 MiB`
page at frame `0`, as `map_physical_memory` leaves it: root index `256` points to the table
at `0x2000`, whose index `0` points to the table at `0x3000`, whose index `0` is the huge
page, present, writeable and global.  The allocator has no frame left. -/
def hugeLeafState : PagingState MemManager where
  tables f :=
    if f = 0x1000 then PageTable.new.set (.fromU16 256#16) ⟨0x2003#64⟩
    else if f = 0x2000 then PageTable.new.set (.fromU16 0#16) ⟨0x3003#64⟩
    else if f = 0x3000 then PageTable.new.set (.fromU16 0#16) ⟨0x183#64⟩
    else .new
  memManager := ⟨[], ⟨0, 0⟩⟩

/-- The tables of `hugeLeafState` by level. -/
def hugeLeafTables : PageTableLevel → Set Nat
  | .root => {0x1000}
  | .oneGiB => {0x2000}
  | .twoMiB => {0x3000}
  | .fourKiB => ∅

theorem hugeLeafState_entry (t : Nat) (i : PageTableIndex) :
    hugeLeafState.entry t i =
      if t = 0x1000 ∧ i = .fromU16 256#16 then ⟨0x2003#64⟩
      else if t = 0x2000 ∧ i = .fromU16 0#16 then ⟨0x3003#64⟩
      else if t = 0x3000 ∧ i = .fromU16 0#16 then ⟨0x183#64⟩
      else .new := by
  by_cases h1 : t = 0x1000
  · subst h1
    by_cases hi : i = .fromU16 256#16 <;> simp [hugeLeafState, PagingState.entry, hi]
  by_cases h2 : t = 0x2000
  · subst h2
    by_cases hi : i = .fromU16 0#16 <;> simp [hugeLeafState, PagingState.entry, hi]
  by_cases h3 : t = 0x3000
  · subst h3
    by_cases hi : i = .fromU16 0#16 <;> simp [hugeLeafState, PagingState.entry, hi]
  simp [hugeLeafState, PagingState.entry, h1, h2, h3]

/-- The only entries of `hugeLeafState` that point to a table. -/
theorem hugeLeafState_pointsTo {t : Nat} {i : PageTableIndex} {f : Nat} :
    (hugeLeafState.entry t i).pointsTo = some f ↔
      (t = 0x1000 ∧ i = .fromU16 256#16 ∧ f = 0x2000) ∨
        (t = 0x2000 ∧ i = .fromU16 0#16 ∧ f = 0x3000) := by
  rw [hugeLeafState_entry]
  split_ifs with h₁ h₂ h₃
  · simp [h₁, show (⟨0x2003#64⟩ : PageTableEntry).pointsTo = some 0x2000 by decide, eq_comm]
  · have : ¬ (t = 0x1000 ∧ i = .fromU16 256#16) := h₁
    simp [h₂, show (⟨0x3003#64⟩ : PageTableEntry).pointsTo = some 0x3000 by decide, eq_comm]
  · simp [show (⟨0x183#64⟩ : PageTableEntry).pointsTo = none by decide, h₃.1]
  · simp only [PageTableEntry.pointsTo_new, reduceCtorEq, false_iff, not_or, not_and]
    exact ⟨fun ht hi _ => h₁ ⟨ht, hi⟩, fun ht hi _ => h₂ ⟨ht, hi⟩⟩

theorem hugeLeafState_treeOn : TreeOn hugeLeafState 0x1000 hugeLeafTables where
  root_mem := rfl
  unused_or_present level t i _ ht := by
    rw [hugeLeafState_entry]
    split_ifs <;> decide
  root_not_huge t i ht _ := by
    rw [show t = 0x1000 from ht, hugeLeafState_entry]
    by_cases hi : i = .fromU16 256#16
    · simp only [hi, and_self, if_true]
      decide
    · simp [hi]
      rfl
  child_mem level level' t i f hnext ht hf := by
    rcases hugeLeafState_pointsTo.mp hf with ⟨rfl, -, rfl⟩ | ⟨rfl, -, rfl⟩ <;>
      cases level <;> simp only [PageTableLevel.next, Option.some.injEq, reduceCtorEq] at hnext <;>
      subst hnext <;> simp_all [hugeLeafTables]
  child_injective l₁ l₂ t₁ t₂ i₁ i₂ f _ _ _ _ h₁ h₂ := by
    rcases hugeLeafState_pointsTo.mp h₁ with ⟨rfl, rfl, rfl⟩ | ⟨rfl, rfl, rfl⟩ <;>
      rcases hugeLeafState_pointsTo.mp h₂ with ⟨rfl, rfl, h⟩ | ⟨rfl, rfl, h⟩ <;>
      simp_all
  child_ne_root level t i _ _ hroot := by
    rcases hugeLeafState_pointsTo.mp hroot with ⟨-, -, h⟩ | ⟨-, -, h⟩ <;> simp at h

theorem pageDir_walk_follows_huge_page :
    Tree hugeLeafState 0x1000 ∧
      (VirtAddr.fromUsize 0xffff_8000_0000_0000#64).isAligned page4KiB.size = true ∧
      (VirtAddr.fromUsize 0xffff_8000_0000_0000#64).pageTableIndex .root =
        some (.fromU16 256#16) ∧
      (VirtAddr.fromUsize 0xffff_8000_0000_0000#64).pageTableIndex .oneGiB =
        some (.fromU16 0#16) ∧
      (VirtAddr.fromUsize 0xffff_8000_0000_0000#64).pageTableIndex .twoMiB =
        some (.fromU16 0#16) ∧
      (hugeLeafState.entry 0x1000 (.fromU16 256#16)).pointsTo = some 0x2000 ∧
      (hugeLeafState.entry 0x2000 (.fromU16 0#16)).pointsTo = some 0x3000 ∧
      (hugeLeafState.entry 0x3000 (.fromU16 0#16)).isPresent = true ∧
      (hugeLeafState.entry 0x3000 (.fromU16 0#16)).isHugePage = true ∧
      ensurePageTableEntry MemManager.allocateKernelPhysFrame page4KiB ⟨0x1000⟩
        (VirtAddr.fromUsize 0xffff_8000_0000_0000#64) hugeLeafState =
        some (hugeLeafState, some (0, .fromU16 0#16)) :=
  ⟨⟨hugeLeafTables, hugeLeafState_treeOn⟩, by decide, by decide, by decide, by decide, by decide,
    by decide, by decide, by decide, rfl⟩

end HugeLeaf

end Kernel
end MeetixOs
