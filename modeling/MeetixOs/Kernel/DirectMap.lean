import Mathlib
import MeetixOs.Lib.Transition
import MeetixOs.Kernel.PageTableEntry

/-!
# `map_physical_memory`: all physical memory in `2 MiB` pages

`MemManager::map_physical_memory` (`vm/mem_manager.rs`) walks `0..last_phys_mem_addr` in
steps of `Page2MiB::SIZE`.  For each `phys_addr` it asks
`ensure_page_table_entry::<Page2MiB>` for the entry that maps
`phys_addr_to_virt_addr(phys_addr)`, which may allocate the `1 GiB` and `2 MiB` tables on the
way, and writes the frame and the flags `huge_page`, `present`, `readable`, `writeable` and
`global` into it.  `MeetixOs.Kernel.PageDir` models one walk; this module follows the whole loop.

A later walk must not disturb an earlier mapping.  It changes only unused entries
(`ensurePageTableEntry_frame`), and the entries an earlier mapping goes through are present.
Its write goes into a `2 MiB` table, at the index of its own address: `LevelTree` keeps each
table at one level, so the write misses the root and `1 GiB` tables, and two addresses whose
`2 MiB` entries coincide agree on all three indexes (`TreeOn.pageTableIndex_eq_of_translate`),
which for two pages below `2 ^ 48` makes them the same page
(`physAddr_eq_of_pageTableIndex_eq`).

**Results.**
* `LevelTree.mapPhysicalMemoryStep`: one turn keeps the levels, maps its page, and keeps the
  mapping of every other page below `2 ^ 48`.
* `mapPhysicalMemory_maps`: when `map_physical_memory` returns, every `2 MiB` page below
  `last_phys_mem_addr` is mapped at its address in the physical memory mapping, by an entry
  that is present, a huge page, writeable and global, and the tables are still a tree.
* `initInstancePaging_maps`: `unmap_kernel_lower_half` after it removes the loader's mapping of
  the lower half and keeps every page of the mapping, when the mapping is in the higher half.
* `mapPhysicalMemory_allocateKernelPhysFrame_maps`, `initInstancePaging_allocateKernelPhysFrame_maps`:
  the same with the kernel's allocator, `allocate_kernel_phys_frame` on the bitmap
  `init_instance` built, when the tables in place lie outside the boot memory areas.
-/

namespace MeetixOs
namespace Kernel

open Bits

/-- `phys_addr_to_virt_addr` with its `into()`: the address of `physAddr` in the physical
memory mapping. -/
def LayoutManager.physToVirt (self : LayoutManager) (physAddr : Nat) : VirtAddr :=
  VirtAddr.fromUsize (BitVec.ofNat 64 (self.physAddrToVirtAddr physAddr))

namespace PageTableEntry

/-- The entry `map_physical_memory` leaves for `physAddr`: present, a huge page, writeable
and global, with `physAddr` as its frame. -/
structure HugePage (e : PageTableEntry) (physAddr : Nat) : Prop where
  present : e.isPresent = true
  huge : e.isHugePage = true
  writeable : e.isWriteable = true
  global : e.isGlobal = true
  frame : e.rawPhysFrame.toNat = physAddr

theorem isUnused_eq_false_of_isPresent {e : PageTableEntry} (h : e.isPresent = true) :
    e.isUnused = false := by
  cases hu : e.isUnused
  · rfl
  · rw [eq_new_of_isUnused hu] at h
    exact absurd h (by decide)

theorem isPresent_of_pointsTo {e : PageTableEntry} {f : Nat} (h : e.pointsTo = some f) :
    e.isPresent = true := by
  unfold pointsTo at h
  split at h
  · exact (Bool.and_eq_true_iff.mp ‹_›).1
  · cases h

theorem pointsTo_eq_none_of_isHugePage {e : PageTableEntry} (h : e.isHugePage = true) :
    e.pointsTo = none := by
  simp [pointsTo, h]

end PageTableEntry

/-- The setters of one turn of `map_physical_memory`, whatever the entry held before: the frame
reads back, and each flag setter sets its flag and keeps the frame and the flags set before. -/
theorem hugePageSetters_spec (e₀ : PageTableEntry) {physAddr : Nat}
    (halign : physAddr % page4KiBSize = 0) (hlt : physAddr < 2 ^ 52) :
    ∃ e₁ e₂ e₃ e₄, (e₀.setPhysFrame (BitVec.ofNat 64 physAddr)).setHugePage true = some e₁ ∧
      e₁.setPresent true = some e₂ ∧ (e₂.setReadable true).setWriteable true = some e₃ ∧
      e₃.setGlobal true = some e₄ ∧ e₄.HugePage physAddr := by
  have hp : (BitVec.ofNat 64 physAddr).toNat = physAddr :=
    Nat.mod_eq_of_lt (Nat.lt_trans hlt (by decide))
  have halign' : (BitVec.ofNat 64 physAddr).toNat % page4KiBSize = 0 := by rw [hp]; exact halign
  have hlt' : (BitVec.ofNat 64 physAddr).toNat < 2 ^ 52 := by rw [hp]; exact hlt
  obtain ⟨hframe, -, -⟩ := e₀.setPhysFrame_spec halign' hlt'
  obtain ⟨e₁, h₁, hg₁, hf₁, -⟩ := PageTableFlag.set_spec .hugePage
    (e₀.setPhysFrame (BitVec.ofNat 64 physAddr)) true
  obtain ⟨e₂, h₂, hg₂, hf₂, ho₂⟩ := PageTableFlag.set_spec .present e₁ true
  obtain ⟨e₃, h₃, hg₃, hf₃, ho₃⟩ := PageTableFlag.set_spec .writeable e₂ true
  obtain ⟨e₄, h₄, hg₄, hf₄, ho₄⟩ := PageTableFlag.set_spec .global e₃ true
  refine ⟨e₁, e₂, e₃, e₄, h₁, h₂, h₃, h₄, ⟨?_, ?_, ?_, hg₄, ?_⟩⟩
  · rw [← hg₂, ← ho₃ .present (by decide)]
    exact ho₄ .present (by decide)
  · rw [← hg₁, ← ho₂ .hugePage (by decide), ← ho₃ .hugePage (by decide)]
    exact ho₄ .hugePage (by decide)
  · rw [← hg₃]
    exact ho₄ .writeable (by decide)
  · rw [hf₄, hf₃, hf₂, hf₁, hframe, hp]

section Turn

variable {σ : Type} (alloc : σ → Option (σ × Option Nat))

/-- What one turn of `map_physical_memory` does when it returns: the walk finds an entry for
the page's address, and the entry is overwritten with the page. -/
theorem mapPhysicalMemoryStep_cases {layoutManager : LayoutManager} {kernelPageDir : PageDir}
    {st st' : PagingState σ} {physAddr : Nat} (halign : physAddr % page4KiBSize = 0)
    (hlt : physAddr < 2 ^ 52)
    (h : mapPhysicalMemoryStep alloc layoutManager kernelPageDir st physAddr = some st') :
    ∃ st₁ table index e,
      ensurePageTableEntry alloc page2MiB kernelPageDir (layoutManager.physToVirt physAddr) st =
        some (st₁, some (table, index)) ∧ e.HugePage physAddr ∧
      st' = st₁.writeEntry table index e := by
  simp only [mapPhysicalMemoryStep, Option.bind_eq_bind, Option.bind_eq_some_iff] at h
  obtain ⟨⟨st₁, r⟩, hwalk, ⟨table, index⟩, rfl, e₁, h₁, e₂, h₂, e₃, h₃, e₄, h₄, hst⟩ := h
  obtain ⟨e₁', e₂', e₃', e₄', h₁', h₂', h₃', h₄', hhuge⟩ :=
    hugePageSetters_spec (st₁.entry table index) halign hlt
  obtain rfl : e₁' = e₁ := Option.some.inj (h₁'.symm.trans h₁)
  obtain rfl : e₂' = e₂ := Option.some.inj (h₂'.symm.trans h₂)
  obtain rfl : e₃' = e₃ := Option.some.inj (h₃'.symm.trans h₃)
  obtain rfl : e₄' = e₄ := Option.some.inj (h₄'.symm.trans h₄)
  exact ⟨st₁, table, index, _, hwalk, hhuge, (Option.some.inj hst).symm⟩

end Turn

section Walk

variable {σ : Type}

/-- A walk that returns went through every step with a value, or stopped at one without. -/
theorem walkBind_eq_some {α β : Type} {r : Option (PagingState σ × Option α)}
    {f : PagingState σ → α → Option (PagingState σ × Option β)} {st' : PagingState σ}
    {b : Option β} (h : walkBind r f = some (st', b)) :
    (r = some (st', none) ∧ b = none) ∨ ∃ st a, r = some (st, some a) ∧ f st a = some (st', b) := by
  obtain ⟨⟨st₁, a?⟩, hr₁, h₁⟩ := Option.bind_eq_some_iff.mp h
  cases a? with
  | none =>
    obtain ⟨rfl, rfl⟩ := Prod.mk.inj (Option.some.inj h₁)
    exact .inl ⟨hr₁, rfl⟩
  | some a => exact .inr ⟨st₁, a, hr₁, h₁⟩

theorem walkBind_some_some {α β : Type} {st : PagingState σ} {a : α}
    {f : PagingState σ → α → Option (PagingState σ × Option β)} :
    walkBind (some (st, some a)) f = f st a := rfl

end Walk

section LevelTree

variable {σ : Type} (alloc : σ → Option (σ × Option Nat)) (used : σ → Set Nat)

/-- A tree of tables whose levels are apart, all in frames handed out, with no huge page in
the root table or a `1 GiB` table: what `map_physical_memory` needs of the kernel's directory,
and keeps. -/
structure LevelTree (st : PagingState σ) (root : Nat) (tableAt : PageTableLevel → Set Nat) :
    Prop where
  tree : TreeOn st root tableAt
  handedOut : ∀ level, tableAt level ⊆ used st.memManager
  apart : ∀ l₁ l₂ t, t ∈ tableAt l₁ → t ∈ tableAt l₂ → l₁ = l₂
  noHuge : ∀ level t i, level.depth < 2 → t ∈ tableAt level → (st.entry t i).isHugePage = false

variable {alloc used} {st : PagingState σ} {root : Nat} {tableAt : PageTableLevel → Set Nat}

theorem LevelTree.treeIn (hL : LevelTree used st root tableAt) : TreeIn used st root :=
  ⟨tableAt, hL.tree, hL.handedOut⟩

/-- A table of the root or a `1 GiB` level is not a `2 MiB` table. -/
theorem LevelTree.ne_of_depth_lt (hL : LevelTree used st root tableAt) {level : PageTableLevel}
    {t t' : Nat} (hd : level.depth < 2) (ht : t ∈ tableAt level) (ht' : t' ∈ tableAt .twoMiB) :
    t ≠ t' := by
  rintro rfl
  cases hL.apart _ _ t ht ht'
  exact absurd hd (by decide)

/-- Fewer tables per level are still a tree, when the root stays and the entries of the
tables kept point into them. -/
theorem TreeOn.mono (hT : TreeOn st root tableAt) {tableAt' : PageTableLevel → Set Nat}
    (hsub : ∀ level, tableAt' level ⊆ tableAt level) (hroot : root ∈ tableAt' .root)
    (hchild : ∀ level level' t i f, level.next = some level' → t ∈ tableAt' level →
      (st.entry t i).pointsTo = some f → f ∈ tableAt' level') :
    TreeOn st root tableAt' where
  root_mem := hroot
  unused_or_present level t i hlevel ht := hT.unused_or_present level t i hlevel (hsub level ht)
  root_not_huge t i ht := hT.root_not_huge t i (hsub .root ht)
  child_mem := hchild
  child_injective l₁ l₂ t₁ t₂ i₁ i₂ f hl₁ hl₂ ht₁ ht₂ :=
    hT.child_injective l₁ l₂ t₁ t₂ i₁ i₂ f hl₁ hl₂ (hsub l₁ ht₁) (hsub l₂ ht₂)
  child_ne_root level t i hlevel ht := hT.child_ne_root level t i hlevel (hsub level ht)

/-- The levels depend on the tables alone, and on which frames count as handed out. -/
theorem LevelTree.of_tables {σ' : Type} {used' : σ' → Set Nat} {st' : PagingState σ'}
    (hL : LevelTree used st root tableAt) (h : st'.tables = st.tables)
    (hused : used st.memManager ⊆ used' st'.memManager) : LevelTree used' st' root tableAt := by
  obtain ⟨tables, memManager⟩ := st'
  subst h
  exact ⟨hL.tree.of_tables rfl, fun level => (hL.handedOut level).trans hused, hL.apart, hL.noHuge⟩

/-- Pointing an unused entry of a table of `level` at a fresh frame and clearing that frame
keeps the levels apart, with the frame a table of the next level only. -/
theorem LevelTree.create (hL : LevelTree used st root tableAt) {level level' : PageTableLevel}
    (hnext : level.next = some level') {prevTable f : Nat} {index : PageTableIndex}
    (hprev : prevTable ∈ tableAt level) (hf : f ∉ used st.memManager)
    (halign : f % page4KiBSize = 0) (hlt : f < 2 ^ 52) {memManager : σ}
    (hused : used memManager = insert f (used st.memManager)) :
    LevelTree used
      (({ st with memManager }.writeEntry prevTable index (tableEntry f)).clearTable f) root
      (fun l => if l = level' then insert f (tableAt l) else tableAt l) := by
  have hentry : ∀ t i,
      (({ st with memManager }.writeEntry prevTable index (tableEntry f)).clearTable f).entry t i =
        if t = f then .new else if t = prevTable ∧ i = index then tableEntry f
        else st.entry t i := by
    intro t i
    simp
  have hne : ∀ l t, t ∈ tableAt l → t ≠ f := fun l t ht h => hf (h ▸ hL.handedOut l ht)
  have hmem : ∀ {l t}, t ∈ (if l = level' then insert f (tableAt l) else tableAt l) → t ≠ f →
      t ∈ tableAt l := by
    intro l t ht htf
    split_ifs at ht
    · exact (Set.mem_insert_iff.mp ht).resolve_left htf
    · exact ht
  have hsup : ∀ l, tableAt l ⊆ if l = level' then insert f (tableAt l) else tableAt l := by
    intro l
    split_ifs
    · exact Set.subset_insert _ _
    · exact subset_rfl
  refine ⟨(hL.tree.create hL.handedOut hf halign hlt memManager).mono ?_ (hsup _ hL.tree.root_mem)
    ?_, ?_, ?_, ?_⟩
  · intro l t ht
    split_ifs at ht
    · exact ht
    · exact Set.mem_insert_of_mem _ ht
  · intro l l'' t i g hl ht hg
    rw [hentry] at hg
    split_ifs at hg with htf hpi
    · cases hg
    · obtain ⟨rfl, -⟩ := hpi
      cases hL.apart _ _ t (hmem ht htf) hprev
      rw [hnext, Option.some.injEq] at hl
      subst hl
      rw [tableEntry_pointsTo halign hlt, Option.some.injEq] at hg
      subst hg
      simp
    · exact hsup l'' (hL.tree.child_mem l l'' t i g hl (hmem ht htf) hg)
  · intro l
    simp only [PagingState.memManager_clearTable, PagingState.memManager_writeEntry]
    show _ ⊆ used memManager
    rw [hused]
    split_ifs
    · exact Set.insert_subset_insert (hL.handedOut l)
    · exact (hL.handedOut l).trans (Set.subset_insert _ _)
  · intro l₁ l₂ t h₁ h₂
    by_cases htf : t = f
    · subst htf
      have hat : ∀ l, t ∈ (if l = level' then insert t (tableAt l) else tableAt l) → l = level' := by
        intro l hl
        by_contra hne'
        rw [if_neg hne'] at hl
        exact hne l t hl rfl
      rw [hat l₁ h₁, hat l₂ h₂]
    · exact hL.apart l₁ l₂ t (hmem h₁ htf) (hmem h₂ htf)
  · intro l t i hd ht
    rw [hentry]
    split_ifs with htf hpi
    · rfl
    · exact tableEntry_isHugePage halign
    · exact hL.noHuge l t i hd (hmem ht htf)

/-- One step of the walk from a table of `level`, above the `2 MiB` level, keeps the levels,
and the table it returns is one of the next level. -/
theorem LevelTree.ensureNextPageTableFromLevel (hfresh : FreshAlloc alloc used)
    (hL : LevelTree used st root tableAt) {virtAddr : VirtAddr} {prevTable : Nat}
    {level level' : PageTableLevel} (hnext : level.next = some level') (hdepth : level.depth < 2)
    (hprev : prevTable ∈ tableAt level) {st' : PagingState σ} {r : Option Nat}
    (h : Kernel.ensureNextPageTableFromLevel alloc virtAddr prevTable level st = some (st', r)) :
    ∃ tableAt', LevelTree used st' root tableAt' ∧ ∀ next, r = some next → next ∈ tableAt' level' := by
  obtain ⟨index, -, hcase⟩ := hfresh.ensureNextPageTableFromLevel_cases h
  rcases hcase with ⟨-, hpresent, hst, rfl⟩ | ⟨memManager, hkeep, rfl, rfl⟩ |
    ⟨-, memManager, f, halign, hlt, hnot, hused, rfl, rfl⟩
  · subst st'
    have hpt : (st.entry prevTable index).pointsTo =
        some (st.entry prevTable index).rawPhysFrame.toNat := by
      simp [PageTableEntry.pointsTo, hpresent, hL.noHuge level prevTable index hdepth hprev]
    refine ⟨tableAt, hL, fun next hn => ?_⟩
    cases hn
    exact hL.tree.child_mem level level' prevTable index _ hnext hprev hpt
  · exact ⟨tableAt, hL.of_tables rfl (subset_of_eq hkeep.symm), fun _ hn => by cases hn⟩
  · refine ⟨_, hL.create hnext hprev hnot halign hlt hused, fun next hn => ?_⟩
    cases hn
    simp

/-- `ensure_page_table_entry::<Page2MiB>` keeps the levels, and the table it returns is a
`2 MiB` table. -/
theorem LevelTree.ensurePageTableEntry (hfresh : FreshAlloc alloc used)
    (hL : LevelTree used st root tableAt) {virtAddr : VirtAddr} {st' : PagingState σ}
    {r : Option (Nat × PageTableIndex)}
    (h : Kernel.ensurePageTableEntry alloc page2MiB ⟨root⟩ virtAddr st = some (st', r)) :
    ∃ tableAt', LevelTree used st' root tableAt' ∧
      ∀ table index, r = some (table, index) → table ∈ tableAt' .twoMiB := by
  unfold Kernel.ensurePageTableEntry at h
  split at h
  · rcases walkBind_eq_some h with ⟨h₁, rfl⟩ | ⟨st₁, l3PageTable, h₁, h⟩
    · obtain ⟨A₁, hL₁, -⟩ := hL.ensureNextPageTableFromLevel hfresh rfl (by decide)
        hL.tree.root_mem h₁
      exact ⟨A₁, hL₁, fun _ _ hr => by cases hr⟩
    obtain ⟨A₁, hL₁, hl3⟩ := hL.ensureNextPageTableFromLevel hfresh rfl (by decide)
      hL.tree.root_mem h₁
    rcases walkBind_eq_some h with ⟨h₂, rfl⟩ | ⟨st₂, l2PageTable, h₂, h⟩
    · obtain ⟨A₂, hL₂, -⟩ := hL₁.ensureNextPageTableFromLevel hfresh rfl (by decide)
        (hl3 _ rfl) h₂
      exact ⟨A₂, hL₂, fun _ _ hr => by cases hr⟩
    obtain ⟨A₂, hL₂, hl2⟩ := hL₁.ensureNextPageTableFromLevel hfresh rfl (by decide)
      (hl3 _ rfl) h₂
    rw [if_neg (by decide), walkBind_some_some] at h
    obtain ⟨index, -, heq⟩ := Option.map_eq_some_iff.mp h
    cases heq
    exact ⟨A₂, hL₂, fun _ _ hr => by cases hr; exact hl2 _ rfl⟩
  · cases h
    exact ⟨tableAt, hL, fun _ _ hr => by cases hr⟩

/-- Writing an entry that points to no table keeps the levels, when the entry is unused or
present and is no huge page in a root or `1 GiB` table. -/
theorem LevelTree.writeEntry_leaf (hL : LevelTree used st root tableAt) {t : Nat}
    {i : PageTableIndex} {e : PageTableEntry} (hpt : e.pointsTo = none)
    (hup : e.isUnused = true ∨ e.isPresent = true)
    (hhuge : ∀ level, level.depth < 2 → t ∈ tableAt level → e.isHugePage = false) :
    LevelTree used (st.writeEntry t i e) root tableAt := by
  have hold : ∀ t' j f, ((st.writeEntry t i e).entry t' j).pointsTo = some f →
      (st.entry t' j).pointsTo = some f := by
    intro t' j f h
    rw [PagingState.entry_writeEntry] at h
    split_ifs at h
    · rw [hpt] at h
      cases h
    · exact h
  refine ⟨⟨hL.tree.root_mem, ?_, ?_, ?_, ?_, ?_⟩, hL.handedOut, hL.apart, ?_⟩
  · intro level t' j hlevel ht'
    rw [PagingState.entry_writeEntry]
    split_ifs
    · exact hup
    · exact hL.tree.unused_or_present level t' j hlevel ht'
  · intro t' j ht'
    rw [PagingState.entry_writeEntry]
    split_ifs with h
    · exact fun _ => hhuge .root (by decide) (h.1 ▸ ht')
    · exact hL.tree.root_not_huge t' j ht'
  · intro level level' t' j f hnext ht' hf
    exact hL.tree.child_mem level level' t' j f hnext ht' (hold t' j f hf)
  · intro l₁ l₂ t₁ t₂ i₁ i₂ f hl₁ hl₂ ht₁ ht₂ hf₁ hf₂
    exact hL.tree.child_injective l₁ l₂ t₁ t₂ i₁ i₂ f hl₁ hl₂ ht₁ ht₂ (hold _ _ _ hf₁)
      (hold _ _ _ hf₂)
  · intro level t' j hlevel ht' hroot
    exact hL.tree.child_ne_root level t' j hlevel ht' (hold _ _ _ hroot)
  · intro level t' j hd ht'
    rw [PagingState.entry_writeEntry]
    split_ifs with h
    · exact hhuge level hd (h.1 ▸ ht')
    · exact hL.noHuge level t' j hd ht'

/-- Writing a present huge page into a `2 MiB` table keeps the levels: the entry points to no
table, and the table is not a root or `1 GiB` table. -/
theorem LevelTree.writeEntry_huge (hL : LevelTree used st root tableAt) {t : Nat}
    (ht : t ∈ tableAt .twoMiB) (i : PageTableIndex) {e : PageTableEntry}
    (hpresent : e.isPresent = true) (hhuge : e.isHugePage = true) :
    LevelTree used (st.writeEntry t i e) root tableAt :=
  hL.writeEntry_leaf (PageTableEntry.pointsTo_eq_none_of_isHugePage hhuge) (.inr hpresent)
    fun _ hd ht' => absurd rfl (hL.ne_of_depth_lt hd ht' ht)

/-- Writing an unused entry anywhere keeps the levels. -/
theorem LevelTree.writeEntry_new (hL : LevelTree used st root tableAt) (t : Nat)
    (i : PageTableIndex) : LevelTree used (st.writeEntry t i .new) root tableAt :=
  hL.writeEntry_leaf rfl (.inl rfl) fun _ _ _ => by decide

end LevelTree

section Mapping

variable {σ : Type} {alloc : σ → Option (σ × Option Nat)} {used : σ → Set Nat}
  {st : PagingState σ} {root : Nat} {tableAt : PageTableLevel → Set Nat}

/-- `virtAddr` is mapped by a `2 MiB` page of `physAddr`: the translation reaches a `2 MiB`
table whose entry for the address is such a page. -/
def MapsHuge (st : PagingState σ) (root : Nat) (virtAddr : VirtAddr) (physAddr : Nat) : Prop :=
  ∃ t i, translate st root virtAddr .twoMiB = some t ∧ virtAddr.pageTableIndex .twoMiB = some i ∧
    (st.entry t i).HugePage physAddr

/-- The translation down to a `2 MiB` table reads only the entries of the root and `1 GiB`
tables on the address's path. -/
theorem translate_twoMiB_congr {st₂ : PagingState σ} {virtAddr : VirtAddr}
    (hkeep : ∀ level t i, level.depth < 2 → translate st root virtAddr level = some t →
      virtAddr.pageTableIndex level = some i → st₂.entry t i = st.entry t i) :
    translate st₂ root virtAddr .twoMiB = translate st root virtAddr .twoMiB := by
  obtain ⟨r, hr, -⟩ := pageTableIndex_spec virtAddr .root
  obtain ⟨o, ho, -⟩ := pageTableIndex_spec virtAddr .oneGiB
  have hroot : descend st₂ virtAddr .root root = descend st virtAddr .root root := by
    simp only [descend, hr, Option.bind_some, hkeep .root root r (by decide) rfl hr]
  have hnext : PageTableLevel.oneGiB.next = some .twoMiB := rfl
  rw [translate_next hnext, translate_next hnext]
  change (descend st₂ virtAddr .root root).bind (descend st₂ virtAddr .oneGiB) =
    (descend st virtAddr .root root).bind (descend st virtAddr .oneGiB)
  rw [hroot]
  cases h₁ : descend st virtAddr .root root with
  | none => rfl
  | some t₁ =>
    simp only [Option.bind_some, descend, ho, hkeep .oneGiB t₁ o (by decide) h₁ ho]

/-- Another walk keeps a `2 MiB` mapping: it changes only unused entries, and every entry the
mapping goes through is present. -/
theorem MapsHuge.ensurePageTableEntry (hfresh : FreshAlloc alloc used) (hT : TreeIn used st root)
    {virtAddr : VirtAddr} {physAddr : Nat} (hm : MapsHuge st root virtAddr physAddr)
    {S : TPageSize} {virtAddr' : VirtAddr} {st' : PagingState σ}
    {r : Option (Nat × PageTableIndex)}
    (h : Kernel.ensurePageTableEntry alloc S ⟨root⟩ virtAddr' st = some (st', r)) :
    MapsHuge st' root virtAddr physAddr := by
  obtain ⟨tableAt, hT, hU⟩ := hT
  have hframe := ensurePageTableEntry_frame hfresh h
  have hkeep : ∀ t i, t ∈ used st.memManager → (st.entry t i).isPresent = true →
      st'.entry t i = st.entry t i := by
    intro t i ht hp
    rcases hframe t ht i with heq | ⟨hunused, -⟩
    · exact heq
    · rw [PageTableEntry.isUnused_eq_false_of_isPresent hp] at hunused
      cases hunused
  have hpath : ∀ level t, translate st root virtAddr level = some t → t ∈ used st.memManager :=
    fun level t h => hU level (hT.translate_mem level t h)
  obtain ⟨t, i, htr, hi, hentry⟩ := hm
  have htr' := translate_of_keep hpath
    (fun t i _ ht hpt => hkeep t i ht (PageTableEntry.isPresent_of_pointsTo hpt)) .twoMiB t htr
  rw [← hkeep t i (hpath _ t htr) hentry.present] at hentry
  exact ⟨t, i, htr', hi, hentry⟩

/-- A write into a `2 MiB` table changes no translation down to a `2 MiB` table: the tables
above are apart from it. -/
theorem LevelTree.translate_writeEntry (hL : LevelTree used st root tableAt) {t' : Nat}
    (ht' : t' ∈ tableAt .twoMiB) (i' : PageTableIndex) (e : PageTableEntry) (virtAddr : VirtAddr) :
    translate (st.writeEntry t' i' e) root virtAddr .twoMiB = translate st root virtAddr .twoMiB :=
  translate_twoMiB_congr fun level t₁ _ hd ht₁ _ => by
    rw [PagingState.entry_writeEntry,
      if_neg fun h => hL.ne_of_depth_lt hd (hL.tree.translate_mem level t₁ ht₁) ht' h.1]

/-- A write off the entries a `2 MiB` mapping goes through keeps it. -/
theorem MapsHuge.writeEntry_of_off_path {virtAddr : VirtAddr} {physAddr : Nat}
    (hm : MapsHuge st root virtAddr physAddr) {t' : Nat} {i' : PageTableIndex}
    {e : PageTableEntry}
    (hoff : ∀ level t j, level.depth ≤ 2 → translate st root virtAddr level = some t →
      virtAddr.pageTableIndex level = some j → ¬ (t = t' ∧ j = i')) :
    MapsHuge (st.writeEntry t' i' e) root virtAddr physAddr := by
  obtain ⟨t, i, htr, hi, hentry⟩ := hm
  have htr' : translate (st.writeEntry t' i' e) root virtAddr .twoMiB = some t := by
    refine (translate_twoMiB_congr fun level t₁ j hd ht₁ hj => ?_).trans htr
    rw [PagingState.entry_writeEntry, if_neg (hoff level t₁ j (by omega) ht₁ hj)]
  refine ⟨t, i, htr', hi, ?_⟩
  rwa [PagingState.entry_writeEntry, if_neg (hoff .twoMiB t i (by decide) htr hi)]

/-- A write into a table of one level keeps a `2 MiB` mapping whose table or index at that
level is another: the levels are apart, so the tables of the other levels differ from it. -/
theorem MapsHuge.writeEntry_of_level (hL : LevelTree used st root tableAt)
    {virtAddr : VirtAddr} {physAddr : Nat} (hm : MapsHuge st root virtAddr physAddr)
    {level' : PageTableLevel} {t' : Nat} (ht' : t' ∈ tableAt level') {i' : PageTableIndex}
    {e : PageTableEntry}
    (hne : translate st root virtAddr level' = some t' →
      virtAddr.pageTableIndex level' ≠ some i') :
    MapsHuge (st.writeEntry t' i' e) root virtAddr physAddr :=
  hm.writeEntry_of_off_path fun level t j _ ht hj hti => by
    obtain ⟨rfl, rfl⟩ := hti
    cases hL.apart _ _ _ (hL.tree.translate_mem level t ht) ht'
    exact hne ht hj

/-- Two addresses that the tree translates to one `2 MiB` table agree on their root and
`1 GiB` indexes: distinct entries point to distinct tables. -/
theorem TreeOn.pageTableIndex_eq_of_translate (hT : TreeOn st root tableAt)
    {virtAddr virtAddr' : VirtAddr} {t : Nat} (h : translate st root virtAddr .twoMiB = some t)
    (h' : translate st root virtAddr' .twoMiB = some t) :
    virtAddr.pageTableIndex .root = virtAddr'.pageTableIndex .root ∧
      virtAddr.pageTableIndex .oneGiB = virtAddr'.pageTableIndex .oneGiB := by
  have hpath : ∀ v : VirtAddr, translate st root v .twoMiB = some t → ∃ r o t₁,
      v.pageTableIndex .root = some r ∧ v.pageTableIndex .oneGiB = some o ∧
      translate st root v .oneGiB = some t₁ ∧ (st.entry root r).pointsTo = some t₁ ∧
      (st.entry t₁ o).pointsTo = some t := by
    intro v hv
    rw [translate_next (show PageTableLevel.oneGiB.next = some .twoMiB from rfl)] at hv
    obtain ⟨t₁, h₁, h₂⟩ := Option.bind_eq_some_iff.mp hv
    obtain ⟨o, ho, hpt₂⟩ := Option.bind_eq_some_iff.mp h₂
    obtain ⟨r, hr, hpt₁⟩ := Option.bind_eq_some_iff.mp (show descend st v .root root = some t₁ from h₁)
    exact ⟨r, o, t₁, hr, ho, h₁, hpt₁, hpt₂⟩
  obtain ⟨r, o, t₁, hr, ho, h₁, hpt₁, hpt₂⟩ := hpath virtAddr h
  obtain ⟨r', o', t₁', hr', ho', h₁', hpt₁', hpt₂'⟩ := hpath virtAddr' h'
  obtain ⟨rfl, rfl⟩ := hT.child_injective .oneGiB .oneGiB t₁ t₁' o o' t (by decide) (by decide)
    (hT.translate_mem .oneGiB t₁ h₁) (hT.translate_mem .oneGiB t₁' h₁') hpt₂ hpt₂'
  obtain ⟨-, rfl⟩ := hT.child_injective .root .root root root r r' t₁ (by decide) (by decide)
    hT.root_mem hT.root_mem hpt₁ hpt₁'
  exact ⟨hr.trans hr'.symm, ho.trans ho'.symm⟩

end Mapping

section Addresses

/-- The bits a level's index reads from an address: nine from the level's shift on. -/
theorem testBit_of_pageTableIndex_eq {a b : Nat} {level : PageTableLevel}
    (h : (VirtAddr.fromUsize (BitVec.ofNat 64 a)).pageTableIndex level =
      (VirtAddr.fromUsize (BitVec.ofNat 64 b)).pageTableIndex level)
    (hend : level.indexShift + 9 ≤ 48) {k : Nat} (hk : k < 9) :
    a.testBit (level.indexShift + k) = b.testBit (level.indexShift + k) := by
  obtain ⟨l, hl, hinto⟩ := pageTableIndex_spec (VirtAddr.fromUsize (BitVec.ofNat 64 a)) level
  obtain ⟨l', hl', hinto'⟩ := pageTableIndex_spec (VirtAddr.fromUsize (BitVec.ofNat 64 b)) level
  rw [hl, hl', Option.some.injEq] at h
  subst h
  have hbit := congrArg (fun x : BitVec 64 => x.getLsbD k) (hinto.symm.trans hinto')
  simp only [getLsbD_readBits (show level.indexShift + 9 ≤ 64 by omega), VirtAddr.raw,
    VirtAddr.fromUsize, getLsbD_fromUsize, BitVec.getLsbD_ofNat] at hbit
  simpa [hk, show level.indexShift + k < 48 by omega, show level.indexShift + k < 64 by omega]
    using hbit

/-- Two `2 MiB` pages below `2 ^ 48` whose addresses in a mapping at one offset agree on their
root, `1 GiB` and `2 MiB` indexes are the same page: the indexes are bits `21..48` of the
address, and the bits below are those of the offset. -/
theorem physAddr_eq_of_pageTableIndex_eq {offset x y : Nat} (hx : x % page2MiBSize = 0)
    (hy : y % page2MiBSize = 0) (hx48 : x < 2 ^ 48) (hy48 : y < 2 ^ 48)
    (h : ∀ level, level ≠ .fourKiB →
      (VirtAddr.fromUsize (BitVec.ofNat 64 (x + offset))).pageTableIndex level =
        (VirtAddr.fromUsize (BitVec.ofNat 64 (y + offset))).pageTableIndex level) :
    x = y := by
  have hpage : page2MiBSize = 2 ^ 21 := rfl
  rw [hpage] at hx hy
  have hhigh : ∀ j, 21 ≤ j → j < 48 → (x + offset).testBit j = (y + offset).testBit j := by
    intro j hlo hhi
    rcases (show j < 30 ∨ (30 ≤ j ∧ j < 39) ∨ 39 ≤ j by omega) with h2 | h1 | h0
    · have := testBit_of_pageTableIndex_eq (h .twoMiB (by decide)) (by decide)
        (show j - 21 < 9 by omega)
      rwa [show PageTableLevel.indexShift .twoMiB + (j - 21) = j by
        simp [PageTableLevel.indexShift]; omega] at this
    · have := testBit_of_pageTableIndex_eq (h .oneGiB (by decide)) (by decide)
        (show j - 30 < 9 by omega)
      rwa [show PageTableLevel.indexShift .oneGiB + (j - 30) = j by
        simp [PageTableLevel.indexShift]; omega] at this
    · have := testBit_of_pageTableIndex_eq (h .root (by decide)) (by decide)
        (show j - 39 < 9 by omega)
      rwa [show PageTableLevel.indexShift .root + (j - 39) = j by
        simp [PageTableLevel.indexShift]; omega] at this
  have hlow : (x + offset) % 2 ^ 21 = (y + offset) % 2 ^ 21 := by omega
  have hbits : ∀ j < 48, (x + offset).testBit j = (y + offset).testBit j := by
    intro j hj
    by_cases hj21 : j < 21
    · have hx' := Nat.testBit_mod_two_pow (x + offset) 21 j
      rw [hlow, Nat.testBit_mod_two_pow] at hx'
      simpa [hj21] using hx'.symm
    · exact hhigh j (by omega) hj
  have hmod : (x + offset) % 2 ^ 48 = (y + offset) % 2 ^ 48 := by
    apply Nat.eq_of_testBit_eq
    intro j
    rw [Nat.testBit_mod_two_pow, Nat.testBit_mod_two_pow]
    by_cases hj : j < 48
    · rw [hbits j hj]
    · simp [hj]
  omega

end Addresses

section Loop

variable {σ : Type} {alloc : σ → Option (σ × Option Nat)} {used : σ → Set Nat}
  {st : PagingState σ} {root : Nat} {tableAt : PageTableLevel → Set Nat}

/-- One turn of `map_physical_memory` for a `2 MiB` page below `2 ^ 48`: the levels are kept,
the page is mapped at its address, and every other such page mapped before stays mapped. -/
theorem LevelTree.mapPhysicalMemoryStep (hfresh : FreshAlloc alloc used)
    (hL : LevelTree used st root tableAt) {layoutManager : LayoutManager} {physAddr : Nat}
    (halign : physAddr % page2MiBSize = 0) (hlt : physAddr < 2 ^ 48) {st' : PagingState σ}
    (h : Kernel.mapPhysicalMemoryStep alloc layoutManager ⟨root⟩ st physAddr = some st') :
    (∃ tableAt', LevelTree used st' root tableAt') ∧
      MapsHuge st' root (layoutManager.physToVirt physAddr) physAddr ∧
      ∀ y, y % page2MiBSize = 0 → y < 2 ^ 48 → y ≠ physAddr →
        MapsHuge st root (layoutManager.physToVirt y) y →
        MapsHuge st' root (layoutManager.physToVirt y) y := by
  have h4k : physAddr % page4KiBSize = 0 := by
    rw [page4KiBSize_eq]
    rw [show page2MiBSize = 4096 * 512 from rfl] at halign
    exact Nat.mod_eq_zero_of_dvd (Dvd.dvd.trans (Dvd.intro 512 rfl) (Nat.dvd_of_mod_eq_zero halign))
  obtain ⟨st₁, table, index, e, hwalk, hhuge, rfl⟩ :=
    mapPhysicalMemoryStep_cases alloc h4k (by omega) h
  obtain ⟨A₁, hL₁, htable⟩ := hL.ensurePageTableEntry hfresh hwalk
  have ht : table ∈ A₁ .twoMiB := htable table index rfl
  obtain ⟨htr, hi⟩ := ensurePageTableEntry_translate hfresh (Or.inr rfl) hL.treeIn
    (fun level t i hd htr _ => hL.noHuge level t i hd (hL.tree.translate_mem level t htr)) hwalk
  refine ⟨⟨A₁, hL₁.writeEntry_huge ht index hhuge.present hhuge.huge⟩,
    ⟨table, index, (hL₁.translate_writeEntry ht index e _).trans htr, hi, ?_⟩, ?_⟩
  · rw [PagingState.entry_writeEntry, if_pos ⟨rfl, rfl⟩]
    exact hhuge
  · intro y hy hy48 hne hm
    refine (hm.ensurePageTableEntry hfresh hL.treeIn hwalk).writeEntry_of_level hL₁ ht
      fun hty hiy => hne ?_
    obtain ⟨hroot, hone⟩ := hL₁.tree.pageTableIndex_eq_of_translate hty htr
    refine @physAddr_eq_of_pageTableIndex_eq layoutManager.physMemMappingRange.start y physAddr
      hy halign hy48 hlt fun level hlevel => ?_
    cases level with
    | root => exact hroot
    | oneGiB => exact hone
    | twoMiB => exact hiy.trans hi.symm
    | fourKiB => exact absurd rfl hlevel

/-- The pages `map_physical_memory` visits are on `2 MiB` boundaries, and distinct. -/
theorem mem_stepBy_page2MiB {lastPhysMemAddr physAddr : Nat}
    (h : physAddr ∈ PhysRange.stepBy ⟨0, lastPhysMemAddr⟩ page2MiBSize) :
    physAddr % page2MiBSize = 0 ∧ physAddr < lastPhysMemAddr := by
  obtain ⟨k, rfl, hk⟩ := (PhysRange.mem_stepBy (by decide)).mp h
  exact ⟨by simp, hk⟩

theorem nodup_stepBy_page2MiB (lastPhysMemAddr : Nat) :
    (PhysRange.stepBy ⟨0, lastPhysMemAddr⟩ page2MiBSize).Nodup := by
  refine (List.nodup_range).map fun a b hab => ?_
  simpa [show page2MiBSize ≠ 0 by decide] using hab

/-- The loop of `map_physical_memory` over any list of distinct `2 MiB` pages below `2 ^ 48`:
the levels are kept, and every page of the list ends mapped at its address. -/
theorem LevelTree.foldlM_mapPhysicalMemoryStep (hfresh : FreshAlloc alloc used)
    (hL : LevelTree used st root tableAt) {layoutManager : LayoutManager} {pages : List Nat}
    (hnodup : pages.Nodup) (hpages : ∀ y ∈ pages, y % page2MiBSize = 0 ∧ y < 2 ^ 48)
    {st' : PagingState σ}
    (h : pages.foldlM (Kernel.mapPhysicalMemoryStep alloc layoutManager ⟨root⟩) st = some st') :
    (∃ tableAt', LevelTree used st' root tableAt') ∧
      ∀ y ∈ pages, MapsHuge st' root (layoutManager.physToVirt y) y := by
  refine @Transition.foldlM_invariant _ _ _ _ (fun done st =>
    (∃ tableAt', LevelTree used st root tableAt') ∧
      ∀ y ∈ done, MapsHuge st root (layoutManager.physToVirt y) y) ?_ _ _ ⟨⟨tableAt, hL⟩, by simp⟩ h
  rintro done a rest s s' hxs ⟨⟨A, hA⟩, hdone⟩ hstep
  have hpage : ∀ y ∈ done ++ a :: rest, y % page2MiBSize = 0 ∧ y < 2 ^ 48 := by
    rw [hxs]
    exact hpages
  obtain ⟨ha, ha48⟩ := hpage a (by simp)
  obtain ⟨hL', hmap, hkeep⟩ := hA.mapPhysicalMemoryStep hfresh ha ha48 hstep
  refine ⟨hL', fun y hy => ?_⟩
  rcases List.mem_append.mp hy with hy | hy
  · have hnd : (done ++ a :: rest).Nodup := hxs ▸ hnodup
    have hne : y ≠ a := (List.nodup_append.mp hnd).2.2 y hy a List.mem_cons_self
    obtain ⟨hy0, hy48⟩ := hpage y (List.mem_append_left _ hy)
    exact hkeep y hy0 hy48 hne (hdone y hy)
  · rw [List.mem_singleton] at hy
    subst hy
    exact hmap

/-- The pages `map_physical_memory` visits below `2 ^ 48` are distinct `2 MiB` pages there. -/
theorem stepBy_page2MiB_pages {lastPhysMemAddr : Nat} (hlast : lastPhysMemAddr ≤ 2 ^ 48) :
    (PhysRange.stepBy ⟨0, lastPhysMemAddr⟩ page2MiBSize).Nodup ∧
      ∀ y ∈ PhysRange.stepBy ⟨0, lastPhysMemAddr⟩ page2MiBSize,
        y % page2MiBSize = 0 ∧ y < 2 ^ 48 := by
  refine ⟨nodup_stepBy_page2MiB lastPhysMemAddr, fun y hy => ?_⟩
  obtain ⟨hy0, hylt⟩ := mem_stepBy_page2MiB hy
  exact ⟨hy0, by omega⟩

/-- When `map_physical_memory` returns, every `2 MiB` page below `last_phys_mem_addr` is mapped
at its address in the physical memory mapping by a present, writeable and global huge page, and
the tables are still a tree of levels apart. -/
theorem mapPhysicalMemory_maps (hfresh : FreshAlloc alloc used)
    (hL : LevelTree used st root tableAt) {layoutManager : LayoutManager}
    {lastPhysMemAddr : Nat} (hlast : lastPhysMemAddr ≤ 2 ^ 48) {st' : PagingState σ}
    (h : mapPhysicalMemory alloc layoutManager ⟨root⟩ lastPhysMemAddr st = some st') :
    (∃ tableAt', LevelTree used st' root tableAt') ∧
      ∀ physAddr ∈ PhysRange.stepBy ⟨0, lastPhysMemAddr⟩ page2MiBSize,
        MapsHuge st' root (layoutManager.physToVirt physAddr) physAddr :=
  hL.foldlM_mapPhysicalMemoryStep hfresh (stepBy_page2MiB_pages hlast).1
    (stepBy_page2MiB_pages hlast).2 h

end Loop

section LowerHalf

variable {σ : Type} {alloc : σ → Option (σ × Option Nat)} {used : σ → Set Nat}
  {st st' : PagingState σ} {root : Nat} {tableAt : PageTableLevel → Set Nat}

/-- `MemManager::unmap_kernel_lower_half`: entry `0` of the table that entry `0` of the root
table points to, then entry `0` of the root table, become unused; `next_page_table` asserts
that the root entry is present. -/
def unmapKernelLowerHalf (kernelPageDir : PageDir) (st : PagingState σ) :
    Option (PagingState σ) := do
  let indexZero := PageTableIndex.fromUsize 0#64
  let l4PageTable := kernelPageDir.rootPhysFrame
  let l3PageTable ← nextPageTable (st.entry l4PageTable indexZero)
  let st := st.writeEntry l3PageTable indexZero (st.entry l3PageTable indexZero).setUnused
  return st.writeEntry l4PageTable indexZero (st.entry l4PageTable indexZero).setUnused

variable (alloc) in
/-- The paging at the end of `MemManager::init_instance`: `map_physical_memory`, then
`unmap_kernel_lower_half` through the directory that
`update_kernel_page_dir_after_phys_mapping` reads back from the CPU, whose root table is the
same; `protect_kernel_image` only prints. -/
def initInstancePaging (layoutManager : LayoutManager) (kernelPageDir : PageDir)
    (lastPhysMemAddr : Nat) (st : PagingState σ) : Option (PagingState σ) := do
  let st ← mapPhysicalMemory alloc layoutManager kernelPageDir lastPhysMemAddr st
  unmapKernelLowerHalf kernelPageDir st

/-- What `unmap_kernel_lower_half` does when it returns: the root entry `0` was present, and
the two entries `0` are now unused. -/
theorem unmapKernelLowerHalf_eq_some
    (h : unmapKernelLowerHalf ⟨root⟩ st = some st') :
    (st.entry root (.fromUsize 0#64)).isPresent = true ∧
      st' = (st.writeEntry (st.entry root (.fromUsize 0#64)).rawPhysFrame.toNat (.fromUsize 0#64)
        .new).writeEntry root (.fromUsize 0#64) .new := by
  simp only [unmapKernelLowerHalf, Option.bind_eq_bind, Option.bind_eq_some_iff,
    nextPageTable_eq] at h
  obtain ⟨l3PageTable, hl3, hst⟩ := h
  split_ifs at hl3 with hpresent
  cases hl3
  exact ⟨hpresent, (Option.some.inj hst).symm⟩

/-- After `unmap_kernel_lower_half` no address of the lower half's first `512 GiB`, root index
`0`, translates past the root table. -/
theorem unmapKernelLowerHalf_unmaps (h : unmapKernelLowerHalf ⟨root⟩ st = some st')
    {virtAddr : VirtAddr} (hroot : virtAddr.pageTableIndex .root = some (.fromUsize 0#64)) :
    translate st' root virtAddr .oneGiB = none := by
  obtain ⟨-, rfl⟩ := unmapKernelLowerHalf_eq_some h
  show descend _ virtAddr .root root = none
  simp [descend, hroot]

/-- `unmap_kernel_lower_half` keeps the levels, and every `2 MiB` mapping outside the root
index `0`: the first write is into the `1 GiB` table of index `0`, which no other root entry
points to, and the second is into the root table at index `0`. -/
theorem LevelTree.unmapKernelLowerHalf (hL : LevelTree used st root tableAt)
    (h : unmapKernelLowerHalf ⟨root⟩ st = some st') :
    LevelTree used st' root tableAt ∧ ∀ virtAddr physAddr,
      virtAddr.pageTableIndex .root ≠ some (.fromUsize 0#64) →
      MapsHuge st root virtAddr physAddr → MapsHuge st' root virtAddr physAddr := by
  obtain ⟨hpresent, rfl⟩ := unmapKernelLowerHalf_eq_some h
  have hpt : (st.entry root (.fromUsize 0#64)).pointsTo =
      some (st.entry root (.fromUsize 0#64)).rawPhysFrame.toNat := by
    simp [PageTableEntry.pointsTo, hpresent,
      hL.tree.root_not_huge root _ hL.tree.root_mem hpresent]
  have hl3 := hL.tree.child_mem .root .oneGiB root _ _ rfl hL.tree.root_mem hpt
  have hL₁ := hL.writeEntry_new (st.entry root (.fromUsize 0#64)).rawPhysFrame.toNat
    (.fromUsize 0#64)
  refine ⟨hL₁.writeEntry_new root (.fromUsize 0#64), fun virtAddr physAddr hne hm => ?_⟩
  refine (hm.writeEntry_of_level hL hl3 fun ht₁ hj => ?_).writeEntry_of_level hL₁
    hL.tree.root_mem fun _ hj => hne hj
  obtain ⟨r, hr, hpt₁⟩ := Option.bind_eq_some_iff.mp
    (show descend st virtAddr .root root = some _ from ht₁)
  obtain ⟨-, rfl⟩ := hL.tree.child_injective .root .root root root r _ _ (by decide) (by decide)
    hL.tree.root_mem hL.tree.root_mem hpt₁ hpt
  exact hne hr

/-- An address in the higher half, the top `2 ^ 47` bytes below `2 ^ 64`, has a root index
other than `0`: bit `47`, the top bit of the root index, is set. -/
theorem pageTableIndex_root_ne_zero {a : Nat} (hlo : 0xffff_8000_0000_0000 ≤ a)
    (hhi : a < 2 ^ 64) :
    (VirtAddr.fromUsize (BitVec.ofNat 64 a)).pageTableIndex .root ≠ some (.fromUsize 0#64) := by
  intro h
  have hzero : (VirtAddr.fromUsize (BitVec.ofNat 64 0)).pageTableIndex .root =
      some (.fromUsize 0#64) := by decide
  have hbit := @testBit_of_pageTableIndex_eq a 0 .root (h.trans hzero.symm) (by decide) 8
    (by decide)
  rw [Nat.zero_testBit, Nat.testBit_eq_decide_div_mod_eq] at hbit
  have hdiv : a / 2 ^ (PageTableLevel.indexShift .root + 8) = 2 ^ 17 - 1 := by
    rw [show PageTableLevel.indexShift .root + 8 = 47 from rfl]
    omega
  simp [hdiv] at hbit

/-- The paging of `init_instance` from a tree of levels apart: `map_physical_memory` maps every
page, and `unmap_kernel_lower_half` keeps the pages of a mapping in the higher half. -/
theorem LevelTree.initInstancePaging (hfresh : FreshAlloc alloc used)
    (hL : LevelTree used st root tableAt) {layoutManager : LayoutManager}
    {lastPhysMemAddr : Nat} (hlast : lastPhysMemAddr ≤ 2 ^ 48)
    (hhalf : 0xffff_8000_0000_0000 ≤ layoutManager.physMemMappingRange.start)
    (hend : layoutManager.physMemMappingRange.start + lastPhysMemAddr ≤ 2 ^ 64)
    (h : initInstancePaging alloc layoutManager ⟨root⟩ lastPhysMemAddr st = some st') :
    (∃ tableAt', LevelTree used st' root tableAt') ∧
      (∀ physAddr ∈ PhysRange.stepBy ⟨0, lastPhysMemAddr⟩ page2MiBSize,
        MapsHuge st' root (layoutManager.physToVirt physAddr) physAddr) ∧
      ∀ virtAddr : VirtAddr, virtAddr.pageTableIndex .root = some (.fromUsize 0#64) →
        translate st' root virtAddr .oneGiB = none := by
  obtain ⟨st₁, hmap, hunmap⟩ := Option.bind_eq_some_iff.mp h
  obtain ⟨hnodup, hpages⟩ := stepBy_page2MiB_pages hlast
  obtain ⟨⟨A₁, hL₁⟩, hmaps⟩ := hL.foldlM_mapPhysicalMemoryStep hfresh hnodup hpages hmap
  obtain ⟨hL', hkeep⟩ := hL₁.unmapKernelLowerHalf hunmap
  refine ⟨⟨A₁, hL'⟩, fun physAddr hpa => hkeep _ _ ?_ (hmaps physAddr hpa),
    fun _ hroot => unmapKernelLowerHalf_unmaps hunmap hroot⟩
  have hlt := (mem_stepBy_page2MiB hpa).2
  exact pageTableIndex_root_ne_zero (by unfold LayoutManager.physAddrToVirtAddr; omega)
    (by unfold LayoutManager.physAddrToVirtAddr; omega)

/-- After the paging of `MemManager::init_instance`, with the physical memory mapping in the
higher half and below `2 ^ 64`: every `2 MiB` page below `last_phys_mem_addr` is mapped at its
address in the mapping by a present, writeable and global huge page, no address of root index
`0` translates past the root table, and the tables are still a tree of levels apart. -/
theorem initInstancePaging_maps (hfresh : FreshAlloc alloc used)
    (hL : LevelTree used st root tableAt) {layoutManager : LayoutManager}
    {lastPhysMemAddr : Nat} (hlast : lastPhysMemAddr ≤ 2 ^ 48)
    (hhalf : 0xffff_8000_0000_0000 ≤ layoutManager.physMemMappingRange.start)
    (hend : layoutManager.physMemMappingRange.start + lastPhysMemAddr ≤ 2 ^ 64)
    (h : initInstancePaging alloc layoutManager ⟨root⟩ lastPhysMemAddr st = some st') :
    (∃ tableAt', LevelTree used st' root tableAt') ∧
      (∀ physAddr ∈ PhysRange.stepBy ⟨0, lastPhysMemAddr⟩ page2MiBSize,
        MapsHuge st' root (layoutManager.physToVirt physAddr) physAddr) ∧
      ∀ virtAddr : VirtAddr, virtAddr.pageTableIndex .root = some (.fromUsize 0#64) →
        translate st' root virtAddr .oneGiB = none :=
  hL.initInstancePaging hfresh hlast hhalf hend h

end LowerHalf

/-! ### With the kernel's allocator

The results above hold for any allocator that hands out fresh frames.  The kernel's,
`allocate_kernel_phys_frame` on the bitmap `init_instance` built, is one
(`KernelFrames.freshAlloc`) once it is seen with the frames it has handed out; the walk reads
that finer state only through the allocator (`mapPhysicalMemory_mapMemManager`), so the runs
over the bare `MemManager` are the same runs. -/

section KernelAllocator

variable {σ τ : Type} {alloc : σ → Option (σ × Option Nat)} {alloc' : τ → Option (τ × Option Nat)}
  {π : σ → τ} {root : Nat} {tableAt : PageTableLevel → Set Nat}

theorem unmapKernelLowerHalf_mapMemManager (kernelPageDir : PageDir) (st : PagingState σ) :
    unmapKernelLowerHalf kernelPageDir (st.mapMemManager π) =
      (unmapKernelLowerHalf kernelPageDir st).map (PagingState.mapMemManager π) := by
  simp only [unmapKernelLowerHalf, PagingState.entry_mapMemManager, Option.bind_eq_bind]
  cases nextPageTable (st.entry kernelPageDir.rootPhysFrame (.fromUsize 0#64)) <;> rfl

theorem initInstancePaging_mapMemManager (hπ : ∀ s, alloc' (π s) = (alloc s).map (Prod.map π id))
    (layoutManager : LayoutManager) (kernelPageDir : PageDir) (lastPhysMemAddr : Nat)
    (st : PagingState σ) :
    initInstancePaging alloc' layoutManager kernelPageDir lastPhysMemAddr (st.mapMemManager π) =
      (initInstancePaging alloc layoutManager kernelPageDir lastPhysMemAddr st).map
        (PagingState.mapMemManager π) := by
  simp only [initInstancePaging, Option.bind_eq_bind, mapPhysicalMemory_mapMemManager hπ]
  cases mapPhysicalMemory alloc layoutManager kernelPageDir lastPhysMemAddr st with
  | none => rfl
  | some st₁ => exact unmapKernelLowerHalf_mapMemManager kernelPageDir st₁

theorem translate_of_tables {st : PagingState σ} {st' : PagingState τ} (h : st'.tables = st.tables)
    (virtAddr : VirtAddr) (level : PageTableLevel) :
    translate st' root virtAddr level = translate st root virtAddr level := by
  obtain ⟨tables, memManager⟩ := st'
  subst h
  cases level <;> rfl

theorem MapsHuge.of_tables {st : PagingState σ} {st' : PagingState τ} {virtAddr : VirtAddr}
    {physAddr : Nat} (hm : MapsHuge st root virtAddr physAddr) (h : st'.tables = st.tables) :
    MapsHuge st' root virtAddr physAddr := by
  obtain ⟨tables, memManager⟩ := st'
  subst h
  exact hm

variable {bootMemAreas : List PhysRange} {kernTextPhysRange : PhysRange} {reserved : Set Nat}
  {st st' : PagingState MemManager} {layoutManager : LayoutManager} {lastPhysMemAddr : Nat}

/-- The directory with the state of the kernel's allocator that `init_instance` built, seen
with the frames it has handed out: none yet. -/
def kernelFramesDir
    (hareas : ∀ r ∈ bootMemAreas, page4KiBSize ∣ r.start ∧ page4KiBSize ∣ r.stop)
    (htext : page4KiBSize ∣ kernTextPhysRange.start)
    (hinit : initInstance bootMemAreas kernTextPhysRange = some st.memManager) :
    PagingState (KernelFrames bootMemAreas kernTextPhysRange) :=
  ⟨st.tables, KernelFrames.ofInitInstance hareas htext hinit⟩

/-- `map_physical_memory` with `allocate_kernel_phys_frame` on the bitmap `init_instance`
built.  When the boot memory areas lie on pages below `2 ^ 52`, and the tables in place form a
tree of levels apart outside them, every `2 MiB` page below `last_phys_mem_addr` is mapped at
its address in the physical memory mapping when the loop returns. -/
theorem mapPhysicalMemory_allocateKernelPhysFrame_maps
    (hareas : ∀ r ∈ bootMemAreas, page4KiBSize ∣ r.start ∧ page4KiBSize ∣ r.stop)
    (htext : page4KiBSize ∣ kernTextPhysRange.start)
    (hbound : ∀ r ∈ bootMemAreas, r.stop ≤ 2 ^ 52)
    (hreserved : ∀ f ∈ reserved, ∀ r ∈ bootMemAreas, f ∉ r.cells)
    (hinit : initInstance bootMemAreas kernTextPhysRange = some st.memManager)
    (hL : LevelTree (fun _ => reserved) st root tableAt) (hlast : lastPhysMemAddr ≤ 2 ^ 48)
    (h : mapPhysicalMemory MemManager.allocateKernelPhysFrame layoutManager ⟨root⟩
      lastPhysMemAddr st = some st') :
    (∃ tableAt', TreeOn st' root tableAt') ∧
      ∀ physAddr ∈ PhysRange.stepBy ⟨0, lastPhysMemAddr⟩ page2MiBSize,
        MapsHuge st' root (layoutManager.physToVirt physAddr) physAddr := by
  have hsim := mapPhysicalMemory_mapMemManager KernelFrames.allocateKernelPhysFrame_memManager
    layoutManager ⟨root⟩ lastPhysMemAddr (kernelFramesDir hareas htext hinit)
  rw [show (kernelFramesDir hareas htext hinit).mapMemManager KernelFrames.memManager = st from
    rfl, h] at hsim
  obtain ⟨st₁, h₁, hst₁⟩ := Option.map_eq_some_iff.mp hsim.symm
  have hL₀ : LevelTree (KernelFrames.used reserved) (kernelFramesDir hareas htext hinit) root
      tableAt := hL.of_tables rfl Set.subset_union_left
  obtain ⟨hnodup, hpages⟩ := stepBy_page2MiB_pages hlast
  obtain ⟨⟨A, hA⟩, hmaps⟩ := hL₀.foldlM_mapPhysicalMemoryStep
    (KernelFrames.freshAlloc hbound hreserved) hnodup hpages h₁
  subst hst₁
  exact ⟨⟨A, hA.tree.of_tables rfl⟩, fun physAddr hpa => (hmaps physAddr hpa).of_tables rfl⟩

/-- The paging at the end of `init_instance` with `allocate_kernel_phys_frame` on the bitmap
`init_instance` built, under the same conditions, with the physical memory mapping in the
higher half and below `2 ^ 64`: every `2 MiB` page below `last_phys_mem_addr` stays mapped, no
address of root index `0` translates past the root table, and the tables are a tree. -/
theorem initInstancePaging_allocateKernelPhysFrame_maps
    (hareas : ∀ r ∈ bootMemAreas, page4KiBSize ∣ r.start ∧ page4KiBSize ∣ r.stop)
    (htext : page4KiBSize ∣ kernTextPhysRange.start)
    (hbound : ∀ r ∈ bootMemAreas, r.stop ≤ 2 ^ 52)
    (hreserved : ∀ f ∈ reserved, ∀ r ∈ bootMemAreas, f ∉ r.cells)
    (hinit : initInstance bootMemAreas kernTextPhysRange = some st.memManager)
    (hL : LevelTree (fun _ => reserved) st root tableAt) (hlast : lastPhysMemAddr ≤ 2 ^ 48)
    (hhalf : 0xffff_8000_0000_0000 ≤ layoutManager.physMemMappingRange.start)
    (hend : layoutManager.physMemMappingRange.start + lastPhysMemAddr ≤ 2 ^ 64)
    (h : initInstancePaging MemManager.allocateKernelPhysFrame layoutManager ⟨root⟩
      lastPhysMemAddr st = some st') :
    (∃ tableAt', TreeOn st' root tableAt') ∧
      (∀ physAddr ∈ PhysRange.stepBy ⟨0, lastPhysMemAddr⟩ page2MiBSize,
        MapsHuge st' root (layoutManager.physToVirt physAddr) physAddr) ∧
      ∀ virtAddr : VirtAddr, virtAddr.pageTableIndex .root = some (.fromUsize 0#64) →
        translate st' root virtAddr .oneGiB = none := by
  have hsim := initInstancePaging_mapMemManager KernelFrames.allocateKernelPhysFrame_memManager
    layoutManager ⟨root⟩ lastPhysMemAddr (kernelFramesDir hareas htext hinit)
  rw [show (kernelFramesDir hareas htext hinit).mapMemManager KernelFrames.memManager = st from
    rfl, h] at hsim
  obtain ⟨st₁, h₁, hst₁⟩ := Option.map_eq_some_iff.mp hsim.symm
  have hL₀ : LevelTree (KernelFrames.used reserved) (kernelFramesDir hareas htext hinit) root
      tableAt := hL.of_tables rfl Set.subset_union_left
  obtain ⟨⟨A, hA⟩, hmaps, hunmap⟩ :=
    hL₀.initInstancePaging (KernelFrames.freshAlloc hbound hreserved) hlast hhalf hend h₁
  subst hst₁
  refine ⟨⟨A, hA.tree.of_tables rfl⟩, fun physAddr hpa => (hmaps physAddr hpa).of_tables rfl,
    fun virtAddr hroot => ?_⟩
  rw [translate_of_tables rfl]
  exact hunmap virtAddr hroot

end KernelAllocator

section Example

/-- A frame allocator that hands out the frames `k * 0x1000` in turn, below `2 ^ 52`. -/
def bumpFrames (next : Nat) : Option (Nat × Option Nat) :=
  if next < 2 ^ 40 then some (next + 1, some (next * page4KiBSize)) else some (next, none)

/-- The frames `bumpFrames` has handed out before `next`. -/
def bumpUsed (next : Nat) : Set Nat := {f | ∃ k < next, f = k * page4KiBSize}

theorem bumpFrames_fresh : FreshAlloc bumpFrames bumpUsed where
  fresh s s' f h := by
    unfold bumpFrames at h
    split_ifs at h with hs
    · simp only [Option.some.injEq, Prod.mk.injEq] at h
      obtain ⟨rfl, rfl⟩ := h
      rw [page4KiBSize_eq]
      refine ⟨Nat.mul_mod_left _ _, by omega, ?_, ?_⟩
      · rintro ⟨k, hk, he⟩
        rw [page4KiBSize_eq] at he
        omega
      · ext g
        simp only [bumpUsed, Set.mem_ofPred_eq, Set.mem_insert_iff, page4KiBSize_eq]
        constructor
        · rintro ⟨k, hk, rfl⟩
          rcases Nat.lt_succ_iff_lt_or_eq.mp hk with hk | rfl
          · exact .inr ⟨k, hk, rfl⟩
          · exact .inl rfl
        · rintro (rfl | ⟨k, hk, rfl⟩)
          · exact ⟨s, Nat.lt_succ_self s, rfl⟩
          · exact ⟨k, Nat.lt_succ_of_lt hk, rfl⟩
    · cases h
  keep s s' h := by
    unfold bumpFrames at h
    split_ifs at h
    · simp at h
    · obtain ⟨rfl, -⟩ := Prod.mk.inj (Option.some.inj h)
      rfl

/-- The directory the loader hands over: the root table in frame `0x1000`, whose entry `0`
points to an empty table in frame `0x2000`, the identity mapping of the lower half; the next
frame of `bumpFrames` is `0x3000`. -/
def loaderDir : PagingState Nat :=
  ⟨fun t => if t = 0x1000 then PageTable.new.set (.fromUsize 0#64) (tableEntry 0x2000)
    else .new, 3⟩

/-- The levels of `loaderDir`. -/
def loaderDirTables : PageTableLevel → Set Nat
  | .root => {0x1000}
  | .oneGiB => {0x2000}
  | _ => ∅

theorem loaderDir_entry (t : Nat) (i : PageTableIndex) :
    loaderDir.entry t i =
      if t = 0x1000 ∧ i = .fromUsize 0#64 then tableEntry 0x2000 else .new := by
  by_cases ht : t = 0x1000
  · subst ht
    by_cases hi : i = .fromUsize 0#64 <;> simp [loaderDir, PagingState.entry, hi]
  · simp [loaderDir, PagingState.entry, ht]

theorem loaderDir_pointsTo {t f : Nat} {i : PageTableIndex}
    (h : (loaderDir.entry t i).pointsTo = some f) :
    t = 0x1000 ∧ i = .fromUsize 0#64 ∧ f = 0x2000 := by
  rw [loaderDir_entry] at h
  split_ifs at h with hti
  · rw [tableEntry_pointsTo (by decide) (by decide), Option.some.injEq] at h
    exact ⟨hti.1, hti.2, h.symm⟩
  · cases h

/-- The loader's directory is a tree of levels apart, in the frames `1` and `2` of
`bumpFrames`. -/
theorem loaderDir_levelTree : LevelTree bumpUsed loaderDir 0x1000 loaderDirTables := by
  have hhuge : ∀ t i, (loaderDir.entry t i).isHugePage = false := by
    intro t i
    rw [loaderDir_entry]
    split_ifs
    · exact tableEntry_isHugePage (by decide)
    · rfl
  have hroot : ∀ level, (0x1000 : Nat) ∈ loaderDirTables level → level = .root := by
    intro level h
    cases level <;> simp_all [loaderDirTables]
  refine ⟨⟨rfl, fun _ t i _ _ => ?_, fun t i _ _ => hhuge t i, fun level level' t i f hl ht h => ?_,
    fun _ _ t₁ t₂ i₁ i₂ f _ _ _ _ h₁ h₂ => ?_, fun _ t i _ _ h => ?_⟩,
    fun level => ?_, fun l₁ l₂ t h₁ h₂ => ?_, fun _ t i _ _ => hhuge t i⟩
  · rw [loaderDir_entry]
    split_ifs
    · exact .inr tableEntry_isPresent
    · exact .inl rfl
  · obtain ⟨rfl, -, rfl⟩ := loaderDir_pointsTo h
    cases hroot level ht
    cases hl
    rfl
  · obtain ⟨rfl, rfl, -⟩ := loaderDir_pointsTo h₁
    obtain ⟨rfl, rfl, -⟩ := loaderDir_pointsTo h₂
    exact ⟨rfl, rfl⟩
  · obtain ⟨-, -, h⟩ := loaderDir_pointsTo h
    cases h
  · intro t ht
    cases level <;> simp only [loaderDirTables, Set.mem_singleton_iff, Set.mem_empty_iff_false] at ht
    · exact ⟨1, by decide, ht⟩
    · exact ⟨2, by decide, ht⟩
  · cases l₁ <;> cases l₂ <;> simp_all [loaderDirTables]

/-- A layout whose physical memory mapping starts at `0xffff_8000_0000_0000`. -/
def exampleLayout : LayoutManager :=
  ⟨⟨0xffff_8000_0000_0000, 0xffff_8000_0040_0000⟩, ⟨0, 0⟩, ⟨0, 0⟩, ⟨0, 0⟩, ⟨0, 0⟩, ⟨0, 0⟩⟩

theorem mapPhysicalMemory_maps_4MiB :
    ∃ st', mapPhysicalMemory bumpFrames exampleLayout ⟨0x1000⟩ 0x400000 loaderDir = some st' ∧
      (∃ tableAt', LevelTree bumpUsed st' 0x1000 tableAt') ∧
      ∀ physAddr ∈ PhysRange.stepBy ⟨0, 0x400000⟩ page2MiBSize,
        MapsHuge st' 0x1000 (exampleLayout.physToVirt physAddr) physAddr := by
  obtain ⟨st', h⟩ : ∃ st',
      mapPhysicalMemory bumpFrames exampleLayout ⟨0x1000⟩ 0x400000 loaderDir = some st' :=
    ⟨_, rfl⟩
  exact ⟨st', h, mapPhysicalMemory_maps bumpFrames_fresh loaderDir_levelTree (by decide) h⟩

theorem initInstancePaging_maps_4MiB :
    ∃ st', initInstancePaging bumpFrames exampleLayout ⟨0x1000⟩ 0x400000 loaderDir = some st' ∧
      (∃ tableAt', LevelTree bumpUsed st' 0x1000 tableAt') ∧
      (∀ physAddr ∈ PhysRange.stepBy ⟨0, 0x400000⟩ page2MiBSize,
        MapsHuge st' 0x1000 (exampleLayout.physToVirt physAddr) physAddr) ∧
      ∀ virtAddr : VirtAddr, virtAddr.pageTableIndex .root = some (.fromUsize 0#64) →
        translate st' 0x1000 virtAddr .oneGiB = none := by
  obtain ⟨st', h⟩ : ∃ st',
      initInstancePaging bumpFrames exampleLayout ⟨0x1000⟩ 0x400000 loaderDir = some st' :=
    ⟨_, rfl⟩
  exact ⟨st', h, initInstancePaging_maps bumpFrames_fresh loaderDir_levelTree (by decide)
    (by decide) (by decide) h⟩

end Example

end Kernel
end MeetixOs
