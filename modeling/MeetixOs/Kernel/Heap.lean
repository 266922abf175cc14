import MeetixOs.Heap.HeapRun
import MeetixOs.Kernel.PageSize

/-!
# The kernel heap

A model of `kernel_heap_mem_supplier` of `Kernel/src/heap.rs`, the `HeapMemorySupplier` of
the kernel's global `Heap`.  It hands out whole pages of the static pool `SM_ETERNAL_POOL`
one after the other; its state is `SM_ETERNAL_POOL_USED_PAGES`.  The address of the pool
is fixed by the linker, so it is a parameter.

**Results.**
* `kernelHeapMemSupplier_spec`: every answer is the next run of whole pages of the pool, at
  least as large as the request; so the areas it hands out are fresh and disjoint.
* `kernelHeapMemSupplier_supplies`: the supplier keeps the promise of a `HeapMemorySupplier`
  on the pages of the pool it has not used yet, so every run of the kernel heap keeps the
  invariant of `heap_run_invariant`.
* `heap_allocate_slab512_misaligned`: on this supplier, the first `allocate` of 512 bytes
  aligned to 512 returns an address that is not a multiple of 512.
* `heap_allocate_refill_too_small`: a refill of exactly the pages a linked-list request asks
  for can leave the retry failing.
-/

namespace MeetixOs
namespace Kernel

open Helps Heap

/-- `C_ETERNAL_POOL_SIZE`. -/
def eternalPoolSize : Nat := 1 * cMiB

/-- `kernel_heap_mem_supplier` on the pool at `eternalPool`, with
`SM_ETERNAL_POOL_USED_PAGES` as its state. -/
def kernelHeapMemSupplier (eternalPool : Nat) : HeapMemorySupplier Nat :=
  fun usedPages requestedSize =>
    let requestedPages := alignUp requestedSize page4KiBSize / page4KiBSize
    let requestedSize := requestedPages * page4KiBSize
    if eternalPoolSize / page4KiBSize < usedPages + requestedPages then (none, usedPages)
    else
      (some (eternalPool + usedPages * page4KiBSize, requestedSize), usedPages + requestedPages)

/-- An answer of the kernel supplier is the next run of whole pages after the ones already
used, at least as large as the request, and inside the pool. -/
theorem kernelHeapMemSupplier_spec {pool usedPages requested p n usedPages' : Nat}
    (h : kernelHeapMemSupplier pool usedPages requested = (some (p, n), usedPages')) :
    p = pool + usedPages * page4KiBSize ∧ requested ≤ n ∧ page4KiBSize ∣ n ∧
      usedPages' * page4KiBSize = usedPages * page4KiBSize + n ∧
      usedPages' * page4KiBSize ≤ eternalPoolSize := by
  unfold kernelHeapMemSupplier at h
  dsimp only at h
  split_ifs at h with hfull
  · simp only [Prod.mk.injEq, reduceCtorEq, false_and] at h
  · simp only [Prod.mk.injEq, Option.some.injEq] at h
    obtain ⟨⟨rfl, rfl⟩, rfl⟩ := h
    have hdvd := dvd_alignUp page4KiBSize_isPowerOfTwo requested
    have hle := le_alignUp page4KiBSize_isPowerOfTwo requested
    refine ⟨rfl, ?_, Nat.dvd_mul_left _ _, Nat.add_mul _ _ _, ?_⟩
    · rwa [Nat.div_mul_cancel hdvd]
    · unfold eternalPoolSize cMiB cKiB at hfull ⊢
      rw [page4KiBSize_eq] at hfull ⊢
      omega

/-- A refusal of the kernel supplier uses no page. -/
theorem kernelHeapMemSupplier_none {pool usedPages requested usedPages' : Nat}
    (h : kernelHeapMemSupplier pool usedPages requested = (none, usedPages')) :
    usedPages' = usedPages := by
  unfold kernelHeapMemSupplier at h
  dsimp only at h
  split_ifs at h
  · exact (Prod.mk.inj h).2.symm
  · simp at h

/-- The pages of the pool that the kernel supplier has not handed out yet. -/
def kernelHeapAvail (eternalPool usedPages : Nat) : Set Nat :=
  Set.Ico (eternalPool + usedPages * page4KiBSize) (eternalPool + eternalPoolSize)

/-- The kernel supplier keeps the promise of a `HeapMemorySupplier` on a pool at a non-null
address aligned for the holes: each answer is the next pages of the pool, which it then no
longer has. -/
theorem kernelHeapMemSupplier_supplies {pool : Nat} (hpos : 0 < pool) (hal : holeAlign ∣ pool) :
    Supplies (kernelHeapMemSupplier pool) (kernelHeapAvail pool) := by
  refine ⟨fun h => ?_, fun h => ?_⟩
  · obtain ⟨rfl, hreq, hpage, hused, hpool⟩ := kernelHeapMemSupplier_spec h
    unfold kernelHeapAvail
    rw [page4KiBSize_eq] at hpage hused hpool ⊢
    refine ⟨by omega, by unfold holeAlign at hal ⊢; omega, hpage, hreq,
      Set.Ico_subset_Ico (by omega) (by omega), fun a ha => ?_⟩
    simp only [Set.mem_sdiff, Set.mem_Ico] at ha ⊢
    omega
  · rw [kernelHeapMemSupplier_none h]

/-- With the kernel's supplier on a page-aligned pool, `Heap::new` and then
`allocate(Layout(512, 512))` hand out the first block of the 512-byte slab, which starts
1792 bytes into the pool: not a multiple of 512. -/
theorem heap_allocate_slab512_misaligned :
    ∃ heap usedPages,
      Heap.new (kernelHeapMemSupplier 0x200000) 0 = some (some heap, usedPages) ∧
      ∃ heap', Heap.allocate (kernelHeapMemSupplier 0x200000) 1 heap usedPages ⟨512, 512⟩ =
        some ((heap', usedPages), some 0x200700) ∧ 0x200700 % 512 = 256 :=
  ⟨_, _, rfl, _, rfl, rfl⟩

/-- On the kernel's supplier, `Heap::new` followed by `allocate(Layout(8448, 8))` leaves the
linked list with no holes.  A request of `12280` bytes then goes to the linked list, which
asks the supplier for `12280` bytes and gets three pages, `12288` bytes: the retry fails,
since the block would leave `8` bytes behind.  Only a second refill, which the pool places
right after the first, lets the third try through. -/
theorem heap_allocate_refill_too_small :
    ((((Heap.new (kernelHeapMemSupplier 0x200000) 0).bind fun r => r.1.bind fun heap =>
        Heap.allocate (kernelHeapMemSupplier 0x200000) 1 heap r.2 ⟨8448, 8⟩).bind fun r =>
          Heap.allocate (kernelHeapMemSupplier 0x200000) 3 r.1.1 r.1.2 ⟨12280, 8⟩).map
        fun r => (r.1.2, r.2)) = some (24, some 0x212000) ∧
    ∃ heap₁, ((Heap.new (kernelHeapMemSupplier 0x200000) 0).bind fun r => r.1.bind fun heap =>
        Heap.allocate (kernelHeapMemSupplier 0x200000) 1 heap r.2 ⟨8448, 8⟩) =
          some ((heap₁, 18), some 0x20FF00) ∧
      AllocSelector.forLayout ⟨12280, 8⟩ = .linkedList ∧
      kernelHeapMemSupplier 0x200000 18 (max AllocSelector.linkedList.preferredExtendSize 12280) =
        (some (0x212000, 12288), 21) ∧
      (heap₁.allocateWith .linkedList ⟨12280, 8⟩).map Prod.snd = some none ∧
      ∃ heap₂, heap₁.refillMemPool (kernelHeapMemSupplier 0x200000) 18 .linkedList ⟨12280, 8⟩ =
          some ((heap₂, 21), true) ∧
        (heap₂.allocateWith .linkedList ⟨12280, 8⟩).map Prod.snd = some none := by
  have hrun : (((Heap.new (kernelHeapMemSupplier 0x200000) 0).bind fun r => r.1.bind fun heap =>
      Heap.allocate (kernelHeapMemSupplier 0x200000) 1 heap r.2 ⟨8448, 8⟩).map
        fun r => (r.1.1.linkedList, r.1.2, r.2)) = some (⟨⟨0, 0⟩, []⟩, 18, some 0x20FF00) := by
    decide
  obtain ⟨⟨⟨heap₁, used⟩, ptr⟩, hr, heq⟩ := Option.map_eq_some_iff.mp hrun
  simp only [Prod.mk.injEq] at heq
  obtain ⟨hll, rfl, rfl⟩ := heq
  have hsupply : kernelHeapMemSupplier 0x200000 18
      (max AllocSelector.linkedList.preferredExtendSize 12280) = (some (0x212000, 12288), 21) := by
    decide
  obtain ⟨hfirst, heap₂, hrefill, hretry⟩ := Heap.refillMemPool_linkedList_sliver
    hll (by decide : alignLayout ⟨12280, 8⟩ = some ⟨12280, 8⟩) hsupply (by decide) (by decide)
    (by decide) (by decide) (by decide) (by decide)
  exact ⟨by decide +kernel, heap₁, hr, by decide, hsupply, hfirst, heap₂, hrefill, hretry⟩

/-- After the run of `kernel_heap_run_first_block`, the 64-byte slab block goes back without
a panic. -/
theorem kernel_heap_deallocate_first_block :
    ∃ s : HeapState Nat, HeapReachable (kernelHeapMemSupplier 0x200000) s ∧
      s.live = [⟨0x200000, ⟨64, 8⟩⟩] ∧ ∃ h', s.heap.deallocate 0x200000 ⟨64, 8⟩ = some h' := by
  obtain ⟨s, hr, hlive⟩ : ∃ s : HeapState Nat, HeapReachable (kernelHeapMemSupplier 0x200000) s ∧
      s.live = [⟨0x200000, ⟨64, 8⟩⟩] :=
    ⟨_, .step (.init (@HeapInit.new _ _ 0 _ _ rfl))
      (@HeapStep.allocate _ _ _ 1 ⟨64, 8⟩ _ _ (some 0x200000) rfl), rfl⟩
  exact ⟨s, hr, hlive, heap_deallocate_no_panic
    (kernelHeapMemSupplier_supplies (by decide) (by decide : holeAlign ∣ 0x200000)) hr
    (show (⟨0x200000, ⟨64, 8⟩⟩ : Block) ∈ s.live by simp [hlive])⟩

set_option maxRecDepth 16000 in
/-- The kernel heap on the pool at `0x200000`, after `Heap::new` and one `allocate` of `5000`
bytes aligned to `8`: a slab block would waste too much, so the linked list serves it from its
first hole, right after the slabs; the block is aligned to `8`. -/
theorem kernel_heap_linkedList_block_aligned :
    ∃ s : HeapState Nat, HeapReachable (kernelHeapMemSupplier 0x200000) s ∧
      s.live = [⟨0x20FF00, ⟨5000, 8⟩⟩] ∧ AllocSelector.forLayout ⟨5000, 8⟩ = .linkedList ∧
      0x20FF00 % 8 = 0 := by
  obtain ⟨s, hr, hlive⟩ : ∃ s : HeapState Nat, HeapReachable (kernelHeapMemSupplier 0x200000) s ∧
      s.live = [⟨0x20FF00, ⟨5000, 8⟩⟩] :=
    ⟨_, .step (.init (@HeapInit.new _ _ 0 _ _ rfl))
      (@HeapStep.allocate _ _ _ 1 ⟨5000, 8⟩ _ _ (some 0x20FF00) rfl), rfl⟩
  have hsel : AllocSelector.forLayout ⟨5000, 8⟩ = .linkedList := by decide
  exact ⟨s, hr, hlive, hsel, heap_linkedList_blocks_aligned
    (kernelHeapMemSupplier_supplies (by decide) (by decide : holeAlign ∣ 0x200000)) hr
    (show (⟨0x20FF00, ⟨5000, 8⟩⟩ : Block) ∈ s.live by simp [hlive]) hsel⟩

end Kernel
end MeetixOs
