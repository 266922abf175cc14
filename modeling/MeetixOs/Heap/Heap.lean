import MeetixOs.Heap.Slab
import MeetixOs.Heap.LinkedListSpec

/-!
# The multi strategy `Heap`

A model of `Heap` of `lib.rs`: eight slabs, one `LinkedList`, the two memory counters and the
`HeapMemorySupplier` that is asked for more memory when a pool runs out.

The supplier is code of the heap's user (the kernel's page allocator, the userland
`mmap`), so it is a parameter.  It is a plain `fn`, but every call takes memory from
somewhere: `HeapMemorySupplier σ` answers on the state `σ` of whatever it takes memory
from and returns that state changed.

* `AllocSelector.forLayout` picks the pool of a request; `forLayout_block_size` says which
  requests a slab gets.
* `Heap.allocate` tries the selected pool, refills it from the supplier when it is empty
  and tries again.  The source recurses with no bound, so the model takes fuel; `none` is
  a panic or the end of the fuel.
* `refillMemPool_linkedList_sliver`: a refill whose region exceeds a linked-list request by
  less than `blockSize` leaves the retry failing.
* A `usize` counter of the source is a `Nat` here: `m_in_use_mem` and
  `m_mem_from_supplier` grow by sizes of memory the supplier handed out, and
  `memoryAvailable` keeps the subtraction that can underflow as `checkedSub`.
-/

set_option linter.dupNamespace false

namespace MeetixOs
namespace Heap

/-- `SLAB_THRESHOLD`: the bytes a slab block may waste on a request. -/
def slabThreshold : Nat := 384

/-- `HeapMemorySupplier`: asked for `requested_size` bytes, the start of a fresh area and
its up-aligned size, or `None`. -/
def HeapMemorySupplier (σ : Type) := σ → Nat → Option (Nat × Nat) × σ

/-- `AllocSelector`: the pool that serves a request. -/
inductive AllocSelector
  | slab64
  | slab128
  | slab256
  | slab512
  | slab1024
  | slab2048
  | slab4096
  | slab8192
  | linkedList
  deriving DecidableEq, Repr

namespace AllocSelector

/-- `AllocSelector::block_size`. -/
def blockSize : AllocSelector → Option Nat
  | slab64 => some 64
  | slab128 => some 128
  | slab256 => some 256
  | slab512 => some 512
  | slab1024 => some 1024
  | slab2048 => some 2048
  | slab4096 => some 4096
  | slab8192 => some 8192
  | linkedList => none

/-- `AllocSelector::for_layout`: the first slab whose blocks hold the size and the
alignment, unless it wastes more than `SLAB_THRESHOLD` bytes. -/
def forLayout (layout : Layout) : AllocSelector :=
  let allocatorSelected :=
    if layout.size ≤ 64 ∧ layout.align ≤ 64 then slab64
    else if layout.size ≤ 128 ∧ layout.align ≤ 128 then slab128
    else if layout.size ≤ 256 ∧ layout.align ≤ 256 then slab256
    else if layout.size ≤ 512 ∧ layout.align ≤ 512 then slab512
    else if layout.size ≤ 1024 ∧ layout.align ≤ 1024 then slab1024
    else if layout.size ≤ 2048 ∧ layout.align ≤ 2048 then slab2048
    else if layout.size ≤ 4096 ∧ layout.align ≤ 4096 then slab4096
    else if layout.size ≤ 8192 ∧ layout.align ≤ 8192 then slab8192
    else linkedList
  match allocatorSelected.blockSize with
  | some slabBlockSize =>
    if slabBlockSize - layout.size > slabThreshold then linkedList else allocatorSelected
  | none => allocatorSelected

/-- `preferred_extend_size()` of the selected pool. -/
def preferredExtendSize : AllocSelector → Nat
  | slab64 => Slab.preferredExtendSize 64
  | slab128 => Slab.preferredExtendSize 128
  | slab256 => Slab.preferredExtendSize 256
  | slab512 => Slab.preferredExtendSize 512
  | slab1024 => Slab.preferredExtendSize 1024
  | slab2048 => Slab.preferredExtendSize 2048
  | slab4096 => Slab.preferredExtendSize 4096
  | slab8192 => Slab.preferredExtendSize 8192
  | linkedList => LinkedList.preferredExtendSize

end AllocSelector

/-- `Heap`. -/
structure Heap where
  slab64 : Slab 64
  slab128 : Slab 128
  slab256 : Slab 256
  slab512 : Slab 512
  slab1024 : Slab 1024
  slab2048 : Slab 2048
  slab4096 : Slab 4096
  slab8192 : Slab 8192
  linkedList : LinkedList
  inUseMem : Nat
  memFromSupplier : Nat
  deriving DecidableEq, Repr

namespace Heap

variable {σ : Type}

/-- `Heap::INITIAL_REQUESTED_MEM_AMOUNT`. -/
def initialRequestedMemAmount : Nat :=
  Slab.preferredExtendSize 64 + Slab.preferredExtendSize 128 + Slab.preferredExtendSize 256 +
    Slab.preferredExtendSize 512 + Slab.preferredExtendSize 1024 +
    Slab.preferredExtendSize 2048 + Slab.preferredExtendSize 4096 +
    Slab.preferredExtendSize 8192 + LinkedList.preferredExtendSize

/-- `Heap::new`: the slabs one after the other at the start of the first area, from the
smallest block size up, and the linked list on the rest.  The outer `none` is a panic, the
inner one the supplier's `None`. -/
def new (memSupplier : HeapMemorySupplier σ) (st : σ) : Option (Option Heap × σ) :=
  match memSupplier st initialRequestedMemAmount with
  | (none, st) => some (none, st)
  | (some (originalStartAreaAddr, upAlignedAreaSize), st) =>
    let a64 := originalStartAreaAddr
    let a128 := a64 + Slab.preferredExtendSize 64
    let a256 := a128 + Slab.preferredExtendSize 128
    let a512 := a256 + Slab.preferredExtendSize 256
    let a1024 := a512 + Slab.preferredExtendSize 512
    let a2048 := a1024 + Slab.preferredExtendSize 1024
    let a4096 := a2048 + Slab.preferredExtendSize 2048
    let a8192 := a4096 + Slab.preferredExtendSize 4096
    let nextStartAreaAddr := a8192 + Slab.preferredExtendSize 8192
    let requestedMemUsedAmount := nextStartAreaAddr - originalStartAreaAddr
    match checkedSub upAlignedAreaSize requestedMemUsedAmount with
    | none => none
    | some linkedListSize =>
      (LinkedList.new nextStartAreaAddr linkedListSize).map fun linkedList =>
        (some ⟨Slab.withPreferredSize 64 a64, Slab.withPreferredSize 128 a128,
          Slab.withPreferredSize 256 a256, Slab.withPreferredSize 512 a512,
          Slab.withPreferredSize 1024 a1024, Slab.withPreferredSize 2048 a2048,
          Slab.withPreferredSize 4096 a4096, Slab.withPreferredSize 8192 a8192,
          linkedList, 0, upAlignedAreaSize⟩, st)

/-- The `match allocator_selector` of `Heap::allocate`: one try on the selected pool. -/
def allocateWith (self : Heap) : AllocSelector → Layout → Option (Heap × Option Nat)
  | .slab64, _ => some ({ self with slab64 := self.slab64.allocate.1 }, self.slab64.allocate.2)
  | .slab128, _ =>
    some ({ self with slab128 := self.slab128.allocate.1 }, self.slab128.allocate.2)
  | .slab256, _ =>
    some ({ self with slab256 := self.slab256.allocate.1 }, self.slab256.allocate.2)
  | .slab512, _ =>
    some ({ self with slab512 := self.slab512.allocate.1 }, self.slab512.allocate.2)
  | .slab1024, _ =>
    some ({ self with slab1024 := self.slab1024.allocate.1 }, self.slab1024.allocate.2)
  | .slab2048, _ =>
    some ({ self with slab2048 := self.slab2048.allocate.1 }, self.slab2048.allocate.2)
  | .slab4096, _ =>
    some ({ self with slab4096 := self.slab4096.allocate.1 }, self.slab4096.allocate.2)
  | .slab8192, _ =>
    some ({ self with slab8192 := self.slab8192.allocate.1 }, self.slab8192.allocate.2)
  | .linkedList, layout =>
    (self.linkedList.allocate layout).map fun r => ({ self with linkedList := r.1 }, r.2)

/-- `sub_heap_allocator.add_region(..)` on the selected pool; `none` is a panic. -/
def addRegionTo (self : Heap) :
    AllocSelector → Nat → Nat → Option (Heap × Option (Nat × Nat))
  | .slab64, p, n => some ({ self with slab64 := (self.slab64.addRegion p n).1 },
    (self.slab64.addRegion p n).2)
  | .slab128, p, n => some ({ self with slab128 := (self.slab128.addRegion p n).1 },
    (self.slab128.addRegion p n).2)
  | .slab256, p, n => some ({ self with slab256 := (self.slab256.addRegion p n).1 },
    (self.slab256.addRegion p n).2)
  | .slab512, p, n => some ({ self with slab512 := (self.slab512.addRegion p n).1 },
    (self.slab512.addRegion p n).2)
  | .slab1024, p, n => some ({ self with slab1024 := (self.slab1024.addRegion p n).1 },
    (self.slab1024.addRegion p n).2)
  | .slab2048, p, n => some ({ self with slab2048 := (self.slab2048.addRegion p n).1 },
    (self.slab2048.addRegion p n).2)
  | .slab4096, p, n => some ({ self with slab4096 := (self.slab4096.addRegion p n).1 },
    (self.slab4096.addRegion p n).2)
  | .slab8192, p, n => some ({ self with slab8192 := (self.slab8192.addRegion p n).1 },
    (self.slab8192.addRegion p n).2)
  | .linkedList, p, n =>
    (self.linkedList.addRegion p n).map fun r => ({ self with linkedList := r.1 }, r.2)

/-- `Heap::refill_mem_pool`: asks the supplier for the larger of the pool's preferred size
and the request, adds the area to the pool and the bytes it leaves to the linked list.  The
`Bool` is whether the supplier answered. -/
def refillMemPool (self : Heap) (memSupplier : HeapMemorySupplier σ) (st : σ)
    (allocatorSelector : AllocSelector) (layout : Layout) : Option ((Heap × σ) × Bool) :=
  let memAmountToRequest := max allocatorSelector.preferredExtendSize layout.size
  match memSupplier st memAmountToRequest with
  | (none, st) => some ((self, st), false)
  | (some (startAreaAddr, upAlignedAreaSize), st) =>
    let self := { self with memFromSupplier := self.memFromSupplier + upAlignedAreaSize }
    match self.addRegionTo allocatorSelector startAreaAddr upAlignedAreaSize with
    | none => none
    | some (self, none) => some ((self, st), true)
    | some (self, some (exceedingAreaStartAddr, exceedingAreaSize)) =>
      (self.linkedList.addRegion exceedingAreaStartAddr exceedingAreaSize).map fun r =>
        (({ self with linkedList := r.1 }, st), true)

/-- `Heap::allocate`: a successful try counts the request's size as in use; a failed one
refills the pool and retries, or returns `None` when the supplier has no more memory. -/
def allocate (memSupplier : HeapMemorySupplier σ) :
    Nat → Heap → σ → Layout → Option ((Heap × σ) × Option Nat)
  | 0, _, _, _ => none
  | fuel + 1, self, st, layout =>
    let allocatorSelector := AllocSelector.forLayout layout
    match self.allocateWith allocatorSelector layout with
    | none => none
    | some (self, some allocNnPtr) =>
      some (({ self with inUseMem := self.inUseMem + layout.size }, st), some allocNnPtr)
    | some (self, none) =>
      match self.refillMemPool memSupplier st allocatorSelector layout with
      | none => none
      | some ((self, st), true) => allocate memSupplier fuel self st layout
      | some ((self, st), false) => some ((self, st), none)

/-- `Heap::deallocate`: the block goes back to the pool its layout selects. -/
def deallocate (self : Heap) (nnPtr : Nat) (layout : Layout) : Option Heap :=
  let freed : Option Heap :=
    match AllocSelector.forLayout layout with
    | .slab64 => some { self with slab64 := self.slab64.deallocate nnPtr }
    | .slab128 => some { self with slab128 := self.slab128.deallocate nnPtr }
    | .slab256 => some { self with slab256 := self.slab256.deallocate nnPtr }
    | .slab512 => some { self with slab512 := self.slab512.deallocate nnPtr }
    | .slab1024 => some { self with slab1024 := self.slab1024.deallocate nnPtr }
    | .slab2048 => some { self with slab2048 := self.slab2048.deallocate nnPtr }
    | .slab4096 => some { self with slab4096 := self.slab4096.deallocate nnPtr }
    | .slab8192 => some { self with slab8192 := self.slab8192.deallocate nnPtr }
    | .linkedList =>
      (self.linkedList.deallocate nnPtr layout).map fun l => { self with linkedList := l }
  freed.bind fun h =>
    (checkedSub h.inUseMem layout.size).map fun inUse => { h with inUseMem := inUse }

/-- `Heap::memory_in_use`. -/
def memoryInUse (self : Heap) : Nat := self.inUseMem

/-- On a linked list with no holes, `allocate` finds nothing and changes nothing. -/
theorem linkedList_allocate_empty {a : Nat} {layout req : Layout}
    (hreq : alignLayout layout = some req) :
    (⟨⟨a, 0⟩, []⟩ : LinkedList).allocate layout = some (⟨⟨a, 0⟩, []⟩, none) := by
  simp [LinkedList.allocate, hreq, allocateFirstFit]

/-- A region added to a linked list with no holes becomes its one hole. -/
theorem linkedList_addRegion_empty {a p n : Nat} (hp : 0 < p) (hpal : holeAlign ∣ p)
    (hn : holeAlign ∣ n) (hn16 : blockSize ≤ n) (hsize : n ≤ isizeMax) :
    (⟨⟨a, 0⟩, []⟩ : LinkedList).addRegion p n = some (⟨⟨a, 0⟩, [⟨p, n⟩]⟩, none) := by
  have hnlt : ¬ n < blockSize := by omega
  have hmod : p % holeAlign = 0 := Nat.mod_eq_zero_of_dvd hpal
  simp [LinkedList.addRegion, LinkedList.deallocate, LinkedList.alignLayout_region hn hn16 hsize,
    LinkedList.deallocateFromHead, MeetixOs.Heap.deallocate, holeAddr, hnlt, hmod, Nat.ne_of_lt hp]

/-- When the linked list has no holes and the supplier answers its refill with a region
longer than the aligned request by less than `blockSize`, the refill succeeds and the retry
fails again: the one hole leaves a sliver behind the block. -/
theorem refillMemPool_linkedList_sliver {memSupplier : HeapMemorySupplier σ} {st st' : σ}
    {self : Heap} {layout req : Layout} {a p n : Nat}
    (hll : self.linkedList = ⟨⟨a, 0⟩, []⟩) (hreq : alignLayout layout = some req)
    (hsupply : memSupplier st (max AllocSelector.linkedList.preferredExtendSize layout.size) =
      (some (p, n), st'))
    (hp : 0 < p) (hpal : holeAlign ∣ p) (hn : holeAlign ∣ n) (hsize : n ≤ isizeMax)
    (hlt : req.size < n) (hsliver : n < req.size + blockSize) :
    (self.allocateWith .linkedList layout).map Prod.snd = some none ∧
      ∃ self', self.refillMemPool memSupplier st .linkedList layout = some ((self', st'), true) ∧
        (self'.allocateWith .linkedList layout).map Prod.snd = some none := by
  obtain ⟨hv, -, -, h16, -⟩ := alignLayout_spec hreq
  have hadd := linkedList_addRegion_empty (a := a) hp hpal hn (by omega) hsize
  have hnone : splitHole ⟨p, n⟩ req = none :=
    (splitHole_eq_none_iff hpal hv).mpr (not_admits_of_sliver hlt hsliver)
  have hretry : (⟨⟨a, 0⟩, [⟨p, n⟩]⟩ : LinkedList).allocate layout =
      some (⟨⟨a, 0⟩, [⟨p, n⟩]⟩, none) := by
    simp [LinkedList.allocate, hreq, allocateFirstFit, hnone]
  refine ⟨by simp [allocateWith, hll, linkedList_allocate_empty hreq],
    { self with memFromSupplier := self.memFromSupplier + n, linkedList := ⟨⟨a, 0⟩, [⟨p, n⟩]⟩ },
    by simp [refillMemPool, hsupply, addRegionTo, hll, hadd], ?_⟩
  simp [allocateWith, hretry]

end Heap

end Heap
end MeetixOs
