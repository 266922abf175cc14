import MeetixOs.Helps.Align
import MeetixOs.Core.Layout

/-!
# `LinkedList`: the first-fit hole list of `LibHeap`

Translation of `UKLibs/LibHeap/src/linked_list.rs`.

**Data.**  A `Hole` is written at the start of the free memory it describes and links to
the next hole.  The list is headed by a dummy hole of size `0` stored in the `LinkedList`
itself.  The model keeps the information a `Hole` gives (`HoleInfo`: its address and its
size) and the list as the dummy head `firstHole` and the `List` of holes reachable from it.
The dummy's address is read by `deallocate` only when its size is not `0`; the
constructor stores `0` there.  Field names drop the sources' `m_` prefix.

**Operations.**
* `splitHole`: cuts a hole into front padding, block and back padding, or refuses it.
* `allocateFirstFit`: unlinks the first hole `splitHole` accepts.
* `deallocate`: the five-way merge loop that puts a freed area back into the list;
  `none` is a failed `assert!` (also the `debug_assert_eq!` on the alignment, which the
  `debug` build keeps).
* `LinkedList.allocate`, `LinkedList.deallocate`, `LinkedList.addRegion`: the methods.

Addresses and sizes are `Nat` (see `MeetixOs.Core.Usize`): the subtractions of this file
never go below zero on the inputs where they are reached, and additions are unbounded.
-/

namespace MeetixOs
namespace Heap

open Helps

/-- `LinkedList::block_size()`: `size_of::<usize>() * 2`. -/
def blockSize : Nat := 16

/-- `align_of::<Hole>()`. -/
def holeAlign : Nat := 8

/-- `HoleInfo`: the address and the size of a hole. -/
structure HoleInfo where
  addr : Nat
  size : Nat
  deriving DecidableEq, Repr

/-- `Allocation`: the block cut out of a hole and the paddings around it. -/
structure Allocation where
  holeInfo : HoleInfo
  frontPadding : Option HoleInfo
  backPadding : Option HoleInfo
  deriving DecidableEq, Repr

/-- `LinkedList::align_layout`: at least `block_size()` bytes, a multiple of the hole
alignment; the `unwrap` of `Layout::from_size_align` is the `none`. -/
def alignLayout (layout : Layout) : Option Layout :=
  let size := if layout.size < blockSize then blockSize else layout.size
  Layout.fromSizeAlign (alignUp size holeAlign) layout.align

/-- The first `let` of `split_hole`: where the block starts, and the front padding when the
hole is not aligned already. -/
def splitFront (holeInfo : HoleInfo) (requiredAlign : Nat) : Nat × Option HoleInfo :=
  if holeInfo.addr = alignUp holeInfo.addr requiredAlign then (holeInfo.addr, none)
  else
    let alignedAddr := alignUp (holeInfo.addr + blockSize) requiredAlign
    (alignedAddr, some ⟨holeInfo.addr, alignedAddr - holeInfo.addr⟩)

/-- `split_hole`. -/
def splitHole (holeInfo : HoleInfo) (requiredLayout : Layout) : Option Allocation :=
  let requiredSize := requiredLayout.size
  let alignedAddr := (splitFront holeInfo requiredLayout.align).1
  let frontPadding := (splitFront holeInfo requiredLayout.align).2
  if alignedAddr + requiredSize > holeInfo.addr + holeInfo.size then none
  else
    let alignedHole : HoleInfo :=
      ⟨alignedAddr, holeInfo.size - (alignedAddr - holeInfo.addr)⟩
    if alignedHole.size = requiredSize then
      some ⟨⟨alignedHole.addr, requiredSize⟩, frontPadding, none⟩
    else if alignedHole.size - requiredSize < blockSize then none
    else
      some ⟨⟨alignedHole.addr, requiredSize⟩, frontPadding,
        some ⟨alignedHole.addr + requiredSize, alignedHole.size - requiredSize⟩⟩

/-- `allocate_first_fit`: walks the holes after the head; the first one `split_hole`
accepts is unlinked.  Returns the allocation and the remaining holes. -/
def allocateFirstFit : List HoleInfo → Layout → Option (Allocation × List HoleInfo)
  | [], _ => none
  | hole :: holes, layout =>
    match splitHole hole layout with
    | some allocation => some (allocation, holes)
    | none =>
      (allocateFirstFit holes layout).map fun r => (r.1, hole :: r.2)

/-- The `hole_addr` of `deallocate`: the dummy head, of size `0`, counts as address `0`. -/
def holeAddr (hole : HoleInfo) : Nat :=
  if hole.size = 0 then 0 else hole.addr

/-- `deallocate`: frees `[areaAddr, areaAddr + areaSize)` starting at `hole`, whose
successors are `next`; returns `hole` and its successors afterwards.  The cases are the
five arms of the source's `match`, in order. -/
def deallocate : HoleInfo → List HoleInfo → Nat → Nat → Option (HoleInfo × List HoleInfo)
  | hole, next, areaAddr, areaSize =>
    if areaSize < blockSize then none
    else if holeAddr hole + hole.size > areaAddr then none
    else
      match next with
      | n :: rest =>
        if holeAddr hole + hole.size = areaAddr ∧ areaAddr + areaSize = n.addr then
          -- the block fills the gap: merge it and the next hole into this one
          some ({ hole with size := hole.size + (areaSize + n.size) }, rest)
        else if holeAddr hole + hole.size = areaAddr then
          some ({ hole with size := hole.size + areaSize }, n :: rest)
        else if areaAddr + areaSize = n.addr then
          -- unlink the next hole and free the merged area from the same hole again
          deallocate hole rest areaAddr (areaSize + n.size)
        else if n.addr ≤ areaAddr then
          (deallocate n rest areaAddr areaSize).map fun r => (hole, r.1 :: r.2)
        else if areaAddr % holeAlign ≠ 0 then none
        else some (hole, ⟨areaAddr, areaSize⟩ :: n :: rest)
      | [] =>
        if holeAddr hole + hole.size = areaAddr then
          some ({ hole with size := hole.size + areaSize }, [])
        else if areaAddr % holeAlign ≠ 0 then none
        else some (hole, [⟨areaAddr, areaSize⟩])

/-- `LinkedList`: the dummy head `m_first_hole` and the holes linked after it. -/
structure LinkedList where
  firstHole : HoleInfo
  holes : List HoleInfo
  deriving DecidableEq, Repr

namespace LinkedList

/-- `LinkedList::PREFERRED_EXTEND_SIZE`. -/
def preferredExtendSize : Nat := 8192

/-- `LinkedList::new`: one hole at the aligned start of the area. -/
def new (startAreaAddr areaSize : Nat) : Option LinkedList :=
  let alignedHoleAddr := alignUp startAreaAddr holeAlign
  (checkedSub areaSize (alignedHoleAddr - startAreaAddr)).map fun size =>
    ⟨⟨0, 0⟩, [⟨alignedHoleAddr, size⟩]⟩

/-- The call `deallocate(&mut self.m_first_hole, area_addr, area_size)`. -/
def deallocateFromHead (self : LinkedList) (areaAddr areaSize : Nat) :
    Option LinkedList :=
  (deallocate self.firstHole self.holes areaAddr areaSize).map fun r => ⟨r.1, r.2⟩

/-- The `if let Some(padding)` blocks of `LinkedList::allocate`. -/
def deallocatePadding (self : LinkedList) : Option HoleInfo → Option LinkedList
  | none => some self
  | some padding => self.deallocateFromHead padding.addr padding.size

/-- `LinkedList::allocate`: the outer `none` is a panic, the inner one the allocation
failure (which leaves the list as it was). -/
def allocate (self : LinkedList) (layout : Layout) : Option (LinkedList × Option Nat) :=
  match alignLayout layout with
  | none => none
  | some requiredLayout =>
    match allocateFirstFit self.holes requiredLayout with
    | none => some (self, none)
    | some (allocation, holes) =>
      ((⟨self.firstHole, holes⟩ : LinkedList).deallocatePadding allocation.frontPadding
        |>.bind fun l => l.deallocatePadding allocation.backPadding).map
        fun l => (l, some allocation.holeInfo.addr)

/-- `LinkedList::deallocate`. -/
def deallocate (self : LinkedList) (ptr : Nat) (layout : Layout) : Option LinkedList :=
  (alignLayout layout).bind fun l => self.deallocateFromHead ptr l.size

/-- `THeapPool::add_region` for `LinkedList`: frees the region with the layout
`(area_size, 1)` and never returns an exceeding part. -/
def addRegion (self : LinkedList) (startAreaPtr areaSize : Nat) :
    Option (LinkedList × Option (Nat × Nat)) :=
  (self.deallocate startAreaPtr ⟨areaSize, 1⟩).map fun l => (l, none)

end LinkedList

end Heap
end MeetixOs
