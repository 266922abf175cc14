import Mathlib.Data.List.Sort
import Mathlib.Order.Interval.Set.Defs
import MeetixOs.Helps.Align
import MeetixOs.Kernel.PageSize

/-!
# The layout of the kernel's address space

A model of `Kernel/src/vm/layout_manager.rs`.  The kernel space between `KERN_SPACE_BEGIN`
and the kernel text is shared by four components: the mapping of all the physical memory
(`PhysMemMapping`, on 2 MiB pages), a 2 MiB window of temporary mappings (`TmpMapping`),
and two components that get equal parts of the rest (`KernRegions`, `FsPageCache`).

* `sizeComponents` is `size_components`: the sizes, from the size of the physical memory
  and the start of the kernel text (`__kernel_text_begin`, a linker symbol, here a
  parameter).
* `randomizeComponents` is `randomize_components`: a shrinkable component goes last, the
  other three are drawn at random.  The random device is the list of the numbers it
  returns; a list that runs out is a run in which the function does not return.
* `placeComponents` is `place_components`, a loop over `placeComponent` that carries the
  next free address and the alignment waste not yet absorbed.
* `sortForConstructor` is `sort_for_constructor`.

Addresses are `Nat`.  A subtraction that can underflow is `checkedSub`; the additions of
`align_up` and `offset` stay below the kernel text whenever `size_components` returned, so
they are unbounded here.  `LayoutComponent::None`, the placeholder the vectors are created
with, is left out: every slot is written before it is read.
-/

namespace MeetixOs
namespace Kernel

open Helps

/-- `LayoutManager::KERN_SPACE_BEGIN`. -/
def kernSpaceBegin : Nat := 0xffff_c000_0000_0000

/-- `LayoutManager::KERN_VIRT_BASE`. -/
def kernVirtBase : Nat := 0xffff_ffff_c000_0000

/-- A `Range<VirtAddr>`, `start..stop`. -/
structure VirtRange where
  start : Nat
  stop : Nat
  deriving DecidableEq, Repr

/-- The addresses of a range. -/
def VirtRange.cells (r : VirtRange) : Set Nat := Set.Ico r.start r.stop

/-- `LayoutComponent`, with its size. -/
inductive LayoutComponent
  | physMemMapping (mSize : Nat)
  | tmpMapping (mSize : Nat)
  | kernRegions (mSize : Nat)
  | fsPageCache (mSize : Nat)
  deriving DecidableEq, Repr, Inhabited

namespace LayoutComponent

/-- `LayoutComponent::COUNT`. -/
def count : Nat := 4

/-- `LayoutComponent::SHRINKABLES`. -/
def shrinkables : List LayoutComponent := [kernRegions 0, fsPageCache 0]

/-- `virt_size`. -/
def virtSize : LayoutComponent → Nat
  | physMemMapping mSize | tmpMapping mSize | kernRegions mSize | fsPageCache mSize => mSize

/-- `alignment`. -/
def alignment : LayoutComponent → Nat
  | tmpMapping _ | kernRegions _ | fsPageCache _ => page4KiBSize
  | physMemMapping _ => page2MiBSize

/-- `is_shrinkable`. -/
def isShrinkable : LayoutComponent → Bool
  | physMemMapping _ | tmpMapping _ => false
  | kernRegions _ | fsPageCache _ => true

/-- `as_index`. -/
def asIndex : LayoutComponent → Nat
  | physMemMapping _ => 0
  | tmpMapping _ => 1
  | kernRegions _ => 2
  | fsPageCache _ => 3

theorem alignment_cases (c : LayoutComponent) :
    c.alignment = page4KiBSize ∨ c.alignment = page2MiBSize := by
  cases c <;> simp [alignment]

theorem alignment_isPowerOfTwo (c : LayoutComponent) : c.alignment.isPowerOfTwo := by
  rcases c.alignment_cases with h | h <;> rw [h]
  · exact ⟨12, rfl⟩
  · exact ⟨21, rfl⟩

theorem page4KiBSize_dvd_alignment (c : LayoutComponent) : page4KiBSize ∣ c.alignment := by
  rcases c.alignment_cases with h | h
  · exact h ▸ Nat.dvd_refl _
  · exact h ▸ ⟨512, rfl⟩

theorem alignment_of_isShrinkable {c : LayoutComponent} (h : c.isShrinkable = true) :
    c.alignment = page4KiBSize := by
  cases c <;> simp_all [isShrinkable, alignment]

end LayoutComponent

open LayoutComponent

/-- `size_components`: `none` when the kernel space is too small for the two fixed
components, where the `usize` subtraction panics. -/
def sizeComponents (physMemSize kernTextBegin : Nat) : Option (List LayoutComponent) := do
  let tmpMappingSize := page2MiBSize
  let physMemMappingSize := alignUp physMemSize page2MiBSize
  let remVmKernSpaceSize ← checkedSub kernTextBegin kernSpaceBegin
  let remVmKernSpaceSize ← checkedSub remVmKernSpaceSize physMemMappingSize
  let remVmKernSpaceSize ← checkedSub remVmKernSpaceSize tmpMappingSize
  let shrinkableComponentsSize :=
    alignDown (remVmKernSpaceSize / shrinkables.length) page4KiBSize
  return [physMemMapping physMemMappingSize, tmpMapping tmpMappingSize,
    kernRegions shrinkableComponentsSize, fsPageCache shrinkableComponentsSize]

/-- `place_component`: the range of the component, then the new `vm_range_addr` and
`total_alignment_diff`.  A shrinkable component gives back the alignment waste accumulated so
far; `none` is the underflow when it is smaller than that waste. -/
def placeComponent (layoutComponent : LayoutComponent) (vmRangeAddr totalAlignmentDiff : Nat) :
    Option (VirtRange × Nat × Nat) := do
  let alignedUpAddr := alignUp vmRangeAddr layoutComponent.alignment
  let totalAlignmentDiff := totalAlignmentDiff + (alignedUpAddr - vmRangeAddr)
  let (componentSize, totalAlignmentDiff) ←
    if totalAlignmentDiff > 0 && layoutComponent.isShrinkable then do
      let prevAlignmentDiff := totalAlignmentDiff
      let shrunk ← checkedSub layoutComponent.virtSize prevAlignmentDiff
      pure (alignDown shrunk layoutComponent.alignment, 0)
    else pure (layoutComponent.virtSize, totalAlignmentDiff)
  let vmRangeAddr := alignedUpAddr + componentSize
  return (⟨alignedUpAddr, vmRangeAddr⟩, vmRangeAddr, totalAlignmentDiff)

/-- The loop of `place_components` from the given `vm_range_addr` and
`total_alignment_diff`: the ranges, and the two variables at its end. -/
def placeFrom : List LayoutComponent → Nat → Nat → Option (List VirtRange × Nat × Nat)
  | [], vmRangeAddr, totalAlignmentDiff => some ([], vmRangeAddr, totalAlignmentDiff)
  | layoutComponent :: layoutComponents, vmRangeAddr, totalAlignmentDiff => do
    let (range, vmRangeAddr, totalAlignmentDiff) ←
      placeComponent layoutComponent vmRangeAddr totalAlignmentDiff
    let (ranges, vmRangeAddr, totalAlignmentDiff) ←
      placeFrom layoutComponents vmRangeAddr totalAlignmentDiff
    return (range :: ranges, vmRangeAddr, totalAlignmentDiff)

/-- `place_components`: from `KERN_SPACE_BEGIN`, with no waste. -/
def placeComponents (layoutComponents : List LayoutComponent) : Option (List VirtRange) :=
  (placeFrom layoutComponents kernSpaceBegin 0).map Prod.fst

/-- The inner `loop` of `randomize_components`: draws numbers until one names a component
not extracted yet, and returns its index.  `none` is a run out of numbers, or the panic of an
index past `extracted_components`. -/
def drawComponent (sizedLayoutComponents : List LayoutComponent) (extractedComponents : List Bool) :
    List Nat → Option (Nat × List Nat)
  | [] => none
  | random :: randoms =>
    let nextIndex := random % sizedLayoutComponents.length
    match extractedComponents[nextIndex]? with
    | some false => some (nextIndex, randoms)
    | some true => drawComponent sizedLayoutComponents extractedComponents randoms
    | none => none

/-- The `for index in 0..COUNT - 1` loop of `randomize_components`, `n` draws left. -/
def extractComponents (sizedLayoutComponents : List LayoutComponent) :
    Nat → List Bool → List Nat → Option (List LayoutComponent)
  | 0, _, _ => some []
  | n + 1, extractedComponents, randoms => do
    let (nextIndex, randoms) ← drawComponent sizedLayoutComponents extractedComponents randoms
    let layoutComponent ← sizedLayoutComponents[nextIndex]?
    let layoutComponents ← extractComponents sizedLayoutComponents n
      (extractedComponents.set nextIndex true) randoms
    return layoutComponent :: layoutComponents

/-- `randomize_components`: the first number picks the shrinkable component that goes last,
the loop draws the other three. -/
def randomizeComponents (sizedLayoutComponents : List LayoutComponent) :
    List Nat → Option (List LayoutComponent)
  | [] => none
  | random :: randoms => do
    let componentIndex := random % shrinkables.length
    let unsizedComponent ← shrinkables[componentIndex]?
    let lastShrinkableComponent ← sizedLayoutComponents[unsizedComponent.asIndex]?
    let extractedComponents :=
      (List.replicate count false).set lastShrinkableComponent.asIndex true
    let layoutComponents ← extractComponents sizedLayoutComponents (count - 1)
      extractedComponents randoms
    return layoutComponents ++ [lastShrinkableComponent]

/-- `sort_for_constructor`: the ranges in the order of the components' indices.  The keys
are the indices of distinct components, so every sort gives this order, the
`sort_unstable_by` of the source as well as `insertionSort`. -/
def sortForConstructor (layoutComponents : List LayoutComponent)
    (vmLayoutRanges : List VirtRange) : Option (List VirtRange) :=
  if layoutComponents.length ≠ vmLayoutRanges.length ∨ layoutComponents.length < count then
    none
  else
    let componentsRangesPair := (layoutComponents.zip vmLayoutRanges).take count
    some ((componentsRangesPair.insertionSort (fun p q => p.1.asIndex ≤ q.1.asIndex)).map
      Prod.snd)

/-- `LayoutManager`. -/
structure LayoutManager where
  physMemMappingRange : VirtRange
  tmpMemMappingRange : VirtRange
  kernRegionsRange : VirtRange
  fsPageCacheRange : VirtRange
  kernTextRange : VirtRange
  kernTextPhysRange : VirtRange
  deriving DecidableEq, Repr

namespace LayoutManager

/-- `LayoutManager::new`, with `SM_INSTANCE_INITIALIZED` before and after: the ranges in the
order of the fields, and the kernel text from the linker symbols. -/
def new (smInstanceInitialized : Bool) (vmLayoutRanges : List VirtRange)
    (kernTextBegin kernTextEnd : Nat) : Option (LayoutManager × Bool) :=
  if smInstanceInitialized then none
  else
    match vmLayoutRanges with
    | physMemRange :: tmpMemRange :: kernRegionsRange :: fsPageCacheRange :: _ => do
      let textPhysBegin ← checkedSub kernTextBegin kernVirtBase
      let textPhysEnd ← checkedSub kernTextEnd kernVirtBase
      return (⟨physMemRange, tmpMemRange, kernRegionsRange, fsPageCacheRange,
        ⟨kernTextBegin, kernTextEnd⟩,
        ⟨textPhysBegin, textPhysEnd⟩⟩, true)
    | _ => none

/-- The ranges `new_randomized` hands to `new`. -/
def randomizedRanges (physMemSize kernTextBegin : Nat) (randoms : List Nat) :
    Option (List VirtRange) := do
  let sizedLayoutComponents ← sizeComponents physMemSize kernTextBegin
  let randomizedLayoutComponents ← randomizeComponents sizedLayoutComponents randoms
  let unorderedVmLayoutRanges ← placeComponents randomizedLayoutComponents
  sortForConstructor randomizedLayoutComponents unorderedVmLayoutRanges

/-- The ranges `new_plain` hands to `new`. -/
def plainRanges (physMemSize kernTextBegin : Nat) : Option (List VirtRange) := do
  let sizedLayoutComponents ← sizeComponents physMemSize kernTextBegin
  placeComponents sizedLayoutComponents

/-- `LayoutManager::new_randomized`. -/
def newRandomized (smInstanceInitialized : Bool) (physMemSize kernTextBegin kernTextEnd : Nat)
    (randoms : List Nat) : Option (LayoutManager × Bool) := do
  let ranges ← randomizedRanges physMemSize kernTextBegin randoms
  new smInstanceInitialized ranges kernTextBegin kernTextEnd

/-- `LayoutManager::new_plain`. -/
def newPlain (smInstanceInitialized : Bool) (physMemSize kernTextBegin kernTextEnd : Nat) :
    Option (LayoutManager × Bool) := do
  let ranges ← plainRanges physMemSize kernTextBegin
  new smInstanceInitialized ranges kernTextBegin kernTextEnd

/-- `phys_addr_to_virt_addr`. -/
def physAddrToVirtAddr (self : LayoutManager) (physAddr : Nat) : Nat :=
  physAddr + self.physMemMappingRange.start

end LayoutManager

end Kernel
end MeetixOs
