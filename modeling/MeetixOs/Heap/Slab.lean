import MeetixOs.Heap.LinkedList

/-!
# The slab allocator of `LibHeap`

A model of `slab.rs`.  A `FreeBlockList` is the singly linked list of free blocks, first
block first; the nodes live inside the blocks themselves, so the list is the list of their
addresses.  `m_count` is kept by `push` and `pop` as the length of that list, and is the
length here.

* `FreeBlockList.extend` is the loop that pushes the blocks of an area, last block first;
  `extend_blocks` says that the first block of the area ends up first.
* `Slab blockSize` is `Slab<BLOCK_SIZE>`: `allocate` pops, `deallocate` pushes,
  `addRegion` cuts an area into whole blocks and returns the bytes left over.

**Results.**
* `FreeBlockList.extend_blocks`: the blocks of an area, in address order, before the old
  ones.
* `Slab.addRegion_spec`: what `add_region` adds and what it returns.
-/

namespace MeetixOs
namespace Heap

/-- `FreeBlockList`: the addresses of the free blocks, `m_first` first. -/
structure FreeBlockList where
  blocks : List Nat
  deriving DecidableEq, Repr

namespace FreeBlockList

/-- `FreeBlockList::push`. -/
def push (self : FreeBlockList) (slabBlock : Nat) : FreeBlockList :=
  ⟨slabBlock :: self.blocks⟩

/-- `FreeBlockList::pop`: the first block, if any. -/
def pop (self : FreeBlockList) : FreeBlockList × Option Nat :=
  match self.blocks with
  | [] => (self, none)
  | slabBlock :: rest => (⟨rest⟩, some slabBlock)

/-- `FreeBlockList::extend`: `for i in (0..area_size / block_size).rev()` pushes the block
at `start_area_addr + i * block_size`. -/
def extend (self : FreeBlockList) (startAreaAddr areaSize blockSize : Nat) : FreeBlockList :=
  (List.range (areaSize / blockSize)).reverse.foldl
    (fun l i => l.push (startAreaAddr + i * blockSize)) self

/-- `FreeBlockList::new`. -/
def new (startAreaAddr areaSize blockSize : Nat) : FreeBlockList :=
  (⟨[]⟩ : FreeBlockList).extend startAreaAddr areaSize blockSize

/-- `FreeBlockList::count`: `m_count`. -/
def count (self : FreeBlockList) : Nat := self.blocks.length

@[simp] theorem push_blocks (self : FreeBlockList) (b : Nat) :
    (self.push b).blocks = b :: self.blocks := rfl

/-- `extend` puts the blocks of the area first, lowest address first. -/
theorem extend_blocks (self : FreeBlockList) (start size blockSize : Nat) :
    (self.extend start size blockSize).blocks =
      (List.range (size / blockSize)).map (fun i => start + i * blockSize) ++ self.blocks := by
  unfold extend
  generalize size / blockSize = n
  induction n generalizing self with
  | zero => rfl
  | succ n ih =>
      rw [List.range_succ, List.reverse_append, List.foldl_append, List.reverse_singleton,
        List.foldl_cons, List.foldl_nil, ih, List.map_append]
      simp

theorem new_blocks (start size blockSize : Nat) :
    (new start size blockSize).blocks =
      (List.range (size / blockSize)).map (fun i => start + i * blockSize) := by
  simp [new, extend_blocks]

end FreeBlockList

/-- `Slab<BLOCK_SIZE>`. -/
structure Slab (blockSize : Nat) where
  freeBlocks : FreeBlockList
  deriving DecidableEq, Repr

namespace Slab

variable {blockSize : Nat}

/-- `Slab::PREFERRED_EXTEND_SIZE`: four blocks. -/
def preferredExtendSize (blockSize : Nat) : Nat := blockSize * 4

/-- `Slab::new`. -/
def new (blockSize startAreaAddr areaSize : Nat) : Slab blockSize :=
  ⟨FreeBlockList.new startAreaAddr areaSize blockSize⟩

/-- `Slab::with_preferred_size`. -/
def withPreferredSize (blockSize startAreaAddr : Nat) : Slab blockSize :=
  new blockSize startAreaAddr (preferredExtendSize blockSize)

/-- `Slab::allocate`: pops the first free block. -/
def allocate (self : Slab blockSize) : Slab blockSize × Option Nat :=
  (⟨self.freeBlocks.pop.1⟩, self.freeBlocks.pop.2)

/-- `Slab::deallocate`: pushes the block back. -/
def deallocate (self : Slab blockSize) (ptr : Nat) : Slab blockSize :=
  ⟨self.freeBlocks.push ptr⟩

/-- `THeapPool::add_region` for `Slab`: the area cut down to whole blocks goes to the free
list, and the bytes after it are returned. -/
def addRegion (self : Slab blockSize) (startAreaPtr areaSize : Nat) :
    Slab blockSize × Option (Nat × Nat) :=
  let exceedingAreaSize := areaSize % blockSize
  let areaSize := if exceedingAreaSize > 0 then areaSize - exceedingAreaSize else areaSize
  (⟨self.freeBlocks.extend startAreaPtr areaSize blockSize⟩,
    if exceedingAreaSize > 0 then some (startAreaPtr + areaSize, exceedingAreaSize) else none)

/-- The free blocks of a slab built by `with_preferred_size`. -/
theorem withPreferredSize_blocks (start : Nat) (hb : 0 < blockSize) :
    (withPreferredSize blockSize start).freeBlocks.blocks =
      (List.range 4).map (fun i => start + i * blockSize) := by
  rw [withPreferredSize, new, FreeBlockList.new_blocks, preferredExtendSize,
    Nat.mul_div_cancel_left _ hb]

/-- `allocate` hands out the first free block and leaves the others. -/
theorem allocate_eq (self : Slab blockSize) :
    self.allocate = match self.freeBlocks.blocks with
      | [] => (self, none)
      | b :: rest => (⟨⟨rest⟩⟩, some b) := by
  unfold allocate FreeBlockList.pop
  cases self.freeBlocks.blocks <;> rfl

/-- `add_region` adds the whole blocks of the area, first block first, and returns the
bytes after the last whole block. -/
theorem addRegion_spec (self : Slab blockSize) (start size : Nat) :
    (self.addRegion start size).1.freeBlocks.blocks =
      (List.range (size / blockSize)).map (fun i => start + i * blockSize) ++
        self.freeBlocks.blocks ∧
    (self.addRegion start size).2 =
      if size % blockSize = 0 then none
      else some (start + (size - size % blockSize), size % blockSize) := by
  have hdiv : (size - size % blockSize) / blockSize = size / blockSize := by
    have hsub : size - size % blockSize = blockSize * (size / blockSize) := by
      have := Nat.mod_add_div size blockSize
      omega
    rcases Nat.eq_zero_or_pos blockSize with h0 | hpos
    · simp [h0]
    · rw [hsub, Nat.mul_div_cancel_left _ hpos]
  unfold addRegion
  by_cases hz : size % blockSize = 0
  · simp [hz, FreeBlockList.extend_blocks]
  · have hpos : size % blockSize > 0 := Nat.pos_of_ne_zero hz
    simp only [hpos, if_true, hz, if_false, FreeBlockList.extend_blocks, hdiv]
    exact ⟨trivial, trivial⟩

end Slab

end Heap
end MeetixOs
