import MeetixOs.Heap.Heap
import MeetixOs.Heap.LinkedListRun
import MeetixOs.Lib.Spans

/-!
# Runs of the `Heap`

A run of `Heap` of `lib.rs` starts with `Heap::new` and goes on with any sequence of
`allocate(layout)` and of `deallocate(ptr, layout)` of a block the heap handed out, with the
layout it was asked for.  `allocate` refills a pool from the `HeapMemorySupplier` as often as
it needs to.  The supplier is any function that keeps the promise of its documentation
(`Supplies`): each answer is a new area, taken from what it has not handed out yet, whose
size is a whole number of pages and at least the request.

The eight slabs are seen through one view: `slabBlocks sel` is the free list of the slab that
`sel` names, and the free blocks of all slabs, as spans of memory, are `slabSpans`.

**Results.**
* `HeapState.InvOn`: the free slab blocks, the holes of the linked list and the live blocks
  share no byte and cover exactly the areas the supplier handed out; the counters are the
  bytes of those areas and the bytes asked for by the live blocks.
* `InvOn.allocate`, `InvOn.deallocate`: `Heap::allocate`, through every refill, and
  `Heap::deallocate` keep it.
* `heap_run_invariant`: over every run, the live blocks never overlap, each has at least the
  bytes it was asked for and lies in memory the supplier handed out and no longer has, none of
  its bytes is free, nothing is lost, and `memory_available` does not underflow.
* `heap_deallocate_no_panic`: over every run, `deallocate` of a live block does not panic.
* `heap_linkedList_blocks_aligned`: over every run, the blocks of the linked list are aligned
  as they were asked to be, which the slabs do not promise.
-/

set_option linter.dupNamespace false

namespace MeetixOs
namespace Heap

open Spans

namespace Slab

variable {k : Nat} (self : Slab k)

theorem allocate_fst : self.allocate.1 = ⟨⟨self.freeBlocks.blocks.tail⟩⟩ := by
  rw [allocate_eq]
  obtain ⟨⟨blocks⟩⟩ := self
  cases blocks <;> rfl

theorem allocate_snd : self.allocate.2 = self.freeBlocks.blocks.head? := by
  rw [allocate_eq]
  obtain ⟨⟨blocks⟩⟩ := self
  cases blocks <;> rfl

theorem addRegion_fst (p n : Nat) :
    (self.addRegion p n).1 =
      ⟨⟨(List.range (n / k)).map (fun i => p + i * k) ++ self.freeBlocks.blocks⟩⟩ := by
  rw [← (addRegion_spec self p n).1]

end Slab

namespace AllocSelector

/-- The block size of a slab; `0` for the linked list. -/
def slabSize (sel : AllocSelector) : Nat := sel.blockSize.getD 0

/-- The eight slabs, from the smallest block size up: the order of `Heap::new`. -/
def slabs : List AllocSelector :=
  [slab64, slab128, slab256, slab512, slab1024, slab2048, slab4096, slab8192]

theorem slabs_nodup : slabs.Nodup := by decide

theorem mem_slabs {sel : AllocSelector} : sel ∈ slabs ↔ sel ≠ linkedList := by
  cases sel <;> decide

theorem blockSize_of_ne {sel : AllocSelector} (hsel : sel ≠ linkedList) :
    sel.blockSize = some sel.slabSize := by
  cases sel <;> first | rfl | exact absurd rfl hsel

/-- A whole number of pages is a whole number of blocks of each slab, but for the 8192-byte
slab, which may have one page over. -/
theorem mod_slabSize_of_page {sel : AllocSelector} (hsel : sel ≠ linkedList) {n : Nat}
    (hn : 4096 ∣ n) : n % sel.slabSize = 0 ∨ n % sel.slabSize = 4096 := by
  cases sel <;> first
    | exact absurd rfl hsel
    | (simp only [slabSize, blockSize, Option.getD_some]; omega)

end AllocSelector

namespace Heap

/-- The free blocks of the slab that `sel` names; none for the linked list. -/
def slabBlocks (self : Heap) : AllocSelector → List Nat
  | .slab64 => self.slab64.freeBlocks.blocks
  | .slab128 => self.slab128.freeBlocks.blocks
  | .slab256 => self.slab256.freeBlocks.blocks
  | .slab512 => self.slab512.freeBlocks.blocks
  | .slab1024 => self.slab1024.freeBlocks.blocks
  | .slab2048 => self.slab2048.freeBlocks.blocks
  | .slab4096 => self.slab4096.freeBlocks.blocks
  | .slab8192 => self.slab8192.freeBlocks.blocks
  | .linkedList => []

/-- The heap with the free blocks of the slab that `sel` names replaced by `l`. -/
def setSlabBlocks (self : Heap) : AllocSelector → List Nat → Heap
  | .slab64, l => { self with slab64 := ⟨⟨l⟩⟩ }
  | .slab128, l => { self with slab128 := ⟨⟨l⟩⟩ }
  | .slab256, l => { self with slab256 := ⟨⟨l⟩⟩ }
  | .slab512, l => { self with slab512 := ⟨⟨l⟩⟩ }
  | .slab1024, l => { self with slab1024 := ⟨⟨l⟩⟩ }
  | .slab2048, l => { self with slab2048 := ⟨⟨l⟩⟩ }
  | .slab4096, l => { self with slab4096 := ⟨⟨l⟩⟩ }
  | .slab8192, l => { self with slab8192 := ⟨⟨l⟩⟩ }
  | .linkedList, _ => self

/-- The free blocks of all slabs, as spans. -/
def slabSpans (self : Heap) : List (Nat × Nat) :=
  AllocSelector.slabs.flatMap fun sel => (self.slabBlocks sel).map fun b => (b, sel.slabSize)

section View

variable (self : Heap) (sel : AllocSelector) (l : List Nat)

theorem slabBlocks_setSlabBlocks (hsel : sel ≠ .linkedList) :
    (self.setSlabBlocks sel l).slabBlocks = Function.update self.slabBlocks sel l := by
  funext sel'
  cases sel <;> cases sel' <;> first | rfl | exact absurd rfl hsel

@[simp] theorem linkedList_setSlabBlocks : (self.setSlabBlocks sel l).linkedList = self.linkedList := by
  cases sel <;> rfl

@[simp] theorem inUseMem_setSlabBlocks : (self.setSlabBlocks sel l).inUseMem = self.inUseMem := by
  cases sel <;> rfl

@[simp] theorem memFromSupplier_setSlabBlocks :
    (self.setSlabBlocks sel l).memFromSupplier = self.memFromSupplier := by
  cases sel <;> rfl

theorem setSlabBlocks_self : self.setSlabBlocks sel (self.slabBlocks sel) = self := by
  cases sel <;> rfl

theorem setSlabBlocks_setSlabBlocks (l' : List Nat) :
    (self.setSlabBlocks sel l).setSlabBlocks sel l' = self.setSlabBlocks sel l' := by
  cases sel <;> rfl

/-- One try on a slab pops its first free block. -/
theorem allocateWith_slab (hsel : sel ≠ .linkedList) (layout : Layout) :
    self.allocateWith sel layout =
      some (self.setSlabBlocks sel (self.slabBlocks sel).tail, (self.slabBlocks sel).head?) := by
  cases sel <;> first
    | exact absurd rfl hsel
    | simp only [allocateWith, Slab.allocate_fst, Slab.allocate_snd]; rfl

/-- A region added to a slab: its whole blocks go in front of the free list, the bytes
after them come back. -/
theorem addRegionTo_slab (hsel : sel ≠ .linkedList) (p n : Nat) :
    self.addRegionTo sel p n =
      some (self.setSlabBlocks sel
          ((List.range (n / sel.slabSize)).map (fun i => p + i * sel.slabSize) ++
            self.slabBlocks sel),
        if n % sel.slabSize = 0 then none
        else some (p + (n - n % sel.slabSize), n % sel.slabSize)) := by
  cases sel <;> first
    | exact absurd rfl hsel
    | simp only [addRegionTo, Slab.addRegion_fst, (Slab.addRegion_spec _ p n).2]; rfl

/-- `Heap::deallocate`: a slab block goes back in front of its free list, a linked-list block
to the list; then the in-use counter drops by the layout's size. -/
theorem deallocate_eq (nnPtr : Nat) (layout : Layout) :
    self.deallocate nnPtr layout =
      ((if AllocSelector.forLayout layout = .linkedList then
          (self.linkedList.deallocate nnPtr layout).map fun l => { self with linkedList := l }
        else some (self.setSlabBlocks (AllocSelector.forLayout layout)
          (nnPtr :: self.slabBlocks (AllocSelector.forLayout layout)))).bind fun h =>
        (checkedSub h.inUseMem layout.size).map fun inUse => { h with inUseMem := inUse }) := by
  unfold deallocate
  cases AllocSelector.forLayout layout <;> rfl

/-- The free slab blocks when the slab `sel` gains the blocks `x` in front. -/
theorem slabSpans_setSlabBlocks_append (hsel : sel ≠ .linkedList) (x : List Nat) :
    (self.setSlabBlocks sel (x ++ self.slabBlocks sel)).slabSpans.Perm
      (x.map (fun b => (b, sel.slabSize)) ++ self.slabSpans) := by
  unfold slabSpans
  refine perm_flatMap_of_eq_off AllocSelector.slabs_nodup (AllocSelector.mem_slabs.mpr hsel)
    (fun c hc => ?_) ?_
  · rw [slabBlocks_setSlabBlocks _ _ _ hsel, Function.update_of_ne hc]
  · rw [slabBlocks_setSlabBlocks _ _ _ hsel, Function.update_self, List.map_append]

/-- The free slab blocks when the slab `sel` gives up its first block. -/
theorem slabSpans_pop (hsel : sel ≠ .linkedList) {b : Nat} {rest : List Nat}
    (hb : self.slabBlocks sel = b :: rest) :
    self.slabSpans.Perm ((b, sel.slabSize) :: (self.setSlabBlocks sel rest).slabSpans) := by
  have hrest : (self.setSlabBlocks sel rest).slabBlocks sel = rest := by
    rw [slabBlocks_setSlabBlocks _ _ _ hsel, Function.update_self]
  have hback := slabSpans_setSlabBlocks_append (self.setSlabBlocks sel rest) sel hsel [b]
  rw [hrest, setSlabBlocks_setSlabBlocks, List.singleton_append, ← hb, setSlabBlocks_self] at hback
  exact hback

end View

section Calls

variable {self h' : Heap} {sel : AllocSelector} {layout : Layout}

/-- What one try of `Heap::allocate` on the pool `sel` can do. -/
theorem allocateWith_cases {r : Option Nat} (ha : self.allocateWith sel layout = some (h', r)) :
    (sel = .linkedList ∧ ∃ l, self.linkedList.allocate layout = some (l, r) ∧
      h' = { self with linkedList := l }) ∨
    (sel ≠ .linkedList ∧ h' = self.setSlabBlocks sel (self.slabBlocks sel).tail ∧
      r = (self.slabBlocks sel).head?) := by
  by_cases hsel : sel = .linkedList
  · subst hsel
    simp only [allocateWith, Option.map_eq_some_iff, Prod.mk.injEq] at ha
    obtain ⟨⟨l, r'⟩, hl, rfl, rfl⟩ := ha
    exact .inl ⟨rfl, l, hl, rfl⟩
  · rw [allocateWith_slab self sel hsel, Option.some.injEq, Prod.mk.injEq] at ha
    exact .inr ⟨hsel, ha.1.symm, ha.2.symm⟩

/-- A try that finds nothing leaves the heap as it was. -/
theorem allocateWith_none (hl : self.linkedList.Inv)
    (ha : self.allocateWith sel layout = some (h', none)) : h' = self := by
  rcases allocateWith_cases ha with ⟨-, l, hal, rfl⟩ | ⟨-, rfl, hhead⟩
  · obtain ⟨req, hreq⟩ := LinkedList.alignLayout_of_allocate hal
    obtain ⟨l', r, heq, -, hnone, -⟩ := LinkedList.allocate_spec hl hreq
    rw [heq, Option.some.injEq, Prod.mk.injEq] at hal
    obtain ⟨rfl, rfl⟩ := hal
    rw [hnone rfl]
  · have hnil := List.head?_eq_none_iff.mp hhead.symm
    rw [hnil, List.tail_nil, ← hnil, setSlabBlocks_self]

/-- What `Heap::refill_mem_pool` can do: the supplier refuses and nothing changes, or it
answers with an area, which goes to the pool `sel`, and the bytes the pool returns go to the
linked list. -/
theorem refillMemPool_cases {σ : Type} {memSupplier : HeapMemorySupplier σ} {st st' : σ}
    {b : Bool} (hr : self.refillMemPool memSupplier st sel layout = some ((h', st'), b)) :
    (memSupplier st (max sel.preferredExtendSize layout.size) = (none, st') ∧ h' = self) ∨
    ∃ p n, memSupplier st (max sel.preferredExtendSize layout.size) = (some (p, n), st') ∧
      ∃ h₁ e, ({ self with memFromSupplier := self.memFromSupplier + n } : Heap).addRegionTo
          sel p n = some (h₁, e) ∧
        ((e = none ∧ h' = h₁) ∨ ∃ q m l r, e = some (q, m) ∧
          h₁.linkedList.addRegion q m = some (l, r) ∧ h' = { h₁ with linkedList := l }) := by
  dsimp only [refillMemPool] at hr
  rcases hsup : memSupplier st (max sel.preferredExtendSize layout.size) with
    ⟨_ | ⟨p, n⟩, st₁⟩ <;> rw [hsup] at hr
  · simp only [Option.some.injEq, Prod.mk.injEq] at hr
    exact .inl ⟨by rw [hr.1.2], hr.1.1.symm⟩
  · refine .inr ⟨p, n, ?_⟩
    simp only at hr
    split at hr
    · cases hr
    · rename_i h₁ hadd
      simp only [Option.some.injEq, Prod.mk.injEq] at hr
      obtain ⟨⟨rfl, rfl⟩, -⟩ := hr
      exact ⟨rfl, h₁, none, hadd, .inl ⟨rfl, rfl⟩⟩
    · rename_i h₁ q m hadd
      obtain ⟨⟨l, r⟩, hl, hh⟩ := Option.map_eq_some_iff.mp hr
      simp only [Prod.mk.injEq] at hh
      obtain ⟨⟨rfl, rfl⟩, -⟩ := hh
      exact ⟨rfl, h₁, some (q, m), hadd, .inr ⟨q, m, l, r, rfl, hl, rfl⟩⟩

/-- The four blocks of a slab made by `with_preferred_size`, one after the other. -/
theorem chain_withPreferredSize (a : Nat) {k : Nat} (hk : 0 < k) :
    Chain a ((Slab.withPreferredSize k a).freeBlocks.blocks.map fun b => (b, k))
      (a + Slab.preferredExtendSize k) := by
  rw [Slab.withPreferredSize_blocks a hk, List.map_map, Slab.preferredExtendSize, Nat.mul_comm]
  exact chain_range a k 4

/-- What `Heap::new` builds on the first area of the supplier: the free blocks of the eight
slabs one after the other from the start of the area, `65280` bytes in all, and the linked list
on the rest. -/
theorem new_spec {σ : Type} {memSupplier : HeapMemorySupplier σ} {st st' : σ}
    (hnew : new memSupplier st = some (some self, st')) :
    ∃ p n, memSupplier st initialRequestedMemAmount = (some (p, n), st') ∧
      Chain p self.slabSpans (p + 65280) ∧ 65280 ≤ n ∧
      LinkedList.new (p + 65280) (n - 65280) = some self.linkedList ∧
      self.inUseMem = 0 ∧ self.memFromSupplier = n := by
  dsimp only [new] at hnew
  rcases hsup : memSupplier st initialRequestedMemAmount with ⟨_ | ⟨p, n⟩, st₁⟩ <;>
    rw [hsup] at hnew
  · simp at hnew
  · have hend : p + Slab.preferredExtendSize 64 + Slab.preferredExtendSize 128 +
        Slab.preferredExtendSize 256 + Slab.preferredExtendSize 512 +
        Slab.preferredExtendSize 1024 + Slab.preferredExtendSize 2048 +
        Slab.preferredExtendSize 4096 + Slab.preferredExtendSize 8192 = p + 65280 := by
      unfold Slab.preferredExtendSize
      omega
    simp only [hend, Nat.add_sub_cancel_left] at hnew
    split at hnew
    · cases hnew
    · rename_i size hsize
      obtain ⟨hle, rfl⟩ := checkedSub_eq_some.mp hsize
      obtain ⟨l, hl, hh⟩ := Option.map_eq_some_iff.mp hnew
      simp only [Option.some.injEq, Prod.mk.injEq] at hh
      obtain ⟨rfl, rfl⟩ := hh
      refine ⟨p, n, rfl, ?_, hle, hl, rfl, rfl⟩
      simp only [slabSpans, AllocSelector.slabs, List.flatMap_cons, List.flatMap_nil,
        List.append_nil, slabBlocks, AllocSelector.slabSize, AllocSelector.blockSize,
        Option.getD_some]
      rw [← hend]
      exact (chain_withPreferredSize _ (by decide)).append <|
        (chain_withPreferredSize _ (by decide)).append <|
        (chain_withPreferredSize _ (by decide)).append <|
        (chain_withPreferredSize _ (by decide)).append <|
        (chain_withPreferredSize _ (by decide)).append <|
        (chain_withPreferredSize _ (by decide)).append <|
        (chain_withPreferredSize _ (by decide)).append <|
        chain_withPreferredSize _ (by decide)

end Calls

end Heap

/-! ### The free memory of the linked list -/

/-- The holes of a list as spans. -/
def holeSpans (holes : List HoleInfo) : List (Nat × Nat) := holes.map fun h => (h.addr, h.size)

@[simp] theorem cells_holeSpans (holes : List HoleInfo) :
    cells (holeSpans holes) = holeCells holes := by
  induction holes with
  | nil => simp [holeSpans]
  | cons h l ih =>
    rw [holeSpans, List.map_cons, cells_cons, ← holeSpans, ih, holeCells_cons]
    rfl

@[simp] theorem bytes_holeSpans (holes : List HoleInfo) :
    bytes (holeSpans holes) = holeBytes holes := by
  simp [holeSpans, bytes, holeBytes, Function.comp_def]

namespace LinkedList

variable {l l' : LinkedList} {rest R : List (Nat × Nat)}

/-- The holes of a list in the invariant share no byte. -/
theorem Inv.disj (hl : l.Inv) : Disj (holeSpans l.holes) := by
  unfold Disj holeSpans
  rw [List.pairwise_map]
  exact (List.pairwise_cons.mp hl.ordered.pairwise).2.imp_of_mem
    fun hm _ hb => disjoint_of_before (hl.good hm) hb

/-- `allocate` cuts the block out of the holes: the free memory of the list shrinks by the
block, which no other piece of memory overlaps. -/
theorem tiles_allocate (hl : l.Inv) (ht : Tiles (holeSpans l.holes ++ rest) R)
    {layout : Layout} {p : Nat} (ha : l.allocate layout = some (l', some p)) :
    ∃ req, alignLayout layout = some req ∧ l'.Inv ∧ layout.align ∣ p ∧ holeAlign ∣ p ∧ 0 < p ∧
      Tiles (holeSpans l'.holes ++ (p, req.size) :: rest) R := by
  obtain ⟨req, hreq⟩ := alignLayout_of_allocate ha
  obtain ⟨l₁, r, heq, hl₁, -, hsome⟩ := allocate_spec hl hreq
  rw [heq, Option.some.injEq, Prod.mk.injEq] at ha
  obtain ⟨rfl, rfl⟩ := ha
  obtain ⟨halign, hhal, hpos, hsub, hcells, hbytes⟩ := hsome p rfl
  refine ⟨req, hreq, hl₁, halign, hhal, hpos, ht.take hl₁.disj ?_ ?_ ?_⟩
  · rw [cells_holeSpans]
    exact hsub
  · rw [cells_holeSpans, cells_holeSpans]
    exact hcells
  · rw [bytes_holeSpans, bytes_holeSpans]
    exact hbytes

/-- `deallocate` of a block that no hole overlaps does not panic and gives its bytes to the
holes. -/
theorem tiles_deallocate (hl : l.Inv) {layout req : Layout} (hreq : alignLayout layout = some req)
    {p : Nat} (hp : 0 < p) (hpal : holeAlign ∣ p)
    (ht : Tiles (holeSpans l.holes ++ (p, req.size) :: rest) R) :
    ∃ l', l.deallocate p layout = some l' ∧ l'.Inv ∧ Tiles (holeSpans l'.holes ++ rest) R := by
  have hd := ht.disj.disjoint_mid
  rw [cells_holeSpans] at hd
  obtain ⟨l', heq, hl', hcells, hbytes⟩ := deallocate_block_spec hl hreq hp hpal hd
  refine ⟨l', heq, hl', ht.give hl'.disj ?_ ?_⟩
  · rw [cells_holeSpans, cells_holeSpans]
    exact hcells
  · rw [bytes_holeSpans, bytes_holeSpans]
    exact hbytes

/-- `add_region` of an aligned area that no hole overlaps gives it to the holes. -/
theorem tiles_addRegion (hl : l.Inv) {p n : Nat} {r : Option (Nat × Nat)} (hp : 0 < p)
    (hpal : holeAlign ∣ p) (hnal : holeAlign ∣ n) (hn : blockSize ≤ n)
    (ht : Tiles (holeSpans l.holes ++ (p, n) :: rest) R) (ha : l.addRegion p n = some (l', r)) :
    l'.Inv ∧ Tiles (holeSpans l'.holes ++ rest) R := by
  have hreq := alignLayout_region hnal hn (size_le_of_addRegion ha)
  obtain ⟨l₁, heq, hl₁, ht₁⟩ := tiles_deallocate hl hreq hp hpal ht
  simp only [addRegion, heq, Option.map_some, Option.some.injEq, Prod.mk.injEq] at ha
  obtain ⟨rfl, -⟩ := ha
  exact ⟨hl₁, ht₁⟩

end LinkedList

/-! ### The blocks a heap hands out -/

namespace Block

/-- The bytes the heap took for a block: a whole slab block, or
`align_layout(layout).size()` bytes of the linked list. -/
def heapSpan (b : Block) : Nat :=
  match (AllocSelector.forLayout b.layout).blockSize with
  | some k => k
  | none => b.span

/-- The memory a block takes. -/
def piece (b : Block) : Nat × Nat := (b.ptr, b.heapSpan)

theorem heapSpan_of_slab {b : Block} (h : AllocSelector.forLayout b.layout ≠ .linkedList) :
    b.heapSpan = (AllocSelector.forLayout b.layout).slabSize := by
  rw [heapSpan, AllocSelector.blockSize_of_ne h]

theorem heapSpan_of_linkedList {b : Block} (h : AllocSelector.forLayout b.layout = .linkedList) :
    b.heapSpan = b.span := by
  rw [heapSpan, h]
  rfl

end Block

namespace Heap

/-- The free memory of a heap: the holes of its linked list and the free blocks of its
slabs. -/
def freeSpans (self : Heap) : List (Nat × Nat) := holeSpans self.linkedList.holes ++ self.slabSpans

/-- The free memory of a heap and the blocks `live` it handed out. -/
def pieces (self : Heap) (live : List Block) : List (Nat × Nat) :=
  holeSpans self.linkedList.holes ++ (self.slabSpans ++ live.map Block.piece)

theorem pieces_eq (self : Heap) (live : List Block) :
    self.pieces live = self.freeSpans ++ live.map Block.piece := by
  rw [pieces, freeSpans, List.append_assoc]

end Heap

/-! ### The supplier and the invariant -/

section Invariant

variable {σ : Type}

/-- What a `HeapMemorySupplier` promises, over the memory `avail st` it has not handed out in
the state `st`: an answer is an area at a non-null address aligned for the holes, of a whole
number of pages and at least the bytes asked for, taken out of `avail`; a refusal hands out
nothing. -/
structure Supplies (memSupplier : HeapMemorySupplier σ) (avail : σ → Set Nat) : Prop where
  some : ∀ {st n p size st'}, memSupplier st n = (some (p, size), st') →
    0 < p ∧ holeAlign ∣ p ∧ 4096 ∣ size ∧ n ≤ size ∧
      Set.Ico p (p + size) ⊆ avail st ∧ avail st' ⊆ avail st \ Set.Ico p (p + size)
  none : ∀ {st n st'}, memSupplier st n = (none, st') → avail st' ⊆ avail st

/-- The invariant of a heap, its supplier in the state `st` and the blocks `live` it handed
out, over the areas `regions` the supplier answered with: the linked list keeps its own
invariant and can take its live blocks back; the free memory of both pools and the live blocks
tile the areas; the counters are the bytes of the areas and the bytes asked for by the live
blocks; and the supplier will not hand the areas out again. -/
structure Heap.InvOn (heap : Heap) (avail : σ → Set Nat) (st : σ) (live : List Block)
    (regions : List (Nat × Nat)) : Prop where
  list : heap.linkedList.Inv
  listBlocks : ∀ b ∈ live, AllocSelector.forLayout b.layout = .linkedList →
    (alignLayout b.layout).isSome ∧ b.layout.align ∣ b.ptr ∧ holeAlign ∣ b.ptr ∧ 0 < b.ptr
  tiles : Tiles (heap.pieces live) regions
  inUse : heap.inUseMem = (live.map fun b => b.layout.size).sum
  supplied : heap.memFromSupplier = bytes regions
  fresh : Disjoint (cells regions) (avail st)

namespace Heap.InvOn

variable {avail : σ → Set Nat} {self h' : Heap} {st : σ} {live : List Block}
  {R : List (Nat × Nat)} {layout : Layout}

/-- A block found by a try of `Heap::allocate` is cut out of the free memory of its pool and
counted as in use. -/
theorem allocateWith_some (hs : self.InvOn avail st live R) {p : Nat}
    (ha : self.allocateWith (AllocSelector.forLayout layout) layout = some (h', some p)) :
    Heap.InvOn { h' with inUseMem := h'.inUseMem + layout.size } avail st
      (⟨p, layout⟩ :: live) R := by
  have hinUse : ((⟨p, layout⟩ :: live).map fun b : Block => b.layout.size).sum =
      self.inUseMem + layout.size := by
    rw [List.map_cons, List.sum_cons, hs.inUse, Nat.add_comm]
  rcases Heap.allocateWith_cases ha with ⟨hsel, l, hl, rfl⟩ | ⟨hsel, rfl, hhead⟩
  · obtain ⟨req, hreq, hl', halign, hhal, hpos, ht⟩ :=
      LinkedList.tiles_allocate hs.list hs.tiles hl
    have hpiece : Block.piece ⟨p, layout⟩ = (p, req.size) := by
      rw [Block.piece, Block.heapSpan_of_linkedList hsel, Block.span_eq hreq]
    refine ⟨hl', ?_, ?_, hinUse.symm, hs.supplied, hs.fresh⟩
    · intro b hb hbsel
      rcases List.mem_cons.mp hb with rfl | hb
      · exact ⟨by simp [hreq], halign, hhal, hpos⟩
      · exact hs.listBlocks b hb hbsel
    · show Tiles (holeSpans l.holes ++
        (self.slabSpans ++ Block.piece ⟨p, layout⟩ :: live.map Block.piece)) R
      rw [hpiece]
      exact ht.perm (List.perm_middle.symm.append_left _)
  · obtain ⟨rest, hb⟩ := List.head?_eq_some_iff.mp hhead.symm
    have hpiece : Block.piece ⟨p, layout⟩ = (p, (AllocSelector.forLayout layout).slabSize) := by
      rw [Block.piece, Block.heapSpan_of_slab hsel]
    refine ⟨?_, ?_, ?_, ?_, ?_, hs.fresh⟩
    · show (self.setSlabBlocks _ _).linkedList.Inv
      rw [Heap.linkedList_setSlabBlocks]
      exact hs.list
    · intro b hb hbsel
      rcases List.mem_cons.mp hb with rfl | hb
      · exact absurd hbsel hsel
      · exact hs.listBlocks b hb hbsel
    · show Tiles (holeSpans (self.setSlabBlocks _ _).linkedList.holes ++
        ((self.setSlabBlocks _ _).slabSpans ++ Block.piece ⟨p, layout⟩ :: live.map Block.piece)) R
      rw [Heap.linkedList_setSlabBlocks, hb, List.tail_cons, hpiece]
      refine hs.tiles.perm (List.Perm.append_left _ ?_)
      exact ((Heap.slabSpans_pop self _ hsel hb).append_right _).trans List.perm_middle.symm
    · show (self.setSlabBlocks _ _).inUseMem + layout.size = _
      rw [Heap.inUseMem_setSlabBlocks, hinUse]
    · show (self.setSlabBlocks _ _).memFromSupplier = _
      rw [Heap.memFromSupplier_setSlabBlocks]
      exact hs.supplied

/-- An area the supplier answered with, given to the linked list. -/
theorem addArea_linkedList (hs : self.InvOn avail st live R) {p n : Nat} {st' : σ}
    (hp : 0 < p) (hpal : holeAlign ∣ p) (hpage : 4096 ∣ n) (hn : blockSize ≤ n)
    (hd : Disjoint (span (p, n)) (cells R)) (hfresh : Disjoint (cells ((p, n) :: R)) (avail st'))
    {l : LinkedList} {r : Option (Nat × Nat)} (ha : self.linkedList.addRegion p n = some (l, r)) :
    Heap.InvOn { self with memFromSupplier := self.memFromSupplier + n, linkedList := l } avail st'
      live ((p, n) :: R) := by
  have ht₀ : Tiles ((p, n) :: (holeSpans self.linkedList.holes ++
      (self.slabSpans ++ live.map Block.piece))) ((p, n) :: R) :=
    hs.tiles.add (tiles_singleton (p, n)) hd
  have ht := ht₀.perm List.perm_middle.symm
  obtain ⟨hl, ht'⟩ := LinkedList.tiles_addRegion hs.list hp hpal
    (Nat.dvd_trans (by decide) hpage) hn ht ha
  refine ⟨hl, hs.listBlocks, ht', hs.inUse, ?_, hfresh⟩
  show self.memFromSupplier + n = _
  rw [hs.supplied, bytes_cons, Nat.add_comm]

/-- An area the supplier answered with, given to the slab `sel`: its whole blocks go in front of
the slab's free list, and the page over, if any, goes to the linked list. -/
theorem addArea_slab (hs : self.InvOn avail st live R) {sel : AllocSelector}
    (hsel : sel ≠ .linkedList) {p n : Nat} {st' : σ} (hp : 0 < p) (hpal : holeAlign ∣ p)
    (hpage : 4096 ∣ n) (hd : Disjoint (span (p, n)) (cells R))
    (hfresh : Disjoint (cells ((p, n) :: R)) (avail st')) {h₁ : Heap} {e : Option (Nat × Nat)}
    (hadd : ({ self with memFromSupplier := self.memFromSupplier + n } : Heap).addRegionTo sel p n =
      some (h₁, e))
    (he : (e = none ∧ h' = h₁) ∨ ∃ q m l r, e = some (q, m) ∧
      h₁.linkedList.addRegion q m = some (l, r) ∧ h' = { h₁ with linkedList := l }) :
    h'.InvOn avail st' live ((p, n) :: R) := by
  rw [Heap.addRegionTo_slab _ sel hsel, Option.some.injEq, Prod.mk.injEq] at hadd
  obtain ⟨rfl, rfl⟩ := hadd
  have hslab := Heap.slabSpans_setSlabBlocks_append
    ({ self with memFromSupplier := self.memFromSupplier + n } : Heap) sel hsel
    ((List.range (n / sel.slabSize)).map fun i => p + i * sel.slabSize)
  rw [List.map_map] at hslab
  have ht := (hs.tiles.add (chain_blocks p n).tiles hd).perm (perm_area hslab)
  have hsupplied : self.memFromSupplier + n = bytes ((p, n) :: R) := by
    rw [hs.supplied, bytes_cons, Nat.add_comm]
  rcases he with ⟨he, rfl⟩ | ⟨q, m, l, r, he, hl, rfl⟩
  · have h0 : n % sel.slabSize = 0 := by
      by_contra h0
      simp [h0] at he
    rw [if_pos h0, List.nil_append] at ht
    refine ⟨?_, hs.listBlocks, ?_, ?_, ?_, hfresh⟩
    · rw [Heap.linkedList_setSlabBlocks]
      exact hs.list
    · rw [Heap.pieces, Heap.linkedList_setSlabBlocks]
      exact ht
    · rw [Heap.inUseMem_setSlabBlocks]
      exact hs.inUse
    · rw [Heap.memFromSupplier_setSlabBlocks]
      exact hsupplied
  · have h0 : n % sel.slabSize ≠ 0 := fun h0 => by simp [h0] at he
    have h4096 : n % sel.slabSize = 4096 :=
      (AllocSelector.mod_slabSize_of_page hsel hpage).resolve_left h0
    rw [if_neg h0, h4096] at ht
    simp only [h4096, OfNat.ofNat_ne_zero, if_false, Option.some.injEq, Prod.mk.injEq] at he
    obtain ⟨rfl, rfl⟩ := he
    rw [Heap.linkedList_setSlabBlocks] at hl
    obtain ⟨hl', ht'⟩ := LinkedList.tiles_addRegion hs.list (by omega)
      (by unfold holeAlign at hpal ⊢; omega) (by decide) (by decide) ht hl
    exact ⟨hl', hs.listBlocks, ht', (Heap.inUseMem_setSlabBlocks _ _ _).trans hs.inUse,
      (Heap.memFromSupplier_setSlabBlocks _ _ _).trans hsupplied, hfresh⟩

/-- `Heap::refill_mem_pool` keeps the invariant, over the areas the supplier answered with. -/
theorem refill {memSupplier : HeapMemorySupplier σ} (hsup : Supplies memSupplier avail)
    (hs : self.InvOn avail st live R) {sel : AllocSelector} {st' : σ} {b : Bool}
    (hr : self.refillMemPool memSupplier st sel layout = some ((h', st'), b)) :
    ∃ R', h'.InvOn avail st' live R' := by
  rcases Heap.refillMemPool_cases hr with ⟨hnone, rfl⟩ | ⟨p, n, hsome, h₁, e, hadd, he⟩
  · exact ⟨R, { hs with fresh := hs.fresh.mono_right (hsup.none hnone) }⟩
  · obtain ⟨hp, hpal, hpage, hreq, hsub, hst'⟩ := hsup.some hsome
    have hd : Disjoint (span (p, n)) (cells R) := (hs.fresh.mono_right hsub).symm
    have hfresh : Disjoint (cells ((p, n) :: R)) (avail st') := by
      rw [cells_cons]
      exact Disjoint.union_left (Set.disjoint_of_subset_right hst' Set.disjoint_sdiff_right)
        (hs.fresh.mono_right (hst'.trans Set.sdiff_subset))
    refine ⟨(p, n) :: R, ?_⟩
    by_cases hsel : sel = .linkedList
    · subst hsel
      obtain ⟨⟨l, r⟩, hl, hh⟩ := Option.map_eq_some_iff.mp hadd
      obtain ⟨rfl, rfl⟩ := Prod.mk.inj hh
      have hr : r = none := by
        simp only [LinkedList.addRegion, Option.map_eq_some_iff, Prod.mk.injEq] at hl
        obtain ⟨_, _, _, rfl⟩ := hl
        rfl
      have hn : blockSize ≤ n := Nat.le_trans (by decide) (Nat.le_trans (le_max_left _ _) hreq)
      rcases he with ⟨-, rfl⟩ | ⟨q, m, l', r', he, -⟩
      · exact addArea_linkedList hs hp hpal hpage hn hd hfresh hl
      · exact absurd (hr ▸ he) (by simp)
    · exact addArea_slab hs hsel hp hpal hpage hd hfresh hadd he

/-- `Heap::allocate` keeps the invariant through every refill, and a block it returns is
live. -/
theorem allocate {memSupplier : HeapMemorySupplier σ} (hsup : Supplies memSupplier avail)
    {fuel : Nat} (hs : self.InvOn avail st live R) {st' : σ} {r : Option Nat}
    (ha : Heap.allocate memSupplier fuel self st layout = some ((h', st'), r)) :
    ∃ R', h'.InvOn avail st' (r.toList.map (Block.mk · layout) ++ live) R' := by
  induction fuel generalizing self st R with
  | zero => simp [Heap.allocate] at ha
  | succ fuel ih =>
    simp only [Heap.allocate] at ha
    split at ha
    · cases ha
    · rename_i h₁ p hfound
      simp only [Option.some.injEq, Prod.mk.injEq] at ha
      obtain ⟨⟨rfl, rfl⟩, rfl⟩ := ha
      exact ⟨R, hs.allocateWith_some hfound⟩
    · rename_i h₁ hnone
      obtain rfl := Heap.allocateWith_none hs.list hnone
      split at ha
      · cases ha
      · rename_i h₂ st₂ hr
        obtain ⟨R', hs'⟩ := hs.refill hsup hr
        exact ih hs' ha
      · rename_i h₂ st₂ hr
        simp only [Option.some.injEq, Prod.mk.injEq] at ha
        obtain ⟨⟨rfl, rfl⟩, rfl⟩ := ha
        exact hs.refill hsup hr

/-- `Heap::deallocate` of a live block with its own layout does not panic; the block goes back
to the pool it came from, and the invariant holds without it. -/
theorem deallocate (hs : self.InvOn avail st live R) {b : Block} (hb : b ∈ live) :
    ∃ h', self.deallocate b.ptr b.layout = some h' ∧ h'.InvOn avail st (live.erase b) R := by
  have hsize : b.layout.size ≤ self.inUseMem := by
    rw [hs.inUse]
    exact List.le_sum_of_mem (List.mem_map_of_mem hb)
  have hinUse : self.inUseMem - b.layout.size =
      ((live.erase b).map fun b => b.layout.size).sum := by
    rw [hs.inUse, ((List.perm_cons_erase hb).map _).sum_eq, List.map_cons, List.sum_cons]
    omega
  have hsub : checkedSub self.inUseMem b.layout.size = some (self.inUseMem - b.layout.size) :=
    checkedSub_eq_some.mpr ⟨hsize, rfl⟩
  have hlive : (live.map Block.piece).Perm (b.piece :: (live.erase b).map Block.piece) :=
    (List.perm_cons_erase hb).map _
  rw [Heap.deallocate_eq]
  by_cases hsel : AllocSelector.forLayout b.layout = .linkedList
  · obtain ⟨hsome, -, hhal, hpos⟩ := hs.listBlocks b hb hsel
    obtain ⟨req, hreq⟩ := Option.isSome_iff_exists.mp hsome
    have hpiece : b.piece = (b.ptr, req.size) := by
      rw [Block.piece, Block.heapSpan_of_linkedList hsel, Block.span_eq hreq]
    have ht : Tiles (holeSpans self.linkedList.holes ++
        (b.ptr, req.size) :: (self.slabSpans ++ (live.erase b).map Block.piece)) R := by
      refine hs.tiles.perm (List.Perm.append_left _ ?_)
      rw [← hpiece]
      exact (hlive.append_left _).trans List.perm_middle
    obtain ⟨l', hdl, hl', ht'⟩ := LinkedList.tiles_deallocate hs.list hreq hpos hhal ht
    refine ⟨{ ({ self with linkedList := l' } : Heap) with
      inUseMem := self.inUseMem - b.layout.size }, ?_, hl',
      fun b' hb' => hs.listBlocks b' (List.mem_of_mem_erase hb'), ht', hinUse, hs.supplied,
      hs.fresh⟩
    simp only [if_pos hsel, hdl, Option.map_some, Option.bind_some, hsub]
  · have hpiece : b.piece = (b.ptr, (AllocSelector.forLayout b.layout).slabSize) := by
      rw [Block.piece, Block.heapSpan_of_slab hsel]
    have hslab := Heap.slabSpans_setSlabBlocks_append self _ hsel [b.ptr]
    refine ⟨{ self.setSlabBlocks (AllocSelector.forLayout b.layout)
      (b.ptr :: self.slabBlocks (AllocSelector.forLayout b.layout)) with
      inUseMem := self.inUseMem - b.layout.size }, ?_, ?_, fun b' hb' =>
      hs.listBlocks b' (List.mem_of_mem_erase hb'), ?_, hinUse,
      (Heap.memFromSupplier_setSlabBlocks _ _ _).trans hs.supplied, hs.fresh⟩
    · simp only [if_neg hsel, Option.bind_some, Heap.inUseMem_setSlabBlocks, hsub,
        Option.map_some]
    · show (self.setSlabBlocks _ _).linkedList.Inv
      rw [Heap.linkedList_setSlabBlocks]
      exact hs.list
    · show Tiles (holeSpans (self.setSlabBlocks _ _).linkedList.holes ++
        ((self.setSlabBlocks _ _).slabSpans ++ (live.erase b).map Block.piece)) R
      rw [Heap.linkedList_setSlabBlocks]
      refine hs.tiles.perm (List.Perm.append_left _ ?_)
      rw [hpiece] at hlive
      exact ((hlive.append_left _).trans List.perm_middle).trans (hslab.symm.append_right _)

/-- `Heap::new` starts a run in the invariant, over the first area of the supplier. -/
theorem new {memSupplier : HeapMemorySupplier σ} (hsup : Supplies memSupplier avail)
    {st st' : σ} (hnew : Heap.new memSupplier st = some (some self, st')) :
    ∃ R, self.InvOn avail st' [] R := by
  obtain ⟨p, n, hsome, hchain, hn, hl, hinUse, hsupplied⟩ := Heap.new_spec hnew
  obtain ⟨hp, hpal, hpage, -, -, hst'⟩ := hsup.some hsome
  have hal : holeAlign ∣ p + 65280 := by unfold holeAlign at hpal ⊢; omega
  have hlist := (ListState.Inv.init (ListInit.new (by omega) hal
    (by unfold holeAlign; omega) (by unfold blockSize; omega) hl)).list
  have hup : Helps.alignUp (p + 65280) holeAlign = p + 65280 :=
    Helps.alignUp_of_dvd holeAlign_isPowerOfTwo hal
  simp only [LinkedList.new, hup, Nat.sub_self, checkedSub, Nat.zero_le, if_true, Nat.sub_zero,
    Option.map_some, Option.some.injEq] at hl
  have hholes : holeSpans self.linkedList.holes = [(p + 65280, n - 65280)] := by
    rw [← hl]
    rfl
  have hrun : Chain p (self.slabSpans ++ holeSpans self.linkedList.holes) (p + n) := by
    rw [hholes]
    refine hchain.append ⟨rfl, ?_⟩
    show p + 65280 + (n - 65280) = p + n
    omega
  refine ⟨[(p, n)], hlist, by simp, ?_, by simp [hinUse], by simp [hsupplied], ?_⟩
  · rw [Heap.pieces, List.map_nil, List.append_nil]
    exact hrun.tiles.perm List.perm_append_comm
  · rw [cells_cons, cells_nil, Set.union_empty]
    exact (Set.disjoint_of_subset_right hst' Set.disjoint_sdiff_right)

end Heap.InvOn

end Invariant

/-! ### Runs -/

section Run

variable {σ : Type}

/-- A heap, the state of its supplier, and the blocks the heap handed out and has not taken
back, each with the layout it was asked for. -/
structure HeapState (σ : Type) where
  heap : Heap
  supplier : σ
  live : List Block

/-- A run starts with `Heap::new` on an answer of the supplier. -/
inductive HeapInit (memSupplier : HeapMemorySupplier σ) : HeapState σ → Prop
  | new {st st' : σ} {h : Heap} : Heap.new memSupplier st = some (some h, st') →
      HeapInit memSupplier ⟨h, st', []⟩

/-- One completed call on the heap: `allocate`, with as many refills as it takes, or
`deallocate` of a live block with the layout it was asked for. -/
inductive HeapStep (memSupplier : HeapMemorySupplier σ) : HeapState σ → HeapState σ → Prop
  | allocate {s : HeapState σ} {fuel : Nat} {layout : Layout} {h : Heap} {st : σ}
      {r : Option Nat} :
      Heap.allocate memSupplier fuel s.heap s.supplier layout = some ((h, st), r) →
      HeapStep memSupplier s ⟨h, st, r.toList.map (Block.mk · layout) ++ s.live⟩
  | deallocate {s : HeapState σ} {b : Block} {h : Heap} :
      b ∈ s.live → s.heap.deallocate b.ptr b.layout = some h →
      HeapStep memSupplier s ⟨h, s.supplier, s.live.erase b⟩

/-- The states some run of the heap reaches. -/
def HeapReachable (memSupplier : HeapMemorySupplier σ) : HeapState σ → Prop :=
  Transition.Reachable (HeapInit memSupplier) (HeapStep memSupplier)

variable {memSupplier : HeapMemorySupplier σ} {avail : σ → Set Nat}

theorem HeapReachable.inv (hsup : Supplies memSupplier avail) {s : HeapState σ}
    (h : HeapReachable memSupplier s) : ∃ R, s.heap.InvOn avail s.supplier s.live R := by
  refine @Transition.Reachable.invariant _ (HeapInit memSupplier) (HeapStep memSupplier)
    (fun s => ∃ R, s.heap.InvOn avail s.supplier s.live R) (fun s hi => ?_) (fun s s' hs hst => ?_)
    s h
  · obtain ⟨hnew⟩ := hi
    exact Heap.InvOn.new hsup hnew
  · obtain ⟨R, hs⟩ := hs
    cases hst with
    | allocate ha => exact hs.allocate hsup ha
    | deallocate hb hd =>
      obtain ⟨h', hd', hs'⟩ := hs.deallocate hb
      rw [hd', Option.some.injEq] at hd
      exact ⟨R, hd ▸ hs'⟩

/-- Over every run, `Heap::deallocate` of a live block with the layout it was asked for does
not panic: the linked list takes its blocks back, and `m_in_use_mem` does not underflow. -/
theorem heap_deallocate_no_panic (hsup : Supplies memSupplier avail) {s : HeapState σ}
    (h : HeapReachable memSupplier s) {b : Block} (hb : b ∈ s.live) :
    ∃ h', s.heap.deallocate b.ptr b.layout = some h' := by
  obtain ⟨R, hs⟩ := h.inv hsup
  obtain ⟨h', hd, -⟩ := hs.deallocate hb
  exact ⟨h', hd⟩

/-- Over every run, a live block that the linked list handed out starts at a multiple of the
alignment it was asked for. -/
theorem heap_linkedList_blocks_aligned (hsup : Supplies memSupplier avail) {s : HeapState σ}
    (h : HeapReachable memSupplier s) {b : Block} (hb : b ∈ s.live)
    (hsel : AllocSelector.forLayout b.layout = .linkedList) : b.ptr % b.layout.align = 0 := by
  obtain ⟨R, hs⟩ := h.inv hsup
  exact Nat.mod_eq_zero_of_dvd (hs.listBlocks b hb hsel).2.1

end Run

end Heap
end MeetixOs
