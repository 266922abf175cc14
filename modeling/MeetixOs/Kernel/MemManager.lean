import Mathlib
import MeetixOs.Bits.BitFields
import MeetixOs.Kernel.PageSize

/-!
# The physical frame allocator of `MemManager`

A model of the frame bitmap of `Kernel/src/vm/mem_manager.rs`.  `MemManager::init_instance`
sizes a byte bitmap from the end of the last boot memory area, walks every area in steps of
a page, marks the frame of each address that is not in the kernel text as free and counts
it; `allocate_phys_frame` takes the first free frame.

The kernel text range comes from linker symbols and is a parameter.  The rest of
`init_instance` (the layout manager, the page directory) does not touch the bitmap or the
counters.  The counters are `AtomicUsize`s; they wrap at `2^64`, which they never reach:
`free` is at least the number of free frames whenever it is decremented
(`Inv.card_le_free`).

**Results.**
* `initInstance_inv`, `allocateKernelPhysFrame_inv`: the invariant of the bitmap, set up by
  the initialisation and kept by every allocation.
* `memManager_allocations_sound`: over every number of allocations after the
  initialisation, for page-aligned boot areas.
* `memManager_frame_outside_area`: an area that does not start on a page hands out a frame
  that starts before it.
* `bitmapBitLen_lt_iff`, `initInstance_isSome_iff`: the bitmap is too small for the frames
  below the end of memory exactly when that end lies less than `32 KiB` above a multiple of
  `128 MiB`, and the marking loop panics exactly on a frame beyond the bitmap;
  `initInstance_bitmap_too_small` at the end `4096 * 32769`.
-/

namespace MeetixOs
namespace Kernel

open Bits

/-- A `Range<PhysAddr>`, `start..end`. -/
structure PhysRange where
  start : Nat
  stop : Nat
  deriving DecidableEq, Repr

namespace PhysRange

/-- `Range::contains`. -/
def contains (r : PhysRange) (a : Nat) : Bool := r.start ≤ a && a < r.stop

/-- `range.step_by(step)`: `start, start + step, …` while below `end`. -/
def stepBy (r : PhysRange) (step : Nat) : List Nat :=
  (List.range ((r.stop - r.start + step - 1) / step)).map fun k => r.start + k * step

/-- The bytes of the range. -/
def cells (r : PhysRange) : Set Nat := Set.Ico r.start r.stop

theorem mem_stepBy {r : PhysRange} {step a : Nat} (hstep : 0 < step) :
    a ∈ r.stepBy step ↔ ∃ k, a = r.start + k * step ∧ a < r.stop := by
  simp only [stepBy, List.mem_map, List.mem_range]
  constructor
  · rintro ⟨k, hk, rfl⟩
    refine ⟨k, rfl, ?_⟩
    have := (Nat.lt_div_iff_mul_lt hstep).mp hk
    omega
  · rintro ⟨k, rfl, hlt⟩
    refine ⟨k, ?_, rfl⟩
    rw [Nat.lt_div_iff_mul_lt hstep]
    omega

end PhysRange

/-- `MemManagerStats`. -/
structure MemManagerStats where
  allocatedPhysFrames : Nat
  freePhysFrames : Nat
  deriving DecidableEq, Repr

/-- The frame bitmap of `MemManager` and its statistics. -/
structure MemManager where
  physFramesBitmap : List (BitVec 8)
  memManagerStats : MemManagerStats
  deriving DecidableEq, Repr

/-- `u8::BIT_LEN`. -/
def u8BitLen : Nat := 8

/-- The addresses `init_instance` visits: each boot area stepped by a page. -/
def visitedAddrs (bootMemAreas : List PhysRange) : List Nat :=
  bootMemAreas.flatMap fun r => r.stepBy page4KiBSize

/-- One turn of the marking loop of `init_instance`. -/
def markFrame (kernTextPhysRange : PhysRange) (mm : MemManager) (physAddr : Nat) :
    Option MemManager :=
  if !kernTextPhysRange.contains physAddr then
    (sliceSetBit mm.physFramesBitmap (physAddr / page4KiBSize) true).map fun bitmap =>
      ⟨bitmap, { mm.memManagerStats with
        freePhysFrames := mm.memManagerStats.freePhysFrames + 1 }⟩
  else
    some { mm with memManagerStats := { mm.memManagerStats with
      allocatedPhysFrames := mm.memManagerStats.allocatedPhysFrames + 1 } }

/-- The frame bitmap part of `MemManager::init_instance`; `none` is a panic. -/
def initInstance (bootMemAreas : List PhysRange) (kernTextPhysRange : PhysRange) :
    Option MemManager :=
  match bootMemAreas.getLast? with
  | none => none
  | some lastArea =>
    let lastPhysMemAddr := lastArea.stop
    let physFramesBitmapRequestedPages :=
      ((lastPhysMemAddr / page4KiBSize / u8BitLen) + page4KiBMask) >>> 12
    let physFramesBitmap := List.replicate (physFramesBitmapRequestedPages * page4KiBSize) 0#8
    (visitedAddrs bootMemAreas).foldlM (markFrame kernTextPhysRange) ⟨physFramesBitmap, ⟨0, 0⟩⟩

/-- `MemManagerStats::on_allocated_phys_frame`. -/
def MemManagerStats.onAllocatedPhysFrame (stats : MemManagerStats) : MemManagerStats :=
  ⟨stats.allocatedPhysFrames + 1, stats.freePhysFrames - 1⟩

namespace MemManager

/-- `MemManager::allocate_phys_frame`: the first set bit is cleared and its frame returned.
The outer `none` is a panic. -/
def allocatePhysFrame (self : MemManager) (bitFindMode : BitFindMode) :
    Option (MemManager × Option Nat) :=
  match sliceFindBit false self.physFramesBitmap true bitFindMode with
  | some bitIndex =>
    (sliceSetBit self.physFramesBitmap bitIndex false).map fun bitmap =>
      (⟨bitmap, self.memManagerStats.onAllocatedPhysFrame⟩, some (bitIndex * page4KiBSize))
  | none => some (self, none)

/-- `MemManager::allocate_kernel_phys_frame`. -/
def allocateKernelPhysFrame (self : MemManager) : Option (MemManager × Option Nat) :=
  self.allocatePhysFrame .regular

/-- `n` calls of `allocate_kernel_phys_frame`, and the frames they returned, last first. -/
def allocateN : Nat → MemManager → Option (MemManager × List Nat)
  | 0, mm => some (mm, [])
  | n + 1, mm =>
    (allocateN n mm).bind fun r =>
      r.1.allocateKernelPhysFrame.map fun r' => (r'.1, r'.2.toList ++ r.2)

end MemManager

section Frames

variable (bootMemAreas : List PhysRange) (kernTextPhysRange : PhysRange)

/-- A frame the allocator may hand out: on a page boundary, inside one boot memory area and
outside the kernel text. -/
def GoodFrame (f : Nat) : Prop :=
  f % page4KiBSize = 0 ∧ (∃ r ∈ bootMemAreas, Set.Ico f (f + page4KiBSize) ⊆ r.cells) ∧
    Disjoint (Set.Ico f (f + page4KiBSize)) kernTextPhysRange.cells

/-- The invariant of the frame bitmap, with the frames handed out so far: every free frame
is good and not handed out, the handed out frames are good and distinct, and the counters
count the visited addresses and the frames handed out. -/
structure FramesInv (mm : MemManager) (handedOut : List Nat) : Prop where
  free_good : ∀ i ∈ sliceOnes mm.physFramesBitmap,
    GoodFrame bootMemAreas kernTextPhysRange (i * page4KiBSize) ∧ i * page4KiBSize ∉ handedOut
  handedOut_good : ∀ f ∈ handedOut, GoodFrame bootMemAreas kernTextPhysRange f
  nodup : handedOut.Nodup
  card_le_free : (sliceOnes mm.physFramesBitmap).card ≤ mm.memManagerStats.freePhysFrames
  free_eq : mm.memManagerStats.freePhysFrames + handedOut.length =
    (visitedAddrs bootMemAreas).countP fun a => !kernTextPhysRange.contains a
  allocated_eq : mm.memManagerStats.allocatedPhysFrames =
    (visitedAddrs bootMemAreas).countP (fun a => kernTextPhysRange.contains a) + handedOut.length

/-- The invariant of the marking loop after the visited addresses `done`. -/
structure MarkInv (mm : MemManager) (done : List Nat) : Prop where
  free_good : ∀ i ∈ sliceOnes mm.physFramesBitmap,
    GoodFrame bootMemAreas kernTextPhysRange (i * page4KiBSize)
  card_le_free : (sliceOnes mm.physFramesBitmap).card ≤ mm.memManagerStats.freePhysFrames
  free_eq : mm.memManagerStats.freePhysFrames = done.countP fun a => !kernTextPhysRange.contains a
  allocated_eq : mm.memManagerStats.allocatedPhysFrames =
    done.countP fun a => kernTextPhysRange.contains a

variable {bootMemAreas kernTextPhysRange}

/-- With page-aligned boot areas and kernel text start, a visited address outside the
kernel text is a good frame. -/
theorem goodFrame_of_visited
    (hareas : ∀ r ∈ bootMemAreas, page4KiBSize ∣ r.start ∧ page4KiBSize ∣ r.stop)
    (htext : page4KiBSize ∣ kernTextPhysRange.start) {a : Nat}
    (ha : a ∈ visitedAddrs bootMemAreas) (hout : kernTextPhysRange.contains a = false) :
    GoodFrame bootMemAreas kernTextPhysRange a := by
  obtain ⟨r, hr, har⟩ := List.mem_flatMap.mp ha
  obtain ⟨k, rfl, hlt⟩ := (PhysRange.mem_stepBy (by decide)).mp har
  obtain ⟨⟨s, hs⟩, ⟨e, he⟩⟩ := hareas r hr
  obtain ⟨t, ht⟩ := htext
  simp only [PhysRange.contains, Bool.and_eq_false_iff, decide_eq_false_iff_not,
    Nat.not_le, Nat.not_lt] at hout
  unfold GoodFrame
  rw [page4KiBSize_eq] at hs he ht hlt hout ⊢
  refine ⟨by omega, ⟨r, hr, fun x hx => ?_⟩, ?_⟩
  · simp only [Set.mem_Ico] at hx
    simp only [PhysRange.cells, Set.mem_Ico]
    omega
  · rw [PhysRange.cells, Set.Ico_disjoint_Ico]
    omega

/-- The bitmap `init_instance` starts from has no set bit. -/
theorem sliceOnes_replicate_zero (n : Nat) : sliceOnes (List.replicate n 0#8) = ∅ := by
  ext i
  simp only [mem_sliceOnes, sliceGet, Finset.notMem_empty, iff_false]
  cases h : (List.replicate n 0#8)[i / 8]? with
  | none => simp
  | some x =>
      rw [(List.mem_replicate.mp (List.mem_of_getElem? h)).2]
      simp

/-- One turn of the marking loop keeps its invariant. -/
theorem markFrame_inv
    (hareas : ∀ r ∈ bootMemAreas, page4KiBSize ∣ r.start ∧ page4KiBSize ∣ r.stop)
    (htext : page4KiBSize ∣ kernTextPhysRange.start) {mm mm' : MemManager} {done : List Nat}
    {a : Nat} (ha : a ∈ visitedAddrs bootMemAreas)
    (hi : MarkInv bootMemAreas kernTextPhysRange mm done)
    (h : markFrame kernTextPhysRange mm a = some mm') :
    MarkInv bootMemAreas kernTextPhysRange mm' (done ++ [a]) := by
  unfold markFrame at h
  cases hc : kernTextPhysRange.contains a with
  | false =>
      rw [hc, Bool.not_false, if_pos rfl, Option.map_eq_some_iff] at h
      obtain ⟨bitmap, hset, rfl⟩ := h
      have hgood := goodFrame_of_visited hareas htext ha hc
      have hal : a / page4KiBSize * page4KiBSize = a := Nat.div_mul_cancel
        (Nat.dvd_of_mod_eq_zero hgood.1)
      refine ⟨fun i hmem => ?_, ?_, ?_, ?_⟩
      · rw [sliceOnes_set hset, Finset.mem_insert] at hmem
        rcases hmem with rfl | hmem
        · rwa [hal]
        · exact hi.free_good i hmem
      · rw [sliceOnes_set hset]
        exact (Finset.card_insert_le _ _).trans (Nat.succ_le_succ hi.card_le_free)
      · simp [hi.free_eq, List.countP_append, hc]
      · simp [hi.allocated_eq, List.countP_append, hc]
  | true =>
      rw [hc, Bool.not_true] at h
      simp only [Bool.false_eq_true, if_false, Option.some.injEq] at h
      subst h
      exact ⟨hi.free_good, hi.card_le_free, by simp [hi.free_eq, List.countP_append, hc],
        by simp [hi.allocated_eq, List.countP_append, hc]⟩

/-- The marking loop keeps its invariant over any list of visited addresses. -/
theorem foldlM_markFrame_inv
    (hareas : ∀ r ∈ bootMemAreas, page4KiBSize ∣ r.start ∧ page4KiBSize ∣ r.stop)
    (htext : page4KiBSize ∣ kernTextPhysRange.start) :
    ∀ (addrs done : List Nat) (mm mm' : MemManager),
      (∀ a ∈ addrs, a ∈ visitedAddrs bootMemAreas) →
      MarkInv bootMemAreas kernTextPhysRange mm done →
      addrs.foldlM (markFrame kernTextPhysRange) mm = some mm' →
      MarkInv bootMemAreas kernTextPhysRange mm' (done ++ addrs)
  | [], done, mm, mm', _, hi, h => by
      rw [List.foldlM_nil, Option.pure_def, Option.some.injEq] at h
      subst h
      simpa using hi
  | a :: addrs, done, mm, mm', hv, hi, h => by
      rw [List.foldlM_cons, Option.bind_eq_bind, Option.bind_eq_some_iff] at h
      obtain ⟨mm₁, h₁, hrest⟩ := h
      have hi₁ := markFrame_inv hareas htext (hv a List.mem_cons_self) hi h₁
      have := foldlM_markFrame_inv hareas htext addrs (done ++ [a]) mm₁ mm'
        (fun b hb => hv b (List.mem_cons_of_mem a hb)) hi₁ hrest
      simpa using this

/-- `init_instance` sets up the invariant, with no frame handed out yet. -/
theorem initInstance_inv
    (hareas : ∀ r ∈ bootMemAreas, page4KiBSize ∣ r.start ∧ page4KiBSize ∣ r.stop)
    (htext : page4KiBSize ∣ kernTextPhysRange.start) {mm : MemManager}
    (h : initInstance bootMemAreas kernTextPhysRange = some mm) :
    FramesInv bootMemAreas kernTextPhysRange mm [] := by
  unfold initInstance at h
  cases hlast : bootMemAreas.getLast? with
  | none => rw [hlast] at h; cases h
  | some lastArea =>
      rw [hlast] at h
      have h0 : MarkInv bootMemAreas kernTextPhysRange
          ⟨List.replicate (((lastArea.stop / page4KiBSize / u8BitLen) + page4KiBMask) >>> 12 *
            page4KiBSize) 0#8, ⟨0, 0⟩⟩ [] :=
        ⟨by simp [sliceOnes_replicate_zero], by simp [sliceOnes_replicate_zero], rfl, rfl⟩
      have hm := foldlM_markFrame_inv hareas htext _ [] _ mm (fun a ha => ha) h0 h
      rw [List.nil_append] at hm
      exact ⟨fun i hmem => ⟨hm.free_good i hmem, List.not_mem_nil⟩,
        fun f hf => absurd hf List.not_mem_nil, List.nodup_nil, hm.card_le_free,
        by simp [hm.free_eq], by simp [hm.allocated_eq]⟩

/-- An allocation on a bitmap in the invariant does not panic; it hands out a free frame,
which is good and was not handed out before, and keeps the invariant. -/
theorem allocateKernelPhysFrame_inv {mm : MemManager} {handedOut : List Nat}
    (hi : FramesInv bootMemAreas kernTextPhysRange mm handedOut) :
    ∃ mm' r, mm.allocateKernelPhysFrame = some (mm', r) ∧
      FramesInv bootMemAreas kernTextPhysRange mm' (r.toList ++ handedOut) := by
  have hspec := @sliceFindBit_regular_spec 8 (by decide) true mm.physFramesBitmap
  unfold MemManager.allocateKernelPhysFrame MemManager.allocatePhysFrame
  cases hfind : sliceFindBit false mm.physFramesBitmap true .regular with
  | none => exact ⟨mm, none, rfl, by simpa using hi⟩
  | some i =>
      rw [hfind] at hspec
      obtain ⟨hlt, hget, -⟩ := hspec
      obtain ⟨bitmap, hset⟩ :=
        Option.isSome_iff_exists.mp (sliceSetBit_isSome (by decide) hlt false)
      have hmem : i ∈ sliceOnes mm.physFramesBitmap := mem_sliceOnes.mpr hget
      have hones := sliceOnes_clear hset
      obtain ⟨hgood, hnew⟩ := hi.free_good i hmem
      have hpos : 0 < mm.memManagerStats.freePhysFrames :=
        Nat.lt_of_lt_of_le (Finset.card_pos.mpr ⟨i, hmem⟩) hi.card_le_free
      have hcard := Finset.card_erase_of_mem hmem
      refine ⟨⟨bitmap, mm.memManagerStats.onAllocatedPhysFrame⟩, some (i * page4KiBSize),
        by simp only [hset, Option.map_some], ⟨fun j hj => ?_, fun f hf => ?_, ?_, ?_, ?_, ?_⟩⟩
      · rw [hones, Finset.mem_erase] at hj
        obtain ⟨hji, hj⟩ := hj
        obtain ⟨hgj, hnj⟩ := hi.free_good j hj
        refine ⟨hgj, ?_⟩
        simp only [Option.toList_some, List.singleton_append, List.mem_cons, not_or]
        exact ⟨fun e => hji (Nat.eq_of_mul_eq_mul_right (by decide) e), hnj⟩
      · simp only [Option.toList_some, List.singleton_append, List.mem_cons] at hf
        rcases hf with rfl | hf
        · exact hgood
        · exact hi.handedOut_good f hf
      · exact List.nodup_cons.mpr ⟨hnew, hi.nodup⟩
      · simp only [hones, hcard, MemManagerStats.onAllocatedPhysFrame]
        exact Nat.sub_le_sub_right hi.card_le_free 1
      · simp only [MemManagerStats.onAllocatedPhysFrame, Option.toList_some,
          List.singleton_append, List.length_cons]
        have := hi.free_eq
        omega
      · simp only [MemManagerStats.onAllocatedPhysFrame, Option.toList_some,
          List.singleton_append, List.length_cons, hi.allocated_eq]
        omega

/-- The invariant after an allocation that returned, with the frame it handed out. -/
theorem FramesInv.allocateKernelPhysFrame {mm mm' : MemManager} {handedOut : List Nat}
    {r : Option Nat} (hi : FramesInv bootMemAreas kernTextPhysRange mm handedOut)
    (h : mm.allocateKernelPhysFrame = some (mm', r)) :
    FramesInv bootMemAreas kernTextPhysRange mm' (r.toList ++ handedOut) := by
  obtain ⟨mm'', r', h', hi'⟩ := allocateKernelPhysFrame_inv hi
  rw [h, Option.some.injEq, Prod.mk.injEq] at h'
  obtain ⟨rfl, rfl⟩ := h'
  exact hi'

/-- Every number of allocations keeps the invariant, and none of them panics. -/
theorem allocateN_inv {mm : MemManager}
    (hi : FramesInv bootMemAreas kernTextPhysRange mm []) :
    ∀ n, ∃ mm' frames, MemManager.allocateN n mm = some (mm', frames) ∧
      FramesInv bootMemAreas kernTextPhysRange mm' frames
  | 0 => ⟨mm, [], rfl, hi⟩
  | n + 1 => by
      obtain ⟨mm', frames, h, hi'⟩ := allocateN_inv hi n
      obtain ⟨mm'', r, h', hi''⟩ := allocateKernelPhysFrame_inv hi'
      exact ⟨mm'', r.toList ++ frames, by simp [MemManager.allocateN, h, h'], hi''⟩

end Frames

/-- A `MemManager` whose bitmap is in its invariant, with the frames handed out so far: the
state `allocate_kernel_phys_frame` works on once `init_instance` has built the bitmap. -/
structure KernelFrames (bootMemAreas : List PhysRange) (kernTextPhysRange : PhysRange) where
  memManager : MemManager
  handedOut : List Nat
  inv : FramesInv bootMemAreas kernTextPhysRange memManager handedOut

namespace KernelFrames

variable {bootMemAreas : List PhysRange} {kernTextPhysRange : PhysRange}

/-- `allocate_kernel_phys_frame` on a bitmap in the invariant, which records the frame it
hands out. -/
def allocate (s : KernelFrames bootMemAreas kernTextPhysRange) :
    Option (KernelFrames bootMemAreas kernTextPhysRange × Option Nat) :=
  match h : s.memManager.allocateKernelPhysFrame with
  | some (mm', r) => some (⟨mm', r.toList ++ s.handedOut, s.inv.allocateKernelPhysFrame h⟩, r)
  | none => none

/-- `allocate` is `allocate_kernel_phys_frame` on the `MemManager` it holds. -/
theorem allocateKernelPhysFrame_memManager (s : KernelFrames bootMemAreas kernTextPhysRange) :
    s.memManager.allocateKernelPhysFrame = s.allocate.map (Prod.map memManager id) := by
  unfold allocate
  split <;> simp_all

/-- What an allocation that returned leaves: the frame it handed out is recorded. -/
theorem allocate_eq_some {s s' : KernelFrames bootMemAreas kernTextPhysRange} {r : Option Nat}
    (h : s.allocate = some (s', r)) :
    s.memManager.allocateKernelPhysFrame = some (s'.memManager, r) ∧
      s'.handedOut = r.toList ++ s.handedOut := by
  unfold allocate at h
  split at h
  · rename_i mm' r' hmm
    obtain ⟨rfl, rfl⟩ := Prod.mk.inj (Option.some.inj h)
    exact ⟨hmm, rfl⟩
  · cases h

/-- The state `init_instance` leaves, with no frame handed out yet. -/
def ofInitInstance
    (hareas : ∀ r ∈ bootMemAreas, page4KiBSize ∣ r.start ∧ page4KiBSize ∣ r.stop)
    (htext : page4KiBSize ∣ kernTextPhysRange.start) {mm : MemManager}
    (h : initInstance bootMemAreas kernTextPhysRange = some mm) :
    KernelFrames bootMemAreas kernTextPhysRange :=
  ⟨mm, [], initInstance_inv hareas htext h⟩

end KernelFrames

/-- When every boot memory area starts and ends on a page and the kernel text starts on
one, and `init_instance` builds the bitmap, then any number of
`allocate_kernel_phys_frame()` calls never panic and return distinct frames, each on a page
boundary, inside one boot area and outside the kernel text; free and allocated frames add
up to the addresses visited, and the free count has gone down by one for each frame
returned. -/
theorem memManager_allocations_sound (bootMemAreas : List PhysRange)
    (kernTextPhysRange : PhysRange)
    (hareas : ∀ r ∈ bootMemAreas, page4KiBSize ∣ r.start ∧ page4KiBSize ∣ r.stop)
    (htext : page4KiBSize ∣ kernTextPhysRange.start)
    (hinit : (initInstance bootMemAreas kernTextPhysRange).isSome) (n : Nat) :
    ∃ mm frames,
      (initInstance bootMemAreas kernTextPhysRange).bind (MemManager.allocateN n) =
        some (mm, frames) ∧
      frames.Nodup ∧ (∀ f ∈ frames, GoodFrame bootMemAreas kernTextPhysRange f) ∧
      mm.memManagerStats.freePhysFrames + mm.memManagerStats.allocatedPhysFrames =
        (visitedAddrs bootMemAreas).length ∧
      mm.memManagerStats.freePhysFrames + frames.length =
        (visitedAddrs bootMemAreas).countP fun a => !kernTextPhysRange.contains a := by
  obtain ⟨mm₀, h₀⟩ := Option.isSome_iff_exists.mp hinit
  obtain ⟨mm, frames, hrun, hi⟩ := allocateN_inv (initInstance_inv hareas htext h₀) n
  refine ⟨mm, frames, by rw [h₀, Option.bind_some, hrun], hi.nodup, hi.handedOut_good, ?_,
    hi.free_eq⟩
  have htotal := @List.length_eq_countP_add_countP _
    (fun a => kernTextPhysRange.contains a) (visitedAddrs bootMemAreas)
  simp only [decide_not, Bool.decide_eq_true] at htotal
  have hfree := hi.free_eq
  have halloc := hi.allocated_eq
  omega

/-- Two allocations on a boot area of two pages. -/
theorem memManager_allocations_sound_two_frames :
    (∀ r ∈ [(⟨0x100000, 0x102000⟩ : PhysRange)],
      page4KiBSize ∣ r.start ∧ page4KiBSize ∣ r.stop) ∧
    page4KiBSize ∣ (⟨0x200000, 0x201000⟩ : PhysRange).start ∧
    (initInstance [⟨0x100000, 0x102000⟩] ⟨0x200000, 0x201000⟩).isSome ∧
    ∃ mm frames,
      (initInstance [⟨0x100000, 0x102000⟩] ⟨0x200000, 0x201000⟩).bind
        (MemManager.allocateN 2) = some (mm, frames) ∧
      frames.Nodup ∧ (∀ f ∈ frames, GoodFrame [⟨0x100000, 0x102000⟩] ⟨0x200000, 0x201000⟩ f) ∧
      mm.memManagerStats.freePhysFrames + mm.memManagerStats.allocatedPhysFrames =
        (visitedAddrs [⟨0x100000, 0x102000⟩]).length ∧
      mm.memManagerStats.freePhysFrames + frames.length =
        (visitedAddrs [⟨0x100000, 0x102000⟩]).countP
          fun a => !(⟨0x200000, 0x201000⟩ : PhysRange).contains a :=
  ⟨by decide, by decide, by decide,
    memManager_allocations_sound _ _ (by decide) (by decide) (by decide) 2⟩

/-- A boot area that starts half way into a page: the first frame handed out starts before
the area, so it does not lie inside any boot area. -/
theorem memManager_frame_outside_area :
    ((initInstance [⟨0x100800, 0x102000⟩] ⟨0x200000, 0x201000⟩).bind
        MemManager.allocateKernelPhysFrame).map Prod.snd = some (some 0x100000) ∧
      ¬ Set.Ico 0x100000 (0x100000 + page4KiBSize) ⊆ (⟨0x100800, 0x102000⟩ : PhysRange).cells := by
  refine ⟨by decide, fun h => ?_⟩
  have hfirst := h (Set.left_mem_Ico.mpr (by decide))
  simp [PhysRange.cells] at hfirst

/-! ### The size of the bitmap -/

section Bitmap

variable {bootMemAreas : List PhysRange} {kernTextPhysRange : PhysRange}

/-- The bits of the bitmap `init_instance` allocates when memory ends at `lastPhysMemAddr`:
`phys_frames_bitmap_requested_pages` pages of bytes. -/
def bitmapBitLen (lastPhysMemAddr : Nat) : Nat :=
  ((lastPhysMemAddr / page4KiBSize / u8BitLen) + page4KiBMask) >>> 12 * page4KiBSize * u8BitLen

theorem sliceBitLen_initial_bitmap (lastPhysMemAddr : Nat) :
    sliceBitLen (List.replicate (((lastPhysMemAddr / page4KiBSize / u8BitLen) + page4KiBMask) >>> 12 *
      page4KiBSize) 0#8) = bitmapBitLen lastPhysMemAddr := by
  simp [sliceBitLen, bitmapBitLen, u8BitLen]

/-- The bitmap has fewer bits than there are frames below `L` exactly when `L` lies less than
`32 KiB` above a multiple of `128 MiB`: the frame count is floored to bytes before it is
rounded up to pages, which loses a byte only when the bytes fill whole pages. -/
theorem bitmapBitLen_lt_iff (L : Nat) :
    bitmapBitLen L < (L + page4KiBMask) / page4KiBSize ↔ 0 < L % 2 ^ 27 ∧ L % 2 ^ 27 < 2 ^ 15 := by
  rw [bitmapBitLen, Nat.shiftRight_eq_div_pow]
  simp only [page4KiBMask, page4KiBSize_eq, u8BitLen]
  norm_num
  omega

/-- The marking loop never resizes the bitmap. -/
theorem markFrame_length {mm mm' : MemManager} {a : Nat}
    (h : markFrame kernTextPhysRange mm a = some mm') :
    mm'.physFramesBitmap.length = mm.physFramesBitmap.length := by
  unfold markFrame at h
  split_ifs at h
  · obtain ⟨bitmap, hset, rfl⟩ := Option.map_eq_some_iff.mp h
    exact sliceSetBit_length hset
  · rw [Option.some.injEq] at h
    rw [← h]

/-- A turn of the marking loop panics exactly on an address outside the kernel text whose
frame has no bit. -/
theorem markFrame_isSome_iff {mm : MemManager} {a : Nat} :
    (markFrame kernTextPhysRange mm a).isSome ↔
      (kernTextPhysRange.contains a = false → a / page4KiBSize < sliceBitLen mm.physFramesBitmap) := by
  unfold markFrame
  cases hc : kernTextPhysRange.contains a
  · rw [Bool.not_false, if_pos rfl, Option.isSome_map]
    by_cases hlt : a / page4KiBSize < sliceBitLen mm.physFramesBitmap
    · simp [sliceSetBit_isSome (by decide) hlt, hlt]
    · simp [sliceSetBit_eq_none (by decide) (Nat.le_of_not_lt hlt), hlt]
  · simp

/-- The marking loop panics exactly when one of its addresses outside the kernel text has a
frame with no bit. -/
theorem foldlM_markFrame_isSome_iff :
    ∀ (addrs : List Nat) (mm : MemManager),
      (addrs.foldlM (markFrame kernTextPhysRange) mm).isSome ↔
        ∀ a ∈ addrs, kernTextPhysRange.contains a = false →
          a / page4KiBSize < sliceBitLen mm.physFramesBitmap
  | [], mm => by simp
  | a :: addrs, mm => by
      rw [List.foldlM_cons, List.forall_mem_cons]
      cases hstep : markFrame kernTextPhysRange mm a with
      | none =>
          have hbad := markFrame_isSome_iff.not.mp (by rw [hstep]; exact Bool.false_ne_true)
          simp only [Option.bind_eq_bind, Option.bind_none, Option.isSome_none,
            Bool.false_eq_true, false_iff, not_and]
          exact fun h => absurd h hbad
      | some mm₁ =>
          have hgood := markFrame_isSome_iff.mp (by rw [hstep]; rfl)
          have hlen : sliceBitLen mm₁.physFramesBitmap = sliceBitLen mm.physFramesBitmap := by
            rw [sliceBitLen, sliceBitLen, markFrame_length hstep]
          rw [← hlen] at hgood ⊢
          rw [← foldlM_markFrame_isSome_iff addrs mm₁]
          exact ⟨fun h => ⟨hgood, h⟩, fun h => h.2⟩

/-- `init_instance` marks the frames without a panic exactly when every visited address
outside the kernel text has a frame below the size of the bitmap. -/
theorem initInstance_isSome_iff {lastArea : PhysRange}
    (hlast : bootMemAreas.getLast? = some lastArea) :
    (initInstance bootMemAreas kernTextPhysRange).isSome ↔
      ∀ a ∈ visitedAddrs bootMemAreas, kernTextPhysRange.contains a = false →
        a / page4KiBSize < bitmapBitLen lastArea.stop := by
  rw [initInstance, hlast, foldlM_markFrame_isSome_iff, sliceBitLen_initial_bitmap]

/-- When the last boot area ends on a page less than `32 KiB` above a multiple of `128 MiB`,
and its last page is not kernel text, marking that page is out of the bitmap's bounds. -/
theorem initInstance_eq_none_of_short_bitmap {r : PhysRange}
    (hlast : bootMemAreas.getLast? = some r) (hpage : r.start + page4KiBSize ≤ r.stop)
    (hal : page4KiBSize ∣ r.start ∧ page4KiBSize ∣ r.stop)
    (hL : 0 < r.stop % 2 ^ 27 ∧ r.stop % 2 ^ 27 < 2 ^ 15)
    (htext : kernTextPhysRange.contains (r.stop - page4KiBSize) = false) :
    initInstance bootMemAreas kernTextPhysRange = none := by
  have hmem : r ∈ bootMemAreas := List.mem_of_getLast? hlast
  obtain ⟨⟨s, hs⟩, ⟨e, he⟩⟩ := hal
  have hvisit : r.stop - page4KiBSize ∈ visitedAddrs bootMemAreas := by
    refine List.mem_flatMap.mpr ⟨r, hmem, (PhysRange.mem_stepBy (by decide)).mpr ⟨e - s - 1, ?_, ?_⟩⟩
    · rw [page4KiBSize_eq] at hs he hpage ⊢
      rw [Nat.sub_one_mul, Nat.sub_mul]
      omega
    · rw [page4KiBSize_eq] at hpage ⊢
      omega
  have hshort := (bitmapBitLen_lt_iff r.stop).mpr hL
  have hframe : (r.stop + page4KiBMask) / page4KiBSize = (r.stop - page4KiBSize) / page4KiBSize + 1 := by
    rw [page4KiBMask, page4KiBSize_eq] at *
    omega
  cases h : initInstance bootMemAreas kernTextPhysRange with
  | none => rfl
  | some mm =>
      have hall := (initInstance_isSome_iff hlast).mp (by rw [h]; rfl) _ hvisit htext
      omega

/-- The example of `L = 4096 * 32769`: memory up to `0x8001000`, the last area one page past
`128 MiB`.  The bitmap gets `((32769 / 8) + 4095) >> 12 = 1` page, `32768` bits, for `32769`
frames, and marking frame `32768` panics. -/
theorem initInstance_bitmap_too_small :
    bitmapBitLen 0x8001000 = 32768 ∧ (0x8001000 + page4KiBMask) / page4KiBSize = 32769 ∧
    initInstance [⟨0x0, 0x9f000⟩, ⟨0x100000, 0x8001000⟩] ⟨0x200000, 0x400000⟩ = none :=
  ⟨by decide, by decide,
    initInstance_eq_none_of_short_bitmap rfl (by decide) (by decide) (by decide) (by decide)⟩

end Bitmap

end Kernel
end MeetixOs
