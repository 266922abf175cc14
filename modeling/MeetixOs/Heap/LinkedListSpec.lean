import Mathlib
import MeetixOs.Heap.SplitHole

/-!
# The methods of `LinkedList` on the free set

Seen from outside, a `LinkedList` is the set of bytes it holds free (`LinkedList.cells`) and
their number (`LinkedList.bytes`).  Under the list invariant `LinkedList.Inv` (the head is
the dummy of size `0` and the holes after it are `Ordered`), each method is an operation on
that set:

* `deallocateFromHead_spec`: freeing an aligned area disjoint from the free set adds it;
* `allocate_spec`: a successful `allocate` removes one block, aligned to the layout and
  of `align_layout(layout).size()` bytes, from the free set; a failed one changes nothing;
* `deallocate_spec'` and `addRegion_spec`: the two methods that reach `deallocate`;
* `linkedList_allocate_first_fit`: first fit is complete, and takes the lowest hole that has
  a place for the block.

None of them panics under these hypotheses, except `align_layout` on sizes that do not fit
a `Layout`.
-/

namespace MeetixOs
namespace Heap

open Helps

@[simp] theorem holeCells_append (l l' : List HoleInfo) :
    holeCells (l ++ l') = holeCells l ∪ holeCells l' := by
  induction l with
  | nil => simp
  | cons h l ih => simp [ih, Set.union_assoc]

@[simp] theorem holeBytes_append (l l' : List HoleInfo) :
    holeBytes (l ++ l') = holeBytes l + holeBytes l' := by
  simp [holeBytes]

theorem HoleInfo.cells_of_size_zero {h : HoleInfo} (h0 : h.size = 0) : h.cells = ∅ := by
  simp [HoleInfo.cells, h0]

/-- A good hole shares no byte with a hole it comes before. -/
theorem disjoint_of_before {h h' : HoleInfo} (hg : h.Good) (hb : Before h h') :
    Disjoint h.cells h'.cells := by
  unfold Before at hb
  rw [hg.holeAddr_eq] at hb
  rw [Set.disjoint_left]
  intro x hx hx'
  simp only [HoleInfo.mem_cells] at hx hx'
  omega

/-- Unlinking a hole keeps the list ordered. -/
theorem Ordered.remove {head h : HoleInfo} {pre post : List HoleInfo}
    (ho : Ordered head (pre ++ h :: post)) : Ordered head (pre ++ post) := by
  have hsub : (pre ++ post).Sublist (pre ++ h :: post) :=
    List.Sublist.append (List.Sublist.refl pre) (List.sublist_cons_self h post)
  exact ⟨ho.pairwise.sublist (hsub.cons_cons head), fun x hx => ho.good x (hsub.subset hx)⟩

/-- A hole of an ordered list shares no byte with the others. -/
theorem Ordered.disjoint_remove {head h : HoleInfo} {pre post : List HoleInfo}
    (ho : Ordered head (pre ++ h :: post)) : Disjoint h.cells (holeCells (pre ++ post)) := by
  have hsep : List.Pairwise (fun x y => Before x y ∨ Before y x) (pre ++ h :: post) :=
    (List.pairwise_cons.mp ho.pairwise).2.imp Or.inl
  rw [List.pairwise_middle (fun h => h.symm)] at hsep
  have hgood : ∀ x ∈ pre ++ h :: post, x.Good := ho.good
  rw [Set.disjoint_right]
  intro x hx
  obtain ⟨h', hm, hx'⟩ := mem_holeCells.mp hx
  rcases (List.pairwise_cons.mp hsep).1 h' hm with hb | hb
  · exact Set.disjoint_right.mp (disjoint_of_before (hgood h (by simp)) hb) hx'
  · exact Set.disjoint_left.mp
      (disjoint_of_before (hgood h' (by simp at hm ⊢; tauto)) hb) hx'

/-- A good hole disjoint from `[a, a + s)` lies on one side of it. -/
theorem apart_of_disjoint {a s : Nat} {h : HoleInfo} (hg : h.Good) (hs : 0 < s)
    (hd : Disjoint (Set.Ico a (a + s)) h.cells) : Apart a s h := by
  have := hg.size_pos
  unfold Apart at *
  by_contra hc
  rw [Set.disjoint_left] at hd
  exact hd (a := max a h.addr) (by simp; omega) (by simp; omega)

/-- `LinkedList::align_layout` keeps the alignment and gives a multiple of the hole
alignment of at least `block_size()` bytes. -/
theorem alignLayout_spec {layout req : Layout} (h : alignLayout layout = some req) :
    req.Valid ∧ req.align = layout.align ∧ holeAlign ∣ req.size ∧ blockSize ≤ req.size ∧
      layout.size ≤ req.size := by
  unfold alignLayout at h
  obtain ⟨hv, rfl⟩ := Layout.fromSizeAlign_eq_some.mp h
  have hup := le_alignUp holeAlign_isPowerOfTwo
    (if layout.size < blockSize then blockSize else layout.size)
  refine ⟨hv, rfl, dvd_alignUp holeAlign_isPowerOfTwo _, ?_, ?_⟩ <;> dsimp only <;>
    split_ifs at hup ⊢ <;> omega

namespace LinkedList

/-- The bytes the list holds free. -/
def cells (l : LinkedList) : Set Nat := holeCells l.holes

/-- The number of bytes the list holds free. -/
def bytes (l : LinkedList) : Nat := holeBytes l.holes

/-- The hole-list invariant. -/
structure Inv (l : LinkedList) : Prop where
  head_size : l.firstHole.size = 0
  ordered : Ordered l.firstHole l.holes

variable {l : LinkedList} {a s : Nat}

/-- Every hole of the list is good. -/
theorem Inv.good (hl : l.Inv) {h : HoleInfo} (hm : h ∈ l.holes) : h.Good :=
  hl.ordered.good h hm

theorem deallocateFromHead_spec (hl : l.Inv) (ha : 0 < a) (hal : holeAlign ∣ a)
    (hsal : holeAlign ∣ s) (hs : blockSize ≤ s) (hd : Disjoint (Set.Ico a (a + s)) l.cells) :
    ∃ l', l.deallocateFromHead a s = some l' ∧ l'.Inv ∧
      l'.cells = l.cells ∪ Set.Ico a (a + s) ∧ l'.bytes = l.bytes + s := by
  have hap : ∀ h ∈ l.holes, Apart a s h := fun h hm =>
    apart_of_disjoint (hl.good hm) (Nat.lt_of_lt_of_le (by decide) hs)
      (hd.mono_right (fun x hx => mem_holeCells.mpr ⟨h, hm, hx⟩))
  obtain ⟨hole', next', heq, hf⟩ := deallocate_spec ha hal l.holes l.firstHole s hl.ordered
    (Or.inl hl.head_size) hsal hs (by simp [holeAddr, hl.head_size]) hap
  have hhead := hf.head_eq hl.head_size
  subst hhead
  refine ⟨⟨l.firstHole, next'⟩, by simp [deallocateFromHead, heq], ⟨hl.head_size, hf.ordered⟩,
    ?_, ?_⟩
  · have := hf.cells_eq
    simp only [holeCells_cons, HoleInfo.cells_of_size_zero hl.head_size, Set.empty_union]
      at this
    exact this
  · have := hf.bytes_eq
    simp only [holeBytes_cons, hl.head_size, Nat.zero_add] at this
    exact this

/-- A padding `[u, v)` as `split_hole` makes it, absent when it is empty: its bytes and their
number. -/
theorem padding_cells {u v : Nat} {c : Prop} [Decidable c] (hc : c ↔ u = v) (huv : u ≤ v) :
    holeCells (if c then none else some (⟨u, v - u⟩ : HoleInfo)).toList = Set.Ico u v ∧
      holeBytes (if c then none else some (⟨u, v - u⟩ : HoleInfo)).toList = v - u := by
  split_ifs with he
  · obtain rfl := hc.mp he
    simp
  · simp only [Option.toList_some, holeCells_cons, holeCells_nil, Set.union_empty,
      holeBytes_cons, holeBytes_nil, Nat.add_zero, HoleInfo.cells]
    exact ⟨by congr 1; omega, trivial⟩

/-- Freeing an absent padding changes nothing; freeing a present one adds it. -/
theorem deallocatePadding_spec (hl : l.Inv) {pad : Option HoleInfo}
    (hg : ∀ f ∈ pad, f.Good) (hd : Disjoint (holeCells pad.toList) l.cells) :
    ∃ l', l.deallocatePadding pad = some l' ∧ l'.Inv ∧
      l'.cells = l.cells ∪ holeCells pad.toList ∧ l'.bytes = l.bytes + holeBytes pad.toList := by
  cases pad with
  | none => exact ⟨l, rfl, hl, by simp, by simp⟩
  | some f =>
      have hf := hg f rfl
      obtain ⟨l', heq, hl', hc, hb⟩ := deallocateFromHead_spec hl hf.addr_pos hf.addr_dvd
        hf.size_dvd hf.size_ge (by simpa [HoleInfo.cells] using hd)
      exact ⟨l', heq, hl', by simpa [HoleInfo.cells] using hc, by simpa using hb⟩

/-- The free bytes of the list with one hole unlinked, and that hole's bytes. -/
theorem cells_remove (hl : l.Inv) {pre post : List HoleInfo} {h : HoleInfo}
    (hh : l.holes = pre ++ h :: post) :
    l.cells = holeCells (pre ++ post) ∪ h.cells ∧ Disjoint h.cells (holeCells (pre ++ post)) ∧
      l.bytes = holeBytes (pre ++ post) + h.size := by
  have ho : Ordered l.firstHole (pre ++ h :: post) := hh ▸ hl.ordered
  refine ⟨?_, ho.disjoint_remove, ?_⟩
  · simp only [cells, hh, holeCells_append, holeCells_cons]
    ac_rfl
  · simp only [bytes, hh, holeBytes_append, holeBytes_cons]
    omega

/-- `LinkedList::allocate` returns only when `align_layout` succeeds. -/
theorem alignLayout_of_allocate {layout : Layout} {r : LinkedList × Option Nat}
    (h : l.allocate layout = some r) : ∃ req, alignLayout layout = some req := by
  cases hreq : alignLayout layout with
  | none => simp [allocate, hreq] at h
  | some req => exact ⟨req, rfl⟩

/-- `LinkedList::allocate` does not panic once `align_layout` succeeds.  On success the
block is aligned to the layout, has `align_layout(layout).size()` bytes and is taken out of
the free set; on failure the list is unchanged. -/
theorem allocate_spec (hl : l.Inv) {layout req : Layout} (hreq : alignLayout layout = some req) :
    ∃ l' r, l.allocate layout = some (l', r) ∧ l'.Inv ∧ (r = none → l' = l) ∧
      ∀ p, r = some p → layout.align ∣ p ∧ holeAlign ∣ p ∧ 0 < p ∧
        Set.Ico p (p + req.size) ⊆ l.cells ∧ l'.cells = l.cells \ Set.Ico p (p + req.size) ∧
        l'.bytes + req.size = l.bytes := by
  obtain ⟨hv, hal, hdvd, _, _⟩ := alignLayout_spec hreq
  cases hff : allocateFirstFit l.holes req with
  | none => exact ⟨l, none, by simp [allocate, hreq, hff], hl, fun _ => rfl, by simp⟩
  | some found =>
  obtain ⟨al, rest⟩ := found
  obtain ⟨pre, h, post, hholes, rfl, hsplit⟩ := allocateFirstFit_eq_some hff
  have hg : h.Good := hl.good (by rw [hholes]; simp)
  have hs := splitHole_spec hg hv hsplit
  obtain ⟨hcells, hdis, hbytes⟩ := cells_remove hl hholes
  have hl1 : (⟨l.firstHole, pre ++ post⟩ : LinkedList).Inv :=
    ⟨hl.head_size, (hholes ▸ hl.ordered : Ordered l.firstHole (pre ++ h :: post)).remove⟩
  have hge := hs.addr_ge
  have hle := hs.end_le
  have hfc : holeCells al.frontPadding.toList = Set.Ico h.addr al.holeInfo.addr ∧
      holeBytes al.frontPadding.toList = al.holeInfo.addr - h.addr := by
    rw [hs.front_eq]
    exact padding_cells eq_comm hge
  have hbc : holeCells al.backPadding.toList =
        Set.Ico (al.holeInfo.addr + req.size) (h.addr + h.size) ∧
      holeBytes al.backPadding.toList = h.addr + h.size - (al.holeInfo.addr + req.size) := by
    rw [hs.back_eq]
    exact padding_cells Iff.rfl hle
  have hin : ∀ {u v : Nat}, h.addr ≤ u → v ≤ h.addr + h.size →
      Disjoint (Set.Ico u v) (holeCells (pre ++ post)) := fun hu hv =>
    hdis.mono_left (fun x hx => by simp only [Set.mem_Ico] at hx; simp; omega)
  obtain ⟨l2, h2, hl2, hc2, hb2⟩ := deallocatePadding_spec hl1
    (fun f hf => hs.front_good hg hf) (by rw [hfc.1]; exact hin le_rfl (by omega))
  obtain ⟨l3, h3, hl3, hc3, hb3⟩ := deallocatePadding_spec hl2
    (fun b hb => hs.back_good hg hdvd hb) (by
      rw [hbc.1, hc2, hfc.1, Set.disjoint_union_right]
      refine ⟨hin (by omega) le_rfl, ?_⟩
      rw [Set.disjoint_left]
      intro x hx hx'
      simp only [Set.mem_Ico] at hx hx'
      omega)
  refine ⟨l3, some al.holeInfo.addr, by simp [allocate, hreq, hff, h2, h3], hl3, by simp,
    fun q hq => ?_⟩
  cases hq
  refine ⟨hal ▸ hs.align_dvd, hs.holeAlign_dvd, by have := hg.addr_pos; omega, ?_, ?_, ?_⟩
  · intro x hx
    simp only [Set.mem_Ico] at hx
    rw [hcells]
    exact Or.inr (by simp; omega)
  · rw [hc3, hc2, hfc.1, hbc.1, hcells]
    ext x
    by_cases hx1 : x ∈ holeCells (pre ++ post)
    · have hxh : x ∉ h.cells := Set.disjoint_right.mp hdis hx1
      simp only [HoleInfo.mem_cells] at hxh
      simp only [cells, Set.mem_union, Set.mem_sdiff, Set.mem_Ico, HoleInfo.mem_cells, hx1,
        true_or, true_and, true_iff]
      omega
    · simp only [cells, Set.mem_union, Set.mem_sdiff, Set.mem_Ico, HoleInfo.mem_cells, hx1,
        false_or]
      omega
  · have e1 : l3.bytes = holeBytes (pre ++ post) + (al.holeInfo.addr - h.addr) +
        (h.addr + h.size - (al.holeInfo.addr + req.size)) := by
      rw [hb3, hb2, hfc.2, hbc.2]
      rfl
    rw [e1, hbytes]
    omega

/-- What `LinkedList::allocate` returns is first fit's answer: `None` when it finds no hole,
and otherwise the address of the block it cuts. -/
theorem allocate_firstFit {layout req : Layout} (hreq : alignLayout layout = some req)
    {l' : LinkedList} {r : Option Nat} (h : l.allocate layout = some (l', r)) :
    (r = none → allocateFirstFit l.holes req = none) ∧
      ∀ p, r = some p → ∃ al rest, allocateFirstFit l.holes req = some (al, rest) ∧
        p = al.holeInfo.addr := by
  cases hff : allocateFirstFit l.holes req with
  | none =>
      simp only [allocate, hreq, hff, Option.some.injEq, Prod.mk.injEq] at h
      exact ⟨fun _ => rfl, fun p hp => absurd (h.2.trans hp) (by simp)⟩
  | some found =>
      obtain ⟨al, rest⟩ := found
      simp only [allocate, hreq, hff, Option.map_eq_some_iff, Prod.mk.injEq] at h
      obtain ⟨l'', -, -, hr⟩ := h
      refine ⟨fun hn => absurd (hr.trans hn) (by simp), fun p hp => ⟨al, rest, rfl, ?_⟩⟩
      rw [← hr] at hp
      exact (Option.some.inj hp).symm

/-- First fit is complete: on a list of holes at multiples of `holeAlign`, `allocate` answers
`None` only when no hole has a place for the block (`Admits`), and otherwise cuts the block
at a place of the first hole, in address order, that has one. -/
theorem linkedList_allocate_first_fit {layout : Layout}
    (haddr : ∀ h ∈ l.holes, holeAlign ∣ h.addr)
    (hsorted : l.holes.Pairwise fun a b => a.addr < b.addr)
    {l' : LinkedList} {r : Option Nat} (h : l.allocate layout = some (l', r)) :
    ∃ req, alignLayout layout = some req ∧
      (r = none → ∀ hole ∈ l.holes, ∀ s, ¬ Admits hole layout.align req.size s) ∧
      ∀ p, r = some p → ∃ hole ∈ l.holes, Admits hole layout.align req.size p ∧
        ∀ h' ∈ l.holes, h'.addr < hole.addr → ∀ s, ¬ Admits h' layout.align req.size s := by
  obtain ⟨req, hreq⟩ := alignLayout_of_allocate h
  obtain ⟨hv, hal, -⟩ := alignLayout_spec hreq
  obtain ⟨hnone, hsome⟩ := allocate_firstFit hreq h
  rw [← hal]
  refine ⟨req, hreq, fun hr hole hm => ?_, fun p hp => ?_⟩
  · exact (splitHole_eq_none_iff (haddr hole hm) hv).mp
      (allocateFirstFit_eq_none.mp (hnone hr) hole hm)
  · obtain ⟨al, rest, hff, rfl⟩ := hsome p hp
    obtain ⟨pre, hole, post, hholes, -, hpre, hsplit⟩ := allocateFirstFit_eq_some_first hff
    have hmem : hole ∈ l.holes := by rw [hholes]; simp
    refine ⟨hole, hmem, splitHole_admits (haddr hole hmem) hv hsplit, fun h' hm' hlt => ?_⟩
    have hafter : ∀ x ∈ post, hole.addr < x.addr := by
      rw [hholes] at hsorted
      exact (List.pairwise_cons.mp (List.pairwise_append.mp hsorted).2.1).1
    have hpre' : h' ∈ pre := by
      rw [hholes] at hm'
      rcases List.mem_append.mp hm' with hm' | hm'
      · exact hm'
      · rcases List.mem_cons.mp hm' with rfl | hm'
        · exact absurd hlt (Nat.lt_irrefl _)
        · exact absurd (hafter h' hm') (Nat.lt_asymm hlt)
    exact (splitHole_eq_none_iff (haddr h' hm') hv).mp (hpre h' hpre')

/-- A block of `32` bytes aligned to `16`: the first hole, at `0x1008`, has no place for it,
and the block is cut at the start of the second. -/
theorem linkedList_allocate_first_fit_second_hole :
    (∀ h ∈ [(⟨0x1008, 32⟩ : HoleInfo), ⟨0x2000, 64⟩], holeAlign ∣ h.addr) ∧
    [(⟨0x1008, 32⟩ : HoleInfo), ⟨0x2000, 64⟩].Pairwise (fun a b => a.addr < b.addr) ∧
    (⟨⟨0, 0⟩, [⟨0x1008, 32⟩, ⟨0x2000, 64⟩]⟩ : LinkedList).allocate ⟨32, 16⟩ =
      some (⟨⟨0, 0⟩, [⟨0x1008, 32⟩, ⟨0x2020, 32⟩]⟩, some 0x2000) ∧
    ∃ req, alignLayout ⟨32, 16⟩ = some req ∧
      ((some 0x2000 : Option Nat) = none →
        ∀ hole ∈ [(⟨0x1008, 32⟩ : HoleInfo), ⟨0x2000, 64⟩], ∀ s, ¬ Admits hole 16 req.size s) ∧
      ∀ p, (some 0x2000 : Option Nat) = some p →
        ∃ hole ∈ [(⟨0x1008, 32⟩ : HoleInfo), ⟨0x2000, 64⟩], Admits hole 16 req.size p ∧
          ∀ h' ∈ [(⟨0x1008, 32⟩ : HoleInfo), ⟨0x2000, 64⟩], h'.addr < hole.addr →
            ∀ s, ¬ Admits h' 16 req.size s := by
  have hrun : (⟨⟨0, 0⟩, [⟨0x1008, 32⟩, ⟨0x2000, 64⟩]⟩ : LinkedList).allocate ⟨32, 16⟩ =
      some (⟨⟨0, 0⟩, [⟨0x1008, 32⟩, ⟨0x2020, 32⟩]⟩, some 0x2000) := by decide
  exact ⟨by decide, by decide, hrun, linkedList_allocate_first_fit (by decide) (by decide) hrun⟩

/-- `LinkedList::deallocate` frees the `align_layout(layout).size()` bytes of the block. -/
theorem deallocate_block_spec (hl : l.Inv) {layout req : Layout}
    (hreq : alignLayout layout = some req) {p : Nat} (hp : 0 < p) (hpal : holeAlign ∣ p)
    (hd : Disjoint (Set.Ico p (p + req.size)) l.cells) :
    ∃ l', l.deallocate p layout = some l' ∧ l'.Inv ∧
      l'.cells = l.cells ∪ Set.Ico p (p + req.size) ∧ l'.bytes = l.bytes + req.size := by
  obtain ⟨_, _, hdvd, hbs, _⟩ := alignLayout_spec hreq
  obtain ⟨l', heq, hl', hc, hb⟩ := deallocateFromHead_spec hl hp hpal hdvd hbs hd
  exact ⟨l', by simp [deallocate, hreq, heq], hl', hc, hb⟩

/-- For a region that is already a multiple of the hole alignment and at least
`block_size()` bytes, `align_layout` keeps its size. -/
theorem alignLayout_region {size : Nat} (hsal : holeAlign ∣ size) (hs : blockSize ≤ size)
    (hsize : size ≤ isizeMax) : alignLayout ⟨size, 1⟩ = some ⟨size, 1⟩ := by
  have hlt : ¬ size < blockSize := by omega
  simp only [alignLayout, hlt, if_false, alignUp_of_dvd holeAlign_isPowerOfTwo hsal]
  exact Layout.fromSizeAlign_eq_some.mpr ⟨⟨⟨0, rfl⟩, Nat.one_le_two_pow, by simpa using hsize⟩, rfl⟩

/-- `add_region` returns only for a size that `Layout` accepts with alignment one. -/
theorem size_le_of_addRegion {p size : Nat} {r : LinkedList × Option (Nat × Nat)}
    (h : l.addRegion p size = some r) : size ≤ isizeMax := by
  cases hreq : alignLayout ⟨size, 1⟩ with
  | none => simp [addRegion, deallocate, hreq] at h
  | some req =>
      obtain ⟨hv, hal, -, -, hle⟩ := alignLayout_spec hreq
      have hsz := hv.2.2
      dsimp only at hal hle
      omega

/-- `THeapPool::add_region` adds the region to the free set and returns no exceeding part. -/
theorem addRegion_spec (hl : l.Inv) {p size : Nat} (hp : 0 < p) (hpal : holeAlign ∣ p)
    (hsal : holeAlign ∣ size) (hs : blockSize ≤ size) (hsize : size ≤ isizeMax)
    (hd : Disjoint (Set.Ico p (p + size)) l.cells) :
    ∃ l', l.addRegion p size = some (l', none) ∧ l'.Inv ∧
      l'.cells = l.cells ∪ Set.Ico p (p + size) ∧ l'.bytes = l.bytes + size := by
  obtain ⟨l', heq, hl', hc, hb⟩ :=
    deallocate_block_spec hl (alignLayout_region hsal hs hsize) hp hpal hd
  exact ⟨l', by simp [addRegion, heq], hl', hc, hb⟩

end LinkedList

end Heap
end MeetixOs
