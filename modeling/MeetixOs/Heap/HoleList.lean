import MeetixOs.Heap.LinkedList
import Mathlib.Order.Interval.Set.LinearOrder
import Mathlib.Algebra.BigOperators.Group.List.Basic

/-!
# The hole list: its shape, its bytes, and what `deallocate` does to them

The invariant of the hole list is stated over the dummy head and the holes after it
(`Ordered`): every hole ends strictly before the next one starts, so that two holes are
never adjacent (`Before`, with the head ending at address `0` as `deallocate` computes
it), and every real hole is `Good`: at a positive multiple of `holeAlign`, with a size that
is a multiple of `holeAlign` and at least `blockSize`.

**Results.**
* `deallocate_spec`: from an ordered list and an area that lies after the starting hole,
  is disjoint from every hole and is itself aligned, `deallocate` does not panic and
  returns an ordered list whose bytes are the old ones plus the area (`Frees`).  The proof
  is one induction over the holes after the starting hole, with one case for each arm of
  the loop's `match`.
-/

namespace MeetixOs
namespace Heap

namespace HoleInfo

/-- The bytes of a hole. -/
def cells (h : HoleInfo) : Set Nat := Set.Ico h.addr (h.addr + h.size)

@[simp] theorem mem_cells {h : HoleInfo} {x : Nat} :
    x ∈ h.cells ↔ h.addr ≤ x ∧ x < h.addr + h.size :=
  Set.mem_Ico

/-- A hole as the list keeps it. -/
structure Good (h : HoleInfo) : Prop where
  addr_pos : 0 < h.addr
  addr_dvd : holeAlign ∣ h.addr
  size_dvd : holeAlign ∣ h.size
  size_ge : blockSize ≤ h.size

theorem Good.size_pos {h : HoleInfo} (hg : h.Good) : 0 < h.size :=
  Nat.lt_of_lt_of_le (by decide) hg.size_ge

theorem Good.holeAddr_eq {h : HoleInfo} (hg : h.Good) : holeAddr h = h.addr := by
  simp [holeAddr, hg.size_pos.ne']

/-- Growing a hole at its end adds the bytes after it. -/
theorem cells_grow (h : HoleInfo) (s : Nat) :
    ({ h with size := h.size + s } : HoleInfo).cells =
      h.cells ∪ Set.Ico (h.addr + h.size) (h.addr + h.size + s) := by
  unfold cells
  rw [Set.Ico_union_Ico_eq_Ico (Nat.le_add_right _ _) (Nat.le_add_right _ _), Nat.add_assoc]

theorem Good.grow {h : HoleInfo} (hg : h.Good) {s : Nat} (hs : holeAlign ∣ s) :
    ({ h with size := h.size + s } : HoleInfo).Good :=
  ⟨hg.addr_pos, hg.addr_dvd, Nat.dvd_add hg.size_dvd hs, le_trans hg.size_ge (Nat.le_add_right _ _)⟩

end HoleInfo

/-- The bytes of a list of holes. -/
def holeCells : List HoleInfo → Set Nat
  | [] => ∅
  | h :: l => h.cells ∪ holeCells l

@[simp] theorem holeCells_nil : holeCells [] = ∅ := rfl

@[simp] theorem holeCells_cons (h : HoleInfo) (l : List HoleInfo) :
    holeCells (h :: l) = h.cells ∪ holeCells l := rfl

theorem mem_holeCells {l : List HoleInfo} {x : Nat} :
    x ∈ holeCells l ↔ ∃ h ∈ l, x ∈ h.cells := by
  induction l with
  | nil => simp
  | cons h l ih => simp [ih]

/-- The number of free bytes of a list of holes. -/
def holeBytes (l : List HoleInfo) : Nat := (l.map HoleInfo.size).sum

@[simp] theorem holeBytes_nil : holeBytes [] = 0 := rfl

@[simp] theorem holeBytes_cons (h : HoleInfo) (l : List HoleInfo) :
    holeBytes (h :: l) = h.size + holeBytes l := by
  simp [holeBytes]

/-- `h` ends before `h'` starts, with at least one byte between them. -/
def Before (h h' : HoleInfo) : Prop := holeAddr h + h.size < h'.addr

/-- The shape of the list after the hole `head`. -/
structure Ordered (head : HoleInfo) (holes : List HoleInfo) : Prop where
  pairwise : List.Pairwise Before (head :: holes)
  good : ∀ h ∈ holes, h.Good

/-- A list ordered after `n` stays ordered after a hole that ends no later than `n`. -/
theorem Ordered.of_end_le {head n : HoleInfo} {rest : List HoleInfo} (ho : Ordered n rest)
    (hle : holeAddr head + head.size ≤ holeAddr n + n.size) : Ordered head rest := by
  refine ⟨List.pairwise_cons.mpr ⟨fun h hm => ?_, (List.pairwise_cons.mp ho.pairwise).2⟩,
    ho.good⟩
  have := (List.pairwise_cons.mp ho.pairwise).1 h hm
  unfold Before at this ⊢
  omega

/-- `[a, a + s)` and the hole `h` share no byte. -/
def Apart (a s : Nat) (h : HoleInfo) : Prop := a + s ≤ h.addr ∨ h.addr + h.size ≤ a

/-- What `deallocate hole next a s` returns when it returns `(hole', next')`. -/
structure Frees (hole : HoleInfo) (next : List HoleInfo) (a s : Nat)
    (hole' : HoleInfo) (next' : List HoleInfo) : Prop where
  addr_eq : hole'.addr = hole.addr
  head_eq : hole.size = 0 → hole' = hole
  good : hole.Good → hole'.Good
  ordered : Ordered hole' next'
  cells_eq : holeCells (hole' :: next') = holeCells (hole :: next) ∪ Set.Ico a (a + s)
  bytes_eq : holeBytes (hole' :: next') = holeBytes (hole :: next) + s

theorem Ordered.tail {head n : HoleInfo} {rest : List HoleInfo}
    (ho : Ordered head (n :: rest)) : Ordered n rest :=
  ⟨(List.pairwise_cons.mp ho.pairwise).2, fun h hm => ho.good h (List.mem_cons_of_mem _ hm)⟩

theorem Ordered.skip {head n : HoleInfo} {rest : List HoleInfo}
    (ho : Ordered head (n :: rest)) : Ordered head rest := by
  refine ⟨?_, fun h hm => ho.good h (List.mem_cons_of_mem _ hm)⟩
  have hp := ho.pairwise
  simp only [List.pairwise_cons, List.mem_cons] at hp ⊢
  exact ⟨fun h hm => hp.1 h (Or.inr hm), hp.2.2⟩

theorem Ordered.before_head {head n : HoleInfo} {rest : List HoleInfo}
    (ho : Ordered head (n :: rest)) : Before head n :=
  (List.pairwise_cons.mp ho.pairwise).1 n (List.mem_cons_self)

theorem Ordered.before_rest {head n : HoleInfo} {rest : List HoleInfo}
    (ho : Ordered head (n :: rest)) {h : HoleInfo} (hm : h ∈ rest) : Before n h :=
  (List.pairwise_cons.mp (List.pairwise_cons.mp ho.pairwise).2).1 h hm

/-- A list ordered after `n` is ordered after any hole that ends before `n`. -/
theorem Ordered.cons_before {head n : HoleInfo} {rest : List HoleInfo}
    (ho : Ordered n rest) (hn : n.Good) (hb : holeAddr head + head.size < n.addr) :
    Ordered head (n :: rest) := by
  refine ⟨?_, ?_⟩
  · refine List.pairwise_cons.mpr ⟨?_, ho.pairwise⟩
    intro h hm
    rcases List.mem_cons.mp hm with rfl | hm
    · exact hb
    · have := (List.pairwise_cons.mp ho.pairwise).1 h hm
      unfold Before at this ⊢
      rw [hn.holeAddr_eq] at this
      omega
  · intro h hm
    rcases List.mem_cons.mp hm with rfl | hm
    · exact hn
    · exact ho.good h hm

section Deallocate

variable {a : Nat}

/-- Merging into `hole` at a positive address means `hole` is not the dummy head. -/
theorem good_of_merge {hole : HoleInfo} (hh : hole.size = 0 ∨ hole.Good) (ha : 0 < a)
    (he : holeAddr hole + hole.size = a) : hole.Good := by
  rcases hh with h0 | hg
  · simp [holeAddr, h0] at he
    omega
  · exact hg

/-- The freed area, once it is known to be aligned and large enough, is a good hole. -/
theorem good_area {s : Nat} (ha : 0 < a) (hal : holeAlign ∣ a) (hsal : holeAlign ∣ s)
    (hs : blockSize ≤ s) : (⟨a, s⟩ : HoleInfo).Good :=
  ⟨ha, hal, hsal, hs⟩

/-- The area `[a, a + s)`, when it ends where the hole `n` starts, merged with `n`. -/
theorem Ico_merge_next {s : Nat} {n : HoleInfo} (hn : a + s = n.addr) :
    Set.Ico a (a + (s + n.size)) = Set.Ico a (a + s) ∪ n.cells := by
  rw [HoleInfo.cells, ← hn, ← Nat.add_assoc]
  exact (Set.Ico_union_Ico_eq_Ico (Nat.le_add_right _ _) (Nat.le_add_right _ _)).symm

/-- `deallocate` puts the area back: it does not panic, and `Frees` holds. -/
theorem deallocate_spec (ha : 0 < a) (hal : holeAlign ∣ a) :
    ∀ (next : List HoleInfo) (hole : HoleInfo) (s : Nat), Ordered hole next →
      (hole.size = 0 ∨ hole.Good) → holeAlign ∣ s → blockSize ≤ s →
      holeAddr hole + hole.size ≤ a → (∀ h ∈ next, Apart a s h) →
      ∃ hole' next', deallocate hole next a s = some (hole', next') ∧
        Frees hole next a s hole' next'
  | [], hole, s, ho, hh, hsal, hs, hle, _ => by
      have hmod : ¬ a % holeAlign ≠ 0 := by simp [Nat.mod_eq_zero_of_dvd hal]
      rw [deallocate]
      simp only [show ¬ s < blockSize by omega, show ¬ holeAddr hole + hole.size > a by omega,
        if_false]
      split_ifs with he
      · have hg := good_of_merge hh ha he
        rw [hg.holeAddr_eq] at he
        refine ⟨_, _, rfl, ⟨rfl, fun h0 => ?_, fun _ => hg.grow hsal, ?_, ?_, ?_⟩⟩
        · exact absurd h0 hg.size_pos.ne'
        · exact ⟨List.pairwise_singleton _ _, by simp⟩
        · rw [holeCells_cons, holeCells_cons, HoleInfo.cells_grow, he]
          simp [Set.union_comm]
        · simp
      · refine ⟨_, _, rfl, ⟨rfl, fun _ => rfl, id, ?_, ?_, ?_⟩⟩
        · exact Ordered.cons_before ⟨List.pairwise_singleton _ _, by simp⟩
            (good_area ha hal hsal hs) (by dsimp only; omega)
        · simp [HoleInfo.cells, Set.union_comm]
        · simp
  | n :: rest, hole, s, ho, hh, hsal, hs, hle, hap => by
      have hn : n.Good := ho.good n List.mem_cons_self
      have hbn : holeAddr hole + hole.size < n.addr := ho.before_head
      have hapn : a + s ≤ n.addr ∨ n.addr + n.size ≤ a := hap n List.mem_cons_self
      have hmod : ¬ a % holeAlign ≠ 0 := by simp [Nat.mod_eq_zero_of_dvd hal]
      have hnpos : 0 < n.size := hn.size_pos
      rw [deallocate]
      simp only [show ¬ s < blockSize by omega, show ¬ holeAddr hole + hole.size > a by omega,
        if_false]
      split_ifs with h1 h2 h3 h4
      · have hg := good_of_merge hh ha h1.1
        have hg' := hg.grow (Nat.dvd_add hsal hn.size_dvd)
        simp only [hg.holeAddr_eq] at h1
        refine ⟨_, _, rfl, ⟨rfl, fun h0 => ?_, fun _ => hg', ?_, ?_, ?_⟩⟩
        · exact absurd h0 hg.size_pos.ne'
        · apply ho.tail.of_end_le
          rw [hg'.holeAddr_eq, hn.holeAddr_eq]
          dsimp only
          omega
        · simp only [holeCells_cons, HoleInfo.cells_grow, h1.1, Ico_merge_next h1.2]
          ac_rfl
        · simp
          omega
      · have hg := good_of_merge hh ha h2
        have hg' := hg.grow hsal
        simp only [hg.holeAddr_eq] at h1 h2 hbn
        refine ⟨_, _, rfl, ⟨rfl, fun h0 => ?_, fun _ => hg', ?_, ?_, ?_⟩⟩
        · exact absurd h0 hg.size_pos.ne'
        · refine ho.tail.cons_before hn ?_
          rw [hg'.holeAddr_eq]
          dsimp only
          omega
        · simp only [holeCells_cons, HoleInfo.cells_grow, h2]
          ac_rfl
        · simp
          omega
      · obtain ⟨hole', next', heq, hf⟩ := deallocate_spec ha hal rest hole (s + n.size) ho.skip
          hh (Nat.dvd_add hsal hn.size_dvd) (by omega) hle (fun h hm => by
            have := ho.before_rest hm
            unfold Before at this
            rw [hn.holeAddr_eq] at this
            left
            omega)
        refine ⟨hole', next', heq, ⟨hf.addr_eq, hf.head_eq, hf.good, hf.ordered, ?_, ?_⟩⟩
        · rw [hf.cells_eq]
          simp only [holeCells_cons, Ico_merge_next h3]
          ac_rfl
        · rw [hf.bytes_eq]
          simp
          omega
      · obtain ⟨n', next', heq, hf⟩ := deallocate_spec ha hal rest n s ho.tail (Or.inr hn) hsal
          hs (by rw [hn.holeAddr_eq]; omega) (fun h hm => hap h (List.mem_cons_of_mem _ hm))
        refine ⟨hole, n' :: next', by rw [heq]; rfl, ⟨rfl, fun _ => rfl, id, ?_, ?_, ?_⟩⟩
        · exact hf.ordered.cons_before (hf.good hn) (by rw [hf.addr_eq]; exact hbn)
        · rw [holeCells_cons, hf.cells_eq]
          simp only [holeCells_cons]
          ac_rfl
        · have hb := hf.bytes_eq
          simp only [holeBytes_cons] at hb ⊢
          omega
      · have hga := good_area ha hal hsal hs
        refine ⟨_, _, rfl, ⟨rfl, fun _ => rfl, id, ?_, ?_, ?_⟩⟩
        · refine Ordered.cons_before (ho.tail.cons_before hn ?_) hga (by dsimp only; omega)
          rw [hga.holeAddr_eq]
          dsimp only
          omega
        · simp only [holeCells_cons, HoleInfo.cells]
          ac_rfl
        · simp
          omega

end Deallocate

end Heap
end MeetixOs
