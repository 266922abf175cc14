import Mathlib

/-!
# Spans of memory

An allocator hands out and takes back spans of memory: a start and a length, `(a, n)` for the
bytes `[a, a + n)`.  Its invariants say that the spans it knows of share no byte (`Disj`),
which bytes they cover (`cells`) and how many bytes they count (`bytes`).  Spans that an
allocator carves out of an area one after the other form a `Chain`: each starts where the one
before ends, so they share no byte and cover the area exactly.

The invariant of an allocator is that the spans it knows of, free or handed out, `Tiles` the
areas it was given: they share no byte, cover exactly the bytes of the areas and count as many.
An operation moves bytes between its spans (`Tiles.take`, `Tiles.give`) or adds an area
(`Tiles.add`).

A pool of an allocator keeps a list of spans, and the allocator the pools' lists one after
the other, `l.flatMap f`; an operation changes one pool's list (`perm_flatMap_of_eq_off`).
-/

namespace MeetixOs
namespace Spans

/-- The bytes `[a, a + n)` of the span `(a, n)`. -/
def span (x : Nat × Nat) : Set Nat := Set.Ico x.1 (x.1 + x.2)

/-- The bytes of a list of spans. -/
def cells (l : List (Nat × Nat)) : Set Nat := {a | ∃ x ∈ l, a ∈ span x}

/-- The number of bytes of a list of spans, overlaps counted twice. -/
def bytes (l : List (Nat × Nat)) : Nat := (l.map Prod.snd).sum

/-- No two spans of the list share a byte. -/
def Disj (l : List (Nat × Nat)) : Prop := l.Pairwise fun x y => Disjoint (span x) (span y)

/-- The spans are laid out one after the other from `a`, and the last one ends at `b`. -/
def Chain : Nat → List (Nat × Nat) → Nat → Prop
  | a, [], b => a = b
  | a, x :: l, b => x.1 = a ∧ Chain (a + x.2) l b

section Cells

variable {l l' : List (Nat × Nat)} {x : Nat × Nat}

theorem mem_cells {a : Nat} : a ∈ cells l ↔ ∃ x ∈ l, a ∈ span x := Iff.rfl

@[simp] theorem cells_nil : cells [] = ∅ := by
  ext a
  simp [mem_cells]

@[simp] theorem cells_cons : cells (x :: l) = span x ∪ cells l := by
  ext a
  simp [mem_cells]

@[simp] theorem cells_append : cells (l ++ l') = cells l ∪ cells l' := by
  ext a
  simp only [mem_cells, List.mem_append, Set.mem_union]
  constructor
  · rintro ⟨y, hy | hy, ha⟩
    · exact .inl ⟨y, hy, ha⟩
    · exact .inr ⟨y, hy, ha⟩
  · rintro (⟨y, hy, ha⟩ | ⟨y, hy, ha⟩)
    · exact ⟨y, .inl hy, ha⟩
    · exact ⟨y, .inr hy, ha⟩

theorem span_subset_cells (hx : x ∈ l) : span x ⊆ cells l := fun _ ha => ⟨x, hx, ha⟩

theorem cells_perm (h : l.Perm l') : cells l = cells l' := by
  ext a
  simp only [mem_cells, h.mem_iff]

/-- A set misses the cells of a list exactly when it misses every span of it. -/
theorem disjoint_cells_iff {s : Set Nat} :
    Disjoint s (cells l) ↔ ∀ y ∈ l, Disjoint s (span y) := by
  constructor
  · intro h y hy
    exact h.mono_right (span_subset_cells hy)
  · intro h
    rw [Set.disjoint_right]
    rintro a ⟨y, hy, ha⟩ has
    exact Set.disjoint_left.mp (h y hy) has ha

end Cells

section Bytes

variable {l l' : List (Nat × Nat)} {x : Nat × Nat}

@[simp] theorem bytes_nil : bytes [] = 0 := rfl

@[simp] theorem bytes_cons : bytes (x :: l) = x.2 + bytes l := by
  simp [bytes]

@[simp] theorem bytes_append : bytes (l ++ l') = bytes l + bytes l' := by
  simp [bytes]

theorem bytes_perm (h : l.Perm l') : bytes l = bytes l' :=
  (h.map Prod.snd).sum_eq

end Bytes

section Disj

variable {l l' : List (Nat × Nat)} {x : Nat × Nat}

theorem disj_cons : Disj (x :: l) ↔ Disjoint (span x) (cells l) ∧ Disj l := by
  rw [Disj, List.pairwise_cons, disjoint_cells_iff]
  rfl

theorem disj_append :
    Disj (l ++ l') ↔ Disj l ∧ Disj l' ∧ Disjoint (cells l) (cells l') := by
  rw [Disj, List.pairwise_append, disjoint_cells_iff]
  refine and_congr_right fun _ => and_congr_right fun _ => ?_
  constructor
  · intro h y hy
    rw [disjoint_comm, disjoint_cells_iff]
    exact fun z hz => (h z hz y hy).symm
  · intro h z hz y hy
    have := (h y hy).symm
    rw [disjoint_cells_iff] at this
    exact (this z hz).symm

theorem Disj.perm (h : l.Perm l') (hd : Disj l) : Disj l' :=
  (h.pairwise_iff fun hxy => hxy.symm).mp hd

/-- A span misses the spans before it. -/
theorem Disj.disjoint_mid (hd : Disj (l ++ x :: l')) : Disjoint (span x) (cells l) := by
  have h := (disj_append.mp hd).2.2
  rw [cells_cons] at h
  exact (h.mono_right Set.subset_union_left).symm

end Disj

section Chain

variable {a b c : Nat} {l l' : List (Nat × Nat)}

theorem Chain.le : ∀ {a : Nat} {l : List (Nat × Nat)}, Chain a l b → a ≤ b
  | _, [], h => Nat.le_of_eq h
  | _, _ :: _, h => Nat.le_trans (Nat.le_add_right _ _) h.2.le

theorem Chain.append : ∀ {a : Nat} {l : List (Nat × Nat)}, Chain a l b → Chain b l' c →
    Chain a (l ++ l') c
  | _, [], h, h' => h ▸ h'
  | _, _ :: _, h, h' => ⟨h.1, h.2.append h'⟩

/-- Spans laid out one after the other cover the bytes from the first start to the last
end. -/
theorem Chain.cells : ∀ {a : Nat} {l : List (Nat × Nat)}, Chain a l b → cells l = Set.Ico a b
  | _, [], h => by rw [cells_nil, h, Set.Ico_self]
  | a, x :: _, h => by
    rw [cells_cons, h.2.cells, span, h.1]
    exact Set.Ico_union_Ico_eq_Ico (Nat.le_add_right _ _) h.2.le

theorem Chain.bytes : ∀ {a : Nat} {l : List (Nat × Nat)}, Chain a l b → Spans.bytes l = b - a
  | _, [], h => by rw [bytes_nil, h, Nat.sub_self]
  | a, x :: _, h => by
    have hle := h.2.le
    rw [bytes_cons, h.2.bytes]
    omega

/-- Spans laid out one after the other share no byte: each one ends where the rest begin. -/
theorem Chain.disj : ∀ {a : Nat} {l : List (Nat × Nat)}, Chain a l b → Disj l
  | _, [], _ => List.Pairwise.nil
  | a, x :: _, h => by
    refine disj_cons.mpr ⟨?_, h.2.disj⟩
    rw [h.2.cells, span, h.1]
    exact Set.Ico_disjoint_Ico_same

/-- `n` blocks of `k` bytes from `a`, in address order. -/
theorem chain_range (a k : Nat) :
    ∀ n, Chain a ((List.range n).map fun i => (a + i * k, k)) (a + n * k)
  | 0 => by simp [Chain]
  | n + 1 => by
    rw [List.range_succ, List.map_append]
    refine (chain_range a k n).append ⟨rfl, ?_⟩
    show a + n * k + k = a + (n + 1) * k
    rw [Nat.succ_mul, Nat.add_assoc]

/-- An area of `n` bytes from `a` cut into whole blocks of `k` bytes, in address order, and
the bytes after the last whole block, if any. -/
theorem chain_blocks (a n : Nat) {k : Nat} :
    Chain a ((List.range (n / k)).map (fun i => (a + i * k, k)) ++
      if n % k = 0 then [] else [(a + (n - n % k), n % k)]) (a + n) := by
  have hdm : n / k * k + n % k = n := by rw [Nat.mul_comm]; exact Nat.div_add_mod n k
  have hq := chain_range a k (n / k)
  split
  · rw [List.append_nil]
    have hend : a + n / k * k = a + n := by omega
    exact hend ▸ hq
  · refine hq.append ⟨?_, ?_⟩
    · show a + (n - n % k) = a + n / k * k
      omega
    · show a + n / k * k + n % k = a + n
      omega

end Chain

/-- The spans of `l` share no byte and cover exactly the bytes of the areas `r`, which they
count. -/
structure Tiles (l r : List (Nat × Nat)) : Prop where
  disj : Disj l
  cells_eq : cells l = cells r
  bytes_eq : bytes l = bytes r

section Tiles

variable {l l' a a' q r : List (Nat × Nat)} {x y : Nat × Nat}

theorem Tiles.perm (h : Tiles l r) (hp : l.Perm l') : Tiles l' r :=
  ⟨h.disj.perm hp, (cells_perm hp).symm.trans h.cells_eq, (bytes_perm hp).symm.trans h.bytes_eq⟩

theorem Tiles.subset (h : Tiles l r) (hx : x ∈ l) : span x ⊆ cells r :=
  h.cells_eq ▸ span_subset_cells hx

/-- Some of the spans replaced by others over the same bytes. -/
theorem Tiles.replace (h : Tiles (a ++ l) r) (hd : Disj a') (hc : cells a' = cells a)
    (hb : bytes a' = bytes a) : Tiles (a' ++ l) r := by
  obtain ⟨-, hdl, hal⟩ := disj_append.mp h.disj
  refine ⟨disj_append.mpr ⟨hd, hdl, hc ▸ hal⟩, ?_, ?_⟩
  · rw [cells_append, hc, ← cells_append, h.cells_eq]
  · rw [bytes_append, hb, ← bytes_append, h.bytes_eq]

/-- A span cut out of the free spans `a`, which become `a'`. -/
theorem Tiles.take (h : Tiles (a ++ l) r) (hd : Disj a') (hx : span x ⊆ cells a)
    (hc : cells a' = cells a \ span x) (hb : bytes a' + x.2 = bytes a) :
    Tiles (a' ++ x :: l) r := by
  have hd' : Disj (a' ++ [x]) := by
    refine disj_append.mpr ⟨hd, List.pairwise_singleton _ _, ?_⟩
    rw [hc, cells_cons, cells_nil, Set.union_empty]
    exact Set.disjoint_sdiff_left
  have h' := h.replace hd' (by rw [cells_append, hc, cells_cons, cells_nil, Set.union_empty,
    Set.sdiff_union_of_subset hx]) (by rw [bytes_append, bytes_cons, bytes_nil, Nat.add_zero, hb])
  rwa [List.append_assoc, List.singleton_append] at h'

/-- A span given back to the free spans `a`, which become `a'`. -/
theorem Tiles.give (h : Tiles (a ++ x :: l) r) (hd : Disj a') (hc : cells a' = cells a ∪ span x)
    (hb : bytes a' = bytes a + x.2) : Tiles (a' ++ l) r := by
  rw [← List.singleton_append, ← List.append_assoc] at h
  refine h.replace hd ?_ ?_
  · rw [hc, cells_append, cells_cons, cells_nil, Set.union_empty]
  · rw [hb, bytes_append, bytes_cons, bytes_nil, Nat.add_zero]

/-- A new area `y`, tiled by `q`, next to the areas `r`. -/
theorem Tiles.add (h : Tiles l r) (hq : Tiles q [y]) (hd : Disjoint (span y) (cells r)) :
    Tiles (q ++ l) (y :: r) := by
  refine ⟨disj_append.mpr ⟨hq.disj, h.disj, ?_⟩, ?_, ?_⟩
  · rw [hq.cells_eq, h.cells_eq, cells_cons, cells_nil, Set.union_empty]
    exact hd
  · rw [cells_append, hq.cells_eq, h.cells_eq, cells_cons, cells_cons, cells_nil,
      Set.union_empty]
  · rw [bytes_append, hq.bytes_eq, h.bytes_eq, bytes_cons, bytes_cons, bytes_nil, Nat.add_zero]

theorem tiles_singleton (x : Nat × Nat) : Tiles [x] [x] :=
  ⟨List.pairwise_singleton _ _, rfl, rfl⟩

/-- Spans laid out one after the other tile the area they run over. -/
theorem Chain.tiles {a n : Nat} (h : Chain a l (a + n)) : Tiles l [(a, n)] := by
  refine ⟨h.disj, ?_, ?_⟩
  · rw [h.cells, cells_cons, cells_nil, Set.union_empty]
    rfl
  · rw [h.bytes, bytes_cons, bytes_nil]
    omega

end Tiles

section FlatMap

variable {α β : Type} {l : List α} {a : α}

/-- The pools' lists one after the other, when one pool's list gains `x` in front and the
others stay: the same spans as before, with `x` in front. -/
theorem perm_flatMap_of_eq_off (hl : l.Nodup) (ha : a ∈ l) {f g : α → List β} {x : List β}
    (hfg : ∀ c, c ≠ a → f c = g c) (hx : f a = x ++ g a) :
    (l.flatMap f).Perm (x ++ l.flatMap g) := by
  induction l with
  | nil => cases ha
  | cons c l ih =>
    obtain ⟨hc, hl⟩ := List.nodup_cons.mp hl
    rw [List.flatMap_cons, List.flatMap_cons]
    rcases List.mem_cons.mp ha with rfl | ha
    · have hrest : l.flatMap f = l.flatMap g :=
        List.flatMap_congr fun b hb => hfg b fun h => hc (h ▸ hb)
      rw [hx, hrest, List.append_assoc]
    · have hca : c ≠ a := fun h => hc (h ▸ ha)
      rw [hfg c hca]
      have hswap : ((g c ++ x) ++ l.flatMap g).Perm ((x ++ g c) ++ l.flatMap g) :=
        List.perm_append_comm.append_right _
      rw [List.append_assoc, List.append_assoc] at hswap
      exact ((ih hl ha).append_left _).trans hswap

/-- An area added to an allocator: its blocks `q` go in front of the free list of a pool, whose
spans become `s'`, and the bytes `e` after the last whole block go to another pool, whose spans
come first. -/
theorem perm_area [DecidableEq β] {q e h s s' t : List β} (hs : s'.Perm (q ++ s)) :
    ((q ++ e) ++ (h ++ (s ++ t))).Perm (h ++ (e ++ (s' ++ t))) := by
  refine List.perm_iff_count.mpr fun b => ?_
  have hb := hs.count_eq b
  simp only [List.count_append] at hb ⊢
  omega

end FlatMap

end Spans
end MeetixOs
