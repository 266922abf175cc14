import Mathlib
import MeetixOs.Kernel.LayoutManager
import MeetixOs.Lib.IndexPerm

/-!
# Placing the components of the kernel's address space

`place_components` walks the components in the order it is given, and aligns each one up.
The only alignment that can waste space is the 2 MiB of `PhysMemMapping` after a component
whose size is not a multiple of 2 MiB; the waste, below 2 MiB, is carried in
`total_alignment_diff` until a shrinkable component gives it back.  So while the sizes are
whole pages and the shrinkable ones at least 2 MiB, and `PhysMemMapping` comes once:

* `placeComponent_spec`: one step, as the structure `PlaceStep`;
* `placeFrom_placed`: the whole loop, as the structure `Placed`: the ranges follow each other
  upwards, each at its alignment, and the address at the end is the start plus the sizes
  plus the waste still carried, which is none when a shrinkable component came last.

`randomizeComponents_spec` says what `randomize_components` returns: a permutation of the
sized components with a shrinkable one last.  `sortForConstructor_spec` says that sorting
gives back, at index `i`, the range placed for component `i`.

**Results.**
* `layoutManager_placement_sound`: for both orders, the four ranges handed to `new` belong
  to their components, are aligned, have the sizes of the fixed components, are disjoint and
  lie between `KERN_SPACE_BEGIN` and the kernel text.
-/

namespace MeetixOs
namespace Kernel

open Helps LayoutComponent

/-- Rounding a whole number of pages down to a page changes nothing. -/
theorem alignDown_page {x : Nat} (hx : page4KiBSize ∣ x) (hx64 : x < 2 ^ 64) :
    alignDown x page4KiBSize = x :=
  @alignDown_of_dvd x 12 hx64 (by decide) hx

/-- The sizes that `size_components` gives: whole pages, within a `usize`, and at least a
huge page for a shrinkable component. -/
structure SizedWell (c : LayoutComponent) : Prop where
  page_dvd : page4KiBSize ∣ c.virtSize
  lt_usize : c.virtSize < 2 ^ 64
  shrinkable_ge : c.isShrinkable = true → page2MiBSize ≤ c.virtSize

/-- What one `place_component` does: its range is `a..a + size`, and `diff'` is the waste
it leaves. -/
structure PlaceStep (c : LayoutComponent) (vm diff a size diff' : Nat) : Prop where
  le_start : vm ≤ a
  aligned : c.alignment ∣ a
  page_end : page4KiBSize ∣ a + size
  accounting : a + size + diff = vm + c.virtSize + diff'
  waste_dvd : page4KiBSize ∣ diff'
  waste_lt : diff' < page2MiBSize
  absorbed : c.isShrinkable = true → diff' = 0
  exact : c.isShrinkable = false → size = c.virtSize
  no_new_waste : c.alignment = page4KiBSize → diff' ≤ diff

section Step

variable {c : LayoutComponent} {vm diff : Nat}

/-- Aligning up a page-aligned address: a waste below 2 MiB in pages, only at a 2 MiB
alignment, where no waste was pending. -/
theorem alignUp_waste (hvm : page4KiBSize ∣ vm) (hdiff : page4KiBSize ∣ diff)
    (hlt : diff < page2MiBSize) (hpend : 0 < diff → c.alignment = page4KiBSize) :
    vm ≤ alignUp vm c.alignment ∧ c.alignment ∣ alignUp vm c.alignment ∧
    page4KiBSize ∣ diff + (alignUp vm c.alignment - vm) ∧
    diff + (alignUp vm c.alignment - vm) < page2MiBSize ∧
    (c.alignment = page4KiBSize → alignUp vm c.alignment = vm) := by
  have hpow := c.alignment_isPowerOfTwo
  have hle := le_alignUp hpow vm
  have hal := dvd_alignUp hpow vm
  refine ⟨hle, hal, ?_⟩
  rcases c.alignment_cases with h4 | h2
  · have heq : alignUp vm c.alignment = vm := alignUp_of_dvd hpow (h4 ▸ hvm)
    refine ⟨?_, ?_, fun _ => heq⟩ <;> rw [heq, Nat.sub_self, Nat.add_zero]
    · exact hdiff
    · exact hlt
  · have hzero : diff = 0 := by
      by_contra hne
      have := hpend (Nat.pos_of_ne_zero hne)
      rw [h2] at this
      exact absurd this (by decide)
    have hlt2 := alignUp_lt hpow vm
    have ha4 : page4KiBSize ∣ alignUp vm c.alignment :=
      Nat.dvd_trans c.page4KiBSize_dvd_alignment hal
    refine ⟨?_, ?_, fun h => absurd (h2 ▸ h) (by decide)⟩
    · rw [hzero, Nat.zero_add]
      exact Nat.dvd_sub ha4 hvm
    · omega

/-- One step of `place_components`. -/
theorem placeComponent_spec (hc : SizedWell c) (hvm : page4KiBSize ∣ vm)
    (hdiff : page4KiBSize ∣ diff) (hlt : diff < page2MiBSize)
    (hpend : 0 < diff → c.alignment = page4KiBSize) :
    ∃ a size diff', placeComponent c vm diff = some (⟨a, a + size⟩, a + size, diff') ∧
      PlaceStep c vm diff a size diff' := by
  obtain ⟨hle, hal, hw4, hwlt, hsame⟩ := alignUp_waste hvm hdiff hlt hpend
  have ha4 : page4KiBSize ∣ alignUp vm c.alignment :=
    Nat.dvd_trans c.page4KiBSize_dvd_alignment hal
  by_cases hshrink : 0 < diff + (alignUp vm c.alignment - vm) ∧ c.isShrinkable = true
  · obtain ⟨hpos, hs⟩ := hshrink
    have hal4 := alignment_of_isShrinkable hs
    have hge := hc.shrinkable_ge hs
    have hsub : page4KiBSize ∣ c.virtSize - (diff + (alignUp vm c.alignment - vm)) :=
      Nat.dvd_sub hc.page_dvd hw4
    have hdown : alignDown (c.virtSize - (diff + (alignUp vm c.alignment - vm))) c.alignment =
        c.virtSize - (diff + (alignUp vm c.alignment - vm)) := by
      have h64 := hc.lt_usize
      have h := alignDown_page hsub (by omega)
      rwa [← hal4] at h
    have hcheck : checkedSub c.virtSize (diff + (alignUp vm c.alignment - vm)) =
        some (c.virtSize - (diff + (alignUp vm c.alignment - vm))) := by
      rw [checkedSub, if_pos (by omega)]
    refine ⟨alignUp vm c.alignment, c.virtSize - (diff + (alignUp vm c.alignment - vm)), 0,
      by simp [placeComponent, hpos, hs, hcheck, hdown], ?_⟩
    refine ⟨hle, hal, Nat.dvd_add ha4 hsub, by omega, Nat.dvd_zero _, by decide,
      fun _ => rfl, fun h => absurd hs (by simp [h]), fun _ => Nat.zero_le _⟩
  · have hif : (decide (diff + (alignUp vm c.alignment - vm) > 0) && c.isShrinkable) = false := by
      simpa [Bool.and_eq_true] using hshrink
    refine ⟨_, _, _, by simp only [placeComponent, hif, Bool.false_eq_true, if_false]; rfl, ?_⟩
    refine ⟨hle, hal, Nat.dvd_add ha4 hc.page_dvd, by omega, hw4, hwlt, fun hs => ?_,
      fun _ => rfl, fun h4 => by rw [hsame h4]; omega⟩
    by_contra hne
    exact hshrink ⟨by omega, hs⟩

end Step

/-- What the loop needs at each step: page-aligned address and waste, the waste below a
huge page and pending only when no huge-page alignment is left, and at most one
`PhysMemMapping` to come. -/
structure PlaceInv (cs : List LayoutComponent) (vm diff : Nat) : Prop where
  vm_dvd : page4KiBSize ∣ vm
  waste_dvd : page4KiBSize ∣ diff
  waste_lt : diff < page2MiBSize
  pending : 0 < diff → ∀ c ∈ cs, c.alignment = page4KiBSize
  one_huge : cs.countP (fun c => c.alignment = page2MiBSize) ≤ 1
  sized : ∀ c ∈ cs, SizedWell c

/-- What the loop from `vm` with waste `diff` produced: the ranges `rs`, and `vmEnd` and
`diffEnd` at its end. -/
structure Placed (cs : List LayoutComponent) (vm diff : Nat) (rs : List VirtRange)
    (vmEnd diffEnd : Nat) : Prop where
  length_eq : rs.length = cs.length
  accounting : vmEnd + diff = vm + (cs.map virtSize).sum + diffEnd
  aligned : ∀ p ∈ cs.zip rs, p.1.alignment ∣ p.2.start
  exact : ∀ p ∈ cs.zip rs, p.1.isShrinkable = false → p.2.stop = p.2.start + p.1.virtSize
  within : ∀ r ∈ rs, vm ≤ r.start ∧ r.start ≤ r.stop ∧ r.stop ≤ vmEnd
  ordered : rs.Pairwise (fun r r' => r.stop ≤ r'.start)
  advance : vm ≤ vmEnd
  absorbed : ∀ c, cs.getLast? = some c → c.isShrinkable = true → diffEnd = 0

/-- The invariant after a step: a waste left by the huge-page alignment has no huge-page
alignment after it. -/
theorem PlaceInv.tail {c : LayoutComponent} {cs : List LayoutComponent}
    {vm diff a size diff' : Nat} (hinv : PlaceInv (c :: cs) vm diff)
    (hstep : PlaceStep c vm diff a size diff') : PlaceInv cs (a + size) diff' := by
  have hcount := hinv.one_huge
  rw [List.countP_cons] at hcount
  refine ⟨hstep.page_end, hstep.waste_dvd, hstep.waste_lt, fun hpos c' hc' => ?_, by omega,
    fun c' hc' => hinv.sized c' (List.mem_cons_of_mem c hc')⟩
  rcases c.alignment_cases with h4 | h2
  · exact hinv.pending (by have := hstep.no_new_waste h4; omega) c' (List.mem_cons_of_mem c hc')
  · have hnone : cs.countP (fun c => c.alignment = page2MiBSize) = 0 := by
      simp only [h2, decide_true, if_true] at hcount
      omega
    rw [List.countP_eq_zero] at hnone
    have := hnone c' hc'
    rcases c'.alignment_cases with h | h
    · exact h
    · simp [h] at this

/-- The loop of `place_components`, by induction on the components left. -/
theorem placeFrom_placed {cs : List LayoutComponent} {vm diff : Nat} (hinv : PlaceInv cs vm diff) :
    ∃ rs vmEnd diffEnd, placeFrom cs vm diff = some (rs, vmEnd, diffEnd) ∧
      Placed cs vm diff rs vmEnd diffEnd := by
  induction cs generalizing vm diff with
  | nil =>
    refine ⟨[], vm, diff, rfl, ⟨rfl, by simp, by simp, by simp, by simp, by simp, le_refl vm,
      by simp⟩⟩
  | cons c cs ih =>
    obtain ⟨a, size, diff', hplace, hstep⟩ := placeComponent_spec (hinv.sized c (by simp))
      hinv.vm_dvd hinv.waste_dvd hinv.waste_lt (fun hpos => hinv.pending hpos c (by simp))
    obtain ⟨rs, vmEnd, diffEnd, hrun, hp⟩ := ih (hinv.tail hstep)
    refine ⟨⟨a, a + size⟩ :: rs, vmEnd, diffEnd, by simp [placeFrom, hplace, hrun], ?_⟩
    have hacc := hstep.accounting
    have hacc' := hp.accounting
    refine ⟨by simp [hp.length_eq], ?_, ?_, ?_, ?_, ?_, ?_, ?_⟩
    · simp only [List.map_cons, List.sum_cons]
      omega
    · rintro p (hp0 | ⟨_, hp1⟩)
      · exact hstep.aligned
      · exact hp.aligned p hp1
    · rintro p (hp0 | ⟨_, hp1⟩)
      · exact fun h => by simp [hstep.exact h]
      · exact hp.exact p hp1
    · rintro r (hr0 | ⟨_, hr1⟩)
      · exact ⟨hstep.le_start, Nat.le_add_right a size, hp.advance⟩
      · obtain ⟨h1, h2, h3⟩ := hp.within r hr1
        exact ⟨by have := hstep.le_start; omega, h2, h3⟩
    · refine List.Pairwise.cons (fun r hr => (hp.within r hr).1) hp.ordered
    · have := hp.advance
      have := hstep.le_start
      omega
    · intro c' hlast hs
      cases cs with
      | nil =>
        simp only [List.getLast?_singleton, Option.some.injEq] at hlast
        subst hlast
        simp only [placeFrom, Option.some.injEq, Prod.mk.injEq] at hrun
        rw [← hrun.2.2]
        exact hstep.absorbed hs
      | cons d ds =>
        exact hp.absorbed c' (by simpa using hlast) hs

section Randomize

variable {sized : List LayoutComponent}

/-- The inner loop stops on a component not extracted yet. -/
theorem drawComponent_spec {extracted : List Bool} {randoms rest : List Nat} {i : Nat}
    (h : drawComponent sized extracted randoms = some (i, rest)) : extracted[i]? = some false := by
  induction randoms with
  | nil => simp [drawComponent] at h
  | cons r randoms ih =>
    simp only [drawComponent] at h
    split at h
    next hfree =>
      simp only [Option.some.injEq, Prod.mk.injEq] at h
      rw [← h.1]
      exact hfree
    next => exact ih h
    next => simp at h

/-- The `for` loop draws `n` distinct components, none extracted before. -/
theorem extractComponents_spec {n : Nat} {extracted : List Bool} {randoms : List Nat}
    {cs : List LayoutComponent} (h : extractComponents sized n extracted randoms = some cs) :
    ∃ idxs : List Nat, idxs.length = n ∧ idxs.Nodup ∧
      (∀ i ∈ idxs, extracted[i]? = some false) ∧ cs = idxs.map (fun i => sized.getD i default) := by
  induction n generalizing extracted randoms cs with
  | zero =>
    simp only [extractComponents, Option.some.injEq] at h
    exact ⟨[], rfl, List.nodup_nil, by simp, by simp [← h]⟩
  | succ n ih =>
    simp only [extractComponents, Option.bind_eq_bind, Option.bind_eq_some_iff] at h
    obtain ⟨⟨i, rest⟩, hdraw, c, hc, cs', hcs', hcons⟩ := h
    simp only [Option.pure_def, Option.some.injEq] at hcons
    obtain ⟨idxs, hlen, hnd, hfree, rfl⟩ := ih hcs'
    have hi := drawComponent_spec hdraw
    have hlt : i < extracted.length := by
      by_contra hge
      rw [List.getElem?_eq_none (by omega)] at hi
      exact absurd hi (by simp)
    have hne : ∀ j ∈ idxs, j ≠ i := by
      intro j hj hji
      have := hfree j hj
      rw [hji, List.getElem?_set_self hlt] at this
      exact absurd this (by simp)
    refine ⟨i :: idxs, by simp [hlen], List.nodup_cons.mpr ⟨fun hi' => hne i hi' rfl, hnd⟩,
      ?_, ?_⟩
    · rintro j (_ | ⟨_, hj⟩)
      · exact hi
      · have := hfree j hj
        rwa [List.getElem?_set_ne (hne j hj).symm] at this
    · rw [← hcons, List.map_cons, List.getD_eq_getElem?_getD, hc, Option.getD_some]

/-- The three indices drawn and the one of the shrinkable component are all four. -/
theorem perm_of_extracted {l : Nat} (hl : l < count) {idxs : List Nat}
    (hlen : idxs.length = count - 1) (hnd : idxs.Nodup)
    (hfree : ∀ i ∈ idxs, ((List.replicate count false).set l true)[i]? = some false) :
    (idxs ++ [l]).Perm (List.range count) := by
  have hbound : ∀ i ∈ idxs, i < count ∧ i ≠ l := by
    intro i hi
    have := hfree i hi
    by_cases hil : i = l
    · rw [hil, List.getElem?_set_self (by simpa using hl)] at this
      exact absurd this (by simp)
    · rw [List.getElem?_set_ne (Ne.symm hil), List.getElem?_replicate] at this
      split_ifs at this with hi4
      exact ⟨hi4, hil⟩
  refine IndexPerm.perm_range_of_nodup ?_ ?_ (by simp [hlen, count])
  · refine List.nodup_append.mpr ⟨hnd, List.nodup_singleton l, ?_⟩
    intro a ha b hb
    rw [List.mem_singleton.mp hb]
    exact (hbound a ha).2
  · intro i hi
    rcases List.mem_append.mp hi with hi | hi
    · exact (hbound i hi).1
    · rw [List.mem_singleton.mp hi]
      exact hl

/-- `randomize_components` returns the sized components in some order, with one of the two
shrinkable ones last. -/
theorem randomizeComponents_spec {c0 c1 c2 c3 : LayoutComponent} (h2 : c2.asIndex = 2)
    (h3 : c3.asIndex = 3) {randoms : List Nat} {comps : List LayoutComponent}
    (h : randomizeComponents [c0, c1, c2, c3] randoms = some comps) :
    comps.Perm [c0, c1, c2, c3] ∧ (comps.getLast? = some c2 ∨ comps.getLast? = some c3) := by
  cases randoms with
  | nil => simp [randomizeComponents] at h
  | cons r randoms =>
    have hlast : ∃ l, (l = 2 ∨ l = 3) ∧
        extractComponents [c0, c1, c2, c3] (count - 1)
          ((List.replicate count false).set l true) randoms >>= (fun cs =>
            some (cs ++ [[c0, c1, c2, c3].getD l default])) = some comps := by
      have k2 : (kernRegions 0).asIndex = 2 := rfl
      have k3 : (fsPageCache 0).asIndex = 3 := rfl
      rcases Nat.mod_two_eq_zero_or_one r with hr | hr
      · refine ⟨2, Or.inl rfl, ?_⟩
        simpa [randomizeComponents, shrinkables, hr, k2, h2] using h
      · refine ⟨3, Or.inr rfl, ?_⟩
        simpa [randomizeComponents, shrinkables, hr, k3, h3] using h
    obtain ⟨l, hl, hrun⟩ := hlast
    simp only [Option.bind_eq_bind, Option.bind_eq_some_iff, Option.some.injEq] at hrun
    obtain ⟨cs, hcs, rfl⟩ := hrun
    obtain ⟨idxs, hlen, hnd, hfree, rfl⟩ := extractComponents_spec hcs
    have hl4 : l < count := by rcases hl with rfl | rfl <;> decide
    have hperm := (perm_of_extracted hl4 hlen hnd hfree).map
      (fun i => [c0, c1, c2, c3].getD i default)
    rw [List.map_append, List.map_singleton] at hperm
    refine ⟨hperm, ?_⟩
    rcases hl with rfl | rfl
    · exact Or.inl (by simp)
    · exact Or.inr (by simp)

end Randomize

section SortBack

variable {c0 c1 c2 c3 : LayoutComponent}

/-- A component of the sized list is the one at its own index. -/
theorem eq_getD_asIndex (h0 : c0.asIndex = 0) (h1 : c1.asIndex = 1) (h2 : c2.asIndex = 2)
    (h3 : c3.asIndex = 3) {d : LayoutComponent} (hd : d ∈ [c0, c1, c2, c3]) :
    d = [c0, c1, c2, c3].getD d.asIndex default := by
  simp only [List.mem_cons, List.not_mem_nil, or_false] at hd
  rcases hd with rfl | rfl | rfl | rfl <;> simp [h0, h1, h2, h3]

/-- `sort_for_constructor` gives back, at index `i`, the range placed for component `i`. -/
theorem sortForConstructor_spec (h0 : c0.asIndex = 0) (h1 : c1.asIndex = 1)
    (h2 : c2.asIndex = 2) (h3 : c3.asIndex = 3) {comps : List LayoutComponent}
    (hperm : comps.Perm [c0, c1, c2, c3]) {rs : List VirtRange} (hlen : rs.length = comps.length) :
    ∃ r0 r1 r2 r3, sortForConstructor comps rs = some [r0, r1, r2, r3] ∧
      List.Forall₂ (fun c r => (c, r) ∈ comps.zip rs) [c0, c1, c2, c3] [r0, r1, r2, r3] ∧
      [r0, r1, r2, r3].Perm rs := by
  have hlen4 : comps.length = count := hperm.length_eq
  have hzip : (comps.zip rs).length = count := by simp [hlen, hlen4]
  have hkeys : ((comps.zip rs).map (fun p => p.1.asIndex)).Perm (List.range count) := by
    have hfst : (comps.zip rs).map (fun p => p.1.asIndex) = comps.map asIndex := by
      rw [show (fun p : LayoutComponent × VirtRange => p.1.asIndex) = asIndex ∘ Prod.fst from rfl,
        ← List.map_map, List.map_fst_zip (le_of_eq hlen.symm)]
    rw [hfst]
    exact (hperm.map asIndex).trans (by simp [h0, h1, h2, h3, count, List.range_succ])
  have hsorted := IndexPerm.insertionSort_map_key (fun p : LayoutComponent × VirtRange =>
    p.1.asIndex) hkeys
  set sorted := (comps.zip rs).insertionSort (fun p q => p.1.asIndex ≤ q.1.asIndex) with hsdef
  have hmem : ∀ p ∈ sorted, p ∈ comps.zip rs := fun p hp =>
    (List.perm_insertionSort _ (comps.zip rs)).mem_iff.mp hp
  have hpair : ∀ p ∈ sorted, p.1 = [c0, c1, c2, c3].getD p.1.asIndex default := fun p hp =>
    eq_getD_asIndex h0 h1 h2 h3 (hperm.mem_iff.mp (List.of_mem_zip (hmem p hp)).1)
  rw [show List.range count = [0, 1, 2, 3] from rfl] at hsorted
  obtain ⟨⟨d0, r0⟩, t0, hs0, hk0, ht0⟩ := List.map_eq_cons_iff.mp hsorted
  obtain ⟨⟨d1, r1⟩, t1, rfl, hk1, ht1⟩ := List.map_eq_cons_iff.mp ht0
  obtain ⟨⟨d2, r2⟩, t2, rfl, hk2, ht2⟩ := List.map_eq_cons_iff.mp ht1
  obtain ⟨⟨d3, r3⟩, t3, rfl, hk3, ht3⟩ := List.map_eq_cons_iff.mp ht2
  obtain rfl := List.map_eq_nil_iff.mp ht3
  refine ⟨r0, r1, r2, r3, ?_, ?_, ?_⟩
  · rw [sortForConstructor, if_neg (by omega), List.take_of_length_le (le_of_eq hzip)]
    dsimp only
    rw [← hsdef, hs0]
    rfl
  · have hd : ∀ p ∈ sorted, p ∈ comps.zip rs ∧ p.1 = [c0, c1, c2, c3].getD p.1.asIndex default :=
      fun p hp => ⟨hmem p hp, hpair p hp⟩
    rw [hs0] at hd
    simp only [List.mem_cons, List.not_mem_nil, or_false, forall_eq_or_imp, forall_eq] at hd
    obtain ⟨⟨m0, e0⟩, ⟨m1, e1⟩, ⟨m2, e2⟩, ⟨m3, e3⟩⟩ := hd
    simp only at hk0 hk1 hk2 hk3 e0 e1 e2 e3
    rw [hk0] at e0
    rw [hk1] at e1
    rw [hk2] at e2
    rw [hk3] at e3
    simp only [List.getD_cons_zero, List.getD_cons_succ] at e0 e1 e2 e3
    subst e0 e1 e2 e3
    exact List.Forall₂.cons m0 (.cons m1 (.cons m2 (.cons m3 .nil)))
  · have hsnd := (List.perm_insertionSort (fun p q : LayoutComponent × VirtRange =>
      p.1.asIndex ≤ q.1.asIndex) (comps.zip rs)).map Prod.snd
    rw [← hsdef, hs0, List.map_snd_zip (le_of_eq hlen)] at hsnd
    exact hsnd

end SortBack

/-- `size_components` returns the two fixed components and two shrinkable ones of a whole
number of pages, which fit below the kernel text. -/
theorem sizeComponents_spec {physMemSize kernTextBegin : Nat} {sized : List LayoutComponent}
    (hT : kernTextBegin < 2 ^ 64) (h : sizeComponents physMemSize kernTextBegin = some sized) :
    ∃ S, sized = [physMemMapping (alignUp physMemSize page2MiBSize), tmpMapping page2MiBSize,
        kernRegions S, fsPageCache S] ∧ page4KiBSize ∣ S ∧
      kernSpaceBegin + alignUp physMemSize page2MiBSize + page2MiBSize + 2 * S ≤ kernTextBegin := by
  simp only [sizeComponents, Option.bind_eq_bind, Option.bind_eq_some_iff, checkedSub_eq_some,
    Option.pure_def, Option.some.injEq] at h
  obtain ⟨rem₁, ⟨hle₁, rfl⟩, rem₂, ⟨hle₂, rfl⟩, rem₃, ⟨hle₃, rfl⟩, rfl⟩ := h
  have htwo : shrinkables.length = 2 := rfl
  rw [htwo]
  have hhalf : (kernTextBegin - kernSpaceBegin - alignUp physMemSize page2MiBSize - page2MiBSize) /
      2 < 2 ^ 64 := by omega
  refine ⟨_, rfl, @dvd_alignDown _ 12 hhalf (by decide), ?_⟩
  have hdown : alignDown _ page4KiBSize ≤ _ := @alignDown_le _ 12 hhalf (by decide)
  omega

/-- The loop on any order of the sized components that ends with a shrinkable one returns,
with no waste left, at the start plus the sizes. -/
theorem placeFrom_of_perm {pm S : Nat} (hpm : page2MiBSize ∣ pm) (hpm64 : pm < 2 ^ 64)
    (hS4 : page4KiBSize ∣ S) (hS64 : S < 2 ^ 64) (hS : page2MiBSize ≤ S)
    {comps : List LayoutComponent}
    (hperm : comps.Perm [physMemMapping pm, tmpMapping page2MiBSize, kernRegions S, fsPageCache S])
    (hlast : ∃ c, comps.getLast? = some c ∧ c.isShrinkable = true) :
    ∃ rs vmEnd, placeFrom comps kernSpaceBegin 0 = some (rs, vmEnd, 0) ∧
      Placed comps kernSpaceBegin 0 rs vmEnd 0 ∧
      vmEnd = kernSpaceBegin + pm + page2MiBSize + 2 * S := by
  have hsized : ∀ c ∈ comps, SizedWell c := by
    intro c hc
    simp only [hperm.mem_iff, List.mem_cons, List.not_mem_nil, or_false] at hc
    rcases hc with rfl | rfl | rfl | rfl
    · exact ⟨Nat.dvd_trans ⟨512, rfl⟩ hpm, hpm64, fun h => absurd h (by simp [isShrinkable])⟩
    · exact ⟨⟨512, rfl⟩, by decide, fun h => absurd h (by simp [isShrinkable])⟩
    · exact ⟨hS4, hS64, fun _ => hS⟩
    · exact ⟨hS4, hS64, fun _ => hS⟩
  have hone : comps.countP (fun c => c.alignment = page2MiBSize) ≤ 1 := by
    rw [hperm.countP_eq]
    simp [alignment, page4KiBSize, page2MiBSize, cKiB, cMiB]
  have hinv : PlaceInv comps kernSpaceBegin 0 :=
    ⟨by decide, Nat.dvd_zero _, by decide, fun h => absurd h (Nat.lt_irrefl 0),
      hone, hsized⟩
  obtain ⟨rs, vmEnd, diffEnd, hrun, hP⟩ := placeFrom_placed hinv
  obtain ⟨c, hc, hs⟩ := hlast
  have hzero := hP.absorbed c hc hs
  subst hzero
  refine ⟨rs, vmEnd, hrun, hP, ?_⟩
  have hacc := hP.accounting
  have hsum := (hperm.map virtSize).sum_nat
  simp only [List.map_cons, List.map_nil, List.sum_cons, List.sum_nil, virtSize] at hsum
  omega

/-- A range that ends before another starts shares no address with it. -/
theorem VirtRange.disjoint_of_stop_le {r r' : VirtRange} (h : r.stop ≤ r'.start) :
    Disjoint r.cells r'.cells := by
  rw [VirtRange.cells, VirtRange.cells, Set.Ico_disjoint_Ico]
  exact le_trans (min_le_left _ _) (le_trans h (le_max_right _ _))

/-- The ranges handed to `new`, one for each of the components `sized` of `size_components` in
the order of its fields, are sound: each is the range `place_components` gave its component
(`placed`), starts on the component's alignment and, for a component that does not shrink,
has its size; they are pairwise disjoint and lie between `KERN_SPACE_BEGIN` and the kernel
text. -/
structure LayoutSound (kernTextBegin : Nat) (sized : List LayoutComponent)
    (placed : List (LayoutComponent × VirtRange)) (ranges : List VirtRange) : Prop where
  owner : List.Forall₂ (fun c r => (c, r) ∈ placed) sized ranges
  aligned : List.Forall₂ (fun c r => c.alignment ∣ r.start) sized ranges
  exact : List.Forall₂ (fun c r => c.isShrinkable = false → r.stop = r.start + c.virtSize)
    sized ranges
  disjoint : ranges.Pairwise (fun r r' => Disjoint r.cells r'.cells)
  within : ∀ r ∈ ranges, kernSpaceBegin ≤ r.start ∧ r.start ≤ r.stop ∧ r.stop ≤ kernTextBegin

/-- The ranges of a run of the loop, reordered so that each has its owner at its index. -/
theorem LayoutSound.of_placed {kernTextBegin vmEnd : Nat} {sized comps : List LayoutComponent}
    {rs ordered : List VirtRange} (hP : Placed comps kernSpaceBegin 0 rs vmEnd 0)
    (hend : vmEnd ≤ kernTextBegin)
    (howner : List.Forall₂ (fun c r => (c, r) ∈ comps.zip rs) sized ordered)
    (hperm : ordered.Perm rs) : LayoutSound kernTextBegin sized (comps.zip rs) ordered := by
  refine ⟨howner, howner.imp (fun c r h => hP.aligned (c, r) h),
    howner.imp (fun c r h => hP.exact (c, r) h), ?_, fun r hr => ?_⟩
  · exact hperm.symm.pairwise (hP.ordered.imp VirtRange.disjoint_of_stop_le)
      (fun h => Disjoint.symm h)
  · obtain ⟨h1, h2, h3⟩ := hP.within r (hperm.mem_iff.mp hr)
    exact ⟨h1, h2, le_trans h3 hend⟩

/-- The placement of `LayoutManager`, in the plain order of `new_plain` and in every order
`randomize_components` draws, sorted back: the components get their sizes and the ranges are
sound. -/
theorem layoutManager_placement_sound {physMemSize kernTextBegin : Nat}
    (hT : kernTextBegin < 2 ^ 64) {sized : List LayoutComponent}
    (hsized : sizeComponents physMemSize kernTextBegin = some sized)
    (hS : ∀ c ∈ sized, c.isShrinkable = true → page2MiBSize ≤ c.virtSize) :
    (∃ S, sized = [physMemMapping (alignUp physMemSize page2MiBSize), tmpMapping page2MiBSize,
      kernRegions S, fsPageCache S]) ∧
    (∃ rs, placeComponents sized = some rs ∧
      LayoutSound kernTextBegin sized (sized.zip rs) rs) ∧
    ∀ randoms comps, randomizeComponents sized randoms = some comps →
      ∃ rs ordered, placeComponents comps = some rs ∧ sortForConstructor comps rs = some ordered ∧
        LayoutSound kernTextBegin sized (comps.zip rs) ordered := by
  obtain ⟨S, rfl, hS4, hbound⟩ := sizeComponents_spec hT hsized
  have hS2 : page2MiBSize ≤ S := hS (kernRegions S) (by simp) rfl
  have hpm : page2MiBSize ∣ alignUp physMemSize page2MiBSize := dvd_alignUp ⟨21, rfl⟩ _
  refine ⟨⟨S, rfl⟩, ?_, ?_⟩
  · obtain ⟨rs, vmEnd, hrun, hP, hend⟩ := placeFrom_of_perm hpm (by omega) hS4 (by omega) hS2
      (List.Perm.refl _) ⟨_, rfl, rfl⟩
    have hlen : rs.length = 4 := hP.length_eq
    obtain ⟨x0, x1, x2, x3, rfl⟩ : ∃ x0 x1 x2 x3, rs = [x0, x1, x2, x3] := by
      match rs, hlen with
      | [x0, x1, x2, x3], _ => exact ⟨x0, x1, x2, x3, rfl⟩
    refine ⟨_, by simp [placeComponents, hrun], LayoutSound.of_placed hP (by omega) ?_
      (List.Perm.refl _)⟩
    simp
  · intro randoms comps hrand
    obtain ⟨hperm, hlast⟩ := randomizeComponents_spec rfl rfl hrand
    obtain ⟨rs, vmEnd, hrun, hP, hend⟩ := placeFrom_of_perm hpm (by omega) hS4 (by omega) hS2
      hperm (by rcases hlast with h | h <;> exact ⟨_, h, rfl⟩)
    obtain ⟨r0, r1, r2, r3, hsort, howner, hperm'⟩ :=
      sortForConstructor_spec rfl rfl rfl rfl hperm hP.length_eq
    exact ⟨rs, _, by simp [placeComponents, hrun], hsort,
      LayoutSound.of_placed hP (by omega) howner hperm'⟩

/-- 512 MiB of physical memory and the kernel text 1 MiB above `KERN_VIRT_BASE`. -/
theorem layoutManager_placement_sound_512MiB :
    0xffff_ffff_c010_0000 < 2 ^ 64 ∧
    sizeComponents 0x2000_0000 0xffff_ffff_c010_0000 = some [physMemMapping 0x2000_0000,
      tmpMapping 0x20_0000, kernRegions 0x1fff_cff8_0000, fsPageCache 0x1fff_cff8_0000] ∧
    (∀ c ∈ [physMemMapping 0x2000_0000, tmpMapping 0x20_0000, kernRegions 0x1fff_cff8_0000,
      fsPageCache 0x1fff_cff8_0000], c.isShrinkable = true → page2MiBSize ≤ c.virtSize) ∧
    ((∃ S, [physMemMapping 0x2000_0000, tmpMapping 0x20_0000, kernRegions 0x1fff_cff8_0000,
        fsPageCache 0x1fff_cff8_0000] = [physMemMapping (alignUp 0x2000_0000 page2MiBSize),
        tmpMapping page2MiBSize, kernRegions S, fsPageCache S]) ∧
      (∃ rs, placeComponents [physMemMapping 0x2000_0000, tmpMapping 0x20_0000,
          kernRegions 0x1fff_cff8_0000, fsPageCache 0x1fff_cff8_0000] = some rs ∧
        LayoutSound 0xffff_ffff_c010_0000 [physMemMapping 0x2000_0000, tmpMapping 0x20_0000,
          kernRegions 0x1fff_cff8_0000, fsPageCache 0x1fff_cff8_0000]
          ([physMemMapping 0x2000_0000, tmpMapping 0x20_0000, kernRegions 0x1fff_cff8_0000,
            fsPageCache 0x1fff_cff8_0000].zip rs) rs) ∧
      ∀ randoms comps, randomizeComponents [physMemMapping 0x2000_0000, tmpMapping 0x20_0000,
          kernRegions 0x1fff_cff8_0000, fsPageCache 0x1fff_cff8_0000] randoms = some comps →
        ∃ rs ordered, placeComponents comps = some rs ∧
          sortForConstructor comps rs = some ordered ∧
          LayoutSound 0xffff_ffff_c010_0000 [physMemMapping 0x2000_0000, tmpMapping 0x20_0000,
            kernRegions 0x1fff_cff8_0000, fsPageCache 0x1fff_cff8_0000] (comps.zip rs) ordered) :=
  ⟨by decide, rfl, by decide, layoutManager_placement_sound (by decide) rfl (by decide)⟩

end Kernel
end MeetixOs
