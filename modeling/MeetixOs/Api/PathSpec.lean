import Mathlib
import MeetixOs.Api.Path
import MeetixOs.Lib.Split

/-!
# What the operations of `Path` keep

`render` is the text of a list of components as `as_string` writes it.  Every operation
leaves the components well formed (`Root` only first, names as `push` cuts them) and
`m_str_len` equal to `strLenOf`, the count that `do_push_component` keeps: each component
and one separator after each component but `Root` (`PathInv`, over every reachable path).

* `fromStr_components`: parsing a string keeps a leading `Root` and its nonempty pieces.
* `path_print_parse_round_trip`: a reachable path read back from its text has its own
  components, and the text of a parsed string is the string with its runs of separators
  collapsed and a trailing one dropped.
* `strLenOf_eq`: `m_str_len` counts one separator more than `as_string` writes whenever the
  last component is not `Root`.
-/

namespace MeetixOs
namespace Api

open PathComponent Split

namespace Path

/-- The text of a list of components: each one's, and a separator after each one but `Root`
and the last. -/
def render : List PathComponent → List Char
  | [] => []
  | [c] => c.asString
  | c :: d :: rest =>
    c.asString ++ (if c.needSeparatorBefore then separator else []) ++ render (d :: rest)

/-- The loop of `as_string` from its `k`-th component on appends the text of the rest. -/
theorem foldl_asStringStep (cs : List PathComponent) (acc : List Char) (k N : Nat)
    (hN : k + cs.length = N) : (cs.zipIdx k).foldl (asStringStep N) acc = acc ++ render cs := by
  induction cs generalizing acc k with
  | nil => simp [render]
  | cons c cs ih =>
    rw [List.zipIdx_cons, List.foldl_cons, ih _ (k + 1) (by simp at hN; omega)]
    cases cs with
    | nil =>
      have hk : ¬k < N - 1 := by simp at hN; omega
      simp [asStringStep, render, hk]
    | cons d ds =>
      have hk : k < N - 1 := by simp at hN; omega
      by_cases hs : c.needSeparatorBefore <;> simp [asStringStep, render, hk, hs]

theorem asString_eq_render (p : Path) : p.asString = render p.components :=
  (foldl_asStringStep p.components [] 0 _ (by simp)).trans (List.nil_append _)

/-- The text of components that follow others: their texts joined by separators. -/
theorem render_named {cs : List PathComponent} (h : ∀ c ∈ cs, c.Named) :
    render cs = [separatorChar].intercalate (cs.map PathComponent.asString) := by
  induction cs with
  | nil => rfl
  | cons c cs ih =>
    cases cs with
    | nil => simp [render]
    | cons d ds =>
      rw [render, if_pos (h c (by simp)).needSeparatorBefore,
        ih (fun x hx => h x (List.mem_cons_of_mem c hx))]
      simp [List.intercalate_cons_cons, separator]

theorem render_root_cons {cs : List PathComponent} (h : ∀ c ∈ cs, c.Named) :
    render (root :: cs) = separatorChar :: render cs := by
  cases cs with
  | nil => rfl
  | cons d ds => simp [render, needSeparatorBefore, isRoot, PathComponent.asString, separator]

/-- Components as the operations leave them: `Root` only first, the others components that
can follow one. -/
def WellFormed : List PathComponent → Prop
  | [] => True
  | c :: rest => (c = root ∨ c.Named) ∧ ∀ d ∈ rest, d.Named

/-- What a component adds to `m_str_len`: its length, and a separator unless it is `Root`. -/
def strLenPart (c : PathComponent) : Nat := c.len + if c.needSeparatorBefore then 1 else 0

/-- `m_str_len` as `do_push_component` counts it. -/
def strLenOf (cs : List PathComponent) : Nat := (cs.map strLenPart).sum

/-- The invariant of a path. -/
structure PathInv (p : Path) : Prop where
  well_formed : WellFormed p.components
  str_len : p.strLen = strLenOf p.components

section WellFormed

theorem WellFormed.mem {cs : List PathComponent} (h : WellFormed cs) :
    ∀ c ∈ cs, c = root ∨ c.Named := by
  cases cs with
  | nil => simp
  | cons c rest =>
    rintro d (_ | ⟨_, hd⟩)
    · exact h.1
    · exact Or.inr (h.2 d hd)

theorem WellFormed.append_named {cs : List PathComponent} (h : WellFormed cs) {c : PathComponent}
    (hc : c.Named) : WellFormed (cs ++ [c]) := by
  cases cs with
  | nil => exact ⟨Or.inr hc, by simp⟩
  | cons d rest =>
    refine ⟨h.1, fun x hx => ?_⟩
    rcases List.mem_append.mp hx with hx | hx
    · exact h.2 x hx
    · rw [List.mem_singleton.mp hx]
      exact hc

theorem WellFormed.dropLast {cs : List PathComponent} (h : WellFormed cs) :
    WellFormed cs.dropLast := by
  cases cs with
  | nil => trivial
  | cons d rest =>
    cases rest with
    | nil => trivial
    | cons e rest =>
      rw [List.dropLast_cons_of_ne_nil (List.cons_ne_nil e rest)]
      exact ⟨h.1, fun x hx => h.2 x (List.dropLast_subset _ hx)⟩

end WellFormed

theorem strLenOf_append (cs ds : List PathComponent) :
    strLenOf (cs ++ ds) = strLenOf cs + strLenOf ds := by
  simp [strLenOf]

/-- `do_push_component` in one equation: `Root` starts over. -/
theorem doPushComponent_eq (p : Path) (c : PathComponent) :
    p.doPushComponent c = ⟨(if c = root then [] else p.components) ++ [c],
      (if c = root then 0 else p.strLen) + strLenPart c⟩ := by
  cases c <;> rfl

theorem PathInv.default : PathInv default := ⟨trivial, rfl⟩

theorem PathInv.doPushComponent {p : Path} (hi : PathInv p) {c : PathComponent}
    (hc : c = root ∨ c.Named) : PathInv (p.doPushComponent c) := by
  rw [doPushComponent_eq]
  rcases hc with rfl | hc
  · exact ⟨⟨Or.inl rfl, by simp⟩, rfl⟩
  · have hne : c ≠ root := by rintro rfl; exact hc
    rw [if_neg hne, if_neg hne]
    refine ⟨hi.well_formed.append_named hc, ?_⟩
    rw [strLenOf_append, hi.str_len]
    simp [strLenOf]

/-- Pushing the pieces of a string, none of which is `Root`. -/
theorem foldl_doPushComponent (L : List (List Char)) (hL : ∀ x ∈ L, x ≠ [] ∧ separatorChar ∉ x)
    (q : Path) (hi : PathInv q) :
    PathInv (L.foldl (fun path x => path.doPushComponent (PathComponent.fromStr x)) q) ∧
    (L.foldl (fun path x => path.doPushComponent (PathComponent.fromStr x)) q).components =
      q.components ++ L.map PathComponent.fromStr := by
  induction L generalizing q with
  | nil => simp [hi]
  | cons x L ih =>
    have hx := hL x (by simp)
    have hnamed := named_fromStr hx.1 hx.2
    have hne : PathComponent.fromStr x ≠ root := by
      intro h
      rw [h] at hnamed
      exact hnamed
    obtain ⟨hinv, hcomp⟩ := ih (fun y hy => hL y (List.mem_cons_of_mem x hy)) _
      (hi.doPushComponent (Or.inr hnamed))
    refine ⟨hinv, ?_⟩
    rw [List.foldl_cons, hcomp, doPushComponent_eq, if_neg hne]
    simp

/-- `push` is a leading `Root` and the pieces of the string. -/
theorem push_eq (p : Path) (s : List Char) :
    p.push s = (pieces separatorChar s).foldl
      (fun path x => path.doPushComponent (PathComponent.fromStr x))
      (if separator.isPrefixOf s then p.doPushComponent root else p) := rfl

theorem isPrefixOf_separator (s : List Char) :
    separator.isPrefixOf s = true ↔ s.head? = some separatorChar := by
  cases s with
  | nil => simp [separator]
  | cons c s =>
    show (separatorChar == c && true) = true ↔ some c = some separatorChar
    rw [Bool.and_true, beq_iff_eq, Option.some.injEq, eq_comm]

theorem PathInv.push {p : Path} (hi : PathInv p) (s : List Char) : PathInv (p.push s) := by
  rw [push_eq]
  refine (foldl_doPushComponent _ (fun x hx => mem_pieces hx) _ ?_).1
  split_ifs
  · exact hi.doPushComponent (Or.inl rfl)
  · exact hi

/-- Parsing a string: a leading `Root`, then a component for each nonempty piece. -/
theorem fromStr_components (s : List Char) :
    (fromStr s).components = (if s.head? = some separatorChar then [root] else []) ++
      (pieces separatorChar s).map PathComponent.fromStr := by
  rw [fromStr, push_eq, (foldl_doPushComponent _ (fun x hx => mem_pieces hx) _ ?_).2]
  · by_cases h : s.head? = some separatorChar
    · rw [if_pos ((isPrefixOf_separator s).mpr h), if_pos h]
      rfl
    · rw [if_neg (fun h' => h ((isPrefixOf_separator s).mp h')), if_neg h]
      rfl
  · split_ifs
    · exact PathInv.default.doPushComponent (Or.inl rfl)
    · exact PathInv.default

/-- `pop_component` drops the last component and its part of `m_str_len`. -/
theorem PathInv.popComponent {p : Path} (hi : PathInv p) : PathInv p.popComponent.1 := by
  unfold Path.popComponent
  cases hlast : p.components.getLast? with
  | none => exact hi
  | some c =>
    have hsplit : p.components = p.components.dropLast ++ [c] :=
      (List.dropLast_append_getLast? c hlast).symm
    refine ⟨hi.well_formed.dropLast, ?_⟩
    have hlen := hi.str_len
    rw [hsplit, strLenOf_append] at hlen
    simp only [strLenOf, List.map_cons, List.map_nil, List.sum_cons, List.sum_nil,
      Nat.add_zero, strLenPart] at hlen
    simp only [strLenOf] at hlen ⊢
    split_ifs at hlen ⊢ <;> omega

theorem PathInv.normalizeStep {q : Path} (hi : PathInv q) {c : PathComponent}
    (hc : c = root ∨ c.Named) : PathInv (q.normalizeStep c) := by
  cases c with
  | root => exact hi.doPushComponent hc
  | objectName n => exact hi.doPushComponent hc
  | selfLink => exact hi
  | parentLink =>
    simp only [Path.normalizeStep]
    split_ifs
    · exact hi.doPushComponent hc
    · split
      · split_ifs
        · exact hi.popComponent
        · exact hi
      · exact hi

theorem PathInv.normalize {p : Path} (hi : PathInv p) : PathInv p.normalize := by
  have hfold : ∀ (cs : List PathComponent) (q : Path), (∀ c ∈ cs, c = root ∨ c.Named) →
      PathInv q → PathInv (cs.foldl Path.normalizeStep q) := by
    intro cs
    induction cs with
    | nil => exact fun _ _ hq => hq
    | cons c cs ih =>
      intro q hcs hq
      exact ih _ (fun d hd => hcs d (List.mem_cons_of_mem c hd))
        (hq.normalizeStep (hcs c (by simp)))
  have hnorm := hfold p.components Path.default hi.well_formed.mem PathInv.default
  simp only [Path.normalize]
  split_ifs
  · exact hnorm.doPushComponent (Or.inr trivial)
  · exact hnorm

/-- Every operation keeps the invariant. -/
theorem PathInv.apply {p : Path} (hi : PathInv p) (op : PathOp) : PathInv (PathOp.apply p op) := by
  cases op with
  | push s => exact hi.push s
  | pushString s => exact hi.push s
  | popComponent => exact hi.popComponent
  | normalize => exact hi.normalize
  | clear => exact PathInv.default

theorem PathReachable.inv {p : Path} (h : PathReachable p) : PathInv p :=
  Transition.Reachable.invariant (fun _ hp => hp ▸ PathInv.default)
    (fun _ _ hi ⟨op, hop⟩ => hop ▸ hi.apply op) h

section RoundTrip

theorem map_fromStr_asString {L : List PathComponent} (h : ∀ d ∈ L, d.Named) :
    (L.map PathComponent.asString).map PathComponent.fromStr = L := by
  induction L with
  | nil => rfl
  | cons d L ih =>
    rw [List.map_cons, List.map_cons, fromStr_asString (h d (by simp)),
      ih (fun x hx => h x (List.mem_cons_of_mem d hx))]

theorem map_asString_fromStr {L : List (List Char)} (h : ∀ l ∈ L, separatorChar ∉ l) :
    (L.map PathComponent.fromStr).map PathComponent.asString = L := by
  induction L with
  | nil => rfl
  | cons l L ih =>
    rw [List.map_cons, List.map_cons, asString_fromStr (h l (by simp)),
      ih (fun x hx => h x (List.mem_cons_of_mem l hx))]

/-- Joined pieces start as their first piece. -/
theorem head?_intercalate {l : List Char} (hl : l ≠ []) (L : List (List Char)) :
    ([separatorChar].intercalate (l :: L)).head? = l.head? := by
  cases L with
  | nil => simp
  | cons m L => rw [List.intercalate_cons_cons, List.append_assoc, List.head?_append_of_ne_nil _ hl]

/-- Reading back the text of well-formed components gives the components. -/
theorem fromStr_render {cs : List PathComponent} (h : WellFormed cs) :
    (fromStr (render cs)).components = cs := by
  rw [fromStr_components]
  cases cs with
  | nil => simp [render, pieces_nil]
  | cons c rest =>
    obtain ⟨hc, hrest⟩ := h
    rcases hc with rfl | hc
    · have hpieces : ∀ l ∈ rest.map PathComponent.asString, l ≠ [] ∧ separatorChar ∉ l := by
        simp only [List.mem_map]
        rintro l ⟨d, hd, rfl⟩
        exact asString_piece (hrest d hd)
      rw [render_root_cons hrest, render_named hrest, List.head?_cons, if_pos rfl,
        pieces_sep_cons, pieces_intercalate hpieces, map_fromStr_asString hrest]
      rfl
    · have hall : ∀ d ∈ c :: rest, d.Named := by
        rintro d (_ | ⟨_, hd⟩)
        · exact hc
        · exact hrest d hd
      have hpieces : ∀ l ∈ (c :: rest).map PathComponent.asString,
          l ≠ [] ∧ separatorChar ∉ l := by
        simp only [List.mem_map]
        rintro l ⟨d, hd, rfl⟩
        exact asString_piece (hall d hd)
      have hhead : ¬([separatorChar].intercalate ((c :: rest).map PathComponent.asString)).head? =
          some separatorChar := by
        rw [List.map_cons, head?_intercalate (asString_piece hc).1]
        intro h
        exact (asString_piece hc).2 (List.mem_of_head? h)
      rw [render_named hall, if_neg hhead, List.nil_append, pieces_intercalate hpieces,
        map_fromStr_asString hall]

theorem path_print_parse_round_trip {p : Path} (hp : PathReachable p) (s : List Char) :
    (fromStr p.asString).components = p.components ∧
    (fromStr s).asString = dropTrailing separatorChar (collapseRuns separatorChar s) := by
  refine ⟨?_, ?_⟩
  · rw [asString_eq_render]
    exact fromStr_render hp.inv.well_formed
  · have hnamed : ∀ d ∈ (pieces separatorChar s).map PathComponent.fromStr, d.Named := by
      simp only [List.mem_map]
      rintro d ⟨l, hl, rfl⟩
      exact named_fromStr (mem_pieces hl).1 (mem_pieces hl).2
    have hmap : ((pieces separatorChar s).map PathComponent.fromStr).map PathComponent.asString =
        pieces separatorChar s := map_asString_fromStr (fun l hl => (mem_pieces hl).2)
    rw [dropTrailing_collapseRuns, joinPieces, asString_eq_render, fromStr_components]
    split_ifs
    · rw [List.singleton_append, render_root_cons hnamed, render_named hnamed, hmap]
      rfl
    · rw [List.nil_append, render_named hnamed, hmap, List.nil_append]

/-- Read back from its text, `/a/../b` is the path `push` made of it. -/
theorem path_print_parse_round_trip_root_link_name :
    PathReachable (fromStr ['/', 'a', '/', '.', '.', '/', 'b']) ∧
    (fromStr (fromStr ['/', 'a', '/', '.', '.', '/', 'b']).asString).components =
      (fromStr ['/', 'a', '/', '.', '.', '/', 'b']).components ∧
    (fromStr ['a', '/', '/', 'b', '/']).asString =
      dropTrailing separatorChar (collapseRuns separatorChar ['a', '/', '/', 'b', '/']) := by
  have hr : PathReachable (fromStr ['/', 'a', '/', '.', '.', '/', 'b']) :=
    .step (.init rfl) ⟨.push ['/', 'a', '/', '.', '.', '/', 'b'], rfl⟩
  exact ⟨hr, path_print_parse_round_trip hr ['a', '/', '/', 'b', '/']⟩

end RoundTrip

section Length

theorem utf8Len_separator : utf8Len separator = 1 := rfl

/-- The separator `m_str_len` counts after the last component, which `as_string` does not
write. -/
def trailingSeparator (cs : List PathComponent) : Nat :=
  (cs.getLast?.map fun c => if c.needSeparatorBefore then 1 else 0).getD 0

/-- `m_str_len` is the length of the text and one more separator after a last component that
is not `Root`. -/
theorem strLenOf_eq : ∀ cs : List PathComponent,
    strLenOf cs = utf8Len (render cs) + trailingSeparator cs
  | [] => rfl
  | [c] => by
    simp [strLenOf, strLenPart, render, trailingSeparator, len_eq_utf8Len_asString]
  | c :: d :: rest => by
    have ih := strLenOf_eq (d :: rest)
    have hlast : trailingSeparator (c :: d :: rest) = trailingSeparator (d :: rest) := by
      simp [trailingSeparator, List.getLast?_cons_cons]
    rw [hlast]
    simp only [strLenOf, List.map_cons, List.sum_cons] at ih ⊢
    rw [ih, render, utf8Len_append, utf8Len_append, strLenPart, len_eq_utf8Len_asString]
    by_cases hs : c.needSeparatorBefore <;> simp [hs, utf8Len_separator] <;> omega

/-- `len` of a reachable path: the bytes of `as_string`, and one more when the last
component is not `Root`. -/
theorem len_eq_utf8Len_asString_add {p : Path} (hi : PathInv p) :
    p.len = utf8Len p.asString + trailingSeparator p.components := by
  rw [Path.len, hi.str_len, asString_eq_render]
  exact strLenOf_eq p.components

/-- The path `a`: `len` is 2, its text `a` has 1 byte. -/
theorem path_len_counts_trailing_separator :
    PathReachable (fromStr ['a']) ∧ (fromStr ['a']).len = 2 ∧
      utf8Len (fromStr ['a']).asString = 1 :=
  ⟨.step (.init rfl) ⟨.push ['a'], rfl⟩, by decide, by decide⟩

end Length

end Path

end Api
end MeetixOs
