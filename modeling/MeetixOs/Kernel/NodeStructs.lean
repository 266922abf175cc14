import MeetixOs.Api.PathComponent

/-!
# The keys of the node table

A model of `PathWrapper` of `Kernel/src/filesystem/node_structs.rs`, the key of the
`BTreeMap` of `NodeTable`.  `PathWrapper::new` appends the texts of the components, and keeps
their number as `_separators`; `Ord` is the order of the strings reversed, "such that ancestors
come after child paths".  `str::cmp` compares the UTF-8 bytes, which order as the characters
do, so it is `strCmp` on the characters.

`PathWrapper::new` writes `accumulator.add(..)` inside a `map` closure, which Rust does not
accept; the model appends, as the comment of the struct means.  The lookups of `NodeTable`
(`is_ancestor`, which indexes a `String` by a number, `get_match_of`, which builds
`NewBestScore`, and the trait methods, which call `path_to_str`) do not compile either and are
left out; the only part of them kept is the range `(Unbounded, bound)` they search, as
`inRange`.
-/

namespace MeetixOs
namespace Kernel

open Api

/-- `Ord for str`: the first differing character decides, and a proper prefix comes first. -/
def strCmp : List Char → List Char → Ordering
  | [], [] => .eq
  | [], _ :: _ => .lt
  | _ :: _, [] => .gt
  | a :: s, b :: t => if a < b then .lt else if a = b then strCmp s t else .gt

@[simp] theorem strCmp_cons_self (a : Char) (s t : List Char) :
    strCmp (a :: s) (a :: t) = strCmp s t := by
  simp [strCmp]

theorem strCmp_eq_iff {s t : List Char} : strCmp s t = .eq ↔ s = t := by
  induction s generalizing t with
  | nil => cases t <;> simp [strCmp]
  | cons a s ih =>
    cases t with
    | nil => simp [strCmp]
    | cons b t =>
      by_cases hab : a = b
      · subst hab; simp [ih]
      · simp only [strCmp, hab, if_false, List.cons.injEq, false_and, iff_false]
        split <;> simp

/-- A proper prefix comes before the longer string. -/
theorem strCmp_prefix {s r : List Char} (hr : r ≠ []) : strCmp s (s ++ r) = .lt := by
  induction s with
  | nil =>
    obtain ⟨c, r, rfl⟩ := List.exists_cons_of_ne_nil hr
    rfl
  | cons a s ih => simpa using ih

/-- `PathWrapper`. -/
structure PathWrapper where
  string : List Char
  separators : Nat
  deriving DecidableEq, Repr

namespace PathWrapper

/-- `PathWrapper::new`. -/
def new (path : List PathComponent) : PathWrapper :=
  ⟨path.foldl (fun accumulator pComp => accumulator ++ pComp.asString) [], path.length⟩

/-- `Ord::cmp`. -/
def cmp (self other : PathWrapper) : Ordering := (strCmp self.string other.string).swap

/-- `PartialOrd::partial_cmp`: `str::partial_cmp` is `Some` of `str::cmp`. -/
def partialCmp (self other : PathWrapper) : Option Ordering :=
  (some (strCmp self.string other.string)).bind fun o => some o.swap

/-- `PartialEq::eq`. -/
def eq (self _other : PathWrapper) : Bool := self.string == self.string

/-- The string of a path is the texts of its components, one after the other. -/
theorem new_string (path : List PathComponent) :
    (new path).string = (path.map PathComponent.asString).flatten := by
  suffices h : ∀ acc : List Char,
      path.foldl (fun accumulator pComp => accumulator ++ pComp.asString) acc =
        acc ++ (path.map PathComponent.asString).flatten by
    rw [new, h, List.nil_append]
  induction path with
  | nil => simp
  | cons c path ih => intro acc; simp [ih]

/-- The text of a component ends at no separator: two paths can share their string. -/
example : (new [.root, .objectName ['a'], .objectName ['b']]).string =
    (new [.root, .objectName ['a', 'b']]).string := by decide

theorem new_append_string (p rest : List PathComponent) :
    (new (p ++ rest)).string = (new p).string ++ (new rest).string := by
  simp [new_string]

/-- `Ord` is `Equal` exactly on equal strings. -/
theorem cmp_eq_iff {self other : PathWrapper} : self.cmp other = .eq ↔ self.string = other.string := by
  simp only [cmp, Ordering.swap_eq_eq, strCmp_eq_iff]

/-- `PartialEq` holds of any two keys: it compares the string of `self` with itself. -/
theorem eq_eq_true (self other : PathWrapper) : self.eq other = true := by
  simp [eq]

end PathWrapper

/-- `Bound<PathWrapper>` as the upper end of `BTreeMap::range((Bound::Unbounded, ..))`. -/
inductive UpperBound
  | included (bound : PathWrapper)
  | excluded (bound : PathWrapper)

/-- Whether `BTreeMap::range((Bound::Unbounded, bound))` yields the key `k`: the range runs up
to the bound in the order of `Ord`. -/
def UpperBound.inRange : UpperBound → PathWrapper → Bool
  | .included bound, k => k.cmp bound != .gt
  | .excluded bound, k => k.cmp bound == .lt

/-- No proper ancestor of a path lies in the ranges that `get_nearest_ancestor` and
`get_best_match` search, up to the path itself: ancestors come after it. -/
theorem inRange_ancestor {p rest : List PathComponent} (hrest : (PathWrapper.new rest).string ≠ []) :
    (UpperBound.excluded (PathWrapper.new (p ++ rest))).inRange (PathWrapper.new p) = false ∧
    (UpperBound.included (PathWrapper.new (p ++ rest))).inRange (PathWrapper.new p) = false := by
  have hgt : (PathWrapper.new p).cmp (PathWrapper.new (p ++ rest)) = .gt := by
    simp only [PathWrapper.cmp, PathWrapper.new_append_string, strCmp_prefix hrest,
      Ordering.swap_lt]
  simp [UpperBound.inRange, hgt]

/-- Two keys that `PartialEq` calls equal, and `Ord` orders. -/
theorem pathWrapper_eq_disagrees_with_cmp :
    (PathWrapper.new [.root, .objectName ['a']]).eq (PathWrapper.new [.root, .objectName ['b']]) = true ∧
    (PathWrapper.new [.root, .objectName ['a']]).cmp (PathWrapper.new [.root, .objectName ['b']]) =
      .gt :=
  ⟨PathWrapper.eq_eq_true _ _, by decide⟩

end Kernel
end MeetixOs
