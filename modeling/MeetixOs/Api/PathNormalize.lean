import MeetixOs.Api.PathSpec

/-!
# What `normalize` keeps and what it loses

`normalize` drops the `.` links and resolves a `..` against the name before it.  Its result
has the shape it promises (`normalize_shape`): `.` alone, or no `.` at all and only names after
the first component, so no `..` follows a `Root` or a name.

Its meaning is the directory stack that the components lead to, read lexically
(`lexicalResolve`).  A `..` that meets an empty result is kept, but a second `..` that meets
that kept `..` falls into the branch for a last component that is not a name, which does
nothing: `../..` normalizes to `..` (`normalize_loses_parent_link`).
-/

namespace MeetixOs
namespace Api

open PathComponent

namespace Path

/-- The directory stack that components lead to from the stack `d`, read lexically: `Root`
goes to the top, `.` stays, `..` goes one name up (not above the top), a name goes down. -/
def lexicalResolve : List (List Char) → List PathComponent → List (List Char)
  | d, [] => d
  | _, root :: cs => lexicalResolve [] cs
  | d, selfLink :: cs => lexicalResolve d cs
  | d, parentLink :: cs => lexicalResolve d.dropLast cs
  | d, objectName objName :: cs => lexicalResolve (d ++ [objName]) cs

/-- Components in the shape `normalize` gives: no `.` first, and only names after the first
component. -/
def Normal (cs : List PathComponent) : Prop :=
  cs.head? ≠ some selfLink ∧ ∀ c ∈ cs.tail, c.isObjectName = true

theorem popComponent_components (p : Path) :
    p.popComponent.1.components = p.components.dropLast := by
  unfold Path.popComponent
  cases h : p.components.getLast? with
  | none => rw [List.getLast?_eq_none_iff.mp h]; rfl
  | some c => rfl

theorem Normal.dropLast {cs : List PathComponent} (h : Normal cs) : Normal cs.dropLast := by
  cases cs with
  | nil => exact h
  | cons c rest =>
    cases rest with
    | nil => exact ⟨by simp, by simp⟩
    | cons d rest =>
      rw [List.dropLast_cons_of_ne_nil (List.cons_ne_nil d rest)]
      exact ⟨h.1, fun x hx => h.2 x (List.dropLast_subset _ hx)⟩

theorem Normal.append_name {cs : List PathComponent} (h : Normal cs) (objName : List Char) :
    Normal (cs ++ [objectName objName]) := by
  cases cs with
  | nil => exact ⟨by simp, by simp⟩
  | cons c rest =>
    refine ⟨h.1, fun x hx => ?_⟩
    simp only [List.cons_append, List.tail_cons, List.mem_append, List.mem_singleton] at hx
    rcases hx with hx | rfl
    · exact h.2 x hx
    · rfl

/-- One iteration of the loop of `normalize` keeps the shape. -/
theorem Normal.normalizeStep {q : Path} (h : Normal q.components) (c : PathComponent) :
    Normal (q.normalizeStep c).components := by
  cases c with
  | root => exact ⟨by simp [Path.normalizeStep, doPushComponent_eq], by simp [Path.normalizeStep, doPushComponent_eq]⟩
  | objectName objName =>
    simp only [Path.normalizeStep, doPushComponent_eq, reduceCtorEq, if_false]
    exact h.append_name objName
  | selfLink => exact h
  | parentLink =>
    simp only [Path.normalizeStep]
    split_ifs with hempty
    · have hnil : q.components = [] := by simpa [Path.isEmpty] using hempty
      rw [doPushComponent_eq, if_neg (by simp), hnil]
      exact ⟨by simp, by simp⟩
    · split
      · split_ifs
        · rw [popComponent_components]
          exact h.dropLast
        · exact h
      · exact h

/-- `normalize` gives `.` alone, or components without `.` and only names after the first:
no `.` but a lone one, and no `..` after a `Root` or a name. -/
theorem normalize_shape (p : Path) :
    p.normalize.components = [selfLink] ∨
      (p.normalize.components ≠ [] ∧ Normal p.normalize.components) := by
  have hfold : ∀ (cs : List PathComponent) (q : Path), Normal q.components →
      Normal (cs.foldl Path.normalizeStep q).components := by
    intro cs
    induction cs with
    | nil => exact fun _ hq => hq
    | cons c cs ih => exact fun q hq => ih _ (hq.normalizeStep c)
  have hnorm := hfold p.components Path.default ⟨by simp [Path.default], by simp [Path.default]⟩
  simp only [Path.normalize]
  split_ifs with hempty
  · left
    have hnil : (p.components.foldl Path.normalizeStep Path.default).components = [] := by
      simpa [Path.isEmpty] using hempty
    rw [doPushComponent_eq, if_neg (by simp), hnil]
    rfl
  · right
    exact ⟨by simpa [Path.isEmpty] using hempty, hnorm⟩

/-- `../..` normalizes to `..`: from the stack `x/y` the first leads to the top, the second
to `x`. -/
theorem normalize_loses_parent_link :
    PathReachable (fromStr ['.', '.', '/', '.', '.']) ∧
    (fromStr ['.', '.', '/', '.', '.']).components = [parentLink, parentLink] ∧
    (fromStr ['.', '.', '/', '.', '.']).normalize.components = [parentLink] ∧
    lexicalResolve [['x'], ['y']] (fromStr ['.', '.', '/', '.', '.']).components = [] ∧
    lexicalResolve [['x'], ['y']] (fromStr ['.', '.', '/', '.', '.']).normalize.components =
      [['x']] :=
  ⟨.step (.init rfl) ⟨.push ['.', '.', '/', '.', '.'], rfl⟩, by decide, by decide, by decide,
    by decide⟩

end Path

end Api
end MeetixOs
