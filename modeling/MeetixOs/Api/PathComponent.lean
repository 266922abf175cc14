import Mathlib

/-!
# The components of a path

A model of `PathComponent` of `LibApiData/src/path.rs`.  A `&str` is the list of its
characters; `str::len`, the length in bytes of its UTF-8 encoding, is `utf8Len`.
`PathExistsState`, the answer of a system call, is not used by anything modelled here.
-/

namespace MeetixOs
namespace Api

/-- `str::len`: the bytes of the UTF-8 encoding. -/
def utf8Len (s : List Char) : Nat := (s.map Char.utf8Size).sum

@[simp] theorem utf8Len_nil : utf8Len [] = 0 := rfl

@[simp] theorem utf8Len_append (s t : List Char) : utf8Len (s ++ t) = utf8Len s + utf8Len t := by
  simp [utf8Len]

/-- `PathComponent`. -/
inductive PathComponent
  | root
  | selfLink
  | parentLink
  | objectName (name : List Char)
  deriving DecidableEq, Repr

namespace PathComponent

/-- The character of `SEPARATOR`. -/
def separatorChar : Char := '/'

/-- `SELF_LINK`. -/
def selfLinkStr : List Char := ['.']

/-- `PARENT_LINK`. -/
def parentLinkStr : List Char := ['.', '.']

/-- `SEPARATOR`. -/
def separator : List Char := [separatorChar]

/-- `is_root`. -/
def isRoot : PathComponent → Bool
  | root => true
  | _ => false

/-- `is_self_link`. -/
def isSelfLink : PathComponent → Bool
  | selfLink => true
  | _ => false

/-- `is_parent_link`. -/
def isParentLink : PathComponent → Bool
  | parentLink => true
  | _ => false

/-- `is_object_name`. -/
def isObjectName : PathComponent → Bool
  | objectName _ => true
  | _ => false

/-- `need_separator_before`. -/
def needSeparatorBefore (self : PathComponent) : Bool := !self.isRoot

/-- `as_string`. -/
def asString : PathComponent → List Char
  | root => separator
  | selfLink => selfLinkStr
  | parentLink => parentLinkStr
  | objectName objName => objName

/-- `len`. -/
def len : PathComponent → Nat
  | root => utf8Len separator
  | selfLink => utf8Len selfLinkStr
  | parentLink => utf8Len parentLinkStr
  | objectName objName => utf8Len objName

/-- `From<&str>`. -/
def fromStr (strPathComponent : List Char) : PathComponent :=
  if strPathComponent = separator then root
  else if strPathComponent = selfLinkStr then selfLink
  else if strPathComponent = parentLinkStr then parentLink
  else objectName strPathComponent

/-- The length of a component is the length of its text. -/
theorem len_eq_utf8Len_asString (c : PathComponent) : c.len = utf8Len c.asString := by
  cases c <;> rfl

/-- A name as `push` cuts it from a string: not empty, without a separator, and neither of
the two links. -/
def GoodName (objName : List Char) : Prop :=
  objName ≠ [] ∧ separatorChar ∉ objName ∧ objName ≠ selfLinkStr ∧ objName ≠ parentLinkStr

/-- A component that can follow another one: a link, or an object with a good name. -/
def Named : PathComponent → Prop
  | root => False
  | selfLink | parentLink => True
  | objectName objName => GoodName objName

/-- A piece cut from a string at the separators reads as a component that can follow
another one. -/
theorem named_fromStr {s : List Char} (hne : s ≠ []) (hsep : separatorChar ∉ s) :
    (fromStr s).Named := by
  have hroot : s ≠ separator := fun h => hsep (by simp [h, separator])
  unfold fromStr
  split_ifs with h1 h2
  · exact hroot h1 |>.elim
  · trivial
  · trivial
  · exact ⟨hne, hsep, h2, by assumption⟩

/-- A piece cut from a string reads back as itself. -/
theorem asString_fromStr {s : List Char} (hsep : separatorChar ∉ s) : (fromStr s).asString = s := by
  have hroot : s ≠ separator := fun h => hsep (by simp [h, separator])
  unfold fromStr
  split_ifs with h1 h2 h3
  · exact (hroot h1).elim
  · exact h2.symm
  · exact h3.symm
  · rfl

/-- The text of a following component reads back as the component. -/
theorem fromStr_asString {c : PathComponent} (hc : c.Named) : fromStr c.asString = c := by
  cases c with
  | root => exact hc.elim
  | selfLink => rfl
  | parentLink => rfl
  | objectName objName =>
    obtain ⟨hne, hsep, hself, hparent⟩ := hc
    have hroot : objName ≠ separator := fun h => hsep (by simp [h, separator])
    simp [fromStr, asString, hroot, hself, hparent]

/-- The text of a following component is a piece: not empty, without a separator. -/
theorem asString_piece {c : PathComponent} (hc : c.Named) :
    c.asString ≠ [] ∧ separatorChar ∉ c.asString := by
  cases c with
  | root => exact hc.elim
  | selfLink => exact ⟨by simp [asString, selfLinkStr], by decide⟩
  | parentLink => exact ⟨by simp [asString, parentLinkStr], by decide⟩
  | objectName objName => exact ⟨hc.1, hc.2.1⟩

theorem Named.needSeparatorBefore {c : PathComponent} (hc : c.Named) :
    c.needSeparatorBefore = true := by
  cases c with
  | root => exact hc.elim
  | _ => rfl

end PathComponent

end Api
end MeetixOs
