import MeetixOs.Api.PathComponent
import MeetixOs.Lib.Transition

/-!
# Paths

A model of `Path` of `LibApi/src/path.rs`: the components, and `m_str_len`, the length the
path keeps of its text.  `push` cuts a string at the separators (`str::split`, which is
`List.splitOn` on the separator character) and keeps the nonempty pieces; a leading separator
first pushes `Root`, which clears the path.  `as_string` writes a separator after every
component but `Root` and the last.

`m_str_len -= len_to_subtract` in `pop_component` is a `Nat` subtraction: `PathSpec` shows that
`m_str_len` is at least the length of the last component and its separator, so the `usize`
never underflows.  `exists`, a system call, is left out.

A path the program can reach is one built from `Path::default()` by `push`, `push_string`,
`pop_component`, `normalize` and `clear` (`PathReachable`).
-/

namespace MeetixOs
namespace Api

open PathComponent

/-- `Path`. -/
structure Path where
  components : List PathComponent
  strLen : Nat
  deriving DecidableEq, Repr

namespace Path

/-- `Path::default()`. -/
def default : Path := ⟨[], 0⟩

/-- `clear`. -/
def clear (_self : Path) : Path := ⟨[], 0⟩

/-- `is_empty`. -/
def isEmpty (self : Path) : Bool := self.components.isEmpty

/-- `len`. -/
def len (self : Path) : Nat := self.strLen

/-- `components_len`. -/
def componentsLen (self : Path) : Nat := self.components.length

/-- `do_push_component`: `Root` clears the path first. -/
def doPushComponent (self : Path) (pathComponent : PathComponent) : Path :=
  let self := if pathComponent.isRoot then self.clear else self
  let self : Path := ⟨self.components ++ [pathComponent], self.strLen + pathComponent.len⟩
  if pathComponent.needSeparatorBefore then ⟨self.components, self.strLen + utf8Len separator⟩
  else self

/-- `push`. -/
def push (self : Path) (strPath : List Char) : Path :=
  let self := if separator.isPrefixOf strPath then self.doPushComponent root else self
  ((strPath.splitOn separatorChar).filter (fun pathComponent => !pathComponent.isEmpty)).foldl
    (fun path strPathComponent => path.doPushComponent (PathComponent.fromStr strPathComponent))
    self

/-- `push_string`. -/
def pushString (self : Path) (stringPath : List Char) : Path := self.push stringPath

/-- `pop_component`: the path without its last component, and that component. -/
def popComponent (self : Path) : Path × Option PathComponent :=
  match self.components.getLast? with
  | none => (self, none)
  | some pathComponent =>
    let lenToSubtract :=
      if pathComponent.needSeparatorBefore then pathComponent.len + 1 else pathComponent.len
    (⟨self.components.dropLast, self.strLen - lenToSubtract⟩, some pathComponent)

/-- One iteration of the loop of `normalize`. -/
def normalizeStep (normalizedPath : Path) (pathComponent : PathComponent) : Path :=
  match pathComponent with
  | root | objectName _ => normalizedPath.doPushComponent pathComponent
  | parentLink =>
    if normalizedPath.isEmpty then normalizedPath.doPushComponent pathComponent
    else
      match normalizedPath.components.getLast? with
      | some lastPathComponent =>
        if lastPathComponent.isObjectName then normalizedPath.popComponent.1 else normalizedPath
      | none => normalizedPath
  | selfLink => normalizedPath

/-- `normalize`. -/
def normalize (self : Path) : Path :=
  let normalizedPath := self.components.foldl normalizeStep default
  if normalizedPath.isEmpty then normalizedPath.doPushComponent selfLink else normalizedPath

/-- One iteration of the loop of `as_string`, at the `i`-th of `componentsLen` components. -/
def asStringStep (componentsLen : Nat) (pathString : List Char) :
    PathComponent × Nat → List Char
  | (pathComponent, i) =>
    let pathString := pathString ++ pathComponent.asString
    if pathComponent.needSeparatorBefore && i < componentsLen - 1 then pathString ++ separator
    else pathString

/-- `as_string`. -/
def asString (self : Path) : List Char :=
  self.components.zipIdx.foldl (asStringStep self.components.length) []

/-- `From<&str>`. -/
def fromStr (strPath : List Char) : Path := default.push strPath

/-- The operations of `Path` that change it. -/
inductive PathOp
  | push (strPath : List Char)
  | pushString (stringPath : List Char)
  | popComponent
  | normalize
  | clear
  deriving DecidableEq, Repr

/-- The path after an operation. -/
def PathOp.apply (self : Path) : PathOp → Path
  | .push strPath => self.push strPath
  | .pushString stringPath => self.pushString stringPath
  | .popComponent => self.popComponent.1
  | .normalize => self.normalize
  | .clear => self.clear

/-- The paths built from `Path::default()` by any sequence of operations. -/
def PathReachable (p : Path) : Prop :=
  Transition.Reachable (fun p => p = default) (fun p p' => ∃ op, p' = PathOp.apply p op) p

end Path

end Api
end MeetixOs
