import Mathlib.Data.Nat.Bitwise

/-!
# Machine words of the 64-bit targets

The kernel and its libraries compute addresses and sizes with `usize`, 64 bits wide on
x86_64.  The model keeps them as `Nat`.  The kernel is built in the `debug` profile
(`BUILD_MODE ?= debug` in `config.mk`), so an arithmetic overflow is a panic rather than a
wrap: where the model must see it, `checkedAdd` and `checkedSub` return `none`.  Elsewhere a
run that completes computes the same values as the unbounded `Nat` arithmetic.
-/

namespace MeetixOs

/-- `usize::MAX`. -/
def usizeMax : Nat := 2 ^ 64 - 1

/-- `isize::MAX`. -/
def isizeMax : Nat := 2 ^ 63 - 1

/-- `!x` on a `usize`. -/
def usizeNot (x : Nat) : Nat := usizeMax - x

/-- `a + b` on `usize` with overflow checks: `none` is the panic. -/
def checkedAdd (a b : Nat) : Option Nat :=
  if a + b ≤ usizeMax then some (a + b) else none

/-- `a - b` on `usize` with overflow checks: `none` is the panic. -/
def checkedSub (a b : Nat) : Option Nat :=
  if b ≤ a then some (a - b) else none

/-- `usize::checked_mul`: `none` past `usize::MAX`. -/
def checkedMul (a b : Nat) : Option Nat :=
  if a * b ≤ usizeMax then some (a * b) else none

@[simp] theorem checkedAdd_eq_some {a b c : Nat} :
    checkedAdd a b = some c ↔ a + b ≤ usizeMax ∧ a + b = c := by
  unfold checkedAdd
  split <;> simp_all

@[simp] theorem checkedSub_eq_some {a b c : Nat} :
    checkedSub a b = some c ↔ b ≤ a ∧ a - b = c := by
  unfold checkedSub
  split <;> simp_all

@[simp] theorem checkedMul_eq_some {a b c : Nat} :
    checkedMul a b = some c ↔ a * b ≤ usizeMax ∧ a * b = c := by
  unfold checkedMul
  split <;> simp_all

end MeetixOs
