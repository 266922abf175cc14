import MeetixOs.Core.Usize

/-!
# `usize::from_str_radix`

`core::num` parses an unsigned integer from text: an optional `+`, then at least one digit of
the radix, each one `char::to_digit(radix)`, accumulated as `result * radix + digit` with
`checked_mul` and `checked_add`.  `usize::from_str` is the radix `10`.  Text that is empty or
`+` alone, that holds a character which is not a digit of the radix, or whose value passes
`usize::MAX`, is an `Err`: here `none`.

The kernel reads numbers this way from text that a tool or the user wrote: the addresses of
the symbol table in hexadecimal, and the values of boot options in decimal.

**Results.**
* `foldl_accumulate_digitChars`: the loop over digits written with `Nat.digitChar` computes
  their value, when every step fits in a `usize`.
* `fromStrRadix_digitChars`: such digits, most significant first, parse back to their value
  when it fits in a `usize`.
-/

namespace MeetixOs

/-- The digit a character stands for in base `36`, as `char::to_digit` reads it. -/
def charDigit (c : Char) : Option Nat :=
  if c.isDigit then some (c.toNat - '0'.toNat)
  else if c.isLower then some (c.toNat - 'a'.toNat + 10)
  else if c.isUpper then some (c.toNat - 'A'.toNat + 10)
  else none

/-- `char::to_digit(radix)`, for a radix up to `36`. -/
def toDigit (c : Char) (radix : Nat) : Option Nat :=
  (charDigit c).filter (· < radix)

/-- One turn of the loop of `from_str_radix`: `result.checked_mul(radix)`, the digit, then
`checked_add`. -/
def accumulate (radix : Nat) (result : Option Nat) (c : Char) : Option Nat := do
  let result ← result
  let x ← toDigit c radix
  let result ← checkedMul result radix
  checkedAdd result x

/-- The digits of `from_str_radix`: the text after a leading `+`. -/
def stripPlus : List Char → List Char
  | '+' :: rest => rest
  | src => src

/-- `usize::from_str_radix`. -/
def fromStrRadix (src : List Char) (radix : Nat) : Option Nat :=
  let digits := stripPlus src
  if digits.isEmpty then none else digits.foldl (accumulate radix) (some 0)

/-- `usize::from_str`. -/
def usizeFromStr (src : List Char) : Option Nat :=
  fromStrRadix src 10

/-- The value of the digits `ds` in base `radix`, most significant first, after `a`. -/
def digitsValueFrom (radix : Nat) (a : Nat) (ds : List Nat) : Nat :=
  ds.foldl (fun a d => a * radix + d) a

section Digits

variable {radix : Nat}

theorem charDigit_digitChar : ∀ d < 16, charDigit (Nat.digitChar d) = some d := by
  decide

theorem digitChar_ne_plus : ∀ d < 16, Nat.digitChar d ≠ '+' := by
  decide

theorem stripPlus_cons_of_ne {c : Char} (hc : c ≠ '+') (cs : List Char) :
    stripPlus (c :: cs) = c :: cs := by
  unfold stripPlus
  split
  · rename_i rest h
    exact absurd (List.cons.inj h).1 hc
  · rfl

theorem toDigit_digitChar {d : Nat} (hd : d < radix) (hr : radix ≤ 16) :
    toDigit (Nat.digitChar d) radix = some d := by
  rw [toDigit, charDigit_digitChar d (by omega)]
  simp [hd]

/-- The value only grows along the digits. -/
theorem le_digitsValueFrom (hr : 0 < radix) (a : Nat) (ds : List Nat) :
    a ≤ digitsValueFrom radix a ds := by
  induction ds generalizing a with
  | nil => exact Nat.le_refl a
  | cons d ds ih =>
    have hstep : a ≤ a * radix + d := by
      have := Nat.le_mul_of_pos_right a hr
      omega
    exact Nat.le_trans hstep (ih (a * radix + d))

/-- The run lemma of the loop: over digits of the radix, each turn passes the checks while
the final value fits, and the loop ends at that value. -/
theorem foldl_accumulate_digitChars (h1 : 0 < radix) (hr : radix ≤ 16) :
    ∀ {ds : List Nat} (a : Nat), (∀ d ∈ ds, d < radix) →
      digitsValueFrom radix a ds ≤ usizeMax →
      (ds.map Nat.digitChar).foldl (accumulate radix) (some a) =
        some (digitsValueFrom radix a ds) := by
  intro ds
  induction ds with
  | nil => intro a _ _; rfl
  | cons d ds ih =>
    intro a hds hv
    have hd : d < radix := hds d List.mem_cons_self
    have hstep : a * radix + d ≤ usizeMax :=
      Nat.le_trans (le_digitsValueFrom h1 (a * radix + d) ds) hv
    have hturn : accumulate radix (some a) (Nat.digitChar d) = some (a * radix + d) := by
      simp only [accumulate, Option.bind_eq_bind, Option.bind_some, toDigit_digitChar hd hr]
      rw [show checkedMul a radix = some (a * radix) from
        checkedMul_eq_some.mpr ⟨by omega, rfl⟩, Option.bind_some]
      exact checkedAdd_eq_some.mpr ⟨hstep, rfl⟩
    rw [List.map_cons, List.foldl_cons, hturn]
    exact ih (a * radix + d) (fun d' hd' => hds d' (List.mem_cons_of_mem d hd')) hv

/-- Nonempty digits of the radix, most significant first, parse back to their value when it
fits in a `usize`. -/
theorem fromStrRadix_digitChars (h1 : 0 < radix) (hr : radix ≤ 16) {ds : List Nat}
    (hne : ds ≠ []) (hds : ∀ d ∈ ds, d < radix) (hv : digitsValueFrom radix 0 ds ≤ usizeMax) :
    fromStrRadix (ds.map Nat.digitChar) radix = some (digitsValueFrom radix 0 ds) := by
  obtain ⟨d, ds', rfl⟩ := List.exists_cons_of_ne_nil hne
  have hplus : Nat.digitChar d ≠ '+' :=
    digitChar_ne_plus d (by have := hds d List.mem_cons_self; omega)
  rw [fromStrRadix, List.map_cons, stripPlus_cons_of_ne hplus]
  simp only [List.isEmpty_cons, Bool.false_eq_true, if_false]
  rw [← List.map_cons]
  exact foldl_accumulate_digitChars h1 hr 0 hds hv

end Digits

end MeetixOs
