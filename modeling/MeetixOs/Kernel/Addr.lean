import MeetixOs.Kernel.PageDir

/-!
# The address wrappers and their `Step` implementations

`Kernel/src/addr/mod.rs` declares `TAddress`, the interface of `VirtAddr` and `PhysAddr`.
Each wraps the x86_64 address of `arch/x86_64/addr`, a `usize` that `From<usize>` makes
valid: canonical for a virtual address, cut to `52` bits for a physical one.  The trait's
default methods (`null`, `align_up`, `align_down`, `offset`, `to_range`) build every result
with `From<usize>`.  The `Step` implementations, through which `Range<VirtAddr>` and
`Range<PhysAddr>` are iterated, step the raw `usize` with `usize::forward_checked` and
`usize::backward_checked` and wrap the result as it is.

The model states the trait once, as the class `TAddress` with the two wrappers as
instances, and proves the facts of the default methods once, for any invariant `P` that
`From<usize>` establishes.  `From<*const T>` and `From<*mut T>` are `From<usize>` of the
pointer's address.

**Results.**
* `null_valid`, `alignUp_valid`, `alignDown_valid`, `offset_valid`, `toRange_valid`: every
  default method keeps an invariant that `From<usize>` establishes; `VirtAddr.Valid`
  (canonical) and `PhysAddr.Valid` (at most `MAX`) are two such.
* `forwardChecked_stepsBetween`: `forward_checked` by `steps_between` reaches the end.
* `mem_stepBy`: the items of `(start..end).step_by(step)` are the raw values
  `start + k * step` below `end`.
* `addr_step_leaves_invariant`: stepping across the canonical hole, or one past the largest
  physical address, builds an address outside its invariant.
-/

namespace MeetixOs
namespace Kernel

/-- `TAddress`, with what its default methods and the `Step` implementations use:
`From<usize>`, the `usize` behind `Deref`, the `Self { .. }` that `Step` builds from a raw
`usize`, and `MAX`. -/
class TAddress (α : Type) where
  fromUsize : BitVec 64 → α
  raw : α → BitVec 64
  ofRaw : BitVec 64 → α
  max : α
  raw_ofRaw : ∀ r, raw (ofRaw r) = r
  ofRaw_raw : ∀ a, ofRaw (raw a) = a

/-- `Range<A>`, `start..end`. -/
structure AddrRange (α : Type) where
  start : α
  stop : α
  deriving DecidableEq, Repr

namespace TAddress

variable {α : Type} [TAddress α]

attribute [simp] raw_ofRaw ofRaw_raw

/-- `TAddress::null`. -/
def null : α := fromUsize 0#64

/-- `TAddress::align_up`: `none` is the overflow panic of `align_up`. -/
def alignUp (self : α) (align : Nat) : Option α :=
  (Helps.alignUpChecked (raw self).toNat align).map fun r => fromUsize (BitVec.ofNat 64 r)

/-- `TAddress::align_down`. -/
def alignDown (self : α) (align : Nat) : α :=
  fromUsize (BitVec.ofNat 64 (Helps.alignDown (raw self).toNat align))

/-- `TAddress::offset`: `none` is the overflow panic of `**self + offset`. -/
def offset (self : α) (offset : Nat) : Option α :=
  if 0 < offset then
    (checkedAdd (raw self).toNat offset).map fun r => fromUsize (BitVec.ofNat 64 r)
  else some self

/-- `TAddress::to_range`. -/
def toRange (self : α) (rangeSize : Nat) : Option (AddrRange α) :=
  (offset self rangeSize).map fun stop => ⟨self, stop⟩

/-- `Step::steps_between`: `usize::steps_between` of the raw values. -/
def stepsBetween (start stop : α) : Option Nat :=
  if raw start ≤ raw stop then some (raw stop - raw start).toNat else none

/-- `Step::forward_checked`: `usize::forward_checked` of the raw value, wrapped as it is. -/
def forwardChecked (start : α) (count : Nat) : Option α :=
  (checkedAdd (raw start).toNat count).map fun r => ofRaw (BitVec.ofNat 64 r)

/-- `Step::backward_checked`: `usize::backward_checked` of the raw value, wrapped as it is. -/
def backwardChecked (start : α) (count : Nat) : Option α :=
  (checkedSub (raw start).toNat count).map fun r => ofRaw (BitVec.ofNat 64 r)

/-- `Range::nth(n)` of `start..stop`, the default of a `Step` type: the item
`forward_checked(start, n)` when it lies below `stop`, with the range's new `start` one past
it.  The `expect` on that second step cannot fail below `stop`. -/
def rangeNth (start stop : α) (n : Nat) : Option (α × α) :=
  match forwardChecked start n with
  | some plusN =>
    if raw plusN < raw stop then (forwardChecked plusN 1).map fun next => (plusN, next)
    else none
  | none => none

/-- The items of `StepBy` after its first: `nth(step - 1)` until it returns `None`, for at
most `fuel` items. -/
def stepByFrom (stop : α) (stepMinusOne : Nat) : α → Nat → List α
  | _, 0 => []
  | start, fuel + 1 =>
    match rangeNth start stop stepMinusOne with
    | some (item, next) => item :: stepByFrom stop stepMinusOne next fuel
    | none => []

/-- `range.step_by(step)`: `StepBy::next` takes `nth(0)` first and `nth(step - 1)` after.
The items grow and stay below `stop`, so `raw stop` of them is more than the iteration
yields. -/
def stepBy (range : AddrRange α) (step : Nat) : List α :=
  match rangeNth range.start range.stop 0 with
  | some (item, next) => item :: stepByFrom range.stop (step - 1) next (raw range.stop).toNat
  | none => []

end TAddress

/-- `VirtAddr` as a `TAddress`; `MAX` is `0x0000_ffff_ffff_ffff`. -/
instance : TAddress VirtAddr where
  fromUsize := VirtAddr.fromUsize
  raw := VirtAddr.raw
  ofRaw rawVirtAddr := ⟨⟨rawVirtAddr⟩⟩
  max := ⟨⟨0x0000_ffff_ffff_ffff#64⟩⟩
  raw_ofRaw _ := rfl
  ofRaw_raw _ := rfl

/-- `HwPhysAddr`. -/
structure HwPhysAddr where
  mRawPhysAddr : BitVec 64
  deriving DecidableEq, Repr

/-- `PhysAddr`. -/
structure PhysAddr where
  mHwPhysAddr : HwPhysAddr
  deriving DecidableEq, Repr

/-- `PhysAddr` as a `TAddress`: `From<usize>` is `HwPhysAddr::from`, and `MAX` is
`0x000f_ffff_ffff_ffff`. -/
instance : TAddress PhysAddr where
  fromUsize rawPhysAddr := ⟨⟨physAddrFromUsize rawPhysAddr⟩⟩
  raw self := self.mHwPhysAddr.mRawPhysAddr
  ofRaw rawPhysAddr := ⟨⟨rawPhysAddr⟩⟩
  max := ⟨⟨0x000f_ffff_ffff_ffff#64⟩⟩
  raw_ofRaw _ := rfl
  ofRaw_raw _ := rfl

namespace TAddress

variable {α : Type} [TAddress α]

section Raw

theorem toNat_raw_le (a : α) : (raw a).toNat ≤ usizeMax := by
  have := (raw a).isLt
  unfold usizeMax
  omega

/-- An address is the wrap of a raw value exactly when its own raw value is that value. -/
theorem eq_ofRaw_ofNat_iff {a : α} {x : Nat} (hx : x ≤ usizeMax) :
    a = ofRaw (BitVec.ofNat 64 x) ↔ (raw a).toNat = x := by
  have hlt : x < 2 ^ 64 := by unfold usizeMax at hx; omega
  constructor
  · rintro rfl
    rw [raw_ofRaw, BitVec.toNat_ofNat, Nat.mod_eq_of_lt hlt]
  · intro h
    rw [← h, BitVec.ofNat_toNat, BitVec.setWidth_eq, ofRaw_raw]

end Raw

section Step

/-- `usize::forward_checked` on the raw value, as one case split. -/
theorem forwardChecked_eq (start : α) (count : Nat) :
    forwardChecked start count =
      if (raw start).toNat + count ≤ usizeMax then
        some (ofRaw (BitVec.ofNat 64 ((raw start).toNat + count)))
      else none := by
  unfold forwardChecked checkedAdd
  split_ifs <;> rfl

/-- `Range::nth(n)` yields `start + n` while it lies below `stop`, and moves one past it. -/
theorem rangeNth_eq (start stop : α) (n : Nat) :
    rangeNth start stop n =
      if (raw start).toNat + n < (raw stop).toNat then
        some (ofRaw (BitVec.ofNat 64 ((raw start).toNat + n)),
          ofRaw (BitVec.ofNat 64 ((raw start).toNat + n + 1)))
      else none := by
  have hstop := toNat_raw_le stop
  unfold rangeNth
  rw [forwardChecked_eq]
  by_cases hfits : (raw start).toNat + n ≤ usizeMax
  · have hraw : (raw (ofRaw (BitVec.ofNat 64 ((raw start).toNat + n)) : α)).toNat =
        (raw start).toNat + n := (eq_ofRaw_ofNat_iff hfits).mp rfl
    simp only [if_pos hfits, BitVec.lt_def, hraw]
    by_cases hlt : (raw start).toNat + n < (raw stop).toNat
    · rw [if_pos hlt, if_pos hlt, forwardChecked_eq, hraw, if_pos (by omega)]
      rfl
    · rw [if_neg hlt, if_neg hlt]
  · rw [if_neg hfits, if_neg (by omega)]

/-- `steps_between` answers the distance of the raw values when the first is at or below the
second. -/
theorem stepsBetween_eq_some_iff {a b : α} {n : Nat} :
    stepsBetween a b = some n ↔
      (raw a).toNat ≤ (raw b).toNat ∧ n = (raw b).toNat - (raw a).toNat := by
  unfold stepsBetween
  split
  · rename_i hle
    rw [Option.some.injEq, BitVec.toNat_sub_of_le hle, eq_comm]
    exact ⟨fun h => ⟨BitVec.le_def.mp hle, h⟩, fun h => h.2⟩
  · rename_i hle
    simp only [reduceCtorEq, false_iff, not_and]
    exact fun h => absurd (BitVec.le_def.mpr h) hle

/-- `forward_checked` by the `steps_between` of two addresses goes from the first to the
second. -/
theorem forwardChecked_stepsBetween {a b : α} {n : Nat} (h : stepsBetween a b = some n) :
    forwardChecked a n = some b := by
  obtain ⟨hle, rfl⟩ := stepsBetween_eq_some_iff.mp h
  rw [forwardChecked_eq, Nat.add_sub_cancel' hle, if_pos (toNat_raw_le b),
    BitVec.ofNat_toNat, BitVec.setWidth_eq, ofRaw_raw]


end Step

section StepBy

/-- The items of a progression below `stop`: its first item `x`, then those of the
progression that starts one step later. -/
theorem eq_or_step_iff {x z s y stop : Nat} (hz : z = x + s) (hx : x < stop) :
    (y = x ∨ ∃ k, y = z + k * s ∧ y < stop) ↔ ∃ k, y = x + k * s ∧ y < stop := by
  constructor
  · rintro (rfl | ⟨k, rfl, hlt⟩)
    · exact ⟨0, by omega, hx⟩
    · exact ⟨k + 1, by rw [Nat.succ_mul]; omega, hlt⟩
  · rintro ⟨k, rfl, hlt⟩
    cases k with
    | zero => left; omega
    | succ k => exact .inr ⟨k, by rw [Nat.succ_mul]; omega, hlt⟩

/-- The run of `nth(m)` from `start`: the items `start + m + k * (m + 1)` below `stop`, when
the fuel covers the distance to `stop`. -/
theorem mem_stepByFrom {stop a : α} {m : Nat} :
    ∀ {fuel : Nat} {start : α}, (raw stop).toNat ≤ (raw start).toNat + fuel →
      (a ∈ stepByFrom stop m start fuel ↔
        ∃ k, (raw a).toNat = (raw start).toNat + m + k * (m + 1) ∧
          (raw a).toNat < (raw stop).toNat) := by
  intro fuel
  induction fuel with
  | zero =>
    intro start hfuel
    simp only [stepByFrom, List.not_mem_nil, false_iff]
    rintro ⟨k, hk, hlt⟩
    omega
  | succ fuel ih =>
    intro start hfuel
    have hstop := toNat_raw_le stop
    rw [stepByFrom, rangeNth_eq]
    split_ifs with hlt
    · have hnext : (raw (ofRaw (BitVec.ofNat 64 ((raw start).toNat + m + 1)) : α)).toNat =
          (raw start).toNat + m + 1 := (eq_ofRaw_ofNat_iff (by omega)).mp rfl
      rw [List.mem_cons, eq_ofRaw_ofNat_iff (by omega), ih (by omega), hnext]
      exact eq_or_step_iff (by omega) hlt
    · simp only [List.not_mem_nil, false_iff]
      rintro ⟨k, hk, hlt'⟩
      omega

/-- The items of `(start..stop).step_by(step)` are the raw values `start + k * step` below
`stop`. -/
theorem mem_stepBy {range : AddrRange α} {step : Nat} (hstep : 0 < step) {a : α} :
    a ∈ stepBy range step ↔
      ∃ k, (raw a).toNat = (raw range.start).toNat + k * step ∧
        (raw a).toNat < (raw range.stop).toNat := by
  have hstop := toNat_raw_le range.stop
  rw [stepBy, rangeNth_eq]
  split_ifs with hlt
  · have hnext : (raw (ofRaw (BitVec.ofNat 64 ((raw range.start).toNat + 0 + 1)) : α)).toNat =
        (raw range.start).toNat + 1 := (eq_ofRaw_ofNat_iff (by omega)).mp rfl
    rw [List.mem_cons, eq_ofRaw_ofNat_iff (by omega), mem_stepByFrom (by omega), hnext,
      Nat.sub_add_cancel hstep, Nat.add_zero]
    exact eq_or_step_iff (by omega) (by omega)
  · simp only [List.not_mem_nil, false_iff]
    rintro ⟨k, hk, hlt'⟩
    omega

/-- The items of `step_by(step)` keep the residue of `start` modulo `step`. -/
theorem mod_of_mem_stepBy {range : AddrRange α} {step : Nat} (hstep : 0 < step) {a : α}
    (ha : a ∈ stepBy range step) :
    (raw a).toNat % step = (raw range.start).toNat % step := by
  obtain ⟨k, hk, -⟩ := (mem_stepBy hstep).mp ha
  rw [hk, Nat.add_mul_mod_self_right]

/-- The items of the run of `nth(m)` from `start` grow, and lie at `start + m` or above. -/
theorem pairwise_stepByFrom (stop : α) (m : Nat) :
    ∀ (fuel : Nat) (start : α),
      ((stepByFrom stop m start fuel).map fun a => (raw a).toNat).Pairwise (· < ·) ∧
        ∀ a ∈ stepByFrom stop m start fuel, (raw start).toNat + m ≤ (raw a).toNat := by
  intro fuel
  induction fuel with
  | zero => intro start; simp [stepByFrom]
  | succ fuel ih =>
    intro start
    have hstop := toNat_raw_le stop
    rw [stepByFrom, rangeNth_eq]
    split_ifs with hlt
    · have hitem : (raw (ofRaw (BitVec.ofNat 64 ((raw start).toNat + m)) : α)).toNat =
          (raw start).toNat + m := (eq_ofRaw_ofNat_iff (by omega)).mp rfl
      have hnext : (raw (ofRaw (BitVec.ofNat 64 ((raw start).toNat + m + 1)) : α)).toNat =
          (raw start).toNat + m + 1 := (eq_ofRaw_ofNat_iff (by omega)).mp rfl
      obtain ⟨hpair, hlow⟩ := ih (ofRaw (BitVec.ofNat 64 ((raw start).toNat + m + 1)))
      rw [hnext] at hlow
      refine ⟨?_, ?_⟩
      · rw [List.map_cons, List.pairwise_cons, List.forall_mem_map, hitem]
        refine ⟨fun a ha => ?_, hpair⟩
        have := hlow a ha
        omega
      · intro a ha
        rcases List.mem_cons.mp ha with rfl | ha
        · omega
        · have := hlow a ha
          omega
    · simp

/-- The items of `step_by` grow along the iteration. -/
theorem pairwise_stepBy (range : AddrRange α) (step : Nat) :
    ((stepBy range step).map fun a => (raw a).toNat).Pairwise (· < ·) := by
  have hstop := toNat_raw_le range.stop
  rw [stepBy, rangeNth_eq]
  split_ifs with hlt
  · have hitem : (raw (ofRaw (BitVec.ofNat 64 ((raw range.start).toNat + 0)) : α)).toNat =
        (raw range.start).toNat := (eq_ofRaw_ofNat_iff (by omega)).mp rfl
    have hnext : (raw (ofRaw (BitVec.ofNat 64 ((raw range.start).toNat + 0 + 1)) : α)).toNat =
        (raw range.start).toNat + 1 := (eq_ofRaw_ofNat_iff (by omega)).mp rfl
    obtain ⟨hpair, hlow⟩ := pairwise_stepByFrom range.stop (step - 1) (raw range.stop).toNat
      (ofRaw (BitVec.ofNat 64 ((raw range.start).toNat + 0 + 1)))
    rw [hnext] at hlow
    rw [List.map_cons, List.pairwise_cons, List.forall_mem_map, hitem]
    refine ⟨fun a ha => ?_, hpair⟩
    have := hlow a ha
    omega
  · simp

end StepBy

/-- `to_range` starts at the address it is called on. -/
theorem start_of_toRange {a : α} {rangeSize : Nat} {r : AddrRange α}
    (h : toRange a rangeSize = some r) : r.start = a := by
  obtain ⟨stop, -, rfl⟩ := Option.map_eq_some_iff.mp h
  rfl

section Invariant

variable {P : α → Prop} (hP : ∀ r, P (fromUsize r))
include hP

theorem null_valid : P (null : α) := hP _

theorem alignUp_valid {a b : α} {align : Nat} (h : alignUp a align = some b) : P b := by
  obtain ⟨r, -, rfl⟩ := Option.map_eq_some_iff.mp h
  exact hP _

theorem alignDown_valid (a : α) (align : Nat) : P (alignDown a align) := hP _

theorem offset_valid {a b : α} {o : Nat} (ha : P a) (h : offset a o = some b) : P b := by
  unfold offset at h
  split at h
  · obtain ⟨r, -, rfl⟩ := Option.map_eq_some_iff.mp h
    exact hP _
  · cases h
    exact ha

theorem toRange_valid {a : α} {rangeSize : Nat} {r : AddrRange α} (ha : P a)
    (h : toRange a rangeSize = some r) : P r.start ∧ P r.stop := by
  obtain ⟨stop, hstop, rfl⟩ := Option.map_eq_some_iff.mp h
  exact ⟨ha, offset_valid hP ha hstop⟩

end Invariant

end TAddress

/-- The invariant of a virtual address: it is canonical. -/
def VirtAddr.Valid (v : VirtAddr) : Prop := Canonical v.raw

instance : DecidablePred VirtAddr.Valid := fun v => inferInstanceAs (Decidable (Canonical v.raw))

/-- The invariant of a physical address: it is at most `PhysAddr::MAX`. -/
def PhysAddr.Valid (p : PhysAddr) : Prop :=
  TAddress.raw p ≤ TAddress.raw (TAddress.max : PhysAddr)

instance : DecidablePred PhysAddr.Valid := fun p =>
  inferInstanceAs (Decidable (TAddress.raw p ≤ TAddress.raw (TAddress.max : PhysAddr)))

theorem VirtAddr.valid_fromUsize (r : BitVec 64) : (TAddress.fromUsize r : VirtAddr).Valid :=
  fromUsize_canonical r

/-- The mask of `HwPhysAddr::from` is `MAX`. -/
theorem PhysAddr.valid_fromUsize (r : BitVec 64) : (TAddress.fromUsize r : PhysAddr).Valid := by
  change r &&& 0x000f_ffff_ffff_ffff#64 ≤ 0x000f_ffff_ffff_ffff#64
  rw [BitVec.le_def, BitVec.toNat_and]
  exact Nat.and_le_right

theorem VirtAddr.from4KiBIndexes_valid {l4 l3 l2 l1 : PageTableIndex} {v : VirtAddr}
    (h : VirtAddr.from4KiBIndexes l4 l3 l2 l1 = some v) : v.Valid := by
  rw [VirtAddr.from4KiBIndexes, HwVirtAddr.from4KiBIndexes_eq] at h
  obtain rfl := Option.some.inj h
  exact fromUsize_canonical _


/-- The steps build their result without `From<usize>`: from the last canonical page below
the hole, one page forward, and the `step_by` of a range across the hole, reach the raw value
`0x0000_8000_0000_0000`, which is not canonical; from `PhysAddr::MAX` one step reaches past
`MAX`. -/
theorem addr_step_leaves_invariant :
    (TAddress.fromUsize 0x0000_7fff_ffff_f000#64 : VirtAddr).Valid ∧
      TAddress.forwardChecked (TAddress.fromUsize 0x0000_7fff_ffff_f000#64 : VirtAddr) 0x1000 =
        some (TAddress.ofRaw 0x0000_8000_0000_0000#64) ∧
      (TAddress.ofRaw 0x0000_8000_0000_0000#64 : VirtAddr) ∈
        TAddress.stepBy ⟨TAddress.fromUsize 0x0000_7fff_ffff_f000#64,
          TAddress.fromUsize 0xffff_8000_0000_0000#64⟩ 0x1000 ∧
      ¬ (TAddress.ofRaw 0x0000_8000_0000_0000#64 : VirtAddr).Valid ∧
      (TAddress.max : PhysAddr).Valid ∧
      TAddress.forwardChecked (TAddress.max : PhysAddr) 1 =
        some (TAddress.ofRaw 0x0010_0000_0000_0000#64) ∧
      ¬ (TAddress.ofRaw 0x0010_0000_0000_0000#64 : PhysAddr).Valid := by
  refine ⟨VirtAddr.valid_fromUsize _, by decide, ?_, by decide, BitVec.le_refl _, by decide, by decide⟩
  rw [TAddress.mem_stepBy (by decide)]
  exact ⟨1, by decide, by decide⟩

end Kernel
end MeetixOs
