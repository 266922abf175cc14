import Mathlib.Data.List.Nodup
import MeetixOs.Lib.Transition

/-!
# The CPU registry `SM_ALL_CPUS`

A model of `Kernel/src/cpu.rs`.  Every `Cpu` is kept in the vector `SM_ALL_CPUS`, which
`Cpu::by_id` indexes by the CPU's id.  `Cpu::add_cpu`, called by `early_init` for the
bootstrap CPU and by `init_ap` for each application processor, asserts that the slot at the
new CPU's id is empty, pushes the CPU at the end of the vector, and returns a reference to
the slot at its id.

The id is the hardware's: `HwCpu::id`.  The registry is a model over any hardware part `H`
with its `id`; a reference into `SM_ALL_CPUS` is its index there.  The x86_64 `HwCpu` answers
`0` until its local APIC is enabled, which no code path does yet.

**Results.**
* `addCpu_eq_ok_iff`: `add_cpu` succeeds exactly when the id is the length of the vector,
  and then returns the slot of the CPU it pushed.
* `CpuReachable.indexed`: in every state the calls reach, the CPU at index `i` has id `i`;
  `byId_of_indexed`: `by_id` then finds each CPU at its own slot.
* `addCpus_eq_ok_iff`: a sequence of calls succeeds exactly when the ids arrive as
  `0, 1, 2, …` in that order; `addCpus_error_of_nodup`: with distinct ids, the panic is never
  the duplicate check, always the indexing past the end.
* `addCpu_distinct_ids_out_of_bounds`: the ids `0` and `2` panic at the second call.
-/

namespace MeetixOs
namespace Kernel

/-- `Cpu`, over its hardware part. -/
structure Cpu (H : Type) where
  mHwCpu : H
  deriving DecidableEq, Repr

/-- Where `add_cpu` panics. -/
inductive AddCpuPanic
  /-- `assert!(SM_ALL_CPUS.get(cpu_id as usize).is_none())`. -/
  | slotTaken
  /-- `&mut SM_ALL_CPUS[cpu_id as usize]` past the end of the vector. -/
  | indexOutOfBounds
  deriving DecidableEq, Repr

section Model

variable {H : Type} (hwId : H → BitVec 16)

/-- `Cpu::id`: `HwCpu::id`. -/
def Cpu.id (self : Cpu H) : BitVec 16 :=
  hwId self.mHwCpu

/-- `Cpu::add_cpu` on `SM_ALL_CPUS`: the vector after the push, and the slot of the returned
reference. -/
def addCpu (allCpus : List (Cpu H)) (cpu : Cpu H) :
    Except AddCpuPanic (List (Cpu H) × Nat) :=
  let cpuId := (cpu.id hwId).toNat
  if (allCpus[cpuId]?).isSome then .error .slotTaken
  else
    let allCpus := allCpus ++ [cpu]
    if cpuId < allCpus.length then .ok (allCpus, cpuId) else .error .indexOutOfBounds

/-- `Cpu::by_id`: the slot of the returned reference; `none` is the panic of `expect`. -/
def byId (allCpus : List (Cpu H)) (cpuId : BitVec 16) : Option Nat :=
  if cpuId.toNat < allCpus.length then some cpuId.toNat else none

/-- `add_cpu` for each of `cpus` in turn, up to the first panic. -/
def addCpus (allCpus : List (Cpu H)) : List (Cpu H) → Except AddCpuPanic (List (Cpu H))
  | [] => .ok allCpus
  | cpu :: cpus =>
    match addCpu hwId allCpus cpu with
    | .ok (allCpus, _) => addCpus allCpus cpus
    | .error e => .error e

/-- Every stored CPU is at the index of its id: `SM_ALL_CPUS[i].id() == i`. -/
def Indexed (allCpus : List (Cpu H)) : Prop :=
  ∀ (i : Nat) (h : i < allCpus.length), (allCpus[i].id hwId).toNat = i

/-- One successful `add_cpu`. -/
def CpuStep (allCpus allCpus' : List (Cpu H)) : Prop :=
  ∃ cpu r, addCpu hwId allCpus cpu = .ok (allCpus', r)

/-- The vectors that successful calls of `add_cpu` reach from the empty one. -/
def CpuReachable (allCpus : List (Cpu H)) : Prop :=
  Transition.Reachable (fun s => s = []) (CpuStep hwId) allCpus

end Model

section Proofs

variable {H : Type} {hwId : H → BitVec 16} {allCpus allCpus' : List (Cpu H)} {cpu : Cpu H}

/-- `add_cpu` as one case split on the id against the length of the vector. -/
theorem addCpu_eq (allCpus : List (Cpu H)) (cpu : Cpu H) :
    addCpu hwId allCpus cpu =
      if (cpu.id hwId).toNat < allCpus.length then .error .slotTaken
      else if (cpu.id hwId).toNat = allCpus.length then .ok (allCpus ++ [cpu], allCpus.length)
      else .error .indexOutOfBounds := by
  have hsome : (allCpus[(cpu.id hwId).toNat]?).isSome = true ↔
      (cpu.id hwId).toNat < allCpus.length := by simp
  unfold addCpu
  by_cases hlt : (cpu.id hwId).toNat < allCpus.length
  · rw [if_pos (hsome.mpr hlt), if_pos hlt]
  · rw [if_neg (mt hsome.mp hlt), if_neg hlt]
    simp only [List.length_append, List.length_singleton]
    by_cases heq : (cpu.id hwId).toNat = allCpus.length
    · rw [if_pos (by omega), if_pos heq, heq]
    · rw [if_neg (by omega), if_neg heq]

/-- `add_cpu` succeeds exactly when the id is the length of the vector; the reference it
returns is then the slot of the CPU it pushed. -/
theorem addCpu_eq_ok_iff {r : Nat} :
    addCpu hwId allCpus cpu = .ok (allCpus', r) ↔
      (cpu.id hwId).toNat = allCpus.length ∧ allCpus' = allCpus ++ [cpu] ∧
        r = allCpus.length := by
  rw [addCpu_eq]
  by_cases hlt : (cpu.id hwId).toNat < allCpus.length
  · rw [if_pos hlt]
    simp only [reduceCtorEq, false_iff]
    omega
  · rw [if_neg hlt]
    by_cases heq : (cpu.id hwId).toNat = allCpus.length
    · rw [if_pos heq, Except.ok.injEq, Prod.mk.injEq]
      constructor
      · rintro ⟨rfl, rfl⟩
        exact ⟨heq, rfl, rfl⟩
      · rintro ⟨-, rfl, rfl⟩
        exact ⟨rfl, rfl⟩
    · rw [if_neg heq]
      simp only [reduceCtorEq, false_iff, not_and]
      exact fun h => absurd h heq

/-- `add_cpu` panics at the duplicate check exactly when the slot of the id is in the vector,
and past the end exactly when the id is beyond the next slot. -/
theorem addCpu_eq_error_iff {e : AddCpuPanic} :
    addCpu hwId allCpus cpu = .error e ↔
      (e = .slotTaken ∧ (cpu.id hwId).toNat < allCpus.length) ∨
        (e = .indexOutOfBounds ∧ allCpus.length < (cpu.id hwId).toNat) := by
  rw [addCpu_eq]
  by_cases hlt : (cpu.id hwId).toNat < allCpus.length
  · rw [if_pos hlt, Except.error.injEq]
    cases e with
    | slotTaken => simp [hlt]
    | indexOutOfBounds =>
      simp only [reduceCtorEq, false_and, true_and, false_or, false_iff]
      omega
  · rw [if_neg hlt]
    by_cases heq : (cpu.id hwId).toNat = allCpus.length
    · rw [if_pos heq]
      simp only [reduceCtorEq, false_iff, not_or, not_and]
      omega
    · rw [if_neg heq, Except.error.injEq]
      cases e with
      | slotTaken => simp [hlt]
      | indexOutOfBounds =>
        simp only [reduceCtorEq, false_and, true_and, false_or, true_iff]
        omega

namespace Indexed

theorem nil : Indexed hwId [] :=
  fun _ h => absurd h (Nat.not_lt_zero _)

/-- Pushing the CPU whose id is the next slot keeps every CPU at the index of its id. -/
theorem push (hi : Indexed hwId allCpus) (hc : (cpu.id hwId).toNat = allCpus.length) :
    Indexed hwId (allCpus ++ [cpu]) := by
  intro i h
  rw [List.length_append, List.length_singleton] at h
  by_cases hlt : i < allCpus.length
  · rw [List.getElem_append_left hlt]
    exact hi i hlt
  · rw [List.getElem_concat_length (by omega)]
    omega

/-- The step lemma: a successful `add_cpu` keeps the registry indexed, and the slot it
returns holds the CPU just added. -/
theorem addCpu (hi : Indexed hwId allCpus) {r : Nat}
    (h : Kernel.addCpu hwId allCpus cpu = .ok (allCpus', r)) :
    Indexed hwId allCpus' ∧ allCpus'[r]? = some cpu := by
  obtain ⟨hc, rfl, rfl⟩ := addCpu_eq_ok_iff.mp h
  exact ⟨hi.push hc, by simp⟩

end Indexed

/-- The run lemma: every state the calls reach is indexed. -/
theorem CpuReachable.indexed (h : CpuReachable hwId allCpus) : Indexed hwId allCpus :=
  Transition.Reachable.invariant (fun _ hs => hs ▸ Indexed.nil)
    (fun _ _ hi ⟨_, _, hstep⟩ => (hi.addCpu hstep).1) h

/-- The CPUs `0` and then `1`, each with the id its hardware part holds. -/
theorem cpuReachable_indexed_two :
    CpuReachable (fun h => h) ([⟨0#16⟩, ⟨1#16⟩] : List (Cpu (BitVec 16))) ∧
      Indexed (fun h => h) ([⟨0#16⟩, ⟨1#16⟩] : List (Cpu (BitVec 16))) := by
  have h : CpuReachable (fun h => h) ([⟨0#16⟩, ⟨1#16⟩] : List (Cpu (BitVec 16))) :=
    Transition.Reachable.step (Transition.Reachable.step (.init rfl) ⟨⟨0#16⟩, 0, rfl⟩)
      ⟨⟨1#16⟩, 1, rfl⟩
  exact ⟨h, CpuReachable.indexed h⟩

/-- In an indexed registry, `by_id` of the id of the CPU at index `i` is the slot `i`. -/
theorem byId_of_indexed (hi : Indexed hwId allCpus) {i : Nat} (h : i < allCpus.length) :
    byId allCpus (allCpus[i].id hwId) = some i := by
  rw [byId, hi i h, if_pos h]

/-- A sequence of calls succeeds exactly when the `k`-th CPU has the id `length + k`: from the
empty vector, when the ids are `0, 1, 2, …` in order. -/
theorem addCpus_eq_ok_iff {cpus : List (Cpu H)} :
    ∀ {allCpus : List (Cpu H)}, addCpus hwId allCpus cpus = .ok allCpus' ↔
      allCpus' = allCpus ++ cpus ∧
        ∀ (k : Nat) (h : k < cpus.length), (cpus[k].id hwId).toNat = allCpus.length + k := by
  induction cpus with
  | nil =>
    intro allCpus
    simp only [addCpus, Except.ok.injEq, List.append_nil, List.length_nil]
    constructor
    · rintro rfl
      exact ⟨rfl, fun k h => absurd h (Nat.not_lt_zero k)⟩
    · rintro ⟨rfl, -⟩
      rfl
  | cons cpu cpus ih =>
    intro allCpus
    rw [addCpus]
    cases h : addCpu hwId allCpus cpu with
    | ok res =>
      obtain ⟨s, r⟩ := res
      obtain ⟨hc, rfl, rfl⟩ := addCpu_eq_ok_iff.mp h
      simp only
      rw [ih, List.append_assoc, List.singleton_append, List.length_append,
        List.length_singleton]
      constructor
      · rintro ⟨rfl, hk⟩
        refine ⟨rfl, fun k hk' => ?_⟩
        cases k with
        | zero => exact hc
        | succ k =>
          rw [List.getElem_cons_succ, hk k (by simpa using hk')]
          omega
      · rintro ⟨rfl, hk⟩
        refine ⟨rfl, fun k hk' => ?_⟩
        have := hk (k + 1) (by simpa using hk')
        rw [List.getElem_cons_succ] at this
        omega
    | error e =>
      simp only [reduceCtorEq, false_iff, not_and]
      intro _ hk
      have hne := hk 0 (by simp)
      rcases addCpu_eq_error_iff.mp h with ⟨-, hlt⟩ | ⟨-, hlt⟩ <;>
        simp only [List.getElem_cons_zero, Nat.add_zero] at hne <;> omega

/-- With pairwise distinct ids, a sequence of calls from an indexed registry never fails the
duplicate check: when it panics, it panics on the index past the end. -/
theorem addCpus_error_of_nodup {cpus : List (Cpu H)} {e : AddCpuPanic} :
    ∀ {allCpus : List (Cpu H)}, Indexed hwId allCpus →
      ((allCpus ++ cpus).map (Cpu.id hwId)).Nodup →
      addCpus hwId allCpus cpus = .error e → e = .indexOutOfBounds := by
  induction cpus with
  | nil =>
    intro allCpus _ _ h
    cases h
  | cons cpu cpus ih =>
    intro allCpus hi hd h
    rw [addCpus] at h
    cases hstep : addCpu hwId allCpus cpu with
    | ok res =>
      obtain ⟨s, r⟩ := res
      rw [hstep] at h
      obtain ⟨hi', -⟩ := hi.addCpu hstep
      obtain ⟨-, rfl, -⟩ := addCpu_eq_ok_iff.mp hstep
      exact ih hi' (by simpa using hd) h
    | error e' =>
      rw [hstep] at h
      cases h
      rcases addCpu_eq_error_iff.mp hstep with ⟨-, hlt⟩ | ⟨rfl, -⟩
      · exfalso
        have hsame : (allCpus[(cpu.id hwId).toNat].id hwId) = cpu.id hwId :=
          BitVec.eq_of_toNat_eq (hi _ hlt)
        have hmem : cpu.id hwId ∈ allCpus.map (Cpu.id hwId) := by
          rw [← hsame]
          exact List.mem_map_of_mem (List.getElem_mem hlt)
        rw [List.map_append, List.map_cons, List.nodup_append] at hd
        exact hd.2.2 _ hmem _ List.mem_cons_self rfl
      · rfl

/-- After the CPU `0`, the CPUs `1` and `3` have distinct ids: the second panics past the
end. -/
theorem addCpus_error_of_nodup_skip :
    Indexed (fun h => h) ([⟨0#16⟩] : List (Cpu (BitVec 16))) ∧
      (([⟨0#16⟩] ++ [⟨1#16⟩, ⟨3#16⟩] : List (Cpu (BitVec 16))).map (Cpu.id fun h => h)).Nodup ∧
      addCpus (fun h => h) [⟨0#16⟩] [⟨1#16⟩, ⟨3#16⟩] = .error .indexOutOfBounds ∧
      AddCpuPanic.indexOutOfBounds = .indexOutOfBounds := by
  have hi : Indexed (fun h => h) ([⟨0#16⟩] : List (Cpu (BitVec 16))) :=
    Indexed.nil.push rfl
  have hd : (([⟨0#16⟩] ++ [⟨1#16⟩, ⟨3#16⟩] : List (Cpu (BitVec 16))).map
      (Cpu.id fun h => h)).Nodup := by
    decide
  have he : addCpus (fun h => h) [⟨0#16⟩] [⟨1#16⟩, ⟨3#16⟩] = .error .indexOutOfBounds := rfl
  exact ⟨hi, hd, he, addCpus_error_of_nodup hi hd he⟩

end Proofs

/-- Two CPUs with the distinct ids `0` and `2`: the first is registered, the second panics
on the index past the end of the vector. -/
theorem addCpu_distinct_ids_out_of_bounds :
    (([⟨0#16⟩, ⟨2#16⟩] : List (Cpu (BitVec 16))).map (Cpu.id fun h => h)).Nodup ∧
      addCpu (fun h => h) [] ⟨0#16⟩ = .ok ([⟨0#16⟩], 0) ∧
      addCpu (fun h => h) [⟨0#16⟩] ⟨2#16⟩ = .error .indexOutOfBounds ∧
      addCpus (fun h => h) [] [⟨0#16⟩, ⟨2#16⟩] = .error .indexOutOfBounds :=
  ⟨by decide, rfl, rfl, rfl⟩

section X86

/-- The x86_64 `HwCpu`, with what its `id` reads: whether its `LocalApic` is enabled, and the
value of the core's `CoreId` register. -/
structure HwCpu where
  mIsAp : Bool
  mLocalApicEnabled : Bool
  coreIdRegister : BitVec 32
  deriving DecidableEq, Repr

namespace HwCpu

/-- `new_bsp`: `LocalApic::new()` is not enabled. -/
def newBsp (coreIdRegister : BitVec 32) : HwCpu :=
  ⟨false, false, coreIdRegister⟩

/-- `new_ap`: `LocalApic::new()` is not enabled. -/
def newAp (coreIdRegister : BitVec 32) : HwCpu :=
  ⟨true, false, coreIdRegister⟩

/-- `id`: `m_local_apic.cpu_id()`, the `CoreId` register `as u16`, once the APIC is enabled,
and `0` before. -/
def id (self : HwCpu) : BitVec 16 :=
  if self.mLocalApicEnabled then self.coreIdRegister.setWidth 16 else 0#16

end HwCpu

/-- `Cpu::early_init`: `add_cpu` of a new bootstrap CPU.  The `init` that follows sets up the
CPU's own tables and does not touch `SM_ALL_CPUS`. -/
def earlyInit (allCpus : List (Cpu HwCpu)) (coreIdRegister : BitVec 32) :
    Except AddCpuPanic (List (Cpu HwCpu)) :=
  (addCpu HwCpu.id allCpus ⟨HwCpu.newBsp coreIdRegister⟩).map Prod.fst

/-- `Cpu::init_ap`: `add_cpu` of a new application processor. -/
def initAp (allCpus : List (Cpu HwCpu)) (coreIdRegister : BitVec 32) :
    Except AddCpuPanic (List (Cpu HwCpu)) :=
  (addCpu HwCpu.id allCpus ⟨HwCpu.newAp coreIdRegister⟩).map Prod.fst

end X86

end Kernel
end MeetixOs
