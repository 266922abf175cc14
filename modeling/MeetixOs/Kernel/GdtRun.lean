import Mathlib
import MeetixOs.Lib.Transition
import MeetixOs.Kernel.Gdt

/-!
# The GDT over a run of `add_entry`, and the table `HwCpu::init` builds

`GlobalDescTable::add_entry` (`arch/x86_64/gdt.rs`) only ever appends: `push` writes the next
free entry and moves past it.  Read as the list of the entries in use (`GlobalDescTable.used`),
a table is the null segment followed by the words of the segments added, in order, and every
selector `add_entry` returned keeps addressing the words of its segment.

`HwCpu::init` (`arch/x86_64/hw_cpu.rs`) adds the kernel code and data segments, the user code
and data segments, and the TSS's system segment to a new table.  The four common segments are
`SegmentFlagsBits::common()` with more flags `|`-ed on (`Segment.commonSegment`); whatever
those flags, the privilege level the processor reads in such a word is `DplRing3`'s bit alone
(`Segment.dpl_commonSegment`), while `add_entry` gives the selector ring `3` for that bit.

**Results.**
* `gdt_run_log`: along every run of `add_entry` from `GlobalDescTable::new`, the entries in use
  are the null segment and the segments' words in the order added, at most eight, and each
  selector returned indexes its segment's words and carries the ring `add_entry` chose for it.
* `hwCpu_initGdt`: for every address of the TSS, `HwCpu::init` fills seven entries without a
  panic; the kernel code selector is index `1` at ring `0` and the TSS's is index `5` at ring
  `0`.  The processor reads the kernel segments with privilege level `0`, but the user segments
  with privilege level `1`: `DplRing3` is bit `45` alone of the two-bit field `45..47`, while
  their selectors ask for ring `3`.
-/

namespace MeetixOs
namespace Kernel

open Bits

namespace Segment

/-- The words a segment takes in the table, the low word first. -/
def words : Segment → List (BitVec 64)
  | .common rawValue => [rawValue]
  | .system rawLowValue rawHighValue => [rawLowValue, rawHighValue]

/-- The ring `add_entry` gives a segment's selector: `Ring3` for a common segment with
`DplRing3`, bit `45`, set, and `Ring0` otherwise. -/
def ringMode : Segment → CpuRingMode
  | .common rawValue => if rawValue.getLsbD 45 then .ring3 else .ring0
  | .system .. => .ring0

end Segment

namespace GlobalDescTable

/-- The entry at `index`, `0` past the eight. -/
def entry (self : GlobalDescTable) (index : Nat) : BitVec 64 :=
  if h : index < 8 then self.mDescTable ⟨index, h⟩ else 0#64

/-- The entries in use: those below the next free one. -/
def used (self : GlobalDescTable) : List (BitVec 64) :=
  (List.range self.mNextFreeDesc).map self.entry

@[simp]
theorem length_used (self : GlobalDescTable) : self.used.length = self.mNextFreeDesc := by
  simp [used]

theorem used_new : GlobalDescTable.new.used = [0#64] := rfl

/-- `push` appends its value to the entries in use, and answers where. -/
theorem push_eq_some {self self' : GlobalDescTable} {rawValue : BitVec 64} {index : Nat}
    (h : self.push rawValue = some (self', index)) :
    index = self.mNextFreeDesc ∧ self.mNextFreeDesc < 8 ∧ self'.used = self.used ++ [rawValue] := by
  unfold push at h
  split_ifs at h with hlt
  obtain ⟨rfl, rfl⟩ := Prod.mk.inj (Option.some.inj h)
  refine ⟨rfl, hlt, ?_⟩
  simp only [used, List.range_succ, List.map_append, List.map_cons, List.map_nil]
  congr 1
  · refine List.map_congr_left fun i hi => ?_
    have hi' : i < self.mNextFreeDesc := List.mem_range.mp hi
    simp [entry, show i < 8 by omega, Function.update, Fin.ext_iff, Nat.ne_of_lt hi']
  · simp [entry, hlt]

/-- `add_entry` of a common segment pushes its word, with the ring of `DplRing3`: the flags
`from_raw_truncate` keeps include bit `45`, which is a flag's. -/
theorem addEntry_common (self : GlobalDescTable) (rawValue : BitVec 64) :
    self.addEntry (.common rawValue) =
      (self.push rawValue).map fun (self', index) =>
        (self', SegmentSelector.new (BitVec.ofNat 16 index) (Segment.common rawValue).ringMode) := by
  obtain ⟨f, hf, hbits⟩ := fromRawTruncate_spec (T := SegmentFlagsBits) rawValue
  have hring : isEnabled f .dplRing3 = some (rawValue.getLsbD 45) := by
    rw [isEnabled_eq f (by decide), hbits]
    simp [show (FlagValues.into SegmentFlagsBits.dplRing3) = 45 from rfl,
      show (FlagValues.tryFrom (T := SegmentFlagsBits) 45).isSome = true by decide]
  cases hpush : self.push rawValue with
  | none => simp [addEntry, hpush]
  | some r =>
    obtain ⟨self', index⟩ := r
    simp only [addEntry, hpush, hf, hring, Option.bind_eq_bind, Option.bind_some, Option.map_some,
      Option.pure_def, Segment.ringMode]

/-- What `add_entry` does when it returns: the segment's words are appended to the entries in
use, and the selector indexes the first of them with the segment's ring. -/
theorem addEntry_eq_some {self self' : GlobalDescTable} {segment : Segment}
    {selector : SegmentSelector} (h : self.addEntry segment = some (self', selector)) :
    self'.used = self.used ++ segment.words ∧ self'.mNextFreeDesc ≤ 8 ∧
      selector = SegmentSelector.new (BitVec.ofNat 16 self.mNextFreeDesc) segment.ringMode := by
  cases segment with
  | common rawValue =>
    rw [addEntry_common] at h
    obtain ⟨⟨self₁, index⟩, hpush, heq⟩ := Option.map_eq_some_iff.mp h
    obtain ⟨rfl, rfl⟩ := Prod.mk.inj heq
    obtain ⟨rfl, hlt, hused⟩ := push_eq_some hpush
    refine ⟨hused, ?_, rfl⟩
    rw [← length_used, hused, List.length_append, length_used]
    simp only [List.length_singleton]
    omega
  | system low high =>
    simp only [addEntry, Option.bind_eq_bind, Option.bind_eq_some_iff, Option.pure_def,
      Option.some.injEq] at h
    obtain ⟨⟨self₁, firstIndex⟩, h₁, ⟨self₂, i₂⟩, h₂, _, rfl, _, rfl, hsel⟩ := h
    dsimp only at h₂ hsel
    obtain ⟨rfl, -, hused₁⟩ := push_eq_some h₁
    obtain ⟨-, hlt₂, hused₂⟩ := push_eq_some h₂
    obtain ⟨rfl, rfl⟩ := Prod.mk.inj hsel
    refine ⟨by rw [hused₂, hused₁, List.append_assoc]; rfl, ?_, rfl⟩
    rw [← length_used, hused₂, List.length_append, length_used]
    simp only [List.length_singleton]
    omega


/-- `add_entry` returns whenever the segment's words fit in the entries left. -/
theorem addEntry_of_room {self : GlobalDescTable} {segment : Segment}
    (hroom : self.used.length + segment.words.length ≤ 8) :
    ∃ self', self.addEntry segment =
        some (self', SegmentSelector.new (BitVec.ofNat 16 self.used.length) segment.ringMode) ∧
      self'.used = self.used ++ segment.words := by
  rw [length_used] at hroom ⊢
  obtain ⟨self', selector, h⟩ : ∃ self' selector, self.addEntry segment = some (self', selector) := by
    cases segment with
    | common rawValue =>
      have hlt : self.mNextFreeDesc < 8 := by
        simp only [Segment.words, List.length_singleton] at hroom; omega
      simp [addEntry_common, push, hlt]
    | system low high =>
      have hlt : self.mNextFreeDesc + 1 < 8 := by
        simp only [Segment.words, List.length_cons, List.length_nil] at hroom; omega
      simp [addEntry_system, hlt]
  obtain ⟨hused, -, rfl⟩ := addEntry_eq_some h
  exact ⟨self', h, hused⟩

end GlobalDescTable

section Run

open GlobalDescTable

/-- A table and the selectors and segments `add_entry` has returned and taken, in order. -/
abbrev GdtLog := GlobalDescTable × List (SegmentSelector × Segment)

/-- A run starts from `GlobalDescTable::new`. -/
def GdtInit (s : GdtLog) : Prop := s = (GlobalDescTable.new, [])

/-- One `add_entry` that returns. -/
def GdtStep (s s' : GdtLog) : Prop :=
  ∃ segment selector gdt', s.1.addEntry segment = some (gdt', selector) ∧
    s' = (gdt', s.2 ++ [(selector, segment)])

/-- The tables some run of `add_entry` reaches, with the log of the run. -/
def GdtReachable (s : GdtLog) : Prop := Transition.Reachable GdtInit GdtStep s

/-- The invariant of a run: the entries in use are the null segment and the words of the
segments added, at most eight, and each selector indexes its segment's words with its ring. -/
structure GdtInv (s : GdtLog) : Prop where
  used_eq : s.1.used = 0#64 :: (s.2.map fun p => p.2.words).flatten
  le_eight : s.1.mNextFreeDesc ≤ 8
  selectors : ∀ p ∈ s.2, p.1.arrayIndex.toNat + p.2.words.length ≤ s.1.mNextFreeDesc ∧
    (s.1.used.drop p.1.arrayIndex.toNat).take p.2.words.length = p.2.words ∧
    p.1.cpuRingMode = some p.2.ringMode

theorem GdtInv.init : GdtInv (GlobalDescTable.new, []) :=
  ⟨used_new, by decide, fun _ h => absurd h List.not_mem_nil⟩

/-- One `add_entry` keeps the invariant: the words of the earlier segments lie below the next
free entry, which the new words go after. -/
theorem GdtInv.step {s s' : GdtLog} (hi : GdtInv s) (h : GdtStep s s') : GdtInv s' := by
  obtain ⟨segment, selector, gdt', hadd, rfl⟩ := h
  obtain ⟨hused, hle, rfl⟩ := addEntry_eq_some hadd
  have hlen : s.1.used.length = s.1.mNextFreeDesc := length_used _
  have hnext : gdt'.mNextFreeDesc = s.1.mNextFreeDesc + segment.words.length := by
    rw [← length_used, hused, List.length_append, hlen]
  have hindex : (SegmentSelector.new (BitVec.ofNat 16 s.1.mNextFreeDesc)
      segment.ringMode).arrayIndex.toNat = s.1.mNextFreeDesc := by
    rw [SegmentSelector.arrayIndex_new (by omega), BitVec.toNat_ofNat, Nat.mod_eq_of_lt (by omega)]
  refine ⟨by rw [hused, hi.used_eq]; simp, hle, fun p hp => ?_⟩
  show p.1.arrayIndex.toNat + p.2.words.length ≤ gdt'.mNextFreeDesc ∧
    (gdt'.used.drop p.1.arrayIndex.toNat).take p.2.words.length = p.2.words ∧
    p.1.cpuRingMode = some p.2.ringMode
  rcases List.mem_append.mp hp with hp | hp
  · obtain ⟨hbound, hwords, hring⟩ := hi.selectors p hp
    refine ⟨by omega, ?_, hring⟩
    rw [hused, List.drop_append_of_le_length (by omega), List.take_append_of_le_length
      (by rw [List.length_drop]; omega), hwords]
  · rw [List.mem_singleton] at hp
    subst hp
    dsimp only
    refine ⟨by rw [hindex]; omega, ?_, SegmentSelector.cpuRingMode_new _ _⟩
    rw [hindex, hused, ← hlen, List.drop_left, List.take_length]

theorem GdtReachable.inv {s : GdtLog} (h : GdtReachable s) : GdtInv s :=
  @Transition.Reachable.invariant _ GdtInit GdtStep GdtInv (fun _ hs => hs ▸ GdtInv.init)
    (fun _ _ hi hst => hi.step hst) s h

/-- Along every run of `add_entry` from a new table, the entries in use are the null segment
and the words of the segments added, in order, at most eight; each selector returned indexes
its segment's words and carries the ring `add_entry` chose for the segment. -/
theorem gdt_run_log {gdt : GlobalDescTable} {log : List (SegmentSelector × Segment)}
    (h : GdtReachable (gdt, log)) :
    gdt.used = 0#64 :: (log.map fun p => p.2.words).flatten ∧ gdt.used.length ≤ 8 ∧
      ∀ selector segment, (selector, segment) ∈ log →
        (gdt.used.drop selector.arrayIndex.toNat).take segment.words.length = segment.words ∧
        selector.cpuRingMode = some segment.ringMode := by
  have hi := h.inv
  refine ⟨hi.used_eq, by rw [length_used]; exact hi.le_eight, fun selector segment hp => ?_⟩
  obtain ⟨-, hwords, hring⟩ := hi.selectors _ hp
  exact ⟨hwords, hring⟩

/-- A run of one `add_entry`, of a system segment, from a new table. -/
theorem gdt_run_log_system :
    ∃ gdt selector, GdtReachable (gdt, [(selector, .system 1#64 2#64)]) ∧
      gdt.used = 0#64 :: ([(selector, Segment.system 1#64 2#64)].map fun p => p.2.words).flatten ∧
      gdt.used.length ≤ 8 ∧
      ∀ selector' segment, (selector', segment) ∈ [(selector, Segment.system 1#64 2#64)] →
        (gdt.used.drop selector'.arrayIndex.toNat).take segment.words.length = segment.words ∧
        selector'.cpuRingMode = some segment.ringMode := by
  obtain ⟨gdt, selector, h⟩ : ∃ gdt selector,
      GlobalDescTable.new.addEntry (.system 1#64 2#64) = some (gdt, selector) := ⟨_, _, rfl⟩
  have hr : GdtReachable (gdt, [(selector, .system 1#64 2#64)]) :=
    @Transition.Reachable.step _ GdtInit GdtStep (GlobalDescTable.new, []) _ (.init rfl)
      ⟨_, _, _, h, rfl⟩
  exact ⟨gdt, selector, hr, gdt_run_log hr⟩

end Run

section Init

open GlobalDescTable SegmentFlagsBits

namespace SegmentFlagsBits

/-- The flags of `SegmentFlagsBits::common()`, in the order they are `|`-ed on. -/
def commonFlags : List SegmentFlagsBits :=
  [limit0, limit1, limit2, limit3, limit4, limit5, limit6, limit7, limit8, limit9, limit10,
    limit11, limit12, limit13, limit14, limit15, limit16, limit17, limit18, limit19, accessed,
    writeable, userSegment, present, granularity]

/-- `SegmentFlagsBits::common()`: `SegmentFlags::new_zero()` with the common flags. -/
def common : Option SegmentFlags := commonFlags.foldlM bitorFlag newZero

theorem into_lt (t : SegmentFlagsBits) : FlagValues.into t < 64 := by
  cases t <;> decide

end SegmentFlagsBits

namespace Segment

/-- The common segments of `gdt.rs`: `SegmentFlagsBits::common()` with `flags` `|`-ed on, as
the raw bits of `Segment::Common`. -/
def commonSegment (flags : List SegmentFlagsBits) : Option Segment := do
  let bitFlags ← SegmentFlagsBits.common
  let bitFlags ← flags.foldlM bitorFlag bitFlags
  return .common (rawBits bitFlags)

/-- `Segment::kernel_code_segment`. -/
def kernelCodeSegment : Option Segment := commonSegment [.executable, .longMode]

/-- `Segment::kernel_data_segment`. -/
def kernelDataSegment : Option Segment := commonSegment [.defaultSize]

/-- `Segment::user_code_segment`. -/
def userCodeSegment : Option Segment := commonSegment [.executable, .longMode, .dplRing3]

/-- `Segment::user_data_segment`. -/
def userDataSegment : Option Segment := commonSegment [.defaultSize, .dplRing3]

/-- A common segment's word has the bits of the common flags and of its own, and no other. -/
theorem commonSegment_spec (flags : List SegmentFlagsBits) :
    ∃ word, commonSegment flags = some (.common word) ∧
      ∀ i, word.getLsbD i = decide (∃ t ∈ commonFlags ++ flags, FlagValues.into t = i) := by
  obtain ⟨c, hc, hcbits⟩ := foldlM_bitorFlag (fun t (_ : t ∈ commonFlags) => into_lt t)
    (newZero : SegmentFlags)
  obtain ⟨g, hg, hgbits⟩ := foldlM_bitorFlag (fun t (_ : t ∈ flags) => into_lt t) c
  refine ⟨rawBits g, ?_, fun i => ?_⟩
  · simp [commonSegment, SegmentFlagsBits.common, hc, hg]
  · rw [rawBits, hgbits, hcbits]
    simp [newZero, List.mem_append, or_and_right, exists_or]


/-- The word of a common segment: its bits are those of the common flags and of its own. -/
theorem getLsbD_of_commonSegment {flags : List SegmentFlagsBits} {word : BitVec 64}
    (h : commonSegment flags = some (.common word)) (i : Nat) :
    word.getLsbD i = decide (∃ t ∈ commonFlags ++ flags, FlagValues.into t = i) := by
  obtain ⟨word', h', hbits⟩ := commonSegment_spec flags
  rw [h, Option.some.injEq, Segment.common.injEq] at h'
  rw [h', hbits]

/-- The bit of each flag in a common segment's word is set exactly when the flag is one of
the common flags or of the segment's own. -/
theorem getLsbD_commonSegment {flags : List SegmentFlagsBits} {word : BitVec 64}
    (h : commonSegment flags = some (.common word)) (t : SegmentFlagsBits) :
    word.getLsbD (FlagValues.into t) = decide (t ∈ commonFlags ++ flags) := by
  simp [getLsbD_of_commonSegment h, into_inj]

/-- Bit `45`, `DplRing3`, is set exactly when the segment has the flag: no common flag is it. -/
theorem getLsbD_45_commonSegment {flags : List SegmentFlagsBits} {word : BitVec 64}
    (h : commonSegment flags = some (.common word)) :
    word.getLsbD 45 = decide (SegmentFlagsBits.dplRing3 ∈ flags) := by
  have hnot : SegmentFlagsBits.dplRing3 ∉ commonFlags := by decide
  have h45 := getLsbD_commonSegment h .dplRing3
  rw [show FlagValues.into SegmentFlagsBits.dplRing3 = 45 from rfl] at h45
  simpa only [List.mem_append, hnot, false_or] using h45

/-- Bit `46` of a common segment's word is clear: it is no flag's. -/
theorem getLsbD_46_commonSegment {flags : List SegmentFlagsBits} {word : BitVec 64}
    (h : commonSegment flags = some (.common word)) : word.getLsbD 46 = false := by
  have hnone : ∀ t : SegmentFlagsBits, FlagValues.into t ≠ 46 := by
    intro t
    cases t <;> decide
  rw [getLsbD_of_commonSegment h]
  simp [hnone]

/-- The privilege level of a common segment is `DplRing3`'s bit alone: `1` with the flag and
`0` without it, never `3`. -/
theorem dpl_commonSegment {flags : List SegmentFlagsBits} {word : BitVec 64}
    (h : commonSegment flags = some (.common word)) :
    SystemDesc.dpl word = if SegmentFlagsBits.dplRing3 ∈ flags then 1#2 else 0#2 := by
  have h45 := getLsbD_45_commonSegment h
  have h46 := getLsbD_46_commonSegment h
  apply BitVec.eq_of_getLsbD_eq
  intro i hi
  simp only [SystemDesc.dpl, BitVec.getLsbD_extractLsb', hi, decide_true, Bool.true_and]
  rcases (by omega : i = 0 ∨ i = 1) with rfl | rfl
  · rw [Nat.add_zero, h45]
    by_cases hd : SegmentFlagsBits.dplRing3 ∈ flags <;> simp [hd]
  · rw [h46]
    by_cases hd : SegmentFlagsBits.dplRing3 ∈ flags <;> simp [hd]

/-- `add_entry` gives a common segment's selector ring `3` exactly when it has `DplRing3`. -/
theorem ringMode_commonSegment {flags : List SegmentFlagsBits} {word : BitVec 64}
    (h : commonSegment flags = some (.common word)) :
    (Segment.common word).ringMode =
      if SegmentFlagsBits.dplRing3 ∈ flags then .ring3 else .ring0 := by
  rw [ringMode, getLsbD_45_commonSegment h]
  by_cases hd : SegmentFlagsBits.dplRing3 ∈ flags <;> simp [hd]

end Segment

/-! The processor reads the present bit and the privilege level of a code or data descriptor
where it reads them in a system descriptor (`SystemDesc.present`, `SystemDesc.dpl`). -/

namespace CodeDesc

/-- Code rather than data: bit `43`. -/
def executable (word : BitVec 64) : Bool := word.getLsbD 43

/-- A 64-bit code segment: bit `53`. -/
def longMode (word : BitVec 64) : Bool := word.getLsbD 53

/-- The default operand size, which a 64-bit code segment must have clear: bit `54`. -/
def defaultSize (word : BitVec 64) : Bool := word.getLsbD 54

end CodeDesc

/-- The part of `HwCpu::init` that fills the GDT, from `GlobalDescTable::new()`: the selectors
of the kernel code and of the TSS, which `init` loads next; `none` is a panic. -/
def HwCpu.initGdt (taskStateSegmentPtr : BitVec 64) :
    Option (GlobalDescTable × SegmentSelector × SegmentSelector) := do
  let gdt := GlobalDescTable.new
  let (gdt, kernCodeSegmentSelector) ← gdt.addEntry (← Segment.kernelCodeSegment)
  let (gdt, _) ← gdt.addEntry (← Segment.kernelDataSegment)
  let (gdt, _) ← gdt.addEntry (← Segment.userCodeSegment)
  let (gdt, _) ← gdt.addEntry (← Segment.userDataSegment)
  let (gdt, tssSegmentSelector) ← gdt.addEntry (← tssSegment taskStateSegmentPtr)
  return (gdt, kernCodeSegmentSelector, tssSegmentSelector)


/-- `HwCpu::init` fills seven entries of the GDT without a panic, whatever the TSS's address:
the null segment, the kernel code and data segments, the user code and data segments, and the
TSS's two words.  The selectors it keeps are index `1` and index `5`, both at ring `0`.  The
code and data descriptors are present, and the code ones are 64-bit; the kernel's have
privilege level `0`, but the user's have privilege level `1`, while `add_entry` gives their
selectors ring `3`. -/
theorem hwCpu_initGdt (taskStateSegmentPtr : BitVec 64) :
    ∃ gdt kernCode kernData userCode userData,
      HwCpu.initGdt taskStateSegmentPtr =
        some (gdt, SegmentSelector.new 1#16 .ring0, SegmentSelector.new 5#16 .ring0) ∧
      gdt.used = [0#64, kernCode, kernData, userCode, userData,
        tssLowBits taskStateSegmentPtr, tssHighBits taskStateSegmentPtr] ∧
      (∀ word ∈ [kernCode, kernData, userCode, userData], SystemDesc.present word = true) ∧
      (CodeDesc.executable kernCode = true ∧ CodeDesc.longMode kernCode = true ∧
        CodeDesc.defaultSize kernCode = false) ∧
      (CodeDesc.executable userCode = true ∧ CodeDesc.longMode userCode = true ∧
        CodeDesc.defaultSize userCode = false) ∧
      CodeDesc.executable kernData = false ∧ CodeDesc.executable userData = false ∧
      SystemDesc.dpl kernCode = 0#2 ∧ SystemDesc.dpl kernData = 0#2 ∧
      SystemDesc.dpl userCode = 1#2 ∧ SystemDesc.dpl userData = 1#2 ∧
      (Segment.common userCode).ringMode = .ring3 ∧
      (Segment.common userData).ringMode = .ring3 := by
  obtain ⟨kernCode, hkc, -⟩ := Segment.commonSegment_spec [.executable, .longMode]
  obtain ⟨kernData, hkd, -⟩ := Segment.commonSegment_spec [.defaultSize]
  obtain ⟨userCode, huc, -⟩ := Segment.commonSegment_spec [.executable, .longMode, .dplRing3]
  obtain ⟨userData, hud, -⟩ := Segment.commonSegment_spec [.defaultSize, .dplRing3]
  obtain ⟨gdt₁, h₁, hused₁⟩ := @addEntry_of_room GlobalDescTable.new (.common kernCode)
    (by simp [used_new, Segment.words])
  obtain ⟨gdt₂, h₂, hused₂⟩ := @addEntry_of_room gdt₁ (.common kernData)
    (by simp [hused₁, used_new, Segment.words])
  obtain ⟨gdt₃, h₃, hused₃⟩ := @addEntry_of_room gdt₂ (.common userCode)
    (by simp [hused₂, hused₁, used_new, Segment.words])
  obtain ⟨gdt₄, h₄, hused₄⟩ := @addEntry_of_room gdt₃ (.common userData)
    (by simp [hused₃, hused₂, hused₁, used_new, Segment.words])
  obtain ⟨gdt₅, h₅, hused₅⟩ := @addEntry_of_room gdt₄
    (.system (tssLowBits taskStateSegmentPtr) (tssHighBits taskStateSegmentPtr))
    (by simp [hused₄, hused₃, hused₂, hused₁, used_new, Segment.words])
  have hring : (Segment.common kernCode).ringMode = .ring0 := by
    rw [Segment.ringMode_commonSegment hkc]; decide
  refine ⟨gdt₅, kernCode, kernData, userCode, userData, ?_, ?_, ?_⟩
  · simp only [HwCpu.initGdt, Segment.kernelCodeSegment, Segment.kernelDataSegment,
      Segment.userCodeSegment, Segment.userDataSegment, hkc, hkd, huc, hud, tssSegment_eq,
      Option.bind_eq_bind, Option.bind_some, h₁, h₂, h₃, h₄, h₅, hring]
    simp [hused₄, hused₃, hused₂, hused₁, used_new, Segment.words, Segment.ringMode]
  · simp [hused₅, hused₄, hused₃, hused₂, hused₁, used_new, Segment.words]
  simp only [SystemDesc.present, CodeDesc.executable, CodeDesc.longMode, CodeDesc.defaultSize,
    Segment.dpl_commonSegment hkc, Segment.dpl_commonSegment hkd,
    Segment.dpl_commonSegment huc, Segment.dpl_commonSegment hud,
    Segment.ringMode_commonSegment huc, Segment.ringMode_commonSegment hud,
    List.forall_mem_cons, List.not_mem_nil, false_implies, implies_true, and_true,
    Segment.getLsbD_of_commonSegment hkc,
    Segment.getLsbD_of_commonSegment hkd, Segment.getLsbD_of_commonSegment huc,
    Segment.getLsbD_of_commonSegment hud]
  constructorm* _ ∧ _ <;> decide

end Init

end Kernel
end MeetixOs
