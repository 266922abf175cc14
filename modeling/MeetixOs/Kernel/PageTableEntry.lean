import MeetixOs.Kernel.PageDir

/-!
# The fields of an x86_64 page-table entry

`arch/x86_64/vm/hw_page_table_entry.rs` packs an entry into one `usize`: the flags
`present` (bit `0`), `writeable` (`1`), `user` (`2`), the cache-disable bit `4` that
`is_cacheable` reads inverted, `accessed` (`5`), `dirty` (`6`), `huge_page` (`7`), `global`
(`8`) and `no_execute` (`63`), and the frame in bits `12..52`.  A getter is a `bit_at`, a
setter a `set_bit`; `set_raw_phys_frame` ors the frame into the entry with the frame bits
cleared, and `set_unused` writes `0`.  `vm/page_table_entry.rs` forwards to them.

`MeetixOs.Kernel.PageDir` has the entry, its frame and the flags the walk uses; this module
adds the other getters and setters, and `PageTableFlag` names the nine flags, so that one
statement covers every pair of a getter and a setter.

**Results.**
* `PageTableFlag.set_spec`: a setter sets its flag and keeps the frame and every other flag.
* `setPhysFrame_spec`: a frame on a page below `2 ^ 52` reads back, and no flag changes.
* `setUnused_spec`: an unused entry is not present.
-/

namespace MeetixOs
namespace Kernel

open Bits

namespace PageTableEntry

/-- `is_writeable`. -/
def isWriteable (self : PageTableEntry) : Bool := self.flag 1

/-- `is_user`. -/
def isUser (self : PageTableEntry) : Bool := self.flag 2

/-- `is_cacheable`: bit `4` disables the cache, so it is read inverted. -/
def isCacheable (self : PageTableEntry) : Bool := !self.flag 4

/-- `is_accessed`. -/
def isAccessed (self : PageTableEntry) : Bool := self.flag 5

/-- `is_dirty`. -/
def isDirty (self : PageTableEntry) : Bool := self.flag 6

/-- `is_global`. -/
def isGlobal (self : PageTableEntry) : Bool := self.flag 8

/-- `is_no_execute`. -/
def isNoExecute (self : PageTableEntry) : Bool := self.flag 63

/-- `set_user`. -/
def setUser (self : PageTableEntry) (isUser : Bool) : Option PageTableEntry :=
  self.setFlag 2 isUser

/-- `set_cacheable`: the cache-disable bit gets the negation. -/
def setCacheable (self : PageTableEntry) (isCacheable : Bool) : Option PageTableEntry :=
  self.setFlag 4 (!isCacheable)

/-- `set_accessed`. -/
def setAccessed (self : PageTableEntry) (isAccessed : Bool) : Option PageTableEntry :=
  self.setFlag 5 isAccessed

/-- `set_dirty`. -/
def setDirty (self : PageTableEntry) (isDirty : Bool) : Option PageTableEntry :=
  self.setFlag 6 isDirty

/-- `set_no_execute`. -/
def setNoExecute (self : PageTableEntry) (isNoExecute : Bool) : Option PageTableEntry :=
  self.setFlag 63 isNoExecute

/-- `set_unused`. -/
def setUnused (_self : PageTableEntry) : PageTableEntry := ⟨0#64⟩

end PageTableEntry

/-- The flags of an entry that have a getter and a setter. -/
inductive PageTableFlag
  | present
  | writeable
  | user
  | cacheable
  | accessed
  | dirty
  | hugePage
  | global
  | noExecute
  deriving DecidableEq, Repr

namespace PageTableFlag

open PageTableEntry

/-- The getter of a flag. -/
def get : PageTableFlag → PageTableEntry → Bool
  | present => isPresent
  | writeable => isWriteable
  | user => isUser
  | cacheable => isCacheable
  | accessed => isAccessed
  | dirty => isDirty
  | hugePage => isHugePage
  | global => isGlobal
  | noExecute => isNoExecute

/-- The setter of a flag. -/
def set : PageTableFlag → PageTableEntry → Bool → Option PageTableEntry
  | present => setPresent
  | writeable => setWriteable
  | user => setUser
  | cacheable => setCacheable
  | accessed => setAccessed
  | dirty => setDirty
  | hugePage => setHugePage
  | global => setGlobal
  | noExecute => setNoExecute

/-- The bit a flag is stored in. -/
def bit : PageTableFlag → Nat
  | present => 0
  | writeable => 1
  | user => 2
  | cacheable => 4
  | accessed => 5
  | dirty => 6
  | hugePage => 7
  | global => 8
  | noExecute => 63

/-- Whether the stored bit is the negation of the flag. -/
def inverted : PageTableFlag → Bool
  | cacheable => true
  | _ => false

theorem bit_lt (f : PageTableFlag) : f.bit < 64 := by
  cases f <;> decide

/-- No flag is stored among the frame bits `12..52`. -/
theorem bit_lt_or_le (f : PageTableFlag) : f.bit < 12 ∨ 52 ≤ f.bit := by
  cases f <;> decide

theorem bit_injective : Function.Injective bit := by
  intro f g h
  cases f <;> cases g <;> first | rfl | exact absurd h (by decide)

/-- A getter reads its bit, negated for `cacheable`. -/
theorem get_eq (f : PageTableFlag) (e : PageTableEntry) :
    f.get e = (e.mEntryValue.getLsbD f.bit ^^ f.inverted) := by
  have hbit := testBit_eq_getLsbD e.mEntryValue f.bit_lt
  cases f <;> simpa [get, bit, inverted, isPresent, isWriteable, isUser, isCacheable,
    isAccessed, isDirty, isHugePage, isGlobal, isNoExecute, flag] using hbit

/-- A setter is `set_bit` at its bit, with the value negated for `cacheable`. -/
theorem set_eq (f : PageTableFlag) (e : PageTableEntry) (b : Bool) :
    f.set e b = e.setFlag f.bit (b ^^ f.inverted) := by
  cases f <;> cases b <;> rfl

end PageTableFlag

namespace PageTableEntry

/-- A flag setter at a bit of the word sets that bit and keeps the others. -/
theorem setFlag_spec (e : PageTableEntry) {i : Nat} (hi : i < 64) (v : Bool) :
    ∃ e', e.setFlag i v = some e' ∧
      ∀ j, e'.mEntryValue.getLsbD j = if j = i then v else e.mEntryValue.getLsbD j := by
  obtain ⟨y, hy⟩ := Option.isSome_iff_exists.mp (setBit_isSome (x := e.mEntryValue) v hi)
  exact ⟨⟨y⟩, by rw [setFlag, hy, Option.map_some], setBit_getLsbD hy⟩

/-- The frame mask `0x000f_ffff_ffff_f000` is bits `12..52`. -/
theorem getLsbD_frameMask (j : Nat) :
    (0x000f_ffff_ffff_f000#64 : BitVec 64).getLsbD j = decide (12 ≤ j ∧ j < 52) := by
  have hmask : (0x000f_ffff_ffff_f000#64 : BitVec 64) = BitVec.ofNat 64 (2 ^ 52 - 2 ^ 12) := rfl
  rw [hmask, BitVec.getLsbD_ofNat, PowTwo.testBit_two_pow_sub_two_pow (by decide)]
  by_cases hj : j < 64
  · simp [hj]
  · simp [hj, show ¬ j < 52 by omega]

theorem getLsbD_rawPhysFrame (e : PageTableEntry) (j : Nat) :
    e.rawPhysFrame.getLsbD j = (decide (12 ≤ j ∧ j < 52) && e.mEntryValue.getLsbD j) := by
  rw [rawPhysFrame, BitVec.getLsbD_and, getLsbD_frameMask, Bool.and_comm]

/-- Entries that agree on bits `12..52` have the same frame. -/
theorem rawPhysFrame_eq_of_getLsbD {e e' : PageTableEntry}
    (h : ∀ j, 12 ≤ j → j < 52 → e'.mEntryValue.getLsbD j = e.mEntryValue.getLsbD j) :
    e'.rawPhysFrame = e.rawPhysFrame := by
  apply BitVec.eq_of_getLsbD_eq
  intro j _
  rw [getLsbD_rawPhysFrame, getLsbD_rawPhysFrame]
  by_cases hj : 12 ≤ j ∧ j < 52
  · rw [h j hj.1 hj.2]
  · simp [hj]

section PhysFrame

variable {p : BitVec 64}

/-- A frame on a page below `2 ^ 52` has bits only in `12..52`. -/
theorem getLsbD_frame (halign : p.toNat % page4KiBSize = 0) (hlt : p.toNat < 2 ^ 52) (j : Nat) :
    p.getLsbD j = (decide (12 ≤ j ∧ j < 52) && p.getLsbD j) := by
  by_cases hj : 12 ≤ j ∧ j < 52
  · simp [hj]
  · rw [decide_eq_false hj, Bool.false_and]
    rcases Nat.lt_or_ge j 12 with hlo | hhi
    · have hmod : (p.toNat % 2 ^ 12).testBit j = p.toNat.testBit j := by
        rw [Nat.testBit_mod_two_pow, decide_eq_true hlo, Bool.true_and]
      rw [← BitVec.testBit_toNat, ← hmod, show 2 ^ 12 = page4KiBSize from rfl, halign,
        Nat.zero_testBit]
    · exact getLsbD_eq_false_of_toNat_lt hlt (by omega)

/-- `set_raw_phys_frame` writes bits `12..52` and keeps the others. -/
theorem getLsbD_setPhysFrame (e : PageTableEntry) (halign : p.toNat % page4KiBSize = 0)
    (hlt : p.toNat < 2 ^ 52) (j : Nat) :
    (e.setPhysFrame p).mEntryValue.getLsbD j =
      if 12 ≤ j ∧ j < 52 then p.getLsbD j else e.mEntryValue.getLsbD j := by
  have hflags : (0xfff0_0000_0000_0fff#64 : BitVec 64) = ~~~0x000f_ffff_ffff_f000#64 := by
    decide
  rw [setPhysFrame, BitVec.getLsbD_or, BitVec.getLsbD_and, hflags, BitVec.getLsbD_not,
    getLsbD_frameMask, getLsbD_frame halign hlt j]
  by_cases hj : 12 ≤ j ∧ j < 52
  · simp [hj]
  · by_cases hw : j < 64
    · simp [hj, hw]
    · simp [hj, BitVec.getLsbD_of_ge e.mEntryValue j (by omega)]

end PhysFrame

end PageTableEntry

/-- A setter sets its flag, and keeps the frame and every other flag. -/
theorem PageTableFlag.set_spec (f : PageTableFlag) (e : PageTableEntry) (b : Bool) :
    ∃ e', f.set e b = some e' ∧ f.get e' = b ∧ e'.rawPhysFrame = e.rawPhysFrame ∧
      ∀ g, g ≠ f → g.get e' = g.get e := by
  obtain ⟨e', hset, hbits⟩ := e.setFlag_spec f.bit_lt (b ^^ f.inverted)
  refine ⟨e', by rw [f.set_eq, hset], ?_, ?_, ?_⟩
  · rw [get_eq, hbits, if_pos rfl, Bool.xor_assoc, Bool.xor_self, Bool.xor_false]
  · refine PageTableEntry.rawPhysFrame_eq_of_getLsbD fun j hlo hhi => ?_
    have hne : j ≠ f.bit := by
      rcases f.bit_lt_or_le with h | h <;> omega
    rw [hbits, if_neg hne]
  · intro g hg
    rw [get_eq, get_eq, hbits, if_neg fun h => hg (bit_injective h)]

namespace PageTableEntry

/-- `set_phys_frame` with a frame on a page below `2 ^ 52`: the frame reads back, and no flag
changes. -/
theorem setPhysFrame_spec (e : PageTableEntry) {p : BitVec 64}
    (halign : p.toNat % page4KiBSize = 0) (hlt : p.toNat < 2 ^ 52) :
    (e.setPhysFrame p).rawPhysFrame = p ∧
      (e.setPhysFrame p).physFrame = (if e.isPresent then some p else none) ∧
      ∀ g : PageTableFlag, g.get (e.setPhysFrame p) = g.get e := by
  have hflags : ∀ g : PageTableFlag, g.get (e.setPhysFrame p) = g.get e := by
    intro g
    have hout : ¬ (12 ≤ g.bit ∧ g.bit < 52) := by
      rcases g.bit_lt_or_le with h | h <;> omega
    rw [PageTableFlag.get_eq, PageTableFlag.get_eq, getLsbD_setPhysFrame e halign hlt,
      if_neg hout]
  have hframe : (e.setPhysFrame p).rawPhysFrame = p := by
    apply BitVec.eq_of_getLsbD_eq
    intro j _
    rw [getLsbD_rawPhysFrame, getLsbD_setPhysFrame e halign hlt, getLsbD_frame halign hlt j]
    by_cases hj : 12 ≤ j ∧ j < 52 <;> simp [hj]
  have hpresent : (e.setPhysFrame p).isPresent = e.isPresent := hflags .present
  refine ⟨hframe, ?_, hflags⟩
  rw [physFrame, hpresent, physAddrFromUsize_rawPhysFrame, hframe]

/-- `set_unused` leaves an entry that is unused and not present. -/
theorem setUnused_spec (e : PageTableEntry) :
    e.setUnused.isUnused = true ∧ e.setUnused.isPresent = false :=
  ⟨rfl, show (⟨0#64⟩ : PageTableEntry).isPresent = false by decide⟩

end PageTableEntry

/-- The frame and the flags of an entry are independent: each setter changes its own field
alone. -/
theorem pageTableEntry_fields_independent (e : PageTableEntry) (p : BitVec 64) (b : Bool)
    (halign : p.toNat % page4KiBSize = 0) (hlt : p.toNat < 2 ^ 52) :
    ((e.setPhysFrame p).rawPhysFrame = p ∧
        ((e.setPhysFrame p).isPresent = true → (e.setPhysFrame p).physFrame = some p) ∧
        ∀ g : PageTableFlag, g.get (e.setPhysFrame p) = g.get e) ∧
      (∀ f : PageTableFlag, ∃ e', f.set e b = some e' ∧ f.get e' = b ∧
        e'.rawPhysFrame = e.rawPhysFrame ∧ ∀ g, g ≠ f → g.get e' = g.get e) ∧
      e.setUnused.isUnused = true ∧ e.setUnused.isPresent = false := by
  obtain ⟨hframe, hphys, hflags⟩ := e.setPhysFrame_spec halign hlt
  refine ⟨⟨hframe, fun hpresent => ?_, hflags⟩, fun f => f.set_spec e b, e.setUnused_spec⟩
  have hold : e.isPresent = true := (hflags .present).symm.trans hpresent
  rw [hphys, if_pos hold]

theorem pageTableEntry_fields_independent_frame :
    (0x1000#64 : BitVec 64).toNat % page4KiBSize = 0 ∧ (0x1000#64 : BitVec 64).toNat < 2 ^ 52 ∧
      ((PageTableEntry.new.setPhysFrame 0x1000#64).rawPhysFrame = 0x1000#64 ∧
        ((PageTableEntry.new.setPhysFrame 0x1000#64).isPresent = true →
          (PageTableEntry.new.setPhysFrame 0x1000#64).physFrame = some 0x1000#64) ∧
        ∀ g : PageTableFlag,
          g.get (PageTableEntry.new.setPhysFrame 0x1000#64) = g.get PageTableEntry.new) ∧
      (∀ f : PageTableFlag, ∃ e', f.set PageTableEntry.new true = some e' ∧ f.get e' = true ∧
        e'.rawPhysFrame = PageTableEntry.new.rawPhysFrame ∧
        ∀ g, g ≠ f → g.get e' = g.get PageTableEntry.new) ∧
      PageTableEntry.new.setUnused.isUnused = true ∧
      PageTableEntry.new.setUnused.isPresent = false :=
  ⟨by decide, by decide,
    pageTableEntry_fields_independent .new 0x1000#64 true (by decide) (by decide)⟩

end Kernel
end MeetixOs
