import MeetixOs.Lib.Threads
import MeetixOs.Lib.Transition

/-!
# The spinning locks of `LibSync`

A model of `RawSpinRwLock` (`rw_lock/spin_rw_lock.rs`) and `RawSpinMutex`
(`mutex/spin_mutex.rs`) under any number of threads.  A step is one atomic operation of one
thread; the loops of `do_lock_shared`, `do_lock_exclusive` and `do_lock` are sequences of
these steps, and their loads and failed exchanges change nothing.

The state of a thread is what it holds: its read guards and write guards of the `RwLock`,
whether it holds the `Mutex`, and whether it is between the `fetch_add` and the `fetch_sub`
of a `do_try_lock_shared` that saw the writer bit.  A thread unlocks only what it holds, as
the guards do.  `m_state` is the `usize` of the code, a `BitVec 64`: `fetch_add` and `fetch_sub`
wrap.  The count it keeps is exact while fewer than `2 ^ 63` read guards and announcements are
outstanding at once (`LockReachableBelow`); `2 ^ 63` read guards wrap it to `0`, and a writer's
`compare_exchange(0, 1)` then succeeds beside the readers.

**Results.**
* `LockInv`: `m_state` counts twice the readers and once the writer; at most one writer, and
  no reader while it holds; `m_is_locked` is set exactly when one thread holds the mutex.
* `LockInv.step`: every operation keeps it, one case per operation, the `fetch_add` of a
  reader while the bound holds after it.
* `spinLocks_mutual_exclusion`: in every state reached under the bound, the count of
  `m_state`, a single writer with no reader, and a single holder of the mutex.
* `spinLocks_readers_wrap`: one thread takes `2 ^ 63` read guards, and another then takes
  the write lock.
* `doIsLocked_reachable`: the `do_is_locked` of the mutex, the trait's default and the
  override of `RawSpinMutex` alike, says whether a thread holds it; the default of the
  rw-lock says whether none holds it (`rwLock_isLocked_inverted`).  None changes the state.
-/

namespace MeetixOs
namespace Sync

open Threads

/-- `RawSpinRwLock::C_READER`. -/
def cReader : BitVec 64 := 1 <<< 1

/-- `RawSpinRwLock::C_WRITER`. -/
def cWriter : BitVec 64 := 1

/-- `AtomicUsize::fetch_add`: the value before, and the value stored, which wraps. -/
def fetchAdd (v x : BitVec 64) : BitVec 64 × BitVec 64 := (v, v + x)

/-- `AtomicUsize::fetch_sub`: the value before, and the value stored, which wraps. -/
def fetchSub (v x : BitVec 64) : BitVec 64 × BitVec 64 := (v, v - x)

theorem cReader_toNat : cReader.toNat = 2 := rfl

theorem cWriter_toNat : cWriter.toNat = 1 := rfl

/-- Adding `C_READER` does not wrap below `2 ^ 64`. -/
theorem toNat_add_cReader {v : BitVec 64} (h : v.toNat + 2 < 2 ^ 64) :
    (v + cReader).toNat = v.toNat + 2 := by
  rw [BitVec.toNat_add_of_lt (by rw [cReader_toNat]; exact h), cReader_toNat]

/-- Taking `C_READER` from a value of at least `2` does not wrap. -/
theorem toNat_sub_cReader {v : BitVec 64} (h : 2 ≤ v.toNat) :
    (v - cReader).toNat = v.toNat - 2 := by
  rw [BitVec.toNat_sub_of_le (BitVec.le_def.mpr (by rw [cReader_toNat]; exact h)),
    cReader_toNat]

/-- Taking `C_WRITER` from a value of at least `1` does not wrap. -/
theorem toNat_sub_cWriter {v : BitVec 64} (h : 1 ≤ v.toNat) :
    (v - cWriter).toNat = v.toNat - 1 := by
  rw [BitVec.toNat_sub_of_le (BitVec.le_def.mpr (by rw [cWriter_toNat]; exact h)),
    cWriter_toNat]

/-- The writer bit of a value is its parity. -/
theorem and_cWriter_ne_zero_iff (v : BitVec 64) : v &&& cWriter ≠ 0 ↔ v.toNat % 2 = 1 := by
  have h0 : (0 : BitVec 64).toNat = 0 := rfl
  rw [Ne, BitVec.toNat_eq, BitVec.toNat_and, cWriter_toNat, Nat.and_one_is_mod, h0]
  omega

/-- `compare_exchange(current, new)`: `Ok` with the value, and `new` stored, when the value
is `current`; else `Err` with the value, which stays. -/
def compareExchange {α : Type} [DecidableEq α] (v current new : α) : Except α α × α :=
  if v = current then (.ok v, new) else (.error v, v)

/-- What one thread holds of the two locks. -/
structure ThreadState where
  readGuards : Nat
  backingOff : Bool
  writeGuards : Nat
  holdsMutex : Bool
  deriving DecidableEq, Repr

/-- A thread that holds nothing. -/
def ThreadState.idle : ThreadState := ⟨0, false, 0, false⟩

/-- `m_state` of the `RawSpinRwLock`, `m_is_locked` of the `RawSpinMutex`, and the
threads. -/
structure LockState (τ : Type) where
  rwState : BitVec 64
  isLocked : Bool
  threads : τ → ThreadState

/-- Both locks free, no thread holding anything: `CONST_CREAT`. -/
def LockState.init (τ : Type) : LockState τ := ⟨0, false, fun _ => ThreadState.idle⟩

/-- The atomic operations of the two locks. -/
inductive LockOp
  /-- The `fetch_add` of `do_try_lock_shared`. -/
  | tryLockSharedAdd
  /-- Its `fetch_sub` after it saw the writer bit. -/
  | tryLockSharedUndo
  /-- `do_unlock_shared`. -/
  | unlockShared
  /-- The `compare_exchange` of `do_try_lock_exclusive`. -/
  | tryLockExclusive
  /-- `do_unlock_exclusive`. -/
  | unlockExclusive
  /-- The `compare_exchange` of `do_try_lock`. -/
  | tryLock
  /-- The `compare_exchange_weak` of `try_lock_weak`, which may fail spuriously. -/
  | tryLockWeak (spurious : Bool)
  /-- The `store` of `do_unlock`. -/
  | unlock
  deriving DecidableEq, Repr

namespace LockOp

/-- Whether a thread in state `ts` can take the operation: a thread between the two atomic
steps of `do_try_lock_shared` can only take the second, and unlocks need what they
release. -/
def Enabled : LockOp → ThreadState → Prop
  | tryLockSharedUndo, ts => ts.backingOff = true
  | unlockShared, ts => ts.backingOff = false ∧ 0 < ts.readGuards
  | unlockExclusive, ts => ts.backingOff = false ∧ 0 < ts.writeGuards
  | unlock, ts => ts.backingOff = false ∧ ts.holdsMutex = true
  | _, ts => ts.backingOff = false

variable {τ : Type} [DecidableEq τ]

/-- The operation taken by thread `t`. -/
def apply (s : LockState τ) (t : τ) : LockOp → LockState τ
  | tryLockSharedAdd =>
    let ts := s.threads t
    let (stateValue, v) := fetchAdd s.rwState cReader
    if stateValue &&& cWriter ≠ 0 then
      ⟨v, s.isLocked, Function.update s.threads t { ts with backingOff := true }⟩
    else
      ⟨v, s.isLocked, Function.update s.threads t { ts with readGuards := ts.readGuards + 1 }⟩
  | tryLockSharedUndo =>
    let ts := s.threads t
    ⟨(fetchSub s.rwState cReader).2, s.isLocked,
      Function.update s.threads t { ts with backingOff := false }⟩
  | unlockShared =>
    let ts := s.threads t
    ⟨(fetchSub s.rwState cReader).2, s.isLocked,
      Function.update s.threads t { ts with readGuards := ts.readGuards - 1 }⟩
  | tryLockExclusive =>
    let ts := s.threads t
    match compareExchange s.rwState 0 cWriter with
    | (.ok _, v) =>
      ⟨v, s.isLocked, Function.update s.threads t { ts with writeGuards := ts.writeGuards + 1 }⟩
    | (.error _, v) => { s with rwState := v }
  | unlockExclusive =>
    let ts := s.threads t
    ⟨(fetchSub s.rwState cWriter).2, s.isLocked,
      Function.update s.threads t { ts with writeGuards := ts.writeGuards - 1 }⟩
  | tryLock =>
    let ts := s.threads t
    match compareExchange s.isLocked false true with
    | (.ok _, v) => ⟨s.rwState, v, Function.update s.threads t { ts with holdsMutex := true }⟩
    | (.error _, v) => { s with isLocked := v }
  | tryLockWeak spurious =>
    let ts := s.threads t
    if spurious then s
    else
      match compareExchange s.isLocked false true with
      | (.ok _, v) => ⟨s.rwState, v, Function.update s.threads t { ts with holdsMutex := true }⟩
      | (.error _, v) => { s with isLocked := v }
  | unlock =>
    let ts := s.threads t
    ⟨s.rwState, false, Function.update s.threads t { ts with holdsMutex := false }⟩

end LockOp

variable {τ : Type} [DecidableEq τ]

/-- One atomic operation of one thread. -/
inductive LockStep : LockState τ → LockState τ → Prop
  | step {s : LockState τ} (t : τ) (op : LockOp) :
      op.Enabled (s.threads t) → LockStep s (op.apply s t)

/-- The states of the two locks and the threads some interleaving reaches. -/
def LockReachable (s : LockState τ) : Prop :=
  Transition.Reachable (fun s => s = LockState.init τ) LockStep s

namespace LockState

variable [Fintype τ]

/-- The read guards the threads hold. -/
def readers (s : LockState τ) : Nat := ∑ t, (s.threads t).readGuards

/-- The threads between the two atomic steps of a failed `do_try_lock_shared`. -/
def backingOff (s : LockState τ) : Nat := ∑ t, (s.threads t).backingOff.toNat

/-- The write guards the threads hold. -/
def writers (s : LockState τ) : Nat := ∑ t, (s.threads t).writeGuards

/-- The threads that hold the mutex. -/
def mutexHolders (s : LockState τ) : Nat := ∑ t, (s.threads t).holdsMutex.toNat

/-- The counts after thread `t` changed its state to `ts`: each moves by the change of
that thread. -/
theorem counts_update (s : LockState τ) (t : τ) (ts : ThreadState) (v : BitVec 64) (b : Bool) :
    (⟨v, b, Function.update s.threads t ts⟩ : LockState τ).readers + (s.threads t).readGuards =
      s.readers + ts.readGuards ∧
    (⟨v, b, Function.update s.threads t ts⟩ : LockState τ).backingOff +
      (s.threads t).backingOff.toNat = s.backingOff + ts.backingOff.toNat ∧
    (⟨v, b, Function.update s.threads t ts⟩ : LockState τ).writers + (s.threads t).writeGuards =
      s.writers + ts.writeGuards ∧
    (⟨v, b, Function.update s.threads t ts⟩ : LockState τ).mutexHolders +
      (s.threads t).holdsMutex.toNat = s.mutexHolders + ts.holdsMutex.toNat :=
  ⟨sum_update_add s.threads ThreadState.readGuards t ts,
    sum_update_add s.threads (fun ts => ts.backingOff.toNat) t ts,
    sum_update_add s.threads ThreadState.writeGuards t ts,
    sum_update_add s.threads (fun ts => ts.holdsMutex.toNat) t ts⟩

omit [DecidableEq τ] in
/-- A thread's part bounds each count. -/
theorem le_counts (s : LockState τ) (t : τ) :
    (s.threads t).readGuards ≤ s.readers ∧ (s.threads t).backingOff.toNat ≤ s.backingOff ∧
    (s.threads t).writeGuards ≤ s.writers ∧ (s.threads t).holdsMutex.toNat ≤ s.mutexHolders :=
  ⟨le_sum s.threads ThreadState.readGuards t, le_sum s.threads (fun ts => ts.backingOff.toNat) t,
    le_sum s.threads ThreadState.writeGuards t, le_sum s.threads (fun ts => ts.holdsMutex.toNat) t⟩

end LockState

/-- `try_lock_weak` that does not fail spuriously is `try_lock`. -/
theorem LockOp.apply_tryLockWeak_false (s : LockState τ) (t : τ) :
    LockOp.apply s t (.tryLockWeak false) = LockOp.apply s t .tryLock := rfl

variable [Fintype τ]

/-- The invariant of the two locks. -/
structure LockInv (s : LockState τ) : Prop where
  rw_state : s.rwState.toNat = 2 * (s.readers + s.backingOff) + s.writers
  writers_le : s.writers ≤ 1
  no_readers : 0 < s.writers → s.readers = 0
  mutex : s.mutexHolders = s.isLocked.toNat

omit [DecidableEq τ] in
theorem LockInv.init : LockInv (LockState.init τ) := by
  refine ⟨?_, ?_, ?_, ?_⟩ <;>
    simp [LockState.init, LockState.readers, LockState.backingOff, LockState.writers,
      LockState.mutexHolders, ThreadState.idle]

/-- Fewer than `2 ^ 63` read guards and announcements outstanding at once. -/
def ReadersBelow (s : LockState τ) : Prop := s.readers + s.backingOff < 2 ^ 63

instance (s : LockState τ) : Decidable (ReadersBelow s) :=
  inferInstanceAs (Decidable (s.readers + s.backingOff < 2 ^ 63))

/-- The states that interleavings reach while every state they pass through is
`ReadersBelow`. -/
def LockReachableBelow (s : LockState τ) : Prop :=
  Transition.Reachable (fun s => s = LockState.init τ) (fun s s' => LockStep s s' ∧ ReadersBelow s')
    s

namespace LockInv

variable {s : LockState τ} {t : τ}

/-- The `fetch_add` of `do_try_lock_shared`: below the bound it does not wrap, and the writer
bit is set exactly when a writer holds the lock, so the thread either backs off or becomes a
reader with no writer around. -/
theorem tryLockSharedAdd (hi : LockInv s) (hen : (s.threads t).backingOff = false)
    (hb : ReadersBelow (LockOp.tryLockSharedAdd.apply s t)) :
    LockInv (LockOp.tryLockSharedAdd.apply s t) := by
  obtain ⟨hrw, hw1, hnr, hm⟩ := hi
  have hbit : s.rwState &&& cWriter ≠ 0 ↔ s.writers = 1 := by
    rw [and_cWriter_ne_zero_iff, hrw]
    omega
  unfold ReadersBelow at hb
  by_cases hw : s.rwState &&& cWriter = 0
  · have hw0 : s.writers ≠ 1 := fun h1 => hbit.mpr h1 hw
    simp only [LockOp.apply, fetchAdd, hw, ne_eq, not_true_eq_false, if_false] at hb ⊢
    obtain ⟨hr', hb', hw', hm'⟩ := s.counts_update t
      { s.threads t with readGuards := (s.threads t).readGuards + 1 } (s.rwState + cReader)
      s.isLocked
    have hadd : (s.rwState + cReader).toNat = s.rwState.toNat + 2 :=
      toNat_add_cReader (by dsimp only at hr' hb'; omega)
    refine ⟨?_, ?_, fun _ => ?_, ?_⟩ <;> dsimp only at * <;> omega
  · have hw1' : s.writers = 1 := hbit.mp hw
    simp only [LockOp.apply, fetchAdd, hw, ne_eq, not_false_eq_true, if_true] at hb ⊢
    obtain ⟨hr', hb', hw', hm'⟩ := s.counts_update t { s.threads t with backingOff := true }
      (s.rwState + cReader) s.isLocked
    simp only [hen, Bool.toNat_false, Bool.toNat_true] at hb'
    have hadd : (s.rwState + cReader).toNat = s.rwState.toNat + 2 :=
      toNat_add_cReader (by dsimp only at hr' hb'; omega)
    refine ⟨?_, ?_, fun _ => ?_, ?_⟩ <;> dsimp only at * <;> omega

/-- The `fetch_sub` of a thread that backs off. -/
theorem tryLockSharedUndo (hi : LockInv s) (hen : (s.threads t).backingOff = true) :
    LockInv (LockOp.tryLockSharedUndo.apply s t) := by
  obtain ⟨hrw, hw1, hnr, hm⟩ := hi
  have hle := (s.le_counts t).2.1
  obtain ⟨hr', hb', hw', hm'⟩ := s.counts_update t { s.threads t with backingOff := false }
    (s.rwState - cReader) s.isLocked
  simp only [hen, Bool.toNat_false, Bool.toNat_true] at hb' hle
  have hsub : (s.rwState - cReader).toNat = s.rwState.toNat - 2 := toNat_sub_cReader (by omega)
  simp only [LockOp.apply, fetchSub]
  refine ⟨?_, ?_, fun _ => ?_, ?_⟩ <;> dsimp only at * <;> omega

/-- `do_unlock_shared` by a reader. -/
theorem unlockShared (hi : LockInv s) (hen : 0 < (s.threads t).readGuards) :
    LockInv (LockOp.unlockShared.apply s t) := by
  obtain ⟨hrw, hw1, hnr, hm⟩ := hi
  have hle := (s.le_counts t).1
  obtain ⟨hr', hb', hw', hm'⟩ := s.counts_update t
    { s.threads t with readGuards := (s.threads t).readGuards - 1 } (s.rwState - cReader)
    s.isLocked
  have hsub : (s.rwState - cReader).toNat = s.rwState.toNat - 2 := toNat_sub_cReader (by omega)
  simp only [LockOp.apply, fetchSub]
  refine ⟨?_, ?_, fun _ => ?_, ?_⟩ <;> dsimp only at * <;> omega

/-- The exchange of `do_try_lock_exclusive` succeeds only on a free lock, with no reader,
writer or thread backing off. -/
theorem tryLockExclusive (hi : LockInv s) : LockInv (LockOp.tryLockExclusive.apply s t) := by
  obtain ⟨hrw, hw1, hnr, hm⟩ := hi
  by_cases h0 : s.rwState = 0
  · obtain ⟨hr', hb', hw', hm'⟩ := s.counts_update t
      { s.threads t with writeGuards := (s.threads t).writeGuards + 1 } cWriter s.isLocked
    have hz : s.rwState.toNat = 0 := by rw [h0]; rfl
    have hc := cWriter_toNat
    simp only [LockOp.apply, compareExchange, h0, if_true]
    refine ⟨?_, ?_, fun _ => ?_, ?_⟩ <;> dsimp only at * <;> omega
  · simp only [LockOp.apply, compareExchange, h0, if_false]
    exact ⟨hrw, hw1, hnr, hm⟩

/-- `do_unlock_exclusive` by the writer clears the writer bit. -/
theorem unlockExclusive (hi : LockInv s) (hen : 0 < (s.threads t).writeGuards) :
    LockInv (LockOp.unlockExclusive.apply s t) := by
  obtain ⟨hrw, hw1, hnr, hm⟩ := hi
  have hle := (s.le_counts t).2.2.1
  obtain ⟨hr', hb', hw', hm'⟩ := s.counts_update t
    { s.threads t with writeGuards := (s.threads t).writeGuards - 1 } (s.rwState - cWriter)
    s.isLocked
  have hsub : (s.rwState - cWriter).toNat = s.rwState.toNat - 1 := toNat_sub_cWriter (by omega)
  simp only [LockOp.apply, fetchSub]
  refine ⟨?_, ?_, fun _ => ?_, ?_⟩ <;> dsimp only at * <;> omega

/-- The exchange of `do_try_lock` succeeds only on a free mutex, which no thread holds. -/
theorem tryLock (hi : LockInv s) : LockInv (LockOp.tryLock.apply s t) := by
  obtain ⟨hrw, hw1, hnr, hm⟩ := hi
  cases hl : s.isLocked
  case false =>
    have hle := (s.le_counts t).2.2.2
    obtain ⟨hr', hb', hw', hm'⟩ := s.counts_update t
      { s.threads t with holdsMutex := true } s.rwState true
    simp only [hl, Bool.toNat_false, Bool.toNat_true] at hm hm'
    simp only [LockOp.apply, compareExchange, hl, if_true]
    refine ⟨?_, ?_, fun _ => ?_, ?_⟩ <;> dsimp only [Bool.toNat_true] at * <;> omega
  case true =>
    simp only [LockOp.apply, compareExchange, hl, Bool.true_eq_false, ↓reduceIte]
    exact ⟨hrw, hw1, hnr, hl ▸ hm⟩

/-- `do_unlock` by the holder frees the mutex. -/
theorem unlock (hi : LockInv s) (hen : (s.threads t).holdsMutex = true) :
    LockInv (LockOp.unlock.apply s t) := by
  obtain ⟨hrw, hw1, hnr, hm⟩ := hi
  have hle := (s.le_counts t).2.2.2
  have hlocked := Bool.toNat_le s.isLocked
  obtain ⟨hr', hb', hw', hm'⟩ := s.counts_update t
    { s.threads t with holdsMutex := false } s.rwState false
  simp only [hen, Bool.toNat_false, Bool.toNat_true] at hle hm'
  simp only [LockOp.apply]
  refine ⟨?_, ?_, fun _ => ?_, ?_⟩ <;> dsimp only [Bool.toNat_false] at * <;> omega

/-- Every enabled operation that ends below the bound keeps the invariant. -/
theorem step {s s' : LockState τ} (hi : LockInv s) (h : LockStep s s') (hb : ReadersBelow s') :
    LockInv s' := by
  obtain ⟨t, op, hen⟩ := h
  cases op with
  | tryLockSharedAdd => exact hi.tryLockSharedAdd hen hb
  | tryLockSharedUndo => exact hi.tryLockSharedUndo hen
  | unlockShared => exact hi.unlockShared hen.2
  | tryLockExclusive => exact hi.tryLockExclusive
  | unlockExclusive => exact hi.unlockExclusive hen.2
  | tryLock => exact hi.tryLock
  | tryLockWeak spurious =>
      cases spurious
      · rw [LockOp.apply_tryLockWeak_false]
        exact hi.tryLock
      · exact hi
  | unlock => exact hi.unlock hen.2

/-- A thread that holds a write guard holds only one, and it is the only writer. -/
theorem writer_unique (hi : LockInv s) (hw : 0 < (s.threads t).writeGuards) :
    (s.threads t).writeGuards = 1 ∧ ∀ t', t' ≠ t → (s.threads t').writeGuards = 0 := by
  have hle := (s.le_counts t).2.2.1
  have hw1 := hi.writers_le
  refine ⟨by omega, fun t' ht' => ?_⟩
  have hpair := add_le_sum s.threads ThreadState.writeGuards ht'
  change _ + _ ≤ s.writers at hpair
  omega

omit [DecidableEq τ] in
/-- While a thread holds a write guard, no thread holds a read guard. -/
theorem no_reader (hi : LockInv s) (hw : 0 < (s.threads t).writeGuards) (t' : τ) :
    (s.threads t').readGuards = 0 := by
  have hW : 0 < s.writers := Nat.lt_of_lt_of_le hw (s.le_counts t).2.2.1
  have hR := hi.no_readers hW
  have hle := (s.le_counts t').1
  omega

/-- At most one thread holds the mutex. -/
theorem mutex_unique (hi : LockInv s) {t t' : τ} (ht : (s.threads t).holdsMutex = true)
    (ht' : (s.threads t').holdsMutex = true) : t = t' := by
  by_contra hne
  have hpair := add_le_sum s.threads (fun ts => ts.holdsMutex.toNat) hne
  change _ + _ ≤ s.mutexHolders at hpair
  have hlocked := Bool.toNat_le s.isLocked
  simp only [ht, ht', Bool.toNat_true] at hpair
  have := hi.mutex
  omega

end LockInv

/-- Every interleaving under the bound keeps the invariant. -/
theorem LockReachableBelow.inv {s : LockState τ} (h : LockReachableBelow s) : LockInv s :=
  Transition.Reachable.invariant (fun _ hs => hs ▸ LockInv.init)
    (fun _ _ hi hst => hi.step hst.1 hst.2) h

theorem spinLocks_mutual_exclusion {s : LockState τ} (h : LockReachableBelow s) :
    s.rwState.toNat = 2 * ∑ t, ((s.threads t).readGuards + (s.threads t).backingOff.toNat) +
      ∑ t, (s.threads t).writeGuards ∧
    (∀ t, 0 < (s.threads t).writeGuards →
      (s.threads t).writeGuards = 1 ∧ (∀ t', t' ≠ t → (s.threads t').writeGuards = 0) ∧
        ∀ t', (s.threads t').readGuards = 0) ∧
    (∀ t t', (s.threads t).holdsMutex = true → (s.threads t').holdsMutex = true → t = t') := by
  have hi := h.inv
  refine ⟨?_, fun t hw => ⟨(hi.writer_unique hw).1, (hi.writer_unique hw).2, hi.no_reader hw⟩,
    fun _ _ => hi.mutex_unique⟩
  rw [Finset.sum_add_distrib]
  exact hi.rw_state

/-- Two threads: the first takes the write lock, and the second, seeing the writer bit in
its `fetch_add`, backs off. -/
theorem spinLocks_mutual_exclusion_writer_and_backoff :
    let s := LockOp.tryLockSharedAdd.apply
      (LockOp.tryLockExclusive.apply (LockState.init (Fin 2)) 0) 1
    LockReachableBelow s ∧ s.rwState = 3 ∧
    (s.rwState.toNat = 2 * ∑ t, ((s.threads t).readGuards + (s.threads t).backingOff.toNat) +
      ∑ t, (s.threads t).writeGuards ∧
    (∀ t, 0 < (s.threads t).writeGuards →
      (s.threads t).writeGuards = 1 ∧ (∀ t', t' ≠ t → (s.threads t').writeGuards = 0) ∧
        ∀ t', (s.threads t').readGuards = 0) ∧
    (∀ t t', (s.threads t).holdsMutex = true → (s.threads t').holdsMutex = true → t = t')) := by
  intro s
  have hr : LockReachableBelow s :=
    .step (.step (.init rfl) ⟨.step 0 .tryLockExclusive rfl, by decide⟩)
      ⟨.step 1 .tryLockSharedAdd rfl, by decide⟩
  exact ⟨hr, rfl, spinLocks_mutual_exclusion hr⟩

section Wrap

/-- Thread `0` of two holding `n` read guards, and `m_state` as `n` of them leave it. -/
def readersState (n : Nat) : LockState (Fin 2) :=
  ⟨BitVec.ofNat 64 (2 * n), false,
    Function.update (fun _ => ThreadState.idle) 0 { ThreadState.idle with readGuards := n }⟩

theorem readersState_zero : readersState 0 = LockState.init (Fin 2) := by
  simp only [readersState, LockState.init]
  congr
  exact Function.update_eq_self_iff.mpr rfl

/-- Another read guard for thread `0`: `m_state` is even, so the writer bit is clear. -/
theorem tryLockSharedAdd_readersState (n : Nat) :
    LockOp.tryLockSharedAdd.apply (readersState n) 0 = readersState (n + 1) := by
  have hbit : ¬ (BitVec.ofNat 64 (2 * n) &&& cWriter ≠ 0) := by
    rw [and_cWriter_ne_zero_iff, BitVec.toNat_ofNat]
    omega
  have hadd : BitVec.ofNat 64 (2 * n) + cReader = BitVec.ofNat 64 (2 * (n + 1)) := by
    rw [show 2 * (n + 1) = 2 * n + 2 by omega, BitVec.ofNat_add]
    rfl
  simp only [LockOp.apply, fetchAdd, readersState, hbit, if_false, hadd, Function.update_self,
    Function.update_idem]

theorem readersState_reachable (n : Nat) : LockReachable (readersState n) := by
  induction n with
  | zero => exact .init readersState_zero
  | succ n ih =>
    rw [← tryLockSharedAdd_readersState]
    exact ih.step (.step 0 .tryLockSharedAdd rfl)

end Wrap

/-- With `2 ^ 63` read guards `m_state` wraps to `0`, and a writer's `compare_exchange(0, 1)`
succeeds while they are held. -/
theorem spinLocks_readers_wrap :
    ∃ s : LockState (Fin 2), LockReachable s ∧ (s.threads 0).readGuards = 2 ^ 63 ∧
      (s.threads 1).writeGuards = 1 ∧ s.rwState = 1 := by
  have hzero : (readersState (2 ^ 63)).rwState = 0 := by decide
  refine ⟨LockOp.tryLockExclusive.apply (readersState (2 ^ 63)) 1,
    (readersState_reachable _).step (.step 1 .tryLockExclusive rfl), ?_, ?_, ?_⟩ <;>
    simp only [LockOp.apply, compareExchange, hzero, if_true] <;>
    simp [readersState, cWriter, ThreadState.idle]

/-! ### Asking whether a lock is held -/

section IsLocked

variable {τ : Type} [DecidableEq τ]

/-- `TBackRawRwLock::do_is_locked`, the trait's default, which `RawSpinRwLock` keeps:
`do_try_lock_exclusive` and, when it succeeds, `do_unlock_exclusive` and `true`; else
`false`.  Both steps are the calling thread's, with no other step between them. -/
def rwDoIsLocked (s : LockState τ) (t : τ) : Bool × LockState τ :=
  if (compareExchange s.rwState 0 cWriter).1.isOk then
    (true, LockOp.unlockExclusive.apply (LockOp.tryLockExclusive.apply s t) t)
  else (false, LockOp.tryLockExclusive.apply s t)

/-- `TBackRawMutex::do_is_locked`, the trait's default, on the operations of
`RawSpinMutex`: `do_try_lock` and, when it succeeds, `do_unlock` and `false`; else `true`. -/
def mutexDoIsLockedDefault (s : LockState τ) (t : τ) : Bool × LockState τ :=
  if (compareExchange s.isLocked false true).1.isOk then
    (false, LockOp.unlock.apply (LockOp.tryLock.apply s t) t)
  else (true, LockOp.tryLock.apply s t)

/-- `RawSpinMutex::do_is_locked`, which overrides the default: a load of `m_is_locked`. -/
def mutexDoIsLocked (s : LockState τ) : Bool × LockState τ := (s.isLocked, s)

/-- A thread that takes a guard and gives it back leaves the threads as they were. -/
theorem update_update_self (f : τ → ThreadState) (t : τ) (ts : ThreadState) (g : ThreadState)
    (hg : g = f t) : Function.update (Function.update f t ts) t g = f := by
  rw [Function.update_idem, hg, Function.update_eq_self]

/-- The default `do_is_locked` of the rw-lock answers whether `m_state` is `0`, and leaves
the state as it was: taking the write lock and giving it back restores it. -/
theorem rwDoIsLocked_eq (s : LockState τ) (t : τ) :
    rwDoIsLocked s t = (decide (s.rwState = 0), s) := by
  by_cases h0 : s.rwState = 0
  · have hthreads := update_update_self s.threads t
      { s.threads t with writeGuards := (s.threads t).writeGuards + 1 }
      { { s.threads t with writeGuards := (s.threads t).writeGuards + 1 } with
        writeGuards := (s.threads t).writeGuards + 1 - 1 } (by simp)
    simp only [rwDoIsLocked, LockOp.apply, compareExchange, h0, if_true, Except.isOk,
      Except.toBool, fetchSub, Function.update_self, decide_true, cWriter]
    rw [hthreads]
    cases s
    simp_all
  · simp only [rwDoIsLocked, LockOp.apply, compareExchange, if_neg h0, Except.isOk,
      Except.toBool, Bool.false_eq_true, if_false, decide_eq_false h0]

/-- The mutex's default `do_is_locked` answers `m_is_locked` and leaves the state as it
was, on every state of the invariant: a free mutex is held by no thread, so the thread
that takes it and gives it back ends as it began. -/
theorem mutexDoIsLockedDefault_eq [Fintype τ] {s : LockState τ} (hi : LockInv s) (t : τ) :
    mutexDoIsLockedDefault s t = (s.isLocked, s) := by
  cases hl : s.isLocked
  · have hfree : (s.threads t).holdsMutex = false := by
      have hle := (s.le_counts t).2.2.2
      have hm := hi.mutex
      rw [hl, Bool.toNat_false] at hm
      cases h : (s.threads t).holdsMutex
      · rfl
      · rw [h] at hle
        simp at hle
        omega
    have hthreads := update_update_self s.threads t { s.threads t with holdsMutex := true }
      { { s.threads t with holdsMutex := true } with holdsMutex := false }
      (by cases hts : s.threads t; simp_all)
    simp only [mutexDoIsLockedDefault, LockOp.apply, compareExchange, hl, if_true, Except.isOk,
      Except.toBool, Function.update_self]
    rw [hthreads]
    cases s
    simp_all
  · cases s
    simp_all [mutexDoIsLockedDefault, LockOp.apply, compareExchange, Except.isOk, Except.toBool]

variable [Fintype τ]

/-- In every reachable state, `m_state` is `0` exactly when no thread holds a read or write
guard or is backing off. -/
theorem rwState_eq_zero_iff {s : LockState τ} (h : LockReachableBelow s) :
    s.rwState = 0 ↔ ∀ t, (s.threads t).readGuards = 0 ∧ (s.threads t).writeGuards = 0 ∧
      (s.threads t).backingOff = false := by
  have hi := h.inv
  have hz : s.rwState = 0 ↔ s.rwState.toNat = 0 := by
    rw [BitVec.toNat_eq]
    rfl
  rw [hz]
  constructor
  · intro h0 t
    have hle := s.le_counts t
    have hrw := hi.rw_state
    refine ⟨by omega, by omega, ?_⟩
    cases hb : (s.threads t).backingOff
    · rfl
    · rw [hb] at hle
      simp at hle
      omega
  · intro hall
    have hR : s.readers = 0 := Finset.sum_eq_zero fun t _ => (hall t).1
    have hB : s.backingOff = 0 := Finset.sum_eq_zero fun t _ => by simp [(hall t).2.2]
    have hW : s.writers = 0 := Finset.sum_eq_zero fun t _ => (hall t).2.1
    rw [hi.rw_state, hR, hB, hW]

/-- In every reachable state, `m_is_locked` is set exactly when a thread holds the mutex. -/
theorem isLocked_iff {s : LockState τ} (h : LockReachableBelow s) :
    s.isLocked = true ↔ ∃ t, (s.threads t).holdsMutex = true := by
  have hm := h.inv.mutex
  constructor
  · intro hl
    rw [hl, Bool.toNat_true] at hm
    by_contra hno
    push Not at hno
    have : s.mutexHolders = 0 := Finset.sum_eq_zero fun t _ => by simp [hno t]
    omega
  · rintro ⟨t, ht⟩
    have hle := (s.le_counts t).2.2.2
    rw [ht, Bool.toNat_true] at hle
    cases hl : s.isLocked
    · rw [hl, Bool.toNat_false] at hm
      omega
    · rfl

/-- What the three queries answer in a reachable state.  The mutex's, default or
overridden, says whether a thread holds the mutex; the rw-lock's says whether no thread
holds a guard or is backing off.  None of them changes the state. -/
theorem doIsLocked_reachable {s : LockState τ} (h : LockReachableBelow s) (t : τ) :
    ((mutexDoIsLocked s).1 = true ↔ ∃ t', (s.threads t').holdsMutex = true) ∧
      (mutexDoIsLocked s).2 = s ∧
    ((mutexDoIsLockedDefault s t).1 = true ↔ ∃ t', (s.threads t').holdsMutex = true) ∧
      (mutexDoIsLockedDefault s t).2 = s ∧
    ((rwDoIsLocked s t).1 = true ↔ ∀ t', (s.threads t').readGuards = 0 ∧
      (s.threads t').writeGuards = 0 ∧ (s.threads t').backingOff = false) ∧
      (rwDoIsLocked s t).2 = s := by
  rw [mutexDoIsLockedDefault_eq h.inv, rwDoIsLocked_eq, decide_eq_true_iff]
  exact ⟨isLocked_iff h, rfl, isLocked_iff h, rfl, rwState_eq_zero_iff h, rfl⟩

/-- On the `RwLock`, `is_locked()` answers the opposite: `true` on a lock nobody holds, and
`false` while a thread holds a read guard.  Both calls leave the lock as it was. -/
theorem rwLock_isLocked_inverted :
    LockReachable (LockOp.tryLockSharedAdd.apply (LockState.init (Fin 2)) 0) ∧
      ((LockOp.tryLockSharedAdd.apply (LockState.init (Fin 2)) 0).threads 0).readGuards = 1 ∧
      rwDoIsLocked (LockOp.tryLockSharedAdd.apply (LockState.init (Fin 2)) 0) 1 =
        (false, LockOp.tryLockSharedAdd.apply (LockState.init (Fin 2)) 0) ∧
      (∀ t, ((LockState.init (Fin 2)).threads t).readGuards = 0 ∧
        ((LockState.init (Fin 2)).threads t).writeGuards = 0) ∧
      rwDoIsLocked (LockState.init (Fin 2)) 0 = (true, LockState.init (Fin 2)) := by
  set s₀ := LockState.init (Fin 2)
  set s₁ := LockOp.tryLockSharedAdd.apply s₀ 0
  refine ⟨.step (.init rfl) (.step 0 .tryLockSharedAdd rfl), by decide, ?_,
    fun t => ⟨rfl, rfl⟩, ?_⟩
  · rw [rwDoIsLocked_eq, show s₁.rwState = 2 by decide]
    rfl
  · rw [rwDoIsLocked_eq]
    rfl

end IsLocked

end Sync
end MeetixOs
