import Mathlib.Logic.Function.Basic
import MeetixOs.Lib.Transition

/-!
# Registering device drivers under concurrent calls

A model of `DevManager` of `Kernel/src/dev/mod.rs`.  `m_devices` is a map from `DeviceId` to
the drivers, behind a `SpinRwLock`.  `register_device` takes the lock twice: once to read
whether the id is taken, once to write the driver, with `init_hw` in between;
`unregister_device` takes it once.  Under several threads each call is a sequence of steps,
one per section: the lock makes each of them atomic, and nothing more.

A driver is of any type `δ` with its `device_id` and `init_hw`.  The state keeps two history
counters per id, which no code reads: the insertions that returned `true`, and the removals
that found a driver.  `enumerate_by_class` and `device_by_class` read the map in the order of
the ids and are left out.

**Results.**
* `DevInv`: a driver is stored under its own id, and an id has had one more registration
  returning `true` than removals finding a driver exactly while it holds a driver; so between
  two removals that find a driver at most one registration returns `true`
  (`registered_le_of_steps`).
* `registerDevice_failed_replaces`: two registrations of one id that both pass the lookup
  leave the driver of the one that returned `false`.
-/

namespace MeetixOs
namespace Kernel

/-- Where a thread is in a call of `register_device` or `unregister_device`. -/
inductive DevPc (δ ι : Type)
  | idle
  /-- Called `register_device`, before the lookup. -/
  | registerStart (deviceDriver : δ)
  /-- The lookup found no driver, before `init_hw`. -/
  | registerChecked (deviceDriver : δ)
  /-- `init_hw` succeeded, before the insertion. -/
  | registerInitialized (deviceDriver : δ)
  | registerDone (deviceDriver : δ) (result : Bool)
  /-- Called `unregister_device`, before the removal. -/
  | unregisterStart (deviceId : ι)
  | unregisterDone (deviceId : ι) (removed : Option δ)
  deriving DecidableEq, Repr

/-- `m_devices`, where each thread is, and the two history counters. -/
structure DevState (τ δ ι : Type) where
  devices : ι → Option δ
  threads : τ → DevPc δ ι
  registered : ι → Nat
  unregistered : ι → Nat

/-- No driver, no call under way: `SM_DEV_MANAGER` before `early_init`. -/
def DevState.init (τ δ ι : Type) : DevState τ δ ι :=
  ⟨fun _ => none, fun _ => .idle, fun _ => 0, fun _ => 0⟩

/-- The steps of a thread. -/
inductive DevOp (δ ι : Type)
  | callRegister (deviceDriver : δ)
  /-- `self.m_devices.read().contains_key(&device_driver.device_id())`. -/
  | lookup
  /-- `heap_device_driver.init_hw()`. -/
  | initHw
  /-- `self.m_devices.write().insert(..).is_none()`. -/
  | insert
  | callUnregister (deviceId : ι)
  /-- `self.m_devices.write().remove(&device_id)`. -/
  | remove
  /-- The call returns. -/
  | ret
  deriving DecidableEq, Repr

variable {τ δ ι : Type} [DecidableEq τ]

/-- Thread `t` moves to `pc`; nothing shared changes. -/
def DevState.setThread (s : DevState τ δ ι) (t : τ) (pc : DevPc δ ι) : DevState τ δ ι :=
  { s with threads := Function.update s.threads t pc }

@[simp] theorem DevState.setThread_devices (s : DevState τ δ ι) (t : τ) (pc : DevPc δ ι) :
    (s.setThread t pc).devices = s.devices := rfl

@[simp] theorem DevState.setThread_registered (s : DevState τ δ ι) (t : τ) (pc : DevPc δ ι) :
    (s.setThread t pc).registered = s.registered := rfl

@[simp] theorem DevState.setThread_unregistered (s : DevState τ δ ι) (t : τ) (pc : DevPc δ ι) :
    (s.setThread t pc).unregistered = s.unregistered := rfl

section Model

variable [DecidableEq ι] (deviceId : δ → ι) (initHw : δ → Bool)

/-- `device_by_id`. -/
def DevState.deviceById (s : DevState τ δ ι) (id : ι) : Option δ := s.devices id

/-- The write-locked section of `register_device`: `insert` replaces whatever the map holds
under the id, and the call returns whether it held nothing. -/
def DevState.insertDriver (s : DevState τ δ ι) (t : τ) (deviceDriver : δ) : DevState τ δ ι :=
  let id := deviceId deviceDriver
  let result := (s.devices id).isNone
  ⟨Function.update s.devices id (some deviceDriver),
    Function.update s.threads t (.registerDone deviceDriver result),
    if result then Function.update s.registered id (s.registered id + 1) else s.registered,
    s.unregistered⟩

@[simp] theorem DevState.insertDriver_devices (s : DevState τ δ ι) (t : τ) (d : δ) :
    (s.insertDriver deviceId t d).devices = Function.update s.devices (deviceId d) (some d) := rfl

@[simp] theorem DevState.insertDriver_registered (s : DevState τ δ ι) (t : τ) (d : δ) :
    (s.insertDriver deviceId t d).registered =
      if (s.devices (deviceId d)).isNone then
        Function.update s.registered (deviceId d) (s.registered (deviceId d) + 1)
      else s.registered := rfl

@[simp] theorem DevState.insertDriver_unregistered (s : DevState τ δ ι) (t : τ) (d : δ) :
    (s.insertDriver deviceId t d).unregistered = s.unregistered := rfl

/-- `unregister_device`: `remove` under the write lock, returning what the map held. -/
def DevState.removeDevice (s : DevState τ δ ι) (t : τ) (id : ι) : DevState τ δ ι :=
  let removed := s.devices id
  ⟨Function.update s.devices id none,
    Function.update s.threads t (.unregisterDone id removed), s.registered,
    if removed.isSome then Function.update s.unregistered id (s.unregistered id + 1)
      else s.unregistered⟩

@[simp] theorem DevState.removeDevice_devices (s : DevState τ δ ι) (t : τ) (id : ι) :
    (s.removeDevice t id).devices = Function.update s.devices id none := rfl

@[simp] theorem DevState.removeDevice_registered (s : DevState τ δ ι) (t : τ) (id : ι) :
    (s.removeDevice t id).registered = s.registered := rfl

@[simp] theorem DevState.removeDevice_unregistered (s : DevState τ δ ι) (t : τ) (id : ι) :
    (s.removeDevice t id).unregistered =
      if (s.devices id).isSome then Function.update s.unregistered id (s.unregistered id + 1)
      else s.unregistered := rfl

/-- Thread `t` takes step `op`: `none` when it is elsewhere in its code. -/
def DevOp.step (s : DevState τ δ ι) (t : τ) : DevOp δ ι → Option (DevState τ δ ι)
  | .callRegister deviceDriver =>
    match s.threads t with
    | .idle => some (s.setThread t (.registerStart deviceDriver))
    | _ => none
  | .lookup =>
    match s.threads t with
    | .registerStart deviceDriver =>
      let alreadyExists := (s.devices (deviceId deviceDriver)).isSome
      some (s.setThread t
        (if alreadyExists then .registerDone deviceDriver false else .registerChecked deviceDriver))
    | _ => none
  | .initHw =>
    match s.threads t with
    | .registerChecked deviceDriver =>
      some (s.setThread t
        (if initHw deviceDriver then .registerInitialized deviceDriver
          else .registerDone deviceDriver false))
    | _ => none
  | .insert =>
    match s.threads t with
    | .registerInitialized deviceDriver => some (s.insertDriver deviceId t deviceDriver)
    | _ => none
  | .callUnregister id =>
    match s.threads t with
    | .idle => some (s.setThread t (.unregisterStart id))
    | _ => none
  | .remove =>
    match s.threads t with
    | .unregisterStart id => some (s.removeDevice t id)
    | _ => none
  | .ret =>
    match s.threads t with
    | .registerDone _ _ | .unregisterDone _ _ => some (s.setThread t .idle)
    | _ => none

/-- One step of some thread. -/
def DevStep (s s' : DevState τ δ ι) : Prop := ∃ t op, DevOp.step deviceId initHw s t op = some s'

/-- The states some interleaving of calls reaches. -/
def DevReachable (s : DevState τ δ ι) : Prop :=
  Transition.Reachable (fun s => s = DevState.init τ δ ι) (DevStep deviceId initHw) s

end Model

section Proofs

variable [DecidableEq ι] {deviceId : δ → ι} {initHw : δ → Bool} {s s' : DevState τ δ ι}

/-- What a step can do to the shared state: move one thread, or run one of the two
write-locked sections. -/
theorem DevOp.step_cases {t : τ} {op : DevOp δ ι} (h : DevOp.step deviceId initHw s t op = some s') :
    (∃ pc, s' = s.setThread t pc) ∨
    (∃ d, s.threads t = .registerInitialized d ∧ s' = s.insertDriver deviceId t d) ∨
    (∃ id, s.threads t = .unregisterStart id ∧ s' = s.removeDevice t id) := by
  cases op with
  | insert =>
    simp only [DevOp.step] at h
    split at h
    · next d hd => exact .inr (.inl ⟨d, hd, (Option.some.inj h).symm⟩)
    · contradiction
  | remove =>
    simp only [DevOp.step] at h
    split at h
    · next id hid => exact .inr (.inr ⟨id, hid, (Option.some.inj h).symm⟩)
    · contradiction
  | callRegister _ | lookup | initHw | callUnregister _ | ret =>
    simp only [DevOp.step] at h
    split at h <;> first | exact .inl ⟨_, (Option.some.inj h).symm⟩ | contradiction

variable (deviceId) in
/-- What every reachable state satisfies. -/
structure DevInv (s : DevState τ δ ι) : Prop where
  /-- A driver is stored under its own `device_id`. -/
  owner : ∀ id d, s.devices id = some d → deviceId d = id
  /-- The registrations of an id that returned `true` are its removals that returned a driver,
  and one more while it holds a driver. -/
  count : ∀ id, s.registered id = s.unregistered id + (s.devices id).isSome.toNat

omit [DecidableEq τ] [DecidableEq ι] in
theorem DevInv.init : DevInv deviceId (DevState.init τ δ ι) :=
  ⟨fun _ _ h => (nomatch h), fun _ => rfl⟩

omit [DecidableEq ι] in
theorem DevInv.setThread (hi : DevInv deviceId s) (t : τ) (pc : DevPc δ ι) :
    DevInv deviceId (s.setThread t pc) :=
  ⟨hi.owner, hi.count⟩

/-- An insertion keeps the invariant: it counts exactly when the id held no driver. -/
theorem DevInv.insertDriver (hi : DevInv deviceId s) (t : τ) (d : δ) :
    DevInv deviceId (s.insertDriver deviceId t d) := by
  constructor
  · intro id d' h
    by_cases hid : id = deviceId d
    · subst hid
      simp only [DevState.insertDriver_devices, Function.update_self, Option.some.injEq] at h
      rw [← h]
    · exact hi.owner id d' (by simpa [Function.update_of_ne hid] using h)
  · intro id
    have hc := hi.count id
    by_cases hid : id = deviceId d
    · subst hid
      cases hd : s.devices (deviceId d) <;> simp [hd] at hc ⊢ <;> omega
    · have hd : (s.insertDriver deviceId t d).registered id = s.registered id := by
        simp only [DevState.insertDriver_registered]
        split <;> simp [Function.update_of_ne hid]
      simpa [hd, Function.update_of_ne hid] using hc

/-- A removal keeps the invariant: it counts exactly when the id held a driver. -/
theorem DevInv.removeDevice (hi : DevInv deviceId s) (t : τ) (id : ι) :
    DevInv deviceId (s.removeDevice t id) := by
  constructor
  · intro id' d h
    by_cases hid : id' = id
    · subst hid
      simp at h
    · exact hi.owner id' d (by simpa [Function.update_of_ne hid] using h)
  · intro id'
    have hc := hi.count id'
    by_cases hid : id' = id
    · subst hid
      cases hd : s.devices id' <;> simp [hd] at hc ⊢ <;> omega
    · have hu : (s.removeDevice t id).unregistered id' = s.unregistered id' := by
        simp only [DevState.removeDevice_unregistered]
        split <;> simp [Function.update_of_ne hid]
      simpa [hu, Function.update_of_ne hid] using hc

theorem DevInv.step {t : τ} {op : DevOp δ ι} (hi : DevInv deviceId s)
    (h : DevOp.step deviceId initHw s t op = some s') : DevInv deviceId s' := by
  obtain ⟨pc, rfl⟩ | ⟨d, -, rfl⟩ | ⟨id, -, rfl⟩ := DevOp.step_cases h
  · exact hi.setThread t pc
  · exact hi.insertDriver t d
  · exact hi.removeDevice t id

theorem DevReachable.inv (h : DevReachable deviceId initHw s) : DevInv deviceId s :=
  Transition.Reachable.invariant (fun _ hs => hs ▸ DevInv.init)
    (fun _ _ hi ⟨_, _, hst⟩ => hi.step hst) h

/-- Between two removals of an id that return a driver, at most one registration of it returns
`true`: along any stretch of a run in which no removal of the id returns a driver, the
registrations that returned `true` grow by at most one. -/
theorem registered_le_of_steps {id : ι} (hs : DevReachable deviceId initHw s)
    (hr : Relation.ReflTransGen (DevStep deviceId initHw) s s')
    (hu : s'.unregistered id = s.unregistered id) : s'.registered id ≤ s.registered id + 1 := by
  have hs' : DevReachable deviceId initHw s' := Transition.Reachable.of_reflTransGen hs hr
  have hc := hs.inv.count id
  have hc' := hs'.inv.count id
  have hb : (s'.devices id).isSome.toNat ≤ 1 := Bool.toNat_le _
  omega

/-- One registration of the driver `(0, 1)` that returns `true`, from no driver: the count of
the id `0` goes from `0` to `1`. -/
theorem registered_le_of_steps_one :
    ∃ s' : DevState (Fin 1) (Nat × Nat) Nat,
      Relation.ReflTransGen (DevStep Prod.fst (fun _ => true)) (DevState.init _ _ _) s' ∧
      s'.unregistered 0 = 0 ∧ s'.registered 0 = 1 ∧
      s'.registered 0 ≤ (DevState.init (Fin 1) (Nat × Nat) Nat).registered 0 + 1 := by
  obtain ⟨s', hr, hu, hreg⟩ : ∃ s' : DevState (Fin 1) (Nat × Nat) Nat,
      Relation.ReflTransGen (DevStep Prod.fst (fun _ => true)) (DevState.init _ _ _) s' ∧
      s'.unregistered 0 = 0 ∧ s'.registered 0 = 1 :=
    ⟨_, .tail (.tail (.tail (.tail .refl ⟨0, .callRegister (0, 1), rfl⟩) ⟨0, .lookup, rfl⟩)
      ⟨0, .initHw, rfl⟩) ⟨0, .insert, rfl⟩, rfl, rfl⟩
  exact ⟨s', hr, hu, hreg, registered_le_of_steps (.init rfl) hr hu⟩

/-- Two registrations of one id that both pass the lookup before either inserts: the first
returns `true`, the second returns `false`, and its driver replaces the first one. -/
theorem registerDevice_failed_replaces :
    ∃ s s' : DevState (Fin 2) (Nat × Nat) Nat,
      DevReachable Prod.fst (fun _ => true) s ∧
      s.threads 0 = .registerDone (0, 1) true ∧ s.devices 0 = some (0, 1) ∧
      DevOp.step Prod.fst (fun _ => true) s 1 .insert = some s' ∧
      s'.threads 1 = .registerDone (0, 2) false ∧ s'.devices 0 = some (0, 2) :=
  ⟨_, _,
    Transition.Reachable.runFrom (fun _ e _ h => ⟨e.1, e.2, h⟩) (.init rfl)
      (show Transition.runFrom
          (fun s (e : Fin 2 × DevOp (Nat × Nat) Nat) => DevOp.step Prod.fst (fun _ => true) s e.1 e.2)
          (DevState.init _ _ _)
          [(0, .callRegister (0, 1)), (1, .callRegister (0, 2)), (0, .lookup), (1, .lookup),
            (0, .initHw), (1, .initHw), (0, .insert)] = some _ from rfl),
    by decide, by decide, rfl, by decide, by decide⟩

end Proofs

end Kernel
end MeetixOs
