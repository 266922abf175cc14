import MeetixOs.Bits.BitRanges

/-!
# `DeviceId`: a device identifier packed into a `usize`

`LibApiData/src/object/device.rs` identifies a device by its type, its class and a serial
number.  `Into<usize>` packs them as `type << 40 | class << 32 | serial`, and
`TryFrom<usize>` reads them back with `bits_at(40..48)`, `bits_at(32..40)` and
`bits_at(0..32)`, converting the two bytes into the enumerations with the `TryFrom<u8>` that
`num_enum` derives; an unknown byte is the `Err`.  The derive is a parameter,
`TryFromPrimitive`, with the contract `num_enum` documents for it.  In `tryFrom` the outer
`none` is a failed `assert!` of `bits_at`, which the constant ranges never fail.

**Results.**
* `tryFrom_into`: decoding an encoded identifier gives it back.
* `tryFrom_eq_ok_iff`: a raw value decodes exactly when its bytes at `40` and `32` are
  discriminants of the two enumerations; `into_of_tryFrom`: below `2 ^ 48` it then encodes
  back to itself.
-/

namespace MeetixOs
namespace ApiData

open Bits

/-- `TryFromPrimitive` as `num_enum` derives it for a field-less `repr(u8)` enumeration whose
discriminants `IntoPrimitive` gives as `into`: `try_from` answers the variant whose
discriminant is the value, and the `Err`, here `none`, when no variant has it. -/
class TryFromPrimitive (T : Type) (into : T → BitVec 8) where
  tryFrom : BitVec 8 → Option T
  tryFrom_eq_some_iff : ∀ v t, tryFrom v = some t ↔ into t = v

/-- A derive that meets the contract, for an enumeration whose variants are `variants` with
distinct discriminants: the variant found with the discriminant. -/
@[reducible]
def TryFromPrimitive.ofVariants {T : Type} (variants : List T) (into : T → BitVec 8)
    (hinj : Function.Injective into) (hall : ∀ t, t ∈ variants) : TryFromPrimitive T into where
  tryFrom v := variants.find? fun t => into t == v
  tryFrom_eq_some_iff v t := by
    constructor
    · intro h
      simpa using List.find?_some h
    · intro h
      have hsome : (variants.find? fun t => into t == v).isSome :=
        List.find?_isSome.mpr ⟨t, hall t, by simp [h]⟩
      obtain ⟨t', ht'⟩ := Option.isSome_iff_exists.mp hsome
      have hv : into t' = v := by simpa using List.find?_some ht'
      rw [ht', hinj (hv.trans h.symm)]

/-- `DeviceIdType`. -/
inductive DeviceIdType
  | block
  | character
  deriving DecidableEq, Repr

/-- The discriminant, as `IntoPrimitive` gives it. -/
def DeviceIdType.into : DeviceIdType → BitVec 8
  | .block => 0#8
  | .character => 1#8

theorem DeviceIdType.into_injective : Function.Injective DeviceIdType.into := by
  intro a b h
  cases a <;> cases b <;> first | rfl | exact absurd h (by decide)

/-- `DeviceIdClass`. -/
inductive DeviceIdClass
  | storage
  | memory
  | network
  | ipc
  | framebuffer
  | random
  | uart
  | terminal
  deriving DecidableEq, Repr

/-- The discriminant, as `IntoPrimitive` gives it. -/
def DeviceIdClass.into : DeviceIdClass → BitVec 8
  | .storage => 0#8
  | .memory => 1#8
  | .network => 2#8
  | .ipc => 3#8
  | .framebuffer => 4#8
  | .random => 5#8
  | .uart => 6#8
  | .terminal => 7#8

theorem DeviceIdClass.into_injective : Function.Injective DeviceIdClass.into := by
  intro a b h
  cases a <;> cases b <;> first | rfl | exact absurd h (by decide)

/-- `DeviceId`. -/
structure DeviceId where
  mDeviceType : DeviceIdType
  mDeviceClass : DeviceIdClass
  mSerialValue : BitVec 32
  deriving DecidableEq, Repr

namespace DeviceId

/-- `DeviceId::new`. -/
def new (deviceType : DeviceIdType) (deviceClass : DeviceIdClass) (serialValue : BitVec 32) :
    DeviceId :=
  ⟨deviceType, deviceClass, serialValue⟩

/-- `Into<usize>`. -/
def into (self : DeviceId) : BitVec 64 :=
  self.mDeviceType.into.setWidth 64 <<< 40 ||| self.mDeviceClass.into.setWidth 64 <<< 32 |||
    self.mSerialValue.setWidth 64

/-- The packed word: the serial in bits `0..32`, the class in `32..40`, the type in `40..48`. -/
theorem getLsbD_into (self : DeviceId) (i : Nat) :
    self.into.getLsbD i =
      if i < 32 then self.mSerialValue.getLsbD i
      else if i < 40 then self.mDeviceClass.into.getLsbD (i - 32)
      else if i < 48 then self.mDeviceType.into.getLsbD (i - 40)
      else false := by
  simp only [into, BitVec.getLsbD_or, BitVec.getLsbD_shiftLeft, BitVec.getLsbD_setWidth]
  by_cases h32 : i < 32
  · simp [h32, show i < 40 by omega, show i < 64 by omega]
  · have hserial := BitVec.getLsbD_of_ge self.mSerialValue i (by omega)
    by_cases h40 : i < 40
    · simp [h32, h40, hserial, show i < 64 by omega, show i - 32 < 64 by omega]
    · have hclass := BitVec.getLsbD_of_ge self.mDeviceClass.into (i - 32) (by omega)
      by_cases h48 : i < 48
      · simp [h32, h40, h48, hserial, hclass, show i < 64 by omega, show i - 40 < 64 by omega]
      · have htype := BitVec.getLsbD_of_ge self.mDeviceType.into (i - 40) (by omega)
        simp [h32, h40, h48, hserial, hclass, htype]

theorem extractLsb'_into_type (self : DeviceId) :
    self.into.extractLsb' 40 8 = self.mDeviceType.into := by
  apply BitVec.eq_of_getLsbD_eq
  intro k hk
  rw [BitVec.getLsbD_extractLsb', getLsbD_into]
  simp [hk, show ¬ 40 + k < 32 by omega, show ¬ 40 + k < 40 by omega, show 40 + k < 48 by omega]

theorem extractLsb'_into_class (self : DeviceId) :
    self.into.extractLsb' 32 8 = self.mDeviceClass.into := by
  apply BitVec.eq_of_getLsbD_eq
  intro k hk
  rw [BitVec.getLsbD_extractLsb', getLsbD_into]
  simp [hk, show ¬ 32 + k < 32 by omega, show 32 + k < 40 by omega]

theorem extractLsb'_into_serial (self : DeviceId) :
    self.into.extractLsb' 0 32 = self.mSerialValue := by
  apply BitVec.eq_of_getLsbD_eq
  intro k hk
  rw [BitVec.getLsbD_extractLsb', getLsbD_into]
  simp [hk]

end DeviceId

/-- `DeviceIdType::try_from(u8)`. -/
def DeviceIdType.tryFrom [TryFromPrimitive DeviceIdType DeviceIdType.into] (v : BitVec 8) :
    Option DeviceIdType :=
  @TryFromPrimitive.tryFrom DeviceIdType DeviceIdType.into _ v

theorem DeviceIdType.tryFrom_eq_some_iff [TryFromPrimitive DeviceIdType DeviceIdType.into]
    {v : BitVec 8} {t : DeviceIdType} : DeviceIdType.tryFrom v = some t ↔ t.into = v :=
  TryFromPrimitive.tryFrom_eq_some_iff v t

/-- `DeviceIdClass::try_from(u8)`. -/
def DeviceIdClass.tryFrom [TryFromPrimitive DeviceIdClass DeviceIdClass.into] (v : BitVec 8) :
    Option DeviceIdClass :=
  @TryFromPrimitive.tryFrom DeviceIdClass DeviceIdClass.into _ v

theorem DeviceIdClass.tryFrom_eq_some_iff [TryFromPrimitive DeviceIdClass DeviceIdClass.into]
    {v : BitVec 8} {c : DeviceIdClass} : DeviceIdClass.tryFrom v = some c ↔ c.into = v :=
  TryFromPrimitive.tryFrom_eq_some_iff v c

section Derived

variable [TryFromPrimitive DeviceIdType DeviceIdType.into]
  [TryFromPrimitive DeviceIdClass DeviceIdClass.into]

namespace DeviceId

/-- `TryFrom<usize>`: `none` is a failed assertion of `bits_at`, `.error ()` the `Err`. -/
def tryFrom (rawDeviceId : BitVec 64) : Option (Except Unit DeviceId) := do
  let rawType ← bitsAt false rawDeviceId 40 48
  match DeviceIdType.tryFrom (rawType.setWidth 8) with
  | none => return .error ()
  | some deviceType =>
    let rawClass ← bitsAt false rawDeviceId 32 40
    match DeviceIdClass.tryFrom (rawClass.setWidth 8) with
    | none => return .error ()
    | some deviceClass =>
      let rawSerial ← bitsAt false rawDeviceId 0 32
      return .ok ⟨deviceType, deviceClass, rawSerial.setWidth 32⟩

/-- `try_from` reads the three fields with `extractLsb'`, and never fails an assertion. -/
theorem tryFrom_eq (r : BitVec 64) :
    tryFrom r = some (match DeviceIdType.tryFrom (r.extractLsb' 40 8),
        DeviceIdClass.tryFrom (r.extractLsb' 32 8) with
      | some t, some c => .ok ⟨t, c, r.extractLsb' 0 32⟩
      | _, _ => .error ()) := by
  have htype : (readBits r 40 48).setWidth 8 = r.extractLsb' 40 8 :=
    setWidth_readBits (s := 40) (n := 8) (by decide)
  have hclass : (readBits r 32 40).setWidth 8 = r.extractLsb' 32 8 :=
    setWidth_readBits (s := 32) (n := 8) (by decide)
  have hserial : (readBits r 0 32).setWidth 32 = r.extractLsb' 0 32 :=
    setWidth_readBits (s := 0) (n := 32) (by decide)
  simp only [tryFrom, bitsAt_unsigned (show 40 < 48 by decide) (show 48 ≤ 64 by decide),
    bitsAt_unsigned (show 32 < 40 by decide) (show 40 ≤ 64 by decide),
    bitsAt_unsigned (show 0 < 32 by decide) (show 32 ≤ 64 by decide), Option.bind_eq_bind,
    Option.bind_some, htype, hclass, hserial]
  cases DeviceIdType.tryFrom (r.extractLsb' 40 8) <;>
    cases DeviceIdClass.tryFrom (r.extractLsb' 32 8) <;> rfl

/-- Decoding an encoded identifier gives it back. -/
theorem tryFrom_into (self : DeviceId) : tryFrom self.into = some (.ok self) := by
  rw [tryFrom_eq, extractLsb'_into_type, extractLsb'_into_class, extractLsb'_into_serial,
    DeviceIdType.tryFrom_eq_some_iff.mpr rfl, DeviceIdClass.tryFrom_eq_some_iff.mpr rfl]

/-- A value decodes to an identifier exactly when the identifier's fields are the value's
bytes at `40` and `32` and its low `32` bits. -/
theorem tryFrom_eq_ok_iff {r : BitVec 64} {d : DeviceId} :
    tryFrom r = some (.ok d) ↔
      d.mDeviceType.into = r.extractLsb' 40 8 ∧ d.mDeviceClass.into = r.extractLsb' 32 8 ∧
        d.mSerialValue = r.extractLsb' 0 32 := by
  obtain ⟨deviceType, deviceClass, serialValue⟩ := d
  rw [tryFrom_eq]
  split
  · rename_i t c ht hc
    rw [DeviceIdType.tryFrom_eq_some_iff] at ht
    rw [DeviceIdClass.tryFrom_eq_some_iff] at hc
    constructor
    · rintro ⟨⟩
      exact ⟨ht, hc, rfl⟩
    · rintro ⟨htype, hclass, rfl⟩
      rw [DeviceIdType.into_injective (ht.trans htype.symm),
        DeviceIdClass.into_injective (hc.trans hclass.symm)]
  · rename_i hnot
    simp only [Option.some.injEq, reduceCtorEq, false_iff]
    rintro ⟨htype, hclass, -⟩
    exact hnot _ _ (DeviceIdType.tryFrom_eq_some_iff.mpr htype)
      (DeviceIdClass.tryFrom_eq_some_iff.mpr hclass)

/-- Below `2 ^ 48` a value is the encoding of the identifier it decodes to. -/
theorem into_of_tryFrom {r : BitVec 64} (hr : r.toNat < 2 ^ 48) {d : DeviceId}
    (h : tryFrom r = some (.ok d)) : d.into = r := by
  obtain ⟨htype, hclass, hserial⟩ := tryFrom_eq_ok_iff.mp h
  apply BitVec.eq_of_getLsbD_eq
  intro i _
  rw [getLsbD_into, htype, hclass, hserial]
  split_ifs with h32 h40 h48
  · simp [h32]
  · simp [show i - 32 < 8 by omega, show 32 + (i - 32) = i by omega]
  · simp [show i - 40 < 8 by omega, show 40 + (i - 40) = i by omega]
  · exact (getLsbD_eq_false_of_toNat_lt hr (by omega)).symm

end DeviceId

theorem deviceId_round_trip (deviceType : DeviceIdType) (deviceClass : DeviceIdClass)
    (serialValue : BitVec 32) (r : BitVec 64) (hr : r.toNat < 2 ^ 48) :
    DeviceId.tryFrom (DeviceId.new deviceType deviceClass serialValue).into =
        some (.ok (DeviceId.new deviceType deviceClass serialValue)) ∧
      ((∃ d, DeviceId.tryFrom r = some (.ok d)) ↔
        (∃ t : DeviceIdType, t.into = r.extractLsb' 40 8) ∧
          ∃ c : DeviceIdClass, c.into = r.extractLsb' 32 8) ∧
      ∀ d, DeviceId.tryFrom r = some (.ok d) → d.into = r := by
  refine ⟨DeviceId.tryFrom_into _, ⟨?_, ?_⟩, fun d h => DeviceId.into_of_tryFrom hr h⟩
  · rintro ⟨d, h⟩
    obtain ⟨htype, hclass, -⟩ := DeviceId.tryFrom_eq_ok_iff.mp h
    exact ⟨⟨_, htype⟩, ⟨_, hclass⟩⟩
  · rintro ⟨⟨t, ht⟩, ⟨c, hc⟩⟩
    exact ⟨⟨t, c, r.extractLsb' 0 32⟩, DeviceId.tryFrom_eq_ok_iff.mpr ⟨ht, hc, rfl⟩⟩

end Derived

instance : TryFromPrimitive DeviceIdType DeviceIdType.into :=
  .ofVariants [.block, .character] DeviceIdType.into DeviceIdType.into_injective
    fun t => by cases t <;> simp

instance : TryFromPrimitive DeviceIdClass DeviceIdClass.into :=
  .ofVariants [.storage, .memory, .network, .ipc, .framebuffer, .random, .uart, .terminal]
    DeviceIdClass.into DeviceIdClass.into_injective fun c => by cases c <;> simp

theorem deviceId_round_trip_uart :
    (0x0000_0106_0000_0005#64 : BitVec 64).toNat < 2 ^ 48 ∧
      DeviceId.tryFrom (DeviceId.new .block .uart 5#32).into =
        some (.ok (DeviceId.new .block .uart 5#32)) ∧
      ((∃ d, DeviceId.tryFrom 0x0000_0106_0000_0005#64 = some (.ok d)) ↔
        (∃ t : DeviceIdType, t.into = (0x0000_0106_0000_0005#64 : BitVec 64).extractLsb' 40 8) ∧
          ∃ c : DeviceIdClass, c.into = (0x0000_0106_0000_0005#64 : BitVec 64).extractLsb' 32 8) ∧
      ∀ d, DeviceId.tryFrom 0x0000_0106_0000_0005#64 = some (.ok d) →
        d.into = 0x0000_0106_0000_0005#64 :=
  ⟨by decide, deviceId_round_trip .block .uart 5#32 0x0000_0106_0000_0005#64 (by decide)⟩

/-- The class byte `8` is no discriminant: the `Err`. -/
example : DeviceId.tryFrom 0x0000_0108_0000_0005#64 = some (.error ()) := by decide

end ApiData
end MeetixOs
