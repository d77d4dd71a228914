import Ferrisetw2.Lib.Checked
import Ferrisetw2.Lib.Slice

/-!
# TDH types

The property model: what a schema says about one property of an event. `tdh_types.rs`.

A property is a tree. `PropertyInfo` is generic in the type of its members, so that `Property` is
an ordinary recursive structure and every function over it is structural, in step with one over
lists of members.

## Main definitions

* `TdhInType`, `TdhOutType`, `PropertyCount`, `PropertyLength`, `PropertyInfo`, `Property`
* `Property.Every` — a predicate on all of a property tree
* `indexValueFromBytes` — the value a `countPropertyIndex` or `lengthPropertyIndex` refers to
* `TdhInType.schemaLengthBytes`, `TdhInType.isContentSized`, `TdhInType.fixedSize`
* `TdhInType.lengthUnit` — bytes per unit of a declared length

## Main results

* `TdhInType.fromU16_toU16`, `TdhOutType.fromU16_toU16` — discriminants read back
* `TdhInType.literalSchemaLengthBytes_eq` — the `expect` on a literal length never fires
-/

namespace Ferrisetw2

open Rust

/-! ### In and out types -/

/-- `TDH_IN_TYPE`. -/
inductive TdhInType where
  | inTypeNull
  | inTypeUnicodeString
  | inTypeAnsiString
  | inTypeInt8
  | inTypeUInt8
  | inTypeInt16
  | inTypeUInt16
  | inTypeInt32
  | inTypeUInt32
  | inTypeInt64
  | inTypeUInt64
  | inTypeFloat
  | inTypeDouble
  | inTypeBoolean
  | inTypeBinary
  | inTypeGuid
  | inTypePointer
  | inTypeFileTime
  | inTypeSystemTime
  | inTypeSid
  | inTypeHexInt32
  | inTypeHexInt64
  | inTypeManifestCountedString
  | inTypeManifestCountedAnsiString
  | inTypeManifestCountedBinary
  | inTypeCountedString
  | inTypeCountedAnsiString
  | inTypeReversedCountedString
  | inTypeReversedCountedAnsiString
  | inTypeNonNullTerminatedString
  | inTypeNonNullTerminatedAnsiString
  | inTypeUnicodeChar
  | inTypeAnsiChar
  | inTypeSizeT
  | inTypeHexDump
  | inTypeWbemSid
  deriving DecidableEq, Repr

/-- `TDH_OUT_TYPE`. -/
inductive TdhOutType where
  | outTypeNull
  | outTypeString
  | outTypeDateTime
  | outTypeInt8
  | outTypeUInt8
  | outTypeInt16
  | outTypeUInt16
  | outTypeInt32
  | outTypeUInt32
  | outTypeInt64
  | outTypeUInt64
  | outTypeFloat
  | outTypeDouble
  | outTypeBoolean
  | outTypeGuid
  | outTypeHexBinary
  | outTypeHexInt8
  | outTypeHexInt16
  | outTypeHexInt32
  | outTypeHexInt64
  | outTypePid
  | outTypeTid
  | outTypePort
  | outTypeIpv4
  | outTypeIpv6
  | outTypeSocketAddress
  | outTypeWin32Error
  | outTypeNtStatus
  | outTypeHResult
  | outTypeJson
  | outTypeUtf8
  | outTypePkcs7
  | outTypeCodePointer
  | outTypeDatetimeUtc
  deriving DecidableEq, Repr

namespace TdhInType

/-- The discriminant. TDH leaves 24 reserved and numbers the WBEM types from 300. -/
def toU16 : TdhInType → UInt16
  | inTypeNull => 0
  | inTypeUnicodeString => 1
  | inTypeAnsiString => 2
  | inTypeInt8 => 3
  | inTypeUInt8 => 4
  | inTypeInt16 => 5
  | inTypeUInt16 => 6
  | inTypeInt32 => 7
  | inTypeUInt32 => 8
  | inTypeInt64 => 9
  | inTypeUInt64 => 10
  | inTypeFloat => 11
  | inTypeDouble => 12
  | inTypeBoolean => 13
  | inTypeBinary => 14
  | inTypeGuid => 15
  | inTypePointer => 16
  | inTypeFileTime => 17
  | inTypeSystemTime => 18
  | inTypeSid => 19
  | inTypeHexInt32 => 20
  | inTypeHexInt64 => 21
  | inTypeManifestCountedString => 22
  | inTypeManifestCountedAnsiString => 23
  | inTypeManifestCountedBinary => 25
  | inTypeCountedString => 300
  | inTypeCountedAnsiString => 301
  | inTypeReversedCountedString => 302
  | inTypeReversedCountedAnsiString => 303
  | inTypeNonNullTerminatedString => 304
  | inTypeNonNullTerminatedAnsiString => 305
  | inTypeUnicodeChar => 306
  | inTypeAnsiChar => 307
  | inTypeSizeT => 308
  | inTypeHexDump => 309
  | inTypeWbemSid => 310

/-- Every in type, in declaration order. -/
def all : List TdhInType :=
  [inTypeNull, inTypeUnicodeString, inTypeAnsiString, inTypeInt8, inTypeUInt8, inTypeInt16,
    inTypeUInt16, inTypeInt32, inTypeUInt32, inTypeInt64, inTypeUInt64, inTypeFloat, inTypeDouble,
    inTypeBoolean, inTypeBinary, inTypeGuid, inTypePointer, inTypeFileTime, inTypeSystemTime,
    inTypeSid, inTypeHexInt32, inTypeHexInt64, inTypeManifestCountedString,
    inTypeManifestCountedAnsiString, inTypeManifestCountedBinary, inTypeCountedString,
    inTypeCountedAnsiString, inTypeReversedCountedString, inTypeReversedCountedAnsiString,
    inTypeNonNullTerminatedString, inTypeNonNullTerminatedAnsiString, inTypeUnicodeChar,
    inTypeAnsiChar, inTypeSizeT, inTypeHexDump, inTypeWbemSid]

/-- `FromPrimitive::from_u16`: the in type with this discriminant. -/
def fromU16 (n : UInt16) : Option TdhInType := all.find? (·.toU16 == n)

theorem fromU16_toU16 (t : TdhInType) : fromU16 t.toU16 = some t := by
  cases t <;> rfl

/-- Pointer-sized in types: `SIZET` is the deprecated WBEM pointer. -/
def isPointer : TdhInType → Bool
  | inTypePointer | inTypeSizeT => true
  | _ => false

/-- Byte size of a nonzero declared length: WCHARs for `UnicodeString`, bytes otherwise. -/
def schemaLengthBytes (t : Target) (inType : TdhInType) (length : ℕ) : Option ℕ :=
  match inType with
  | inTypeUnicodeString => t.checkedMul length 2
  | _ => some length

/-- `schemaLengthBytes` of a literal, with its `expect`. -/
def literalSchemaLengthBytes (t : Target) (inType : TdhInType) (length : UInt16) : Checked ℕ :=
  match schemaLengthBytes t inType length.toNat with
  | some n => .ok n
  | none => .error (.expect "a u16 schema length cannot overflow a usize")

/-- Whether the size follows from the field bytes themselves. -/
def isContentSized : TdhInType → Bool
  | inTypeManifestCountedString | inTypeCountedString | inTypeManifestCountedAnsiString
  | inTypeCountedAnsiString | inTypeReversedCountedString | inTypeReversedCountedAnsiString
  | inTypeManifestCountedBinary | inTypeNonNullTerminatedString
  | inTypeNonNullTerminatedAnsiString | inTypeSid | inTypeWbemSid | inTypeHexDump => true
  | _ => false

/-- Byte size of the in types whose size follows from the in type alone. -/
def fixedSize : TdhInType → Option ℕ
  | inTypeInt8 | inTypeUInt8 | inTypeAnsiChar => some 1
  | inTypeInt16 | inTypeUInt16 | inTypeUnicodeChar => some 2
  | inTypeInt32 | inTypeUInt32 | inTypeFloat | inTypeBoolean | inTypeHexInt32 => some 4
  | inTypeInt64 | inTypeUInt64 | inTypeDouble | inTypeFileTime | inTypeHexInt64 => some 8
  | inTypeGuid | inTypeSystemTime => some 16
  | _ => none

/-- Bytes per unit of a declared length. -/
def lengthUnit : TdhInType → ℕ
  | inTypeUnicodeString => 2
  | _ => 1

theorem lengthUnit_le (inType : TdhInType) : inType.lengthUnit ≤ 2 := by
  cases inType <;> decide

/-- A declared length converts to bytes when the product fits. -/
theorem schemaLengthBytes_of_le {t : Target} {inType : TdhInType} {n : ℕ}
    (h : inType.lengthUnit * n ≤ t.usizeMax) :
    schemaLengthBytes t inType n = some (inType.lengthUnit * n) := by
  by_cases hu : inType = inTypeUnicodeString
  · subst hu
    simp only [lengthUnit, Nat.mul_comm 2] at h ⊢
    exact Target.checkedMul_of_le h
  · cases inType <;> first | exact absurd rfl hu | simp [schemaLengthBytes, lengthUnit]

/-- What a converted length is, and that it fits when the length itself does. -/
theorem schemaLengthBytes_eq_some {t : Target} {inType : TdhInType} {n m : ℕ}
    (hn : n ≤ t.usizeMax) (h : schemaLengthBytes t inType n = some m) :
    m = inType.lengthUnit * n ∧ m ≤ t.usizeMax := by
  by_cases hu : inType = inTypeUnicodeString
  · subst hu
    obtain ⟨rfl, hm⟩ := Target.checkedMul_eq_some_iff.mp h
    exact ⟨Nat.mul_comm n 2, hm⟩
  · have hm : m = n := by
      cases inType <;> first | exact absurd rfl hu | exact (Option.some.inj h).symm
    have hunit : inType.lengthUnit = 1 := by
      cases inType <;> first | exact absurd rfl hu | rfl
    subst hm
    exact ⟨by rw [hunit, Nat.one_mul], hn⟩

theorem lengthUnit_mul_toNat_le (t : Target) (inType : TdhInType) (l : UInt16) :
    inType.lengthUnit * l.toNat ≤ t.usizeMax := by
  have hl : l.toNat < 65536 := l.toNat_lt
  have ht := t.usizeMax_ge
  calc inType.lengthUnit * l.toNat ≤ 2 * 65536 :=
        Nat.mul_le_mul inType.lengthUnit_le (Nat.le_of_lt hl)
    _ ≤ t.usizeMax := by omega

/-- **The `expect` on a literal length never fires**: twice a `u16` fits every `usize`. -/
theorem literalSchemaLengthBytes_eq (t : Target) (inType : TdhInType) (l : UInt16) :
    literalSchemaLengthBytes t inType l = .ok (inType.lengthUnit * l.toNat) := by
  rw [literalSchemaLengthBytes, schemaLengthBytes_of_le (lengthUnit_mul_toNat_le t inType l)]

theorem fixedSize_le {inType : TdhInType} {n : ℕ} (h : inType.fixedSize = some n) : n ≤ 16 := by
  cases inType <;> simp [fixedSize] at h <;> omega

end TdhInType

namespace TdhOutType

/-- The discriminant. -/
def toU16 : TdhOutType → UInt16
  | outTypeNull => 0
  | outTypeString => 1
  | outTypeDateTime => 2
  | outTypeInt8 => 3
  | outTypeUInt8 => 4
  | outTypeInt16 => 5
  | outTypeUInt16 => 6
  | outTypeInt32 => 7
  | outTypeUInt32 => 8
  | outTypeInt64 => 9
  | outTypeUInt64 => 10
  | outTypeFloat => 11
  | outTypeDouble => 12
  | outTypeBoolean => 13
  | outTypeGuid => 14
  | outTypeHexBinary => 15
  | outTypeHexInt8 => 16
  | outTypeHexInt16 => 17
  | outTypeHexInt32 => 18
  | outTypeHexInt64 => 19
  | outTypePid => 20
  | outTypeTid => 21
  | outTypePort => 22
  | outTypeIpv4 => 23
  | outTypeIpv6 => 24
  | outTypeSocketAddress => 25
  | outTypeWin32Error => 30
  | outTypeNtStatus => 31
  | outTypeHResult => 32
  | outTypeJson => 34
  | outTypeUtf8 => 35
  | outTypePkcs7 => 36
  | outTypeCodePointer => 37
  | outTypeDatetimeUtc => 38

/-- Every out type, in declaration order. -/
def all : List TdhOutType :=
  [outTypeNull, outTypeString, outTypeDateTime, outTypeInt8, outTypeUInt8, outTypeInt16,
    outTypeUInt16, outTypeInt32, outTypeUInt32, outTypeInt64, outTypeUInt64, outTypeFloat,
    outTypeDouble, outTypeBoolean, outTypeGuid, outTypeHexBinary, outTypeHexInt8, outTypeHexInt16,
    outTypeHexInt32, outTypeHexInt64, outTypePid, outTypeTid, outTypePort, outTypeIpv4,
    outTypeIpv6, outTypeSocketAddress, outTypeWin32Error, outTypeNtStatus, outTypeHResult,
    outTypeJson, outTypeUtf8, outTypePkcs7, outTypeCodePointer, outTypeDatetimeUtc]

/-- `FromPrimitive::from_u16`: the out type with this discriminant. -/
def fromU16 (n : UInt16) : Option TdhOutType := all.find? (·.toU16 == n)

theorem fromU16_toU16 (t : TdhOutType) : fromU16 t.toU16 = some t := by
  cases t <;> rfl

end TdhOutType

/-! ### Properties -/

/-- A property count: a literal, or the index of the property holding it. -/
inductive PropertyCount where
  | count (c : UInt16)
  | index (i : UInt16)
  deriving DecidableEq, Repr

/-- A property length: a literal, or the index of the property holding it. -/
inductive PropertyLength where
  | length (l : UInt16)
  | index (i : UInt16)
  deriving DecidableEq, Repr

/-- Value of the property an index refers to, read from its value bytes by width. -/
def indexValueFromBytes (t : Target) (bytes : List UInt8) : Option ℕ :=
  match bytes.length with
  | 1 => some (leValue bytes)
  | 2 => some (leValue bytes)
  | 4 => t.tryFrom (leValue bytes)
  | 8 => t.tryFrom (leValue bytes)
  | _ => none

/-- What a schema says about a property, generic in the type of structure members. -/
inductive PropertyInfo (M : Type) where
  | value (inType : TdhInType) (outType : TdhOutType) (length : PropertyLength)
  | array (inType : TdhInType) (outType : TdhOutType) (length : PropertyLength)
      (count : PropertyCount)
  /-- A structure: its members, in layout order. -/
  | struct (members : List M)
  /-- `count` structures, each laid out as `members`. -/
  | structArray (members : List M) (count : PropertyCount)
  /-- A property this crate cannot decode, which still occupies its bytes. -/
  | unsupported (length : PropertyLength)

/-- Attributes of a property. -/
structure Property where
  name : String
  info : PropertyInfo Property

mutual

/-- The predicate holds of the property, and of every property nested in it. -/
def Property.Every (Q : Property → Prop) : Property → Prop
  | ⟨name, .struct members⟩ => Q ⟨name, .struct members⟩ ∧ EveryMember Q members
  | ⟨name, .structArray members count⟩ =>
    Q ⟨name, .structArray members count⟩ ∧ EveryMember Q members
  | ⟨name, .value inType outType length⟩ => Q ⟨name, .value inType outType length⟩
  | ⟨name, .array inType outType length count⟩ => Q ⟨name, .array inType outType length count⟩
  | ⟨name, .unsupported length⟩ => Q ⟨name, .unsupported length⟩

/-- The predicate holds of these properties, and of every property nested in them. -/
def EveryMember (Q : Property → Prop) : List Property → Prop
  | [] => True
  | p :: ps => p.Every Q ∧ EveryMember Q ps

end

theorem Property.Every.self {Q : Property → Prop} : ∀ {p : Property}, p.Every Q → Q p
  | ⟨_, .struct _⟩, h => h.1
  | ⟨_, .structArray _ _⟩, h => h.1
  | ⟨_, .value _ _ _⟩, h => h
  | ⟨_, .array _ _ _ _⟩, h => h
  | ⟨_, .unsupported _⟩, h => h

theorem EveryMember.of_mem {Q : Property → Prop} {ps : List Property} (h : EveryMember Q ps) :
    ∀ p ∈ ps, p.Every Q := by
  induction ps with
  | nil => exact nofun
  | cons p ps ih => exact List.forall_mem_cons.mpr ⟨h.1, ih h.2⟩

/-- An index value is a `usize`, and is the little-endian value of the bytes. -/
theorem indexValueFromBytes_eq_some {t : Target} {bytes : List UInt8} {n : ℕ}
    (h : indexValueFromBytes t bytes = some n) : n = leValue bytes ∧ n ≤ t.usizeMax := by
  have hlt := leValue_lt bytes
  have ht := t.usizeMax_ge
  unfold indexValueFromBytes at h
  split at h
  · rename_i hlen
    obtain rfl := Option.some.inj h
    rw [hlen] at hlt
    exact ⟨rfl, by omega⟩
  · rename_i hlen
    obtain rfl := Option.some.inj h
    rw [hlen] at hlt
    exact ⟨rfl, by omega⟩
  · obtain ⟨rfl, hn⟩ := Target.tryFrom_eq_some_iff.mp h
    exact ⟨rfl, hn⟩
  · obtain ⟨rfl, hn⟩ := Target.tryFrom_eq_some_iff.mp h
    exact ⟨rfl, hn⟩
  · simp at h

/-- The bytes of a 1, 2, 4 or 8-byte property carry their value, when it is a `usize`. -/
theorem indexValueFromBytes_of_le {t : Target} {bytes : List UInt8}
    (hw : bytes.length = 1 ∨ bytes.length = 2 ∨ bytes.length = 4 ∨ bytes.length = 8)
    (h : leValue bytes ≤ t.usizeMax) : indexValueFromBytes t bytes = some (leValue bytes) := by
  unfold indexValueFromBytes
  rcases hw with hw | hw | hw | hw <;> simp [hw, Target.tryFrom_of_le h]

end Ferrisetw2
