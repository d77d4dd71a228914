import Mathlib.Data.List.DropRight
import Ferrisetw2.Native.Time
import Ferrisetw2.Parser.Size

/-!
# Decoding

`TryParse`: a value out of the bytes a property was located at. Decoding never looks at other
bytes, which is why it works on structure members too. `parser.rs`, `socket_address.rs`.

The two decoders that live in other libraries are fields of `Natives`. A number is its type and
its bits. `from_ne_bytes` and `from_le_bytes` agree on every Windows target.

## Main definitions

* `Natives`, `Primitive`, `Scalar`, `Guid`, `IpAddr`, `AddressFamily`, `TdhSocketAddress`
* `tryParsePrimitive`, `tryParsePrimitiveArray`, `tryParseString`, `tryParseBytes`, … — one for
  each instance of `TryParse`

## Main results

* `tryParseBytes_eq_ok_or_error` — the one decoder with unchecked arithmetic does not unwind when
  the prefixed size is a `usize`
-/

namespace Ferrisetw2

open Rust

/-- What decoding uses of other libraries. -/
structure Natives where
  /-- `widestring::decode_utf16_lossy`. -/
  decodeUtf16Lossy : List UInt16 → String
  /-- `sddl::convert_sid_to_string`, on the bytes at the pointer it is given. -/
  convertSidToString : List UInt8 → Except SddlNativeError String

/-! ### Integers and floats -/

/-- The types of `impl_try_parse_primitive`. -/
inductive Primitive where
  | u8
  | i8
  | u16
  | i16
  | u32
  | i32
  | u64
  | i64
  | f32
  | f64
  deriving DecidableEq, Repr

/-- A value of a primitive type, by its bits. -/
structure Scalar where
  ty : Primitive
  bits : ℕ
  deriving DecidableEq, Repr

namespace Primitive

/-- `size_of::<T>()`. Windows targets align each of these types to its size. -/
def size : Primitive → ℕ
  | u8 | i8 => 1
  | u16 | i16 => 2
  | u32 | i32 | f32 => 4
  | u64 | i64 | f64 => 8

/-- `T::from_ne_bytes`. -/
def fromNeBytes (ty : Primitive) (bytes : List UInt8) : Scalar := ⟨ty, leValue bytes⟩

end Primitive

/-- `impl_try_parse_primitive`. -/
def tryParsePrimitive (ty : Primitive) (slice : PropertySlice) : Except ParserError Scalar :=
  match slice.property.info with
  | .value _ _ _ =>
    if ty.size ≠ slice.buffer.len then .error .lengthMismatch
    else .ok (ty.fromNeBytes slice.buffer.bytes)
  | _ => .error .invalidType

/-- The `count` elements of `size` bytes at the start of the bytes. -/
def elements (size count : ℕ) (bytes : List UInt8) : List (List UInt8) :=
  (List.range count).map fun j => range (j * size) ((j + 1) * size) bytes

/-- `impl_try_parse_primitive_array`: the bytes reinterpreted in place, for a user buffer at the
address `userData`. -/
def tryParsePrimitiveArray (t : Target) (userData : ℕ) (ty : Primitive) (slice : PropertySlice) :
    Except ParserError (List Scalar) :=
  match slice.property.info with
  | .array _ _ _ _ =>
    if slice.buffer.len % ty.size ≠ 0 then .error .lengthMismatch
    else
      let count := slice.buffer.len / ty.size
      if (userData + slice.buffer.start) % ty.size ≠ 0 then
        .error (.propertyError "buffer alignment mismatch")
      else
        match t.checkedMul ty.size count with
        | none => .error (.propertyError "size overflow")
        | some bytes =>
          if t.isizeMax < bytes then .error (.propertyError "size overflow")
          else .ok ((elements ty.size count slice.buffer.bytes).map ty.fromNeBytes)
  | _ => .error .invalidType

/-! ### Strings -/

/-- `std::str::from_utf8`. -/
def fromUtf8 (bytes : List UInt8) : Except ParserError String :=
  match String.fromUTF8? ⟨bytes.toArray⟩ with
  | some s => .ok s
  | none => .error .utf8Error

/-- `s.trim_matches(char::default())`: NUL characters go at both ends. -/
def trimMatchesNul (s : String) : String :=
  String.ofList ((s.toList.dropWhile (· = Char.ofNat 0)).rdropWhile (· = Char.ofNat 0))

/-- `decode_counted_payload`. A 16-bit count and its prefix fit every `usize`. -/
def decodeCountedPayload (N : Natives) (buffer : List UInt8) (byteCount : ℕ) (wide : Bool) :
    Except ParserError String :=
  if 2 + byteCount ≤ buffer.length then
    let data := range 2 (2 + byteCount) buffer
    if wide then .ok (N.decodeUtf16Lossy (codeUnits data)) else fromUtf8 data
  else .error (.propertyError "invalid counted string length")

/-- `parse_counted_string` and `parse_reversed_counted_string`: the count is little-endian in the
one and big-endian in the other. -/
def parseCountedString (N : Natives) (buffer : List UInt8) (wide bigEndian : Bool) :
    Except ParserError String :=
  match readCountPrefix buffer bigEndian with
  | .error e => .error e
  | .ok byteCount => decodeCountedPayload N buffer byteCount wide

/-- `parse_non_null_terminated_string`. -/
def parseNonNullTerminatedString (N : Natives) (buffer : List UInt8) (wide : Bool) :
    Except ParserError String :=
  if wide then .ok (N.decodeUtf16Lossy (codeUnits buffer)) else fromUtf8 buffer

/-- The SID arm. `ConvertSidToStringSidA` takes no length, so a SID shorter than its header
advertises must be rejected first. -/
def parseSid (t : Target) (N : Natives) (buffer : List UInt8) : Except ParserError String :=
  let expected := (buffer[1]?).elim t.usizeMax fun c => 8 + 4 * c.toNat
  if buffer.length < expected then .error (.propertyError "SID property is truncated")
  else
    match N.convertSidToString buffer with
    | .error e => .error (.sddlNativeError e)
    | .ok s => .ok s

/-- `String`. -/
def tryParseString (t : Target) (N : Natives) (slice : PropertySlice) : Except ParserError String :=
  let buffer := slice.buffer.bytes
  match slice.property.info with
  | .value inType _ _ =>
    match inType with
    | .inTypeUnicodeString =>
      if buffer.length % 2 ≠ 0 then
        .error (.propertyError "odd length in bytes for a wide string")
      else .ok (N.decodeUtf16Lossy ((codeUnits buffer).takeWhile (· ≠ 0)))
    | .inTypeAnsiString =>
      match fromUtf8 buffer with
      | .error e => .error e
      | .ok s => .ok (trimMatchesNul s)
    | .inTypeSid | .inTypeWbemSid => parseSid t N buffer
    | .inTypeUnicodeChar =>
      if buffer.length = 2 then .ok (N.decodeUtf16Lossy [UInt16.ofNat (leValue buffer)])
      else .error .sliceError
    | .inTypeAnsiChar => fromUtf8 buffer
    | .inTypeManifestCountedString | .inTypeCountedString => parseCountedString N buffer true false
    | .inTypeManifestCountedAnsiString | .inTypeCountedAnsiString =>
      parseCountedString N buffer false false
    | .inTypeReversedCountedString => parseCountedString N buffer true true
    | .inTypeReversedCountedAnsiString => parseCountedString N buffer false true
    | .inTypeNonNullTerminatedString => parseNonNullTerminatedString N buffer true
    | .inTypeNonNullTerminatedAnsiString => parseNonNullTerminatedString N buffer false
    | _ => .error .invalidType
  | _ => .error .invalidType

/-! ### Structured values -/

/-- `GUID`. -/
structure Guid where
  data1 : UInt32
  data2 : UInt16
  data3 : UInt16
  data4 : List UInt8
  /-- It is an array of eight bytes. -/
  length_data4 : data4.length = 8
  deriving DecidableEq, Repr

/-- The GUID of these fields. Bytes that are not there are zeros. -/
def Guid.ofFields (data1 : UInt32) (data2 data3 : UInt16) (data4 : List UInt8) : Guid where
  data1 := data1
  data2 := data2
  data3 := data3
  data4 := (data4 ++ List.replicate 8 0).take 8
  length_data4 := by simp

@[simp] theorem Guid.ofFields_self (guid : Guid) :
    Guid.ofFields guid.data1 guid.data2 guid.data3 guid.data4 = guid := by
  obtain ⟨data1, data2, data3, data4, hlength⟩ := guid
  simp only [Guid.ofFields, List.take_left' hlength]

theorem Guid.mk_eq_ofFields {data1 : UInt32} {data2 data3 : UInt16} {data4 : List UInt8}
    (h : data4.length = 8) :
    Guid.mk data1 data2 data3 data4 h = .ofFields data1 data2 data3 data4 :=
  (Guid.ofFields_self ⟨data1, data2, data3, data4, h⟩).symm

/-- `std::net::IpAddr`, by its octets. -/
inductive IpAddr where
  | v4 (octets : List UInt8)
  | v6 (octets : List UInt8)
  deriving DecidableEq, Repr

/-- `AddressFamily`. -/
inductive AddressFamily where
  | unspecified
  | inet
  | inet6
  | other (raw : UInt16)
  deriving DecidableEq, Repr

/-- `AddressFamily::from_u16`. -/
def AddressFamily.fromU16 (raw : UInt16) : AddressFamily :=
  if raw = 0 then .unspecified
  else if raw = 2 then .inet
  else if raw = 23 then .inet6
  else .other raw

/-- `TdhSocketAddress`. -/
inductive TdhSocketAddress where
  | ipv4 (ip : List UInt8) (port : ℕ)
  | ipv6 (ip : List UInt8) (port flowInfo scopeId : ℕ)
  /-- An unrecognized family, or a truncated `sockaddr`. -/
  | other (family : AddressFamily) (raw : List UInt8)
  deriving DecidableEq, Repr

/-- `TdhSocketAddress::from_property_buffer`. -/
def TdhSocketAddress.fromPropertyBuffer (buffer : List UInt8) :
    Except ParserError TdhSocketAddress :=
  match take? 2 buffer with
  | none => .error .lengthMismatch
  | some familyBytes =>
    let family := AddressFamily.fromU16 (UInt16.ofNat (leValue familyBytes))
    -- the family is in host order, everything after it in network order
    if family = .inet ∧ 16 ≤ buffer.length then
      .ok (.ipv4 (range 4 8 buffer) (beValue (range 2 4 buffer)))
    else if family = .inet6 ∧ 28 ≤ buffer.length then
      .ok (.ipv6 (range 8 24 buffer) (beValue (range 2 4 buffer)) (beValue (range 4 8 buffer))
        (beValue (range 24 28 buffer)))
    else .ok (.other family buffer)

/-- `GUID`. -/
def tryParseGuid (slice : PropertySlice) : Except ParserError Guid :=
  let buffer := slice.buffer.bytes
  match slice.property.info with
  | .value inType _ _ =>
    if inType ≠ .inTypeGuid then .error .invalidType
    else if h : buffer.length ≠ 16 then .error .lengthMismatch
    else .ok ⟨UInt32.ofNat (leValue (range 0 4 buffer)), UInt16.ofNat (leValue (range 4 6 buffer)),
      UInt16.ofNat (leValue (range 6 8 buffer)), buffer.drop 8, by
        rw [List.length_drop, not_ne_iff.mp h]⟩
  | _ => .error .invalidType

/-- `IpAddr`. -/
def tryParseIpAddr (slice : PropertySlice) : Except ParserError IpAddr :=
  let buffer := slice.buffer.bytes
  match slice.property.info with
  | .value _ outType _ =>
    if outType ≠ .outTypeIpv4 ∧ outType ≠ .outTypeIpv6 then .error .invalidType
    else
      match buffer.length with
      | 16 => .ok (.v6 buffer)
      | 4 => .ok (.v4 buffer)
      | _ => .error .lengthMismatch
  | _ => .error .invalidType

/-- `bool`. -/
def tryParseBool (slice : PropertySlice) : Except ParserError Bool :=
  let buffer := slice.buffer.bytes
  match slice.property.info with
  | .value inType _ _ =>
    if inType ≠ .inTypeBoolean then .error .invalidType
    else
      match buffer.length with
      | 1 => .ok (leValue buffer != 0)
      | 4 => .ok (leValue buffer != 0)
      | 8 => .ok (leValue buffer != 0)
      | _ => .error .lengthMismatch
  | _ => .error .invalidType

/-- `TdhSocketAddress`. -/
def tryParseSocketAddress (slice : PropertySlice) : Except ParserError TdhSocketAddress :=
  match slice.property.info with
  | .value _ outType _ =>
    if outType ≠ .outTypeSocketAddress then .error .invalidType
    else TdhSocketAddress.fromPropertyBuffer slice.buffer.bytes
  | _ => .error .invalidType

/-- `FileTime`. -/
def tryParseFileTime (slice : PropertySlice) : Except ParserError FileTime :=
  match slice.property.info with
  | .value inType _ _ =>
    if inType ≠ .inTypeFileTime then .error .invalidType
    else if slice.buffer.len = 8 then .ok (FileTime.fromSlice slice.buffer.bytes)
    else .error .sliceError
  | _ => .error .invalidType

/-- `SystemTime`. -/
def tryParseSystemTime (slice : PropertySlice) : Except ParserError SystemTime :=
  match slice.property.info with
  | .value inType _ _ =>
    if inType ≠ .inTypeSystemTime then .error .invalidType
    else if slice.buffer.len = 16 then .ok (SystemTime.fromSlice slice.buffer.bytes)
    else .error .sliceError
  | _ => .error .invalidType

/-! ### Bytes -/

/-- `count_prefixed_binary`: the payload after a little-endian count of `width` bytes. -/
def countPrefixedBinary (t : Target) (buffer : List UInt8) (width : ℕ) :
    Outcome ParserError (List UInt8) :=
  match take? width buffer with
  | none => .error (.error (.propertyError "counted binary does not have length"))
  | some countBytes =>
    match t.add width (leValue countBytes) with
    | .error p => .error (.panic p)
    | .ok stop =>
      if width ≤ stop ∧ stop ≤ buffer.length then .ok (range width stop buffer)
      else .error (.error (.propertyError "invalid counted binary length"))

/-- `Vec<u8>`. -/
def tryParseBytes (t : Target) (slice : PropertySlice) : Outcome ParserError (List UInt8) :=
  match slice.property.info with
  | .value .inTypeManifestCountedBinary _ _ => countPrefixedBinary t slice.buffer.bytes 2
  | .value .inTypeHexDump _ _ => countPrefixedBinary t slice.buffer.bytes 4
  | _ => .ok slice.buffer.bytes

theorem countPrefixedBinary_eq_ok_or_error {t : Target} {buffer : List UInt8} {width : ℕ}
    (h : ∀ count, take? width buffer = some count → width + leValue count ≤ t.usizeMax) :
    (∃ payload, countPrefixedBinary t buffer width = .ok payload) ∨
      ∃ e, countPrefixedBinary t buffer width = .error (.error e) := by
  unfold countPrefixedBinary
  cases hcount : take? width buffer with
  | none => exact Or.inr ⟨_, rfl⟩
  | some count =>
    simp only [Target.add_of_le (h count hcount)]
    split
    · exact Or.inl ⟨_, rfl⟩
    · exact Or.inr ⟨_, rfl⟩

/-- **A decoded binary does not unwind**, when a hexdump and its prefix fit. -/
theorem tryParseBytes_eq_ok_or_error {t : Target} {slice : PropertySlice}
    (h : ∀ outType length count,
      slice.property.info = .value .inTypeHexDump outType length →
      take? 4 slice.buffer.bytes = some count → 4 + leValue count ≤ t.usizeMax) :
    (∃ payload, tryParseBytes t slice = .ok payload) ∨
      ∃ e, tryParseBytes t slice = .error (.error e) := by
  unfold tryParseBytes
  split
  · refine countPrefixedBinary_eq_ok_or_error fun count hcount => ?_
    have hlt := leValue_lt count
    have ht := t.usizeMax_ge
    rw [length_of_take? hcount] at hlt
    omega
  · rename_i outType length hinfo
    exact countPrefixedBinary_eq_ok_or_error fun count hcount =>
      h outType length count hinfo hcount
  · exact Or.inl ⟨_, rfl⟩

end Ferrisetw2
