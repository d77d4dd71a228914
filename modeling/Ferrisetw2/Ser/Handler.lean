import Ferrisetw2.Parser.Decode
import Ferrisetw2.Parser.ExactSize
import Ferrisetw2.Parser.Walk

/-!
# Property handlers

How one property that is not a structure becomes an entry of a map: the handler the schema selects
for it, and what the handler writes. `ser.rs`.

The serializer that entries are written to builds a tree, `SerValue`. Its leaves are values with a
`Serialize` of their own, which depends on the target format and is not expanded here.

A handler returns the map next to its result, so that one that fails after it wrote would show.

## Main definitions

* `Leaf`, `SerValue`, `SerMap`, `SerError`
* `PropHandler`, `PropertyInfo.getParser`, `PropHandler.serFromBytes`

## Main results

* `serFromBytes_cases` — a handler writes one entry, or fails and writes nothing
* `getParser_eq_null` — only values of `InTypeNull` are handled as nulls
* `serFromBytes_eq_error` — a handler does not unwind, when a hexdump and its prefix fit
-/

namespace Ferrisetw2

open Rust

/-! ### The tree -/

/-- A value with a `Serialize` of its own. -/
inductive Leaf where
  | bool (b : Bool)
  | scalar (v : Scalar)
  | string (s : String)
  | ipAddr (v : IpAddr)
  | socketAddress (v : TdhSocketAddress)
  | fileTime (v : FileTime)
  | systemTime (v : SystemTime)
  | guid (v : Guid)
  deriving DecidableEq, Repr

/-- What is written to the target serializer. -/
inductive SerValue where
  | null
  | leaf (v : Leaf)
  | map (entries : List (String × SerValue))
  | seq (elements : List SerValue)

/-- The entries of an open map, in the order they were written. -/
abbrev SerMap := List (String × SerValue)

/-- The errors of `serde::ser::Error::custom`, by what they print. -/
inductive SerError where
  | parser (e : ParserError)
  /-- `not implemented {name} info: {info:?}`. -/
  | notImplemented (name : String) (info : PropertyInfo Property)
  /-- `cannot resolve the structure array element count of {name} ({count:?})`. -/
  | structCount (name : String) (count : PropertyCount)

/-- `null_entry`. -/
def nullEntry (map : SerMap) (name : String) : SerMap := map ++ [(name, .null)]

/-! ### Handlers -/

/-- `PropHandler`. -/
inductive PropHandler where
  | null
  | bool
  | int8
  | uInt8
  | int16
  | uInt16
  | int32
  | uInt32
  | int64
  | uInt64
  | hexInt32
  | hexInt64
  | pointer
  | float
  | double
  | string
  | fileTime
  | systemTime
  | guid
  | binary
  | ipAddr
  | socketAddress
  | struct
  | structArray
  | arrayInt16
  | arrayUInt16
  | arrayInt32
  | arrayUInt32
  | arrayInt64
  | arrayUInt64
  | arrayHexInt32
  | arrayHexInt64
  | arrayPointer
  | arrayHexPointer
  | hexPointer
  deriving DecidableEq, Repr

/-- The handler of a value whose out type selects none. -/
def TdhInType.getParser (inType : TdhInType) (outType : TdhOutType) : PropHandler :=
  match inType with
  | .inTypeNull => .null
  | .inTypeUnicodeString | .inTypeAnsiString | .inTypeSid | .inTypeWbemSid | .inTypeUnicodeChar
  | .inTypeAnsiChar | .inTypeManifestCountedString | .inTypeCountedString
  | .inTypeManifestCountedAnsiString | .inTypeCountedAnsiString | .inTypeReversedCountedString
  | .inTypeReversedCountedAnsiString | .inTypeNonNullTerminatedString
  | .inTypeNonNullTerminatedAnsiString => .string
  | .inTypeManifestCountedBinary | .inTypeHexDump => .binary
  | .inTypeInt8 => .int8
  | .inTypeUInt8 => .uInt8
  | .inTypeInt16 => .int16
  | .inTypeUInt16 => .uInt16
  | .inTypeInt32 => .int32
  | .inTypeUInt32 => .uInt32
  | .inTypeInt64 => .int64
  | .inTypeUInt64 => .uInt64
  | .inTypeHexInt32 => .hexInt32
  | .inTypeHexInt64 => .hexInt64
  | .inTypeFloat => .float
  | .inTypeDouble => .double
  | .inTypeBoolean => .bool
  | .inTypeBinary => .binary
  | .inTypeGuid => .guid
  | .inTypePointer | .inTypeSizeT => if outType = .outTypeNull then .hexPointer else .pointer
  | .inTypeFileTime => .fileTime
  | .inTypeSystemTime => .systemTime

/-- The handler of an array whose out type selects none. -/
def TdhInType.getArrayParser (inType : TdhInType) (outType : TdhOutType) : Option PropHandler :=
  match inType with
  | .inTypeInt16 => some .arrayInt16
  | .inTypeUInt16 => some .arrayUInt16
  | .inTypeInt32 => some .arrayInt32
  | .inTypeUInt32 => some .arrayUInt32
  | .inTypeInt64 => some .arrayInt64
  | .inTypeUInt64 => some .arrayUInt64
  | .inTypeHexInt32 => some .arrayHexInt32
  | .inTypeHexInt64 => some .arrayHexInt64
  | .inTypePointer | .inTypeSizeT =>
    if outType = .outTypeNull then some .arrayHexPointer else some .arrayPointer
  | _ => none

/-- `PropSerable::get_parser`: the out type's handler first, otherwise the in type's. -/
def PropertyInfo.getParser : PropertyInfo Property → Option PropHandler
  | .value inType outType _ =>
    match outType with
    | .outTypeIpv4 | .outTypeIpv6 => some .ipAddr
    | .outTypeSocketAddress => some .socketAddress
    | .outTypeUtf8 => some .string
    | .outTypeHexInt32 => some .hexInt32
    | .outTypeHexInt64 => some .hexInt64
    | _ => some (inType.getParser outType)
  | .array inType outType _ _ =>
    match outType with
    | .outTypeHexInt32 => some .arrayHexInt32
    | .outTypeHexInt64 => some .arrayHexInt64
    | _ => inType.getArrayParser outType
  | .struct _ => some .struct
  | .structArray _ _ => some .structArray
  | .unsupported _ => none

/-! ### What they write -/

/-- `HexDisplay`. -/
def hexDisplay (v : Scalar) : SerValue :=
  .leaf (.string ("0x" ++ String.ofList (Nat.toDigits 16 v.bits)))

/-- `prop_ser_type!`, `prop_ser_hex!` and `prop_ser_hex_array!`, which differ in the value written:
parse, and only then write the entry. -/
def propSer {α : Type} (toValue : α → SerValue) (parsed : Outcome ParserError α) (name : String)
    (map : SerMap) : Outcome SerError Unit × SerMap :=
  match parsed with
  | .error (.error e) => (.error (.error (.parser e)), map)
  | .error (.panic p) => (.error (.panic p), map)
  | .ok v => (.ok (), map ++ [(name, toValue v)])

/-- A parser without arithmetic that could unwind. -/
def parsed {α : Type} : Except ParserError α → Outcome ParserError α
  | .ok v => .ok v
  | .error e => .error (.error e)

/-- A number. -/
def scalarValue (v : Scalar) : SerValue := .leaf (.scalar v)

/-- A sequence of numbers. -/
def scalarsValue (vs : List Scalar) : SerValue := .seq (vs.map scalarValue)

/-- `PropHandler::ser_from_bytes`. -/
def PropHandler.serFromBytes (P : Parser) (N : Natives) (handler : PropHandler) (prop : Property)
    (buffer : Slice) (map : SerMap) : Outcome SerError Unit × SerMap :=
  let slice : PropertySlice := ⟨prop, buffer⟩
  let number (ty : Primitive) := propSer scalarValue (parsed (tryParsePrimitive ty slice))
  let hex (ty : Primitive) := propSer hexDisplay (parsed (tryParsePrimitive ty slice))
  let array (ty : Primitive) := propSer scalarsValue
    (parsed (tryParsePrimitiveArray P.target P.record.userData ty slice))
  let hexArray (ty : Primitive) := propSer (fun vs => .seq (vs.map hexDisplay))
    (parsed (tryParsePrimitiveArray P.target P.record.userData ty slice))
  let pointer (f : Primitive → String → SerMap → Outcome SerError Unit × SerMap) :=
    if P.record.pointerSize = 4 then f .u32 prop.name map else f .u64 prop.name map
  match handler with
  | .bool => propSer (.leaf ∘ .bool) (parsed (tryParseBool slice)) prop.name map
  | .int8 => number .i8 prop.name map
  | .uInt8 => number .u8 prop.name map
  | .int16 => number .i16 prop.name map
  | .uInt16 => number .u16 prop.name map
  | .int32 => number .i32 prop.name map
  | .uInt32 => number .u32 prop.name map
  | .int64 => number .i64 prop.name map
  | .uInt64 => number .u64 prop.name map
  | .hexInt32 => hex .u32 prop.name map
  | .hexInt64 => hex .u64 prop.name map
  | .float => number .f32 prop.name map
  | .double => number .f64 prop.name map
  | .string =>
    propSer (.leaf ∘ .string) (parsed (tryParseString P.target N slice)) prop.name map
  | .binary => propSer (fun bytes => scalarsValue (bytes.map fun b => ⟨.u8, b.toNat⟩))
    (tryParseBytes P.target slice) prop.name map
  | .ipAddr => propSer (.leaf ∘ .ipAddr) (parsed (tryParseIpAddr slice)) prop.name map
  | .socketAddress =>
    propSer (.leaf ∘ .socketAddress) (parsed (tryParseSocketAddress slice)) prop.name map
  | .fileTime => propSer (.leaf ∘ .fileTime) (parsed (tryParseFileTime slice)) prop.name map
  | .systemTime => propSer (.leaf ∘ .systemTime) (parsed (tryParseSystemTime slice)) prop.name map
  | .arrayInt16 => array .i16 prop.name map
  | .arrayUInt16 => array .u16 prop.name map
  | .arrayInt32 => array .i32 prop.name map
  | .arrayUInt32 => array .u32 prop.name map
  | .arrayInt64 => array .i64 prop.name map
  | .arrayUInt64 => array .u64 prop.name map
  | .arrayHexInt32 => hexArray .u32 prop.name map
  | .arrayHexInt64 => hexArray .u64 prop.name map
  | .null => (.ok (), map ++ [(prop.name, .null)])
  | .pointer => pointer number
  | .hexPointer => pointer hex
  | .arrayPointer => pointer array
  | .arrayHexPointer => pointer hexArray
  | .guid => propSer (.leaf ∘ .guid) (parsed (tryParseGuid slice)) prop.name map
  | .struct | .structArray =>
    (.error (.panic
      (.unreachable "structure properties go through the nested serializers")), map)

theorem propSer_cases {α : Type} {toValue : α → SerValue} (h : ∀ a, toValue a ≠ .null)
    (parsed : Outcome ParserError α) (name : String) (isNull : Prop) :
    (∃ v, (v = .null → isNull) ∧ ∀ map, propSer toValue parsed name map =
      (.ok (), map ++ [(name, v)])) ∨
    ∃ e, ∀ map, propSer toValue parsed name map = (.error e, map) := by
  match parsed with
  | .ok a => exact Or.inl ⟨toValue a, fun hnull => absurd hnull (h a), fun map => rfl⟩
  | .error (.error e) => exact Or.inr ⟨_, fun map => rfl⟩
  | .error (.panic p) => exact Or.inr ⟨_, fun map => rfl⟩

/-- **A handler writes one entry, or fails and writes nothing.** Only the handler of nulls writes
a null. -/
theorem serFromBytes_cases (P : Parser) (N : Natives) (handler : PropHandler) (prop : Property)
    (buffer : Slice) :
    (∃ v, (v = .null → handler = .null) ∧ ∀ map, handler.serFromBytes P N prop buffer map =
      (.ok (), map ++ [(prop.name, v)])) ∨
    ∃ e, ∀ map, handler.serFromBytes P N prop buffer map = (.error e, map) := by
  cases handler with
  | null => exact Or.inl ⟨.null, fun _ => rfl, fun map => rfl⟩
  | struct => exact Or.inr ⟨_, fun map => rfl⟩
  | structArray => exact Or.inr ⟨_, fun map => rfl⟩
  | pointer | hexPointer | arrayPointer | arrayHexPointer =>
    simp only [PropHandler.serFromBytes]
    split
    all_goals
      refine propSer_cases ?_ _ _ _
      exact fun _ => nofun
  | _ =>
    refine propSer_cases ?_ _ _ _
    exact fun _ => nofun

theorem TdhInType.getParser_eq_null {inType : TdhInType} {outType : TdhOutType}
    (h : inType.getParser outType = .null) : inType = .inTypeNull := by
  unfold TdhInType.getParser at h
  split at h <;> first | rfl | simp at h | (split at h <;> simp at h)

theorem TdhInType.getArrayParser_ne_null (inType : TdhInType) (outType : TdhOutType) :
    inType.getArrayParser outType ≠ some .null := by
  unfold TdhInType.getArrayParser
  split <;> first | (split <;> simp) | simp

/-- Only values of `InTypeNull` are handled as nulls. -/
theorem getParser_eq_null {info : PropertyInfo Property} (h : info.getParser = some .null) :
    ∃ outType length, info = .value .inTypeNull outType length := by
  match info with
  | .value inType outType length =>
    simp only [PropertyInfo.getParser] at h
    split at h
    iterate 6
      · simp at h
    · obtain rfl := TdhInType.getParser_eq_null (Option.some.inj h)
      exact ⟨outType, length, rfl⟩
  | .array inType outType length count =>
    simp only [PropertyInfo.getParser] at h
    split at h
    iterate 2
      · simp at h
    · exact absurd h (inType.getArrayParser_ne_null outType)

/-! ### Handlers that do not unwind -/

theorem TdhInType.getParser_ne_struct (inType : TdhInType) (outType : TdhOutType) :
    inType.getParser outType ≠ .struct ∧ inType.getParser outType ≠ .structArray := by
  unfold TdhInType.getParser
  split <;> first | (split <;> simp) | simp

theorem TdhInType.getArrayParser_ne_struct (inType : TdhInType) (outType : TdhOutType) :
    inType.getArrayParser outType ≠ some .struct ∧
      inType.getArrayParser outType ≠ some .structArray := by
  unfold TdhInType.getArrayParser
  split <;> first | (split <;> simp) | simp

/-- Nothing but a structure selects the handlers of structures. -/
theorem getParser_ne_struct {info : PropertyInfo Property}
    (hstruct : ∀ members, info ≠ .struct members)
    (harray : ∀ members count, info ≠ .structArray members count) :
    info.getParser ≠ some .struct ∧ info.getParser ≠ some .structArray := by
  match info with
  | .value inType outType length =>
    simp only [PropertyInfo.getParser]
    split
    iterate 6
      · simp
    · simpa using inType.getParser_ne_struct outType
  | .array inType outType length count =>
    simp only [PropertyInfo.getParser]
    split
    iterate 2
      · simp
    · exact inType.getArrayParser_ne_struct outType
  | .struct members => exact absurd rfl (hstruct members)
  | .structArray members count => exact absurd rfl (harray members count)
  | .unsupported length => simp [PropertyInfo.getParser]

theorem propSer_parsed {α : Type} {toValue : α → SerValue} {r : Except ParserError α}
    {name : String} {map map' : SerMap} {e : Fault SerError}
    (h : propSer toValue (parsed r) name map = (.error e, map')) : ∃ e', e = .error e' := by
  cases r with
  | ok a => simp [parsed, propSer] at h
  | error e' => exact exists_eq_error h

/-- A handler selected for anything but a structure does not unwind, when a hexdump fits. -/
theorem serFromBytes_eq_error {P : Parser} {N : Natives} {handler : PropHandler} {prop : Property}
    {buffer : Slice} {map map' : SerMap} {e : Fault SerError}
    (hstruct : handler ≠ .struct) (harray : handler ≠ .structArray)
    (hhex : HexFits P.target.usizeBits prop buffer.bytes)
    (h : handler.serFromBytes P N prop buffer map = (.error e, map')) : ∃ e', e = .error e' := by
  cases handler with
  | struct => exact absurd rfl hstruct
  | structArray => exact absurd rfl harray
  | null => simp [PropHandler.serFromBytes] at h
  | pointer | hexPointer | arrayPointer | arrayHexPointer =>
    simp only [PropHandler.serFromBytes] at h
    split at h <;> exact propSer_parsed h
  | binary =>
    simp only [PropHandler.serFromBytes] at h
    rcases @tryParseBytes_eq_ok_or_error P.target ⟨prop, buffer⟩ hhex with
      ⟨payload, hok⟩ | ⟨e', herr⟩
    · simp [hok, propSer] at h
    · rw [herr] at h
      exact exists_eq_error h
  | _ => exact propSer_parsed h

end Ferrisetw2
