import Ferrisetw2.Parser.Decode
import Ferrisetw2.Parser.Walk

/-!
# Extended data and event names

An event can carry extended data items. One kind of item holds the metadata of a TraceLogging
event: a size, tags, the event name and the field descriptors. The crate reads the name and leaves
the rest to TDH. `extended_data.rs`, and the descriptor of `event_record.rs`.

Every read of the metadata is bounded by the size it declares and by the item's own.

## Main definitions

* `EventHeaderExtendedDataItem`, `DescribedRecord`
* `EventHeaderExtendedDataItem.getEventName`, `DescribedRecord.eventNameCow`
-/

namespace Ferrisetw2

open Rust

/-! ### `String::from_utf8_lossy` -/

/-- How many bytes a character with this first byte takes; 0 if no character starts with it. -/
def utf8Width (lead : UInt8) : ℕ :=
  if lead < 0x80 then 1
  else if 0xC2 ≤ lead ∧ lead ≤ 0xDF then 2
  else if 0xE0 ≤ lead ∧ lead ≤ 0xEF then 3
  else if 0xF0 ≤ lead ∧ lead ≤ 0xF4 then 4
  else 0

/-- A continuation byte. -/
def isContinuation (b : UInt8) : Bool := 0x80 ≤ b && b ≤ 0xBF

/-- The second byte: overlong forms, surrogates and values over `U+10FFFF` are left out. -/
def isSecondByte (lead b : UInt8) : Bool :=
  if lead = 0xE0 then 0xA0 ≤ b && b ≤ 0xBF
  else if lead = 0xED then 0x80 ≤ b && b ≤ 0x9F
  else if lead = 0xF0 then 0x90 ≤ b && b ≤ 0xBF
  else if lead = 0xF4 then 0x80 ≤ b && b ≤ 0x8F
  else isContinuation b

/-- How many of these bytes can follow the first one. -/
def wellFormedTail (lead : UInt8) : List UInt8 → ℕ
  | [] => 0
  | b :: bs => if isSecondByte lead b then 1 + (bs.takeWhile isContinuation).length else 0

/-- The bits of the first byte that belong to the character. -/
def leadBits (lead : UInt8) : ℕ :=
  match utf8Width lead with
  | 2 => lead.toNat % 32
  | 3 => lead.toNat % 16
  | 4 => lead.toNat % 8
  | _ => lead.toNat

/-- The next character and the number of bytes it takes. Bytes that can start one but do not
finish it become one `U+FFFD` together. -/
def nextCharLossy (lead : UInt8) (rest : List UInt8) : ℕ × Char :=
  let width := utf8Width lead
  let tail := rest.take (width - 1)
  let good := wellFormedTail lead tail
  if width = 0 then (1, Char.ofNat 0xFFFD)
  else if good = width - 1 then
    (width, Char.ofNat (tail.foldl (fun acc b => acc * 64 + b.toNat % 64) (leadBits lead)))
  else (1 + good, Char.ofNat 0xFFFD)

/-- At most this many characters. -/
def charsLossy : ℕ → List UInt8 → List Char
  | 0, _ => []
  | _ + 1, [] => []
  | n + 1, lead :: rest =>
    (nextCharLossy lead rest).2 :: charsLossy n (rest.drop ((nextCharLossy lead rest).1 - 1))

/-- `String::from_utf8_lossy`. -/
def fromUtf8Lossy (bytes : List UInt8) : String := String.ofList (charsLossy bytes.length bytes)

/-- A truncated character and a stray byte become one replacement character each. -/
example : fromUtf8Lossy [0x41, 0xE2, 0x82, 0x42, 0xFF, 0xC3, 0xA9] = "A\uFFFDB\uFFFDé" := by
  decide +kernel

/-! ### Items -/

/-- An extended data item. -/
structure EventHeaderExtendedDataItem where
  extType : UInt16
  /-- The `DataSize` bytes at `DataPtr`, unless that is null. -/
  data : Option (List UInt8)
  /-- `DataSize` is a `u16`. -/
  data_le : ∀ blob ∈ data, blob.length ≤ 65535

namespace EventHeaderExtendedDataItem

/-- The item holds the metadata of a TraceLogging event. -/
def isTlg (item : EventHeaderExtendedDataItem) : Bool :=
  item.extType == eventHeaderExtTypeEventSchemaTl

/-- What follows the tags in the declared metadata: the name, its NUL, and the field
descriptors. The tags end with the first byte whose high bit is clear. -/
def afterTags (blob : List UInt8) : Option (List UInt8) :=
  let size := min (leValue (blob.take 2)) blob.length
  let tagsEnd := 2 + ((range 2 size blob).takeWhile (fun b => b &&& 0x80 != 0)).length
  if size ≤ tagsEnd then none else some (range (tagsEnd + 1) size blob)

/-- `get_event_name`. -/
def getEventName (item : EventHeaderExtendedDataItem) : Option String :=
  match item.data with
  | none => none
  | some blob =>
    if blob.length < 2 then none
    else
      match afterTags blob with
      | none => none
      | some name =>
        match memchr 0 name with
        | none => none
        | some nameLen => some (fromUtf8Lossy (name.take nameLen))

end EventHeaderExtendedDataItem

/-! ### Descriptors -/

/-- An `EVENT_RECORD`, with the fields that identify the event. -/
structure DescribedRecord extends EventRecord where
  providerId : Guid
  eventId : UInt16
  opcode : UInt8
  version : UInt8
  level : UInt8
  /-- The extended data. -/
  items : List EventHeaderExtendedDataItem
  /-- They are the record's. -/
  items_extType : items.map (·.extType) = extendedData

/-- `event_name_cow`. -/
def DescribedRecord.eventNameCow (event : DescribedRecord) : String :=
  if event.eventId ≠ 0 then ""
  else
    match event.items.find? (·.isTlg) with
    | some item => item.getEventName.getD ""
    | none => ""

end Ferrisetw2
