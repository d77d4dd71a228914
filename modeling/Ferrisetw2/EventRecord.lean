import Ferrisetw2.Native.TdhTypes

/-!
# Events

What the parser reads of an `EVENT_RECORD`, and of the schema of an event.
`event_record.rs`, `schema.rs`.

The user buffer carries its own bound: `UserDataLength` is a `u16`, so no record holds more than
65535 bytes of event data.
-/

namespace Ferrisetw2

open Rust

/-- `EVENT_HEADER_FLAG_32_BIT_HEADER`. -/
def eventHeaderFlag32BitHeader : UInt16 := 32

/-- The fields of an `EVENT_RECORD` that decoding reads. -/
structure EventRecord where
  /-- `EventHeader.Flags`. -/
  eventFlags : UInt16
  /-- Address of the user buffer. -/
  userData : ℕ
  /-- The user buffer. -/
  userBuffer : List UInt8
  /-- Its length is `UserDataLength`. -/
  userBuffer_le : userBuffer.length ≤ 65535
  /-- The `ExtType` of every extended data item. -/
  extendedData : List UInt16

namespace EventRecord

/-- Pointer size of the event's producer, in bytes. -/
def pointerSize (r : EventRecord) : ℕ :=
  if r.eventFlags &&& eventHeaderFlag32BitHeader ≠ 0 then 4 else 8

theorem pointerSize_le (r : EventRecord) : r.pointerSize ≤ 8 := by
  unfold pointerSize
  split <;> omega

/-- The whole user buffer, as a slice. -/
def userSlice (r : EventRecord) : Slice := ⟨0, r.userBuffer⟩

end EventRecord

/-- Where a schema came from. -/
inductive DecodingSource where
  | decodingSourceXMLFile
  | decodingSourceWbem
  | decodingSourceWPP
  | decodingSourceTlg
  | decodingSourceMax
  deriving DecidableEq, Repr

/-- What the parser reads of a schema. -/
structure Schema where
  decodingSource : DecodingSource
  /-- The top-level properties, in schema order. -/
  properties : List Property

end Ferrisetw2
