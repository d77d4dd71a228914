import Ferrisetw2.Native.ExtendedItems
import Ferrisetw2.Native.Timestamps
import Ferrisetw2.Ser.Lenient
import Ferrisetw2.Ser.Strict

/-!
# The record serializer

A whole event is written as one document: the names of its schema, its header, its extended data and
its properties. Options say which of these are there, and whether something that cannot be written
fails the document or is left out. `ser.rs`, and the options of `EventSerializer`.

Extended data comes before the properties, so a strict run that refuses an item has not moved the
parser.

## Main definitions

* `EventSerializerOptions`, `HeadedRecord`, `NamedSchema`, `RecordError`
* `schemaSer`, `headerSer`, `extendedSer`, `recordSer` — the serializers
* `readSchema`, `readHeader`, `readExtended` — the documents, read back
* `RecordWritten` — what a document holds

## Main results

* `recordSer_reads_back` — a document holds what the options ask for, and nothing else
* `recordSer_strict_iff` — when a strict run writes a document, and which
-/

namespace Ferrisetw2

open Rust

/-! ### Records -/

/-- `EventSerializerOptions`, with its defaults. -/
structure EventSerializerOptions where
  includeSchema : Bool := true
  includeHeader : Bool := true
  includeExtendedData : Bool := false
  failUnimplemented : Bool := false

/-- `EVENT_DESCRIPTOR`. -/
structure EventDescriptor where
  id : UInt16
  version : UInt8
  channel : UInt8
  level : UInt8
  opcode : UInt8
  task : UInt16
  keyword : UInt64
  deriving DecidableEq, Repr

/-- The fields of an `EVENT_HEADER` that are written. -/
structure EventHeader where
  size : UInt16
  headerType : UInt16
  flags : UInt16
  eventProperty : UInt16
  threadId : UInt32
  processId : UInt32
  timeStamp : Int64
  providerId : Guid
  activityId : Guid
  eventDescriptor : EventDescriptor

/-- An `EVENT_RECORD`, with its header and its extended data. -/
structure HeadedRecord extends EventRecord where
  header : EventHeader
  header_flags : header.flags = eventFlags
  items : List EventHeaderExtendedDataItem
  items_extType : items.map (·.extType) = extendedData

/-- A schema, with the names its `OnceLock`s hold. -/
structure NamedSchema extends Schema where
  providerName : String
  opcodeName : String
  taskName : String

/-- The errors of `EventSerializer::serialize`. -/
inductive RecordError where
  | event (e : SerError)
  /-- `not implemented extended data ExtType {n}`. -/
  | extType (n : UInt16)
  | sddl (e : SddlNativeError)

/-! ### The serializers -/

/-- `char::is_whitespace`. -/
def isWhitespace (c : Char) : Bool :=
  0x09 ≤ c.val && c.val ≤ 0x0D || 0x2000 ≤ c.val && c.val ≤ 0x200A ||
    c.val ∈ [0x20, 0x85, 0xA0, 0x1680, 0x2028, 0x2029, 0x202F, 0x205F, 0x3000]

/-- `str::trim`. -/
def strTrim (s : String) : String := String.ofList (trim isWhitespace s.toList)

/-- A string. -/
def stringSer (s : String) : SerValue := .leaf (.string s)

/-- `SchemaSer`. -/
def schemaSer (schema : NamedSchema) : SerValue :=
  .map [("Provider", stringSer (strTrim schema.providerName)),
    ("Opcode", stringSer (strTrim schema.opcodeName)),
    ("Task", stringSer (strTrim schema.taskName))]

/-- `DescriptorSer`. -/
def descriptorSer (descriptor : EventDescriptor) : SerValue :=
  .map [("Id", scalarValue ⟨.u16, descriptor.id.toNat⟩),
    ("Version", scalarValue ⟨.u8, descriptor.version.toNat⟩),
    ("Channel", scalarValue ⟨.u8, descriptor.channel.toNat⟩),
    ("Level", scalarValue ⟨.u8, descriptor.level.toNat⟩),
    ("Opcode", scalarValue ⟨.u8, descriptor.opcode.toNat⟩),
    ("Task", scalarValue ⟨.u16, descriptor.task.toNat⟩),
    ("Keyword", scalarValue ⟨.u64, descriptor.keyword.toNat⟩)]

/-- `FileTime::serialize`, without the `time_rs` feature: a unix timestamp. -/
def fileTimeSer (t : Target) (ft : FileTime) : Checked SerValue := do
  let timestamp ← ft.asUnixTimestamp t
  .ok (scalarValue ⟨.i64, (BitVec.ofInt 64 timestamp).toNat⟩)

/-- `HeaderSer`. -/
def headerSer (t : Target) (header : EventHeader) : Checked SerValue := do
  let timeStamp ← fileTimeSer t (FileTime.fromQuad header.timeStamp.toInt)
  .ok (.map [("Size", scalarValue ⟨.u16, header.size.toNat⟩),
    ("HeaderType", scalarValue ⟨.u16, header.headerType.toNat⟩),
    ("Flags", scalarValue ⟨.u16, header.flags.toNat⟩),
    ("EventProperty", scalarValue ⟨.u16, header.eventProperty.toNat⟩),
    ("ThreadId", scalarValue ⟨.u32, header.threadId.toNat⟩),
    ("ProcessId", scalarValue ⟨.u32, header.processId.toNat⟩),
    ("TimeStamp", timeStamp),
    ("ProviderId", .leaf (.guid header.providerId)),
    ("ActivityId", .leaf (.guid header.activityId)),
    ("Descriptor", descriptorSer header.eventDescriptor)])

/-- The two fields of an `ExtendedDataItem`. -/
def typeData (type : String) (data : SerValue) : SerValue :=
  .map [("Type", stringSer type), ("Data", data)]

/-- `InstanceInfoSer`. -/
def instanceInfoSer (info : EventExtendedItemInstance) : SerValue :=
  .map [("InstanceId", scalarValue ⟨.u32, info.instanceId.toNat⟩),
    ("ParentInstanceId", scalarValue ⟨.u32, info.parentInstanceId.toNat⟩),
    ("ParentGuid", .leaf (.guid info.parentGuid))]

/-- `StackTraceSer`, for addresses of that type. -/
def stackTraceSer {Address : Type} (ty : Primitive) (toNat : Address → ℕ)
    (trace : StackTraceItem Address) : SerValue :=
  .map [("MatchId", scalarValue ⟨.u64, trace.matchId.toNat⟩),
    ("Addresses", scalarsValue (trace.addresses.map fun address => ⟨ty, toNat address⟩))]

/-- `ExtendedDataItemSer`. -/
def extendedDataItemSer (N : Natives) : ExtendedDataItem → Except RecordError SerValue
  | .unsupported => .ok (typeData "Unsupported" .null)
  | .relatedActivityId guid => .ok (typeData "RelatedActivityId" (.leaf (.guid guid)))
  | .sid sid =>
    match N.convertSidToString sid.data with
    | .ok sddl => .ok (typeData "Sid" (stringSer sddl))
    | .error e => .error (.sddl e)
  | .tsId id => .ok (typeData "TsId" (scalarValue ⟨.u32, id.toNat⟩))
  | .instanceInfo info => .ok (typeData "InstanceInfo" (instanceInfoSer info))
  | .stackTrace32 trace => .ok (typeData "StackTrace32" (stackTraceSer .u32 UInt32.toNat trace))
  | .stackTrace64 trace => .ok (typeData "StackTrace64" (stackTraceSer .u64 UInt64.toNat trace))
  | .traceLogging name => .ok (typeData "TraceLogging" (stringSer name))
  | .provTraits bytes =>
    .ok (typeData "ProvTraits" (scalarsValue (bytes.map fun b => ⟨.u8, b.toNat⟩)))
  | .containerId guid => .ok (typeData "ContainerId" (.leaf (.guid guid)))
  | .eventKey key => .ok (typeData "EventKey" (scalarValue ⟨.u64, key.toNat⟩))
  | .processStartKey key => .ok (typeData "ProcessStartKey" (scalarValue ⟨.u64, key.toNat⟩))

/-- The body of the loop of `ExtendedSer::serialize`: the element that is written, or none. -/
def extendedElement (N : Natives) (strict : Bool) (item : EventHeaderExtendedDataItem) :
    Outcome RecordError (Option SerValue) :=
  match item.toExtendedDataItem with
  | .error p => .error (.panic p)
  | .ok .unsupported => if strict then .error (.error (.extType item.extType)) else .ok none
  | .ok (.sid sid) =>
    match N.convertSidToString sid.data with
    | .ok sddl => .ok (some (typeData "Sid" (stringSer sddl)))
    | .error e => if strict then .error (.error (.sddl e)) else .ok none
  | .ok data =>
    match extendedDataItemSer N data with
    | .ok v => .ok (some v)
    | .error e => .error (.error e)

/-- The loop of `ExtendedSer::serialize`, with these items to go and `seq` written. -/
def extendedSer (N : Natives) (strict : Bool) :
    List EventHeaderExtendedDataItem → List SerValue → Outcome RecordError (List SerValue)
  | [], seq => .ok seq
  | item :: items, seq =>
    match extendedElement N strict item with
    | .error e => .error e
    | .ok element => extendedSer N strict items (seq ++ element.toList)

/-- An error of the properties is one of the document. -/
def eventField (r : Outcome SerError SerValue × ParserState) :
    Outcome RecordError SerValue × ParserState :=
  match r with
  | (.ok v, s) => (.ok v, s)
  | (.error (.error e), s) => (.error (.error (.event e)), s)
  | (.error (.panic p), s) => (.error (.panic p), s)

/-- The `Schema` field of `EventSerializer::serialize`. -/
def schemaField (options : EventSerializerOptions) (schema : NamedSchema) : SerMap :=
  if options.includeSchema then [("Schema", schemaSer schema)] else []

/-- The `Header` field of `EventSerializer::serialize`. -/
def headerField (t : Target) (options : EventSerializerOptions) (header : EventHeader) :
    Outcome RecordError SerMap :=
  if options.includeHeader then
    match headerSer t header with
    | .error p => .error (.panic p)
    | .ok v => .ok [("Header", v)]
  else .ok []

/-- The `Extended` field of `EventSerializer::serialize`. -/
def extendedField (options : EventSerializerOptions) (N : Natives)
    (items : List EventHeaderExtendedDataItem) : Outcome RecordError SerMap :=
  if options.includeExtendedData then
    match extendedSer N options.failUnimplemented items [] with
    | .error e => .error e
    | .ok seq => .ok [("Extended", .seq seq)]
  else .ok []

/-- `EventSerializer::serialize`. A field that is skipped is not there. -/
def recordSer (options : EventSerializerOptions) (P : Parser) (N : Natives) (record : HeadedRecord)
    (schema : NamedSchema) (s : ParserState) : Outcome RecordError SerValue × ParserState :=
  andThen (headerField P.target options record.header, s) fun header s =>
    andThen (extendedField options N record.items, s) fun extended s =>
      andThen (eventField (eventSer P N options.failUnimplemented s)) fun event s =>
        (.ok (.map (schemaField options schema ++ header ++ extended ++ [("Event", event)])), s)

/-! ### Reading a document -/

namespace SerValue

/-- The value of a field. -/
def field (name : String) : SerValue → Option SerValue
  | .map entries => entries.lookup name
  | _ => none

/-- The names of the fields. -/
def fieldNames : SerValue → Option (List String)
  | .map entries => some (entries.map Prod.fst)
  | _ => none

/-- A number of that type. -/
def number (ty : Primitive) : SerValue → Option ℕ
  | .leaf (.scalar v) => if v.ty = ty then some v.bits else none
  | _ => none

/-- A string. -/
def text : SerValue → Option String
  | .leaf (.string s) => some s
  | _ => none

/-- A GUID. -/
def guid : SerValue → Option Guid
  | .leaf (.guid v) => some v
  | _ => none

/-- A `TimeStamp`, in the ticks it was made from. -/
def timeStamp (v : SerValue) : Option Int64 := do
  let timestamp := (BitVec.ofNat 64 (← v.number .i64)).toInt
  some (Int64.ofInt ((timestamp + secondsBetween1601And1970 * msInSecond) * 10000))

/-- The numbers of a sequence. -/
def numbers (ty : Primitive) : SerValue → Option (List ℕ)
  | .seq vs => vs.mapM (number ty)
  | _ => none

end SerValue

/-- The names of a schema. -/
def readSchema (v : SerValue) : Option (String × String × String) := do
  let provider ← (← v.field "Provider").text
  let opcode ← (← v.field "Opcode").text
  let task ← (← v.field "Task").text
  some (provider, opcode, task)

/-- A descriptor. -/
def readDescriptor (v : SerValue) : Option EventDescriptor := do
  let id ← (← v.field "Id").number .u16
  let version ← (← v.field "Version").number .u8
  let channel ← (← v.field "Channel").number .u8
  let level ← (← v.field "Level").number .u8
  let opcode ← (← v.field "Opcode").number .u8
  let task ← (← v.field "Task").number .u16
  let keyword ← (← v.field "Keyword").number .u64
  some ⟨.ofNat id, .ofNat version, .ofNat channel, .ofNat level, .ofNat opcode, .ofNat task,
    .ofNat keyword⟩

/-- A header. -/
def readHeader (v : SerValue) : Option EventHeader := do
  let size ← (← v.field "Size").number .u16
  let headerType ← (← v.field "HeaderType").number .u16
  let flags ← (← v.field "Flags").number .u16
  let eventProperty ← (← v.field "EventProperty").number .u16
  let threadId ← (← v.field "ThreadId").number .u32
  let processId ← (← v.field "ProcessId").number .u32
  let timeStamp ← (← v.field "TimeStamp").timeStamp
  let providerId ← (← v.field "ProviderId").guid
  let activityId ← (← v.field "ActivityId").guid
  let descriptor ← readDescriptor (← v.field "Descriptor")
  some ⟨.ofNat size, .ofNat headerType, .ofNat flags, .ofNat eventProperty, .ofNat threadId,
    .ofNat processId, timeStamp, providerId, activityId, descriptor⟩

/-- An instance. -/
def readInstanceInfo (v : SerValue) : Option EventExtendedItemInstance := do
  let instanceId ← (← v.field "InstanceId").number .u32
  let parentInstanceId ← (← v.field "ParentInstanceId").number .u32
  let parentGuid ← (← v.field "ParentGuid").guid
  some ⟨.ofNat instanceId, .ofNat parentInstanceId, parentGuid⟩

/-- A stack trace, for addresses of that type. -/
def readStackTrace {Address : Type} (ty : Primitive) (ofNat : ℕ → Address) (v : SerValue) :
    Option (StackTraceItem Address) := do
  let matchId ← (← v.field "MatchId").number .u64
  let addresses ← (← v.field "Addresses").numbers ty
  some ⟨.ofNat matchId, addresses.map ofNat⟩

/-- What an element of `Extended` is read as. A SID is there by its text. -/
inductive WrittenItem where
  | sddl (text : String)
  | item (data : ExtendedDataItem)
  deriving DecidableEq, Repr

/-- The payload of an element of `Extended` with this `Type`. -/
def readData (type : String) (data : SerValue) : Option WrittenItem :=
  match type with
  | "Sid" => data.text.map .sddl
  | "RelatedActivityId" => data.guid.map fun guid => .item (.relatedActivityId guid)
  | "TsId" => (data.number .u32).map fun id => .item (.tsId (.ofNat id))
  | "InstanceInfo" => (readInstanceInfo data).map fun info => .item (.instanceInfo info)
  | "StackTrace32" =>
    (readStackTrace .u32 UInt32.ofNat data).map fun trace => .item (.stackTrace32 trace)
  | "StackTrace64" =>
    (readStackTrace .u64 UInt64.ofNat data).map fun trace => .item (.stackTrace64 trace)
  | "TraceLogging" => data.text.map fun name => .item (.traceLogging name)
  | "ProvTraits" => (data.numbers .u8).map fun bytes => .item (.provTraits (bytes.map UInt8.ofNat))
  | "ContainerId" => data.guid.map fun guid => .item (.containerId guid)
  | "EventKey" => (data.number .u64).map fun key => .item (.eventKey (.ofNat key))
  | "ProcessStartKey" => (data.number .u64).map fun key => .item (.processStartKey (.ofNat key))
  | _ => none

/-- An element of `Extended`. -/
def readElement (v : SerValue) : Option WrittenItem := do
  readData (← (← v.field "Type").text) (← v.field "Data")

/-- The `Extended` field. -/
def readExtended : SerValue → Option (List WrittenItem)
  | .seq elements => elements.mapM readElement
  | _ => none

/-! ### Reading what was written -/

@[simp] theorem number_scalarValue (ty : Primitive) (n : ℕ) :
    (scalarValue ⟨ty, n⟩).number ty = some n := if_pos rfl

@[simp] theorem text_stringSer (s : String) : (stringSer s).text = some s := rfl

/-- A sequence of numbers is read back. -/
@[simp] theorem numbers_scalarsValue {α : Type} (ty : Primitive) (toNat : α → ℕ) (xs : List α) :
    (scalarsValue (xs.map fun x => ⟨ty, toNat x⟩)).numbers ty = some (xs.map toNat) := by
  rw [scalarsValue, SerValue.numbers, List.map_map]
  induction xs with
  | nil => rfl
  | cons x xs ih =>
    rw [List.map_cons, List.mapM_cons, ih]
    exact congrArg (· >>= fun n => some (n :: xs.map toNat)) (number_scalarValue ty (toNat x))

/-- A time stamp is read back up to its millisecond. -/
theorem timeStamp_fileTimeSer (t : Target) (quad : Int64) :
    ∃ v read, fileTimeSer t (FileTime.fromQuad quad.toInt) = .ok v ∧ v.timeStamp = some read ∧
      |read.toInt - quad.toInt| < 10000 := by
  have hfits : Fits i64Max quad.toInt := ⟨quad.le_toInt, Int.le_of_lt_add_one quad.toInt_lt⟩
  have hmin := quad.le_toInt
  have hmax := quad.toInt_lt
  have hdiv := @Int.tdiv_eq_ediv quad.toInt 10000
  have hsign : Int.sign 10000 = 1 := rfl
  have hepoch : secondsBetween1601And1970 * msInSecond = 11644473600000 := rfl
  obtain ⟨ms, hms⟩ : ∃ ms, quad.toInt.tdiv 10000 = ms := ⟨_, rfl⟩
  rw [hsign, hms] at hdiv
  have hbits : (BitVec.ofNat 64 (BitVec.ofInt 64 (ms - 11644473600000)).toNat).toInt =
      ms - 11644473600000 := by
    rw [BitVec.ofNat_toNat, BitVec.setWidth_eq]
    refine BitVec.toInt_ofInt_eq_self (by decide) ?_ ?_
    · split at hdiv <;> omega
    · split at hdiv <;> omega
  refine ⟨scalarValue ⟨.i64, (BitVec.ofInt 64 (ms - 11644473600000)).toNat⟩,
    Int64.ofInt (ms * 10000), ?_, ?_, ?_⟩
  · rw [fileTimeSer, FileTime.asUnixTimestamp, FileTime.asQuad_fromQuad hfits,
      unixTimestamp_of_fits t hfits, hms]
    rfl
  · rw [SerValue.timeStamp, number_scalarValue]
    show some (Int64.ofInt (((BitVec.ofNat 64 _).toInt + _) * 10000)) = _
    rw [hbits, hepoch, Int.sub_add_cancel]
  · rw [Int64.toInt_ofInt_of_le (by split at hdiv <;> omega) (by split at hdiv <;> omega), abs_lt]
    split at hdiv <;> omega

theorem readSchema_schemaSer (schema : NamedSchema) : readSchema (schemaSer schema) =
    some (strTrim schema.providerName, strTrim schema.opcodeName, strTrim schema.taskName) := rfl

@[simp] theorem readDescriptor_descriptorSer (descriptor : EventDescriptor) :
    readDescriptor (descriptorSer descriptor) = some descriptor := by
  simp [readDescriptor, descriptorSer, SerValue.field, List.lookup_cons]

/-- A header that is read back as it was, its time stamp to the millisecond. -/
def EventHeader.ReadsBackAs (read header : EventHeader) : Prop :=
  read = { header with timeStamp := read.timeStamp } ∧
    |read.timeStamp.toInt - header.timeStamp.toInt| < 10000

theorem readHeader_headerSer (t : Target) (header : EventHeader) :
    ∃ v read, headerSer t header = .ok v ∧ readHeader v = some read ∧
      read.ReadsBackAs header := by
  obtain ⟨v, read, hser, hread, hclose⟩ := timeStamp_fileTimeSer t header.timeStamp
  refine ⟨_, { header with timeStamp := read }, by rw [headerSer, hser]; rfl, ?_, rfl, hclose⟩
  simp [readHeader, SerValue.field, List.lookup_cons, SerValue.guid, hread]

@[simp] theorem readInstanceInfo_instanceInfoSer (info : EventExtendedItemInstance) :
    readInstanceInfo (instanceInfoSer info) = some info := by
  simp [readInstanceInfo, instanceInfoSer, SerValue.field, List.lookup_cons, SerValue.guid]

/-- A stack trace is read back, when its addresses are. -/
theorem readStackTrace_stackTraceSer {Address : Type} {ty : Primitive} {toNat : Address → ℕ}
    {ofNat : ℕ → Address} (hread : ∀ address, ofNat (toNat address) = address)
    (trace : StackTraceItem Address) :
    readStackTrace ty ofNat (stackTraceSer ty toNat trace) = some trace := by
  have haddresses : (trace.addresses.map toNat).map ofNat = trace.addresses := by
    rw [List.map_map]
    exact (List.map_congr_left fun address _ => hread address).trans (List.map_id _)
  simp [readStackTrace, stackTraceSer, SerValue.field, List.lookup_cons, haddresses]

/-! ### Extended data -/

/-- What an item should be read back as, if it can be written: it is supported, and a SID has a
text. -/
def EventHeaderExtendedDataItem.written (N : Natives) (item : EventHeaderExtendedDataItem) :
    Except RecordError WrittenItem :=
  match item.toExtendedDataItem with
  | .ok (.sid sid) =>
    match N.convertSidToString sid.data with
    | .ok sddl => .ok (.sddl sddl)
    | .error e => .error (.sddl e)
  | .ok .unsupported => .error (.extType item.extType)
  | .ok data => .ok (.item data)
  | .error _ => .error (.extType item.extType)

theorem exists_toExtendedDataItem (item : EventHeaderExtendedDataItem) :
    ∃ data, item.toExtendedDataItem = .ok data := by
  unfold EventHeaderExtendedDataItem.toExtendedDataItem
  split
  · exact ⟨_, rfl⟩
  · rename_i blob hdata
    exact (itemOf_spec (eventNameOf_eq hdata) item.extType).exists_eq_ok

@[simp] theorem readElement_typeData (type : String) (data : SerValue) :
    readElement (typeData type data) = readData type data := rfl

/-- Anything else than a SID is read back as it is. -/
theorem readElement_extendedDataItemSer (N : Natives) {data : ExtendedDataItem}
    (hunsupported : data ≠ .unsupported) (hsid : ∀ sid, data ≠ .sid sid) :
    ∃ v, extendedDataItemSer N data = .ok v ∧ readElement v = some (.item data) := by
  cases data with
  | unsupported => exact absurd rfl hunsupported
  | sid sid => exact absurd rfl (hsid sid)
  | relatedActivityId guid => exact ⟨_, rfl, rfl⟩
  | containerId guid => exact ⟨_, rfl, rfl⟩
  | traceLogging name => exact ⟨_, rfl, rfl⟩
  | tsId id => exact ⟨_, rfl, by simp [readData]⟩
  | eventKey key => exact ⟨_, rfl, by simp [readData]⟩
  | processStartKey key => exact ⟨_, rfl, by simp [readData]⟩
  | instanceInfo info => exact ⟨_, rfl, by simp [readData]⟩
  | provTraits bytes => exact ⟨_, rfl, by simp [readData, Function.comp_def]⟩
  | stackTrace32 trace =>
    have hread : readStackTrace .u32 UInt32.ofNat (stackTraceSer .u32 UInt32.toNat trace) =
        some trace := readStackTrace_stackTraceSer (fun _ => UInt32.ofNat_toNat) trace
    exact ⟨_, rfl, by simp [readData, hread]⟩
  | stackTrace64 trace =>
    have hread : readStackTrace .u64 UInt64.ofNat (stackTraceSer .u64 UInt64.toNat trace) =
        some trace := readStackTrace_stackTraceSer (fun _ => UInt64.ofNat_toNat) trace
    exact ⟨_, rfl, by simp [readData, hread]⟩

/-- **An item that can be written is, in either mode, and is read back.** Otherwise a strict run
fails with its error, and a lenient one goes on. -/
theorem extendedElement_cases (N : Natives) (item : EventHeaderExtendedDataItem) :
    (∃ w v, item.written N = .ok w ∧ readElement v = some w ∧
      ∀ strict, extendedElement N strict item = .ok (some v)) ∨
    ∃ e, item.written N = .error e ∧ extendedElement N true item = .error (.error e) ∧
      extendedElement N false item = .ok none := by
  obtain ⟨data, hdata⟩ := exists_toExtendedDataItem item
  unfold extendedElement EventHeaderExtendedDataItem.written
  rw [hdata]
  by_cases hunsupported : data = .unsupported
  · subst hunsupported
    exact Or.inr ⟨_, rfl, rfl, rfl⟩
  by_cases hsid : ∃ sid, data = .sid sid
  · obtain ⟨sid, rfl⟩ := hsid
    cases htext : N.convertSidToString sid.data with
    | ok sddl => exact Or.inl ⟨.sddl sddl, typeData "Sid" (stringSer sddl), by simp [htext], rfl,
        fun strict => by simp [htext]⟩
    | error e => exact Or.inr ⟨.sddl e, by simp [htext], by simp [htext], by simp [htext]⟩
  · obtain ⟨v, hv, hread⟩ :=
      readElement_extendedDataItemSer N hunsupported (fun sid h => hsid ⟨sid, h⟩)
    refine Or.inl ⟨.item data, v, ?_, hread, fun strict => ?_⟩
    · cases data <;> simp_all
    · cases data <;> simp_all

/-- The items that can be written, as they should be read back. -/
def writtenItems (N : Natives) (items : List EventHeaderExtendedDataItem) : List WrittenItem :=
  items.filterMap fun item => (item.written N).toOption

/-- Why an item cannot be written. -/
def EventHeaderExtendedDataItem.refusal (N : Natives) (item : EventHeaderExtendedDataItem) :
    Option RecordError :=
  match item.written N with
  | .ok _ => none
  | .error e => some e

/-- The error of the first item that cannot be written. -/
def refused (N : Natives) (items : List EventHeaderExtendedDataItem) : Option RecordError :=
  items.findSome? (·.refusal N)

theorem refused_eq_none_iff {N : Natives} {items : List EventHeaderExtendedDataItem} :
    refused N items = none ↔ ∀ item ∈ items, ∃ w, item.written N = .ok w := by
  rw [refused, List.findSome?_eq_none_iff]
  refine forall₂_congr fun item _ => ?_
  rw [EventHeaderExtendedDataItem.refusal]
  cases item.written N with
  | ok w => simp
  | error e => simp

/-- The first item that cannot be written. -/
theorem refused_append_cons {N : Natives} {before after : List EventHeaderExtendedDataItem}
    {item : EventHeaderExtendedDataItem} {e : RecordError}
    (hbefore : ∀ i ∈ before, ∃ w, i.written N = .ok w) (h : item.written N = .error e) :
    refused N (before ++ item :: after) = some e := by
  have hnone := refused_eq_none_iff.mpr hbefore
  rw [refused] at hnone
  rw [refused, List.findSome?_append, hnone, List.findSome?_cons,
    EventHeaderExtendedDataItem.refusal, h]
  rfl

/-- **The items that can be written are, in order, and are read back.** A strict run writes the same
elements, or fails with the error of the first item that cannot be written. -/
theorem extendedSer_eq (N : Natives) (items : List EventHeaderExtendedDataItem) :
    ∃ vs, vs.mapM readElement = some (writtenItems N items) ∧ ∀ seq,
      extendedSer N false items seq = .ok (seq ++ vs) ∧
      extendedSer N true items seq =
        (refused N items).elim (.ok (seq ++ vs)) fun e => .error (.error e) := by
  induction items with
  | nil => exact ⟨[], rfl, fun seq => by simp [extendedSer, refused]⟩
  | cons item items ih =>
    obtain ⟨vs, hread, hsers⟩ := ih
    rcases extendedElement_cases N item with ⟨w, v, hw, hv, hser⟩ | ⟨e, he, hstrict, hlenient⟩
    · refine ⟨v :: vs, ?_, fun seq => ?_⟩
      · have hitems : writtenItems N (item :: items) = w :: writtenItems N items := by
          rw [writtenItems, List.filterMap_cons, hw]
          rfl
        rw [List.mapM_cons, hv, hread, hitems]
        rfl
      · have hrefused : refused N (item :: items) = refused N items := by
          rw [refused, List.findSome?_cons, EventHeaderExtendedDataItem.refusal, hw]
          rfl
        obtain ⟨hlenient, hstrict⟩ := hsers (seq ++ [v])
        rw [List.append_assoc, List.singleton_append] at hlenient hstrict
        exact ⟨by rw [extendedSer, hser]; exact hlenient,
          by rw [extendedSer, hser, hrefused]; exact hstrict⟩
    · refine ⟨vs, ?_, fun seq => ⟨?_, ?_⟩⟩
      · rw [hread, writtenItems, writtenItems, List.filterMap_cons, he]
        rfl
      · rw [extendedSer, hlenient]
        show extendedSer N false items (seq ++ []) = _
        rw [List.append_nil, (hsers seq).1]
      · have hrefused : refused N (item :: items) = some e := by
          rw [refused, List.findSome?_cons, EventHeaderExtendedDataItem.refusal, he]
        rw [extendedSer, hstrict, hrefused]
        rfl

/-! ### Documents -/

/-- The names of the fields of a document. -/
def EventSerializerOptions.fieldNames (options : EventSerializerOptions) : List String :=
  (if options.includeSchema then ["Schema"] else []) ++
    (if options.includeHeader then ["Header"] else []) ++
    (if options.includeExtendedData then ["Extended"] else []) ++ ["Event"]

/-- What a document holds, around the tree of the properties. -/
structure RecordWritten (options : EventSerializerOptions) (N : Natives) (record : HeadedRecord)
    (schema : NamedSchema) (event doc : SerValue) : Prop where
  /-- The fields that were asked for, in this order, and no others. -/
  names : doc.fieldNames = some options.fieldNames
  schema : options.includeSchema = true → (doc.field "Schema").bind readSchema =
    some (strTrim schema.providerName, strTrim schema.opcodeName, strTrim schema.taskName)
  header : options.includeHeader = true → ∃ read,
    (doc.field "Header").bind readHeader = some read ∧ read.ReadsBackAs record.header
  /-- The items that can be written, in order. -/
  extended : options.includeExtendedData = true →
    (doc.field "Extended").bind readExtended = some (writtenItems N record.items)
  event : doc.field "Event" = some event

theorem eventField_eq_ok_iff {r : Outcome SerError SerValue × ParserState} {v : SerValue}
    {s : ParserState} : eventField r = (.ok v, s) ↔ r = (.ok v, s) := by
  obtain ⟨(e | p) | v', s'⟩ := r
  · simp [eventField]
  · simp [eventField]
  · simp [eventField]

section

variable {options : EventSerializerOptions} {P : Parser} {N : Natives} {record : HeadedRecord}
  {schema : NamedSchema} {s s' : ParserState} {event doc : SerValue}

/-- The `Extended` field, where it is asked for, holds the items that can be written. A strict run
fails where one cannot. -/
theorem extendedField_eq (options : EventSerializerOptions) (N : Natives)
    (items : List EventHeaderExtendedDataItem) :
    ∃ v, readExtended v = some (writtenItems N items) ∧
      extendedField { options with failUnimplemented := false } N items =
        .ok (if options.includeExtendedData then [("Extended", v)] else []) ∧
      extendedField { options with failUnimplemented := true } N items =
        if options.includeExtendedData then
          (refused N items).elim (.ok [("Extended", v)]) fun e => .error (.error e)
        else .ok [] := by
  obtain ⟨vs, hread, hsers⟩ := extendedSer_eq N items
  obtain ⟨hlenient, hstrict⟩ := hsers []
  refine ⟨.seq vs, hread, ?_, ?_⟩
  · rw [extendedField]
    cases options.includeExtendedData with
    | false => rfl
    | true => simp [hlenient]
  · rw [extendedField]
    cases options.includeExtendedData with
    | false => rfl
    | true =>
      cases hrefused : refused N items with
      | none => simp [hstrict, hrefused]
      | some e => simp [hstrict, hrefused]

/-- The `Header` field is always written, and holds the header. -/
theorem headerField_eq (t : Target) (options : EventSerializerOptions) (header : EventHeader) :
    ∃ v read, readHeader v = some read ∧ read.ReadsBackAs header ∧
      headerField t options header =
        .ok (if options.includeHeader then [("Header", v)] else []) := by
  obtain ⟨v, read, hser, hread, hback⟩ := readHeader_headerSer t header
  refine ⟨v, read, hread, hback, ?_⟩
  rw [headerField, hser]
  split <;> rfl

/-- A document holds what its fields hold. -/
theorem recordWritten_map {v : SerValue} {read : EventHeader}
    (hheader : readHeader v = some read) (hback : read.ReadsBackAs record.header)
    {v' : SerValue} (hread : readExtended v' = some (writtenItems N record.items))
    (event : SerValue) :
    RecordWritten options N record schema event (.map (schemaField options schema ++
      (if options.includeHeader then [("Header", v)] else []) ++
      (if options.includeExtendedData then [("Extended", v')] else []) ++ [("Event", event)])) := by
  obtain ⟨includeSchema, includeHeader, includeExtendedData, failUnimplemented⟩ := options
  have hschema := readSchema_schemaSer schema
  cases includeSchema <;> cases includeHeader <;> cases includeExtendedData <;>
    constructor <;> simp [schemaField, SerValue.fieldNames, SerValue.field,
      EventSerializerOptions.fieldNames, List.lookup_cons, hschema, hheader, hback, hread]

/-- A document is written when its extended data and its properties are. -/
theorem recordSer_eq_ok_iff : recordSer options P N record schema s = (.ok doc, s') ↔
    ∃ header extended event, headerField P.target options record.header = .ok header ∧
      extendedField options N record.items = .ok extended ∧
      eventSer P N options.failUnimplemented s = (.ok event, s') ∧
      doc = .map (schemaField options schema ++ header ++ extended ++ [("Event", event)]) := by
  obtain ⟨v, read, -, -, hheader⟩ := headerField_eq P.target options record.header
  rw [recordSer, hheader, andThen_ok, andThen_eq_ok_iff]
  constructor
  · rintro ⟨extended, s₁, hfield, hrest⟩
    obtain ⟨hextended, rfl⟩ := Prod.mk.inj hfield
    obtain ⟨event, s₂, hevent, hout⟩ := andThen_eq_ok_iff.mp hrest
    obtain ⟨hdoc, rfl⟩ := Prod.mk.inj hout
    exact ⟨_, extended, event, rfl, hextended, eventField_eq_ok_iff.mp hevent,
      (Except.ok.inj hdoc).symm⟩
  · rintro ⟨header, extended, event, hok, hextended, hevent, rfl⟩
    obtain rfl := Except.ok.inj hok
    exact ⟨extended, s, by rw [hextended],
      andThen_eq_ok_iff.mpr ⟨event, s', eventField_eq_ok_iff.mpr hevent, rfl⟩⟩

/-- A lenient run writes the document that its properties end. -/
theorem recordSer_lenient_iff :
    (∃ doc, recordSer { options with failUnimplemented := false } P N record schema s =
      (.ok doc, s')) ↔ ∃ event, eventSer P N false s = (.ok event, s') := by
  obtain ⟨v, -, hextended, -⟩ := extendedField_eq options N record.items
  constructor
  · rintro ⟨doc, h⟩
    obtain ⟨-, -, event, -, -, hevent, -⟩ := recordSer_eq_ok_iff.mp h
    exact ⟨event, hevent⟩
  · rintro ⟨event, hevent⟩
    obtain ⟨v, read, -, -, hheader⟩ := headerField_eq P.target
      { options with failUnimplemented := false } record.header
    exact ⟨_, recordSer_eq_ok_iff.mpr ⟨_, _, event, hheader, hextended, hevent, rfl⟩⟩

/-- A lenient document holds what was asked for. -/
theorem recordWritten_of_lenient
    (h : recordSer { options with failUnimplemented := false } P N record schema s =
      (.ok doc, s')) :
    ∃ event, eventSer P N false s = (.ok event, s') ∧
      RecordWritten options N record schema event doc := by
  obtain ⟨v, read, hread, hback, hfield⟩ := headerField_eq P.target
    { options with failUnimplemented := false } record.header
  obtain ⟨v', hitems, hlenient, -⟩ := extendedField_eq options N record.items
  obtain ⟨header, extended, event, hheader, hextended, hevent, rfl⟩ := recordSer_eq_ok_iff.mp h
  obtain rfl := Except.ok.inj (hheader.symm.trans hfield)
  obtain rfl := Except.ok.inj (hextended.symm.trans hlenient)
  exact ⟨event, hevent, recordWritten_map hread hback hitems event⟩

/-- The properties of a strict run that succeeds are those of the lenient run. -/
theorem eventSer_lenient (h : eventSer P N true s = (.ok event, s')) :
    eventSer P N false s = (.ok event, s') := by
  obtain ⟨map, s₁, hmap, hout⟩ := andThen_eq_ok_iff.mp h
  exact andThen_eq_ok_iff.mpr ⟨map, s₁, eventEntries_lenient hmap, hout⟩

/-- Extended data fails a strict run before it reaches the properties. -/
theorem recordSer_of_refused {e : RecordError} (hinclude : options.includeExtendedData = true)
    (hrefused : refused N record.items = some e) :
    recordSer { options with failUnimplemented := true } P N record schema s =
      (.error (.error e), s) := by
  obtain ⟨v, -, -, hextended⟩ := extendedField_eq options N record.items
  rw [if_pos hinclude, hrefused] at hextended
  obtain ⟨v, read, -, -, hheader⟩ := headerField_eq P.target
    { options with failUnimplemented := true } record.header
  rw [recordSer, hheader, andThen_ok, hextended]
  rfl

/-- A strict run that passes its extended data writes what the lenient run writes. -/
theorem recordSer_strict_eq_ok_iff :
    recordSer { options with failUnimplemented := true } P N record schema s = (.ok doc, s') ↔
      (options.includeExtendedData = true → refused N record.items = none) ∧
      (∃ event, eventSer P N true s = (.ok event, s')) ∧
      recordSer { options with failUnimplemented := false } P N record schema s =
        (.ok doc, s') := by
  obtain ⟨v, -, hlenient, hstrict⟩ := extendedField_eq options N record.items
  have hfields : (options.includeExtendedData = true → refused N record.items = none) →
      extendedField { options with failUnimplemented := true } N record.items =
        .ok (if options.includeExtendedData then [("Extended", v)] else []) := by
    intro h
    rw [hstrict]
    split
    · rename_i hinclude
      rw [h hinclude]
      rfl
    · rfl
  constructor
  · intro h
    obtain ⟨header, extended, event, hheader, hextended, hevent, rfl⟩ :=
      recordSer_eq_ok_iff.mp h
    have hnone : options.includeExtendedData = true → refused N record.items = none := by
      intro hinclude
      cases hrefused : refused N record.items with
      | none => rfl
      | some e =>
        rw [recordSer_of_refused hinclude hrefused] at h
        cases (Prod.mk.inj h).1
    obtain rfl := Except.ok.inj (hextended.symm.trans (hfields hnone))
    exact ⟨hnone, ⟨event, hevent⟩,
      recordSer_eq_ok_iff.mpr ⟨header, _, event, hheader, hlenient, eventSer_lenient hevent, rfl⟩⟩
  · rintro ⟨hnone, ⟨event, hevent⟩, h⟩
    obtain ⟨header, extended, event', hheader, hextended, hevent', rfl⟩ :=
      recordSer_eq_ok_iff.mp h
    obtain rfl := Except.ok.inj (hextended.symm.trans hlenient)
    obtain ⟨hok, -⟩ := Prod.mk.inj ((eventSer_lenient hevent).symm.trans hevent')
    obtain rfl := Except.ok.inj hok
    exact recordSer_eq_ok_iff.mpr ⟨header, _, event, hheader, hfields hnone, hevent, rfl⟩

end

/-- **A document holds what the options ask for**, in either mode, whatever state the parser is in.
Its fields are those that were asked for, in order. The names of the schema are read back from it
without the blanks around them, the header as it was (its time stamp to the millisecond), and of
the extended data exactly the items that can be written, in order. Its last field is what the
properties were written as. -/
theorem recordSer_reads_back (options : EventSerializerOptions) (P : Parser) (N : Natives)
    (record : HeadedRecord) (schema : NamedSchema) (s s' : ParserState) (doc : SerValue)
    (h : recordSer options P N record schema s = (.ok doc, s')) :
    ∃ event, eventSer P N options.failUnimplemented s = (.ok event, s') ∧
      RecordWritten options N record schema event doc := by
  cases hstrict : options.failUnimplemented with
  | false =>
    have hself : { options with failUnimplemented := false } = options := by rw [← hstrict]
    exact recordWritten_of_lenient (hself.symm ▸ h)
  | true =>
    have hself : { options with failUnimplemented := true } = options := by rw [← hstrict]
    obtain ⟨-, ⟨event, hevent⟩, hlenient⟩ := recordSer_strict_eq_ok_iff.mp (hself.symm ▸ h)
    obtain ⟨event', hevent', hwritten⟩ := recordWritten_of_lenient hlenient
    obtain ⟨hok, -⟩ := Prod.mk.inj ((eventSer_lenient hevent).symm.trans hevent')
    obtain rfl := Except.ok.inj hok
    exact ⟨event, hevent, hwritten⟩

/-- A lenient document of an event with one property. Of its extended data, the second item is of a
type that is not supported. Its time stamp lies before the epoch of a `FILETIME`. -/
theorem recordSer_reads_back_items :
    let guid : Guid := ⟨0, 0, 0, List.replicate 8 0, rfl⟩
    let record : HeadedRecord :=
      { eventFlags := 0
        userData := 0
        userBuffer := [42]
        userBuffer_le := by decide
        extendedData := [3, 7]
        header := ⟨96, 0, 0, 0, 4, 8, -1, guid, guid, ⟨10, 1, 0, 4, 0, 0, 1⟩⟩
        header_flags := rfl
        items := [⟨3, some [7, 0, 0, 0], by simp⟩, ⟨7, some [1], by simp⟩]
        items_extType := rfl }
    let schema : NamedSchema :=
      { decodingSource := .decodingSourceXMLFile
        properties := [⟨"Count", .value .inTypeUInt8 .outTypeNull (.length 0)⟩]
        providerName := "Kernel-Process "
        opcodeName := ""
        taskName := "ProcessStart" }
    let options : EventSerializerOptions := { includeExtendedData := true }
    let P := Parser.create ⟨.b64, true⟩ (fun _ _ => .error .allocationError) record.toEventRecord
      schema.toSchema
    let N : Natives := ⟨fun _ => "", fun _ => .error .sidParseError⟩
    let s := Parser.createState record.toEventRecord schema.toSchema
    writtenItems N record.items = [.item (.tsId 7)] ∧
      ∃ s' doc event, eventSer P N false s = (.ok event, s') ∧
        RecordWritten options N record schema event doc := by
  intro guid record schema options P N s
  have hevent : eventSer P N false s = (.ok _, _) := rfl
  have hdoc : ∃ doc, recordSer { options with failUnimplemented := false } P N record schema s =
      (.ok doc, _) := recordSer_lenient_iff.mpr ⟨_, hevent⟩
  obtain ⟨doc, hdoc⟩ := hdoc
  exact ⟨rfl, _, doc, recordSer_reads_back options P N record schema s _ doc hdoc⟩

/-- **When a strict run writes a document, and which**: when no item of the extended data would be
left out and the properties can be written strictly, and then it writes what the lenient run does.
Otherwise the first item that would be left out is reported, and the parser has not moved. A lenient
run fails where its properties do, and nowhere else. -/
theorem recordSer_strict_iff (options : EventSerializerOptions) (P : Parser) (N : Natives)
    (record : HeadedRecord) (schema : NamedSchema) (s : ParserState) :
    let strict := { options with failUnimplemented := true }
    let lenient := { options with failUnimplemented := false }
    (∀ doc s', recordSer strict P N record schema s = (.ok doc, s') ↔
      (options.includeExtendedData = true → ∀ item ∈ record.items, ∃ w, item.written N = .ok w) ∧
      (∃ event, eventSer P N true s = (.ok event, s')) ∧
      recordSer lenient P N record schema s = (.ok doc, s')) ∧
    (∀ before item after e, options.includeExtendedData = true →
      record.items = before ++ item :: after → (∀ i ∈ before, ∃ w, i.written N = .ok w) →
      item.written N = .error e →
      recordSer strict P N record schema s = (.error (.error e), s)) ∧
    ∀ s', (∃ doc, recordSer lenient P N record schema s = (.ok doc, s')) ↔
      ∃ event, eventSer P N false s = (.ok event, s') := by
  intro strict lenient
  refine ⟨fun doc s' => ?_, fun before item after e hinclude hitems hbefore he => ?_,
    fun s' => recordSer_lenient_iff⟩
  · rw [← refused_eq_none_iff]
    exact recordSer_strict_eq_ok_iff
  · exact recordSer_of_refused hinclude (hitems ▸ refused_append_cons hbefore he)

end Ferrisetw2
