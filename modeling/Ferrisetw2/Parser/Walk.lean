import Ferrisetw2.Lib.CallMachine
import Ferrisetw2.Parser.Size

/-!
# The buffer walk and its cache

`Parser` locates properties by walking the user buffer in schema order, and remembers what it has
located. Two entry points share the cache: `find_property` looks a name up, `property_bytes_at`
takes a position. Both extend the cache through `parse_next_property`, which locates one more
property or fails and leaves the cache alone.

## TDH

The fallback is an oracle, and it may answer differently every time: it sees the calls made before.
`ParserState` keeps those calls, so "TDH is not consulted" is a statement about the state.

## Loops

`while cache.slices.len() <= index` and `while cache.slices.len() < self.properties.len()` run
`parse_next_property`, which pushes exactly one slice when it succeeds
(`Parser.parseNextProperty_cases`). The number of passes is therefore known beforehand, and the
loops are recursions on it.

## Main definitions

* `CachedSlices`, `ParserState`, `Parser`, `Parser.create`
* `Parser.parseNextProperty`, `Parser.findProperty`, `Parser.propertyBytesAt`
* `Call`, `Answer`, `Parser.call` — the parser as a machine answering calls

## Main results

* `Parser.parseNextProperty_cases` — all that one step of the walk can do
-/

namespace Ferrisetw2

open Rust

/-! ### State -/

/-- `CachedSlices`. -/
structure CachedSlices where
  /-- The located properties, in schema order. -/
  slices : List PropertySlice
  /-- Where the next name lookup starts probing. -/
  nextProbe : ℕ
  /-- The user buffer index cached up to. -/
  lastCachedOffset : ℕ
  /-- Where the values start, or `none` when the layout is not supported. -/
  dataStart : Option ℕ

/-- The mutable state of a parser: its cache, and the TDH calls made so far. -/
structure ParserState where
  cache : CachedSlices
  tdhCalls : List Property

/-- `Parser`, with the environment it runs in: the target, and TDH. -/
structure Parser where
  target : Target
  properties : List Property
  record : EventRecord
  /-- `tdh::property_size`, given the properties asked for before. -/
  tdh : List Property → Property → Except TdhNativeError UInt32

/-- `EVENT_HEADER_EXT_TYPE_EVENT_SCHEMA_TL`. -/
def eventHeaderExtTypeEventSchemaTl : UInt16 := 11

/-- `EVENT_HEADER_EXT_TYPE_PROV_TRAITS`. -/
def eventHeaderExtTypeProvTraits : UInt16 := 12

/-- `property_values_start`: where the property values start within the user buffer. -/
def propertyValuesStart (record : EventRecord) (schema : Schema) : Option ℕ :=
  if schema.decodingSource ≠ .decodingSourceTlg then some 0
  else if record.extendedData.any fun ty =>
      ty = eventHeaderExtTypeEventSchemaTl ∨ ty = eventHeaderExtTypeProvTraits then some 0
  else none

/-- The sizing code asks TDH. -/
def Sizing.asks : Checked Sizing → Bool
  | .ok .tdh => true
  | _ => false

namespace Parser

/-- `Parser::create`: the parser. -/
def create (target : Target) (tdh : List Property → Property → Except TdhNativeError UInt32)
    (record : EventRecord) (schema : Schema) : Parser :=
  ⟨target, schema.properties, record, tdh⟩

/-- `Parser::create`: its cache. -/
def createState (record : EventRecord) (schema : Schema) : ParserState :=
  ⟨⟨[], 0, 0, propertyValuesStart record schema⟩, []⟩

/-! ### One step of the walk -/

/-- `tdh_property_size`. -/
def tdhPropertySize (P : Parser) (property : Property) (s : ParserState) :
    Outcome ParserError ℕ × ParserState :=
  let s' := { s with tdhCalls := s.tdhCalls ++ [property] }
  match P.tdh s.tdhCalls property with
  | .ok size => (.ok size.toNat, s')
  | .error e => (.error (.error (.tdhNativeError e)), s')

/-- `find_property_size`. -/
def findPropertySize (P : Parser) (property : Property) (remaining : List UInt8)
    (s : ParserState) : Outcome ParserError ℕ × ParserState :=
  match Ferrisetw2.findPropertySize P.target P.record.pointerSize property s.cache.slices
      remaining with
  | .error p => (.error (.panic p), s)
  | .ok (.size n) => (.ok n, s)
  | .ok (.error e) => (.error (.error e), s)
  | .ok .tdh => P.tdhPropertySize property s

/-- The cache with one more slice. -/
def push (s : ParserState) (slice : PropertySlice) : ParserState :=
  { s with cache := { s.cache with
      slices := s.cache.slices ++ [slice]
      lastCachedOffset := s.cache.lastCachedOffset + slice.buffer.len } }

/-- `parse_next_property`: locate the next property. -/
def parseNextProperty (P : Parser) (s : ParserState) : Outcome ParserError Unit × ParserState :=
  match P.properties[s.cache.slices.length]? with
  | none => (.error (.error .notFound), s)
  | some property =>
    match s.cache.dataStart with
    | none => (.error (.error
        (.propertyError "unsupported event layout: inline TraceLogging metadata")), s)
    | some dataStart =>
      match P.record.userSlice.getFrom (dataStart + s.cache.lastCachedOffset) with
      | none => (.error (.error (.propertyError "Invalid buffer bounds")), s)
      | some remaining =>
        match P.findPropertySize property remaining.bytes s with
        | (.error e, s') => (.error e, s')
        | (.ok propSize, s') =>
          match remaining.getTo propSize with
          | none => (.error (.error (.propertyError "Property length out of buffer bounds")), s')
          | some buffer => (.ok (), push s' ⟨property, buffer⟩)

/-- **All that one step of the walk can do**: push one slice, cut out of the user buffer at the
offset reached, or fail. Nothing but the TDH calls changes otherwise. -/
theorem parseNextProperty_cases (P : Parser) (s : ParserState) :
    (∃ slice calls dataStart remaining,
      P.parseNextProperty s = (.ok (), push { s with tdhCalls := calls } slice) ∧
      P.properties[s.cache.slices.length]? = some slice.property ∧
      s.cache.dataStart = some dataStart ∧
      P.record.userSlice.getFrom (dataStart + s.cache.lastCachedOffset) = some remaining ∧
      remaining.getTo slice.buffer.len = some slice.buffer) ∨
    (∃ e calls, P.parseNextProperty s = (.error e, { s with tdhCalls := calls })) := by
  have hsize : ∀ property remaining, ∃ r calls,
      P.findPropertySize property remaining s = (r, { s with tdhCalls := calls }) := by
    intro property remaining
    unfold findPropertySize tdhPropertySize
    split
    · exact ⟨_, s.tdhCalls, rfl⟩
    · exact ⟨_, s.tdhCalls, rfl⟩
    · exact ⟨_, s.tdhCalls, rfl⟩
    · dsimp only
      split <;> exact ⟨_, _, rfl⟩
  unfold parseNextProperty
  split
  · exact Or.inr ⟨_, s.tdhCalls, rfl⟩
  · rename_i property hproperty
    split
    · exact Or.inr ⟨_, s.tdhCalls, rfl⟩
    · rename_i dataStart hstart
      split
      · exact Or.inr ⟨_, s.tdhCalls, rfl⟩
      · rename_i remaining hremaining
        obtain ⟨r, calls, hr⟩ := hsize property remaining.bytes
        rw [hr]
        cases r with
        | error e => exact Or.inr ⟨e, calls, rfl⟩
        | ok propSize =>
          dsimp only
          split
          · exact Or.inr ⟨_, calls, rfl⟩
          · rename_i buffer hbuffer
            refine Or.inl ⟨⟨property, buffer⟩, calls, dataStart, remaining, rfl, hproperty, hstart,
              hremaining, ?_⟩
            rw [Slice.len_of_getTo hbuffer]
            exact hbuffer

/-- Sizing a property asks for it, or for nothing. -/
theorem findPropertySize_asks (P : Parser) (property : Property) (remaining : List UInt8)
    (s : ParserState) : (P.findPropertySize property remaining s).2 =
      { s with tdhCalls := s.tdhCalls ++
          if Sizing.asks (Ferrisetw2.findPropertySize P.target P.record.pointerSize property
            s.cache.slices remaining) then [property] else [] } := by
  rw [findPropertySize]
  cases Ferrisetw2.findPropertySize P.target P.record.pointerSize property s.cache.slices
    remaining with
  | error p => simp [Sizing.asks]
  | ok sizing =>
    cases sizing with
    | size n => simp [Sizing.asks]
    | error e => simp [Sizing.asks]
    | tdh =>
      rw [Sizing.asks, if_pos rfl]
      dsimp only
      rw [tdhPropertySize]
      cases P.tdh s.tdhCalls property <;> rfl

/-- What was asked stays asked: a step of the walk only adds to the calls of TDH. -/
theorem parseNextProperty_tdhCalls (P : Parser) (s : ParserState) :
    s.tdhCalls <+: (P.parseNextProperty s).2.tdhCalls := by
  rw [parseNextProperty]
  split
  · exact List.prefix_refl _
  · rename_i property _
    split
    · exact List.prefix_refl _
    · split
      · exact List.prefix_refl _
      · rename_i remaining _
        have hasks := findPropertySize_asks P property remaining.bytes s
        rcases hresult : P.findPropertySize property remaining.bytes s with ⟨e | propSize, s'⟩
        all_goals
          rw [hresult] at hasks
          dsimp only at hasks ⊢
          subst hasks
        · exact List.prefix_append _ _
        · split <;> exact List.prefix_append _ _

/-! ### The entry points -/

/-- `n` passes of a loop around `parse_next_property`. -/
def parseMore (P : Parser) : ℕ → ParserState → Outcome ParserError Unit × ParserState
  | 0, s => (.ok (), s)
  | n + 1, s =>
    match P.parseNextProperty s with
    | (.error e, s') => (.error e, s')
    | (.ok (), s') => parseMore P n s'

/-- `property_bytes_at`: bytes of the `index`-th top-level property. -/
def propertyBytesAt (P : Parser) (index : ℕ) (s : ParserState) :
    Outcome ParserError Slice × ParserState :=
  match P.parseMore (index + 1 - s.cache.slices.length) s with
  | (.error e, s') => (.error e, s')
  | (.ok (), s') =>
    match s'.cache.slices[index]? with
    | some slice => (.ok slice.buffer, s')
    | none => (.error (.panic .outOfBounds), s')

/-- The probing loop of `find_property`: the index of the first cached slice of this name, going
round from `next_probe`. -/
def probe (c : CachedSlices) (name : String) : Option ℕ :=
  ((List.range c.slices.length).map fun i => (c.nextProbe + i) % c.slices.length).find? fun idx =>
    (c.slices[idx]?).any fun s => s.property.name == name

/-- `n` passes of the parsing loop of `find_property`. -/
def findMore (P : Parser) (name : String) :
    ℕ → ParserState → Outcome ParserError PropertySlice × ParserState
  | 0, s => (.error (.error .notFound), s)
  | n + 1, s =>
    match P.parseNextProperty s with
    | (.error e, s') => (.error e, s')
    | (.ok (), s') =>
      match s'.cache.slices.getLast? with
      | none => (.error (.panic (.expect "a property was just pushed")), s')
      | some last => if last.property.name = name then (.ok last, s') else findMore P name n s'

/-- `find_property`: the property of this name. -/
def findProperty (P : Parser) (name : String) (s : ParserState) :
    Outcome ParserError PropertySlice × ParserState :=
  match probe s.cache name with
  | some idx =>
    match s.cache.slices[idx]? with
    | some slice => (.ok slice, { s with cache := { s.cache with
        nextProbe := (idx + 1) % s.cache.slices.length } })
    | none => (.error (.panic .outOfBounds), s)
  | none => P.findMore name (P.properties.length - s.cache.slices.length) s

end Parser

/-! ### The parser as a machine -/

/-- A call made on a parser. -/
inductive Call where
  /-- `try_parse`, which looks the name up with `find_property`. -/
  | find (name : String)
  /-- `property_bytes_at`. -/
  | bytesAt (index : ℕ)

/-- The answer to a call. -/
inductive Answer where
  | slice (r : Outcome ParserError PropertySlice)
  | bytes (r : Outcome ParserError Slice)

/-- One call. -/
def Parser.call (P : Parser) (s : ParserState) : Call → Answer × ParserState
  | .find name => (.slice (P.findProperty name s).1, (P.findProperty name s).2)
  | .bytesAt index => (.bytes (P.propertyBytesAt index s).1, (P.propertyBytesAt index s).2)

/-- The answer is not a value. -/
def Answer.failed : Answer → Prop
  | .slice r => ∀ x, r ≠ .ok x
  | .bytes r => ∀ x, r ≠ .ok x

end Ferrisetw2
