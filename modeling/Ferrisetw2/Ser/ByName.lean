import Ferrisetw2.Parser.Namesakes
import Ferrisetw2.Ser.Typed

/-!
# Reading by name

There are two ways to the value of a property. A consumer that knows its type calls `try_parse` with
its name, and one that does not serializes the event. The name is looked up in the cache, from
wherever the last lookup left `next_probe`; the serializer takes the properties by position, and
looks at its own bytes only. Here the two are compared. `parser.rs`, `ser.rs`.

All that a serializer does to the parser is ask for positions (`Parser.Moved`), so what it leaves
behind is the state after a history of calls, whether it fails or not.

## Main definitions

* `ParseType` — the types of `try_parse`, with their values
* `Parser.tryParse`, `tryParsePointer`
* `PropHandler.parseType`, `ParseType.written` — what a handler parses, and what it then writes
* `Parser.Moved` — what serializing does to the parser

## Main results

* `eventSer_moved` — a serializer only asks for positions
* `not_straddles_of_nodup` — distinct names can all be looked up
* `tryParse_of_entryAt` — from any state of a walk, a name is parsed as what is written for it
* `tryParse_agrees` — and so it is after any history of the parser
-/

namespace Ferrisetw2

open Rust

/-! ### The types -/

/-- The types that implement `TryParse`, `Pointer` apart. -/
inductive ParseType where
  | number (ty : Primitive)
  /-- `&[T]`. -/
  | numbers (ty : Primitive)
  | bool
  | string
  /-- `Vec<u8>`. -/
  | bytes
  | guid
  | ipAddr
  | socketAddress
  | fileTime
  | systemTime
  deriving DecidableEq

namespace ParseType

/-- A value of the type. -/
abbrev Value : ParseType → Type
  | number _ => Scalar
  | numbers _ => List Scalar
  | bool => Bool
  | string => String
  | bytes => List UInt8
  | guid => Guid
  | ipAddr => IpAddr
  | socketAddress => TdhSocketAddress
  | fileTime => FileTime
  | systemTime => SystemTime

/-- `TryParse::try_parse_slice`. -/
def tryParseSlice (P : Parser) (N : Natives) (slice : PropertySlice) :
    (T : ParseType) → Outcome ParserError T.Value
  | number ty => parsed (tryParsePrimitive ty slice)
  | numbers ty => parsed (tryParsePrimitiveArray P.target P.record.userData ty slice)
  | bool => parsed (tryParseBool slice)
  | string => parsed (tryParseString P.target N slice)
  | bytes => tryParseBytes P.target slice
  | guid => parsed (tryParseGuid slice)
  | ipAddr => parsed (tryParseIpAddr slice)
  | socketAddress => parsed (tryParseSocketAddress slice)
  | fileTime => parsed (tryParseFileTime slice)
  | systemTime => parsed (tryParseSystemTime slice)

/-- What is written for a value. -/
def written (hex : Bool) : (T : ParseType) → T.Value → SerValue
  | number _, v => if hex then hexDisplay v else scalarValue v
  | numbers _, vs => .seq (vs.map (if hex then hexDisplay else scalarValue))
  | bool, b => .leaf (.bool b)
  | string, s => .leaf (.string s)
  | bytes, payload => scalarsValue (payload.map fun b => ⟨.u8, b.toNat⟩)
  | guid, v => .leaf (.guid v)
  | ipAddr, v => .leaf (.ipAddr v)
  | socketAddress, v => .leaf (.socketAddress v)
  | fileTime, v => .leaf (.fileTime v)
  | systemTime, v => .leaf (.systemTime v)

/-- Nothing that was parsed is written as a null. -/
theorem written_ne_null {hex : Bool} {T : ParseType} (v : T.Value) : T.written hex v ≠ .null := by
  cases T with
  | number ty => cases hex <;> exact fun h => (by cases h)
  | _ => exact fun h => (by cases h)

end ParseType

/-- `Pointer`. It is as wide as the slice, and cut to a `usize`. -/
def tryParsePointer (t : Target) (slice : PropertySlice) : Except ParserError ℕ :=
  match tryParsePrimitive (if slice.buffer.len = 4 then .u32 else .u64) slice with
  | .ok v => .ok (v.bits % (t.usizeMax + 1))
  | .error e => .error e

/-- `Parser::try_parse`, of a type with this `try_parse_slice`. -/
def Parser.tryParse {α : Type} (P : Parser) (tryParseSlice : PropertySlice → Outcome ParserError α)
    (name : String) (s : ParserState) : Outcome ParserError α × ParserState :=
  andThen (P.findProperty name s) fun slice s => (tryParseSlice slice, s)

/-! ### Handlers -/

/-- An address, by the pointer size of the record. -/
def pointerPrimitive (pointerSize : ℕ) : Primitive := if pointerSize = 4 then .u32 else .u64

/-- The type a handler parses. Nulls and structures are not parsed. -/
def PropHandler.parseType (pointerSize : ℕ) : PropHandler → Option ParseType
  | .null | .struct | .structArray => none
  | .bool => some .bool
  | .int8 => some (.number .i8)
  | .uInt8 => some (.number .u8)
  | .int16 => some (.number .i16)
  | .uInt16 => some (.number .u16)
  | .int32 => some (.number .i32)
  | .uInt32 | .hexInt32 => some (.number .u32)
  | .int64 => some (.number .i64)
  | .uInt64 | .hexInt64 => some (.number .u64)
  | .float => some (.number .f32)
  | .double => some (.number .f64)
  | .pointer | .hexPointer => some (.number (pointerPrimitive pointerSize))
  | .string => some .string
  | .fileTime => some .fileTime
  | .systemTime => some .systemTime
  | .guid => some .guid
  | .binary => some .bytes
  | .ipAddr => some .ipAddr
  | .socketAddress => some .socketAddress
  | .arrayInt16 => some (.numbers .i16)
  | .arrayUInt16 => some (.numbers .u16)
  | .arrayInt32 => some (.numbers .i32)
  | .arrayUInt32 | .arrayHexInt32 => some (.numbers .u32)
  | .arrayInt64 => some (.numbers .i64)
  | .arrayUInt64 | .arrayHexInt64 => some (.numbers .u64)
  | .arrayPointer | .arrayHexPointer => some (.numbers (pointerPrimitive pointerSize))

/-- The handlers that write numbers in hex. -/
def PropHandler.isHex : PropHandler → Bool
  | .hexInt32 | .hexInt64 | .hexPointer | .arrayHexInt32 | .arrayHexInt64 | .arrayHexPointer => true
  | _ => false

section

variable {P : Parser} {N : Natives} {handler : PropHandler} {T : ParseType}

/-- **What a handler writes is what its type parses.** -/
theorem serFromBytes_eq_propSer (h : handler.parseType P.record.pointerSize = some T)
    (prop : Property) (buffer : Slice) (map : SerMap) :
    handler.serFromBytes P N prop buffer map =
      propSer (T.written handler.isHex) (T.tryParseSlice P N ⟨prop, buffer⟩) prop.name map := by
  cases handler with
  | null | struct | structArray => cases h
  | pointer | hexPointer | arrayPointer | arrayHexPointer =>
    obtain rfl := Option.some.inj h
    by_cases hsize : P.record.pointerSize = 4
    · rw [show pointerPrimitive P.record.pointerSize = .u32 from if_pos hsize]
      exact if_pos hsize
    · rw [show pointerPrimitive P.record.pointerSize = .u64 from if_neg hsize]
      exact if_neg hsize
  | _ =>
    obtain rfl := Option.some.inj h
    rfl

/-- The value written is the value parsed, or a null that a lenient run writes for an error. -/
def ParseType.Agrees (T : ParseType) (hex strict : Bool) (v : SerValue) :
    Outcome ParserError T.Value → Prop
  | .ok x => v = T.written hex x
  | .error (.error _) => strict = false ∧ v = .null
  | .error (.panic _) => False

/-- A strict run lets no error pass. -/
theorem ParseType.Agrees.eq_ok {hex : Bool} {v : SerValue} {r : Outcome ParserError T.Value}
    (h : T.Agrees hex true v r) : ∃ x, r = .ok x ∧ v = T.written hex x := by
  rcases r with (e | p) | x
  · cases h.1
  · cases h
  · exact ⟨x, rfl, h⟩

/-- A null stands for an error, and only for an error. -/
theorem ParseType.Agrees.eq_null_iff {hex strict : Bool} {v : SerValue}
    {r : Outcome ParserError T.Value} (h : T.Agrees hex strict v r) :
    v = .null ↔ ∃ e, r = .error (.error e) := by
  rcases r with (e | p) | x
  · exact iff_of_true h.2 ⟨e, rfl⟩
  · cases h
  · refine iff_of_false (fun hnull => ?_) fun ⟨e, he⟩ => (by cases he)
    rw [show v = T.written hex x from h] at hnull
    exact ParseType.written_ne_null x hnull

/-- A property that a handler of the type wrote. -/
theorem serValue_agrees {strict : Bool} {prop : Property} {buffer : Slice} {v : SerValue}
    (hhandler : prop.info.getParser = some handler)
    (hT : handler.parseType P.record.pointerSize = some T)
    (h : serValue P N strict prop buffer [] = .ok [(prop.name, v)]) :
    T.Agrees handler.isHex strict v (T.tryParseSlice P N ⟨prop, buffer⟩) := by
  rw [serValue, hhandler] at h
  dsimp only at h
  rw [serFromBytes_eq_propSer hT] at h
  rcases hparse : T.tryParseSlice P N ⟨prop, buffer⟩ with (e | p) | x
  all_goals
    rw [hparse] at h
  · cases strict with
    | true => cases h
    | false =>
      have hnull : [(prop.name, SerValue.null)] = [(prop.name, v)] := Except.ok.inj h
      exact ⟨rfl, (Prod.mk.inj (List.cons.inj hnull).1).2.symm⟩
  · cases h
  · have hvalue : [(prop.name, T.written handler.isHex x)] = [(prop.name, v)] := Except.ok.inj h
    exact (Prod.mk.inj (List.cons.inj hvalue).1).2.symm

/-- A property with such a handler is not a structure. -/
theorem serProperty_agrees {strict : Bool} {prop : Property} {buffer : Slice} {v : SerValue}
    {s s' : ParserState} (hhandler : prop.info.getParser = some handler)
    (hT : handler.parseType P.record.pointerSize = some T)
    (h : serProperty P N strict prop buffer [] s = (.ok [(prop.name, v)], s')) :
    T.Agrees handler.isHex strict v (T.tryParseSlice P N ⟨prop, buffer⟩) := by
  obtain ⟨name, info⟩ := prop
  cases info with
  | struct members | structArray members count =>
    obtain rfl := Option.some.inj hhandler
    cases hT
  | _ => exact serValue_agrees hhandler hT (Prod.mk.inj h).1

end

/-! ### What serializing does to the parser -/

/-- Calls for positions, and no others, lead from one state to the other. -/
def Parser.Moved (P : Parser) (s s' : ParserState) : Prop :=
  ∃ indices : List ℕ, s' = CallMachine.after P.call s (indices.map .bytesAt)

section

variable {P : Parser} {N : Natives} {strict : Bool}

theorem Parser.Moved.refl (s : ParserState) : P.Moved s s := ⟨[], rfl⟩

theorem Parser.Moved.trans {s s₁ s₂ : ParserState} (h : P.Moved s s₁) (h' : P.Moved s₁ s₂) :
    P.Moved s s₂ := by
  obtain ⟨indices, rfl⟩ := h
  obtain ⟨more, rfl⟩ := h'
  exact ⟨indices ++ more, by rw [List.map_append, CallMachine.after_append]⟩

theorem Parser.moved_of_propertyBytesAt {index : ℕ} {s s' : ParserState}
    {r : Outcome ParserError Slice} (h : P.propertyBytesAt index s = (r, s')) : P.Moved s s' :=
  ⟨[index], (congrArg Prod.snd h).symm⟩

/-- The rule for a sequence, whichever half fails. -/
theorem Parser.Moved.andThen {α β : Type} {r : Outcome SerError α × ParserState}
    {f : α → ParserState → Outcome SerError β × ParserState} {s : ParserState}
    (h : P.Moved s r.2) (hf : ∀ a s₁, P.Moved s₁ (f a s₁).2) : P.Moved s (andThen r f).2 := by
  obtain ⟨e | a, s₁⟩ := r
  · exact h
  · exact h.trans (hf a s₁)

theorem resolveStructCount_moved (count : PropertyCount) (s : ParserState) :
    P.Moved s (resolveStructCount P count s).2 := by
  cases count with
  | count c => exact .refl s
  | index i =>
    rw [resolveStructCount]
    split
    · exact .refl s
    · rcases hbytes : P.propertyBytesAt i.toNat s with ⟨(e | p) | buffer, s₁⟩
      all_goals exact Parser.moved_of_propertyBytesAt hbytes

theorem serElements_moved {elementEnd : ℕ → Checked (Option ℕ)}
    {serElement : Slice → ParserState → Outcome SerError SerMap × ParserState} {bytes : Slice}
    (hser : ∀ element s, P.Moved s (serElement element s).2) :
    ∀ (count offset : ℕ) (seq : List SerValue) (s : ParserState),
      P.Moved s (serElements elementEnd serElement bytes count offset seq s).2
  | 0, _, _, s => .refl s
  | count + 1, offset, seq, s => by
    rw [serElements]
    split
    · exact .refl s
    · exact .refl s
    · split
      · exact .refl s
      · exact (hser _ s).andThen fun map s₁ => serElements_moved hser count _ _ s₁

mutual

/-- **A property moves the parser by the counts it looks up.** -/
theorem serProperty_moved : ∀ (p : Property) (buffer : Slice) (map : SerMap) (s : ParserState),
    P.Moved s (serProperty P N strict p buffer map s).2
  | ⟨name, .struct members⟩, buffer, map, s => by
    rw [serProperty]
    exact (structSer_moved members buffer 0 [] s).andThen fun value s₁ => .refl s₁
  | ⟨name, .structArray members count⟩, buffer, map, s => by
    rw [serProperty]
    refine (resolveStructCount_moved count s).andThen fun resolved s₁ => ?_
    cases resolved with
    | none =>
      cases strict with
      | true => exact .refl s₁
      | false => exact .refl s₁
    | some n =>
      refine (serElements_moved (fun element s => ?_) n 0 [] s₁).andThen fun value s₂ => .refl s₂
      exact structSer_moved members element 0 [] s
  | ⟨_, .value _ _ _⟩, _, _, s => .refl s
  | ⟨_, .array _ _ _ _⟩, _, _, s => .refl s
  | ⟨_, .unsupported _⟩, _, _, s => .refl s

theorem structSer_moved : ∀ (members : List Property) (bytes : Slice) (offset : ℕ) (map : SerMap)
    (s : ParserState), P.Moved s (structSer P N strict bytes members offset map s).2
  | [], _, _, _, s => .refl s
  | member :: members, bytes, offset, map, s => by
    rw [structSer]
    split
    · exact .refl s
    · exact .refl s
    · exact (serProperty_moved member _ map s).andThen fun map₁ s₁ =>
        structSer_moved members bytes _ map₁ s₁

end

theorem eventEntries_moved : ∀ (props : List Property) (index : ℕ) (map : SerMap)
    (s : ParserState), P.Moved s (eventEntries P N strict props index map s).2
  | [], _, _, s => .refl s
  | prop :: props, index, map, s => by
    rw [eventEntries]
    rcases hbytes : P.propertyBytesAt index s with ⟨(e | p) | buffer, s₁⟩
    all_goals have hmoved : P.Moved s s₁ := Parser.moved_of_propertyBytesAt hbytes
    · cases strict with
      | true => exact hmoved
      | false => exact hmoved
    · exact hmoved
    · exact hmoved.trans ((serProperty_moved prop buffer map s₁).andThen fun map₁ s₂ =>
        eventEntries_moved props (index + 1) map₁ s₂)

/-- **A serializer only asks for positions**, whether it succeeds or fails. -/
theorem eventSer_moved {s s' : ParserState} {r : Outcome SerError SerValue}
    (h : eventSer P N strict s = (r, s')) : P.Moved s s' := by
  have hmoved : P.Moved s (eventSer P N strict s).2 :=
    (eventEntries_moved P.properties 0 [] s).andThen fun _ s₁ => .refl s₁
  rwa [h] at hmoved

end

/-! ### The entries -/

section

variable {P : Parser} {N : Natives} {strict : Bool} {dataStart : Option ℕ}
  {located : List PropertySlice} {stop : Fault ParserError}

/-- What is written for the property at this position of a walk: an entry of its slice, or the null
of a lenient run that could not locate it. -/
def EntryAt (P : Parser) (N : Natives) (strict : Bool) (located : List PropertySlice)
    (stop : Fault ParserError) (index : ℕ) (prop : Property) (v : SerValue) : Prop :=
  (∃ slice s s', located[index]? = some slice ∧ slice.property = prop ∧
    serProperty P N strict prop slice.buffer [] s = (.ok [(prop.name, v)], s')) ∨
  strict = false ∧ v = .null ∧ located.length ≤ index ∧ ∃ e, stop = .error e

/-- What a position is answered, along a walk. -/
theorem Cached.propertyBytesAt (hF : P.Follows dataStart located stop fun _ => True)
    {s s' : ParserState} (hs : Cached P dataStart located s) {index : ℕ}
    {r : Outcome ParserError Slice} (h : P.propertyBytesAt index s = (r, s')) :
    Cached P dataStart located s' ∧ r = bytesAnswer located stop index := by
  obtain ⟨hs', -, -, hanswer⟩ := hF.call hs trivial (.bytesAt index)
  simp only [Parser.call, h] at hs' hanswer
  exact ⟨hs', Answer.bytes.inj (hanswer trivial)⟩

/-- Serializing keeps to the walk. -/
theorem Cached.moved (hF : P.Follows dataStart located stop fun _ => True) {s s' : ParserState}
    (hs : Cached P dataStart located s) (h : P.Moved s s') : Cached P dataStart located s' := by
  obtain ⟨indices, rfl⟩ := h
  exact (hF.after hs trivial _).1

theorem getElem?_of_located (hlocated : located.map (·.property) <+: P.properties) {i : ℕ}
    {slice : PropertySlice} (h : located[i]? = some slice) :
    P.properties[i]? = some slice.property := by
  obtain ⟨rest, hrest⟩ := hlocated
  have hget : (located.map (·.property))[i]? = some slice.property := by
    rw [List.getElem?_map, h, Option.map_some]
  rw [← hrest, List.getElem?_append_left (List.getElem?_eq_some_iff.mp hget).1, hget]

/-- What the loop over the properties writes, from this index on. -/
theorem eventEntries_entryAt (hF : P.Follows dataStart located stop fun _ => True)
    (hlocated : located.map (·.property) <+: P.properties) :
    ∀ {props : List Property} {index : ℕ} {map map' : SerMap} {s s' : ParserState},
      P.properties.drop index = props → Cached P dataStart located s →
      eventEntries P N strict props index map s = (.ok map', s') →
      ∃ entries, map' = map ++ entries ∧ ∀ i prop, props[i]? = some prop →
        ∃ v, entries[i]? = some (prop.name, v) ∧
          EntryAt P N strict located stop (index + i) prop v
  | [], index, map, map', s, s', _, _, h => by
    obtain ⟨hmap, -⟩ := Prod.mk.inj h
    exact ⟨[], by rw [List.append_nil, Except.ok.inj hmap], fun i prop hi => (by cases hi)⟩
  | prop :: props, index, map, map', s, s', hdrop, hs, h => by
    rw [eventEntries] at h
    rcases hbytes : P.propertyBytesAt index s with ⟨(e | p) | buffer, s₁⟩
    all_goals
      rw [hbytes] at h
      obtain ⟨hs₁, hanswer⟩ := hs.propertyBytesAt hF hbytes
      rw [bytesAnswer] at hanswer
    · -- nothing from here on could be located
      cases strict with
      | true => cases h
      | false =>
        obtain ⟨hmap, -⟩ := Prod.mk.inj h
        have hstop : located.length ≤ index ∧ stop = .error e := by
          split at hanswer
          · cases hanswer
          · rename_i hnone
            exact ⟨List.getElem?_eq_none_iff.mp hnone, (Except.error.inj hanswer).symm⟩
        refine ⟨_, (Except.ok.inj hmap).symm.trans (foldl_nullEntry _ _), fun i q hi => ?_⟩
        refine ⟨.null, by rw [List.getElem?_map, hi]; rfl, .inr ⟨rfl, rfl, ?_, e, hstop.2⟩⟩
        exact Nat.le_trans hstop.1 (Nat.le_add_right index i)
    · cases h
    · obtain ⟨slice, hslice, rfl⟩ : ∃ slice, located[index]? = some slice ∧
          slice.buffer = buffer := by
        split at hanswer
        · rename_i slice hslice
          exact ⟨slice, hslice, (Except.ok.inj hanswer).symm⟩
        · cases hanswer
      have hown : slice.property = prop := by
        have hprop := getElem?_of_located hlocated hslice
        rw [← List.head?_drop, hdrop] at hprop
        exact (Option.some.inj hprop).symm
      have hdrop' : P.properties.drop (index + 1) = props := by
        rw [← List.tail_drop, hdrop, List.tail_cons]
      obtain ⟨map₁, s₂, hprop, hrest⟩ := andThen_eq_ok_iff.mp h
      obtain ⟨v, rfl, hall⟩ := serProperty_eq_ok hprop
      have hmoved : P.Moved s₁ s₂ := by
        have hall : P.Moved s₁ (serProperty P N strict prop slice.buffer map s₁).2 :=
          serProperty_moved prop slice.buffer map s₁
        rwa [hprop] at hall
      obtain ⟨entries, rfl, hentries⟩ :=
        eventEntries_entryAt hF hlocated hdrop' (hs₁.moved hF hmoved) hrest
      refine ⟨(prop.name, v) :: entries, by rw [List.append_assoc]; rfl, fun i q hi => ?_⟩
      cases i with
      | zero =>
        obtain rfl := Option.some.inj hi
        exact ⟨v, rfl, .inl ⟨slice, s₁, s₂, hslice, hown, hall []⟩⟩
      | succ i =>
        obtain ⟨v', hv', hentry⟩ := hentries i q hi
        refine ⟨v', hv', ?_⟩
        rwa [Nat.add_right_comm, Nat.add_assoc] at hentry

/-! ### The name -/

/-- The lookup of a name finds the slice at the position of its first property, if it is located. -/
theorem findAnswer_eq (hlocated : located.map (·.property) <+: P.properties) {i : ℕ}
    {prop : Property} (hprop : P.properties[i]? = some prop)
    (hfirst : ∀ j q, j < i → P.properties[j]? = some q → q.name ≠ prop.name) :
    findAnswer located stop prop.name = (located[i]?).elim (.error stop) .ok := by
  have hbefore : ∀ j (hj : j < located.length), j < i → named prop.name located[j] = false := by
    intro j hj hji
    have hne := hfirst j _ hji (getElem?_of_located hlocated (List.getElem?_eq_getElem hj))
    exact beq_eq_false_iff_ne.mpr hne
  rw [findAnswer]
  cases hslice : located[i]? with
  | none =>
    have hfind : located.find? (named prop.name) = none := by
      refine List.find?_eq_none.mpr fun x hx => ?_
      obtain ⟨j, hj, rfl⟩ := List.getElem_of_mem hx
      have hle := List.getElem?_eq_none_iff.mp hslice
      rw [hbefore j hj (Nat.lt_of_lt_of_le hj hle)]
      exact Bool.false_ne_true
    rw [hfind]
    rfl
  | some slice =>
    have hown : slice.property = prop :=
      Option.some.inj ((getElem?_of_located hlocated hslice).symm.trans hprop)
    obtain ⟨hi, rfl⟩ := List.getElem?_eq_some_iff.mp hslice
    have hfind : located.find? (named prop.name) = some located[i] := by
      refine List.find?_eq_some_iff_getElem.mpr ⟨?_, i, hi, rfl, fun j hj => ?_⟩
      · rw [named, hown]
        exact beq_self_eq_true _
      · rw [hbefore j (Nat.lt_trans hj hi) hj]
        rfl
    rw [hfind]
    rfl

/-- Where no two properties share a name, every name is in reach. -/
theorem not_straddles_of_nodup (hnodup : (P.properties.map (·.name)).Nodup) {s : ParserState}
    (hs : Walked P dataStart s) (name : String) : ¬ Straddles s.cache name := by
  have hname : ∀ i : ℕ, (s.cache.slices[i]?).any (named name) = true →
      (P.properties.map (·.name))[i]? = some name := by
    intro i hi
    obtain ⟨slice, hslice, hnamed⟩ := (Option.any_eq_true _ _).mp hi
    rw [List.getElem?_map, hs.getElem?_properties hslice, Option.map_some, beq_iff_eq.mp hnamed]
  rintro ⟨i, j, hi, hj, hni, hnj⟩
  have hlt := (List.getElem?_eq_some_iff.mp (hname i hni)).1
  have heq := (List.getElem?_inj hlt hnodup).mp ((hname i hni).trans (hname j hnj).symm)
  omega

/-- The entries of an event. -/
theorem eventSer_entryAt (hF : P.Follows dataStart located stop fun _ => True)
    (hlocated : located.map (·.property) <+: P.properties) {entries : SerMap} {s s' : ParserState}
    (hs : Cached P dataStart located s) (h : eventSer P N strict s = (.ok (.map entries), s'))
    {i : ℕ} {prop : Property} (hprop : P.properties[i]? = some prop) :
    ∃ v, entries[i]? = some (prop.name, v) ∧ EntryAt P N strict located stop i prop v := by
  obtain ⟨map, s₁, hmap, hout⟩ := andThen_eq_ok_iff.mp h
  obtain ⟨hentries, -⟩ := Prod.mk.inj hout
  obtain rfl : map = entries := SerValue.map.inj (Except.ok.inj hentries)
  obtain ⟨entries', rfl, hall⟩ :=
    eventEntries_entryAt hF hlocated (List.drop_zero (l := P.properties)) hs hmap
  obtain ⟨v, hv, hentry⟩ := hall i prop hprop
  rw [Nat.zero_add] at hentry
  exact ⟨v, hv, hentry⟩

/-- **What a name is parsed as**, from any state of the walk: what is written for the first property
of the name. -/
theorem tryParse_of_entryAt (hF : P.Follows dataStart located stop fun _ => True)
    (hlocated : located.map (·.property) <+: P.properties) {s : ParserState}
    (hs : Cached P dataStart located s) {i : ℕ} {prop : Property} {handler : PropHandler}
    {T : ParseType} {v : SerValue} (hprop : P.properties[i]? = some prop)
    (hfirst : ∀ j q, j < i → P.properties[j]? = some q → q.name ≠ prop.name)
    (hhandler : prop.info.getParser = some handler)
    (hT : handler.parseType P.record.pointerSize = some T)
    (hreach : ¬ Straddles s.cache prop.name) (hentry : EntryAt P N strict located stop i prop v) :
    T.Agrees handler.isHex strict v
      (P.tryParse (fun slice => T.tryParseSlice P N slice) prop.name s).1 := by
  have hfind : (P.findProperty prop.name s).1 = (located[i]?).elim (.error stop) .ok :=
    (Answer.slice.inj ((hF.call hs trivial (.find prop.name)).2.2.2 hreach)).trans
      (findAnswer_eq hlocated hprop hfirst)
  have hparse : (P.tryParse (fun slice => T.tryParseSlice P N slice) prop.name s).1 =
      (located[i]?).elim (.error stop) fun slice => T.tryParseSlice P N slice := by
    rw [Parser.tryParse]
    rcases hrun : P.findProperty prop.name s with ⟨e | slice, s₁⟩
    all_goals
      rw [hrun] at hfind
      cases hslice : located[i]? with
      | none => rw [hslice] at hfind; cases hfind <;> rfl
      | some slice' => rw [hslice] at hfind; cases hfind <;> rfl
  rw [hparse]
  rcases hentry with ⟨slice, s₂, s₃, hslice, rfl, hser⟩ | ⟨hstrict, hnull, hle, e, hstop⟩
  · rw [hslice]
    exact serProperty_agrees hhandler hT hser
  · rw [List.getElem?_eq_none hle, hstop]
    exact ⟨hstrict, hnull⟩

end

/-- A number is as long as its type. -/
theorem length_of_tryParsePrimitive {ty : Primitive} {slice : PropertySlice} {v : Scalar}
    (h : tryParsePrimitive ty slice = .ok v) : slice.buffer.len = ty.size := by
  rw [tryParsePrimitive] at h
  split at h
  · obtain ⟨hsize, -⟩ := ite_error_eq_ok_iff.mp h
    exact (not_not.mp hsize).symm
  · cases h

/-- **A pointer of the record's width is parsed as the address that is written**, but for what does
not fit a `usize`. -/
theorem tryParsePointer_eq (t : Target) {pointerSize : ℕ} {slice : PropertySlice}
    {address : Scalar} (h : tryParsePrimitive (pointerPrimitive pointerSize) slice = .ok address) :
    tryParsePointer t slice = .ok (address.bits % (t.usizeMax + 1)) := by
  have hwidth : (if slice.buffer.len = 4 then .u32 else .u64) = pointerPrimitive pointerSize := by
    rw [length_of_tryParsePrimitive h, pointerPrimitive]
    by_cases hsize : pointerSize = 4
    · rw [if_pos hsize]
      rfl
    · rw [if_neg hsize]
      rfl
  rw [tryParsePointer, hwidth, h]

/-- **A name is parsed as the value that was written under it**, in either mode and after any calls
before and after. The type is the one the property's handler parses, and the property the first of
its name. What a lenient run wrote as null is refused with an error, and a strict run that succeeds
wrote nothing that is refused. -/
theorem tryParse_agrees (target : Target) (f : Property → Except TdhNativeError UInt32)
    (record : EventRecord) (schema : Schema) (N : Natives) (strict : Bool)
    (before between : List Call) (entries : SerMap) (s' : ParserState) (i : ℕ) (prop : Property)
    (handler : PropHandler) (T : ParseType)
    (h : eventSer (Parser.create target (fun _ => f) record schema) N strict
      (CallMachine.after (Parser.create target (fun _ => f) record schema).call
        (Parser.createState record schema) before) = (.ok (.map entries), s'))
    (hprop : schema.properties[i]? = some prop)
    (hfirst : ∀ j q, j < i → schema.properties[j]? = some q → q.name ≠ prop.name)
    (hhandler : prop.info.getParser = some handler)
    (hT : handler.parseType record.pointerSize = some T)
    (hreach : ¬ Straddles (CallMachine.after
      (Parser.create target (fun _ => f) record schema).call s' between).cache prop.name) :
    let P := Parser.create target (fun _ => f) record schema
    let s := CallMachine.after P.call s' between
    let r := (P.tryParse (fun slice => T.tryParseSlice P N slice) prop.name s).1
    ∃ v, entries[i]? = some (prop.name, v) ∧ T.Agrees handler.isHex strict v r ∧
      (v = .null ↔ ∃ e, r = .error (.error e)) := by
  intro P s r
  have hF := Parser.follows_canonicalWalk (P := P) (fun _ => rfl)
    (propertyValuesStart record schema)
  have hbefore := (hF.after (Cached.create P record schema _) trivial before).1
  have hlocated := walkFrom_properties P (propertyValuesStart record schema) [] P.properties
  obtain ⟨v, hv, hentry⟩ := eventSer_entryAt hF hlocated hbefore h hprop
  have hs := (hF.after (hbefore.moved hF (eventSer_moved h)) trivial between).1
  have hagrees := tryParse_of_entryAt hF hlocated hs hprop hfirst hhandler hT hreach hentry
  exact ⟨v, hv, hagrees, hagrees.eq_null_iff⟩

/-- An event of two numbers. Both names are looked up, before and after it is serialized. -/
theorem tryParse_agrees_flag :
    let record : EventRecord := ⟨0, 0, [7, 0, 0, 0, 65], by decide, []⟩
    let schema : Schema := ⟨.decodingSourceXMLFile,
      [⟨"Id", .value .inTypeUInt32 .outTypeNull (.length 0)⟩,
        ⟨"Flag", .value .inTypeUInt8 .outTypeNull (.length 0)⟩]⟩
    let P := Parser.create ⟨.b64, true⟩ (fun _ _ => .error .allocationError) record schema
    let N : Natives := ⟨fun units => String.ofList (decodeUtf16 units), fun _ => .ok ""⟩
    let s := CallMachine.after P.call (Parser.createState record schema) [.find "Flag", .find "Id"]
    ∃ s', eventSer P N true s =
        (.ok (.map [("Id", .leaf (.scalar ⟨.u32, 7⟩)), ("Flag", .leaf (.scalar ⟨.u8, 65⟩))]), s') ∧
      (P.tryParse (fun slice => (ParseType.number .u8).tryParseSlice P N slice) "Flag"
        (CallMachine.after P.call s' [.find "Id"])).1 = .ok ⟨.u8, 65⟩ := by
  intro record schema P N s
  have hpacked : Packed record.pointerSize [] schema.properties [[7, 0, 0, 0], [65]] :=
    .cons (.fixed (.width rfl)) (.cons (.fixed (.width rfl)) .nil)
  have hid : ValueSpells N P.record.pointerSize [] .inTypeUInt32 .outTypeNull (.length 0)
      (leBytes Primitive.u32.size 7) (scalarValue ⟨.u32, 7⟩) := .number rfl rfl (by decide)
  have hflag : ValueSpells N P.record.pointerSize [[7, 0, 0, 0]] .inTypeUInt8 .outTypeNull
      (.length 0) (leBytes Primitive.u8.size 65) (scalarValue ⟨.u8, 65⟩) :=
    .number rfl rfl (by decide)
  have hfit : PackedSizable ⟨.b64, true⟩ record.pointerSize schema.properties
      [[7, 0, 0, 0], [65]] := by
    rintro (_ | _ | i) property ⟨⟩ <;> trivial
  have hF := follows_packedSlices hpacked hfit rfl (P := P)
  obtain ⟨hs, hcalls⟩ := hF.after (Cached.create P record schema _) rfl [.find "Flag", .find "Id"]
  have hspells : EventSpells P N [] P.properties [[7, 0, 0, 0], [65]]
      [("Id", scalarValue ⟨.u32, 7⟩), ("Flag", scalarValue ⟨.u8, 65⟩)] :=
    ⟨_, _, rfl, hid, _, _, rfl, hflag, rfl⟩
  obtain ⟨s', hser, -⟩ :=
    eventSer_of_spells (N := N) decodeUtf16_encodeUtf16 hpacked hfit rfl true hspells hs hcalls
  have hwalked : Walked P (some 0) (CallMachine.after P.call s' [.find "Id"]) := by
    have hs := ((P.walked_keeps (some 0)).after (Walked.create P record schema)
      [.find "Flag", .find "Id"]).1
    obtain ⟨indices, rfl⟩ := eventSer_moved hser
    have hs' := ((P.walked_keeps (some 0)).after hs (indices.map .bytesAt)).1
    exact ((P.walked_keeps (some 0)).after hs' [.find "Id"]).1
  have hfirst : ∀ j q, j < 1 → schema.properties[j]? = some q → q.name ≠ "Flag" := by
    intro j q hj hq
    obtain rfl : j = 0 := by omega
    obtain rfl := Option.some.inj hq
    decide
  obtain ⟨v, hv, hagrees, -⟩ := tryParse_agrees ⟨.b64, true⟩ (fun _ => .error .allocationError)
    record schema N true [.find "Flag", .find "Id"] [.find "Id"] _ s' 1 _ .uInt8 (.number .u8)
    hser rfl hfirst rfl rfl (not_straddles_of_nodup (by decide) hwalked "Flag")
  obtain ⟨x, hx, hwritten⟩ := hagrees.eq_ok
  have hvalue : SerValue.leaf (.scalar ⟨.u8, 65⟩) = scalarValue x :=
    (Prod.mk.inj (Option.some.inj hv)).2.trans hwritten
  obtain rfl := Leaf.scalar.inj (SerValue.leaf.inj hvalue)
  exact ⟨s', hser, hx⟩

end Ferrisetw2
