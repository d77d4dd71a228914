import Ferrisetw2.Parser.Lookup
import Ferrisetw2.Ser.Handler
import Ferrisetw2.Ser.Member

/-!
# The event serializer

`EventSer` writes the properties of an event as one map: an entry for each top-level property, with
structures as nested maps and structure arrays as sequences of maps. `ser.rs`.

Every serializer carries the flag `strict`, which is `fail_unimplemented`. A null written where a
value could not be located or decoded is a degradation null.

Serializing moves the parser: positions are looked up as the walk goes, and a structure array may
look up the property that holds its count. A nested serializer that fails fails the whole event, so
no map is returned then.

## Main definitions

* `serProperty`, `structSer`, `serElements`, `eventEntries` — the serializers
* `eventSer` — `EventSer::serialize`
* `Property.Shaped`, `EventShaped` — the shape of what is written, with or without degradation nulls

## Main results

* `serProperty_eq_ok` — a property is written as one entry
-/

namespace Ferrisetw2

open Rust

/-! ### The serializers -/

/-- `resolve_struct_count`. -/
def resolveStructCount (P : Parser) (count : PropertyCount) (s : ParserState) :
    Outcome SerError (Option ℕ) × ParserState :=
  match count with
  | .count c => (.ok (some c.toNat), s)
  | .index i =>
    match P.properties[i.toNat]? with
    | none => (.ok none, s)
    | some _ =>
      match P.propertyBytesAt i.toNat s with
      | (.ok buffer, s') => (.ok (indexValueFromBytes P.target buffer.bytes), s')
      | (.error (.error _), s') => (.ok none, s')
      | (.error (.panic p), s') => (.error (.panic p), s')

/-- The end of `ser_property`, for a property that is not a structure. A handler that fails leaves
the map it was given, and the null goes where it left off. -/
def serValue (P : Parser) (N : Natives) (strict : Bool) (prop : Property) (buffer : Slice)
    (map : SerMap) : Outcome SerError SerMap :=
  match prop.info.getParser with
  | none =>
    if strict then .error (.error (.notImplemented prop.name prop.info))
    else .ok (nullEntry map prop.name)
  | some handler =>
    match handler.serFromBytes P N prop buffer map with
    | (.ok (), map) => .ok map
    | (.error (.panic p), _) => .error (.panic p)
    | (.error (.error e), map) =>
      if strict then .error (.error e) else .ok (nullEntry map prop.name)

/-- `StructArraySer::element_end`. -/
def elementEnd (t : Target) (pointerSize : ℕ) (bytes : Slice) :
    List Property → ℕ → Checked (Option ℕ)
  | [], offset => .ok (some offset)
  | member :: members, offset => do
    match ← memberBuffer t pointerSize member bytes offset with
    | none => .ok none
    | some (_, offset) => elementEnd t pointerSize bytes members offset

/-- The loop of `StructArraySer::serialize`, with this many elements to go and `seq` written. -/
def serElements (elementEnd : ℕ → Checked (Option ℕ))
    (serElement : Slice → ParserState → Outcome SerError SerMap × ParserState) (bytes : Slice) :
    ℕ → ℕ → List SerValue → ParserState → Outcome SerError (List SerValue) × ParserState
  | 0, _, seq, s => (.ok seq, s)
  | count + 1, offset, seq, s =>
    match elementEnd offset with
    | .error p => (.error (.panic p), s)
    -- the boundaries are unknown from here on
    | .ok none => (.ok (seq ++ List.replicate (count + 1) .null), s)
    | .ok (some stop) =>
      match bytes.getRange offset stop with
      | none => (.error (.panic (.expect "element within buffer")), s)
      | some element =>
        andThen (serElement element s) fun map s =>
          serElements elementEnd serElement bytes count stop (seq ++ [.map map]) s

mutual

/-- `ser_property`. -/
def serProperty (P : Parser) (N : Natives) (strict : Bool) :
    Property → Slice → SerMap → ParserState → Outcome SerError SerMap × ParserState
  | ⟨name, .struct members⟩, buffer, map, s =>
    andThen (structSer P N strict buffer members 0 [] s) fun value s =>
      (.ok (map ++ [(name, .map value)]), s)
  | ⟨name, .structArray members count⟩, buffer, map, s =>
    andThen (resolveStructCount P count s) fun resolved s =>
      match resolved with
      | some n =>
        andThen
          (serElements (elementEnd P.target P.record.pointerSize buffer members)
            (fun element s => structSer P N strict element members 0 [] s) buffer n 0 [] s)
          fun value s => (.ok (map ++ [(name, .seq value)]), s)
      | none =>
        if strict then (.error (.error (.structCount name count)), s)
        else (.ok (nullEntry map name), s)
  | ⟨name, .value inType outType length⟩, buffer, map, s =>
    (serValue P N strict ⟨name, .value inType outType length⟩ buffer map, s)
  | ⟨name, .array inType outType length count⟩, buffer, map, s =>
    (serValue P N strict ⟨name, .array inType outType length count⟩ buffer map, s)
  | ⟨name, .unsupported length⟩, buffer, map, s =>
    (serValue P N strict ⟨name, .unsupported length⟩ buffer map, s)

/-- The loop of `StructSer::serialize`, with these members to go and `map` written. -/
def structSer (P : Parser) (N : Natives) (strict : Bool) (bytes : Slice) :
    List Property → ℕ → SerMap → ParserState → Outcome SerError SerMap × ParserState
  | [], _, map, s => (.ok map, s)
  | member :: members, offset, map, s =>
    match memberBuffer P.target P.record.pointerSize member bytes offset with
    | .error p => (.error (.panic p), s)
    | .ok none => (.ok ((member :: members).foldl (fun map m => nullEntry map m.name) map), s)
    | .ok (some (buffer, offset)) =>
      andThen (serProperty P N strict member buffer map s) fun map s =>
        structSer P N strict bytes members offset map s

end

/-- The loop of `EventSer::serialize`, from this index on. -/
def eventEntries (P : Parser) (N : Natives) (strict : Bool) :
    List Property → ℕ → SerMap → ParserState → Outcome SerError SerMap × ParserState
  | [], _, map, s => (.ok map, s)
  | prop :: props, index, map, s =>
    match P.propertyBytesAt index s with
    | (.error (.panic p), s) => (.error (.panic p), s)
    | (.error (.error e), s) =>
      if strict then (.error (.error (.parser e)), s)
      -- the walk stopped: every later offset is unknown
      else (.ok ((prop :: props).foldl (fun map p => nullEntry map p.name) map), s)
    | (.ok buffer, s) =>
      andThen (serProperty P N strict prop buffer map s) fun map s =>
        eventEntries P N strict props (index + 1) map s

/-- `EventSer::serialize`. -/
def eventSer (P : Parser) (N : Natives) (strict : Bool) (s : ParserState) :
    Outcome SerError SerValue × ParserState :=
  andThen (eventEntries P N strict P.properties 0 [] s) fun map s => (.ok (.map map), s)

/-! ### Shapes -/

/-- A property of in type `InTypeNull`. -/
def Property.IsNull (p : Property) : Prop :=
  ∃ outType length, p.info = .value .inTypeNull outType length

mutual

/-- The value has the shape of the property: a map with an entry for each member of a structure, in
order, a sequence with as many of these as the resolved count says, anything else for the rest. A
null stands for a value of `InTypeNull`, and for anything where `degraded`. -/
def Property.Shaped (degraded : Prop) (t : Target) (slices : List PropertySlice) :
    Property → SerValue → Prop
  | ⟨_, .struct members⟩, v => degraded ∧ v = .null ∨
    ∃ entries, v = .map entries ∧ MembersShaped degraded t slices members entries
  | ⟨_, .structArray members count⟩, v => degraded ∧ v = .null ∨
    ∃ elements, v = .seq elements ∧ elementCount t count slices = some elements.length ∧
      ∀ e ∈ elements, degraded ∧ e = .null ∨
        ∃ entries, e = .map entries ∧ MembersShaped degraded t slices members entries
  | ⟨name, .value inType outType length⟩, v =>
    v = .null → degraded ∨ Property.IsNull ⟨name, .value inType outType length⟩
  | ⟨name, .array inType outType length count⟩, v =>
    v = .null → degraded ∨ Property.IsNull ⟨name, .array inType outType length count⟩
  | ⟨name, .unsupported length⟩, v =>
    v = .null → degraded ∨ Property.IsNull ⟨name, .unsupported length⟩

/-- One entry for each property, in order, under its name and of its shape. -/
def MembersShaped (degraded : Prop) (t : Target) (slices : List PropertySlice) :
    List Property → SerMap → Prop
  | [], entries => entries = []
  | p :: ps, entries => ∃ v rest, entries = (p.name, v) :: rest ∧
    p.Shaped degraded t slices v ∧ MembersShaped degraded t slices ps rest

end

/-- The event is written as a map with one entry for each top-level property, in schema order. -/
def EventShaped (degraded : Prop) (P : Parser) (slices : List PropertySlice) (v : SerValue) :
    Prop :=
  ∃ entries, v = .map entries ∧ MembersShaped degraded P.target slices P.properties entries

/-- Without degradation, a null has the shape of the properties of `InTypeNull` alone. -/
theorem shaped_null_iff {degraded : Prop} {t : Target} {slices : List PropertySlice}
    {p : Property} : p.Shaped degraded t slices .null ↔ degraded ∨ p.IsNull := by
  match p with
  | ⟨_, .struct members⟩ => simp [Property.Shaped, Property.IsNull]
  | ⟨_, .structArray members count⟩ => simp [Property.Shaped, Property.IsNull]
  | ⟨_, .value inType outType length⟩ => simp [Property.Shaped, Property.IsNull]
  | ⟨_, .array inType outType length count⟩ => simp [Property.Shaped, Property.IsNull]
  | ⟨_, .unsupported length⟩ => simp [Property.Shaped, Property.IsNull]

theorem membersShaped_null_iff {degraded : Prop} {t : Target} {slices : List PropertySlice}
    (ps : List Property) :
    MembersShaped degraded t slices ps (ps.map fun p => (p.name, .null)) ↔
      ∀ p ∈ ps, degraded ∨ p.IsNull := by
  induction ps with
  | nil => simp [MembersShaped]
  | cons p ps ih => simp [MembersShaped, shaped_null_iff, ih]

/-- A resolved count stays resolved as the cache grows. -/
theorem elementCount_of_isPrefix {t : Target} {count : PropertyCount}
    {xs ys : List PropertySlice} {n : ℕ} (hpre : xs <+: ys)
    (h : elementCount t count xs = some n) : elementCount t count ys = some n := by
  cases count with
  | count c => exact h
  | index i =>
    obtain ⟨slice, hslice, hn⟩ := Option.bind_eq_some_iff.mp h
    rw [elementCount, indexValue, getElem?_of_isPrefix hpre hslice]
    exact hn

/-! ### One property -/

/-- The null entries of the properties that are left. -/
theorem foldl_nullEntry (ps : List Property) (map : SerMap) :
    ps.foldl (fun map p => nullEntry map p.name) map =
      map ++ ps.map fun p => (p.name, .null) := by
  induction ps generalizing map with
  | nil => simp
  | cons p ps ih =>
    rw [List.foldl_cons, ih, nullEntry, List.append_assoc]
    rfl

/-- **A property that is not a structure is written as one entry**, whatever the map holds. In
strict mode a null is one of `InTypeNull`. -/
theorem serValue_eq_ok {P : Parser} {N : Natives} {strict : Bool} {prop : Property}
    {buffer : Slice} {map map' : SerMap} (h : serValue P N strict prop buffer map = .ok map') :
    ∃ v, map' = map ++ [(prop.name, v)] ∧ (v = .null → strict = false ∨ prop.IsNull) ∧
      ∀ m, serValue P N strict prop buffer m = .ok (m ++ [(prop.name, v)]) := by
  unfold serValue at h ⊢
  cases hp : prop.info.getParser with
  | none =>
    rw [hp] at h
    cases strict with
    | true => simp at h
    | false => exact ⟨.null, by simpa [nullEntry] using h.symm, fun _ => Or.inl rfl, fun m => rfl⟩
  | some handler =>
    rw [hp] at h
    rcases serFromBytes_cases P N handler prop buffer with ⟨v, hnull, hok⟩ | ⟨e, herr⟩
    · simp only [hok, Except.ok.injEq] at h
      refine ⟨v, h.symm, fun hv => Or.inr (getParser_eq_null (by rw [hp, hnull hv])), fun m => ?_⟩
      simp only [hok]
    · cases e with
      | panic q => simp [herr] at h
      | error e =>
        cases strict with
        | true => simp [herr] at h
        | false =>
          refine ⟨.null, by simpa [herr, nullEntry] using h.symm, fun _ => Or.inl rfl, fun m => ?_⟩
          simp [herr, nullEntry]

/-- In lenient mode, a property that is not a structure is always written, when a hexdump fits. -/
theorem exists_serValue_eq_ok {P : Parser} {N : Natives} {p : Property} {buffer : Slice}
    (hstruct : ∀ members, p.info ≠ .struct members)
    (harray : ∀ members count, p.info ≠ .structArray members count)
    (hhex : HexFits P.target.usizeBits p buffer.bytes) (map : SerMap) :
    ∃ v, serValue P N false p buffer map = .ok (map ++ [(p.name, v)]) := by
  have hret : ∃ map', serValue P N false p buffer map = .ok map' := by
    rw [serValue]
    split
    · exact ⟨_, rfl⟩
    · rename_i handler hhandler
      obtain ⟨hns, hna⟩ := getParser_ne_struct hstruct harray
      split
      · exact ⟨_, rfl⟩
      · rename_i q map' hser
        obtain ⟨e, he⟩ := serFromBytes_eq_error (fun h => hns (h ▸ hhandler))
          (fun h => hna (h ▸ hhandler)) hhex hser
        exact nomatch he
      · exact ⟨_, rfl⟩
  obtain ⟨map', hmap'⟩ := hret
  obtain ⟨v, rfl, -⟩ := serValue_eq_ok hmap'
  exact ⟨v, hmap'⟩

/-- **A property is written as one entry**, whatever the map holds. -/
theorem serProperty_eq_ok {P : Parser} {N : Natives} {strict : Bool} {p : Property}
    {buffer : Slice} {map map' : SerMap} {s s' : ParserState}
    (h : serProperty P N strict p buffer map s = (.ok map', s')) :
    ∃ v, map' = map ++ [(p.name, v)] ∧
      ∀ m, serProperty P N strict p buffer m s = (.ok (m ++ [(p.name, v)]), s') := by
  have hleaf : ∀ {q : Property}, (serValue P N strict q buffer map, s) = (.ok map', s') →
      ∃ v, map' = map ++ [(q.name, v)] ∧
        ∀ m, (serValue P N strict q buffer m, s) = (.ok (m ++ [(q.name, v)]), s') := fun h => by
    obtain ⟨hv, rfl⟩ := Prod.mk.inj h
    obtain ⟨v, rfl, -, hall⟩ := serValue_eq_ok hv
    exact ⟨v, rfl, fun m => by rw [hall]⟩
  match p with
  | ⟨name, .struct members⟩ =>
    rw [serProperty] at h
    obtain ⟨value, s₁, hvalue, hrest⟩ := andThen_eq_ok_iff.mp h
    obtain ⟨hmap, rfl⟩ := Prod.mk.inj hrest
    refine ⟨.map value, (Except.ok.inj hmap).symm, fun m => ?_⟩
    rw [serProperty, hvalue, andThen_ok]
  | ⟨name, .structArray members count⟩ =>
    rw [serProperty] at h
    obtain ⟨resolved, s₁, hcount, hrest⟩ := andThen_eq_ok_iff.mp h
    cases resolved with
    | none =>
      cases strict with
      | true => simp at hrest
      | false =>
        obtain ⟨hmap, rfl⟩ := Prod.mk.inj hrest
        refine ⟨.null, (Except.ok.inj hmap).symm, fun m => ?_⟩
        rw [serProperty, hcount, andThen_ok]
        rfl
    | some n =>
      obtain ⟨value, s₂, hvalue, hrest⟩ := andThen_eq_ok_iff.mp hrest
      obtain ⟨hmap, rfl⟩ := Prod.mk.inj hrest
      refine ⟨.seq value, (Except.ok.inj hmap).symm, fun m => ?_⟩
      rw [serProperty, hcount, andThen_ok]
      simp only [hvalue, andThen_ok]
  | ⟨name, .value inType outType length⟩ => exact hleaf h
  | ⟨name, .array inType outType length count⟩ => exact hleaf h
  | ⟨name, .unsupported length⟩ => exact hleaf h

end Ferrisetw2
