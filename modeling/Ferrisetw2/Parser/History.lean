import Ferrisetw2.Parser.Follow

/-!
# The canonical walk, and histories of calls

`canonicalWalk` is the walk without a cache: one pass over the schema, each property sized with the
ones before it in hand, up to the first that cannot be located. When TDH answers by the property
alone, the cached walk of a parser follows it from whatever state it is resumed, whichever entry
points were called before. That is `Parser.follows_canonicalWalk`, and the invariant of the cache
is read off it.

Name lookup needs no such hypothesis for the part that is about the cache alone: among cached
slices of one name, which one does a lookup return? The first, unless they lie on both sides of
`next_probe`.

## Main definitions

* `locate`, `walkFrom`, `canonicalWalk`
* `FirstNamed` — a slice is of the first property of its name

## Main results

* `Parser.follows_canonicalWalk` — the parser follows the canonical walk
* `propertyBytesAt_after` — the answer for a position, after every history
* `cache_canonical_prefix` — what holds of the cache after every history
* `find_property_first_named` — when a lookup returns the first property of the name
-/

namespace Ferrisetw2

open Rust

/-! ### The walk without a cache -/

/-- The size of a property, TDH included. -/
def locatedSize (P : Parser) (parsed : List PropertySlice) (property : Property)
    (remaining : List UInt8) : Outcome ParserError ℕ :=
  match findPropertySize P.target P.record.pointerSize property parsed remaining with
  | .error p => .error (.panic p)
  | .ok (.size n) => .ok n
  | .ok (.error e) => .error (.error e)
  | .ok .tdh =>
    match P.tdh [] property with
    | .ok size => .ok size.toNat
    | .error e => .error (.error (.tdhNativeError e))

/-- The next property located, after `parsed`. -/
def locate (P : Parser) (dataStart : Option ℕ) (parsed : List PropertySlice)
    (property : Property) : Outcome ParserError PropertySlice :=
  match dataStart with
  | none => .error (.error
      (.propertyError "unsupported event layout: inline TraceLogging metadata"))
  | some start =>
    match P.record.userSlice.getFrom (start + totalLen parsed) with
    | none => .error (.error (.propertyError "Invalid buffer bounds"))
    | some remaining =>
      match locatedSize P parsed property remaining.bytes with
      | .error e => .error e
      | .ok size =>
        match remaining.getTo size with
        | none => .error (.error (.propertyError "Property length out of buffer bounds"))
        | some buffer => .ok ⟨property, buffer⟩

/-- A finished walk: what it located, and why it stopped. -/
structure Walk where
  located : List PropertySlice
  stop : Fault ParserError

/-- The walk over the remaining properties. -/
def walkFrom (P : Parser) (dataStart : Option ℕ) (parsed : List PropertySlice) :
    List Property → Walk
  | [] => ⟨parsed, .error .notFound⟩
  | property :: rest =>
    match locate P dataStart parsed property with
    | .ok slice => walkFrom P dataStart (parsed ++ [slice]) rest
    | .error e => ⟨parsed, e⟩

/-- The walk over the schema. -/
def canonicalWalk (P : Parser) (dataStart : Option ℕ) : Walk :=
  walkFrom P dataStart [] P.properties

/-- The walk extends what it started from. -/
theorem prefix_walkFrom (P : Parser) (dataStart : Option ℕ) :
    ∀ (parsed : List PropertySlice) (rest : List Property),
      parsed <+: (walkFrom P dataStart parsed rest).located
  | parsed, [] => List.prefix_refl _
  | parsed, property :: rest => by
    rw [walkFrom]
    split
    · exact (List.prefix_append _ _).trans (prefix_walkFrom P dataStart _ rest)
    · exact List.prefix_refl _

/-- Resuming the walk at any prefix it went through: the next property is located and is the next
slice, or cannot be and the walk is over. -/
theorem locate_of_isPrefix (P : Parser) (dataStart : Option ℕ) :
    ∀ (rest : List Property) (parsed xs : List PropertySlice), parsed <+: xs →
      xs <+: (walkFrom P dataStart parsed rest).located →
      match rest[xs.length - parsed.length]? with
      | none => xs = (walkFrom P dataStart parsed rest).located ∧
          (walkFrom P dataStart parsed rest).stop = .error .notFound
      | some property =>
        match locate P dataStart xs property with
        | .ok slice => xs ++ [slice] <+: (walkFrom P dataStart parsed rest).located
        | .error e => xs = (walkFrom P dataStart parsed rest).located ∧
            (walkFrom P dataStart parsed rest).stop = e
  | [], parsed, xs, hpre, hxs => by
    simp only [List.getElem?_nil, walkFrom] at hxs ⊢
    exact ⟨hxs.eq_of_length_le hpre.length_le, trivial⟩
  | property :: rest, parsed, xs, hpre, hxs => by
    rw [walkFrom] at hxs ⊢
    cases hloc : locate P dataStart parsed property with
    | error e =>
      simp only [hloc] at hxs ⊢
      obtain rfl : xs = parsed := hxs.eq_of_length_le hpre.length_le
      simp [hloc]
    | ok slice =>
      simp only [hloc] at hxs ⊢
      by_cases hlen : xs.length = parsed.length
      · -- resumed at the very start
        obtain rfl : parsed = xs := hpre.eq_of_length_le (by omega)
        simp only [Nat.sub_self, List.getElem?_cons_zero, hloc]
        exact prefix_walkFrom P dataStart _ rest
      · have hlt : parsed.length < xs.length := by
          have := hpre.length_le
          omega
        have hpre' : parsed ++ [slice] <+: xs :=
          List.prefix_of_prefix_length_le (prefix_walkFrom P dataStart _ rest) hxs
            (by rw [List.length_append, List.length_singleton]; exact hlt)
        have hidx : xs.length - parsed.length = xs.length - (parsed ++ [slice]).length + 1 := by
          simp only [List.length_append, List.length_singleton]
          omega
        rw [hidx, List.getElem?_cons_succ]
        exact locate_of_isPrefix P dataStart rest _ xs hpre' hxs

/-- A step of the parser is a step of the walk without a cache. -/
theorem Parser.parseNextProperty_eq_locate {P : Parser} (hP : ∀ calls, P.tdh calls = P.tdh [])
    {dataStart : Option ℕ} {s : ParserState} (hs : Walked P dataStart s) {property : Property}
    (hprop : P.properties[s.cache.slices.length]? = some property) :
    ∃ calls, P.parseNextProperty s =
      match locate P dataStart s.cache.slices property with
      | .ok slice => (.ok (), push { s with tdhCalls := calls } slice)
      | .error e => (.error e, { s with tdhCalls := calls }) := by
  simp only [Parser.parseNextProperty, hprop, hs.start, hs.offset]
  cases dataStart with
  | none => exact ⟨s.tdhCalls, rfl⟩
  | some start =>
    simp only [locate]
    cases P.record.userSlice.getFrom (start + totalLen s.cache.slices) with
    | none => exact ⟨s.tdhCalls, rfl⟩
    | some remaining =>
      simp only [Parser.findPropertySize, locatedSize]
      cases Ferrisetw2.findPropertySize P.target P.record.pointerSize property s.cache.slices
          remaining.bytes with
      | error p => exact ⟨s.tdhCalls, rfl⟩
      | ok sizing =>
        cases sizing with
        | error e => exact ⟨s.tdhCalls, rfl⟩
        | size n =>
          refine ⟨s.tdhCalls, ?_⟩
          dsimp only
          cases remaining.getTo n <;> rfl
        | tdh =>
          refine ⟨s.tdhCalls ++ [property], ?_⟩
          simp only [Parser.tdhPropertySize, hP s.tdhCalls]
          cases P.tdh [] property with
          | error e => rfl
          | ok size =>
            dsimp only
            cases remaining.getTo size.toNat <;> rfl

/-- **The parser follows the canonical walk**, when TDH answers by the property alone. -/
theorem Parser.follows_canonicalWalk {P : Parser} (hP : ∀ calls, P.tdh calls = P.tdh [])
    (dataStart : Option ℕ) :
    P.Follows dataStart (canonicalWalk P dataStart).located (canonicalWalk P dataStart).stop
      fun _ => True := by
  refine ⟨fun s hs _ => ?_⟩
  have hnext := locate_of_isPrefix P dataStart P.properties [] s.cache.slices List.nil_prefix
    hs.isPrefix
  simp only [List.length_nil, Nat.sub_zero] at hnext
  cases hprop : P.properties[s.cache.slices.length]? with
  | none =>
    rw [hprop] at hnext
    refine ⟨s.tdhCalls, trivial, Or.inr ⟨hnext.1, ?_⟩⟩
    rw [Parser.parseNextProperty, hprop]
    exact congrArg (fun e => (Except.error e, s)) hnext.2.symm
  | some property =>
    rw [hprop] at hnext
    obtain ⟨calls, hstep⟩ := Parser.parseNextProperty_eq_locate hP hs.toWalked hprop
    refine ⟨calls, trivial, ?_⟩
    cases hloc : locate P dataStart s.cache.slices property with
    | error e =>
      simp only [hloc] at hnext hstep
      refine Or.inr ⟨hnext.1, ?_⟩
      rw [hstep]
      exact congrArg (fun e => (Except.error e, _)) hnext.2.symm
    | ok slice =>
      simp only [hloc] at hnext hstep
      obtain ⟨rest, hrest⟩ := hnext
      have hlt : s.cache.slices.length < (canonicalWalk P dataStart).located.length := by
        rw [canonicalWalk, ← hrest]
        simp only [List.length_append, List.length_singleton]
        omega
      refine Or.inl ⟨hlt, ?_⟩
      have hget : (canonicalWalk P dataStart).located[s.cache.slices.length] = slice := by
        have : (s.cache.slices ++ [slice] ++ rest)[s.cache.slices.length]? = some slice := by
          simp
        rw [hrest] at this
        exact Option.some.inj ((List.getElem?_eq_getElem hlt).symm.trans this)
      rw [hstep, hget]

/-! ### The cache -/

/-- Adjacent slices of a tiling meet. -/
theorem Tiles.start_succ {buffer : Slice} {start i : ℕ} {slices : List PropertySlice}
    (h : Tiles buffer start slices) (hi : i + 1 < slices.length) :
    slices[i + 1].buffer.start = slices[i].buffer.stop := by
  rw [h.start_getElem hi, Slice.stop, h.start_getElem (by omega),
    List.take_succ_eq_append_getElem (by omega)]
  simp only [totalLen_append, totalLen_cons, totalLen_nil]
  omega

/-- **The answer for a position, after any history of calls**, when TDH answers by the property
alone: that of the canonical walk. -/
theorem propertyBytesAt_after (target : Target) (f : Property → Except TdhNativeError UInt32)
    (record : EventRecord) (schema : Schema) (calls : List Call) (index : ℕ) :
    let P := Parser.create target (fun _ => f) record schema
    let W := canonicalWalk P (propertyValuesStart record schema)
    (P.propertyBytesAt index
      (CallMachine.after P.call (Parser.createState record schema) calls)).1 =
        bytesAnswer W.located W.stop index := by
  intro P W
  have hF : P.Follows (propertyValuesStart record schema) W.located W.stop fun _ => True :=
    Parser.follows_canonicalWalk (fun _ => rfl) _
  have hs := (hF.after (Cached.create P record schema W.located) trivial calls).1
  obtain ⟨-, -, -, hanswer⟩ := hF.call hs trivial (.bytesAt index)
  exact Answer.bytes.inj (hanswer trivial)

/-- **The cache after any history of calls**, when TDH answers by the property alone. It holds the
first slices of the canonical walk, one after the other, with the offset and the probe in step. So
a position has one answer, whatever was called before. A call, failed or not, keeps every cached
slice, and moves the next offset past the slices it appends and no further. -/
theorem cache_canonical_prefix (target : Target) (f : Property → Except TdhNativeError UInt32)
    (record : EventRecord) (schema : Schema) (calls : List Call) :
    let P := Parser.create target (fun _ => f) record schema
    let W := canonicalWalk P (propertyValuesStart record schema)
    let s := CallMachine.after P.call (Parser.createState record schema) calls
    (s.cache.slices = W.located.take s.cache.slices.length ∧
      (∀ i (h : i + 1 < s.cache.slices.length),
        s.cache.slices[i + 1].buffer.start = s.cache.slices[i].buffer.stop) ∧
      s.cache.lastCachedOffset = totalLen s.cache.slices ∧
      (s.cache.nextProbe = 0 ∨ s.cache.nextProbe < s.cache.slices.length)) ∧
    (∀ index, (P.propertyBytesAt index s).1 = bytesAnswer W.located W.stop index) ∧
    ∀ c, ∃ appended, (P.call s c).2.cache.slices = s.cache.slices ++ appended ∧
      (P.call s c).2.cache.lastCachedOffset = s.cache.lastCachedOffset + totalLen appended := by
  intro P W s
  have hF : P.Follows (propertyValuesStart record schema) W.located W.stop fun _ => True :=
    Parser.follows_canonicalWalk (fun _ => rfl) _
  have hs : Cached P (propertyValuesStart record schema) W.located s :=
    (hF.after (Cached.create P record schema W.located) trivial calls).1
  refine ⟨⟨List.prefix_iff_eq_take.mp hs.isPrefix, fun i hi => hs.tiles.start_succ hi, hs.offset,
    hs.probe⟩, propertyBytesAt_after target f record schema calls, fun c => ?_⟩
  obtain ⟨hs', -, ⟨appended, happ⟩, -⟩ := hF.call hs trivial c
  refine ⟨appended, happ.symm, ?_⟩
  rw [hs'.offset, hs.offset, ← happ, totalLen_append]

/-- A failing call moves the next offset: the second property below is not terminated, and the
call that asks for it has located the first one by the time it fails. -/
theorem failing_call_moves_offset :
    ∃ (record : EventRecord) (schema : Schema) (c : Call),
      let P := Parser.create ⟨.b64, true⟩ (fun _ _ => .error .allocationError) record schema
      let s := Parser.createState record schema
      (P.call s c).1.failed ∧ s.cache.lastCachedOffset = 0 ∧
        (P.call s c).2.cache.lastCachedOffset = 4 := by
  refine ⟨⟨0, 0, [1, 0, 0, 0, 65], by decide, []⟩,
    ⟨.decodingSourceXMLFile, [⟨"Id", .value .inTypeUInt32 .outTypeNull (.length 0)⟩,
      ⟨"Name", .value .inTypeAnsiString .outTypeNull (.length 0)⟩]⟩, .bytesAt 1, ?_, rfl, rfl⟩
  show ∀ x, Except.error _ ≠ Except.ok x
  intro x
  exact nofun

/-! ### Name lookup -/

/-- The slice is cached, and is of the first property of this name, in schema order. -/
def FirstNamed (properties : List Property) (slices : List PropertySlice) (name : String)
    (slice : PropertySlice) : Prop :=
  ∃ i, slices[i]? = some slice ∧ properties[i]? = some slice.property ∧
    slice.property.name = name ∧
    ∀ (j : ℕ) (property : Property), j < i → properties[j]? = some property → property.name ≠ name

/-- A lookup of this name returns the first property of the name, or fails because the walk can
locate no more properties and has located none of this name. -/
def FirstMatch (P : Parser) (s : ParserState) (name : String) : Prop :=
  (∀ slice, (P.findProperty name s).1 = .ok slice →
    FirstNamed P.properties (P.findProperty name s).2.cache.slices name slice) ∧
  ∀ e, (P.findProperty name s).1 = .error e →
    (∀ x ∈ (P.findProperty name s).2.cache.slices, x.property.name ≠ name) ∧
    ∃ s₀, s₀.cache = (P.findProperty name s).2.cache ∧
      P.parseNextProperty s₀ = (.error e, (P.findProperty name s).2)

theorem firstNamed_of_find? {P : Parser} {dataStart : Option ℕ} {s : ParserState}
    (hs : Walked P dataStart s) {name : String} {slice : PropertySlice}
    (h : s.cache.slices.find? (named name) = some slice) :
    FirstNamed P.properties s.cache.slices name slice := by
  obtain ⟨hname, i, hi, rfl, hbefore⟩ := List.find?_eq_some_iff_getElem.mp h
  have hprop : ∀ j (hj : j < s.cache.slices.length),
      P.properties[j]? = some s.cache.slices[j].property :=
    fun j hj => hs.getElem?_properties (List.getElem?_eq_getElem hj)
  refine ⟨i, List.getElem?_eq_getElem hi, hprop i hi, by simpa [named] using hname, ?_⟩
  intro j property hj hjprop
  rw [hprop j (by omega)] at hjprop
  obtain rfl := Option.some.inj hjprop
  simpa [named] using hbefore j hj

/-- What one lookup in reach answers. -/
theorem Parser.findProperty_of_inReach {P : Parser} {dataStart : Option ℕ} {s : ParserState}
    (hs : Walked P dataStart s) {name : String} (hreach : ¬ Straddles s.cache name) :
    Walked P dataStart (P.findProperty name s).2 ∧ ∃ e,
      (P.findProperty name s).1 = findAnswer (P.findProperty name s).2.cache.slices e name ∧
      ((P.findProperty name s).2.cache.slices.find? (named name) = none →
        P.Stuck (Walked P dataStart) e (P.findProperty name s).2) := by
  obtain ⟨hs', -, hanswer⟩ := (P.walked_keeps dataStart).call hs (.find name)
  obtain ⟨e, heq, hstuck⟩ := hanswer hreach
  exact ⟨hs', e, Answer.slice.inj heq, fun hnone => hstuck fun hc => hc hnone⟩

/-- **A lookup in reach returns the first property of its name.** -/
theorem firstMatch_of_inReach {P : Parser} {dataStart : Option ℕ} {s : ParserState}
    (hs : Walked P dataStart s) {name : String} (hreach : ¬ Straddles s.cache name) :
    FirstMatch P s name := by
  obtain ⟨hs', e, heq, hstuck⟩ := Parser.findProperty_of_inReach hs hreach
  cases hfind : (P.findProperty name s).2.cache.slices.find? (named name) with
  | some slice =>
    rw [findAnswer, hfind] at heq
    refine ⟨fun slice' h => ?_, fun e' h => ?_⟩
    · rw [heq] at h
      obtain rfl := Except.ok.inj h
      exact firstNamed_of_find? hs' hfind
    · rw [heq] at h
      simp at h
  | none =>
    rw [findAnswer, hfind] at heq
    refine ⟨fun slice' h => ?_, fun e' h => ?_⟩
    · rw [heq] at h
      simp at h
    · rw [heq] at h
      obtain rfl := Except.error.inj h
      obtain ⟨s₀, -, hcache, hstep⟩ := hstuck hfind
      refine ⟨fun x hx => ?_, s₀, hcache, hstep⟩
      have := List.find?_eq_none.mp hfind x hx
      simpa [named] using this

/-- **A name found once is found again**, by any later lookup in reach. -/
theorem findProperty_again {P : Parser} {dataStart : Option ℕ} {s : ParserState}
    (hs : Walked P dataStart s) {name : String} (hreach : ¬ Straddles s.cache name)
    {slice : PropertySlice} (h : (P.findProperty name s).1 = .ok slice) (between : List Call)
    (hreach' : ¬ Straddles
      (CallMachine.after P.call (P.findProperty name s).2 between).cache name) :
    (P.findProperty name (CallMachine.after P.call (P.findProperty name s).2 between)).1
      = .ok slice := by
  obtain ⟨hs', e, heq, -⟩ := Parser.findProperty_of_inReach hs hreach
  obtain ⟨hs₂, hpre⟩ := (P.walked_keeps dataStart).after hs' between
  obtain ⟨-, e', heq', -⟩ := Parser.findProperty_of_inReach hs₂ hreach'
  obtain ⟨-, hpre', -⟩ := (P.walked_keeps dataStart).call hs₂ (.find name)
  have hheld : Holds (P.findProperty name s).2.cache.slices (.find name) := by
    intro hnone
    rw [heq, findAnswer, hnone] at h
    simp at h
  rw [heq', ← h, heq]
  exact Answer.slice.inj (answer_of_isPrefix (hpre.trans hpre') hheld e e')

/-- **When a lookup is first-match and independent of history.** After any history of calls, and
whatever TDH answers:

* with the cached slices of the name not on both sides of `next_probe`, the lookup returns the
  first property of the name, every later such lookup returns the same slice, and where TDH answers
  by the property alone the answer is the one the canonical walk has for the name;
* otherwise it returns the slice at a later index than one of this name. -/
theorem find_property_first_named (target : Target)
    (tdh : List Property → Property → Except TdhNativeError UInt32) (record : EventRecord)
    (schema : Schema) (before : List Call) (name : String) :
    let P := Parser.create target tdh record schema
    let s := CallMachine.after P.call (Parser.createState record schema) before
    (¬ Straddles s.cache name →
      FirstMatch P s name ∧
      (∀ slice, (P.findProperty name s).1 = .ok slice → ∀ between : List Call,
        let s₂ := CallMachine.after P.call (P.findProperty name s).2 between
        ¬ Straddles s₂.cache name → (P.findProperty name s₂).1 = .ok slice) ∧
      ((∀ calls, tdh calls = tdh []) →
        let W := canonicalWalk P (propertyValuesStart record schema)
        (P.findProperty name s).1 = findAnswer W.located W.stop name)) ∧
    (Straddles s.cache name → ∃ i j : ℕ, i < j ∧
      (s.cache.slices[i]?).any (named name) = true ∧
      ∃ slice, s.cache.slices[j]? = some slice ∧ (P.findProperty name s).1 = .ok slice) := by
  intro P s
  have hs : Walked P (propertyValuesStart record schema) s :=
    ((P.walked_keeps _).after (Walked.create P record schema) before).1
  refine ⟨fun hreach => ⟨firstMatch_of_inReach hs hreach, fun slice h between hreach' =>
    findProperty_again hs hreach h between hreach', fun hP => ?_⟩, fun hstr =>
    (P.walked_keeps _).findProperty_of_straddles hs hstr⟩
  have hF := Parser.follows_canonicalWalk (P := P) hP (propertyValuesStart record schema)
  have hs' := (hF.after (Cached.create P record schema _) trivial before).1
  exact Answer.slice.inj ((hF.call hs' trivial (.find name)).2.2.2 hreach)

/-- Two lookups of one name in a row return different bytes: the name repeats, and a lookup of the
property after it has cached both. -/
theorem find_property_twice_differs :
    ∃ (record : EventRecord) (schema : Schema) (name : String),
      let P := Parser.create ⟨.b64, true⟩ (fun _ _ => .error .allocationError) record schema
      let s := CallMachine.after P.call (Parser.createState record schema) [.find "third"]
      ∃ first second : PropertySlice, (P.findProperty name s).1 = .ok first ∧
        (P.findProperty name (P.findProperty name s).2).1 = .ok second ∧
        first.buffer.bytes = [1] ∧ second.buffer.bytes = [2] := by
  let byte (name : String) : Property := ⟨name, .value .inTypeUInt8 .outTypeNull (.length 0)⟩
  refine ⟨⟨0, 0, [1, 2, 3], by decide, []⟩,
    ⟨.decodingSourceXMLFile, [byte "dup", byte "dup", byte "third"]⟩, "dup", ?_⟩
  intro P s
  -- the first hit moves `next_probe` past itself
  have hs : s = ⟨⟨[⟨byte "dup", ⟨0, [1]⟩⟩, ⟨byte "dup", ⟨1, [2]⟩⟩, ⟨byte "third", ⟨2, [3]⟩⟩],
      0, 3, some 0⟩, []⟩ := rfl
  have hfirst : P.findProperty "dup" s = (.ok ⟨byte "dup", ⟨0, [1]⟩⟩,
      { s with cache := { s.cache with nextProbe := 1 } }) := by
    rw [hs]
    rfl
  refine ⟨⟨byte "dup", ⟨0, [1]⟩⟩, ⟨byte "dup", ⟨1, [2]⟩⟩, by rw [hfirst], ?_, rfl, rfl⟩
  rw [hfirst, hs]
  rfl

end Ferrisetw2
