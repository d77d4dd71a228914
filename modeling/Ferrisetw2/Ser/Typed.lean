import Ferrisetw2.Ser.Strict
import Ferrisetw2.Ser.StructArray
import Ferrisetw2.Ser.Values

/-!
# Typed events

A producer has values, and packs their bytes one behind the other: a structure is its members, a
structure array its elements, and a count or a length may stand in an earlier property. What comes
out of the serializer has to be those values again, each under the name of its property. Nothing of
it depends on what was asked of the parser before, or on the mode: with every value spelled as its
property says, there is nothing to degrade. `ser.rs`.

## Main definitions

* `Property.Spells`, `MembersSpell` — the bytes of a property, and what is to be written for them
* `EventSpells` — the payloads of an event, and its map

## Main results

* `serProperty_of_spells`, `structSer_of_spells` — a property is written as it was spelled
* `typed_event` — **an event is written as the values it was packed from**
-/

namespace Ferrisetw2

open Rust

/-! ### Spelling -/

/-- The bytes spell values of one size, one behind the other. -/
def SpelledInTurn (size : ℕ) (Spells : ℕ → List UInt8 → SerValue → Prop) :
    ℕ → List UInt8 → List SerValue → Prop
  | _, bytes, [] => bytes = []
  | start, bytes, v :: vs => ∃ first rest, bytes = first ++ rest ∧ first.length = size ∧
    Spells start first v ∧ SpelledInTurn size Spells (start + size) rest vs

section Spelling

variable (P : Parser) (N : Natives) (prior : List (List UInt8))

mutual

/-- The bytes at `start` of the user buffer spell a value of the property, behind the payloads
`prior`; it is to be written as `v`. -/
def Property.Spells : Property → ℕ → List UInt8 → SerValue → Prop
  | ⟨_, .struct members⟩, start, bytes, v =>
    ∃ entries, v = .map entries ∧ MembersSpell members start bytes entries
  | ⟨_, .structArray members count⟩, start, bytes, v =>
    ∃ values size, v = .seq values ∧ CountIs prior count values.length ∧
      MembersHaveSize P.record.pointerSize members size ∧
      SpelledInTurn size (fun start bytes v => ∃ entries, v = .map entries ∧
        MembersSpell members start bytes entries) start bytes values
  | ⟨_, .value inType outType length⟩, _, bytes, v =>
    ValueSpells N P.record.pointerSize prior inType outType length bytes v
  | ⟨_, .array inType outType _ _⟩, start, bytes, v =>
    ArraySpells P.record.pointerSize (P.record.userData + start) inType outType bytes v
  | ⟨_, .unsupported _⟩, _, _, _ => False

/-- The members of a structure, each of a size that the schema says, one behind the other. -/
def MembersSpell : List Property → ℕ → List UInt8 → SerMap → Prop
  | [], _, bytes, entries => bytes = [] ∧ entries = []
  | m :: ms, start, bytes, entries => ∃ first rest v more, bytes = first ++ rest ∧
    entries = (m.name, v) :: more ∧
    m.HasFixedSize P.record.pointerSize first.length ∧
    Property.Spells m start first v ∧ MembersSpell ms (start + first.length) rest more

end

/-- The payloads of the properties, behind those that `prior` is. -/
def EventSpells : List (List UInt8) → List Property → List (List UInt8) → SerMap → Prop
  | prior, p :: ps, payload :: payloads, entries => ∃ v more, entries = (p.name, v) :: more ∧
    p.Spells P N prior prior.flatten.length payload v ∧
    EventSpells (prior ++ [payload]) ps payloads more
  | _, [], [], entries => entries = []
  | _, _, _, _ => False

end Spelling

/-! ### Members -/

section Members

variable {P : Parser} {N : Natives} {strict : Bool} {prior : List (List UInt8)} {s : ParserState}

/-- A member is cut out of its structure. -/
theorem memberBuffer_of_hasFixedSize {t : Target} {pointerSize : ℕ} {m : Property} {start : ℕ}
    {front first rest : List UInt8} {computed : ℕ} (h : m.HasFixedSize pointerSize first.length)
    (hcomputed : m.fixedSize t pointerSize = .ok (some computed))
    (hle : (front ++ (first ++ rest)).length ≤ 65535) :
    memberBuffer t pointerSize m ⟨start, front ++ (first ++ rest)⟩ front.length =
      .ok (some (⟨start + front.length, first⟩, front.length + first.length)) := by
  have hfrom : (⟨start, front ++ (first ++ rest)⟩ : Slice).getFrom front.length =
      some ⟨start + front.length, first ++ rest⟩ := by
    rw [Slice.getFrom_eq_some_iff]
    refine ⟨?_, by rw [List.drop_left]⟩
    rw [Slice.len, List.length_append]
    exact Nat.le_add_right _ _
  have ht := t.usizeMax_ge
  rw [List.length_append, List.length_append] at hle
  have hadd : t.add front.length first.length = .ok (front.length + first.length) :=
    Target.add_of_le (by omega)
  obtain rfl := h.fixedSize_eq hcomputed (by omega)
  rw [memberBuffer, memberSize, hcomputed]
  simp only [bind_ok, hfrom, Option.bind_some, Slice.getTo_append_left rfl, hadd]

/-- An element ends where the sizes of its members say, when they can be added up. -/
theorem elementEnd_of_membersHaveSize {t : Target} {pointerSize : ℕ} {bytes : Slice}
    (hlen : bytes.len ≤ t.usizeMax) : ∀ {members : List Property} {size acc total : ℕ}
      (offset : ℕ), MembersHaveSize pointerSize members size →
      sumFixedSizes t pointerSize members acc = .ok (some total) → offset + size ≤ bytes.len →
      elementEnd t pointerSize bytes members offset = .ok (some (offset + size))
  | [], size, _, _, offset, h, _, _ => by
    obtain rfl : size = 0 := h
    rfl
  | m :: ms, size, acc, total, offset, h, hsum, hroom => by
    obtain ⟨a, b, ha, hb, rfl⟩ := h
    obtain ⟨computed, acc', hcomputed, -, hrest⟩ := sumFixedSizes_cons_eq_ok hsum
    obtain rfl := ha.fixedSize_eq hcomputed (by omega)
    obtain ⟨buffer, hbuffer, -⟩ := memberBuffer_of_fixedSize offset hlen hcomputed (by omega)
    rw [elementEnd, hbuffer, bind_ok]
    dsimp only
    rw [elementEnd_of_membersHaveSize hlen (offset + computed) hb hrest (by omega), Nat.add_assoc]

/-- **Elements are written as they were spelled.** -/
theorem serElements_of_spelled {size : ℕ} {Spells : ℕ → List UInt8 → SerValue → Prop}
    {elementEnd : ℕ → Checked (Option ℕ)}
    {serElement : Slice → ParserState → Outcome SerError SerMap × ParserState} {start : ℕ}
    {whole : List UInt8} (hend : ∀ offset, offset + size ≤ whole.length →
      elementEnd offset = .ok (some (offset + size)))
    (hser : ∀ start first v, Spells start first v → first.length ≤ whole.length →
      ∃ map, v = .map map ∧ serElement ⟨start, first⟩ s = (.ok map, s)) :
    ∀ {values : List SerValue} {front bytes : List UInt8} (seq : List SerValue),
      whole = front ++ bytes → SpelledInTurn size Spells (start + front.length) bytes values →
      serElements elementEnd serElement ⟨start, whole⟩ values.length front.length seq s =
        (.ok (seq ++ values), s)
  | [], _, _, seq, _, _ => by rw [List.append_nil]; rfl
  | v :: vs, front, bytes, seq, hwhole, h => by
    obtain ⟨first, rest, rfl, rfl, hspells, hrest⟩ := h
    have hlength : whole.length = front.length + (first.length + rest.length) := by
      rw [hwhole, List.length_append, List.length_append]
    have hrange : (⟨start, whole⟩ : Slice).getRange front.length (front.length + first.length) =
        some ⟨start + front.length, first⟩ := by
      refine Slice.getRange_eq_some_iff.mpr ⟨⟨Nat.le_add_right _ _, ?_⟩, ?_⟩
      · rw [Slice.len, hlength]
        omega
      · rw [hwhole, List.drop_take, Nat.add_sub_cancel_left, List.drop_left, List.take_left]
    obtain ⟨map, rfl, hmap⟩ := hser _ first v hspells (by omega)
    have hnext : serElements elementEnd serElement ⟨start, whole⟩ vs.length (front ++ first).length
        (seq ++ [.map map]) s = (.ok (seq ++ [.map map] ++ vs), s) :=
      serElements_of_spelled hend hser _ (by rw [hwhole, List.append_assoc])
        (by rwa [List.length_append, ← Nat.add_assoc])
    rw [List.length_cons, serElements, hend front.length (by omega)]
    dsimp only
    rw [hrange]
    dsimp only
    rw [hmap, andThen_ok, ← List.length_append, hnext, List.append_assoc]
    rfl

end Members

/-! ### Properties -/

section Properties

variable {P : Parser} {N : Natives} {strict : Bool} {prior : List (List UInt8)} {s : ParserState}

/-- What the payloads carry, the serializer reads off the parser. -/
def CountsRead (P : Parser) (prior : List (List UInt8)) (s : ParserState) : Prop :=
  ∀ count n, CountIs prior count n → CountFits P.target prior count →
    resolveStructCount P count s = (.ok (some n), s)

/-- A property whose fixed size is computed can be sized, whatever is in front of it. -/
theorem Property.sizable_of_fixedSize {t : Target} {pointerSize n : ℕ} : ∀ {p : Property},
    p.fixedSize t pointerSize = .ok (some n) → p.Sizable t pointerSize prior
  | ⟨_, .value _ _ _⟩, _ => trivial
  | ⟨_, .array _ _ _ (.count _)⟩, _ => trivial
  | ⟨_, .array inType _ length (.index i)⟩, h => by
    rw [Property.fixedSize, arrayFixedSize_eq] at h
    obtain ⟨hprod, -⟩ := boundedProduct_eq_some (Except.ok.inj h)
    cases hprod
  | ⟨_, .struct _⟩, h => membersSizable_iff.mpr ⟨n, h⟩
  | ⟨_, .structArray members count⟩, h => by
    rw [Property.fixedSize] at h
    obtain ⟨elem, hsum, hmul⟩ := bind_eq_ok_iff.mp h
    cases elem with
    | none => cases hmul
    | some elem =>
      cases count with
      | count c => exact ⟨membersSizable_iff.mpr ⟨elem, hsum⟩, trivial⟩
      | index i => cases hmul
  | ⟨_, .unsupported _⟩, _ => trivial

mutual

/-- **A property is written as it was spelled**, and asks for nothing new. -/
theorem serProperty_of_spells (hutf16 : ∀ s, N.decodeUtf16Lossy (encodeUtf16 s) = s)
    (hcounts : CountsRead P prior s) : ∀ {p : Property} {start : ℕ} {bytes : List UInt8}
    {v : SerValue} (map : SerMap), p.Spells P N prior start bytes v →
      p.Sizable P.target P.record.pointerSize prior → bytes.length ≤ 65535 →
      serProperty P N strict p ⟨start, bytes⟩ map s = (.ok (map ++ [(p.name, v)]), s)
  | ⟨name, .struct members⟩, start, bytes, v, map, h, hfit, hle => by
    obtain ⟨entries, rfl, hentries⟩ := h
    obtain ⟨total, hsum⟩ := membersSizable_iff.mp hfit
    have hstruct : structSer P N strict ⟨start, [] ++ bytes⟩ members ([] : List UInt8).length [] s =
        (.ok ([] ++ entries), s) := structSer_of_spells hutf16 hcounts [] hentries hsum hle
    rw [serProperty, show structSer P N strict ⟨start, bytes⟩ members 0 [] s =
      (.ok ([] ++ entries), s) from hstruct, andThen_ok]
    rfl
  | ⟨name, .structArray members count⟩, start, bytes, v, map, h, hfit, hle => by
    obtain ⟨values, size, rfl, hcount, hsize, hvalues⟩ := h
    obtain ⟨total, hsum⟩ := membersSizable_iff.mp hfit.1
    have ht := P.target.usizeMax_ge
    have hlen : (⟨start, bytes⟩ : Slice).len ≤ P.target.usizeMax := by
      show bytes.length ≤ P.target.usizeMax
      omega
    have hser : ∀ (start : ℕ) (first : List UInt8) (v : SerValue),
        (∃ entries, v = .map entries ∧ MembersSpell P N prior members start first entries) →
        first.length ≤ bytes.length → ∃ map, v = .map map ∧
          structSer P N strict ⟨start, first⟩ members 0 [] s = (.ok map, s) := by
      rintro start first _ ⟨entries, rfl, hentries⟩ hfirst
      have hstruct : structSer P N strict ⟨start, [] ++ first⟩ members ([] : List UInt8).length []
          s = (.ok ([] ++ entries), s) :=
        structSer_of_spells hutf16 hcounts [] hentries hsum (by simp; omega)
      exact ⟨entries, rfl, hstruct⟩
    have hseq : serElements (elementEnd P.target P.record.pointerSize ⟨start, bytes⟩ members)
        (fun element s => structSer P N strict element members 0 [] s) ⟨start, bytes⟩ values.length
        ([] : List UInt8).length [] s = (.ok ([] ++ values), s) :=
      serElements_of_spelled (fun offset hroom =>
        elementEnd_of_membersHaveSize hlen offset hsize hsum hroom) hser [] rfl hvalues
    rw [serProperty, hcounts count values.length hcount hfit.2, andThen_ok]
    dsimp only
    rw [show serElements (elementEnd P.target P.record.pointerSize ⟨start, bytes⟩ members)
      (fun element s => structSer P N strict element members 0 [] s) ⟨start, bytes⟩ values.length
      0 [] s = (.ok ([] ++ values), s) from hseq, andThen_ok]
    rfl
  | ⟨name, .value inType outType length⟩, start, bytes, v, map, h, _, _ => by
    rw [serProperty, serValue_of_spells hutf16 h]
  | ⟨name, .array inType outType length count⟩, start, bytes, v, map, h, _, hle => by
    rw [serProperty, serValue_of_arraySpells h hle]

/-- Members are written as they were spelled. -/
theorem structSer_of_spells (hutf16 : ∀ s, N.decodeUtf16Lossy (encodeUtf16 s) = s)
    (hcounts : CountsRead P prior s) : ∀ {members : List Property} {start : ℕ}
    {front bytes : List UInt8} {entries : SerMap} {acc total : ℕ} (map : SerMap),
    MembersSpell P N prior members (start + front.length) bytes entries →
      sumFixedSizes P.target P.record.pointerSize members acc = .ok (some total) →
      (front ++ bytes).length ≤ 65535 →
      structSer P N strict ⟨start, front ++ bytes⟩ members front.length map s =
        (.ok (map ++ entries), s)
  | [], start, front, bytes, entries, _, _, map, h, _, _ => by
    obtain ⟨rfl, rfl⟩ := h
    rw [structSer, List.append_nil]
  | m :: ms, start, front, bytes, entries, _, _, map, h, hsum, hle => by
    obtain ⟨first, rest, v, more, rfl, rfl, hsize, hspells, hrest⟩ := h
    obtain ⟨computed, acc', hcomputed, -, hsum'⟩ := sumFixedSizes_cons_eq_ok hsum
    have hlength : (front ++ (first ++ rest)).length =
        front.length + (first.length + rest.length) := by
      rw [List.length_append, List.length_append]
    have hmore : structSer P N strict ⟨start, (front ++ first) ++ rest⟩ ms (front ++ first).length
        (map ++ [(m.name, v)]) s = (.ok (map ++ [(m.name, v)] ++ more), s) :=
      structSer_of_spells hutf16 hcounts _ (by rwa [List.length_append, ← Nat.add_assoc]) hsum'
        (by rwa [List.append_assoc])
    rw [structSer, memberBuffer_of_hasFixedSize hsize hcomputed hle]
    dsimp only
    rw [serProperty_of_spells hutf16 hcounts map hspells (Property.sizable_of_fixedSize hcomputed)
      (by omega), andThen_ok,
      ← List.append_assoc, ← List.length_append, hmore, List.append_assoc]
    rfl

end

end Properties

/-! ### Events -/

section Events

variable {P : Parser} {N : Natives} {payloads : List (List UInt8)}

/-- A position that is located is answered, and the cache reaches behind it. -/
theorem Parser.Follows.propertyBytesAt {dataStart : Option ℕ} {located : List PropertySlice}
    {stop : Fault ParserError} (hF : P.Follows dataStart located stop (· = [])) {s : ParserState}
    (hs : Cached P dataStart located s) (hcalls : s.tdhCalls = []) {i : ℕ} {slice : PropertySlice}
    (hslice : located[i]? = some slice) :
    ∃ s', P.propertyBytesAt i s = (.ok slice.buffer, s') ∧ Cached P dataStart located s' ∧
      s'.tdhCalls = [] ∧ i < s'.cache.slices.length := by
  obtain ⟨hs', hcalls', -, hanswer⟩ := hF.call hs hcalls (.bytesAt i)
  have hbytes := Answer.bytes.inj (hanswer trivial)
  rw [bytesAnswer, hslice] at hbytes
  have hrun : P.propertyBytesAt i s = (.ok slice.buffer, (P.call s (.bytesAt i)).2) :=
    Prod.ext hbytes rfl
  obtain ⟨-, cached, hcached, -⟩ := Parser.advances_of_propertyBytesAt hrun
  exact ⟨_, hrun, hs', hcalls', (List.getElem?_eq_some_iff.mp hcached).1⟩

/-- Counts that earlier payloads carry are read off a cache that reaches this far. -/
theorem countsRead_of_cached (hlen : payloads.length = P.properties.length) {s : ParserState}
    (hs : Cached P (some 0) (packedSlices 0 P.properties payloads) s) {i : ℕ}
    (hi : i < s.cache.slices.length) : CountsRead P (payloads.take i) s := by
  intro count n hcount hfit
  have htake : (s.cache.slices.take i).map (·.buffer.bytes) = payloads.take i := by
    rw [List.map_take, bytes_eq_take hlen hs.isPrefix, List.take_take, Nat.min_eq_left hi.le]
  rw [← htake] at hcount hfit
  exact resolveStructCount_eq hs.toWalked (k := i) (hcount.elementCount hfit)

variable (hutf16 : ∀ s, N.decodeUtf16Lossy (encodeUtf16 s) = s)
  (hpacked : Packed P.record.pointerSize [] P.properties payloads)
  (hfit : PackedSizable P.target P.record.pointerSize P.properties payloads)
  (hbuffer : P.record.userBuffer = payloads.flatten)

include hutf16 hpacked hfit hbuffer

/-- **The properties from a position on are written as they were spelled.** -/
theorem eventEntries_of_spells (strict : Bool) : ∀ {ps : List Property}
    {done rest : List (List UInt8)} {entries : SerMap} {s : ParserState} (map : SerMap),
    P.properties.drop done.length = ps → payloads = done ++ rest →
      EventSpells P N done ps rest entries →
      Cached P (some 0) (packedSlices 0 P.properties payloads) s → s.tdhCalls = [] →
      ∃ s', eventEntries P N strict ps done.length map s = (.ok (map ++ entries), s') ∧
        s'.tdhCalls = []
  | [], done, rest, entries, s, map, hps, hpayloads, h, hs, hcalls => by
    cases rest with
    | cons payload rest => cases h
    | nil =>
      obtain rfl : entries = [] := h
      exact ⟨s, by rw [eventEntries, List.append_nil], hcalls⟩
  | p :: ps, done, rest, entries, s, map, hps, hpayloads, h, hs, hcalls => by
    cases rest with
    | nil => cases h
    | cons payload rest =>
      obtain ⟨v, more, rfl, hspells, hmore⟩ := h
      have hprop : P.properties[done.length]? = some p := by
        rw [← List.head?_drop, hps, List.head?_cons]
      have hpay : payloads[done.length]? = some payload := by
        rw [hpayloads, List.getElem?_append_right (Nat.le_refl _), Nat.sub_self,
          List.getElem?_cons_zero]
      have htake : payloads.take done.length = done := by
        rw [hpayloads, List.take_left]
      have hslice : (packedSlices 0 P.properties payloads)[done.length]? =
          some ⟨p, ⟨done.flatten.length, payload⟩⟩ := by
        rw [packedSlices_getElem?, hprop, hpay, htake, Option.bind_some, Option.map_some,
          Nat.zero_add]
      obtain ⟨s₁, hbytes, hs₁, hcalls₁, hreach⟩ :=
        (follows_packedSlices hpacked hfit hbuffer).propertyBytesAt hs hcalls hslice
      have hcounts := countsRead_of_cached hpacked.length_eq hs₁ hreach
      rw [htake] at hcounts
      have hle : payload.length ≤ 65535 := by
        have hbound := P.record.userBuffer_le
        rw [hbuffer, hpayloads] at hbound
        simp only [List.flatten_append, List.flatten_cons, List.length_append] at hbound
        omega
      have hsizable := hfit _ p hprop
      rw [htake] at hsizable
      have hwritten : serProperty P N strict p ⟨done.flatten.length, payload⟩ map s₁ =
          (.ok (map ++ [(p.name, v)]), s₁) :=
        serProperty_of_spells hutf16 hcounts map hspells hsizable hle
      have hlength : (done ++ [payload]).length = done.length + 1 := List.length_append
      have hdrop : P.properties.drop (done ++ [payload]).length = ps := by
        rw [hlength, ← List.drop_drop, hps, List.drop_one, List.tail_cons]
      obtain ⟨s', hrest, hcalls'⟩ := eventEntries_of_spells strict (map ++ [(p.name, v)]) hdrop
        (by rw [hpayloads, List.append_assoc]; rfl) hmore hs₁ hcalls₁
      rw [hlength] at hrest
      refine ⟨s', ?_, hcalls'⟩
      rw [eventEntries, hbytes]
      dsimp only
      rw [hwritten, andThen_ok, hrest, List.append_assoc]
      rfl

/-- The event, from any state of its parser. -/
theorem eventSer_of_spells (strict : Bool) {entries : SerMap} {s : ParserState}
    (hspells : EventSpells P N [] P.properties payloads entries)
    (hs : Cached P (some 0) (packedSlices 0 P.properties payloads) s) (hcalls : s.tdhCalls = []) :
    ∃ s', eventSer P N strict s = (.ok (.map entries), s') ∧ s'.tdhCalls = [] := by
  obtain ⟨s', hentries, hcalls'⟩ :=
    eventEntries_of_spells hutf16 hpacked hfit hbuffer strict [] rfl rfl hspells hs hcalls
  exact ⟨s', andThen_eq_ok_iff.mpr ⟨_, _, hentries, rfl⟩, hcalls'⟩

end Events

end Ferrisetw2
