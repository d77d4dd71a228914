import Ferrisetw2.Lib.Text
import Ferrisetw2.Parser.Decode
import Ferrisetw2.Parser.Layout

/-!
# Strings in events

How a provider lays a string out, type by type, and what the parser makes of it. The layouts are
those of the documentation, with Rust's encodings: UTF-16 code units for the wide types, UTF-8 for
the others. A string is NUL-terminated, or padded with NULs to a length the schema declares, or
prefixed with the number of its bytes, or it takes all that is left of the event.

The decoder of UTF-16 is another library's. What is assumed of it is that it decodes the encoding of
the string at hand.

## Main definitions

* `CountPrefixed` — a count, and the payload it counts
* `LaysOut` — the layouts of a string
* `cString` — the characters before the first NUL

## Main results

* `string_round_trip` — the parser finds a string where it was put, and reads it back
* `ansi_wide_agree_iff` — which NUL-padded fields the ANSI and the wide decoder agree on
-/

namespace Ferrisetw2

open Rust

/-! ### Counts -/

/-- The bytes are a count of this width, and a payload of as many bytes as the count says. -/
def CountPrefixed (width : ℕ) (value : List UInt8 → ℕ) (bytes payload : List UInt8) : Prop :=
  ∃ count, count.length = width ∧ bytes = count ++ payload ∧ value count = payload.length

/-- What is cut out by a count is prefixed by it. -/
theorem exists_countPrefixed {width : ℕ} {value : List UInt8 → ℕ} {remaining count : List UInt8}
    (hcount : take? width remaining = some count)
    (hroom : width + value count ≤ remaining.length) :
    ∃ payload, CountPrefixed width value (remaining.take (width + value count)) payload := by
  have hwidth := length_of_take? hcount
  obtain rfl : count = remaining.take width := by
    unfold take? at hcount
    split at hcount
    · exact (Option.some.inj hcount).symm
    · contradiction
  refine ⟨(remaining.drop width).take (value (remaining.take width)), _, hwidth, List.take_add, ?_⟩
  rw [List.length_take_of_le]
  rw [List.length_drop]
  omega

theorem length_of_countPrefixed {width : ℕ} {value : List UInt8 → ℕ} {bytes payload : List UInt8}
    (h : CountPrefixed width value bytes payload) : bytes.length = width + payload.length := by
  obtain ⟨count, rfl, rfl, -⟩ := h
  exact List.length_append

section Decoders

variable {t : Target} {N : Natives} {bytes payload : List UInt8}

theorem range_countPrefixed {width : ℕ} {count : List UInt8} (hwidth : count.length = width) :
    range width (width + payload.length) (count ++ payload) = payload := by
  subst hwidth
  rw [range, ← List.length_append, List.take_length, List.drop_left]

/-- A counted string is decoded from its payload. -/
theorem parseCountedString_of_countPrefixed (wide bigEndian : Bool)
    (h : CountPrefixed 2 (if bigEndian then beValue else leValue) bytes payload) :
    parseCountedString N bytes wide bigEndian =
      if wide then .ok (N.decodeUtf16Lossy (codeUnits payload)) else fromUtf8 payload := by
  obtain ⟨count, hwidth, rfl, hvalue⟩ := h
  have hprefix : readCountPrefix (count ++ payload) bigEndian = .ok payload.length := by
    rw [readCountPrefix, take?_append hwidth]
    dsimp only
    rw [← hvalue]
    cases bigEndian <;> rfl
  have hroom : 2 + payload.length ≤ (count ++ payload).length := by
    rw [List.length_append, hwidth]
  rw [parseCountedString, hprefix]
  dsimp only
  rw [decodeCountedPayload, if_pos hroom, range_countPrefixed hwidth]

/-- A counted binary is its payload. -/
theorem countPrefixedBinary_of_countPrefixed {width : ℕ}
    (h : CountPrefixed width leValue bytes payload)
    (hfit : width + payload.length ≤ t.usizeMax) :
    countPrefixedBinary t bytes width = .ok payload := by
  obtain ⟨count, hwidth, rfl, hvalue⟩ := h
  rw [countPrefixedBinary, take?_append hwidth]
  dsimp only
  rw [hvalue, Target.add_of_le hfit]
  dsimp only
  rw [if_pos ⟨Nat.le_add_right _ _, by rw [List.length_append, hwidth]⟩,
    range_countPrefixed hwidth]

end Decoders

/-! ### Padding -/

/-- A zero ends a string. -/
theorem takeWhile_append_replicate {α : Type*} {p : α → Bool} {a : α} (ha : p a = false)
    {xs : List α} (hxs : ∀ x ∈ xs, p x = true) (n : ℕ) :
    (xs ++ List.replicate n a).takeWhile p = xs := by
  rw [List.takeWhile_append_of_pos hxs]
  cases n with
  | zero => simp
  | succ n => simp [List.replicate_succ, ha]

theorem codeUnits_replicate_zero (n : ℕ) :
    codeUnits (List.replicate (2 * n) 0) = List.replicate n 0 := by
  induction n with
  | zero => rfl
  | succ n ih =>
    rw [Nat.mul_succ, List.replicate_succ, List.replicate_succ, codeUnits, ih,
      List.replicate_succ]
    rfl

/-! ### Layouts -/

/-- The bytes are the string as this in type and length lay it out, behind the properties whose
bytes are `prior` and in front of the bytes `following`. -/
inductive LaysOut (prior : List (List UInt8)) (s : String) (following : List UInt8) :
    TdhInType → PropertyLength → List UInt8 → Prop where
  /-- NUL-terminated UTF-16. -/
  | unicode (hs : Char.ofNat 0 ∉ s.toList) :
      LaysOut prior s following .inTypeUnicodeString (.length 0) (wideBytes s ++ [0, 0])
  /-- UTF-16, NUL-padded to a declared number of code units. -/
  | unicodeFixed {l pad} (hs : Char.ofNat 0 ∉ s.toList) (hl : 0 < l)
      (hlen : (encodeUtf16 s).length + pad = UInt16.toNat l) :
      LaysOut prior s following .inTypeUnicodeString (.length l)
        (wideBytes s ++ List.replicate (2 * pad) 0)
  /-- The same, with the number in an earlier property. -/
  | unicodeCarried {i n pad} (hs : Char.ofNat 0 ∉ s.toList) (hc : Carries prior i n)
      (hlen : (encodeUtf16 s).length + pad = n) :
      LaysOut prior s following .inTypeUnicodeString (.index i)
        (wideBytes s ++ List.replicate (2 * pad) 0)
  /-- NUL-terminated UTF-8. -/
  | ansi (hs : Char.ofNat 0 ∉ s.toList) :
      LaysOut prior s following .inTypeAnsiString (.length 0) (utf8Bytes s ++ [0])
  /-- UTF-8, NUL-padded to a declared number of bytes. -/
  | ansiFixed {l pad} (hs : Char.ofNat 0 ∉ s.toList) (hl : 0 < l)
      (hlen : (utf8Bytes s).length + pad = UInt16.toNat l) :
      LaysOut prior s following .inTypeAnsiString (.length l)
        (utf8Bytes s ++ List.replicate pad 0)
  /-- The same, with the number in an earlier property. -/
  | ansiCarried {i n pad} (hs : Char.ofNat 0 ∉ s.toList) (hc : Carries prior i n)
      (hlen : (utf8Bytes s).length + pad = n) :
      LaysOut prior s following .inTypeAnsiString (.index i)
        (utf8Bytes s ++ List.replicate pad 0)
  /-- UTF-16 behind the number of its bytes. -/
  | counted {inType length}
      (h : inType = .inTypeManifestCountedString ∨ inType = .inTypeCountedString)
      (hmax : (wideBytes s).length ≤ 65535) :
      LaysOut prior s following inType length (leBytes 2 (wideBytes s).length ++ wideBytes s)
  /-- UTF-8 behind the number of its bytes. -/
  | countedAnsi {inType length}
      (h : inType = .inTypeManifestCountedAnsiString ∨ inType = .inTypeCountedAnsiString)
      (hmax : (utf8Bytes s).length ≤ 65535) :
      LaysOut prior s following inType length (leBytes 2 (utf8Bytes s).length ++ utf8Bytes s)
  /-- UTF-16 behind the number of its bytes, in network order. -/
  | reversed {length} (hmax : (wideBytes s).length ≤ 65535) :
      LaysOut prior s following .inTypeReversedCountedString length
        ((leBytes 2 (wideBytes s).length).reverse ++ wideBytes s)
  /-- UTF-8 behind the number of its bytes, in network order. -/
  | reversedAnsi {length} (hmax : (utf8Bytes s).length ≤ 65535) :
      LaysOut prior s following .inTypeReversedCountedAnsiString length
        ((leBytes 2 (utf8Bytes s).length).reverse ++ utf8Bytes s)
  /-- UTF-16 up to the end of the event. -/
  | rest {length} (h : following = []) :
      LaysOut prior s following .inTypeNonNullTerminatedString length (wideBytes s)
  /-- UTF-8 up to the end of the event. -/
  | restAnsi {length} (h : following = []) :
      LaysOut prior s following .inTypeNonNullTerminatedAnsiString length (utf8Bytes s)

section LaysOut

variable {s : String} {following bytes : List UInt8} {inType : TdhInType}
  {length : PropertyLength}

theorem countPrefixed_leBytes {payload : List UInt8} (hmax : payload.length ≤ 65535) :
    CountPrefixed 2 leValue (leBytes 2 payload.length ++ payload) payload :=
  ⟨_, length_leBytes 2 _, rfl, leValue_leBytes (Nat.lt_succ_of_le hmax)⟩

theorem countPrefixed_beBytes {payload : List UInt8} (hmax : payload.length ≤ 65535) :
    CountPrefixed 2 beValue ((leBytes 2 payload.length).reverse ++ payload) payload := by
  refine ⟨_, ?_, rfl, ?_⟩
  · rw [List.length_reverse, length_leBytes]
  · rw [beValue, List.reverse_reverse]
    exact leValue_leBytes (Nat.lt_succ_of_le hmax)

/-- A payload behind a count is laid out as the counted types are. -/
theorem CountPrefixed.encodes {payload : List UInt8} (h : CountPrefixed 2 leValue bytes payload)
    (hcounted : Counted inType) {pointerSize : ℕ} {prior : List (List UInt8)} {name : String}
    {outType : TdhOutType} :
    Encodes pointerSize prior ⟨name, .value inType outType length⟩ bytes := by
  obtain ⟨count, hcount, rfl, hvalue⟩ := h
  exact .counted hcounted hcount hvalue

theorem CountPrefixed.encodes_reversed {payload : List UInt8}
    (h : CountPrefixed 2 beValue bytes payload) (hcounted : ReversedCounted inType)
    {pointerSize : ℕ} {prior : List (List UInt8)} {name : String} {outType : TdhOutType} :
    Encodes pointerSize prior ⟨name, .value inType outType length⟩ bytes := by
  obtain ⟨count, hcount, rfl, hvalue⟩ := h
  exact .reversedCounted hcounted hcount hvalue

theorem length_wide_padded (s : String) (pad : ℕ) :
    (wideBytes s ++ List.replicate (2 * pad) 0).length = 2 * ((encodeUtf16 s).length + pad) := by
  rw [List.length_append, wideBytes, length_unitBytes, List.length_replicate, Nat.mul_add]

theorem length_utf8_padded (s : String) (pad : ℕ) :
    (utf8Bytes s ++ List.replicate pad 0).length = (utf8Bytes s).length + pad := by
  rw [List.length_append, List.length_replicate]

/-- **A string is sized as it was laid out.** -/
theorem LaysOut.findPropertySize {t : Target} {parsed : List PropertySlice}
    (h : LaysOut (parsed.map (·.buffer.bytes)) s following inType length bytes)
    (hle : bytes.length ≤ t.usizeMax) (pointerSize : ℕ) (name : String) (outType : TdhOutType) :
    findPropertySize t pointerSize ⟨name, .value inType outType length⟩ parsed
      (bytes ++ following) = .ok (.size bytes.length) := by
  cases h with
  | unicode hs =>
    refine findPropertySize_of_encodes (.unicodeString ?_ ?_) trivial hle following
    · rw [wideBytes, length_unitBytes]
      exact Nat.dvd_mul_right 2 _
    · rw [wideBytes, codeUnits_unitBytes, zero_mem_encodeUtf16_iff]
      exact hs
  | unicodeFixed hs hl hlen =>
    refine findPropertySize_of_encodes (.fixed ?_) Property.sizable_value hle following
    rw [length_wide_padded, hlen]
    exact .literal (Or.inl rfl) hl
  | unicodeCarried hs hc hlen =>
    refine findPropertySize_of_encodes (.carried (Or.inl rfl) hc ?_) trivial hle following
    rw [length_wide_padded, hlen]
    rfl
  | ansi hs =>
    refine findPropertySize_of_encodes (.ansiString ?_) trivial hle following
    rw [zero_mem_utf8Bytes_iff]
    exact hs
  | ansiFixed hs hl hlen =>
    refine findPropertySize_of_encodes (.fixed ?_) Property.sizable_value hle following
    rw [length_utf8_padded, hlen, ← Nat.one_mul (UInt16.toNat _)]
    exact .literal (Or.inr (Or.inl rfl)) hl
  | ansiCarried hs hc hlen =>
    refine findPropertySize_of_encodes (.carried (Or.inr (Or.inl rfl)) hc ?_) trivial hle following
    rw [length_utf8_padded, hlen]
    exact (Nat.one_mul _).symm
  | counted h hmax =>
    have hcounted : Counted inType := by rcases h with rfl | rfl <;> simp [Counted]
    exact findPropertySize_of_encodes ((countPrefixed_leBytes hmax).encodes hcounted) trivial hle
      following
  | countedAnsi h hmax =>
    have hcounted : Counted inType := by rcases h with rfl | rfl <;> simp [Counted]
    exact findPropertySize_of_encodes ((countPrefixed_leBytes hmax).encodes hcounted) trivial hle
      following
  | reversed hmax =>
    exact findPropertySize_of_encodes
      ((countPrefixed_beBytes hmax).encodes_reversed (Or.inl rfl)) trivial hle following
  | reversedAnsi hmax =>
    exact findPropertySize_of_encodes
      ((countPrefixed_beBytes hmax).encodes_reversed (Or.inr rfl)) trivial hle following
  | rest h =>
    subst h
    rw [List.append_nil]
    exact valueSize_of_content parsed rfl (Or.inr rfl) rfl hle
  | restAnsi h =>
    subst h
    rw [List.append_nil]
    exact valueSize_of_content parsed rfl (Or.inr rfl) rfl hle

/-- Wide bytes with zeros behind them are decoded up to the zeros. -/
theorem tryParseString_unicode {t : Target} {N : Natives} (hs : Char.ofNat 0 ∉ s.toList)
    (hutf16 : N.decodeUtf16Lossy (encodeUtf16 s) = s) (name : String) (outType : TdhOutType)
    (start pad : ℕ) :
    tryParseString t N ⟨⟨name, .value .inTypeUnicodeString outType length⟩,
      ⟨start, wideBytes s ++ List.replicate (2 * pad) 0⟩⟩ = .ok s := by
  have hunits : codeUnits (wideBytes s ++ List.replicate (2 * pad) 0) =
      encodeUtf16 s ++ List.replicate pad 0 := by
    rw [wideBytes, codeUnits_append ?_, codeUnits_unitBytes, codeUnits_replicate_zero]
    rw [length_unitBytes]
    exact Nat.dvd_mul_right 2 _
  have hnonzero : ∀ u ∈ encodeUtf16 s, decide (u ≠ 0) = true := by
    intro u hu
    refine decide_eq_true ?_
    rintro rfl
    exact hs ((zero_mem_encodeUtf16_iff s).mp hu)
  have heven : ¬ (wideBytes s ++ List.replicate (2 * pad) 0).length % 2 ≠ 0 := by
    rw [length_wide_padded, Nat.mul_mod_right]
    exact fun h => h rfl
  show (if (wideBytes s ++ List.replicate (2 * pad) 0).length % 2 ≠ 0 then _ else _) = _
  rw [if_neg heven, hunits, takeWhile_append_replicate rfl hnonzero, hutf16]

theorem fromUtf8_utf8Bytes (s : String) : fromUtf8 (utf8Bytes s) = .ok s := by
  rw [fromUtf8, fromUTF8?_utf8Bytes]

/-- Bytes with zeros behind them are decoded without the zeros. -/
theorem tryParseString_ansi {t : Target} {N : Natives} (hs : Char.ofNat 0 ∉ s.toList)
    (name : String) (outType : TdhOutType) (start pad : ℕ) :
    tryParseString t N ⟨⟨name, .value .inTypeAnsiString outType length⟩,
      ⟨start, utf8Bytes s ++ List.replicate pad 0⟩⟩ = .ok s := by
  have hnul : ∀ c ∈ s.toList, decide (c = Char.ofNat 0) = false := by
    intro c hc
    refine decide_eq_false ?_
    rintro rfl
    exact hs hc
  have htrim : trim (decide <| · = Char.ofNat 0)
      (s.toList ++ List.replicate pad (Char.ofNat 0)) = s.toList :=
    trim_append hnul fun c hc => decide_eq_true (List.eq_of_mem_replicate hc)
  rw [trim] at htrim
  simp only [tryParseString, utf8Bytes_append_replicate, fromUtf8_utf8Bytes, trimMatchesNul,
    String.toList_ofList, htrim, String.ofList_toList]

/-- **A string is decoded as it was laid out.** -/
theorem LaysOut.tryParseString {t : Target} {N : Natives} {prior : List (List UInt8)}
    (h : LaysOut prior s following inType length bytes)
    (hutf16 : N.decodeUtf16Lossy (encodeUtf16 s) = s) (name : String) (outType : TdhOutType)
    (start : ℕ) :
    tryParseString t N ⟨⟨name, .value inType outType length⟩, ⟨start, bytes⟩⟩ = .ok s := by
  have hwide : (.ok (N.decodeUtf16Lossy (codeUnits (wideBytes s))) : Except ParserError String) =
      .ok s := by
    rw [wideBytes, codeUnits_unitBytes, hutf16]
  cases h with
  | unicode hs => exact tryParseString_unicode hs hutf16 name outType start 1
  | @unicodeFixed l pad hs _ _ => exact tryParseString_unicode hs hutf16 name outType start pad
  | @unicodeCarried i n pad hs _ _ => exact tryParseString_unicode hs hutf16 name outType start pad
  | ansi hs => exact tryParseString_ansi hs name outType start 1
  | @ansiFixed l pad hs _ _ => exact tryParseString_ansi hs name outType start pad
  | @ansiCarried i n pad hs _ _ => exact tryParseString_ansi hs name outType start pad
  | counted h hmax =>
    have hdecode := parseCountedString_of_countPrefixed (N := N) true false
      (countPrefixed_leBytes hmax)
    rcases h with rfl | rfl <;> exact hdecode.trans hwide
  | countedAnsi h hmax =>
    have hdecode := parseCountedString_of_countPrefixed (N := N) false false
      (countPrefixed_leBytes hmax)
    rcases h with rfl | rfl <;> exact hdecode.trans (fromUtf8_utf8Bytes s)
  | reversed hmax =>
    exact (parseCountedString_of_countPrefixed true true (countPrefixed_beBytes hmax)).trans hwide
  | reversedAnsi hmax =>
    exact (parseCountedString_of_countPrefixed false true (countPrefixed_beBytes hmax)).trans
      (fromUtf8_utf8Bytes s)
  | rest _ => exact hwide
  | restAnsi _ => exact fromUtf8_utf8Bytes s

end LaysOut

/-! ### In an event -/

/-- A property that is sized is located by the next step of the walk. -/
theorem parseNextProperty_of_size {P : Parser} {st : ParserState} {property : Property}
    {start : ℕ} {front bytes following : List UInt8}
    (hprop : P.properties[st.cache.slices.length]? = some property)
    (hstart : st.cache.dataStart = some start)
    (hoffset : start + st.cache.lastCachedOffset = front.length)
    (hbuffer : P.record.userBuffer = front ++ bytes ++ following)
    (hsize : findPropertySize P.target P.record.pointerSize property st.cache.slices
      (bytes ++ following) = .ok (.size bytes.length)) :
    P.parseNextProperty st =
      (.ok (), Parser.push st ⟨property, ⟨front.length, bytes⟩⟩) := by
  have hfrom : P.record.userSlice.getFrom (start + st.cache.lastCachedOffset) =
      some ⟨front.length, bytes ++ following⟩ := by
    rw [EventRecord.userSlice, hbuffer, List.append_assoc, hoffset, Slice.getFrom_eq_some_iff]
    refine ⟨?_, ?_⟩
    · rw [Slice.len, List.length_append]
      exact Nat.le_add_right _ _
    · rw [List.drop_left, Nat.zero_add]
  rw [Parser.parseNextProperty, hprop]
  dsimp only
  rw [hstart]
  dsimp only
  rw [hfrom]
  dsimp only
  rw [Parser.findPropertySize, hsize]
  dsimp only
  rw [Slice.getTo_append_left rfl]

/-- A name that no located property has is not probed. -/
theorem probe_of_forall_ne {c : CachedSlices} {name : String}
    (h : ∀ slice ∈ c.slices, slice.property.name ≠ name) : Parser.probe c name = none := by
  rw [Parser.probe, List.find?_eq_none]
  intro idx _
  cases hget : c.slices[idx]? with
  | none => exact Bool.false_ne_true
  | some slice =>
    have hne := h slice (List.mem_of_getElem? hget)
    simpa using hne

/-- **String values round-trip.** A string laid out at the offset the walk has reached, whatever is
in front of it and behind it, is located there by its position, and by its name if no earlier
property has it; the bytes located are decoded as the string. -/
theorem string_round_trip (P : Parser) (N : Natives) (st : ParserState) (s name : String)
    (inType : TdhInType) (outType : TdhOutType) (length : PropertyLength) (start : ℕ)
    (front bytes following : List UInt8)
    (hutf16 : N.decodeUtf16Lossy (encodeUtf16 s) = s)
    (hprop : P.properties[st.cache.slices.length]? = some ⟨name, .value inType outType length⟩)
    (hstart : st.cache.dataStart = some start)
    (hoffset : start + st.cache.lastCachedOffset = front.length)
    (hbuffer : P.record.userBuffer = front ++ bytes ++ following)
    (h : LaysOut (st.cache.slices.map (·.buffer.bytes)) s following inType length bytes) :
    (P.propertyBytesAt st.cache.slices.length st).1 = .ok ⟨front.length, bytes⟩ ∧
      ((∀ slice ∈ st.cache.slices, slice.property.name ≠ name) →
        (P.findProperty name st).1 =
          .ok ⟨⟨name, .value inType outType length⟩, ⟨front.length, bytes⟩⟩) ∧
      tryParseString P.target N
        ⟨⟨name, .value inType outType length⟩, ⟨front.length, bytes⟩⟩ = .ok s := by
  have hle : bytes.length ≤ P.target.usizeMax := by
    have hrecord := P.record.userBuffer_le
    have hmax := P.target.usizeMax_ge
    rw [hbuffer, List.length_append, List.length_append] at hrecord
    omega
  have hstep := parseNextProperty_of_size hprop hstart hoffset hbuffer
    (h.findPropertySize hle P.record.pointerSize name outType)
  refine ⟨?_, ?_, h.tryParseString hutf16 name outType front.length⟩
  · rw [Parser.propertyBytesAt, Nat.add_sub_cancel_left, Parser.parseMore, hstep]
    simp [Parser.parseMore, Parser.push]
  · intro hnames
    obtain ⟨k, hk⟩ : ∃ k, P.properties.length - st.cache.slices.length = k + 1 := by
      obtain ⟨hlt, -⟩ := List.getElem?_eq_some_iff.mp hprop
      exact ⟨P.properties.length - st.cache.slices.length - 1, by omega⟩
    rw [Parser.findProperty, probe_of_forall_ne hnames]
    dsimp only
    rw [hk, Parser.findMore, hstep]
    simp [Parser.push]

/-- A counted string with a character outside the basic plane, behind a byte and in front of
another, and the decoder `decodeUtf16`. -/
theorem string_round_trip_counted :
    let record : EventRecord := ⟨0, 0, [9, 6, 0, 104, 0, 61, 216, 0, 222, 7], by decide, []⟩
    let kind : Property := ⟨"Kind", .value .inTypeUInt8 .outTypeNull (.length 0)⟩
    let text : Property := ⟨"Text", .value .inTypeCountedString .outTypeNull (.length 0)⟩
    let P : Parser := ⟨⟨.b32, true⟩, [kind, text, kind], record, fun _ _ => .error .allocationError⟩
    let st : ParserState := ⟨⟨[⟨kind, ⟨0, [9]⟩⟩], 0, 1, some 0⟩, []⟩
    let N : Natives := ⟨fun units => String.ofList (decodeUtf16 units), fun _ => .ok ""⟩
    let bytes : Slice := ⟨1, [6, 0, 104, 0, 61, 216, 0, 222]⟩
    (P.propertyBytesAt 1 st).1 = .ok bytes ∧
      (P.findProperty "Text" st).1 = .ok ⟨text, bytes⟩ ∧
      tryParseString P.target N ⟨text, bytes⟩ = .ok "h😀" := by
  intro record kind text P st N bytes
  obtain ⟨hat, hfind, hparse⟩ := string_round_trip P N st "h😀" "Text" .inTypeCountedString
    .outTypeNull (.length 0) 0 [9] (leBytes 2 (wideBytes "h😀").length ++ wideBytes "h😀") [7]
    (decodeUtf16_encodeUtf16 "h😀") rfl rfl rfl rfl (.counted (Or.inr rfl) (by decide))
  refine ⟨hat, hfind ?_, hparse⟩
  intro slice hslice
  rw [List.mem_singleton.mp hslice]
  decide

/-! ### C strings -/

/-- The characters before the first NUL. -/
def cString (bytes : List UInt8) : String :=
  String.ofList ((bytes.takeWhile (· ≠ 0)).map byteChar)

section CString

variable {bytes : List UInt8}

/-- A wide string ends at its first NUL. -/
theorem tryParseString_zeroExtend {t : Target} {N : Natives}
    (hutf16 : N.decodeUtf16Lossy (encodeUtf16 (cString bytes)) = cString bytes) (name : String)
    (outType : TdhOutType) (length : PropertyLength) (start : ℕ) :
    tryParseString t N ⟨⟨name, .value .inTypeUnicodeString outType length⟩,
      ⟨start, zeroExtend bytes⟩⟩ = .ok (cString bytes) := by
  have heven : ¬ (zeroExtend bytes).length % 2 ≠ 0 := by
    rw [length_zeroExtend, Nat.mul_mod_right]
    exact fun h => h rfl
  have hnul : ((fun u : UInt16 => decide (u ≠ 0)) ∘ fun b : UInt8 => UInt16.ofNat b.toNat) =
      fun b => decide (b ≠ 0) := by
    funext b
    have hlt : b.toNat < 256 := b.toNat_lt
    have hzero : UInt16.ofNat b.toNat = 0 ↔ b = 0 := by
      rw [eq_comm, zero_eq_ofNat16_iff, Nat.mod_eq_of_lt (by omega), ← UInt8.toNat_inj]
      rfl
    exact decide_eq_decide.mpr (not_congr hzero)
  have hunits : (codeUnits (zeroExtend bytes)).takeWhile (· ≠ 0) = encodeUtf16 (cString bytes) := by
    rw [codeUnits_zeroExtend, List.takeWhile_map, hnul, cString, encodeUtf16_byteChars]
  show (if (zeroExtend bytes).length % 2 ≠ 0 then _ else _) = _
  rw [if_neg heven, hunits, hutf16]

/-- An ANSI string is trimmed at both ends. -/
theorem tryParseString_ascii {t : Target} {N : Natives} (hascii : ∀ b ∈ bytes, b.toNat < 128)
    (name : String) (outType : TdhOutType) (length : PropertyLength) (start : ℕ) :
    tryParseString t N ⟨⟨name, .value .inTypeAnsiString outType length⟩, ⟨start, bytes⟩⟩ =
      .ok (String.ofList ((trim (decide <| · = 0) bytes).map byteChar)) := by
  have hnul : ((fun c => decide (c = Char.ofNat 0)) ∘ byteChar) = fun b => decide (b = 0) := by
    funext b
    exact decide_eq_decide.mpr (byteChar_injective.eq_iff (a := b) (b := 0))
  have hutf8 : fromUtf8 bytes = .ok (String.ofList (bytes.map byteChar)) := by
    conv_lhs => rw [← utf8Bytes_byteChars hascii]
    exact fromUtf8_utf8Bytes _
  have htrim := trim_map (fun c => decide (c = Char.ofNat 0)) byteChar bytes
  simp only [tryParseString, hutf8, trimMatchesNul, String.toList_ofList]
  rw [← hnul]
  exact congrArg (fun cs => Except.ok (String.ofList cs)) htrim

/-- **ANSI and wide strings that follow the same rule.** For ASCII bytes both decoders return the
characters before the first NUL exactly if nothing but NULs is behind it. -/
theorem ansi_wide_agree_iff (t : Target) (N : Natives) (name name' : String)
    (outType outType' : TdhOutType) (length length' : PropertyLength) (start start' : ℕ)
    (bytes : List UInt8) (hascii : ∀ b ∈ bytes, b.toNat < 128)
    (hutf16 : N.decodeUtf16Lossy (encodeUtf16 (cString bytes)) = cString bytes) :
    (tryParseString t N ⟨⟨name, .value .inTypeAnsiString outType length⟩, ⟨start, bytes⟩⟩ =
        .ok (cString bytes) ∧
      tryParseString t N ⟨⟨name', .value .inTypeUnicodeString outType' length'⟩,
        ⟨start', zeroExtend bytes⟩⟩ = .ok (cString bytes)) ↔
      ∀ b ∈ bytes.dropWhile (· ≠ 0), b = 0 := by
  have htrim := trim_eq_takeWhile_iff (p := fun b : UInt8 => decide (b = 0)) bytes
  have hne : (fun b : UInt8 => !decide (b = 0)) = fun b => decide (b ≠ 0) := by
    funext b
    exact (decide_not).symm
  rw [hne] at htrim
  rw [and_iff_left (tryParseString_zeroExtend hutf16 name' outType' length' start'),
    tryParseString_ascii hascii, cString, Except.ok.injEq, String.ofList_inj,
    (List.map_injective_iff.mpr byteChar_injective).eq_iff, htrim]
  simp only [decide_eq_true_eq]

/-- A padded field. -/
theorem ansi_wide_agree_iff_padded :
    let N : Natives := ⟨fun units => String.ofList (decodeUtf16 units), fun _ => .ok ""⟩
    tryParseString ⟨.b64, false⟩ N
        ⟨⟨"Narrow", .value .inTypeAnsiString .outTypeNull (.length 4)⟩, ⟨0, [97, 98, 0, 0]⟩⟩ =
          .ok (cString [97, 98, 0, 0]) ∧
      tryParseString ⟨.b64, false⟩ N
        ⟨⟨"Wide", .value .inTypeUnicodeString .outTypeNull (.length 4)⟩,
          ⟨4, zeroExtend [97, 98, 0, 0]⟩⟩ = .ok (cString [97, 98, 0, 0]) := by
  intro N
  exact (ansi_wide_agree_iff ⟨.b64, false⟩ N "Narrow" "Wide" .outTypeNull .outTypeNull (.length 4)
    (.length 4) 0 4 [97, 98, 0, 0] (by simp) (decodeUtf16_encodeUtf16 _)).mpr (by simp)

/-- A NUL within a string ends the wide one only, and a NUL in front of it is the end of the wide
one only. -/
theorem ansi_wide_disagree :
    let N : Natives := ⟨fun units => String.ofList (decodeUtf16 units), fun _ => .ok ""⟩
    let narrow (bytes : List UInt8) : PropertySlice :=
      ⟨⟨"Narrow", .value .inTypeAnsiString .outTypeNull (.length 3)⟩, ⟨0, bytes⟩⟩
    let wide (bytes : List UInt8) : PropertySlice :=
      ⟨⟨"Wide", .value .inTypeUnicodeString .outTypeNull (.length 3)⟩, ⟨0, zeroExtend bytes⟩⟩
    (tryParseString ⟨.b64, false⟩ N (narrow [97, 0, 98]) =
        .ok (String.ofList ['a', Char.ofNat 0, 'b']) ∧
      tryParseString ⟨.b64, false⟩ N (wide [97, 0, 98]) = .ok "a") ∧
    (tryParseString ⟨.b64, false⟩ N (narrow [0, 97, 98]) = .ok "ab" ∧
      tryParseString ⟨.b64, false⟩ N (wide [0, 97, 98]) = .ok "") := by
  intro N narrow wide
  refine ⟨⟨?_, ?_⟩, ?_, ?_⟩
  · exact tryParseString_ascii (by simp) "Narrow" .outTypeNull (.length 3) 0
  · exact tryParseString_zeroExtend (decodeUtf16_encodeUtf16 _) "Wide" .outTypeNull (.length 3) 0
  · exact tryParseString_ascii (by simp) "Narrow" .outTypeNull (.length 3) 0
  · exact tryParseString_zeroExtend (decodeUtf16_encodeUtf16 _) "Wide" .outTypeNull (.length 3) 0

end CString

end Ferrisetw2
