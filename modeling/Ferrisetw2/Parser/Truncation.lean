import Ferrisetw2.Parser.ExactSize
import Ferrisetw2.Parser.History
import Ferrisetw2.Parser.Layout

/-!
# Truncated buffers

What the walk says about an event when bytes are missing at its end. Each sizing rule reads a prefix
of the bytes at the property's offset: up to a terminator, a count, the header of a SID. If the
prefix is there the rule does not see what follows, and if it is not there the rule fails.

## Main definitions

* `WalkMeets` — a condition holds at every property the walk reaches

## Main results

* `sizeFromContent_append` — a content size does not depend on what follows
* `sizeFromContent_of_append` — nor on what is missing behind the value
-/

namespace Ferrisetw2

open Rust

/-! ### Content sizes -/

/-- A rule that finds its prefix does not see what follows, and one that does not find it fails. -/
theorem sizeFromContent_append (t : Target) {inType : TdhInType} (outType : TdhOutType)
    (hrest : ¬ SpansRest inType) (bytes : List UInt8) :
    (∀ following, sizeFromContent t inType outType (bytes ++ following) =
      sizeFromContent t inType outType bytes) ∨
    ∃ e, sizeFromContent t inType outType bytes = .ok (.error e) := by
  cases inType with
  | inTypeAnsiString =>
    cases h : memchr 0 bytes with
    | none =>
      refine Or.inr ⟨.propertyError "AnsiString property is not null-terminated", ?_⟩
      simp only [sizeFromContent, h]
    | some i =>
      refine Or.inl fun following => ?_
      have h' : memchr 0 (bytes ++ following) = some i :=
        (findIdx?_append_of_lt _ (memchr_lt h) following).mpr h
      simp only [sizeFromContent, h, h']
  | inTypeUnicodeString =>
    cases h : (codeUnits bytes).findIdx? (· == 0) with
    | none =>
      refine Or.inr ⟨.propertyError "UnicodeString property is not null-terminated", ?_⟩
      simp only [sizeFromContent, h]
    | some i =>
      refine Or.inl fun following => ?_
      have h' := (findIdx_codeUnits_append (findIdx_codeUnits_lt h) following).mpr h
      simp only [sizeFromContent, h, h']
  | inTypeManifestCountedString | inTypeCountedString | inTypeManifestCountedAnsiString
  | inTypeCountedAnsiString | inTypeManifestCountedBinary | inTypeReversedCountedString
  | inTypeReversedCountedAnsiString =>
    by_cases h : 2 ≤ bytes.length
    · refine Or.inl fun following => ?_
      simp only [sizeFromContent, readCountPrefix, take?_append_of_le h following]
    · refine Or.inr ⟨.propertyError "counted string does not have length", ?_⟩
      have hnone : take? 2 bytes = none := if_neg h
      simp only [sizeFromContent, readCountPrefix, hnone]
  | inTypeHexDump =>
    by_cases h : 4 ≤ bytes.length
    · refine Or.inl fun following => ?_
      simp only [sizeFromContent, take?_append_of_le h following]
    · refine Or.inr ⟨.propertyError "hexdump property is truncated", ?_⟩
      have hnone : take? 4 bytes = none := if_neg h
      simp only [sizeFromContent, hnone]
  | inTypeSid | inTypeWbemSid =>
    by_cases h : 1 < bytes.length
    · refine Or.inl fun following => ?_
      simp only [sizeFromContent, List.getElem?_append_left h]
    · refine Or.inr ⟨.propertyError "SID property is truncated", ?_⟩
      have hnone : bytes[1]? = none := List.getElem?_eq_none (by omega)
      simp only [sizeFromContent, hnone]
  | inTypeNonNullTerminatedString => exact absurd (Or.inl rfl) hrest
  | inTypeNonNullTerminatedAnsiString => exact absurd (Or.inr rfl) hrest
  | _ => exact Or.inl fun following => rfl

/-- A content that is there is found when what follows it is missing. -/
theorem exactContentSize_of_append {inType : TdhInType} {outType : TdhOutType}
    (hrest : ¬ SpansRest inType) {bytes following : List UInt8} {n : ℕ}
    (h : exactContentSize inType outType (bytes ++ following) = some n) (hn : n ≤ bytes.length) :
    exactContentSize inType outType bytes = some n := by
  cases inType with
  | inTypeAnsiString =>
    obtain ⟨i, hi, rfl⟩ := Option.map_eq_some_iff.mp h
    exact Option.map_eq_some_iff.mpr
      ⟨i, (findIdx?_append_of_lt _ (Nat.lt_of_succ_le hn) following).mp hi, rfl⟩
  | inTypeUnicodeString =>
    obtain ⟨i, hi, rfl⟩ := Option.map_eq_some_iff.mp h
    exact Option.map_eq_some_iff.mpr ⟨i, (findIdx_codeUnits_append hn following).mp hi, rfl⟩
  | inTypeManifestCountedString | inTypeCountedString | inTypeManifestCountedAnsiString
  | inTypeCountedAnsiString | inTypeManifestCountedBinary | inTypeReversedCountedString
  | inTypeReversedCountedAnsiString | inTypeHexDump =>
    obtain ⟨count, hcount, rfl⟩ := Option.map_eq_some_iff.mp h
    rw [take?_append_of_le (by omega)] at hcount
    exact Option.map_eq_some_iff.mpr ⟨count, hcount, rfl⟩
  | inTypeSid | inTypeWbemSid =>
    obtain ⟨c, hc, rfl⟩ := Option.map_eq_some_iff.mp h
    rw [List.getElem?_append_left (by omega)] at hc
    exact Option.map_eq_some_iff.mpr ⟨c, hc, rfl⟩
  | inTypeNonNullTerminatedString => exact absurd (Or.inl rfl) hrest
  | inTypeNonNullTerminatedAnsiString => exact absurd (Or.inr rfl) hrest
  | _ => exact h

/-- The count of a hexdump either fits behind its prefix, or is there. -/
def HexdumpSafe (t : Target) (inType : TdhInType) (bytes following : List UInt8) : Prop :=
  inType = .inTypeHexDump → 4 ≤ bytes.length ∨
    ∀ count, take? 4 (bytes ++ following) = some count → 4 + leValue count ≤ t.usizeMax

/-- A value that is there is sized alike when what follows it is missing. -/
theorem sizeFromContent_of_append {t : Target} {inType : TdhInType} {outType : TdhOutType}
    (hrest : ¬ SpansRest inType) {bytes following : List UInt8} {n : ℕ}
    (hlen : (bytes ++ following).length ≤ t.usizeMax)
    (hsafe : HexdumpSafe t inType bytes following)
    (h : sizeFromContent t inType outType (bytes ++ following) = .ok (.size n))
    (hn : n ≤ bytes.length) : sizeFromContent t inType outType bytes = .ok (.size n) := by
  obtain hsame | - := sizeFromContent_append t outType hrest bytes
  · rw [← hsame following, h]
  by_cases hhex : inType = .inTypeHexDump ∧ 4 ≤ bytes.length
  · obtain ⟨rfl, hfour⟩ := hhex
    simp only [sizeFromContent, take?_append_of_le hfour] at h ⊢
    exact h
  · have hfits : ∀ count, inType = .inTypeHexDump → take? 4 (bytes ++ following) = some count →
        4 + leValue count ≤ t.usizeMax := fun count hin hcount => by
      obtain hfour | hfits := hsafe hin
      · exact absurd ⟨hin, hfour⟩ hhex
      · exact hfits count hcount
    obtain ⟨r, hr, hexact⟩ := sizeFromContent_exact outType hlen hfits
    rw [h] at hr
    obtain ⟨hcontent, hmax⟩ := hexact n (Except.ok.inj hr).symm
    exact sizeFromContent_of_exact (exactContentSize_of_append hrest hcontent hn) hmax

/-! ### Sizes -/

/-- The bytes at the property's offset matter to the content sizes alone. -/
theorem findPropertySize_cases (t : Target) (pointerSize : ℕ) (p : Property)
    (parsed : List PropertySlice) :
    (∀ bytes bytes', findPropertySize t pointerSize p parsed bytes =
      findPropertySize t pointerSize p parsed bytes') ∨
    ∃ inType outType length, p.info = .value inType outType length ∧
      ∀ bytes, findPropertySize t pointerSize p parsed bytes =
        sizeFromContent t inType outType bytes := by
  match p with
  | ⟨_, .array _ _ _ _⟩ => exact Or.inl fun _ _ => rfl
  | ⟨_, .struct _⟩ => exact Or.inl fun _ _ => rfl
  | ⟨_, .structArray _ _⟩ => exact Or.inl fun _ _ => rfl
  | ⟨_, .unsupported _⟩ => exact Or.inl fun _ _ => rfl
  | ⟨_, .value inType outType length⟩ =>
    by_cases hptr : inType.isPointer = true
    · refine Or.inl fun bytes bytes' => ?_
      simp only [findPropertySize, valueSize, if_pos hptr]
    cases length with
    | length l =>
      by_cases hl : 0 < l ∧ inType.isContentSized = false
      · refine Or.inl fun bytes bytes' => ?_
        simp only [findPropertySize, valueSize, if_neg hptr, if_pos hl]
      · refine Or.inr ⟨inType, outType, _, rfl, fun bytes => ?_⟩
        simp only [findPropertySize, valueSize, if_neg hptr, if_neg hl]
    | index i =>
      by_cases hc : inType.isContentSized = false
      · refine Or.inl fun bytes bytes' => ?_
        simp only [findPropertySize, valueSize, if_neg hptr, if_pos hc]
      · refine Or.inr ⟨inType, outType, _, rfl, fun bytes => ?_⟩
        simp only [findPropertySize, valueSize, if_neg hptr, if_neg hc]

/-- The property is no value that spans the remaining bytes. -/
def Property.EndsItself (p : Property) : Prop :=
  ∀ inType outType length, p.info = .value inType outType length → ¬ SpansRest inType

/-- A size does not depend on what follows the property, unless its prefix is missing. -/
theorem findPropertySize_append (t : Target) (pointerSize : ℕ) {p : Property}
    (hp : p.EndsItself) (parsed : List PropertySlice) (bytes : List UInt8) :
    (∀ following, findPropertySize t pointerSize p parsed (bytes ++ following) =
      findPropertySize t pointerSize p parsed bytes) ∨
    ∃ e, findPropertySize t pointerSize p parsed bytes = .ok (.error e) := by
  obtain hconst | ⟨inType, outType, length, hinfo, hcontent⟩ :=
    findPropertySize_cases t pointerSize p parsed
  · exact Or.inl fun following => hconst _ _
  · obtain hsame | herr := sizeFromContent_append t outType (hp _ _ _ hinfo) bytes
    · exact Or.inl fun following => by rw [hcontent, hcontent, hsame]
    · exact Or.inr (by rw [hcontent]; exact herr)

/-- Without its prefix within the bytes, a hexdump of this size leaves the word. -/
def HexCrosses (t : Target) (p : Property) (bytes following : List UInt8) (size : ℕ) : Prop :=
  ∃ outType length count, p.info = .value .inTypeHexDump outType length ∧
    take? 4 (bytes ++ following) = some count ∧ bytes.length < 4 ∧
    t.usizeMax < 4 + leValue count ∧ size = (4 + leValue count) % (t.usizeMax + 1)

/-- A property that is there is sized alike when what follows it is missing, unless it is a hexdump
whose prefix is missing too. -/
theorem findPropertySize_of_append {t : Target} {pointerSize : ℕ} {p : Property}
    (hp : p.EndsItself) {parsed : List PropertySlice} {bytes following : List UInt8} {n : ℕ}
    (hlen : (bytes ++ following).length ≤ t.usizeMax)
    (h : findPropertySize t pointerSize p parsed (bytes ++ following) = .ok (.size n))
    (hn : n ≤ bytes.length) :
    findPropertySize t pointerSize p parsed bytes = .ok (.size n) ∨
      HexCrosses t p bytes following n := by
  obtain hconst | ⟨inType, outType, length, hinfo, hcontent⟩ :=
    findPropertySize_cases t pointerSize p parsed
  · exact Or.inl (by rw [hconst bytes (bytes ++ following), h])
  rw [hcontent] at h ⊢
  by_cases hsafe : HexdumpSafe t inType bytes following
  · exact Or.inl (sizeFromContent_of_append (hp _ _ _ hinfo) hlen hsafe h hn)
  · unfold HexdumpSafe at hsafe
    push Not at hsafe
    obtain ⟨rfl, hshort, count, hcount, hover⟩ := hsafe
    refine Or.inr ⟨outType, length, count, hinfo, hcount, hshort, hover, ?_⟩
    simp only [sizeFromContent, hcount, Target.add, if_neg (Nat.not_le.mpr hover)] at h
    cases hchecks : t.overflowChecks with
    | true =>
      rw [hchecks] at h
      contradiction
    | false =>
      rw [hchecks] at h
      cases h
      rfl

/-- A content size is computed without unwinding in a build without overflow checks. -/
theorem exists_sizeFromContent_eq_ok {t : Target} (ht : t.overflowChecks = false)
    (inType : TdhInType) (outType : TdhOutType) (bytes : List UInt8) :
    ∃ r, sizeFromContent t inType outType bytes = .ok r := by
  have hadd : ∀ a b, ∃ r, (do let size ← t.add a b; .ok (Sizing.size size)) = Except.ok r := by
    intro a b
    obtain ⟨n, hn⟩ := Target.exists_add_eq_ok ht a b
    exact ⟨_, by rw [hn, bind_ok]⟩
  unfold sizeFromContent
  split
  · split
    · exact ⟨_, rfl⟩
    · exact hadd _ _
  · split
    · exact ⟨_, rfl⟩
    · obtain ⟨units, hunits⟩ := Target.exists_add_eq_ok ht ‹ℕ› 1
      obtain ⟨n, hn⟩ := Target.exists_mul_eq_ok ht units 2
      exact ⟨_, by rw [hunits, bind_ok, hn, bind_ok]⟩
  iterate 7
    · split
      · exact ⟨_, rfl⟩
      · exact hadd _ _
  iterate 2
    · exact ⟨_, rfl⟩
  iterate 2
    · split
      · exact ⟨_, rfl⟩
      · obtain ⟨rids, hrids⟩ := Target.exists_mul_eq_ok ht 4 (UInt8.toNat ‹UInt8›)
        rw [hrids, bind_ok]
        exact hadd _ _
  · split
    · exact ⟨_, rfl⟩
    · exact hadd _ _
  · split
    · exact ⟨_, rfl⟩
    · exact ⟨_, rfl⟩
  · exact ⟨_, rfl⟩

/-- So is the size of a property. -/
theorem exists_findPropertySize_eq_ok {t : Target} (ht : t.overflowChecks = false)
    (pointerSize : ℕ) (p : Property) (parsed : List PropertySlice) (bytes : List UInt8) :
    ∃ r, findPropertySize t pointerSize p parsed bytes = .ok r := by
  obtain ⟨name, info⟩ := p
  cases info with
  | value inType outType length =>
    obtain ⟨content, hcontent⟩ := exists_sizeFromContent_eq_ok ht inType outType bytes
    simp only [findPropertySize, valueSize, TdhInType.literalSchemaLengthBytes_eq, bind_ok,
      hcontent]
    split
    · exact ⟨_, rfl⟩
    · cases length with
      | length l => exact ⟨_, (apply_ite Except.ok _ _ _).symm⟩
      | index i =>
        dsimp only
        split
        · split
          · exact ⟨_, rfl⟩
          · split <;> exact ⟨_, rfl⟩
        · exact ⟨_, rfl⟩
  | array inType outType length count =>
    obtain ⟨r, hr, -⟩ := arraySize_exact t name inType outType length count parsed bytes
    exact ⟨r, hr⟩
  | struct members =>
    obtain ⟨fixed, hfixed⟩ :=
      Property.exists_fixedSize_eq_ok ht pointerSize ⟨name, .struct members⟩
    rw [findPropertySize]
    dsimp only
    rw [hfixed, bind_ok]
    split <;> exact ⟨_, rfl⟩
  | structArray members count =>
    obtain ⟨fixed, hfixed⟩ :=
      Property.exists_fixedSize_eq_ok ht pointerSize ⟨name, .structArray members count⟩
    rw [findPropertySize]
    dsimp only
    rw [hfixed, bind_ok]
    split
    · exact ⟨_, rfl⟩
    · split
      · obtain ⟨elem, helem⟩ := exists_sumFixedSizes_eq_ok ht pointerSize members
        rw [structArrayByRefSize, helem, bind_ok]
        split
        · split <;> exact ⟨_, rfl⟩
        · exact ⟨_, rfl⟩
      · exact ⟨_, rfl⟩
  | unsupported length =>
    cases length with
    | length l => exact ⟨_, rfl⟩
    | index i =>
      simp only [findPropertySize]
      split <;> exact ⟨_, rfl⟩

/-! ### One step -/

/-- The property is sized on the truncated bytes without unwinding, and is no hexdump that ends
within them while its prefix does not. -/
def KeptSizing (t : Target) (pointerSize : ℕ) (p : Property) (bytes following : List UInt8) :
    Prop :=
  if t.overflowChecks then p.SumsFit t.usizeBits pointerSize ∧ HexFits t.usizeBits p bytes
  else ∀ size, HexCrosses t p bytes following size → bytes.length < size

/-- The second parser reads an event with more bytes behind. -/
structure BufferExtends (P₁ P₂ : Parser) (following : List UInt8) : Prop where
  target : P₂.target = P₁.target
  pointerSize : P₂.record.pointerSize = P₁.record.pointerSize
  userBuffer : P₂.record.userBuffer = P₁.record.userBuffer ++ following

section Step

variable {P P₁ P₂ : Parser} {following : List UInt8} {start : ℕ} {parsed : List PropertySlice}
  {property : Property}

/-- Where a located property lies. -/
theorem start_of_locate {slice : PropertySlice}
    (h : locate P (some start) parsed property = .ok slice) :
    slice.buffer.start = start + totalLen parsed ∧
      slice.buffer.stop ≤ P.record.userBuffer.length := by
  simp only [locate] at h
  split at h
  · contradiction
  rename_i remaining hfrom
  split at h
  · contradiction
  split at h
  · contradiction
  rename_i buffer hto
  cases h
  have hrange := Slice.getRange_of_getTo hfrom (by rw [Slice.len_of_getTo hto]; exact hto)
  obtain ⟨⟨-, hle⟩, hstart⟩ := Slice.getRange_eq_some_iff.mp hrange
  have hbuffer : buffer.start = start + totalLen parsed := by
    rw [hstart]
    exact Nat.zero_add _
  refine ⟨hbuffer, ?_⟩
  rw [Slice.stop, hbuffer]
  exact hle

/-- The bytes at an offset, and with more behind. -/
theorem BufferExtends.getFrom (hE : BufferExtends P₁ P₂ following) {a : ℕ} {remaining : Slice}
    (h : P₁.record.userSlice.getFrom a = some remaining) :
    remaining.start = a ∧ P₁.record.userBuffer.length = a + remaining.bytes.length ∧
      P₂.record.userSlice.getFrom a = some ⟨a, remaining.bytes ++ following⟩ := by
  obtain ⟨hle, rfl⟩ := Slice.getFrom_eq_some_iff.mp h
  have ha : a ≤ P₁.record.userBuffer.length := hle
  refine ⟨Nat.zero_add a, ?_, Slice.getFrom_eq_some_iff.mpr ⟨?_, ?_⟩⟩
  · show _ = a + (P₁.record.userBuffer.drop a).length
    rw [List.length_drop]
    omega
  · show a ≤ P₂.record.userBuffer.length
    rw [hE.userBuffer, List.length_append]
    omega
  · show (⟨a, P₁.record.userBuffer.drop a ++ following⟩ : Slice) =
      ⟨0 + a, P₂.record.userBuffer.drop a⟩
    rw [hE.userBuffer, List.drop_append_of_le_length ha, Nat.zero_add]

/-- What is located is as long as it was sized, when TDH was not asked. -/
theorem size_of_locate {remaining : Slice} {slice : PropertySlice}
    (hfrom : P.record.userSlice.getFrom (start + totalLen parsed) = some remaining)
    (hlocal : findPropertySize P.target P.record.pointerSize property parsed remaining.bytes ≠
      .ok .tdh)
    (h : locate P (some start) parsed property = .ok slice) :
    findPropertySize P.target P.record.pointerSize property parsed remaining.bytes =
      .ok (.size slice.buffer.len) := by
  simp only [locate, hfrom, locatedSize] at h
  cases hsize : findPropertySize P.target P.record.pointerSize property parsed remaining.bytes with
  | error q =>
    rw [hsize] at h
    contradiction
  | ok sizing =>
    cases sizing with
    | error e =>
      rw [hsize] at h
      contradiction
    | tdh => exact absurd hsize hlocal
    | size n =>
      simp only [hsize] at h
      split at h
      · contradiction
      · rename_i buffer hto
        cases h
        rw [Slice.len_of_getTo hto]

/-- A sized property is located where there is room for it. -/
theorem locate_of_size {remaining buffer : Slice} {n : ℕ}
    (hfrom : P.record.userSlice.getFrom (start + totalLen parsed) = some remaining)
    (hsize : findPropertySize P.target P.record.pointerSize property parsed remaining.bytes =
      .ok (.size n)) (hto : remaining.getTo n = some buffer) :
    locate P (some start) parsed property = .ok ⟨property, buffer⟩ := by
  simp only [locate, hfrom, locatedSize, hsize, hto]

theorem locate_of_error {remaining : Slice} {e : ParserError}
    (hfrom : P.record.userSlice.getFrom (start + totalLen parsed) = some remaining)
    (hsize : findPropertySize P.target P.record.pointerSize property parsed remaining.bytes =
      .ok (.error e)) : locate P (some start) parsed property = .error (.error e) := by
  simp only [locate, hfrom, locatedSize, hsize]

/-- A sizing that is kept does not unwind. -/
theorem exists_sizing_of_keptSizing (parsed : List PropertySlice) {remaining : List UInt8}
    (hlen : remaining.length ≤ 65535)
    (hkept : KeptSizing P.target P.record.pointerSize property remaining following) :
    ∃ r, findPropertySize P.target P.record.pointerSize property parsed remaining = .ok r := by
  have hmax := P.target.usizeMax_ge
  have hpointer := P.record.pointerSize_le
  unfold KeptSizing at hkept
  split at hkept
  · obtain ⟨r, hr, -⟩ := @findPropertySize_exact P.target P.record.pointerSize (by omega)
      property parsed remaining (by omega) hkept.1 hkept.2
    exact ⟨r, hr⟩
  · rename_i hchecks
    exact exists_findPropertySize_eq_ok (by simpa using hchecks) P.record.pointerSize property
      parsed remaining

/-- What is sized alike and does not fit the first buffer is located past its end. -/
theorem lt_stop_of_size (hE : BufferExtends P₁ P₂ following) {remaining : Slice} {n : ℕ}
    (hfrom : P₁.record.userSlice.getFrom (start + totalLen parsed) = some remaining)
    (hsize : findPropertySize P₂.target P₂.record.pointerSize property parsed
      (remaining.bytes ++ following) = .ok (.size n))
    (hto : remaining.getTo n = none) {slice : PropertySlice}
    (hslice : locate P₂ (some start) parsed property = .ok slice) :
    P₁.record.userBuffer.length < slice.buffer.stop := by
  obtain ⟨-, hlen, hfrom₂⟩ := hE.getFrom hfrom
  have hover : remaining.bytes.length < n := by
    by_contra hle
    have hin : n ≤ remaining.len := Nat.not_lt.mp hle
    rw [Slice.getTo, if_pos hin] at hto
    contradiction
  have hlocated := size_of_locate hfrom₂ (by simp [hsize]) hslice
  rw [hsize] at hlocated
  cases hlocated
  obtain ⟨hstart, -⟩ := start_of_locate hslice
  rw [Slice.stop]
  omega

/-- What the first parser reports an error for is located past the end of its buffer. -/
theorem lt_stop_of_error (hE : BufferExtends P₁ P₂ following) (hp : property.EndsItself)
    {remaining : Slice} {e : ParserError}
    (hfrom : P₁.record.userSlice.getFrom (start + totalLen parsed) = some remaining)
    (hlocal : findPropertySize P₂.target P₂.record.pointerSize property parsed
      (remaining.bytes ++ following) ≠ .ok .tdh)
    (hkept : KeptSizing P₁.target P₁.record.pointerSize property remaining.bytes following)
    (hsize : findPropertySize P₁.target P₁.record.pointerSize property parsed remaining.bytes =
      .ok (.error e)) {slice : PropertySlice}
    (hslice : locate P₂ (some start) parsed property = .ok slice) :
    P₁.record.userBuffer.length < slice.buffer.stop := by
  obtain ⟨-, hlen, hfrom₂⟩ := hE.getFrom hfrom
  have hmax := P₁.target.usizeMax_ge
  have hle₂ := P₂.record.userBuffer_le
  by_contra hin
  obtain ⟨hstart, -⟩ := start_of_locate hslice
  rw [Slice.stop] at hin
  have hlocated := size_of_locate hfrom₂ hlocal hslice
  rw [hE.target, hE.pointerSize] at hlocated
  rw [hE.userBuffer, List.length_append] at hle₂
  obtain hsame | hcross := findPropertySize_of_append hp
    (by rw [List.length_append]; omega) hlocated (by omega)
  · rw [hsize] at hsame
    cases hsame
  · unfold KeptSizing at hkept
    split at hkept
    · rename_i hchecks
      obtain ⟨outType, length, count, hinfo, hcount, -, hover, -⟩ := hcross
      have hhex : ¬ HexFits P₁.target.usizeBits property (remaining.bytes ++ following) :=
        fun hfits => absurd (hfits outType length count hinfo hcount) (Nat.not_le.mpr hover)
      rw [findPropertySize_eq_overflow_of_not_hexFits hchecks hhex] at hlocated
      contradiction
    · exact absurd (hkept _ hcross) (by omega)

/-- **The step lemma.** Both parsers locate the property alike, or the first reports an error and
the second locates it past the end of the first buffer, if at all. -/
theorem locate_truncated (hE : BufferExtends P₁ P₂ following) (hp : property.EndsItself)
    (hlocal : ∀ remaining, P₂.record.userSlice.getFrom (start + totalLen parsed) = some remaining →
      findPropertySize P₂.target P₂.record.pointerSize property parsed remaining.bytes ≠ .ok .tdh)
    (hkept : ∀ remaining, P₁.record.userSlice.getFrom (start + totalLen parsed) = some remaining →
      KeptSizing P₁.target P₁.record.pointerSize property remaining.bytes following) :
    (∃ slice, locate P₁ (some start) parsed property = .ok slice ∧
      locate P₂ (some start) parsed property = .ok slice) ∨
    (∃ e, locate P₁ (some start) parsed property = .error (.error e)) ∧
      ∀ slice, locate P₂ (some start) parsed property = .ok slice →
        P₁.record.userBuffer.length < slice.buffer.stop := by
  cases hfrom : P₁.record.userSlice.getFrom (start + totalLen parsed) with
  | none =>
    have hlt : P₁.record.userBuffer.length < start + totalLen parsed := by
      by_contra hle
      have hin : start + totalLen parsed ≤ P₁.record.userSlice.len := Nat.not_lt.mp hle
      rw [Slice.getFrom, if_pos hin] at hfrom
      contradiction
    refine Or.inr ⟨⟨.propertyError "Invalid buffer bounds", by simp only [locate, hfrom]⟩, ?_⟩
    intro slice hslice
    obtain ⟨hstart, -⟩ := start_of_locate hslice
    rw [Slice.stop]
    omega
  | some remaining =>
    obtain ⟨hat, hlen, hfrom₂⟩ := hE.getFrom hfrom
    have hkept := hkept remaining hfrom
    have hlocal := hlocal _ hfrom₂
    have hle₁ := P₁.record.userBuffer_le
    have happend :=
      findPropertySize_append P₁.target P₁.record.pointerSize hp parsed remaining.bytes
    obtain ⟨sizing, hsize⟩ := exists_sizing_of_keptSizing parsed (by omega) hkept
    rw [hsize] at happend
    cases sizing with
    | tdh =>
      obtain hsame | ⟨e, he⟩ := happend
      · rw [hE.target, hE.pointerSize] at hlocal
        exact absurd (hsame following) hlocal
      · cases he
    | size n =>
      have hsize₂ : findPropertySize P₂.target P₂.record.pointerSize property parsed
          (remaining.bytes ++ following) = .ok (.size n) := by
        rw [hE.target, hE.pointerSize]
        obtain hsame | ⟨e, he⟩ := happend
        · exact hsame following
        · cases he
      cases hto : remaining.getTo n with
      | some buffer =>
        have hto₂ := Slice.getTo_append hto following
        rw [hat] at hto₂
        exact Or.inl ⟨⟨property, buffer⟩, locate_of_size hfrom hsize hto,
          locate_of_size hfrom₂ hsize₂ hto₂⟩
      | none =>
        refine Or.inr ⟨⟨.propertyError "Property length out of buffer bounds", ?_⟩,
          fun _ => lt_stop_of_size hE hfrom hsize₂ hto⟩
        simp only [locate, hfrom, locatedSize, hsize, hto]
    | error e =>
      exact Or.inr ⟨⟨e, locate_of_error hfrom hsize⟩,
        fun _ => lt_stop_of_error hE hp hfrom hlocal hkept hsize⟩

/-- Otherwise the first parser unwinds, or the second alone locates the property, within the first
buffer. -/
theorem locate_of_not_keptSizing (hE : BufferExtends P₁ P₂ following) (property : Property)
    {remaining : Slice}
    (hfrom : P₁.record.userSlice.getFrom (start + totalLen parsed) = some remaining)
    (hkept : ¬ KeptSizing P₁.target P₁.record.pointerSize property remaining.bytes following) :
    (∃ q, locate P₁ (some start) parsed property = .error (.panic q)) ∨
      ∃ e slice, locate P₁ (some start) parsed property = .error e ∧
        locate P₂ (some start) parsed property = .ok slice ∧
        slice.buffer.stop ≤ P₁.record.userBuffer.length := by
  obtain ⟨hat, hlen, hfrom₂⟩ := hE.getFrom hfrom
  unfold KeptSizing at hkept
  split at hkept
  · rename_i hchecks
    refine Or.inl ⟨.overflow, ?_⟩
    have hover : findPropertySize P₁.target P₁.record.pointerSize property parsed remaining.bytes =
        .error .overflow := by
      by_cases hfit : property.SumsFit P₁.target.usizeBits P₁.record.pointerSize
      · exact findPropertySize_eq_overflow_of_not_hexFits hchecks (fun hhex => hkept ⟨hfit, hhex⟩)
          parsed
      · exact findPropertySize_eq_overflow_of_not_sumsFit hchecks hfit parsed remaining.bytes
    simp only [locate, hfrom, locatedSize, hover]
  · rename_i hchecks
    push Not at hkept
    obtain ⟨size, ⟨outType, length, count, hinfo, hcount, hshort, hover, rfl⟩, hle⟩ := hkept
    have hcontent : ∀ bytes,
        findPropertySize P₁.target P₁.record.pointerSize property parsed bytes =
          sizeFromContent P₁.target .inTypeHexDump outType bytes := fun bytes => by
      simp only [findPropertySize, hinfo, valueSize]
      cases length <;> simp [TdhInType.isPointer, TdhInType.isContentSized]
    have hsize : findPropertySize P₁.target P₁.record.pointerSize property parsed remaining.bytes =
        .ok (.error (.propertyError "hexdump property is truncated")) := by
      have hnone : take? 4 remaining.bytes = none := if_neg (Nat.not_le.mpr hshort)
      simp only [hcontent, sizeFromContent, hnone]
    have hsize₂ : findPropertySize P₂.target P₂.record.pointerSize property parsed
        (remaining.bytes ++ following) =
          .ok (.size ((4 + leValue count) % (P₁.target.usizeMax + 1))) := by
      rw [hE.target, hE.pointerSize, hcontent]
      simp only [sizeFromContent, hcount, Target.add, if_neg (Nat.not_le.mpr hover), if_neg hchecks,
        bind_ok]
    have hto := Slice.getTo_append (Slice.getTo_eq_some_iff.mpr ⟨hle, rfl⟩) following
    rw [hat] at hto
    refine Or.inr ⟨_, _, locate_of_error hfrom hsize, locate_of_size hfrom₂ hsize₂ hto, ?_⟩
    show start + totalLen parsed + (List.take _ remaining.bytes).length ≤ _
    rw [List.length_take_of_le hle]
    omega

end Step

/-! ### A run -/

/-- The condition holds of every property the walk reaches, with the bytes at its offset. -/
def WalkMeets (P : Parser) (dataStart : Option ℕ)
    (Q : List PropertySlice → Property → List UInt8 → Prop) :
    List PropertySlice → List Property → Prop
  | _, [] => True
  | parsed, property :: rest =>
    (∀ start remaining, dataStart = some start →
      P.record.userSlice.getFrom (start + totalLen parsed) = some remaining →
      Q parsed property remaining.bytes) ∧
    ∀ slice, locate P dataStart parsed property = .ok slice →
      WalkMeets P dataStart Q (parsed ++ [slice]) rest

/-- The size is decided without TDH. -/
def SizedLocally (t : Target) (pointerSize : ℕ) (parsed : List PropertySlice) (p : Property)
    (bytes : List UInt8) : Prop :=
  findPropertySize t pointerSize p parsed bytes ≠ .ok .tdh

/-- What the walk locates lies behind what it has located before. -/
theorem le_start_of_walkFrom (P : Parser) (start : ℕ) :
    ∀ (rest : List Property) (parsed : List PropertySlice) (i : ℕ) (slice : PropertySlice),
      (walkFrom P (some start) parsed rest).located[i]? = some slice → parsed.length ≤ i →
        start + totalLen parsed ≤ slice.buffer.start
  | [], parsed, i, slice, h, hi => by
    rw [walkFrom, List.getElem?_eq_none hi] at h
    contradiction
  | property :: rest, parsed, i, slice, h, hi => by
    rw [walkFrom] at h
    cases hlocate : locate P (some start) parsed property with
    | error e =>
      rw [hlocate, List.getElem?_eq_none hi] at h
      contradiction
    | ok x =>
      simp only [hlocate] at h
      obtain ⟨hstart, -⟩ := start_of_locate hlocate
      by_cases hat : i = parsed.length
      · subst hat
        have hx := getElem?_of_isPrefix (prefix_walkFrom P (some start) (parsed ++ [x]) rest)
          (List.getElem?_concat_length ..)
        rw [h] at hx
        rw [Option.some.inj hx, hstart]
      · have hle := le_start_of_walkFrom P start rest (parsed ++ [x]) i slice h
          (by rw [List.length_append, List.length_singleton]; omega)
        simp only [totalLen_append, totalLen_cons] at hle
        omega

section Run

variable {P₁ P₂ : Parser} {following : List UInt8} {start : ℕ}

/-- **The run lemma.** What the first walk locates the second locates alike, what the second
locates within the first buffer the first locates alike, and the first stops at an error. -/
theorem walkFrom_truncated (hE : BufferExtends P₁ P₂ following) :
    ∀ (rest : List Property) (parsed : List PropertySlice), (∀ p ∈ rest, p.EndsItself) →
      WalkMeets P₂ (some start) (SizedLocally P₂.target P₂.record.pointerSize) parsed rest →
      WalkMeets P₁ (some start)
        (fun _ p bytes => KeptSizing P₁.target P₁.record.pointerSize p bytes following) parsed
        rest →
      (walkFrom P₁ (some start) parsed rest).located <+:
        (walkFrom P₂ (some start) parsed rest).located ∧
      (∀ (i : ℕ) (slice : PropertySlice),
        (walkFrom P₂ (some start) parsed rest).located[i]? = some slice →
        slice.buffer.stop ≤ P₁.record.userBuffer.length →
        (walkFrom P₁ (some start) parsed rest).located[i]? = some slice) ∧
      ∃ e, (walkFrom P₁ (some start) parsed rest).stop = .error e
  | [], parsed, _, _, _ => ⟨List.prefix_refl _, fun _ _ h _ => h, _, rfl⟩
  | property :: rest, parsed, hends, hlocal, hkept => by
    obtain ⟨hp, hps⟩ := List.forall_mem_cons.mp hends
    obtain ⟨hlocal, hlocals⟩ := hlocal
    obtain ⟨hkept, hkepts⟩ := hkept
    have hpre := prefix_walkFrom P₂ (some start) parsed (property :: rest)
    have hback := le_start_of_walkFrom P₂ start rest
    rw [walkFrom] at hpre
    rw [walkFrom, walkFrom]
    obtain ⟨slice, h₁, h₂⟩ | ⟨⟨e, h₁⟩, h₂⟩ := locate_truncated hE hp
      (fun remaining => hlocal start remaining rfl) (fun remaining => hkept start remaining rfl)
    · rw [h₁, h₂]
      exact walkFrom_truncated hE rest (parsed ++ [slice]) hps (hlocals slice h₂) (hkepts slice h₁)
    · rw [h₁]
      refine ⟨hpre, fun i slice hslice hin => ?_, e, rfl⟩
      by_cases hi : i < parsed.length
      · have hparsed := getElem?_of_isPrefix hpre (List.getElem?_eq_getElem hi)
        rw [hslice] at hparsed
        rw [List.getElem?_eq_getElem hi, hparsed]
      · -- past the property the first walk stops at
        exfalso
        cases hx : locate P₂ (some start) parsed property with
        | error e' =>
          simp only [hx] at hslice
          rw [List.getElem?_eq_none (by omega)] at hslice
          contradiction
        | ok x =>
          simp only [hx] at hslice
          have hover := h₂ x hx
          by_cases hat : i = parsed.length
          · subst hat
            have hfirst := getElem?_of_isPrefix
              (prefix_walkFrom P₂ (some start) (parsed ++ [x]) rest)
              (List.getElem?_concat_length ..)
            rw [hslice] at hfirst
            rw [Option.some.inj hfirst] at hin
            omega
          · have hle := hback (parsed ++ [x]) i slice hslice
              (by rw [List.length_append, List.length_singleton]; omega)
            obtain ⟨hstart, -⟩ := start_of_locate hx
            simp only [totalLen_append, totalLen_cons] at hle
            rw [Slice.stop] at hin hover
            omega

/-- Otherwise the first walk unwinds, or the second alone locates a property within the first
buffer. -/
theorem walkFrom_of_not_kept (hE : BufferExtends P₁ P₂ following) :
    ∀ (rest : List Property) (parsed : List PropertySlice), (∀ p ∈ rest, p.EndsItself) →
      WalkMeets P₂ (some start) (SizedLocally P₂.target P₂.record.pointerSize) parsed rest →
      ¬ WalkMeets P₁ (some start)
        (fun _ p bytes => KeptSizing P₁.target P₁.record.pointerSize p bytes following) parsed
        rest →
      (∃ q, (walkFrom P₁ (some start) parsed rest).stop = .panic q) ∨
        ∃ (i : ℕ) (slice : PropertySlice),
          (walkFrom P₂ (some start) parsed rest).located[i]? = some slice ∧
          slice.buffer.stop ≤ P₁.record.userBuffer.length ∧
          (walkFrom P₁ (some start) parsed rest).located[i]? = none
  | [], _, _, _, hkept => absurd trivial hkept
  | property :: rest, parsed, hends, hlocal, hkept => by
    obtain ⟨hp, hps⟩ := List.forall_mem_cons.mp hends
    obtain ⟨hlocal, hlocals⟩ := hlocal
    rw [walkFrom, walkFrom]
    by_cases hstep : ∀ remaining,
        P₁.record.userSlice.getFrom (start + totalLen parsed) = some remaining →
          KeptSizing P₁.target P₁.record.pointerSize property remaining.bytes following
    · obtain ⟨slice, h₁, h₂⟩ | ⟨⟨e, h₁⟩, -⟩ :=
        locate_truncated hE hp (fun remaining => hlocal start remaining rfl) hstep
      · rw [h₁, h₂]
        refine walkFrom_of_not_kept hE rest (parsed ++ [slice]) hps (hlocals slice h₂) fun hrest =>
          hkept ⟨fun start' remaining heq => ?_, fun slice' h' => ?_⟩
        · cases heq
          exact hstep remaining
        · rw [h₁] at h'
          cases h'
          exact hrest
      · refine absurd ⟨fun start' remaining heq => ?_, fun slice' h' => ?_⟩ hkept
        · cases heq
          exact hstep remaining
        · rw [h₁] at h'
          contradiction
    · push Not at hstep
      obtain ⟨remaining, hfrom, hfail⟩ := hstep
      obtain ⟨q, h₁⟩ | ⟨e, slice, h₁, h₂, hin⟩ :=
        locate_of_not_keptSizing hE property hfrom hfail
      · rw [h₁]
        exact Or.inl ⟨q, rfl⟩
      · rw [h₁, h₂]
        refine Or.inr ⟨parsed.length, slice, ?_, hin, List.getElem?_eq_none (Nat.le_refl _)⟩
        exact getElem?_of_isPrefix (prefix_walkFrom P₂ (some start) (parsed ++ [slice]) rest)
          (List.getElem?_concat_length ..)

end Run

/-- Without a place for the values, no property is reached. -/
theorem walkMeets_none (P : Parser) (Q : List PropertySlice → Property → List UInt8 → Prop)
    (parsed : List PropertySlice) (rest : List Property) : WalkMeets P none Q parsed rest := by
  cases rest with
  | nil => trivial
  | cons property rest => exact ⟨nofun, nofun⟩

/-- It stops at once, with an error. -/
theorem walkFrom_none (P : Parser) (parsed : List PropertySlice) (rest : List Property) :
    ∃ e, walkFrom P none parsed rest = ⟨parsed, .error e⟩ := by
  cases rest with
  | nil => exact ⟨_, rfl⟩
  | cons property rest => exact ⟨_, rfl⟩

/-- The answers for one position, of an event cut off after `n` bytes and of the whole event: a
slice of the first is that of the second, a slice of the second that ends within the `n` bytes is
that of the first, and the first is a slice or an `Err`. -/
def AnswersAgree (n : ℕ) (cut whole : Outcome ParserError Slice) : Prop :=
  (∀ slice, cut = .ok slice → whole = .ok slice) ∧
    (∀ slice, whole = .ok slice → slice.stop ≤ n → cut = .ok slice) ∧
    ∀ e, cut = .error e → ∃ e', e = .error e'

theorem bytesAnswer_eq_ok_iff {slices : List PropertySlice} {stop : Fault ParserError} {i : ℕ}
    {buffer : Slice} : bytesAnswer slices stop i = .ok buffer ↔
      ∃ slice, slices[i]? = some slice ∧ slice.buffer = buffer := by
  unfold bytesAnswer
  cases slices[i]? with
  | none => simp
  | some slice => simp

section Agree

variable {P₁ P₂ : Parser} {following : List UInt8} {start : ℕ} {rest : List Property}

/-- Where every sizing is kept, the answers agree at every position. -/
theorem answersAgree_of_kept (hE : BufferExtends P₁ P₂ following) (hends : ∀ p ∈ rest, p.EndsItself)
    (hlocal : WalkMeets P₂ (some start) (SizedLocally P₂.target P₂.record.pointerSize) [] rest)
    (hkept : WalkMeets P₁ (some start)
      (fun _ p bytes => KeptSizing P₁.target P₁.record.pointerSize p bytes following) [] rest)
    (i : ℕ) :
    AnswersAgree P₁.record.userBuffer.length
      (bytesAnswer (walkFrom P₁ (some start) [] rest).located
        (walkFrom P₁ (some start) [] rest).stop i)
      (bytesAnswer (walkFrom P₂ (some start) [] rest).located
        (walkFrom P₂ (some start) [] rest).stop i) := by
  obtain ⟨hpre, hback, e, he⟩ := walkFrom_truncated hE rest [] hends hlocal hkept
  refine ⟨fun buffer h => ?_, fun buffer h hin => ?_, fun e' h => ?_⟩
  · obtain ⟨slice, hslice, rfl⟩ := bytesAnswer_eq_ok_iff.mp h
    exact bytesAnswer_eq_ok_iff.mpr ⟨slice, getElem?_of_isPrefix hpre hslice, rfl⟩
  · obtain ⟨slice, hslice, rfl⟩ := bytesAnswer_eq_ok_iff.mp h
    exact bytesAnswer_eq_ok_iff.mpr ⟨slice, hback i slice hslice hin, rfl⟩
  · refine ⟨e, ?_⟩
    unfold bytesAnswer at h
    split at h
    · contradiction
    · rw [← he]
      exact (Except.error.inj h).symm

/-- Where one is not, they disagree at the position of the property, or of the one behind the
last. -/
theorem kept_of_answersAgree (hE : BufferExtends P₁ P₂ following) (hends : ∀ p ∈ rest, p.EndsItself)
    (hlocal : WalkMeets P₂ (some start) (SizedLocally P₂.target P₂.record.pointerSize) [] rest)
    (hagree : ∀ i, AnswersAgree P₁.record.userBuffer.length
      (bytesAnswer (walkFrom P₁ (some start) [] rest).located
        (walkFrom P₁ (some start) [] rest).stop i)
      (bytesAnswer (walkFrom P₂ (some start) [] rest).located
        (walkFrom P₂ (some start) [] rest).stop i)) :
    WalkMeets P₁ (some start)
      (fun _ p bytes => KeptSizing P₁.target P₁.record.pointerSize p bytes following) [] rest := by
  by_contra hkept
  obtain ⟨q, hq⟩ | ⟨i, slice, h₂, hin, h₁⟩ :=
    walkFrom_of_not_kept hE rest [] hends hlocal hkept
  · obtain ⟨-, -, herror⟩ := hagree (walkFrom P₁ (some start) [] rest).located.length
    obtain ⟨e, he⟩ := herror (.panic q) (by
      rw [bytesAnswer, List.getElem?_eq_none (Nat.le_refl _)]
      exact congrArg Except.error hq)
    contradiction
  · obtain ⟨-, hback, -⟩ := hagree i
    obtain ⟨slice', hslice', -⟩ := bytesAnswer_eq_ok_iff.mp
      (hback slice.buffer (bytesAnswer_eq_ok_iff.mpr ⟨slice, h₂, rfl⟩) hin)
    cases h₁.symm.trans hslice'

end Agree

/-- **When truncation neither shifts nor changes a property.** Of an event and one cut off after
some of its bytes, with a schema whose properties end by themselves and are sized without TDH: the
answers agree at every position, after any history of calls on either parser, if and only if each
property the walk over the cut event reaches is sized without unwinding, and is no hexdump that ends
within the cut buffer while the prefix it was sized by does not. -/
theorem truncated_walk_iff (target : Target) (f₁ f₂ : Property → Except TdhNativeError UInt32)
    (record₁ record₂ : EventRecord) (schema : Schema) (following : List UInt8)
    (hflags : record₂.eventFlags = record₁.eventFlags)
    (hextended : record₂.extendedData = record₁.extendedData)
    (hbuffer : record₂.userBuffer = record₁.userBuffer ++ following)
    (hends : ∀ p ∈ schema.properties, p.EndsItself) :
    let P₁ := Parser.create target (fun _ => f₁) record₁ schema
    let P₂ := Parser.create target (fun _ => f₂) record₂ schema
    let start := propertyValuesStart record₁ schema
    WalkMeets P₂ start (SizedLocally target record₂.pointerSize) [] schema.properties →
    ((∀ (calls₁ calls₂ : List Call) (i : ℕ), AnswersAgree record₁.userBuffer.length
        (P₁.propertyBytesAt i
          (CallMachine.after P₁.call (Parser.createState record₁ schema) calls₁)).1
        (P₂.propertyBytesAt i
          (CallMachine.after P₂.call (Parser.createState record₂ schema) calls₂)).1) ↔
      WalkMeets P₁ start
        (fun _ p bytes => KeptSizing target record₁.pointerSize p bytes following) []
        schema.properties) := by
  intro P₁ P₂ start hlocal
  have hE : BufferExtends P₁ P₂ following := by
    refine ⟨rfl, ?_, hbuffer⟩
    show record₂.pointerSize = record₁.pointerSize
    rw [EventRecord.pointerSize, EventRecord.pointerSize, hflags]
  have hstart : propertyValuesStart record₂ schema = start := by
    show propertyValuesStart record₂ schema = propertyValuesStart record₁ schema
    rw [propertyValuesStart, propertyValuesStart, hextended]
  have hanswer₁ : ∀ calls i,
      (P₁.propertyBytesAt i
        (CallMachine.after P₁.call (Parser.createState record₁ schema) calls)).1 =
        bytesAnswer (canonicalWalk P₁ start).located (canonicalWalk P₁ start).stop i :=
    fun calls => propertyBytesAt_after target f₁ record₁ schema calls
  have hanswer₂ : ∀ calls i,
      (P₂.propertyBytesAt i
        (CallMachine.after P₂.call (Parser.createState record₂ schema) calls)).1 =
        bytesAnswer (canonicalWalk P₂ start).located (canonicalWalk P₂ start).stop i := by
    intro calls
    rw [← hstart]
    exact propertyBytesAt_after target f₂ record₂ schema calls
  simp only [hanswer₁, hanswer₂, canonicalWalk]
  clear_value start
  cases start with
  | none =>
    refine iff_of_true (fun _ _ i => ?_) (walkMeets_none P₁ _ [] schema.properties)
    obtain ⟨e, hwalk₁⟩ := walkFrom_none P₁ [] P₁.properties
    obtain ⟨e₂, hwalk₂⟩ := walkFrom_none P₂ [] P₂.properties
    rw [hwalk₁, hwalk₂]
    refine ⟨fun _ h => ?_, fun _ h _ => ?_, fun _ h => ⟨e, (Except.error.inj h).symm⟩⟩
    · contradiction
    · contradiction
  | some start =>
    constructor
    · intro hagree
      exact kept_of_answersAgree hE hends hlocal (hagree [] [])
    · intro hkept _ _ i
      exact answersAgree_of_kept hE hends hlocal hkept i

/-- An event cut off in its array, whose count is in front of a string. -/
theorem truncated_walk_iff_array :
    let properties : List Property := [⟨"Count", .value .inTypeUInt16 .outTypeNull (.length 0)⟩,
      ⟨"Name", .value .inTypeAnsiString .outTypeNull (.length 0)⟩,
      ⟨"Ids", .array .inTypeUInt16 .outTypeNull (.length 0) (.index 0)⟩]
    let schema : Schema := ⟨.decodingSourceXMLFile, properties⟩
    let record₁ : EventRecord := ⟨0, 0, [2, 0, 104, 0, 7, 0, 8], by decide, []⟩
    let record₂ : EventRecord := ⟨0, 0, [2, 0, 104, 0, 7, 0, 8, 0], by decide, []⟩
    let P₁ := Parser.create ⟨.b32, false⟩ (fun _ _ => .error .allocationError) record₁ schema
    let P₂ := Parser.create ⟨.b32, false⟩ (fun _ _ => .error .allocationError) record₂ schema
    (∀ (calls₁ calls₂ : List Call) (i : ℕ), AnswersAgree 7
        (P₁.propertyBytesAt i
          (CallMachine.after P₁.call (Parser.createState record₁ schema) calls₁)).1
        (P₂.propertyBytesAt i
          (CallMachine.after P₂.call (Parser.createState record₂ schema) calls₂)).1) ↔
      WalkMeets P₁ (some 0) (fun _ p bytes => KeptSizing ⟨.b32, false⟩ 8 p bytes [0]) []
        properties := by
  intro properties schema record₁ record₂ P₁ P₂
  refine truncated_walk_iff ⟨.b32, false⟩ _ _ record₁ record₂ schema [0] rfl rfl rfl ?_ ?_
  · rintro p hp inType outType length hinfo hspan
    obtain rfl | rfl | rfl : p = ⟨"Count", .value .inTypeUInt16 .outTypeNull (.length 0)⟩ ∨
        p = ⟨"Name", .value .inTypeAnsiString .outTypeNull (.length 0)⟩ ∨
        p = ⟨"Ids", .array .inTypeUInt16 .outTypeNull (.length 0) (.index 0)⟩ := by
      simpa [schema, properties] using hp
    all_goals
      cases hinfo
      try obtain h | h := hspan <;> contradiction
  · refine ⟨fun _ _ h h' => ?_, fun _ h => ?_⟩
    · cases h
      cases h'
      exact nofun
    cases h
    refine ⟨fun _ _ h h' => ?_, fun _ h => ?_⟩
    · cases h
      cases h'
      exact nofun
    cases h
    refine ⟨fun _ _ h h' => ?_, fun _ _ => trivial⟩
    cases h
    cases h'
    exact nofun

/-- A hexdump whose count and prefix add up to `2 ^ 32 + 1`, in a build for 32 bits that wraps, cut
off after its first byte: the whole event has it in that byte, the cut one reports an error. -/
theorem truncated_hexdump :
    let schema : Schema := ⟨.decodingSourceXMLFile,
      [⟨"Dump", .value .inTypeHexDump .outTypeNull (.length 0)⟩]⟩
    let record₁ : EventRecord := ⟨0, 0, [253], by decide, []⟩
    let record₂ : EventRecord := ⟨0, 0, [253] ++ [255, 255, 255], by decide, []⟩
    let P₁ := Parser.create ⟨.b32, false⟩ (fun _ _ => .error .allocationError) record₁ schema
    let P₂ := Parser.create ⟨.b32, false⟩ (fun _ _ => .error .allocationError) record₂ schema
    (P₂.propertyBytesAt 0 (Parser.createState record₂ schema)).1 = .ok ⟨0, [253]⟩ ∧
      (⟨0, [253]⟩ : Slice).stop ≤ record₁.userBuffer.length ∧
      (P₁.propertyBytesAt 0 (Parser.createState record₁ schema)).1 =
        .error (.error (.propertyError "hexdump property is truncated")) := by
  decide +kernel

end Ferrisetw2
