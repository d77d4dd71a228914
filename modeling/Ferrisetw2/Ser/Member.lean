import Ferrisetw2.Parser.ExactSize

/-!
# The serializer's member walk

Structure members are not top-level properties, so the parser's walk does not locate them. The
serializer slices them out of the structure's bytes itself, with a sizing function of its own:
`fixed_size` where the schema gives a size, `variable_member_size` where the leading bytes do.
`ser.rs`.

## Main definitions

* `variableMemberSize`, `memberSize`, `memberBuffer`
* `SizesExact` — every size the three sizing functions return is the exact one, in every build

## Main results

* `memberBuffer_ok` — a member is sliced out without unwinding
* `member_buffer_agrees` — a member is sliced out as the parser's walk would
* `sizes_exact_iff` — when the size arithmetic is exact
-/

namespace Ferrisetw2

open Rust

/-! ### The code -/

/-- `variable_member_size`, on a value with a zero length. -/
def variableValueSize (t : Target) (inType : TdhInType) (remaining : List UInt8) :
    Checked (Option ℕ) :=
  match inType with
  | .inTypeAnsiString =>
    match memchr 0 remaining with
    | none => .ok none
    | some nulIndex => do
      let size ← t.add nulIndex 1
      .ok (some size)
  | .inTypeUnicodeString =>
    match (codeUnits remaining).findIdx? (· == 0) with
    | none => .ok none
    | some units => do
      let units ← t.add units 1
      let size ← t.mul units 2
      .ok (some size)
  | .inTypeManifestCountedString | .inTypeCountedString | .inTypeManifestCountedAnsiString
  | .inTypeCountedAnsiString | .inTypeManifestCountedBinary =>
    match take? 2 remaining with
    | none => .ok none
    | some count => do
      let size ← t.add 2 (leValue count)
      .ok (some size)
  | .inTypeReversedCountedString | .inTypeReversedCountedAnsiString =>
    match take? 2 remaining with
    | none => .ok none
    | some count => do
      let size ← t.add 2 (beValue count)
      .ok (some size)
  | .inTypeHexDump =>
    match take? 4 remaining with
    | none => .ok none
    | some count => do
      let size ← t.add 4 (leValue count)
      .ok (some size)
  | .inTypeNonNullTerminatedString | .inTypeNonNullTerminatedAnsiString =>
    .ok (some remaining.length)
  | .inTypeSid | .inTypeWbemSid =>
    match remaining[1]? with
    | none => .ok none
    | some subAuthorityCount => do
      let rids ← t.mul 4 subAuthorityCount.toNat
      let size ← t.add 8 rids
      .ok (some size)
  | _ => .ok none

/-- `variable_member_size`: size of a member, read from its leading bytes. -/
def variableMemberSize (t : Target) (member : Property) (remaining : List UInt8) :
    Checked (Option ℕ) :=
  match member.info with
  | .value inType _ (.length l) =>
    if l = 0 then variableValueSize t inType remaining else .ok none
  | _ => .ok none

/-- The size in `member_buffer`: fixed by the schema, or read from the leading bytes. -/
def memberSize (t : Target) (pointerSize : ℕ) (member : Property) (bytes : Slice) (offset : ℕ) :
    Checked (Option ℕ) := do
  let fixed ← member.fixedSize t pointerSize
  match fixed with
  | some size => .ok (some size)
  | none =>
    match bytes.getFrom offset with
    | none => .ok none
    | some remaining => variableMemberSize t member remaining.bytes

/-- `member_buffer`: the member starting at `offset`, and the offset past it. -/
def memberBuffer (t : Target) (pointerSize : ℕ) (member : Property) (bytes : Slice)
    (offset : ℕ) : Checked (Option (Slice × ℕ)) := do
  let size ← memberSize t pointerSize member bytes offset
  match size with
  | none => .ok none
  | some size =>
    match (bytes.getFrom offset).bind (·.getTo size) with
    | none => .ok none
    | some buffer => do
      let offset ← t.add offset size
      .ok (some (buffer, offset))

/-! ### Agreement with the parser's walk -/

/-- The size, when one is returned. -/
def Sizing.size? : Sizing → Option ℕ
  | .size n => some n
  | .error _ => none
  | .tdh => none

/-- The in types whose size `variable_member_size` reads from the leading bytes. -/
def TdhInType.LeadingSized (inType : TdhInType) : Prop :=
  inType.isContentSized = true ∨ inType = .inTypeAnsiString ∨ inType = .inTypeUnicodeString

theorem TdhInType.LeadingSized.isPointer {inType : TdhInType} (h : inType.LeadingSized) :
    inType.isPointer = false := by
  obtain h | rfl | rfl := h
  · cases inType <;> first | rfl | contradiction
  · rfl
  · rfl

/-- `variable_member_size` gives up, or reads the size the content arms of the parser read. -/
theorem variableValueSize_eq (t : Target) (inType : TdhInType) (outType : TdhOutType)
    (remaining : List UInt8) :
    (¬ inType.LeadingSized ∧ variableValueSize t inType remaining = .ok none) ∨
      (inType.LeadingSized ∧ variableValueSize t inType remaining =
        (sizeFromContent t inType outType remaining).map Sizing.size?) := by
  unfold variableValueSize
  split
  · refine Or.inr ⟨Or.inr (Or.inl rfl), ?_⟩
    simp only [sizeFromContent]
    cases memchr 0 remaining with
    | none => rfl
    | some i => cases h : t.add i 1 <;> simp [h, Except.map, Sizing.size?]
  · refine Or.inr ⟨Or.inr (Or.inr rfl), ?_⟩
    simp only [sizeFromContent]
    cases (codeUnits remaining).findIdx? (· == 0) with
    | none => rfl
    | some i =>
      cases h : t.add i 1 with
      | error p => simp [h, Except.map]
      | ok units => cases h' : t.mul units 2 <;> simp [h, h', Except.map, Sizing.size?]
  iterate 5
    · refine Or.inr ⟨Or.inl rfl, ?_⟩
      simp only [sizeFromContent, readCountPrefix]
      cases take? 2 remaining with
      | none => rfl
      | some count =>
        cases h : t.add 2 (leValue count) <;> simp [h, Except.map, Sizing.size?]
  iterate 2
    · refine Or.inr ⟨Or.inl rfl, ?_⟩
      simp only [sizeFromContent, readCountPrefix]
      cases take? 2 remaining with
      | none => rfl
      | some count =>
        cases h : t.add 2 (beValue count) <;> simp [h, Except.map, Sizing.size?]
  · refine Or.inr ⟨Or.inl rfl, ?_⟩
    simp only [sizeFromContent]
    cases take? 4 remaining with
    | none => rfl
    | some count => cases h : t.add 4 (leValue count) <;> simp [h, Except.map, Sizing.size?]
  iterate 2
    · exact Or.inr ⟨Or.inl rfl, rfl⟩
  iterate 2
    · refine Or.inr ⟨Or.inl rfl, ?_⟩
      simp only [sizeFromContent]
      cases remaining[1]? with
      | none => rfl
      | some c =>
        cases h : t.mul 4 c.toNat with
        | error p => simp [h, Except.map]
        | ok rids => cases h' : t.add 8 rids <;> simp [h, h', Except.map, Sizing.size?]
  · refine Or.inl ⟨?_, rfl⟩
    rintro (hc | rfl | rfl)
    · cases inType <;> first | exact absurd rfl ‹_› | contradiction
    · exact absurd rfl ‹_›
    · exact absurd rfl ‹_›

/-- A size read from the leading bytes is the one the content arms of the parser read. -/
theorem sizeFromContent_of_variableValueSize {t : Target} {inType : TdhInType}
    {remaining : List UInt8} {n : ℕ} (h : variableValueSize t inType remaining = .ok (some n))
    (outType : TdhOutType) :
    inType.isPointer = false ∧ sizeFromContent t inType outType remaining = .ok (.size n) := by
  rcases variableValueSize_eq t inType outType remaining with ⟨-, hnone⟩ | ⟨hleading, heq⟩
  · rw [hnone] at h
    simp at h
  · rw [h] at heq
    refine ⟨hleading.isPointer, ?_⟩
    cases hc : sizeFromContent t inType outType remaining with
    | error p => simp [hc, Except.map] at heq
    | ok r =>
      cases r with
      | size m =>
        simp only [hc, Except.map, Sizing.size?, Except.ok.injEq, Option.some.injEq] at heq
        rw [heq]
      | error e => simp [hc, Except.map, Sizing.size?] at heq
      | tdh => simp [hc, Except.map, Sizing.size?] at heq

/-- In types of fixed size reach the last arm of the content sizes. -/
theorem sizeFromContent_of_fixedSize {t : Target} {inType : TdhInType} {n : ℕ}
    (h : inType.fixedSize = some n) (outType : TdhOutType) (remaining : List UInt8) :
    sizeFromContent t inType outType remaining = .ok (.size n) := by
  cases inType <;> simp [TdhInType.fixedSize] at h <;> subst h <;> rfl

theorem valueSize_of_valueFixedSize {t : Target} {pointerSize : ℕ} {inType : TdhInType}
    {length : PropertyLength} {n : ℕ}
    (h : valueFixedSize t pointerSize inType length = .ok (some n)) (outType : TdhOutType)
    (parsed : List PropertySlice) (remaining : List UInt8) :
    valueSize t pointerSize inType outType length parsed remaining = .ok (.size n) := by
  unfold valueFixedSize at h
  unfold valueSize
  by_cases hptr : inType.isPointer = true
  · rw [if_pos hptr] at h ⊢
    cases h
    rfl
  · rw [if_neg hptr] at h ⊢
    cases length with
    | index i => simp at h
    | length l =>
      simp only [TdhInType.literalSchemaLengthBytes_eq, bind_ok] at h ⊢
      split at h
      · rename_i hl
        cases h
        rw [if_pos hl]
      · rename_i hl
        rw [if_neg hl]
        exact sizeFromContent_of_fixedSize (Except.ok.inj h) outType remaining

theorem elemSize_of_elemFixedSize {t : Target} {pointerSize : ℕ} {inType : TdhInType}
    {length : PropertyLength} {n : ℕ}
    (h : elemFixedSize t pointerSize inType length = .ok (some n))
    (parsed : List PropertySlice) :
    elemSize t pointerSize inType length parsed = .ok (some n) := by
  unfold elemFixedSize at h
  unfold elemSize
  by_cases hptr : inType.isPointer = true
  · rw [if_pos hptr] at h ⊢
    exact h
  · rw [if_neg hptr] at h ⊢
    cases length with
    | index i => simp at h
    | length l =>
      simp only [TdhInType.literalSchemaLengthBytes_eq, bind_ok] at h ⊢
      by_cases hl : l = 0
      · subst hl
        simpa using h
      · have hpos : 0 < l := UInt16.pos_iff_ne_zero.mpr hl
        rw [if_pos hpos] at h
        rw [if_neg hl]
        exact h

/-- **A fixed size is the size `find_property_size` gives**, whatever was parsed before. -/
theorem findPropertySize_of_fixedSize {t : Target} {pointerSize : ℕ} {p : Property} {n : ℕ}
    (h : p.fixedSize t pointerSize = .ok (some n)) (parsed : List PropertySlice)
    (remaining : List UInt8) :
    findPropertySize t pointerSize p parsed remaining = .ok (.size n) := by
  match p with
  | ⟨_, .value _ outType _⟩ => exact valueSize_of_valueFixedSize h outType parsed remaining
  | ⟨_, .array inType _ length count⟩ =>
    show arraySize t pointerSize inType length count parsed = .ok (.size n)
    obtain ⟨elem, helem, hmul⟩ := bind_eq_ok_iff.mp h
    cases elem with
    | none => simp at hmul
    | some elem =>
      cases count with
      | index i => simp at hmul
      | count c =>
        rw [arraySize, elemSize_of_elemFixedSize helem parsed, bind_ok]
        simp only [Except.ok.injEq] at hmul
        simp only [elementCount, Option.bind_some, hmul]
  | ⟨_, .struct _⟩ => simp only [findPropertySize, h, bind_ok]
  | ⟨_, .structArray _ _⟩ => simp only [findPropertySize, h, bind_ok]
  | ⟨_, .unsupported (.length l)⟩ =>
    rw [Property.fixedSize] at h
    simp only [findPropertySize]
    split at h
    · rename_i hl
      cases h
      rw [if_pos hl]
    · simp at h
  | ⟨_, .unsupported (.index i)⟩ => exact absurd h (by simp [Property.fixedSize])

/-- A size the serializer finds for a member is the one the parser's walk gives it. -/
theorem findPropertySize_of_memberSize {t : Target} {pointerSize : ℕ} {member : Property}
    {bytes remaining : Slice} {offset n : ℕ}
    (h : memberSize t pointerSize member bytes offset = .ok (some n))
    (hfrom : bytes.getFrom offset = some remaining) (parsed : List PropertySlice) :
    findPropertySize t pointerSize member parsed remaining.bytes = .ok (.size n) := by
  obtain ⟨fixed, hfixed, hsize⟩ := bind_eq_ok_iff.mp h
  cases fixed with
  | some size =>
    cases hsize
    exact findPropertySize_of_fixedSize hfixed parsed remaining.bytes
  | none =>
    simp only [hfrom, variableMemberSize] at hsize
    split at hsize
    · rename_i inType outType l hinfo
      split at hsize
      · rename_i hl
        obtain ⟨hptr, hcontent⟩ := sizeFromContent_of_variableValueSize hsize outType
        simp only [findPropertySize, hinfo, valueSize, hptr, hl, Bool.false_eq_true, if_false,
          UInt16.lt_irrefl, false_and]
        exact hcontent
      · simp at hsize
    · simp at hsize

/-- What a sliced member is. -/
theorem memberBuffer_eq_some {t : Target} {pointerSize : ℕ} {member : Property}
    {bytes buffer : Slice} {offset offset' : ℕ}
    (h : memberBuffer t pointerSize member bytes offset = .ok (some (buffer, offset'))) :
    ∃ remaining, memberSize t pointerSize member bytes offset = .ok (some buffer.len) ∧
      bytes.getFrom offset = some remaining ∧ remaining.getTo buffer.len = some buffer ∧
      t.add offset buffer.len = .ok offset' := by
  obtain ⟨size, hsize, h⟩ := bind_eq_ok_iff.mp h
  cases size with
  | none => simp at h
  | some size =>
    simp only at h
    split at h
    · simp at h
    · rename_i slice hslice
      obtain ⟨remaining, hfrom, hto⟩ := Option.bind_eq_some_iff.mp hslice
      obtain ⟨next, hadd, heq⟩ := bind_eq_ok_iff.mp h
      cases heq
      rw [Slice.len_of_getTo hto]
      exact ⟨remaining, hsize, hfrom, hto, hadd⟩

/-- A sliced member is cut out at its offset, and the offset moves past it. -/
theorem getRange_of_memberBuffer {t : Target} {pointerSize : ℕ} {member : Property}
    {bytes buffer : Slice} {offset offset' : ℕ} (hlen : bytes.len ≤ t.usizeMax)
    (h : memberBuffer t pointerSize member bytes offset = .ok (some (buffer, offset'))) :
    bytes.getRange offset offset' = some buffer ∧ offset' = offset + buffer.len ∧
      offset' ≤ bytes.len := by
  obtain ⟨remaining, -, hfrom, hto, hadd⟩ := memberBuffer_eq_some h
  have hrange := Slice.getRange_of_getTo hfrom hto
  have hle : offset + buffer.len ≤ bytes.len := (Slice.getRange_eq_some_iff.mp hrange).1.2
  rw [Target.add_of_le (by omega)] at hadd
  cases hadd
  exact ⟨hrange, rfl, hle⟩

/-- **The member walk never mislocates a member.** A member sliced out of a structure has the size
the parser's walk gives it at the same place with nothing parsed before, decided without TDH; the
offset moves past it, and stays within the slice. -/
theorem member_buffer_agrees (t : Target) (pointerSize : ℕ) (member : Property)
    (bytes buffer : Slice) (offset offset' : ℕ) (hlen : bytes.len ≤ t.isizeMax)
    (h : memberBuffer t pointerSize member bytes offset = .ok (some (buffer, offset'))) :
    (∃ remaining, bytes.getFrom offset = some remaining ∧
      findPropertySize t pointerSize member [] remaining.bytes = .ok (.size buffer.len)) ∧
    bytes.getRange offset offset' = some buffer ∧ offset' = offset + buffer.len ∧
    offset' ≤ bytes.len := by
  obtain ⟨remaining, hsize, hfrom, -, -⟩ := memberBuffer_eq_some h
  exact ⟨⟨remaining, hfrom, findPropertySize_of_memberSize hsize hfrom []⟩,
    getRange_of_memberBuffer (Nat.le_trans hlen t.isizeMax_le) h⟩

/-- A SID behind a byte is sliced out where the parser would find it. -/
theorem member_buffer_agrees_sid :
    let bytes : Slice := ⟨0, [9, 1, 1, 0, 0, 0, 0, 0, 5, 18, 0, 0, 0, 7]⟩
    let sid : Property := ⟨"Sid", .value .inTypeSid .outTypeNull (.length 0)⟩
    let buffer : Slice := ⟨1, [1, 1, 0, 0, 0, 0, 0, 5, 18, 0, 0, 0]⟩
    (∃ remaining, bytes.getFrom 1 = some remaining ∧
      findPropertySize ⟨.b32, true⟩ 4 sid [] remaining.bytes = .ok (.size 12)) ∧
    bytes.getRange 1 13 = some buffer ∧ 13 = 1 + buffer.len ∧ 13 ≤ bytes.len := by
  intro bytes sid buffer
  exact member_buffer_agrees ⟨.b32, true⟩ 4 sid bytes buffer 1 13 (by decide) (by rfl)

/-! ### Size arithmetic -/

/-- Where the hexdump prefix fits, a size read from the leading bytes is the exact one. -/
theorem variableMemberSize_exact {t : Target} (pointerSize : ℕ) {member : Property}
    {remaining : List UInt8} (hrem : remaining.length ≤ t.usizeMax)
    (hhex : HexFits t.usizeBits member remaining) :
    ∃ r, variableMemberSize t member remaining = .ok r ∧
      ∀ n, r = some n → exactSize pointerSize member [] remaining = some n ∧ n ≤ t.usizeMax := by
  unfold variableMemberSize
  split
  · rename_i inType outType l hinfo
    by_cases hl : l = 0
    · subst hl
      rw [if_pos rfl]
      have hcount : ∀ count, inType = .inTypeHexDump → take? 4 remaining = some count →
          4 + leValue count ≤ t.usizeMax := fun count hin hcount =>
        hhex outType (.length 0) count (by rw [hinfo, hin]) hcount
      obtain ⟨r, hr, hexact⟩ := sizeFromContent_exact outType hrem hcount
      rcases variableValueSize_eq t inType outType remaining with ⟨-, hnone⟩ | ⟨hleading, heq⟩
      · exact ⟨none, hnone, fun n => nofun⟩
      · rw [hr] at heq
        refine ⟨r.size?, heq, fun n hn => ?_⟩
        have hsize : r = .size n := by
          cases r <;> simp [Sizing.size?] at hn
          rw [hn]
        obtain ⟨hcontent, hle⟩ := hexact n hsize
        refine ⟨?_, hle⟩
        simp only [exactSize, hinfo, hleading.isPointer, Bool.false_eq_true, if_false,
          UInt16.lt_irrefl]
        split <;> exact hcontent
    · rw [if_neg hl]
      exact ⟨none, rfl, fun n => nofun⟩
  · exact ⟨none, rfl, fun n => nofun⟩

/-- Where the sums and the prefix fit, no build unwinds while it slices out a member. -/
theorem memberBuffer_ok {t : Target} {pointerSize : ℕ} {member : Property} {bytes : Slice}
    (hlen : bytes.len ≤ t.usizeMax) (hfit : member.SumsFit t.usizeBits pointerSize)
    (hhex : ∀ remaining, remaining <:+: bytes.bytes → HexFits t.usizeBits member remaining)
    (offset : ℕ) : ∃ r, memberBuffer t pointerSize member bytes offset = .ok r := by
  have hsize : ∃ r, memberSize t pointerSize member bytes offset = .ok r := by
    rw [memberSize, Property.fixedSize_of_sumsFit hfit, bind_ok]
    split
    · exact ⟨_, rfl⟩
    · split
      · exact ⟨_, rfl⟩
      · rename_i remaining hfrom
        have hrem := Slice.len_of_getFrom hfrom
        obtain ⟨r, hr, -⟩ := variableMemberSize_exact pointerSize
          (show remaining.len ≤ t.usizeMax by omega) (hhex _ (Slice.infix_of_getFrom hfrom))
        exact ⟨r, hr⟩
  obtain ⟨r, hr⟩ := hsize
  rw [memberBuffer, hr, bind_ok]
  cases r with
  | none => exact ⟨_, rfl⟩
  | some size =>
    dsimp only
    split
    · exact ⟨_, rfl⟩
    · rename_i buffer hbuffer
      obtain ⟨remaining, hfrom, hto⟩ := Option.bind_eq_some_iff.mp hbuffer
      obtain rfl := Slice.len_of_getTo hto
      have hle := (Slice.getRange_eq_some_iff.mp (Slice.getRange_of_getTo hfrom hto)).1.2
      exact ⟨_, by rw [Target.add_of_le (by omega), bind_ok]⟩

/-- In every build, each of the three sizing functions returns the exact size, which is then a
`usize`, or no size. None unwinds. -/
def SizesExact (b : UsizeBits) (pointerSize : ℕ) (p : Property) (parsed : List PropertySlice)
    (remaining : List UInt8) : Prop :=
  ∀ checks : Bool,
    (∃ r, p.fixedSize ⟨b, checks⟩ pointerSize = .ok r ∧
      ∀ n, r = some n → p.exactFixedSize pointerSize = some n ∧ n ≤ Target.maxOf b) ∧
    (∃ r, findPropertySize ⟨b, checks⟩ pointerSize p parsed remaining = .ok r ∧
      ∀ n, r = .size n →
        exactSize pointerSize p parsed remaining = some n ∧ n ≤ Target.maxOf b) ∧
    ∃ r, variableMemberSize ⟨b, checks⟩ p remaining = .ok r ∧
      ∀ n, r = some n → exactSize pointerSize p [] remaining = some n ∧ n ≤ Target.maxOf b

/-- **When the size arithmetic is exact**: the sums of member sizes are `usize` values, and so is
the size of a hexdump with its prefix. Everything else is checked, or too small to leave the word.
A slice is at most `isize::MAX` bytes long. -/
theorem sizes_exact_iff (b : UsizeBits) (pointerSize : ℕ) (p : Property)
    (parsed : List PropertySlice) (remaining : List UInt8) (hp : pointerSize ≤ Target.maxOf b)
    (hrem : remaining.length ≤ Target.maxOf b / 2) :
    SizesExact b pointerSize p parsed remaining ↔
      p.SumsFit b pointerSize ∧ HexFits b p remaining := by
  constructor
  · intro h
    -- a build with overflow checks tells
    obtain ⟨⟨r, hr, -⟩, ⟨r', hr', -⟩, -⟩ := h true
    constructor
    · by_contra hfit
      rw [Property.fixedSize_eq_overflow (t := ⟨b, true⟩) rfl hfit] at hr
      contradiction
    · by_contra hhex
      rw [findPropertySize_eq_overflow_of_not_hexFits (t := ⟨b, true⟩) rfl hhex] at hr'
      contradiction
  · rintro ⟨hfit, hhex⟩ checks
    have hmax : remaining.length ≤ Target.maxOf b := by omega
    refine ⟨⟨_, Property.fixedSize_of_sumsFit (t := ⟨b, checks⟩) hfit, fun n hn => ?_⟩,
      findPropertySize_exact (t := ⟨b, checks⟩) hp hmax hfit hhex,
      variableMemberSize_exact (t := ⟨b, checks⟩) pointerSize hmax hhex⟩
    exact Property.boundedSize_eq_some (t := ⟨b, checks⟩) hp hfit hn

/-- The largest array a schema can declare outright, on a 32-bit target. -/
theorem sizes_exact_iff_array :
    SizesExact .b32 4 ⟨"Blob", .array .inTypeBinary .outTypeNull (.length 65535) (.count 65535)⟩
        [] [] ↔
      Property.SumsFit .b32 4
        ⟨"Blob", .array .inTypeBinary .outTypeNull (.length 65535) (.count 65535)⟩ ∧
      HexFits .b32 ⟨"Blob", .array .inTypeBinary .outTypeNull (.length 65535) (.count 65535)⟩ [] :=
  sizes_exact_iff .b32 4 _ [] [] (by decide) (by decide)

/-- Two members of `65535 ^ 4` bytes each, which fit a 64-bit word one by one: their sum unwinds.
And a hexdump whose count is just below `u32::MAX`, on a 32-bit target. -/
theorem sizes_not_exact :
    (let quarter : Property :=
      ⟨"Quarter", .array .inTypeBinary .outTypeNull (.length 65535) (.count 65535)⟩
     let half : Property := ⟨"Half", .structArray [⟨"S", .structArray [quarter] (.count 65535)⟩]
      (.count 65535)⟩
     ¬ SizesExact .b64 8 ⟨"Whole", .struct [half, half]⟩ [] []) ∧
    ¬ SizesExact .b32 4 ⟨"Dump", .value .inTypeHexDump .outTypeNull (.length 0)⟩ []
      [252, 255, 255, 255] := by
  constructor
  · intro quarter half h
    obtain ⟨⟨r, hr, -⟩, -⟩ := h true
    have hover : Property.fixedSize ⟨.b64, true⟩ 8 ⟨"Whole", .struct [half, half]⟩
        = .error .overflow := by rfl
    rw [hover] at hr
    contradiction
  · intro h
    obtain ⟨-, ⟨r, hr, -⟩, -⟩ := h true
    have hover : findPropertySize ⟨.b32, true⟩ 4
        ⟨"Dump", .value .inTypeHexDump .outTypeNull (.length 0)⟩ [] [252, 255, 255, 255]
          = .error .overflow := by rfl
    rw [hover] at hr
    contradiction

end Ferrisetw2
