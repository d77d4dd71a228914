import Ferrisetw2.EventRecord
import Ferrisetw2.Native.FixedSize

/-!
# The size of one property

`Parser::find_property_size`: how many bytes of the user buffer a property occupies, given the
properties located before it and the bytes from its own offset on.

Every call of the TDH fallback is a tail call, so the local part of the function is a `Sizing`: a
size, an error, or the decision to ask TDH. Claims about what is decided without TDH are claims
about the `Sizing`.

## Main definitions

* `ParserError`, `PropertySlice`, `Sizing`
* `sizeFromContent` — the arms for values without a usable length
* `findPropertySize` — the local part of `find_property_size`
* `exactContentSize` — the size the content arms are about, in unbounded arithmetic

## Main results

* `sizeFromContent_of_exact` — a content size that fits is returned
* `sizeFromContent_of_exact_none` — without one, the answer is an error or the fallback
-/

namespace Ferrisetw2

open Rust

/-! ### Errors and slices -/

/-- `TdhNativeError`; an i/o error carries its Win32 code. -/
inductive TdhNativeError where
  | allocationError
  | ioError (code : UInt32)
  deriving DecidableEq, Repr

/-- `SddlNativeError`. -/
inductive SddlNativeError where
  | sidParseError
  | ioError (code : UInt32)
  deriving DecidableEq, Repr

/-- `ParserError`. -/
inductive ParserError where
  | notFound
  | invalidType
  | parseError
  | lengthMismatch
  | propertyError (msg : String)
  | utf8Error
  | sliceError
  | sddlNativeError (e : SddlNativeError)
  | tdhNativeError (e : TdhNativeError)
  deriving DecidableEq, Repr

/-- A property and the bytes it was located at. -/
structure PropertySlice where
  property : Property
  buffer : Slice

/-- What `find_property_size` decides before it would call TDH. -/
inductive Sizing where
  /-- `Ok(n)`. -/
  | size (n : ℕ)
  /-- `Err(e)`. -/
  | error (e : ParserError)
  /-- `self.tdh_property_size(property)`. -/
  | tdh
  deriving DecidableEq, Repr

/-- Value of the located property an index refers to. -/
def indexValue (t : Target) (parsed : List PropertySlice) (index : UInt16) : Option ℕ :=
  (parsed[index.toNat]?).bind fun s => indexValueFromBytes t s.buffer.bytes

/-- `read_count_prefix`: the 16-bit byte count of a counted string. -/
def readCountPrefix (buffer : List UInt8) (bigEndian : Bool) : Except ParserError ℕ :=
  match take? 2 buffer with
  | none => .error (.propertyError "counted string does not have length")
  | some countBytes => .ok (if bigEndian then beValue countBytes else leValue countBytes)

/-! ### Values without a usable length -/

/-- The in type's own size, or TDH. -/
def sizeFromInType (inType : TdhInType) : Sizing :=
  match inType.fixedSize with
  | some size => .size size
  | none => .tdh

/-- The end of the `Value` arm: no length applies, the size follows from the in type and from the
bytes at the property's offset. -/
def sizeFromContent (t : Target) (inType : TdhInType) (outType : TdhOutType)
    (remaining : List UInt8) : Checked Sizing :=
  match inType with
  | .inTypeAnsiString =>
    match memchr 0 remaining with
    | none => .ok (.error (.propertyError "AnsiString property is not null-terminated"))
    | some nulIndex => do
      let size ← t.add nulIndex 1
      .ok (.size size)
  | .inTypeUnicodeString =>
    match (codeUnits remaining).findIdx? (· == 0) with
    | none => .ok (.error (.propertyError "UnicodeString property is not null-terminated"))
    | some nulIndex => do
      let units ← t.add nulIndex 1
      let size ← t.mul units 2
      .ok (.size size)
  | .inTypeManifestCountedString | .inTypeCountedString | .inTypeManifestCountedAnsiString
  | .inTypeCountedAnsiString | .inTypeManifestCountedBinary =>
    match readCountPrefix remaining false with
    | .error e => .ok (.error e)
    | .ok byteCount => do
      let size ← t.add 2 byteCount
      .ok (.size size)
  | .inTypeReversedCountedString | .inTypeReversedCountedAnsiString =>
    match readCountPrefix remaining true with
    | .error e => .ok (.error e)
    | .ok byteCount => do
      let size ← t.add 2 byteCount
      .ok (.size size)
  | .inTypeNonNullTerminatedString | .inTypeNonNullTerminatedAnsiString =>
    .ok (.size remaining.length)
  | .inTypeSid | .inTypeWbemSid =>
    match remaining[1]? with
    | none => .ok (.error (.propertyError "SID property is truncated"))
    | some subAuthorityCount => do
      let rids ← t.mul 4 subAuthorityCount.toNat
      let size ← t.add 8 rids
      .ok (.size size)
  | .inTypeHexDump =>
    match take? 4 remaining with
    | none => .ok (.error (.propertyError "hexdump property is truncated"))
    | some countBytes => do
      let size ← t.add 4 (leValue countBytes)
      .ok (.size size)
  | .inTypeBinary =>
    -- BINARY with the IPV6 out type spans 16 bytes when no length applies
    if outType = .outTypeIpv6 then .ok (.size 16) else .ok (sizeFromInType .inTypeBinary)
  | _ => .ok (sizeFromInType inType)

/-! ### The function -/

/-- The `Value` arm. -/
def valueSize (t : Target) (pointerSize : ℕ) (inType : TdhInType) (outType : TdhOutType)
    (length : PropertyLength) (parsed : List PropertySlice) (remaining : List UInt8) :
    Checked Sizing :=
  if inType.isPointer then .ok (.size pointerSize)
  else match length with
    | .length l =>
      if 0 < l ∧ inType.isContentSized = false then do
        let size ← inType.literalSchemaLengthBytes t l
        .ok (.size size)
      else sizeFromContent t inType outType remaining
    | .index index =>
      if inType.isContentSized = false then
        match inType.fixedSize with
        | some size => .ok (.size size)
        | none =>
          -- an overflowing unit conversion defers to TDH instead of wrapping
          match (indexValue t parsed index).bind (inType.schemaLengthBytes t) with
          | some size => .ok (.size size)
          | none => .ok .tdh
      else sizeFromContent t inType outType remaining

/-- Element size in the `Array` arm. -/
def elemSize (t : Target) (pointerSize : ℕ) (inType : TdhInType) (length : PropertyLength)
    (parsed : List PropertySlice) : Checked (Option ℕ) :=
  if inType.isPointer then .ok (some pointerSize)
  else match length with
    | .length l =>
      if l = 0 then .ok inType.fixedSize
      else do
        let size ← inType.literalSchemaLengthBytes t l
        .ok (some size)
    | .index index =>
      .ok (inType.fixedSize.or ((indexValue t parsed index).bind (inType.schemaLengthBytes t)))

/-- Element count of an array or structure array. -/
def elementCount (t : Target) (count : PropertyCount) (parsed : List PropertySlice) : Option ℕ :=
  match count with
  | .count c => some c.toNat
  | .index index => indexValue t parsed index

/-- The `Array` arm. -/
def arraySize (t : Target) (pointerSize : ℕ) (inType : TdhInType) (length : PropertyLength)
    (count : PropertyCount) (parsed : List PropertySlice) : Checked Sizing := do
  let elem ← elemSize t pointerSize inType length parsed
  match elementCount t count parsed with
  | none => .ok .tdh
  | some n =>
    match elem.bind (t.checkedMul · n) with
    | some size => .ok (.size size)
    -- an empty array occupies no bytes, whatever its elements
    | none => .ok (if n = 0 then .size 0 else .tdh)

/-- The arm for structure arrays whose count travels by reference. -/
def structArrayByRefSize (t : Target) (pointerSize : ℕ) (members : List Property)
    (index : UInt16) (parsed : List PropertySlice) : Checked Sizing := do
  let elem ← sumFixedSizes t pointerSize members 0
  match elem, indexValue t parsed index with
  | some elem, some count =>
    match t.checkedMul elem count with
    | some size => .ok (.size size)
    | none => .ok .tdh
  | _, _ => .ok .tdh

/-- `Parser::find_property_size`, up to its calls of TDH. -/
def findPropertySize (t : Target) (pointerSize : ℕ) (property : Property)
    (parsed : List PropertySlice) (remaining : List UInt8) : Checked Sizing :=
  match property.info with
  | .value inType outType length => valueSize t pointerSize inType outType length parsed remaining
  | .array inType _ length count => arraySize t pointerSize inType length count parsed
  | .struct _ => do
    match ← property.fixedSize t pointerSize with
    | some size => .ok (.size size)
    | none => .ok .tdh
  | .structArray members count => do
    match ← property.fixedSize t pointerSize with
    | some size => .ok (.size size)
    | none =>
      match count with
      | .index index => structArrayByRefSize t pointerSize members index parsed
      | .count _ => .ok .tdh
  | .unsupported length =>
    match length with
    | .length l => .ok (if 0 < l then .size l.toNat else .tdh)
    | .index index =>
      match indexValue t parsed index with
      | some len => .ok (.size len)
      | none => .ok .tdh

/-- The size of a structure array is a product. -/
theorem findPropertySize_structArray {t : Target} {pointerSize : ℕ} {name : String}
    {members : List Property} {count : PropertyCount} {parsed : List PropertySlice}
    {remaining : List UInt8} {size : ℕ}
    (h : findPropertySize t pointerSize ⟨name, .structArray members count⟩ parsed remaining =
      .ok (.size size)) :
    ∃ elem n, sumFixedSizes t pointerSize members 0 = .ok (some elem) ∧
      elementCount t count parsed = some n ∧ size = elem * n := by
  obtain ⟨fixed, hfixed, h⟩ := bind_eq_ok_iff.mp h
  obtain ⟨elem, hsum, hfixed⟩ := bind_eq_ok_iff.mp hfixed
  cases elem with
  | none =>
    cases hfixed
    cases count with
    | count c => cases h
    | index i =>
      dsimp only at h
      rw [structArrayByRefSize, hsum] at h
      cases h
  | some elem =>
    refine ⟨elem, ?_⟩
    cases count with
    | count c =>
      obtain rfl := Except.ok.inj hfixed
      dsimp only at h
      split at h
      · rename_i total hmul
        cases h
        exact ⟨c.toNat, hsum, rfl, (Target.checkedMul_eq_some_iff.mp hmul).1⟩
      · cases h
    | index i =>
      cases hfixed
      dsimp only at h
      rw [structArrayByRefSize, hsum, bind_ok] at h
      split at h
      · rename_i elem' n helem hindex
        cases helem
        split at h
        · rename_i total hmul
          cases h
          exact ⟨n, hsum, hindex, (Target.checkedMul_eq_some_iff.mp hmul).1⟩
        · cases h
      · cases h

/-! ### The content arms -/

/-- The size the content arms are about, in unbounded arithmetic. -/
def exactContentSize (inType : TdhInType) (outType : TdhOutType) (remaining : List UInt8) :
    Option ℕ :=
  match inType with
  | .inTypeAnsiString => (memchr 0 remaining).map (· + 1)
  | .inTypeUnicodeString => ((codeUnits remaining).findIdx? (· == 0)).map fun n => (n + 1) * 2
  | .inTypeManifestCountedString | .inTypeCountedString | .inTypeManifestCountedAnsiString
  | .inTypeCountedAnsiString | .inTypeManifestCountedBinary =>
    (take? 2 remaining).map fun p => 2 + leValue p
  | .inTypeReversedCountedString | .inTypeReversedCountedAnsiString =>
    (take? 2 remaining).map fun p => 2 + beValue p
  | .inTypeNonNullTerminatedString | .inTypeNonNullTerminatedAnsiString => some remaining.length
  | .inTypeSid | .inTypeWbemSid => (remaining[1]?).map fun c => 8 + 4 * c.toNat
  | .inTypeHexDump => (take? 4 remaining).map fun p => 4 + leValue p
  | .inTypeBinary => if outType = .outTypeIpv6 then some 16 else none
  | _ => inType.fixedSize

/-- **A content size that fits is returned.** -/
theorem sizeFromContent_of_exact {t : Target} {inType : TdhInType} {outType : TdhOutType}
    {remaining : List UInt8} {n : ℕ} (h : exactContentSize inType outType remaining = some n)
    (hn : n ≤ t.usizeMax) : sizeFromContent t inType outType remaining = .ok (.size n) := by
  unfold exactContentSize at h
  split at h
  · obtain ⟨i, hi, rfl⟩ := Option.map_eq_some_iff.mp h
    simp [sizeFromContent, hi, Target.add_of_le hn]
  · obtain ⟨i, hi, rfl⟩ := Option.map_eq_some_iff.mp h
    have hadd : i + 1 ≤ t.usizeMax := by omega
    simp [sizeFromContent, hi, Target.add_of_le hadd, Target.mul_of_le hn]
  iterate 5
    · obtain ⟨q, hq, rfl⟩ := Option.map_eq_some_iff.mp h
      simp [sizeFromContent, readCountPrefix, hq, Target.add_of_le hn]
  iterate 2
    · obtain ⟨q, hq, rfl⟩ := Option.map_eq_some_iff.mp h
      simp [sizeFromContent, readCountPrefix, hq, Target.add_of_le hn]
  iterate 2
    · obtain rfl := Option.some.inj h
      rfl
  iterate 2
    · obtain ⟨c, hc, rfl⟩ := Option.map_eq_some_iff.mp h
      have hmul : 4 * c.toNat ≤ t.usizeMax := by omega
      simp [sizeFromContent, hc, Target.mul_of_le hmul, Target.add_of_le hn]
  · obtain ⟨q, hq, rfl⟩ := Option.map_eq_some_iff.mp h
    simp [sizeFromContent, hq, Target.add_of_le hn]
  · split at h
    · rename_i hout
      obtain rfl := Option.some.inj h
      simp [sizeFromContent, hout]
    · simp at h
  · unfold sizeFromContent
    split <;> first | exact absurd rfl ‹_› | simp [sizeFromInType, h]

/-- **Without a content size**, the answer is an error or the fallback. -/
theorem sizeFromContent_of_exact_none {t : Target} {inType : TdhInType} {outType : TdhOutType}
    {remaining : List UInt8} (h : exactContentSize inType outType remaining = none) :
    ∃ r, sizeFromContent t inType outType remaining = .ok r ∧ ∀ n, r ≠ .size n := by
  unfold exactContentSize at h
  split at h
  · rw [Option.map_eq_none_iff] at h
    exact ⟨.error (.propertyError "AnsiString property is not null-terminated"),
      by simp [sizeFromContent, h], fun n => nofun⟩
  · rw [Option.map_eq_none_iff] at h
    exact ⟨.error (.propertyError "UnicodeString property is not null-terminated"),
      by simp [sizeFromContent, h], fun n => nofun⟩
  iterate 7
    · rw [Option.map_eq_none_iff] at h
      exact ⟨.error (.propertyError "counted string does not have length"),
        by simp [sizeFromContent, readCountPrefix, h], fun n => nofun⟩
  iterate 2
    · simp at h
  iterate 2
    · rw [Option.map_eq_none_iff] at h
      exact ⟨.error (.propertyError "SID property is truncated"),
        by simp [sizeFromContent, h], fun n => nofun⟩
  · rw [Option.map_eq_none_iff] at h
    exact ⟨.error (.propertyError "hexdump property is truncated"),
      by simp [sizeFromContent, h], fun n => nofun⟩
  · split at h
    · simp at h
    · rename_i hout
      exact ⟨.tdh, by simp [sizeFromContent, hout, sizeFromInType, TdhInType.fixedSize],
        fun n => nofun⟩
  · refine ⟨.tdh, ?_, fun n => nofun⟩
    unfold sizeFromContent
    split <;> first | exact absurd rfl ‹_› | simp [sizeFromInType, h]

/-- A content size within the buffer is a `usize`. Hexdumps alone carry a 32-bit count. -/
theorem exactContentSize_le {t : Target} {inType : TdhInType} {outType : TdhOutType}
    {remaining : List UInt8} {n : ℕ} (hrem : remaining.length ≤ t.usizeMax)
    (hhex : ∀ count, inType = .inTypeHexDump → take? 4 remaining = some count →
      4 + leValue count ≤ t.usizeMax)
    (h : exactContentSize inType outType remaining = some n) : n ≤ t.usizeMax := by
  have ht := t.usizeMax_ge
  unfold exactContentSize at h
  split at h
  · obtain ⟨i, hi, rfl⟩ := Option.map_eq_some_iff.mp h
    have := memchr_lt hi
    omega
  · obtain ⟨i, hi, rfl⟩ := Option.map_eq_some_iff.mp h
    have := findIdx_codeUnits_lt hi
    omega
  iterate 5
    · obtain ⟨q, hq, rfl⟩ := Option.map_eq_some_iff.mp h
      have := leValue_lt q
      rw [length_of_take? hq] at this
      omega
  iterate 2
    · obtain ⟨q, hq, rfl⟩ := Option.map_eq_some_iff.mp h
      have := beValue_lt q
      rw [length_of_take? hq] at this
      omega
  iterate 2
    · obtain rfl := Option.some.inj h
      exact hrem
  iterate 2
    · obtain ⟨c, hc, rfl⟩ := Option.map_eq_some_iff.mp h
      have : c.toNat < 256 := c.toNat_lt
      omega
  · obtain ⟨q, hq, rfl⟩ := Option.map_eq_some_iff.mp h
    exact hhex q rfl hq
  · split at h
    · obtain rfl := Option.some.inj h
      omega
    · simp at h
  · have := TdhInType.fixedSize_le h
    omega

end Ferrisetw2
