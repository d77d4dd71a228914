import Ferrisetw2.Parser.Follow

/-!
# The packed event layout

An event's values are packed: one payload after the other, in schema order, with nothing between
them. This module says what a well-formed payload of a property is, from the documented layouts and
without reference to the sizing code, and proves that the parser takes a packed buffer apart again.

`Encodes` is the layout of one property, given the payloads before it: a payload may be as long as
an earlier one says. `Packed` is the layout of an event. A remaining-bytes property has no end of
its own, so only the last property may be one.

The sizes below are natural numbers, and nothing bounds them but the payload: a structure may be of
any size where there are no elements of it. The sizing code adds and multiplies `usize` values, and
sizes the members of a structure before it looks at the count. `Property.Sizable` says that this
goes through, and it is exactly when decoding undoes packing.

## Main definitions

* `scalarWidth`, `FixedScalar`, `Property.HasFixedSize` — layouts of fixed size
* `Encodes`, `Packed` — the layout of a property, and of an event
* `Property.Sizable`, `PackedSizable` — sizing stays within the machine word
* `packedSlices` — the payloads as slices of the buffer

## Main results

* `findPropertySize_of_encodes` — the sizing code reads the length of a payload off the buffer
* `findPropertySize_of_not_sizable` — a property that cannot be sized is not given a size
* `follows_packedSlices` — the parser follows the payloads
* `answersPayloads_iff_sizable` — **decoding undoes packing**, without TDH, exactly when the
  properties can be sized
-/

namespace Ferrisetw2

open Rust

/-! ### Layouts of fixed size -/

/-- Width of the in types that have one. -/
def scalarWidth : TdhInType → Option ℕ
  | .inTypeInt8 | .inTypeUInt8 | .inTypeAnsiChar => some 1
  | .inTypeInt16 | .inTypeUInt16 | .inTypeUnicodeChar => some 2
  | .inTypeInt32 | .inTypeUInt32 | .inTypeHexInt32 | .inTypeBoolean | .inTypeFloat => some 4
  | .inTypeInt64 | .inTypeUInt64 | .inTypeHexInt64 | .inTypeDouble | .inTypeFileTime => some 8
  | .inTypeGuid | .inTypeSystemTime => some 16
  | _ => none

/-- The in types as wide as a pointer of the event's producer. -/
def PointerLike (inType : TdhInType) : Prop := inType = .inTypePointer ∨ inType = .inTypeSizeT

/-- The in types a declared length applies to. -/
def TakesLength (inType : TdhInType) : Prop :=
  inType = .inTypeUnicodeString ∨ inType = .inTypeAnsiString ∨ inType = .inTypeBinary

/-- Bytes per unit of a declared length: WCHARs for `UnicodeString`. -/
def charBytes (inType : TdhInType) : ℕ := if inType = .inTypeUnicodeString then 2 else 1

/-- A scalar of this in type and declared length takes `n` bytes. -/
inductive FixedScalar (pointerSize : ℕ) : TdhInType → PropertyLength → ℕ → Prop where
  | width {inType n} (h : scalarWidth inType = some n) :
      FixedScalar pointerSize inType (.length 0) n
  | pointer {inType length} (h : PointerLike inType) :
      FixedScalar pointerSize inType length pointerSize
  | literal {inType l} (h : TakesLength inType) (hl : 0 < l) :
      FixedScalar pointerSize inType (.length l) (charBytes inType * l.toNat)

mutual

/-- The property takes `n` bytes, whatever they are. -/
def Property.HasFixedSize (pointerSize : ℕ) : Property → ℕ → Prop
  | ⟨_, .value inType _ length⟩, n => FixedScalar pointerSize inType length n
  | ⟨_, .array inType _ length (.count c)⟩, n =>
    ∃ elem, FixedScalar pointerSize inType length elem ∧ n = elem * c.toNat
  | ⟨_, .array _ _ _ (.index _)⟩, _ => False
  | ⟨_, .struct members⟩, n => MembersHaveSize pointerSize members n
  | ⟨_, .structArray members (.count c)⟩, n =>
    ∃ elem, MembersHaveSize pointerSize members elem ∧ n = elem * c.toNat
  | ⟨_, .structArray _ (.index _)⟩, _ => False
  | ⟨_, .unsupported (.length l)⟩, n => 0 < l ∧ n = l.toNat
  | ⟨_, .unsupported (.index _)⟩, _ => False

/-- The members take `n` bytes together. -/
def MembersHaveSize (pointerSize : ℕ) : List Property → ℕ → Prop
  | [], n => n = 0
  | m :: ms, n => ∃ a b, m.HasFixedSize pointerSize a ∧ MembersHaveSize pointerSize ms b ∧
    n = a + b

end

/-! ### The layout of a property -/

/-- The payload at `index` carries the number `n`. -/
def Carries (prior : List (List UInt8)) (index : UInt16) (n : ℕ) : Prop :=
  ∃ bytes, prior[index.toNat]? = some bytes ∧
    (bytes.length = 1 ∨ bytes.length = 2 ∨ bytes.length = 4 ∨ bytes.length = 8) ∧
    leValue bytes = n

/-- A declared count of `n` elements. -/
def CountIs (prior : List (List UInt8)) : PropertyCount → ℕ → Prop
  | .count c, n => n = c.toNat
  | .index i, n => Carries prior i n

/-- An array element takes `n` bytes. -/
inductive ElemSize (pointerSize : ℕ) (prior : List (List UInt8)) :
    TdhInType → PropertyLength → ℕ → Prop where
  | fixed {inType length n} (h : FixedScalar pointerSize inType length n) :
      ElemSize pointerSize prior inType length n
  | width {inType i n} (h : scalarWidth inType = some n) :
      ElemSize pointerSize prior inType (.index i) n
  | carried {inType i n} (h : TakesLength inType) (hc : Carries prior i n) :
      ElemSize pointerSize prior inType (.index i) (charBytes inType * n)

/-- The in types prefixed with a little-endian 16-bit byte count. -/
def Counted (inType : TdhInType) : Prop :=
  inType = .inTypeManifestCountedString ∨ inType = .inTypeManifestCountedAnsiString ∨
    inType = .inTypeManifestCountedBinary ∨ inType = .inTypeCountedString ∨
    inType = .inTypeCountedAnsiString

/-- The in types prefixed with a big-endian 16-bit byte count. -/
def ReversedCounted (inType : TdhInType) : Prop :=
  inType = .inTypeReversedCountedString ∨ inType = .inTypeReversedCountedAnsiString

/-- Security identifiers. -/
def SidLike (inType : TdhInType) : Prop := inType = .inTypeSid ∨ inType = .inTypeWbemSid

/-- The in types that span the remaining bytes of the event. -/
def SpansRest (inType : TdhInType) : Prop :=
  inType = .inTypeNonNullTerminatedString ∨ inType = .inTypeNonNullTerminatedAnsiString

/-- The payload is a well-formed encoding of the property, after the payloads `prior`. -/
inductive Encodes (pointerSize : ℕ) (prior : List (List UInt8)) :
    Property → List UInt8 → Prop where
  /-- A property of fixed layout: scalars, pointers, literal lengths and counts, structures. -/
  | fixed {property payload} (h : property.HasFixedSize pointerSize payload.length) :
      Encodes pointerSize prior property payload
  /-- A fixed-width in type ignores a length by reference. -/
  | width {name inType outType i payload} (h : scalarWidth inType = some payload.length) :
      Encodes pointerSize prior ⟨name, .value inType outType (.index i)⟩ payload
  /-- NUL-terminated ANSI. -/
  | ansiString {name outType body} (h : 0 ∉ body) :
      Encodes pointerSize prior ⟨name, .value .inTypeAnsiString outType (.length 0)⟩ (body ++ [0])
  /-- NUL-terminated UTF-16. -/
  | unicodeString {name outType body} (heven : 2 ∣ body.length) (h : 0 ∉ codeUnits body) :
      Encodes pointerSize prior ⟨name, .value .inTypeUnicodeString outType (.length 0)⟩
        (body ++ [0, 0])
  /-- A length carried by an earlier property. -/
  | carried {name inType outType i n payload} (h : TakesLength inType) (hc : Carries prior i n)
      (hlen : payload.length = charBytes inType * n) :
      Encodes pointerSize prior ⟨name, .value inType outType (.index i)⟩ payload
  | counted {name inType outType length count body} (h : Counted inType)
      (hcount : count.length = 2) (hlen : leValue count = body.length) :
      Encodes pointerSize prior ⟨name, .value inType outType length⟩ (count ++ body)
  | reversedCounted {name inType outType length count body} (h : ReversedCounted inType)
      (hcount : count.length = 2) (hlen : beValue count = body.length) :
      Encodes pointerSize prior ⟨name, .value inType outType length⟩ (count ++ body)
  | hexDump {name outType length count body} (hcount : count.length = 4)
      (hlen : leValue count = body.length) :
      Encodes pointerSize prior ⟨name, .value .inTypeHexDump outType length⟩ (count ++ body)
  /-- Revision, count, authority, and the relative IDs. -/
  | sid {name inType outType length revision count rest} (h : SidLike inType)
      (hlen : rest.length = 6 + 4 * UInt8.toNat count) :
      Encodes pointerSize prior ⟨name, .value inType outType length⟩ (revision :: count :: rest)
  /-- An IPv6 address without a length. -/
  | ipv6 {name payload} (hlen : payload.length = 16) :
      Encodes pointerSize prior ⟨name, .value .inTypeBinary .outTypeIpv6 (.length 0)⟩ payload
  | array {name inType outType length count elem n payload}
      (helem : ElemSize pointerSize prior inType length elem) (hcount : CountIs prior count n)
      (hlen : payload.length = elem * n) :
      Encodes pointerSize prior ⟨name, .array inType outType length count⟩ payload
  | structArray {name members count elem n payload}
      (helem : MembersHaveSize pointerSize members elem) (hcount : CountIs prior count n)
      (hlen : payload.length = elem * n) :
      Encodes pointerSize prior ⟨name, .structArray members count⟩ payload
  /-- Bytes of a property the crate does not decode, their number carried by an earlier one. -/
  | unsupported {name i payload} (hc : Carries prior i payload.length) :
      Encodes pointerSize prior ⟨name, .unsupported (.index i)⟩ payload

/-- The payloads of the properties, after the payloads `prior`. -/
inductive Packed (pointerSize : ℕ) :
    List (List UInt8) → List Property → List (List UInt8) → Prop where
  | nil {prior} : Packed pointerSize prior [] []
  | cons {prior property properties payload payloads}
      (h : Encodes pointerSize prior property payload)
      (hrest : Packed pointerSize (prior ++ [payload]) properties payloads) :
      Packed pointerSize prior (property :: properties) (payload :: payloads)
  /-- A remaining-bytes property comes last. -/
  | rest {prior name inType outType length payload} (h : SpansRest inType) :
      Packed pointerSize prior [⟨name, .value inType outType length⟩] [payload]

/-- The payloads as slices of the buffer, from `start` on. -/
def packedSlices : ℕ → List Property → List (List UInt8) → List PropertySlice
  | start, property :: properties, payload :: payloads =>
    ⟨property, ⟨start, payload⟩⟩ :: packedSlices (start + payload.length) properties payloads
  | _, _, _ => []

/-! ### The arithmetic of sizing -/

/-- A count by reference is a `usize`. -/
def CountFits (t : Target) (prior : List (List UInt8)) : PropertyCount → Prop
  | .count _ => True
  | .index i => ∀ n, Carries prior i n → n ≤ t.usizeMax

/-- Sizing the property, after the payloads `prior`, stays within the machine word: the members of
a structure can be sized, whatever their number, and a count by reference is a `usize`. -/
def Property.Sizable (t : Target) (pointerSize : ℕ) (prior : List (List UInt8)) : Property → Prop
  | ⟨_, .value _ _ _⟩ => True
  | ⟨_, .array _ _ _ count⟩ => CountFits t prior count
  | ⟨_, .struct members⟩ => MembersSizable t pointerSize members
  | ⟨_, .structArray members count⟩ =>
    MembersSizable t pointerSize members ∧ CountFits t prior count
  | ⟨_, .unsupported _⟩ => True

theorem Property.sizable_value {t : Target} {pointerSize : ℕ} {prior : List (List UInt8)}
    {name : String} {inType : TdhInType} {outType : TdhOutType} {length : PropertyLength} :
    Property.Sizable t pointerSize prior ⟨name, .value inType outType length⟩ := trivial

/-- Every property of a packed event can be sized. -/
def PackedSizable (t : Target) (pointerSize : ℕ) (properties : List Property)
    (payloads : List (List UInt8)) : Prop :=
  ∀ (i : ℕ) (property : Property), properties[i]? = some property →
    property.Sizable t pointerSize (payloads.take i)

/-! ### The sizing code on layouts of fixed size -/

theorem fixedSize_eq_scalarWidth (inType : TdhInType) : inType.fixedSize = scalarWidth inType := by
  cases inType <;> rfl

theorem lengthUnit_eq_charBytes (inType : TdhInType) : inType.lengthUnit = charBytes inType := by
  cases inType <;> rfl

theorem PointerLike.isPointer {inType : TdhInType} (h : PointerLike inType) :
    inType.isPointer = true := by
  rcases h with rfl | rfl <;> rfl

theorem isPointer_of_scalarWidth {inType : TdhInType} {n : ℕ} (h : scalarWidth inType = some n) :
    inType.isPointer = false := by
  cases inType <;> first | rfl | simp [scalarWidth] at h

theorem isContentSized_of_scalarWidth {inType : TdhInType} {n : ℕ}
    (h : scalarWidth inType = some n) : inType.isContentSized = false := by
  cases inType <;> first | rfl | simp [scalarWidth] at h

theorem TakesLength.isPointer {inType : TdhInType} (h : TakesLength inType) :
    inType.isPointer = false := by
  rcases h with rfl | rfl | rfl <;> rfl

theorem TakesLength.isContentSized {inType : TdhInType} (h : TakesLength inType) :
    inType.isContentSized = false := by
  rcases h with rfl | rfl | rfl <;> rfl

theorem TakesLength.fixedSize {inType : TdhInType} (h : TakesLength inType) :
    inType.fixedSize = none := by
  rcases h with rfl | rfl | rfl <;> rfl

theorem FixedScalar.exactValueSize {pointerSize : ℕ} {inType : TdhInType}
    {length : PropertyLength} {n : ℕ} (h : FixedScalar pointerSize inType length n) :
    exactValueSize pointerSize inType length = some n := by
  cases h with
  | width h =>
    rw [Ferrisetw2.exactValueSize, isPointer_of_scalarWidth h]
    simp [fixedSize_eq_scalarWidth, h]
  | pointer h => simp only [Ferrisetw2.exactValueSize, h.isPointer, if_true]
  | literal h hl =>
    rw [Ferrisetw2.exactValueSize, h.isPointer]
    simp [h.isContentSized, hl, lengthUnit_eq_charBytes]

theorem FixedScalar.exactElemSize {pointerSize : ℕ} {inType : TdhInType}
    {length : PropertyLength} {n : ℕ} (h : FixedScalar pointerSize inType length n) :
    exactElemSize pointerSize inType length = some n := by
  cases h with
  | width h =>
    rw [Ferrisetw2.exactElemSize, isPointer_of_scalarWidth h]
    simp [fixedSize_eq_scalarWidth, h]
  | pointer h => simp only [Ferrisetw2.exactElemSize, h.isPointer, if_true]
  | literal h hl =>
    rw [Ferrisetw2.exactElemSize, h.isPointer]
    simp [hl, lengthUnit_eq_charBytes]

mutual

theorem Property.HasFixedSize.exactFixedSize {pointerSize : ℕ} :
    ∀ {p : Property} {n : ℕ}, p.HasFixedSize pointerSize n →
      p.exactFixedSize pointerSize = some n
  | ⟨_, .value _ _ _⟩, _, h => FixedScalar.exactValueSize h
  | ⟨_, .array inType _ length (.count c)⟩, _, h => by
    obtain ⟨elem, helem, rfl⟩ := h
    rw [Property.exactFixedSize, FixedScalar.exactElemSize helem]
    rfl
  | ⟨_, .struct _⟩, _, h => MembersHaveSize.exactSum h
  | ⟨_, .structArray members (.count c)⟩, _, h => by
    obtain ⟨elem, helem, rfl⟩ := h
    rw [Property.exactFixedSize, MembersHaveSize.exactSum helem]
    rfl
  | ⟨_, .unsupported (.length l)⟩, _, h => by
    obtain ⟨hl, rfl⟩ := h
    simp [Property.exactFixedSize, hl]

theorem MembersHaveSize.exactSum {pointerSize : ℕ} :
    ∀ {ms : List Property} {n : ℕ}, MembersHaveSize pointerSize ms n →
      exactSum pointerSize ms = some n
  | [], _, h => congrArg some (Eq.symm h)
  | m :: ms, _, h => by
    obtain ⟨a, b, ha, hb, rfl⟩ := h
    rw [Ferrisetw2.exactSum, Property.HasFixedSize.exactFixedSize ha, MembersHaveSize.exactSum hb]
    rfl

end

/-- A size that `fixed_size` computes is the size of the layout, when that is a `usize`. -/
theorem Property.HasFixedSize.fixedSize_eq {t : Target} {pointerSize : ℕ} {p : Property} {r n : ℕ}
    (h : p.HasFixedSize pointerSize n) (hr : p.fixedSize t pointerSize = .ok (some r))
    (hle : n ≤ t.usizeMax) : r = n := Property.fixedSize_eq_exact hr h.exactFixedSize hle

theorem MembersHaveSize.sumFixedSizes_eq {t : Target} {pointerSize : ℕ} {ms : List Property}
    {r n : ℕ} (h : MembersHaveSize pointerSize ms n)
    (hr : sumFixedSizes t pointerSize ms 0 = .ok (some r)) (hle : n ≤ t.usizeMax) : r = n := by
  have hexact := sumFixedSizes_eq_exact hr h.exactSum (by rwa [Nat.zero_add])
  rwa [Nat.zero_add] at hexact

theorem FixedScalar.valueSize {t : Target} {pointerSize : ℕ} {inType : TdhInType}
    {length : PropertyLength} {n : ℕ} (h : FixedScalar pointerSize inType length n)
    (outType : TdhOutType) (parsed : List PropertySlice) (remaining : List UInt8) :
    valueSize t pointerSize inType outType length parsed remaining = .ok (.size n) := by
  unfold Ferrisetw2.valueSize
  cases h with
  | width h =>
    rw [isPointer_of_scalarWidth h]
    simp only [Bool.false_eq_true, if_false, UInt16.lt_irrefl, false_and]
    cases inType <;> simp [scalarWidth] at h <;> subst h <;> rfl
  | pointer h => simp only [h.isPointer, if_true]
  | literal h hl =>
    simp [h.isPointer, h.isContentSized, hl, TdhInType.literalSchemaLengthBytes_eq,
      lengthUnit_eq_charBytes]

theorem FixedScalar.elemSize {t : Target} {pointerSize : ℕ} {inType : TdhInType}
    {length : PropertyLength} {n : ℕ} (h : FixedScalar pointerSize inType length n)
    (parsed : List PropertySlice) :
    elemSize t pointerSize inType length parsed = .ok (some n) := by
  unfold Ferrisetw2.elemSize
  cases h with
  | width h => simp [isPointer_of_scalarWidth h, fixedSize_eq_scalarWidth, h]
  | pointer h => simp only [h.isPointer, if_true]
  | @literal l h hl =>
    have hl0 : l ≠ 0 := fun h0 => by simp [h0] at hl
    simp [h.isPointer, hl0, TdhInType.literalSchemaLengthBytes_eq, lengthUnit_eq_charBytes]

/-- An array of `n` elements, where `elem` is their size unless there are none. -/
theorem arraySize_of_elemSize {t : Target} {pointerSize : ℕ} {inType : TdhInType}
    {length : PropertyLength} {count : PropertyCount} {parsed : List PropertySlice}
    {size : Option ℕ} {elem n : ℕ}
    (hsize : elemSize t pointerSize inType length parsed = .ok size)
    (helem : 0 < n → size = some elem) (hcount : elementCount t count parsed = some n)
    (hle : elem * n ≤ t.usizeMax) :
    arraySize t pointerSize inType length count parsed = .ok (.size (elem * n)) := by
  rw [arraySize, hsize, bind_ok]
  simp only [hcount]
  rcases Nat.eq_zero_or_pos n with rfl | hn
  · cases size with
    | none => rfl
    | some e => simp [Target.checkedMul_of_le (t := t) (a := e) (b := 0) (by omega)]
  · rw [helem hn, Option.bind_some, Target.checkedMul_of_le hle]

/-- A structure array of `n` elements, where `elem` is their size. -/
theorem MembersHaveSize.findPropertySize {t : Target} {pointerSize : ℕ} {members : List Property}
    {count : PropertyCount} {parsed : List PropertySlice} {elem n : ℕ}
    (helem : MembersHaveSize pointerSize members elem)
    (hfit : MembersSizable t pointerSize members) (hcount : elementCount t count parsed = some n)
    (hle : elem * n ≤ t.usizeMax) (name : String) (remaining : List UInt8) :
    findPropertySize t pointerSize ⟨name, .structArray members count⟩ parsed remaining
      = .ok (.size (elem * n)) := by
  obtain ⟨size, hsum⟩ := membersSizable_iff.mp hfit
  -- the size computed counts only where there are elements
  have hmul : size * n = elem * n := by
    rcases Nat.eq_zero_or_pos n with rfl | hn
    · rfl
    · rw [helem.sumFixedSizes_eq hsum (Nat.le_trans (Nat.le_mul_of_pos_right elem hn) hle)]
  rw [← hmul] at hle ⊢
  cases count with
  | count c =>
    obtain rfl : c.toNat = n := Option.some.inj hcount
    simp [Ferrisetw2.findPropertySize, Property.fixedSize, hsum, Target.checkedMul_of_le hle]
  | index i =>
    have hindex : indexValue t parsed i = some n := hcount
    simp [Ferrisetw2.findPropertySize, Property.fixedSize, structArrayByRefSize, hsum,
      hindex, Target.checkedMul_of_le hle]

/-- Where a size is fixed and can be computed, `find_property_size` computes it. -/
theorem Property.HasFixedSize.findPropertySize {t : Target} {pointerSize : ℕ}
    {prior : List (List UInt8)} : ∀ {p : Property} {n : ℕ}, p.HasFixedSize pointerSize n →
      p.Sizable t pointerSize prior → n ≤ t.usizeMax →
      ∀ (parsed : List PropertySlice) (remaining : List UInt8),
        findPropertySize t pointerSize p parsed remaining = .ok (.size n)
  | ⟨_, .value _ outType _⟩, _, h, _, _, parsed, remaining =>
    FixedScalar.valueSize h outType parsed remaining
  | ⟨_, .array inType _ length (.count c)⟩, _, h, _, hle, parsed, _ => by
    obtain ⟨elem, helem, rfl⟩ := h
    have hcount : elementCount t (.count c) parsed = some c.toNat := rfl
    exact arraySize_of_elemSize (FixedScalar.elemSize helem parsed) (fun _ => rfl) hcount hle
  | ⟨_, .struct members⟩, n, h, hfit, hle, _, _ => by
    obtain ⟨size, hsum⟩ := membersSizable_iff.mp hfit
    obtain rfl : size = n := MembersHaveSize.sumFixedSizes_eq h hsum hle
    simp only [Ferrisetw2.findPropertySize, Property.fixedSize, hsum, bind_ok]
  | ⟨name, .structArray members (.count c)⟩, _, h, hfit, hle, parsed, remaining => by
    obtain ⟨elem, helem, rfl⟩ := h
    exact MembersHaveSize.findPropertySize helem hfit.1 rfl hle name remaining
  | ⟨_, .unsupported (.length l)⟩, _, h, _, _, _, _ => by
    obtain ⟨hl, rfl⟩ := h
    simp [Ferrisetw2.findPropertySize, hl]

/-! ### The sizing code on payloads -/

/-- A carried number resolves, when it is a `usize`. -/
theorem Carries.indexValue {t : Target} {parsed : List PropertySlice} {i : UInt16} {n : ℕ}
    (h : Carries (parsed.map (·.buffer.bytes)) i n) (hn : n ≤ t.usizeMax) :
    indexValue t parsed i = some n := by
  obtain ⟨bytes, hbytes, hwidth, rfl⟩ := h
  rw [List.getElem?_map, Option.map_eq_some_iff] at hbytes
  obtain ⟨slice, hslice, rfl⟩ := hbytes
  rw [Ferrisetw2.indexValue, hslice, Option.bind_some, indexValueFromBytes_of_le hwidth hn]

theorem CountIs.elementCount {t : Target} {parsed : List PropertySlice} {count : PropertyCount}
    {n : ℕ} (h : CountIs (parsed.map (·.buffer.bytes)) count n)
    (hfit : CountFits t (parsed.map (·.buffer.bytes)) count) :
    elementCount t count parsed = some n := by
  cases count with
  | count c =>
    obtain rfl : n = c.toNat := h
    rfl
  | index i => exact Carries.indexValue h (hfit n h)

/-- A count by reference that is not a `usize` does not resolve. -/
theorem elementCount_eq_none {t : Target} {parsed : List PropertySlice} {count : PropertyCount}
    (h : ¬ CountFits t (parsed.map (·.buffer.bytes)) count) :
    elementCount t count parsed = none := by
  cases count with
  | count c => exact absurd trivial h
  | index i =>
    obtain ⟨n, hn⟩ := not_forall.mp h
    obtain ⟨⟨bytes, hbytes, -, rfl⟩, hlt⟩ := Classical.not_imp.mp hn
    rw [List.getElem?_map, Option.map_eq_some_iff] at hbytes
    obtain ⟨slice, hslice, rfl⟩ := hbytes
    rw [elementCount, indexValue, hslice, Option.bind_some, Option.eq_none_iff_forall_ne_some]
    intro m hm
    obtain ⟨rfl, hle⟩ := indexValueFromBytes_eq_some hm
    exact hlt hle

/-- A length of at most a payload's converts to bytes. -/
theorem TakesLength.schemaLengthBytes {t : Target} {inType : TdhInType} {n : ℕ}
    (h : charBytes inType * n ≤ t.usizeMax) :
    inType.schemaLengthBytes t n = some (charBytes inType * n) := by
  rw [← lengthUnit_eq_charBytes] at h ⊢
  exact TdhInType.schemaLengthBytes_of_le h

theorem le_charBytes_mul (inType : TdhInType) (n : ℕ) : n ≤ charBytes inType * n := by
  unfold charBytes
  split <;> omega

/-- The code resolves the element size of an array, when it is a `usize`. -/
theorem ElemSize.elemSize {t : Target} {pointerSize : ℕ} {parsed : List PropertySlice}
    {inType : TdhInType} {length : PropertyLength} {n : ℕ}
    (h : ElemSize pointerSize (parsed.map (·.buffer.bytes)) inType length n) :
    ∃ size, elemSize t pointerSize inType length parsed = .ok size ∧
      (n ≤ t.usizeMax → size = some n) := by
  cases h with
  | fixed h => exact ⟨some n, h.elemSize parsed, fun _ => rfl⟩
  | width h =>
    refine ⟨some n, ?_, fun _ => rfl⟩
    simp [Ferrisetw2.elemSize, isPointer_of_scalarWidth h, fixedSize_eq_scalarWidth, h]
  | @carried i m h hc =>
    refine ⟨(indexValue t parsed i).bind (inType.schemaLengthBytes t), ?_, fun hle => ?_⟩
    · simp [Ferrisetw2.elemSize, h.isPointer, h.fixedSize]
    · have hm : m ≤ t.usizeMax := Nat.le_trans (le_charBytes_mul inType m) hle
      rw [hc.indexValue hm, Option.bind_some, TakesLength.schemaLengthBytes hle]

/-- A content-sized value is sized by its content, whatever its length property says. -/
theorem valueSize_of_content {t : Target} {pointerSize : ℕ} {inType : TdhInType}
    {outType : TdhOutType} {length : PropertyLength} (parsed : List PropertySlice)
    {remaining : List UInt8} {n : ℕ} (hp : inType.isPointer = false)
    (hl : length = .length 0 ∨ inType.isContentSized = true)
    (h : exactContentSize inType outType remaining = some n) (hn : n ≤ t.usizeMax) :
    valueSize t pointerSize inType outType length parsed remaining = .ok (.size n) := by
  unfold valueSize
  rw [hp]
  rcases hl with rfl | hc
  · simp only [Bool.false_eq_true, if_false, UInt16.lt_irrefl, false_and]
    exact sizeFromContent_of_exact h hn
  · cases length <;> simp only [hc, Bool.false_eq_true, Bool.true_eq_false, if_false, and_false] <;>
      exact sizeFromContent_of_exact h hn

/-- **The sizing code reads the length of a payload off the buffer**, whatever follows it, when the
property can be sized. -/
theorem findPropertySize_of_encodes {t : Target} {pointerSize : ℕ} {p : Property}
    {parsed : List PropertySlice} {payload : List UInt8}
    (h : Encodes pointerSize (parsed.map (·.buffer.bytes)) p payload)
    (hfit : p.Sizable t pointerSize (parsed.map (·.buffer.bytes)))
    (hle : payload.length ≤ t.usizeMax) (following : List UInt8) :
    findPropertySize t pointerSize p parsed (payload ++ following)
      = .ok (.size payload.length) := by
  cases h with
  | fixed h => exact h.findPropertySize hfit hle parsed _
  | @width _ inType outType i _ h =>
    show valueSize t pointerSize inType outType (.index i) parsed (payload ++ following) = _
    simp [valueSize, isPointer_of_scalarWidth h, isContentSized_of_scalarWidth h,
      fixedSize_eq_scalarWidth, h]
  | @ansiString _ outType body h =>
    refine valueSize_of_content parsed rfl (Or.inl rfl) ?_ hle
    simp [exactContentSize, memchr_append_zero h]
  | @unicodeString _ outType body heven h =>
    refine valueSize_of_content parsed rfl (Or.inl rfl) ?_ hle
    have hfind := findIdx_codeUnits_append_zero heven h following
    obtain ⟨k, hk⟩ := heven
    simp only [exactContentSize, List.append_assoc, List.cons_append, List.nil_append, hfind,
      Option.map_some, List.length_append, List.length_cons, List.length_nil, Option.some.injEq]
    omega
  | @carried _ inType outType i n _ h hc hlen =>
    have hn : n ≤ t.usizeMax := by
      have := le_charBytes_mul inType n
      omega
    show valueSize t pointerSize inType outType (.index i) parsed (payload ++ following) = _
    simp [valueSize, h.isPointer, h.isContentSized, h.fixedSize, hc.indexValue hn,
      TakesLength.schemaLengthBytes (hlen ▸ hle), hlen]
  | @counted _ inType outType length count body h hcount hlen =>
    have hcontent : exactContentSize inType outType ((count ++ body) ++ following)
        = some (count ++ body).length := by
      rw [List.append_assoc, List.length_append, hcount, ← hlen]
      rcases h with rfl | rfl | rfl | rfl | rfl <;>
        simp [exactContentSize, take?_append hcount]
    have htype : inType.isPointer = false ∧ inType.isContentSized = true := by
      rcases h with rfl | rfl | rfl | rfl | rfl <;> exact ⟨rfl, rfl⟩
    exact valueSize_of_content parsed htype.1 (Or.inr htype.2) hcontent hle
  | @reversedCounted _ inType outType length count body h hcount hlen =>
    have hcontent : exactContentSize inType outType ((count ++ body) ++ following)
        = some (count ++ body).length := by
      rw [List.append_assoc, List.length_append, hcount, ← hlen]
      rcases h with rfl | rfl <;> simp [exactContentSize, take?_append hcount]
    have htype : inType.isPointer = false ∧ inType.isContentSized = true := by
      rcases h with rfl | rfl <;> exact ⟨rfl, rfl⟩
    exact valueSize_of_content parsed htype.1 (Or.inr htype.2) hcontent hle
  | @hexDump _ outType length count body hcount hlen =>
    have hcontent : exactContentSize .inTypeHexDump outType ((count ++ body) ++ following)
        = some (count ++ body).length := by
      rw [List.append_assoc, List.length_append, hcount, ← hlen]
      simp [exactContentSize, take?_append hcount]
    exact valueSize_of_content _ rfl (Or.inr rfl) hcontent hle
  | @sid _ inType outType length revision count rest h hlen =>
    have hcontent : exactContentSize inType outType ((revision :: count :: rest) ++ following)
        = some (revision :: count :: rest).length := by
      have heq : (revision :: count :: rest).length = 8 + 4 * count.toNat := by
        simp only [List.length_cons, hlen]
        omega
      rw [heq]
      rcases h with rfl | rfl <;> simp [exactContentSize]
    have htype : inType.isPointer = false ∧ inType.isContentSized = true := by
      rcases h with rfl | rfl <;> exact ⟨rfl, rfl⟩
    exact valueSize_of_content parsed htype.1 (Or.inr htype.2) hcontent hle
  | ipv6 hlen =>
    refine valueSize_of_content parsed rfl (Or.inl rfl) ?_ hle
    simp [exactContentSize, hlen]
  | @array _ inType outType length count elem n _ helem hcount hlen =>
    show arraySize t pointerSize inType length count parsed = _
    rw [hlen] at hle ⊢
    obtain ⟨size, hsize, hsome⟩ := helem.elemSize (t := t)
    refine arraySize_of_elemSize hsize (fun hn => hsome ?_) (hcount.elementCount hfit) hle
    exact Nat.le_trans (Nat.le_mul_of_pos_right elem hn) hle
  | @structArray name members count elem n _ helem hcount hlen =>
    rw [hlen] at hle ⊢
    exact MembersHaveSize.findPropertySize helem hfit.1 (hcount.elementCount hfit.2) hle name _
  | @unsupported _ i _ hc =>
    simp [findPropertySize, hc.indexValue hle]

/-- **A property that cannot be sized is not given a size**: the code unwinds, or asks TDH. -/
theorem findPropertySize_of_not_sizable {t : Target} {pointerSize : ℕ} {p : Property}
    {parsed : List PropertySlice}
    (h : ¬ p.Sizable t pointerSize (parsed.map (·.buffer.bytes))) (remaining : List UInt8) (n : ℕ) :
    findPropertySize t pointerSize p parsed remaining ≠ .ok (.size n) := by
  intro hsize
  match p with
  | ⟨_, .value _ _ _⟩ => exact h trivial
  | ⟨_, .unsupported _⟩ => exact h trivial
  | ⟨_, .array inType _ length count⟩ =>
    obtain ⟨elem, -, hrest⟩ := bind_eq_ok_iff.mp hsize
    rw [elementCount_eq_none h] at hrest
    cases hrest
  | ⟨_, .struct members⟩ =>
    refine h (membersSizable_iff.mpr ?_)
    obtain ⟨size, hsum, hrest⟩ := bind_eq_ok_iff.mp hsize
    cases size with
    | none => cases hrest
    | some size => exact ⟨size, hsum⟩
  | ⟨_, .structArray members count⟩ =>
    obtain ⟨elem, m, hsum, hcount, -⟩ := findPropertySize_structArray hsize
    refine h ⟨membersSizable_iff.mpr ⟨elem, hsum⟩, ?_⟩
    by_contra hfits
    rw [elementCount_eq_none hfits] at hcount
    cases hcount

/-! ### Taking a packed buffer apart -/

theorem Packed.length_eq {pointerSize : ℕ} {prior payloads : List (List UInt8)}
    {properties : List Property} (h : Packed pointerSize prior properties payloads) :
    payloads.length = properties.length := by
  induction h with
  | nil => rfl
  | cons h hrest ih => simp [ih]
  | rest h => rfl

/-- Each payload encodes its property, unless it spans the rest of the event. -/
theorem Packed.getElem {pointerSize : ℕ} {prior payloads : List (List UInt8)}
    {properties : List Property} (h : Packed pointerSize prior properties payloads) :
    ∀ {k : ℕ} {property : Property} {payload : List UInt8}, properties[k]? = some property →
      payloads[k]? = some payload →
      Encodes pointerSize (prior ++ payloads.take k) property payload ∨
      (k + 1 = payloads.length ∧ ∃ name inType outType length, SpansRest inType ∧
        property = ⟨name, .value inType outType length⟩) := by
  induction h with
  | nil => simp
  | @cons prior property' properties payload' payloads h hrest ih =>
    intro k property payload hprop hpay
    cases k with
    | zero =>
      obtain rfl : property' = property := by simpa using hprop
      obtain rfl : payload' = payload := by simpa using hpay
      exact Or.inl (by simpa using h)
    | succ k =>
      rw [List.getElem?_cons_succ] at hprop hpay
      rcases ih hprop hpay with henc | ⟨hlast, hspans⟩
      · exact Or.inl (by simpa using henc)
      · exact Or.inr ⟨by simpa using hlast, hspans⟩
  | rest h =>
    intro k property payload hprop hpay
    cases k with
    | zero => exact Or.inr ⟨rfl, _, _, _, _, h, by simpa using hprop.symm⟩
    | succ k => simp at hprop

/-- What comes before a payload, the payload, and what follows it. -/
theorem flatten_of_getElem? {payloads : List (List UInt8)} {k : ℕ} {payload : List UInt8}
    (h : payloads[k]? = some payload) : payloads.flatten =
      (payloads.take k).flatten ++ (payload ++ (payloads.drop (k + 1)).flatten) := by
  obtain ⟨hk, hget⟩ := List.getElem?_eq_some_iff.mp h
  conv_lhs => rw [← List.take_append_drop k payloads]
  rw [List.drop_eq_getElem_cons hk, hget, List.flatten_append, List.flatten_cons]

/-- The sizing code reads the length of each payload off a packed buffer. -/
theorem Packed.findPropertySize {t : Target} {pointerSize : ℕ} {payloads : List (List UInt8)}
    {properties : List Property} (hpacked : Packed pointerSize [] properties payloads)
    {parsed : List PropertySlice} {property : Property} {payload : List UInt8}
    (hprop : properties[parsed.length]? = some property)
    (hpay : payloads[parsed.length]? = some payload)
    (hparsed : parsed.map (·.buffer.bytes) = payloads.take parsed.length)
    (hfit : property.Sizable t pointerSize (payloads.take parsed.length))
    (hle : payload.length ≤ t.usizeMax) :
    findPropertySize t pointerSize property parsed
      (payload ++ (payloads.drop (parsed.length + 1)).flatten) = .ok (.size payload.length) := by
  rcases hpacked.getElem hprop hpay with henc | ⟨hlast, name, inType, outType, length, hspan, rfl⟩
  · rw [List.nil_append, ← hparsed] at henc
    rw [← hparsed] at hfit
    exact findPropertySize_of_encodes henc hfit hle _
  · rw [hlast, List.drop_length, List.flatten_nil, List.append_nil]
    rcases hspan with rfl | rfl
    · exact valueSize_of_content _ rfl (Or.inr rfl) rfl hle
    · exact valueSize_of_content _ rfl (Or.inr rfl) rfl hle

theorem packedSlices_getElem? : ∀ (start : ℕ) (properties : List Property)
    (payloads : List (List UInt8)) (k : ℕ),
    (packedSlices start properties payloads)[k]? = (properties[k]?).bind fun property =>
      (payloads[k]?).map fun payload =>
        ⟨property, ⟨start + (payloads.take k).flatten.length, payload⟩⟩
  | _, [], _, _ => by simp [packedSlices]
  | _, _ :: _, [], _ => by simp [packedSlices]
  | start, property :: properties, payload :: payloads, 0 => by simp [packedSlices]
  | start, property :: properties, payload :: payloads, k + 1 => by
    rw [packedSlices, List.getElem?_cons_succ, packedSlices_getElem?]
    simp only [List.getElem?_cons_succ, List.take_succ_cons, List.flatten_cons, List.length_append,
      Nat.add_assoc]

theorem packedSlices_bytes : ∀ {start : ℕ} {properties : List Property}
    {payloads : List (List UInt8)}, payloads.length = properties.length →
      (packedSlices start properties payloads).map (·.buffer.bytes) = payloads
  | _, [], [], _ => rfl
  | _, property :: properties, payload :: payloads, h => by
    simp only [packedSlices, List.map_cons]
    rw [packedSlices_bytes (by simpa using h)]

theorem packedSlices_length {start : ℕ} {properties : List Property} {payloads : List (List UInt8)}
    (h : payloads.length = properties.length) :
    (packedSlices start properties payloads).length = properties.length := by
  have hbytes : ((packedSlices start properties payloads).map (·.buffer.bytes)).length =
      payloads.length := congrArg List.length (packedSlices_bytes h)
  rwa [List.length_map, h] at hbytes

theorem totalLen_eq (slices : List PropertySlice) :
    totalLen slices = (slices.map (·.buffer.bytes)).flatten.length := by
  rw [List.length_flatten, List.map_map]
  rfl

section Walk

variable {P : Parser} {payloads : List (List UInt8)} {s : ParserState}

/-- The bytes located so far are payloads, when the slices are. -/
theorem bytes_eq_take (hlen : payloads.length = P.properties.length)
    (hpre : s.cache.slices <+: packedSlices 0 P.properties payloads) :
    s.cache.slices.map (·.buffer.bytes) = payloads.take s.cache.slices.length := by
  have hmap := congrArg (List.map (·.buffer.bytes)) (List.prefix_iff_eq_take.mp hpre)
  rwa [List.map_take, packedSlices_bytes hlen] at hmap

/-- **At a payload, the walk takes the payload**, when its property can be sized. -/
theorem Packed.parseNextProperty
    (hpacked : Packed P.record.pointerSize [] P.properties payloads)
    (hbuffer : P.record.userBuffer = payloads.flatten)
    (hs : Cached P (some 0) (packedSlices 0 P.properties payloads) s) {property : Property}
    (hprop : P.properties[s.cache.slices.length]? = some property)
    (hfit : property.Sizable P.target P.record.pointerSize
      (payloads.take s.cache.slices.length)) :
    ∃ h : s.cache.slices.length < (packedSlices 0 P.properties payloads).length,
      P.parseNextProperty s =
        (.ok (), Parser.push s (packedSlices 0 P.properties payloads)[s.cache.slices.length]) := by
  have hlen := hpacked.length_eq
  have hlt : s.cache.slices.length < P.properties.length :=
    (List.getElem?_eq_some_iff.mp hprop).1
  obtain ⟨payload, hpay⟩ : ∃ b, payloads[s.cache.slices.length]? = some b :=
    ⟨_, List.getElem?_eq_getElem (hlen ▸ hlt)⟩
  have hparsed := bytes_eq_take hlen hs.isPrefix
  have hoffset : s.cache.lastCachedOffset =
      (payloads.take s.cache.slices.length).flatten.length := by
    rw [hs.offset, totalLen_eq, hparsed]
  have hget : (packedSlices 0 P.properties payloads)[s.cache.slices.length]? =
      some ⟨property, ⟨s.cache.lastCachedOffset, payload⟩⟩ := by
    rw [packedSlices_getElem?, hprop, hpay, Nat.zero_add, hoffset]
    rfl
  obtain ⟨hlocated, hslice⟩ := List.getElem?_eq_some_iff.mp hget
  refine ⟨hlocated, ?_⟩
  -- the payload at the offset reached, and what follows it
  have hsplit := flatten_of_getElem? hpay
  have hfrom : P.record.userSlice.getFrom (0 + s.cache.lastCachedOffset) = some
      ⟨s.cache.lastCachedOffset, payload ++
        (payloads.drop (s.cache.slices.length + 1)).flatten⟩ := by
    rw [Slice.getFrom_eq_some_iff, EventRecord.userSlice, Slice.len, hbuffer, hsplit, hoffset]
    simp
  have hle : payload.length ≤ P.target.usizeMax := by
    have hbound := P.record.userBuffer_le
    have husize := P.target.usizeMax_ge
    rw [hbuffer, hsplit] at hbound
    simp only [List.length_append] at hbound
    omega
  have hsize := hpacked.findPropertySize hprop hpay hparsed hfit hle
  have hto : (⟨s.cache.lastCachedOffset, payload ++
      (payloads.drop (s.cache.slices.length + 1)).flatten⟩ : Slice).getTo payload.length
        = some ⟨s.cache.lastCachedOffset, payload⟩ := Slice.getTo_append_left rfl
  simp only [Parser.parseNextProperty, hprop, hs.start, hfrom, Parser.findPropertySize, hsize,
    hto, hslice]

/-- **The parser follows the payloads**, without asking TDH, when the properties can be sized. -/
theorem follows_packedSlices (hpacked : Packed P.record.pointerSize [] P.properties payloads)
    (hfit : PackedSizable P.target P.record.pointerSize P.properties payloads)
    (hbuffer : P.record.userBuffer = payloads.flatten) :
    P.Follows (some 0) (packedSlices 0 P.properties payloads) (.error .notFound) (· = []) := by
  refine ⟨fun s hs hcalls => ⟨[], rfl, ?_⟩⟩
  have hstate : ({ s with tdhCalls := [] } : ParserState) = s := by rw [← hcalls]
  rw [hstate]
  cases hprop : P.properties[s.cache.slices.length]? with
  | some property => exact Or.inl (hpacked.parseNextProperty hbuffer hs hprop (hfit _ _ hprop))
  | none =>
    refine Or.inr ⟨hs.isPrefix.eq_of_length_le ?_, ?_⟩
    · rw [packedSlices_length hpacked.length_eq]
      exact List.getElem?_eq_none_iff.mp hprop
    · simp only [Parser.parseNextProperty, hprop]

/-- At a property without a size, the walk fails where it is, or asks TDH. -/
theorem parseNextProperty_of_no_size {property : Property}
    (hprop : P.properties[s.cache.slices.length]? = some property)
    (hsize : ∀ remaining n, findPropertySize P.target P.record.pointerSize property s.cache.slices
      remaining ≠ .ok (.size n)) :
    (∃ e, P.parseNextProperty s = (.error e, s)) ∨ (P.parseNextProperty s).2.tdhCalls ≠ [] := by
  rw [Parser.parseNextProperty, hprop]
  dsimp only
  split
  · exact Or.inl ⟨_, rfl⟩
  · split
    · exact Or.inl ⟨_, rfl⟩
    · rename_i remaining _
      rw [Parser.findPropertySize]
      cases hlocal : findPropertySize P.target P.record.pointerSize property s.cache.slices
          remaining.bytes with
      | error p => exact Or.inl ⟨_, rfl⟩
      | ok sizing =>
        cases sizing with
        | size n => exact absurd hlocal (hsize _ n)
        | error e => exact Or.inl ⟨_, rfl⟩
        | tdh =>
          refine Or.inr ?_
          dsimp only
          rw [Parser.tdhPropertySize]
          cases P.tdh s.tdhCalls property with
          | error e => simp
          | ok size =>
            dsimp only
            split <;> simp [Parser.push]

/-- Unless TDH was asked, what is cached are payloads, of properties that can be sized. -/
structure CachesPayloads (P : Parser) (payloads : List (List UInt8)) (s : ParserState) : Prop
    extends Walked P (some 0) s where
  sized : s.tdhCalls = [] → s.cache.slices <+: packedSlices 0 P.properties payloads ∧
    ∀ i < s.cache.slices.length, ∀ property, P.properties[i]? = some property →
      property.Sizable P.target P.record.pointerSize (payloads.take i)

/-- A step of the walk caches a payload, or fails, or asks TDH. -/
theorem CachesPayloads.parseNextProperty
    (hpacked : Packed P.record.pointerSize [] P.properties payloads)
    (hbuffer : P.record.userBuffer = payloads.flatten) (hs : CachesPayloads P payloads s) :
    CachesPayloads P payloads (P.parseNextProperty s).2 := by
  refine ⟨(P.walked_keeps (some 0)).step s hs.toWalked, fun hnone => ?_⟩
  have hcalls : s.tdhCalls = [] := List.prefix_nil.mp (hnone ▸ P.parseNextProperty_tdhCalls s)
  obtain ⟨hpre, hsized⟩ := hs.sized hcalls
  cases hprop : P.properties[s.cache.slices.length]? with
  | none =>
    rw [Parser.parseNextProperty, hprop]
    exact ⟨hpre, hsized⟩
  | some property =>
    by_cases hfit : property.Sizable P.target P.record.pointerSize
        (payloads.take s.cache.slices.length)
    · obtain ⟨hlt, hstep⟩ :=
        hpacked.parseNextProperty hbuffer ⟨hs.toWalked, hpre⟩ hprop hfit
      rw [hstep]
      refine ⟨?_, fun i hi property' hprop' => ?_⟩
      · exact List.concat_get_prefix hpre hlt
      · rw [Parser.push, List.length_append, List.length_singleton, Nat.lt_succ_iff_lt_or_eq] at hi
        rcases hi with hi | rfl
        · exact hsized i hi property' hprop'
        · obtain rfl : property = property' := Option.some.inj (hprop.symm.trans hprop')
          exact hfit
    · rw [← bytes_eq_take hpacked.length_eq hpre] at hfit
      rcases parseNextProperty_of_no_size hprop (findPropertySize_of_not_sizable hfit) with
        ⟨e, hstep⟩ | hasks
      · rw [hstep]
        exact ⟨hpre, hsized⟩
      · exact absurd hnone hasks

theorem cachesPayloads_keeps (hpacked : Packed P.record.pointerSize [] P.properties payloads)
    (hbuffer : P.record.userBuffer = payloads.flatten) : P.Keeps (CachesPayloads P payloads) where
  step := fun _ hs => hs.parseNextProperty hpacked hbuffer
  hit := fun s idx hs hidx => ⟨(P.walked_keeps (some 0)).hit s idx hs.toWalked hidx, hs.sized⟩
  probe := fun _ hs => hs.probe

end Walk

/-! ### Decoding -/

/-- Each position is answered by its payload, at its place, and TDH is not asked. -/
def AnswersPayloads (P : Parser) (payloads : List (List UInt8)) (s : ParserState) : Prop :=
  ∀ i (hi : i < payloads.length),
    (P.propertyBytesAt i s).1 = .ok ⟨(payloads.take i).flatten.length, payloads[i]⟩ ∧
      (P.propertyBytesAt i s).2.tdhCalls = []

section Decoding

variable {target : Target} {tdh : List Property → Property → Except TdhNativeError UInt32}
  {record : EventRecord} {schema : Schema} {payloads : List (List UInt8)}
  (hstart : propertyValuesStart record schema = some 0)
  (hpacked : Packed record.pointerSize [] schema.properties payloads)
  (hbuffer : record.userBuffer = payloads.flatten)

include hstart hpacked hbuffer

/-- What is answered by its payload, without TDH, can be sized. -/
theorem packedSizable_of_answersPayloads (calls : List Call)
    (hanswers : AnswersPayloads (Parser.create target tdh record schema) payloads
      (CallMachine.after (Parser.create target tdh record schema).call
        (Parser.createState record schema) calls)) :
    PackedSizable target record.pointerSize schema.properties payloads := by
  intro i property hprop
  let P := Parser.create target tdh record schema
  have hkeeps := cachesPayloads_keeps (P := P) hpacked hbuffer
  have hcreate : CachesPayloads P payloads (Parser.createState record schema) :=
    ⟨hstart ▸ Walked.create P record schema, fun _ => ⟨List.nil_prefix, nofun⟩⟩
  obtain ⟨hs, -⟩ := hkeeps.after hcreate calls
  obtain ⟨e, s', heq, hs', -, -⟩ := hkeeps.propertyBytesAt i hs
  have hi : i < payloads.length := hpacked.length_eq ▸ (List.getElem?_eq_some_iff.mp hprop).1
  obtain ⟨hanswer, hcalls⟩ := hanswers i hi
  rw [heq] at hanswer hcalls
  -- the answer is cached, and nothing was asked to get there
  have hlocated : i < s'.cache.slices.length := by
    by_contra hcon
    simp [bytesAnswer, List.getElem?_eq_none (Nat.not_lt.mp hcon)] at hanswer
  exact (hs'.sized hcalls).2 i hlocated property hprop

/-- **Decoding undoes packing**, where the properties can be sized. -/
theorem answersPayloads_of_packedSizable
    (hfit : PackedSizable target record.pointerSize schema.properties payloads)
    (calls : List Call) :
    AnswersPayloads (Parser.create target tdh record schema) payloads
      (CallMachine.after (Parser.create target tdh record schema).call
        (Parser.createState record schema) calls) := by
  intro i hi
  let P := Parser.create target tdh record schema
  have hF := follows_packedSlices (P := P) hpacked hfit hbuffer
  have hcreate : Cached P (some 0) (packedSlices 0 P.properties payloads)
      (Parser.createState record schema) := hstart ▸ Cached.create P record schema _
  obtain ⟨hs, hcalls⟩ := hF.after hcreate rfl calls
  obtain ⟨-, hcalls', -, hanswer⟩ := hF.call hs hcalls (.bytesAt i)
  refine ⟨?_, hcalls'⟩
  have hi' : i < schema.properties.length := hpacked.length_eq ▸ hi
  have hget : (packedSlices 0 P.properties payloads)[i]? = some
      ⟨schema.properties[i], ⟨(payloads.take i).flatten.length, payloads[i]⟩⟩ := by
    have hprop : P.properties[i]? = some schema.properties[i] := List.getElem?_eq_getElem hi'
    rw [packedSlices_getElem?, hprop, List.getElem?_eq_getElem hi]
    simp
  have heq := Answer.bytes.inj (hanswer trivial)
  rw [bytesAnswer, hget] at heq
  exact heq

end Decoding

/-- **Decoding undoes packing exactly when the properties can be sized.** The user buffer is the
concatenation of well-formed payloads, and any calls were made of the parser before. -/
theorem answersPayloads_iff_sizable (target : Target)
    (tdh : List Property → Property → Except TdhNativeError UInt32) (record : EventRecord)
    (schema : Schema) (payloads : List (List UInt8)) (calls : List Call)
    (hstart : propertyValuesStart record schema = some 0)
    (hpacked : Packed record.pointerSize [] schema.properties payloads)
    (hbuffer : record.userBuffer = payloads.flatten) :
    let P := Parser.create target tdh record schema
    AnswersPayloads P payloads
        (CallMachine.after P.call (Parser.createState record schema) calls) ↔
      PackedSizable target record.pointerSize schema.properties payloads :=
  ⟨packedSizable_of_answersPayloads hstart hpacked hbuffer calls,
    fun hfit => answersPayloads_of_packedSizable hstart hpacked hbuffer hfit calls⟩

/-- A count, a string, as many `u16` as the count says, a structure, and the rest: after two
lookups, one of them failed, the array is found behind the string. -/
theorem answersPayloads_array :
    ∃ (record : EventRecord) (schema : Schema),
      record.userBuffer = [2, 0, 104, 105, 0, 7, 0, 8, 0, 1, 2, 3, 65, 66] ∧
      let P := Parser.create ⟨.b32, true⟩ (fun _ _ => .ok 1) record schema
      let s := CallMachine.after P.call (Parser.createState record schema)
        [.find "Rest", .bytesAt 9]
      (P.propertyBytesAt 2 s).1 = .ok ⟨5, [7, 0, 8, 0]⟩ ∧
        (P.propertyBytesAt 2 s).2.tdhCalls = [] := by
  let scalar (inType : TdhInType) : PropertyInfo Property := .value inType .outTypeNull (.length 0)
  let members : List Property := [⟨"A", scalar .inTypeUInt8⟩, ⟨"B", scalar .inTypeUInt16⟩]
  let record : EventRecord :=
    ⟨0, 0, [2, 0, 104, 105, 0, 7, 0, 8, 0, 1, 2, 3, 65, 66], by decide, []⟩
  let schema : Schema := ⟨.decodingSourceXMLFile,
    [⟨"Count", scalar .inTypeUInt16⟩, ⟨"Name", scalar .inTypeAnsiString⟩,
      ⟨"Ids", .array .inTypeUInt16 .outTypeNull (.length 0) (.index 0)⟩,
      ⟨"Pair", .struct members⟩, ⟨"Rest", scalar .inTypeNonNullTerminatedAnsiString⟩]⟩
  let payloads : List (List UInt8) := [[2, 0], [104, 105, 0], [7, 0, 8, 0], [1, 2, 3], [65, 66]]
  have hname : (0 : UInt8) ∉ [104, 105] := by decide
  have hcount : CountIs [[2, 0], [104, 105, 0]] (.index 0) 2 :=
    ⟨[2, 0], rfl, by decide, by decide⟩
  have helem : ElemSize record.pointerSize [[2, 0], [104, 105, 0]] .inTypeUInt16 (.length 0) 2 :=
    .fixed (.width rfl)
  have hmembers : MembersHaveSize record.pointerSize members 3 :=
    ⟨1, 2, .width rfl, ⟨2, 0, .width rfl, rfl, rfl⟩, rfl⟩
  have hpacked : Packed record.pointerSize [] schema.properties payloads :=
    .cons (.fixed (.width rfl)) (.cons (.ansiString hname)
      (.cons (.array helem hcount rfl) (.cons (.fixed hmembers) (.rest (Or.inr rfl)))))
  have hfit : PackedSizable ⟨.b32, true⟩ record.pointerSize schema.properties payloads := by
    rintro (_ | _ | _ | _ | _ | i) property ⟨⟩
    · trivial
    · trivial
    · rintro n ⟨bytes, hbytes, -, rfl⟩
      obtain rfl := Option.some.inj hbytes
      decide
    · exact membersSizable_iff.mpr ⟨3, rfl⟩
    · trivial
  exact ⟨record, schema, rfl, (answersPayloads_iff_sizable ⟨.b32, true⟩ (fun _ _ => .ok 1) record
    schema payloads [.find "Rest", .bytesAt 9] rfl hpacked rfl).mpr hfit 2 (by decide)⟩

/-- No elements, of a structure of twice `65535 ^ 4` bytes. The members are sized first: on a 64-bit
target their sum unwinds, on a 32-bit target the size of each does not fit and TDH is asked. -/
theorem not_answersPayloads_noElements :
    let quarter : Property :=
      ⟨"Quarter", .array .inTypeBinary .outTypeNull (.length 65535) (.count 65535)⟩
    let half : Property :=
      ⟨"Half", .structArray [⟨"S", .structArray [quarter] (.count 65535)⟩] (.count 65535)⟩
    let record : EventRecord := ⟨0, 0, [0], by decide, []⟩
    let schema : Schema := ⟨.decodingSourceXMLFile,
      [⟨"Count", .value .inTypeUInt8 .outTypeNull (.length 0)⟩,
        ⟨"Items", .structArray [half, half] (.index 0)⟩]⟩
    propertyValuesStart record schema = some 0 ∧
      Packed record.pointerSize [] schema.properties [[0], []] ∧
      record.userBuffer = [[0], []].flatten ∧
      ∀ target ∈ [(⟨.b32, true⟩ : Target), ⟨.b32, false⟩, ⟨.b64, true⟩], ∀ tdh,
        ¬ AnswersPayloads (Parser.create target tdh record schema) [[0], []]
          (Parser.createState record schema) := by
  intro quarter half record schema
  have hhalf : ∃ n, half.HasFixedSize record.pointerSize n :=
    ⟨_, _, ⟨_, 0, ⟨_, ⟨_, 0, ⟨_, .literal (.inr (.inr rfl)) (by decide), rfl⟩, rfl, rfl⟩, rfl⟩, rfl,
      rfl⟩, rfl⟩
  obtain ⟨n, hn⟩ := hhalf
  have hmembers : MembersHaveSize record.pointerSize [half, half] (n + (n + 0)) :=
    ⟨n, n + 0, hn, ⟨n, 0, hn, rfl, rfl⟩, rfl⟩
  have hcount : CountIs [[0]] (.index 0) 0 := ⟨[0], rfl, by decide, by decide⟩
  have hpacked : Packed record.pointerSize [] schema.properties [[0], []] :=
    .cons (.fixed (.width rfl)) (.cons (.structArray hmembers hcount rfl) .nil)
  refine ⟨rfl, hpacked, rfl, fun target htarget tdh hanswers => ?_⟩
  have hfit := packedSizable_of_answersPayloads rfl hpacked rfl [] hanswers
  obtain ⟨size, hsum⟩ := membersSizable_iff.mp (hfit 1 _ rfl).1
  rw [List.mem_cons, List.mem_cons, List.mem_singleton] at htarget
  rcases htarget with rfl | rfl | rfl
  · have hnone : sumFixedSizes ⟨.b32, true⟩ record.pointerSize [half, half] 0 = .ok none := rfl
    rw [hnone] at hsum
    cases hsum
  · have hnone : sumFixedSizes ⟨.b32, false⟩ record.pointerSize [half, half] 0 = .ok none := rfl
    rw [hnone] at hsum
    cases hsum
  · have hover : sumFixedSizes ⟨.b64, true⟩ record.pointerSize [half, half] 0 =
      .error .overflow := rfl
    rw [hover] at hsum
    cases hsum

end Ferrisetw2
