import Ferrisetw2.Parser.Walk
import Ferrisetw2.Ser.MemberWalk

/-!
# Declared lengths of content-sized types

A value of a content-sized in type says itself how long it is: a count in front of it, the header of
a SID, or the end of the event. A length the schema declares for it is to be ignored, as a number
and by reference. The rule is written down once, in `is_content_sized`, and applied where values are
sized; arrays and structure members have a code of their own.

The two runs compared below differ in the declared length alone. TDH applies the rule, so it is
assumed to answer both alike.

## Main definitions

* `Parser.bytesLocated` — how many bytes a step of the walk takes
* `declaredLength`, `declaredTotal`, `literalTotal` — the lengths that are not ignored
* `LeadsWith` — a value is there, as the build sizes it

## Main results

* `content_sized_length_iff` — in each position, when the declared length does not matter
-/

namespace Ferrisetw2

open Rust

/-! ### Two routes to a size -/

section Options

variable {α β : Type*}

/-- Two runs through a step that loses nothing end alike when they start alike, or the step
fails. -/
theorem bind_eq_bind_iff {f : α → Option β}
    (hinj : ∀ a a' b, f a = some b → f a' = some b → a = a') (x y : Option α) :
    x.bind f = y.bind f ↔ ∀ a b, f a = some b → (x = some a ↔ y = some a) := by
  have hback : ∀ {z : Option α} {a b}, f a = some b → z.bind f = some b → z = some a := by
    intro z a b hb hz
    obtain ⟨a', rfl, ha'⟩ := Option.bind_eq_some_iff.mp hz
    rw [hinj a a' b hb ha']
  constructor
  · intro h a b hb
    constructor
    · rintro rfl
      exact hback hb (h.symm.trans hb)
    · rintro rfl
      exact hback hb (h.trans hb)
  · intro h
    refine Option.ext fun b => ?_
    rw [Option.bind_eq_some_iff, Option.bind_eq_some_iff]
    constructor
    · rintro ⟨a, hx, hb⟩
      exact ⟨a, (h a b hb).mp hx, hb⟩
    · rintro ⟨a, hy, hb⟩
      exact ⟨a, (h a b hb).mpr hy, hb⟩

end Options

/-! ### The types -/

section ContentSized

variable {inType : TdhInType} (hc : inType.isContentSized = true)

include hc

theorem isPointer_of_isContentSized : inType.isPointer = false :=
  TdhInType.LeadingSized.isPointer (Or.inl hc)

theorem fixedSize_of_isContentSized : inType.fixedSize = none := by
  cases inType <;> first | rfl | contradiction

theorem schemaLengthBytes_of_isContentSized (t : Target) (n : ℕ) :
    inType.schemaLengthBytes t n = some n := by
  cases inType <;> first | rfl | contradiction

theorem lengthUnit_of_isContentSized : inType.lengthUnit = 1 := by
  cases inType <;> first | rfl | contradiction

/-- TDH is not asked for the size of such a value. -/
theorem sizeFromContent_ne_tdh (t : Target) (outType : TdhOutType) (remaining : List UInt8) :
    sizeFromContent t inType outType remaining ≠ .ok .tdh := by
  intro h
  cases inType with
  | inTypeManifestCountedString | inTypeCountedString | inTypeManifestCountedAnsiString
  | inTypeCountedAnsiString | inTypeManifestCountedBinary | inTypeReversedCountedString
  | inTypeReversedCountedAnsiString | inTypeHexDump =>
    simp only [sizeFromContent] at h
    split at h
    · cases h
    · obtain ⟨size, -, hsize⟩ := bind_eq_ok_iff.mp h
      cases hsize
  | inTypeSid | inTypeWbemSid =>
    simp only [sizeFromContent] at h
    split at h
    · contradiction
    · obtain ⟨rids, -, hrids⟩ := bind_eq_ok_iff.mp h
      obtain ⟨size, -, hsize⟩ := bind_eq_ok_iff.mp hrids
      cases hsize
  | inTypeNonNullTerminatedString | inTypeNonNullTerminatedAnsiString => cases h
  | _ => contradiction

end ContentSized

/-- The size of a value, as the build computes it. -/
theorem sizeFromContent_eq {t : Target} {inType : TdhInType} {outType : TdhOutType}
    {remaining : List UInt8} {n : ℕ} (hrem : remaining.length ≤ t.usizeMax)
    (h : exactContentSize inType outType remaining = some n) :
    sizeFromContent t inType outType remaining =
      if t.usizeMax < n ∧ t.overflowChecks = true then .error .overflow
      else .ok (.size (n % (t.usizeMax + 1))) := by
  by_cases hn : n ≤ t.usizeMax
  · rw [if_neg (fun hover => Nat.not_lt.mpr hn hover.1), Nat.mod_eq_of_lt (Nat.lt_succ_of_le hn)]
    exact sizeFromContent_of_exact h hn
  · -- no size but that of a hexdump leaves the word
    have hhex : inType = .inTypeHexDump := by
      by_contra hne
      exact hn (exactContentSize_le hrem (fun count heq => absurd heq hne) h)
    subst hhex
    obtain ⟨count, hcount, rfl⟩ := Option.map_eq_some_iff.mp h
    simp only [sizeFromContent, hcount, Target.add, if_neg hn]
    by_cases hchecks : t.overflowChecks = true
    · rw [if_pos hchecks, if_pos ⟨Nat.not_le.mp hn, hchecks⟩, bind_error]
    · rw [if_neg hchecks, if_neg (fun hover => hchecks hover.2), bind_ok]

/-! ### Values and arrays of the event -/

/-- How many bytes a step of the walk takes for the property, of those at its offset. -/
def Parser.bytesLocated (P : Parser) (property : Property) (remaining : List UInt8)
    (s : ParserState) : Option ℕ :=
  match (P.findPropertySize property remaining s).1 with
  | .ok n => if n ≤ remaining.length then some n else none
  | .error _ => none

/-- The bytes of an element of a content-sized type, if the schema declares any. -/
def declaredLength (t : Target) (parsed : List PropertySlice) : PropertyLength → Option ℕ
  | .length l => if l = 0 then none else some l.toNat
  | .index i => indexValue t parsed i

/-- The bytes of `n` elements, if the schema declares any, or what TDH answers. -/
def declaredTotal (t : Target) (parsed : List PropertySlice)
    (answer : Except TdhNativeError UInt32) (length : PropertyLength) (n : ℕ) : Option ℕ :=
  ((declaredLength t parsed length).bind (t.checkedMul · n)).or (answer.toOption.map UInt32.toNat)

theorem elemSize_of_isContentSized {inType : TdhInType} (hc : inType.isContentSized = true)
    (t : Target) (pointerSize : ℕ) (length : PropertyLength) (parsed : List PropertySlice) :
    elemSize t pointerSize inType length parsed = .ok (declaredLength t parsed length) := by
  unfold elemSize
  rw [isPointer_of_isContentSized hc, if_neg Bool.false_ne_true]
  cases length with
  | length l =>
    simp only [declaredLength, fixedSize_of_isContentSized hc,
      TdhInType.literalSchemaLengthBytes_eq, lengthUnit_of_isContentSized hc, Nat.one_mul, bind_ok]
    split <;> rfl
  | index i =>
    have hbytes : inType.schemaLengthBytes t = some := by
      funext n
      exact schemaLengthBytes_of_isContentSized hc t n
    simp only [declaredLength, fixedSize_of_isContentSized hc, hbytes, Option.bind_fun_some,
      Option.none_or]

/-- **The declared length of a value is ignored.** -/
theorem findPropertySize_value_of_isContentSized (P : Parser) {inType : TdhInType}
    (hc : inType.isContentSized = true) (name : String) (outType : TdhOutType)
    (l₁ l₂ : PropertyLength) (remaining : List UInt8) (s : ParserState) :
    P.findPropertySize ⟨name, .value inType outType l₁⟩ remaining s =
      P.findPropertySize ⟨name, .value inType outType l₂⟩ remaining s := by
  have hvalue : ∀ length, findPropertySize P.target P.record.pointerSize
      ⟨name, .value inType outType length⟩ s.cache.slices remaining =
        sizeFromContent P.target inType outType remaining := by
    intro length
    simp only [findPropertySize, valueSize, isPointer_of_isContentSized hc, hc]
    cases length <;> simp
  rw [Parser.findPropertySize, Parser.findPropertySize, hvalue, hvalue]
  cases h : sizeFromContent P.target inType outType remaining with
  | error p => rfl
  | ok sizing =>
    cases sizing with
    | size n => rfl
    | error e => rfl
    | tdh => exact absurd h (sizeFromContent_ne_tdh hc P.target outType remaining)

/-- What a step of the walk takes for an array. -/
theorem bytesLocated_array (P : Parser) {inType : TdhInType} (hc : inType.isContentSized = true)
    (name : String) (outType : TdhOutType) (length : PropertyLength) (count : PropertyCount)
    (remaining : List UInt8) (s : ParserState) {answer : Except TdhNativeError UInt32}
    (hanswer : P.tdh s.tdhCalls ⟨name, .array inType outType length count⟩ = answer) :
    P.bytesLocated ⟨name, .array inType outType length count⟩ remaining s =
      (match elementCount P.target count s.cache.slices with
        | none => answer.toOption.map UInt32.toNat
        | some n =>
          if n = 0 then some 0 else declaredTotal P.target s.cache.slices answer length n).bind
        fun n => if n ≤ remaining.length then some n else none := by
  have hanswered : ∀ {r : Outcome ParserError ℕ × ParserState},
      r = P.tdhPropertySize ⟨name, .array inType outType length count⟩ s →
      (match r.1 with
        | .ok n => if n ≤ remaining.length then some n else none
        | .error _ => none) =
      (answer.toOption.map UInt32.toNat).bind
        fun n => if n ≤ remaining.length then some n else none := by
    rintro _ rfl
    rw [Parser.tdhPropertySize, hanswer]
    cases answer <;> rfl
  simp only [Parser.bytesLocated, Parser.findPropertySize, findPropertySize, arraySize,
    elemSize_of_isContentSized hc, bind_ok]
  cases elementCount P.target count s.cache.slices with
  | none => exact hanswered rfl
  | some n =>
    dsimp only
    rw [declaredTotal]
    cases hmul : (declaredLength P.target s.cache.slices length).bind (P.target.checkedMul · n) with
    | some size =>
      by_cases hn : n = 0
      · obtain ⟨l, -, hl⟩ := Option.bind_eq_some_iff.mp hmul
        obtain ⟨rfl, -⟩ := Target.checkedMul_eq_some_iff.mp hl
        subst hn
        rfl
      · simp only [if_neg hn]
        rfl
    | none =>
      by_cases hn : n = 0
      · simp only [if_pos hn]
        rfl
      · simp only [if_neg hn]
        exact hanswered rfl

/-- Two arrays that differ in the declared length are located with the same bytes if, for a count
that is not zero, the declared totals are the same, or leave the bytes. -/
theorem bytesLocated_array_eq_iff (P : Parser) (s : ParserState) {inType : TdhInType}
    (hc : inType.isContentSized = true) (name : String) (outType : TdhOutType)
    (l₁ l₂ : PropertyLength) (count : PropertyCount) (remaining : List UInt8)
    {answer : Except TdhNativeError UInt32}
    (h₁ : P.tdh s.tdhCalls ⟨name, .array inType outType l₁ count⟩ = answer)
    (h₂ : P.tdh s.tdhCalls ⟨name, .array inType outType l₂ count⟩ = answer) :
    P.bytesLocated ⟨name, .array inType outType l₁ count⟩ remaining s =
        P.bytesLocated ⟨name, .array inType outType l₂ count⟩ remaining s ↔
      ∀ n, elementCount P.target count s.cache.slices = some n → n ≠ 0 → ∀ size ≤ remaining.length,
        (declaredTotal P.target s.cache.slices answer l₁ n = some size ↔
          declaredTotal P.target s.cache.slices answer l₂ n = some size) := by
  rw [bytesLocated_array P hc name outType l₁ count remaining s h₁,
    bytesLocated_array P hc name outType l₂ count remaining s h₂]
  have hroom : ∀ {n b : ℕ}, (if n ≤ remaining.length then some n else none) = some b ↔
      n ≤ remaining.length ∧ n = b := by
    intro n b
    constructor
    · intro h
      split at h
      · exact ⟨‹_›, Option.some.inj h⟩
      · contradiction
    · rintro ⟨h, rfl⟩
      exact if_pos h
  have hinj : ∀ n n' b : ℕ, (if n ≤ remaining.length then some n else none) = some b →
      (if n' ≤ remaining.length then some n' else none) = some b → n = n' :=
    fun n n' b h h' => (hroom.mp h).2.trans (hroom.mp h').2.symm
  rw [bind_eq_bind_iff hinj]
  simp only [hroom]
  cases elementCount P.target count s.cache.slices with
  | none => simp
  | some n =>
    by_cases hn : n = 0
    · simp [hn]
    · simp [hn]

/-! ### Structure members -/

/-- The value is there, as the build sizes it: a size that is no `usize` unwinds or wraps. -/
def LeadsWith (t : Target) (inType : TdhInType) (outType : TdhOutType) (bytes : List UInt8) :
    Prop :=
  ∃ size, exactContentSize inType outType bytes = some size ∧
    (t.usizeMax < size ∧ t.overflowChecks = true ∨ size % (t.usizeMax + 1) ≤ bytes.length)

/-- The bytes of all elements, if the schema declares both numbers itself. -/
def literalTotal : PropertyLength → PropertyCount → Option ℕ
  | .length l, .count c => if l = 0 then none else some (l.toNat * c.toNat)
  | _, _ => none

section Members

variable {t : Target} {pointerSize : ℕ} {inType : TdhInType} {outType : TdhOutType}
  {bytes : Slice} {offset : ℕ}

theorem exactValueSize_of_isContentSized (hc : inType.isContentSized = true)
    (length : PropertyLength) : exactValueSize pointerSize inType length = none := by
  unfold exactValueSize
  rw [isPointer_of_isContentSized hc, if_neg Bool.false_ne_true]
  cases length with
  | length l => simp [hc, fixedSize_of_isContentSized hc]
  | index i => rfl

/-- A member with a declared length is given up. -/
theorem memberBuffer_of_declared (hc : inType.isContentSized = true) (name : String)
    {length : PropertyLength} (hlength : length ≠ .length 0) :
    memberBuffer t pointerSize ⟨name, .value inType outType length⟩ bytes offset = .ok none := by
  refine memberBuffer_of_memberSize_none ?_
  rw [memberSize, Property.fixedSize, valueFixedSize_eq, exactValueSize_of_isContentSized hc,
    bind_ok]
  cases bytes.getFrom offset with
  | none => rfl
  | some remaining =>
    cases length with
    | length l => exact if_neg (fun hl => hlength (by rw [hl]))
    | index i => rfl

/-- A sized member is cut out where there is room for it. -/
theorem memberBuffer_eq {member : Property} {size : Option ℕ} (hlen : bytes.len ≤ t.usizeMax)
    (hsize : memberSize t pointerSize member bytes offset = .ok size) :
    memberBuffer t pointerSize member bytes offset =
      .ok (size.bind fun n => (bytes.getRange offset (offset + n)).map (·, offset + n)) := by
  rw [memberBuffer, hsize, bind_ok]
  cases size with
  | none => rfl
  | some n =>
    simp only [Slice.getFrom_bind_getTo, Option.bind_some]
    cases hrange : bytes.getRange offset (offset + n) with
    | none => rfl
    | some buffer =>
      have hle := (Slice.getRange_eq_some_iff.mp hrange).1.2
      simp only [Target.add_of_le (le_trans hle hlen), bind_ok, Option.map_some]

/-- One without is sized by its content. -/
theorem memberSize_of_undeclared (hc : inType.isContentSized = true) (name : String) (t : Target)
    (pointerSize : ℕ) (outType : TdhOutType) (bytes : Slice) (offset : ℕ) :
    memberSize t pointerSize ⟨name, .value inType outType (.length 0)⟩ bytes offset =
      match bytes.getFrom offset with
      | none => .ok none
      | some remaining => (sizeFromContent t inType outType remaining.bytes).map Sizing.size? := by
  cases hfrom : bytes.getFrom offset with
  | none =>
    rw [memberSize, Property.fixedSize, valueFixedSize_eq, exactValueSize_of_isContentSized hc,
      bind_ok]
    simp only [hfrom]
  | some remaining =>
    rw [memberSize_of_exactValueSize_none (exactValueSize_of_isContentSized hc _) hfrom]
    rcases variableValueSize_eq t inType outType remaining.bytes with ⟨hnot, -⟩ | ⟨-, heq⟩
    · exact absurd (Or.inl hc) hnot
    · exact heq

/-- It is given up when its value is not there. -/
theorem memberBuffer_eq_none_iff (hc : inType.isContentSized = true) (name : String)
    (hlen : bytes.len ≤ t.usizeMax) :
    memberBuffer t pointerSize ⟨name, .value inType outType (.length 0)⟩ bytes offset = .ok none ↔
      ¬ ∃ remaining, bytes.getFrom offset = some remaining ∧
        LeadsWith t inType outType remaining.bytes := by
  have hsize := memberSize_of_undeclared hc name t pointerSize outType bytes offset
  cases hfrom : bytes.getFrom offset with
  | none =>
    rw [hfrom] at hsize
    exact iff_of_true (memberBuffer_of_memberSize_none hsize) (by simp)
  | some remaining =>
    simp only [hfrom] at hsize
    have hrem : remaining.bytes.length = bytes.len - offset := Slice.len_of_getFrom hfrom
    have hoffset : offset ≤ bytes.len := (Slice.getFrom_eq_some_iff.mp hfrom).1
    simp only [Option.some.injEq, exists_eq_left', LeadsWith]
    cases hexact : exactContentSize inType outType remaining.bytes with
    | none =>
      obtain ⟨r, hr, hno⟩ := sizeFromContent_of_exact_none (t := t) hexact
      have hnone : r.size? = none := by
        cases r with
        | size n => exact absurd rfl (hno n)
        | error e => rfl
        | tdh => rfl
      rw [hr, Except.map, hnone] at hsize
      exact iff_of_true (memberBuffer_of_memberSize_none hsize) (by simp)
    | some n =>
      simp only [Option.some.injEq, exists_eq_left']
      rw [sizeFromContent_eq (by omega) hexact] at hsize
      by_cases hover : t.usizeMax < n ∧ t.overflowChecks = true
      · rw [if_pos hover] at hsize
        rw [memberBuffer, hsize]
        exact iff_of_false (by simp [Except.map]) (fun h => h (Or.inl hover))
      · rw [if_neg hover] at hsize
        rw [memberBuffer_eq hlen hsize, or_iff_right hover, Nat.not_le]
        simp only [Sizing.size?, Option.bind_some, Except.ok.injEq, Option.map_eq_none_iff,
          Slice.getRange]
        split
        · rename_i hroom
          exact iff_of_false (by simp) (by omega)
        · rename_i hroom
          exact iff_of_true rfl (by omega)

/-- Two 16-bit numbers multiply to a 32-bit number. -/
theorem toNat_mul_toNat_le (a b : UInt16) : a.toNat * b.toNat ≤ 4294967295 := by
  have ha : a.toNat ≤ 65535 := Nat.le_of_lt_succ a.toNat_lt
  have hb : b.toNat ≤ 65535 := Nat.le_of_lt_succ b.toNat_lt
  exact le_trans (Nat.mul_le_mul ha hb) (by decide)

/-- A member that is an array is as long as the schema declares. -/
theorem memberSize_array_of_isContentSized (hc : inType.isContentSized = true) (name : String)
    (length : PropertyLength) (count : PropertyCount) :
    memberSize t pointerSize ⟨name, .array inType outType length count⟩ bytes offset =
      .ok (literalTotal length count) := by
  have hexact : boundedProduct t.usizeBits (exactElemSize pointerSize inType length) count =
      literalTotal length count := by
    unfold boundedProduct exactElemSize
    rw [isPointer_of_isContentSized hc, if_neg Bool.false_ne_true]
    match length, count with
    | .length l, .count c =>
      by_cases hl : l = 0
      · subst hl
        simp [exactProduct, literalTotal, fixedSize_of_isContentSized hc]
      · have hpos : 0 < l := UInt16.pos_iff_ne_zero.mpr hl
        simp only [exactProduct, literalTotal, if_pos hpos, if_neg hl,
          lengthUnit_of_isContentSized hc, Nat.one_mul, Option.map_some]
        exact Option.filter_eq_some_iff.mpr
          ⟨rfl, decide_eq_true (le_trans (toNat_mul_toNat_le l c) (Target.maxOf_ge _))⟩
    | .length l, .index i => simp [exactProduct, literalTotal]
    | .index i, .count c => simp [exactProduct, literalTotal]
    | .index i, .index j => simp [exactProduct, literalTotal]
  rw [memberSize, Property.fixedSize, arrayFixedSize_eq, bind_ok, hexact]
  cases literalTotal length count with
  | some size => rfl
  | none =>
    cases bytes.getFrom offset with
    | none => rfl
    | some remaining => rfl

/-- Two members that differ in the declared length have the same bytes if both are given up, or
neither is, or the value is not there. -/
theorem memberBuffer_value_eq_iff (hc : inType.isContentSized = true) (name : String)
    (l₁ l₂ : PropertyLength) (hlen : bytes.len ≤ t.usizeMax) :
    memberBuffer t pointerSize ⟨name, .value inType outType l₁⟩ bytes offset =
        memberBuffer t pointerSize ⟨name, .value inType outType l₂⟩ bytes offset ↔
      ((l₁ = .length 0 ↔ l₂ = .length 0) ∨ ¬ ∃ rest, bytes.getFrom offset = some rest ∧
        LeadsWith t inType outType rest.bytes) := by
  by_cases hz₁ : l₁ = .length 0
  · by_cases hz₂ : l₂ = .length 0
    · rw [hz₁, hz₂]
      exact iff_of_true rfl (Or.inl Iff.rfl)
    · rw [memberBuffer_of_declared hc name hz₂, hz₁, memberBuffer_eq_none_iff hc name hlen]
      exact (or_iff_right (fun h => hz₂ (h.mp rfl))).symm
  · by_cases hz₂ : l₂ = .length 0
    · rw [memberBuffer_of_declared hc name hz₁, hz₂, eq_comm,
        memberBuffer_eq_none_iff hc name hlen]
      exact (or_iff_right (fun h => hz₁ (h.mpr rfl))).symm
    · rw [memberBuffer_of_declared hc name hz₁, memberBuffer_of_declared hc name hz₂]
      exact iff_of_true rfl (Or.inl (iff_of_false hz₁ hz₂))

/-- Two that are arrays have the same bytes if the declared totals are the same, or leave the
bytes. -/
theorem memberBuffer_array_eq_iff (hc : inType.isContentSized = true) (name : String)
    (l₁ l₂ : PropertyLength) (count : PropertyCount) (hlen : bytes.len ≤ t.usizeMax) :
    memberBuffer t pointerSize ⟨name, .array inType outType l₁ count⟩ bytes offset =
        memberBuffer t pointerSize ⟨name, .array inType outType l₂ count⟩ bytes offset ↔
      ∀ size, offset + size ≤ bytes.len →
        (literalTotal l₁ count = some size ↔ literalTotal l₂ count = some size) := by
  rw [memberBuffer_eq hlen (memberSize_array_of_isContentSized hc name l₁ count),
    memberBuffer_eq hlen (memberSize_array_of_isContentSized hc name l₂ count), Except.ok.injEq]
  have hinj : ∀ n n' (b : Slice × ℕ),
      (bytes.getRange offset (offset + n)).map (·, offset + n) = some b →
      (bytes.getRange offset (offset + n')).map (·, offset + n') = some b → n = n' := by
    intro n n' b h h'
    obtain ⟨_, -, rfl⟩ := Option.map_eq_some_iff.mp h
    obtain ⟨_, -, heq⟩ := Option.map_eq_some_iff.mp h'
    exact Nat.add_left_cancel (Prod.mk.inj heq).2.symm
  rw [bind_eq_bind_iff hinj]
  constructor
  · intro h size hroom
    exact h size _ (by rw [Slice.getRange, if_pos ⟨Nat.le_add_right _ _, hroom⟩, Option.map_some])
  · intro h size b hb
    obtain ⟨_, hrange, -⟩ := Option.map_eq_some_iff.mp hb
    exact h size (Slice.getRange_eq_some_iff.mp hrange).1.2

end Members

/-! ### The rule -/

/-- **When the declared length of a content-sized type does not matter**, in each position. As a
value of the event it never does. An array takes the declared number of bytes for each element,
unless it is empty or its count is not resolved. A member is given up when it has a declared length,
and so is one whose value is not there; a member that is an array takes the declared number of
bytes. -/
theorem content_sized_length_iff (P : Parser) (s : ParserState) (name : String)
    (inType : TdhInType) (hc : inType.isContentSized = true) (outType : TdhOutType)
    (l₁ l₂ : PropertyLength) (count : PropertyCount) (remaining : List UInt8) (bytes : Slice)
    (offset : ℕ) (hlen : bytes.len ≤ P.target.isizeMax) (answer : Except TdhNativeError UInt32)
    (h₁ : P.tdh s.tdhCalls ⟨name, .array inType outType l₁ count⟩ = answer)
    (h₂ : P.tdh s.tdhCalls ⟨name, .array inType outType l₂ count⟩ = answer) :
    (P.bytesLocated ⟨name, .value inType outType l₁⟩ remaining s =
      P.bytesLocated ⟨name, .value inType outType l₂⟩ remaining s) ∧
    (P.bytesLocated ⟨name, .array inType outType l₁ count⟩ remaining s =
        P.bytesLocated ⟨name, .array inType outType l₂ count⟩ remaining s ↔
      ∀ n, elementCount P.target count s.cache.slices = some n → n ≠ 0 → ∀ size ≤ remaining.length,
        (declaredTotal P.target s.cache.slices answer l₁ n = some size ↔
          declaredTotal P.target s.cache.slices answer l₂ n = some size)) ∧
    (memberBuffer P.target P.record.pointerSize ⟨name, .value inType outType l₁⟩ bytes offset =
        memberBuffer P.target P.record.pointerSize ⟨name, .value inType outType l₂⟩ bytes offset ↔
      ((l₁ = .length 0 ↔ l₂ = .length 0) ∨ ¬ ∃ rest, bytes.getFrom offset = some rest ∧
        LeadsWith P.target inType outType rest.bytes)) ∧
    (memberBuffer P.target P.record.pointerSize ⟨name, .array inType outType l₁ count⟩ bytes
          offset =
        memberBuffer P.target P.record.pointerSize ⟨name, .array inType outType l₂ count⟩ bytes
          offset ↔
      ∀ size, offset + size ≤ bytes.len →
        (literalTotal l₁ count = some size ↔ literalTotal l₂ count = some size)) := by
  have hmax : bytes.len ≤ P.target.usizeMax := le_trans hlen P.target.isizeMax_le
  refine ⟨?_, ?_, ?_, ?_⟩
  · rw [Parser.bytesLocated, Parser.bytesLocated,
      findPropertySize_value_of_isContentSized P hc name outType l₁ l₂]
  · exact bytesLocated_array_eq_iff P s hc name outType l₁ l₂ count remaining h₁ h₂
  · exact memberBuffer_value_eq_iff hc name l₁ l₂ hmax
  · exact memberBuffer_array_eq_iff hc name l₁ l₂ count hmax

/-- Counted strings with a length of 3, as a number and by reference. -/
theorem content_sized_length_iff_counted :
    let P : Parser := ⟨⟨.b64, true⟩, [], ⟨0, 0, [], by decide, []⟩, fun _ _ => .ok 5⟩
    let three : PropertySlice := ⟨⟨"Len", .value .inTypeUInt8 .outTypeNull (.length 0)⟩, ⟨0, [3]⟩⟩
    let s : ParserState := ⟨⟨[three], 0, 1, some 0⟩, []⟩
    let bytes : Slice := ⟨0, [3, 0, 72, 101, 121]⟩
    let value (l : PropertyLength) : Property :=
      ⟨"Text", .value .inTypeCountedAnsiString .outTypeNull l⟩
    let array (l : PropertyLength) : Property :=
      ⟨"Text", .array .inTypeCountedAnsiString .outTypeNull l (.count 2)⟩
    P.bytesLocated (value (.length 3)) bytes.bytes s =
      P.bytesLocated (value (.index 0)) bytes.bytes s ∧
    P.bytesLocated (array (.length 3)) bytes.bytes s =
      P.bytesLocated (array (.index 0)) bytes.bytes s ∧
    memberBuffer P.target P.record.pointerSize (value (.length 3)) bytes 0 =
      memberBuffer P.target P.record.pointerSize (value (.index 0)) bytes 0 ∧
    memberBuffer P.target P.record.pointerSize (array (.length 3)) bytes 0 =
      memberBuffer P.target P.record.pointerSize (array (.index 0)) bytes 0 := by
  intro P three s bytes value array
  obtain ⟨hvalue, harray, hmember, hmembers⟩ := content_sized_length_iff P s "Text"
    .inTypeCountedAnsiString rfl .outTypeNull (.length 3) (.index 0) (.count 2) bytes.bytes bytes 0
    (by decide) (.ok 5) rfl rfl
  refine ⟨hvalue, harray.mpr ?_, hmember.mpr (Or.inl (iff_of_false nofun nofun)),
    hmembers.mpr ?_⟩
  · rintro n ⟨⟩ - size -
    rfl
  · intro size hroom
    -- six bytes are declared, and five are there
    refine iff_of_false ?_ nofun
    rintro ⟨⟩
    exact absurd hroom (by decide)

/-- The length of an array of counted strings is not ignored, and a counted string with a length is
no member. -/
theorem declared_length_honored :
    let P : Parser := ⟨⟨.b64, true⟩, [], ⟨0, 0, [], by decide, []⟩, fun _ _ => .ok 8⟩
    let s : ParserState := ⟨⟨[], 0, 0, some 0⟩, []⟩
    let bytes : Slice := ⟨0, [2, 0, 72, 105, 2, 0, 72, 105]⟩
    let value (l : PropertyLength) : Property :=
      ⟨"Text", .value .inTypeCountedAnsiString .outTypeNull l⟩
    let array (l : PropertyLength) : Property :=
      ⟨"Text", .array .inTypeCountedAnsiString .outTypeNull l (.count 2)⟩
    (P.bytesLocated (array (.length 0)) bytes.bytes s = some 8 ∧
      P.bytesLocated (array (.length 2)) bytes.bytes s = some 4) ∧
    memberBuffer P.target 8 (value (.length 0)) bytes 0 = .ok (some (⟨0, [2, 0, 72, 105]⟩, 4)) ∧
      memberBuffer P.target 8 (value (.length 4)) bytes 0 = .ok none ∧
      memberBuffer P.target 8 (value (.index 0)) bytes 0 = .ok none := by
  exact ⟨⟨rfl, rfl⟩, rfl, rfl, rfl⟩

end Ferrisetw2
