import Ferrisetw2.Parser.Size

/-!
# Exact sizes

The size a property has in unbounded arithmetic, and when `find_property_size` computes it. Every
product of the function is checked and every prefix it adds is small, so two things are left that
can leave the machine word: a sum of member sizes, and the four bytes in front of a hexdump.

## Main definitions

* `exactSize` — the size of a property, in unbounded arithmetic
* `HexFits` — the hexdump prefix and its count together are a `usize`

## Main results

* `findPropertySize_exact` — where the sums and the prefix fit, a size returned is the exact one
* `findPropertySize_eq_overflow_of_not_sumsFit`, `findPropertySize_eq_overflow_of_not_hexFits` —
  where they do not, a build with overflow checks unwinds
-/

namespace Ferrisetw2

open Rust

/-! ### Sizes in unbounded arithmetic -/

/-- The number an index refers to, of whatever magnitude. -/
def exactIndexValue (parsed : List PropertySlice) (index : UInt16) : Option ℕ :=
  (parsed[index.toNat]?).bind fun s =>
    if s.buffer.len ∈ [1, 2, 4, 8] then some (leValue s.buffer.bytes) else none

/-- The element count of an array. -/
def exactCount (parsed : List PropertySlice) : PropertyCount → Option ℕ
  | .count c => some c.toNat
  | .index i => exactIndexValue parsed i

/-- The size of an array element. -/
def exactElem (pointerSize : ℕ) (inType : TdhInType) (length : PropertyLength)
    (parsed : List PropertySlice) : Option ℕ :=
  if inType.isPointer then some pointerSize
  else match length with
    | .length l => if l = 0 then inType.fixedSize else some (inType.lengthUnit * l.toNat)
    | .index i => inType.fixedSize.or ((exactIndexValue parsed i).map (inType.lengthUnit * ·))

/-- The size of a property, in unbounded arithmetic. -/
def exactSize (pointerSize : ℕ) (property : Property) (parsed : List PropertySlice)
    (remaining : List UInt8) : Option ℕ :=
  match property.info with
  | .value inType outType length =>
    if inType.isPointer then some pointerSize
    else if inType.isContentSized then exactContentSize inType outType remaining
    else match length with
      | .length l =>
        if 0 < l then some (inType.lengthUnit * l.toNat)
        else exactContentSize inType outType remaining
      | .index i => inType.fixedSize.or ((exactIndexValue parsed i).map (inType.lengthUnit * ·))
  | .array inType _ length count =>
    (exactCount parsed count).bind fun n =>
      if n = 0 then some 0 else (exactElem pointerSize inType length parsed).map (· * n)
  | .struct members => exactSum pointerSize members
  | .structArray members count =>
    (exactCount parsed count).bind fun n => (exactSum pointerSize members).map (· * n)
  | .unsupported (.length l) => if 0 < l then some l.toNat else none
  | .unsupported (.index i) => exactIndexValue parsed i

/-- The bytes of a hexdump, with the four bytes of its count, are a `usize`. -/
def HexFits (b : UsizeBits) (property : Property) (remaining : List UInt8) : Prop :=
  ∀ outType length count, property.info = .value .inTypeHexDump outType length →
    take? 4 remaining = some count → 4 + leValue count ≤ Target.maxOf b

/-- A size, when one is returned, is the exact one and is a `usize`. -/
def Sizing.Exact (t : Target) (exact : Option ℕ) (r : Sizing) : Prop :=
  ∀ n, r = .size n → exact = some n ∧ n ≤ t.usizeMax

/-- Leaving the size to TDH returns no size. -/
theorem Sizing.exact_tdh {t : Target} {exact : Option ℕ} : Sizing.tdh.Exact t exact := by
  simp [Sizing.Exact]

theorem Sizing.exact_size {t : Target} {exact : Option ℕ} {n : ℕ} (h : exact = some n)
    (hn : n ≤ t.usizeMax) : (Sizing.size n).Exact t exact := by
  simpa [Sizing.Exact] using ⟨h, hn⟩

/-! ### Numbers by reference -/

theorem exactIndexValue_of_indexValue {t : Target} {parsed : List PropertySlice} {i : UInt16}
    {n : ℕ} (h : indexValue t parsed i = some n) :
    exactIndexValue parsed i = some n ∧ n ≤ t.usizeMax := by
  obtain ⟨s, hs, hvalue⟩ := Option.bind_eq_some_iff.mp h
  obtain ⟨rfl, hn⟩ := indexValueFromBytes_eq_some hvalue
  refine ⟨?_, hn⟩
  have hwidth : s.buffer.len ∈ [1, 2, 4, 8] := by
    unfold indexValueFromBytes at hvalue
    split at hvalue <;> simp_all [Slice.len]
  rw [exactIndexValue, hs, Option.bind_some, if_pos hwidth]

theorem exactCount_of_elementCount {t : Target} {parsed : List PropertySlice}
    {count : PropertyCount} {n : ℕ} (h : elementCount t count parsed = some n) :
    exactCount parsed count = some n := by
  cases count with
  | count c => exact h
  | index i => exact (exactIndexValue_of_indexValue h).1

/-- A length by reference that converts to bytes is the exact one. -/
theorem exactLength_of_indexValue {t : Target} {inType : TdhInType} {parsed : List PropertySlice}
    {i : UInt16} {m : ℕ}
    (h : (indexValue t parsed i).bind (inType.schemaLengthBytes t) = some m) :
    (exactIndexValue parsed i).map (inType.lengthUnit * ·) = some m ∧ m ≤ t.usizeMax := by
  obtain ⟨n, hn, hm⟩ := Option.bind_eq_some_iff.mp h
  obtain ⟨hexact, hle⟩ := exactIndexValue_of_indexValue hn
  obtain ⟨rfl, hm'⟩ := TdhInType.schemaLengthBytes_eq_some hle hm
  exact ⟨by rw [hexact]; rfl, hm'⟩

/-! ### Values -/

/-- The content arms, where the hexdump prefix fits. -/
theorem sizeFromContent_exact {t : Target} {inType : TdhInType} (outType : TdhOutType)
    {remaining : List UInt8} (hrem : remaining.length ≤ t.usizeMax)
    (hhex : ∀ count, inType = .inTypeHexDump → take? 4 remaining = some count →
      4 + leValue count ≤ t.usizeMax) :
    ∃ r, sizeFromContent t inType outType remaining = .ok r ∧
      r.Exact t (exactContentSize inType outType remaining) := by
  cases hexact : exactContentSize inType outType remaining with
  | none =>
    obtain ⟨r, hr, hno⟩ := sizeFromContent_of_exact_none (t := t) hexact
    exact ⟨r, hr, fun n h => absurd h (hno n)⟩
  | some n =>
    have hn := exactContentSize_le hrem hhex hexact
    exact ⟨_, sizeFromContent_of_exact hexact hn, Sizing.exact_size rfl hn⟩

theorem valueSize_exact {t : Target} {pointerSize : ℕ} (hp : pointerSize ≤ t.usizeMax)
    (name : String) {inType : TdhInType} {outType : TdhOutType} {length : PropertyLength}
    {parsed : List PropertySlice} {remaining : List UInt8}
    (hrem : remaining.length ≤ t.usizeMax)
    (hhex : ∀ count, inType = .inTypeHexDump → take? 4 remaining = some count →
      4 + leValue count ≤ t.usizeMax) :
    ∃ r, valueSize t pointerSize inType outType length parsed remaining = .ok r ∧
      r.Exact t (exactSize pointerSize ⟨name, .value inType outType length⟩ parsed remaining) := by
  obtain ⟨content, hcontent, hexact⟩ := sizeFromContent_exact outType hrem hhex
  simp only [valueSize, exactSize]
  by_cases hptr : inType.isPointer = true
  · simp only [hptr, if_true]
    exact ⟨_, rfl, Sizing.exact_size rfl hp⟩
  · simp only [hptr, Bool.false_eq_true, if_false]
    by_cases hc : inType.isContentSized = true
    · cases length <;> simp only [hc, Bool.true_eq_false, and_false, if_false, if_true] <;>
        exact ⟨content, hcontent, hexact⟩
    · simp only [Bool.not_eq_true] at hc
      cases length with
      | length l =>
        by_cases hl : 0 < l
        · simp only [hl, hc, and_self, if_true, TdhInType.literalSchemaLengthBytes_eq, bind_ok]
          exact ⟨_, rfl, Sizing.exact_size rfl (TdhInType.lengthUnit_mul_toNat_le t inType l)⟩
        · simp only [hl, hc, false_and, if_false]
          exact ⟨content, hcontent, hexact⟩
      | index i =>
        simp only [hc, if_true]
        cases hfixed : inType.fixedSize with
        | some size =>
          have := TdhInType.fixedSize_le hfixed
          have := t.usizeMax_ge
          exact ⟨_, rfl, Sizing.exact_size rfl (by omega)⟩
        | none =>
          simp only [Option.none_or]
          cases hlen : (indexValue t parsed i).bind (inType.schemaLengthBytes t) with
          | none => exact ⟨_, rfl, Sizing.exact_tdh⟩
          | some m =>
            obtain ⟨hexact, hle⟩ := exactLength_of_indexValue hlen
            exact ⟨_, rfl, Sizing.exact_size hexact hle⟩

/-! ### Arrays -/

theorem elemSize_exact (t : Target) (pointerSize : ℕ) (inType : TdhInType)
    (length : PropertyLength) (parsed : List PropertySlice) :
    ∃ size, elemSize t pointerSize inType length parsed = .ok size ∧
      ∀ n, size = some n → exactElem pointerSize inType length parsed = some n := by
  unfold elemSize exactElem
  by_cases hptr : inType.isPointer = true
  · simp only [hptr, if_true]
    exact ⟨_, rfl, fun n h => h⟩
  · simp only [hptr, Bool.false_eq_true, if_false]
    cases length with
    | length l =>
      by_cases hl : l = 0
      · simp only [hl, if_true]
        exact ⟨_, rfl, fun n h => h⟩
      · simp only [hl, if_false, TdhInType.literalSchemaLengthBytes_eq, bind_ok]
        exact ⟨_, rfl, fun n h => h⟩
    | index i =>
      refine ⟨_, rfl, fun n h => ?_⟩
      cases hfixed : inType.fixedSize with
      | some size =>
        rw [hfixed] at h
        exact h
      | none =>
        rw [hfixed, Option.none_or] at h
        simpa only [Option.none_or] using (exactLength_of_indexValue h).1

theorem arraySize_exact (t : Target) {pointerSize : ℕ} (name : String) (inType : TdhInType)
    (outType : TdhOutType) (length : PropertyLength) (count : PropertyCount)
    (parsed : List PropertySlice) (remaining : List UInt8) :
    ∃ r, arraySize t pointerSize inType length count parsed = .ok r ∧
      r.Exact t (exactSize pointerSize ⟨name, .array inType outType length count⟩ parsed
        remaining) := by
  obtain ⟨size, hsize, hexact⟩ := elemSize_exact t pointerSize inType length parsed
  simp only [arraySize, hsize, bind_ok, exactSize]
  cases hcount : elementCount t count parsed with
  | none => exact ⟨_, rfl, Sizing.exact_tdh⟩
  | some n =>
    simp only [exactCount_of_elementCount hcount, Option.bind_some]
    cases hmul : size.bind (t.checkedMul · n) with
    | none =>
      refine ⟨_, rfl, ?_⟩
      by_cases hn : n = 0
      · simp only [hn, if_true]
        exact Sizing.exact_size rfl (Nat.zero_le _)
      · simp only [hn, if_false]
        exact Sizing.exact_tdh
    | some total =>
      obtain ⟨elem, helem, htotal⟩ := Option.bind_eq_some_iff.mp hmul
      obtain ⟨rfl, hle⟩ := Target.checkedMul_eq_some_iff.mp htotal
      refine ⟨_, rfl, Sizing.exact_size ?_ hle⟩
      by_cases hn : n = 0
      · simp [hn]
      · simp only [hn, if_false, hexact elem helem, Option.map_some]

/-! ### Structures -/

theorem boundedSize_exact {t : Target} {pointerSize : ℕ} (hp : pointerSize ≤ t.usizeMax)
    {p : Property} (hfit : p.SumsFit t.usizeBits pointerSize) {n : ℕ}
    (h : p.fixedSize t pointerSize = .ok (some n)) :
    p.exactFixedSize pointerSize = some n ∧ n ≤ t.usizeMax := by
  rw [Property.fixedSize_of_sumsFit hfit] at h
  exact Property.boundedSize_eq_some hp hfit (Except.ok.inj h)

theorem structArrayByRefSize_exact {t : Target} {pointerSize : ℕ} (hp : pointerSize ≤ t.usizeMax)
    (name : String) {members : List Property}
    (hfit : MembersFit t.usizeBits pointerSize members 0) (i : UInt16)
    (parsed : List PropertySlice) (remaining : List UInt8) :
    ∃ r, structArrayByRefSize t pointerSize members i parsed = .ok r ∧
      r.Exact t (exactSize pointerSize ⟨name, .structArray members (.index i)⟩ parsed
        remaining) := by
  simp only [structArrayByRefSize, sumFixedSizes_of_membersFit hfit, bind_ok, exactSize, exactCount,
    Nat.zero_add, Option.map_id']
  cases hsum : boundedSum t.usizeBits pointerSize members with
  | none => exact ⟨_, rfl, Sizing.exact_tdh⟩
  | some elem =>
    cases hindex : indexValue t parsed i with
    | none => exact ⟨_, rfl, Sizing.exact_tdh⟩
    | some count =>
      dsimp only
      cases hmul : t.checkedMul elem count with
      | none => exact ⟨_, rfl, Sizing.exact_tdh⟩
      | some total =>
        obtain ⟨rfl, hle⟩ := Target.checkedMul_eq_some_iff.mp hmul
        refine ⟨_, rfl, Sizing.exact_size ?_ hle⟩
        rw [(exactIndexValue_of_indexValue hindex).1, Option.bind_some,
          (boundedSum_eq_some hp hfit hsum).1, Option.map_some]

/-! ### The function -/

/-- **Where the sums and the prefix fit, a size returned is the exact one**, and no build
unwinds. -/
theorem findPropertySize_exact {t : Target} {pointerSize : ℕ} (hp : pointerSize ≤ t.usizeMax)
    {p : Property} {parsed : List PropertySlice} {remaining : List UInt8}
    (hrem : remaining.length ≤ t.usizeMax) (hfit : p.SumsFit t.usizeBits pointerSize)
    (hhex : HexFits t.usizeBits p remaining) :
    ∃ r, findPropertySize t pointerSize p parsed remaining = .ok r ∧
      r.Exact t (exactSize pointerSize p parsed remaining) := by
  match p with
  | ⟨name, .value inType outType length⟩ =>
    exact valueSize_exact hp name hrem fun count hin hcount =>
      hhex outType length count (by rw [hin]) hcount
  | ⟨name, .array inType outType length count⟩ =>
    exact arraySize_exact t name inType outType length count parsed remaining
  | ⟨name, .struct members⟩ =>
    have hok := Property.fixedSize_of_sumsFit hfit
    simp only [findPropertySize, hok, bind_ok]
    cases hsize : Property.boundedSize t.usizeBits pointerSize ⟨name, .struct members⟩ with
    | none => exact ⟨_, rfl, Sizing.exact_tdh⟩
    | some size =>
      obtain ⟨hexact, hle⟩ := boundedSize_exact hp hfit (by rw [hok, hsize])
      exact ⟨_, rfl, Sizing.exact_size hexact hle⟩
  | ⟨name, .structArray members count⟩ =>
    have hok := Property.fixedSize_of_sumsFit hfit
    simp only [findPropertySize, hok, bind_ok]
    cases hsize : Property.boundedSize t.usizeBits pointerSize
        ⟨name, .structArray members count⟩ with
    | none =>
      cases count with
      | count c => exact ⟨_, rfl, Sizing.exact_tdh⟩
      | index i => exact structArrayByRefSize_exact hp name hfit i parsed remaining
    | some size =>
      obtain ⟨hexact, hle⟩ := boundedSize_exact hp hfit (by rw [hok, hsize])
      refine ⟨_, rfl, Sizing.exact_size ?_ hle⟩
      cases count with
      | count c => exact hexact
      | index i => simp [Property.exactFixedSize, exactProduct] at hexact
  | ⟨name, .unsupported (.length l)⟩ =>
    have ht := t.usizeMax_ge
    have hl : l.toNat < 65536 := l.toNat_lt
    refine ⟨_, rfl, ?_⟩
    simp only [exactSize]
    by_cases hpos : 0 < l
    · simp only [hpos, if_true]
      exact Sizing.exact_size rfl (by omega)
    · simp only [hpos, if_false]
      exact Sizing.exact_tdh
  | ⟨name, .unsupported (.index i)⟩ =>
    simp only [findPropertySize, exactSize]
    cases hindex : indexValue t parsed i with
    | none => exact ⟨_, rfl, Sizing.exact_tdh⟩
    | some n =>
      obtain ⟨hexact, hle⟩ := exactIndexValue_of_indexValue hindex
      exact ⟨_, rfl, Sizing.exact_size hexact hle⟩

/-- A structure whose sums do not fit unwinds in a build with overflow checks. -/
theorem findPropertySize_eq_overflow_of_not_sumsFit {t : Target} {pointerSize : ℕ}
    (ht : t.overflowChecks = true) {p : Property} (h : ¬ p.SumsFit t.usizeBits pointerSize)
    (parsed : List PropertySlice) (remaining : List UInt8) :
    findPropertySize t pointerSize p parsed remaining = .error .overflow := by
  have hover := Property.fixedSize_eq_overflow ht h
  match p with
  | ⟨_, .value _ _ _⟩ => exact absurd trivial h
  | ⟨_, .array _ _ _ _⟩ => exact absurd trivial h
  | ⟨_, .struct _⟩ => simp only [findPropertySize, hover, bind_error]
  | ⟨_, .structArray _ _⟩ => simp only [findPropertySize, hover, bind_error]
  | ⟨_, .unsupported _⟩ => exact absurd trivial h

/-- A hexdump whose prefix does not fit unwinds in a build with overflow checks. -/
theorem findPropertySize_eq_overflow_of_not_hexFits {t : Target} {pointerSize : ℕ}
    (ht : t.overflowChecks = true) {p : Property} {remaining : List UInt8}
    (h : ¬ HexFits t.usizeBits p remaining) (parsed : List PropertySlice) :
    findPropertySize t pointerSize p parsed remaining = .error .overflow := by
  unfold HexFits at h
  push Not at h
  obtain ⟨outType, length, count, hinfo, hcount, hlt⟩ := h
  have hmax : Target.maxOf t.usizeBits < 4 + leValue count := by omega
  have hover : sizeFromContent t .inTypeHexDump outType remaining = .error .overflow := by
    simp only [sizeFromContent, hcount, Target.add_eq_overflow ht hmax, bind_error]
  simp only [findPropertySize, hinfo, valueSize]
  cases length <;> simpa [TdhInType.isPointer, TdhInType.isContentSized] using hover

end Ferrisetw2
