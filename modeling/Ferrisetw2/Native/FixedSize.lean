import Ferrisetw2.Native.TdhTypes

/-!
# Fixed sizes

`Property::fixed_size`, and what it computes. The code adds member sizes with plain `+` and
multiplies element sizes with `checked_mul`, so a product that does not fit gives `None` while a
sum that does not fit unwinds or wraps. The two cases are kept apart here:

* `Property.exactFixedSize` is the size in unbounded arithmetic;
* `Property.boundedSize` is the same size, given up at the first product that does not fit;
* `Property.SumsFit` says that every sum the code forms on the way fits;
* `Property.wrappedSize` is the same size again, with the sums taken modulo `2 ^ w`;
* `MembersSizable` says that adding up the members of a structure goes through.

## Main results

* `Property.fixedSize_of_sumsFit` — when the sums fit, the code computes `boundedSize`
* `Property.fixedSize_eq_overflow` — when one does not, a build with overflow checks unwinds
* `Property.fixedSize_eq_wrapped` — a build without overflow checks computes `wrappedSize`
* `membersSizable_iff` — the members can be sized exactly when the code adds them up
* `Property.boundedSize_eq_some` — a bounded size is the exact one, and fits
* `Property.fixedSize_eq_exact` — a size is the exact one, if that fits
-/

namespace Ferrisetw2

open Rust

/-! ### The code -/

/-- The `Value` arm of `fixed_size`. -/
def valueFixedSize (t : Target) (pointerSize : ℕ) (inType : TdhInType) (length : PropertyLength) :
    Checked (Option ℕ) :=
  if inType.isPointer then .ok (some pointerSize)
  else match length with
    | .length l =>
      if 0 < l ∧ inType.isContentSized = false then do
        let size ← inType.literalSchemaLengthBytes t l
        .ok (some size)
      else .ok inType.fixedSize
    | .index _ => .ok none

/-- Element size in the `Array` arm of `fixed_size`. -/
def elemFixedSize (t : Target) (pointerSize : ℕ) (inType : TdhInType) (length : PropertyLength) :
    Checked (Option ℕ) :=
  if inType.isPointer then .ok (some pointerSize)
  else match length with
    | .length l =>
      if 0 < l then do
        let size ← inType.literalSchemaLengthBytes t l
        .ok (some size)
      else .ok inType.fixedSize
    | .index _ => .ok none

/-- The `Array` arm of `fixed_size`. -/
def arrayFixedSize (t : Target) (pointerSize : ℕ) (inType : TdhInType) (length : PropertyLength)
    (count : PropertyCount) : Checked (Option ℕ) := do
  let elem ← elemFixedSize t pointerSize inType length
  match elem, count with
  | some elem, .count c => .ok (t.checkedMul elem c.toNat)
  | _, _ => .ok none

mutual

/-- `Property::fixed_size`: size in bytes of a property of fixed layout. -/
def Property.fixedSize (t : Target) (pointerSize : ℕ) : Property → Checked (Option ℕ)
  | ⟨_, .value inType _ length⟩ => valueFixedSize t pointerSize inType length
  | ⟨_, .array inType _ length count⟩ => arrayFixedSize t pointerSize inType length count
  | ⟨_, .struct members⟩ => sumFixedSizes t pointerSize members 0
  | ⟨_, .structArray members count⟩ => do
    let elem ← sumFixedSizes t pointerSize members 0
    match elem, count with
    | some elem, .count c => .ok (t.checkedMul elem c.toNat)
    | _, _ => .ok none
  | ⟨_, .unsupported length⟩ =>
    match length with
    | .length l => .ok (if 0 < l then some l.toNat else none)
    | .index _ => .ok none

/-- `members.iter().map(|m| m.fixed_size(..)).sum::<Option<usize>>()`, from a running sum `acc`:
it stops at the first member without a fixed size. -/
def sumFixedSizes (t : Target) (pointerSize : ℕ) : List Property → ℕ → Checked (Option ℕ)
  | [], acc => .ok (some acc)
  | m :: ms, acc => do
    let size ← m.fixedSize t pointerSize
    match size with
    | none => .ok none
    | some size => do
      let acc ← t.add acc size
      sumFixedSizes t pointerSize ms acc

end

/-! ### The sizes it is about -/

/-- Size of a scalar of fixed layout. -/
def exactValueSize (pointerSize : ℕ) (inType : TdhInType) (length : PropertyLength) : Option ℕ :=
  if inType.isPointer then some pointerSize
  else match length with
    | .length l =>
      if 0 < l ∧ inType.isContentSized = false then some (inType.lengthUnit * l.toNat)
      else inType.fixedSize
    | .index _ => none

/-- Size of an array element of fixed layout. -/
def exactElemSize (pointerSize : ℕ) (inType : TdhInType) (length : PropertyLength) : Option ℕ :=
  if inType.isPointer then some pointerSize
  else match length with
    | .length l => if 0 < l then some (inType.lengthUnit * l.toNat) else inType.fixedSize
    | .index _ => none

/-- `count` elements of size `elem`. -/
def exactProduct (elem : Option ℕ) : PropertyCount → Option ℕ
  | .count c => elem.map (· * c.toNat)
  | .index _ => none

/-- `count` elements of size `elem`, when their total fits. -/
def boundedProduct (b : UsizeBits) (elem : Option ℕ) (count : PropertyCount) : Option ℕ :=
  (exactProduct elem count).filter (· ≤ Target.maxOf b)

mutual

/-- The fixed size of a property, in unbounded arithmetic. -/
def Property.exactFixedSize (pointerSize : ℕ) : Property → Option ℕ
  | ⟨_, .value inType _ length⟩ => exactValueSize pointerSize inType length
  | ⟨_, .array inType _ length count⟩ =>
    exactProduct (exactElemSize pointerSize inType length) count
  | ⟨_, .struct members⟩ => exactSum pointerSize members
  | ⟨_, .structArray members count⟩ => exactProduct (exactSum pointerSize members) count
  | ⟨_, .unsupported (.length l)⟩ => if 0 < l then some l.toNat else none
  | ⟨_, .unsupported (.index _)⟩ => none

/-- Sum of the fixed sizes of all members, when every one of them has one. -/
def exactSum (pointerSize : ℕ) : List Property → Option ℕ
  | [] => some 0
  | m :: ms => (m.exactFixedSize pointerSize).bind fun size =>
    (exactSum pointerSize ms).map (size + ·)

end

mutual

/-- The fixed size of a property, when no product on the way exceeds `usize::MAX`. -/
def Property.boundedSize (b : UsizeBits) (pointerSize : ℕ) : Property → Option ℕ
  | ⟨_, .value inType _ length⟩ => exactValueSize pointerSize inType length
  | ⟨_, .array inType _ length count⟩ =>
    boundedProduct b (exactElemSize pointerSize inType length) count
  | ⟨_, .struct members⟩ => boundedSum b pointerSize members
  | ⟨_, .structArray members count⟩ => boundedProduct b (boundedSum b pointerSize members) count
  | ⟨_, .unsupported (.length l)⟩ => if 0 < l then some l.toNat else none
  | ⟨_, .unsupported (.index _)⟩ => none

/-- Sum of the bounded sizes of all members. -/
def boundedSum (b : UsizeBits) (pointerSize : ℕ) : List Property → Option ℕ
  | [] => some 0
  | m :: ms => (m.boundedSize b pointerSize).bind fun size =>
    (boundedSum b pointerSize ms).map (size + ·)

end

mutual

/-- The fixed size of a property with every sum of member sizes taken modulo `2 ^ w`, when no
product on the way exceeds `usize::MAX`. -/
def Property.wrappedSize (b : UsizeBits) (pointerSize : ℕ) : Property → Option ℕ
  | ⟨_, .value inType _ length⟩ => exactValueSize pointerSize inType length
  | ⟨_, .array inType _ length count⟩ =>
    boundedProduct b (exactElemSize pointerSize inType length) count
  | ⟨_, .struct members⟩ =>
    (wrappedSum b pointerSize members).map (· % (Target.maxOf b + 1))
  | ⟨_, .structArray members count⟩ =>
    boundedProduct b ((wrappedSum b pointerSize members).map (· % (Target.maxOf b + 1))) count
  | ⟨_, .unsupported (.length l)⟩ => if 0 < l then some l.toNat else none
  | ⟨_, .unsupported (.index _)⟩ => none

/-- Sum of the wrapped sizes of all members. -/
def wrappedSum (b : UsizeBits) (pointerSize : ℕ) : List Property → Option ℕ
  | [] => some 0
  | m :: ms => (m.wrappedSize b pointerSize).bind fun size =>
    (wrappedSum b pointerSize ms).map (size + ·)

end

mutual

/-- Every sum of member sizes formed while sizing the property is at most `usize::MAX`. -/
def Property.SumsFit (b : UsizeBits) (pointerSize : ℕ) : Property → Prop
  | ⟨_, .struct members⟩ => MembersFit b pointerSize members 0
  | ⟨_, .structArray members _⟩ => MembersFit b pointerSize members 0
  | ⟨_, .value _ _ _⟩ => True
  | ⟨_, .array _ _ _ _⟩ => True
  | ⟨_, .unsupported _⟩ => True

/-- Adding up the members from `acc` on, up to the first without a fixed size, stays at most
`usize::MAX`, and so does every sum formed inside the members reached. -/
def MembersFit (b : UsizeBits) (pointerSize : ℕ) : List Property → ℕ → Prop
  | [], _ => True
  | m :: ms, acc => m.SumsFit b pointerSize ∧
    ∀ size, m.boundedSize b pointerSize = some size →
      acc + size ≤ Target.maxOf b ∧ MembersFit b pointerSize ms (acc + size)

end

/-- The members can be sized. With overflow checks, every sum and every product of sizes formed on
the way is at most `usize::MAX`. Without them, the sums are taken modulo `2 ^ w` and every product
is at most `usize::MAX`. -/
def MembersSizable (t : Target) (pointerSize : ℕ) (members : List Property) : Prop :=
  if t.overflowChecks then MembersFit t.usizeBits pointerSize members 0 ∧
    boundedSum t.usizeBits pointerSize members ≠ none
  else wrappedSum t.usizeBits pointerSize members ≠ none

/-! ### Scalars and arrays -/

theorem valueFixedSize_eq (t : Target) (pointerSize : ℕ) (inType : TdhInType)
    (length : PropertyLength) :
    valueFixedSize t pointerSize inType length =
      .ok (exactValueSize pointerSize inType length) := by
  unfold valueFixedSize exactValueSize
  split
  · rfl
  · cases length with
    | index i => rfl
    | length l =>
      simp only [TdhInType.literalSchemaLengthBytes_eq, bind_ok]
      split <;> rfl

theorem elemFixedSize_eq (t : Target) (pointerSize : ℕ) (inType : TdhInType)
    (length : PropertyLength) :
    elemFixedSize t pointerSize inType length = .ok (exactElemSize pointerSize inType length) := by
  unfold elemFixedSize exactElemSize
  split
  · rfl
  · cases length with
    | index i => rfl
    | length l =>
      simp only [TdhInType.literalSchemaLengthBytes_eq, bind_ok]
      split <;> rfl

theorem checkedMul_eq_boundedProduct (t : Target) (elem : ℕ) (c : UInt16) :
    t.checkedMul elem c.toNat = boundedProduct t.usizeBits (some elem) (.count c) := by
  by_cases h : elem * c.toNat ≤ t.usizeMax
  · have hmax : elem * c.toNat ≤ Target.maxOf t.usizeBits := h
    rw [Target.checkedMul_of_le h]
    simp [boundedProduct, exactProduct, Option.filter, hmax]
  · have hmax : ¬ elem * c.toNat ≤ Target.maxOf t.usizeBits := h
    rw [Target.checkedMul, if_neg h]
    simp [boundedProduct, exactProduct, Option.filter, hmax]

theorem arrayFixedSize_eq (t : Target) (pointerSize : ℕ) (inType : TdhInType)
    (length : PropertyLength) (count : PropertyCount) :
    arrayFixedSize t pointerSize inType length count =
      .ok (boundedProduct t.usizeBits (exactElemSize pointerSize inType length) count) := by
  rw [arrayFixedSize, elemFixedSize_eq, bind_ok]
  cases exactElemSize pointerSize inType length with
  | none => cases count <;> rfl
  | some elem =>
    cases count with
    | index i => rfl
    | count c => simp only [checkedMul_eq_boundedProduct]

theorem boundedProduct_eq_some {b : UsizeBits} {elem : Option ℕ} {count : PropertyCount} {n : ℕ}
    (h : boundedProduct b elem count = some n) :
    exactProduct elem count = some n ∧ n ≤ Target.maxOf b := by
  simpa [boundedProduct] using h

theorem exactValueSize_le {t : Target} {pointerSize : ℕ} (hp : pointerSize ≤ t.usizeMax)
    {inType : TdhInType} {length : PropertyLength} {n : ℕ}
    (h : exactValueSize pointerSize inType length = some n) : n ≤ t.usizeMax := by
  have ht := t.usizeMax_ge
  unfold exactValueSize at h
  split at h
  · obtain rfl := Option.some.inj h
    exact hp
  · cases length with
    | index i => simp at h
    | length l =>
      simp only at h
      split at h
      · obtain rfl := Option.some.inj h
        exact TdhInType.lengthUnit_mul_toNat_le t inType l
      · have := TdhInType.fixedSize_le h
        omega

/-! ### What the code computes -/

mutual

/-- **When the sums fit, the code computes the bounded size.** -/
theorem Property.fixedSize_of_sumsFit {t : Target} {pointerSize : ℕ} : ∀ {p : Property},
    p.SumsFit t.usizeBits pointerSize →
      p.fixedSize t pointerSize = .ok (p.boundedSize t.usizeBits pointerSize)
  | ⟨_, .value inType _ length⟩, _ => valueFixedSize_eq t pointerSize inType length
  | ⟨_, .array inType _ length count⟩, _ => arrayFixedSize_eq t pointerSize inType length count
  | ⟨_, .struct members⟩, h => by
    rw [Property.fixedSize, Property.boundedSize, sumFixedSizes_of_membersFit h]
    simp
  | ⟨_, .structArray members count⟩, h => by
    rw [Property.fixedSize, Property.boundedSize, sumFixedSizes_of_membersFit h]
    cases boundedSum t.usizeBits pointerSize members with
    | none => cases count <;> rfl
    | some elem =>
      cases count with
      | index i => rfl
      | count c => simp [checkedMul_eq_boundedProduct]
  | ⟨_, .unsupported (.length l)⟩, _ => rfl
  | ⟨_, .unsupported (.index _)⟩, _ => rfl

theorem sumFixedSizes_of_membersFit {t : Target} {pointerSize : ℕ} :
    ∀ {ms : List Property} {acc : ℕ}, MembersFit t.usizeBits pointerSize ms acc →
      sumFixedSizes t pointerSize ms acc =
        .ok ((boundedSum t.usizeBits pointerSize ms).map (acc + ·))
  | [], acc, _ => rfl
  | m :: ms, acc, h => by
    obtain ⟨hm, hrest⟩ := h
    rw [sumFixedSizes, boundedSum, Property.fixedSize_of_sumsFit hm, bind_ok]
    cases hs : m.boundedSize t.usizeBits pointerSize with
    | none => rfl
    | some size =>
      obtain ⟨hadd, hms⟩ := hrest size hs
      simp only [Target.add_of_le (t := t) hadd, bind_ok, sumFixedSizes_of_membersFit hms,
        Option.bind_some, Option.map_map]
      congr 2
      funext rest
      exact Nat.add_assoc acc size rest

end

mutual

/-- **When a sum does not fit, a build with overflow checks unwinds.** -/
theorem Property.fixedSize_eq_overflow {t : Target} {pointerSize : ℕ}
    (ht : t.overflowChecks = true) : ∀ {p : Property}, ¬ p.SumsFit t.usizeBits pointerSize →
      p.fixedSize t pointerSize = .error .overflow
  | ⟨_, .value _ _ _⟩, h => absurd trivial h
  | ⟨_, .array _ _ _ _⟩, h => absurd trivial h
  | ⟨_, .struct members⟩, h => sumFixedSizes_eq_overflow ht h
  | ⟨_, .structArray members count⟩, h => by
    rw [Property.fixedSize, sumFixedSizes_eq_overflow ht h, bind_error]
  | ⟨_, .unsupported _⟩, h => absurd trivial h

theorem sumFixedSizes_eq_overflow {t : Target} {pointerSize : ℕ} (ht : t.overflowChecks = true) :
    ∀ {ms : List Property} {acc : ℕ}, ¬ MembersFit t.usizeBits pointerSize ms acc →
      sumFixedSizes t pointerSize ms acc = .error .overflow
  | [], _, h => absurd trivial h
  | m :: ms, acc, h => by
    rw [sumFixedSizes]
    by_cases hm : m.SumsFit t.usizeBits pointerSize
    · rw [Property.fixedSize_of_sumsFit hm, bind_ok]
      have hnot : ¬ ∀ size, m.boundedSize t.usizeBits pointerSize = some size →
          acc + size ≤ Target.maxOf t.usizeBits ∧
            MembersFit t.usizeBits pointerSize ms (acc + size) := fun hall => h ⟨hm, hall⟩
      push Not at hnot
      obtain ⟨size, hsize, hfail⟩ := hnot
      simp only [hsize]
      by_cases hadd : acc + size ≤ t.usizeMax
      · rw [Target.add_of_le hadd, bind_ok]
        exact sumFixedSizes_eq_overflow ht (hfail hadd)
      · rw [Target.add_eq_overflow ht (Nat.not_le.mp hadd), bind_error]
    · rw [Property.fixedSize_eq_overflow ht hm, bind_error]

end

mutual

/-- **A bounded size is the exact one, and is a `usize`.** -/
theorem Property.boundedSize_eq_some {t : Target} {pointerSize : ℕ}
    (hp : pointerSize ≤ t.usizeMax) : ∀ {p : Property} {n : ℕ},
      p.SumsFit t.usizeBits pointerSize → p.boundedSize t.usizeBits pointerSize = some n →
      p.exactFixedSize pointerSize = some n ∧ n ≤ t.usizeMax
  | ⟨_, .value inType _ length⟩, n, _, h => ⟨h, exactValueSize_le hp h⟩
  | ⟨_, .array inType _ length count⟩, n, _, h => boundedProduct_eq_some h
  | ⟨_, .struct members⟩, n, hfit, h => by
    obtain ⟨hexact, hn⟩ := boundedSum_eq_some hp hfit h
    exact ⟨hexact, by simpa using hn⟩
  | ⟨_, .structArray members count⟩, n, hfit, h => by
    obtain ⟨hprod, hn⟩ := boundedProduct_eq_some h
    refine ⟨?_, hn⟩
    rw [Property.exactFixedSize]
    cases count with
    | index i => simp [exactProduct] at hprod
    | count c =>
      obtain ⟨elem, helem, rfl⟩ := Option.map_eq_some_iff.mp hprod
      rw [(boundedSum_eq_some hp hfit helem).1]
      rfl
  | ⟨_, .unsupported (.length l)⟩, n, _, h => by
    refine ⟨h, ?_⟩
    have hl : l.toNat < 65536 := l.toNat_lt
    have ht := t.usizeMax_ge
    rw [Property.boundedSize] at h
    split at h
    · obtain rfl := Option.some.inj h
      omega
    · simp at h

theorem boundedSum_eq_some {t : Target} {pointerSize : ℕ} (hp : pointerSize ≤ t.usizeMax) :
    ∀ {ms : List Property} {acc n : ℕ}, MembersFit t.usizeBits pointerSize ms acc →
      boundedSum t.usizeBits pointerSize ms = some n →
      exactSum pointerSize ms = some n ∧ (acc ≤ t.usizeMax → acc + n ≤ t.usizeMax)
  | [], acc, n, _, h => by
    obtain rfl := Option.some.inj h
    exact ⟨rfl, id⟩
  | m :: ms, acc, n, hfit, h => by
    obtain ⟨hm, hrest⟩ := hfit
    rw [boundedSum, Option.bind_eq_some_iff] at h
    obtain ⟨size, hsize, hmap⟩ := h
    obtain ⟨rest, hsum, rfl⟩ := Option.map_eq_some_iff.mp hmap
    obtain ⟨hadd, hms⟩ := hrest size hsize
    obtain ⟨hexact, hle⟩ := boundedSum_eq_some hp hms hsum
    refine ⟨?_, fun _ => ?_⟩
    · rw [exactSum, (Property.boundedSize_eq_some hp hm hsize).1, hexact]
      rfl
    · have hle' := hle hadd
      omega

end

mutual

/-- **A build without overflow checks computes the wrapped size.** -/
theorem Property.fixedSize_eq_wrapped {t : Target} (ht : t.overflowChecks = false)
    (pointerSize : ℕ) : ∀ p : Property,
      p.fixedSize t pointerSize = .ok (p.wrappedSize t.usizeBits pointerSize)
  | ⟨_, .value inType _ length⟩ => valueFixedSize_eq t pointerSize inType length
  | ⟨_, .array inType _ length count⟩ => arrayFixedSize_eq t pointerSize inType length count
  | ⟨_, .struct members⟩ => by
    rw [Property.fixedSize, Property.wrappedSize,
      sumFixedSizes_eq_wrapped ht pointerSize members (Nat.zero_le _)]
    simp only [Nat.zero_add]
  | ⟨_, .structArray members count⟩ => by
    rw [Property.fixedSize, Property.wrappedSize,
      sumFixedSizes_eq_wrapped ht pointerSize members (Nat.zero_le _)]
    cases wrappedSum t.usizeBits pointerSize members with
    | none => cases count <;> rfl
    | some elem =>
      cases count with
      | index i => rfl
      | count c => simp [checkedMul_eq_boundedProduct]
  | ⟨_, .unsupported (.length l)⟩ => rfl
  | ⟨_, .unsupported (.index _)⟩ => rfl

theorem sumFixedSizes_eq_wrapped {t : Target} (ht : t.overflowChecks = false) (pointerSize : ℕ) :
    ∀ (ms : List Property) {acc : ℕ}, acc ≤ Target.maxOf t.usizeBits →
      sumFixedSizes t pointerSize ms acc = .ok ((wrappedSum t.usizeBits pointerSize ms).map
        fun sum => (acc + sum) % (Target.maxOf t.usizeBits + 1))
  | [], acc, hacc => by
    simp [sumFixedSizes, wrappedSum, Nat.mod_eq_of_lt (Nat.lt_succ_of_le hacc)]
  | m :: ms, acc, _ => by
    rw [sumFixedSizes, wrappedSum, Property.fixedSize_eq_wrapped ht pointerSize m, bind_ok]
    cases m.wrappedSize t.usizeBits pointerSize with
    | none => rfl
    | some size =>
      have hnext : (acc + size) % (Target.maxOf t.usizeBits + 1) ≤ Target.maxOf t.usizeBits :=
        Nat.le_of_lt_succ (Nat.mod_lt _ (Nat.succ_pos _))
      simp only [Target.add_eq_mod ht, Target.usizeMax, bind_ok,
        sumFixedSizes_eq_wrapped ht pointerSize ms hnext, Option.bind_some, Option.map_map]
      congr 2
      funext rest
      simp only [Function.comp_apply, Nat.mod_add_mod, Nat.add_assoc]

end

/-- **A build without overflow checks does not unwind**, whatever the sums are. -/
theorem Property.exists_fixedSize_eq_ok {t : Target} (ht : t.overflowChecks = false)
    (pointerSize : ℕ) (p : Property) : ∃ r, p.fixedSize t pointerSize = .ok r :=
  ⟨_, Property.fixedSize_eq_wrapped ht pointerSize p⟩

theorem exists_sumFixedSizes_eq_ok {t : Target} (ht : t.overflowChecks = false)
    (pointerSize : ℕ) (ms : List Property) : ∃ r, sumFixedSizes t pointerSize ms 0 = .ok r :=
  ⟨_, sumFixedSizes_eq_wrapped ht pointerSize ms (Nat.zero_le _)⟩

/-- **The members can be sized exactly when the code adds them up.** -/
theorem membersSizable_iff {t : Target} {pointerSize : ℕ} {members : List Property} :
    MembersSizable t pointerSize members ↔
      ∃ size, sumFixedSizes t pointerSize members 0 = .ok (some size) := by
  unfold MembersSizable
  by_cases ht : t.overflowChecks = true
  · rw [if_pos ht]
    by_cases hfit : MembersFit t.usizeBits pointerSize members 0
    · rw [sumFixedSizes_of_membersFit hfit]
      simp [hfit, Option.ne_none_iff_exists']
    · rw [sumFixedSizes_eq_overflow ht hfit]
      simp [hfit]
  · rw [if_neg ht, sumFixedSizes_eq_wrapped (by simpa using ht) pointerSize members
      (Nat.zero_le _)]
    simp [Option.ne_none_iff_exists']

/-! ### Sizes that are `usize` values -/

/-- A sum is returned when every member has a size. -/
theorem sumFixedSizes_cons_eq_ok {t : Target} {pointerSize : ℕ} {m : Property} {ms : List Property}
    {acc r : ℕ} (h : sumFixedSizes t pointerSize (m :: ms) acc = .ok (some r)) :
    ∃ size acc', m.fixedSize t pointerSize = .ok (some size) ∧ t.add acc size = .ok acc' ∧
      sumFixedSizes t pointerSize ms acc' = .ok (some r) := by
  rw [sumFixedSizes] at h
  obtain ⟨fixed, hfixed, hrest⟩ := bind_eq_ok_iff.mp h
  cases fixed with
  | none => cases hrest
  | some size =>
    obtain ⟨acc', hadd, hsum⟩ := bind_eq_ok_iff.mp hrest
    exact ⟨size, acc', hfixed, hadd, hsum⟩

theorem exactSum_cons_eq_some {pointerSize : ℕ} {m : Property} {ms : List Property} {n : ℕ}
    (h : exactSum pointerSize (m :: ms) = some n) :
    ∃ size rest, m.exactFixedSize pointerSize = some size ∧ exactSum pointerSize ms = some rest ∧
      n = size + rest := by
  rw [exactSum] at h
  obtain ⟨size, hsize, hmap⟩ := Option.bind_eq_some_iff.mp h
  obtain ⟨rest, hrest, hn⟩ := Option.map_eq_some_iff.mp hmap
  exact ⟨size, rest, hsize, hrest, hn.symm⟩

mutual

/-- **A fixed size whose exact value is a `usize` is that value.** A sum inside it that does not fit
is taken zero times. -/
theorem Property.fixedSize_eq_exact {t : Target} {pointerSize : ℕ} : ∀ {p : Property} {r n : ℕ},
    p.fixedSize t pointerSize = .ok (some r) → p.exactFixedSize pointerSize = some n →
      n ≤ t.usizeMax → r = n
  | ⟨_, .value inType _ length⟩, r, n, hr, hn, _ => by
    rw [Property.fixedSize, valueFixedSize_eq] at hr
    rw [Property.exactFixedSize] at hn
    rw [hn] at hr
    exact (Option.some.inj (Except.ok.inj hr)).symm
  | ⟨_, .array inType _ length count⟩, r, n, hr, hn, _ => by
    rw [Property.fixedSize, arrayFixedSize_eq] at hr
    obtain ⟨hprod, -⟩ := boundedProduct_eq_some (Except.ok.inj hr)
    rw [Property.exactFixedSize, hprod] at hn
    exact Option.some.inj hn
  | ⟨_, .struct members⟩, r, n, hr, hn, hle => by
    have hsum := sumFixedSizes_eq_exact hr hn (by rwa [Nat.zero_add])
    rwa [Nat.zero_add] at hsum
  | ⟨_, .structArray members count⟩, r, n, hr, hn, hle => by
    rw [Property.fixedSize] at hr
    obtain ⟨elem, hsum, hmul⟩ := bind_eq_ok_iff.mp hr
    cases elem with
    | none => cases hmul
    | some elem =>
      cases count with
      | index i => cases hmul
      | count c =>
        obtain ⟨rfl, -⟩ := Target.checkedMul_eq_some_iff.mp (Except.ok.inj hmul)
        obtain ⟨exact', hexact, rfl⟩ := Option.map_eq_some_iff.mp hn
        by_cases hc : c.toNat = 0
        · rw [hc, Nat.mul_zero, Nat.mul_zero]
        · have hone : exact' ≤ exact' * c.toNat := Nat.le_mul_of_pos_right _ (Nat.pos_of_ne_zero hc)
          have hsum := sumFixedSizes_eq_exact hsum hexact (by omega)
          rw [hsum, Nat.zero_add]
  | ⟨_, .unsupported (.length l)⟩, r, n, hr, hn, _ => by
    rw [Property.fixedSize] at hr
    rw [Property.exactFixedSize] at hn
    rw [hn] at hr
    exact (Option.some.inj (Except.ok.inj hr)).symm
  | ⟨_, .unsupported (.index _)⟩, _, _, hr, _, _ => by
    rw [Property.fixedSize] at hr
    cases hr

theorem sumFixedSizes_eq_exact {t : Target} {pointerSize : ℕ} : ∀ {ms : List Property}
    {acc r n : ℕ}, sumFixedSizes t pointerSize ms acc = .ok (some r) →
      exactSum pointerSize ms = some n → acc + n ≤ t.usizeMax → r = acc + n
  | [], acc, r, n, hr, hn, _ => by
    rw [sumFixedSizes] at hr
    cases hr
    cases hn
    rfl
  | m :: ms, acc, r, n, hr, hn, hle => by
    obtain ⟨size, acc', hsize, hadd, hsum⟩ := sumFixedSizes_cons_eq_ok hr
    obtain ⟨size', rest, hsize', hrest, rfl⟩ := exactSum_cons_eq_some hn
    obtain rfl := Property.fixedSize_eq_exact hsize hsize' (by omega)
    rw [Target.add_of_le (by omega)] at hadd
    obtain rfl := Except.ok.inj hadd
    rw [sumFixedSizes_eq_exact hsum hrest (by omega), Nat.add_assoc]

end

end Ferrisetw2
