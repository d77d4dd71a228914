import Ferrisetw2.Lib.Descent
import Ferrisetw2.Native.TdhTypes

/-!
# The property list of a schema

TDH describes the properties of an event by an array of entries. A structure's entry holds the
place of its members in the same array, and `PropertyIterator` follows these places to build the
property trees. `tdh.rs`, and `Property::new` of `tdh_types.rs`.

## Recursion

`parse_property` and `parse_members` call each other with indices read from the table, and nothing
gets smaller on the way. The model bounds the depth of the calls: at depth 0 it stops with
`outOfFuel`, so a recursion that ends is one that some depth suffices for. A read outside the array
stops with `outOfBounds`.

## Main definitions

* `EventPropertyInfo`, `TraceEventInfo`, `Property.new`
* `TraceEventInfo.parseProperty`, `TraceEventInfo.collect`
* `TraceEventInfo.Contains` — an entry lies in the member region of a structure
* `TraceEventInfo.InUse` — an entry the top level leads to

## Main results

* `TraceEventInfo.parseProperty_eq` — a property is parsed exactly where descents are bounded
* `TraceEventInfo.collect_terminates_iff` — when the property list is built
-/

namespace Ferrisetw2

open Rust Relation

/-! ### Flags and entries -/

namespace PropertyFlags

def propertyStruct : UInt32 := 0x1
def propertyParamLength : UInt32 := 0x2
def propertyParamCount : UInt32 := 0x4
def propertyHasCustomSchema : UInt32 := 0x80

/-- `PropertyFlags::from`: the bits the crate names. -/
def fromRaw (flags : UInt32) : UInt32 := flags &&& 0xff

/-- `PropertyFlags::contains`. -/
def contains (flags flag : UInt32) : Bool := flags &&& flag == flag

end PropertyFlags

/-- `EVENT_PROPERTY_INFO`. A union is its words: which of its readings applies is for the flags to
say. -/
structure EventPropertyInfo where
  flags : UInt32
  nameOffset : UInt32
  /-- `InType` of a value, `StructStartIndex` of a structure. -/
  inTypeOrStructStartIndex : UInt16
  /-- `OutType` of a value, `NumOfStructMembers` of a structure. -/
  outTypeOrNumOfStructMembers : UInt16
  /-- `count`, or `countPropertyIndex`. -/
  count : UInt16
  /-- `length`, or `lengthPropertyIndex`. -/
  length : UInt16
  deriving DecidableEq, Repr

namespace EventPropertyInfo

/-- The entry's flags hold this one. -/
def has (entry : EventPropertyInfo) (flag : UInt32) : Bool :=
  PropertyFlags.contains (PropertyFlags.fromRaw entry.flags) flag

/-- The length, literal or by reference. -/
def propertyLength (entry : EventPropertyInfo) : PropertyLength :=
  if entry.has PropertyFlags.propertyParamLength then .index entry.length
  else .length entry.length

/-- The element count, literal or by reference. A literal 0 or 1 is not an array. -/
def propertyCount (entry : EventPropertyInfo) : Option PropertyCount :=
  if entry.has PropertyFlags.propertyParamCount then some (.index entry.count)
  else if 1 < entry.count then some (.count entry.count)
  else none

end EventPropertyInfo

/-- `Property::new`: a non-structure entry. -/
def Property.new (name : String) (entry : EventPropertyInfo) : Property :=
  if entry.has PropertyFlags.propertyHasCustomSchema then ⟨name, .unsupported entry.propertyLength⟩
  else
    let outType := (TdhOutType.fromU16 entry.outTypeOrNumOfStructMembers).getD .outTypeNull
    let inType := (TdhInType.fromU16 entry.inTypeOrStructStartIndex).getD .inTypeNull
    match entry.propertyCount with
    | some count => ⟨name, .array inType outType entry.propertyLength count⟩
    | none => ⟨name, .value inType outType entry.propertyLength⟩

/-! ### The table -/

/-- `TraceEventInfo`: the table, and the block of memory it lies in. -/
structure TraceEventInfo where
  /-- Address of the block. -/
  data : ℕ
  /-- The block is allocated. -/
  data_ne_zero : data ≠ 0
  propertyCount : UInt32
  topLevelPropertyCount : UInt32
  eventPropertyInfoArray : List EventPropertyInfo
  /-- The array has as many entries as it says. -/
  length_array : eventPropertyInfoArray.length = propertyCount.toNat
  /-- The NUL-terminated UTF-16 string at an offset of the block. -/
  stringAt : UInt32 → String

/-- Why building the list stopped without a result. -/
inductive Stop where
  /-- An entry outside the array was read. -/
  | outOfBounds (index : ℕ)
  /-- The calls are nested deeper than allowed. -/
  | outOfFuel
  deriving DecidableEq, Repr

/-- `for index in start..end { members.push(parse(index)?) }`, over `n` indices. -/
def parseRange (parse : ℕ → Except Stop (Option Property)) :
    ℕ → ℕ → Except Stop (Option (List Property))
  | 0, _ => .ok (some [])
  | n + 1, index => do
    match ← parse index with
    | none => .ok none
    | some p =>
      match ← parseRange parse n (index + 1) with
      | none => .ok none
      | some ps => .ok (some (p :: ps))

/-- `next` until it returns `None`, over `n` indices. -/
def collectRange (parse : ℕ → Except Stop (Option Property)) :
    ℕ → ℕ → Except Stop (List Property)
  | 0, _ => .ok []
  | n + 1, index => do
    match ← parse index with
    | none => .ok []
    | some p => do
      let ps ← collectRange parse n (index + 1)
      .ok (p :: ps)

namespace TraceEventInfo

/-- `PropertyIterator::new`: the number of top-level properties. -/
def topLevelCount (te : TraceEventInfo) : ℕ :=
  if te.topLevelPropertyCount = 0 then te.propertyCount.toNat
  else min te.topLevelPropertyCount.toNat te.propertyCount.toNat

/-- `property_name`, with its safety net for a null pointer. -/
def propertyName (te : TraceEventInfo) (entry : EventPropertyInfo) : Option String :=
  if te.data + entry.nameOffset.toNat = 0 then none else some (te.stringAt entry.nameOffset)

/-- Where the member region of a structure starts. -/
def memberStart (te : TraceEventInfo) (entry : EventPropertyInfo) : ℕ :=
  min entry.inTypeOrStructStartIndex.toNat te.propertyCount.toNat

/-- Where it ends: it is clamped to the array. -/
def memberEnd (te : TraceEventInfo) (entry : EventPropertyInfo) : ℕ :=
  min (te.memberStart entry + entry.outTypeOrNumOfStructMembers.toNat) te.propertyCount.toNat

/-- `parse_property` and `parse_members`, with calls nested at most this deep. -/
def parseProperty (te : TraceEventInfo) : ℕ → ℕ → Except Stop (Option Property)
  | 0, _ => .error .outOfFuel
  | fuel + 1, index =>
    match te.eventPropertyInfoArray[index]? with
    | none => .error (.outOfBounds index)
    | some entry =>
      match te.propertyName entry with
      | none => .ok none
      | some name =>
        if entry.has PropertyFlags.propertyStruct then do
          match ← parseRange (te.parseProperty fuel)
              (te.memberEnd entry - te.memberStart entry) (te.memberStart entry) with
          | none => .ok none
          | some members =>
            match entry.propertyCount with
            | some count => .ok (some ⟨name, .structArray members count⟩)
            | none => .ok (some ⟨name, .struct members⟩)
        else .ok (some (Property.new name entry))

/-- `te_info.properties().collect()`. -/
def collect (te : TraceEventInfo) (fuel : ℕ) : Except Stop (List Property) :=
  collectRange (te.parseProperty fuel) te.topLevelCount 0

/-! ### The graph of the table -/

/-- Entry `j` lies in the member region of the structure at `i`. -/
def Contains (te : TraceEventInfo) (i j : ℕ) : Prop :=
  ∃ entry, te.eventPropertyInfoArray[i]? = some entry ∧
    entry.has PropertyFlags.propertyStruct = true ∧
    te.memberStart entry ≤ j ∧ j < te.memberEnd entry

/-- The top level leads to entry `i`. -/
def InUse (te : TraceEventInfo) (i : ℕ) : Prop :=
  ∃ top < te.topLevelCount, ReflTransGen te.Contains top i

theorem topLevelCount_le (te : TraceEventInfo) : te.topLevelCount ≤ te.propertyCount.toNat := by
  unfold topLevelCount
  split
  · exact Nat.le_refl _
  · exact Nat.min_le_right _ _

/-- A member region lies within the array. -/
theorem lt_of_contains {te : TraceEventInfo} {i j : ℕ} (h : te.Contains i j) :
    j < te.propertyCount.toNat := by
  obtain ⟨entry, -, -, -, hj⟩ := h
  exact Nat.lt_of_lt_of_le hj (Nat.min_le_right _ _)

theorem lt_of_reflTransGen {te : TraceEventInfo} {i j : ℕ} (hi : i < te.propertyCount.toNat)
    (h : ReflTransGen te.Contains i j) : j < te.propertyCount.toNat := by
  rcases Relation.ReflTransGen.cases_tail h with rfl | ⟨k, -, hk⟩
  · exact hi
  · exact lt_of_contains hk

end TraceEventInfo

/-! ### Ranges -/

/-- A range parses when each of its entries does. -/
theorem parseRange_ok {f : ℕ → Except Stop (Option Property)} : ∀ {n i : ℕ},
    (∀ j, i ≤ j → j < i + n → ∃ p, f j = .ok (some p)) →
      ∃ ps, parseRange f n i = .ok (some ps)
  | 0, _, _ => ⟨[], rfl⟩
  | n + 1, i, h => by
    obtain ⟨p, hp⟩ := h i (Nat.le_refl i) (by omega)
    obtain ⟨ps, hps⟩ := parseRange_ok (n := n) (i := i + 1) fun j hj hlt =>
      h j (by omega) (by omega)
    exact ⟨p :: ps, by simp [parseRange, hp, hps]⟩

/-- A range stops when one of its entries does and the ones before it parse. -/
theorem parseRange_stop {f : ℕ → Except Stop (Option Property)} {e : Stop} : ∀ {n i : ℕ},
    (∀ j, i ≤ j → j < i + n → (∃ p, f j = .ok (some p)) ∨ f j = .error e) →
      (∃ j, i ≤ j ∧ j < i + n ∧ f j = .error e) → parseRange f n i = .error e
  | 0, i, _, ⟨j, hj, hlt, _⟩ => absurd hlt (by omega)
  | n + 1, i, h, ⟨j, hj, hlt, hstop⟩ => by
    rcases h i (Nat.le_refl i) (by omega) with ⟨p, hp⟩ | hi
    · have hne : i ≠ j := by
        rintro rfl
        rw [hp] at hstop
        exact nomatch hstop
      have hrest := parseRange_stop (n := n) (i := i + 1)
        (fun k hk hkn => h k (by omega) (by omega)) ⟨j, by omega, by omega, hstop⟩
      simp [parseRange, hp, hrest]
    · simp [parseRange, hi]

/-- The top level is a range whose list is cut short, not dropped, at an unreadable entry. -/
theorem collectRange_of_parseRange {f : ℕ → Except Stop (Option Property)} : ∀ {n i : ℕ},
    (∀ ps, parseRange f n i = .ok (some ps) → collectRange f n i = .ok ps) ∧
      ∀ e, parseRange f n i = .error e → collectRange f n i = .error e
  | 0, i => by simp [parseRange, collectRange]
  | n + 1, i => by
    obtain ⟨hok, hstop⟩ := collectRange_of_parseRange (f := f) (n := n) (i := i + 1)
    rw [parseRange, collectRange]
    cases f i with
    | error e => simp
    | ok p =>
      cases p with
      | none => simp
      | some p =>
        cases hrest : parseRange f n (i + 1) with
        | error e => simp [hstop e hrest]
        | ok rest =>
          cases rest with
          | none => simp
          | some rest => simp [hok rest hrest]

namespace TraceEventInfo

/-- The name is always readable: the block is not at address zero. -/
theorem propertyName_eq (te : TraceEventInfo) (entry : EventPropertyInfo) :
    te.propertyName entry = some (te.stringAt entry.nameOffset) := by
  have := te.data_ne_zero
  rw [propertyName, if_neg (by omega)]

/-- **A property is parsed exactly where descents are bounded**; elsewhere the calls are nested too
deep. Nothing outside the array is read. -/
theorem parseProperty_eq (te : TraceEventInfo) : ∀ (fuel : ℕ) {i : ℕ},
    i < te.propertyCount.toNat →
      (Descent.Bounded te.Contains fuel i → ∃ p, te.parseProperty fuel i = .ok (some p)) ∧
      (¬ Descent.Bounded te.Contains fuel i → te.parseProperty fuel i = .error .outOfFuel) := by
  intro fuel
  induction fuel with
  | zero => exact fun _ => ⟨fun h => absurd h id, fun _ => rfl⟩
  | succ fuel ih =>
    intro i hi
    rw [← te.length_array] at hi
    have hentry := List.getElem?_eq_getElem hi
    generalize te.eventPropertyInfoArray[i] = entry at hentry
    have hend : te.memberEnd entry ≤ te.propertyCount.toNat := Nat.min_le_right _ _
    by_cases hstruct : entry.has PropertyFlags.propertyStruct = true
    · simp only [parseProperty, hentry, propertyName_eq, hstruct, if_true]
      have hcontains : ∀ j, te.Contains i j ↔
          te.memberStart entry ≤ j ∧ j < te.memberEnd entry := by
        intro j
        constructor
        · rintro ⟨entry', hentry', -, hj⟩
          rw [hentry] at hentry'
          obtain rfl := Option.some.inj hentry'
          exact hj
        · exact fun hj => ⟨entry, hentry, hstruct, hj⟩
      have hrange : ∀ j, te.memberStart entry ≤ j →
          j < te.memberStart entry + (te.memberEnd entry - te.memberStart entry) →
          te.Contains i j ∧ j < te.propertyCount.toNat := by
        intro j hj hlt
        exact ⟨(hcontains j).mpr ⟨hj, by omega⟩, by omega⟩
      constructor
      · intro hbound
        obtain ⟨ps, hps⟩ := parseRange_ok fun j hj hlt =>
          (ih (hrange j hj hlt).2).1 (hbound j (hrange j hj hlt).1)
        rw [hps]
        cases entry.propertyCount <;> exact ⟨_, rfl⟩
      · intro hbound
        obtain ⟨j, hj, hjbound⟩ : ∃ j, te.Contains i j ∧ ¬ Descent.Bounded te.Contains fuel j := by
          by_contra hcon
          push Not at hcon
          exact hbound hcon
        have hjlt := lt_of_contains hj
        obtain ⟨hjs, hje⟩ := (hcontains j).mp hj
        have hstop := parseRange_stop (f := te.parseProperty fuel) (e := .outOfFuel)
          (n := te.memberEnd entry - te.memberStart entry) (i := te.memberStart entry)
          (fun k hk hkn => by
            by_cases hb : Descent.Bounded te.Contains fuel k
            · exact Or.inl ((ih (hrange k hk hkn).2).1 hb)
            · exact Or.inr ((ih (hrange k hk hkn).2).2 hb))
          ⟨j, hjs, by omega, (ih hjlt).2 hjbound⟩
        rw [hstop]
        rfl
    · have hno : ∀ j, ¬ te.Contains i j := by
        rintro j ⟨entry', hentry', hs, -⟩
        rw [hentry] at hentry'
        obtain rfl := Option.some.inj hentry'
        exact hstruct hs
      constructor
      · intro _
        refine ⟨Property.new (te.stringAt entry.nameOffset) entry, ?_⟩
        simp [parseProperty, hentry, propertyName_eq, hstruct]
      · intro hbound
        exact absurd (fun j hj => absurd hj (hno j)) hbound

/-- The list is built exactly when every descent from the top level is bounded by the depth. -/
theorem collect_eq (te : TraceEventInfo) (fuel : ℕ) :
    ((∀ top < te.topLevelCount, Descent.Bounded te.Contains fuel top) →
      ∃ ps, te.collect fuel = .ok ps) ∧
    ((∃ top < te.topLevelCount, ¬ Descent.Bounded te.Contains fuel top) →
      te.collect fuel = .error .outOfFuel) := by
  have hlt : ∀ j, j < 0 + te.topLevelCount → j < te.propertyCount.toNat := by
    intro j hj
    have := te.topLevelCount_le
    omega
  constructor
  · intro h
    obtain ⟨ps, hps⟩ := parseRange_ok (f := te.parseProperty fuel) (n := te.topLevelCount)
      (i := 0) fun j _ hj => (te.parseProperty_eq fuel (hlt j hj)).1 (h j (by omega))
    exact ⟨ps, collectRange_of_parseRange.1 ps hps⟩
  · rintro ⟨top, htop, hbound⟩
    refine collectRange_of_parseRange.2 _ (parseRange_stop (fun j _ hj => ?_)
      ⟨top, Nat.zero_le _, by omega, (te.parseProperty_eq fuel (hlt top (by omega))).2 hbound⟩)
    by_cases hb : Descent.Bounded te.Contains fuel j
    · exact Or.inl ((te.parseProperty_eq fuel (hlt j hj)).1 hb)
    · exact Or.inr ((te.parseProperty_eq fuel (hlt j hj)).2 hb)

/-- **When the property list is built.** Collecting the iterator ends, whatever the table, exactly
when no entry in use contains itself through member regions; and entries outside the array are
never read. -/
theorem collect_terminates_iff (te : TraceEventInfo) :
    ((∃ fuel ps, te.collect fuel = .ok ps) ↔
      ∀ i, te.InUse i → ¬ TransGen te.Contains i i) ∧
    ∀ fuel index, te.collect fuel ≠ .error (.outOfBounds index) := by
  have hbounds : (∃ fuel ps, te.collect fuel = .ok ps) ↔
      ∃ fuel, ∀ top < te.topLevelCount, Descent.Bounded te.Contains fuel top := by
    constructor
    · rintro ⟨fuel, ps, hps⟩
      refine ⟨fuel, fun top htop => ?_⟩
      by_contra hcon
      rw [(te.collect_eq fuel).2 ⟨top, htop, hcon⟩] at hps
      exact nomatch hps
    · exact fun ⟨fuel, h⟩ => ⟨fuel, (te.collect_eq fuel).1 h⟩
  -- only the entries of the array are within reach
  have hfin : ∀ top < te.topLevelCount, {j | ReflTransGen te.Contains top j}.Finite := by
    intro top htop
    refine (Set.finite_lt_nat te.propertyCount.toNat).subset fun j hj => ?_
    exact lt_of_reflTransGen (Nat.lt_of_lt_of_le htop te.topLevelCount_le) hj
  refine ⟨hbounds.trans ⟨?_, ?_⟩, fun fuel index h => ?_⟩
  · rintro ⟨fuel, h⟩ i ⟨top, htop, hreach⟩
    exact (Descent.bounded_iff_acyclic (hfin top htop)).mp ⟨fuel, h top htop⟩ i hreach
  · intro hacyclic
    exact Descent.exists_bound (Set.finite_lt_nat te.topLevelCount) fun top htop =>
      (Descent.bounded_iff_acyclic (hfin top htop)).mpr fun j hj => hacyclic j ⟨top, htop, hj⟩
  · by_cases hb : ∀ top < te.topLevelCount, Descent.Bounded te.Contains fuel top
    · obtain ⟨ps, hps⟩ := (te.collect_eq fuel).1 hb
      rw [hps] at h
      exact nomatch h
    · push Not at hb
      rw [(te.collect_eq fuel).2 hb] at h
      exact nomatch h

/-- One structure whose member region is its own entry. -/
def selfContaining : TraceEventInfo where
  data := 1
  data_ne_zero := Nat.one_ne_zero
  propertyCount := 1
  topLevelPropertyCount := 1
  eventPropertyInfoArray := [⟨PropertyFlags.propertyStruct, 0, 0, 1, 0, 0⟩]
  length_array := rfl
  stringAt := fun _ => "Loop"

/-- No depth suffices for a structure that is its own member. -/
theorem collect_selfContaining : ¬ ∃ fuel ps, selfContaining.collect fuel = .ok ps := by
  have hself : selfContaining.Contains 0 0 :=
    ⟨_, rfl, by decide, by decide, by decide⟩
  rintro ⟨fuel, ps, h⟩
  rw [(selfContaining.collect_eq fuel).2
    ⟨0, by decide, fun hb => hb.not_transGen (TransGen.single hself)⟩] at h
  exact nomatch h

end TraceEventInfo

end Ferrisetw2
