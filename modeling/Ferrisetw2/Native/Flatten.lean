import Ferrisetw2.Native.Tdh

/-!
# Flattening, and reading back

TDH flattens a forest of properties level by level: the entries of a level first, then for each
structure of it the block of its members, whose place is written back into the structure's entry.
`flatten_props` of the parser's test support does the same. Reading the table is then the inverse.

`PropSpec.PlacedAt` is what ties the two together: an entry sits at an index, and, for a structure,
its members sit one after the other where the entry says. Flattening establishes it, and parsing
needs nothing else.

## Main definitions

* `PropSpec`, `PropSpec.toProperty` — a property as specified, and as the crate represents it
* `RawProp`, `flattenProps` — the flat table
* `TraceEventInfo.Describes` — a `TRACE_EVENT_INFO` holds this table
* `PropSpec.PlacedAt`, `PlacedFrom` — the place of a tree in a table

## Main results

* `placedFrom_flattenStructures` — flattening puts every tree in its place
* `collect_flattenProps` — **reading the table gives the forest back**
-/

namespace Ferrisetw2

open Rust

/-! ### Specifications -/

/-- A property as a schema specifies it. `tags` are flag bits that the crate does not read. -/
inductive PropSpec where
  | scalar (name : String) (inType : TdhInType) (outType : TdhOutType) (length : PropertyLength)
      (count : PropertyCount) (tags : UInt32)
  /-- A property whose layout lives in a custom schema. -/
  | customSchema (name : String) (length : PropertyLength) (tags : UInt32)
  | struct (name : String) (members : List PropSpec) (count : PropertyCount) (tags : UInt32)

/-- The count of an array. A literal count of 0 or 1 says that there is no array. -/
def arrayCount : PropertyCount → Option PropertyCount
  | .index i => some (.index i)
  | .count c => if 1 < c then some (.count c) else none

mutual

/-- The property the specification is of. -/
def PropSpec.toProperty : PropSpec → Property
  | .scalar name inType outType length count _ =>
    match arrayCount count with
    | some count => ⟨name, .array inType outType length count⟩
    | none => ⟨name, .value inType outType length⟩
  | .customSchema name length _ => ⟨name, .unsupported length⟩
  | .struct name members count _ =>
    match arrayCount count with
    | some count => ⟨name, .structArray (toProperties members) count⟩
    | none => ⟨name, .struct (toProperties members)⟩

def toProperties : List PropSpec → List Property
  | [] => []
  | s :: ss => s.toProperty :: toProperties ss

end

/-! ### Flattening -/

/-- A flat `EVENT_PROPERTY_INFO` entry. -/
structure RawProp where
  name : String
  flags : UInt32
  inType : TdhInType
  outType : TdhOutType
  count : UInt16
  length : UInt16
  /-- First member entry index, for structures. -/
  memberStart : UInt16
  /-- Number of member entries, for structures. -/
  memberCount : UInt16
  deriving DecidableEq, Repr

/-- The word of a length, and its flag. -/
def PropertyLength.word : PropertyLength → UInt16
  | .length l => l
  | .index i => i

def PropertyLength.flag : PropertyLength → UInt32
  | .length _ => 0
  | .index _ => PropertyFlags.propertyParamLength

/-- The word of a count, and its flag. -/
def PropertyCount.word : PropertyCount → UInt16
  | .count c => c
  | .index i => i

def PropertyCount.flag : PropertyCount → UInt32
  | .count _ => 0
  | .index _ => PropertyFlags.propertyParamCount

/-- The flag bits that the crate does not read. -/
def otherBits : UInt32 := 0xffffff78

/-- `RawProp::scalar`: the entry of a specification, without the place of its members. -/
def RawProp.scalar : PropSpec → RawProp
  | .scalar name inType outType length count tags =>
    ⟨name, length.flag ||| count.flag ||| (tags &&& otherBits), inType, outType, count.word,
      length.word, 0, 0⟩
  | .customSchema name length tags =>
    ⟨name, PropertyFlags.propertyHasCustomSchema ||| length.flag ||| (tags &&& otherBits),
      .inTypeNull, .outTypeNull, 0, length.word, 0, 0⟩
  | .struct name _ count tags =>
    ⟨name, PropertyFlags.propertyStruct ||| count.flag ||| (tags &&& otherBits), .inTypeNull,
      .outTypeNull, count.word, 0, 0, 0⟩

/-- The entry of a structure, with the place of its members. -/
def RawProp.withMembers (raw : RawProp) (start count : ℕ) : RawProp :=
  { raw with memberStart := UInt16.ofNat start, memberCount := UInt16.ofNat count }

mutual

/-- The member block of the structure whose entry is at `index`: it goes behind everything there
is, and its place is written back. -/
def PropSpec.flattenMembers : PropSpec → ℕ → List RawProp → List RawProp
  | .struct name members count tags, index, entries =>
    flattenStructures members entries.length
      (entries.set index ((RawProp.scalar (.struct name members count tags)).withMembers
        entries.length members.length) ++ members.map RawProp.scalar)
  | .scalar _ _ _ _ _ _, _, entries => entries
  | .customSchema _ _ _, _, entries => entries

/-- The member blocks of a level whose entries are at `index` and on. -/
def flattenStructures : List PropSpec → ℕ → List RawProp → List RawProp
  | [], _, entries => entries
  | s :: ss, index, entries => flattenStructures ss (index + 1) (s.flattenMembers index entries)

end

/-- `flatten_props`: the direct entries of a level, then its structures. -/
def flattenProps (specs : List PropSpec) (entries : List RawProp) : List RawProp :=
  flattenStructures specs entries.length (entries ++ specs.map RawProp.scalar)

/-! ### Tables -/

/-- The `EVENT_PROPERTY_INFO` of an entry whose name is at this offset. -/
def RawProp.toEntry (raw : RawProp) (nameOffset : UInt32) : EventPropertyInfo :=
  if PropertyFlags.contains (PropertyFlags.fromRaw raw.flags) PropertyFlags.propertyStruct then
    ⟨raw.flags, nameOffset, raw.memberStart, raw.memberCount, raw.count, raw.length⟩
  else ⟨raw.flags, nameOffset, raw.inType.toU16, raw.outType.toU16, raw.count, raw.length⟩

@[simp] theorem RawProp.nameOffset_toEntry (raw : RawProp) (nameOffset : UInt32) :
    (raw.toEntry nameOffset).nameOffset = nameOffset := by
  unfold RawProp.toEntry
  split <;> rfl

/-- The table holds these entries, of which the first `top` are top-level, and their names. -/
structure TraceEventInfo.Describes (te : TraceEventInfo) (raws : List RawProp) (top : ℕ) :
    Prop where
  propertyCount : te.propertyCount.toNat = raws.length
  topLevelPropertyCount : te.topLevelPropertyCount.toNat = top
  entry : ∀ (i : ℕ) (raw : RawProp), raws[i]? = some raw → ∃ nameOffset,
    te.eventPropertyInfoArray[i]? = some (raw.toEntry nameOffset) ∧
      te.stringAt nameOffset = raw.name

/-! ### Places -/

mutual

/-- The entry of the tree is at `index`, and the ones below it where the entries say, at `low` and
on. -/
def PropSpec.PlacedAt (raws : List RawProp) (low : ℕ) : PropSpec → ℕ → Prop
  | .struct name members count tags, index => ∃ start, low ≤ start ∧
    start + members.length ≤ raws.length ∧
    raws[index]? = some ((RawProp.scalar (.struct name members count tags)).withMembers start
      members.length) ∧
    PlacedFrom raws low members start
  | .scalar name inType outType length count tags, index =>
    raws[index]? = some (RawProp.scalar (.scalar name inType outType length count tags))
  | .customSchema name length tags, index =>
    raws[index]? = some (RawProp.scalar (.customSchema name length tags))

/-- The trees are placed one after the other, from `index` on. -/
def PlacedFrom (raws : List RawProp) (low : ℕ) : List PropSpec → ℕ → Prop
  | [], _ => True
  | s :: ss, index => s.PlacedAt raws low index ∧ PlacedFrom raws low ss (index + 1)

end

mutual

/-- A place is kept by a table that agrees on it. -/
theorem PropSpec.PlacedAt.frame {raws raws' : List RawProp} {low low' : ℕ} (hlow : low' ≤ low)
    (hlen : raws.length ≤ raws'.length) : ∀ {s : PropSpec} {index : ℕ},
      (∀ (j : ℕ) (raw : RawProp), j = index ∨ low ≤ j → raws[j]? = some raw →
        raws'[j]? = some raw) →
      s.PlacedAt raws low index → s.PlacedAt raws' low' index
  | .struct _ _ _ _, index, hframe, h => by
    obtain ⟨start, hstart, hend, hentry, hmembers⟩ := h
    refine ⟨start, by omega, by omega, hframe index _ (Or.inl rfl) hentry, ?_⟩
    exact PlacedFrom.frame hlow hlen (fun j raw hj => hframe j raw (Or.inr (by omega))) hmembers
  | .scalar _ _ _ _ _ _, index, hframe, h => hframe index _ (Or.inl rfl) h
  | .customSchema _ _ _, index, hframe, h => hframe index _ (Or.inl rfl) h

theorem PlacedFrom.frame {raws raws' : List RawProp} {low low' : ℕ} (hlow : low' ≤ low)
    (hlen : raws.length ≤ raws'.length) : ∀ {ss : List PropSpec} {index : ℕ},
      (∀ (j : ℕ) (raw : RawProp), (index ≤ j ∧ j < index + ss.length) ∨ low ≤ j →
        raws[j]? = some raw → raws'[j]? = some raw) →
      PlacedFrom raws low ss index → PlacedFrom raws' low' ss index
  | [], _, _, _ => trivial
  | s :: ss, index, hframe, h => by
    rw [List.length_cons] at hframe
    exact ⟨h.1.frame hlow hlen fun j raw hj => hframe j raw (by omega),
      PlacedFrom.frame hlow hlen (fun j raw hj => hframe j raw (by omega)) h.2⟩

end

mutual

/-- What flattening the members of one structure does: it puts the tree in its place, behind
everything there is, and touches no entry but the structure's own. -/
theorem placedAt_flattenMembers : ∀ (s : PropSpec) {index : ℕ} {entries : List RawProp},
    entries[index]? = some (RawProp.scalar s) →
      entries.length ≤ (s.flattenMembers index entries).length ∧
      (∀ (j : ℕ) (raw : RawProp), j ≠ index → entries[j]? = some raw →
        (s.flattenMembers index entries)[j]? = some raw) ∧
      s.PlacedAt (s.flattenMembers index entries) entries.length index
  | .scalar _ _ _ _ _ _, _, _, h => ⟨Nat.le_refl _, fun _ _ _ hj => hj, h⟩
  | .customSchema _ _ _, _, _, h => ⟨Nat.le_refl _, fun _ _ _ hj => hj, h⟩
  | .struct name members count tags, index, entries, h => by
    have hlt : index < entries.length := (List.getElem?_eq_some_iff.mp h).1
    rw [PropSpec.flattenMembers]
    generalize hpatched : (RawProp.scalar (.struct name members count tags)).withMembers
      entries.length members.length = patched
    -- the level of the members starts behind the entries there are
    have hlevel : ∀ (k : ℕ) (spec : PropSpec), members[k]? = some spec →
        (entries.set index patched ++ members.map RawProp.scalar)[entries.length + k]?
          = some (RawProp.scalar spec) := by
      intro k spec hk
      rw [List.getElem?_append_right (by rw [List.length_set]; omega), List.length_set,
        Nat.add_sub_cancel_left, List.getElem?_map, hk, Option.map_some]
    obtain ⟨hlen, hframe, hplaced⟩ := placedFrom_flattenStructures members hlevel
    simp only [List.length_append, List.length_set, List.length_map] at hlen hplaced
    have hold : ∀ (j : ℕ) (raw : RawProp), j < entries.length →
        (entries.set index patched)[j]? = some raw →
        (flattenStructures members entries.length
          (entries.set index patched ++ members.map RawProp.scalar))[j]? = some raw := by
      intro j raw hj hraw
      refine hframe j raw (Or.inl hj) ?_
      rw [List.getElem?_append_left (by rw [List.length_set]; exact hj), hraw]
    refine ⟨by omega, fun j raw hj hraw => ?_, entries.length, Nat.le_refl _, by omega, ?_, ?_⟩
    · have hjlt : j < entries.length := (List.getElem?_eq_some_iff.mp hraw).1
      exact hold j raw hjlt (by rw [List.getElem?_set_ne (Ne.symm hj), hraw])
    · rw [hpatched]
      exact hold index patched hlt (List.getElem?_set_self hlt)
    · exact hplaced.frame (Nat.le_add_right _ _) (Nat.le_refl _) fun _ _ _ hj => hj

/-- **Flattening puts every tree of a level in its place**, behind everything there is, and touches
no entry outside the level. -/
theorem placedFrom_flattenStructures : ∀ (ss : List PropSpec) {index : ℕ}
    {entries : List RawProp},
    (∀ (k : ℕ) (spec : PropSpec), ss[k]? = some spec →
      entries[index + k]? = some (RawProp.scalar spec)) →
      entries.length ≤ (flattenStructures ss index entries).length ∧
      (∀ (j : ℕ) (raw : RawProp), j < index ∨ index + ss.length ≤ j → entries[j]? = some raw →
        (flattenStructures ss index entries)[j]? = some raw) ∧
      PlacedFrom (flattenStructures ss index entries) entries.length ss index
  | [], _, _, _ => ⟨Nat.le_refl _, fun _ _ _ hj => hj, trivial⟩
  | s :: ss, index, entries, h => by
    have hlast : index + ss.length < entries.length := by
      have hget : (s :: ss)[ss.length]? = some (s :: ss)[ss.length] :=
        List.getElem?_eq_getElem _
      exact (List.getElem?_eq_some_iff.mp (h ss.length _ hget)).1
    have hs : entries[index]? = some (RawProp.scalar s) := by
      simpa using h 0 s (List.getElem?_cons_zero ..)
    obtain ⟨hlen, hframe, hplaced⟩ := placedAt_flattenMembers s hs
    -- the rest of the level still has its bare entries
    have hrest : ∀ (k : ℕ) (spec : PropSpec), ss[k]? = some spec →
        (s.flattenMembers index entries)[index + 1 + k]? = some (RawProp.scalar spec) := by
      intro k spec hk
      refine hframe _ _ (by omega) ?_
      rw [Nat.add_assoc, Nat.add_comm 1 k]
      exact h (k + 1) spec (by rw [List.getElem?_cons_succ, hk])
    obtain ⟨hlen', hframe', hplaced'⟩ := placedFrom_flattenStructures ss hrest
    rw [flattenStructures, List.length_cons]
    refine ⟨by omega, fun j raw hj hraw => ?_, ?_, ?_⟩
    · exact hframe' j raw (by omega) (hframe j raw (by omega) hraw)
    · exact hplaced.frame (Nat.le_refl _) hlen' fun j raw hj => hframe' j raw (by omega)
    · exact hplaced'.frame hlen (Nat.le_refl _) fun _ _ _ hj => hj

end

/-- A flattened forest is placed from the start of the table. -/
theorem placedFrom_flattenProps (specs : List PropSpec) :
    PlacedFrom (flattenProps specs []) specs.length specs 0 ∧
      specs.length ≤ (flattenProps specs []).length := by
  have hlevel : ∀ (k : ℕ) (spec : PropSpec), specs[k]? = some spec →
      ([] ++ specs.map RawProp.scalar)[0 + k]? = some (RawProp.scalar spec) := by
    intro k spec hk
    simp [hk]
  obtain ⟨hlen, -, hplaced⟩ := placedFrom_flattenStructures specs hlevel
  simp only [List.nil_append, List.length_map] at hlen hplaced
  exact ⟨hplaced, hlen⟩

/-! ### Entries -/

/-- Masking distributes over joining. -/
theorem or_and_eq (a b c : UInt32) : (a ||| b) &&& c = a &&& c ||| b &&& c := by
  rw [← UInt32.toBitVec_inj]
  simp only [UInt32.toBitVec_and, UInt32.toBitVec_or]
  ext i
  simp [Bool.and_or_distrib_right]

/-- Flag bits that the crate does not read do not hide the ones it does. -/
theorem contains_or_tags {base tags flag : UInt32} (hother : otherBits &&& flag = 0)
    (hnamed : 0xff &&& flag = flag) :
    PropertyFlags.contains (PropertyFlags.fromRaw (base ||| (tags &&& otherBits))) flag
      = PropertyFlags.contains base flag := by
  rw [PropertyFlags.contains, PropertyFlags.fromRaw, UInt32.and_assoc, hnamed, or_and_eq,
    UInt32.and_assoc, hother]
  simp [PropertyFlags.contains]

/-- What an entry's flags say of a bit that the crate reads. -/
theorem EventPropertyInfo.has_of_tags {base tags flag nameOffset : UInt32}
    {inType outType count length : UInt16} (hother : otherBits &&& flag = 0)
    (hnamed : 0xff &&& flag = flag) :
    EventPropertyInfo.has ⟨base ||| (tags &&& otherBits), nameOffset, inType, outType, count,
      length⟩ flag = PropertyFlags.contains base flag :=
  contains_or_tags hother hnamed

/-- A length reads back from its word and its flag. -/
theorem readLength (length : PropertyLength) {read : Bool}
    (h : read = match length with
      | .length _ => false
      | .index _ => true) :
    (if read = true then PropertyLength.index length.word else .length length.word) = length := by
  subst h
  cases length <;> rfl

/-- A count reads back from its word and its flag. -/
theorem readCount (count : PropertyCount) {read : Bool}
    (h : read = match count with
      | .count _ => false
      | .index _ => true) :
    (if read = true then some (PropertyCount.index count.word)
      else if 1 < count.word then some (.count count.word) else none) = arrayCount count := by
  subst h
  cases count <;> rfl

/-- A scalar's entry reads back as the scalar. -/
theorem property_new_scalar (name : String) (inType : TdhInType) (outType : TdhOutType)
    (length : PropertyLength) (count : PropertyCount) (tags nameOffset : UInt32) :
    let entry := (RawProp.scalar (.scalar name inType outType length count tags)).toEntry nameOffset
    entry.has PropertyFlags.propertyStruct = false ∧ Property.new name entry =
      PropSpec.toProperty (.scalar name inType outType length count tags) := by
  have hstruct : PropertyFlags.contains (length.flag ||| count.flag)
      PropertyFlags.propertyStruct = false := by
    cases length <;> cases count <;> simp only [PropertyLength.flag, PropertyCount.flag] <;> decide
  have hcustom : PropertyFlags.contains (length.flag ||| count.flag)
      PropertyFlags.propertyHasCustomSchema = false := by
    cases length <;> cases count <;> simp only [PropertyLength.flag, PropertyCount.flag] <;> decide
  intro entry
  have hentry : entry = ⟨length.flag ||| count.flag ||| (tags &&& otherBits), nameOffset,
      inType.toU16, outType.toU16, count.word, length.word⟩ := by
    simp (disch := decide) [entry, RawProp.toEntry, RawProp.scalar, contains_or_tags, hstruct]
  have hlength : entry.propertyLength = length := by
    simp (disch := decide) only [hentry, EventPropertyInfo.propertyLength,
      EventPropertyInfo.has_of_tags]
    refine readLength length ?_
    cases length <;> cases count <;> simp only [PropertyLength.flag, PropertyCount.flag] <;> decide
  have hcount : entry.propertyCount = arrayCount count := by
    simp (disch := decide) only [hentry, EventPropertyInfo.propertyCount,
      EventPropertyInfo.has_of_tags]
    refine readCount count ?_
    cases length <;> cases count <;> simp only [PropertyLength.flag, PropertyCount.flag] <;> decide
  constructor
  · simp (disch := decide) only [hentry, EventPropertyInfo.has_of_tags, hstruct]
  · have hno : entry.has PropertyFlags.propertyHasCustomSchema = false := by
      simp (disch := decide) only [hentry, EventPropertyInfo.has_of_tags, hcustom]
    rw [Property.new, hno, hlength, hcount, hentry, PropSpec.toProperty]
    cases arrayCount count <;>
      simp only [Bool.false_eq_true, if_false, TdhInType.fromU16_toU16, TdhOutType.fromU16_toU16,
        Option.getD_some]

/-- A custom-schema entry reads back as an undecoded property of its length. -/
theorem property_new_customSchema (name : String) (length : PropertyLength)
    (tags nameOffset : UInt32) :
    let entry := (RawProp.scalar (.customSchema name length tags)).toEntry nameOffset
    entry.has PropertyFlags.propertyStruct = false ∧
      Property.new name entry = PropSpec.toProperty (.customSchema name length tags) := by
  have hstruct : PropertyFlags.contains (PropertyFlags.propertyHasCustomSchema ||| length.flag)
      PropertyFlags.propertyStruct = false := by
    cases length <;> simp only [PropertyLength.flag] <;> decide
  have hcustom : PropertyFlags.contains (PropertyFlags.propertyHasCustomSchema ||| length.flag)
      PropertyFlags.propertyHasCustomSchema = true := by
    cases length <;> simp only [PropertyLength.flag] <;> decide
  intro entry
  have hentry : entry = ⟨PropertyFlags.propertyHasCustomSchema ||| length.flag |||
      (tags &&& otherBits), nameOffset, TdhInType.inTypeNull.toU16, TdhOutType.outTypeNull.toU16, 0,
      length.word⟩ := by
    simp (disch := decide) [entry, RawProp.toEntry, RawProp.scalar, contains_or_tags, hstruct]
  have hlength : entry.propertyLength = length := by
    simp (disch := decide) only [hentry, EventPropertyInfo.propertyLength,
      EventPropertyInfo.has_of_tags]
    refine readLength length ?_
    cases length <;> simp only [PropertyLength.flag] <;> decide
  constructor
  · simp (disch := decide) only [hentry, EventPropertyInfo.has_of_tags, hstruct]
  · have hyes : entry.has PropertyFlags.propertyHasCustomSchema = true := by
      simp (disch := decide) only [hentry, EventPropertyInfo.has_of_tags, hcustom]
    rw [Property.new, hyes, if_pos rfl, hlength, PropSpec.toProperty]

/-- A structure's entry says so, and says its count and the place of its members. -/
theorem entry_struct (name : String) (members : List PropSpec) (count : PropertyCount)
    (tags nameOffset : UInt32) {start num : ℕ} (hstart : start ≤ 65535) (hnum : num ≤ 65535) :
    let entry := ((RawProp.scalar (.struct name members count tags)).withMembers start num).toEntry
      nameOffset
    entry.has PropertyFlags.propertyStruct = true ∧ entry.propertyCount = arrayCount count ∧
      entry.inTypeOrStructStartIndex.toNat = start ∧
      entry.outTypeOrNumOfStructMembers.toNat = num := by
  have hstruct : PropertyFlags.contains (PropertyFlags.propertyStruct ||| count.flag)
      PropertyFlags.propertyStruct = true := by
    cases count <;> simp only [PropertyCount.flag] <;> decide
  intro entry
  have hentry : entry = ⟨PropertyFlags.propertyStruct ||| count.flag ||| (tags &&& otherBits),
      nameOffset, UInt16.ofNat start, UInt16.ofNat num, count.word, 0⟩ := by
    simp (disch := decide) [entry, RawProp.toEntry, RawProp.withMembers, RawProp.scalar,
      contains_or_tags, hstruct]
  rw [hentry]
  refine ⟨?_, ?_, ?_, ?_⟩
  · simp (disch := decide) only [EventPropertyInfo.has_of_tags, hstruct]
  · simp (disch := decide) only [EventPropertyInfo.propertyCount, EventPropertyInfo.has_of_tags]
    refine readCount count ?_
    cases count <;> simp only [PropertyCount.flag] <;> decide
  · exact UInt16.toNat_ofNat_of_lt (Nat.lt_of_le_of_lt hstart (by decide))
  · exact UInt16.toNat_ofNat_of_lt (Nat.lt_of_le_of_lt hnum (by decide))

/-! ### Reading back -/

section ReadBack

variable {te : TraceEventInfo} {raws : List RawProp} {top low : ℕ}

/-- An entry without members reads back where it is. -/
theorem parseProperty_of_leaf (hte : te.Describes raws top) {raw : RawProp} {p : Property}
    {index : ℕ} (hraw : raws[index]? = some raw)
    (hread : ∀ nameOffset, (raw.toEntry nameOffset).has PropertyFlags.propertyStruct = false ∧
      Property.new raw.name (raw.toEntry nameOffset) = p) :
    ∃ depth, ∀ fuel, depth ≤ fuel → te.parseProperty fuel index = .ok (some p) := by
  obtain ⟨nameOffset, hentry, hname⟩ := hte.entry index _ hraw
  obtain ⟨hstruct, hnew⟩ := hread nameOffset
  refine ⟨1, fun fuel hfuel => ?_⟩
  obtain ⟨fuel, rfl⟩ := Nat.exists_eq_add_of_le' hfuel
  simp only [TraceEventInfo.parseProperty, hentry, TraceEventInfo.propertyName_eq, hstruct,
    RawProp.nameOffset_toEntry, Bool.false_eq_true, if_false, hname, hnew]

mutual

/-- **A tree in its place reads back**, at every sufficient depth. -/
theorem parseProperty_of_placedAt (hte : te.Describes raws top) (hlen : raws.length ≤ 65535) :
    ∀ (s : PropSpec) {index : ℕ}, s.PlacedAt raws low index →
      ∃ depth, ∀ fuel, depth ≤ fuel → te.parseProperty fuel index = .ok (some s.toProperty)
  | .scalar name inType outType length count tags, _, h =>
    parseProperty_of_leaf hte h (property_new_scalar name inType outType length count tags)
  | .customSchema name length tags, _, h =>
    parseProperty_of_leaf hte h (property_new_customSchema name length tags)
  | .struct name members count tags, index, h => by
    obtain ⟨start, -, hend, hraw, hmembers⟩ := h
    obtain ⟨nameOffset, hentry, hname⟩ := hte.entry index _ hraw
    obtain ⟨hstruct, hcount, hstart, hnum⟩ := entry_struct name members count tags nameOffset
      (by omega : start ≤ 65535) (by omega : members.length ≤ 65535)
    obtain ⟨depth, hdepth⟩ := parseRange_of_placedFrom hte hlen members hmembers
    refine ⟨depth + 1, fun fuel hfuel => ?_⟩
    obtain ⟨fuel, rfl⟩ := Nat.exists_eq_add_of_le' hfuel
    have hoffset := RawProp.nameOffset_toEntry ((RawProp.scalar
      (.struct name members count tags)).withMembers start members.length) nameOffset
    generalize ((RawProp.scalar (.struct name members count tags)).withMembers start
      members.length).toEntry nameOffset = entry at hentry hstruct hcount hstart hnum hoffset
    -- the member region is not clamped: it lies within the array
    have hregion : te.memberStart entry = start := by
      rw [TraceEventInfo.memberStart, hstart, hte.propertyCount]
      omega
    have hregionEnd : te.memberEnd entry - start = members.length := by
      rw [TraceEventInfo.memberEnd, hregion, hnum, hte.propertyCount]
      omega
    have hparse := hdepth (fuel + depth) (by omega)
    have hname' : te.stringAt entry.nameOffset = name := by rw [hoffset, hname]; rfl
    rw [← Nat.add_assoc]
    simp only [TraceEventInfo.parseProperty, hentry, TraceEventInfo.propertyName_eq, hstruct,
      if_true, hname', hregion, hregionEnd, hparse, bind_ok, hcount, PropSpec.toProperty]
    cases arrayCount count <;> rfl

theorem parseRange_of_placedFrom (hte : te.Describes raws top) (hlen : raws.length ≤ 65535) :
    ∀ (ss : List PropSpec) {index : ℕ}, PlacedFrom raws low ss index →
      ∃ depth, ∀ fuel, depth ≤ fuel →
        parseRange (te.parseProperty fuel) ss.length index = .ok (some (toProperties ss))
  | [], _, _ => ⟨0, fun _ _ => rfl⟩
  | s :: ss, index, h => by
    obtain ⟨depth, hdepth⟩ := parseProperty_of_placedAt hte hlen s h.1
    obtain ⟨depth', hdepth'⟩ := parseRange_of_placedFrom hte hlen ss h.2
    refine ⟨max depth depth', fun fuel hfuel => ?_⟩
    simp only [List.length_cons, parseRange, hdepth fuel (by omega), hdepth' fuel (by omega),
      bind_ok, toProperties]

end

end ReadBack

/-- **Reading the table gives the forest back**: whatever forest is flattened, a table that holds
its entries and names is collected to the properties the forest specifies, in order and nested as
they were. -/
theorem collect_flattenProps (specs : List PropSpec) (te : TraceEventInfo)
    (hte : te.Describes (flattenProps specs []) specs.length)
    (hlen : (flattenProps specs []).length ≤ 65535) :
    ∃ depth, ∀ fuel, depth ≤ fuel → te.collect fuel = .ok (toProperties specs) := by
  obtain ⟨hplaced, hle⟩ := placedFrom_flattenProps specs
  obtain ⟨depth, hdepth⟩ := parseRange_of_placedFrom hte hlen specs hplaced
  refine ⟨depth, fun fuel hfuel => ?_⟩
  have htop : te.topLevelCount = specs.length := by
    rw [TraceEventInfo.topLevelCount]
    split
    · -- an empty forest has an empty table
      rename_i hzero
      have hempty : specs.length = 0 := by
        rw [← hte.topLevelPropertyCount, hzero]
        rfl
      obtain rfl := List.length_eq_zero_iff.mp hempty
      rw [hte.propertyCount]
      rfl
    · rw [hte.topLevelPropertyCount, hte.propertyCount]
      omega
  rw [TraceEventInfo.collect, htop]
  exact collectRange_of_parseRange.1 _ (hdepth fuel hfuel)

/-! ### Tables exist -/

/-- `synthetic_schema`: a table holding the flattened forest, each name at the offset of its entry's
index. -/
def TraceEventInfo.synthetic (specs : List PropSpec)
    (h : (flattenProps specs []).length ≤ 65535) : TraceEventInfo where
  data := 1
  data_ne_zero := Nat.one_ne_zero
  propertyCount := UInt32.ofNat (flattenProps specs []).length
  topLevelPropertyCount := UInt32.ofNat specs.length
  eventPropertyInfoArray := (flattenProps specs []).mapIdx fun i raw => raw.toEntry (UInt32.ofNat i)
  length_array := by
    rw [List.length_mapIdx]
    exact (UInt32.toNat_ofNat_of_lt (Nat.lt_of_le_of_lt h (by decide))).symm
  stringAt := fun offset => match (flattenProps specs [])[offset.toNat]? with
    | some raw => raw.name
    | none => ""

theorem TraceEventInfo.synthetic_describes (specs : List PropSpec)
    (h : (flattenProps specs []).length ≤ 65535) :
    (TraceEventInfo.synthetic specs h).Describes (flattenProps specs []) specs.length := by
  have hle := (placedFrom_flattenProps specs).2
  refine ⟨?_, ?_, fun i raw hraw => ⟨UInt32.ofNat i, ?_, ?_⟩⟩
  · exact UInt32.toNat_ofNat_of_lt (Nat.lt_of_le_of_lt h (by decide))
  · exact UInt32.toNat_ofNat_of_lt (Nat.lt_of_le_of_lt (hle.trans h) (by decide))
  · show ((flattenProps specs []).mapIdx _)[i]? = _
    rw [List.getElem?_mapIdx, hraw, Option.map_some]
  · have hi : i < (flattenProps specs []).length := (List.getElem?_eq_some_iff.mp hraw).1
    have hsmall : (65535 : ℕ) < UInt32.size := by decide
    have hoffset : (UInt32.ofNat i).toNat = i := UInt32.toNat_ofNat_of_lt (by omega)
    simp only [TraceEventInfo.synthetic, hoffset, hraw]

/-- A count, and as many structures of two members, one of them a structure itself. -/
theorem collect_flattenProps_nested :
    ∃ (specs : List PropSpec) (te : TraceEventInfo), specs.length = 2 ∧
      te.propertyCount = 5 ∧
      ∃ depth, ∀ fuel, depth ≤ fuel → te.collect fuel = .ok (toProperties specs) := by
  let word (name : String) : PropSpec :=
    .scalar name .inTypeUInt16 .outTypeNull (.length 2) (.count 1) 0x10
  have hlen : (flattenProps [word "Count", .struct "Items" [.struct "Inner" [word "X"] (.count 1) 0,
      .customSchema "Blob" (.length 4) 0] (.index 0) 0] []).length ≤ 65535 := by decide
  exact ⟨_, TraceEventInfo.synthetic _ hlen, rfl, rfl,
    collect_flattenProps _ _ (TraceEventInfo.synthetic_describes _ hlen) hlen⟩

end Ferrisetw2
