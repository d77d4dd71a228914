import Ferrisetw2.Parser.History

/-!
# Properties of the same name

A manifest may repeat a property name. The walk tells such properties apart: it locates properties
by their position. But where it cannot size a property, it asks TDH, and TDH is asked by name: it
answers for the first top-level property of the name. So the walk is right about a property TDH
sizes as long as the first of its name has the same size, and once it is wrong it is wrong about
what comes next.

The event is described by the bytes its properties own, one after the other. How many bytes a
property owns is for the sizing code to say, or, where it does not say, for the event.

## Main definitions

* `OwnBytes`, `NeedsTdh` — the bytes of a property, and whether TDH is asked for their number
* `tdhByName` — TDH, as it answers for a name

## Main results

* `isPrefix_canonicalWalk_iff` — the walk starts with these slices if it locates each after the
  ones before
* `same_named_bytes_iff` — when every position is answered by its own bytes
-/

namespace Ferrisetw2

open Rust

/-! ### What the walk locates -/

theorem property_of_locate {P : Parser} {dataStart : Option ℕ} {parsed : List PropertySlice}
    {property : Property} {slice : PropertySlice}
    (h : locate P dataStart parsed property = .ok slice) : slice.property = property := by
  unfold locate at h
  split at h
  · contradiction
  · split at h
    · contradiction
    · split at h
      · contradiction
      · split at h
        · contradiction
        · rw [← Except.ok.inj h]

/-- The walk locates properties in schema order. -/
theorem walkFrom_properties (P : Parser) (dataStart : Option ℕ) (parsed : List PropertySlice)
    (rest : List Property) : (walkFrom P dataStart parsed rest).located.map (·.property) <+:
      parsed.map (·.property) ++ rest := by
  induction rest generalizing parsed with
  | nil => exact List.prefix_append _ _
  | cons property rest ih =>
    rw [walkFrom]
    split
    · rename_i slice hloc
      have := ih (parsed ++ [slice])
      rwa [List.map_append, List.map_singleton, property_of_locate hloc, List.append_assoc] at this
    · exact List.prefix_append _ _

/-- One step of the walk, after slices it starts with. -/
theorem canonicalWalk_step {P : Parser} {dataStart : Option ℕ} {xs : List PropertySlice}
    {property : Property} (hpre : xs <+: (canonicalWalk P dataStart).located)
    (hprop : P.properties[xs.length]? = some property) :
    (∃ slice, locate P dataStart xs property = .ok slice ∧
      xs ++ [slice] <+: (canonicalWalk P dataStart).located) ∨
    (∃ e, locate P dataStart xs property = .error e ∧
      xs = (canonicalWalk P dataStart).located) := by
  have hnext := locate_of_isPrefix P dataStart P.properties [] xs List.nil_prefix hpre
  rw [List.length_nil, Nat.sub_zero, hprop] at hnext
  dsimp only at hnext
  cases hloc : locate P dataStart xs property with
  | ok slice =>
    rw [hloc] at hnext
    exact Or.inl ⟨slice, rfl, hnext⟩
  | error e =>
    rw [hloc] at hnext
    exact Or.inr ⟨e, rfl, hnext.1⟩

/-- **The walk starts with these slices** if and only if it locates each of them after the ones
before. -/
theorem isPrefix_canonicalWalk_iff {P : Parser} {dataStart : Option ℕ} {own : List PropertySlice}
    (hprop : ∀ i (h : i < own.length), P.properties[i]? = some own[i].property) :
    own <+: (canonicalWalk P dataStart).located ↔
      ∀ i (h : i < own.length),
        locate P dataStart (own.take i) own[i].property = .ok own[i] := by
  have hproperty : ∀ i (h : i < own.length),
      P.properties[(own.take i).length]? = some own[i].property := by
    intro i h
    rw [List.length_take_of_le (Nat.le_of_lt h)]
    exact hprop i h
  constructor
  · intro hpre i h
    have htake := (List.take_prefix i own).trans hpre
    obtain ⟨slice, hloc, hnext⟩ | ⟨e, -, hall⟩ := canonicalWalk_step htake (hproperty i h)
    · -- both are the first `i + 1` slices of the walk
      have hlen : (own.take i ++ [slice]).length = (own.take (i + 1)).length := by
        rw [List.length_append, List.length_take, List.length_take, List.length_singleton]
        omega
      have heq := (List.prefix_of_prefix_length_le hnext
        ((List.take_prefix (i + 1) own).trans hpre) hlen.le).eq_of_length hlen
      rw [List.take_succ_eq_append_getElem h] at heq
      rw [hloc, List.singleton_inj.mp (List.append_cancel_left heq)]
    · have hle := hpre.length_le
      rw [← hall, List.length_take] at hle
      omega
  · intro hloc
    have hall : ∀ n ≤ own.length, own.take n <+: (canonicalWalk P dataStart).located := by
      intro n
      induction n with
      | zero => exact fun _ => List.nil_prefix
      | succ n ih =>
        intro hn
        have hstep := canonicalWalk_step (ih (Nat.le_of_lt hn)) (hproperty n hn)
        rw [hloc n hn] at hstep
        obtain ⟨slice, hslice, hnext⟩ | ⟨e, he, -⟩ := hstep
        · rw [List.take_succ_eq_append_getElem hn, Except.ok.inj hslice]
          exact hnext
        · contradiction
    have := hall own.length (Nat.le_refl _)
    rwa [List.take_length] at this

/-- The walk starts with these slices if and only if their positions are answered by their
bytes. -/
theorem isPrefix_canonicalWalk_iff_bytesAnswer {P : Parser} {dataStart : Option ℕ}
    {own : List PropertySlice} (stop : Fault ParserError)
    (hprop : ∀ i (h : i < own.length), P.properties[i]? = some own[i].property) :
    own <+: (canonicalWalk P dataStart).located ↔ ∀ i (h : i < own.length),
      bytesAnswer (canonicalWalk P dataStart).located stop i = .ok own[i].buffer := by
  rw [List.prefix_iff_getElem?]
  refine forall₂_congr fun i h => ?_
  rw [bytesAnswer]
  cases hget : (canonicalWalk P dataStart).located[i]? with
  | none => exact iff_of_false (by simp) (by simp)
  | some slice =>
    have hslice : P.properties[i]? = some slice.property := by
      obtain ⟨rest, hrest⟩ := walkFrom_properties P dataStart [] P.properties
      have hmap : ((canonicalWalk P dataStart).located.map (·.property))[i]? =
          some slice.property := by
        rw [List.getElem?_map, hget]
        rfl
      rw [List.map_nil, List.nil_append] at hrest
      rw [← hrest]
      exact List.getElem?_append_left (List.getElem?_eq_some_iff.mp hmap).1 |>.trans hmap
    have hsame : slice.property = own[i].property :=
      Option.some.inj (hslice.symm.trans (hprop i h))
    constructor
    · intro heq
      rw [← Option.some.inj heq]
    · intro heq
      have hbuffer : slice.buffer = own[i].buffer := Except.ok.inj heq
      show some (⟨slice.property, slice.buffer⟩ : PropertySlice) = some own[i]
      rw [hsame, hbuffer]

/-! ### TDH, by name -/

/-- The slice has the bytes of the property behind `before`. They start where the bytes before them
end, and the sizing code says that there are as many, or asks TDH. -/
def OwnBytes (P : Parser) (dataStart : Option ℕ) (before : List PropertySlice)
    (slice : PropertySlice) : Prop :=
  P.properties[before.length]? = some slice.property ∧ ∃ start remaining,
    dataStart = some start ∧
    P.record.userSlice.getFrom (start + totalLen before) = some remaining ∧
    remaining.getTo slice.buffer.len = some slice.buffer ∧
    (findPropertySize P.target P.record.pointerSize slice.property before remaining.bytes =
        .ok (.size slice.buffer.len) ∨
      findPropertySize P.target P.record.pointerSize slice.property before remaining.bytes =
        .ok .tdh)

/-- Behind `before`, the sizing code asks TDH for the size of the property. -/
def NeedsTdh (P : Parser) (dataStart : Option ℕ) (before : List PropertySlice)
    (property : Property) : Prop :=
  ∃ start remaining, dataStart = some start ∧
    P.record.userSlice.getFrom (start + totalLen before) = some remaining ∧
    findPropertySize P.target P.record.pointerSize property before remaining.bytes = .ok .tdh

/-- `TdhGetPropertySize`, which is given a name: the size of the first property that has it. -/
def tdhByName (own : List PropertySlice) (unknown : Property → Except TdhNativeError UInt32)
    (property : Property) : Except TdhNativeError UInt32 :=
  match own.find? (named property.name) with
  | some first => .ok (UInt32.ofNat first.buffer.len)
  | none => unknown property

section Named

variable {P : Parser} {dataStart : Option ℕ} {own : List PropertySlice}
  {unknown : Property → Except TdhNativeError UInt32}

theorem OwnBytes.len_lt {before : List PropertySlice} {slice : PropertySlice}
    (h : OwnBytes P dataStart before slice) : slice.buffer.len < 2 ^ 32 := by
  obtain ⟨-, start, remaining, -, hfrom, hto, -⟩ := h
  have hlen := (Slice.getTo_eq_some_iff.mp hto).1
  have hrange := (Slice.getFrom_eq_some_iff.mp hfrom).1
  have hbuffer := P.record.userBuffer_le
  have hremaining : remaining.len ≤ P.record.userBuffer.length := by
    rw [(Slice.getFrom_eq_some_iff.mp hfrom).2, Slice.len, List.length_drop]
    exact Nat.sub_le _ _
  omega

/-- Whether TDH is asked is seen from the bytes at the offset. -/
theorem needsTdh_iff {start : ℕ} {before : List PropertySlice} {property : Property}
    {remaining : Slice}
    (hfrom : P.record.userSlice.getFrom (start + totalLen before) = some remaining) :
    NeedsTdh P (some start) before property ↔
      findPropertySize P.target P.record.pointerSize property before remaining.bytes =
        .ok .tdh := by
  constructor
  · rintro ⟨start', remaining', hstart, hfrom', htdh⟩
    obtain rfl := Option.some.inj hstart
    rw [hfrom] at hfrom'
    rw [Option.some.inj hfrom']
    exact htdh
  · intro htdh
    exact ⟨start, remaining, rfl, hfrom, htdh⟩

/-- TDH answers for a property of the event with the size of the first one of its name. -/
theorem exists_tdhByName (hown : ∀ slice ∈ own, slice.buffer.len < 2 ^ 32) {slice : PropertySlice}
    (hslice : slice ∈ own) : ∃ first size, own.find? (named slice.property.name) = some first ∧
      tdhByName own unknown slice.property = .ok size ∧ size.toNat = first.buffer.len := by
  obtain ⟨first, hfirst⟩ : ∃ first, own.find? (named slice.property.name) = some first := by
    rw [← Option.isSome_iff_exists, List.find?_isSome]
    exact ⟨slice, hslice, beq_self_eq_true _⟩
  refine ⟨first, UInt32.ofNat first.buffer.len, hfirst, by rw [tdhByName, hfirst], ?_⟩
  rw [UInt32.toNat_ofNat']
  exact Nat.mod_eq_of_lt (hown first (List.mem_of_find?_eq_some hfirst))

/-- **One property.** It is located with its own bytes if and only if TDH is not asked, or the
first property of the name has as many. -/
theorem locate_eq_own_iff (htdh : P.tdh = fun _ => tdhByName own unknown)
    (hown : ∀ slice ∈ own, slice.buffer.len < 2 ^ 32)
    {before : List PropertySlice} {slice : PropertySlice} (hslice : slice ∈ own)
    (h : OwnBytes P dataStart before slice) :
    locate P dataStart before slice.property = .ok slice ↔
      (NeedsTdh P dataStart before slice.property →
        ∀ first, own.find? (named slice.property.name) = some first →
          first.buffer.len = slice.buffer.len) := by
  obtain ⟨-, start, remaining, rfl, hfrom, hto, hsize⟩ := h
  rw [needsTdh_iff hfrom, locate, hfrom]
  dsimp only
  rw [locatedSize]
  rcases hsize with hsize | hsize
  · -- sized by the code
    rw [hsize]
    dsimp only
    rw [hto]
    exact iff_of_true rfl fun h => by simp at h
  · -- sized by TDH
    obtain ⟨first, size, hfirst, hanswer, hnat⟩ :=
      exists_tdhByName hown hslice
    have htdh' : P.tdh [] slice.property = .ok size := (congrFun (congrFun htdh []) _).trans hanswer
    rw [hsize]
    dsimp only
    rw [htdh']
    dsimp only
    rw [hnat, hfirst]
    constructor
    · intro hloc _ first' hfirst'
      obtain rfl := Option.some.inj hfirst'
      cases hget : remaining.getTo first.buffer.len with
      | none =>
        rw [hget] at hloc
        contradiction
      | some buffer =>
        rw [hget] at hloc
        rw [← Except.ok.inj hloc]
        exact (Slice.len_of_getTo hget).symm
    · intro hsame
      rw [hsame rfl first rfl, hto]

end Named

/-- **Same-named properties and TDH.** TDH answers for the first property of a name, and the slices
`own` are the true bytes of the first properties of the event, of all of them if the event is
complete. After any history of calls, every position is answered by its own bytes if and only if
each property whose size is asked of TDH has the size of the first one of its name. -/
theorem same_named_bytes_iff (target : Target) (record : EventRecord) (schema : Schema)
    (own : List PropertySlice) (unknown : Property → Except TdhNativeError UInt32)
    (calls : List Call) :
    let P := Parser.create target (fun _ => tdhByName own unknown) record schema
    let dataStart := propertyValuesStart record schema
    let s := CallMachine.after P.call (Parser.createState record schema) calls
    (∀ i (h : i < own.length), OwnBytes P dataStart (own.take i) own[i]) →
      ((∀ i (h : i < own.length), (P.propertyBytesAt i s).1 = .ok own[i].buffer) ↔
        ∀ i (h : i < own.length), NeedsTdh P dataStart (own.take i) own[i].property →
          ∀ first, own.find? (named own[i].property.name) = some first →
            first.buffer.len = own[i].buffer.len) := by
  intro P dataStart s hown
  have hanswer : ∀ i, (P.propertyBytesAt i s).1 =
      bytesAnswer (canonicalWalk P dataStart).located (canonicalWalk P dataStart).stop i :=
    propertyBytesAt_after target (tdhByName own unknown) record schema calls
  have hprop : ∀ i (h : i < own.length), P.properties[i]? = some own[i].property := by
    intro i h
    have hi := (hown i h).1
    rwa [List.length_take_of_le (Nat.le_of_lt h)] at hi
  have hlen : ∀ slice ∈ own, slice.buffer.len < 2 ^ 32 := by
    intro slice hslice
    obtain ⟨i, h, rfl⟩ := List.getElem_of_mem hslice
    exact (hown i h).len_lt
  simp only [hanswer]
  rw [← isPrefix_canonicalWalk_iff_bytesAnswer _ hprop, isPrefix_canonicalWalk_iff hprop]
  refine forall₂_congr fun i h => ?_
  exact locate_eq_own_iff rfl hlen (List.getElem_mem h) (hown i h)

/-- Two structures of one name, each around a string of two characters, and a number. -/
theorem same_named_bytes_iff_alike :
    let item : Property := ⟨"Item", .struct [⟨"Text", .value .inTypeAnsiString .outTypeNull
      (.length 0)⟩]⟩
    let number : Property := ⟨"Number", .value .inTypeUInt16 .outTypeNull (.length 0)⟩
    let record : EventRecord := ⟨0, 0, [97, 98, 0, 99, 100, 0, 7, 0], by decide, []⟩
    let schema : Schema := ⟨.decodingSourceXMLFile, [item, item, number]⟩
    let own : List PropertySlice :=
      [⟨item, ⟨0, [97, 98, 0]⟩⟩, ⟨item, ⟨3, [99, 100, 0]⟩⟩, ⟨number, ⟨6, [7, 0]⟩⟩]
    let P := Parser.create ⟨.b64, true⟩ (fun _ => tdhByName own fun _ => .error .allocationError)
      record schema
    let s := Parser.createState record schema
    (P.propertyBytesAt 0 s).1 = .ok ⟨0, [97, 98, 0]⟩ ∧
      (P.propertyBytesAt 1 s).1 = .ok ⟨3, [99, 100, 0]⟩ ∧
      (P.propertyBytesAt 2 s).1 = .ok ⟨6, [7, 0]⟩ := by
  intro item number record schema own P s
  suffices hall : ∀ i (h : i < own.length), (P.propertyBytesAt i s).1 = .ok own[i].buffer from
    ⟨hall 0 (by decide), hall 1 (by decide), hall 2 (by decide)⟩
  refine (same_named_bytes_iff ⟨.b64, true⟩ record schema own (fun _ => .error .allocationError) []
    ?_).mpr ?_
  · intro i h
    rcases i with _ | _ | _ | i
    · exact ⟨rfl, 0, ⟨0, record.userBuffer⟩, rfl, rfl, rfl, Or.inr rfl⟩
    · exact ⟨rfl, 0, ⟨3, record.userBuffer.drop 3⟩, rfl, rfl, rfl, Or.inr rfl⟩
    · exact ⟨rfl, 0, ⟨6, record.userBuffer.drop 6⟩, rfl, rfl, rfl, Or.inl rfl⟩
    · exact absurd h (Nat.not_lt.mpr (Nat.le_add_left 3 i))
  · intro i h _ first hfirst
    rcases i with _ | _ | _ | i
    · rw [← Option.some.inj hfirst]
      rfl
    · rw [← Option.some.inj hfirst]
      rfl
    · rw [← Option.some.inj hfirst]
      rfl
    · exact absurd h (Nat.not_lt.mpr (Nat.le_add_left 3 i))

/-- The same with a string of one character in the second structure: it is sized like the first,
takes a byte of the number with it, and the number is not located. -/
theorem same_named_bytes_shifted :
    let item : Property := ⟨"Item", .struct [⟨"Text", .value .inTypeAnsiString .outTypeNull
      (.length 0)⟩]⟩
    let number : Property := ⟨"Number", .value .inTypeUInt16 .outTypeNull (.length 0)⟩
    let record : EventRecord := ⟨0, 0, [97, 98, 0, 99, 0, 7, 0], by decide, []⟩
    let schema : Schema := ⟨.decodingSourceXMLFile, [item, item, number]⟩
    let own : List PropertySlice :=
      [⟨item, ⟨0, [97, 98, 0]⟩⟩, ⟨item, ⟨3, [99, 0]⟩⟩, ⟨number, ⟨5, [7, 0]⟩⟩]
    let P := Parser.create ⟨.b64, true⟩ (fun _ => tdhByName own fun _ => .error .allocationError)
      record schema
    let s := Parser.createState record schema
    (∀ i (h : i < own.length), OwnBytes P (some 0) (own.take i) own[i]) ∧
      NeedsTdh P (some 0) (own.take 1) item ∧
      (P.propertyBytesAt 1 s).1 = .ok ⟨3, [99, 0, 7]⟩ ∧
      (P.propertyBytesAt 2 s).1 =
        .error (.error (.propertyError "Property length out of buffer bounds")) := by
  intro item number record schema own P s
  refine ⟨?_, ⟨0, ⟨3, record.userBuffer.drop 3⟩, rfl, rfl, rfl⟩, rfl, rfl⟩
  intro i h
  rcases i with _ | _ | _ | i
  · exact ⟨rfl, 0, ⟨0, record.userBuffer⟩, rfl, rfl, rfl, Or.inr rfl⟩
  · exact ⟨rfl, 0, ⟨3, record.userBuffer.drop 3⟩, rfl, rfl, rfl, Or.inr rfl⟩
  · exact ⟨rfl, 0, ⟨5, record.userBuffer.drop 5⟩, rfl, rfl, rfl, Or.inl rfl⟩
  · exact absurd h (Nat.not_lt.mpr (Nat.le_add_left 3 i))

end Ferrisetw2
