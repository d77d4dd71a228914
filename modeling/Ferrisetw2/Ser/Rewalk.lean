import Ferrisetw2.Parser.Truncation
import Ferrisetw2.Ser.MemberWalk

/-!
# Walking an element twice

`StructArraySer::serialize` walks the members of an element twice: over the whole array, to find
where the element ends, and then over the element alone, to write them. The second walk sees fewer
bytes. A member is sized from a prefix of the bytes at its offset, so the two walks agree, but for
one case: a hexdump whose count is so large that its size leaves the word. In a build that wraps the
size is then smaller than the prefix it was read from, and the element may end before the prefix.

## Main definitions

* `HexRoom` — the prefix of such a hexdump is still within the element

## Main results

* `memberBuffer_rewalk` — a member within the element is located there at the same place
* `rewalk_iff` — when the two walks agree
* `structSer_rewalk` — an element is written from the slices of the walk over the array
-/

namespace Ferrisetw2

open Rust

/-! ### One member -/

/-- A size read from the leading bytes does not depend on bytes beyond it. -/
theorem variableMemberSize_take {t : Target} {member : Property} {remaining : List UInt8} {n k : ℕ}
    (hlen : remaining.length ≤ t.usizeMax)
    (hsafe : HexFits t.usizeBits member remaining ∨ 4 ≤ k)
    (h : variableMemberSize t member remaining = .ok (some n)) (hn : n ≤ k)
    (hk : k ≤ remaining.length) :
    variableMemberSize t member (remaining.take k) = .ok (some n) := by
  unfold variableMemberSize at h ⊢
  split at h
  · rename_i inType outType l hinfo
    split at h
    · rename_i hl
      rw [if_pos hl]
      obtain ⟨-, hnone⟩ | ⟨hleading, -⟩ := variableValueSize_eq t inType outType remaining
      · rw [h] at hnone
        cases hnone
      obtain ⟨-, hcontent⟩ := sizeFromContent_of_variableValueSize h outType
      have htake : sizeFromContent t inType outType (remaining.take k) = .ok (.size n) := by
        by_cases hrest : SpansRest inType
        · -- the remaining bytes end with the element
          have hall : n = remaining.length := by
            obtain rfl | rfl := hrest <;> (cases hcontent; rfl)
          rw [List.take_of_length_le (by omega)]
          exact hcontent
        · rw [← List.take_append_drop k remaining] at hcontent hlen
          refine sizeFromContent_of_append hrest hlen ?_ hcontent ?_
          · rintro rfl
            rw [List.length_take_of_le hk, List.take_append_drop]
            obtain hfits | hfour := hsafe
            · exact Or.inr fun count hcount => hfits outType (.length l) count hinfo hcount
            · exact Or.inl hfour
          · rw [List.length_take_of_le hk]
            exact hn
      obtain ⟨hnot, -⟩ | ⟨-, hvariable⟩ :=
        variableValueSize_eq t inType outType (remaining.take k)
      · exact absurd hleading hnot
      · rw [hvariable, htake]
        rfl
    · cases h
  · cases h

/-- **A member within an element is located there**, at the same place. -/
theorem memberBuffer_rewalk {t : Target} {pointerSize : ℕ} {member : Property}
    {bytes element buffer : Slice} {start stop o : ℕ} (hlen : bytes.len ≤ t.usizeMax)
    (helement : bytes.getRange start stop = some element)
    (hsafe : HexFits t.usizeBits member (bytes.bytes.drop (start + o)) ∨ start + o + 4 ≤ stop)
    (h : memberBuffer t pointerSize member bytes (start + o) =
      .ok (some (buffer, start + o + buffer.len)))
    (hstop : start + o + buffer.len ≤ stop) :
    memberBuffer t pointerSize member element o = .ok (some (buffer, o + buffer.len)) := by
  obtain ⟨remaining, hsize, hfrom, hto, -⟩ := memberBuffer_eq_some h
  have hstoplen : stop ≤ bytes.len := (Slice.getRange_eq_some_iff.mp helement).1.2
  have helementlen := Slice.len_of_getRange helement
  have hremaining := Slice.len_of_getFrom hfrom
  have hfrom' := Slice.getFrom_of_getRange helement hfrom (by omega)
  have hto' := Slice.getTo_take hto (show buffer.len ≤ stop - (start + o) by omega)
  refine memberBuffer_of_memberSize (by omega) hfrom' hto' ?_
  obtain ⟨fixed, hfixed, hsize⟩ := bind_eq_ok_iff.mp hsize
  rw [memberSize, hfixed, bind_ok]
  cases fixed with
  | some size => exact hsize
  | none =>
    simp only [hfrom] at hsize
    simp only [hfrom']
    rw [Slice.len] at hremaining
    refine variableMemberSize_take (by omega) ?_ hsize (by omega) (by omega)
    obtain ⟨-, rfl⟩ := Slice.getFrom_eq_some_iff.mp hfrom
    obtain hfits | hroom := hsafe
    · exact Or.inl hfits
    · exact Or.inr (by omega)

/-- A hexdump without its prefix is not located. -/
theorem memberBuffer_of_short_hexdump {t : Target} {pointerSize : ℕ} {member : Property}
    {outType : TdhOutType} {length : PropertyLength} {bytes remaining : Slice} {offset : ℕ}
    (hinfo : member.info = .value .inTypeHexDump outType length)
    (hfrom : bytes.getFrom offset = some remaining) (hshort : remaining.len < 4) :
    memberBuffer t pointerSize member bytes offset = .ok none := by
  obtain ⟨name, info⟩ := member
  obtain rfl : info = .value .inTypeHexDump outType length := hinfo
  have hexact : exactValueSize pointerSize .inTypeHexDump length = none := by
    cases length with
    | index i => rfl
    | length l =>
      simp [exactValueSize, TdhInType.isPointer, TdhInType.isContentSized, TdhInType.fixedSize]
  refine memberBuffer_of_memberSize_none ?_
  rw [memberSize_of_exactValueSize_none hexact hfrom]
  have hnone : take? 4 remaining.bytes = none := if_neg (Nat.not_le.mpr hshort)
  cases length with
  | index i => rfl
  | length l =>
    simp only [variableMemberSize, variableValueSize, hnone, ite_self]

/-- **A hexdump whose prefix lies beyond the element** is not located there. -/
theorem memberBuffer_rewalk_eq_none {t : Target} {pointerSize : ℕ} {member : Property}
    {bytes element : Slice} {start stop o : ℕ}
    (helement : bytes.getRange start stop = some element)
    (hlost : ¬ (HexFits t.usizeBits member (bytes.bytes.drop (start + o)) ∨
      start + o + 4 ≤ stop)) (hstop : start + o ≤ stop) :
    memberBuffer t pointerSize member element o = .ok none := by
  rw [not_or, HexFits] at hlost
  obtain ⟨hhex, hshort⟩ := hlost
  push Not at hhex
  obtain ⟨outType, length, count, hinfo, -, -⟩ := hhex
  have helementlen := Slice.len_of_getRange helement
  have hfrom : element.getFrom o = some ⟨element.start + o, element.bytes.drop o⟩ :=
    Slice.getFrom_eq_some_iff.mpr ⟨by omega, rfl⟩
  have hremaining := Slice.len_of_getFrom hfrom
  exact memberBuffer_of_short_hexdump hinfo hfrom (by omega)

/-! ### All members -/

/-- Every hexdump met from this offset on, whose count and prefix together are no `usize`, has its
prefix within the element that ends at `stop`. -/
def HexRoom (t : Target) (pointerSize : ℕ) (bytes : Slice) (stop : ℕ) : List Property → ℕ → Prop
  | [], _ => True
  | member :: members, offset =>
    (HexFits t.usizeBits member (bytes.bytes.drop offset) ∨ offset + 4 ≤ stop) ∧
      ∀ buffer next, memberBuffer t pointerSize member bytes offset = .ok (some (buffer, next)) →
        HexRoom t pointerSize bytes stop members next

/-- The end of a walk that locates every member: at or past its start, and within the bytes. -/
theorem memberWalk_stop {t : Target} {pointerSize : ℕ} {bytes : Slice}
    (hlen : bytes.len ≤ t.usizeMax) : ∀ {members : List Property} {offset stop : ℕ},
      (memberWalk t pointerSize bytes members offset).2 = .ok (some stop) →
      offset ≤ stop ∧ ((members = [] → offset ≤ bytes.len) → stop ≤ bytes.len) ∧
        (memberWalk t pointerSize bytes members offset).1.length = members.length
  | [], offset, stop, h => by
    cases h
    exact ⟨Nat.le_refl _, fun hstart => hstart rfl, rfl⟩
  | member :: members, offset, stop, h => by
    rw [memberWalk] at h ⊢
    cases hbuffer : memberBuffer t pointerSize member bytes offset with
    | error p =>
      rw [hbuffer] at h
      contradiction
    | ok located =>
      cases located with
      | none =>
        rw [hbuffer] at h
        cases h
      | some found =>
        obtain ⟨buffer, next⟩ := found
        simp only [hbuffer] at h ⊢
        obtain ⟨-, hnext, hle⟩ := getRange_of_memberBuffer hlen hbuffer
        obtain ⟨hstop, hin, hcount⟩ := memberWalk_stop hlen h
        exact ⟨by omega, fun _ => hin fun _ => hle, congrArg (· + 1) hcount⟩

/-- The walk over an element, from an offset within it, against the walk over the whole. -/
theorem memberWalk_rewalk_iff {t : Target} {pointerSize : ℕ} {bytes element : Slice}
    {start stop : ℕ} (hlen : bytes.len ≤ t.usizeMax)
    (helement : bytes.getRange start stop = some element) : ∀ {members : List Property} {o : ℕ},
      (memberWalk t pointerSize bytes members (start + o)).2 = .ok (some stop) →
      (memberWalk t pointerSize element members o =
          ((memberWalk t pointerSize bytes members (start + o)).1, .ok (some element.len)) ↔
        HexRoom t pointerSize bytes stop members (start + o))
  | [], o, h => by
    cases h
    have helementlen := Slice.len_of_getRange helement
    rw [Nat.add_sub_cancel_left] at helementlen
    rw [helementlen]
    exact ⟨fun _ => trivial, fun _ => rfl⟩
  | member :: members, o, h => by
    have hstop := (memberWalk_stop hlen h).1
    rw [memberWalk] at h
    rw [HexRoom]
    nth_rewrite 2 [memberWalk]
    cases hbuffer : memberBuffer t pointerSize member bytes (start + o) with
    | error p =>
      rw [hbuffer] at h
      contradiction
    | ok located =>
      cases located with
      | none =>
        rw [hbuffer] at h
        cases h
      | some found =>
        obtain ⟨buffer, next⟩ := found
        simp only [hbuffer] at h ⊢
        obtain ⟨-, rfl, hle⟩ := getRange_of_memberBuffer hlen hbuffer
        have hnext := (memberWalk_stop hlen h).1
        rw [Nat.add_assoc] at h
        have ih := memberWalk_rewalk_iff hlen helement h
        rw [← Nat.add_assoc] at ih
        by_cases hsafe : HexFits t.usizeBits member (bytes.bytes.drop (start + o)) ∨
            start + o + 4 ≤ stop
        · rw [memberWalk, memberBuffer_rewalk hlen helement hsafe hbuffer hnext]
          dsimp only
          constructor
          · intro heq
            obtain ⟨hslices, hend⟩ := Prod.mk.inj heq
            refine ⟨hsafe, fun buffer' next' heq' => ?_⟩
            cases heq'
            exact ih.mp (Prod.ext (List.cons.inj hslices).2 hend)
          · rintro ⟨-, hroom⟩
            rw [ih.mpr (hroom _ _ rfl)]
        · rw [memberWalk, memberBuffer_rewalk_eq_none helement hsafe (by omega)]
          exact iff_of_false (by simp) fun hroom => hsafe hroom.1

/-- **When an element is walked twice alike.** Where the walk over the array finds the end of an
element, this lies at or past its start and within the bytes, and the walk over the element alone
locates every member at the same bytes and ends where the element ends. That holds if and only if
the start lies within the bytes, or there is a member to show that it does, and every hexdump whose
size leaves the word has its prefix within the element. -/
theorem rewalk_iff (t : Target) (pointerSize : ℕ) (members : List Property) (bytes : Slice)
    (start stop : ℕ) (hlen : bytes.len ≤ t.isizeMax)
    (hend : elementEnd t pointerSize bytes members start = .ok (some stop)) :
    (start ≤ stop ∧ stop ≤ bytes.len ∧ ∃ element, bytes.getRange start stop = some element ∧
      (memberWalk t pointerSize bytes members start).1.length = members.length ∧
      memberWalk t pointerSize element members 0 =
        ((memberWalk t pointerSize bytes members start).1, .ok (some element.len))) ↔
      (members = [] → start ≤ bytes.len) ∧ HexRoom t pointerSize bytes stop members start := by
  rw [elementEnd_eq_memberWalk] at hend
  have hmax := Nat.le_trans hlen t.isizeMax_le
  obtain ⟨hle, hin, hcount⟩ := memberWalk_stop hmax hend
  constructor
  · rintro ⟨-, hstop, element, helement, -, hwalk⟩
    exact ⟨fun _ => by omega, (memberWalk_rewalk_iff (o := 0) hmax helement hend).mp hwalk⟩
  · rintro ⟨hstart, hroom⟩
    obtain ⟨element, helement⟩ : ∃ element, bytes.getRange start stop = some element :=
      ⟨_, Slice.getRange_eq_some_iff.mpr ⟨⟨hle, hin hstart⟩, rfl⟩⟩
    exact ⟨hle, hin hstart, element, helement, hcount,
      (memberWalk_rewalk_iff (o := 0) hmax helement hend).mpr hroom⟩

/-- An element of a terminated string, a counted one, and the bytes that remain. -/
theorem rewalk_iff_strings :
    let string (inType : TdhInType) : Property :=
      ⟨"Member", .value inType .outTypeNull (.length 0)⟩
    let members := [string .inTypeAnsiString, string .inTypeCountedAnsiString,
      string .inTypeNonNullTerminatedAnsiString]
    let bytes : Slice := ⟨0, [9, 104, 105, 0, 2, 0, 65, 66, 67]⟩
    (1 ≤ 9 ∧ 9 ≤ bytes.len ∧ ∃ element, bytes.getRange 1 9 = some element ∧
      (memberWalk ⟨.b32, true⟩ 4 bytes members 1).1.length = members.length ∧
      memberWalk ⟨.b32, true⟩ 4 element members 0 =
        ((memberWalk ⟨.b32, true⟩ 4 bytes members 1).1, .ok (some element.len))) ↔
      (members = [] → 1 ≤ bytes.len) ∧ HexRoom ⟨.b32, true⟩ 4 bytes 9 members 1 := by
  intro string members bytes
  exact rewalk_iff ⟨.b32, true⟩ 4 members bytes 1 9 (by decide) rfl

/-- A hexdump whose count and prefix add up to `2 ^ 32 + 1`, in a build for 32 bits that wraps: the
element is its first byte, and the walk over that does not find the count. -/
theorem rewalk_loses_hexdump :
    let dump : Property := ⟨"Dump", .value .inTypeHexDump .outTypeNull (.length 0)⟩
    let bytes : Slice := ⟨0, [253, 255, 255, 255]⟩
    elementEnd ⟨.b32, false⟩ 4 bytes [dump] 0 = .ok (some 1) ∧
      bytes.getRange 0 1 = some ⟨0, [253]⟩ ∧
      memberWalk ⟨.b32, false⟩ 4 bytes [dump] 0 = ([⟨0, [253]⟩], .ok (some 1)) ∧
      memberWalk ⟨.b32, false⟩ 4 ⟨0, [253]⟩ [dump] 0 = ([], .ok none) := by
  decide +kernel

/-- An element that is walked twice alike is written from the slices of the first walk. -/
theorem structSer_rewalk {P : Parser} (N : Natives) (strict : Bool) {members : List Property}
    {bytes element : Slice} {start stop : ℕ} (hlen : bytes.len ≤ P.target.usizeMax)
    (helement : bytes.getRange start stop = some element)
    (hend : elementEnd P.target P.record.pointerSize bytes members start = .ok (some stop))
    (hroom : HexRoom P.target P.record.pointerSize bytes stop members start) (map : SerMap)
    (s : ParserState) :
    structSer P N strict element members 0 map s =
      serLocated P N strict (.ok (some element.len)) members
        (memberWalk P.target P.record.pointerSize bytes members start).1 map s := by
  rw [elementEnd_eq_memberWalk] at hend
  have hwalk := (memberWalk_rewalk_iff (o := 0) hlen helement hend).mpr hroom
  rw [structSer_eq_serLocated, hwalk]
  rfl

end Ferrisetw2
