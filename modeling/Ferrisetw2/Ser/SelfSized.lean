import Ferrisetw2.Parser.Strings
import Ferrisetw2.Ser.ContentSized

/-!
# Self-sized values

A counted string or binary, a hexdump and a SID say themselves how long they are. Three pieces of
code read what they say: the walk of the parser and the member walk of the serializer to find the
end of the value, and the decoder once more, from the bytes the value was located at. `DecodesWhole`
is the agreement of the three: the decoder finds the count again, and reads the slice to its end.

## Main definitions

* `SelfSized` — the in types
* `DecodesWhole` — decoding reads the slice that sizing cut out

## Main results

* `self_sized_decode_iff` — when decoding reads the slice that sizing cut out
-/

namespace Ferrisetw2

open Rust

/-! ### The agreement -/

/-- A SID that is there goes to the system as it is. -/
theorem parseSid_of_le {t : Target} {N : Natives} {bytes : List UInt8} {subAuthorityCount : UInt8}
    (hget : bytes[1]? = some subAuthorityCount)
    (hroom : 8 + 4 * subAuthorityCount.toNat ≤ bytes.length) :
    parseSid t N bytes =
      match N.convertSidToString bytes with
      | .error e => .error (.sddlNativeError e)
      | .ok s => .ok s := by
  simp only [parseSid, hget, Option.elim_some]
  exact if_neg (Nat.not_lt.mpr hroom)

/-- The counted strings and binaries, hexdumps and SIDs. -/
def SelfSized (inType : TdhInType) : Prop :=
  Counted inType ∨ ReversedCounted inType ∨ inType = .inTypeHexDump ∨ SidLike inType

/-- Decoding reads the slice to its end: the count in front is that of the rest, which is the
payload decoded, or the header of the SID says how long the slice is. -/
def DecodesWhole (t : Target) (N : Natives) (inType : TdhInType) (slice : PropertySlice) : Prop :=
  let bytes := slice.buffer.bytes
  match inType with
  | .inTypeManifestCountedString | .inTypeCountedString =>
    ∃ payload, CountPrefixed 2 leValue bytes payload ∧
      tryParseString t N slice = .ok (N.decodeUtf16Lossy (codeUnits payload))
  | .inTypeReversedCountedString =>
    ∃ payload, CountPrefixed 2 beValue bytes payload ∧
      tryParseString t N slice = .ok (N.decodeUtf16Lossy (codeUnits payload))
  | .inTypeManifestCountedAnsiString | .inTypeCountedAnsiString =>
    ∃ payload, CountPrefixed 2 leValue bytes payload ∧ tryParseString t N slice = fromUtf8 payload
  | .inTypeReversedCountedAnsiString =>
    ∃ payload, CountPrefixed 2 beValue bytes payload ∧ tryParseString t N slice = fromUtf8 payload
  | .inTypeManifestCountedBinary =>
    ∃ payload, CountPrefixed 2 leValue bytes payload ∧ tryParseBytes t slice = .ok payload
  | .inTypeHexDump =>
    ∃ payload, CountPrefixed 4 leValue bytes payload ∧ tryParseBytes t slice = .ok payload
  | .inTypeSid | .inTypeWbemSid =>
    ∃ subAuthorityCount, bytes[1]? = some subAuthorityCount ∧
      8 + 4 * subAuthorityCount.toNat = bytes.length ∧
      tryParseString t N slice =
        match N.convertSidToString bytes with
        | .error e => .error (.sddlNativeError e)
        | .ok s => .ok s
  | _ => False

theorem SelfSized.isContentSized {inType : TdhInType} (h : SelfSized inType) :
    inType.isContentSized = true := by
  unfold SelfSized Counted ReversedCounted SidLike at h
  cases inType <;> first | rfl | simp at h

/-- A value cut out by its exact size is decoded whole. -/
theorem decodesWhole_of_exact {t : Target} (N : Natives) {inType : TdhInType}
    {outType : TdhOutType} {remaining : List UInt8} {n : ℕ} (hself : SelfSized inType)
    (h : exactContentSize inType outType remaining = some n) (hroom : n ≤ remaining.length)
    (hn : n ≤ t.usizeMax) (name : String) (length : PropertyLength) (start : ℕ) :
    DecodesWhole t N inType
      ⟨⟨name, .value inType outType length⟩, ⟨start, remaining.take n⟩⟩ := by
  cases inType with
  | inTypeManifestCountedString | inTypeCountedString =>
    obtain ⟨count, hcount, rfl⟩ := Option.map_eq_some_iff.mp h
    obtain ⟨payload, hpayload⟩ := exists_countPrefixed hcount hroom
    exact ⟨payload, hpayload, parseCountedString_of_countPrefixed true false hpayload⟩
  | inTypeReversedCountedString =>
    obtain ⟨count, hcount, rfl⟩ := Option.map_eq_some_iff.mp h
    obtain ⟨payload, hpayload⟩ := exists_countPrefixed hcount hroom
    exact ⟨payload, hpayload, parseCountedString_of_countPrefixed true true hpayload⟩
  | inTypeManifestCountedAnsiString | inTypeCountedAnsiString =>
    obtain ⟨count, hcount, rfl⟩ := Option.map_eq_some_iff.mp h
    obtain ⟨payload, hpayload⟩ := exists_countPrefixed hcount hroom
    exact ⟨payload, hpayload, parseCountedString_of_countPrefixed false false hpayload⟩
  | inTypeReversedCountedAnsiString =>
    obtain ⟨count, hcount, rfl⟩ := Option.map_eq_some_iff.mp h
    obtain ⟨payload, hpayload⟩ := exists_countPrefixed hcount hroom
    exact ⟨payload, hpayload, parseCountedString_of_countPrefixed false true hpayload⟩
  | inTypeManifestCountedBinary | inTypeHexDump =>
    obtain ⟨count, hcount, rfl⟩ := Option.map_eq_some_iff.mp h
    obtain ⟨payload, hpayload⟩ := exists_countPrefixed hcount hroom
    refine ⟨payload, hpayload, countPrefixedBinary_of_countPrefixed hpayload ?_⟩
    rw [← length_of_countPrefixed hpayload, List.length_take_of_le hroom]
    exact hn
  | inTypeSid | inTypeWbemSid =>
    obtain ⟨subAuthorityCount, hget, rfl⟩ := Option.map_eq_some_iff.mp h
    have hlen : (remaining.take (8 + 4 * subAuthorityCount.toNat)).length =
        8 + 4 * subAuthorityCount.toNat := List.length_take_of_le hroom
    have hget' : (remaining.take (8 + 4 * subAuthorityCount.toNat))[1]? =
        some subAuthorityCount := by
      rw [List.getElem?_take_of_lt (by omega)]
      exact hget
    exact ⟨subAuthorityCount, hget', hlen.symm, parseSid_of_le hget' (le_of_eq hlen.symm)⟩
  | _ => exact absurd hself (by simp [SelfSized, Counted, ReversedCounted, SidLike])

/-- What sizing computed, on either route, is the size of the content. -/
theorem sizeFromContent_of_sized {t : Target} {pointerSize : ℕ} {name : String}
    {inType : TdhInType} {outType : TdhOutType} {length : PropertyLength}
    {parsed : List PropertySlice} {remaining : List UInt8} {n : ℕ} (hself : SelfSized inType)
    (h : findPropertySize t pointerSize ⟨name, .value inType outType length⟩ parsed remaining =
        .ok (.size n) ∨
      variableMemberSize t ⟨name, .value inType outType length⟩ remaining = .ok (some n)) :
    sizeFromContent t inType outType remaining = .ok (.size n) := by
  have hc := hself.isContentSized
  rcases h with h | h
  · simp only [findPropertySize, valueSize, isPointer_of_isContentSized hc, hc] at h
    cases length <;> simpa using h
  · unfold variableMemberSize at h
    cases length with
    | index i => cases h
    | length l =>
      dsimp only at h
      split at h
      · exact (sizeFromContent_of_variableValueSize h outType).2
      · cases h

/-- The size of a hexdump that is no `usize` wraps to less than the four bytes of its count. -/
theorem lt_four_of_wraps {t : Target} {outType : TdhOutType} {remaining count : List UInt8}
    {n : ℕ} (hcount : take? 4 remaining = some count) (hwraps : t.usizeMax < 4 + leValue count)
    (h : sizeFromContent t .inTypeHexDump outType remaining = .ok (.size n)) : n < 4 := by
  have hlt := leValue_lt count
  have hge := t.usizeMax_ge
  rw [length_of_take? hcount] at hlt
  simp only [sizeFromContent, hcount] at h
  obtain ⟨size, hadd, hsize⟩ := bind_eq_ok_iff.mp h
  cases hsize
  rw [Target.add, if_neg (Nat.not_le.mpr hwraps)] at hadd
  split at hadd
  · contradiction
  · have hn : (4 + leValue count) % (t.usizeMax + 1) = n := Except.ok.inj hadd
    rw [Nat.mod_eq_sub_mod (by omega), Nat.mod_eq_of_lt (by omega)] at hn
    omega

/-- **When decoding reads the slice that sizing cut out.** Of a self-sized value that either walk
has sized, and whose bytes are there: decoding reads the slice to its end, and the count that sized
it, if and only if the value is no hexdump whose prefix and count exceed `usize::MAX`. -/
theorem self_sized_decode_iff (t : Target) (N : Natives) (pointerSize : ℕ) (name : String)
    (inType : TdhInType) (hself : SelfSized inType) (outType : TdhOutType)
    (length : PropertyLength) (parsed : List PropertySlice) (remaining : List UInt8)
    (start n : ℕ) (hlen : remaining.length ≤ t.isizeMax)
    (h : findPropertySize t pointerSize ⟨name, .value inType outType length⟩ parsed remaining =
        .ok (.size n) ∨
      variableMemberSize t ⟨name, .value inType outType length⟩ remaining = .ok (some n))
    (hroom : n ≤ remaining.length) :
    DecodesWhole t N inType
        ⟨⟨name, .value inType outType length⟩, ⟨start, remaining.take n⟩⟩ ↔
      HexFits t.usizeBits ⟨name, .value inType outType length⟩ remaining := by
  have hrem : remaining.length ≤ t.usizeMax := le_trans hlen t.isizeMax_le
  have hsize := sizeFromContent_of_sized hself h
  cases hexact : exactContentSize inType outType remaining with
  | none =>
    obtain ⟨r, hr, hno⟩ := sizeFromContent_of_exact_none (t := t) hexact
    rw [hsize] at hr
    exact absurd (Except.ok.inj hr).symm (hno n)
  | some m =>
    by_cases hm : m ≤ t.usizeMax
    · have hn : n = m := by
        have := sizeFromContent_of_exact hexact hm
        rw [hsize] at this
        simpa using this
      subst hn
      refine iff_of_true (decodesWhole_of_exact N hself hexact hroom hm name length start) ?_
      rintro _ _ count ⟨⟩ hcount
      have hmap : exactContentSize .inTypeHexDump outType remaining = some (4 + leValue count) := by
        rw [exactContentSize, hcount, Option.map_some]
      obtain rfl := Option.some.inj (hexact.symm.trans hmap)
      exact hm
    · -- no size but that of a hexdump leaves the word
      obtain rfl : inType = .inTypeHexDump := by
        by_contra hne
        exact hm (exactContentSize_le hrem (fun count heq => absurd heq hne) hexact)
      obtain ⟨count, hcount, rfl⟩ := Option.map_eq_some_iff.mp hexact
      refine iff_of_false ?_ (fun hfits => hm (hfits outType length count rfl hcount))
      rintro ⟨payload, hpayload, -⟩
      have hwhole := length_of_countPrefixed hpayload
      have hwraps := lt_four_of_wraps hcount (Nat.not_le.mp hm) hsize
      rw [List.length_take_of_le hroom] at hwhole
      omega

/-- A counted string of one character with two bytes behind it, as a structure member. -/
theorem self_sized_decode_iff_counted :
    let slice : PropertySlice :=
      ⟨⟨"Text", .value .inTypeReversedCountedString .outTypeNull (.length 0)⟩, ⟨0, [0, 2, 72, 0]⟩⟩
    let N : Natives := ⟨fun units => String.ofList (units.map fun u => Char.ofNat u.toNat),
      fun _ => .error .sidParseError⟩
    DecodesWhole ⟨.b32, false⟩ N .inTypeReversedCountedString slice ↔
      HexFits .b32 slice.property [0, 2, 72, 0, 7, 7] := by
  exact self_sized_decode_iff ⟨.b32, false⟩ _ 4 "Text" .inTypeReversedCountedString
    (Or.inr (Or.inl (Or.inl rfl))) .outTypeNull (.length 0) [] [0, 2, 72, 0, 7, 7] 0 4 (by decide)
    (Or.inr rfl) (by decide)

/-- A hexdump whose count and prefix add up to `2 ^ 32 + 1`, in a build for 32 bits that wraps: one
byte is located, on both routes, and decoding does not find the count there. -/
theorem hexdump_decode_truncated :
    let t : Target := ⟨.b32, false⟩
    let dump : Property := ⟨"Dump", .value .inTypeHexDump .outTypeNull (.length 0)⟩
    findPropertySize t 4 dump [] [253, 255, 255, 255] = .ok (.size 1) ∧
      variableMemberSize t dump [253, 255, 255, 255] = .ok (some 1) ∧
      tryParseBytes t ⟨dump, ⟨0, [253]⟩⟩ =
        .error (.error (.propertyError "counted binary does not have length")) := by
  exact ⟨rfl, rfl, rfl⟩

end Ferrisetw2
