import Ferrisetw2.Native.Evntrace
import Ferrisetw2.Native.ExtendedItems

/-!
# GUIDs in memory and as text

In memory a GUID is three little-endian numbers and eight bytes. As text it is its 32 digits, most
significant first, in groups of 8, 4, 4, 4 and 12 with hyphens between them. The serializer writes
the text into a buffer of 36 bytes, digit by digit. `ser.rs`.

## Main definitions

* `guidToAsciiUpper` — the text, written
* `readGuidText` — the text, read

## Main results

* `guidOfBytes_bytes` — a GUID is read back from memory
* `guidToAsciiUpper_eq` — no index is out of bounds, and the buffer is filled
* `guidToAsciiUpper_reads` — **a GUID is read back from its text**
-/

namespace Ferrisetw2

open Rust

/-! ### Memory -/

@[simp] theorem Guid.length_bytes (guid : Guid) : guid.bytes.length = 16 := by
  simp only [Guid.bytes, List.length_append, length_leBytes, guid.length_data4]

theorem range_append_left {xs ys : List UInt8} {n : ℕ} (h : xs.length = n) :
    range 0 n (xs ++ ys) = xs := by
  rw [range, List.take_left' h, List.drop_zero]

theorem range_append_right {xs ys : List UInt8} {n a b : ℕ} (h : xs.length = n) :
    range (n + a) (n + b) (xs ++ ys) = range a b ys := by
  rw [range, range, ← h, List.take_length_add_append, ← List.drop_drop, List.drop_left]

/-- **A GUID is read back from memory.** -/
theorem guidOfBytes_bytes (guid : Guid) : guidOfBytes guid.bytes = guid := by
  have h4 := length_leBytes 4 guid.data1.toNat
  have h2 := length_leBytes 2 guid.data2.toNat
  have h2' := length_leBytes 2 guid.data3.toNat
  have hdata4 : range 8 16 guid.bytes = guid.data4 := by
    rw [Guid.bytes, range, List.take_of_length_le, List.drop_left']
    · simp [length_leBytes]
    · simp [length_leBytes, guid.length_data4]
  have hdata1 : range 0 4 guid.bytes = leBytes 4 guid.data1.toNat := by
    rw [Guid.bytes, List.append_assoc, List.append_assoc, range_append_left h4]
  have hdata2 : range 4 6 guid.bytes = leBytes 2 guid.data2.toNat := by
    rw [Guid.bytes, List.append_assoc, List.append_assoc,
      show range 4 6 = range (4 + 0) (4 + 2) from rfl, range_append_right h4, range_append_left h2]
  have hdata3 : range 6 8 guid.bytes = leBytes 2 guid.data3.toNat := by
    rw [Guid.bytes, List.append_assoc, List.append_assoc,
      show range 6 8 = range (4 + (2 + 0)) (4 + (2 + 2)) from rfl, range_append_right h4,
      range_append_right h2, range_append_left h2']
  rw [guidOfBytes, u32Of, hdata1, hdata2, hdata3, hdata4, leValue_leBytes guid.data1.toNat_lt,
    leValue_leBytes guid.data2.toNat_lt, leValue_leBytes guid.data3.toNat_lt, UInt32.ofNat_toNat,
    UInt16.ofNat_toNat, UInt16.ofNat_toNat, Guid.ofFields_self]

/-! ### Text -/

/-- `HEX`. -/
def upperHex : List UInt8 := [48, 49, 50, 51, 52, 53, 54, 55, 56, 57, 65, 66, 67, 68, 69, 70]

/-- `b'-'`. -/
def hyphen : UInt8 := 45

/-- Both digits of a byte, at the output index. -/
def writeDigits (b : UInt8) (s : ℕ × List UInt8) : Checked (ℕ × List UInt8) := do
  let high ← readAt (b >>> 4).toNat upperHex
  let out ← writeAt s.1 [high] s.2
  let low ← readAt (b &&& 0xf).toNat upperHex
  let out ← writeAt (s.1 + 1) [low] out
  .ok (s.1 + 2, out)

/-- The digits of the bytes of a group. -/
def writeGroup : List UInt8 → ℕ × List UInt8 → Checked (ℕ × List UInt8)
  | [], s => .ok s
  | b :: bs, s => do
    let s ← writeDigits b s
    writeGroup bs s

/-- The hyphen in front of a group. -/
def writeHyphen (group : ℕ) (s : ℕ × List UInt8) : Checked (ℕ × List UInt8) :=
  if 0 < group then do
    let out ← writeAt s.1 [hyphen] s.2
    .ok (s.1 + 1, out)
  else .ok s

/-- The loop over the groups, from one of them and its first byte on. -/
def writeGroups (bytes : List UInt8) :
    ℕ → List ℕ → ℕ → ℕ × List UInt8 → Checked (ℕ × List UInt8)
  | _, [], _, s => .ok s
  | group, len :: lens, byteIndex, s => do
    let s ← writeHyphen group s
    let groupBytes ← readRange byteIndex (byteIndex + len) bytes
    let s ← writeGroup groupBytes s
    writeGroups bytes (group + 1) lens (byteIndex + len) s

/-- The bytes of a GUID, most significant first. -/
def Guid.digitBytes (guid : Guid) : List UInt8 :=
  (leBytes 4 guid.data1.toNat).reverse ++ (leBytes 2 guid.data2.toNat).reverse ++
    (leBytes 2 guid.data3.toNat).reverse ++ guid.data4

/-- `guid_to_ascii_upper`. -/
def guidToAsciiUpper (guid : Guid) : Checked (List UInt8) := do
  let s ← writeGroups guid.digitBytes 0 [4, 2, 2, 2, 6] 0 (0, List.replicate 36 0)
  .ok s.2

/-! ### What is written -/

/-- The digits of a byte. -/
def hexPair (b : UInt8) : List UInt8 :=
  [upperHex.getD (b >>> 4).toNat 0, upperHex.getD (b &&& 0xf).toNat 0]

/-- The text of the groups from one of them on. -/
def groupsText : ℕ → List ℕ → List UInt8 → List UInt8
  | _, [], _ => []
  | group, len :: lens, bytes =>
    (if 0 < group then [hyphen] else []) ++ ((bytes.take len).flatMap hexPair ++
      groupsText (group + 1) lens (bytes.drop len))

/-- The step writes the text behind what is done, and moves the output index behind the text. -/
def Appends (step : ℕ × List UInt8 → Checked (ℕ × List UInt8)) (text : List UInt8) : Prop :=
  ∀ done rest : List UInt8, text.length ≤ rest.length →
    step (done.length, done ++ rest) =
      .ok ((done ++ text).length, done ++ text ++ rest.drop text.length)

theorem Appends.nil : Appends .ok [] := by
  intro done rest _
  simp

/-- Steps one after the other write their texts one behind the other. -/
theorem Appends.andThen {f g : ℕ × List UInt8 → Checked (ℕ × List UInt8)} {text more : List UInt8}
    (hf : Appends f text) (hg : Appends g more) : Appends (fun s => f s >>= g) (text ++ more) := by
  intro done rest h
  rw [List.length_append] at h
  have hrest : more.length ≤ (rest.drop text.length).length := by
    rw [List.length_drop]
    omega
  show f (done.length, done ++ rest) >>= g = _
  rw [hf done rest (by omega), bind_ok, hg (done ++ text) _ hrest, List.drop_drop,
    ← List.length_append, List.append_assoc done text more]

theorem getElem?_upperHex {i : ℕ} (h : i < 16) : upperHex[i]? = some (upperHex.getD i 0) := by
  have hlt : i < upperHex.length := h
  rw [List.getD_eq_getElem?_getD, List.getElem?_eq_getElem hlt, Option.getD_some]

theorem readAt_upperHex {i : ℕ} (h : i < 16) : readAt i upperHex = .ok (upperHex.getD i 0) :=
  readAt_of_getElem? (getElem?_upperHex h)

theorem shiftRight_four_eq (b : UInt8) : (b >>> 4).toNat = b.toNat / 16 := by
  rw [UInt8.toNat_shiftRight, show (4 : UInt8).toNat % 8 = 4 from rfl, Nat.shiftRight_eq_div_pow]

theorem and_fifteen_eq (b : UInt8) : (b &&& 0xf).toNat = b.toNat % 16 := by
  rw [UInt8.toNat_and, show (0xf : UInt8).toNat = 2 ^ 4 - 1 from rfl,
    Nat.and_two_pow_sub_one_eq_mod]

theorem shiftRight_four_lt (b : UInt8) : (b >>> 4).toNat < 16 := by
  have hb := b.toNat_lt
  rw [shiftRight_four_eq]
  omega

theorem and_fifteen_lt (b : UInt8) : (b &&& 0xf).toNat < 16 := by
  rw [and_fifteen_eq]
  omega

theorem appends_writeDigits (b : UInt8) : Appends (writeDigits b) (hexPair b) := by
  intro done rest h
  have hlength : 2 ≤ rest.length := h
  have hhigh := readAt_upperHex (shiftRight_four_lt b)
  have hlow := readAt_upperHex (and_fifteen_lt b)
  rw [hexPair]
  generalize upperHex.getD (b >>> 4).toNat 0 = high at hhigh ⊢
  generalize upperHex.getD (b &&& 0xf).toNat 0 = low at hlow ⊢
  have hfirst : writeAt done.length [high] (done ++ rest) = .ok (done ++ [high] ++ rest.drop 1) :=
    writeAt_append (show 1 ≤ rest.length by omega)
  have hsecond : writeAt (done.length + 1) [low] (done ++ [high] ++ rest.drop 1) =
      .ok (done ++ [high] ++ [low] ++ (rest.drop 1).drop 1) := by
    rw [show done.length + 1 = (done ++ [high]).length by simp]
    exact writeAt_append (show 1 ≤ (rest.drop 1).length by rw [List.length_drop]; omega)
  rw [writeDigits, hhigh, bind_ok, hfirst, bind_ok, hlow, bind_ok, hsecond, bind_ok,
    List.drop_drop, List.append_assoc done, List.length_append]
  rfl

theorem appends_writeGroup (bs : List UInt8) :
    Appends (writeGroup bs) (bs.flatMap hexPair) := by
  induction bs with
  | nil => exact Appends.nil
  | cons b bs ih => exact (appends_writeDigits b).andThen ih

theorem appends_writeHyphen (group : ℕ) :
    Appends (writeHyphen group) (if 0 < group then [hyphen] else []) := by
  by_cases hgroup : 0 < group
  · intro done rest h
    rw [if_pos hgroup] at h ⊢
    rw [writeHyphen, if_pos hgroup, writeAt_append h, bind_ok, List.length_append]
    rfl
  · rw [if_neg hgroup]
    intro done rest h
    rw [writeHyphen, if_neg hgroup]
    exact Appends.nil done rest h

/-- The loop writes the groups it has not yet written. No range of bytes is out of bounds. -/
theorem appends_writeGroups (bytes : List UInt8) (lens : List ℕ) {group byteIndex : ℕ}
    (h : byteIndex + lens.sum ≤ bytes.length) :
    Appends (writeGroups bytes group lens byteIndex)
      (groupsText group lens (bytes.drop byteIndex)) := by
  induction lens generalizing group byteIndex with
  | nil => exact Appends.nil
  | cons len lens ih =>
    rw [List.sum_cons] at h
    have hrange : range byteIndex (byteIndex + len) bytes = (bytes.drop byteIndex).take len := by
      rw [range, List.drop_take, Nat.add_sub_cancel_left]
    have hread : readRange byteIndex (byteIndex + len) bytes =
        .ok ((bytes.drop byteIndex).take len) := by
      rw [← hrange]
      exact readRange_of_le (Nat.le_add_right _ _) (by omega)
    have hrest : Appends (writeGroups bytes (group + 1) lens (byteIndex + len))
        (groupsText (group + 1) lens ((bytes.drop byteIndex).drop len)) := by
      rw [List.drop_drop]
      exact ih (by omega)
    have hall := (appends_writeHyphen group).andThen
      ((appends_writeGroup ((bytes.drop byteIndex).take len)).andThen hrest)
    intro done rest hfits
    refine Eq.trans ?_ (hall done rest hfits)
    rw [writeGroups, hread]
    rfl

theorem length_flatMap_hexPair (bs : List UInt8) : (bs.flatMap hexPair).length = 2 * bs.length := by
  induction bs with
  | nil => rfl
  | cons b bs ih =>
    rw [List.flatMap_cons, List.length_append, ih, List.length_cons, hexPair]
    simp only [List.length_cons, List.length_nil]
    omega

/-- The text has a digit for every half of a byte, and a hyphen in front of every group but the
first. -/
theorem length_groupsText (lens : List ℕ) {group : ℕ} {bytes : List UInt8}
    (h : lens.sum ≤ bytes.length) :
    (groupsText (group + 1) lens bytes).length = lens.length + 2 * lens.sum := by
  induction lens generalizing group bytes with
  | nil => rfl
  | cons len lens ih =>
    rw [List.sum_cons] at h
    rw [groupsText, if_pos (Nat.succ_pos group), List.length_append, List.length_append,
      length_flatMap_hexPair, List.length_take, ih (by rw [List.length_drop]; omega),
      List.sum_cons]
    simp only [List.length_cons, List.length_nil]
    omega

@[simp] theorem Guid.length_digitBytes (guid : Guid) : guid.digitBytes.length = 16 := by
  simp only [Guid.digitBytes, List.length_append, List.length_reverse, length_leBytes,
    guid.length_data4]

/-- **The buffer is filled**, and no index is out of bounds. -/
theorem guidToAsciiUpper_eq (guid : Guid) :
    guidToAsciiUpper guid = .ok (groupsText 0 [4, 2, 2, 2, 6] guid.digitBytes) ∧
      (groupsText 0 [4, 2, 2, 2, 6] guid.digitBytes).length = 36 := by
  have hbytes := guid.length_digitBytes
  have hlength : (groupsText 0 [4, 2, 2, 2, 6] guid.digitBytes).length = 36 := by
    rw [groupsText, if_neg (Nat.lt_irrefl 0), List.nil_append, List.length_append,
      length_flatMap_hexPair, List.length_take,
      length_groupsText [2, 2, 2, 6] (by rw [List.length_drop, hbytes]; decide), hbytes]
    rfl
  have hwrite : Appends (writeGroups guid.digitBytes 0 [4, 2, 2, 2, 6] 0)
      (groupsText 0 [4, 2, 2, 2, 6] (guid.digitBytes.drop 0)) :=
    appends_writeGroups guid.digitBytes [4, 2, 2, 2, 6] (by rw [hbytes]; decide)
  have hfilled := hwrite [] (List.replicate 36 0) (by rw [List.drop_zero, hlength]; rfl)
  rw [List.drop_zero, hlength, List.drop_replicate] at hfilled
  refine ⟨?_, hlength⟩
  rw [guidToAsciiUpper, show (0, List.replicate 36 0) =
    (([] : List UInt8).length, [] ++ List.replicate 36 (0 : UInt8)) from rfl, hfilled, bind_ok]
  simp

/-! ### Reading the text -/

/-- The bytes of pairs of digits. -/
def readDigits : List UInt8 → List UInt8
  | high :: low :: rest =>
    UInt8.ofNat (16 * upperHex.idxOf high + upperHex.idxOf low) :: readDigits rest
  | _ => []

/-- The GUID of a text: hyphens are skipped, and numbers start with their first digit. -/
def readGuidText (text : List UInt8) : Guid :=
  let bytes := readDigits (text.filter (· ≠ hyphen))
  .ofFields (UInt32.ofNat (leValue (range 0 4 bytes).reverse))
    (UInt16.ofNat (leValue (range 4 6 bytes).reverse))
    (UInt16.ofNat (leValue (range 6 8 bytes).reverse)) (range 8 16 bytes)

theorem idxOf_upperHex : ∀ i < 16, upperHex.idxOf (upperHex.getD i 0) = i := by decide

theorem upperHex_ne_hyphen : ∀ c ∈ upperHex, c ≠ hyphen := by simp [upperHex, hyphen]

theorem mem_upperHex {i : ℕ} (h : i < 16) : upperHex.getD i 0 ∈ upperHex :=
  List.mem_of_getElem? (getElem?_upperHex h)

theorem mem_hexPair {b c : UInt8} (h : c ∈ hexPair b) : c ∈ upperHex := by
  simp only [hexPair, List.mem_cons, List.not_mem_nil, or_false] at h
  rcases h with rfl | rfl
  · exact mem_upperHex (shiftRight_four_lt b)
  · exact mem_upperHex (and_fifteen_lt b)

theorem mem_flatMap_hexPair {bs : List UInt8} {c : UInt8} (h : c ∈ bs.flatMap hexPair) :
    c ∈ upperHex := by
  obtain ⟨b, -, hc⟩ := List.mem_flatMap.mp h
  exact mem_hexPair hc

theorem readDigits_flatMap (bs : List UInt8) : readDigits (bs.flatMap hexPair) = bs := by
  induction bs with
  | nil => rfl
  | cons b bs ih =>
    have hb := b.toNat_lt
    rw [List.flatMap_cons, hexPair, List.cons_append, List.cons_append, List.nil_append,
      readDigits, ih, idxOf_upperHex _ (shiftRight_four_lt b), idxOf_upperHex _ (and_fifteen_lt b),
      shiftRight_four_eq, and_fifteen_eq, Nat.div_add_mod, UInt8.ofNat_toNat]

/-- Without the hyphens, the groups are the digits of all bytes. -/
theorem filter_groupsText (lens : List ℕ) (group : ℕ) (bytes : List UInt8) :
    (groupsText group lens bytes).filter (· ≠ hyphen) = (bytes.take lens.sum).flatMap hexPair := by
  induction lens generalizing group bytes with
  | nil => rw [groupsText, List.sum_nil, List.take_zero, List.flatMap_nil, List.filter_nil]
  | cons len lens ih =>
    have hhyphen : (if 0 < group then [hyphen] else []).filter (· ≠ hyphen) = [] := by
      split <;> simp
    have hdigits : ((bytes.take len).flatMap hexPair).filter (· ≠ hyphen) =
        (bytes.take len).flatMap hexPair := by
      refine List.filter_eq_self.mpr fun c hc => ?_
      exact decide_eq_true (upperHex_ne_hyphen c (mem_flatMap_hexPair hc))
    rw [groupsText, List.filter_append, List.filter_append, hhyphen, hdigits, ih, List.nil_append,
      List.sum_cons, List.take_add, List.flatMap_append]

/-- The fields of a GUID are read back from its bytes, most significant first. -/
theorem readGuidText_of_digitBytes {guid : Guid} {text : List UInt8}
    (htext : readDigits (text.filter (· ≠ hyphen)) = guid.digitBytes) :
    readGuidText text = guid := by
  have h4 : (leBytes 4 guid.data1.toNat).reverse.length = 4 := by
    rw [List.length_reverse, length_leBytes]
  have h2 : (leBytes 2 guid.data2.toNat).reverse.length = 2 := by
    rw [List.length_reverse, length_leBytes]
  have h2' : (leBytes 2 guid.data3.toNat).reverse.length = 2 := by
    rw [List.length_reverse, length_leBytes]
  have hdata1 : range 0 4 guid.digitBytes = (leBytes 4 guid.data1.toNat).reverse := by
    rw [Guid.digitBytes, List.append_assoc, List.append_assoc, range_append_left h4]
  have hdata2 : range 4 6 guid.digitBytes = (leBytes 2 guid.data2.toNat).reverse := by
    rw [Guid.digitBytes, List.append_assoc, List.append_assoc,
      show range 4 6 = range (4 + 0) (4 + 2) from rfl, range_append_right h4, range_append_left h2]
  have hdata3 : range 6 8 guid.digitBytes = (leBytes 2 guid.data3.toNat).reverse := by
    rw [Guid.digitBytes, List.append_assoc, List.append_assoc,
      show range 6 8 = range (4 + (2 + 0)) (4 + (2 + 2)) from rfl, range_append_right h4,
      range_append_right h2, range_append_left h2']
  have hdata4 : range 8 16 guid.digitBytes = guid.data4 := by
    rw [Guid.digitBytes, range, List.take_of_length_le, List.drop_left']
    · simp [length_leBytes]
    · simp [length_leBytes, guid.length_data4]
  rw [readGuidText, htext, hdata1, hdata2, hdata3, hdata4, List.reverse_reverse,
    List.reverse_reverse, List.reverse_reverse, leValue_leBytes guid.data1.toNat_lt,
    leValue_leBytes guid.data2.toNat_lt, leValue_leBytes guid.data3.toNat_lt, UInt32.ofNat_toNat,
    UInt16.ofNat_toNat, UInt16.ofNat_toNat, Guid.ofFields_self]

/-- **The text of a GUID.** The serializer never indexes out of bounds, and fills its buffer with
groups of upper-case digits between hyphens; the GUID is read back from them. -/
theorem guidToAsciiUpper_reads (guid : Guid) :
    ∃ text, guidToAsciiUpper guid = .ok text ∧ text.length = 36 ∧ readGuidText text = guid ∧
      ∃ groups : List (List UInt8), groups.map List.length = [8, 4, 4, 4, 12] ∧
        (∀ g ∈ groups, ∀ c ∈ g, c ∈ upperHex) ∧ text = [hyphen].intercalate groups := by
  obtain ⟨hok, hlength⟩ := guidToAsciiUpper_eq guid
  have hbytes := guid.length_digitBytes
  refine ⟨_, hok, hlength, readGuidText_of_digitBytes ?_, ?_⟩
  · rw [filter_groupsText, readDigits_flatMap]
    exact List.take_of_length_le (Nat.le_of_eq hbytes)
  · let pieces : List (List UInt8) := [guid.digitBytes.take 4, (guid.digitBytes.drop 4).take 2,
      (guid.digitBytes.drop 6).take 2, (guid.digitBytes.drop 8).take 2,
      (guid.digitBytes.drop 10).take 6]
    refine ⟨pieces.map (·.flatMap hexPair), ?_, ?_, ?_⟩
    · rw [List.map_map, show List.length ∘ (List.flatMap hexPair ·) = fun bs => 2 * bs.length from
        funext length_flatMap_hexPair]
      simp [pieces, hbytes]
    · intro g hg c hc
      obtain ⟨piece, -, rfl⟩ := List.mem_map.mp hg
      exact mem_flatMap_hexPair hc
    · simp [pieces, groupsText, List.intercalate]

/-- The GUID of the kernel logger. -/
def systemTraceControlGuid : Guid :=
  ⟨0x9e814aad, 0x3204, 0x11d2, [0x9a, 0x82, 0x00, 0x60, 0x08, 0xa8, 0x69, 0x39], rfl⟩

theorem guidToAsciiUpper_reads_systemTraceControl :
    ∃ text, guidToAsciiUpper systemTraceControlGuid = .ok text ∧ text.length = 36 ∧
      readGuidText text = systemTraceControlGuid := by
  obtain ⟨text, hok, hlength, hreads, -⟩ := guidToAsciiUpper_reads systemTraceControlGuid
  exact ⟨text, hok, hlength, hreads⟩

end Ferrisetw2
