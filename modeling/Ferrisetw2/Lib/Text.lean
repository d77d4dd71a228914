import Ferrisetw2.Lib.Slice
import Mathlib.Data.List.DropRight

/-!
# Text in bytes

Rust strings are sequences of scalar values, and so are Lean's. Two encodings of them occur in event
data: UTF-8, and UTF-16 with the code units in little-endian order.

Decoding UTF-16 is lossy: a surrogate that is no half of a pair becomes U+FFFD.

## Main definitions

* `trim` — a list without what its ends have of some elements
* `leBytes`, `unitBytes` — numbers and code units as bytes
* `encodeUtf16`, `wideBytes`, `utf8Bytes` — the encodings
* `decodeUtf16` — the lossy decoder
* `byteChar`, `zeroExtend` — a byte as a character, and bytes as code units

## Main results

* `trim_append`, `trim_eq_takeWhile_iff` — trimming, padding and cutting
* `codeUnits_unitBytes`, `leValue_leBytes` — what was written is read
* `decodeUtf16_encodeUtf16`, `fromUTF8?_utf8Bytes` — decoding undoes encoding
* `mem_encodeUtf16_iff` — a code unit below the surrogates is a character
* `zero_mem_encodeUtf16_iff`, `zero_mem_utf8Bytes_iff` — the encodings hold a zero for a NUL alone
* `utf8Bytes_byteChars`, `encodeUtf16_byteChars` — the encodings of ASCII
-/

namespace Rust

/-! ### Trimming -/

section Trim

variable {α β : Type*} {p : α → Bool}

/-- The list without the elements at either end that satisfy `p`. -/
def trim (p : α → Bool) (xs : List α) : List α := (xs.dropWhile p).rdropWhile p

theorem trim_map (p : β → Bool) (f : α → β) (xs : List α) :
    trim p (xs.map f) = (trim (p ∘ f) xs).map f := by
  rw [trim, trim, List.dropWhile_map, List.rdropWhile, List.rdropWhile, ← List.map_reverse,
    List.dropWhile_map, List.map_reverse]

/-- Trimming a padded list removes the padding. -/
theorem trim_append {xs ys : List α} (hxs : ∀ x ∈ xs, p x = false) (hys : ∀ y ∈ ys, p y = true) :
    trim p (xs ++ ys) = xs := by
  cases xs with
  | nil =>
    rw [List.nil_append, trim, List.dropWhile_eq_nil_iff.mpr hys]
    rfl
  | cons x xs =>
    have hfirst : ¬ p x = true := by
      rw [hxs x List.mem_cons_self]
      exact Bool.false_ne_true
    have hlast : (x :: xs).reverse.dropWhile p = (x :: xs).reverse := by
      rw [List.dropWhile_eq_self_iff]
      intro hpos
      rw [hxs _ (List.mem_reverse.mp (List.getElem_mem hpos))]
      exact Bool.false_ne_true
    have hpad : ∀ y ∈ ys.reverse, p y = true := fun y hy => hys y (List.mem_reverse.mp hy)
    rw [trim, List.cons_append, List.dropWhile_cons_of_neg hfirst, ← List.cons_append,
      List.rdropWhile, List.reverse_append, List.dropWhile_append_of_pos hpad, hlast,
      List.reverse_reverse]

/-- Trimming removes no other element. -/
theorem filter_trim (p : α → Bool) (xs : List α) :
    (trim p xs).filter (fun x => !p x) = xs.filter (fun x => !p x) := by
  have hfront : ∀ zs : List α,
      (zs.dropWhile p).filter (fun x => !p x) = zs.filter (fun x => !p x) := by
    intro zs
    induction zs with
    | nil => rfl
    | cons z zs ih =>
      by_cases hz : p z = true
      · rw [List.dropWhile_cons_of_pos hz, ih, List.filter_cons_of_neg (by simp [hz])]
      · rw [List.dropWhile_cons_of_neg hz]
  rw [trim, List.rdropWhile, List.filter_reverse, hfront, List.filter_reverse,
    List.reverse_reverse, hfront]

/-- Trimming cuts a list at the first such element when there is no other behind it. -/
theorem trim_eq_takeWhile_iff (xs : List α) :
    trim p xs = xs.takeWhile (fun x => !p x) ↔
      ∀ y ∈ xs.dropWhile (fun x => !p x), p y = true := by
  have hxs : xs.takeWhile (fun x => !p x) ++ xs.dropWhile (fun x => !p x) = xs :=
    List.takeWhile_append_dropWhile
  have hfront : ∀ x ∈ xs.takeWhile (fun x => !p x), p x = false := fun x hx => by
    simpa using List.mem_takeWhile_imp hx
  constructor
  · intro htrim y hy
    by_contra hpy
    have hall : (xs.takeWhile fun x => !p x).filter (fun x => !p x) =
        (xs.takeWhile fun x => !p x).filter (fun x => !p x) ++
          (xs.dropWhile fun x => !p x).filter (fun x => !p x) := by
      rw [← List.filter_append, hxs, ← htrim, filter_trim]
    have hnone := List.append_right_eq_self.mp hall.symm
    have hmem : y ∈ (xs.dropWhile fun x => !p x).filter (fun x => !p x) :=
      List.mem_filter.mpr ⟨hy, by simpa using hpy⟩
    rw [hnone] at hmem
    exact absurd hmem List.not_mem_nil
  · intro hback
    have := trim_append hfront hback
    rwa [hxs] at this

end Trim

/-! ### Numbers -/

/-- The `n` low bytes of a number, little-endian. -/
def leBytes : ℕ → ℕ → List UInt8
  | 0, _ => []
  | n + 1, v => UInt8.ofNat v :: leBytes n (v / 256)

theorem length_leBytes (n v : ℕ) : (leBytes n v).length = n := by
  induction n generalizing v with
  | zero => rfl
  | succ n ih => rw [leBytes, List.length_cons, ih]

/-- A number that fits is read back. -/
theorem leValue_leBytes {n v : ℕ} (h : v < 256 ^ n) : leValue (leBytes n v) = v := by
  induction n generalizing v with
  | zero =>
    rw [Nat.pow_zero, Nat.lt_one_iff] at h
    rw [h]
    rfl
  | succ n ih =>
    have hdiv : v / 256 < 256 ^ n := by
      rw [Nat.div_lt_iff_lt_mul (by decide), ← Nat.pow_succ]
      exact h
    rw [leBytes, leValue, ih hdiv, UInt8.toNat_ofNat']
    exact Nat.mod_add_div v 256

/-- The code units, in bytes. -/
def unitBytes (units : List UInt16) : List UInt8 := units.flatMap fun u => leBytes 2 u.toNat

theorem codeUnits_unitBytes (units : List UInt16) : codeUnits (unitBytes units) = units := by
  induction units with
  | nil => rfl
  | cons u units ih =>
    have hu : leValue (leBytes 2 u.toNat) = u.toNat := leValue_leBytes u.toNat_lt
    rw [unitBytes, List.flatMap_cons, codeUnits_append (by rw [length_leBytes])]
    show UInt16.ofNat (leValue (leBytes 2 u.toNat)) :: codeUnits (unitBytes units) = u :: units
    rw [hu, ih, UInt16.ofNat_toNat]

theorem length_unitBytes (units : List UInt16) : (unitBytes units).length = 2 * units.length := by
  induction units with
  | nil => rfl
  | cons u units ih =>
    rw [unitBytes, List.flatMap_cons, List.length_append, length_leBytes]
    show 2 + (unitBytes units).length = 2 * (units.length + 1)
    omega

/-! ### UTF-16 -/

/-- `str::encode_utf16`. -/
def encodeUtf16 (s : String) : List UInt16 :=
  s.toList.flatMap fun c =>
    if c.toNat < 0x10000 then [UInt16.ofNat c.toNat]
    else
      [UInt16.ofNat (0xD800 + (c.toNat - 0x10000) / 0x400),
        UInt16.ofNat (0xDC00 + (c.toNat - 0x10000) % 0x400)]

/-- The same, in bytes. -/
def wideBytes (s : String) : List UInt8 := unitBytes (encodeUtf16 s)

/-- `char::decode_utf16`, with U+FFFD for a surrogate that has no other half. -/
def decodeUtf16 : List UInt16 → List Char
  | [] => []
  | [u] => [if u.toNat < 0xD800 ∨ 0xDFFF < u.toNat then Char.ofNat u.toNat else Char.ofNat 0xFFFD]
  | u :: v :: rest =>
    if u.toNat < 0xD800 ∨ 0xDFFF < u.toNat then Char.ofNat u.toNat :: decodeUtf16 (v :: rest)
    else if u.toNat < 0xDC00 ∧ 0xDC00 ≤ v.toNat ∧ v.toNat ≤ 0xDFFF then
      Char.ofNat (0x10000 + (u.toNat - 0xD800) * 0x400 + (v.toNat - 0xDC00)) :: decodeUtf16 rest
    else Char.ofNat 0xFFFD :: decodeUtf16 (v :: rest)

/-- A scalar value is no surrogate, and has at most 21 bits. -/
theorem toNat_scalar (c : Char) :
    (c.toNat < 0xD800 ∨ 0xDFFF < c.toNat) ∧ c.toNat < 0x110000 := by
  rcases c.valid with h | ⟨h, h'⟩
  · have hlt : c.toNat < 0xD800 := h
    omega
  · have hgt : 0xDFFF < c.toNat := h
    have hlt : c.toNat < 0x110000 := h'
    omega

theorem toNat_eq_zero_iff {c : Char} : c.toNat = 0 ↔ c = Char.ofNat 0 := by
  constructor
  · intro h
    rw [← Char.ofNat_toNat c, h]
  · rintro rfl
    rfl

/-- A character of the basic plane is one code unit. -/
theorem decodeUtf16_cons {c : Char} (h : c.toNat < 0x10000) (units : List UInt16) :
    decodeUtf16 (UInt16.ofNat c.toNat :: units) = c :: decodeUtf16 units := by
  have hu : (UInt16.ofNat c.toNat).toNat = c.toNat := by
    rw [UInt16.toNat_ofNat']
    exact Nat.mod_eq_of_lt h
  cases units with
  | nil => simp only [decodeUtf16, hu, if_pos (toNat_scalar c).1, Char.ofNat_toNat]
  | cons v rest => simp only [decodeUtf16, hu, if_pos (toNat_scalar c).1, Char.ofNat_toNat]

/-- Any other is a pair of surrogates. -/
theorem decodeUtf16_pair {c : Char} (h : ¬ c.toNat < 0x10000) (units : List UInt16) :
    decodeUtf16 (UInt16.ofNat (0xD800 + (c.toNat - 0x10000) / 0x400) ::
      UInt16.ofNat (0xDC00 + (c.toNat - 0x10000) % 0x400) :: units) = c :: decodeUtf16 units := by
  have hmax := (toNat_scalar c).2
  have hhigh : (c.toNat - 0x10000) / 0x400 < 0x400 := by omega
  have hlow : (c.toNat - 0x10000) % 0x400 < 0x400 := Nat.mod_lt _ (by decide)
  have hu : (UInt16.ofNat (0xD800 + (c.toNat - 0x10000) / 0x400)).toNat =
      0xD800 + (c.toNat - 0x10000) / 0x400 := by
    rw [UInt16.toNat_ofNat']
    exact Nat.mod_eq_of_lt (by omega)
  have hv : (UInt16.ofNat (0xDC00 + (c.toNat - 0x10000) % 0x400)).toNat =
      0xDC00 + (c.toNat - 0x10000) % 0x400 := by
    rw [UInt16.toNat_ofNat']
    exact Nat.mod_eq_of_lt (by omega)
  have hvalue : 0x10000 + (c.toNat - 0x10000) / 0x400 * 0x400 + (c.toNat - 0x10000) % 0x400 =
      c.toNat := by omega
  rw [decodeUtf16, hu, hv, if_neg (by omega), if_pos (by omega), Nat.add_sub_cancel_left,
    Nat.add_sub_cancel_left, hvalue, Char.ofNat_toNat]

/-- **Decoding undoes encoding.** -/
theorem decodeUtf16_encodeUtf16 (s : String) : String.ofList (decodeUtf16 (encodeUtf16 s)) = s := by
  have hchars : ∀ chars : List Char, decodeUtf16 (encodeUtf16 (String.ofList chars)) = chars := by
    intro chars
    induction chars with
    | nil => rfl
    | cons c chars ih =>
      rw [encodeUtf16, String.toList_ofList] at ih ⊢
      rw [List.flatMap_cons]
      split
      · rename_i h
        exact (decodeUtf16_cons h _).trans (congrArg _ ih)
      · rename_i h
        exact (decodeUtf16_pair h _).trans (congrArg _ ih)
  have := hchars s.toList
  rw [String.ofList_toList] at this
  rw [this, String.ofList_toList]

theorem ofNat16_inj {n m : ℕ} : UInt16.ofNat n = UInt16.ofNat m ↔ n % 65536 = m % 65536 := by
  rw [← UInt16.toNat_inj, UInt16.toNat_ofNat', UInt16.toNat_ofNat']

theorem zero_eq_ofNat16_iff {n : ℕ} : (0 : UInt16) = UInt16.ofNat n ↔ n % 65536 = 0 :=
  (ofNat16_inj (n := 0)).trans eq_comm

/-- A character below the surrogates is a code unit that comes from nothing else. -/
theorem mem_encodeUtf16_iff {c : Char} (hc : c.toNat < 0xD800) (s : String) :
    UInt16.ofNat c.toNat ∈ encodeUtf16 s ↔ c ∈ s.toList := by
  have hchar : ∀ d : Char, (UInt16.ofNat c.toNat ∈ (if d.toNat < 0x10000 then
      [UInt16.ofNat d.toNat]
      else [UInt16.ofNat (0xD800 + (d.toNat - 0x10000) / 0x400),
        UInt16.ofNat (0xDC00 + (d.toNat - 0x10000) % 0x400)])) ↔ d = c := by
    intro d
    have hmax := (toNat_scalar d).2
    rw [← Char.toNat_inj]
    split <;> simp only [List.mem_cons, List.not_mem_nil, or_false, ofNat16_inj] <;> omega
  simp only [encodeUtf16, List.mem_flatMap, hchar]
  exact ⟨fun ⟨d, hd, h⟩ => h ▸ hd, fun h => ⟨_, h, rfl⟩⟩

theorem zero_mem_encodeUtf16_iff (s : String) : 0 ∈ encodeUtf16 s ↔ Char.ofNat 0 ∈ s.toList :=
  mem_encodeUtf16_iff (c := Char.ofNat 0) (by decide) s

/-! ### UTF-8 -/

/-- `str::as_bytes`. -/
def utf8Bytes (s : String) : List UInt8 := s.toUTF8.data.toList

/-- **Decoding undoes encoding.** -/
theorem fromUTF8?_utf8Bytes (s : String) : String.fromUTF8? ⟨(utf8Bytes s).toArray⟩ = some s := by
  rw [utf8Bytes, Array.toArray_toList]
  exact dif_pos s.isValidUTF8

theorem utf8Bytes_ofList (chars : List Char) :
    utf8Bytes (String.ofList chars) = chars.flatMap String.utf8EncodeChar := by
  rw [utf8Bytes, String.toUTF8_eq_toByteArray, String.toByteArray_ofList, List.utf8Encode,
    List.data_toByteArray]

theorem zero_eq_ofNat8_iff {n : ℕ} : (0 : UInt8) = UInt8.ofNat n ↔ n % 256 = 0 := by
  rw [← UInt8.toNat_inj, UInt8.toNat_ofNat']
  exact eq_comm

theorem zero_mem_utf8Bytes_iff (s : String) : 0 ∈ utf8Bytes s ↔ Char.ofNat 0 ∈ s.toList := by
  have hchar : ∀ c : Char, 0 ∈ String.utf8EncodeChar c ↔ c = Char.ofNat 0 := by
    intro c
    have hmax := (toNat_scalar c).2
    have hval : c.val.toNat = c.toNat := rfl
    rw [← toNat_eq_zero_iff, String.utf8EncodeChar, hval]
    split_ifs <;>
      simp only [List.mem_cons, List.not_mem_nil, or_false, zero_eq_ofNat8_iff] <;> omega
  rw [← @String.ofList_toList s, utf8Bytes_ofList, String.toList_ofList]
  simp only [List.mem_flatMap, hchar]
  exact ⟨fun ⟨c, hc, h⟩ => h ▸ hc, fun h => ⟨_, h, rfl⟩⟩

/-- Zeros behind a string are NULs behind it. -/
theorem utf8Bytes_append_replicate (s : String) (n : ℕ) :
    utf8Bytes s ++ List.replicate n 0 =
      utf8Bytes (String.ofList (s.toList ++ List.replicate n (Char.ofNat 0))) := by
  have hnul : String.utf8EncodeChar (Char.ofNat 0) = [0] := rfl
  have hnuls : (List.replicate n (Char.ofNat 0)).flatMap String.utf8EncodeChar =
      List.replicate n 0 := by
    induction n with
    | zero => rfl
    | succ n ih => rw [List.replicate_succ, List.flatMap_cons, hnul, ih]; rfl
  rw [utf8Bytes_ofList, List.flatMap_append, hnuls, ← utf8Bytes_ofList, String.ofList_toList]

/-! ### ASCII -/

/-- The character whose number is the byte. -/
def byteChar (b : UInt8) : Char := Char.ofNat b.toNat

theorem toNat_byteChar (b : UInt8) : (byteChar b).toNat = b.toNat := by
  have hlt : b.toNat < 256 := b.toNat_lt
  have hvalid : b.toNat.isValidChar := Or.inl (by omega)
  rw [byteChar, Char.ofNat, dif_pos hvalid]
  rfl

theorem byteChar_injective : Function.Injective byteChar := by
  intro a b h
  rw [← UInt8.toNat_inj, ← toNat_byteChar a, h, toNat_byteChar b]

/-- ASCII is its own encoding in UTF-8. -/
theorem utf8Bytes_byteChars {bytes : List UInt8} (hascii : ∀ b ∈ bytes, b.toNat < 128) :
    utf8Bytes (String.ofList (bytes.map byteChar)) = bytes := by
  rw [utf8Bytes_ofList]
  induction bytes with
  | nil => rfl
  | cons b bytes ih =>
    have hb : String.utf8EncodeChar (byteChar b) = [b] := by
      have hval : (byteChar b).val.toNat = b.toNat := toNat_byteChar b
      rw [String.utf8EncodeChar, hval, if_pos (Nat.le_of_lt_succ (hascii b List.mem_cons_self)),
        UInt8.ofNat_toNat]
    rw [List.map_cons, List.flatMap_cons, hb,
      ih fun a ha => hascii a (List.mem_cons_of_mem _ ha)]
    rfl

/-- In UTF-16, every byte is a code unit. -/
theorem encodeUtf16_byteChars (bytes : List UInt8) :
    encodeUtf16 (String.ofList (bytes.map byteChar)) =
      bytes.map fun b => UInt16.ofNat b.toNat := by
  rw [encodeUtf16, String.toList_ofList]
  induction bytes with
  | nil => rfl
  | cons b bytes ih =>
    have hb : (byteChar b).toNat < 0x10000 := by
      have hlt : b.toNat < 256 := b.toNat_lt
      rw [toNat_byteChar]
      omega
    rw [List.map_cons, List.flatMap_cons, if_pos hb, ih, toNat_byteChar]
    rfl

/-- The bytes, each extended to 16 bits. -/
def zeroExtend (bytes : List UInt8) : List UInt8 := bytes.flatMap fun b => [b, 0]

theorem length_zeroExtend (bytes : List UInt8) : (zeroExtend bytes).length = 2 * bytes.length := by
  rw [zeroExtend, List.length_flatMap]
  simp [Nat.mul_comm]

theorem codeUnits_zeroExtend (bytes : List UInt8) :
    codeUnits (zeroExtend bytes) = bytes.map fun b => UInt16.ofNat b.toNat := by
  induction bytes with
  | nil => rfl
  | cons b bytes ih =>
    show UInt16.ofNat (leValue [b, 0]) :: codeUnits (zeroExtend bytes) = _
    rw [ih]
    rfl

end Rust
