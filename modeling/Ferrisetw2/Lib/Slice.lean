import Mathlib.Tactic.Linarith

/-!
# Byte slices

A Rust `&[u8]` is a pointer and a length. `Slice` keeps both: the bytes, and where they start
within the buffer they were cut out of. Two slices with the same bytes at different places are
different slices, which is what lets a theorem say *where* something was found.

## Reading integers

`leValue` and `beValue` read a whole byte list as an integer. Native-endian reads are little-endian:
every Windows target is.

## Main definitions

* `Slice`, `Slice.getFrom`, `Slice.getTo`, `Slice.getRange`
* `Slice.Consecutive` — slices cut out one behind the other
* `leValue`, `beValue`, `range`, `codeUnits`, `memchr`

## Main results

* `memchr_append_zero`, `findIdx_codeUnits_append_zero` — a terminator is found where it was put
* `findIdx?_append_of_lt`, `findIdx_codeUnits_append`, `take?_append_of_le` — what is found within
  some bytes is found there when more bytes follow
* `getTo_append_left` — a prefix of known length
* `exists_consecutive`, `Consecutive.flatMap_bytes` — a slice in pieces of one size
-/

namespace Rust

/-! ### Slices -/

/-- A byte slice, together with its offset in the buffer it was cut out of. -/
structure Slice where
  /-- Offset of the first byte. -/
  start : ℕ
  /-- The bytes. -/
  bytes : List UInt8
  deriving DecidableEq, Repr

namespace Slice

/-- Number of bytes. -/
def len (s : Slice) : ℕ := s.bytes.length

/-- Offset just past the last byte. -/
def stop (s : Slice) : ℕ := s.start + s.len

/-- `s.get(a..)`. -/
def getFrom (s : Slice) (a : ℕ) : Option Slice :=
  if a ≤ s.len then some ⟨s.start + a, s.bytes.drop a⟩ else none

/-- `s.get(..b)`. -/
def getTo (s : Slice) (b : ℕ) : Option Slice :=
  if b ≤ s.len then some ⟨s.start, s.bytes.take b⟩ else none

/-- `s.get(a..b)`. -/
def getRange (s : Slice) (a b : ℕ) : Option Slice :=
  if a ≤ b ∧ b ≤ s.len then some ⟨s.start + a, (s.bytes.take b).drop a⟩ else none

theorem getFrom_eq_some_iff {s r : Slice} {a : ℕ} :
    s.getFrom a = some r ↔ a ≤ s.len ∧ r = ⟨s.start + a, s.bytes.drop a⟩ := by
  simp [getFrom, eq_comm]

theorem getTo_eq_some_iff {s r : Slice} {b : ℕ} :
    s.getTo b = some r ↔ b ≤ s.len ∧ r = ⟨s.start, s.bytes.take b⟩ := by
  simp [getTo, eq_comm]

theorem getRange_eq_some_iff {s r : Slice} {a b : ℕ} :
    s.getRange a b = some r ↔
      (a ≤ b ∧ b ≤ s.len) ∧ r = ⟨s.start + a, (s.bytes.take b).drop a⟩ := by
  simp [getRange, eq_comm]

theorem len_of_getTo {s r : Slice} {b : ℕ} (h : s.getTo b = some r) : r.len = b := by
  obtain ⟨hb, rfl⟩ := getTo_eq_some_iff.mp h
  exact List.length_take_of_le hb

theorem len_of_getFrom {s r : Slice} {a : ℕ} (h : s.getFrom a = some r) : r.len = s.len - a := by
  obtain ⟨-, rfl⟩ := getFrom_eq_some_iff.mp h
  simp [len]

theorem getTo_append_left {st : ℕ} {xs ys : List UInt8} {n : ℕ} (h : n = xs.length) :
    (⟨st, xs ++ ys⟩ : Slice).getTo n = some ⟨st, xs⟩ := by
  subst h
  simp [getTo, len]

/-- `s.get(a..)?.get(..n)` is `s.get(a..a + n)`. -/
theorem getFrom_bind_getTo (s : Slice) (a n : ℕ) :
    (s.getFrom a).bind (·.getTo n) = s.getRange a (a + n) := by
  by_cases hroom : a + n ≤ s.len
  · have ha : a ≤ s.len := by omega
    have hn : n ≤ (s.bytes.drop a).length := by
      rw [List.length_drop]
      exact Nat.le_sub_of_add_le' hroom
    rw [getFrom, if_pos ha, Option.bind_some, getTo, len, if_pos hn, getRange,
      if_pos ⟨Nat.le_add_right a n, hroom⟩, List.drop_take, Nat.add_sub_cancel_left]
  · rw [getRange, if_neg (fun h => hroom h.2), getFrom]
    split
    · have hn : ¬ n ≤ (s.bytes.drop a).length := by
        rw [List.length_drop]
        show ¬ n ≤ s.len - a
        omega
      exact if_neg hn
    · rfl

/-- Cutting from an offset on, and then to a length. -/
theorem getRange_of_getTo {buffer remaining slice : Slice} {a : ℕ}
    (h : buffer.getFrom a = some remaining) (h' : remaining.getTo slice.len = some slice) :
    buffer.getRange a (a + slice.len) = some slice := by
  rw [← getFrom_bind_getTo, h]
  exact h'

/-- The bytes of a sub-slice are a contiguous run of the bytes of the whole. -/
theorem infix_of_getFrom {s r : Slice} {a : ℕ} (h : s.getFrom a = some r) :
    r.bytes <:+: s.bytes := by
  obtain ⟨-, rfl⟩ := getFrom_eq_some_iff.mp h
  exact (List.drop_suffix a s.bytes).isInfix

theorem infix_of_getRange {s r : Slice} {a b : ℕ} (h : s.getRange a b = some r) :
    r.bytes <:+: s.bytes := by
  obtain ⟨-, rfl⟩ := getRange_eq_some_iff.mp h
  exact ((List.drop_suffix a _).isInfix).trans (List.take_prefix b s.bytes).isInfix

theorem len_of_getRange {s r : Slice} {a b : ℕ} (h : s.getRange a b = some r) :
    r.len = b - a := by
  obtain ⟨⟨-, hb⟩, rfl⟩ := getRange_eq_some_iff.mp h
  rw [len] at hb ⊢
  rw [List.length_drop, List.length_take_of_le hb]

/-- Cutting from an offset on, and then to a length, within the slice. -/
theorem exists_getFrom_getTo {s : Slice} {a n : ℕ} (h : a + n ≤ s.len) :
    ∃ remaining, s.getFrom a = some remaining ∧
      remaining.getTo n = some ⟨s.start + a, (s.bytes.drop a).take n⟩ := by
  refine ⟨_, getFrom_eq_some_iff.mpr ⟨by omega, rfl⟩, getTo_eq_some_iff.mpr ⟨?_, rfl⟩⟩
  rw [len] at h ⊢
  rw [List.length_drop]
  omega

/-- Cutting from an offset on, within a range: what lies beyond the range is gone. -/
theorem getFrom_of_getRange {s r e : Slice} {a b o : ℕ} (he : s.getRange a b = some e)
    (hr : s.getFrom (a + o) = some r) (hle : a + o ≤ b) :
    e.getFrom o = some ⟨r.start, r.bytes.take (b - (a + o))⟩ := by
  obtain ⟨⟨-, hb⟩, rfl⟩ := getRange_eq_some_iff.mp he
  obtain ⟨-, rfl⟩ := getFrom_eq_some_iff.mp hr
  rw [len] at hb
  refine getFrom_eq_some_iff.mpr ⟨?_, ?_⟩
  · rw [len, List.length_drop, List.length_take_of_le hb]
    omega
  · rw [List.drop_drop, Nat.add_assoc]
    exact congrArg (Slice.mk (s.start + (a + o))) (List.drop_take ..).symm

/-- Bytes beyond a slice do not matter to it. -/
theorem getTo_take {r x : Slice} {n k : ℕ} (h : r.getTo n = some x) (hn : n ≤ k) :
    (⟨r.start, r.bytes.take k⟩ : Slice).getTo n = some x := by
  obtain ⟨hlen, rfl⟩ := getTo_eq_some_iff.mp h
  rw [len] at hlen
  refine getTo_eq_some_iff.mpr ⟨?_, ?_⟩
  · rw [len, List.length_take]
    omega
  · rw [List.take_take, Nat.min_eq_left hn]

theorem getTo_append {r x : Slice} {n : ℕ} (h : r.getTo n = some x) (ys : List UInt8) :
    (⟨r.start, r.bytes ++ ys⟩ : Slice).getTo n = some x := by
  obtain ⟨hlen, rfl⟩ := getTo_eq_some_iff.mp h
  rw [len] at hlen
  refine getTo_eq_some_iff.mpr ⟨?_, ?_⟩
  · rw [len, List.length_append]
    omega
  · rw [List.take_append_of_le_length hlen]

/-! ### Slices in a row -/

/-- The slices are cut out of `s` one behind the other: the first starts at `a`, each next one where
the one before it ends, and the last ends at `b`. -/
def Consecutive (s : Slice) : ℕ → List Slice → ℕ → Prop
  | a, [], b => a = b
  | a, x :: xs, b => s.getRange a (a + x.len) = some x ∧ Consecutive s (a + x.len) xs b

/-- A slice can be cut into pieces of one size. -/
theorem exists_consecutive (s : Slice) (size : ℕ) : ∀ (n : ℕ) {a : ℕ}, a + n * size ≤ s.len →
    ∃ xs, xs.length = n ∧ (∀ x ∈ xs, x.len = size) ∧ s.Consecutive a xs (a + n * size) := by
  intro n
  induction n with
  | zero =>
    intro a _
    refine ⟨[], rfl, nofun, ?_⟩
    rw [Nat.zero_mul]
    rfl
  | succ n ih =>
    intro a hle
    have hsum : a + (n + 1) * size = a + size + n * size := by
      rw [Nat.succ_mul, Nat.add_assoc, Nat.add_comm size]
    rw [hsum] at hle ⊢
    obtain ⟨xs, hlen, hsize, hxs⟩ := ih hle
    have hx : s.getRange a (a + size) =
        some ⟨s.start + a, (s.bytes.take (a + size)).drop a⟩ :=
      getRange_eq_some_iff.mpr ⟨⟨Nat.le_add_right _ _, by omega⟩, rfl⟩
    have hxlen := len_of_getRange hx
    rw [Nat.add_sub_cancel_left] at hxlen
    refine ⟨_ :: xs, congrArg (· + 1) hlen, List.forall_mem_cons.mpr ⟨hxlen, hsize⟩, ?_⟩
    rw [Consecutive, hxlen]
    exact ⟨hx, hxs⟩

/-- Together the slices hold the bytes from `a` to `b`. -/
theorem Consecutive.flatMap_bytes {s : Slice} : ∀ {xs : List Slice} {a b : ℕ},
    s.Consecutive a xs b → a ≤ s.len →
      b ≤ s.len ∧ a ≤ b ∧ xs.flatMap bytes = (s.bytes.take b).drop a
  | [], a, b, h, ha => by
    obtain rfl : a = b := h
    refine ⟨ha, Nat.le_refl a, ?_⟩
    rw [List.drop_take, Nat.sub_self, List.take_zero]
    rfl
  | x :: xs, a, b, h, _ => by
    obtain ⟨hx, hxs⟩ := h
    obtain ⟨⟨hle, hlen⟩, heq⟩ := getRange_eq_some_iff.mp hx
    obtain ⟨hb, hab, hbytes⟩ := hxs.flatMap_bytes hlen
    refine ⟨hb, Nat.le_trans hle hab, ?_⟩
    rw [List.flatMap_cons, hbytes, ← List.take_append_drop x.len ((s.bytes.take b).drop a),
      List.drop_drop, List.take_drop, List.take_take, Nat.min_eq_left hab]
    exact congrArg (· ++ _) (congrArg bytes heq)

end Slice

/-! ### Integers -/

/-- The bytes read as a little-endian integer. -/
def leValue : List UInt8 → ℕ
  | [] => 0
  | b :: bs => b.toNat + 256 * leValue bs

/-- The bytes read as a big-endian integer. -/
def beValue (bytes : List UInt8) : ℕ := leValue bytes.reverse

theorem leValue_lt : ∀ bytes : List UInt8, leValue bytes < 256 ^ bytes.length
  | [] => by simp [leValue]
  | b :: bs => by
    have hb : b.toNat < 256 := b.toNat_lt
    have hrest := leValue_lt bs
    simp only [leValue, List.length_cons, Nat.pow_succ]
    omega

theorem beValue_lt (bytes : List UInt8) : beValue bytes < 256 ^ bytes.length := by
  simpa [beValue] using leValue_lt bytes.reverse

/-- `bytes.get(..n)`. -/
def take? (n : ℕ) (bytes : List UInt8) : Option (List UInt8) :=
  if n ≤ bytes.length then some (bytes.take n) else none

/-- `bytes[a..b]`, for a range known to be in bounds. -/
def range (a b : ℕ) (bytes : List UInt8) : List UInt8 := (bytes.take b).drop a

theorem take?_append {n : ℕ} {xs : List UInt8} (h : xs.length = n) (ys : List UInt8) :
    take? n (xs ++ ys) = some xs := by
  subst h
  simp [take?]

theorem length_of_take? {n : ℕ} {bytes r : List UInt8} (h : take? n bytes = some r) :
    r.length = n := by
  unfold take? at h
  split at h
  · rename_i hn
    obtain rfl := Option.some.inj h
    exact List.length_take_of_le hn
  · simp at h

/-! ### Terminators -/

/-- `memchr::memchr(b, bytes)`: the index of the first `b`. -/
def memchr (b : UInt8) (bytes : List UInt8) : Option ℕ := bytes.findIdx? (· == b)

theorem memchr_lt {b : UInt8} {bytes : List UInt8} {i : ℕ} (h : memchr b bytes = some i) :
    i < bytes.length := by
  obtain ⟨hi, -⟩ := List.findIdx?_eq_some_iff_getElem.mp h
  exact hi

/-- A terminator put after bytes that do not hold it is found there, whatever follows. -/
theorem memchr_append_zero {body : List UInt8} (h : 0 ∉ body) (rest : List UInt8) :
    memchr 0 (body ++ 0 :: rest) = some body.length := by
  have hnone : body.findIdx? (· == 0) = none := by
    rw [List.findIdx?_eq_none_iff]
    intro x hx
    simpa using fun hx0 : x = 0 => h (hx0 ▸ hx)
  simp [memchr, List.findIdx?_append, hnone, List.findIdx?_cons]

/-- What is found is the first one. -/
theorem eq_of_memchr_zero {bytes : List UInt8} {n : ℕ} (h : memchr 0 bytes = some n) :
    bytes = bytes.take n ++ 0 :: bytes.drop (n + 1) ∧ 0 ∉ bytes.take n := by
  obtain ⟨hlt, hzero, hbefore⟩ := List.findIdx?_eq_some_iff_getElem.mp h
  constructor
  · rw [← beq_iff_eq.mp hzero, ← List.drop_eq_getElem_cons hlt, List.take_append_drop]
  · intro hmem
    obtain ⟨j, hj, hget⟩ := List.mem_take_iff_getElem.mp hmem
    exact hbefore j (by omega) (beq_iff_eq.mpr hget)

/-- `bytes.chunks_exact(2).map(u16::from_ne_bytes)`: a trailing odd byte is left out. -/
def codeUnits : List UInt8 → List UInt16
  | a :: b :: rest => UInt16.ofNat (leValue [a, b]) :: codeUnits rest
  | _ => []

theorem length_codeUnits : ∀ bytes : List UInt8, (codeUnits bytes).length = bytes.length / 2
  | [] => rfl
  | [_] => by simp [codeUnits]
  | _ :: _ :: rest => by
    simp only [codeUnits, List.length_cons, length_codeUnits rest]
    omega

/-- Code units of a concatenation, when the first part holds a whole number of them. -/
theorem codeUnits_append : ∀ {xs : List UInt8}, 2 ∣ xs.length → ∀ ys : List UInt8,
    codeUnits (xs ++ ys) = codeUnits xs ++ codeUnits ys
  | [], _, _ => rfl
  | [_], h, _ => by simp at h
  | _ :: _ :: rest, h, ys => by
    have hrest : 2 ∣ rest.length := by
      simp only [List.length_cons] at h
      omega
    simp only [List.cons_append, codeUnits, codeUnits_append hrest ys]

/-- A wide terminator put after a whole number of nonzero code units is found there. -/
theorem findIdx_codeUnits_append_zero {body : List UInt8} (heven : 2 ∣ body.length)
    (h : 0 ∉ codeUnits body) (rest : List UInt8) :
    (codeUnits (body ++ 0 :: 0 :: rest)).findIdx? (· == 0) = some (body.length / 2) := by
  have hnone : (codeUnits body).findIdx? (· == 0) = none := by
    rw [List.findIdx?_eq_none_iff]
    intro x hx
    simpa using fun hx0 : x = 0 => h (hx0 ▸ hx)
  have hzero : UInt16.ofNat (leValue [0, 0]) = 0 := by decide
  rw [codeUnits_append heven, List.findIdx?_append, hnone]
  simp [codeUnits, hzero, List.findIdx?_cons, length_codeUnits]

theorem findIdx_codeUnits_lt {bytes : List UInt8} {i : ℕ}
    (h : (codeUnits bytes).findIdx? (· == 0) = some i) : (i + 1) * 2 ≤ bytes.length := by
  obtain ⟨hi, -⟩ := List.findIdx?_eq_some_iff_getElem.mp h
  rw [length_codeUnits] at hi
  omega

/-! ### More bytes behind -/

/-- Within a prefix, the first match is the first match of the whole. -/
theorem findIdx?_append_of_lt {α : Type*} (p : α → Bool) {xs : List α} {i : ℕ} (hi : i < xs.length)
    (ys : List α) : (xs ++ ys).findIdx? p = some i ↔ xs.findIdx? p = some i := by
  rw [List.findIdx?_append]
  cases h : xs.findIdx? p with
  | some j => simp
  | none =>
    simp only [Option.none_or, Option.map_eq_some_iff, reduceCtorEq, iff_false, not_exists, not_and]
    intro j _
    omega

/-- What follows changes at most the last code unit of an odd number of bytes. -/
theorem codeUnits_isPrefix : ∀ xs ys : List UInt8, codeUnits xs <+: codeUnits (xs ++ ys)
  | [], _ => List.nil_prefix
  | [_], _ => List.nil_prefix
  | _ :: _ :: rest, ys => by
    simp only [List.cons_append, codeUnits]
    exact (List.prefix_cons_inj _).mpr (codeUnits_isPrefix rest ys)

/-- A wide terminator within the bytes is found there, whatever follows. -/
theorem findIdx_codeUnits_append {xs : List UInt8} {i : ℕ} (hi : (i + 1) * 2 ≤ xs.length)
    (ys : List UInt8) :
    (codeUnits (xs ++ ys)).findIdx? (· == 0) = some i ↔
      (codeUnits xs).findIdx? (· == 0) = some i := by
  obtain ⟨zs, hzs⟩ := codeUnits_isPrefix xs ys
  rw [← hzs]
  refine findIdx?_append_of_lt _ ?_ zs
  rw [length_codeUnits]
  omega

theorem take?_append_of_le {n : ℕ} {xs : List UInt8} (h : n ≤ xs.length) (ys : List UInt8) :
    take? n (xs ++ ys) = take? n xs := by
  rw [take?, take?, if_pos h, if_pos (by rw [List.length_append]; omega),
    List.take_append_of_le_length h]

end Rust
