import Ferrisetw2.Lib.Checked
import Ferrisetw2.Lib.Slice

/-!
# Filling buffers, and reading them

A buffer is allocated with some size, and written to at offsets. A write that does not end within
the allocation is out of bounds. Writes that follow one another fill what they cover with their
concatenation, whatever was there. A read is checked in the same way.

## Main definitions

* `writeAt`, `writeAll` — writes into an allocation
* `readAt`, `readRange` — reads of a byte and of a range
* `inOrder` — pieces placed one behind the other
* `chunksExact` — a buffer in pieces of one size

## Main results

* `writeAll_inOrder` — pieces as long as the allocation fill it
* `chunksExact_flatMap` — pieces of one size are found again
-/

namespace Rust

/-! ### Writing -/

/-- The bytes written at the offset. -/
def writeAt (offset : ℕ) (bytes mem : List UInt8) : Checked (List UInt8) :=
  if offset + bytes.length ≤ mem.length then
    .ok (mem.take offset ++ bytes ++ mem.drop (offset + bytes.length))
  else .error .outOfBounds

/-- One write after the other. -/
def writeAll : List (ℕ × List UInt8) → List UInt8 → Checked (List UInt8)
  | [], mem => .ok mem
  | (offset, bytes) :: writes, mem => do
    let mem ← writeAt offset bytes mem
    writeAll writes mem

/-- The writes that place the pieces one behind the other. -/
def inOrder : ℕ → List (List UInt8) → List (ℕ × List UInt8)
  | _, [] => []
  | offset, piece :: pieces => (offset, piece) :: inOrder (offset + piece.length) pieces

theorem inOrder_append (offset : ℕ) (ps qs : List (List UInt8)) :
    inOrder offset (ps ++ qs) = inOrder offset ps ++ inOrder (offset + ps.flatten.length) qs := by
  induction ps generalizing offset with
  | nil => rfl
  | cons p ps ih =>
    rw [List.cons_append, inOrder, ih, List.flatten_cons, List.length_append, Nat.add_assoc]
    rfl

/-- A write behind what is done. -/
theorem writeAt_append {done bytes rest : List UInt8} (h : bytes.length ≤ rest.length) :
    writeAt done.length bytes (done ++ rest) = .ok (done ++ bytes ++ rest.drop bytes.length) := by
  rw [writeAt, if_pos (by rw [List.length_append]; omega), List.take_left', List.drop_append]
  · simp
  · rfl

theorem writeAll_inOrder_append (pieces : List (List UInt8)) (done : List UInt8)
    {rest : List UInt8} (h : pieces.flatten.length ≤ rest.length) :
    writeAll (inOrder done.length pieces) (done ++ rest) =
      .ok (done ++ pieces.flatten ++ rest.drop pieces.flatten.length) := by
  induction pieces generalizing done rest with
  | nil => simp [writeAll, inOrder]
  | cons piece pieces ih =>
    rw [List.flatten_cons, List.length_append] at h
    have hrest : pieces.flatten.length ≤ (rest.drop piece.length).length := by
      rw [List.length_drop]
      omega
    have hdone := ih (done ++ piece) hrest
    rw [List.length_append] at hdone
    rw [inOrder, writeAll, writeAt_append (by omega), bind_ok, hdone, List.drop_drop,
      List.flatten_cons, List.length_append, List.append_assoc, List.append_assoc,
      List.append_assoc, List.append_assoc]

/-- **Pieces as long as the allocation fill it.** -/
theorem writeAll_inOrder {pieces : List (List UInt8)} {mem : List UInt8}
    (h : mem.length = pieces.flatten.length) :
    writeAll (inOrder 0 pieces) mem = .ok pieces.flatten := by
  have hfill := writeAll_inOrder_append pieces [] (Nat.le_of_eq h.symm)
  rw [← h, List.drop_length, List.nil_append, List.nil_append, List.append_nil] at hfill
  exact hfill

/-! ### Reading -/

/-- `bytes[i]`. -/
def readAt (i : ℕ) (bytes : List UInt8) : Checked UInt8 :=
  match bytes[i]? with
  | some b => .ok b
  | none => .error .outOfBounds

/-- `bytes[a..b]`. -/
def readRange (a b : ℕ) (bytes : List UInt8) : Checked (List UInt8) :=
  if a ≤ b ∧ b ≤ bytes.length then .ok (range a b bytes) else .error .outOfBounds

theorem readAt_of_getElem? {i : ℕ} {b : UInt8} {bytes : List UInt8} (h : bytes[i]? = some b) :
    readAt i bytes = .ok b := by
  rw [readAt, h]

theorem readRange_of_le {a b : ℕ} {bytes : List UInt8} (hab : a ≤ b) (hb : b ≤ bytes.length) :
    readRange a b bytes = .ok (range a b bytes) := if_pos ⟨hab, hb⟩

/-! ### Chunks -/

/-- `bytes.chunks_exact(k)`: what is left at the end is left out. -/
def chunksExact (k : ℕ) (bytes : List UInt8) : List (List UInt8) :=
  (List.range (bytes.length / k)).map fun i => (bytes.drop (i * k)).take k

theorem chunksExact_of_lt {k : ℕ} {bytes : List UInt8} (h : bytes.length < k) :
    chunksExact k bytes = [] := by
  rw [chunksExact, Nat.div_eq_of_lt h]
  rfl

theorem chunksExact_append {k : ℕ} (hk : 0 < k) {chunk : List UInt8} (h : chunk.length = k)
    (rest : List UInt8) : chunksExact k (chunk ++ rest) = chunk :: chunksExact k rest := by
  have hlength : (chunk ++ rest).length / k = rest.length / k + 1 := by
    rw [List.length_append, h, Nat.add_comm, Nat.add_div_right _ hk]
  rw [chunksExact, hlength, List.range_succ_eq_map, List.map_cons, List.map_map]
  congr 1
  · rw [Nat.zero_mul, List.drop_zero, List.take_left' h]
  · rw [chunksExact]
    refine List.map_congr_left fun i _ => ?_
    show ((chunk ++ rest).drop ((i + 1) * k)).take k = (rest.drop (i * k)).take k
    rw [Nat.add_mul, Nat.one_mul, Nat.add_comm, ← List.drop_drop, List.drop_left' h]

/-- **Pieces of one size are found again**, and what follows them is left out if it is shorter. -/
theorem chunksExact_flatMap {α : Type*} {k : ℕ} {f : α → List UInt8} {xs : List α}
    {rest : List UInt8} (hf : ∀ x ∈ xs, (f x).length = k) (hrest : rest.length < k) :
    chunksExact k (xs.flatMap f ++ rest) = xs.map f := by
  induction xs with
  | nil => exact chunksExact_of_lt hrest
  | cons x xs ih =>
    rw [List.flatMap_cons, List.append_assoc,
      chunksExact_append (Nat.zero_lt_of_lt hrest) (hf x List.mem_cons_self),
      ih fun y hy => hf y (List.mem_cons_of_mem _ hy), List.map_cons]

end Rust
