import Mathlib.Data.List.Basic

/-!
# Circular order

The indices below `n`, taken in the order `start`, `start + 1`, …, `n - 1`, `0`, …, `start - 1`. A
search in this order finds the first index ahead, which is the smallest one only where nothing
wraps.

## Main definitions

* `Circular.ahead` — how many places after `start` an index comes

## Main results

* `find?_eq_some`, `find?_eq_none` — what a search in circular order finds
-/

namespace Circular

variable {n start : ℕ}

/-- How many places after `start` an index comes. -/
def ahead (n start j : ℕ) : ℕ := if start ≤ j then j - start else n - start + j

theorem ahead_of_le {j : ℕ} (h : start ≤ j) : ahead n start j = j - start := if_pos h

theorem ahead_of_lt {j : ℕ} (h : j < start) : ahead n start j = n - start + j :=
  if_neg (Nat.not_le.mpr h)

theorem ahead_lt {j : ℕ} (hs : start ≤ n) (hj : j < n) : ahead n start j < n := by
  unfold ahead
  split <;> omega

/-- An index is where its distance says. -/
theorem add_ahead_mod {j : ℕ} (hs : start ≤ n) (hj : j < n) :
    (start + ahead n start j) % n = j := by
  rcases Nat.lt_or_ge j start with h | h
  · have hwrap : start + ahead n start j = n + j := by
      rw [ahead_of_lt h]
      omega
    rw [hwrap, Nat.add_mod_left, Nat.mod_eq_of_lt hj]
  · rw [ahead_of_le h, Nat.add_sub_cancel' h, Nat.mod_eq_of_lt hj]

/-- And the other way round. -/
theorem ahead_add_mod {i : ℕ} (hs : start < n) (hi : i < n) :
    ahead n start ((start + i) % n) = i := by
  rcases Nat.lt_or_ge (start + i) n with h | h
  · rw [Nat.mod_eq_of_lt h, ahead_of_le (Nat.le_add_right ..), Nat.add_sub_cancel_left]
  · have hmod : (start + i) % n = start + i - n := by
      rw [Nat.mod_eq_sub_mod h, Nat.mod_eq_of_lt (by omega)]
    rw [hmod, ahead_of_lt (by omega)]
    omega

/-- An index comes before the larger ones, unless they wrap and it does not. -/
theorem ahead_lt_ahead {i j : ℕ} (hij : i < j) (hj : j < n) (h : start ≤ i ∨ j < start) :
    ahead n start i < ahead n start j := by
  unfold ahead
  split <;> split <;> omega

/-- The indices from `start` on come before those that wrap. -/
theorem ahead_lt_of_wrap {i j : ℕ} (hi : start ≤ i) (hin : i < n) (hj : j < start) :
    ahead n start i < ahead n start j := by
  rw [ahead_of_le hi, ahead_of_lt hj]
  omega

/-- **The first hit in circular order.** -/
theorem find?_eq_some {p : ℕ → Bool} {k : ℕ} (hs : start = 0 ∨ start < n)
    (h : ((List.range n).map fun i => (start + i) % n).find? p = some k) :
    k < n ∧ p k = true ∧ ∀ j < n, ahead n start j < ahead n start k → p j = false := by
  rw [List.find?_map, Option.map_eq_some_iff] at h
  obtain ⟨i, hfind, rfl⟩ := h
  rw [List.find?_range_eq_some] at hfind
  obtain ⟨hi, hmem, hbefore⟩ := hfind
  have hin : i < n := List.mem_range.mp hmem
  refine ⟨Nat.mod_lt _ (by omega), hi, fun j hj hlt => ?_⟩
  rw [ahead_add_mod (by omega) hin] at hlt
  have hno := hbefore _ hlt
  simp only [Function.comp_apply, add_ahead_mod (by omega : start ≤ n) hj,
    Bool.not_eq_true'] at hno
  exact hno

/-- A search in circular order misses nothing. -/
theorem find?_eq_none {p : ℕ → Bool} (hs : start = 0 ∨ start < n)
    (h : ((List.range n).map fun i => (start + i) % n).find? p = none) : ∀ j < n, p j = false := by
  intro j hj
  rw [List.find?_eq_none] at h
  have hmem : j ∈ (List.range n).map fun i => (start + i) % n :=
    List.mem_map.mpr ⟨ahead n start j, List.mem_range.mpr (ahead_lt (by omega) hj),
      add_ahead_mod (by omega) hj⟩
  simpa using h j hmem

end Circular
