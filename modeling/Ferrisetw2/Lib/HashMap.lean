import Mathlib.Algebra.BigOperators.Group.Finset.Basic
import Mathlib.Algebra.Order.BigOperators.Group.Finset
import Mathlib.Data.Finmap

/-!
# Hash maps

A hash map is read as a finite map: which keys it has and what they map to, and no order of them.

## Main definitions

* `Rust.HashMap` — `FxHashMap<K, V>`
* `Rust.HashMap.nestedSize`, `Rust.HashMap.pairs` — how many values a map of maps holds, and where

## Main results

* `lookup_insert_eq`, `lookup_erase_eq` — what an update changes
* `nestedSize_insert` — an update of one inner map changes the count by that map's
* `card_pairs` — the count is the number of places
-/

namespace Rust

/-- `FxHashMap<K, V>`. -/
abbrev HashMap (K V : Type*) := Finmap fun _ : K => V

namespace HashMap

variable {K N V : Type*} [DecidableEq K]

theorem lookup_insert_eq (m : HashMap K V) (k k' : K) (v : V) :
    (m.insert k v).lookup k' = if k' = k then some v else m.lookup k' := by
  split
  · rename_i h
    rw [h, Finmap.lookup_insert]
  · rename_i h
    exact Finmap.lookup_insert_of_ne m h

theorem lookup_erase_eq (m : HashMap K V) (k k' : K) :
    (m.erase k).lookup k' = if k' = k then none else m.lookup k' := by
  split
  · rename_i h
    rw [h, Finmap.lookup_erase]
  · rename_i h
    exact Finmap.lookup_erase_ne h

theorem keys_insert (m : HashMap K V) (k : K) (v : V) : (m.insert k v).keys = insert k m.keys := by
  ext k'
  rw [Finmap.mem_keys, Finmap.mem_insert, Finset.mem_insert, Finmap.mem_keys]

theorem card_keys_insert_of_notMem {m : HashMap K V} {k : K} (h : k ∉ m) (v : V) :
    (m.insert k v).keys.card = m.keys.card + 1 := by
  rw [keys_insert, Finset.card_insert_of_notMem (by rwa [Finmap.mem_keys])]

/-- Writing the value a key has changes nothing. -/
theorem insert_of_lookup {m : HashMap K V} {k : K} {v : V} (h : m.lookup k = some v) :
    m.insert k v = m := by
  refine Finmap.ext_lookup fun k' => ?_
  rw [lookup_insert_eq]
  split
  · rename_i hk
    rw [hk, h]
  · rfl

/-- The number of values a map of maps holds. -/
def nestedSize (m : HashMap K (HashMap N V)) : ℕ :=
  ∑ k ∈ m.keys, ((m.lookup k).getD ∅).keys.card

theorem nestedSize_eq_sum_insert (m : HashMap K (HashMap N V)) (k : K) :
    nestedSize m = ∑ k' ∈ insert k m.keys, ((m.lookup k').getD ∅).keys.card := by
  by_cases h : k ∈ m.keys
  · rw [Finset.insert_eq_of_mem h, nestedSize]
  · rw [Finset.sum_insert h, nestedSize, Finmap.lookup_eq_none.mpr (by rwa [Finmap.mem_keys] at h)]
    simp

/-- An update of one inner map changes the count by that map's. -/
theorem nestedSize_insert (m : HashMap K (HashMap N V)) (k : K) (inner : HashMap N V) :
    nestedSize (m.insert k inner) + ((m.lookup k).getD ∅).keys.card =
      nestedSize m + inner.keys.card := by
  have hk : k ∈ insert k m.keys := Finset.mem_insert_self k m.keys
  have hrest : ∑ k' ∈ (insert k m.keys).erase k, (((m.insert k inner).lookup k').getD ∅).keys.card =
      ∑ k' ∈ (insert k m.keys).erase k, ((m.lookup k').getD ∅).keys.card := by
    refine Finset.sum_congr rfl fun k' hk' => ?_
    rw [lookup_insert_eq, if_neg (Finset.ne_of_mem_erase hk')]
  rw [nestedSize_eq_sum_insert m k, nestedSize, keys_insert, ← Finset.add_sum_erase _ _ hk,
    ← Finset.add_sum_erase _ _ hk, hrest, lookup_insert_eq, if_pos rfl, Option.getD_some]
  omega

/-- The pairs of keys under which a map of maps holds a value. -/
def pairs [DecidableEq N] (m : HashMap K (HashMap N V)) : Finset (K × N) :=
  m.keys.biUnion fun k => ((m.lookup k).getD ∅).keys.image (k, ·)

theorem mem_pairs [DecidableEq N] {m : HashMap K (HashMap N V)} {k : K} {n : N} :
    (k, n) ∈ pairs m ↔ n ∈ (m.lookup k).getD ∅ := by
  simp only [pairs, Finset.mem_biUnion, Finset.mem_image, Prod.mk.injEq, Finmap.mem_keys]
  constructor
  · rintro ⟨k', -, n', hn, rfl, rfl⟩
    exact hn
  · intro hn
    refine ⟨k, ?_, n, hn, rfl, rfl⟩
    by_contra hk
    rw [Finmap.lookup_eq_none.mpr hk, Option.getD_none] at hn
    exact Finmap.notMem_empty hn

theorem card_pairs [DecidableEq N] (m : HashMap K (HashMap N V)) :
    (pairs m).card = nestedSize m := by
  rw [pairs, Finset.card_biUnion, nestedSize]
  · exact Finset.sum_congr rfl fun k _ =>
      Finset.card_image_of_injective _ fun _ _ h => (Prod.mk.inj h).2
  · intro k _ k' _ hne
    refine Finset.disjoint_left.mpr fun p hp hp' => ?_
    obtain ⟨n, -, rfl⟩ := Finset.mem_image.mp hp
    obtain ⟨n', -, heq⟩ := Finset.mem_image.mp hp'
    exact hne (Prod.mk.inj heq).1.symm

/-- A map of non-empty maps has no more keys than values. -/
theorem card_keys_le_nestedSize [DecidableEq N] {m : HashMap K (HashMap N V)}
    (h : ∀ k inner, m.lookup k = some inner → inner ≠ ∅) : m.keys.card ≤ nestedSize m := by
  rw [Finset.card_eq_sum_ones, nestedSize]
  refine Finset.sum_le_sum fun k hk => ?_
  obtain ⟨inner, hinner⟩ := Finmap.mem_iff.mp (Finmap.mem_keys.mp hk)
  rw [hinner, Option.getD_some, Nat.one_le_iff_ne_zero, ne_eq, Finset.card_eq_zero]
  intro hempty
  refine h k inner hinner (Finmap.ext_lookup fun n => ?_)
  rw [Finmap.lookup_empty, Finmap.lookup_eq_none, ← Finmap.mem_keys, hempty]
  exact Finset.notMem_empty n

end HashMap

end Rust
