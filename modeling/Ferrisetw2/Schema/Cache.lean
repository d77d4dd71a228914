import Ferrisetw2.Lib.CallMachine
import Ferrisetw2.Lib.HashMap
import Ferrisetw2.Native.ExtendedData

/-!
# The schema cache

Schemas are cached under two keys, the descriptor of the event and its name, and a counter bounds
how many. `schema_locator.rs`.

`store` makes sure the descriptor has an inner map before it looks at the counter. Once the cache is
full, a schema under a new descriptor is not cached, but the inner map made for it stays: the bound
on schemas is none on descriptors.

## Main definitions

* `SchemaKey`, `SchemaCache`
* `SchemaCache.cached`, `SchemaCache.store` — the two things done under the lock
* `SchemaCache.Counts` — the counter is right, and bounded
* `SchemaCache.Bounded` — so are the descriptors

## Main results

* `SchemaCache.cached_store` — what a store changes
* `SchemaCache.counts_store` — the counter stays right
* `SchemaCache.bounded_iff_meets` — the runs that keep the descriptors bounded
-/

namespace Ferrisetw2

open Rust

/-! ### Keys -/

/-- The part of a descriptor that identifies a schema. -/
structure SchemaKey where
  provider : Guid
  id : UInt16
  version : UInt8
  opcode : UInt8
  level : UInt8
  deriving DecidableEq, Repr

/-- `SchemaKey::new`. -/
def SchemaKey.new (event : DescribedRecord) : SchemaKey where
  provider := event.providerId
  id := event.eventId
  version := event.version
  opcode := event.opcode
  level := event.level

/-- The name a schema of the event is cached under: only manifest-free events are told apart
by it. -/
def DescribedRecord.cacheName (event : DescribedRecord) : String :=
  if (SchemaKey.new event).id = 0 then event.eventNameCow else ""

/-! ### The cache -/

/-- `MAX_CACHED_SCHEMAS`. -/
def maxCachedSchemas : ℕ := 4096

/-- `SchemaCache`, of shared schemas. -/
structure SchemaCache (S : Type) where
  schemas : HashMap SchemaKey (HashMap String S)
  /-- Total number of cached schemas. -/
  len : ℕ

namespace SchemaCache

variable {S : Type}

/-- `SchemaCache::default`. -/
def empty : SchemaCache S := ⟨∅, 0⟩

/-- The probe of `event_schema`. -/
def cached (cache : SchemaCache S) (key : SchemaKey) (name : String) : Option S :=
  match cache.schemas.lookup key with
  | some byName => byName.lookup name
  | none => none

/-- `store`. -/
def store (cache : SchemaCache S) (key : SchemaKey) (name : String) (built : S) :
    S × SchemaCache S :=
  -- `entry(key).or_default()`: whatever happens next, the key has an inner map now
  let byName := (cache.schemas.lookup key).getD ∅
  match byName.lookup name with
  | some existing => (existing, { cache with schemas := cache.schemas.insert key byName })
  | none =>
    if cache.len < maxCachedSchemas then
      (built, ⟨cache.schemas.insert key (byName.insert name built), cache.len + 1⟩)
    else (built, { cache with schemas := cache.schemas.insert key byName })

/-- A call of `store`. -/
structure StoreCall (S : Type) where
  key : SchemaKey
  name : String
  built : S

/-- `store`, as a step. -/
def storeCall (cache : SchemaCache S) (call : StoreCall S) : S × SchemaCache S :=
  cache.store call.key call.name call.built

/-! ### What a store does -/

theorem cached_eq_lookup (cache : SchemaCache S) (key : SchemaKey) (name : String) :
    cache.cached key name = ((cache.schemas.lookup key).getD ∅).lookup name := by
  rw [cached]
  cases cache.schemas.lookup key with
  | some byName => rfl
  | none => rw [Option.getD_none, Finmap.lookup_empty]

/-- A schema that is there is found again, and nothing changes. -/
theorem store_of_cached {cache : SchemaCache S} {key : SchemaKey} {name : String} {s : S}
    (h : cache.cached key name = some s) (built : S) :
    cache.store key name built = (s, cache) := by
  have hlookup : ∃ byName,
      cache.schemas.lookup key = some byName ∧ byName.lookup name = some s := by
    rw [cached] at h
    split at h
    · rename_i byName hkey
      exact ⟨byName, hkey, h⟩
    · cases h
  obtain ⟨byName, hkey, hname⟩ := hlookup
  simp only [store, hkey, Option.getD_some, hname, HashMap.insert_of_lookup hkey]

/-- With room left, a new schema is cached. -/
theorem store_of_room {cache : SchemaCache S} {key : SchemaKey} {name : String}
    (h : cache.cached key name = none) (hroom : cache.len < maxCachedSchemas) (built : S) :
    cache.store key name built =
      (built, ⟨cache.schemas.insert key (((cache.schemas.lookup key).getD ∅).insert name built),
        cache.len + 1⟩) := by
  rw [cached_eq_lookup] at h
  simp only [store, h, if_pos hroom]

/-- Once the cache is full, a new schema leaves an inner map behind and nothing else. -/
theorem store_of_full {cache : SchemaCache S} {key : SchemaKey} {name : String}
    (h : cache.cached key name = none) (hfull : maxCachedSchemas ≤ cache.len) (built : S) :
    cache.store key name built =
      (built, ⟨cache.schemas.insert key ((cache.schemas.lookup key).getD ∅), cache.len⟩) := by
  rw [cached_eq_lookup] at h
  simp only [store, h, if_neg (Nat.not_lt.mpr hfull)]

/-- What is cached after an update of one inner map. -/
theorem cached_insert (cache : SchemaCache S) (key key' : SchemaKey) (name' : String)
    (inner : HashMap String S) (n : ℕ) :
    (⟨cache.schemas.insert key inner, n⟩ : SchemaCache S).cached key' name' =
      if key' = key then inner.lookup name' else cache.cached key' name' := by
  rw [cached_eq_lookup, cached_eq_lookup, HashMap.lookup_insert_eq]
  split <;> rfl

/-- **What a store changes**: one entry at most, one that was not there, and only with room left. -/
theorem cached_store (cache : SchemaCache S) (key key' : SchemaKey) (name name' : String)
    (built : S) : (cache.store key name built).2.cached key' name' =
      if cache.cached key name = none ∧ cache.len < maxCachedSchemas ∧ key' = key ∧ name' = name
      then some built else cache.cached key' name' := by
  cases h : cache.cached key name with
  | some s => simp [store_of_cached h]
  | none =>
    by_cases hroom : cache.len < maxCachedSchemas
    · rw [store_of_room h hroom, cached_insert, HashMap.lookup_insert_eq]
      by_cases hkey : key' = key
      · subst hkey
        rw [if_pos rfl, ← cached_eq_lookup]
        simp [hroom]
      · simp [hkey]
    · rw [store_of_full h (Nat.not_lt.mp hroom), cached_insert]
      by_cases hkey : key' = key
      · subst hkey
        rw [if_pos rfl, ← cached_eq_lookup]
        simp [hroom]
      · simp [hkey]

/-- Entries stay what they are. -/
theorem cached_store_of_cached {cache : SchemaCache S} {key key' : SchemaKey}
    {name name' : String} {s : S} (h : cache.cached key' name' = some s) (built : S) :
    (cache.store key name built).2.cached key' name' = some s := by
  rw [cached_store, if_neg]
  · exact h
  · rintro ⟨hnone, -, rfl, rfl⟩
    rw [hnone] at h
    cases h

/-- What is stored is what the caller gets back, unless another schema was there first. -/
theorem store_fst (cache : SchemaCache S) (key : SchemaKey) (name : String) (built : S) :
    (cache.store key name built).1 = (cache.cached key name).getD built := by
  cases h : cache.cached key name with
  | some s => rw [store_of_cached h, Option.getD_some]
  | none =>
    by_cases hroom : cache.len < maxCachedSchemas
    · rw [store_of_room h hroom, Option.getD_none]
    · rw [store_of_full h (Nat.not_lt.mp hroom), Option.getD_none]

/-! ### The counter -/

/-- The counter is the number of cached schemas, and bounded. -/
structure Counts (cache : SchemaCache S) : Prop where
  len_eq : cache.len = HashMap.nestedSize cache.schemas
  len_le : cache.len ≤ maxCachedSchemas

theorem counts_empty : Counts (empty : SchemaCache S) := ⟨rfl, Nat.zero_le _⟩

/-- The counter stays right. -/
theorem counts_store {cache : SchemaCache S} (h : Counts cache) (key : SchemaKey) (name : String)
    (built : S) : Counts (cache.store key name built).2 := by
  cases hc : cache.cached key name with
  | some s => rwa [store_of_cached hc]
  | none =>
    have hinner := hc
    rw [cached_eq_lookup, Finmap.lookup_eq_none] at hinner
    by_cases hroom : cache.len < maxCachedSchemas
    · rw [store_of_room hc hroom]
      have hsize := HashMap.nestedSize_insert cache.schemas key
        (((cache.schemas.lookup key).getD ∅).insert name built)
      rw [HashMap.card_keys_insert_of_notMem hinner] at hsize
      have := h.len_eq
      constructor
      · simp only
        omega
      · exact hroom
    · rw [store_of_full hc (Nat.not_lt.mp hroom)]
      have hsize := HashMap.nestedSize_insert cache.schemas key ((cache.schemas.lookup key).getD ∅)
      have := h.len_eq
      constructor
      · simp only
        omega
      · exact h.len_le

theorem mem_pairs_iff_cached (cache : SchemaCache S) (key : SchemaKey) (name : String) :
    (key, name) ∈ HashMap.pairs cache.schemas ↔ cache.cached key name ≠ none := by
  rw [HashMap.mem_pairs, cached_eq_lookup, ne_eq, Finmap.lookup_eq_none, not_not]

/-- The counter is at least the number of any entries that are there. -/
theorem Counts.card_le {cache : SchemaCache S} (h : Counts cache) {F : Finset (SchemaKey × String)}
    (hF : ∀ p ∈ F, cache.cached p.1 p.2 ≠ none) : F.card ≤ cache.len := by
  rw [h.len_eq, ← HashMap.card_pairs]
  exact Finset.card_le_card fun p hp => (mem_pairs_iff_cached cache p.1 p.2).mpr (hF p hp)

/-- It is at most the number of any places all entries are at. -/
theorem Counts.len_le_card {cache : SchemaCache S} (h : Counts cache)
    {F : Finset (SchemaKey × String)}
    (hF : ∀ key name, cache.cached key name ≠ none → (key, name) ∈ F) : cache.len ≤ F.card := by
  rw [h.len_eq, ← HashMap.card_pairs]
  exact Finset.card_le_card fun p hp => hF p.1 p.2 ((mem_pairs_iff_cached cache p.1 p.2).mp hp)

/-! ### Descriptors -/

/-- No more descriptors than the cache may hold schemas, each with a schema under it. -/
structure Bounded (cache : SchemaCache S) : Prop where
  card_keys_le : cache.schemas.keys.card ≤ maxCachedSchemas
  ne_empty : ∀ key byName, cache.schemas.lookup key = some byName → byName ≠ ∅

/-- The store is not one under a new descriptor in a full cache. -/
def Admits (cache : SchemaCache S) (call : StoreCall S) : Prop :=
  cache.len < maxCachedSchemas ∨ call.key ∈ cache.schemas

instance (cache : SchemaCache S) (call : StoreCall S) : Decidable (cache.Admits call) :=
  inferInstanceAs (Decidable (_ ∨ _))

theorem bounded_empty : Bounded (empty : SchemaCache S) where
  card_keys_le := Nat.zero_le _
  ne_empty key byName h := by simp [empty] at h

/-- Where no inner map is empty, the counter bounds the descriptors. -/
theorem Counts.bounded {cache : SchemaCache S} (h : Counts cache)
    (hne : ∀ key byName, cache.schemas.lookup key = some byName → byName ≠ ∅) : Bounded cache where
  card_keys_le := by
    calc cache.schemas.keys.card
        ≤ HashMap.nestedSize cache.schemas := HashMap.card_keys_le_nestedSize hne
      _ = cache.len := h.len_eq.symm
      _ ≤ maxCachedSchemas := h.len_le
  ne_empty := hne

theorem insert_ne_empty (m : HashMap String S) (name : String) (s : S) : m.insert name s ≠ ∅ := by
  intro h
  have hlookup := Finmap.lookup_insert (a := name) (b := s) m
  rw [h, Finmap.lookup_empty] at hlookup
  cases hlookup

/-- A store that is admitted makes no empty inner map. -/
theorem bounded_storeCall {cache : SchemaCache S} {call : StoreCall S} (hc : Counts cache)
    (hb : Bounded cache) (ha : cache.Admits call) : Bounded (cache.storeCall call).2 := by
  refine (counts_store hc call.key call.name call.built).bounded fun key byName hkey => ?_
  cases h : cache.cached call.key call.name with
  | some s =>
    rw [store_of_cached h] at hkey
    exact hb.ne_empty key byName hkey
  | none =>
    by_cases hroom : cache.len < maxCachedSchemas
    · rw [store_of_room h hroom, HashMap.lookup_insert_eq] at hkey
      split at hkey
      · cases hkey
        exact insert_ne_empty _ _ _
      · exact hb.ne_empty key byName hkey
    · obtain ⟨inner, hinner⟩ := Finmap.mem_iff.mp (ha.resolve_left hroom)
      rw [store_of_full h (Nat.not_lt.mp hroom), hinner, Option.getD_some,
        HashMap.insert_of_lookup hinner] at hkey
      exact hb.ne_empty key byName hkey

/-- A store that is not admitted makes one. -/
theorem lookup_storeCall_of_not_admits {cache : SchemaCache S} {call : StoreCall S}
    (h : ¬ cache.Admits call) : (cache.storeCall call).2.schemas.lookup call.key = some ∅ := by
  obtain ⟨hfull, hnew⟩ := not_or.mp h
  have hlookup := Finmap.lookup_eq_none.mpr hnew
  have hnone : cache.cached call.key call.name = none := by
    rw [cached_eq_lookup, hlookup, Option.getD_none, Finmap.lookup_empty]
  rw [storeCall, store_of_full hnone (Nat.not_lt.mp hfull), Finmap.lookup_insert, hlookup,
    Option.getD_none]

/-! ### Runs -/

/-- The counter is right after every run of stores. -/
theorem counts_after (calls : List (StoreCall S)) :
    Counts (CallMachine.after storeCall empty calls) :=
  CallMachine.after_of_invariant Counts (fun _ call h => counts_store h _ _ call.built) calls
    counts_empty

/-- A prefix of a guarded run ends with bounded descriptors. -/
theorem bounded_after_of_meets {calls pre : List (StoreCall S)}
    (h : CallMachine.Meets storeCall Admits empty calls) (hpre : pre <+: calls) :
    Bounded (CallMachine.after storeCall empty pre) := by
  rw [CallMachine.meets_iff_forall_prefix] at h
  induction pre using List.reverseRecOn with
  | nil => exact bounded_empty
  | append_singleton pre call ih =>
    rw [CallMachine.after_concat]
    exact bounded_storeCall (counts_after pre) (ih ((List.prefix_append pre [call]).trans hpre))
      (h pre call hpre)

/-- **The runs that keep the cache bounded**, in every state they pass through, are those that store
nothing under a new descriptor once the cache is full. -/
theorem bounded_iff_meets (calls : List (StoreCall S)) :
    ((∀ pre, pre <+: calls → Bounded (CallMachine.after storeCall empty pre)) ∧
      ∀ pre call, pre ++ [call] <+: calls →
        (CallMachine.after storeCall empty pre).len = maxCachedSchemas →
        call.key ∉ (CallMachine.after storeCall empty pre).schemas →
        ((CallMachine.after storeCall empty pre).storeCall call).2.schemas =
          (CallMachine.after storeCall empty pre).schemas) ↔
      CallMachine.Meets storeCall Admits empty calls := by
  constructor
  · rintro ⟨hbounded, -⟩
    rw [CallMachine.meets_iff_forall_prefix]
    intro pre call hpre
    by_contra hnot
    have hb := hbounded (pre ++ [call]) hpre
    rw [CallMachine.after_concat] at hb
    exact hb.ne_empty call.key ∅ (lookup_storeCall_of_not_admits hnot) rfl
  · intro h
    refine ⟨fun pre hpre => bounded_after_of_meets h hpre, ?_⟩
    intro pre call hpre hlen hnew
    rw [CallMachine.meets_iff_forall_prefix] at h
    rcases h pre call hpre with hroom | hold
    · omega
    · exact absurd hold hnew

/-- A descriptor of each id. -/
def idKey (i : ℕ) : SchemaKey :=
  ⟨.ofFields 0 0 0 (List.replicate 8 0), UInt16.ofNat i, 0, 0, 0⟩

theorem toNat_id_idKey {i : ℕ} (h : i ≤ maxCachedSchemas) : (idKey i).id.toNat = i := by
  have hbound : maxCachedSchemas < UInt16.size := by decide
  exact UInt16.toNat_ofNat_of_lt (Nat.lt_of_le_of_lt h hbound)

/-- One schema under each of the first `n` ids. -/
def distinctIds (n : ℕ) : List (StoreCall Unit) := (List.range n).map fun i => ⟨idKey i, "", ()⟩

theorem after_distinctIds_succ (n : ℕ) :
    CallMachine.after storeCall empty (distinctIds (n + 1)) =
      ((CallMachine.after storeCall empty (distinctIds n)).storeCall ⟨idKey n, "", ()⟩).2 := by
  rw [distinctIds, List.range_succ, List.map_append, List.map_singleton, CallMachine.after_concat,
    ← distinctIds]

/-- Up to the bound, each of them is cached, and no other descriptor is there. -/
theorem after_distinctIds {n : ℕ} (h : n ≤ maxCachedSchemas) :
    (CallMachine.after storeCall empty (distinctIds n)).len = n ∧
      ∀ key, key ∈ (CallMachine.after storeCall empty (distinctIds n)).schemas →
        key.id.toNat < n := by
  induction n with
  | zero => exact ⟨rfl, fun key hkey => absurd hkey Finmap.notMem_empty⟩
  | succ n ih =>
    obtain ⟨hlen, hids⟩ := ih (by omega)
    have hid := toNat_id_idKey (Nat.le_of_succ_le h)
    have hnew : idKey n ∉ (CallMachine.after storeCall empty (distinctIds n)).schemas := by
      intro hmem
      have := hids _ hmem
      omega
    have hnone :
        (CallMachine.after storeCall empty (distinctIds n)).cached (idKey n) "" = none := by
      rw [cached_eq_lookup, Finmap.lookup_eq_none.mpr hnew, Option.getD_none, Finmap.lookup_empty]
    rw [after_distinctIds_succ, storeCall, store_of_room hnone (by omega)]
    refine ⟨by rw [hlen], fun key hkey => ?_⟩
    rcases Finmap.mem_insert.mp hkey with rfl | hold
    · omega
    · have := hids key hold
      omega

/-- The store after the cache has filled up leaves an empty inner map behind. -/
theorem not_bounded_of_full {n : ℕ} (h : n = maxCachedSchemas) :
    ¬ Bounded (CallMachine.after storeCall empty (distinctIds (n + 1))) := by
  rw [after_distinctIds_succ]
  intro hb
  obtain ⟨hlen, hids⟩ := after_distinctIds (Nat.le_of_eq h)
  have hnot : ¬ Admits (CallMachine.after storeCall empty (distinctIds n)) ⟨idKey n, "", ()⟩ := by
    rintro (hroom | hmem)
    · omega
    · have hid := hids _ hmem
      rw [toNat_id_idKey (Nat.le_of_eq h)] at hid
      exact Nat.lt_irrefl n hid
  exact hb.ne_empty _ ∅ (lookup_storeCall_of_not_admits hnot) rfl

/-- 4097 stores under as many descriptors. -/
theorem not_bounded_distinctIds :
    ¬ ∀ calls : List (StoreCall Unit), Bounded (CallMachine.after storeCall empty calls) := by
  intro h
  obtain ⟨n, hn⟩ : ∃ n, n = maxCachedSchemas := ⟨_, rfl⟩
  exact not_bounded_of_full hn (h (distinctIds (n + 1)))

end SchemaCache

end Ferrisetw2
