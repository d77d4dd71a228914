import Ferrisetw2.Lib.Interleaving
import Ferrisetw2.Schema.Cache

/-!
# Schema lookups from several threads

The lock of the cache is dropped while TDH builds a schema, so `event_schema` is three steps: a
probe under the lock, the TDH call, and a store under the lock again. Threads interleave between
them, and several can build a schema of the same kind of event.

## Main definitions

* `LocatorPc`, `LocatorStep` — where a thread is in `event_schema`, and what it can do next
* `locatorAct` — the steps

## Main results

* `cached_run` — entries are never replaced or removed
* `first_store_wins` — the counter is right in every interleaving, and whoever comes after an entry
  gets it
-/

namespace Ferrisetw2

open Rust Interleaving SchemaCache

/-- Where a thread is in `event_schema`. -/
inductive LocatorPc (S : Type) where
  | idle
  /-- The probe missed, and the lock is released. -/
  | building (key : SchemaKey) (name : String)
  /-- TDH answered. -/
  | storing (key : SchemaKey) (name : String) (built : S)
  | returned (key : SchemaKey) (name : String) (result : Except TdhNativeError S)

/-- A step of `event_schema`. -/
inductive LocatorStep (S : Type) where
  /-- The call, up to its probe. -/
  | lookup (event : DescribedRecord)
  /-- The TDH call, with its answer. -/
  | build (answer : Except TdhNativeError S)
  | store

variable {T S : Type} [DecidableEq T]

/-- The probe: a hit ends the call. -/
def probe (cache : SchemaCache S) (event : DescribedRecord) : LocatorPc S :=
  match cache.cached (.new event) event.cacheName with
  | some s => .returned (.new event) event.cacheName (.ok s)
  | none => .building (.new event) event.cacheName

/-- The steps of a thread. -/
def locatorAct (_ : T) (cache : SchemaCache S) :
    LocatorPc S → LocatorStep S → Option (SchemaCache S × LocatorPc S)
  | .idle, .lookup event => some (cache, probe cache event)
  | .returned _ _ _, .lookup event => some (cache, probe cache event)
  | .building key name, .build (.ok built) => some (cache, .storing key name built)
  | .building key name, .build (.error e) => some (cache, .returned key name (.error e))
  | .storing key name built, .store =>
    some ((cache.store key name built).2, .returned key name (.ok (cache.store key name built).1))
  | _, _ => none

/-- Nobody has called, and nothing is cached. -/
def locatorStart : Config T (SchemaCache S) (LocatorPc S) := ⟨empty, fun _ => .idle⟩

/-- **A step leaves the cache alone or stores.** -/
theorem shared_of_step {c c' : Config T (SchemaCache S) (LocatorPc S)} {t : T} {i : LocatorStep S}
    (h : step locatorAct c t i = some c') :
    c'.shared = c.shared ∨
      ∃ key name built, c.pc t = .storing key name built ∧
        c'.shared = (c.shared.store key name built).2 := by
  have hact := (step_inv h).1
  rw [locatorAct.eq_def] at hact
  split at hact
  case h_5 key name built hpc =>
    exact .inr ⟨key, name, built, hpc, (Prod.mk.inj (Option.some.inj hact)).1.symm⟩
  case h_6 => cases hact
  all_goals exact .inl (Prod.mk.inj (Option.some.inj hact)).1.symm

/-- The counter stays right. -/
theorem counts_run {c c' : Config T (SchemaCache S) (LocatorPc S)} {is : List (T × LocatorStep S)}
    (h : run locatorAct c is = some c') (hc : Counts c.shared) : Counts c'.shared := by
  refine run_invariant (fun c => Counts c.shared) (fun c t i c' hs hc => ?_) h hc
  rcases shared_of_step hs with heq | ⟨key, name, built, -, heq⟩
  · rwa [heq]
  · rw [heq]
    exact counts_store hc key name built

/-- Entries are never replaced or removed. -/
theorem cached_run {c c' : Config T (SchemaCache S) (LocatorPc S)} {is : List (T × LocatorStep S)}
    (h : run locatorAct c is = some c') {key : SchemaKey} {name : String} {s : S}
    (hs : c.shared.cached key name = some s) : c'.shared.cached key name = some s := by
  refine run_invariant (fun c => c.shared.cached key name = some s)
    (fun c t i c' hstep hc => ?_) h hs
  rcases shared_of_step hstep with heq | ⟨key', name', built, -, heq⟩
  · rwa [heq]
  · rw [heq]
    exact cached_store_of_cached hc built

/-- A probe that finds an entry returns it. -/
theorem pc_of_lookup {c c' : Config T (SchemaCache S) (LocatorPc S)} {t : T}
    {event : DescribedRecord} {s : S} (h : step locatorAct c t (.lookup event) = some c')
    (hs : c.shared.cached (.new event) event.cacheName = some s) :
    c'.pc t = .returned (.new event) event.cacheName (.ok s) := by
  have hprobe : probe c.shared event = .returned (.new event) event.cacheName (.ok s) := by
    rw [probe, hs]
  have hact := (step_inv h).1
  rw [locatorAct.eq_def] at hact
  split at hact
  case h_1 hev | h_2 hev =>
    cases hev
    rw [← (Prod.mk.inj (Option.some.inj hact)).2, hprobe]
  all_goals simp_all

/-- A store that finds an entry returns it. -/
theorem pc_of_store {c c' : Config T (SchemaCache S) (LocatorPc S)} {t : T} {key : SchemaKey}
    {name : String} {built s : S} (hpc : c.pc t = .storing key name built)
    (h : step locatorAct c t .store = some c') (hs : c.shared.cached key name = some s) :
    c'.pc t = .returned key name (.ok s) := by
  have hact := (step_inv h).1
  rw [hpc] at hact
  rw [← (Prod.mk.inj (Option.some.inj hact)).2, store_fst, hs, Option.getD_some]

/-- **The first store wins**, in every interleaving. The counter is the number of entries, and
bounded. An entry stays, and every call that probes or stores after it is there returns it. -/
theorem first_store_wins {is : List (T × LocatorStep S)}
    {c : Config T (SchemaCache S) (LocatorPc S)} (h : run locatorAct locatorStart is = some c) :
    c.shared.len = HashMap.nestedSize c.shared.schemas ∧ c.shared.len ≤ maxCachedSchemas ∧
      ∀ key name s, c.shared.cached key name = some s →
        ∀ js d, run locatorAct c js = some d →
          d.shared.cached key name = some s ∧
          (∀ t event d', SchemaKey.new event = key → event.cacheName = name →
            step locatorAct d t (.lookup event) = some d' →
              d'.pc t = .returned key name (.ok s)) ∧
          ∀ t built d', d.pc t = .storing key name built →
            step locatorAct d t .store = some d' → d'.pc t = .returned key name (.ok s) := by
  obtain ⟨hlen, hle⟩ := counts_run h counts_empty
  refine ⟨hlen, hle, fun key name s hs js d hd => ?_⟩
  have hcached := cached_run hd hs
  refine ⟨hcached, ?_, ?_⟩
  · rintro t event d' rfl rfl hstep
    exact pc_of_lookup hstep hcached
  · intro t built d' hpc hstep
    exact pc_of_store hpc hstep hcached

/-- An event without a name. -/
def namelessEvent : DescribedRecord where
  eventFlags := 0
  userData := 0
  userBuffer := []
  userBuffer_le := Nat.zero_le _
  extendedData := []
  providerId := .ofFields 0 0 0 (List.replicate 8 0)
  eventId := 1
  opcode := 0
  version := 0
  level := 0
  items := []
  items_extType := rfl

/-- Two threads miss, and each builds a schema of its own. One has stored it. -/
def race : List (Bool × LocatorStep ℕ) :=
  [(false, .lookup namelessEvent), (true, .lookup namelessEvent), (false, .build (.ok 1)),
    (true, .build (.ok 2)), (false, .store)]

/-- The one that stores second returns the other's. -/
theorem first_store_wins_race :
    ∃ c d : Config Bool (SchemaCache ℕ) (LocatorPc ℕ), run locatorAct locatorStart race = some c ∧
      step locatorAct c true .store = some d ∧
      d.pc true = .returned (.new namelessEvent) "" (.ok 1) := by
  refine ⟨_, _, rfl, rfl, ?_⟩
  have hrun : run locatorAct (locatorStart : Config Bool _ _) race = some _ := rfl
  exact ((first_store_wins hrun).2.2 (.new namelessEvent) "" 1 rfl [] _ rfl).2.2 true 2 _ rfl rfl

end Ferrisetw2
