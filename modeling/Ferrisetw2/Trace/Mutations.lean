import Ferrisetw2.Native.Evntrace
import Ferrisetw2.Trace.Registry

/-!
# Runtime provider mutations

`enable_provider` and `disable_provider` change two things that must agree, what is registered for
dispatch and what is enabled on the session. They do so in opposite orders, and Windows can refuse.
A lock is held from before the first change to after the last. `trace.rs`, `callback_data.rs`.

Any number of threads call them, from inside callbacks too, while events are dispatched.

## Main definitions

* `Session` — the lock, the registry, and what Windows has enabled
* `CallPc`, `callAct` — a mutation, step by step
* `sessionAct` — mutations and events, in any order
* `InSection` — what a thread that holds the lock has done since it took it
* `SessionInv`, `ThreadInv` — the invariant, by thread

## Main results

* `session_stable` — no step breaks the invariant
* `inSection_run` — while a call holds the lock, nobody else changes what the lock guards
* `mutations_consistent` — enabled GUIDs are registered, and the other way round once the lock is
  free; a call that fails changes nothing
-/

namespace Ferrisetw2

open Rust Interleaving

/-! ### Calls -/

/-- What a mutation returned. -/
inductive MutationAnswer (P : Type) where
  /-- The provider is enabled. Asking for its state can still fail. -/
  | enabled (provider : P) (captured : Except EvntraceNativeError Unit)
  | refused (provider : P) (e : EvntraceNativeError)
  | disabled (guid : Guid) (result : Except EvntraceNativeError ℕ)

/-- Where a thread is in a mutation: what it does next. -/
inductive CallPc (P : Type) where
  | idle
  | enableLock (provider : P)
  | enableAdd (provider : P)
  | enableCall (provider : P)
  | rollback (provider : P) (e : EvntraceNativeError)
  /-- Rolled back, and about to release the lock. -/
  | refusing (provider : P) (e : EvntraceNativeError)
  /-- Enabled, and about to release the lock. -/
  | enabling (provider : P)
  | capture (provider : P)
  | disableLock (guid : Guid)
  | disableCheck (guid : Guid)
  | disableCall (guid : Guid)
  | disableRemove (guid : Guid)
  /-- Done, and about to release the lock. -/
  | disabling (guid : Guid) (result : Except EvntraceNativeError ℕ)
  | returned (answer : MutationAnswer P)

namespace CallPc

variable {P : Type}

/-- No call is under way. -/
def isResting : CallPc P → Bool
  | .idle | .returned _ => true
  | _ => false

/-- The lock is held. -/
def Critical : CallPc P → Prop
  | .enableAdd _ | .enableCall _ | .rollback _ _ | .refusing _ _ | .enabling _ => True
  | .disableCheck _ | .disableCall _ | .disableRemove _ | .disabling _ _ => True
  | _ => False

/-- The lock is behind the call. -/
def Past : CallPc P → Prop
  | .idle | .capture _ | .returned _ => True
  | _ => False

theorem not_critical_of_isResting {pc : CallPc P} (h : pc.isResting) : ¬ pc.Critical := by
  cases pc with
  | idle | returned _ => exact id
  | _ => cases h

theorem not_critical_of_past {pc : CallPc P} (h : pc.Past) : ¬ pc.Critical := by
  cases pc with
  | idle | capture _ | returned _ => exact id
  | _ => cases h

theorem past_of_isResting {pc : CallPc P} (h : pc.isResting) : pc.Past := by
  cases pc with
  | idle | returned _ => exact trivial
  | _ => cases h

/-- The call is about this provider. -/
def Owns (p : P) : CallPc P → Prop
  | .enableLock q | .enableAdd q | .enableCall q | .enabling q | .capture q => q = p
  | .rollback q _ | .refusing q _ | .returned (.refused q _) => q = p
  | _ => False

/-- The call is about this provider, and has it unregistered. -/
def Off (p : P) : CallPc P → Prop
  | .enableLock q | .enableAdd q | .refusing q _ | .returned (.refused q _) => q = p
  | _ => False

theorem Off.owns {pc : CallPc P} {p : P} (h : pc.Off p) : pc.Owns p := by
  cases pc with
  | returned a =>
    cases a with
    | refused _ _ => exact h
    | _ => cases h
  | enableLock _ | enableAdd _ | refusing _ _ => exact h
  | _ => cases h

end CallPc

/-! ### The session -/

/-- What threads share. -/
structure Session (T P : Type) where
  /-- `session_mutations`: who holds it. -/
  lock : Option T
  /-- `providers`. -/
  registry : ProviderRegistry P Guid
  /-- What Windows has enabled. -/
  enabled : Finset Guid
  /-- Which thread made an `Arc`, for those that there are. -/
  allocated : P → Option T
  /-- The providers whose callbacks have run. -/
  fired : List P

/-- Where a thread is: the event it dispatches, and a call it made, maybe from a callback. -/
structure MutatorPc (P : Type) where
  call : CallPc P
  dispatch : DispatchPc P

/-- What a thread can do. -/
inductive SessionStep (P : Type) where
  /-- `enable_provider`, up to the `Arc::new`. -/
  | enable (provider : P)
  /-- `disable_provider`. -/
  | disable (guid : Guid)
  /-- The next step of the call. If that calls Windows, this is the status. -/
  | proceed (status : UInt32)
  /-- An event of this GUID, up to the lookup. -/
  | onEvent (guid : Guid)
  /-- The next provider's callbacks run. -/
  | invoke

/-- The providers an event has yet to call. -/
def DispatchPc.pending {P : Type} : DispatchPc P → List P
  | .idle => []
  | .dispatching pending _ => pending

variable {T P : Type} (prov : P → Provider)

/-- The GUID of the provider an `Arc` points to. -/
def guidOf (p : P) : Guid := (prov p).guid

section Steps

variable [DecidableEq P] (h : ControlHandle)

/-- The steps of `enable_provider` and of `disable_provider`. -/
def callAct (t : T) (s : Session T P) (status : UInt32) : CallPc P → Option (Session T P × CallPc P)
  | .enableLock p => if s.lock = none then some ({ s with lock := some t }, .enableAdd p) else none
  | .enableAdd p => some ({ s with registry := s.registry.add (guidOf prov) p }, .enableCall p)
  | .enableCall p =>
    match answered (enableProviderCall h (prov p)) status with
    | .ok () => some ({ s with enabled := insert (guidOf prov p) s.enabled }, .enabling p)
    | .error e => some (s, .rollback p e)
  | .rollback p e =>
    some ({ s with registry := (s.registry.removeOne (guidOf prov) p).2 }, .refusing p e)
  | .refusing p e => some ({ s with lock := none }, .returned (.refused p e))
  | .enabling p =>
    some ({ s with lock := none },
      if (prov p).captureState then .capture p else .returned (.enabled p (.ok ())))
  | .capture p =>
    some (s, .returned (.enabled p (answered (captureProviderStateCall h (prov p)) status)))
  | .disableLock g =>
    if s.lock = none then some ({ s with lock := some t }, .disableCheck g) else none
  | .disableCheck g =>
    some (s, if g ∈ s.registry.byGuid then .disableCall g else .disabling g (.ok 0))
  | .disableCall g =>
    match answered (disableProviderCall h g) status with
    | .ok () => some ({ s with enabled := s.enabled.erase g }, .disableRemove g)
    | .error e => some (s, .disabling g (.error e))
  | .disableRemove g =>
    some ({ s with registry := (s.registry.removeAllByGuid (guidOf prov) g).2 },
      .disabling g (.ok (s.registry.removeAllByGuid (guidOf prov) g).1))
  | .disabling g r => some ({ s with lock := none }, .returned (.disabled g r))
  | .idle | .returned _ => none

/-- The steps of a thread. -/
def sessionAct (t : T) (s : Session T P) :
    MutatorPc P → SessionStep P → Option (Session T P × MutatorPc P)
  | ⟨call, dispatch⟩, .enable p =>
    if call.isResting ∧ s.allocated p = none then
      some ({ s with allocated := Function.update s.allocated p (some t) },
        ⟨.enableLock p, dispatch⟩)
    else none
  | ⟨call, dispatch⟩, .disable g =>
    if call.isResting then some (s, ⟨.disableLock g, dispatch⟩) else none
  | ⟨call, dispatch⟩, .proceed status =>
    (callAct prov h t s status call).map fun (s, call) => (s, ⟨call, dispatch⟩)
  | ⟨call, dispatch⟩, .onEvent g =>
    if call.isResting ∧ dispatch.pending.isEmpty then
      some (s, ⟨call, .dispatching (s.registry.snapshot g) []⟩)
    else none
  | ⟨call, .dispatching (p :: ps) invoked⟩, .invoke =>
    if call.isResting then
      some ({ s with fired := s.fired ++ [p] }, ⟨call, .dispatching ps (invoked ++ [p])⟩)
    else none
  | _, .invoke => none

end Steps

/-! ### What holds of a session -/

/-- The enabled GUIDs are those of the registered providers. -/
def Balanced (l : List P) (enabled : Finset Guid) : Prop :=
  ∀ g, g ∈ enabled ↔ ∃ p ∈ l, guidOf prov p = g

/-- The session has the providers of `l` registered, and the GUIDs of `E` enabled. -/
structure Settled (l : List P) (E : Finset Guid) (registry : ProviderRegistry P Guid)
    (enabled : Finset Guid) : Prop where
  indexed : Indexed (guidOf prov) registry l
  enabled_eq : enabled = E

/-- What a thread has done to the session since it took the lock, when `l` was registered and `E`
enabled. -/
def InSection (l : List P) (E : Finset Guid) (registry : ProviderRegistry P Guid)
    (enabled : Finset Guid) : CallPc P → Prop
  | .enableAdd _ => Settled prov l E registry enabled
  | .enableCall p | .rollback p _ => p ∉ l ∧ Settled prov (l ++ [p]) E registry enabled
  | .refusing p _ => p ∉ l ∧ Settled prov l E registry enabled
  | .enabling p => Settled prov (l ++ [p]) (insert (guidOf prov p) E) registry enabled
  | .disableCheck _ | .disableCall _ => Settled prov l E registry enabled
  | .disableRemove g => Settled prov l (E.erase g) registry enabled
  | .disabling g (.ok n) =>
    n = l.countP (guidOf prov · = g) ∧
      Settled prov (l.filter (guidOf prov · ≠ g)) (E.erase g) registry enabled
  | .disabling _ (.error _) => Settled prov l E registry enabled
  | _ => False

variable {prov} in
theorem InSection.critical {l : List P} {E enabled : Finset Guid}
    {registry : ProviderRegistry P Guid} {pc : CallPc P}
    (hsec : InSection prov l E registry enabled pc) : pc.Critical := by
  cases pc with
  | idle | enableLock _ | capture _ | disableLock _ | returned _ => cases hsec
  | _ => exact trivial

/-- While the lock is free, what is enabled is registered. What is registered was allocated. -/
structure SessionInv (s : Session T P) : Prop where
  settled : s.lock = none → ∃ l E, Balanced prov l E ∧ Settled prov l E s.registry s.enabled
  allocated : ∀ p ∈ s.registry.providers, s.allocated p ≠ none

/-- What a thread knows of the session. -/
structure ThreadInv (t : T) (s : Session T P) (pc : MutatorPc P) : Prop where
  lock_iff : pc.call.Critical ↔ s.lock = some t
  section_of_critical : pc.call.Critical → ∃ l E, Balanced prov l E ∧
    InSection prov l E s.registry s.enabled pc.call
  owner : ∀ p, pc.call.Owns p → s.allocated p = some t
  off : ∀ p, pc.call.Off p → p ∉ s.registry.providers

variable {prov} {h : ControlHandle} {t : T} {s s' : Session T P} {pc pc' : CallPc P} {l : List P}
  {E : Finset Guid} {status : UInt32}

theorem Balanced.add (hbal : Balanced prov l E) (p : P) :
    Balanced prov (l ++ [p]) (insert (guidOf prov p) E) := by
  intro g
  rw [Finset.mem_insert, hbal g]
  constructor
  · rintro (rfl | ⟨q, hq, hg⟩)
    · exact ⟨p, List.mem_append_right _ List.mem_cons_self, rfl⟩
    · exact ⟨q, List.mem_append_left _ hq, hg⟩
  · rintro ⟨q, hq, hg⟩
    rcases List.mem_append.mp hq with hq | hq
    · exact .inr ⟨q, hq, hg⟩
    · exact .inl (List.mem_singleton.mp hq ▸ hg.symm)

theorem Balanced.remove (hbal : Balanced prov l E) (g : Guid) :
    Balanced prov (l.filter (guidOf prov · ≠ g)) (E.erase g) := by
  intro g'
  rw [Finset.mem_erase, hbal g']
  constructor
  · rintro ⟨hne, q, hq, hg⟩
    exact ⟨q, List.mem_filter.mpr ⟨hq, decide_eq_true (hg ▸ hne)⟩, hg⟩
  · rintro ⟨q, hq, hg⟩
    obtain ⟨hq, hne⟩ := List.mem_filter.mp hq
    exact ⟨hg ▸ of_decide_eq_true hne, q, hq, hg⟩

/-- Removing a GUID that is not registered changes nothing. -/
theorem Balanced.remove_of_notMem (hbal : Balanced prov l E) {g : Guid}
    (hg : ¬ ∃ p ∈ l, guidOf prov p = g) :
    l.countP (guidOf prov · = g) = 0 ∧ l.filter (guidOf prov · ≠ g) = l ∧ E.erase g = E := by
  refine ⟨?_, ?_, ?_⟩
  · exact List.countP_eq_zero.mpr fun p hp hpg => hg ⟨p, hp, of_decide_eq_true hpg⟩
  · exact List.filter_eq_self.mpr fun p hp => decide_eq_true fun hpg => hg ⟨p, hp, hpg⟩
  · exact Finset.erase_eq_of_notMem fun hmem => hg ((hbal g).mp hmem)

/-- A thread's knowledge survives what it does not read. -/
theorem ThreadInv.congr {pc pc' : MutatorPc P} (hinv : ThreadInv prov t s pc)
    (hcall : pc'.call = pc.call) (hlock : s'.lock = s.lock) (hreg : s'.registry = s.registry)
    (henabled : s'.enabled = s.enabled) (halloc : s'.allocated = s.allocated) :
    ThreadInv prov t s' pc' where
  lock_iff := by rw [hcall, hlock, hinv.lock_iff]
  section_of_critical := by
    rw [hcall, hreg, henabled]
    exact hinv.section_of_critical
  owner := by
    rw [hcall, halloc]
    exact hinv.owner
  off := by
    rw [hcall, hreg]
    exact hinv.off

theorem SessionInv.congr (hinv : SessionInv prov s) (hlock : s'.lock = s.lock)
    (hreg : s'.registry = s.registry) (henabled : s'.enabled = s.enabled)
    (halloc : ∀ p, s.allocated p ≠ none → s'.allocated p ≠ none) : SessionInv prov s' where
  settled := by
    rw [hlock, hreg, henabled]
    exact hinv.settled
  allocated := by
    rw [hreg]
    exact fun p hp => halloc p (hinv.allocated p hp)

variable (prov) in
/-- A session nobody has changed at runtime: the enabled GUIDs are exactly the registered ones. -/
structure Started (c : Config T (Session T P) (MutatorPc P)) : Prop where
  lock_eq : c.shared.lock = none
  indexed : ∃ l, Indexed (guidOf prov) c.shared.registry l
  enabled_iff : ∀ g, g ∈ c.shared.enabled ↔ g ∈ c.shared.registry.byGuid
  allocated : ∀ p ∈ c.shared.registry.providers, c.shared.allocated p ≠ none
  fired_eq : c.shared.fired = []
  pc_eq : ∀ t, c.pc t = ⟨.idle, .idle⟩

theorem Started.holds {c : Config T (Session T P) (MutatorPc P)} (hstart : Started prov c) :
    AllHold (SessionInv prov) (ThreadInv prov) c := by
  obtain ⟨l, hindexed⟩ := hstart.indexed
  refine ⟨⟨fun _ => ⟨l, c.shared.enabled, fun g => ?_, hindexed, rfl⟩, hstart.allocated⟩,
    fun t => ?_⟩
  · rw [hstart.enabled_iff g, hindexed.mem_byGuid_iff]
  · rw [hstart.pc_eq t]
    refine ⟨iff_of_false id ?_, False.elim, fun _ => False.elim, fun _ => False.elim⟩
    rw [hstart.lock_eq]
    exact nofun

/-- In its critical section, a call enables nothing that it has not registered before. -/
theorem InSection.registered {registry : ProviderRegistry P Guid} {enabled : Finset Guid}
    (hsec : InSection prov l E registry enabled pc) (hbal : Balanced prov l E) {g : Guid}
    (hg : g ∈ enabled) : g ∈ registry.byGuid := by
  have hgrown : ∀ p, g ∈ E → ∃ q ∈ l ++ [p], guidOf prov q = g := by
    intro p hg
    obtain ⟨q, hq, hqg⟩ := (hbal g).mp hg
    exact ⟨q, List.mem_append_left _ hq, hqg⟩
  have hshrunk : ∀ g', g ∈ E.erase g' → ∃ q ∈ l.filter (guidOf prov · ≠ g'), guidOf prov q = g :=
    fun g' => (hbal.remove g' g).mp
  cases pc with
  | enableAdd _ | disableCheck _ | disableCall _ =>
    rw [hsec.indexed.mem_byGuid_iff, ← hbal, ← hsec.enabled_eq]
    exact hg
  | refusing _ _ =>
    rw [hsec.2.indexed.mem_byGuid_iff, ← hbal, ← hsec.2.enabled_eq]
    exact hg
  | enableCall p | rollback p _ =>
    rw [hsec.2.indexed.mem_byGuid_iff]
    exact hgrown p (hsec.2.enabled_eq ▸ hg)
  | enabling p =>
    rw [hsec.indexed.mem_byGuid_iff, ← hbal.add p, ← hsec.enabled_eq]
    exact hg
  | disableRemove g' =>
    rw [hsec.indexed.mem_byGuid_iff, ← hbal]
    exact Finset.mem_of_mem_erase (hsec.enabled_eq ▸ hg)
  | disabling g' r =>
    cases r with
    | ok n =>
      rw [hsec.2.indexed.mem_byGuid_iff]
      exact hshrunk g' (hsec.2.enabled_eq ▸ hg)
    | error e =>
      rw [hsec.indexed.mem_byGuid_iff, ← hbal, ← hsec.enabled_eq]
      exact hg
  | idle | enableLock _ | capture _ | disableLock _ | returned _ => cases hsec

/-- While the lock is free, enabled and registered are one. -/
theorem enabled_iff_of_free {c : Config T (Session T P) (MutatorPc P)}
    (hc : AllHold (SessionInv prov) (ThreadInv prov) c) (hfree : c.shared.lock = none) (g : Guid) :
    g ∈ c.shared.enabled ↔ g ∈ c.shared.registry.byGuid := by
  obtain ⟨l, E, hbal, hset⟩ := hc.1.settled hfree
  rw [hset.indexed.mem_byGuid_iff, hset.enabled_eq, hbal g]

variable [DecidableEq P]

/-- **A step under the lock** goes on with what the call does, or releases the lock with what is
enabled registered. -/
theorem callAct_inSection (hact : callAct prov h t s status pc = some (s', pc'))
    (hcrit : pc.Critical) (hbal : Balanced prov l E)
    (hsec : InSection prov l E s.registry s.enabled pc)
    (hoff : ∀ p, pc.Off p → p ∉ s.registry.providers) :
    (pc'.Critical ∧ s'.lock = s.lock ∧ InSection prov l E s'.registry s'.enabled pc') ∨
      pc'.Past ∧ s'.lock = none ∧ ∃ l' E', Balanced prov l' E' ∧
        Settled prov l' E' s'.registry s'.enabled := by
  cases pc with
  | enableAdd p =>
    cases hact
    have hnew : p ∉ l := hsec.indexed.providers_eq ▸ hoff p rfl
    exact .inl ⟨trivial, rfl, hnew, hsec.indexed.add p, hsec.enabled_eq⟩
  | enableCall p =>
    obtain ⟨hnew, hset⟩ := hsec
    rw [callAct] at hact
    split at hact
    · cases hact
      exact .inl ⟨trivial, rfl, hset.indexed, by rw [hset.enabled_eq]⟩
    · cases hact
      exact .inl ⟨trivial, rfl, hnew, hset⟩
  | rollback p e =>
    obtain ⟨hnew, hset⟩ := hsec
    cases hact
    have hkeep : (l ++ [p]).filter (· ≠ p) = l := by
      rw [List.filter_append, List.filter_eq_self.mpr]
      · simp
      · exact fun q hq => decide_eq_true fun hqp => hnew (hqp ▸ hq)
    refine .inl ⟨trivial, rfl, hnew, ?_, hset.enabled_eq⟩
    rw [← hkeep]
    exact (hset.indexed.removeOne p).2
  | refusing p e =>
    cases hact
    exact .inr ⟨trivial, rfl, l, E, hbal, hsec.2.indexed, hsec.2.enabled_eq⟩
  | enabling p =>
    cases hact
    refine .inr ⟨?_, rfl, _, _, hbal.add p, hsec.indexed, hsec.enabled_eq⟩
    split <;> exact trivial
  | disableCheck g =>
    cases hact
    by_cases hg : g ∈ s.registry.byGuid
    · rw [if_pos hg]
      exact .inl ⟨trivial, rfl, hsec⟩
    · rw [if_neg hg]
      rw [hsec.indexed.mem_byGuid_iff] at hg
      obtain ⟨hcount, hfilter, herase⟩ := hbal.remove_of_notMem hg
      refine .inl ⟨trivial, rfl, hcount.symm, ?_⟩
      rwa [hfilter, herase]
  | disableCall g =>
    rw [callAct] at hact
    split at hact
    · cases hact
      exact .inl ⟨trivial, rfl, hsec.indexed, by rw [hsec.enabled_eq]⟩
    · cases hact
      exact .inl ⟨trivial, rfl, hsec⟩
  | disableRemove g =>
    cases hact
    obtain ⟨hcount, hindexed⟩ := hsec.indexed.removeAllByGuid g
    exact .inl ⟨trivial, rfl, hcount, hindexed, hsec.enabled_eq⟩
  | disabling g r =>
    cases hact
    cases r with
    | ok n =>
      exact .inr ⟨trivial, rfl, _, _, hbal.remove g, hsec.2.indexed, hsec.2.enabled_eq⟩
    | error e => exact .inr ⟨trivial, rfl, l, E, hbal, hsec.indexed, hsec.enabled_eq⟩
  | idle | enableLock _ | capture _ | disableLock _ | returned _ => cases hcrit

/-- **A step without the lock** takes it, or leaves alone what it guards. -/
theorem callAct_outside (hact : callAct prov h t s status pc = some (s', pc'))
    (hcrit : ¬ pc.Critical) : s'.registry = s.registry ∧ s'.enabled = s.enabled ∧
      ((s.lock = none ∧ s'.lock = some t ∧ pc'.Critical ∧
        ∀ l E, Settled prov l E s.registry s.enabled →
          InSection prov l E s'.registry s'.enabled pc') ∨
      s'.lock = s.lock ∧ pc'.Past) := by
  cases pc with
  | enableLock p =>
    rw [callAct] at hact
    split at hact
    · rename_i hfree
      cases hact
      exact ⟨rfl, rfl, .inl ⟨hfree, rfl, trivial, fun _ _ => id⟩⟩
    · cases hact
  | disableLock g =>
    rw [callAct] at hact
    split at hact
    · rename_i hfree
      cases hact
      exact ⟨rfl, rfl, .inl ⟨hfree, rfl, trivial, fun _ _ => id⟩⟩
    · cases hact
  | capture p =>
    cases hact
    exact ⟨rfl, rfl, .inr ⟨rfl, trivial⟩⟩
  | idle | returned _ => cases hact
  | enableAdd _ | enableCall _ | rollback _ _ | refusing _ _ | enabling _
  | disableCheck _ | disableCall _ | disableRemove _ | disabling _ _ => exact absurd trivial hcrit

/-- What a step of a call leaves alone. It registers no provider but its own. -/
theorem callAct_frame (hact : callAct prov h t s status pc = some (s', pc')) :
    s'.allocated = s.allocated ∧ s'.fired = s.fired ∧ (∀ p, pc'.Owns p → pc.Owns p) ∧
      ∀ p ∈ s'.registry.providers, p ∈ s.registry.providers ∨ pc = .enableAdd p := by
  cases pc with
  | enableLock p | disableLock g =>
    rw [callAct] at hact
    split at hact
    · cases hact
      exact ⟨rfl, rfl, fun _ => id, fun _ => .inl⟩
    · cases hact
  | enableAdd p =>
    cases hact
    refine ⟨rfl, rfl, fun _ => id, fun q hq => ?_⟩
    rcases List.mem_append.mp hq with hq | hq
    · exact .inl hq
    · exact .inr (List.mem_singleton.mp hq ▸ rfl)
  | enableCall p =>
    rw [callAct] at hact
    split at hact
    all_goals
      cases hact
      exact ⟨rfl, rfl, fun _ => id, fun _ => .inl⟩
  | rollback p e =>
    cases hact
    exact ⟨rfl, rfl, fun _ => id, fun _ hq => .inl (ProviderRegistry.mem_of_mem_removeOne _ hq)⟩
  | refusing p e =>
    cases hact
    exact ⟨rfl, rfl, fun _ => id, fun _ => .inl⟩
  | enabling p =>
    cases hact
    refine ⟨rfl, rfl, fun q hq => ?_, fun _ => .inl⟩
    split at hq
    · exact hq
    · cases hq
  | capture p =>
    cases hact
    exact ⟨rfl, rfl, fun _ => False.elim, fun _ => .inl⟩
  | disableCheck g =>
    cases hact
    refine ⟨rfl, rfl, fun q hq => ?_, fun _ => .inl⟩
    split at hq <;> cases hq
  | disableCall g =>
    rw [callAct] at hact
    split at hact
    all_goals
      cases hact
      exact ⟨rfl, rfl, fun _ => id, fun _ => .inl⟩
  | disableRemove g =>
    cases hact
    exact ⟨rfl, rfl, fun _ => id,
      fun _ hq => .inl (ProviderRegistry.mem_of_mem_removeAllByGuid _ hq)⟩
  | disabling g r =>
    cases hact
    exact ⟨rfl, rfl, fun _ => id, fun _ => .inl⟩
  | idle | returned _ => cases hact

/-- A call unregisters its provider for good. -/
theorem callAct_off (hact : callAct prov h t s status pc = some (s', pc')) {p : P}
    (hoff : pc'.Off p) : pc.Off p ∨ ∃ e, pc = .rollback p e := by
  cases pc with
  | enableLock q =>
    rw [callAct] at hact
    split at hact
    · cases hact
      exact .inl hoff
    · cases hact
  | disableLock g =>
    rw [callAct] at hact
    split at hact
    · cases hact
      cases hoff
    · cases hact
  | enableCall q | disableCall g =>
    rw [callAct] at hact
    split at hact
    all_goals
      cases hact
      cases hoff
  | rollback q e =>
    cases hact
    exact .inr ⟨e, by rw [show q = p from hoff]⟩
  | refusing q e =>
    cases hact
    exact .inl hoff
  | enabling q | disableCheck g =>
    cases hact
    split at hoff <;> cases hoff
  | enableAdd _ | capture _ | disableRemove _ | disabling _ _ =>
    cases hact
    cases hoff
  | idle | returned _ => cases hact

/-- **What a step does.** -/
theorem session_cases {i : SessionStep P} {pc pc' : MutatorPc P}
    (hact : sessionAct prov h t s pc i = some (s', pc')) :
    (∃ p, i = .enable p ∧ pc.call.isResting ∧ s.allocated p = none ∧
      s' = { s with allocated := Function.update s.allocated p (some t) } ∧
      pc' = ⟨.enableLock p, pc.dispatch⟩) ∨
    (∃ g, i = .disable g ∧ pc.call.isResting ∧ s' = s ∧ pc' = ⟨.disableLock g, pc.dispatch⟩) ∨
    (∃ status call, i = .proceed status ∧ callAct prov h t s status pc.call = some (s', call) ∧
      pc' = ⟨call, pc.dispatch⟩) ∨
    (∃ g, i = .onEvent g ∧ pc.call.isResting ∧ pc.dispatch.pending = [] ∧ s' = s ∧
      pc' = ⟨pc.call, .dispatching (s.registry.snapshot g) []⟩) ∨
    ∃ p ps invoked, i = .invoke ∧ pc.call.isResting ∧ pc.dispatch = .dispatching (p :: ps) invoked ∧
      s' = { s with fired := s.fired ++ [p] } ∧
      pc' = ⟨pc.call, .dispatching ps (invoked ++ [p])⟩ := by
  obtain ⟨call, dispatch⟩ := pc
  cases i with
  | enable p =>
    rw [sessionAct] at hact
    split at hact
    · rename_i hguard
      cases hact
      exact .inl ⟨p, rfl, hguard.1, hguard.2, rfl, rfl⟩
    · cases hact
  | disable g =>
    rw [sessionAct] at hact
    split at hact
    · rename_i hrest
      cases hact
      exact .inr (.inl ⟨g, rfl, hrest, rfl, rfl⟩)
    · cases hact
  | proceed status =>
    obtain ⟨⟨s₁, call₁⟩, hcall, hmk⟩ := Option.map_eq_some_iff.mp hact
    cases hmk
    exact .inr (.inr (.inl ⟨status, call₁, rfl, hcall, rfl⟩))
  | onEvent g =>
    rw [sessionAct] at hact
    split at hact
    · rename_i hguard
      cases hact
      exact .inr (.inr (.inr (.inl ⟨g, rfl, hguard.1, List.isEmpty_iff.mp hguard.2, rfl, rfl⟩)))
    · cases hact
  | invoke =>
    cases dispatch with
    | idle => cases hact
    | dispatching pending invoked =>
      cases pending with
      | nil => cases hact
      | cons p ps =>
        rw [sessionAct] at hact
        split at hact
        · rename_i hrest
          cases hact
          exact .inr (.inr (.inr (.inr ⟨p, ps, invoked, rfl, hrest, rfl, rfl, rfl⟩)))
        · cases hact

/-- What a call has unregistered is not registered. -/
theorem ThreadInv.call_off {pc : MutatorPc P} {call : CallPc P} (hA : ThreadInv prov t s pc)
    (hact : callAct prov h t s status pc.call = some (s', call)) {p : P} (hp : call.Off p) :
    p ∉ s'.registry.providers := by
  rcases callAct_off hact hp with hoff | ⟨e, hpc⟩
  · intro hmem
    rcases (callAct_frame hact).2.2.2 p hmem with hmem | hpc
    · exact hA.off p hoff hmem
    · rw [hpc] at hact
      cases hact
      cases hp
  · obtain ⟨l, E, -, hsec⟩ := hA.section_of_critical (hpc ▸ trivial)
    rw [hpc] at hact hsec
    cases hact
    rw [(hsec.2.indexed.removeOne p).2.providers_eq]
    exact fun hmem => of_decide_eq_true (List.mem_filter.mp hmem).2 rfl

/-- A step of a call keeps what its thread knows, and what everybody knows. -/
theorem call_own {pc : MutatorPc P} {call : CallPc P}
    (hact : callAct prov h t s status pc.call = some (s', call)) (hI : SessionInv prov s)
    (hA : ThreadInv prov t s pc) :
    SessionInv prov s' ∧ ThreadInv prov t s' ⟨call, pc.dispatch⟩ := by
  obtain ⟨halloc, -, howns, hmem⟩ := callAct_frame hact
  have hallocated : ∀ p ∈ s'.registry.providers, s'.allocated p ≠ none := by
    intro p hp
    rw [halloc]
    rcases hmem p hp with hp | hp
    · exact hI.allocated p hp
    · rw [hA.owner p (hp ▸ rfl)]
      exact Option.some_ne_none t
  have howner : ∀ p, call.Owns p → s'.allocated p = some t := by
    intro p hp
    rw [halloc]
    exact hA.owner p (howns p hp)
  have hoff : ∀ p, call.Off p → p ∉ s'.registry.providers := fun p hp => hA.call_off hact hp
  by_cases hcrit : pc.call.Critical
  · have hlock := hA.lock_iff.mp hcrit
    obtain ⟨l, E, hbal, hsec⟩ := hA.section_of_critical hcrit
    rcases callAct_inSection hact hcrit hbal hsec hA.off with
      ⟨hcrit', hlock', hsec'⟩ | ⟨hpast, hlock', hset⟩
    · refine ⟨⟨fun hfree => ?_, hallocated⟩, ?_, fun _ => ⟨l, E, hbal, hsec'⟩, howner, hoff⟩
      · rw [hlock', hlock] at hfree
        cases hfree
      · exact iff_of_true hcrit' (hlock'.trans hlock)
    · refine ⟨⟨fun _ => hset, hallocated⟩, ?_, ?_, howner, hoff⟩
      · exact iff_of_false (CallPc.not_critical_of_past hpast) (hlock' ▸ nofun)
      · exact fun hcrit' => absurd hcrit' (CallPc.not_critical_of_past hpast)
  · obtain ⟨hreg, henabled, hout⟩ := callAct_outside hact hcrit
    rcases hout with ⟨hfree, hlock', hcrit', hsec'⟩ | ⟨hlock', hpast⟩
    · obtain ⟨l, E, hbal, hset⟩ := hI.settled hfree
      refine ⟨⟨fun hfree' => ?_, hallocated⟩, iff_of_true hcrit' hlock',
        fun _ => ⟨l, E, hbal, hsec' l E hset⟩, howner, hoff⟩
      rw [hlock'] at hfree'
      cases hfree'
    · have hout := CallPc.not_critical_of_past hpast
      refine ⟨⟨?_, hallocated⟩, iff_of_false hout ?_, fun hcrit' => absurd hcrit' hout, howner,
        hoff⟩
      · rw [hlock', hreg, henabled]
        exact hI.settled
      · rw [hlock']
        exact fun hheld => hcrit (hA.lock_iff.mpr hheld)

/-- A step of a call keeps what another thread knows. -/
theorem call_other {pc qc : MutatorPc P} {call : CallPc P} {u : T}
    (hact : callAct prov h t s status pc.call = some (s', call)) (hA : ThreadInv prov t s pc)
    (hu : u ≠ t) (hB : ThreadInv prov u s qc) : ThreadInv prov u s' qc := by
  obtain ⟨halloc, -, -, hmem⟩ := callAct_frame hact
  have howner : ∀ p, qc.call.Owns p → s'.allocated p = some u := fun p hp => halloc ▸ hB.owner p hp
  have hoff : ∀ p, qc.call.Off p → p ∉ s'.registry.providers := by
    intro p hp hreg
    rcases hmem p hreg with hreg | hpc
    · exact hB.off p hp hreg
    -- the provider being added belongs to the other thread
    · have hown := hA.owner p (hpc ▸ rfl)
      rw [hB.owner p hp.owns] at hown
      exact hu (Option.some.inj hown)
  by_cases hcrit : pc.call.Critical
  · have hlock := hA.lock_iff.mp hcrit
    have hidle : ¬ qc.call.Critical := by
      intro hq
      rw [hB.lock_iff, hlock] at hq
      exact hu (Option.some.inj hq).symm
    have hlock' : s'.lock ≠ some u := by
      obtain ⟨l, E, hbal, hsec⟩ := hA.section_of_critical hcrit
      rcases callAct_inSection hact hcrit hbal hsec hA.off with ⟨-, hsame, -⟩ | ⟨-, hfree, -⟩
      · rw [hsame, hlock]
        exact fun heq => hu (Option.some.inj heq).symm
      · rw [hfree]
        exact nofun
    exact ⟨iff_of_false hidle hlock', fun hq => absurd hq hidle, howner, hoff⟩
  · obtain ⟨hreg, henabled, hout⟩ := callAct_outside hact hcrit
    have hlock' : s'.lock = some u ↔ s.lock = some u := by
      rcases hout with ⟨hfree, hheld, -, -⟩ | ⟨hsame, -⟩
      · rw [hfree, hheld]
        exact iff_of_false (fun heq => hu (Option.some.inj heq).symm) nofun
      · rw [hsame]
    refine ⟨hB.lock_iff.trans hlock'.symm, ?_, howner, hoff⟩
    rw [hreg, henabled]
    exact hB.section_of_critical

variable (prov h) in
/-- **No step breaks the invariant.** -/
theorem session_stable [DecidableEq T] :
    Stable (sessionAct (T := T) prov h) (SessionInv prov) (ThreadInv prov) where
  own := by
    intro t s pc i s' pc' hact hI hA
    rcases session_cases hact with ⟨p, rfl, hrest, hnew, rfl, rfl⟩ | ⟨g, rfl, hrest, rfl, rfl⟩ |
      ⟨status, call, rfl, hcall, rfl⟩ | ⟨g, rfl, hrest, -, rfl, rfl⟩ |
      ⟨p, ps, invoked, rfl, hrest, -, rfl, rfl⟩
    · have hidle : s.lock ≠ some t := fun hheld =>
        CallPc.not_critical_of_isResting hrest (hA.lock_iff.mpr hheld)
      refine ⟨hI.congr rfl rfl rfl fun q hq => ?_, iff_of_false id hidle, False.elim, ?_, ?_⟩
      · show Function.update s.allocated p (some t) q ≠ none
        rw [Function.update_of_ne (fun heq : q = p => hq (heq ▸ hnew))]
        exact hq
      · rintro q rfl
        exact Function.update_self ..
      · rintro q rfl hmem
        exact hI.allocated p hmem hnew
    · have hidle : s'.lock ≠ some t := fun hheld =>
        CallPc.not_critical_of_isResting hrest (hA.lock_iff.mpr hheld)
      exact ⟨hI, iff_of_false id hidle, False.elim, fun _ => False.elim, fun _ => False.elim⟩
    · exact call_own hcall hI hA
    · exact ⟨hI, hA.congr rfl rfl rfl rfl rfl⟩
    · exact ⟨hI.congr rfl rfl rfl fun _ => id, hA.congr rfl rfl rfl rfl rfl⟩
  other := by
    intro t u s pc qc i s' pc' hact hI hA hu hB
    rcases session_cases hact with ⟨p, rfl, -, hnew, rfl, rfl⟩ | ⟨g, rfl, -, rfl, rfl⟩ |
      ⟨status, call, rfl, hcall, rfl⟩ | ⟨g, rfl, -, -, rfl, rfl⟩ |
      ⟨p, ps, invoked, rfl, -, -, rfl, rfl⟩
    · refine ⟨hB.lock_iff, hB.section_of_critical, fun q hq => ?_, hB.off⟩
      show Function.update s.allocated p (some t) q = some u
      have howner := hB.owner q hq
      rw [Function.update_of_ne, howner]
      rintro rfl
      rw [hnew] at howner
      cases howner
    · exact hB
    · exact call_other hcall hA hu hB
    · exact hB
    · exact hB.congr rfl rfl rfl rfl rfl

/-! ### Runs -/

/-- Behind its lock, a call stays there. -/
theorem callAct_past (hact : callAct prov h t s status pc = some (s', pc')) (hpast : pc.Past) :
    pc'.Past := by
  cases pc with
  | capture p =>
    cases hact
    exact trivial
  | idle | returned _ => cases hact
  | _ => cases hpast

/-- What the lock guards is the business of the thread that holds it. -/
theorem sessionAct_frame {u : T} {pc pc' : MutatorPc P} {i : SessionStep P}
    (hact : sessionAct prov h u s pc i = some (s', pc')) (hB : ThreadInv prov u s pc)
    (hlock : s.lock = some t) (hu : u ≠ t) :
    s'.registry = s.registry ∧ s'.enabled = s.enabled := by
  rcases session_cases hact with ⟨p, rfl, -, -, rfl, rfl⟩ | ⟨g, rfl, -, rfl, rfl⟩ |
    ⟨status, call, rfl, hcall, rfl⟩ | ⟨g, rfl, -, -, rfl, rfl⟩ |
    ⟨p, ps, invoked, rfl, -, -, rfl, rfl⟩
  · exact ⟨rfl, rfl⟩
  · exact ⟨rfl, rfl⟩
  · have hcrit : ¬ pc.call.Critical := by
      intro hcrit
      rw [hB.lock_iff, hlock] at hcrit
      exact hu (Option.some.inj hcrit).symm
    obtain ⟨hreg, henabled, -⟩ := callAct_outside hcall hcrit
    exact ⟨hreg, henabled⟩
  · exact ⟨rfl, rfl⟩
  · exact ⟨rfl, rfl⟩

/-- Taking the lock begins a section in which nothing is done yet. -/
theorem inSection_of_lock {pc pc' : MutatorPc P}
    (hact : sessionAct prov h t s pc (.proceed status) = some (s', pc')) (hI : SessionInv prov s)
    (hpc : (∃ p, pc.call = .enableLock p) ∨ ∃ g, pc.call = .disableLock g) :
    ∃ l E, Balanced prov l E ∧ Settled prov l E s.registry s.enabled ∧
      InSection prov l E s'.registry s'.enabled pc'.call := by
  rcases session_cases hact with ⟨p, hi, -, -, -, -⟩ | ⟨g, hi, -, -, -⟩ |
    ⟨status, call, -, hcall, rfl⟩ | ⟨g, hi, -, -, -, -⟩ | ⟨p, ps, invoked, hi, -, -, -, -⟩
  case inr.inr.inl =>
    have hout : ¬ pc.call.Critical := by
      rcases hpc with ⟨p, hpc⟩ | ⟨g, hpc⟩
      all_goals
        rw [hpc]
        exact id
    rcases (callAct_outside hcall hout).2.2 with ⟨hfree, -, -, hsec⟩ | ⟨-, hpast⟩
    · obtain ⟨l, E, hbal, hset⟩ := hI.settled hfree
      exact ⟨l, E, hbal, hset, hsec l E hset⟩
    · rcases hpc with ⟨p, hpc⟩ | ⟨g, hpc⟩
      all_goals
        rw [hpc, callAct] at hcall
        split at hcall
        · cases hcall
          cases hpast
        · cases hcall
  all_goals cases hi

variable [DecidableEq T] {c c' : Config T (Session T P) (MutatorPc P)}
  {is : List (T × SessionStep P)}

/-- A call does not change what it is about. -/
theorem owns_run (hrun : run (sessionAct prov h) c is = some c')
    (henable : ∀ p, (t, .enable p) ∉ is) {p : P} (howns : (c'.pc t).call.Owns p) :
    (c.pc t).call.Owns p := by
  induction is generalizing c with
  | nil =>
    cases hrun
    exact howns
  | cons ui is ih =>
    obtain ⟨u, i⟩ := ui
    obtain ⟨d, hd, hrest⟩ := run_cons_eq_some_iff.mp hrun
    have howns' := ih hrest fun q hq => henable q (List.mem_cons_of_mem _ hq)
    obtain ⟨hact, hothers⟩ := step_inv hd
    by_cases hu : u = t
    · subst hu
      rcases session_cases hact with ⟨q, rfl, -, -, -, -⟩ | ⟨g, -, -, -, hpc⟩ |
        ⟨status, call, -, hcall, hpc⟩ | ⟨g, -, -, -, -, hpc⟩ | ⟨q, ps, invoked, -, -, -, -, hpc⟩
      · exact absurd List.mem_cons_self (henable q)
      · rw [hpc] at howns'
        cases howns'
      · rw [hpc] at howns'
        exact (callAct_frame hcall).2.2.1 p howns'
      · rwa [hpc] at howns'
      · rwa [hpc] at howns'
    · rwa [hothers t (Ne.symm hu)] at howns'

/-- **A call and its lock**: until it lets go of it, nobody else changes what the lock guards, and
the call has done what `InSection` says. -/
theorem inSection_run (hrun : run (sessionAct prov h) c is = some c')
    (hc : AllHold (SessionInv prov) (ThreadInv prov) c) (henable : ∀ p, (t, .enable p) ∉ is)
    (hdisable : ∀ g, (t, .disable g) ∉ is) (hbal : Balanced prov l E)
    (hsec : InSection prov l E c.shared.registry c.shared.enabled (c.pc t).call) :
    InSection prov l E c'.shared.registry c'.shared.enabled (c'.pc t).call ∨
      (c'.pc t).call.Past := by
  have hmeets : Meets (sessionAct prov h)
      (fun _ u i => (∀ p, (u, i) ≠ (t, .enable p)) ∧ ∀ g, (u, i) ≠ (t, .disable g)) c is :=
    meets_of_forall_mem fun u i hmem =>
      ⟨fun p heq => henable p (heq ▸ hmem), fun g heq => hdisable g (heq ▸ hmem)⟩
  refine (run_invariant_of_meets (fun c => AllHold (SessionInv prov) (ThreadInv prov) c ∧
    (InSection prov l E c.shared.registry c.shared.enabled (c.pc t).call ∨ (c.pc t).call.Past))
    ?_ hrun hmeets ⟨hc, .inl hsec⟩).2
  intro c u i c' hs hguard hinv
  refine ⟨(session_stable prov h).step hs hinv.1, ?_⟩
  obtain ⟨hact, hothers⟩ := step_inv hs
  by_cases hu : u = t
  · subst hu
    rcases session_cases hact with ⟨p, rfl, -, -, -, -⟩ | ⟨g, rfl, -, -, -⟩ |
      ⟨status, call, rfl, hcall, hpc⟩ | ⟨g, rfl, hrest, -, hshared, hpc⟩ |
      ⟨p, ps, invoked, rfl, hrest, -, hshared, hpc⟩
    · exact absurd rfl (hguard.1 p)
    · exact absurd rfl (hguard.2 g)
    · rw [hpc]
      rcases hinv.2 with hsec | hpast
      · rcases callAct_inSection hcall hsec.critical hbal hsec (hinv.1.2 u).off with
          ⟨-, -, hsec'⟩ | ⟨hpast, -⟩
        · exact .inl hsec'
        · exact .inr hpast
      · exact .inr (callAct_past hcall hpast)
    · rw [hpc]
      exact .inr (CallPc.past_of_isResting hrest)
    · rw [hpc]
      exact .inr (CallPc.past_of_isResting hrest)
  · rw [hothers t (Ne.symm hu)]
    rcases hinv.2 with hsec | hpast
    · have hlock := (hinv.1.2 t).lock_iff.mp hsec.critical
      obtain ⟨hreg, henabled⟩ := sessionAct_frame hact (hinv.1.2 u) hlock hu
      rw [hreg, henabled]
      exact .inl hsec
    · exact .inr hpast

/-! ### Consistency -/

theorem Started.holds_run (hstart : Started prov c)
    (hrun : run (sessionAct prov h) c is = some c') :
    AllHold (SessionInv prov) (ThreadInv prov) c' :=
  (session_stable prov h).run hrun hstart.holds

/-- The registry and the session are as they were. -/
def Unchanged (s s' : Session T P) : Prop := s'.registry = s.registry ∧ s'.enabled = s.enabled

/-- **Mutations keep the session and the registry consistent.** In every state that any
interleaving reaches, what is enabled is registered; while the lock is free, what is registered is
enabled too. From the moment a call takes the lock, for as long as it holds it: if it is a disable
that failed, registry and session are as it found them; if it is an enable that failed, its own
instance is in the registry until the rollback, and after it they are as it found them. -/
theorem mutations_consistent (hstart : Started prov c)
    (hrun : run (sessionAct prov h) c is = some c') :
    (∀ g ∈ c'.shared.enabled, g ∈ c'.shared.registry.byGuid) ∧
    (c'.shared.lock = none → ∀ g, g ∈ c'.shared.enabled ↔ g ∈ c'.shared.registry.byGuid) ∧
    ∀ t status c₁, step (sessionAct prov h) c' t (.proceed status) = some c₁ →
      ∀ js d, run (sessionAct prov h) c₁ js = some d →
        (∀ p, (t, .enable p) ∉ js) → (∀ g, (t, .disable g) ∉ js) →
        (∀ g g' e, (c'.pc t).call = .disableLock g → (d.pc t).call = .disabling g' (.error e) →
          Unchanged c'.shared d.shared) ∧
        (∀ p q e, (c'.pc t).call = .enableLock p → (d.pc t).call = .rollback q e →
          q = p ∧ p ∉ c'.shared.registry.providers ∧
            d.shared.registry = c'.shared.registry.add (guidOf prov) p ∧
            d.shared.enabled = c'.shared.enabled) ∧
        ∀ p q e, (c'.pc t).call = .enableLock p → (d.pc t).call = .refusing q e →
          Unchanged c'.shared d.shared := by
  have hc := hstart.holds_run hrun
  refine ⟨fun g hg => ?_, enabled_iff_of_free hc, ?_⟩
  · cases hlock : c'.shared.lock with
    | none => exact (enabled_iff_of_free hc hlock g).mp hg
    | some t =>
      obtain ⟨l, E, hbal, hsec⟩ :=
        (hc.2 t).section_of_critical ((hc.2 t).lock_iff.mpr hlock)
      exact hsec.registered hbal hg
  · intro t status c₁ hstep js d hd henable hdisable
    have hsection : (∃ p, (c'.pc t).call = .enableLock p) ∨
        (∃ g, (c'.pc t).call = .disableLock g) →
        ∃ l E, Settled prov l E c'.shared.registry c'.shared.enabled ∧
          (InSection prov l E d.shared.registry d.shared.enabled (d.pc t).call ∨
            (d.pc t).call.Past) := by
      intro hpc
      obtain ⟨l, E, hbal, hset, hsec⟩ := inSection_of_lock (step_inv hstep).1 hc.1 hpc
      have hc₁ := (session_stable prov h).step hstep hc
      exact ⟨l, E, hset, inSection_run hd hc₁ henable hdisable hbal hsec⟩
    have hrun' : run (sessionAct prov h) c' ((t, .proceed status) :: js) = some d :=
      run_cons_eq_some_iff.mpr ⟨c₁, hstep, hd⟩
    have henable' : ∀ p, (t, .enable p) ∉ (t, .proceed status) :: js := by
      intro p hp
      rcases List.mem_cons.mp hp with heq | hp
      · cases heq
      · exact henable p hp
    refine ⟨fun g g' e hpc hpc' => ?_, fun p q e hpc hpc' => ?_, fun p q e hpc hpc' => ?_⟩
    · obtain ⟨l, E, hset, hsec⟩ := hsection (.inr ⟨g, hpc⟩)
      rw [hpc'] at hsec
      have hset' := hsec.resolve_right id
      exact ⟨hset'.indexed.ext hset.indexed, hset'.enabled_eq.trans hset.enabled_eq.symm⟩
    · obtain ⟨l, E, hset, hsec⟩ := hsection (.inl ⟨p, hpc⟩)
      rw [hpc'] at hsec
      obtain ⟨hnew, hset'⟩ := hsec.resolve_right id
      have howns := owns_run hrun' henable' (hpc' ▸ rfl : (d.pc t).call.Owns q)
      rw [hpc] at howns
      cases howns
      exact ⟨rfl, hset.indexed.providers_eq ▸ hnew, hset'.indexed.ext (hset.indexed.add p),
        hset'.enabled_eq.trans hset.enabled_eq.symm⟩
    · obtain ⟨l, E, hset, hsec⟩ := hsection (.inl ⟨p, hpc⟩)
      rw [hpc'] at hsec
      obtain ⟨-, hset'⟩ := hsec.resolve_right id
      exact ⟨hset'.indexed.ext hset.indexed, hset'.enabled_eq.trans hset.enabled_eq.symm⟩

/-- A provider without filters. -/
def plainProvider : Provider where
  guid := .ofFields 0 0 0 (List.replicate 8 0)
  any := 0
  all := 0
  level := 0
  traceFlags := 0
  kernelFlags := 0
  captureState := false
  filters := []

/-- Provider `0` is registered and enabled. -/
def onePlainProvider : Config Bool (Session Bool ℕ) (MutatorPc ℕ) where
  shared :=
    { lock := none
      registry := ProviderRegistry.empty.add (guidOf fun _ => plainProvider) 0
      enabled := {plainProvider.guid}
      allocated := fun p => if p = 0 then some false else none
      fired := [] }
  pc _ := ⟨.idle, .idle⟩

theorem started_onePlainProvider : Started (fun _ => plainProvider) onePlainProvider where
  lock_eq := rfl
  indexed := ⟨_, indexed_empty.add 0⟩
  enabled_iff g := by
    refine Iff.trans ?_ ((indexed_empty.add 0).mem_byGuid_iff g).symm
    simp [onePlainProvider, guidOf, eq_comm]
  allocated p hp := by
    simp [onePlainProvider, ProviderRegistry.add, ProviderRegistry.empty] at hp ⊢
    simp [hp]
  fired_eq := rfl
  pc_eq _ := rfl

/-- The provider is registered, refused, and rolled back. -/
def refusedCall : List (Bool × SessionStep ℕ) :=
  [(true, .proceed 0), (true, .proceed 5), (true, .proceed 0)]

/-- Windows refuses a second provider of that GUID. -/
theorem mutations_consistent_refused :
    ∃ c c₁ d : Config Bool (Session Bool ℕ) (MutatorPc ℕ),
      run (sessionAct (fun _ => plainProvider) 7) onePlainProvider [(true, .enable 1)] = some c ∧
      step (sessionAct (fun _ => plainProvider) 7) c true (.proceed 0) = some c₁ ∧
      run (sessionAct (fun _ => plainProvider) 7) c₁ refusedCall = some d ∧
      Unchanged c.shared d.shared := by
  refine ⟨_, _, _, rfl, rfl, rfl, ?_⟩
  have hrun : run (sessionAct (fun _ => plainProvider) 7) onePlainProvider [(true, .enable 1)] =
    some _ := rfl
  have hlocked := (mutations_consistent started_onePlainProvider hrun).2.2 true 0 _ rfl
  have hrolledBack := hlocked refusedCall _ rfl (by simp [refusedCall]) (by simp [refusedCall])
  exact hrolledBack.2.2 1 1 (.ioError 5) rfl rfl

end Ferrisetw2
