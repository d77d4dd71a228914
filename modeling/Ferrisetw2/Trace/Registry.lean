import Ferrisetw2.Lib.CallMachine
import Ferrisetw2.Lib.HashMap
import Ferrisetw2.Lib.Interleaving

/-!
# The provider registry

The providers of a real-time trace are kept twice, in a list and by GUID, so that an event finds
those it is for without a scan. The registry is meant to be the list alone; `Indexed` says that the
other half is what the list makes of it. `callback_data.rs`.

A provider is known by the pointer of its `Arc`. Two registrations of one GUID are two providers.

## Dispatch

`on_event` clones the providers it needs under the read lock and runs their callbacks after it has
let go of it. Callbacks, and other threads, may add and remove providers in the meantime: that
changes nothing about the event under way.

## Main definitions

* `ProviderRegistry`, `RegistryOp`, `registryCall`, `listCall` — the registry, and the plain list
* `Indexed` — the registry holds this list
* `DispatchPc`, `dispatchAct` — events and mutations, in any order

## Main results

* `indexed_call` — the registry answers as the list does, and goes on holding it
* `registry_refines_list` — so do their histories, and every event goes to the providers that were
  registered for it at its lookup
-/

namespace Ferrisetw2

open Rust Interleaving

variable {P G : Type} [DecidableEq G]

/-! ### The registry -/

/-- `ProviderRegistry`. -/
structure ProviderRegistry (P G : Type) where
  /-- Providers in insertion order. -/
  providers : List P
  /-- Providers by GUID. -/
  byGuid : HashMap G (List P)

namespace ProviderRegistry

/-- `ProviderRegistry::default`. -/
def empty : ProviderRegistry P G := ⟨[], ∅⟩

variable (guid : P → G)

/-- `add`. -/
def add (reg : ProviderRegistry P G) (provider : P) : ProviderRegistry P G where
  providers := reg.providers ++ [provider]
  byGuid := reg.byGuid.insert (guid provider)
    ((reg.byGuid.lookup (guid provider)).getD [] ++ [provider])

/-- `remove_all_by_guid`. -/
def removeAllByGuid (reg : ProviderRegistry P G) (g : G) : ℕ × ProviderRegistry P G :=
  match reg.byGuid.lookup g with
  | none => (0, reg)
  | some entries =>
    (entries.length, ⟨reg.providers.filter (guid · ≠ g), reg.byGuid.erase g⟩)

/-- `remove_one`. -/
def removeOne [DecidableEq P] (reg : ProviderRegistry P G) (provider : P) :
    Bool × ProviderRegistry P G :=
  match reg.byGuid.lookup (guid provider) with
  | none => (false, reg)
  | some entries =>
    let kept := entries.filter (· ≠ provider)
    let byGuid := reg.byGuid.insert (guid provider) kept
    if provider ∈ entries then
      (true, ⟨reg.providers.filter (· ≠ provider),
        if kept.isEmpty then byGuid.erase (guid provider) else byGuid⟩)
    else (false, { reg with byGuid := byGuid })

theorem mem_of_mem_removeAllByGuid {reg : ProviderRegistry P G} {g : G} {p : P}
    (hp : p ∈ (reg.removeAllByGuid guid g).2.providers) : p ∈ reg.providers := by
  rw [removeAllByGuid] at hp
  split at hp
  · exact hp
  · exact List.mem_of_mem_filter hp

theorem mem_of_mem_removeOne [DecidableEq P] {reg : ProviderRegistry P G} {p q : P}
    (hq : q ∈ (reg.removeOne guid p).2.providers) : q ∈ reg.providers := by
  rw [removeOne] at hq
  split at hq
  · exact hq
  · dsimp only at hq
    split at hq
    · exact List.mem_of_mem_filter hq
    · exact hq

/-- What `on_event` clones under the read lock. -/
def snapshot (reg : ProviderRegistry P G) (g : G) : List P :=
  match reg.byGuid.lookup g with
  | none => []
  -- the fast path: a single provider
  | some [provider] => [provider]
  | some entries => entries

end ProviderRegistry

/-- A mutation of the registry. -/
inductive RegistryOp (P G : Type) where
  | add (provider : P)
  | removeAllByGuid (g : G)
  | removeOne (provider : P)

/-- What it returns. -/
inductive RegistryAnswer where
  | unit
  /-- How many entries were removed. -/
  | count (n : ℕ)
  /-- Whether the provider was found. -/
  | found (b : Bool)
  deriving DecidableEq, Repr

variable (guid : P → G)

/-- A mutation, as a step. -/
def registryCall [DecidableEq P] (reg : ProviderRegistry P G) :
    RegistryOp P G → RegistryAnswer × ProviderRegistry P G
  | .add provider => (.unit, reg.add guid provider)
  | .removeAllByGuid g => (.count (reg.removeAllByGuid guid g).1, (reg.removeAllByGuid guid g).2)
  | .removeOne provider => (.found (reg.removeOne guid provider).1, (reg.removeOne guid provider).2)

/-! ### The plain list -/

/-- The same mutations of a list. -/
def listCall [DecidableEq P] (l : List P) : RegistryOp P G → RegistryAnswer × List P
  | .add provider => (.unit, l ++ [provider])
  | .removeAllByGuid g => (.count (l.countP (guid · = g)), l.filter (guid · ≠ g))
  | .removeOne provider => (.found (provider ∈ l), l.filter (· ≠ provider))

/-- The providers of a GUID, in registration order. -/
def registered (l : List P) (g : G) : List P := l.filter (guid · = g)

/-- The registry holds this list: by GUID it has the providers of each, and no empty list. -/
structure Indexed (reg : ProviderRegistry P G) (l : List P) : Prop where
  providers_eq : reg.providers = l
  lookup_eq : ∀ g, reg.byGuid.lookup g =
    if registered guid l g = [] then none else some (registered guid l g)

variable {guid}

theorem mem_registered {l : List P} {g : G} {p : P} :
    p ∈ registered guid l g ↔ p ∈ l ∧ guid p = g := by
  rw [registered, List.mem_filter, decide_eq_true_eq]

theorem registered_append (l l' : List P) (g : G) :
    registered guid (l ++ l') g = registered guid l g ++ registered guid l' g :=
  List.filter_append ..

theorem registered_singleton (p : P) (g : G) :
    registered guid [p] g = if guid p = g then [p] else [] := by
  rw [registered, List.filter_singleton]
  split <;> simp_all

/-- Removing a GUID empties its list, and no other. -/
theorem registered_filter_guid (l : List P) (g g' : G) :
    registered guid (l.filter (guid · ≠ g)) g' = if g' = g then [] else registered guid l g' := by
  rw [registered, List.filter_filter]
  split
  · rename_i h
    subst h
    exact List.filter_eq_nil_iff.mpr fun p _ => by simp
  · rename_i h
    refine List.filter_congr fun p _ => ?_
    by_cases hp : guid p = g'
    · simp [hp, h]
    · simp [hp]

/-- Removing a provider removes it from every list. -/
theorem registered_filter_ne [DecidableEq P] (l : List P) (p : P) (g : G) :
    registered guid (l.filter (· ≠ p)) g = (registered guid l g).filter (· ≠ p) :=
  List.filter_comm ..

theorem indexed_empty : Indexed guid (.empty : ProviderRegistry P G) [] where
  providers_eq := rfl
  lookup_eq _ := rfl

namespace Indexed

variable {reg : ProviderRegistry P G} {l : List P}

/-- There is one registry that holds a list. -/
theorem ext {reg' : ProviderRegistry P G} (h : Indexed guid reg l) (h' : Indexed guid reg' l) :
    reg = reg' := by
  obtain ⟨providers, byGuid⟩ := reg
  obtain ⟨providers', byGuid'⟩ := reg'
  have hmap : byGuid = byGuid' :=
    Finmap.ext_lookup fun g => (h.lookup_eq g).trans (h'.lookup_eq g).symm
  rw [hmap, show providers = l from h.providers_eq, show providers' = l from h'.providers_eq]

theorem lookup_getD (h : Indexed guid reg l) (g : G) :
    (reg.byGuid.lookup g).getD [] = registered guid l g := by
  rw [h.lookup_eq]
  split
  · rename_i hnil
    rw [hnil, Option.getD_none]
  · rw [Option.getD_some]

/-- An event's lookup finds the providers of its GUID, on the fast path and on the other. -/
theorem snapshot_eq (h : Indexed guid reg l) (g : G) : reg.snapshot g = registered guid l g := by
  have hgetD := h.lookup_getD g
  rw [ProviderRegistry.snapshot]
  split
  · rename_i hnone
    rw [← hgetD, hnone, Option.getD_none]
  · rename_i provider hsome
    rw [← hgetD, hsome, Option.getD_some]
  · rename_i entries _ hsome
    rw [← hgetD, hsome, Option.getD_some]

theorem mem_byGuid_iff (h : Indexed guid reg l) (g : G) :
    g ∈ reg.byGuid ↔ ∃ p ∈ l, guid p = g := by
  rw [← Finmap.lookup_isSome, h.lookup_eq]
  constructor
  · intro hsome
    split at hsome
    · cases hsome
    · rename_i hne
      obtain ⟨p, hp⟩ := List.exists_mem_of_ne_nil _ hne
      exact ⟨p, mem_registered.mp hp⟩
  · rintro ⟨p, hp⟩
    rw [if_neg (List.ne_nil_of_mem (mem_registered.mpr hp)), Option.isSome_some]

theorem add (h : Indexed guid reg l) (p : P) : Indexed guid (reg.add guid p) (l ++ [p]) where
  providers_eq := by rw [ProviderRegistry.add, h.providers_eq]
  lookup_eq g := by
    simp only [ProviderRegistry.add]
    rw [h.lookup_getD, HashMap.lookup_insert_eq, registered_append, registered_singleton]
    by_cases hg : g = guid p
    · subst hg
      simp
    · simp [hg, Ne.symm hg, h.lookup_eq]

theorem removeAllByGuid (h : Indexed guid reg l) (g : G) :
    (reg.removeAllByGuid guid g).1 = l.countP (guid · = g) ∧
      Indexed guid (reg.removeAllByGuid guid g).2 (l.filter (guid · ≠ g)) := by
  rw [ProviderRegistry.removeAllByGuid, List.countP_eq_length_filter]
  have hreg : (l.filter (guid · = g)) = registered guid l g := rfl
  rw [hreg]
  have hlookup := h.lookup_eq g
  split at hlookup
  · rename_i hnil
    have hkeep : l.filter (guid · ≠ g) = l := by
      refine List.filter_eq_self.mpr fun p hp => ?_
      have hnot : p ∉ registered guid l g := by rw [hnil]; exact List.not_mem_nil
      simpa [mem_registered, hp] using hnot
    simp only [hlookup, hnil, hkeep]
    exact ⟨rfl, h⟩
  · simp only [hlookup]
    refine ⟨trivial, by rw [h.providers_eq], fun g' => ?_⟩
    rw [HashMap.lookup_erase_eq, registered_filter_guid]
    by_cases hg : g' = g
    · simp [hg]
    · simp [hg, h.lookup_eq]

theorem mem_iff_mem_registered {p : P} : p ∈ registered guid l (guid p) ↔ p ∈ l := by
  rw [mem_registered, and_iff_left rfl]

theorem removeOne [DecidableEq P] (h : Indexed guid reg l) (p : P) :
    (reg.removeOne guid p).1 = decide (p ∈ l) ∧
      Indexed guid (reg.removeOne guid p).2 (l.filter (· ≠ p)) := by
  rw [ProviderRegistry.removeOne]
  have hkeep : p ∉ l → l.filter (· ≠ p) = l := by
    intro hp
    exact List.filter_eq_self.mpr fun q hq => decide_eq_true fun heq => hp (heq ▸ hq)
  have hlookup := h.lookup_eq (guid p)
  split at hlookup
  · rename_i hnil
    have hp : p ∉ l := by
      intro hp
      have hmem : p ∈ registered guid l (guid p) := mem_iff_mem_registered.mpr hp
      rw [hnil] at hmem
      exact List.not_mem_nil hmem
    simp only [hlookup, hkeep hp, hp, decide_false]
    exact ⟨trivial, h⟩
  · simp only [hlookup]
    by_cases hp : p ∈ l
    · simp only [mem_iff_mem_registered.mpr hp, if_pos, hp, decide_true]
      refine ⟨trivial, by rw [h.providers_eq], fun g => ?_⟩
      rw [registered_filter_ne]
      by_cases hg : g = guid p
      · subst hg
        simp only [List.isEmpty_iff]
        split
        · rw [Finmap.lookup_erase]
        · rw [Finmap.lookup_insert]
      · have hother : (registered guid l g).filter (· ≠ p) = registered guid l g := by
          refine List.filter_eq_self.mpr fun q hq => decide_eq_true fun heq => hg ?_
          rw [← heq, (mem_registered.mp hq).2]
        rw [hother, ← h.lookup_eq]
        split
        · rw [Finmap.lookup_erase_ne hg, Finmap.lookup_insert_of_ne _ hg]
        · rw [Finmap.lookup_insert_of_ne _ hg]
    · have hentries : p ∉ registered guid l (guid p) := by rwa [mem_iff_mem_registered]
      have hkept : (registered guid l (guid p)).filter (· ≠ p) = registered guid l (guid p) := by
        rw [← registered_filter_ne, hkeep hp]
      simp only [hentries, if_false, hkeep hp, hp, decide_false, hkept,
        HashMap.insert_of_lookup hlookup]
      exact ⟨trivial, h⟩

end Indexed

variable [DecidableEq P]

/-- **One mutation**: the registry answers as the list does, and goes on holding it. -/
theorem indexed_call {reg : ProviderRegistry P G} {l : List P} (op : RegistryOp P G)
    (h : Indexed guid reg l) : (registryCall guid reg op).1 = (listCall guid l op).1 ∧
      Indexed guid (registryCall guid reg op).2 (listCall guid l op).2 := by
  cases op with
  | add p => exact ⟨rfl, h.add p⟩
  | removeAllByGuid g =>
    obtain ⟨hcount, hnext⟩ := h.removeAllByGuid g
    exact ⟨congrArg RegistryAnswer.count hcount, hnext⟩
  | removeOne p =>
    obtain ⟨hfound, hnext⟩ := h.removeOne p
    exact ⟨congrArg RegistryAnswer.found hfound, hnext⟩

/-! ### Dispatch -/

/-- Where a thread is in `on_event`. -/
inductive DispatchPc (P : Type) where
  | idle
  /-- The lock is released. These providers are still to be called, those have been. -/
  | dispatching (pending invoked : List P)

/-- What a thread can do. -/
inductive DispatchStep (P G : Type) where
  /-- A mutation, from a callback or from elsewhere. -/
  | mutate (op : RegistryOp P G)
  /-- An event of this GUID, up to the lookup. -/
  | onEvent (g : G)
  /-- The next provider's callbacks run. -/
  | invoke

variable {T : Type} [DecidableEq T]

variable (guid) in
/-- The steps of a thread. -/
def dispatchAct (_ : T) (reg : ProviderRegistry P G) :
    DispatchPc P → DispatchStep P G → Option (ProviderRegistry P G × DispatchPc P)
  | pc, .mutate op => some ((registryCall guid reg op).2, pc)
  | .idle, .onEvent g => some (reg, .dispatching (reg.snapshot g) [])
  | .dispatching [] _, .onEvent g => some (reg, .dispatching (reg.snapshot g) [])
  | .dispatching (p :: ps) invoked, .invoke => some (reg, .dispatching ps (invoked ++ [p]))
  | _, _ => none

/-- Nothing is registered, and no event is under way. -/
def dispatchStart : Config T (ProviderRegistry P G) (DispatchPc P) := ⟨.empty, fun _ => .idle⟩

/-- The mutations of a run, in order. -/
def mutations : List (T × DispatchStep P G) → List (RegistryOp P G)
  | [] => []
  | (_, .mutate op) :: is => op :: mutations is
  | (_, .onEvent _) :: is | (_, .invoke) :: is => mutations is

variable (guid) in
/-- The list after the mutations of a run. -/
def listAfter (l : List P) (is : List (T × DispatchStep P G)) : List P :=
  CallMachine.after (listCall guid) l (mutations is)

/-- **What a step does.** -/
theorem dispatch_cases {c c' : Config T (ProviderRegistry P G) (DispatchPc P)} {t : T}
    {i : DispatchStep P G} (h : step (dispatchAct guid) c t i = some c') :
    (∃ op, i = .mutate op ∧ c'.shared = (registryCall guid c.shared op).2 ∧ c'.pc t = c.pc t) ∨
    (∃ g, i = .onEvent g ∧ c'.shared = c.shared ∧
      c'.pc t = .dispatching (c.shared.snapshot g) []) ∨
    ∃ p ps invoked, i = .invoke ∧ c'.shared = c.shared ∧
      c.pc t = .dispatching (p :: ps) invoked ∧ c'.pc t = .dispatching ps (invoked ++ [p]) := by
  have hact := (step_inv h).1
  cases i with
  | mutate op =>
    rw [dispatchAct] at hact
    obtain ⟨hreg, hpc⟩ := Prod.mk.inj (Option.some.inj hact)
    exact .inl ⟨op, rfl, hreg.symm, hpc.symm⟩
  | onEvent g =>
    cases hpc : c.pc t with
    | idle =>
      rw [hpc] at hact
      obtain ⟨hreg, hlookup⟩ := Prod.mk.inj (Option.some.inj hact)
      exact .inr (.inl ⟨g, rfl, hreg.symm, hlookup.symm⟩)
    | dispatching pending invoked =>
      rw [hpc] at hact
      cases pending with
      | nil =>
        obtain ⟨hreg, hlookup⟩ := Prod.mk.inj (Option.some.inj hact)
        exact .inr (.inl ⟨g, rfl, hreg.symm, hlookup.symm⟩)
      | cons _ _ => cases hact
  | invoke =>
    cases hpending : c.pc t with
    | idle =>
      rw [hpending] at hact
      cases hact
    | dispatching pending invoked =>
      rw [hpending] at hact
      cases pending with
      | nil => cases hact
      | cons p ps =>
        obtain ⟨hreg, hpc⟩ := Prod.mk.inj (Option.some.inj hact)
        exact .inr (.inr ⟨p, ps, invoked, rfl, hreg.symm, rfl, hpc.symm⟩)

/-- The registry holds the list of the mutations so far, whatever else the threads do. -/
theorem indexed_run {c c' : Config T (ProviderRegistry P G) (DispatchPc P)}
    {is : List (T × DispatchStep P G)} {l : List P}
    (h : run (dispatchAct guid) c is = some c') (hc : Indexed guid c.shared l) :
    Indexed guid c'.shared (listAfter guid l is) := by
  induction is generalizing c l with
  | nil =>
    cases h
    exact hc
  | cons ti is ih =>
    obtain ⟨t, i⟩ := ti
    obtain ⟨d, hd, hrest⟩ := run_cons_eq_some_iff.mp h
    rcases dispatch_cases hd with ⟨op, rfl, hshared, -⟩ | ⟨g, rfl, hshared, -⟩ |
      ⟨p, ps, invoked, rfl, hshared, -, -⟩
    · exact ih hrest (hshared ▸ (indexed_call op hc).2)
    · exact ih hrest (hshared ▸ hc)
    · exact ih hrest (hshared ▸ hc)

/-- A thread in an event has called, and has yet to call, these providers. -/
def Serving (l : List P) : DispatchPc P → Prop
  | .idle => False
  | .dispatching pending invoked => invoked ++ pending = l

/-- As long as the event lasts, they are what they were at the lookup. -/
theorem serving_run {c c' : Config T (ProviderRegistry P G) (DispatchPc P)}
    {is : List (T × DispatchStep P G)} {t : T} {l : List P}
    (h : run (dispatchAct guid) c is = some c') (hsame : ∀ g, (t, .onEvent g) ∉ is)
    (hc : Serving l (c.pc t)) : Serving l (c'.pc t) := by
  have hmeets : Meets (dispatchAct guid) (fun _ u i => ∀ g, (u, i) ≠ (t, .onEvent g)) c is := by
    refine meets_of_forall_mem fun u i hmem g heq => hsame g ?_
    rwa [← heq]
  refine run_invariant_of_meets (fun c => Serving l (c.pc t)) ?_ h hmeets hc
  intro c u i c' hs hguard hserving
  by_cases hu : t = u
  · subst hu
    rcases dispatch_cases hs with ⟨op, -, -, hpc⟩ | ⟨g, rfl, -, -⟩ |
      ⟨p, ps, invoked, -, -, hpc, hpc'⟩
    · rwa [hpc]
    · exact absurd rfl (hguard g)
    · rw [hpc] at hserving
      rw [hpc', Serving, List.append_assoc]
      exact hserving
  · rwa [(step_inv hs).2 t hu]

variable (guid) in
/-- **The registry is the plain list, and an event a snapshot of it.** Every history of mutations is
answered as the list answers it, and the registry holds that list. In every interleaving of
mutations and events, an event calls the providers that were registered for its GUID at its lookup,
in registration order, and no other. -/
theorem registry_refines_list :
    (∀ ops : List (RegistryOp P G),
      CallMachine.answers (registryCall guid) .empty ops =
          CallMachine.answers (listCall guid) [] ops ∧
        Indexed guid (CallMachine.after (registryCall guid) .empty ops)
          (CallMachine.after (listCall guid) [] ops)) ∧
      ∀ (is : List (T × DispatchStep P G)) c, run (dispatchAct guid) dispatchStart is = some c →
        Indexed guid c.shared (listAfter guid [] is) ∧
          ∀ t g c', step (dispatchAct guid) c t (.onEvent g) = some c' →
            ∀ js d, run (dispatchAct guid) c' js = some d → (∀ g', (t, .onEvent g') ∉ js) →
              Serving (registered guid (listAfter guid [] is) g) (d.pc t) := by
  constructor
  · intro ops
    exact CallMachine.answers_of_simulation (Indexed guid) (fun _ _ op h => indexed_call op h) ops
      indexed_empty
  · intro is c hrun
    have hindexed := indexed_run hrun indexed_empty
    refine ⟨hindexed, fun t g c' hstep js d hd hsame => serving_run hd hsame ?_⟩
    rcases dispatch_cases hstep with ⟨op, hop, -, -⟩ | ⟨g', hg, -, hpc⟩ | ⟨_, _, _, hi, _, _, _⟩
    · cases hop
    · cases hg
      rw [hpc, hindexed.snapshot_eq]
      rfl
    · cases hi

end Ferrisetw2
