import Ferrisetw2.Trace.Mutations

/-!
# Refused providers

A provider that Windows refuses, or whose filters cannot be built, is rolled back, so that its
callbacks never run. But it is registered before it is refused, and an event of its GUID can come in
between: another provider of that GUID may be enabled. Such an event finds both.

## Main definitions

* `Spared` — the callbacks of a provider have not run, and no event is about to run them
* `Gone` — a provider is not registered, and will not be

## Main results

* `spared_step_iff`, `spared_run_iff` — an event spares a provider exactly when it looks before or
  after
* `exists_run_fired` — a call can always be finished, so an event that has found a provider gets to
  it
* `never_fires_iff` — the runs after which a refused provider never fires
* `not_never_fires` — one after which it does
-/

namespace Ferrisetw2

open Rust Interleaving

variable {T P : Type} {prov : P → Provider} {h : ControlHandle}

/-- The call is about this provider, and will register it. -/
def CallPc.Waits (p : P) : CallPc P → Prop
  | .enableLock q | .enableAdd q => q = p
  | _ => False

theorem CallPc.Waits.owns {pc : CallPc P} {p : P} (hw : pc.Waits p) : pc.Owns p := by
  cases pc with
  | enableLock _ | enableAdd _ => exact hw
  | _ => cases hw

/-- The callbacks of a provider have not run, and no event is about to run them. -/
structure Spared (p : P) (c : Config T (Session T P) (MutatorPc P)) : Prop where
  fired : p ∉ c.shared.fired
  pending : ∀ t, p ∉ (c.pc t).dispatch.pending

/-- What spares a provider, with one thread apart from the others. -/
theorem spared_iff (p : P) (c : Config T (Session T P) (MutatorPc P)) (t : T) :
    Spared p c ↔ p ∉ c.shared.fired ∧ p ∉ (c.pc t).dispatch.pending ∧
      ∀ u, u ≠ t → p ∉ (c.pc u).dispatch.pending := by
  constructor
  · exact fun hsp => ⟨hsp.fired, hsp.pending t, fun u _ => hsp.pending u⟩
  · rintro ⟨hfired, hown, hothers⟩
    refine ⟨hfired, fun u => ?_⟩
    by_cases hu : u = t
    · rwa [hu]
    · exact hothers u hu

/-- A provider is not registered, and will not be. -/
structure Gone (p : P) (c : Config T (Session T P) (MutatorPc P)) : Prop where
  allocated : c.shared.allocated p ≠ none
  registry : p ∉ c.shared.registry.providers
  waits : ∀ t, ¬ (c.pc t).call.Waits p

/-- How many steps a call has left, at most. -/
def CallPc.rank : CallPc P → ℕ
  | .idle | .returned _ => 0
  | .refusing _ _ | .capture _ | .disabling _ _ => 1
  | .rollback _ _ | .enabling _ | .disableRemove _ => 2
  | .enableCall _ | .disableCall _ => 3
  | .enableAdd _ | .disableCheck _ => 4
  | .enableLock _ | .disableLock _ => 5

variable (prov) in
/-- No lookup for the GUID of a provider is made while that is registered. -/
def Unseen (p : P) (c : Config T (Session T P) (MutatorPc P)) (_ : T) (i : SessionStep P) : Prop :=
  p ∈ c.shared.registry.providers → i ≠ .onEvent (guidOf prov p)

theorem InSection.exists_indexed {l : List P} {E enabled : Finset Guid}
    {registry : ProviderRegistry P Guid} {pc : CallPc P}
    (hsec : InSection prov l E registry enabled pc) : ∃ l, Indexed (guidOf prov) registry l := by
  cases pc with
  | enableAdd _ | enabling _ | disableCheck _ | disableCall _ | disableRemove _ =>
    exact ⟨_, hsec.indexed⟩
  | enableCall _ | rollback _ _ | refusing _ _ => exact ⟨_, hsec.2.indexed⟩
  | disabling _ r =>
    cases r with
    | ok _ => exact ⟨_, hsec.2.indexed⟩
    | error _ => exact ⟨_, hsec.indexed⟩
  | idle | enableLock _ | capture _ | disableLock _ | returned _ => cases hsec

/-- An event's lookup finds the registered providers of its GUID. -/
theorem mem_snapshot_iff {c : Config T (Session T P) (MutatorPc P)}
    (hc : AllHold (SessionInv prov) (ThreadInv prov) c) {g : Guid} {p : P} :
    p ∈ c.shared.registry.snapshot g ↔ p ∈ c.shared.registry.providers ∧ guidOf prov p = g := by
  have hindexed : ∃ l, Indexed (guidOf prov) c.shared.registry l := by
    cases hlock : c.shared.lock with
    | none =>
      obtain ⟨l, E, -, hset⟩ := hc.1.settled hlock
      exact ⟨l, hset.indexed⟩
    | some t =>
      obtain ⟨l, E, -, hsec⟩ := (hc.2 t).section_of_critical ((hc.2 t).lock_iff.mpr hlock)
      exact hsec.exists_indexed
  obtain ⟨l, hindexed⟩ := hindexed
  rw [hindexed.snapshot_eq, hindexed.providers_eq, mem_registered]

theorem Started.spared {c : Config T (Session T P) (MutatorPc P)} {p : P}
    (hstart : Started prov c) : Spared p c := by
  refine ⟨?_, fun t => ?_⟩
  · rw [hstart.fired_eq]
    exact List.not_mem_nil
  · rw [hstart.pc_eq]
    exact List.not_mem_nil

/-- A provider that was refused is gone. -/
theorem gone_of_refused {c : Config T (Session T P) (MutatorPc P)} {t : T} {p : P}
    {e : EvntraceNativeError} (hc : AllHold (SessionInv prov) (ThreadInv prov) c)
    (hpc : (c.pc t).call = .returned (.refused p e)) : Gone p c := by
  have howner := (hc.2 t).owner p (hpc ▸ rfl)
  refine ⟨howner ▸ Option.some_ne_none t, (hc.2 t).off p (hpc ▸ rfl), fun u hw => ?_⟩
  have heq := (hc.2 u).owner p hw.owns
  rw [howner] at heq
  cases heq
  rw [hpc] at hw
  cases hw

variable [DecidableEq P]

theorem callAct_waits {s s' : Session T P} {pc pc' : CallPc P} {status : UInt32} {t : T}
    {p : P} (hact : callAct prov h t s status pc = some (s', pc')) (hw : pc'.Waits p) :
    pc.Waits p := by
  cases pc with
  | enableLock q | disableLock g =>
    rw [callAct] at hact
    split at hact
    · cases hact
      exact hw
    · cases hact
  | enableCall q | disableCall g =>
    rw [callAct] at hact
    split at hact
    all_goals
      cases hact
      cases hw
  | enabling q | disableCheck g =>
    cases hact
    split at hw <;> cases hw
  | idle | returned _ => cases hact
  | _ =>
    cases hact
    cases hw

variable (prov h) in
/-- A call that waits for nobody has a next step, and fewer after it. -/
theorem callAct_progress {s : Session T P} {pc : CallPc P} {t : T}
    (hrest : pc.isResting = false)
    (hlock : s.lock = none ∨ s.lock = some t) (hiff : pc.Critical ↔ s.lock = some t) :
    ∃ s' pc', callAct prov h t s 0 pc = some (s', pc') ∧ pc'.rank < pc.rank ∧
      (s'.lock = none ∨ s'.lock = some t) := by
  cases pc with
  | enableLock q =>
    have hfree := hlock.resolve_right fun hheld => hiff.mpr hheld
    exact ⟨_, _, if_pos hfree, Nat.lt_add_one 4, .inr rfl⟩
  | disableLock g =>
    have hfree := hlock.resolve_right fun hheld => hiff.mpr hheld
    exact ⟨_, _, if_pos hfree, Nat.lt_add_one 4, .inr rfl⟩
  | enableCall q =>
    rw [callAct]
    split
    · exact ⟨_, _, rfl, Nat.lt_add_one 2, hlock⟩
    · exact ⟨_, _, rfl, Nat.lt_add_one 2, hlock⟩
  | disableCall g =>
    rw [callAct]
    split
    · exact ⟨_, _, rfl, Nat.lt_add_one 2, hlock⟩
    · exact ⟨_, _, rfl, by simp [CallPc.rank], hlock⟩
  | enabling q =>
    refine ⟨_, _, rfl, ?_, .inl rfl⟩
    split <;> simp [CallPc.rank]
  | disableCheck g =>
    refine ⟨_, _, rfl, ?_, hlock⟩
    split <;> simp [CallPc.rank]
  | refusing _ _ | disabling _ _ => exact ⟨_, _, rfl, Nat.one_pos, .inl rfl⟩
  | capture _ => exact ⟨_, _, rfl, Nat.one_pos, hlock⟩
  | enableAdd _ => exact ⟨_, _, rfl, Nat.lt_add_one 3, hlock⟩
  | rollback _ _ | disableRemove _ => exact ⟨_, _, rfl, Nat.lt_add_one 1, hlock⟩
  | idle | returned _ => cases hrest

variable [DecidableEq T] {c c' : Config T (Session T P) (MutatorPc P)} {t : T}
  {i : SessionStep P} {is : List (T × SessionStep P)} {p : P}

/-! ### Events -/

/-- A step changes what its own thread is about to run. -/
theorem spared_iff_of_step (hs : step (sessionAct prov h) c t i = some c') :
    Spared p c' ↔ p ∉ c'.shared.fired ∧ p ∉ (c'.pc t).dispatch.pending ∧
      ∀ u, u ≠ t → p ∉ (c.pc u).dispatch.pending := by
  rw [spared_iff p c' t]
  refine and_congr_right fun _ => and_congr_right fun _ => forall_congr' fun u => ?_
  exact imp_congr_right fun hu => by rw [(step_inv hs).2 u hu]

/-- A step spares a provider exactly when it was spared before, and the step is not a lookup that
finds it. -/
theorem spared_step_iff (hs : step (sessionAct prov h) c t i = some c')
    (hc : AllHold (SessionInv prov) (ThreadInv prov) c) :
    Spared p c' ↔ Spared p c ∧ Unseen prov p c t i := by
  rw [spared_iff_of_step hs, spared_iff p c t]
  rcases session_cases (step_inv hs).1 with ⟨q, rfl, -, -, hshared, hpc⟩ |
    ⟨g, rfl, -, hshared, hpc⟩ | ⟨status, call, rfl, hcall, hpc⟩ |
    ⟨g, rfl, -, hdone, hshared, hpc⟩ | ⟨q, ps, invoked, rfl, -, hdispatch, hshared, hpc⟩
  · rw [hshared, hpc]
    exact (and_iff_left fun _ => nofun).symm
  · rw [hshared, hpc]
    exact (and_iff_left fun _ => nofun).symm
  · rw [(callAct_frame hcall).2.1, hpc]
    exact (and_iff_left fun _ => nofun).symm
  · have hseen : p ∉ c.shared.registry.snapshot g ↔ Unseen prov p c t (.onEvent g) := by
      rw [mem_snapshot_iff hc, not_and, Unseen, ne_eq, SessionStep.onEvent.injEq, eq_comm]
    have hnone : p ∉ (c.pc t).dispatch.pending := by
      rw [hdone]
      exact List.not_mem_nil
    rw [hshared, hpc, DispatchPc.pending, hseen]
    tauto
  · -- the provider that is called goes from those about to be called to those that were
    have hunseen : Unseen prov p c t .invoke := fun _ => nofun
    rw [hshared, hpc, hdispatch, DispatchPc.pending, DispatchPc.pending, List.mem_append,
      List.mem_singleton, List.mem_cons]
    tauto

/-- **Which runs spare a provider**: those without a lookup that finds it. -/
theorem spared_run_iff (hrun : run (sessionAct prov h) c is = some c')
    (hc : AllHold (SessionInv prov) (ThreadInv prov) c) :
    Spared p c' ↔ Spared p c ∧ Meets (sessionAct prov h) (Unseen prov p) c is :=
  run_iff_of_meets (AllHold (SessionInv prov) (ThreadInv prov)) (Spared p)
    (fun _ _ _ _ hs hc => (session_stable prov h).step hs hc)
    (fun _ _ _ _ hs hc => spared_step_iff hs hc) hrun hc

/-! ### After the refusal -/

theorem gone_step (hs : step (sessionAct prov h) c t i = some c') (hgone : Gone p c) :
    Gone p c' := by
  obtain ⟨hact, hothers⟩ := step_inv hs
  have hwaits : ¬ (c'.pc t).call.Waits p → ∀ u, ¬ (c'.pc u).call.Waits p := by
    intro ht u
    by_cases hu : u = t
    · rwa [hu]
    · rw [hothers u hu]
      exact hgone.waits u
  rcases session_cases hact with ⟨q, rfl, -, hnew, hshared, hpc⟩ | ⟨g, rfl, -, hshared, hpc⟩ |
    ⟨status, call, rfl, hcall, hpc⟩ | ⟨g, rfl, -, -, hshared, hpc⟩ |
    ⟨q, ps, invoked, rfl, -, -, hshared, hpc⟩
  · have hne : p ≠ q := by
      rintro rfl
      exact hgone.allocated hnew
    refine ⟨?_, ?_, hwaits ?_⟩
    · rw [hshared]
      show Function.update c.shared.allocated q (some t) p ≠ none
      rw [Function.update_of_ne hne]
      exact hgone.allocated
    · rw [hshared]
      exact hgone.registry
    · rw [hpc]
      exact hne.symm
  · refine ⟨hshared ▸ hgone.allocated, hshared ▸ hgone.registry, hwaits ?_⟩
    rw [hpc]
    exact id
  · obtain ⟨halloc, -, -, hmem⟩ := callAct_frame hcall
    refine ⟨halloc ▸ hgone.allocated, fun hp => ?_, hwaits ?_⟩
    · rcases hmem p hp with hp | hadd
      · exact hgone.registry hp
      · exact hgone.waits t (hadd ▸ rfl)
    · rw [hpc]
      exact fun hw => hgone.waits t (callAct_waits hcall hw)
  · refine ⟨hshared ▸ hgone.allocated, hshared ▸ hgone.registry, hwaits ?_⟩
    rw [hpc]
    exact hgone.waits t
  · refine ⟨?_, ?_, hwaits ?_⟩
    · rw [hshared]
      exact hgone.allocated
    · rw [hshared]
      exact hgone.registry
    · rw [hpc]
      exact hgone.waits t

/-- A provider that is gone is not looked up any more. -/
theorem meets_of_gone (hgone : Gone p c) : Meets (sessionAct prov h) (Unseen prov p) c is :=
  meets_of_invariant (Gone p) (fun _ _ _ _ hs hgone => gone_step hs hgone)
    (fun _ _ _ hgone hmem => absurd hmem hgone.registry) hgone

/-! ### Calls can be finished -/

variable (prov h) in
/-- A thread that waits for nobody can finish its call, while the others stay where they are. -/
theorem exists_run_resting (hc : AllHold (SessionInv prov) (ThreadInv prov) c)
    (hlock : c.shared.lock = none ∨ c.shared.lock = some t) :
    ∃ js d, run (sessionAct prov h) c js = some d ∧ (d.pc t).call.isResting ∧
      d.shared.lock = none ∧ ∀ u, (d.pc u).dispatch = (c.pc u).dispatch := by
  induction hn : (c.pc t).call.rank using Nat.strong_induction_on generalizing c with
  | _ n ih =>
    have hiff := (hc.2 t).lock_iff
    cases hrest : (c.pc t).call.isResting with
    | true =>
      have hfree := hlock.resolve_right fun hheld =>
        CallPc.not_critical_of_isResting hrest (hiff.mpr hheld)
      exact ⟨[], c, rfl, hrest, hfree, fun _ => rfl⟩
    | false =>
      obtain ⟨s', call, hact, hrank, hlock'⟩ :=
        callAct_progress prov h hrest hlock hiff
      have hs : step (sessionAct prov h) c t (.proceed 0) =
          some ⟨s', Function.update c.pc t ⟨call, (c.pc t).dispatch⟩⟩ := by
        refine step_eq_some_iff.mpr ⟨_, _, ?_, rfl⟩
        show (callAct prov h t c.shared 0 (c.pc t).call).map _ = _
        rw [hact]
        rfl
      have hself : (Function.update c.pc t ⟨call, (c.pc t).dispatch⟩ t).call = call := by
        rw [Function.update_self]
      obtain ⟨js, d, hd, hdrest, hdlock, hdispatch⟩ :=
        ih call.rank (hn ▸ hrank) ((session_stable prov h).step hs hc) hlock' (by rw [hself])
      refine ⟨(t, .proceed 0) :: js, d, run_cons_eq_some_iff.mpr ⟨_, hs, hd⟩, hdrest, hdlock,
        fun u => ?_⟩
      rw [hdispatch]
      by_cases hu : u = t
      · rw [hu]
        simp only [Function.update_self]
      · simp only [Function.update_of_ne hu]

variable (prov h) in
/-- A thread outside calls runs the callbacks of the next provider its event has found. -/
theorem exists_step_invoke {q : P} {ps : List P} (hrest : (c.pc t).call.isResting)
    (hpending : (c.pc t).dispatch.pending = q :: ps) :
    ∃ d, step (sessionAct prov h) c t .invoke = some d ∧ q ∈ d.shared.fired ∧
      (d.pc t).call = (c.pc t).call ∧ (d.pc t).dispatch.pending = ps := by
  obtain ⟨invoked, hdispatch⟩ : ∃ invoked, (c.pc t).dispatch = .dispatching (q :: ps) invoked := by
    cases hdispatch : (c.pc t).dispatch with
    | idle =>
      rw [hdispatch] at hpending
      cases hpending
    | dispatching pending invoked =>
      rw [hdispatch] at hpending
      exact ⟨invoked, by rw [show pending = q :: ps from hpending]⟩
  refine ⟨_, step_eq_some_iff.mpr ⟨{ c.shared with fired := c.shared.fired ++ [q] },
    ⟨(c.pc t).call, .dispatching ps (invoked ++ [q])⟩, ?_, rfl⟩,
    List.mem_append_right _ List.mem_cons_self, ?_, ?_⟩
  · rw [show c.pc t = ⟨(c.pc t).call, (c.pc t).dispatch⟩ from rfl, hdispatch]
    exact if_pos hrest
  · simp only [Function.update_self]
  · simp only [Function.update_self, DispatchPc.pending]

variable (prov h) in
/-- A thread outside calls gets to every provider its event has found. -/
theorem exists_run_invoked (hrest : (c.pc t).call.isResting)
    (hp : p ∈ (c.pc t).dispatch.pending) :
    ∃ js d, run (sessionAct prov h) c js = some d ∧ p ∈ d.shared.fired := by
  induction hpending : (c.pc t).dispatch.pending generalizing c with
  | nil =>
    rw [hpending] at hp
    exact absurd hp List.not_mem_nil
  | cons q ps ih =>
    obtain ⟨d, hs, hfired, hcall, hps⟩ :=
      exists_step_invoke prov h hrest hpending
    rw [hpending] at hp
    rcases List.mem_cons.mp hp with rfl | hp
    · exact ⟨_, _, run_cons_eq_some_iff.mpr ⟨_, hs, run_nil _⟩, hfired⟩
    · obtain ⟨js, d', hd', hfired'⟩ := ih (hcall ▸ hrest) (hps ▸ hp) hps
      exact ⟨(t, .invoke) :: js, d', run_cons_eq_some_iff.mpr ⟨d, hs, hd'⟩, hfired'⟩

variable (prov h) in
/-- **What an event has found, it gets to**: whoever holds the lock finishes, then the thread of the
event finishes the call its callback made, then it goes on. -/
theorem exists_run_fired (hc : AllHold (SessionInv prov) (ThreadInv prov) c) (hnot : ¬ Spared p c) :
    ∃ js d, run (sessionAct prov h) c js = some d ∧ p ∈ d.shared.fired := by
  by_cases hfired : p ∈ c.shared.fired
  · exact ⟨[], c, rfl, hfired⟩
  obtain ⟨u, hu⟩ : ∃ u, p ∈ (c.pc u).dispatch.pending := by
    by_contra hnone
    exact hnot ⟨hfired, fun u hu => hnone ⟨u, hu⟩⟩
  -- the lock is released
  obtain ⟨js₁, d₁, hd₁, hfree, hdispatch₁⟩ : ∃ js d, run (sessionAct prov h) c js = some d ∧
      d.shared.lock = none ∧ ∀ u, (d.pc u).dispatch = (c.pc u).dispatch := by
    cases hlock : c.shared.lock with
    | none => exact ⟨[], c, rfl, hlock, fun _ => rfl⟩
    | some t =>
      obtain ⟨js, d, hd, -, hfree, hdispatch⟩ := exists_run_resting prov h hc (.inr hlock)
      exact ⟨js, d, hd, hfree, hdispatch⟩
  have hc₁ := (session_stable prov h).run hd₁ hc
  obtain ⟨js₂, d₂, hd₂, hrest, -, hdispatch₂⟩ :=
    exists_run_resting prov h (t := u) hc₁ (.inl hfree)
  obtain ⟨js₃, d₃, hd₃, hfired⟩ := exists_run_invoked prov h hrest
    (show p ∈ (d₂.pc u).dispatch.pending by rw [hdispatch₂, hdispatch₁]; exact hu)
  exact ⟨js₁ ++ (js₂ ++ js₃), d₃, run_append_eq_some_iff.mpr
    ⟨d₁, hd₁, run_append_eq_some_iff.mpr ⟨d₂, hd₂, hd₃⟩⟩, hfired⟩

/-! ### The window -/

/-- **Which refused providers never fire.** Once `enable_provider` has returned a refusal, the
provider's callbacks have not run, and will not run whatever happens next, exactly when no event of
its GUID was looked up while it was registered. -/
theorem never_fires_iff {c₀ : Config T (Session T P) (MutatorPc P)} {e : EvntraceNativeError}
    (hstart : Started prov c₀) (hrun : run (sessionAct prov h) c₀ is = some c)
    (hrefused : (c.pc t).call = .returned (.refused p e)) :
    (∀ js d, run (sessionAct prov h) c js = some d → p ∉ d.shared.fired) ↔
      Meets (sessionAct prov h) (Unseen prov p) c₀ is := by
  have hc := hstart.holds_run hrun
  have hspared : Spared p c ↔ Meets (sessionAct prov h) (Unseen prov p) c₀ is := by
    rw [spared_run_iff hrun hstart.holds, and_iff_right hstart.spared]
  rw [← hspared]
  constructor
  · intro hnever
    by_contra hnot
    obtain ⟨js, d, hd, hfired⟩ := exists_run_fired prov h hc hnot
    exact hnever js d hd hfired
  · intro hsp js d hd
    have hafter : Meets (sessionAct prov h) (Unseen prov p) c js :=
      meets_of_gone (gone_of_refused hc hrefused)
    exact ((spared_run_iff hd hc).mpr ⟨hsp, hafter⟩).fired

/-- A second provider of the GUID is refused, with no event around. -/
def quietRefusal : List (Bool × SessionStep ℕ) :=
  [(true, .enable 1), (true, .proceed 0), (true, .proceed 0), (true, .proceed 5),
    (true, .proceed 0), (true, .proceed 0)]

theorem never_fires_quietRefusal :
    ∃ c : Config Bool (Session Bool ℕ) (MutatorPc ℕ),
      run (sessionAct (fun _ => plainProvider) 7) onePlainProvider quietRefusal = some c ∧
      ∀ js d, run (sessionAct (fun _ => plainProvider) 7) c js = some d → 1 ∉ d.shared.fired := by
  refine ⟨_, rfl, ?_⟩
  have hrun : run (sessionAct (fun _ => plainProvider) 7) onePlainProvider quietRefusal =
    some _ := rfl
  refine (never_fires_iff (t := true) (e := .ioError 5) started_onePlainProvider hrun rfl).mpr ?_
  exact ⟨fun _ => nofun, fun _ _ => ⟨fun _ => nofun, fun _ _ => ⟨fun _ => nofun, fun _ _ =>
    ⟨fun _ => nofun, fun _ _ =>
      ⟨fun _ => nofun, fun _ _ => ⟨fun _ => nofun, fun _ _ => trivial⟩⟩⟩⟩⟩⟩

/-- An event of the first provider is looked up in between. -/
def eventInWindow : List (Bool × SessionStep ℕ) :=
  [(true, .enable 1), (true, .proceed 0), (true, .proceed 0), (false, .onEvent plainProvider.guid),
    (true, .proceed 5), (true, .proceed 0), (true, .proceed 0)]

/-- A refused provider can fire: it does after this run. -/
theorem not_never_fires :
    ¬ ∀ is (c : Config Bool (Session Bool ℕ) (MutatorPc ℕ)),
      run (sessionAct (fun _ => plainProvider) 7) onePlainProvider is = some c →
      ∀ t e, (c.pc t).call = .returned (.refused 1 e) →
      ∀ js d, run (sessionAct (fun _ => plainProvider) 7) c js = some d → 1 ∉ d.shared.fired := by
  intro hnever
  refine hnever eventInWindow _ rfl true (.ioError 5) rfl [(false, .invoke), (false, .invoke)] _
    rfl ?_
  exact List.mem_append_right _ List.mem_cons_self

end Ferrisetw2
