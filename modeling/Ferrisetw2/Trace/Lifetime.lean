import Ferrisetw2.Lib.Interleaving
import Ferrisetw2.Native.Evntrace

/-!
# Trace lifetimes

Traces are started, opened, stopped, closed and dropped, any number of them, by any threads, while
the framework calls back with the contexts it was given. `trace.rs`, `evntrace.rs`.

A trace is released in steps: its context is retired, its consumer handle closed, its session
stopped. `stop` and `close` take the trace by value and do some of that. The trace is then dropped,
which does all of it, once more; and its fields are dropped after that.

Windows keeps handles by their values, and can hand out a value again once it is free.

## Main definitions

* `Trace`, `Release` — what a trace holds, and the steps that release it
* `Trace.nonConsumingStop`, `Trace.stop`, `Trace.close`, `Trace.drop`
* `TraceSystem`, `TracePc`, `traceAct` — traces and callbacks, step by step
* `Acts` — those steps as a relation
* `Books` — what the contexts are to add up to

## Main results

* `acts_of_traceAct` — all that an actor can do
* `system_stable` — contexts and ids keep their books
* `contexts_routed` — a callback reaches the data registered under its id, and only until that is
  unregistered
-/

namespace Ferrisetw2

open Rust Interleaving

/-! ### Releasing a trace -/

/-- One step of releasing a trace. -/
inductive Release where
  /-- The context is unregistered. -/
  | retire (context : ℕ)
  /-- `CloseTrace`. -/
  | closeTrace (handle : TraceHandle)
  /-- `ControlTraceW` with `EVENT_TRACE_CONTROL_STOP`. -/
  | stop (handle : ControlHandle)
  deriving DecidableEq, Repr

/-- How a trace came to be. -/
inductive Origin where
  /-- `TraceBuilder::start`. -/
  | started (control : ControlHandle)
  /-- `TraceBuilder::open_existing`, which has no control handle. -/
  | existing
  /-- `FileTraceBuilder::start`. -/
  | file
  deriving DecidableEq, Repr

/-- `UserTrace`, `KernelTrace` or `FileTrace`. -/
structure Trace where
  origin : Origin
  traceHandle : TraceHandle
  context : ℕ
  deriving DecidableEq, Repr

/-- The steps of `control_trace` with a stop. -/
def controlStop (control : ControlHandle) : List Release :=
  match filterInvalidControlHandle control with
  | none => []
  | some handle => [.stop handle]

theorem controlStop_of_ne_zero {control : ControlHandle} (h : control ≠ 0) :
    controlStop control = [.stop control] := by
  rw [controlStop, filterInvalidControlHandle_eq_some_iff.mpr ⟨h, rfl⟩]

/-- The control handle of a trace, for the kinds that have one. -/
def Origin.control : Origin → Option ControlHandle
  | .started control => some control
  | .existing => some 0
  | .file => none

/-- The stop of a session, for the traces that have one. -/
def Origin.controlStop (origin : Origin) : List Release :=
  match origin.control with
  | none => []
  | some control => Ferrisetw2.controlStop control

namespace Trace

/-- The steps of `close_trace`. -/
def closeTrace (tr : Trace) : List Release :=
  match filterInvalidTraceHandles tr.traceHandle with
  | none => []
  | some handle => [.retire tr.context, .closeTrace handle]

/-- `non_consuming_stop`: both steps are always attempted. -/
def nonConsumingStop (tr : Trace) : List Release := tr.closeTrace ++ tr.origin.controlStop

/-- `Drop`, and then the fields. -/
def drop (tr : Trace) : List Release := tr.nonConsumingStop ++ [.retire tr.context]

/-- `TraceTrait::stop`. The trace is dropped on the way out. -/
def stop (tr : Trace) : List Release := tr.nonConsumingStop ++ tr.drop

/-- `TraceTrait::close`. The trace is dropped on the way out. -/
def close (tr : Trace) : List Release := tr.closeTrace ++ tr.drop

/-- `StartedSessionGuard::drop`, with a consumer. -/
def abandon (tr : Trace) : List Release :=
  tr.closeTrace ++ .retire tr.context :: tr.origin.controlStop

end Trace

theorem retire_notMem_controlStop (origin : Origin) (id : ℕ) :
    .retire id ∉ origin.controlStop := by
  have hstop : ∀ control, .retire id ∉ controlStop control := by
    intro control
    rw [controlStop]
    split <;> simp
  cases origin with
  | started control => exact hstop control
  | existing => exact hstop 0
  | file => exact List.not_mem_nil

namespace Trace

variable {tr : Trace} {id : ℕ}

theorem eq_of_retire_mem_closeTrace (h : .retire id ∈ tr.closeTrace) : id = tr.context := by
  rw [closeTrace] at h
  split at h
  · cases h
  · simpa using h

/-- The ways to release a trace. -/
def Releases (tr : Trace) (todo : List Release) : Prop :=
  todo = tr.stop ∨ todo = tr.close ∨ todo = tr.drop ∨ todo = tr.abandon

variable {todo : List Release}

/-- All the ways to release a trace are made of the same steps. -/
theorem Releases.mem (htodo : tr.Releases todo) {r : Release} (hr : r ∈ todo) :
    r ∈ tr.closeTrace ∨ r ∈ tr.origin.controlStop ∨ r = .retire tr.context := by
  rcases htodo with rfl | rfl | rfl | rfl
  all_goals
    simp only [stop, close, drop, abandon, nonConsumingStop, List.mem_append, List.mem_cons,
      List.not_mem_nil, or_false] at hr
    tauto

/-- A trace retires its own context only. -/
theorem Releases.eq_of_retire_mem (htodo : tr.Releases todo) (hmem : .retire id ∈ todo) :
    id = tr.context := by
  rcases htodo.mem hmem with hmem | hmem | heq
  · exact eq_of_retire_mem_closeTrace hmem
  · exact absurd hmem (retire_notMem_controlStop _ _)
  · exact Release.retire.inj heq

/-- It does retire that, whatever Windows says to its handles. -/
theorem Releases.retire_mem (htodo : tr.Releases todo) : .retire tr.context ∈ todo := by
  rcases htodo with rfl | rfl | rfl | rfl
  all_goals simp [stop, close, drop, abandon]

end Trace

/-! ### The system -/

/-- Where an actor is: one that has a trace, or one that delivers callbacks. -/
inductive TracePc (D : Type) where
  | idle
  /-- A start that is ready to open its consumer. -/
  | ready (origin : Origin)
  | minted (origin : Origin) (context : ℕ) (data : D)
  | registered (origin : Origin) (context : ℕ)
  /-- The consumer is open, and the trace not handed over yet. -/
  | opened (tr : Trace)
  | live (tr : Trace)
  /-- These releases are left to do. -/
  | ending (context : Option ℕ) (todo : List Release)
  /-- A callback has looked up its context, and goes on with its own clone. -/
  | dispatching (context : ℕ) (data : D)

/-- What an actor can do. Where Windows is called, the step says what it answered. -/
inductive TraceStep (D : Type) where
  /-- `StartTraceW` succeeded. -/
  | startTraceW (control : ControlHandle)
  | openExisting
  | openFile
  /-- A start fails. -/
  | fail
  /-- `TraceContextId::mint`. -/
  | mint (data : D)
  | insert
  | openTraceW (handle : TraceHandle)
  | handOver
  | stop
  | close
  | drop
  /-- The next release, and whether Windows carried it out. -/
  | release (done : Bool)
  /-- A session ends otherwise: it is stopped by name, or by another process. -/
  | endSession (control : ControlHandle)
  /-- A callback with this context, up to the lookup. -/
  | lookup (context : ℕ)
  | dispatch

/-- What actors share, and what Windows knows. -/
structure TraceSystem (T D : Type) where
  contexts : ContextRegistry D
  /-- Who minted each id, in order. -/
  minted : List T
  /-- What was registered, under which id. -/
  inserted : List (ℕ × D)
  /-- Which ids were unregistered. -/
  retired : List ℕ
  /-- Where callbacks were dispatched to, with which id. -/
  dispatched : List (ℕ × D)
  /-- Whom a consumer handle belongs to. -/
  consumers : TraceHandle → Option T
  /-- Whom a control handle belongs to. -/
  sessions : ControlHandle → Option T

variable {T D : Type}

/-- A release is carried out. -/
def releaseAct (s : TraceSystem T D) (done : Bool) : Release → TraceSystem T D
  | .retire id => { s with contexts := s.contexts.unregister id, retired := id :: s.retired }
  | .closeTrace h =>
    if done then { s with consumers := Function.update s.consumers h none } else s
  | .stop c => if done then { s with sessions := Function.update s.sessions c none } else s

/-- The steps of an actor. -/
def traceAct (t : Target) (u : T) (s : TraceSystem T D) :
    TracePc D → TraceStep D → Option (TraceSystem T D × TracePc D)
  | pc, .endSession c => some ({ s with sessions := Function.update s.sessions c none }, pc)
  | .idle, .startTraceW c =>
    if c ≠ 0 ∧ s.sessions c = none then
      some ({ s with sessions := Function.update s.sessions c (some u) }, .ready (.started c))
    else none
  | .idle, .openExisting => some (s, .ready .existing)
  | .idle, .openFile => some (s, .ready .file)
  | .ready (.started c), .fail => some (s, .ending none (controlStop c))
  | .ready origin, .mint data =>
    some ({ s with contexts := (s.contexts.mint t).2, minted := s.minted ++ [u] },
      .minted origin (s.contexts.mint t).1 data)
  | .minted origin id data, .insert =>
    some ({ s with contexts := s.contexts.insert id data, inserted := s.inserted ++ [(id, data)] },
      .registered origin id)
  | .registered origin id, .openTraceW h =>
    match filterInvalidTraceHandles h with
    | none => some (s, .ending (some id) (.retire id :: origin.controlStop))
    | some _ =>
      -- Windows does not hand out a value that is taken
      if s.consumers h = none then
        some ({ s with consumers := Function.update s.consumers h (some u) },
          .opened ⟨origin, h, id⟩)
      else none
  | .opened tr, .handOver => some (s, .live tr)
  | .opened ⟨.started c, h, id⟩, .fail =>
    some (s, .ending (some id) (Trace.abandon ⟨.started c, h, id⟩))
  | .live tr, .stop => some (s, .ending (some tr.context) tr.stop)
  | .live tr, .close => some (s, .ending (some tr.context) tr.close)
  | .live tr, .drop => some (s, .ending (some tr.context) tr.drop)
  | .ending context (r :: todo), .release done => some (releaseAct s done r, .ending context todo)
  | .idle, .lookup id =>
    match s.contexts.get id with
    | none => some (s, .idle)
    | some data => some (s, .dispatching id data)
  | .dispatching id data, .dispatch =>
    some ({ s with dispatched := s.dispatched ++ [(id, data)] }, .idle)
  | _, _ => none

/-- What an actor does, and what it has found. -/
inductive Acts (t : Target) (u : T) (s : TraceSystem T D) :
    TracePc D → TraceStep D → TraceSystem T D → TracePc D → Prop where
  | endSession (pc : TracePc D) (c : ControlHandle) : Acts t u s pc (.endSession c)
      { s with sessions := Function.update s.sessions c none } pc
  | startTraceW {c : ControlHandle} : c ≠ 0 → s.sessions c = none → Acts t u s .idle
      (.startTraceW c) { s with sessions := Function.update s.sessions c (some u) }
      (.ready (.started c))
  | openExisting : Acts t u s .idle .openExisting s (.ready .existing)
  | openFile : Acts t u s .idle .openFile s (.ready .file)
  | giveUp (c : ControlHandle) : Acts t u s (.ready (.started c)) .fail s
      (.ending none (controlStop c))
  | mint (origin : Origin) (data : D) : Acts t u s (.ready origin) (.mint data)
      { s with contexts := (s.contexts.mint t).2, minted := s.minted ++ [u] }
      (.minted origin (s.contexts.mint t).1 data)
  | insert (origin : Origin) (id : ℕ) (data : D) : Acts t u s (.minted origin id data) .insert
      { s with contexts := s.contexts.insert id data, inserted := s.inserted ++ [(id, data)] }
      (.registered origin id)
  | notOpened (origin : Origin) (id : ℕ) {h : TraceHandle} : filterInvalidTraceHandles h = none →
      Acts t u s (.registered origin id) (.openTraceW h) s
      (.ending (some id) (.retire id :: origin.controlStop))
  | openTraceW (origin : Origin) (id : ℕ) {h : TraceHandle} :
      (filterInvalidTraceHandles h).isSome → s.consumers h = none →
      Acts t u s (.registered origin id) (.openTraceW h)
      { s with consumers := Function.update s.consumers h (some u) } (.opened ⟨origin, h, id⟩)
  | handOver (tr : Trace) : Acts t u s (.opened tr) .handOver s (.live tr)
  | abandon (c : ControlHandle) (h : TraceHandle) (id : ℕ) :
      Acts t u s (.opened ⟨.started c, h, id⟩) .fail s
      (.ending (some id) (Trace.abandon ⟨.started c, h, id⟩))
  | stop (tr : Trace) : Acts t u s (.live tr) .stop s (.ending (some tr.context) tr.stop)
  | close (tr : Trace) : Acts t u s (.live tr) .close s (.ending (some tr.context) tr.close)
  | drop (tr : Trace) : Acts t u s (.live tr) .drop s (.ending (some tr.context) tr.drop)
  | release (context : Option ℕ) (r : Release) (todo : List Release) (done : Bool) :
      Acts t u s (.ending context (r :: todo)) (.release done) (releaseAct s done r)
      (.ending context todo)
  | miss {id : ℕ} : s.contexts.get id = none → Acts t u s .idle (.lookup id) s .idle
  | hit {id : ℕ} {data : D} : s.contexts.get id = some data →
      Acts t u s .idle (.lookup id) s (.dispatching id data)
  | dispatch (id : ℕ) (data : D) : Acts t u s (.dispatching id data) .dispatch
      { s with dispatched := s.dispatched ++ [(id, data)] } .idle

/-- **All that an actor can do.** -/
theorem acts_of_traceAct {t : Target} {u : T} {s s' : TraceSystem T D} {pc pc' : TracePc D}
    {i : TraceStep D} (hact : traceAct t u s pc i = some (s', pc')) : Acts t u s pc i s' pc' := by
  rw [traceAct.eq_def] at hact
  split at hact
  · cases hact
    exact .endSession pc _
  · split at hact
    · rename_i hfree
      cases hact
      exact .startTraceW hfree.1 hfree.2
    · cases hact
  · cases hact
    exact .openExisting
  · cases hact
    exact .openFile
  · cases hact
    exact .giveUp _
  · cases hact
    exact .mint _ _
  · cases hact
    exact .insert _ _ _
  · split at hact
    · rename_i hnone
      cases hact
      exact .notOpened _ _ hnone
    · rename_i hvalid
      split at hact
      · rename_i hfree
        cases hact
        exact .openTraceW _ _ (by rw [hvalid, Option.isSome_some]) hfree
      · cases hact
  · cases hact
    exact .handOver _
  · cases hact
    exact .abandon _ _ _
  · cases hact
    exact .stop _
  · cases hact
    exact .close _
  · cases hact
    exact .drop _
  · cases hact
    exact .release _ _ _ _
  · split at hact
    · rename_i hget
      cases hact
      exact .miss hget
    · rename_i hget
      cases hact
      exact .hit hget
  · cases hact
    exact .dispatch _ _
  · cases hact

/-- No actor has done anything, in a process that has just started. -/
def systemStart : Config T (TraceSystem T D) (TracePc D) where
  shared :=
    { contexts := .start
      minted := []
      inserted := []
      retired := []
      dispatched := []
      consumers := fun _ => none
      sessions := fun _ => none }
  pc _ := .idle

/-! ### The books of the contexts -/

/-- Something was registered under this id. -/
def TraceSystem.Registered (s : TraceSystem T D) (id : ℕ) : Prop := ∃ data, (id, data) ∈ s.inserted

/-- Fewer ids were minted than `usize` can hold. -/
def TraceSystem.Few (t : Target) (s : TraceSystem T D) : Prop := s.minted.length < usizeCount t

/-- The registry holds what was registered and is not unregistered, under the id it was registered
under. Callbacks went to what was registered under their ids. -/
structure Books (t : Target) (s : TraceSystem T D) : Prop where
  nextId_eq : s.contexts.nextId = (s.minted.length + 1) % usizeCount t
  range : ∀ id data, (id, data) ∈ s.inserted → 1 ≤ id ∧ id ≤ s.minted.length
  unique : ∀ id data data', (id, data) ∈ s.inserted → (id, data') ∈ s.inserted → data = data'
  get_iff : ∀ id data, s.contexts.get id = some data ↔ (id, data) ∈ s.inserted ∧ id ∉ s.retired
  retired : ∀ id ∈ s.retired, s.Registered id
  dispatched : ∀ x ∈ s.dispatched, x ∈ s.inserted

/-- What an actor knows of the contexts. -/
def Knows (u : T) (s : TraceSystem T D) : TracePc D → Prop
  | .minted _ id _ => 1 ≤ id ∧ s.minted[id - 1]? = some u ∧ ¬ s.Registered id
  | .registered _ id => s.Registered id
  | .opened tr | .live tr => s.Registered tr.context
  | .ending context todo =>
    (∀ id, .retire id ∈ todo → s.Registered id) ∧
      ∀ id, context = some id → id ∈ s.retired ∨ .retire id ∈ todo
  | .dispatching id data => (id, data) ∈ s.inserted
  | .idle | .ready _ => True

/-- Nothing changed but handles. -/
structure SameBooks (s s' : TraceSystem T D) : Prop where
  contexts_eq : s'.contexts = s.contexts
  minted_eq : s'.minted = s.minted
  inserted_eq : s'.inserted = s.inserted
  retired_eq : s'.retired = s.retired
  dispatched_eq : s'.dispatched = s.dispatched

variable {t : Target} {s s' : TraceSystem T D} {u v : T} {pc pc' : TracePc D}

theorem Books.congr (hb : Books t s) (h : SameBooks s s') : Books t s' := by
  obtain ⟨contexts, minted, inserted, retired, dispatched, consumers, sessions⟩ := s
  obtain ⟨rfl, rfl, rfl, rfl, rfl⟩ := h
  exact ⟨hb.nextId_eq, hb.range, hb.unique, hb.get_iff, hb.retired, hb.dispatched⟩

theorem Knows.congr (hk : Knows u s pc) (h : SameBooks s s') : Knows u s' pc := by
  obtain ⟨contexts, minted, inserted, retired, dispatched, consumers, sessions⟩ := s
  obtain ⟨rfl, rfl, rfl, rfl, rfl⟩ := h
  cases pc <;> exact hk

/-- More ids, registrations and retirements take away no knowledge, unless it is of an id that is
registered now. -/
theorem Knows.mono (hk : Knows u s pc) (hminted : s.minted <+: s'.minted)
    (hinserted : s.inserted ⊆ s'.inserted) (hretired : s.retired ⊆ s'.retired)
    (hnew : ∀ origin id data, pc = .minted origin id data → ¬ s'.Registered id) :
    Knows u s' pc := by
  have hreg : ∀ id, s.Registered id → s'.Registered id :=
    fun id ⟨data, hdata⟩ => ⟨data, hinserted hdata⟩
  cases pc with
  | minted origin id data =>
    refine ⟨hk.1, ?_, hnew origin id data rfl⟩
    obtain ⟨more, hmore⟩ := hminted
    rw [← hmore, List.getElem?_append_left]
    · exact hk.2.1
    · exact (List.getElem?_eq_some_iff.mp hk.2.1).1
  | registered _ id => exact hreg id hk
  | opened tr | live tr => exact hreg tr.context hk
  | ending context todo =>
    exact ⟨fun id hid => hreg id (hk.1 id hid),
      fun id hid => (hk.2 id hid).imp (hretired ·) fun hid => hid⟩
  | dispatching id data => exact hinserted hk
  | idle | ready _ => trivial

theorem Books.release (hb : Books t s) (r : Release)
    (hr : ∀ id, r = .retire id → s.Registered id) (done : Bool) :
    Books t (releaseAct s done r) := by
  cases r with
  | retire id =>
    refine ⟨hb.nextId_eq, hb.range, hb.unique, fun id' data => ?_, ?_, hb.dispatched⟩
    · show (s.contexts.unregister id).get id' = some data ↔
        (id', data) ∈ s.inserted ∧ id' ∉ id :: s.retired
      rw [ContextRegistry.get_unregister, List.mem_cons, not_or]
      by_cases hid : id' = id
      · simp [hid]
      · rw [if_neg hid, hb.get_iff, and_iff_right hid]
    · intro id' hid'
      rcases List.mem_cons.mp hid' with heq | hid'
      · exact heq ▸ hr id rfl
      · exact hb.retired id' hid'
  | closeTrace h | stop c =>
    rw [releaseAct]
    split
    · exact hb.congr ⟨rfl, rfl, rfl, rfl, rfl⟩
    · exact hb

/-- What a release changes in the books. -/
theorem releaseAct_frame (s : TraceSystem T D) (r : Release) (done : Bool) :
    (releaseAct s done r).minted = s.minted ∧ (releaseAct s done r).inserted = s.inserted ∧
      s.retired ⊆ (releaseAct s done r).retired ∧
      ∀ id, r = .retire id → id ∈ (releaseAct s done r).retired := by
  cases r with
  | retire id =>
    refine ⟨rfl, rfl, List.subset_cons_self .., ?_⟩
    intro id' heq
    cases heq
    exact List.mem_cons_self
  | closeTrace h | stop c =>
    rw [releaseAct]
    split
    all_goals exact ⟨rfl, rfl, fun _ => id, fun _ => nofun⟩

/-- A new id is one that nothing was registered under. -/
theorem Books.mint (hb : Books t s) (hfew : s.minted.length + 1 < usizeCount t) :
    (s.contexts.mint t).1 = s.minted.length + 1 ∧ ¬ s.Registered (s.minted.length + 1) ∧
      Books t { s with contexts := (s.contexts.mint t).2, minted := s.minted ++ [u] } := by
  have hid : s.contexts.nextId = s.minted.length + 1 := by
    rw [hb.nextId_eq, Nat.mod_eq_of_lt hfew]
  refine ⟨hid, ?_, ?_, fun id data h => ?_, hb.unique, hb.get_iff, hb.retired, hb.dispatched⟩
  · rintro ⟨data, hdata⟩
    have := (hb.range _ _ hdata).2
    omega
  · show (s.contexts.nextId + 1) % usizeCount t = ((s.minted ++ [u]).length + 1) % usizeCount t
    rw [hid, List.length_append, List.length_singleton]
  · obtain ⟨hge, hle⟩ := hb.range id data h
    refine ⟨hge, ?_⟩
    show id ≤ (s.minted ++ [u]).length
    rw [List.length_append]
    omega

/-- Registering under a fresh id. -/
theorem Books.insert (hb : Books t s) {id : ℕ} (hge : 1 ≤ id) (hle : id ≤ s.minted.length)
    (hnew : ¬ s.Registered id) (data : D) :
    Books t { s with contexts := s.contexts.insert id data,
                     inserted := s.inserted ++ [(id, data)] } := by
  have hmem : ∀ id' data', (id', data') ∈ s.inserted ++ [(id, data)] ↔
      (id', data') ∈ s.inserted ∨ id' = id ∧ data' = data := by simp
  have hretired : id ∉ s.retired := fun h => hnew (hb.retired id h)
  refine ⟨hb.nextId_eq, fun id' data' h => ?_, fun id' d d' h h' => ?_, fun id' data' => ?_,
    fun id' h => ?_, fun x h => List.mem_append_left _ (hb.dispatched x h)⟩
  · rcases (hmem id' data').mp h with hold | ⟨rfl, -⟩
    · exact hb.range id' data' hold
    · exact ⟨hge, hle⟩
  · rcases (hmem id' d).mp h with hd | ⟨hid, rfl⟩
    · rcases (hmem id' d').mp h' with hd' | ⟨hid, -⟩
      · exact hb.unique id' d d' hd hd'
      · exact absurd ⟨d, hid ▸ hd⟩ hnew
    · rcases (hmem id' d').mp h' with hd' | ⟨-, rfl⟩
      · exact absurd ⟨d', hid ▸ hd'⟩ hnew
      · rfl
  · show (s.contexts.insert id data).get id' = some data' ↔ _
    rw [ContextRegistry.get_insert, hmem]
    by_cases hid : id' = id
    · subst hid
      have hold : (id', data') ∉ s.inserted := fun h => hnew ⟨data', h⟩
      simp [hold, hretired, eq_comm]
    · rw [if_neg hid, hb.get_iff]
      simp [hid]
  · obtain ⟨d, hd⟩ := hb.retired id' h
    exact ⟨d, List.mem_append_left _ hd⟩

/-! ### Runs -/

/-- Once a trace is being released, its context is to be retired, and no other. -/
theorem knows_of_releases (tr : Trace) {todo : List Release} (hreg : s.Registered tr.context)
    (htodo : tr.Releases todo) : Knows u s (.ending (some tr.context) todo) := by
  constructor
  · intro id hid
    rw [htodo.eq_of_retire_mem hid]
    exact hreg
  · intro id hid
    rw [← Option.some.inj hid]
    exact .inr htodo.retire_mem

/-- **What an actor does to the books**: nothing, or one thing. -/
theorem traceAct_books {i : TraceStep D} (hact : traceAct t u s pc i = some (s', pc')) :
    SameBooks s s' ∧ (Books t s → Knows u s pc → Knows u s' pc') ∨
    (∃ origin data, s' = { s with contexts := (s.contexts.mint t).2, minted := s.minted ++ [u] } ∧
      pc' = .minted origin (s.contexts.mint t).1 data) ∨
    (∃ origin id data, pc = .minted origin id data ∧
      s' = { s with contexts := s.contexts.insert id data,
                    inserted := s.inserted ++ [(id, data)] } ∧ pc' = .registered origin id) ∨
    (∃ context r todo done, pc = .ending context (r :: todo) ∧ s' = releaseAct s done r ∧
      pc' = .ending context todo) ∨
    ∃ id data, pc = .dispatching id data ∧
      s' = { s with dispatched := s.dispatched ++ [(id, data)] } ∧ pc' = .idle := by
  have hsame : SameBooks s s := ⟨rfl, rfl, rfl, rfl, rfl⟩
  cases acts_of_traceAct hact with
  | endSession c =>
    exact .inl ⟨⟨rfl, rfl, rfl, rfl, rfl⟩, fun _ hk => hk.congr ⟨rfl, rfl, rfl, rfl, rfl⟩⟩
  | startTraceW _ _ => exact .inl ⟨⟨rfl, rfl, rfl, rfl, rfl⟩, fun _ _ => trivial⟩
  | openExisting | openFile | miss _ => exact .inl ⟨hsame, fun _ _ => trivial⟩
  | giveUp c =>
    exact .inl ⟨hsame, fun _ _ =>
      ⟨fun id hid => absurd hid (retire_notMem_controlStop (.started c) id), nofun⟩⟩
  | mint origin data => exact .inr (.inl ⟨origin, data, rfl, rfl⟩)
  | insert origin id data => exact .inr (.inr (.inl ⟨origin, id, data, rfl, rfl, rfl⟩))
  | notOpened origin id _ =>
    refine .inl ⟨hsame, fun _ hk => ⟨fun id' hid => ?_, fun id' hid => .inr ?_⟩⟩
    · rcases List.mem_cons.mp hid with heq | hid
      · rw [Release.retire.inj heq]
        exact hk
      · exact absurd hid (retire_notMem_controlStop origin id')
    · rw [← Option.some.inj hid]
      exact List.mem_cons_self
  | openTraceW origin id _ _ => exact .inl ⟨⟨rfl, rfl, rfl, rfl, rfl⟩, fun _ hk => hk⟩
  | handOver tr => exact .inl ⟨hsame, fun _ hk => hk⟩
  | abandon c h id =>
    exact .inl ⟨hsame, fun _ hk =>
      knows_of_releases ⟨.started c, h, id⟩ hk (.inr (.inr (.inr rfl)))⟩
  | stop tr => exact .inl ⟨hsame, fun _ hk => knows_of_releases tr hk (.inl rfl)⟩
  | close tr => exact .inl ⟨hsame, fun _ hk => knows_of_releases tr hk (.inr (.inl rfl))⟩
  | drop tr => exact .inl ⟨hsame, fun _ hk => knows_of_releases tr hk (.inr (.inr (.inl rfl)))⟩
  | release context r todo done =>
    exact .inr (.inr (.inr (.inl ⟨context, r, todo, done, rfl, rfl, rfl⟩)))
  | hit hget => exact .inl ⟨hsame, fun hb _ => ((hb.get_iff _ _).mp hget).1⟩
  | dispatch id data => exact .inr (.inr (.inr (.inr ⟨id, data, rfl, rfl, rfl⟩)))

/-- A lookup that finds nothing dispatches nothing. -/
theorem eq_idle_of_lookup {id : ℕ} (hact : traceAct t u s pc (.lookup id) = some (s', pc'))
    (hget : s.contexts.get id = none) : pc' = .idle := by
  cases acts_of_traceAct hact with
  | miss _ => rfl
  | hit hsome =>
    rw [hget] at hsome
    cases hsome

/-- Ids are never taken back. -/
theorem few_of_traceAct {i : TraceStep D} (hact : traceAct t u s pc i = some (s', pc'))
    (hfew : s'.Few t) : s.Few t := by
  refine lt_of_le_of_lt ?_ hfew
  rcases traceAct_books hact with ⟨hsame, -⟩ | ⟨_, _, rfl, -⟩ | ⟨_, _, _, -, rfl, -⟩ |
    ⟨_, r, _, done, -, rfl, -⟩ | ⟨_, _, -, rfl, -⟩
  · rw [hsame.minted_eq]
  · show s.minted.length ≤ (s.minted ++ [u]).length
    rw [List.length_append]
    exact Nat.le_add_right _ _
  · exact le_refl _
  · rw [(releaseAct_frame s r done).1]
  · exact le_refl _

variable (t) in
/-- **The contexts keep their books.** -/
theorem system_stable : Stable (traceAct (T := T) (D := D) t) (fun s => s.Few t → Books t s)
    (fun u s pc => s.Few t → Knows u s pc) where
  own := by
    intro u s pc i s' pc' hact hI hA
    refine forall_and.mp fun hfew' => ?_
    have hfew := few_of_traceAct hact hfew'
    have hb := hI hfew
    have hk := hA hfew
    rcases traceAct_books hact with ⟨hsame, hknows⟩ | ⟨origin, data, rfl, rfl⟩ |
      ⟨origin, id, data, rfl, rfl, rfl⟩ | ⟨context, r, todo, done, rfl, rfl, rfl⟩ |
      ⟨id, data, rfl, rfl, rfl⟩
    · exact ⟨hb.congr hsame, hknows hb hk⟩
    · have hlen : (s.minted ++ [u]).length < usizeCount t := hfew'
      rw [List.length_append, List.length_singleton] at hlen
      obtain ⟨hid, hnew, hb'⟩ := hb.mint (u := u) hlen
      refine ⟨hb', ?_⟩
      rw [hid]
      refine ⟨Nat.le_add_left 1 _, ?_, hnew⟩
      show (s.minted ++ [u])[s.minted.length + 1 - 1]? = some u
      simp
    · obtain ⟨hge, howner, hnew⟩ := hk
      have hle := (List.getElem?_eq_some_iff.mp howner).1
      exact ⟨hb.insert hge (by omega) hnew data, data, List.mem_append_right _ List.mem_cons_self⟩
    · refine ⟨hb.release r (fun id hr => hk.1 id (hr ▸ List.mem_cons_self)) done, ?_, ?_⟩
      · intro id hid
        obtain ⟨data, hdata⟩ := hk.1 id (List.mem_cons_of_mem _ hid)
        exact ⟨data, (releaseAct_frame s r done).2.1 ▸ hdata⟩
      · intro id hid
        obtain ⟨-, -, hretired, hdone⟩ := releaseAct_frame s r done
        rcases hk.2 id hid with hold | hmem
        · exact .inl (hretired hold)
        · rcases List.mem_cons.mp hmem with heq | hmem
          · exact .inl (hdone id heq.symm)
          · exact .inr hmem
    · refine ⟨⟨hb.nextId_eq, hb.range, hb.unique, hb.get_iff, hb.retired, fun x hx => ?_⟩, trivial⟩
      rcases List.mem_append.mp hx with hx | hx
      · exact hb.dispatched x hx
      · cases List.mem_singleton.mp hx
        exact hk
  other := by
    intro u v s pc qc i s' pc' hact hI hA hv hB hfew'
    have hfew := few_of_traceAct hact hfew'
    have hk := hA hfew
    have hknows := hB hfew
    rcases traceAct_books hact with ⟨hsame, -⟩ | ⟨origin, data, rfl, rfl⟩ |
      ⟨origin, id, data, rfl, rfl, rfl⟩ | ⟨context, r, todo, done, rfl, rfl, rfl⟩ |
      ⟨id, data, rfl, rfl, rfl⟩
    · exact hknows.congr hsame
    · refine hknows.mono (List.prefix_append _ _) (fun _ h => h) (fun _ h => h) ?_
      rintro origin' id' data' rfl
      exact hknows.2.2
    · refine hknows.mono (List.prefix_refl _) (List.subset_append_left ..) (fun _ h => h) ?_
      -- the id being registered was minted by somebody else
      rintro origin' id' data' rfl ⟨d, hd⟩
      rcases List.mem_append.mp hd with hd | hd
      · exact hknows.2.2 ⟨d, hd⟩
      · cases List.mem_singleton.mp hd
        have howner := hk.2.1
        rw [hknows.2.1] at howner
        exact hv (Option.some.inj howner)
    · obtain ⟨hminted, hinserted, hretired, -⟩ := releaseAct_frame s r done
      refine hknows.mono (hminted ▸ List.prefix_refl _) (hinserted ▸ fun _ h => h) hretired ?_
      rintro origin' id' data' rfl ⟨d, hd⟩
      exact hknows.2.2 ⟨d, hinserted ▸ hd⟩
    · refine hknows.mono (List.prefix_refl _) (fun _ h => h) (fun _ h => h) ?_
      rintro origin' id' data' rfl
      exact hknows.2.2

variable [DecidableEq T] {c : Config T (TraceSystem T D) (TracePc D)} {is : List (T × TraceStep D)}

theorem books_run (hrun : run (traceAct t) systemStart is = some c) (hfew : c.shared.Few t) :
    Books t c.shared ∧ ∀ u, Knows u c.shared (c.pc u) := by
  have hstart : Books t (systemStart : Config T (TraceSystem T D) (TracePc D)).shared := by
    refine ⟨?_, nofun, nofun, fun id data => ?_, nofun, nofun⟩
    · have htwo : 1 < usizeCount t := by
        rw [usizeCount, Target.usizeMax]
        cases t.usizeBits <;> decide
      exact (Nat.mod_eq_of_lt htwo).symm
    · exact iff_of_false nofun fun h => absurd h.1 List.not_mem_nil
  have hholds := (system_stable t).run hrun ⟨fun _ => hstart, fun _ _ => trivial⟩
  exact ⟨hholds.1 hfew, fun u => hholds.2 u hfew⟩

/-- **Events are routed to the right trace, or nowhere.** In any interleaving of starts, opens,
releases and callbacks with whatever contexts, as long as fewer ids were minted than `usize` can
hold: callbacks were dispatched only into the data registered under their id, of which there is one;
the registry holds exactly the ids that were registered and not unregistered; a lookup of an
unregistered id dispatches nothing; and a start that failed, or a trace that was ended, leaves
nothing behind once its releases are done. -/
theorem contexts_routed (hrun : run (traceAct t) systemStart is = some c)
    (hfew : c.shared.Few t) :
    (∀ id data, (id, data) ∈ c.shared.dispatched → (id, data) ∈ c.shared.inserted) ∧
    (∀ u id data, c.pc u = .dispatching id data → (id, data) ∈ c.shared.inserted) ∧
    (∀ id data data', (id, data) ∈ c.shared.inserted → (id, data') ∈ c.shared.inserted →
      data = data') ∧
    (∀ id data, c.shared.contexts.get id = some data ↔
      (id, data) ∈ c.shared.inserted ∧ id ∉ c.shared.retired) ∧
    (∀ u id c', step (traceAct t) c u (.lookup id) = some c' → id ∈ c.shared.retired →
      c'.pc u = .idle) ∧
    ∀ u id, c.pc u = .ending (some id) [] → c.shared.contexts.get id = none := by
  obtain ⟨hb, hk⟩ := books_run hrun hfew
  have hmiss : ∀ id, id ∈ c.shared.retired → c.shared.contexts.get id = none := by
    intro id hid
    cases hget : c.shared.contexts.get id with
    | none => rfl
    | some data => exact absurd hid ((hb.get_iff id data).mp hget).2
  refine ⟨fun id data h => hb.dispatched _ h, fun u id data hpc => ?_, hb.unique, hb.get_iff,
    fun u id c' hstep hid => ?_, fun u id hpc => hmiss id ?_⟩
  · have hknows := hk u
    rwa [hpc] at hknows
  · exact eq_idle_of_lookup (step_inv hstep).1 (hmiss id hid)
  · have hknows := hk u
    rw [hpc] at hknows
    exact (hknows.2 id rfl).resolve_right List.not_mem_nil

/-- A trace is opened and closed. A callback with its context finds its data before that, and
nothing after. -/
def closedTrace : List (Bool × TraceStep ℕ) :=
  [(true, .openFile), (true, .mint 5), (true, .insert), (true, .openTraceW 3), (true, .handOver),
    (false, .lookup 1), (false, .dispatch), (true, .drop), (true, .release true)]

theorem contexts_routed_closedTrace :
    ∃ c c' : Config Bool (TraceSystem Bool ℕ) (TracePc ℕ),
      run (traceAct ⟨.b64, true⟩) systemStart closedTrace = some c ∧
      step (traceAct ⟨.b64, true⟩) c false (.lookup 1) = some c' ∧ c'.pc false = .idle := by
  have hrun : run (traceAct (T := Bool) ⟨.b64, true⟩) systemStart closedTrace = some _ := rfl
  refine ⟨_, _, rfl, rfl, ?_⟩
  have hfew : 1 < usizeCount ⟨.b64, true⟩ := by decide
  exact (contexts_routed hrun hfew).2.2.2.2.1 false 1 _ rfl List.mem_cons_self

end Ferrisetw2
