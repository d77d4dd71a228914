import Ferrisetw2.Lib.Locks
import Ferrisetw2.Trace.Mutations

/-!
# The order of locks

Events arrive on any number of threads, and user callbacks run under a lock of their provider. A
callback may itself enable and disable providers, list them, ask for schemas, and open and close
traces. All of that takes locks, and the crate has an order for them: callbacks, then the session
mutations, then the provider registries; those, the schema caches and the context registry are taken
last. `trace.rs`, `callback_data.rs`, `provider.rs`, `schema_locator.rs`, `evntrace.rs`.

A program here is what a thread does to the locks. Which way a call goes depends on what it finds,
so a call has many programs: those of a mutation are read off the steps of its model. What callbacks
capture is dropped without taking locks.

`Debug` does not keep to the order. Formatting a trace, or the data of its callbacks, takes the
callbacks of its providers under its registry. No thread does that here; one that does can be in a
deadlock with a callback that enables a provider.

## Main definitions

* `Lock`, `Lock.rank` — the locks, and their order
* `CallPath` — the ways a mutation can go
* `ApiCall`, `CallbackProgram`, `Thunk`, `ThreadProgram` — what calls, callbacks, thunks and threads
  do to the locks
* `formatting` — what `Debug` does to them

## Main results

* `nests_of_callPath`, `nests_of_thunk` — they keep to the order
* `locks_never_deadlock` — some thread can always go on, until all are done
* `formatting_deadlocks` — with `Debug`, none may be able to
-/

namespace Ferrisetw2

open Rust Interleaving Locks

variable {D P : Type}

/-- The locks of the crate. `D` stands for the traces, and `P` for the `Arc`s of providers. -/
inductive Lock (D P : Type) where
  /-- `Provider::callbacks`. -/
  | callbacks (provider : P)
  /-- `CallbackDataFromFile::callback`. -/
  | fileCallback (trace : D)
  /-- `session_mutations`. -/
  | sessionMutations (trace : D)
  /-- `RealTimeCallbackData::providers`. -/
  | providers (trace : D)
  /-- `SchemaLocator::schemas`. -/
  | schemas (trace : D)
  /-- `CONTEXT_REGISTRY`. -/
  | contexts
  deriving DecidableEq

/-- The order in which they are taken. -/
def Lock.rank : Lock D P → ℕ
  | .callbacks _ | .fileCallback _ => 0
  | .sessionMutations _ => 1
  | .providers _ | .schemas _ | .contexts => 2

/-! ### Mutations -/

/-- What a mutation of a trace does to the locks, where it is. -/
def CallPc.acts (d : D) : CallPc P → List (Act (Lock D P))
  | .enableLock _ | .disableLock _ => [.acquire (.sessionMutations d) .exclusive]
  | .enableAdd _ | .rollback _ _ | .disableRemove _ => taking (.providers d) .exclusive [.work]
  | .disableCheck _ => taking (.providers d) .shared [.work]
  | .enableCall _ | .disableCall _ | .capture _ => [.work]
  | .refusing _ _ | .enabling _ | .disabling _ _ => [.release (.sessionMutations d)]
  | .idle | .returned _ => []

/-- The ways a mutation can go from here on, whatever other threads and Windows do. -/
inductive CallPath [DecidableEq P] (prov : P → Provider) (h : ControlHandle) :
    CallPc P → List (CallPc P) → Prop where
  | returned (answer : MutationAnswer P) : CallPath prov h (.returned answer) []
  | step {T : Type} {t : T} {s s' : Session T P} {status : UInt32} {pc pc' : CallPc P}
      {pcs : List (CallPc P)} : callAct prov h t s status pc = some (s', pc') →
      CallPath prov h pc' pcs → CallPath prov h pc (pc :: pcs)

/-- The thread takes the lock next. -/
def CallPc.Locks : CallPc P → Prop
  | .enableLock _ | .disableLock _ => True
  | _ => False

/-- The thread gives the lock back next. -/
def CallPc.Unlocks : CallPc P → Prop
  | .refusing _ _ | .enabling _ | .disabling _ _ => True
  | _ => False

/-- **Where a step of a mutation leads**: into the section by its lock, and out of it where the lock
is given back. -/
theorem critical_of_callAct [DecidableEq P] {prov : P → Provider} {h : ControlHandle} {T : Type}
    {t : T} {s s' : Session T P} {status : UInt32} {pc pc' : CallPc P}
    (hact : callAct prov h t s status pc = some (s', pc')) :
    pc'.Critical ↔ pc.Locks ∨ pc.Critical ∧ ¬ pc.Unlocks := by
  cases pc with
  | idle | returned _ => cases hact
  | enableLock _ | disableLock _ =>
    rw [callAct] at hact
    split at hact
    · obtain ⟨-, rfl⟩ := Prod.mk.inj (Option.some.inj hact)
      simp [CallPc.Critical, CallPc.Locks]
    · cases hact
  | enableAdd _ | rollback _ _ | disableRemove _ =>
    obtain ⟨-, rfl⟩ := Prod.mk.inj (Option.some.inj hact)
    simp [CallPc.Critical, CallPc.Locks, CallPc.Unlocks]
  | refusing _ _ | disabling _ _ | capture _ =>
    obtain ⟨-, rfl⟩ := Prod.mk.inj (Option.some.inj hact)
    simp [CallPc.Critical, CallPc.Locks, CallPc.Unlocks]
  | enableCall _ | disableCall _ =>
    rw [callAct] at hact
    split at hact
    · obtain ⟨-, rfl⟩ := Prod.mk.inj (Option.some.inj hact)
      simp [CallPc.Critical, CallPc.Locks, CallPc.Unlocks]
    · obtain ⟨-, rfl⟩ := Prod.mk.inj (Option.some.inj hact)
      simp [CallPc.Critical, CallPc.Locks, CallPc.Unlocks]
  | enabling p =>
    obtain ⟨-, rfl⟩ := Prod.mk.inj (Option.some.inj hact)
    cases (prov p).captureState <;> simp [CallPc.Critical, CallPc.Locks, CallPc.Unlocks]
  | disableCheck g =>
    obtain ⟨-, rfl⟩ := Prod.mk.inj (Option.some.inj hact)
    split <;> simp [CallPc.Critical, CallPc.Locks, CallPc.Unlocks]

section

variable [DecidableEq D] [DecidableEq P] {d : D} {acts : List (Act (Lock D P))}

/-- The acts give back the lock of the mutations, and nest but for that. -/
def Closes (d : D) (acts : List (Act (Lock D P))) : Prop :=
  ∀ held rest, (∀ x ∈ held, x.1.rank < 1) → Ordered Lock.rank held rest →
    Ordered Lock.rank ((.sessionMutations d, .exclusive) :: held) (acts ++ rest)

theorem Closes.release (h : Nests Lock.rank 1 acts) :
    Closes d (.release (.sessionMutations d) :: acts) := by
  intro held rest hheld hrest
  have hkept : ((Lock.sessionMutations d, Mode.exclusive) :: held).filter
      (fun x => decide (x.1 ≠ .sessionMutations d)) = held := filter_held hheld .exclusive
  show Ordered Lock.rank (((Lock.sessionMutations d, Mode.exclusive) :: held).filter _) _
  rw [hkept]
  exact h held rest hheld hrest

theorem Closes.append {body : List (Act (Lock D P))} (hbody : Nests Lock.rank 2 body)
    (h : Closes d acts) : Closes d (body ++ acts) := by
  intro held rest hheld hrest
  rw [List.append_assoc]
  refine hbody _ _ ?_ (h held rest hheld hrest)
  intro x hx
  rcases List.mem_cons.mp hx with rfl | hx
  · exact Nat.lt_succ_self 1
  · exact Nat.lt_succ_of_lt (hheld x hx)

/-- The lock is taken, and given back. -/
theorem Closes.nests (h : Closes d acts) :
    Nests Lock.rank 1 (.acquire (.sessionMutations d) .exclusive :: acts) :=
  fun held rest hheld hrest => ⟨hheld, h held rest hheld hrest⟩

/-- Inside the section, only the registry of the providers is locked. -/
theorem nests_acts {pc : CallPc P} (hcritical : pc.Critical) (hlocked : ¬ pc.Unlocks) (d : D) :
    Nests Lock.rank 2 (pc.acts d) := by
  have hrank : 2 ≤ (Lock.providers d : Lock D P).rank := Nat.le_refl 2
  cases pc with
  | enableAdd _ | rollback _ _ | disableRemove _ | disableCheck _ => exact .taking hrank _ .work
  | enableCall _ | disableCall _ => exact .work
  | refusing _ _ | enabling _ | disabling _ _ => exact absurd trivial hlocked
  | idle | enableLock _ | capture _ | disableLock _ | returned _ => cases hcritical

/-- What is left of a mutation gives back the lock, if it is held. -/
theorem closes_of_callPath {prov : P → Provider} {h : ControlHandle} {pc : CallPc P}
    {pcs : List (CallPc P)} (hpath : CallPath prov h pc pcs) :
    (pc.Critical → Closes d (pcs.flatMap (·.acts d))) ∧
      (¬ pc.Critical → Nests Lock.rank 1 (pcs.flatMap (·.acts d))) := by
  induction hpath with
  | returned answer => exact ⟨fun hcritical => (by cases hcritical), fun _ => .nil⟩
  | @step _ _ _ _ _ pc pc' pcs hact _ ih =>
    have hnext := critical_of_callAct hact
    rw [List.flatMap_cons]
    constructor
    · intro hcritical
      by_cases hunlocks : pc.Unlocks
      · have hout : ¬ pc'.Critical := by
          rw [hnext]
          rintro (hlocks | ⟨-, hlocked⟩)
          · cases pc <;> simp_all [CallPc.Locks, CallPc.Critical]
          · exact hlocked hunlocks
        have hacts : pc.acts d = [.release (.sessionMutations d)] := by
          cases pc with
          | refusing _ _ | enabling _ | disabling _ _ => rfl
          | _ => cases hunlocks
        rw [hacts]
        exact .release (ih.2 hout)
      · have hinside := hnext.mpr (.inr ⟨hcritical, hunlocks⟩)
        exact .append (nests_acts hcritical hunlocks d) (ih.1 hinside)
    · intro hfree
      by_cases hlocks : pc.Locks
      · have hacts : pc.acts d = [.acquire (.sessionMutations d) .exclusive] := by
          cases pc with
          | enableLock _ | disableLock _ => rfl
          | _ => cases hlocks
        rw [hacts]
        exact (ih.1 (hnext.mpr (.inl hlocks))).nests
      · have hacts : Nests Lock.rank 1 (pc.acts d) := by
          cases pc with
          | idle | returned _ => exact .nil
          | capture _ => exact .work
          | enableLock _ | disableLock _ => exact absurd trivial hlocks
          | _ => exact absurd trivial hfree
        refine hacts.append (ih.2 fun hcritical => ?_)
        rcases hnext.mp hcritical with h | ⟨h, -⟩
        · exact hlocks h
        · exact hfree h

/-- **A mutation keeps to the order**, whichever way it goes. -/
theorem nests_of_callPath {prov : P → Provider} {h : ControlHandle} {pc : CallPc P}
    {pcs : List (CallPc P)} (hlocks : pc.Locks) (hpath : CallPath prov h pc pcs) :
    Nests Lock.rank 1 (pcs.flatMap (·.acts d)) := by
  refine (closes_of_callPath hpath).2 fun hcritical => ?_
  cases pc with
  | enableLock _ | disableLock _ => cases hcritical
  | _ => cases hlocks

/-! ### Calls, callbacks and threads -/

/-- What a call of the crate does to the locks. -/
inductive ApiCall (prov : P → Provider) : List (Act (Lock D P)) → Prop where
  /-- `enable_provider`, `disable_provider`. -/
  | mutation {h : ControlHandle} {pc : CallPc P} {pcs : List (CallPc P)} (d : D) :
    pc.Locks → CallPath prov h pc pcs → ApiCall prov (pcs.flatMap (·.acts d))
  /-- `UserTrace::providers`, `provider_flags`. -/
  | listing (d : D) : ApiCall prov (taking (.providers d) .shared [.work])
  /-- `TraceBuilder::enable`. -/
  | registering (d : D) : ApiCall prov (taking (.providers d) .exclusive [.work])
  /-- `request_capture_state`, for so many providers. -/
  | requestCaptureState (d : D) (n : ℕ) :
    ApiCall prov (taking (.providers d) .shared [.work] ++ List.replicate n .work)
  /-- `event_schema`. TDH is asked with the lock released, and the answer stored. -/
  | eventSchema (d : D) (hit : Bool) : ApiCall prov (taking (.schemas d) .exclusive [.work] ++
      if hit then [] else .work :: taking (.schemas d) .exclusive [.work])
  /-- `TraceContext::new`, `TraceContext::unregister`. -/
  | context : ApiCall prov (taking .contexts .exclusive [.work])
  /-- Anything else, but for `Debug` of what leads to a provider. -/
  | other : ApiCall prov [.work]

/-- What the callbacks of a provider do to the locks: they make calls. -/
def CallbackProgram (prov : P → Provider) (acts : List (Act (Lock D P))) : Prop :=
  ∃ calls : List (List (Act (Lock D P))),
    (∀ call ∈ calls, ApiCall prov call) ∧ acts = calls.flatten

/-- What `trace_callback_thunk` and `buffer_callback_thunk` do to the locks. -/
inductive Thunk (prov : P → Provider) : List (Act (Lock D P)) → Prop where
  /-- The context is not registered. -/
  | dropped : Thunk prov (taking .contexts .shared [.work])
  /-- `RealTimeCallbackData::on_event`, with the providers in the snapshot and what their callbacks
  do. -/
  | realTime (d : D) (snapshot : List (P × List (Act (Lock D P)))) :
    (∀ x ∈ snapshot, CallbackProgram prov x.2) →
    Thunk prov (taking .contexts .shared [.work] ++
      (.work :: taking (.providers d) .shared [.work] ++
        (snapshot.map fun x => taking (.callbacks x.1) .exclusive x.2).flatten))
  /-- `CallbackDataFromFile::on_event`. -/
  | fromFile (d : D) (body : List (Act (Lock D P))) : CallbackProgram prov body →
    Thunk prov (taking .contexts .shared [.work] ++
      .work :: taking (.fileCallback d) .exclusive body)
  /-- `on_buffer`. -/
  | buffer : Thunk prov (taking .contexts .shared [.work] ++ [.work])

/-- What a thread does to the locks: it is called back, or calls itself. -/
def ThreadProgram (prov : P → Provider) (acts : List (Act (Lock D P))) : Prop :=
  ∃ parts : List (List (Act (Lock D P))),
    (∀ part ∈ parts, Thunk prov part ∨ ApiCall prov part) ∧ acts = parts.flatten

variable {prov : P → Provider}

/-- A lock that is taken last, with nothing under it. -/
theorem nests_leaf {n : ℕ} {l : Lock D P} (hle : n ≤ l.rank) (mode : Mode) :
    Nests Lock.rank n (taking l mode [.work]) := .taking hle mode .work

theorem nests_of_apiCall (h : ApiCall prov acts) : Nests Lock.rank 1 acts := by
  have hproviders : ∀ d : D, 1 ≤ (Lock.providers d : Lock D P).rank := fun _ => Nat.le_succ 1
  have hschemas : ∀ d : D, 1 ≤ (Lock.schemas d : Lock D P).rank := fun _ => Nat.le_succ 1
  cases h with
  | mutation d hlocks hpath => exact nests_of_callPath hlocks hpath
  | listing d => exact nests_leaf (hproviders d) _
  | registering d => exact nests_leaf (hproviders d) _
  | requestCaptureState d n =>
    refine (nests_leaf (hproviders d) _).append ?_
    induction n with
    | zero => exact .nil
    | succ n ih => exact Nests.work.append ih
  | eventSchema d hit =>
    refine (nests_leaf (hschemas d) _).append ?_
    cases hit with
    | false => exact Nests.work.append (nests_leaf (hschemas d) _)
    | true => exact .nil
  | context => exact nests_leaf (Nat.le_succ 1) _
  | other => exact .work

theorem nests_of_callbackProgram (h : CallbackProgram prov acts) : Nests Lock.rank 1 acts := by
  obtain ⟨calls, hcalls, rfl⟩ := h
  exact .flatten fun call hcall => nests_of_apiCall (hcalls call hcall)

/-- **An event keeps to the order**, whatever the callbacks call. -/
theorem nests_of_thunk (h : Thunk prov acts) : Nests Lock.rank 0 acts := by
  have hcontexts : Nests (Lock.rank : Lock D P → ℕ) 0 (taking .contexts .shared [.work]) :=
    nests_leaf (Nat.zero_le _) _
  cases h with
  | dropped => exact hcontexts
  | realTime d snapshot hsnapshot =>
    refine hcontexts.append (Nests.work.append ((nests_leaf (Nat.zero_le _) _).append ?_))
    refine .flatten fun part hpart => ?_
    obtain ⟨x, hx, rfl⟩ := List.mem_map.mp hpart
    exact .taking (Nat.zero_le _) _ (nests_of_callbackProgram (hsnapshot x hx))
  | fromFile d body hbody =>
    exact hcontexts.append
      (Nests.work.append (.taking (Nat.zero_le _) _ (nests_of_callbackProgram hbody)))
  | buffer => exact hcontexts.append .work

theorem ordered_of_threadProgram (h : ThreadProgram prov acts) :
    Ordered Lock.rank [] acts := by
  obtain ⟨parts, hparts, rfl⟩ := h
  have hnests : Nests Lock.rank 0 parts.flatten := by
    refine .flatten fun part hpart => ?_
    rcases hparts part hpart with hthunk | hcall
    · exact nests_of_thunk hthunk
    · exact (nests_of_apiCall hcall).mono (Nat.zero_le 1)
  have hend : Ordered (Lock.rank : Lock D P → ℕ) [] [] := rfl
  have hall := hnests [] [] (fun x hx => (by cases hx)) hend
  rwa [List.append_nil] at hall

end

/-- **The threads never deadlock.** Any number of them take events and call the crate, and callbacks
call it from under their locks; none formats a trace or a provider. In every configuration a run can
reach, locks exclude each other as they should, and unless every thread is done, one is unblocked:
it waits for nothing, or for a lock that nobody holds. So the run leads on to where all are done and
all locks are free, in as many steps as there were acts. -/
theorem locks_never_deadlock {T D P : Type} [DecidableEq T] [Fintype T] [DecidableEq D]
    [DecidableEq P] (prov : P → Provider) (programs : T → List (Act (Lock D P)))
    (hprograms : ∀ t, ThreadProgram prov (programs t)) (is : List (T × Unit))
    (c : Config T (T → List (Lock D P × Mode)) (List (Act (Lock D P))))
    (hrun : run lockAct ⟨fun _ => [], programs⟩ is = some c) :
    Exclusive c.shared ∧ ((∃ t, c.pc t ≠ []) → ∃ t, Unblocked c.shared (c.pc t)) ∧
    ∃ js c', run lockAct c js = some c' ∧ (∀ t, c'.pc t = [] ∧ c'.shared t = []) ∧
      is.length + js.length = ∑ t, (programs t).length := by
  have hstart : AllHold Exclusive (fun t held program => Ordered Lock.rank (held t) program)
      ⟨fun _ => [], programs⟩ := by
    refine ⟨fun t u _ x hx => (by cases hx), fun t => ?_⟩
    exact ordered_of_threadProgram (hprograms t)
  have hreached := (stable_locks Lock.rank).run hrun hstart
  obtain ⟨js, c', hrest, hend⟩ := completes Lock.rank c hreached
  refine ⟨hreached.1, exists_unblocked hreached.2, js, c', hrest, hend, ?_⟩
  have hdone : remaining c' = 0 := Finset.sum_eq_zero fun t _ => by
    rw [(hend t).1]
    rfl
  have htotal : remaining ⟨fun _ => [], programs⟩ = ∑ t, (programs t).length := rfl
  have hall := length_run hrun
  have hleft := length_run hrest
  omega

/-- A callback enables a provider, which Windows refuses. -/
def refusedPath : List (CallPc ℕ) :=
  [.enableLock 1, .enableAdd 1, .enableCall 1, .rollback 1 (.ioError 5),
    .refusing 1 (.ioError 5)]

/-- An event for the provider whose callback that is. -/
def refusedEvent : List (Act (Lock Unit ℕ)) :=
  taking .contexts .shared [.work] ++ (.work :: taking (.providers ()) .shared [.work] ++
    ([(0, [refusedPath.flatMap (·.acts ())].flatten)].map fun x =>
      taking (.callbacks x.1) .exclusive x.2).flatten)

theorem thunk_refusedEvent : Thunk (fun _ => plainProvider) refusedEvent := by
  let prov : ℕ → Provider := fun _ => plainProvider
  let s := onePlainProvider.shared
  let e : EvntraceNativeError := .ioError 5
  have hlock : callAct prov 7 true s 0 (.enableLock 1) = some (_, .enableAdd 1) := rfl
  have hadd : callAct prov 7 true s 0 (.enableAdd 1) = some (_, .enableCall 1) := rfl
  have hcall : callAct prov 7 true s 5 (.enableCall 1) = some (_, .rollback 1 e) := rfl
  have hrollback : callAct prov 7 true s 0 (.rollback 1 e) = some (_, .refusing 1 e) := rfl
  have hrefusing : callAct prov 7 true s 0 (.refusing 1 e) = some (_, .returned (.refused 1 e)) :=
    rfl
  have hpath : CallPath prov 7 (.enableLock 1) refusedPath :=
    .step hlock (.step hadd (.step hcall (.step hrollback (.step hrefusing (.returned _)))))
  have hcallback : CallbackProgram prov [refusedPath.flatMap (·.acts ())].flatten := by
    refine ⟨_, fun call hmem => ?_, rfl⟩
    rw [List.mem_singleton.mp hmem]
    exact .mutation () (show CallPc.Locks (.enableLock 1 : CallPc ℕ) from trivial) hpath
  refine .realTime () [(0, _)] fun x hx => ?_
  rw [List.mem_singleton.mp hx]
  exact hcallback

/-- Two threads with such an event each. -/
theorem locks_never_deadlock_refused :
    ∃ js c', run lockAct ⟨fun _ : Bool => [], fun _ => [refusedEvent].flatten⟩ js = some c' ∧
      (∀ t, c'.pc t = [] ∧ c'.shared t = []) ∧ js.length = 2 * refusedEvent.length := by
  have hprograms : ∀ _ : Bool,
      ThreadProgram (fun _ => plainProvider) [refusedEvent].flatten := fun _ =>
    ⟨[refusedEvent], fun part hpart => .inl (List.mem_singleton.mp hpart ▸ thunk_refusedEvent), rfl⟩
  obtain ⟨-, -, js, c', hrun, hend, hlength⟩ :=
    locks_never_deadlock _ (fun _ => [refusedEvent].flatten) hprograms [] _ rfl
  exact ⟨js, c', hrun, hend, by simpa using hlength⟩

/-- `Debug` of a trace that gets the registry's lock, which it only tries: each of these providers
shows how many callbacks it has. -/
def formatting (d : D) (registered : List P) : List (Act (Lock D P)) :=
  taking (.providers d) .shared
    (registered.map fun p => taking (.callbacks p) .exclusive [.work]).flatten

/-- The callback has the lock of its provider when the trace is formatted: it waits for the
registry, and the other thread for that lock. -/
theorem formatting_deadlocks :
    ∃ js c, run lockAct ⟨fun _ => [], fun t : Bool => if t then refusedEvent else formatting () [0]⟩
        js = some c ∧ ∀ t, c.pc t ≠ [] ∧ ¬ Unblocked c.shared (c.pc t) := by
  refine ⟨List.replicate 9 (true, ()) ++ [(false, ())], _, rfl, fun t => ?_⟩
  cases t with
  | true =>
    refine ⟨List.cons_ne_nil _ _, fun hfree => ?_⟩
    exact hfree false _ List.mem_cons_self rfl
  | false =>
    refine ⟨List.cons_ne_nil _ _, fun hfree => ?_⟩
    exact hfree true _ (List.mem_cons_of_mem _ List.mem_cons_self) rfl

end Ferrisetw2
