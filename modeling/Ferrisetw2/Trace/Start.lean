import Ferrisetw2.Native.Evntrace
import Ferrisetw2.Trace.Lifetime

/-!
# Starting a trace

`start` makes one call after the other, and any of them can fail. Once `StartTraceW` has succeeded a
session is running, and a guard stops it on every way out but the last; once `OpenTraceW` has
succeeded too, the guard closes the consumer as well. `trace.rs`.

## Main definitions

* `TraceBuilder`, `TraceBuilder.start`
* `StartedSessionGuard.drop`
* `Ends` — the ways a start can end once its session is running
* `releases`, `opens` — the calls of a run that end something, or open a consumer
* `CleanedUp`, `HandedOver` — what a start leaves behind

## Main results

* `nonConsumingStop_run`, `drop_run_consumer` — releasing takes the steps of its release
* `start_cleans_up` — a start that fails ends what it has begun, once; one that succeeds ends
  nothing, and its trace owns it
-/

namespace Ferrisetw2

open Rust Calls

/-! ### Errors and names -/

/-- `TraceError`. -/
inductive TraceError where
  | invalidTraceName
  | etwNativeError (e : EvntraceNativeError)
  deriving DecidableEq, Repr

/-- `map_err(Into::into)`. -/
def intoTraceError {α : Type} : Except EvntraceNativeError α → Except TraceError α
  | .ok a => .ok a
  | .error e => .error (.etwNativeError e)

theorem intoTraceError_eq_ok_iff {α : Type} {x : Except EvntraceNativeError α} {a : α} :
    intoTraceError x = .ok a ↔ x = .ok a := by
  cases x with
  | error e => exact ⟨fun h => (by cases h), fun h => by cases h⟩
  | ok a' => exact ⟨fun h => congrArg _ (Except.ok.inj h), fun h => congrArg _ (Except.ok.inj h)⟩

/-- `U16CString::from_str`, up to the final NUL: a NUL is refused, unless it comes last. -/
def cStringFromStr (name : String) : Option (List UInt16) :=
  if 0 ∈ (encodeUtf16 name).dropLast then none else some (truncateAtNul (encodeUtf16 name))

/-- The name `start` gives to its session. -/
def traceWideName (name : String) : List UInt16 :=
  truncateAtNul ((truncateAtNul (encodeUtf16 name)).take traceNameMaxChars)

/-! ### The builder -/

/-- `TraceKind`. -/
inductive TraceKind where
  | user
  | kernel
  deriving DecidableEq, Repr

/-- `TraceBuilder`. The callback data goes with the providers registered on it. -/
structure TraceBuilder (D : Type) where
  kind : TraceKind
  name : String
  rtCallbackData : D
  providers : List Provider
  stopIfExist : Bool
  stackTracingEvents : List StackTracingEvent
  extendedKernelGroups : List ExtendedKernelGroup

/-- `provider_flags`. -/
def TraceBuilder.providerFlags {D : Type} (b : TraceBuilder D) : UInt32 :=
  match b.kind with
  | .user => 0
  | .kernel => b.providers.foldl (fun acc prov => acc ||| prov.kernelFlags) 0

/-- `kernel_filter_providers`. -/
def kernelFilterProviders (providers : List Provider) : List Provider :=
  providers.filter fun prov => !prov.filters.isEmpty

section Programs

variable {D : Type} (env : Env EtwCall EtwAnswer)

/-- `stop_trace_by_name`. -/
def stopTraceByName (name : String) : Etw D TraceError Unit :=
  match cStringFromStr name with
  | none => error .invalidTraceName
  | some wideName =>
    mapResult (fun r => match r with
      | .ok () => .ok ()
      -- a trace that is not running is not an error
      | .error status =>
        if status = errorWmiInstanceNotFound then .ok ()
        else .error (.etwNativeError (.ioError status)))
      (controlTraceByName env wideName eventTraceControlStop)

/-! ### Releasing a trace -/

/-- `non_consuming_stop`, of a trace that came to be in this way. -/
def nonConsumingStop (tr : Trace) : Etw D TraceError Unit :=
  let close := closeTrace env tr.traceHandle tr.context
  match tr.origin.control with
  | none => bind (mapResult intoTraceError close) fun _ => pure ()
  | some control =>
    bind (attempt close) fun closed =>
    bind (attempt (controlTrace env control eventTraceControlStop)) fun stopped =>
    match closed with
    | .error e => error (.etwNativeError e)
    | .ok _ => mapResult intoTraceError fun w => (stopped, w)

/-- `StartedSessionGuard`. -/
structure StartedSessionGuard where
  controlHandle : ControlHandle
  consumer : Option (TraceHandle × ℕ)
  handedOver : Bool

/-- `StartedSessionGuard::drop`. -/
def StartedSessionGuard.drop (guard : StartedSessionGuard) : Etw D Empty Unit :=
  if guard.handedOver then pure ()
  else
    bind (match guard.consumer with
      | none => pure ()
      | some (traceHandle, context) =>
        bind (attempt (closeTrace env traceHandle context)) fun _ => dropContext context) fun _ =>
      bind (attempt (controlTrace env guard.controlHandle eventTraceControlStop)) fun _ => pure ()

/-! ### Start -/

/-- The calls between `StartTraceW` and `OpenTraceW`. -/
def TraceBuilder.configure (winEightOrGreater : Bool) (b : TraceBuilder D)
    (controlHandle : ControlHandle) : Etw D EvntraceNativeError Unit :=
  match b.kind with
  | .kernel =>
    bind (enableStackTracing env controlHandle b.stackTracingEvents) fun _ =>
    bind (setExtendedKernelGroups env controlHandle b.extendedKernelGroups) fun _ =>
    let filteredProviders := kernelFilterProviders b.providers
    if !filteredProviders.isEmpty && !winEightOrGreater then
      error (.invalidFilter "kernel providers cannot carry event filters before Windows 8")
    else forEach (enableProvider env controlHandle) filteredProviders
  | .user => forEach (enableProvider env controlHandle) b.providers

/-- The rundown requests, after `OpenTraceW`. -/
def TraceBuilder.requestStates (b : TraceBuilder D) (controlHandle : ControlHandle) :
    Etw D EvntraceNativeError Unit :=
  match b.kind with
  | .kernel => pure ()
  | .user =>
    forEach (fun prov => if prov.captureState then captureProviderState env controlHandle prov
      else pure ()) b.providers

/-- `start`, from the moment a session is running. The guard is dropped on every way out. -/
def TraceBuilder.afterStart (t : Target) (winEightOrGreater : Bool) (b : TraceBuilder D)
    (controlHandle : ControlHandle) : Etw D EvntraceNativeError (Trace × TraceHandle) :=
  let started : StartedSessionGuard := ⟨controlHandle, none, false⟩
  bind (onError (b.configure env winEightOrGreater controlHandle) (started.drop env)) fun _ =>
  bind (onError (openTrace env t (traceWideName b.name) b.rtCallbackData) (started.drop env))
    fun consumer =>
  let started := { started with consumer := some consumer }
  bind (onError (b.requestStates env controlHandle) (started.drop env)) fun _ =>
  -- `hand_over`
  let started := { started with consumer := none, handedOver := true }
  bind (attempt (started.drop env)) fun _ =>
  pure (⟨.started controlHandle, consumer.1, consumer.2⟩, consumer.1)

/-- `start`. -/
def TraceBuilder.start (t : Target) (winEightOrGreater : Bool) (b : TraceBuilder D) :
    Etw D TraceError (Trace × TraceHandle) :=
  bind (if b.stopIfExist then stopTraceByName env b.name else pure ()) fun _ =>
  mapResult intoTraceError <|
  bind (startTrace env (traceWideName b.name) b.providerFlags) fun controlHandle =>
  b.afterStart env t winEightOrGreater controlHandle

end Programs

/-! ### Neutral calls -/

/-- The call starts nothing and ends nothing. -/
def EtwCall.Neutral : EtwCall → Prop
  | .startTraceW _ _ | .openTraceW _ _ | .closeTrace _ => False
  | .controlTraceW _ _ | .controlTraceByName _ _ => False
  | .enableTraceEx2 .. | .traceSetInformation .. | .traceQueryInformation .. => True

variable {D : Type} {env : Env EtwCall EtwAnswer} {b : TraceBuilder D} {control : ControlHandle}

theorem within_request {P : EtwCall → Prop} {c : Except EvntraceNativeError EtwCall}
    (hc : ∀ q, c = .ok q → P q) : Within P (request env c : Etw D EvntraceNativeError Unit) := by
  cases c with
  | error e => exact Within.error e
  | ok q =>
    refine Within.bind (Within.call env (hc q rfl)) fun answer => ?_
    split
    · exact Within.error _
    · exact Within.pure ()

theorem within_enableProvider (prov : Provider) :
    Within EtwCall.Neutral (enableProvider env control prov : Etw D _ _) := by
  refine within_request fun q hq => ?_
  rw [enableProviderCall] at hq
  split at hq
  · cases hq
  · obtain ⟨descriptors, -, hok⟩ := bind_eq_ok_iff.mp hq
    cases hok
    exact trivial

theorem within_captureProviderState (prov : Provider) :
    Within EtwCall.Neutral (captureProviderState env control prov : Etw D _ _) := by
  refine within_request fun q hq => ?_
  rw [captureProviderStateCall] at hq
  split at hq
  · cases hq
  · cases hq
    exact trivial

theorem within_setInfo (cls : TraceInformation) (buf : List UInt8) :
    Within EtwCall.Neutral (setInfo env control cls buf : Etw D _ _) := by
  refine within_request fun q hq => ?_
  rw [setInfoCall] at hq
  split at hq
  · cases hq
  · cases hq
    exact trivial

theorem within_enableStackTracing (events : List StackTracingEvent) :
    Within EtwCall.Neutral (enableStackTracing env control events : Etw D _ _) := by
  rw [enableStackTracing]
  split
  · exact Within.pure ()
  · exact within_setInfo _ _

theorem within_setExtendedKernelGroups (groups : List ExtendedKernelGroup) :
    Within EtwCall.Neutral (setExtendedKernelGroups env control groups : Etw D _ _) := by
  rw [setExtendedKernelGroups]
  split
  · exact Within.pure ()
  · refine Within.bind (Within.call env trivial) fun answer => ?_
    split
    · exact Within.error _
    · exact within_setInfo _ _

/-- Configuring a session starts and ends nothing. -/
theorem within_configure (env : Env EtwCall EtwAnswer) (b : TraceBuilder D)
    (control : ControlHandle) (winEightOrGreater : Bool) :
    Within EtwCall.Neutral (b.configure env winEightOrGreater control) := by
  rw [TraceBuilder.configure]
  split
  · refine Within.bind (within_enableStackTracing _) fun _ => ?_
    refine Within.bind (within_setExtendedKernelGroups _) fun _ => ?_
    dsimp only
    split
    · exact Within.error _
    · exact Within.forEach within_enableProvider _
  · exact Within.forEach within_enableProvider _

theorem within_requestStates (env : Env EtwCall EtwAnswer) (b : TraceBuilder D)
    (control : ControlHandle) : Within EtwCall.Neutral (b.requestStates env control) := by
  rw [TraceBuilder.requestStates]
  split
  · exact Within.pure ()
  · refine Within.forEach (fun prov => ?_) _
    split
    · exact within_captureProviderState prov
    · exact Within.pure ()

theorem within_stopTraceByName (env : Env EtwCall EtwAnswer) (name : String) :
    Within (fun q => ∃ wideName, cStringFromStr name = some wideName ∧
        q = .controlTraceByName wideName eventTraceControlStop)
      (stopTraceByName env name : Etw D _ _) := by
  rw [stopTraceByName]
  split
  · exact Within.error _
  · rename_i wideName hwide
    refine Within.mapResult (Within.bind (Within.call env ⟨wideName, hwide, rfl⟩) fun answer => ?_)
    split
    · exact Within.pure ()
    · exact Within.error _

/-! ### Releases, as calls -/

/-- The call that stops a session. -/
def stopCall (control : ControlHandle) : EtwCall := .controlTraceW control eventTraceControlStop

variable {w : World EtwCall EtwAnswer (ContextRegistry D)}

/-- The world after a call. -/
def World.called (w : World EtwCall EtwAnswer (ContextRegistry D)) (env : Env EtwCall EtwAnswer)
    (q : EtwCall) : World EtwCall EtwAnswer (ContextRegistry D) :=
  { w with calls := w.calls ++ [(q, env w.calls q)] }

/-- The world after a context is retired. -/
def World.retired (w : World EtwCall EtwAnswer (ContextRegistry D)) (id : ℕ) :
    World EtwCall EtwAnswer (ContextRegistry D) :=
  { w with state := w.state.unregister id }

/-- The world after one step of a release. -/
def World.released (env : Env EtwCall EtwAnswer) (w : World EtwCall EtwAnswer (ContextRegistry D)) :
    Release → World EtwCall EtwAnswer (ContextRegistry D)
  | .retire id => World.retired w id
  | .closeTrace h => World.called w env (.closeTrace h)
  | .stop control => World.called w env (stopCall control)

theorem World.called_calls (q : EtwCall) :
    (World.called w env q).calls = w.calls ++ [(q, env w.calls q)] := rfl

theorem World.retired_calls (id : ℕ) : (World.retired w id).calls = w.calls := rfl

theorem controlTrace_run (control : ControlHandle) :
    (controlTrace env control eventTraceControlStop w).2 =
      (controlStop control).foldl (World.released env) w := by
  rw [controlTrace, controlTraceCall, controlStop]
  cases filterInvalidControlHandle control with
  | none => rfl
  | some handle =>
    show (Calls.bind (call env (stopCall handle)) _ w).2 = World.called w env (stopCall handle)
    rw [bind_call]
    cases win32Result (env w.calls (stopCall handle)).status <;> rfl

theorem closeTrace_run (tr : Trace) :
    (closeTrace env tr.traceHandle tr.context w).2 =
      tr.closeTrace.foldl (World.released env) w := by
  rw [closeTrace, Trace.closeTrace]
  cases filterInvalidTraceHandles tr.traceHandle with
  | none => rfl
  | some handle =>
    show (Calls.bind (modify fun contexts => ((), contexts.unregister tr.context)) _ w).2 = _
    rw [bind_modify, bind_call]
    split
    · rfl
    · split <;> rfl

/-- Releasing a trace takes the steps of its release, whatever fails. -/
theorem nonConsumingStop_run (tr : Trace) :
    (nonConsumingStop env tr w).2 = tr.nonConsumingStop.foldl (World.released env) w := by
  rw [nonConsumingStop, Trace.nonConsumingStop, Origin.controlStop, List.foldl_append,
    ← closeTrace_run]
  cases tr.origin.control with
  | none =>
    rcases hclose : closeTrace env tr.traceHandle tr.context w with ⟨e | closed, w'⟩
    · exact congrArg Prod.snd (bind_of_error (by rw [mapResult, hclose]; rfl))
    · exact congrArg Prod.snd (bind_of_ok (by rw [mapResult, hclose]; rfl))
  | some control =>
    show (Calls.bind (attempt (closeTrace env tr.traceHandle tr.context)) _ w).2 = _
    rw [bind_attempt, bind_attempt, ← controlTrace_run]
    cases (closeTrace env tr.traceHandle tr.context w).1 <;> rfl

/-- Before there is a consumer, the guard stops the session. -/
theorem drop_run (control : ControlHandle) :
    (StartedSessionGuard.drop env ⟨control, none, false⟩ w).2 =
      (controlStop control).foldl (World.released env) w := by
  rw [StartedSessionGuard.drop, if_neg Bool.false_ne_true, ← controlTrace_run]
  rfl

/-- Then it abandons the trace that did not come to be. -/
theorem drop_run_consumer (control : ControlHandle) (handle : TraceHandle) (id : ℕ) :
    (StartedSessionGuard.drop env ⟨control, some (handle, id), false⟩ w).2 =
      (Trace.abandon ⟨.started control, handle, id⟩).foldl (World.released env) w := by
  rw [StartedSessionGuard.drop, if_neg Bool.false_ne_true, Trace.abandon, List.foldl_append,
    ← closeTrace_run, List.foldl_cons, Origin.controlStop]
  exact controlTrace_run control

/-! ### What a start goes through -/

section OpenTrace

variable {t : Target} {name : List UInt16} {data : D} {id : ℕ} {contexts : ContextRegistry D}

/-- A consumer that does not open takes its context with it. -/
theorem openTrace_run_of_none (hnew : w.state.new t data = (id, contexts))
    (hopen : filterInvalidTraceHandles (env w.calls (.openTraceW id name)).handle = none) :
    openTrace env t name data w =
      (.error (.ioError (env w.calls (.openTraceW id name)).status),
        World.retired
          (World.called { w with state := contexts } env (.openTraceW id name)) id) := by
  rw [openTrace, bind_modify, hnew, bind_call, hopen]
  rfl

/-- A consumer that opens leaves its context registered. -/
theorem openTrace_run_of_some {h : TraceHandle} (hnew : w.state.new t data = (id, contexts))
    (hopen : filterInvalidTraceHandles (env w.calls (.openTraceW id name)).handle = some h) :
    openTrace env t name data w =
      (.ok ((env w.calls (.openTraceW id name)).handle, id),
        World.called { w with state := contexts } env (.openTraceW id name)) := by
  rw [openTrace, bind_modify, hnew, bind_call, hopen]
  rfl

end OpenTrace

/-- How a start ends, once its session is running. `before` is the registry then. -/
inductive Ends (t : Target) (b : TraceBuilder D) (control : ControlHandle)
    (before after : ContextRegistry D) :
    Except EvntraceNativeError (Trace × TraceHandle) → List (EtwCall × EtwAnswer) → Prop where
  /-- The session could not be configured. -/
  | unconfigured {e l a} : (∀ x ∈ l, x.1.Neutral) → after = before →
    Ends t b control before after (.error e) (l ++ [(stopCall control, a)])
  /-- The consumer could not be opened. -/
  | unopened {e l name id data a a'} : (∀ x ∈ l, x.1.Neutral) → before.new t b.rtCallbackData =
      (id, data) → filterInvalidTraceHandles a.handle = none → after = data.unregister id →
    Ends t b control before after (.error e)
      (l ++ [(.openTraceW id name, a), (stopCall control, a')])
  /-- A rundown request was refused. -/
  | refused {e l name id data a l' a₁ a₂} : (∀ x ∈ l, x.1.Neutral) → before.new t b.rtCallbackData =
      (id, data) → filterInvalidTraceHandles a.handle = some a.handle → (∀ x ∈ l', x.1.Neutral) →
      after = data.unregister id →
    Ends t b control before after (.error e)
      (l ++ (.openTraceW id name, a) :: l' ++ [(.closeTrace a.handle, a₁), (stopCall control, a₂)])
  /-- The trace was built. -/
  | built {l name id data a l'} : (∀ x ∈ l, x.1.Neutral) → before.new t b.rtCallbackData =
      (id, data) → filterInvalidTraceHandles a.handle = some a.handle → (∀ x ∈ l', x.1.Neutral) →
      after = data →
    Ends t b control before after (.ok (⟨.started control, a.handle, id⟩, a.handle))
      (l ++ (.openTraceW id name, a) :: l')

/-- Every way a start can go on ends in one of these. -/
theorem ends_afterStart (env : Env EtwCall EtwAnswer) (hcontrol : control ≠ 0) (t : Target)
    (winEightOrGreater : Bool) :
    ∃ new, (b.afterStart env t winEightOrGreater control w).2.calls = w.calls ++ new ∧
      Ends t b control w.state (b.afterStart env t winEightOrGreater control w).2.state
        (b.afterStart env t winEightOrGreater control w).1 new := by
  rw [TraceBuilder.afterStart]
  obtain ⟨hstate, l, hl, hneutral⟩ := within_configure env b control winEightOrGreater w
  rcases hconf : b.configure env winEightOrGreater control w with ⟨e | _, calls₁, state₁⟩
  all_goals
    rw [hconf] at hstate hl
    obtain rfl : calls₁ = w.calls ++ l := hl
    obtain rfl : state₁ = w.state := hstate
  · rw [bind_onError_of_error _ hconf, drop_run, controlStop_of_ne_zero hcontrol]
    exact ⟨_, List.append_assoc .., .unconfigured hneutral rfl⟩
  rw [bind_onError_of_ok _ hconf]
  rcases hnew : w.state.new t b.rtCallbackData with ⟨id, contexts⟩
  rcases hopen : filterInvalidTraceHandles
    (env (w.calls ++ l) (.openTraceW id (traceWideName b.name))).handle with _ | h
  · rw [bind_onError_of_error _ (openTrace_run_of_none (w := ⟨w.calls ++ l, w.state⟩) hnew hopen),
      drop_run, controlStop_of_ne_zero hcontrol]
    refine ⟨?_, ?calls, ?ends⟩
    case calls =>
      show (World.called (World.retired (World.called _ env _) id) env _).calls = _
      rw [World.called_calls, World.retired_calls, World.called_calls, List.append_assoc,
        List.append_assoc, List.singleton_append]
    case ends => exact .unopened hneutral hnew hopen rfl
  obtain rfl := filterInvalidTraceHandles_eq hopen
  rw [bind_onError_of_ok _ (openTrace_run_of_some (w := ⟨w.calls ++ l, w.state⟩) hnew hopen)]
  dsimp only
  obtain ⟨hstate₂, l', hl', hneutral'⟩ := within_requestStates env b control
    (World.called ⟨w.calls ++ l, contexts⟩ env
      (.openTraceW id (traceWideName b.name)))
  rw [World.called_calls, List.append_assoc, List.append_assoc, List.singleton_append] at hl'
  rcases hreq : b.requestStates env control (World.called ⟨w.calls ++ l, contexts⟩ env
    (.openTraceW id (traceWideName b.name))) with ⟨e | _, calls₂, state₂⟩
  all_goals
    rw [hreq] at hstate₂ hl'
    obtain rfl : calls₂ = _ := hl'
    obtain rfl : state₂ = contexts := hstate₂
  · rw [bind_onError_of_error _ hreq, drop_run_consumer, Trace.abandon, Trace.closeTrace, hopen,
      Origin.controlStop]
    dsimp only [Origin.control]
    rw [controlStop_of_ne_zero hcontrol]
    refine ⟨?_, ?calls, ?ends⟩
    case calls =>
      show (World.called (World.retired (World.called (World.retired _ id) env _) id)
        env _).calls = _
      rw [World.called_calls, World.retired_calls, World.called_calls, World.retired_calls,
        List.append_assoc, List.append_assoc, List.singleton_append]
    case ends =>
      exact .refused hneutral hnew hopen hneutral' (ContextRegistry.unregister_unregister id)
  · rw [bind_onError_of_ok _ hreq]
    exact ⟨_, rfl, .built hneutral hnew hopen hneutral' rfl⟩

/-! ### What is left of a start -/

/-- The call ends a consumer or a session. -/
def EtwCall.isRelease : EtwCall → Bool
  | .closeTrace _ => true
  | .controlTraceW _ code | .controlTraceByName _ code => code = eventTraceControlStop
  | _ => false

/-- The calls that end something, in order. -/
def releases (calls : List (EtwCall × EtwAnswer)) : List EtwCall :=
  (calls.map Prod.fst).filter EtwCall.isRelease

/-- `StartTraceW` was called, and succeeded. -/
def Starts (x : EtwCall × EtwAnswer) : Prop :=
  (∃ name flags, x.1 = .startTraceW name flags) ∧ x.2.status = errorSuccess

/-- A session was started with this handle, and these calls were made since. Before that, a session
of this name was stopped, if the builder asked for it. -/
def StartedWith (b : TraceBuilder D) (calls : List (EtwCall × EtwAnswer)) (control : ControlHandle)
    (since : List (EtwCall × EtwAnswer)) : Prop :=
  ∃ earlier x, calls = earlier ++ x :: since ∧ Starts x ∧ x.2.handle = control ∧
    (∀ y ∈ earlier, b.stopIfExist ∧ ∃ wideName, cStringFromStr b.name = some wideName ∧
      y.1 = .controlTraceByName wideName eventTraceControlStop) ∧
    ∀ y ∈ since, ¬ Starts y

/-- The contexts that `OpenTraceW` was called with, and the handles it returned. -/
def opens (calls : List (EtwCall × EtwAnswer)) : List (ℕ × TraceHandle) :=
  calls.filterMap fun x => match x.1 with
    | .openTraceW id _ => some (id, x.2.handle)
    | _ => none

/-- `OpenTraceW` succeeded with this context, and returned this handle. -/
def OpenedWith (calls : List (EtwCall × EtwAnswer)) (h : TraceHandle) (id : ℕ) : Prop :=
  (id, h) ∈ opens calls ∧ (filterInvalidTraceHandles h).isSome

/-- A started session was stopped, once, and what was opened on it closed, once. No context
stays. -/
structure CleanedUp (control : ControlHandle) (since : List (EtwCall × EtwAnswer))
    (before after : ContextRegistry D) : Prop where
  closed : ∀ h id, OpenedWith since h id → releases since = [.closeTrace h, stopCall control]
  notOpened : (¬ ∃ h id, OpenedWith since h id) → releases since = [stopCall control]
  retired : ∀ x ∈ opens since, after.get x.1 = none
  noneElse : ∀ id data, after.get id = some data → before.get id = some data

/-- A started session was not stopped, and the trace has it, and has what was opened on it. -/
structure HandedOver (b : TraceBuilder D) (control : ControlHandle)
    (since : List (EtwCall × EtwAnswer)) (after : ContextRegistry D) (tr : Trace)
    (h : TraceHandle) : Prop where
  released : releases since = []
  origin_eq : tr.origin = .started control
  traceHandle_eq : tr.traceHandle = h
  opened : OpenedWith since h tr.context
  registered : after.get tr.context = some b.rtCallbackData

theorem EtwCall.Neutral.isRelease_eq {q : EtwCall} (h : q.Neutral) : q.isRelease = false := by
  cases q <;> first | exact h.elim | rfl

theorem EtwCall.Neutral.not_starts {x : EtwCall × EtwAnswer} (h : x.1.Neutral) : ¬ Starts x := by
  rintro ⟨⟨name, flags, hx⟩, -⟩
  rw [hx] at h
  exact h

theorem releases_append (l l' : List (EtwCall × EtwAnswer)) :
    releases (l ++ l') = releases l ++ releases l' := by
  rw [releases, List.map_append, List.filter_append]
  rfl

theorem opens_append (l l' : List (EtwCall × EtwAnswer)) :
    opens (l ++ l') = opens l ++ opens l' := List.filterMap_append

section Neutral

variable {l : List (EtwCall × EtwAnswer)}

theorem releases_of_neutral (h : ∀ x ∈ l, x.1.Neutral) : releases l = [] := by
  refine List.filter_eq_nil_iff.mpr fun q hq => ?_
  obtain ⟨x, hx, rfl⟩ := List.mem_map.mp hq
  rw [(h x hx).isRelease_eq]
  exact Bool.false_ne_true

theorem opens_of_neutral (h : ∀ x ∈ l, x.1.Neutral) : opens l = [] := by
  refine List.filterMap_eq_nil_iff.mpr fun x hx => ?_
  have hx := h x hx
  split
  · rename_i heq
    rw [heq] at hx
    exact hx.elim
  · rfl

end Neutral

/-! ### The endings -/

variable {t : Target} {before after : ContextRegistry D} {since : List (EtwCall × EtwAnswer)}
  {r : Except EvntraceNativeError (Trace × TraceHandle)}

/-- Nothing else is started on the way. -/
theorem Ends.not_starts (h : Ends t b control before after r since) : ∀ y ∈ since, ¬ Starts y := by
  have hother : ∀ {q : EtwCall} {a : EtwAnswer}, (∀ name flags, q ≠ .startTraceW name flags) →
      ¬ Starts (q, a) := fun hq ⟨⟨name, flags, hx⟩, _⟩ => hq name flags hx
  intro y hy
  cases h with
  | unconfigured hl _ =>
    rcases List.mem_append.mp hy with hy | hy
    · exact (hl y hy).not_starts
    · rw [List.mem_singleton.mp hy]
      exact hother nofun
  | unopened hl _ _ _ =>
    simp only [List.mem_append, List.mem_cons, List.not_mem_nil, or_false] at hy
    rcases hy with hy | rfl | rfl
    · exact (hl y hy).not_starts
    · exact hother nofun
    · exact hother nofun
  | refused hl _ _ hl' _ =>
    simp only [List.mem_append, List.mem_cons, List.not_mem_nil, or_false] at hy
    rcases hy with (hy | rfl | hy) | rfl | rfl
    · exact (hl y hy).not_starts
    · exact hother nofun
    · exact (hl' y hy).not_starts
    · exact hother nofun
    · exact hother nofun
  | built hl _ _ hl' _ =>
    simp only [List.mem_append, List.mem_cons] at hy
    rcases hy with hy | rfl | hy
    · exact (hl y hy).not_starts
    · exact hother nofun
    · exact (hl' y hy).not_starts

/-- What is registered for a consumer and retired is gone, and nothing else changes. -/
theorem get_of_retired {id : ℕ} {data : D} {contexts : ContextRegistry D}
    (hnew : before.new t data = (id, contexts)) (hafter : after = contexts.unregister id) :
    after.get id = none ∧ ∀ id' d, after.get id' = some d → before.get id' = some d := by
  have hget := before.get_unregister_new t data
  rw [hnew, ← hafter] at hget
  refine ⟨(hget id).trans (if_pos rfl), fun id' d hd => ?_⟩
  rw [hget] at hd
  split at hd
  · cases hd
  · exact hd

/-- What was opened, if anything was, did not succeed. -/
theorem CleanedUp.of_stopped (hreleases : releases since = [stopCall control])
    (hopens : ∀ x ∈ opens since, filterInvalidTraceHandles x.2 = none ∧ after.get x.1 = none)
    (hkept : ∀ id data, after.get id = some data → before.get id = some data) :
    CleanedUp control since before after where
  closed h id hopened := by
    obtain ⟨hmem, hvalid⟩ := hopened
    rw [(hopens _ hmem).1] at hvalid
    cases hvalid
  notOpened _ := hreleases
  retired x hx := (hopens x hx).2
  noneElse := hkept

/-- One consumer was opened, and closed. -/
theorem CleanedUp.of_closed {h : TraceHandle} {id : ℕ} (hopens : opens since = [(id, h)])
    (hvalid : filterInvalidTraceHandles h = some h)
    (hreleases : releases since = [.closeTrace h, stopCall control]) (hgone : after.get id = none)
    (hkept : ∀ id data, after.get id = some data → before.get id = some data) :
    CleanedUp control since before after where
  closed h' id' hopened := by
    rw [OpenedWith, hopens, List.mem_singleton, Prod.mk.injEq] at hopened
    rw [hreleases, hopened.1.2]
  notOpened hnone := by
    refine absurd ⟨h, id, ?_, ?_⟩ hnone
    · rw [hopens]
      exact List.mem_singleton_self _
    · rw [hvalid, Option.isSome_some]
  retired x hx := by
    rw [hopens, List.mem_singleton] at hx
    rw [hx]
    exact hgone
  noneElse := hkept

/-- A start that fails cleans up. -/
theorem Ends.cleanedUp {e : EvntraceNativeError}
    (h : Ends t b control before after (.error e) since) :
    CleanedUp control since before after := by
  cases h with
  | @unconfigured _ l a hl hafter =>
    have hopens : opens (l ++ [(stopCall control, a)]) = [] := by
      rw [opens_append, opens_of_neutral hl]
      rfl
    refine .of_stopped ?_ (fun x hx => ?_) fun id data hdata => ?_
    · rw [releases_append, releases_of_neutral hl]
      rfl
    · rw [hopens] at hx
      exact absurd hx List.not_mem_nil
    · rwa [hafter] at hdata
  | @unopened _ l name id contexts a a' hl hnew hopen hafter =>
    have hopens : opens (l ++ [(.openTraceW id name, a), (stopCall control, a')]) =
        [(id, a.handle)] := by
      rw [opens_append, opens_of_neutral hl]
      rfl
    obtain ⟨hgone, hkept⟩ := get_of_retired hnew hafter
    refine .of_stopped ?_ (fun x hx => ?_) hkept
    · rw [releases_append, releases_of_neutral hl]
      rfl
    · rw [hopens, List.mem_singleton] at hx
      rw [hx]
      exact ⟨hopen, hgone⟩
  | @refused _ l name id contexts a l' a₁ a₂ hl hnew hopen hl' hafter =>
    obtain ⟨hgone, hkept⟩ := get_of_retired hnew hafter
    refine .of_closed ?_ hopen ?_ hgone hkept
    · rw [opens_append, opens_append, opens_of_neutral hl]
      show (id, a.handle) :: opens l' ++ _ = _
      rw [opens_of_neutral hl']
      rfl
    · rw [releases_append, releases_append, releases_of_neutral hl]
      show releases l' ++ _ = _
      rw [releases_of_neutral hl']
      rfl

/-- A start that succeeds hands over. -/
theorem Ends.handedOver {tr : Trace} {h : TraceHandle}
    (hends : Ends t b control before after (.ok (tr, h)) since) :
    HandedOver b control since after tr h := by
  cases hends with
  | @built l name id contexts a l' hl hnew hopen hl' hafter =>
    have hget := before.get_new t b.rtCallbackData id
    rw [hnew, if_pos rfl, ← hafter] at hget
    refine ⟨?_, rfl, rfl, ⟨?_, ?_⟩, hget⟩
    · rw [releases_append, releases_of_neutral hl]
      show releases l' = _
      rw [releases_of_neutral hl']
    · rw [opens_append]
      exact List.mem_append_right _ List.mem_cons_self
    · rw [hopen]
      rfl

/-- A successful `StartTraceW` returns a handle, and not zero. -/
def StartsNonzero (env : Env EtwCall EtwAnswer) : Prop :=
  ∀ calls name flags, (env calls (.startTraceW name flags)).status = errorSuccess →
    (env calls (.startTraceW name flags)).handle ≠ 0

theorem startTrace_run {name sent : List UInt16} {flags : UInt32} {a : EtwAnswer}
    (hsent : truncateAtNul (wideTraceName name) = sent)
    (ha : env w.calls (.startTraceW sent flags) = a) :
    (a.status = errorSuccess → a.handle = 0) ∧ (∃ e, startTrace env name flags w =
        (.error e, ⟨w.calls ++ [(.startTraceW sent flags, a)], w.state⟩)) ∨
      (a.status = errorSuccess ∧ a.handle ≠ 0) ∧ startTrace env name flags w =
        (.ok a.handle, ⟨w.calls ++ [(.startTraceW sent flags, a)], w.state⟩) := by
  rw [startTrace, bind_call, hsent, ha]
  by_cases hok : a.status = errorSuccess
  · rw [if_pos hok, filterInvalidControlHandle]
    by_cases hzero : a.handle = 0
    · rw [if_pos hzero]
      exact .inl ⟨fun _ => hzero, _, rfl⟩
    · rw [if_neg hzero]
      exact .inr ⟨⟨hok, hzero⟩, rfl⟩
  · left
    rw [if_neg hok]
    refine ⟨fun h => absurd h hok, ?_⟩
    split
    · exact ⟨_, rfl⟩
    · exact ⟨_, rfl⟩

/-- All that comes before a session is started. -/
theorem within_stopIfExist (env : Env EtwCall EtwAnswer) (b : TraceBuilder D) :
    Within (fun q => b.stopIfExist ∧ ∃ wideName, cStringFromStr b.name = some wideName ∧
        q = .controlTraceByName wideName eventTraceControlStop)
      (if b.stopIfExist then stopTraceByName env b.name else pure () : Etw D _ _) := by
  split
  · rename_i hstop
    intro w
    obtain ⟨hstate, l, hl, hP⟩ := within_stopTraceByName (D := D) env b.name w
    exact ⟨hstate, l, hl, fun x hx => ⟨hstop, hP x hx⟩⟩
  · exact Within.pure ()

/-- A namesake is stopped, because the builder asks for it. -/
def StopsNamesake (b : TraceBuilder D) (y : EtwCall × EtwAnswer) : Prop :=
  b.stopIfExist ∧ ∃ wideName, cStringFromStr b.name = some wideName ∧
    y.1 = .controlTraceByName wideName eventTraceControlStop

theorem StopsNamesake.not_starts {y : EtwCall × EtwAnswer} (h : StopsNamesake b y) :
    ¬ Starts y := by
  rintro ⟨⟨name, flags, hq⟩, -⟩
  obtain ⟨-, wideName, -, hstop⟩ := h
  rw [hq] at hstop
  cases hstop

/-- **A start comes to a session or not.** It may fail before it asks for one; `StartTraceW` may
refuse; or it goes on with the handle it was answered. -/
theorem start_cases (env : Env EtwCall EtwAnswer) (t : Target) (winEightOrGreater : Bool)
    (b : TraceBuilder D) (w : World EtwCall EtwAnswer (ContextRegistry D)) :
    ∃ earlier, (∀ y ∈ earlier, StopsNamesake b y) ∧
      ((∃ e, b.start env t winEightOrGreater w = (.error e, ⟨w.calls ++ earlier, w.state⟩)) ∨
        ∃ name a, a = env (w.calls ++ earlier) (.startTraceW name b.providerFlags) ∧
          ((a.status = errorSuccess → a.handle = 0) ∧ (∃ e, b.start env t winEightOrGreater w =
              (.error e,
                ⟨w.calls ++ (earlier ++ [(.startTraceW name b.providerFlags, a)]), w.state⟩)) ∨
            (a.status = errorSuccess ∧ a.handle ≠ 0) ∧ b.start env t winEightOrGreater w =
              mapResult intoTraceError (b.afterStart env t winEightOrGreater a.handle)
                ⟨w.calls ++ (earlier ++ [(.startTraceW name b.providerFlags, a)]), w.state⟩)) := by
  rw [TraceBuilder.start]
  obtain ⟨hstate, l, hl, hearlier⟩ := within_stopIfExist env b w
  refine ⟨l, hearlier, ?_⟩
  rcases hstop : (if b.stopIfExist then stopTraceByName env b.name else pure () : Etw D _ _) w
    with ⟨e | _, calls₁, state₁⟩
  all_goals
    rw [hstop] at hstate hl
    obtain rfl : calls₁ = w.calls ++ l := hl
    obtain rfl : state₁ = w.state := hstate
  · rw [bind_of_error hstop]
    exact .inl ⟨e, rfl⟩
  rw [bind_of_ok hstop, mapResult]
  obtain ⟨sent, hsent⟩ : ∃ sent,
    truncateAtNul (wideTraceName (traceWideName b.name)) = sent := ⟨_, rfl⟩
  obtain ⟨a, ha⟩ : ∃ a, env (w.calls ++ l) (.startTraceW sent b.providerFlags) = a := ⟨_, rfl⟩
  refine .inr ⟨sent, a, ha.symm, ?_⟩
  rw [← List.append_assoc]
  rcases startTrace_run (w := ⟨w.calls ++ l, w.state⟩) hsent ha with
    ⟨hrefused, e, hrun⟩ | ⟨haccepted, hrun⟩
  · rw [bind_of_error hrun]
    exact .inl ⟨hrefused, _, rfl⟩
  · rw [bind_of_ok hrun]
    exact .inr ⟨haccepted, rfl⟩

/-- A failed start stops the session it has started, closes the consumer it has opened, once each,
and unregisters its context. A start that succeeds ends nothing, and hands all of it over. -/
theorem start_cleans_up (hstarts : StartsNonzero env) (t : Target) (winEightOrGreater : Bool)
    (b : TraceBuilder D) (w : World EtwCall EtwAnswer (ContextRegistry D)) :
    ∃ new, (b.start env t winEightOrGreater w).2.calls = w.calls ++ new ∧
      match (b.start env t winEightOrGreater w).1 with
      | .error _ => (∀ x ∈ new, ¬ Starts x) ∨
          ∃ control since, StartedWith b new control since ∧
            CleanedUp control since w.state (b.start env t winEightOrGreater w).2.state
      | .ok (tr, h) => ∃ control since, StartedWith b new control since ∧
          HandedOver b control since (b.start env t winEightOrGreater w).2.state tr h := by
  obtain ⟨earlier, hearlier, hcases⟩ := start_cases env t winEightOrGreater b w
  have hnone : ∀ x ∈ earlier, ¬ Starts x := fun x hx => (hearlier x hx).not_starts
  rcases hcases with ⟨e, hrun⟩ | ⟨name, a, ha, ⟨hrefused, e, hrun⟩ | ⟨⟨hok, hhandle⟩, hrun⟩⟩
  · rw [hrun]
    exact ⟨earlier, rfl, .inl hnone⟩
  · rw [hrun]
    refine ⟨_, rfl, .inl fun x hx => ?_⟩
    rcases List.mem_append.mp hx with hx | hx
    · exact hnone x hx
    · rintro ⟨-, hstatus⟩
      rw [List.mem_singleton.mp hx] at hstatus
      have hstatus : a.status = errorSuccess := hstatus
      have hzero := hrefused hstatus
      rw [ha] at hstatus hzero
      exact hstarts _ _ _ hstatus hzero
  · rw [hrun]
    obtain ⟨since, hcalls, hends⟩ := ends_afterStart env (b := b)
      (w := ⟨w.calls ++ (earlier ++ [(.startTraceW name b.providerFlags, a)]), w.state⟩)
      hhandle t winEightOrGreater
    have hstarted : StartedWith b
        (earlier ++ (.startTraceW name b.providerFlags, a) :: since) a.handle since :=
      ⟨earlier, _, rfl, ⟨⟨_, _, rfl⟩, hok⟩, rfl, hearlier, hends.not_starts⟩
    refine ⟨_, hcalls.trans (by rw [List.append_assoc, List.append_assoc]), ?_⟩
    rw [mapResult]
    rcases hafter : b.afterStart env t winEightOrGreater a.handle _ with ⟨e | ⟨tr, h⟩, w'⟩
    · rw [hafter] at hends
      exact .inr ⟨_, _, hstarted, hends.cleanedUp⟩
    · rw [hafter] at hends
      exact ⟨_, _, hstarted, hends.handedOver⟩

/-- A user trace, of one provider that is to report its state. -/
def rundownBuilder : TraceBuilder Unit where
  kind := .user
  name := "rundown"
  rtCallbackData := ()
  providers :=
    [{ guid := .ofFields 1 0 0 (List.replicate 8 0), any := 0, all := 0, level := 5,
       traceFlags := 0, kernelFlags := 0, captureState := true, filters := [] }]
  stopIfExist := true
  stackTracingEvents := []
  extendedKernelGroups := []

/-- Windows refuses the rundown only. -/
def refuseRundown (_ : List (EtwCall × EtwAnswer)) : EtwCall → EtwAnswer
  | .startTraceW _ _ => ⟨0, 7, []⟩
  | .openTraceW _ _ => ⟨0, 3, []⟩
  | .enableTraceEx2 _ _ 2 _ _ _ _ => ⟨5, 0, []⟩
  | _ => ⟨0, 0, []⟩

/-- That start: it fails when the consumer is open already. -/
def refusedStart :
    Except TraceError (Trace × TraceHandle) × World EtwCall EtwAnswer (ContextRegistry Unit) :=
  rundownBuilder.start refuseRundown ⟨.b64, true⟩ true ⟨[], .start⟩

theorem start_cleans_up_refusedStart :
    refusedStart.1 = .error (.etwNativeError (.ioError 5)) ∧
      ∃ control since, StartedWith rundownBuilder refusedStart.2.calls control since ∧
        CleanedUp control since .start refusedStart.2.state := by
  have hfails : refusedStart.1 = .error (.etwNativeError (.ioError 5)) := rfl
  have hstarts : StartsNonzero refuseRundown := by
    intro calls name flags _
    show (7 : UInt64) ≠ 0
    decide
  have hstart := start_cleans_up hstarts ⟨.b64, true⟩ true rundownBuilder ⟨[], .start⟩
  rw [show rundownBuilder.start refuseRundown ⟨.b64, true⟩ true ⟨[], .start⟩ = refusedStart
    from rfl, hfails] at hstart
  obtain ⟨new, hnew, hend⟩ := hstart
  obtain rfl : refusedStart.2.calls = new := hnew
  refine ⟨hfails, hend.resolve_left fun hnone => ?_⟩
  have hmem : _ ∈ refusedStart.2.calls :=
    List.mem_of_getElem? (show refusedStart.2.calls[1]? = some _ from rfl)
  exact hnone _ hmem ⟨⟨_, _, rfl⟩, rfl⟩

end Ferrisetw2
