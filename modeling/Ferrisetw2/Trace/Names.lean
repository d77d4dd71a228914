import Ferrisetw2.Trace.Start

/-!
# The name of a session

A trace is named by a string, and Windows by a C string of UTF-16 code units. `start` and
`open_existing` cut the string at its first NUL and at 200 units, and so does the name buffer in
the properties of a session. `stop_trace_by_name` does neither: it refuses a NUL, and takes any
length. `trace.rs`, and `EventTraceProperties` of `etw_types.rs`.

## Main definitions

* `propertiesName`, `TraceBuilder.traceName`, `TraceBuilder.openExisting`
* `EtwCall.sessionName`, `EtwCall.Named` — the name a call carries
* `TraceBuilder.TargetsOneSession` — stopping, starting and opening mean one session
* `FitsName` — the names that are not cut

## Main results

* `TraceBuilder.traceName_eq` — the name that is reported is the name that was sent
* `cStringFromStr_eq_traceWideName_iff` — the name that is stopped is the name that is started
  when it is not cut
* `targetsOneSession_iff` — so, in every run, it is one session exactly then
-/

namespace Ferrisetw2

open Rust Calls

/-! ### Reported names -/

/-- `EventTraceProperties::name`, in code units. -/
def propertiesName (wide : List UInt16) : List UInt16 :=
  if 0 ∈ wide then truncateAtNul wide else encodeUtf16 "<invalid name>"

/-- `trace_name`, of a trace that `start` or `open_existing` built. -/
def TraceBuilder.traceName {D : Type} (b : TraceBuilder D) : List UInt16 :=
  propertiesName (wideTraceName (traceWideName b.name))

/-- `open_existing`. -/
def TraceBuilder.openExisting {D : Type} (env : Env EtwCall EtwAnswer) (t : Target)
    (b : TraceBuilder D) : Etw D TraceError (Trace × TraceHandle) :=
  mapResult intoTraceError <|
  bind (openTrace env t (traceWideName b.name) b.rtCallbackData) fun consumer =>
  pure (⟨.existing, consumer.1, consumer.2⟩, consumer.1)

/-! ### Cutting -/

theorem zero_notMem_truncateAtNul (wide : List UInt16) : 0 ∉ truncateAtNul wide := by
  intro h
  simpa using List.mem_takeWhile_imp h

theorem ne_zero_of_notMem {wide : List UInt16} (h : 0 ∉ wide) :
    ∀ u ∈ wide, decide (u ≠ 0) = true := by
  intro u hu
  rw [decide_eq_true_iff]
  rintro rfl
  exact h hu

theorem truncateAtNul_eq_self {wide : List UInt16} (h : 0 ∉ wide) : truncateAtNul wide = wide :=
  List.takeWhile_eq_self_iff.mpr (ne_zero_of_notMem h)

theorem truncateAtNul_append {wide : List UInt16} (h : 0 ∉ wide) (rest : List UInt16) :
    truncateAtNul (wide ++ 0 :: rest) = wide := by
  rw [truncateAtNul, List.takeWhile_append_of_pos (ne_zero_of_notMem h)]
  exact List.append_nil wide

/-- Cutting at 200 units leaves no NUL to cut at. -/
theorem traceWideName_eq (name : String) :
    traceWideName name = (truncateAtNul (encodeUtf16 name)).take traceNameMaxChars :=
  truncateAtNul_eq_self fun h => zero_notMem_truncateAtNul _ (List.mem_of_mem_take h)

theorem zero_notMem_traceWideName (name : String) : 0 ∉ traceWideName name :=
  zero_notMem_truncateAtNul _

theorem length_traceWideName_le (name : String) :
    (traceWideName name).length ≤ traceNameMaxChars := by
  rw [traceWideName_eq]
  exact List.length_take_le _ _

/-- A name of 200 units fits the buffer, with a NUL behind it. -/
theorem wideTraceName_eq {traceName : List UInt16} (h : traceName.length ≤ traceNameMaxChars) :
    ∃ rest, wideTraceName traceName = traceName ++ 0 :: rest := by
  refine ⟨List.replicate (traceNameMaxChars - traceName.length) 0, ?_⟩
  rw [wideTraceName, Nat.min_eq_left h, List.take_length, List.drop_replicate,
    ← List.replicate_succ]
  congr 2
  omega

/-- `StartTraceW` gets the name that was cut. -/
theorem truncateAtNul_wideTraceName (name : String) :
    truncateAtNul (wideTraceName (traceWideName name)) = traceWideName name := by
  obtain ⟨rest, hrest⟩ := wideTraceName_eq (length_traceWideName_le name)
  rw [hrest, truncateAtNul_append (zero_notMem_traceWideName name)]

/-- **The name that is reported is the name that was sent.** -/
theorem TraceBuilder.traceName_eq {D : Type} (b : TraceBuilder D) :
    b.traceName = traceWideName b.name := by
  obtain ⟨rest, hrest⟩ := wideTraceName_eq (length_traceWideName_le b.name)
  rw [TraceBuilder.traceName, propertiesName, if_pos (by rw [hrest]; simp),
    truncateAtNul_wideTraceName]

/-- The names that are not cut: at most 200 units, and a NUL at the very end at most. -/
def FitsName (name : String) : Prop :=
  0 ∉ (encodeUtf16 name).dropLast ∧ (truncateAtNul (encodeUtf16 name)).length ≤ traceNameMaxChars

/-- **The name that is stopped is the name that is started**, unless it is cut. -/
theorem cStringFromStr_eq_traceWideName_iff (name : String) :
    cStringFromStr name = some (traceWideName name) ↔ FitsName name := by
  rw [cStringFromStr, traceWideName_eq, FitsName]
  split
  · rename_i hnul
    exact iff_of_false (Option.some_ne_none _).symm fun h => h.1 hnul
  · rename_i hnul
    rw [Option.some.injEq, eq_comm, List.take_eq_self_iff]
    exact (and_iff_right hnul).symm

/-! ### Calls -/

/-- The name of a session that a call carries. -/
def EtwCall.sessionName : EtwCall → Option (List UInt16)
  | .startTraceW name _ | .openTraceW _ name | .controlTraceByName name _ => some name
  | .closeTrace _ | .controlTraceW _ _ | .enableTraceEx2 .. => none
  | .traceSetInformation .. | .traceQueryInformation .. => none

/-- If the call carries a name, it is this one. -/
def EtwCall.Named (wide : List UInt16) (q : EtwCall) : Prop := ∀ name ∈ q.sessionName, name = wide

theorem EtwCall.named_of_sessionName {q : EtwCall} (h : q.sessionName = none)
    (wide : List UInt16) : q.Named wide := by
  intro name hname
  rw [h] at hname
  cases hname

theorem EtwCall.Neutral.named {q : EtwCall} (h : q.Neutral) (wide : List UInt16) :
    q.Named wide := by
  intro name hname
  cases q <;> first | exact h.elim | cases hname

section Runs

variable {D : Type} {env : Env EtwCall EtwAnswer} {t : Target} {wide : List UInt16}

theorem makes_request {c : Except EvntraceNativeError EtwCall}
    (hc : ∀ q, c = .ok q → q.Named wide) :
    Makes (EtwCall.Named wide) (request env c : Etw D EvntraceNativeError Unit) :=
  (within_request hc).makes fun _ => id

theorem makes_controlTrace (control : ControlHandle) (code : UInt32) :
    Makes (EtwCall.Named wide) (controlTrace env control code : Etw D _ _) := by
  refine makes_request fun q hq => ?_
  rw [controlTraceCall] at hq
  split at hq
  · cases hq
  · cases hq
    exact EtwCall.named_of_sessionName rfl wide

theorem makes_closeTrace (traceHandle : TraceHandle) (context : ℕ) :
    Makes (EtwCall.Named wide) (closeTrace env traceHandle context : Etw D _ _) := by
  rw [closeTrace]
  split
  · exact Makes.error _
  · have hclose := EtwCall.named_of_sessionName (q := .closeTrace traceHandle) rfl wide
    refine Makes.bind (Makes.modify _) fun _ => Makes.bind (Makes.call env hclose) fun answer => ?_
    split
    · exact Makes.pure _
    · split
      · exact Makes.pure _
      · exact Makes.error _

theorem makes_drop (guard : StartedSessionGuard) :
    Makes (EtwCall.Named wide) (guard.drop env : Etw D Empty Unit) := by
  rw [StartedSessionGuard.drop]
  split
  · exact Makes.pure _
  · refine Makes.bind ?_ fun _ => Makes.bind (makes_controlTrace _ _).mapResult fun _ =>
      Makes.pure _
    split
    · exact Makes.pure _
    · exact Makes.bind (makes_closeTrace _ _).mapResult fun _ => Makes.modify _

theorem makes_openTrace (data : D) :
    Makes (EtwCall.Named wide) (openTrace env t wide data) := by
  have hcall : ∀ id, (EtwCall.openTraceW id wide).Named wide := fun _ _ h =>
    (Option.some.inj h).symm
  refine Makes.bind (Makes.modify _) fun id => ?_
  refine Makes.bind (Makes.call env (hcall id)) fun answer => ?_
  split
  · exact Makes.bind (Makes.modify _) fun _ => Makes.error _
  · exact Makes.pure _

/-- Once a session is running, no call carries another name. -/
theorem makes_afterStart (env : Env EtwCall EtwAnswer) (t : Target) (b : TraceBuilder D)
    (winEightOrGreater : Bool) (control : ControlHandle) :
    Makes (EtwCall.Named (traceWideName b.name))
      (b.afterStart env t winEightOrGreater control) := by
  have hneutral : ∀ q : EtwCall, q.Neutral → q.Named (traceWideName b.name) := fun q hq =>
    hq.named _
  refine Makes.bind (Makes.onError ?_ (makes_drop _)) fun _ => ?_
  · exact (within_configure env b control winEightOrGreater).makes hneutral
  refine Makes.bind (Makes.onError (makes_openTrace _) (makes_drop _)) fun _ => ?_
  refine Makes.bind (Makes.onError ?_ (makes_drop _)) fun _ => ?_
  · exact (within_requestStates env b control).makes hneutral
  exact Makes.bind (makes_drop _).mapResult fun _ => Makes.pure _

/-! ### Stopping -/

/-- The call of `stop_trace_by_name`, for a C string. -/
def stopByNameCall (wide : List UInt16) : EtwCall := .controlTraceByName wide eventTraceControlStop

/-- The statuses `stop_trace_by_name` accepts: the session was stopped, or was not running. -/
def StopAccepted (status : UInt32) : Prop :=
  status = errorSuccess ∨ status = errorWmiInstanceNotFound

variable {w : World EtwCall EtwAnswer (ContextRegistry D)} {name : String}

theorem stopTraceByName_of_none (h : cStringFromStr name = none) :
    stopTraceByName env name w = (.error .invalidTraceName, w) := by
  rw [stopTraceByName, h]
  rfl

theorem controlTraceByName_run (code : UInt32) :
    controlTraceByName env wide code w =
      (if (env w.calls (.controlTraceByName wide code)).status = errorSuccess then .ok ()
        else .error (env w.calls (.controlTraceByName wide code)).status,
        World.called w env (.controlTraceByName wide code)) := by
  rw [controlTraceByName, bind_call]
  split
  · rfl
  · rfl

/-- A name that is a C string is stopped with one call, whose status decides. -/
theorem stopTraceByName_of_some (env : Env EtwCall EtwAnswer)
    (w : World EtwCall EtwAnswer (ContextRegistry D)) (h : cStringFromStr name = some wide) :
    ∃ r, stopTraceByName env name w = (r, World.called w env (stopByNameCall wide)) ∧
      (r = .ok () ↔ StopAccepted (env w.calls (stopByNameCall wide)).status) := by
  rw [stopTraceByName, h]
  dsimp only
  rw [mapResult, controlTraceByName_run, StopAccepted, stopByNameCall]
  by_cases hok : (env w.calls (.controlTraceByName wide eventTraceControlStop)).status =
    errorSuccess
  · rw [if_pos hok]
    exact ⟨_, rfl, iff_of_true rfl (.inl hok)⟩
  · rw [if_neg hok]
    refine ⟨_, rfl, ?_⟩
    dsimp only
    split
    · rename_i hmissing
      exact iff_of_true rfl (.inr hmissing)
    · rename_i hfailed
      exact iff_of_false (by simp) fun haccepted => haccepted.elim hok hfailed

theorem startTrace_calls (env : Env EtwCall EtwAnswer) (wide : List UInt16) (flags : UInt32)
    (w : World EtwCall EtwAnswer (ContextRegistry D)) : ∃ a,
    (startTrace env wide flags w).2.calls =
      w.calls ++ [(.startTraceW (truncateAtNul (wideTraceName wide)) flags, a)] := by
  refine ⟨env w.calls (.startTraceW (truncateAtNul (wideTraceName wide)) flags), ?_⟩
  rw [startTrace, bind_call]
  split
  · cases filterInvalidControlHandle
      (env w.calls (.startTraceW (truncateAtNul (wideTraceName wide)) flags)).handle <;> rfl
  · split
    · rfl
    · rfl

/-- The rest of `start` calls `StartTraceW`, and no call behind that carries another name. -/
theorem startTrace_afterStart_calls (env : Env EtwCall EtwAnswer) (t : Target)
    (b : TraceBuilder D) (winEightOrGreater : Bool)
    (w : World EtwCall EtwAnswer (ContextRegistry D)) :
    ∃ a since, ((Calls.bind (startTrace env (traceWideName b.name) b.providerFlags)
        fun control => b.afterStart env t winEightOrGreater control) w).2.calls =
          w.calls ++ (.startTraceW (traceWideName b.name) b.providerFlags, a) :: since ∧
      ∀ x ∈ since, x.1.Named (traceWideName b.name) := by
  obtain ⟨a, ha⟩ := startTrace_calls env (traceWideName b.name) b.providerFlags w
  rw [truncateAtNul_wideTraceName] at ha
  rcases hr : startTrace env (traceWideName b.name) b.providerFlags w with ⟨e | control, w'⟩
  · rw [hr] at ha
    rw [bind_of_error hr]
    exact ⟨a, [], ha, List.forall_mem_nil _⟩
  · rw [hr] at ha
    obtain ⟨since, hsince, hnamed⟩ := makes_afterStart env t b winEightOrGreater control w'
    rw [bind_of_ok hr]
    exact ⟨a, since, by rw [hsince, ha, List.append_assoc]; rfl, hnamed⟩

/-- `start`, when it is to stop what exists: nothing is called after a stop that fails. -/
theorem start_calls (env : Env EtwCall EtwAnswer) (t : Target) {b : TraceBuilder D}
    (hstop : b.stopIfExist = true) (h : cStringFromStr b.name = some wide)
    (winEightOrGreater : Bool) (w : World EtwCall EtwAnswer (ContextRegistry D)) :
    ∃ rest, (b.start env t winEightOrGreater w).2.calls =
        w.calls ++ (stopByNameCall wide, env w.calls (stopByNameCall wide)) :: rest ∧
      (¬ StopAccepted (env w.calls (stopByNameCall wide)).status → rest = []) ∧
      (StopAccepted (env w.calls (stopByNameCall wide)).status → ∃ a since,
        rest = (.startTraceW (traceWideName b.name) b.providerFlags, a) :: since ∧
          ∀ x ∈ since, x.1.Named (traceWideName b.name)) := by
  obtain ⟨r, hrun, hr⟩ := stopTraceByName_of_some env w h
  rw [TraceBuilder.start, if_pos hstop]
  cases r with
  | error e =>
    rw [bind_of_error hrun]
    exact ⟨[], rfl, fun _ => rfl, fun haccepted => absurd (hr.mpr haccepted) (by simp)⟩
  | ok _ =>
    obtain ⟨a, since, hsince, hnamed⟩ := startTrace_afterStart_calls env t b winEightOrGreater
      (World.called w env (stopByNameCall wide))
    rw [bind_of_ok hrun]
    refine ⟨_, hsince.trans ?_, fun hrefused => absurd (hr.mp rfl) hrefused, fun _ =>
      ⟨a, since, rfl, hnamed⟩⟩
    rw [World.called_calls, List.append_assoc]
    rfl

theorem openExisting_calls (b : TraceBuilder D) : ∃ id a,
    (b.openExisting env t w).2.calls =
      w.calls ++ [(.openTraceW id (traceWideName b.name), a)] := by
  rcases hnew : w.state.new t b.rtCallbackData with ⟨id, contexts⟩
  refine ⟨id, env w.calls (.openTraceW id (traceWideName b.name)), ?_⟩
  rw [TraceBuilder.openExisting, mapResult]
  cases hopen : filterInvalidTraceHandles
      (env w.calls (.openTraceW id (traceWideName b.name))).handle with
  | none =>
    rw [bind_of_error (openTrace_run_of_none hnew hopen)]
    rfl
  | some h =>
    rw [bind_of_ok (openTrace_run_of_some hnew hopen)]
    rfl

end Runs

/-- `stop_trace_by_name`, `start` and `open_existing` mean the session of one name, the one that
`trace_name` reports. -/
structure TraceBuilder.TargetsOneSession {D : Type} (env : Env EtwCall EtwAnswer) (t : Target)
    (winEightOrGreater : Bool) (b : TraceBuilder D)
    (w : World EtwCall EtwAnswer (ContextRegistry D)) : Prop where
  stopped : (stopTraceByName env b.name w).2.calls =
    w.calls ++ [(stopByNameCall b.traceName, env w.calls (stopByNameCall b.traceName))]
  /-- The stop comes first. If it is not refused, the session is started next. -/
  started : ∃ rest, (b.start env t winEightOrGreater w).2.calls =
      w.calls ++ (stopByNameCall b.traceName, env w.calls (stopByNameCall b.traceName)) :: rest ∧
    (¬ StopAccepted (env w.calls (stopByNameCall b.traceName)).status → rest = []) ∧
    (StopAccepted (env w.calls (stopByNameCall b.traceName)).status → ∃ a since,
      rest = (.startTraceW b.traceName b.providerFlags, a) :: since ∧
        ∀ x ∈ since, x.1.Named b.traceName)
  opened : ∃ id a, (b.openExisting env t w).2.calls =
    w.calls ++ [(.openTraceW id b.traceName, a)]

/-- **Stopping by a name means the session that starting creates, exactly when the name is not
cut.** -/
theorem targetsOneSession_iff {D : Type} (env : Env EtwCall EtwAnswer) (t : Target)
    (winEightOrGreater : Bool) {b : TraceBuilder D} (hstop : b.stopIfExist = true)
    (w : World EtwCall EtwAnswer (ContextRegistry D)) :
    b.TargetsOneSession env t winEightOrGreater w ↔ FitsName b.name := by
  rw [← cStringFromStr_eq_traceWideName_iff]
  constructor
  · intro h
    have hstopped := h.stopped
    rw [b.traceName_eq] at hstopped
    cases hwide : cStringFromStr b.name with
    | none =>
      rw [stopTraceByName_of_none hwide] at hstopped
      exact absurd hstopped.symm (by simp)
    | some wide =>
      obtain ⟨r, hrun, -⟩ := stopTraceByName_of_some env w hwide
      rw [hrun] at hstopped
      have hcall := List.singleton_inj.mp (List.append_cancel_left hstopped)
      rw [(EtwCall.controlTraceByName.inj (Prod.mk.inj hcall).1).1]
  · intro hwide
    rw [← b.traceName_eq] at hwide
    obtain ⟨r, hrun, -⟩ := stopTraceByName_of_some env w hwide
    refine ⟨by rw [hrun]; rfl, ?_, ?_⟩
    · have := start_calls env t hstop hwide winEightOrGreater w
      rwa [← b.traceName_eq] at this
    · rw [b.traceName_eq]
      exact openExisting_calls b

theorem targetsOneSession_rundown :
    rundownBuilder.TargetsOneSession refuseRundown ⟨.b64, true⟩ true ⟨[], .start⟩ :=
  (targetsOneSession_iff _ _ _ rfl _).mpr ⟨by decide +kernel, by decide +kernel⟩

/-- A name of 201 units. -/
def longNamed : TraceBuilder Unit :=
  { rundownBuilder with name := String.ofList (List.replicate 201 'a') }

theorem encodeUtf16_longNamed : encodeUtf16 longNamed.name = List.replicate 201 97 := by
  have hchars : List.replicate 201 'a' = (List.replicate 201 97).map byteChar := by
    rw [List.map_replicate]
    rfl
  rw [longNamed, hchars, encodeUtf16_byteChars, List.map_replicate]
  rfl

/-- The session that is stopped has one unit more in its name than the one that is started. -/
theorem longNamed_targets_two_sessions :
    ¬ longNamed.TargetsOneSession refuseRundown ⟨.b64, true⟩ true ⟨[], .start⟩ ∧
      ∃ stopped started rest,
        (longNamed.start refuseRundown ⟨.b64, true⟩ true ⟨[], .start⟩).2.calls =
          (stopByNameCall (List.replicate 201 97), stopped) ::
            (.startTraceW (List.replicate 200 97) 0, started) :: rest := by
  have hwide : cStringFromStr longNamed.name = some (List.replicate 201 97) := by
    rw [cStringFromStr, encodeUtf16_longNamed]
    decide +kernel
  have hname : traceWideName longNamed.name = List.replicate 200 97 := by
    rw [traceWideName, encodeUtf16_longNamed]
    decide +kernel
  constructor
  · intro h
    obtain ⟨r, hrun, -⟩ := stopTraceByName_of_some refuseRundown
      (⟨[], .start⟩ : World EtwCall EtwAnswer (ContextRegistry Unit)) hwide
    have hstopped := h.stopped
    rw [hrun, longNamed.traceName_eq, hname] at hstopped
    have hcall := List.singleton_inj.mp hstopped
    have hlength := congrArg List.length (EtwCall.controlTraceByName.inj (Prod.mk.inj hcall).1).1
    rw [List.length_replicate, List.length_replicate] at hlength
    omega
  · obtain ⟨rest, hrest, -, hstarted⟩ := start_calls refuseRundown ⟨.b64, true⟩
      (show longNamed.stopIfExist = true from rfl) hwide true ⟨[], .start⟩
    obtain ⟨a, since, rfl, -⟩ := hstarted (.inl rfl)
    rw [hname] at hrest
    exact ⟨_, a, since, hrest⟩

end Ferrisetw2
