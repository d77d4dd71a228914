import Ferrisetw2.Lib.Plans
import Ferrisetw2.Trace.Start

/-!
# What a start asks for

`start` has a plan. It stops a namesake, starts a session, configures it, opens a consumer and only
then asks for rundowns: a provider is asked for its state when somebody listens. Each provider is
enabled once and in registration order, and of a kernel trace those alone that carry filters.

A start that fails has asked for the first things of its plan, up to the one that went wrong. What
it had acquired by then it gives back, the last first, and calls nothing else.

## Main definitions

* `EtwCall.Accepted` — the answers a start goes on after
* `TraceBuilder.plan` — what a start asks for
* `Answered` — the answers a plan is for
* `undoCalls` — what gives back what was acquired

## Main results

* `follows_configure`, `follows_afterStart` — the parts of a start follow the parts of its plan
* `start_follows_plan` — **a start follows its plan**
-/

namespace Ferrisetw2

open Rust Calls

/-! ### The plan -/

/-- An answer that a start goes on after. -/
def EtwCall.Accepted : EtwCall → EtwAnswer → Prop
  | .startTraceW _ _, a => a.status = errorSuccess ∧ a.handle ≠ 0
  | .openTraceW _ _, a => filterInvalidTraceHandles a.handle = some a.handle
  | .controlTraceByName _ _, a => a.status = errorSuccess ∨ a.status = errorWmiInstanceNotFound
  | _, a => a.status = errorSuccess

namespace TraceBuilder

variable {D : Type}

/-- The namesake is stopped first. -/
def namesakeRequests (b : TraceBuilder D) : List (Except TraceError EtwCall) :=
  if b.stopIfExist then
    match cStringFromStr b.name with
    | none => [.error .invalidTraceName]
    | some wideName => [.ok (.controlTraceByName wideName eventTraceControlStop)]
  else []

/-- What a start asks for once it has come to its session: a call, or the error that keeps it from
being made. -/
abbrev Request := Except EvntraceNativeError EtwCall

/-- The call stacks of a kernel session. -/
def stackRequests (b : TraceBuilder D) (control : ControlHandle) : List Request :=
  if b.stackTracingEvents.isEmpty then []
  else [setInfoCall control .traceStackTracingInfo (stackTracingBuffer b.stackTracingEvents)]

/-- Its groups. The mask it has is asked for first. -/
def groupRequests (b : TraceBuilder D) (control : ControlHandle) (mask : List UInt8) :
    List Request :=
  if b.extendedKernelGroups.isEmpty then []
  else
    [.ok (.traceQueryInformation control .traceSystemTraceEnableFlagsInfo
        (4 * PerfinfoGroupmask.maskCount)),
      setInfoCall control .traceSystemTraceEnableFlagsInfo
        ((PerfinfoGroupmask.fromBytes mask).setGroups b.extendedKernelGroups).asBytes]

/-- The providers. -/
def enableRequests (control : ControlHandle) (providers : List Provider) : List Request :=
  providers.map (enableProviderCall control)

/-- The providers of a kernel session: those with filters, which Windows has to know. -/
def filterRequests (winEightOrGreater : Bool) (b : TraceBuilder D) (control : ControlHandle) :
    List Request :=
  let filteredProviders := kernelFilterProviders b.providers
  if !filteredProviders.isEmpty && !winEightOrGreater then
    [.error (.invalidFilter "kernel providers cannot carry event filters before Windows 8")]
  else enableRequests control filteredProviders

/-- Everything between `StartTraceW` and `OpenTraceW`. -/
def settingRequests (winEightOrGreater : Bool) (b : TraceBuilder D) (control : ControlHandle)
    (mask : List UInt8) : List Request :=
  match b.kind with
  | .kernel => b.stackRequests control ++ b.groupRequests control mask ++
    b.filterRequests winEightOrGreater control
  | .user => enableRequests control b.providers

/-- The rundowns. -/
def stateRequests (b : TraceBuilder D) (control : ControlHandle) : List Request :=
  match b.kind with
  | .kernel => []
  | .user => (b.providers.filter (·.captureState)).map (captureProviderStateCall control)

/-- A session is started, configured and opened, and asked for its state. -/
def sessionRequests (winEightOrGreater : Bool) (b : TraceBuilder D) (control : ControlHandle)
    (id : ℕ) (mask : List UInt8) : List Request :=
  .ok (.startTraceW (truncateAtNul (wideTraceName (traceWideName b.name))) b.providerFlags) ::
    (b.settingRequests winEightOrGreater control mask ++
      .ok (.openTraceW id (traceWideName b.name)) :: b.stateRequests control)

/-- **The plan of a start**, when its session gets this handle, its consumer this context, and the
groups it has from the outset are these. -/
def plan (winEightOrGreater : Bool) (b : TraceBuilder D) (control : ControlHandle) (id : ℕ)
    (mask : List UInt8) : List (Except TraceError EtwCall) :=
  b.namesakeRequests ++ (b.sessionRequests winEightOrGreater control id mask).map intoTraceError

end TraceBuilder

/-- The session and the consumer have these handles, and the groups are these. -/
def Answered (control : ControlHandle) (handle : TraceHandle) (mask : List UInt8) :
    EtwCall × EtwAnswer → Prop
  | (.startTraceW _ _, a) => a.handle = control
  | (.openTraceW _ _, a) => a.handle = handle
  | (.traceQueryInformation _ _ _, a) => a.info = mask
  | _ => True

/-- The call that gives back what this one has acquired. -/
def EtwCall.undo : EtwCall × EtwAnswer → Option EtwCall
  | (.startTraceW _ _, a) =>
    if a.status = errorSuccess then (filterInvalidControlHandle a.handle).map stopCall else none
  | (.openTraceW _ _, a) => (filterInvalidTraceHandles a.handle).map .closeTrace
  | _ => none

/-- The calls that give back what these have acquired, the last first. -/
def undoCalls (done : List (EtwCall × EtwAnswer)) : List EtwCall :=
  (done.filterMap EtwCall.undo).reverse

theorem undoCalls_append (done done' : List (EtwCall × EtwAnswer)) :
    undoCalls (done ++ done') = undoCalls done' ++ undoCalls done := by
  rw [undoCalls, List.filterMap_append, List.reverse_append]
  rfl

theorem undoCalls_eq_nil {done : List (EtwCall × EtwAnswer)}
    (h : ∀ x ∈ done, EtwCall.undo x = none) : undoCalls done = [] := by
  rw [undoCalls, List.filterMap_eq_nil_iff.mpr h]
  rfl

variable {D : Type} {env : Env EtwCall EtwAnswer} {b : TraceBuilder D} {control : ControlHandle}

/-- A session that was started is to be stopped. -/
theorem undo_startTraceW {name : List UInt16} {flags : UInt32} {a : EtwAnswer}
    (h : (EtwCall.startTraceW name flags).Accepted a) :
    EtwCall.undo (.startTraceW name flags, a) = some (stopCall a.handle) := by
  rw [EtwCall.undo, if_pos h.1, filterInvalidControlHandle, if_neg h.2]
  rfl

theorem undo_startTraceW_of_refused {name : List UInt16} {flags : UInt32} {a : EtwAnswer}
    (h : ¬ (EtwCall.startTraceW name flags).Accepted a) :
    EtwCall.undo (.startTraceW name flags, a) = none := by
  rw [EtwCall.undo]
  split
  · rename_i hstatus
    rw [filterInvalidControlHandle, if_pos (of_not_not fun hne => h ⟨hstatus, hne⟩)]
    rfl
  · rfl

/-- A consumer that was opened is to be closed. -/
theorem undo_openTraceW {id : ℕ} {name : List UInt16} {a : EtwAnswer}
    (h : (EtwCall.openTraceW id name).Accepted a) :
    EtwCall.undo (.openTraceW id name, a) = some (.closeTrace a.handle) := by
  rw [EtwCall.undo, show filterInvalidTraceHandles a.handle = some a.handle from h]
  rfl

theorem undo_openTraceW_of_refused {id : ℕ} {name : List UInt16} {a : EtwAnswer}
    (h : ¬ (EtwCall.openTraceW id name).Accepted a) :
    EtwCall.undo (.openTraceW id name, a) = none := by
  rw [EtwCall.undo]
  cases hvalid : filterInvalidTraceHandles a.handle with
  | none => rfl
  | some handle =>
    obtain rfl := filterInvalidTraceHandles_eq hvalid
    exact absurd hvalid h

theorem undo_of_neutral {x : EtwCall × EtwAnswer} (h : x.1.Neutral) : EtwCall.undo x = none := by
  obtain ⟨q, a⟩ := x
  cases q with
  | enableTraceEx2 | traceSetInformation | traceQueryInformation => rfl
  | _ => cases h

/-! ### Wrappers -/

theorem accepted_iff_of_neutral {q : EtwCall} {a : EtwAnswer} (h : q.Neutral) :
    q.Accepted a ↔ a.status = errorSuccess := by
  cases q with
  | enableTraceEx2 | traceSetInformation | traceQueryInformation => exact Iff.rfl
  | _ => cases h

/-- Of the answer, a start looks at the status only. -/
def EtwCall.Plain : EtwCall → Prop
  | .enableTraceEx2 .. | .traceSetInformation .. => True
  | _ => False

theorem EtwCall.Plain.neutral {q : EtwCall} (h : q.Plain) : q.Neutral := by
  cases q with
  | enableTraceEx2 | traceSetInformation => exact trivial
  | _ => cases h

theorem EtwCall.Plain.answered {x : EtwCall × EtwAnswer} (h : x.1.Plain) (control : ControlHandle)
    (handle : TraceHandle) (mask : List UInt8) : Answered control handle mask x := by
  obtain ⟨q, a⟩ := x
  cases q with
  | enableTraceEx2 | traceSetInformation => exact trivial
  | _ => cases h

theorem plain_of_enableProviderCall {prov : Provider} {q : EtwCall}
    (h : enableProviderCall control prov = .ok q) : q.Plain := by
  rw [enableProviderCall] at h
  split at h
  · cases h
  · obtain ⟨descriptors, -, hok⟩ := bind_eq_ok_iff.mp h
    cases hok
    exact trivial

theorem plain_of_captureProviderStateCall {prov : Provider} {q : EtwCall}
    (h : captureProviderStateCall control prov = .ok q) : q.Plain := by
  rw [captureProviderStateCall] at h
  split at h
  · cases h
  · cases h
    exact trivial

theorem plain_of_setInfoCall {cls : TraceInformation} {buf : List UInt8} {q : EtwCall}
    (h : setInfoCall control cls buf = .ok q) : q.Plain := by
  rw [setInfoCall] at h
  split at h
  · cases h
  · cases h
    exact trivial

/-- A wrapper asks for its call, and goes on if that succeeds. -/
theorem follows_request {c : Except EvntraceNativeError EtwCall}
    (hc : ∀ q, c = .ok q → q.Plain) :
    Follows EtwCall.Accepted (fun _ l => requests l = [c]) noCleanup
      (request env c : Etw D EvntraceNativeError Unit) := by
  cases c with
  | error e => exact Follows.error (a := ()) (l := []) rfl
  | ok q =>
    rw [request]
    refine Follows.call_bind (fun (_ : EtwAnswer) _ l => l = []) ?_ ⟨⟨0, 0, []⟩, (), [], rfl⟩
      fun ans => ?_
    · rintro _ _ l rfl
      rfl
    · have hstatus := accepted_iff_of_neutral (a := ans) (hc q rfl).neutral
      rw [win32Result, hstatus]
      by_cases hok : ans.status = errorSuccess
      · rw [if_pos hok]
        exact .inl ⟨hok, Follows.pure rfl⟩
      · rw [if_neg hok]
        exact .inr ⟨hok, fun w => ⟨⟨_, rfl⟩, rfl⟩⟩

theorem follows_enableProviders (providers : List Provider) :
    Follows EtwCall.Accepted (fun _ l => requests l = TraceBuilder.enableRequests control providers)
      noCleanup
      (forEach (enableProvider env control) providers : Etw D EvntraceNativeError Unit) := by
  have heach : ∀ prov, Follows EtwCall.Accepted
      (fun _ l => requests l = [enableProviderCall control prov]) noCleanup
      (enableProvider env control prov : Etw D EvntraceNativeError Unit) := fun prov =>
    follows_request fun _ => plain_of_enableProviderCall
  refine (Follows.forEach heach providers).mono fun _ l hl => ?_
  rw [hl]
  exact List.flatMap_pure_eq_map _ providers

theorem follows_enableStackTracing (b : TraceBuilder D) :
    Follows EtwCall.Accepted (fun _ l => requests l = b.stackRequests control) noCleanup
      (enableStackTracing env control b.stackTracingEvents : Etw D EvntraceNativeError Unit) := by
  rw [enableStackTracing, TraceBuilder.stackRequests]
  split
  · exact Follows.pure rfl
  · exact follows_request fun _ => plain_of_setInfoCall

/-- The groups that are set go by the mask that was answered. -/
theorem follows_setExtendedKernelGroups (b : TraceBuilder D) :
    Follows EtwCall.Accepted (fun _ l => ∃ mask, requests l = b.groupRequests control mask ∧
        ∀ handle x, .ok x ∈ l → Answered control handle mask x) noCleanup
      (setExtendedKernelGroups env control b.extendedKernelGroups :
        Etw D EvntraceNativeError Unit) := by
  rw [setExtendedKernelGroups]
  simp only [TraceBuilder.groupRequests]
  split
  · exact Follows.pure ⟨[], rfl, fun _ _ h => by cases h⟩
  · refine Follows.call_bind (fun ans _ l => requests l = [setInfoCall control
      .traceSystemTraceEnableFlagsInfo ((PerfinfoGroupmask.fromBytes ans.info).setGroups
        b.extendedKernelGroups).asBytes]) ?_ ?_ fun ans => ?_
    · intro ans _ l hl
      refine ⟨ans.info, by rw [← hl]; rfl, fun handle x hx => ?_⟩
      rcases List.mem_cons.mp hx with hx | hx
      · obtain rfl := Except.ok.inj hx
        rfl
      · have hset := ok_mem_requests hx
        rw [hl, List.mem_singleton] at hset
        exact (plain_of_setInfoCall hset.symm).answered control handle ans.info
    · have hset : Follows EtwCall.Accepted (fun _ l => requests l = [setInfoCall control
          .traceSystemTraceEnableFlagsInfo ((PerfinfoGroupmask.fromBytes []).setGroups
            b.extendedKernelGroups).asBytes]) noCleanup (request env _ : Etw D _ Unit) :=
        follows_request fun _ => plain_of_setInfoCall
      obtain ⟨a, l, hl⟩ := hset.exists_plan ⟨[], .start⟩
      exact ⟨⟨0, 0, []⟩, a, l, hl⟩
    · rw [win32Result]
      by_cases hstatus : ans.status = errorSuccess
      · rw [if_pos hstatus]
        exact .inl ⟨hstatus, follows_request fun _ => plain_of_setInfoCall⟩
      · rw [if_neg hstatus]
        exact .inr ⟨hstatus, fun w => ⟨⟨_, rfl⟩, rfl⟩⟩

/-! ### What the parts call -/

theorem plain_of_mem_enableRequests {providers : List Provider} {q : EtwCall}
    (h : .ok q ∈ TraceBuilder.enableRequests control providers) : q.Plain := by
  obtain ⟨prov, -, hcall⟩ := List.mem_map.mp h
  exact plain_of_enableProviderCall hcall

theorem plain_of_mem_stackRequests {q : EtwCall} (h : .ok q ∈ b.stackRequests control) :
    q.Plain := by
  rw [TraceBuilder.stackRequests] at h
  split at h
  · cases h
  · exact plain_of_setInfoCall (List.mem_singleton.mp h).symm

theorem plain_of_mem_filterRequests {winEightOrGreater : Bool} {q : EtwCall}
    (h : .ok q ∈ b.filterRequests winEightOrGreater control) : q.Plain := by
  rw [TraceBuilder.filterRequests] at h
  split at h
  · cases List.mem_singleton.mp h
  · exact plain_of_mem_enableRequests h

theorem neutral_of_mem_groupRequests {mask : List UInt8} {q : EtwCall}
    (h : .ok q ∈ b.groupRequests control mask) : q.Neutral := by
  rw [TraceBuilder.groupRequests] at h
  split at h
  · cases h
  · rcases List.mem_cons.mp h with h | h
    · cases h
      exact trivial
    · exact (plain_of_setInfoCall (List.mem_singleton.mp h).symm).neutral

theorem neutral_of_mem_settingRequests {winEightOrGreater : Bool} {mask : List UInt8} {q : EtwCall}
    (h : .ok q ∈ b.settingRequests winEightOrGreater control mask) : q.Neutral := by
  rw [TraceBuilder.settingRequests] at h
  split at h
  · rcases List.mem_append.mp h with h | h
    · rcases List.mem_append.mp h with h | h
      · exact (plain_of_mem_stackRequests h).neutral
      · exact neutral_of_mem_groupRequests h
    · exact (plain_of_mem_filterRequests h).neutral
  · exact (plain_of_mem_enableRequests h).neutral

theorem plain_of_mem_stateRequests {q : EtwCall} (h : .ok q ∈ b.stateRequests control) :
    q.Plain := by
  rw [TraceBuilder.stateRequests] at h
  split at h
  · cases h
  · obtain ⟨prov, -, hcall⟩ := List.mem_map.mp h
    exact plain_of_captureProviderStateCall hcall

theorem eq_of_mem_namesakeRequests {q : EtwCall} (h : .ok q ∈ b.namesakeRequests) :
    ∃ wideName, q = .controlTraceByName wideName eventTraceControlStop := by
  rw [TraceBuilder.namesakeRequests] at h
  split at h
  · split at h
    · cases List.mem_singleton.mp h
    · cases List.mem_singleton.mp h
      exact ⟨_, rfl⟩
  · cases h

/-- Stopping the namesake acquires nothing. -/
theorem undo_of_mem_namesakeRequests {x : EtwCall × EtwAnswer}
    (h : .ok x.1 ∈ b.namesakeRequests) : EtwCall.undo x = none := by
  obtain ⟨q, a⟩ := x
  obtain ⟨wideName, rfl⟩ := eq_of_mem_namesakeRequests h
  rfl

theorem answered_of_mem_namesakeRequests {x : EtwCall × EtwAnswer} {handle : TraceHandle}
    {mask : List UInt8} (h : .ok x.1 ∈ b.namesakeRequests) : Answered control handle mask x := by
  obtain ⟨q, a⟩ := x
  obtain ⟨wideName, rfl⟩ := eq_of_mem_namesakeRequests h
  exact trivial

/-! ### Start -/

/-- **A session is configured as planned.** -/
theorem follows_configure (env : Env EtwCall EtwAnswer) (b : TraceBuilder D)
    (control : ControlHandle) (winEightOrGreater : Bool) :
    Follows EtwCall.Accepted
      (fun _ l => ∃ mask, requests l = b.settingRequests winEightOrGreater control mask ∧
        ∀ handle x, .ok x ∈ l → Answered control handle mask x) noCleanup
      (b.configure env winEightOrGreater control) := by
  rw [TraceBuilder.configure]
  simp only [TraceBuilder.settingRequests]
  cases b.kind with
  | user =>
    refine (follows_enableProviders b.providers).mono fun _ l hl => ⟨[], hl, fun handle x hx => ?_⟩
    have hplain := ok_mem_requests hx
    rw [hl] at hplain
    exact (plain_of_mem_enableRequests hplain).answered control handle []
  | kernel =>
    have hfilters : Follows EtwCall.Accepted
        (fun _ l => requests l = b.filterRequests winEightOrGreater control) noCleanup
        (if !(kernelFilterProviders b.providers).isEmpty && !winEightOrGreater then
          error (.invalidFilter "kernel providers cannot carry event filters before Windows 8")
        else forEach (enableProvider env control) (kernelFilterProviders b.providers) :
          Etw D EvntraceNativeError Unit) := by
      rw [TraceBuilder.filterRequests]
      split
      · exact Follows.error (a := ()) (l := []) rfl
      · exact follows_enableProviders _
    refine ((follows_enableStackTracing b).bind_noCleanup fun _ _ _ =>
      (follows_setExtendedKernelGroups b).bind_noCleanup fun _ _ _ => hfilters).mono ?_
    rintro _ l ⟨_, l₁, _, hstack, ⟨_, l₂, l₃, ⟨mask, hgroups, hmask⟩, hfilter, rfl⟩, rfl⟩
    refine ⟨mask, ?_, fun handle x hx => ?_⟩
    · rw [requests_append, requests_append, hstack, hgroups, hfilter, List.append_assoc]
    · rcases List.mem_append.mp hx with hx | hx
      · have hplain := ok_mem_requests hx
        rw [hstack] at hplain
        exact (plain_of_mem_stackRequests hplain).answered control handle mask
      · rcases List.mem_append.mp hx with hx | hx
        · exact hmask handle x hx
        · have hplain := ok_mem_requests hx
          rw [hfilter] at hplain
          exact (plain_of_mem_filterRequests hplain).answered control handle mask

/-- The namesake, if it is to be stopped. -/
theorem follows_stopNamesake (env : Env EtwCall EtwAnswer) (b : TraceBuilder D) :
    Follows EtwCall.Accepted (fun _ l => requests l = b.namesakeRequests) noCleanup
      (if b.stopIfExist then stopTraceByName env b.name else pure () : Etw D TraceError Unit) := by
  rw [TraceBuilder.namesakeRequests]
  split
  · rw [stopTraceByName]
    cases cStringFromStr b.name with
    | none => exact Follows.error (a := ()) (l := []) rfl
    | some wideName =>
      intro w
      obtain ⟨q, hq⟩ : ∃ q, EtwCall.controlTraceByName wideName eventTraceControlStop = q :=
        ⟨_, rfl⟩
      dsimp only
      rw [controlTraceByName, hq, mapResult, bind_call]
      by_cases hok : (env w.calls q).status = errorSuccess
      · rw [if_pos hok]
        refine ⟨[(q, env w.calls q)], rfl, fun _ _ => ⟨?_, rfl⟩, fun _ h => by cases h⟩
        rintro x hx
        rw [List.mem_singleton.mp hx, ← hq]
        exact .inl (hq ▸ hok)
      · rw [if_neg hok]
        refine ⟨[(q, env w.calls q)], rfl, fun a ha => ⟨fun x hx => ?_, rfl⟩, fun e he => ?_⟩
        · rw [List.mem_singleton.mp hx, ← hq]
          have hstatus : (env w.calls q).status = errorWmiInstanceNotFound := by
            by_contra hne
            dsimp only [Calls.error] at ha
            rw [if_neg hne] at ha
            cases ha
          exact .inr (hq ▸ hstatus)
        · have hrefused : ¬ q.Accepted (env w.calls q) := by
            rw [← hq]
            rintro (hsuccess | hnotFound)
            · exact hok (hq ▸ hsuccess)
            · dsimp only [Calls.error] at he
              rw [if_pos (hq ▸ hnotFound)] at he
              cases he
          exact ⟨[] ++ [(q, env w.calls q)], [], (), [.ok (q, env w.calls q)],
            (List.append_nil _).symm, rfl, .refused rfl (fun _ h => by cases h) hrefused, rfl⟩
  · exact Follows.pure rfl

theorem follows_startTrace (env : Env EtwCall EtwAnswer) (name : List UInt16) (flags : UInt32) :
    Follows EtwCall.Accepted
      (fun control l => control ≠ 0 ∧ ∃ ans, ans.status = errorSuccess ∧ ans.handle = control ∧
        l = [.ok (.startTraceW (truncateAtNul (wideTraceName name)) flags, ans)])
      undoCalls (startTrace env name flags : Etw D EvntraceNativeError ControlHandle) := by
  have hstart : Follows EtwCall.Accepted
      (fun control l => control ≠ 0 ∧ ∃ ans, ans.status = errorSuccess ∧ ans.handle = control ∧
        l = [.ok (.startTraceW (truncateAtNul (wideTraceName name)) flags, ans)])
      noCleanup (startTrace env name flags : Etw D EvntraceNativeError ControlHandle) := by
    rw [startTrace]
    refine Follows.call_bind (fun (ans : EtwAnswer) control l => control ≠ 0 ∧
      ans.status = errorSuccess ∧ ans.handle = control ∧ l = []) ?_
      ⟨⟨0, 1, []⟩, 1, [], by decide, rfl, rfl, rfl⟩ fun ans => ?_
    · rintro ans control l ⟨hcontrol, hstatus, hhandle, rfl⟩
      exact ⟨hcontrol, ans, hstatus, hhandle, rfl⟩
    · split
      · rename_i hstatus
        rw [filterInvalidControlHandle]
        by_cases hzero : ans.handle = 0
        · rw [if_pos hzero]
          exact .inr ⟨fun h => h.2 hzero, fun w => ⟨⟨_, rfl⟩, rfl⟩⟩
        · rw [if_neg hzero]
          exact .inl ⟨⟨hstatus, hzero⟩, Follows.pure ⟨hzero, hstatus, rfl, rfl⟩⟩
      · rename_i hstatus
        refine .inr ⟨fun h => hstatus h.1, fun w => ?_⟩
        split
        · exact ⟨⟨_, rfl⟩, rfl⟩
        · exact ⟨⟨_, rfl⟩, rfl⟩
  refine hstart.cleanup_congr ?_
  rintro control l e done ⟨-, ans, -, -, rfl⟩ hends
  obtain ⟨ans', hrefused, rfl⟩ := hends.of_singleton
  refine (undoCalls_eq_nil fun x hx => ?_).symm
  rw [List.mem_singleton.mp hx]
  exact undo_startTraceW_of_refused hrefused

theorem follows_openTrace (env : Env EtwCall EtwAnswer) (t : Target) (name : List UInt16)
    (data : D) : Follows EtwCall.Accepted
      (fun consumer l => filterInvalidTraceHandles consumer.1 = some consumer.1 ∧
        ∃ ans : EtwAnswer, ans.handle = consumer.1 ∧ l = [.ok (.openTraceW consumer.2 name, ans)])
      noCleanup
      (openTrace env t name data : Etw D EvntraceNativeError (TraceHandle × ℕ)) := by
  rw [openTrace]
  refine Follows.modify_bind fun id => Follows.call_bind
    (fun (ans : EtwAnswer) r l => filterInvalidTraceHandles ans.handle = some ans.handle ∧
      r = (ans.handle, id) ∧ l = []) ?_ ⟨⟨0, 0, []⟩, _, [], rfl, rfl, rfl⟩ fun ans => ?_
  · rintro ans _ l ⟨hvalid, rfl, rfl⟩
    exact ⟨hvalid, ans, rfl, rfl⟩
  · cases hopen : filterInvalidTraceHandles ans.handle with
    | none =>
      refine .inr ⟨fun h => ?_, fun w => ⟨⟨_, rfl⟩, rfl⟩⟩
      rw [show filterInvalidTraceHandles ans.handle = some ans.handle from h] at hopen
      cases hopen
    | some h =>
      obtain rfl := filterInvalidTraceHandles_eq hopen
      exact .inl ⟨hopen, Follows.pure ⟨rfl, rfl, rfl⟩⟩

theorem follows_requestStates (env : Env EtwCall EtwAnswer) (b : TraceBuilder D)
    (control : ControlHandle) : Follows EtwCall.Accepted
      (fun _ l => requests l = b.stateRequests control) noCleanup
      (b.requestStates env control) := by
  rw [TraceBuilder.requestStates, TraceBuilder.stateRequests]
  cases b.kind with
  | kernel => exact Follows.pure rfl
  | user =>
    have heach : ∀ prov : Provider, Follows EtwCall.Accepted (fun _ l => requests l =
        if prov.captureState then [captureProviderStateCall control prov] else [])
        noCleanup (if prov.captureState then captureProviderState env control prov else pure () :
          Etw D EvntraceNativeError Unit) := by
      intro prov
      split
      · exact follows_request fun _ => plain_of_captureProviderStateCall
      · exact Follows.pure rfl
    refine (Follows.forEach heach b.providers).mono fun _ l hl => ?_
    rw [hl]
    induction b.providers with
    | nil => rfl
    | cons prov providers ih =>
      rw [List.flatMap_cons, ih, List.filter_cons]
      split <;> rfl

/-- The guard of a start stops the session. -/
theorem drop_calls (env : Env EtwCall EtwAnswer) (hcontrol : control ≠ 0)
    (w : World EtwCall EtwAnswer (ContextRegistry D)) :
    ∃ new, (StartedSessionGuard.drop env ⟨control, none, false⟩ w).2.calls = w.calls ++ new ∧
      new.map Prod.fst = [stopCall control] := by
  rw [drop_run, controlStop_of_ne_zero hcontrol]
  exact ⟨_, World.called_calls _, rfl⟩

/-- Once there is a consumer, it closes that first. -/
theorem drop_calls_consumer (env : Env EtwCall EtwAnswer) (hcontrol : control ≠ 0)
    {consumer : TraceHandle × ℕ} (hvalid : filterInvalidTraceHandles consumer.1 = some consumer.1)
    (w : World EtwCall EtwAnswer (ContextRegistry D)) :
    ∃ new, (StartedSessionGuard.drop env ⟨control, some consumer, false⟩ w).2.calls =
      w.calls ++ new ∧ new.map Prod.fst = [.closeTrace consumer.1, stopCall control] := by
  obtain ⟨handle, id⟩ := consumer
  rw [drop_run_consumer, Trace.abandon, Trace.closeTrace, hvalid, Origin.controlStop]
  dsimp only [Origin.control]
  rw [controlStop_of_ne_zero hcontrol]
  have hcalls : ∃ a a', (World.called (World.retired (World.called (World.retired w id) env
      (.closeTrace handle)) id) env (stopCall control)).calls =
      w.calls ++ [(.closeTrace handle, a), (stopCall control, a')] := by
    rw [World.called_calls, World.retired_calls, World.called_calls, World.retired_calls,
      List.append_assoc]
    exact ⟨_, _, rfl⟩
  obtain ⟨a, a', hcalls⟩ := hcalls
  exact ⟨_, hcalls, rfl⟩

/-- Exchanges whose calls acquire nothing leave nothing to give back. -/
theorem undoCalls_of_requests {ε : Type} {l : List (Except ε (EtwCall × EtwAnswer))}
    (hneutral : ∀ q, .ok q ∈ requests l → q.Neutral) {done : List (EtwCall × EtwAnswer)}
    (hdone : ∀ x ∈ done, .ok x.1 ∈ requests l) : undoCalls done = [] :=
  undoCalls_eq_nil fun x hx => undo_of_neutral (hneutral x.1 (hdone x hx))

theorem undoCalls_append_of_requests {ε : Type} {l : List (EtwCall × EtwAnswer)}
    (hneutral : ∀ q, .ok q ∈ requests (l.map .ok : List (Except ε (EtwCall × EtwAnswer))) →
      q.Neutral) (done : List (EtwCall × EtwAnswer)) : undoCalls (l ++ done) = undoCalls done := by
  rw [undoCalls_append, undoCalls_of_requests hneutral fun x hx =>
    ok_mem_requests (List.mem_map_of_mem hx), List.append_nil]

/-! ### With the guard -/

/-- A session that could not be configured is stopped. -/
theorem follows_configure_guarded (env : Env EtwCall EtwAnswer) (b : TraceBuilder D)
    (hcontrol : control ≠ 0) (winEightOrGreater : Bool) :
    Follows EtwCall.Accepted
      (fun _ l => ∃ mask, requests l = b.settingRequests winEightOrGreater control mask ∧
        ∀ handle x, .ok x ∈ l → Answered control handle mask x)
      (fun done => undoCalls done ++ [stopCall control])
      (onError (b.configure env winEightOrGreater control)
        (StartedSessionGuard.drop env ⟨control, none, false⟩)) := by
  refine Follows.onError (follows_configure env b control winEightOrGreater) fun w => ?_
  obtain ⟨new, hnew, hcalls⟩ := drop_calls env hcontrol w
  refine ⟨new, hnew, fun _ l e done hl hends => ?_⟩
  obtain ⟨mask, hrequests, -⟩ := hl
  have hneutral : ∀ q, .ok q ∈ requests l → q.Neutral := by
    rw [hrequests]
    exact fun q => neutral_of_mem_settingRequests
  rw [undoCalls_of_requests hneutral fun x => hends.ok_mem_requests]
  exact hcalls

/-- Without a consumer it is stopped, too. -/
theorem follows_openTrace_guarded (env : Env EtwCall EtwAnswer) (t : Target) (name : List UInt16)
    (data : D) (hcontrol : control ≠ 0) : Follows EtwCall.Accepted
      (fun consumer l => filterInvalidTraceHandles consumer.1 = some consumer.1 ∧
        ∃ ans : EtwAnswer, ans.handle = consumer.1 ∧ l = [.ok (.openTraceW consumer.2 name, ans)])
      (fun done => undoCalls done ++ [stopCall control])
      (onError (openTrace env t name data)
        (StartedSessionGuard.drop env ⟨control, none, false⟩)) := by
  refine Follows.onError (follows_openTrace env t name data) fun w => ?_
  obtain ⟨new, hnew, hcalls⟩ := drop_calls env hcontrol w
  refine ⟨new, hnew, fun consumer l e done hl hends => ?_⟩
  obtain ⟨-, ans, -, rfl⟩ := hl
  obtain ⟨ans', hrefused, rfl⟩ := hends.of_singleton
  have hnone : undoCalls [(.openTraceW consumer.2 name, ans')] = [] := by
    refine undoCalls_eq_nil fun x hx => ?_
    rw [List.mem_singleton.mp hx]
    exact undo_openTraceW_of_refused hrefused
  rw [hnone]
  exact hcalls

/-- A consumer that was opened is closed before that. -/
theorem follows_requestStates_guarded (env : Env EtwCall EtwAnswer) (b : TraceBuilder D)
    (hcontrol : control ≠ 0) {consumer : TraceHandle × ℕ}
    (hvalid : filterInvalidTraceHandles consumer.1 = some consumer.1) :
    Follows EtwCall.Accepted (fun _ l => requests l = b.stateRequests control)
      (fun done => undoCalls done ++ [.closeTrace consumer.1, stopCall control])
      (onError (b.requestStates env control)
        (StartedSessionGuard.drop env ⟨control, some consumer, false⟩)) := by
  refine Follows.onError (follows_requestStates env b control) fun w => ?_
  obtain ⟨new, hnew, hcalls⟩ := drop_calls_consumer env hcontrol hvalid w
  refine ⟨new, hnew, fun _ l e done hl hends => ?_⟩
  have hneutral : ∀ q, .ok q ∈ requests l → q.Neutral := by
    rw [hl]
    exact fun q hq => (plain_of_mem_stateRequests hq).neutral
  rw [undoCalls_of_requests hneutral fun x => hends.ok_mem_requests]
  exact hcalls

/-- A trace that is handed over keeps what it has. -/
theorem follows_handOver (cleanup : List (EtwCall × EtwAnswer) → List EtwCall)
    (consumer : TraceHandle × ℕ) : Follows EtwCall.Accepted
      (fun r l => r = (⟨.started control, consumer.1, consumer.2⟩, consumer.1) ∧ l = []) cleanup
      (Calls.bind (attempt (StartedSessionGuard.drop env ⟨control, none, true⟩)) fun _ =>
        pure (⟨.started control, consumer.1, consumer.2⟩, consumer.1) :
          Etw D EvntraceNativeError (Trace × TraceHandle)) := by
  intro w
  refine ⟨[], (List.append_nil w.calls).symm, fun r hr => ⟨fun _ h => (by cases h), ?_, rfl⟩,
    fun _ h => by cases h⟩
  exact (Except.ok.inj hr).symm

/-- **What follows the start of a session goes as planned.** When something goes wrong the session
is stopped, and what was acquired since is given back before that. -/
theorem follows_afterStart (env : Env EtwCall EtwAnswer) (t : Target) (winEightOrGreater : Bool)
    (b : TraceBuilder D) (hcontrol : control ≠ 0) :
    Follows EtwCall.Accepted
      (fun r l => ∃ id mask, r = (⟨.started control, r.2, id⟩, r.2) ∧
        requests l = b.settingRequests winEightOrGreater control mask ++
          .ok (.openTraceW id (traceWideName b.name)) :: b.stateRequests control ∧
        ∀ x, .ok x ∈ l → Answered control r.2 mask x)
      (fun done => undoCalls done ++ [stopCall control])
      (b.afterStart env t winEightOrGreater control) := by
  rw [TraceBuilder.afterStart]
  refine Follows.mono ((follows_configure_guarded env b hcontrol winEightOrGreater).bind
    fun _ l hconfigured => ⟨_, (follows_openTrace_guarded env t _ _ hcontrol).bind
      fun consumer l₁ hopened => ⟨_, (follows_requestStates_guarded env b hcontrol hopened.1).bind
        fun _ l₂ hrequested =>
          ⟨fun done => undoCalls done ++ [.closeTrace consumer.1, stopCall control],
            follows_handOver _ consumer, ?requested⟩, ?opened⟩, ?configured⟩) ?plan
  case configured =>
    rintro l' rfl done
    obtain ⟨mask, hrequests, -⟩ := hconfigured
    rw [undoCalls_append_of_requests (ε := EvntraceNativeError) (fun q hq => ?_) done]
    rw [hrequests] at hq
    exact neutral_of_mem_settingRequests hq
  case requested =>
    rintro l' rfl done
    rw [undoCalls_append_of_requests (ε := EvntraceNativeError) (fun q hq => ?_) done]
    rw [hrequested] at hq
    exact (plain_of_mem_stateRequests hq).neutral
  case opened =>
    rintro l' hl' done
    obtain ⟨hvalid, ans, hhandle, rfl⟩ := hopened
    obtain ⟨x, rfl, hx⟩ := List.map_eq_singleton_iff.mp hl'.symm
    obtain rfl := Except.ok.inj hx
    have hundo : undoCalls [(.openTraceW consumer.2 (traceWideName b.name), ans)] =
        [.closeTrace consumer.1] := by
      rw [← hhandle] at hvalid ⊢
      rw [undoCalls, List.filterMap_cons, undo_openTraceW hvalid]
      rfl
    rw [undoCalls_append, hundo, List.append_assoc]
    rfl
  case plan =>
    rintro r l ⟨_, l₁, _, ⟨mask, hsettings, hmask⟩, ⟨consumer, _, _, ⟨-, ans, hhandle, rfl⟩,
      ⟨_, l₃, _, hstates, ⟨rfl, rfl⟩, rfl⟩, rfl⟩, rfl⟩
    refine ⟨consumer.2, mask, rfl, ?_, fun x hx => ?_⟩
    · rw [requests_append, requests_append, requests_append, hsettings, hstates]
      exact congrArg (_ ++ ·) (congrArg (_ :: ·) (List.append_nil _))
    · rcases List.mem_append.mp hx with hx | hx
      · exact hmask consumer.1 x hx
      rcases List.mem_append.mp hx with hx | hx
      · obtain rfl := Except.ok.inj (List.mem_singleton.mp hx)
        exact hhandle
      · rw [List.append_nil] at hx
        have hplain := ok_mem_requests hx
        rw [hstates] at hplain
        exact (plain_of_mem_stateRequests hplain).answered control consumer.1 mask

/-- **So does the start of a session.** -/
theorem follows_session (env : Env EtwCall EtwAnswer) (t : Target) (winEightOrGreater : Bool)
    (b : TraceBuilder D) : Follows EtwCall.Accepted
      (fun r l => ∃ control id mask, r = (⟨.started control, r.2, id⟩, r.2) ∧
        requests l = b.sessionRequests winEightOrGreater control id mask ∧
        ∀ x, .ok x ∈ l → Answered control r.2 mask x) undoCalls
      (Calls.bind (startTrace env (traceWideName b.name) b.providerFlags) fun control =>
        b.afterStart env t winEightOrGreater control) := by
  refine Follows.mono ((follows_startTrace env _ _).bind fun control l hstarted =>
    ⟨_, follows_afterStart env t winEightOrGreater b hstarted.1, ?started⟩) ?plan
  case started =>
    intro l' hl' done
    obtain ⟨hcontrol, ans, hstatus, hhandle, rfl⟩ := hstarted
    obtain ⟨x, rfl, hx⟩ := List.map_eq_singleton_iff.mp hl'.symm
    obtain rfl := Except.ok.inj hx
    have hundo : undoCalls [(.startTraceW (truncateAtNul (wideTraceName (traceWideName b.name)))
        b.providerFlags, ans)] = [stopCall control] := by
      rw [← hhandle] at hcontrol ⊢
      rw [undoCalls, List.filterMap_cons, undo_startTraceW ⟨hstatus, hcontrol⟩]
      rfl
    rw [undoCalls_append, hundo]
  case plan =>
    rintro r l ⟨control, _, l', ⟨-, ans, -, hhandle, rfl⟩, ⟨id, mask, hr, hrequests, hall⟩, rfl⟩
    refine ⟨control, id, mask, hr, ?_, fun x hx => ?_⟩
    · rw [requests_append, hrequests]
      rfl
    · rcases List.mem_append.mp hx with hx | hx
      · obtain rfl := Except.ok.inj (List.mem_singleton.mp hx)
        exact hhandle
      · exact hall x hx

/-- **A start follows its plan.** When it succeeds, its calls are those of the plan for the handles
that `StartTraceW` and `OpenTraceW` answered with, in order, each was answered acceptably, and the
trace has these handles. When it fails, it made the calls of a plan up to the one that was refused,
or that could not be made, and then the calls that give back what it had acquired, and no other:
`CloseTrace` for the consumer, if there is one, and the stop for the session, if there is one. -/
theorem start_follows_plan (env : Env EtwCall EtwAnswer) (t : Target) (winEightOrGreater : Bool)
    (b : TraceBuilder D) : Follows EtwCall.Accepted
      (fun r l => ∃ control id mask, r = (⟨.started control, r.2, id⟩, r.2) ∧
        requests l = b.plan winEightOrGreater control id mask ∧
        ∀ x, .ok x ∈ l → Answered control r.2 mask x)
      undoCalls (b.start env t winEightOrGreater) := by
  have hsession : Follows EtwCall.Accepted
      (fun r l => ∃ control id mask, r = (⟨.started control, r.2, id⟩, r.2) ∧
        requests l = (b.sessionRequests winEightOrGreater control id mask).map intoTraceError ∧
        ∀ x, .ok x ∈ l → Answered control r.2 mask x) undoCalls
      (mapResult intoTraceError <|
        Calls.bind (startTrace env (traceWideName b.name) b.providerFlags) fun control =>
          b.afterStart env t winEightOrGreater control) := by
    refine (follows_session env t winEightOrGreater b).mapResult (h := id)
      (k := TraceError.etwNativeError) (fun _ => rfl) (fun _ => rfl) ?_
    rintro r l ⟨control, id, mask, hr, hrequests, hall⟩
    refine ⟨control, id, mask, hr, ?_, fun x hx => hall x (ok_mem_of_map_mapError hx)⟩
    rw [requests_map_mapError, hrequests]
    exact List.map_congr_left fun x _ => by cases x <;> rfl
  have hnamesake : Follows EtwCall.Accepted (fun _ l => requests l = b.namesakeRequests) undoCalls
      (if b.stopIfExist then stopTraceByName env b.name else pure () : Etw D TraceError Unit) :=
    (follows_stopNamesake env b).cleanup_congr fun _ l e done hl hends =>
      (undoCalls_eq_nil fun x hx =>
        undo_of_mem_namesakeRequests (hl ▸ hends.ok_mem_requests hx)).symm
  refine (hnamesake.bind fun _ l hl => ⟨undoCalls, hsession, ?_⟩).mono ?_
  · rintro l' rfl done
    have hnone : undoCalls l' = [] := undoCalls_eq_nil fun x hx =>
      undo_of_mem_namesakeRequests (hl ▸ ok_mem_requests (List.mem_map_of_mem hx))
    rw [undoCalls_append, hnone, List.append_nil]
  · rintro r l ⟨_, l₁, l₂, hl₁, ⟨control, id, mask, hr, hrequests, hall⟩, rfl⟩
    refine ⟨control, id, mask, hr, ?_, fun x hx => ?_⟩
    · rw [requests_append, hl₁, hrequests, TraceBuilder.plan]
    · rcases List.mem_append.mp hx with hx | hx
      · exact answered_of_mem_namesakeRequests (hl₁ ▸ ok_mem_requests hx)
      · exact hall x hx

end Ferrisetw2
