import Ferrisetw2.Native.KernelSettings
import Ferrisetw2.Trace.Start

/-!
# The settings a start leaves behind

A kernel session is given its call stacks and its extended groups between `StartTraceW` and
`OpenTraceW`. Windows has given it the groups of its enable flags by then, and these it keeps: the
groups of the builder come on top. The calls around that change no settings, and no call changes
those of another session, whether the start succeeds or not. `trace.rs`.

## Main definitions

* `TraceBuilder.settings` — what a builder makes of the settings of its session

## Main results

* `ensures_configure`, `ensures_afterStart` — the settings after each part of a start
* `start_settings` — **a start gives its session the settings of its builder, and touches no other**
-/

namespace Ferrisetw2

open Rust Calls

variable {D : Type} {env : Env EtwCall EtwAnswer} {fresh : UInt32 → KernelSettings}
  {initial s : Settings} {control : ControlHandle}

/-! ### Calls that change no settings -/

theorem EtwCall.unset_of_enableProviderCall {prov : Provider} {q : EtwCall}
    (h : enableProviderCall control prov = .ok q) : q.Unset := by
  rw [enableProviderCall] at h
  split at h
  · cases h
  · obtain ⟨descriptors, -, hok⟩ := bind_eq_ok_iff.mp h
    cases hok
    exact trivial

theorem EtwCall.unset_of_captureProviderStateCall {prov : Provider} {q : EtwCall}
    (h : captureProviderStateCall control prov = .ok q) : q.Unset := by
  rw [captureProviderStateCall] at h
  split at h
  · cases h
  · cases h
    exact trivial

theorem EtwCall.unset_of_controlTraceCall {code : UInt32} {q : EtwCall}
    (h : controlTraceCall control code = .ok q) : q.Unset := by
  rw [controlTraceCall] at h
  split at h
  · cases h
  · cases h
    exact trivial

/-- A wrapper whose call changes no settings. -/
theorem unset_request {c : Except EvntraceNativeError EtwCall}
    (hc : ∀ q, c = .ok q → q.Unset) :
    Makes EtwCall.Unset (request env c : Etw D EvntraceNativeError Unit) :=
  (within_request hc).makes fun _ => id

theorem unset_enableProviders (providers : List Provider) :
    Makes EtwCall.Unset (forEach (enableProvider env control) providers : Etw D _ _) := by
  have heach : ∀ prov, Within EtwCall.Unset (enableProvider env control prov : Etw D _ _) :=
    fun prov => within_request fun _ => EtwCall.unset_of_enableProviderCall
  exact (Within.forEach heach providers).makes fun _ => id

theorem unset_requestStates (env : Env EtwCall EtwAnswer) (b : TraceBuilder D)
    (control : ControlHandle) : Makes EtwCall.Unset (b.requestStates env control) := by
  rw [TraceBuilder.requestStates]
  split
  · exact Makes.pure ()
  · have heach : ∀ prov : Provider, Within EtwCall.Unset
        (if prov.captureState then captureProviderState env control prov else pure () :
          Etw D EvntraceNativeError Unit) := by
      intro prov
      split
      · exact within_request fun _ => EtwCall.unset_of_captureProviderStateCall
      · exact Within.pure ()
    exact (Within.forEach heach b.providers).makes fun _ => id

theorem unset_closeTrace (traceHandle : TraceHandle) (context : ℕ) :
    Makes EtwCall.Unset (closeTrace env traceHandle context : Etw D _ _) := by
  rw [closeTrace]
  split
  · exact Makes.error _
  · refine Makes.bind (Makes.modify _) fun _ => Makes.bind (Makes.call env trivial) fun answer => ?_
    split
    · exact Makes.pure _
    · split
      · exact Makes.pure _
      · exact Makes.error _

/-- What a guard does changes no settings. -/
theorem unset_drop (guard : StartedSessionGuard) :
    Makes EtwCall.Unset (guard.drop env : Etw D Empty Unit) := by
  rw [StartedSessionGuard.drop]
  split
  · exact Makes.pure _
  · have hstop : Makes EtwCall.Unset
        (controlTrace env guard.controlHandle eventTraceControlStop : Etw D _ _) :=
      unset_request fun _ => EtwCall.unset_of_controlTraceCall
    refine Makes.bind ?_ fun _ => Makes.bind hstop.mapResult fun _ => Makes.pure _
    split
    · exact Makes.pure _
    · exact Makes.bind (unset_closeTrace _ _).mapResult fun _ => Makes.modify _

theorem unset_openTrace (t : Target) (name : List UInt16) (data : D) :
    Makes EtwCall.Unset (openTrace env t name data) := by
  refine Makes.bind (Makes.modify _) fun id => Makes.bind (Makes.call env trivial) fun answer => ?_
  split
  · exact Makes.bind (Makes.modify _) fun _ => Makes.error _
  · exact Makes.pure _

theorem StopsNamesake.unset {b : TraceBuilder D} {y : EtwCall × EtwAnswer}
    (h : StopsNamesake b y) : y.1.Unset := by
  obtain ⟨-, wideName, -, hstop⟩ := h
  rw [hstop]
  exact trivial

/-! ### The parts of a start -/

/-- What a builder makes of the settings of its session. -/
def TraceBuilder.settings (b : TraceBuilder D) (k : KernelSettings) : KernelSettings :=
  match b.kind with
  | .kernel => (k.trace b.stackTracingEvents).grant b.extendedKernelGroups
  | .user => k

/-- The settings of every session but one are these. -/
def OthersAre (fresh : UInt32 → KernelSettings) (initial s : Settings) (control : ControlHandle)
    (w : World EtwCall EtwAnswer (ContextRegistry D)) : Prop :=
  ∀ h, h ≠ control → settingsAfter fresh initial w.calls h = s h

theorem SettingsAre.othersAre {k : KernelSettings}
    {w : World EtwCall EtwAnswer (ContextRegistry D)}
    (h : SettingsAre fresh initial (Function.update s control k) w) :
    OthersAre fresh initial s control w := by
  intro other hother
  rw [show settingsAfter fresh initial w.calls = Function.update s control k from h,
    Function.update_of_ne hother]

theorem SettingsAre.others {w : World EtwCall EtwAnswer (ContextRegistry D)}
    (h : SettingsAre fresh initial s w) (control : ControlHandle) :
    OthersAre fresh initial s control w := fun other _ => congrFun h other

/-- A program that changes no settings leaves those of the others alone. -/
theorem othersAre_of_unset {ε α : Type} {x : Etw D ε α} (hx : Makes EtwCall.Unset x)
    (w : World EtwCall EtwAnswer (ContextRegistry D)) (h : OthersAre fresh initial s control w) :
    OthersAre fresh initial s control (x w).2 := by
  obtain ⟨l, hl, hunset⟩ := hx w
  intro other hother
  rw [hl, settingsAfter_of_unset w.calls l hunset]
  exact h other hother

/-- **A session is given the settings of its builder.** -/
theorem ensures_configure (htells : TellsGroups env fresh initial) {b : TraceBuilder D}
    (winEightOrGreater : Bool) :
    Ensures (SettingsAre fresh initial s) (b.configure env winEightOrGreater control)
      (fun _ => SettingsAre fresh initial
        (Function.update s control (b.settings (s control))))
      (OthersAre fresh initial s control) := by
  rw [TraceBuilder.configure, TraceBuilder.settings]
  have hkeeps : ∀ {k : KernelSettings} {x : Etw D EvntraceNativeError Unit},
      Makes EtwCall.Unset x → Ensures (SettingsAre fresh initial (Function.update s control k)) x
        (fun _ => SettingsAre fresh initial (Function.update s control k))
        (OthersAre fresh initial s control) := fun hx =>
    (ensures_of_unset hx).mono (fun _ => id) (fun _ _ => id) fun _ => SettingsAre.othersAre
  cases b.kind with
  | user =>
    refine (hkeeps (unset_enableProviders b.providers)).mono (fun w hw => ?_) (fun _ _ => id)
      fun _ => id
    rwa [Function.update_eq_self]
  | kernel =>
    have hgrant : ∀ k : KernelSettings,
        Ensures (SettingsAre fresh initial (Function.update s control k))
          (setExtendedKernelGroups env control b.extendedKernelGroups :
            Etw D EvntraceNativeError Unit)
          (fun _ => SettingsAre fresh initial
            (Function.update s control (k.grant b.extendedKernelGroups)))
          (OthersAre fresh initial s control) := by
      intro k
      refine (ensures_setExtendedKernelGroups htells _).mono (fun _ => id) (fun _ w hw => ?_)
        fun _ => SettingsAre.othersAre
      rwa [Function.update_self, Function.update_idem] at hw
    refine Ensures.bind ((ensures_enableStackTracing _).mono (fun _ => id) (fun _ _ => id)
      fun _ hw => SettingsAre.others hw control) fun _ => Ensures.bind (hgrant _) fun _ => ?_
    dsimp only
    split
    · exact Ensures.error fun _ => SettingsAre.othersAre
    · exact hkeeps (unset_enableProviders _)

/-- **What follows the start of a session configures it**, and changes no settings after that. -/
theorem ensures_afterStart (htells : TellsGroups env fresh initial) {b : TraceBuilder D}
    (t : Target) (winEightOrGreater : Bool) :
    Ensures (SettingsAre fresh initial s) (b.afterStart env t winEightOrGreater control)
      (fun r w => r.1.origin = .started control ∧
        SettingsAre fresh initial (Function.update s control (b.settings (s control))) w)
      (OthersAre fresh initial s control) := by
  rw [TraceBuilder.afterStart]
  have hguard : ∀ (guard : StartedSessionGuard) (w : World EtwCall EtwAnswer (ContextRegistry D)),
      OthersAre fresh initial s control w →
        OthersAre fresh initial s control (guard.drop env w).2 := fun guard =>
    othersAre_of_unset (unset_drop guard)
  have hkeeps : ∀ {α : Type} {k : KernelSettings} {x : Etw D EvntraceNativeError α},
      Makes EtwCall.Unset x → Ensures (SettingsAre fresh initial (Function.update s control k)) x
        (fun _ => SettingsAre fresh initial (Function.update s control k))
        (OthersAre fresh initial s control) := fun hx =>
    (ensures_of_unset hx).mono (fun _ => id) (fun _ _ => id) fun _ => SettingsAre.othersAre
  refine Ensures.bind ((ensures_configure htells winEightOrGreater).onError (hguard _))
    fun _ => ?_
  refine Ensures.bind ((hkeeps (unset_openTrace t _ _)).onError (hguard _)) fun consumer => ?_
  refine Ensures.bind ((hkeeps (unset_requestStates env b control)).onError (hguard _)) fun _ => ?_
  exact Ensures.bind (hkeeps (unset_drop _).mapResult) fun _ => Ensures.pure fun w hw => ⟨rfl, hw⟩

/-! ### Start -/

/-- **The settings a start leaves behind.** If it comes to no session, it changes no settings. The
session that `StartTraceW` gave it is otherwise the only one whose settings change, whether the
start succeeds or not. The session of a trace that was started has the groups of its enable flags
and those of its builder, and call stacks for the events of its builder, if there are any; a user
trace gives its session none. -/
theorem start_settings (htells : TellsGroups env fresh initial) {b : TraceBuilder D}
    (t : Target) (winEightOrGreater : Bool) (w : World EtwCall EtwAnswer (ContextRegistry D)) :
    let before := settingsAfter fresh initial w.calls
    let r := b.start env t winEightOrGreater w
    let after := settingsAfter fresh initial r.2.calls
    ∃ new, r.2.calls = w.calls ++ new ∧
      ((∀ x ∈ new, ¬ Starts x) ∧ (∃ e, r.1 = .error e) ∧ after = before ∨
        ∃ control since, StartedWith b new control since ∧ (∀ h, h ≠ control → after h = before h) ∧
          ∀ tr handle, r.1 = .ok (tr, handle) → tr.origin = .started control ∧
            let first := fresh b.providerFlags
            (b.kind = .user → after control = first) ∧
            (b.kind = .kernel →
              (after control).groupmask.enabled =
                first.groupmask.enabled ∪ ⋃ g ∈ b.extendedKernelGroups, groupBits g ∧
              (after control).stackTracing =
                if b.stackTracingEvents = [] then first.stackTracing
                else b.stackTracingEvents)) := by
  intro before r after
  obtain ⟨earlier, hearlier, hcases⟩ := start_cases env t winEightOrGreater b w
  have hnone : ∀ x ∈ earlier, ¬ Starts x := fun x hx => (hearlier x hx).not_starts
  have hkept : settingsAfter fresh initial (w.calls ++ earlier) = before :=
    settingsAfter_of_unset w.calls earlier fun x hx => (hearlier x hx).unset
  rcases hcases with ⟨e, hrun⟩ | ⟨name, a, -, hcases⟩
  · refine ⟨earlier, congrArg (·.2.calls) hrun, .inl ⟨hnone, ⟨e, congrArg Prod.fst hrun⟩, ?_⟩⟩
    exact (congrArg (settingsAfter fresh initial ·.2.calls) hrun).trans hkept
  -- what Windows makes of the settings when it answers
  have hcalled : settingsAfter fresh initial
      (w.calls ++ (earlier ++ [(.startTraceW name b.providerFlags, a)])) =
      before.called fresh (.startTraceW name b.providerFlags, a) := by
    rw [← List.append_assoc, settingsAfter_append, hkept]
    rfl
  rcases hcases with ⟨hrefused, e, hrun⟩ | ⟨⟨hstatus, hhandle⟩, hrun⟩
  · have hafter : after = before.called fresh (.startTraceW name b.providerFlags, a) :=
      (congrArg (settingsAfter fresh initial ·.2.calls) hrun).trans hcalled
    have herror : r.1 = .error e := congrArg Prod.fst hrun
    rw [Settings.called] at hafter
    refine ⟨_, congrArg (·.2.calls) hrun, ?_⟩
    by_cases hstatus : a.status = errorSuccess
    · -- Windows has started a session, and gave it no handle
      rw [if_pos hstatus] at hafter
      refine .inr ⟨a.handle, [], ⟨earlier, _, rfl, ⟨⟨_, _, rfl⟩, hstatus⟩, rfl, hearlier,
        fun _ h => by cases h⟩, fun h hne => ?_, fun tr handle hr => ?_⟩
      · rw [hafter]
        exact Function.update_of_ne hne _ _
      · rw [herror] at hr
        cases hr
    · rw [if_neg hstatus] at hafter
      refine .inl ⟨fun x hx => ?_, ⟨e, herror⟩, hafter⟩
      rcases List.mem_append.mp hx with hx | hx
      · exact hnone x hx
      · rw [List.mem_singleton.mp hx]
        exact fun h => hstatus h.2
  · let given := Function.update before a.handle (fresh b.providerFlags)
    let began : World EtwCall EtwAnswer (ContextRegistry D) :=
      ⟨w.calls ++ (earlier ++ [(.startTraceW name b.providerFlags, a)]), w.state⟩
    have hgiven : SettingsAre fresh initial given began := by
      rw [Settings.called, if_pos hstatus] at hcalled
      exact hcalled
    obtain ⟨since, hcalls, hends⟩ := ends_afterStart env (b := b) (w := began) hhandle t
      winEightOrGreater
    obtain ⟨hok, herr⟩ := ensures_afterStart htells t winEightOrGreater began hgiven
    have hothers : OthersAre fresh initial given a.handle
        (b.afterStart env t winEightOrGreater a.handle began).2 := by
      cases hr : (b.afterStart env t winEightOrGreater a.handle began).1 with
      | error e => exact herr e hr
      | ok started => exact SettingsAre.othersAre (hok started hr).2
    have hafter : after = settingsAfter fresh initial
        (b.afterStart env t winEightOrGreater a.handle began).2.calls :=
      congrArg (settingsAfter fresh initial ·.2.calls) hrun
    refine ⟨earlier ++ (.startTraceW name b.providerFlags, a) :: since, ?_, .inr ⟨a.handle, since,
      ⟨earlier, _, rfl, ⟨⟨_, _, rfl⟩, hstatus⟩, rfl, hearlier, hends.not_starts⟩,
      fun h hne => ?_, fun tr handle hr => ?_⟩⟩
    · rw [show r.2.calls = (b.afterStart env t winEightOrGreater a.handle began).2.calls from
        congrArg (·.2.calls) hrun, hcalls, List.append_assoc, List.append_assoc]
      rfl
    · rw [hafter, hothers h hne]
      exact Function.update_of_ne hne _ _
    · obtain ⟨horigin, hw⟩ := hok _ (intoTraceError_eq_ok_iff.mp
        ((congrArg Prod.fst hrun).symm.trans hr))
      have hfirst : given a.handle = fresh b.providerFlags := Function.update_self ..
      have hcontrol : after a.handle = b.settings (fresh b.providerFlags) := by
        rw [show after = Function.update given a.handle (b.settings (given a.handle)) from
          hafter.trans hw, Function.update_self, hfirst]
      refine ⟨horigin, fun hkind => ?_, fun hkind => ?_⟩
      · rw [hcontrol, TraceBuilder.settings, hkind]
      · rw [hcontrol, TraceBuilder.settings, hkind]
        exact ⟨KernelSettings.enabled_grant _ _ _, KernelSettings.stackTracing_grant _ _ _⟩

/-- The settings of a session that has its enable flags only. -/
def flagsOnly (flags : UInt32) : KernelSettings := ⟨⟨flags :: List.replicate 7 0⟩, rfl, []⟩

/-- Windows, agreeing to everything. -/
def agree (calls : List (EtwCall × EtwAnswer)) : EtwCall → EtwAnswer
  | .startTraceW _ _ => ⟨0, 7, []⟩
  | .openTraceW _ _ => ⟨0, 3, []⟩
  | .traceQueryInformation control _ _ =>
    ⟨0, 0, (settingsAfter flagsOnly (fun _ => flagsOnly 0) calls control).groupmask.asBytes⟩
  | _ => ⟨0, 0, []⟩

/-- A kernel trace, of two groups and the call stacks of one event. -/
def groupsBuilder : TraceBuilder Unit :=
  { rundownBuilder with
    kind := .kernel
    providers := []
    stackTracingEvents := [⟨.ofFields 1 0 0 (List.replicate 8 0), 51⟩]
    extendedKernelGroups := [0x20000001, 0x80000040] }

/-- The session that is given the groups and the call stacks is the one of `StartTraceW`. -/
theorem start_settings_groups :
    let r := groupsBuilder.start agree ⟨.b64, true⟩ true ⟨[], .start⟩
    let after := settingsAfter flagsOnly (fun _ => flagsOnly 0) r.2.calls
    r.1 = .ok (⟨.started 7, 3, 1⟩, 3) ∧ (∀ h, h ≠ 7 → after h = flagsOnly 0) ∧
      (after 7).groupmask.enabled = (flagsOnly 0).groupmask.enabled ∪
        ⋃ g ∈ groupsBuilder.extendedKernelGroups, groupBits g ∧
      (after 7).stackTracing = groupsBuilder.stackTracingEvents := by
  intro r after
  have hr : r.1 = .ok (⟨.started 7, 3, 1⟩, 3) := rfl
  have htells : TellsGroups agree flagsOnly (fun _ => flagsOnly 0) := fun _ _ _ => rfl
  obtain ⟨new, -, ⟨-, ⟨e, herror⟩, -⟩ | ⟨control, since, -, hothers, hdone⟩⟩ :=
    start_settings htells (b := groupsBuilder) ⟨.b64, true⟩ true ⟨[], .start⟩
  · cases hr.symm.trans herror
  · obtain ⟨horigin, -, hkernel⟩ := hdone _ _ hr
    obtain rfl := Origin.started.inj horigin
    obtain ⟨hgroups, hstacks⟩ := hkernel rfl
    exact ⟨hr, hothers, hgroups, hstacks⟩

end Ferrisetw2
