import Ferrisetw2.Trace.Lifetime

/-!
# Handles of other traces

A trace that is stopped or closed is released once by the call, and again by the drop that follows.
In between Windows can give its handles to another trace, whose consumer is then closed, or whose
session is then stopped.

## Main definitions

* `TracePc.HoldsConsumer`, `TracePc.HoldsSession` — values an actor will release
* `Harmless` — a release does not hit another trace
* `Reissues` — Windows hands out a value that another actor will release
* `GetsTo` — an actor can get to a release without another value being handed out

## Main results

* `disjoint_step` — a step that reissues nothing keeps releases apart
* `exists_harm_of_reissue` — after a reissue, a release can do harm
* `harmless_iff_of_meets` — until the first, none does
* `not_harmless` — two traces, one of which is stopped
-/

namespace Ferrisetw2

open Rust Interleaving

variable {T D : Type}

/-- The actor has yet to close this consumer handle. -/
def TracePc.HoldsConsumer (h : TraceHandle) : TracePc D → Prop
  | .opened tr | .live tr => tr.traceHandle = h
  | .ending _ todo => .closeTrace h ∈ todo
  | _ => False

/-- The actor has yet to stop this session. -/
def TracePc.HoldsSession (control : ControlHandle) : TracePc D → Prop
  | .ready origin | .minted origin _ _ | .registered origin _ => origin = .started control
  | .opened tr | .live tr => tr.origin = .started control
  | .ending _ todo => .stop control ∈ todo
  | _ => False

/-- The next release does not hit a handle that belongs to another trace. -/
def Harmless (c : Config T (TraceSystem T D) (TracePc D)) (u : T) : Prop :=
  ∀ context r todo, c.pc u = .ending context (r :: todo) →
    match r with
    | .retire _ => True
    | .closeTrace h => ∀ v, c.shared.consumers h = some v → v = u
    | .stop control => ∀ v, c.shared.sessions control = some v → v = u

/-- Windows hands out a value that another actor has yet to release. -/
def Reissues (c : Config T (TraceSystem T D) (TracePc D)) (u : T) : TraceStep D → Prop
  | .openTraceW h =>
    (filterInvalidTraceHandles h).isSome ∧ ∃ v, v ≠ u ∧ (c.pc v).HoldsConsumer h
  | .startTraceW control => ∃ v, v ≠ u ∧ (c.pc v).HoldsSession control
  | _ => False

/-- What an actor has yet to release belongs to it, or to nobody. -/
structure Disjoint (c : Config T (TraceSystem T D) (TracePc D)) : Prop where
  consumers : ∀ u h, (c.pc u).HoldsConsumer h → ∀ v, c.shared.consumers h = some v → v = u
  sessions : ∀ u control, (c.pc u).HoldsSession control →
    ∀ v, c.shared.sessions control = some v → v = u

theorem Disjoint.harmless {c : Config T (TraceSystem T D) (TracePc D)} (hd : Disjoint c) (u : T) :
    Harmless c u := by
  intro context r todo hpc
  cases r with
  | retire _ => exact trivial
  | closeTrace h => exact hd.consumers u h (hpc ▸ List.mem_cons_self)
  | stop control => exact hd.sessions u control (hpc ▸ List.mem_cons_self)

/-! ### What releases contain -/

theorem closeTrace_notMem_controlStop (origin : Origin) (h : TraceHandle) :
    .closeTrace h ∉ origin.controlStop := by
  have hstop : ∀ control, .closeTrace h ∉ controlStop control := by
    intro control
    rw [controlStop]
    split <;> simp
  cases origin with
  | started control => exact hstop control
  | existing => exact hstop 0
  | file => exact List.not_mem_nil

theorem eq_of_stop_mem_controlStop {origin : Origin} {control : ControlHandle}
    (h : .stop control ∈ origin.controlStop) : origin = .started control := by
  have hstop : ∀ c, .stop control ∈ controlStop c → c = control ∧ c ≠ 0 := by
    intro c hc
    rw [controlStop] at hc
    split at hc
    · cases hc
    · rename_i heq
      obtain ⟨hne, rfl⟩ := filterInvalidControlHandle_eq_some_iff.mp heq
      exact ⟨(Release.stop.inj (List.mem_singleton.mp hc)).symm, hne⟩
  cases origin with
  | started c => rw [(hstop c h).1]
  | existing => exact absurd rfl (hstop 0 h).2
  | file => cases h

theorem stop_mem_controlStop {control : ControlHandle} (h : control ≠ 0) :
    .stop control ∈ (Origin.started control).controlStop := by
  show .stop control ∈ controlStop control
  rw [controlStop_of_ne_zero h]
  exact List.mem_cons_self

namespace Trace

variable {tr : Trace} {h : TraceHandle} {control : ControlHandle}

theorem eq_of_closeTrace_mem_closeTrace (hmem : .closeTrace h ∈ tr.closeTrace) :
    tr.traceHandle = h := by
  rw [closeTrace] at hmem
  split at hmem
  · cases hmem
  · rename_i heq
    rw [← filterInvalidTraceHandles_eq heq]
    simpa [eq_comm] using hmem

theorem closeTrace_mem_drop (hvalid : (filterInvalidTraceHandles tr.traceHandle).isSome) :
    .closeTrace tr.traceHandle ∈ tr.drop := by
  obtain ⟨h, hfilter⟩ := Option.isSome_iff_exists.mp hvalid
  refine List.mem_append_left _ (List.mem_append_left _ ?_)
  rw [closeTrace, hfilter, filterInvalidTraceHandles_eq hfilter]
  exact List.mem_cons_of_mem _ List.mem_cons_self

theorem stop_mem_drop (horigin : tr.origin = .started control) (hvalid : control ≠ 0) :
    .stop control ∈ tr.drop := by
  refine List.mem_append_left _ (List.mem_append_right _ ?_)
  rw [horigin]
  exact stop_mem_controlStop hvalid

theorem stop_notMem_closeTrace : .stop control ∉ tr.closeTrace := by
  rw [closeTrace]
  split <;> simp

/-- A trace closes its own consumer only. -/
theorem Releases.traceHandle_eq {todo : List Release} (htodo : tr.Releases todo)
    (hmem : .closeTrace h ∈ todo) : tr.traceHandle = h := by
  rcases htodo.mem hmem with hmem | hmem | heq
  · exact eq_of_closeTrace_mem_closeTrace hmem
  · exact absurd hmem (closeTrace_notMem_controlStop _ _)
  · cases heq

/-- A trace stops its own session only. -/
theorem Releases.origin_eq {todo : List Release} (htodo : tr.Releases todo)
    (hmem : .stop control ∈ todo) : tr.origin = .started control := by
  rcases htodo.mem hmem with hmem | hmem | heq
  · exact absurd hmem stop_notMem_closeTrace
  · exact eq_of_stop_mem_controlStop hmem
  · cases heq

end Trace

/-! ### Steps -/

variable {t : Target} {s s' : TraceSystem T D} {u : T} {pc pc' : TracePc D} {i : TraceStep D}

/-- A value that belongs to somebody after an update did before, or was given away by it. -/
theorem eq_some_of_update {f : UInt64 → Option T} {x y : UInt64} {o : Option T} {v : T}
    (h : Function.update f x o y = some v) : f y = some v ∨ y = x ∧ o = some v := by
  by_cases hy : y = x
  · rw [hy, Function.update_self] at h
    exact .inr ⟨hy, h⟩
  · rw [Function.update_of_ne hy] at h
    exact .inl h

/-- A value that belongs to somebody after another was given back did before. -/
theorem eq_some_of_update_none {f : UInt64 → Option T} {x y : UInt64} {v : T}
    (h : Function.update f x none y = some v) : f y = some v := by
  rcases eq_some_of_update h with h | ⟨-, h⟩
  · exact h
  · cases h

/-- A release gives handles back, and takes none. -/
theorem releaseAct_handles (s : TraceSystem T D) (r : Release) (done : Bool) :
    (∀ h v, (releaseAct s done r).consumers h = some v → s.consumers h = some v) ∧
      ∀ control v, (releaseAct s done r).sessions control = some v →
        s.sessions control = some v := by
  cases r with
  | retire _ => exact ⟨fun _ _ hv => hv, fun _ _ hv => hv⟩
  | closeTrace h =>
    rw [releaseAct]
    split
    · exact ⟨fun _ _ hv => eq_some_of_update_none hv, fun _ _ hv => hv⟩
    · exact ⟨fun _ _ hv => hv, fun _ _ hv => hv⟩
  | stop control =>
    rw [releaseAct]
    split
    · exact ⟨fun _ _ hv => hv, fun _ _ hv => eq_some_of_update_none hv⟩
    · exact ⟨fun _ _ hv => hv, fun _ _ hv => hv⟩

/-- What a step of an actor does to handles: opening and starting alone take them, and with them
comes the duty to release them. -/
structure Takes (u : T) (s s' : TraceSystem T D) (pc pc' : TracePc D) (i : TraceStep D) : Prop where
  consumers : ∀ h v, s'.consumers h = some v → s.consumers h = some v ∨
    i = .openTraceW h ∧ (filterInvalidTraceHandles h).isSome ∧ v = u
  sessions : ∀ control v, s'.sessions control = some v → s.sessions control = some v ∨
    i = .startTraceW control ∧ control ≠ 0 ∧ v = u
  holdsConsumer : ∀ h, pc'.HoldsConsumer h → pc.HoldsConsumer h ∨ s'.consumers h = some u
  holdsSession : ∀ control, pc'.HoldsSession control →
    pc.HoldsSession control ∨ s'.sessions control = some u

/-- Handles that are not taken. -/
theorem Takes.of_eq (hconsumers : s'.consumers = s.consumers) (hsessions : s'.sessions = s.sessions)
    (hholdsConsumer : ∀ h, pc'.HoldsConsumer h → pc.HoldsConsumer h)
    (hholdsSession : ∀ control, pc'.HoldsSession control → pc.HoldsSession control) :
    Takes u s s' pc pc' i where
  consumers _ _ hv := .inl (hconsumers ▸ hv)
  sessions _ _ hv := .inl (hsessions ▸ hv)
  holdsConsumer h hh := .inl (hholdsConsumer h hh)
  holdsSession control hh := .inl (hholdsSession control hh)

/-- A trace that is being released holds the handles it held. -/
theorem Takes.of_releases (tr : Trace) {todo : List Release} (htodo : tr.Releases todo)
    (hconsumer : ∀ h, tr.traceHandle = h → pc.HoldsConsumer h)
    (hsession : ∀ control, tr.origin = .started control → pc.HoldsSession control) :
    Takes u s s pc (.ending (some tr.context) todo) i :=
  .of_eq rfl rfl (fun h hmem => hconsumer h (htodo.traceHandle_eq hmem))
    fun control hmem => hsession control (htodo.origin_eq hmem)

/-- **What an actor does to handles.** -/
theorem traceAct_takes (hact : traceAct t u s pc i = some (s', pc')) : Takes u s s' pc pc' i := by
  cases acts_of_traceAct hact with
  | endSession c =>
    exact ⟨fun _ _ => .inl, fun _ _ hv => .inl (eq_some_of_update_none hv),
      fun _ => .inl, fun _ => .inl⟩
  | @startTraceW c hc _ =>
    refine ⟨fun _ _ => .inl, fun c' v hv => ?_, fun _ => False.elim, fun c' horigin => .inr ?_⟩
    · rcases eq_some_of_update hv with hold | ⟨rfl, hu⟩
      · exact .inl hold
      · exact .inr ⟨rfl, hc, (Option.some.inj hu).symm⟩
    · rw [← Origin.started.inj horigin]
      exact Function.update_self ..
  | openExisting | openFile =>
    exact .of_eq rfl rfl (fun _ => False.elim) fun _ horigin => absurd horigin Origin.noConfusion
  | giveUp c =>
    exact .of_eq rfl rfl
      (fun h hmem => absurd hmem (closeTrace_notMem_controlStop (.started c) h))
      fun control => @eq_of_stop_mem_controlStop (.started c) control
  | notOpened origin id _ =>
    refine .of_eq rfl rfl (fun h hmem => ?_) fun c hmem => ?_
    · rcases List.mem_cons.mp hmem with heq | hmem
      · cases heq
      · exact absurd hmem (closeTrace_notMem_controlStop origin h)
    · rcases List.mem_cons.mp hmem with heq | hmem
      · cases heq
      · exact eq_of_stop_mem_controlStop hmem
  | openTraceW origin id hvalid _ =>
    refine ⟨fun h v hv => ?_, fun _ _ => .inl, ?_, fun _ => .inl⟩
    · rcases eq_some_of_update hv with hold | ⟨rfl, hu⟩
      · exact .inl hold
      · exact .inr ⟨rfl, hvalid, (Option.some.inj hu).symm⟩
    · rintro h rfl
      exact .inr (Function.update_self ..)
  | abandon c h id =>
    exact .of_releases ⟨.started c, h, id⟩ (.inr (.inr (.inr rfl)))
      (fun _ hh => hh) fun _ hc => hc
  | stop tr => exact .of_releases tr (.inl rfl) (fun _ hh => hh) fun _ hc => hc
  | close tr => exact .of_releases tr (.inr (.inl rfl)) (fun _ hh => hh) fun _ hc => hc
  | drop tr => exact .of_releases tr (.inr (.inr (.inl rfl))) (fun _ hh => hh) fun _ hc => hc
  | release context r todo done =>
    exact ⟨fun h v hv => .inl ((releaseAct_handles s r done).1 h v hv),
      fun c v hv => .inl ((releaseAct_handles s r done).2 c v hv),
      fun _ hmem => .inl (List.mem_cons_of_mem _ hmem),
      fun _ hmem => .inl (List.mem_cons_of_mem _ hmem)⟩
  | miss _ | hit _ => exact .of_eq rfl rfl (fun _ => False.elim) fun _ => False.elim
  | mint _ _ | insert _ _ _ | handOver _ | dispatch _ _ =>
    exact .of_eq rfl rfl (fun _ hh => hh) fun _ hh => hh

theorem consumers_of_openTraceW {h : TraceHandle}
    (hact : traceAct t u s pc (.openTraceW h) = some (s', pc'))
    (hvalid : (filterInvalidTraceHandles h).isSome) : s'.consumers h = some u := by
  cases acts_of_traceAct hact with
  | notOpened _ _ hnone =>
    rw [hnone] at hvalid
    cases hvalid
  | openTraceW _ _ _ _ => exact Function.update_self ..

theorem sessions_of_startTraceW {control : ControlHandle}
    (hact : traceAct t u s pc (.startTraceW control) = some (s', pc')) :
    s'.sessions control = some u := by
  cases acts_of_traceAct hact with
  | startTraceW _ _ => exact Function.update_self ..

theorem disjoint_systemStart :
    Disjoint (systemStart : Config T (TraceSystem T D) (TracePc D)) :=
  ⟨fun _ _ => False.elim, fun _ _ => False.elim⟩

/-- Windows hands out nothing. -/
def TraceStep.Quiet : TraceStep D → Prop
  | .openTraceW h => filterInvalidTraceHandles h = none
  | .startTraceW _ => False
  | _ => True

theorem not_reissues_of_quiet {c : Config T (TraceSystem T D) (TracePc D)} (hq : i.Quiet) :
    ¬ Reissues c u i := by
  cases i with
  | openTraceW h =>
    rintro ⟨hvalid, -⟩
    rw [show filterInvalidTraceHandles h = none from hq] at hvalid
    cases hvalid
  | startTraceW _ => cases hq
  | _ => exact id

/-! ### Runs -/

variable [DecidableEq T] {c c' : Config T (TraceSystem T D) (TracePc D)}
  {is : List (T × TraceStep D)}

/-- **A step that reissues nothing** keeps releases apart. -/
theorem disjoint_step (hs : step (traceAct t) c u i = some c') (hnew : ¬ Reissues c u i)
    (hd : Disjoint c) : Disjoint c' := by
  obtain ⟨hact, hothers⟩ := step_inv hs
  have htakes := traceAct_takes hact
  constructor
  · intro w h hw v hv
    by_cases hu : w = u
    · subst hu
      rcases htakes.holdsConsumer h hw with hold | hself
      · rcases htakes.consumers h v hv with hv | ⟨-, -, hvw⟩
        · exact hd.consumers w h hold v hv
        · exact hvw
      · rw [hself] at hv
        exact (Option.some.inj hv).symm
    · rw [hothers w hu] at hw
      rcases htakes.consumers h v hv with hv | ⟨rfl, hvalid, -⟩
      · exact hd.consumers w h hw v hv
      · exact absurd ⟨hvalid, w, hu, hw⟩ hnew
  · intro w control hw v hv
    by_cases hu : w = u
    · subst hu
      rcases htakes.holdsSession control hw with hold | hself
      · rcases htakes.sessions control v hv with hv | ⟨-, -, hvw⟩
        · exact hd.sessions w control hold v hv
        · exact hvw
      · rw [hself] at hv
        exact (Option.some.inj hv).symm
    · rw [hothers w hu] at hw
      rcases htakes.sessions control v hv with hv | ⟨rfl, -, -⟩
      · exact hd.sessions w control hw v hv
      · exact absurd ⟨w, hu, hw⟩ hnew

theorem disjoint_run (hrun : run (traceAct t) c is = some c')
    (hm : Meets (traceAct t) (fun c u i => ¬ Reissues c u i) c is) (hd : Disjoint c) :
    Disjoint c' :=
  run_invariant_of_meets Disjoint (fun _ _ _ _ hs hnew hd => disjoint_step hs hnew hd) hrun hm hd

/-- Only valid handles belong to anybody. -/
structure ValidHandles (s : TraceSystem T D) : Prop where
  consumers : ∀ h v, s.consumers h = some v → (filterInvalidTraceHandles h).isSome
  sessions : ∀ control v, s.sessions control = some v → control ≠ 0

theorem validHandles_run (hrun : run (traceAct t) systemStart is = some c) :
    ValidHandles c.shared := by
  refine run_invariant (fun c => ValidHandles c.shared) ?_ hrun ⟨nofun, nofun⟩
  intro c u i c' hs hvalid
  have htakes := traceAct_takes (step_inv hs).1
  refine ⟨fun h v hv => ?_, fun control v hv => ?_⟩
  · rcases htakes.consumers h v hv with hold | ⟨-, hnew, -⟩
    · exact hvalid.consumers h v hold
    · exact hnew
  · rcases htakes.sessions control v hv with hold | ⟨-, hnew, -⟩
    · exact hvalid.sessions control v hold
    · exact hnew

/-! ### After a reissue -/

variable (t) in
/-- A run in which Windows hands out nothing and takes nothing back. -/
def QuietTo (c d : Config T (TraceSystem T D) (TracePc D)) : Prop :=
  ∃ js, run (traceAct t) c js = some d ∧ (∀ x ∈ js, x.2.Quiet) ∧
    d.shared.consumers = c.shared.consumers ∧ d.shared.sessions = c.shared.sessions

theorem QuietTo.refl (c : Config T (TraceSystem T D) (TracePc D)) : QuietTo t c c :=
  ⟨[], rfl, nofun, rfl, rfl⟩

theorem QuietTo.trans {d e : Config T (TraceSystem T D) (TracePc D)} (hcd : QuietTo t c d)
    (hde : QuietTo t d e) : QuietTo t c e := by
  obtain ⟨is, hd, his, hdc, hds⟩ := hcd
  obtain ⟨js, he, hjs, hec, hes⟩ := hde
  refine ⟨is ++ js, run_append_eq_some_iff.mpr ⟨d, hd, he⟩, ?_, hec.trans hdc, hes.trans hds⟩
  intro x hx
  rcases List.mem_append.mp hx with hx | hx
  · exact his x hx
  · exact hjs x hx

theorem quietTo_step {pc : TracePc D} (hq : i.Quiet)
    (hact : traceAct t u c.shared (c.pc u) i = some (s', pc))
    (hconsumers : s'.consumers = c.shared.consumers) (hsessions : s'.sessions = c.shared.sessions) :
    ∃ d, QuietTo t c d ∧ d.pc u = pc := by
  refine ⟨⟨s', Function.update c.pc u pc⟩, ⟨[(u, i)], ?_, ?_, hconsumers, hsessions⟩, ?_⟩
  · exact run_cons_eq_some_iff.mpr ⟨_, step_eq_some_iff.mpr ⟨_, _, hact, rfl⟩, run_nil _⟩
  · intro x hx
    rw [List.mem_singleton.mp hx]
    exact hq
  · exact Function.update_self ..

variable (t) in
/-- An actor gets to this release, while Windows hands out nothing. -/
def GetsTo (c : Config T (TraceSystem T D) (TracePc D)) (u : T) (r : Release) : Prop :=
  ∃ d context rest, QuietTo t c d ∧ d.pc u = .ending context (r :: rest)

variable {r : Release}

/-- It does if it does after another step. -/
theorem GetsTo.of_step {pc : TracePc D} (hq : i.Quiet)
    (hact : traceAct t u c.shared (c.pc u) i = some (s', pc))
    (hconsumers : s'.consumers = c.shared.consumers) (hsessions : s'.sessions = c.shared.sessions)
    (h : ∀ d : Config T (TraceSystem T D) (TracePc D), d.pc u = pc → GetsTo t d u r) :
    GetsTo t c u r := by
  obtain ⟨d, hcd, hd⟩ := quietTo_step hq hact hconsumers hsessions
  obtain ⟨e, context, rest, hde, he⟩ := h d hd
  exact ⟨e, context, rest, hcd.trans hde, he⟩

/-- An actor gets to each of its releases. -/
theorem getsTo_of_ending {context : Option ℕ} {todo : List Release}
    (hpc : c.pc u = .ending context todo) (hr : r ∈ todo) : GetsTo t c u r := by
  induction todo generalizing c with
  | nil => exact absurd hr List.not_mem_nil
  | cons r₀ todo ih =>
    rcases List.mem_cons.mp hr with rfl | hr
    · exact ⟨c, context, todo, .refl c, hpc⟩
    · -- Windows may refuse to carry out the releases before it
      have hact : traceAct t u c.shared (c.pc u) (.release false) =
          some (releaseAct c.shared false r₀, .ending context todo) := by rw [hpc, traceAct]
      exact .of_step (i := .release false) trivial hact (by cases r₀ <;> rfl)
        (by cases r₀ <;> rfl) fun d hd => ih hd hr

theorem getsTo_of_live {tr : Trace} (hpc : c.pc u = .live tr) (hr : r ∈ tr.drop) :
    GetsTo t c u r :=
  .of_step (i := .drop) trivial (by rw [hpc, traceAct]) rfl rfl fun _ hd => getsTo_of_ending hd hr

theorem getsTo_of_opened {tr : Trace} (hpc : c.pc u = .opened tr) (hr : r ∈ tr.drop) :
    GetsTo t c u r :=
  .of_step (i := .handOver) trivial (by rw [hpc, traceAct]) rfl rfl fun _ hd => getsTo_of_live hd hr

/-- A start that has an id may find that its consumer cannot be opened. -/
theorem getsTo_of_registered {origin : Origin} {id : ℕ} (hpc : c.pc u = .registered origin id)
    (hr : r ∈ origin.controlStop) : GetsTo t c u r :=
  .of_step (i := .openTraceW 0xFFFFFFFF) rfl (by rw [hpc]; rfl) rfl rfl
    fun _ hd => getsTo_of_ending hd (List.mem_cons_of_mem _ hr)

theorem getsTo_closeTrace {h : TraceHandle} (hh : (c.pc u).HoldsConsumer h)
    (hvalid : (filterInvalidTraceHandles h).isSome) : GetsTo t c u (.closeTrace h) := by
  cases hpc : c.pc u with
  | opened tr =>
    rw [hpc] at hh
    obtain rfl : tr.traceHandle = h := hh
    exact getsTo_of_opened hpc (Trace.closeTrace_mem_drop hvalid)
  | live tr =>
    rw [hpc] at hh
    obtain rfl : tr.traceHandle = h := hh
    exact getsTo_of_live hpc (Trace.closeTrace_mem_drop hvalid)
  | ending context todo =>
    rw [hpc] at hh
    exact getsTo_of_ending hpc hh
  | idle | ready _ | minted _ _ _ | registered _ _ | dispatching _ _ =>
    rw [hpc] at hh
    exact hh.elim

theorem getsTo_stop {control : ControlHandle} (hh : (c.pc u).HoldsSession control)
    (hvalid : control ≠ 0) : GetsTo t c u (.stop control) := by
  cases hpc : c.pc u with
  | ready origin =>
    rw [hpc] at hh
    obtain rfl : origin = .started control := hh
    have hact : traceAct t u c.shared (c.pc u) .fail =
        some (c.shared, .ending none (controlStop control)) := by rw [hpc, traceAct]
    exact .of_step (i := .fail) trivial hact rfl rfl
      fun _ hd => getsTo_of_ending hd (stop_mem_controlStop hvalid)
  | minted origin id data =>
    rw [hpc] at hh
    obtain rfl : origin = .started control := hh
    have hact : traceAct t u c.shared (c.pc u) .insert =
        some ({ c.shared with contexts := c.shared.contexts.insert id data,
                              inserted := c.shared.inserted ++ [(id, data)] },
          .registered (.started control) id) := by rw [hpc, traceAct]
    exact .of_step (i := .insert) trivial hact rfl rfl
      fun _ hd => getsTo_of_registered hd (stop_mem_controlStop hvalid)
  | registered origin id =>
    rw [hpc] at hh
    obtain rfl : origin = .started control := hh
    exact getsTo_of_registered hpc (stop_mem_controlStop hvalid)
  | opened tr =>
    rw [hpc] at hh
    exact getsTo_of_opened hpc (Trace.stop_mem_drop hh hvalid)
  | live tr =>
    rw [hpc] at hh
    exact getsTo_of_live hpc (Trace.stop_mem_drop hh hvalid)
  | ending context todo =>
    rw [hpc] at hh
    exact getsTo_of_ending hpc hh
  | idle | dispatching _ _ =>
    rw [hpc] at hh
    exact hh.elim

/-- **After a reissue a release can do harm**, without another. -/
theorem exists_harm_of_reissue (hvalid : ValidHandles c'.shared)
    (hs : step (traceAct t) c u i = some c') (hre : Reissues c u i) :
    ∃ d v, QuietTo t c' d ∧ ¬ Harmless d v := by
  obtain ⟨hact, hothers⟩ := step_inv hs
  cases i with
  | openTraceW h =>
    obtain ⟨hh, v, hv, hholds⟩ := hre
    have howner := consumers_of_openTraceW hact hh
    rw [← hothers v hv] at hholds
    obtain ⟨d, context, rest, hcd, hd⟩ := getsTo_closeTrace (t := t) hholds hh
    refine ⟨d, v, hcd, fun hharmless => ?_⟩
    obtain ⟨-, -, -, hconsumers, -⟩ := hcd
    exact hv (hharmless _ _ _ hd u (by rw [hconsumers, howner])).symm
  | startTraceW control =>
    obtain ⟨v, hv, hholds⟩ := hre
    have howner := sessions_of_startTraceW hact
    rw [← hothers v hv] at hholds
    obtain ⟨d, context, rest, hcd, hd⟩ :=
      getsTo_stop (t := t) hholds (hvalid.sessions control u howner)
    refine ⟨d, v, hcd, fun hharmless => ?_⟩
    obtain ⟨-, -, -, -, hsessions⟩ := hcd
    exact hv (hharmless _ _ _ hd u (by rw [hsessions, howner])).symm
  | _ => cases hre

/-- **Ending one trace touches no other, exactly when Windows reissues nothing.** In every run in
which it hands out no value that another actor has yet to release, the next release of any actor
hits its own handle, or nobody's. The first step that hands out such a value is also the first from
which, without another, a release can hit somebody else's. -/
theorem harmless_iff_of_meets (hrun : run (traceAct t) systemStart is = some c)
    (hm : Meets (traceAct t) (fun c u i => ¬ Reissues c u i) systemStart is) :
    (∀ u, Harmless c u) ∧
      ∀ u i c', step (traceAct t) c u i = some c' →
        ((∀ js d, run (traceAct t) c' js = some d →
          Meets (traceAct t) (fun c u i => ¬ Reissues c u i) c' js → ∀ v, Harmless d v) ↔
          ¬ Reissues c u i) := by
  have hd := disjoint_run hrun hm disjoint_systemStart
  refine ⟨hd.harmless, fun u i c' hs => ⟨fun hsafe hre => ?_, fun hnew js d hjs hm' => ?_⟩⟩
  · have hvalid : ValidHandles c'.shared :=
      validHandles_run (run_snoc_eq_some_iff.mpr ⟨c, hrun, hs⟩)
    obtain ⟨d, v, ⟨js, hjs, hquiet, -, -⟩, hharm⟩ := exists_harm_of_reissue hvalid hs hre
    have hmeets : Meets (traceAct t) (fun _ _ i => TraceStep.Quiet i) c' js :=
      meets_of_forall_mem fun u i hmem => hquiet _ hmem
    exact hharm (hsafe js d hjs (hmeets.mono fun _ _ _ hq => not_reissues_of_quiet hq) v)
  · exact (disjoint_run hjs hm' (disjoint_step hs hnew hd)).harmless

/-- Two sessions are started and opened. One is stopped, and its first releases are done. -/
def stoppedBeside : List (Bool × TraceStep ℕ) :=
  [(true, .startTraceW 7), (true, .mint 5), (true, .insert), (true, .openTraceW 3),
    (false, .startTraceW 8), (false, .mint 6), (false, .insert), (false, .openTraceW 4),
    (true, .handOver), (true, .stop), (true, .release true), (true, .release true),
    (true, .release true), (true, .release true), (false, .handOver)]

/-- No handle is handed out twice. -/
theorem meets_stoppedBeside :
    Meets (traceAct (T := Bool) ⟨.b64, true⟩) (fun c u i => ¬ Reissues c u i) systemStart
      stoppedBeside := by
  refine ⟨?_, fun _ h₁ => ⟨id, fun _ h₂ => ⟨id, fun _ h₃ => ⟨?_, fun _ h₄ => ⟨?_, fun _ h₅ =>
    ⟨id, fun _ h₆ => ⟨id, fun _ h₇ => ⟨?_, fun _ _ => ?_⟩⟩⟩⟩⟩⟩⟩⟩
  · rintro ⟨v, hv, hholds⟩
    exact hholds
  · cases h₁; cases h₂; cases h₃
    rintro ⟨-, v, hv, hholds⟩
    cases v with
    | false => exact hholds
    | true => exact hv rfl
  · cases h₁; cases h₂; cases h₃; cases h₄
    rintro ⟨v, hv, hholds⟩
    cases v with
    | false => exact hv rfl
    | true => exact absurd (Origin.started.inj hholds) (by decide)
  · cases h₁; cases h₂; cases h₃; cases h₄; cases h₅; cases h₆; cases h₇
    rintro ⟨-, v, hv, hholds⟩
    cases v with
    | false => exact hv rfl
    | true => exact absurd hholds (by decide : (3 : UInt64) ≠ 4)
  · -- what follows hands out nothing
    have hquiet : ∀ u i, (u, i) ∈ stoppedBeside.drop 8 → TraceStep.Quiet i := by
      simp [stoppedBeside, TraceStep.Quiet]
    exact (meets_of_forall_mem hquiet).mono fun _ _ _ hq => not_reissues_of_quiet hq

/-- The stopped trace has yet to release both its handles once more, while the other is live. -/
theorem harmless_stoppedBeside :
    ∃ c : Config Bool (TraceSystem Bool ℕ) (TracePc ℕ),
      run (traceAct ⟨.b64, true⟩) systemStart stoppedBeside = some c ∧
        c.pc true = .ending (some 1) [.closeTrace 3, .stop 7, .retire 1] ∧
        c.pc false = .live ⟨.started 8, 4, 2⟩ ∧ c.shared.consumers 4 = some false ∧
        c.shared.sessions 8 = some false ∧ ∀ u, Harmless c u := by
  have hrun : run (traceAct (T := Bool) ⟨.b64, true⟩) systemStart stoppedBeside = some _ := rfl
  exact ⟨_, rfl, rfl, rfl, rfl, rfl, (harmless_iff_of_meets hrun meets_stoppedBeside).1⟩

/-- A trace is stopped. Its handle goes to another before it is dropped. -/
def stoppedTwice : List (Bool × TraceStep ℕ) :=
  [(true, .openFile), (true, .mint 5), (true, .insert), (true, .openTraceW 3), (true, .handOver),
    (true, .stop), (true, .release true), (true, .release true),
    (false, .openFile), (false, .mint 6), (false, .insert), (false, .openTraceW 3),
    (false, .handOver), (true, .release true)]

/-- The drop closes the other trace. -/
theorem not_harmless :
    ¬ ∀ is (c : Config Bool (TraceSystem Bool ℕ) (TracePc ℕ)),
      run (traceAct ⟨.b64, true⟩) systemStart is = some c → ∀ u, Harmless c u := by
  intro hharmless
  have hown := hharmless stoppedTwice _ rfl true _ _ _ rfl false rfl
  cases hown

end Ferrisetw2
