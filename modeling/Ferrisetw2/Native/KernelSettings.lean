import Mathlib.Data.Set.Lattice
import Ferrisetw2.Lib.Buffers
import Ferrisetw2.Lib.Ensures
import Ferrisetw2.Native.Guids

/-!
# The settings of kernel sessions

Windows keeps a group mask and a list of stack-traced events for a kernel session, and replaces
either as a whole. The crate enables groups on top of those there are, so it reads the mask, merges
the groups into it and writes it back; a list of events it just writes. `evntrace.rs`,
`etw_types.rs`.

A group id names one of the eight masks in its top three bits, and bits of that mask in the others.
What a mask means is the set of the bits it has, and on sets the merge is a union.

## Main definitions

* `groupBits`, `PerfinfoGroupmask.enabled` — the bits of a group, and of a mask
* `readStackTracing` — a list of events, read
* `KernelSettings`, `settingsAfter` — what Windows keeps, and makes of calls
* `TellsGroups` — Windows answers a query with the mask it keeps

## Main results

* `enabled_setGroups` — merging is a union
* `fromBytes_asBytes`, `readStackTracing_buffer` — what is written is read
* `ensures_enableStackTracing`, `ensures_setExtendedKernelGroups` — what the wrappers change
-/

namespace Ferrisetw2

open Rust Calls

/-! ### Groups as sets -/

/-- The bits a group id stands for: the mask it names, and the bits within it. -/
def groupBits (group : ExtendedKernelGroup) : Set (ℕ × ℕ) :=
  {x | x.1 = group.toNat / 2 ^ 29 ∧ x.2 < 29 ∧ group.toNat.testBit x.2}

namespace PerfinfoGroupmask

/-- The bits that are set. -/
def enabled (groupmask : PerfinfoGroupmask) : Set (ℕ × ℕ) :=
  {x | (groupmask.masks.getD x.1 0).toNat.testBit x.2}

theorem toNat_index (group : UInt32) :
    ((group &&& maskIndex) >>> 29).toNat = group.toNat / 2 ^ 29 := by
  have hgroup := group.toNat_lt
  rw [UInt32.toNat_shiftRight, UInt32.toNat_and, show maskIndex.toNat = 7 <<< 29 from rfl,
    show (29 : UInt32).toNat % 32 = 29 from rfl, Nat.shiftRight_and_distrib,
    Nat.shiftLeft_shiftRight, show 7 = 2 ^ 3 - 1 from rfl, Nat.and_two_pow_sub_one_eq_mod,
    Nat.shiftRight_eq_div_pow]
  omega

theorem testBit_low (group : UInt32) (b : ℕ) :
    (group &&& ~~~maskIndex).toNat.testBit b = (decide (b < 29) && group.toNat.testBit b) := by
  rw [UInt32.toNat_and, show (~~~maskIndex).toNat = 2 ^ 29 - 1 from rfl, Nat.testBit_and,
    Nat.testBit_two_pow_sub_one, Bool.and_comm]

theorem length_setGroup (groupmask : PerfinfoGroupmask) (group : UInt32) :
    (groupmask.setGroup group).masks.length = groupmask.masks.length := List.length_modify ..

/-- **Merging a group adds its bits**, to the masks there are. -/
theorem enabled_setGroup {groupmask : PerfinfoGroupmask}
    (hlength : groupmask.masks.length = maskCount) (group : UInt32) :
    (groupmask.setGroup group).enabled = groupmask.enabled ∪ groupBits group := by
  have hindex : group.toNat / 2 ^ 29 < groupmask.masks.length := by
    have hgroup := group.toNat_lt
    rw [hlength, maskCount]
    omega
  ext ⟨i, b⟩
  show (((groupmask.setGroup group).masks.getD i 0).toNat.testBit b = true) ↔
    (groupmask.masks.getD i 0).toNat.testBit b = true ∨
      i = group.toNat / 2 ^ 29 ∧ b < 29 ∧ group.toNat.testBit b
  rw [setGroup, List.getD_eq_getElem?_getD, List.getElem?_modify, toNat_index,
    List.getD_eq_getElem?_getD]
  generalize group.toNat / 2 ^ 29 = k at hindex ⊢
  by_cases hi : k = i
  · subst hi
    rw [List.getElem?_eq_getElem hindex]
    simp only [Option.map_eq_map, Option.map_some, if_true, Option.getD_some, UInt32.toNat_or,
      Nat.testBit_or, testBit_low, Bool.or_eq_true, Bool.and_eq_true, decide_eq_true_eq, true_and]
  · simp [hi, Ne.symm hi]

/-- **Merging groups is a union.** -/
theorem enabled_setGroups (groups : List ExtendedKernelGroup) {groupmask : PerfinfoGroupmask}
    (hlength : groupmask.masks.length = maskCount) :
    (groupmask.setGroups groups).enabled = groupmask.enabled ∪ ⋃ g ∈ groups, groupBits g := by
  induction groups generalizing groupmask with
  | nil => simp [setGroups]
  | cons g groups ih =>
    have hlength' := (length_setGroup groupmask g).trans hlength
    rw [show groupmask.setGroups (g :: groups) = (groupmask.setGroup g).setGroups groups from rfl,
      ih hlength', enabled_setGroup hlength, Set.union_assoc]
    congr 1
    ext x
    simp

theorem length_setGroups (groups : List ExtendedKernelGroup) (groupmask : PerfinfoGroupmask) :
    (groupmask.setGroups groups).masks.length = groupmask.masks.length := by
  induction groups generalizing groupmask with
  | nil => rfl
  | cons g groups ih => exact (ih (groupmask.setGroup g)).trans (length_setGroup groupmask g)

theorem length_fromBytes (buf : List UInt8) : (fromBytes buf).masks.length = maskCount := by
  rw [fromBytes, List.length_map, List.length_range]

/-- **A mask is read back from its bytes.** -/
theorem fromBytes_asBytes {groupmask : PerfinfoGroupmask}
    (hlength : groupmask.masks.length = maskCount) : fromBytes groupmask.asBytes = groupmask := by
  obtain ⟨masks⟩ := groupmask
  have hbytes : (asBytes ⟨masks⟩).length = 4 * maskCount := by
    rw [asBytes, List.length_flatMap, ← hlength]
    simp [length_leBytes, Nat.mul_comm]
  have hchunks : chunksExact 4 (asBytes ⟨masks⟩) = masks.map fun mask => leBytes 4 mask.toNat := by
    have h : chunksExact 4 (asBytes ⟨masks⟩ ++ []) = masks.map fun mask => leBytes 4 mask.toNat :=
      chunksExact_flatMap (fun mask _ => length_leBytes 4 mask.toNat) (by decide)
    rwa [List.append_nil] at h
  have hmasks : (fromBytes (asBytes ⟨masks⟩)).masks =
      (chunksExact 4 (asBytes ⟨masks⟩)).map fun chunk => UInt32.ofNat (leValue chunk) := by
    rw [fromBytes, chunksExact, hbytes, Nat.mul_div_cancel_left maskCount (by decide),
      List.map_map]
    exact List.map_congr_left fun i _ => by rw [Nat.mul_comm]; rfl
  have hback : (fromBytes (asBytes ⟨masks⟩)).masks = masks := by
    rw [hmasks, hchunks, List.map_map]
    refine (List.map_congr_left fun mask _ => ?_).trans (List.map_id masks)
    show UInt32.ofNat (leValue (leBytes 4 mask.toNat)) = mask
    rw [leValue_leBytes mask.toNat_lt, UInt32.ofNat_toNat]
  exact congrArg PerfinfoGroupmask.mk hback

end PerfinfoGroupmask

/-! ### Events with call stacks -/

/-- The event of a `CLASSIC_EVENT_ID`. -/
def readClassicEventId (bytes : List UInt8) : StackTracingEvent where
  eventGuid := guidOfBytes (bytes.take 16)
  eventType := (bytes.drop 16).headD 0

/-- The events of a buffer. -/
def readStackTracing (buf : List UInt8) : List StackTracingEvent :=
  (chunksExact 24 buf).map readClassicEventId

/-- **A list of events is read back from its buffer.** -/
theorem readStackTracing_buffer (events : List StackTracingEvent) :
    readStackTracing (stackTracingBuffer events) = events := by
  let image (event : StackTracingEvent) : List UInt8 :=
    event.eventGuid.bytes ++ event.eventType :: List.replicate 7 0
  have hlength : ∀ event ∈ events, (image event).length = 24 := by
    intro event _
    rw [List.length_append, event.eventGuid.length_bytes]
    rfl
  have hchunks : chunksExact 24 (stackTracingBuffer events) = events.map image := by
    have hall : chunksExact 24 (stackTracingBuffer events ++ []) = events.map image :=
      chunksExact_flatMap hlength (by decide)
    rwa [List.append_nil] at hall
  rw [readStackTracing, hchunks, List.map_map]
  refine (List.map_congr_left fun event _ => ?_).trans (List.map_id events)
  have hguid := event.eventGuid.length_bytes
  show readClassicEventId (event.eventGuid.bytes ++ event.eventType :: List.replicate 7 0) = event
  rw [readClassicEventId, List.take_left' hguid, List.drop_left' hguid,
    guidOfBytes_bytes]
  rfl

/-! ### What Windows keeps -/

/-- The settings of a session. -/
@[ext]
structure KernelSettings where
  groupmask : PerfinfoGroupmask
  length_eq : groupmask.masks.length = PerfinfoGroupmask.maskCount
  stackTracing : List StackTracingEvent

/-- Information of a class replaces what there was. -/
def KernelSettings.inform (s : KernelSettings) (cls : TraceInformation) (info : List UInt8) :
    KernelSettings :=
  match cls with
  | .traceStackTracingInfo => { s with stackTracing := readStackTracing info }
  | .traceSystemTraceEnableFlagsInfo =>
    ⟨.fromBytes info, PerfinfoGroupmask.length_fromBytes info, s.stackTracing⟩

/-- The settings of all sessions. -/
abbrev Settings := ControlHandle → KernelSettings

/-- What a call makes of them. A session that is started has those of its enable flags. -/
def Settings.called (fresh : UInt32 → KernelSettings) (s : Settings) (e : EtwCall × EtwAnswer) :
    Settings :=
  if e.2.status = errorSuccess then
    match e.1 with
    | .startTraceW _ enableFlags => Function.update s e.2.handle (fresh enableFlags)
    | .traceSetInformation session cls info =>
      Function.update s session ((s session).inform cls info)
    | _ => s
  else s

/-- What calls make of them, one after the other. -/
def settingsAfter (fresh : UInt32 → KernelSettings) (initial : Settings)
    (calls : List (EtwCall × EtwAnswer)) : Settings := calls.foldl (Settings.called fresh) initial

/-- A query that succeeds is answered with the mask that is kept. -/
def TellsGroups (env : Env EtwCall EtwAnswer) (fresh : UInt32 → KernelSettings)
    (initial : Settings) : Prop :=
  ∀ calls control,
    let answer := env calls (.traceQueryInformation control .traceSystemTraceEnableFlagsInfo
      (4 * PerfinfoGroupmask.maskCount))
    answer.status = errorSuccess →
      answer.info = (settingsAfter fresh initial calls control).groupmask.asBytes

/-- The call changes no settings. -/
def EtwCall.Unset : EtwCall → Prop
  | .startTraceW _ _ | .traceSetInformation .. => False
  | _ => True

variable {fresh : UInt32 → KernelSettings} {initial : Settings}

theorem Settings.called_of_unset {s : Settings} {e : EtwCall × EtwAnswer} (h : e.1.Unset) :
    s.called fresh e = s := by
  obtain ⟨q, a⟩ := e
  rw [called]
  split
  · cases q with
    | startTraceW | traceSetInformation => cases h
    | _ => rfl
  · rfl

theorem settingsAfter_append (calls l : List (EtwCall × EtwAnswer)) :
    settingsAfter fresh initial (calls ++ l) =
      l.foldl (Settings.called fresh) (settingsAfter fresh initial calls) := List.foldl_append

theorem settingsAfter_of_unset (calls l : List (EtwCall × EtwAnswer)) (h : ∀ e ∈ l, e.1.Unset) :
    settingsAfter fresh initial (calls ++ l) = settingsAfter fresh initial calls := by
  rw [settingsAfter_append]
  induction l generalizing calls with
  | nil => rfl
  | cons e l ih =>
    obtain ⟨he, hl⟩ := List.forall_mem_cons.mp h
    rw [List.foldl_cons, Settings.called_of_unset he]
    exact ih calls hl

/-! ### The wrappers -/

section Wrappers

variable {D : Type} {env : Env EtwCall EtwAnswer} {control : ControlHandle} {s : Settings}

/-- The settings of all sessions are these. -/
def SettingsAre (fresh : UInt32 → KernelSettings) (initial s : Settings)
    (w : World EtwCall EtwAnswer (ContextRegistry D)) : Prop :=
  settingsAfter fresh initial w.calls = s

theorem ensures_of_unset {ε α : Type} {x : Etw D ε α} (hx : Makes EtwCall.Unset x) :
    Ensures (SettingsAre fresh initial s) x (fun _ => SettingsAre fresh initial s)
      (SettingsAre fresh initial s) := hx.ensures settingsAfter_of_unset

theorem ensures_setInfo (cls : TraceInformation) (buf : List UInt8) :
    Ensures (SettingsAre fresh initial s)
      (setInfo env control cls buf : Etw D EvntraceNativeError Unit)
      (fun _ => SettingsAre fresh initial
        (Function.update s control ((s control).inform cls buf)))
      (SettingsAre fresh initial s) := by
  rw [setInfo, setInfoCall]
  cases hcontrol : filterInvalidControlHandle control with
  | none => exact Ensures.error fun _ => id
  | some handle =>
    obtain ⟨-, rfl⟩ := filterInvalidControlHandle_eq_some_iff.mp hcontrol
    rw [request]
    refine Ensures.call_bind fun w hw => ?_
    generalize env w.calls _ = answer
    refine ⟨SettingsAre fresh initial
      (s.called fresh (.traceSetInformation handle cls buf, answer)), ?_, ?_⟩
    · rw [Settings.called, win32Result]
      by_cases hstatus : answer.status = errorSuccess
      · rw [if_pos hstatus, if_pos hstatus]
        exact Ensures.pure fun _ => id
      · rw [if_neg hstatus, if_neg hstatus]
        exact Ensures.error fun _ => id
    · rw [SettingsAre, settingsAfter_append, show settingsAfter fresh initial w.calls = s from hw]
      rfl

/-- The events replace those there are. An empty list is not written. -/
def KernelSettings.trace (k : KernelSettings) (events : List StackTracingEvent) : KernelSettings :=
  if events.isEmpty then k else { k with stackTracing := events }

/-- The groups are merged into the mask there is. -/
def KernelSettings.grant (k : KernelSettings) (groups : List ExtendedKernelGroup) :
    KernelSettings :=
  ⟨k.groupmask.setGroups groups,
    (PerfinfoGroupmask.length_setGroups groups k.groupmask).trans k.length_eq, k.stackTracing⟩

theorem KernelSettings.groupmask_trace (k : KernelSettings) (events : List StackTracingEvent) :
    (k.trace events).groupmask = k.groupmask := by
  rw [trace]
  split
  · rfl
  · rfl

/-- The groups a session is given come on top of those it has. -/
theorem KernelSettings.enabled_grant (k : KernelSettings) (events : List StackTracingEvent)
    (groups : List ExtendedKernelGroup) : ((k.trace events).grant groups).groupmask.enabled =
      k.groupmask.enabled ∪ ⋃ g ∈ groups, groupBits g := by
  rw [grant, PerfinfoGroupmask.enabled_setGroups groups (k.trace events).length_eq, groupmask_trace]

theorem KernelSettings.stackTracing_grant (k : KernelSettings) (events : List StackTracingEvent)
    (groups : List ExtendedKernelGroup) : ((k.trace events).grant groups).stackTracing =
      if events = [] then k.stackTracing else events := by
  rw [grant, trace]
  cases events with
  | nil => rfl
  | cons event events => rfl

theorem ensures_enableStackTracing (events : List StackTracingEvent) :
    Ensures (SettingsAre fresh initial s)
      (enableStackTracing env control events : Etw D EvntraceNativeError Unit)
      (fun _ => SettingsAre fresh initial (Function.update s control ((s control).trace events)))
      (SettingsAre fresh initial s) := by
  rw [enableStackTracing, KernelSettings.trace]
  split
  · rw [Function.update_eq_self]
    exact Ensures.pure fun _ => id
  · have hinform : (s control).inform .traceStackTracingInfo (stackTracingBuffer events) =
        { s control with stackTracing := events } := by
      rw [KernelSettings.inform, readStackTracing_buffer]
    rw [← hinform]
    exact ensures_setInfo _ _

/-- **The groups are added to those the session has.** -/
theorem ensures_setExtendedKernelGroups (htells : TellsGroups env fresh initial)
    (groups : List ExtendedKernelGroup) :
    Ensures (SettingsAre fresh initial s)
      (setExtendedKernelGroups env control groups : Etw D EvntraceNativeError Unit)
      (fun _ => SettingsAre fresh initial (Function.update s control ((s control).grant groups)))
      (SettingsAre fresh initial s) := by
  rw [setExtendedKernelGroups]
  split
  · rename_i hempty
    have hsame : (s control).grant groups = s control := by
      rw [List.isEmpty_iff.mp hempty]
      rfl
    rw [hsame, Function.update_eq_self]
    exact Ensures.pure fun _ => id
  · refine Ensures.call_bind fun w hw => ⟨SettingsAre fresh initial s, ?_, ?_⟩
    · have hinfo := htells w.calls control
      generalize env w.calls _ = answer at hinfo ⊢
      rw [win32Result]
      by_cases hstatus : answer.status = errorSuccess
      · have hinform : (s control).inform .traceSystemTraceEnableFlagsInfo
            ((PerfinfoGroupmask.fromBytes answer.info).setGroups groups).asBytes =
              (s control).grant groups := by
          have hmask : PerfinfoGroupmask.fromBytes answer.info = (s control).groupmask := by
            rw [hinfo hstatus, show settingsAfter fresh initial w.calls = s from hw,
              PerfinfoGroupmask.fromBytes_asBytes (s control).length_eq]
          refine KernelSettings.ext ?_ rfl
          rw [hmask]
          exact PerfinfoGroupmask.fromBytes_asBytes ((s control).grant groups).length_eq
        rw [if_pos hstatus, ← hinform]
        exact ensures_setInfo _ _
      · rw [if_neg hstatus]
        exact Ensures.error fun _ => id
    · refine (settingsAfter_of_unset w.calls _ fun e he => ?_).trans hw
      rw [List.mem_singleton.mp he]
      exact trivial

end Wrappers

end Ferrisetw2
