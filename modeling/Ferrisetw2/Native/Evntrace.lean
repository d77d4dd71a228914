import Ferrisetw2.Lib.Calls
import Ferrisetw2.Native.Context
import Ferrisetw2.Provider.EventFilter

/-!
# The ETW control API

The wrappers of the control API check a handle, build the parameters and make one call, whose status
they turn into an error. `evntrace.rs`, and the groups of `etw_types.rs`.

What Windows answers is not ours to know: the environment is any.

## Main definitions

* `EvntraceNativeError`, `win32Result`
* `EtwCall`, `EtwAnswer` — the calls, and their answers
* `enableProviderCall`, `disableProviderCall`, `captureProviderStateCall`, `controlTraceCall` — the
  call a wrapper makes, if it makes one
* `wideTraceName` — the name in the properties of a session
* `Etw` — computations that call Windows and hold contexts
* `startTrace`, `openTrace`, `closeTrace`, `enableProvider`, … — the wrappers themselves
-/

namespace Ferrisetw2

open Rust Calls

/-! ### Handles and statuses -/

/-- `TraceHandle`, by its value. -/
abbrev TraceHandle := UInt64

/-- `ControlHandle`, by its value. -/
abbrev ControlHandle := UInt64

/-- `EvntraceNativeError`; an i/o error carries its Win32 code. -/
inductive EvntraceNativeError where
  | invalidHandle
  | alreadyExist
  | ioError (code : UInt32)
  | invalidFilter (msg : String)
  deriving DecidableEq, Repr

def errorSuccess : UInt32 := 0
def errorAlreadyExists : UInt32 := 183
def errorWmiInstanceNotFound : UInt32 := 4201
def errorCtxClosePending : UInt32 := 7007

/-- `win32_result`. -/
def win32Result (status : UInt32) : Except EvntraceNativeError Unit :=
  if status = errorSuccess then .ok () else .error (.ioError status)

/-- `filter_invalid_trace_handles`. -/
def filterInvalidTraceHandles (h : TraceHandle) : Option TraceHandle :=
  if h = 0xFFFFFFFFFFFFFFFF ∨ h = 0xFFFFFFFF then none else some h

/-- `filter_invalid_control_handle`. -/
def filterInvalidControlHandle (h : ControlHandle) : Option ControlHandle :=
  if h = 0 then none else some h

theorem filterInvalidTraceHandles_eq {h h' : TraceHandle}
    (hvalid : filterInvalidTraceHandles h = some h') : h' = h := by
  rw [filterInvalidTraceHandles] at hvalid
  split at hvalid
  · cases hvalid
  · exact (Option.some.inj hvalid).symm

theorem filterInvalidControlHandle_eq_some_iff {h h' : ControlHandle} :
    filterInvalidControlHandle h = some h' ↔ h ≠ 0 ∧ h' = h := by
  rw [filterInvalidControlHandle]
  split
  · rename_i hzero
    exact iff_of_false nofun fun hvalid => hvalid.1 hzero
  · rename_i hne
    rw [Option.some.injEq, and_iff_right hne, eq_comm]

/-! ### Calls -/

def eventControlCodeDisableProvider : UInt32 := 0
def eventControlCodeEnableProvider : UInt32 := 1
def eventControlCodeCaptureState : UInt32 := 2
def eventEnablePropertyStackTrace : UInt32 := 4
def eventTraceControlStop : UInt32 := 1

/-- The classes of `TraceInformation` that are set or queried on a session. -/
inductive TraceInformation where
  | traceStackTracingInfo
  | traceSystemTraceEnableFlagsInfo
  deriving DecidableEq, Repr

/-- `EnableTraceParameters`. -/
structure EnableTraceParameters where
  enableProperty : UInt32
  filters : List EventFilterDescriptor
  deriving DecidableEq, Repr

/-- The calls into Windows. -/
inductive EtwCall where
  | startTraceW (name : List UInt16) (enableFlags : UInt32)
  /-- The context goes in as the `Context` of the log file. -/
  | openTraceW (context : ℕ) (name : List UInt16)
  | closeTrace (handle : TraceHandle)
  | controlTraceW (handle : ControlHandle) (code : UInt32)
  /-- `ControlTraceW` with a null handle and a name. -/
  | controlTraceByName (name : List UInt16) (code : UInt32)
  | enableTraceEx2 (handle : ControlHandle) (guid : Guid) (code : UInt32) (level : UInt8)
      (any all : UInt64) (parameters : Option EnableTraceParameters)
  | traceSetInformation (session : ControlHandle) (cls : TraceInformation) (info : List UInt8)
  | traceQueryInformation (session : ControlHandle) (cls : TraceInformation) (length : ℕ)
  deriving DecidableEq

/-- What Windows answers: a status, and what the call writes to, where it does. `OpenTraceW` has no
status, and the one here is what `GetLastError` says after it. -/
structure EtwAnswer where
  status : UInt32
  handle : UInt64
  info : List UInt8

/-- `build_event_filter_descriptors`, its error wrapped. -/
def filterDescriptors (provider : Provider) :
    Except EvntraceNativeError (List EventFilterDescriptor) :=
  match buildEventFilterDescriptors provider with
  | .error msg => .error (.invalidFilter msg)
  | .ok descriptors => .ok descriptors

/-- What `enable_provider` asks for. A stackwalk filter brings the property it needs. -/
def enableProviderCall (controlHandle : ControlHandle) (provider : Provider) :
    Except EvntraceNativeError EtwCall :=
  match filterInvalidControlHandle controlHandle with
  | none => .error .invalidHandle
  | some handle => do
    let descriptors ← filterDescriptors provider
    let enableProperty :=
      if descriptors.any (·.ty = eventFilterTypeStackwalk) then
        provider.traceFlags ||| eventEnablePropertyStackTrace
      else provider.traceFlags
    .ok (.enableTraceEx2 handle provider.guid eventControlCodeEnableProvider provider.level
      provider.any provider.all (some ⟨enableProperty, descriptors⟩))

/-- What `disable_provider` asks for. -/
def disableProviderCall (controlHandle : ControlHandle) (guid : Guid) :
    Except EvntraceNativeError EtwCall :=
  match filterInvalidControlHandle controlHandle with
  | none => .error .invalidHandle
  | some handle =>
    .ok (.enableTraceEx2 handle guid eventControlCodeDisableProvider 0 0 0 none)

/-- What `capture_provider_state` asks for. -/
def captureProviderStateCall (controlHandle : ControlHandle) (provider : Provider) :
    Except EvntraceNativeError EtwCall :=
  match filterInvalidControlHandle controlHandle with
  | none => .error .invalidHandle
  | some handle =>
    .ok (.enableTraceEx2 handle provider.guid eventControlCodeCaptureState 0 0 0 none)

/-- What `control_trace` asks for. -/
def controlTraceCall (controlHandle : ControlHandle) (code : UInt32) :
    Except EvntraceNativeError EtwCall :=
  match filterInvalidControlHandle controlHandle with
  | none => .error .invalidHandle
  | some handle => .ok (.controlTraceW handle code)

/-- What `set_info` asks for. -/
def setInfoCall (session : ControlHandle) (cls : TraceInformation) (buf : List UInt8) :
    Except EvntraceNativeError EtwCall :=
  match filterInvalidControlHandle session with
  | none => .error .invalidHandle
  | some handle => .ok (.traceSetInformation handle cls buf)

/-- What a wrapper returns, when its call, if it makes one, is answered with this status. -/
def answered (call : Except EvntraceNativeError EtwCall) (status : UInt32) :
    Except EvntraceNativeError Unit :=
  match call with
  | .error e => .error e
  | .ok _ => win32Result status

/-! ### Kernel settings -/

/-- `StackTracingEvent`. -/
structure StackTracingEvent where
  eventGuid : Guid
  eventType : UInt8

/-- A GUID as it lies in memory. -/
def Guid.bytes (guid : Guid) : List UInt8 :=
  leBytes 4 guid.data1.toNat ++ leBytes 2 guid.data2.toNat ++ leBytes 2 guid.data3.toNat ++
    guid.data4

/-- `stack_tracing_buffer`: one `CLASSIC_EVENT_ID` each. -/
def stackTracingBuffer (events : List StackTracingEvent) : List UInt8 :=
  events.flatMap fun event => event.eventGuid.bytes ++ event.eventType :: List.replicate 7 0

/-- `ExtendedKernelGroup`, by its group id. -/
abbrev ExtendedKernelGroup := UInt32

/-- `PerfinfoGroupmask`. -/
structure PerfinfoGroupmask where
  masks : List UInt32

namespace PerfinfoGroupmask

/-- `MASK_COUNT`. -/
def maskCount : ℕ := 8

/-- `MASK_INDEX`. -/
def maskIndex : UInt32 := 0xE0000000

/-- `set_group`. -/
def setGroup (groupmask : PerfinfoGroupmask) (group : UInt32) : PerfinfoGroupmask where
  masks := groupmask.masks.modify ((group &&& maskIndex) >>> 29).toNat
    (· ||| (group &&& ~~~maskIndex))

/-- `set_groups`. -/
def setGroups (groupmask : PerfinfoGroupmask) (groups : List ExtendedKernelGroup) :
    PerfinfoGroupmask := groups.foldl setGroup groupmask

/-- `as_bytes`. -/
def asBytes (groupmask : PerfinfoGroupmask) : List UInt8 :=
  groupmask.masks.flatMap fun mask => leBytes 4 mask.toNat

/-- `from_bytes`. -/
def fromBytes (buf : List UInt8) : PerfinfoGroupmask where
  masks := (List.range maskCount).map fun i => UInt32.ofNat (leValue ((buf.drop (4 * i)).take 4))

end PerfinfoGroupmask

/-! ### Names -/

/-- `TRACE_NAME_MAX_CHARS`. -/
def traceNameMaxChars : ℕ := 200

/-- `U16CString::from_vec_truncate`, up to the final NUL: what comes before the first one. -/
def truncateAtNul (wide : List UInt16) : List UInt16 := wide.takeWhile (· ≠ 0)

/-- The `wide_trace_name` of `EventTraceProperties::new`: the name is copied over zeros. -/
def wideTraceName (traceName : List UInt16) : List UInt16 :=
  let nameLen := min traceName.length traceNameMaxChars
  traceName.take nameLen ++ (List.replicate (traceNameMaxChars + 1) 0).drop nameLen

/-! ### Wrappers -/

/-- Computations that call Windows and hold contexts. -/
abbrev Etw (D ε α : Type) := Prog EtwCall EtwAnswer (ContextRegistry D) ε α

/-- A wrapper: its call, if it makes one, and the status of that. -/
def request {D : Type} (env : Env EtwCall EtwAnswer) (c : Except EvntraceNativeError EtwCall) :
    Etw D EvntraceNativeError Unit :=
  match c with
  | .error e => error e
  | .ok c => bind (call env c) fun answer =>
    match win32Result answer.status with
    | .error e => error e
    | .ok () => pure ()

section Wrappers

variable {D : Type} (env : Env EtwCall EtwAnswer)

/-- `start_trace`. Windows gets a pointer to the name in the properties. -/
def startTrace (name : List UInt16) (enableFlags : UInt32) :
    Etw D EvntraceNativeError ControlHandle :=
  bind (call env (.startTraceW (truncateAtNul (wideTraceName name)) enableFlags)) fun answer =>
    if answer.status = errorSuccess then
      match filterInvalidControlHandle answer.handle with
      | none => error .invalidHandle
      | some handle => pure handle
    else if answer.status = errorAlreadyExists then error .alreadyExist
    else error (.ioError answer.status)

/-- `TraceContext::drop`. -/
def dropContext {ε : Type} (id : ℕ) : Etw D ε Unit :=
  modify fun contexts => ((), contexts.unregister id)

/-- `open_trace`: the context is registered before the call, and dropped if that fails. -/
def openTrace (t : Target) (name : List UInt16) (data : D) :
    Etw D EvntraceNativeError (TraceHandle × ℕ) :=
  bind (modify (ContextRegistry.new t · data)) fun id =>
    bind (call env (.openTraceW id name)) fun answer =>
      match filterInvalidTraceHandles answer.handle with
      | none => bind (dropContext id) fun _ => error (.ioError answer.status)
      | some _ => pure (answer.handle, id)

/-- `close_trace`: the context is retired before the call. -/
def closeTrace (traceHandle : TraceHandle) (context : ℕ) : Etw D EvntraceNativeError Bool :=
  match filterInvalidTraceHandles traceHandle with
  | none => error .invalidHandle
  | some handle =>
    bind (dropContext context) fun _ =>
      bind (call env (.closeTrace handle)) fun answer =>
        if answer.status = errorSuccess then pure false
        else if answer.status = errorCtxClosePending then pure true
        else error (.ioError answer.status)

/-- `enable_provider`. -/
def enableProvider (controlHandle : ControlHandle) (provider : Provider) :
    Etw D EvntraceNativeError Unit := request env (enableProviderCall controlHandle provider)

/-- `capture_provider_state`. -/
def captureProviderState (controlHandle : ControlHandle) (provider : Provider) :
    Etw D EvntraceNativeError Unit := request env (captureProviderStateCall controlHandle provider)

/-- `control_trace`. -/
def controlTrace (controlHandle : ControlHandle) (code : UInt32) :
    Etw D EvntraceNativeError Unit := request env (controlTraceCall controlHandle code)

/-- `control_trace_by_name`, with the raw status. -/
def controlTraceByName (name : List UInt16) (code : UInt32) : Etw D UInt32 Unit :=
  bind (call env (.controlTraceByName name code)) fun answer =>
    if answer.status = errorSuccess then pure () else error answer.status

/-- `set_info`. -/
def setInfo (session : ControlHandle) (cls : TraceInformation) (buf : List UInt8) :
    Etw D EvntraceNativeError Unit := request env (setInfoCall session cls buf)

/-- `enable_stack_tracing`. -/
def enableStackTracing (controlHandle : ControlHandle) (events : List StackTracingEvent) :
    Etw D EvntraceNativeError Unit :=
  if events.isEmpty then pure ()
  else setInfo env controlHandle .traceStackTracingInfo (stackTracingBuffer events)

/-- `set_extended_kernel_groups`: the groups are merged into the mask the session has. -/
def setExtendedKernelGroups (controlHandle : ControlHandle) (groups : List ExtendedKernelGroup) :
    Etw D EvntraceNativeError Unit :=
  if groups.isEmpty then pure ()
  else
    bind (call env (.traceQueryInformation controlHandle .traceSystemTraceEnableFlagsInfo
      (4 * PerfinfoGroupmask.maskCount))) fun answer =>
      match win32Result answer.status with
      | .error e => error e
      | .ok () =>
        setInfo env controlHandle .traceSystemTraceEnableFlagsInfo
          ((PerfinfoGroupmask.fromBytes answer.info).setGroups groups).asBytes

end Wrappers

end Ferrisetw2
