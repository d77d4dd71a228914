import Ferrisetw2.Lib.Checked
import Ferrisetw2.Lib.Text
import Ferrisetw2.Parser.Decode

/-!
# Providers and their filters

A provider's filters are handed to `EnableTraceEx2` as descriptors: a type, and data laid out as
that type asks. A filter that cannot be laid out is an error, and so are two of one type.
`event_filter.rs`, `provider.rs`, and `build_event_filter_descriptors` of `evntrace.rs`.

Allocations succeed, so the layout is all that can fail.

## Main definitions

* `EventFilter`, `EventFilterDescriptor`, `EventFilter.toEventFilterDescriptor`
* `Provider`, `buildEventFilterDescriptors`

## Main results

* `buildEventFilterDescriptors_types` — descriptors have distinct types, one for each filter
-/

namespace Ferrisetw2

open Rust

/-! ### Limits and types -/

/-- `MAX_EVENT_FILTER_EVENT_ID_COUNT`. -/
def maxEventFilterEventIdCount : ℕ := 64

/-- `MAX_EVENT_FILTER_PID_COUNT`. -/
def maxEventFilterPidCount : ℕ := 8

/-- `MAX_EVENT_FILTER_DATA_SIZE`. -/
def maxEventFilterDataSize : ℕ := 1024

/-- `MAX_EVENT_FILTER_EVENT_NAME_SIZE`. -/
def maxEventFilterEventNameSize : ℕ := 4096

def eventFilterTypePid : UInt32 := 0x80000004
def eventFilterTypeExecutableName : UInt32 := 0x80000008
def eventFilterTypeEventId : UInt32 := 0x80000200
def eventFilterTypeEventName : UInt32 := 0x80000400
def eventFilterTypeStackwalk : UInt32 := 0x80001000

/-! ### Filters -/

/-- `EventNamesFilter`. -/
structure EventNamesFilter where
  names : List String
  matchAnyKeyword : UInt64
  matchAllKeyword : UInt64
  level : UInt8
  filterIn : Bool

/-- `EventFilter`. -/
inductive EventFilter where
  | byPids (pids : List UInt32)
  | byEventIds (ids : List UInt16)
  | excludeEventIds (ids : List UInt16)
  | byExecutableNames (names : List String)
  | byEventNames (filter : EventNamesFilter)
  | stackWalkByEventIds (ids : List UInt16)
  | excludeStackWalkByEventIds (ids : List UInt16)

/-- `EventFilterDescriptor`. -/
structure EventFilterDescriptor where
  data : List UInt8
  ty : UInt32
  deriving DecidableEq, Repr

namespace EventFilterDescriptor

/-- `try_new`, filled. The data is never longer than a `u32` can say where it is not longer than
the limit. -/
def tryNew (data : List UInt8) (maxSize : ℕ) (ty : UInt32) : Except String EventFilterDescriptor :=
  if data.length = 0 then .error "Filter must not be empty"
  else if maxSize < data.length then .error "Exceeded filter size limits"
  else .ok ⟨data, ty⟩

/-- `try_new_by_event_id_list`: an `EVENT_FILTER_EVENT_ID`. -/
def tryNewByEventIdList (eids : List UInt16) (filterIn : Bool) (ty : UInt32) :
    Except String EventFilterDescriptor :=
  if eids.isEmpty then .error "Filter must not be empty"
  else if maxEventFilterEventIdCount < eids.length then .error "Too many event IDs are filtered"
  else
    tryNew ([if filterIn then 1 else 0, 0] ++ leBytes 2 eids.length ++
      eids.flatMap fun id => leBytes 2 id.toNat) maxEventFilterDataSize ty

/-- `try_new_by_executable_names`: one wide string, the names separated by semicolons. -/
def tryNewByExecutableNames (names : List String) : Except String EventFilterDescriptor :=
  if names.isEmpty then .error "Filter must not be empty"
  else if names.any fun name =>
      name.isEmpty || name.contains ';' || name.contains (Char.ofNat 0) then
    .error "Executable names must not be empty, or contain ';' or NUL"
  else
    let wideNames := ((names.map encodeUtf16).intersperse [0x3B]).flatten ++ [0]
    tryNew (wideNames.flatMap fun u => leBytes 2 u.toNat) maxEventFilterDataSize
      eventFilterTypeExecutableName

/-- `try_new_by_event_names`: the header of an `EVENT_FILTER_EVENT_NAME`, then the names. -/
def tryNewByEventNames (filter : EventNamesFilter) : Except String EventFilterDescriptor :=
  if filter.names.isEmpty then .error "Filter must not be empty"
  else if filter.names.any fun name => name.isEmpty || name.contains (Char.ofNat 0) then
    .error "Event names must not be empty, or contain NUL"
  else
    tryNew (leBytes 8 filter.matchAnyKeyword.toNat ++ leBytes 8 filter.matchAllKeyword.toNat ++
      [filter.level, if filter.filterIn then 1 else 0] ++ leBytes 2 filter.names.length ++
      filter.names.flatMap fun name => utf8Bytes name ++ [0]) maxEventFilterEventNameSize
      eventFilterTypeEventName

/-- `try_new_by_process_ids`. -/
def tryNewByProcessIds (pids : List UInt32) : Except String EventFilterDescriptor :=
  if maxEventFilterPidCount < pids.length then .error "Too many PIDs are filtered"
  else
    tryNew (pids.flatMap fun pid => leBytes 4 pid.toNat) maxEventFilterDataSize eventFilterTypePid

end EventFilterDescriptor

/-- `to_event_filter_descriptor`. -/
def EventFilter.toEventFilterDescriptor : EventFilter → Except String EventFilterDescriptor
  | .byPids pids => EventFilterDescriptor.tryNewByProcessIds pids
  | .byEventIds ids =>
    EventFilterDescriptor.tryNewByEventIdList ids true eventFilterTypeEventId
  | .excludeEventIds ids =>
    EventFilterDescriptor.tryNewByEventIdList ids false eventFilterTypeEventId
  | .stackWalkByEventIds ids =>
    EventFilterDescriptor.tryNewByEventIdList ids true eventFilterTypeStackwalk
  | .excludeStackWalkByEventIds ids =>
    EventFilterDescriptor.tryNewByEventIdList ids false eventFilterTypeStackwalk
  | .byExecutableNames names => EventFilterDescriptor.tryNewByExecutableNames names
  | .byEventNames filter => EventFilterDescriptor.tryNewByEventNames filter

/-! ### Providers -/

/-- `Provider`, without its callbacks. -/
structure Provider where
  guid : Guid
  any : UInt64
  all : UInt64
  level : UInt8
  traceFlags : UInt32
  kernelFlags : UInt32
  captureState : Bool
  filters : List EventFilter

/-- The loop of `build_event_filter_descriptors`, after the filters of these types. -/
def buildDescriptors (seenTypes : List UInt32) :
    List EventFilter → Except String (List EventFilterDescriptor)
  | [] => .ok []
  | filter :: filters => do
    let descriptor ← filter.toEventFilterDescriptor
    if descriptor.ty ∈ seenTypes then
      .error (s!"several filters share the type {descriptor.ty}; " ++
        "at most one filter of each type is allowed")
    else
      let descriptors ← buildDescriptors (descriptor.ty :: seenTypes) filters
      .ok (descriptor :: descriptors)

/-- `build_event_filter_descriptors`, up to the wrapping of its error. -/
def buildEventFilterDescriptors (provider : Provider) :
    Except String (List EventFilterDescriptor) := buildDescriptors [] provider.filters

/-- The descriptors that come out have types not seen before, all different. -/
theorem buildDescriptors_types {seenTypes : List UInt32} {filters : List EventFilter}
    {descriptors : List EventFilterDescriptor}
    (h : buildDescriptors seenTypes filters = .ok descriptors) :
    descriptors.length = filters.length ∧ (descriptors.map (·.ty)).Nodup ∧
      ∀ d ∈ descriptors, d.ty ∉ seenTypes := by
  induction filters generalizing seenTypes descriptors with
  | nil =>
    cases h
    exact ⟨rfl, List.nodup_nil, fun d hd => absurd hd List.not_mem_nil⟩
  | cons filter filters ih =>
    obtain ⟨d, -, hrest⟩ := bind_eq_ok_iff.mp h
    split at hrest
    · cases hrest
    · rename_i hnew
      obtain ⟨ds, hds, hcons⟩ := bind_eq_ok_iff.mp hrest
      cases hcons
      obtain ⟨hlen, hnodup, hfresh⟩ := ih hds
      refine ⟨by rw [List.length_cons, hlen, List.length_cons], ?_, ?_⟩
      · rw [List.map_cons, List.nodup_cons]
        refine ⟨fun hmem => ?_, hnodup⟩
        obtain ⟨e, he, heq⟩ := List.mem_map.mp hmem
        exact hfresh e he (heq ▸ List.mem_cons_self)
      · intro e he
        rcases List.mem_cons.mp he with rfl | he
        · exact hnew
        · exact fun hmem => hfresh e he (List.mem_cons_of_mem _ hmem)

/-- Descriptors have distinct types, one for each filter. -/
theorem buildEventFilterDescriptors_types {provider : Provider}
    {descriptors : List EventFilterDescriptor}
    (h : buildEventFilterDescriptors provider = .ok descriptors) :
    descriptors.length = provider.filters.length ∧ (descriptors.map (·.ty)).Nodup :=
  ⟨(buildDescriptors_types h).1, (buildDescriptors_types h).2.1⟩

end Ferrisetw2
