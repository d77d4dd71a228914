import Ferrisetw2.Lib.Buffers
import Ferrisetw2.Provider.EventFilter
import Mathlib.Algebra.BigOperators.Group.List.Basic

/-!
# The layout of filters

A descriptor's data is written field by field into an allocation whose size is computed beforehand.
The layouts are those of Windows, and what Windows reads in them is the filter. `event_filter.rs`.

## Main definitions

* `FilterBuffer`, `EventFilter.allocate` — the constructors with their allocations and writes
* `EventFilter.filterType`, `EventFilter.WithinLimits` — what makes a list of filters acceptable
* `EventFilterDescriptor.read` — a filter read out of a descriptor

## Main results

* `EventFilter.allocate_eq` — every write is within the allocation, and together they fill it
* `EventFilter.read_descriptor` — what is read is what was laid out
* `buildEventFilterDescriptors_reads` — filters are laid out faithfully, or refused
-/

namespace Ferrisetw2

open Rust

/-! ### Allocations -/

/-- What a constructor allocates, and what it writes there. -/
structure FilterBuffer where
  dataSize : ℕ
  maxSize : ℕ
  ty : UInt32
  /-- The writes, with their offsets, in order. -/
  writes : List (ℕ × List UInt8)

namespace FilterBuffer

/-- `try_new` and the writes that follow it. `alloc` is the memory one gets for a size. -/
def fill (alloc : ℕ → List UInt8) (b : FilterBuffer) : Outcome String EventFilterDescriptor :=
  if b.dataSize = 0 then .error (.error "Filter must not be empty")
  else if b.maxSize < b.dataSize then .error (.error "Exceeded filter size limits")
  else
    match writeAll b.writes (alloc b.dataSize) with
    | .ok data => .ok ⟨data, b.ty⟩
    | .error p => .error (.panic p)

/-- An `EVENT_FILTER_EVENT_ID`, which has room for one event. -/
def ofEventIdList (eids : List UInt16) (filterIn : Bool) (ty : UInt32) : FilterBuffer where
  dataSize := 6 + (eids.length - 1) * 2
  maxSize := maxEventFilterDataSize
  ty := ty
  writes :=
    [(0, [if filterIn then 1 else 0]), (1, [0]), (2, leBytes 2 eids.length),
      (4, eids.flatMap fun id => leBytes 2 id.toNat)]

/-- The names as `try_new_by_executable_names` collects them. -/
def wideNames (names : List String) : List UInt16 :=
  ((names.map encodeUtf16).intersperse [0x3B]).flatten ++ [0]

/-- One wide string. -/
def ofExecutableNames (names : List String) : FilterBuffer where
  dataSize := (wideNames names).length * 2
  maxSize := maxEventFilterDataSize
  ty := eventFilterTypeExecutableName
  writes := [(0, (wideNames names).flatMap fun u => leBytes 2 u.toNat)]

/-- The loop over the names, from where `dst` points. -/
def nameWrites : ℕ → List String → List (ℕ × List UInt8)
  | _, [] => []
  | dst, name :: names =>
    (dst, utf8Bytes name) :: (dst + (utf8Bytes name).length, [0]) ::
      nameWrites (dst + (utf8Bytes name).length + 1) names

/-- An `EVENT_FILTER_EVENT_NAME`, whose names start at 20. -/
def ofEventNames (filter : EventNamesFilter) : FilterBuffer where
  dataSize := 20 + (filter.names.map fun name => (utf8Bytes name).length + 1).sum
  maxSize := maxEventFilterEventNameSize
  ty := eventFilterTypeEventName
  writes :=
    [(0, leBytes 8 filter.matchAnyKeyword.toNat), (8, leBytes 8 filter.matchAllKeyword.toNat),
      (16, [filter.level]), (17, [if filter.filterIn then 1 else 0]),
      (18, leBytes 2 filter.names.length)] ++ nameWrites 20 filter.names

/-- The loop over the process ids, from where `p` points. -/
def pidWrites : ℕ → List UInt32 → List (ℕ × List UInt8)
  | _, [] => []
  | p, pid :: pids => (p, leBytes 4 pid.toNat) :: pidWrites (p + 4) pids

/-- An array of DWORDs. -/
def ofProcessIds (pids : List UInt32) : FilterBuffer where
  dataSize := pids.length * 4
  maxSize := maxEventFilterDataSize
  ty := eventFilterTypePid
  writes := pidWrites 0 pids

end FilterBuffer

/-- `try_new_by_event_id_list`, in its allocation. -/
def allocateEventIdList (alloc : ℕ → List UInt8) (eids : List UInt16) (filterIn : Bool)
    (ty : UInt32) : Outcome String EventFilterDescriptor :=
  if eids.isEmpty then .error (.error "Filter must not be empty")
  else if maxEventFilterEventIdCount < eids.length then
    .error (.error "Too many event IDs are filtered")
  else (FilterBuffer.ofEventIdList eids filterIn ty).fill alloc

/-- `to_event_filter_descriptor`, in the allocations of the constructors. -/
def EventFilter.allocate (alloc : ℕ → List UInt8) :
    EventFilter → Outcome String EventFilterDescriptor
  | .byPids pids =>
    if maxEventFilterPidCount < pids.length then .error (.error "Too many PIDs are filtered")
    else (FilterBuffer.ofProcessIds pids).fill alloc
  | .byEventIds ids => allocateEventIdList alloc ids true eventFilterTypeEventId
  | .excludeEventIds ids => allocateEventIdList alloc ids false eventFilterTypeEventId
  | .stackWalkByEventIds ids => allocateEventIdList alloc ids true eventFilterTypeStackwalk
  | .excludeStackWalkByEventIds ids => allocateEventIdList alloc ids false eventFilterTypeStackwalk
  | .byExecutableNames names =>
    if names.isEmpty then .error (.error "Filter must not be empty")
    else if names.any fun name =>
        name.isEmpty || name.contains ';' || name.contains (Char.ofNat 0) then
      .error (.error "Executable names must not be empty, or contain ';' or NUL")
    else (FilterBuffer.ofExecutableNames names).fill alloc
  | .byEventNames filter =>
    if filter.names.isEmpty then .error (.error "Filter must not be empty")
    else if filter.names.any fun name => name.isEmpty || name.contains (Char.ofNat 0) then
      .error (.error "Event names must not be empty, or contain NUL")
    else (FilterBuffer.ofEventNames filter).fill alloc

/-- An error among the ways a computation can end. -/
def orError {ε α : Type} : Except ε α → Outcome ε α
  | .ok a => .ok a
  | .error e => .error (.error e)

/-- Writes in order, as many bytes as were allocated: the constructor gets what it lays out. -/
theorem FilterBuffer.fill_eq {alloc : ℕ → List UInt8} (halloc : ∀ n, (alloc n).length = n)
    {b : FilterBuffer} (pieces : List (List UInt8)) (hwrites : b.writes = inOrder 0 pieces)
    (hsize : b.dataSize = pieces.flatten.length) :
    b.fill alloc = orError (EventFilterDescriptor.tryNew pieces.flatten b.maxSize b.ty) := by
  rw [fill, EventFilterDescriptor.tryNew, hwrites, hsize]
  split
  · rfl
  · split
    · rfl
    · rw [writeAll_inOrder (halloc _)]
      rfl

namespace FilterBuffer

theorem length_flatMap_leBytes {α : Type} (k : ℕ) (f : α → ℕ) (xs : List α) :
    (xs.flatMap fun x => leBytes k (f x)).length = xs.length * k := by
  simp [List.length_flatMap, length_leBytes]

theorem pidWrites_eq (p : ℕ) (pids : List UInt32) :
    pidWrites p pids = inOrder p (pids.map fun pid => leBytes 4 pid.toNat) := by
  induction pids generalizing p with
  | nil => rfl
  | cons pid pids ih =>
    rw [pidWrites, ih]
    rfl

theorem nameWrites_eq (dst : ℕ) (names : List String) :
    nameWrites dst names = inOrder dst (names.flatMap fun name => [utf8Bytes name, [0]]) := by
  induction names generalizing dst with
  | nil => rfl
  | cons name names ih =>
    rw [nameWrites, ih]
    rfl

/-- The fields of the header. -/
def headerPieces (filter : EventNamesFilter) : List (List UInt8) :=
  [leBytes 8 filter.matchAnyKeyword.toNat, leBytes 8 filter.matchAllKeyword.toNat,
    [filter.level], [if filter.filterIn then 1 else 0], leBytes 2 filter.names.length]

theorem length_headerPieces (filter : EventNamesFilter) :
    (headerPieces filter).flatten.length = 20 := rfl

theorem eventNamesWrites_eq (filter : EventNamesFilter) : (ofEventNames filter).writes =
    inOrder 0 (headerPieces filter ++
      filter.names.flatMap fun name => [utf8Bytes name, [0]]) := by
  rw [inOrder_append, length_headerPieces, Nat.zero_add, ← nameWrites_eq]
  rfl

theorem flatten_namePieces (names : List String) :
    (names.flatMap fun name => [utf8Bytes name, [0]]).flatten =
      names.flatMap fun name => utf8Bytes name ++ [0] := by
  induction names with
  | nil => rfl
  | cons name names ih =>
    rw [List.flatMap_cons, List.flatten_append, ih, List.flatMap_cons]
    simp

end FilterBuffer

section Allocate

variable {alloc : ℕ → List UInt8} (halloc : ∀ n, (alloc n).length = n)
include halloc

theorem allocateEventIdList_eq (eids : List UInt16) (filterIn : Bool) (ty : UInt32) :
    allocateEventIdList alloc eids filterIn ty =
      orError (EventFilterDescriptor.tryNewByEventIdList eids filterIn ty) := by
  rw [allocateEventIdList, EventFilterDescriptor.tryNewByEventIdList]
  split
  · rfl
  · rename_i hne
    split
    · rfl
    · have hpos : 0 < eids.length := List.length_pos_iff.mpr fun h => hne (by rw [h]; rfl)
      rw [FilterBuffer.fill_eq halloc [[if filterIn then 1 else 0], [0],
        leBytes 2 eids.length, eids.flatMap fun id => leBytes 2 id.toNat] rfl]
      · simp [FilterBuffer.ofEventIdList]
      · rw [FilterBuffer.ofEventIdList]
        simp only [List.flatten_cons, List.flatten_nil, List.length_append, List.length_cons,
          List.length_nil, length_leBytes, FilterBuffer.length_flatMap_leBytes]
        omega

/-- **Every write is within the allocation, and together they fill it**: what a constructor builds
in memory is its layout. -/
theorem EventFilter.allocate_eq (f : EventFilter) :
    f.allocate alloc = orError f.toEventFilterDescriptor := by
  cases f with
  | byEventIds ids | excludeEventIds ids | stackWalkByEventIds ids
  | excludeStackWalkByEventIds ids =>
    exact allocateEventIdList_eq halloc ids _ _
  | byPids pids =>
    rw [allocate, toEventFilterDescriptor, EventFilterDescriptor.tryNewByProcessIds]
    split
    · rfl
    · exact FilterBuffer.fill_eq halloc _ (FilterBuffer.pidWrites_eq 0 pids)
        (FilterBuffer.length_flatMap_leBytes 4 UInt32.toNat pids).symm
  | byExecutableNames names =>
    rw [allocate, toEventFilterDescriptor, EventFilterDescriptor.tryNewByExecutableNames]
    split
    · rfl
    · split
      · rfl
      · rw [FilterBuffer.fill_eq halloc
          [(FilterBuffer.wideNames names).flatMap fun u => leBytes 2 u.toNat] rfl]
        · simp [FilterBuffer.ofExecutableNames, FilterBuffer.wideNames]
        · rw [List.flatten_singleton, FilterBuffer.length_flatMap_leBytes]
          rfl
  | byEventNames filter =>
    rw [allocate, toEventFilterDescriptor, EventFilterDescriptor.tryNewByEventNames]
    split
    · rfl
    · split
      · rfl
      · rw [FilterBuffer.fill_eq halloc _ (FilterBuffer.eventNamesWrites_eq filter)]
        · rw [List.flatten_append, FilterBuffer.flatten_namePieces]
          simp [FilterBuffer.ofEventNames, FilterBuffer.headerPieces]
        · rw [List.flatten_append, List.length_append, FilterBuffer.length_headerPieces,
            FilterBuffer.flatten_namePieces, List.length_flatMap]
          simp [FilterBuffer.ofEventNames]

end Allocate

/-! ### Limits -/

/-- The type that a filter's descriptor has. -/
def EventFilter.filterType : EventFilter → UInt32
  | .byPids _ => eventFilterTypePid
  | .byEventIds _ | .excludeEventIds _ => eventFilterTypeEventId
  | .stackWalkByEventIds _ | .excludeStackWalkByEventIds _ => eventFilterTypeStackwalk
  | .byExecutableNames _ => eventFilterTypeExecutableName
  | .byEventNames _ => eventFilterTypeEventName

/-- The filter is not empty, keeps to the documented limits, and has no forbidden name. -/
def EventFilter.WithinLimits : EventFilter → Prop
  | .byPids pids => pids ≠ [] ∧ pids.length ≤ maxEventFilterPidCount
  | .byEventIds ids | .excludeEventIds ids | .stackWalkByEventIds ids
  | .excludeStackWalkByEventIds ids => ids ≠ [] ∧ ids.length ≤ maxEventFilterEventIdCount
  | .byExecutableNames names => names ≠ [] ∧
    (∀ name ∈ names, name ≠ "" ∧ ';' ∉ name.toList ∧ Char.ofNat 0 ∉ name.toList) ∧
    2 * (names.map fun name => (encodeUtf16 name).length + 1).sum ≤ maxEventFilterDataSize
  | .byEventNames filter => filter.names ≠ [] ∧
    (∀ name ∈ filter.names, name ≠ "" ∧ Char.ofNat 0 ∉ name.toList) ∧
    20 + (filter.names.map fun name => (utf8Bytes name).length + 1).sum ≤
      maxEventFilterEventNameSize

/-! ### Reading -/

namespace EventFilterDescriptor

/-- The ids of an `EVENT_FILTER_EVENT_ID`, and whether they are kept. -/
def readEventIds (data : List UInt8) : Option (Bool × List UInt16) :=
  match data with
  | filterIn :: _ :: lo :: hi :: events =>
    if events.length = 2 * leValue [lo, hi] then some (filterIn != 0, codeUnits events) else none
  | _ => none

/-- The names in a string that semicolons separate. -/
def readExecutableNames (data : List UInt8) : List String :=
  (((codeUnits data).takeWhile (· ≠ 0)).splitOn 0x3B).map fun wide =>
    String.ofList (decodeUtf16 wide)

/-- That many names, each with a NUL behind it, and nothing else. -/
def readNames : ℕ → List UInt8 → Option (List String)
  | 0, bytes => if bytes.isEmpty then some [] else none
  | n + 1, bytes => do
    let i ← memchr 0 bytes
    let name ← String.fromUTF8? ⟨(bytes.take i).toArray⟩
    let names ← readNames n (bytes.drop (i + 1))
    return name :: names

/-- An `EVENT_FILTER_EVENT_NAME`. -/
def readEventNames (data : List UInt8) : Option EventNamesFilter := do
  let level ← (data[16]? : Option UInt8)
  let filterIn ← (data[17]? : Option UInt8)
  let names ← readNames (leValue (range 18 20 data)) (data.drop 20)
  return {
    names
    matchAnyKeyword := UInt64.ofNat (leValue (range 0 8 data))
    matchAllKeyword := UInt64.ofNat (leValue (range 8 16 data))
    level
    filterIn := filterIn != 0 }

/-- The filter that the data means under the type. -/
def read (d : EventFilterDescriptor) : Option EventFilter :=
  if d.ty = eventFilterTypePid then
    some (.byPids ((chunksExact 4 d.data).map fun dword => UInt32.ofNat (leValue dword)))
  else if d.ty = eventFilterTypeEventId then
    (readEventIds d.data).map fun (filterIn, ids) =>
      if filterIn then .byEventIds ids else .excludeEventIds ids
  else if d.ty = eventFilterTypeStackwalk then
    (readEventIds d.data).map fun (filterIn, ids) =>
      if filterIn then .stackWalkByEventIds ids else .excludeStackWalkByEventIds ids
  else if d.ty = eventFilterTypeExecutableName then
    some (.byExecutableNames (readExecutableNames d.data))
  else if d.ty = eventFilterTypeEventName then (readEventNames d.data).map .byEventNames
  else none

/-- The data of an event-id filter, and of a stackwalk filter. -/
def eventIdsData (eids : List UInt16) (filterIn : Bool) : List UInt8 :=
  [if filterIn then 1 else 0, 0] ++ leBytes 2 eids.length ++ unitBytes eids

/-- The data of an event-name filter. -/
def eventNamesData (filter : EventNamesFilter) : List UInt8 :=
  leBytes 8 filter.matchAnyKeyword.toNat ++ leBytes 8 filter.matchAllKeyword.toNat ++
    [filter.level, if filter.filterIn then 1 else 0] ++ leBytes 2 filter.names.length ++
    filter.names.flatMap fun name => utf8Bytes name ++ [0]

/-- A flag in a byte. -/
theorem bne_flag (flag : Bool) : ((if flag then 1 else 0 : UInt8) != 0) = flag := by
  cases flag <;> rfl

theorem readEventIds_eq {ids : List UInt16} (hids : ids.length ≤ maxEventFilterEventIdCount)
    (filterIn : Bool) :
    readEventIds (eventIdsData ids filterIn) = some (filterIn, ids) := by
  have hlt : ids.length < 256 ^ 2 := by
    rw [maxEventFilterEventIdCount] at hids
    omega
  show (if (unitBytes ids).length = 2 * leValue (leBytes 2 ids.length) then
    some ((if filterIn then 1 else 0 : UInt8) != 0, codeUnits (unitBytes ids)) else none) = _
  rw [leValue_leBytes hlt, if_pos (length_unitBytes ids), codeUnits_unitBytes, bne_flag]

theorem readNames_eq {names : List String} (h : ∀ name ∈ names, Char.ofNat 0 ∉ name.toList) :
    readNames names.length (names.flatMap fun name => utf8Bytes name ++ [0]) = some names := by
  induction names with
  | nil => rfl
  | cons name names ih =>
    have hname : 0 ∉ utf8Bytes name := fun hmem =>
      h name List.mem_cons_self ((zero_mem_utf8Bytes_iff name).mp hmem)
    have hrest := ih fun other hother => h other (List.mem_cons_of_mem _ hother)
    generalize hbytes : (names.flatMap fun name => utf8Bytes name ++ [0]) = bytes at hrest
    have hdrop : (utf8Bytes name ++ 0 :: bytes).drop ((utf8Bytes name).length + 1) = bytes := by
      rw [List.drop_append, List.drop_eq_nil_of_le (Nat.le_succ _), Nat.add_sub_cancel_left]
      rfl
    rw [List.flatMap_cons, hbytes, List.append_assoc, List.length_cons, readNames,
      List.singleton_append, memchr_append_zero hname]
    show (String.fromUTF8? ⟨((utf8Bytes name ++ 0 :: bytes).take _).toArray⟩).bind _ = _
    rw [List.take_left, fromUTF8?_utf8Bytes, Option.bind_some, hdrop, hrest]
    rfl

theorem readEventNames_eq {filter : EventNamesFilter}
    (h : ∀ name ∈ filter.names, Char.ofNat 0 ∉ name.toList)
    (hcount : filter.names.length < 65536) :
    readEventNames (eventNamesData filter) = some filter := by
  have hnames := readNames_eq h
  rw [eventNamesData]
  generalize (filter.names.flatMap fun name => utf8Bytes name ++ [0]) = bytes at hnames
  have hlow : leValue (leBytes 8 filter.matchAnyKeyword.toNat) = filter.matchAnyKeyword.toNat :=
    leValue_leBytes filter.matchAnyKeyword.toNat_lt
  have hhigh : leValue (leBytes 8 filter.matchAllKeyword.toNat) = filter.matchAllKeyword.toNat :=
    leValue_leBytes filter.matchAllKeyword.toNat_lt
  have hlen : leValue (leBytes 2 filter.names.length) = filter.names.length :=
    leValue_leBytes hcount
  show (readNames (leValue (leBytes 2 filter.names.length)) bytes).bind _ = _
  rw [hlen, hnames]
  show some (EventNamesFilter.mk filter.names
    (UInt64.ofNat (leValue (leBytes 8 filter.matchAnyKeyword.toNat)))
    (UInt64.ofNat (leValue (leBytes 8 filter.matchAllKeyword.toNat))) filter.level
    ((if filter.filterIn then 1 else 0 : UInt8) != 0)) = _
  rw [hlow, hhigh, UInt64.ofNat_toNat, UInt64.ofNat_toNat, bne_flag]

theorem mem_of_mem_intercalate {α : Type} {sep u : α} : ∀ {ls : List (List α)},
    u ∈ [sep].intercalate ls → u = sep ∨ ∃ l ∈ ls, u ∈ l
  | [], h => absurd h List.not_mem_nil
  | [l], h => .inr ⟨l, List.mem_singleton_self l, by simpa using h⟩
  | l :: l' :: ls, h => by
    rw [List.intercalate_cons_cons, List.mem_append, List.mem_append] at h
    rcases h with (h | h) | h
    · exact .inr ⟨l, List.mem_cons_self, h⟩
    · exact .inl (List.mem_singleton.mp h)
    · rcases mem_of_mem_intercalate h with h | ⟨k, hk, h⟩
      · exact .inl h
      · exact .inr ⟨k, List.mem_cons_of_mem _ hk, h⟩

theorem readExecutableNames_eq {names : List String} (hne : names ≠ [])
    (h : ∀ name ∈ names, ';' ∉ name.toList ∧ Char.ofNat 0 ∉ name.toList) :
    readExecutableNames (unitBytes (FilterBuffer.wideNames names)) = names := by
  have hsemicolon : ∀ wide ∈ names.map encodeUtf16, 0x3B ∉ wide := by
    intro wide hwide hmem
    obtain ⟨name, hname, rfl⟩ := List.mem_map.mp hwide
    exact (h name hname).1 ((mem_encodeUtf16_iff (c := ';') (by decide) name).mp hmem)
  have hnul : ∀ u ∈ [0x3B].intercalate (names.map encodeUtf16), decide (u ≠ 0) = true := by
    intro u hu
    rw [decide_eq_true_iff]
    rintro rfl
    rcases mem_of_mem_intercalate hu with hsep | ⟨wide, hwide, hmem⟩
    · exact absurd hsep (by decide)
    · obtain ⟨name, hname, rfl⟩ := List.mem_map.mp hwide
      exact (h name hname).2 ((zero_mem_encodeUtf16_iff name).mp hmem)
  have hdecoded : (names.map encodeUtf16).map (fun wide => String.ofList (decodeUtf16 wide)) =
      names := by
    rw [List.map_map]
    exact (List.map_congr_left fun name _ => decodeUtf16_encodeUtf16 name).trans (List.map_id _)
  rw [readExecutableNames, codeUnits_unitBytes]
  show ((([0x3B].intercalate (names.map encodeUtf16) ++ [0]).takeWhile _).splitOn 0x3B).map _ = _
  rw [List.takeWhile_append_of_pos hnul]
  show ((([0x3B].intercalate (names.map encodeUtf16)) ++ []).splitOn 0x3B).map _ = _
  rw [List.append_nil, List.splitOn_intercalate _ hsemicolon (by simpa using hne), hdecoded]

theorem length_intercalate_add_one {α : Type} (sep : α) : ∀ {ls : List (List α)}, ls ≠ [] →
    ([sep].intercalate ls).length + 1 = (ls.map fun l => l.length + 1).sum
  | [], h => absurd rfl h
  | [l], _ => by simp
  | l :: l' :: ls, _ => by
    have ih := length_intercalate_add_one sep (List.cons_ne_nil l' ls)
    rw [List.intercalate_cons_cons, List.map_cons, List.sum_cons, ← ih, List.length_append,
      List.length_append, List.length_singleton, Nat.add_assoc]

/-! ### Which filters are laid out -/

variable {d : EventFilterDescriptor}

theorem tryNew_eq_ok_iff {data : List UInt8} {maxSize : ℕ} {ty : UInt32} :
    tryNew data maxSize ty = .ok d ↔ data ≠ [] ∧ data.length ≤ maxSize ∧ d = ⟨data, ty⟩ := by
  rw [tryNew, ite_error_eq_ok_iff, ite_error_eq_ok_iff, List.length_eq_zero_iff, Nat.not_lt,
    Except.ok.injEq, eq_comm (a := d)]

theorem tryNewByProcessIds_eq_ok_iff {pids : List UInt32} :
    tryNewByProcessIds pids = .ok d ↔ (EventFilter.byPids pids).WithinLimits ∧
      d = ⟨pids.flatMap fun pid => leBytes 4 pid.toNat, eventFilterTypePid⟩ := by
  have hlength := FilterBuffer.length_flatMap_leBytes 4 UInt32.toNat pids
  have hne : (pids.flatMap fun pid => leBytes 4 pid.toNat) ≠ [] ↔ pids ≠ [] := by
    rw [← List.length_pos_iff, ← List.length_pos_iff, hlength]
    omega
  have hfits : pids.length ≤ maxEventFilterPidCount →
      (pids.flatMap fun pid => leBytes 4 pid.toNat).length ≤ maxEventFilterDataSize := by
    rw [hlength, maxEventFilterPidCount, maxEventFilterDataSize]
    omega
  rw [tryNewByProcessIds, ite_error_eq_ok_iff, Nat.not_lt, tryNew_eq_ok_iff, hne,
    EventFilter.WithinLimits]
  exact ⟨fun ⟨hfew, hne, _, heq⟩ => ⟨⟨hne, hfew⟩, heq⟩,
    fun ⟨⟨hne, hfew⟩, heq⟩ => ⟨hfew, hne, hfits hfew, heq⟩⟩

theorem tryNewByEventIdList_eq_ok_iff {eids : List UInt16} {filterIn : Bool} {ty : UInt32} :
    tryNewByEventIdList eids filterIn ty = .ok d ↔
      (eids ≠ [] ∧ eids.length ≤ maxEventFilterEventIdCount) ∧
        d = ⟨eventIdsData eids filterIn, ty⟩ := by
  have hlength : (eventIdsData eids filterIn).length = 4 + 2 * eids.length := by
    rw [eventIdsData, List.length_append, length_unitBytes]
    rfl
  have hnonempty : eventIdsData eids filterIn ≠ [] := by
    rw [← List.length_pos_iff, hlength]
    omega
  have hfits : eids.length ≤ maxEventFilterEventIdCount →
      (eventIdsData eids filterIn).length ≤ maxEventFilterDataSize := by
    rw [hlength, maxEventFilterEventIdCount, maxEventFilterDataSize]
    omega
  rw [tryNewByEventIdList, ite_error_eq_ok_iff, ite_error_eq_ok_iff, Nat.not_lt, List.isEmpty_iff]
  show _ ∧ _ ∧ tryNew (eventIdsData eids filterIn) _ _ = .ok d ↔ _
  rw [tryNew_eq_ok_iff]
  exact ⟨fun ⟨hne, hfew, _, _, heq⟩ => ⟨⟨hne, hfew⟩, heq⟩,
    fun ⟨⟨hne, hfew⟩, heq⟩ => ⟨hne, hfew, hnonempty, hfits hfew, heq⟩⟩

theorem length_wideNames {names : List String} (hne : names ≠ []) :
    (FilterBuffer.wideNames names).length =
      (names.map fun name => (encodeUtf16 name).length + 1).sum := by
  have hsum := length_intercalate_add_one 0x3B
    (show names.map encodeUtf16 ≠ [] by simpa using hne)
  rw [List.map_map] at hsum
  rw [FilterBuffer.wideNames, List.length_append]
  exact hsum

theorem tryNewByExecutableNames_eq_ok_iff {names : List String} :
    tryNewByExecutableNames names = .ok d ↔ (EventFilter.byExecutableNames names).WithinLimits ∧
      d = ⟨unitBytes (FilterBuffer.wideNames names), eventFilterTypeExecutableName⟩ := by
  have hforbidden : (¬ (names.any fun name =>
      name.isEmpty || name.contains ';' || name.contains (Char.ofNat 0)) = true) ↔
      ∀ name ∈ names, name ≠ "" ∧ ';' ∉ name.toList ∧ Char.ofNat 0 ∉ name.toList := by
    simp [and_assoc]
  have hnonempty : unitBytes (FilterBuffer.wideNames names) ≠ [] := by
    rw [← List.length_pos_iff, length_unitBytes, FilterBuffer.wideNames, List.length_append]
    exact Nat.mul_pos (by decide) (Nat.succ_pos _)
  rw [tryNewByExecutableNames, ite_error_eq_ok_iff, ite_error_eq_ok_iff, hforbidden,
    List.isEmpty_iff, EventFilter.WithinLimits]
  show _ ∧ _ ∧ tryNew (unitBytes (FilterBuffer.wideNames names)) _ _ = .ok d ↔ _
  rw [tryNew_eq_ok_iff, length_unitBytes]
  constructor
  · rintro ⟨hne, hallowed, -, hfits, heq⟩
    rw [length_wideNames hne] at hfits
    exact ⟨⟨hne, hallowed, hfits⟩, heq⟩
  · rintro ⟨⟨hne, hallowed, hfits⟩, heq⟩
    rw [← length_wideNames hne] at hfits
    exact ⟨hne, hallowed, hnonempty, hfits, heq⟩

theorem length_eventNamesData (filter : EventNamesFilter) :
    (eventNamesData filter).length =
      20 + (filter.names.map fun name => (utf8Bytes name).length + 1).sum := by
  rw [eventNamesData, List.length_append, List.length_flatMap]
  simp [length_leBytes]

theorem tryNewByEventNames_eq_ok_iff {filter : EventNamesFilter} :
    tryNewByEventNames filter = .ok d ↔ (EventFilter.byEventNames filter).WithinLimits ∧
      d = ⟨eventNamesData filter, eventFilterTypeEventName⟩ := by
  have hforbidden : (¬ (filter.names.any fun name =>
      name.isEmpty || name.contains (Char.ofNat 0)) = true) ↔
      ∀ name ∈ filter.names, name ≠ "" ∧ Char.ofNat 0 ∉ name.toList := by
    simp
  have hnonempty : eventNamesData filter ≠ [] := by
    rw [← List.length_pos_iff, length_eventNamesData]
    omega
  rw [tryNewByEventNames, ite_error_eq_ok_iff, ite_error_eq_ok_iff, hforbidden, List.isEmpty_iff,
    EventFilter.WithinLimits]
  show _ ∧ _ ∧ tryNew (eventNamesData filter) _ _ = .ok d ↔ _
  rw [tryNew_eq_ok_iff, length_eventNamesData, and_iff_right hnonempty]
  exact ⟨fun ⟨hne, hallowed, hfits, heq⟩ => ⟨⟨hne, hallowed, hfits⟩, heq⟩,
    fun ⟨⟨hne, hallowed, hfits⟩, heq⟩ => ⟨hne, hallowed, hfits, heq⟩⟩

end EventFilterDescriptor

namespace EventFilter

/-- The descriptor of a filter that is within its limits. -/
def descriptor : EventFilter → EventFilterDescriptor
  | .byPids pids => ⟨pids.flatMap fun pid => leBytes 4 pid.toNat, eventFilterTypePid⟩
  | .byEventIds ids => ⟨EventFilterDescriptor.eventIdsData ids true, eventFilterTypeEventId⟩
  | .excludeEventIds ids => ⟨EventFilterDescriptor.eventIdsData ids false, eventFilterTypeEventId⟩
  | .stackWalkByEventIds ids =>
    ⟨EventFilterDescriptor.eventIdsData ids true, eventFilterTypeStackwalk⟩
  | .excludeStackWalkByEventIds ids =>
    ⟨EventFilterDescriptor.eventIdsData ids false, eventFilterTypeStackwalk⟩
  | .byExecutableNames names =>
    ⟨unitBytes (FilterBuffer.wideNames names), eventFilterTypeExecutableName⟩
  | .byEventNames filter => ⟨EventFilterDescriptor.eventNamesData filter, eventFilterTypeEventName⟩

theorem descriptor_ty (f : EventFilter) : f.descriptor.ty = f.filterType := by
  cases f <;> rfl

/-- A filter is laid out exactly when it is within its limits. -/
theorem toEventFilterDescriptor_eq_ok_iff {f : EventFilter} {d : EventFilterDescriptor} :
    f.toEventFilterDescriptor = .ok d ↔ f.WithinLimits ∧ d = f.descriptor := by
  cases f with
  | byPids pids => exact EventFilterDescriptor.tryNewByProcessIds_eq_ok_iff
  | byEventIds ids | excludeEventIds ids | stackWalkByEventIds ids
  | excludeStackWalkByEventIds ids =>
    exact EventFilterDescriptor.tryNewByEventIdList_eq_ok_iff
  | byExecutableNames names => exact EventFilterDescriptor.tryNewByExecutableNames_eq_ok_iff
  | byEventNames filter => exact EventFilterDescriptor.tryNewByEventNames_eq_ok_iff

/-- **What is read is what was laid out.** -/
theorem read_descriptor {f : EventFilter} (h : f.WithinLimits) : f.descriptor.read = some f := by
  cases f with
  | byPids pids =>
    have hpids : chunksExact 4 ((pids.flatMap fun pid => leBytes 4 pid.toNat) ++ []) =
        pids.map fun pid => leBytes 4 pid.toNat :=
      chunksExact_flatMap (fun pid _ => length_leBytes 4 pid.toNat) (by decide)
    rw [List.append_nil] at hpids
    have hvalue : ∀ pid : UInt32, UInt32.ofNat (leValue (leBytes 4 pid.toNat)) = pid := by
      intro pid
      rw [leValue_leBytes pid.toNat_lt, UInt32.ofNat_toNat]
    show some (EventFilter.byPids ((chunksExact 4 (pids.flatMap _)).map _)) = _
    rw [hpids, List.map_map]
    exact congrArg (fun pids => some (EventFilter.byPids pids))
      ((List.map_congr_left fun pid _ => hvalue pid).trans (List.map_id pids))
  | byEventIds ids | excludeEventIds ids | stackWalkByEventIds ids
  | excludeStackWalkByEventIds ids =>
    show (EventFilterDescriptor.readEventIds (EventFilterDescriptor.eventIdsData ids _)).map _ = _
    rw [EventFilterDescriptor.readEventIds_eq h.2]
    rfl
  | byExecutableNames names =>
    obtain ⟨hne, hallowed, -⟩ := h
    exact congrArg (fun names => some (EventFilter.byExecutableNames names))
      (EventFilterDescriptor.readExecutableNames_eq hne fun name hname => (hallowed name hname).2)
  | byEventNames filter =>
    obtain ⟨-, hallowed, hfits⟩ := h
    have hcount : filter.names.length < 65536 := by
      have hsum := List.length_le_sum_of_one_le
        (filter.names.map fun name => (utf8Bytes name).length + 1) (by simp)
      rw [List.length_map] at hsum
      rw [maxEventFilterEventNameSize] at hfits
      omega
    exact congrArg (Option.map EventFilter.byEventNames)
      (EventFilterDescriptor.readEventNames_eq (fun name hname => (hallowed name hname).2) hcount)

end EventFilter

/-- The loop lays out every filter, in order, or fails. -/
theorem buildDescriptors_eq_ok_iff {seenTypes : List UInt32} {filters : List EventFilter}
    {ds : List EventFilterDescriptor} : buildDescriptors seenTypes filters = .ok ds ↔
      (∀ f ∈ filters, f.WithinLimits ∧ f.filterType ∉ seenTypes) ∧
        (filters.map (·.filterType)).Nodup ∧ ds = filters.map (·.descriptor) := by
  induction filters generalizing seenTypes ds with
  | nil =>
    rw [buildDescriptors, Except.ok.injEq]
    simp [eq_comm]
  | cons f filters ih =>
    -- a type is new to the rest of the loop when it is new now and not the one just seen
    have hfresh : (∀ g ∈ filters, g.WithinLimits ∧ g.filterType ∉ f.filterType :: seenTypes) ∧
        (filters.map (·.filterType)).Nodup ↔
        (∀ g ∈ filters, g.WithinLimits ∧ g.filterType ∉ seenTypes) ∧
          (f.filterType :: filters.map (·.filterType)).Nodup := by
      simp only [List.mem_cons, not_or, List.nodup_cons, List.mem_map, not_exists, not_and]
      constructor
      · rintro ⟨hall, hnodup⟩
        exact ⟨fun g hg => ⟨(hall g hg).1, (hall g hg).2.2⟩, fun g hg => (hall g hg).2.1, hnodup⟩
      · rintro ⟨hall, hnew, hnodup⟩
        exact ⟨fun g hg => ⟨(hall g hg).1, hnew g hg, (hall g hg).2⟩, hnodup⟩
    rw [buildDescriptors, bind_eq_ok_iff, List.forall_mem_cons, List.map_cons, List.map_cons]
    constructor
    · rintro ⟨d, hd, hrest⟩
      obtain ⟨hlimits, rfl⟩ := EventFilter.toEventFilterDescriptor_eq_ok_iff.mp hd
      rw [ite_error_eq_ok_iff, f.descriptor_ty, bind_eq_ok_iff] at hrest
      obtain ⟨hnew, ds', hds, heq⟩ := hrest
      obtain ⟨hall, hnodup, rfl⟩ := ih.mp hds
      obtain ⟨hall, hnodup⟩ := hfresh.mp ⟨hall, hnodup⟩
      exact ⟨⟨⟨hlimits, hnew⟩, hall⟩, hnodup, (Except.ok.inj heq).symm⟩
    · rintro ⟨⟨⟨hlimits, hnew⟩, hall⟩, hnodup, rfl⟩
      obtain ⟨hall, hnodup⟩ := hfresh.mpr ⟨hall, hnodup⟩
      refine ⟨f.descriptor, EventFilter.toEventFilterDescriptor_eq_ok_iff.mpr ⟨hlimits, rfl⟩, ?_⟩
      rw [ite_error_eq_ok_iff, f.descriptor_ty, bind_eq_ok_iff]
      exact ⟨hnew, _, ih.mpr ⟨hall, hnodup, rfl⟩, rfl⟩

/-- **Filters are laid out faithfully, or refused as a whole.** They are accepted exactly when each
is within its limits and no two have one type. Then Windows reads each of them, in order, out of its
descriptor, and no constructor has written outside its allocation. -/
theorem buildEventFilterDescriptors_reads (provider : Provider) :
    ((∃ ds, buildEventFilterDescriptors provider = .ok ds) ↔
      (∀ f ∈ provider.filters, f.WithinLimits) ∧ (provider.filters.map (·.filterType)).Nodup) ∧
    ∀ ds, buildEventFilterDescriptors provider = .ok ds →
      List.Forall₂ (fun f d => d.ty = f.filterType ∧ d.read = some f ∧
        ∀ alloc : ℕ → List UInt8, (∀ n, (alloc n).length = n) → f.allocate alloc = .ok d)
        provider.filters ds := by
  have hiff : ∀ ds, buildEventFilterDescriptors provider = .ok ds ↔
      ((∀ f ∈ provider.filters, f.WithinLimits) ∧ (provider.filters.map (·.filterType)).Nodup) ∧
        ds = provider.filters.map (·.descriptor) := by
    intro ds
    rw [buildEventFilterDescriptors, buildDescriptors_eq_ok_iff, and_assoc]
    simp only [List.not_mem_nil, not_false_eq_true, and_true]
  refine ⟨⟨fun ⟨ds, hds⟩ => ((hiff ds).mp hds).1, fun h => ⟨_, (hiff _).mpr ⟨h, rfl⟩⟩⟩, ?_⟩
  intro ds hds
  obtain ⟨⟨hlimits, -⟩, rfl⟩ := (hiff ds).mp hds
  rw [List.forall₂_map_right_iff, List.forall₂_same]
  intro f hf
  refine ⟨f.descriptor_ty, EventFilter.read_descriptor (hlimits f hf), fun alloc halloc => ?_⟩
  rw [EventFilter.allocate_eq halloc,
    EventFilter.toEventFilterDescriptor_eq_ok_iff.mpr ⟨hlimits f hf, rfl⟩]
  rfl

/-- A provider filtered by process, by event and by executable. -/
def filteredProvider : Provider :=
  { guid := .ofFields 1 0 0 (List.replicate 8 0), any := 0, all := 0, level := 5, traceFlags := 0,
    kernelFlags := 0, captureState := false,
    filters := [.byPids [4, 8], .excludeEventIds [1, 2],
      .byExecutableNames ["cmd.exe", "pwsh.exe"]] }

theorem buildEventFilterDescriptors_reads_filteredProvider :
    ∃ ds, buildEventFilterDescriptors filteredProvider = .ok ds ∧
      List.Forall₂ (fun f d => d.ty = f.filterType ∧ d.read = some f ∧
        ∀ alloc : ℕ → List UInt8, (∀ n, (alloc n).length = n) → f.allocate alloc = .ok d)
        filteredProvider.filters ds := by
  have hlimits : ∀ f ∈ filteredProvider.filters, f.WithinLimits := by
    intro f hf
    rcases List.mem_cons.mp hf with rfl | hf
    · exact ⟨by decide, by decide⟩
    rcases List.mem_cons.mp hf with rfl | hf
    · exact ⟨by decide, by decide⟩
    · obtain rfl := List.mem_singleton.mp hf
      exact ⟨by decide, by decide +kernel, by decide +kernel⟩
  have hreads := buildEventFilterDescriptors_reads filteredProvider
  obtain ⟨ds, hds⟩ := hreads.1.mpr ⟨hlimits, by decide⟩
  exact ⟨ds, hds, hreads.2 ds hds⟩

end Ferrisetw2
