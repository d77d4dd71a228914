import Ferrisetw2.Native.Tdh
import Ferrisetw2.Schema.Threads

/-!
# Which schema an event gets

TDH decides the schema of a TraceLogging event by the metadata the event carries, its name and its
field descriptors, and that of any other event by its descriptor. The metadata is in an extended
data item, or embedded at the start of the user buffer, behind that of the provider. Which events
embed it is for TDH to recognize, and a parameter here.

The cache looks at the descriptor and, where the id is 0, at the name in the item. Two TraceLogging
events of one name and other fields are one entry to the cache, and the second of them is decoded
with the table of the first. So it is with events that embed their metadata, whatever their names.

## Main definitions

* `embeddedMetadata` — the metadata in a user buffer
* `SchemaSource`, `DescribedRecord.schemaSource`, `Tdh` — what TDH looks at
* `eventSchema` — `event_schema`, the three steps of a call together
* `Coherent` — every schema handed out in a run is the event's own
* `Crowded`, `Separated` — the runs of which that holds, by what the events carry

## Main results

* `exists_run_eventSchema` — a call is the steps of one thread
* `coherent_iff_separated` — a run gets the right schemas from every TDH exactly if it is separated
* `not_coherent_oneName` — two events of one name, and two that embed their metadata
-/

namespace Ferrisetw2

open Rust Interleaving SchemaCache

/-! ### What TDH looks at -/

/-- The metadata of a TraceLogging event. -/
inductive EventMetadata where
  | parsed (name fields : List UInt8)
  /-- There is no name in it. -/
  | malformed (data : Option (List UInt8))
  deriving DecidableEq, Repr

/-- The metadata in a blob: what `get_event_name` reads, and what comes after it. -/
def EventMetadata.ofBlob (blob : List UInt8) : EventMetadata :=
  if blob.length < 2 then .malformed (some blob)
  else
    match EventHeaderExtendedDataItem.afterTags blob with
    | none => .malformed (some blob)
    | some bytes =>
      match memchr 0 bytes with
      | none => .malformed (some blob)
      | some nameLen => .parsed (bytes.take nameLen) (bytes.drop (nameLen + 1))

/-- The metadata in an item. -/
def EventHeaderExtendedDataItem.metadata (item : EventHeaderExtendedDataItem) : EventMetadata :=
  match item.data with
  | none => .malformed none
  | some blob => .ofBlob blob

/-- A blob prefixed with its size, a `u16` that counts itself, and what is behind it. -/
def splitBlob (bytes : List UInt8) : Option (List UInt8 × List UInt8) :=
  let size := leValue (bytes.take 2)
  if 2 ≤ size ∧ size ≤ bytes.length then some (bytes.take size, bytes.drop size) else none

/-- The metadata embedded in a user buffer: the provider's, the event's, and the values. -/
def embeddedMetadata (userBuffer : List UInt8) : EventMetadata :=
  match (splitBlob userBuffer).bind fun provider => splitBlob provider.2 with
  | some (blob, _) => .ofBlob blob
  | none => .malformed (some userBuffer)

/-- What TDH decides the schema of an event by. -/
inductive SchemaSource where
  | metadata (m : EventMetadata)
  | descriptor (key : SchemaKey)
  deriving DecidableEq, Repr

namespace DescribedRecord

/-- A TraceLogging event carries its metadata in an item, or embeds it. -/
def schemaSource (embeds : DescribedRecord → Bool) (event : DescribedRecord) : SchemaSource :=
  match event.items.find? (·.isTlg) with
  | some item => .metadata item.metadata
  | none =>
    if embeds event then .metadata (embeddedMetadata event.userBuffer)
    else .descriptor (.new event)

/-- Both keys of the cache. -/
def cacheKey (event : DescribedRecord) : SchemaKey × String := (.new event, event.cacheName)

end DescribedRecord

/-- TDH: which events it takes to embed their metadata, and what it builds. -/
structure Tdh where
  embeds : DescribedRecord → Bool
  build : SchemaSource → Except TdhNativeError TraceEventInfo

/-- `TraceEventInfo::build_from_event`. -/
def Tdh.buildFromEvent (tdh : Tdh) (event : DescribedRecord) :
    Except TdhNativeError TraceEventInfo :=
  tdh.build (event.schemaSource tdh.embeds)

/-- The property tables agree. -/
def TraceEventInfo.SameTable (te te' : TraceEventInfo) : Prop :=
  ∀ fuel, te.collect fuel = te'.collect fuel

/-- `event_schema`. A schema is its `TraceEventInfo`. -/
def eventSchema (tdh : Tdh) (cache : SchemaCache TraceEventInfo) (event : DescribedRecord) :
    Except TdhNativeError TraceEventInfo × SchemaCache TraceEventInfo :=
  match cache.cached (.new event) event.cacheName with
  | some schema => (.ok schema, cache)
  | none =>
    match tdh.buildFromEvent event with
    | .error e => (.error e, cache)
    | .ok tei =>
      let stored := cache.store (.new event) event.cacheName tei
      (.ok stored.1, stored.2)

/-- The cache after a run of calls. -/
def cacheAfter (tdh : Tdh) (events : List DescribedRecord) : SchemaCache TraceEventInfo :=
  CallMachine.after (eventSchema tdh) empty events

/-- Every schema handed out in the run has the table TDH builds for the event it is for. -/
def Coherent (tdh : Tdh) (events : List DescribedRecord) : Prop :=
  ∀ pre event, pre ++ [event] <+: events →
    ∀ schema, (eventSchema tdh (cacheAfter tdh pre) event).1 = .ok schema →
      ∃ own, tdh.buildFromEvent event = .ok own ∧ schema.SameTable own

/-! ### What a call does -/

section Call

variable {tdh : Tdh} {cache : SchemaCache TraceEventInfo} {event : DescribedRecord}

theorem eventSchema_of_cached {te : TraceEventInfo}
    (h : cache.cached (.new event) event.cacheName = some te) :
    eventSchema tdh cache event = (.ok te, cache) := by
  rw [eventSchema, h]

theorem eventSchema_of_error {e : TdhNativeError}
    (h : cache.cached (.new event) event.cacheName = none)
    (htdh : tdh.buildFromEvent event = .error e) :
    eventSchema tdh cache event = (.error e, cache) := by
  rw [eventSchema, h, htdh]

theorem eventSchema_of_built {te : TraceEventInfo}
    (h : cache.cached (.new event) event.cacheName = none)
    (htdh : tdh.buildFromEvent event = .ok te) :
    eventSchema tdh cache event =
      (.ok te, (cache.store (.new event) event.cacheName te).2) := by
  rw [eventSchema, h, htdh]
  simp only [store_fst, h, Option.getD_none]

/-- The three ways a call can go. -/
theorem eventSchema_cases (tdh : Tdh) (cache : SchemaCache TraceEventInfo)
    (event : DescribedRecord) :
    (∃ te, cache.cached (.new event) event.cacheName = some te ∧
      eventSchema tdh cache event = (.ok te, cache)) ∨
    (∃ e, cache.cached (.new event) event.cacheName = none ∧
      tdh.buildFromEvent event = .error e ∧ eventSchema tdh cache event = (.error e, cache)) ∨
    ∃ te, cache.cached (.new event) event.cacheName = none ∧ tdh.buildFromEvent event = .ok te ∧
      eventSchema tdh cache event =
        (.ok te, (cache.store (.new event) event.cacheName te).2) := by
  cases h : cache.cached (.new event) event.cacheName with
  | some te => exact .inl ⟨te, rfl, eventSchema_of_cached h⟩
  | none =>
    cases htdh : tdh.buildFromEvent event with
    | error e => exact .inr (.inl ⟨e, rfl, rfl, eventSchema_of_error h htdh⟩)
    | ok te => exact .inr (.inr ⟨te, rfl, rfl, eventSchema_of_built h htdh⟩)

/-- A call is the steps of one thread that nobody gets between. -/
theorem exists_run_eventSchema {T : Type} [DecidableEq T] (tdh : Tdh)
    {c : Config T (SchemaCache TraceEventInfo) (LocatorPc TraceEventInfo)} {t : T}
    (hidle : c.pc t = .idle) (event : DescribedRecord) :
    ∃ (is : List (LocatorStep TraceEventInfo)) (c' : Config T _ _),
      run locatorAct c (is.map (t, ·)) = some c' ∧
      c'.shared = (eventSchema tdh c.shared event).2 ∧
      c'.pc t = .returned (.new event) event.cacheName (eventSchema tdh c.shared event).1 := by
  rcases eventSchema_cases tdh c.shared event with
    ⟨te, hc, heq⟩ | ⟨e, hc, _, heq⟩ | ⟨te, hc, _, heq⟩
  · refine ⟨[.lookup event], ⟨c.shared, Function.update c.pc t _⟩, ?_, ?_, Function.update_self ..⟩
    · simp [run, step, locatorAct, hidle, probe, hc, heq]
    · rw [heq]
  · refine ⟨[.lookup event, .build (.error e)], ⟨c.shared, Function.update c.pc t _⟩, ?_, ?_,
      Function.update_self ..⟩
    · simp [run, step, locatorAct, hidle, probe, hc, heq]
    · rw [heq]
  · refine ⟨[.lookup event, .build (.ok te), .store],
      ⟨(c.shared.store (.new event) event.cacheName te).2, Function.update c.pc t _⟩, ?_, ?_,
      Function.update_self ..⟩
    · simp [run, step, locatorAct, hidle, probe, hc, heq, store_fst]
    · rw [heq]

end Call

/-! ### What a run leaves in the cache -/

theorem cacheAfter_concat (tdh : Tdh) (pre : List DescribedRecord) (event : DescribedRecord) :
    cacheAfter tdh (pre ++ [event]) = (eventSchema tdh (cacheAfter tdh pre) event).2 :=
  CallMachine.after_concat _ pre event

theorem counts_cacheAfter (tdh : Tdh) (events : List DescribedRecord) :
    Counts (cacheAfter tdh events) := by
  refine CallMachine.after_of_invariant Counts (fun cache event h => ?_) events counts_empty
  rcases eventSchema_cases tdh cache event with ⟨_, _, heq⟩ | ⟨_, _, _, heq⟩ | ⟨te, _, _, heq⟩
  · rwa [heq]
  · rwa [heq]
  · rw [heq]
    exact counts_store h _ _ te

/-- Entries stay. -/
theorem cached_cacheAfter_append {tdh : Tdh} {pre : List DescribedRecord} {key : SchemaKey}
    {name : String} {te : TraceEventInfo} (h : (cacheAfter tdh pre).cached key name = some te)
    (events : List DescribedRecord) :
    (cacheAfter tdh (pre ++ events)).cached key name = some te := by
  rw [cacheAfter, CallMachine.after_append]
  refine CallMachine.after_of_invariant
    (fun c : SchemaCache TraceEventInfo => c.cached key name = some te)
    (fun cache event hc => ?_) events h
  rcases eventSchema_cases tdh cache event with ⟨_, _, heq⟩ | ⟨_, _, _, heq⟩ | ⟨te', _, _, heq⟩
  · rwa [heq]
  · rwa [heq]
  · rw [heq]
    exact cached_store_of_cached hc te'

/-- The events that put the entries there: each was built for an event of the run, one that found
room. -/
theorem exists_of_cached {tdh : Tdh} {events : List DescribedRecord} {key : SchemaKey}
    {name : String} {te : TraceEventInfo} (h : (cacheAfter tdh events).cached key name = some te) :
    ∃ pre event post, events = pre ++ event :: post ∧ event.cacheKey = (key, name) ∧
      tdh.buildFromEvent event = .ok te ∧ (cacheAfter tdh pre).len < maxCachedSchemas := by
  induction events using List.reverseRecOn with
  | nil => cases h
  | append_singleton events last ih =>
    have hold : (cacheAfter tdh events).cached key name = some te →
        ∃ pre event post, events ++ [last] = pre ++ event :: post ∧
          event.cacheKey = (key, name) ∧ tdh.buildFromEvent event = .ok te ∧
          (cacheAfter tdh pre).len < maxCachedSchemas := by
      intro hc
      obtain ⟨pre, event, post, rfl, hkey, htdh, hroom⟩ := ih hc
      exact ⟨pre, event, post ++ [last], by simp, hkey, htdh, hroom⟩
    rw [cacheAfter_concat] at h
    rcases eventSchema_cases tdh (cacheAfter tdh events) last with
      ⟨_, _, heq⟩ | ⟨_, _, _, heq⟩ | ⟨te', _, htdh, heq⟩
    · rw [heq] at h
      exact hold h
    · rw [heq] at h
      exact hold h
    · rw [heq, cached_store] at h
      split at h
      · rename_i hnew
        obtain ⟨-, hroom, rfl, rfl⟩ := hnew
        cases h
        exact ⟨events, last, [], rfl, rfl, htdh, hroom⟩
      · exact hold h

theorem len_cacheAfter_append (tdh : Tdh) (pre events : List DescribedRecord) :
    (cacheAfter tdh pre).len ≤ (cacheAfter tdh (pre ++ events)).len := by
  have hcard := (counts_cacheAfter tdh pre).len_eq
  rw [← HashMap.card_pairs] at hcard
  rw [hcard]
  refine (counts_cacheAfter tdh (pre ++ events)).card_le fun p hp => ?_
  obtain ⟨te, hte⟩ := Option.ne_none_iff_exists'.mp ((mem_pairs_iff_cached _ p.1 p.2).mp hp)
  rw [cached_cacheAfter_append hte]
  exact Option.some_ne_none te

/-- A call that has a schema leaves one of the event's, or a full cache. -/
theorem cached_or_full_concat {tdh : Tdh} {event : DescribedRecord} {te : TraceEventInfo}
    (pre : List DescribedRecord) (htdh : tdh.buildFromEvent event = .ok te) :
    (∃ te', (cacheAfter tdh (pre ++ [event])).cached (.new event) event.cacheName = some te') ∨
      maxCachedSchemas ≤ (cacheAfter tdh pre).len := by
  rw [cacheAfter_concat]
  rcases eventSchema_cases tdh (cacheAfter tdh pre) event with
    ⟨te', hc, heq⟩ | ⟨e, _, herr, _⟩ | ⟨te', hnone, _, heq⟩
  · exact .inl ⟨te', by rw [heq, hc]⟩
  · rw [htdh] at herr
    cases herr
  · rw [heq, cached_store]
    by_cases hroom : (cacheAfter tdh pre).len < maxCachedSchemas
    · exact .inl ⟨te', by rw [if_pos ⟨hnone, hroom, rfl, rfl⟩]⟩
    · exact .inr (Nat.not_lt.mp hroom)

/-- So it is at the end of the run. -/
theorem cached_or_full {tdh : Tdh} {events : List DescribedRecord} {event : DescribedRecord}
    (h : event ∈ events) {te : TraceEventInfo} (htdh : tdh.buildFromEvent event = .ok te) :
    (cacheAfter tdh events).cached (.new event) event.cacheName ≠ none ∨
      maxCachedSchemas ≤ (cacheAfter tdh events).len := by
  obtain ⟨pre, post, rfl⟩ := List.append_of_mem h
  rcases cached_or_full_concat pre htdh with ⟨te', hte'⟩ | hfull
  · rw [List.append_cons, cached_cacheAfter_append hte']
    exact .inl (Option.some_ne_none te')
  · exact .inr (hfull.trans (len_cacheAfter_append tdh pre (event :: post)))

/-! ### The runs that get the right schemas -/

/-- As many cache keys as the cache has room for were seen with what TDH reads of the event. -/
def Crowded (embeds : DescribedRecord → Bool) (pre : List DescribedRecord)
    (event : DescribedRecord) : Prop :=
  maxCachedSchemas ≤
    ((pre.filter (·.schemaSource embeds = event.schemaSource embeds)).map
      (·.cacheKey)).toFinset.card

/-- Events under one cache key carry the same to TDH, unless the first came when the cache had no
room for it. -/
def Separated (embeds : DescribedRecord → Bool) (events : List DescribedRecord) : Prop :=
  ∀ pre a mid b, pre ++ a :: mid ++ [b] <+: events → a.cacheKey = b.cacheKey →
    a.schemaSource embeds = b.schemaSource embeds ∨ Crowded embeds pre a

/-- An event that found room was not crowded out. -/
theorem not_crowded_of_room {tdh : Tdh} {pre : List DescribedRecord} {event : DescribedRecord}
    {te : TraceEventInfo} (htdh : tdh.buildFromEvent event = .ok te)
    (hroom : (cacheAfter tdh pre).len < maxCachedSchemas) : ¬ Crowded tdh.embeds pre event := by
  intro hcrowded
  refine absurd ((counts_cacheAfter tdh pre).card_le fun p hp => ?_)
    (Nat.not_le.mpr (Nat.lt_of_lt_of_le hroom hcrowded))
  obtain ⟨other, hother, rfl⟩ := List.mem_map.mp (List.mem_toFinset.mp hp)
  obtain ⟨hmem, hsource⟩ := List.mem_filter.mp hother
  have hbuilt : tdh.buildFromEvent other = .ok te := by
    rw [Tdh.buildFromEvent, of_decide_eq_true hsource, ← Tdh.buildFromEvent, htdh]
  exact (cached_or_full hmem hbuilt).resolve_right (Nat.not_le.mpr hroom)

/-- A separated run gets the right schemas. -/
theorem coherent_of_separated {tdh : Tdh} {events : List DescribedRecord}
    (h : Separated tdh.embeds events) : Coherent tdh events := by
  intro pre event hpre schema hok
  rcases eventSchema_cases tdh (cacheAfter tdh pre) event with
    ⟨te, hc, heq⟩ | ⟨e, _, _, heq⟩ | ⟨te, _, htdh, heq⟩
  · rw [heq] at hok
    cases hok
    obtain ⟨p, a, mid, rfl, hkey, htdh, hroom⟩ := exists_of_cached hc
    rcases h p a mid event hpre hkey with hsame | hcrowded
    · exact ⟨schema, by rw [Tdh.buildFromEvent, ← hsame, ← Tdh.buildFromEvent, htdh], fun _ => rfl⟩
    · exact absurd hcrowded (not_crowded_of_room htdh hroom)
  · rw [heq] at hok
    cases hok
  · rw [heq] at hok
    cases hok
    exact ⟨schema, htdh, fun _ => rfl⟩

/-- The TDH that knows one kind of event. -/
def tdhOf (embeds : DescribedRecord → Bool) (source : SchemaSource) (te : TraceEventInfo) : Tdh :=
  ⟨embeds, fun other => if other = source then .ok te else .error .allocationError⟩

section OneKind

variable {embeds : DescribedRecord → Bool} {te : TraceEventInfo}

/-- With that TDH the cache holds nothing but entries of that kind. -/
theorem len_cacheAfter_tdhOf_le (event : DescribedRecord) (pre : List DescribedRecord) :
    (cacheAfter (tdhOf embeds (event.schemaSource embeds) te) pre).len ≤
      ((pre.filter (·.schemaSource embeds = event.schemaSource embeds)).map
        (·.cacheKey)).toFinset.card := by
  refine (counts_cacheAfter _ pre).len_le_card fun key name hc => ?_
  obtain ⟨te', hte'⟩ := Option.ne_none_iff_exists'.mp hc
  obtain ⟨p, a, post, rfl, hkey, htdh, -⟩ := exists_of_cached hte'
  rw [List.mem_toFinset, List.mem_map]
  refine ⟨a, List.mem_filter.mpr ⟨by simp, ?_⟩, hkey⟩
  by_contra hne
  rw [Tdh.buildFromEvent, tdhOf] at htdh
  dsimp only at htdh
  rw [if_neg (by simpa using hne)] at htdh
  cases htdh

/-- A run that is not separated gets a wrong schema from some TDH. -/
theorem separated_of_coherent {events : List DescribedRecord}
    (h : ∀ build, Coherent ⟨embeds, build⟩ events) : Separated embeds events := by
  intro pre a mid b hpre hkey
  by_contra hnot
  obtain ⟨hsource, hcrowded⟩ := not_or.mp hnot
  let tdh := tdhOf embeds (a.schemaSource embeds) TraceEventInfo.selfContaining
  have hroom : (cacheAfter tdh pre).len < maxCachedSchemas :=
    Nat.lt_of_le_of_lt (len_cacheAfter_tdhOf_le a pre) (Nat.not_le.mp hcrowded)
  have hbuilt : tdh.buildFromEvent a = .ok TraceEventInfo.selfContaining := if_pos rfl
  obtain ⟨te', hte'⟩ := (cached_or_full_concat pre hbuilt).resolve_right (Nat.not_le.mpr hroom)
  -- `b` comes upon the entry of `a`, whose table is none TDH would have built for it
  have hcached : (cacheAfter tdh (pre ++ a :: mid)).cached (.new b) b.cacheName = some te' := by
    have hkeys := Prod.mk.inj hkey
    rw [List.append_cons, ← hkeys.1, ← hkeys.2]
    exact cached_cacheAfter_append hte' mid
  have hcoherent : Coherent tdh events := h tdh.build
  obtain ⟨own, hown, -⟩ := hcoherent (pre ++ a :: mid) b hpre te'
    (by rw [eventSchema_of_cached hcached])
  have hnone : tdh.buildFromEvent b = .error .allocationError := if_neg (Ne.symm hsource)
  rw [hnone] at hown
  cases hown

end OneKind

/-- **The runs that get the right schemas**, whatever TDH decides by what it looks at: those in
which no two events share a cache key and carry different things to TDH, the second one after the
first was cached. -/
theorem coherent_iff_separated (embeds : DescribedRecord → Bool) (events : List DescribedRecord) :
    (∀ build, Coherent ⟨embeds, build⟩ events) ↔ Separated embeds events :=
  ⟨separated_of_coherent, fun h _ => coherent_of_separated h⟩

/-! ### Two events of one name -/

/-- The item of this metadata. -/
def tlgItem (blob : List UInt8) (h : blob.length ≤ 65535) : EventHeaderExtendedDataItem where
  extType := eventHeaderExtTypeEventSchemaTl
  data := some blob
  data_le := fun _ hb => (Option.some.inj (Option.mem_def.mp hb)) ▸ h

/-- A TraceLogging event with the name `E` and one field `P` of this in-type. -/
def oneField (inType : UInt8) : DescribedRecord where
  toEventRecord := { namelessEvent with extendedData := [eventHeaderExtTypeEventSchemaTl] }
  providerId := .ofFields 0 0 0 (List.replicate 8 0)
  eventId := 0
  opcode := 0
  version := 0
  level := 0
  items := [tlgItem [8, 0, 0, 0x45, 0, 0x50, 0, inType] (Nat.le_of_ble_eq_true rfl)]
  items_extType := rfl

/-- The table of one field `P` of this in-type. -/
def oneFieldInfo (inType : UInt8) : TraceEventInfo where
  data := 1
  data_ne_zero := Nat.one_ne_zero
  propertyCount := 1
  topLevelPropertyCount := 1
  eventPropertyInfoArray := [⟨0, 0, inType.toUInt16, 0, 1, 0⟩]
  length_array := rfl
  stringAt := fun _ => "P"

/-- What TDH builds from the in-type of the one field. -/
def buildOneField : SchemaSource → Except TdhNativeError TraceEventInfo
  | .metadata (.parsed _ [0x50, 0, inType]) => .ok (oneFieldInfo inType)
  | _ => .error .allocationError

/-- Such an event with its metadata embedded, its name the letter with this code. -/
def embeddedField (letter inType : UInt8) : DescribedRecord :=
  { namelessEvent with
    userBuffer := [4, 0, 0x51, 0] ++ [8, 0, 0, letter, 0, 0x50, 0, inType] ++ [7, 0, 0, 0]
    userBuffer_le := Nat.le_of_ble_eq_true rfl
    eventId := 0 }

/-- The tables of a `UInt16` and a `UInt32` are not the same. -/
theorem not_sameTable_oneField : ¬ (oneFieldInfo 6).SameTable (oneFieldInfo 8) := by
  intro htable
  have hprops : (oneFieldInfo 6).collect 1 =
      .ok [⟨"P", .value .inTypeUInt16 .outTypeNull (.length 0)⟩] := rfl
  rw [htable 1] at hprops
  cases hprops

/-- The second event, of a `UInt32`, is decoded with the table of the first, of a `UInt16`: where
their names are the same, and whatever their names are where the metadata is embedded. -/
theorem not_coherent_oneName :
    (∀ embeds, ¬ ∀ build, Coherent ⟨embeds, build⟩ [oneField 6, oneField 8]) ∧
      ∀ embeds, embeds (embeddedField 0x45 6) = true → embeds (embeddedField 0x46 8) = true →
        ¬ ∀ build, Coherent ⟨embeds, build⟩ [embeddedField 0x45 6, embeddedField 0x46 8] := by
  constructor
  · intro embeds h
    obtain ⟨own, hown, htable⟩ := h buildOneField [oneField 6] (oneField 8) (List.prefix_refl _)
      (oneFieldInfo 6) rfl
    cases hown
    exact not_sameTable_oneField htable
  · intro embeds hfirst hsecond h
    let tdh : Tdh := ⟨embeds, buildOneField⟩
    have hask : tdh.buildFromEvent (embeddedField 0x45 6) = .ok (oneFieldInfo 6) :=
      (congrArg buildOneField (if_pos hfirst)).trans rfl
    have hask' : tdh.buildFromEvent (embeddedField 0x46 8) = .ok (oneFieldInfo 8) :=
      (congrArg buildOneField (if_pos hsecond)).trans rfl
    have hcached : (cacheAfter tdh [embeddedField 0x45 6]).cached (.new (embeddedField 0x46 8))
        (embeddedField 0x46 8).cacheName = some (oneFieldInfo 6) := by
      have hcache : cacheAfter tdh [embeddedField 0x45 6] = _ :=
        congrArg Prod.snd (eventSchema_of_built rfl hask)
      rw [hcache]
      rfl
    obtain ⟨own, hown, htable⟩ := h buildOneField [embeddedField 0x45 6] (embeddedField 0x46 8)
      (List.prefix_refl _) (oneFieldInfo 6) (by rw [eventSchema_of_cached hcached])
    cases hask'.symm.trans hown
    exact not_sameTable_oneField htable

end Ferrisetw2
