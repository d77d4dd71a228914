import Ferrisetw2.Lib.Text
import Ferrisetw2.Native.EventName

/-!
# Decoding extended data

Extended data comes out of files, and its sizes are not to be trusted: `DataSize` is all that may be
read, whatever the bytes announce. There are three rules. Most items have a fixed part, and are
dropped when there is less than that. A SID says how many sub-authorities it has. A stack trace has
as many addresses as fit. `extended_data.rs`.

Reads go through `readRange`, so one at or past `DataSize` is out of bounds.

## Main definitions

* `Sid`, `StackTraceItem`, `ExtendedDataItem`
* `EventHeaderExtendedDataItem.toExtendedDataItem`
* `fixedPart` — the sizes of the fixed parts
* `EventHeaderExtendedDataItem.DecodesFaithfully` — the decoder is total, bounded and faithful

## Main results

* `Sid.fromRaw_eq`, `Sid.subAuthority_eq` — a SID is complete, and can be read
* `StackTraceItem.fromRaw_eq` — the addresses are the whole ones
* `decodesFaithfully` — every item is decoded faithfully
-/

namespace Ferrisetw2

open Rust

/-! ### Items -/

def eventHeaderExtTypeRelatedActivityid : UInt16 := 1
def eventHeaderExtTypeSid : UInt16 := 2
def eventHeaderExtTypeTsId : UInt16 := 3
def eventHeaderExtTypeInstanceInfo : UInt16 := 4
def eventHeaderExtTypeStackTrace32 : UInt16 := 5
def eventHeaderExtTypeStackTrace64 : UInt16 := 6
def eventHeaderExtTypeEventKey : UInt16 := 10
def eventHeaderExtTypeProcessStartKey : UInt16 := 13
def eventHeaderExtTypeContainerId : UInt16 := 16

/-- `Sid`. -/
structure Sid where
  data : List UInt8
  deriving DecidableEq, Repr

/-- `StackTraceItem`. -/
structure StackTraceItem (Address : Type) where
  matchId : UInt64
  addresses : List Address
  deriving DecidableEq, Repr

/-- `EVENT_EXTENDED_ITEM_INSTANCE`. -/
structure EventExtendedItemInstance where
  instanceId : UInt32
  parentInstanceId : UInt32
  parentGuid : Guid
  deriving DecidableEq, Repr

/-- `ExtendedDataItem`. -/
inductive ExtendedDataItem where
  | unsupported
  | relatedActivityId (guid : Guid)
  | sid (sid : Sid)
  | tsId (sessionId : UInt32)
  | instanceInfo (item : EventExtendedItemInstance)
  | stackTrace32 (item : StackTraceItem UInt32)
  | stackTrace64 (item : StackTraceItem UInt64)
  | traceLogging (eventName : String)
  | provTraits (bytes : List UInt8)
  | containerId (guid : Guid)
  | eventKey (key : UInt64)
  | processStartKey (key : UInt64)
  deriving DecidableEq, Repr

/-! ### Values -/

/-- A `u32` in memory. -/
def u32Of (bytes : List UInt8) : UInt32 := UInt32.ofNat (leValue bytes)

/-- A `u64` in memory. -/
def u64Of (bytes : List UInt8) : UInt64 := UInt64.ofNat (leValue bytes)

/-- A `GUID` in memory. -/
def guidOfBytes (bytes : List UInt8) : Guid :=
  .ofFields (u32Of (range 0 4 bytes)) (UInt16.ofNat (leValue (range 4 6 bytes)))
    (UInt16.ofNat (leValue (range 6 8 bytes))) (range 8 16 bytes)

/-- An `EVENT_EXTENDED_ITEM_INSTANCE` in memory. -/
def instanceOf (bytes : List UInt8) : EventExtendedItemInstance where
  instanceId := u32Of (range 0 4 bytes)
  parentInstanceId := u32Of (range 4 8 bytes)
  parentGuid := guidOfBytes (range 8 24 bytes)

/-- `read_fixed`, for a value of that size. -/
def readFixed (size : ℕ) (blob : List UInt8) : Checked (Option (List UInt8)) :=
  if blob.length < size then .ok none
  else do
    let bytes ← readRange 0 size blob
    .ok (some bytes)

/-- An item that is its fixed part. -/
def fixedItem (size : ℕ) (item : List UInt8 → ExtendedDataItem) (blob : List UInt8) :
    Checked ExtendedDataItem := do
  let bytes ← readFixed size blob
  .ok (bytes.elim .unsupported item)

/-! ### SIDs -/

namespace Sid

/-- `Sid::from_raw`. -/
def fromRaw (blob : List UInt8) : Checked (Option Sid) :=
  if blob.length < 2 then .ok none
  else do
    let subAuthorityCount ← readAt 1 blob
    let fullLen := 8 + 4 * subAuthorityCount.toNat
    if blob.length < fullLen then .ok none
    else do
      let bytes ← readRange 0 fullLen blob
      .ok (some ⟨bytes⟩)

/-- `sub_authority_count`. -/
def subAuthorityCount (sid : Sid) : Checked UInt8 := readAt 1 sid.data

/-- `sub_authority`. -/
def subAuthority (sid : Sid) (index : ℕ) : Checked (Option UInt32) := do
  let count ← sid.subAuthorityCount
  if count.toNat ≤ index then .ok none
  else do
    let start := 8 + 4 * index
    let bytes ← readRange start (start + 4) sid.data
    .ok (some (u32Of bytes))

end Sid

/-! ### Stack traces -/

namespace StackTraceItem

/-- The loop: `count` addresses of `size` bytes, from an offset. -/
def readAddresses (size : ℕ) (blob : List UInt8) : ℕ → ℕ → Checked (List (List UInt8))
  | _, 0 => .ok []
  | offset, count + 1 => do
    let address ← readRange offset (offset + size) blob
    let addresses ← readAddresses size blob (offset + size) count
    .ok (address :: addresses)

/-- `StackTraceItem::from_raw`, for addresses of that size. `Address` is at offset 8. -/
def fromRaw {Address : Type} (size : ℕ) (ofBytes : List UInt8 → Address) (matchId : UInt64)
    (blob : List UInt8) : Checked (Option (StackTraceItem Address)) :=
  if blob.length < 8 then .ok none
  else do
    let addresses ← readAddresses size blob 8 ((blob.length - 8) / size)
    .ok (some ⟨matchId, addresses.map ofBytes⟩)

/-- The stack traces of `to_extended_data_item`. -/
def read {Address : Type} (size : ℕ) (ofBytes : List UInt8 → Address)
    (item : StackTraceItem Address → ExtendedDataItem) (blob : List UInt8) :
    Checked ExtendedDataItem := do
  match ← readFixed 8 blob with
  | none => .ok .unsupported
  | some bytes => do
    let trace ← fromRaw size ofBytes (u64Of bytes) blob
    .ok (trace.elim .unsupported item)

end StackTraceItem

/-! ### The decoder -/

/-- The `match` of `to_extended_data_item`. -/
def itemOf (extType : UInt16) (blob : List UInt8) : Checked ExtendedDataItem :=
  if extType = eventHeaderExtTypeRelatedActivityid then
    fixedItem 16 (.relatedActivityId ∘ guidOfBytes) blob
  else if extType = eventHeaderExtTypeSid then do
    let sid ← Sid.fromRaw blob
    .ok (sid.elim .unsupported .sid)
  else if extType = eventHeaderExtTypeTsId then fixedItem 4 (.tsId ∘ u32Of) blob
  else if extType = eventHeaderExtTypeInstanceInfo then
    fixedItem 24 (.instanceInfo ∘ instanceOf) blob
  else if extType = eventHeaderExtTypeStackTrace32 then
    StackTraceItem.read 4 u32Of .stackTrace32 blob
  else if extType = eventHeaderExtTypeStackTrace64 then
    StackTraceItem.read 8 u64Of .stackTrace64 blob
  else if extType = eventHeaderExtTypeProcessStartKey then
    fixedItem 8 (.processStartKey ∘ u64Of) blob
  else if extType = eventHeaderExtTypeEventKey then fixedItem 8 (.eventKey ∘ u64Of) blob
  else if extType = eventHeaderExtTypeEventSchemaTl then do
    let name ← eventNameOf blob
    .ok (.traceLogging (name.getD ""))
  else if extType = eventHeaderExtTypeProvTraits then do
    let bytes ← readRange 0 blob.length blob
    .ok (.provTraits bytes)
  else if extType = eventHeaderExtTypeContainerId then
    fixedItem 16 (.containerId ∘ guidOfBytes) blob
  else .ok .unsupported

/-- `to_extended_data_item`. -/
def EventHeaderExtendedDataItem.toExtendedDataItem (item : EventHeaderExtendedDataItem) :
    Checked ExtendedDataItem :=
  match item.data with
  | none => .ok .unsupported
  | some blob => itemOf item.extType blob

/-! ### What is read -/

theorem readFixed_eq (size : ℕ) (blob : List UInt8) :
    readFixed size blob = .ok (if blob.length < size then none else some (blob.take size)) := by
  rw [readFixed]
  split
  · rfl
  · rename_i hlong
    rw [readRange_of_le (Nat.zero_le _) (Nat.not_lt.mp hlong)]
    rfl

theorem fixedItem_eq (size : ℕ) (item : List UInt8 → ExtendedDataItem) (blob : List UInt8) :
    fixedItem size item blob =
      .ok (if blob.length < size then .unsupported else item (blob.take size)) := by
  rw [fixedItem, readFixed_eq, bind_ok]
  split
  · rfl
  · rfl

/-- The bytes that a SID announces. -/
def sidLength (blob : List UInt8) : ℕ := 8 + 4 * (blob.getD 1 0).toNat

/-- A SID is there when all it announces is there. -/
theorem Sid.fromRaw_eq (blob : List UInt8) : Sid.fromRaw blob =
    .ok (if blob.length < sidLength blob then none else some ⟨blob.take (sidLength blob)⟩) := by
  rcases blob with _ | ⟨revision, _ | ⟨count, rest⟩⟩
  · rfl
  · rfl
  · have hlength : 8 + 4 * count.toNat = sidLength (revision :: count :: rest) := rfl
    rw [Sid.fromRaw, if_neg (by simp), readAt_of_getElem? rfl, bind_ok]
    dsimp only
    rw [hlength]
    split
    · rfl
    · rename_i hlong
      rw [readRange_of_le (Nat.zero_le _) (Nat.not_lt.mp hlong)]
      rfl

/-- Each sub-authority of a complete SID can be read. -/
theorem Sid.subAuthority_eq {sid : Sid} {count : UInt8} (hcount : sid.data[1]? = some count)
    (hlength : sid.data.length = 8 + 4 * count.toNat) (index : ℕ) :
    sid.subAuthority index =
      .ok (if index < count.toNat then
        some (u32Of (range (8 + 4 * index) (8 + 4 * index + 4) sid.data)) else none) := by
  rw [Sid.subAuthority, Sid.subAuthorityCount, readAt_of_getElem? hcount, bind_ok]
  split
  · rename_i hge
    rw [if_neg (Nat.not_lt.mpr hge)]
  · rename_i hlt
    dsimp only
    rw [if_pos (Nat.not_le.mp hlt), readRange_of_le (Nat.le_add_right _ _) (by omega), bind_ok]

namespace StackTraceItem

theorem readAddresses_eq {size : ℕ} {blob : List UInt8} {offset count : ℕ}
    (h : offset + count * size ≤ blob.length) : readAddresses size blob offset count =
      .ok ((List.range count).map fun i => ((blob.drop offset).drop (i * size)).take size) := by
  induction count generalizing offset with
  | zero => rfl
  | succ count ih =>
    rw [Nat.add_mul, Nat.one_mul] at h
    have hfirst : range offset (offset + size) blob = (blob.drop offset).take size := by
      rw [range, List.drop_take, Nat.add_sub_cancel_left]
    rw [readAddresses, readRange_of_le (Nat.le_add_right _ _) (by omega), bind_ok,
      ih (by omega), bind_ok, hfirst, List.range_succ_eq_map, List.map_cons, List.map_map,
      Nat.zero_mul, List.drop_zero]
    congr 2
    refine List.map_congr_left fun i _ => ?_
    show ((blob.drop (offset + size)).drop (i * size)).take size =
      ((blob.drop offset).drop ((i + 1) * size)).take size
    rw [List.drop_drop, List.drop_drop, Nat.add_mul, Nat.one_mul]
    congr 2
    omega

/-- The addresses are the whole ones behind the fixed part. -/
theorem read_eq {Address : Type} (size : ℕ) (ofBytes : List UInt8 → Address)
    (item : StackTraceItem Address → ExtendedDataItem) (blob : List UInt8) :
    read size ofBytes item blob = .ok (if blob.length < 8 then .unsupported else
      item ⟨u64Of (blob.take 8), (chunksExact size (blob.drop 8)).map ofBytes⟩) := by
  rw [read, readFixed_eq, bind_ok]
  by_cases hlong : blob.length < 8
  · rw [if_pos hlong, if_pos hlong]
  · rw [if_neg hlong, if_neg hlong]
    have hfits : 8 + (blob.length - 8) / size * size ≤ blob.length := by
      have := Nat.div_mul_le_self (blob.length - 8) size
      omega
    dsimp only
    rw [fromRaw, if_neg hlong, readAddresses_eq hfits, bind_ok, chunksExact, List.length_drop]
    rfl

end StackTraceItem

/-! ### Faithfulness -/

/-- The size of the fixed part of an item, for the types that have one. -/
def fixedPart (extType : UInt16) : Option ℕ :=
  if extType = eventHeaderExtTypeRelatedActivityid ∨ extType = eventHeaderExtTypeContainerId then
    some 16
  else if extType = eventHeaderExtTypeTsId then some 4
  else if extType = eventHeaderExtTypeInstanceInfo then some 24
  else if extType = eventHeaderExtTypeStackTrace32 ∨ extType = eventHeaderExtTypeStackTrace64 ∨
      extType = eventHeaderExtTypeProcessStartKey ∨ extType = eventHeaderExtTypeEventKey then
    some 8
  else none

/-- A stack trace as it is stored, with something behind it. -/
def stackTraceBytes {Address : Type} (size : ℕ) (toNat : Address → ℕ)
    (trace : StackTraceItem Address) (trailing : List UInt8) : List UInt8 :=
  leBytes 8 trace.matchId.toNat ++
    (trace.addresses.flatMap (fun address => leBytes size (toNat address)) ++ trailing)

/-- The item is decoded without a read out of bounds, dropped exactly when it is too short, and
otherwise decoded into what it holds. -/
structure EventHeaderExtendedDataItem.DecodesFaithfully (item : EventHeaderExtendedDataItem) :
    Prop where
  total : ∃ r, item.toExtendedDataItem = .ok r
  fixed : ∀ blob size, item.data = some blob → fixedPart item.extType = some size →
    (item.toExtendedDataItem = .ok .unsupported ↔ blob.length < size)
  sid_refused : ∀ blob, item.data = some blob → item.extType = eventHeaderExtTypeSid →
    (item.toExtendedDataItem = .ok .unsupported ↔ blob.length < sidLength blob) ∧
      ((∃ sid, item.toExtendedDataItem = .ok (.sid sid)) ↔ sidLength blob ≤ blob.length)
  /-- An accepted SID has its announced length, and all its sub-authorities. -/
  sid_complete : ∀ sid, item.toExtendedDataItem = .ok (.sid sid) → ∃ count,
    sid.subAuthorityCount = .ok count ∧ sid.data.length = 8 + 4 * count.toNat ∧
      (∃ blob, item.data = some blob ∧ sid.data = blob.take (sidLength blob)) ∧
      ∀ index, sid.subAuthority index = .ok (if index < count.toNat then
        some (u32Of (range (8 + 4 * index) (8 + 4 * index + 4) sid.data)) else none)
  stackTrace32 : ∀ trace trailing, item.extType = eventHeaderExtTypeStackTrace32 →
    trailing.length < 4 → item.data = some (stackTraceBytes 4 UInt32.toNat trace trailing) →
    item.toExtendedDataItem = .ok (.stackTrace32 trace)
  stackTrace64 : ∀ trace trailing, item.extType = eventHeaderExtTypeStackTrace64 →
    trailing.length < 8 → item.data = some (stackTraceBytes 8 UInt64.toNat trace trailing) →
    item.toExtendedDataItem = .ok (.stackTrace64 trace)

/-- A stack trace is read back. -/
theorem StackTraceItem.read_stackTraceBytes {Address : Type} {size : ℕ} {toNat : Address → ℕ}
    {ofBytes : List UInt8 → Address}
    (hread : ∀ address, ofBytes (leBytes size (toNat address)) = address)
    (item : StackTraceItem Address → ExtendedDataItem) (trace : StackTraceItem Address)
    {trailing : List UInt8} (htrailing : trailing.length < size) :
    StackTraceItem.read size ofBytes item (stackTraceBytes size toNat trace trailing) =
      .ok (item trace) := by
  have hmatch : u64Of (leBytes 8 trace.matchId.toNat) = trace.matchId := by
    rw [u64Of, leValue_leBytes trace.matchId.toNat_lt, UInt64.ofNat_toNat]
  have haddresses : (trace.addresses.map fun address => leBytes size (toNat address)).map ofBytes =
      trace.addresses := by
    rw [List.map_map]
    exact (List.map_congr_left fun address _ => hread address).trans (List.map_id _)
  rw [StackTraceItem.read_eq, stackTraceBytes, if_neg (by simp [length_leBytes]),
    List.take_left' (length_leBytes _ _), List.drop_left' (length_leBytes _ _), hmatch,
    chunksExact_flatMap (fun address _ => length_leBytes _ _) htrailing, haddresses]

/-- What the `match` can come to. -/
inductive ItemOf (extType : UInt16) (blob : List UInt8) : Checked ExtendedDataItem → Prop where
  | fixed {size r} : fixedPart extType = some size → r ≠ .unsupported → (∀ sid, r ≠ .sid sid) →
    ItemOf extType blob (.ok (if blob.length < size then .unsupported else r))
  | sid : extType = eventHeaderExtTypeSid →
    ItemOf extType blob (.ok (if blob.length < sidLength blob then .unsupported
      else .sid ⟨blob.take (sidLength blob)⟩))
  | other {r} : fixedPart extType = none → extType ≠ eventHeaderExtTypeSid →
    (∀ sid, r ≠ .sid sid) → ItemOf extType blob (.ok r)

theorem ItemOf.exists_eq_ok {extType : UInt16} {blob : List UInt8}
    {result : Checked ExtendedDataItem} (h : ItemOf extType blob result) : ∃ r, result = .ok r := by
  cases h with
  | fixed _ _ _ => exact ⟨_, rfl⟩
  | sid _ => exact ⟨_, rfl⟩
  | other _ _ _ => exact ⟨_, rfl⟩

/-- One case for each branch. -/
theorem itemOf_spec {blob : List UInt8} {name : Option String} (hname : eventNameOf blob = .ok name)
    (extType : UInt16) : ItemOf extType blob (itemOf extType blob) := by
  rw [itemOf]
  by_cases h1 : extType = eventHeaderExtTypeRelatedActivityid
  · rw [if_pos h1, fixedItem_eq]
    exact .fixed (by rw [h1]; rfl) nofun nofun
  rw [if_neg h1]
  by_cases h2 : extType = eventHeaderExtTypeSid
  · rw [if_pos h2, Sid.fromRaw_eq, bind_ok]
    have hsid : ((if blob.length < sidLength blob then none
        else some ⟨blob.take (sidLength blob)⟩ : Option Sid).elim .unsupported .sid) =
        (if blob.length < sidLength blob then .unsupported
          else .sid ⟨blob.take (sidLength blob)⟩ : ExtendedDataItem) := by
      split
      · rfl
      · rfl
    rw [hsid]
    exact .sid h2
  rw [if_neg h2]
  by_cases h3 : extType = eventHeaderExtTypeTsId
  · rw [if_pos h3, fixedItem_eq]
    exact .fixed (by rw [h3]; rfl) nofun nofun
  rw [if_neg h3]
  by_cases h4 : extType = eventHeaderExtTypeInstanceInfo
  · rw [if_pos h4, fixedItem_eq]
    exact .fixed (by rw [h4]; rfl) nofun nofun
  rw [if_neg h4]
  by_cases h5 : extType = eventHeaderExtTypeStackTrace32
  · rw [if_pos h5, StackTraceItem.read_eq]
    exact .fixed (by rw [h5]; rfl) nofun nofun
  rw [if_neg h5]
  by_cases h6 : extType = eventHeaderExtTypeStackTrace64
  · rw [if_pos h6, StackTraceItem.read_eq]
    exact .fixed (by rw [h6]; rfl) nofun nofun
  rw [if_neg h6]
  by_cases h13 : extType = eventHeaderExtTypeProcessStartKey
  · rw [if_pos h13, fixedItem_eq]
    exact .fixed (by rw [h13]; rfl) nofun nofun
  rw [if_neg h13]
  by_cases h10 : extType = eventHeaderExtTypeEventKey
  · rw [if_pos h10, fixedItem_eq]
    exact .fixed (by rw [h10]; rfl) nofun nofun
  rw [if_neg h10]
  by_cases h11 : extType = eventHeaderExtTypeEventSchemaTl
  · rw [if_pos h11, hname, bind_ok]
    exact .other (by rw [h11]; rfl) h2 nofun
  rw [if_neg h11]
  by_cases h12 : extType = eventHeaderExtTypeProvTraits
  · rw [if_pos h12, readRange_of_le (Nat.zero_le _) (Nat.le_refl _), bind_ok]
    exact .other (by rw [h12]; rfl) h2 nofun
  rw [if_neg h12]
  by_cases h16 : extType = eventHeaderExtTypeContainerId
  · rw [if_pos h16, fixedItem_eq]
    exact .fixed (by rw [h16]; rfl) nofun nofun
  rw [if_neg h16]
  refine .other ?_ h2 nofun
  rw [fixedPart, if_neg (by rintro (h | h) <;> contradiction), if_neg h3, if_neg h4,
    if_neg (by rintro (h | h | h | h) <;> contradiction)]

/-- A SID that is taken out of a blob that is long enough is complete. -/
theorem Sid.complete {blob : List UInt8} (h : sidLength blob ≤ blob.length) :
    ∃ count, (blob.take (sidLength blob))[1]? = some count ∧
      (blob.take (sidLength blob)).length = 8 + 4 * count.toNat := by
  rcases blob with _ | ⟨revision, _ | ⟨count, rest⟩⟩
  · cases h
  · exact absurd h (by simp [sidLength])
  · refine ⟨count, ?_, List.length_take_of_le h⟩
    have hlt : 1 < sidLength (revision :: count :: rest) := by
      rw [sidLength]
      omega
    rw [List.getElem?_take_of_lt hlt]
    rfl

section Faithful

variable {item : EventHeaderExtendedDataItem} {blob : List UInt8}
  {result : Checked ExtendedDataItem} (hitem : item.toExtendedDataItem = result)
  (hspec : ItemOf item.extType blob result)
include hitem hspec

theorem unsupported_iff_of_fixedPart {size : ℕ} (hfixed : fixedPart item.extType = some size) :
    item.toExtendedDataItem = .ok .unsupported ↔ blob.length < size := by
  rw [hitem]
  cases hspec with
  | fixed hsize hr _ =>
    obtain rfl := Option.some.inj (hfixed.symm.trans hsize)
    split
    · rename_i hshort
      exact iff_of_true rfl hshort
    · rename_i hlong
      exact iff_of_false (fun h => hr (Except.ok.inj h)) hlong
  | sid hsid =>
    rw [hsid] at hfixed
    cases hfixed
  | other hnone _ _ => cases hnone.symm.trans hfixed

theorem sid_iff_of_sid (hsid : item.extType = eventHeaderExtTypeSid) :
    (item.toExtendedDataItem = .ok .unsupported ↔ blob.length < sidLength blob) ∧
      ((∃ sid, item.toExtendedDataItem = .ok (.sid sid)) ↔ sidLength blob ≤ blob.length) := by
  rw [hitem]
  cases hspec with
  | fixed hsize _ _ =>
    rw [hsid] at hsize
    cases hsize
  | sid _ =>
    split
    · rename_i hshort
      refine ⟨iff_of_true rfl hshort, iff_of_false ?_ (Nat.not_le.mpr hshort)⟩
      rintro ⟨_, h⟩
      cases h
    · rename_i hlong
      exact ⟨iff_of_false nofun hlong, iff_of_true ⟨_, rfl⟩ (Nat.not_lt.mp hlong)⟩
  | other _ hne _ => exact absurd hsid hne

theorem eq_take_of_sid {sid : Sid} (h : item.toExtendedDataItem = .ok (.sid sid)) :
    sidLength blob ≤ blob.length ∧ sid.data = blob.take (sidLength blob) := by
  rw [hitem] at h
  cases hspec with
  | fixed _ _ hr =>
    split at h
    · cases h
    · exact absurd (Except.ok.inj h) (hr sid)
  | sid _ =>
    split at h
    · cases h
    · rename_i hlong
      cases h
      exact ⟨Nat.not_lt.mp hlong, rfl⟩
  | other _ _ hr => exact absurd (Except.ok.inj h) (hr sid)

end Faithful

/-- **Every item is decoded faithfully**, whatever its type and its bytes. -/
theorem decodesFaithfully (item : EventHeaderExtendedDataItem) : item.DecodesFaithfully := by
  cases hdata : item.data with
  | none =>
    have hitem : item.toExtendedDataItem = .ok .unsupported := by
      rw [EventHeaderExtendedDataItem.toExtendedDataItem, hdata]
    refine ⟨⟨_, hitem⟩, ?_, ?_, ?_, ?_, ?_⟩
    · intro blob size h
      cases hdata.symm.trans h
    · intro blob h
      cases hdata.symm.trans h
    · intro sid h
      cases hitem.symm.trans h
    · intro trace trailing _ _ h
      cases hdata.symm.trans h
    · intro trace trailing _ _ h
      cases hdata.symm.trans h
  | some blob =>
    have hitem : item.toExtendedDataItem = itemOf item.extType blob := by
      rw [EventHeaderExtendedDataItem.toExtendedDataItem, hdata]
    have hspec := itemOf_spec (eventNameOf_eq hdata) item.extType
    refine ⟨?_, ?_, ?_, ?_, ?_, ?_⟩
    · obtain ⟨r, hr⟩ := hspec.exists_eq_ok
      exact ⟨r, hitem.trans hr⟩
    · intro blob' size h hfixed
      obtain rfl := Option.some.inj (hdata.symm.trans h)
      exact unsupported_iff_of_fixedPart hitem hspec hfixed
    · intro blob' h hsid
      obtain rfl := Option.some.inj (hdata.symm.trans h)
      exact sid_iff_of_sid hitem hspec hsid
    · intro sid h
      obtain ⟨hlong, htake⟩ := eq_take_of_sid hitem hspec h
      obtain ⟨count, hcount, hlength⟩ := Sid.complete hlong
      rw [← htake] at hcount hlength
      exact ⟨count, readAt_of_getElem? hcount, hlength, ⟨blob, hdata, htake⟩,
        Sid.subAuthority_eq hcount hlength⟩
    · intro trace trailing htype htrailing h
      obtain rfl := Option.some.inj (hdata.symm.trans h)
      rw [hitem, htype]
      refine StackTraceItem.read_stackTraceBytes (fun address => ?_) _ trace htrailing
      rw [u32Of, leValue_leBytes address.toNat_lt, UInt32.ofNat_toNat]
    · intro trace trailing htype htrailing h
      obtain rfl := Option.some.inj (hdata.symm.trans h)
      rw [hitem, htype]
      refine StackTraceItem.read_stackTraceBytes (fun address => ?_) _ trace htrailing
      rw [u64Of, leValue_leBytes address.toNat_lt, UInt64.ofNat_toNat]

end Ferrisetw2
