import Ferrisetw2.Lib.Buffers
import Ferrisetw2.Native.ExtendedData

/-!
# The grammar of event names

The metadata of a TraceLogging event declares its size, and holds tags, a name with a NUL behind it,
and more. Tags end with the first byte whose high bit is clear. The parser goes through it with an
index, and every index is checked. `get_event_name` of `extended_data.rs`.

## Main definitions

* `skipTags`, `eventNameOf` — the parser, with its indices
* `HoldsName` — the grammar

## Main results

* `eventNameOf_eq` — no index is out of bounds
* `HoldsName.unique` — a name is found in one way
* `eventNameOf_iff` — a name is found exactly when the metadata holds it
-/

namespace Ferrisetw2

open Rust

/-! ### The parser -/

/-- The high bit is set: another tag byte follows. -/
def isTag (b : UInt8) : Bool := b &&& 0x80 != 0

/-- The `while` loop, from `tags_end`. -/
def skipTags (blob : List UInt8) (size tagsEnd : ℕ) : Checked ℕ :=
  if tagsEnd < size then do
    let b ← readAt tagsEnd blob
    if isTag b then skipTags blob size (tagsEnd + 1) else .ok tagsEnd
  else .ok tagsEnd
termination_by size - tagsEnd

/-- `get_event_name`, on the `DataSize` bytes at `DataPtr`. -/
def eventNameOf (blob : List UInt8) : Checked (Option String) :=
  if blob.length < 2 then .ok none
  else do
    let lo ← readAt 0 blob
    let hi ← readAt 1 blob
    let size := min (leValue [lo, hi]) blob.length
    let tagsEnd ← skipTags blob size 2
    if size ≤ tagsEnd then .ok none
    else do
      let name ← readRange (tagsEnd + 1) size blob
      match memchr 0 name with
      | none => .ok none
      | some nameLen => do
        let name ← readRange 0 nameLen name
        .ok (some (fromUtf8Lossy name))

theorem range_eq_cons {a b : ℕ} {bytes : List UInt8} {x : UInt8} (hab : a < b)
    (hx : bytes[a]? = some x) : range a b bytes = x :: range (a + 1) b bytes := by
  have htake : (bytes.take b)[a]? = some x := by rw [List.getElem?_take_of_lt hab, hx]
  obtain ⟨ha, hget⟩ := List.getElem?_eq_some_iff.mp htake
  rw [range, range, List.drop_eq_getElem_cons ha, hget]

/-- The loop stops behind the tags, or where the metadata ends. -/
theorem skipTags_eq {blob : List UInt8} {size : ℕ} (hsize : size ≤ blob.length) (tagsEnd : ℕ) :
    skipTags blob size tagsEnd =
      .ok (tagsEnd + ((range tagsEnd size blob).takeWhile isTag).length) := by
  induction tagsEnd using skipTags.induct size with
  | case1 tagsEnd hlt ih =>
    have hb : blob[tagsEnd]? = some _ := List.getElem?_eq_getElem (Nat.lt_of_lt_of_le hlt hsize)
    rw [skipTags, if_pos hlt, readAt_of_getElem? hb, bind_ok, range_eq_cons hlt hb]
    split
    · rename_i htag
      rw [ih, List.takeWhile_cons_of_pos htag, List.length_cons]
      congr 1
      omega
    · rename_i htag
      rw [List.takeWhile_cons_of_neg htag]
      rfl
  | case2 tagsEnd hge =>
    have hempty : range tagsEnd size blob = [] := by
      rw [range, List.drop_eq_nil_of_le]
      rw [List.length_take]
      omega
    rw [skipTags, if_neg hge, hempty]
    rfl

/-- The end of the tags, in the metadata. -/
def tagsEndOf (blob : List UInt8) (size : ℕ) : ℕ :=
  2 + ((range 2 size blob).takeWhile isTag).length

theorem skipTags_two {blob : List UInt8} {size : ℕ} (hsize : size ≤ blob.length) :
    skipTags blob size 2 = .ok (tagsEndOf blob size) := skipTags_eq hsize 2

theorem afterTags_eq (blob : List UInt8) :
    EventHeaderExtendedDataItem.afterTags blob =
      if min (leValue (blob.take 2)) blob.length ≤
          tagsEndOf blob (min (leValue (blob.take 2)) blob.length) then none
      else some (range (tagsEndOf blob (min (leValue (blob.take 2)) blob.length) + 1)
        (min (leValue (blob.take 2)) blob.length) blob) := rfl

/-- **No index is out of bounds**, and the parser finds the name of the item. -/
theorem eventNameOf_eq {item : EventHeaderExtendedDataItem} {blob : List UInt8}
    (hdata : item.data = some blob) : eventNameOf blob = .ok item.getEventName := by
  rw [EventHeaderExtendedDataItem.getEventName, hdata, eventNameOf]
  dsimp only
  split
  · rfl
  · rename_i hlong
    obtain ⟨lo, hi, rest, rfl⟩ : ∃ lo hi rest, blob = lo :: hi :: rest := by
      rcases blob with _ | ⟨lo, _ | ⟨hi, rest⟩⟩
      · exact absurd Nat.zero_lt_two hlong
      · exact absurd Nat.one_lt_two hlong
      · exact ⟨lo, hi, rest, rfl⟩
    have hsize : min (leValue [lo, hi]) (lo :: hi :: rest).length ≤ (lo :: hi :: rest).length :=
      Nat.min_le_right _ _
    rw [readAt_of_getElem? rfl, bind_ok, readAt_of_getElem? rfl, bind_ok, afterTags_eq,
      show (lo :: hi :: rest).take 2 = [lo, hi] from rfl]
    generalize min (leValue [lo, hi]) (lo :: hi :: rest).length = size at hsize
    rw [skipTags_two hsize, bind_ok]
    generalize tagsEndOf (lo :: hi :: rest) size = tagsEnd
    split
    · rfl
    · rw [readRange_of_le (by omega) hsize, bind_ok]
      dsimp only
      generalize range (tagsEnd + 1) size (lo :: hi :: rest) = name
      cases hnul : memchr 0 name with
      | none => rfl
      | some nameLen =>
        dsimp only
        rw [readRange_of_le (Nat.zero_le _) (Nat.le_of_lt (memchr_lt hnul)), bind_ok]
        rfl

/-! ### The grammar -/

/-- The metadata behind the size, as far as it was declared and is there. -/
def metadata (blob : List UInt8) : List UInt8 :=
  range 2 (min (leValue (blob.take 2)) blob.length) blob

/-- Tags, the last of them with its high bit clear, a name with a NUL behind it, and the rest. -/
def HoldsName (bytes name : List UInt8) : Prop :=
  ∃ tags t rest, bytes = tags ++ [t] ++ name ++ [0] ++ rest ∧
    (∀ b ∈ tags, isTag b = true) ∧ isTag t = false ∧ 0 ∉ name

/-- The name, without indices. -/
def nameIn (bytes : List UInt8) : Option (List UInt8) :=
  match bytes.dropWhile isTag with
  | [] => none
  | _ :: after => (memchr 0 after).map after.take

/-- A name is found exactly where the grammar has it. -/
theorem nameIn_eq_some_iff {bytes name : List UInt8} :
    nameIn bytes = some name ↔ HoldsName bytes name := by
  constructor
  · intro h
    rw [nameIn] at h
    cases hrest : bytes.dropWhile isTag with
    | nil =>
      rw [hrest] at h
      cases h
    | cons t after =>
      rw [hrest] at h
      obtain ⟨n, hn, rfl⟩ := Option.map_eq_some_iff.mp h
      obtain ⟨hafter, hname⟩ := eq_of_memchr_zero hn
      refine ⟨bytes.takeWhile isTag, t, after.drop (n + 1), ?_, fun b hb => ?_, ?_, hname⟩
      · simp only [List.append_assoc, List.cons_append, List.nil_append]
        rw [← hafter, ← hrest, List.takeWhile_append_dropWhile]
      · exact List.mem_takeWhile_imp hb
      · have hhead := List.head?_dropWhile_not isTag bytes
        rw [hrest] at hhead
        simpa using hhead
  · rintro ⟨tags, t, rest, rfl, htags, ht, hname⟩
    have hdrop : (tags ++ [t] ++ name ++ [0] ++ rest).dropWhile isTag =
        t :: (name ++ 0 :: rest) := by
      simp only [List.append_assoc]
      rw [List.dropWhile_append_of_pos htags]
      exact List.dropWhile_cons_of_neg (by rw [ht]; exact Bool.false_ne_true)
    rw [nameIn, hdrop]
    dsimp only
    rw [memchr_append_zero hname, Option.map_some, List.take_left]

/-- A name is found in one way. -/
theorem HoldsName.unique {bytes name name' : List UInt8} (h : HoldsName bytes name)
    (h' : HoldsName bytes name') : name = name' :=
  Option.some.inj ((nameIn_eq_some_iff.mpr h).symm.trans (nameIn_eq_some_iff.mpr h'))

/-- Where the metadata starts with a size, the item's name is the one in the metadata. -/
theorem getEventName_eq {item : EventHeaderExtendedDataItem} {blob : List UInt8}
    (hdata : item.data = some blob) :
    item.getEventName = (nameIn (metadata blob)).map fromUtf8Lossy := by
  rw [EventHeaderExtendedDataItem.getEventName, hdata]
  dsimp only
  split
  · rename_i hshort
    have hempty : metadata blob = [] := by
      rw [metadata, range, List.drop_eq_nil_of_le]
      rw [List.length_take]
      omega
    rw [hempty]
    rfl
  · have hlength : (metadata blob).length = min (leValue (blob.take 2)) blob.length - 2 := by
      rw [metadata, range, List.length_drop, List.length_take]
      omega
    have hsplit := List.takeWhile_append_dropWhile (p := isTag) (l := metadata blob)
    have hrange : ∀ k, range (2 + k + 1) (min (leValue (blob.take 2)) blob.length) blob =
        (metadata blob).drop (k + 1) := fun k => by
      rw [metadata, range, range, List.drop_drop, Nat.add_assoc]
    rw [afterTags_eq, tagsEndOf, ← metadata, hrange, nameIn]
    cases hrest : (metadata blob).dropWhile isTag with
    | nil =>
      rw [hrest, List.append_nil] at hsplit
      rw [hsplit, if_pos (by omega)]
      rfl
    | cons t after =>
      rw [hrest] at hsplit
      have hsum := congrArg List.length hsplit
      rw [List.length_append, List.length_cons] at hsum
      have hafter : (metadata blob).drop (((metadata blob).takeWhile isTag).length + 1) = after :=
        calc (metadata blob).drop (((metadata blob).takeWhile isTag).length + 1)
            = ((metadata blob).takeWhile isTag ++ t :: after).drop
                (((metadata blob).takeWhile isTag).length + 1) := by rw [hsplit]
          _ = after := by rw [List.append_cons, List.drop_left' (by simp)]
      rw [if_neg (by omega), hafter]
      dsimp only
      cases memchr 0 after with
      | none => rfl
      | some n => rfl

/-- **A name is found exactly when the metadata holds it**, and no index is out of bounds. Without
data there is no name. -/
theorem eventNameOf_iff (item : EventHeaderExtendedDataItem) :
    (item.data = none → item.getEventName = none) ∧
      ∀ blob, item.data = some blob → eventNameOf blob = .ok item.getEventName ∧
        ∀ s, item.getEventName = some s ↔
          ∃ name, HoldsName (metadata blob) name ∧ s = fromUtf8Lossy name := by
  refine ⟨fun hnone => by rw [EventHeaderExtendedDataItem.getEventName, hnone], ?_⟩
  intro blob hdata
  refine ⟨eventNameOf_eq hdata, fun s => ?_⟩
  rw [getEventName_eq hdata, Option.map_eq_some_iff]
  simp only [nameIn_eq_some_iff, eq_comm]

/-- Metadata with two tag bytes and the name "Ev". -/
def taggedItem : EventHeaderExtendedDataItem where
  extType := eventHeaderExtTypeEventSchemaTl
  data := some [7, 0, 0x81, 0x01, 0x45, 0x76, 0]
  data_le := by simp

theorem eventNameOf_taggedItem :
    eventNameOf [7, 0, 0x81, 0x01, 0x45, 0x76, 0] = .ok taggedItem.getEventName ∧
      taggedItem.getEventName = some "Ev" := by
  have h := (eventNameOf_iff taggedItem).2 _ rfl
  refine ⟨h.1, (h.2 "Ev").mpr ⟨[0x45, 0x76], ⟨[0x81], 0x01, [], rfl, ?_, rfl, by decide⟩, ?_⟩⟩
  · intro b hb
    obtain rfl := List.mem_singleton.mp hb
    rfl
  · decide +kernel

end Ferrisetw2
