import Ferrisetw2.Lib.Buffers
import Ferrisetw2.Lib.Loops
import Ferrisetw2.Lib.Text

/-!
# The list of profile sources

`TraceQueryInformation` answers with the `PROFILE_SOURCE_INFO` entries one behind the other, each
with the distance to the next, and 0 in the last. `query.rs`.

The parser adds that distance to its offset as it is. What comes out of the addition is only looked
at afterwards, by the guard of the loop, and the guard adds to it once more. On a target whose
`usize` has 32 bits neither addition is sure to fit.

## Main definitions

* `parseProfileSources` and its round
* `Linked`, `LinksFit` — the entries the links lead to, and links that fit
* `LinkedSource`, `linkedBytes` — sources laid out as linked entries

## Main results

* `parsesInOrder_iff` — the parser ends, with the sources at increasing offsets, exactly when the
  links fit
* `linksFit_of_b64` — on 64 bits they do
* `parses_linkedBytes` — sources laid out as linked entries are found again
-/

namespace Ferrisetw2

open Rust

/-! ### The source -/

/-- `ProfileSourceInfo`. -/
structure ProfileSourceInfo where
  id : UInt32
  minInterval : UInt32
  maxInterval : UInt32
  description : String
  deriving DecidableEq, Repr

/-- `PROFILE_SOURCE_FIXED_LEN`. -/
def profileSourceFixedLen : ℕ := 24

/-- `read_u32`. -/
def readU32 (t : Target) (buf : List UInt8) (offset : ℕ) : Checked UInt32 := do
  let stop ← t.add offset 4
  let bytes ← readRange offset stop buf
  if bytes.length = 4 then .ok (UInt32.ofNat (leValue bytes))
  else .error (.expect "4 readable bytes")

/-- `decode_description`. -/
def decodeDescription (desc : List UInt8) : String :=
  let units := ((chunksExact 2 desc).takeWhile fun pair => pair ≠ [0, 0]).map
    fun pair => UInt16.ofNat (leValue pair)
  String.ofList (decodeUtf16 units)

/-- The entry at the offset: what it links to, and the source. -/
def readEntry (t : Target) (buf : List UInt8) (offset : ℕ) :
    Checked (UInt32 × ProfileSourceInfo) := do
  let next ← readU32 t buf offset
  let id ← readU32 t buf (← t.add offset 4)
  let minInterval ← readU32 t buf (← t.add offset 8)
  let maxInterval ← readU32 t buf (← t.add offset 12)
  let desc ← readRange (← t.add offset profileSourceFixedLen) buf.length buf
  .ok (next, ⟨id, minInterval, maxInterval, decodeDescription desc⟩)

/-- The variables of the loop of `parse_profile_sources`. -/
structure ParseState where
  offset : ℕ
  sources : List ProfileSourceInfo
  deriving DecidableEq, Repr

/-- A round of it. -/
def parseRound (t : Target) (buf : List UInt8) (s : ParseState) :
    Checked (Control ParseState (List ProfileSourceInfo)) := do
  let stop ← t.add s.offset profileSourceFixedLen
  if stop ≤ buf.length then
    let (next, source) ← readEntry t buf s.offset
    let sources := s.sources ++ [source]
    if next = 0 then .ok (.leave sources)
    else
      let offset ← t.add s.offset next.toNat
      .ok (.again ⟨offset, sources⟩)
  else .ok (.leave s.sources)

/-- `parse_profile_sources`, in so many rounds. -/
def parseProfileSources (t : Target) (buf : List UInt8) (fuel : ℕ) :
    Option (Checked (List ProfileSourceInfo)) :=
  iterate (parseRound t buf) fuel ⟨0, []⟩

/-! ### Entries -/

/-- The four bytes at the offset. -/
def fieldAt (buf : List UInt8) (offset : ℕ) : UInt32 :=
  UInt32.ofNat (leValue (range offset (offset + 4) buf))

/-- `NextEntryOffset` of the entry there. -/
def nextEntryOffset (buf : List UInt8) (offset : ℕ) : UInt32 := fieldAt buf offset

/-- Whether the fixed part of an entry is there. -/
def HasEntry (buf : List UInt8) (offset : ℕ) : Prop := offset + profileSourceFixedLen ≤ buf.length

instance (buf : List UInt8) (offset : ℕ) : Decidable (HasEntry buf offset) :=
  inferInstanceAs (Decidable (_ ≤ _))

/-- The source of the entry there. -/
def sourceOf (buf : List UInt8) (offset : ℕ) : ProfileSourceInfo where
  id := fieldAt buf (offset + 4)
  minInterval := fieldAt buf (offset + 8)
  maxInterval := fieldAt buf (offset + 12)
  description := decodeDescription (buf.drop (offset + profileSourceFixedLen))

/-- The source there, if there is an entry. -/
def sourceAt (buf : List UInt8) (offset : ℕ) : Option ProfileSourceInfo :=
  if HasEntry buf offset then some (sourceOf buf offset) else none

section Rounds

variable {t : Target} {buf : List UInt8} {offset : ℕ}

theorem readU32_of_le (hoffset : offset + 4 ≤ buf.length) (hbuf : buf.length ≤ t.usizeMax) :
    readU32 t buf offset = .ok (fieldAt buf offset) := by
  have hlength : (range offset (offset + 4) buf).length = 4 := by
    rw [range, List.length_drop, List.length_take_of_le hoffset, Nat.add_sub_cancel_left]
  rw [readU32, Target.add_of_le (by omega), bind_ok,
    readRange_of_le (Nat.le_add_right offset 4) hoffset, bind_ok, if_pos hlength]
  rfl

/-- Beyond the buffer nothing is read: a range whose end wrapped around is no range. -/
theorem readU32_of_gt (hoffset : buf.length < offset) :
    ∃ p, readU32 t buf offset = .error p := by
  rw [readU32]
  cases hstop : t.add offset 4 with
  | error p => exact ⟨p, rfl⟩
  | ok stop =>
    rw [bind_ok, readRange, if_neg (by omega)]
    exact ⟨_, rfl⟩

theorem readEntry_of_hasEntry (h : HasEntry buf offset) (hbuf : buf.length ≤ t.usizeMax) :
    readEntry t buf offset = .ok (nextEntryOffset buf offset, sourceOf buf offset) := by
  have hend : offset + 24 ≤ buf.length := h
  have hdesc : range (offset + profileSourceFixedLen) buf.length buf =
      buf.drop (offset + profileSourceFixedLen) := by
    rw [range, List.take_length]
  rw [readEntry, readU32_of_le (by omega) hbuf, bind_ok, Target.add_of_le (by omega), bind_ok,
    readU32_of_le (by omega) hbuf, bind_ok, Target.add_of_le (by omega), bind_ok,
    readU32_of_le (by omega) hbuf, bind_ok, Target.add_of_le (by omega), bind_ok,
    readU32_of_le (by omega) hbuf, bind_ok, Target.add_of_le (Nat.le_trans h hbuf), bind_ok,
    readRange_of_le h (Nat.le_refl _), bind_ok, hdesc]
  rfl

/-! ### Rounds -/

variable {s : ParseState}

theorem parseRound_of_not_hasEntry (h : ¬ HasEntry buf s.offset)
    (hfits : s.offset + profileSourceFixedLen ≤ t.usizeMax) :
    parseRound t buf s = .ok (.leave s.sources) := by
  rw [HasEntry] at h
  rw [parseRound, Target.add_of_le hfits, bind_ok, if_neg h]

theorem parseRound_of_hasEntry (h : HasEntry buf s.offset) (hbuf : buf.length ≤ t.usizeMax) :
    parseRound t buf s =
      if nextEntryOffset buf s.offset = 0 then
        .ok (.leave (s.sources ++ [sourceOf buf s.offset]))
      else t.add s.offset (nextEntryOffset buf s.offset).toNat >>= fun offset =>
        .ok (.again ⟨offset, s.sources ++ [sourceOf buf s.offset]⟩) := by
  have hguard : s.offset + profileSourceFixedLen ≤ buf.length := h
  rw [parseRound, Target.add_of_le (Nat.le_trans h hbuf), bind_ok, if_pos hguard,
    readEntry_of_hasEntry h hbuf, bind_ok]

theorem parseRound_of_next {offset : ℕ} {next : UInt32} (h : HasEntry buf offset)
    (hbuf : buf.length ≤ t.usizeMax) (hentry : nextEntryOffset buf offset = next)
    (hnext : next ≠ 0) (collected : List ProfileSourceInfo) :
    parseRound t buf ⟨offset, collected⟩ = (t.add offset next.toNat >>= fun offset' =>
      .ok (.again ⟨offset', collected ++ [sourceOf buf offset]⟩)) := by
  rw [parseRound_of_hasEntry h hbuf, hentry, if_neg hnext]

/-- Where the guard does not fit, it unwinds or lets the round read out of bounds. -/
theorem parseRound_of_overflow (hlen : profileSourceFixedLen ≤ buf.length)
    (hbuf : buf.length ≤ t.isizeMax) (hoffset : s.offset ≤ t.usizeMax)
    (h : t.usizeMax < s.offset + profileSourceFixedLen) :
    ∃ p, parseRound t buf s = .error p := by
  have hmax : t.usizeMax = 2 * t.isizeMax + 1 := t.usizeMax_eq
  have hge := t.usizeMax_ge
  have hsize : profileSourceFixedLen = 24 := rfl
  rw [parseRound, Target.add, if_neg (Nat.not_le.mpr h)]
  cases t.overflowChecks with
  | true => exact ⟨.overflow, rfl⟩
  | false =>
    have hbeyond : buf.length < s.offset := by omega
    obtain ⟨p, hp⟩ := readU32_of_gt (t := t) hbeyond
    have hwraps : (s.offset + profileSourceFixedLen) % (t.usizeMax + 1) ≤ buf.length := by
      rw [Nat.mod_eq_sub_mod (by omega), Nat.mod_eq_of_lt (by omega)]
      omega
    refine ⟨p, ?_⟩
    rw [if_neg Bool.false_ne_true, bind_ok, if_pos hwraps, readEntry, hp]
    rfl

end Rounds

/-! ### Links -/

/-- The offsets that the links lead to, whatever fits `usize`. -/
inductive Linked (buf : List UInt8) : ℕ → Prop
  | first : Linked buf 0
  | next {offset : ℕ} : Linked buf offset → HasEntry buf offset →
      nextEntryOffset buf offset ≠ 0 → Linked buf (offset + (nextEntryOffset buf offset).toNat)

/-- No link leads to where the fixed part of an entry would not end within `usize`. -/
def LinksFit (t : Target) (buf : List UInt8) : Prop :=
  ∀ offset, Linked buf offset → offset + profileSourceFixedLen ≤ t.usizeMax

/-- The parser ends with a list, the rounds begin at increasing offsets, and the list has the
sources of the entries there. On a target with overflow checks this says that no addition
overflows. -/
def ParsesInOrder (t : Target) (buf : List UInt8) : Prop :=
  ∃ visited sources, Finishes (parseRound t buf) ⟨0, []⟩ visited (.ok sources) ∧
    (visited.map (·.offset)).Pairwise (· < ·) ∧
    sources = (visited.map (·.offset)).filterMap (sourceAt buf)

section Links

variable {t : Target} {buf : List UInt8}

/-- **On 64 bits the links fit**: the length of a buffer and a link of 32 bits add up to less. -/
theorem linksFit_of_b64 (ht : t.usizeBits = .b64) (hbuf : buf.length ≤ t.isizeMax) :
    LinksFit t buf := by
  have hmax : t.usizeMax = 18446744073709551615 := by
    rw [Target.usizeMax, ht]
    rfl
  have heq := t.usizeMax_eq
  intro offset hlinked
  rw [profileSourceFixedLen]
  cases hlinked with
  | first => omega
  | @next offset _ hentry _ =>
    have hnext := (nextEntryOffset buf offset).toNat_lt
    have hend : offset + 24 ≤ buf.length := hentry
    omega

section Fits

variable {s s' : ParseState} {sources : List ProfileSourceInfo}
variable (hbuf : buf.length ≤ t.usizeMax) (hfits : LinksFit t buf) (hs : Linked buf s.offset)
include hbuf hfits hs

/-- While the links fit, a round leaves the loop or moves it on along a link. -/
theorem parseRound_of_linksFit :
    parseRound t buf s = .ok (.leave (s.sources ++ (sourceAt buf s.offset).toList)) ∨
      ∃ s', parseRound t buf s = .ok (.again s') ∧ Linked buf s'.offset ∧
        s.offset < s'.offset ∧ HasEntry buf s.offset ∧
        s'.sources = s.sources ++ (sourceAt buf s.offset).toList := by
  by_cases hentry : HasEntry buf s.offset
  · rw [parseRound_of_hasEntry hentry hbuf, sourceAt, if_pos hentry]
    by_cases hnext : nextEntryOffset buf s.offset = 0
    · rw [if_pos hnext]
      exact .inl rfl
    · have hlinked := hs.next hentry hnext
      have hsum := Nat.le_of_add_right_le (hfits _ hlinked)
      have hpos : 0 < (nextEntryOffset buf s.offset).toNat := UInt32.pos_iff_ne_zero.mpr hnext
      rw [if_neg hnext, Target.add_of_le hsum, bind_ok]
      exact .inr ⟨_, rfl, hlinked, Nat.lt_add_of_pos_right hpos, hentry, rfl⟩
  · rw [parseRound_of_not_hasEntry hentry (hfits _ hs), sourceAt, if_neg hentry]
    exact .inl (by simp)

theorem again_of_linksFit (h : parseRound t buf s = .ok (.again s')) :
    Linked buf s'.offset ∧ s.offset < s'.offset ∧ HasEntry buf s.offset ∧
      s'.sources = s.sources ++ (sourceAt buf s.offset).toList := by
  rcases parseRound_of_linksFit hbuf hfits hs with hround | ⟨s'', hround, hs''⟩
  · rw [h] at hround
    cases hround
  · rw [h] at hround
    cases hround
    exact hs''

theorem leave_of_linksFit (h : parseRound t buf s = .ok (.leave sources)) :
    sources = s.sources ++ (sourceAt buf s.offset).toList := by
  rcases parseRound_of_linksFit hbuf hfits hs with hround | ⟨s', hround, -⟩
  · rw [h] at hround
    cases hround
    rfl
  · rw [h] at hround
    cases hround

/-- Every link shortens what is left of the buffer. -/
theorem exists_finishes_of_linksFit :
    ∃ visited sources, Finishes (parseRound t buf) s visited (.ok sources) := by
  refine exists_finishes (I := fun s => Linked buf s.offset) (fun s => buf.length - s.offset)
    (fun s hs => ?_) hs
  rcases parseRound_of_linksFit hbuf hfits hs with hround | ⟨s', hround, hs', hlt, hentry, -⟩
  · exact .inl ⟨_, hround⟩
  · have hend : s.offset + 24 ≤ buf.length := hentry
    exact .inr ⟨s', hround, hs', by omega⟩

end Fits

/-- **While the links fit, the parser goes along them**, and ends. -/
theorem parsesInOrder_of_linksFit (hbuf : buf.length ≤ t.usizeMax) (hfits : LinksFit t buf) :
    ParsesInOrder t buf := by
  have hfirst : Linked buf (ParseState.mk 0 []).offset := .first
  obtain ⟨visited, sources, hends⟩ := exists_finishes_of_linksFit hbuf hfits hfirst
  refine ⟨visited, sources, hends, ?_, ?_⟩
  · refine List.pairwise_map.mpr (Finishes.pairwise (I := fun s => Linked buf s.offset)
      (R := fun s s' => s.offset < s'.offset) (fun _ _ _ => Nat.lt_trans) (fun s s' hs h => ?_)
      hends hfirst).1
    obtain ⟨hs', hlt, -⟩ := again_of_linksFit hbuf hfits hs h
    exact ⟨hs', hlt⟩
  · rw [List.filterMap_map]
    refine Finishes.eq_append_filterMap (I := fun s => Linked buf s.offset) (fun s s' hs h => ?_)
      (fun s _ hs h => leave_of_linksFit hbuf hfits hs h) hends hfirst
    obtain ⟨hs', -, -, hsources⟩ := again_of_linksFit hbuf hfits hs h
    exact ⟨hs', hsources⟩

/-- A loop that ends with a list did not begin a round too close to the end of `usize`. -/
theorem fits_of_finishes {s : ParseState} {visited : List ParseState}
    {sources : List ProfileSourceInfo} (hlen : profileSourceFixedLen ≤ buf.length)
    (hbuf : buf.length ≤ t.isizeMax) (hs : s.offset ≤ t.usizeMax)
    (h : Finishes (parseRound t buf) s visited (.ok sources)) :
    s.offset + profileSourceFixedLen ≤ t.usizeMax := by
  by_contra hgt
  obtain ⟨p, hp⟩ := parseRound_of_overflow hlen hbuf hs (Nat.lt_of_not_le hgt)
  cases ((finishes_iff_of_error hp).mp h).2

/-- A link that does not fit unwinds, or leads back. -/
theorem eq_or_lt_of_add_eq_ok {offset n : ℕ} (hbuf : buf.length ≤ t.isizeMax)
    (hentry : HasEntry buf offset)
    (h : t.add offset (nextEntryOffset buf offset).toNat = .ok n) :
    n = offset + (nextEntryOffset buf offset).toNat ∧ n ≤ t.usizeMax ∨ n < offset := by
  have hnext := (nextEntryOffset buf offset).toNat_lt
  have hend : offset + 24 ≤ buf.length := hentry
  have hge := t.usizeMax_ge
  have hmax := t.usizeMax_eq
  rw [Target.add] at h
  split at h
  · rename_i hle
    cases h
    exact .inl ⟨rfl, hle⟩
  · split at h
    · cases h
    · cases h
      rw [Nat.mod_eq_sub_mod (by omega), Nat.mod_eq_of_lt (by omega)]
      omega

/-- The loop passes through every offset that the links lead to. -/
theorem exists_finishes_of_linked {visited : List ParseState} {sources : List ProfileSourceInfo}
    (hbuf : buf.length ≤ t.isizeMax) (h : Finishes (parseRound t buf) ⟨0, []⟩ visited (.ok sources))
    (hvisited : (visited.map (·.offset)).Pairwise (· < ·)) {offset : ℕ}
    (hlinked : Linked buf offset) :
    offset + profileSourceFixedLen ≤ t.usizeMax ∧ ∃ collected rest,
      Finishes (parseRound t buf) ⟨offset, collected⟩ rest (.ok sources) ∧
        (rest.map (·.offset)).Pairwise (· < ·) := by
  have hle := t.isizeMax_le
  induction hlinked with
  | first =>
    have hge := t.usizeMax_ge
    rw [profileSourceFixedLen]
    exact ⟨by omega, [], visited, h, hvisited⟩
  | @next offset _ hentry hnext ih =>
    obtain ⟨-, collected, rest, hrest, hsorted⟩ := ih
    have hround := parseRound_of_next (t := t) hentry (by omega) rfl hnext collected
    cases hadd : t.add offset (nextEntryOffset buf offset).toNat with
    | error p =>
      rw [hadd, bind_error] at hround
      cases ((finishes_iff_of_error hround).mp hrest).2
    | ok n =>
      rw [hadd, bind_ok] at hround
      obtain ⟨rest, rfl, hends⟩ := (finishes_iff_of_again hround).mp hrest
      obtain ⟨later, rfl⟩ := hends.exists_eq_cons
      obtain ⟨hlt, hsorted⟩ := List.pairwise_cons.mp hsorted
      have hback : offset < n := hlt n List.mem_cons_self
      rcases eq_or_lt_of_add_eq_ok hbuf hentry hadd with ⟨rfl, hmax⟩ | hback'
      · have hfits := fits_of_finishes (Nat.le_of_add_left_le hentry) hbuf hmax hends
        exact ⟨hfits, _, _, hends, hsorted⟩
      · omega

/-- **The parser ends, with the sources at increasing offsets, exactly when the links fit.** -/
theorem parsesInOrder_iff (hbuf : buf.length ≤ t.isizeMax) :
    ParsesInOrder t buf ↔ LinksFit t buf := by
  constructor
  · rintro ⟨visited, sources, hends, hvisited, -⟩ offset hlinked
    exact (exists_finishes_of_linked hbuf hends hvisited hlinked).1
  · intro hfits
    exact parsesInOrder_of_linksFit (Nat.le_trans hbuf t.isizeMax_le) hfits

end Links

/-! ### Sources laid out as linked entries -/

/-- A source with what else its entry holds: the reserved part, and padding behind the
description. -/
structure LinkedSource where
  source : ProfileSourceInfo
  reserved : List UInt8
  padding : List UInt8
  reserved_length : reserved.length = 8
  noNul : Char.ofNat 0 ∉ source.description.toList

/-- What of the entry is behind its link. -/
def LinkedSource.body (e : LinkedSource) : List UInt8 :=
  leBytes 4 e.source.id.toNat ++ leBytes 4 e.source.minInterval.toNat ++
    leBytes 4 e.source.maxInterval.toNat ++ e.reserved ++
    (wideBytes e.source.description ++ 0 :: 0 :: e.padding)

/-- The size of the entry. -/
def LinkedSource.size (e : LinkedSource) : ℕ := 4 + e.body.length

/-- The entries one behind the other, each linked to the next, with 0 in the last. -/
def linkedBytes : List LinkedSource → List UInt8
  | [] => []
  | [e] => leBytes 4 0 ++ e.body
  | e :: e' :: entries => leBytes 4 e.size ++ e.body ++ linkedBytes (e' :: entries)

/-- The links have 32 bits. -/
def Linkable (entries : List LinkedSource) : Prop := ∀ e ∈ entries.dropLast, e.size < 2 ^ 32

/-- The pairs of bytes in front of the first zero pair are those of the code units. -/
theorem takeWhile_chunksExact_unitBytes {units : List UInt16} (h : 0 ∉ units)
    (rest : List UInt8) :
    (chunksExact 2 (unitBytes units ++ 0 :: 0 :: rest)).takeWhile (fun pair => pair ≠ [0, 0]) =
      units.map fun u => leBytes 2 u.toNat := by
  induction units with
  | nil =>
    have hlength : ([0, 0] : List UInt8).length = 2 := rfl
    show (chunksExact 2 ([0, 0] ++ rest)).takeWhile (fun pair => pair ≠ [0, 0]) = []
    rw [chunksExact_append (by decide) hlength]
    rfl
  | cons u units ih =>
    rw [List.mem_cons, not_or] at h
    have hu : leBytes 2 u.toNat ≠ [0, 0] := by
      intro hzero
      have hvalue := leValue_leBytes (n := 2) u.toNat_lt
      rw [hzero] at hvalue
      exact h.1 (UInt16.toNat_inj.mp hvalue)
    have hsplit : unitBytes (u :: units) = leBytes 2 u.toNat ++ unitBytes units := rfl
    rw [hsplit, List.append_assoc, chunksExact_append (by decide) (length_leBytes 2 _),
      List.takeWhile_cons_of_pos (by simpa using hu), ih h.2, List.map_cons]

/-- **A description is found again**, whatever follows its terminator. -/
theorem decodeDescription_wideBytes {s : String} (h : Char.ofNat 0 ∉ s.toList)
    (rest : List UInt8) : decodeDescription (wideBytes s ++ 0 :: 0 :: rest) = s := by
  have hunits : 0 ∉ encodeUtf16 s := fun hmem => h ((zero_mem_encodeUtf16_iff s).mp hmem)
  have hvalue : ∀ u : UInt16, UInt16.ofNat (leValue (leBytes 2 u.toNat)) = u := by
    intro u
    rw [leValue_leBytes (n := 2) u.toNat_lt, UInt16.ofNat_toNat]
  have hvalues : ((encodeUtf16 s).map fun u => leBytes 2 u.toNat).map
      (fun pair => UInt16.ofNat (leValue pair)) = encodeUtf16 s := by
    rw [List.map_map]
    exact (List.map_congr_left fun u _ => hvalue u).trans (List.map_id _)
  rw [decodeDescription, wideBytes, takeWhile_chunksExact_unitBytes hunits, hvalues]
  exact decodeUtf16_encodeUtf16 s

/-! ### Finding the entries again -/

/-- A field in the middle of a buffer. -/
theorem fieldAt_eq {buf front rest : List UInt8} {offset : ℕ} (v : UInt32)
    (hbuf : buf = front ++ (leBytes 4 v.toNat ++ rest)) (hoffset : front.length = offset) :
    fieldAt buf offset = v := by
  have hrange : range offset (offset + 4) buf = leBytes 4 v.toNat := by
    rw [range, List.drop_take, hbuf, List.drop_left' hoffset, Nat.add_sub_cancel_left,
      List.take_left' (length_leBytes 4 v.toNat)]
  rw [fieldAt, hrange, leValue_leBytes (n := 4) v.toNat_lt, UInt32.ofNat_toNat]

section Entry

variable {buf front rest : List UInt8} {e : LinkedSource} {next : UInt32}
variable (hbuf : buf = front ++ (leBytes 4 next.toNat ++ e.body ++ rest))
include hbuf

theorem nextEntryOffset_linked : nextEntryOffset buf front.length = next := by
  rw [List.append_assoc] at hbuf
  exact fieldAt_eq next hbuf rfl

theorem hasEntry_linked : HasEntry buf front.length := by
  have hbody : 20 ≤ e.body.length := by
    simp only [LinkedSource.body, List.length_append, length_leBytes, e.reserved_length]
    omega
  rw [HasEntry, hbuf, profileSourceFixedLen]
  simp only [List.length_append, length_leBytes]
  omega

theorem sourceOf_linked : sourceOf buf front.length = e.source := by
  rw [LinkedSource.body] at hbuf
  simp only [List.append_assoc] at hbuf
  have hid : fieldAt buf (front.length + 4) = e.source.id := by
    rw [← List.append_assoc] at hbuf
    exact fieldAt_eq e.source.id hbuf (by simp [length_leBytes])
  have hmin : fieldAt buf (front.length + 8) = e.source.minInterval := by
    rw [← List.append_assoc, ← List.append_assoc] at hbuf
    exact fieldAt_eq e.source.minInterval hbuf (by simp [length_leBytes])
  have hmax : fieldAt buf (front.length + 12) = e.source.maxInterval := by
    rw [← List.append_assoc, ← List.append_assoc, ← List.append_assoc] at hbuf
    exact fieldAt_eq e.source.maxInterval hbuf (by simp [length_leBytes])
  have hdescription : decodeDescription (buf.drop (front.length + profileSourceFixedLen)) =
      e.source.description := by
    rw [← List.append_assoc, ← List.append_assoc, ← List.append_assoc, ← List.append_assoc,
      ← List.append_assoc] at hbuf
    rw [hbuf, List.drop_left' (by simp [length_leBytes, e.reserved_length, profileSourceFixedLen])]
    exact decodeDescription_wideBytes e.noNul _
  rw [sourceOf, hid, hmin, hmax, hdescription]

end Entry

/-- A round at an entry that is not the last collects it, and moves on to where it ends. -/
theorem parseRound_linkedBytes {t : Target} {buf front : List UInt8} {e e' : LinkedSource}
    {entries : List LinkedSource} (hbuf : buf.length ≤ t.usizeMax) (hsize : e.size < 2 ^ 32)
    (hfront : buf = front ++ linkedBytes (e :: e' :: entries))
    (collected : List ProfileSourceInfo) :
    ∃ front', buf = front' ++ linkedBytes (e' :: entries) ∧
      parseRound t buf ⟨front.length, collected⟩ =
        .ok (.again ⟨front'.length, collected ++ [e.source]⟩) := by
  have hlink : (UInt32.ofNat e.size).toNat = e.size := UInt32.toNat_ofNat_of_lt hsize
  have hentry : buf = front ++ (leBytes 4 (UInt32.ofNat e.size).toNat ++ e.body ++
      linkedBytes (e' :: entries)) := by
    rw [hlink, hfront, linkedBytes]
  have hnext : UInt32.ofNat e.size ≠ 0 := by
    intro hzero
    rw [hzero, LinkedSource.size] at hlink
    exact absurd hlink (by simp; omega)
  have hfront' : buf =
      (front ++ (leBytes 4 e.size ++ e.body)) ++ linkedBytes (e' :: entries) := by
    rw [hfront, linkedBytes, ← List.append_assoc]
  have hlength : (front ++ (leBytes 4 e.size ++ e.body)).length = front.length + e.size := by
    rw [List.length_append, List.length_append, length_leBytes, LinkedSource.size]
  -- the next entry is in the buffer, and so the addition fits
  have hfits : front.length + e.size ≤ t.usizeMax := by
    have := congrArg List.length hfront'
    rw [List.length_append, hlength] at this
    omega
  refine ⟨_, hfront', ?_⟩
  rw [parseRound_of_next (hasEntry_linked hentry) hbuf (nextEntryOffset_linked hentry) hnext,
    sourceOf_linked hentry, hlink, Target.add_of_le hfits, bind_ok, hlength]

/-- From where the entries begin on, they are collected. -/
theorem exists_finishes_linkedBytes {t : Target} {buf : List UInt8} (hbuf : buf.length ≤ t.usizeMax)
    {entries : List LinkedSource} (hne : entries ≠ []) (hlinkable : Linkable entries)
    {front : List UInt8} (hfront : buf = front ++ linkedBytes entries)
    (collected : List ProfileSourceInfo) :
    ∃ visited, Finishes (parseRound t buf) ⟨front.length, collected⟩ visited
      (.ok (collected ++ entries.map (·.source))) := by
  induction entries using linkedBytes.induct generalizing front collected with
  | case1 => exact absurd rfl hne
  | case2 e =>
    have hentry : buf = front ++ (leBytes 4 (0 : UInt32).toNat ++ e.body ++ []) := by
      rw [hfront, linkedBytes, List.append_nil]
      rfl
    have hround := parseRound_of_hasEntry (s := ⟨front.length, collected⟩)
      (hasEntry_linked hentry) hbuf
    rw [if_pos (nextEntryOffset_linked hentry), sourceOf_linked hentry] at hround
    exact ⟨_, .of_leave hround⟩
  | case3 e e' entries ih =>
    obtain ⟨front', hfront', hround⟩ :=
      parseRound_linkedBytes hbuf (hlinkable e List.mem_cons_self) hfront collected
    obtain ⟨visited, hends⟩ := ih (List.cons_ne_nil _ _)
      (fun x hx => hlinkable x (List.mem_cons_of_mem _ hx)) hfront' (collected ++ [e.source])
    rw [List.append_assoc] at hends
    exact ⟨_, .of_again hround hends⟩

/-- **Sources laid out as linked entries are found again.** -/
theorem parses_linkedBytes (t : Target) {entries : List LinkedSource}
    (hlinkable : Linkable entries) (hbuf : (linkedBytes entries).length ≤ t.usizeMax) :
    ∃ fuel, parseProfileSources t (linkedBytes entries) fuel =
      some (.ok (entries.map (·.source))) := by
  cases entries with
  | nil =>
    have hround : parseRound t [] ⟨0, []⟩ = .ok (.leave []) := by
      cases t with
      | mk bits checks => cases bits <;> cases checks <;> rfl
    refine ⟨1, ?_⟩
    rw [linkedBytes, parseProfileSources, iterate, hround]
    rfl
  | cons entry entries =>
    obtain ⟨visited, fuel, hends, -⟩ := exists_finishes_linkedBytes hbuf
      (List.cons_ne_nil entry entries) hlinkable (List.nil_append _).symm []
    exact ⟨fuel, hends⟩

/-! ### The parser -/

/-- **The parser ends, with the sources at increasing offsets, exactly when the links fit.** They
fit on 64 bits, and sources laid out as linked entries are found again on both. -/
theorem parseProfileSources_spec (t : Target) :
    (∀ buf : List UInt8, buf.length ≤ t.isizeMax → (ParsesInOrder t buf ↔ LinksFit t buf)) ∧
    (t.usizeBits = .b64 → ∀ buf : List UInt8, buf.length ≤ t.isizeMax → LinksFit t buf) ∧
    ∀ entries : List LinkedSource, entries ≠ [] → Linkable entries →
      (linkedBytes entries).length ≤ t.isizeMax →
        ∃ fuel, parseProfileSources t (linkedBytes entries) fuel =
          some (.ok (entries.map (·.source))) :=
  ⟨fun _ hbuf => parsesInOrder_iff hbuf, fun ht _ hbuf => linksFit_of_b64 ht hbuf,
    fun _ _ hlinkable hbuf =>
      parses_linkedBytes t hlinkable (Nat.le_trans hbuf t.isizeMax_le)⟩

/-- Two sources, with padding between them. -/
def timerSources : List LinkedSource :=
  [{ source := ⟨2, 1, 10000, ""⟩, reserved := List.replicate 8 0, padding := [0, 0]
     reserved_length := rfl, noNul := by simp },
   { source := ⟨5, 1, 10000, "Timer"⟩, reserved := List.replicate 8 0, padding := []
     reserved_length := rfl, noNul := by simp }]

theorem parseProfileSources_timerSources :
    ParsesInOrder ⟨.b64, true⟩ (linkedBytes timerSources) ∧
    ∃ fuel, parseProfileSources ⟨.b32, true⟩ (linkedBytes timerSources) fuel =
      some (.ok [⟨2, 1, 10000, ""⟩, ⟨5, 1, 10000, "Timer"⟩]) := by
  have hlength : (linkedBytes timerSources).length ≤ 64 := by decide
  have hb64 : (linkedBytes timerSources).length ≤ (Target.mk .b64 true).isizeMax :=
    Nat.le_trans hlength (by decide)
  have hb32 : (linkedBytes timerSources).length ≤ (Target.mk .b32 true).isizeMax :=
    Nat.le_trans hlength (by decide)
  have hlinkable : Linkable timerSources := by
    intro e he
    rw [List.mem_singleton.mp he]
    decide
  obtain ⟨hbuffers, hfits, -⟩ := parseProfileSources_spec ⟨.b64, true⟩
  exact ⟨(hbuffers _ hb64).mpr (hfits rfl _ hb64),
    (parseProfileSources_spec ⟨.b32, true⟩).2.2 timerSources (List.cons_ne_nil _ _) hlinkable hb32⟩

/-- Two entries. The first links to the second, and the second to 24 bytes less than 32 bits ahead
of it. -/
def loopingSources : List UInt8 :=
  leBytes 4 24 ++ List.replicate 20 0 ++ (leBytes 4 (2 ^ 32 - 24) ++ List.replicate 20 0)

theorem loopingSources_entries :
    (HasEntry loopingSources 0 ∧ nextEntryOffset loopingSources 0 = 24) ∧
    HasEntry loopingSources 24 ∧ nextEntryOffset loopingSources 24 = 4294967272 := by decide

/-- Where `usize` has 32 bits, the parser goes round in these for ever, or unwinds. -/
theorem parseProfileSources_loopingSources :
    (∀ fuel, parseProfileSources ⟨.b32, false⟩ loopingSources fuel = none) ∧
    ∃ fuel, parseProfileSources ⟨.b32, true⟩ loopingSources fuel = some (.error .overflow) := by
  obtain ⟨⟨hentry₁, hnext₁⟩, hentry₂, hnext₂⟩ := loopingSources_entries
  have hbuf (t : Target) : loopingSources.length ≤ t.usizeMax :=
    Nat.le_trans (by decide) t.usizeMax_ge
  have hfirst (t : Target) (c : List ProfileSourceInfo) :
      ∃ c', parseRound t loopingSources ⟨0, c⟩ = .ok (.again ⟨24, c'⟩) := by
    have hadd : t.add 0 (24 : UInt32).toNat = .ok 24 :=
      Target.add_of_le (Nat.le_trans (by decide) t.usizeMax_ge)
    rw [parseRound_of_next hentry₁ (hbuf t) hnext₁ (by decide), hadd]
    exact ⟨_, rfl⟩
  have hsecond (t : Target) (c : List ProfileSourceInfo) :=
    parseRound_of_next hentry₂ (hbuf t) hnext₂ (by decide) c
  constructor
  · -- the offset goes from 0 to 24 and back, and the list grows
    have hround : ∀ s : ParseState, s.offset = 0 ∨ s.offset = 24 →
        ∃ s', parseRound ⟨.b32, false⟩ loopingSources s = .ok (.again s') ∧
          (s'.offset = 0 ∨ s'.offset = 24) := by
      rintro ⟨offset, c⟩ (rfl | rfl)
      · obtain ⟨c', hc'⟩ := hfirst ⟨.b32, false⟩ c
        exact ⟨_, hc', .inr rfl⟩
      · exact ⟨_, hsecond ⟨.b32, false⟩ c, .inl rfl⟩
    intro fuel
    cases hr : parseProfileSources ⟨.b32, false⟩ loopingSources fuel with
    | none => rfl
    | some r => exact absurd ⟨fuel, hr, rfl⟩ (not_finishes hround (.inl rfl))
  · obtain ⟨c, hc⟩ := hfirst ⟨.b32, true⟩ []
    obtain ⟨fuel, hr, -⟩ := Finishes.of_again hc (.of_error (hsecond ⟨.b32, true⟩ c))
    exact ⟨fuel, hr⟩

end Ferrisetw2
