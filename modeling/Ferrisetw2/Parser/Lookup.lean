import Ferrisetw2.Lib.Circular
import Ferrisetw2.Parser.Walk
import Mathlib.Algebra.BigOperators.Group.List.Basic

/-!
# The entry points over an invariant

`find_property` and `property_bytes_at` change the cache in two ways only: they run
`parse_next_property`, and a hit of the probing loop moves `next_probe`. `Parser.Keeps` says that a
predicate on states survives both. The rules below then say, once and for any such predicate, what
the two entry points answer: a lookup by the cache it leaves behind, and where that cache does not
hold the property, by the fault of a step that could not extend it.

## Main definitions

* `named`, `findAnswer`, `bytesAnswer`, `answer` — the answers a list of slices determines
* `Straddles` — cached properties of a name lie on both sides of `next_probe`
* `Parser.Keeps` — an invariant of the two ways a call changes the state
* `Tiles`, `Walked` — the invariant of every state, whatever TDH answers

## Main results

* `Parser.Keeps.call` — the rule for one call
* `Parser.Keeps.findProperty_of_straddles` — a lookup that straddles returns a later slice
* `Parser.walked_keeps` — `Walked` is such an invariant
-/

namespace Ferrisetw2

open Rust

/-! ### Answers -/

/-- The slice is of a property of this name. -/
def named (name : String) (slice : PropertySlice) : Bool := slice.property.name == name

/-- The answer to a name: its first slice. -/
def findAnswer (slices : List PropertySlice) (stop : Fault ParserError) (name : String) :
    Outcome ParserError PropertySlice :=
  match slices.find? (named name) with
  | some slice => .ok slice
  | none => .error stop

/-- The answer to a position: the slice there. -/
def bytesAnswer (slices : List PropertySlice) (stop : Fault ParserError) (index : ℕ) :
    Outcome ParserError Slice :=
  match slices[index]? with
  | some slice => .ok slice.buffer
  | none => .error stop

/-- The answer to a call. -/
def answer (slices : List PropertySlice) (stop : Fault ParserError) : Call → Answer
  | .find name => .slice (findAnswer slices stop name)
  | .bytesAt index => .bytes (bytesAnswer slices stop index)

/-- The slices hold what the call asks for. -/
def Holds (slices : List PropertySlice) : Call → Prop
  | .find name => slices.find? (named name) ≠ none
  | .bytesAt index => index < slices.length

/-- Cached properties of this name lie on both sides of `next_probe`. -/
def Straddles (c : CachedSlices) (name : String) : Prop :=
  ∃ i j, i < c.nextProbe ∧ c.nextProbe ≤ j ∧
    (c.slices[i]?).any (named name) = true ∧ (c.slices[j]?).any (named name) = true

/-- A call the first slice of whose name can be found. Positions always can. -/
def InReach (s : ParserState) : Call → Prop
  | .find name => ¬ Straddles s.cache name
  | .bytesAt _ => True

/-- More slices do not change those that are there. -/
theorem getElem?_of_isPrefix {xs ys : List PropertySlice} {i : ℕ} {slice : PropertySlice}
    (h : xs <+: ys) (hi : xs[i]? = some slice) : ys[i]? = some slice := by
  obtain ⟨zs, rfl⟩ := h
  rw [List.getElem?_append_left (List.getElem?_eq_some_iff.mp hi).1, hi]

/-- More slices do not change an answer that was found. -/
theorem answer_of_isPrefix {xs ys : List PropertySlice} {c : Call} (h : xs <+: ys)
    (hc : Holds xs c) (e e' : Fault ParserError) : answer ys e' c = answer xs e c := by
  cases c with
  | find name =>
    obtain ⟨zs, rfl⟩ := h
    obtain ⟨slice, hslice⟩ := Option.ne_none_iff_exists'.mp hc
    simp only [answer, findAnswer, List.find?_append, hslice, Option.some_or]
  | bytesAt index =>
    have hget := List.getElem?_eq_getElem hc
    simp only [answer, bytesAnswer, hget, getElem?_of_isPrefix h hget]

/-! ### Probing -/

namespace Parser

/-- What probing finds: an index of the name, such that nothing earlier in circular order has it. -/
theorem probe_eq_some {c : CachedSlices} {name : String} {idx : ℕ}
    (hp : c.nextProbe = 0 ∨ c.nextProbe < c.slices.length) (h : probe c name = some idx) :
    idx < c.slices.length ∧ (c.slices[idx]?).any (named name) = true ∧
      ∀ j < c.slices.length, Circular.ahead c.slices.length c.nextProbe j <
        Circular.ahead c.slices.length c.nextProbe idx →
          (c.slices[j]?).any (named name) = false :=
  Circular.find?_eq_some hp h

theorem probe_eq_none {c : CachedSlices} {name : String}
    (hp : c.nextProbe = 0 ∨ c.nextProbe < c.slices.length) (h : probe c name = none) :
    ∀ x ∈ c.slices, named name x = false := by
  intro x hx
  obtain ⟨j, hj, rfl⟩ := List.getElem_of_mem hx
  have hno := Circular.find?_eq_none hp h j hj
  simpa [named, List.getElem?_eq_getElem hj] using hno

/-- Without a match on both sides of `next_probe`, probing finds the first match. -/
theorem find?_eq_of_probe {c : CachedSlices} {name : String} {idx : ℕ}
    (hp : c.nextProbe = 0 ∨ c.nextProbe < c.slices.length) (h : probe c name = some idx)
    (hstr : ¬ Straddles c name) : c.slices.find? (named name) = c.slices[idx]? := by
  obtain ⟨hidx, hmatch, hbefore⟩ := probe_eq_some hp h
  have hfirst : ∀ j < idx, (c.slices[j]?).any (named name) = false := by
    intro j hj
    by_cases hside : c.nextProbe ≤ j ∨ idx < c.nextProbe
    · exact hbefore j (by omega) (Circular.ahead_lt_ahead hj hidx hside)
    · -- a match before the probe, and the hit at or after it
      by_contra hcon
      exact hstr ⟨j, idx, by omega, by omega, by simpa using hcon, hmatch⟩
  rw [List.getElem?_eq_getElem hidx, List.find?_eq_some_iff_append]
  refine ⟨?_, c.slices.take idx, c.slices.drop (idx + 1), ?_, fun x hx => ?_⟩
  · simpa [List.getElem?_eq_getElem hidx] using hmatch
  · conv_lhs => rw [← List.take_append_drop idx c.slices]
    rw [List.drop_eq_getElem_cons hidx]
  · obtain ⟨j, hj, rfl⟩ := List.getElem_of_mem hx
    rw [List.length_take] at hj
    have hjno := hfirst j (by omega)
    rw [List.getElem?_eq_getElem (by omega)] at hjno
    simpa using hjno

/-! ### Invariants of the walk -/

/-- The state after a hit of the probing loop at `idx`. -/
def hit (s : ParserState) (idx : ℕ) : ParserState :=
  { s with cache := { s.cache with nextProbe := (idx + 1) % s.cache.slices.length } }

/-- A predicate on states that the two ways a call changes the state preserve. -/
structure Keeps (P : Parser) (I : ParserState → Prop) : Prop where
  /-- A step of the walk preserves it. -/
  step : ∀ s, I s → I (P.parseNextProperty s).2
  /-- A hit preserves it. -/
  hit : ∀ s idx, I s → idx < s.cache.slices.length → I (hit s idx)
  /-- It has the probe point into the cache. -/
  probe : ∀ s, I s → s.cache.nextProbe = 0 ∨ s.cache.nextProbe < s.cache.slices.length

/-- The fault is that of a step which could not extend this cache. -/
def Stuck (P : Parser) (I : ParserState → Prop) (e : Fault ParserError) (s' : ParserState) : Prop :=
  ∃ s, I s ∧ s.cache = s'.cache ∧ P.parseNextProperty s = (.error e, s')

/-- A step that succeeds pushes one slice, and one that fails leaves the cache as it is. -/
theorem parseNextProperty_cache (P : Parser) (s : ParserState) :
    (∃ slice s', P.parseNextProperty s = (.ok (), s') ∧
      s'.cache.slices = s.cache.slices ++ [slice]) ∨
    (∃ e s', P.parseNextProperty s = (.error e, s') ∧ s.cache = s'.cache) := by
  rcases parseNextProperty_cases P s with
    ⟨slice, calls, dataStart, remaining, h, -, -, -, -⟩ | ⟨e, calls, h⟩
  · exact Or.inl ⟨slice, _, h, rfl⟩
  · exact Or.inr ⟨e, _, h, rfl⟩

/-- With every property cached there is no step to make. -/
theorem stuck_of_le {P : Parser} {I : ParserState → Prop} {s : ParserState} (hs : I s)
    (h : P.properties.length ≤ s.cache.slices.length) : P.Stuck I (.error .notFound) s := by
  refine ⟨s, hs, rfl, ?_⟩
  rw [Parser.parseNextProperty, List.getElem?_eq_none h]

namespace Keeps

variable {P : Parser} {I : ParserState → Prop}

/-- The rule for the loop of `property_bytes_at`. -/
theorem parseMore (hK : P.Keeps I) :
    ∀ (n : ℕ) {s : ParserState}, I s → ∃ s', I s' ∧ s.cache.slices <+: s'.cache.slices ∧
      ((P.parseMore n s = (.ok (), s') ∧
          s'.cache.slices.length = s.cache.slices.length + n) ∨
        ∃ e, P.parseMore n s = (.error e, s') ∧ P.Stuck I e s' ∧
          s'.cache.slices.length < s.cache.slices.length + n) := by
  intro n
  induction n with
  | zero => exact fun {s} hs => ⟨s, hs, List.prefix_refl _, Or.inl ⟨rfl, rfl⟩⟩
  | succ n ih =>
    intro s hs
    rcases P.parseNextProperty_cache s with ⟨slice, s₁, hstep, hslices⟩ | ⟨e, s', hstep, hcache⟩
    · have hs₁ : I s₁ := by simpa [hstep] using hK.step s hs
      obtain ⟨s', hs', hpre, hcase⟩ := ih hs₁
      rw [hslices] at hpre hcase
      simp only [List.length_append, List.length_singleton] at hcase
      refine ⟨s', hs', (List.prefix_append _ _).trans hpre, ?_⟩
      rw [Parser.parseMore, hstep]
      rcases hcase with ⟨hmore, hlen⟩ | ⟨e, hmore, hstuck, hlen⟩
      · exact Or.inl ⟨hmore, by omega⟩
      · exact Or.inr ⟨e, hmore, hstuck, by omega⟩
    · have hs' : I s' := by simpa [hstep] using hK.step s hs
      refine ⟨s', hs', hcache ▸ List.prefix_refl _, Or.inr ⟨e, ?_, ⟨s, hs, hcache, hstep⟩, ?_⟩⟩
      · rw [Parser.parseMore, hstep]
      · rw [hcache]
        omega

/-- The rule for positions. -/
theorem propertyBytesAt (hK : P.Keeps I) (index : ℕ) {s : ParserState} (hs : I s) :
    ∃ e s', P.propertyBytesAt index s = (bytesAnswer s'.cache.slices e index, s') ∧ I s' ∧
      s.cache.slices <+: s'.cache.slices ∧
      (¬ Holds s'.cache.slices (.bytesAt index) → P.Stuck I e s') := by
  obtain ⟨s', hs', hpre, ⟨hmore, hlen⟩ | ⟨e, hmore, hstuck, hlen⟩⟩ :=
    hK.parseMore (index + 1 - s.cache.slices.length) hs
  · have hi : index < s'.cache.slices.length := by omega
    refine ⟨.error .notFound, s', ?_, hs', hpre, fun hno => absurd hi hno⟩
    rw [Parser.propertyBytesAt, hmore]
    simp only [bytesAnswer, List.getElem?_eq_getElem hi]
  · refine ⟨e, s', ?_, hs', hpre, fun _ => hstuck⟩
    have hle := hpre.length_le
    have hnone : s'.cache.slices[index]? = none := by
      rw [List.getElem?_eq_none_iff]
      omega
    rw [Parser.propertyBytesAt, hmore]
    simp only [bytesAnswer, hnone]

/-- The rule for the parsing loop of `find_property`, entered with no cached slice of the name. -/
theorem findMore (hK : P.Keeps I) (name : String) :
    ∀ (n : ℕ) {s : ParserState}, I s → P.properties.length ≤ s.cache.slices.length + n →
      (∀ x ∈ s.cache.slices, named name x = false) →
      ∃ e s', P.findMore name n s = (findAnswer s'.cache.slices e name, s') ∧ I s' ∧
        s.cache.slices <+: s'.cache.slices ∧
        (¬ Holds s'.cache.slices (.find name) → P.Stuck I e s') := by
  intro n
  induction n with
  | zero =>
    intro s hs hn hno
    have hnone : s.cache.slices.find? (named name) = none :=
      List.find?_eq_none.mpr fun x hx => by simp [hno x hx]
    exact ⟨.error .notFound, s, by rw [Parser.findMore, findAnswer, hnone], hs,
      List.prefix_refl _, fun _ => stuck_of_le hs hn⟩
  | succ n ih =>
    intro s hs hn hno
    rcases P.parseNextProperty_cache s with ⟨slice, s₁, hstep, hslices⟩ | ⟨e, s', hstep, hcache⟩
    · have hs₁ : I s₁ := by simpa [hstep] using hK.step s hs
      have hlast : s₁.cache.slices.getLast? = some slice := by
        rw [hslices, List.getLast?_concat]
      by_cases hname : slice.property.name = name
      · have hfind : s₁.cache.slices.find? (named name) = some slice := by
          have hbefore : s.cache.slices.find? (named name) = none :=
            List.find?_eq_none.mpr fun x hx => by simp [hno x hx]
          rw [hslices, List.find?_append, hbefore]
          simp [named, hname]
        refine ⟨.error .notFound, s₁, ?_, hs₁, ?_, fun hnone => absurd ?_ hnone⟩
        · rw [Parser.findMore, hstep]
          simp only [hlast, if_pos hname, findAnswer, hfind]
        · rw [hslices]
          exact List.prefix_append _ _
        · simp [Holds, hfind]
      · obtain ⟨e, s', hfm, hs', hpre, hstuck⟩ := ih hs₁
          (by rw [hslices, List.length_append, List.length_singleton]; omega) (by
            intro x hx
            rw [hslices, List.mem_append, List.mem_singleton] at hx
            rcases hx with hx | rfl
            · exact hno x hx
            · simpa [named] using hname)
        refine ⟨e, s', ?_, hs', ?_, hstuck⟩
        · rw [Parser.findMore, hstep]
          simp only [hlast, if_neg hname]
          exact hfm
        · rw [hslices] at hpre
          exact (List.prefix_append _ _).trans hpre
    · have hs' : I s' := by simpa [hstep] using hK.step s hs
      have hnone : s'.cache.slices.find? (named name) = none := by
        rw [← hcache]
        exact List.find?_eq_none.mpr fun x hx => by simp [hno x hx]
      refine ⟨e, s', ?_, hs', hcache ▸ List.prefix_refl _,
        fun _ => ⟨s, hs, hcache, hstep⟩⟩
      rw [Parser.findMore, hstep, findAnswer, hnone]

/-- The rule for names: a hit of the probing loop, or the parsing loop. -/
theorem findProperty (hK : P.Keeps I) (name : String) {s : ParserState} (hs : I s) :
    (∃ idx, Parser.probe s.cache name = some idx ∧ ∃ h : idx < s.cache.slices.length,
      P.findProperty name s = (.ok s.cache.slices[idx], Parser.hit s idx)) ∨
    (Parser.probe s.cache name = none ∧ ∃ e s',
      P.findProperty name s = (findAnswer s'.cache.slices e name, s') ∧ I s' ∧
      s.cache.slices <+: s'.cache.slices ∧
      (¬ Holds s'.cache.slices (.find name) → P.Stuck I e s')) := by
  rw [Parser.findProperty]
  cases hprobe : Parser.probe s.cache name with
  | some idx =>
    have hidx := (probe_eq_some (hK.probe s hs) hprobe).1
    refine Or.inl ⟨idx, rfl, hidx, ?_⟩
    simp only [List.getElem?_eq_getElem hidx]
    rfl
  | none =>
    exact Or.inr ⟨rfl, hK.findMore name _ hs (by omega) (probe_eq_none (hK.probe s hs) hprobe)⟩

/-- **The rule for one call.** The invariant holds of the state it leaves, whose cache extends the
old one; and in reach, that cache determines the answer, up to the fault of a step that could not
extend it. -/
theorem call (hK : P.Keeps I) {s : ParserState} (hs : I s) (c : Call) :
    I (P.call s c).2 ∧ s.cache.slices <+: (P.call s c).2.cache.slices ∧
      (InReach s c → ∃ e, (P.call s c).1 = answer (P.call s c).2.cache.slices e c ∧
        (¬ Holds (P.call s c).2.cache.slices c → P.Stuck I e (P.call s c).2)) := by
  cases c with
  | bytesAt index =>
    obtain ⟨e, s', heq, hs', hpre, hstuck⟩ := hK.propertyBytesAt index hs
    simp only [Parser.call, heq]
    exact ⟨hs', hpre, fun _ => ⟨e, rfl, hstuck⟩⟩
  | find name =>
    rcases hK.findProperty name hs with
      ⟨idx, hprobe, hidx, heq⟩ | ⟨-, e, s', heq, hs', hpre, hstuck⟩
    · simp only [Parser.call, heq]
      refine ⟨hK.hit s idx hs hidx, List.prefix_refl _, fun hreach => ⟨.error .notFound, ?_, ?_⟩⟩
      · have hfind := find?_eq_of_probe (hK.probe s hs) hprobe hreach
        simp only [answer, findAnswer, Parser.hit, hfind, List.getElem?_eq_getElem hidx]
      · intro hno
        have hfind := find?_eq_of_probe (hK.probe s hs) hprobe hreach
        exact absurd (by simp [Holds, Parser.hit, hfind, hidx]) hno
    · simp only [Parser.call, heq]
      exact ⟨hs', hpre, fun _ => ⟨e, rfl, hstuck⟩⟩

/-- **A lookup that straddles returns a later slice**: the hit lies at or after `next_probe`, and
the first slice of the name before it. -/
theorem findProperty_of_straddles (hK : P.Keeps I) {name : String} {s : ParserState} (hs : I s)
    (hstr : Straddles s.cache name) :
    ∃ i j : ℕ, i < j ∧ (s.cache.slices[i]?).any (named name) = true ∧
      ∃ slice, s.cache.slices[j]? = some slice ∧ (P.findProperty name s).1 = .ok slice := by
  obtain ⟨i, j, hi, hj, hni, hnj⟩ := hstr
  have hjlt : j < s.cache.slices.length := by
    by_contra hcon
    rw [List.getElem?_eq_none (Nat.not_lt.mp hcon)] at hnj
    simp at hnj
  rcases hK.findProperty name hs with ⟨idx, hprobe, hidx, heq⟩ | ⟨hnone, -⟩
  · obtain ⟨-, -, hbefore⟩ := probe_eq_some (hK.probe s hs) hprobe
    have hge : s.cache.nextProbe ≤ idx := by
      by_contra hcon
      have := hbefore j hjlt (Circular.ahead_lt_of_wrap hj hjlt (Nat.not_le.mp hcon))
      simp [this] at hnj
    exact ⟨i, idx, by omega, hni, _, List.getElem?_eq_getElem hidx, by rw [heq]⟩
  · have := probe_eq_none (hK.probe s hs) hnone _ (List.getElem_mem hjlt)
    simp [List.getElem?_eq_getElem hjlt, this] at hnj

/-- **The rule for histories.** -/
theorem after (hK : P.Keeps I) {s : ParserState} (hs : I s) (calls : List Call) :
    I (CallMachine.after P.call s calls) ∧
      s.cache.slices <+: (CallMachine.after P.call s calls).cache.slices :=
  ⟨CallMachine.after_of_invariant I (fun _ c h => (hK.call h c).1) calls hs,
    CallMachine.after_of_step_rel I (fun a b => a.cache.slices <+: b.cache.slices)
      (fun _ => List.prefix_refl _) (fun h h' => h.trans h') (fun _ c h => (hK.call h c).1)
      (fun _ c h => (hK.call h c).2.1) calls hs⟩

end Keeps

end Parser

/-! ### What every state satisfies -/

/-- Number of bytes the slices take. -/
def totalLen (slices : List PropertySlice) : ℕ := (slices.map (·.buffer.len)).sum

@[simp] theorem totalLen_nil : totalLen [] = 0 := rfl

@[simp] theorem totalLen_append (xs ys : List PropertySlice) :
    totalLen (xs ++ ys) = totalLen xs + totalLen ys := by
  simp [totalLen]

@[simp] theorem totalLen_cons (x : PropertySlice) (xs : List PropertySlice) :
    totalLen (x :: xs) = x.buffer.len + totalLen xs := by
  simp [totalLen]

/-- The slices are cut out of the buffer one after the other, from `start` on. -/
def Tiles (buffer : Slice) : ℕ → List PropertySlice → Prop
  | _, [] => True
  | start, x :: xs =>
    buffer.getRange start (start + x.buffer.len) = some x.buffer ∧
      Tiles buffer (start + x.buffer.len) xs

theorem Tiles.append {buffer : Slice} : ∀ {start : ℕ} {xs ys : List PropertySlice},
    Tiles buffer start (xs ++ ys) ↔
      Tiles buffer start xs ∧ Tiles buffer (start + totalLen xs) ys
  | start, [], ys => by simp [Tiles]
  | start, x :: xs, ys => by
    simp only [List.cons_append, Tiles, Tiles.append, totalLen_cons, and_assoc, Nat.add_assoc]

/-- The first slice of a tiling starts where the tiling does, and each next one where the one
before it ends. -/
theorem Tiles.start_getElem {buffer : Slice} {start i : ℕ} {slices : List PropertySlice}
    (h : Tiles buffer start slices) (hi : i < slices.length) :
    slices[i].buffer.start = buffer.start + start + totalLen (slices.take i) := by
  have hsplit := List.take_append_drop i slices
  rw [List.drop_eq_getElem_cons hi] at hsplit
  rw [← hsplit, Tiles.append] at h
  obtain ⟨-, hget, -⟩ := h
  obtain ⟨-, heq⟩ := Slice.getRange_eq_some_iff.mp hget
  have hstart := congrArg Slice.start heq
  simp only at hstart
  omega

/-- **What every state of a parser satisfies**, whatever TDH answers. -/
structure Walked (P : Parser) (dataStart : Option ℕ) (s : ParserState) : Prop where
  /-- The cached slices are those of the first properties. -/
  properties : s.cache.slices.map (·.property) = P.properties.take s.cache.slices.length
  /-- They are cut out of the user buffer one after the other. -/
  tiles : Tiles P.record.userSlice (dataStart.getD 0) s.cache.slices
  /-- The next offset is the sum of the cached sizes. -/
  offset : s.cache.lastCachedOffset = totalLen s.cache.slices
  /-- The probe points into the cache. -/
  probe : s.cache.nextProbe = 0 ∨ s.cache.nextProbe < s.cache.slices.length
  /-- The values start where they started. -/
  start : s.cache.dataStart = dataStart

theorem Walked.length_le {P : Parser} {dataStart : Option ℕ} {s : ParserState}
    (h : Walked P dataStart s) : s.cache.slices.length ≤ P.properties.length := by
  have hlen := congrArg List.length h.properties
  simp only [List.length_map, List.length_take] at hlen
  omega

/-- A cached slice is that of the property at its index. -/
theorem Walked.getElem?_properties {P : Parser} {dataStart : Option ℕ} {s : ParserState}
    (h : Walked P dataStart s) {i : ℕ} {slice : PropertySlice}
    (hi : s.cache.slices[i]? = some slice) : P.properties[i]? = some slice.property := by
  have hget := congrArg (·[i]?) h.properties
  simp only [List.getElem?_map, hi, Option.map_some,
    List.getElem?_take_of_lt (List.getElem?_eq_some_iff.mp hi).1] at hget
  exact hget.symm

/-- A new parser. -/
theorem Walked.create (P : Parser) (record : EventRecord) (schema : Schema) :
    Walked P (propertyValuesStart record schema) (Parser.createState record schema) :=
  ⟨rfl, trivial, rfl, Or.inl rfl, rfl⟩

/-- **Every call keeps `Walked`.** -/
theorem Parser.walked_keeps (P : Parser) (dataStart : Option ℕ) :
    P.Keeps (Walked P dataStart) where
  step := by
    intro s hs
    rcases P.parseNextProperty_cases s with
      ⟨slice, calls, start, remaining, heq, hprop, hstart, hfrom, hto⟩ | ⟨e, calls, heq⟩
    · rw [heq]
      have hds : dataStart = some start := by rw [← hs.start, hstart]
      refine ⟨?_, ?_, ?_, ?_, hs.start⟩
      · simp only [push, List.map_append, List.map_cons, List.map_nil, List.length_append,
          List.length_singleton, List.take_add_one, hs.properties, hprop, Option.toList_some]
      · simp only [push, Tiles.append, Tiles, and_true]
        refine ⟨hs.tiles, ?_⟩
        rw [hs.offset] at hfrom
        rw [hds, Option.getD_some]
        exact Slice.getRange_of_getTo hfrom hto
      · simp [push, hs.offset]
      · have hprobe := hs.probe
        simp only [push, List.length_append, List.length_singleton]
        omega
    · rw [heq]
      exact ⟨hs.properties, hs.tiles, hs.offset, hs.probe, hs.start⟩
  hit := fun s idx hs hidx =>
    ⟨hs.properties, hs.tiles, hs.offset, Or.inr (Nat.mod_lt _ (by
      show 0 < s.cache.slices.length
      omega)), hs.start⟩
  probe := fun s hs => hs.probe

end Ferrisetw2
