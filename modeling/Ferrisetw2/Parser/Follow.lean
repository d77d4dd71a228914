import Ferrisetw2.Parser.Lookup
import Mathlib.Data.List.Infix

/-!
# A walk that follows a list of slices

What the entry points of the parser answer depends on the walk only through two things: the slices
it locates, in order, and the fault that stops it. `Parser.Follows` says that the walk of a parser
locates these slices and stops at this fault, from whatever state it is resumed. The answers of
every history follow from it. `History.lean` instantiates it with the canonical walk of an event,
`Layout.lean` with the payloads an event was packed from.

## Main definitions

* `Cached` — the cache holds a prefix of the slices
* `Parser.Follows` — every step of the walk pushes the next slice, or stops after the last

## Main results

* `Parser.Follows.call` — one call leaves a prefix cached, and has the answer of the whole walk
* `Parser.Follows.after` — after any history, a prefix is cached
* `Parser.Follows.answers` — the answers of a history whose lookups are in reach
-/

namespace Ferrisetw2

open Rust

/-- The cache holds a prefix of `located`. -/
structure Cached (P : Parser) (dataStart : Option ℕ) (located : List PropertySlice)
    (s : ParserState) : Prop extends Walked P dataStart s where
  isPrefix : s.cache.slices <+: located

/-- A new parser caches nothing. -/
theorem Cached.create (P : Parser) (record : EventRecord) (schema : Schema)
    (located : List PropertySlice) :
    Cached P (propertyValuesStart record schema) located (Parser.createState record schema) :=
  ⟨Walked.create P record schema, List.nil_prefix⟩

/-- Every step of the walk, from any state that caches a prefix of `located` and whose TDH calls
are `Good`, pushes the next slice of `located`, or fails with `stop` after the last. -/
structure Parser.Follows (P : Parser) (dataStart : Option ℕ) (located : List PropertySlice)
    (stop : Fault ParserError) (Good : List Property → Prop) : Prop where
  step : ∀ s, Cached P dataStart located s → Good s.tdhCalls → ∃ calls, Good calls ∧
    ((∃ h : s.cache.slices.length < located.length,
        P.parseNextProperty s =
          (.ok (), push { s with tdhCalls := calls } located[s.cache.slices.length])) ∨
      (s.cache.slices = located ∧
        P.parseNextProperty s = (.error stop, { s with tdhCalls := calls })))

namespace Parser.Follows

variable {P : Parser} {dataStart : Option ℕ} {located : List PropertySlice}
  {stop : Fault ParserError} {Good : List Property → Prop}

theorem keeps (hF : P.Follows dataStart located stop Good) :
    P.Keeps fun s => Cached P dataStart located s ∧ Good s.tdhCalls where
  step := by
    rintro s ⟨hs, hg⟩
    have hwalked := (P.walked_keeps dataStart).step s hs.toWalked
    obtain ⟨calls, hcalls, ⟨hlt, hstep⟩ | ⟨hall, hstep⟩⟩ := hF.step s hs hg
    · rw [hstep] at hwalked ⊢
      refine ⟨⟨hwalked, ?_⟩, hcalls⟩
      exact List.concat_get_prefix hs.isPrefix hlt
    · rw [hstep] at hwalked ⊢
      exact ⟨⟨hwalked, hs.isPrefix⟩, hcalls⟩
  hit := fun s idx h hidx =>
    ⟨⟨(P.walked_keeps dataStart).hit s idx h.1.toWalked hidx, h.1.isPrefix⟩, h.2⟩
  probe := fun _ h => h.1.probe

/-- A step that cannot extend the cache fails with `stop`, and everything is cached. -/
theorem eq_of_stuck (hF : P.Follows dataStart located stop Good) {e : Fault ParserError}
    {s' : ParserState}
    (h : P.Stuck (fun s => Cached P dataStart located s ∧ Good s.tdhCalls) e s') :
    e = stop ∧ s'.cache.slices = located := by
  obtain ⟨s, ⟨hs, hg⟩, hcache, hstep⟩ := h
  obtain ⟨calls, -, ⟨hlt, heq⟩ | ⟨hall, heq⟩⟩ := hF.step s hs hg
  · rw [heq] at hstep
    simp at hstep
  · rw [heq] at hstep
    obtain ⟨he, -⟩ := Prod.mk.inj hstep
    exact ⟨(Except.error.inj he).symm, by rw [← hcache, hall]⟩

/-- **The step lemma of a history.** A call leaves a prefix cached, and no fewer slices; in reach,
its answer is that of the whole walk. -/
theorem call (hF : P.Follows dataStart located stop Good) {s : ParserState}
    (hs : Cached P dataStart located s) (hg : Good s.tdhCalls) (c : Call) :
    Cached P dataStart located (P.call s c).2 ∧ Good (P.call s c).2.tdhCalls ∧
      s.cache.slices <+: (P.call s c).2.cache.slices ∧
      (InReach s c → (P.call s c).1 = answer located stop c) := by
  obtain ⟨⟨hs', hg'⟩, hpre, hanswer⟩ := hF.keeps.call ⟨hs, hg⟩ c
  refine ⟨hs', hg', hpre, fun hreach => ?_⟩
  obtain ⟨e, heq, hstuck⟩ := hanswer hreach
  by_cases hc : Holds (P.call s c).2.cache.slices c
  · rw [heq, answer_of_isPrefix hs'.isPrefix hc e stop]
  · obtain ⟨rfl, hall⟩ := hF.eq_of_stuck (hstuck hc)
    rw [heq, hall]

/-- **The run lemma**: after any history, a prefix is cached. -/
theorem after (hF : P.Follows dataStart located stop Good) {s : ParserState}
    (hs : Cached P dataStart located s) (hg : Good s.tdhCalls) (calls : List Call) :
    Cached P dataStart located (CallMachine.after P.call s calls) ∧
      Good (CallMachine.after P.call s calls).tdhCalls :=
  (hF.keeps.after ⟨hs, hg⟩ calls).1

/-- **The answers of a history** whose lookups are in reach do not depend on the history. -/
theorem answers (hF : P.Follows dataStart located stop Good) {s : ParserState}
    (hs : Cached P dataStart located s) (hg : Good s.tdhCalls) {calls : List Call}
    (h : CallMachine.Meets P.call InReach s calls) :
    CallMachine.answers P.call s calls = calls.map (answer located stop) :=
  CallMachine.answers_eq_map (fun s => Cached P dataStart located s ∧ Good s.tdhCalls)
    (fun _ c hI => ⟨(hF.call hI.1 hI.2 c).1, (hF.call hI.1 hI.2 c).2.1⟩)
    (fun _ c hI => (hF.call hI.1 hI.2 c).2.2.2) calls ⟨hs, hg⟩ h

end Parser.Follows

end Ferrisetw2
