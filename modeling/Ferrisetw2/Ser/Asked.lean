import Ferrisetw2.Ser.ByName

/-!
# How often TDH is asked

Asking TDH for a size is expensive, and the parser keeps what it has located in order to ask once.
It asks for a property when the sizing code cannot do without, and only when the walk is at that
property. A walk that gets past it does not come back; a walk that fails there asks again when it is
taken up again. So what is asked beyond what the located properties need is paid for by calls that
failed.

## Main definitions

* `asksTdh`, `asked` — the properties TDH is asked for when slices are located one after the other
* `AsksAtMost` — the calls made so far, up to this many that were wasted

## Main results

* `AsksAtMost.after` — what a history asks for
* `tdh_asked_once` — each located property is asked for at most once, but for the calls that failed,
  and nothing is asked for once an event was serialized strictly
-/

namespace Ferrisetw2

open Rust

/-- Behind `before`, the size of the property is asked for. -/
def asksTdh (P : Parser) (dataStart : Option ℕ) (before : List PropertySlice)
    (property : Property) : Bool :=
  (dataStart.bind fun start => P.record.userSlice.getFrom (start + totalLen before)).any
    fun remaining => Sizing.asks
      (findPropertySize P.target P.record.pointerSize property before remaining.bytes)

/-- What is asked for to locate these slices, behind those. -/
def asked (P : Parser) (dataStart : Option ℕ) (before : List PropertySlice) :
    List PropertySlice → List Property
  | [] => []
  | slice :: slices =>
    (if asksTdh P dataStart before slice.property then [slice.property] else []) ++
      asked P dataStart (before ++ [slice]) slices

/-- An answer that is not a value. -/
def Answer.isError : Answer → Bool
  | .slice (.error _) | .bytes (.error _) => true
  | .slice (.ok _) | .bytes (.ok _) => false

variable {P : Parser} {dataStart : Option ℕ}

theorem asked_concat (slice : PropertySlice) : ∀ (before slices : List PropertySlice),
    asked P dataStart before (slices ++ [slice]) = asked P dataStart before slices ++
      if asksTdh P dataStart (before ++ slices) slice.property then [slice.property] else []
  | before, [] => by rw [List.nil_append, asked, asked, asked, List.append_nil, List.append_nil,
      List.nil_append]
  | before, first :: slices => by
    rw [List.cons_append, asked, asked_concat slice (before ++ [first]) slices, asked,
      List.append_assoc, List.append_assoc, List.singleton_append]

/-- A property that is located is asked for once at most. -/
theorem asked_sublist : ∀ (before slices : List PropertySlice),
    (asked P dataStart before slices).Sublist (slices.map (·.property))
  | _, [] => List.Sublist.refl []
  | before, slice :: slices => by
    rw [asked, List.map_cons]
    split
    · exact (asked_sublist _ slices).cons_cons slice.property
    · exact (asked_sublist _ slices).cons slice.property

/-- A step of the walk asks for its property, or for nothing. -/
theorem parseNextProperty_asks {s : ParserState} (hs : Walked P dataStart s) :
    (∃ slice s', P.parseNextProperty s = (.ok (), s') ∧
      s'.cache.slices = s.cache.slices ++ [slice] ∧ s'.tdhCalls = s.tdhCalls ++
        if asksTdh P dataStart s.cache.slices slice.property then [slice.property] else []) ∨
    ∃ e s' more, P.parseNextProperty s = (.error e, s') ∧ s'.cache.slices = s.cache.slices ∧
      s'.tdhCalls = s.tdhCalls ++ more ∧ more.length ≤ 1 := by
  rw [Parser.parseNextProperty]
  split
  · exact .inr ⟨_, s, [], rfl, rfl, (List.append_nil _).symm, Nat.zero_le 1⟩
  · rename_i property _
    split
    · exact .inr ⟨_, s, [], rfl, rfl, (List.append_nil _).symm, Nat.zero_le 1⟩
    · rename_i start hstart
      split
      · exact .inr ⟨_, s, [], rfl, rfl, (List.append_nil _).symm, Nat.zero_le 1⟩
      · rename_i remaining hremaining
        have hasks : asksTdh P dataStart s.cache.slices property =
            Sizing.asks (findPropertySize P.target P.record.pointerSize property s.cache.slices
              remaining.bytes) := by
          rw [asksTdh, ← hs.start, hstart, Option.bind_some, ← hs.offset, hremaining,
            Option.any_some]
        have hsize := P.findPropertySize_asks property remaining.bytes s
        rw [← hasks] at hsize
        rcases hresult : P.findPropertySize property remaining.bytes s with ⟨e | propSize, s'⟩
        all_goals
          rw [hresult] at hsize
          dsimp only at hsize ⊢
          subst hsize
        · refine .inr ⟨e, _, _, rfl, rfl, rfl, ?_⟩
          split <;> simp
        · split
          · refine .inr ⟨_, _, _, rfl, rfl, rfl, ?_⟩
            split <;> simp
          · exact .inl ⟨_, _, rfl, rfl, rfl⟩

/-- The calls made so far are those that the located properties needed, and this many more at
most. -/
structure AsksAtMost (P : Parser) (dataStart : Option ℕ) (wasted : ℕ) (s : ParserState) : Prop where
  walked : Walked P dataStart s
  sublist : (asked P dataStart [] s.cache.slices).Sublist s.tdhCalls
  length_le : s.tdhCalls.length ≤ (asked P dataStart [] s.cache.slices).length + wasted

namespace AsksAtMost

variable {wasted : ℕ} {s s' : ParserState}

theorem create (P : Parser) (record : EventRecord) (schema : Schema) :
    AsksAtMost P (propertyValuesStart record schema) 0 (Parser.createState record schema) :=
  ⟨.create P record schema, List.Sublist.refl [], le_rfl⟩

theorem mono (h : AsksAtMost P dataStart wasted s) {wasted' : ℕ} (hle : wasted ≤ wasted') :
    AsksAtMost P dataStart wasted' s :=
  ⟨h.walked, h.sublist, h.length_le.trans (Nat.add_le_add_left hle _)⟩

/-- A computation pays for what it asks with a value, or by failing. -/
def Pays {α : Type} (P : Parser) (dataStart : Option ℕ) (wasted : ℕ) :
    Outcome ParserError α × ParserState → Prop
  | (.ok _, s) => AsksAtMost P dataStart wasted s
  | (.error _, s) => AsksAtMost P dataStart (wasted + 1) s

/-- A step of the walk pays with a slice, or by failing. -/
theorem parseNextProperty (h : AsksAtMost P dataStart wasted s) :
    Pays P dataStart wasted (P.parseNextProperty s) := by
  have hwalked := (P.walked_keeps dataStart).step s h.walked
  have hle := h.length_le
  rcases parseNextProperty_asks h.walked with ⟨slice, s', hstep, hslices, hcalls⟩ |
    ⟨e, s', more, hstep, hslices, hcalls, hmore⟩
  all_goals rw [hstep] at hwalked ⊢
  · refine ⟨hwalked, ?_, ?_⟩
    · rw [hslices, asked_concat, hcalls]
      exact h.sublist.append (List.Sublist.refl _)
    · rw [hslices, asked_concat, hcalls, List.length_append, List.length_append, List.nil_append]
      omega
  · refine ⟨hwalked, ?_, ?_⟩
    · rw [hslices, hcalls]
      exact h.sublist.trans (List.sublist_append_left _ _)
    · rw [hslices, hcalls, List.length_append]
      omega

theorem parseMore : ∀ (n : ℕ) {s : ParserState}, AsksAtMost P dataStart wasted s →
    Pays P dataStart wasted (P.parseMore n s)
  | 0, _, h => h
  | n + 1, s, h => by
    have hstep := h.parseNextProperty
    rw [Parser.parseMore]
    rcases hresult : P.parseNextProperty s with ⟨e | u, s₁⟩
    all_goals rw [hresult] at hstep
    · exact hstep
    · exact parseMore n hstep

theorem propertyBytesAt (h : AsksAtMost P dataStart wasted s) (index : ℕ) :
    Pays P dataStart wasted (P.propertyBytesAt index s) := by
  have hmore := parseMore (index + 1 - s.cache.slices.length) h
  rw [Parser.propertyBytesAt]
  rcases hresult : P.parseMore (index + 1 - s.cache.slices.length) s with ⟨e | u, s₁⟩
  all_goals rw [hresult] at hmore
  · exact hmore
  · dsimp only
    split
    · exact hmore
    · exact mono hmore (Nat.le_succ wasted)

theorem findMore (name : String) : ∀ (n : ℕ) {s : ParserState}, AsksAtMost P dataStart wasted s →
    Pays P dataStart wasted (P.findMore name n s)
  | 0, _, h => h.mono (Nat.le_succ wasted)
  | n + 1, s, h => by
    have hstep := h.parseNextProperty
    rw [Parser.findMore]
    rcases hresult : P.parseNextProperty s with ⟨e | u, s₁⟩
    all_goals rw [hresult] at hstep
    · exact hstep
    · dsimp only
      split
      · exact mono hstep (Nat.le_succ wasted)
      · split
        · exact hstep
        · exact findMore name n hstep

theorem findProperty (h : AsksAtMost P dataStart wasted s) (name : String) :
    Pays P dataStart wasted (P.findProperty name s) := by
  rcases (P.walked_keeps dataStart).findProperty name h.walked with
    ⟨idx, -, hidx, heq⟩ | ⟨hnone, -⟩
  · rw [heq]
    exact ⟨(P.walked_keeps dataStart).hit s idx h.walked hidx, h.sublist, h.length_le⟩
  · rw [Parser.findProperty, hnone]
    exact findMore name _ h

/-- A call of the parser. -/
theorem call (h : AsksAtMost P dataStart wasted s) (c : Call) :
    AsksAtMost P dataStart (wasted + if (P.call s c).1.isError then 1 else 0) (P.call s c).2 := by
  cases c with
  | find name =>
    have hpays := h.findProperty name
    rw [Parser.call]
    rcases hresult : P.findProperty name s with ⟨e | slice, s'⟩
    all_goals rw [hresult] at hpays
    · exact hpays
    · exact hpays
  | bytesAt index =>
    have hpays := h.propertyBytesAt index
    rw [Parser.call]
    rcases hresult : P.propertyBytesAt index s with ⟨e | buffer, s'⟩
    all_goals rw [hresult] at hpays
    · exact hpays
    · exact hpays

/-- **What a history asks for.** -/
theorem after : ∀ (calls : List Call) {wasted : ℕ} {s : ParserState},
    AsksAtMost P dataStart wasted s →
      AsksAtMost P dataStart
        (wasted + (CallMachine.answers P.call s calls).countP Answer.isError)
        (CallMachine.after P.call s calls)
  | [], _, _, h => h
  | c :: calls, wasted, s, h => by
    have hrest := after calls (h.call c)
    rw [CallMachine.answers, List.countP_cons, Nat.add_comm (List.countP _ _), ← Nat.add_assoc]
    exact hrest

/-- Without waste, each located property was asked for when it had to be, and nothing else was. -/
theorem tdhCalls_eq (h : AsksAtMost P dataStart 0 s) :
    s.tdhCalls = asked P dataStart [] s.cache.slices :=
  (h.sublist.eq_of_length_le h.length_le).symm

end AsksAtMost

/-! ### Serializing -/

/-- Once everything is located, nothing is asked for. -/
theorem tdhCalls_after {s : ParserState} (hs : Walked P dataStart s)
    (hall : P.properties.length ≤ s.cache.slices.length) (calls : List Call) :
    (CallMachine.after P.call s calls).tdhCalls = s.tdhCalls := by
  have hkeeps : P.Keeps fun s' => Walked P dataStart s' ∧
      P.properties.length ≤ s'.cache.slices.length ∧ s'.tdhCalls = s.tdhCalls :=
    { step := by
        rintro s' ⟨hs', hall', hcalls⟩
        rw [Parser.parseNextProperty, List.getElem?_eq_none hall']
        exact ⟨hs', hall', hcalls⟩
      hit := by
        rintro s' idx ⟨hs', hall', hcalls⟩ hidx
        exact ⟨(P.walked_keeps dataStart).hit s' idx hs' hidx, hall', hcalls⟩
      probe := fun s' hs' => hs'.1.probe }
  exact (hkeeps.after ⟨hs, hall, rfl⟩ calls).1.2.2

/-- A strict run that succeeds wastes nothing, and leaves nothing to locate. -/
theorem AsksAtMost.eventSer {N : Natives} {wasted : ℕ} {s s' : ParserState} {out : SerValue}
    (h : AsksAtMost P dataStart wasted s) (hser : eventSer P N true s = (.ok out, s')) :
    AsksAtMost P dataStart wasted s' ∧ P.properties.length ≤ s'.cache.slices.length := by
  obtain ⟨entries, s₁, hentries, hrest⟩ := andThen_eq_ok_iff.mp hser
  obtain ⟨-, rfl⟩ := Prod.mk.inj hrest
  obtain ⟨⟨n, hmore⟩, hlen, -⟩ := eventEntries_shaped_iff hentries
  have hpays := parseMore n h
  rw [hmore] at hpays
  refine ⟨hpays, ?_⟩
  by_cases hempty : P.properties = []
  · rw [hempty]
    exact Nat.zero_le _
  · have hle := hlen hempty
    rwa [Nat.zero_add] at hle

/-- **TDH is asked at most once for a property**, but for the calls that failed. Whatever was asked
of a parser: TDH was asked for the located properties whose sizes it takes TDH to know, in order,
and beyond that at most once for every call that returned an error. A strict serialization that
succeeds adds no other calls, and after it there are none, neither from the parser nor from another
serialization. -/
theorem tdh_asked_once (target : Target)
    (tdh : List Property → Property → Except TdhNativeError UInt32) (record : EventRecord)
    (schema : Schema) (calls : List Call) :
    let P := Parser.create target tdh record schema
    let dataStart := propertyValuesStart record schema
    let start := Parser.createState record schema
    let s := CallMachine.after P.call start calls
    let failures := (CallMachine.answers P.call start calls).countP Answer.isError
    (asked P dataStart [] s.cache.slices).Sublist P.properties ∧
    (asked P dataStart [] s.cache.slices).Sublist s.tdhCalls ∧
    s.tdhCalls.length ≤ (asked P dataStart [] s.cache.slices).length + failures ∧
    (failures = 0 → s.tdhCalls = asked P dataStart [] s.cache.slices) ∧
    ∀ N out s', eventSer P N true s = (.ok out, s') →
      (asked P dataStart [] s'.cache.slices).Sublist s'.tdhCalls ∧
      s'.tdhCalls.length ≤ (asked P dataStart [] s'.cache.slices).length + failures ∧
      (∀ later, (CallMachine.after P.call s' later).tdhCalls = s'.tdhCalls) ∧
      ∀ N' strict r s'', eventSer P N' strict s' = (r, s'') → s''.tdhCalls = s'.tdhCalls := by
  intro P dataStart start s failures
  have h : AsksAtMost P dataStart failures s := by
    have hafter := AsksAtMost.after calls (AsksAtMost.create P record schema)
    rwa [Nat.zero_add] at hafter
  refine ⟨?_, h.sublist, h.length_le, fun hzero => ?_, fun N out s' hser => ?_⟩
  · have hlocated : (asked P dataStart [] s.cache.slices).Sublist
        (s.cache.slices.map (·.property)) := asked_sublist [] s.cache.slices
    rw [h.walked.properties] at hlocated
    exact hlocated.trans (List.take_sublist _ _)
  · rw [hzero] at h
    exact h.tdhCalls_eq
  · obtain ⟨h', hall⟩ := h.eventSer hser
    refine ⟨h'.sublist, h'.length_le, tdhCalls_after h'.walked hall,
      fun N' strict r s'' hser' => ?_⟩
    obtain ⟨indices, rfl⟩ := eventSer_moved hser'
    exact tdhCalls_after h'.walked hall _

end Ferrisetw2
