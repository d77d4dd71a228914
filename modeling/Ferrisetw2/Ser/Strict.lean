import Ferrisetw2.Ser.Serialize

/-!
# Strict serialization

What a strict run that succeeds has written, and what the lenient run writes of the same event.

A strict run asks the parser for every property in turn and stops at the first fault, so one that
succeeds has moved the parser by steps of the walk alone (`Parser.Advances`), and has walked the
whole schema. The one thing it lets pass is a structure member, or an element of a structure array,
that the member walk cannot locate: it writes nulls from there on.

## Main definitions

* `Parser.Advances`, `Parser.walkAll`
* `Property.Locatable`, `MembersLocatable`, `ElementsLocatable` — the member walk gets through

## Main results

* `strict_shaped_iff` — when a strict run that succeeds wrote no degradation null
* `lenient_eq_strict` — the lenient run writes what a strict run that succeeds wrote
-/

namespace Ferrisetw2

open Rust

/-! ### Lenient runs of strict successes -/

theorem serValue_lenient {P : Parser} {N : Natives} {prop : Property} {buffer : Slice}
    {map map' : SerMap} {s s' : ParserState}
    (h : (serValue P N true prop buffer map, s) = (.ok map', s')) :
    (serValue P N false prop buffer map, s) = (.ok map', s') := by
  unfold serValue at h ⊢
  split at h
  · simp at h
  · split at h
    · exact h
    · simp at h
    · simp at h

theorem serElements_lenient {elementEnd : ℕ → Checked (Option ℕ)}
    {strict lenient : Slice → ParserState → Outcome SerError SerMap × ParserState} {bytes : Slice}
    (hser : ∀ element s map s', strict element s = (.ok map, s') →
      lenient element s = (.ok map, s')) :
    ∀ {count offset : ℕ} {seq seq' : List SerValue} {s s' : ParserState},
      serElements elementEnd strict bytes count offset seq s = (.ok seq', s') →
      serElements elementEnd lenient bytes count offset seq s = (.ok seq', s')
  | 0, _, _, _, _, _, h => h
  | count + 1, offset, seq, seq', s, s', h => by
    rw [serElements] at h ⊢
    split at h
    · simp at h
    · exact h
    · split at h
      · simp at h
      · obtain ⟨map, s₁, hmap, hrest⟩ := andThen_eq_ok_iff.mp h
        exact andThen_eq_ok_iff.mpr
          ⟨map, s₁, hser _ _ _ _ hmap, serElements_lenient hser hrest⟩

mutual

theorem serProperty_lenient {P : Parser} {N : Natives} : ∀ {p : Property} {buffer : Slice}
    {map map' : SerMap} {s s' : ParserState},
      serProperty P N true p buffer map s = (.ok map', s') →
      serProperty P N false p buffer map s = (.ok map', s')
  | ⟨name, .struct members⟩, buffer, map, map', s, s', h => by
    rw [serProperty] at h ⊢
    obtain ⟨value, s₁, hvalue, hrest⟩ := andThen_eq_ok_iff.mp h
    exact andThen_eq_ok_iff.mpr ⟨value, s₁, structSer_lenient hvalue, hrest⟩
  | ⟨name, .structArray members count⟩, buffer, map, map', s, s', h => by
    rw [serProperty] at h ⊢
    obtain ⟨resolved, s₁, hcount, hrest⟩ := andThen_eq_ok_iff.mp h
    refine andThen_eq_ok_iff.mpr ⟨resolved, s₁, hcount, ?_⟩
    cases resolved with
    | none => simp at hrest
    | some n =>
      obtain ⟨value, s₂, hvalue, hrest⟩ := andThen_eq_ok_iff.mp hrest
      exact andThen_eq_ok_iff.mpr
        ⟨value, s₂, serElements_lenient (fun _ _ _ _ h => structSer_lenient h) hvalue, hrest⟩
  | ⟨_, .value _ _ _⟩, _, _, _, _, _, h => serValue_lenient h
  | ⟨_, .array _ _ _ _⟩, _, _, _, _, _, h => serValue_lenient h
  | ⟨_, .unsupported _⟩, _, _, _, _, _, h => serValue_lenient h

theorem structSer_lenient {P : Parser} {N : Natives} {bytes : Slice} :
    ∀ {members : List Property} {offset : ℕ} {map map' : SerMap} {s s' : ParserState},
      structSer P N true bytes members offset map s = (.ok map', s') →
      structSer P N false bytes members offset map s = (.ok map', s')
  | [], _, _, _, _, _, h => h
  | member :: members, offset, map, map', s, s', h => by
    rw [structSer] at h ⊢
    split at h
    · simp at h
    · exact h
    · obtain ⟨map₁, s₁, hmember, hrest⟩ := andThen_eq_ok_iff.mp h
      exact andThen_eq_ok_iff.mpr
        ⟨map₁, s₁, serProperty_lenient hmember, structSer_lenient hrest⟩

end

theorem eventEntries_lenient {P : Parser} {N : Natives} :
    ∀ {props : List Property} {index : ℕ} {map map' : SerMap} {s s' : ParserState},
      eventEntries P N true props index map s = (.ok map', s') →
      eventEntries P N false props index map s = (.ok map', s')
  | [], _, _, _, _, _, h => h
  | prop :: props, index, map, map', s, s', h => by
    rw [eventEntries] at h ⊢
    split at h
    · simp at h
    · simp at h
    · obtain ⟨map₁, s₁, hprop, hrest⟩ := andThen_eq_ok_iff.mp h
      exact andThen_eq_ok_iff.mpr
        ⟨map₁, s₁, serProperty_lenient hprop, eventEntries_lenient hrest⟩

/-- **Where the strict run succeeds, the lenient run writes the same**, and leaves the parser in
the same state. -/
theorem lenient_eq_strict (P : Parser) (N : Natives) (s s' : ParserState) (out : SerValue)
    (h : eventSer P N true s = (.ok out, s')) : eventSer P N false s = (.ok out, s') := by
  obtain ⟨map, s₁, hmap, hout⟩ := andThen_eq_ok_iff.mp h
  exact andThen_eq_ok_iff.mpr ⟨map, s₁, eventEntries_lenient hmap, hout⟩

/-- A structure array of counted binaries, sized by TDH. -/
theorem lenient_eq_strict_items :
    let record : EventRecord := ⟨0, 0, [1, 2, 0, 65, 66], by decide, []⟩
    let schema : Schema := ⟨.decodingSourceXMLFile,
      [⟨"Count", .value .inTypeUInt8 .outTypeNull (.length 0)⟩,
        ⟨"Items", .structArray
          [⟨"Blob", .value .inTypeManifestCountedBinary .outTypeNull (.length 0)⟩] (.index 0)⟩]⟩
    let P := Parser.create ⟨.b64, true⟩ (fun _ _ => .ok 4) record schema
    let N : Natives := ⟨fun _ => "", fun _ => .error .sidParseError⟩
    let byte (n : ℕ) : SerValue := .leaf (.scalar ⟨.u8, n⟩)
    (eventSer P N false (Parser.createState record schema)).1 =
      .ok (.map [("Count", byte 1), ("Items", .seq [.map [("Blob", .seq [byte 65, byte 66])]])]) :=
  congrArg Prod.fst (lenient_eq_strict _ _ _ _ _ rfl)

/-! ### The walk of a strict run -/

/-- Steps of the walk, none of them failing, lead from one state to the other. -/
def Parser.Advances (P : Parser) (s s' : ParserState) : Prop :=
  ∃ n, P.parseMore n s = (.ok (), s')

/-- The state once the walk has gone as far as it can. -/
def Parser.walkAll (P : Parser) (s : ParserState) : ParserState :=
  (P.parseMore (P.properties.length - s.cache.slices.length) s).2

namespace Parser

variable {P : Parser}

theorem parseMore_add (m : ℕ) : ∀ (n : ℕ) {s s₁ : ParserState},
    P.parseMore n s = (.ok (), s₁) → P.parseMore (n + m) s = P.parseMore m s₁
  | 0, s, s₁, h => by
    obtain ⟨-, rfl⟩ := Prod.mk.inj h
    rw [Nat.zero_add]
  | n + 1, s, s₁, h => by
    rw [Nat.add_right_comm, parseMore]
    rw [parseMore] at h
    split at h
    · simp at h
    · exact parseMore_add m n h

theorem Advances.refl (s : ParserState) : P.Advances s s := ⟨0, rfl⟩

theorem Advances.trans {s s₁ s₂ : ParserState} (h : P.Advances s s₁) (h' : P.Advances s₁ s₂) :
    P.Advances s s₂ := by
  obtain ⟨n, hn⟩ := h
  obtain ⟨m, hm⟩ := h'
  exact ⟨n + m, by rw [parseMore_add m n hn, hm]⟩

/-- The cache only grows, by one slice a step. -/
theorem prefix_of_parseMore : ∀ {n : ℕ} {s s' : ParserState}, P.parseMore n s = (.ok (), s') →
    s.cache.slices <+: s'.cache.slices ∧ s'.cache.slices.length = s.cache.slices.length + n
  | 0, s, s', h => by
    obtain ⟨-, rfl⟩ := Prod.mk.inj h
    exact ⟨List.prefix_refl _, rfl⟩
  | n + 1, s, s', h => by
    rw [parseMore] at h
    rcases P.parseNextProperty_cache s with ⟨slice, s₁, hstep, hslices⟩ | ⟨e, s₁, hstep, -⟩
    · rw [hstep] at h
      obtain ⟨hpre, hlen⟩ := prefix_of_parseMore h
      rw [hslices] at hpre hlen
      refine ⟨(List.prefix_append _ _).trans hpre, ?_⟩
      rw [hlen, List.length_append, List.length_singleton]
      omega
    · rw [hstep] at h
      simp at h

theorem Advances.isPrefix {s s' : ParserState} (h : P.Advances s s') :
    s.cache.slices <+: s'.cache.slices := by
  obtain ⟨n, hn⟩ := h
  exact (prefix_of_parseMore hn).1

/-- A position that is located is one in the cache the walk leaves. -/
theorem advances_of_propertyBytesAt {index : ℕ} {s s' : ParserState} {buffer : Slice}
    (h : P.propertyBytesAt index s = (.ok buffer, s')) :
    P.Advances s s' ∧ ∃ slice, s'.cache.slices[index]? = some slice ∧ slice.buffer = buffer := by
  unfold propertyBytesAt at h
  split at h
  · simp at h
  · rename_i s₁ hmore
    split at h
    · rename_i slice hslice
      obtain ⟨hbuffer, rfl⟩ := Prod.mk.inj h
      exact ⟨⟨_, hmore⟩, slice, hslice, Except.ok.inj hbuffer⟩
    · simp at h

/-- Once every property is cached, the walk has gone as far as it can. -/
theorem Advances.eq_walkAll {dataStart : Option ℕ} {s s' : ParserState} (hs : Walked P dataStart s)
    (h : P.Advances s s') (hall : P.properties.length ≤ s'.cache.slices.length) :
    s' = P.walkAll s := by
  obtain ⟨n, hn⟩ := h
  obtain ⟨s₁, hs₁, -, ⟨hmore, hlen⟩ | ⟨e, hmore, -⟩⟩ := (P.walked_keeps dataStart).parseMore n hs
  · rw [hn] at hmore
    obtain ⟨-, rfl⟩ := Prod.mk.inj hmore
    have hle := hs₁.length_le
    have hn' : P.properties.length - s.cache.slices.length = n := by omega
    rw [walkAll, hn', hn]
  · rw [hn] at hmore
    simp at hmore

end Parser

/-! ### The member walk -/

/-- The member walk gets through this many elements, from this offset on. -/
def ElementsLocatable (elementEnd : ℕ → Checked (Option ℕ)) (Locatable : Slice → Prop)
    (bytes : Slice) : ℕ → ℕ → Prop
  | 0, _ => True
  | count + 1, offset => ∃ stop element, elementEnd offset = .ok (some stop) ∧
    bytes.getRange offset stop = some element ∧ Locatable element ∧
    ElementsLocatable elementEnd Locatable bytes count stop

mutual

/-- The member walk gets through the bytes of the property, and of everything nested in it. The
counts of structure arrays are read off the located properties. -/
def Property.Locatable (t : Target) (pointerSize : ℕ) (slices : List PropertySlice) :
    Property → Slice → Prop
  | ⟨_, .struct members⟩, buffer => MembersLocatable t pointerSize slices buffer members 0
  | ⟨_, .structArray members count⟩, buffer => ∀ n, elementCount t count slices = some n →
    ElementsLocatable (elementEnd t pointerSize buffer members)
      (fun element => MembersLocatable t pointerSize slices element members 0) buffer n 0
  | ⟨_, .value _ _ _⟩, _ => True
  | ⟨_, .array _ _ _ _⟩, _ => True
  | ⟨_, .unsupported _⟩, _ => True

/-- The member walk gets through these members, from this offset on, or all that it leaves out are
nulls by type. -/
def MembersLocatable (t : Target) (pointerSize : ℕ) (slices : List PropertySlice) (bytes : Slice) :
    List Property → ℕ → Prop
  | [], _ => True
  | member :: members, offset =>
    (∃ buffer offset',
      memberBuffer t pointerSize member bytes offset = .ok (some (buffer, offset')) ∧
        member.Locatable t pointerSize slices buffer ∧
        MembersLocatable t pointerSize slices bytes members offset') ∨
    memberBuffer t pointerSize member bytes offset = .ok none ∧ ∀ m ∈ member :: members, m.IsNull

end

/-! ### Nulls of a strict run -/

/-- The count a strict run writes a structure array with. -/
theorem advances_of_resolveStructCount {P : Parser} {count : PropertyCount} {s s' : ParserState}
    {n : ℕ} (h : resolveStructCount P count s = (.ok (some n), s')) :
    P.Advances s s' ∧ elementCount P.target count s'.cache.slices = some n := by
  cases count with
  | count c =>
    obtain ⟨hn, rfl⟩ := Prod.mk.inj h
    exact ⟨.refl s, Except.ok.inj hn⟩
  | index i =>
    rw [resolveStructCount] at h
    split at h
    · simp at h
    · split at h
      · rename_i buffer s₁ hbytes
        obtain ⟨hn, rfl⟩ := Prod.mk.inj h
        obtain ⟨hadv, slice, hslice, rfl⟩ := Parser.advances_of_propertyBytesAt hbytes
        refine ⟨hadv, ?_⟩
        rw [elementCount, indexValue, hslice]
        exact Except.ok.inj hn
      · simp at h
      · simp at h

/-- A property that is not a structure is written without degradation. -/
theorem serValue_shaped_iff {P : Parser} {N : Natives} {p : Property} {buffer : Slice}
    {map map' : SerMap} {s s' : ParserState}
    (hshaped : ∀ located v, p.Shaped False P.target located v ↔ (v = .null → p.IsNull))
    (hlocatable : ∀ located, p.Locatable P.target P.record.pointerSize located buffer)
    (h : (serValue P N true p buffer map, s) = (.ok map', s')) :
    P.Advances s s' ∧ ∃ v, map' = map ++ [(p.name, v)] ∧
      ∀ located, s'.cache.slices <+: located →
        (p.Shaped False P.target located v ↔
          p.Locatable P.target P.record.pointerSize located buffer) := by
  obtain ⟨hv, rfl⟩ := Prod.mk.inj h
  obtain ⟨v, rfl, hnull, -⟩ := serValue_eq_ok hv
  refine ⟨.refl s, v, rfl, fun located _ => ?_⟩
  exact iff_of_true ((hshaped located v).mpr (by simpa using hnull)) (hlocatable located)

theorem serElements_shaped_iff {P : Parser} {elementEnd : ℕ → Checked (Option ℕ)}
    {ser : Slice → ParserState → Outcome SerError SerMap × ParserState} {bytes : Slice}
    (Shaped : List PropertySlice → SerMap → Prop) (Locatable : List PropertySlice → Slice → Prop)
    (hser : ∀ element s map s', ser element s = (.ok map, s') → P.Advances s s' ∧
      ∀ located, s'.cache.slices <+: located → (Shaped located map ↔ Locatable located element)) :
    ∀ {count offset : ℕ} {seq seq' : List SerValue} {s s' : ParserState},
      serElements elementEnd ser bytes count offset seq s = (.ok seq', s') →
      P.Advances s s' ∧ ∃ vs, seq' = seq ++ vs ∧ vs.length = count ∧
        ∀ located, s'.cache.slices <+: located →
          ((∀ v ∈ vs, ∃ entries, v = .map entries ∧ Shaped located entries) ↔
            ElementsLocatable elementEnd (Locatable located) bytes count offset)
  | 0, _, seq, seq', s, s', h => by
    obtain ⟨hseq, rfl⟩ := Prod.mk.inj h
    obtain rfl := Except.ok.inj hseq
    exact ⟨.refl s, [], by simp, rfl, fun located _ => by simp [ElementsLocatable]⟩
  | count + 1, offset, seq, seq', s, s', h => by
    rw [serElements] at h
    split at h
    · simp at h
    · rename_i hend
      obtain ⟨hseq, rfl⟩ := Prod.mk.inj h
      refine ⟨.refl s, _, (Except.ok.inj hseq).symm, by simp, fun located _ => ?_⟩
      simp [ElementsLocatable, hend, List.replicate_succ]
    · rename_i stop hend
      split at h
      · simp at h
      · rename_i element helement
        obtain ⟨map, s₁, hmap, hrest⟩ := andThen_eq_ok_iff.mp h
        obtain ⟨hadv, hiff⟩ := hser _ _ _ _ hmap
        obtain ⟨hadv', vs, rfl, hlen, hiff'⟩ := serElements_shaped_iff Shaped Locatable hser hrest
        refine ⟨hadv.trans hadv', .map map :: vs, by simp, by simp [hlen],
          fun located hloc => ?_⟩
        simp [ElementsLocatable, hend, helement, hiff located (hadv'.isPrefix.trans hloc),
          hiff' located hloc]

mutual

theorem serProperty_shaped_iff {P : Parser} {N : Natives} : ∀ {p : Property} {buffer : Slice}
    {map map' : SerMap} {s s' : ParserState},
      serProperty P N true p buffer map s = (.ok map', s') →
      P.Advances s s' ∧ ∃ v, map' = map ++ [(p.name, v)] ∧
        ∀ located, s'.cache.slices <+: located →
          (p.Shaped False P.target located v ↔
            p.Locatable P.target P.record.pointerSize located buffer)
  | ⟨name, .struct members⟩, buffer, map, map', s, s', h => by
    rw [serProperty] at h
    obtain ⟨value, s₁, hvalue, hrest⟩ := andThen_eq_ok_iff.mp h
    obtain ⟨hmap, rfl⟩ := Prod.mk.inj hrest
    obtain ⟨hadv, entries, rfl, hiff⟩ := structSer_shaped_iff hvalue
    refine ⟨hadv, _, (Except.ok.inj hmap).symm, fun located hloc => ?_⟩
    simpa [Property.Shaped, Property.Locatable] using hiff located hloc
  | ⟨name, .structArray members count⟩, buffer, map, map', s, s', h => by
    rw [serProperty] at h
    obtain ⟨resolved, s₁, hcount, hrest⟩ := andThen_eq_ok_iff.mp h
    cases resolved with
    | none => simp at hrest
    | some n =>
      obtain ⟨value, s₂, hvalue, hrest⟩ := andThen_eq_ok_iff.mp hrest
      obtain ⟨hmap, rfl⟩ := Prod.mk.inj hrest
      obtain ⟨hadv, hn⟩ := advances_of_resolveStructCount hcount
      obtain ⟨hadv', vs, rfl, hlen, hiff⟩ :=
        serElements_shaped_iff
          (fun located entries => MembersShaped False P.target located members entries)
          (fun located element =>
            MembersLocatable P.target P.record.pointerSize located element members 0)
          (fun element s map s' h => by
            obtain ⟨hadv, entries, rfl, hiff⟩ := structSer_shaped_iff h
            exact ⟨hadv, by simpa using hiff⟩) hvalue
      refine ⟨hadv.trans hadv', _, (Except.ok.inj hmap).symm, fun located hloc => ?_⟩
      have hn' := elementCount_of_isPrefix (hadv'.isPrefix.trans hloc) hn
      simpa [Property.Shaped, Property.Locatable, hn', hlen] using hiff located hloc
  | ⟨_, .value _ _ _⟩, _, _, _, _, _, h =>
    serValue_shaped_iff (fun _ _ => by simp [Property.Shaped])
      (fun _ => by simp [Property.Locatable]) h
  | ⟨_, .array _ _ _ _⟩, _, _, _, _, _, h =>
    serValue_shaped_iff (fun _ _ => by simp [Property.Shaped])
      (fun _ => by simp [Property.Locatable]) h
  | ⟨_, .unsupported _⟩, _, _, _, _, _, h =>
    serValue_shaped_iff (fun _ _ => by simp [Property.Shaped])
      (fun _ => by simp [Property.Locatable]) h

theorem structSer_shaped_iff {P : Parser} {N : Natives} {bytes : Slice} :
    ∀ {members : List Property} {offset : ℕ} {map map' : SerMap} {s s' : ParserState},
      structSer P N true bytes members offset map s = (.ok map', s') →
      P.Advances s s' ∧ ∃ entries, map' = map ++ entries ∧
        ∀ located, s'.cache.slices <+: located →
          (MembersShaped False P.target located members entries ↔
            MembersLocatable P.target P.record.pointerSize located bytes members offset)
  | [], _, map, map', s, s', h => by
    obtain ⟨hmap, rfl⟩ := Prod.mk.inj h
    obtain rfl := Except.ok.inj hmap
    exact ⟨.refl s, [], by simp, fun located _ => by simp [MembersShaped, MembersLocatable]⟩
  | member :: members, offset, map, map', s, s', h => by
    rw [structSer] at h
    split at h
    · simp at h
    · rename_i hbuffer
      obtain ⟨hmap, rfl⟩ := Prod.mk.inj h
      rw [foldl_nullEntry] at hmap
      refine ⟨.refl s, _, (Except.ok.inj hmap).symm, fun located _ => ?_⟩
      rw [membersShaped_null_iff, MembersLocatable, hbuffer]
      simp
    · rename_i buffer offset' hbuffer
      obtain ⟨map₁, s₁, hmember, hrest⟩ := andThen_eq_ok_iff.mp h
      obtain ⟨hadv, v, rfl, hiff⟩ := serProperty_shaped_iff hmember
      obtain ⟨hadv', entries, rfl, hiff'⟩ := structSer_shaped_iff hrest
      refine ⟨hadv.trans hadv', (member.name, v) :: entries, by simp, fun located hloc => ?_⟩
      simp [MembersShaped, MembersLocatable, hbuffer, hiff located (hadv'.isPrefix.trans hloc),
        hiff' located hloc]

end

/-- The entries a strict run writes, from this index on. -/
theorem eventEntries_shaped_iff {P : Parser} {N : Natives} :
    ∀ {props : List Property} {index : ℕ} {map map' : SerMap} {s s' : ParserState},
      eventEntries P N true props index map s = (.ok map', s') →
      P.Advances s s' ∧ (props ≠ [] → index + props.length ≤ s'.cache.slices.length) ∧
        ∃ entries, map' = map ++ entries ∧ ∀ located, s'.cache.slices <+: located →
          (MembersShaped False P.target located props entries ↔
            ∀ x ∈ props.zip (located.drop index),
              x.1.Locatable P.target P.record.pointerSize located x.2.buffer)
  | [], _, map, map', s, s', h => by
    obtain ⟨hmap, rfl⟩ := Prod.mk.inj h
    obtain rfl := Except.ok.inj hmap
    exact ⟨.refl s, nofun, [], by simp, fun located _ => by simp [MembersShaped]⟩
  | prop :: props, index, map, map', s, s', h => by
    rw [eventEntries] at h
    split at h
    · simp at h
    · simp at h
    · rename_i buffer s₁ hbytes
      obtain ⟨map₁, s₂, hprop, hrest⟩ := andThen_eq_ok_iff.mp h
      obtain ⟨hadv₁, slice, hslice, rfl⟩ := Parser.advances_of_propertyBytesAt hbytes
      obtain ⟨hadv₂, v, rfl, hiff⟩ := serProperty_shaped_iff hprop
      obtain ⟨hadv₃, hlen, entries, rfl, hiff'⟩ := eventEntries_shaped_iff hrest
      have hi := (List.getElem?_eq_some_iff.mp hslice).1
      have hle := (hadv₂.trans hadv₃).isPrefix.length_le
      refine ⟨hadv₁.trans (hadv₂.trans hadv₃), fun _ => ?_, (prop.name, v) :: entries, by simp,
        fun located hloc => ?_⟩
      · rw [List.length_cons]
        cases props with
        | nil => simp; omega
        | cons q qs =>
          have := hlen (by simp)
          omega
      · have hget := getElem?_of_isPrefix ((hadv₂.trans hadv₃).isPrefix.trans hloc) hslice
        have hdrop : located.drop index = slice :: located.drop (index + 1) := by
          obtain ⟨hlt, hget⟩ := List.getElem?_eq_some_iff.mp hget
          rw [List.drop_eq_getElem_cons hlt, hget]
        simp only [MembersShaped, hdrop, List.zip_cons_cons, List.forall_mem_cons,
          ← hiff located (hadv₃.isPrefix.trans hloc), ← hiff' located hloc]
        simp

/-- A strict run that succeeds has walked the whole schema. -/
theorem walked_walkAll {P : Parser} {dataStart : Option ℕ} {s : ParserState}
    (hs : Walked P dataStart s) : Walked P dataStart (P.walkAll s) := by
  obtain ⟨s', hs', -, ⟨hmore, -⟩ | ⟨e, hmore, -⟩⟩ := (P.walked_keeps dataStart).parseMore
    (P.properties.length - s.cache.slices.length) hs
  · rwa [Parser.walkAll, hmore]
  · rwa [Parser.walkAll, hmore]

/-- From any state a parser can be in. -/
theorem eventSer_shaped_iff {P : Parser} {N : Natives} {dataStart : Option ℕ} {s s' : ParserState}
    (hs : Walked P dataStart s) {out : SerValue} (h : eventSer P N true s = (.ok out, s')) :
    EventShaped False P (P.walkAll s).cache.slices out ↔
      ∀ slice ∈ (P.walkAll s).cache.slices, slice.property.Locatable P.target
        P.record.pointerSize (P.walkAll s).cache.slices slice.buffer := by
  obtain ⟨entries, s₁, hentries, hrest⟩ := andThen_eq_ok_iff.mp h
  obtain ⟨hout, -⟩ := Prod.mk.inj hrest
  obtain rfl := Except.ok.inj hout
  obtain ⟨hadv, hlen, entries', rfl, hiff⟩ := eventEntries_shaped_iff hentries
  have hall : P.properties.length ≤ s₁.cache.slices.length := by
    by_cases hnil : P.properties = []
    · simp [hnil]
    · simpa using hlen hnil
  obtain rfl := hadv.eq_walkAll hs hall
  have hprops : P.properties = (P.walkAll s).cache.slices.map (·.property) := by
    rw [(walked_walkAll hs).properties, List.take_of_length_le hall]
  have hzip : P.properties.zip (P.walkAll s).cache.slices =
      (P.walkAll s).cache.slices.map fun x => (x.property, x) := by
    rw [List.map_prod_right_eq_zip, ← hprops]
  have := hiff _ (List.prefix_refl _)
  simpa [EventShaped, hzip] using this

/-- **When a strict run that succeeds wrote no degradation null**: exactly when the member walk gets
through every property the walk locates, at every depth. Strict mode does not look at members and
elements that cannot be located. -/
theorem strict_shaped_iff (target : Target)
    (tdh : List Property → Property → Except TdhNativeError UInt32) (record : EventRecord)
    (schema : Schema) (N : Natives) (calls : List Call) (out : SerValue) (s' : ParserState)
    (h : eventSer (Parser.create target tdh record schema) N true
      (CallMachine.after (Parser.create target tdh record schema).call
        (Parser.createState record schema) calls) = (.ok out, s')) :
    let P := Parser.create target tdh record schema
    let located := (P.walkAll (CallMachine.after P.call (Parser.createState record schema)
      calls)).cache.slices
    EventShaped False P located out ↔ ∀ slice ∈ located,
      slice.property.Locatable target record.pointerSize located slice.buffer :=
  eventSer_shaped_iff (((Parser.walked_keeps _ _).after (Walked.create _ record schema) calls).1) h

/-- A structure array with a count before it, walked to its end. -/
theorem strict_shaped_iff_items :
    let record : EventRecord := ⟨0, 0, [2, 9, 8], by decide, []⟩
    let schema : Schema := ⟨.decodingSourceXMLFile,
      [⟨"Count", .value .inTypeUInt8 .outTypeNull (.length 0)⟩,
        ⟨"Items", .structArray [⟨"Id", .value .inTypeUInt8 .outTypeNull (.length 0)⟩] (.index 0)⟩]⟩
    let P := Parser.create ⟨.b64, true⟩ (fun _ _ => .error .allocationError) record schema
    let s := CallMachine.after P.call (Parser.createState record schema) [.bytesAt 0]
    let item (n : ℕ) : SerValue := .map [("Id", .leaf (.scalar ⟨.u8, n⟩))]
    EventShaped False P (P.walkAll s).cache.slices
        (.map [("Count", .leaf (.scalar ⟨.u8, 2⟩)), ("Items", .seq [item 9, item 8])]) ↔
      ∀ slice ∈ (P.walkAll s).cache.slices,
        slice.property.Locatable ⟨.b64, true⟩ 8 (P.walkAll s).cache.slices slice.buffer :=
  strict_shaped_iff ⟨.b64, true⟩ (fun _ _ => .error .allocationError)
    ⟨0, 0, [2, 9, 8], by decide, []⟩ _ ⟨fun _ => "", fun _ => .error .sidParseError⟩
    [.bytesAt 0] _ _ rfl

/-- A strict run that succeeds and writes a null: the size of the second member is held by the
first, which the member walk does not resolve. -/
theorem strict_degrades :
    let record : EventRecord := ⟨0, 0, [2, 65, 66, 7], by decide, []⟩
    let schema : Schema := ⟨.decodingSourceXMLFile,
      [⟨"Blob", .struct [⟨"Size", .value .inTypeUInt8 .outTypeNull (.length 0)⟩,
          ⟨"Data", .value .inTypeBinary .outTypeNull (.index 2)⟩]⟩,
        ⟨"After", .value .inTypeUInt8 .outTypeNull (.length 0)⟩]⟩
    let P := Parser.create ⟨.b64, true⟩ (fun _ _ => .ok 3) record schema
    let N : Natives := ⟨fun _ => "", fun _ => .error .sidParseError⟩
    ∃ out s', eventSer P N true (Parser.createState record schema) = (.ok out, s') ∧
      ∀ slices, ¬ EventShaped False P slices out := by
  intro record schema P N
  refine ⟨.map [("Blob", .map [("Size", .leaf (.scalar ⟨.u8, 2⟩)), ("Data", .null)]),
    ("After", .leaf (.scalar ⟨.u8, 7⟩))], _, rfl, ?_⟩
  rintro slices ⟨entries, hout, hshaped⟩
  obtain rfl := SerValue.map.inj hout
  simp [P, schema, Parser.create, MembersShaped, Property.Shaped, Property.IsNull] at hshaped

end Ferrisetw2
