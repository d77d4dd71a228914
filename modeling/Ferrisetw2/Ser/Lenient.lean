import Ferrisetw2.Ser.Serialize

/-!
# Lenient serialization

A lenient run returns a map with one entry for each top-level property, whatever the event holds and
whatever TDH answers. Nothing on the way unwinds, as long as the sizes that are summed and the
prefixes of hexdumps are `usize` values: no index is out of bounds, no `expect` fires, and no
structure is dispatched to a handler.

All slices on the way are cut out of the user buffer, which is what bounds every size.

## Main definitions

* `Parser.Fits` — the sums and the hexdumps of a property fit
* `Parser.Extends` — what serializing does to the parser
* `LenientEvent` — what a lenient run writes

## Main results

* `serProperty_returns`, `structSer_returns` — one entry for each property, at every depth
* `lenient_event` — a lenient run returns
-/

namespace Ferrisetw2

open Rust

/-- The sums of member sizes fit, and hexdumps with their prefix, wherever in the user buffer. -/
def Parser.Fits (P : Parser) (p : Property) : Prop :=
  p.SumsFit P.target.usizeBits P.record.pointerSize ∧
    ∀ window, window <:+: P.record.userBuffer → HexFits P.target.usizeBits p window

/-- The walk is where it was, or further. -/
def Parser.Extends (P : Parser) (dataStart : Option ℕ) (s s' : ParserState) : Prop :=
  Walked P dataStart s' ∧ s.cache.slices <+: s'.cache.slices

section

variable {P : Parser} {N : Natives} {dataStart : Option ℕ}

theorem Parser.Extends.refl {s : ParserState} (hs : Walked P dataStart s) :
    P.Extends dataStart s s := ⟨hs, List.prefix_refl _⟩

theorem Parser.Extends.trans {s s₁ s₂ : ParserState} (h : P.Extends dataStart s s₁)
    (h' : P.Extends dataStart s₁ s₂) : P.Extends dataStart s s₂ := ⟨h'.1, h.2.trans h'.2⟩

/-- A slice of the user buffer is at most as long. -/
theorem len_le_of_isInfix {bytes : Slice} (h : bytes.bytes <:+: P.record.userBuffer) :
    bytes.len ≤ P.target.usizeMax := by
  have hlen : bytes.len ≤ P.record.userBuffer.length := h.length_le
  have hmax := P.record.userBuffer_le
  have ht := P.target.usizeMax_ge
  omega

theorem pointerSize_le_usizeMax (record : EventRecord) (t : Target) :
    record.pointerSize ≤ t.usizeMax :=
  Nat.le_trans record.pointerSize_le (Nat.le_trans (by decide) t.usizeMax_ge)

/-! ### Positions -/

/-- A step of the walk does not unwind. -/
theorem eq_error_of_parseNextProperty {s s' : ParserState}
    (hfit : ∀ p ∈ P.properties, P.Fits p) {e : Fault ParserError}
    (h : P.parseNextProperty s = (.error e, s')) : ∃ e', e = .error e' := by
  unfold Parser.parseNextProperty at h
  split at h
  · exact exists_eq_error h
  · rename_i property hproperty
    split at h
    · exact exists_eq_error h
    · split at h
      · exact exists_eq_error h
      · rename_i remaining hfrom
        obtain ⟨hsums, hhex⟩ := hfit property (List.mem_of_getElem? hproperty)
        have hinfix := Slice.infix_of_getFrom hfrom
        obtain ⟨r, hr, -⟩ : ∃ r, Ferrisetw2.findPropertySize P.target P.record.pointerSize property
            s.cache.slices remaining.bytes = .ok r ∧ _ :=
          findPropertySize_exact (pointerSize_le_usizeMax P.record P.target)
            (len_le_of_isInfix hinfix) hsums (hhex _ hinfix)
        have hsize : ∀ e s', P.findPropertySize property remaining.bytes s = (.error e, s') →
            ∃ e', e = .error e' := by
          intro e s' hfind
          simp only [Parser.findPropertySize, hr] at hfind
          cases r with
          | size n => simp at hfind
          | error e' => exact exists_eq_error hfind
          | tdh =>
            simp only [Parser.tdhPropertySize] at hfind
            split at hfind
            · simp at hfind
            · exact exists_eq_error hfind
        split at h
        · rename_i e' s₁ hfind
          obtain ⟨he, -⟩ := Prod.mk.inj h
          obtain rfl := Except.error.inj he
          exact hsize _ _ hfind
        · split at h
          · exact exists_eq_error h
          · simp at h

/-- A position is located, or is not, and the parser goes on. -/
theorem propertyBytesAt_cases {s : ParserState} (hfit : ∀ p ∈ P.properties, P.Fits p)
    (hs : Walked P dataStart s) (index : ℕ) :
    ∃ s', P.Extends dataStart s s' ∧
      ((∃ slice, s'.cache.slices[index]? = some slice ∧
          P.propertyBytesAt index s = (.ok slice.buffer, s')) ∨
        ∃ e, P.propertyBytesAt index s = (.error (.error e), s')) := by
  obtain ⟨e, s', heq, hs', hpre, hstuck⟩ := (P.walked_keeps dataStart).propertyBytesAt index hs
  refine ⟨s', ⟨hs', hpre⟩, ?_⟩
  cases hslice : s'.cache.slices[index]? with
  | some slice => exact Or.inl ⟨slice, rfl, by rw [heq, bytesAnswer, hslice]⟩
  | none =>
    obtain ⟨s₀, -, -, hstep⟩ := hstuck (by simpa [Holds] using hslice)
    obtain ⟨e', rfl⟩ := eq_error_of_parseNextProperty hfit hstep
    exact Or.inr ⟨e', by rw [heq, bytesAnswer, hslice]⟩

/-- Slices of the walk are cut out of the user buffer. -/
theorem Tiles.infix_of_mem {buffer : Slice} : ∀ {start : ℕ} {slices : List PropertySlice},
    Tiles buffer start slices → ∀ x ∈ slices, x.buffer.bytes <:+: buffer.bytes
  | _, [], _ => nofun
  | _, _ :: _, h => List.forall_mem_cons.mpr
    ⟨Slice.infix_of_getRange h.1, Tiles.infix_of_mem h.2⟩

/-- A count is resolved by the located properties, or not at all. -/
theorem resolveStructCount_returns {s : ParserState} (hfit : ∀ p ∈ P.properties, P.Fits p)
    (hs : Walked P dataStart s) (count : PropertyCount) :
    Returns (resolveStructCount P count s) fun resolved s' => P.Extends dataStart s s' ∧
      ∀ n, resolved = some n → elementCount P.target count s'.cache.slices = some n := by
  cases count with
  | count c => exact .ok ⟨.refl hs, fun n hn => hn⟩
  | index i =>
    rw [resolveStructCount]
    split
    · exact .ok ⟨.refl hs, by simp⟩
    · obtain ⟨s', hext, ⟨slice, hslice, heq⟩ | ⟨e, heq⟩⟩ :=
        propertyBytesAt_cases hfit hs i.toNat
      · rw [heq]
        refine .ok ⟨hext, fun n hn => ?_⟩
        rw [elementCount, indexValue, hslice]
        exact hn
      · rw [heq]
        exact .ok ⟨hext, by simp⟩

/-! ### Members and elements -/

/-- Slicing a member out returns, and what it returns lies in the user buffer. -/
theorem memberBuffer_cases {member : Property} {bytes : Slice} (hfit : P.Fits member)
    (hbytes : bytes.bytes <:+: P.record.userBuffer) (offset : ℕ) :
    ∃ r, memberBuffer P.target P.record.pointerSize member bytes offset = .ok r ∧
      ∀ buffer offset', r = some (buffer, offset') →
        buffer.bytes <:+: P.record.userBuffer ∧ offset ≤ offset' ∧ offset' ≤ bytes.len := by
  have hlen := len_le_of_isInfix hbytes
  obtain ⟨r, hr⟩ := memberBuffer_ok hlen hfit.1 (fun w hw => hfit.2 w (hw.trans hbytes)) offset
  refine ⟨r, hr, ?_⟩
  rintro buffer offset' rfl
  obtain ⟨hrange, rfl, hle⟩ := getRange_of_memberBuffer hlen hr
  exact ⟨(Slice.infix_of_getRange hrange).trans hbytes, Nat.le_add_right _ _, hle⟩

/-- The end of an element is within the bytes. -/
theorem elementEnd_cases {bytes : Slice} (hbytes : bytes.bytes <:+: P.record.userBuffer) :
    ∀ {members : List Property} {offset : ℕ}, EveryMember P.Fits members → offset ≤ bytes.len →
      ∃ r, elementEnd P.target P.record.pointerSize bytes members offset = .ok r ∧
        ∀ stop, r = some stop → offset ≤ stop ∧ stop ≤ bytes.len
  | [], offset, _, hoffset => by
    refine ⟨some offset, rfl, ?_⟩
    rintro stop ⟨⟩
    exact ⟨Nat.le_refl _, hoffset⟩
  | member :: members, offset, hfit, _ => by
    obtain ⟨r, hr, hbound⟩ := memberBuffer_cases hfit.1.self hbytes offset
    rw [elementEnd, hr, bind_ok]
    match r with
    | none => exact ⟨none, rfl, nofun⟩
    | some (buffer, offset') =>
      obtain ⟨-, hle, hle'⟩ := hbound _ _ rfl
      obtain ⟨r, hr, hbound'⟩ := elementEnd_cases hbytes hfit.2 hle'
      refine ⟨r, hr, fun stop hstop => ?_⟩
      obtain ⟨hge, hstop⟩ := hbound' stop hstop
      exact ⟨Nat.le_trans hle hge, hstop⟩

/-- The rule for the elements of a structure array: as many as were counted, each of them a map or
a null. -/
theorem serElements_returns {elementEnd : ℕ → Checked (Option ℕ)}
    {ser : Slice → ParserState → Outcome SerError SerMap × ParserState} {bytes : Slice}
    (Shaped : List PropertySlice → SerMap → Prop)
    (hbytes : bytes.bytes <:+: P.record.userBuffer)
    (hend : ∀ offset, offset ≤ bytes.len → ∃ r, elementEnd offset = .ok r ∧
      ∀ stop, r = some stop → offset ≤ stop ∧ stop ≤ bytes.len)
    (hser : ∀ element s, element.bytes <:+: P.record.userBuffer → Walked P dataStart s →
      Returns (ser element s) fun map s' => P.Extends dataStart s s' ∧
        ∀ located, s'.cache.slices <+: located → Shaped located map) :
    ∀ {count offset : ℕ} {seq : List SerValue} {s : ParserState}, offset ≤ bytes.len →
      Walked P dataStart s →
      Returns (serElements elementEnd ser bytes count offset seq s) fun seq' s' =>
        P.Extends dataStart s s' ∧ ∃ vs, seq' = seq ++ vs ∧ vs.length = count ∧
          ∀ located, s'.cache.slices <+: located → ∀ v ∈ vs, True ∧ v = .null ∨
            ∃ entries, v = .map entries ∧ Shaped located entries
  | 0, _, seq, s, _, hs => .ok ⟨.refl hs, [], by simp, rfl, fun _ _ => nofun⟩
  | count + 1, offset, seq, s, hoffset, hs => by
    obtain ⟨r, hr, hbound⟩ := hend offset hoffset
    rw [serElements, hr]
    cases r with
    | none =>
      refine .ok ⟨.refl hs, List.replicate (count + 1) .null, rfl, List.length_replicate,
        fun _ _ v hv => Or.inl ⟨trivial, List.eq_of_mem_replicate hv⟩⟩
    | some stop =>
      obtain ⟨hge, hle⟩ := hbound stop rfl
      have helement := Slice.getRange_eq_some_iff.mpr
        ⟨⟨hge, hle⟩,
          (rfl : _ = (⟨bytes.start + offset, (bytes.bytes.take stop).drop offset⟩ : Slice))⟩
      simp only [helement]
      refine (hser _ s ((Slice.infix_of_getRange helement).trans hbytes) hs).andThen
        fun map s₁ ⟨hext, hshaped⟩ => ?_
      refine (serElements_returns Shaped hbytes hend hser hle hext.1).mono ?_
      rintro seq' s' ⟨hext', vs, rfl, hlen, hall⟩
      refine ⟨hext.trans hext', .map map :: vs, by simp, by simp [hlen], fun located hloc => ?_⟩
      exact List.forall_mem_cons.mpr
        ⟨Or.inr ⟨map, rfl, hshaped located (hext'.2.trans hloc)⟩, hall located hloc⟩

/-! ### The serializers return -/

/-- A property that is not a structure is written, or degrades to a null. -/
theorem serValue_returns {p : Property} {buffer : Slice} {map : SerMap} {s : ParserState}
    (hfit : P.Fits p) (hbuffer : buffer.bytes <:+: P.record.userBuffer)
    (hstruct : ∀ members, p.info ≠ .struct members)
    (harray : ∀ members count, p.info ≠ .structArray members count)
    (hshaped : ∀ located v, p.Shaped True P.target located v) (hs : Walked P dataStart s) :
    Returns (serValue P N false p buffer map, s) fun map' s' => P.Extends dataStart s s' ∧
      ∃ v, map' = map ++ [(p.name, v)] ∧
        ∀ located, s'.cache.slices <+: located → p.Shaped True P.target located v := by
  obtain ⟨v, hv⟩ := exists_serValue_eq_ok (N := N) hstruct harray (hfit.2 _ hbuffer) map
  rw [hv]
  exact .ok ⟨.refl hs, v, rfl, fun located _ => hshaped located v⟩

mutual

/-- **One entry for a property, of its shape.** -/
theorem serProperty_returns (hprops : ∀ p ∈ P.properties, P.Fits p) : ∀ {p : Property}
    {buffer : Slice} {map : SerMap} {s : ParserState}, p.Every P.Fits →
      buffer.bytes <:+: P.record.userBuffer → Walked P dataStart s →
      Returns (serProperty P N false p buffer map s) fun map' s' => P.Extends dataStart s s' ∧
        ∃ v, map' = map ++ [(p.name, v)] ∧
          ∀ located, s'.cache.slices <+: located → p.Shaped True P.target located v
  | ⟨name, .struct members⟩, buffer, map, s, hfit, hbuffer, hs => by
    rw [serProperty]
    refine (structSer_returns hprops hfit.2 hbuffer hs).andThen ?_
    rintro value s' ⟨hext, entries, rfl, hshaped⟩
    exact .ok ⟨hext, _, rfl, fun located hloc => Or.inr ⟨_, rfl, hshaped located hloc⟩⟩
  | ⟨name, .structArray members count⟩, buffer, map, s, hfit, hbuffer, hs => by
    rw [serProperty]
    refine (resolveStructCount_returns hprops hs count).andThen ?_
    rintro resolved s₁ ⟨hext, hcount⟩
    cases resolved with
    | none => exact .ok ⟨hext, .null, rfl, fun _ _ => Or.inl ⟨trivial, rfl⟩⟩
    | some n =>
      refine (serElements_returns
        (fun located map => MembersShaped True P.target located members map) hbuffer
        (fun _ => elementEnd_cases hbuffer hfit.2) (fun element s helement hs => ?_)
        (Nat.zero_le _) hext.1).andThen ?_
      · refine (structSer_returns hprops hfit.2 helement hs).mono ?_
        rintro map s' ⟨hext, entries, rfl, hshaped⟩
        exact ⟨hext, hshaped⟩
      · rintro value s' ⟨hext', vs, rfl, hlen, hall⟩
        refine .ok ⟨hext.trans hext', _, rfl, fun located hloc =>
          Or.inr ⟨_, rfl, ?_, hall located hloc⟩⟩
        rw [hlen]
        exact elementCount_of_isPrefix (hext'.2.trans hloc) (hcount n rfl)
  | ⟨_, .value _ _ _⟩, _, _, _, hfit, hbuffer, hs =>
    serValue_returns hfit hbuffer (fun _ => nofun) (fun _ _ => nofun)
      (fun _ _ _ => Or.inl trivial) hs
  | ⟨_, .array _ _ _ _⟩, _, _, _, hfit, hbuffer, hs =>
    serValue_returns hfit hbuffer (fun _ => nofun) (fun _ _ => nofun)
      (fun _ _ _ => Or.inl trivial) hs
  | ⟨_, .unsupported _⟩, _, _, _, hfit, hbuffer, hs =>
    serValue_returns hfit hbuffer (fun _ => nofun) (fun _ _ => nofun)
      (fun _ _ _ => Or.inl trivial) hs

/-- **One entry for each member of a structure**, in order. -/
theorem structSer_returns (hprops : ∀ p ∈ P.properties, P.Fits p) : ∀ {members : List Property}
    {bytes : Slice} {offset : ℕ} {map : SerMap} {s : ParserState}, EveryMember P.Fits members →
      bytes.bytes <:+: P.record.userBuffer → Walked P dataStart s →
      Returns (structSer P N false bytes members offset map s) fun map' s' =>
        P.Extends dataStart s s' ∧ ∃ entries, map' = map ++ entries ∧
          ∀ located, s'.cache.slices <+: located →
            MembersShaped True P.target located members entries
  | [], bytes, offset, map, s, _, _, hs =>
    .ok ⟨.refl hs, [], by simp, fun _ _ => by simp [MembersShaped]⟩
  | member :: members, bytes, offset, map, s, hfit, hbytes, hs => by
    obtain ⟨r, hr, hbound⟩ := memberBuffer_cases hfit.1.self hbytes offset
    rw [structSer, hr]
    match r with
    | none =>
      refine .ok ⟨.refl hs, _, foldl_nullEntry _ _, fun _ _ => ?_⟩
      exact (membersShaped_null_iff _).mpr fun _ _ => Or.inl trivial
    | some (buffer, offset') =>
      obtain ⟨hbuffer, -⟩ := hbound _ _ rfl
      refine (serProperty_returns hprops hfit.1 hbuffer hs).andThen ?_
      rintro map₁ s₁ ⟨hext, v, rfl, hshaped⟩
      refine (structSer_returns hprops hfit.2 hbytes hext.1).mono ?_
      rintro map' s' ⟨hext', entries, rfl, hshaped'⟩
      refine ⟨hext.trans hext', (member.name, v) :: entries, by simp, fun located hloc => ?_⟩
      exact ⟨v, entries, rfl, hshaped located (hext'.2.trans hloc), hshaped' located hloc⟩

end

/-! ### The event -/

/-- The entry is what a lenient `ser_property` writes for the slice, on its own. -/
def DecodedFrom (P : Parser) (N : Natives) (dataStart : Option ℕ) (slice : PropertySlice)
    (entry : String × SerValue) : Prop :=
  ∃ s s', Walked P dataStart s ∧
    serProperty P N false slice.property slice.buffer [] s = (.ok [entry], s')

/-- The entries of the properties from `index` on. The walk stops at `stop`. -/
structure EntriesFrom (P : Parser) (N : Natives) (dataStart : Option ℕ) (index : ℕ)
    (props : List Property) (entries : SerMap) (stop : ℕ) (s' : ParserState) : Prop where
  shaped : ∀ located, s'.cache.slices <+: located →
    MembersShaped True P.target located props entries
  decoded : ∀ i entry, entries[i]? = some entry → index + i < stop →
    ∃ slice, s'.cache.slices[index + i]? = some slice ∧ DecodedFrom P N dataStart slice entry
  nulls : ∀ i entry, entries[i]? = some entry → stop ≤ index + i → entry.2 = .null
  stopped : stop < P.properties.length → ∃ s₀ e, Walked P dataStart s₀ ∧
    P.propertyBytesAt stop s₀ = (.error (.error e), s')

/-- The rule for the loop over the top-level properties. -/
theorem eventEntries_returns (hprops : EveryMember P.Fits P.properties) :
    ∀ {props : List Property} {index : ℕ} {map : SerMap} {s : ParserState},
      P.properties.drop index = props → Walked P dataStart s →
      Returns (eventEntries P N false props index map s) fun map' s' =>
        P.Extends dataStart s s' ∧ ∃ entries stop, map' = map ++ entries ∧ index ≤ stop ∧
          EntriesFrom P N dataStart index props entries stop s'
  | [], index, map, s, hdrop, hs => by
    refine .ok ⟨.refl hs, [], index, by simp, Nat.le_refl _, ?_, nofun, nofun, fun hlt => ?_⟩
    · exact fun _ _ => by simp [MembersShaped]
    · have := List.drop_eq_nil_iff.mp hdrop
      omega
  | prop :: props, index, map, s, hdrop, hs => by
    have hfits : ∀ p ∈ P.properties, P.Fits p := fun p hp => (hprops.of_mem p hp).self
    rw [eventEntries]
    obtain ⟨s₁, hext, ⟨slice, hslice, heq⟩ | ⟨e, heq⟩⟩ := propertyBytesAt_cases hfits hs index
    · have hprop : P.properties[index]? = some prop := by
        rw [← List.head?_drop, hdrop, List.head?_cons]
      have hown : slice.property = prop :=
        Option.some.inj ((hext.1.getElem?_properties hslice).symm.trans hprop)
      have hbuffer := hext.1.tiles.infix_of_mem slice (List.mem_of_getElem? hslice)
      have hdrop' : P.properties.drop (index + 1) = props := by
        rw [← List.tail_drop, hdrop, List.tail_cons]
      rw [heq]
      have hwritten : Returns (serProperty P N false prop slice.buffer map s₁) fun map₁ s₂ =>
          P.Extends dataStart s₁ s₂ ∧ ∃ v, map₁ = map ++ [(prop.name, v)] ∧
            DecodedFrom P N dataStart slice (prop.name, v) ∧
            ∀ located, s₂.cache.slices <+: located → prop.Shaped True P.target located v := by
        obtain ⟨map₁, s₂, hser, hext', v, hmap, hshaped⟩ :=
          serProperty_returns hfits (hprops.of_mem prop (List.mem_of_getElem? hprop)) hbuffer hext.1
        obtain ⟨v', hmap', hall⟩ := serProperty_eq_ok hser
        obtain rfl : v = v' := by simpa using hmap.symm.trans hmap'
        exact ⟨map₁, s₂, hser, hext', v, hmap, ⟨s₁, s₂, hext.1, by rw [hown]; exact hall []⟩,
          hshaped⟩
      refine hwritten.andThen ?_
      rintro map₁ s₂ ⟨hext', v, rfl, hdecoded, hshaped⟩
      refine (eventEntries_returns hprops hdrop' hext'.1).mono ?_
      rintro map' s' ⟨hext'', entries, stop, rfl, hstop, hentries⟩
      refine ⟨hext.trans (hext'.trans hext''), (prop.name, v) :: entries, stop, by simp, by omega,
        ?_, ?_, ?_, hentries.stopped⟩
      · exact fun located hloc => ⟨v, entries, rfl, hshaped located (hext''.2.trans hloc),
          hentries.shaped located hloc⟩
      · rintro (_ | i) entry hentry hi
        · obtain rfl := Option.some.inj hentry
          exact ⟨slice, getElem?_of_isPrefix (hext'.2.trans hext''.2) hslice, hdecoded⟩
        · rw [← Nat.add_assoc, Nat.add_right_comm]
          exact hentries.decoded i entry hentry (by omega)
      · rintro (_ | i) entry hentry hi
        · omega
        · exact hentries.nulls i entry hentry (by omega)
    · rw [heq]
      refine .ok ⟨hext, (prop :: props).map fun p => (p.name, .null), index, foldl_nullEntry _ _,
        Nat.le_refl _, ?_, ?_, ?_, ?_⟩
      · exact fun _ _ => (membersShaped_null_iff _).mpr fun _ _ => Or.inl trivial
      · intro i entry _ hi
        omega
      · intro i entry hi _
        obtain ⟨p, -, rfl⟩ := List.mem_map.mp (List.mem_of_getElem? hi)
        rfl
      · exact fun _ => ⟨s, e, hs, heq⟩

theorem names_of_membersShaped {degraded : Prop} {t : Target} {slices : List PropertySlice} :
    ∀ {ps : List Property} {entries : SerMap}, MembersShaped degraded t slices ps entries →
      entries.map Prod.fst = ps.map (·.name)
  | [], _, h => by rw [show _ = [] from h]; rfl
  | p :: ps, _, h => by
    obtain ⟨v, rest, rfl, -, hrest⟩ := h
    simp [names_of_membersShaped hrest]

end

/-- What a lenient run writes, and where it leaves the parser. The top-level properties before
`stop` could be located. -/
structure LenientEvent (P : Parser) (N : Natives) (dataStart : Option ℕ) (entries : SerMap)
    (stop : ℕ) (s' : ParserState) : Prop where
  /-- What is located tiles the user buffer. -/
  walked : Walked P dataStart s'
  /-- One entry for each top-level property, in schema order. -/
  names : entries.map Prod.fst = P.properties.map (·.name)
  /-- Structures and structure arrays have their shape, or are null. -/
  shaped : MembersShaped True P.target s'.cache.slices P.properties entries
  /-- Before `stop`, an entry is decoded from the bytes its own property was located at. -/
  decoded : ∀ i entry, i < stop → entries[i]? = some entry → ∃ slice,
    s'.cache.slices[i]? = some slice ∧ P.properties[i]? = some slice.property ∧
      DecodedFrom P N dataStart slice entry
  /-- From there on, every entry is null. -/
  nulls : ∀ i entry, stop ≤ i → entries[i]? = some entry → entry.2 = .null
  /-- And the property at `stop` could not be located. -/
  stopped : stop < P.properties.length → ∃ s e, Walked P dataStart s ∧
    P.propertyBytesAt stop s = (.error (.error e), s')

/-- **A lenient run returns**, after any history of the parser and whatever TDH answers, when the
sums of member sizes and the hexdumps fit. -/
theorem lenient_event (target : Target)
    (tdh : List Property → Property → Except TdhNativeError UInt32) (record : EventRecord)
    (schema : Schema) (N : Natives) (calls : List Call)
    (hfit : EveryMember (Parser.create target tdh record schema).Fits schema.properties) :
    let P := Parser.create target tdh record schema
    let s := CallMachine.after P.call (Parser.createState record schema) calls
    ∃ entries stop s', eventSer P N false s = (.ok (.map entries), s') ∧
      LenientEvent P N (propertyValuesStart record schema) entries stop s' := by
  intro P s
  have hs : Walked P (propertyValuesStart record schema) s :=
    ((P.walked_keeps _).after (Walked.create P record schema) calls).1
  obtain ⟨entries, s', hmap, ⟨hwalked, -⟩, _, stop, rfl, -, hentries⟩ :
      Returns (eventEntries P N false P.properties 0 [] s) _ := eventEntries_returns hfit rfl hs
  have hshaped := hentries.shaped _ (List.prefix_refl _)
  refine ⟨entries, stop, s', ?_, hwalked, names_of_membersShaped hshaped, hshaped, ?_, ?_,
    hentries.stopped⟩
  · exact andThen_eq_ok_iff.mpr ⟨_, _, hmap, rfl⟩
  · intro i entry hi hentry
    obtain ⟨slice, hslice, hdecoded⟩ := hentries.decoded i entry hentry (by omega)
    rw [Nat.zero_add] at hslice
    exact ⟨slice, hslice, hwalked.getElem?_properties hslice, hdecoded⟩
  · exact fun i entry hi hentry => hentries.nulls i entry hentry (by omega)

/-- An event that ends within its third property. -/
theorem lenient_event_truncated :
    let record : EventRecord := ⟨0, 0, [1, 9, 65], by decide, []⟩
    let schema : Schema := ⟨.decodingSourceXMLFile,
      [⟨"Count", .value .inTypeUInt8 .outTypeNull (.length 0)⟩,
        ⟨"Items", .structArray [⟨"Id", .value .inTypeUInt8 .outTypeNull (.length 0)⟩] (.index 0)⟩,
        ⟨"Name", .value .inTypeAnsiString .outTypeNull (.length 0)⟩]⟩
    let P := Parser.create ⟨.b32, true⟩ (fun _ _ => .error .allocationError) record schema
    let N : Natives := ⟨fun _ => "", fun _ => .error .sidParseError⟩
    ∃ entries stop s',
      eventSer P N false (CallMachine.after P.call (Parser.createState record schema) []) =
        (.ok (.map entries), s') ∧
      LenientEvent P N (propertyValuesStart record schema) entries stop s' := by
  intro record schema P N
  refine lenient_event ⟨.b32, true⟩ (fun _ _ => .error .allocationError) record schema N [] ?_
  refine ⟨⟨trivial, fun _ _ => nofun⟩, ⟨⟨⟨trivial, ?_⟩, fun _ _ => nofun⟩,
    ⟨trivial, fun _ _ => nofun⟩, trivial⟩, ⟨trivial, fun _ _ => nofun⟩, trivial⟩
  intro size hsize
  obtain rfl := Option.some.inj hsize
  exact ⟨by decide, trivial⟩

end Ferrisetw2
