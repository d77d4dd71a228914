import Ferrisetw2.Ser.Serialize

/-!
# Structure arrays

A structure array is sized by the parser and written by the serializer, and each resolves its count
and its elements on its own. The parser reads the count off the properties located before the array
and multiplies it by the size of an element. The serializer asks the parser for the property that
holds the count, and then walks the members of one element after the other.

## Main definitions

* `Sized` — located slices are as long as the walk decided, where it did not ask TDH
* `serEach` — elements written one after the other, each as a map

## Main results

* `Parser.sized_keeps` — every state is `Sized`
* `elementEnd_of_fixedSizes`, `serElements_eq_serEach` — elements of fixed size are all found
* `structSer_of_fixedSizes` — and in lenient mode, all written
* `struct_array_elements` — the serializer writes the elements the walk has counted, and nothing of
  the property is left over
-/

namespace Ferrisetw2

open Rust

/-! ### Sizes of located slices -/

/-- A located slice is as long as the walk decided it was, where it did not ask TDH. -/
def Sized (P : Parser) (s : ParserState) : Prop :=
  ∀ i slice, s.cache.slices[i]? = some slice → ∃ remaining, ∀ size,
    findPropertySize P.target P.record.pointerSize slice.property (s.cache.slices.take i)
      remaining = .ok (.size size) → slice.buffer.len = size

variable {P : Parser} {N : Natives}

/-- Sizing leaves the cache alone. -/
theorem Parser.findPropertySize_cache (property : Property) (remaining : List UInt8)
    (s : ParserState) : (P.findPropertySize property remaining s).2.cache = s.cache := by
  rw [Parser.findPropertySize]
  split
  · rfl
  · rfl
  · rfl
  · rw [Parser.tdhPropertySize]
    split <;> rfl

/-- What a step pushes has the size that was decided. -/
theorem Parser.size_of_parseNextProperty {s s' : ParserState}
    (h : P.parseNextProperty s = (.ok (), s')) :
    ∃ slice remaining, s'.cache.slices = s.cache.slices ++ [slice] ∧ ∀ size,
      Ferrisetw2.findPropertySize P.target P.record.pointerSize slice.property s.cache.slices
        remaining = .ok (.size size) → slice.buffer.len = size := by
  rw [Parser.parseNextProperty] at h
  split at h
  · cases h
  rename_i property hproperty
  split at h
  · cases h
  split at h
  · cases h
  rename_i remaining hfrom
  split at h
  · cases h
  rename_i propSize s₁ hsize
  split at h
  · cases h
  rename_i buffer hto
  cases h
  refine ⟨⟨property, buffer⟩, remaining.bytes, ?_, fun size hlocal => ?_⟩
  · have hcache := P.findPropertySize_cache property remaining.bytes s
    rw [hsize] at hcache
    show s₁.cache.slices ++ _ = _
    rw [hcache]
  · rw [Parser.findPropertySize, hlocal] at hsize
    cases hsize
    exact Slice.len_of_getTo hto

/-- **Every state of a parser is `Sized`.** -/
theorem Parser.sized_keeps (P : Parser) (dataStart : Option ℕ) :
    P.Keeps fun s => Walked P dataStart s ∧ Sized P s where
  step := by
    rintro s ⟨hwalked, hsized⟩
    refine ⟨(P.walked_keeps dataStart).step s hwalked, ?_⟩
    rcases P.parseNextProperty_cache s with ⟨_, s', hstep, -⟩ | ⟨e, s', hstep, hcache⟩
    · rw [hstep]
      obtain ⟨slice, remaining, hslices, hsize⟩ := Parser.size_of_parseNextProperty hstep
      intro i x hx
      rw [hslices] at hx ⊢
      rcases Nat.lt_or_ge i s.cache.slices.length with hi | hi
      · rw [List.getElem?_append_left hi] at hx
        rw [List.take_append_of_le_length (Nat.le_of_lt hi)]
        exact hsized i x hx
      · rw [List.getElem?_append_right hi, List.getElem?_singleton] at hx
        split at hx
        · rename_i hzero
          obtain rfl := Option.some.inj hx
          obtain rfl : i = s.cache.slices.length := by omega
          rw [List.take_left]
          exact ⟨remaining, hsize⟩
        · cases hx
    · rw [hstep, Sized, ← hcache]
      exact hsized
  hit := fun s idx ⟨hwalked, hsized⟩ hidx =>
    ⟨(P.walked_keeps dataStart).hit s idx hwalked hidx, hsized⟩
  probe := fun s hs => hs.1.probe

/-! ### Counts -/

/-- **The serializer resolves the count that the walk has read**, and asks for nothing new. -/
theorem resolveStructCount_eq {dataStart : Option ℕ} {s : ParserState} (hs : Walked P dataStart s)
    {count : PropertyCount} {k n : ℕ}
    (h : elementCount P.target count (s.cache.slices.take k) = some n) :
    resolveStructCount P count s = (.ok (some n), s) := by
  have hn := elementCount_of_isPrefix (List.take_prefix k s.cache.slices) h
  cases count with
  | count c =>
    rw [resolveStructCount]
    exact congrArg (·, s) (congrArg Except.ok hn)
  | index i =>
    obtain ⟨slice, hslice, hvalue⟩ := Option.bind_eq_some_iff.mp hn
    have hlt := (List.getElem?_eq_some_iff.mp hslice).1
    have hbytes : P.propertyBytesAt i.toNat s = (.ok slice.buffer, s) := by
      rw [Parser.propertyBytesAt, Nat.sub_eq_zero_of_le hlt, Parser.parseMore]
      dsimp only
      rw [hslice]
    rw [resolveStructCount, hs.getElem?_properties hslice, hbytes]
    exact congrArg (·, s) (congrArg Except.ok hvalue)

/-! ### Elements -/

/-- A member of fixed size is sliced out wherever there is room for it. -/
theorem memberBuffer_of_fixedSize {t : Target} {pointerSize : ℕ} {member : Property}
    {bytes : Slice} {size : ℕ} (offset : ℕ) (hlen : bytes.len ≤ t.usizeMax)
    (hsize : member.fixedSize t pointerSize = .ok (some size)) (hroom : offset + size ≤ bytes.len) :
    ∃ buffer, memberBuffer t pointerSize member bytes offset =
      .ok (some (buffer, offset + size)) ∧ buffer.len = size := by
  obtain ⟨remaining, hfrom, hto⟩ := Slice.exists_getFrom_getTo hroom
  refine ⟨_, ?_, Slice.len_of_getTo hto⟩
  have hadd : t.add offset size = .ok (offset + size) := Target.add_of_le (by omega)
  rw [memberBuffer, memberSize, hsize, bind_ok, hfrom]
  simp only [bind_ok, Option.bind_some, hto, hadd]

/-- An element of members of fixed size ends where their sizes say. -/
theorem elementEnd_of_fixedSizes {t : Target} {pointerSize : ℕ} {bytes : Slice}
    (hlen : bytes.len ≤ t.usizeMax) : ∀ {members : List Property} {acc r size offset : ℕ},
      sumFixedSizes t pointerSize members acc = .ok (some r) →
      exactSum pointerSize members = some size → acc + size ≤ t.usizeMax →
      offset + size ≤ bytes.len →
      elementEnd t pointerSize bytes members offset = .ok (some (offset + size))
  | [], _, _, _, _, _, hexact, _, _ => by
    cases hexact
    rfl
  | m :: ms, acc, r, size, offset, hsum, hexact, hle, hroom => by
    obtain ⟨first, acc', hfirst, hadd, hrest⟩ := sumFixedSizes_cons_eq_ok hsum
    obtain ⟨first', rest, hfirst', hrest', rfl⟩ := exactSum_cons_eq_some hexact
    obtain rfl := Property.fixedSize_eq_exact hfirst hfirst' (by omega)
    rw [Target.add_of_le (by omega)] at hadd
    obtain rfl := Except.ok.inj hadd
    obtain ⟨buffer, hbuffer, -⟩ :=
      memberBuffer_of_fixedSize offset hlen hfirst (by omega)
    rw [elementEnd, hbuffer, bind_ok]
    dsimp only
    rw [elementEnd_of_fixedSizes hlen hrest hrest' (by omega) (by omega), Nat.add_assoc]

/-- The elements are written one after the other, each as a map. -/
def serEach (serElement : Slice → ParserState → Outcome SerError SerMap × ParserState) :
    List Slice → List SerValue → ParserState → Outcome SerError (List SerValue) × ParserState
  | [], seq, s => (.ok seq, s)
  | element :: elements, seq, s =>
    andThen (serElement element s) fun map s => serEach serElement elements (seq ++ [.map map]) s

/-- **Elements of one size are all found**: the loop is over consecutive slices. -/
theorem serElements_eq_serEach {elementEnd : ℕ → Checked (Option ℕ)}
    {serElement : Slice → ParserState → Outcome SerError SerMap × ParserState} {bytes : Slice}
    {size : ℕ} (hend : ∀ offset, offset + size ≤ bytes.len →
      elementEnd offset = .ok (some (offset + size))) :
    ∀ {elements : List Slice} {a b : ℕ} (seq : List SerValue) (s : ParserState),
      bytes.Consecutive a elements b → (∀ x ∈ elements, x.len = size) →
      serElements elementEnd serElement bytes elements.length a seq s =
        serEach serElement elements seq s
  | [], _, _, _, _, _, _ => rfl
  | x :: xs, a, b, seq, s, hcons, hsize => by
    obtain ⟨hx, hxs⟩ := hcons
    obtain ⟨hlen, hsizes⟩ := List.forall_mem_cons.mp hsize
    rw [hlen] at hx hxs
    have hroom : a + size ≤ bytes.len := (Slice.getRange_eq_some_iff.mp hx).1.2
    rw [List.length_cons, serElements, hend a hroom, serEach]
    dsimp only
    rw [hx]
    dsimp only
    congr 1
    funext map s
    exact serElements_eq_serEach hend _ s hxs hsizes

/-- Every value is the map that was written for its slice. -/
def MapsOf (serElement : Slice → ParserState → Outcome SerError SerMap × ParserState)
    (elements : List Slice) (values : List SerValue) : Prop :=
  List.Forall₂ (fun element value => ∃ map s s', value = .map map ∧
    serElement element s = (.ok map, s')) elements values

theorem mapsOf_of_serEach
    {serElement : Slice → ParserState → Outcome SerError SerMap × ParserState} :
    ∀ {elements : List Slice} {seq seq' : List SerValue} {s s' : ParserState},
      serEach serElement elements seq s = (.ok seq', s') →
      ∃ values, seq' = seq ++ values ∧ MapsOf serElement elements values
  | [], seq, seq', s, s', h => by
    cases h
    exact ⟨[], (List.append_nil seq).symm, .nil⟩
  | x :: xs, seq, seq', s, s', h => by
    obtain ⟨map, s₁, hmap, hrest⟩ := andThen_eq_ok_iff.mp h
    obtain ⟨values, rfl, hvalues⟩ := mapsOf_of_serEach hrest
    refine ⟨.map map :: values, List.append_assoc .., .cons ⟨map, s, s₁, rfl, hmap⟩ hvalues⟩

/-- Where every element is written, so are all. -/
theorem serEach_returns
    {serElement : Slice → ParserState → Outcome SerError SerMap × ParserState} :
    ∀ {elements : List Slice} (seq : List SerValue) (s : ParserState),
      (∀ x ∈ elements, ∃ map, serElement x s = (.ok map, s)) →
      ∃ seq', serEach serElement elements seq s = (.ok seq', s)
  | [], seq, s, _ => ⟨seq, rfl⟩
  | x :: xs, seq, s, h => by
    obtain ⟨⟨map, hmap⟩, hxs⟩ := List.forall_mem_cons.mp h
    rw [serEach, hmap, andThen_ok]
    exact serEach_returns _ s hxs

section Elements

variable {members : List Property} {buffer : Slice} {elem size n : ℕ}
  (hlen : buffer.len ≤ P.target.usizeMax)
  (hsum : sumFixedSizes P.target P.record.pointerSize members 0 = .ok (some elem))
  (hexact : exactSum P.record.pointerSize members = some size) (hroom : n * size ≤ buffer.len)

include hlen hsum hexact hroom

/-- Where there is room for `n` elements, the loop is over `n` consecutive slices. -/
theorem exists_elements :
    ∃ elements, elements.length = n ∧ (∀ x ∈ elements, x.len = size) ∧
      buffer.Consecutive 0 elements (n * size) ∧
      ∀ (serElement : Slice → ParserState → Outcome SerError SerMap × ParserState)
        (s : ParserState),
        serElements (elementEnd P.target P.record.pointerSize buffer members) serElement buffer n 0
          [] s = serEach serElement elements [] s := by
  have hend : ∀ offset, offset + size ≤ buffer.len →
      elementEnd P.target P.record.pointerSize buffer members offset = .ok (some (offset + size)) :=
    fun offset hoffset => elementEnd_of_fixedSizes hlen hsum hexact (by omega) hoffset
  obtain ⟨elements, hcount, hsizes, hcons⟩ :=
    buffer.exists_consecutive size n (show 0 + n * size ≤ buffer.len by omega)
  rw [Nat.zero_add] at hcons
  refine ⟨elements, hcount, hsizes, hcons, fun serElement s => ?_⟩
  rw [← hcount]
  exact serElements_eq_serEach hend [] s hcons hsizes

/-- If any slice of that size is written, so are the elements. -/
theorem serElements_returns_of_room
    (serElement : Slice → ParserState → Outcome SerError SerMap × ParserState) {s : ParserState}
    (hser : ∀ x : Slice, x.len = size → x.len ≤ P.target.usizeMax →
      ∃ map, serElement x s = (.ok map, s)) :
    ∃ seq, serElements (elementEnd P.target P.record.pointerSize buffer members) serElement buffer n
      0 [] s = (.ok seq, s) := by
  obtain ⟨elements, hcount, hsizes, -, heq⟩ := exists_elements hlen hsum hexact hroom
  rw [heq]
  refine serEach_returns [] s fun x hx => hser x (hsizes x hx) ?_
  have hpos : 0 < n := hcount ▸ List.length_pos_of_mem hx
  have hone : size ≤ n * size := Nat.le_mul_of_pos_left size hpos
  rw [hsizes x hx]
  omega

end Elements

/-! ### Lenient runs -/

/-- No hexdump has a fixed size. -/
theorem hexFits_of_fixedSize {t : Target} {pointerSize : ℕ} {p : Property} {r : ℕ}
    (h : p.fixedSize t pointerSize = .ok (some r)) (window : List UInt8) :
    HexFits t.usizeBits p window := by
  obtain ⟨name, info⟩ := p
  rintro outType length count hinfo -
  obtain rfl : info = .value .inTypeHexDump outType length := hinfo
  cases length with
  | length l =>
    rw [Property.fixedSize, valueFixedSize_eq] at h
    have hnone : exactValueSize pointerSize .inTypeHexDump (.length l) = none := by
      rw [exactValueSize]
      simp [TdhInType.isPointer, TdhInType.isContentSized, TdhInType.fixedSize]
    rw [hnone] at h
    cases h
  | index i => cases h

/-- A value of fixed size is written. -/
theorem serValue_of_fixedSize {p : Property} {buffer : Slice} {r : ℕ}
    (hstruct : ∀ members, p.info ≠ .struct members)
    (harray : ∀ members count, p.info ≠ .structArray members count)
    (hr : p.fixedSize P.target P.record.pointerSize = .ok (some r)) (map : SerMap)
    (s : ParserState) :
    ∃ v, (serValue P N false p buffer map, s) = (.ok (map ++ [(p.name, v)]), s) := by
  obtain ⟨v, hv⟩ := exists_serValue_eq_ok (N := N) hstruct harray
    (hexFits_of_fixedSize hr buffer.bytes) map
  exact ⟨v, by rw [hv]⟩

mutual

/-- A property of fixed size is written as one entry, and asks for nothing. -/
theorem serProperty_of_fixedSize : ∀ {p : Property} {buffer : Slice} {r size : ℕ} (map : SerMap)
    (s : ParserState), p.fixedSize P.target P.record.pointerSize = .ok (some r) →
      p.exactFixedSize P.record.pointerSize = some size → size ≤ buffer.len →
      buffer.len ≤ P.target.usizeMax →
      ∃ v, serProperty P N false p buffer map s = (.ok (map ++ [(p.name, v)]), s)
  | ⟨name, .struct members⟩, buffer, r, size, map, s, hr, hsize, hroom, hlen => by
    obtain ⟨entries, hentries⟩ := structSer_of_fixedSizes 0 [] s hr hsize (by omega)
      (by omega) hlen
    rw [serProperty, hentries, andThen_ok]
    exact ⟨_, rfl⟩
  | ⟨name, .structArray members count⟩, buffer, r, size, map, s, hr, hsize, hroom, hlen => by
    obtain ⟨elem, hsum, hr⟩ := bind_eq_ok_iff.mp hr
    cases elem with
    | none => cases hr
    | some elem =>
      cases count with
      | index i => cases hr
      | count c =>
        obtain ⟨exact', hexact, rfl⟩ := Option.map_eq_some_iff.mp hsize
        rw [Nat.mul_comm] at hroom
        obtain ⟨seq, hseq⟩ := serElements_returns_of_room hlen hsum hexact hroom
          (fun element s => structSer P N false element members 0 [] s) fun x hx hxlen =>
            structSer_of_fixedSizes 0 [] s hsum hexact (by omega) (by omega) hxlen
        rw [serProperty, resolveStructCount, andThen_ok]
        dsimp only
        rw [hseq, andThen_ok]
        exact ⟨_, rfl⟩
  | ⟨name, .value inType outType length⟩, _, _, _, map, s, hr, _, _, _ =>
    serValue_of_fixedSize (p := ⟨name, .value inType outType length⟩)
      (fun _ => nofun) (fun _ _ => nofun) hr map s
  | ⟨name, .array inType outType length count⟩, _, _, _, map, s, hr, _, _, _ =>
    serValue_of_fixedSize (p := ⟨name, .array inType outType length count⟩)
      (fun _ => nofun) (fun _ _ => nofun) hr map s
  | ⟨name, .unsupported length⟩, _, _, _, map, s, hr, _, _, _ =>
    serValue_of_fixedSize (p := ⟨name, .unsupported length⟩)
      (fun _ => nofun) (fun _ _ => nofun) hr map s

/-- Members of fixed size are all written, where there is room for them. -/
theorem structSer_of_fixedSizes : ∀ {members : List Property} {bytes : Slice} {acc r size : ℕ}
    (offset : ℕ) (map : SerMap) (s : ParserState),
      sumFixedSizes P.target P.record.pointerSize members acc = .ok (some r) →
      exactSum P.record.pointerSize members = some size → acc + size ≤ P.target.usizeMax →
      offset + size ≤ bytes.len → bytes.len ≤ P.target.usizeMax →
      ∃ map', structSer P N false bytes members offset map s = (.ok map', s)
  | [], _, _, _, _, _, map, s, _, _, _, _, _ => ⟨map, by rw [structSer]⟩
  | m :: ms, bytes, acc, r, size, offset, map, s, hsum, hexact, hle, hroom, hlen => by
    obtain ⟨first, acc', hfirst, hadd, hrest⟩ := sumFixedSizes_cons_eq_ok hsum
    obtain ⟨first', rest, hfirst', hrest', rfl⟩ := exactSum_cons_eq_some hexact
    obtain rfl := Property.fixedSize_eq_exact hfirst hfirst' (by omega)
    rw [Target.add_of_le (by omega)] at hadd
    obtain rfl := Except.ok.inj hadd
    obtain ⟨buffer, hbuffer, hblen⟩ :=
      memberBuffer_of_fixedSize offset hlen hfirst (by omega)
    obtain ⟨v, hv⟩ := serProperty_of_fixedSize map s hfirst hfirst' hblen.ge (by omega)
    rw [structSer, hbuffer]
    dsimp only
    rw [hv, andThen_ok]
    exact structSer_of_fixedSizes _ _ s hrest hrest' (by omega) (by omega) hlen

end

/-! ### A located structure array -/

/-- A structure array located at index `k` is written as it was counted. -/
structure WrittenAsCounted (P : Parser) (s : ParserState) (k : ℕ) (name : String)
    (members : List Property) (count : PropertyCount) (buffer : Slice) (n : ℕ)
    (elements : List Slice) : Prop where
  /-- The walk read this count off the properties before the array. -/
  counted : elementCount P.target count (s.cache.slices.take k) = some n
  /-- It multiplied it by the size of an element. -/
  multiplied : ∃ elem, exactSum P.record.pointerSize members = some elem ∧ buffer.len = elem * n
  /-- The serializer resolves the same count. -/
  resolved : resolveStructCount P count s = (.ok (some n), s)
  length_eq : elements.length = n
  /-- The elements start where the property does, and end where it ends. -/
  consecutive : buffer.Consecutive 0 elements buffer.len
  bytes_eq : elements.flatMap Slice.bytes = buffer.bytes
  /-- What is written is a map for each of them. -/
  written : ∀ N strict map map' s',
    serProperty P N strict ⟨name, .structArray members count⟩ buffer map s = (.ok map', s') →
      ∃ values, map' = map ++ [(name, .seq values)] ∧
        MapsOf (fun element s => structSer P N strict element members 0 [] s) elements values
  /-- In lenient mode, it is written. -/
  lenient : ∀ N map, ∃ map',
    serProperty P N false ⟨name, .structArray members count⟩ buffer map s = (.ok map', s)

theorem writtenAsCounted_of_sized {dataStart : Option ℕ} {s : ParserState}
    (hs : Walked P dataStart s ∧ Sized P s) {k size total : ℕ} {name : String}
    {members : List Property} {count : PropertyCount} {buffer : Slice} {remaining : List UInt8}
    (hk : s.cache.slices[k]? = some ⟨⟨name, .structArray members count⟩, buffer⟩)
    (hlocal : findPropertySize P.target P.record.pointerSize ⟨name, .structArray members count⟩
      (s.cache.slices.take k) remaining = .ok (.size size))
    (hexact : exactSize P.record.pointerSize ⟨name, .structArray members count⟩
      (s.cache.slices.take k) remaining = some total) (htotal : total ≤ P.target.usizeMax) :
    ∃ n elements, WrittenAsCounted P s k name members count buffer n elements := by
  obtain ⟨hwalked, hsized⟩ := hs
  obtain ⟨remaining', hsize⟩ := hsized k _ hk
  have hbuffer : buffer.len = size := hsize size hlocal
  obtain ⟨elem, n, hsum, hcount, rfl⟩ := findPropertySize_structArray hlocal
  obtain ⟨n', hn', hmap⟩ := Option.bind_eq_some_iff.mp hexact
  obtain ⟨elem', helem', rfl⟩ := Option.map_eq_some_iff.mp hmap
  obtain rfl : n = n' := by
    rw [exactCount_of_elementCount hcount] at hn'
    exact Option.some.inj hn'
  -- a sum that does not fit can only be the size of no elements
  have hmul : elem * n = elem' * n := by
    by_cases hn : n = 0
    · rw [hn, Nat.mul_zero, Nat.mul_zero]
    · have hone : elem' ≤ elem' * n := Nat.le_mul_of_pos_right _ (Nat.pos_of_ne_zero hn)
      rw [sumFixedSizes_eq_exact hsum helem' (by omega), Nat.zero_add]
  rw [hmul] at hbuffer
  have hlen : buffer.len ≤ P.target.usizeMax := hbuffer.trans_le htotal
  obtain ⟨elements, hlength, hsizes, hcons, heach⟩ :=
    exists_elements hlen hsum helem' (by rw [hbuffer, Nat.mul_comm])
  rw [Nat.mul_comm, ← hbuffer] at hcons
  have hresolved := resolveStructCount_eq hwalked hcount
  have hser : ∀ N strict map, serProperty P N strict ⟨name, .structArray members count⟩ buffer map
      s = andThen (serEach (fun element s => structSer P N strict element members 0 [] s) elements
        [] s) fun value s => (.ok (map ++ [(name, .seq value)]), s) := by
    intro N strict map
    rw [serProperty, hresolved, andThen_ok]
    dsimp only
    rw [heach]
  refine ⟨n, elements, hcount, ⟨elem', helem', hbuffer⟩, hresolved, hlength, hcons, ?_, ?_, ?_⟩
  · have hbytes := (hcons.flatMap_bytes (Nat.zero_le _)).2.2
    rwa [List.drop_zero, Slice.len, List.take_length] at hbytes
  · intro N strict map map' s' h
    rw [hser] at h
    obtain ⟨seq, s₁, hseq, hrest⟩ := andThen_eq_ok_iff.mp h
    cases hrest
    obtain ⟨values, hvalues, hmaps⟩ := mapsOf_of_serEach hseq
    rw [hvalues, List.nil_append]
    exact ⟨values, rfl, hmaps⟩
  · intro N map
    have hroom : n * elem' ≤ buffer.len := by rw [hbuffer, Nat.mul_comm]
    obtain ⟨seq, hseq⟩ := serElements_returns_of_room hlen hsum helem' hroom
      (fun element s => structSer P N false element members 0 [] s) fun x hx hxlen =>
        structSer_of_fixedSizes 0 [] s hsum helem' (by omega) (by omega) hxlen
    rw [heach] at hseq
    rw [hser, hseq, andThen_ok]
    exact ⟨_, rfl⟩

/-- **Parser and serializer agree on structure arrays.** Whatever was called before, a structure
array that was located without TDH and whose size is a `usize` is written with as many elements as
the walk counted. They lie one behind the other, and take up all of its bytes. -/
theorem struct_array_elements (target : Target)
    (tdh : List Property → Property → Except TdhNativeError UInt32) (record : EventRecord)
    (schema : Schema) (calls : List Call) :
    let P := Parser.create target tdh record schema
    let s := CallMachine.after P.call (Parser.createState record schema) calls
    ∀ (k : ℕ) (name : String) (members : List Property) (count : PropertyCount) (buffer : Slice)
      (remaining : List UInt8) (size total : ℕ),
      s.cache.slices[k]? = some ⟨⟨name, .structArray members count⟩, buffer⟩ →
      findPropertySize target record.pointerSize ⟨name, .structArray members count⟩
        (s.cache.slices.take k) remaining = .ok (.size size) →
      exactSize record.pointerSize ⟨name, .structArray members count⟩ (s.cache.slices.take k)
        remaining = some total → total ≤ target.usizeMax →
      ∃ n elements, WrittenAsCounted P s k name members count buffer n elements := by
  intro P s k name members count buffer remaining size total hk hlocal hexact htotal
  have hstart : Walked P (propertyValuesStart record schema) (Parser.createState record schema) ∧
      Sized P (Parser.createState record schema) :=
    ⟨.create P record schema, fun i slice hslice => by cases hslice⟩
  have hs := ((P.sized_keeps _).after hstart calls).1
  exact writtenAsCounted_of_sized hs hk hlocal hexact htotal

/-- Two elements of a byte each, counted by the property before them. -/
theorem struct_array_elements_items :
    let record : EventRecord := ⟨0, 0, [2, 9, 8, 7], by decide, []⟩
    let members : List Property := [⟨"Id", .value .inTypeUInt8 .outTypeNull (.length 0)⟩]
    let schema : Schema := ⟨.decodingSourceXMLFile,
      [⟨"Count", .value .inTypeUInt8 .outTypeNull (.length 0)⟩,
        ⟨"Items", .structArray members (.index 0)⟩]⟩
    let P := Parser.create ⟨.b32, true⟩ (fun _ _ => .error .allocationError) record schema
    let s := CallMachine.after P.call (Parser.createState record schema) [.find "Items"]
    ∃ n elements, WrittenAsCounted P s 1 "Items" members (.index 0) ⟨1, [9, 8]⟩ n elements := by
  intro record members schema P s
  exact struct_array_elements ⟨.b32, true⟩ (fun _ _ => .error .allocationError) record schema
    [.find "Items"] 1 "Items" members (.index 0) ⟨1, [9, 8]⟩ [] 2 2 rfl rfl rfl (by decide)

end Ferrisetw2
