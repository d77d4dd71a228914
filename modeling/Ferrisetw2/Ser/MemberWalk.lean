import Ferrisetw2.Ser.Serialize

/-!
# The member walk

`StructSer::serialize` and `StructArraySer::element_end` step from one member to the next in the
same way. `memberWalk` is the walk they share: the slices it locates, and how it ends. Where a
member is found is a statement about the walk, and the serializer writes what the walk has located.

## The two sizings

A member is sized by `member_buffer`, and the documentation of `variable_member_size` has it mirror
the sizing of the parser's buffer walk. What it sizes, it sizes alike (`member_buffer_agrees`). The
other direction fails for five kinds of properties, which `Property.Mirrored` leaves out.

## Main definitions

* `memberWalk`, `serLocated` — locating the members, and writing what was located
* `Property.Mirrored` — the member walk has the route on which the buffer walk sizes the property
* `LocatedBy` — the members as the buffer walk would locate them

## Main results

* `elementEnd_eq_memberWalk`, `structSer_eq_serLocated` — both users of the walk
* `member_walk_mirrors_iff` — which members the walk locates
-/

namespace Ferrisetw2

open Rust

/-! ### The walk -/

/-- The members located from an offset on, and where this ends: past the last one, at a member that
cannot be located, or by unwinding. -/
def memberWalk (t : Target) (pointerSize : ℕ) (bytes : Slice) :
    List Property → ℕ → List Slice × Checked (Option ℕ)
  | [], offset => ([], .ok (some offset))
  | member :: members, offset =>
    match memberBuffer t pointerSize member bytes offset with
    | .error p => ([], .error p)
    | .ok none => ([], .ok none)
    | .ok (some (buffer, offset)) =>
      (buffer :: (memberWalk t pointerSize bytes members offset).1,
        (memberWalk t pointerSize bytes members offset).2)

/-- `element_end` is where the walk ends. -/
theorem elementEnd_eq_memberWalk (t : Target) (pointerSize : ℕ) (bytes : Slice)
    (members : List Property) (offset : ℕ) :
    elementEnd t pointerSize bytes members offset =
      (memberWalk t pointerSize bytes members offset).2 := by
  induction members generalizing offset with
  | nil => rfl
  | cons member members ih =>
    rw [elementEnd, memberWalk]
    cases memberBuffer t pointerSize member bytes offset with
    | error p => rfl
    | ok located =>
      cases located with
      | none => rfl
      | some next => exact ih next.2

/-- Each member is written from its slice. Where the slices run out the walk has ended, and the
members left are nulls. -/
def serLocated (P : Parser) (N : Natives) (strict : Bool) (stop : Checked (Option ℕ)) :
    List Property → List Slice → SerMap → ParserState → Outcome SerError SerMap × ParserState
  | [], _, map, s => (.ok map, s)
  | member :: members, buffer :: slices, map, s =>
    andThen (serProperty P N strict member buffer map s) fun map s =>
      serLocated P N strict stop members slices map s
  | member :: members, [], map, s =>
    match stop with
    | .error p => (.error (.panic p), s)
    | .ok _ => (.ok ((member :: members).foldl (fun map m => nullEntry map m.name) map), s)

/-- **A structure is written from the slices of the walk.** -/
theorem structSer_eq_serLocated (P : Parser) (N : Natives) (strict : Bool) (bytes : Slice) :
    ∀ (members : List Property) (offset : ℕ) (map : SerMap) (s : ParserState),
      structSer P N strict bytes members offset map s =
        serLocated P N strict (memberWalk P.target P.record.pointerSize bytes members offset).2
          members (memberWalk P.target P.record.pointerSize bytes members offset).1 map s
  | [], _, map, s => by rw [structSer, serLocated]
  | member :: members, offset, map, s => by
    rw [structSer, memberWalk]
    cases memberBuffer P.target P.record.pointerSize member bytes offset with
    | error p => rfl
    | ok located =>
      cases located with
      | none => rfl
      | some next =>
        show andThen _ _ = serLocated P N strict _ _ (_ :: _) map s
        rw [serLocated]
        congr 1
        funext map s
        exact structSer_eq_serLocated P N strict bytes members next.2 map s

/-! ### One member -/

/-- The member walk has the route on which the buffer walk sizes the property. A length by reference
hides the size of any value and of any array element, but for pointers; so does a literal length the
size of a value that ignores it, and a zero length that of an IPv6 address in a `BINARY`, and that
of an empty array of elements without a size of their own. -/
def Property.Mirrored (p : Property) : Prop :=
  match p.info with
  | .value inType outType (.length l) => inType.isPointer = true ∨
    (inType.isContentSized = true → l = 0) ∧
      ¬ (inType = .inTypeBinary ∧ outType = .outTypeIpv6 ∧ l = 0)
  | .value inType _ (.index _) => inType.isPointer = true
  | .array inType _ (.length l) _ => inType.isPointer = true ∨ 0 < l ∨ inType.fixedSize ≠ none
  | .array inType _ (.index _) _ => inType.isPointer = true
  | .struct _ | .structArray _ _ | .unsupported _ => True

/-- Without bytes to read it from, the size is that of the in type, an IPv6 address, or unknown. -/
theorem sizeFromContent_of_not_leadingSized {t : Target} {inType : TdhInType}
    (h : ¬ inType.LeadingSized) (outType : TdhOutType) (remaining : List UInt8) :
    sizeFromContent t inType outType remaining =
      if inType = .inTypeBinary ∧ outType = .outTypeIpv6 then .ok (.size 16)
      else .ok (sizeFromInType inType) := by
  cases inType <;> first
    | exact absurd (Or.inl rfl) h
    | exact absurd (Or.inr (Or.inl rfl)) h
    | exact absurd (Or.inr (Or.inr rfl)) h
    | simp [sizeFromContent]

theorem TdhInType.LeadingSized.fixedSize {inType : TdhInType} (h : inType.LeadingSized) :
    inType.fixedSize = none := by
  obtain h | rfl | rfl := h
  · cases inType <;> first | rfl | contradiction
  · rfl
  · rfl

/-- A value with a literal length, sized by the schema or by its in type. -/
theorem memberSize_of_exactValueSize {t : Target} {pointerSize : ℕ} {name : String}
    {inType : TdhInType} {outType : TdhOutType} {length : PropertyLength} {n : ℕ}
    (h : exactValueSize pointerSize inType length = some n) (bytes : Slice) (offset : ℕ) :
    memberSize t pointerSize ⟨name, .value inType outType length⟩ bytes offset = .ok (some n) := by
  rw [memberSize, Property.fixedSize, valueFixedSize_eq, h]
  rfl

/-- A value the schema does not size. -/
theorem memberSize_of_exactValueSize_none {t : Target} {pointerSize : ℕ} {name : String}
    {inType : TdhInType} {outType : TdhOutType} {length : PropertyLength} {bytes remaining : Slice}
    {offset : ℕ} (h : exactValueSize pointerSize inType length = none)
    (hfrom : bytes.getFrom offset = some remaining) :
    memberSize t pointerSize ⟨name, .value inType outType length⟩ bytes offset =
      variableMemberSize t ⟨name, .value inType outType length⟩ remaining.bytes := by
  rw [memberSize, Property.fixedSize, valueFixedSize_eq, h]
  simp only [bind_ok, hfrom]

/-- A value sized by its in type alone. The IPv6 address is not sized by the member walk. -/
theorem memberSize_value_of_not_leadingSized {t : Target} {pointerSize : ℕ} (name : String)
    {inType : TdhInType} {outType : TdhOutType} {bytes remaining : Slice} {offset n : ℕ}
    (hptr : ¬ inType.isPointer = true) (hnot : ¬ inType.LeadingSized)
    (hfrom : bytes.getFrom offset = some remaining)
    (h : sizeFromContent t inType outType remaining.bytes = .ok (.size n)) :
    (Property.Mirrored ⟨name, .value inType outType (.length 0)⟩ →
      memberSize t pointerSize ⟨name, .value inType outType (.length 0)⟩ bytes offset =
        .ok (some n)) ∧
    (¬ Property.Mirrored ⟨name, .value inType outType (.length 0)⟩ →
      memberSize t pointerSize ⟨name, .value inType outType (.length 0)⟩ bytes offset =
        .ok none) := by
  have hexact : exactValueSize pointerSize inType (.length 0) = inType.fixedSize := by
    rw [exactValueSize, if_neg hptr]
    exact if_neg fun hpos => absurd hpos.1 (by decide)
  rw [sizeFromContent_of_not_leadingSized hnot] at h
  by_cases hip : inType = .inTypeBinary ∧ outType = .outTypeIpv6
  · obtain ⟨rfl, rfl⟩ := hip
    refine ⟨fun hm => ?_, fun _ => ?_⟩
    · obtain hm | ⟨-, hm⟩ := hm
      · contradiction
      · exact absurd ⟨rfl, rfl, rfl⟩ hm
    · rw [memberSize_of_exactValueSize_none hexact hfrom]
      rfl
  · rw [if_neg hip] at h
    have hsize : inType.fixedSize = some n := by
      unfold sizeFromInType at h
      split at h
      · rename_i size hsize
        cases h
        exact hsize
      · cases h
    rw [hsize] at hexact
    exact ⟨fun _ => memberSize_of_exactValueSize hexact bytes offset,
      fun hm => absurd (Or.inr ⟨fun _ => rfl, fun hbin => hip ⟨hbin.1, hbin.2.1⟩⟩) hm⟩

/-- A value sized by its first bytes. The member walk takes no literal length with it. -/
theorem memberSize_value_of_leadingSized {t : Target} {pointerSize : ℕ} (name : String)
    {inType : TdhInType} {outType : TdhOutType} {l : UInt16} {bytes remaining : Slice}
    {offset n : ℕ} (hptr : ¬ inType.isPointer = true)
    (hl : ¬ (0 < l ∧ inType.isContentSized = false)) (hleading : inType.LeadingSized)
    (hvariable : variableValueSize t inType remaining.bytes = .ok (some n))
    (hfrom : bytes.getFrom offset = some remaining) :
    (Property.Mirrored ⟨name, .value inType outType (.length l)⟩ →
      memberSize t pointerSize ⟨name, .value inType outType (.length l)⟩ bytes offset =
        .ok (some n)) ∧
    (¬ Property.Mirrored ⟨name, .value inType outType (.length l)⟩ →
      memberSize t pointerSize ⟨name, .value inType outType (.length l)⟩ bytes offset =
        .ok none) := by
  have hexact : exactValueSize pointerSize inType (.length l) = none := by
    rw [exactValueSize, if_neg hptr]
    exact (if_neg hl).trans hleading.fixedSize
  rw [memberSize_of_exactValueSize_none hexact hfrom]
  show (_ → (if l = 0 then variableValueSize t inType remaining.bytes else .ok none) = _) ∧
    (_ → (if l = 0 then variableValueSize t inType remaining.bytes else .ok none) = _)
  rw [hvariable]
  by_cases hzero : l = 0
  · rw [if_pos hzero]
    refine ⟨fun _ => rfl, fun hm => absurd (Or.inr ⟨fun _ => hzero, ?_⟩) hm⟩
    rintro ⟨rfl, -⟩
    obtain hc | hc | hc := hleading <;> contradiction
  · rw [if_neg hzero]
    refine ⟨fun hm => ?_, fun _ => rfl⟩
    have hc : inType.isContentSized = true := by
      simpa using fun hc => hl ⟨UInt16.pos_iff_ne_zero.mpr hzero, hc⟩
    obtain hm | hm := hm
    · exact absurd hm hptr
    · exact absurd (hm.1 hc) hzero

/-- **A value the buffer walk sizes** is sized by the member walk on the routes that walk has. -/
theorem memberSize_value {t : Target} {pointerSize : ℕ} (name : String) {inType : TdhInType}
    {outType : TdhOutType} {length : PropertyLength} {bytes remaining : Slice} {offset n : ℕ}
    (hfrom : bytes.getFrom offset = some remaining)
    (h : valueSize t pointerSize inType outType length [] remaining.bytes = .ok (.size n)) :
    (Property.Mirrored ⟨name, .value inType outType length⟩ →
      memberSize t pointerSize ⟨name, .value inType outType length⟩ bytes offset = .ok (some n)) ∧
    (¬ Property.Mirrored ⟨name, .value inType outType length⟩ →
      memberSize t pointerSize ⟨name, .value inType outType length⟩ bytes offset = .ok none) := by
  unfold valueSize at h
  by_cases hptr : inType.isPointer = true
  · rw [if_pos hptr] at h
    cases h
    have hexact : exactValueSize pointerSize inType length = some pointerSize := if_pos hptr
    refine ⟨fun _ => memberSize_of_exactValueSize hexact bytes offset, fun hnot => absurd ?_ hnot⟩
    cases length with
    | length l => exact Or.inl hptr
    | index i => exact hptr
  rw [if_neg hptr] at h
  cases length with
  | index i =>
    have hexact : exactValueSize pointerSize inType (.index i) = none := if_neg hptr
    exact ⟨fun hm => absurd hm hptr, fun _ => memberSize_of_exactValueSize_none hexact hfrom⟩
  | length l =>
    by_cases hl : 0 < l ∧ inType.isContentSized = false
    · -- the schema gives the size
      simp only [if_pos hl, TdhInType.literalSchemaLengthBytes_eq, bind_ok] at h
      cases h
      have hexact : exactValueSize pointerSize inType (.length l) =
          some (inType.lengthUnit * l.toNat) := by
        rw [exactValueSize, if_neg hptr]
        exact if_pos hl
      refine ⟨fun _ => memberSize_of_exactValueSize hexact bytes offset, fun hnot => absurd ?_ hnot⟩
      refine Or.inr ⟨fun hc => ?_, fun hipv6 => ?_⟩
      · rw [hl.2] at hc
        contradiction
      · rw [hipv6.2.2] at hl
        exact absurd hl.1 (by decide)
    simp only [if_neg hl] at h
    obtain ⟨hnot, -⟩ | ⟨hleading, hvariable⟩ :=
      variableValueSize_eq t inType outType remaining.bytes
    · -- nothing is read from the bytes
      have hc : inType.isContentSized = false := by
        simpa using fun hc => hnot (Or.inl hc)
      have hzero : l = 0 := by
        by_contra hne
        exact hl ⟨UInt16.pos_iff_ne_zero.mpr hne, hc⟩
      subst hzero
      exact memberSize_value_of_not_leadingSized name hptr hnot hfrom h
    · rw [h] at hvariable
      exact memberSize_value_of_leadingSized name hptr hl hleading hvariable hfrom

/-- An array is sized by the schema or not at all. -/
theorem memberSize_array_eq {t : Target} {pointerSize : ℕ} (name : String) (inType : TdhInType)
    (outType : TdhOutType) (length : PropertyLength) (count : PropertyCount)
    {bytes remaining : Slice} {offset : ℕ} (hfrom : bytes.getFrom offset = some remaining) :
    memberSize t pointerSize ⟨name, .array inType outType length count⟩ bytes offset =
      .ok (boundedProduct t.usizeBits (exactElemSize pointerSize inType length) count) := by
  rw [memberSize, Property.fixedSize, arrayFixedSize_eq, bind_ok]
  cases boundedProduct t.usizeBits (exactElemSize pointerSize inType length) count with
  | some size => rfl
  | none =>
    simp only [hfrom]
    rfl

/-- The element sizes of the schema are those of the routes the member walk has. -/
theorem exactElemSize_of_mirrored {t : Target} {pointerSize : ℕ} (name : String)
    {inType : TdhInType} (outType : TdhOutType) {length : PropertyLength} (count : PropertyCount)
    {elem : Option ℕ} (h : elemSize t pointerSize inType length [] = .ok elem) :
    (Property.Mirrored ⟨name, .array inType outType length count⟩ →
      elem ≠ none ∧ exactElemSize pointerSize inType length = elem) ∧
    (¬ Property.Mirrored ⟨name, .array inType outType length count⟩ →
      exactElemSize pointerSize inType length = none) := by
  unfold elemSize at h
  unfold exactElemSize
  by_cases hptr : inType.isPointer = true
  · rw [if_pos hptr] at h ⊢
    cases h
    refine ⟨fun _ => ⟨nofun, rfl⟩, fun hnot => absurd ?_ hnot⟩
    cases length with
    | length l => exact Or.inl hptr
    | index i => exact hptr
  rw [if_neg hptr] at h ⊢
  cases length with
  | index i => exact ⟨fun hm => absurd hm hptr, fun _ => rfl⟩
  | length l =>
    simp only [TdhInType.literalSchemaLengthBytes_eq, bind_ok] at h
    by_cases hl : l = 0
    · subst hl
      rw [if_pos rfl] at h
      cases h
      refine ⟨fun hm => ⟨?_, rfl⟩, fun hm => ?_⟩
      · obtain hm | hm | hm := hm
        · exact absurd hm hptr
        · exact absurd hm (by decide)
        · exact hm
      · by_contra hne
        exact hm (Or.inr (Or.inr hne))
    · have hpos : 0 < l := UInt16.pos_iff_ne_zero.mpr hl
      rw [if_neg hl] at h
      cases h
      exact ⟨fun _ => ⟨nofun, if_pos hpos⟩, fun hm => absurd (Or.inr (Or.inl hpos)) hm⟩

/-- With nothing parsed before, only a literal count is known. -/
theorem elementCount_nil_eq_some {t : Target} {count : PropertyCount} {n : ℕ}
    (h : elementCount t count [] = some n) : ∃ c, count = .count c ∧ n = c.toNat := by
  cases count with
  | count c => exact ⟨c, rfl, (Option.some.inj h).symm⟩
  | index i => contradiction

/-- **An array the buffer walk sizes** is sized by the member walk on the routes that walk has. -/
theorem memberSize_array {t : Target} {pointerSize : ℕ} (name : String) {inType : TdhInType}
    (outType : TdhOutType) {length : PropertyLength} {count : PropertyCount}
    {bytes remaining : Slice} {offset n : ℕ} (hfrom : bytes.getFrom offset = some remaining)
    (h : arraySize t pointerSize inType length count [] = .ok (.size n)) :
    (Property.Mirrored ⟨name, .array inType outType length count⟩ →
      memberSize t pointerSize ⟨name, .array inType outType length count⟩ bytes offset =
        .ok (some n)) ∧
    (¬ Property.Mirrored ⟨name, .array inType outType length count⟩ →
      memberSize t pointerSize ⟨name, .array inType outType length count⟩ bytes offset =
        .ok none) := by
  obtain ⟨elem, helem, h⟩ := bind_eq_ok_iff.mp h
  cases hcount : elementCount t count [] with
  | none =>
    rw [hcount] at h
    cases h
  | some m =>
    obtain ⟨c, rfl, rfl⟩ := elementCount_nil_eq_some hcount
    rw [hcount] at h
    rw [memberSize_array_eq name inType outType length (.count c) hfrom]
    obtain ⟨hmirrored, hnot⟩ := exactElemSize_of_mirrored name outType (.count c) helem
    refine ⟨fun hm => ?_, fun hm => ?_⟩
    · obtain ⟨hne, hexact⟩ := hmirrored hm
      obtain ⟨size, rfl⟩ := Option.ne_none_iff_exists'.mp hne
      rw [hexact, ← checkedMul_eq_boundedProduct]
      dsimp only [Option.bind_some] at h
      cases hmul : t.checkedMul size c.toNat with
      | some total =>
        rw [hmul] at h
        cases h
        rfl
      | none =>
        -- a product that is no `usize` is not zero
        have hc : c.toNat ≠ 0 := by
          intro hzero
          rw [Target.checkedMul, hzero, Nat.mul_zero, if_pos (Nat.zero_le _)] at hmul
          contradiction
        rw [hmul, if_neg hc] at h
        cases h
    · rw [hnot hm]
      rfl

/-! ### Any member -/

/-- **What the buffer walk sizes with nothing parsed before, the member walk sizes alike on the
routes it has**, and cannot size on the others. -/
theorem memberSize_of_findPropertySize {t : Target} {pointerSize : ℕ} {p : Property}
    {bytes remaining : Slice} {offset n : ℕ} (hfrom : bytes.getFrom offset = some remaining)
    (h : findPropertySize t pointerSize p [] remaining.bytes = .ok (.size n)) :
    (p.Mirrored → memberSize t pointerSize p bytes offset = .ok (some n)) ∧
      (¬ p.Mirrored → memberSize t pointerSize p bytes offset = .ok none) := by
  have hfixed : p.Mirrored → p.fixedSize t pointerSize = .ok (some n) →
      (p.Mirrored → memberSize t pointerSize p bytes offset = .ok (some n)) ∧
        (¬ p.Mirrored → memberSize t pointerSize p bytes offset = .ok none) := by
    intro hm hfixed
    rw [memberSize, hfixed]
    exact ⟨fun _ => rfl, fun hnot => absurd hm hnot⟩
  obtain ⟨name, info⟩ := p
  cases info with
  | value inType outType length => exact memberSize_value name hfrom h
  | array inType outType length count => exact memberSize_array name outType hfrom h
  | struct members =>
    refine hfixed trivial ?_
    obtain ⟨fixed, hfixed, h⟩ := bind_eq_ok_iff.mp h
    cases fixed with
    | none => cases h
    | some size =>
      cases h
      exact hfixed
  | structArray members count =>
    refine hfixed trivial ?_
    obtain ⟨fixed, hfixed, h⟩ := bind_eq_ok_iff.mp h
    cases fixed with
    | some size =>
      cases h
      exact hfixed
    | none =>
      cases count with
      | count c => cases h
      | index i =>
        -- the count travels by reference, and there is nothing to refer to
        obtain ⟨elem, -, h⟩ := bind_eq_ok_iff.mp h
        cases elem <;> cases h
  | unsupported length =>
    cases length with
    | index i => cases h
    | length l =>
      refine hfixed trivial ?_
      simp only [findPropertySize] at h
      rw [Property.fixedSize]
      split at h
      · rename_i hl
        cases h
        rw [if_pos hl]
      · cases h

/-- A sized member is sliced out where there is room for it. -/
theorem memberBuffer_of_memberSize {t : Target} {pointerSize : ℕ} {member : Property}
    {bytes remaining buffer : Slice} {offset : ℕ} (hlen : bytes.len ≤ t.usizeMax)
    (hfrom : bytes.getFrom offset = some remaining)
    (hto : remaining.getTo buffer.len = some buffer)
    (hsize : memberSize t pointerSize member bytes offset = .ok (some buffer.len)) :
    memberBuffer t pointerSize member bytes offset =
      .ok (some (buffer, offset + buffer.len)) := by
  have hle := (Slice.getRange_eq_some_iff.mp (Slice.getRange_of_getTo hfrom hto)).1.2
  have hadd : t.add offset buffer.len = .ok (offset + buffer.len) := Target.add_of_le (by omega)
  rw [memberBuffer, hsize, bind_ok]
  simp only [hfrom, Option.bind_some, hto, hadd, bind_ok]

theorem memberBuffer_of_memberSize_none {t : Target} {pointerSize : ℕ} {member : Property}
    {bytes : Slice} {offset : ℕ}
    (hsize : memberSize t pointerSize member bytes offset = .ok none) :
    memberBuffer t pointerSize member bytes offset = .ok none := by
  rw [memberBuffer, hsize]
  rfl

/-! ### All members -/

/-- The slices at which the buffer walk would locate the members, each with nothing parsed before
and without TDH. -/
def LocatedBy (t : Target) (pointerSize : ℕ) (bytes : Slice) :
    List Property → ℕ → List Slice → Prop
  | [], _, slices => slices = []
  | member :: members, offset, slices => ∃ remaining buffer rest, slices = buffer :: rest ∧
    bytes.getFrom offset = some remaining ∧
    findPropertySize t pointerSize member [] remaining.bytes = .ok (.size buffer.len) ∧
    remaining.getTo buffer.len = some buffer ∧
    LocatedBy t pointerSize bytes members (offset + buffer.len) rest

theorem memberWalk_fst_of_locatedBy {t : Target} {pointerSize : ℕ} {bytes : Slice}
    (hlen : bytes.len ≤ t.usizeMax) : ∀ {members : List Property} {offset : ℕ}
      {slices : List Slice}, LocatedBy t pointerSize bytes members offset slices →
      ((memberWalk t pointerSize bytes members offset).1 = slices ↔ ∀ m ∈ members, m.Mirrored)
  | [], _, _, h => by
    obtain rfl := h
    exact ⟨fun _ => nofun, fun _ => rfl⟩
  | member :: members, offset, slices, h => by
    obtain ⟨remaining, buffer, rest, rfl, hfrom, hsize, hto, hrest⟩ := h
    obtain ⟨hmirrored, hnot⟩ := memberSize_of_findPropertySize hfrom hsize
    rw [memberWalk, List.forall_mem_cons]
    by_cases hm : member.Mirrored
    · rw [memberBuffer_of_memberSize hlen hfrom hto (hmirrored hm)]
      simp only [List.cons.injEq, true_and, hm]
      exact memberWalk_fst_of_locatedBy hlen hrest
    · rw [memberBuffer_of_memberSize_none (hnot hm)]
      exact ⟨fun hnil => (nomatch hnil), fun hall => absurd hall.1 hm⟩

/-- **Which members the walk locates.** Where the buffer walk sizes a member without TDH and its
bytes are there, the member walk returns these bytes if and only if it has the route. So it locates
all members of a structure, sized in this way, if and only if it has the route for each. -/
theorem member_walk_mirrors_iff (t : Target) (pointerSize : ℕ) (bytes : Slice) (offset : ℕ)
    (hlen : bytes.len ≤ t.isizeMax) :
    (∀ (p : Property) (remaining buffer : Slice), bytes.getFrom offset = some remaining →
      findPropertySize t pointerSize p [] remaining.bytes = .ok (.size buffer.len) →
      remaining.getTo buffer.len = some buffer →
      (memberBuffer t pointerSize p bytes offset = .ok (some (buffer, offset + buffer.len)) ↔
        p.Mirrored)) ∧
    ∀ (members : List Property) (slices : List Slice),
      LocatedBy t pointerSize bytes members offset slices →
      ((memberWalk t pointerSize bytes members offset).1 = slices ↔
        ∀ m ∈ members, m.Mirrored) := by
  have hmax := Nat.le_trans hlen t.isizeMax_le
  refine ⟨fun p remaining buffer hfrom hsize hto => ?_,
    fun members slices h => memberWalk_fst_of_locatedBy hmax h⟩
  obtain ⟨hmirrored, hnot⟩ := memberSize_of_findPropertySize hfrom hsize
  constructor
  · intro hbuffer
    by_contra hm
    rw [memberBuffer_of_memberSize_none (hnot hm)] at hbuffer
    cases hbuffer
  · intro hm
    exact memberBuffer_of_memberSize hmax hfrom hto (hmirrored hm)

/-- A counted string and a number, behind a byte. -/
theorem member_walk_mirrors_iff_counted :
    let bytes : Slice := ⟨0, [7, 2, 0, 104, 105, 9]⟩
    let name : Property := ⟨"Name", .value .inTypeCountedAnsiString .outTypeNull (.length 0)⟩
    let tag : Property := ⟨"Tag", .value .inTypeUInt8 .outTypeNull (.length 0)⟩
    (memberBuffer ⟨.b32, true⟩ 4 name bytes 1 = .ok (some (⟨1, [2, 0, 104, 105]⟩, 5)) ↔
      name.Mirrored) ∧
    ((memberWalk ⟨.b32, true⟩ 4 bytes [name, tag] 1).1 =
        [⟨1, [2, 0, 104, 105]⟩, ⟨5, [9]⟩] ↔ ∀ m ∈ [name, tag], m.Mirrored) := by
  intro bytes name tag
  obtain ⟨hone, hall⟩ := member_walk_mirrors_iff ⟨.b32, true⟩ 4 bytes 1 (by decide)
  exact ⟨hone name ⟨1, [2, 0, 104, 105, 9]⟩ ⟨1, [2, 0, 104, 105]⟩ rfl rfl rfl,
    hall [name, tag] _ ⟨_, _, _, rfl, rfl, rfl, rfl, _, _, _, rfl, rfl, rfl, rfl, rfl⟩⟩

/-- The buffer walk sizes each of these members with nothing parsed before, and the member walk
locates none of them: a number and a counted string whose lengths another property holds, a counted
string with a literal length, an IPv6 address, and an array of numbers whose length another property
holds. -/
theorem member_walk_misses :
    let bytes : Slice := ⟨0, [2, 0, 104, 105, 0, 0, 0, 0, 0, 0, 0, 0, 0, 0, 0, 0]⟩
    let missed (info : PropertyInfo Property) (size : ℕ) : Prop :=
      findPropertySize ⟨.b64, true⟩ 8 ⟨"Member", info⟩ [] bytes.bytes = .ok (.size size) ∧
        size ≤ bytes.len ∧ memberBuffer ⟨.b64, true⟩ 8 ⟨"Member", info⟩ bytes 0 = .ok none
    missed (.value .inTypeUInt32 .outTypeNull (.index 0)) 4 ∧
      missed (.value .inTypeCountedAnsiString .outTypeNull (.index 0)) 4 ∧
      missed (.value .inTypeCountedAnsiString .outTypeNull (.length 4)) 4 ∧
      missed (.value .inTypeBinary .outTypeIpv6 (.length 0)) 16 ∧
      missed (.array .inTypeUInt32 .outTypeNull (.index 0) (.count 2)) 8 := by
  intro bytes missed
  refine ⟨?_, ?_, ?_, ?_, ?_⟩
  all_goals exact ⟨rfl, by decide, rfl⟩

end Ferrisetw2
