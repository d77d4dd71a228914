import Ferrisetw2.Ser.Serialize

/-!
# Arrays of integers

An array is sized by one rule and decoded by another. The width of an element, when the array is
sized, comes from the in type or from a declared length; when it is decoded, from the handler, which
the out type may have selected. The decoder takes any number of bytes that it can divide, so where
the two widths differ it regroups the bytes instead of failing.

Decoding reinterprets the bytes in place. It asks for an address that is aligned to the element, and
rejects others.

## Main definitions

* `PropHandler.elementType`, `arrayElementType` — the integers an array is decoded as
* `ShowsInteger` — a value is the integer stored in these bytes
* `Parser.deliveredAt`, `AlignedAlike` — an event at another address

## Main results

* `array_elements_iff` — when the elements written are those that were sized
* `array_decoding_alignment` — what decoding sees of an address
-/

namespace Ferrisetw2

open Rust

/-! ### Decoding -/

/-- What a decoded array is, and what was checked. -/
theorem tryParsePrimitiveArray_eq_ok {t : Target} {userData : ℕ} {ty : Primitive}
    {slice : PropertySlice} {values : List Scalar}
    (h : tryParsePrimitiveArray t userData ty slice = .ok values) :
    slice.buffer.len % ty.size = 0 ∧ (userData + slice.buffer.start) % ty.size = 0 ∧
      values = (elements ty.size (slice.buffer.len / ty.size) slice.buffer.bytes).map
        ty.fromNeBytes := by
  unfold tryParsePrimitiveArray at h
  split at h
  · split at h
    · contradiction
    rename_i hlen
    split at h
    · contradiction
    rename_i haddr
    dsimp only at h
    split at h
    · contradiction
    split at h
    · contradiction
    cases h
    exact ⟨by simpa using hlen, by simpa using haddr, rfl⟩
  · contradiction

theorem length_elements (size count : ℕ) (bytes : List UInt8) :
    (elements size count bytes).length = count := by
  rw [elements, List.length_map, List.length_range]

theorem getElem?_elements {size count j : ℕ} (hj : j < count) (bytes : List UInt8) :
    (elements size count bytes)[j]? = some (range (j * size) ((j + 1) * size) bytes) := by
  rw [elements, List.getElem?_map, List.getElem?_range hj]
  rfl

/-- An element within the bytes has its size. -/
theorem length_range_element {size count j : ℕ} (hj : j < count) {bytes : List UInt8}
    (hlen : bytes.length = size * count) :
    (range (j * size) ((j + 1) * size) bytes).length = size := by
  have hle : (j + 1) * size ≤ bytes.length := by
    rw [hlen, Nat.mul_comm size]
    exact Nat.mul_le_mul_right size hj
  rw [range, List.length_drop, List.length_take_of_le hle, Nat.succ_mul, Nat.add_sub_cancel_left]

/-! ### Handlers -/

/-- The integers the handler of an array decodes. -/
def PropHandler.elementType (pointerSize : ℕ) : PropHandler → Option Primitive
  | .arrayInt16 => some .i16
  | .arrayUInt16 => some .u16
  | .arrayInt32 => some .i32
  | .arrayUInt32 | .arrayHexInt32 => some .u32
  | .arrayInt64 => some .i64
  | .arrayUInt64 | .arrayHexInt64 => some .u64
  | .arrayPointer | .arrayHexPointer => some (if pointerSize = 4 then .u32 else .u64)
  | _ => none

/-- The integers an array property is decoded as. -/
def arrayElementType (pointerSize : ℕ) (info : PropertyInfo Property) : Option Primitive :=
  info.getParser.bind (PropHandler.elementType pointerSize)

/-- The types of array elements. -/
def Primitive.IsElement (ty : Primitive) : Prop :=
  ty = .i16 ∨ ty = .u16 ∨ ty = .i32 ∨ ty = .u32 ∨ ty = .i64 ∨ ty = .u64

/-- The value is the integer stored in these bytes, as a number or in hexadecimal. -/
def ShowsInteger (v : SerValue) (bytes : List UInt8) : Prop :=
  ∃ ty : Primitive, ty.IsElement ∧ ty.size = bytes.length ∧
    (v = scalarValue (ty.fromNeBytes bytes) ∨ v = hexDisplay (ty.fromNeBytes bytes))

/-- The handler of an array writes the elements one by one. -/
theorem serFromBytes_array (N : Natives) {handler : PropHandler} {pointerSize : ℕ}
    {ty : Primitive} (h : handler.elementType pointerSize = some ty) :
    ty.IsElement ∧ ∃ toValue : Scalar → SerValue,
      (toValue = scalarValue ∨ toValue = hexDisplay) ∧
      ∀ P : Parser, P.record.pointerSize = pointerSize → ∀ prop buffer map,
        handler.serFromBytes P N prop buffer map =
          propSer (fun vs => .seq (vs.map toValue))
            (parsed (tryParsePrimitiveArray P.target P.record.userData ty ⟨prop, buffer⟩)) prop.name
            map := by
  cases handler with
  | arrayInt16 | arrayUInt16 | arrayInt32 | arrayUInt32 | arrayInt64 | arrayUInt64 =>
    cases h
    exact ⟨by simp [Primitive.IsElement], scalarValue, Or.inl rfl, fun _ _ _ _ _ => rfl⟩
  | arrayHexInt32 | arrayHexInt64 =>
    cases h
    exact ⟨by simp [Primitive.IsElement], hexDisplay, Or.inr rfl, fun _ _ _ _ _ => rfl⟩
  | arrayPointer =>
    cases h
    refine ⟨by split <;> simp [Primitive.IsElement], scalarValue, Or.inl rfl, ?_⟩
    rintro P rfl prop buffer map
    rw [PropHandler.serFromBytes]
    split <;> rfl
  | arrayHexPointer =>
    cases h
    refine ⟨by split <;> simp [Primitive.IsElement], hexDisplay, Or.inr rfl, ?_⟩
    rintro P rfl prop buffer map
    rw [PropHandler.serFromBytes]
    split <;> rfl
  | _ => contradiction

theorem Primitive.size_pos (ty : Primitive) : 0 < ty.size := by
  cases ty <;> decide

/-- Every handler selected for an array decodes integers. -/
theorem exists_elementType_of_getParser (pointerSize : ℕ) {inType : TdhInType}
    {outType : TdhOutType} {length : PropertyLength} {count : PropertyCount}
    {handler : PropHandler}
    (h : (PropertyInfo.array inType outType length count).getParser = some handler) :
    ∃ ty, handler.elementType pointerSize = some ty := by
  simp only [PropertyInfo.getParser] at h
  split at h
  · cases h
    exact ⟨_, rfl⟩
  · cases h
    exact ⟨_, rfl⟩
  · unfold TdhInType.getArrayParser at h
    split at h
    iterate 8
      · cases h
        exact ⟨_, rfl⟩
    iterate 2
      · split at h <;> (cases h; exact ⟨_, rfl⟩)
    · contradiction

/-- An array that is written is the decoded one. -/
theorem serProperty_array_eq_seq {P : Parser} {N : Natives} {strict : Bool} {name : String}
    {inType : TdhInType} {outType : TdhOutType} {length : PropertyLength} {count : PropertyCount}
    {buffer : Slice} {map : SerMap} {s s' : ParserState} {values : List SerValue}
    (h : serProperty P N strict ⟨name, .array inType outType length count⟩ buffer map s =
      (.ok (map ++ [(name, .seq values)]), s')) :
    ∃ (ty : Primitive) (toValue : Scalar → SerValue) (vs : List Scalar),
      arrayElementType P.record.pointerSize (.array inType outType length count) = some ty ∧
      ty.IsElement ∧ (toValue = scalarValue ∨ toValue = hexDisplay) ∧
      tryParsePrimitiveArray P.target P.record.userData ty
        ⟨⟨name, .array inType outType length count⟩, buffer⟩ = .ok vs ∧
      values = vs.map toValue := by
  obtain ⟨hvalue, -⟩ := Prod.mk.inj h
  rw [serValue] at hvalue
  -- a null is no array
  have hnull : map ++ [(name, .null)] ≠ map ++ [(name, .seq values)] := by
    simp
  cases hparser : (PropertyInfo.array inType outType length count).getParser with
  | none =>
    rw [hparser] at hvalue
    dsimp only at hvalue
    split at hvalue
    · contradiction
    · exact absurd (Except.ok.inj hvalue) hnull
  | some handler =>
    obtain ⟨ty, hty⟩ := exists_elementType_of_getParser P.record.pointerSize hparser
    obtain ⟨helement, toValue, hshow, hser⟩ := serFromBytes_array N hty
    simp only [hparser, hser P rfl] at hvalue
    refine ⟨ty, toValue, ?_⟩
    cases hvs : tryParsePrimitiveArray P.target P.record.userData ty
        ⟨⟨name, .array inType outType length count⟩, buffer⟩ with
    | error e =>
      simp only [hvs, parsed, propSer] at hvalue
      split at hvalue
      · contradiction
      · exact absurd (Except.ok.inj hvalue) hnull
    | ok vs =>
      simp only [hvs, parsed, propSer] at hvalue
      refine ⟨vs, by rw [arrayElementType, hparser]; exact hty, helement, hshow, rfl, ?_⟩
      simpa using (Except.ok.inj hvalue).symm

/-! ### Widths -/

/-- What the walk multiplied. -/
theorem size_of_arraySize {t : Target} {pointerSize : ℕ} {inType : TdhInType}
    {length : PropertyLength} {count : PropertyCount} {parsed : List PropertySlice} {w n size : ℕ}
    (helem : elemSize t pointerSize inType length parsed = .ok (some w))
    (hcount : elementCount t count parsed = some n)
    (h : arraySize t pointerSize inType length count parsed = .ok (.size size)) : size = w * n := by
  rw [arraySize, helem, bind_ok, hcount] at h
  dsimp only [Option.bind_some] at h
  split at h
  · rename_i total hmul
    cases h
    exact (Target.checkedMul_eq_some_iff.mp hmul).1
  · split at h
    · rename_i hzero
      cases h
      rw [hzero, Nat.mul_zero]
    · cases h

/-- **When an array is not regrouped.** Of an array the walk has sized as `n` elements of `w` bytes
each, and that is written as an array: it has `n` elements, each the integer stored in its `w`
bytes, if and only if it is empty or decoded as integers of `w` bytes. -/
theorem array_elements_iff (P : Parser) (N : Natives) (strict : Bool) (name : String)
    (inType : TdhInType) (outType : TdhOutType) (length : PropertyLength) (count : PropertyCount)
    (parsed : List PropertySlice) (remaining : List UInt8) (w n : ℕ) (buffer : Slice)
    (map : SerMap) (s s' : ParserState) (values : List SerValue)
    (helem : elemSize P.target P.record.pointerSize inType length parsed = .ok (some w))
    (hcount : elementCount P.target count parsed = some n)
    (hsize : findPropertySize P.target P.record.pointerSize
      ⟨name, .array inType outType length count⟩ parsed remaining = .ok (.size buffer.len))
    (h : serProperty P N strict ⟨name, .array inType outType length count⟩ buffer map s =
      (.ok (map ++ [(name, .seq values)]), s')) :
    (values.length = n ∧ ∀ j < n, ∃ v, values[j]? = some v ∧
      ShowsInteger v (range (j * w) ((j + 1) * w) buffer.bytes)) ↔
      n = 0 ∨ ∃ ty, arrayElementType P.record.pointerSize (.array inType outType length count) =
        some ty ∧ ty.size = w := by
  have hlen : buffer.len = w * n := size_of_arraySize helem hcount hsize
  obtain ⟨ty, toValue, vs, hty, helement, hshow, hvs, rfl⟩ := serProperty_array_eq_seq h
  obtain ⟨hdiv, -, rfl⟩ := tryParsePrimitiveArray_eq_ok hvs
  rw [List.length_map, List.length_map, length_elements]
  dsimp only
  constructor
  · rintro ⟨hn, -⟩
    rcases Nat.eq_zero_or_pos n with hzero | hpos
    · exact Or.inl hzero
    · refine Or.inr ⟨ty, hty, ?_⟩
      have hprod : ty.size * n = w * n := by
        rw [← hlen, ← hn]
        exact Nat.mul_div_cancel' (Nat.dvd_of_mod_eq_zero hdiv)
      exact Nat.eq_of_mul_eq_mul_right hpos hprod
  · rintro (rfl | ⟨ty', hty', hw⟩)
    · rw [hlen, Nat.mul_zero, Nat.zero_div]
      exact ⟨rfl, fun j hj => absurd hj (Nat.not_lt_zero j)⟩
    · obtain rfl := Option.some.inj (hty.symm.trans hty')
      subst hw
      have hn : buffer.len / ty.size = n := by
        rw [hlen, Nat.mul_div_cancel_left n ty.size_pos]
      rw [hn]
      refine ⟨rfl, fun j hj => ?_⟩
      rw [List.getElem?_map, List.getElem?_map, getElem?_elements hj]
      refine ⟨_, rfl, ty, helement, (length_range_element hj hlen).symm, ?_⟩
      obtain rfl | rfl := hshow
      · exact Or.inl rfl
      · exact Or.inr rfl

/-- A record of these bytes, at an address that suits every element. -/
def alignedRecord (bytes : List UInt8) (h : bytes.length ≤ 65535) : EventRecord :=
  ⟨0, 0, bytes, h, []⟩

/-- Two 32-bit numbers shown in hexadecimal, as the out type asks. -/
theorem array_elements_iff_hex :
    let P := Parser.create ⟨.b64, true⟩ (fun _ _ => .error .allocationError)
      (alignedRecord [68, 51, 34, 17, 8, 0, 0, 0] (by decide)) ⟨.decodingSourceXMLFile, []⟩
    let values : List SerValue := [.leaf (.string "0x11223344"), .leaf (.string "0x8")]
    let buffer : Slice := ⟨0, [68, 51, 34, 17, 8, 0, 0, 0]⟩
    (values.length = 2 ∧ ∀ j < 2, ∃ v, values[j]? = some v ∧
      ShowsInteger v (range (j * 4) ((j + 1) * 4) buffer.bytes)) ↔
      2 = 0 ∨ ∃ ty, arrayElementType P.record.pointerSize
        (.array .inTypeUInt32 .outTypeHexInt32 (.length 4) (.count 2)) = some ty ∧ ty.size = 4 := by
  exact array_elements_iff _ ⟨fun _ => "", fun _ => .ok ""⟩ true "Ids" .inTypeUInt32
    .outTypeHexInt32 (.length 4) (.count 2) [] [] 4 2 _ [] ⟨⟨[], 0, 0, some 0⟩, []⟩ _ _ rfl rfl rfl
    rfl

/-- Two 16-bit numbers with a 32-bit hexadecimal out type are written as one number, and two 32-bit
numbers with a declared length of 2, which take four bytes then, as one number too. -/
theorem array_regrouped :
    let P := Parser.create ⟨.b64, true⟩ (fun _ _ => .error .allocationError)
      (alignedRecord [1, 0, 2, 0] (by decide)) ⟨.decodingSourceXMLFile, []⟩
    let s := Parser.createState P.record ⟨.decodingSourceXMLFile, []⟩
    let N : Natives := ⟨fun _ => "", fun _ => .ok ""⟩
    let hex : Property := ⟨"Ids", .array .inTypeUInt16 .outTypeHexInt32 (.length 0) (.count 2)⟩
    let short : Property := ⟨"Ids", .array .inTypeUInt32 .outTypeNull (.length 2) (.count 2)⟩
    (elemSize P.target 8 .inTypeUInt16 (.length 0) [] = .ok (some 2) ∧
      findPropertySize P.target 8 hex [] [1, 0, 2, 0] = .ok (.size 4) ∧
      (serProperty P N true hex ⟨0, [1, 0, 2, 0]⟩ [] s).1 =
        .ok [("Ids", .seq [.leaf (.string "0x20001")])]) ∧
    elemSize P.target 8 .inTypeUInt32 (.length 2) [] = .ok (some 2) ∧
      findPropertySize P.target 8 short [] [1, 0, 2, 0] = .ok (.size 4) ∧
      (serProperty P N true short ⟨0, [1, 0, 2, 0]⟩ [] s).1 =
        .ok [("Ids", .seq [.leaf (.scalar ⟨.u32, 131073⟩)])] := by
  exact ⟨⟨rfl, rfl, rfl⟩, rfl, rfl, rfl⟩

/-! ### Addresses -/

/-- What decoding an array comes to, wherever its bytes are. -/
theorem tryParsePrimitiveArray_eq {t : Target} {ty : Primitive} {bytes : List UInt8}
    (hdiv : bytes.length % ty.size = 0) (hlen : bytes.length ≤ 65535) (name : String)
    (inType : TdhInType) (outType : TdhOutType) (length : PropertyLength) (count : PropertyCount)
    (userData start : ℕ) :
    tryParsePrimitiveArray t userData ty
        ⟨⟨name, .array inType outType length count⟩, ⟨start, bytes⟩⟩ =
      if (userData + start) % ty.size = 0 then
        .ok ((elements ty.size (bytes.length / ty.size) bytes).map ty.fromNeBytes)
      else .error (.propertyError "buffer alignment mismatch") := by
  have hmul : ty.size * (bytes.length / ty.size) = bytes.length :=
    Nat.mul_div_cancel' (Nat.dvd_of_mod_eq_zero hdiv)
  have hmax : 65535 ≤ t.isizeMax := by
    have := Nat.div_le_div_right t.usizeMax_ge (c := 2)
    exact le_trans (by decide) this
  have hchecked : t.checkedMul ty.size (bytes.length / ty.size) = some bytes.length := by
    rw [Target.checkedMul_of_le, hmul]
    rw [hmul]
    exact le_trans hlen (le_trans hmax t.isizeMax_le)
  have hroom : ¬t.isizeMax < bytes.length := Nat.not_lt.mpr (le_trans hlen hmax)
  unfold tryParsePrimitiveArray
  simp only [Slice.len, hdiv, ne_eq, not_true_eq_false, if_false, hchecked, if_neg hroom]
  exact ite_not _ _ _

/-- The same event, delivered at another address. -/
def Parser.deliveredAt (P : Parser) (userData : ℕ) : Parser :=
  { P with record := { P.record with userData := userData } }

/-- Two addresses of the user buffer align the property alike, when it is an array. -/
def AlignedAlike (pointerSize u₁ u₂ : ℕ) (p : Property) : Prop :=
  ∀ ty, arrayElementType pointerSize p.info = some ty → u₁ % ty.size = u₂ % ty.size

/-- An array is decoded alike at addresses that align it alike. -/
theorem tryParsePrimitiveArray_congr {t : Target} {u₁ u₂ : ℕ} {ty : Primitive}
    (h : u₁ % ty.size = u₂ % ty.size) (slice : PropertySlice) :
    tryParsePrimitiveArray t u₁ ty slice = tryParsePrimitiveArray t u₂ ty slice := by
  have haddr : (u₁ + slice.buffer.start) % ty.size = (u₂ + slice.buffer.start) % ty.size :=
    Nat.add_mod_eq_add_mod_right slice.buffer.start h
  unfold tryParsePrimitiveArray
  rw [haddr]

section Deliveries

variable {P : Parser} {u₁ u₂ : ℕ}

/-- The walk does not see the address. -/
theorem parseMore_deliveredAt (P : Parser) (u n : ℕ) (s : ParserState) :
    (P.deliveredAt u).parseMore n s = P.parseMore n s := by
  induction n generalizing s with
  | zero => rfl
  | succ n ih =>
    rw [Parser.parseMore, Parser.parseMore]
    simp only [ih]
    rfl

theorem propertyBytesAt_deliveredAt (P : Parser) (u index : ℕ) (s : ParserState) :
    (P.deliveredAt u).propertyBytesAt index s = P.propertyBytesAt index s := by
  rw [Parser.propertyBytesAt, parseMore_deliveredAt]
  rfl

theorem resolveStructCount_deliveredAt (P : Parser) (u : ℕ) (count : PropertyCount)
    (s : ParserState) :
    resolveStructCount (P.deliveredAt u) count s = resolveStructCount P count s := by
  cases count with
  | count c => rfl
  | index i =>
    simp only [resolveStructCount, propertyBytesAt_deliveredAt]
    rfl

/-- A handler sees the address in arrays alone. -/
theorem serFromBytes_deliveredAt (N : Natives) {handler : PropHandler}
    (h : ∀ ty, handler.elementType P.record.pointerSize = some ty → u₁ % ty.size = u₂ % ty.size)
    (prop : Property) (buffer : Slice) (map : SerMap) :
    handler.serFromBytes (P.deliveredAt u₁) N prop buffer map =
      handler.serFromBytes (P.deliveredAt u₂) N prop buffer map := by
  cases hty : handler.elementType P.record.pointerSize with
  | some ty =>
    obtain ⟨-, toValue, -, hser⟩ := serFromBytes_array N hty
    rw [hser (P.deliveredAt u₁) rfl, hser (P.deliveredAt u₂) rfl]
    exact congrArg (fun r => propSer _ (parsed r) prop.name map)
      (tryParsePrimitiveArray_congr (h ty hty) _)
  | none =>
    cases handler with
    | arrayInt16 | arrayUInt16 | arrayInt32 | arrayUInt32 | arrayInt64 | arrayUInt64
    | arrayHexInt32 | arrayHexInt64 | arrayPointer | arrayHexPointer => contradiction
    | _ => rfl

theorem serValue_deliveredAt (N : Natives) (strict : Bool) {prop : Property}
    (h : AlignedAlike P.record.pointerSize u₁ u₂ prop) (buffer : Slice) (map : SerMap) :
    serValue (P.deliveredAt u₁) N strict prop buffer map =
      serValue (P.deliveredAt u₂) N strict prop buffer map := by
  rw [serValue, serValue]
  cases hparser : prop.info.getParser with
  | none => rfl
  | some handler =>
    have hhandler : ∀ ty, handler.elementType P.record.pointerSize = some ty →
        u₁ % ty.size = u₂ % ty.size := fun ty hty =>
      h ty (by rw [arrayElementType, hparser]; exact hty)
    simp only [serFromBytes_deliveredAt N hhandler]

mutual

theorem serProperty_deliveredAt (N : Natives) (strict : Bool) : ∀ {p : Property},
    p.Every (AlignedAlike P.record.pointerSize u₁ u₂) → ∀ (buffer : Slice) (map : SerMap)
      (s : ParserState), serProperty (P.deliveredAt u₁) N strict p buffer map s =
        serProperty (P.deliveredAt u₂) N strict p buffer map s
  | ⟨name, .struct members⟩, h, buffer, map, s => by
    rw [serProperty, serProperty, structSer_deliveredAt N strict h.2]
  | ⟨name, .structArray members count⟩, h, buffer, map, s => by
    rw [serProperty, serProperty, resolveStructCount_deliveredAt, resolveStructCount_deliveredAt]
    simp only [structSer_deliveredAt N strict h.2]
    rfl
  | ⟨name, .value inType outType length⟩, h, buffer, map, s => by
    rw [serProperty, serProperty, serValue_deliveredAt N strict h]
  | ⟨name, .array inType outType length count⟩, h, buffer, map, s => by
    rw [serProperty, serProperty, serValue_deliveredAt N strict h]
  | ⟨name, .unsupported length⟩, h, buffer, map, s => by
    rw [serProperty, serProperty, serValue_deliveredAt N strict h]

theorem structSer_deliveredAt (N : Natives) (strict : Bool) : ∀ {members : List Property},
    EveryMember (AlignedAlike P.record.pointerSize u₁ u₂) members → ∀ (bytes : Slice) (offset : ℕ)
      (map : SerMap) (s : ParserState),
      structSer (P.deliveredAt u₁) N strict bytes members offset map s =
        structSer (P.deliveredAt u₂) N strict bytes members offset map s
  | [], _, _, _, _, _ => by rw [structSer, structSer]
  | member :: members, h, bytes, offset, map, s => by
    rw [structSer, structSer]
    simp only [serProperty_deliveredAt N strict h.1, structSer_deliveredAt N strict h.2]
    rfl

end

theorem eventEntries_deliveredAt (N : Natives) (strict : Bool) {props : List Property}
    (h : EveryMember (AlignedAlike P.record.pointerSize u₁ u₂) props) (index : ℕ) (map : SerMap)
    (s : ParserState) :
    eventEntries (P.deliveredAt u₁) N strict props index map s =
      eventEntries (P.deliveredAt u₂) N strict props index map s := by
  induction props generalizing index map s with
  | nil => rfl
  | cons p props ih =>
    rw [eventEntries, eventEntries, propertyBytesAt_deliveredAt, propertyBytesAt_deliveredAt]
    simp only [serProperty_deliveredAt N strict h.1, ih h.2]

end Deliveries

/-- **Decoding sees the address of an array through its alignment alone.** The elements are those of
the bytes wherever the array is aligned, and it is rejected elsewhere; two deliveries of an event at
addresses that align its arrays alike are serialized identically. -/
theorem array_decoding_alignment (P : Parser) (N : Natives) (strict : Bool) (s : ParserState) :
    (∀ (ty : Primitive) (name : String) (inType : TdhInType) (outType : TdhOutType)
        (length : PropertyLength) (count : PropertyCount) (bytes : List UInt8), ty.IsElement →
      bytes.length % ty.size = 0 → bytes.length ≤ 65535 → ∀ userData start,
        tryParsePrimitiveArray P.target userData ty
            ⟨⟨name, .array inType outType length count⟩, ⟨start, bytes⟩⟩ =
          if (userData + start) % ty.size = 0 then
            .ok ((elements ty.size (bytes.length / ty.size) bytes).map ty.fromNeBytes)
          else .error (.propertyError "buffer alignment mismatch")) ∧
      ∀ u₁ u₂, EveryMember (AlignedAlike P.record.pointerSize u₁ u₂) P.properties →
        eventSer (P.deliveredAt u₁) N strict s = eventSer (P.deliveredAt u₂) N strict s := by
  constructor
  · intro ty name inType outType length count bytes _ hdiv hlen userData start
    exact tryParsePrimitiveArray_eq hdiv hlen name inType outType length count userData start
  · intro u₁ u₂ h
    rw [eventSer, eventSer]
    exact congrArg (andThen · _) (eventEntries_deliveredAt N strict h 0 [] s)

/-- A record of a byte and two 32-bit numbers, delivered at the address 3 and at the address 7. -/
theorem array_decoding_alignment_packed :
    let schema : Schema := ⟨.decodingSourceXMLFile,
      [⟨"Kind", .value .inTypeUInt8 .outTypeNull (.length 0)⟩,
        ⟨"Ids", .array .inTypeUInt32 .outTypeNull (.length 0) (.count 2)⟩]⟩
    let record := alignedRecord [1, 7, 0, 0, 0, 8, 0, 0, 0] (by decide)
    let P := Parser.create ⟨.b64, true⟩ (fun _ _ => .error .allocationError) record schema
    let N : Natives := ⟨fun _ => "", fun _ => .ok ""⟩
    tryParsePrimitiveArray P.target 3 .u32
        ⟨⟨"Ids", .array .inTypeUInt32 .outTypeNull (.length 0) (.count 2)⟩,
          ⟨1, [7, 0, 0, 0, 8, 0, 0, 0]⟩⟩ = .ok [⟨.u32, 7⟩, ⟨.u32, 8⟩] ∧
      eventSer (P.deliveredAt 3) N false (Parser.createState record schema) =
        eventSer (P.deliveredAt 7) N false (Parser.createState record schema) := by
  intro schema record P N
  obtain ⟨hdecode, hserialize⟩ :=
    array_decoding_alignment P N false (Parser.createState record schema)
  constructor
  · exact hdecode .u32 "Ids" .inTypeUInt32 .outTypeNull (.length 0) (.count 2)
      [7, 0, 0, 0, 8, 0, 0, 0] (by simp [Primitive.IsElement]) rfl (by decide) 3 1
  · refine hserialize 3 7 ⟨nofun, ?_, trivial⟩
    rintro ty ⟨⟩
    rfl

/-- Two 32-bit numbers at an address that no 32-bit number may have are a null in the event, and
strings where they may. -/
theorem array_misaligned :
    let schema : Schema := ⟨.decodingSourceXMLFile,
      [⟨"Ids", .array .inTypeUInt32 .outTypeHexInt32 (.length 0) (.count 2)⟩]⟩
    let record := alignedRecord [7, 0, 0, 0, 8, 0, 0, 0] (by decide)
    let P := Parser.create ⟨.b64, true⟩ (fun _ _ => .error .allocationError) record schema
    let N : Natives := ⟨fun _ => "", fun _ => .ok ""⟩
    let slice : PropertySlice :=
      ⟨⟨"Ids", .array .inTypeUInt32 .outTypeHexInt32 (.length 0) (.count 2)⟩,
        ⟨0, [7, 0, 0, 0, 8, 0, 0, 0]⟩⟩
    (tryParsePrimitiveArray P.target 4 .u32 slice = .ok [⟨.u32, 7⟩, ⟨.u32, 8⟩] ∧
      tryParsePrimitiveArray P.target 5 .u32 slice =
        .error (.propertyError "buffer alignment mismatch")) ∧
    (eventSer (P.deliveredAt 4) N false (Parser.createState record schema)).1 =
        .ok (.map [("Ids", .seq [.leaf (.string "0x7"), .leaf (.string "0x8")])]) ∧
      (eventSer (P.deliveredAt 5) N false (Parser.createState record schema)).1 =
        .ok (.map [("Ids", .null)]) := by
  exact ⟨⟨rfl, rfl⟩, rfl, rfl⟩

end Ferrisetw2
