import Ferrisetw2.Lib.Buffers
import Ferrisetw2.Native.Guids
import Ferrisetw2.Parser.Strings
import Ferrisetw2.Ser.SelfSized
import Ferrisetw2.Ser.Serialize

/-!
# What the bytes of a value mean

How a producer spells a value of an in type, from the documented layouts, next to what is to be
written for it: a number is written as a number, or in hexadecimal where a type asks for that, a
string as a string, an address as an address. The handler the schema selects, and the decoder that
it calls, have to come to the same. `ser.rs`, `parser.rs`, `socket_address.rs`.

## Main definitions

* `SockaddrSpells` — the bytes of a socket address
* `ValueSpells`, `ArraySpells` — the bytes of a value or an array, and what is written for them

## Main results

* `serValue_of_spells`, `serValue_of_arraySpells` — **what was spelled is written**, in either mode
-/

namespace Ferrisetw2

open Rust

/-! ### Structured values in memory -/

/-- A `FILETIME`. -/
def FileTime.bytes (ft : FileTime) : List UInt8 :=
  leBytes 4 ft.dwLowDateTime.toNat ++ leBytes 4 ft.dwHighDateTime.toNat

/-- A `SYSTEMTIME`. -/
def SystemTime.bytes (st : SystemTime) : List UInt8 :=
  unitBytes [st.wYear, st.wMonth, st.wDayOfWeek, st.wDay, st.wHour, st.wMinute, st.wSecond,
    st.wMilliseconds]

/-- A number in network order. -/
def beBytes (width n : ℕ) : List UInt8 := (leBytes width n).reverse

/-- The bytes of a `sockaddr`: the family in host order, the rest in network order. What a family
does not use is not looked at. -/
inductive SockaddrSpells : List UInt8 → TdhSocketAddress → Prop where
  | inet {port ip rest} (hport : port < 256 ^ 2) (hip : ip.length = 4) (hrest : 8 ≤ rest.length) :
      SockaddrSpells (leBytes 2 2 ++ (beBytes 2 port ++ (ip ++ rest))) (.ipv4 ip port)
  | inet6 {port flowInfo ip scopeId rest} (hport : port < 256 ^ 2) (hflow : flowInfo < 256 ^ 4)
      (hip : ip.length = 16) (hscope : scopeId < 256 ^ 4) :
      SockaddrSpells
        (leBytes 2 23 ++ (beBytes 2 port ++ (beBytes 4 flowInfo ++ (ip ++
          (beBytes 4 scopeId ++ rest)))))
        (.ipv6 ip port flowInfo scopeId)
  /-- Another family, or too few bytes for the one it claims. -/
  | other {family : UInt16} {rest : List UInt8} (h4 : family = 2 → rest.length < 14)
      (h6 : family = 23 → rest.length < 26) :
      SockaddrSpells (leBytes 2 family.toNat ++ rest)
        (.other (.fromU16 family) (leBytes 2 family.toNat ++ rest))

theorem length_beBytes (width n : ℕ) : (beBytes width n).length = width := by
  rw [beBytes, List.length_reverse, length_leBytes]

theorem beValue_beBytes {width n : ℕ} (h : n < 256 ^ width) : beValue (beBytes width n) = n := by
  rw [beValue, beBytes, List.reverse_reverse, leValue_leBytes h]

theorem FileTime.fromSlice_bytes (ft : FileTime) : FileTime.fromSlice ft.bytes = ft := by
  show FileTime.mk (UInt32.ofNat (leValue (leBytes 4 ft.dwLowDateTime.toNat)))
    (UInt32.ofNat (leValue (leBytes 4 ft.dwHighDateTime.toNat))) = ft
  rw [leValue_leBytes ft.dwLowDateTime.toNat_lt, leValue_leBytes ft.dwHighDateTime.toNat_lt,
    UInt32.ofNat_toNat, UInt32.ofNat_toNat]

theorem u16_leBytes (u : UInt16) : UInt16.ofNat (leValue (leBytes 2 u.toNat)) = u := by
  rw [leValue_leBytes u.toNat_lt, UInt16.ofNat_toNat]

theorem SystemTime.fromSlice_bytes (st : SystemTime) : SystemTime.fromSlice st.bytes = st := by
  let read (u : UInt16) : UInt16 := UInt16.ofNat (leValue (leBytes 2 u.toNat))
  show SystemTime.mk (read st.wYear) (read st.wMonth) (read st.wDayOfWeek) (read st.wDay)
    (read st.wHour) (read st.wMinute) (read st.wSecond) (read st.wMilliseconds) = st
  simp only [read, u16_leBytes]

theorem AddressFamily.fromU16_eq_inet {raw : UInt16} (h : fromU16 raw = .inet) : raw = 2 := by
  unfold fromU16 at h
  split at h
  · cases h
  · split at h
    · assumption
    · split at h <;> cases h

theorem AddressFamily.fromU16_eq_inet6 {raw : UInt16} (h : fromU16 raw = .inet6) : raw = 23 := by
  unfold fromU16 at h
  split at h
  · cases h
  · split at h
    · cases h
    · split at h
      · assumption
      · cases h

/-- **A socket address is read as it was spelled.** -/
theorem SockaddrSpells.fromPropertyBuffer {bytes : List UInt8} {address : TdhSocketAddress}
    (h : SockaddrSpells bytes address) :
    TdhSocketAddress.fromPropertyBuffer bytes = .ok address := by
  have hfamily : ∀ (n : ℕ) (rest : List UInt8),
      take? 2 (leBytes 2 n ++ rest) = some (leBytes 2 n) := fun n rest =>
    take?_append (length_leBytes 2 n) rest
  cases h with
  | @inet port ip rest hport hip hrest =>
    have hrange : range 4 8 (leBytes 2 2 ++ (beBytes 2 port ++ (ip ++ rest))) = ip := by
      rw [show range 4 8 = range (2 + (2 + 0)) (2 + (2 + 4)) from rfl,
        range_append_right (length_leBytes 2 2), range_append_right (length_beBytes 2 port),
        range_append_left hip]
    have hport' : range 2 4 (leBytes 2 2 ++ (beBytes 2 port ++ (ip ++ rest))) = beBytes 2 port := by
      rw [show range 2 4 = range (2 + 0) (2 + 2) from rfl,
        range_append_right (length_leBytes 2 2), range_append_left (length_beBytes 2 port)]
    have hlength : 16 ≤ (leBytes 2 2 ++ (beBytes 2 port ++ (ip ++ rest))).length := by
      simp only [List.length_append, length_leBytes, length_beBytes, hip]
      omega
    rw [TdhSocketAddress.fromPropertyBuffer, hfamily]
    dsimp only
    rw [if_pos ⟨rfl, hlength⟩, hrange, hport', beValue_beBytes hport]
  | @inet6 port flowInfo ip scopeId rest hport hflow hip hscope =>
    let buffer : List UInt8 := leBytes 2 23 ++ (beBytes 2 port ++ (beBytes 4 flowInfo ++ (ip ++
      (beBytes 4 scopeId ++ rest))))
    have h2 := length_leBytes 2 23
    have hp := length_beBytes 2 port
    have hf := length_beBytes 4 flowInfo
    have hport' : range 2 4 buffer = beBytes 2 port := by
      rw [show range 2 4 = range (2 + 0) (2 + 2) from rfl, range_append_right h2,
        range_append_left hp]
    have hflow' : range 4 8 buffer = beBytes 4 flowInfo := by
      rw [show range 4 8 = range (2 + (2 + 0)) (2 + (2 + 4)) from rfl, range_append_right h2,
        range_append_right hp, range_append_left hf]
    have hip' : range 8 24 buffer = ip := by
      rw [show range 8 24 = range (2 + (2 + (4 + 0))) (2 + (2 + (4 + 16))) from rfl,
        range_append_right h2, range_append_right hp, range_append_right hf, range_append_left hip]
    have hscope' : range 24 28 buffer = beBytes 4 scopeId := by
      rw [show range 24 28 = range (2 + (2 + (4 + (16 + 0)))) (2 + (2 + (4 + (16 + 4)))) from rfl,
        range_append_right h2, range_append_right hp, range_append_right hf, range_append_right hip,
        range_append_left (length_beBytes 4 scopeId)]
    have hlength : 28 ≤ buffer.length := by
      simp only [buffer, List.length_append, length_leBytes, length_beBytes, hip]
      omega
    show TdhSocketAddress.fromPropertyBuffer buffer = _
    rw [TdhSocketAddress.fromPropertyBuffer, hfamily]
    dsimp only
    rw [if_neg, if_pos ⟨rfl, hlength⟩, hport', hflow', hip', hscope', beValue_beBytes hport,
      beValue_beBytes hflow, beValue_beBytes hscope]
    rintro ⟨hfam, -⟩
    cases hfam
  | @other family rest h4 h6 =>
    have hlength : (leBytes 2 family.toNat ++ rest).length = 2 + rest.length := by
      rw [List.length_append, length_leBytes]
    rw [TdhSocketAddress.fromPropertyBuffer, hfamily]
    dsimp only
    rw [u16_leBytes, if_neg, if_neg]
    · rintro ⟨hinet, hroom⟩
      have hrest := h6 (AddressFamily.fromU16_eq_inet6 hinet)
      omega
    · rintro ⟨hinet, hroom⟩
      have hrest := h4 (AddressFamily.fromU16_eq_inet hinet)
      omega

/-! ### Values -/

/-- The number an in type holds. -/
def TdhInType.primitive : TdhInType → Option Primitive
  | .inTypeInt8 => some .i8
  | .inTypeUInt8 => some .u8
  | .inTypeInt16 => some .i16
  | .inTypeUInt16 => some .u16
  | .inTypeInt32 => some .i32
  | .inTypeUInt32 => some .u32
  | .inTypeInt64 => some .i64
  | .inTypeUInt64 => some .u64
  | .inTypeFloat => some .f32
  | .inTypeDouble => some .f64
  | _ => none

/-- The out type leaves the format to the in type. -/
def TdhOutType.isPlain : TdhOutType → Bool
  | .outTypeIpv4 | .outTypeIpv6 | .outTypeSocketAddress | .outTypeUtf8 => false
  | .outTypeHexInt32 | .outTypeHexInt64 => false
  | _ => true

/-- A number that is to be written in hexadecimal. -/
inductive ShownInHex : TdhInType → TdhOutType → Primitive → Prop where
  | outHex32 {inType} : ShownInHex inType .outTypeHexInt32 .u32
  | outHex64 {inType} : ShownInHex inType .outTypeHexInt64 .u64
  | inHex32 {outType} (h : outType.isPlain = true) : ShownInHex .inTypeHexInt32 outType .u32
  | inHex64 {outType} (h : outType.isPlain = true) : ShownInHex .inTypeHexInt64 outType .u64

/-- An address of the event's producer. -/
def addressType (pointerSize : ℕ) : Primitive := if pointerSize = 4 then .u32 else .u64

/-- An address is written in hexadecimal, unless an out type says that it is a number. -/
def addressValue (outType : TdhOutType) (v : Scalar) : SerValue :=
  if outType = .outTypeNull then hexDisplay v else scalarValue v

/-- A sequence of bytes. -/
def bytesValue (bytes : List UInt8) : SerValue :=
  scalarsValue (bytes.map fun b => ⟨.u8, b.toNat⟩)

/-- The bytes spell a value of this in and out type and length, behind the properties whose bytes
are `prior`; it is to be written as `v`. -/
inductive ValueSpells (N : Natives) (pointerSize : ℕ) (prior : List (List UInt8)) :
    TdhInType → TdhOutType → PropertyLength → List UInt8 → SerValue → Prop where
  | number {inType outType length ty n} (hty : inType.primitive = some ty)
      (hout : outType.isPlain = true) (hn : n < 256 ^ ty.size) :
      ValueSpells N pointerSize prior inType outType length (leBytes ty.size n)
        (scalarValue ⟨ty, n⟩)
  | hex {inType outType length ty n} (hty : ShownInHex inType outType ty)
      (hn : n < 256 ^ ty.size) :
      ValueSpells N pointerSize prior inType outType length (leBytes ty.size n)
        (hexDisplay ⟨ty, n⟩)
  | address {inType outType length n} (h : PointerLike inType) (hout : outType.isPlain = true)
      (hn : n < 256 ^ pointerSize) :
      ValueSpells N pointerSize prior inType outType length (leBytes pointerSize n)
        (addressValue outType ⟨addressType pointerSize, n⟩)
  /-- Any `BOOL` but zero is true. -/
  | bool {outType length n} (hout : outType.isPlain = true) (hn : n < 256 ^ 4) :
      ValueSpells N pointerSize prior .inTypeBoolean outType length (leBytes 4 n)
        (.leaf (.bool (n != 0)))
  | text {inType outType length s following payload}
      (hout : outType.isPlain = true ∨ outType = .outTypeUtf8)
      (h : LaysOut prior s following inType length payload) :
      ValueSpells N pointerSize prior inType outType length payload (.leaf (.string s))
  /-- One code unit, which is no half of a surrogate pair. -/
  | unicodeChar {outType length s} (hout : outType.isPlain = true)
      (hs : (encodeUtf16 s).length = 1) :
      ValueSpells N pointerSize prior .inTypeUnicodeChar outType length (wideBytes s)
        (.leaf (.string s))
  | ansiChar {outType length s} (hout : outType.isPlain = true) :
      ValueSpells N pointerSize prior .inTypeAnsiChar outType length (utf8Bytes s)
        (.leaf (.string s))
  | sid {inType outType length revision count rest text} (h : SidLike inType)
      (hout : outType.isPlain = true) (hlen : rest.length = 6 + 4 * UInt8.toNat count)
      (htext : N.convertSidToString (revision :: count :: rest) = .ok text) :
      ValueSpells N pointerSize prior inType outType length (revision :: count :: rest)
        (.leaf (.string text))
  | binary {outType length payload} (hout : outType.isPlain = true) :
      ValueSpells N pointerSize prior .inTypeBinary outType length payload (bytesValue payload)
  /-- Bytes behind their number. -/
  | countedBinary {outType length payload} (hout : outType.isPlain = true)
      (hmax : payload.length ≤ 65535) :
      ValueSpells N pointerSize prior .inTypeManifestCountedBinary outType length
        (leBytes 2 payload.length ++ payload) (bytesValue payload)
  | hexDump {outType length payload} (hout : outType.isPlain = true)
      (hmax : payload.length ≤ 65535) :
      ValueSpells N pointerSize prior .inTypeHexDump outType length
        (leBytes 4 payload.length ++ payload) (bytesValue payload)
  | guid {outType length} {guid : Guid} (hout : outType.isPlain = true) :
      ValueSpells N pointerSize prior .inTypeGuid outType length guid.bytes (.leaf (.guid guid))
  | fileTime {outType length} {ft : FileTime} (hout : outType.isPlain = true) :
      ValueSpells N pointerSize prior .inTypeFileTime outType length ft.bytes (.leaf (.fileTime ft))
  | systemTime {outType length} {st : SystemTime} (hout : outType.isPlain = true) :
      ValueSpells N pointerSize prior .inTypeSystemTime outType length st.bytes
        (.leaf (.systemTime st))
  /-- The number of octets tells the versions apart. -/
  | ipv4 {inType outType length octets} (hout : outType = .outTypeIpv4 ∨ outType = .outTypeIpv6)
      (h : octets.length = 4) :
      ValueSpells N pointerSize prior inType outType length octets (.leaf (.ipAddr (.v4 octets)))
  | ipv6 {inType outType length octets} (hout : outType = .outTypeIpv4 ∨ outType = .outTypeIpv6)
      (h : octets.length = 16) :
      ValueSpells N pointerSize prior inType outType length octets (.leaf (.ipAddr (.v6 octets)))
  | socketAddress {inType length payload address} (h : SockaddrSpells payload address) :
      ValueSpells N pointerSize prior inType .outTypeSocketAddress length payload
        (.leaf (.socketAddress address))

/-- The integers an array of an in type holds. Bytes and floats have no array handler. -/
def TdhInType.arrayPrimitive : TdhInType → Option Primitive
  | .inTypeInt16 => some .i16
  | .inTypeUInt16 => some .u16
  | .inTypeInt32 => some .i32
  | .inTypeUInt32 => some .u32
  | .inTypeInt64 => some .i64
  | .inTypeUInt64 => some .u64
  | _ => none

/-- The bytes at this address spell an array, one element behind the other. An address has to be
aligned to the elements. -/
inductive ArraySpells (pointerSize address : ℕ) :
    TdhInType → TdhOutType → List UInt8 → SerValue → Prop where
  | numbers {inType outType ty} {ns : List ℕ} (hty : inType.arrayPrimitive = some ty)
      (hout : outType.isPlain = true) (hns : ∀ n ∈ ns, n < 256 ^ ty.size)
      (halign : address % ty.size = 0) :
      ArraySpells pointerSize address inType outType (ns.flatMap (leBytes ty.size))
        (.seq (ns.map fun n => scalarValue ⟨ty, n⟩))
  | hex {inType outType ty} {ns : List ℕ} (hty : ShownInHex inType outType ty)
      (hns : ∀ n ∈ ns, n < 256 ^ ty.size) (halign : address % ty.size = 0) :
      ArraySpells pointerSize address inType outType (ns.flatMap (leBytes ty.size))
        (.seq (ns.map fun n => hexDisplay ⟨ty, n⟩))
  | addresses {inType outType} {ns : List ℕ} (h : PointerLike inType)
      (hout : outType.isPlain = true) (hns : ∀ n ∈ ns, n < 256 ^ pointerSize)
      (halign : address % pointerSize = 0) :
      ArraySpells pointerSize address inType outType (ns.flatMap (leBytes pointerSize))
        (.seq (ns.map fun n => addressValue outType ⟨addressType pointerSize, n⟩))

/-! ### Handlers -/

section Handlers

variable {P : Parser} {N : Natives} {strict : Bool} {name : String} {inType : TdhInType}
  {outType : TdhOutType} {length : PropertyLength} {start : ℕ} {payload : List UInt8}

theorem getParser_of_isPlain (h : outType.isPlain = true) :
    (PropertyInfo.value inType outType length : PropertyInfo Property).getParser =
      some (inType.getParser outType) := by
  cases outType <;> first | rfl | cases h

theorem getParser_ipAddr (h : outType = .outTypeIpv4 ∨ outType = .outTypeIpv6) :
    (PropertyInfo.value inType outType length : PropertyInfo Property).getParser =
      some .ipAddr := by
  rcases h with rfl | rfl
  · rfl
  · rfl

/-- The entry of the handler is the entry of the value. -/
theorem serValue_of_handler {prop : Property} {buffer : Slice} {map map' : SerMap}
    {handler : PropHandler} (hp : prop.info.getParser = some handler)
    (h : handler.serFromBytes P N prop buffer map = (.ok (), map')) :
    serValue P N strict prop buffer map = .ok map' := by
  rw [serValue, hp]
  dsimp only
  rw [h]

theorem tryParsePrimitive_leBytes {ty : Primitive} {n : ℕ} (hn : n < 256 ^ ty.size) :
    tryParsePrimitive ty ⟨⟨name, .value inType outType length⟩, ⟨start, leBytes ty.size n⟩⟩ =
      .ok ⟨ty, n⟩ := by
  have hlen : ¬ ty.size ≠ Slice.len ⟨start, leBytes ty.size n⟩ := by
    rw [Slice.len, length_leBytes]
    exact fun h => h rfl
  rw [tryParsePrimitive]
  dsimp only
  rw [if_neg hlen, Primitive.fromNeBytes, leValue_leBytes hn]

/-- The handler of an in type that holds a number decodes that number. -/
theorem serFromBytes_of_primitive {ty : Primitive} (hty : inType.primitive = some ty)
    (prop : Property) (buffer : Slice) (map : SerMap) :
    (inType.getParser outType).serFromBytes P N prop buffer map =
      propSer scalarValue (parsed (tryParsePrimitive ty ⟨prop, buffer⟩)) prop.name map := by
  cases inType <;> cases hty <;> rfl

theorem ShownInHex.getParser {ty : Primitive} (h : ShownInHex inType outType ty)
    (length : PropertyLength) : ∃ handler,
    (PropertyInfo.value inType outType length : PropertyInfo Property).getParser = some handler ∧
      ∀ prop buffer map, handler.serFromBytes P N prop buffer map =
        propSer hexDisplay (parsed (tryParsePrimitive ty ⟨prop, buffer⟩)) prop.name map := by
  cases h with
  | outHex32 => exact ⟨.hexInt32, rfl, fun _ _ _ => rfl⟩
  | outHex64 => exact ⟨.hexInt64, rfl, fun _ _ _ => rfl⟩
  | inHex32 h => exact ⟨.hexInt32, getParser_of_isPlain h, fun _ _ _ => rfl⟩
  | inHex64 h => exact ⟨.hexInt64, getParser_of_isPlain h, fun _ _ _ => rfl⟩

theorem size_addressType (record : EventRecord) :
    (addressType record.pointerSize).size = record.pointerSize := by
  rw [addressType, EventRecord.pointerSize]
  split <;> rfl

/-- The handler of an address decodes a number as wide as the producer's pointers. -/
theorem serFromBytes_of_pointerLike (h : PointerLike inType) (prop : Property) (buffer : Slice)
    (map : SerMap) : (inType.getParser outType).serFromBytes P N prop buffer map =
      propSer (addressValue outType)
        (parsed (tryParsePrimitive (addressType P.record.pointerSize) ⟨prop, buffer⟩))
        prop.name map := by
  have hparser : inType.getParser outType =
      if outType = .outTypeNull then .hexPointer else .pointer := by
    rcases h with rfl | rfl <;> rfl
  have haddress : addressValue outType =
      if outType = .outTypeNull then hexDisplay else scalarValue := by
    funext v
    rw [addressValue]
    split <;> rfl
  rw [hparser, haddress, addressType]
  by_cases hnull : outType = .outTypeNull
  · rw [if_pos hnull, if_pos hnull]
    simp only [PropHandler.serFromBytes]
    split <;> rfl
  · rw [if_neg hnull, if_neg hnull]
    simp only [PropHandler.serFromBytes]
    split <;> rfl

/-- In types that a string is laid out for are handled as strings, also where UTF-8 is asked for. -/
theorem LaysOut.getParser {prior : List (List UInt8)} {s : String} {following : List UInt8}
    (h : LaysOut prior s following inType length payload)
    (hout : outType.isPlain = true ∨ outType = .outTypeUtf8) :
    (PropertyInfo.value inType outType length : PropertyInfo Property).getParser =
      some .string := by
  rcases hout with hout | rfl
  · rw [getParser_of_isPlain hout]
    cases h with
    | counted h => rcases h with rfl | rfl <;> rfl
    | countedAnsi h => rcases h with rfl | rfl <;> rfl
    | _ => rfl
  · rfl

theorem tryParseString_sid {t : Target} {revision count : UInt8} {rest : List UInt8}
    {text : String} (h : SidLike inType) (hlen : rest.length = 6 + 4 * count.toNat)
    (htext : N.convertSidToString (revision :: count :: rest) = .ok text) :
    tryParseString t N ⟨⟨name, .value inType outType length⟩,
      ⟨start, revision :: count :: rest⟩⟩ = .ok text := by
  have hroom : 8 + 4 * count.toNat ≤ (revision :: count :: rest).length := by
    rw [List.length_cons, List.length_cons]
    omega
  have hsid : parseSid t N (revision :: count :: rest) = .ok text := by
    rw [parseSid_of_le rfl hroom, htext]
  rcases h with rfl | rfl
  · exact hsid
  · exact hsid

/-- A binary behind its number of bytes. -/
theorem countPrefixedBinary_spelled {t : Target} {width : ℕ} (hwidth : 2 ≤ width)
    (hle : width ≤ 4) (hmax : payload.length ≤ 65535) :
    countPrefixedBinary t (leBytes width payload.length ++ payload) width = .ok payload := by
  have hpow : 256 ^ 2 ≤ 256 ^ width := Nat.pow_le_pow_right (by decide) hwidth
  have hprefix : CountPrefixed width leValue (leBytes width payload.length ++ payload) payload :=
    ⟨_, length_leBytes width _, rfl, leValue_leBytes (by omega)⟩
  have ht := t.usizeMax_ge
  exact countPrefixedBinary_of_countPrefixed hprefix (by omega)

/-- **What was spelled is written**, in either mode. -/
theorem serValue_of_spells (hutf16 : ∀ s, N.decodeUtf16Lossy (encodeUtf16 s) = s)
    {prior : List (List UInt8)} {v : SerValue}
    (h : ValueSpells N P.record.pointerSize prior inType outType length payload v) (map : SerMap) :
    serValue P N strict ⟨name, .value inType outType length⟩ ⟨start, payload⟩ map =
      .ok (map ++ [(name, v)]) := by
  cases h with
  | number hty hout hn =>
    refine serValue_of_handler (getParser_of_isPlain hout) ?_
    rw [serFromBytes_of_primitive hty, tryParsePrimitive_leBytes hn]
    rfl
  | hex hty hn =>
    obtain ⟨handler, hp, hser⟩ := hty.getParser (P := P) (N := N) length
    refine serValue_of_handler hp ?_
    rw [hser, tryParsePrimitive_leBytes hn]
    rfl
  | @address _ _ _ n h hout hn =>
    have hsize := size_addressType P.record
    have hparse : tryParsePrimitive (addressType P.record.pointerSize)
        ⟨⟨name, .value inType outType length⟩,
          ⟨start, leBytes (addressType P.record.pointerSize).size n⟩⟩ =
        .ok ⟨addressType P.record.pointerSize, n⟩ := tryParsePrimitive_leBytes (by rwa [hsize])
    rw [hsize] at hparse
    refine serValue_of_handler (getParser_of_isPlain hout) ?_
    rw [serFromBytes_of_pointerLike h, hparse]
    rfl
  | @bool _ _ n hout hn =>
    have hparse : tryParseBool ⟨⟨name, .value .inTypeBoolean outType length⟩,
        ⟨start, leBytes 4 n⟩⟩ = .ok (n != 0) := by
      show (.ok (leValue (leBytes 4 n) != 0) : Except ParserError Bool) = .ok (n != 0)
      rw [leValue_leBytes hn]
    refine serValue_of_handler (getParser_of_isPlain hout) ?_
    simp only [TdhInType.getParser, PropHandler.serFromBytes]
    rw [hparse]
    rfl
  | text hout h =>
    refine serValue_of_handler (h.getParser hout) ?_
    simp only [PropHandler.serFromBytes]
    rw [h.tryParseString (hutf16 _)]
    rfl
  | @unicodeChar _ _ s hout hs =>
    obtain ⟨u, hu⟩ := List.length_eq_one_iff.mp hs
    have hbytes : wideBytes s = leBytes 2 u.toNat := by
      rw [wideBytes, hu, unitBytes, List.flatMap_singleton]
    have hparse : tryParseString P.target N ⟨⟨name, .value .inTypeUnicodeChar outType length⟩,
        ⟨start, wideBytes s⟩⟩ = .ok s := by
      show (if (wideBytes s).length = 2 then _ else _) = _
      rw [hbytes, if_pos (length_leBytes 2 u.toNat), u16_leBytes, ← hu, hutf16]
    refine serValue_of_handler (getParser_of_isPlain hout) ?_
    simp only [TdhInType.getParser, PropHandler.serFromBytes]
    rw [hparse]
    rfl
  | @ansiChar _ _ s hout =>
    have hparse : tryParseString P.target N ⟨⟨name, .value .inTypeAnsiChar outType length⟩,
        ⟨start, utf8Bytes s⟩⟩ = .ok s := fromUtf8_utf8Bytes s
    refine serValue_of_handler (getParser_of_isPlain hout) ?_
    simp only [TdhInType.getParser, PropHandler.serFromBytes]
    rw [hparse]
    rfl
  | sid h hout hlen htext =>
    have hparser : inType.getParser outType = .string := by rcases h with rfl | rfl <;> rfl
    refine serValue_of_handler (getParser_of_isPlain hout) ?_
    rw [hparser]
    simp only [PropHandler.serFromBytes]
    rw [tryParseString_sid h hlen htext]
    rfl
  | binary hout => exact serValue_of_handler (getParser_of_isPlain hout) rfl
  | @countedBinary _ _ body hout hmax =>
    have hparse : tryParseBytes P.target
        ⟨⟨name, .value .inTypeManifestCountedBinary outType length⟩,
          ⟨start, leBytes 2 body.length ++ body⟩⟩ = .ok body := by
      show countPrefixedBinary P.target (leBytes 2 body.length ++ body) 2 = .ok body
      exact countPrefixedBinary_spelled (Nat.le_refl 2) (by decide) hmax
    refine serValue_of_handler (getParser_of_isPlain hout) ?_
    show propSer bytesValue (tryParseBytes P.target _) name map = _
    rw [hparse]
    rfl
  | @hexDump _ _ body hout hmax =>
    have hparse : tryParseBytes P.target ⟨⟨name, .value .inTypeHexDump outType length⟩,
        ⟨start, leBytes 4 body.length ++ body⟩⟩ = .ok body := by
      show countPrefixedBinary P.target (leBytes 4 body.length ++ body) 4 = .ok body
      exact countPrefixedBinary_spelled (by decide) (Nat.le_refl 4) hmax
    refine serValue_of_handler (getParser_of_isPlain hout) ?_
    show propSer bytesValue (tryParseBytes P.target _) name map = _
    rw [hparse]
    rfl
  | @guid _ _ guid hout =>
    have hparse : tryParseGuid ⟨⟨name, .value .inTypeGuid outType length⟩, ⟨start, guid.bytes⟩⟩ =
        .ok guid := by
      have hlast : guid.bytes.drop 8 = range 8 16 guid.bytes := by
        rw [range, List.take_of_length_le (Nat.le_of_eq guid.length_bytes)]
      have hguid := guidOfBytes_bytes guid
      rw [guidOfBytes, ← hlast] at hguid
      simp only [tryParseGuid, ne_eq, guid.length_bytes, Guid.mk_eq_ofFields]
      exact congrArg Except.ok hguid
    refine serValue_of_handler (getParser_of_isPlain hout) ?_
    simp only [TdhInType.getParser, PropHandler.serFromBytes]
    rw [hparse]
    rfl
  | @fileTime _ _ ft hout =>
    have hparse : tryParseFileTime ⟨⟨name, .value .inTypeFileTime outType length⟩,
        ⟨start, ft.bytes⟩⟩ = .ok ft := by
      show (.ok (FileTime.fromSlice ft.bytes) : Except ParserError FileTime) = .ok ft
      rw [FileTime.fromSlice_bytes]
    refine serValue_of_handler (getParser_of_isPlain hout) ?_
    simp only [TdhInType.getParser, PropHandler.serFromBytes]
    rw [hparse]
    rfl
  | @systemTime _ _ st hout =>
    have hparse : tryParseSystemTime ⟨⟨name, .value .inTypeSystemTime outType length⟩,
        ⟨start, st.bytes⟩⟩ = .ok st := by
      show (.ok (SystemTime.fromSlice st.bytes) : Except ParserError SystemTime) = .ok st
      rw [SystemTime.fromSlice_bytes]
    refine serValue_of_handler (getParser_of_isPlain hout) ?_
    simp only [TdhInType.getParser, PropHandler.serFromBytes]
    rw [hparse]
    rfl
  | ipv4 hout h =>
    have hparse : tryParseIpAddr ⟨⟨name, .value inType outType length⟩, ⟨start, payload⟩⟩ =
        .ok (.v4 payload) := by
      rcases hout with rfl | rfl <;> simp [tryParseIpAddr, h]
    refine serValue_of_handler (getParser_ipAddr hout) ?_
    show propSer (.leaf ∘ .ipAddr) (parsed (tryParseIpAddr _)) name map = _
    rw [hparse]
    rfl
  | ipv6 hout h =>
    have hparse : tryParseIpAddr ⟨⟨name, .value inType outType length⟩, ⟨start, payload⟩⟩ =
        .ok (.v6 payload) := by
      rcases hout with rfl | rfl <;> simp [tryParseIpAddr, h]
    refine serValue_of_handler (getParser_ipAddr hout) ?_
    show propSer (.leaf ∘ .ipAddr) (parsed (tryParseIpAddr _)) name map = _
    rw [hparse]
    rfl
  | @socketAddress _ _ _ address h =>
    have hparse : tryParseSocketAddress ⟨⟨name, .value inType .outTypeSocketAddress length⟩,
        ⟨start, payload⟩⟩ = .ok address := h.fromPropertyBuffer
    refine serValue_of_handler (show PropertyInfo.getParser _ = some .socketAddress from rfl) ?_
    show propSer (.leaf ∘ .socketAddress) (parsed (tryParseSocketAddress _)) name map = _
    rw [hparse]
    rfl

/-! ### Arrays -/

theorem length_flatMap_leBytes (width : ℕ) (ns : List ℕ) :
    (ns.flatMap (leBytes width)).length = width * ns.length := by
  induction ns with
  | nil => rfl
  | cons n ns ih =>
    rw [List.flatMap_cons, List.length_append, length_leBytes, ih, List.length_cons, Nat.mul_succ,
      Nat.add_comm]

theorem elements_eq_chunksExact {size : ℕ} (bytes : List UInt8) :
    elements size (bytes.length / size) bytes = chunksExact size bytes := by
  rw [elements, chunksExact]
  refine List.map_congr_left fun j _ => ?_
  rw [range, List.drop_take, Nat.add_mul, Nat.one_mul, Nat.add_sub_cancel_left]

/-- **An array is decoded as it was spelled**, from an aligned address. -/
theorem tryParsePrimitiveArray_spelled {t : Target} {userData : ℕ} {ty : Primitive} {ns : List ℕ}
    {count : PropertyCount} (hns : ∀ n ∈ ns, n < 256 ^ ty.size)
    (halign : (userData + start) % ty.size = 0)
    (hle : (ns.flatMap (leBytes ty.size)).length ≤ 65535) :
    tryParsePrimitiveArray t userData ty ⟨⟨name, .array inType outType length count⟩,
      ⟨start, ns.flatMap (leBytes ty.size)⟩⟩ = .ok (ns.map fun n => ⟨ty, n⟩) := by
  have hlen := length_flatMap_leBytes ty.size ns
  have hpos : 0 < ty.size := by cases ty <;> decide
  have ht := t.usizeMax_ge
  have hisize := t.usizeMax_eq
  have hchunks : chunksExact ty.size (ns.flatMap (leBytes ty.size)) = ns.map (leBytes ty.size) := by
    have hall : chunksExact ty.size (ns.flatMap (leBytes ty.size) ++ []) =
        ns.map (leBytes ty.size) :=
      chunksExact_flatMap (fun n _ => length_leBytes ty.size n) hpos
    rwa [List.append_nil] at hall
  let buffer : Slice := ⟨start, ns.flatMap (leBytes ty.size)⟩
  have hbuffer : buffer.len = ty.size * ns.length := hlen
  have hwhole : ¬ buffer.len % ty.size ≠ 0 := by
    rw [hbuffer, Nat.mul_mod_right]
    exact fun h => h rfl
  have helements : elements ty.size (buffer.len / ty.size) buffer.bytes =
      ns.map (leBytes ty.size) := (elements_eq_chunksExact buffer.bytes).trans hchunks
  show tryParsePrimitiveArray t userData ty ⟨⟨name, .array inType outType length count⟩, buffer⟩ = _
  rw [tryParsePrimitiveArray]
  dsimp only
  rw [if_neg hwhole, if_neg (fun h => h halign), helements, hbuffer,
    Nat.mul_div_cancel_left _ hpos, Target.checkedMul_of_le (by omega)]
  dsimp only
  rw [if_neg (by omega), List.map_map]
  refine congrArg Except.ok (List.map_congr_left fun n hn => ?_)
  show (⟨ty, leValue (leBytes ty.size n)⟩ : Scalar) = ⟨ty, n⟩
  rw [leValue_leBytes (hns n hn)]

theorem getParser_array_of_isPlain {count : PropertyCount} (h : outType.isPlain = true) :
    (PropertyInfo.array inType outType length count : PropertyInfo Property).getParser =
      inType.getArrayParser outType := by
  cases outType <;> first | rfl | cases h

/-- The handler of an array of integers. -/
theorem getArrayParser_of_arrayPrimitive {ty : Primitive} (hty : inType.arrayPrimitive = some ty) :
    ∃ handler, inType.getArrayParser outType = some handler ∧
      ∀ prop buffer map, handler.serFromBytes P N prop buffer map = propSer scalarsValue
        (parsed (tryParsePrimitiveArray P.target P.record.userData ty ⟨prop, buffer⟩))
        prop.name map := by
  cases inType <;> cases hty <;> exact ⟨_, rfl, fun _ _ _ => rfl⟩

theorem ShownInHex.getArrayParser {ty : Primitive} (h : ShownInHex inType outType ty)
    (length : PropertyLength) (count : PropertyCount) : ∃ handler,
    (PropertyInfo.array inType outType length count : PropertyInfo Property).getParser =
        some handler ∧
      ∀ prop buffer map, handler.serFromBytes P N prop buffer map =
        propSer (fun vs => .seq (vs.map hexDisplay))
          (parsed (tryParsePrimitiveArray P.target P.record.userData ty ⟨prop, buffer⟩))
          prop.name map := by
  cases h with
  | outHex32 => exact ⟨.arrayHexInt32, rfl, fun _ _ _ => rfl⟩
  | outHex64 => exact ⟨.arrayHexInt64, rfl, fun _ _ _ => rfl⟩
  | inHex32 h => exact ⟨.arrayHexInt32, getParser_array_of_isPlain h, fun _ _ _ => rfl⟩
  | inHex64 h => exact ⟨.arrayHexInt64, getParser_array_of_isPlain h, fun _ _ _ => rfl⟩

theorem getArrayParser_of_pointerLike (h : PointerLike inType) (outType : TdhOutType) :
    ∃ handler, inType.getArrayParser outType = some handler ∧
      ∀ prop buffer map, handler.serFromBytes P N prop buffer map =
        propSer (fun vs => .seq (vs.map (addressValue outType)))
          (parsed (tryParsePrimitiveArray P.target P.record.userData
            (addressType P.record.pointerSize) ⟨prop, buffer⟩)) prop.name map := by
  have hparser : inType.getArrayParser outType =
      if outType = .outTypeNull then some .arrayHexPointer else some .arrayPointer := by
    rcases h with rfl | rfl <;> rfl
  have haddress : addressValue outType =
      if outType = .outTypeNull then hexDisplay else scalarValue := by
    funext v
    rw [addressValue]
    split <;> rfl
  rw [hparser, haddress, addressType]
  by_cases hnull : outType = .outTypeNull
  · refine ⟨.arrayHexPointer, if_pos hnull, fun prop buffer map => ?_⟩
    simp only [PropHandler.serFromBytes, if_pos hnull]
    split <;> rfl
  · refine ⟨.arrayPointer, if_neg hnull, fun prop buffer map => ?_⟩
    simp only [PropHandler.serFromBytes, if_neg hnull]
    split <;> rfl

/-- **An array is written as it was spelled**, in either mode. -/
theorem serValue_of_arraySpells {count : PropertyCount} {v : SerValue}
    (h : ArraySpells P.record.pointerSize (P.record.userData + start) inType outType payload v)
    (hle : payload.length ≤ 65535) (map : SerMap) :
    serValue P N strict ⟨name, .array inType outType length count⟩ ⟨start, payload⟩ map =
      .ok (map ++ [(name, v)]) := by
  cases h with
  | numbers hty hout hns halign =>
    obtain ⟨handler, hp, hser⟩ := getArrayParser_of_arrayPrimitive (P := P) (N := N) hty
    refine serValue_of_handler ((getParser_array_of_isPlain hout).trans hp) ?_
    rw [hser, tryParsePrimitiveArray_spelled hns halign hle]
    simp only [parsed, propSer, scalarsValue, List.map_map]
    rfl
  | hex hty hns halign =>
    obtain ⟨handler, hp, hser⟩ := hty.getArrayParser (P := P) (N := N) length count
    refine serValue_of_handler hp ?_
    rw [hser, tryParsePrimitiveArray_spelled hns halign hle]
    simp only [parsed, propSer, List.map_map]
    rfl
  | @addresses ns h hout hns halign =>
    have hsize := size_addressType P.record
    have hparse : tryParsePrimitiveArray P.target P.record.userData
        (addressType P.record.pointerSize) ⟨⟨name, .array inType outType length count⟩,
          ⟨start, ns.flatMap (leBytes (addressType P.record.pointerSize).size)⟩⟩ =
        .ok (ns.map fun n => ⟨addressType P.record.pointerSize, n⟩) :=
      tryParsePrimitiveArray_spelled (by rwa [hsize]) (by rwa [hsize]) (by rwa [hsize])
    rw [hsize] at hparse
    obtain ⟨handler, hp, hser⟩ :=
      getArrayParser_of_pointerLike (P := P) (N := N) h outType
    refine serValue_of_handler ((getParser_array_of_isPlain hout).trans hp) ?_
    rw [hser, hparse]
    simp only [parsed, propSer, List.map_map]
    rfl

end Handlers

end Ferrisetw2
