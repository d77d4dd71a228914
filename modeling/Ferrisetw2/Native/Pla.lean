import Ferrisetw2.Lib.Checked
import Ferrisetw2.Lib.Text
import Ferrisetw2.Parser.Decode

/-!
# Looking a provider up by its name

The registered providers are a COM collection: a count, and an item for each index. The crate walks
through it until a display name matches, and takes that provider's GUID. `pla.rs`.

What the COM calls answer is a parameter. The loop keeps two things, the index of the next item and
the GUID it has found, and it is from the index that the crate concludes whether there was a match.

## Main definitions

* `TraceDataProviderCollection`, `Com` — what the calls answer
* `findProviderGuid`, `getProviderGuid`
* `TraceDataProviderCollection.Enumerates` — the collection holds a list of names and GUIDs
* `firstGuid` — the first entry with a name

## Main results

* `findProviderGuid_ne_panic` — the final `unwrap` never fails
* `getProviderGuid_depth` — COM is left as initialised as it was
* `findProviderGuid_eq_firstGuid_iff` — a provider is found unless its name is the last one's alone
-/

namespace Ferrisetw2

open Rust

/-! ### COM -/

/-- A call returns a value or the `HRESULT` of its failure. -/
abbrev ComResult (α : Type) := Except UInt32 α

/-- `ITraceDataProvider`. -/
structure TraceDataProvider where
  /-- `DisplayName`, a string of code units. -/
  displayName : ComResult (List UInt16)
  guid : ComResult Guid

/-- `ITraceDataProviderCollection`. -/
structure TraceDataProviderCollection where
  /-- `GetTraceDataProviders`, for the local machine. -/
  getTraceDataProviders : ComResult Unit
  /-- `Count`. -/
  count : ComResult Int32
  /-- `get_Item`. -/
  getItem : ℕ → ComResult TraceDataProvider

/-- The COM library. -/
structure Com where
  coInitializeEx : ComResult Unit
  /-- `CoCreateInstance`, for `TraceDataProviderCollection`. -/
  coCreateInstance : ComResult TraceDataProviderCollection

/-! ### The lookup -/

/-- `PlaError`. -/
inductive PlaError where
  | notFound
  | comError (code : UInt32)
  deriving DecidableEq, Repr

/-- What `?` does with the result of a call. -/
def orComError {α : Type} : ComResult α → Outcome PlaError α
  | .ok a => .ok a
  | .error code => .error (.error (.comError code))

/-- The name is the one looked for, once what is no UTF-16 in it has been replaced. -/
def isNamed (name : String) (rawName : List UInt16) : Bool :=
  String.ofList (decodeUtf16 rawName) == name

/-- The `while` loop: the index and the GUID it ends with. -/
def searchProviders (all : TraceDataProviderCollection) (name : String) (count index : ℕ) :
    ComResult (ℕ × Option Guid) :=
  if index < count then do
    let provider ← all.getItem index
    let rawName ← provider.displayName
    if isNamed name rawName then do
      let guid ← provider.guid
      return (index + 1, some guid)
    else searchProviders all name count (index + 1)
  else .ok (index, none)
termination_by count - index

/-- What follows the loop. -/
def foundGuid (count : ℕ) (found : ℕ × Option Guid) : Outcome PlaError Guid :=
  if found.1 = count then .error (.error .notFound)
  else
    match found.2 with
    | some guid => .ok guid
    | none => .error (.panic (.expect "called `Option::unwrap()` on a `None` value"))

/-- `find_provider_guid`. -/
def findProviderGuid (com : Com) (name : String) : Outcome PlaError Guid := do
  let allProviders ← orComError com.coCreateInstance
  orComError allProviders.getTraceDataProviders
  -- a negative count is treated as none
  let count := (← orComError allProviders.count).toInt.toNat
  let found ← orComError (searchProviders allProviders name count 0)
  foundGuid count found

/-- `get_provider_guid`, and how many times COM is initialised on the thread afterwards, given how
many times it was. -/
def getProviderGuid (com : Com) (name : String) (depth : ℕ) : Outcome PlaError Guid × ℕ :=
  match com.coInitializeEx with
  | .error code => (.error (.error (.comError code)), depth)
  | .ok () =>
    match findProviderGuid com name with
    -- unwinding goes past `CoUninitialize`
    | .error (.panic p) => (.error (.panic p), depth + 1)
    | result => (result, depth + 1 - 1)

/-! ### Any collection -/

section Loop

variable {all : TraceDataProviderCollection} {name : String} {count : ℕ}

theorem searchProviders_of_not_lt {index : ℕ} (h : ¬ index < count) :
    searchProviders all name count index = .ok (index, none) := by
  rw [searchProviders, if_neg h]

/-- The loop ends without a GUID at the count only. -/
theorem searchProviders_eq_none {index n : ℕ} (hle : index ≤ count)
    (h : searchProviders all name count index = .ok (n, none)) : n = count := by
  induction index using searchProviders.induct count with
  | case1 index hlt ih =>
    rw [searchProviders, if_pos hlt, bind_eq_ok_iff] at h
    obtain ⟨provider, -, h⟩ := h
    obtain ⟨rawName, -, h⟩ := bind_eq_ok_iff.mp h
    split at h
    · obtain ⟨guid, -, h⟩ := bind_eq_ok_iff.mp h
      cases h
    · exact ih hlt h
  | case2 index hlt =>
    rw [searchProviders_of_not_lt hlt] at h
    cases h
    omega

end Loop

/-- **The final `unwrap` never fails**, whatever COM answers. -/
theorem findProviderGuid_ne_panic (com : Com) (name : String) (p : Panic) :
    findProviderGuid com name ≠ .error (.panic p) := by
  have hcall : ∀ {α β : Type} (x : ComResult α) (f : α → Outcome PlaError β),
      (orComError x >>= f) = .error (.panic p) → ∃ a, x = .ok a ∧ f a = .error (.panic p) := by
    intro α β x f h
    cases x with
    | error code => cases h
    | ok a => exact ⟨a, rfl, h⟩
  intro h
  obtain ⟨all, -, h⟩ := hcall _ _ h
  obtain ⟨-, -, h⟩ := hcall _ _ h
  obtain ⟨c, -, h⟩ := hcall _ _ h
  obtain ⟨⟨n, guid⟩, hfound, h⟩ := hcall _ _ h
  rw [foundGuid] at h
  split at h
  · cases h
  · rename_i hne
    cases guid with
    | some guid => cases h
    | none => exact hne (searchProviders_eq_none (Nat.zero_le _) hfound)

/-- **COM is left as initialised as it was.** -/
theorem getProviderGuid_depth (com : Com) (name : String) (depth : ℕ) :
    (getProviderGuid com name depth).2 = depth := by
  rw [getProviderGuid]
  split
  · rfl
  · split
    · rename_i p h
      exact absurd h (findProviderGuid_ne_panic com name p)
    · rfl

/-! ### Collections that hold a list -/

/-- The collection holds these names and GUIDs, in this order, and none of its calls fails. -/
structure TraceDataProviderCollection.Enumerates (all : TraceDataProviderCollection)
    (entries : List (List UInt16 × Guid)) : Prop where
  opened : all.getTraceDataProviders = .ok ()
  counted : ∃ count, all.count = .ok count ∧ count.toInt = entries.length
  held : ∀ i e, entries[i]? = some e →
    ∃ provider, all.getItem i = .ok provider ∧ provider.displayName = .ok e.1 ∧
      provider.guid = .ok e.2

/-- The list as a collection. -/
def TraceDataProviderCollection.ofList (entries : List (List UInt16 × Guid)) :
    TraceDataProviderCollection where
  getTraceDataProviders := .ok ()
  count := .ok (Int32.ofNat entries.length)
  getItem index :=
    match entries[index]? with
    | some e => .ok { displayName := .ok e.1, guid := .ok e.2 }
    -- `E_INVALIDARG`
    | none => .error 0x80070057

theorem TraceDataProviderCollection.Enumerates.of_length_lt
    {entries : List (List UInt16 × Guid)} (h : entries.length < 2 ^ 31) :
    (ofList entries).Enumerates entries where
  opened := rfl
  counted := ⟨_, rfl, Int32.toInt_ofNat_of_lt h⟩
  held i e he := by
    refine ⟨{ displayName := .ok e.1, guid := .ok e.2 }, ?_, rfl, rfl⟩
    rw [ofList]
    simp only [he]

/-- COM with that collection. -/
def Com.ofList (entries : List (List UInt16 × Guid)) : Com where
  coInitializeEx := .ok ()
  coCreateInstance := .ok (.ofList entries)

/-- The GUID of the first entry with the name. -/
def firstGuid (entries : List (List UInt16 × Guid)) (name : String) : Outcome PlaError Guid :=
  match entries.find? (isNamed name ·.1) with
  | some e => .ok e.2
  | none => .error (.error .notFound)

section Enumerated

variable {all : TraceDataProviderCollection} {entries : List (List UInt16 × Guid)} {name : String}

/-- One turn of the loop. -/
theorem searchProviders_step (name : String) (h : all.Enumerates entries)
    {before after : List (List UInt16 × Guid)} {e : List UInt16 × Guid}
    (heq : entries = before ++ e :: after) :
    searchProviders all name entries.length before.length =
      if isNamed name e.1 then .ok (before.length + 1, some e.2)
      else searchProviders all name entries.length (before.length + 1) := by
  have hlt : before.length < entries.length := by
    rw [heq, List.length_append, List.length_cons]
    omega
  obtain ⟨provider, hitem, hname, hguid⟩ := h.held before.length e (by rw [heq]; simp)
  rw [searchProviders, if_pos hlt, hitem, bind_ok, hname, bind_ok, hguid]
  rfl

/-- The loop goes past the entries with other names. -/
theorem searchProviders_skip (h : all.Enumerates entries)
    {before skipped after : List (List UInt16 × Guid)}
    (hskip : ∀ e ∈ skipped, ¬ isNamed name e.1 = true)
    (heq : entries = before ++ skipped ++ after) :
    searchProviders all name entries.length before.length =
      searchProviders all name entries.length (before.length + skipped.length) := by
  induction skipped generalizing before with
  | nil => rfl
  | cons e skipped ih =>
    have hstep := searchProviders_step name h
      (show entries = before ++ e :: (skipped ++ after) by rw [heq]; simp)
    have hrest := ih (fun e he => hskip e (List.mem_cons_of_mem _ he))
      (show entries = (before ++ [e]) ++ skipped ++ after by rw [heq]; simp)
    rw [List.length_append, List.length_singleton] at hrest
    rw [hstep, if_neg (hskip e List.mem_cons_self), hrest, List.length_cons]
    congr 1
    omega

/-- The lookup is what the loop ends with. -/
theorem findProviderGuid_eq {com : Com} (hcom : com.coCreateInstance = .ok all)
    (h : all.Enumerates entries) {n : ℕ} {guid : Option Guid}
    (hloop : searchProviders all name entries.length 0 = .ok (n, guid)) :
    findProviderGuid com name = foundGuid entries.length (n, guid) := by
  obtain ⟨count, hcount, hlength⟩ := h.counted
  have hn : count.toInt.toNat = entries.length := by omega
  rw [findProviderGuid, hcom, orComError, bind_ok, h.opened, orComError, bind_ok, hcount,
    orComError, bind_ok]
  dsimp only
  rw [hn, hloop]
  rfl

/-- A name that no entry has is not found. -/
theorem findProviderGuid_of_none {com : Com} (hcom : com.coCreateInstance = .ok all)
    (h : all.Enumerates entries) (hnone : ∀ e ∈ entries, ¬ isNamed name e.1 = true) :
    findProviderGuid com name = .error (.error .notFound) := by
  have hskip := searchProviders_skip h hnone (show entries = [] ++ entries ++ [] by simp)
  rw [List.length_nil, Nat.zero_add, searchProviders_of_not_lt (Nat.lt_irrefl _)] at hskip
  rw [findProviderGuid_eq hcom h hskip, foundGuid, if_pos rfl]

/-- The first entry with the name is found when there is another behind it. -/
theorem findProviderGuid_of_first {com : Com} (hcom : com.coCreateInstance = .ok all)
    {before after : List (List UInt16 × Guid)} {e : List UInt16 × Guid}
    (h : all.Enumerates (before ++ e :: after))
    (hbefore : ∀ e ∈ before, ¬ isNamed name e.1 = true) (he : isNamed name e.1 = true) :
    findProviderGuid com name = if after = [] then .error (.error .notFound) else .ok e.2 := by
  have hskip := searchProviders_skip h hbefore
    (show before ++ e :: after = [] ++ before ++ e :: after from rfl)
  rw [List.length_nil, Nat.zero_add, searchProviders_step name h rfl, if_pos he] at hskip
  have hlast : before.length + 1 = (before ++ e :: after).length ↔ after = [] := by
    rw [List.length_append, List.length_cons, ← List.length_eq_zero_iff]
    omega
  rw [findProviderGuid_eq hcom h hskip, foundGuid]
  by_cases hafter : after = []
  · rw [if_pos (hlast.mpr hafter), if_pos hafter]
  · rw [if_neg fun hn => hafter (hlast.mp hn), if_neg hafter]

end Enumerated

/-- **A provider is found by its name, unless the last one is the only one to have it**: the index
is already past an entry when that entry matches, so a match on the last one looks like none. -/
theorem findProviderGuid_eq_firstGuid_iff {com : Com} {all : TraceDataProviderCollection}
    {entries : List (List UInt16 × Guid)} (hcom : com.coCreateInstance = .ok all)
    (h : all.Enumerates entries) (name : String) :
    (∀ p, findProviderGuid com name ≠ .error (.panic p)) ∧
      (findProviderGuid com name = firstGuid entries name ↔
        ((∃ e ∈ entries, isNamed name e.1) → ∃ e ∈ entries.dropLast, isNamed name e.1)) := by
  refine ⟨findProviderGuid_ne_panic com name, ?_⟩
  cases hfind : entries.find? (isNamed name ·.1) with
  | none =>
    have hnone : ∀ e ∈ entries, ¬ isNamed name e.1 = true := List.find?_eq_none.mp hfind
    rw [firstGuid, hfind, findProviderGuid_of_none hcom h hnone]
    exact iff_of_true rfl fun ⟨e, he, hname⟩ => absurd hname (hnone e he)
  | some e =>
    obtain ⟨he, before, after, rfl, hbefore⟩ := List.find?_eq_some_iff_append.mp hfind
    have hbefore : ∀ e ∈ before, ¬ isNamed name e.1 = true := fun e he => by
      simpa using hbefore e he
    rw [firstGuid, hfind, findProviderGuid_of_first hcom h hbefore he]
    by_cases hafter : after = []
    · rw [if_pos hafter]
      refine iff_of_false nofun fun hcond => ?_
      obtain ⟨e', he', hname⟩ := hcond ⟨e, by simp, he⟩
      rw [hafter, List.dropLast_concat] at he'
      exact hbefore e' he' hname
    · rw [if_neg hafter]
      refine iff_of_true rfl fun _ => ⟨e, ?_, he⟩
      rw [List.dropLast_append_of_ne_nil (List.cons_ne_nil _ _),
        List.dropLast_cons_of_ne_nil hafter]
      simp

/-- A registered provider. -/
def kernelProcess : List UInt16 × Guid :=
  (encodeUtf16 "Microsoft-Windows-Kernel-Process",
    { data1 := 0x22fb2cd6, data2 := 0x0e7b, data3 := 0x422b,
      data4 := [0xa0, 0xc7, 0x2f, 0xad, 0x1f, 0xd0, 0xe7, 0x16]
      length_data4 := rfl })

theorem isNamed_kernelProcess : isNamed "Microsoft-Windows-Kernel-Process" kernelProcess.1 = true :=
  beq_iff_eq.mpr (decodeUtf16_encodeUtf16 _)

/-- With another provider behind it, it is found. -/
theorem findProviderGuid_kernelProcess :
    findProviderGuid (.ofList [kernelProcess, ([], kernelProcess.2)])
      "Microsoft-Windows-Kernel-Process" =
      firstGuid [kernelProcess, ([], kernelProcess.2)] "Microsoft-Windows-Kernel-Process" :=
  (findProviderGuid_eq_firstGuid_iff rfl (.of_length_lt (by decide)) _).2.mpr fun _ =>
    ⟨kernelProcess, List.mem_singleton_self _, isNamed_kernelProcess⟩

/-- As the only provider, it is not. -/
theorem findProviderGuid_kernelProcess_alone :
    (TraceDataProviderCollection.ofList [kernelProcess]).Enumerates [kernelProcess] ∧
      firstGuid [kernelProcess] "Microsoft-Windows-Kernel-Process" = .ok kernelProcess.2 ∧
      findProviderGuid (.ofList [kernelProcess]) "Microsoft-Windows-Kernel-Process" =
        .error (.error .notFound) := by
  have hheld : (TraceDataProviderCollection.ofList [kernelProcess]).Enumerates [kernelProcess] :=
    .of_length_lt (by decide)
  refine ⟨hheld, ?_, ?_⟩
  · have hfind : [kernelProcess].find? (isNamed "Microsoft-Windows-Kernel-Process" ·.1) =
        some kernelProcess := List.find?_cons_of_pos isNamed_kernelProcess
    rw [firstGuid, hfind]
  · exact findProviderGuid_of_first rfl
      (show TraceDataProviderCollection.Enumerates _ ([] ++ kernelProcess :: []) from hheld) nofun
      isNamed_kernelProcess

end Ferrisetw2
