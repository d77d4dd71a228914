import Ferrisetw2.Native.Evntrace
import Ferrisetw2.Query

/-!
# Queries that need a larger buffer

An information class that is an array can need any number of bytes. `TraceQueryInformation` says
how many, but only for the moment: by the next call the array can have grown. The buffer is made as
large as it said, up to four times. `evntrace.rs`, and the profile sources of `query.rs`.

What Windows answers is not ours to know, but it is documented what the answers mean: an array that
fits is copied whole, and one that does not is refused with its size.

## Main definitions

* `InfoQuery`, `InfoAnswer`, `QueryError`
* `queryArrayInfo`, `profileSources`
* `Asks` — the calls of a query, for larger and larger buffers
* `Answers` — answers as documented, about an array that changes from call to call

## Main results

* `queryRounds_asks` — a query asks at most four times, for more each time
* `queryRounds_of_answers` — what comes out is the whole array, at one moment
* `profileSources_of_answers` — and the sources in it
-/

namespace Ferrisetw2

open Rust Calls

/-! ### The source -/

/-- A query of a class, with the length of the buffer. -/
structure InfoQuery where
  cls : UInt32
  length : UInt32
  deriving DecidableEq

/-- The status, the bytes that were needed, and those that were written. -/
structure InfoAnswer where
  status : UInt32
  needed : UInt32
  info : List UInt8

/-- The errors of `query_array_info`. -/
inductive QueryError where
  | ioError (code : UInt32)
  /-- `the ETW API kept asking for a larger query buffer`. -/
  | invalidData
  deriving DecidableEq, Repr

def errorInsufficientBuffer : UInt32 := 122

/-- A buffer of zeros, written to from its start. -/
def writtenOver (capacity : ℕ) (info : List UInt8) : List UInt8 :=
  info.take capacity ++ List.replicate (capacity - info.length) 0

/-- `TraceProfileSourceListInfo`. -/
def traceProfileSourceListInfo : UInt32 := 7

/-- The loop of `query_array_info`, with so many rounds to go. `buf.len()` is cut to 32 bits. -/
def queryRounds (env : Env InfoQuery InfoAnswer) (cls : UInt32) :
    ℕ → ℕ → Prog InfoQuery InfoAnswer Unit QueryError (List UInt8)
  | 0, _ => error .invalidData
  | rounds + 1, capacity =>
    bind (call env ⟨cls, UInt32.ofNat capacity⟩) fun answer =>
      let buf := writtenOver capacity answer.info
      if answer.status = errorSuccess then pure (buf.take (min answer.needed.toNat buf.length))
      else if answer.status = errorInsufficientBuffer ∧ capacity < answer.needed.toNat then
        queryRounds env cls rounds answer.needed.toNat
      else error (.ioError answer.status)

/-- `query_array_info`. -/
def queryArrayInfo (env : Env InfoQuery InfoAnswer) (cls : UInt32) (initialCapacity : ℕ) :
    Prog InfoQuery InfoAnswer Unit QueryError (List UInt8) :=
  queryRounds env cls 4 initialCapacity

/-- `SessionlessInfo::profile_sources`, with fuel for the parser. -/
def profileSources (t : Target) (env : Env InfoQuery InfoAnswer) (fuel : ℕ) :
    Prog InfoQuery InfoAnswer Unit QueryError (Option (Checked (List ProfileSourceInfo))) :=
  bind (queryArrayInfo env traceProfileSourceListInfo 4096) fun buf =>
    pure (parseProfileSources t buf fuel)

/-! ### What is asked -/

@[simp] theorem length_writtenOver (capacity : ℕ) (info : List UInt8) :
    (writtenOver capacity info).length = capacity := by
  simp only [writtenOver, List.length_append, List.length_take, List.length_replicate]
  omega

/-- What fits is written whole. -/
theorem take_writtenOver {capacity : ℕ} {info : List UInt8} (h : info.length ≤ capacity) :
    (writtenOver capacity info).take info.length = info := by
  rw [writtenOver, List.take_of_length_le h, List.take_left]

/-- The lengths of the buffers of some calls. -/
def askedFor (calls : List (InfoQuery × InfoAnswer)) : List ℕ :=
  calls.map fun entry => entry.1.length.toNat

/-- How a query goes on: it asks for buffers of so many bytes or more, more each time, and no more
often than this. -/
structure Asks (rounds capacity : ℕ) (calls : List (InfoQuery × InfoAnswer)) : Prop where
  length_le : calls.length ≤ rounds
  head_eq : ∀ n ∈ (askedFor calls).head?, n = capacity
  least : ∀ n ∈ askedFor calls, capacity ≤ n
  growing : (askedFor calls).Pairwise (· < ·)

theorem Asks.nil (capacity : ℕ) : Asks 0 capacity [] :=
  ⟨Nat.le_refl 0, fun n hn => (by cases hn), fun n hn => (by cases hn), .nil⟩

/-- A call before those for more. -/
theorem Asks.cons {rounds capacity more : ℕ} {calls : List (InfoQuery × InfoAnswer)}
    {entry : InfoQuery × InfoAnswer} (hentry : entry.1.length.toNat = capacity)
    (hmore : calls = [] ∨ capacity < more ∧ Asks rounds more calls) :
    Asks (rounds + 1) capacity (entry :: calls) := by
  have hgreater : ∀ n ∈ askedFor calls, capacity < n := by
    intro n hn
    rcases hmore with rfl | ⟨hlt, hasks⟩
    · cases hn
    · exact Nat.lt_of_lt_of_le hlt (hasks.least n hn)
  refine ⟨?_, fun n hn => ?_, fun n hn => ?_, ?_⟩
  · rcases hmore with rfl | ⟨-, hasks⟩
    · exact Nat.succ_le_succ (Nat.zero_le rounds)
    · exact Nat.succ_le_succ hasks.length_le
  · exact (Option.some.inj hn).symm.trans hentry
  · rcases List.mem_cons.mp hn with rfl | hn
    · exact Nat.le_of_eq hentry.symm
    · exact Nat.le_of_lt (hgreater n hn)
  · refine List.pairwise_cons.mpr ⟨fun n hn => ?_, ?_⟩
    · show entry.1.length.toNat < n
      rw [hentry]
      exact hgreater n hn
    · rcases hmore with rfl | ⟨-, hasks⟩
      · exact .nil
      · exact hasks.growing

section

variable {env : Env InfoQuery InfoAnswer} {cls : UInt32} {rounds capacity : ℕ}
  {w : World InfoQuery InfoAnswer Unit}

/-- A call of the class, answered. -/
def answeredCall (env : Env InfoQuery InfoAnswer) (cls : UInt32) (capacity : ℕ)
    (calls : List (InfoQuery × InfoAnswer)) : InfoQuery × InfoAnswer :=
  (⟨cls, UInt32.ofNat capacity⟩, env calls ⟨cls, UInt32.ofNat capacity⟩)

theorem length_answeredCall (hcapacity : capacity < 2 ^ 32)
    {calls : List (InfoQuery × InfoAnswer)} :
    (answeredCall env cls capacity calls).1.length.toNat = capacity :=
  UInt32.toNat_ofNat_of_lt hcapacity

/-- **A query asks for more each time**, whatever Windows answers. -/
theorem queryRounds_asks (hcapacity : capacity < 2 ^ 32) :
    ∃ calls, (queryRounds env cls rounds capacity w).2.calls = w.calls ++ calls ∧
      Asks rounds capacity calls := by
  induction rounds generalizing capacity w with
  | zero => exact ⟨[], (List.append_nil w.calls).symm, .nil capacity⟩
  | succ rounds ih =>
    have hasked : (answeredCall env cls capacity w.calls).1.length.toNat = capacity :=
      length_answeredCall hcapacity
    have hdone : Asks (rounds + 1) capacity [answeredCall env cls capacity w.calls] :=
      @Asks.cons _ _ 0 _ _ hasked (.inl rfl)
    rw [queryRounds, bind_call]
    split
    · exact ⟨_, rfl, hdone⟩
    · split
      · rename_i hmore
        obtain ⟨calls, hcalls, hasks⟩ := ih (UInt32.toNat_lt _)
        refine ⟨answeredCall env cls capacity w.calls :: calls, ?_,
          .cons hasked (.inr ⟨hmore.2, hasks⟩)⟩
        rw [hcalls, List.append_assoc]
        rfl
      · exact ⟨_, rfl, hdone⟩

/-! ### Documented answers -/

/-- Windows answers as documented. What the array is can depend on the calls made so far. -/
structure Answers (env : Env InfoQuery InfoAnswer) (cls : UInt32)
    (contents : List (InfoQuery × InfoAnswer) → List UInt8) : Prop where
  small : ∀ calls, (contents calls).length < 2 ^ 32
  /-- An array that fits is copied. -/
  fits : ∀ calls length, (contents calls).length ≤ length.toNat → env calls ⟨cls, length⟩ =
    ⟨errorSuccess, UInt32.ofNat (contents calls).length, contents calls⟩
  /-- One that does not is refused. -/
  refused : ∀ calls length, length.toNat < (contents calls).length →
    (env calls ⟨cls, length⟩).status = errorInsufficientBuffer ∧
      (env calls ⟨cls, length⟩).needed = UInt32.ofNat (contents calls).length

variable {contents : List (InfoQuery × InfoAnswer) → List UInt8}

/-- A round that the array fits is the last. -/
theorem queryRounds_of_fits (hanswers : Answers env cls contents) (hcapacity : capacity < 2 ^ 32)
    (hfits : (contents w.calls).length ≤ capacity) :
    queryRounds env cls (rounds + 1) capacity w = (.ok (contents w.calls),
      { w with calls := w.calls ++ [answeredCall env cls capacity w.calls] }) := by
  have hasked : (UInt32.ofNat capacity).toNat = capacity := UInt32.toNat_ofNat_of_lt hcapacity
  have hneeded : (UInt32.ofNat (contents w.calls).length).toNat = (contents w.calls).length :=
    UInt32.toNat_ofNat_of_lt (hanswers.small w.calls)
  have hanswer := hanswers.fits w.calls (UInt32.ofNat capacity) (by rw [hasked]; exact hfits)
  rw [queryRounds, bind_call, answeredCall, hanswer, if_pos rfl, length_writtenOver, hneeded,
    Nat.min_eq_left hfits, take_writtenOver hfits]
  rfl

/-- After a round that it does not fit, the buffer is what it would have needed. -/
theorem queryRounds_of_refused (hanswers : Answers env cls contents) (hcapacity : capacity < 2 ^ 32)
    (hgrown : capacity < (contents w.calls).length) :
    queryRounds env cls (rounds + 1) capacity w = queryRounds env cls rounds
      (contents w.calls).length
      { w with calls := w.calls ++ [answeredCall env cls capacity w.calls] } := by
  have hasked : (UInt32.ofNat capacity).toNat = capacity := UInt32.toNat_ofNat_of_lt hcapacity
  have hneeded : (UInt32.ofNat (contents w.calls).length).toNat = (contents w.calls).length :=
    UInt32.toNat_ofNat_of_lt (hanswers.small w.calls)
  obtain ⟨hstatus, hsize⟩ :=
    hanswers.refused w.calls (UInt32.ofNat capacity) (by rw [hasked]; exact hgrown)
  rw [queryRounds, bind_call, hstatus, hsize, hneeded, if_neg (by decide),
    if_pos ⟨rfl, hgrown⟩]
  rfl

/-- The array as one of the calls found it, or every call found it grown. -/
def OneMoment (contents : List (InfoQuery × InfoAnswer) → List UInt8) (rounds : ℕ)
    (before calls : List (InfoQuery × InfoAnswer)) : Except QueryError (List UInt8) → Prop
  | .ok buf => ∃ earlier last, calls = earlier ++ [last] ∧ buf = contents (before ++ earlier)
  | .error e => e = .invalidData ∧ calls.length = rounds ∧ ∀ earlier call later,
    calls = earlier ++ call :: later →
      call.1.length.toNat < (contents (before ++ earlier)).length

/-- A call that found the array grown, before the others. -/
theorem OneMoment.cons {before calls : List (InfoQuery × InfoAnswer)}
    {entry : InfoQuery × InfoAnswer} {r : Except QueryError (List UInt8)}
    (hgrown : entry.1.length.toNat < (contents before).length)
    (h : OneMoment contents rounds (before ++ [entry]) calls r) :
    OneMoment contents (rounds + 1) before (entry :: calls) r := by
  cases r with
  | ok buf =>
    obtain ⟨earlier, last, rfl, rfl⟩ := h
    exact ⟨entry :: earlier, last, rfl, by rw [List.append_assoc, List.singleton_append]⟩
  | error e =>
    obtain ⟨he, hlength, hall⟩ := h
    refine ⟨he, congrArg Nat.succ hlength, fun earlier call later heq => ?_⟩
    cases earlier with
    | nil =>
      obtain ⟨rfl, -⟩ := List.cons.inj heq
      rw [List.append_nil]
      exact hgrown
    | cons first earlier =>
      obtain ⟨rfl, hrest⟩ := List.cons.inj heq
      have hlater := hall earlier call later hrest
      rwa [List.append_assoc, List.singleton_append] at hlater

/-- **What comes out is the whole array as it was at one of the calls**, or the array grew between
any two. -/
theorem queryRounds_of_answers (hanswers : Answers env cls contents)
    (hcapacity : capacity < 2 ^ 32) :
    ∃ calls, (queryRounds env cls rounds capacity w).2.calls = w.calls ++ calls ∧
      OneMoment contents rounds w.calls calls (queryRounds env cls rounds capacity w).1 := by
  induction rounds generalizing capacity w with
  | zero =>
    refine ⟨[], (List.append_nil w.calls).symm, rfl, rfl, fun earlier call later heq => ?_⟩
    cases earlier <;> cases heq
  | succ rounds ih =>
    rcases Nat.lt_or_ge capacity (contents w.calls).length with hgrown | hfits
    · rw [queryRounds_of_refused hanswers hcapacity hgrown]
      obtain ⟨calls, hcalls, hmoment⟩ := ih (hanswers.small w.calls)
      refine ⟨answeredCall env cls capacity w.calls :: calls, ?_, .cons ?_ hmoment⟩
      · rw [hcalls, List.append_assoc]
        rfl
      · rw [length_answeredCall hcapacity]
        exact hgrown
    · rw [queryRounds_of_fits hanswers hcapacity hfits]
      exact ⟨_, rfl, [], _, rfl, by rw [List.append_nil]⟩

/-- An array that does not change is returned by the second call at the latest. -/
theorem queryRounds_of_constant (hanswers : Answers env cls contents)
    (hcapacity : capacity < 2 ^ 32)
    (hconstant : ∀ calls, contents calls = contents w.calls) :
    ∃ calls, (queryRounds env cls (rounds + 2) capacity w).2.calls = w.calls ++ calls ∧
      (queryRounds env cls (rounds + 2) capacity w).1 = .ok (contents w.calls) ∧
      calls.length ≤ 2 := by
  rcases Nat.lt_or_ge capacity (contents w.calls).length with hgrown | hfits
  · have hlength : ∀ calls, (contents calls).length = (contents w.calls).length := fun calls => by
      rw [hconstant calls]
    rw [queryRounds_of_refused hanswers hcapacity hgrown, queryRounds_of_fits hanswers
      (hanswers.small w.calls) (Nat.le_of_eq (hlength _)), hconstant]
    exact ⟨[_, _], by rw [List.append_assoc]; rfl, rfl, Nat.le_refl 2⟩
  · rw [queryRounds_of_fits hanswers hcapacity hfits]
    exact ⟨[_], rfl, rfl, Nat.le_succ 1⟩

end

/-- **A query returns the whole array as it was at one of its calls**, or it has grown at every one
of four. It asks for 4096 bytes first, and for more each time. The profile sources of that moment
are found in it, each once and in order. If they do not change, two calls are enough. -/
theorem profileSources_of_answers (t : Target) (env : Env InfoQuery InfoAnswer)
    (sources : List (InfoQuery × InfoAnswer) → List LinkedSource)
    (w : World InfoQuery InfoAnswer Unit) (hlinkable : ∀ calls, Linkable (sources calls))
    (hmax : ∀ calls, (linkedBytes (sources calls)).length ≤ t.isizeMax)
    (hanswers : Answers env traceProfileSourceListInfo fun calls => linkedBytes (sources calls)) :
    ∃ fuel calls, (profileSources t env fuel w).2.calls = w.calls ++ calls ∧ Asks 4 4096 calls ∧
      ((∃ earlier last, calls = earlier ++ [last] ∧ (profileSources t env fuel w).1 =
          .ok (some (.ok ((sources (w.calls ++ earlier)).map (·.source))))) ∨
        (profileSources t env fuel w).1 = .error .invalidData ∧ calls.length = 4 ∧
          ∀ earlier call later, calls = earlier ++ call :: later →
            call.1.length.toNat < (linkedBytes (sources (w.calls ++ earlier))).length) ∧
      ((∀ calls', sources calls' = sources w.calls) → calls.length ≤ 2 ∧
        (profileSources t env fuel w).1 =
          .ok (some (.ok ((sources w.calls).map (·.source))))) := by
  have hstart : 4096 < 2 ^ 32 := by decide
  let cls := traceProfileSourceListInfo
  obtain ⟨calls, hcalls, hasks⟩ :
      ∃ calls, (queryRounds env cls 4 4096 w).2.calls = w.calls ++ calls ∧ Asks 4 4096 calls :=
    queryRounds_asks hstart
  obtain ⟨calls', hcalls', hmoment⟩ := queryRounds_of_answers (w := w) hanswers hstart
  obtain rfl : calls' = calls := List.append_cancel_left (hcalls'.symm.trans hcalls)
  -- two calls, if nothing changes
  have htwice : (∀ calls, sources calls = sources w.calls) → calls'.length ≤ 2 ∧
      (queryRounds env cls 4 4096 w).1 = .ok (linkedBytes (sources w.calls)) := by
    intro hconstant
    obtain ⟨calls, hsame, hok, htwo⟩ :=
      queryRounds_of_constant (w := w) hanswers hstart fun calls => by rw [hconstant calls]
    obtain rfl : calls' = calls := List.append_cancel_left (hcalls'.symm.trans hsame)
    exact ⟨htwo, hok⟩
  rcases hr : queryRounds env cls 4 4096 w with ⟨e | buf, w'⟩
  · rw [hr] at hmoment hcalls' htwice
    obtain ⟨rfl, hlength, hgrown⟩ := hmoment
    have hrun : ∀ fuel, profileSources t env fuel w = (.error .invalidData, w') :=
      fun fuel => bind_of_error hr
    refine ⟨0, calls', by rw [hrun]; exact hcalls', hasks, .inr ⟨by rw [hrun], hlength, hgrown⟩,
      fun hconstant => ?_⟩
    cases (htwice hconstant).2
  · rw [hr] at hmoment hcalls' htwice
    obtain ⟨earlier, last, rfl, rfl⟩ := hmoment
    obtain ⟨fuel, hparse⟩ := parses_linkedBytes t (hlinkable (w.calls ++ earlier))
      (Nat.le_trans (hmax _) t.isizeMax_le)
    have hquery : queryArrayInfo env traceProfileSourceListInfo 4096 w =
      (.ok (linkedBytes (sources (w.calls ++ earlier))), w') := hr
    have hrun : profileSources t env fuel w =
        (.ok (some (.ok ((sources (w.calls ++ earlier)).map (·.source)))), w') := by
      rw [profileSources, bind_of_ok hquery, hparse]
      rfl
    refine ⟨fuel, earlier ++ [last], by rw [hrun]; exact hcalls', hasks,
      .inl ⟨earlier, last, rfl, by rw [hrun]⟩, fun hconstant => ⟨(htwice hconstant).1, ?_⟩⟩
    rw [hrun, hconstant]

/-- A system with two sources. -/
def timerAnswers : Env InfoQuery InfoAnswer := fun _ q =>
  let info := linkedBytes timerSources
  if info.length ≤ q.length.toNat then ⟨errorSuccess, UInt32.ofNat info.length, info⟩
  else ⟨errorInsufficientBuffer, UInt32.ofNat info.length, []⟩

theorem profileSources_of_answers_timerSources :
    ∃ fuel, (profileSources ⟨.b32, true⟩ timerAnswers fuel ⟨[], ()⟩).1 =
      .ok (some (.ok [⟨2, 1, 10000, ""⟩, ⟨5, 1, 10000, "Timer"⟩])) := by
  have hlength : (linkedBytes timerSources).length ≤ 64 := by decide
  have hlinkable : Linkable timerSources := by
    intro e he
    rw [List.mem_singleton.mp he]
    decide
  have hanswers : Answers timerAnswers traceProfileSourceListInfo
      fun _ => linkedBytes timerSources :=
    { small := fun _ => Nat.lt_of_le_of_lt hlength (by decide)
      fits := fun _ _ h => if_pos h
      refused := fun _ length h => by
        rw [timerAnswers]
        dsimp only
        rw [if_neg (Nat.not_le.mpr h)]
        exact ⟨rfl, rfl⟩ }
  obtain ⟨fuel, calls, -, -, -, hconstant⟩ := profileSources_of_answers ⟨.b32, true⟩ timerAnswers
    (fun _ => timerSources) ⟨[], ()⟩ (fun _ => hlinkable)
    (fun _ => Nat.le_trans hlength (by decide)) hanswers
  exact ⟨fuel, (hconstant fun _ => rfl).2⟩

end Ferrisetw2
