import Ferrisetw2.Lib.Accumulators
import Ferrisetw2.Trace.Lifetime
import Mathlib.Order.Lattice.Nat

/-!
# Counters

A callback that has looked up its context counts what it brings. An event adds one to
`events_handled`. A buffer brings running totals of the whole session, so the counters keep the
greatest ones. Each counter is atomic and by itself: a callback updates them one after the other,
any number of callbacks do so at a time, and a trace can be closed meanwhile.

## Main definitions

* `onEvent`, `onBuffer` — the updates of a callback
* `countAct` — the system of `Trace.Lifetime`, where callbacks count
* `inFlight` — what callbacks have yet to count
* `Detached` — callback data that no trace and no callback has any more

## Main results

* `counters_account_for_callbacks` — no callback is lost, none counts twice, and nothing is counted
  after the last one
-/

namespace Ferrisetw2

open Rust Interleaving Accumulators

/-- The counters of `CallbackData`. -/
inductive Counter where
  | eventsHandled
  | buffersRead
  | eventsLost
  deriving DecidableEq, Repr

/-- `fetch_add`, which wraps, and `fetch_max`. -/
def Counter.fetch (t : Target) : Counter → ℕ → ℕ → ℕ
  | .eventsHandled, value, n => (value + n) % usizeCount t
  | .buffersRead, value, n => max value n
  | .eventsLost, value, n => max value n

instance (t : Target) (counter : Counter) : RightCommutative (counter.fetch t) where
  right_comm value n m := by
    cases counter with
    | eventsHandled =>
      rw [Counter.fetch, Counter.fetch, Counter.fetch, Counter.fetch, Nat.mod_add_mod,
        Nat.mod_add_mod, Nat.add_right_comm]
    | buffersRead | eventsLost => exact max_right_comm value n m

/-- A counter of some callback data, and what it is updated with. -/
abbrev CounterUpdate (D : Type) := (D × Counter) × ℕ

/-- The counters in `CallbackData::on_event`, for either kind of trace. -/
def onEvent {D : Type} (data : D) : List (CounterUpdate D) := [((data, .eventsHandled), 1)]

/-- `CallbackData::on_buffer`, for either kind of trace. -/
def onBuffer {D : Type} (data : D) (buffersRead eventsLost : UInt32) : List (CounterUpdate D) :=
  [((data, .buffersRead), buffersRead.toNat), ((data, .eventsLost), eventsLost.toNat)]

/-- What Windows calls a thunk with. -/
inductive Delivery where
  /-- `trace_callback_thunk`. -/
  | event
  /-- `buffer_callback_thunk`, and what the log file says. -/
  | buffer (buffersRead eventsLost : UInt32)
  deriving DecidableEq, Repr

namespace Delivery

/-- What a callback counts. -/
def updates {D : Type} (data : D) : Delivery → List (CounterUpdate D)
  | .event => onEvent data
  | .buffer buffersRead eventsLost => onBuffer data buffersRead eventsLost

theorem eq_of_mem_updates {D : Type} {delivery : Delivery} {data : D} {x : CounterUpdate D}
    (h : x ∈ delivery.updates data) : x.1.1 = data := by
  cases delivery with
  | event =>
    cases List.mem_singleton.mp h
    rfl
  | buffer buffersRead eventsLost =>
    rcases List.mem_cons.mp h with rfl | h
    · rfl
    · cases List.mem_singleton.mp h
      rfl

/-- The total of buffers that is reported. -/
def buffersRead : Delivery → ℕ
  | .event => 0
  | .buffer buffersRead _ => buffersRead.toNat

/-- The total of lost events that is reported. -/
def eventsLost : Delivery → ℕ
  | .event => 0
  | .buffer _ eventsLost => eventsLost.toNat

end Delivery

/-! ### The traces -/

variable {T D : Type}

/-- An actor is registering this data, or dispatching to it. -/
def TracePc.Has (data : D) : TracePc D → Prop
  | .minted _ _ data' | .dispatching _ data' => data' = data
  | _ => False

section

variable {t : Target} {u : T} {s s' : TraceSystem T D} {pc pc' : TracePc D} {j : TraceStep D}

/-- Data that no context leads to is not found again, unless it is opened again. -/
theorem traceAct_detached {data : D} (hact : traceAct t u s pc j = some (s', pc'))
    (hmint : j ≠ .mint data) (hget : ∀ id, s.contexts.get id ≠ some data) (hhas : ¬ pc.Has data) :
    (∀ id, s'.contexts.get id ≠ some data) ∧ ¬ pc'.Has data := by
  cases acts_of_traceAct hact with
  | endSession c => exact ⟨hget, hhas⟩
  | startTraceW _ _ | openExisting | openFile | giveUp c | notOpened origin id _
  | openTraceW origin id _ _ | handOver tr | abandon c h id | stop tr | close tr | drop tr
  | miss _ | dispatch id _ => exact ⟨hget, not_false⟩
  | mint origin data' => exact ⟨hget, fun heq => hmint (congrArg _ heq)⟩
  | insert origin id data' =>
    refine ⟨fun id' => ?_, not_false⟩
    rw [ContextRegistry.get_insert]
    split
    · exact fun heq => hhas (Option.some.inj heq)
    · exact hget id'
  | release context r todo done =>
    refine ⟨fun id' => ?_, not_false⟩
    cases r with
    | retire id =>
      show (s.contexts.unregister id).get id' ≠ some data
      rw [ContextRegistry.get_unregister]
      split
      · exact Option.some_ne_none data ∘ Eq.symm
      · exact hget id'
    | closeTrace h | stop c =>
      rw [releaseAct]
      split <;> exact hget id'
  | hit hsome =>
    refine ⟨hget, ?_⟩
    rintro rfl
    exact hget _ hsome

/-- Only a callback that goes on is dispatched. -/
theorem dispatched_eq_of_traceAct (hact : traceAct t u s pc j = some (s', pc'))
    (hj : j ≠ .dispatch) : s'.dispatched = s.dispatched := by
  cases acts_of_traceAct hact with
  | dispatch id data => exact absurd rfl hj
  | release context r todo done =>
    cases r with
    | retire id => rfl
    | closeTrace h | stop c =>
      rw [releaseAct]
      split <;> rfl
  | _ => rfl

end

/-! ### The system -/

/-- What actors share, with the counters of all callback data. -/
structure CountSystem (T D : Type) where
  system : TraceSystem T D
  counters : D × Counter → ℕ
  /-- What callbacks brought, and for whom. -/
  delivered : List (D × Delivery)

/-- Where an actor is. A callback has these updates left to make. -/
structure CountPc (D : Type) where
  trace : TracePc D
  todo : List (CounterUpdate D)

/-- No context leads to this data, none is being registered, and no callback is under way. -/
structure Detached (data : D) (c : Config T (CountSystem T D) (CountPc D)) : Prop where
  get_ne : ∀ id, c.shared.system.contexts.get id ≠ some data
  not_has : ∀ u, ¬ (c.pc u).trace.Has data
  not_todo : ∀ u, ∀ x ∈ (c.pc u).todo, x.1.1 ≠ data

section

variable [DecidableEq T] {c : Config T (CountSystem T D) (CountPc D)} {u : T}

/-- What one actor changes. -/
theorem Detached.update {data : D} (h : Detached data c) {s' : CountSystem T D} {pc' : CountPc D}
    (hget : ∀ id, s'.system.contexts.get id ≠ some data) (hhas : ¬ pc'.trace.Has data)
    (htodo : ∀ x ∈ pc'.todo, x.1.1 ≠ data) : Detached data ⟨s', Function.update c.pc u pc'⟩ := by
  have hpc : ∀ v, ¬ (Function.update c.pc u pc' v).trace.Has data ∧
      ∀ x ∈ (Function.update c.pc u pc' v).todo, x.1.1 ≠ data := by
    intro v
    by_cases hv : v = u
    · subst hv
      rw [Function.update_self]
      exact ⟨hhas, htodo⟩
    · rw [Function.update_of_ne hv]
      exact ⟨h.not_has v, h.not_todo v⟩
  exact ⟨hget, fun v => (hpc v).1, fun v => (hpc v).2⟩

/-- The updates that are left to make, after a step. -/
theorem todo_update (trace : TracePc D) (todo : List (CounterUpdate D)) :
    (fun v => (Function.update c.pc u ⟨trace, todo⟩ v).todo) =
      Function.update (fun v => (c.pc v).todo) u todo := by
  funext v
  by_cases hv : v = u
  · subst hv
    rw [Function.update_self, Function.update_self]
  · rw [Function.update_of_ne hv, Function.update_of_ne hv]

end

/-- What an actor can do. -/
inductive CountStep (D : Type) where
  /-- A step of the traces, up to the lookup of a callback. -/
  | trace (i : TraceStep D)
  /-- A callback goes on with the data it has found. -/
  | deliver (delivery : Delivery)
  /-- The next update of a callback. -/
  | count

variable [DecidableEq D]

/-- The steps of an actor. -/
def countAct (t : Target) (u : T) (s : CountSystem T D) :
    CountPc D → CountStep D → Option (CountSystem T D × CountPc D)
  | ⟨_, []⟩, .trace .dispatch => none
  | ⟨pc, []⟩, .trace i =>
    (traceAct t u s.system pc i).map fun (system, pc) => ({ s with system := system }, ⟨pc, []⟩)
  | ⟨.dispatching id data, []⟩, .deliver delivery =>
    (traceAct t u s.system (.dispatching id data) .dispatch).map fun (system, pc) =>
      ({ s with system := system, delivered := s.delivered ++ [(data, delivery)] },
        ⟨pc, delivery.updates data⟩)
  | ⟨pc, ((data, counter), n) :: todo⟩, .count =>
    some ({ s with counters := Function.update s.counters (data, counter)
                      (counter.fetch t (s.counters (data, counter)) n) }, ⟨pc, todo⟩)
  | _, _ => none

/-- A process that has just started. -/
def countStart : Config T (CountSystem T D) (CountPc D) where
  shared := ⟨systemStart.shared, fun _ => 0, []⟩
  pc u := ⟨systemStart.pc u, []⟩

/-- **What a step does.** -/
theorem countAct_cases {t : Target} {u : T} {s s' : CountSystem T D} {pc pc' : CountPc D}
    {i : CountStep D} (hact : countAct t u s pc i = some (s', pc')) :
    (∃ j system trace, i = .trace j ∧ j ≠ .dispatch ∧ pc.todo = [] ∧
      traceAct t u s.system pc.trace j = some (system, trace) ∧
      s' = { s with system := system } ∧ pc' = ⟨trace, []⟩) ∨
    (∃ delivery id data, i = .deliver delivery ∧ pc = ⟨.dispatching id data, []⟩ ∧
      s' = ⟨{ s.system with dispatched := s.system.dispatched ++ [(id, data)] }, s.counters,
        s.delivered ++ [(data, delivery)]⟩ ∧ pc' = ⟨.idle, delivery.updates data⟩) ∨
    ∃ data counter n todo, i = .count ∧ pc.todo = ((data, counter), n) :: todo ∧
      s' = { s with counters := Function.update s.counters (data, counter)
                      (counter.fetch t (s.counters (data, counter)) n) } ∧
      pc' = ⟨pc.trace, todo⟩ := by
  rw [countAct.eq_def] at hact
  split at hact
  · cases hact
  · rename_i trace j hj
    obtain ⟨⟨system, trace'⟩, htrace, heq⟩ := Option.map_eq_some_iff.mp hact
    cases heq
    exact .inl ⟨j, system, trace', rfl, hj, rfl, htrace, rfl, rfl⟩
  · rename_i id data delivery
    cases hact
    exact .inr (.inl ⟨delivery, id, data, rfl, rfl, rfl, rfl⟩)
  · rename_i trace data counter n todo
    cases hact
    exact .inr (.inr ⟨data, counter, n, todo, rfl, rfl, rfl, rfl⟩)
  · cases hact

/-! ### The books of the counters -/

/-- The events that were brought for this data. -/
def eventsOf (data : D) (delivered : List (D × Delivery)) : ℕ := delivered.count (data, .event)

/-- The greatest total that was brought for this data. -/
def greatest (total : Delivery → ℕ) (data : D) (delivered : List (D × Delivery)) : ℕ :=
  ((delivered.filter (·.1 = data)).map (total ·.2)).foldr max 0

/-- The updates of all the callbacks. -/
def updatesOfAll (delivered : List (D × Delivery)) : List (CounterUpdate D) :=
  delivered.flatMap fun r => r.2.updates r.1

section Amounts

variable {t : Target} {data data' : D} {delivered : List (D × Delivery)}

theorem foldl_fetch_eventsHandled (amounts : Multiset ℕ) (value : ℕ) :
    amounts.foldl (Counter.eventsHandled.fetch t) value % usizeCount t =
      (value + amounts.sum) % usizeCount t := by
  induction amounts using Multiset.induction generalizing value with
  | empty => rfl
  | cons n amounts ih =>
    rw [Multiset.foldl_cons, ih, Multiset.sum_cons, Counter.fetch, Nat.mod_add_mod, Nat.add_assoc]

theorem foldl_max (amounts : Multiset ℕ) (value : ℕ) :
    amounts.foldl max value = max value amounts.sup := by
  induction amounts using Multiset.induction generalizing value with
  | empty => exact (max_eq_left (Nat.zero_le value)).symm
  | cons n amounts ih => rw [Multiset.foldl_cons, ih, Multiset.sup_cons, max_assoc]

/-- A callback counts for its own data only. -/
theorem updatesOf_updates_of_ne (h : data' ≠ data) (counter : Counter) (delivery : Delivery) :
    updatesOf (data, counter) (delivery.updates data') = 0 := by
  have hkey : ∀ counter', ((data', counter') : D × Counter) ≠ (data, counter) :=
    fun counter' heq => h (Prod.mk.inj heq).1
  cases delivery with
  | event => exact updatesOf_cons_of_ne (hkey _) _ _
  | buffer _ _ =>
    exact (updatesOf_cons_of_ne (hkey _) _ _).trans (updatesOf_cons_of_ne (hkey _) _ _)

theorem sum_updatesOfAll :
    (updatesOf (data, .eventsHandled) (updatesOfAll delivered)).sum = eventsOf data delivered := by
  induction delivered with
  | nil => rfl
  | cons r delivered ih =>
    obtain ⟨data', delivery⟩ := r
    rw [updatesOfAll, List.flatMap_cons, updatesOf_append, Multiset.sum_add, ← updatesOfAll, ih,
      eventsOf, eventsOf, List.count_cons, Nat.add_comm]
    by_cases h : data' = data
    · subst h
      cases delivery <;> simp [Delivery.updates, onEvent, onBuffer, updatesOf]
    · rw [updatesOf_updates_of_ne h]
      simp [h]

theorem sup_updatesOfAll {counter : Counter} {total : Delivery → ℕ}
    (htotal : ∀ delivery, (updatesOf (data, counter) (delivery.updates data)).sup =
      total delivery) :
    (updatesOf (data, counter) (updatesOfAll delivered)).sup = greatest total data delivered := by
  induction delivered with
  | nil => rfl
  | cons r delivered ih =>
    obtain ⟨data', delivery⟩ := r
    rw [updatesOfAll, List.flatMap_cons, updatesOf_append, Multiset.sup_add, ← updatesOfAll, ih]
    by_cases h : data' = data
    · subst h
      rw [htotal, greatest, greatest, List.filter_cons_of_pos (by simp), List.map_cons,
        List.foldr_cons]
    · rw [updatesOf_updates_of_ne h, greatest, greatest, List.filter_cons_of_neg (by simpa using h)]
      exact max_eq_right (Nat.zero_le _)

end Amounts

/-! ### Runs -/

section Runs

variable {t : Target} {c c' : Config T (CountSystem T D) (CountPc D)}
  {is : List (T × CountStep D)} {u : T} {i : CountStep D}

/-- What callbacks have yet to count. -/
def inFlight [Fintype T] (c : Config T (CountSystem T D) (CountPc D)) (data : D)
    (counter : Counter) : Multiset ℕ :=
  owed (fun u => (c.pc u).todo) (data, counter)

/-- The counters of a configuration, with what callbacks have yet to count, come to what callbacks
brought. -/
def Accounted [Fintype T] (t : Target) (c : Config T (CountSystem T D) (CountPc D)) : Prop :=
  Balanced (fun k : D × Counter => k.2.fetch t) (fun _ => 0) c.shared.counters
    (updatesOfAll c.shared.delivered) (fun u => (c.pc u).todo)

theorem max_inFlight [Fintype T] (hc : Accounted t c) {data : D} {counter : Counter}
    {total : Delivery → ℕ} (hmax : counter.fetch t = max)
    (htotal : ∀ delivery, (updatesOf (data, counter) (delivery.updates data)).sup =
      total delivery) :
    max (c.shared.counters (data, counter)) (inFlight c data counter).sup =
      greatest total data c.shared.delivered := by
  have hbooks := hc (data, counter)
  simp only [hmax] at hbooks
  rw [foldl_max, foldl_max, Nat.zero_max, sup_updatesOfAll htotal] at hbooks
  exact hbooks

variable [DecidableEq T]

theorem accounted_step [Fintype T] (h : step (countAct t) c u i = some c') (hc : Accounted t c) :
    Accounted t c' := by
  obtain ⟨s', pc', hact, rfl⟩ := step_eq_some_iff.mp h
  rcases countAct_cases hact with ⟨j, system, trace, -, -, hnil, -, rfl, rfl⟩ |
    ⟨delivery, id, data, -, hpc, rfl, rfl⟩ | ⟨data, counter, n, todo, -, hcons, rfl, rfl⟩
  · have htake := Balanced.take hc hnil []
    rw [List.append_nil] at htake
    rw [Accounted, todo_update]
    exact htake
  · have htake := Balanced.take hc (t := u) (by rw [hpc]) (delivery.updates data)
    rw [Accounted, todo_update, updatesOfAll, List.flatMap_append, List.flatMap_singleton]
    exact htake
  · rw [Accounted, todo_update]
    exact Balanced.apply hc hcons

theorem accounted_run [Fintype T] (h : run (countAct t) countStart is = some c) :
    Accounted t c :=
  run_invariant (Accounted t) (fun _ _ _ _ => accounted_step) h
    (balanced_of_forall_nil fun _ => rfl)

/-- A counter changes only when a thread updates it. -/
theorem counters_step (h : step (countAct t) c u i = some c') (key : D × Counter) :
    c'.shared.counters key = c.shared.counters key ∨ ∃ n todo, (c.pc u).todo = (key, n) :: todo ∧
      c'.shared.counters key = key.2.fetch t (c.shared.counters key) n := by
  obtain ⟨s', pc', hact, rfl⟩ := step_eq_some_iff.mp h
  rcases countAct_cases hact with ⟨j, system, trace, -, -, -, -, rfl, -⟩ |
    ⟨delivery, id, data, -, -, rfl, -⟩ | ⟨data, counter, n, todo, -, hcons, rfl, -⟩
  · exact .inl rfl
  · exact .inl rfl
  · by_cases hkey : key = (data, counter)
    · subst hkey
      exact .inr ⟨n, todo, hcons, Function.update_self ..⟩
    · exact .inl (Function.update_of_ne hkey ..)

/-- The count of events keeps to `usize`. -/
theorem eventsHandled_lt (h : run (countAct t) countStart is = some c) (data : D) :
    c.shared.counters (data, .eventsHandled) < usizeCount t := by
  have hpos : 0 < usizeCount t := Nat.succ_pos _
  refine run_invariant (fun c => c.shared.counters (data, .eventsHandled) < usizeCount t) ?_ h hpos
  intro c u i c' hstep hlt
  rcases counters_step hstep (data, .eventsHandled) with heq | ⟨n, todo, -, heq⟩
  · rw [heq]
    exact hlt
  · rw [heq]
    exact Nat.mod_lt _ hpos

/-- A greatest total only grows. -/
theorem counters_mono {counter : Counter} (hmax : counter.fetch t = max)
    (h : run (countAct t) c is = some c') (data : D) :
    c.shared.counters (data, counter) ≤ c'.shared.counters (data, counter) := by
  refine run_invariant
    (fun d => c.shared.counters (data, counter) ≤ d.shared.counters (data, counter)) ?_ h le_rfl
  intro d u i d' hstep hle
  rcases counters_step hstep (data, counter) with heq | ⟨n, todo, -, heq⟩
  · rw [heq]
    exact hle
  · rw [heq, hmax]
    exact hle.trans (le_max_left _ _)

/-! ### The last callback -/

theorem detached_step {data : D} (h : step (countAct t) c u i = some c')
    (hmint : i ≠ .trace (.mint data)) (hc : Detached data c) : Detached data c' := by
  obtain ⟨s', pc', hact, rfl⟩ := step_eq_some_iff.mp h
  rcases countAct_cases hact with ⟨j, system, trace, rfl, -, -, htrace, rfl, rfl⟩ |
    ⟨delivery, id, data', -, hpc, rfl, rfl⟩ | ⟨data', counter, n, todo, -, hcons, rfl, rfl⟩
  · obtain ⟨hget, hhas⟩ :=
      traceAct_detached htrace (fun heq => hmint (congrArg _ heq)) hc.get_ne (hc.not_has u)
    exact hc.update hget hhas fun x hx => absurd hx List.not_mem_nil
  · have hne : data' ≠ data := by
      have hhas := hc.not_has u
      rwa [hpc] at hhas
    refine hc.update hc.get_ne not_false fun x hx => ?_
    rwa [Delivery.eq_of_mem_updates hx]
  · refine hc.update hc.get_ne (hc.not_has u) fun x hx => ?_
    exact hc.not_todo u x (hcons ▸ List.mem_cons_of_mem _ hx)

/-- What is detached stays detached, and its counters stay as they are. -/
theorem detached_run {js : List (T × CountStep D)} {data : D} (h : run (countAct t) c js = some c')
    (hmint : ∀ u, (u, .trace (.mint data)) ∉ js) (hc : Detached data c) :
    Detached data c' ∧ ∀ counter, c'.shared.counters (data, counter) =
      c.shared.counters (data, counter) := by
  have hmeets : Meets (countAct t) (fun _ _ j => j ≠ .trace (.mint data)) c js := by
    refine meets_of_forall_mem fun u j hmem => ?_
    rintro rfl
    exact hmint u hmem
  refine run_invariant_of_meets
    (fun d => Detached data d ∧ ∀ counter, d.shared.counters (data, counter) =
      c.shared.counters (data, counter)) ?_ h hmeets ⟨hc, fun _ => rfl⟩
  rintro d u j d' hstep hne ⟨hd, hkept⟩
  refine ⟨detached_step hstep hne hd, fun counter => ?_⟩
  rcases counters_step hstep (data, counter) with heq | ⟨n, todo, hcons, -⟩
  · rw [heq, hkept]
  · exact absurd rfl (hd.not_todo u _ (hcons ▸ List.mem_cons_self))

/-- What is delivered is what the system dispatches. -/
theorem delivered_run (h : run (countAct t) countStart is = some c) :
    c.shared.delivered.map (·.1) = c.shared.system.dispatched.map (·.2) := by
  refine run_invariant (fun c : Config T (CountSystem T D) (CountPc D) =>
    c.shared.delivered.map (·.1) = c.shared.system.dispatched.map (·.2)) ?_ h rfl
  intro c u i c' hstep hc
  obtain ⟨s', pc', hact, rfl⟩ := step_eq_some_iff.mp hstep
  rcases countAct_cases hact with ⟨j, system, trace, -, hj, -, htrace, rfl, -⟩ |
    ⟨delivery, id, data, -, -, rfl, -⟩ | ⟨data, counter, n, todo, -, -, rfl, -⟩
  · exact hc.trans (congrArg _ (dispatched_eq_of_traceAct htrace hj).symm)
  · show List.map _ (_ ++ [_]) = List.map _ (_ ++ [_])
    rw [List.map_append, List.map_append, hc]
    rfl
  · exact hc

/-- **No callback is lost, and none counts twice.** In any interleaving of starts, opens, releases
and callbacks: deliveries are the callbacks that were dispatched; `events_handled`, with the events
that are still to be counted, is how many events were delivered, up to wrapping; either total, with
the reports still to be counted, is the greatest one that was delivered, and it never goes down.
Once no context leads to the data and no callback is under way, none of its counters changes. -/
theorem counters_account_for_callbacks [Fintype T] (t : Target)
    (hrun : run (countAct t) countStart is = some c) (data : D) :
    c.shared.delivered.map (·.1) = c.shared.system.dispatched.map (·.2) ∧
    (c.shared.counters (data, .eventsHandled) < usizeCount t ∧
      (c.shared.counters (data, .eventsHandled) + (inFlight c data .eventsHandled).sum) %
        usizeCount t = eventsOf data c.shared.delivered % usizeCount t) ∧
    max (c.shared.counters (data, .buffersRead)) (inFlight c data .buffersRead).sup =
      greatest Delivery.buffersRead data c.shared.delivered ∧
    max (c.shared.counters (data, .eventsLost)) (inFlight c data .eventsLost).sup =
      greatest Delivery.eventsLost data c.shared.delivered ∧
    ∀ js c', run (countAct t) c js = some c' →
      c.shared.counters (data, .buffersRead) ≤ c'.shared.counters (data, .buffersRead) ∧
      c.shared.counters (data, .eventsLost) ≤ c'.shared.counters (data, .eventsLost) ∧
      (Detached data c → (∀ u, (u, .trace (.mint data)) ∉ js) →
        ∀ counter, c'.shared.counters (data, counter) = c.shared.counters (data, counter)) := by
  have hbooks := accounted_run hrun
  refine ⟨delivered_run hrun, ⟨eventsHandled_lt hrun data, ?_⟩, max_inFlight hbooks rfl ?_,
    max_inFlight hbooks rfl ?_, fun js c' hjs =>
    ⟨counters_mono rfl hjs data, counters_mono rfl hjs data, fun hdetached hmint =>
      (detached_run hjs hmint hdetached).2⟩⟩
  · have hevents := congrArg (· % usizeCount t) (hbooks (data, .eventsHandled))
    simp only [foldl_fetch_eventsHandled, sum_updatesOfAll, Nat.zero_add] at hevents
    exact hevents
  · intro delivery
    cases delivery <;> simp [Delivery.updates, onEvent, onBuffer, updatesOf, Delivery.buffersRead]
  · intro delivery
    cases delivery <;> simp [Delivery.updates, onEvent, onBuffer, updatesOf, Delivery.eventsLost]

end Runs

/-- An event and a buffer of a trace, which is dropped before the buffer is counted. -/
def droppedEarly : List (Bool × CountStep ℕ) :=
  [(true, .trace .openFile), (true, .trace (.mint 5)), (true, .trace .insert),
    (true, .trace (.openTraceW 3)), (true, .trace .handOver), (false, .trace (.lookup 1)),
    (false, .deliver .event), (false, .count), (false, .trace (.lookup 1)),
    (true, .trace .drop), (true, .trace (.release true)), (false, .deliver (.buffer 9 2)),
    (true, .trace (.release true)), (true, .trace (.release true)), (false, .count),
    (false, .count)]

/-- A third callback comes too late. -/
theorem counters_account_for_callbacks_droppedEarly :
    ∃ c c' : Config Bool (CountSystem Bool ℕ) (CountPc ℕ),
      run (countAct ⟨.b32, true⟩) countStart droppedEarly = some c ∧
      run (countAct ⟨.b32, true⟩) c [(false, .trace (.lookup 1))] = some c' ∧
      c.shared.counters (5, .buffersRead) = 9 ∧ Detached 5 c ∧
      c'.shared.counters (5, .buffersRead) = c.shared.counters (5, .buffersRead) := by
  have hget : ∀ id, ((((ContextRegistry.start.mint ⟨.b32, true⟩).2.insert 1 5).unregister
      1).unregister 1).get id ≠ some 5 := by
    intro id
    rw [ContextRegistry.unregister_unregister, ContextRegistry.get_unregister,
      ContextRegistry.get_insert]
    split_ifs
    · exact Option.some_ne_none 5 ∘ Eq.symm
    · exact Option.some_ne_none 5 ∘ Eq.symm
  obtain ⟨c, c', hrun, hjs, hread, hdetached⟩ :
      ∃ c c' : Config Bool (CountSystem Bool ℕ) (CountPc ℕ),
        run (countAct ⟨.b32, true⟩) countStart droppedEarly = some c ∧
        run (countAct ⟨.b32, true⟩) c [(false, .trace (.lookup 1))] = some c' ∧
        c.shared.counters (5, .buffersRead) = 9 ∧ Detached 5 c := by
    refine ⟨_, _, rfl, rfl, rfl, hget, fun u => ?_, fun u => ?_⟩
    · cases u <;> exact not_false
    · cases u <;> exact fun _ h => absurd h List.not_mem_nil
  obtain ⟨-, -, -, -, hlater⟩ := counters_account_for_callbacks ⟨.b32, true⟩ hrun 5
  refine ⟨c, c', hrun, hjs, hread, hdetached, (hlater _ c' hjs).2.2 hdetached (fun u hu => ?_) _⟩
  cases List.mem_singleton.mp hu

end Ferrisetw2
