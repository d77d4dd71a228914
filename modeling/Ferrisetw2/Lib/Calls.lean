import Mathlib.Data.List.Basic

/-!
# Programs that call an environment

A program makes calls, and what they answer is up to an *environment*: any function from the calls
made so far, and the one made now, to an answer. It also has a state of its own, and it can end
early with an error; the state, and the calls made until then, stay.

Cleanups are programs that run on the way out. Their own errors are ignored.

## Main definitions

* `Calls.Prog`, with `pure`, `error`, `bind`, `mapResult`, `attempt`, `onError`, `forEach`,
  `call`, `modify`
* `Calls.Within` — a program makes calls of one kind only, and leaves the state alone
* `Calls.Makes` — the same, without the state

## Main results

* `Within.bind`, `Makes.bind` and so on — the rules for programs put together
* `bind_of_ok`, `bind_call`, `bind_onError_of_error` and so on — how a run goes on
-/

namespace Calls

/-- The calls made so far with their answers, and the state of the program. -/
structure World (Q A σ : Type*) where
  calls : List (Q × A)
  state : σ

/-- How calls are answered, given those before. -/
abbrev Env (Q A : Type*) := List (Q × A) → Q → A

/-- Programs that call and can fail. -/
abbrev Prog (Q A σ ε α : Type*) := World Q A σ → Except ε α × World Q A σ

variable {Q A σ ε ε' α β γ : Type*}

/-- `Ok`. -/
def pure (a : α) : Prog Q A σ ε α := fun w => (.ok a, w)

/-- `Err`. -/
def error (e : ε) : Prog Q A σ ε α := fun w => (.error e, w)

/-- `?`: what follows runs on a value only. -/
def bind (x : Prog Q A σ ε α) (f : α → Prog Q A σ ε β) : Prog Q A σ ε β := fun w =>
  match x w with
  | (.error e, w') => (.error e, w')
  | (.ok a, w') => f a w'

/-- What `x` returns, looked at. -/
def mapResult (f : Except ε α → Except ε' β) (x : Prog Q A σ ε α) : Prog Q A σ ε' β := fun w =>
  (f (x w).1, (x w).2)

/-- `x` runs, and its errors are values. -/
def attempt (x : Prog Q A σ ε α) : Prog Q A σ ε' (Except ε α) := mapResult .ok x

/-- `cleanup` runs when `x` has failed, and what it returns is ignored. -/
def onError (x : Prog Q A σ ε α) (cleanup : Prog Q A σ ε' β) : Prog Q A σ ε α := fun w =>
  match x w with
  | (.error e, w') => (.error e, (cleanup w').2)
  | (.ok a, w') => (.ok a, w')

/-- Each of a list in turn, up to the first error. -/
def forEach (f : β → Prog Q A σ ε Unit) : List β → Prog Q A σ ε Unit
  | [] => pure ()
  | b :: bs => bind (f b) fun _ => forEach f bs

/-- A call. -/
def call (env : Env Q A) (q : Q) : Prog Q A σ ε A := fun w =>
  (.ok (env w.calls q), { w with calls := w.calls ++ [(q, env w.calls q)] })

/-- A change of the state. -/
def modify (f : σ → α × σ) : Prog Q A σ ε α := fun w =>
  (.ok (f w.state).1, { w with state := (f w.state).2 })

/-! ### Runs -/

theorem bind_of_ok {x : Prog Q A σ ε α} {f : α → Prog Q A σ ε β} {w w' : World Q A σ} {a : α}
    (h : x w = (.ok a, w')) : bind x f w = f a w' := by
  rw [bind, h]

theorem bind_of_error {x : Prog Q A σ ε α} {f : α → Prog Q A σ ε β} {w w' : World Q A σ} {e : ε}
    (h : x w = (.error e, w')) : bind x f w = (.error e, w') := by
  rw [bind, h]

theorem bind_call (env : Env Q A) (q : Q) (f : A → Prog Q A σ ε β) (w : World Q A σ) :
    bind (call env q) f w =
      f (env w.calls q) { w with calls := w.calls ++ [(q, env w.calls q)] } := rfl

theorem bind_modify (g : σ → α × σ) (f : α → Prog Q A σ ε β) (w : World Q A σ) :
    bind (modify g) f w = f (g w.state).1 { w with state := (g w.state).2 } := rfl

theorem bind_attempt (x : Prog Q A σ ε' α) (f : Except ε' α → Prog Q A σ ε β)
    (w : World Q A σ) : bind (attempt x) f w = f (x w).1 (x w).2 := rfl

/-- A step that succeeds is not cleaned up after. -/
theorem bind_onError_of_ok {x : Prog Q A σ ε α} {f : α → Prog Q A σ ε β} {a : α}
    {w w' : World Q A σ} (cleanup : Prog Q A σ ε' γ) (h : x w = (.ok a, w')) :
    bind (onError x cleanup) f w = f a w' :=
  bind_of_ok (by rw [onError, h])

/-- A step that fails is cleaned up after, and nothing follows. -/
theorem bind_onError_of_error {x : Prog Q A σ ε α} {f : α → Prog Q A σ ε β} {e : ε}
    {w w' : World Q A σ} (cleanup : Prog Q A σ ε' γ) (h : x w = (.error e, w')) :
    bind (onError x cleanup) f w = (.error e, (cleanup w').2) :=
  bind_of_error (by rw [onError, h])

/-! ### Calls of one kind -/

/-- The program makes calls of one kind only, and leaves the state alone. -/
def Within (P : Q → Prop) (x : Prog Q A σ ε α) : Prop :=
  ∀ w, (x w).2.state = w.state ∧ ∃ l, (x w).2.calls = w.calls ++ l ∧ ∀ e ∈ l, P e.1

variable {P : Q → Prop}

theorem Within.pure (a : α) : Within P (Calls.pure a : Prog Q A σ ε α) := fun w =>
  ⟨rfl, [], (List.append_nil w.calls).symm, nofun⟩

theorem Within.error (e : ε) : Within P (Calls.error e : Prog Q A σ ε α) := fun w =>
  ⟨rfl, [], (List.append_nil w.calls).symm, nofun⟩

theorem Within.call (env : Env Q A) {q : Q} (hq : P q) :
    Within P (Calls.call env q : Prog Q A σ ε A) := by
  intro w
  refine ⟨rfl, [(q, env w.calls q)], rfl, fun e he => ?_⟩
  rw [List.mem_singleton.mp he]
  exact hq

theorem Within.bind {x : Prog Q A σ ε α} {f : α → Prog Q A σ ε β} (hx : Within P x)
    (hf : ∀ a, Within P (f a)) : Within P (Calls.bind x f) := by
  intro w
  obtain ⟨hstate, l, hl, hP⟩ := hx w
  cases hr : x w with
  | mk r w' =>
    rw [hr] at hstate hl
    cases r with
    | error e =>
      rw [bind_of_error hr]
      exact ⟨hstate, l, hl, hP⟩
    | ok a =>
      rw [bind_of_ok hr]
      obtain ⟨hstate', l', hl', hP'⟩ := hf a w'
      refine ⟨hstate'.trans hstate, l ++ l', ?_, ?_⟩
      · rw [hl', show w'.calls = w.calls ++ l from hl, List.append_assoc]
      · intro e he
        rcases List.mem_append.mp he with he | he
        · exact hP e he
        · exact hP' e he

theorem Within.mapResult {f : Except ε α → Except ε' β} {x : Prog Q A σ ε α} (hx : Within P x) :
    Within P (Calls.mapResult f x) := fun w => hx w

theorem Within.forEach {f : β → Prog Q A σ ε Unit} (hf : ∀ b, Within P (f b)) (bs : List β) :
    Within P (Calls.forEach f bs) := by
  induction bs with
  | nil => exact Within.pure ()
  | cons b bs ih => exact Within.bind (hf b) fun _ => ih

/-- The program makes calls of one kind only, whatever it does to the state. -/
def Makes (P : Q → Prop) (x : Prog Q A σ ε α) : Prop :=
  ∀ w, ∃ l, (x w).2.calls = w.calls ++ l ∧ ∀ e ∈ l, P e.1

theorem Within.makes {P R : Q → Prop} {x : Prog Q A σ ε α} (hx : Within P x)
    (himp : ∀ q, P q → R q) : Makes R x := by
  intro w
  obtain ⟨-, l, hl, hP⟩ := hx w
  exact ⟨l, hl, fun e he => himp e.1 (hP e he)⟩

theorem Makes.pure (a : α) : Makes P (Calls.pure a : Prog Q A σ ε α) :=
  (Within.pure a).makes fun _ => id

theorem Makes.error (e : ε) : Makes P (Calls.error e : Prog Q A σ ε α) :=
  (Within.error e).makes fun _ => id

theorem Makes.call (env : Env Q A) {q : Q} (hq : P q) :
    Makes P (Calls.call env q : Prog Q A σ ε A) := (Within.call env hq).makes fun _ => id

theorem Makes.modify (f : σ → α × σ) : Makes P (Calls.modify f : Prog Q A σ ε α) := fun w =>
  ⟨[], (List.append_nil w.calls).symm, nofun⟩

theorem Makes.mapResult {f : Except ε α → Except ε' β} {x : Prog Q A σ ε α} (hx : Makes P x) :
    Makes P (Calls.mapResult f x) := fun w => hx w

/-- What follows a run adds its calls to those of the run. -/
theorem Makes.after {x : Prog Q A σ ε α} {y : Prog Q A σ ε' β} (hx : Makes P x) (hy : Makes P y)
    (w : World Q A σ) : ∃ l, (y (x w).2).2.calls = w.calls ++ l ∧ ∀ e ∈ l, P e.1 := by
  obtain ⟨l, hl, hP⟩ := hx w
  obtain ⟨l', hl', hP'⟩ := hy (x w).2
  refine ⟨l ++ l', by rw [hl', hl, List.append_assoc], fun e he => ?_⟩
  exact (List.mem_append.mp he).elim (hP e) (hP' e)

theorem Makes.bind {x : Prog Q A σ ε α} {f : α → Prog Q A σ ε β} (hx : Makes P x)
    (hf : ∀ a, Makes P (f a)) : Makes P (Calls.bind x f) := by
  intro w
  rcases hr : x w with ⟨e | a, w'⟩
  · obtain ⟨l, hl, hP⟩ := hx w
    rw [bind_of_error hr]
    exact ⟨l, by rw [← hl, hr], hP⟩
  · obtain ⟨l, hl, hP⟩ := hx.after (hf a) w
    rw [bind_of_ok hr]
    exact ⟨l, by rw [← hl, hr], hP⟩

theorem Makes.onError {x : Prog Q A σ ε α} {cleanup : Prog Q A σ ε' β} (hx : Makes P x)
    (hcleanup : Makes P cleanup) : Makes P (Calls.onError x cleanup) := by
  intro w
  rcases hr : x w with ⟨e | a, w'⟩
  · obtain ⟨l, hl, hP⟩ := hx.after hcleanup w
    rw [Calls.onError, hr]
    exact ⟨l, by rw [← hl, hr], hP⟩
  · obtain ⟨l, hl, hP⟩ := hx w
    rw [Calls.onError, hr]
    exact ⟨l, by rw [← hl, hr], hP⟩

end Calls
