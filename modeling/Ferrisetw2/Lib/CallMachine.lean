import Mathlib.Data.List.Basic

/-!
# Histories of calls

An object with interior mutability is a step function `σ → ι → ο × σ`: a call `ι` in a state `σ`
gives an answer `ο` and a new state. A *history* is a list of calls. The two questions asked about
such an object are which states a history can reach, and whether the answers depend on it.

## Main definitions

* `CallMachine.after`, `CallMachine.answers` — the state and the answers of a history
* `CallMachine.Meets` — every call of a history is made in a state its guard allows

## Main results

* `after_of_invariant` — an invariant of every call holds after every history
* `answers_eq_map` — where an invariant determines the answer, the answers ignore the history
* `answers_of_simulation` — two objects that simulate each other answer alike
* `meets_iff_forall_prefix` — a guarded history, call by call
-/

namespace CallMachine

variable {σ ι ο : Type} (step : σ → ι → ο × σ)

/-- The state after a history. -/
def after (s : σ) : List ι → σ
  | [] => s
  | i :: is => after (step s i).2 is

/-- The answers of a history, in order. -/
def answers (s : σ) : List ι → List ο
  | [] => []
  | i :: is => (step s i).1 :: answers (step s i).2 is

/-- Every call of the history is made in a state where its guard holds. -/
def Meets (guard : σ → ι → Prop) (s : σ) : List ι → Prop
  | [] => True
  | i :: is => guard s i ∧ Meets guard (step s i).2 is

variable {step}

/-- **The invariant rule**: what every call preserves, every history preserves. -/
theorem after_of_invariant (Inv : σ → Prop) (hstep : ∀ s i, Inv s → Inv (step s i).2) :
    ∀ {s : σ} (is : List ι), Inv s → Inv (after step s is)
  | _, [], h => h
  | s, i :: is, h => after_of_invariant Inv hstep is (hstep s i h)

/-- What a call relates its states by, a history does, when the relation is a preorder. -/
theorem after_of_step_rel (Inv : σ → Prop) (R : σ → σ → Prop) (hrefl : ∀ s, R s s)
    (htrans : ∀ {a b c}, R a b → R b c → R a c) (hinv : ∀ s i, Inv s → Inv (step s i).2)
    (hstep : ∀ s i, Inv s → R s (step s i).2) :
    ∀ {s : σ} (is : List ι), Inv s → R s (after step s is)
  | s, [], _ => hrefl s
  | s, i :: is, h => htrans (hstep s i h)
    (after_of_step_rel Inv R hrefl htrans hinv hstep is (hinv s i h))

/-- **History independence.** Where the invariant and the guard determine the answer to a call,
the answers of a history are those of its calls, one by one. -/
theorem answers_eq_map (Inv : σ → Prop) {guard : σ → ι → Prop} {answer : ι → ο}
    (hinv : ∀ s i, Inv s → Inv (step s i).2)
    (hanswer : ∀ s i, Inv s → guard s i → (step s i).1 = answer i) :
    ∀ {s : σ} (is : List ι), Inv s → Meets step guard s is → answers step s is = is.map answer
  | _, [], _, _ => rfl
  | s, i :: is, h, hm => by
    rw [answers, List.map_cons, hanswer s i h hm.1,
      answers_eq_map Inv hinv hanswer is (hinv s i h) hm.2]

/-- **The simulation rule.** Where related states answer every call alike and stay related, they
answer every history alike. -/
theorem answers_of_simulation {τ : Type} {step' : τ → ι → ο × τ} (R : σ → τ → Prop)
    (hstep : ∀ s u i, R s u → (step s i).1 = (step' u i).1 ∧ R (step s i).2 (step' u i).2)
    {s : σ} {u : τ} (is : List ι) (h : R s u) :
    answers step s is = answers step' u is ∧ R (after step s is) (after step' u is) := by
  induction is generalizing s u with
  | nil => exact ⟨rfl, h⟩
  | cons i is ih =>
    obtain ⟨hanswer, hnext⟩ := hstep s u i h
    obtain ⟨hanswers, hafter⟩ := ih hnext
    exact ⟨by rw [answers, answers, hanswer, hanswers], hafter⟩

/-! ### Cutting a history -/

theorem after_append (s : σ) (is js : List ι) :
    after step s (is ++ js) = after step (after step s is) js := by
  induction is generalizing s with
  | nil => rfl
  | cons i is ih => exact ih (step s i).2

theorem after_concat (s : σ) (is : List ι) (i : ι) :
    after step s (is ++ [i]) = (step (after step s is) i).2 :=
  after_append s is [i]

/-- A guarded history, call by call. -/
theorem meets_iff_forall_prefix {guard : σ → ι → Prop} {s : σ} {is : List ι} :
    Meets step guard s is ↔ ∀ pre i, pre ++ [i] <+: is → guard (after step s pre) i := by
  induction is generalizing s with
  | nil =>
    constructor
    · intro _ pre i h
      exact absurd (List.prefix_nil.mp h) (by simp)
    · exact fun _ => trivial
  | cons j is ih =>
    constructor
    · rintro ⟨hj, hrest⟩ pre i h
      cases pre with
      | nil =>
        obtain ⟨rfl, -⟩ := List.cons_prefix_cons.mp h
        exact hj
      | cons k pre =>
        obtain ⟨rfl, htail⟩ := List.cons_prefix_cons.mp h
        exact ih.mp hrest pre i htail
    · intro h
      refine ⟨h [] j (List.cons_prefix_cons.mpr ⟨rfl, List.nil_prefix⟩), ih.mpr ?_⟩
      intro pre i hpre
      exact h (j :: pre) i (List.cons_prefix_cons.mpr ⟨rfl, hpre⟩)

end CallMachine
