import Ferrisetw2.Lib.Calls

/-!
# Pre- and postconditions

What a program that calls an environment ensures, when it is run where a precondition holds: a
postcondition on what it returns and on the world then, or another on the world in which it fails.
Both see the calls made before, so a postcondition can say what the environment has come to.

## Main definitions

* `Calls.Ensures` — the triples

## Main results

* `Ensures.bind`, `Ensures.call_bind`, `Ensures.onError`, … — the rules for programs put together
* `Makes.ensures` — what calls of a kind do not change, a program that makes no others does not
-/

namespace Calls

variable {Q A σ ε ε' α β γ : Type*} {P : World Q A σ → Prop} {post : α → World Q A σ → Prop}
  {fails : World Q A σ → Prop} {x : Prog Q A σ ε α}

/-- Run where `P` holds, the program returns where `post` does, or fails where `fails` does. -/
def Ensures (P : World Q A σ → Prop) (x : Prog Q A σ ε α) (post : α → World Q A σ → Prop)
    (fails : World Q A σ → Prop) : Prop :=
  ∀ w, P w → (∀ a, (x w).1 = .ok a → post a (x w).2) ∧ ∀ e, (x w).1 = .error e → fails (x w).2

/-- The rule of consequence. -/
theorem Ensures.mono {P' : World Q A σ → Prop} {post' : α → World Q A σ → Prop}
    {fails' : World Q A σ → Prop} (h : Ensures P x post fails) (hpre : ∀ w, P' w → P w)
    (hpost : ∀ a w, post a w → post' a w) (hfails : ∀ w, fails w → fails' w) :
    Ensures P' x post' fails' := by
  intro w hw
  obtain ⟨hok, herr⟩ := h w (hpre w hw)
  exact ⟨fun a ha => hpost a _ (hok a ha), fun e he => hfails _ (herr e he)⟩

theorem Ensures.pure {a : α} (h : ∀ w, P w → post a w) :
    Ensures P (Calls.pure a : Prog Q A σ ε α) post fails := by
  intro w hw
  refine ⟨fun b hb => ?_, fun _ h => by cases h⟩
  obtain rfl := Except.ok.inj hb
  exact h w hw

theorem Ensures.error {e : ε} (h : ∀ w, P w → fails w) :
    Ensures P (Calls.error e : Prog Q A σ ε α) post fails := fun w hw =>
  ⟨fun _ h => (by cases h), fun _ _ => h w hw⟩

/-- **One program after the other.** -/
theorem Ensures.bind {mid : α → World Q A σ → Prop} {post : β → World Q A σ → Prop}
    {f : α → Prog Q A σ ε β} (hx : Ensures P x mid fails)
    (hf : ∀ a, Ensures (mid a) (f a) post fails) : Ensures P (Calls.bind x f) post fails := by
  intro w hw
  obtain ⟨hok, herr⟩ := hx w hw
  rcases hr : x w with ⟨e | a, w'⟩
  · rw [bind_of_error hr]
    rw [hr] at herr
    exact ⟨fun _ h => (by cases h), fun _ _ => herr e rfl⟩
  · rw [bind_of_ok hr]
    rw [hr] at hok
    exact hf a w' (hok a rfl)

/-- **A call**, and what follows it. -/
theorem Ensures.call_bind {env : Env Q A} {q : Q} {f : A → Prog Q A σ ε α}
    (h : ∀ w, P w → ∃ P', Ensures P' (f (env w.calls q)) post fails ∧
      P' { w with calls := w.calls ++ [(q, env w.calls q)] }) :
    Ensures P (Calls.bind (call env q) f) post fails := by
  intro w hw
  obtain ⟨P', hf, hP'⟩ := h w hw
  exact hf _ hP'

/-- **A program that is cleaned up after.** The cleanup keeps what is so after a failure. -/
theorem Ensures.onError {y : Prog Q A σ ε' γ} (hx : Ensures P x post fails)
    (hy : ∀ w, fails w → fails (y w).2) : Ensures P (Calls.onError x y) post fails := by
  intro w hw
  obtain ⟨hok, herr⟩ := hx w hw
  rcases hr : x w with ⟨e | a, w'⟩
  · rw [hr] at herr
    rw [Calls.onError, hr]
    exact ⟨fun _ h => (by cases h), fun _ _ => hy w' (herr e rfl)⟩
  · rw [hr] at hok
    rw [Calls.onError, hr]
    exact ⟨fun b hb => Except.ok.inj hb ▸ hok a rfl, fun _ h => by cases h⟩

/-- What calls of a kind do not change, a program that makes no others does not. -/
theorem Makes.ensures {K : Q → Prop} {τ : Type*} {see : List (Q × A) → τ} {s : τ}
    (hx : Makes K x) (hsee : ∀ calls l, (∀ e ∈ l, K e.1) → see (calls ++ l) = see calls) :
    Ensures (see ·.calls = s) x (fun _ w => see w.calls = s) (see ·.calls = s) := by
  intro w hw
  obtain ⟨l, hl, hK⟩ := hx w
  have hafter : see (x w).2.calls = s := by
    rw [hl, hsee w.calls l hK]
    exact hw
  exact ⟨fun _ _ => hafter, fun _ _ => hafter⟩

end Calls
