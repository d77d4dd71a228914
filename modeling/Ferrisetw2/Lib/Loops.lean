import Ferrisetw2.Lib.Checked

/-!
# Loops

A loop is a round that is run again and again, on the state the round before it left behind, until
one leaves the loop with a value or unwinds. Nothing makes a loop end, so it is run with fuel, and
one that ends is one that some amount of fuel is enough for.

`Finishes round s visited r` is a loop that ends: it starts in `s`, its rounds begin in the states
`visited`, and `r` comes out. The rules below speak of it and never of fuel.

## Main definitions

* `Control` — what a round that returns says to do next
* `iterate`, `trail`, `Finishes`

## Main results

* `exists_finishes` — a loop whose rounds make something smaller ends
* `not_finishes` — a loop whose rounds lead back to where they began does not
* `Finishes.pairwise` — what every round does to the state, the rounds do between any two states
* `Finishes.eq_append_filterMap` — a loop that collects
-/

namespace Rust

/-- What a round that returns says to do next. -/
inductive Control (σ β : Type) where
  /-- Run another round on this state. -/
  | again (s : σ)
  /-- Leave the loop with this value. -/
  | leave (b : β)
  deriving DecidableEq, Repr

variable {σ β γ : Type} (round : σ → Checked (Control σ β))

/-- The loop from a state on, if it needs no more rounds than there is fuel. -/
def iterate : ℕ → σ → Option (Checked β)
  | 0, _ => none
  | fuel + 1, s =>
    match round s with
    | .error p => some (.error p)
    | .ok (.leave b) => some (.ok b)
    | .ok (.again s') => iterate fuel s'

/-- The states in which the rounds begin. -/
def trail : ℕ → σ → List σ
  | 0, _ => []
  | fuel + 1, s =>
    match round s with
    | .error _ | .ok (.leave _) => [s]
    | .ok (.again s') => s :: trail fuel s'

/-- The loop ends with this result, and these are the states in which its rounds begin. -/
def Finishes (s : σ) (visited : List σ) (r : Checked β) : Prop :=
  ∃ fuel, iterate round fuel s = some r ∧ trail round fuel s = visited

variable {round} {s s' : σ} {visited : List σ} {r : Checked β} {b : β} {p : Panic}

/-! ### One round -/

theorem finishes_iff_of_stop (hr : ∀ fuel, iterate round (fuel + 1) s = some r)
    (hvisited : ∀ fuel, trail round (fuel + 1) s = [s]) {r' : Checked β} :
    Finishes round s visited r' ↔ visited = [s] ∧ r' = r := by
  constructor
  · rintro ⟨fuel, hr', hvisited'⟩
    cases fuel with
    | zero => cases hr'
    | succ fuel =>
      rw [hr] at hr'
      rw [hvisited] at hvisited'
      exact ⟨hvisited'.symm, (Option.some.inj hr').symm⟩
  · rintro ⟨rfl, rfl⟩
    exact ⟨1, hr 0, hvisited 0⟩

theorem finishes_iff_of_leave (h : round s = .ok (.leave b)) :
    Finishes round s visited r ↔ visited = [s] ∧ r = .ok b :=
  finishes_iff_of_stop (fun _ => by rw [iterate, h]) fun _ => by rw [trail, h]

theorem finishes_iff_of_error (h : round s = .error p) :
    Finishes round s visited r ↔ visited = [s] ∧ r = .error p :=
  finishes_iff_of_stop (fun _ => by rw [iterate, h]) fun _ => by rw [trail, h]

theorem finishes_iff_of_again (h : round s = .ok (.again s')) :
    Finishes round s visited r ↔ ∃ rest, visited = s :: rest ∧ Finishes round s' rest r := by
  constructor
  · rintro ⟨fuel, hr, hvisited⟩
    cases fuel with
    | zero => cases hr
    | succ fuel =>
      rw [iterate, h] at hr
      rw [trail, h] at hvisited
      exact ⟨_, hvisited.symm, fuel, hr, rfl⟩
  · rintro ⟨rest, rfl, fuel, hr, rfl⟩
    exact ⟨fuel + 1, by rw [iterate, h]; exact hr, by rw [trail, h]⟩

theorem Finishes.of_error (h : round s = .error p) : Finishes round s [s] (.error p) :=
  (finishes_iff_of_error h).mpr ⟨rfl, rfl⟩

theorem Finishes.of_leave (h : round s = .ok (.leave b)) : Finishes round s [s] (.ok b) :=
  (finishes_iff_of_leave h).mpr ⟨rfl, rfl⟩

theorem Finishes.of_again (h : round s = .ok (.again s')) (hrest : Finishes round s' visited r) :
    Finishes round s (s :: visited) r := (finishes_iff_of_again h).mpr ⟨visited, rfl, hrest⟩

/-- A loop that ends ends in one of three ways. -/
@[elab_as_elim]
theorem Finishes.rec {motive : ∀ s visited r, Finishes round s visited r → Prop}
    (error : ∀ s p (h : round s = .error p), motive s [s] (.error p) (.of_error h))
    (leave : ∀ s b (h : round s = .ok (.leave b)), motive s [s] (.ok b) (.of_leave h))
    (again : ∀ s s' visited r (h : round s = .ok (.again s')) (hrest : Finishes round s' visited r),
      motive s' visited r hrest → motive s (s :: visited) r (.of_again h hrest))
    {s : σ} {visited : List σ} {r : Checked β} (h : Finishes round s visited r) :
    motive s visited r h := by
  obtain ⟨fuel, hr, hvisited⟩ := h
  induction fuel generalizing s visited with
  | zero => cases hr
  | succ fuel ih =>
    have hends : Finishes round s visited r := ⟨fuel + 1, hr, hvisited⟩
    rcases hround : round s with p | s' | b
    · obtain ⟨rfl, rfl⟩ := (finishes_iff_of_error hround).mp hends
      exact error s p hround
    · rw [iterate, hround] at hr
      rw [trail, hround] at hvisited
      obtain rfl := hvisited
      exact again s s' _ r hround ⟨fuel, hr, rfl⟩ (ih hr rfl)
    · obtain ⟨rfl, rfl⟩ := (finishes_iff_of_leave hround).mp hends
      exact leave s b hround

/-! ### All rounds -/

theorem Finishes.exists_eq_cons (h : Finishes round s visited r) : ∃ rest, visited = s :: rest := by
  induction h using Finishes.rec with
  | error s p _ => exact ⟨[], rfl⟩
  | leave s b _ => exact ⟨[], rfl⟩
  | again s s' visited r _ _ _ => exact ⟨visited, rfl⟩

/-- **A loop whose rounds keep the invariant and make the measure smaller ends with a value.** -/
theorem exists_finishes {I : σ → Prop} (m : σ → ℕ)
    (hround : ∀ s, I s → (∃ b, round s = .ok (.leave b)) ∨
      ∃ s', round s = .ok (.again s') ∧ I s' ∧ m s' < m s)
    {s : σ} (hs : I s) : ∃ visited b, Finishes round s visited (.ok b) := by
  induction hn : m s using Nat.strong_induction_on generalizing s with
  | _ n ih =>
    subst hn
    rcases hround s hs with ⟨b, h⟩ | ⟨s', h, hs', hlt⟩
    · exact ⟨[s], b, .of_leave h⟩
    · obtain ⟨rest, b, hrest⟩ := ih (m s') hlt hs' rfl
      exact ⟨s :: rest, b, .of_again h hrest⟩

/-- **A loop whose rounds lead back to where they began does not end.** -/
theorem not_finishes {I : σ → Prop} (hround : ∀ s, I s → ∃ s', round s = .ok (.again s') ∧ I s')
    {s : σ} (hs : I s) : ¬ Finishes round s visited r := by
  intro h
  induction h using Finishes.rec with
  | error s p h =>
    obtain ⟨s', h', -⟩ := hround s hs
    rw [h] at h'
    cases h'
  | leave s b h =>
    obtain ⟨s', h', -⟩ := hround s hs
    rw [h] at h'
    cases h'
  | again s s' visited r h _ ih =>
    obtain ⟨s'', h', hs''⟩ := hround s hs
    rw [h] at h'
    cases h'
    exact ih hs''

/-- What every round does to the state, the rounds do between any two of the states. -/
theorem Finishes.pairwise {I : σ → Prop} {R : σ → σ → Prop}
    (htrans : ∀ a b c, R a b → R b c → R a c)
    (hround : ∀ s s', I s → round s = .ok (.again s') → I s' ∧ R s s')
    (h : Finishes round s visited r) (hs : I s) :
    visited.Pairwise R ∧ ∀ x ∈ visited, x = s ∨ R s x := by
  induction h using Finishes.rec with
  | error s p _ => simp
  | leave s b _ => simp
  | again s s' visited r h _ ih =>
    obtain ⟨hs', hrel⟩ := hround s s' hs h
    obtain ⟨hvisited, hafter⟩ := ih hs'
    have hfirst : ∀ x ∈ visited, R s x := by
      intro x hx
      rcases hafter x hx with rfl | hx
      · exact hrel
      · exact htrans s s' x hrel hx
    exact ⟨List.pairwise_cons.mpr ⟨hfirst, hvisited⟩, List.forall_mem_cons.mpr
      ⟨.inl rfl, fun x hx => .inr (hfirst x hx)⟩⟩

/-- **A loop that collects**: what each round adds to the collection is in the result, and nothing
else is. -/
theorem Finishes.eq_append_filterMap {round : σ → Checked (Control σ (List γ))} {I : σ → Prop}
    {collected : σ → List γ} {item : σ → Option γ}
    (hagain : ∀ s s', I s → round s = .ok (.again s') →
      I s' ∧ collected s' = collected s ++ (item s).toList)
    (hleave : ∀ s b, I s → round s = .ok (.leave b) → b = collected s ++ (item s).toList)
    {items : List γ} (h : Finishes round s visited (.ok items)) (hs : I s) :
    items = collected s ++ visited.filterMap item := by
  have hone : ∀ x : σ, [x].filterMap item = (item x).toList := by
    intro x
    cases hx : item x <;> simp [hx]
  generalize hr : (.ok items : Checked (List γ)) = r at h
  induction h using Finishes.rec with
  | error s p _ => cases hr
  | leave s b h =>
    cases hr
    rw [hone]
    exact hleave s _ hs h
  | again s s' visited r h _ ih =>
    obtain ⟨hs', hcollected⟩ := hagain s s' hs h
    rw [ih hs' hr, hcollected, List.append_assoc, ← hone s, ← List.filterMap_append]
    rfl

end Rust
