import Mathlib.Logic.Function.Basic

/-!
# Interleavings

Any number of threads act on a shared state, one step at a time and in any order. A thread has a
local state of its own, and a step of it reads and changes that local state and the shared one. A
step can be impossible: a thread that waits for a lock has none while another holds it.

A *run* lists which thread stepped, and with which input; it is a run of the system when each of
its steps was possible. What holds of every run holds of every scheduling.

## Main definitions

* `Interleaving.Config` — the shared state and the local states
* `Interleaving.step`, `Interleaving.run`
* `Interleaving.Meets` — every step of a run is taken in a configuration its guard allows
* `Interleaving.Stable` — assertions about the shared state and about each thread, none of which a
  step of any thread breaks

## Main results

* `step_inv` — what a step does
* `run_append_eq_some_iff` — a run is cut anywhere
* `run_invariant`, `run_invariant_of_meets` — the invariant rule, for all steps and for guarded ones
* `run_iff_of_meets` — what a run preserves exactly when its steps meet a guard
* `Stable.run` — the thread-modular rule
-/

namespace Interleaving

/-- The shared state, and the local state of every thread. -/
structure Config (T γ π : Type*) where
  shared : γ
  pc : T → π

variable {T γ π ι : Type*} [DecidableEq T] (act : T → γ → π → ι → Option (γ × π))

/-- One thread steps. -/
def step (c : Config T γ π) (t : T) (i : ι) : Option (Config T γ π) :=
  match act t c.shared (c.pc t) i with
  | none => none
  | some (g, p) => some ⟨g, Function.update c.pc t p⟩

/-- The threads step as listed. -/
def run (c : Config T γ π) : List (T × ι) → Option (Config T γ π)
  | [] => some c
  | (t, i) :: is => (step act c t i).bind (run · is)

/-- Every step of the run is taken in a configuration where its guard holds. -/
def Meets (guard : Config T γ π → T → ι → Prop) (c : Config T γ π) : List (T × ι) → Prop
  | [] => True
  | (t, i) :: is => guard c t i ∧ ∀ c', step act c t i = some c' → Meets guard c' is

variable {act}

theorem step_eq_some_iff {c c' : Config T γ π} {t : T} {i : ι} :
    step act c t i = some c' ↔
      ∃ g p, act t c.shared (c.pc t) i = some (g, p) ∧ c' = ⟨g, Function.update c.pc t p⟩ := by
  rw [step]
  constructor
  · intro h
    split at h
    · cases h
    · rename_i g p heq
      exact ⟨g, p, heq, (Option.some.inj h).symm⟩
  · rintro ⟨g, p, heq, rfl⟩
    rw [heq]

/-- **What a step does**: the action of the thread, and nothing to the other local states. -/
theorem step_inv {c c' : Config T γ π} {t : T} {i : ι} (h : step act c t i = some c') :
    act t c.shared (c.pc t) i = some (c'.shared, c'.pc t) ∧ ∀ u, u ≠ t → c'.pc u = c.pc u := by
  obtain ⟨g, p, hact, rfl⟩ := step_eq_some_iff.mp h
  refine ⟨?_, fun u hu => Function.update_of_ne hu p c.pc⟩
  simp only [hact, Function.update_self]

@[simp] theorem run_nil (c : Config T γ π) : run act c [] = some c := rfl

theorem run_cons_eq_some_iff {c c' : Config T γ π} {t : T} {i : ι} {is : List (T × ι)} :
    run act c ((t, i) :: is) = some c' ↔ ∃ d, step act c t i = some d ∧ run act d is = some c' := by
  rw [run, Option.bind_eq_some_iff]

/-- A run is cut anywhere. -/
theorem run_append_eq_some_iff {c c' : Config T γ π} {is js : List (T × ι)} :
    run act c (is ++ js) = some c' ↔ ∃ d, run act c is = some d ∧ run act d js = some c' := by
  induction is generalizing c with
  | nil => simp
  | cons ti is ih =>
    obtain ⟨t, i⟩ := ti
    rw [List.cons_append, run_cons_eq_some_iff]
    constructor
    · rintro ⟨d, hd, hrun⟩
      obtain ⟨e, he, hjs⟩ := ih.mp hrun
      exact ⟨e, run_cons_eq_some_iff.mpr ⟨d, hd, he⟩, hjs⟩
    · rintro ⟨e, he, hjs⟩
      obtain ⟨d, hd, hrun⟩ := run_cons_eq_some_iff.mp he
      exact ⟨d, hd, ih.mpr ⟨e, hrun, hjs⟩⟩

theorem run_snoc_eq_some_iff {c c' : Config T γ π} {t : T} {i : ι} {is : List (T × ι)} :
    run act c (is ++ [(t, i)]) = some c' ↔
      ∃ d, run act c is = some d ∧ step act d t i = some c' := by
  rw [run_append_eq_some_iff]
  constructor
  · rintro ⟨d, hd, h⟩
    obtain ⟨e, he, hnil⟩ := run_cons_eq_some_iff.mp h
    rw [run_nil, Option.some.injEq] at hnil
    subst hnil
    exact ⟨d, hd, he⟩
  · rintro ⟨d, hd, h⟩
    exact ⟨d, hd, run_cons_eq_some_iff.mpr ⟨c', h, rfl⟩⟩

/-! ### Invariants -/

/-- **The invariant rule**, for the runs all of whose steps meet a guard. -/
theorem run_invariant_of_meets {guard : Config T γ π → T → ι → Prop} (Inv : Config T γ π → Prop)
    (hstep : ∀ c t i c', step act c t i = some c' → guard c t i → Inv c → Inv c')
    {c c' : Config T γ π} {is : List (T × ι)} (hrun : run act c is = some c')
    (hm : Meets act guard c is) (h : Inv c) : Inv c' := by
  induction is generalizing c with
  | nil =>
    cases hrun
    exact h
  | cons ti is ih =>
    obtain ⟨d, hd, hrest⟩ := run_cons_eq_some_iff.mp hrun
    exact ih hrest (hm.2 d hd) (hstep c ti.1 ti.2 d hd hm.1 h)

theorem Meets.mono {g g' : Config T γ π → T → ι → Prop} {c : Config T γ π} {is : List (T × ι)}
    (hm : Meets act g c is) (himp : ∀ c t i, g c t i → g' c t i) : Meets act g' c is := by
  induction is generalizing c with
  | nil => exact trivial
  | cons ti is ih => exact ⟨himp _ _ _ hm.1, fun d hd => ih (hm.2 d hd)⟩

/-- A guard that looks at the steps alone. -/
theorem meets_of_forall_mem {ok : T → ι → Prop} {c : Config T γ π} {is : List (T × ι)}
    (h : ∀ t i, (t, i) ∈ is → ok t i) : Meets act (fun _ t i => ok t i) c is := by
  induction is generalizing c with
  | nil => exact trivial
  | cons ti is ih =>
    refine ⟨h _ _ List.mem_cons_self, fun d _ => ih fun t i hmem => ?_⟩
    exact h t i (List.mem_cons_of_mem _ hmem)

/-- **The invariant rule**: what every step preserves, every run preserves. -/
theorem run_invariant (Inv : Config T γ π → Prop)
    (hstep : ∀ c t i c', step act c t i = some c' → Inv c → Inv c')
    {c c' : Config T γ π} {is : List (T × ι)} (hrun : run act c is = some c') (h : Inv c) :
    Inv c' :=
  run_invariant_of_meets Inv (fun c t i c' hs _ => hstep c t i c' hs) hrun
    (meets_of_forall_mem fun _ _ _ => trivial) h

theorem meets_cons_iff {guard : Config T γ π → T → ι → Prop} {c d : Config T γ π} {t : T} {i : ι}
    {is : List (T × ι)} (hd : step act c t i = some d) :
    Meets act guard c ((t, i) :: is) ↔ guard c t i ∧ Meets act guard d is := by
  rw [Meets]
  refine and_congr_right fun _ => ⟨fun hm => hm d hd, fun hm d' hd' => ?_⟩
  rw [hd] at hd'
  exact Option.some.inj hd' ▸ hm

/-- What every step preserves exactly when it meets a guard, a run preserves exactly when all its
steps do. -/
theorem run_iff_of_meets {guard : Config T γ π → T → ι → Prop} (Inv P : Config T γ π → Prop)
    (hinv : ∀ c t i c', step act c t i = some c' → Inv c → Inv c')
    (hstep : ∀ c t i c', step act c t i = some c' → Inv c → (P c' ↔ P c ∧ guard c t i))
    {c c' : Config T γ π} {is : List (T × ι)} (hrun : run act c is = some c') (h : Inv c) :
    P c' ↔ P c ∧ Meets act guard c is := by
  induction is generalizing c with
  | nil =>
    cases hrun
    exact (and_iff_left trivial).symm
  | cons ti is ih =>
    obtain ⟨d, hd, hrest⟩ := run_cons_eq_some_iff.mp hrun
    rw [ih hrest (hinv c ti.1 ti.2 d hd h), hstep c ti.1 ti.2 d hd h, meets_cons_iff hd, and_assoc]

/-- An invariant under which every step meets the guard. -/
theorem meets_of_invariant {guard : Config T γ π → T → ι → Prop} (Inv : Config T γ π → Prop)
    (hstep : ∀ c t i c', step act c t i = some c' → Inv c → Inv c')
    (hguard : ∀ c t i, Inv c → guard c t i) {c : Config T γ π} {is : List (T × ι)} (h : Inv c) :
    Meets act guard c is := by
  induction is generalizing c with
  | nil => exact trivial
  | cons ti is ih => exact ⟨hguard c ti.1 ti.2 h, fun d hd => ih (hstep c ti.1 ti.2 d hd h)⟩

/-! ### The thread-modular rule -/

/-- `I` speaks of the shared state and `A t` of the shared state as thread `t` sees it. A step of a
thread keeps `I` and its own assertion, and breaks no other thread's. -/
structure Stable (act : T → γ → π → ι → Option (γ × π)) (I : γ → Prop) (A : T → γ → π → Prop) :
    Prop where
  own : ∀ {t g p i g' p'}, act t g p i = some (g', p') → I g → A t g p → I g' ∧ A t g' p'
  other : ∀ {t u g p q i g' p'}, act t g p i = some (g', p') → I g → A t g p → u ≠ t →
    A u g q → A u g' q

/-- The shared assertion and every thread's hold. -/
def AllHold (I : γ → Prop) (A : T → γ → π → Prop) (c : Config T γ π) : Prop :=
  I c.shared ∧ ∀ t, A t c.shared (c.pc t)

theorem Stable.step {I : γ → Prop} {A : T → γ → π → Prop} (hst : Stable act I A)
    {c c' : Config T γ π} {t : T} {i : ι} (h : step act c t i = some c') (hc : AllHold I A c) :
    AllHold I A c' := by
  obtain ⟨g, p, hact, rfl⟩ := step_eq_some_iff.mp h
  obtain ⟨hI, hA⟩ := hst.own hact hc.1 (hc.2 t)
  refine ⟨hI, fun u => ?_⟩
  by_cases hu : u = t
  · subst hu
    simpa using hA
  · simpa [Function.update_of_ne hu] using hst.other hact hc.1 (hc.2 t) hu (hc.2 u)

/-- **The thread-modular rule.** -/
theorem Stable.run {I : γ → Prop} {A : T → γ → π → Prop} (hst : Stable act I A)
    {c c' : Config T γ π} {is : List (T × ι)} (h : run act c is = some c') (hc : AllHold I A c) :
    AllHold I A c' :=
  run_invariant (AllHold I A) (fun _ _ _ _ hs hi => hst.step hs hi) h hc

end Interleaving
