import Mathlib.Data.Finset.Lattice.Fold
import Mathlib.Data.Set.Finite.Basic
import Mathlib.Data.Fintype.Order
import Mathlib.Logic.Relation
import Mathlib.Order.WellFounded

/-!
# Descents along a relation

A recursion that calls itself on everything its argument points to, with nothing that gets smaller,
ends exactly when following pointers does. `Bounded E n a` says that it ends within `n` nested
calls. On a finite part of the graph that is the absence of cycles.

## Main definitions

* `Descent.Bounded` — every descent from a node ends within `n` nodes

## Main results

* `Descent.bounded_iff_acyclic` — where finitely much is reachable, descents are bounded exactly
  when nothing reachable reaches itself
-/

namespace Descent

open Relation

variable {α : Type*} (E : α → α → Prop)

/-- Every descent from the node has at most `n` nodes. -/
def Bounded : ℕ → α → Prop
  | 0, _ => False
  | n + 1, a => ∀ b, E a b → Bounded n b

variable {E}

theorem Bounded.mono : ∀ {n m : ℕ} {a : α}, n ≤ m → Bounded E n a → Bounded E m a
  | _ + 1, _ + 1, _, hle, h => fun b hb => (h b hb).mono (Nat.le_of_succ_le_succ hle)

/-- Each edge takes one node off the bound. -/
theorem Bounded.of_transGen {n : ℕ} {a b : α} (h : Bounded E n a) (hab : TransGen E a b) :
    ∃ m < n, Bounded E m b := by
  induction hab with
  | single hab =>
    cases n with
    | zero => exact absurd h id
    | succ n => exact ⟨n, Nat.lt_succ_self n, h _ hab⟩
  | tail _ hbc ih =>
    obtain ⟨m, hm, hb⟩ := ih
    cases m with
    | zero => exact absurd hb id
    | succ m => exact ⟨m, by omega, hb _ hbc⟩

theorem Bounded.of_reflTransGen {n : ℕ} {a b : α} (h : Bounded E n a)
    (hab : ReflTransGen E a b) : Bounded E n b := by
  rcases reflTransGen_iff_eq_or_transGen.mp hab with rfl | hab
  · exact h
  · obtain ⟨m, hm, hb⟩ := h.of_transGen hab
    exact hb.mono (Nat.le_of_lt hm)

/-- A node with bounded descents does not reach itself: the bound would go down for ever. -/
theorem Bounded.not_transGen : ∀ {n : ℕ} {a : α}, Bounded E n a → ¬ TransGen E a a := by
  intro n
  induction n using Nat.strong_induction_on with
  | _ n ih =>
    intro a h hcycle
    obtain ⟨m, hm, ha⟩ := h.of_transGen hcycle
    exact ih m hm ha hcycle

/-- Finitely many nodes with bounded descents have a common bound. -/
theorem exists_bound {s : Set α} (hs : s.Finite) (h : ∀ b ∈ s, ∃ n, Bounded E n b) :
    ∃ n, ∀ b ∈ s, Bounded E n b := by
  choose! f hf using h
  refine ⟨hs.toFinset.sup f, fun b hb => (hf b hb).mono ?_⟩
  exact Finset.le_sup (hs.mem_toFinset.mpr hb)

/-- **Without cycles, descents are bounded.** -/
theorem exists_bounded {a : α} (hfin : {b | ReflTransGen E a b}.Finite)
    (hacyclic : ∀ b, ReflTransGen E a b → ¬ TransGen E b b) : ∃ n, Bounded E n a := by
  -- descents from the reachable nodes are well-founded
  have hfinite : Finite {b // ReflTransGen E a b} := hfin.to_subtype
  have hirrefl : Std.Irrefl fun x y : {b // ReflTransGen E a b} => TransGen E y.1 x.1 :=
    ⟨fun x h => hacyclic x.1 x.2 h⟩
  have htrans : IsTrans {b // ReflTransGen E a b} fun x y => TransGen E y.1 x.1 :=
    ⟨fun _ _ _ hxy hyz => hyz.trans hxy⟩
  have hwf : WellFounded fun x y : {b // ReflTransGen E a b} => TransGen E y.1 x.1 :=
    Finite.wellFounded_of_trans_of_irrefl _
  suffices h : ∀ x : {b // ReflTransGen E a b}, ∃ n, Bounded E n x.1 from h ⟨a, .refl⟩
  intro x
  induction x using hwf.induction with
  | _ x ih =>
    have hsub : {b | E x.1 b} ⊆ {b | ReflTransGen E a b} := fun b hb => x.2.tail hb
    obtain ⟨n, hn⟩ := exists_bound (hfin.subset hsub)
      fun b hb => ih ⟨b, hsub hb⟩ (TransGen.single hb)
    exact ⟨n + 1, hn⟩

/-- **Descents are bounded exactly when nothing reachable reaches itself.** -/
theorem bounded_iff_acyclic {a : α} (hfin : {b | ReflTransGen E a b}.Finite) :
    (∃ n, Bounded E n a) ↔ ∀ b, ReflTransGen E a b → ¬ TransGen E b b :=
  ⟨fun ⟨_, h⟩ _ hab => (h.of_reflTransGen hab).not_transGen, exists_bounded hfin⟩

end Descent
