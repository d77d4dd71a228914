import Mathlib.Algebra.BigOperators.Group.Finset.Basic
import Mathlib.Algebra.Order.Group.Multiset

/-!
# Accumulators

Cells change by updates that commute: adding to a cell, or raising it to a maximum. A thread takes a
list of updates at once and applies them later, one at a time, so that at any moment some updates
that have been taken are *owed*. The books stay balanced whatever the interleaving: to apply what is
owed to a cell, in any order, gives what all the updates taken for it come to.

## Main definitions

* `Accumulators.updatesOf` — the updates of a list that are for one cell
* `Accumulators.owed` — what the threads have yet to apply to a cell
* `Accumulators.Balanced` — the cells and what is owed come to what has been taken

## Main results

* `Balanced.take`, `Balanced.apply` — what a thread does to the books
-/

namespace Accumulators

open Finset

variable {T K M : Type*} [DecidableEq K]

/-- The updates that are for this cell. -/
def updatesOf (k : K) : List (K × M) → Multiset M
  | [] => 0
  | (k', m) :: us => if k' = k then m ::ₘ updatesOf k us else updatesOf k us

@[simp] theorem updatesOf_nil (k : K) : updatesOf k ([] : List (K × M)) = 0 := rfl

@[simp] theorem updatesOf_cons_self (k : K) (m : M) (us : List (K × M)) :
    updatesOf k ((k, m) :: us) = m ::ₘ updatesOf k us := if_pos rfl

theorem updatesOf_cons_of_ne {k k' : K} (h : k' ≠ k) (m : M) (us : List (K × M)) :
    updatesOf k ((k', m) :: us) = updatesOf k us := if_neg h

@[simp] theorem updatesOf_append (k : K) (us vs : List (K × M)) :
    updatesOf k (us ++ vs) = updatesOf k us + updatesOf k vs := by
  induction us with
  | nil => rw [List.nil_append, updatesOf_nil, zero_add]
  | cons u us ih =>
    rw [List.cons_append, updatesOf, updatesOf, ih]
    split
    · rw [Multiset.cons_add]
    · rfl

section

variable [Fintype T]

/-- What the threads have yet to apply to this cell. -/
def owed (todo : T → List (K × M)) (k : K) : Multiset M := ∑ t, updatesOf k (todo t)

theorem owed_eq_zero {todo : T → List (K × M)} {k : K} (h : ∀ t, updatesOf k (todo t) = 0) :
    owed todo k = 0 :=
  sum_eq_zero fun t _ => h t

/-- One thread changes what it has to do. -/
theorem owed_update [DecidableEq T] (todo : T → List (K × M)) (t : T) (us : List (K × M)) (k : K) :
    owed (Function.update todo t us) k + updatesOf k (todo t) =
      owed todo k + updatesOf k us := by
  have hrest : ∑ u ∈ univ.erase t, updatesOf k (Function.update todo t us u) =
      ∑ u ∈ univ.erase t, updatesOf k (todo u) :=
    sum_congr rfl fun u hu => by rw [Function.update_of_ne (ne_of_mem_erase hu)]
  rw [owed, owed, ← add_sum_erase _ _ (mem_univ t), hrest, Function.update_self,
    ← add_sum_erase _ (fun u => updatesOf k (todo u)) (mem_univ t), add_comm,
    add_comm (updatesOf k us), add_assoc]

variable (op : K → M → M → M) [∀ k, RightCommutative (op k)]

/-- The cells, with what is owed to them, come to what has been taken. -/
def Balanced (start cells : K → M) (taken : List (K × M)) (todo : T → List (K × M)) : Prop :=
  ∀ k, (owed todo k).foldl (op k) (cells k) = (updatesOf k taken).foldl (op k) (start k)

variable {op} {start cells : K → M} {taken : List (K × M)} {todo : T → List (K × M)}

theorem balanced_of_forall_nil (h : ∀ t, todo t = []) : Balanced op start start [] todo := by
  intro k
  have howed : owed todo k = 0 := owed_eq_zero fun t => by rw [h, updatesOf_nil]
  rw [howed, updatesOf_nil]

/-- A thread with nothing left to do takes updates. -/
theorem Balanced.take [DecidableEq T] (h : Balanced op start cells taken todo) {t : T}
    (ht : todo t = []) (us : List (K × M)) :
    Balanced op start cells (taken ++ us) (Function.update todo t us) := by
  intro k
  have howed := owed_update todo t us k
  rw [ht, updatesOf_nil, add_zero] at howed
  rw [howed, updatesOf_append, Multiset.foldl_add, Multiset.foldl_add, h k]

/-- A thread applies an update. -/
theorem Balanced.apply [DecidableEq T] (h : Balanced op start cells taken todo) {t : T} {k : K}
    {m : M} {us : List (K × M)} (ht : todo t = (k, m) :: us) :
    Balanced op start (Function.update cells k (op k (cells k) m)) taken
      (Function.update todo t us) := by
  intro k'
  have howed := owed_update todo t us k'
  rw [ht] at howed
  by_cases hk : k = k'
  · subst hk
    rw [updatesOf_cons_self, Multiset.add_cons, ← Multiset.cons_add, add_right_cancel_iff] at howed
    rw [Function.update_self, ← Multiset.foldl_cons, howed, h k]
  · rw [updatesOf_cons_of_ne hk, add_right_cancel_iff] at howed
    rw [Function.update_of_ne (Ne.symm hk), howed, h k']

end

end Accumulators
