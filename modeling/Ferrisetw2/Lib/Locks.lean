import Ferrisetw2.Lib.Interleaving
import Mathlib.Algebra.BigOperators.Group.Finset.Basic
import Mathlib.Data.Finset.Max
import Mathlib.Data.Fintype.Basic

/-!
# Locks taken in order

Threads take locks, shared or exclusive, and give them back. Locks have ranks, and a thread takes
one only if all that it holds have smaller ranks. Threads that keep to this wait for each other, but
never in a circle: of those that wait, one waits for a lock of the greatest rank, and who holds that
does not wait.

What a lock does when several threads wait for it is left open. A thread is *unblocked* if it waits
for nothing, or for a lock that nobody holds at all.

A program is the list of acts a thread goes on to make. Programs are put together from parts that
give back what they take, and take nothing below a rank; these are the parts that *nest*.

## Main definitions

* `Locks.Mode`, `Locks.Act`, `Locks.taking`
* `Locks.Ordered` — the order is kept, and in the end nothing is held
* `Locks.Nests` — a part of a program that nests
* `Locks.lockAct` — threads that run their programs
* `Locks.Exclusive`, `Locks.Unblocked`

## Main results

* `Nests.append`, `Nests.flatten`, `Nests.taking` — the rules for programs put together
* `exists_unblocked` — unless all are done, somebody is unblocked
* `completes` — every run leads on to the end of all programs
-/

namespace Locks

open Interleaving

/-- How a lock is held. -/
inductive Mode where
  | shared
  | exclusive
  deriving DecidableEq, Repr

/-- What a thread does next. -/
inductive Act (L : Type*) where
  | acquire (l : L) (mode : Mode)
  | release (l : L)
  /-- Anything that has nothing to do with locks. -/
  | work

variable {L : Type*}

/-- A part of a program, run under a lock. -/
def taking (l : L) (mode : Mode) (body : List (Act L)) : List (Act L) :=
  .acquire l mode :: body ++ [.release l]

variable [DecidableEq L] (rank : L → ℕ)

/-- A program keeps to the order of ranks, if the thread holds these locks, and holds nothing in the
end. -/
def Ordered : List (L × Mode) → List (Act L) → Prop
  | held, [] => held = []
  | held, .acquire l mode :: rest =>
    (∀ h ∈ held, rank h.1 < rank l) ∧ Ordered ((l, mode) :: held) rest
  | held, .release l :: rest => Ordered (held.filter (·.1 ≠ l)) rest
  | held, .work :: rest => Ordered held rest

/-- The part takes no lock of a rank below, and gives back all that it takes. -/
def Nests (n : ℕ) (acts : List (Act L)) : Prop :=
  ∀ held rest, (∀ h ∈ held, rank h.1 < n) → Ordered rank held rest →
    Ordered rank held (acts ++ rest)

variable {rank} {n : ℕ} {acts : List (Act L)}

/-! ### Programs put together -/

theorem Nests.nil : Nests rank n [] := fun _ _ _ h => h

theorem Nests.work : Nests rank n [.work] := fun _ _ _ h => h

theorem Nests.append {acts' : List (Act L)} (h : Nests rank n acts) (h' : Nests rank n acts') :
    Nests rank n (acts ++ acts') := by
  intro held rest hheld hrest
  rw [List.append_assoc]
  exact h held _ hheld (h' held rest hheld hrest)

theorem Nests.mono {m : ℕ} (hle : n ≤ m) (h : Nests rank m acts) : Nests rank n acts :=
  fun held rest hheld => h held rest fun x hx => Nat.lt_of_lt_of_le (hheld x hx) hle

theorem Nests.flatten {parts : List (List (Act L))} (h : ∀ part ∈ parts, Nests rank n part) :
    Nests rank n parts.flatten := by
  induction parts with
  | nil => exact .nil
  | cons part parts ih =>
    exact (h part List.mem_cons_self).append (ih fun x hx => h x (List.mem_cons_of_mem part hx))

/-- What is held, without a lock of greater rank. -/
theorem filter_held {held : List (L × Mode)} {l : L} (hheld : ∀ h ∈ held, rank h.1 < rank l)
    (mode : Mode) : ((l, mode) :: held).filter (fun h => decide (h.1 ≠ l)) = held := by
  rw [List.filter_cons_of_neg (by simp)]
  refine List.filter_eq_self.mpr fun h hh => decide_eq_true fun heq => ?_
  exact absurd (hheld h hh) (heq ▸ Nat.lt_irrefl _)

/-- **The rule for a lock**: under it, only greater ones are taken. -/
theorem Nests.taking {l : L} (hle : n ≤ rank l) (mode : Mode) (h : Nests rank (rank l + 1) acts) :
    Nests rank n (Locks.taking l mode acts) := by
  intro held rest hheld hrest
  have hbelow : ∀ x ∈ held, rank x.1 < rank l :=
    fun x hx => Nat.lt_of_lt_of_le (hheld x hx) hle
  rw [Locks.taking, List.append_assoc]
  refine ⟨hbelow, h _ _ ?_ ?_⟩
  · intro x hx
    rcases List.mem_cons.mp hx with rfl | hx
    · exact Nat.lt_succ_self _
    · exact Nat.lt_succ_of_lt (hbelow x hx)
  · show Ordered rank (((l, mode) :: held).filter _) rest
    rw [filter_held hbelow]
    exact hrest

/-! ### Threads -/

variable {T : Type*}

/-- A lock can be given out in that mode. -/
def Grantable (held : T → List (L × Mode)) (l : L) (mode : Mode) : Prop :=
  ∀ u, ∀ h ∈ held u, h.1 = l → mode = .shared ∧ h.2 = .shared

instance [Fintype T] (held : T → List (L × Mode)) (l : L) (mode : Mode) :
    Decidable (Grantable held l mode) :=
  inferInstanceAs (Decidable (∀ u, ∀ h ∈ held u, h.1 = l → mode = .shared ∧ h.2 = .shared))

/-- Who holds a lock that another thread holds too has it shared. -/
def Exclusive (held : T → List (L × Mode)) : Prop :=
  ∀ t u, t ≠ u → ∀ h ∈ held t, ∀ k ∈ held u, h.1 = k.1 → h.2 = .shared ∧ k.2 = .shared

/-- The thread is not done, and what it waits for, if it waits, is held by nobody. -/
def Unblocked (held : T → List (L × Mode)) : List (Act L) → Prop
  | [] => False
  | .acquire l _ :: _ => ∀ u, ∀ h ∈ held u, h.1 ≠ l
  | .release _ :: _ | .work :: _ => True

/-- The rank of the lock a thread waits for. -/
def wanted (rank : L → ℕ) : List (Act L) → ℕ
  | .acquire l _ :: _ => rank l
  | _ => 0

omit [DecidableEq L] in
/-- Who does not go on waits for a lock that somebody holds. -/
theorem held_of_not_unblocked {held : T → List (L × Mode)} {program : List (Act L)}
    (hne : program ≠ []) (h : ¬ Unblocked held program) :
    ∃ l mode rest, program = .acquire l mode :: rest ∧ ∃ u, ∃ k ∈ held u, k.1 = l := by
  cases program with
  | nil => exact absurd rfl hne
  | cons act rest =>
    cases act with
    | work => exact absurd trivial h
    | release l => exact absurd trivial h
    | acquire l mode =>
      refine ⟨l, mode, rest, rfl, ?_⟩
      by_contra hfree
      exact h fun u k hk heq => hfree ⟨u, k, hk, heq⟩

variable {held held' : T → List (L × Mode)} {program program' : List (Act L)} {t : T}

/-- What an act does to what its thread holds. A lock is taken where it can be given out. -/
def Effect (t : T) (held held' : T → List (L × Mode)) : Act L → Prop
  | .work => held' t = held t
  | .release l => held' t = (held t).filter (·.1 ≠ l)
  | .acquire l mode => Grantable held l mode ∧ held' t = (l, mode) :: held t

/-- The order of ranks is kept from act to act. -/
theorem Ordered.of_effect {act : Act L} (h : Ordered rank (held t) (act :: program))
    (heffect : Effect t held held' act) : Ordered rank (held' t) program := by
  cases act with
  | work =>
    rw [show held' t = held t from heffect]
    exact h
  | release l =>
    rw [show held' t = (held t).filter (·.1 ≠ l) from heffect]
    exact h
  | acquire l mode =>
    rw [heffect.2]
    exact h.2

/-- What a thread holds after an act it held before, or nobody else holds in a mode that excludes
it. -/
theorem mem_of_effect {act : Act L} (heffect : Effect t held held' act) {h : L × Mode}
    (hmem : h ∈ held' t) : h ∈ held t ∨ Grantable held h.1 h.2 := by
  cases act with
  | work =>
    rw [show held' t = held t from heffect] at hmem
    exact Or.inl hmem
  | release l =>
    rw [show held' t = (held t).filter (·.1 ≠ l) from heffect] at hmem
    exact Or.inl (List.mem_of_mem_filter hmem)
  | acquire l mode =>
    rw [heffect.2] at hmem
    rcases List.mem_cons.mp hmem with rfl | hmem
    · exact Or.inr heffect.1
    · exact Or.inl hmem

theorem Exclusive.of_effect {act : Act L} (hexcl : Exclusive held)
    (hother : ∀ u, u ≠ t → held' u = held u) (heffect : Effect t held held' act) :
    Exclusive held' := by
  have hown : ∀ u, u ≠ t → ∀ h ∈ held' t, ∀ k ∈ held' u, h.1 = k.1 →
      h.2 = .shared ∧ k.2 = .shared := by
    intro u hu h hh k hk heq
    rw [hother u hu] at hk
    rcases mem_of_effect heffect hh with hh | hgrant
    · exact hexcl t u hu.symm h hh k hk heq
    · exact hgrant u k hk heq.symm
  intro a b hne h hh k hk heq
  by_cases ha : a = t
  · subst ha
    exact hown b hne.symm h hh k hk heq
  by_cases hb : b = t
  · subst hb
    exact (hown a hne k hk h hh heq.symm).symm
  · rw [hother a ha] at hh
    rw [hother b hb] at hk
    exact hexcl a b hne h hh k hk heq

section Runs

variable [Fintype T]

/-- **Unless all are done, somebody is unblocked.** -/
theorem exists_unblocked {held : T → List (L × Mode)} {program : T → List (Act L)}
    (hordered : ∀ t, Ordered rank (held t) (program t)) (hbusy : ∃ t, program t ≠ []) :
    ∃ t, Unblocked held (program t) := by
  by_contra hstuck
  rw [not_exists] at hstuck
  -- of the locks that are waited for, one of greatest rank
  obtain ⟨t, ht⟩ := hbusy
  obtain ⟨w, hw, hmax⟩ := Finset.exists_max_image (Finset.univ.filter fun t => program t ≠ [])
    (fun t => wanted rank (program t)) ⟨t, Finset.mem_filter.mpr ⟨Finset.mem_univ t, ht⟩⟩
  obtain ⟨l, mode, rest, hprogram, u, k, hk, rfl⟩ :=
    held_of_not_unblocked (Finset.mem_filter.mp hw).2 (hstuck w)
  have hu : program u ≠ [] := by
    intro hdone
    have hnone := hordered u
    rw [hdone] at hnone
    rw [show held u = [] from hnone] at hk
    cases hk
  obtain ⟨l', mode', rest', hprogram', -⟩ := held_of_not_unblocked hu (hstuck u)
  -- who holds it waits for one of still greater rank
  have hgreater : rank k.1 < rank l' := by
    have hown := hordered u
    rw [hprogram'] at hown
    exact hown.1 k hk
  have hle := hmax u (Finset.mem_filter.mpr ⟨Finset.mem_univ u, hu⟩)
  rw [hprogram, hprogram'] at hle
  exact absurd hgreater (Nat.not_lt.mpr hle)

variable [DecidableEq T]

/-- The next act of a thread. Threads share who holds what, and each has its program. -/
def lockAct (t : T) (held : T → List (L × Mode)) :
    List (Act L) → Unit → Option ((T → List (L × Mode)) × List (Act L))
  | [], _ => none
  | .work :: rest, _ => some (held, rest)
  | .release l :: rest, _ => some (Function.update held t ((held t).filter (·.1 ≠ l)), rest)
  | .acquire l mode :: rest, _ =>
    if Grantable held l mode then some (Function.update held t ((l, mode) :: held t), rest)
    else none

/-- **What a step does.** -/
theorem lockAct_inv (h : lockAct t held program () = some (held', program')) :
    ∃ act, program = act :: program' ∧ (∀ u, u ≠ t → held' u = held u) ∧
      Effect t held held' act := by
  cases program with
  | nil => cases h
  | cons act rest =>
    cases act with
    | work =>
      obtain ⟨rfl, rfl⟩ := Prod.mk.inj (Option.some.inj h)
      exact ⟨_, rfl, fun u _ => rfl, rfl⟩
    | release l =>
      obtain ⟨rfl, rfl⟩ := Prod.mk.inj (Option.some.inj h)
      exact ⟨_, rfl, fun u hu => Function.update_of_ne hu _ _, Function.update_self ..⟩
    | acquire l mode =>
      rw [lockAct] at h
      split at h
      · rename_i hgrant
        obtain ⟨rfl, rfl⟩ := Prod.mk.inj (Option.some.inj h)
        exact ⟨_, rfl, fun u hu => Function.update_of_ne hu _ _, hgrant, Function.update_self ..⟩
      · cases h

/-- Nobody is kept from an act that is unblocked. -/
theorem exists_lockAct_of_unblocked (h : Unblocked held program) :
    ∃ held' act program', program = act :: program' ∧
      lockAct t held program () = some (held', program') := by
  cases program with
  | nil => cases h
  | cons act rest =>
    cases act with
    | work => exact ⟨_, _, _, rfl, rfl⟩
    | release l => exact ⟨_, _, _, rfl, rfl⟩
    | acquire l mode =>
      have hgrant : Grantable held l mode := fun u k hk heq => absurd heq (h u k hk)
      exact ⟨_, _, _, rfl, if_pos hgrant⟩

/-- No act breaks the exclusion, and none leaves the order of ranks. -/
theorem stable_locks (rank : L → ℕ) :
    Stable (lockAct (T := T)) Exclusive fun t held program => Ordered rank (held t) program where
  own := by
    intro t held program _ held' program' hact hexcl hordered
    obtain ⟨act, rfl, hother, heffect⟩ := lockAct_inv hact
    exact ⟨hexcl.of_effect hother heffect, hordered.of_effect heffect⟩
  other := by
    intro t u held program q _ held' program' hact _ _ hu hordered
    obtain ⟨act, -, hother, -⟩ := lockAct_inv hact
    rw [hother u hu]
    exact hordered

/-! ### Runs -/

/-- The acts that are left. -/
def remaining (c : Config T (T → List (L × Mode)) (List (Act L))) : ℕ := ∑ t, (c.pc t).length

theorem remaining_step {c c' : Config T (T → List (L × Mode)) (List (Act L))} {t : T}
    (h : step lockAct c t () = some c') : remaining c' + 1 = remaining c := by
  obtain ⟨hact, hother⟩ := step_inv h
  obtain ⟨act, hprogram, -⟩ := lockAct_inv hact
  rw [remaining, remaining, ← Finset.add_sum_erase _ _ (Finset.mem_univ t),
    ← Finset.add_sum_erase _ (fun t => (c.pc t).length) (Finset.mem_univ t), hprogram,
    List.length_cons]
  have hrest : ∑ u ∈ Finset.univ.erase t, (c'.pc u).length =
      ∑ u ∈ Finset.univ.erase t, (c.pc u).length :=
    Finset.sum_congr rfl fun u hu => by rw [hother u (Finset.ne_of_mem_erase hu)]
  omega

/-- Every step of a run is an act. -/
theorem length_run {is : List (T × Unit)} :
    ∀ {c c' : Config T (T → List (L × Mode)) (List (Act L))}, run lockAct c is = some c' →
      is.length + remaining c' = remaining c := by
  induction is with
  | nil =>
    intro c c' h
    obtain rfl := Option.some.inj h
    exact Nat.zero_add _
  | cons i is ih =>
    intro c c' h
    obtain ⟨t, ⟨⟩⟩ := i
    obtain ⟨d, hd, hrest⟩ := run_cons_eq_some_iff.mp h
    have := ih hrest
    have := remaining_step hd
    rw [List.length_cons]
    omega

/-- **Every run leads on to the end of all programs**, where no lock is held. -/
theorem completes (rank : L → ℕ) (c : Config T (T → List (L × Mode)) (List (Act L)))
    (hc : AllHold Exclusive (fun t held program => Ordered rank (held t) program) c) :
    ∃ is c', run lockAct c is = some c' ∧ ∀ t, c'.pc t = [] ∧ c'.shared t = [] := by
  induction hn : remaining c generalizing c with
  | zero =>
    have hdone : ∀ t, c.pc t = [] := fun t =>
      List.length_eq_zero_iff.mp (Finset.sum_eq_zero_iff.mp hn t (Finset.mem_univ t))
    refine ⟨[], c, rfl, fun t => ⟨hdone t, ?_⟩⟩
    have hnone := hc.2 t
    rw [hdone t] at hnone
    exact hnone
  | succ n ih =>
    have hbusy : ∃ t, c.pc t ≠ [] := by
      by_contra hdone
      have hzero : remaining c = 0 := Finset.sum_eq_zero fun t _ => by
        rw [not_not.mp fun hne => hdone ⟨t, hne⟩]
        rfl
      omega
    obtain ⟨t, hfree⟩ := exists_unblocked hc.2 hbusy
    obtain ⟨held', act, program', -, hact⟩ := exists_lockAct_of_unblocked (t := t) hfree
    have hstep : step lockAct c t () = some ⟨held', Function.update c.pc t program'⟩ :=
      step_eq_some_iff.mpr ⟨_, _, hact, rfl⟩
    have hleft := remaining_step hstep
    obtain ⟨is, c', hrun, hend⟩ := ih _ ((stable_locks rank).step hstep hc) (by omega)
    exact ⟨(t, ()) :: is, c', run_cons_eq_some_iff.mpr ⟨_, hstep, hrun⟩, hend⟩

end Runs

end Locks
