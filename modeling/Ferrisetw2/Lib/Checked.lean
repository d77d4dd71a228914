import Mathlib.Tactic.Linarith

/-!
# Checked computations and machine words

A Rust function can end in three ways: with a value, with an `Err`, or by unwinding. The last two
are kept apart throughout, because "never panics" and "returns `Err`" are different claims about
the same code.

* `Checked` is a computation that returns a value or unwinds.
* `Outcome ε` is a computation that also has an `Err` of type `ε`.

## Machine words

`usize` values are natural numbers, and the operations on them are relative to a `Target`: the
width of `usize`, and whether the build has overflow checks. An addition that does not fit unwinds
in a build with checks and wraps in one without, so a statement quantified over every `Target`
speaks of both profiles. Signed integers are integers, and what an operation on them gives is put
back into the range of the type in the same way.

## Main definitions

* `Panic`, `Checked`, `Fault`, `Outcome`, `Returns`
* `Target`, `Target.add`, `Target.mul`, `Target.checkedMul`, `Target.tryFrom`
* `Target.signed`, `saturate` — the result of an operation on signed integers

## Main results

* `bind_eq_ok_iff`, `andThen_eq_ok_iff` — how a value comes out of a sequence of two computations
* `ite_error_eq_ok_iff` — and out of a check
* `Returns.andThen` — the rule for sequences that return
* `Target.add_of_le`, `Target.add_eq_overflow` — addition that fits, and addition that does not
* `Target.signed_of_fits`, `Target.signed_eq_ok_iff` — the same for signed integers
-/

namespace Rust

/-- Why a computation unwound. -/
inductive Panic where
  /-- Arithmetic overflow, in a build with overflow checks. -/
  | overflow
  /-- `Option::expect` on `None`. -/
  | expect (msg : String)
  /-- A branch marked `unreachable!`. -/
  | unreachable (msg : String)
  /-- An index expression out of bounds. -/
  | outOfBounds
  deriving DecidableEq, Repr

/-- A computation that returns a value or unwinds. -/
abbrev Checked (α : Type) := Except Panic α

/-- The two ways not to return a value. -/
inductive Fault (ε : Type) where
  | error (e : ε)
  | panic (p : Panic)
  deriving DecidableEq, Repr

/-- A computation that returns a value, returns `Err`, or unwinds. -/
abbrev Outcome (ε α : Type) := Except (Fault ε) α

variable {ε α β : Type}

/-! ### Sequencing -/

@[simp] theorem bind_ok (a : α) (f : α → Except ε β) : (Except.ok a >>= f) = f a := rfl

@[simp] theorem bind_error (e : ε) (f : α → Except ε β) :
    ((Except.error e : Except ε α) >>= f) = .error e := rfl

/-- A sequence returns a value exactly when both halves do. -/
theorem bind_eq_ok_iff {x : Except ε α} {f : α → Except ε β} {b : β} :
    (x >>= f) = .ok b ↔ ∃ a, x = .ok a ∧ f a = .ok b := by
  cases x with
  | ok a => simp
  | error e => simp

/-- A check lets a value through exactly when it does not fail. -/
theorem ite_error_eq_ok_iff {c : Prop} [Decidable c] {e : ε} {x : Except ε α} {a : α} :
    (if c then .error e else x) = .ok a ↔ ¬ c ∧ x = .ok a := by
  split
  · rename_i h
    exact iff_of_false nofun fun hok => hok.1 h
  · rename_i h
    exact (and_iff_right h).symm

/-- Go on with the value and the state of a computation that returned one. The state survives a
failure. -/
def andThen {σ : Type} (r : Outcome ε α × σ) (f : α → σ → Outcome ε β × σ) : Outcome ε β × σ :=
  match r with
  | (.ok a, s) => f a s
  | (.error e, s) => (.error e, s)

@[simp] theorem andThen_ok {σ : Type} (a : α) (s : σ) (f : α → σ → Outcome ε β × σ) :
    andThen (.ok a, s) f = f a s := rfl

@[simp] theorem andThen_error {σ : Type} (e : Fault ε) (s : σ) (f : α → σ → Outcome ε β × σ) :
    andThen (.error e, s) f = (.error e, s) := rfl

/-- A sequence with a state returns a value exactly when both halves do. -/
theorem andThen_eq_ok_iff {σ : Type} {r : Outcome ε α × σ} {f : α → σ → Outcome ε β × σ} {b : β}
    {s' : σ} : andThen r f = (.ok b, s') ↔ ∃ a s, r = (.ok a, s) ∧ f a s = (.ok b, s') := by
  obtain ⟨a | a, s⟩ := r
  · simp
  · simp [and_assoc]

/-- An `Err` is not an unwinding. -/
theorem exists_eq_error {σ : Type} {e : ε} {e' : Fault ε} {s s' : σ}
    (h : ((.error (.error e), s) : Outcome ε α × σ) = (.error e', s')) : ∃ e, e' = .error e :=
  ⟨e, (Except.error.inj (Prod.mk.inj h).1).symm⟩

/-- The computation returns a value, and value and state satisfy `Q`. -/
def Returns {σ : Type} (r : Outcome ε α × σ) (Q : α → σ → Prop) : Prop :=
  ∃ a s, r = (.ok a, s) ∧ Q a s

/-- The rule for a value. -/
theorem Returns.ok {σ : Type} {a : α} {s : σ} {Q : α → σ → Prop} (h : Q a s) :
    Returns ((.ok a, s) : Outcome ε α × σ) Q := ⟨a, s, rfl, h⟩

/-- The rule for a sequence. -/
theorem Returns.andThen {σ : Type} {r : Outcome ε α × σ} {f : α → σ → Outcome ε β × σ}
    {Q : α → σ → Prop} {R : β → σ → Prop} (h : Returns r Q)
    (hf : ∀ a s, Q a s → Returns (f a s) R) : Returns (andThen r f) R := by
  obtain ⟨a, s, rfl, hq⟩ := h
  exact hf a s hq

/-- The rule of consequence. -/
theorem Returns.mono {σ : Type} {r : Outcome ε α × σ} {Q R : α → σ → Prop} (h : Returns r Q)
    (himp : ∀ a s, Q a s → R a s) : Returns r R := by
  obtain ⟨a, s, heq, hq⟩ := h
  exact ⟨a, s, heq, himp a s hq⟩

/-! ### Machine words -/

/-- The widths `usize` has on the supported targets. -/
inductive UsizeBits where
  | b32
  | b64
  deriving DecidableEq, Repr

/-- A compilation target: the width of `usize` and the overflow behaviour of the build profile. -/
structure Target where
  /-- Width of `usize`. -/
  usizeBits : UsizeBits
  /-- Whether arithmetic overflow unwinds (`true`) or wraps (`false`). -/
  overflowChecks : Bool
  deriving DecidableEq, Repr

namespace Target

/-- `usize::MAX` at a width. -/
def maxOf : UsizeBits → ℕ
  | .b32 => 4294967295
  | .b64 => 18446744073709551615

/-- `usize::MAX`. -/
def usizeMax (t : Target) : ℕ := maxOf t.usizeBits

/-- `isize::MAX`, the bound Rust puts on the length of every slice. -/
def isizeMax (t : Target) : ℕ := maxOf t.usizeBits / 2

theorem maxOf_ge (b : UsizeBits) : 4294967295 ≤ maxOf b := by
  cases b <;> decide

theorem maxOf_eq (b : UsizeBits) : maxOf b = 2 * (maxOf b / 2) + 1 := by
  cases b <;> decide

theorem usizeMax_ge (t : Target) : 4294967295 ≤ t.usizeMax := maxOf_ge t.usizeBits

theorem isizeMax_le (t : Target) : t.isizeMax ≤ t.usizeMax := Nat.div_le_self _ _

theorem usizeMax_eq (t : Target) : t.usizeMax = 2 * t.isizeMax + 1 := maxOf_eq t.usizeBits

/-- `a + b` on `usize`. -/
def add (t : Target) (a b : ℕ) : Checked ℕ :=
  if a + b ≤ t.usizeMax then .ok (a + b)
  else if t.overflowChecks then .error .overflow
  else .ok ((a + b) % (t.usizeMax + 1))

/-- `a * b` on `usize`. -/
def mul (t : Target) (a b : ℕ) : Checked ℕ :=
  if a * b ≤ t.usizeMax then .ok (a * b)
  else if t.overflowChecks then .error .overflow
  else .ok ((a * b) % (t.usizeMax + 1))

/-- `a.checked_mul(b)` on `usize`. -/
def checkedMul (t : Target) (a b : ℕ) : Option ℕ :=
  if a * b ≤ t.usizeMax then some (a * b) else none

/-- `usize::try_from(n).ok()`. -/
def tryFrom (t : Target) (n : ℕ) : Option ℕ :=
  if n ≤ t.usizeMax then some n else none

theorem add_of_le {t : Target} {a b : ℕ} (h : a + b ≤ t.usizeMax) : t.add a b = .ok (a + b) := by
  rw [add, if_pos h]

theorem mul_of_le {t : Target} {a b : ℕ} (h : a * b ≤ t.usizeMax) : t.mul a b = .ok (a * b) := by
  rw [mul, if_pos h]

theorem add_eq_overflow {t : Target} {a b : ℕ} (ht : t.overflowChecks = true)
    (h : t.usizeMax < a + b) : t.add a b = .error .overflow := by
  rw [add, if_neg (Nat.not_le.mpr h), if_pos ht]

/-- Without overflow checks, an addition is one modulo `2 ^ w`. -/
theorem add_eq_mod {t : Target} (ht : t.overflowChecks = false) (a b : ℕ) :
    t.add a b = .ok ((a + b) % (t.usizeMax + 1)) := by
  rw [add, ht]
  split
  · rename_i h
    rw [Nat.mod_eq_of_lt (Nat.lt_succ_of_le h)]
  · rfl

/-- Without overflow checks, an addition returns. -/
theorem exists_add_eq_ok {t : Target} (ht : t.overflowChecks = false) (a b : ℕ) :
    ∃ n, t.add a b = .ok n := ⟨_, add_eq_mod ht a b⟩

theorem exists_mul_eq_ok {t : Target} (ht : t.overflowChecks = false) (a b : ℕ) :
    ∃ n, t.mul a b = .ok n := by
  rw [mul, ht]
  split
  · exact ⟨_, rfl⟩
  · exact ⟨_, rfl⟩

theorem checkedMul_of_le {t : Target} {a b : ℕ} (h : a * b ≤ t.usizeMax) :
    t.checkedMul a b = some (a * b) := if_pos h

theorem checkedMul_eq_some_iff {t : Target} {a b n : ℕ} :
    t.checkedMul a b = some n ↔ n = a * b ∧ n ≤ t.usizeMax := by
  unfold checkedMul
  split
  · rename_i h
    constructor
    · rintro ⟨⟩; exact ⟨rfl, h⟩
    · rintro ⟨rfl, -⟩; rfl
  · rename_i h
    constructor
    · simp
    · rintro ⟨rfl, hn⟩; exact absurd hn h

theorem tryFrom_of_le {t : Target} {n : ℕ} (h : n ≤ t.usizeMax) : t.tryFrom n = some n := if_pos h

theorem tryFrom_eq_some_iff {t : Target} {n m : ℕ} :
    t.tryFrom n = some m ↔ m = n ∧ n ≤ t.usizeMax := by
  unfold tryFrom
  split
  · rename_i h
    simp [h, eq_comm]
  · rename_i h
    simp [h]

end Target

/-! ### Signed integers -/

/-- `i64::MAX`. -/
def i64Max : ℤ := 9223372036854775807

/-- `i128::MAX`. -/
def i128Max : ℤ := 170141183460469231731687303715884105727

/-- The integers of the signed type with this maximum. -/
def Fits (max n : ℤ) : Prop := -max - 1 ≤ n ∧ n ≤ max

instance (max n : ℤ) : Decidable (Fits max n) := inferInstanceAs (Decidable (_ ∧ _))

/-- The result of an operation on the signed type with this maximum, given what it is on
integers. -/
def Target.signed (t : Target) (max n : ℤ) : Checked ℤ :=
  if Fits max n then .ok n
  else if t.overflowChecks then .error .overflow
  else .ok (n.bmod (2 * max + 2).toNat)

/-- The result of a saturating operation. -/
def saturate (max n : ℤ) : ℤ := Max.max (-max - 1) (min max n)

theorem Target.signed_of_fits (t : Target) {max n : ℤ} (h : Fits max n) :
    t.signed max n = .ok n := if_pos h

theorem Target.signed_i64 (t : Target) {n : ℤ} (h : -9223372036854775808 ≤ n)
    (h' : n ≤ 9223372036854775807) : t.signed i64Max n = .ok n := t.signed_of_fits ⟨h, h'⟩

/-- With overflow checks, what is returned is the result on integers. -/
theorem Target.signed_eq_ok_iff {t : Target} (ht : t.overflowChecks = true) {max n m : ℤ} :
    t.signed max n = .ok m ↔ Fits max n ∧ n = m := by
  by_cases h : Fits max n
  · rw [signed_of_fits t h, Except.ok.injEq, and_iff_right h]
  · rw [signed, if_neg h, if_pos ht]
    exact iff_of_false (by simp) fun hm => h hm.1

theorem saturate_of_fits {max n : ℤ} (h : Fits max n) : saturate max n = n := by
  rw [saturate, min_eq_right h.2, max_eq_right h.1]

theorem fits_saturate {max : ℤ} (h : 0 ≤ max) (n : ℤ) : Fits max (saturate max n) := by
  unfold Fits saturate
  omega

/-- Saturating twice on the way up is saturating once. -/
theorem saturate_add {max a b : ℤ} (ha : -max - 1 ≤ a) (hb : 0 ≤ b) :
    saturate max (saturate max a + b) = saturate max (a + b) := by
  unfold saturate
  omega

end Rust
