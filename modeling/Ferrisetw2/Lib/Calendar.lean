import Mathlib.Data.Int.ConditionallyCompleteOrder
import Mathlib.Data.Prod.Lex
import Mathlib.Order.SuccPred.Archimedean

/-!
# The proleptic Gregorian calendar

A date is a year, a month of it and a day of that. The years are all integers: there is a year 0,
and the leap rule holds before the calendar was introduced as well.

The dates are in a row. `Date.next` is the successor in calendar order, and from a date any later
one is reached by going on day by day, which is what counting days means (`DaysFrom`). A number
given to every date, one more to each than to the date before it, thus counts the days, and nothing
else about it matters.

## Main definitions

* `IsLeap`, `daysInMonth`, `Date`, `Date.next`
* `DaysFrom` — the days from one date to another, counted one by one

## Main results

* `daysFrom_iff` — what goes up by one with every day counts the days
* `strictMono_of_next` — and goes up in calendar order
-/

namespace Calendar

/-- The leap rule. -/
def IsLeap (y : ℤ) : Prop := 4 ∣ y ∧ (¬ 100 ∣ y ∨ 400 ∣ y)

instance : DecidablePred IsLeap := fun y =>
  inferInstanceAs (Decidable (4 ∣ y ∧ (¬ 100 ∣ y ∨ 400 ∣ y)))

/-- The number of days of a month. -/
def daysInMonth (y m : ℤ) : ℤ :=
  if m = 2 then if IsLeap y then 29 else 28
  else if m = 4 ∨ m = 6 ∨ m = 9 ∨ m = 11 then 30
  else 31

theorem daysInMonth_bounds (y m : ℤ) : 28 ≤ daysInMonth y m ∧ daysInMonth y m ≤ 31 := by
  unfold daysInMonth
  split_ifs <;> decide

theorem daysInMonth_december (y : ℤ) : daysInMonth y 12 = 31 := rfl

/-- A date of the calendar. -/
@[ext]
structure Date where
  year : ℤ
  month : ℤ
  day : ℤ
  month_valid : 1 ≤ month ∧ month ≤ 12
  day_valid : 1 ≤ day ∧ day ≤ daysInMonth year month
  deriving DecidableEq

namespace Date

/-! ### Calendar order -/

instance : LinearOrder Date :=
  LinearOrder.lift' (fun d => toLex (d.year, toLex (d.month, d.day))) fun a b h => by
    simp only [EmbeddingLike.apply_eq_iff_eq, Prod.mk.injEq] at h
    exact Date.ext h.1 h.2.1 h.2.2

/-- Calendar order compares the years, then the months, then the days. -/
theorem lt_iff {a b : Date} : a < b ↔ a.year < b.year ∨ a.year = b.year ∧
    (a.month < b.month ∨ a.month = b.month ∧ a.day < b.day) := by
  show toLex (a.year, toLex (a.month, a.day)) < toLex (b.year, toLex (b.month, b.day)) ↔ _
  rw [Prod.Lex.toLex_lt_toLex, Prod.Lex.toLex_lt_toLex]

/-- The place of a date in a calendar whose months all have 31 days. -/
def rank (d : Date) : ℤ := 372 * d.year + 31 * d.month + d.day

theorem day_le (d : Date) : d.day ≤ 31 := Int.le_trans d.day_valid.2 (daysInMonth_bounds _ _).2

theorem lt_iff_rank {a b : Date} : a < b ↔ a.rank < b.rank := by
  have := a.month_valid
  have := b.month_valid
  have := a.day_valid
  have := b.day_valid
  have := a.day_le
  have := b.day_le
  rw [lt_iff, rank, rank]
  omega

theorem le_iff_rank {a b : Date} : a ≤ b ↔ a.rank ≤ b.rank := by
  rw [← not_lt, lt_iff_rank, Int.not_lt]

/-! ### The next day -/

theorem month_succ_valid {d : Date} (h : d.month < 12) : 1 ≤ d.month + 1 ∧ d.month + 1 ≤ 12 := by
  have := d.month_valid
  omega

/-- The first day of a year. -/
def newYear (y : ℤ) : Date where
  year := y
  month := 1
  day := 1
  month_valid := by decide
  day_valid := ⟨le_refl 1, by show (1 : ℤ) ≤ 31; decide⟩

/-- The day after. -/
def next (d : Date) : Date :=
  if h : d.day < daysInMonth d.year d.month then
    ⟨d.year, d.month, d.day + 1, d.month_valid, by have := d.day_valid; omega⟩
  else if h' : d.month < 12 then
    ⟨d.year, d.month + 1, 1, month_succ_valid h', le_refl 1,
      by have := daysInMonth_bounds d.year (d.month + 1); omega⟩
  else newYear (d.year + 1)

/-- What the day after is: a day of the same month, the first of the next month, or the first of
the next year. -/
theorem next_cases (d : Date) :
    (d.day < daysInMonth d.year d.month ∧ d.next.year = d.year ∧ d.next.month = d.month ∧
      d.next.day = d.day + 1) ∨
    (d.day = daysInMonth d.year d.month ∧ d.month < 12 ∧ d.next.year = d.year ∧
      d.next.month = d.month + 1 ∧ d.next.day = 1) ∨
    (d.day = 31 ∧ d.month = 12 ∧ d.next.year = d.year + 1 ∧ d.next.month = 1 ∧
      d.next.day = 1) := by
  have hday := d.day_valid.2
  unfold next
  by_cases h : d.day < daysInMonth d.year d.month
  · rw [dif_pos h]
    exact .inl ⟨h, rfl, rfl, rfl⟩
  · have hlast := Int.le_antisymm hday (Int.not_lt.mp h)
    rw [dif_neg h]
    by_cases h' : d.month < 12
    · rw [dif_pos h']
      exact .inr (.inl ⟨hlast, h', rfl, rfl, rfl⟩)
    · have hdec : d.month = 12 := Int.le_antisymm d.month_valid.2 (Int.not_lt.mp h')
      rw [dif_neg h']
      rw [hdec, daysInMonth_december] at hlast
      exact .inr (.inr ⟨hlast, hdec, rfl, rfl, rfl⟩)

/-- No date is between a date and the day after. -/
theorem next_le_iff {a b : Date} : a.next ≤ b ↔ a < b := by
  have := a.month_valid
  have := b.month_valid
  have := a.day_valid.1
  have := b.day_valid.1
  have := a.day_le
  have := b.day_le
  have hmonth : b.year = a.year → b.month = a.month →
      b.day ≤ daysInMonth a.year a.month := by
    intro hyear hmonth
    rw [← hyear, ← hmonth]
    exact b.day_valid.2
  rw [le_iff_rank, lt_iff_rank, rank, rank, rank]
  rcases a.next_cases with ⟨hlt, hy, hm, hd⟩ | ⟨hlast, hlt, hy, hm, hd⟩ | ⟨hlast, hdec, hy, hm, hd⟩
  all_goals
    rw [hy, hm, hd]
    omega

theorem rank_next (d : Date) : d.rank < d.next.rank := lt_iff_rank.mp (next_le_iff.mp (le_refl _))

instance : SuccOrder Date := SuccOrder.ofSuccLeIff next next_le_iff

/-- **From a date, every later one is reached day by day.** -/
theorem exists_iterate_next {a b : Date} (h : a ≤ b) : ∃ n : ℕ, next^[n] a = b := by
  induction hn : (b.rank - a.rank).toNat using Nat.strong_induction_on generalizing a with
  | _ n ih =>
    rcases h.eq_or_lt with rfl | hlt
    · exact ⟨0, rfl⟩
    · have hrank := lt_iff_rank.mp hlt
      have hnext := a.rank_next
      obtain ⟨k, hk⟩ := ih _ (by omega) (next_le_iff.mpr hlt) rfl
      exact ⟨k + 1, by rw [Function.iterate_succ_apply, hk]⟩

instance : IsSuccArchimedean Date := ⟨exists_iterate_next⟩

end Date

/-! ### Counting days -/

/-- `b` is `n` days after `a`, counted one by one, or, for a negative `n`, as many before it. -/
def DaysFrom (a b : Date) (n : ℤ) : Prop :=
  ∃ k : ℕ, n = k ∧ Date.next^[k] a = b ∨ n = -k ∧ Date.next^[k] b = a

variable {f : Date → ℤ} (hf : ∀ d, f d.next = f d + 1)
include hf

theorem eq_add_of_iterate_next (k : ℕ) (d : Date) : f (Date.next^[k] d) = f d + k := by
  induction k with
  | zero => simp
  | succ k ih =>
    rw [Function.iterate_succ_apply', hf, ih]
    omega

/-- **What goes up by one with every day counts the days.** -/
theorem daysFrom_iff {a b : Date} {n : ℤ} : DaysFrom a b n ↔ n = f b - f a := by
  constructor
  · rintro ⟨k, ⟨rfl, rfl⟩ | ⟨rfl, rfl⟩⟩
    · rw [eq_add_of_iterate_next hf]
      omega
    · rw [eq_add_of_iterate_next hf]
      omega
  · rintro rfl
    rcases le_total a b with h | h
    · obtain ⟨k, rfl⟩ := Date.exists_iterate_next h
      exact ⟨k, .inl ⟨by rw [eq_add_of_iterate_next hf]; omega, rfl⟩⟩
    · obtain ⟨k, rfl⟩ := Date.exists_iterate_next h
      exact ⟨k, .inr ⟨by rw [eq_add_of_iterate_next hf]; omega, rfl⟩⟩

theorem strictMono_of_next : StrictMono f := by
  refine strictMono_of_lt_succ fun d _ => ?_
  show f d < f d.next
  rw [hf]
  omega

end Calendar
