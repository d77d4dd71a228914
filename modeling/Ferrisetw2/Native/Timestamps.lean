import Ferrisetw2.Lib.Calendar
import Ferrisetw2.Lib.Checked
import Ferrisetw2.Native.Time
import Mathlib.Tactic.IntervalCases

/-!
# Timestamps

`FILETIME` and `SYSTEMTIME`, converted to unix timestamps. `time.rs`.

A date becomes a number of days by a formula, which has to count one more with every day of the
calendar. The rest is scaling. The conversion of a `SYSTEMTIME` saturates where the scaled number
does not fit; that of a `FILETIME` divides a number that may be negative, and truncates.

## Main definitions

* `daysFromCivil`, and `civilDays` on integers of any size
* `SystemTime.asFiletimeQuad`, `FileTime.asQuad`, `unixTimestamp`, `unixTimestampNanos`
* `SystemTime.Valid`, `SystemTime.intervals`

## Main results

* `dayNumber_next`, `daysFrom_unixEpoch` — the formula counts the days
* `daysFromCivil_eq_ok_iff` — and does so on `i64` while they fit
* `SystemTime.asFiletimeQuad_eq`, `SystemTime.Valid.intervals_lt` — the scaling
* `timestamps_agree_iff` — where the two timestamps of a quad agree
-/

namespace Ferrisetw2

open Rust Calendar

/-! ### The source -/

/-- `SECONDS_BETWEEN_1601_AND_1970`. -/
def secondsBetween1601And1970 : ℤ := 11644473600

/-- `NS_IN_SECOND`. -/
def nsInSecond : ℤ := 1000000000

/-- `MS_IN_SECOND`. -/
def msInSecond : ℤ := 1000

/-- `days_from_civil`, on integers of any size. -/
def civilDays (y m d : ℤ) : ℤ :=
  let y := y - if m ≤ 2 then 1 else 0
  let era := (if 0 ≤ y then y else y - 399).tdiv 400
  let yoe := y - era * 400
  let mp := (m + 9).tmod 12
  let doy := (153 * mp + 2).tdiv 5 + d - 1
  let doe := yoe * 365 + yoe.tdiv 4 - yoe.tdiv 100 + doy
  era * 146097 + doe - 719468

/-- `days_from_civil`. -/
def daysFromCivil (t : Target) (y m d : ℤ) : Checked ℤ := do
  let y ← t.signed i64Max (y - if m ≤ 2 then 1 else 0)
  let dividend ← (if 0 ≤ y then .ok y else t.signed i64Max (y - 399))
  let era := dividend.tdiv 400
  let eraStart ← t.signed i64Max (era * 400)
  let yoe ← t.signed i64Max (y - eraStart)
  let sum ← t.signed i64Max (m + 9)
  let mp := sum.tmod 12
  let product ← t.signed i64Max (153 * mp)
  let sum ← t.signed i64Max (product + 2)
  let sum ← t.signed i64Max (sum.tdiv 5 + d)
  let doy ← t.signed i64Max (sum - 1)
  let product ← t.signed i64Max (yoe * 365)
  let sum ← t.signed i64Max (product + yoe.tdiv 4)
  let difference ← t.signed i64Max (sum - yoe.tdiv 100)
  let doe ← t.signed i64Max (difference + doy)
  let eraDays ← t.signed i64Max (era * 146097)
  let sum ← t.signed i64Max (eraDays + doe)
  t.signed i64Max (sum - 719468)

/-- `SystemTime::as_filetime_quad`. -/
def SystemTime.asFiletimeQuad (t : Target) (st : SystemTime) : Checked ℤ := do
  let days ← daysFromCivil t st.wYear.toNat st.wMonth.toNat st.wDay.toNat
  let days ← t.signed i64Max (days + secondsBetween1601And1970.tdiv 86400)
  let secs ← t.signed i64Max (days * 86400)
  let hours ← t.signed i64Max (st.wHour.toNat * 3600)
  let secs ← t.signed i64Max (secs + hours)
  let minutes ← t.signed i64Max (st.wMinute.toNat * 60)
  let secs ← t.signed i64Max (secs + minutes)
  let secsSince1601 ← t.signed i64Max (secs + st.wSecond.toNat)
  let millis ← t.signed i64Max (st.wMilliseconds.toNat * 10000)
  .ok (saturate i64Max (saturate i64Max (secsSince1601 * 10000000) + millis))

/-- `FileTime::as_quad`. -/
def FileTime.asQuad (ft : FileTime) : ℤ :=
  let quad := BitVec.ofNat 64 ft.dwHighDateTime.toNat
  let quad := quad <<< 32
  let quad := quad ||| BitVec.ofNat 64 ft.dwLowDateTime.toNat
  quad.toInt

/-- `FileTime::from_quad`. -/
def FileTime.fromQuad (quad : ℤ) : FileTime where
  dwHighDateTime := UInt32.ofNat ((BitVec.ofInt 64 quad).sshiftRight 32).toNat
  dwLowDateTime := UInt32.ofNat (BitVec.ofInt 64 quad &&& 0xffffffff).toNat

/-- The body of both `as_unix_timestamp`. -/
def unixTimestamp (t : Target) (quad : ℤ) : Checked ℤ := do
  let epoch ← t.signed i64Max (secondsBetween1601And1970 * msInSecond)
  t.signed i64Max (quad.tdiv 10000 - epoch)

/-- The body of both `as_unix_timestamp_nanos`. -/
def unixTimestampNanos (t : Target) (quad : ℤ) : Checked ℤ := do
  let nanos ← t.signed i128Max (quad * 100)
  let epoch ← t.signed i128Max (secondsBetween1601And1970 * nsInSecond)
  t.signed i128Max (nanos - epoch)

/-- `FileTime::as_unix_timestamp`. -/
def FileTime.asUnixTimestamp (t : Target) (ft : FileTime) : Checked ℤ := unixTimestamp t ft.asQuad

/-- `FileTime::as_unix_timestamp_nanos`. -/
def FileTime.asUnixTimestampNanos (t : Target) (ft : FileTime) : Checked ℤ :=
  unixTimestampNanos t ft.asQuad

/-- `SystemTime::as_unix_timestamp`. -/
def SystemTime.asUnixTimestamp (t : Target) (st : SystemTime) : Checked ℤ := do
  unixTimestamp t (← st.asFiletimeQuad t)

/-- `SystemTime::as_unix_timestamp_nanos`. -/
def SystemTime.asUnixTimestampNanos (t : Target) (st : SystemTime) : Checked ℤ := do
  unixTimestampNanos t (← st.asFiletimeQuad t)

/-! ### Days -/

/-- The March-based year a date lies in. -/
def marchYear (y m : ℤ) : ℤ := y - if m ≤ 2 then 1 else 0

/-- With 399 subtracted from what is negative, division that truncates rounds down. -/
theorem era_eq (y : ℤ) : (if 0 ≤ y then y else y - 399).tdiv 400 = y / 400 := by
  split
  · rw [Int.tdiv_eq_ediv_of_nonneg ‹_›]
  · have hsign : Int.sign 400 = 1 := rfl
    rw [Int.tdiv_eq_ediv, hsign]
    split <;> omega

/-- Fourth and hundredth years, counted from the start of an era. -/
theorem yearOfEra_div (y era : ℤ) :
    (y - era * 400) / 4 = y / 4 - era * 100 ∧ (y - era * 400) / 100 = y / 100 - era * 4 := by
  constructor <;> omega

theorem tmod_month {m : ℤ} (hm : 0 ≤ m) : (m + 9).tmod 12 = (m + 9) % 12 :=
  Int.tmod_eq_emod_of_nonneg (by omega)

/-- **The formula without eras**: divisions that round down make them superfluous. -/
theorem civilDays_eq (y m d : ℤ) (hm : 0 ≤ m) :
    civilDays y m d = 365 * marchYear y m + marchYear y m / 4 - marchYear y m / 100 +
      marchYear y m / 400 + (153 * ((m + 9) % 12) + 2) / 5 + d - 719469 := by
  unfold civilDays
  dsimp only
  rw [← marchYear, tmod_month hm, era_eq, Int.tdiv_eq_ediv_of_nonneg (by omega),
    Int.tdiv_eq_ediv_of_nonneg (by omega), Int.tdiv_eq_ediv_of_nonneg (by omega)]
  omega

theorem marchYear_of_le {y m : ℤ} (h : m ≤ 2) : marchYear y m = y - 1 := by
  rw [marchYear, if_pos h]

theorem marchYear_of_gt {y m : ℤ} (h : 2 < m) : marchYear y m = y := by
  rw [marchYear, if_neg (Int.not_le.mpr h), Int.sub_zero]

/-- From the last of February to the first of March, where the leap rule comes in. -/
theorem civilDays_march (y : ℤ) : civilDays y 3 1 = civilDays y 2 (daysInMonth y 2) + 1 := by
  rw [civilDays_eq _ _ _ (by decide), civilDays_eq _ _ _ (by decide),
    marchYear_of_gt (by decide), marchYear_of_le (by decide), daysInMonth, if_pos rfl]
  by_cases hleap : IsLeap y
  · rw [if_pos hleap]
    rw [IsLeap] at hleap
    omega
  · rw [if_neg hleap]
    rw [IsLeap] at hleap
    omega

/-- From the last of any other month to the first of the next: the days of the months from March on
are 31, 30, 31, 30, 31, twice, and 31. -/
theorem civilDays_month {m : ℤ} (y : ℤ) (hm : 1 ≤ m) (hm' : m < 12) (hne : m ≠ 2) :
    civilDays y (m + 1) 1 = civilDays y m (daysInMonth y m) + 1 := by
  have hyear : marchYear y (m + 1) = marchYear y m := by
    rw [marchYear, marchYear]
    split <;> split <;> omega
  rw [civilDays_eq _ _ _ (by omega), civilDays_eq _ _ _ (by omega), hyear, daysInMonth, if_neg hne]
  interval_cases m <;> split <;> omega

/-- The formula, of a date. -/
def dayNumber (d : Date) : ℤ := civilDays d.year d.month d.day

/-- **One day more is one more**: within a month, from one month to the next, and from one year to
the next. -/
theorem dayNumber_next (d : Date) : dayNumber d.next = dayNumber d + 1 := by
  have hm := d.month_valid
  rw [dayNumber, dayNumber]
  rcases d.next_cases with ⟨-, hy, hm', hd⟩ | ⟨hlast, hlt, hy, hm', hd⟩ | ⟨hlast, hdec, hy, hm', hd⟩
  · rw [hy, hm', hd, civilDays_eq _ _ _ (by omega), civilDays_eq _ _ _ (by omega)]
    omega
  · rw [hy, hm', hd, hlast]
    by_cases hfeb : d.month = 2
    · rw [hfeb]
      exact civilDays_march d.year
    · exact civilDays_month d.year hm.1 hlt hfeb
  · rw [hy, hm', hd, hlast, hdec, civilDays_eq _ _ _ (by decide), civilDays_eq _ _ _ (by decide),
      marchYear_of_le (by decide), marchYear_of_gt (by decide)]
    omega

/-- 1970-01-01. -/
def unixEpoch : Date := .newYear 1970

/-- 1601-01-01. -/
def filetimeEpoch : Date := .newYear 1601

/-- **The formula counts the days**, for every date of every year. -/
theorem daysFrom_unixEpoch (d : Date) :
    DaysFrom unixEpoch d (dayNumber d) := by
  rw [daysFrom_iff dayNumber_next]
  exact (Int.sub_zero _).symm

theorem daysFrom_filetimeEpoch (d : Date) :
    DaysFrom filetimeEpoch d (dayNumber d + 134774) := by
  rw [daysFrom_iff dayNumber_next]
  rfl

/-! ### Overflow -/

/-- Where the sums with the days of the eras fit, nothing overflows. -/
theorem daysFromCivil_of_fits (t : Target) {y m d : ℤ} (hm : 0 ≤ m ∧ m ≤ 65535)
    (hd : 0 ≤ d ∧ d ≤ 65535) (hera : Fits i64Max (marchYear y m / 400 * 146097))
    (hsum : Fits i64Max (civilDays y m d + 719468)) (hdays : Fits i64Max (civilDays y m d)) :
    daysFromCivil t y m d = .ok (civilDays y m d) := by
  have hcivil := civilDays_eq y m d hm.1
  have hmax : i64Max = 9223372036854775807 := rfl
  rw [Fits, hmax] at hera hsum hdays
  have hdividend : (if 0 ≤ marchYear y m then .ok (marchYear y m)
      else t.signed i64Max (marchYear y m - 399)) =
        .ok (if 0 ≤ marchYear y m then marchYear y m else marchYear y m - 399) := by
    split
    · rfl
    · exact t.signed_i64 (by omega) (by omega)
  rw [daysFromCivil, ← marchYear, t.signed_i64 (by omega) (by omega), bind_ok, hdividend, bind_ok]
  simp (disch := omega) only [era_eq, tmod_month hm.1, Int.tdiv_eq_ediv_of_nonneg, t.signed_i64,
    bind_ok]
  obtain ⟨hfours, hhundreds⟩ := yearOfEra_div (marchYear y m) (marchYear y m / 400)
  have hdoe : marchYear y m / 400 * 146097 + ((marchYear y m - marchYear y m / 400 * 400) * 365 +
      (marchYear y m - marchYear y m / 400 * 400) / 4 -
        (marchYear y m - marchYear y m / 400 * 400) / 100 +
          ((153 * ((m + 9) % 12) + 2) / 5 + d - 1)) = civilDays y m d + 719468 := by omega
  rw [hdoe, t.signed_i64 (by omega) (by omega), bind_ok, Int.add_sub_cancel,
    t.signed_i64 (by omega) (by omega)]

/-- **Nothing overflows for exactly the dates whose days fit**, counted from 1970 and counted from
the first of March of the year 0. -/
theorem daysFromCivil_eq_ok_iff (d : Date) :
    (∀ t, daysFromCivil t d.year d.month d.day = .ok (dayNumber d)) ↔
      Fits i64Max (dayNumber d) ∧ Fits i64Max (dayNumber d + 719468) := by
  have hm := d.month_valid
  have hd := d.day_valid.1
  have hd' := d.day_le
  have hcivil := civilDays_eq d.year d.month d.day (by omega)
  have hmax : i64Max = 9223372036854775807 := rfl
  rw [dayNumber]
  constructor
  · intro h
    have hchecked := h ⟨.b64, true⟩
    simp only [daysFromCivil, bind_eq_ok_iff] at hchecked
    -- the last two sums are the days in both counts
    obtain ⟨_, -, _, -, _, -, _, -, _, -, _, -, _, -, _, -, _, -, _, -, _, -, _, -, _, -, _, -, sum,
      hsum, hdays⟩ := hchecked
    obtain ⟨hfits, rfl⟩ := (Target.signed_eq_ok_iff rfl).mp hsum
    obtain ⟨hfits', heq⟩ := (Target.signed_eq_ok_iff rfl).mp hdays
    rw [← heq, Int.sub_add_cancel]
    exact ⟨hfits', hfits⟩
  · rintro ⟨hdays, hsum⟩ t
    refine daysFromCivil_of_fits t (by omega) (by omega) ?_ hsum hdays
    rw [Fits, hmax] at hdays hsum ⊢
    omega

/-! ### Intervals since 1601 -/

section Quads

variable (st : SystemTime)

/-- The intervals of 100 ns that the fields stand for, on integers of any size. -/
def SystemTime.intervals : ℤ :=
  ((((civilDays st.wYear.toNat st.wMonth.toNat st.wDay.toNat + 134774) * 24 + st.wHour.toNat) * 60 +
    st.wMinute.toNat) * 60 + st.wSecond.toNat) * 10000000 + st.wMilliseconds.toNat * 10000

/-- Three fields of 16 bits are less than 24 million days from 1970. -/
theorem civilDays_bounds : -719835 ≤ civilDays st.wYear.toNat st.wMonth.toNat st.wDay.toNat ∧
    civilDays st.wYear.toNat st.wMonth.toNat st.wDay.toNat ≤ 24000000 := by
  have hy := st.wYear.toNat_lt
  have hm := st.wMonth.toNat_lt
  have hd := st.wDay.toNat_lt
  rw [civilDays_eq _ _ _ (by omega), marchYear]
  split <;> omega

/-- **For any fields the conversion returns**, what they stand for if it fits, and `i64::MAX` if
not. -/
theorem SystemTime.asFiletimeQuad_eq (t : Target) :
    st.asFiletimeQuad t = .ok (saturate i64Max st.intervals) := by
  have hyear := st.wYear.toNat_lt
  have hmonth := st.wMonth.toNat_lt
  have hday := st.wDay.toNat_lt
  have hhour := st.wHour.toNat_lt
  have hminute := st.wMinute.toNat_lt
  have hsecond := st.wSecond.toNat_lt
  have hmillis := st.wMilliseconds.toNat_lt
  have hbounds := civilDays_bounds st
  have hmax : i64Max = 9223372036854775807 := rfl
  have hdays : daysFromCivil t st.wYear.toNat st.wMonth.toNat st.wDay.toNat =
      .ok (civilDays st.wYear.toNat st.wMonth.toNat st.wDay.toNat) := by
    refine daysFromCivil_of_fits t (by omega) (by omega) ?_ ?_ ?_
    · rw [Fits, hmax, marchYear]
      split <;> omega
    · rw [Fits, hmax]
      omega
    · rw [Fits, hmax]
      omega
  have hepoch : secondsBetween1601And1970.tdiv 86400 = 134774 := rfl
  rw [asFiletimeQuad, hdays, bind_ok, hepoch]
  simp (disch := omega) only [t.signed_i64, bind_ok]
  rw [saturate_add (by rw [hmax]; omega) (by omega), intervals]
  congr 2
  omega

end Quads

/-! ### Valid times -/

namespace SystemTime

variable {st st' : SystemTime}

/-- The fields are those of a date up to the year 30827 and of a time of day. The day of the week
may be any. -/
structure Valid (st : SystemTime) : Prop where
  year : st.wYear.toNat ≤ 30827
  month : 1 ≤ (st.wMonth.toNat : ℤ) ∧ (st.wMonth.toNat : ℤ) ≤ 12
  day : 1 ≤ (st.wDay.toNat : ℤ) ∧
    (st.wDay.toNat : ℤ) ≤ daysInMonth st.wYear.toNat st.wMonth.toNat
  hour : st.wHour.toNat < 24
  minute : st.wMinute.toNat < 60
  second : st.wSecond.toNat < 60
  milliseconds : st.wMilliseconds.toNat < 1000

/-- The date of a valid time. -/
def Valid.date (h : st.Valid) : Date :=
  ⟨st.wYear.toNat, st.wMonth.toNat, st.wDay.toNat, h.month, h.day⟩

/-- The fields in the order in which times are compared. -/
def fields (st : SystemTime) : List ℕ :=
  [st.wYear.toNat, st.wMonth.toNat, st.wDay.toNat, st.wHour.toNat, st.wMinute.toNat,
    st.wSecond.toNat, st.wMilliseconds.toNat]

theorem Valid.fits (h : st.Valid) : Fits i64Max st.intervals := by
  obtain ⟨hyear, hmonth, hday, hhour, hminute, hsecond, hmillis⟩ := h
  have hdays := civilDays_bounds st
  have hlast := (daysInMonth_bounds st.wYear.toNat st.wMonth.toNat).2
  have hdays' : civilDays st.wYear.toNat st.wMonth.toNat st.wDay.toNat ≤ 10540300 := by
    rw [civilDays_eq _ _ _ (by omega), marchYear]
    split <;> omega
  have hmax : i64Max = 9223372036854775807 := rfl
  rw [Fits, hmax, intervals]
  omega

theorem Valid.asFiletimeQuad_eq (h : st.Valid) (t : Target) :
    st.asFiletimeQuad t = .ok st.intervals := by
  rw [SystemTime.asFiletimeQuad_eq, saturate_of_fits h.fits]

/-- Dates first, and the time of day on the same date. -/
theorem Valid.lt_of_fields (h : st.Valid) (h' : st'.Valid) (hlt : st.fields < st'.fields) :
    h.date < h'.date ∨ h.date = h'.date ∧
      (st.wHour.toNat < st'.wHour.toNat ∨ st.wHour.toNat = st'.wHour.toNat ∧
        (st.wMinute.toNat < st'.wMinute.toNat ∨ st.wMinute.toNat = st'.wMinute.toNat ∧
          (st.wSecond.toNat < st'.wSecond.toNat ∨ st.wSecond.toNat = st'.wSecond.toNat ∧
            st.wMilliseconds.toNat < st'.wMilliseconds.toNat))) := by
  simp only [fields, List.cons_lt_cons_iff, List.not_lt_nil, and_false, or_false] at hlt
  rw [Date.lt_iff, Date.ext_iff]
  simp only [Valid.date, Int.ofNat_lt, Int.natCast_inj]
  omega

/-- **Later is more**, in calendar order. -/
theorem Valid.intervals_lt (h : st.Valid) (h' : st'.Valid) (hlt : st.fields < st'.fields) :
    st.intervals < st'.intervals := by
  have hhour := h.hour
  have hminute := h.minute
  have hsecond := h.second
  have hmillis := h.milliseconds
  rw [intervals, intervals]
  rcases h.lt_of_fields h' hlt with hdate | ⟨hdate, htime⟩
  · have hdays := strictMono_of_next dayNumber_next hdate
    simp only [dayNumber, Valid.date] at hdays
    omega
  · have hdays := congrArg dayNumber hdate
    simp only [dayNumber, Valid.date] at hdays
    omega

end SystemTime

/-! ### Quads -/

namespace FileTime

/-- The two halves, as one signed number. -/
theorem asQuad_eq (ft : FileTime) :
    ft.asQuad = Int.bmod (ft.dwHighDateTime.toNat * 4294967296 + ft.dwLowDateTime.toNat)
      18446744073709551616 := by
  have hhigh := ft.dwHighDateTime.toNat_lt
  have hlow := ft.dwLowDateTime.toNat_lt
  have hword : ∀ n : ℕ, n < 2 ^ 32 → (BitVec.ofNat 64 n).toNat = n := by
    intro n hn
    rw [BitVec.toNat_ofNat]
    exact Nat.mod_eq_of_lt (by omega)
  have hshift : ft.dwHighDateTime.toNat <<< 32 % 2 ^ 64 = ft.dwHighDateTime.toNat <<< 32 := by
    rw [Nat.shiftLeft_eq]
    exact Nat.mod_eq_of_lt (by omega)
  rw [asQuad, BitVec.toInt_eq_toNat_bmod, BitVec.toNat_or, BitVec.toNat_shiftLeft, hword _ hhigh,
    hword _ hlow, hshift, ← Nat.shiftLeft_add_eq_or_of_lt hlow, Nat.shiftLeft_eq]
  rfl

theorem fits_asQuad (ft : FileTime) : Fits i64Max ft.asQuad := by
  rw [asQuad_eq]
  exact ⟨Int.le_bmod (by decide), Int.le_of_lt_add_one (Int.bmod_lt (by decide))⟩

/-- Every signed number is the quad of some time. -/
theorem asQuad_fromQuad {quad : ℤ} (h : Fits i64Max quad) : (fromQuad quad).asQuad = quad := by
  have hmax : i64Max = 9223372036854775807 := rfl
  rw [Fits, hmax] at h
  have hself : (BitVec.ofInt 64 quad).toInt = quad :=
    BitVec.toInt_ofInt_eq_self (by decide) (by omega) (by omega)
  have hhigh : (fromQuad quad).dwHighDateTime.toNat = quad / 4294967296 % 4294967296 := by
    rw [fromQuad, UInt32.toNat_ofNat', BitVec.sshiftRight, hself, BitVec.toNat_ofInt,
      Int.shiftRight_eq_div_pow]
    omega
  have hlow : (fromQuad quad).dwLowDateTime.toNat = quad % 4294967296 := by
    have hmask : (0xffffffff : BitVec 64).toNat = 2 ^ 32 - 1 := rfl
    rw [fromQuad, UInt32.toNat_ofNat', BitVec.toNat_and, hmask, Nat.and_two_pow_sub_one_eq_mod,
      BitVec.toNat_ofInt]
    omega
  have hhalves : quad / 4294967296 % 4294967296 * 4294967296 + quad % 4294967296 =
      quad % (18446744073709551616 : ℕ) := by omega
  rw [asQuad_eq, hhigh, hlow, hhalves, Int.emod_bmod]
  exact Int.bmod_eq_of_le (by omega) (by omega)

end FileTime

/-! ### Unix timestamps -/

section Unix

variable {quad quad' : ℤ}

theorem unixTimestamp_of_fits (t : Target) (h : Fits i64Max quad) :
    unixTimestamp t quad = .ok (quad.tdiv 10000 - 11644473600000) := by
  have hepoch : secondsBetween1601And1970 * msInSecond = 11644473600000 := rfl
  have hmax : i64Max = 9223372036854775807 := rfl
  have hdiv := @Int.tdiv_eq_ediv quad 10000
  have hsign : Int.sign 10000 = 1 := rfl
  rw [Fits, hmax] at h
  rw [hsign] at hdiv
  rw [unixTimestamp, hepoch, t.signed_i64 (by decide) (by decide), bind_ok]
  refine t.signed_i64 ?_ ?_
  · split at hdiv <;> omega
  · split at hdiv <;> omega

theorem unixTimestampNanos_of_fits (t : Target) (h : Fits i64Max quad) :
    unixTimestampNanos t quad = .ok (quad * 100 - 11644473600000000000) := by
  have hepoch : secondsBetween1601And1970 * nsInSecond = 11644473600000000000 := rfl
  have hmax : i64Max = 9223372036854775807 := rfl
  have hmax' : i128Max = 170141183460469231731687303715884105727 := rfl
  rw [Fits, hmax] at h
  have hfits : ∀ n : ℤ, -2000000000000000000000 ≤ n → n ≤ 2000000000000000000000 →
      t.signed i128Max n = .ok n := by
    intro n hlow hhigh
    refine t.signed_of_fits ?_
    rw [Fits, hmax']
    omega
  rw [unixTimestampNanos, hepoch, hfits (quad * 100) (by omega) (by omega), bind_ok,
    hfits _ (by decide) (by decide), bind_ok, hfits _ (by omega) (by omega)]

/-- **Truncation is rounding down** where nothing is cut off, or nothing is below zero. -/
theorem timestamps_agree_iff (t : Target) (h : Fits i64Max quad) : ∃ ms ns,
    unixTimestamp t quad = .ok ms ∧ unixTimestampNanos t quad = .ok ns ∧
      (ms = ns / 1000000 ↔ 0 ≤ quad ∨ 10000 ∣ quad) := by
  refine ⟨_, _, unixTimestamp_of_fits t h, unixTimestampNanos_of_fits t h, ?_⟩
  have hsign : Int.sign 10000 = 1 := rfl
  rw [Int.tdiv_eq_ediv, hsign]
  split <;> omega

/-- **Both go up with the quad.** -/
theorem timestamps_mono (t : Target) (h : Fits i64Max quad) (h' : Fits i64Max quad')
    (hle : quad ≤ quad') : ∃ ms ns ms' ns',
      unixTimestamp t quad = .ok ms ∧ unixTimestampNanos t quad = .ok ns ∧
      unixTimestamp t quad' = .ok ms' ∧ unixTimestampNanos t quad' = .ok ns' ∧
        ms ≤ ms' ∧ ns ≤ ns' := by
  have hdiv := Int.tdiv_le_tdiv (by decide : (0 : ℤ) < 10000) hle
  exact ⟨_, _, _, _, unixTimestamp_of_fits t h, unixTimestampNanos_of_fits t h,
    unixTimestamp_of_fits t h', unixTimestampNanos_of_fits t h', by omega, by omega⟩

end Unix

namespace SystemTime

theorem fits_asFiletimeQuad (st : SystemTime) : Fits i64Max (saturate i64Max st.intervals) :=
  fits_saturate (by decide) _

/-- A quad below zero has not been saturated, and the fields have no smaller unit than 1 ms. -/
theorem nonneg_or_dvd_asFiletimeQuad (st : SystemTime) :
    0 ≤ saturate i64Max st.intervals ∨ 10000 ∣ saturate i64Max st.intervals := by
  have hdays := civilDays_bounds st
  have hmax : i64Max = 9223372036854775807 := rfl
  by_cases h : st.intervals ≤ i64Max
  · have hfits : Fits i64Max st.intervals := by
      refine ⟨?_, h⟩
      rw [hmax, intervals]
      omega
    rw [saturate_of_fits hfits, intervals]
    omega
  · left
    rw [saturate, hmax] at *
    omega

end SystemTime

/-! ### The conversions -/

/-- **Days and times are counted exactly.** The formula counts the days for every date, and on `i64`
it does so for exactly the dates whose days fit. Every valid time up to the year 30827 is converted
to the intervals since 1601, which go up in calendar order, and any other fields to what they would
stand for, or to `i64::MAX`. -/
theorem daysFromCivil_exact (t : Target) :
    (∀ d : Date, DaysFrom unixEpoch d (civilDays d.year d.month d.day)) ∧
    (∀ d : Date, (∀ t, daysFromCivil t d.year d.month d.day = .ok (dayNumber d)) ↔
      Fits i64Max (dayNumber d) ∧ Fits i64Max (dayNumber d + 719468)) ∧
    (∀ (st : SystemTime) (h : st.Valid), ∃ n, DaysFrom filetimeEpoch h.date n ∧
      st.asFiletimeQuad t = .ok ((((n * 24 + st.wHour.toNat) * 60 + st.wMinute.toNat) * 60 +
        st.wSecond.toNat) * 10000000 + st.wMilliseconds.toNat * 10000)) ∧
    (∀ st st' : SystemTime, st.Valid → st'.Valid → st.fields < st'.fields → ∃ quad quad',
      st.asFiletimeQuad t = .ok quad ∧ st'.asFiletimeQuad t = .ok quad' ∧ quad < quad') ∧
    ∀ st : SystemTime, st.asFiletimeQuad t = .ok (saturate i64Max st.intervals) ∧
      (∃ ms, st.asUnixTimestamp t = .ok ms) ∧ ∃ ns, st.asUnixTimestampNanos t = .ok ns := by
  refine ⟨daysFrom_unixEpoch, daysFromCivil_eq_ok_iff, fun st h => ?_, fun st st' h h' hlt => ?_,
    fun st => ?_⟩
  · exact ⟨_, daysFrom_filetimeEpoch h.date, h.asFiletimeQuad_eq t⟩
  · exact ⟨_, _, h.asFiletimeQuad_eq t, h'.asFiletimeQuad_eq t, h.intervals_lt h' hlt⟩
  · have hquad := st.asFiletimeQuad_eq t
    rw [SystemTime.asUnixTimestamp, SystemTime.asUnixTimestampNanos, hquad, bind_ok, bind_ok]
    exact ⟨rfl, ⟨_, unixTimestamp_of_fits t st.fits_asFiletimeQuad⟩,
      ⟨_, unixTimestampNanos_of_fits t st.fits_asFiletimeQuad⟩⟩

/-- Noon of a leap day. -/
def leapDay : SystemTime := ⟨2024, 2, 4, 29, 12, 0, 0, 0⟩

/-- The day after. -/
def afterLeapDay : SystemTime := ⟨2024, 3, 5, 1, 0, 0, 0, 0⟩

theorem leapDay_valid : leapDay.Valid := by
  constructor <;> decide

theorem afterLeapDay_valid : afterLeapDay.Valid := by
  constructor <;> decide

theorem daysFromCivil_exact_leapDay :
    (∃ n, DaysFrom filetimeEpoch leapDay_valid.date n ∧
      leapDay.asFiletimeQuad ⟨.b64, true⟩ =
        .ok ((((n * 24 + 12) * 60 + 0) * 60 + 0) * 10000000 + 0 * 10000)) ∧
    ∃ quad quad', leapDay.asFiletimeQuad ⟨.b64, true⟩ = .ok quad ∧
      afterLeapDay.asFiletimeQuad ⟨.b64, true⟩ = .ok quad' ∧ quad < quad' := by
  obtain ⟨-, -, hvalid, hlater, -⟩ := daysFromCivil_exact ⟨.b64, true⟩
  exact ⟨hvalid leapDay leapDay_valid,
    hlater leapDay afterLeapDay leapDay_valid afterLeapDay_valid (by decide)⟩

/-- The last year of an `i64`. -/
def lastYear : Date := ⟨i64Max, 3, 1, by decide, by decide⟩

/-- **In the last years of an `i64` the days do not fit.** -/
theorem daysFromCivil_lastYear :
    daysFromCivil ⟨.b64, true⟩ lastYear.year lastYear.month lastYear.day = .error .overflow ∧
    ∃ n, daysFromCivil ⟨.b64, false⟩ lastYear.year lastYear.month lastYear.day = .ok n ∧
      ¬ DaysFrom unixEpoch lastYear n := by
  have hwraps : daysFromCivil ⟨.b64, false⟩ lastYear.year lastYear.month lastYear.day =
      .ok (-6986704317918212509) := rfl
  refine ⟨rfl, _, hwraps, fun hdays => ?_⟩
  have hcount := (daysFrom_iff dayNumber_next).mp hdays
  exact absurd hcount (by decide)

/-- **The milliseconds are the nanoseconds rounded down** for exactly the quads from zero on and the
whole milliseconds before it, and for every `SYSTEMTIME`. Neither overflows, and both go up with the
quad. -/
theorem asUnixTimestamp_eq_floor_iff (t : Target) :
    (∀ ft : FileTime, ∃ ms ns, ft.asUnixTimestamp t = .ok ms ∧
      ft.asUnixTimestampNanos t = .ok ns ∧
        (ms = ns / 1000000 ↔ 0 ≤ ft.asQuad ∨ 10000 ∣ ft.asQuad)) ∧
    (∀ st : SystemTime, ∃ ms ns, st.asUnixTimestamp t = .ok ms ∧
      st.asUnixTimestampNanos t = .ok ns ∧ ms = ns / 1000000) ∧
    ∀ ft ft' : FileTime, ft.asQuad ≤ ft'.asQuad → ∃ ms ns ms' ns',
      ft.asUnixTimestamp t = .ok ms ∧ ft.asUnixTimestampNanos t = .ok ns ∧
      ft'.asUnixTimestamp t = .ok ms' ∧ ft'.asUnixTimestampNanos t = .ok ns' ∧
        ms ≤ ms' ∧ ns ≤ ns' := by
  refine ⟨fun ft => timestamps_agree_iff t ft.fits_asQuad, fun st => ?_,
    fun ft ft' hle => timestamps_mono t ft.fits_asQuad ft'.fits_asQuad hle⟩
  obtain ⟨ms, ns, hms, hns, hagree⟩ := timestamps_agree_iff t st.fits_asFiletimeQuad
  rw [SystemTime.asUnixTimestamp, SystemTime.asUnixTimestampNanos, st.asFiletimeQuad_eq t, bind_ok,
    bind_ok]
  exact ⟨ms, ns, hms, hns, hagree.mpr st.nonneg_or_dvd_asFiletimeQuad⟩

/-- One interval before 1601. -/
def beforeEpoch : FileTime := ⟨0xffffffff, 0xffffffff⟩

theorem asUnixTimestamp_eq_floor_iff_beforeEpoch : ∃ ms ns ms' ns',
    beforeEpoch.asUnixTimestamp ⟨.b64, true⟩ = .ok ms ∧
    beforeEpoch.asUnixTimestampNanos ⟨.b64, true⟩ = .ok ns ∧
    (FileTime.mk 0 0).asUnixTimestamp ⟨.b64, true⟩ = .ok ms' ∧
    (FileTime.mk 0 0).asUnixTimestampNanos ⟨.b64, true⟩ = .ok ns' ∧ ms ≤ ms' ∧ ns ≤ ns' :=
  (asUnixTimestamp_eq_floor_iff ⟨.b64, true⟩).2.2 beforeEpoch ⟨0, 0⟩ (by decide)

/-- The milliseconds are those of 1601, the nanoseconds are before. -/
theorem asUnixTimestamp_beforeEpoch :
    beforeEpoch.asUnixTimestamp ⟨.b64, true⟩ = .ok (-11644473600000) ∧
    beforeEpoch.asUnixTimestampNanos ⟨.b64, true⟩ = .ok (-11644473600000000100) ∧
    (-11644473600000 : ℤ) ≠ -11644473600000000100 / 1000000 :=
  ⟨rfl, rfl, by decide⟩

end Ferrisetw2
