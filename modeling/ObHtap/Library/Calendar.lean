import Mathlib.Dynamics.PeriodicPts.Defs
import Mathlib.Order.Monotone.Basic
import Mathlib.Order.Nat

/-!
# The Gregorian calendar

Valid dates, and the number of a day, by which days come one after the other, and by which they
are weekdays.
-/

namespace ObHtap

/-- Years with a 29th of February. -/
def IsLeapYear (year : Nat) : Prop :=
  4 ∣ year ∧ (100 ∣ year → 400 ∣ year)

instance (year : Nat) : Decidable (IsLeapYear year) :=
  inferInstanceAs (Decidable (_ ∧ (_ → _)))

def daysInMonth (year : Nat) : Nat → Nat
  | 2 => if IsLeapYear year then 29 else 28
  | 4 | 6 | 9 | 11 => 30
  | _ => 31

/-- A day of the calendar, which has no year zero. -/
@[ext]
structure CalendarDate where
  year : Nat
  month : Nat
  day : Nat
  year_pos : 1 ≤ year
  month_pos : 1 ≤ month
  month_le : month ≤ 12
  day_pos : 1 ≤ day
  day_le : day ≤ daysInMonth year month

/-- The days of the first months of a year. -/
def daysOfMonths (year : Nat) : Nat → Nat
  | 0 => 0
  | months + 1 => daysOfMonths year months + daysInMonth year (months + 1)

/-- The days of the first years. -/
def daysOfYears : Nat → Nat
  | 0 => 0
  | years + 1 => daysOfYears years + daysOfMonths (years + 1) 12

theorem daysInMonth_pos (year month : Nat) : 1 ≤ daysInMonth year month := by
  unfold daysInMonth
  split
  · split_ifs <;> decide
  · decide
  · decide
  · decide
  · decide
  · decide

theorem daysOfMonths_mono (year : Nat) : Monotone (daysOfMonths year) := by
  apply monotone_nat_of_le_succ
  intro months
  rw [daysOfMonths]
  omega

theorem daysOfYears_mono : Monotone daysOfYears := by
  apply monotone_nat_of_le_succ
  intro years
  rw [daysOfYears]
  omega

example : daysOfMonths 2023 12 = 365 ∧ daysOfMonths 2024 12 = 366 := by decide

namespace CalendarDate

variable (d d' : CalendarDate)

/-- The number of a day, from the first day of the first year on. -/
def number : Nat :=
  daysOfYears (d.year - 1) + (daysOfMonths d.year (d.month - 1) + d.day)

theorem daysOfMonths_add_day_le :
    daysOfMonths d.year (d.month - 1) + d.day ≤ daysOfMonths d.year d.month := by
  have hmonth : d.month = d.month - 1 + 1 := by have := d.month_pos; omega
  have hday := d.day_le
  rw [hmonth, daysOfMonths, ← hmonth]
  omega

theorem number_le : d.number ≤ daysOfYears d.year := by
  have hyear : d.year = d.year - 1 + 1 := by have := d.year_pos; omega
  have hmonth := d.daysOfMonths_add_day_le
  have hmonths := daysOfMonths_mono d.year d.month_le
  rw [number, hyear, daysOfYears, ← hyear]
  omega

variable {d d'}

theorem number_lt_of_year_lt (h : d.year < d'.year) : d.number < d'.number := by
  have hle := d.number_le
  have hyears : daysOfYears d.year ≤ daysOfYears (d'.year - 1) := daysOfYears_mono (by omega)
  have hpos := d'.day_pos
  have hnumber : d'.number =
    daysOfYears (d'.year - 1) + (daysOfMonths d'.year (d'.month - 1) + d'.day) := rfl
  omega

theorem number_lt_of_month_lt (hyear : d.year = d'.year) (h : d.month < d'.month) :
    d.number < d'.number := by
  have hle := d.daysOfMonths_add_day_le
  have hmonths : daysOfMonths d'.year d.month ≤ daysOfMonths d'.year (d'.month - 1) :=
    daysOfMonths_mono _ (by omega)
  have hpos := d'.day_pos
  rw [hyear] at hle
  rw [number, number, hyear]
  omega

theorem number_lt_of_day_lt (hyear : d.year = d'.year) (hmonth : d.month = d'.month)
    (h : d.day < d'.day) : d.number < d'.number := by
  rw [number, number, hyear, hmonth]
  omega

/-- Days come one after the other by year, then month, then day. -/
theorem number_lt_number_iff :
    d.number < d'.number ↔
      d.year < d'.year ∨ d.year = d'.year ∧ (d.month < d'.month ∨ d.month = d'.month ∧
        d.day < d'.day) := by
  constructor
  · intro hlt
    rcases lt_trichotomy d.year d'.year with hyear | hyear | hyear
    · exact .inl hyear
    · refine .inr ⟨hyear, ?_⟩
      rcases lt_trichotomy d.month d'.month with hmonth | hmonth | hmonth
      · exact .inl hmonth
      · refine .inr ⟨hmonth, ?_⟩
        rcases lt_trichotomy d.day d'.day with hday | hday | hday
        · exact hday
        · rw [number, number, hyear, hmonth, hday] at hlt
          omega
        · exact absurd (number_lt_of_day_lt hyear.symm hmonth.symm hday) (by omega)
      · exact absurd (number_lt_of_month_lt hyear.symm hmonth) (by omega)
    · exact absurd (number_lt_of_year_lt hyear) (by omega)
  · rintro (hyear | ⟨hyear, hmonth | ⟨hmonth, hday⟩⟩)
    · exact number_lt_of_year_lt hyear
    · exact number_lt_of_month_lt hyear hmonth
    · exact number_lt_of_day_lt hyear hmonth hday

theorem number_injective : Function.Injective number := by
  intro d d' heq
  have hlt : ¬ d.number < d'.number := by omega
  have hgt : ¬ d'.number < d.number := by omega
  rw [number_lt_number_iff] at hlt hgt
  apply CalendarDate.ext <;> omega

/-! ## The day after -/

/-- The day after, which may be in another month or year. -/
def next (d : CalendarDate) : CalendarDate :=
  if hday : d.day < daysInMonth d.year d.month then
    { d with day := d.day + 1, day_pos := Nat.succ_pos _, day_le := hday }
  else if hmonth : d.month < 12 then
    ⟨d.year, d.month + 1, 1, d.year_pos, Nat.succ_pos _, hmonth, Nat.le_refl 1,
      daysInMonth_pos _ _⟩
  else
    ⟨d.year + 1, 1, 1, Nat.succ_pos _, Nat.le_refl 1, by decide, Nat.le_refl 1,
      daysInMonth_pos _ _⟩

/-- Days are numbered without a gap. -/
theorem number_next (d : CalendarDate) : d.next.number = d.number + 1 := by
  have hyear : d.year = d.year - 1 + 1 := by have := d.year_pos; omega
  have hmonth : d.month = d.month - 1 + 1 := by have := d.month_pos; omega
  have hday := d.day_le
  unfold next
  split_ifs with hinside hmonths
  · simp only [number]
    omega
  · -- the last day of a month is as many days into the year as the months so far have
    have hmonths : daysOfMonths d.year d.month =
        daysOfMonths d.year (d.month - 1) + daysInMonth d.year d.month := by
      conv_lhs => rw [hmonth, daysOfMonths, ← hmonth]
    simp only [number, Nat.add_sub_cancel]
    omega
  · have hlast : d.month = 12 := by have := d.month_le; omega
    have hyears : daysOfYears d.year = daysOfYears (d.year - 1) + daysOfMonths d.year 12 := by
      conv_lhs => rw [hyear, daysOfYears, ← hyear]
    have hmonths : daysOfMonths d.year 12 = daysOfMonths d.year 11 + daysInMonth d.year 12 := rfl
    have hzero : daysOfMonths (d.year + 1) 0 = 0 := rfl
    rw [hlast] at hinside hday
    simp only [number, Nat.add_sub_cancel, hlast, Nat.reduceSub, hzero]
    omega

end CalendarDate

/-! ## Weekdays -/

inductive Weekday where
  | saturday
  | sunday
  | monday
  | tuesday
  | wednesday
  | thursday
  | friday
  deriving DecidableEq

namespace Weekday

def next : Weekday → Weekday
  | saturday => sunday
  | sunday => monday
  | monday => tuesday
  | tuesday => wednesday
  | wednesday => thursday
  | thursday => friday
  | friday => saturday

def name : Weekday → String
  | saturday => "Saturday"
  | sunday => "Sunday"
  | monday => "Monday"
  | tuesday => "Tuesday"
  | wednesday => "Wednesday"
  | thursday => "Thursday"
  | friday => "Friday"

/-- A week has seven days. -/
theorem iterate_next_mod (day : Weekday) (n : Nat) : next^[n % 7] day = next^[n] day := by
  have hweek : Function.IsPeriodicPt next 7 day := by cases day <;> rfl
  exact hweek.iterate_mod_apply n

end Weekday

namespace CalendarDate

/-- The weekday of a date: the first day of the first year is a Monday. -/
def weekday (d : CalendarDate) : Weekday :=
  Weekday.next^[d.number] .sunday

theorem weekday_next (d : CalendarDate) : d.next.weekday = d.weekday.next := by
  rw [weekday, number_next, Function.iterate_succ_apply', weekday]

end CalendarDate

/-! ## Days without the calendar -/

theorem daysOfMonths_twelve (year : Nat) :
    daysOfMonths year 12 = 365 + if IsLeapYear year then 1 else 0 := by
  simp only [daysOfMonths, daysInMonth]
  split_ifs <;> rfl

theorem daysOfYears_eq (years : Nat) :
    daysOfYears years + years / 100 = 365 * years + years / 4 + years / 400 := by
  induction years with
  | zero => rfl
  | succ years ih =>
    rw [daysOfYears, daysOfMonths_twelve]
    split_ifs with hleap
    all_goals
      unfold IsLeapYear at hleap
      omega

end ObHtap
