import ObHtap.Sql.DateLaws

/-!
# Weekdays

The weekday that `DATE_FORMAT` prints of a date, which `DateType` computes by Zeller's congruence
(`date_type.h`).
-/

namespace ObHtap

namespace Sql

/-- The `switch` of `getDayOfWeek`. -/
def dayName : Int → String
  | 0 => "Saturday"
  | 1 => "Sunday"
  | 2 => "Monday"
  | 3 => "Tuesday"
  | 4 => "Wednesday"
  | 5 => "Thursday"
  | 6 => "Friday"
  | _ => ""

/-- A sum of `int`s, from the left. -/
def checkedSum (terms : List Int) : Except Fault Int32 :=
  terms.foldlM (fun sum term => Value.checkedInt (sum.toInt + term)) 0

/-- The sum `f` of `getDayOfWeek`. -/
def congruenceSum (year month day : Int32) : Except Fault Int32 := do
  let k := year.toInt.tmod 100
  let j := year.toInt.tdiv 100
  let months ← Value.checkedInt (13 * (← Value.checkedInt (month.toInt + 1)).toInt)
  let centuries ← Value.checkedInt (5 * j)
  checkedSum [day.toInt, months.toInt.tdiv 5, k, k.tdiv 4, j.tdiv 4, centuries.toInt]

/-- `DateType::getDayOfWeek`. -/
def getDayOfWeek (year month day : Int32) : Except Fault String := do
  -- January and February are the last months of the year before
  let (month, year) ←
    if month.toInt < 3 then do
      let month ← Value.checkedInt (month.toInt + 12)
      let year ← Value.checkedInt (year.toInt - 1)
      pure (month, year)
    else pure (month, year)
  let f ← congruenceSum year month day
  return dayName (f.toInt.tmod 7)

/-! ## Zeller's congruence -/

/-- The sum of the congruence, where the year starts in March. -/
def zeller (year month day : Nat) : Nat :=
  day + 13 * (month + 1) / 5 + year % 100 + year % 100 / 4 + year / 100 / 4 + 5 * (year / 100)

/-- A year moves the weekday by as much as its days do. -/
theorem zeller_mod (year month day : Nat) :
    zeller year month day % 7 = (daysOfYears year + day + 13 * (month + 1) / 5) % 7 := by
  have hyears := daysOfYears_eq year
  have hquarters : year / 4 = 25 * (year / 100) + year % 100 / 4 := by omega
  have hcenturies : year / 400 = year / 100 / 4 := by omega
  unfold zeller
  omega

/-- The sum for a date of the calendar. -/
def zellerOf (date : CalendarDate) : Nat :=
  if date.month < 3 then zeller (date.year - 1) (date.month + 12) date.day
  else zeller date.year date.month date.day

/-- Zeller's congruence. -/
theorem zellerOf_mod (date : CalendarDate) : zellerOf date % 7 = (date.number + 1) % 7 := by
  obtain ⟨year, month, day, hyear, hmonth, hmonth', hday, hday'⟩ := date
  have hyears : daysOfYears year = daysOfYears (year - 1) + daysOfMonths year 12 := by
    conv_lhs => rw [show year = year - 1 + 1 by omega, daysOfYears, Nat.sub_add_cancel hyear]
  rw [daysOfMonths_twelve] at hyears
  simp only [zellerOf, CalendarDate.number]
  -- the months before March do not see the leap day, and those behind it all do
  by_cases hleap : IsLeapYear year
  all_goals
    simp only [hleap, if_true, if_false] at hyears
    interval_cases month
    all_goals
      simp only [zeller_mod, daysOfMonths, daysInMonth, hleap, if_true, if_false, Nat.reduceLT,
        Nat.reduceAdd, Nat.reduceSub, Nat.reduceMul, Nat.reduceDiv]
      omega

/-! ## What the code computes -/

theorem checkedSum_natCast (terms : List Nat) (h : terms.sum ≤ 2147483647) :
    checkedSum (terms.map Nat.cast) = .ok (Int32.ofInt terms.sum) := by
  have hfrom (n : Nat) (hn : n + terms.sum ≤ 2147483647) :
      (terms.map Nat.cast).foldlM (fun sum term => Value.checkedInt (sum.toInt + term))
        (Int32.ofInt n) = .ok (Int32.ofInt (n + terms.sum : Nat)) := by
    clear h
    induction terms generalizing n with
    | nil => rfl
    | cons term terms ih =>
      rw [List.sum_cons] at hn ⊢
      have hsum : (Int32.ofInt n).toInt + (term : Int) = (n + term : Nat) := by
        rw [toInt_ofInt (by omega)]
        omega
      rw [List.map_cons, List.foldlM_cons, hsum, checkedInt_of (by omega), ok_bind,
        ih (n + term) (by omega), Nat.add_assoc]
  have hzero := hfrom 0 (by omega)
  rw [Nat.zero_add] at hzero
  exact hzero

/-- No step of the sum overflows. -/
theorem congruenceSum_eq {year month day : Nat} (hyear : year < 2 ^ 31) (hmonth : month ≤ 14)
    (hday : day ≤ 31) :
    congruenceSum (Int32.ofInt year) (Int32.ofInt month) (Int32.ofInt day) =
      .ok (Int32.ofInt (zeller year month day)) := by
  -- nothing is negative, so that the divisions cut off what those of the naturals do
  have hmonths : (13 * (month + 1 : Int)).tdiv 5 = (13 * (month + 1) / 5 : Nat) :=
    (Int.ofNat_tdiv (13 * (month + 1)) 5).symm
  have hk : (year : Int).tmod 100 = (year % 100 : Nat) := (Int.ofNat_tmod year 100).symm
  have hj : (year : Int).tdiv 100 = (year / 100 : Nat) := (Int.ofNat_tdiv year 100).symm
  have hquarters : ((year % 100 : Nat) : Int).tdiv 4 = (year % 100 / 4 : Nat) :=
    (Int.ofNat_tdiv (year % 100) 4).symm
  have hcenturies : ((year / 100 : Nat) : Int).tdiv 4 = (year / 100 / 4 : Nat) :=
    (Int.ofNat_tdiv (year / 100) 4).symm
  have hfive : 5 * ((year / 100 : Nat) : Int) = (5 * (year / 100) : Nat) := by omega
  have hterms := checkedSum_natCast
    [day, 13 * (month + 1) / 5, year % 100, year % 100 / 4, year / 100 / 4, 5 * (year / 100)]
    (by simp only [List.sum_cons, List.sum_nil]; omega)
  simp only [List.map_cons, List.map_nil, List.sum_cons, List.sum_nil, Nat.add_zero,
    ← Nat.add_assoc] at hterms
  rw [congruenceSum, toInt_ofInt (by omega), toInt_ofInt (by omega), toInt_ofInt (by omega),
    checkedInt_of (by omega), ok_bind, toInt_ofInt (by omega), checkedInt_of (by omega), ok_bind,
    hk, hj, hfive, checkedInt_of (by omega), ok_bind, toInt_ofInt (by omega),
    toInt_ofInt (by omega), hmonths, hquarters, hcenturies, hterms, zeller]

/-- The names of the weekdays in their order. -/
theorem dayName_mod (n : Nat) : dayName (n % 7 : Nat) = (Weekday.next^[n] .saturday).name := by
  rw [← Weekday.iterate_next_mod]
  have hlt : n % 7 < 7 := Nat.mod_lt n (by decide)
  generalize n % 7 = r at hlt
  interval_cases r <;> rfl

/-- The numbers are those of a date. -/
structure IsDate (year month day : Int32) (date : CalendarDate) : Prop where
  year : year.toInt = date.year
  month : month.toInt = date.month
  day : day.toInt = date.day

/-- `check_date` lets the numbers of a date pass and no others. -/
theorem checkDate_iff_isDate {year month day : Int32} :
    checkDate year.toInt month.toInt day.toInt ↔ ∃ date, IsDate year month day date := by
  constructor
  · intro h
    have hpos : 0 < year.toInt ∧ 0 < month.toInt ∧ 0 < day.toInt := by
      simp only [checkDate, decide_eq_true_eq] at h
      omega
    have hyear : (year.toInt.toNat : Int) = year.toInt := by omega
    have hmonth : (month.toInt.toNat : Int) = month.toInt := by omega
    have hday : (day.toInt.toNat : Int) = day.toInt := by omega
    rw [← hyear, ← hmonth, ← hday, checkDate_iff] at h
    obtain ⟨date, hy, hm, hd⟩ := h
    exact ⟨date, by omega, by omega, by omega⟩
  · rintro ⟨date, hdate⟩
    rw [hdate.year, hdate.month, hdate.day, checkDate_iff]
    exact ⟨date, rfl, rfl, rfl⟩

/-- The weekday that the code computes is the one of the calendar. -/
theorem getDayOfWeek_eq {year month day : Int32} {date : CalendarDate}
    (h : IsDate year month day date) : getDayOfWeek year month day = .ok date.weekday.name := by
  have hyear : date.year < 2 ^ 31 := by have := year.toInt_lt; have := h.year; omega
  have hmonth := date.month_le
  have hday := day_le_thirtyOne date
  have hname : dayName (zellerOf date % 7 : Nat) = date.weekday.name := by
    rw [zellerOf_mod, dayName_mod]
    rfl
  have hof (n : Int32) (k : Nat) (hn : n.toInt = k) : n = Int32.ofInt k := by
    rw [← hn, Int32.ofInt_toInt]
  -- the sum is what remains, whatever the month and year that it is taken of
  have hsum (y m : Nat) (hy : y < 2 ^ 31) (hm : m ≤ 14) (heq : zellerOf date = zeller y m date.day) :
      (do return dayName ((← congruenceSum (Int32.ofInt y) (Int32.ofInt m) day).toInt.tmod 7) :
        Except Fault String) = .ok date.weekday.name := by
    have hle : zeller y m date.day ≤ 2147483647 := by unfold zeller; omega
    have hmod : ((zeller y m date.day : Nat) : Int).tmod 7 = (zeller y m date.day % 7 : Nat) :=
      (Int.ofNat_tmod _ 7).symm
    rw [hof day date.day h.day, congruenceSum_eq hy hm hday, ok_bind, toInt_ofInt (by omega), hmod,
      ← heq, hname]
    rfl
  rw [getDayOfWeek, h.month, h.year]
  by_cases hlt : date.month < 3
  · have hpos := date.year_pos
    have hm : (date.month : Int) + 12 = (date.month + 12 : Nat) := by omega
    have hy : (date.year : Int) - 1 = (date.year - 1 : Nat) := by omega
    rw [if_pos (by omega), hm, hy, checkedInt_of (by omega), ok_bind, checkedInt_of (by omega),
      ok_bind, pure_bind]
    exact hsum (date.year - 1) (date.month + 12) (by omega) (by omega) (if_pos hlt)
  · rw [if_neg (by omega), pure_bind, hof month date.month h.month, hof year date.year h.year]
    exact hsum date.year date.month hyear (by omega) (if_neg hlt)

/-! ## The weekday of the day after -/

/-- The second date is the day after the first. -/
def IsNextDay (year month day year' month' day' : Int32) : Prop :=
  ∃ date : CalendarDate, IsDate year month day date ∧ IsDate year' month' day' date.next

/-- Every valid date has one of the seven names, the day after it has the next one, and the first
day of the year 2000 is a Saturday. -/
theorem getDayOfWeek_gregorian :
    (∀ year month day : Int32, checkDate year.toInt month.toInt day.toInt →
      ∃ weekday : Weekday, getDayOfWeek year month day = .ok weekday.name ∧
        ∀ year' month' day', IsNextDay year month day year' month' day' →
          getDayOfWeek year' month' day' = .ok weekday.next.name) ∧
    getDayOfWeek 2000 1 1 = .ok Weekday.saturday.name := by
  constructor
  · intro year month day hcheck
    obtain ⟨date, hdate⟩ := checkDate_iff_isDate.mp hcheck
    refine ⟨date.weekday, getDayOfWeek_eq hdate, ?_⟩
    rintro year' month' day' ⟨date', hdate', hnext⟩
    have heq : date' = date := by
      have hyear := hdate.year.symm.trans hdate'.year
      have hmonth := hdate.month.symm.trans hdate'.month
      have hday := hdate.day.symm.trans hdate'.day
      apply CalendarDate.ext <;> omega
    rw [getDayOfWeek_eq hnext, heq, CalendarDate.weekday_next]
  · decide

theorem getDayOfWeek_gregorian_leapDay :
    ∃ weekday : Weekday, getDayOfWeek 2024 2 28 = .ok weekday.name ∧
      getDayOfWeek 2024 2 29 = .ok weekday.next.name := by
  have hday : IsNextDay 2024 2 28 2024 2 29 :=
    ⟨⟨2024, 2, 28, by decide, by decide, by decide, by decide, by decide⟩, ⟨rfl, rfl, rfl⟩,
      ⟨by decide, by decide, by decide⟩⟩
  obtain ⟨weekday, hname, hnext⟩ := getDayOfWeek_gregorian.1 2024 2 28 (by decide)
  exact ⟨weekday, hname, hnext 2024 2 29 hday⟩

end Sql

end ObHtap
