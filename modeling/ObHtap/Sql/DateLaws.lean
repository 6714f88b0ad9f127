import ObHtap.Sql.DateValues

/-!
# Laws of dates

Literals are set as the calendar has it, dates are printed as literals, and they are compared as
the days come one after the other.
-/

namespace ObHtap

namespace Sql

/-! ## What is scanned -/

theorem ofDigits_concat (s : List UInt8) (c : UInt8) :
    ofDigits (s ++ [c]) = 10 * ofDigits s + (c.toNat - 48) := by
  rw [ofDigits, List.foldl_append]
  rfl

theorem ofDigits_lt (s : List UInt8) (h : ∀ c ∈ s, isDigit c) : ofDigits s < 10 ^ s.length := by
  induction s using List.reverseRecOn with
  | nil => decide
  | append_singleton s c ih =>
    have hs := ih fun c' hc' => h c' (List.mem_append_left _ hc')
    have hc := (isDigit_iff c).mp (h c (by simp))
    rw [ofDigits_concat, List.length_append, List.length_singleton, Nat.pow_succ]
    omega

/-- A text of digits starts with none of the blanks and signs that `scanInt` skips. -/
theorem signAndRest_digits {s : List UInt8} (h : Digits s) (rest : List UInt8) :
    signAndRest (s ++ rest) = (1, s ++ rest) := by
  obtain ⟨hne, hdigits⟩ := h
  cases s with
  | nil => exact absurd rfl hne
  | cons c s =>
    have hc := (isDigit_iff c).mp (hdigits c List.mem_cons_self)
    have hblank : (decide (c = 32 ∨ 9 ≤ c ∧ c ≤ 13)) = false := by
      simp only [decide_eq_false_iff_not, ← UInt8.toNat_inj, UInt8.le_iff_toNat_le]
      simp
      omega
    have hminus : c ≠ 45 := by rintro rfl; simp at hc
    have hplus : c ≠ 43 := by rintro rfl; simp at hc
    rw [signAndRest, List.cons_append, List.dropWhile_cons_of_neg (by simpa using hblank)]
    split
    · next h => exact absurd (List.cons.inj h).1 hminus
    · next h => exact absurd (List.cons.inj h).1 hplus
    · rfl

theorem scanInt_digits {s rest : List UInt8} (h : Digits s) (hsmall : ofDigits s < 2 ^ 31)
    (hrest : rest.takeWhile isDigit = []) :
    scanInt (s ++ rest) = some (Int32.ofInt (ofDigits s), rest) := by
  have htake : (s ++ rest).takeWhile isDigit = s := by
    rw [List.takeWhile_append_of_pos h.2, hrest, List.append_nil]
  have hdrop : (s ++ rest).dropWhile isDigit = rest := by
    have hall := rest.takeWhile_append_dropWhile (p := isDigit)
    rw [hrest, List.nil_append] at hall
    rw [List.dropWhile_append_of_pos h.2, hall]
  have hclamp : max (-2 ^ 63) (min (2 ^ 63 - 1) (1 * (ofDigits s : Int))) = ofDigits s := by omega
  simp only [scanInt, signAndRest_digits h, htake, hdrop, if_neg h.1, hclamp]

theorem scanDate_digits {ys ms ds : List UInt8} (hys : Digits ys) (hms : Digits ms)
    (hds : Digits ds) (hy : ofDigits ys < 2 ^ 31) (hm : ofDigits ms < 2 ^ 31)
    (hd : ofDigits ds < 2 ^ 31) (y m d : Int32) :
    scanDate (ys ++ 45 :: ms ++ 45 :: ds) y m d =
      (Int32.ofInt (ofDigits ys), Int32.ofInt (ofDigits ms), Int32.ofInt (ofDigits ds)) := by
  have hdash (rest : List UInt8) : (45 :: rest).takeWhile isDigit = [] := rfl
  have hlast : scanInt (ds ++ []) = some (Int32.ofInt (ofDigits ds), []) :=
    scanInt_digits hds hd rfl
  rw [List.append_nil] at hlast
  simp only [scanDate, List.append_assoc, List.cons_append,
    scanInt_digits hys hy (hdash (ms ++ 45 :: ds)), scanInt_digits hms hm (hdash ds), hlast]

/-- The number that is stored for a date. -/
def dateNumber (year month day : Nat) : Int32 :=
  Int32.ofInt (year * 10000 + month * 100 + day)

/-- What `set_date` makes of three numbers with dashes between them. -/
theorem setDate_digits {ys ms ds : List UInt8} (hys : Digits ys) (hms : Digits ms) (hds : Digits ds)
    (hy : ofDigits ys < 10000) (hm : ofDigits ms < 100) (hd : ofDigits ds < 100)
    (unset : UnsetNumbers) :
    setDate unset (ys ++ 45 :: ms ++ 45 :: ds) =
      .ok ⟨if checkDate (ofDigits ys) (ofDigits ms) (ofDigits ds) then .dates else .chars,
        dateNumber (ofDigits ys) (ofDigits ms) (ofDigits ds), 4⟩ := by
  have hyear := toInt_ofInt (n := ofDigits ys) (by omega)
  have hmonth := toInt_ofInt (n := ofDigits ms) (by omega)
  have hday := toInt_ofInt (n := ofDigits ds) (by omega)
  have hyears := toInt_ofInt (n := ofDigits ys * 10000) (by omega)
  have hmonths := toInt_ofInt (n := ofDigits ms * 100) (by omega)
  have hsum := toInt_ofInt (n := ofDigits ys * 10000 + ofDigits ms * 100) (by omega)
  rw [setDate, scanDate_digits hys hms hds (by omega) (by omega) (by omega)]
  simp only [hyear, hmonth, hday, checkedInt_of (n := ofDigits ys * 10000) (by omega),
    checkedInt_of (n := ofDigits ms * 100) (by omega), bind, Except.bind, pure, Except.pure,
    hyears, hmonths, checkedInt_of (n := ofDigits ys * 10000 + ofDigits ms * 100) (by omega), hsum,
    checkedInt_of (n := ofDigits ys * 10000 + ofDigits ms * 100 + ofDigits ds) (by omega)]
  rfl

/-- `check_date` lets the days of the calendar pass. -/
theorem checkDate_iff (y m d : Nat) :
    checkDate y m d ↔ ∃ date : CalendarDate, date.year = y ∧ date.month = m ∧ date.day = d := by
  have hdays (hm : 1 ≤ m ∧ m ≤ 12) :
      (if (m : Int) = 2 ∧ ((y : Int) % 400 = 0 ∨ (y : Int) % 100 ≠ 0 ∧ (y : Int) % 4 = 0)
        then 1 else 0) + mon.getD (m : Int).toNat 0 = daysInMonth y m := by
    have hleap : ((y : Int) % 400 = 0 ∨ (y : Int) % 100 ≠ 0 ∧ (y : Int) % 4 = 0) ↔
        IsLeapYear y := by
      unfold IsLeapYear
      omega
    simp only [hleap, Int.toNat_natCast]
    obtain ⟨hlo, hhi⟩ := hm
    by_cases h : IsLeapYear y
    all_goals
      interval_cases m
      all_goals simp [h, mon, daysInMonth]
  simp only [checkDate, decide_eq_true_eq]
  constructor
  · rintro ⟨hy, hm, hm', hd, hd'⟩
    rw [hdays (by omega)] at hd'
    exact ⟨⟨y, m, d, by omega, by omega, by omega, by omega, by omega⟩, rfl, rfl, rfl⟩
  · rintro ⟨date, rfl, rfl, rfl⟩
    have hy := date.year_pos
    have hm := date.month_pos
    have hm' := date.month_le
    have hd := date.day_pos
    have hd' := date.day_le
    rw [hdays ⟨hm, hm'⟩]
    omega

/-! ## What is printed -/

theorem isDigit_ofNat {n : Nat} (h : n < 10) : isDigit (UInt8.ofNat (48 + n)) := by
  rw [isDigit_iff, toNat_digit h]
  omega

theorem digits_fixedDigits (width n : Nat) : ∀ c ∈ fixedDigits width n, isDigit c := by
  induction width generalizing n with
  | zero =>
    intro c hc
    cases hc
  | succ width ih =>
    intro c hc
    rcases List.mem_append.mp hc with hc | hc
    · exact ih (n / 10) c hc
    · rw [List.mem_singleton.mp hc]
      exact isDigit_ofNat (Nat.mod_lt n (by omega))

theorem length_fixedDigits (width n : Nat) : (fixedDigits width n).length = width := by
  induction width generalizing n with
  | zero => rfl
  | succ width ih => rw [fixedDigits, List.length_append, ih, List.length_singleton]

theorem ofDigits_fixedDigits {width n : Nat} (h : n < 10 ^ width) :
    ofDigits (fixedDigits width n) = n := by
  induction width generalizing n with
  | zero =>
    have hzero : n = 0 := by omega
    rw [hzero]
    rfl
  | succ width ih =>
    have hdiv : n / 10 < 10 ^ width := by
      rw [Nat.pow_succ] at h
      omega
    rw [fixedDigits, ofDigits_concat, ih hdiv, toNat_digit (Nat.mod_lt n (by omega))]
    omega

theorem decimal_natCast (n : Nat) : decimal n = decimalDigits n := by
  rw [decimal, if_neg (by omega), Int.natAbs_natCast]

theorem dateText_dateNumber {y m d : Nat} (hy : y < 10000) (hm : m < 100) (hd : d < 100) :
    dateText (dateNumber y m d) =
      fixedDigits 4 y ++ 45 :: fixedDigits 2 m ++ 45 :: fixedDigits 2 d := by
  have hint : (dateNumber y m d).toInt = (y * 10000 + m * 100 + d : Nat) := toInt_ofInt (by omega)
  have hdiv (n k : Nat) : (n : Int).tdiv k = (n / k : Nat) := (Int.ofNat_tdiv n k).symm
  have hmod (n k : Nat) : (n : Int).tmod k = (n % k : Nat) := (Int.ofNat_tmod n k).symm
  have hyear : (y * 10000 + m * 100 + d) / 10000 = y := by omega
  have hmonth : (y * 10000 + m * 100 + d) / 100 % 100 = m := by omega
  have hday : (y * 10000 + m * 100 + d) % 100 = d := by omega
  rw [dateText, hint]
  rw [show (10000 : Int) = (10000 : Nat) from rfl, show (100 : Int) = (100 : Nat) from rfl]
  simp only [hdiv, hmod, hyear, hmonth, hday, decimal_natCast]
  rw [zeroPadded_decimalDigits (by omega), zeroPadded_decimalDigits (by omega),
    zeroPadded_decimalDigits (by omega)]

theorem literalText_quoted (q q' : UInt8) (text : List UInt8) :
    literalText (q :: text ++ [q']) = text := by
  simp [literalText, substr]

/-! ## The laws of dates -/

/-- A text names a day of the calendar. -/
def DenotesDate (text : List UInt8) (date : CalendarDate) : Prop :=
  ∃ ys ms ds, Digits ys ∧ Digits ms ∧ Digits ds ∧ text = ys ++ 45 :: ms ++ 45 :: ds ∧
    ofDigits ys = date.year ∧ ofDigits ms = date.month ∧ ofDigits ds = date.day

/-- A literal becomes a date when it names one, and no number that was not set shows. -/
def SetsDate (token : List UInt8) : Prop :=
  ∃ content, (∀ unset, setDate unset (literalText token) = .ok content) ∧
    (content.attrType = .dates ↔ ∃ date, DenotesDate (literalText token) date)

/-- A literal that names the day stores the value. -/
def Stores (value : Int32) (date : CalendarDate) : Prop :=
  ∃ token ∈ dateToken.matches', DenotesDate (literalText token) date ∧
    ∃ unset, setDate unset (literalText token) = .ok ⟨.dates, value, 4⟩

/-- The text of a stored date is parsed as the same value. -/
def ParsesBack (parser : DateParser) : Prop :=
  ∀ value date unset, Stores value date →
    parser.parse unset (dateText value) = .ok ⟨.dates, value, 4⟩

/-- Stored dates are compared as the days come one after the other. -/
def ComparesChronologically (F : Type) [Floats F] : Prop :=
  ∀ value value' date date', Stores value date → Stores value' date' →
    ∃ result, Value.compare (.dates value : Value F) (.dates value') = .ok result ∧
      (result < 0 ↔ date.number < date'.number) ∧ (result = 0 ↔ date = date')

/-- A date literal has a year, month and day of a few digits. -/
theorem digits_of_dateToken {token : List UInt8} (h : token ∈ dateToken.matches') :
    ∃ ys ms ds, (Digits ys ∧ Digits ms ∧ Digits ds) ∧
      literalText token = ys ++ 45 :: ms ++ 45 :: ds ∧ ofDigits ys < 10000 ∧
      ofDigits ms < 100 ∧ ofDigits ds < 100 := by
  obtain ⟨q, q', ys, ms, ds, -, -, hys, hms, hds, rfl⟩ := mem_dateToken.mp h
  obtain ⟨hmslen, hmsdigits, -, hmle⟩ := mem_monthPattern.mp hms
  obtain ⟨hdslen, hdsdigits, -, hdle⟩ := mem_dayPattern.mp hds
  have hne (s : List UInt8) (hs : s.length = 1 ∨ s.length = 2) : s ≠ [] := by
    rintro rfl
    simp at hs
  refine ⟨ys, ms, ds, ⟨⟨?_, hys.2⟩, ⟨hne ms hmslen, hmsdigits⟩, ⟨hne ds hdslen, hdsdigits⟩⟩,
    literalText_quoted q q' _, ?_, by omega, by omega⟩
  · rintro rfl
    simp at hys
  · have hlt := ofDigits_lt ys hys.2
    rwa [hys.1] at hlt

theorem dash_notMem {s : List UInt8} (h : Digits s) : 45 ∉ s :=
  fun hmem => absurd (h.2 45 hmem) (by decide)

/-- The numbers in a text are the ones it names. -/
theorem denotesDate_iff {ys ms ds : List UInt8} (hys : Digits ys) (hms : Digits ms)
    (hds : Digits ds) (date : CalendarDate) :
    DenotesDate (ys ++ 45 :: ms ++ 45 :: ds) date ↔
      date.year = ofDigits ys ∧ date.month = ofDigits ms ∧ date.day = ofDigits ds := by
  constructor
  · rintro ⟨ys', ms', ds', hys', hms', hds', heq, hy, hm, hd⟩
    rw [List.append_assoc, List.append_assoc, List.cons_append, List.cons_append] at heq
    obtain ⟨rfl, hrest⟩ := append_cons_inj_of_notMem (dash_notMem hys) (dash_notMem hys') heq
    obtain ⟨rfl, rfl⟩ := append_cons_inj_of_notMem (dash_notMem hms) (dash_notMem hms') hrest
    exact ⟨hy.symm, hm.symm, hd.symm⟩
  · rintro ⟨hy, hm, hd⟩
    exact ⟨ys, ms, ds, hys, hms, hds, rfl, hy.symm, hm.symm, hd.symm⟩

/-- What `set_date` stores for a date literal. -/
theorem setDate_dateToken {token : List UInt8} (h : token ∈ dateToken.matches') :
    ∃ content, (∀ unset, setDate unset (literalText token) = .ok content) ∧
      (content.attrType = .dates ↔ ∃ date, DenotesDate (literalText token) date) ∧
      ∀ date, DenotesDate (literalText token) date → date.year < 10000 ∧
        content = ⟨.dates, dateNumber date.year date.month date.day, 4⟩ := by
  obtain ⟨ys, ms, ds, ⟨hys, hms, hds⟩, htext, hy, hm, hd⟩ := digits_of_dateToken h
  rw [htext]
  refine ⟨_, setDate_digits hys hms hds hy hm hd, ?_, ?_⟩
  · have hvalid : checkDate (ofDigits ys) (ofDigits ms) (ofDigits ds) ↔
        ∃ date, DenotesDate (ys ++ 45 :: ms ++ 45 :: ds) date := by
      rw [checkDate_iff]
      exact exists_congr fun date => (denotesDate_iff hys hms hds date).symm
    rw [← hvalid]
    split
    · next hcheck => exact iff_of_true rfl hcheck
    · next hcheck => exact iff_of_false (by simp) hcheck
  · intro date hdate
    obtain ⟨hyear, hmonth, hday⟩ := (denotesDate_iff hys hms hds date).mp hdate
    have hcheck : checkDate (ofDigits ys) (ofDigits ms) (ofDigits ds) :=
      (checkDate_iff _ _ _).mpr ⟨date, hyear, hmonth, hday⟩
    rw [if_pos hcheck, hyear, hmonth, hday]
    exact ⟨hy, rfl⟩

theorem setsDate {token : List UInt8} (h : token ∈ dateToken.matches') : SetsDate token := by
  obtain ⟨content, hset, hiff, -⟩ := setDate_dateToken h
  exact ⟨content, hset, hiff⟩

theorem stores_iff {value : Int32} {date : CalendarDate} (h : Stores value date) :
    date.year < 10000 ∧ value = dateNumber date.year date.month date.day := by
  obtain ⟨token, htoken, hdate, unset, hset⟩ := h
  obtain ⟨content, hall, -, hcontent⟩ := setDate_dateToken htoken
  obtain ⟨hyear, heq⟩ := hcontent date hdate
  rw [hall unset, heq] at hset
  exact ⟨hyear, (congrArg NumberContent.intValue (Except.ok.inj hset)).symm⟩

/-- A day fits the two digits that are printed. -/
theorem day_le_thirtyOne (date : CalendarDate) : date.day ≤ 31 := by
  have hle := date.day_le
  have hmonth : daysInMonth date.year date.month ≤ 31 := by
    unfold daysInMonth
    split <;> (try split) <;> omega
  omega

/-- The text of a day, quoted, is a date literal for it. -/
theorem printed_dateToken {date : CalendarDate} (hyear : date.year < 10000) :
    [39] ++ dateText (dateNumber date.year date.month date.day) ++ [39] ∈ dateToken.matches' ∧
      DenotesDate (dateText (dateNumber date.year date.month date.day)) date := by
  have hmonth := date.month_le
  have hday := day_le_thirtyOne date
  have hdigits (width n : Nat) : Digits (fixedDigits (width + 1) n) := by
    refine ⟨?_, digits_fixedDigits _ n⟩
    intro hnil
    have hlen := length_fixedDigits (width + 1) n
    rw [hnil] at hlen
    simp at hlen
  have hnumber {n bound : Nat} (hlo : 1 ≤ n) (hhi : n ≤ bound) (hbound : bound < 100) :
      NumberUpTo bound (fixedDigits 2 n) := by
    refine ⟨.inr (length_fixedDigits 2 n), digits_fixedDigits 2 n, ?_, ?_⟩
    all_goals rwa [ofDigits_fixedDigits (by omega)]
  rw [dateText_dateNumber hyear (by omega) (by omega)]
  constructor
  · exact mem_dateToken.mpr ⟨39, 39, _, _, _, .inl rfl, .inl rfl,
      ⟨length_fixedDigits 4 _, digits_fixedDigits 4 _⟩,
      mem_monthPattern.mpr (hnumber date.month_pos hmonth (by omega)),
      mem_dayPattern.mpr (hnumber date.day_pos hday (by omega)), rfl⟩
  · rw [denotesDate_iff (hdigits 3 _) (hdigits 1 _) (hdigits 1 _), ofDigits_fixedDigits (by omega),
      ofDigits_fixedDigits (by omega), ofDigits_fixedDigits (by omega)]
    exact ⟨rfl, rfl, rfl⟩

/-- Every day of the years with four digits can be stored. -/
theorem stores_dateNumber {date : CalendarDate} (hyear : date.year < 10000) :
    Stores (dateNumber date.year date.month date.day) date := by
  obtain ⟨htoken, hdenotes⟩ := printed_dateToken hyear
  have htext := literalText_quoted 39 39 (dateText (dateNumber date.year date.month date.day))
  obtain ⟨content, hset, -, hcontent⟩ := setDate_dateToken htoken
  refine ⟨_, htoken, htext.symm ▸ hdenotes, ⟨0, 0, 0⟩, ?_⟩
  rw [hset, (hcontent date (htext.symm ▸ hdenotes)).2]

theorem parsesBack_setDate : ParsesBack .setDate := by
  intro value date unset hstores
  obtain ⟨hyear, rfl⟩ := stores_iff hstores
  obtain ⟨htoken, hdenotes⟩ := printed_dateToken hyear
  have htext := literalText_quoted 39 39 (dateText (dateNumber date.year date.month date.day))
  obtain ⟨content, hset, -, hcontent⟩ := setDate_dateToken htoken
  rw [DateParser.parse, if_pos htoken, hset, (hcontent date (htext.symm ▸ hdenotes)).2]

/-- No text of a date is a number to its end. -/
theorem setValueFromStr_dateText {value : Int32} {date : CalendarDate} (h : Stores value date) :
    setValueFromStr (dateText value) = .error (.rc .schemaFieldTypeMismatch) := by
  obtain ⟨hyear, rfl⟩ := stores_iff h
  obtain ⟨-, ys, ms, ds, hys, -, -, heq, -⟩ := printed_dateToken hyear
  have hdrop : (ys ++ 45 :: (ms ++ 45 :: ds)).dropWhile isDigit ≠ [] := by
    rw [List.dropWhile_append_of_pos hys.2]
    exact List.cons_ne_nil _ _
  rw [heq, List.append_assoc, List.cons_append]
  simp only [setValueFromStr, signAndRest_digits hys]
  exact if_pos (.inr (.inr (.inr hdrop)))

/-- The stored numbers lie as the days do. -/
theorem dateNumber_lt_iff {date date' : CalendarDate} (hyear : date.year < 10000)
    (hyear' : date'.year < 10000) :
    dateNumber date.year date.month date.day < dateNumber date'.year date'.month date'.day ↔
      date.number < date'.number := by
  have hmonth := date.month_le
  have hmonth' := date'.month_le
  have hday := day_le_thirtyOne date
  have hday' := day_le_thirtyOne date'
  rw [CalendarDate.number_lt_number_iff, Int32.lt_iff_toInt_lt, dateNumber, dateNumber,
    toInt_ofInt (by omega), toInt_ofInt (by omega)]
  omega

theorem comparesChronologically (F : Type) [Floats F] : ComparesChronologically F := by
  intro value value' date date' h h'
  obtain ⟨hyear, rfl⟩ := stores_iff h
  obtain ⟨hyear', rfl⟩ := stores_iff h'
  have hlt := dateNumber_lt_iff hyear hyear'
  have hgt := dateNumber_lt_iff hyear' hyear
  refine ⟨_, by rw [Value.compare, Value.compareBy], ?_⟩
  rw [← CalendarDate.number_injective.eq_iff]
  simp only [compareInt, hlt, hgt]
  split
  · omega
  · split <;> omega

/-- Dates are set, printed and compared as they should be, when their texts are parsed in one of
the two ways. -/
def DatesFaithful (F : Type) [Floats F] (parser : DateParser) : Prop :=
  (∀ token ∈ dateToken.matches', SetsDate token) ∧ ParsesBack parser ∧ ComparesChronologically F

theorem not_parsesBack_setValueFromStr : ¬ ParsesBack .setValueFromStr := by
  intro h
  let leapDay : CalendarDate :=
    ⟨2024, 2, 29, by decide, by decide, by decide, by decide, by decide⟩
  have hyear : leapDay.year < 10000 := by simp [leapDay]
  have hstores := stores_dateNumber hyear
  have hparse := h _ _ ⟨0, 0, 0⟩ hstores
  rw [DateParser.parse, setValueFromStr_dateText hstores] at hparse
  cases hparse

/-- Dates are faithful as literals, and never in loaded files. -/
theorem datesFaithful_iff (F : Type) [Floats F] (parser : DateParser) :
    DatesFaithful F parser ↔ parser = .setDate := by
  constructor
  · rintro ⟨-, hparse, -⟩
    cases parser with
    | setDate => rfl
    | setValueFromStr => exact absurd hparse not_parsesBack_setValueFromStr
  · rintro rfl
    exact ⟨fun _ => setsDate, parsesBack_setDate, comparesChronologically F⟩

/-- The text of February 29th, 2024 is refused. -/
theorem not_datesFaithful_loaded : ¬ ∀ parser, DatesFaithful ℚ parser :=
  fun h => not_parsesBack_setValueFromStr (h .setValueFromStr).2.1

end Sql

end ObHtap
