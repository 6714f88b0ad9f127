import ObHtap.Library.Kleene
import ObHtap.Library.Search
import ObHtap.Sql.SortLaws

/-!
# SQL comparisons

What SQL makes of a comparison, and when `ComparisonExpr` makes the same of it.  An operand is a
value or a list of rows, which a sub-select has; its members are values.
-/

namespace ObHtap

namespace Sql

/-! ## Operands -/

namespace Value

variable {F : Type}

/-- The rows of an operand. -/
def rows : Value F → List (Value F)
  | valuesLists values => values
  | value => [value]

def isList : Value F → Bool
  | valuesLists _ => true
  | _ => false

/-- No row is a list itself. -/
def IsFlat (operand : Value F) : Prop :=
  ∀ value ∈ operand.rows, value.isList = false

instance (operand : Value F) : Decidable operand.IsFlat :=
  inferInstanceAs (Decidable (∀ value ∈ operand.rows, value.isList = false))

/-- `Value::compare` refuses a list on the right of values of these types. -/
def isStrict : Value F → Bool
  | chars _ | dates _ => true
  | _ => false

def isVector : Value F → Bool
  | vectors _ => true
  | _ => false

def isText (value : Value F) : Bool :=
  value.text?.isSome

def text (value : Value F) : List UInt8 :=
  value.text?.getD []

/-- The value of an operand as a scalar: that of its only row, and NULL without a row. -/
def scalar (operand : Value F) : Option (Value F) :=
  match operand.rows with
  | [] => some nulls
  | [value] => some value
  | _ => none

section

variable {r : Rounding}

/-- Floats that are told apart, or are the same: the others are within `EPSILON`. -/
def apart (x y : RoundedFloat r) : Bool :=
  x.toRat = y.toRat ∨ 1 / 1000000 < |r.round (x.toRat - y.toRat)|

/-- An integer that is a float as well. -/
def exactInt (r : Rounding) (n : Int32) : Bool :=
  r.round n.toInt = n.toInt

/-- Two values that `Value::compare` orders: of comparable types and with floats that are apart, or
vectors of one dimension with such elements. -/
def alike : Value (RoundedFloat r) → Value (RoundedFloat r) → Bool
  | ints _, ints _ | dates _, dates _ | chars _, chars _ => true
  | floats x, floats y => apart x y
  | ints n, floats y => exactInt r n && apart (Floats.ofInt n.toInt) y
  | floats x, ints n => exactInt r n && apart x (Floats.ofInt n.toInt)
  | vectors elems, vectors elems' =>
    elems.length = elems'.length && (elems.zip elems').all fun p => apart p.1 p.2
  | _, _ => false

theorem alike_cases {left right : Value (RoundedFloat r)} (h : left.alike right = true) :
    Comparable left right ∨ ∃ elems elems', left = vectors elems ∧ right = vectors elems' := by
  unfold alike at h
  split at h
  · exact Or.inl (Or.inl ⟨Or.inl rfl, Or.inl rfl⟩)
  · exact Or.inl (Or.inr (Or.inl ⟨rfl, rfl⟩))
  · exact Or.inl (Or.inr (Or.inr ⟨rfl, rfl⟩))
  · exact Or.inl (Or.inl ⟨Or.inr rfl, Or.inr rfl⟩)
  · exact Or.inl (Or.inl ⟨Or.inl rfl, Or.inr rfl⟩)
  · exact Or.inl (Or.inl ⟨Or.inr rfl, Or.inl rfl⟩)
  · exact Or.inr ⟨_, _, rfl, rfl⟩
  · cases h

end

end Value

/-! ## What SQL makes of a comparison -/

section

variable {r : Rounding} (beyond : Value (RoundedFloat r) → Value (RoundedFloat r) → Int)

/-- The order of two values that are not NULL.  What SQL makes of values of other types, as it
converts them or reads the pages behind them, is a parameter. -/
def sqlOrder : Value (RoundedFloat r) → Value (RoundedFloat r) → Int
  | .ints m, .ints n => threeWay m.toInt n.toInt
  | .ints m, .floats y => threeWay (m.toInt : ℚ) y.toRat
  | .floats x, .ints n => threeWay x.toRat n.toInt
  | .floats x, .floats y => threeWay x.toRat y.toRat
  | .dates m, .dates n => threeWay m.toInt n.toInt
  | .chars s, .chars s' =>
    threeWay ((s.getD []).map UInt8.toNat) ((s'.getD []).map UInt8.toNat)
  | .vectors elems, .vectors elems' =>
    if elems.length = elems'.length then
      threeWay (elems.map RoundedFloat.toRat) (elems'.map RoundedFloat.toRat)
    else beyond (.vectors elems) (.vectors elems')
  | left, right => beyond left right

def CompOp.holds (comp : CompOp) (order : Int) : Bool :=
  match comp with
  | equalTo | inValueList => order = 0
  | notEqual | notInValueList => order ≠ 0
  | lessThan => order < 0
  | lessEqual => order ≤ 0
  | greatThan => 0 < order
  | greatEqual => 0 ≤ order
  | _ => false

def sqlCompare (comp : CompOp) (left right : Value (RoundedFloat r)) : Truth :=
  if left.isNull ∨ right.isNull then none else some (comp.holds (sqlOrder beyond left right))

def sqlIn (left : Value (RoundedFloat r)) (values : List (Value (RoundedFloat r))) : Truth :=
  Truth.any (values.map (sqlCompare beyond .equalTo left))

def sqlLike : Value (RoundedFloat r) → Value (RoundedFloat r) → Truth
  | .chars s, .chars pattern => some (likeMatch (pattern.getD []) (s.getD []))
  | _, _ => none

/-- The truth value of a comparison, or none where a scalar operand has more than one row. -/
def sqlResult (comp : CompOp) (left right : Value (RoundedFloat r)) : Option Truth := do
  let value ← left.scalar
  match comp with
  | .isNull => some (some value.isNull)
  | .isNot => some (some !value.isNull)
  | .inValueList => some (sqlIn beyond value right.rows)
  | .notInValueList => some (sqlIn beyond value right.rows).not
  | .likeOp => some (sqlLike value (← right.scalar))
  | .notLikeOp => some (sqlLike value (← right.scalar)).not
  | comp => some (sqlCompare beyond comp value (← right.scalar))

/-- The result is the truth value, with unknown as false, or an error where there is none. -/
def Answers (result : Except Fault Bool) : Option Truth → Prop
  | some truth => result = .ok truth.holds
  | none => ∃ rc, result = .error (.rc rc)

end

/-! ## What `Value::compare` says of two rows -/

section

variable {r : Rounding} {value value' operand : Value (RoundedFloat r)}

theorem sqlOrder_sign (beyond : Value (RoundedFloat r) → Value (RoundedFloat r) → Int)
    (halike : value.alike value' = true) :
    sqlOrder beyond value value' = -1 ∨ sqlOrder beyond value value' = 0 ∨
      sqlOrder beyond value value' = 1 := by
  unfold Value.alike at halike
  split at halike
  · exact threeWay_sign _ _
  · exact threeWay_sign _ _
  · exact threeWay_sign _ _
  · exact threeWay_sign _ _
  · exact threeWay_sign _ _
  · exact threeWay_sign _ _
  · rw [sqlOrder, if_pos (of_decide_eq_true (Bool.and_eq_true_iff.mp halike).1)]
    exact threeWay_sign _ _
  · cases halike

/-- The rounded difference of two floats that are apart has the sign of the exact one. -/
theorem compareFloat_of_apart {x y : RoundedFloat r} (h : Value.apart x y = true) :
    compareFloat x y = threeWay x.toRat y.toRat := by
  obtain ⟨hsign, hneg, hpos⟩ := Value.compareFloat_iff x y
  have hzero := Value.round_zero (r := r)
  unfold threeWay
  rcases of_decide_eq_true h with heq | hfar
  · rw [if_neg heq.not_lt, if_pos heq]
    rw [heq, sub_self, hzero] at hneg hpos
    have := mt hneg.mp (by norm_num)
    have := mt hpos.mp (by norm_num)
    omega
  · split_ifs with hlt heq
    · have hround := r.monotone (sub_nonpos.mpr hlt.le)
      rw [hzero] at hround
      rw [abs_of_nonpos hround] at hfar
      have := hneg.mpr (by linarith)
      omega
    · rw [heq, sub_self, hzero, abs_zero] at hfar
      norm_num at hfar
    · have hround := r.monotone (sub_nonneg.mpr (not_lt.mp hlt))
      rw [hzero] at hround
      rw [abs_of_nonneg hround] at hfar
      have := hpos.mpr hfar
      omega

theorem compareVectors_of_apart {elems elems' : List (RoundedFloat r)}
    (hlength : elems.length = elems'.length)
    (hapart : (elems.zip elems').all (fun p => Value.apart p.1 p.2) = true) :
    Value.compareVectors elems elems' =
      .ok (threeWay (elems.map RoundedFloat.toRat) (elems'.map RoundedFloat.toRat)) := by
  induction elems generalizing elems' with
  | nil =>
    obtain rfl := List.length_eq_zero_iff.mp hlength.symm
    rfl
  | cons x elems ih =>
    cases elems' with
    | nil => cases hlength
    | cons y elems' =>
      obtain ⟨hfirst, hrest⟩ := Bool.and_eq_true_iff.mp hapart
      have hx := compareFloat_of_apart hfirst
      rw [Value.compareVectors, hx, ih (Nat.succ.inj hlength) hrest, List.map_cons, List.map_cons,
        threeWay_cons]
      exact (apply_ite Except.ok _ _ _).symm

theorem compare_null_left (hright : value'.isNull = false) :
    Value.nulls.compare value' = .ok (-int32Max) := by
  cases value' with
  | nulls => cases hright
  | _ => rfl

theorem compare_null_right (hlist : value.isList = false) (hleft : value.isNull = false) :
    value.compare .nulls = .ok int32Max := by
  cases value with
  | nulls => cases hleft
  | valuesLists values => cases hlist
  | _ => rfl

/-- Two values that are alike are told as SQL orders them. -/
theorem compare_alike (beyond : Value (RoundedFloat r) → Value (RoundedFloat r) → Int)
    (halike : value.alike value' = true) :
    value.compare value' = .ok (sqlOrder beyond value value') := by
  unfold Value.alike at halike
  split at halike
  · exact congrArg Except.ok (Value.ranked_compareInt.eq_threeWay (Value.compareInt_sign _ _))
  · exact congrArg Except.ok (Value.ranked_compareInt.eq_threeWay (Value.compareInt_sign _ _))
  · exact congrArg Except.ok
      (Value.ranked_compareString.eq_threeWay (Value.compareString_sign _ _))
  · exact congrArg Except.ok (compareFloat_of_apart halike)
  next n y =>
    obtain ⟨hexact, hapart⟩ := Bool.and_eq_true_iff.mp halike
    refine congrArg Except.ok ((compareFloat_of_apart hapart).trans ?_)
    exact congrArg (threeWay · y.toRat) (of_decide_eq_true hexact)
  next x n =>
    obtain ⟨hexact, hapart⟩ := Bool.and_eq_true_iff.mp halike
    refine congrArg Except.ok ((compareFloat_of_apart hapart).trans ?_)
    exact congrArg (threeWay x.toRat) (of_decide_eq_true hexact)
  next elems elems' =>
    obtain ⟨hlength, hapart⟩ := Bool.and_eq_true_iff.mp halike
    have hlength' := of_decide_eq_true hlength
    rw [sqlOrder, if_pos hlength']
    exact compareVectors_of_apart hlength' hapart
  · cases halike

/-- A list of one row on the left is that row. -/
theorem compare_single (value operand : Value (RoundedFloat r)) :
    (Value.valuesLists [value]).compare operand = value.compare operand := by
  rw [Value.compare, Value.compareBy]
  rfl

/-- A number beside a list of one row is compared with that row. -/
theorem compare_number_list (hnumber : value.IsNumber) (hlist : value'.isList = false) :
    value.compare (.valuesLists [value']) = (value'.compare value).map (- ·) := by
  rcases hnumber with h | h
  · obtain ⟨x, rfl⟩ := Value.exists_of_attrType.1 h
    cases value' with
    | valuesLists values => cases hlist
    | _ => rfl
  · obtain ⟨x, rfl⟩ := Value.exists_of_attrType.2.1 h
    cases value' with
    | valuesLists values => cases hlist
    | _ => rfl

theorem compare_list_strict (hstrict : value.isStrict = true)
    (values : List (Value (RoundedFloat r))) :
    value.compare (.valuesLists values) = .error .abort := by
  cases value with
  | chars pointer | dates v => rfl
  | _ => cases hstrict

theorem compare_list_vector (hvector : value.isVector = true)
    (values : List (Value (RoundedFloat r))) :
    value.compare (.valuesLists values) = .ok int32Max := by
  cases value with
  | vectors elems => rfl
  | _ => cases hvector

theorem eq_of_rows (hlist : operand.isList = false) (hrows : operand.rows = [value']) :
    operand = value' := by
  cases operand with
  | valuesLists values => cases hlist
  | _ => exact List.singleton_inj.mp hrows

theorem eq_list_of_rows {values : List (Value (RoundedFloat r))} (hlist : operand.isList = true)
    (hrows : operand.rows = values) : operand = .valuesLists values := by
  cases operand with
  | valuesLists values => exact congrArg _ hrows
  | _ => cases hlist

theorem isStrict_of_dates (h : value.attrType = .dates) : value.isStrict = true := by
  obtain ⟨v, rfl⟩ := Value.exists_of_attrType.2.2.1 h
  rfl

theorem isStrict_of_chars (h : value.attrType = .chars) : value.isStrict = true := by
  obtain ⟨pointer, rfl⟩ := Value.exists_of_attrType.2.2.2 h
  rfl

variable {beyond : Value (RoundedFloat r) → Value (RoundedFloat r) → Int}

variable (beyond) in
/-- A value beside an operand of one row that is alike: a vector does not see a list, and all else
is told apart by the order of SQL. -/
theorem compare_operand (hrows : operand.rows = [value'])
    (hstrict : ¬ (operand.isList = true ∧ value.isStrict = true)) (hlist' : value'.isList = false)
    (halike : value.alike value' = true) :
    ((value.isVector = true ∧ operand.isList = true) ∧ value.compare operand = .ok int32Max) ∨
      ¬ (value.isVector = true ∧ operand.isList = true) ∧
        value.compare operand = .ok (sqlOrder beyond value value') ∧
        (sqlOrder beyond value value' = -1 ∨ sqlOrder beyond value value' = 0 ∨
          sqlOrder beyond value value' = 1) := by
  have hn := compare_alike beyond halike
  have hsign := sqlOrder_sign beyond halike
  cases hoperand : operand.isList with
  | false =>
    have hsame := eq_of_rows hoperand hrows
    refine Or.inr ⟨fun h => ?_, ?_, hsign⟩
    · cases h.2
    · rw [hsame, hn]
  | true =>
    have hsame := eq_list_of_rows hoperand hrows
    by_cases hvector : value.isVector = true
    · exact Or.inl ⟨⟨hvector, rfl⟩, by rw [hsame, compare_list_vector hvector]⟩
    · refine Or.inr ⟨fun h => hvector h.1, ?_, hsign⟩
      rcases Value.alike_cases halike with h | ⟨elems, elems', rfl, rfl⟩
      · have hnumber : value.IsNumber := by
          rcases h with h | h | h
          · exact h.1
          · exact absurd ⟨hoperand, isStrict_of_dates h.1⟩ hstrict
          · exact absurd ⟨hoperand, isStrict_of_chars h.1⟩ hstrict
        rw [hsame, compare_number_list hnumber hlist', Value.compare_swap h hn]
        exact congrArg _ (neg_neg _)
      · exact absurd rfl hvector

/-! ## `compare_value` on operands of one row -/

theorem listSize_eq (operand : Value (RoundedFloat r)) :
    operand.listSize = operand.rows.length := by
  cases operand <;> rfl

theorem compare_rows {left : Value (RoundedFloat r)} (hleft : left.rows = [value]) :
    left.compare operand = value.compare operand := by
  cases hlist : left.isList with
  | false => rw [eq_of_rows hlist hleft]
  | true => rw [eq_list_of_rows hlist hleft, compare_single]

/-- The operators that compare by order. -/
def CompOp.isOrdinary (comp : CompOp) : Bool :=
  comp ∈ [equalTo, lessEqual, notEqual, lessThan, greatEqual, greatThan, inValueList,
    notInValueList]

theorem ofNull_of_ordinary {comp : CompOp} (hcomp : comp.isOrdinary = true)
    (leftNull rightNull : Bool) : ComparisonExpr.ofNull comp leftNull rightNull = some false := by
  cases comp <;> first | rfl | cases hcomp

/-- What an operator makes of a result of `Value::compare`, the sentinels of which are false. -/
def CompOp.told (comp : CompOp) (n : Int) : Bool :=
  n ≠ int32Max && n ≠ -int32Max && comp.holds n

theorem told_sentinel (comp : CompOp) : comp.told int32Max = false :=
  rfl

theorem told_order (comp : CompOp) {n : Int} (hn : n = -1 ∨ n = 0 ∨ n = 1) :
    comp.told n = comp.holds n := by
  rcases hn with rfl | rfl | rfl <;> rfl

theorem ofCmpResult_of_ordinary {comp : CompOp} (hcomp : comp.isOrdinary = true) (n : Int) :
    ComparisonExpr.ofCmpResult comp n = .ok (comp.told n) := by
  unfold ComparisonExpr.ofCmpResult CompOp.told
  by_cases hsentinel : n = int32Max ∨ n = -int32Max
  · rw [if_pos hsentinel]
    rcases hsentinel with rfl | rfl <;> rfl
  · rw [if_neg hsentinel, decide_eq_true (not_or.mp hsentinel).1,
      decide_eq_true (not_or.mp hsentinel).2]
    cases comp <;> first | rfl | cases hcomp

/-- The last part of `compare_value`. -/
theorem compareValue_single {comp : CompOp} (hcomp : comp.isOrdinary = true)
    {left : Value (RoundedFloat r)} (hleft : left.rows = [value])
    (hright : operand.rows = [value']) :
    ComparisonExpr.compareValue comp left operand =
      (value.compare operand).map fun n =>
        if left.isNull ∨ operand.isNull then false else comp.told n := by
  have hsize : left.listSize = 1 := by rw [listSize_eq, hleft]; rfl
  have hsize' : operand.listSize = 1 := by rw [listSize_eq, hright]; rfl
  rw [ComparisonExpr.compareValue, compare_rows hleft]
  cases value.compare operand with
  | error fault => rfl
  | ok n =>
    simp only [bind, Except.bind, hsize, hsize', ofNull_of_ordinary hcomp,
      ofCmpResult_of_ordinary hcomp]
    change (if _ then Except.ok false else Except.ok (comp.told n)) = Except.ok (ite _ _ _)
    split_ifs <;> rfl

theorem isNull_eq (h : value.isNull = true) : value = .nulls := by
  cases value with
  | nulls => rfl
  | _ => cases h

theorem isNull_of_isList (h : operand.isList = true) : operand.isNull = false := by
  cases operand with
  | valuesLists values => rfl
  | _ => cases h

theorem isNull_rows (hrows : operand.rows = [value]) (hnot : value.isNull = false) :
    operand.isNull = false := by
  cases hlist : operand.isList with
  | false => rwa [eq_of_rows hlist hrows]
  | true => exact isNull_of_isList hlist

/-- A value beside NULL, or a list of it. -/
theorem compare_row_null (hright : operand.rows = [.nulls])
    (hstrict : ¬ (operand.isList = true ∧ value.isStrict = true)) (hlist : value.isList = false)
    (hnot : value.isNull = false) : value.compare operand = .ok int32Max := by
  cases hoperand : operand.isList with
  | false => rw [eq_of_rows hoperand hright, compare_null_right hlist hnot]
  | true =>
    rw [eq_list_of_rows hoperand hright]
    cases value with
    | nulls => cases hnot
    | valuesLists values => cases hlist
    | chars pointer | dates v => exact absurd ⟨hoperand, rfl⟩ hstrict
    | _ => rfl

variable (beyond) in
/-- What `compare_value` makes of two operands of one row each, by an operator other than LIKE and
IS.  Of values that are not alike it goes by what `Value::compare` says. -/
def rowAnswer (comp : CompOp) (value operand value' : Value (RoundedFloat r)) :
    Except Fault Bool :=
  if value.isNull ∨ value'.isNull then .ok false
  else if value.alike value' then
    .ok ((sqlCompare beyond comp value value').holds && !(value.isVector && operand.isList))
  else (value.compare operand).map comp.told

variable (beyond) in
theorem compareValue_rows {comp : CompOp} (hcomp : comp.isOrdinary = true)
    {left : Value (RoundedFloat r)} (hleft : left.rows = [value]) (hright : operand.rows = [value'])
    (hlist : value.isList = false) (hlist' : value'.isList = false)
    (hstrict : ¬ (operand.isList = true ∧ value.isStrict = true)) :
    ComparisonExpr.compareValue comp left operand =
      rowAnswer beyond comp value operand value' := by
  rw [compareValue_single hcomp hleft hright, rowAnswer]
  by_cases hnull : value.isNull = true
  · -- NULL on the left is beside NULL or below everything else
    rw [if_pos (Or.inl hnull)]
    obtain rfl := isNull_eq hnull
    cases hnull' : operand.isNull with
    | true =>
      rw [isNull_eq hnull']
      exact congrArg Except.ok (if_pos (Or.inr rfl))
    | false =>
      rw [compare_null_left hnull']
      exact congrArg Except.ok (ite_self false)
  have hnot : value.isNull = false := Bool.eq_false_iff.mpr hnull
  by_cases hnull' : value'.isNull = true
  · rw [if_pos (Or.inr hnull')]
    obtain rfl := isNull_eq hnull'
    rw [compare_row_null hright hstrict hlist hnot]
    exact congrArg Except.ok (ite_self false)
  have hnot' : value'.isNull = false := Bool.eq_false_iff.mpr hnull'
  have hnone : ¬ (left.isNull = true ∨ operand.isNull = true) := by
    rw [isNull_rows hleft hnot, isNull_rows hright hnot']
    decide
  simp only [if_neg (not_or.mpr ⟨hnull, hnull'⟩), if_neg hnone]
  by_cases halike : value.alike value' = true
  · rw [if_pos halike]
    have hsql : sqlCompare beyond comp value value' =
        some (comp.holds (sqlOrder beyond value value')) :=
      if_neg (not_or.mpr ⟨hnull, hnull'⟩)
    rcases compare_operand beyond hright hstrict hlist' halike with
      ⟨⟨hvector, hoperand⟩, hcompare⟩ | ⟨hseen, hcompare, hsign⟩
    · rw [hcompare, hvector, hoperand, Bool.and_self, Bool.not_true, Bool.and_false]
      exact congrArg Except.ok (told_sentinel comp)
    · rw [← Bool.and_eq_true, Bool.not_eq_true] at hseen
      rw [hcompare, hsql, hseen, Bool.not_false, Bool.and_true, Truth.holds_some]
      exact congrArg Except.ok (told_order comp hsign)
  · rw [if_neg halike]

/-! ## Operands of no row or of more -/

theorem isList_of_length (h : operand.rows.length ≠ 1) : operand.isList = true := by
  cases operand with
  | valuesLists values => rfl
  | _ => exact absurd rfl h

theorem compare_left_list {left : Value (RoundedFloat r)} (h : left.rows.length ≠ 1)
    (operand : Value (RoundedFloat r)) : left.compare operand = .ok int32Max := by
  have heq := eq_list_of_rows (isList_of_length h) rfl
  match hrows : left.rows with
  | [] =>
    rw [heq, hrows]
    rfl
  | [value] =>
    rw [hrows] at h
    exact absurd rfl h
  | _ :: _ :: _ =>
    rw [heq, hrows]
    rfl

theorem compare_right_list (h : operand.rows.length ≠ 1) (hlist : value.isList = false)
    (hstrict : value.isStrict = false) : ∃ n, value.compare operand = .ok n := by
  have heq := eq_list_of_rows (isList_of_length h) rfl
  match hrows : operand.rows with
  | [] =>
    rw [heq, hrows]
    cases value with
    | chars pointer | dates v => cases hstrict
    | valuesLists values => cases hlist
    | _ => exact ⟨_, rfl⟩
  | [value] =>
    rw [hrows] at h
    exact absurd rfl h
  | _ :: _ :: _ =>
    rw [heq, hrows]
    cases value with
    | chars pointer | dates v => cases hstrict
    | valuesLists values => cases hlist
    | _ => exact ⟨_, rfl⟩

variable {comp : CompOp} {left : Value (RoundedFloat r)}

/-- A left operand of more than one row is refused. -/
theorem compareValue_left_many (h : 1 < left.rows.length) :
    ComparisonExpr.compareValue comp left operand = .error (.rc .error) := by
  rw [ComparisonExpr.compareValue, compare_left_list (by omega)]
  simp only [bind, Except.bind, listSize_eq]
  exact if_pos h

theorem compareValue_left_none (h : left.rows = []) :
    ComparisonExpr.compareValue comp left operand =
      if comp = .notEqual then .error (.rc .error) else .ok false := by
  have hlength : left.rows.length = 0 := by rw [h]; rfl
  rw [ComparisonExpr.compareValue, compare_left_list (by omega)]
  simp only [bind, Except.bind, listSize_eq, hlength]
  rfl

theorem compareValue_right_many (hleft : left.rows = [value]) (hlist : value.isList = false)
    (hstrict : value.isStrict = false) (h : 1 < operand.rows.length) :
    ComparisonExpr.compareValue comp left operand = .error (.rc .error) := by
  have hne : operand.rows.length ≠ 1 := by omega
  obtain ⟨n, hn⟩ := compare_right_list hne hlist hstrict
  rw [ComparisonExpr.compareValue, compare_rows hleft, hn]
  simp only [bind, Except.bind, listSize_eq, hleft, List.length_singleton]
  exact if_pos h

theorem compareValue_right_none (hleft : left.rows = [value]) (hlist : value.isList = false)
    (hstrict : value.isStrict = false) (h : operand.rows = []) :
    ComparisonExpr.compareValue comp left operand =
      if comp = .notInValueList then .ok true
      else if comp = .notEqual then .error (.rc .error) else .ok false := by
  have hlength : operand.rows.length = 0 := by rw [h]; rfl
  have hne : operand.rows.length ≠ 1 := by omega
  obtain ⟨n, hn⟩ := compare_right_list hne hlist hstrict
  rw [ComparisonExpr.compareValue, compare_rows hleft, hn]
  simp only [bind, Except.bind, listSize_eq, hleft, List.length_singleton, hlength]
  rfl

/-- A list beside a string or a date fails an `ASSERT`. -/
theorem compareValue_strict (hleft : left.rows = [value]) (hstrict : value.isStrict = true)
    (hlist : operand.isList = true) :
    ComparisonExpr.compareValue comp left operand = .error .abort := by
  rw [ComparisonExpr.compareValue, compare_rows hleft, eq_list_of_rows hlist rfl,
    compare_list_strict hstrict]
  rfl

/-! ## `=`, `<>`, `<`, `<=`, `>` and `>=` -/

variable (beyond) in
/-- When a value and an operand of one row are compared as SQL compares them. -/
structure FitsRow (comp : CompOp) (value operand value' : Value (RoundedFloat r)) : Prop where
  /-- A vector does not see a list. -/
  hidden : value.alike value' = true → value.isVector = true → operand.isList = true →
    (sqlCompare beyond comp value value').holds = false
  /-- Of values that are not alike `Value::compare` says what SQL does. -/
  unlike : value.isNull = false → value'.isNull = false → value.alike value' = false →
    (value.compare operand).map comp.told = .ok (sqlCompare beyond comp value value').holds

theorem rowAnswer_iff {comp : CompOp} :
    rowAnswer beyond comp value operand value' =
        .ok (sqlCompare beyond comp value value').holds ↔
      FitsRow beyond comp value operand value' := by
  unfold rowAnswer
  by_cases hnull : value.isNull = true ∨ value'.isNull = true
  · have hsql : sqlCompare beyond comp value value' = none := if_pos hnull
    rw [if_pos hnull, hsql]
    refine iff_of_true rfl ⟨fun _ _ _ => congrArg _ hsql, fun h h' => ?_⟩
    rcases hnull with hnull | hnull
    · cases h.symm.trans hnull
    · cases h'.symm.trans hnull
  have hnot := not_or.mp hnull
  rw [if_neg hnull]
  cases halike : value.alike value' with
  | true =>
    rw [if_pos rfl, Except.ok.injEq]
    constructor
    · intro h
      refine ⟨fun _ hvector hlist => ?_, fun _ _ h' => nomatch halike.symm.trans h'⟩
      rw [hvector, hlist] at h
      exact h.symm.trans (Bool.and_false _)
    · intro h
      cases hseen : value.isVector && operand.isList with
      | true =>
        rw [h.hidden halike (Bool.and_eq_true_iff.mp hseen).1 (Bool.and_eq_true_iff.mp hseen).2]
        rfl
      | false => exact Bool.and_true _
  | false =>
    refine ⟨fun h => ⟨fun h' => (nomatch halike.symm.trans h'), fun _ _ _ => h⟩, fun h => ?_⟩
    exact h.unlike (Bool.eq_false_iff.mpr hnot.1) (Bool.eq_false_iff.mpr hnot.2) halike

variable (beyond) in
/-- When a comparison by order gives SQL's answer. -/
structure FitsOrder (comp : CompOp) (left right : Value (RoundedFloat r)) : Prop where
  /-- No string or date meets a list on its right. -/
  strict : ∀ value, left.rows = [value] → value.isStrict = true → right.isList = false
  leftNone : left.rows = [] → (comp = .notEqual ↔ 1 < right.rows.length)
  rightNone : ∀ value, left.rows = [value] → right.rows = [] → comp ≠ .notEqual
  row : ∀ value value', left.rows = [value] → right.rows = [value'] →
    FitsRow beyond comp value right value'

/-- The six operators. -/
def CompOp.isOrder (comp : CompOp) : Bool :=
  comp ∈ [equalTo, lessEqual, notEqual, lessThan, greatEqual, greatThan]

theorem isOrdinary_of_isOrder (hcomp : comp.isOrder = true) : comp.isOrdinary = true := by
  cases comp <;> first | rfl | cases hcomp

theorem sqlResult_order (hcomp : comp.isOrder = true) (left right : Value (RoundedFloat r)) :
    sqlResult beyond comp left right =
      left.scalar.bind fun value => right.scalar.map (sqlCompare beyond comp value) := by
  unfold sqlResult
  cases left.scalar with
  | none => rfl
  | some value => cases right.scalar <;> cases comp <;> first | rfl | cases hcomp

theorem fitsOrder_of_none (hrows : left.rows = []) :
    FitsOrder beyond comp left operand ↔ (comp = .notEqual ↔ 1 < operand.rows.length) := by
  refine ⟨fun h => h.leftNone hrows, fun h => ⟨fun v hv => ?_, fun _ => h, fun v hv => ?_,
    fun v w hv => ?_⟩⟩
  all_goals
    cases hrows.symm.trans hv

theorem fitsOrder_of_single (hrows : left.rows = [value]) :
    FitsOrder beyond comp left operand ↔
      (value.isStrict = true → operand.isList = false) ∧
        (operand.rows = [] → comp ≠ .notEqual) ∧
        ∀ value', operand.rows = [value'] → FitsRow beyond comp value operand value' := by
  constructor
  · exact fun h => ⟨h.strict value hrows, h.rightNone value hrows, fun v => h.row value v hrows⟩
  · intro ⟨hstrict, hnone, hrow⟩
    refine ⟨fun v hv => ?_, fun hnil => ?_, fun v hv => ?_, fun v w hv => ?_⟩
    · cases List.singleton_inj.mp (hrows.symm.trans hv)
      exact hstrict
    · cases hrows.symm.trans hnil
    · cases List.singleton_inj.mp (hrows.symm.trans hv)
      exact hnone
    · cases List.singleton_inj.mp (hrows.symm.trans hv)
      exact hrow w

theorem fitsOrder_of_many (hrows : 1 < left.rows.length) : FitsOrder beyond comp left operand := by
  refine ⟨fun v hv => ?_, fun hnil => ?_, fun v hv => ?_, fun v w hv => ?_⟩
  · rw [hv] at hrows
    exact absurd hrows (Nat.lt_irrefl 1)
  · rw [hnil] at hrows
    exact absurd hrows (Nat.not_lt_zero 1)
  · rw [hv] at hrows
    exact absurd hrows (Nat.lt_irrefl 1)
  · rw [hv] at hrows
    exact absurd hrows (Nat.lt_irrefl 1)

theorem scalar_eq_none : operand.scalar = none ↔ 1 < operand.rows.length := by
  unfold Value.scalar
  match operand.rows with
  | [] | [value] => simp
  | _ :: _ :: _ => simp

theorem sqlCompare_null_left (value : Value (RoundedFloat r)) :
    sqlCompare beyond comp .nulls value = none :=
  if_pos (Or.inl rfl)

theorem sqlCompare_null_right (value : Value (RoundedFloat r)) :
    sqlCompare beyond comp value .nulls = none :=
  if_pos (Or.inr rfl)

theorem not_answers_abort (truth : Option Truth) : ¬ Answers (.error .abort) truth := by
  cases truth with
  | none => exact nofun
  | some t => exact nofun

theorem answers_ite_error {p : Prop} [Decidable p] (truth : Option Truth)
    (hunknown : ∀ t, truth = some t → t.holds = false) :
    Answers (if p then .error (.rc .error) else .ok false) truth ↔ (p ↔ truth = none) := by
  cases truth with
  | none =>
    unfold Answers
    split_ifs with h <;> simp [h]
  | some t =>
    unfold Answers
    split_ifs with h <;> simp [h, hunknown t rfl]

theorem answers_order (hcomp : comp.isOrder = true) (hleft : left.IsFlat)
    (hright : operand.IsFlat) :
    Answers (ComparisonExpr.compareValue comp left operand) (sqlResult beyond comp left operand) ↔
      FitsOrder beyond comp left operand := by
  rw [sqlResult_order hcomp]
  match hrows : left.rows with
  | _ :: _ :: _ =>
    have hmany : 1 < left.rows.length := by rw [hrows]; simp
    have hscalar : left.scalar = none := by rw [Value.scalar, hrows]
    rw [compareValue_left_many hmany, hscalar]
    exact iff_of_true ⟨_, rfl⟩ (fitsOrder_of_many hmany)
  | [] =>
    have hscalar : left.scalar = some .nulls := by rw [Value.scalar, hrows]
    have hunknown : ∀ t, operand.scalar.map (sqlCompare beyond comp .nulls) = some t →
        t.holds = false := by
      intro t ht
      obtain ⟨w, -, rfl⟩ := Option.map_eq_some_iff.mp ht
      rw [sqlCompare_null_left]
      rfl
    rw [compareValue_left_none hrows, hscalar, fitsOrder_of_none hrows, ← scalar_eq_none]
    change Answers _ (operand.scalar.map (sqlCompare beyond comp .nulls)) ↔ _
    rw [answers_ite_error _ hunknown, Option.map_eq_none_iff]
  | [value] =>
    have hlist : value.isList = false := hleft value (by rw [hrows]; exact List.mem_cons_self ..)
    have hscalar : left.scalar = some value := by rw [Value.scalar, hrows]
    rw [hscalar, fitsOrder_of_single hrows]
    change Answers _ (operand.scalar.map (sqlCompare beyond comp value)) ↔ _
    by_cases hstrict : operand.isList = true ∧ value.isStrict = true
    · rw [compareValue_strict hrows hstrict.2 hstrict.1]
      refine iff_of_false (not_answers_abort _) fun h => ?_
      cases hstrict.1.symm.trans (h.1 hstrict.2)
    by_cases hone : operand.rows.length = 1
    · obtain ⟨value', hrows'⟩ := List.length_eq_one_iff.mp hone
      have hscalar' : operand.scalar = some value' := by rw [Value.scalar, hrows']
      have hmem : value' ∈ operand.rows := by rw [hrows']; exact List.mem_cons_self ..
      rw [compareValue_rows beyond (isOrdinary_of_isOrder hcomp) hrows hrows' hlist
        (hright value' hmem) hstrict, hscalar', hrows']
      change _ = Except.ok _ ↔ _
      rw [rowAnswer_iff]
      constructor
      · intro h
        refine ⟨fun hs => Bool.eq_false_iff.mpr fun hl => hstrict ⟨hl, hs⟩, nofun, ?_⟩
        intro v hv
        cases hv
        exact h
      · exact fun h => h.2.2 value' rfl
    · have hnot : value.isStrict = false :=
        Bool.eq_false_iff.mpr fun h => hstrict ⟨isList_of_length hone, h⟩
      rcases Nat.lt_or_ge 1 operand.rows.length with hmany | hle
      · rw [compareValue_right_many hrows hlist hnot hmany, scalar_eq_none.mpr hmany]
        refine iff_of_true ⟨_, rfl⟩ ⟨fun h => ?_, fun hnil => ?_, fun v hv => ?_⟩
        · cases hnot.symm.trans h
        · rw [hnil] at hmany
          exact absurd hmany (Nat.not_lt_zero 1)
        · rw [hv] at hmany
          exact absurd hmany (Nat.lt_irrefl 1)
      · have hnil : operand.rows = [] := List.length_eq_zero_iff.mp (by omega)
        have hscalar' : operand.scalar = some .nulls := by rw [Value.scalar, hnil]
        have hcomp' : comp ≠ .notInValueList := by
          rintro rfl
          cases hcomp
        rw [compareValue_right_none hrows hlist hnot hnil, if_neg hcomp', hscalar', hnil]
        change Answers _ (some (sqlCompare beyond comp value .nulls)) ↔ _
        rw [sqlCompare_null_right, answers_ite_error _ fun t ht => by cases ht; rfl]
        constructor
        · intro h
          refine ⟨fun hs => ?_, fun _ heq => ?_, nofun⟩
          · cases hnot.symm.trans hs
          · cases h.mp heq
        · exact fun h => iff_of_false (h.2.1 rfl) nofun

/-! ## `IN` and `NOT IN` -/

theorem rows_of_not_list (hlist : value.isList = false) : value.rows = [value] := by
  cases value with
  | valuesLists values => cases hlist
  | _ => rfl

theorem length_rows_of_scalar (h : left.scalar = some value) :
    left.rows = [] ∧ value = .nulls ∨ left.rows = [value] := by
  unfold Value.scalar at h
  match hrows : left.rows with
  | [] =>
    rw [hrows] at h
    exact Or.inl ⟨rfl, (Option.some.inj h).symm⟩
  | [v] =>
    rw [hrows] at h
    exact Or.inr (congrArg (fun v => [v]) (Option.some.inj h))
  | _ :: _ :: _ =>
    rw [hrows] at h
    cases h

theorem isOrdinary_of_member (hcomp : comp = .inValueList ∨ comp = .notInValueList) :
    comp.isOrdinary = true := by
  rcases hcomp with rfl | rfl <;> rfl

variable (beyond) in
/-- A scalar beside a member of a list. -/
theorem compareValue_member (hcomp : comp = .inValueList ∨ comp = .notInValueList)
    (hscalar : left.scalar = some value) (hleft : left.IsFlat) (hlist' : value'.isList = false) :
    ComparisonExpr.compareValue comp left value' = rowAnswer beyond comp value value' value' := by
  rcases length_rows_of_scalar hscalar with ⟨hrows, rfl⟩ | hrows
  · have hne : comp ≠ .notEqual := by rcases hcomp with rfl | rfl <;> decide
    rw [compareValue_left_none hrows, if_neg hne]
    rfl
  · have hmem : value ∈ left.rows := by rw [hrows]; exact List.mem_cons_self ..
    have hstrict : ¬ (value'.isList = true ∧ value.isStrict = true) := fun h =>
      nomatch hlist'.symm.trans h.1
    exact compareValue_rows beyond (isOrdinary_of_member hcomp) hrows (rows_of_not_list hlist')
      (hleft value hmem) hlist' hstrict

theorem rowAnswer_error {fault : Fault}
    (h : rowAnswer beyond comp value operand value' = .error fault) : fault = .abort := by
  unfold rowAnswer at h
  split_ifs at h
  cases hcompare : value.compare operand with
  | error fault' =>
    rw [hcompare] at h
    cases h
    exact Value.compare_error hcompare
  | ok n =>
    rw [hcompare] at h
    cases h

theorem inLoop_eq {values : List (Value (RoundedFloat r))}
    (h : ∀ v ∈ values, ∀ fault, ComparisonExpr.compareValue .inValueList left v = .error fault →
      fault = .abort) :
    ComparisonExpr.inLoop left values (.ok false) =
      search true (ComparisonExpr.compareValue .inValueList left) values := by
  induction values with
  | nil => rfl
  | cons v values ih =>
    obtain ⟨hv, hvalues⟩ := List.forall_mem_cons.mp h
    rw [ComparisonExpr.inLoop]
    rcases cases_answer true (ComparisonExpr.compareValue .inValueList left v) with
      ha | ha | ⟨fault, ha⟩
    · rw [search_stop ha, ha]
    · rw [search_next ha, ha]
      exact ih hvalues
    · rw [search_error ha, ha, hv fault ha]

theorem notInLoop_eq (values : List (Value (RoundedFloat r))) :
    ComparisonExpr.notInLoop left values =
      search false (ComparisonExpr.compareValue .notInValueList left) values := by
  induction values with
  | nil => rfl
  | cons v values ih =>
    rw [ComparisonExpr.notInLoop]
    rcases cases_answer false (ComparisonExpr.compareValue .notInValueList left v) with
      ha | ha | ⟨fault, ha⟩
    · rw [search_stop ha, ha]
    · rw [search_next ha, ha]
      exact ih
    · rw [search_error ha, ha]

/-- A left operand of more than one row: the last comparison of `IN` fails, and the first one of
`NOT IN`. -/
theorem inLoop_many (hmany : 1 < left.rows.length) {values : List (Value (RoundedFloat r))}
    (last : Except Fault Bool) : ComparisonExpr.inLoop left values last =
      if values = [] then last else .error (.rc .error) := by
  induction values generalizing last with
  | nil => rfl
  | cons v values ih =>
    rw [ComparisonExpr.inLoop, compareValue_left_many hmany]
    dsimp only
    rw [ih, ite_self]
    rfl

theorem notInLoop_many (hmany : 1 < left.rows.length) {values : List (Value (RoundedFloat r))} :
    ComparisonExpr.notInLoop left values =
      if values = [] then .ok true else .error (.rc .error) := by
  cases values with
  | nil => rfl
  | cons v values =>
    rw [ComparisonExpr.notInLoop, compareValue_left_many hmany]
    rfl

variable (beyond) in
/-- When `IN` and `NOT IN` give SQL's answer. -/
structure FitsIn (comp : CompOp) (left right : Value (RoundedFloat r)) : Prop where
  many : 1 < left.rows.length → right.rows ≠ []
  /-- No member that `Value::compare` refuses is met before the list is decided, and what it says of
  members that are not alike decides as SQL does. -/
  decided : ∀ value truth, left.scalar = some value →
    sqlResult beyond comp left right = some truth →
    Decided (comp = .inValueList) (fun v => rowAnswer beyond comp value v v) right.rows truth.holds

theorem holds_notIn (value value' : Value (RoundedFloat r)) :
    (sqlCompare beyond .notInValueList value value').holds =
      (sqlCompare beyond .equalTo value value').not.holds := by
  unfold sqlCompare
  split_ifs
  · rfl
  · unfold CompOp.holds
    by_cases h : sqlOrder beyond value value' = 0 <;> simp [h, Truth.holds, Truth.not]

variable (beyond) in
theorem sqlResult_in (hcomp : comp = .inValueList ∨ comp = .notInValueList)
    (hscalar : left.scalar = some value) (values : List (Value (RoundedFloat r))) :
    ∃ truth, sqlResult beyond comp left (.valuesLists values) = some truth ∧
      (truth.holds = decide (comp = .inValueList) ↔
        ∃ v ∈ values, (sqlCompare beyond comp value v).holds = decide (comp = .inValueList)) := by
  rcases hcomp with rfl | rfl
  · refine ⟨sqlIn beyond value values, ?_, ?_⟩
    · rw [sqlResult, hscalar]
      rfl
    · rw [sqlIn, Truth.holds_any, List.any_map]
      exact List.any_eq_true
  · refine ⟨(sqlIn beyond value values).not, ?_, ?_⟩
    · rw [sqlResult, hscalar]
      rfl
    · rw [sqlIn, Truth.holds_not_any, List.all_map]
      change _ = false ↔ ∃ v ∈ values, (sqlCompare beyond .notInValueList value v).holds = false
      simp only [holds_notIn, List.all_eq_false, Bool.not_eq_true]
      rfl

variable (beyond) in
/-- The loops search the list. -/
theorem evalComp_member [StrLike (RoundedFloat r)]
    (hcomp : comp = .inValueList ∨ comp = .notInValueList)
    {values : List (Value (RoundedFloat r))} (hscalar : left.scalar = some value)
    (hleft : left.IsFlat) (hright : (Value.valuesLists values).IsFlat) :
    ComparisonExpr.evalComp comp left (.valuesLists values) =
      search (comp = .inValueList) (fun v => rowAnswer beyond comp value v v) values := by
  have hmember : ∀ v ∈ values, ComparisonExpr.compareValue comp left v =
      rowAnswer beyond comp value v v := fun v hv =>
    compareValue_member beyond hcomp hscalar hleft (hright v hv)
  rcases hcomp with rfl | rfl
  · rw [ComparisonExpr.evalComp, inLoop_eq fun v hv fault h => ?_]
    · exact search_congr hmember
    · rw [hmember v hv] at h
      exact rowAnswer_error h
  · rw [ComparisonExpr.evalComp, notInLoop_eq]
    exact search_congr hmember

theorem answers_in [StrLike (RoundedFloat r)]
    (hcomp : comp = .inValueList ∨ comp = .notInValueList)
    {values : List (Value (RoundedFloat r))} (hleft : left.IsFlat)
    (hright : (Value.valuesLists values).IsFlat) :
    Answers (ComparisonExpr.evalComp comp left (.valuesLists values))
        (sqlResult beyond comp left (.valuesLists values)) ↔
      FitsIn beyond comp left (.valuesLists values) := by
  cases hscalar : left.scalar with
  | none =>
    have hmany := scalar_eq_none.mp hscalar
    have hnone : sqlResult beyond comp left (.valuesLists values) = none := by
      rw [sqlResult, hscalar]
      rfl
    rw [hnone]
    constructor
    · intro h
      refine ⟨fun _ hnil => ?_, fun v truth hv => nomatch hscalar.symm.trans hv⟩
      have hnil' : values = [] := hnil
      subst hnil'
      obtain ⟨rc, hrc⟩ := h
      rcases hcomp with rfl | rfl <;> cases hrc
    · intro h
      have hne : values ≠ [] := h.many hmany
      rcases hcomp with rfl | rfl
      · rw [ComparisonExpr.evalComp, inLoop_many hmany, if_neg hne]
        exact ⟨_, rfl⟩
      · rw [ComparisonExpr.evalComp, notInLoop_many hmany, if_neg hne]
        exact ⟨_, rfl⟩
  | some value =>
    obtain ⟨truth, htruth, -⟩ := sqlResult_in beyond hcomp hscalar values
    have hmany : ¬ 1 < left.rows.length := fun h => by
      rw [scalar_eq_none.mpr h] at hscalar
      cases hscalar
    rw [htruth, evalComp_member beyond hcomp hscalar hleft hright]
    change _ = Except.ok _ ↔ _
    rw [search_eq_ok]
    constructor
    · intro h
      refine ⟨fun h' => absurd h' hmany, fun v truth' hv htruth' => ?_⟩
      cases hscalar.symm.trans hv
      cases htruth.symm.trans htruth'
      exact h
    · exact fun h => h.decided value truth hscalar htruth

variable (beyond) in
/-- When a value is compared with a list of one member as with the member. -/
structure FitsMember (comp : CompOp) (value value' : Value (RoundedFloat r)) : Prop where
  /-- A vector does not see a list. -/
  hidden : value.alike value' = true → value.isVector = true →
    (sqlCompare beyond comp value value').holds = false
  unlike : value.isNull = false → value'.isNull = false → value.alike value' = false →
    (value.compare (.valuesLists [value'])).map comp.told = (value.compare value').map comp.told

variable (beyond) in
/-- When `try_get_value` gives for `IN` and `NOT IN` what `get_value` gives. -/
structure FitsTryIn (comp : CompOp) (left right : Value (RoundedFloat r)) : Prop where
  none : left.rows = [] → comp = .notInValueList → right.rows ≠ []
  many : 1 < left.rows.length → right.rows ≠ []
  one : ∀ value, left.rows = [value] → right.rows.length ≤ 1 ∧ value.isStrict = false ∧
    ∀ value', right.rows = [value'] → FitsMember beyond comp value value'

theorem fitsMember_iff (hlist' : value'.isList = false) :
    rowAnswer beyond comp value (.valuesLists [value']) value' =
        rowAnswer beyond comp value value' value' ↔ FitsMember beyond comp value value' := by
  unfold rowAnswer
  by_cases hnull : value.isNull = true ∨ value'.isNull = true
  · rw [if_pos hnull, if_pos hnull]
    refine iff_of_true rfl ⟨fun _ _ => congrArg _ (if_pos hnull), fun h h' => ?_⟩
    rcases hnull with hnull | hnull
    · cases h.symm.trans hnull
    · cases h'.symm.trans hnull
  have hnot := not_or.mp hnull
  rw [if_neg hnull, if_neg hnull]
  cases halike : value.alike value' with
  | true =>
    rw [if_pos rfl, if_pos rfl, Except.ok.injEq, hlist', Bool.and_false, Bool.not_false,
      Bool.and_true]
    change (_ && !(value.isVector && true)) = _ ↔ _
    rw [Bool.and_true]
    constructor
    · intro h
      refine ⟨fun _ hvector => ?_, fun _ _ h' => nomatch halike.symm.trans h'⟩
      rw [hvector] at h
      exact h.symm.trans (Bool.and_false _)
    · intro h
      cases hvector : value.isVector with
      | true =>
        rw [h.hidden halike hvector]
        rfl
      | false => exact Bool.and_true _
  | false =>
    refine ⟨fun h => ⟨fun h' => (nomatch halike.symm.trans h'), fun _ _ _ => h⟩, fun h => ?_⟩
    exact h.unlike (Bool.eq_false_iff.mpr hnot.1) (Bool.eq_false_iff.mpr hnot.2) halike

/-! ## `IS NULL` and `IS NOT NULL` -/

/-- When `IS NULL` and `IS NOT NULL` give SQL's answer. -/
structure FitsNull (comp : CompOp) (left : Value (RoundedFloat r)) : Prop where
  none : left.rows = [] → comp = .isNot
  /-- The only row of a list is not NULL. -/
  list : ∀ value, left.rows = [value] → left.isList = true → value.isNull = false

theorem compareValue_null {value : Value (RoundedFloat r)} (hleft : left.rows = [value])
    (hlist : value.isList = false) :
    (ComparisonExpr.compareValue .isNull left .nulls : Except Fault Bool) = .ok left.isNull ∧
      ComparisonExpr.compareValue .isNot left .nulls = .ok !left.isNull := by
  have hcompare : ∃ n, value.compare .nulls = .ok n := by
    cases hnull : value.isNull with
    | true =>
      rw [isNull_eq hnull]
      exact ⟨0, rfl⟩
    | false => exact ⟨_, compare_null_right hlist hnull⟩
  obtain ⟨n, hn⟩ := hcompare
  have hsize : left.listSize = 1 := by rw [listSize_eq, hleft]; rfl
  have hor : left.isNull = true ∨ (Value.nulls : Value (RoundedFloat r)).isNull = true := Or.inr rfl
  constructor
  all_goals
    rw [ComparisonExpr.compareValue, compare_rows hleft, hn]
    simp only [bind, Except.bind, hsize, if_pos hor]
    rfl

theorem answers_null (hcomp : comp = .isNull ∨ comp = .isNot) (hleft : left.IsFlat) :
    Answers (ComparisonExpr.compareValue comp left .nulls) (sqlResult beyond comp left .nulls) ↔
      FitsNull comp left := by
  match hrows : left.rows with
  | _ :: _ :: _ =>
    have hmany : 1 < left.rows.length := by rw [hrows]; simp
    have hnone : sqlResult beyond comp left .nulls = none := by
      rw [sqlResult, scalar_eq_none.mpr hmany]
      rfl
    rw [compareValue_left_many hmany, hnone]
    refine iff_of_true ⟨_, rfl⟩ ⟨fun h => ?_, fun v h => ?_⟩
    · cases hrows.symm.trans h
    · cases hrows.symm.trans h
  | [] =>
    have hscalar : left.scalar = some .nulls := by rw [Value.scalar, hrows]
    have hfits : FitsNull comp left ↔ comp = .isNot :=
      ⟨fun h => h.none hrows, fun h => ⟨fun _ => h, fun v hv => nomatch hrows.symm.trans hv⟩⟩
    rw [hfits, compareValue_left_none hrows, sqlResult, hscalar]
    rcases hcomp with rfl | rfl
    · exact iff_of_false nofun nofun
    · exact iff_of_true rfl rfl
  | [value] =>
    have hmem : value ∈ left.rows := by rw [hrows]; exact List.mem_cons_self ..
    have hscalar : left.scalar = some value := by rw [Value.scalar, hrows]
    have hfits : FitsNull comp left ↔ left.isNull = value.isNull := by
      constructor
      · intro h
        cases hlist : left.isList with
        | false => rw [eq_of_rows hlist hrows]
        | true => rw [isNull_of_isList hlist, h.list value hrows hlist]
      · intro h
        refine ⟨fun hnil => ?_, fun v hv hlist => ?_⟩
        · cases hrows.symm.trans hnil
        · cases hrows.symm.trans hv
          rw [← h, isNull_of_isList hlist]
    rw [hfits]
    rcases hcomp with rfl | rfl
    · rw [(compareValue_null hrows (hleft value hmem)).1, sqlResult, hscalar]
      change Except.ok _ = Except.ok _ ↔ _
      cases left.isNull <;> cases value.isNull <;> decide
    · rw [(compareValue_null hrows (hleft value hmem)).2, sqlResult, hscalar]
      change Except.ok _ = Except.ok _ ↔ _
      cases left.isNull <;> cases value.isNull <;> decide

/-! ## `LIKE` and `NOT LIKE` -/

/-- A string of one line and a pattern without braces, which `Value::str_like` does not escape. -/
def IsPlain (s pattern : List UInt8) : Prop :=
  10 ∉ s ∧ 13 ∉ s ∧ 123 ∉ pattern ∧ 125 ∉ pattern

instance (s pattern : List UInt8) : Decidable (IsPlain s pattern) :=
  inferInstanceAs (Decidable (_ ∧ _ ∧ _ ∧ _))

/-- What `std::regex` makes of the pattern that `Value::str_like` gives it: a plain one it takes as
`LIKE` does. -/
class LawfulStrLike (F : Type) [Floats F] [StrLike F] : Prop where
  plain : ∀ left right : Value F, left.isText = true → right.isText = true →
    IsPlain left.text right.text →
    StrLike.strLike left right = .ok (likeMatch right.text left.text)

instance : LawfulStrLike (RoundedFloat r) where
  plain left right hleft hright _ := by
    obtain ⟨s, hs⟩ := Option.isSome_iff_exists.mp hleft
    obtain ⟨pattern, hpattern⟩ := Option.isSome_iff_exists.mp hright
    change (match left.text?, right.text? with | some s, some pattern => _ | _, _ => _) = _
    rw [Value.text, Value.text, hs, hpattern]
    rfl

theorem isList_of_text (htext : value.isText = true) : value.isList = false := by
  cases value with
  | valuesLists values => cases htext
  | _ => rfl

theorem compare_text (hleft : left.isText = true) (hright : operand.isText = true) :
    ∃ n, left.compare operand = .ok n ∧
      (left.isNull = false → operand.isNull = false → n = -1 ∨ n = 0 ∨ n = 1) := by
  cases hnull : left.isNull with
  | true =>
    obtain rfl := isNull_eq hnull
    cases hnull' : operand.isNull with
    | true =>
      rw [isNull_eq hnull']
      exact ⟨0, rfl, nofun⟩
    | false => exact ⟨_, compare_null_left hnull', nofun⟩
  | false =>
    have hchars (v : Value (RoundedFloat r)) (htext : v.isText = true) (h : v.isNull = false) :
        v.attrType = .chars := by
      cases v with
      | chars pointer => rfl
      | nulls => cases h
      | _ => cases htext
    cases hnull' : operand.isNull with
    | true =>
      rw [isNull_eq hnull', compare_null_right (isList_of_text hleft) hnull]
      exact ⟨_, rfl, nofun⟩
    | false =>
      obtain ⟨s, rfl⟩ := Value.exists_of_attrType.2.2.2 (hchars left hleft hnull)
      obtain ⟨pattern, rfl⟩ := Value.exists_of_attrType.2.2.2 (hchars operand hright hnull')
      have halike : (Value.chars s : Value (RoundedFloat r)).alike (.chars pattern) = true := rfl
      exact ⟨_, compare_alike (fun _ _ => 0) halike, fun _ _ => sqlOrder_sign _ halike⟩

/-- `compare_value` has no `LIKE`: it takes NULL and refuses the rest. -/
theorem compareValue_like (hcomp : comp = .likeOp ∨ comp = .notLikeOp) (hleft : left.isText = true)
    (hright : operand.isText = true) :
    ComparisonExpr.compareValue comp left operand =
      if left.isNull ∨ operand.isNull then .ok false else .error (.rc .internal) := by
  obtain ⟨n, hn, hsign⟩ := compare_text hleft hright
  have hsize (v : Value (RoundedFloat r)) (h : v.isText = true) : v.listSize = 1 := by
    rw [listSize_eq, rows_of_not_list (isList_of_text h)]
    rfl
  have hofNull : ComparisonExpr.ofNull comp left.isNull operand.isNull = some false := by
    rcases hcomp with rfl | rfl <;> rfl
  rw [ComparisonExpr.compareValue, hn]
  simp only [bind, Except.bind, hsize left hleft, hsize operand hright, hofNull]
  change (if _ then Except.ok false else ComparisonExpr.ofCmpResult comp n) = _
  split_ifs with hnull
  · rfl
  · have hnone := not_or.mp hnull
    have hsign' := hsign (Bool.eq_false_iff.mpr hnone.1) (Bool.eq_false_iff.mpr hnone.2)
    rcases hsign' with rfl | rfl | rfl <;> rcases hcomp with rfl | rfl <;> rfl

theorem scalar_text (htext : value.isText = true) : value.scalar = some value := by
  cases value with
  | chars s | nulls => rfl
  | _ => cases htext

theorem sqlLike_eq (hleft : left.isText = true) (hright : operand.isText = true) :
    sqlLike left operand =
      if left.isNull ∨ operand.isNull then none else some (likeMatch operand.text left.text) := by
  cases left with
  | chars s =>
    cases operand with
    | chars pattern | nulls => rfl
    | _ => cases hright
  | nulls =>
    cases operand with
    | chars pattern | nulls => rfl
    | _ => cases hright
  | _ => cases hleft

theorem sqlResult_like (hleft : left.isText = true) (hright : operand.isText = true) :
    sqlResult beyond .likeOp left operand = some (sqlLike left operand) ∧
      sqlResult beyond .notLikeOp left operand = some (sqlLike left operand).not := by
  unfold sqlResult
  rw [scalar_text hleft, scalar_text hright]
  exact ⟨rfl, rfl⟩

variable [StrLike (RoundedFloat r)]

/-- The pattern matches or not; what is not plain is left to `std::regex`. -/
def Matches (left right : Value (RoundedFloat r)) (b : Bool) : Prop :=
  if IsPlain left.text right.text then likeMatch right.text left.text = b
  else StrLike.strLike left right = .ok b

/-- When `LIKE` and `NOT LIKE` give SQL's answer: a NULL is taken for its text. -/
def FitsLike (comp : CompOp) (left right : Value (RoundedFloat r)) : Prop :=
  Matches left right
    (if left.isNull ∨ right.isNull then comp = .notLikeOp else likeMatch right.text left.text)

variable [LawfulStrLike (RoundedFloat r)]

theorem matches_iff {b : Bool} (hleft : left.isText = true) (hright : operand.isText = true) :
    Matches left operand b ↔ StrLike.strLike left operand = .ok b := by
  unfold Matches
  split_ifs with hplain
  · rw [LawfulStrLike.plain left operand hleft hright hplain, Except.ok.injEq]
  · rfl

theorem answers_like (hcomp : comp = .likeOp ∨ comp = .notLikeOp) (hleft : left.isText = true)
    (hright : operand.isText = true) :
    Answers (ComparisonExpr.evalComp comp left operand) (sqlResult beyond comp left operand) ↔
      FitsLike comp left operand := by
  unfold FitsLike
  rw [matches_iff hleft hright]
  rcases hcomp with rfl | rfl
  · rw [(sqlResult_like hleft hright).1, sqlLike_eq hleft hright]
    change StrLike.strLike left operand = _ ↔ _
    split_ifs
    · rfl
    · rw [Truth.holds_some]
  · rw [(sqlResult_like hleft hright).2, sqlLike_eq hleft hright]
    change (StrLike.strLike left operand).map (!·) = _ ↔ _
    have hmap (b : Bool) : (StrLike.strLike left operand).map (!·) = .ok (!b) ↔
        StrLike.strLike left operand = .ok b := by
      cases StrLike.strLike left operand with
      | error fault => exact iff_of_false nofun nofun
      | ok b' =>
        change Except.ok _ = Except.ok _ ↔ _
        rw [Except.ok.injEq, Except.ok.injEq, Bool.not_inj_iff]
    split_ifs
    · exact hmap true
    · rw [Truth.not_some, Truth.holds_some, hmap]

/-! ## Two constants -/

omit [LawfulStrLike (RoundedFloat r)]

section

variable {values : List (Value (RoundedFloat r))}

theorem try_in_none (hcomp : comp = .inValueList ∨ comp = .notInValueList)
    (hrows : left.rows = []) :
    ComparisonExpr.compareValue comp left (.valuesLists values) =
        ComparisonExpr.evalComp comp left (.valuesLists values) ↔
      (comp = .notInValueList → values ≠ []) := by
  have hmember (comp : CompOp) (hne : comp ≠ .notEqual) (v : Value (RoundedFloat r)) :
      ComparisonExpr.compareValue comp left v = .ok false := by
    rw [compareValue_left_none hrows, if_neg hne]
  rcases hcomp with rfl | rfl
  · rw [hmember _ (by decide), ComparisonExpr.evalComp, inLoop_eq fun v _ fault h => by
      rw [hmember _ (by decide)] at h
      cases h]
    have hsearch : search true (ComparisonExpr.compareValue .inValueList left) values =
        .ok !true :=
      search_eq_not.mpr fun v _ => hmember .inValueList (by decide) v
    exact iff_of_true hsearch.symm nofun
  · rw [hmember _ (by decide), ComparisonExpr.evalComp, notInLoop_eq]
    cases values with
    | nil => exact iff_of_false nofun fun h => h rfl rfl
    | cons v values =>
      exact iff_of_true (search_stop (hmember _ (by decide) v)).symm
        fun _ => List.cons_ne_nil v values

theorem try_in_many (hcomp : comp = .inValueList ∨ comp = .notInValueList)
    (hmany : 1 < left.rows.length) :
    ComparisonExpr.compareValue comp left (.valuesLists values) =
        ComparisonExpr.evalComp comp left (.valuesLists values) ↔ values ≠ [] := by
  rw [compareValue_left_many hmany]
  rcases hcomp with rfl | rfl
  · rw [ComparisonExpr.evalComp, inLoop_many hmany]
    cases values <;> simp
  · rw [ComparisonExpr.evalComp, notInLoop_many hmany]
    cases values <;> simp

variable (beyond) in
theorem try_in_one (hcomp : comp = .inValueList ∨ comp = .notInValueList)
    (hrows : left.rows = [value]) (hleft : left.IsFlat) (hright : (Value.valuesLists values).IsFlat)
    (hget : ComparisonExpr.evalComp comp left (.valuesLists values) ≠ .error .abort) :
    ComparisonExpr.compareValue comp left (.valuesLists values) =
        ComparisonExpr.evalComp comp left (.valuesLists values) ↔
      values.length ≤ 1 ∧ value.isStrict = false ∧
        ∀ value', values = [value'] → FitsMember beyond comp value value' := by
  have hlist := hleft value (by rw [hrows]; exact List.mem_cons_self ..)
  have hscalar : left.scalar = some value := by rw [Value.scalar, hrows]
  have heval := evalComp_member beyond hcomp hscalar hleft hright
  by_cases hstrict : value.isStrict = true
  · rw [compareValue_strict hrows hstrict rfl]
    refine iff_of_false (fun h => hget h.symm) fun h => ?_
    cases hstrict.symm.trans h.2.1
  have hnot : value.isStrict = false := Bool.eq_false_iff.mpr hstrict
  match values with
  | _ :: _ :: _ =>
    rw [compareValue_right_many hrows hlist hnot (by simp [Value.rows])]
    refine iff_of_false (fun h => ?_) fun h => absurd h.1 (by simp)
    rw [heval] at h
    obtain ⟨v, -, hv⟩ := search_eq_error h.symm
    cases rowAnswer_error hv
  | [] =>
    refine iff_of_true ?_ ⟨Nat.zero_le 1, hnot, nofun⟩
    rw [compareValue_right_none hrows hlist hnot rfl]
    rcases hcomp with rfl | rfl <;> rfl
  | [value'] =>
    have hlist' := hright value' (List.mem_cons_self ..)
    rw [heval, search_singleton, compareValue_rows beyond (isOrdinary_of_member hcomp) hrows rfl
      hlist hlist' (fun h => hstrict h.2), fitsMember_iff hlist']
    refine ⟨fun h => ⟨Nat.le_refl 1, hnot, fun v hv => ?_⟩, fun h => h.2.2 value' rfl⟩
    cases hv
    exact h

end

theorem fitsTryIn_iff {values : List (Value (RoundedFloat r))}
    (hcomp : comp = .inValueList ∨ comp = .notInValueList) (hleft : left.IsFlat)
    (hright : (Value.valuesLists values).IsFlat)
    (hget : ComparisonExpr.evalComp comp left (.valuesLists values) ≠ .error .abort) :
    ComparisonExpr.compareValue comp left (.valuesLists values) =
        ComparisonExpr.evalComp comp left (.valuesLists values) ↔
      FitsTryIn beyond comp left (.valuesLists values) := by
  match hrows : left.rows with
  | [] =>
    rw [try_in_none hcomp hrows]
    refine ⟨fun h => ⟨fun _ => h, fun hmany => ?_, fun v hv => ?_⟩, fun h => h.none hrows⟩
    · rw [hrows] at hmany
      exact absurd hmany (Nat.not_lt_zero 1)
    · cases hrows.symm.trans hv
  | [value] =>
    rw [try_in_one beyond hcomp hrows hleft hright hget]
    refine ⟨fun h => ⟨fun hnil => ?_, fun hmany => ?_, fun v hv => ?_⟩, fun h => h.one value hrows⟩
    · cases hrows.symm.trans hnil
    · rw [hrows] at hmany
      exact absurd hmany (Nat.lt_irrefl 1)
    · cases hrows.symm.trans hv
      exact h
  | _ :: _ :: _ =>
    have hmany : 1 < left.rows.length := by rw [hrows]; simp
    rw [try_in_many hcomp hmany]
    refine ⟨fun h => ⟨fun hnil => ?_, fun _ => h, fun v hv => ?_⟩, fun h => h.many hmany⟩
    · cases hrows.symm.trans hnil
    · cases hrows.symm.trans hv

section

variable [LawfulStrLike (RoundedFloat r)]

/-- `try_get_value` gives for `LIKE` and `NOT LIKE` what `get_value` gives only beside a NULL. -/
theorem try_like (hcomp : comp = .likeOp ∨ comp = .notLikeOp) (hleft : left.isText = true)
    (hright : operand.isText = true) (hget : FitsLike comp left operand) :
    ComparisonExpr.compareValue comp left operand = ComparisonExpr.evalComp comp left operand ↔
      left.isNull = true ∨ operand.isNull = true := by
  rw [compareValue_like hcomp hleft hright]
  rw [FitsLike, matches_iff hleft hright] at hget
  by_cases hnull : left.isNull = true ∨ operand.isNull = true
  · rw [if_pos hnull] at hget ⊢
    refine iff_of_true ?_ hnull
    rcases hcomp with rfl | rfl
    · exact hget.symm
    · change _ = (StrLike.strLike left operand).map (!·)
      rw [hget]
      rfl
  · rw [if_neg hnull] at hget ⊢
    refine iff_of_false ?_ hnull
    rcases hcomp with rfl | rfl
    · exact fun h => nomatch h.trans hget
    · change _ ≠ (StrLike.strLike left operand).map (!·)
      rw [hget]
      exact nofun

end

/-! ## Comparisons -/

/-- The operands of an operator of SQL: a list on the right of `IN`, NULL on the right of `IS`, and
strings beside `LIKE`, which the planner asks for. -/
def Operands (comp : CompOp) (left right : Value (RoundedFloat r)) : Prop :=
  match comp with
  | .noOp => False
  | .isNull | .isNot => right = .nulls ∧ left.IsFlat
  | .likeOp | .notLikeOp => left.isText = true ∧ right.isText = true
  | .inValueList | .notInValueList => right.isList = true ∧ left.IsFlat ∧ right.IsFlat
  | _ => left.IsFlat ∧ right.IsFlat

variable (beyond) in
/-- When `get_value` gives SQL's answer. -/
def FitsGet (comp : CompOp) (left right : Value (RoundedFloat r)) : Prop :=
  match comp with
  | .isNull | .isNot => FitsNull comp left
  | .likeOp | .notLikeOp => FitsLike comp left right
  | .inValueList | .notInValueList => FitsIn beyond comp left right
  | comp => FitsOrder beyond comp left right

variable (beyond) in
/-- When `try_get_value` gives the same answer. -/
def FitsTry (comp : CompOp) (left right : Value (RoundedFloat r)) : Prop :=
  match comp with
  | .likeOp | .notLikeOp => left.isNull = true ∨ right.isNull = true
  | .inValueList | .notInValueList => FitsTryIn beyond comp left right
  | _ => True

theorem answers_iff [LawfulStrLike (RoundedFloat r)] (hoperands : Operands comp left operand) :
    Answers (ComparisonExpr.evalComp comp left operand) (sqlResult beyond comp left operand) ↔
      FitsGet beyond comp left operand := by
  cases comp with
  | noOp => cases hoperands
  | isNull =>
    obtain ⟨rfl, hleft⟩ := hoperands
    exact answers_null (Or.inl rfl) hleft
  | isNot =>
    obtain ⟨rfl, hleft⟩ := hoperands
    exact answers_null (Or.inr rfl) hleft
  | likeOp => exact answers_like (Or.inl rfl) hoperands.1 hoperands.2
  | notLikeOp => exact answers_like (Or.inr rfl) hoperands.1 hoperands.2
  | inValueList =>
    obtain ⟨hlist, hleft, hright⟩ := hoperands
    rw [eq_list_of_rows hlist rfl] at hright ⊢
    exact answers_in (Or.inl rfl) hleft hright
  | notInValueList =>
    obtain ⟨hlist, hleft, hright⟩ := hoperands
    rw [eq_list_of_rows hlist rfl] at hright ⊢
    exact answers_in (Or.inr rfl) hleft hright
  | _ => exact answers_order rfl hoperands.1 hoperands.2

theorem try_iff [LawfulStrLike (RoundedFloat r)] (hoperands : Operands comp left operand)
    (hfits : FitsGet beyond comp left operand)
    (hget : ComparisonExpr.evalComp comp left operand ≠ .error .abort) :
    ComparisonExpr.compareValue comp left operand = ComparisonExpr.evalComp comp left operand ↔
      FitsTry beyond comp left operand := by
  cases comp with
  | likeOp => exact try_like (Or.inl rfl) hoperands.1 hoperands.2 hfits
  | notLikeOp => exact try_like (Or.inr rfl) hoperands.1 hoperands.2 hfits
  | inValueList =>
    obtain ⟨hlist, hleft, hright⟩ := hoperands
    rw [eq_list_of_rows hlist rfl] at hright hget ⊢
    exact fitsTryIn_iff (Or.inl rfl) hleft hright hget
  | notInValueList =>
    obtain ⟨hlist, hleft, hright⟩ := hoperands
    rw [eq_list_of_rows hlist rfl] at hright hget ⊢
    exact fitsTryIn_iff (Or.inr rfl) hleft hright hget
  | _ => exact iff_of_true rfl trivial

/-- The value of a comparison is the boolean of its answer. -/
def GivesTruth (result : Except Fault (Value (RoundedFloat r))) (truth : Option Truth) : Prop :=
  ∃ answer, result = answer.map .booleans ∧ Answers answer truth

end

section

variable {r : Rounding}

theorem map_booleans_inj {result result' : Except Fault Bool}
    (h : result.map (Value.booleans (F := RoundedFloat r)) = result'.map .booleans) :
    result = result' := by
  cases result with
  | error fault =>
    cases result' with
    | error fault' =>
      cases h
      rfl
    | ok b => cases h
  | ok b =>
    cases result' with
    | error fault' => cases h
    | ok b' =>
      cases h
      rfl

variable {O : Type} [StrLike (RoundedFloat r)] {comp : CompOp}
  {left right : Expression (RoundedFloat r) O} {value operand : Value (RoundedFloat r)}

theorem getValue_comparison {cells : Cells (RoundedFloat r) O}
    (hleft : left.getValue cells = .ok value) (hright : right.getValue cells = .ok operand) :
    (Expression.comparison comp left right).getValue cells =
      (ComparisonExpr.evalComp comp value operand).map .booleans := by
  rw [Expression.getValue, hleft, hright]
  rfl

/-- `get_value` gives what SQL does, and `try_get_value` on two constants the same. -/
def Compares (beyond : Value (RoundedFloat r) → Value (RoundedFloat r) → Int) (comp : CompOp)
    (left right : Expression (RoundedFloat r) O) (cells : Cells (RoundedFloat r) O)
    (value operand : Value (RoundedFloat r)) : Prop :=
  GivesTruth ((Expression.comparison comp left right).getValue cells)
      (sqlResult beyond comp value operand) ∧
    (left = .value value → right = .value operand →
      ComparisonExpr.tryGetValue comp left right =
        (Expression.comparison comp left right).getValue cells)

/-- A comparison whose operands have a value. -/
theorem compares_iff [LawfulStrLike (RoundedFloat r)]
    (beyond : Value (RoundedFloat r) → Value (RoundedFloat r) → Int)
    (cells : Cells (RoundedFloat r) O) (hleft : left.getValue cells = .ok value)
    (hright : right.getValue cells = .ok operand) (hoperands : Operands comp value operand) :
    Compares beyond comp left right cells value operand ↔
      FitsGet beyond comp value operand ∧
        (left = .value value → right = .value operand → FitsTry beyond comp value operand) := by
  have hget : (Expression.comparison comp left right).getValue cells =
      (ComparisonExpr.evalComp comp value operand).map .booleans :=
    getValue_comparison hleft hright
  have hgives : GivesTruth ((Expression.comparison comp left right).getValue cells)
      (sqlResult beyond comp value operand) ↔ FitsGet beyond comp value operand := by
    rw [hget, ← answers_iff hoperands]
    constructor
    · intro ⟨answer, heq, h⟩
      rwa [map_booleans_inj heq]
    · exact fun h => ⟨_, rfl, h⟩
  unfold Compares
  rw [hgives, hget]
  refine and_congr_right fun hfits => imp_congr_right fun hl => imp_congr_right fun hr => ?_
  have habort : ComparisonExpr.evalComp comp value operand ≠ .error .abort := by
    have hanswers := (answers_iff hoperands).mpr hfits
    intro h
    rw [h] at hanswers
    exact not_answers_abort _ hanswers
  rw [← try_iff hoperands hfits habort, hl, hr]
  exact ⟨map_booleans_inj, congrArg (Except.map Value.booleans)⟩

end

/-- A tuple without columns. -/
def noCells : Cells (RoundedFloat .exact) Empty where
  findCell _ := .error (.rc .notFound)
  other o := nomatch o

/-- A tuple whose columns are all 2. -/
def twos : Cells (RoundedFloat .exact) Empty where
  findCell _ := .ok (.ints 2)
  other o := nomatch o

/-- `a IN (1, NULL, 2)` where `a` is 2. -/
theorem compares_twos : Compares (fun _ _ => 0) .inValueList
    (.field ⟨"t", "a", "t"⟩ : Expression (RoundedFloat .exact) Empty)
    (.value (.valuesLists [.ints 1, .nulls, .ints 2])) twos (.ints 2)
    (.valuesLists [.ints 1, .nulls, .ints 2]) := by
  have hoperands : Operands .inValueList (.ints 2 : Value (RoundedFloat .exact))
      (.valuesLists [.ints 1, .nulls, .ints 2]) := ⟨rfl, by decide, by decide⟩
  apply (compares_iff (fun _ _ => 0) twos rfl rfl hoperands).mpr
  refine ⟨⟨fun h => absurd h (by decide), ?_⟩, nofun⟩
  intro value truth hscalar htruth
  cases hscalar
  cases htruth
  -- the comparison with NULL is unknown, and the last member decides
  refine ⟨[.ints 1, .nulls], .ints 2, [], rfl, rfl, ?_⟩
  intro member hmember
  rcases List.mem_pair.mp hmember with rfl | rfl <;> rfl

/-- `get_value` finds the first member, and `try_get_value` refuses the list. -/
theorem not_compares_members : ¬ ∀ (comp : CompOp)
    (left right : Expression (RoundedFloat .exact) Empty)
    (cells : Cells (RoundedFloat .exact) Empty) (value operand : Value (RoundedFloat .exact)),
    left.getValue cells = .ok value → right.getValue cells = .ok operand →
    Operands comp value operand → Compares (fun _ _ => 0) comp left right cells value operand := by
  intro h
  have hcompares := h .inValueList (.value (.ints 1)) (.value (.valuesLists [.ints 1, .ints 2]))
    noCells (.ints 1) (.valuesLists [.ints 1, .ints 2]) rfl rfl
    ⟨rfl, by decide, by decide⟩
  have hsame := hcompares.2 rfl rfl
  have hget : (Expression.comparison .inValueList (.value (.ints 1))
      (.value (.valuesLists [.ints 1, .ints 2])) :
        Expression (RoundedFloat .exact) Empty).getValue noCells =
      .ok (.booleans true) := rfl
  rw [hget] at hsame
  cases hsame

end Sql

end ObHtap
