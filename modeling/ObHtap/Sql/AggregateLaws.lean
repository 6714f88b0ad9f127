import Mathlib.Algebra.BigOperators.Group.List.Basic
import Mathlib.Tactic.Linarith
import Mathlib.Tactic.NormNum
import ObHtap.Library.BestOf
import ObHtap.Sql.Aggregator

/-!
# The laws of the aggregate functions

What an aggregate function should make of values in any order and with `NULL` among them, and when
it does.  `SumAggregator` and `AvgAggregator` compare the types of two values before they ask for
`NULL`; the others only depend on what `Value::compare` says.
-/

namespace ObHtap

namespace Sql

namespace Aggregator

open BestOf

/-- The values that are not `NULL`. -/
def nonNull (values : List (Value ℚ)) : List (Value ℚ) :=
  values.filter fun value => !value.isNull

/-- The result of an aggregate function on values in their order. -/
def run (aggregateType : AggregateType) (values : List (Value ℚ)) : Except Fault (Value ℚ) := do
  let aggregator ← values.foldlM accumulate (create aggregateType)
  let (result, _) ← aggregator.evaluate
  .ok result

/-- The sum and the average of integers are exact. -/
def Exact (aggregateType : AggregateType) (values : List (Value ℚ)) (result : Value ℚ) : Prop :=
  ∀ xs : List Int32, xs ≠ [] → nonNull values = xs.map .ints →
    (aggregateType = .sum →
      ∃ sum : Int32, result = .ints sum ∧ sum.toInt = (xs.map Int32.toInt).sum) ∧
    (aggregateType = .avg → result = .floats ((xs.map Int32.toInt).sum / xs.length))

/-- The result is that of the values without `NULL`, in every order. -/
structure Gives (aggregateType : AggregateType) (values : List (Value ℚ)) (result : Value ℚ) :
    Prop where
  perm : ∀ values', values'.Perm values → run aggregateType values' = .ok result
  withoutNulls : run aggregateType (nonNull values) = .ok result
  empty : nonNull values = [] → result = if aggregateType = .count then .ints 0 else .nulls
  exact : Exact aggregateType values result

/-- The values are of one type but for those that are `NULL`, and those that are added are
numbers. -/
structure OneType (aggregateType : AggregateType) (type : AttrType) (values : List (Value ℚ)) :
    Prop where
  same : ∀ value ∈ nonNull values, value.attrType = type
  known : type ≠ .undefined
  numeric : aggregateType = .sum ∨ aggregateType = .avg → type = .ints ∨ type = .floats

/-- No sum of some of the values and no number of them is beyond an `int`. -/
structure NoOverflow (values : List (Value ℚ)) : Prop where
  sum : ∀ part : List Int32, (part.map Value.ints).Subperm values →
    -2147483648 ≤ (part.map Int32.toInt).sum ∧ (part.map Int32.toInt).sum ≤ 2147483647
  count : (nonNull values).length ≤ 2147483647

/-- A value takes the place of another as the maximum or minimum. -/
def better (aggregateType : AggregateType) (value value' : Value ℚ) : Except Fault Bool :=
  (value.compare value').map fun cmpResult =>
    if aggregateType = .max then decide (0 < cmpResult) else decide (cmpResult < 0)

/-- For a sum or an average there are only values that are `NULL`, or none.  For a maximum or a
minimum all values can be compared, and one of them is above or below all that differ from it. -/
def Steady (aggregateType : AggregateType) (values : List (Value ℚ)) : Prop :=
  match aggregateType with
  | .count => True
  | .sum | .avg => nonNull values = [] ∨ nonNull values = values
  | .max | .min => nonNull values = [] ∨
      Compares (better aggregateType) (nonNull values) ∧
        ∃ value, Singles (better aggregateType) (nonNull values) value

variable {aggregateType : AggregateType} {type : AttrType} {values values' : List (Value ℚ)}
  {value cur result : Value ℚ} {n : Int}

/-! ## Values that are not `NULL` -/

theorem mem_nonNull : value ∈ nonNull values ↔ value ∈ values ∧ value.isNull = false := by
  unfold nonNull
  rw [List.mem_filter, Bool.not_eq_true']

theorem nonNull_of_null (h : value.isNull = true) : nonNull (value :: values) = nonNull values :=
  List.filter_cons_of_neg (by rw [h]; exact Bool.false_ne_true)

theorem nonNull_of_not_null (h : value.isNull = false) :
    nonNull (value :: values) = value :: nonNull values :=
  List.filter_cons_of_pos (by rw [h]; rfl)

@[simp] theorem nonNull_nonNull (values : List (Value ℚ)) :
    nonNull (nonNull values) = nonNull values := by
  unfold nonNull
  rw [List.filter_filter]
  simp

theorem nonNull_perm (h : values'.Perm values) : (nonNull values').Perm (nonNull values) :=
  h.filter _

/-- An order of the values that are not `NULL`, with those that are behind them. -/
theorem perm_of_nonNull (h : values'.Perm (nonNull values)) :
    (values' ++ values.filter Value.isNull).Perm values := by
  have hsplit := List.filter_append_perm (fun value : Value ℚ => !value.isNull) values
  simp only [Bool.not_not] at hsplit
  exact (h.append_right _).trans hsplit

theorem attrType_of_isNull (h : value.isNull = true) : value = .nulls := by
  cases value with
  | nulls => rfl
  | _ => cases h

/-! ## Count -/

theorem foldlM_count {c : Int32} (hcount : c.toInt + (nonNull values).length ≤ 2147483647)
    (hpos : 0 ≤ c.toInt) :
    values.foldlM accumulate ⟨.count, .ints c, n⟩ =
      .ok ⟨.count, .ints (.ofInt (c.toInt + (nonNull values).length)), n⟩ := by
  induction values generalizing c with
  | nil =>
    simp [nonNull]
    rfl
  | cons value values ih =>
    rw [List.foldlM_cons]
    cases hnull : value.isNull with
    | true =>
      rw [nonNull_of_null hnull] at hcount ⊢
      have hstep : accumulate ⟨.count, .ints c, n⟩ value = .ok ⟨.count, .ints c, n⟩ := by
        simp [accumulate, hnull, Value.attrType]
      rw [hstep]
      exact ih hcount hpos
    | false =>
      rw [nonNull_of_not_null hnull, List.length_cons] at hcount ⊢
      have hone : (.ofInt (c.toInt + 1) : Int32).toInt = c.toInt + 1 :=
        Int32.toInt_ofInt_of_le (by omega) (by omega)
      have hstep : accumulate ⟨.count, .ints c, n⟩ value =
          .ok ⟨.count, .ints (.ofInt (c.toInt + 1)), n⟩ := by
        have hrange : -2147483648 ≤ c.toInt + 1 ∧ c.toInt + 1 ≤ 2147483647 := by omega
        simp only [accumulate, hnull, Value.attrType]
        simp [Value.add, Value.arithmetic, Value.isNull, Value.attrType, Value.getInt,
          Value.checkedInt, hrange]
        rfl
      rw [hstep]
      have hrest := ih (c := .ofInt (c.toInt + 1)) (by rw [hone]; omega) (by rw [hone]; omega)
      rw [hone] at hrest
      refine hrest.trans ?_
      rw [Int.add_assoc, Nat.cast_add, Int.add_comm 1]
      rfl

theorem run_count (hcount : (nonNull values).length ≤ 2147483647) :
    run .count values = .ok (.ints (.ofInt (nonNull values).length)) := by
  cases values with
  | nil => rfl
  | cons value values =>
    -- the first value sets the counter to zero, before it counts
    have hfirst : accumulate (create .count) value = accumulate ⟨.count, .ints 0, 0⟩ value := rfl
    unfold run
    rw [List.foldlM_cons, hfirst, ← List.foldlM_cons]
    rw [foldlM_count (by simpa using hcount) (by decide)]
    change Except.ok (Value.ints (.ofInt ((0 : Int32).toInt + _))) = _
    rw [show (0 : Int32).toInt = 0 from rfl, Int.zero_add]

/-! ## Maximum and minimum -/

/-- The functions that keep one of the values. -/
def Keeps (aggregateType : AggregateType) : Prop :=
  aggregateType = .max ∨ aggregateType = .min

theorem accumulate_null (hkeeps : Keeps aggregateType) (hcur : cur.attrType = type)
    (hknown : type ≠ .undefined) :
    accumulate ⟨aggregateType, cur, n⟩ .nulls = .ok ⟨aggregateType, cur, n⟩ := by
  subst hcur
  cases cur with
  | undefined => exact absurd rfl hknown
  | _ => rcases hkeeps with rfl | rfl <;> rfl

theorem accumulate_choose (hkeeps : Keeps aggregateType) (hcur : cur.attrType = type)
    (hvalue : value.attrType = type) (hknown : type ≠ .undefined) (hnull : value.isNull = false) :
    accumulate ⟨aggregateType, cur, n⟩ value =
      (choose (better aggregateType) cur value).map (⟨aggregateType, ·, n⟩) := by
  have hsome : hasNoValue ⟨aggregateType, cur, n⟩ = false := by
    unfold hasNoValue
    unfold Value.isNull at hnull
    simp_all
  have hsame : ¬ value.attrType ≠ cur.attrType := not_not.mpr (hvalue.trans hcur.symm)
  unfold choose better
  rcases hkeeps with rfl | rfl
  · unfold accumulate
    dsimp only
    rw [hsome, hnull, if_neg Bool.false_ne_true, if_neg Bool.false_ne_true, if_neg hsame]
    cases value.compare cur with
    | error fault => rfl
    | ok cmpResult => by_cases hpos : 0 < cmpResult <;> simp [hpos, Except.map, bind, Except.bind]
  · unfold accumulate
    dsimp only
    rw [hsome, hnull, if_neg Bool.false_ne_true, if_neg Bool.false_ne_true]
    cases value.compare cur with
    | error fault => rfl
    | ok cmpResult => by_cases hneg : cmpResult < 0 <;> simp [hneg, Except.map, bind, Except.bind]

theorem foldlM_keeps (hkeeps : Keeps aggregateType) (hknown : type ≠ .undefined)
    (hcur : cur.attrType = type) (hsame : ∀ value ∈ nonNull values, value.attrType = type) :
    values.foldlM accumulate ⟨aggregateType, cur, n⟩ =
      (bestOf (better aggregateType) cur (nonNull values)).map (⟨aggregateType, ·, n⟩) := by
  induction values generalizing cur with
  | nil => rfl
  | cons value values ih =>
    rw [List.foldlM_cons]
    cases hnull : value.isNull with
    | true =>
      obtain rfl := attrType_of_isNull hnull
      rw [nonNull_of_null hnull] at hsame ⊢
      rw [accumulate_null hkeeps hcur hknown]
      exact ih hcur hsame
    | false =>
      rw [nonNull_of_not_null hnull] at hsame ⊢
      have hvalue := hsame value List.mem_cons_self
      rw [accumulate_choose hkeeps hcur hvalue hknown hnull, bestOf_cons]
      cases hchoose : choose (better aggregateType) cur value with
      | error fault => rfl
      | ok best =>
        refine ih ?_ fun value' hmem => hsame value' (List.mem_cons_of_mem value hmem)
        obtain ⟨isBetter, -, rfl⟩ := choose_eq_ok hchoose
        split
        · exact hvalue
        · exact hcur

theorem accumulate_first (hkeeps : Keeps aggregateType) (hcur : cur = .undefined ∨ cur = .nulls) :
    accumulate ⟨aggregateType, cur, n⟩ value = .ok ⟨aggregateType, value, n⟩ := by
  rcases hcur with rfl | rfl <;> rcases hkeeps with rfl | rfl <;> rfl

theorem evaluate_keeps (hkeeps : Keeps aggregateType) (hvalue : value.attrType ≠ .undefined) :
    evaluate ⟨aggregateType, value, n⟩ = .ok (value, ⟨aggregateType, value, n⟩) := by
  unfold evaluate
  rcases hkeeps with rfl | rfl <;> rw [if_neg hvalue]

/-- The maximum or minimum of no value, and of a first value and the rest. -/
def keptOf (aggregateType : AggregateType) : List (Value ℚ) → Except Fault (Value ℚ)
  | [] => .ok .nulls
  | value :: values => bestOf (better aggregateType) value values

theorem run_keeps_from (hkeeps : Keeps aggregateType) (h : OneType aggregateType type values)
    (hcur : cur = .undefined ∨ cur = .nulls) :
    (do
      let aggregator ← values.foldlM accumulate ⟨aggregateType, cur, 0⟩
      let (result, _) ← aggregator.evaluate
      .ok result) = keptOf aggregateType (nonNull values) := by
  induction values generalizing cur with
  | nil =>
    rcases hcur with rfl | rfl <;> rcases hkeeps with rfl | rfl <;> rfl
  | cons value values ih =>
    rw [List.foldlM_cons, accumulate_first hkeeps hcur]
    cases hnull : value.isNull with
    | true =>
      obtain rfl := attrType_of_isNull hnull
      rw [nonNull_of_null hnull]
      exact ih ⟨fun value hmem => h.same value (by rwa [nonNull_of_null hnull]), h.known, h.numeric⟩
        (Or.inr rfl)
    | false =>
      have hsame := h.same
      rw [nonNull_of_not_null hnull] at hsame ⊢
      have hvalue := hsame value List.mem_cons_self
      have hfold := @foldlM_keeps _ _ _ _ 0 hkeeps h.known hvalue
        fun value' hmem => hsame value' (List.mem_cons_of_mem value hmem)
      change (values.foldlM accumulate ⟨aggregateType, value, 0⟩ >>= _) = _
      rw [hfold]
      cases hbest : bestOf (better aggregateType) value (nonNull values) with
      | error fault =>
        rw [keptOf, hbest]
        rfl
      | ok best =>
        have htype : best.attrType ≠ .undefined := by
          rw [hsame best (mem_of_bestOf hbest)]
          exact h.known
        rw [keptOf, hbest]
        change (evaluate ⟨aggregateType, best, 0⟩ >>= _) = _
        rw [evaluate_keeps hkeeps htype]
        rfl

theorem run_keeps (hkeeps : Keeps aggregateType) (h : OneType aggregateType type values) :
    run aggregateType values = keptOf aggregateType (nonNull values) :=
  run_keeps_from hkeeps h (Or.inl rfl)

/-! ## Sum and average -/

/-- The functions that add the values up. -/
def Adds (aggregateType : AggregateType) : Prop :=
  aggregateType = .sum ∨ aggregateType = .avg

/-- The number of values that `count` of `AvgAggregator` has counted. -/
def counted (aggregateType : AggregateType) (n : Int) (values : Nat) : Int :=
  if aggregateType = .avg then n + values else n

theorem accumulate_ints (hadds : Adds aggregateType) {s x : Int32}
    (hrange : -2147483648 ≤ s.toInt + x.toInt ∧ s.toInt + x.toInt ≤ 2147483647) :
    accumulate ⟨aggregateType, .ints s, n⟩ (.ints x : Value ℚ) =
      .ok ⟨aggregateType, .ints (.ofInt (s.toInt + x.toInt)), counted aggregateType n 1⟩ := by
  have hadd : addValue ⟨aggregateType, .ints s, n⟩ (.ints x : Value ℚ) =
      .ok ⟨aggregateType, .ints (.ofInt (s.toInt + x.toInt)), n⟩ := by
    have hsum : Value.add .ints (.ints x) (.ints s : Value ℚ) =
        .ok (.ints (.ofInt (s.toInt + x.toInt))) := by
      change (Value.checkedInt (x.toInt + s.toInt)).map Value.ints = _
      rw [Int.add_comm, Value.checkedInt, if_pos hrange]
      rfl
    unfold addValue
    dsimp only [Value.attrType]
    rw [hsum]
  rcases hadds with rfl | rfl
  · exact hadd
  · change (addValue ⟨.avg, .ints s, n⟩ (.ints x) >>= _) = _
    rw [hadd]
    rfl

theorem accumulate_floats (hadds : Adds aggregateType) (s x : ℚ) :
    accumulate ⟨aggregateType, .floats s, n⟩ (.floats x) =
      .ok ⟨aggregateType, .floats (s + x), counted aggregateType n 1⟩ := by
  rw [add_comm]
  rcases hadds with rfl | rfl <;> rfl

theorem counted_counted (m k : Nat) :
    counted aggregateType (counted aggregateType n m) k = counted aggregateType n (m + k) := by
  unfold counted
  split
  · rw [Int.add_assoc, Nat.cast_add]
  · rfl

/-- By induction on the list: what has been added up so far, and the sums of what comes next are
those of the parts of the list from its front. -/
theorem foldlM_ints (hadds : Adds aggregateType) {s : Int32} {xs : List Int32}
    (hrange : ∀ front, front <+: xs → -2147483648 ≤ s.toInt + (front.map Int32.toInt).sum ∧
      s.toInt + (front.map Int32.toInt).sum ≤ 2147483647) :
    (xs.map Value.ints).foldlM accumulate ⟨aggregateType, (.ints s : Value ℚ), n⟩ =
      .ok ⟨aggregateType, .ints (.ofInt (s.toInt + (xs.map Int32.toInt).sum)),
        counted aggregateType n xs.length⟩ := by
  induction xs generalizing s n with
  | nil =>
    have hnone : counted aggregateType n 0 = n := by
      unfold counted
      simp
    simp [hnone]
    rfl
  | cons x xs ih =>
    have hone := hrange [x] (List.prefix_append [x] xs)
    simp only [List.map_cons, List.map_nil, List.sum_cons, List.sum_nil, add_zero] at hone
    have hsum : (.ofInt (s.toInt + x.toInt) : Int32).toInt = s.toInt + x.toInt :=
      Int32.toInt_ofInt_of_le hone.1 (by omega)
    rw [List.map_cons, List.foldlM_cons, accumulate_ints hadds hone]
    refine (ih ?_).trans ?_
    · intro front hfront
      have hnext := hrange (x :: front) (List.prefix_cons_inj x |>.mpr hfront)
      rw [List.map_cons, List.sum_cons, ← add_assoc] at hnext
      rwa [hsum]
    · rw [hsum, counted_counted, List.map_cons, List.sum_cons, List.length_cons, add_assoc,
        Nat.add_comm]

theorem foldlM_floats (hadds : Adds aggregateType) (s : ℚ) (xs : List ℚ) :
    (xs.map Value.floats).foldlM accumulate ⟨aggregateType, .floats s, n⟩ =
      .ok ⟨aggregateType, .floats (s + xs.sum), counted aggregateType n xs.length⟩ := by
  induction xs generalizing s n with
  | nil =>
    have hnone : counted aggregateType n 0 = n := by
      unfold counted
      simp
    simp [hnone]
    rfl
  | cons x xs ih =>
    rw [List.map_cons, List.foldlM_cons, accumulate_floats hadds]
    refine (ih (s + x)).trans ?_
    rw [counted_counted, List.sum_cons, List.length_cons, add_assoc, Nat.add_comm]

/-- The result for integers. -/
def ofInts (aggregateType : AggregateType) (xs : List Int32) : Value ℚ :=
  if aggregateType = .avg then .floats ((xs.map Int32.toInt).sum / xs.length)
  else .ints (.ofInt (xs.map Int32.toInt).sum)

/-- The result for floats. -/
def ofFloats (aggregateType : AggregateType) (xs : List ℚ) : Value ℚ :=
  .floats (if aggregateType = .avg then xs.sum / xs.length else xs.sum)

theorem divide_count (x : ℚ) {k : Nat} (hpos : 0 < k) :
    Value.divide .floats (.floats x) (.floats (Floats.ofInt (k : Int))) =
      .ok (.floats (x / k) : Value ℚ) := by
  have hone : (1 : ℚ) ≤ k := Nat.one_le_cast.mpr hpos
  have hfar : ¬ (Floats.lt (-Floats.epsilon) (k : ℚ) = true ∧
      Floats.lt (k : ℚ) Floats.epsilon = true) := by
    rintro ⟨-, hsmall⟩
    have hlt : (k : ℚ) < 1 / 1000000 := of_decide_eq_true hsmall
    norm_num at hlt
    linarith
  have hnull : ¬ ((Value.floats x).isNull = true ∨
      (Value.floats (Floats.ofInt (k : Int)) : Value ℚ).isNull = true) := by
    rintro (hnull | hnull) <;> cases hnull
  unfold Value.divide
  dsimp only
  rw [if_neg hnull]
  change (if Floats.lt (-Floats.epsilon) ((k : Int) : ℚ) = true ∧
    Floats.lt ((k : Int) : ℚ) Floats.epsilon = true then _ else _) = _
  rw [Int.cast_natCast, if_neg hfar]
  change Except.ok (Value.floats (x / ((k : Int) : ℚ))) = _
  rw [Int.cast_natCast]

theorem average_floats (x : ℚ) {k : Nat} (hpos : 0 < k) :
    average (.floats x) k = .ok (.floats (x / k) : Value ℚ) := by
  unfold average
  dsimp only [Value.attrType]
  rw [divide_count x hpos]

theorem average_ints (s : Int32) {k : Nat} (hpos : 0 < k) :
    average (.ints s) k = .ok (.floats (s.toInt / k) : Value ℚ) := by
  unfold average
  dsimp only [Value.attrType]
  rw [show (Floats.ofInt s.toInt : ℚ) = (s.toInt : ℚ) from rfl, divide_count _ hpos]

theorem evaluate_avg {k : Int} (h : hasNoValue ⟨.avg, value, k⟩ = false) :
    (evaluate ⟨.avg, value, k⟩).map Prod.fst = average value k := by
  unfold evaluate
  dsimp only
  rw [h, if_neg Bool.false_ne_true]
  cases average value k <;> rfl

theorem map_fst_eq {x : Except Fault (Value ℚ × Aggregator ℚ)} (h : x.map Prod.fst = .ok result) :
    (do
      let (value, _) ← x
      .ok value) = Except.ok result := by
  cases x with
  | error fault => cases h
  | ok r => exact h

theorem evaluate_ints (hadds : Adds aggregateType) {s : Int32} {xs : List Int32} (hpos : xs ≠ [])
    (hs : s.toInt = (xs.map Int32.toInt).sum) :
    (evaluate ⟨aggregateType, (.ints s : Value ℚ), counted aggregateType 0 xs.length⟩).map
      Prod.fst = .ok (ofInts aggregateType xs) := by
  rcases hadds with rfl | rfl
  · have hofInt : s = .ofInt (xs.map Int32.toInt).sum := by
      rw [← hs, Int32.ofInt_toInt]
    exact congrArg (fun v => Except.ok (Value.ints v)) hofInt
  · have hcount : counted .avg 0 xs.length = xs.length := by
      unfold counted
      rw [if_pos rfl, zero_add]
    rw [hcount, evaluate_avg rfl, average_ints s (List.length_pos_iff.mpr hpos), hs]
    rfl

theorem evaluate_floats (hadds : Adds aggregateType) {xs : List ℚ} (hpos : xs ≠ []) :
    (evaluate ⟨aggregateType, .floats xs.sum, counted aggregateType 0 xs.length⟩).map
      Prod.fst = .ok (ofFloats aggregateType xs) := by
  rcases hadds with rfl | rfl
  · rfl
  · have hcount : counted .avg 0 xs.length = xs.length := by
      unfold counted
      rw [if_pos rfl, zero_add]
    rw [hcount, evaluate_avg rfl, average_floats _ (List.length_pos_iff.mpr hpos)]
    rfl

theorem run_ints (hadds : Adds aggregateType) {xs : List Int32} (hpos : xs ≠ [])
    (hrange : ∀ front, front <+: xs → -2147483648 ≤ (front.map Int32.toInt).sum ∧
      (front.map Int32.toInt).sum ≤ 2147483647) :
    run aggregateType (xs.map Value.ints) = .ok (ofInts aggregateType xs) := by
  cases xs with
  | nil => exact absurd rfl hpos
  | cons x xs =>
    have hfirst : accumulate (create aggregateType) (.ints x : Value ℚ) =
        .ok ⟨aggregateType, .ints x, counted aggregateType 0 1⟩ := by
      rcases hadds with rfl | rfl <;> rfl
    have hfold := @foldlM_ints _ (counted aggregateType 0 1) hadds x xs fun front hfront => by
      have hnext := hrange (x :: front) ((List.prefix_cons_inj x).mpr hfront)
      rwa [List.map_cons, List.sum_cons] at hnext
    have hall := hrange (x :: xs) (List.prefix_refl _)
    rw [List.map_cons, List.sum_cons] at hall
    have hevaluate := evaluate_ints hadds hpos (s := .ofInt (x.toInt + (xs.map Int32.toInt).sum))
      (by rw [Int32.toInt_ofInt_of_le hall.1 (by omega), List.map_cons, List.sum_cons])
    unfold run
    rw [List.map_cons, List.foldlM_cons, hfirst]
    change (List.foldlM accumulate _ (xs.map Value.ints) >>= _) = _
    rw [hfold, counted_counted, Nat.add_comm 1]
    exact map_fst_eq hevaluate

theorem run_floats (hadds : Adds aggregateType) {xs : List ℚ} (hpos : xs ≠ []) :
    run aggregateType (xs.map Value.floats) = .ok (ofFloats aggregateType xs) := by
  cases xs with
  | nil => exact absurd rfl hpos
  | cons x xs =>
    have hfirst : accumulate (create aggregateType) (.floats x) =
        .ok ⟨aggregateType, .floats x, counted aggregateType 0 1⟩ := by
      rcases hadds with rfl | rfl <;> rfl
    have hfold := @foldlM_floats _ (counted aggregateType 0 1) hadds x xs
    have hevaluate := evaluate_floats hadds hpos
    unfold run
    rw [List.map_cons, List.foldlM_cons, hfirst]
    change (List.foldlM accumulate _ (xs.map Value.floats) >>= _) = _
    rw [hfold, counted_counted, Nat.add_comm 1]
    exact map_fst_eq hevaluate

/-- Values that are all `NULL` leave a function that adds without a value. -/
theorem foldlM_nulls (hadds : Adds aggregateType) (hcur : cur = .undefined ∨ cur = .nulls)
    (h : nonNull values = []) :
    (do
      let aggregator ← values.foldlM accumulate ⟨aggregateType, cur, 0⟩
      let (result, _) ← aggregator.evaluate
      .ok result) = Except.ok (Value.nulls : Value ℚ) := by
  induction values generalizing cur with
  | nil => rcases hcur with rfl | rfl <;> rcases hadds with rfl | rfl <;> rfl
  | cons value values ih =>
    cases hnull : value.isNull with
    | false =>
      rw [nonNull_of_not_null hnull] at h
      cases h
    | true =>
      obtain rfl := attrType_of_isNull hnull
      rw [nonNull_of_null hnull] at h
      have hstep : accumulate ⟨aggregateType, cur, 0⟩ .nulls = .ok ⟨aggregateType, .nulls, 0⟩ := by
        rcases hcur with rfl | rfl <;> rcases hadds with rfl | rfl <;> rfl
      rw [List.foldlM_cons, hstep]
      exact ih (Or.inr rfl) h

theorem run_nulls (hadds : Adds aggregateType) (h : nonNull values = []) :
    run aggregateType values = .ok .nulls :=
  foldlM_nulls hadds (Or.inl rfl) h

/-- A `NULL` behind a number that is added up fails the `ASSERT`. -/
theorem run_null_after (hadds : Adds aggregateType)
    (hnumeric : value.attrType = .ints ∨ value.attrType = .floats) :
    run aggregateType (value :: .nulls :: values) = .error .abort := by
  cases value with
  | ints v => rcases hadds with rfl | rfl <;> rfl
  | floats v => rcases hadds with rfl | rfl <;> rfl
  | _ => rcases hnumeric with h | h <;> cases h

/-! ## The law -/

theorem exists_ints (h : ∀ value ∈ values, value.attrType = .ints) :
    ∃ xs : List Int32, values = xs.map .ints := by
  induction values with
  | nil => exact ⟨[], rfl⟩
  | cons value values ih =>
    obtain ⟨xs, rfl⟩ := ih fun value' hmem => h value' (List.mem_cons_of_mem value hmem)
    cases value with
    | ints v => exact ⟨v :: xs, rfl⟩
    | _ => cases h _ List.mem_cons_self

theorem exists_floats (h : ∀ value ∈ values, value.attrType = .floats) :
    ∃ xs : List ℚ, values = xs.map .floats := by
  induction values with
  | nil => exact ⟨[], rfl⟩
  | cons value values ih =>
    obtain ⟨xs, rfl⟩ := ih fun value' hmem => h value' (List.mem_cons_of_mem value hmem)
    cases value with
    | floats v => exact ⟨v :: xs, rfl⟩
    | _ => cases h _ List.mem_cons_self

theorem ints_injective : Function.Injective (Value.ints : Int32 → Value ℚ) := by
  rintro x y ⟨⟩
  rfl

theorem ofInts_perm {xs xs' : List Int32} (h : xs'.Perm xs) :
    ofInts aggregateType xs' = ofInts aggregateType xs := by
  unfold ofInts
  rw [(h.map Int32.toInt).sum_eq, h.length_eq]

theorem ofFloats_perm {xs xs' : List ℚ} (h : xs'.Perm xs) :
    ofFloats aggregateType xs' = ofFloats aggregateType xs := by
  unfold ofFloats
  rw [h.sum_eq, h.length_eq]

/-- The integers are added up without an overflow, in every order. -/
theorem run_ints_perm (hadds : Adds aggregateType) (hrange : NoOverflow values) {xs : List Int32}
    (hpos : xs ≠ []) (hvalues : values = xs.map .ints) (hperm : values'.Perm values) :
    run aggregateType values' = .ok (ofInts aggregateType xs) := by
  subst hvalues
  obtain ⟨xs', rfl⟩ := @exists_ints values' fun value hmem => by
    obtain ⟨x, -, rfl⟩ := List.mem_map.mp (hperm.mem_iff.mp hmem)
    rfl
  have hperm' := (List.map_perm_map_iff ints_injective).mp hperm
  have hpos' : xs' ≠ [] := fun hnil => hpos (List.nil_perm.mp (hnil ▸ hperm'))
  rw [← ofInts_perm hperm']
  refine run_ints hadds hpos' fun front hfront => hrange.sum front ?_
  exact (hfront.sublist.map Value.ints).subperm.trans hperm.subperm

theorem run_floats_perm (hadds : Adds aggregateType) {xs : List ℚ} (hpos : xs ≠ [])
    (hvalues : values = xs.map .floats) (hperm : values'.Perm values) :
    run aggregateType values' = .ok (ofFloats aggregateType xs) := by
  subst hvalues
  obtain ⟨xs', rfl⟩ := @exists_floats values' fun value hmem => by
    obtain ⟨x, -, rfl⟩ := List.mem_map.mp (hperm.mem_iff.mp hmem)
    rfl
  have hinj : Function.Injective (Value.floats : ℚ → Value ℚ) := by
    rintro x y ⟨⟩
    rfl
  have hperm' := (List.map_perm_map_iff hinj).mp hperm
  have hpos' : xs' ≠ [] := fun hnil => hpos (List.nil_perm.mp (hnil ▸ hperm'))
  rw [← ofFloats_perm hperm']
  exact run_floats hadds hpos'

theorem gives_count (hrange : NoOverflow values) :
    Gives .count values (.ints (.ofInt (nonNull values).length)) where
  perm values' hperm := by
    have hlength := (nonNull_perm hperm).length_eq
    rw [run_count (hlength ▸ hrange.count), hlength]
  withoutNulls := by
    rw [run_count (by rw [nonNull_nonNull]; exact hrange.count), nonNull_nonNull]
  empty h := by
    rw [h]
    rfl
  exact xs _ _ := ⟨nofun, nofun⟩

theorem gives_nulls (hcount : aggregateType ≠ .count) (hnone : nonNull values = [])
    (hrun : ∀ values', nonNull values' = [] → run aggregateType values' = .ok .nulls) :
    Gives aggregateType values .nulls where
  perm values' hperm := hrun values' (List.perm_nil.mp (hnone ▸ nonNull_perm hperm))
  withoutNulls := hrun _ (by rw [nonNull_nonNull, hnone])
  empty _ := (if_neg hcount).symm
  exact xs hpos hxs := by
    rw [hnone] at hxs
    exact absurd (List.map_eq_nil_iff.mp hxs.symm) hpos

theorem gives_ints (hadds : Adds aggregateType) (hrange : NoOverflow values) {xs : List Int32}
    (hpos : xs ≠ []) (hvalues : values = xs.map .ints) (hall : nonNull values = values) :
    Gives aggregateType values (ofInts aggregateType xs) where
  perm values' hperm := run_ints_perm hadds hrange hpos hvalues hperm
  withoutNulls := by
    rw [hall]
    exact run_ints_perm hadds hrange hpos hvalues (.refl _)
  empty h := by
    rw [hall, hvalues] at h
    exact absurd (List.map_eq_nil_iff.mp h) hpos
  exact ys _ hys := by
    have hsame : ys = xs := by
      rw [hall, hvalues] at hys
      exact (List.map_injective_iff.mpr ints_injective hys).symm
    subst hsame
    constructor
    · rintro rfl
      obtain ⟨hlow, hhigh⟩ := hrange.sum ys (hvalues ▸ (List.Perm.refl _).subperm)
      exact ⟨_, if_neg nofun, Int32.toInt_ofInt_of_le hlow (by omega)⟩
    · rintro rfl
      exact if_pos rfl

theorem gives_floats (hadds : Adds aggregateType) {xs : List ℚ} (hpos : xs ≠ [])
    (hvalues : values = xs.map .floats) (hall : nonNull values = values) :
    Gives aggregateType values (ofFloats aggregateType xs) where
  perm values' hperm := run_floats_perm hadds hpos hvalues hperm
  withoutNulls := by
    rw [hall]
    exact run_floats_perm hadds hpos hvalues (.refl _)
  empty h := by
    rw [hall, hvalues] at h
    exact absurd (List.map_eq_nil_iff.mp h) hpos
  exact ys hys heq := by
    rw [hall, hvalues] at heq
    cases xs with
    | nil => exact absurd rfl hpos
    | cons x xs =>
      cases ys with
      | nil => exact absurd rfl hys
      | cons y ys => cases heq

/-- A sum or an average with a `NULL` behind a number does not come to an end. -/
theorem lawful_iff_of_adds (hadds : Adds aggregateType) (hone : OneType aggregateType type values)
    (hrange : NoOverflow values) :
    (∃ result, Gives aggregateType values result) ↔
      nonNull values = [] ∨ nonNull values = values := by
  classical
  have hcount : aggregateType ≠ .count := by
    rintro rfl
    rcases hadds with h | h <;> cases h
  constructor
  · rintro ⟨result, hgives⟩
    by_contra hmixed
    obtain ⟨hsome, hnot⟩ := not_or.mp hmixed
    obtain ⟨value, hvalue⟩ := List.exists_mem_of_ne_nil _ hsome
    obtain ⟨hmem, hnotNull⟩ := mem_nonNull.mp hvalue
    obtain ⟨null, hnullMem, hnull⟩ : ∃ null ∈ values, null.isNull = true := by
      by_contra hnone
      push Not at hnone
      exact hnot (List.filter_eq_self.mpr fun value hmem => by simpa using hnone value hmem)
    obtain rfl := attrType_of_isNull hnull
    have hne : Value.nulls ≠ value := by
      rintro rfl
      cases hnotNull
    have hperm : (value :: .nulls :: (values.erase value).erase .nulls).Perm values :=
      ((List.perm_cons_erase ((List.mem_erase_of_ne hne).mpr hnullMem)).symm.cons value).trans
        (List.perm_cons_erase hmem).symm
    have hnumeric := hone.numeric hadds
    rw [← hone.same value hvalue] at hnumeric
    cases (run_null_after hadds hnumeric).symm.trans (hgives.perm _ hperm)
  · intro h
    by_cases hnone : nonNull values = []
    · exact ⟨_, gives_nulls hcount hnone fun _ => run_nulls hadds⟩
    · have hall := h.resolve_left hnone
      have hsame := hone.same
      rw [hall] at hsame hnone
      rcases hone.numeric hadds with rfl | rfl
      · obtain ⟨xs, hvalues⟩ := exists_ints hsame
        have hpos : xs ≠ [] := fun hnil => hnone (by rw [hvalues, hnil, List.map_nil])
        exact ⟨_, gives_ints hadds hrange hpos hvalues hall⟩
      · obtain ⟨xs, hvalues⟩ := exists_floats hsame
        have hpos : xs ≠ [] := fun hnil => hnone (by rw [hvalues, hnil, List.map_nil])
        exact ⟨_, gives_floats hadds hpos hvalues hall⟩

theorem OneType.perm (h : OneType aggregateType type values) (hperm : values'.Perm values) :
    OneType aggregateType type values' :=
  ⟨fun value hmem => h.same value ((nonNull_perm hperm).mem_iff.mp hmem), h.known, h.numeric⟩

/-- What is kept of the values is the same in every order if one of them is singled out. -/
theorem lawful_iff_of_keeps (hkeeps : Keeps aggregateType)
    (hone : OneType aggregateType type values) :
    (∃ result, Gives aggregateType values result) ↔ nonNull values = [] ∨
      Compares (better aggregateType) (nonNull values) ∧
        ∃ value, Singles (better aggregateType) (nonNull values) value := by
  have hcount : aggregateType ≠ .count := by
    rintro rfl
    rcases hkeeps with h | h <;> cases h
  have hexact (result : Value ℚ) : Exact aggregateType values result := by
    rcases hkeeps with rfl | rfl <;> exact fun _ _ _ => ⟨nofun, nofun⟩
  by_cases hnone : nonNull values = []
  · refine iff_of_true ⟨.nulls, ?_⟩ (Or.inl hnone)
    have hrun (values' : List (Value ℚ)) (hperm : nonNull values' = []) :
        run aggregateType values' = .ok .nulls := by
      have hone' : OneType aggregateType type values' :=
        ⟨by simp [hperm], hone.known, hone.numeric⟩
      rw [run_keeps hkeeps hone', hperm]
      rfl
    exact gives_nulls hcount hnone hrun
  · rw [or_iff_right hnone, ← bestOf_perm_iff hnone]
    constructor
    · rintro ⟨result, hgives⟩
      refine ⟨result, fun value values' hperm => ?_⟩
      have hbehind := perm_of_nonNull hperm
      have hrun := hgives.perm _ hbehind
      rw [run_keeps hkeeps (hone.perm hbehind)] at hrun
      have hsame :
          nonNull ((value :: values') ++ values.filter Value.isNull) = value :: values' := by
        unfold nonNull
        rw [List.filter_append, List.filter_filter, List.filter_eq_self.mpr,
          List.filter_eq_nil_iff.mpr, List.append_nil]
        · simp
        · intro value' hmem
          simpa using (mem_nonNull.mp (hperm.mem_iff.mp hmem)).2
      rwa [hsame] at hrun
    · rintro ⟨result, hall⟩
      have hkept (values' : List (Value ℚ)) (hperm : values'.Perm (nonNull values)) :
          keptOf aggregateType values' = .ok result := by
        cases values' with
        | nil => exact absurd (List.nil_perm.mp hperm) hnone
        | cons value values' => exact hall value values' hperm
      refine ⟨result, ?_, ?_, fun hnil => absurd hnil hnone, hexact result⟩
      · intro values' hperm
        rw [run_keeps hkeeps (hone.perm hperm)]
        exact hkept _ (nonNull_perm hperm)
      · have hone' : OneType aggregateType type (nonNull values) :=
          ⟨by simpa using hone.same, hone.known, hone.numeric⟩
        rw [run_keeps hkeeps hone', nonNull_nonNull]
        exact hkept _ (.refl _)

theorem noOverflow_of_small {b : Nat} (hsmall : ∀ x, .ints x ∈ values → x.toInt.natAbs ≤ b)
    (hpos : 0 < b) (hlength : values.length * b ≤ 2147483647) : NoOverflow values where
  sum part hpart := by
    have hbound : (part.map Int32.toInt).sum.natAbs ≤ part.length * b := by
      have hmem : ∀ x ∈ part, x.toInt.natAbs ≤ b := fun x hx =>
        hsmall x (hpart.subset (List.mem_map_of_mem hx))
      clear hpart
      induction part with
      | nil => simp
      | cons x part ih =>
        have hx := hmem x List.mem_cons_self
        have hrest := ih fun y hy => hmem y (List.mem_cons_of_mem x hy)
        rw [List.map_cons, List.sum_cons, List.length_cons, Nat.succ_mul]
        omega
    have hle := hpart.length_le
    rw [List.length_map] at hle
    have hmul := Nat.mul_le_mul_right b hle
    omega
  count := by
    have hle : (nonNull values).length ≤ values.length := List.length_filter_le _ _
    have hmul := Nat.le_mul_of_pos_right values.length hpos
    omega

end Aggregator

end Sql

end ObHtap
