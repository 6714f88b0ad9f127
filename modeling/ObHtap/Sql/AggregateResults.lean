import Mathlib.Data.List.MinMax
import ObHtap.Sql.AggregateNulls
import ObHtap.Sql.ComparisonLaws

/-!
# The results of the aggregate functions

What SQL makes of the values of a group that are not NULL: their number, their sum, their average,
and the first of the greatest or the least.  The aggregators come to it for values of one type that
`Value::compare` orders.
-/

namespace ObHtap

namespace Sql

variable {r : Rounding}

/-! ## What SQL makes of values -/

/-- What orders a value among others of its type: a number, the bytes of a string, or the elements
of a vector. -/
def Value.sortKey : Value (RoundedFloat r) → List ℚ
  | .ints n | .dates n => [n.toInt]
  | .floats x => [x.toRat]
  | .chars s => (s.getD []).map fun c => (c.toNat : ℚ)
  | .vectors elems => elems.map RoundedFloat.toRat
  | _ => []

/-- Two numbers, as long as the sum of integers is an `int`. -/
def addNumbers : Value (RoundedFloat r) → Value (RoundedFloat r) → Option (Value (RoundedFloat r))
  | .ints m, .ints n =>
    if -2147483648 ≤ m.toInt + n.toInt ∧ m.toInt + n.toInt ≤ 2147483647 then
      some (.ints (.ofInt (m.toInt + n.toInt)))
    else none
  | .floats x, .floats y => some (.floats ⟨r.round (x.toRat + y.toRat)⟩)
  | _, _ => none

/-- The sum of numbers from the first on. -/
def sqlSum : List (Value (RoundedFloat r)) → Option (Value (RoundedFloat r))
  | [] => some .nulls
  | value :: values => values.foldlM addNumbers value

/-- A sum by the number of its terms. -/
def sqlQuotient (count : Nat) : Value (RoundedFloat r) → Option (Value (RoundedFloat r))
  | .ints n => some (.floats ⟨r.round (r.round n.toInt / r.round count)⟩)
  | .floats x => some (.floats ⟨r.round (x.toRat / r.round count)⟩)
  | .nulls => some .nulls
  | _ => none

/-- The result of an aggregate function on values that are not NULL. -/
def sqlAggregate (aggregateType : AggregateType) (values : List (Value (RoundedFloat r))) :
    Option (Value (RoundedFloat r)) :=
  match aggregateType with
  | .count => if values.length ≤ 2147483647 then some (.ints (.ofInt values.length)) else none
  | .sum => sqlSum values
  | .avg => sqlSum values >>= sqlQuotient values.length
  | .max => some ((values.argmax Value.sortKey).getD .nulls)
  | .min => some ((values.argmin Value.sortKey).getD .nulls)

/-! ## The order of values -/

variable {value value' : Value (RoundedFloat r)} {values : List (Value (RoundedFloat r))}

/-- `Value::compare` orders two values as their keys are. -/
theorem compare_sortKey (halike : value.alike value' = true) :
    value.compare value' = .ok (threeWay value.sortKey value'.sortKey) := by
  rw [compare_alike (fun _ _ => 0) halike]
  congr 1
  have hint : StrictMono (Int.cast : Int → ℚ) := Int.cast_strictMono
  have hnat : StrictMono (Nat.cast : Nat → ℚ) := Nat.strictMono_cast
  unfold Value.alike at halike
  split at halike
  · exact ((threeWay_singleton _ _).trans (threeWay_of_strictMono hint _ _)).symm
  · exact ((threeWay_singleton _ _).trans (threeWay_of_strictMono hint _ _)).symm
  next s s' =>
    have hbytes := threeWay_map hnat ((s.getD []).map UInt8.toNat) ((s'.getD []).map UInt8.toNat)
    rw [List.map_map, List.map_map] at hbytes
    exact hbytes.symm
  · exact (threeWay_singleton _ _).symm
  · exact (threeWay_singleton _ _).symm
  · exact (threeWay_singleton _ _).symm
  · rw [sqlOrder, if_pos (of_decide_eq_true (Bool.and_eq_true_iff.mp halike).1)]
    rfl
  · cases halike

/-! ## The aggregators -/

namespace AggregateResult

open Aggregator

variable {aggregateType : AggregateType} {cur sum result : Value (RoundedFloat r)} {n : Int}

/-! ### Count -/

theorem accumulate_count {c : Int32} (hvalue : value.isNull = false)
    (hrange : -2147483648 ≤ c.toInt + 1 ∧ c.toInt + 1 ≤ 2147483647) :
    accumulate ⟨.count, .ints c, n⟩ value = .ok ⟨.count, .ints (.ofInt (c.toInt + 1)), n⟩ := by
  have hadd : Value.add .ints (.ints c) (.ints 1 : Value (RoundedFloat r)) =
      .ok (.ints (.ofInt (c.toInt + 1))) := by
    change (Value.checkedInt (c.toInt + 1)).map Value.ints = _
    rw [checkedInt_of hrange]
    rfl
  unfold accumulate
  simp only [Value.attrType, hvalue, reduceCtorEq, if_false, Bool.false_eq_true]
  rw [hadd]
  rfl

theorem foldlM_count (hlength : values.length ≤ 2147483647)
    (hnull : ∀ value ∈ values, value.isNull = false) :
    values.foldlM accumulate (create .count) =
      .ok ⟨.count, if values = [] then .undefined else .ints (.ofInt values.length), 0⟩ := by
  induction values using List.reverseRecOn with
  | nil => rfl
  | append_singleton values value ih =>
    rw [List.length_append, List.length_singleton] at hlength
    obtain ⟨hbefore, hlast⟩ := List.forall_mem_append.mp hnull
    have hvalue := hlast value (List.mem_singleton_self value)
    have hlong : (.ofInt values.length : Int32).toInt = values.length :=
      toInt_ofInt (by omega)
    have hstep := @accumulate_count r value 0 (.ofInt values.length) hvalue (by rw [hlong]; omega)
    rw [hlong] at hstep
    rw [if_neg (List.append_ne_nil_of_right_ne_nil values (List.cons_ne_nil value [])),
      List.foldlM_append, ih (by omega) hbefore, List.length_append]
    change (accumulate _ value >>= fun aggregator => .ok aggregator) = _
    by_cases hempty : values = []
    · subst hempty
      have hzero : accumulate ⟨.count, .undefined, 0⟩ value = accumulate ⟨.count, .ints 0, 0⟩ value :=
        rfl
      rw [if_pos rfl, hzero]
      rw [show (.ofInt ([] : List (Value (RoundedFloat r))).length : Int32) = 0 from rfl] at hstep
      rw [hstep]
      rfl
    · rw [if_neg hempty, hstep]
      rfl

/-! ### Sum and average -/

/-- What `count` of `AvgAggregator` has counted. -/
def countOf (aggregateType : AggregateType) (length : Nat) : Int :=
  if aggregateType = .avg then length else 0

theorem accumulate_first (hadds : aggregateType.adds = true) (hvalue : value.isNull = false) :
    accumulate (create aggregateType) value =
      .ok ⟨aggregateType, value, countOf aggregateType 1⟩ := by
  rcases adds_iff.mp hadds with rfl | rfl
  · rfl
  · change Except.ok (Aggregator.mk .avg value (0 + if value.isNull then 0 else 1)) = _
    rw [hvalue]
    rfl

theorem accumulate_add (hadds : aggregateType.adds = true) (hadd : addNumbers cur value = some sum)
    (length : Nat) :
    accumulate ⟨aggregateType, cur, countOf aggregateType length⟩ value =
      .ok ⟨aggregateType, sum, countOf aggregateType (length + 1)⟩ := by
  have hnumbers : hasNoValue ⟨aggregateType, cur, countOf aggregateType length⟩ = false ∧
      value.attrType = cur.attrType ∧
        addValue ⟨aggregateType, cur, countOf aggregateType length⟩ value =
          .ok ⟨aggregateType, sum, countOf aggregateType length⟩ := by
    unfold addNumbers at hadd
    split at hadd
    next m k =>
      split_ifs at hadd with hrange
      cases hadd
      refine ⟨rfl, rfl, ?_⟩
      have hsum : Value.add .ints (.ints k) (.ints m : Value (RoundedFloat r)) =
          .ok (.ints (.ofInt (m.toInt + k.toInt))) := by
        change (Value.checkedInt (k.toInt + m.toInt)).map Value.ints = _
        rw [Int.add_comm, checkedInt_of hrange]
        rfl
      unfold addValue
      dsimp only [Value.attrType]
      rw [hsum]
    next x y =>
      cases hadd
      refine ⟨rfl, rfl, ?_⟩
      rw [add_comm]
      rfl
    · cases hadd
  obtain ⟨hsome, hsame, hvalue⟩ := hnumbers
  rcases adds_iff.mp hadds with rfl | rfl
  · unfold accumulate
    dsimp only
    rw [hsome, if_neg Bool.false_ne_true, if_neg (not_not.mpr hsame)]
    exact hvalue
  · unfold accumulate
    dsimp only
    rw [hsome, if_neg Bool.false_ne_true, if_neg (not_not.mpr hsame), hvalue]
    rfl

theorem sqlSum_concat (hne : values ≠ []) :
    sqlSum (values ++ [value]) = sqlSum values >>= fun sum => addNumbers sum value := by
  cases values with
  | nil => exact absurd rfl hne
  | cons first values =>
    rw [List.cons_append, sqlSum, sqlSum, List.foldlM_append]
    simp

/-- A sum is of the numbers that have been read. -/
theorem foldlM_sum (hadds : aggregateType.adds = true)
    (hnull : ∀ value ∈ values, value.isNull = false) (hsum : sqlSum values = some sum) :
    values.foldlM accumulate (create aggregateType) =
      .ok ⟨aggregateType, if values = [] then .undefined else sum,
        countOf aggregateType values.length⟩ := by
  induction values using List.reverseRecOn generalizing sum with
  | nil => rcases adds_iff.mp hadds with rfl | rfl <;> rfl
  | append_singleton values value ih =>
    obtain ⟨hbefore, hlast⟩ := List.forall_mem_append.mp hnull
    have hvalue := hlast value (List.mem_singleton_self value)
    rw [if_neg (List.append_ne_nil_of_right_ne_nil values (List.cons_ne_nil value [])),
      List.length_append, List.length_singleton, List.foldlM_append]
    by_cases hempty : values = []
    · subst hempty
      cases hsum
      change (accumulate (create aggregateType) value >>= fun aggregator => .ok aggregator) = _
      rw [accumulate_first hadds hvalue]
      rfl
    · rw [sqlSum_concat hempty] at hsum
      obtain ⟨before, hbeforeSum, hadd⟩ := Option.bind_eq_some_iff.mp hsum
      rw [ih hbefore hbeforeSum, if_neg hempty]
      change (accumulate _ value >>= fun aggregator => .ok aggregator) = _
      rw [accumulate_add hadds hadd]
      rfl

/-! ### Maximum and minimum -/

/-- The values are of one type, and each is alike those before it. -/
structure Orderly (values : List (Value (RoundedFloat r))) : Prop where
  known : ∀ value ∈ values, value.attrType ≠ .undefined
  alike : values.Pairwise fun value value' =>
    value'.attrType = value.attrType ∧ value'.alike value = true

theorem hasNoValue_of_not_null (hnull : cur.isNull = false) (hknown : cur.attrType ≠ .undefined) :
    hasNoValue ⟨aggregateType, cur, n⟩ = false := by
  unfold hasNoValue
  unfold Value.isNull at hnull
  simp_all

theorem foldlM_max (hnull : ∀ value ∈ values, value.isNull = false) (horderly : Orderly values) :
    values.foldlM accumulate (create .max) =
      .ok ⟨.max, (values.argmax Value.sortKey).getD .undefined, 0⟩ := by
  induction values using List.reverseRecOn with
  | nil => rfl
  | append_singleton values value ih =>
    obtain ⟨hbefore, hlast⟩ := List.forall_mem_append.mp hnull
    obtain ⟨hknown, -⟩ := List.forall_mem_append.mp horderly.known
    obtain ⟨halikes, -, hpairs⟩ := List.pairwise_append.mp horderly.alike
    have hvalue := hlast value (List.mem_singleton_self value)
    rw [List.foldlM_append, ih hbefore ⟨hknown, halikes⟩, List.argmax_concat]
    change (accumulate _ value >>= fun aggregator => .ok aggregator) = _
    cases hmax : values.argmax Value.sortKey with
    | none => rfl
    | some cur =>
      have hmem := List.argmax_mem hmax
      obtain ⟨hsame, halike⟩ := hpairs cur hmem value (List.mem_singleton_self value)
      dsimp only [Option.getD_some]
      unfold accumulate
      dsimp only
      rw [hasNoValue_of_not_null (hbefore cur hmem) (hknown cur hmem), hvalue,
        if_neg Bool.false_ne_true, if_neg Bool.false_ne_true, if_neg (not_not.mpr hsame),
        compare_sortKey halike]
      change Except.ok (if 0 < threeWay value.sortKey cur.sortKey then _ else _) = _
      simp only [threeWay_pos_iff]
      split_ifs <;> rfl

theorem foldlM_min (hnull : ∀ value ∈ values, value.isNull = false) (horderly : Orderly values) :
    values.foldlM accumulate (create .min) =
      .ok ⟨.min, (values.argmin Value.sortKey).getD .undefined, 0⟩ := by
  induction values using List.reverseRecOn with
  | nil => rfl
  | append_singleton values value ih =>
    obtain ⟨hbefore, hlast⟩ := List.forall_mem_append.mp hnull
    obtain ⟨hknown, -⟩ := List.forall_mem_append.mp horderly.known
    obtain ⟨halikes, -, hpairs⟩ := List.pairwise_append.mp horderly.alike
    have hvalue := hlast value (List.mem_singleton_self value)
    rw [List.foldlM_append, ih hbefore ⟨hknown, halikes⟩, List.argmin_concat]
    change (accumulate _ value >>= fun aggregator => .ok aggregator) = _
    cases hmin : values.argmin Value.sortKey with
    | none => rfl
    | some cur =>
      have hmem := List.argmin_mem hmin
      obtain ⟨-, halike⟩ := hpairs cur hmem value (List.mem_singleton_self value)
      dsimp only [Option.getD_some]
      unfold accumulate
      dsimp only
      rw [hasNoValue_of_not_null (hbefore cur hmem) (hknown cur hmem), hvalue,
        if_neg Bool.false_ne_true, if_neg Bool.false_ne_true, compare_sortKey halike]
      change Except.ok (if threeWay value.sortKey cur.sortKey < 0 then _ else _) = _
      simp only [threeWay_neg_iff]
      split_ifs <;> rfl

/-! ### The results -/

theorem isNumber_of_add (h : addNumbers cur value = some sum) : isNumber sum = true := by
  unfold addNumbers at h
  split at h
  · split_ifs at h
    cases h
    rfl
  · cases h
    rfl
  · cases h

/-- The number of terms is no divisor that `FloatType::divide` takes for zero. -/
theorem divide_count (hone : r.round 1 = 1) (x : RoundedFloat r) {count : Nat} (hpos : 0 < count) :
    Value.divide .floats (.floats x) (.floats (Floats.ofInt (count : Int))) =
      .ok (.floats ⟨r.round (x.toRat / r.round count)⟩) := by
  have hle : 1 ≤ r.round ((count : Int) : ℚ) := by
    rw [← hone]
    exact r.monotone (by exact_mod_cast hpos)
  have hfar : ¬ (Floats.lt (-Floats.epsilon) (Floats.ofInt (count : Int) : RoundedFloat r) = true ∧
      Floats.lt (Floats.ofInt (count : Int) : RoundedFloat r) Floats.epsilon = true) := by
    intro h
    have hlt := of_decide_eq_true h.2
    change r.round ((count : Int) : ℚ) < 1 / 1000000 at hlt
    linarith
  unfold Value.divide
  dsimp only
  rw [if_neg (by simp [Value.isNull, Value.attrType])]
  exact if_neg hfar

theorem isNumber_of_foldlM {first : Value (RoundedFloat r)} (hfirst : isNumber first = true)
    (h : values.foldlM addNumbers first = some sum) : isNumber sum = true := by
  induction values generalizing first with
  | nil =>
    cases h
    exact hfirst
  | cons value values ih =>
    rw [List.foldlM_cons] at h
    obtain ⟨next, hadd, hrest⟩ := Option.bind_eq_some_iff.mp h
    exact ih (isNumber_of_add hadd) hrest

theorem evaluate_avg (hone : r.round 1 = 1) (hnumber : isNumber sum = true) {count : Nat}
    (hpos : 0 < count) (hresult : sqlQuotient count sum = some result) :
    (evaluate ⟨.avg, sum, countOf .avg count⟩).map Prod.fst = .ok result := by
  have haverage : average sum (count : Int) = .ok result := by
    cases sum with
    | ints k =>
      cases hresult
      unfold average
      dsimp only [Value.attrType]
      rw [divide_count hone _ hpos]
      rfl
    | floats x =>
      cases hresult
      unfold average
      dsimp only [Value.attrType]
      rw [divide_count hone _ hpos]
    | _ => cases hnumber
  have hsome : hasNoValue ⟨.avg, sum, (count : Int)⟩ = false := by
    cases sum with
    | ints k | floats x => rfl
    | _ => cases hnumber
  change (evaluate ⟨.avg, sum, (count : Int)⟩).map Prod.fst = _
  unfold evaluate
  dsimp only
  rw [hsome, haverage]
  rfl

theorem evaluate_getD {aggregateType : AggregateType} (hkeeps : aggregateType = .max ∨
    aggregateType = .min) {kept : Option (Value (RoundedFloat r))}
    (hknown : ∀ value ∈ kept, value.attrType ≠ .undefined) :
    (evaluate ⟨aggregateType, kept.getD .undefined, 0⟩).map Prod.fst = .ok (kept.getD .nulls) := by
  cases kept with
  | none => rcases hkeeps with rfl | rfl <;> rfl
  | some value =>
    have hvalue := hknown value rfl
    rcases hkeeps with rfl | rfl
    · exact congrArg Except.ok (if_neg hvalue)
    · exact congrArg Except.ok (if_neg hvalue)

end AggregateResult

/-- An aggregator that has read values without NULL has the result of SQL. -/
theorem aggregateOf_eq {aggregateType : AggregateType} {result : Value (RoundedFloat r)}
    (hone : r.round 1 = 1) (hnull : ∀ value ∈ values, value.isNull = false)
    (hnumeric : aggregateType.adds = true → ∀ value ∈ values, Aggregator.isNumber value = true)
    (horderly : aggregateType = .max ∨ aggregateType = .min → AggregateResult.Orderly values)
    (h : sqlAggregate aggregateType values = some result) :
    aggregateOf aggregateType values = .ok result := by
  unfold aggregateOf
  cases aggregateType with
  | count =>
    unfold sqlAggregate at h
    split_ifs at h with hlength
    cases h
    rw [AggregateResult.foldlM_count hlength hnull]
    cases values <;> rfl
  | sum =>
    have hsum : sqlSum values = some result := h
    rw [AggregateResult.foldlM_sum rfl hnull hsum]
    cases values with
    | nil =>
      cases hsum
      rfl
    | cons value values =>
      have hnumber := AggregateResult.isNumber_of_foldlM (hnumeric rfl value List.mem_cons_self) hsum
      cases result with
      | ints | floats => rfl
      | _ => cases hnumber
  | avg =>
    obtain ⟨sum, hsum, hquotient⟩ := Option.bind_eq_some_iff.mp h
    rw [AggregateResult.foldlM_sum rfl hnull hsum]
    cases values with
    | nil =>
      cases hsum
      cases hquotient
      rfl
    | cons value values =>
      have hnumber := AggregateResult.isNumber_of_foldlM (hnumeric rfl value List.mem_cons_self) hsum
      exact AggregateResult.evaluate_avg hone hnumber (Nat.succ_pos values.length) hquotient
  | max =>
    cases h
    rw [AggregateResult.foldlM_max hnull (horderly (Or.inl rfl))]
    exact AggregateResult.evaluate_getD (Or.inl rfl) fun value hmem =>
      (horderly (Or.inl rfl)).known value (List.argmax_mem hmem)
  | min =>
    cases h
    rw [AggregateResult.foldlM_min hnull (horderly (Or.inr rfl))]
    exact AggregateResult.evaluate_getD (Or.inr rfl) fun value hmem =>
      (horderly (Or.inr rfl)).known value (List.argmin_mem hmem)

end Sql

end ObHtap
