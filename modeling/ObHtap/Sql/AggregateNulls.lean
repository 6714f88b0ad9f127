import ObHtap.Sql.Aggregator

/-!
# Aggregators that read NULL

An aggregator that may read a NULL is left as if it had not.  `SumAggregator` and `AvgAggregator`
may read one as long as they have no value.
-/

namespace ObHtap

namespace Sql

variable {F : Type}

/-- The values that are not NULL. -/
def withoutNulls (values : List (Value F)) : List (Value F) :=
  values.filter fun value => !value.isNull

/-- No NULL is behind another value. -/
def NullsInFront (values : List (Value F)) : Prop :=
  ∀ value ∈ values.dropWhile Value.isNull, value.isNull = false

instance (values : List (Value F)) : Decidable (NullsInFront values) :=
  inferInstanceAs (Decidable (∀ value ∈ values.dropWhile Value.isNull, value.isNull = false))

/-- The functions that add up. -/
def AggregateType.adds (aggregateType : AggregateType) : Bool :=
  aggregateType = .sum || aggregateType = .avg

variable {value : Value F} {values : List (Value F)}

theorem eq_nulls_of_isNull (h : value.isNull = true) : value = .nulls := by
  cases value with
  | nulls => rfl
  | _ => cases h

theorem attrType_eq_undefined : value.attrType = .undefined ↔ value = .undefined := by
  cases value <;> simp [Value.attrType]

theorem nullsInFront_cons_null : NullsInFront (.nulls :: values) ↔ NullsInFront values :=
  Iff.rfl

theorem nullsInFront_cons (h : value.isNull = false) :
    NullsInFront (value :: values) ↔ ∀ value ∈ values, value.isNull = false := by
  unfold NullsInFront
  rw [List.dropWhile_cons_of_neg (by rw [h]; decide), List.forall_mem_cons, and_iff_right h]

theorem nullsInFront_of_forall (h : ∀ value ∈ values, value.isNull = false) :
    NullsInFront values := fun value hmem =>
  h value ((List.dropWhile_sublist _).subset hmem)

variable [Floats F]

/-- The result of an aggregator that has read values. -/
def aggregateOf (aggregateType : AggregateType) (values : List (Value F)) :
    Except Fault (Value F) := do
  let aggregator ← values.foldlM Aggregator.accumulate (Aggregator.create aggregateType)
  (aggregator.evaluate).map Prod.fst

namespace Aggregator

/-- What an aggregator keeps of NULL. -/
inductive Agrees : Aggregator F → Aggregator F → Prop where
  | refl (aggregator : Aggregator F) : Agrees aggregator aggregator
  | null (aggregateType : AggregateType) (count : Int) (h : aggregateType ≠ .count) :
    Agrees ⟨aggregateType, .nulls, count⟩ ⟨aggregateType, .undefined, count⟩
  | count (count : Int) : Agrees ⟨.count, .ints 0, count⟩ ⟨.count, .undefined, count⟩

variable {aggregator aggregator' : Aggregator F}

theorem Agrees.accumulate (h : Agrees aggregator aggregator') (value : Value F) :
    aggregator.accumulate value = aggregator'.accumulate value := by
  cases h with
  | refl => rfl
  | null aggregateType count hcount =>
    cases aggregateType with
    | count => exact absurd rfl hcount
    | _ => rfl
  | count count => rfl

theorem Agrees.evaluate (h : Agrees aggregator aggregator') :
    aggregator.evaluate.map Prod.fst = aggregator'.evaluate.map Prod.fst := by
  cases h with
  | refl => rfl
  | null aggregateType count hcount =>
    cases aggregateType with
    | count => exact absurd rfl hcount
    | _ => rfl
  | count count => rfl

omit [Floats F] in
theorem hasNoValue_iff : aggregator.hasNoValue = true ↔
    aggregator.value = .undefined ∨ aggregator.value = .nulls := by
  unfold hasNoValue
  rw [decide_eq_true_eq]
  cases aggregator.value <;> simp [Value.attrType]

/-- An aggregator without a value keeps nothing but that of NULL. -/
theorem accumulate_null_of_noValue (hcount : aggregator.aggregateType ≠ .count)
    (h : aggregator.hasNoValue = true) :
    aggregator.accumulate .nulls = .ok { aggregator with value := .nulls } := by
  obtain ⟨aggregateType, value, count⟩ := aggregator
  cases aggregateType with
  | count => exact absurd rfl hcount
  | avg =>
    exact (if_pos h).trans (congrArg
      (fun n => (Except.ok ⟨.avg, .nulls, n⟩ : Except Fault (Aggregator F))) (Int.add_zero count))
  | sum | max | min => exact if_pos h

/-- The other functions leave NULL out. -/
theorem accumulate_null_of_not_adds (hadds : aggregator.aggregateType.adds = false)
    (h : aggregator.hasNoValue = false) : aggregator.accumulate .nulls = .ok aggregator := by
  obtain ⟨aggregateType, value, count⟩ := aggregator
  cases aggregateType with
  | sum | avg => cases hadds
  | count =>
    have hvalue : value.attrType ≠ .undefined := fun heq => by
      unfold hasNoValue at h
      rw [decide_eq_false_iff_not] at h
      exact h (Or.inl heq)
    unfold accumulate
    dsimp only
    rw [if_neg hvalue]
    rfl
  | max | min =>
    unfold accumulate
    rw [h]
    rfl

theorem Agrees.accumulate_null (h : Agrees aggregator aggregator')
    (hadds : aggregator.aggregateType.adds = true → aggregator.hasNoValue = true) :
    ∃ after, aggregator.accumulate .nulls = .ok after ∧ Agrees after aggregator' ∧
      (aggregator.aggregateType.adds = true → after.hasNoValue = true) := by
  by_cases hcount : aggregator.aggregateType = .count
  · obtain ⟨aggregateType, value, count⟩ := aggregator
    obtain rfl : aggregateType = .count := hcount
    by_cases hvalue : value = .undefined
    · subst hvalue
      cases h
      exact ⟨⟨.count, .ints 0, count⟩, rfl, .count count, nofun⟩
    · refine ⟨_, ?_, h, nofun⟩
      unfold Aggregator.accumulate
      dsimp only
      rw [if_neg (mt attrType_eq_undefined.mp hvalue)]
      rfl
  · cases hnone : aggregator.hasNoValue with
    | false =>
      have hnot : aggregator.aggregateType.adds = false := Bool.eq_false_iff.mpr fun h' =>
        nomatch hnone.symm.trans (hadds h')
      exact ⟨aggregator, accumulate_null_of_not_adds hnot hnone, h,
        fun h' => nomatch hnot.symm.trans h'⟩
    | true =>
      refine ⟨_, accumulate_null_of_noValue hcount hnone, ?_, fun _ => rfl⟩
      cases h with
      | refl =>
        obtain ⟨aggregateType, value, count⟩ := aggregator
        rcases hasNoValue_iff.mp hnone with hvalue | hvalue
        · obtain rfl : value = .undefined := hvalue
          exact .null aggregateType count hcount
        · obtain rfl : value = .nulls := hvalue
          exact .refl _
      | null aggregateType count hne => exact .null aggregateType count hne
      | count count => exact absurd rfl hcount

/-! ## Values one after the other -/

theorem aggregateType_of_addValue {after : Aggregator F}
    (h : aggregator.addValue value = .ok after) :
    after.aggregateType = aggregator.aggregateType := by
  unfold addValue at h
  split at h <;> cases h <;> rfl

theorem aggregateType_of_accumulate {after : Aggregator F}
    (h : aggregator.accumulate value = .ok after) :
    after.aggregateType = aggregator.aggregateType := by
  unfold accumulate at h
  split at h
  · dsimp only at h
    split_ifs at h
    · cases h
      rfl
    · cases h
      rfl
    · obtain ⟨sum, -, heq⟩ := bind_eq_ok h
      cases heq
      rfl
    · obtain ⟨sum, -, heq⟩ := bind_eq_ok h
      cases heq
      rfl
  · split_ifs at h
    · cases h
      rfl
    · exact aggregateType_of_addValue h
  · split_ifs at h
    · cases h
      rfl
    · cases h
      rfl
    · obtain ⟨added, hadded, heq⟩ := bind_eq_ok h
      have htype : added.aggregateType = aggregator.aggregateType :=
        aggregateType_of_addValue hadded
      cases heq
      exact htype
  · split_ifs at h
    · cases h
      rfl
    · cases h
      rfl
    · obtain ⟨n, -, heq⟩ := bind_eq_ok h
      cases heq
      split_ifs <;> rfl
  · split_ifs at h
    · cases h
      rfl
    · cases h
      rfl
    · obtain ⟨n, -, heq⟩ := bind_eq_ok h
      cases heq
      split_ifs <;> rfl

/-- With the NULLs that it may read an aggregator comes as far as without them. -/
theorem foldlM_agrees (h : Agrees aggregator aggregator')
    (hfront : aggregator.aggregateType.adds = true →
      (aggregator.hasNoValue = true → NullsInFront values) ∧
        (aggregator.hasNoValue = false → ∀ value ∈ values, value.isNull = false))
    {last' : Aggregator F}
    (hfold : (withoutNulls values).foldlM accumulate aggregator' = .ok last') :
    ∃ last, values.foldlM accumulate aggregator = .ok last ∧ Agrees last last' := by
  induction values generalizing aggregator aggregator' with
  | nil =>
    cases hfold
    exact ⟨aggregator, rfl, h⟩
  | cons value values ih =>
    cases hnull : value.isNull with
    | true =>
      obtain rfl := eq_nulls_of_isNull hnull
      have hnone (hadds : aggregator.aggregateType.adds = true) : aggregator.hasNoValue = true := by
        by_contra hsome
        cases (hfront hadds).2 (Bool.eq_false_iff.mpr hsome) _ List.mem_cons_self
      obtain ⟨after, hstep, hagrees, hafter⟩ := h.accumulate_null hnone
      have htype := aggregateType_of_accumulate hstep
      rw [List.foldlM_cons, hstep]
      refine ih hagrees (fun hadds => ?_) hfold
      rw [htype] at hadds
      refine ⟨fun _ => nullsInFront_cons_null.mp ((hfront hadds).1 (hnone hadds)), fun hsome => ?_⟩
      cases hsome.symm.trans (hafter hadds)
    | false =>
      have hfilter : withoutNulls (value :: values) = value :: withoutNulls values :=
        List.filter_cons_of_pos (by rw [hnull]; rfl)
      rw [hfilter, List.foldlM_cons] at hfold
      obtain ⟨after, hstep, hrest⟩ := bind_eq_ok hfold
      rw [List.foldlM_cons, h.accumulate value, hstep]
      have htype := aggregateType_of_accumulate ((h.accumulate value).trans hstep)
      refine ih (.refl after) (fun hadds => ?_) hrest
      rw [htype] at hadds
      have hnone : ∀ value ∈ values, value.isNull = false := by
        cases hhas : aggregator.hasNoValue with
        | true => exact (nullsInFront_cons hnull).mp ((hfront hadds).1 hhas)
        | false => exact fun v hmem => (hfront hadds).2 hhas v (List.mem_cons_of_mem value hmem)
      exact ⟨fun _ => nullsInFront_of_forall hnone, fun _ => hnone⟩

/-- A number. -/
def isNumber (value : Value F) : Bool :=
  value.attrType = .ints || value.attrType = .floats

theorem adds_iff {aggregateType : AggregateType} :
    aggregateType.adds = true ↔ aggregateType = .sum ∨ aggregateType = .avg := by
  cases aggregateType <;> decide

theorem isNumber_addValue {after : Aggregator F}
    (hsame : value.attrType = aggregator.value.attrType)
    (hnumber : isNumber aggregator.value = true) (h : aggregator.addValue value = .ok after) :
    isNumber after.value = true := by
  obtain ⟨aggregateType, cur, count⟩ := aggregator
  unfold addValue at h
  split at h
  next sum hsum =>
    cases h
    cases cur with
    | ints v =>
      cases value with
      | ints v' =>
        obtain ⟨n, -, rfl⟩ := map_eq_ok hsum
        rfl
      | _ => cases hsame
    | floats x =>
      cases value with
      | floats x' =>
        cases hsum
        rfl
      | _ => cases hsame
    | _ => cases hnumber
  · cases h
    exact hnumber
  · cases h

/-- An aggregator that adds up and has a number reads numbers only. -/
theorem accumulate_number {after : Aggregator F} (hadds : aggregator.aggregateType.adds = true)
    (hnumber : isNumber aggregator.value = true) (hstep : aggregator.accumulate value = .ok after) :
    value.isNull = false ∧ isNumber after.value = true := by
  have hsome : ¬ aggregator.hasNoValue = true := by
    rw [hasNoValue_iff]
    rintro (h | h) <;> rw [h] at hnumber <;> cases hnumber
  have hnull (hsame : value.attrType = aggregator.value.attrType) : value.isNull = false := by
    cases value with
    | nulls =>
      refine absurd ?_ hsome
      rw [hasNoValue_iff]
      cases hcur : aggregator.value with
      | nulls => exact Or.inr rfl
      | _ =>
        rw [hcur] at hsame
        cases hsame
    | _ => rfl
  rcases adds_iff.mp hadds with htype | htype
  · unfold accumulate at hstep
    rw [htype] at hstep
    dsimp only at hstep
    split_ifs at hstep with hsame
    have hsame' := not_not.mp hsame
    exact ⟨hnull hsame', isNumber_addValue hsame' hnumber hstep⟩
  · unfold accumulate at hstep
    rw [htype] at hstep
    dsimp only at hstep
    split_ifs at hstep with hsame
    have hsame' := not_not.mp hsame
    obtain ⟨added, hadded, heq⟩ := bind_eq_ok hstep
    have hnumber' : isNumber added.value = true := isNumber_addValue hsame' hnumber hadded
    cases heq
    exact ⟨hnull hsame', hnumber'⟩

theorem value_of_accumulate_first {after : Aggregator F} (hadds : aggregator.aggregateType.adds = true)
    (hnone : aggregator.hasNoValue = true) (hstep : aggregator.accumulate value = .ok after) :
    after.value = value := by
  obtain ⟨aggregateType, cur, count⟩ := aggregator
  rcases adds_iff.mp hadds with h | h
  · obtain rfl : aggregateType = .sum := h
    cases (if_pos hnone).symm.trans hstep
    rfl
  · obtain rfl : aggregateType = .avg := h
    cases (if_pos hnone).symm.trans hstep
    rfl

theorem forall_of_foldlM_number {last : Aggregator F}
    (hadds : aggregator.aggregateType.adds = true) (hnumber : isNumber aggregator.value = true)
    (hfold : values.foldlM accumulate aggregator = .ok last) :
    ∀ value ∈ values, value.isNull = false := by
  induction values generalizing aggregator with
  | nil => nofun
  | cons value values ih =>
    rw [List.foldlM_cons] at hfold
    obtain ⟨after, hstep, hrest⟩ := bind_eq_ok hfold
    obtain ⟨hnull, hafter⟩ := accumulate_number hadds hnumber hstep
    exact List.forall_mem_cons.mpr
      ⟨hnull, ih ((aggregateType_of_accumulate hstep).symm ▸ hadds) hafter hrest⟩

/-- An aggregator that adds up has read no NULL behind a number. -/
theorem nullsInFront_of_foldlM {last : Aggregator F}
    (hadds : aggregator.aggregateType.adds = true) (hnone : aggregator.hasNoValue = true)
    (hnumeric : ∀ value ∈ values, value.isNull = true ∨ isNumber value = true)
    (hfold : values.foldlM accumulate aggregator = .ok last) : NullsInFront values := by
  induction values generalizing aggregator with
  | nil => nofun
  | cons value values ih =>
    rw [List.foldlM_cons] at hfold
    obtain ⟨after, hstep, hrest⟩ := bind_eq_ok hfold
    have hvalue := value_of_accumulate_first hadds hnone hstep
    have hadds' := (aggregateType_of_accumulate hstep).symm ▸ hadds
    obtain ⟨hfirst, hothers⟩ := List.forall_mem_cons.mp hnumeric
    cases hnull : value.isNull with
    | true =>
      obtain rfl := eq_nulls_of_isNull hnull
      exact nullsInFront_cons_null.mpr
        (ih hadds' (hasNoValue_iff.mpr (Or.inr hvalue)) hothers hrest)
    | false =>
      rw [nullsInFront_cons hnull]
      refine forall_of_foldlM_number hadds' ?_ hrest
      rw [hvalue]
      exact hfirst.resolve_left (Bool.eq_false_iff.mp hnull)

end Aggregator

/-- Where the values without NULL have a result, an aggregator gives it exactly if it adds up no
number before a NULL. -/
theorem foldlM_accumulate_iff {aggregateType : AggregateType} {result : Value F}
    (hresult : aggregateOf aggregateType (withoutNulls values) = .ok result)
    (hnumeric : aggregateType.adds = true →
      ∀ value ∈ values, value.isNull = true ∨ Aggregator.isNumber value = true) :
    (∃ last, values.foldlM Aggregator.accumulate (Aggregator.create aggregateType) = .ok last) ↔
      (aggregateType.adds = true → NullsInFront values) := by
  constructor
  · intro ⟨last, hfold⟩ hadds
    exact Aggregator.nullsInFront_of_foldlM hadds rfl (hnumeric hadds) hfold
  · intro hfront
    obtain ⟨last', hfold, -⟩ := bind_eq_ok hresult
    obtain ⟨last, hlast, -⟩ := Aggregator.foldlM_agrees (.refl (Aggregator.create aggregateType))
      (fun hadds => ⟨fun _ => hfront hadds, nofun⟩) hfold
    exact ⟨last, hlast⟩

theorem aggregateOf_withoutNulls {aggregateType : AggregateType} {result : Value F}
    (hresult : aggregateOf aggregateType (withoutNulls values) = .ok result)
    (hfront : aggregateType.adds = true → NullsInFront values) :
    aggregateOf aggregateType values = .ok result := by
  obtain ⟨last', hfold, heval⟩ := bind_eq_ok hresult
  obtain ⟨last, hlast, hagrees⟩ :=
    Aggregator.foldlM_agrees (.refl (Aggregator.create aggregateType))
      (fun hadds => ⟨fun _ => hfront hadds, nofun⟩) hfold
  rw [aggregateOf, hlast]
  exact hagrees.evaluate.trans heval

end Sql

end ObHtap
