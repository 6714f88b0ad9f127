import Mathlib.Data.List.Basic

/-!
# Three-valued logic

The truth values of strong Kleene logic: true, false, and unknown.
-/

namespace ObHtap

/-- `none` is unknown. -/
abbrev Truth := Option Bool

namespace Truth

def not : Truth → Truth :=
  Option.map (!·)

/-- The disjunction of a list. -/
def any (truths : List Truth) : Truth :=
  if some true ∈ truths then some true else if none ∈ truths then none else some false

/-- What a filter makes of a truth value: unknown is not true. -/
def holds (truth : Truth) : Bool :=
  truth = some true

@[simp] theorem holds_some (b : Bool) : holds (some b) = b := by
  cases b <;> decide

@[simp] theorem not_some (b : Bool) : not (some b) = some (!b) :=
  rfl

theorem holds_not {truth : Truth} : truth.not.holds = true ↔ truth = some false := by
  cases truth with
  | none => decide
  | some b => cases b <;> decide

theorem holds_any {truths : List Truth} :
    (any truths).holds = truths.any fun truth => truth.holds := by
  unfold any
  split_ifs with htrue hnone
  · exact (List.any_eq_true.mpr ⟨some true, htrue, rfl⟩).symm
  all_goals
    refine (List.any_eq_false.mpr fun truth hmem htruth => htrue ?_).symm
    rwa [of_decide_eq_true htruth] at hmem

/-- The negation of a disjunction is true if all of it is false. -/
theorem holds_not_any {truths : List Truth} :
    (any truths).not.holds = truths.all fun truth => truth.not.holds := by
  rw [Bool.eq_iff_iff, holds_not, List.all_eq_true]
  simp only [holds_not]
  unfold any
  constructor
  · intro h truth hmem
    have htrue : some true ∉ truths := fun htrue => by
      rw [if_pos htrue] at h
      cases h
    have hnone : none ∉ truths := fun hnone => by
      rw [if_neg htrue, if_pos hnone] at h
      cases h
    match truth with
    | none => exact absurd hmem hnone
    | some true => exact absurd hmem htrue
    | some false => rfl
  · intro h
    rw [if_neg fun htrue => absurd (h _ htrue) (by decide),
      if_neg fun hnone => absurd (h _ hnone) (by decide)]

end Truth

end ObHtap
