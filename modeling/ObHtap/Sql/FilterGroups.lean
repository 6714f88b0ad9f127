import ObHtap.Sql.LogicalPlanGenerator
import ObHtap.Sql.PredicatePushdown

/-!
# How the comparisons are grouped

Each predicate of a plan takes the comparisons that can be put there, and joins them by one
connective.
-/

namespace ObHtap

namespace Sql

variable {F O : Type}

/-! ## Groups -/

/-- The comparisons of the predicates, one group for each table and one above the joins. -/
def groups (tableSet : List String) (units : List (FilterUnit F O)) :
    List (String × String) → List (List (FilterUnit F O))
  | [] => [units]
  | table :: tables =>
    units.filter (check (table.1 :: tableSet)) ::
      groups (table.1 :: tableSet) (units.filter fun unit => !check (table.1 :: tableSet) unit)
        tables

variable {tableSet : List String} {units : List (FilterUnit F O)} {tables : List (String × String)}
  {unit : FilterUnit F O}

theorem mem_of_mem_groups {group : List (FilterUnit F O)}
    (hgroup : group ∈ groups tableSet units tables) (hunit : unit ∈ group) : unit ∈ units := by
  induction tables generalizing tableSet units with
  | nil =>
    cases List.mem_singleton.mp hgroup
    exact hunit
  | cons table tables ih =>
    rcases List.mem_cons.mp hgroup with rfl | hmem
    · exact List.mem_of_mem_filter hunit
    · exact List.mem_of_mem_filter (ih hmem)

/-- Every comparison is in a group. -/
theorem exists_group (hunit : unit ∈ units) :
    ∃ group ∈ groups tableSet units tables, unit ∈ group := by
  induction tables generalizing tableSet units with
  | nil => exact ⟨units, List.mem_singleton_self _, hunit⟩
  | cons table tables ih =>
    by_cases hcheck : check (table.1 :: tableSet) unit = true
    · exact ⟨_, List.mem_cons_self, List.mem_filter.mpr ⟨hunit, hcheck⟩⟩
    · have hleft : unit ∈ units.filter fun unit => !check (table.1 :: tableSet) unit :=
        List.mem_filter.mpr ⟨hunit, by simpa using hcheck⟩
      obtain ⟨group, hgroup, hmem⟩ := ih hleft
      exact ⟨group, List.mem_cons_of_mem _ hgroup, hmem⟩

/-- No comparison is in two groups. -/
theorem group_unique {group group' : List (FilterUnit F O)}
    (hgroup : group ∈ groups tableSet units tables)
    (hgroup' : group' ∈ groups tableSet units tables) (hunit : unit ∈ group)
    (hunit' : unit ∈ group') : group = group' := by
  induction tables generalizing tableSet units with
  | nil => rw [List.mem_singleton.mp hgroup, List.mem_singleton.mp hgroup']
  | cons table tables ih =>
    -- What a table takes is not there for the tables behind it.
    have hbehind : ∀ later ∈ groups (table.1 :: tableSet)
        (units.filter fun unit => !check (table.1 :: tableSet) unit) tables,
        unit ∈ later → unit ∉ units.filter (check (table.1 :: tableSet)) := by
      intro later hlater hmem htaken
      have hleft := (List.mem_filter.mp (mem_of_mem_groups hlater hmem)).2
      rw [(List.mem_filter.mp htaken).2] at hleft
      cases hleft
    rcases List.mem_cons.mp hgroup with rfl | hmem
    · rcases List.mem_cons.mp hgroup' with rfl | hmem'
      · rfl
      · exact absurd hunit (hbehind group' hmem' hunit')
    · rcases List.mem_cons.mp hgroup' with rfl | hmem'
      · exact absurd hunit' (hbehind group hmem hunit)
      · exact ih hmem hmem'

/-! ## Formulas and groups -/

/-- The formula needs an `OR`. -/
def Formula.Alternatives (formula : Formula F O) : Prop :=
  formula.connective = .or ∧ formula.rest ≠ []

theorem Formula.conjunctionType_of_mem_units {formula : Formula F O} (h : ¬formula.Alternatives)
    (hunit : unit ∈ formula.units) : unit.conjunctionType = .and := by
  rcases Formula.conjunctionType_of_mem hunit with hand | hconnective
  · exact hand
  · by_cases hrest : formula.rest = []
    · rw [Formula.units, Formula.text, hrest] at hunit
      cases List.mem_singleton.mp hunit
      rfl
    · cases hformula : formula.connective with
      | and => exact hconnective.trans hformula
      | or => exact absurd ⟨hformula, hrest⟩ h

variable [Floats F] [ExprTypes F O] [StrLike F] [OtherExpr F O] {tuple : Tuple F O}

/-- A comparison is true on a tuple. -/
def Condition.isTrue (tuple : Tuple F O) (condition : Condition F O) : Bool :=
  match condition.comparison with
  | .ok expr => decide ((tuple.eval expr).map Value.getBoolean = .ok true)
  | .error _ => false

/-- A formula is true on a tuple. -/
def Formula.isTrue (tuple : Tuple F O) (formula : Formula F O) : Bool :=
  match formula.connective with
  | .and => formula.comparisons.all (Condition.isTrue tuple)
  | .or => formula.comparisons.any (Condition.isTrue tuple)

/-- What the predicate of a group asks: the connective of its last comparison joins them. -/
def groupIsTrue (tuple : Tuple F O) (group : List (FilterUnit F O)) : Bool :=
  match group.getLast? with
  | none => true
  | some ⟨_, .and⟩ => group.all fun unit => unit.condition.isTrue tuple
  | some ⟨_, .or⟩ => group.any fun unit => unit.condition.isTrue tuple

theorem Formula.any_units (formula : Formula F O) :
    (formula.units.any fun unit => unit.condition.isTrue tuple) =
      formula.comparisons.any (Condition.isTrue tuple) := by
  have hmap := List.any_map (f := FilterUnit.condition) (p := Condition.isTrue tuple)
    (l := formula.units)
  rw [formula.conditions_units, List.any_reverse] at hmap
  exact hmap.symm

/-- Apart from those with alternatives, a formula asks for all its comparisons. -/
theorem Formula.isTrue_iff {formula : Formula F O} (h : ¬formula.Alternatives) :
    formula.isTrue tuple = true ↔
      ∀ unit ∈ formula.units, unit.condition.isTrue tuple = true := by
  have hall : (∀ unit ∈ formula.units, unit.condition.isTrue tuple = true) ↔
      ∀ condition ∈ formula.comparisons, condition.isTrue tuple = true := by
    rw [← List.forall_mem_map (f := FilterUnit.condition)
      (P := fun condition => condition.isTrue tuple = true), formula.conditions_units]
    simp only [List.mem_reverse]
  rw [hall, Formula.isTrue]
  cases hconnective : formula.connective with
  | and => exact List.all_eq_true
  | or =>
    have hrest : formula.rest = [] := by
      by_contra hrest
      exact h ⟨hconnective, hrest⟩
    simp [Formula.comparisons, hrest]

/-- The comparisons of formulas, when those with alternatives are each alone in a group. -/
structure Together (formulas : List (Formula F O)) (groups : List (List (FilterUnit F O))) :
    Prop where
  mem : ∀ group ∈ groups, ∀ unit ∈ group, ∃ formula ∈ formulas, unit ∈ formula.units
  exists_group : ∀ formula ∈ formulas, ∀ unit ∈ formula.units, ∃ group ∈ groups, unit ∈ group
  unique : ∀ group ∈ groups, ∀ group' ∈ groups, ∀ unit ∈ group, unit ∈ group' → group = group'
  alternatives : ∀ formula ∈ formulas, formula.Alternatives → formula.units ∈ groups
  alone : ∀ formula ∈ formulas, formula.Alternatives → ∀ other ∈ formulas,
    ∀ unit ∈ formula.units, unit ∈ other.units → other = formula

variable {formulas : List (Formula F O)} {allGroups : List (List (FilterUnit F O))}

/-- A group that is not a formula with alternatives asks for all its comparisons. -/
theorem Together.groupIsTrue_iff (h : Together formulas allGroups) {group : List (FilterUnit F O)}
    (hgroup : group ∈ allGroups)
    (hother : ∀ formula ∈ formulas, formula.Alternatives → formula.units ≠ group) :
    groupIsTrue tuple group = true ↔ ∀ unit ∈ group, unit.condition.isTrue tuple = true := by
  have hand : ∀ unit ∈ group, unit.conjunctionType = .and := by
    intro unit hunit
    obtain ⟨formula, hformula, hmem⟩ := h.mem group hgroup unit hunit
    apply Formula.conjunctionType_of_mem_units _ hmem
    intro halternatives
    have hunits := h.alternatives formula hformula halternatives
    exact hother formula hformula halternatives
      (h.unique _ hunits _ hgroup unit hmem hunit)
  unfold groupIsTrue
  split
  next hlast =>
    rw [List.getLast?_eq_none_iff.mp hlast]
    simp
  next hlast => exact List.all_eq_true
  next condition hlast =>
    cases hand _ (List.mem_of_getLast? hlast)

theorem groupIsTrue_of_alternatives {formula : Formula F O} (h : formula.Alternatives) :
    groupIsTrue tuple formula.units = formula.isTrue tuple := by
  rw [groupIsTrue, Formula.getLast_units h.2, h.1, Formula.isTrue, h.1]
  exact formula.any_units

/-- All formulas are true where all groups are. -/
theorem Together.all_iff (h : Together formulas allGroups) :
    (formulas.all fun formula => formula.isTrue tuple) =
      allGroups.all fun group => groupIsTrue tuple group := by
  rw [Bool.eq_iff_iff, List.all_eq_true, List.all_eq_true]
  constructor
  · intro hformulas group hgroup
    by_cases hother : ∀ formula ∈ formulas, formula.Alternatives → formula.units ≠ group
    · apply (h.groupIsTrue_iff hgroup hother).mpr
      intro unit hunit
      obtain ⟨formula, hformula, hmem⟩ := h.mem group hgroup unit hunit
      apply (Formula.isTrue_iff _).mp (hformulas formula hformula) unit hmem
      intro halternatives
      have hunits := h.alternatives formula hformula halternatives
      exact hother formula hformula halternatives (h.unique _ hunits _ hgroup unit hmem hunit)
    · push Not at hother
      obtain ⟨formula, hformula, halternatives, rfl⟩ := hother
      rw [groupIsTrue_of_alternatives halternatives]
      exact hformulas formula hformula
  · intro hgroups formula hformula
    by_cases halternatives : formula.Alternatives
    · rw [← groupIsTrue_of_alternatives halternatives]
      exact hgroups _ (h.alternatives formula hformula halternatives)
    · apply (Formula.isTrue_iff halternatives).mpr
      intro unit hunit
      obtain ⟨group, hgroup, hmem⟩ := h.exists_group formula hformula unit hunit
      apply (h.groupIsTrue_iff hgroup _).mp (hgroups group hgroup) unit hmem
      intro formula' hformula' halternatives' heq
      have hother := h.alone formula' hformula' halternatives' formula hformula unit (heq ▸ hmem)
        hunit
      exact halternatives (hother ▸ halternatives')

end Sql

end ObHtap
