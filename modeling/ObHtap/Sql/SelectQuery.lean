import ObHtap.Sql.SelectRows

/-!
# Select queries

A `SELECT` over tables with `ON` and `WHERE`: its plan gives the rows of the product on which all its
formulas are true, as long as the comparisons of each formula with `OR` stay together.
-/

namespace ObHtap

namespace Sql

open LogicalPlan

/-- `SELECT … FROM … INNER JOIN … ON … WHERE …`; a table has its alias in front. -/
structure SelectQuery (F O : Type) where
  expressions : List (NamedExpr F O)
  relations : List (String × String)
  joins : List ((String × String) × Option (Formula F O))
  whereFormula : Option (Formula F O)

variable {F O : Type}

namespace SelectQuery

/-- The units of a clause that may be missing. -/
def unitsOf : Option (Formula F O) → List (FilterUnit F O)
  | none => []
  | some formula => formula.units

/-- What the parser makes of the query. -/
def node (query : SelectQuery F O) : SelectSqlNode F O where
  expressions := query.expressions
  relations := query.relations
  joinInfo := query.joins.reverse.map fun join => ⟨join.1, unitsOf join.2⟩
  conditions := unitsOf query.whereFormula
  groupBy := []
  groupByConditions := []
  orderBy := []
  limit := -1

def tables (query : SelectQuery F O) : List (String × String) :=
  query.relations ++ query.joins.map Prod.fst

/-- The formula of `WHERE` and those of `ON`, the last of them first. -/
def formulas (query : SelectQuery F O) : List (Formula F O) :=
  query.whereFormula.toList ++ query.joins.reverse.flatMap fun join => join.2.toList

/-- The comparisons that the plan generator takes apart. -/
def units (query : SelectQuery F O) : List (FilterUnit F O) :=
  query.formulas.flatMap Formula.units

theorem flatMap_units_toList (formula : Option (Formula F O)) :
    formula.toList.flatMap Formula.units = unitsOf formula := by
  cases formula with
  | none => rfl
  | some formula => exact List.append_nil _

/-- The statement of a query has its tables and its comparisons in one list. -/
theorem create_eq {query : SelectQuery F O} {select : SelectStmt F O}
    (h : SelectStmt.create query.node = .ok select) :
    select = ⟨query.tables, query.expressions, query.units, [], [], [], -1⟩ := by
  have htables : query.node.relations ++ query.node.joinInfo.reverse.map JoinEntry.joinTable =
      query.tables := by
    simp only [node, tables, List.map_reverse, List.reverse_reverse, List.map_map]
    rfl
  have hunits : query.node.conditions ++ query.node.joinInfo.flatMap JoinEntry.joinConditions =
      query.units := by
    rw [units, formulas, List.flatMap_append, flatMap_units_toList, List.flatMap_assoc]
    simp only [node, flatMap_units_toList, List.flatMap_map]
  unfold SelectStmt.create at h
  dsimp only at h
  rw [htables, hunits] at h
  split_ifs at h
  exact (Except.ok.inj h).symm

/-! ## Plans of queries -/

/-- The groups that the plan makes of the comparisons. -/
def groups (query : SelectQuery F O) : List (List (FilterUnit F O)) :=
  Sql.groups [] query.units query.tables

/-- The comparisons of each formula that needs an `OR` are a group, and in no other formula. -/
def AlternativesTogether (query : SelectQuery F O) : Prop :=
  ∀ formula ∈ query.formulas, formula.Alternatives → formula.units ∈ query.groups ∧
    ∀ other ∈ query.formulas, ∀ unit ∈ formula.units, unit ∈ other.units → other = formula

theorem together {query : SelectQuery F O} (h : query.AlternativesTogether) :
    Together query.formulas query.groups where
  mem := fun _ hgroup _ hunit => List.mem_flatMap.mp (mem_of_mem_groups hgroup hunit)
  exists_group := fun formula hformula _ hunit =>
    Sql.exists_group (List.mem_flatMap.mpr ⟨formula, hformula, hunit⟩)
  unique := fun _ hgroup _ hgroup' _ hunit hunit' => group_unique hgroup hgroup' hunit hunit'
  alternatives := fun formula hformula halternatives => (h formula hformula halternatives).1
  alone := fun formula hformula halternatives => (h formula hformula halternatives).2

variable [ExprTypes F O]

/-- No aggregate, and not only constants and functions of constants. -/
structure PlainExpressions [OtherExpr F O] (expressions : List (NamedExpr F O)) : Prop where
  aggregates : ∀ named ∈ expressions, named.expr.aggregates = .ok []
  notConstant : (expressions.all fun named => named.expr.pureValue) = false

theorem mapM_aggregates {expressions : List (NamedExpr F O)}
    (h : ∀ named ∈ expressions, named.expr.aggregates = .ok []) :
    ∃ found, (expressions.mapM fun named => named.expr.aggregates) = .ok found ∧
      found.flatten = [] := by
  induction expressions with
  | nil => exact ⟨[], rfl, rfl⟩
  | cons named expressions ih =>
    obtain ⟨found, hfound, hflatten⟩ := ih fun named' hmem => h named' (List.mem_cons_of_mem _ hmem)
    refine ⟨[] :: found, ?_, hflatten⟩
    rw [List.mapM_cons, h named List.mem_cons_self, hfound]
    rfl

variable [Floats F] [StrLike F] [OtherExpr F O]

/-- There is only a projection over the joins and their predicates. -/
theorem createPlan_eq {query : SelectQuery F O} {select : SelectStmt F O} {plan : LogicalPlan F O}
    (hselect : SelectStmt.create query.node = .ok select)
    (hplan : createPlan select false = .ok plan) (hplain : PlainExpressions query.expressions) :
    ∃ child, createFrom select false = .ok child ∧
      plan = .unary (.projection query.expressions) child := by
  obtain ⟨child, hchild, hplan⟩ := bind_eq_ok hplan
  have hgroup : addGroupBy select child = .ok child := by
    obtain ⟨found, hfound, hflatten⟩ := mapM_aggregates hplain.aggregates
    have haggregates : select.aggregates = .ok [] := by
      rw [create_eq hselect, SelectStmt.aggregates]
      dsimp only
      rw [hfound]
      exact congrArg Except.ok ((List.append_nil _).trans hflatten)
    rw [addGroupBy, createGroupByPlan, haggregates, create_eq hselect]
    rfl
  refine ⟨child, hchild, ?_⟩
  have hsame : addLimit select (addOrderBy select child) = child := by
    rw [create_eq hselect]
    rfl
  rw [hsame, hgroup, create_eq hselect] at hplan
  exact (Except.ok.inj hplan).symm

/-- The comparisons of the query have values on the rows that come to their predicates. -/
def Evaluates (query : SelectQuery F O) (rows : TableRows F) : Prop :=
  PredicatesEvaluate rows [] query.units none query.tables

/-- The rows of the select list for tuples of the joins. -/
def project (query : SelectQuery F O) (tuples : List (Tuple F O)) : List (Tuple F O) :=
  tuples.map fun tuple => .expression query.expressions (some tuple)

/-- What the query asks for: the rows of the product on which all formulas are true. -/
def rows (query : SelectQuery F O) (rows : TableRows F) : List (Tuple F O) :=
  query.project ((product rows none query.tables).filter fun tuple =>
    query.formulas.all fun formula => formula.isTrue tuple)

variable [StdSort (Tuple F O)]

/-- What the plan gives: the rows of the product that pass the predicates of all groups. -/
theorem results_groups (query : SelectQuery F O) (rows : TableRows F) {select : SelectStmt F O}
    {plan : LogicalPlan F O} (hselect : SelectStmt.create query.node = .ok select)
    (hplan : createPlan select false = .ok plan) (htables : query.tables ≠ [])
    (hplain : PlainExpressions query.expressions) (heval : query.Evaluates rows) :
    plan.results rows.contents = .ok (.ok (), query.project
      ((product rows none query.tables).filter fun tuple =>
        query.groups.all fun group => groupIsTrue tuple group), eof) := by
  obtain ⟨child, hchild, rfl⟩ := createPlan_eq hselect hplan hplain
  obtain ⟨⟨joined, left⟩, htable, hrest⟩ := bind_eq_ok hchild
  rw [create_eq hselect] at htable
  have hgives : Gives rows.contents child
      (predicateRows rows [] query.units none query.tables) :=
    createTables_gives (Or.inr htables) htable hrest rfl heval
  rw [predicateRows_eq heval] at hgives
  obtain ⟨y, hyield, hopened, hdrained⟩ := hgives
  rw [results_of_yield (yield_unary_of_ok (.projection query.expressions) rfl hyield)]
  have hproject : (y.project query.expressions).drained =
      (query.project y.drained.1, y.drained.2) := by
    change projectTuples query.expressions y.drained = _
    rw [projectTuples, hplain.notConstant]
    rfl
  change Except.ok (y.opened, (y.project query.expressions).drained) = _
  rw [hproject, hopened, hdrained]
  rfl

/-- Two predicates that leave the same of a list are the same on it. -/
theorem eq_of_filter_eq {α : Type} {l : List α} {p q : α → Bool} (h : l.filter p = l.filter q) :
    ∀ x ∈ l, p x = q x := by
  intro x hx
  have hmem : x ∈ l.filter p ↔ x ∈ l.filter q := by rw [h]
  rw [Bool.eq_iff_iff]
  simpa [List.mem_filter, hx] using hmem

/-- The plan of a query gives what the query asks for exactly if on every row of the product the
groups say what the formulas say, and they do when the comparisons of each formula with `OR` stay
together. -/
theorem createPlan_results (query : SelectQuery F O) (rows : TableRows F)
    {select : SelectStmt F O} {plan : LogicalPlan F O}
    (hselect : SelectStmt.create query.node = .ok select)
    (hplan : createPlan select false = .ok plan) (htables : query.tables ≠ [])
    (hplain : PlainExpressions query.expressions) (heval : query.Evaluates rows) :
    (plan.results rows.contents = .ok (.ok (), query.rows rows, eof) ↔
        ∀ tuple ∈ product rows none query.tables,
          (query.groups.all fun group => groupIsTrue tuple group) =
            query.formulas.all fun formula => formula.isTrue tuple) ∧
      (query.AlternativesTogether →
        plan.results rows.contents = .ok (.ok (), query.rows rows, eof)) := by
  have hresults := results_groups query rows hselect hplan htables hplain heval
  have hiff : plan.results rows.contents = .ok (.ok (), query.rows rows, eof) ↔
      ∀ tuple ∈ product rows none query.tables,
        (query.groups.all fun group => groupIsTrue tuple group) =
          query.formulas.all fun formula => formula.isTrue tuple := by
    have hinjective : Function.Injective fun tuple : Tuple F O =>
        Tuple.expression query.expressions (some tuple) := by
      intro tuple tuple' heq
      cases heq
      rfl
    rw [hresults, Except.ok.injEq, Prod.mk.injEq, Prod.mk.injEq, SelectQuery.rows, project, project,
      (List.map_injective_iff.mpr hinjective).eq_iff]
    exact ⟨fun h => eq_of_filter_eq h.2.1, fun hsame => ⟨rfl, List.filter_congr hsame, rfl⟩⟩
  refine ⟨hiff, fun htogether => hiff.mpr fun tuple _ => ?_⟩
  exact (together htogether).all_iff.symm

section

/-- A comparison of a column with a constant. -/
def equals (tableName fieldName : String) (n : Int32) : Condition ℚ Empty :=
  ⟨.equalTo, .field ⟨tableName, fieldName, tableName⟩, .value (.ints n)⟩

/-- `a` with the row `x = 1` and `b` with the row `y = 3`. -/
def oneRowEach : TableRows ℚ
  | "a" => [[("x", .ints 1)]]
  | _ => [[("y", .ints 3)]]

/-- `SELECT a.x FROM a, b WHERE a.x = 1 OR b.y = 2`. -/
def twoTables : SelectQuery ℚ Empty where
  expressions := [⟨"a.x", .field ⟨"a", "x", "a"⟩⟩]
  relations := [("a", "a"), ("b", "b")]
  joins := []
  whereFormula := some ⟨.or, equals "a" "x" 1, [equals "b" "y" 2]⟩

theorem plain_selectX :
    PlainExpressions [(⟨"a.x", .field ⟨"a", "x", "a"⟩⟩ : NamedExpr ℚ Empty)] where
  aggregates := by
    intro named hmem
    cases List.mem_singleton.mp hmem
    rfl
  notConstant := rfl

/-- Comparisons have values where their evaluation goes well. -/
theorem evaluates_of_all {tuples : List (Tuple ℚ Empty)} {units : List (FilterUnit ℚ Empty)}
    (h : (tuples.all fun tuple => units.all fun unit =>
      (unit.condition.comparison.bind tuple.eval).isOk) = true) :
    ∀ tuple ∈ tuples, ∀ unit ∈ units, unit.condition.Evaluates tuple := by
  intro tuple htuple unit hunit expr hexpr
  have hok := List.all_eq_true.mp (List.all_eq_true.mp h tuple htuple) unit hunit
  rw [hexpr] at hok
  cases heval : tuple.eval expr with
  | ok value => exact ⟨value, rfl⟩
  | error fault =>
    rw [Except.bind, heval] at hok
    cases hok

theorem evaluates_twoTables : twoTables.Evaluates oneRowEach :=
  ⟨evaluates_of_all rfl, evaluates_of_all rfl, evaluates_of_all rfl⟩

/-- `a.x = 1` is asked of `a` and `b.y = 2` of the join: the row of the product goes. -/
theorem createPlan_results_differs :
    ∃ select plan, SelectStmt.create twoTables.node = .ok select ∧
      createPlan select false = .ok plan ∧
      plan.results oneRowEach.contents ≠ .ok (.ok (), twoTables.rows oneRowEach, eof) := by
  refine ⟨_, _, rfl, rfl, ?_⟩
  have hplan : (product oneRowEach none twoTables.tables).filter (fun tuple =>
      twoTables.groups.all fun group => groupIsTrue tuple group) = [] :=
    rfl
  have hquery : (product oneRowEach none twoTables.tables).filter (fun tuple =>
      twoTables.formulas.all fun formula => formula.isTrue tuple) =
        product oneRowEach none twoTables.tables :=
    rfl
  have hresults := results_groups twoTables oneRowEach rfl rfl nofun plain_selectX
    evaluates_twoTables
  rw [hresults, SelectQuery.rows, hplan, hquery]
  nofun

/-- `SELECT a.x FROM a INNER JOIN b ON b.y = 3 WHERE a.x = 1 OR a.x = 2`. -/
def joinedTables : SelectQuery ℚ Empty where
  expressions := [⟨"a.x", .field ⟨"a", "x", "a"⟩⟩]
  relations := [("a", "a")]
  joins := [(("b", "b"), some ⟨.and, equals "b" "y" 3, []⟩)]
  whereFormula := some ⟨.or, equals "a" "x" 1, [equals "a" "x" 2]⟩

theorem alternativesTogether_joinedTables : joinedTables.AlternativesTogether := by
  intro formula hformula halternatives
  rcases List.mem_cons.mp hformula with rfl | hjoin
  · refine ⟨List.mem_cons_self, ?_⟩
    intro other hother unit hunit hunit'
    rcases List.mem_cons.mp hother with rfl | hjoin
    · rfl
    · cases List.mem_singleton.mp hjoin
      cases List.mem_singleton.mp hunit'
      simp [Formula.units, Formula.text, Formula.textOf, conditionList, equals] at hunit
  · cases List.mem_singleton.mp hjoin
    exact absurd rfl halternatives.2

theorem createPlan_results_joinedTables :
    ∃ select plan, SelectStmt.create joinedTables.node = .ok select ∧
      createPlan select false = .ok plan ∧
      plan.results oneRowEach.contents = .ok (.ok (), joinedTables.rows oneRowEach, eof) :=
  ⟨_, _, rfl, rfl, (createPlan_results joinedTables oneRowEach rfl rfl nofun plain_selectX
    ⟨evaluates_of_all rfl, evaluates_of_all rfl, evaluates_of_all rfl⟩).2
      alternativesTogether_joinedTables⟩

end

end SelectQuery

end Sql

end ObHtap
