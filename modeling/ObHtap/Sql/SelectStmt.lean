import ObHtap.Sql.GroupByOperator

/-!
# Select statements

What the parser makes of the clauses of a `SELECT`, and `SelectStmt::create`, with the expressions
of the conditions bound.
-/

namespace ObHtap

namespace Sql

/-- A comparison of a condition list. -/
structure Condition (F O : Type) where
  comp : CompOp
  left : Expression F O
  right : Expression F O

/-- `FilterUnit`: a comparison with the connective behind it in the text, `AND` behind the last. -/
structure FilterUnit (F O : Type) where
  condition : Condition F O
  conjunctionType : ConjunctionType

/-- Comparisons joined by `AND` and `OR`, as they stand in the text. -/
inductive ConditionText (F O : Type) where
  | condition (condition : Condition F O)
  | joined (condition : Condition F O) (connective : ConjunctionType) (rest : ConditionText F O)

variable {F O : Type}

/-- The actions of `condition_list`, which put the first comparison behind the others. -/
def conditionList : ConditionText F O → List (FilterUnit F O)
  | .condition condition => [⟨condition, .and⟩]
  | .joined condition connective rest => conditionList rest ++ [⟨condition, connective⟩]

/-- `INNER JOIN … ON …`. -/
structure JoinEntry (F O : Type) where
  joinTable : String × String
  joinConditions : List (FilterUnit F O)

/-- `SelectSqlNode`, a table with its alias in front; the joins are in the opposite order of the
text. -/
structure SelectSqlNode (F O : Type) where
  expressions : List (NamedExpr F O)
  relations : List (String × String)
  joinInfo : List (JoinEntry F O)
  conditions : List (FilterUnit F O)
  groupBy : List (NamedExpr F O)
  groupByConditions : List (FilterUnit F O)
  orderBy : List (Expression F O × OrderByType)
  limit : Int

/-- `SelectStmt`. -/
structure SelectStmt (F O : Type) where
  tables : List (String × String)
  queryExpressions : List (NamedExpr F O)
  filterUnits : List (FilterUnit F O)
  groupBy : List (NamedExpr F O)
  groupByFilterUnits : List (FilterUnit F O)
  orderBy : List (Expression F O × OrderByType)
  limit : Int

/-- `SelectStmt::create`: the joins become tables and conditions of the statement.  Two tables of one
alias are refused.  The tables are there, as the binding of the expressions found them. -/
def SelectStmt.create (select : SelectSqlNode F O) : Except Fault (SelectStmt F O) :=
  let relations := select.relations ++ select.joinInfo.reverse.map JoinEntry.joinTable
  if (relations.map Prod.fst).Nodup then
    .ok {
      tables := relations
      queryExpressions := select.expressions
      filterUnits := select.conditions ++ select.joinInfo.flatMap JoinEntry.joinConditions
      groupBy := select.groupBy
      groupByFilterUnits := select.groupByConditions
      orderBy := select.orderBy
      limit := select.limit }
  else .error (.rc .error)

/-! ## Condition lists with one connective -/

/-- Comparisons with one connective between them. -/
structure Formula (F O : Type) where
  connective : ConjunctionType
  first : Condition F O
  rest : List (Condition F O)

namespace Formula

def comparisons (formula : Formula F O) : List (Condition F O) :=
  formula.first :: formula.rest

/-- The text of comparisons that are joined by a connective. -/
def textOf (connective : ConjunctionType) (first : Condition F O) :
    List (Condition F O) → ConditionText F O
  | [] => .condition first
  | next :: rest => .joined first connective (textOf connective next rest)

def text (formula : Formula F O) : ConditionText F O :=
  textOf formula.connective formula.first formula.rest

/-- What the parser makes of a formula. -/
def units (formula : Formula F O) : List (FilterUnit F O) :=
  conditionList formula.text

theorem conditions_textOf (connective : ConjunctionType) (first : Condition F O)
    (rest : List (Condition F O)) :
    (conditionList (textOf connective first rest)).map FilterUnit.condition =
      (first :: rest).reverse := by
  induction rest generalizing first with
  | nil => rfl
  | cons next rest ih =>
    have hreverse : (first :: next :: rest).reverse = (next :: rest).reverse ++ [first] :=
      List.reverse_cons
    rw [textOf, conditionList, List.map_append, ih, hreverse]
    rfl

theorem conditions_units (formula : Formula F O) :
    formula.units.map FilterUnit.condition = formula.comparisons.reverse :=
  conditions_textOf _ _ _

/-- The connective of every unit is that of the formula, but for the last comparison, which comes
first and has an `AND`. -/
theorem conjunctionType_of_mem {connective : ConjunctionType} {first : Condition F O}
    {rest : List (Condition F O)} {unit : FilterUnit F O}
    (h : unit ∈ conditionList (textOf connective first rest)) :
    unit.conjunctionType = .and ∨ unit.conjunctionType = connective := by
  induction rest generalizing first with
  | nil =>
    cases List.mem_singleton.mp h
    exact Or.inl rfl
  | cons next rest ih =>
    rcases List.mem_append.mp h with hmem | hmem
    · exact ih hmem
    · cases List.mem_singleton.mp hmem
      exact Or.inr rfl

/-- The last unit has the connective, when there is one. -/
theorem getLast_units {formula : Formula F O} (h : formula.rest ≠ []) :
    formula.units.getLast? = some ⟨formula.first, formula.connective⟩ := by
  obtain ⟨connective, first, rest⟩ := formula
  cases rest with
  | nil => exact absurd rfl h
  | cons next rest => exact List.getLast?_concat

end Formula

end Sql

end ObHtap
