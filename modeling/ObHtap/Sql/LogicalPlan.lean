import ObHtap.Sql.GroupYield

/-!
# Logical plans

The trees of logical operators and the physical operators that `PhysicalPlanGenerator` makes of
them.
-/

namespace ObHtap

namespace Sql

/-- What the generators ask of columns and of the expressions of other kinds: `value_type`, the
aggregates in them, and whether a column in them is missing in a list of expressions to group by. -/
class ExprTypes (F O : Type) where
  fieldType : FieldExpr → AttrType
  otherType : O → AttrType
  otherAggregates : O → Except Fault (List (AggregateCall F O))
  otherUnbound : List (NamedExpr F O) → O → Bool

instance : ExprTypes ℚ Empty where
  fieldType _ := .ints
  otherType := nofun
  otherAggregates := nofun
  otherUnbound _ := nofun

variable {F O : Type}

/-- `value_type`. -/
def Expression.valueType [ExprTypes F O] : Expression F O → AttrType
  | .field column => ExprTypes.fieldType F O column
  | .value v => v.attrType
  | .cast _ castType => castType
  | .comparison _ _ _ => .booleans
  | .conjunction _ _ => .booleans
  | .aggregate _ child _ => child.valueType
  | .other expr => ExprTypes.otherType F expr

/-- The operators with one child. -/
inductive LogicalOperator (F O : Type) where
  | predicate (expr : Expression F O)
  | orderBy (orderBy : List (Expression F O × OrderByType))
  | limit (limit : Int)
  | groupBy (groupBy : List (NamedExpr F O)) (calls : List (AggregateCall F O))
  | projection (expressions : List (NamedExpr F O))

/-- A tree of logical operators; `absent` stands for a child that is missing. -/
inductive LogicalPlan (F O : Type) where
  | tableGet (tableName tableAlias : String) (predicates : List (Expression F O))
  | fatherTuple
  | join (left right : LogicalPlan F O)
  | unary (oper : LogicalOperator F O) (child : LogicalPlan F O)
  | absent

/-- The record scanner of a table under an alias. -/
abbrev Contents (F : Type) :=
  String → String → TableScanner F

namespace LogicalOperator

/-- The physical operator over that of the child. -/
def physical (child : PhysicalPlan F O) : LogicalOperator F O → PhysicalPlan F O
  | predicate expr => .predicate expr child
  | orderBy exprs => .sort exprs child
  | limit n => .limit n child
  | groupBy [] calls => .scalarGroupBy calls child
  | groupBy exprs calls => .hashGroupBy exprs calls child
  | projection expressions => .project expressions child

/-- What the constructor of the physical operator asserts. -/
def asserted [ExprTypes F O] : LogicalOperator F O → Bool
  | predicate expr => expr.valueType = .booleans
  | _ => true

variable [Floats F] [StrLike F] [OtherExpr F O] [StdSort (Tuple F O)]

/-- What an operator gives over a child that gives `y`. -/
def yield (y : Yield F O) : LogicalOperator F O → Yield F O
  | predicate expr => y.predicate expr
  | orderBy exprs => y.sort exprs
  | limit n => y.limit n
  | groupBy [] calls => y.scalarGroupBy calls
  | groupBy exprs calls => y.hashGroupBy exprs calls
  | projection expressions => y.project expressions

theorem yieldOf_physical (oper : LogicalOperator F O) (child : PhysicalPlan F O) :
    yieldOf (oper.physical child).cursor = oper.yield (yieldOf child.cursor) := by
  cases oper with
  | predicate expr => exact yieldOf_predicate expr child.cursor
  | orderBy exprs => exact yieldOf_sort exprs
  | limit n => exact yieldOf_limit n
  | groupBy exprs calls =>
    cases exprs with
    | nil => exact yieldOf_scalarGroupBy calls
    | cons expr exprs => exact yieldOf_hashGroupBy (expr :: exprs) calls
  | projection expressions => exact yieldOf_project expressions child.cursor

end LogicalOperator

namespace LogicalPlan

variable [ExprTypes F O]

/-- `PhysicalPlanGenerator::create`, with tables that are read by a table scan.  Only a projection
does not assert that it has its child. -/
def create (db : Contents F) : LogicalPlan F O → Except Fault (PhysicalPlan F O)
  | tableGet tableName tableAlias predicates =>
    .ok (.tableScan (db tableName tableAlias) predicates)
  | fatherTuple => .ok .fatherTuple
  | join left right => do .ok (.nestedLoopJoin (← create db left) (← create db right))
  | unary (.projection expressions) absent => .ok (.project expressions .absent)
  | unary oper child => do
    let physical ← create db child
    if oper.asserted then .ok (oper.physical physical) else .error .abort
  | absent => .error .abort

variable [Floats F] [StrLike F] [OtherExpr F O] [StdSort (Tuple F O)]

/-- All that the operators of a plan give. -/
def yield (db : Contents F) (plan : LogicalPlan F O) : Except Fault (Yield F O) :=
  (plan.create db).map fun physical => yieldOf physical.cursor

/-- The return code of `open` and what comes after it. -/
def results (db : Contents F) (plan : LogicalPlan F O) :
    Except Fault (Except Fault Unit × Tuples F O) :=
  (plan.create db).map fun physical => physical.cursor.openAndDrain physical.cursor.init

theorem results_eq (db : Contents F) (plan : LogicalPlan F O) :
    plan.results db = (plan.yield db).map fun y => (y.opened, y.drained) := by
  unfold results yield
  cases plan.create db with
  | error fault => rfl
  | ok physical => rfl

section

variable {db : Contents F} {child left right : LogicalPlan F O}

theorem yield_tableGet (tableName tableAlias : String) (predicates : List (Expression F O)) :
    (tableGet tableName tableAlias predicates).yield db =
      .ok (scanYield (db tableName tableAlias).opened
        (filterTuples predicates (rowTuples (db tableName tableAlias).records))) :=
  congrArg Except.ok (yieldOf_tableScan _ _)

theorem yield_join :
    (join left right).yield db =
      (do .ok (Yield.join (← left.yield db) (← right.yield db))) := by
  unfold yield
  rw [create]
  cases left.create db with
  | error fault => rfl
  | ok physical =>
    cases right.create db with
    | error fault => rfl
    | ok physical' => exact congrArg Except.ok yieldOf_nestedLoopJoin

theorem yield_unary (oper : LogicalOperator F O) (hchild : child ≠ absent) :
    (unary oper child).yield db =
      (do let y ← child.yield db; if oper.asserted then .ok (oper.yield y) else .error .abort) := by
  have hcreate : (unary oper child).create db = (do
      let physical ← child.create db
      if oper.asserted then .ok (oper.physical physical) else .error .abort) := by
    rw [create]
    intro expressions _ habsent
    exact hchild habsent
  unfold yield
  rw [hcreate]
  cases child.create db with
  | error fault => rfl
  | ok physical =>
    change Except.map _ (if _ then _ else _) = if _ then _ else _
    split_ifs
    · exact congrArg Except.ok (oper.yieldOf_physical physical)
    · rfl

/-- A projection without a child has only its row of constants. -/
theorem yield_projection_absent (expressions : List (NamedExpr F O)) :
    (unary (.projection expressions) absent).yield db =
      .ok (Yield.project expressions ⟨([], eof), .ok (), ([], eof)⟩) :=
  congrArg Except.ok ((yieldOf_project expressions Sql.absent).trans
    (congrArg (Yield.project expressions) yieldOf_absent))

/-- A plan with a yield has an operator at its root. -/
theorem ne_absent_of_yield {y : Yield F O} (h : child.yield db = .ok y) : child ≠ absent := by
  rintro rfl
  cases h

theorem yield_unary_of_ok {y : Yield F O} (oper : LogicalOperator F O)
    (hasserted : oper.asserted = true) (h : child.yield db = .ok y) :
    (unary oper child).yield db = .ok (oper.yield y) := by
  rw [yield_unary oper (ne_absent_of_yield h), h]
  exact if_pos hasserted

/-- What an operator over a child gives is made from what the child gives. -/
theorem yield_unary_cases {y : Yield F O} {oper : LogicalOperator F O} (hchild : child ≠ absent)
    (h : (unary oper child).yield db = .ok y) :
    ∃ z, child.yield db = .ok z ∧ oper.asserted = true ∧ y = oper.yield z := by
  rw [yield_unary oper hchild] at h
  obtain ⟨z, hz, h⟩ := bind_eq_ok h
  split_ifs at h with hasserted
  cases h
  exact ⟨z, hz, hasserted, rfl⟩

theorem results_of_yield {y : Yield F O} (h : child.yield db = .ok y) :
    child.results db = .ok (y.opened, y.drained) := by
  rw [results_eq, h]
  rfl

end

end LogicalPlan

end Sql

end ObHtap
