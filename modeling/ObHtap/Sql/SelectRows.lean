import ObHtap.Sql.FilterGroups

/-!
# The rows of a select statement

The plan of a `SELECT` over tables with `ON` and `WHERE`, against the product of the tables.
-/

namespace ObHtap

namespace Sql

open LogicalPlan

variable {F O : Type}

/-! ## Comparisons of columns and constants -/

/-- An expression over columns and constants. -/
def Expression.Simple : Expression F O → Prop
  | .field _ => True
  | .value _ => True
  | .cast child _ => child.Simple
  | .comparison _ left right => left.Simple ∧ right.Simple
  | _ => False

/-- A tuple with more tables joined to its right. -/
inductive Extends (tuple : Tuple F O) : Tuple F O → Prop
  | refl : Extends tuple tuple
  | joined {tuple' right : Tuple F O} (h : Extends tuple tuple') :
      Extends tuple (.joined tuple' right)

theorem Extends.trans {tuple tuple' tuple'' : Tuple F O} (h : Extends tuple tuple')
    (h' : Extends tuple' tuple'') : Extends tuple tuple'' := by
  induction h' with
  | refl => exact h
  | joined _ ih => exact ih.joined

/-- What a tuple has, a join has with it on the left. -/
theorem findCell_of_extends {tuple tuple' : Tuple F O} [Floats F] [StrLike F] [OtherExpr F O]
    {spec : TupleCellSpec} {value : Value F} (hcell : tuple.findCell spec = .ok value)
    (h : Extends tuple tuple') : tuple'.findCell spec = .ok value := by
  induction h with
  | refl => exact hcell
  | joined h ih => rw [Tuple.findCell, ih]

section

variable [Floats F] [StrLike F] [OtherExpr F O] {tuple tuple' : Tuple F O}

/-- Joins to the right leave the value of an expression as it is. -/
theorem eval_of_extends (expr : Expression F O) (hsimple : expr.Simple) {value : Value F}
    (hvalue : tuple.eval expr = .ok value) (h : Extends tuple tuple') :
    tuple'.eval expr = .ok value := by
  unfold Tuple.eval at hvalue ⊢
  cases expr with
  | field column => exact findCell_of_extends hvalue h
  | value v => exact hvalue
  | cast child castType =>
    rw [Expression.getValue] at hvalue ⊢
    obtain ⟨v, hchild, hcast⟩ := bind_eq_ok hvalue
    have hchild' := eval_of_extends child hsimple hchild h
    unfold Tuple.eval at hchild'
    rw [hchild']
    exact hcast
  | comparison comp left right =>
    rw [Expression.getValue] at hvalue ⊢
    obtain ⟨v, hleft, hrest⟩ := bind_eq_ok hvalue
    obtain ⟨w, hright, hcomp⟩ := bind_eq_ok hrest
    have hleft' := eval_of_extends left hsimple.1 hleft h
    have hright' := eval_of_extends right hsimple.2 hright h
    unfold Tuple.eval at hleft' hright'
    rw [hleft', hright']
    exact hcomp
  | conjunction conjunctionType children => exact hsimple.elim
  | aggregate aggregateType child name => exact hsimple.elim
  | other expr => exact hsimple.elim

end

section

variable {expr : Expression F O}

theorem simple_of_checkSide {tableSet : List String} (h : checkSide tableSet expr = true) :
    expr.Simple := by
  cases expr with
  | field column => trivial
  | value v => trivial
  | _ => cases h

variable [Floats F] [StrLike F]

theorem simple_implicitCast {expr' : Expression F O} {castType : AttrType} (hsimple : expr.Simple)
    (h : expr.implicitCast castType = .ok expr') : expr'.Simple := by
  unfold Expression.implicitCast at h
  split at h
  · obtain ⟨v, -, h⟩ := bind_eq_ok h
    cases h
    trivial
  · cases h
    exact hsimple

variable [ExprTypes F O]

/-- The comparison of two simple sides is simple, whatever is cast. -/
theorem simple_comparison {condition : Condition F O} (hleft : condition.left.Simple)
    (hright : condition.right.Simple) (h : condition.comparison = .ok expr) : expr.Simple := by
  have hplain : ∀ comp, (Expression.comparison comp condition.left condition.right).Simple :=
    fun _ => ⟨hleft, hright⟩
  unfold Condition.comparison at h
  dsimp only at h
  split at h
  · cases h
    exact hplain _
  · cases h
    exact hplain _
  · split_ifs at h
    cases h
    exact hplain _
  · split_ifs at h
    cases h
    exact hplain _
  · split_ifs at h
    cases h
    exact hplain _
  · split_ifs at h
    cases h
    exact hplain _
  · split_ifs at h
    · cases h
      exact hplain _
    · obtain ⟨left, hcast, h⟩ := bind_eq_ok h
      cases h
      exact ⟨simple_implicitCast hleft hcast, hright⟩
    · obtain ⟨right, hcast, h⟩ := bind_eq_ok h
      cases h
      exact ⟨hleft, simple_implicitCast hright hcast⟩
    · cases h
      exact hplain _

end

/-! ## Plans that give a list of tuples -/

section

variable [Floats F] [StrLike F] [OtherExpr F O] [ExprTypes F O] [StdSort (Tuple F O)]
  {db : Contents F} {plan plan' : LogicalPlan F O} {tuples tuples' : List (Tuple F O)}

/-- The plan opens, gives the tuples and ends well. -/
def Gives (db : Contents F) (plan : LogicalPlan F O) (tuples : List (Tuple F O)) : Prop :=
  ∃ y, plan.yield db = .ok y ∧ y.opened = .ok () ∧ y.drained = (tuples, eof)

theorem Gives.join (h : Gives db plan tuples) (h' : Gives db plan' tuples') :
    Gives db (.join plan plan') (pairs tuples tuples') := by
  obtain ⟨left, hleft, hopened, hdrained⟩ := h
  obtain ⟨right, hright, -, hdrained'⟩ := h'
  have hjoin : left.join right = ⟨joinTuples left.unopened [], left.opened,
      joinTuples left.drained right.drained.1⟩ := by
    rw [Yield.join, hdrained']
  refine ⟨left.join right, ?_, ?_, ?_⟩
  · rw [yield_join, hleft, hright]
    rfl
  · rw [hjoin]
    exact hopened
  · rw [hjoin, hdrained, hdrained']
    exact congrArg (Prod.mk _) (ite_self _)

/-- The records of the tables, each with its fields. -/
abbrev TableRows (F : Type) :=
  String → List (List (String × Value F))

/-- Scanners that do not fail. -/
def TableRows.contents (rows : TableRows F) : Contents F := fun tableName tableAlias =>
  ⟨.ok (), (rows tableName).map fun fields => .ok ⟨tableName, tableAlias, fields⟩, fun _ => false⟩

/-- The tuples of a table under its alias. -/
def rowsIn (rows : TableRows F) (table : String × String) : List (Tuple F O) :=
  (rows table.2).map fun fields => .row ⟨table.2, table.1, fields⟩

theorem gives_tableGet (rows : TableRows F) (table : String × String) :
    Gives rows.contents (.tableGet table.2 table.1 []) (rowsIn rows table : List (Tuple F O)) := by
  have hrows : ∀ records : List (List (String × Value F)),
      rowsOf (records.map fun fields => .ok ⟨table.2, table.1, fields⟩) =
        (records.map fun fields => ⟨table.2, table.1, fields⟩, eof) := by
    intro records
    induction records with
    | nil => rfl
    | cons fields records ih => rw [List.map_cons, rowsOf, ih, List.map_cons]
  refine ⟨_, yield_tableGet _ _ _, rfl, ?_⟩
  change filterTuples [] (rowTuples _) = _
  rw [filterTuples_nil, rowTuples, TableRows.contents, hrows, rowsIn, List.map_map]
  rfl

end

/-! ## Products of tables -/

/-- The tuples so far with the rows of the next table; `none` is before the first table. -/
def joinRows (tuples : Option (List (Tuple F O))) (rows : List (Tuple F O)) : List (Tuple F O) :=
  match tuples with
  | none => rows
  | some tuples => pairs tuples rows

/-- The product of the tables. -/
def product (rows : TableRows F) (tuples : Option (List (Tuple F O))) :
    List (String × String) → List (Tuple F O)
  | [] => tuples.getD []
  | table :: tables => product rows (some (joinRows tuples (rowsIn rows table))) tables

/-- The left tuples of a join can be filtered first. -/
theorem pairs_filter {tuples : List (Tuple F O)} (rows : List (Tuple F O)) {p : Tuple F O → Bool}
    (hp : ∀ tuple ∈ tuples, ∀ right, p (.joined tuple right) = p tuple) :
    pairs (tuples.filter p) rows = (pairs tuples rows).filter p := by
  induction tuples with
  | nil => rfl
  | cons tuple tuples ih =>
    have hsame : ∀ joined ∈ rows.map (Tuple.joined tuple), p joined = p tuple := by
      intro joined hmem
      obtain ⟨right, -, rfl⟩ := List.mem_map.mp hmem
      exact hp tuple List.mem_cons_self right
    have hrest := ih fun tuple' hmem => hp tuple' (List.mem_cons_of_mem _ hmem)
    have hpairs : pairs (tuple :: tuples) rows = rows.map (.joined tuple) ++ pairs tuples rows :=
      List.flatMap_cons
    rw [hpairs, List.filter_append, List.filter_congr hsame, ← hrest]
    cases htuple : p tuple with
    | true =>
      rw [List.filter_cons_of_pos htuple, List.filter_true]
      exact List.flatMap_cons
    | false =>
      rw [List.filter_cons_of_neg (by simp [htuple]), List.filter_false]
      rfl

/-- A condition that joins do not change can be asked before them. -/
theorem product_filter {rows : TableRows F} {tuples : List (Tuple F O)} {p : Tuple F O → Bool}
    (hp : ∀ tuple ∈ tuples, ∀ tuple', Extends tuple tuple' → p tuple' = p tuple)
    (tables : List (String × String)) :
    product rows (some (tuples.filter p)) tables =
      (product rows (some tuples) tables).filter p := by
  induction tables generalizing tuples with
  | nil => rfl
  | cons table tables ih =>
    have hpairs := pairs_filter (rowsIn rows table) fun tuple hmem right =>
      hp tuple hmem (.joined tuple right) (.joined .refl)
    rw [product, product, joinRows, joinRows, hpairs]
    apply ih
    intro tuple hmem tuple' hextends
    obtain ⟨left, hleft, hmem⟩ := List.mem_flatMap.mp hmem
    obtain ⟨right, -, rfl⟩ := List.mem_map.mp hmem
    have hjoined : Extends left (.joined left right) := .joined .refl
    rw [hp left hleft tuple' (hjoined.trans hextends), hp left hleft _ hjoined]

section

variable [Floats F] [StrLike F] [OtherExpr F O] [ExprTypes F O] [StdSort (Tuple F O)]
  {plan : LogicalPlan F O}

/-- The plan so far gives the tuples so far. -/
def GivesSoFar (db : Contents F) (plan : LogicalPlan F O) : Option (List (Tuple F O)) → Prop
  | none => plan = .absent
  | some tuples => Gives db plan tuples

theorem gives_joinTable {rows : TableRows F} {tuples : Option (List (Tuple F O))}
    (h : GivesSoFar rows.contents plan tuples) (table : String × String) :
    Gives rows.contents (joinTable plan (.tableGet table.2 table.1 []))
      (joinRows tuples (rowsIn rows table)) := by
  have htable := gives_tableGet (O := O) rows table
  cases tuples with
  | none =>
    cases h
    exact htable
  | some tuples =>
    have hjoin : joinTable plan (.tableGet table.2 table.1 []) =
        .join plan (.tableGet table.2 table.1 []) := by
      obtain ⟨y, hyield, -⟩ := h
      cases plan with
      | absent => cases hyield
      | _ => rfl
    rw [hjoin]
    exact Gives.join h htable

end

/-! ## Predicates of groups -/

section

variable [Floats F] [ExprTypes F O] [StrLike F] [OtherExpr F O]

/-- A comparison has a value on a tuple. -/
def Condition.Evaluates (tuple : Tuple F O) (condition : Condition F O) : Prop :=
  ∀ expr, condition.comparison = .ok expr → ∃ value, tuple.eval expr = .ok value

variable {tuple tuple' : Tuple F O}

theorem isTrue_of_extends {condition : Condition F O} (hleft : condition.left.Simple)
    (hright : condition.right.Simple) (heval : condition.Evaluates tuple)
    (h : Extends tuple tuple') : condition.isTrue tuple' = condition.isTrue tuple := by
  unfold Condition.isTrue
  split
  next expr hexpr =>
    obtain ⟨value, hvalue⟩ := heval expr hexpr
    rw [hvalue, eval_of_extends expr (simple_comparison hleft hright hexpr) hvalue h]
  · rfl

theorem isTrue_of_eval {condition : Condition F O} {expr : Expression F O} {value : Value F}
    (hexpr : condition.comparison = .ok expr) (hvalue : tuple.eval expr = .ok value) :
    condition.isTrue tuple = value.getBoolean := by
  unfold Condition.isTrue
  rw [hexpr]
  change decide ((tuple.eval expr).map Value.getBoolean = .ok true) = value.getBoolean
  rw [hvalue]
  cases hboolean : value.getBoolean with
  | true => exact decide_eq_true (congrArg Except.ok hboolean)
  | false => simp [Except.map, hboolean]

/-- The loop over the comparisons of a group. -/
theorem conjunctionValue_group (conjunctionType : ConjunctionType) {group : List (FilterUnit F O)}
    {exprs : List (Expression F O)}
    (hexprs : group.mapM (fun unit => unit.condition.comparison) = .ok exprs)
    (heval : ∀ unit ∈ group, unit.condition.Evaluates tuple) :
    ∃ value, Expression.conjunctionValue (Tuple.cellsOf tuple.findCell) conjunctionType exprs =
        .ok value ∧
      value.getBoolean = match conjunctionType with
        | .and => group.all fun unit => unit.condition.isTrue tuple
        | .or => group.any fun unit => unit.condition.isTrue tuple := by
  induction group generalizing exprs with
  | nil =>
    cases hexprs
    cases conjunctionType with
    | and => exact ⟨.booleans true, rfl, rfl⟩
    | or => exact ⟨.booleans false, rfl, rfl⟩
  | cons unit group ih =>
    rw [List.mapM_cons] at hexprs
    obtain ⟨expr, hexpr, hrest⟩ := bind_eq_ok hexprs
    obtain ⟨exprs', hexprs', heq⟩ := bind_eq_ok hrest
    cases heq
    obtain ⟨value, hvalue⟩ := heval unit List.mem_cons_self expr hexpr
    obtain ⟨value', hvalue', hboolean⟩ := ih hexprs' fun unit' hunit' =>
      heval unit' (List.mem_cons_of_mem _ hunit')
    have htrue := isTrue_of_eval hexpr hvalue
    have hloop : Expression.conjunctionValue (Tuple.cellsOf tuple.findCell) conjunctionType
        (expr :: exprs') =
        if conjunctionType = .and ∧ value.getBoolean = false ∨
            conjunctionType = .or ∧ value.getBoolean = true then .ok (.booleans value.getBoolean)
        else .ok value' := by
      have hget : expr.getValue (Tuple.cellsOf tuple.findCell) = .ok value := hvalue
      rw [Expression.conjunctionValue, hget, ← hvalue']
      rfl
    have hconstant : ∀ b : Bool, (Value.booleans b : Value F).getBoolean = b := fun _ => rfl
    rw [hloop]
    cases hboolean' : value.getBoolean with
    | true =>
      cases conjunctionType with
      | and => exact ⟨value', by simp, by simp [hboolean, htrue, hboolean']⟩
      | or => exact ⟨.booleans true, by simp, by simp [hconstant, htrue, hboolean']⟩
    | false =>
      cases conjunctionType with
      | and => exact ⟨.booleans false, by simp, by simp [hconstant, htrue, hboolean']⟩
      | or => exact ⟨value', by simp, by simp [hboolean, htrue, hboolean']⟩

/-- The operator over a group lets through the tuples on which the group is true. -/
theorem predicateStep_group {units : List (FilterUnit F O)} {expr : Expression F O}
    (hexpr : filterExpression units = .ok (some expr))
    (heval : ∀ unit ∈ units, unit.condition.Evaluates tuple) :
    predicateStep expr tuple = .ok (if groupIsTrue tuple units then some tuple else none) := by
  obtain ⟨exprs, hexprs, hlast⟩ := bind_eq_ok hexpr
  obtain ⟨last, hunit, rfl⟩ := Option.map_eq_some_iff.mp (Except.ok.inj hlast)
  obtain ⟨value, hvalue, hboolean⟩ :=
    conjunctionValue_group last.conjunctionType hexprs heval
  have hne : exprs ≠ [] := by
    rintro rfl
    cases units with
    | nil => cases hunit
    | cons unit units =>
      rw [List.mapM_cons] at hexprs
      obtain ⟨expr, -, hrest⟩ := bind_eq_ok hexprs
      obtain ⟨exprs, -, heq⟩ := bind_eq_ok hrest
      cases heq
  have hget : tuple.eval (.conjunction last.conjunctionType exprs) = .ok value := by
    cases exprs with
    | nil => exact absurd rfl hne
    | cons expr exprs =>
      rw [Tuple.eval, Expression.getValue]
      exact hvalue
  have hgroup : groupIsTrue tuple units = value.getBoolean := by
    rw [groupIsTrue, hunit, hboolean]
    cases last with
    | mk condition conjunctionType =>
      cases conjunctionType with
      | and => rfl
      | or => rfl
  rw [predicateStep, hget, hgroup]
  rfl

/-- What a group says of a tuple it says of all its joins. -/
theorem groupIsTrue_of_extends {tableSet : List String} {units : List (FilterUnit F O)}
    (hcheck : ∀ unit ∈ units, check tableSet unit = true)
    (heval : ∀ unit ∈ units, unit.condition.Evaluates tuple) (h : Extends tuple tuple') :
    groupIsTrue tuple' units = groupIsTrue tuple units := by
  have hunit : ∀ unit ∈ units, unit.condition.isTrue tuple' = unit.condition.isTrue tuple := by
    intro unit hmem
    obtain ⟨hleft, hright⟩ := Bool.and_eq_true_iff.mp (hcheck unit hmem)
    exact isTrue_of_extends (simple_of_checkSide hleft) (simple_of_checkSide hright)
      (heval unit hmem) h
  unfold groupIsTrue
  split
  · rfl
  · rw [Bool.eq_iff_iff, List.all_eq_true, List.all_eq_true]
    exact forall₂_congr fun unit hmem => by rw [hunit unit hmem]
  · rw [Bool.eq_iff_iff, List.any_eq_true, List.any_eq_true]
    exact exists_congr fun unit => and_congr_right fun hmem => by rw [hunit unit hmem]

/-! ## The rows of the joins -/

/-- What the predicates leave of the product, table by table and then above the joins. -/
def predicateRows (rows : TableRows F) (tableSet : List String) (units : List (FilterUnit F O))
    (tuples : Option (List (Tuple F O))) : List (String × String) → List (Tuple F O)
  | [] => (tuples.getD []).filter fun tuple => groupIsTrue tuple units
  | table :: tables =>
    let tableSet := table.1 :: tableSet
    let current := units.filter (check tableSet)
    predicateRows rows tableSet (units.filter fun unit => !check tableSet unit)
      (some ((joinRows tuples (rowsIn rows table)).filter fun tuple => groupIsTrue tuple current))
      tables

/-- The comparisons have values on all the rows that come to their predicate. -/
def PredicatesEvaluate (rows : TableRows F) (tableSet : List String)
    (units : List (FilterUnit F O)) (tuples : Option (List (Tuple F O))) :
    List (String × String) → Prop
  | [] => ∀ tuple ∈ tuples.getD [], ∀ unit ∈ units, unit.condition.Evaluates tuple
  | table :: tables =>
    let tableSet := table.1 :: tableSet
    let current := units.filter (check tableSet)
    let joined := joinRows tuples (rowsIn rows table)
    (∀ tuple ∈ joined, ∀ unit ∈ current, unit.condition.Evaluates tuple) ∧
      PredicatesEvaluate rows tableSet (units.filter fun unit => !check tableSet unit)
        (some (joined.filter fun tuple => groupIsTrue tuple current)) tables

/-- The predicates table by table leave what they leave above the product. -/
theorem predicateRows_eq {rows : TableRows F} {tableSet : List String}
    {units : List (FilterUnit F O)} {tuples : Option (List (Tuple F O))}
    {tables : List (String × String)}
    (heval : PredicatesEvaluate rows tableSet units tuples tables) :
    predicateRows rows tableSet units tuples tables = (product rows tuples tables).filter fun tuple =>
      (groups tableSet units tables).all fun group => groupIsTrue tuple group := by
  induction tables generalizing tableSet units tuples with
  | nil =>
    rw [predicateRows, product, groups]
    simp
  | cons table tables ih =>
    rw [predicateRows, ih heval.2, product_filter, List.filter_filter]
    · apply List.filter_congr
      intro tuple _
      rw [groups, List.all_cons, Bool.and_comm]
    · intro tuple hmem tuple' hextends
      exact groupIsTrue_of_extends (fun unit hunit => (List.mem_filter.mp hunit).2)
        (heval.1 tuple hmem) hextends

variable [StdSort (Tuple F O)] {db : Contents F} {plan plan' : LogicalPlan F O}
  {tuples : List (Tuple F O)}

/-- What the predicate of a group leaves. -/
theorem Gives.addPredicate {units : List (FilterUnit F O)} (h : Gives db plan tuples)
    (hplan : addPredicate units plan = .ok plan')
    (heval : ∀ tuple ∈ tuples, ∀ unit ∈ units, unit.condition.Evaluates tuple) :
    Gives db plan' (tuples.filter fun tuple => groupIsTrue tuple units) := by
  obtain ⟨expr, hexpr, hrest⟩ := bind_eq_ok hplan
  cases expr with
  | none =>
    obtain ⟨exprs, -, hlast⟩ := bind_eq_ok hexpr
    have hnone : units.getLast? = none := Option.map_eq_none_iff.mp (Except.ok.inj hlast)
    cases hrest
    have htrue : ∀ tuple ∈ tuples, groupIsTrue tuple units = true := by
      intro tuple _
      rw [groupIsTrue, hnone]
    rw [List.filter_eq_self.mpr htrue]
    exact h
  | some expr =>
    cases hrest
    obtain ⟨y, hyield, hopened, hdrained⟩ := h
    obtain ⟨exprs, -, hlast⟩ := bind_eq_ok hexpr
    obtain ⟨last, -, heq⟩ := Option.map_eq_some_iff.mp (Except.ok.inj hlast)
    have hasserted : (LogicalOperator.predicate expr).asserted = true := by rw [← heq]; rfl
    refine ⟨y.predicate expr, yield_unary_of_ok _ hasserted hyield, hopened, ?_⟩
    change predicateTuples expr y.drained = _
    rw [hdrained]
    exact Cursor.findList_filter fun tuple hmem => predicateStep_group hexpr (heval tuple hmem)

/-- The plan of the tables with all its predicates. -/
theorem createTables_gives {rows : TableRows F} {tableSet : List String}
    {units left : List (FilterUnit F O)} {tuples : Option (List (Tuple F O))}
    {tables : List (String × String)} {joined : LogicalPlan F O}
    (hsome : tuples ≠ none ∨ tables ≠ [])
    (htables : createTables tableSet units plan tables = .ok (joined, left))
    (hrest : addPredicate left joined = .ok plan')
    (h : GivesSoFar rows.contents plan tuples)
    (heval : PredicatesEvaluate rows tableSet units tuples tables) :
    Gives rows.contents plan' (predicateRows rows tableSet units tuples tables) := by
  induction tables generalizing tableSet units plan tuples with
  | nil =>
    cases htables
    cases tuples with
    | none => simp at hsome
    | some tuples => exact Gives.addPredicate h hrest heval
  | cons table tables ih =>
    obtain ⟨plan₁, hadd, htables⟩ := bind_eq_ok htables
    have hgives := (gives_joinTable h table).addPredicate hadd heval.1
    exact ih (Or.inl (Option.some_ne_none _)) htables hgives heval.2

end

end Sql

end ObHtap
