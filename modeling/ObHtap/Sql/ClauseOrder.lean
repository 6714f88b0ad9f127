import ObHtap.Sql.GroupedRows

/-!
# The order of the clauses

Grouping, `HAVING`, `ORDER BY` and `LIMIT` on the filtered rows, in the order of SQL and in that of
the plans, which sort and cut off the rows before they are grouped.
-/

namespace ObHtap

namespace Sql

open LogicalPlan

variable {F O : Type} [Floats F] [StrLike F] [OtherExpr F O]

/-! ## The clauses on rows -/

/-- The rows in the order of `ORDER BY`, if there is one. -/
def sortedRows [StdSort (Tuple F O)] (orderBy : List (Expression F O × OrderByType))
    (rows : List (Tuple F O)) : Except Fault (List (Tuple F O)) :=
  if orderBy.isEmpty then .ok rows else StdSort.sort (comesBefore · · orderBy) rows

/-- The first rows, if there is a `LIMIT`. -/
def limitedRows {T : Type} (limit : Int) (rows : List T) : List T :=
  if 0 ≤ limit then rows.take limit.toNat else rows

theorem limitedRows_of_length_le {T : Type} {limit : Int} {rows : List T}
    (h : 0 ≤ limit → rows.length ≤ limit) : limitedRows limit rows = rows := by
  unfold limitedRows
  split_ifs with hlimit
  · exact List.take_of_length_le (by have := h hlimit; omega)
  · rfl

section

variable [ExprTypes F O] [StdSort (Tuple F O)] {db : Contents F} {plan : LogicalPlan F O}
  {rows tuples : List (Tuple F O)}

theorem Gives.unary_groupBy {groupBy : List (NamedExpr F O)} {calls : List (AggregateCall F O)}
    (h : Gives db plan rows) (htuples : groupedRows groupBy calls rows = .ok tuples)
    (hcompare : KeysCompare groupBy rows) (hreads : ∀ tuple ∈ rows, ReadsInOne calls tuple) :
    Gives db (.unary (.groupBy groupBy calls) plan) tuples := by
  obtain ⟨y, hyield, hopened, hdrained⟩ := h
  cases groupBy with
  | nil =>
    obtain ⟨member, hmember, hgroups⟩ := scalarGroup_eq htuples hreads
    refine ⟨y.scalarGroupBy calls, yield_unary_of_ok (.groupBy [] calls) rfl hyield, ?_, ?_⟩
    · rw [Yield.scalarGroupBy, Yield.eager, hopened, hdrained]
      exact congrArg Prod.fst hmember
    · rw [Yield.scalarGroupBy, Yield.eager, hopened, hdrained]
      exact (congrArg (fun opened => scalarTuples opened.2) hmember).trans hgroups
  | cons named groupBy =>
    obtain ⟨groups, hopen, hgroups⟩ :=
      hashGroups_eq (List.cons_ne_nil named groupBy) htuples hcompare hreads
    refine ⟨y.hashGroupBy (named :: groupBy) calls,
      yield_unary_of_ok (.groupBy (named :: groupBy) calls) rfl hyield, ?_, ?_⟩
    · rw [Yield.hashGroupBy, Yield.eager, hopened, hdrained]
      exact congrArg Prod.fst hopen
    · rw [Yield.hashGroupBy, Yield.eager, hopened, hdrained]
      exact (congrArg (fun opened => opened.2.tuples) hopen).trans hgroups

theorem Gives.addOrderBy {select : SelectStmt F O} (h : Gives db plan rows)
    (hsorted : sortedRows select.orderBy rows = .ok tuples) :
    Gives db (addOrderBy select plan) tuples := by
  unfold sortedRows at hsorted
  unfold Sql.addOrderBy
  split_ifs at hsorted ⊢
  · cases hsorted
    exact h
  · obtain ⟨y, hyield, hopened, hdrained⟩ := h
    have hsort : sortTuples select.orderBy rows eof = (.ok (), tuples) := by
      rw [eof, sortTuples, hsorted]
    refine ⟨y.sort select.orderBy, yield_unary_of_ok (.orderBy select.orderBy) rfl hyield, ?_, ?_⟩
    · rw [Yield.sort, Yield.eager, hopened, hdrained]
      exact congrArg Prod.fst hsort
    · rw [Yield.sort, Yield.eager, hopened, hdrained]
      exact congrArg (fun opened => (opened.2, eof)) hsort

theorem Gives.addLimit (select : SelectStmt F O) (h : Gives db plan rows) :
    Gives db (addLimit select plan) (limitedRows select.limit rows) := by
  unfold limitedRows Sql.addLimit
  split_ifs with hlimit
  · obtain ⟨y, hyield, hopened, hdrained⟩ := h
    refine ⟨y.limit select.limit, yield_unary_of_ok (.limit select.limit) rfl hyield, hopened, ?_⟩
    change limitTuples select.limit y.drained = _
    rw [hdrained, limitTuples]
    split_ifs with hle
    · rfl
    · have hlength : ¬select.limit ≤ rows.length := hle
      rw [List.take_of_length_le (by omega)]
  · exact h

end

variable [ExprTypes F O]

theorem filter_groupIsTrue_nil (rows : List (Tuple F O)) :
    (rows.filter fun tuple => groupIsTrue tuple []) = rows :=
  List.filter_eq_self.mpr fun _ _ => rfl

namespace SelectStmt

/-- The rows or, when there is a grouping, one row for each group of them. -/
def groupsOf (select : SelectStmt F O) (rows : List (Tuple F O)) :
    Except Fault (List (Tuple F O)) := do
  match ← createGroupByPlan select with
  | some calls => groupedRows select.groupBy calls rows
  | none => .ok rows

theorem length_groupsOf_le {select : SelectStmt F O} {rows groups : List (Tuple F O)}
    (h : select.groupsOf rows = .ok groups) : groups.length ≤ max 1 rows.length := by
  obtain ⟨calls, -, h⟩ := bind_eq_ok h
  cases calls with
  | none =>
    cases h
    exact le_max_right _ _
  | some calls => exact length_groupedRows_le h

variable [StdSort (Tuple F O)]

/-- What a select asks of the filtered rows: all of them are grouped, then come `HAVING`, the order
and the limit. -/
def answer (select : SelectStmt F O) (rows : List (Tuple F O)) :
    Except Fault (List (Tuple F O)) := do
  let groups ← select.groupsOf rows
  let sorted ← sortedRows select.orderBy
    (groups.filter fun tuple => groupIsTrue tuple select.groupByFilterUnits)
  .ok (limitedRows select.limit sorted)

/-- Keys can be compared, the arguments of the aggregates can be read into one `Value`, and the
comparisons of `HAVING` have values on the groups. -/
structure Evaluates (select : SelectStmt F O) (rows : List (Tuple F O)) : Prop where
  keys : KeysCompare select.groupBy rows
  reads : ∀ calls, createGroupByPlan select = .ok (some calls) →
    ∀ tuple ∈ rows, ReadsInOne calls tuple
  having : ∀ groups, select.groupsOf rows = .ok groups →
    ∀ tuple ∈ groups, ∀ unit ∈ select.groupByFilterUnits, unit.condition.Evaluates tuple

/-- Nothing to be done between the filter and `ORDER BY`, or no `ORDER BY` and no `LIMIT` that cuts
anything off. -/
def ClausesInOrder (select : SelectStmt F O) (rows : List (Tuple F O)) : Prop :=
  createGroupByPlan select = .ok none ∧ select.groupByFilterUnits = [] ∨
    select.orderBy = [] ∧ (0 ≤ select.limit → 1 ≤ select.limit ∧ rows.length ≤ select.limit)

end SelectStmt

/-! ## The operators on rows -/

section

variable [StdSort (Tuple F O)] {db : Contents F} {plan plan' : LogicalPlan F O}
  {rows tuples : List (Tuple F O)}

theorem Gives.addGroupBy {select : SelectStmt F O} (h : Gives db plan rows)
    (hplan : addGroupBy select plan = .ok plan') (hgroups : select.groupsOf rows = .ok tuples)
    (heval : select.Evaluates rows) : Gives db plan' tuples := by
  unfold Sql.addGroupBy at hplan
  unfold SelectStmt.groupsOf at hgroups
  obtain ⟨calls, hcalls, hplan⟩ := bind_eq_ok hplan
  rw [hcalls] at hgroups
  cases calls with
  | none =>
    cases hplan
    cases hgroups
    exact h
  | some calls =>
    cases hplan
    exact h.unary_groupBy hgroups heval.keys (heval.reads calls hcalls)

end

/-! ## Plans of selects -/

variable [StdSort (Tuple F O)] {db : Contents F} {select : SelectStmt F O}
  {rows result : List (Tuple F O)}

/-- The operators between the filter and the projection give what the clauses ask for. -/
theorem gives_clauses {plan grouped filtered : LogicalPlan F O} (hrows : Gives db plan rows)
    (hgrouped : addGroupBy select (addLimit select (addOrderBy select plan)) = .ok grouped)
    (hfiltered : addPredicate select.groupByFilterUnits grouped = .ok filtered)
    (hanswer : select.answer rows = .ok result) (heval : select.Evaluates rows)
    (hordered : select.ClausesInOrder rows) : Gives db filtered result := by
  obtain ⟨groups, hgroups, hanswer⟩ := bind_eq_ok hanswer
  obtain ⟨sorted, hsorted, heq⟩ := bind_eq_ok hanswer
  cases heq
  rcases hordered with ⟨hnone, hhaving⟩ | ⟨horder, hlimit⟩
  · have hsame : groups = rows := by
      unfold SelectStmt.groupsOf at hgroups
      rw [hnone] at hgroups
      exact (Except.ok.inj hgroups).symm
    have hplan : grouped = addLimit select (addOrderBy select plan) := by
      unfold addGroupBy at hgrouped
      rw [hnone] at hgrouped
      exact (Except.ok.inj hgrouped).symm
    rw [hhaving, filter_groupIsTrue_nil, hsame] at hsorted
    rw [hhaving, hplan] at hfiltered
    have hfinal := ((hrows.addOrderBy hsorted).addLimit select).addPredicate hfiltered
      fun _ _ _ hunit => absurd hunit List.not_mem_nil
    rw [filter_groupIsTrue_nil] at hfinal
    exact hfinal
  · have hsorted' : sortedRows select.orderBy rows = .ok rows := by
      rw [horder]
      rfl
    have hrows' : Gives db (addLimit select (addOrderBy select plan)) rows := by
      have hlimited := (hrows.addOrderBy hsorted').addLimit select
      rw [limitedRows_of_length_le fun hle => (hlimit hle).2] at hlimited
      exact hlimited
    have hfinal := (hrows'.addGroupBy hgrouped hgroups heval).addPredicate hfiltered
      (heval.having groups hgroups)
    rw [horder] at hsorted
    cases hsorted
    rw [limitedRows_of_length_le]
    · exact hfinal
    · intro hle
      have hgroups' := SelectStmt.length_groupsOf_le hgroups
      have hfilter := groups.length_filter_le fun tuple =>
        groupIsTrue tuple select.groupByFilterUnits
      have hlimit' := hlimit hle
      omega

section

/-- `count(*)`. -/
def countAll : Expression ℚ Empty :=
  .aggregate .count (.value (.ints 1)) "count(*)"

/-- `SELECT count(*) FROM t` with a limit or none. -/
def selectCount (limit : Int) : SelectStmt ℚ Empty where
  tables := [("t", "t")]
  queryExpressions := [⟨"count(*)", countAll⟩]
  filterUnits := []
  groupBy := []
  groupByFilterUnits := []
  orderBy := []
  limit := limit

/-- `t` with two rows. -/
def twoRows : TableRows ℚ :=
  fun _ => [[("a", .ints 5)], [("a", .ints 7)]]

/-- The row of the count, over the first row of `t`. -/
def countRow (n : Int32) : Tuple ℚ Empty :=
  .composite [.valueList [⟨"t", "a", "t.a"⟩] [.ints 5], .valueList [⟨"", "", "count(*)"⟩] [.ints n]]

theorem answer_selectCount :
    (selectCount 1).answer (rowsIn twoRows ("t", "t")) = .ok [countRow 2] :=
  rfl

end

end Sql

end ObHtap
