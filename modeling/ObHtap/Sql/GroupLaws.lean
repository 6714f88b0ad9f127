import ObHtap.Sql.AggregateResults
import ObHtap.Sql.GroupOpening
import ObHtap.Sql.KeyLaws

/-!
# GROUP BY

What the rows of a hash group-by should be, and when they are.  A row of it is found by name: the
columns by the names of their tables, and the aggregates by their own.
-/

namespace ObHtap

namespace Sql

open Cursor

/-! ## Rows of tables -/

section

variable {F O : Type} [Floats F] [StrLike F] [OtherExpr F O]

/-- A row of a table or of a join of tables. -/
inductive OfTables : Tuple F O → Prop where
  | row (row : Row F) (h : row.tableName ≠ "") : OfTables (.row row)
  | joined {left right : Tuple F O} (hleft : OfTables left) (hright : OfTables right) :
    OfTables (.joined left right)

variable {tuple : Tuple F O}

theorem mapM_id_ok {ε α : Type} (l : List α) :
    (l.map (Except.ok : α → Except ε α)).mapM id = .ok l := by
  induction l with
  | nil => rfl
  | cons a l ih =>
    rw [List.map_cons, List.mapM_cons, ih]
    rfl

theorem cells_of_tables (h : OfTables tuple) : ∃ values : List (Value F),
    tuple.cells = values.map .ok ∧ values.length = tuple.specs.length ∧
      ∀ spec ∈ tuple.specs, spec.tableName ≠ "" := by
  induction h with
  | row row h =>
    refine ⟨row.fields.map Prod.snd, ?_, ?_, ?_⟩
    · rw [Tuple.cells, List.map_map]
      rfl
    · rw [Tuple.specs, List.length_map, List.length_map]
    · intro spec hspec
      rw [Tuple.specs] at hspec
      obtain ⟨field, -, rfl⟩ := List.mem_map.mp hspec
      exact h
  | joined hleft hright ihleft ihright =>
    obtain ⟨values, hcells, hlength, hspecs⟩ := ihleft
    obtain ⟨values', hcells', hlength', hspecs'⟩ := ihright
    refine ⟨values ++ values', ?_, ?_, ?_⟩
    · rw [Tuple.cells, hcells, hcells', List.map_append]
    · rw [Tuple.specs, List.length_append, List.length_append, hlength, hlength']
    · rw [Tuple.specs]
      exact List.forall_mem_append.mpr ⟨hspecs, hspecs'⟩

/-- `ValueListTuple::make` of a row of tables. -/
theorem makeValueList_of_tables (h : OfTables tuple) : ∃ values : List (Value F),
    makeValueList tuple = .ok (.valueList tuple.specs values) ∧
      values.length = tuple.specs.length ∧ ∀ spec ∈ tuple.specs, spec.tableName ≠ "" := by
  obtain ⟨values, hcells, hlength, hspecs⟩ := cells_of_tables h
  refine ⟨values, ?_, hlength, hspecs⟩
  rw [makeValueList, hcells, mapM_id_ok]
  rfl

/-! ## Cells of a row of a group -/

omit [Floats F] [StrLike F] in
theorem findCellOfList_of_notMem {specs : List TupleCellSpec} {values : List (Value F)}
    {spec : TupleCellSpec} (hlength : values.length = specs.length) (h : spec ∉ specs) :
    findCellOfList specs values spec = .error (.rc .notFound) := by
  induction specs generalizing values with
  | nil =>
    rw [List.length_eq_zero_iff.mp hlength]
    rfl
  | cons spec' specs ih =>
    cases values with
    | nil => cases hlength
    | cons value values =>
      obtain ⟨hne, hrest⟩ := List.ne_and_not_mem_of_not_mem_cons h
      rw [findCellOfList, if_neg (Ne.symm hne)]
      exact ih (Nat.succ.inj hlength) hrest

omit [Floats F] [StrLike F] in
theorem findCellOfList_cases {specs : List TupleCellSpec} {values : List (Value F)}
    (spec : TupleCellSpec) (hlength : values.length = specs.length) :
    findCellOfList specs values spec = .error (.rc .notFound) ∨
      ∃ value, findCellOfList specs values spec = .ok value := by
  induction specs generalizing values with
  | nil =>
    rw [List.length_eq_zero_iff.mp hlength]
    exact Or.inl rfl
  | cons spec' specs ih =>
    cases values with
    | nil => cases hlength
    | cons value values =>
      rw [findCellOfList]
      split_ifs
      · exact Or.inr ⟨value, rfl⟩
      · exact ih (Nat.succ.inj hlength)

/-- The name of an aggregate. -/
def AggregateCall.spec (call : AggregateCall F O) : TupleCellSpec :=
  ⟨"", "", call.name⟩

/-- A row of a group: the cells of its first row and its aggregates. -/
def rowOfGroup (specs : List TupleCellSpec) (values : List (Value F))
    (calls : List (AggregateCall F O)) (results : List (Value F)) : Tuple F O :=
  .composite [.valueList specs values, .valueList (calls.map AggregateCall.spec) results]

variable {specs : List TupleCellSpec} {values results : List (Value F)}
  {calls : List (AggregateCall F O)}

theorem findCell_rowOfGroup (hlength : values.length = specs.length)
    (hresults : results.length = calls.length) (spec : TupleCellSpec) :
    (rowOfGroup specs values calls results).findCell spec =
      match findCellOfList specs values spec with
      | .error _ => findCellOfList (calls.map AggregateCall.spec) results spec
      | found => found := by
  have hlength' : results.length = (calls.map AggregateCall.spec).length := by
    rw [hresults, List.length_map]
  rw [rowOfGroup, Tuple.findCell, Tuple.findCellIn, Tuple.findCell]
  rcases findCellOfList_cases spec hlength with h | ⟨value, h⟩
  · rw [h]
    dsimp only
    rw [Tuple.findCellIn, Tuple.findCell]
    rcases findCellOfList_cases spec hlength' with h' | ⟨value, h'⟩
    · rw [h']
      rfl
    · rw [h']
  · rw [h]

/-- Columns are looked up in the first row. -/
theorem findCell_of_column (hlength : values.length = specs.length)
    (hresults : results.length = calls.length) {spec : TupleCellSpec}
    (hspec : spec.tableName ≠ "") :
    (rowOfGroup specs values calls results).findCell spec =
      (Tuple.valueList specs values : Tuple F O).findCell spec := by
  rw [findCell_rowOfGroup hlength hresults, Tuple.findCell]
  rcases findCellOfList_cases spec hlength with h | ⟨value, h⟩
  · have hnot : spec ∉ calls.map AggregateCall.spec := fun hmem => by
      obtain ⟨call, -, rfl⟩ := List.mem_map.mp hmem
      exact hspec rfl
    rw [h]
    exact findCellOfList_of_notMem (by rw [hresults, List.length_map]) hnot
  · rw [h]

/-- Aggregates are looked up behind the first row. -/
theorem findCell_of_name (hlength : values.length = specs.length)
    (hresults : results.length = calls.length) (hspecs : ∀ spec ∈ specs, spec.tableName ≠ "")
    (call : AggregateCall F O) :
    (rowOfGroup specs values calls results).findCell call.spec =
      findCellOfList (calls.map AggregateCall.spec) results call.spec := by
  rw [findCell_rowOfGroup hlength hresults,
    findCellOfList_of_notMem hlength fun hmem => hspecs _ hmem rfl]

omit [Floats F] [StrLike F] [OtherExpr F O] in
/-- The result of the first aggregate of a name is found. -/
theorem findCellOfList_name {P : AggregateCall F O → Value F → Prop}
    (h : List.Forall₂ P calls results) {call : AggregateCall F O} (hcall : call ∈ calls) :
    ∃ call' ∈ calls, ∃ result, call'.name = call.name ∧ P call' result ∧
      findCellOfList (calls.map AggregateCall.spec) results call.spec = .ok result := by
  induction h with
  | nil => cases hcall
  | @cons call' result calls results hhead htail ih =>
    rw [List.map_cons, findCellOfList]
    by_cases hname : call'.name = call.name
    · have hspec : call'.spec = call.spec := congrArg (TupleCellSpec.mk "" "") hname
      rw [if_pos hspec]
      exact ⟨call', List.mem_cons_self, result, hname, hhead, rfl⟩
    · have hspec : call'.spec ≠ call.spec := fun heq =>
        hname (congrArg TupleCellSpec.aliasName heq)
      rw [if_neg hspec]
      rcases List.mem_cons.mp hcall with rfl | hcall
      · exact absurd rfl hname
      · obtain ⟨found, hfound, rest⟩ := ih hcall
        exact ⟨found, List.mem_cons_of_mem _ hfound, rest⟩

/-! ## Columns under an alias -/

omit [Floats F] [StrLike F] in
theorem findCellOfList_append {specs' : List TupleCellSpec} {values' : List (Value F)}
    (hlength : values.length = specs.length) (spec : TupleCellSpec) :
    findCellOfList (specs ++ specs') (values ++ values') spec =
      match findCellOfList specs values spec with
      | .error (.rc .notFound) => findCellOfList specs' values' spec
      | result => result := by
  induction specs generalizing values with
  | nil =>
    obtain rfl := List.length_eq_zero_iff.mp hlength
    rfl
  | cons spec' specs ih =>
    cases values with
    | nil => cases hlength
    | cons value values =>
      rw [List.cons_append, List.cons_append, findCellOfList, findCellOfList]
      split_ifs
      · rfl
      · exact ih (Nat.succ.inj hlength)

/-- The rows of tables in a row. -/
def Tuple.rowsOf : Tuple F O → List (Row F)
  | .row r => [r]
  | .joined left right => left.rowsOf ++ right.rowsOf
  | _ => []

omit [Floats F] [StrLike F] [OtherExpr F O] in
theorem fieldAlias_inj {tableName fieldName fieldName' tableAlias : String} :
    FieldExpr.fieldAlias ⟨tableName, fieldName, tableAlias⟩ =
      FieldExpr.fieldAlias ⟨tableName, fieldName', tableAlias⟩ ↔ fieldName = fieldName' :=
  String.append_right_inj _

omit [Floats F] [StrLike F] [OtherExpr F O] in
theorem findCell_row {row : Row F} (halias : row.tableAlias = row.tableName) {field : FieldExpr}
    (hfield : field.tableAlias = field.tableName) :
    findCellOfList (Tuple.row row : Tuple F O).specs (row.fields.map Prod.snd) field.fieldSpec =
      row.findCell field.fieldSpec := by
  obtain ⟨tableName, tableAlias, fields⟩ := row
  obtain ⟨tableName', fieldName, tableAlias'⟩ := field
  obtain rfl : tableAlias = tableName := halias
  obtain rfl : tableAlias' = tableName' := hfield
  rw [Tuple.specs, Row.findCell]
  change _ = if tableAlias' ≠ tableAlias then _ else _
  by_cases htable : tableAlias' = tableAlias
  · subst htable
    rw [if_neg (not_not.mpr rfl)]
    dsimp only
    induction fields with
    | nil => rfl
    | cons cell fields ih =>
      rw [List.map_cons, List.map_cons, findCellOfList, List.find?_cons]
      have hiff : (⟨tableAlias', cell.1, tableAlias' ++ "." ++ cell.1⟩ : TupleCellSpec) =
          FieldExpr.fieldSpec ⟨tableAlias', fieldName, tableAlias'⟩ ↔
          (FieldExpr.fieldSpec ⟨tableAlias', fieldName, tableAlias'⟩).aliasName =
            FieldExpr.fieldAlias ⟨tableAlias', cell.1, tableAlias'⟩ := by
        constructor
        · exact fun h => (congrArg TupleCellSpec.aliasName h).symm
        · intro h
          obtain rfl := fieldAlias_inj.mp h
          rfl
      by_cases hname : (FieldExpr.fieldSpec ⟨tableAlias', fieldName, tableAlias'⟩).aliasName =
          FieldExpr.fieldAlias ⟨tableAlias', cell.1, tableAlias'⟩
      · rw [if_pos (hiff.mpr hname), decide_eq_true hname]
      · rw [if_neg (mt hiff.mp hname), decide_eq_false hname]
        exact ih
  · rw [if_pos htable]
    refine findCellOfList_of_notMem (by rw [List.length_map, List.length_map]) fun hmem => ?_
    obtain ⟨cell, -, heq⟩ := List.mem_map.mp hmem
    exact htable (congrArg TupleCellSpec.tableName heq).symm

omit [Floats F] [StrLike F] [OtherExpr F O] in
/-- A row has a value for a column of its table under its alias. -/
theorem findCell_of_mem {row : Row F} {fieldName : String}
    (h : fieldName ∈ row.fields.map Prod.fst) : ∃ value,
      row.findCell (FieldExpr.fieldSpec ⟨row.tableName, fieldName, row.tableAlias⟩) =
        .ok value := by
  obtain ⟨field, hfield, rfl⟩ := List.mem_map.mp h
  rw [Row.findCell]
  change ∃ value, (if row.tableName ≠ row.tableName then _ else _) = _
  rw [if_neg (not_not.mpr rfl)]
  cases hfind : row.fields.find? fun field' =>
      (FieldExpr.fieldSpec ⟨row.tableName, field.1, row.tableAlias⟩).aliasName =
        FieldExpr.fieldAlias ⟨row.tableName, field'.1, row.tableAlias⟩ with
  | none =>
    have hnone := List.find?_eq_none.mp hfind field hfield
    exact absurd (decide_eq_true rfl) hnone
  | some found => exact ⟨found.2, rfl⟩

theorem findCell_of_names (h : OfTables tuple)
    (hnames : ∀ row ∈ tuple.rowsOf, row.tableAlias = row.tableName) {field : FieldExpr}
    (hfield : field.tableAlias = field.tableName) : ∃ values : List (Value F),
      tuple.cells = values.map .ok ∧ values.length = tuple.specs.length ∧
        findCellOfList tuple.specs values field.fieldSpec = tuple.findCell field.fieldSpec := by
  induction h with
  | row row h =>
    refine ⟨row.fields.map Prod.snd, ?_, ?_, ?_⟩
    · rw [Tuple.cells, List.map_map]
      rfl
    · rw [Tuple.specs, List.length_map, List.length_map]
    · rw [Tuple.findCell]
      exact findCell_row (hnames row (List.mem_singleton_self row)) hfield
  | joined hleft hright ihleft ihright =>
    rw [Tuple.rowsOf] at hnames
    obtain ⟨hnamesl, hnamesr⟩ := List.forall_mem_append.mp hnames
    obtain ⟨values, hcells, hlength, hfound⟩ := ihleft hnamesl
    obtain ⟨values', hcells', hlength', hfound'⟩ := ihright hnamesr
    refine ⟨values ++ values', ?_, ?_, ?_⟩
    · rw [Tuple.cells, hcells, hcells', List.map_append]
    · rw [Tuple.specs, List.length_append, List.length_append, hlength, hlength']
    · rw [Tuple.specs, Tuple.findCell, ← hfound, ← hfound']
      exact findCellOfList_append hlength field.fieldSpec

/-! ## Aggregates of a group -/

/-- What the aggregator of a call comes to on the rows whose argument is not NULL. -/
def AggregateCall.computed (call : AggregateCall F O) (rows : List (Tuple F O)) :
    Except Fault (Value F) := do
  aggregateOf call.aggregateType (withoutNulls (← argumentsOf call rows))

variable {call : AggregateCall F O} {rows : List (Tuple F O)} {result : Value F}

theorem foldlM_of_mapM {ε α β γ : Type} {f : α → Except ε β} {g : γ → β → Except ε γ} {l : List α}
    {l' : List β} (h : l.mapM f = .ok l') (c : γ) :
    l.foldlM (fun c a => f a >>= g c) c = l'.foldlM g c := by
  induction l generalizing l' c with
  | nil =>
    cases h
    rfl
  | cons a l ih =>
    rw [List.mapM_cons] at h
    obtain ⟨b, hb, h⟩ := bind_eq_ok h
    obtain ⟨bs, hbs, heq⟩ := bind_eq_ok h
    cases heq
    rw [List.foldlM_cons, List.foldlM_cons, hb]
    exact congrArg (g c b >>= ·) (funext fun c' => ih hbs c')

/-- No sum or average of the rows reads a NULL behind a number. -/
def Adds (calls : List (AggregateCall F O)) (rows : List (Tuple F O)) : Prop :=
  ∀ call ∈ calls, call.aggregateType.adds = true →
    ∀ values, argumentsOf call rows = .ok values → NullsInFront values

/-- The arguments of a sum or an average are numbers or NULL, as `check_aggregate_expression` asks
of their type. -/
def Numeric (call : AggregateCall F O) (rows : List (Tuple F O)) : Prop :=
  call.aggregateType.adds = true → ∀ values, argumentsOf call rows = .ok values →
    ∀ value ∈ values, value.isNull = true ∨ Aggregator.isNumber value = true

/-- The aggregator of a call when it has read the rows. -/
def aggregatorOver (call : AggregateCall F O) (rows : List (Tuple F O)) :
    Except Fault (Aggregator F) :=
  rows.foldlM (fun aggregator tuple => tuple.eval call.child >>= aggregator.accumulate)
    (Aggregator.create call.aggregateType)

theorem aggregatorOver_iff (hresult : call.computed rows = .ok result)
    (hnumeric : Numeric call rows) :
    (∃ aggregator, aggregatorOver call rows = .ok aggregator) ↔ Adds [call] rows := by
  obtain ⟨values, hvalues, haggregate⟩ := bind_eq_ok hresult
  rw [aggregatorOver, foldlM_of_mapM hvalues,
    foldlM_accumulate_iff haggregate fun hadds => hnumeric hadds values hvalues]
  constructor
  · intro h call' hcall hadds values' hvalues'
    cases List.mem_singleton.mp hcall
    cases hvalues.symm.trans hvalues'
    exact h hadds
  · exact fun h hadds => h call (List.mem_singleton_self call) hadds values hvalues

theorem evaluate_aggregatorOver (hresult : call.computed rows = .ok result)
    (hadds : Adds [call] rows) {aggregator : Aggregator F}
    (haggregator : aggregatorOver call rows = .ok aggregator) :
    ∃ after, aggregator.evaluate = .ok (result, after) := by
  obtain ⟨values, hvalues, haggregate⟩ := bind_eq_ok hresult
  have hsame := aggregateOf_withoutNulls haggregate fun hadds' =>
    hadds call (List.mem_singleton_self call) hadds' values hvalues
  rw [aggregatorOver, foldlM_of_mapM hvalues] at haggregator
  rw [aggregateOf, haggregator] at hsame
  obtain ⟨⟨result', after⟩, hevaluate, heq⟩ := map_eq_ok hsame
  cases heq
  exact ⟨after, hevaluate⟩

theorem adds_of_mem (h : Adds calls rows) (hcall : call ∈ calls) : Adds [call] rows := by
  intro call' hcall'
  cases List.mem_singleton.mp hcall'
  exact h call hcall

/-- The rows of a group can be aggregated. -/
theorem groupTuple_iff {rowGroup : Grouping.Group (List (Value F)) (Tuple F O)}
    (hfirst : OfTables rowGroup.first)
    (hresults : ∀ call ∈ calls, ∃ result, call.computed rowGroup.rows = .ok result)
    (hnumeric : ∀ call ∈ calls, Numeric call rowGroup.rows) :
    (∃ tuple, groupTuple calls rowGroup.rows = .ok tuple) ↔ Adds calls rowGroup.rows := by
  constructor
  · intro ⟨tuple, htuple⟩ call hcall
    obtain ⟨first, -, hrest⟩ := bind_eq_ok htuple
    obtain ⟨aggregators, haggregators, -⟩ := bind_eq_ok hrest
    obtain ⟨result, hresult⟩ := hresults call hcall
    unfold aggregatorsOver at haggregators
    obtain ⟨aggregator, haggregator⟩ := ok_of_mem_mapM haggregators hcall
    exact (aggregatorOver_iff hresult (hnumeric call hcall)).mp ⟨aggregator, haggregator⟩ call
      (List.mem_singleton_self call)
  · intro hadds
    obtain ⟨values, hmake, -⟩ := makeValueList_of_tables hfirst
    obtain ⟨aggregators, haggregators⟩ : ∃ aggregators,
        aggregatorsOver calls rowGroup.rows = .ok aggregators :=
      mapM_of_forall fun call hcall => by
        obtain ⟨result, hresult⟩ := hresults call hcall
        exact (aggregatorOver_iff hresult (hnumeric call hcall)).mpr (adds_of_mem hadds hcall)
    obtain ⟨results, hevaluated⟩ : ∃ results,
        aggregators.mapM Aggregator.evaluate = .ok results :=
      mapM_of_forall fun aggregator hmem => by
        obtain ⟨call, hcall, haggregator⟩ := of_mem_mapM haggregators hmem
        obtain ⟨result, hresult⟩ := hresults call hcall
        obtain ⟨after, hafter⟩ :=
          evaluate_aggregatorOver hresult (adds_of_mem hadds hcall) haggregator
        exact ⟨_, hafter⟩
    exact ⟨_, groupTuple_of_parts hmake haggregators hevaluated⟩

/-- The aggregates of a row of a group, call by call. -/
theorem results_of_mapM {aggregators : List (Aggregator F)} {pairs : List (Value F × Aggregator F)}
    {P : AggregateCall F O → Value F → Prop}
    (hresults : ∀ call ∈ calls, ∃ result, call.computed rows = .ok result ∧ P call result)
    (hadds : Adds calls rows) (haggregators : aggregatorsOver calls rows = .ok aggregators)
    (hpairs : aggregators.mapM Aggregator.evaluate = .ok pairs) :
    List.Forall₂ P calls (pairs.map Prod.fst) := by
  induction calls generalizing aggregators pairs with
  | nil =>
    cases haggregators
    cases hpairs
    exact .nil
  | cons call calls ih =>
    unfold aggregatorsOver at haggregators ih
    rw [List.mapM_cons] at haggregators
    obtain ⟨aggregator, hone, haggregators⟩ := bind_eq_ok haggregators
    obtain ⟨aggregators', hothers, heq⟩ := bind_eq_ok haggregators
    cases heq
    rw [List.mapM_cons] at hpairs
    obtain ⟨pair, hpair, hpairs⟩ := bind_eq_ok hpairs
    obtain ⟨pairs', hpairs', heq⟩ := bind_eq_ok hpairs
    cases heq
    obtain ⟨⟨result, hresult, hP⟩, hrest⟩ := List.forall_mem_cons.mp hresults
    obtain ⟨after, hafter⟩ := evaluate_aggregatorOver hresult
      (adds_of_mem hadds List.mem_cons_self) hone
    cases hafter.symm.trans hpair
    exact .cons hP
      (ih hrest (fun call hcall => hadds call (List.mem_cons_of_mem _ hcall)) hothers hpairs')

/-! ## Rows of groups -/

/-- The expression looks at columns of tables only. -/
def ReadsColumns (expr : Expression F O) : Prop :=
  ∀ findCell findCell' : TupleCellSpec → Except Fault (Value F),
    (∀ spec, spec.tableName ≠ "" → findCell spec = findCell' spec) →
      expr.getValue (Tuple.cellsOf findCell) = expr.getValue (Tuple.cellsOf findCell')

/-- The expression has its value also on the values of the row under the names of their tables. -/
def ReadsAlike (expr : Expression F O) (tuple : Tuple F O) : Prop :=
  ∃ named, makeValueList tuple = .ok named ∧ named.eval expr = tuple.eval expr

theorem readsColumns_field {field : FieldExpr} (h : field.tableName ≠ "") :
    ReadsColumns (.field field : Expression F O) :=
  fun _ _ hcells => hcells field.fieldSpec h

/-- The columns of tables without an alias are found by the names of the tables. -/
theorem readsAlike_of_names (h : OfTables tuple)
    (hnames : ∀ row ∈ tuple.rowsOf, row.tableAlias = row.tableName) {field : FieldExpr}
    (hfield : field.tableAlias = field.tableName) : ReadsAlike (.field field) tuple := by
  obtain ⟨values, hcells, -, hfound⟩ := findCell_of_names h hnames hfield
  refine ⟨.valueList tuple.specs values, ?_, ?_⟩
  · rw [makeValueList, hcells, mapM_id_ok]
    rfl
  · change (Tuple.valueList tuple.specs values : Tuple F O).findCell field.fieldSpec = _
    rw [Tuple.findCell]
    exact hfound

/-- A column of a table is found by the name of the table only if that is its alias. -/
theorem readsAlike_column_iff {row : Row F} (htable : row.tableName ≠ "") {fieldName : String}
    (hfield : fieldName ∈ row.fields.map Prod.fst) :
    ReadsAlike (.field ⟨row.tableName, fieldName, row.tableAlias⟩ : Expression F O) (.row row) ↔
      row.tableAlias = row.tableName := by
  constructor
  · intro ⟨named, hnamed, heval⟩
    by_contra halias
    obtain ⟨values, hmake, hlength, -⟩ := makeValueList_of_tables (O := O) (.row row htable)
    cases hmake.symm.trans hnamed
    have hnone : FieldExpr.fieldSpec ⟨row.tableName, fieldName, row.tableAlias⟩ ∉
        (Tuple.row row : Tuple F O).specs := by
      rw [Tuple.specs]
      intro hmem
      obtain ⟨cell, -, heq⟩ := List.mem_map.mp hmem
      obtain ⟨-, rfl, hname⟩ := TupleCellSpec.mk.inj heq
      rw [FieldExpr.fieldAlias, String.append_left_inj, String.append_left_inj] at hname
      exact halias hname.symm
    obtain ⟨value, hvalue⟩ := findCell_of_mem hfield
    have hfound : (Tuple.row row : Tuple F O).findCell
        (FieldExpr.fieldSpec ⟨row.tableName, fieldName, row.tableAlias⟩) = .ok value := by
      rw [Tuple.findCell, hvalue]
    have hmissed := (Tuple.findCell.eq_def (Tuple.valueList _ values : Tuple F O) _).trans
      (findCellOfList_of_notMem hlength hnone)
    have heq := (hmissed.symm.trans heval).trans hfound
    cases heq
  · intro halias
    refine readsAlike_of_names (.row row htable) (fun row' hrow => ?_) halias
    cases List.mem_singleton.mp hrow
    exact halias

theorem mapM_eq_iff {ε α β : Type} {f g : α → Except ε β} {l : List α} {l' : List β}
    (h : l.mapM g = .ok l') : l.mapM f = .ok l' ↔ ∀ a ∈ l, f a = g a := by
  induction l generalizing l' with
  | nil => exact iff_of_true h nofun
  | cons a l ih =>
    rw [List.mapM_cons] at h
    obtain ⟨b, hb, h⟩ := bind_eq_ok h
    obtain ⟨bs, hbs, heq⟩ := bind_eq_ok h
    cases heq
    rw [List.forall_mem_cons, ← ih hbs, hb, List.mapM_cons]
    constructor
    · intro h
      obtain ⟨b', hb', h⟩ := bind_eq_ok h
      obtain ⟨bs', hbs', heq⟩ := bind_eq_ok h
      cases heq
      exact ⟨hb', hbs'⟩
    · intro ⟨hb', hbs'⟩
      rw [hb', hbs']
      rfl

/-! ## The operator -/

theorem openOp_hashGroupBy (groupBy : List (NamedExpr F O)) (calls : List (AggregateCall F O))
    {child : PhysicalOperator F O} (hopened : (yieldOf child).opened = .ok ())
    (hdrained : (yieldOf child).drained = (rows, eof)) :
    ∃ state, (hashGroupBy groupBy calls child).openOp (hashGroupBy groupBy calls child).init =
      ((hashGroups groupBy calls (rows, eof)).1,
        ⟨state, (hashGroups groupBy calls (rows, eof)).2⟩) := by
  unfold yieldOf at hopened hdrained
  generalize hopen : child.openOp child.init = result at hopened hdrained
  obtain ⟨opened, state⟩ := result
  obtain rfl : opened = .ok () := hopened
  have hended := forEach_eq_forEachList (c := child) (HashGroups.step groupBy calls) state
    ⟨[], some 0, false⟩
  have hdrained' : (child.drain state).1 = (rows, eof) := hdrained
  rw [hdrained'] at hended
  refine ⟨(child.forEach (HashGroups.step groupBy calls) state ⟨[], some 0, false⟩).2.2, ?_⟩
  change hashGroupByOpen groupBy calls child ⟨child.init, _⟩ = _
  unfold hashGroupByOpen hashGroups
  rw [hopen, ← hended]
  rfl

end

section

variable {r : Rounding} {O : Type} [OtherExpr (RoundedFloat r) O]
  {groupBy : List (NamedExpr (RoundedFloat r) O)} {calls : List (AggregateCall (RoundedFloat r) O)}
  {rows : List (Tuple (RoundedFloat r) O)}
  {keys : List (List (Value (RoundedFloat r)) × Tuple (RoundedFloat r) O)}
  {types : List GroupKeyType}

/-! ## The rows that the groups should have -/

/-- The result of an aggregate function on rows, which leaves NULL out. -/
def AggregateCall.resultOn (call : AggregateCall (RoundedFloat r) O)
    (rows : List (Tuple (RoundedFloat r) O)) : Option (Value (RoundedFloat r)) := do
  sqlAggregate call.aggregateType (withoutNulls (← (argumentsOf call rows).toOption))

/-- The argument of an aggregate function has values on rows: numbers for a sum or an average, as
`check_aggregate_expression` asks, and values of one type that `Value::compare` orders for a maximum
or a minimum. -/
structure ArgumentFits (call : AggregateCall (RoundedFloat r) O)
    (rows : List (Tuple (RoundedFloat r) O)) : Prop where
  values : ∃ values, argumentsOf call rows = .ok values
  numeric : Numeric call rows
  orderly : call.aggregateType = .max ∨ call.aggregateType = .min → ∀ values,
    argumentsOf call rows = .ok values → AggregateResult.Orderly (withoutNulls values)

/-- The aggregator of a call comes to the result of SQL. -/
theorem computed_of_resultOn {call : AggregateCall (RoundedFloat r) O}
    {result : Value (RoundedFloat r)} (hone : r.round 1 = 1) (hargument : ArgumentFits call rows)
    (hresult : call.resultOn rows = some result) : call.computed rows = .ok result := by
  obtain ⟨values, hvalues⟩ := hargument.values
  unfold AggregateCall.resultOn at hresult
  rw [hvalues] at hresult
  have hnull : ∀ value ∈ withoutNulls values, value.isNull = false := fun value hmem =>
    Bool.not_eq_true' _ ▸ (List.mem_filter.mp hmem).2
  have hcomputed := aggregateOf_eq hone hnull
    (fun hadds value hmem => (hargument.numeric hadds values hvalues value
      (List.mem_filter.mp hmem).1).resolve_left (Bool.eq_false_iff.mp (hnull value hmem)))
    (fun hkeeps => hargument.orderly hkeeps values hvalues) hresult
  unfold AggregateCall.computed
  rw [hvalues]
  exact hcomputed

/-- Aggregates of one name have one result. -/
def NamesTell (calls : List (AggregateCall (RoundedFloat r) O))
    (rows : List (Tuple (RoundedFloat r) O)) : Prop :=
  ∀ call ∈ calls, ∀ call' ∈ calls, call.name = call'.name →
    call.resultOn rows = call'.resultOn rows

/-- The row of a group has the values of its key and its aggregates. -/
structure IsRowOf (groupBy : List (NamedExpr (RoundedFloat r) O))
    (calls : List (AggregateCall (RoundedFloat r) O)) (group : Group (RoundedFloat r) O)
    (rowGroup : Grouping.Group (List (Value (RoundedFloat r))) (Tuple (RoundedFloat r) O)) :
    Prop where
  key : group.key = rowGroup.key
  columns : (groupBy.mapM fun named => (Tuple.composite group.composite).eval named.expr) =
    .ok rowGroup.key
  aggregates : ∀ call ∈ calls, ∃ result, call.resultOn rowGroup.rows = some result ∧
    (Tuple.composite group.composite).eval
      (.aggregate call.aggregateType call.child call.name) = .ok result

/-- A row that the operator gives for a group is right exactly if its columns are read by the names
of their tables as by their aliases, and its aggregates told apart by their names. -/
theorem isRowOf_iff_of_results {group : Group (RoundedFloat r) O}
    {rowGroup : Grouping.Group (List (Value (RoundedFloat r))) (Tuple (RoundedFloat r) O)}
    (hgroup : Evaluated calls group rowGroup) (hfirst : OfTables rowGroup.first)
    (hkey : (groupBy.mapM fun named => rowGroup.first.eval named.expr) = .ok rowGroup.key)
    (hreads : ∀ named ∈ groupBy, ReadsColumns named.expr)
    (hresults : ∀ call ∈ calls, ∃ result, call.computed rowGroup.rows = .ok result ∧
      call.resultOn rowGroup.rows = some result)
    (hadds : Adds calls rowGroup.rows) :
    IsRowOf groupBy calls group rowGroup ↔
      (∀ named ∈ groupBy, ReadsAlike named.expr rowGroup.first) ∧
        NamesTell calls rowGroup.rows := by
  obtain ⟨first, aggregators, pairs, hmake, haggregators, hpairs, hcomposite⟩ := hgroup.composite
  obtain ⟨values, hmake', hlength, hspecs⟩ := makeValueList_of_tables hfirst
  cases hmake.symm.trans hmake'
  have hcalls := results_of_mapM hresults hadds haggregators hpairs
  have hrow : Tuple.composite group.composite =
      rowOfGroup rowGroup.first.specs values calls (pairs.map Prod.fst) :=
    congrArg Tuple.composite hcomposite
  have hcolumns : ∀ named ∈ groupBy, (Tuple.composite group.composite).eval named.expr =
      (Tuple.valueList rowGroup.first.specs values : Tuple (RoundedFloat r) O).eval named.expr := by
    intro named hmem
    rw [hrow]
    exact hreads named hmem _ _ fun spec hspec =>
      findCell_of_column hlength hcalls.length_eq.symm hspec
  have halike (named : NamedExpr (RoundedFloat r) O) : ReadsAlike named.expr rowGroup.first ↔
      (Tuple.valueList rowGroup.first.specs values : Tuple (RoundedFloat r) O).eval named.expr =
        rowGroup.first.eval named.expr := by
    constructor
    · intro ⟨named', hnamed, heval⟩
      cases hmake.symm.trans hnamed
      exact heval
    · exact fun heval => ⟨_, hmake, heval⟩
  have hname (call : AggregateCall (RoundedFloat r) O) : (Tuple.composite group.composite).eval
      (.aggregate call.aggregateType call.child call.name) =
        findCellOfList (calls.map AggregateCall.spec) (pairs.map Prod.fst) call.spec := by
    rw [hrow]
    exact findCell_of_name hlength hcalls.length_eq.symm hspecs call
  constructor
  · intro h
    refine ⟨fun named hmem => ?_, fun call hcall call' hcall' heq => ?_⟩
    · rw [halike, ← hcolumns named hmem]
      exact (mapM_eq_iff hkey).mp h.columns named hmem
    · have hspec : call.spec = call'.spec := congrArg (TupleCellSpec.mk "" "") heq
      obtain ⟨result, hresult, heval⟩ := h.aggregates call hcall
      obtain ⟨result', hresult', heval'⟩ := h.aggregates call' hcall'
      rw [hname, hspec] at heval
      rw [hname] at heval'
      cases heval.symm.trans heval'
      exact hresult.trans hresult'.symm
  · intro ⟨hread, hnames⟩
    refine ⟨hgroup.key, (mapM_eq_iff hkey).mpr fun named hmem => ?_, fun call hcall => ?_⟩
    · rw [hcolumns named hmem]
      exact (halike named).mp (hread named hmem)
    · obtain ⟨call', hcall', result, heq, hresult, hfound⟩ := findCellOfList_name hcalls hcall
      refine ⟨result, (hnames call hcall call' hcall' heq.symm).trans hresult, ?_⟩
      rw [hname, hfound]

/-- The groups of rows for SQL, with a NULL in the key as another. -/
def sqlGroups (stored : Value (RoundedFloat r) → List UInt8)
    (keys : List (List (Value (RoundedFloat r)) × Tuple (RoundedFloat r) O)) :
    List (Grouping.Group (List (Value (RoundedFloat r))) (Tuple (RoundedFloat r) O)) :=
  Grouping.groupRows (sqlSameKey stored) keys

/-- Rows of tables whose keys are values of the types of the expressions to group by, and on whose
groups the arguments of the aggregates have values.  1 is a float. -/
structure GroupInput (stored : Value (RoundedFloat r) → List UInt8)
    (groupBy : List (NamedExpr (RoundedFloat r) O))
    (calls : List (AggregateCall (RoundedFloat r) O))
    (rows : List (Tuple (RoundedFloat r) O))
    (keys : List (List (Value (RoundedFloat r)) × Tuple (RoundedFloat r) O))
    (types : List GroupKeyType) : Prop where
  one : r.round 1 = 1
  tables : ∀ tuple ∈ rows, OfTables tuple
  evaluated : rows.mapM (keyed groupBy) = .ok keys
  typed : ∀ row ∈ keys, HasTypes types row.1
  columns : ∀ named ∈ groupBy, ReadsColumns named.expr
  arguments : ∀ rowGroup ∈ sqlGroups stored keys, ∀ call ∈ calls, ArgumentFits call rowGroup.rows

/-- The operator is opened and gives one row for each group, with its key and its aggregates. -/
def GivesGroups (stored : Value (RoundedFloat r) → List UInt8)
    (groupBy : List (NamedExpr (RoundedFloat r) O))
    (calls : List (AggregateCall (RoundedFloat r) O))
    (child : PhysicalOperator (RoundedFloat r) O)
    (keys : List (List (Value (RoundedFloat r)) × Tuple (RoundedFloat r) O)) : Prop :=
  ∃ st, (hashGroupBy groupBy calls child).openOp (hashGroupBy groupBy calls child).init =
      (.ok (), st) ∧
    ((hashGroupBy groupBy calls child).drain st).1 =
      (st.groups.groups.map fun group => .composite group.composite, eof) ∧
    List.Forall₂ (IsRowOf groupBy calls) st.groups.groups (sqlGroups stored keys)

/-- When a hash group-by gives the groups of its rows. -/
structure FitsGroups (stored : Value (RoundedFloat r) → List UInt8)
    (groupBy : List (NamedExpr (RoundedFloat r) O))
    (calls : List (AggregateCall (RoundedFloat r) O))
    (keys : List (List (Value (RoundedFloat r)) × Tuple (RoundedFloat r) O)) : Prop where
  /-- The keys of two rows compare equal exactly if they are the same. -/
  told : keys.Pairwise fun row row' => sameKey row'.1 row.1 = sqlSameKey stored row'.1 row.1
  columns : ∀ rowGroup ∈ sqlGroups stored keys, ∀ named ∈ groupBy,
    ReadsAlike named.expr rowGroup.first
  names : ∀ rowGroup ∈ sqlGroups stored keys, NamesTell calls rowGroup.rows
  adds : ∀ rowGroup ∈ sqlGroups stored keys, Adds calls rowGroup.rows
  /-- No sum or number of rows is beyond an `int`. -/
  results : ∀ rowGroup ∈ sqlGroups stored keys, ∀ call ∈ calls,
    ∃ result, call.resultOn rowGroup.rows = some result
  reads : ∀ rowGroup ∈ sqlGroups stored keys, ∀ tuple ∈ rowGroup.rows, ReadsInOne calls tuple

variable {stored : Value (RoundedFloat r) → List UInt8}

/-- The first row of a group has its key. -/
theorem keyed_first (hkeys : rows.mapM (keyed groupBy) = .ok keys)
    {same : List (Value (RoundedFloat r)) → List (Value (RoundedFloat r)) → Bool}
    {rowGroup : Grouping.Group (List (Value (RoundedFloat r))) (Tuple (RoundedFloat r) O)}
    (hmem : rowGroup ∈ Grouping.groupRows same keys) :
    rowGroup.first ∈ rows ∧
      (groupBy.mapM fun named => rowGroup.first.eval named.expr) = .ok rowGroup.key := by
  obtain ⟨tuple, htuple, hkeyed⟩ := of_mem_mapM hkeys (Grouping.first_mem_of_mem_groupRows hmem)
  obtain ⟨key, hkey, heq⟩ := bind_eq_ok hkeyed
  obtain ⟨hkey', hfirst⟩ := Prod.mk.inj (Except.ok.inj heq)
  rw [← hfirst, ← hkey']
  exact ⟨htuple, hkey⟩

omit [OtherExpr (RoundedFloat r) O] in
/-- The keys of the groups of an opened operator. -/
theorem map_key_of_evaluated {groups : List (Group (RoundedFloat r) O)}
    {rowGroups : List (Grouping.Group (List (Value (RoundedFloat r))) (Tuple (RoundedFloat r) O))}
    {R : Group (RoundedFloat r) O →
      Grouping.Group (List (Value (RoundedFloat r))) (Tuple (RoundedFloat r) O) → Prop}
    (hkey : ∀ group rowGroup, R group rowGroup → group.key = rowGroup.key)
    (h : List.Forall₂ R groups rowGroups) :
    groups.map Group.key = rowGroups.map Grouping.Group.key := by
  induction h with
  | nil => rfl
  | cons hhead htail ih => rw [List.map_cons, List.map_cons, hkey _ _ hhead, ih]

/-- The rows of a group that is evaluated can be aggregated. -/
theorem groupTuple_of_evaluated {group : Group (RoundedFloat r) O}
    {rowGroup : Grouping.Group (List (Value (RoundedFloat r))) (Tuple (RoundedFloat r) O)}
    (h : Evaluated calls group rowGroup) : ∃ tuple, groupTuple calls rowGroup.rows = .ok tuple := by
  obtain ⟨first, aggregators, results, hfirst, haggregators, hresults, -⟩ := h.composite
  exact ⟨_, groupTuple_of_parts hfirst haggregators hresults⟩

/-- The groups of an opened operator are right exactly if each row is. -/
theorem forall₂_isRowOf_iff {groups : List (Group (RoundedFloat r) O)}
    {rowGroups : List (Grouping.Group (List (Value (RoundedFloat r))) (Tuple (RoundedFloat r) O))}
    {P : Grouping.Group (List (Value (RoundedFloat r))) (Tuple (RoundedFloat r) O) → Prop}
    (hevaluated : List.Forall₂ (Evaluated calls) groups rowGroups)
    (hiff : ∀ group, ∀ rowGroup ∈ rowGroups, Evaluated calls group rowGroup →
      (IsRowOf groupBy calls group rowGroup ↔ P rowGroup)) :
    List.Forall₂ (IsRowOf groupBy calls) groups rowGroups ↔ ∀ rowGroup ∈ rowGroups, P rowGroup := by
  induction hevaluated with
  | nil => exact iff_of_true .nil nofun
  | cons hhead htail ih =>
    rw [List.forall₂_cons, List.forall_mem_cons, hiff _ _ List.mem_cons_self hhead,
      ih fun group rowGroup hmem => hiff group rowGroup (List.mem_cons_of_mem _ hmem)]

namespace GroupInput

variable (hinput : GroupInput stored groupBy calls rows keys types)
  {rowGroup : Grouping.Group (List (Value (RoundedFloat r))) (Tuple (RoundedFloat r) O)}
  {child : PhysicalOperator (RoundedFloat r) O}

include hinput

theorem respects : Grouping.Respects (keys.map Prod.fst) sameKey (sqlSameKey stored) :=
  respects_sameKey fun key hkey => by
    obtain ⟨row, hrow, rfl⟩ := List.mem_map.mp hkey
    exact hinput.typed row hrow

theorem keysCompare : KeysCompare groupBy rows := by
  intro keys' hkeys' row hrow row' hrow'
  cases hinput.evaluated.symm.trans hkeys'
  obtain ⟨n, -, hn, -⟩ := compareKeys_has (hinput.typed row hrow) (hinput.typed row' hrow')
  exact ⟨n, hn⟩

theorem computed (hmem : rowGroup ∈ sqlGroups stored keys)
    (hresults : ∀ call ∈ calls, ∃ result, call.resultOn rowGroup.rows = some result) :
    ∀ call ∈ calls, ∃ result, call.computed rowGroup.rows = .ok result ∧
      call.resultOn rowGroup.rows = some result := by
  intro call hcall
  obtain ⟨result, hresult⟩ := hresults call hcall
  have hargument := hinput.arguments rowGroup hmem call hcall
  exact ⟨result, computed_of_resultOn hinput.one hargument hresult, hresult⟩

theorem adds_iff (hmem : rowGroup ∈ sqlGroups stored keys)
    (hresults : ∀ call ∈ calls, ∃ result, call.resultOn rowGroup.rows = some result) :
    (∃ tuple, groupTuple calls rowGroup.rows = .ok tuple) ↔ Adds calls rowGroup.rows := by
  refine groupTuple_iff (hinput.tables _ (keyed_first hinput.evaluated hmem).1) ?_
    fun call hcall => (hinput.arguments rowGroup hmem call hcall).numeric
  intro call hcall
  obtain ⟨result, hcomputed, -⟩ := hinput.computed hmem hresults call hcall
  exact ⟨result, hcomputed⟩

theorem row_iff {group : Group (RoundedFloat r) O} (hmem : rowGroup ∈ sqlGroups stored keys)
    (hgroup : Evaluated calls group rowGroup) : IsRowOf groupBy calls group rowGroup ↔
      ((∀ named ∈ groupBy, ReadsAlike named.expr rowGroup.first) ∧
        NamesTell calls rowGroup.rows) ∧
      ∀ call ∈ calls, ∃ result, call.resultOn rowGroup.rows = some result := by
  obtain ⟨hfirst, hkey⟩ := keyed_first hinput.evaluated hmem
  have hiff (hresults : ∀ call ∈ calls, ∃ result, call.resultOn rowGroup.rows = some result) :=
    isRowOf_iff_of_results hgroup (hinput.tables _ hfirst) hkey hinput.columns
      (hinput.computed hmem hresults)
      ((hinput.adds_iff hmem hresults).mp (groupTuple_of_evaluated hgroup))
  constructor
  · intro h
    have hresults : ∀ call ∈ calls, ∃ result, call.resultOn rowGroup.rows = some result :=
      fun call hcall => (h.aggregates call hcall).imp fun _ hresult => hresult.1
    exact ⟨(hiff hresults).mp h, hresults⟩
  · intro ⟨hrow, hresults⟩
    exact (hiff hresults).mpr hrow

/-- The groups that the operator gives have the keys of SQL, so that it has told the keys apart. -/
theorem fits_of_gives (hopened : (yieldOf child).opened = .ok ())
    (hdrained : (yieldOf child).drained = (rows, eof))
    (h : GivesGroups stored groupBy calls child keys) : FitsGroups stored groupBy calls keys := by
  obtain ⟨st, hst, -, hgroups⟩ := h
  obtain ⟨state, hopen⟩ := openOp_hashGroupBy groupBy calls hopened hdrained
  rw [hopen] at hst
  obtain ⟨hok, rfl⟩ := Prod.mk.inj hst
  obtain ⟨hevaluated, -⟩ := evaluated_of_hashGroups hinput.evaluated (Prod.ext hok rfl)
  have hsame : Grouping.groupKeys sameKey keys = Grouping.groupKeys (sqlSameKey stored) keys := by
    unfold Grouping.groupKeys
    rw [Grouping.insertAll_nil, Grouping.insertAll_nil,
      ← map_key_of_evaluated (fun _ _ h => Evaluated.key h) hevaluated]
    exact map_key_of_evaluated (fun _ _ h => IsRowOf.key h) hgroups
  have htold := (Grouping.groupKeys_eq_iff hinput.respects).mp hsame
  rw [Grouping.groupRows_congr htold] at hevaluated
  have hall := (forall₂_isRowOf_iff hevaluated fun _ _ hmem => hinput.row_iff hmem).mp hgroups
  refine ⟨htold, fun rowGroup hmem => (hall rowGroup hmem).1.1,
    fun rowGroup hmem => (hall rowGroup hmem).1.2, fun rowGroup hmem => ?_,
    fun rowGroup hmem => (hall rowGroup hmem).2, fun rowGroup hmem => ?_⟩
  · obtain ⟨group, -, hgroup⟩ := exists_of_forall₂ hevaluated hmem
    exact (hinput.adds_iff hmem (hall rowGroup hmem).2).mp (groupTuple_of_evaluated hgroup)
  · obtain ⟨group, -, hgroup⟩ := exists_of_forall₂ hevaluated hmem
    exact hgroup.reads

theorem gives_of_fits (hopened : (yieldOf child).opened = .ok ())
    (hdrained : (yieldOf child).drained = (rows, eof))
    (h : FitsGroups stored groupBy calls keys) : GivesGroups stored groupBy calls child keys := by
  obtain ⟨htold, hread, hnames, hadds, hresults, hreads⟩ := h
  have hsame : Grouping.groupRows sameKey keys = sqlGroups stored keys :=
    Grouping.groupRows_congr htold
  obtain ⟨state, hopen⟩ := openOp_hashGroupBy groupBy calls hopened hdrained
  obtain ⟨groups, hgroups⟩ := (hashGroups_iff calls hinput.evaluated hinput.keysCompare).mpr
    fun rowGroup hmem => by
      rw [hsame] at hmem
      exact ⟨(hinput.adds_iff hmem (hresults rowGroup hmem)).mpr (hadds rowGroup hmem),
        hreads rowGroup hmem⟩
  obtain ⟨hevaluated, htuples⟩ := evaluated_of_hashGroups hinput.evaluated hgroups
  rw [hsame] at hevaluated
  refine ⟨⟨state, groups⟩, ?_, ?_, ?_⟩
  · rw [hopen, hgroups]
  · rw [drain_hashGroupBy, htuples]
  · exact (forall₂_isRowOf_iff hevaluated fun _ _ hmem => hinput.row_iff hmem).mpr
      fun rowGroup hmem => ⟨⟨hread rowGroup hmem, hnames rowGroup hmem⟩, hresults rowGroup hmem⟩

end GroupInput

end

/-! ## A grouping of a table -/

section

/-- A scan of a table. -/
def tableOf (rows : List (Row (RoundedFloat .exact))) :
    PhysicalOperator (RoundedFloat .exact) Empty :=
  tableScan ⟨.ok (), rows.map .ok, fun _ => false⟩ []

theorem drained_tableOf (rows : List (Row (RoundedFloat .exact))) :
    (yieldOf (tableOf rows)).drained = (rows.map .row, eof) := by
  rw [tableOf, yieldOf_tableScan]
  change filterTuples [] (rowTuples (rows.map .ok)) = _
  induction rows with
  | nil => rfl
  | cons row rows ih =>
    have hstep : filterTuples (O := Empty) [] (rowTuples ((row :: rows).map .ok)) =
        (.row row :: (filterTuples [] (rowTuples (rows.map .ok))).1,
          (filterTuples [] (rowTuples (rows.map .ok))).2) :=
      rfl
    rw [hstep, ih]
    rfl

/-- The column `a` of the table `t` under an alias. -/
def columnUnder (tableAlias : String) : Expression (RoundedFloat .exact) Empty :=
  .field ⟨"t", "a", tableAlias⟩

def rowUnder (tableAlias : String) (value : Value (RoundedFloat .exact)) :
    Row (RoundedFloat .exact) :=
  ⟨"t", tableAlias, [("a", value)]⟩

/-- A row of the table with its key. -/
def keyedRow (tableAlias : String) (value : Value (RoundedFloat .exact)) :
    List (Value (RoundedFloat .exact)) × Tuple (RoundedFloat .exact) Empty :=
  ([value], .row (rowUnder tableAlias value))

/-- Two equal integers and NULL. -/
def threeKeys : List (List (Value (RoundedFloat .exact)) × Tuple (RoundedFloat .exact) Empty) :=
  [keyedRow "t" (.ints 1), keyedRow "t" .nulls, keyedRow "t" (.ints 1)]

theorem sqlGroups_threeKeys : sqlGroups (fun _ => []) threeKeys =
    [⟨[.ints 1], (keyedRow "t" (.ints 1)).2, [(keyedRow "t" (.ints 1)).2]⟩,
      ⟨[.nulls], (keyedRow "t" .nulls).2, []⟩] := by
  simp [sqlGroups, Grouping.groupRows, sqlSameKey, Value.content, threeKeys, keyedRow,
    Value.attrType]

/-- `sum(t.a)` and `max(t.a)`. -/
def sumAndMax : List (AggregateCall (RoundedFloat .exact) Empty) :=
  [⟨.sum, columnUnder "t", "sum(t.a)"⟩, ⟨.max, columnUnder "t", "max(t.a)"⟩]

theorem argumentFits_column {aggregateType : AggregateType} {name : String}
    {rows : List (Tuple (RoundedFloat .exact) Empty)}
    {values : List (Value (RoundedFloat .exact))}
    (hvalues : rows.mapM (fun tuple => tuple.eval (columnUnder "t")) = .ok values)
    (hints : ∀ value ∈ values, value.isNull = true ∨ ∃ n, value = .ints n) :
    ArgumentFits ⟨aggregateType, columnUnder "t", name⟩ rows where
  values := ⟨values, hvalues⟩
  numeric := by
    intro _ values' hvalues' value hvalue
    cases hvalues.symm.trans hvalues'
    refine (hints value hvalue).imp_right ?_
    intro ⟨n, hn⟩
    rw [hn]
    rfl
  orderly := by
    intro _ values' hvalues'
    cases hvalues.symm.trans hvalues'
    have hint : ∀ value ∈ withoutNulls values, ∃ n, value = .ints n := by
      intro value hvalue
      obtain ⟨hmem, hnull⟩ := List.mem_filter.mp hvalue
      exact (hints value hmem).resolve_left (by simpa using hnull)
    refine ⟨?_, List.pairwise_of_forall_mem_list ?_⟩
    · intro value hvalue
      obtain ⟨n, rfl⟩ := hint value hvalue
      exact AttrType.noConfusion
    · intro value hvalue value' hvalue'
      obtain ⟨n, rfl⟩ := hint value hvalue
      obtain ⟨n', rfl⟩ := hint value' hvalue'
      exact ⟨rfl, rfl⟩

theorem groupInput_threeKeys : GroupInput (fun _ => []) [⟨"t.a", columnUnder "t"⟩]
    sumAndMax (threeKeys.map Prod.snd) threeKeys [⟨.ints, 0⟩] where
  one := rfl
  tables tuple htuple := by
    obtain ⟨key, hkey, rfl⟩ := List.mem_map.mp htuple
    simp only [threeKeys, List.mem_cons, List.not_mem_nil, or_false] at hkey
    rcases hkey with rfl | rfl | rfl <;> exact .row _ (by decide)
  evaluated := rfl
  typed key hkey := by
    simp only [threeKeys, List.mem_cons, List.not_mem_nil, or_false] at hkey
    rcases hkey with rfl | rfl | rfl
    · exact .cons (Or.inr ⟨rfl, rfl, rfl⟩) .nil
    · exact .cons (Or.inl rfl) .nil
    · exact .cons (Or.inr ⟨rfl, rfl, rfl⟩) .nil
  columns := List.forall_mem_singleton.mpr (readsColumns_field (by decide))
  arguments := by
    rw [sqlGroups_threeKeys]
    refine List.forall_mem_cons.mpr ⟨?_, List.forall_mem_singleton.mpr ?_⟩
    · have hints : ∀ value ∈ [Value.ints 1, .ints 1], value.isNull = true ∨
          ∃ n, value = (.ints n : Value (RoundedFloat .exact)) :=
        List.forall_mem_cons.mpr ⟨Or.inr ⟨1, rfl⟩, List.forall_mem_singleton.mpr (Or.inr ⟨1, rfl⟩)⟩
      exact List.forall_mem_cons.mpr ⟨argumentFits_column rfl hints,
        List.forall_mem_singleton.mpr (argumentFits_column rfl hints)⟩
    · have hnull : ∀ value ∈ [Value.nulls], value.isNull = true ∨
          ∃ n, value = (.ints n : Value (RoundedFloat .exact)) :=
        List.forall_mem_singleton.mpr (Or.inl rfl)
      exact List.forall_mem_cons.mpr ⟨argumentFits_column rfl hnull,
        List.forall_mem_singleton.mpr (argumentFits_column rfl hnull)⟩

end

end Sql

end ObHtap
