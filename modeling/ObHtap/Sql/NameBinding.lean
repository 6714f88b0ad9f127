import ObHtap.Sql.Tuple
import ObHtap.Table.MakeRecord

/-!
# Binding of names

How a column name in a clause of a `SELECT` finds its table (`expression_binder.cpp`,
`filter_stmt.cpp`, `select_stmt.cpp`).  The tables of the conditions come out of an
`unordered_map`, whose order is its own.
-/

namespace ObHtap

namespace Sql

variable {F O : Type}

/-! ## The binder -/

/-- A table with its alias in front. -/
abbrev AliasedTable := String × TableMeta

/-- `BinderContext::query_tables_`. -/
abbrev BinderContext := List AliasedTable

/-- The entry that `add_table` makes. -/
def AliasedTable.entry (aliased : AliasedTable) : AliasedTable :=
  (if aliased.1 = "" then aliased.2.name else aliased.1, aliased.2)

/-- `BinderContext::add_table`. -/
def BinderContext.addTable (context : BinderContext) (aliased : AliasedTable) : BinderContext :=
  context ++ [aliased.entry]

/-- `BinderContext::find_table`. -/
def BinderContext.findTable (context : BinderContext) (tableName : String) : Option TableMeta :=
  (context.find? fun entry => AttrType.sameIgnoringCase tableName entry.1).map Prod.snd

/-- `UnboundFieldExpr`, with the name that `AS` gives it. -/
structure UnboundFieldExpr where
  tableName : String
  fieldName : String
  name : String

/-- `wildcard_fields`. -/
def wildcardFields (table : TableMeta) (tableAlias : String) (multiTable : Bool) :
    List (NamedExpr F O) :=
  table.columns.map fun field =>
    ⟨if multiTable then tableAlias ++ "." ++ field.name else field.name,
      .field ⟨table.name, field.name, tableAlias⟩⟩

/-- The table that an `UnboundFieldExpr` is looked for in; for a name without a table the first
entry of the context is read without a look at its size. -/
def BinderContext.tableOf (context : BinderContext) (expr : UnboundFieldExpr) :
    Except Fault AliasedTable :=
  if isBlank expr.tableName then
    match context with
    | [] => .error .abort
    | entry :: _ => .ok entry
  else
    match context.findTable expr.tableName with
    | none => .error (.rc .schemaTableNotExist)
    | some table => .ok (expr.tableName, table)

/-- The name that a column is shown under, with so many tables in the context. -/
def shownName (expr : UnboundFieldExpr) (tableName : String) (tableCount : Nat) : String :=
  if expr.name ≠ "" then expr.name
  else if tableCount = 1 then expr.fieldName
  else tableName ++ "." ++ expr.fieldName

/-- `ExpressionBinder::bind_unbound_field_expression`. -/
def bindUnboundFieldExpression (context : BinderContext) (expr : UnboundFieldExpr) :
    Except Fault (List (NamedExpr F O)) := do
  let (tableName, table) ← context.tableOf expr
  if expr.fieldName = "*" then .ok (wildcardFields table tableName (1 < context.length))
  else match table.field expr.fieldName with
    | none => .error (.rc .schemaFieldMissing)
    | some field =>
      .ok [⟨shownName expr tableName context.length, .field ⟨table.name, field.name, tableName⟩⟩]

/-! ## The tables of a select -/

/-- The tables that a `SelectSqlNode` names, an alias in front of each. -/
structure TableNames where
  fatherRelations : List (String × String)
  relations : List (String × String)
  /-- `join_info`. -/
  joinTables : List (String × String)

/-- `Db::find_table`. -/
abbrev FindTable := String → Option TableMeta

/-- The loop of `SelectStmt::create` over the relations; two of one alias are refused. -/
def collectRelations (findTable : FindTable) :
    List (String × String) → BinderContext → Except Fault BinderContext
  | [], tables => .ok tables
  | (tableAlias, tableName) :: relations, tables =>
    match findTable tableName with
    | none => .error (.rc .schemaTableNotExist)
    | some table =>
      if tableAlias ∈ tables.map Prod.fst then .error (.rc .error)
      else collectRelations findTable relations (tables ++ [(tableAlias, table)])

/-- The loop over the tables of the statements around it, which these have found before. -/
def collectFathers (findTable : FindTable) : List (String × String) → Except Fault BinderContext
  | [] => .ok []
  | (tableAlias, tableName) :: relations => do
    match findTable tableName with
    | none => .error .abort
    | some table => .ok ((tableAlias, table) :: (← collectFathers findTable relations))

/-- The tables of `SelectStmt::create`, its own ones and those of the statements around it. -/
def collectTables (findTable : FindTable) (names : TableNames) :
    Except Fault (BinderContext × BinderContext) := do
  let tables ← collectRelations findTable (names.relations ++ names.joinTables.reverse) []
  let fatherTables ← collectFathers findTable names.fatherRelations
  .ok (tables, fatherTables)

/-- The order in which the entries of an `unordered_map` come out. -/
structure MapOrder where
  order : List AliasedTable → List AliasedTable
  perm : ∀ tables, (order tables).Perm tables

inductive Clause where
  | selectList
  | on
  | whereClause
  | groupBy
  | having
  | orderBy
  deriving DecidableEq

/-- The context of a clause: conditions are bound by `FilterStmt::create_filter_unit`, those of
joins among them. -/
def Clause.context (clause : Clause) (mapOrder : MapOrder) (tables fatherTables : BinderContext) :
    BinderContext :=
  let own :=
    match clause with
    | selectList | groupBy | orderBy => tables
    | on | whereClause | having => mapOrder.order tables
  (own ++ fatherTables).foldl BinderContext.addTable []

/-- What a name in a clause is bound to. -/
def bindName (findTable : FindTable) (names : TableNames) (mapOrder : MapOrder) (clause : Clause)
    (expr : UnboundFieldExpr) : Except Fault (List (NamedExpr F O)) := do
  let (tables, fatherTables) ← collectTables findTable names
  bindUnboundFieldExpression (clause.context mapOrder tables fatherTables) expr

/-! ## Names without a table -/

theorem name_of_field {table : TableMeta} {name : String} {field : FieldMeta}
    (h : table.field name = some field) : field.name = name := by
  unfold TableMeta.field at h
  simpa using List.find?_some h

theorem foldl_addTable (tables context : BinderContext) :
    tables.foldl BinderContext.addTable context = context ++ tables.map AliasedTable.entry := by
  induction tables generalizing context with
  | nil => simp
  | cons table tables ih =>
    rw [List.foldl_cons, ih, BinderContext.addTable, List.map_cons, List.append_assoc]
    rfl

/-- The tables of a clause in the order of its context. -/
def Clause.tables (clause : Clause) (mapOrder : MapOrder) (tables fatherTables : BinderContext) :
    List AliasedTable :=
  (if clause = .selectList ∨ clause = .groupBy ∨ clause = .orderBy then tables
    else mapOrder.order tables) ++ fatherTables

theorem Clause.context_eq (clause : Clause) (mapOrder : MapOrder)
    (tables fatherTables : BinderContext) :
    clause.context mapOrder tables fatherTables =
      (clause.tables mapOrder tables fatherTables).map AliasedTable.entry := by
  cases clause <;> exact foldl_addTable _ []

/-- The tables of all clauses are the same but for their order. -/
theorem Clause.tables_perm (clause : Clause) (mapOrder : MapOrder)
    (tables fatherTables : BinderContext) :
    (clause.tables mapOrder tables fatherTables).Perm (tables ++ fatherTables) := by
  unfold Clause.tables
  split_ifs
  · exact .refl _
  · exact (mapOrder.perm tables).append_right fatherTables

/-- The table has the column. -/
def AliasedTable.has (aliased : AliasedTable) (name : String) : Bool :=
  (aliased.2.field name).isSome

/-- The column of a table that an unqualified name is bound to. -/
def AliasedTable.column (aliased : AliasedTable) (expr : UnboundFieldExpr) (tableCount : Nat) :
    NamedExpr F O :=
  ⟨shownName expr aliased.entry.1 tableCount,
    .field ⟨aliased.2.name, expr.fieldName, aliased.entry.1⟩⟩

section

variable {findTable : FindTable} {names : TableNames} {tables fatherTables : BinderContext}
  {expr : UnboundFieldExpr}

/-- A name without a table is looked for in the first table of the context. -/
theorem bindName_eq (hcollect : collectTables findTable names = .ok (tables, fatherTables))
    (htable : isBlank expr.tableName = true) (hname : expr.fieldName ≠ "*") (mapOrder : MapOrder)
    (clause : Clause) :
    (bindName findTable names mapOrder clause expr : Except Fault (List (NamedExpr F O))) =
      match clause.tables mapOrder tables fatherTables with
      | [] => .error .abort
      | first :: rest =>
        if first.has expr.fieldName then .ok [first.column expr (rest.length + 1)]
        else .error (.rc .schemaFieldMissing) := by
  have hbind : (bindName findTable names mapOrder clause expr :
      Except Fault (List (NamedExpr F O))) =
      bindUnboundFieldExpression (clause.context mapOrder tables fatherTables) expr := by
    rw [bindName, hcollect]
    rfl
  have htableOf (context : BinderContext) : context.tableOf expr =
      match context with
      | [] => .error .abort
      | entry :: _ => .ok entry := by
    unfold BinderContext.tableOf
    exact if_pos htable
  rw [hbind, clause.context_eq, bindUnboundFieldExpression, htableOf]
  cases clause.tables mapOrder tables fatherTables with
  | nil => rfl
  | cons first rest =>
    change (if expr.fieldName = "*" then _ else _) = _
    rw [if_neg hname]
    change (match first.2.field expr.fieldName with | none => _ | some field => _) = _
    cases hfield : first.2.field expr.fieldName with
    | none =>
      have hnot : ¬ first.has expr.fieldName = true := by simp [AliasedTable.has, hfield]
      exact (if_neg hnot).symm
    | some field =>
      have hhas : first.has expr.fieldName = true := by simp [AliasedTable.has, hfield]
      have hlength : (List.map AliasedTable.entry (first :: rest)).length = rest.length + 1 := by
        simp
      dsimp only
      rw [if_pos hhas, hlength, name_of_field hfield]
      rfl

end

/-- Unqualified names mean the same in all clauses. -/
structure NamesResolve (F O : Type) (findTable : FindTable) (names : TableNames)
    (tables fatherTables : BinderContext) (expr : UnboundFieldExpr) : Prop where
  /-- A name that exists in one table only is that table's column. -/
  found : ∀ table, (tables ++ fatherTables).filter (·.has expr.fieldName) = [table] →
    ∀ mapOrder clause, (bindName findTable names mapOrder clause expr :
      Except Fault (List (NamedExpr F O))) =
        .ok [table.column expr (tables ++ fatherTables).length]
  /-- A name in no table is rejected. -/
  missing : (tables ++ fatherTables).filter (·.has expr.fieldName) = [] →
    ∀ mapOrder clause, ∃ rc, (bindName findTable names mapOrder clause expr :
      Except Fault (List (NamedExpr F O))) = .error (.rc rc)
  /-- The order of the map is not seen. -/
  independent : ((tables ++ fatherTables).filter (·.has expr.fieldName)).length ≤ 1 →
    ∀ mapOrder mapOrder' clause, (bindName findTable names mapOrder clause expr :
      Except Fault (List (NamedExpr F O))) = bindName findTable names mapOrder' clause expr

/-- An order that keeps the tables as they were inserted. -/
def MapOrder.inserted : MapOrder :=
  ⟨id, fun tables => .refl tables⟩

def MapOrder.reversed : MapOrder :=
  ⟨List.reverse, fun tables => tables.reverse_perm⟩

section

variable {findTable : FindTable} {names : TableNames} {tables fatherTables : BinderContext}
  {expr : UnboundFieldExpr} {table : AliasedTable} {name : String}

/-- The only table of a name is the first one of every clause, or there is an order of the map in
which it is not. -/
def FirstInAll (tables fatherTables : BinderContext) (table : AliasedTable) : Prop :=
  tables = [table] ∨ tables = [] ∧ fatherTables.head? = some table

theorem FirstInAll.tables_eq (h : FirstInAll tables fatherTables table) (mapOrder : MapOrder)
    (clause : Clause) :
    ∃ rest, clause.tables mapOrder tables fatherTables = table :: rest ∧
      rest.length + 1 = (tables ++ fatherTables).length := by
  rcases h with rfl | ⟨rfl, hhead⟩
  · have horder : mapOrder.order [table] = [table] :=
      List.perm_singleton.mp (mapOrder.perm [table])
    refine ⟨fatherTables, ?_, by simp⟩
    unfold Clause.tables
    rw [horder, ite_self]
    rfl
  · have horder : mapOrder.order [] = [] := List.perm_nil.mp (mapOrder.perm [])
    obtain ⟨rest, rfl⟩ : ∃ rest, fatherTables = table :: rest :=
      List.head?_eq_some_iff.mp hhead
    refine ⟨rest, ?_, by simp⟩
    unfold Clause.tables
    rw [horder, ite_self]
    rfl

/-- A table that has the name is the only one that has it. -/
theorem eq_of_filter {scope : List AliasedTable}
    (honly : scope.filter (·.has name) = [table]) {table' : AliasedTable} (hmem : table' ∈ scope)
    (hhas : table'.has name = true) : table' = table := by
  have hfilter : table' ∈ scope.filter (·.has name) := List.mem_filter.mpr ⟨hmem, hhas⟩
  rw [honly] at hfilter
  exact List.mem_singleton.mp hfilter

/-- Two of the tables of a statement, first in one order of the map and in another, cannot both be
the only one. -/
theorem firstInAll_of_heads
    (honly : (tables ++ fatherTables).filter (·.has name) = [table])
    (hhead : ∀ mapOrder, ∃ rest, Clause.whereClause.tables mapOrder tables fatherTables =
      table :: rest) : FirstInAll tables fatherTables table := by
  obtain ⟨rest, hfirst⟩ := hhead .inserted
  obtain ⟨rest', hlast⟩ := hhead .reversed
  change tables ++ fatherTables = table :: rest at hfirst
  change tables.reverse ++ fatherTables = table :: rest' at hlast
  have hhas : table.has name = true := by
    have hmem : table ∈ (tables ++ fatherTables).filter (·.has name) := by
      rw [honly]
      exact List.mem_cons_self ..
    exact (List.mem_filter.mp hmem).2
  rcases List.eq_nil_or_concat tables with rfl | ⟨front, last, rfl⟩
  · exact Or.inr ⟨rfl, by rw [List.nil_append] at hfirst; rw [hfirst]; rfl⟩
  · rw [List.concat_eq_append] at hfirst honly ⊢
    rw [List.concat_eq_append, List.reverse_append, List.reverse_singleton, List.singleton_append,
      List.cons_append] at hlast
    obtain ⟨rfl, -⟩ := List.cons.inj hlast
    cases front with
    | nil => exact Or.inl rfl
    | cons first front =>
      obtain ⟨rfl, -⟩ := List.cons.inj hfirst
      simp [hhas] at honly

theorem has_of_filter {scope : List AliasedTable} (honly : scope.filter (·.has name) = [table]) :
    table.has name = true := by
  have hmem : table ∈ scope.filter (·.has name) := by
    rw [honly]
    exact List.mem_cons_self ..
  exact (List.mem_filter.mp hmem).2

section

variable (hcollect : collectTables findTable names = .ok (tables, fatherTables))
  (htable : isBlank expr.tableName = true) (hname : expr.fieldName ≠ "*")

include hcollect htable hname

theorem bindName_missing (hne : tables ++ fatherTables ≠ [])
    (hnone : (tables ++ fatherTables).filter (·.has expr.fieldName) = []) (mapOrder : MapOrder)
    (clause : Clause) :
    (bindName findTable names mapOrder clause expr : Except Fault (List (NamedExpr F O))) =
      .error (.rc .schemaFieldMissing) := by
  have hperm := clause.tables_perm mapOrder tables fatherTables
  rw [bindName_eq hcollect htable hname]
  cases hscope : clause.tables mapOrder tables fatherTables with
  | nil =>
    rw [hscope] at hperm
    exact absurd (List.nil_perm.mp hperm) hne
  | cons first rest =>
    rw [hscope] at hperm
    have hmem := hperm.mem_iff.mp (List.mem_cons_self ..)
    exact if_neg (List.filter_eq_nil_iff.mp hnone first hmem)

theorem bindName_found (hfirst : FirstInAll tables fatherTables table)
    (hhas : table.has expr.fieldName = true) (mapOrder : MapOrder) (clause : Clause) :
    (bindName findTable names mapOrder clause expr : Except Fault (List (NamedExpr F O))) =
      .ok [table.column expr (tables ++ fatherTables).length] := by
  obtain ⟨rest, hscope, hlength⟩ := hfirst.tables_eq mapOrder clause
  rw [bindName_eq hcollect htable hname, hscope]
  dsimp only
  rw [if_pos hhas, hlength]

/-- A name is bound to the only table that has it by looking in the first one. -/
theorem head_of_found (honly : (tables ++ fatherTables).filter (·.has expr.fieldName) = [table])
    {column : List (NamedExpr F O)} {mapOrder : MapOrder} {clause : Clause}
    (hfound : bindName findTable names mapOrder clause expr = .ok column) :
    ∃ rest, clause.tables mapOrder tables fatherTables = table :: rest := by
  rw [bindName_eq hcollect htable hname] at hfound
  have hperm := clause.tables_perm mapOrder tables fatherTables
  cases hscope : clause.tables mapOrder tables fatherTables with
  | nil =>
    rw [hscope] at hfound
    cases hfound
  | cons first rest =>
    rw [hscope] at hfound hperm
    by_cases hhas : first.has expr.fieldName = true
    · have hmem := hperm.mem_iff.mp (List.mem_cons_self ..)
      exact ⟨rest, by rw [eq_of_filter honly hmem hhas]⟩
    · dsimp only at hfound
      rw [if_neg hhas] at hfound
      cases hfound

/-- Unqualified names mean the same in all clauses exactly if there is a table, and the only table
of a name is the first one of every clause in every order of the map. -/
theorem namesResolve_iff :
    NamesResolve F O findTable names tables fatherTables expr ↔
      tables ++ fatherTables ≠ [] ∧
        ∀ table, (tables ++ fatherTables).filter (·.has expr.fieldName) = [table] →
          FirstInAll tables fatherTables table := by
  constructor
  · intro h
    constructor
    · intro hnil
      obtain ⟨rc, hrc⟩ := h.missing (by rw [hnil]; rfl) .inserted .selectList
      rw [bindName_eq hcollect htable hname] at hrc
      change (match tables ++ fatherTables with | [] => _ | first :: rest => _) = _ at hrc
      rw [hnil] at hrc
      cases hrc
    · intro table honly
      exact firstInAll_of_heads honly fun mapOrder =>
        head_of_found hcollect htable hname honly (h.found table honly mapOrder .whereClause)
  · intro ⟨hne, honly⟩
    have hfound (table : AliasedTable)
        (htab : (tables ++ fatherTables).filter (·.has expr.fieldName) = [table]) :=
      @bindName_found F O _ _ _ _ _ _ hcollect htable hname (honly table htab) (has_of_filter htab)
    have hmissing := @bindName_missing F O _ _ _ _ _ hcollect htable hname hne
    refine ⟨hfound, fun hnone mapOrder clause => ⟨_, hmissing hnone mapOrder clause⟩, ?_⟩
    intro hle mapOrder mapOrder' clause
    match hfilter : (tables ++ fatherTables).filter (·.has expr.fieldName) with
    | [] => rw [hmissing hfilter, hmissing hfilter]
    | [table] => rw [hfound table hfilter, hfound table hfilter]
    | _ :: _ :: _ =>
      rw [hfilter] at hle
      simp at hle

end

end

section

/-- A table of one column. -/
def oneColumn (tableName columnName : String) : TableMeta where
  tableId := 0
  name := tableName
  trxFields := []
  fields := [⟨columnName, .ints, 0, 4, true, 0, true, 4⟩]
  indexes := []
  storageFormat := .rowFormat
  recordSize := 5

/-- `t` with the column `a`, and `u` with the column `b`. -/
def findTwo : FindTable
  | "t" => some (oneColumn "t" "a")
  | "u" => some (oneColumn "u" "b")
  | _ => none

/-- One table under an alias. -/
theorem namesResolve_one :
    NamesResolve ℚ Empty findTwo ⟨[], [("x", "t")], []⟩ [("x", oneColumn "t" "a")] []
      ⟨"", "a", ""⟩ := by
  refine (namesResolve_iff rfl (by decide) (by decide)).mpr ⟨by simp, fun table honly => ?_⟩
  exact Or.inl honly

/-- `SELECT b FROM t, u`. -/
theorem not_namesResolve_second : ¬ ∀ (findTable : FindTable) (names : TableNames)
    (tables fatherTables : BinderContext) (expr : UnboundFieldExpr),
    collectTables findTable names = .ok (tables, fatherTables) → isBlank expr.tableName = true →
    expr.fieldName ≠ "*" → NamesResolve ℚ Empty findTable names tables fatherTables expr := by
  intro h
  have hresolve := h findTwo ⟨[], [("t", "t"), ("u", "u")], []⟩
    [("t", oneColumn "t" "a"), ("u", oneColumn "u" "b")] [] ⟨"", "b", ""⟩ rfl (by decide)
    (by decide)
  have hfound := hresolve.found ("u", oneColumn "u" "b") (by decide) .inserted .selectList
  cases hfound

end

end Sql

end ObHtap
