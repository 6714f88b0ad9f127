import ObHtap.Sql.Aggregator
import ObHtap.Sql.PhysicalOperator
import ObHtap.Sql.SharedValue

/-!
# Grouping operators

`HashGroupByPhysicalOperator` and `ScalarGroupByPhysicalOperator`, which read their child to the
end when they are opened.
-/

namespace ObHtap

namespace Sql

/-- An aggregate function of the select list, on an expression. -/
structure AggregateCall (F O : Type) where
  aggregateType : AggregateType
  child : Expression F O
  name : String

/-- The values that a group has in common, its aggregators, and the tuple that it is given as: the
first child tuple and, once evaluated, the results. -/
structure Group (F O : Type) where
  key : List (Value F)
  aggregators : List (Aggregator F)
  composite : List (Tuple F O)

variable {F O : Type}

/-! ## The groups of a hash group-by -/

/-- `groups_`, and `current_group_` with `first_emited_`; an iterator is lost when a group is
added. -/
structure HashGroups (F O : Type) where
  groups : List (Group F O)
  currentGroup : Option Nat
  firstEmitted : Bool

/-- `next` among the groups. -/
def HashGroups.next (st : HashGroups F O) : Except Fault (Tuple F O) × HashGroups F O :=
  match st.currentGroup with
  | none => (.error .abort, st)
  | some index =>
    if index = st.groups.length then (.error eof, st)
    else
      let index := if st.firstEmitted then index + 1 else index
      let st := { st with currentGroup := some index, firstEmitted := true }
      match st.groups[index]? with
      | some group => (.ok (.composite group.composite), st)
      | none => (.error eof, st)

/-- The groups still to come. -/
def HashGroups.toCome (st : HashGroups F O) : Nat :=
  match st.currentGroup with
  | none => 0
  | some index => st.groups.length - if st.firstEmitted then index + 1 else index

theorem HashGroups.toCome_lt {st st' : HashGroups F O} {tuple : Tuple F O}
    (h : st.next = (.ok tuple, st')) : st'.toCome < st.toCome := by
  unfold HashGroups.next at h
  split at h
  · cases h
  next index hindex =>
    split at h
    · cases h
    · dsimp only at h
      split at h
      next group hgroup =>
        cases h
        have hlt := (List.getElem?_eq_some_iff.mp hgroup).1
        simp only [HashGroups.toCome, hindex, if_true]
        omega
      · cases h

variable [Floats F]

/-! ## Groups -/

/-- `Tuple::compare`. -/
def compareKeys (key key' : List (Value F)) : Except Fault Int :=
  if key.length < key'.length then .ok (-1)
  else if key'.length < key.length then .ok 1
  else compareCells key key'
where
  compareCells : List (Value F) → List (Value F) → Except Fault Int
    | value :: key, value' :: key' => do
      let cmpResult ← value.compare value'
      if cmpResult ≠ 0 then .ok cmpResult else compareCells key key'
    | _, _ => .ok 0

/-- The first group with the key. -/
def indexOfKey (key : List (Value F)) : List (Group F O) → Except Fault (Option Nat)
  | [] => .ok none
  | group :: groups => do
    let compareResult ← compareKeys key group.key
    if compareResult = 0 then .ok (some 0) else (indexOfKey key groups).map (Option.map (· + 1))

/-- `evaluate`: the results of the aggregators behind the tuples that the group has. -/
def Group.evaluate (calls : List (AggregateCall F O)) (group : Group F O) :
    Except Fault (Group F O) := do
  let results ← group.aggregators.mapM Aggregator.evaluate
  let names := calls.map fun call => TupleCellSpec.mk "" "" call.name
  .ok { group with
    aggregators := results.map Prod.snd
    composite := group.composite ++ [.valueList names (results.map Prod.fst)] }

variable [StrLike F] [OtherExpr F O]

/-- `ValueListTuple::make`. -/
def makeValueList (tuple : Tuple F O) : Except Fault (Tuple F O) := do
  let cells ← tuple.cells.mapM id
  .ok (.valueList tuple.specs cells)

/-- `aggregate`: the values of the calls on a tuple, each into its aggregator.  All are read into one
`Value`. -/
def aggregate (tuple : Tuple F O) (shared : SharedValue) :
    List (AggregateCall F O) → List (Aggregator F) → Except Fault Unit × List (Aggregator F)
  | call :: calls, aggregator :: aggregators =>
    match tuple.readInto call.child shared with
    | .error fault => (shared.destroy (.error fault), aggregator :: aggregators)
    | .ok (value, shared) =>
      match aggregator.accumulate value with
      | .error fault => (shared.destroy (.error fault), aggregator :: aggregators)
      | .ok aggregator =>
        let (result, aggregators) := aggregate tuple shared calls aggregators
        (result, aggregator :: aggregators)
  | _, aggregators => (shared.destroy (.ok ()), aggregators)

/-- A group of one tuple, before it is aggregated. -/
def newGroup (calls : List (AggregateCall F O)) (key : List (Value F)) (tuple : Tuple F O) :
    Except Fault (Group F O) := do
  let first ← makeValueList tuple
  .ok ⟨key, calls.map fun call => Aggregator.create call.aggregateType, [first]⟩

/-- A tuple into one of the groups. -/
def aggregateAt (calls : List (AggregateCall F O)) (tuple : Tuple F O) (groups : List (Group F O))
    (index : Nat) : Except Fault Unit × List (Group F O) :=
  match groups[index]? with
  | some group =>
    let (result, aggregators) := aggregate tuple .fresh calls group.aggregators
    (result, groups.set index { group with aggregators })
  | none => (.error .abort, groups)

/-! ## Hash groups -/

/-- What `open` does with one tuple of the child: `find_group`, then `aggregate`. -/
def HashGroups.step (groupBy : List (NamedExpr F O)) (calls : List (AggregateCall F O))
    (st : HashGroups F O) (tuple : Tuple F O) : Except Fault Unit × HashGroups F O :=
  match groupBy.mapM fun named => tuple.eval named.expr with
  | .error fault => (.error fault, st)
  | .ok key =>
    match indexOfKey key st.groups with
    | .error fault => (.error fault, st)
    | .ok (some index) =>
      let (result, groups) := aggregateAt calls tuple st.groups index
      (result, { st with groups })
    | .ok none =>
      match newGroup calls key tuple with
      | .error fault => (.error fault, st)
      | .ok group =>
        let (result, groups) :=
          aggregateAt calls tuple (st.groups ++ [group]) st.groups.length
        (result, { st with groups, currentGroup := none })

/-- The end of `open`, when the child has ended or a tuple has failed. -/
def HashGroups.finish (calls : List (AggregateCall F O)) (st : HashGroups F O) :
    Fault ⊕ Fault → Except Fault Unit × HashGroups F O
  | .inr (.rc .recordEof) =>
    match st.groups.mapM (Group.evaluate calls) with
    | .ok evaluated => (.ok (), ⟨evaluated, some 0, false⟩)
    | .error fault => (.error fault, st)
  | .inr fault => (.error fault, st)
  | .inl fault => (.error fault, st)

structure HashGroupByState (F O σ : Type) where
  child : σ
  groups : HashGroups F O

/-- `HashGroupByPhysicalOperator::open`. -/
def hashGroupByOpen (groupBy : List (NamedExpr F O)) (calls : List (AggregateCall F O))
    (child : PhysicalOperator F O) (st : HashGroupByState F O child.State) :
    Except Fault Unit × HashGroupByState F O child.State :=
  match child.openOp st.child with
  | (.error fault, state) => (.error fault, { st with child := state })
  | (.ok (), state) =>
    let (ended, groups, state) := child.forEach (HashGroups.step groupBy calls) state st.groups
    let (result, groups) := groups.finish calls ended
    (result, ⟨state, groups⟩)

/-- `HashGroupByPhysicalOperator`; nothing empties `groups_`. -/
def hashGroupBy (groupBy : List (NamedExpr F O)) (calls : List (AggregateCall F O))
    (child : PhysicalOperator F O) : PhysicalOperator F O where
  State := HashGroupByState F O child.State
  init := ⟨child.init, ⟨[], some 0, false⟩⟩
  openOp := hashGroupByOpen groupBy calls child
  next st :=
    let (result, groups) := st.groups.next
    (result, { st with groups })
  close st := { st with child := child.close st.child }
  remaining st := st.groups.toCome
  remaining_lt := by
    intro st tuple st' h
    obtain ⟨hnext, rfl⟩ := Prod.mk.inj h
    exact HashGroups.toCome_lt (Prod.ext hnext rfl)

/-! ## One group -/

structure ScalarGroupByState (F O σ : Type) where
  child : σ
  groupValue : Option (Group F O)
  emitted : Bool

/-- What `ScalarGroupByPhysicalOperator::open` does with one tuple of the child. -/
def scalarGroupStep (calls : List (AggregateCall F O)) (groupValue : Option (Group F O))
    (tuple : Tuple F O) : Except Fault Unit × Option (Group F O) :=
  match groupValue.elim (newGroup calls [] tuple) .ok with
  | .error fault => (.error fault, groupValue)
  | .ok group =>
    let (result, aggregators) := aggregate tuple .fresh calls group.aggregators
    (result, some { group with aggregators })

/-- The group of no tuple. -/
def emptyGroup (calls : List (AggregateCall F O)) : Group F O :=
  ⟨[], calls.map fun call => Aggregator.create call.aggregateType, [.valueList [] []]⟩

/-- The end of `open`, when the child has ended or a tuple has failed: the group and whether it has
been emitted. -/
def scalarGroupFinish (calls : List (AggregateCall F O)) (groupValue : Option (Group F O))
    (emitted : Bool) : Fault ⊕ Fault → Except Fault Unit × Option (Group F O) × Bool
  | .inr (.rc .recordEof) =>
    match (groupValue.getD (emptyGroup calls)).evaluate calls with
    | .ok group => (.ok (), some group, false)
    | .error fault => (.error fault, groupValue, false)
  | .inr fault => (.error fault, groupValue, emitted)
  | .inl fault => (.error fault, groupValue, emitted)

/-- `ScalarGroupByPhysicalOperator::open`. -/
def scalarGroupByOpen (calls : List (AggregateCall F O)) (child : PhysicalOperator F O)
    (st : ScalarGroupByState F O child.State) :
    Except Fault Unit × ScalarGroupByState F O child.State :=
  match child.openOp st.child with
  | (.error fault, state) => (.error fault, { st with child := state })
  | (.ok (), state) =>
    let (ended, groupValue, state) := child.forEach (scalarGroupStep calls) state st.groupValue
    let (result, groupValue, emitted) := scalarGroupFinish calls groupValue st.emitted ended
    (result, ⟨state, groupValue, emitted⟩)

/-- `ScalarGroupByPhysicalOperator::next`. -/
def scalarGroupByNext {σ : Type} (st : ScalarGroupByState F O σ) :
    Except Fault (Tuple F O) × ScalarGroupByState F O σ :=
  match st.groupValue with
  | none => (.error eof, st)
  | some group =>
    if st.emitted then (.error eof, st)
    else (.ok (.composite group.composite), { st with emitted := true })

/-- `ScalarGroupByPhysicalOperator`. -/
def scalarGroupBy (calls : List (AggregateCall F O)) (child : PhysicalOperator F O) :
    PhysicalOperator F O where
  State := ScalarGroupByState F O child.State
  init := ⟨child.init, none, false⟩
  openOp := scalarGroupByOpen calls child
  next := scalarGroupByNext
  close st := ⟨child.close st.child, none, false⟩
  remaining st := if st.emitted then 0 else 1
  remaining_lt := by
    intro st tuple st' h
    unfold scalarGroupByNext at h
    split at h
    · cases h
    · split at h
      · cases h
      next hemitted =>
        cases h
        simp [hemitted]

/-! ## Trees of physical operators -/

/-- A tree of physical operators. -/
inductive PhysicalPlan (F O : Type) where
  | tableScan (scanner : TableScanner F) (predicates : List (Expression F O))
  | indexScan (opened : Except Fault Unit)
      (entries : List (Except Fault (Row F) × Except Fault Unit))
      (predicates : List (Expression F O))
  | predicate (expr : Expression F O) (child : PhysicalPlan F O)
  | nestedLoopJoin (left right : PhysicalPlan F O)
  | sort (orderBy : List (Expression F O × OrderByType)) (child : PhysicalPlan F O)
  | limit (limit : Int) (child : PhysicalPlan F O)
  | hashGroupBy (groupBy : List (NamedExpr F O)) (calls : List (AggregateCall F O))
      (child : PhysicalPlan F O)
  | scalarGroupBy (calls : List (AggregateCall F O)) (child : PhysicalPlan F O)
  | project (expressions : List (NamedExpr F O)) (child : PhysicalPlan F O)
  | absent
  | fatherTuple

namespace PhysicalPlan

variable {F O : Type} [Floats F] [StrLike F] [OtherExpr F O] [StdSort (Tuple F O)]

/-- The operators of the tree. -/
def cursor : PhysicalPlan F O → PhysicalOperator F O
  | tableScan scanner predicates => Sql.tableScan scanner predicates
  | indexScan opened entries predicates => Sql.indexScan opened entries predicates
  | predicate expr child => Sql.predicate expr child.cursor
  | nestedLoopJoin left right => Sql.nestedLoopJoin left.cursor right.cursor
  | sort orderBy child => Sql.sort orderBy child.cursor
  | limit n child => Sql.limit n child.cursor
  | hashGroupBy groupBy calls child => Sql.hashGroupBy groupBy calls child.cursor
  | scalarGroupBy calls child => Sql.scalarGroupBy calls child.cursor
  | project expressions child => Sql.project expressions child.cursor
  | absent => Sql.absent
  | fatherTuple => Sql.fatherTuple

/-- The members of the operators of a tree. -/
abbrev State (plan : PhysicalPlan F O) : Type :=
  plan.cursor.State

end PhysicalPlan

end Sql

end ObHtap
