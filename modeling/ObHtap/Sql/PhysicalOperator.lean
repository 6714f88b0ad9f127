import ObHtap.Library.Cursor
import ObHtap.Sql.Value
import ObHtap.Sql.Tuple

/-!
# Physical operators

Each operator as a cursor, with the members that it keeps between the calls.  A call of `next`
stands for the call and `current_tuple` after it; a tuple is what its cells read as then.
-/

namespace ObHtap

namespace Sql

variable {F O : Type}

abbrev PhysicalOperator (F O : Type) :=
  Cursor Fault (Tuple F O)

/-- `RECORD_EOF`. -/
abbrev eof : Fault :=
  .rc .recordEof

/-! ## Joins -/

/-- `NestedLoopJoinPhysicalOperator`: the tuples of the right child are kept from `open` on. -/
structure JoinState (F O σ τ : Type) where
  left : σ
  right : τ
  leftTuple : Option (Tuple F O)
  rightTuples : List (Tuple F O)
  rightIndex : Int
  roundDone : Bool

/-- Once a round is over, the next begins before the first right tuple. -/
def JoinState.newRound {σ τ : Type} (st : JoinState F O σ τ) : JoinState F O σ τ :=
  if st.roundDone then { st with rightIndex := -1, roundDone := false } else st

/-- The next right tuple of a round. -/
def JoinState.rightStep {σ τ : Type} (st : JoinState F O σ τ) :
    Except Fault (Tuple F O) × JoinState F O σ τ :=
  if st.rightIndex + 1 = st.rightTuples.length then
    (.error eof, { st with rightIndex := st.rightIndex + 1, roundDone := true })
  else match st.leftTuple, st.rightTuples[(st.rightIndex + 1).toNat]? with
    | some left, some right =>
      (.ok (.joined left right), { st with rightIndex := st.rightIndex + 1 })
    | _, _ => (.error .abort, st)

/-- `right_next`. -/
def rightNext {σ τ : Type} (st : JoinState F O σ τ) :
    Except Fault (Tuple F O) × JoinState F O σ τ :=
  st.newRound.rightStep

/-- The right tuples still to come with the current left one. -/
def JoinState.toCome {σ τ : Type} (st : JoinState F O σ τ) : Nat :=
  if st.roundDone then 0 else (st.rightTuples.length - (st.rightIndex + 1)).toNat

theorem JoinState.rightStep_ok {σ τ : Type} {st st' : JoinState F O σ τ} {tuple : Tuple F O}
    (hdone : st.roundDone = false) (h : st.rightStep = (.ok tuple, st')) :
    st'.left = st.left ∧ st'.rightTuples = st.rightTuples ∧ st'.toCome < st.toCome := by
  unfold JoinState.rightStep at h
  split at h
  · cases h
  · split at h
    next left right hleft hright =>
      cases h
      have hlt := (List.getElem?_eq_some_iff.mp hright).1
      simp only [JoinState.toCome, hdone, Bool.false_eq_true, if_false]
      refine ⟨trivial, trivial, ?_⟩
      omega
    · cases h

theorem rightNext_eof {σ τ : Type} {st st' : JoinState F O σ τ}
    (h : rightNext st = (.error eof, st')) :
    st'.left = st.left ∧ st'.rightTuples = st.rightTuples ∧ st'.roundDone = true := by
  rw [rightNext, JoinState.rightStep] at h
  split at h
  · cases h
    rw [JoinState.newRound]
    split_ifs
    · exact ⟨rfl, rfl, rfl⟩
    · exact ⟨rfl, rfl, rfl⟩
  · split at h
    · cases h
    · cases h

theorem rightNext_ok {σ τ : Type} {st st' : JoinState F O σ τ} {tuple : Tuple F O}
    (h : rightNext st = (.ok tuple, st')) :
    st'.left = st.left ∧ st'.rightTuples = st.rightTuples ∧
      st'.toCome < if st.roundDone then st.rightTuples.length else st.toCome := by
  rw [rightNext, JoinState.newRound] at h
  split_ifs at h ⊢ with hdone
  · have hstep := JoinState.rightStep_ok rfl h
    simpa [JoinState.toCome] using hstep
  · exact JoinState.rightStep_ok (by simpa using hdone) h

/-- The step of `next` to the next left tuple and the first right one. -/
def leftAndRightNext (left right : PhysicalOperator F O)
    (st : JoinState F O left.State right.State) :
    Except Fault (Tuple F O) × JoinState F O left.State right.State :=
  match left.next st.left with
  | (.error fault, state) => (.error fault, { st with left := state })
  | (.ok tuple, state) => rightNext { st with left := state, leftTuple := some tuple }

/-- `NestedLoopJoinPhysicalOperator::next`. -/
def joinNext (left right : PhysicalOperator F O) (st : JoinState F O left.State right.State) :
    Except Fault (Tuple F O) × JoinState F O left.State right.State :=
  if st.roundDone then leftAndRightNext left right st
  else match rightNext st with
    | (.error (.rc .recordEof), st) => leftAndRightNext left right st
    | result => result

theorem leftAndRightNext_ok {left right : PhysicalOperator F O}
    {st st' : JoinState F O left.State right.State} {tuple : Tuple F O}
    (hdone : st.roundDone = true) (h : leftAndRightNext left right st = (.ok tuple, st')) :
    left.remaining st'.left * st'.rightTuples.length + st'.toCome <
      left.remaining st.left * st.rightTuples.length := by
  unfold leftAndRightNext at h
  split at h
  · cases h
  next tuple' state hleft =>
    obtain ⟨hstate, hright, hcome⟩ := rightNext_ok h
    have hlt := left.remaining_lt hleft
    simp only [hdone, if_true] at hcome
    rw [hstate, hright]
    calc
      _ < left.remaining state * st.rightTuples.length + st.rightTuples.length :=
        Nat.add_lt_add_left hcome _
      _ = (left.remaining state + 1) * st.rightTuples.length := (Nat.succ_mul _ _).symm
      _ ≤ left.remaining st.left * st.rightTuples.length := Nat.mul_le_mul_right _ hlt

theorem joinNext_ok {left right : PhysicalOperator F O}
    {st st' : JoinState F O left.State right.State} {tuple : Tuple F O}
    (h : joinNext left right st = (.ok tuple, st')) :
    left.remaining st'.left * st'.rightTuples.length + st'.toCome <
      left.remaining st.left * st.rightTuples.length + st.toCome := by
  unfold joinNext at h
  split at h
  next hdone =>
    exact (leftAndRightNext_ok hdone h).trans_le (Nat.le_add_right _ _)
  next hdone =>
    split at h
    next st₁ hright =>
      obtain ⟨hstate, hrights, hdone₁⟩ := rightNext_eof hright
      have hlt := leftAndRightNext_ok hdone₁ h
      rw [hstate, hrights] at hlt
      exact hlt.trans_le (Nat.le_add_right _ _)
    next result _ =>
      obtain ⟨hstate, hrights, hcome⟩ := rightNext_ok h
      rw [if_neg hdone] at hcome
      rw [hstate, hrights]
      exact Nat.add_lt_add_left hcome _

/-- The end of `NestedLoopJoinPhysicalOperator::open`, when the right child has ended with an
error. -/
def joinOpenLeft (left right : PhysicalOperator F O) (last : Fault)
    (st : JoinState F O left.State right.State) :
    Except Fault Unit × JoinState F O left.State right.State :=
  match last with
  | .rc .recordEof => ((left.openOp st.left).1, { st with left := (left.openOp st.left).2 })
  | .rc _ => (.error (.rc .error), st)
  | fault => (.error fault, st)

/-- `NestedLoopJoinPhysicalOperator::open`; the return code of opening the right child is
overwritten by those of its `next`. -/
def joinOpen (left right : PhysicalOperator F O) (st : JoinState F O left.State right.State) :
    Except Fault Unit × JoinState F O left.State right.State :=
  let drained := right.drain (right.openOp st.right).2
  joinOpenLeft left right drained.1.2
    { st with right := drained.2, rightTuples := st.rightTuples ++ drained.1.1, roundDone := true }

/-- `NestedLoopJoinPhysicalOperator`. -/
def nestedLoopJoin (left right : PhysicalOperator F O) : PhysicalOperator F O where
  State := JoinState F O left.State right.State
  init := ⟨left.init, right.init, none, [], -1, true⟩
  openOp := joinOpen left right
  next := joinNext left right
  close st :=
    { st with
      left := left.close st.left, right := right.close st.right, leftTuple := none,
      rightTuples := [], rightIndex := -1 }
  remaining st := left.remaining st.left * st.rightTuples.length + st.toCome
  remaining_lt := joinNext_ok

/-! ## Limits -/

structure LimitState (σ : Type) where
  child : σ
  count : Int

/-- `LimitPhysicalOperator::next`. -/
def limitNext (limit : Int) (child : PhysicalOperator F O) (st : LimitState child.State) :
    Except Fault (Tuple F O) × LimitState child.State :=
  if st.count < limit then
    let (result, child) := child.next st.child
    (result, ⟨child, st.count + 1⟩)
  else (.error eof, st)

/-- `LimitPhysicalOperator`; nothing sets `count_` back. -/
def limit (limit : Int) (child : PhysicalOperator F O) : PhysicalOperator F O where
  State := LimitState child.State
  init := ⟨child.init, 0⟩
  openOp st :=
    let (result, child) := child.openOp st.child
    (result, { st with child })
  next := limitNext limit child
  close st := { st with child := child.close st.child }
  remaining st := child.remaining st.child
  remaining_lt := by
    intro st tuple st' h
    unfold limitNext at h
    split at h
    · obtain ⟨hnext, rfl⟩ := Prod.mk.inj h
      exact child.remaining_lt (Prod.ext hnext rfl)
    · cases h

/-! ## Operators without a child -/

/-- No operator: what has no child gets no tuple. -/
def absent : PhysicalOperator F O where
  State := Unit
  init := ()
  openOp st := (.ok (), st)
  next st := (.error eof, st)
  close st := st
  remaining _ := 0
  remaining_lt := nofun

structure FatherTupleState (F O : Type) where
  fatherTuple : Tuple F O
  firstCalled : Bool

/-- `FatherTuplePhysicalOperator`. -/
def fatherTuple : PhysicalOperator F O where
  State := FatherTupleState F O
  init := ⟨.empty, true⟩
  openOp st := (.ok (), st)
  next st :=
    if st.firstCalled then (.ok st.fatherTuple, { st with firstCalled := false })
    else (.error eof, st)
  close _ := ⟨.empty, true⟩
  remaining st := if st.firstCalled then 1 else 0
  remaining_lt := by
    intro st tuple st' h
    split at h
    next hfirst =>
      cases h
      simp [hfirst]
    · cases h

variable [Floats F] [StrLike F] [OtherExpr F O]

/-! ## Scans -/

/-- `filter`: all predicates are true. -/
def filter (predicates : List (Expression F O)) (tuple : Tuple F O) : Except Fault Bool :=
  match predicates with
  | [] => .ok true
  | expr :: predicates => do
    let value ← tuple.eval expr
    if value.getBoolean then filter predicates tuple else .ok false

/-- `TableScanPhysicalOperator::next` on the records that the scanner has still to give. -/
def tableScanNext (predicates : List (Expression F O)) :
    List (Except Fault (Row F)) →
      Except Fault (Tuple F O) × Option (List (Except Fault (Row F)))
  | [] => (.error eof, some [])
  | .error fault :: records => (.error fault, some records)
  | .ok row :: records =>
    match filter predicates (.row row) with
    | .error fault => (.error fault, some records)
    | .ok true => (.ok (.row row), some records)
    | .ok false => tableScanNext predicates records

/-- `IndexScanPhysicalOperator::next`: each entry has its record and what `visit_record` says of
it. -/
def indexScanNext (predicates : List (Expression F O)) :
    List (Except Fault (Row F) × Except Fault Unit) →
      Except Fault (Tuple F O) × Option (List (Except Fault (Row F) × Except Fault Unit))
  | [] => (.error eof, some [])
  | (.error fault, _) :: entries => (.error fault, some entries)
  | (.ok row, visited) :: entries =>
    match filter predicates (.row row) with
    | .error fault => (.error fault, some entries)
    | .ok false => indexScanNext predicates entries
    | .ok true =>
      match visited with
      | .ok () => (.ok (.row row), some entries)
      | .error (.rc .recordInvisible) => indexScanNext predicates entries
      | .error fault => (.error fault, some entries)

/-- An operator that goes through a list, which it has from `open` to `close`. -/
def scan {A : Type} (opened : Except Fault Unit) (entries : List A)
    (scanNext : List A → Except Fault (Tuple F O) × Option (List A))
    (shorter : ∀ {entries tuple rest}, scanNext entries = (.ok tuple, rest) →
      (rest.getD []).length < entries.length) : PhysicalOperator F O where
  State := Option (List A)
  init := none
  openOp _ :=
    match opened with
    | .ok () => (.ok (), some entries)
    | .error fault => (.error fault, none)
  next
    | none => (.error .abort, none)
    | some entries => scanNext entries
  close _ := none
  remaining st := (st.getD []).length
  remaining_lt := by
    intro st tuple st' h
    cases st with
    | none => cases h
    | some entries => exact shorter h

theorem tableScanNext_shorter {predicates : List (Expression F O)}
    {records : List (Except Fault (Row F))} {tuple : Tuple F O}
    {rest : Option (List (Except Fault (Row F)))}
    (h : tableScanNext predicates records = (.ok tuple, rest)) :
    (rest.getD []).length < records.length := by
  induction records with
  | nil => cases h
  | cons record records ih =>
    cases record with
    | error fault => cases h
    | ok row =>
      rw [tableScanNext] at h
      split at h
      · cases h
      · cases h
        exact Nat.lt_succ_self _
      · exact (ih h).trans (Nat.lt_succ_self _)

theorem indexScanNext_shorter {predicates : List (Expression F O)}
    {entries : List (Except Fault (Row F) × Except Fault Unit)} {tuple : Tuple F O}
    {rest : Option (List (Except Fault (Row F) × Except Fault Unit))}
    (h : indexScanNext predicates entries = (.ok tuple, rest)) :
    (rest.getD []).length < entries.length := by
  induction entries with
  | nil => cases h
  | cons entry entries ih =>
    obtain ⟨record, visited⟩ := entry
    cases record with
    | error fault => cases h
    | ok row =>
      unfold indexScanNext at h
      split at h
      · cases h
      · exact (ih h).trans (Nat.lt_succ_self _)
      · split at h
        · cases h
          exact Nat.lt_succ_self _
        · exact (ih h).trans (Nat.lt_succ_self _)
        · cases h

/-- `RecordFileScanner` of an operator: what `open_scan` returns, what the scanner gives, and whether
the page iterator has another slot when so many records are to come. -/
structure TableScanner (F : Type) where
  opened : Except Fault Unit
  records : List (Except Fault (Row F))
  slotLeft : Nat → Bool

/-- Where `record_page_iterator_` stands.  `close_scan` deletes the page handler that it points to. -/
inductive PageIterator where
  | atEnd
  | inPage
  | dangling
  deriving DecidableEq

/-- `close_scan`, which `open_scan` calls as well. -/
def PageIterator.closeScan : PageIterator → PageIterator
  | inPage => dangling
  | iterator => iterator

structure TableScanState (F : Type) where
  records : Option (List (Except Fault (Row F)))
  iterator : PageIterator

/-- The page iterator behind a call of `next`. -/
def TableScanner.iteratorAfter (scanner : TableScanner F) (result : Except Fault (Tuple F O))
    (rest : Option (List (Except Fault (Row F)))) : PageIterator :=
  match result with
  | .error (.rc .recordEof) => .atEnd
  | _ => if scanner.slotLeft (rest.getD []).length then .inPage else .atEnd

/-- `TableScanPhysicalOperator::next`; an iterator with a slot left from an earlier scan reads its
deleted page handler. -/
def tableScanStep (scanner : TableScanner F) (predicates : List (Expression F O))
    (st : TableScanState F) : Except Fault (Tuple F O) × TableScanState F :=
  match st.records with
  | none => (.error .abort, st)
  | some records =>
    if st.iterator = .dangling then (.error .abort, st)
    else
      let (result, rest) := tableScanNext predicates records
      (result, ⟨rest, scanner.iteratorAfter result rest⟩)

/-- `TableScanPhysicalOperator`. -/
def tableScan (scanner : TableScanner F) (predicates : List (Expression F O)) :
    PhysicalOperator F O where
  State := TableScanState F
  init := ⟨none, .atEnd⟩
  openOp st :=
    match scanner.opened with
    | .ok () => (.ok (), ⟨some scanner.records, st.iterator.closeScan⟩)
    | .error fault => (.error fault, ⟨none, st.iterator.closeScan⟩)
  next := tableScanStep scanner predicates
  close st := ⟨none, st.iterator.closeScan⟩
  remaining st := (st.records.getD []).length
  remaining_lt := by
    intro st tuple st' h
    unfold tableScanStep at h
    split at h
    · cases h
    next records hrecords =>
      split at h
      · cases h
      · obtain ⟨hresult, rfl⟩ := Prod.mk.inj h
        rw [hrecords]
        exact tableScanNext_shorter (Prod.ext hresult rfl)

/-- `IndexScanPhysicalOperator`. -/
def indexScan (opened : Except Fault Unit)
    (entries : List (Except Fault (Row F) × Except Fault Unit))
    (predicates : List (Expression F O)) : PhysicalOperator F O :=
  scan opened entries (indexScanNext predicates) indexScanNext_shorter

/-! ## Predicates and projections -/

/-- The predicate on one tuple: the tuple when it is true. -/
def predicateStep (expr : Expression F O) (tuple : Tuple F O) : Except Fault (Option (Tuple F O)) :=
  do
    let value ← tuple.eval expr
    .ok (if value.getBoolean then some tuple else none)

/-- `PredicatePhysicalOperator`. -/
def predicate (expr : Expression F O) (child : PhysicalOperator F O) : PhysicalOperator F O where
  State := child.State
  init := child.init
  openOp := child.openOp
  next := child.find (predicateStep expr)
  close := child.close
  remaining := child.remaining
  remaining_lt := child.remaining_lt_of_find

structure ProjectState (σ : Type) where
  child : σ
  iterated : Bool

/-- `ProjectPhysicalOperator::next`. -/
def projectNext (expressions : List (NamedExpr F O)) (child : PhysicalOperator F O)
    (st : ProjectState child.State) : Except Fault (Tuple F O) × ProjectState child.State :=
  if expressions.all fun named => named.expr.pureValue then
    if st.iterated then (.error eof, st)
    else (.ok (.expression expressions none), { st with iterated := true })
  else
    let (result, child) := child.next st.child
    (result.map fun tuple => .expression expressions (some tuple), { st with child })

/-- `ProjectPhysicalOperator`; constants alone make one row, whatever the child has. -/
def project (expressions : List (NamedExpr F O)) (child : PhysicalOperator F O) :
    PhysicalOperator F O where
  State := ProjectState child.State
  init := ⟨child.init, false⟩
  openOp st :=
    let (result, child) := child.openOp st.child
    (result, { st with child })
  next := projectNext expressions child
  close st := { st with child := child.close st.child }
  remaining st := child.remaining st.child + if st.iterated then 0 else 1
  remaining_lt := by
    intro st tuple st' h
    unfold projectNext at h
    split at h
    · split at h
      · cases h
      next hiterated =>
        cases h
        simp [hiterated]
    · obtain ⟨hnext, rfl⟩ := Prod.mk.inj h
      cases hchild : (child.next st.child).1 with
      | error fault =>
        rw [hchild] at hnext
        cases hnext
      | ok tuple' =>
        have hlt := child.remaining_lt (Prod.ext hchild rfl)
        exact Nat.add_lt_add_right hlt _

/-! ## Sorting -/

inductive OrderByType where
  | ascSort
  | descSort
  deriving DecidableEq, Repr

/-- A value that could not be had stays undefined. -/
def orUndefined : Except Fault (Value F) → Except Fault (Value F)
  | .error (.rc _) => .ok .undefined
  | result => result

/-- `compare` of the sort: whether the first tuple comes before the second. -/
def comesBefore (x y : Tuple F O) : List (Expression F O × OrderByType) → Except Fault Bool
  | [] => .ok false
  | (expr, orderByType) :: orderBy => do
    let valueX ← orUndefined (x.eval expr)
    let valueY ← orUndefined (y.eval expr)
    let cmpResult ← valueX.compare valueY
    if cmpResult ≠ 0 then .ok (if orderByType = .ascSort then cmpResult < 0 else 0 < cmpResult)
    else comesBefore x y orderBy

/-- `std::sort`; the order of equal elements is its own. -/
class StdSort (T : Type) where
  sort : (T → T → Except Fault Bool) → List T → Except Fault (List T)

/-- The elements in the order that an insertion sort gives. -/
instance : StdSort (Tuple ℚ Empty) where
  sort before := List.foldrM (insert before) []
where
  insert (before : Tuple ℚ Empty → Tuple ℚ Empty → Except Fault Bool) (x : Tuple ℚ Empty) :
      List (Tuple ℚ Empty) → Except Fault (List (Tuple ℚ Empty))
    | [] => .ok [x]
    | y :: ys => do if ← before y x then .ok (y :: (← insert before x ys)) else .ok (x :: y :: ys)

structure SortState (F O σ : Type) where
  child : σ
  tupleSet : List (Tuple F O)

/-- The end of `SortPhysicalOperator::open`, with the error at which the child has ended: one of the
child ends its tuples as `RECORD_EOF` does. -/
def sortTuples [StdSort (Tuple F O)] (orderBy : List (Expression F O × OrderByType))
    (tupleSet : List (Tuple F O)) : Fault → Except Fault Unit × List (Tuple F O)
  | .rc _ =>
    match StdSort.sort (comesBefore · · orderBy) tupleSet with
    | .ok sorted => (.ok (), sorted)
    | .error fault => (.error fault, tupleSet)
  | fault => (.error fault, tupleSet)

/-- `SortPhysicalOperator::open`. -/
def sortOpen [StdSort (Tuple F O)] (orderBy : List (Expression F O × OrderByType))
    (child : PhysicalOperator F O) (st : SortState F O child.State) :
    Except Fault Unit × SortState F O child.State :=
  match child.openOp st.child with
  | (.error fault, state) => (.error fault, { st with child := state })
  | (.ok (), state) =>
    let ((tuples, last), state) := child.drain state
    let (result, tupleSet) := sortTuples orderBy (st.tupleSet ++ tuples) last
    (result, ⟨state, tupleSet⟩)

/-- `SortPhysicalOperator::next`. -/
def sortNext {σ : Type} (st : SortState F O σ) : Except Fault (Tuple F O) × SortState F O σ :=
  match st.tupleSet with
  | [] => (.error eof, st)
  | tuple :: tupleSet => (.ok tuple, { st with tupleSet })

/-- `SortPhysicalOperator`; the tuples that are not read stay in `tuple_set_`. -/
def sort [StdSort (Tuple F O)] (orderBy : List (Expression F O × OrderByType))
    (child : PhysicalOperator F O) : PhysicalOperator F O where
  State := SortState F O child.State
  init := ⟨child.init, []⟩
  openOp := sortOpen orderBy child
  next := sortNext
  close st := { st with child := child.close st.child }
  remaining st := st.tupleSet.length
  remaining_lt := by
    intro st tuple st' h
    unfold sortNext at h
    split at h
    · cases h
    next heq =>
      cases h
      simp [heq]

end Sql

end ObHtap
