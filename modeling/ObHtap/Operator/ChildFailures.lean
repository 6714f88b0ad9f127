import ObHtap.Operator.UpdatePhysicalOperator
import ObHtap.Sql.SortLaws

/-!
# Failures of a child operator

UPDATE, DELETE, ORDER BY and joins drain their children with `while (OB_SUCC(rc = next()))`.  What
becomes of the return code that ends the loop differs from one to the other.
-/

namespace ObHtap

namespace Sql

/-! ## Loops with a body -/

/-- A child whose calls see everything that a statement changes. -/
structure ChildOperator (S T : Type) where
  openOp : S → Except Fault Unit × S
  next : S → Except Fault T × S
  close : S → S

namespace ChildOperator

variable {S T : Type}

/-- The loop in so many rounds at most.  It ends with what `next` returns, on the right, or with an
error of the body. -/
def loop (child : ChildOperator S T) (body : S → T → Except Fault Unit × S) :
    Nat → S → Option ((Fault ⊕ Fault) × S)
  | 0, _ => none
  | rounds + 1, s =>
    match child.next s with
    | (.error fault, s) => some (.inr fault, s)
    | (.ok t, s) =>
      match body s t with
      | (.error fault, s) => some (.inl fault, s)
      | (.ok (), s) => child.loop body rounds s

/-- `open` fails, or after it `next` with another code than `RECORD_EOF`, in the loop. -/
def FailsIn (child : ChildOperator S T) (body : S → T → Except Fault Unit × S) (rounds : Nat)
    (s : S) : Prop :=
  (∃ rc, (child.openOp s).1 = .error (.rc rc)) ∨
    (child.openOp s).1 = .ok () ∧
      ∃ rc s', child.loop body rounds (child.openOp s).2 = some (.inr (.rc rc), s') ∧
        rc ≠ .recordEof

end ChildOperator

/-! ## UPDATE -/

namespace UpdateLoop

variable {S : Type}

/-- The body of the loop: the new record, and the update.  `S` is what else the child works on. -/
def updateRow (op : UpdatePhysicalOperator) (s : S × UpdateState) (record : StoredRecord) :
    Except Fault Unit × (S × UpdateState) :=
  if op.values = [] then (.error (.rc .error), s)
  else match op.newRecordData s.2 record.data with
    | none => (.error .abort, s)
    | some (.error rc, s') => (.error (.rc rc), s.1, s')
    | some (.ok newData, s') =>
      match s'.table.updateRecord record newData with
      | none => (.error .abort, s.1, s')
      | some (.error rc, table) => (.error (.rc rc), s.1, { s' with table })
      | some (.ok (), table) => (.ok (), s.1, { s' with table })

/-- A view: the columns that its fields stand for, if it has nothing else, and whether it can be
written. -/
structure View where
  fieldExprs : Except RC (List FieldMeta)
  wirteAble : Bool

/-- The branch for a view: the columns of its table take the place of its own. -/
def onTable (op : UpdatePhysicalOperator) : Option View → Except Fault UpdatePhysicalOperator
  | none => .ok op
  | some view =>
    match view.fieldExprs with
    | .error _ => .error (.rc .error)
    | .ok fields =>
      if view.wirteAble = false then .error (.rc .error)
      else do
        let values ← op.values.mapM fun assigned =>
          match fields[assigned.1.fieldId.toNatClampNeg]? with
          | some field => .ok (field, assigned.2)
          | none => .error .abort
        .ok { op with values }

/-- `UpdatePhysicalOperator::open` over any child, on a table or on a view.  The records of the
child are those of the table. -/
def openOp (op : UpdatePhysicalOperator) (view : Option View)
    (child : ChildOperator (S × UpdateState) StoredRecord) (rounds : Nat) (s : S × UpdateState) :
    Option (Except Fault Unit × (S × UpdateState)) :=
  match onTable op view with
  | .error fault => some (.error fault, s)
  | .ok op =>
    match child.openOp s with
    | (.error fault, s) => some (.error fault, s)
    | (.ok (), s) =>
      (child.loop (updateRow op) rounds s).map fun
        | (.inl fault, s) => (.error fault, s)
        | (.inr (.rc _), s) => (.ok (), s)
        | (.inr fault, s) => (.error fault, s)

end UpdateLoop

/-! ## DELETE -/

/-- A row with its cells. -/
structure RowTuple (F : Type) where
  record : StoredRecord
  cells : List (Except Fault (Value F))

/-- A DELETE with its calls into the transaction and the text files. -/
structure DeletePhysicalOperator (S F : Type) where
  child : ChildOperator S (RowTuple F)
  deleteRecord : S → StoredRecord → Except Fault Unit × S
  deleteText : S → Int32 → Except Fault Unit × S
  deleteVector : S → Int32 → Except Fault Unit × S

/-- The records and the pages of texts and vectors that have been read. -/
structure Collected where
  records : List StoredRecord
  pages : List Int32
  vectorPages : List Int32

/-- A loop of calls that returns at the first error. -/
def callAll {S A : Type} (call : S → A → Except Fault Unit × S) : List A → S → Except Fault Unit × S
  | [], s => (.ok (), s)
  | a :: as, s =>
    match call s a with
    | (.error fault, s) => (.error fault, s)
    | (.ok (), s) => callAll call as s

namespace DeletePhysicalOperator

variable {S F : Type} [Floats F]

/-- The page of a cell is kept. -/
def collectCell (collected : Collected) (value : Value F) : Collected :=
  match value with
  | .texts page => { collected with pages := collected.pages ++ [page] }
  | .highVectors page => { collected with vectorPages := collected.vectorPages ++ [page] }
  | _ => collected

/-- The loop over the cells of a row. -/
def collectCells : List (Except Fault (Value F)) → Collected → Except Fault Unit × Collected
  | [], collected => (.ok (), collected)
  | .error fault :: _, collected => (.error fault, collected)
  | .ok value :: cells, collected => collectCells cells (collectCell collected value)

/-- The body of the loop. -/
def collectRow (s : S × Collected) (tuple : RowTuple F) : Except Fault Unit × (S × Collected) :=
  match collectCells tuple.cells s.2 with
  | (.error fault, collected) => (.error fault, s.1, collected)
  | (.ok (), collected) =>
    (.ok (), s.1, { collected with records := collected.records ++ [tuple.record] })

/-- The child beside what is collected. -/
def collecting (op : DeletePhysicalOperator S F) : ChildOperator (S × Collected) (RowTuple F) where
  openOp s := ((op.child.openOp s.1).1, (op.child.openOp s.1).2, s.2)
  next s := ((op.child.next s.1).1, (op.child.next s.1).2, s.2)
  close s := (op.child.close s.1, s.2)

/-- What `open` does with the rows that it has read. -/
def deleteCollected (op : DeletePhysicalOperator S F) (s : S × Collected) : Except Fault Unit × S :=
  match callAll op.deleteRecord s.2.records (op.child.close s.1) with
  | (.error fault, s') => (.error fault, s')
  | (.ok (), s') =>
    match callAll op.deleteText s.2.pages s' with
    | (.error fault, s') => (.error fault, s')
    | (.ok (), s') => callAll op.deleteVector s.2.vectorPages s'

/-- `open`. -/
def openOp (op : DeletePhysicalOperator S F) (rounds : Nat) (s : S) :
    Option (Except Fault Unit × S) :=
  match op.collecting.openOp (s, ⟨[], [], []⟩) with
  | (.error fault, s) => some (.error fault, s.1)
  | (.ok (), s) =>
    (op.collecting.loop collectRow rounds s).map fun
      | (.inl fault, s) => (.error fault, s.1)
      | (.inr (.rc _), s) => op.deleteCollected s
      | (.inr fault, s) => (.error fault, s.1)

end DeletePhysicalOperator

/-! ## What reports a failure -/

section

variable {F O : Type}

/-- `open` returns an error, or after it `next` another one than `RECORD_EOF`. -/
def Yield.Fails (y : Yield F O) : Prop :=
  (∃ rc, y.opened = .error (.rc rc)) ∨
    y.opened = .ok () ∧ ∃ rc, y.drained.2 = .rc rc ∧ rc ≠ .recordEof

end

section

variable {S F O : Type}

/-- UPDATE returns an error for a child that fails exactly if it is `open` that fails, or the view
is refused before. -/
theorem UpdateLoop.openOp_iff {op : UpdatePhysicalOperator} {view : Option View}
    {child : ChildOperator (S × UpdateState) StoredRecord} {rounds : Nat} {s s' : S × UpdateState}
    {result : Except Fault Unit}
    (hfails : ∀ op', onTable op view = .ok op' → child.FailsIn (updateRow op') rounds s)
    (h : openOp op view child rounds s = some (result, s')) :
    (∃ rc, result = .error (.rc rc)) ↔ (∃ rc, onTable op view = .error (.rc rc)) ∨
      (∃ op', onTable op view = .ok op') ∧ ∃ rc, (child.openOp s).1 = .error (.rc rc) := by
  unfold openOp at h
  cases hview : onTable op view with
  | error fault =>
    rw [hview] at h
    cases h
    simp
  | ok op' =>
    rw [hview] at h
    simp only [reduceCtorEq, exists_false, false_or, Except.ok.injEq, exists_eq', true_and]
    rcases hfails op' hview with ⟨rc, hopen⟩ | ⟨hopen, rc, s₁, hloop, -⟩
    · rw [show child.openOp s = (.error (.rc rc), (child.openOp s).2) from Prod.ext hopen rfl] at h
      cases h
      exact iff_of_true ⟨rc, rfl⟩ ⟨rc, hopen⟩
    · rw [show child.openOp s = (.ok (), (child.openOp s).2) from Prod.ext hopen rfl] at h
      dsimp only at h
      rw [hloop] at h
      cases h
      exact iff_of_false nofun (by rw [hopen]; exact nofun)

/-- DELETE returns an error for a child that fails if it is `open` that fails, or the deletion of
the rows that have been read. -/
theorem DeletePhysicalOperator.openOp_iff [Floats F] {op : DeletePhysicalOperator S F}
    {rounds : Nat} {s s' : S} {result : Except Fault Unit}
    (hfails : op.collecting.FailsIn collectRow rounds (s, ⟨[], [], []⟩))
    (h : op.openOp rounds s = some (result, s')) :
    (∃ rc, result = .error (.rc rc)) ↔
      (∃ rc, (op.child.openOp s).1 = .error (.rc rc)) ∨
        ∃ last s₁, op.collecting.loop collectRow rounds ((op.child.openOp s).2, ⟨[], [], []⟩) =
          some (.inr last, s₁) ∧ ∃ rc, (op.deleteCollected s₁).1 = .error (.rc rc) := by
  unfold openOp at h
  rcases hfails with ⟨rc, hopen⟩ | ⟨hopen, rc, s₁, hloop, -⟩
  · rw [show op.collecting.openOp (s, ⟨[], [], []⟩) = (.error (.rc rc), _) from
      Prod.ext hopen rfl] at h
    cases h
    exact iff_of_true ⟨rc, rfl⟩ (Or.inl ⟨rc, hopen⟩)
  · rw [show op.collecting.openOp (s, ⟨[], [], []⟩) = (.ok (), _) from Prod.ext hopen rfl] at h
    dsimp only at h
    rw [hloop] at h
    obtain ⟨rfl, rfl⟩ := Prod.mk.inj (Option.some.inj h)
    have hnot : ¬ ∃ rc, (op.child.openOp s).1 = .error (.rc rc) := by
      rintro ⟨rc', hrc⟩
      cases hopen.symm.trans hrc
    rw [or_iff_right hnot]
    constructor
    · exact fun hresult => ⟨_, s₁, hloop, hresult⟩
    · rintro ⟨last, s₂, hloop', hresult⟩
      cases hloop.symm.trans hloop'
      exact hresult

/-- The failures of children that a join returns: the right one has ended badly, or it has ended
well and the left one fails before the join is over. -/
def JoinReturns (left right : Yield F O) : Prop :=
  (∃ rc, right.drained.2 = .rc rc ∧ rc ≠ .recordEof) ∨
    right.drained.2 = eof ∧ left.Fails ∧
      (left.opened = .ok () → right.drained.1 = [] → left.drained.1 = [])

/-- A join returns an error exactly for these failures. -/
theorem Yield.join_fails_iff {left right : Yield F O} :
    (left.join right).Fails ↔ JoinReturns left right := by
  unfold JoinReturns
  cases hlast : right.drained.2 with
  | abort | outOfFuel =>
    -- the call of the right child does not return
    have hopened : (left.join right).opened = .error right.drained.2 := by
      rw [join, hlast]
    rw [Fails, hopened, hlast]
    simp [eof]
  | rc code =>
    rcases eq_or_ne code .recordEof with rfl | hne
    · have hjoin : left.join right = ⟨joinTuples left.unopened [], left.opened,
          joinTuples left.drained right.drained.1⟩ := by
        rw [join, hlast]
      rw [hjoin]
      unfold Fails joinTuples
      dsimp only
      cases hopened : left.opened with
      | error fault => simp [eof]
      | ok _ => cases right.drained.1 <;> cases left.drained.1 <;> simp [eof]
    · have hopened : (left.join right).opened = .error (.rc .error) := by
        rw [join, hlast]
        split
        next heq => exact absurd (Fault.rc.inj heq) hne
        · rfl
        next hnot => exact absurd rfl (hnot code)
      exact iff_of_true (Or.inl ⟨_, hopened⟩) (Or.inl ⟨code, rfl, hne⟩)

variable [Floats F] [StrLike F] [OtherExpr F O]

/-- The comparator has no return code: it reads a value that could not be had as it is. -/
theorem comesBefore_error {x y : Tuple F O} {orderBy : List (Expression F O × OrderByType)}
    {code : RC} : comesBefore x y orderBy ≠ .error (.rc code) := by
  have hundefined (result : Except Fault (Value F)) : orUndefined result ≠ .error (.rc code) := by
    unfold orUndefined
    split
    · exact nofun
    next hnot => exact fun heq => hnot code heq
  induction orderBy with
  | nil => exact nofun
  | cons item orderBy ih =>
    rw [comesBefore]
    intro h
    rcases bind_error h with h | ⟨valueX, -, h⟩
    · exact hundefined _ h
    rcases bind_error h with h | ⟨valueY, -, h⟩
    · exact hundefined _ h
    rcases bind_error h with h | ⟨n, -, h⟩
    · cases Value.compare_error h
    split_ifs at h
    exact ih h

variable [StdSort (Tuple F O)] [LawfulStdSort (Tuple F O)]

/-- ORDER BY returns an error for a child that fails exactly if it is `open` that fails. -/
theorem Yield.sort_fails_iff (orderBy : List (Expression F O × OrderByType)) {y : Yield F O}
    (hfails : y.Fails) : (y.sort orderBy).Fails ↔ ∃ rc, y.opened = .error (.rc rc) := by
  unfold sort eager
  rcases hfails with ⟨rc, hopen⟩ | ⟨hopen, rc, hlast, hne⟩
  · rw [hopen]
    exact iff_of_true (Or.inl ⟨rc, rfl⟩) ⟨rc, rfl⟩
  · rw [hopen]
    refine iff_of_false ?_ (by exact nofun)
    dsimp only
    unfold sortTuples
    rw [hlast]
    rintro (⟨rc', herror⟩ | ⟨-, rc', heof, hne'⟩)
    · dsimp only at herror
      split at herror
      · cases herror
      next fault hsort =>
        cases herror
        obtain ⟨x, -, x', -, hbefore⟩ := LawfulStdSort.error _ _ _ hsort
        exact comesBefore_error hbefore
    · cases heof
      exact hne' rfl

end

section

variable (S F O : Type) [Floats F] [StrLike F] [OtherExpr F O] [StdSort (Tuple F O)]

/-- When each of the operators returns an error for a child that fails. -/
structure ChildFailures : Prop where
  update : ∀ (op : UpdatePhysicalOperator) (view : Option UpdateLoop.View)
    (child : ChildOperator (S × UpdateState) StoredRecord) (rounds : Nat) (s s' : S × UpdateState)
    (result : Except Fault Unit),
    (∀ op', UpdateLoop.onTable op view = .ok op' →
      child.FailsIn (UpdateLoop.updateRow op') rounds s) →
    UpdateLoop.openOp op view child rounds s = some (result, s') →
    ((∃ rc, result = .error (.rc rc)) ↔ (∃ rc, UpdateLoop.onTable op view = .error (.rc rc)) ∨
      (∃ op', UpdateLoop.onTable op view = .ok op') ∧ ∃ rc, (child.openOp s).1 = .error (.rc rc))
  delete : ∀ (op : DeletePhysicalOperator S F) (rounds : Nat) (s s' : S)
    (result : Except Fault Unit),
    op.collecting.FailsIn DeletePhysicalOperator.collectRow rounds (s, ⟨[], [], []⟩) →
    op.openOp rounds s = some (result, s') →
    ((∃ rc, result = .error (.rc rc)) ↔
      (∃ rc, (op.child.openOp s).1 = .error (.rc rc)) ∨
        ∃ last s₁, op.collecting.loop DeletePhysicalOperator.collectRow rounds
            ((op.child.openOp s).2, ⟨[], [], []⟩) = some (.inr last, s₁) ∧
          ∃ rc, (op.deleteCollected s₁).1 = .error (.rc rc))
  orderBy : ∀ (orderBy : List (Expression F O × OrderByType)) (child : PhysicalOperator F O),
    (yieldOf child).Fails →
    ((yieldOf (sort orderBy child)).Fails ↔ ∃ rc, (yieldOf child).opened = .error (.rc rc))
  join : ∀ left right : PhysicalOperator F O, (yieldOf left).Fails ∨ (yieldOf right).Fails →
    ((yieldOf (nestedLoopJoin left right)).Fails ↔ JoinReturns (yieldOf left) (yieldOf right))

theorem childFailures [LawfulStdSort (Tuple F O)] : ChildFailures S F O where
  update _ _ _ _ _ _ _ hfails h := UpdateLoop.openOp_iff hfails h
  delete _ _ _ _ _ hfails h := DeletePhysicalOperator.openOp_iff hfails h
  orderBy orderBy child hfails := by
    rw [yieldOf_sort]
    exact Yield.sort_fails_iff orderBy hfails
  join left right _ := by
    rw [yieldOf_nestedLoopJoin]
    exact Yield.join_fails_iff

end

section

variable (F : Type) [Floats F] [StrLike F] [OtherExpr F Empty]

/-- A scan that meets a concurrency conflict behind its first row. -/
def conflictScan : PhysicalOperator F Empty :=
  tableScan ⟨.ok (), [.ok ⟨"t", "t", [("a", .ints 1)]⟩, .error (.rc .lockedConcurrencyConflict)],
    fun _ => false⟩ []

theorem yieldOf_conflictScan : yieldOf (conflictScan F) = scanYield (.ok ())
    ([.row ⟨"t", "t", [("a", .ints 1)]⟩], .rc .lockedConcurrencyConflict) :=
  yieldOf_tableScan _ _

theorem fails_conflictScan : (yieldOf (conflictScan F)).Fails := by
  rw [yieldOf_conflictScan]
  exact Or.inr ⟨rfl, _, rfl, by decide⟩

end

/-- ORDER BY and a join over the conflict, with exact floats. -/
theorem childFailures_conflict :
    ((yieldOf (sort [] (conflictScan (RoundedFloat .exact)))).Fails ↔
      ∃ rc, (yieldOf (conflictScan (RoundedFloat .exact))).opened = .error (.rc rc)) ∧
    ((yieldOf (nestedLoopJoin (conflictScan (RoundedFloat .exact)) (conflictScan _))).Fails ↔
      JoinReturns (yieldOf (conflictScan (RoundedFloat .exact))) (yieldOf (conflictScan _))) :=
  have h := childFailures Unit (RoundedFloat .exact) Empty
  ⟨h.orderBy [] _ (fails_conflictScan _), h.join _ _ (Or.inl (fails_conflictScan _))⟩

/-- ORDER BY over it ends as after all rows. -/
theorem not_fails_conflict : ¬ ∀ (orderBy : List (Expression ℚ Empty × OrderByType))
    (child : PhysicalOperator ℚ Empty), (yieldOf child).Fails →
    (yieldOf (sort orderBy child)).Fails := by
  intro h
  have hsort := h [] (conflictScan ℚ) (fails_conflictScan ℚ)
  rw [yieldOf_sort, yieldOf_conflictScan] at hsort
  rcases hsort with ⟨rc, herror⟩ | ⟨-, rc, hlast, hne⟩
  · cases herror
  · cases hlast
    exact hne rfl

end Sql

end ObHtap
