import ObHtap.Sql.Yield

/-!
# Tuples by their pointers

`current_tuple` gives a pointer, and an operator above may collect the pointers and read them after
later calls of `next`.  The operators below a join with what their pointers read as: a scan makes a
copy of its record for every call, a join a pair of two pointers.
-/

namespace ObHtap

namespace Sql

variable {F O : Type}

/-- An operator with its pointers to tuples.  A pointer once given reads as the same tuple until
`close`. -/
structure TupleSource (F O : Type) where
  State : Type
  Pointer : Type
  init : State
  openOp : State → Except Fault Unit × State
  next : State → Except Fault Unit × State
  currentTuple : State → Pointer × State
  close : State → State
  /-- What a pointer reads as; nothing is there before it is given and after `close`. -/
  read : State → Pointer → Option (Tuple F O)
  /-- The tuple that `next` has gone to. -/
  current : State → Option (Tuple F O)
  /-- A bound for the tuples to come. -/
  remaining : State → Nat
  Valid : State → Prop
  valid_init : Valid init
  valid_open : ∀ {st}, Valid st → Valid (openOp st).2
  valid_next : ∀ {st}, Valid st → Valid (next st).2
  valid_currentTuple : ∀ {st}, Valid st → Valid (currentTuple st).2
  valid_close : ∀ {st}, Valid st → Valid (close st)
  open_keeps : ∀ {st p tuple}, Valid st → read st p = some tuple →
    read (openOp st).2 p = some tuple
  next_keeps : ∀ {st p tuple}, Valid st → read st p = some tuple →
    read (next st).2 p = some tuple
  currentTuple_keeps : ∀ {st p tuple}, read st p = some tuple →
    read (currentTuple st).2 p = some tuple
  currentTuple_reads : ∀ st, read (currentTuple st).2 (currentTuple st).1 = current st
  current_currentTuple : ∀ st, current (currentTuple st).2 = current st
  current_next : ∀ {st st'}, Valid st → next st = (.ok (), st') → ∃ tuple, current st' = some tuple
  remaining_lt : ∀ {st st'}, next st = (.ok (), st') → remaining st' < remaining st
  remaining_currentTuple : ∀ st, remaining (currentTuple st).2 = remaining st

namespace TupleSource

variable (source : TupleSource F O)

/-- The loop `while (next() == SUCCESS) … current_tuple()`, with the pointers. -/
def pointers : Cursor Fault source.Pointer where
  State := source.State
  init := source.init
  openOp := source.openOp
  next st :=
    match source.next st with
    | (.error fault, st') => (.error fault, st')
    | (.ok (), st') => (.ok (source.currentTuple st').1, (source.currentTuple st').2)
  close := source.close
  remaining := source.remaining
  remaining_lt := by
    intro st p st' h
    split at h
    · cases h
    next st₁ hnext =>
      cases h
      rw [source.remaining_currentTuple]
      exact source.remaining_lt hnext

/-- The same loop with the tuples that the pointers read as. -/
def tuples : PhysicalOperator F O where
  State := source.State
  init := source.init
  openOp := source.openOp
  next st :=
    match source.next st with
    | (.error fault, st') => (.error fault, st')
    | (.ok (), st') =>
      match source.read (source.currentTuple st').2 (source.currentTuple st').1 with
      | some tuple => (.ok tuple, (source.currentTuple st').2)
      | none => (.error .abort, (source.currentTuple st').2)
  close := source.close
  remaining := source.remaining
  remaining_lt := by
    intro st tuple st' h
    split at h
    · cases h
    next st₁ hnext =>
      split at h
      · cases h
        rw [source.remaining_currentTuple]
        exact source.remaining_lt hnext
      · cases h

variable {source} {st st' : source.State} {tuple : Tuple F O} {fault : Fault}

theorem tuples_next_error (h : source.next st = (.error fault, st')) :
    source.tuples.next st = (.error fault, st') := by
  change (match source.next st with | (.error _, _) => _ | (.ok (), _) => _) = _
  rw [h]

theorem tuples_next_ok (h : source.next st = (.ok (), st'))
    (htuple : source.current st' = some tuple) :
    source.tuples.next st = (.ok tuple, (source.currentTuple st').2) := by
  have hread := source.currentTuple_reads st'
  rw [htuple] at hread
  change (match source.next st with | (.error _, _) => _ | (.ok (), _) => _) = _
  rw [h]
  dsimp only
  rw [hread]

theorem pointers_next_error (h : source.next st = (.error fault, st')) :
    source.pointers.next st = (.error fault, st') := by
  change (match source.next st with | (.error _, _) => _ | (.ok (), _) => _) = _
  rw [h]

theorem pointers_next_ok (h : source.next st = (.ok (), st')) :
    source.pointers.next st = (.ok (source.currentTuple st').1, (source.currentTuple st').2) := by
  change (match source.next st with | (.error _, _) => _ | (.ok (), _) => _) = _
  rw [h]

theorem next_cases (hvalid : source.Valid st) :
    (∃ fault st', source.next st = (.error fault, st')) ∨
      ∃ st' tuple, source.next st = (.ok (), st') ∧ source.current st' = some tuple ∧
        source.Valid (source.currentTuple st').2 := by
  cases hnext : source.next st with
  | mk result st' =>
    cases result with
    | error fault => exact Or.inl ⟨fault, st', rfl⟩
    | ok =>
      obtain ⟨tuple, htuple⟩ := source.current_next hvalid hnext
      have hvalid' := source.valid_next hvalid
      rw [hnext] at hvalid'
      exact Or.inr ⟨st', tuple, rfl, htuple, source.valid_currentTuple hvalid'⟩

variable (source) in
/-- All pointers still read as the tuples that they read as. -/
structure Keeps (st st' : source.State) : Prop where
  valid : source.Valid st'
  reads : ∀ p tuple, source.read st p = some tuple → source.read st' p = some tuple

namespace Keeps

theorem refl (hvalid : source.Valid st) : source.Keeps st st :=
  ⟨hvalid, fun _ _ hread => hread⟩

theorem trans {st₁ : source.State} (h : source.Keeps st st₁) (h' : source.Keeps st₁ st') :
    source.Keeps st st' :=
  ⟨h'.valid, fun p tuple hread => h'.reads p tuple (h.reads p tuple hread)⟩

theorem isSome (h : source.Keeps st st') {p : source.Pointer} (hp : (source.read st p).isSome) :
    (source.read st' p).isSome := by
  obtain ⟨tuple, hread⟩ := Option.isSome_iff_exists.mp hp
  rw [h.reads p tuple hread]
  rfl

theorem openOp (hvalid : source.Valid st) : source.Keeps st (source.openOp st).2 :=
  ⟨source.valid_open hvalid, fun _ _ => source.open_keeps hvalid⟩

theorem next (hvalid : source.Valid st) : source.Keeps st (source.next st).2 :=
  ⟨source.valid_next hvalid, fun _ _ => source.next_keeps hvalid⟩

theorem currentTuple (hvalid : source.Valid st) : source.Keeps st (source.currentTuple st).2 :=
  ⟨source.valid_currentTuple hvalid, fun _ _ => source.currentTuple_keeps⟩

end Keeps

theorem tuples_next_keeps (hvalid : source.Valid st) :
    source.Keeps st (source.tuples.next st).2 ∧
      ∀ tuple, (source.tuples.next st).1 = .ok tuple →
        source.current (source.tuples.next st).2 = some tuple := by
  have hkept := Keeps.next hvalid
  rcases next_cases hvalid with ⟨fault, st', hnext⟩ | ⟨st', tuple, hnext, htuple, -⟩
  · rw [tuples_next_error hnext]
    rw [hnext] at hkept
    exact ⟨hkept, nofun⟩
  · rw [tuples_next_ok hnext htuple]
    rw [hnext] at hkept
    refine ⟨hkept.trans (.currentTuple hkept.valid), ?_⟩
    rintro _ ⟨⟩
    exact (source.current_currentTuple st').trans htuple

/-- The pointers of a loop still read, after its end, as the tuples that they read as when they
were given, and so do all pointers from before. -/
theorem read_drain (hvalid : source.Valid st) :
    source.Keeps st (source.tuples.drain st).2 ∧
      ∃ ps, source.pointers.drain st =
          ((ps, (source.tuples.drain st).1.2), (source.tuples.drain st).2) ∧
        ps.map (source.read (source.tuples.drain st).2) =
          (source.tuples.drain st).1.1.map some := by
  induction st using Cursor.drain.induct source.tuples with
  | case1 st fault st₁ htuples =>
    obtain ⟨hkept, -⟩ := tuples_next_keeps hvalid
    rw [htuples] at hkept
    rw [Cursor.drain_of_error htuples]
    rcases next_cases hvalid with ⟨fault', st₁', hnext⟩ | ⟨st₁', tuple, hnext, htuple, -⟩
    · cases (tuples_next_error hnext).symm.trans htuples
      exact ⟨hkept, [], Cursor.drain_of_error (pointers_next_error hnext), rfl⟩
    · cases (tuples_next_ok hnext htuple).symm.trans htuples
  | case2 st tuple st₁ htuples ih =>
    obtain ⟨hkept, -⟩ := tuples_next_keeps hvalid
    rw [htuples] at hkept
    rw [Cursor.drain_of_ok htuples]
    rcases next_cases hvalid with ⟨fault', st₁', hnext⟩ | ⟨st₁', tuple', hnext, htuple, -⟩
    · cases (tuples_next_error hnext).symm.trans htuples
    · cases (tuples_next_ok hnext htuple).symm.trans htuples
      obtain ⟨hkept', ps, hdrain, hps⟩ := ih hkept.valid
      refine ⟨hkept.trans hkept', (source.currentTuple st₁').1 :: ps, ?_, ?_⟩
      · rw [Cursor.drain_of_ok (pointers_next_ok hnext), hdrain]
        rfl
      · have hread := (source.currentTuple_reads st₁').trans htuple
        rw [List.map_cons, List.map_cons, hps, hkept'.reads _ _ hread]

theorem find_keeps {step : Tuple F O → Except Fault (Option (Tuple F O))}
    (hvalid : source.Valid st) :
    source.Keeps st (source.tuples.find step st).2 ∧
      ∀ found, (source.tuples.find step st).1 = .ok found →
        ∃ tuple, source.current (source.tuples.find step st).2 = some tuple := by
  induction st using Cursor.find.induct source.tuples step with
  | case1 st fault st₁ hnext =>
    obtain ⟨hkept, -⟩ := tuples_next_keeps hvalid
    rw [hnext] at hkept
    rw [Cursor.find_of_error hnext]
    refine ⟨hkept, ?_⟩
    rintro _ ⟨⟩
  | case2 st tuple st₁ hnext fault hstep =>
    obtain ⟨hkept, -⟩ := tuples_next_keeps hvalid
    rw [hnext] at hkept
    rw [Cursor.find_of_ok hnext, hstep]
    refine ⟨hkept, ?_⟩
    rintro _ ⟨⟩
  | case3 st tuple st₁ hnext found hstep =>
    obtain ⟨hkept, hcurrent⟩ := tuples_next_keeps hvalid
    rw [hnext] at hkept hcurrent
    rw [Cursor.find_of_ok hnext, hstep]
    exact ⟨hkept, fun _ _ => ⟨tuple, hcurrent tuple rfl⟩⟩
  | case4 st tuple st₁ hnext hstep ih =>
    obtain ⟨hkept, -⟩ := tuples_next_keeps hvalid
    rw [hnext] at hkept
    rw [Cursor.find_of_ok hnext, hstep]
    obtain ⟨hkept', hcurrent⟩ := ih hkept.valid
    exact ⟨hkept.trans hkept', hcurrent⟩

end TupleSource

/-! ## Scans -/

/-- A scan with the tuples that it has copied.  The record that a failed call of `next` leaves is
not read. -/
structure ScanState (F O σ : Type) where
  scan : σ
  currentRecord : Option (Tuple F O)
  copiedTuples : List (Tuple F O)

/-- `TableScanPhysicalOperator` or `IndexScanPhysicalOperator`, whose `current_tuple` makes a copy of
the record and keeps it until `close`.  A pointer is the place of a copied tuple. -/
def copyingScan (op : PhysicalOperator F O) : TupleSource F O where
  State := ScanState F O op.State
  Pointer := Nat
  init := ⟨op.init, none, []⟩
  openOp st := ((op.openOp st.scan).1, { st with scan := (op.openOp st.scan).2 })
  next st :=
    match op.next st.scan with
    | (.ok tuple, state) => (.ok (), { st with scan := state, currentRecord := some tuple })
    | (.error fault, state) => (.error fault, { st with scan := state, currentRecord := none })
  currentTuple st :=
    (st.copiedTuples.length,
      match st.currentRecord with
      | some tuple => { st with copiedTuples := st.copiedTuples ++ [tuple] }
      | none => st)
  close st := ⟨op.close st.scan, none, []⟩
  read st p := st.copiedTuples[p]?
  current st := st.currentRecord
  remaining st := op.remaining st.scan
  Valid _ := True
  valid_init := trivial
  valid_open _ := trivial
  valid_next _ := trivial
  valid_currentTuple _ := trivial
  valid_close _ := trivial
  open_keeps _ h := h
  next_keeps _ h := by split <;> exact h
  currentTuple_keeps := by
    intro st p tuple h
    cases st.currentRecord with
    | none => exact h
    | some tuple' =>
      have hlt := (List.getElem?_eq_some_iff.mp h).1
      exact (List.getElem?_append_left hlt).trans h
  currentTuple_reads st := by
    cases hrecord : st.currentRecord with
    | none => exact List.getElem?_eq_none le_rfl
    | some tuple => exact List.getElem?_concat_length
  current_currentTuple := by
    rintro ⟨scan, record, copies⟩
    cases record with
    | none => rfl
    | some tuple => rfl
  current_next := by
    intro st st' _ h
    split at h
    · cases h
      exact ⟨_, rfl⟩
    · cases h
  remaining_lt := by
    intro st st' h
    split at h
    next tuple state hnext =>
      cases h
      exact op.remaining_lt hnext
    · cases h
  remaining_currentTuple st := by
    cases st.currentRecord <;> rfl

/-- The tuples are those of the operator. -/
theorem drain_copyingScan {op : PhysicalOperator F O} (st : ScanState F O op.State) :
    ∃ st', (copyingScan op).tuples.drain st = ((op.drain st.scan).1, st') := by
  obtain ⟨state, record, copies⟩ := st
  induction state using Cursor.drain.induct op generalizing record copies with
  | case1 state fault state₁ hnext =>
    have hscan : (copyingScan op).next ⟨state, record, copies⟩ =
        (.error fault, ⟨state₁, none, copies⟩) := by
      change (match op.next state with | (.ok _, _) => _ | (.error _, _) => _) = _
      rw [hnext]
      rfl
    rw [Cursor.drain_of_error hnext]
    exact ⟨_, Cursor.drain_of_error (TupleSource.tuples_next_error hscan)⟩
  | case2 state tuple state₁ hnext ih =>
    have hscan : (copyingScan op).next ⟨state, record, copies⟩ =
        (.ok (), ⟨state₁, some tuple, copies⟩) := by
      change (match op.next state with | (.ok _, _) => _ | (.error _, _) => _) = _
      rw [hnext]
      rfl
    obtain ⟨st', hdrain⟩ := ih (some tuple) (copies ++ [tuple])
    rw [Cursor.drain_of_ok hnext]
    exact ⟨st', (Cursor.drain_of_ok (TupleSource.tuples_next_ok hscan rfl)).trans
      (congrArg (fun rest => ((tuple :: rest.1.1, rest.1.2), rest.2)) hdrain)⟩

/-! ## Predicates -/

/-- `PredicatePhysicalOperator`, whose `next` reads a tuple of its child for each call that it makes
there, and whose `current_tuple` is the child's. -/
def predicateSource [Floats F] [StrLike F] [OtherExpr F O] (expr : Expression F O)
    (child : TupleSource F O) : TupleSource F O where
  State := child.State
  Pointer := child.Pointer
  init := child.init
  openOp := child.openOp
  next st :=
    let (found, st) := child.tuples.find (predicateStep expr) st
    (found.map fun _ => (), st)
  currentTuple := child.currentTuple
  close := child.close
  read := child.read
  current := child.current
  remaining := child.remaining
  Valid := child.Valid
  valid_init := child.valid_init
  valid_open := child.valid_open
  valid_next h := (TupleSource.find_keeps h).1.valid
  valid_currentTuple := child.valid_currentTuple
  valid_close := child.valid_close
  open_keeps := child.open_keeps
  next_keeps h hread := (TupleSource.find_keeps h).1.reads _ _ hread
  currentTuple_keeps := child.currentTuple_keeps
  currentTuple_reads := child.currentTuple_reads
  current_currentTuple := child.current_currentTuple
  current_next := by
    intro st st' hvalid h
    have hcurrent := (@TupleSource.find_keeps _ _ _ _ (predicateStep expr) hvalid).2
    cases hfind : child.tuples.find (predicateStep expr) st with
    | mk found st₁ =>
      rw [hfind] at h hcurrent
      cases found with
      | error fault => cases h
      | ok tuple =>
        cases h
        exact hcurrent tuple rfl
  remaining_lt := by
    intro st st' h
    cases hfind : child.tuples.find (predicateStep expr) st with
    | mk found st₁ =>
      rw [hfind] at h
      cases found with
      | error fault => cases h
      | ok tuple =>
        cases h
        exact child.tuples.remaining_lt_of_find hfind
  remaining_currentTuple := child.remaining_currentTuple

end Sql

end ObHtap
