import Mathlib.Data.List.Nodup
import ObHtap.Trx.MvccEffect

/-!
# Rollback as an undo

One transaction performs any steps on committed tables and is rolled back.  The other transactions
read what they have read before just when no UPDATE takes place and no record is deleted twice:
the operation of an UPDATE is that of an insertion, and its undo deletes the row.
-/

namespace ObHtap.Mvcc

/-- The data that a transaction with this id reads in a record. -/
def readRecord (trxId : Int) : Option Record → Option (List UInt8)
  | none => none
  | some record =>
    match visitRecord trxId .readOnly record with
    | .ok () => some record.data
    | .error _ => none

/-! ## Steps of a transaction -/

/-- `insert_record` at a free place, `delete_record`, and `update_record` of a record that the
scan below the UPDATE has just found. -/
inductive Step where
  | insertRecord (row : RowId) (data : List UInt8)
  | deleteRecord (row : RowId)
  | updateRecord (row : RowId) (data : List UInt8)

/-- The step is not an UPDATE of a visible record, nor the deletion of a record that the
transaction has deleted. -/
def Step.Mild (trxId : Int) (records : RowId → Option Record) : Step → Prop
  | .insertRecord _ _ => True
  | .deleteRecord row => ∀ record, records row = some record →
    visitRecord trxId .readWrite record = .ok () → record.endXid ≠ -trxId
  | .updateRecord row _ => ∀ record, records row = some record →
    visitRecord trxId .readWrite record ≠ .ok ()

namespace Db

/-- A whole step. -/
def performStep (i : Nat) (s : Db) : Step → Option Db
  | .insertRecord row data => (inserts i row data).foldlM call s
  | .deleteRecord row => (deletes i row).foldlM call s
  | .updateRecord row data =>
    match s.visit (s.trxes i).trxId .readWrite row with
    | .ok () => [(i, .scan row), (i, .updateRecord data), (i, .logOperation)].foldlM call s
    | .error _ => some s

/-- The transaction starts and performs the steps. -/
def performs (s : Db) (i : Nat) (steps : List Step) : Option Db :=
  (s.call (i, .startIfNeed)).bind fun s => steps.foldlM (performStep i) s

/-- The rollback behind the steps completes, and every other transaction reads in every row what
it has read before the start. -/
def Undoes (s : Db) (i : Nat) (steps : List Step) : Prop :=
  ∃ s₁ s₂, s.performs i steps = some s₁ ∧
    (rollbacks i (s₁.trxes i).operations.length).foldlM call s₁ = some s₂ ∧
    ∀ trxId, trxId ≠ (s₁.trxes i).trxId →
      ∀ row, readRecord trxId (s₂.records row) = readRecord trxId (s.records row)

/-- All records are committed, and the object is between two transactions. -/
structure CommittedState (s : Db) (i : Nat) : Prop where
  nonneg : 0 ≤ s.currentTrxId
  short : s.currentTrxId + 1 < maxTrxId
  phase : (s.trxes i).phase = .running
  started : (s.trxes i).started = false
  operations : (s.trxes i).operations = []
  committed : ∀ row record, s.records row = some record →
    0 < record.beginXid ∧ record.beginXid ≤ s.currentTrxId ∧
      (record.endXid = maxTrxId ∨ 0 < record.endXid ∧ record.endXid ≤ s.currentTrxId)

end Db

/-! ## The steps on records alone -/

/-- The operation that a step enters and the records behind it. -/
def Step.effect (trxId : Int) (records : RowId → Option Record) :
    Step → Option (Operation × (RowId → Option Record))
  | .insertRecord row data =>
    match records row with
    | none =>
      some (⟨.insert, row⟩, Function.update records row (some ⟨-trxId, maxTrxId, data⟩))
    | some _ => none
  | .deleteRecord row =>
    match records row with
    | none => none
    | some record =>
      match visitRecord trxId .readWrite record with
      | .ok () => some (⟨.delete, row⟩,
          Function.update records row (some { record with endXid := -trxId }))
      | .error _ => none
  | .updateRecord row data =>
    match records row with
    | none => none
    | some record =>
      match visitRecord trxId .readWrite record with
      | .ok () =>
        some (⟨.insert, row⟩, Function.update records row (some { record with data }))
      | .error _ => none

/-- The records and the operations of the transaction. -/
def Step.apply (trxId : Int) (p : (RowId → Option Record) × List Operation) (step : Step) :
    (RowId → Option Record) × List Operation :=
  match step.effect trxId p.1 with
  | none => p
  | some (operation, records) => (records, p.2 ++ [operation])

/-- The undo of an operation. -/
def undo (trxId : Int) (records : RowId → Option Record) (operation : Operation) :
    Option (RowId → Option Record) :=
  match records operation.row with
  | none => none
  | some record =>
    match operation.type with
    | .insert => some (Function.update records operation.row none)
    | .delete =>
      if record.endXid = -trxId then
        some (Function.update records operation.row (some { record with endXid := maxTrxId }))
      else none

namespace Db

variable {s s' : Db} {i : Nat}

/-- The object runs a transaction and is between two calls. -/
structure Between (s : Db) (i : Nat) : Prop where
  phase : (s.trxes i).phase = .running
  started : (s.trxes i).started = true
  pos : 0 < (s.trxes i).trxId

theorem call_logOperation {entry : MvccTrxLogOperation} {operation : Operation}
    (hphase : (s.trxes i).phase = .logging entry operation) (hpos : 0 < (s.trxes i).trxId) :
    s.call (i, .logOperation) = some ((s.append (.trx (s.trxes i).trxId entry)).setTrx i
      { s.trxes i with
        operations := (s.trxes i).operations ++ [operation]
        phase := .running }) := by
  simp [call, Ready, perform, logOperation, hphase, Int.not_le.mpr hpos]

theorem call_logOperation_running (hphase : (s.trxes i).phase = .running) :
    s.call (i, .logOperation) = some s := by
  simp [call, Ready, perform, logOperation, hphase]

/-- A change of a record and its log entry make up a step. -/
theorem change_logged (h : s.Between i) (trx : MvccTrx) (ch : RecordChange)
    {entry : MvccTrxLogOperation} {operation : Operation}
    (hphase : trx.phase = .logging entry operation) (hstarted : trx.started = true)
    (hid : trx.trxId = (s.trxes i).trxId) (hoperations : trx.operations = (s.trxes i).operations) :
    ∃ s', ((s.change ch).setTrx i trx).call (i, .logOperation) = some s' ∧ s'.Between i ∧
      (s'.trxes i).trxId = (s.trxes i).trxId ∧
      (s'.records, (s'.trxes i).operations) =
        (Function.update s.records ch.row ch.image, (s.trxes i).operations ++ [operation]) := by
  have hself : ((s.change ch).setTrx i trx).trxes i = trx := setTrx_trxes_self trx
  have hpos : 0 < trx.trxId := hid ▸ h.pos
  refine ⟨_, call_logOperation (hself.symm ▸ hphase) (hself.symm ▸ hpos), ?_, ?_, ?_⟩
  · refine ⟨?_, ?_, ?_⟩
    · rw [setTrx_trxes_self]
    · rw [setTrx_trxes_self, hself]
      exact hstarted
    · rw [setTrx_trxes_self, hself]
      exact hpos
  · rw [setTrx_trxes_self, hself]
    exact hid
  · rw [hself, setTrx_trxes_self, hoperations]
    rfl

theorem visit_of_some {trxId : Int} {mode : ReadWriteMode} {row : RowId} {record : Record}
    (h : s.records row = some record) : s.visit trxId mode row = visitRecord trxId mode record := by
  rw [visit, h]

/-- A whole step does to the records and the operations what it does to them alone. -/
theorem performStep_spec (h : s.Between i) (step : Step) :
    ∃ s', performStep i s step = some s' ∧ s'.Between i ∧
      (s'.trxes i).trxId = (s.trxes i).trxId ∧
      (s'.records, (s'.trxes i).operations) =
        step.apply (s.trxes i).trxId (s.records, (s.trxes i).operations) := by
  have hidle : ∀ {c : Call}, s.call (i, c) = some s →
      [(i, c), (i, .logOperation)].foldlM call s = some s := by
    intro c hcall
    simp [hcall, call_logOperation_running h.phase]
  have htwo : ∀ {c : Call} {s₁ s' : Db}, s.call (i, c) = some s₁ →
      s₁.call (i, .logOperation) = some s' →
      [(i, c), (i, .logOperation)].foldlM call s = some s' := by
    intro c s₁ s' hcall hlog
    simp [hcall, hlog]
  cases step with
  | insertRecord row data =>
    simp only [performStep, inserts, Step.apply, Step.effect]
    cases hrow : s.records row with
    | some record =>
      exact ⟨s, hidle (by simp [call, Ready, hrow]), h, rfl, rfl⟩
    | none =>
      obtain ⟨s', hlog, hs'⟩ := change_logged h
        { s.trxes i with phase := .logging (.insertRecord row) ⟨.insert, row⟩ }
        (.insert row ⟨-(s.trxes i).trxId, maxTrxId, data⟩) rfl h.started rfl rfl
      refine ⟨s', htwo ?_ hlog, hs'⟩
      simp [call, Ready, h.phase, h.started, hrow, perform, insertRecord]
  | deleteRecord row =>
    simp only [performStep, deletes, Step.apply, Step.effect]
    cases hrow : s.records row with
    | none =>
      refine ⟨s, hidle ?_, h, rfl, rfl⟩
      simp [call, Ready, h.phase, h.started, hrow, perform, deleteRecord]
    | some record =>
      simp only
      cases hvisit : visitRecord (s.trxes i).trxId .readWrite record with
      | error rc =>
        refine ⟨s, hidle ?_, h, rfl, rfl⟩
        simp [call, Ready, h.phase, h.started, hrow, hvisit, perform, deleteRecord]
      | ok =>
        obtain ⟨s', hlog, hs'⟩ := change_logged h
          { s.trxes i with phase := .logging (.deleteRecord row) ⟨.delete, row⟩ }
          (.update row { record with endXid := -(s.trxes i).trxId }) rfl h.started rfl rfl
        refine ⟨s', htwo ?_ hlog, hs'⟩
        simp [call, Ready, h.phase, h.started, hrow, hvisit, perform, deleteRecord]
  | updateRecord row data =>
    simp only [performStep, Step.apply, Step.effect]
    cases hrow : s.records row with
    | none =>
      refine ⟨s, ?_, h, rfl, rfl⟩
      rw [visit, hrow]
    | some record =>
      rw [visit_of_some hrow]
      simp only
      cases hvisit : visitRecord (s.trxes i).trxId .readWrite record with
      | error rc => exact ⟨s, rfl, h, rfl, rfl⟩
      | ok =>
        have hscan : s.call (i, .scan row) =
            some (s.setTrx i { s.trxes i with scanned := some (row, record) }) := by
          simp [call, Ready, h.phase, h.started, hrow, hvisit, perform, scan]
        obtain ⟨s', hlog, hs'⟩ := change_logged h
          { s.trxes i with
            scanned := some (row, record)
            phase := .logging (.updateRecord row) ⟨.insert, row⟩ }
          (.update row { record with data }) rfl h.started rfl rfl
        refine ⟨s', ?_, hs'⟩
        have hupdate : (s.setTrx i { s.trxes i with scanned := some (row, record) }).call
            (i, .updateRecord data) =
              some ((s.change (.update row { record with data })).setTrx i
                { s.trxes i with
                  scanned := some (row, record)
                  phase := .logging (.updateRecord row) ⟨.insert, row⟩ }) := by
          simp only [call, Ready, setTrx_trxes_self, h.phase, h.started, and_self, if_true,
            perform, updateRecord, setTrx_records, hrow]
          congr 1
          simp [setTrx, change]
        simp [hscan, hupdate, hlog]

theorem performSteps_spec (h : s.Between i) (steps : List Step) :
    ∃ s', steps.foldlM (performStep i) s = some s' ∧ s'.Between i ∧
      (s'.trxes i).trxId = (s.trxes i).trxId ∧
      (s'.records, (s'.trxes i).operations) =
        steps.foldl (Step.apply (s.trxes i).trxId) (s.records, (s.trxes i).operations) := by
  induction steps generalizing s with
  | nil => exact ⟨s, rfl, h, rfl, rfl⟩
  | cons step steps ih =>
    obtain ⟨s₁, hstep, h₁, hid₁, heq₁⟩ := performStep_spec h step
    obtain ⟨s', hsteps, h', hid', heq'⟩ := ih h₁
    refine ⟨s', ?_, h', hid'.trans hid₁, ?_⟩
    · rw [List.foldlM_cons, hstep]
      exact hsteps
    · rw [List.foldl_cons, ← heq₁, heq', hid₁]

/-- The transaction has the next id, and its steps can be followed on the records. -/
theorem performs_spec (h : s.CommittedState i) (steps : List Step) :
    ∃ s', s.performs i steps = some s' ∧ s'.Between i ∧
      (s'.trxes i).trxId = s.currentTrxId + 1 ∧
      (s'.records, (s'.trxes i).operations) =
        steps.foldl (Step.apply (s.currentTrxId + 1)) (s.records, []) := by
  have hshort := h.short
  have hnonneg := h.nonneg
  have hnext : nextTrxId s.currentTrxId = s.currentTrxId + 1 := nextTrxId_of_lt (by omega)
  have hstart : s.call (i, .startIfNeed) = some (s.draw.setTrx i
      { s.trxes i with trxId := s.currentTrxId + 1, started := true }) := by
    simp [call, Ready, h.phase, h.started, h.operations, perform, startIfNeed, hnext]
  have hself : (s.draw.setTrx i { s.trxes i with
      trxId := s.currentTrxId + 1, started := true }).trxes i =
      { s.trxes i with trxId := s.currentTrxId + 1, started := true } := setTrx_trxes_self _
  have hbetween : (s.draw.setTrx i { s.trxes i with
      trxId := s.currentTrxId + 1, started := true }).Between i := by
    refine ⟨?_, ?_, ?_⟩
    · rw [hself]
      exact h.phase
    · rw [hself]
    · rw [hself]
      exact (by omega : 0 < s.currentTrxId + 1)
  obtain ⟨s', hsteps, h', hid, heq⟩ := performSteps_spec hbetween steps
  rw [hself] at hid heq
  refine ⟨s', ?_, h', hid, ?_⟩
  · rw [performs, hstart]
    exact hsteps
  · rw [heq, h.operations]
    rfl

theorem rollbackOperations_records {rest : List Operation}
    (hphase : (s.trxes i).phase = .rollingBack rest) (hpos : 0 < (s.trxes i).trxId) :
    ((List.replicate rest.length (i, Call.rollbackOperation) ++
        [(i, Call.finishRollback)]).foldlM call s).map Db.records =
      rest.foldlM (undo (s.trxes i).trxId) s.records := by
  induction rest generalizing s with
  | nil => simp [call, Ready, perform, finishRollback, hphase, hpos]
  | cons operation rest ih =>
    rw [List.length_cons, List.replicate_succ, List.cons_append, List.foldlM_cons,
      List.foldlM_cons]
    -- the loop goes on with the records behind the first undo
    have hnext : ∀ ch : RecordChange,
        (((s.change ch).setTrx i { s.trxes i with phase := .rollingBack rest }).trxes i).phase =
          .rollingBack rest ∧
        (((s.change ch).setTrx i { s.trxes i with phase := .rollingBack rest }).trxes i).trxId =
          (s.trxes i).trxId := by
      intro ch
      rw [setTrx_trxes_self]
      exact ⟨rfl, rfl⟩
    have hgo : ∀ ch : RecordChange,
        (((List.replicate rest.length (i, Call.rollbackOperation) ++
            [(i, Call.finishRollback)]).foldlM call ((s.change ch).setTrx i
              { s.trxes i with phase := .rollingBack rest })).map Db.records) =
          rest.foldlM (undo (s.trxes i).trxId)
            (Function.update s.records ch.row ch.image) := by
      intro ch
      rw [ih (hnext ch).1 ((hnext ch).2.symm ▸ hpos), (hnext ch).2]
      rfl
    obtain ⟨type, row⟩ := operation
    simp only [call, Ready, if_true, perform, rollbackOperation, hphase, undo]
    cases hrow : s.records row with
    | none => rfl
    | some record =>
      cases type with
      | insert => exact hgo (.delete row)
      | delete =>
        simp only
        split_ifs
        · exact hgo (.update row { record with endXid := maxTrxId })
        · rfl

theorem rollbacks_records (h : s.Between i) :
    ((rollbacks i (s.trxes i).operations.length).foldlM call s).map Db.records =
      (s.trxes i).operations.reverse.foldlM (undo (s.trxes i).trxId) s.records := by
  have hcall : s.call (i, .rollback) = some (s.setTrx i
      { s.trxes i with
        started := false
        phase := .rollingBack (s.trxes i).operations.reverse }) := by
    simp [call, Ready, h.phase, perform, rollback]
  have hself := @setTrx_trxes_self s i
    { s.trxes i with
      started := false
      phase := .rollingBack (s.trxes i).operations.reverse }
  rw [rollbacks, List.foldlM_cons, hcall, ← List.length_reverse]
  refine (rollbackOperations_records ?_ ?_).trans ?_
  · rw [hself]
  · rw [hself]
    exact h.pos
  · rw [hself, setTrx_records]

end Db

/-! ## Undoing operations -/

section Undo

variable {trxId : Int} {records records' : RowId → Option Record} {operation : Operation}
  {operations : List Operation} {row : RowId}

theorem undo_of_ne (h : undo trxId records operation = some records') (hne : row ≠ operation.row) :
    records' row = records row := by
  unfold undo at h
  split at h
  · cases h
  split at h
  · cases h
    exact Function.update_of_ne hne _ _
  · split_ifs at h
    cases h
    exact Function.update_of_ne hne _ _

theorem undo_self (h : undo trxId records operation = some records') :
    ∃ record, records operation.row = some record ∧
      (operation.type = .insert → records' operation.row = none) ∧
      (operation.type = .delete → record.endXid = -trxId ∧
        records' operation.row = some { record with endXid := maxTrxId }) := by
  obtain ⟨type, row⟩ := operation
  unfold undo at h
  split at h
  · cases h
  rename_i record hrecord
  refine ⟨record, hrecord, ?_⟩
  cases type with
  | insert =>
    cases h
    exact ⟨fun _ => Function.update_self _ _ _, fun hd => nomatch hd⟩
  | delete =>
    simp only at h
    split_ifs at h with howner
    cases h
    exact ⟨fun hi => (nomatch hi), fun _ => ⟨howner, Function.update_self _ _ _⟩⟩

theorem undo_gone (hfree : records row = none)
    (h : operations.foldlM (undo trxId) records = some records') :
    records' row = none ∧ ∀ operation ∈ operations, operation.row ≠ row := by
  induction operations generalizing records with
  | nil =>
    cases h
    exact ⟨hfree, fun _ hmem => nomatch hmem⟩
  | cons operation operations ih =>
    rw [List.foldlM_cons] at h
    obtain ⟨records₁, hundo, hrest⟩ := Option.bind_eq_some_iff.mp h
    have hne : operation.row ≠ row := by
      rintro rfl
      obtain ⟨record, hrecord, _⟩ := undo_self hundo
      rw [hfree] at hrecord
      cases hrecord
    obtain ⟨hgone, hall⟩ := ih ((undo_of_ne hundo hne.symm).trans hfree) hrest
    refine ⟨hgone, ?_⟩
    intro op hmem
    rcases List.mem_cons.mp hmem with rfl | hmem
    · exact hne
    · exact hall op hmem

theorem undo_insert (h : operations.foldlM (undo trxId) records = some records')
    (hmem : ⟨.insert, row⟩ ∈ operations) : records' row = none := by
  induction operations generalizing records with
  | nil => cases hmem
  | cons operation operations ih =>
    rw [List.foldlM_cons] at h
    obtain ⟨records₁, hundo, hrest⟩ := Option.bind_eq_some_iff.mp h
    rcases List.mem_cons.mp hmem with rfl | hmem
    · obtain ⟨_, _, hnone, _⟩ := undo_self hundo
      exact (undo_gone (hnone rfl) hrest).1
    · exact ih hrest hmem

/-- No deletion is undone in a record that is not deleted by the transaction. -/
theorem undo_clean (hclean : ∀ record, records row = some record → record.endXid ≠ -trxId)
    (h : operations.foldlM (undo trxId) records = some records') :
    ⟨.delete, row⟩ ∉ operations := by
  induction operations generalizing records with
  | nil => exact List.not_mem_nil
  | cons operation operations ih =>
    rw [List.foldlM_cons] at h
    obtain ⟨records₁, hundo, hrest⟩ := Option.bind_eq_some_iff.mp h
    obtain ⟨record, hrecord, hinsert, hdelete⟩ := undo_self hundo
    rw [List.mem_cons, not_or]
    constructor
    · rintro rfl
      exact hclean record hrecord (hdelete rfl).1
    · by_cases hrow : row = operation.row
      swap
      · exact ih (fun record hr => hclean record (undo_of_ne hundo hrow ▸ hr)) hrest
      subst hrow
      intro hmem
      obtain ⟨type, row⟩ := operation
      cases type with
      | insert => exact (undo_gone (hinsert rfl) hrest).2 _ hmem rfl
      | delete => exact hclean record hrecord (hdelete rfl).1

/-- Operations that can be undone are different. -/
theorem undo_nodup (hpos : 0 < trxId)
    (h : operations.foldlM (undo trxId) records = some records') : operations.Nodup := by
  induction operations generalizing records with
  | nil => exact List.nodup_nil
  | cons operation operations ih =>
    rw [List.foldlM_cons] at h
    obtain ⟨records₁, hundo, hrest⟩ := Option.bind_eq_some_iff.mp h
    obtain ⟨record, hrecord, hinsert, hdelete⟩ := undo_self hundo
    refine List.nodup_cons.mpr ⟨?_, ih hrest⟩
    intro hmem
    obtain ⟨type, row⟩ := operation
    cases type with
    | insert => exact (undo_gone (hinsert rfl) hrest).2 _ hmem rfl
    | delete =>
      refine undo_clean ?_ hrest hmem
      intro record' hrecord'
      rw [(hdelete rfl).2] at hrecord'
      cases hrecord'
      have : 0 < maxTrxId := by decide
      simp only
      omega

end Undo

/-! ## Steps that can be undone -/

/-- The operations lead back to the records at the start, and every record is one that the
transaction has inserted or one from the start. -/
structure Followed (trxId : Int) (start records : RowId → Option Record)
    (operations : List Operation) : Prop where
  undone : operations.reverse.foldlM (undo trxId) records = some start
  own : ∀ row record, records row = some record →
    (record.beginXid = -trxId ∧ ⟨.insert, row⟩ ∈ operations ∧
      (record.endXid = maxTrxId ∨ record.endXid = -trxId ∧ ⟨.delete, row⟩ ∈ operations)) ∨
    ∃ old, start row = some old ∧ record.beginXid = old.beginXid ∧
      (record = old ∨ record.endXid = -trxId)

/-- The records at the start are committed before the transaction. -/
def Before (trxId : Int) (start : RowId → Option Record) : Prop :=
  ∀ row record, start row = some record → 0 < record.beginXid ∧ record.beginXid < trxId ∧
    (record.endXid = maxTrxId ∨ 0 < record.endXid ∧ record.endXid < trxId)

namespace Followed

variable {trxId : Int} {start records : RowId → Option Record} {operations : List Operation}
  {row : RowId} {record : Record}

/-- A visible record is an inserted one or one from the start that is not deleted. -/
theorem visible (h : Followed trxId start records operations) (hstart : Before trxId start)
    (hpos : 0 < trxId) (hrecord : records row = some record)
    (hvisit : visitRecord trxId .readWrite record = .ok ()) :
    (record.beginXid = -trxId ∧ ⟨.insert, row⟩ ∈ operations ∧
      (record.endXid = maxTrxId ∨ record.endXid = -trxId ∧ ⟨.delete, row⟩ ∈ operations)) ∨
    start row = some record ∧ record.endXid = maxTrxId := by
  refine (h.own row record hrecord).imp_right ?_
  rintro ⟨old, hold, hbegin, hend⟩
  obtain ⟨holdpos, hlt, holdend⟩ := hstart row old hold
  have hmax : 0 < maxTrxId := by decide
  have hne : record.endXid ≠ 0 := by
    rcases hend with rfl | hend
    · omega
    · omega
  rcases visitRecord_readWrite (by omega) hne hvisit with ⟨hneg, _⟩ | ⟨_, _, hle⟩
  · omega
  · rcases hend with rfl | hend
    · exact ⟨hold, by omega⟩
    · omega

/-- A changed record whose change can be undone. -/
theorem change (h : Followed trxId start records operations) {type : OperationType}
    {new : Record}
    (hundo : undo trxId (Function.update records row (some new)) ⟨type, row⟩ = some records)
    (hnew : (new.beginXid = -trxId ∧ ⟨.insert, row⟩ ∈ operations ++ [⟨type, row⟩] ∧
        (new.endXid = maxTrxId ∨
          new.endXid = -trxId ∧ ⟨.delete, row⟩ ∈ operations ++ [⟨type, row⟩])) ∨
      ∃ old, start row = some old ∧ new.beginXid = old.beginXid ∧
        (new = old ∨ new.endXid = -trxId)) :
    Followed trxId start (Function.update records row (some new))
      (operations ++ [⟨type, row⟩]) where
  undone := by
    rw [List.reverse_append, List.reverse_singleton, List.singleton_append, List.foldlM_cons,
      hundo]
    exact h.undone
  own := by
    intro row' record hrecord
    by_cases hrow : row' = row
    · subst hrow
      rw [Function.update_self] at hrecord
      cases hrecord
      exact hnew
    · rw [Function.update_of_ne hrow] at hrecord
      apply (h.own row' record hrecord).imp_left
      rintro ⟨hbegin, hmem, hend⟩
      exact ⟨hbegin, List.mem_append_left _ hmem,
        hend.imp_right fun ⟨hdeleted, hmem⟩ => ⟨hdeleted, List.mem_append_left _ hmem⟩⟩

theorem step (h : Followed trxId start records operations) (hstart : Before trxId start)
    (hpos : 0 < trxId) {step : Step} (hmild : step.Mild trxId records)
    {records' : RowId → Option Record} {operation : Operation}
    (heffect : step.effect trxId records = some (operation, records')) :
    Followed trxId start records' (operations ++ [operation]) := by
  cases step with
  | insertRecord row data =>
    simp only [Step.effect] at heffect
    split at heffect
    swap
    · cases heffect
    rename_i hfree
    cases heffect
    apply h.change
    · simp [undo, Function.update_eq_self_iff, hfree]
    · exact Or.inl ⟨rfl, by simp, Or.inl rfl⟩
  | deleteRecord row =>
    simp only [Step.effect] at heffect
    split at heffect
    · cases heffect
    rename_i record hrecord
    split at heffect
    swap
    · cases heffect
    rename_i hvisit
    cases heffect
    have hnot := hmild record hrecord hvisit
    have hvisible := h.visible hstart hpos hrecord hvisit
    have hmax : record.endXid = maxTrxId := by
      rcases hvisible with ⟨_, _, hend | ⟨hend, _⟩⟩ | ⟨_, hend⟩
      · exact hend
      · exact absurd hend hnot
      · exact hend
    apply h.change
    · have hback : ({ record with endXid := maxTrxId } : Record) = record := by
        rw [← hmax]
      simp [undo, Function.update_eq_self_iff, hrecord, hback]
    · rcases hvisible with ⟨hbegin, hmem, _⟩ | ⟨hold, _⟩
      · exact Or.inl ⟨hbegin, List.mem_append_left _ hmem, Or.inr ⟨rfl, by simp⟩⟩
      · exact Or.inr ⟨record, hold, rfl, Or.inr rfl⟩
  | updateRecord row data =>
    simp only [Step.effect] at heffect
    split at heffect
    · cases heffect
    rename_i record hrecord
    split at heffect
    · rename_i hvisit
      exact absurd hvisit (hmild record hrecord)
    · cases heffect

theorem apply (h : Followed trxId start records operations) (hstart : Before trxId start)
    (hpos : 0 < trxId) {step : Step} (hmild : step.Mild trxId records) :
    Followed trxId start (step.apply trxId (records, operations)).1
      (step.apply trxId (records, operations)).2 := by
  unfold Step.apply
  split
  · exact h
  · rename_i operation records' heffect
    exact h.step hstart hpos hmild heffect

end Followed

/-! ## Steps that cannot be undone -/

/-- The operations cannot lead back: two of them are equal, or one has the undo of an insertion
for a record that the start has and other transactions see. -/
def Doomed (start : RowId → Option Record) (operations : List Operation) : Prop :=
  ¬operations.Nodup ∨ ∃ row record, start row = some record ∧ record.endXid = maxTrxId ∧
    ⟨.insert, row⟩ ∈ operations

section Doomed

variable {trxId : Int} {start records : RowId → Option Record} {operations : List Operation}

theorem Doomed.append (h : Doomed start operations) (more : List Operation) :
    Doomed start (operations ++ more) := by
  rcases h with hdup | ⟨row, record, hrecord, hend, hmem⟩
  · exact Or.inl fun hnodup => hdup hnodup.of_append_left
  · exact Or.inr ⟨row, record, hrecord, hend, List.mem_append_left _ hmem⟩

theorem Doomed.steps (steps : List Step) (h : Doomed start operations) :
    Doomed start (steps.foldl (Step.apply trxId) (records, operations)).2 := by
  induction steps generalizing records operations with
  | nil => exact h
  | cons step steps ih =>
    rw [List.foldl_cons]
    unfold Step.apply
    split
    · exact ih h
    · exact ih (h.append _)

/-- A step that is not mild enters an operation that cannot be undone. -/
theorem Followed.doomed (h : Followed trxId start records operations)
    (hstart : Before trxId start) (hpos : 0 < trxId) {step : Step}
    (hmild : ¬step.Mild trxId records) :
    Doomed start (step.apply trxId (records, operations)).2 := by
  have hdup : ∀ {operation : Operation}, operation ∈ operations →
      ¬(operations ++ [operation]).Nodup := by
    intro operation hmem hnodup
    exact (List.nodup_append.mp hnodup).2.2 _ hmem _ (List.mem_singleton_self _) rfl
  cases step with
  | insertRecord row data => exact absurd trivial hmild
  | deleteRecord row =>
    simp only [Step.Mild, not_forall, not_not] at hmild
    obtain ⟨record, hrecord, hvisit, hend⟩ := hmild
    simp only [Step.apply, Step.effect, hrecord, hvisit]
    left
    rcases h.visible hstart hpos hrecord hvisit with ⟨_, _, hmax | ⟨_, hmem⟩⟩ | ⟨_, hmax⟩
    · have : 0 < maxTrxId := by decide
      omega
    · exact hdup hmem
    · have : 0 < maxTrxId := by decide
      omega
  | updateRecord row data =>
    simp only [Step.Mild, not_forall, not_not] at hmild
    obtain ⟨record, hrecord, hvisit⟩ := hmild
    simp only [Step.apply, Step.effect, hrecord, hvisit]
    rcases h.visible hstart hpos hrecord hvisit with ⟨_, hmem, _⟩ | ⟨hold, hmax⟩
    · exact Or.inl (hdup hmem)
    · exact Or.inr ⟨row, record, hold, hmax, by simp⟩

/-- All steps are mild and keep to the start, or one is not and the operations are doomed. -/
theorem Followed.mild_or_doomed (h : Followed trxId start records operations)
    (hstart : Before trxId start) (hpos : 0 < trxId) (steps : List Step) :
    (Followed trxId start (steps.foldl (Step.apply trxId) (records, operations)).1
        (steps.foldl (Step.apply trxId) (records, operations)).2 ∧
      ∀ before step after, steps = before ++ step :: after →
        step.Mild trxId (before.foldl (Step.apply trxId) (records, operations)).1) ∨
    (Doomed start (steps.foldl (Step.apply trxId) (records, operations)).2 ∧
      ∃ before step after, steps = before ++ step :: after ∧
        ¬step.Mild trxId (before.foldl (Step.apply trxId) (records, operations)).1) := by
  induction steps generalizing records operations with
  | nil =>
    left
    refine ⟨h, ?_⟩
    intro before step after heq
    simp at heq
  | cons step steps ih =>
    by_cases hmild : step.Mild trxId records
    · rcases ih (h.apply hstart hpos hmild) with ⟨hfollowed, hall⟩ | ⟨hdoomed, before, step', after,
        rfl, hnot⟩
      · left
        refine ⟨hfollowed, ?_⟩
        intro before step' after heq
        cases before with
        | nil =>
          obtain ⟨rfl, _⟩ := List.cons.inj heq
          exact hmild
        | cons first before =>
          obtain ⟨hfirst, hrest⟩ := List.cons.inj heq
          rw [← hfirst]
          exact hall before step' after hrest
      · exact Or.inr ⟨hdoomed, step :: before, step', after, rfl, hnot⟩
    · exact Or.inr ⟨(h.doomed hstart hpos hmild).steps steps, [], step, steps, rfl, hmild⟩

end Doomed

namespace Db

variable {s : Db} {i : Nat}

theorem CommittedState.before (h : s.CommittedState i) :
    Before (s.currentTrxId + 1) s.records := by
  intro row record hrecord
  obtain ⟨hpos, hle, hend⟩ := h.committed row record hrecord
  refine ⟨hpos, by omega, hend.imp_right ?_⟩
  rintro ⟨hpos, hle⟩
  exact ⟨hpos, by omega⟩

theorem readRecord_of_max {trxId : Int} {record : Record} (hpos : 0 < record.beginXid)
    (hle : record.beginXid ≤ trxId) (hend : record.endXid = maxTrxId) (hmax : trxId ≤ maxTrxId) :
    readRecord trxId (some record) = some record.data := by
  have hmaxpos : 0 < maxTrxId := by decide
  have hvisit : visitRecord trxId .readOnly record = .ok () := by
    unfold visitRecord
    rw [if_pos ⟨hpos, by omega⟩, if_pos ⟨hle, by omega⟩]
  simp only [readRecord, hvisit]

/-- A rollback is an exact undo just when none of the steps updates a record or deletes one that
the transaction has deleted already. -/
theorem undoes_iff (s : Db) (i : Nat) (steps : List Step) (h : s.CommittedState i) :
    s.Undoes i steps ↔ ∀ before step after s₁, steps = before ++ step :: after →
      s.performs i before = some s₁ → step.Mild (s₁.trxes i).trxId s₁.records := by
  have hpos : 0 < s.currentTrxId + 1 := by
    have := h.nonneg
    omega
  have hstart : Followed (s.currentTrxId + 1) s.records s.records [] :=
    ⟨rfl, fun row record hrecord => Or.inr ⟨record, hrecord, rfl, Or.inl rfl⟩⟩
  obtain ⟨s₁, hs₁, hbetween, hid, heq⟩ := performs_spec h steps
  obtain ⟨hrecords, hoperations⟩ := Prod.mk.inj heq
  have hrolled := rollbacks_records hbetween
  rw [hid] at hrolled
  -- the steps before one of them, on the records alone
  have hbehind : ∀ {before : List Step} {s₂ : Db}, s.performs i before = some s₂ →
      (s₂.trxes i).trxId = s.currentTrxId + 1 ∧
        s₂.records = (before.foldl (Step.apply (s.currentTrxId + 1)) (s.records, [])).1 := by
    intro before s₂ hs₂
    obtain ⟨s₃, hs₃, _, hid₃, heq₃⟩ := performs_spec h before
    obtain rfl := Option.some.inj (hs₂.symm.trans hs₃)
    exact ⟨hid₃, (Prod.mk.inj heq₃).1⟩
  constructor
  · rintro ⟨s₁', s₂, hs₁', hs₂, hread⟩ before step after s₃ hsteps hs₃
    obtain rfl := Option.some.inj (hs₁'.symm.trans hs₁)
    obtain ⟨hid₃, hrecords₃⟩ := hbehind hs₃
    rw [hid₃, hrecords₃]
    rcases hstart.mild_or_doomed h.before hpos steps with ⟨_, hall⟩ | ⟨hdoomed, _⟩
    · exact hall before step after hsteps
    exfalso
    rw [hs₂, Option.map_some] at hrolled
    rw [← hoperations] at hdoomed
    rcases hdoomed with hdup | ⟨row, record, hrecord, hend, hmem⟩
    · exact hdup (List.nodup_reverse.mp (undo_nodup hpos hrolled.symm))
    · have hgone := undo_insert hrolled.symm (List.mem_reverse.mpr hmem)
      have hthen := hread (s.currentTrxId + 2) (by omega) row
      obtain ⟨hbegin, hle, _⟩ := h.committed row record hrecord
      have hshort := h.short
      rw [hgone, hrecord, readRecord_of_max hbegin (by omega) hend (by omega)] at hthen
      cases hthen
  · intro hmild
    rcases hstart.mild_or_doomed h.before hpos steps with ⟨hfollowed, _⟩ | ⟨_, before, step, after,
      hsteps, hnot⟩
    · rw [← hrecords, ← hoperations] at hfollowed
      rw [hfollowed.undone] at hrolled
      obtain ⟨s₂, hs₂, hback⟩ := Option.map_eq_some_iff.mp hrolled
      refine ⟨s₁, s₂, hs₁, hs₂, ?_⟩
      intro trxId _ row
      rw [hback]
    · exfalso
      obtain ⟨s₃, hs₃, _⟩ := performs_spec h before
      obtain ⟨hid₃, hrecords₃⟩ := hbehind hs₃
      have hthen := hmild before step after s₃ hsteps hs₃
      rw [hid₃, hrecords₃] at hthen
      exact hnot hthen

/-- A state with one committed row. -/
def oneRow : Db where
  currentTrxId := 2
  trxes _ := ⟨-1, false, [], none, .running⟩
  records row := if row = ⟨1, ⟨1, 0⟩⟩ then some ⟨2, maxTrxId, [7]⟩ else none
  log := []

theorem committedState_oneRow : oneRow.CommittedState 0 where
  nonneg := by decide
  short := by decide
  phase := rfl
  started := rfl
  operations := rfl
  committed := by
    intro row record hrecord
    simp only [oneRow] at hrecord ⊢
    split_ifs at hrecord
    cases hrecord
    decide

/-- A row is inserted, and the committed one is deleted. -/
theorem undoes_iff_two : oneRow.Undoes 0
    [.insertRecord ⟨1, ⟨1, 1⟩⟩ [8], .deleteRecord ⟨1, ⟨1, 0⟩⟩] := by
  refine (undoes_iff oneRow 0 _ committedState_oneRow).mpr ?_
  intro before step after s₁ hsteps hs₁
  match before with
  | [] =>
    obtain ⟨rfl, _⟩ := List.cons.inj hsteps
    trivial
  | [first] =>
    obtain ⟨hfirst, hsteps⟩ := List.cons.inj hsteps
    obtain ⟨rfl, _⟩ := List.cons.inj hsteps
    subst hfirst
    have heval : (oneRow.performs 0 [.insertRecord ⟨1, ⟨1, 1⟩⟩ [8]]).map
        (fun s => (s.records ⟨1, ⟨1, 0⟩⟩, (s.trxes 0).trxId)) =
        some (some ⟨2, maxTrxId, [7]⟩, 3) := by decide
    rw [hs₁] at heval
    obtain ⟨hrecord, hid⟩ := Prod.mk.inj (Option.some.inj heval)
    intro record hrecord' _
    rw [hrecord] at hrecord'
    cases hrecord'
    rw [hid]
    decide
  | _ :: _ :: before =>
    have hlength := congrArg List.length hsteps
    simp at hlength

/-- The rollback of an UPDATE deletes the row. -/
theorem updated_not_undoes : ∃ (s : Db) (i : Nat) (steps : List Step), s.CommittedState i ∧
    ¬s.Undoes i steps := by
  refine ⟨oneRow, 0, [.updateRecord ⟨1, ⟨1, 0⟩⟩ [8]], committedState_oneRow, ?_⟩
  rintro ⟨s₁, s₂, hs₁, hs₂, hread⟩
  have heval : ((oneRow.performs 0 [.updateRecord ⟨1, ⟨1, 0⟩⟩ [8]]).bind fun s₁ =>
      ((rollbacks 0 (s₁.trxes 0).operations.length).foldlM call s₁).map fun s₂ =>
        (s₂.records ⟨1, ⟨1, 0⟩⟩, (s₁.trxes 0).trxId)) = some (none, 3) := by decide
  rw [hs₁, Option.bind_some, hs₂] at heval
  obtain ⟨hgone, hid⟩ := Prod.mk.inj (Option.some.inj heval)
  have hthen := hread 4 (by rw [hid]; decide) ⟨1, ⟨1, 0⟩⟩
  rw [hgone] at hthen
  revert hthen
  decide

end Db

end ObHtap.Mvcc
