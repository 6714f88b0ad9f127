import ObHtap.Trx.MvccTrx
import ObHtap.Library.PartialRun

/-!
# What a call of a transaction does

All that a call can do is said once, by cases.
-/

namespace ObHtap.Mvcc

/-! ## Records that can be deleted -/

/-- A record that is visible for a change is the transaction's own, or it is committed and no
other transaction is deleting it. -/
theorem visitRecord_readWrite {trxId : Int} {record : Record} (hb : record.beginXid ≠ 0)
    (he : record.endXid ≠ 0) (h : visitRecord trxId .readWrite record = .ok ()) :
    (record.beginXid < 0 ∧ record.beginXid = -trxId) ∨
      (0 < record.beginXid ∧ record.beginXid ≤ trxId ∧ trxId ≤ record.endXid) := by
  unfold visitRecord at h
  split_ifs at h with hpos hrange hneg howner hend
  · exact Or.inr ⟨hpos.1, hrange⟩
  · exact Or.inl ⟨hneg, by omega⟩
  · omega

namespace Db

variable {s s' : Db} {i j : Nat} {c : Call}

/-! ## The parts of a state -/

@[simp] theorem setTrx_currentTrxId (trx : MvccTrx) :
    (s.setTrx i trx).currentTrxId = s.currentTrxId := rfl

@[simp] theorem setTrx_records (trx : MvccTrx) : (s.setTrx i trx).records = s.records := rfl

@[simp] theorem setTrx_trxes_self (trx : MvccTrx) : (s.setTrx i trx).trxes i = trx := by
  simp [setTrx]

theorem setTrx_trxes_of_ne (h : j ≠ i) (trx : MvccTrx) :
    (s.setTrx i trx).trxes j = s.trxes j := by
  simp [setTrx, h]

@[simp] theorem change_trxes (change : RecordChange) : (s.change change).trxes = s.trxes := rfl

theorem change_records (change : RecordChange) (row : RowId) :
    (s.change change).records row = if row = change.row then change.image else s.records row :=
  Function.update_apply s.records change.row change.image row

@[simp] theorem append_records (entry : LogEntry) : (s.append entry).records = s.records := rfl

@[simp] theorem draw_currentTrxId : s.draw.currentTrxId = nextTrxId s.currentTrxId := rfl

@[simp] theorem draw_trxes : s.draw.trxes = s.trxes := rfl

/-! ## The effect of a call -/

/-- The state after a call of the object `i`. -/
inductive Effect (s : Db) (i : Nat) : Call → Db → Prop
  | idle (c : Call) : Effect s i c s
  | start (hphase : (s.trxes i).phase = .running) (hstarted : (s.trxes i).started = false)
      (hoperations : (s.trxes i).operations = []) :
      Effect s i .startIfNeed (s.draw.setTrx i
        { s.trxes i with trxId := nextTrxId s.currentTrxId, started := true })
  | scan {row : RowId} {record : Record} (hphase : (s.trxes i).phase = .running)
      (hrecord : s.records row = some record) :
      Effect s i (.scan row) (s.setTrx i { s.trxes i with scanned := some (row, record) })
  | insert {row : RowId} {data : List UInt8} (hphase : (s.trxes i).phase = .running)
      (hstarted : (s.trxes i).started = true) (hrecord : s.records row = none) :
      Effect s i (.insertRecord row data)
        ((s.change (.insert row ⟨-(s.trxes i).trxId, maxTrxId, data⟩)).setTrx i
          { s.trxes i with phase := .logging (.insertRecord row) ⟨.insert, row⟩ })
  | delete {row : RowId} {record : Record} (hphase : (s.trxes i).phase = .running)
      (hstarted : (s.trxes i).started = true) (hrecord : s.records row = some record)
      (hvisit : visitRecord (s.trxes i).trxId .readWrite record = .ok ()) :
      Effect s i (.deleteRecord row)
        ((s.change (.update row { record with endXid := -(s.trxes i).trxId })).setTrx i
          { s.trxes i with phase := .logging (.deleteRecord row) ⟨.delete, row⟩ })
  | update {row : RowId} {record old : Record} {data : List UInt8}
      (hphase : (s.trxes i).phase = .running) (hstarted : (s.trxes i).started = true)
      (hscanned : (s.trxes i).scanned = some (row, record)) (hrecord : s.records row = some old) :
      Effect s i (.updateRecord data)
        ((s.change (.update row { record with data })).setTrx i
          { s.trxes i with phase := .logging (.updateRecord row) ⟨.insert, row⟩ })
  | logged {entry : MvccTrxLogOperation} {operation : Operation}
      (hphase : (s.trxes i).phase = .logging entry operation) (hpos : 0 < (s.trxes i).trxId) :
      Effect s i .logOperation ((s.append (.trx (s.trxes i).trxId entry)).setTrx i
        { s.trxes i with
          operations := (s.trxes i).operations ++ [operation]
          phase := .running })
  | commit (hphase : (s.trxes i).phase = .running) :
      Effect s i .commit (s.draw.setTrx i
        { s.trxes i with
          started := false
          phase := .committing (nextTrxId s.currentTrxId) (s.trxes i).operations })
  | commitInsert {commitXid : Int} {row : RowId} {rest : List Operation} {record : Record}
      (hphase : (s.trxes i).phase = .committing commitXid (⟨.insert, row⟩ :: rest))
      (hrecord : s.records row = some record) (howner : record.beginXid = -(s.trxes i).trxId) :
      Effect s i .commitOperation
        ((s.change (.update row { record with beginXid := commitXid })).setTrx i
          { s.trxes i with phase := .committing commitXid rest })
  | commitDelete {commitXid : Int} {row : RowId} {rest : List Operation} {record : Record}
      (hphase : (s.trxes i).phase = .committing commitXid (⟨.delete, row⟩ :: rest))
      (hrecord : s.records row = some record) (howner : record.endXid = -(s.trxes i).trxId) :
      Effect s i .commitOperation
        ((s.change (.update row { record with endXid := commitXid })).setTrx i
          { s.trxes i with phase := .committing commitXid rest })
  | committed {commitXid : Int} (hphase : (s.trxes i).phase = .committing commitXid [])
      (hpos : 0 < (s.trxes i).trxId) :
      Effect s i .finishCommit
        ((s.append (.trx (s.trxes i).trxId (.commit commitXid))).setTrx i
          { s.trxes i with operations := [], phase := .running })
  | rollback (hphase : (s.trxes i).phase = .running) :
      Effect s i .rollback (s.setTrx i
        { s.trxes i with
          started := false
          phase := .rollingBack (s.trxes i).operations.reverse })
  | undoInsert {row : RowId} {rest : List Operation} {record : Record}
      (hphase : (s.trxes i).phase = .rollingBack (⟨.insert, row⟩ :: rest))
      (hrecord : s.records row = some record) :
      Effect s i .rollbackOperation
        ((s.change (.delete row)).setTrx i { s.trxes i with phase := .rollingBack rest })
  | undoDelete {row : RowId} {rest : List Operation} {record : Record}
      (hphase : (s.trxes i).phase = .rollingBack (⟨.delete, row⟩ :: rest))
      (hrecord : s.records row = some record) (howner : record.endXid = -(s.trxes i).trxId) :
      Effect s i .rollbackOperation
        ((s.change (.update row { record with endXid := maxTrxId })).setTrx i
          { s.trxes i with phase := .rollingBack rest })
  | rolledBack (hphase : (s.trxes i).phase = .rollingBack []) (hpos : 0 < (s.trxes i).trxId) :
      Effect s i .finishRollback ((s.append (.trx (s.trxes i).trxId .rollback)).setTrx i
        { s.trxes i with operations := [], phase := .running })

/-- A call that succeeds has its effect. -/
theorem perform_effect (hready : s.Ready i c) (h : s.perform i c = .ok s') : Effect s i c s' := by
  cases c with
  | startIfNeed =>
    simp only [perform, startIfNeed] at h
    split_ifs at h with hstarted hoperations
    · cases h
      exact .idle _
    · cases h
      exact .start hready (by simpa using hstarted) (by simpa using hoperations)
  | scan row =>
    simp only [perform, scan] at h
    split at h
    · cases h
    rename_i record hrecord
    split at h
    · cases h
    · cases h
      exact .scan hready.1 hrecord
  | insertRecord row data =>
    cases h
    exact .insert hready.1 hready.2.1 hready.2.2
  | deleteRecord row =>
    simp only [perform, deleteRecord] at h
    split at h
    · cases h
    rename_i record hrecord
    split at h
    · cases h
    · rename_i hvisit
      cases h
      exact .delete hready.1 hready.2 hrecord hvisit
  | updateRecord data =>
    simp only [perform, updateRecord] at h
    split at h
    · cases h
    rename_i row record hscanned
    split at h
    · cases h
    · rename_i old hrecord
      cases h
      exact .update hready.1 hready.2 hscanned hrecord
  | logOperation =>
    simp only [perform, logOperation] at h
    split at h
    · rename_i entry operation hphase
      split_ifs at h with hpos
      cases h
      exact .logged hphase (Int.not_le.mp hpos)
    · cases h
      exact .idle _
  | commit =>
    cases h
    exact .commit hready
  | commitOperation =>
    simp only [perform, commitOperation] at h
    split at h
    · rename_i commitXid operation rest hphase
      obtain ⟨type, row⟩ := operation
      split at h
      · cases h
      rename_i record hrecord
      cases type with
      | insert =>
        simp only [commitUpdater] at h
        split_ifs at h with howner
        cases h
        exact .commitInsert hphase hrecord howner
      | delete =>
        simp only [commitUpdater] at h
        split_ifs at h with howner
        cases h
        exact .commitDelete hphase hrecord howner
    · cases h
      exact .idle _
  | finishCommit =>
    simp only [perform, finishCommit] at h
    split at h
    · rename_i commitXid hphase
      split_ifs at h with hids
      cases h
      exact .committed hphase hids.1
    · cases h
      exact .idle _
  | rollback =>
    cases h
    exact .rollback hready
  | rollbackOperation =>
    simp only [perform, rollbackOperation] at h
    split at h
    · rename_i operation rest hphase
      obtain ⟨type, row⟩ := operation
      split at h
      · cases h
      rename_i record hrecord
      cases type with
      | insert =>
        cases h
        exact .undoInsert hphase hrecord
      | delete =>
        simp only at h
        split_ifs at h with howner
        cases h
        exact .undoDelete hphase hrecord howner
    · cases h
      exact .idle _
  | finishRollback =>
    simp only [perform, finishRollback] at h
    split at h
    · rename_i hphase
      split_ifs at h with hpos
      cases h
      exact .rolledBack hphase hpos
    · cases h
      exact .idle _

/-- Every call has its effect, or none. -/
theorem call_effect (h : s.call (i, c) = some s') : Effect s i c s' := by
  unfold call at h
  split_ifs at h with hready
  · split at h
    · rename_i s₁ hperform
      cases h
      exact perform_effect hready hperform
    · cases h
      exact .idle _
    · cases h
  · cases h
    exact .idle _

end Db

end ObHtap.Mvcc
