import Mathlib.Logic.Function.Basic
import ObHtap.Bplus.Key
import ObHtap.Common.RC

/-!
# MVCC transactions

A record has two fields of its transactions, `begin_xid` and `end_xid`.  They hold the ids of the
commits that made and deleted the record; a negative number is the id of a transaction that has
inserted or deleted the record and has not committed.

A transaction object visits one record after the other, and so do `commit` and `rollback`.  Every
visit that can change a record and every append to the log is a call of its own here, so that the
calls of any number of transactions come in any order.
-/

namespace ObHtap.Mvcc

/-- `MvccTrxKit::max_trx_id`: the largest `int32_t`. -/
def maxTrxId : Int := 2147483647

/-- `MvccTrxKit::next_trx_id`: `++` on an atomic `int32_t`, which wraps around. -/
def nextTrxId (currentTrxId : Int) : Int :=
  if currentTrxId = maxTrxId then -maxTrxId - 1 else currentTrxId + 1

theorem nextTrxId_of_lt {x : Int} (h : x < maxTrxId) : nextTrxId x = x + 1 :=
  if_neg (Int.ne_of_lt h)

/-! ## Records -/

/-- Where a record is. -/
structure RowId where
  tableId : Int
  rid : RID
  deriving DecidableEq, Repr

/-- A record; `data` are the bytes behind the two transaction fields. -/
structure Record where
  beginXid : Int
  endXid : Int
  data : List UInt8
  deriving DecidableEq, Repr

inductive ReadWriteMode where
  | readOnly
  | readWrite
  deriving DecidableEq

/-- `MvccTrx::visit_record`. -/
def visitRecord (trxId : Int) (mode : ReadWriteMode) (record : Record) : Except RC Unit :=
  if 0 < record.beginXid ∧ 0 < record.endXid then
    if record.beginXid ≤ trxId ∧ trxId ≤ record.endXid then .ok () else .error .recordInvisible
  else if record.beginXid < 0 then
    if -record.beginXid = trxId then .ok () else .error .recordInvisible
  else if record.endXid < 0 then
    match mode with
    | .readOnly => if -record.endXid ≠ trxId then .ok () else .error .recordInvisible
    | .readWrite =>
      if -record.endXid ≠ trxId then .error .lockedConcurrencyConflict
      else .error .recordInvisible
  else .ok ()

/-! ## The log -/

/-- A change of a record in its page, as `RecordLogHandler` logs it. -/
inductive RecordChange where
  | insert (row : RowId) (record : Record)
  | update (row : RowId) (record : Record)
  | delete (row : RowId)
  deriving DecidableEq

namespace RecordChange

@[simp] def row : RecordChange → RowId
  | insert row _ => row
  | update row _ => row
  | delete row => row

/-- The record after the change. -/
@[simp] def image : RecordChange → Option Record
  | insert _ record => some record
  | update _ record => some record
  | delete _ => none

end RecordChange

/-- `MvccTrxLogOperation` with the further fields of its log entry. -/
inductive MvccTrxLogOperation where
  | insertRecord (row : RowId)
  | deleteRecord (row : RowId)
  | updateRecord (row : RowId)
  | commit (commitTrxId : Int)
  | rollback
  deriving DecidableEq

/-- An entry of the modules `RECORD_MANAGER` and `TRANSACTION`. -/
inductive LogEntry where
  | record (change : RecordChange)
  | trx (trxId : Int) (operation : MvccTrxLogOperation)
  deriving DecidableEq

/-! ## Transactions -/

/-- `Operation::Type`, of which `MvccTrx` uses two. -/
inductive OperationType where
  | insert
  | delete
  deriving DecidableEq

/-- `Operation`. -/
structure Operation where
  type : OperationType
  row : RowId
  deriving DecidableEq

/-- What a transaction object is in the middle of. -/
inductive Phase where
  /-- Between two calls. -/
  | running
  /-- A record has been changed; the log entry and the operation are still to be appended. -/
  | logging (entry : MvccTrxLogOperation) (operation : Operation)
  /-- In the loop of `commit_with_trx_id`. -/
  | committing (commitXid : Int) (rest : List Operation)
  /-- In the loop of `rollback`. -/
  | rollingBack (rest : List Operation)
  deriving DecidableEq

/-- A transaction object; `scanned` is the record that the scan below an UPDATE has copied. -/
structure MvccTrx where
  trxId : Int
  started : Bool
  operations : List Operation
  scanned : Option (RowId × Record)
  phase : Phase

/-- What the thread of a transaction object can do next. -/
inductive Call where
  | startIfNeed
  | scan (row : RowId)
  | insertRecord (row : RowId) (data : List UInt8)
  | deleteRecord (row : RowId)
  | updateRecord (data : List UInt8)
  | logOperation
  | commit
  | commitOperation
  | finishCommit
  | rollback
  | rollbackOperation
  | finishRollback
  deriving DecidableEq

/-- The id counter, the transaction objects, the record files and the log. -/
structure Db where
  currentTrxId : Int
  trxes : Nat → MvccTrx
  records : RowId → Option Record
  log : List LogEntry

namespace Db

/-- A new process with empty tables. -/
def create : Db := ⟨0, fun _ => ⟨-1, false, [], none, .running⟩, fun _ => none, []⟩

def setTrx (s : Db) (i : Nat) (trx : MvccTrx) : Db :=
  { s with trxes := Function.update s.trxes i trx }

/-- A record is changed and the change is logged. -/
def change (s : Db) (change : RecordChange) : Db :=
  { s with
    records := Function.update s.records change.row change.image
    log := s.log ++ [.record change] }

def append (s : Db) (entry : LogEntry) : Db := { s with log := s.log ++ [entry] }

def draw (s : Db) : Db := { s with currentTrxId := nextTrxId s.currentTrxId }

/-- `start_if_need`. -/
def startIfNeed (s : Db) (i : Nat) : Except Fault Db :=
  let trx := s.trxes i
  if trx.started then .ok s
  else if trx.operations ≠ [] then .error .abort
  else .ok (s.draw.setTrx i { trx with trxId := nextTrxId s.currentTrxId, started := true })

/-- The scan below an UPDATE: a record is visited and copied. -/
def scan (s : Db) (i : Nat) (row : RowId) : Except Fault Db :=
  let trx := s.trxes i
  match s.records row with
  | none => .error (.rc .recordNotExist)
  | some record =>
    match visitRecord trx.trxId .readWrite record with
    | .error rc => .error (.rc rc)
    | .ok () => .ok (s.setTrx i { trx with scanned := some (row, record) })

/-- `insert_record`, up to `table->insert_record`, which has placed the record at `row`. -/
def insertRecord (s : Db) (i : Nat) (row : RowId) (data : List UInt8) : Except Fault Db :=
  let trx := s.trxes i
  .ok ((s.change (.insert row ⟨-trx.trxId, maxTrxId, data⟩)).setTrx i
    { trx with phase := .logging (.insertRecord row) ⟨.insert, row⟩ })

/-- `delete_record`, up to `table->visit_record`. -/
def deleteRecord (s : Db) (i : Nat) (row : RowId) : Except Fault Db :=
  let trx := s.trxes i
  match s.records row with
  | none => .error (.rc .recordNotExist)
  | some record =>
    match visitRecord trx.trxId .readWrite record with
    | .error rc => .error (.rc rc)
    | .ok () =>
      .ok ((s.change (.update row { record with endXid := -trx.trxId })).setTrx i
        { trx with phase := .logging (.deleteRecord row) ⟨.delete, row⟩ })

/-- `update_record`, up to `table->update_record`.  The new record was copied from the scanned one
before the transaction fields of that one are set, so it keeps the old fields. -/
def updateRecord (s : Db) (i : Nat) (data : List UInt8) : Except Fault Db :=
  let trx := s.trxes i
  match trx.scanned with
  | none => .error (.rc .empty)
  | some (row, record) =>
    match s.records row with
    | none => .error (.rc .recordNotExist)
    | some _ =>
      .ok ((s.change (.update row { record with data })).setTrx i
        { trx with phase := .logging (.updateRecord row) ⟨.insert, row⟩ })

/-- The end of `insert_record`, `delete_record` and `update_record`. -/
def logOperation (s : Db) (i : Nat) : Except Fault Db :=
  let trx := s.trxes i
  match trx.phase with
  | .logging entry operation =>
    if trx.trxId ≤ 0 then .error .abort
    else
      .ok ((s.append (.trx trx.trxId entry)).setTrx i
        { trx with operations := trx.operations ++ [operation], phase := .running })
  | _ => .ok s

/-- `commit`, up to the loop of `commit_with_trx_id`. -/
def commit (s : Db) (i : Nat) : Except Fault Db :=
  let trx := s.trxes i
  .ok (s.draw.setTrx i
    { trx with started := false, phase := .committing (nextTrxId s.currentTrxId) trx.operations })

/-- `record_updater` in the loop of `commit_with_trx_id`. -/
def commitUpdater (trxId commitXid : Int) : OperationType → Record → Except Fault Record
  | .insert, record =>
    if record.beginXid = -trxId then .ok { record with beginXid := commitXid } else .error .abort
  | .delete, record =>
    if record.endXid = -trxId then .ok { record with endXid := commitXid } else .error .abort

/-- One operation in the loop of `commit_with_trx_id`. -/
def commitOperation (s : Db) (i : Nat) : Except Fault Db :=
  let trx := s.trxes i
  match trx.phase with
  | .committing commitXid (operation :: rest) =>
    match s.records operation.row with
    | none => .error .abort
    | some record =>
      match commitUpdater trx.trxId commitXid operation.type record with
      | .error e => .error e
      | .ok record =>
        .ok ((s.change (.update operation.row record)).setTrx i
          { trx with phase := .committing commitXid rest })
  | _ => .ok s

/-- The end of `commit_with_trx_id`. -/
def finishCommit (s : Db) (i : Nat) : Except Fault Db :=
  let trx := s.trxes i
  match trx.phase with
  | .committing commitXid [] =>
    if 0 < trx.trxId ∧ trx.trxId < commitXid then
      .ok ((s.append (.trx trx.trxId (.commit commitXid))).setTrx i
        { trx with operations := [], phase := .running })
    else .error .abort
  | _ => .ok s

/-- `rollback`, up to its loop. -/
def rollback (s : Db) (i : Nat) : Except Fault Db :=
  let trx := s.trxes i
  .ok (s.setTrx i { trx with started := false, phase := .rollingBack trx.operations.reverse })

/-- One operation in the loop of `rollback`. -/
def rollbackOperation (s : Db) (i : Nat) : Except Fault Db :=
  let trx := s.trxes i
  match trx.phase with
  | .rollingBack (operation :: rest) =>
    match s.records operation.row with
    | none => .error .abort
    | some record =>
      match operation.type with
      | .insert =>
        .ok ((s.change (.delete operation.row)).setTrx i { trx with phase := .rollingBack rest })
      | .delete =>
        if record.endXid = -trx.trxId then
          .ok ((s.change (.update operation.row { record with endXid := maxTrxId })).setTrx i
            { trx with phase := .rollingBack rest })
        else .error .abort
  | _ => .ok s

/-- The end of `rollback`. -/
def finishRollback (s : Db) (i : Nat) : Except Fault Db :=
  let trx := s.trxes i
  match trx.phase with
  | .rollingBack [] =>
    if 0 < trx.trxId then
      .ok ((s.append (.trx trx.trxId .rollback)).setTrx i
        { trx with operations := [], phase := .running })
    else .error .abort
  | _ => .ok s

/-- `visit_record` for the record at a place. -/
def visit (s : Db) (trxId : Int) (mode : ReadWriteMode) (row : RowId) : Except RC Unit :=
  match s.records row with
  | none => .error .recordNotExist
  | some record => visitRecord trxId mode record

/-! ## Calls -/

/-- A call is made between two others, one on a record after `start_if_need`, and the record file
places a new record where there is none.  The calls that go on with another one are made in the
middle of it. -/
def Ready (s : Db) (i : Nat) : Call → Prop
  | .startIfNeed | .commit | .rollback => (s.trxes i).phase = .running
  | .scan _ | .deleteRecord _ | .updateRecord _ =>
    (s.trxes i).phase = .running ∧ (s.trxes i).started
  | .insertRecord row _ =>
    (s.trxes i).phase = .running ∧ (s.trxes i).started ∧ s.records row = none
  | .logOperation | .commitOperation | .finishCommit | .rollbackOperation | .finishRollback => True

instance (s : Db) (i : Nat) (c : Call) : Decidable (s.Ready i c) := by
  cases c <;> unfold Ready <;> infer_instance

def perform (s : Db) (i : Nat) : Call → Except Fault Db
  | .startIfNeed => s.startIfNeed i
  | .scan row => s.scan i row
  | .insertRecord row data => s.insertRecord i row data
  | .deleteRecord row => s.deleteRecord i row
  | .updateRecord data => s.updateRecord i data
  | .logOperation => s.logOperation i
  | .commit => s.commit i
  | .commitOperation => s.commitOperation i
  | .finishCommit => s.finishCommit i
  | .rollback => s.rollback i
  | .rollbackOperation => s.rollbackOperation i
  | .finishRollback => s.finishRollback i

/-- One call of one transaction.  A call that is not made or fails with a return code changes
nothing; nothing is left when the process has ended. -/
def call (s : Db) (c : Nat × Call) : Option Db :=
  if s.Ready c.1 c.2 then
    match s.perform c.1 c.2 with
    | .ok s' => some s'
    | .error (.rc _) => some s
    | .error _ => none
  else some s

/-! ## Whole calls -/

/-- `insert_record`. -/
def inserts (i : Nat) (row : RowId) (data : List UInt8) : List (Nat × Call) :=
  [(i, .insertRecord row data), (i, .logOperation)]

/-- `delete_record`. -/
def deletes (i : Nat) (row : RowId) : List (Nat × Call) :=
  [(i, .deleteRecord row), (i, .logOperation)]

/-- `commit` with so many operations. -/
def commits (i n : Nat) : List (Nat × Call) :=
  (i, .commit) :: (List.replicate n (i, .commitOperation) ++ [(i, .finishCommit)])

/-- `rollback` with so many operations. -/
def rollbacks (i n : Nat) : List (Nat × Call) :=
  (i, .rollback) :: (List.replicate n (i, .rollbackOperation) ++ [(i, .finishRollback)])

end Db

end ObHtap.Mvcc
