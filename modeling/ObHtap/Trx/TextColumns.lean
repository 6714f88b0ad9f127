import Mathlib.Data.List.Forall2
import ObHtap.Library.LittleEndian
import ObHtap.Text.TextFile
import ObHtap.Trx.MvccEffect

/-!
# Columns whose values lie in text files

A record has the page number of a text, and the text is in a file of its own.  The statements
write and delete texts outside of their transaction: `make_record` before the record is inserted,
`UpdatePhysicalOperator` before it is updated, and `DeletePhysicalOperator` after its records have
been deleted.
-/

namespace ObHtap.Mvcc

/-- The columns with text files. -/
inductive TextKind where
  | texts
  | highVectors
  deriving DecidableEq

/-- The text file of a table for columns of one type. -/
structure TextFileId where
  tableId : Int
  kind : TextKind
  deriving DecidableEq

/-- A column with its place in the data of a record. -/
structure TextColumn where
  kind : TextKind
  offset : Nat
  fieldId : Nat

/-- The bytes of the column. -/
def TextColumn.rawPageNum (column : TextColumn) (data : List UInt8) : Int :=
  (bytesInt32 ((data.drop column.offset).take 4)).toInt

/-- `cell_is_null`. -/
def TextColumn.isNull (column : TextColumn) (data : List UInt8) : Bool :=
  data.getD (data.length - column.fieldId - 1) 0 ≠ 0

/-- The page number in the column, unless its value is NULL. -/
def TextColumn.pageNum (column : TextColumn) (data : List UInt8) : Option Int :=
  if column.isNull data then none else some (column.rawPageNum data)

/-- A text that a statement has written. -/
structure WrittenText where
  file : TextFileId
  pageNum : Int
  text : List UInt8

/-- The database with its text files and what the statements of each transaction object remember:
the texts they have written and the pages they have collected for deletion.  `stored` and `scanned`
are the values of the text columns of each record and of the record scanned by an UPDATE. -/
structure TextDb where
  db : Db
  columns : Int → List TextColumn
  files : TextFileId → TextFile
  written : Nat → List WrittenText
  collected : Nat → List (TextFileId × Int)
  stored : RowId → List (Option (List UInt8))
  scanned : Nat → List (Option (List UInt8))

/-- What a statement does next. -/
inductive TextAction where
  /-- A call of the transaction that brings no data. -/
  | call (c : Call)
  /-- `make_record` writes a text. -/
  | writeText (file : TextFileId) (text : List UInt8)
  | insertRecord (row : RowId) (data : List UInt8)
  /-- The scan below an UPDATE. -/
  | scan (row : RowId)
  /-- `UpdatePhysicalOperator` gives a column a text. -/
  | updateText (column : TextColumn) (text : List UInt8)
  /-- `UpdatePhysicalOperator` replaces the record; some columns are given NULL or a text. -/
  | updateRecord (assigned : TextColumn → Option (Option (List UInt8))) (data : List UInt8)
  /-- The scan below a DELETE. -/
  | collect (row : RowId)
  /-- `DeletePhysicalOperator` deletes a text. -/
  | deleteText (file : TextFileId) (pageNum : Int)

namespace TextDb

/-- A new process with empty tables. -/
def create (columns : Int → List TextColumn) : TextDb where
  db := Db.create
  columns
  files _ := TextFile.create
  written _ := []
  collected _ := []
  stored _ := []
  scanned _ := []

def setFile (s : TextDb) (file : TextFileId) (content : TextFile) : TextDb :=
  { s with files := Function.update s.files file content }

def addWritten (s : TextDb) (i : Nat) (w : WrittenText) : TextDb :=
  { s with written := Function.update s.written i (w :: s.written i) }

/-- A column of a new record: NULL, or the page of a text that the statement has written. -/
def Made (s : TextDb) (i : Nat) (tableId : Int) (data : List UInt8) (column : TextColumn)
    (value : Option (List UInt8)) : Prop :=
  match column.pageNum data, value with
  | none, none => True
  | some pageNum, some text => ⟨⟨tableId, column.kind⟩, pageNum, text⟩ ∈ s.written i
  | _, _ => False

/-- A column of a record after an UPDATE.  The null bit of a column of type `HIGH_VECTORS` is left
as it is. -/
def Updated (s : TextDb) (i : Nat) (tableId : Int) (oldData data : List UInt8)
    (assigned : TextColumn → Option (Option (List UInt8)))
    (column : TextColumn × Option (List UInt8)) (value : Option (List UInt8)) : Prop :=
  match assigned column.1 with
  | none => column.1.pageNum data = column.1.pageNum oldData ∧ value = column.2
  | some given =>
    value = given ∧
      (column.1.isNull data =
        match column.1.kind with
        | .texts => given.isNone
        | .highVectors => column.1.isNull oldData) ∧
      match given with
      | none => column.1.rawPageNum data = -1
      | some text => ⟨⟨tableId, column.1.kind⟩, column.1.rawPageNum data, text⟩ ∈ s.written i

/-- The pages in the columns of a record that are not NULL. -/
def pagesOf (s : TextDb) (tableId : Int) (data : List UInt8) : List (TextFileId × Int) :=
  (s.columns tableId).filterMap fun column =>
    (column.pageNum data).map fun pageNum => (⟨tableId, column.kind⟩, pageNum)

/-- One action of a statement of the transaction object `i`. -/
inductive Step (s : TextDb) (i : Nat) : TextAction → TextDb → Prop
  | call {c db'} (hcall : s.db.call (i, c) = some db')
      (hinsert : ∀ row data, c ≠ .insertRecord row data) (hscan : ∀ row, c ≠ .scan row)
      (hupdate : ∀ data, c ≠ .updateRecord data) : Step s i (.call c) { s with db := db' }
  | writeText {file text content pageNum}
      (hwrite : (s.files file).writeText text = (.ok (), content, pageNum)) :
      Step s i (.writeText file text) ((s.setFile file content).addWritten i ⟨file, pageNum, text⟩)
  | writeFailed {file text content pageNum rc}
      (hwrite : (s.files file).writeText text = (.error rc, content, pageNum)) :
      Step s i (.writeText file text) (s.setFile file content)
  | insertRecord {row data db' values} (hready : s.db.Ready i (.insertRecord row data))
      (hcall : s.db.insertRecord i row data = .ok db')
      (hvalues : List.Forall₂ (s.Made i row.tableId data) (s.columns row.tableId) values) :
      Step s i (.insertRecord row data)
        { s with db := db', stored := Function.update s.stored row values }
  | scan {row db'} (hready : s.db.Ready i (.scan row)) (hcall : s.db.scan i row = .ok db') :
      Step s i (.scan row)
        { s with db := db', scanned := Function.update s.scanned i (s.stored row) }
  | updateText {row record column text content pageNum stored}
      (hscanned : (s.db.trxes i).scanned = some (row, record))
      (hcolumn : column ∈ s.columns row.tableId)
      (hupdate : (s.files ⟨row.tableId, column.kind⟩).updateText stored
        (column.rawPageNum record.data) text = some (.ok pageNum, content)) :
      Step s i (.updateText column text) ((s.setFile ⟨row.tableId, column.kind⟩ content).addWritten
        i ⟨⟨row.tableId, column.kind⟩, pageNum, text⟩)
  /-- The return code is not looked at, and the page number has not been set. -/
  | updateFailed {row record column text content pageNum stored rc}
      (hscanned : (s.db.trxes i).scanned = some (row, record))
      (hcolumn : column ∈ s.columns row.tableId) (hkind : column.kind = .texts)
      (hupdate : (s.files ⟨row.tableId, column.kind⟩).updateText stored
        (column.rawPageNum record.data) text = some (.error rc, content)) :
      Step s i (.updateText column text) ((s.setFile ⟨row.tableId, column.kind⟩ content).addWritten
        i ⟨⟨row.tableId, column.kind⟩, pageNum, text⟩)
  /-- The statement ends. -/
  | updateAborted {row record column text content stored rc}
      (hscanned : (s.db.trxes i).scanned = some (row, record))
      (hcolumn : column ∈ s.columns row.tableId) (hkind : column.kind = .highVectors)
      (hupdate : (s.files ⟨row.tableId, column.kind⟩).updateText stored
        (column.rawPageNum record.data) text = some (.error rc, content)) :
      Step s i (.updateText column text) (s.setFile ⟨row.tableId, column.kind⟩ content)
  | updateRecord {row record assigned data db' values}
      (hscanned : (s.db.trxes i).scanned = some (row, record))
      (hready : s.db.Ready i (.updateRecord data)) (hcall : s.db.updateRecord i data = .ok db')
      (hvalues : List.Forall₂ (s.Updated i row.tableId record.data data assigned)
        ((s.columns row.tableId).zip (s.scanned i)) values) :
      Step s i (.updateRecord assigned data)
        { s with db := db', stored := Function.update s.stored row values }
  | collect {row record} (hready : s.db.Ready i (.scan row))
      (hrecord : s.db.records row = some record)
      (hvisit : visitRecord (s.db.trxes i).trxId .readWrite record = .ok ()) :
      Step s i (.collect row)
        { s with
          collected := Function.update s.collected i
            (s.collected i ++ s.pagesOf row.tableId record.data) }
  | deleteText {file pageNum stored result content} (hpage : (file, pageNum) ∈ s.collected i)
      (hdelete : (s.files file).deleteText stored pageNum = some (result, content)) :
      Step s i (.deleteText file pageNum) (s.setFile file content)

/-- Actions of any transaction objects one after the other, each of them done where a condition
holds. -/
inductive Run (C : TextDb → TextAction → Prop) : TextDb → List (Nat × TextAction) → TextDb → Prop
  | nil (s) : Run C s [] s
  | snoc {s actions mid i a s'} : Run C s actions mid → C mid a → Step mid i a s' →
      Run C s (actions ++ [(i, a)]) s'

/-- A column holds its value: NULL, or a text on a chain of allocated pages that `get_text`
reads. -/
def HoldsValue (s : TextDb) (tableId : Int) (data : List UInt8) (column : TextColumn)
    (value : Option (List UInt8)) : Prop :=
  match column.pageNum data, value with
  | none, none => True
  | some pageNum, some text =>
    (s.files ⟨tableId, column.kind⟩).Chain pageNum text ∧
      ∃ rounds, (s.files ⟨tableId, column.kind⟩).getText rounds pageNum = some (.ok text)
  | _, _ => False

/-- Every record that a transaction can see has the values stored with it. -/
def TextsHeld (s : TextDb) : Prop :=
  ∀ i row record mode, (s.db.trxes i).started = true → s.db.records row = some record →
    visitRecord (s.db.trxes i).trxId mode record = .ok () →
    List.Forall₂ (s.HoldsValue row.tableId record.data) (s.columns row.tableId) (s.stored row)

/-! ## The condition -/

/-- No text is deleted or replaced, none is empty or too long for its file, and no column of type
`HIGH_VECTORS` is given a value by an UPDATE. -/
def Harmless (s : TextDb) : TextAction → Prop
  | .writeText file text =>
    text ≠ [] ∧ (TextFile.hasRoom 1 (s.files file) = true →
      TextFile.hasRoom (TextFile.textPages text) (s.files file) = true)
  | .updateRecord assigned _ =>
    ∀ column given, assigned column = some given → column.kind = .texts ∧ given = none
  | .updateText _ _ | .deleteText _ _ => False
  | .call _ | .insertRecord _ _ | .scan _ | .collect _ => True

/-! ## The invariant -/

/-- A column is NULL, or its text lies on a chain. -/
def OnChain (files : TextFileId → TextFile) (tableId : Int) (data : List UInt8)
    (column : TextColumn) (value : Option (List UInt8)) : Prop :=
  match column.pageNum data, value with
  | none, none => True
  | some pageNum, some text => (files ⟨tableId, column.kind⟩).Chain pageNum text
  | _, _ => False

/-- The records, the scanned records and the texts that have been written lie on chains. -/
structure ChainsKept (s : TextDb) : Prop where
  header : ∀ file, (s.files file).header.Allocated 0
  records : ∀ row record, s.db.records row = some record →
    List.Forall₂ (OnChain s.files row.tableId record.data) (s.columns row.tableId) (s.stored row)
  scanned : ∀ i row record, (s.db.trxes i).scanned = some (row, record) →
    List.Forall₂ (OnChain s.files row.tableId record.data) (s.columns row.tableId) (s.scanned i)
  written : ∀ i, ∀ w ∈ s.written i, (s.files w.file).Chain w.pageNum w.text

variable {s s' : TextDb} {i : Nat} {a : TextAction} {columns : Int → List TextColumn}
  {files files' : TextFileId → TextFile} {tableId : Int} {data oldData : List UInt8}
  {column : TextColumn} {value : Option (List UInt8)}

theorem OnChain.keeps (h : OnChain files tableId data column value)
    (hkeeps : ∀ file, (files file).Keeps (files' file) fun _ => True) :
    OnChain files' tableId data column value := by
  unfold OnChain at h ⊢
  cases hpage : column.pageNum data <;> cases value <;> simp only [hpage] at h ⊢
  exact h.keeps (hkeeps _)

theorem OnChain.holdsValue (h : OnChain s.files tableId data column value) :
    s.HoldsValue tableId data column value := by
  unfold OnChain at h
  unfold HoldsValue
  cases hpage : column.pageNum data <;> cases value <;> simp only [hpage] at h ⊢
  exact ⟨h, h.getText⟩

/-- A new column lies on the chain of the text that has been written for it. -/
theorem ChainsKept.made (h : ChainsKept s) (hmade : s.Made i tableId data column value) :
    OnChain s.files tableId data column value := by
  unfold Made at hmade
  unfold OnChain
  cases hpage : column.pageNum data <;> cases value <;> simp only [hpage] at hmade ⊢
  exact h.written i _ hmade

/-- A column after a harmless UPDATE is as before, or it is NULL. -/
theorem OnChain.updated {assigned : TextColumn → Option (Option (List UInt8))}
    {old : Option (List UInt8)} (h : OnChain s.files tableId oldData column old)
    (hcond : ∀ column given, assigned column = some given → column.kind = .texts ∧ given = none)
    (hupdated : s.Updated i tableId oldData data assigned (column, old) value) :
    OnChain s.files tableId data column value := by
  unfold Updated at hupdated
  cases hassigned : assigned column with
  | none =>
    simp only [hassigned] at hupdated
    obtain ⟨hpage, rfl⟩ := hupdated
    unfold OnChain
    rw [hpage]
    exact h
  | some given =>
    obtain ⟨hkind, rfl⟩ := hcond column given hassigned
    simp only [hassigned, hkind] at hupdated
    obtain ⟨rfl, hnull, -⟩ := hupdated
    have hpage : column.pageNum data = none := if_pos hnull
    unfold OnChain
    rw [hpage]
    trivial

/-- A call that brings no data leaves the data of the records and the scanned records. -/
theorem effect_data {d d' : Db} {c : Call} (heffect : d.Effect i c d')
    (hinsert : ∀ row data, c ≠ .insertRecord row data) (hscan : ∀ row, c ≠ .scan row)
    (hupdate : ∀ data, c ≠ .updateRecord data) :
    (∀ row record', d'.records row = some record' →
      ∃ record, d.records row = some record ∧ record'.data = record.data) ∧
    ∀ j, (d'.trxes j).scanned = (d.trxes j).scanned := by
  have hsame : ∀ row record', d.records row = some record' →
      ∃ record, d.records row = some record ∧ record'.data = record.data :=
    fun row record' hrecord => ⟨record', hrecord, rfl⟩
  have hscanned : ∀ (d₁ : Db) (trx : MvccTrx), d₁.trxes = d.trxes →
      trx.scanned = (d.trxes i).scanned →
      ∀ j, ((d₁.setTrx i trx).trxes j).scanned = (d.trxes j).scanned := by
    intro d₁ trx htrxes htrx j
    by_cases hji : j = i
    · rw [hji, Db.setTrx_trxes_self, htrx]
    · rw [Db.setTrx_trxes_of_ne hji, htrxes]
  have hchanged : ∀ (change : RecordChange) (trx : MvccTrx) (changed : RowId) (record : Record),
      change.row = changed → d.records changed = some record →
      (∀ image, change.image = some image → image.data = record.data) →
      ∀ row record', ((d.change change).setTrx i trx).records row = some record' →
        ∃ record, d.records row = some record ∧ record'.data = record.data := by
    intro change trx changed record hchange hrecord himage row record' hrecord'
    rw [Db.setTrx_records, Db.change_records, hchange] at hrecord'
    split_ifs at hrecord' with hrow
    · exact ⟨record, hrow ▸ hrecord, himage record' hrecord'⟩
    · exact hsame row record' hrecord'
  cases heffect with
  | idle => exact ⟨hsame, fun _ => rfl⟩
  | scan => exact absurd rfl (hscan _)
  | insert => exact absurd rfl (hinsert _ _)
  | update => exact absurd rfl (hupdate _)
  | start | logged | commit | committed | rollback | rolledBack =>
    exact ⟨hsame, hscanned _ _ rfl rfl⟩
  | delete _ _ hrecord | commitInsert _ hrecord | commitDelete _ hrecord | undoInsert _ hrecord
  | undoDelete _ hrecord =>
    constructor
    · intro row record' hrecord'
      refine hchanged _ _ _ _ ?_ hrecord ?_ row record' hrecord'
      · rfl
      · rintro image ⟨⟩ <;> rfl
    · exact hscanned _ _ rfl rfl

namespace ChainsKept

theorem create : ChainsKept (create columns) where
  header _ := ⟨Nat.one_pos, rfl⟩
  records _ _ h := nomatch h
  scanned _ _ _ h := nomatch h
  written _ _ h := nomatch h

theorem setFile (h : ChainsKept s) {file : TextFileId} {content : TextFile}
    (hkeeps : (s.files file).Keeps content fun _ => True) : ChainsKept (s.setFile file content) := by
  have hfiles : ∀ other, (s.files other).Keeps ((s.setFile file content).files other)
      fun _ => True := by
    intro other
    by_cases hother : other = file
    · subst hother
      simpa [TextDb.setFile] using hkeeps
    · intro p hp _
      simpa [TextDb.setFile, hother] using hp
  exact {
    header := fun other => (hfiles other 0 (h.header other) trivial).1
    records := fun row record hrecord =>
      (h.records row record hrecord).imp fun _ _ hchain => hchain.keeps hfiles
    scanned := fun i row record hscanned =>
      (h.scanned i row record hscanned).imp fun _ _ hchain => hchain.keeps hfiles
    written := fun i w hw => (h.written i w hw).keeps (hfiles _) }

theorem addWritten (h : ChainsKept s) {w : WrittenText}
    (hw : (s.files w.file).Chain w.pageNum w.text) : ChainsKept (s.addWritten i w) where
  header := h.header
  records := h.records
  scanned := h.scanned
  written j v hv := by
    by_cases hji : j = i
    · subst hji
      simp only [TextDb.addWritten, Function.update_self, List.mem_cons] at hv
      rcases hv with rfl | hv
      · exact hw
      · exact h.written j v hv
    · simp only [TextDb.addWritten, Function.update_of_ne hji] at hv
      exact h.written j v hv

theorem writeText (h : ChainsKept s) {file : TextFileId} {text : List UInt8}
    {result : Except RC Unit} {content : TextFile} {pageNum : Int}
    (hwrite : (s.files file).writeText text = (result, content, pageNum)) :
    ChainsKept (s.setFile file content) ∧
      (s.Harmless (.writeText file text) → result = .ok () →
        ChainsKept ((s.setFile file content).addWritten i ⟨file, pageNum, text⟩)) := by
  obtain ⟨hkeeps, hchain⟩ := TextFile.writeText_spec (h.header file) text
  rw [hwrite] at hkeeps hchain
  have hset := h.setFile hkeeps
  refine ⟨hset, fun hcond hok => hset.addWritten ?_⟩
  have hcontent : (s.setFile file content).files file = content := by simp [TextDb.setFile]
  rw [hcontent]
  exact hchain hcond.1 hcond.2 hok

theorem setRecord (h : ChainsKept s) {row : RowId} {change : RecordChange} {trx : MvccTrx}
    {record : Record} {values : List (Option (List UInt8))} (hrow : change.row = row)
    (himage : change.image = some record) (htrx : trx.scanned = (s.db.trxes i).scanned)
    (hvalues : List.Forall₂ (OnChain s.files row.tableId record.data)
      (s.columns row.tableId) values) :
    ChainsKept { s with
      db := (s.db.change change).setTrx i trx
      stored := Function.update s.stored row values } where
  header := h.header
  records other record' hrecord' := by
    rw [Db.setTrx_records, Db.change_records, hrow, himage] at hrecord'
    by_cases hother : other = row
    · subst hother
      rw [if_pos rfl] at hrecord'
      cases hrecord'
      simpa using hvalues
    · rw [if_neg hother] at hrecord'
      simpa [Function.update_of_ne hother] using h.records other record' hrecord'
  scanned j := by
    by_cases hji : j = i
    · subst hji
      rw [Db.setTrx_trxes_self, htrx]
      exact h.scanned j
    · rw [Db.setTrx_trxes_of_ne hji]
      exact h.scanned j
  written := h.written

/-- The columns of a record after a harmless UPDATE lie on chains, by induction on the columns. -/
theorem updated {assigned : TextColumn → Option (Option (List UInt8))}
    {cols : List TextColumn} {olds values : List (Option (List UInt8))}
    (h : List.Forall₂ (OnChain s.files tableId oldData) cols olds)
    (hcond : ∀ column given, assigned column = some given → column.kind = .texts ∧ given = none)
    (hupdated : List.Forall₂ (s.Updated i tableId oldData data assigned) (cols.zip olds) values) :
    List.Forall₂ (OnChain s.files tableId data) cols values := by
  induction h generalizing values with
  | nil =>
    cases hupdated
    exact .nil
  | cons hchain _ ih =>
    cases hupdated with
    | cons hvalue hrest => exact .cons (hchain.updated hcond hvalue) (ih hrest)

theorem step (h : ChainsKept s) (hcond : s.Harmless a) (hstep : Step s i a s') :
    ChainsKept s' := by
  cases hstep with
  | call hcall hinsert hscan hupdate =>
    obtain ⟨hrecords, hscanned⟩ := effect_data (Db.call_effect hcall) hinsert hscan hupdate
    exact {
      header := h.header
      records := by
        intro row record' hrecord'
        obtain ⟨record, hrecord, hdata⟩ := hrecords row record' hrecord'
        rw [hdata]
        exact h.records row record hrecord
      scanned := by
        intro j row record
        rw [hscanned]
        exact h.scanned j row record
      written := h.written }
  | writeText hwrite => exact (h.writeText hwrite).2 hcond rfl
  | writeFailed hwrite => exact (h.writeText (i := i) hwrite).1
  | insertRecord hready hcall hvalues =>
    cases hcall
    exact h.setRecord rfl rfl rfl (hvalues.imp fun _ _ hmade => h.made hmade)
  | @scan row db' hready hcall =>
    simp only [Db.scan] at hcall
    split at hcall
    · cases hcall
    rename_i record hrecord
    split at hcall
    · cases hcall
    cases hcall
    refine ⟨h.header, h.records, ?_, h.written⟩
    intro j row' record' hscanned
    by_cases hji : j = i
    · subst hji
      rw [Db.setTrx_trxes_self] at hscanned
      cases hscanned
      simpa using h.records row record hrecord
    · rw [Db.setTrx_trxes_of_ne hji] at hscanned
      simpa [Function.update_of_ne hji] using h.scanned j row' record' hscanned
  | updateRecord hscanned hready hcall hvalues =>
    simp only [Db.updateRecord, hscanned] at hcall
    split at hcall
    · cases hcall
    cases hcall
    exact h.setRecord rfl rfl hscanned.symm (updated (h.scanned i _ _ hscanned) hcond hvalues)
  | collect => exact ⟨h.header, h.records, h.scanned, h.written⟩
  | updateText | updateFailed | updateAborted | deleteText => exact hcond.elim

end ChainsKept

/-- In a run of harmless actions the records that a transaction can see have their texts, by
induction on the run. -/
theorem textsHeld_of_run {actions : List (Nat × TextAction)}
    (hrun : Run Harmless (create columns) actions s) : s.TextsHeld := by
  have hkept : ChainsKept s := by
    induction hrun with
    | nil => exact .create
    | snoc _ hcond hstep ih => exact ih.step hcond hstep
  intro i row record mode _ hrecord _
  exact (hkept.records row record hrecord).imp fun _ _ hchain => hchain.holdsValue

/-- A table with one text column, a place in it, and a record of it with its text on page 1. -/
def oneColumn : Int → List TextColumn := fun _ => [⟨.texts, 0, 0⟩]

def someRow : RowId := ⟨1, ⟨1, 0⟩⟩

def someData : List UInt8 := int32Bytes 1 ++ [0]

/-- Two rows with texts are inserted side by side; one insertion is committed and the other rolled
back. -/
theorem textsHeld_of_run_sideBySide : ∃ actions s, Run Harmless (create oneColumn) actions s ∧
    s.TextsHeld ∧ s.db.visit 5 .readOnly someRow = .ok () := by
  have hstart : Run Harmless (create oneColumn) [(0, .call .startIfNeed)] _ :=
    (Run.nil _).snoc trivial (.call rfl nofun nofun nofun)
  have hwrite := hstart.snoc (i := 0) (a := .writeText ⟨1, .texts⟩ [104])
    ⟨List.cons_ne_nil _ _, fun _ => rfl⟩ (.writeText rfl)
  have hother := hwrite.snoc (i := 1) (a := .call .startIfNeed) trivial
    (.call rfl nofun nofun nofun)
  have hinsert := hother.snoc (i := 0) (a := .insertRecord someRow someData) trivial
    (@Step.insertRecord _ _ _ _ _ [some [104]] ⟨rfl, rfl, rfl⟩ rfl (.cons (List.mem_cons_self) .nil))
  have hsecond := hinsert.snoc (i := 1) (a := .writeText ⟨1, .texts⟩ [105, 106])
    ⟨List.cons_ne_nil _ _, fun _ => rfl⟩ (.writeText rfl)
  have hlogged := hsecond.snoc (i := 0) (a := .call .logOperation) trivial
    (.call rfl nofun nofun nofun)
  have hinserted := hlogged.snoc (i := 1)
    (a := .insertRecord ⟨1, ⟨1, 1⟩⟩ (int32Bytes 2 ++ [0])) trivial
    (@Step.insertRecord _ _ _ _ _ [some [105, 106]] ⟨rfl, rfl, rfl⟩ rfl
      (.cons (List.mem_cons_self) .nil))
  have hcommit := hinserted.snoc (i := 0) (a := .call .commit) trivial
    (.call rfl nofun nofun nofun)
  have hlogged' := hcommit.snoc (i := 1) (a := .call .logOperation) trivial
    (.call rfl nofun nofun nofun)
  have hstamp := hlogged'.snoc (i := 0) (a := .call .commitOperation) trivial
    (.call rfl nofun nofun nofun)
  have hrollback := hstamp.snoc (i := 1) (a := .call .rollback) trivial
    (.call rfl nofun nofun nofun)
  have hundone := hrollback.snoc (i := 1) (a := .call .rollbackOperation) trivial
    (.call rfl nofun nofun nofun)
  exact ⟨_, _, hundone, textsHeld_of_run hundone, rfl⟩

/-- A transaction that reads while another one deletes a record goes on seeing it, and its text is
gone. -/
theorem not_textsHeld_of_run_delete : ¬∀ columns actions s,
    Run (fun _ _ => True) (create columns) actions s → s.TextsHeld := by
  intro h
  have hstart : Run (fun _ _ => True) (create oneColumn) [(0, .call .startIfNeed)] _ :=
    (Run.nil _).snoc trivial (.call rfl nofun nofun nofun)
  have hwrite := hstart.snoc (i := 0) (a := .writeText ⟨1, .texts⟩ [104]) trivial (.writeText rfl)
  have hinsert := hwrite.snoc (i := 0) (a := .insertRecord someRow someData) trivial
    (@Step.insertRecord _ _ _ _ _ [some [104]] ⟨rfl, rfl, rfl⟩ rfl (.cons (List.mem_cons_self) .nil))
  have hlogged := hinsert.snoc (i := 0) (a := .call .logOperation) trivial
    (.call rfl nofun nofun nofun)
  have hcommit := hlogged.snoc (i := 0) (a := .call .commit) trivial (.call rfl nofun nofun nofun)
  have hstamp := hcommit.snoc (i := 0) (a := .call .commitOperation) trivial
    (.call rfl nofun nofun nofun)
  have hfinish := hstamp.snoc (i := 0) (a := .call .finishCommit) trivial
    (.call rfl nofun nofun nofun)
  have hreader := hfinish.snoc (i := 2) (a := .call .startIfNeed) trivial
    (.call rfl nofun nofun nofun)
  have hdeleter := hreader.snoc (i := 1) (a := .call .startIfNeed) trivial
    (.call rfl nofun nofun nofun)
  have hcollect := hdeleter.snoc (i := 1) (a := .collect someRow) trivial
    (.collect ⟨rfl, rfl⟩ rfl rfl)
  have hdelete := hcollect.snoc (i := 1) (a := .call (.deleteRecord someRow)) trivial
    (.call rfl nofun nofun nofun)
  have hdeleted := hdelete.snoc (i := 1) (a := .call .logOperation) trivial
    (.call rfl nofun nofun nofun)
  have hfree := hdeleted.snoc (i := 1) (a := .deleteText ⟨1, .texts⟩ 1) trivial
    (@Step.deleteText _ _ _ _ (fun _ => ⟨false, 0, []⟩) _ _ (List.mem_cons_self) rfl)
  cases h _ _ _ hfree 2 someRow _ .readOnly rfl rfl rfl with
  | cons hvalue _ => exact absurd (TextFile.Chain.allocated hvalue.1).2 Bool.false_ne_true

end TextDb

end ObHtap.Mvcc
