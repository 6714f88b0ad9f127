import Mathlib.Data.List.Induction
import ObHtap.Library.Replay
import ObHtap.Trx.MvccEffect

/-!
# The replay of the log of transactions

A crash leaves a prefix of the log and, of every page, an image that has seen some of its entries.
`recover` replays the prefix and rolls the transactions back that the replayer has in its map.
-/

namespace ObHtap.Mvcc

/-! ## Pages -/

structure PageId where
  tableId : Int
  pageNum : Int
  deriving DecidableEq

def RowId.page (row : RowId) : PageId := ⟨row.tableId, row.rid.pageNum⟩

/-- The records of all pages, and the LSN of each page. -/
structure Pages where
  records : RowId → Option Record
  lsn : PageId → Nat

namespace Pages

def empty : Pages := ⟨fun _ => none, fun _ => 0⟩

/-- A record is changed by an entry with this LSN. -/
def write (pages : Pages) (lsn : Nat) (ch : RecordChange) : Pages where
  records := Function.update pages.records ch.row ch.image
  lsn := Function.update pages.lsn ch.row.page lsn

def step (pages : Pages) : LogEntry × Nat → Pages
  | (.record ch, lsn) => pages.write lsn ch
  | (.trx _ _, _) => pages

/-- The pages when the log has been written; its entries have the LSNs 1, 2, and so on. -/
def after (log : List LogEntry) : Pages := (log.zipIdx 1).foldl step empty

/-- What is on disk of each page has seen so many entries of the log. -/
def image (log : List LogEntry) (seen : PageId → Nat) : Pages where
  records row := (after (log.take (seen row.page))).records row
  lsn page := (after (log.take (seen page))).lsn page

end Pages

/-! ## The replay -/

/-- What the replayers work on: the tables that are open, the pages, the id counter, and
`trx_map_` with the operations of its transactions. -/
structure Recovery where
  tables : Int → Bool
  pages : Pages
  currentTrxId : Int
  trxMap : List (Int × List Operation)

namespace Recovery

/-- `RecordLogReplayer::replay`.  A record takes the slot that it took before the crash. -/
def replayRecord (r : Recovery) (lsn : Nat) (ch : RecordChange) : Except Fault Recovery :=
  if r.tables ch.row.tableId then
    if lsn ≤ r.pages.lsn ch.row.page then .ok r
    else .ok { r with pages := r.pages.write lsn ch }
  else .error (.rc .internal)

/-- `MvccTrx::redo` with `find_table`. -/
def redo (tables : Int → Bool) (operations : List Operation) :
    MvccTrxLogOperation → Except Fault (List Operation)
  | .insertRecord row =>
    if tables row.tableId then .ok (operations ++ [⟨.insert, row⟩])
    else .error (.rc .schemaTableNotExist)
  | .deleteRecord row =>
    if tables row.tableId then .ok (operations ++ [⟨.delete, row⟩])
    else .error (.rc .schemaTableNotExist)
  | .commit _ => .ok operations
  | .rollback => .ok operations
  | .updateRecord _ => .error .abort

/-- `trx_map_` behind the redo of an entry.  A transaction that is not in the map has been made by
`create_trx`, and nothing puts it there. -/
def setOperations (trxMap : List (Int × List Operation)) (trxId : Int)
    (operations : List Operation) : MvccTrxLogOperation → List (Int × List Operation)
  | .commit _ | .rollback => trxMap.filter fun pair => pair.1 ≠ trxId
  | _ => trxMap.map fun pair => if pair.1 = trxId then (trxId, operations) else pair

/-- `MvccTrxLogReplayer::replay`. -/
def replayTrx (r : Recovery) (trxId : Int) (op : MvccTrxLogOperation) : Except Fault Recovery :=
  let found := r.trxMap.lookup trxId
  match redo r.tables (found.getD []) op with
  | .error e => .error e
  | .ok operations =>
    .ok { r with
      currentTrxId := if found.isNone ∧ r.currentTrxId < trxId then trxId else r.currentTrxId
      trxMap := setOperations r.trxMap trxId operations op }

/-- `IntegratedLogReplayer::replay`. -/
def replayEntry : LogEntry × Nat → Recovery → Except Fault Recovery
  | (.record ch, lsn), r => r.replayRecord lsn ch
  | (.trx trxId op, _), r => r.replayTrx trxId op

/-- One operation in the loop of `rollback` when `recovering_` is set. -/
def rollbackOperation (trxId : Int) (records : RowId → Option Record) (operation : Operation) :
    Except Fault (RowId → Option Record) :=
  match operation.type, records operation.row with
  | .insert, none => .ok records
  | .insert, some record =>
    if record.beginXid ≠ -trxId then .ok records
    else .ok (Function.update records operation.row none)
  | .delete, none => .error .abort
  | .delete, some record =>
    if record.endXid ≠ -trxId then .ok records
    else .ok (Function.update records operation.row (some { record with endXid := maxTrxId }))

/-- `MvccTrxLogReplayer::on_done`. -/
def onDone (r : Recovery) : Except Fault Recovery := do
  let records ← r.trxMap.foldlM
    (fun records pair => pair.2.reverse.foldlM (rollbackOperation pair.1) records) r.pages.records
  return { r with pages := { r.pages with records }, trxMap := [] }

end Recovery

/-- `Db::recover` of a new process that finds the log and the images of the pages. -/
def recover (tables : Int → Bool) (log : List LogEntry) (seen : PageId → Nat) :
    Except Fault Recovery := do
  let r ← replay Recovery.replayEntry (log.zipIdx 1) ⟨tables, Pages.image log seen, 0, []⟩
  r.onDone

/-! ## What a replay leads to -/

namespace Pages

variable {log : List LogEntry} {ch : RecordChange} {m n : Nat}

theorem write_records (pages : Pages) (lsn : Nat) (ch : RecordChange) (row : RowId) :
    (pages.write lsn ch).records row = if row = ch.row then ch.image else pages.records row :=
  Function.update_apply pages.records ch.row ch.image row

theorem write_lsn (pages : Pages) (lsn : Nat) (ch : RecordChange) (page : PageId) :
    (pages.write lsn ch).lsn page = if page = ch.row.page then lsn else pages.lsn page :=
  Function.update_apply pages.lsn ch.row.page lsn page

theorem after_concat (log : List LogEntry) (e : LogEntry) :
    after (log ++ [e]) = (after log).step (e, log.length + 1) := by
  rw [after, List.zipIdx_append, List.foldl_append, ← after, Nat.add_comm]
  rfl

theorem after_take_succ (hn : n < log.length) :
    after (log.take (n + 1)) = (after (log.take n)).step (log[n], n + 1) := by
  rw [List.take_succ_eq_append_getElem hn, after_concat, List.length_take_of_le (Nat.le_of_lt hn)]

theorem lsn_le (log : List LogEntry) (page : PageId) : (after log).lsn page ≤ log.length := by
  induction log using List.reverseRecOn with
  | nil => exact Nat.le_refl 0
  | append_singleton log e ih =>
    rw [after_concat, List.length_append, List.length_singleton]
    cases e with
    | trx => exact Nat.le_succ_of_le ih
    | record ch =>
      rw [step, write_lsn]
      split_ifs
      · exact Nat.le_refl _
      · exact Nat.le_succ_of_le ih

theorem lsn_take_le (log : List LogEntry) (page : PageId) (n : Nat) :
    (after (log.take n)).lsn page ≤ n :=
  (lsn_le (log.take n) page).trans (List.length_take_le n log)

theorem lsn_take_mono (log : List LogEntry) (page : PageId) (hmn : m ≤ n) :
    (after (log.take m)).lsn page ≤ (after (log.take n)).lsn page := by
  induction n, hmn using Nat.le_induction with
  | base => exact Nat.le_refl _
  | succ n hmn ih =>
    apply ih.trans
    by_cases hn : n < log.length
    · rw [after_take_succ hn]
      cases log[n] with
      | trx => exact Nat.le_refl _
      | record ch =>
        rw [step, write_lsn]
        split_ifs
        · exact (lsn_take_le log page n).trans (Nat.le_succ n)
        · exact Nat.le_refl _
    · have hlength := Nat.le_of_not_lt hn
      rw [List.take_of_length_le hlength, List.take_of_length_le (Nat.le_succ_of_le hlength)]

/-- A page has seen an entry of its own just when its LSN says so. -/
theorem image_lsn_iff (hn : n < log.length) (hentry : log[n] = .record ch)
    (seen : PageId → Nat) :
    n + 1 ≤ (image log fun page => max n (seen page)).lsn ch.row.page ↔
      n + 1 ≤ seen ch.row.page := by
  constructor
  · intro hle
    by_contra hlt
    have := lsn_take_le log ch.row.page (max n (seen ch.row.page))
    simp only [image] at hle
    omega
  · intro hle
    have hlsn : (after (log.take (n + 1))).lsn ch.row.page = n + 1 := by
      rw [after_take_succ hn, hentry, step, write_lsn, if_pos rfl]
    have := lsn_take_mono log ch.row.page (hle.trans (Nat.le_max_right n _))
    rw [hlsn] at this
    exact this

/-- An entry of the log that the images have not seen brings them to the next entry. -/
theorem image_step (hn : n < log.length) (hentry : log[n] = .record ch) (seen : PageId → Nat) :
    (image log fun page => max (n + 1) (seen page)) =
      if n + 1 ≤ seen ch.row.page then image log fun page => max n (seen page)
      else (image log fun page => max n (seen page)).write (n + 1) ch := by
  have hseen : ∀ page, n + 1 ≤ seen page → max (n + 1) (seen page) = max n (seen page) := by
    intro page hle
    omega
  have hbehind : ∀ page, ¬n + 1 ≤ seen page →
      after (log.take (max (n + 1) (seen page))) =
        (after (log.take (max n (seen page)))).write (n + 1) ch := by
    intro page hle
    rw [Nat.max_eq_left (by omega), Nat.max_eq_left (by omega), after_take_succ hn, hentry, step]
  have hrow : ∀ {row : RowId}, row.page ≠ ch.row.page → row ≠ ch.row := by
    rintro row hne rfl
    exact hne rfl
  split_ifs with hle
  · simp only [image, Pages.mk.injEq]
    constructor
    · funext row
      by_cases hpage : n + 1 ≤ seen row.page
      · rw [hseen _ hpage]
      · rw [hbehind _ hpage, write_records, if_neg]
        exact hrow fun heq => hpage (heq ▸ hle)
    · funext page
      by_cases hpage : n + 1 ≤ seen page
      · rw [hseen _ hpage]
      · rw [hbehind _ hpage, write_lsn, if_neg]
        exact fun heq => hpage (heq ▸ hle)
  · simp only [image, write, Pages.mk.injEq]
    constructor
    · funext row
      rw [Function.update_apply]
      by_cases hpage : n + 1 ≤ seen row.page
      · rw [hseen _ hpage, if_neg]
        exact hrow fun heq => hle (heq ▸ hpage)
      · rw [hbehind _ hpage, write_records]
    · funext page
      rw [Function.update_apply]
      by_cases hpage : n + 1 ≤ seen page
      · rw [hseen _ hpage, if_neg]
        exact fun heq => hle (heq ▸ hpage)
      · rw [hbehind _ hpage, write_lsn]

theorem image_step_trx {trxId : Int} {op : MvccTrxLogOperation} (hn : n < log.length)
    (hentry : log[n] = .trx trxId op) (seen : PageId → Nat) :
    (image log fun page => max (n + 1) (seen page)) = image log fun page => max n (seen page) := by
  have hsame : ∀ page, after (log.take (max (n + 1) (seen page))) =
      after (log.take (max n (seen page))) := by
    intro page
    by_cases hpage : n + 1 ≤ seen page
    · rw [Nat.max_eq_right hpage, Nat.max_eq_right (by omega)]
    · rw [Nat.max_eq_left (by omega), Nat.max_eq_left (by omega), after_take_succ hn, hentry, step]
  simp only [image, hsame]

theorem image_all (log : List LogEntry) (seen : PageId → Nat) :
    (image log fun page => max log.length (seen page)) = after log := by
  have hall : ∀ page, log.take (max log.length (seen page)) = log :=
    fun page => List.take_of_length_le (Nat.le_max_left _ _)
  simp only [image, hall]

end Pages

/-! ## The end of a replay -/

/-- The largest id of a transaction in the entries of the module `TRANSACTION`, from `x` on. -/
def counter (x : Int) (log : List LogEntry) : Int :=
  log.foldl (fun x e =>
    match e with
    | .trx trxId _ => if x < trxId then trxId else x
    | .record _ => x) x

/-- The tables of the entries are open, and no entry is one of `update_record`. -/
def Replayable (tables : Int → Bool) : LogEntry → Prop
  | .record ch => tables ch.row.tableId = true
  | .trx _ (.insertRecord row) => tables row.tableId = true
  | .trx _ (.deleteRecord row) => tables row.tableId = true
  | .trx _ (.updateRecord _) => False
  | .trx _ _ => True

theorem replayTrx_of_replayable {tables : Int → Bool} {pages : Pages} {x trxId : Int}
    {op : MvccTrxLogOperation} (h : Replayable tables (.trx trxId op)) :
    Recovery.replayTrx ⟨tables, pages, x, []⟩ trxId op =
      .ok ⟨tables, pages, if x < trxId then trxId else x, []⟩ := by
  cases op with
  | insertRecord row | deleteRecord row =>
    have htable : tables row.tableId = true := h
    simp [Recovery.replayTrx, Recovery.redo, Recovery.setOperations, htable]
  | updateRecord => exact h.elim
  | commit | rollback => simp [Recovery.replayTrx, Recovery.redo, Recovery.setOperations]

theorem replay_suffix {tables : Int → Bool} {log : List LogEntry} (seen : PageId → Nat)
    (hlog : ∀ e ∈ log, Replayable tables e) (before rest : List LogEntry)
    (hsplit : log = before ++ rest) (x : Int) :
    replay Recovery.replayEntry (rest.zipIdx (before.length + 1))
        ⟨tables, Pages.image log fun page => max before.length (seen page), x, []⟩ =
      .ok ⟨tables, Pages.after log, counter x rest, []⟩ := by
  induction rest generalizing before x with
  | nil =>
    rw [List.append_nil] at hsplit
    subst hsplit
    rw [Pages.image_all]
    rfl
  | cons e rest ih =>
    have hn : before.length < log.length := by
      rw [hsplit, List.length_append, List.length_cons]
      omega
    have hentry : log[before.length] = e := by
      simp [hsplit]
    have hmem : e ∈ log := hentry ▸ List.getElem_mem hn
    have hnext := ih (before ++ [e]) (by rw [hsplit, List.append_assoc]; rfl)
    rw [List.length_append, List.length_singleton] at hnext
    rw [List.zipIdx_cons, replay]
    cases e with
    | record ch =>
      have htable : tables ch.row.tableId = true := hlog _ hmem
      rw [Pages.image_step hn hentry] at hnext
      simp only [Recovery.replayEntry, Recovery.replayRecord, if_pos htable,
        Pages.image_lsn_iff hn hentry]
      split_ifs at hnext ⊢ with hle
      · exact hnext x
      · exact hnext x
    | trx trxId op =>
      rw [Pages.image_step_trx hn hentry] at hnext
      simp only [Recovery.replayEntry, replayTrx_of_replayable (hlog _ hmem)]
      exact hnext _

/-- Without an entry of `update_record` the recovery leads to the records at the end of the log,
whatever the pages have seen.  The map of the replayer stays empty, so that nothing is rolled
back. -/
theorem recover_eq {tables : Int → Bool} {log : List LogEntry} (seen : PageId → Nat)
    (hlog : ∀ e ∈ log, Replayable tables e) :
    recover tables log seen = .ok ⟨tables, Pages.after log, counter 0 log, []⟩ := by
  have hreplay := replay_suffix seen hlog [] log rfl 0
  simp only [List.length_nil, Nat.zero_add, Nat.zero_max] at hreplay
  rw [recover, hreplay]
  rfl

end ObHtap.Mvcc
