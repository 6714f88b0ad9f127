import ObHtap.Trx.MvccStamps
import ObHtap.Trx.MvccTrxLog

/-!
# What the log says about the records

The rows that committed transactions have made can be read off the log.  The fields of a record
name the transactions of its insertion and deletion, by their own ids or by those of their commits.
-/

namespace ObHtap.Mvcc

/-- The operation is the last one of its transaction. -/
def MvccTrxLogOperation.ends : MvccTrxLogOperation → Prop
  | .commit _ | .rollback => True
  | _ => False

/-! ## The committed rows -/

def LogEntry.commits (trxId : Int) : LogEntry → Bool
  | .trx trxId' (.commit _) => trxId' = trxId
  | _ => false

/-- The log has the COMMIT entry of the transaction. -/
def Committed (log : List LogEntry) (trxId : Int) : Bool := log.any (LogEntry.commits trxId)

/-- One change of a record, if its transaction is in the set.  An insertion has the id of its
transaction at the begin of the record, a deletion has it at the end. -/
def applyEntry (committed : Int → Bool) (table : RowId → Option (List UInt8)) :
    LogEntry → RowId → Option (List UInt8)
  | .record (.insert row record) =>
    if committed (-record.beginXid) then Function.update table row (some record.data) else table
  | .record (.update row record) =>
    if committed (-record.endXid) then Function.update table row none else table
  | _ => table

/-- The rows that the insertions and deletions of these transactions lead to. -/
def tableOf (committed : Int → Bool) (log : List LogEntry) : RowId → Option (List UInt8) :=
  log.foldl (applyEntry committed) fun _ => none

/-- All changes of the transactions that the log has a COMMIT entry of, and no others. -/
def committedTable (log : List LogEntry) : RowId → Option (List UInt8) :=
  tableOf (Committed log) log

theorem committed_iff {log : List LogEntry} {trxId : Int} :
    Committed log trxId = true ↔ ∃ commitXid, .trx trxId (.commit commitXid) ∈ log := by
  rw [Committed, List.any_eq_true]
  constructor
  · rintro ⟨e, hmem, he⟩
    unfold LogEntry.commits at he
    split at he
    · rename_i trxId' commitXid
      obtain rfl := of_decide_eq_true he
      exact ⟨commitXid, hmem⟩
    · cases he
  · rintro ⟨commitXid, hmem⟩
    exact ⟨_, hmem, decide_eq_true rfl⟩

section Table

variable {committed : Int → Bool} {log : List LogEntry} {row : RowId}

theorem tableOf_concat (committed : Int → Bool) (log : List LogEntry) (e : LogEntry) :
    tableOf committed (log ++ [e]) = applyEntry committed (tableOf committed log) e := by
  rw [tableOf, List.foldl_append]
  rfl

theorem tableOf_concat_of_ne {ch : RecordChange} (h : row ≠ ch.row) :
    tableOf committed (log ++ [.record ch]) row = tableOf committed log row := by
  rw [tableOf_concat]
  cases ch with
  | insert row' record | update row' record =>
    simp only [applyEntry]
    split_ifs
    · exact Function.update_of_ne h _ _
    · rfl
  | delete row' => rfl

theorem tableOf_insert (record : Record) :
    tableOf committed (log ++ [.record (.insert row record)]) row =
      if committed (-record.beginXid) then some record.data else tableOf committed log row := by
  rw [tableOf_concat, applyEntry]
  split_ifs
  · exact Function.update_self _ _ _
  · rfl

theorem tableOf_update (record : Record) :
    tableOf committed (log ++ [.record (.update row record)]) row =
      if committed (-record.endXid) then none else tableOf committed log row := by
  rw [tableOf_concat, applyEntry]
  split_ifs
  · exact Function.update_self _ _ _
  · rfl

theorem tableOf_delete :
    tableOf committed (log ++ [.record (.delete row)]) row = tableOf committed log row := by
  rw [tableOf_concat]
  rfl

theorem tableOf_trx (trxId : Int) (op : MvccTrxLogOperation) :
    tableOf committed (log ++ [.trx trxId op]) row = tableOf committed log row := by
  rw [tableOf_concat]
  rfl

end Table

namespace Db

variable {s s' : Db} {i j : Nat} {c : Call} {row : RowId} {record : Record}

/-! ## The entries of transactions -/

/-- The commit of a transaction has drawn this id. -/
def CommitOf (s : Db) (trxId commitXid : Int) : Prop :=
  .trx trxId (.commit commitXid) ∈ s.log ∨
    ∃ j rest, (s.trxes j).trxId = trxId ∧ (s.trxes j).phase = .committing commitXid rest

/-- A transaction is being rolled back or has been. -/
def RolledBack (s : Db) (trxId : Int) : Prop :=
  .trx trxId .rollback ∈ s.log ∨
    ∃ j rest, (s.trxes j).trxId = trxId ∧ (s.trxes j).phase = .rollingBack rest

/-- A COMMIT without a transaction, which names the last one of the object, does not follow the
ROLLBACK of that one. -/
def CommitsOwn (s : Db) (c : Nat × Call) : Prop :=
  c.2 = .commit → (s.trxes c.1).started = false →
    .trx (s.trxes c.1).trxId .rollback ∉ s.log

instance (s : Db) (c : Nat × Call) : Decidable (CommitsOwn s c) := by
  unfold CommitsOwn
  infer_instance

theorem Effect.log (heffect : Effect s i c s') : s'.log = s.log ∨ ∃ e, s'.log = s.log ++ [e] := by
  cases heffect with
  | idle | start | scan | commit | rollback => exact Or.inl rfl
  | _ => exact Or.inr ⟨_, rfl⟩

theorem Effect.mem_log (heffect : Effect s i c s') {e : LogEntry} (hmem : e ∈ s.log) :
    e ∈ s'.log := by
  rcases heffect.log with hlog | ⟨e', hlog⟩
  · rwa [hlog]
  · rw [hlog]
    exact List.mem_append_left _ hmem

/-- Where an entry of the module `TRANSACTION` comes from. -/
theorem Effect.trx_entry (heffect : Effect s i c s') {trxId : Int} {op : MvccTrxLogOperation}
    (hmem : .trx trxId op ∈ s'.log) : .trx trxId op ∈ s.log ∨
      trxId = (s.trxes i).trxId ∧ 0 < trxId ∧
        ((∃ operation, (s.trxes i).phase = .logging op operation) ∨
          ((s'.trxes i).started = (s.trxes i).started ∧ (s'.trxes i).phase = .running ∧
            (s'.trxes i).pending = [] ∧ ((∃ commitXid, op = .commit commitXid ∧
              (s.trxes i).phase = .committing commitXid []) ∨ op = .rollback ∧ (s.trxes i).phase = .rollingBack []))) := by
  have hold : ∀ {ch}, LogEntry.trx trxId op ∈ s.log ++ [.record ch] → .trx trxId op ∈ s.log := by
    intro ch hmem
    simpa using hmem
  cases heffect with
  | idle | start | scan | commit | rollback => exact Or.inl hmem
  | insert | delete | update | commitInsert | commitDelete | undoInsert | undoDelete =>
    exact Or.inl (hold hmem)
  | @logged entry operation hphase hpos =>
    rcases List.mem_append.mp hmem with hmem | hmem
    · exact Or.inl hmem
    · obtain ⟨rfl, rfl⟩ := LogEntry.trx.inj (List.mem_singleton.mp hmem)
      exact Or.inr ⟨rfl, hpos, Or.inl ⟨operation, hphase⟩⟩
  | @committed commitXid hphase hpos =>
    rcases List.mem_append.mp hmem with hmem | hmem
    · exact Or.inl hmem
    · obtain ⟨rfl, rfl⟩ := LogEntry.trx.inj (List.mem_singleton.mp hmem)
      rw [setTrx_trxes_self]
      exact Or.inr ⟨rfl, hpos, Or.inr ⟨rfl, rfl, rfl, Or.inl ⟨commitXid, rfl, hphase⟩⟩⟩
  | rolledBack hphase hpos =>
    rcases List.mem_append.mp hmem with hmem | hmem
    · exact Or.inl hmem
    · obtain ⟨rfl, rfl⟩ := LogEntry.trx.inj (List.mem_singleton.mp hmem)
      rw [setTrx_trxes_self]
      exact Or.inr ⟨rfl, hpos, Or.inr ⟨rfl, rfl, rfl, Or.inr ⟨rfl, hphase⟩⟩⟩

/-- An object keeps its id, or it starts a transaction. -/
theorem Effect.trxId (heffect : Effect s i c s') (j : Nat) :
    (s'.trxes j).trxId = (s.trxes j).trxId ∨
      j = i ∧ (s.trxes i).phase = .running ∧ (s'.trxes j).trxId = nextTrxId s.currentTrxId := by
  by_cases hj : j = i
  swap
  · rw [heffect.other hj]
    exact Or.inl rfl
  subst hj
  cases heffect with
  | idle => exact Or.inl rfl
  | start hphase =>
    rw [setTrx_trxes_self]
    exact Or.inr ⟨rfl, hphase, rfl⟩
  | _ =>
    rw [setTrx_trxes_self]
    exact Or.inl rfl

/-- A transaction that has ended stays so until its object starts the next one. -/
theorem Effect.ended (heffect : Effect s i c s') (hid : (s'.trxes j).trxId = (s.trxes j).trxId)
    (hnew : (s.trxes j).trxId ≠ nextTrxId s.currentTrxId)
    (hstarted : (s.trxes j).started = false) (hpending : (s.trxes j).pending = []) :
    (s'.trxes j).started = false ∧ (s'.trxes j).pending = [] := by
  by_cases hj : j = i
  swap
  · rw [heffect.other hj]
    exact ⟨hstarted, hpending⟩
  subst hj
  cases heffect with
  | idle => exact ⟨hstarted, hpending⟩
  | start =>
    rw [setTrx_trxes_self] at hid
    exact absurd hid.symm hnew
  | insert _ h | delete _ h | update _ h =>
    rw [h] at hstarted
    cases hstarted
  | logged h | commitInsert h | commitDelete h | undoInsert h | undoDelete h =>
    simp [MvccTrx.pending, h] at hpending
  | scan =>
    rw [setTrx_trxes_self]
    exact ⟨hstarted, hpending⟩
  | commit h | rollback h =>
    rw [setTrx_trxes_self]
    exact ⟨rfl, by simpa [MvccTrx.pending, h] using hpending⟩
  | committed | rolledBack =>
    rw [setTrx_trxes_self]
    exact ⟨hstarted, rfl⟩

theorem CommitOf.effect {trxId commitXid : Int} (hcommit : s.CommitOf trxId commitXid)
    (heffect : Effect s i c s') : s'.CommitOf trxId commitXid := by
  rcases hcommit with hmem | ⟨j, rest, hid, hphase⟩
  · exact Or.inl (heffect.mem_log hmem)
  by_cases hj : j = i
  swap
  · exact Or.inr ⟨j, rest, by rw [heffect.other hj, hid], by rw [heffect.other hj, hphase]⟩
  subst hj
  have hno : ∀ {phase : Phase}, (s.trxes j).phase = phase →
      (∀ commitXid rest, phase ≠ .committing commitXid rest) → False := by
    intro phase heq hne
    exact hne _ _ (heq.symm.trans hphase)
  cases heffect with
  | idle => exact Or.inr ⟨j, rest, hid, hphase⟩
  | start h | scan h | insert h | delete h | update h | logged h | commit h | rollback h
  | undoInsert h | undoDelete h | rolledBack h => exact (hno h (by simp)).elim
  | @commitInsert _ _ rest' _ h | @commitDelete _ _ rest' _ h =>
    obtain ⟨rfl, rfl⟩ := Phase.committing.inj (h.symm.trans hphase)
    refine Or.inr ⟨j, rest', ?_, ?_⟩
    · rw [setTrx_trxes_self, hid]
    · rw [setTrx_trxes_self]
  | committed h =>
    obtain ⟨rfl, rfl⟩ := Phase.committing.inj (h.symm.trans hphase)
    left
    rw [hid]
    exact List.mem_append_right _ (List.mem_singleton_self _)

/-- A commit id is drawn by a call of `commit`. -/
theorem Effect.commitOf (heffect : Effect s i c s') {trxId commitXid : Int}
    (hlogging : ∀ operation, (s.trxes i).phase ≠ .logging (.commit commitXid) operation)
    (hcommit : s'.CommitOf trxId commitXid) : s.CommitOf trxId commitXid ∨
      commitXid = nextTrxId s.currentTrxId ∧ s'.currentTrxId = nextTrxId s.currentTrxId ∧
        trxId = (s.trxes i).trxId := by
  rcases hcommit with hmem | ⟨j, rest, hid, hphase⟩
  · rcases heffect.trx_entry hmem with hmem | ⟨hid, _, hend⟩
    · exact Or.inl (Or.inl hmem)
    rcases hend with ⟨operation, hphase⟩ | ⟨_, _, _, ⟨commitXid', hop, hphase⟩ | ⟨hop, _⟩⟩
    · exact absurd hphase (hlogging operation)
    · cases hop
      exact Or.inl (Or.inr ⟨i, [], hid.symm, hphase⟩)
    · cases hop
  · by_cases hj : j = i
    swap
    · rw [heffect.other hj] at hid hphase
      exact Or.inl (Or.inr ⟨j, rest, hid, hphase⟩)
    subst hj
    obtain ⟨hid', _, hcases⟩ := heffect.committing hphase
    rw [hid'] at hid
    rcases hcases with hphase | ⟨rfl, hxid, _⟩ | ⟨op, _, _, hphase, _⟩
    · exact Or.inl (Or.inr ⟨j, rest, hid, hphase⟩)
    · cases heffect with
      | idle => exact Or.inl (Or.inr ⟨j, rest, hid, hphase⟩)
      | commit => exact Or.inr ⟨hxid, rfl, hid.symm⟩
    · exact Or.inl (Or.inr ⟨j, op :: rest, hid, hphase⟩)

theorem RolledBack.effect {trxId : Int} (h : s.RolledBack trxId) (heffect : Effect s i c s') :
    s'.RolledBack trxId := by
  rcases h with hmem | ⟨j, rest, hid, hphase⟩
  · exact Or.inl (heffect.mem_log hmem)
  by_cases hj : j = i
  swap
  · exact Or.inr ⟨j, rest, by rw [heffect.other hj, hid], by rw [heffect.other hj, hphase]⟩
  subst hj
  have hno : ∀ {phase : Phase}, (s.trxes j).phase = phase →
      (∀ rest, phase ≠ .rollingBack rest) → False := by
    intro phase heq hne
    exact hne _ (heq.symm.trans hphase)
  cases heffect with
  | idle => exact Or.inr ⟨j, rest, hid, hphase⟩
  | start h | scan h | insert h | delete h | update h | logged h | commit h | rollback h
  | commitInsert h | commitDelete h | committed h => exact (hno h (by simp)).elim
  | @undoInsert _ rest' _ h | @undoDelete _ rest' _ h =>
    refine Or.inr ⟨j, rest', ?_, ?_⟩
    · rw [setTrx_trxes_self, hid]
    · rw [setTrx_trxes_self]
  | rolledBack h =>
    left
    rw [← hid]
    exact List.mem_append_right _ (List.mem_singleton_self _)

theorem Effect.currentTrxId_le (heffect : Effect s i c s') (h : Ids s) :
    s.currentTrxId ≤ s'.currentTrxId := by
  have hnext := nextTrxId_of_lt h.short
  cases heffect with
  | start | commit =>
    rw [setTrx_currentTrxId, draw_currentTrxId]
    omega
  | _ => exact Int.le_refl _

/-- A transaction that is being committed or rolled back is not started. -/
theorem Effect.leaving (heffect : Effect s i c s')
    (hover : ∀ i, (∃ commitXid rest, (s.trxes i).phase = .committing commitXid rest) ∨
      (∃ rest, (s.trxes i).phase = .rollingBack rest) → (s.trxes i).started = false) (j : Nat)
    (hphase : (∃ commitXid rest, (s'.trxes j).phase = .committing commitXid rest) ∨
      ∃ rest, (s'.trxes j).phase = .rollingBack rest) : (s'.trxes j).started = false := by
  by_cases hj : j = i
  swap
  · rw [heffect.other hj] at hphase ⊢
    exact hover j hphase
  subst hj
  cases heffect with
  | idle => exact hover j hphase
  | commit | rollback => rw [setTrx_trxes_self]
  | commitInsert h | commitDelete h =>
    rw [setTrx_trxes_self]
    exact hover j (Or.inl ⟨_, _, h⟩)
  | undoInsert h | undoDelete h =>
    rw [setTrx_trxes_self]
    exact hover j (Or.inr ⟨_, h⟩)
  | start h | scan h =>
    rw [setTrx_trxes_self] at hphase
    simp [h] at hphase
  | _ =>
    rw [setTrx_trxes_self] at hphase
    simp at hphase

/-! ## The invariant of the log -/

/-- The entries of the module `TRANSACTION` say what has become of the transactions. -/
structure Logged (s : Db) : Prop where
  ids : ∀ trxId op, .trx trxId op ∈ s.log → 0 < trxId ∧ trxId ≤ s.currentTrxId
  no_update : ∀ trxId row, .trx trxId (.updateRecord row) ∉ s.log
  logging : ∀ i op operation, (s.trxes i).phase = .logging op operation →
    ∃ row, op = .insertRecord row ∨ op = .deleteRecord row
  leaving : ∀ i, (∃ commitXid rest, (s.trxes i).phase = .committing commitXid rest) ∨
    (∃ rest, (s.trxes i).phase = .rollingBack rest) → (s.trxes i).started = false
  ended : ∀ i op, .trx (s.trxes i).trxId op ∈ s.log → op.ends →
    (s.trxes i).started = false ∧ (s.trxes i).pending = []
  committing : ∀ i commitXid rest, (s.trxes i).phase = .committing commitXid rest →
    .trx (s.trxes i).trxId .rollback ∉ s.log
  commit_le : ∀ trxId commitXid, s.CommitOf trxId commitXid → commitXid ≤ s.currentTrxId
  commit_inj : ∀ trxId trxId' commitXid, s.CommitOf trxId commitXid →
    s.CommitOf trxId' commitXid → trxId = trxId'

namespace Logged

theorem create : Logged create where
  ids _ _ h := nomatch h
  no_update _ _ h := nomatch h
  logging _ _ _ h := nomatch h
  leaving _ h := by simp [Db.create] at h
  ended _ _ h := nomatch h
  committing _ _ _ h := nomatch h
  commit_le _ _ h := by simp [CommitOf, Db.create] at h
  commit_inj _ _ _ h := by simp [CommitOf, Db.create] at h

theorem effect (hlogged : Logged s) (h : Inv s) (hplain : s.Plain (i, c))
    (hown : s.CommitsOwn (i, c)) (heffect : Effect s i c s') : Logged s' := by
  have hle := heffect.currentTrxId_le h.ids
  have hnext := nextTrxId_of_lt h.ids.short
  have hcommitOf : ∀ trxId commitXid, s'.CommitOf trxId commitXid →
      s.CommitOf trxId commitXid ∨ commitXid = s.currentTrxId + 1 ∧
        s'.currentTrxId = s.currentTrxId + 1 ∧ trxId = (s.trxes i).trxId := by
    intro trxId commitXid hcommit
    rw [← hnext]
    apply heffect.commitOf _ hcommit
    intro operation hphase
    obtain ⟨row, hop | hop⟩ := hlogged.logging _ _ _ hphase
    · cases hop
    · cases hop
  refine
    { ids := ?_
      no_update := ?_
      logging := ?_
      leaving := ?_
      ended := ?_
      committing := ?_
      commit_le := ?_
      commit_inj := ?_ }
  · intro trxId op hmem
    rcases heffect.trx_entry hmem with hmem | ⟨hid, hpos, _⟩
    · have := hlogged.ids trxId op hmem
      omega
    · have := h.ids.le i
      omega
  · intro trxId row hmem
    rcases heffect.trx_entry hmem with hmem | ⟨_, _, ⟨_, hphase⟩ |
      ⟨_, _, _, ⟨_, hop, _⟩ | ⟨hop, _⟩⟩⟩
    · exact hlogged.no_update trxId row hmem
    · obtain ⟨_, hop | hop⟩ := hlogged.logging _ _ _ hphase
      · cases hop
      · cases hop
    · cases hop
    · cases hop
  · intro j op operation hphase
    by_cases hj : j = i
    swap
    · exact hlogged.logging j op operation (heffect.other hj ▸ hphase)
    subst hj
    cases heffect with
    | idle => exact hlogged.logging j op operation hphase
    | update => exact hplain.elim
    | @insert row | @delete row =>
      rw [setTrx_trxes_self] at hphase
      cases hphase
      exact ⟨row, by simp⟩
    | start h | scan h =>
      rw [setTrx_trxes_self] at hphase
      simp [h] at hphase
    | _ =>
      rw [setTrx_trxes_self] at hphase
      cases hphase
  · exact heffect.leaving hlogged.leaving
  · intro j op hmem hends
    have hid := heffect.trxId j
    rcases heffect.trx_entry hmem with hmem | ⟨heq, hpos, hcases⟩
    · have hold := (hlogged.ids _ _ hmem).2
      obtain hid := hid.resolve_right fun hstart => by omega
      rw [hid] at hmem hold
      obtain ⟨hstarted, hpending⟩ := hlogged.ended j op hmem hends
      exact heffect.ended hid (by omega) hstarted hpending
    · obtain ⟨_, hphase⟩ | ⟨hstarted, _, hpending, hphase⟩ := hcases
      · obtain ⟨_, rfl | rfl⟩ := hlogged.logging _ _ _ hphase
        · exact hends.elim
        · exact hends.elim
      have hover : (s.trxes i).started = false := by
        apply hlogged.leaving
        rcases hphase with ⟨_, _, hphase⟩ | ⟨_, hphase⟩
        · exact Or.inl ⟨_, _, hphase⟩
        · exact Or.inr ⟨_, hphase⟩
      have hle := h.ids.le i
      obtain hid := hid.resolve_right fun hstart => by omega
      obtain rfl := h.ids.inj j i (by omega) (by omega)
      exact ⟨hstarted.trans hover, hpending⟩
  · intro j commitXid rest hphase hmem
    obtain ⟨hid, _, hcases⟩ := heffect.committing hphase
    rw [hid] at hmem
    rcases heffect.trx_entry hmem with hmem | ⟨heq, hpos, hend⟩
    · rcases hcases with hphase | ⟨rfl, _, _⟩ | ⟨_, _, _, hphase, _⟩
      · exact hlogged.committing j _ _ hphase hmem
      · by_cases hj : j = i
        · subst hj
          cases hstarted : (s.trxes j).started with
          | false => exact hown rfl hstarted hmem
          | true =>
            rw [(hlogged.ended j _ hmem trivial).1] at hstarted
            cases hstarted
        · exact hlogged.committing j _ _ (heffect.other hj ▸ hphase) hmem
      · exact hlogged.committing j _ _ hphase hmem
    · obtain rfl := h.ids.inj j i (by omega) heq
      rcases hend with ⟨_, hlogging⟩ | ⟨_, hrunning, _⟩
      · obtain ⟨_, hop | hop⟩ := hlogged.logging _ _ _ hlogging
        · cases hop
        · cases hop
      · rw [hphase] at hrunning
        cases hrunning
  · intro trxId commitXid hcommit
    rcases hcommitOf _ _ hcommit with hcommit | ⟨hxid, hcurrent, _⟩
    · exact (hlogged.commit_le _ _ hcommit).trans hle
    · omega
  · intro trxId trxId' commitXid hcommit hcommit'
    rcases hcommitOf _ _ hcommit with hcommit | ⟨hxid, _, hid⟩ <;>
      rcases hcommitOf _ _ hcommit' with hcommit' | ⟨hxid', _, hid'⟩
    · exact hlogged.commit_inj _ _ _ hcommit hcommit'
    · have := hlogged.commit_le _ _ hcommit
      omega
    · have := hlogged.commit_le _ _ hcommit'
      omega
    · exact hid.trans hid'.symm

end Logged

end Db

end ObHtap.Mvcc
