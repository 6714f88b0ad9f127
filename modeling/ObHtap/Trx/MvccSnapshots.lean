import ObHtap.Trx.MvccMarks
import ObHtap.Trx.MvccStamps

/-!
# Snapshots

A transaction reads the same records throughout, and it sees all changes of a commit or none of
them, as long as no transaction starts while a commit puts its id into the records, and only such
records are deleted as every transaction that runs sees.  The branch of `visit_record` for a record
that is being deleted does not look at its begin.
-/

namespace ObHtap.Mvcc

namespace Db

variable {s s' : Db} {i : Nat} {c : Call} {row : RowId} {record : Record}

/-! ## What a transaction sees -/

/-- A read of the transaction of the object finds the record. -/
def Sees (s : Db) (i : Nat) (row : RowId) : Prop :=
  s.visit (s.trxes i).trxId .readOnly row = .ok ()

/-- The object sees an operation.  An insertion shows in a record that is visible or would be so
if it were not deleted; a deletion shows where such a record is not visible. -/
def Shows (s : Db) (i : Nat) (op : Operation) : Prop :=
  ∃ record, s.records op.row = some record ∧
    visitRecord (s.trxes i).trxId .readOnly { record with endXid := maxTrxId } = .ok () ∧
    (op.type = .delete → ¬s.Sees i op.row)

/-- The calls that change the record at `row`, or may do so. -/
def Modifies (row : RowId) : Call → Prop
  | .insertRecord row' _ | .deleteRecord row' => row' = row
  | .updateRecord _ => True
  | _ => False

/-- The run has come to `s'`.  A transaction that has not ended since another point of the run
sees the records that it has not modified since then as it saw them there. -/
def ReadsStay (calls : List (Nat × Call)) (s' : Db) : Prop :=
  ∀ before between i s row, calls = before ++ between → before.foldlM call create = some s →
    (s.trxes i).started = true →
    (∀ c ∈ between, c.1 = i → c.2 ≠ .commit ∧ c.2 ≠ .rollback ∧ ¬Modifies row c.2) →
    (s.Sees i row ↔ s'.Sees i row)

/-- The run has come to `s'`.  A transaction that runs sees all changes of a transaction whose
commit has drawn its id, or none of them. -/
def CommitsWhole (calls : List (Nat × Call)) (s' : Db) : Prop :=
  ∀ before after i s, calls = before ++ (i, .commit) :: after →
    before.foldlM call create = some s → (s.trxes i).phase = .running →
    ∀ j, (s'.trxes j).started = true →
      (∀ op ∈ (s.trxes i).operations, s'.Shows j op) ∨
        ∀ op ∈ (s.trxes i).operations, ¬s'.Shows j op

/-! ## The conditions -/

/-- No transaction starts while a commit has records left. -/
def StartsApart (s : Db) (c : Nat × Call) : Prop :=
  c.2 = .startIfNeed → (s.trxes c.1).started = false →
    ∀ j commitXid rest, (s.trxes j).phase = .committing commitXid rest → rest = []

/-- A deletion meets a committed record that is not deleted, and that no transaction that runs is
too old to see. -/
def DeletesSeen (s : Db) (c : Nat × Call) : Prop :=
  OnDelete (fun record => 0 < record.beginXid ∧
    ¬(0 < record.endXid ∧ record.endXid ≠ maxTrxId) ∧
    ∀ j, (s.trxes j).started = true → record.beginXid ≤ (s.trxes j).trxId) s c

/-- The condition of a step. -/
structure Snapshot (s : Db) (c : Nat × Call) : Prop where
  plain : s.Plain c
  starts : StartsApart s c
  deletes : DeletesSeen s c

/-- A record that is deleted under the condition is visible to all transactions that run. -/
theorem DeletesSeen.facts (hdelete : DeletesSeen s (i, .deleteRecord row)) (h : Inv s)
    (hrecord : s.records row = some record)
    (hvisit : visitRecord (s.trxes i).trxId .readWrite record = .ok ()) :
    0 < record.beginXid ∧ record.beginXid ≤ (s.trxes i).trxId ∧ record.endXid = maxTrxId ∧
      ∀ j, (s.trxes j).started = true → record.beginXid ≤ (s.trxes j).trxId := by
  obtain ⟨hpos, hend, hshared⟩ := hdelete.apply hrecord hvisit
  rcases visitRecord_readWrite ((h.owned row).begin_ne hrecord).1 ((h.owned row).end_ne hrecord).1
    hvisit with ⟨hneg, _⟩ | ⟨_, hle, hge⟩
  · omega
  · refine ⟨hpos, hle, ?_, hshared⟩
    by_contra hmax
    exact hend ⟨by omega, hmax⟩

theorem DeletesSeen.new {c : Nat × Call} (hdelete : DeletesSeen s c) (h : Inv s) :
    DeletesNew s c := by
  obtain ⟨i, c⟩ := c
  apply OnDelete.intro
  rintro row record rfl hrecord hvisit hend
  obtain ⟨hpos, hle, hmax, _⟩ := hdelete.facts h hrecord hvisit
  have : 0 < maxTrxId := by decide
  simp only at hend
  omega

/-! ## The invariant -/

/-- The transactions that run see the records that are being deleted, and they are older than the
commits that have records left. -/
structure Shared (s : Db) : Prop where
  ended : ∀ i, (s.trxes i).started = true →
    (∀ commitXid rest, (s.trxes i).phase ≠ .committing commitXid rest) ∧
      ∀ rest, (s.trxes i).phase ≠ .rollingBack rest
  deleting : ∀ i row record, ⟨.delete, row⟩ ∈ (s.trxes i).pending →
    s.records row = some record → 0 < record.beginXid ∧
      ∀ j, (s.trxes j).started = true → record.beginXid ≤ (s.trxes j).trxId
  older : ∀ i j commitXid rest, (s.trxes i).phase = .committing commitXid rest →
    (s.trxes j).started = true → (s.trxes j).trxId < commitXid ∨ rest = []

namespace Shared

theorem create : Shared create where
  ended _ h := nomatch h
  deleting _ _ _ h := by simp [Db.create, MvccTrx.pending] at h
  older _ _ _ _ h := nomatch h

/-- A transaction that runs behind a call ran before it with the same id, or it has the newest
id. -/
theorem started (h : Inv s) (heffect : Effect s i c s') {j : Nat}
    (hj : (s'.trxes j).started = true) :
    ((s.trxes j).started = true ∧ (s'.trxes j).trxId = (s.trxes j).trxId) ∨
      (j = i ∧ c = .startIfNeed ∧ (s.trxes i).started = false ∧
        (s'.trxes j).trxId = s.currentTrxId + 1) := by
  by_cases hji : j = i
  · subst hji
    cases heffect with
    | idle => exact Or.inl ⟨hj, rfl⟩
    | start hphase hstarted hoperations =>
      right
      rw [setTrx_trxes_self]
      exact ⟨rfl, rfl, hstarted, nextTrxId_of_lt h.ids.short⟩
    | commit | rollback =>
      rw [setTrx_trxes_self] at hj
      cases hj
    | _ =>
      left
      rw [setTrx_trxes_self] at hj ⊢
      exact ⟨hj, rfl⟩
  · rw [heffect.other hji] at hj ⊢
    exact Or.inl ⟨hj, rfl⟩

theorem effect (hshared : Shared s) (h : Inv s)
    (hcond : s.Snapshot (i, c)) (heffect : Effect s i c s') : Shared s' where
  ended := by
    intro j hj
    by_cases hji : j = i
    · subst hji
      cases heffect with
      | idle => exact hshared.ended j hj
      | start hphase | scan hphase =>
        rw [setTrx_trxes_self]
        simp [hphase]
      | commit | rollback =>
        rw [setTrx_trxes_self] at hj
        cases hj
      | commitInsert hphase | commitDelete hphase =>
        rw [setTrx_trxes_self] at hj
        exact absurd hphase ((hshared.ended j hj).1 _ _)
      | undoInsert hphase | undoDelete hphase =>
        rw [setTrx_trxes_self] at hj
        exact absurd hphase ((hshared.ended j hj).2 _)
      | insert | delete | update | logged | committed | rolledBack =>
        rw [setTrx_trxes_self]
        simp
    · rw [heffect.other hji] at hj ⊢
      exact hshared.ended j hj
  deleting := by
    intro j row record hmem hrecord
    -- who runs is as young as before, or younger than all records
    have hyounger : ∀ {record}, s.records row = some record → 0 < record.beginXid →
        (∀ k, (s.trxes k).started = true → record.beginXid ≤ (s.trxes k).trxId) →
        ∀ k, (s'.trxes k).started = true → record.beginXid ≤ (s'.trxes k).trxId := by
      intro record hrecord hpos hall k hk
      rcases started h heffect hk with ⟨hk, hid⟩ | ⟨_, _, _, hid⟩
      · rw [hid]
        exact hall k hk
      · have := ((h.owned row).begin_ne hrecord).2
        omega
    rcases heffect.same_or_change hcond.plain with ⟨hrecords, hpending⟩ | ⟨ch, phase, rfl, hchange⟩
    · rw [(hpending j).1] at hmem
      rw [hrecords] at hrecord
      obtain ⟨hpos, hall⟩ := hshared.deleting j row record hmem hrecord
      exact ⟨hpos, hyounger hrecord hpos hall⟩
    have hold : ∀ record, s.records row = some record →
        ⟨.delete, row⟩ ∈ (s.trxes j).pending → 0 < record.beginXid ∧
          ∀ k, ((s.changed i ch phase).trxes k).started = true →
            record.beginXid ≤ ((s.changed i ch phase).trxes k).trxId := by
      intro record hrecord hmem
      obtain ⟨hpos, hall⟩ := hshared.deleting j row record hmem hrecord
      exact ⟨hpos, hyounger hrecord hpos hall⟩
    by_cases hrow : row = ch.row
    swap
    · rw [changed_records_of_ne hrow] at hrecord
      exact hold record hrecord ((hchange.mem_pending hrow j).mp hmem)
    have himage : ch.image = some record :=
      (changed_records_self s i ch phase).symm.trans (hrow ▸ hrecord)
    have hsub := fun hc => hchange.pending_sub hc hmem
    cases hchange with
    | insert hphase hstarted hfree =>
      obtain rfl := hrow
      exfalso
      have hnone := h.not_mem_of_free hfree j
      by_cases hj : j = i
      · subst hj
        rw [changed_trxes_self] at hmem
        simp only [MvccTrx.pending, List.mem_append, List.mem_singleton] at hmem
        rcases hmem with hmem | hmem
        · refine hnone ⟨.delete, _⟩ rfl ?_
          simpa only [MvccTrx.pending, hphase] using hmem
        · cases hmem
      · rw [changed_trxes_of_ne hj] at hmem
        exact hnone _ rfl hmem
    | delete hphase hstarted hrecord' hvisit =>
      obtain rfl := hrow
      obtain ⟨hpos, _, _, hall⟩ := hcond.deletes.facts h hrecord' hvisit
      have hyoung := hyounger hrecord' hpos hall
      cases himage
      exact ⟨hpos, hyoung⟩
    | commitInsert hphase hrecord' howner =>
      obtain rfl := hrow
      -- only committed records are deleted
      obtain ⟨hpos, _⟩ := hold _ hrecord' (hsub (Or.inl rfl))
      have hid := h.ids.pos i (Or.inr (by simp [MvccTrx.pending, hphase]))
      omega
    | commitDelete hphase hrecord' howner =>
      obtain rfl := hrow
      have hyoung := hold _ hrecord' (hsub (Or.inl rfl))
      cases himage
      exact hyoung
    | undoDelete hphase hrecord' howner =>
      obtain rfl := hrow
      have hyoung := hold _ hrecord' (hsub (Or.inr rfl))
      cases himage
      exact hyoung
    | undoInsert => cases himage
  older := by
    intro k j commitXid rest hphase hj
    obtain ⟨_, _, hcases⟩ := heffect.committing hphase
    rcases started h heffect hj with ⟨hj, hid⟩ | ⟨_, hc, hnot, _⟩
    · rw [hid]
      rcases hcases with hphase | ⟨_, hxid, _⟩ | ⟨op, _, _, hphase, _⟩
      · exact hshared.older k j commitXid rest hphase hj
      · left
        have := h.ids.le j
        rw [hxid, nextTrxId_of_lt h.ids.short]
        omega
      · left
        exact (hshared.older k j commitXid _ hphase hj).resolve_right (by simp)
    · subst hc
      rcases hcases with hphase | ⟨hc, _⟩ | ⟨_, _, hc, _⟩
      · exact Or.inr (hcond.starts rfl hnot k commitXid rest hphase)
      · cases hc
      · cases hc

end Shared

/-! ## Reads -/

theorem visitRecord_uncommitted {trxId : Int} (hneg : record.beginXid < 0) :
    visitRecord trxId .readOnly record = .ok () ↔ record.beginXid = -trxId := by
  unfold visitRecord
  rw [if_neg (by omega), if_pos hneg]
  constructor
  · intro h
    split_ifs at h
    omega
  · intro h
    exact if_pos (by omega)

theorem visitRecord_committed {trxId : Int} (hbegin : 0 < record.beginXid)
    (hend : 0 < record.endXid) : visitRecord trxId .readOnly record = .ok () ↔
      record.beginXid ≤ trxId ∧ trxId ≤ record.endXid := by
  unfold visitRecord
  rw [if_pos ⟨hbegin, hend⟩]
  constructor
  · intro h
    split_ifs at h with hrange
    exact hrange
  · exact fun h => if_pos h

theorem visitRecord_deleting {trxId : Int} (hbegin : 0 < record.beginXid)
    (hend : record.endXid < 0) :
    visitRecord trxId .readOnly record = .ok () ↔ record.endXid ≠ -trxId := by
  unfold visitRecord
  rw [if_neg (by omega), if_neg (by omega), if_pos hend]
  constructor
  · intro h
    simp only at h
    split_ifs at h
    omega
  · intro h
    exact if_pos (by omega)

theorem sees_iff (hrecord : s.records row = some record) :
    s.Sees i row ↔ visitRecord (s.trxes i).trxId .readOnly record = .ok () := by
  rw [Sees, visit, hrecord]

theorem not_sees (hrecord : s.records row = none) : ¬s.Sees i row := by
  rw [Sees, visit, hrecord]
  simp

/-- A record that is not deleted by an id has the largest one at its end. -/
theorem Shared.endXid (hshared : Shared s) (h : Inv s) (hmarked : Marked s)
    (hrecord : s.records row = some record) (hneg : record.beginXid < 0) :
    record.endXid = maxTrxId := by
  obtain ⟨i, hmem, howner⟩ := (h.owned row).insert_owner hrecord hneg
  have hpos := h.ids.pos i (Or.inr (List.ne_nil_of_mem hmem))
  rcases hmarked.insert i row record hmem hrecord with hend | hend
  · exact hend
  · obtain ⟨j, hj, _⟩ := (h.owned row).delete_owner hrecord (by omega)
    have := (hshared.deleting j row record hj hrecord).1
    omega

/-- A call that does not end the transaction leaves it running with its id. -/
theorem Effect.runs_on (heffect : Effect s i c s') {j : Nat} (hj : (s.trxes j).started = true)
    (hown : i = j → c ≠ .commit ∧ c ≠ .rollback) :
    (s'.trxes j).started = true ∧ (s'.trxes j).trxId = (s.trxes j).trxId := by
  by_cases hji : j = i
  swap
  · rw [heffect.other hji]
    exact ⟨hj, rfl⟩
  subst hji
  obtain ⟨hcommit, hrollback⟩ := hown rfl
  cases heffect with
  | idle => exact ⟨hj, rfl⟩
  | start _ hnot =>
    rw [hj] at hnot
    cases hnot
  | commit => exact absurd rfl hcommit
  | rollback => exact absurd rfl hrollback
  | _ =>
    rw [setTrx_trxes_self]
    exact ⟨hj, rfl⟩

/-- One call leaves what a running transaction sees of the records that it does not modify. -/
theorem sees_step (h : Inv s) (hmarked : Marked s) (hshared : Shared s)
    (hcond : s.Snapshot (i, c)) (heffect : Effect s i c s') {j : Nat}
    (hj : (s.trxes j).started = true)
    (hown : i = j → c ≠ .commit ∧ c ≠ .rollback ∧ ¬Modifies row c) :
    s.Sees j row ↔ s'.Sees j row := by
  have hid := (heffect.runs_on hj fun hij => ⟨(hown hij).1, (hown hij).2.1⟩).2
  have hpos := h.ids.pos j (Or.inl hj)
  have hsame : s'.records row = s.records row → (s.Sees j row ↔ s'.Sees j row) := by
    intro hrecords
    rw [Sees, Sees, visit, visit, hrecords, hid]
  rcases heffect.same_or_change hcond.plain with ⟨hrecords, _⟩ | ⟨ch, phase, rfl, hchange⟩
  · exact hsame (congrFun hrecords row)
  by_cases hrow : row = ch.row
  swap
  · exact hsame (changed_records_of_ne hrow)
  have hnew : (s.changed i ch phase).records row = ch.image := by
    rw [hrow, changed_records_self]
  -- the record belongs to another transaction
  have hother : i ≠ j → (s.trxes j).trxId ≠ (s.trxes i).trxId :=
    fun hij heq => hij (h.ids.inj j i hpos heq).symm
  cases hchange with
  | insert hphase hstarted hfree =>
    obtain rfl := hrow
    have hne := hother fun hij => (hown hij).2.2 rfl
    have hposi := h.ids.pos i (Or.inl hstarted)
    rw [sees_iff hnew, hid, visitRecord_uncommitted (by simp only; omega)]
    simp only
    constructor
    · exact fun hsees => absurd hsees (not_sees hfree)
    · intro heq
      omega
  | @delete _ record hphase hstarted hrecord hvisit =>
    obtain rfl := hrow
    have hne := hother fun hij => (hown hij).2.2 rfl
    have hposi := h.ids.pos i (Or.inl hstarted)
    obtain ⟨hbegin, _, hend, hall⟩ := hcond.deletes.facts h hrecord hvisit
    have hshort := h.ids.short
    have hle := h.ids.le j
    have hbj := hall j hj
    have hafter : visitRecord (s.trxes j).trxId .readOnly
        { record with endXid := -(s.trxes i).trxId } = .ok () ↔
          -(s.trxes i).trxId ≠ -(s.trxes j).trxId :=
      visitRecord_deleting hbegin (Int.neg_neg_of_pos hposi)
    rw [sees_iff hrecord, sees_iff hnew, hid, visitRecord_committed hbegin (by omega), hafter]
    omega
  | @commitInsert commitXid _ rest record hphase hrecord howner =>
    obtain rfl := hrow
    have hmem := MvccTrx.mem_committing hphase
    have hposi := h.ids.pos i (Or.inr (List.ne_nil_of_mem hmem))
    have hij : i ≠ j := fun hij => (hshared.ended j hj).1 _ _ (hij ▸ hphase)
    have hne := hother hij
    have hlt := (hshared.older i j commitXid _ hphase hj).resolve_right (by simp)
    have hend := hshared.endXid h hmarked hrecord (by omega)
    have hmax : 0 < record.endXid := by
      rw [hend]
      decide
    have hafter : visitRecord (s.trxes j).trxId .readOnly { record with beginXid := commitXid } =
        .ok () ↔ commitXid ≤ (s.trxes j).trxId ∧ (s.trxes j).trxId ≤ record.endXid :=
      visitRecord_committed (h.ids.commit i commitXid _ hphase).2.1 hmax
    rw [sees_iff hrecord, sees_iff hnew, hid, visitRecord_uncommitted (by omega), hafter]
    omega
  | @commitDelete commitXid _ rest record hphase hrecord howner =>
    obtain rfl := hrow
    have hmem := MvccTrx.mem_committing hphase
    have hposi := h.ids.pos i (Or.inr (List.ne_nil_of_mem hmem))
    have hij : i ≠ j := fun hij => (hshared.ended j hj).1 _ _ (hij ▸ hphase)
    have hne := hother hij
    have hlt := (hshared.older i j commitXid _ hphase hj).resolve_right (by simp)
    obtain ⟨hbegin, hall⟩ := hshared.deleting i row record hmem hrecord
    have hbj := hall j hj
    have hafter : visitRecord (s.trxes j).trxId .readOnly { record with endXid := commitXid } =
        .ok () ↔ record.beginXid ≤ (s.trxes j).trxId ∧ (s.trxes j).trxId ≤ commitXid :=
      visitRecord_committed hbegin (h.ids.commit i commitXid _ hphase).2.1
    rw [sees_iff hrecord, sees_iff hnew, hid, visitRecord_deleting hbegin (by omega), hafter]
    omega
  | @undoInsert _ rest record hphase hrecord =>
    obtain rfl := hrow
    have hmem := MvccTrx.mem_rollingBack hphase
    have hposi := h.ids.pos i (Or.inr (List.ne_nil_of_mem hmem))
    have hij : i ≠ j := fun hij => (hshared.ended j hj).2 _ (hij ▸ hphase)
    have hne := hother hij
    have howner := (h.owned row).beginXid_of_insert hmem hrecord
    rw [sees_iff hrecord, visitRecord_uncommitted (by omega)]
    constructor
    · intro heq
      omega
    · exact fun hsees => absurd hsees (not_sees hnew)
  | @undoDelete _ rest record hphase hrecord howner =>
    obtain rfl := hrow
    have hmem := MvccTrx.mem_rollingBack hphase
    have hposi := h.ids.pos i (Or.inr (List.ne_nil_of_mem hmem))
    have hij : i ≠ j := fun hij => (hshared.ended j hj).2 _ (hij ▸ hphase)
    have hne := hother hij
    obtain ⟨hbegin, hall⟩ := hshared.deleting i row record hmem hrecord
    have hbj := hall j hj
    have hshort := h.ids.short
    have hle := h.ids.le j
    have hmax : 0 < maxTrxId := by decide
    have hafter : visitRecord (s.trxes j).trxId .readOnly { record with endXid := maxTrxId } =
        .ok () ↔ record.beginXid ≤ (s.trxes j).trxId ∧ (s.trxes j).trxId ≤ maxTrxId :=
      visitRecord_committed hbegin hmax
    rw [sees_iff hrecord, sees_iff hnew, hid, visitRecord_deleting hbegin (by omega), hafter]
    omega

/-! ## Commits -/

/-- The record of an operation carries the commit id. -/
def Stamped (s : Db) (commitXid : Int) (op : Operation) : Prop :=
  ∃ record, s.records op.row = some record ∧ (op.type = .insert → record.beginXid = commitXid) ∧
    (op.type = .delete →
      0 < record.beginXid ∧ record.beginXid < commitXid ∧ record.endXid = commitXid)

/-- The operation is one that the commit has still to deal with. -/
def Waits (s : Db) (i : Nat) (commitXid : Int) (op : Operation) : Prop :=
  ∃ rest, (s.trxes i).phase = .committing commitXid rest ∧ op ∈ rest ∧
    ∀ record, s.records op.row = some record → op.type = .delete → record.beginXid < commitXid

/-- What holds of the operations of a commit from the draw of its id on. -/
structure CommitKept (s : Db) (i : Nat) (commitXid : Int) (ops : List Operation) : Prop where
  pos : 0 < commitXid
  short : commitXid < maxTrxId
  fresh : ∀ j, (s.trxes j).started = true → (s.trxes j).trxId ≠ commitXid
  le : commitXid ≤ s.currentTrxId
  each : ∀ op ∈ ops, s.Stamped commitXid op ∨ s.Waits i commitXid op

theorem Stamped.effect {commitXid : Int} {op : Operation} (hstamped : s.Stamped commitXid op)
    (h : Inv s) (hcond : s.Snapshot (i, c)) (hpos : 0 < commitXid) (hshort : commitXid < maxTrxId)
    (heffect : Effect s i c s') : s'.Stamped commitXid op := by
  obtain ⟨type, row⟩ := op
  obtain ⟨record, hrecord, hinsert, hdelete⟩ := hstamped
  cases type with
  | insert =>
    have hbegin := hinsert rfl
    obtain ⟨record', hrecord', hbegin'⟩ :=
      beginXid_stays h hcond.plain heffect hrecord (by omega)
    exact ⟨record', hrecord', fun _ => hbegin'.trans hbegin, fun hd => (nomatch hd)⟩
  | delete =>
    obtain ⟨hbegin, hlt, hend⟩ := hdelete rfl
    have hspared : c = .deleteRecord row →
        visitRecord (s.trxes i).trxId .readWrite record ≠ .ok () := by
      rintro rfl hvisit
      have := (hcond.deletes.facts h hrecord hvisit).2.2.1
      omega
    obtain ⟨record', hrecord', rfl | ⟨hneg, _⟩⟩ :=
      endXid_stays h hcond.plain heffect hrecord (by omega) hspared (Or.inl hbegin)
    · exact ⟨record', hrecord', hinsert, hdelete⟩
    · omega

theorem Waits.effect {j : Nat} {commitXid : Int} {op : Operation}
    (hwaits : s.Waits j commitXid op) (h : Inv s) (hshared : Shared s)
    (hcond : s.Snapshot (i, c)) (heffect : Effect s i c s') :
    s'.Stamped commitXid op ∨ s'.Waits j commitXid op := by
  obtain ⟨rest, hphase, hmem, hlt⟩ := hwaits
  -- the begin of a record that is being deleted stays
  have hbegin : ∀ {old}, s.records op.row = some old → op.type = .delete →
      0 < old.beginXid ∧ old.beginXid < commitXid ∧ ∀ record, s'.records op.row = some record →
        record.beginXid = old.beginXid := by
    intro old hold htype
    have hpending : (⟨.delete, op.row⟩ : Operation) ∈ (s.trxes j).pending := by
      simpa [MvccTrx.pending, hphase, ← htype] using hmem
    have hpos := (hshared.deleting j op.row old hpending hold).1
    refine ⟨hpos, hlt old hold htype, ?_⟩
    intro record hrecord
    obtain ⟨record', hrecord', hbegin'⟩ := beginXid_stays h hcond.plain heffect hold hpos
    rw [hrecord] at hrecord'
    cases hrecord'
    exact hbegin'
  have hexists : ∃ old, s.records op.row = some old := by
    have hpending : op ∈ (s.trxes j).pending := by simpa [MvccTrx.pending, hphase] using hmem
    by_contra hnone
    have hfree : s.records op.row = none := by
      cases hr : s.records op.row with
      | none => rfl
      | some record => exact absurd ⟨record, hr⟩ hnone
    exact h.not_mem_of_free hfree j op rfl hpending
  obtain ⟨old, hold⟩ := hexists
  have hlater : ∀ {rest'}, (s'.trxes j).phase = .committing commitXid rest' → op ∈ rest' →
      s'.Waits j commitXid op := by
    intro rest' hphase' hmem'
    refine ⟨rest', hphase', hmem', ?_⟩
    intro record hrecord htype
    obtain ⟨_, hlt, heq⟩ := hbegin hold htype
    rw [heq record hrecord]
    exact hlt
  rcases heffect.commit_next hphase with hphase' | rfl |
    ⟨head, rest', record, old', rfl, hphase', hrecord, hold', hdelete, hinsert⟩
  · exact Or.inr (hlater hphase' hmem)
  · cases hmem
  · rcases List.mem_cons.mp hmem with rfl | hmem
    · left
      refine ⟨record, hrecord, hinsert, ?_⟩
      intro htype
      obtain ⟨hend, hsame⟩ := hdelete htype
      obtain ⟨hpos, hlt, _⟩ := hbegin hold' htype
      exact ⟨by omega, by omega, hend⟩
    · exact Or.inr (hlater hphase' hmem)

theorem CommitKept.effect {j : Nat} {commitXid : Int} {ops : List Operation}
    (hkept : s.CommitKept j commitXid ops) (h : Inv s) (hshared : Shared s)
    (hcond : s.Snapshot (i, c)) (heffect : Effect s i c s') : s'.CommitKept j commitXid ops where
  pos := hkept.pos
  short := hkept.short
  fresh := by
    intro k hk
    rcases Shared.started h heffect hk with ⟨hk, hid⟩ | ⟨_, _, _, hid⟩
    · rw [hid]
      exact hkept.fresh k hk
    · have := hkept.le
      omega
  le := by
    have hle := hkept.le
    cases heffect with
    | start | commit =>
      rw [setTrx_currentTrxId, draw_currentTrxId, nextTrxId_of_lt h.ids.short]
      omega
    | _ => exact hle
  each := by
    intro op hop
    rcases hkept.each op hop with hstamped | hwaits
    · exact Or.inl (hstamped.effect h hcond hkept.pos hkept.short heffect)
    · exact hwaits.effect h hshared hcond heffect

/-- A commit that draws its id has all its operations waiting. -/
theorem CommitKept.begin (h : Inv s) (hplain : s.Plain (i, .commit))
    (hphase : (s.trxes i).phase = .running) (hcall : s.call (i, .commit) = some s') :
    s'.CommitKept i (s.currentTrxId + 1) (s.trxes i).operations := by
  have hdraw : s.currentTrxId + 1 < maxTrxId := hplain
  have hnonneg := h.ids.nonneg
  have hnext := nextTrxId_of_lt h.ids.short
  obtain rfl : s.draw.setTrx i { s.trxes i with
      started := false
      phase := .committing (nextTrxId s.currentTrxId) (s.trxes i).operations } = s' := by
    simpa [call, Ready, hphase, perform, commit] using hcall
  refine
    { pos := by omega
      short := hdraw
      fresh := ?_
      le := by rw [setTrx_currentTrxId, draw_currentTrxId, hnext]
      each := ?_ }
  · intro j hj
    by_cases hji : j = i
    · subst hji
      rw [setTrx_trxes_self] at hj
      cases hj
    · rw [setTrx_trxes_of_ne hji]
      have := h.ids.le j
      rw [draw_trxes]
      omega
  · intro op hop
    right
    refine ⟨(s.trxes i).operations, ?_, hop, ?_⟩
    · rw [setTrx_trxes_self, hnext]
    · intro record hrecord _
      have := ((h.owned op.row).begin_ne hrecord).2
      omega

/-- Between the draw of the id and the end of the run a transaction sees all of the commit or
nothing of it. -/
theorem CommitKept.whole {commitXid : Int} {ops : List Operation}
    (hkept : s.CommitKept i commitXid ops) (h : Inv s) (hmarked : Marked s) (hshared : Shared s)
    {j : Nat} (hj : (s.trxes j).started = true) :
    (∀ op ∈ ops, s.Shows j op) ∨ ∀ op ∈ ops, ¬s.Shows j op := by
  have hpos := hkept.pos
  have hshort := h.ids.short
  have hle := h.ids.le j
  have hmaxpos : 0 < maxTrxId := by decide
  have hseesMax : ∀ {record : Record}, 0 < record.beginXid →
      (visitRecord (s.trxes j).trxId .readOnly { record with endXid := maxTrxId } = .ok () ↔
        record.beginXid ≤ (s.trxes j).trxId ∧ (s.trxes j).trxId ≤ maxTrxId) :=
    fun hbegin => visitRecord_committed hbegin hmaxpos
  by_cases hlt : (s.trxes j).trxId < commitXid
  · right
    rintro ⟨type, row⟩ hop ⟨record, hrecord, hvisit, hdelete⟩
    rcases hkept.each _ hop with ⟨record', hrecord', hinsert, hdeleted⟩ | hwaits
    · obtain rfl := Option.some.inj (hrecord.symm.trans hrecord')
      cases type with
      | insert =>
        have hbegin := hinsert rfl
        have := ((hseesMax (by omega)).mp hvisit).1
        omega
      | delete =>
        obtain ⟨hbegin, _, hend⟩ := hdeleted rfl
        have hold := ((hseesMax hbegin).mp hvisit).1
        apply hdelete rfl
        rw [sees_iff hrecord, visitRecord_committed hbegin (by omega)]
        omega
    · obtain ⟨rest, hphase, hmem, _⟩ := hwaits
      have hpending : (⟨type, row⟩ : Operation) ∈ (s.trxes i).pending := by
        simpa [MvccTrx.pending, hphase] using hmem
      have hij : i ≠ j := fun hij => (hshared.ended j hj).1 _ _ (hij ▸ hphase)
      have hposj := h.ids.pos j (Or.inl hj)
      have hne : (s.trxes j).trxId ≠ (s.trxes i).trxId :=
        fun heq => hij (h.ids.inj j i hposj heq).symm
      have hposi := h.ids.pos i (Or.inr (List.ne_nil_of_mem hpending))
      cases type with
      | insert =>
        obtain ⟨r, hr, howner⟩ := (h.owned row).insert_pending hpending
        obtain rfl := Option.some.inj (hrecord.symm.trans hr)
        have := (visitRecord_uncommitted (by simp only; omega)).mp hvisit
        simp only at this
        omega
      | delete =>
        obtain ⟨r, hr, howner⟩ := hmarked.delete i row hpending
        obtain rfl := Option.some.inj (hrecord.symm.trans hr)
        have hbegin := (hshared.deleting i row _ hpending hrecord).1
        apply hdelete rfl
        rw [sees_iff hrecord, visitRecord_deleting hbegin (by omega)]
        omega
  · left
    have hfresh := hkept.fresh j hj
    rintro ⟨type, row⟩ hop
    rcases hkept.each _ hop with ⟨record, hrecord, hinsert, hdeleted⟩ | hwaits
    · refine ⟨record, hrecord, ?_, ?_⟩
      · cases type with
        | insert =>
          have hbegin := hinsert rfl
          rw [hseesMax (by omega)]
          omega
        | delete =>
          obtain ⟨hbegin, hold, _⟩ := hdeleted rfl
          rw [hseesMax hbegin]
          omega
      · intro htype
        obtain ⟨hbegin, _, hend⟩ := hdeleted htype
        rw [sees_iff hrecord, visitRecord_committed hbegin (by omega)]
        omega
    · obtain ⟨rest, hphase, hmem, _⟩ := hwaits
      rcases hshared.older i j commitXid rest hphase hj with hyoung | rfl
      · omega
      · cases hmem

/-! ## Runs -/

theorem snapshot_invariant {calls : List (Nat × Call)} (hrun : Run call Snapshot s calls s')
    (h : Inv s ∧ Marked s ∧ Shared s) : Inv s' ∧ Marked s' ∧ Shared s' := by
  apply hrun.invariant (I := fun s => Inv s ∧ Marked s ∧ Shared s)
  · rintro s ⟨i, c⟩ s' ⟨hinv, hmarked, hshared⟩ hcond hcall
    have heffect := call_effect hcall
    exact ⟨hinv.effect hcond.plain heffect,
      hmarked.effect hinv hcond.plain (hcond.deletes.new hinv) heffect,
      hshared.effect hinv hcond heffect⟩
  · exact h

theorem sees_run {calls : List (Nat × Call)} {j : Nat} (hrun : Run call Snapshot s calls s')
    (h : Inv s ∧ Marked s ∧ Shared s) (hj : (s.trxes j).started = true)
    (hown : ∀ c ∈ calls, c.1 = j → c.2 ≠ .commit ∧ c.2 ≠ .rollback ∧ ¬Modifies row c.2) :
    s.Sees j row ↔ s'.Sees j row := by
  induction hrun with
  | nil => rfl
  | @cons s₁ s₂ s₃ c calls hcond hcall hrun ih =>
    obtain ⟨i, c⟩ := c
    have heffect := call_effect hcall
    have hfirst := hown (i, c) List.mem_cons_self
    have hstep : s₁.Sees j row ↔ s₂.Sees j row :=
      sees_step h.1 h.2.1 h.2.2 hcond heffect hj hfirst
    have hj₂ := (heffect.runs_on hj fun hij => ⟨(hfirst hij).1, (hfirst hij).2.1⟩).1
    have h₂ := snapshot_invariant (.single hcond hcall) h
    exact hstep.trans (ih h₂ hj₂ fun c hc => hown c (List.mem_cons_of_mem _ hc))

/-- Reads stay the same and commits are seen whole, in every run in which no transaction starts
while a commit has records left and each deletion meets a record that all transactions see. -/
theorem snapshots_of_run (calls : List (Nat × Call)) (s' : Db)
    (hrun : Run call Snapshot create calls s') : ReadsStay calls s' ∧ CommitsWhole calls s' := by
  have hcreate : Inv create ∧ Marked create ∧ Shared create :=
    ⟨Inv.create, Marked.create, Shared.create⟩
  refine ⟨?_, ?_⟩
  · rintro before between i s row rfl heval hstarted hown
    obtain ⟨s₁, hbefore, hbetween⟩ := hrun.append_inv
    obtain rfl := Option.some.inj (hbefore.eval.symm.trans heval)
    exact sees_run hbetween (snapshot_invariant hbefore hcreate) hstarted hown
  · rintro before after i s rfl heval hphase j hj
    obtain ⟨s₁, hbefore, hrest⟩ := hrun.append_inv
    obtain rfl := Option.some.inj (hbefore.eval.symm.trans heval)
    have h₁ := snapshot_invariant hbefore hcreate
    cases hrest with
    | @cons _ s₂ _ _ _ hcond hcall hafter =>
      have h₂ := snapshot_invariant (.single hcond hcall) h₁
      have hbegin := CommitKept.begin h₁.1 hcond.plain hphase hcall
      -- the commit is kept from here to the end
      have hlast : (Inv s' ∧ Marked s' ∧ Shared s') ∧
          s'.CommitKept i (s₁.currentTrxId + 1) (s₁.trxes i).operations := by
        apply hafter.invariant (I := fun s => (Inv s ∧ Marked s ∧ Shared s) ∧
          s.CommitKept i (s₁.currentTrxId + 1) (s₁.trxes i).operations)
        · rintro s c s' ⟨hinv, hkept⟩ hcond hcall
          exact ⟨snapshot_invariant (.single hcond hcall) hinv,
            hkept.effect hinv.1 hinv.2.2 hcond (call_effect hcall)⟩
        · exact ⟨h₂, hbegin⟩
      obtain ⟨⟨hinv, hmarked, hshared⟩, hkept⟩ := hlast
      exact hkept.whole hinv hmarked hshared hj

/-- The condition of a step in a run of the first `n` objects, which are between two calls where
one of them starts. -/
def SnapshotBelow (n : Nat) (s : Db) (c : Nat × Call) : Prop :=
  s.Plain c ∧ OnDelete (fun record => 0 < record.beginXid ∧
    ¬(0 < record.endXid ∧ record.endXid ≠ maxTrxId) ∧
    ∀ j, j < n → (s.trxes j).started = true → record.beginXid ≤ (s.trxes j).trxId) s c ∧
    (c.2 = .startIfNeed → ∀ j, j < n → (s.trxes j).phase = .running)

instance (n : Nat) (s : Db) (c : Nat × Call) : Decidable (SnapshotBelow n s c) := by
  unfold SnapshotBelow
  infer_instance

theorem snapshot_of_below {n : Nat} {calls : List (Nat × Call)}
    (hrun : Run call (fun s c => c.1 < n ∧ SnapshotBelow n s c) create calls s') :
    Run call Snapshot create calls s' := by
  apply (run_below hrun).mono
  rintro s c ⟨hnew, hplain, hdelete, hstart⟩
  refine ⟨hplain, ?_, OnDelete.mono hdelete fun record ⟨hpos, hend, hseen⟩ =>
    ⟨hpos, hend, fun j hstarted => ?_⟩⟩
  · intro hc _ j commitXid rest hphase
    have hrunning : (s.trxes j).phase = .running :=
      (Nat.lt_or_ge j n).elim (hstart hc j) fun hj => by rw [hnew j hj]; rfl
    rw [hrunning] at hphase
    cases hphase
  · rcases Nat.lt_or_ge j n with hj | hj
    · exact hseen j hj hstarted
    · rw [hnew j hj] at hstarted
      cases hstarted

/-- One transaction starts before a commit and ends; of two rows that are deleted side by side one
is deleted for those that start later, and the other comes back. -/
theorem snapshots_of_run_sideBySide : ∃ (calls : List (Nat × Call)) (s' : Db),
    (ReadsStay calls s' ∧ CommitsWhole calls s') ∧
      ¬s'.Sees 4 ⟨1, ⟨1, 0⟩⟩ ∧ s'.Sees 4 ⟨1, ⟨1, 1⟩⟩ := by
  let first : RowId := ⟨1, ⟨1, 0⟩⟩
  let second : RowId := ⟨1, ⟨1, 1⟩⟩
  let calls : List (Nat × Call) :=
    (0, .startIfNeed) :: inserts 0 first [7] ++ inserts 0 second [8] ++
      (1, .startIfNeed) :: commits 0 2 ++ commits 1 0 ++ [(2, .startIfNeed), (3, .startIfNeed)] ++
      deletes 2 first ++ deletes 3 second ++ rollbacks 3 1 ++ commits 2 1 ++ [(4, .startIfNeed)]
  have hcheck : (Run.check call (fun s c => c.1 < 5 ∧ SnapshotBelow 5 s c) create calls).map
      (fun s' => (s'.visit (s'.trxes 4).trxId .readOnly first,
        s'.visit (s'.trxes 4).trxId .readOnly second)) =
      some (.error .recordInvisible, .ok ()) := by decide
  obtain ⟨s', hrun, hvisits⟩ := Option.map_eq_some_iff.mp hcheck
  obtain ⟨hgone, hthere⟩ := Prod.mk.inj hvisits
  refine ⟨calls, s', snapshots_of_run calls s' (snapshot_of_below (Run.of_check hrun)), ?_, hthere⟩
  intro hsees
  rw [Sees, hgone] at hsees
  cases hsees

/-- A transaction that starts behind the draw of a commit id sees each record appear as the
commit puts its id into it. -/
theorem started_in_commit_not_snapshot : ∃ (calls : List (Nat × Call)) (s' : Db),
    Run call Plain create calls s' ∧ ¬ReadsStay calls s' ∧ ¬CommitsWhole calls s' := by
  let first : RowId := ⟨1, ⟨1, 0⟩⟩
  let second : RowId := ⟨1, ⟨1, 1⟩⟩
  let before : List (Nat × Call) :=
    (0, .startIfNeed) :: inserts 0 first [7] ++ inserts 0 second [8]
  let between : List (Nat × Call) := [(0, .commit), (1, .startIfNeed)]
  have hbefore : (before.foldlM call create).map (fun s => decide
      ((s.trxes 0).phase = .running ∧
        (s.trxes 0).operations = [⟨.insert, first⟩, ⟨.insert, second⟩])) = some true := by decide
  have hdrawn : ((before ++ between).foldlM call create).map (fun s =>
      ((s.trxes 1).started, s.visit (s.trxes 1).trxId .readOnly first)) =
      some (true, .error .recordInvisible) := by decide
  have hlast : (Run.check call Plain create (before ++ between ++ [(0, .commitOperation)])).map
      (fun s' => ((s'.trxes 1).trxId, (s'.trxes 1).started, s'.records first,
        s'.records second)) =
      some (3, true, some ⟨2, maxTrxId, [7]⟩, some ⟨-1, maxTrxId, [8]⟩) := by decide
  obtain ⟨s₀, hs₀, hfacts⟩ := Option.map_eq_some_iff.mp hbefore
  obtain ⟨hphase, hoperations⟩ := of_decide_eq_true hfacts
  obtain ⟨s₁, hs₁, hpair⟩ := Option.map_eq_some_iff.mp hdrawn
  obtain ⟨hstarted, hinvisible⟩ := Prod.mk.inj hpair
  obtain ⟨s', hrun, htuple⟩ := Option.map_eq_some_iff.mp hlast
  obtain ⟨hid, htuple⟩ := Prod.mk.inj htuple
  obtain ⟨hstarted', htuple⟩ := Prod.mk.inj htuple
  obtain ⟨hfirst, hsecond⟩ := Prod.mk.inj htuple
  refine ⟨_, s', Run.of_check hrun, ?_, ?_⟩
  · intro hstay
    have hsees := hstay (before ++ between) [(0, .commitOperation)] 1 s₁ first rfl hs₁ hstarted
      (by simp)
    have hnow : s'.Sees 1 first := by
      rw [sees_iff hfirst, hid]
      decide
    have hthen := hsees.mpr hnow
    rw [Sees, hinvisible] at hthen
    cases hthen
  · intro hwhole
    have hshows := hwhole before ((1, .startIfNeed) :: [(0, .commitOperation)]) 0 s₀ rfl hs₀ hphase
      1 hstarted'
    rw [hoperations] at hshows
    rcases hshows with hall | hnone
    · obtain ⟨record, hrecord, hvisit, _⟩ := hall ⟨.insert, second⟩ (by simp)
      obtain rfl := Option.some.inj (hsecond.symm.trans hrecord)
      rw [hid] at hvisit
      revert hvisit
      decide
    · apply hnone ⟨.insert, first⟩ (by simp)
      refine ⟨_, hfirst, ?_, fun htype => nomatch htype⟩
      rw [hid]
      decide

end Db

end ObHtap.Mvcc
