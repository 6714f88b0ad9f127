import ObHtap.Trx.MvccHistory

/-!
# Reading one's own writes

A transaction does not see a record that it has deleted, and it sees the ones that it has inserted.
The branch of `visit_record` for a negative begin comes before the one for a negative end and does
not look at the end, so that a transaction goes on seeing a record that it has inserted and
deleted.
-/

namespace ObHtap.Mvcc

namespace Db

variable {s s' : Db} {i j : Nat} {c : Call} {row : RowId} {record : Record}

/-- The transaction of the object has inserted the record by `insert_record`. -/
def Inserted (s : Db) (i : Nat) (row : RowId) : Prop :=
  .trx (s.trxes i).trxId (.insertRecord row) ∈ s.log ∨
    ∃ operation, (s.trxes i).phase = .logging (.insertRecord row) operation

/-- A transaction that has not ended sees no record that it has deleted, it sees those that it has
inserted and not deleted, and it has one DELETE operation at most for each. -/
def ReadsOwn (s : Db) : Prop :=
  ∀ i, (s.trxes i).started = true →
    (∀ row, ⟨.delete, row⟩ ∈ (s.trxes i).pending → ∀ record, s.records row = some record →
      ∀ mode, visitRecord (s.trxes i).trxId mode record = .error .recordInvisible) ∧
    (∀ row, s.Inserted i row → ⟨.delete, row⟩ ∉ (s.trxes i).pending →
      ∃ record, s.records row = some record ∧
        ∀ mode, visitRecord (s.trxes i).trxId mode record = .ok ()) ∧
    ∀ row, (s.trxes i).pending.count ⟨.delete, row⟩ ≤ 1

/-! ## The condition -/

/-- An UPDATE finds the transaction fields that its scan has read. -/
def UpdatesFresh (s : Db) (c : Nat × Call) : Prop :=
  ∀ data, c.2 = .updateRecord data → ∀ row record now,
    (s.trxes c.1).scanned = some (row, record) → s.records row = some now →
    now.beginXid = record.beginXid ∧ now.endXid = record.endXid

/-- The undo of an insertion meets a record of its own transaction. -/
def UndoesOwn (s : Db) (c : Nat × Call) : Prop :=
  c.2 = .rollbackOperation → ∀ row rest record,
    (s.trxes c.1).phase = .rollingBack (⟨.insert, row⟩ :: rest) → s.records row = some record →
    record.beginXid = -(s.trxes c.1).trxId

/-- The condition of a step: no transaction deletes a record that it has inserted itself, an
UPDATE is up to date, and its rollback deletes no record of another transaction. -/
structure OwnApart (s : Db) (c : Nat × Call) : Prop where
  fits : s.Fits c
  deletes : OnDelete (fun record => record.beginXid ≠ -(s.trxes c.1).trxId) s c
  updates : UpdatesFresh s c
  undoes : UndoesOwn s c

/-! ## The invariant -/

/-- The records of the operations of the transactions that run. -/
structure OwnWrites (s : Db) : Prop where
  nonzero : ∀ row record, s.records row = some record → record.beginXid ≠ 0 ∧ record.endXid ≠ 0
  logged : ∀ trxId op, .trx trxId op ∈ s.log → trxId ≤ s.currentTrxId
  leaving : ∀ i, (∃ commitXid rest, (s.trxes i).phase = .committing commitXid rest) ∨
    (∃ rest, (s.trxes i).phase = .rollingBack rest) → (s.trxes i).started = false
  deleted : ∀ i row, (s.trxes i).started = true → ⟨.delete, row⟩ ∈ (s.trxes i).pending →
    ∃ record, s.records row = some record ∧ 0 < record.beginXid ∧
      record.endXid = -(s.trxes i).trxId
  inserted : ∀ i row, (s.trxes i).started = true → s.Inserted i row →
    ∃ record, s.records row = some record ∧ record.beginXid = -(s.trxes i).trxId ∧
      record.endXid = maxTrxId
  once : ∀ i row, (s.trxes i).started = true → (s.trxes i).pending.count ⟨.delete, row⟩ ≤ 1

namespace OwnWrites

theorem create : OwnWrites create where
  nonzero _ _ h := nomatch h
  logged _ _ h := nomatch h
  leaving _ h := by simp [Db.create] at h
  deleted _ _ h := nomatch h
  inserted _ _ h := nomatch h
  once _ _ h := nomatch h

/-- A record that is deleted under the condition is a committed one that is not deleted. -/
theorem deletable (hown : OwnWrites s) (hcond : s.OwnApart (i, .deleteRecord row))
    (hrecord : s.records row = some record)
    (hvisit : visitRecord (s.trxes i).trxId .readWrite record = .ok ()) :
    0 < record.beginXid ∧ 0 < record.endXid := by
  obtain ⟨hbegin, hend⟩ := hown.nonzero row record hrecord
  rcases visitRecord_readWrite hbegin hend hvisit with ⟨_, hmine⟩ | ⟨hbegin, hle, hge⟩
  · exact absurd hmine (hcond.deletes.apply hrecord hvisit)
  · exact ⟨hbegin, by omega⟩

/-- The fields of a record that a running transaction has deleted, or has inserted and not
deleted, stay. -/
theorem stays (hown : OwnWrites s) (h : Ids s) (hcond : s.OwnApart (i, c))
    (heffect : Effect s i c s') (hj : (s.trxes j).started = true)
    (hrecord : s.records row = some record)
    (hfields : 0 < record.beginXid ∧ record.endXid = -(s.trxes j).trxId ∨
      record.beginXid = -(s.trxes j).trxId ∧ record.endXid = maxTrxId) :
    ∃ record', s'.records row = some record' ∧ record'.beginXid = record.beginXid ∧
      record'.endXid = record.endXid := by
  have hposj := h.pos j (Or.inl hj)
  have hmax : 0 < maxTrxId := by decide
  -- the id of an object that ends its transaction is not that of the running one
  have hother : (∃ commitXid rest, (s.trxes i).phase = .committing commitXid rest) ∨
      (∃ rest, (s.trxes i).phase = .rollingBack rest) →
      (s.trxes j).trxId ≠ (s.trxes i).trxId := by
    intro hphase hid
    obtain rfl := h.inj j i hposj hid
    rw [hown.leaving j hphase] at hj
    cases hj
  have hsame : s'.records row = s.records row → ∃ record', s'.records row = some record' ∧
      record'.beginXid = record.beginXid ∧ record'.endXid = record.endXid :=
    fun hr => ⟨record, hr.trans hrecord, rfl, rfl⟩
  have hapart : ∀ {ch : RecordChange} {trx : MvccTrx}, row ≠ ch.row →
      ((s.change ch).setTrx i trx).records row = s.records row := by
    intro ch trx hne
    rw [setTrx_records, change_records, if_neg hne]
  cases heffect with
  | idle | start | scan | logged | commit | committed | rollback | rolledBack => exact hsame rfl
  | @insert row' _ hphase hstarted hfree =>
    by_cases hrow : row = row'
    swap
    · exact hsame (hapart hrow)
    subst hrow
    rw [hrecord] at hfree
    cases hfree
  | @delete row' now hphase hstarted hnow hvisit =>
    by_cases hrow : row = row'
    swap
    · exact hsame (hapart hrow)
    subst hrow
    rw [hrecord] at hnow
    cases hnow
    have := hown.deletable hcond hrecord hvisit
    omega
  | @update row' old now data hphase hstarted hscanned hnow =>
    by_cases hrow : row = row'
    swap
    · exact hsame (hapart hrow)
    subst hrow
    obtain ⟨hbegin, hend⟩ := hcond.updates data rfl row old record hscanned hrecord
    refine ⟨{ old with data }, ?_, hbegin.symm, hend.symm⟩
    rw [setTrx_records, change_records]
    exact if_pos rfl
  | @commitInsert _ row' _ now hphase hnow howner | @commitDelete _ row' _ now hphase hnow howner =>
    by_cases hrow : row = row'
    swap
    · exact hsame (hapart hrow)
    subst hrow
    rw [hrecord] at hnow
    cases hnow
    have hne := hother (Or.inl ⟨_, _, hphase⟩)
    have hpos := h.pos i (Or.inr (by simp [MvccTrx.pending, hphase]))
    omega
  | @undoInsert row' rest now hphase hnow =>
    by_cases hrow : row = row'
    swap
    · exact hsame (hapart hrow)
    subst hrow
    have howner := hcond.undoes rfl row rest record hphase hrecord
    have hne := hother (Or.inr ⟨_, hphase⟩)
    have hpos := h.pos i (Or.inr (by simp [MvccTrx.pending, hphase]))
    simp only at howner
    omega
  | @undoDelete row' rest now hphase hnow howner =>
    by_cases hrow : row = row'
    swap
    · exact hsame (hapart hrow)
    subst hrow
    rw [hrecord] at hnow
    cases hnow
    have hne := hother (Or.inr ⟨_, hphase⟩)
    have hpos := h.pos i (Or.inr (by simp [MvccTrx.pending, hphase]))
    omega

/-- A running transaction has entered a deletion, or it runs on with its operations. -/
theorem pending_delete (hown : OwnWrites s) (heffect : Effect s i c s')
    (hj : (s'.trxes j).started = true) :
    ((s'.trxes j).trxId = (s.trxes j).trxId ∧ (s.trxes j).started = true ∧
      ((∀ row, (s'.trxes j).pending.count ⟨.delete, row⟩ =
          (s.trxes j).pending.count ⟨.delete, row⟩) ∨
        ∃ row record, j = i ∧ c = .deleteRecord row ∧
          (s'.trxes j).pending = (s.trxes j).pending ++ [⟨.delete, row⟩] ∧
          s.records row = some record ∧
          visitRecord (s.trxes i).trxId .readWrite record = .ok () ∧
          s'.records row = some { record with endXid := -(s.trxes i).trxId })) ∨
      (s'.trxes j).pending = [] ∧ (s'.trxes j).trxId = nextTrxId s.currentTrxId := by
  by_cases hji : j = i
  swap
  · rw [heffect.other hji] at hj ⊢
    exact Or.inl ⟨rfl, hj, Or.inl fun _ => rfl⟩
  subst hji
  cases heffect with
  | idle => exact Or.inl ⟨rfl, hj, Or.inl fun _ => rfl⟩
  | start hphase hstarted hoperations =>
    right
    rw [setTrx_trxes_self]
    simp [MvccTrx.pending, hphase, hoperations]
  | commit | rollback =>
    rw [setTrx_trxes_self] at hj
    cases hj
  | @delete row record hphase hstarted hrecord hvisit =>
    left
    have hnew : (s.change (.update row { record with endXid := -(s.trxes j).trxId })).records row =
        some { record with endXid := -(s.trxes j).trxId } := by
      rw [change_records]
      exact if_pos rfl
    rw [setTrx_trxes_self]
    refine ⟨rfl, hstarted, Or.inr ⟨row, record, rfl, rfl, ?_, hrecord, hvisit, hnew⟩⟩
    simp [MvccTrx.pending, hphase]
  | scan hphase | insert hphase | update hphase | logged hphase =>
    left
    rw [setTrx_trxes_self] at hj ⊢
    refine ⟨rfl, ?_, Or.inl fun row => ?_⟩
    · assumption
    · simp [MvccTrx.pending, hphase]
  | commitInsert hphase | commitDelete hphase | committed hphase =>
    rw [setTrx_trxes_self] at hj
    rw [hown.leaving j (Or.inl ⟨_, _, hphase⟩)] at hj
    cases hj
  | undoInsert hphase | undoDelete hphase | rolledBack hphase =>
    rw [setTrx_trxes_self] at hj
    rw [hown.leaving j (Or.inr ⟨_, hphase⟩)] at hj
    cases hj

/-- An insertion has been there before the call, or it is the call. -/
theorem inserted_before (h : Ids s) (heffect : Effect s i c s')
    (hj : (s'.trxes j).started = true) (hid : (s'.trxes j).trxId = (s.trxes j).trxId)
    (hinserted : s'.Inserted j row) : s.Inserted j row ∨
      ∃ data, s'.records row = some ⟨-(s.trxes j).trxId, maxTrxId, data⟩ := by
  rcases hinserted with hmem | ⟨operation, hphase⟩
  · rw [hid] at hmem
    rcases heffect.trx_entry hmem with hmem | ⟨heq, hpos, hcases⟩
    · exact Or.inl (Or.inl hmem)
    · obtain rfl := h.inj j i hpos heq
      obtain ⟨operation, hphase⟩ | ⟨_, _, _, ⟨_, hop, _⟩ | ⟨hop, _⟩⟩ := hcases
      · exact Or.inl (Or.inr ⟨operation, hphase⟩)
      · cases hop
      · cases hop
  · by_cases hji : j = i
    swap
    · rw [heffect.other hji] at hphase
      exact Or.inl (Or.inr ⟨operation, hphase⟩)
    subst hji
    cases heffect with
    | idle => exact Or.inl (Or.inr ⟨operation, hphase⟩)
    | @insert row' data =>
      rw [setTrx_trxes_self] at hphase
      cases hphase
      right
      refine ⟨data, ?_⟩
      rw [setTrx_records, change_records]
      exact if_pos rfl
    | start h | scan h =>
      rw [setTrx_trxes_self] at hphase
      simp [h] at hphase
    | _ =>
      rw [setTrx_trxes_self] at hphase
      cases hphase

theorem nonzero_effect (hown : OwnWrites s) (h : Ids s) (hcond : s.OwnApart (i, c))
    (heffect : Effect s i c s') (row : RowId) (record : Record)
    (hrecord : s'.records row = some record) : record.beginXid ≠ 0 ∧ record.endXid ≠ 0 := by
  have hmax : 0 < maxTrxId := by decide
  -- only the changed record is new
  have hold : ∀ {ch : RecordChange} {trx : MvccTrx},
      ((s.change ch).setTrx i trx).records row = some record →
      (∀ new, ch.image = some new → new.beginXid ≠ 0 ∧ new.endXid ≠ 0) →
      record.beginXid ≠ 0 ∧ record.endXid ≠ 0 := by
    intro ch trx hrecord hnew
    rw [setTrx_records, change_records] at hrecord
    split_ifs at hrecord
    · exact hnew record hrecord
    · exact hown.nonzero row record hrecord
  cases heffect with
  | idle | start | scan | logged | commit | committed | rollback | rolledBack =>
    exact hown.nonzero row record hrecord
  | insert _ hstarted =>
    apply hold hrecord
    rintro new ⟨⟩
    have hpos := h.pos i (Or.inl hstarted)
    simp only
    omega
  | delete _ hstarted hnow =>
    apply hold hrecord
    rintro new ⟨⟩
    have hpos := h.pos i (Or.inl hstarted)
    have := hown.nonzero _ _ hnow
    simp only
    omega
  | @update row' old now data _ _ hscanned hnow =>
    apply hold hrecord
    rintro new ⟨⟩
    obtain ⟨hbegin, hend⟩ := hcond.updates data rfl _ _ _ hscanned hnow
    have := hown.nonzero _ _ hnow
    simp only
    omega
  | @commitInsert commitXid _ rest _ hphase hnow =>
    apply hold hrecord
    rintro new ⟨⟩
    have hpos := (h.commit i commitXid _ hphase).2.1
    have := hown.nonzero _ _ hnow
    simp only
    omega
  | @commitDelete commitXid _ rest _ hphase hnow =>
    apply hold hrecord
    rintro new ⟨⟩
    have hpos := (h.commit i commitXid _ hphase).2.1
    have := hown.nonzero _ _ hnow
    simp only
    omega
  | undoInsert =>
    apply hold hrecord
    rintro new ⟨⟩
  | undoDelete _ hnow =>
    apply hold hrecord
    rintro new ⟨⟩
    have := hown.nonzero _ _ hnow
    simp only
    omega

theorem effect (hown : OwnWrites s) (h : Ids s) (hcond : s.OwnApart (i, c))
    (heffect : Effect s i c s') : OwnWrites s' := by
  have hle := heffect.currentTrxId_le h
  have hnext := nextTrxId_of_lt h.short
  refine
    { nonzero := ?_
      logged := ?_
      leaving := heffect.leaving hown.leaving
      deleted := ?_
      inserted := ?_
      once := ?_ }
  · exact nonzero_effect hown h hcond heffect
  · intro trxId op hmem
    rcases heffect.trx_entry hmem with hmem | ⟨rfl, _, _⟩
    · exact (hown.logged trxId op hmem).trans hle
    · exact (h.le i).trans hle
  · intro j row hj hmem
    rcases hown.pending_delete heffect hj with ⟨hid, hstarted, hcount | ⟨row', record, hji, hc,
      hpending, hrecord, hvisit, hnew⟩⟩ | ⟨hnone, _⟩
    · have hold : (⟨.delete, row⟩ : Operation) ∈ (s.trxes j).pending := by
        rw [← List.count_pos_iff, ← hcount row]
        exact List.count_pos_iff.mpr hmem
      obtain ⟨record, hrecord, hbegin, hend⟩ := hown.deleted j row hstarted hold
      obtain ⟨record', hrecord', hbegin', hend'⟩ :=
        hown.stays h hcond heffect hstarted hrecord (Or.inl ⟨hbegin, hend⟩)
      exact ⟨record', hrecord', by omega, by omega⟩
    · subst hji hc
      by_cases hrow : row = row'
      · subst hrow
        have hbegin := (hown.deletable hcond hrecord hvisit).1
        exact ⟨_, hnew, hbegin, by rw [hid]⟩
      · rw [hpending] at hmem
        have hold : (⟨.delete, row⟩ : Operation) ∈ (s.trxes j).pending := by
          simpa [hrow] using hmem
        obtain ⟨record, hrecord, hbegin, hend⟩ := hown.deleted j row hstarted hold
        obtain ⟨record', hrecord', hbegin', hend'⟩ :=
          hown.stays h hcond heffect hstarted hrecord (Or.inl ⟨hbegin, hend⟩)
        exact ⟨record', hrecord', by omega, by omega⟩
    · rw [hnone] at hmem
      cases hmem
  · intro j row hj hinserted
    have hrun := hown.pending_delete heffect hj
    rcases hrun with ⟨hid, hstarted, _⟩ | ⟨hempty, hnew⟩
    · rcases inserted_before h heffect hj hid hinserted with hinserted | ⟨data, hrecord⟩
      · obtain ⟨record, hrecord, hbegin, hend⟩ := hown.inserted j row hstarted hinserted
        obtain ⟨record', hrecord', hbegin', hend'⟩ :=
          hown.stays h hcond heffect hstarted hrecord (Or.inr ⟨hbegin, hend⟩)
        exact ⟨record', hrecord', by omega, by omega⟩
      · exact ⟨_, hrecord, by rw [hid], rfl⟩
    · -- a transaction that starts has inserted nothing
      exfalso
      rcases hinserted with hmem | ⟨operation, hphase⟩
      · rcases heffect.trx_entry hmem with hmem | ⟨heq, _, _⟩
        · have := hown.logged _ _ hmem
          omega
        · have := h.le i
          omega
      · simp [MvccTrx.pending, hphase] at hempty
  · intro j row hj
    rcases hown.pending_delete heffect hj with ⟨hid, hstarted, hcount | ⟨row', record, hji, hc,
      hpending, hrecord, hvisit, hnew⟩⟩ | ⟨hnone, _⟩
    · rw [hcount row]
      exact hown.once j row hstarted
    · subst hji hc
      rw [hpending, List.count_append]
      by_cases hrow : row = row'
      · subst hrow
        have hzero : (s.trxes j).pending.count ⟨.delete, row⟩ = 0 := by
          rw [List.count_eq_zero]
          intro hmem
          obtain ⟨record', hrecord', _, hend⟩ := hown.deleted j row hstarted hmem
          rw [hrecord] at hrecord'
          cases hrecord'
          have hpos := h.pos j (Or.inl hstarted)
          have := (hown.deletable hcond hrecord hvisit).2
          omega
        simp [hzero]
      · have := hown.once j row hstarted
        simp [Ne.symm hrow, this]
    · simp [hnone]

end OwnWrites

/-! ## Runs -/

theorem OwnWrites.readsOwn (hown : OwnWrites s) (h : Ids s) : ReadsOwn s := by
  intro i hstarted
  have hpos := h.pos i (Or.inl hstarted)
  refine ⟨?_, ?_, fun row => hown.once i row hstarted⟩
  · intro row hmem record hrecord mode
    obtain ⟨record', hrecord', hbegin, hend⟩ := hown.deleted i row hstarted hmem
    obtain rfl := Option.some.inj (hrecord.symm.trans hrecord')
    unfold visitRecord
    rw [if_neg (by omega), if_neg (by omega), if_pos (by omega)]
    cases mode with
    | readOnly => exact if_neg (by omega)
    | readWrite => exact if_neg (by omega)
  · intro row hinserted _
    obtain ⟨record, hrecord, hbegin, hend⟩ := hown.inserted i row hstarted hinserted
    refine ⟨record, hrecord, ?_⟩
    intro mode
    unfold visitRecord
    rw [if_neg (by omega), if_pos (by omega), if_pos (by omega)]

/-- Every transaction reads its own writes in every run in which none deletes a record that it
has inserted, and UPDATEs and their rollbacks meet the records that they should. -/
theorem readsOwn_of_run (calls : List (Nat × Call)) (s' : Db)
    (hrun : Run call OwnApart create calls s') : ReadsOwn s' := by
  have hlast : Ids s' ∧ OwnWrites s' := by
    apply hrun.invariant (I := fun s => Ids s ∧ OwnWrites s)
    · rintro s ⟨i, c⟩ s' ⟨hids, hown⟩ hcond hcall
      have heffect := call_effect hcall
      exact ⟨hids.effect hcond.fits heffect, hown.effect hids hcond heffect⟩
    · exact ⟨Ids.create, OwnWrites.create⟩
  exact hlast.2.readsOwn hlast.1

/-- The operation that a rollback is to undo next. -/
def undoing (s : Db) (i : Nat) : Option Operation :=
  match (s.trxes i).phase with
  | .rollingBack rest => rest.head?
  | _ => none

/-- Of two deletions side by side one is rolled back, and the other is still under way. -/
theorem readsOwn_of_run_sideBySide : ∃ s' : Db, ReadsOwn s' ∧ (s'.trxes 1).started = true ∧
    (s'.trxes 1).pending = [⟨.delete, ⟨1, ⟨1, 0⟩⟩⟩] ∧
    s'.visit 5 .readOnly ⟨1, ⟨1, 1⟩⟩ = .ok () := by
  let plain : Db → Nat × Call → Prop := fun s c => s.Plain c ∧
    OnDelete (fun record => record.beginXid ≠ -(s.trxes c.1).trxId) s c ∧
    (c.2 = .rollbackOperation → ∀ op ∈ undoing s c.1, op.type ≠ .insert)
  let calls : List (Nat × Call) :=
    (0, .startIfNeed) :: inserts 0 ⟨1, ⟨1, 0⟩⟩ [7] ++ inserts 0 ⟨1, ⟨1, 1⟩⟩ [8] ++ commits 0 2 ++
      [(1, .startIfNeed), (2, .startIfNeed)] ++ deletes 1 ⟨1, ⟨1, 0⟩⟩ ++ deletes 2 ⟨1, ⟨1, 1⟩⟩ ++
      rollbacks 2 1
  have hplain : ∀ s c, plain s c → OwnApart s c := by
    rintro s ⟨i, c⟩ ⟨hplain, hdelete, hundo⟩
    refine ⟨hplain.fits, hdelete, ?_, ?_⟩
    · rintro data rfl
      exact hplain.elim
    · intro hc row rest record hphase _
      have hop : ⟨.insert, row⟩ ∈ undoing s i := by
        rw [undoing, hphase]
        rfl
      exact absurd rfl (hundo hc _ hop)
  have hcheck : (Run.check call plain create calls).map (fun s' => decide
      ((s'.trxes 1).started = true ∧ (s'.trxes 1).pending = [⟨.delete, ⟨1, ⟨1, 0⟩⟩⟩] ∧
        s'.visit 5 .readOnly ⟨1, ⟨1, 1⟩⟩ = .ok ())) = some true := by
    decide
  obtain ⟨s', hrun, hfacts⟩ := Option.map_eq_some_iff.mp hcheck
  have hown : Run call OwnApart create calls s' := (Run.of_check hrun).mono hplain
  exact ⟨s', readsOwn_of_run calls s' hown, of_decide_eq_true hfacts⟩

/-- A transaction still sees a record that it has inserted and deleted. -/
theorem inserted_deleted_not_readsOwn : ∃ (calls : List (Nat × Call)) (s' : Db),
    Run call Plain create calls s' ∧ ¬ReadsOwn s' := by
  let row : RowId := ⟨1, ⟨1, 0⟩⟩
  let calls : List (Nat × Call) := (0, .startIfNeed) :: inserts 0 row [7] ++ deletes 0 row
  have hcheck : (Run.check call Plain create calls).map (fun s' => decide
      ((s'.trxes 0).started = true ∧ (s'.trxes 0).trxId = 1 ∧
        s'.records row = some ⟨-1, -1, [7]⟩ ∧
        ⟨.delete, row⟩ ∈ (s'.trxes 0).pending)) = some true := by decide
  obtain ⟨s', hrun, hfacts⟩ := Option.map_eq_some_iff.mp hcheck
  obtain ⟨hstarted, hid, hrecord, hmem⟩ := of_decide_eq_true hfacts
  refine ⟨calls, s', Run.of_check hrun, ?_⟩
  intro hown
  have hinvisible := (hown 0 hstarted).1 row hmem _ hrecord .readOnly
  rw [hid] at hinvisible
  revert hinvisible
  decide

end Db

end ObHtap.Mvcc
