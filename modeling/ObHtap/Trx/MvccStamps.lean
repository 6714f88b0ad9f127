import ObHtap.Trx.MvccInvariant

/-!
# What commits write

A commit puts its id into one record after the other.  Where no other transaction deletes such a
record before the commit has returned, all of them carry the id when it returns.
-/

namespace ObHtap.Mvcc

namespace Db

variable {s s' : Db} {i : Nat} {c : Call} {row : RowId} {record : Record}

/-! ## A commit id at the end of a record -/

/-- The object is in a commit. -/
def Committing (s : Db) (i : Nat) : Prop :=
  ∃ commitXid rest, (s.trxes i).phase = .committing commitXid rest

/-- Without a deletion a call takes no id from the end of a record, and it changes the begin of
the record only when the commit of its insertion sets it. -/
theorem endXid_stays (h : Inv s) (hplain : s.Plain (i, c)) (heffect : Effect s i c s')
    (hrecord : s.records row = some record) (hpos : 0 < record.endXid)
    (hdelete : c = .deleteRecord row →
      visitRecord (s.trxes i).trxId .readWrite record ≠ .ok ())
    (hbegin : 0 < record.beginXid ∨ ∃ j, s.Committing j ∧ record.beginXid = -(s.trxes j).trxId) :
    ∃ record', s'.records row = some record' ∧ (record' = record ∨
      record.beginXid < 0 ∧ 0 < record'.beginXid ∧ record'.endXid = record.endXid) := by
  have hsame : s'.records row = s.records row → ∃ record', s'.records row = some record' ∧
      (record' = record ∨
        record.beginXid < 0 ∧ 0 < record'.beginXid ∧ record'.endXid = record.endXid) := by
    intro hr
    exact ⟨record, hr.trans hrecord, Or.inl rfl⟩
  rcases heffect.same_or_change hplain with ⟨hrecords, _⟩ | ⟨ch, phase, rfl, hchange⟩
  · exact hsame (congrFun hrecords row)
  by_cases hrow : row = ch.row
  swap
  · exact hsame (changed_records_of_ne hrow)
  cases hchange with
  | insert hphase hstarted hfree =>
    obtain rfl := hrow
    rw [hrecord] at hfree
    cases hfree
  | delete hphase hstarted hrecord' hvisit =>
    obtain rfl := hrow
    rw [hrecord] at hrecord'
    cases hrecord'
    exact absurd hvisit (hdelete rfl)
  | @commitInsert commitXid _ _ _ hphase hrecord' howner =>
    obtain rfl := hrow
    rw [hrecord] at hrecord'
    cases hrecord'
    have hpositive := (h.ids.commit i commitXid _ hphase).2.1
    have hid := h.ids.pos i (Or.inr (by simp [MvccTrx.pending, hphase]))
    exact ⟨_, changed_records_self _ _ _ _, Or.inr ⟨by omega, hpositive, rfl⟩⟩
  | commitDelete hphase hrecord' howner | undoDelete hphase hrecord' howner =>
    obtain rfl := hrow
    rw [hrecord] at hrecord'
    cases hrecord'
    have hid := h.ids.pos i (Or.inr (by simp [MvccTrx.pending, hphase]))
    omega
  | undoInsert hphase hrecord' =>
    obtain rfl := hrow
    have hmem := MvccTrx.mem_rollingBack hphase
    have howner := (h.owned row).beginXid_of_insert hmem hrecord
    have hid := h.ids.pos i (Or.inr (List.ne_nil_of_mem hmem))
    -- the owner of the record is not in a commit
    rcases hbegin with hbegin | ⟨j, ⟨commitXid, rest', hcommitting⟩, hj⟩
    · omega
    · obtain rfl := h.eq_of_trxId hmem (howner.symm.trans hj)
      rw [hphase] at hcommitting
      cases hcommitting

theorem beginXid_stays (h : Inv s) (hplain : s.Plain (i, c)) (heffect : Effect s i c s')
    (hrecord : s.records row = some record) (hpos : 0 < record.beginXid) :
    ∃ record', s'.records row = some record' ∧ record'.beginXid = record.beginXid := by
  rcases heffect.same_or_change hplain with ⟨hrecords, _⟩ | ⟨ch, phase, rfl, hchange⟩
  · exact ⟨record, (congrFun hrecords row).trans hrecord, rfl⟩
  by_cases hrow : row = ch.row
  swap
  · exact ⟨record, (changed_records_of_ne hrow).trans hrecord, rfl⟩
  cases hchange with
  | insert hphase hstarted hfree =>
    obtain rfl := hrow
    rw [hrecord] at hfree
    cases hfree
  | delete hphase hstarted hrecord' hvisit =>
    obtain rfl := hrow
    rw [hrecord] at hrecord'
    cases hrecord'
    exact ⟨_, changed_records_self _ _ _ _, rfl⟩
  | commitDelete hphase hrecord' howner | undoDelete hphase hrecord' howner =>
    obtain rfl := hrow
    rw [hrecord] at hrecord'
    cases hrecord'
    exact ⟨_, changed_records_self _ _ _ _, rfl⟩
  | commitInsert hphase hrecord' howner =>
    obtain rfl := hrow
    rw [hrecord] at hrecord'
    cases hrecord'
    have hid := h.ids.pos i (Or.inr (by simp [MvccTrx.pending, hphase]))
    omega
  | undoInsert hphase hrecord' =>
    obtain rfl := hrow
    have hmem := MvccTrx.mem_rollingBack hphase
    have howner := (h.owned row).beginXid_of_insert hmem hrecord
    have hid := h.ids.pos i (Or.inr (List.ne_nil_of_mem hmem))
    omega

/-! ## In a commit -/

/-- A deletion does not meet a record at whose end a commit that has not returned has put its
id. -/
def SparesEnds (s : Db) : Nat × Call → Prop :=
  OnDelete (fun record => ∀ j commitXid rest,
    (s.trxes j).phase = .committing commitXid rest → record.endXid ≠ commitXid) s

/-- The records that a commit has dealt with carry its id at their end. -/
def EndsStamped (s : Db) : Prop :=
  ∀ i commitXid rest, (s.trxes i).phase = .committing commitXid rest →
    ∃ done, (s.trxes i).operations = done ++ rest ∧
      ∀ row, ⟨.delete, row⟩ ∈ done → ∃ record, s.records row = some record ∧
        record.endXid = commitXid ∧
        (0 < record.beginXid ∨ record.beginXid = -(s.trxes i).trxId)

theorem Effect.other (heffect : Effect s i c s') {j : Nat} (hj : j ≠ i) :
    s'.trxes j = s.trxes j := by
  cases heffect with
  | idle => rfl
  | _ => exact setTrx_trxes_of_ne hj _

/-- Where only the first `n` objects make calls, the others are as new at every step. -/
theorem run_below {C : Db → Nat × Call → Prop} {calls : List (Nat × Call)} {n : Nat}
    (hrun : Run call (fun s c => c.1 < n ∧ C s c) create calls s') :
    Run call (fun s c => (∀ j, n ≤ j → s.trxes j = create.trxes j) ∧ C s c) create calls s' := by
  have hkeep : ∀ s c s', (∀ j, n ≤ j → s.trxes j = create.trxes j) → c.1 < n ∧ C s c →
      s.call c = some s' → ∀ j, n ≤ j → s'.trxes j = create.trxes j := by
    intro s c s' hnew hc hcall j hj
    rw [(call_effect hcall).other (Nat.ne_of_gt (hc.1.trans_le hj))]
    exact hnew j hj
  exact (hrun.strengthen hkeep fun _ _ => rfl).mono fun _ _ h => ⟨h.1, h.2.2⟩

/-- A commit goes on where it was, begins, or has dealt with one operation more. -/
theorem Effect.committing (heffect : Effect s i c s') {j : Nat} {commitXid : Int}
    {rest : List Operation} (hphase : (s'.trxes j).phase = .committing commitXid rest) :
    (s'.trxes j).trxId = (s.trxes j).trxId ∧
      (s'.trxes j).operations = (s.trxes j).operations ∧
      ((s.trxes j).phase = .committing commitXid rest ∨
        c = .commit ∧ commitXid = nextTrxId s.currentTrxId ∧ (s.trxes j).operations = rest ∨
        ∃ op record, c = .commitOperation ∧
          (s.trxes j).phase = .committing commitXid (op :: rest) ∧
          s'.records op.row = some record ∧ ∃ old, s.records op.row = some old ∧
          (op.type = .delete → record.endXid = commitXid ∧ record.beginXid = old.beginXid) ∧
          (op.type = .insert → record.beginXid = commitXid ∧ record.endXid = old.endXid)) := by
  by_cases hj : j = i
  · subst hj
    cases heffect with
    | idle => exact ⟨rfl, rfl, Or.inl hphase⟩
    | start hrunning | scan hrunning | insert hrunning | delete hrunning | update hrunning
    | rollback hrunning =>
      rw [setTrx_trxes_self] at hphase
      simp [hrunning] at hphase
    | logged | committed | undoInsert | undoDelete | rolledBack =>
      rw [setTrx_trxes_self] at hphase
      cases hphase
    | commit hrunning =>
      rw [setTrx_trxes_self] at hphase ⊢
      cases hphase
      exact ⟨rfl, rfl, Or.inr (Or.inl ⟨rfl, rfl, rfl⟩)⟩
    | @commitInsert commitXid' row rest' record hcommitting hrecord howner =>
      have hnew := changed_records_self s j
        (.update row { record with beginXid := commitXid' }) (.committing commitXid' rest')
      rw [setTrx_trxes_self] at hphase ⊢
      cases hphase
      exact ⟨rfl, rfl, Or.inr (Or.inr ⟨_, _, rfl, hcommitting, hnew, _, hrecord,
        fun h => (nomatch h), fun _ => ⟨rfl, rfl⟩⟩)⟩
    | @commitDelete commitXid' row rest' record hcommitting hrecord howner =>
      have hnew := changed_records_self s j
        (.update row { record with endXid := commitXid' }) (.committing commitXid' rest')
      rw [setTrx_trxes_self] at hphase ⊢
      cases hphase
      exact ⟨rfl, rfl, Or.inr (Or.inr ⟨_, _, rfl, hcommitting, hnew, _, hrecord,
        fun _ => ⟨rfl, rfl⟩, fun h => (nomatch h)⟩)⟩
  · rw [heffect.other hj] at hphase ⊢
    exact ⟨rfl, rfl, Or.inl hphase⟩

/-- A commit stays where it is, or it returns, or it deals with its next operation. -/
theorem Effect.commit_next (heffect : Effect s i c s') {j : Nat} {commitXid : Int}
    {rest : List Operation} (hphase : (s.trxes j).phase = .committing commitXid rest) :
    (s'.trxes j).phase = .committing commitXid rest ∨ rest = [] ∨
      ∃ op rest' record old, rest = op :: rest' ∧
        (s'.trxes j).phase = .committing commitXid rest' ∧
        s'.records op.row = some record ∧ s.records op.row = some old ∧
        (op.type = .delete → record.endXid = commitXid ∧ record.beginXid = old.beginXid) ∧
        (op.type = .insert → record.beginXid = commitXid) := by
  by_cases hj : j = i
  swap
  · exact Or.inl (heffect.other hj ▸ hphase)
  subst hj
  have hno : ∀ {phase : Phase}, (s.trxes j).phase = phase →
      (∀ commitXid rest, phase ≠ .committing commitXid rest) → False := by
    intro phase heq hne
    exact hne _ _ (heq.symm.trans hphase)
  cases heffect with
  | idle => exact Or.inl hphase
  | start h | scan h | insert h | delete h | update h | logged h | commit h | rollback h
  | undoInsert h | undoDelete h | rolledBack h => exact (hno h (by simp)).elim
  | committed h =>
    obtain ⟨_, hrest⟩ := Phase.committing.inj (h.symm.trans hphase)
    exact Or.inr (Or.inl hrest.symm)
  | @commitInsert commitXid' row rest' record h hrecord howner =>
    obtain ⟨rfl, rfl⟩ := Phase.committing.inj (h.symm.trans hphase)
    have hnew := changed_records_self s j
      (.update row { record with beginXid := commitXid' }) (.committing commitXid' rest')
    refine Or.inr (Or.inr ⟨_, rest', _, record, rfl, ?_, hnew, hrecord, by simp, by simp⟩)
    rw [setTrx_trxes_self]
  | @commitDelete commitXid' row rest' record h hrecord howner =>
    obtain ⟨rfl, rfl⟩ := Phase.committing.inj (h.symm.trans hphase)
    have hnew := changed_records_self s j
      (.update row { record with endXid := commitXid' }) (.committing commitXid' rest')
    refine Or.inr (Or.inr ⟨_, rest', _, record, rfl, ?_, hnew, hrecord, by simp, by simp⟩)
    rw [setTrx_trxes_self]

theorem EndsStamped.effect (hstamped : EndsStamped s) (h : Inv s) (hplain : s.Plain (i, c))
    (hdelete : s.SparesEnds (i, c)) (heffect : Effect s i c s') : EndsStamped s' := by
  intro j commitXid rest hphase
  obtain ⟨hid, hoperations, hcases⟩ := heffect.committing hphase
  -- what is done stays as it is
  have hstays : ∀ {rest₀}, (s.trxes j).phase = .committing commitXid rest₀ → ∀ {row record},
      s.records row = some record → record.endXid = commitXid →
      (0 < record.beginXid ∨ record.beginXid = -(s.trxes j).trxId) →
      ∃ record, s'.records row = some record ∧ record.endXid = commitXid ∧
        (0 < record.beginXid ∨ record.beginXid = -(s'.trxes j).trxId) := by
    intro rest₀ hcommitting row record hrecord hend hbegin
    obtain ⟨_, hpos, hle, _⟩ := h.ids.commit j commitXid rest₀ hcommitting
    have hspared : c = .deleteRecord row →
        visitRecord (s.trxes i).trxId .readWrite record ≠ .ok () := by
      rintro rfl hvisit
      exact hdelete.apply hrecord hvisit j commitXid rest₀ hcommitting hend
    obtain ⟨record', hrecord', hcases⟩ := endXid_stays h hplain heffect hrecord (by omega) hspared
      (hbegin.imp_right fun hb => ⟨j, ⟨_, _, hcommitting⟩, hb⟩)
    rw [hid]
    rcases hcases with rfl | ⟨_, hbegin', hend'⟩
    · exact ⟨record', hrecord', hend, hbegin⟩
    · exact ⟨record', hrecord', hend'.trans hend, Or.inl hbegin'⟩
  rcases hcases with hcommitting | ⟨_, _, hrest⟩ |
    ⟨op, new, _, hcommitting, hnew, old, hold, hdeleted, _⟩
  · obtain ⟨done, hdone, hrows⟩ := hstamped j commitXid rest hcommitting
    refine ⟨done, hoperations.trans hdone, ?_⟩
    intro row hmem
    obtain ⟨record, hrecord, hend, hbegin⟩ := hrows row hmem
    exact hstays hcommitting hrecord hend hbegin
  · refine ⟨[], hoperations.trans hrest, ?_⟩
    intro row hmem
    cases hmem
  · obtain ⟨done, hdone, hrows⟩ := hstamped j commitXid _ hcommitting
    refine ⟨done ++ [op], by rw [hoperations, hdone, List.append_assoc]; rfl, ?_⟩
    intro row hmem
    rcases List.mem_append.mp hmem with hmem | hmem
    · obtain ⟨record, hrecord, hend, hbegin⟩ := hrows row hmem
      exact hstays hcommitting hrecord hend hbegin
    · obtain rfl := List.mem_singleton.mp hmem
      obtain ⟨hend, hbegin⟩ := hdeleted rfl
      have hpending : (⟨.delete, row⟩ : Operation) ∈ (s.trxes j).pending := by
        simp [MvccTrx.pending, hcommitting]
      obtain ⟨old', hold', howner⟩ := (h.owned row).delete_pending hpending
      rw [hold] at hold'
      cases hold'
      refine ⟨new, hnew, hend, ?_⟩
      rwa [hid, hbegin]

theorem EndsStamped.create : EndsStamped create := by
  intro i commitXid rest hphase
  cases hphase

/-- A record that is deleted by a commit id. -/
def Deleted (s : Db) (row : RowId) (commitXid : Int) : Prop :=
  ∃ record, s.records row = some record ∧ record.endXid = commitXid ∧ 0 < record.beginXid

/-- When a commit returns, all that its transaction has deleted is deleted by its id. -/
theorem EndsStamped.deleted (hstamped : EndsStamped s) (h : Inv s) {commitXid : Int}
    (hphase : (s.trxes i).phase = .committing commitXid [])
    (hmem : ⟨.delete, row⟩ ∈ (s.trxes i).operations) : s.Deleted row commitXid := by
  obtain ⟨done, hdone, hrows⟩ := hstamped i commitXid [] hphase
  rw [List.append_nil] at hdone
  obtain ⟨record, hrecord, hend, hbegin⟩ := hrows row (hdone ▸ hmem)
  refine ⟨record, hrecord, hend, ?_⟩
  rcases hbegin with hbegin | hbegin
  · exact hbegin
  -- the owner of an uncommitted record would have its insertion left
  by_contra hnot
  have hne := ((h.owned row).begin_ne hrecord).1
  obtain ⟨j, hj, howner⟩ := (h.owned row).insert_owner hrecord (by omega)
  obtain rfl := h.eq_of_trxId hj (howner.symm.trans hbegin)
  simp [MvccTrx.pending, hphase] at hj

/-! ## Committed deletions

A deletion that has been committed stays as long as no other transaction deletes the record
again.  A transaction that started before the commit still sees the record and can do so: it
overwrites the commit id, and its rollback writes the largest id. -/

/-- No record that is deleted by a commit id is deleted again. -/
def DeletesOnce : Db → Nat × Call → Prop :=
  OnDelete fun record => ¬(0 < record.endXid ∧ record.endXid ≠ maxTrxId)

instance (s : Db) (c : Nat × Call) : Decidable (DeletesOnce s c) :=
  inferInstanceAs (Decidable (OnDelete _ s c))

/-- The run has come to `s'`.  Every record that a transaction had deleted when its commit
returned is invisible to the ids behind the commit id. -/
def DeletionsStay (calls : List (Nat × Call)) (s' : Db) : Prop :=
  ∀ before after i s commitXid row, calls = before ++ (i, .finishCommit) :: after →
    before.foldlM call create = some s → (s.trxes i).phase = .committing commitXid [] →
    ⟨.delete, row⟩ ∈ (s.trxes i).operations →
    ∀ trxId mode, commitXid < trxId → s'.visit trxId mode row = .error .recordInvisible

/-! ## Runs -/

theorem Deleted.visit {commitXid trxId : Int} (h : s.Deleted row commitXid)
    (hpos : 0 < commitXid) (hlt : commitXid < trxId) (mode : ReadWriteMode) :
    s.visit trxId mode row = .error .recordInvisible := by
  obtain ⟨record, hrecord, hend, hbegin⟩ := h
  rw [Db.visit, hrecord]
  simp only [visitRecord]
  rw [if_pos ⟨hbegin, by omega⟩, if_neg (by omega)]

theorem Deleted.effect {commitXid : Int} (hdeleted : s.Deleted row commitXid) (h : Inv s)
    (hpos : 0 < commitXid) (hmax : commitXid ≠ maxTrxId) (hplain : s.Plain (i, c))
    (hdelete : DeletesOnce s (i, c)) (heffect : Effect s i c s') : s'.Deleted row commitXid := by
  obtain ⟨record, hrecord, rfl, hbegin⟩ := hdeleted
  have hspared : c = .deleteRecord row →
      visitRecord (s.trxes i).trxId .readWrite record ≠ .ok () := by
    rintro rfl hvisit
    exact hdelete.apply hrecord hvisit ⟨hpos, hmax⟩
  obtain ⟨record', hrecord', rfl | ⟨hneg, _⟩⟩ :=
    endXid_stays h hplain heffect hrecord hpos hspared (Or.inl hbegin)
  · exact ⟨record', hrecord', rfl, hbegin⟩
  · omega

theorem DeletesOnce.sparesEnds {c : Nat × Call} (h : Inv s) (hdelete : DeletesOnce s c) :
    s.SparesEnds c := by
  apply OnDelete.mono hdelete
  intro record hrecord j commitXid rest hphase hend
  obtain ⟨_, hpos, hle, _⟩ := h.ids.commit j commitXid rest hphase
  have hshort := h.ids.short
  exact hrecord ⟨by omega, by omega⟩

/-- Every deletion of a committed transaction stays, in every run in which no deletion meets a
record that is deleted by a commit id. -/
theorem deletionsStay_of_run (calls : List (Nat × Call)) (s' : Db)
    (hrun : Run call (fun s c => s.Plain c ∧ DeletesOnce s c) create calls s') :
    DeletionsStay calls s' := by
  rintro before after i s commitXid row rfl heval hphase hmem trxId mode hlt
  obtain ⟨s₁, hbefore, hafter⟩ := hrun.append_inv
  obtain rfl := Option.some.inj (hbefore.eval.symm.trans heval)
  have hkeep : ∀ s c s', (Inv s ∧ EndsStamped s) → s.Plain c ∧ DeletesOnce s c →
      s.call c = some s' → Inv s' ∧ EndsStamped s' := by
    rintro s c s' ⟨hinv, hstamped⟩ ⟨hplain, hdelete⟩ hcall
    exact ⟨hinv.call hplain hcall,
      hstamped.effect hinv hplain (hdelete.sparesEnds hinv) (call_effect hcall)⟩
  obtain ⟨hinv, hstamped⟩ := hbefore.invariant hkeep ⟨Inv.create, EndsStamped.create⟩
  obtain ⟨_, hpos, hle, _⟩ := hinv.ids.commit i commitXid [] hphase
  have hshort := hinv.ids.short
  have hlast : Inv s' ∧ s'.Deleted row commitXid := by
    apply hafter.invariant (I := fun s => Inv s ∧ s.Deleted row commitXid)
    · rintro s c s' ⟨hinv, hdeleted⟩ ⟨hplain, hdelete⟩ hcall
      exact ⟨hinv.call hplain hcall,
        hdeleted.effect hinv hpos (by omega) hplain hdelete (call_effect hcall)⟩
    · exact ⟨hinv, hstamped.deleted hinv hphase hmem⟩
  exact hlast.2.visit hpos hlt mode

/-- Two rows are deleted side by side; one deletion is committed and the other rolled back. -/
def sideBySide : List (Nat × Call) :=
  (0, .startIfNeed) :: inserts 0 ⟨1, ⟨1, 0⟩⟩ [7] ++ inserts 0 ⟨1, ⟨1, 1⟩⟩ [8] ++ commits 0 2 ++
    [(1, .startIfNeed), (2, .startIfNeed)] ++ deletes 1 ⟨1, ⟨1, 0⟩⟩ ++ deletes 2 ⟨1, ⟨1, 1⟩⟩ ++
    rollbacks 2 1 ++ [(1, .commit), (1, .commitOperation)]

theorem deletionsStay_of_run_sideBySide : ∃ s' : Db,
    DeletionsStay (sideBySide ++ [(1, .finishCommit)]) s' ∧
      s'.visit 6 .readOnly ⟨1, ⟨1, 0⟩⟩ = .error .recordInvisible ∧
      s'.visit 6 .readOnly ⟨1, ⟨1, 1⟩⟩ = .ok () := by
  have hcheck : (Run.check call (fun s c => s.Plain c ∧ DeletesOnce s c) create
      (sideBySide ++ [(1, .finishCommit)])).map (fun s' => (s'.visit 6 .readOnly ⟨1, ⟨1, 0⟩⟩,
        s'.visit 6 .readOnly ⟨1, ⟨1, 1⟩⟩)) = some (.error .recordInvisible, .ok ()) := by decide
  obtain ⟨s', hrun, hvisits⟩ := Option.map_eq_some_iff.mp hcheck
  obtain ⟨hgone, hthere⟩ := Prod.mk.inj hvisits
  exact ⟨s', deletionsStay_of_run _ s' (Run.of_check hrun), hgone, hthere⟩

/-- A transaction that started before a deletion was committed deletes the record again, and the
record is visible to a new transaction until the second commit. -/
theorem overwritten_not_stays : ∃ (calls : List (Nat × Call)) (s' : Db),
    Run call Plain create calls s' ∧ ¬DeletionsStay calls s' := by
  let row : RowId := ⟨1, ⟨1, 0⟩⟩
  let before : List (Nat × Call) :=
    (0, .startIfNeed) :: inserts 0 row [7] ++ commits 0 1 ++ [(1, .startIfNeed), (2, .startIfNeed)] ++
      deletes 2 row ++ [(2, .commit), (2, .commitOperation)]
  let after : List (Nat × Call) := deletes 1 row
  have hbefore : (before.foldlM call create).map (fun s => decide
      ((s.trxes 2).phase = .committing 5 [] ∧ ⟨.delete, row⟩ ∈ (s.trxes 2).operations)) =
      some true := by decide
  have hlast : (Run.check call Plain create (before ++ (2, .finishCommit) :: after)).map
      (fun s' => s'.visit 6 .readOnly row) = some (.ok ()) := by decide
  obtain ⟨s, hs, hfacts⟩ := Option.map_eq_some_iff.mp hbefore
  obtain ⟨s', hrun, hvisit⟩ := Option.map_eq_some_iff.mp hlast
  obtain ⟨hphase, hmem⟩ := of_decide_eq_true hfacts
  refine ⟨_, s', Run.of_check hrun, ?_⟩
  intro hstay
  have hinvisible := hstay before after 2 s 5 row rfl hs hphase hmem 6 .readOnly (by decide)
  rw [hvisit] at hinvisible
  cases hinvisible

end Db

end ObHtap.Mvcc
