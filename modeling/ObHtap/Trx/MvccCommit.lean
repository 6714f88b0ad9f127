import ObHtap.Trx.MvccStamps
import ObHtap.Trx.MvccMarks

/-!
# Commits

Every `ASSERT` of `commit_with_trx_id` holds, and the commit puts its id into all records of its
transaction, in a run without `update_record` in which no transaction deletes a record twice and
none deletes a record that a commit under way has put its id into.  `update_record` stores the
transaction fields that the scan has read and enters the record as an insertion, so that the
commit finds no record of its own.
-/

namespace ObHtap.Mvcc

namespace Db

variable {s s' : Db} {i : Nat} {c : Call} {row : RowId} {record : Record}

/-- The commit of the object has dealt with all operations: a record that the transaction has
inserted and not deleted carries the commit id at its begin and the largest id at its end, one
that it has deleted carries the commit id at its end, and no record carries its own id. -/
structure AllStamped (s : Db) (i : Nat) (commitXid : Int) : Prop where
  inserted : ∀ row, ⟨.insert, row⟩ ∈ (s.trxes i).operations →
    ⟨.delete, row⟩ ∉ (s.trxes i).operations → ∃ record, s.records row = some record ∧
      record.beginXid = commitXid ∧ record.endXid = maxTrxId
  deleted : ∀ row, ⟨.delete, row⟩ ∈ (s.trxes i).operations →
    ∃ record, s.records row = some record ∧ record.endXid = commitXid
  none_left : 0 < (s.trxes i).trxId → ∀ row record, s.records row = some record →
    record.beginXid ≠ -(s.trxes i).trxId ∧ record.endXid ≠ -(s.trxes i).trxId

/-- No `ASSERT` in the loop of `commit_with_trx_id` fails, and behind the loop all records are
as the commit should leave them. -/
def CommitsStamp (s : Db) : Prop :=
  (∀ i, ∃ s', s.commitOperation i = .ok s') ∧
    ∀ i commitXid, (s.trxes i).phase = .committing commitXid [] → s.AllStamped i commitXid

/-- A deletion does not meet a record that its transaction has deleted before, or one that a
commit that has not returned has put its id into. -/
def DeletesApart (s : Db) (c : Nat × Call) : Prop :=
  OnDelete (fun record => record.endXid ≠ -(s.trxes c.1).trxId ∧
    ∀ j commitXid rest, (s.trxes j).phase = .committing commitXid rest →
      record.beginXid ≠ commitXid ∧ record.endXid ≠ commitXid) s c

theorem DeletesApart.new {c : Nat × Call} (h : DeletesApart s c) : DeletesNew s c :=
  OnDelete.mono h fun _ hrecord => hrecord.1

theorem DeletesApart.sparesEnds {c : Nat × Call} (h : DeletesApart s c) : s.SparesEnds c :=
  OnDelete.mono h fun _ hrecord j commitXid rest hphase => (hrecord.2 j commitXid rest hphase).2

/-! ## Operations that are done -/

/-- The inserted records that a commit has dealt with carry its id at their begin. -/
def BeginsStamped (s : Db) : Prop :=
  ∀ i commitXid rest, (s.trxes i).phase = .committing commitXid rest →
    ∃ done, (s.trxes i).operations = done ++ rest ∧
      ∀ row, ⟨.insert, row⟩ ∈ done → ∃ record, s.records row = some record ∧
        record.beginXid = commitXid ∧
        (⟨.delete, row⟩ ∈ (s.trxes i).operations ∨ record.endXid = maxTrxId)

theorem BeginsStamped.create : BeginsStamped create := by
  intro i commitXid rest hphase
  cases hphase

/-- The operations that are left in a commit are the last ones of the transaction. -/
theorem EndsStamped.mem_operations (h : EndsStamped s) {commitXid : Int} {rest : List Operation}
    (hphase : (s.trxes i).phase = .committing commitXid rest) {op : Operation}
    (hmem : op ∈ rest) : op ∈ (s.trxes i).operations := by
  obtain ⟨done, hdone, _⟩ := h i commitXid rest hphase
  rw [hdone]
  exact List.mem_append_right _ hmem

theorem BeginsStamped.effect (hstamped : BeginsStamped s) (hends : EndsStamped s) (h : Inv s)
    (hmarked : Marked s) (hplain : s.Plain (i, c)) (hdelete : DeletesApart s (i, c))
    (heffect : Effect s i c s') : BeginsStamped s' := by
  intro j commitXid rest hphase
  obtain ⟨_, hoperations, hcases⟩ := heffect.committing hphase
  have hstays : ∀ {rest₀}, (s.trxes j).phase = .committing commitXid rest₀ → ∀ {row record},
      s.records row = some record → record.beginXid = commitXid →
      (⟨.delete, row⟩ ∈ (s.trxes j).operations ∨ record.endXid = maxTrxId) →
      ∃ record, s'.records row = some record ∧ record.beginXid = commitXid ∧
        (⟨.delete, row⟩ ∈ (s'.trxes j).operations ∨ record.endXid = maxTrxId) := by
    intro rest₀ hcommitting row record hrecord hbegin hend
    obtain ⟨_, hpos, _, _⟩ := h.ids.commit j commitXid rest₀ hcommitting
    rw [hoperations]
    rcases hend with hend | hend
    · obtain ⟨record', hrecord', hbegin'⟩ :=
        beginXid_stays h hplain heffect hrecord (by omega)
      exact ⟨record', hrecord', hbegin'.trans hbegin, Or.inl hend⟩
    · have hspared : c = .deleteRecord row →
          visitRecord (s.trxes i).trxId .readWrite record ≠ .ok () := by
        rintro rfl hvisit
        exact ((hdelete.apply hrecord hvisit).2 j commitXid rest₀ hcommitting).1 hbegin
      have hmax : 0 < record.endXid := by
        rw [hend]
        decide
      obtain ⟨record', hrecord', rfl | ⟨hneg, _⟩⟩ :=
        endXid_stays h hplain heffect hrecord hmax hspared (Or.inl (by omega))
      · exact ⟨record', hrecord', hbegin, Or.inr hend⟩
      · omega
  rcases hcases with hcommitting | ⟨_, _, hrest⟩ |
    ⟨op, new, _, hcommitting, hnew, old, hold, _, hinserted⟩
  · obtain ⟨done, hdone, hrows⟩ := hstamped j commitXid rest hcommitting
    refine ⟨done, hoperations.trans hdone, ?_⟩
    intro row hmem
    obtain ⟨record, hrecord, hbegin, hend⟩ := hrows row hmem
    exact hstays hcommitting hrecord hbegin hend
  · refine ⟨[], hoperations.trans hrest, ?_⟩
    intro row hmem
    cases hmem
  · obtain ⟨done, hdone, hrows⟩ := hstamped j commitXid _ hcommitting
    refine ⟨done ++ [op], by rw [hoperations, hdone, List.append_assoc]; rfl, ?_⟩
    intro row hmem
    rcases List.mem_append.mp hmem with hmem | hmem
    · obtain ⟨record, hrecord, hbegin, hend⟩ := hrows row hmem
      exact hstays hcommitting hrecord hbegin hend
    · obtain rfl := List.mem_singleton.mp hmem
      obtain ⟨hbegin, hend⟩ := hinserted rfl
      have hpending : (⟨.insert, row⟩ : Operation) ∈ (s.trxes j).pending := by
        simp [MvccTrx.pending, hcommitting]
      refine ⟨new, hnew, hbegin, ?_⟩
      rw [hoperations, hend]
      rcases hmarked.insert j row old hpending hold with hmax | hmine
      · exact Or.inr hmax
      -- the transaction is deleting the record that it has inserted
      left
      have hpos := h.ids.pos j (Or.inr (List.ne_nil_of_mem hpending))
      obtain ⟨k, hk, howner⟩ := (h.owned row).delete_owner hold (by omega)
      obtain rfl := h.eq_of_trxId hk (howner.symm.trans hmine)
      apply hends.mem_operations hcommitting
      simpa [MvccTrx.pending, hcommitting] using hk

/-! ## Runs -/

theorem allStamped (h : Inv s) (hbegins : BeginsStamped s) (hends : EndsStamped s)
    {commitXid : Int} (hphase : (s.trxes i).phase = .committing commitXid []) :
    s.AllStamped i commitXid where
  inserted row hmem hnot := by
    obtain ⟨done, hdone, hrows⟩ := hbegins i commitXid [] hphase
    rw [List.append_nil] at hdone
    obtain ⟨record, hrecord, hbegin, hend⟩ := hrows row (hdone ▸ hmem)
    exact ⟨record, hrecord, hbegin, hend.resolve_left hnot⟩
  deleted row hmem := by
    obtain ⟨record, hrecord, hend, _⟩ := hends.deleted h hphase hmem
    exact ⟨record, hrecord, hend⟩
  none_left hpos row record hrecord := by
    have hnone : ∀ {j op}, op ∈ (s.trxes j).pending → (s.trxes i).trxId ≠ (s.trxes j).trxId := by
      intro j op hmem hid
      obtain rfl := h.ids.inj i j hpos hid
      simp [MvccTrx.pending, hphase] at hmem
    refine ⟨?_, ?_⟩
    · intro hbegin
      obtain ⟨j, hmem, howner⟩ := (h.owned row).insert_owner hrecord (by omega)
      exact hnone hmem (by omega)
    · intro hend
      obtain ⟨j, hmem, howner⟩ := (h.owned row).delete_owner hrecord (by omega)
      exact hnone hmem (by omega)

theorem commitOperation_ok (h : Inv s) (hmarked : Marked s) (i : Nat) :
    ∃ s', s.commitOperation i = .ok s' := by
  unfold commitOperation
  simp only
  split
  · rename_i commitXid op rest hphase
    have hmem := MvccTrx.mem_committing hphase
    obtain ⟨type, row⟩ := op
    cases type with
    | insert =>
      obtain ⟨record, hrecord, howner⟩ := (h.owned row).insert_pending hmem
      simp [hrecord, commitUpdater, howner]
    | delete =>
      obtain ⟨record, hrecord, howner⟩ := hmarked.delete i row hmem
      simp [hrecord, commitUpdater, howner]
  · exact ⟨s, rfl⟩

/-- Every commit goes through and leaves all records as it should, in every run without UPDATE in
which a transaction deletes a record once and spares the records of the commits under way. -/
theorem commitsStamp_of_run (calls : List (Nat × Call)) (s' : Db)
    (hrun : Run call (fun s c => s.Plain c ∧ DeletesApart s c) create calls s') :
    CommitsStamp s' := by
  have hkeep : ∀ s c s', (Inv s ∧ Marked s ∧ EndsStamped s ∧ BeginsStamped s) →
      s.Plain c ∧ DeletesApart s c → s.call c = some s' →
      Inv s' ∧ Marked s' ∧ EndsStamped s' ∧ BeginsStamped s' := by
    rintro s ⟨i, c⟩ s' ⟨hinv, hmarked, hends, hbegins⟩ ⟨hplain, hdelete⟩ hcall
    have heffect := call_effect hcall
    exact ⟨hinv.effect hplain heffect, hmarked.effect hinv hplain hdelete.new heffect,
      hends.effect hinv hplain hdelete.sparesEnds heffect,
      hbegins.effect hends hinv hmarked hplain hdelete heffect⟩
  obtain ⟨hinv, hmarked, hends, hbegins⟩ := hrun.invariant hkeep
    ⟨Inv.create, Marked.create, EndsStamped.create, BeginsStamped.create⟩
  exact ⟨fun i => commitOperation_ok hinv hmarked i,
    fun i commitXid hphase => allStamped hinv hbegins hends hphase⟩

/-- The commit ids that the first `n` objects put into records. -/
def commitIds (s : Db) (n : Nat) : List Int :=
  (List.range n).filterMap fun j =>
    match (s.trxes j).phase with
    | .committing commitXid _ => some commitXid
    | _ => none

/-- The condition of a step in a run of the first `n` objects. -/
def DeletesApartBelow (n : Nat) (s : Db) (c : Nat × Call) : Prop :=
  s.Plain c ∧ OnDelete (fun record => record.endXid ≠ -(s.trxes c.1).trxId ∧
    ∀ commitXid ∈ commitIds s n, record.beginXid ≠ commitXid ∧ record.endXid ≠ commitXid) s c

instance (n : Nat) (s : Db) (c : Nat × Call) : Decidable (DeletesApartBelow n s c) := by
  unfold DeletesApartBelow
  infer_instance

theorem apart_of_below {n : Nat} {calls : List (Nat × Call)}
    (hrun : Run call (fun s c => c.1 < n ∧ DeletesApartBelow n s c) create calls s') :
    Run call (fun s c => s.Plain c ∧ DeletesApart s c) create calls s' := by
  apply (run_below hrun).mono
  rintro s c ⟨hnew, hplain, hdelete⟩
  refine ⟨hplain, OnDelete.mono hdelete fun record hrecord => ⟨hrecord.1, ?_⟩⟩
  intro j commitXid rest hphase
  rcases Nat.lt_or_ge j n with hj | hj
  · exact hrecord.2 commitXid (List.mem_filterMap.mpr ⟨j, List.mem_range.mpr hj, by rw [hphase]⟩)
  · rw [hnew j hj] at hphase
    cases hphase

/-- The commit of one of two deletions is behind its loop, and the other has been rolled back. -/
theorem commitsStamp_of_run_sideBySide : ∃ s' : Db, CommitsStamp s' ∧
    (s'.trxes 1).phase = .committing 5 [] ∧ s'.records ⟨1, ⟨1, 0⟩⟩ = some ⟨2, 5, [7]⟩ ∧
    s'.records ⟨1, ⟨1, 1⟩⟩ = some ⟨2, maxTrxId, [8]⟩ := by
  have hcheck : (Run.check call (fun s c => c.1 < 3 ∧ DeletesApartBelow 3 s c) create
      sideBySide).map (fun s' => decide ((s'.trxes 1).phase = .committing 5 [] ∧
        s'.records ⟨1, ⟨1, 0⟩⟩ = some ⟨2, 5, [7]⟩ ∧
        s'.records ⟨1, ⟨1, 1⟩⟩ = some ⟨2, maxTrxId, [8]⟩)) = some true := by decide
  obtain ⟨s', hrun, hfacts⟩ := Option.map_eq_some_iff.mp hcheck
  exact ⟨s', commitsStamp_of_run _ s' (apart_of_below (Run.of_check hrun)),
    of_decide_eq_true hfacts⟩

/-- The commit of an update of a committed row finds the begin that the scan has read. -/
theorem updated_not_commitsStamp : ∃ (calls : List (Nat × Call)) (s' : Db),
    calls.foldlM call create = some s' ∧ ¬CommitsStamp s' := by
  let row : RowId := ⟨1, ⟨1, 0⟩⟩
  let calls : List (Nat × Call) :=
    (0, .startIfNeed) :: inserts 0 row [7] ++ commits 0 1 ++
      [(1, .startIfNeed), (1, .scan row), (1, .updateRecord [8]), (1, .logOperation), (1, .commit)]
  have heval : (calls.foldlM call create).map (fun s => decide
      ((s.trxes 1).phase = .committing 4 [⟨.insert, row⟩] ∧ (s.trxes 1).trxId = 3 ∧
        s.records row = some ⟨2, maxTrxId, [8]⟩)) = some true := by decide
  obtain ⟨s', hs', hfacts⟩ := Option.map_eq_some_iff.mp heval
  obtain ⟨hphase, hid, hrecord⟩ := of_decide_eq_true hfacts
  refine ⟨calls, s', hs', ?_⟩
  rintro ⟨hok, _⟩
  obtain ⟨s'', hcommit⟩ := hok 1
  simp [commitOperation, hphase, hid, hrecord, commitUpdater] at hcommit

end Db

end ObHtap.Mvcc
