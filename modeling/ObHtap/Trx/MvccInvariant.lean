import ObHtap.Trx.MvccEffect

/-!
# Ids and owners

In a run without `update_record` the ids of the transactions are different, and the negative
fields of the records tell which transactions still have an operation on them.
-/

namespace ObHtap.Mvcc

/-- The operations that are not committed or rolled back yet, in the order of their calls. -/
def MvccTrx.pending (trx : MvccTrx) : List Operation :=
  match trx.phase with
  | .running => trx.operations
  | .logging _ operation => trx.operations ++ [operation]
  | .committing _ rest => rest
  | .rollingBack rest => rest.reverse

theorem MvccTrx.mem_committing {trx : MvccTrx} {commitXid : Int} {op : Operation}
    {rest : List Operation} (hphase : trx.phase = .committing commitXid (op :: rest)) :
    op ∈ trx.pending := by
  simp [pending, hphase]

theorem MvccTrx.mem_rollingBack {trx : MvccTrx} {op : Operation} {rest : List Operation}
    (hphase : trx.phase = .rollingBack (op :: rest)) : op ∈ trx.pending := by
  simp [pending, hphase]

namespace Db

variable {s s' : Db} {i : Nat} {c : Call} {row : RowId} {record : Record}

/-! ## Ids -/

/-- The counter has not wrapped around.  A transaction that is started or has an operation left
has an id of its own, and the id of a commit is the id of no transaction. -/
structure Ids (s : Db) : Prop where
  nonneg : 0 ≤ s.currentTrxId
  short : s.currentTrxId < maxTrxId
  le : ∀ i, (s.trxes i).trxId ≤ s.currentTrxId
  commit : ∀ i commitXid rest, (s.trxes i).phase = .committing commitXid rest →
    (s.trxes i).trxId < commitXid ∧ 0 < commitXid ∧ commitXid ≤ s.currentTrxId ∧
      ∀ j, (s.trxes j).trxId ≠ commitXid
  commit_inj : ∀ i j commitXid rest rest', (s.trxes i).phase = .committing commitXid rest →
    (s.trxes j).phase = .committing commitXid rest' → i = j
  pos : ∀ i, (s.trxes i).started = true ∨ (s.trxes i).pending ≠ [] → 0 < (s.trxes i).trxId
  inj : ∀ i j, 0 < (s.trxes i).trxId → (s.trxes i).trxId = (s.trxes j).trxId → i = j
  idle : ∀ i, (s.trxes i).phase = .running → (s.trxes i).started = false →
    (s.trxes i).operations = []
  logging : ∀ i entry operation, (s.trxes i).phase = .logging entry operation →
    (s.trxes i).started = true

namespace Ids

theorem create : Ids create where
  nonneg := Int.le_refl 0
  short := by decide
  le _ := by simp [Db.create]
  commit _ _ _ h := nomatch h
  commit_inj _ _ _ _ _ h := nomatch h
  pos _ h := by simp [Db.create, MvccTrx.pending] at h
  inj _ _ h := by simp [Db.create] at h
  idle _ _ _ := rfl
  logging _ _ _ h := nomatch h

theorem set (h : Ids s) (hcurrent : s'.currentTrxId = s.currentTrxId) {trx : MvccTrx}
    (htrxes : s'.trxes = (s.setTrx i trx).trxes) (hid : trx.trxId = (s.trxes i).trxId)
    (hlive : trx.started = true ∨ trx.pending ≠ [] →
      (s.trxes i).started = true ∨ (s.trxes i).pending ≠ [])
    (hcommit : ∀ commitXid rest, trx.phase = .committing commitXid rest →
      ∃ rest', (s.trxes i).phase = .committing commitXid rest')
    (hidle : trx.phase = .running → trx.started = false → trx.operations = [])
    (hlogging : ∀ entry operation, trx.phase = .logging entry operation → trx.started = true) :
    Ids s' := by
  have hself : s'.trxes i = trx := by rw [htrxes, setTrx_trxes_self]
  have hother : ∀ j, j ≠ i → s'.trxes j = s.trxes j := by
    intro j hj
    rw [htrxes, setTrx_trxes_of_ne hj]
  have hids : ∀ j, (s'.trxes j).trxId = (s.trxes j).trxId := by
    intro j
    by_cases hj : j = i
    · rw [hj, hself, hid]
    · rw [hother j hj]
  have hcommits : ∀ j commitXid rest, (s'.trxes j).phase = .committing commitXid rest →
      ∃ rest', (s.trxes j).phase = .committing commitXid rest' := by
    intro j commitXid rest hphase
    by_cases hj : j = i
    · subst hj
      exact hcommit commitXid rest (hself ▸ hphase)
    · exact ⟨rest, hother j hj ▸ hphase⟩
  refine
    { nonneg := hcurrent ▸ h.nonneg
      short := hcurrent ▸ h.short
      le := ?_
      commit := ?_
      commit_inj := ?_
      pos := ?_
      inj := ?_
      idle := ?_
      logging := ?_ }
  · intro j
    rw [hids, hcurrent]
    exact h.le j
  · intro j commitXid rest hphase
    obtain ⟨rest', hphase'⟩ := hcommits j commitXid rest hphase
    simp only [hids, hcurrent]
    exact h.commit j commitXid rest' hphase'
  · intro j k commitXid rest rest' hj hk
    obtain ⟨_, hj'⟩ := hcommits j commitXid rest hj
    obtain ⟨_, hk'⟩ := hcommits k commitXid rest' hk
    exact h.commit_inj j k commitXid _ _ hj' hk'
  · intro j hj
    rw [hids]
    apply h.pos
    by_cases hji : j = i
    · subst hji
      exact hlive (hself ▸ hj)
    · exact hother j hji ▸ hj
  · intro j k
    rw [hids, hids]
    exact h.inj j k
  · intro j
    by_cases hj : j = i
    · rw [hj, hself]
      exact hidle
    · rw [hother j hj]
      exact h.idle j
  · intro j
    by_cases hj : j = i
    · rw [hj, hself]
      exact hlogging
    · rw [hother j hj]
      exact h.logging j

theorem start (h : Ids s) (hdraw : s.currentTrxId + 1 < maxTrxId)
    (hphase : (s.trxes i).phase = .running) (hoperations : (s.trxes i).operations = []) :
    Ids (s.draw.setTrx i
      { s.trxes i with trxId := nextTrxId s.currentTrxId, started := true }) := by
  have hnonneg := h.nonneg
  rw [nextTrxId_of_lt h.short]
  have hcurrent : (s.draw.setTrx i { s.trxes i with
      trxId := s.currentTrxId + 1, started := true }).currentTrxId = s.currentTrxId + 1 :=
    nextTrxId_of_lt h.short
  generalize hs' : s.draw.setTrx i { s.trxes i with
    trxId := s.currentTrxId + 1, started := true } = s' at hcurrent ⊢
  have hself : s'.trxes i = { s.trxes i with trxId := s.currentTrxId + 1, started := true } := by
    rw [← hs', setTrx_trxes_self]
  have hother : ∀ j, j ≠ i → s'.trxes j = s.trxes j := by
    intro j hj
    rw [← hs', setTrx_trxes_of_ne hj, draw_trxes]
  -- an object in a commit is not the one that starts
  have hcommits : ∀ j commitXid rest, (s'.trxes j).phase = .committing commitXid rest →
      (s.trxes j).phase = .committing commitXid rest := by
    intro j commitXid rest hj
    by_cases hji : j = i
    · subst hji
      rw [hself] at hj
      exact hj
    · rwa [hother j hji] at hj
  refine
    { nonneg := by omega
      short := by omega
      le := ?_
      commit := ?_
      commit_inj := ?_
      pos := ?_
      inj := ?_
      idle := ?_
      logging := ?_ }
  · intro j
    rw [hcurrent]
    by_cases hj : j = i
    · rw [hj, hself]
    · rw [hother j hj]
      have := h.le j
      omega
  · intro j commitXid rest hj
    have hphase' := hcommits j commitXid rest hj
    obtain ⟨hlt, hpos, hle, hne⟩ := h.commit j commitXid rest hphase'
    have hji : j ≠ i := by
      rintro rfl
      rw [hphase] at hphase'
      cases hphase'
    rw [hother j hji, hcurrent]
    refine ⟨hlt, hpos, by omega, ?_⟩
    intro k
    by_cases hk : k = i
    · rw [hk, hself]
      show s.currentTrxId + 1 ≠ commitXid
      omega
    · rw [hother k hk]
      exact hne k
  · intro j k commitXid rest rest' hj hk
    exact h.commit_inj j k commitXid rest rest' (hcommits _ _ _ hj) (hcommits _ _ _ hk)
  · intro j hj
    by_cases hji : j = i
    · rw [hji, hself]
      exact (by omega : 0 < s.currentTrxId + 1)
    · rw [hother j hji] at hj ⊢
      exact h.pos j hj
  · intro j k hpos heq
    have hj := h.le j
    have hk := h.le k
    by_cases hji : j = i <;> by_cases hki : k = i
    · exact hji.trans hki.symm
    · rw [hji, hself, hother k hki] at heq
      simp only at heq
      omega
    · rw [hki, hself, hother j hji] at heq
      simp only at heq
      omega
    · rw [hother j hji] at hpos heq
      rw [hother k hki] at heq
      exact h.inj j k hpos heq
  · intro j
    by_cases hj : j = i
    · rw [hj, hself]
      intro _ hstarted
      cases hstarted
    · rw [hother j hj]
      exact h.idle j
  · intro j
    by_cases hj : j = i
    · rw [hj, hself]
      intro _ _ _
      rfl
    · rw [hother j hj]
      exact h.logging j

theorem begin_commit (h : Ids s) (hdraw : s.currentTrxId + 1 < maxTrxId)
    (hphase : (s.trxes i).phase = .running) :
    Ids (s.draw.setTrx i
      { s.trxes i with
        started := false
        phase := .committing (nextTrxId s.currentTrxId) (s.trxes i).operations }) := by
  have hnonneg := h.nonneg
  rw [nextTrxId_of_lt h.short]
  generalize htrx : ({ s.trxes i with
    started := false
    phase := .committing (s.currentTrxId + 1) (s.trxes i).operations } : MvccTrx) = trx
  have hcurrent : (s.draw.setTrx i trx).currentTrxId = s.currentTrxId + 1 :=
    nextTrxId_of_lt h.short
  have hid : trx.trxId = (s.trxes i).trxId := by rw [← htrx]
  have hphase' : trx.phase = .committing (s.currentTrxId + 1) (s.trxes i).operations := by
    rw [← htrx]
  have hself : (s.draw.setTrx i trx).trxes i = trx := setTrx_trxes_self trx
  have hother : ∀ j, j ≠ i → (s.draw.setTrx i trx).trxes j = s.trxes j := by
    intro j hj
    rw [setTrx_trxes_of_ne hj, draw_trxes]
  have hids : ∀ j, ((s.draw.setTrx i trx).trxes j).trxId = (s.trxes j).trxId := by
    intro j
    by_cases hj : j = i
    · rw [hj, hself, hid]
    · rw [hother j hj]
  have hnew : ∀ j, ((s.draw.setTrx i trx).trxes j).trxId ≠ s.currentTrxId + 1 := by
    intro j
    rw [hids]
    have := h.le j
    omega
  refine
    { nonneg := by omega
      short := by omega
      le := ?_
      commit := ?_
      commit_inj := ?_
      pos := ?_
      inj := ?_
      idle := ?_
      logging := ?_ }
  · intro j
    rw [hids, hcurrent]
    have := h.le j
    omega
  · intro j commitXid rest hj
    rw [hcurrent]
    by_cases hji : j = i
    · subst hji
      rw [hself, hphase'] at hj
      cases hj
      rw [hids]
      have := h.le j
      exact ⟨by omega, by omega, Int.le_refl _, hnew⟩
    · rw [hother j hji] at hj ⊢
      obtain ⟨hlt, hpos, hle, hne⟩ := h.commit j commitXid rest hj
      refine ⟨hlt, hpos, by omega, ?_⟩
      intro k
      rw [hids]
      exact hne k
  · intro j k commitXid rest rest' hj hk
    by_cases hji : j = i <;> by_cases hki : k = i
    · exact hji.trans hki.symm
    · rw [hji, hself, hphase'] at hj
      rw [hother k hki] at hk
      cases hj
      have := (h.commit k _ rest' hk).2.2.1
      omega
    · rw [hki, hself, hphase'] at hk
      rw [hother j hji] at hj
      cases hk
      have := (h.commit j _ rest hj).2.2.1
      omega
    · rw [hother j hji] at hj
      rw [hother k hki] at hk
      exact h.commit_inj j k commitXid rest rest' hj hk
  · intro j hj
    rw [hids]
    apply h.pos
    by_cases hji : j = i
    · subst hji
      rw [hself, ← htrx] at hj
      simp only [MvccTrx.pending, hphase] at hj ⊢
      exact Or.inr (hj.resolve_left (by simp))
    · rwa [hother j hji] at hj
  · intro j k
    rw [hids, hids]
    exact h.inj j k
  · intro j
    by_cases hj : j = i
    · rw [hj, hself, hphase']
      intro hrunning
      cases hrunning
    · rw [hother j hj]
      exact h.idle j
  · intro j
    by_cases hj : j = i
    · rw [hj, hself, hphase']
      intro _ _ hlogging
      cases hlogging
    · rw [hother j hj]
      exact h.logging j

end Ids

/-- What all results on runs ask for: no UPDATE, and the ids do not run out. -/
def Plain (s : Db) (c : Nat × Call) : Prop :=
  match c.2 with
  | .updateRecord _ => False
  | .startIfNeed | .commit => s.currentTrxId + 1 < maxTrxId
  | _ => True

instance (s : Db) (c : Nat × Call) : Decidable (s.Plain c) := by
  unfold Plain
  split <;> infer_instance

/-- A condition on the records that `delete_record` marks. -/
def OnDelete (P : Record → Prop) (s : Db) (c : Nat × Call) : Prop :=
  match c.2 with
  | .deleteRecord row =>
    match s.records row with
    | some record => visitRecord (s.trxes c.1).trxId .readWrite record = .ok () → P record
    | none => True
  | _ => True

instance (P : Record → Prop) [DecidablePred P] (s : Db) (c : Nat × Call) :
    Decidable (OnDelete P s c) := by
  unfold OnDelete
  split
  · split <;> infer_instance
  · infer_instance

theorem OnDelete.apply {P : Record → Prop} (h : OnDelete P s (i, .deleteRecord row))
    (hrecord : s.records row = some record)
    (hvisit : visitRecord (s.trxes i).trxId .readWrite record = .ok ()) : P record := by
  simp only [OnDelete, hrecord] at h
  exact h hvisit

theorem OnDelete.intro {P : Record → Prop} {c : Nat × Call}
    (h : ∀ row record, c.2 = .deleteRecord row → s.records row = some record →
      visitRecord (s.trxes c.1).trxId .readWrite record = .ok () → P record) :
    OnDelete P s c := by
  unfold OnDelete
  split
  · rename_i row hcall
    split
    · rename_i record hrecord
      exact h row record hcall hrecord
    · trivial
  · trivial

theorem OnDelete.mono {P Q : Record → Prop} {c : Nat × Call} (h : OnDelete P s c)
    (hPQ : ∀ record, P record → Q record) : OnDelete Q s c := by
  unfold OnDelete at h ⊢
  split
  · split
    · intro hvisit
      apply hPQ
      simp_all
    · trivial
  · trivial

/-- The ids do not run out. -/
def Fits (s : Db) (c : Nat × Call) : Prop :=
  c.2 = .startIfNeed ∨ c.2 = .commit → s.currentTrxId + 1 < maxTrxId

instance (s : Db) (c : Nat × Call) : Decidable (s.Fits c) := by
  unfold Fits
  infer_instance

theorem Plain.fits {c : Nat × Call} (h : s.Plain c) : s.Fits c := by
  obtain ⟨i, c⟩ := c
  rintro (rfl | rfl)
  · exact h
  · exact h

theorem Ids.effect (h : Ids s) (hfits : s.Fits (i, c)) (heffect : Effect s i c s') :
    Ids s' := by
  cases heffect with
  | idle => exact h
  | start hphase _ hoperations => exact h.start (hfits (Or.inl rfl)) hphase hoperations
  | scan hphase hrecord =>
    exact h.set rfl rfl rfl id (fun _ rest hc => ⟨rest, hc⟩) (h.idle i) (h.logging i)
  | insert hphase hstarted _ | delete hphase hstarted _ _ | update hphase hstarted _ _ =>
    exact h.set rfl rfl rfl (fun _ => Or.inl hstarted) (by simp) (by simp)
      fun _ _ _ => hstarted
  | logged hphase hpos =>
    have hstarted := h.logging i _ _ hphase
    exact h.set rfl rfl rfl (fun _ => Or.inl hstarted) (by simp)
      (fun _ hnot => by simp [hstarted] at hnot) (by simp)
  | commit hphase => exact h.begin_commit (hfits (Or.inr rfl)) hphase
  | commitInsert hphase _ _ | commitDelete hphase _ _ =>
    refine h.set rfl rfl rfl ?_ ?_ ?_ ?_
    · intro _
      exact Or.inr (by simp [MvccTrx.pending, hphase])
    · intro commitXid rest hc
      cases hc
      exact ⟨_, hphase⟩
    · simp
    · simp
  | committed hphase _ | rolledBack hphase _ =>
    exact h.set rfl rfl rfl (fun hlive => hlive.imp_right (by simp [MvccTrx.pending])) (by simp)
      (fun _ _ => rfl) (by simp)
  | rollback hphase =>
    refine h.set rfl rfl rfl ?_ ?_ ?_ ?_
    · intro hlive
      right
      simpa [MvccTrx.pending, hphase] using hlive
    · simp
    · simp
    · simp
  | undoInsert hphase _ | undoDelete hphase _ _ =>
    refine h.set rfl rfl rfl ?_ ?_ ?_ ?_
    · intro _
      exact Or.inr (by simp [MvccTrx.pending, hphase])
    · simp
    · simp
    · simp

/-! ## Owners -/

/-- The negative fields of the record at `row` say who has an operation on it left. -/
structure OwnedAt (s : Db) (row : RowId) : Prop where
  begin_ne : ∀ {record}, s.records row = some record →
    record.beginXid ≠ 0 ∧ record.beginXid ≤ s.currentTrxId
  end_ne : ∀ {record}, s.records row = some record →
    record.endXid ≠ 0 ∧ (record.endXid ≤ s.currentTrxId ∨ record.endXid = maxTrxId)
  insert_pending : ∀ {i}, ⟨.insert, row⟩ ∈ (s.trxes i).pending →
    ∃ record, s.records row = some record ∧ record.beginXid = -(s.trxes i).trxId
  delete_pending : ∀ {i}, ⟨.delete, row⟩ ∈ (s.trxes i).pending →
    ∃ record, s.records row = some record ∧
      (0 < record.beginXid ∨ record.beginXid = -(s.trxes i).trxId)
  insert_owner : ∀ {record}, s.records row = some record → record.beginXid < 0 →
    ∃ i, ⟨.insert, row⟩ ∈ (s.trxes i).pending ∧ record.beginXid = -(s.trxes i).trxId
  delete_owner : ∀ {record}, s.records row = some record → record.endXid < 0 →
    ∃ i, ⟨.delete, row⟩ ∈ (s.trxes i).pending ∧ record.endXid = -(s.trxes i).trxId

/-- Before an insertion at a place a transaction has no operation there. -/
def Apart (before after : Operation) : Prop := after.type = .insert → before.row ≠ after.row

/-- The invariant of all runs without `update_record`. -/
structure Inv (s : Db) : Prop where
  ids : Ids s
  owned : ∀ row, OwnedAt s row
  apart : ∀ i, (s.trxes i).pending.Pairwise Apart

namespace OwnedAt

theorem beginXid_of_insert (h : OwnedAt s row) (hmem : ⟨.insert, row⟩ ∈ (s.trxes i).pending)
    (hrecord : s.records row = some record) : record.beginXid = -(s.trxes i).trxId := by
  obtain ⟨r, hr, howner⟩ := h.insert_pending hmem
  rw [hrecord] at hr
  cases hr
  exact howner

/-- Nothing of what concerns the record has changed. -/
theorem congr (h : OwnedAt s row) (hrecord : s'.records row = s.records row)
    (hcurrent : s.currentTrxId ≤ s'.currentTrxId)
    (hpending : ∀ j type, ⟨type, row⟩ ∈ (s'.trxes j).pending ↔ ⟨type, row⟩ ∈ (s.trxes j).pending)
    (hids : ∀ j, (s.trxes j).pending ≠ [] → (s'.trxes j).trxId = (s.trxes j).trxId) :
    OwnedAt s' row := by
  have hid : ∀ {j type}, ⟨type, row⟩ ∈ (s.trxes j).pending →
      (s'.trxes j).trxId = (s.trxes j).trxId :=
    fun hmem => hids _ (List.ne_nil_of_mem hmem)
  refine
    { begin_ne := ?_
      end_ne := ?_
      insert_pending := ?_
      delete_pending := ?_
      insert_owner := ?_
      delete_owner := ?_ }
  · intro record hr
    obtain ⟨hne, hle⟩ := h.begin_ne (hrecord ▸ hr)
    exact ⟨hne, Int.le_trans hle hcurrent⟩
  · intro record hr
    obtain ⟨hne, hle⟩ := h.end_ne (hrecord ▸ hr)
    exact ⟨hne, hle.imp_left fun hle => Int.le_trans hle hcurrent⟩
  · intro j hmem
    have hmem' := (hpending j .insert).mp hmem
    rw [hrecord, hid hmem']
    exact h.insert_pending hmem'
  · intro j hmem
    have hmem' := (hpending j .delete).mp hmem
    rw [hrecord, hid hmem']
    exact h.delete_pending hmem'
  · intro record hr hneg
    obtain ⟨j, hmem, howner⟩ := h.insert_owner (hrecord ▸ hr) hneg
    exact ⟨j, (hpending j .insert).mpr hmem, by rw [hid hmem, howner]⟩
  · intro record hr hneg
    obtain ⟨j, hmem, howner⟩ := h.delete_owner (hrecord ▸ hr) hneg
    exact ⟨j, (hpending j .delete).mpr hmem, by rw [hid hmem, howner]⟩

end OwnedAt

/-! ## A changed record -/

section Changed

variable {ch : RecordChange} {phase : Phase} {j : Nat} {op : Operation}

/-- The state after a call that has changed a record. -/
def changed (s : Db) (i : Nat) (ch : RecordChange) (phase : Phase) : Db :=
  (s.change ch).setTrx i { s.trxes i with phase }

@[simp] theorem changed_currentTrxId : (s.changed i ch phase).currentTrxId = s.currentTrxId := rfl

@[simp] theorem changed_trxId :
    ((s.changed i ch phase).trxes j).trxId = (s.trxes j).trxId := by
  unfold changed
  by_cases hj : j = i
  · rw [hj, setTrx_trxes_self]
  · rw [setTrx_trxes_of_ne hj, change_trxes]

theorem changed_trxes_of_ne (hj : j ≠ i) : (s.changed i ch phase).trxes j = s.trxes j := by
  rw [changed, setTrx_trxes_of_ne hj, change_trxes]

@[simp] theorem changed_trxes_self :
    (s.changed i ch phase).trxes i = { s.trxes i with phase } := setTrx_trxes_self _

theorem changed_records_self (s : Db) (i : Nat) (ch : RecordChange) (phase : Phase) :
    (s.changed i ch phase).records ch.row = ch.image := by
  rw [changed, setTrx_records, change_records, if_pos rfl]

theorem changed_records_of_ne {row' : RowId} (h : row' ≠ ch.row) :
    (s.changed i ch phase).records row' = s.records row' := by
  rw [changed, setTrx_records, change_records, if_neg h]

/-- All rows but that of the change are as before. -/
theorem Inv.changed (h : Inv s) (hids : Ids (s.changed i ch phase))
    (hpending : ∀ op : Operation, op.row ≠ ch.row →
      (op ∈ ({ s.trxes i with phase } : MvccTrx).pending ↔ op ∈ (s.trxes i).pending))
    (hat : OwnedAt (s.changed i ch phase) ch.row)
    (hapart : ({ s.trxes i with phase } : MvccTrx).pending.Pairwise Apart) :
    Inv (s.changed i ch phase) where
  ids := hids
  owned := by
    intro row
    by_cases hrow : row = ch.row
    · exact hrow ▸ hat
    apply (h.owned row).congr (changed_records_of_ne hrow) (Int.le_refl _)
    · intro j type
      by_cases hj : j = i
      · rw [hj, changed_trxes_self]
        exact hpending ⟨type, row⟩ hrow
      · rw [changed_trxes_of_ne hj]
    · intro j _
      exact changed_trxId
  apart := by
    intro j
    by_cases hj : j = i
    · rw [hj, changed_trxes_self]
      exact hapart
    · rw [changed_trxes_of_ne hj]
      exact h.apart j

end Changed

/-- No record has changed, and every object has the operations that it had. -/
def SameOperations (s s' : Db) : Prop :=
  s'.records = s.records ∧ ∀ j, (s'.trxes j).pending = (s.trxes j).pending ∧
    ((s.trxes j).pending ≠ [] → (s'.trxes j).trxId = (s.trxes j).trxId)

/-- The change of a record by a call of the object `i`, and the phase that follows. -/
inductive Change (s : Db) (i : Nat) : Call → RecordChange → Phase → Prop
  | insert {row : RowId} {data : List UInt8} (hphase : (s.trxes i).phase = .running)
      (hstarted : (s.trxes i).started = true) (hrecord : s.records row = none) :
      Change s i (.insertRecord row data) (.insert row ⟨-(s.trxes i).trxId, maxTrxId, data⟩)
        (.logging (.insertRecord row) ⟨.insert, row⟩)
  | delete {row : RowId} {record : Record} (hphase : (s.trxes i).phase = .running)
      (hstarted : (s.trxes i).started = true) (hrecord : s.records row = some record)
      (hvisit : visitRecord (s.trxes i).trxId .readWrite record = .ok ()) :
      Change s i (.deleteRecord row) (.update row { record with endXid := -(s.trxes i).trxId })
        (.logging (.deleteRecord row) ⟨.delete, row⟩)
  | commitInsert {commitXid : Int} {row : RowId} {rest : List Operation} {record : Record}
      (hphase : (s.trxes i).phase = .committing commitXid (⟨.insert, row⟩ :: rest))
      (hrecord : s.records row = some record) (howner : record.beginXid = -(s.trxes i).trxId) :
      Change s i .commitOperation (.update row { record with beginXid := commitXid })
        (.committing commitXid rest)
  | commitDelete {commitXid : Int} {row : RowId} {rest : List Operation} {record : Record}
      (hphase : (s.trxes i).phase = .committing commitXid (⟨.delete, row⟩ :: rest))
      (hrecord : s.records row = some record) (howner : record.endXid = -(s.trxes i).trxId) :
      Change s i .commitOperation (.update row { record with endXid := commitXid })
        (.committing commitXid rest)
  | undoInsert {row : RowId} {rest : List Operation} {record : Record}
      (hphase : (s.trxes i).phase = .rollingBack (⟨.insert, row⟩ :: rest))
      (hrecord : s.records row = some record) :
      Change s i .rollbackOperation (.delete row) (.rollingBack rest)
  | undoDelete {row : RowId} {rest : List Operation} {record : Record}
      (hphase : (s.trxes i).phase = .rollingBack (⟨.delete, row⟩ :: rest))
      (hrecord : s.records row = some record) (howner : record.endXid = -(s.trxes i).trxId) :
      Change s i .rollbackOperation (.update row { record with endXid := maxTrxId })
        (.rollingBack rest)

/-- The operations at other places are as before. -/
theorem Change.mem_pending {ch : RecordChange} {phase : Phase} (hchange : Change s i c ch phase)
    {op : Operation} (hop : op.row ≠ ch.row) (j : Nat) :
    op ∈ ((s.changed i ch phase).trxes j).pending ↔ op ∈ (s.trxes j).pending := by
  by_cases hj : j = i
  swap
  · rw [changed_trxes_of_ne hj]
  subst hj
  rw [changed_trxes_self]
  have hne : ∀ type, op ≠ ⟨type, ch.row⟩ := by
    rintro type rfl
    exact hop rfl
  cases hchange with
  | insert hphase | delete hphase | commitInsert hphase | commitDelete hphase
  | undoInsert hphase | undoDelete hphase =>
    simp only [RecordChange.row] at hne
    simp [MvccTrx.pending, hphase, hne]

/-- `commit` and `rollback` have one operation less with each record. -/
theorem Change.pending_sub {ch : RecordChange} {phase : Phase} (hchange : Change s i c ch phase)
    (hc : c = .commitOperation ∨ c = .rollbackOperation) {op : Operation} {j : Nat}
    (hmem : op ∈ ((s.changed i ch phase).trxes j).pending) : op ∈ (s.trxes j).pending := by
  by_cases hj : j = i
  swap
  · rwa [changed_trxes_of_ne hj] at hmem
  subst hj
  rw [changed_trxes_self] at hmem
  cases hchange with
  | insert | delete => simp at hc
  | commitInsert hphase | commitDelete hphase =>
    simp only [MvccTrx.pending, hphase] at hmem ⊢
    exact List.mem_cons_of_mem _ hmem
  | undoInsert hphase | undoDelete hphase =>
    simp only [MvccTrx.pending, hphase, List.reverse_cons] at hmem ⊢
    exact List.mem_append_left _ hmem

theorem SameOperations.setTrx {trx : MvccTrx} (hrecords : s'.records = s.records)
    (htrxes : s'.trxes = (s.setTrx i trx).trxes) (hpending : trx.pending = (s.trxes i).pending)
    (hid : (s.trxes i).pending ≠ [] → trx.trxId = (s.trxes i).trxId) : SameOperations s s' := by
  refine ⟨hrecords, ?_⟩
  intro j
  rw [htrxes]
  by_cases hj : j = i
  · subst hj
    rw [setTrx_trxes_self]
    exact ⟨hpending, hid⟩
  · rw [setTrx_trxes_of_ne hj]
    exact ⟨rfl, fun _ => rfl⟩

/-- A call leaves the records and the operations, or it changes one record. -/
theorem Effect.same_or_change (hplain : s.Plain (i, c)) (heffect : Effect s i c s') :
    SameOperations s s' ∨ ∃ ch phase, s' = s.changed i ch phase ∧ Change s i c ch phase := by
  cases heffect with
  | idle => exact Or.inl ⟨rfl, fun _ => ⟨rfl, fun _ => rfl⟩⟩
  | start hphase hstarted hoperations =>
    refine Or.inl (SameOperations.setTrx rfl rfl rfl ?_)
    simp [MvccTrx.pending, hphase, hoperations]
  | scan hphase hrecord => exact Or.inl (SameOperations.setTrx rfl rfl rfl fun _ => rfl)
  | logged hphase | commit hphase | committed hphase | rollback hphase | rolledBack hphase =>
    refine Or.inl (SameOperations.setTrx rfl rfl ?_ ?_)
    · simp [MvccTrx.pending, hphase]
    · exact fun _ => rfl
  | update => exact hplain.elim
  | insert hphase hstarted hrecord =>
    exact Or.inr ⟨_, _, rfl, .insert hphase hstarted hrecord⟩
  | delete hphase hstarted hrecord hvisit =>
    exact Or.inr ⟨_, _, rfl, .delete hphase hstarted hrecord hvisit⟩
  | commitInsert hphase hrecord howner =>
    exact Or.inr ⟨_, _, rfl, .commitInsert hphase hrecord howner⟩
  | commitDelete hphase hrecord howner =>
    exact Or.inr ⟨_, _, rfl, .commitDelete hphase hrecord howner⟩
  | undoInsert hphase hrecord => exact Or.inr ⟨_, _, rfl, .undoInsert hphase hrecord⟩
  | undoDelete hphase hrecord howner =>
    exact Or.inr ⟨_, _, rfl, .undoDelete hphase hrecord howner⟩

namespace Inv

theorem eq_of_trxId (h : Inv s) {j : Nat} {op : Operation} (hmem : op ∈ (s.trxes i).pending)
    (hid : -(s.trxes i).trxId = -(s.trxes j).trxId) : i = j :=
  h.ids.inj i j (h.ids.pos i (Or.inr (List.ne_nil_of_mem hmem))) (Int.neg_inj.mp hid)

theorem not_mem_of_free (h : Inv s) (hfree : s.records row = none) (i : Nat) (op : Operation)
    (hop : op.row = row) : op ∉ (s.trxes i).pending := by
  obtain ⟨type, _⟩ := op
  subst hop
  intro hmem
  cases type with
  | insert =>
    obtain ⟨_, hsome, _⟩ := (h.owned _).insert_pending hmem
    rw [hfree] at hsome
    cases hsome
  | delete =>
    obtain ⟨_, hsome, _⟩ := (h.owned _).delete_pending hmem
    rw [hfree] at hsome
    cases hsome

theorem insert (h : Inv s) {data : List UInt8} {entry : MvccTrxLogOperation}
    (hphase : (s.trxes i).phase = .running) (hstarted : (s.trxes i).started = true)
    (hfree : s.records row = none)
    (hids : Ids (s.changed i (.insert row ⟨-(s.trxes i).trxId, maxTrxId, data⟩)
      (.logging entry ⟨.insert, row⟩))) :
    Inv (s.changed i (.insert row ⟨-(s.trxes i).trxId, maxTrxId, data⟩)
      (.logging entry ⟨.insert, row⟩)) := by
  have hpos := h.ids.pos i (Or.inl hstarted)
  have hnone := h.not_mem_of_free hfree
  have hpending : (s.trxes i).pending = (s.trxes i).operations := by
    simp only [MvccTrx.pending, hphase]
  apply h.changed hids
  · intro op hop
    have hne : op ≠ ⟨.insert, row⟩ := by
      rintro rfl
      exact hop rfl
    simp [MvccTrx.pending, hphase, hne]
  · have hrecord := changed_records_self s i (.insert row ⟨-(s.trxes i).trxId, maxTrxId, data⟩)
      (.logging entry ⟨.insert, row⟩)
    simp only [RecordChange.row, RecordChange.image] at hrecord ⊢
    have hmem : ∀ {j type}, ⟨type, row⟩ ∈ ((s.changed i
        (.insert row ⟨-(s.trxes i).trxId, maxTrxId, data⟩)
        (.logging entry ⟨.insert, row⟩)).trxes j).pending → j = i ∧ type = .insert := by
      intro j type hmem
      by_cases hj : j = i
      · rw [hj, changed_trxes_self] at hmem
        simp only [MvccTrx.pending, List.mem_append, List.mem_singleton] at hmem
        rcases hmem with hmem | hmem
        · rw [← hpending] at hmem
          exact absurd hmem (hnone i _ rfl)
        · exact ⟨hj, (Operation.mk.inj hmem).1⟩
      · rw [changed_trxes_of_ne hj] at hmem
        exact absurd hmem (hnone j _ rfl)
    refine
      { begin_ne := ?_
        end_ne := ?_
        insert_pending := ?_
        delete_pending := ?_
        insert_owner := ?_
        delete_owner := ?_ }
    · intro record hr
      rw [hrecord] at hr
      cases hr
      have := h.ids.nonneg
      exact ⟨by simp only; omega, by simp only [changed_currentTrxId]; omega⟩
    · intro record hr
      rw [hrecord] at hr
      cases hr
      exact ⟨by simp [maxTrxId], Or.inr rfl⟩
    · intro j hj
      obtain ⟨rfl, _⟩ := hmem hj
      exact ⟨_, hrecord, by rw [changed_trxId]⟩
    · intro j hj
      cases (hmem hj).2
    · intro record hr _
      rw [hrecord] at hr
      cases hr
      exact ⟨i, by simp [MvccTrx.pending], by rw [changed_trxId]⟩
    · intro record hr hneg
      rw [hrecord] at hr
      cases hr
      simp [maxTrxId] at hneg
  · simp only [MvccTrx.pending]
    rw [List.pairwise_append]
    refine ⟨hpending ▸ h.apart i, List.pairwise_singleton _ _, ?_⟩
    intro before hbefore after hafter _ hrow
    rw [List.mem_singleton.mp hafter] at hrow
    exact hnone i before hrow (hpending ▸ hbefore)

theorem delete (h : Inv s) {entry : MvccTrxLogOperation}
    (hphase : (s.trxes i).phase = .running) (hstarted : (s.trxes i).started = true)
    (hrecord : s.records row = some record)
    (hvisit : visitRecord (s.trxes i).trxId .readWrite record = .ok ())
    (hids : Ids (s.changed i (.update row { record with endXid := -(s.trxes i).trxId })
      (.logging entry ⟨.delete, row⟩))) :
    Inv (s.changed i (.update row { record with endXid := -(s.trxes i).trxId })
      (.logging entry ⟨.delete, row⟩)) := by
  have hpos := h.ids.pos i (Or.inl hstarted)
  have hat := h.owned row
  have hpending : (s.trxes i).pending = (s.trxes i).operations := by
    simp only [MvccTrx.pending, hphase]
  have hvisible := visitRecord_readWrite (hat.begin_ne hrecord).1 (hat.end_ne hrecord).1 hvisit
  apply h.changed hids
  · intro op hop
    have hne : op ≠ ⟨.delete, row⟩ := by
      rintro rfl
      exact hop rfl
    simp [MvccTrx.pending, hphase, hne]
  · have hnew := changed_records_self s i (.update row { record with endXid := -(s.trxes i).trxId })
      (.logging entry ⟨.delete, row⟩)
    simp only [RecordChange.row, RecordChange.image] at hnew ⊢
    generalize hs' : s.changed i (.update row { record with endXid := -(s.trxes i).trxId })
      (.logging entry ⟨.delete, row⟩) = s' at hnew ⊢
    have hcurrent : s'.currentTrxId = s.currentTrxId := by rw [← hs', changed_currentTrxId]
    have hid : ∀ j, (s'.trxes j).trxId = (s.trxes j).trxId := by
      intro j
      rw [← hs', changed_trxId]
    have hself : (s'.trxes i).pending = (s.trxes i).pending ++ [⟨.delete, row⟩] := by
      rw [← hs', changed_trxes_self, hpending]
      rfl
    have hother : ∀ j, j ≠ i → (s'.trxes j).pending = (s.trxes j).pending := by
      intro j hj
      rw [← hs', changed_trxes_of_ne hj]
    have hinserts : ∀ j, ⟨.insert, row⟩ ∈ (s'.trxes j).pending ↔
        ⟨.insert, row⟩ ∈ (s.trxes j).pending := by
      intro j
      by_cases hj : j = i
      · subst hj
        simp [hself]
      · rw [hother j hj]
    refine
      { begin_ne := ?_
        end_ne := ?_
        insert_pending := ?_
        delete_pending := ?_
        insert_owner := ?_
        delete_owner := ?_ }
    · intro r hr
      rw [hnew] at hr
      cases hr
      have hbegin := hat.begin_ne hrecord
      rwa [hcurrent]
    · intro r hr
      rw [hnew] at hr
      cases hr
      have := h.ids.nonneg
      exact ⟨by simp only; omega, Or.inl (by simp only [hcurrent]; omega)⟩
    · intro j hj
      obtain ⟨r, hr, howner⟩ := hat.insert_pending ((hinserts j).mp hj)
      rw [hrecord] at hr
      cases hr
      exact ⟨_, hnew, by rw [hid, ← howner]⟩
    · intro j hj
      refine ⟨_, hnew, ?_⟩
      rw [hid]
      by_cases hji : j = i
      · rw [hji]
        exact hvisible.symm.imp And.left And.right
      · rw [hother j hji] at hj
        obtain ⟨r, hr, howner⟩ := hat.delete_pending hj
        rw [hrecord] at hr
        cases hr
        exact howner
    · intro r hr hneg
      rw [hnew] at hr
      cases hr
      obtain ⟨j, hmem, howner⟩ := hat.insert_owner hrecord hneg
      exact ⟨j, (hinserts j).mpr hmem, by rw [hid, ← howner]⟩
    · intro r hr _
      rw [hnew] at hr
      cases hr
      exact ⟨i, by rw [hself]; simp, by rw [hid]⟩
  · simp only [MvccTrx.pending]
    rw [List.pairwise_append]
    refine ⟨hpending ▸ h.apart i, List.pairwise_singleton _ _, ?_⟩
    intro before _ after hafter hinsert
    rw [List.mem_singleton.mp hafter] at hinsert
    cases hinsert

/-- `commit` or `rollback` has set the end of a record that the transaction was deleting. -/
theorem setEnd (h : Inv s) {phase : Phase} {endXid : Int}
    (hrecord : s.records row = some record)
    (hend : 0 < endXid ∧ (endXid ≤ s.currentTrxId ∨ endXid = maxTrxId))
    (hpending : ∀ op, op ≠ ⟨.delete, row⟩ →
      (op ∈ ({ s.trxes i with phase } : MvccTrx).pending ↔ op ∈ (s.trxes i).pending))
    (hsub : ({ s.trxes i with phase } : MvccTrx).pending.Sublist (s.trxes i).pending)
    (hids : Ids (s.changed i (.update row { record with endXid }) phase)) :
    Inv (s.changed i (.update row { record with endXid }) phase) := by
  have hat := h.owned row
  apply h.changed hids
  · intro op hop
    apply hpending
    rintro rfl
    exact hop rfl
  · have hnew := changed_records_self s i (.update row { record with endXid })
      (phase)
    simp only [RecordChange.row, RecordChange.image] at hnew ⊢
    generalize hs' : s.changed i (.update row { record with endXid }) phase = s' at hnew ⊢
    have hcurrent : s'.currentTrxId = s.currentTrxId := by rw [← hs', changed_currentTrxId]
    have hid : ∀ j, (s'.trxes j).trxId = (s.trxes j).trxId := by
      intro j
      rw [← hs', changed_trxId]
    have hsubset : ∀ j op, op ∈ (s'.trxes j).pending → op ∈ (s.trxes j).pending := by
      intro j op hop
      by_cases hj : j = i
      · subst hj
        rw [← hs', changed_trxes_self] at hop
        exact hsub.subset hop
      · rwa [← hs', changed_trxes_of_ne hj] at hop
    refine
      { begin_ne := ?_
        end_ne := ?_
        insert_pending := ?_
        delete_pending := ?_
        insert_owner := ?_
        delete_owner := ?_ }
    · intro r hr
      rw [hnew] at hr
      cases hr
      have hbegin := hat.begin_ne hrecord
      rwa [hcurrent]
    · intro r hr
      rw [hnew] at hr
      cases hr
      rw [hcurrent]
      exact ⟨Int.ne_of_gt hend.1, hend.2⟩
    · intro j hj
      obtain ⟨r, hr, howner⟩ := hat.insert_pending (hsubset j _ hj)
      rw [hrecord] at hr
      cases hr
      exact ⟨_, hnew, by rw [hid, ← howner]⟩
    · intro j hj
      obtain ⟨r, hr, howner⟩ := hat.delete_pending (hsubset j _ hj)
      rw [hrecord] at hr
      cases hr
      exact ⟨_, hnew, by rwa [hid]⟩
    · intro r hr hneg
      rw [hnew] at hr
      cases hr
      obtain ⟨j, hmem, howner⟩ := hat.insert_owner hrecord hneg
      refine ⟨j, ?_, by rw [hid, ← howner]⟩
      by_cases hj : j = i
      · subst hj
        rw [← hs', changed_trxes_self]
        exact (hpending _ (by simp)).mpr hmem
      · rwa [← hs', changed_trxes_of_ne hj]
    · intro r hr hneg
      rw [hnew] at hr
      cases hr
      exact absurd hneg (Int.not_lt.mpr (Int.le_of_lt hend.1))
  · exact (h.apart i).sublist hsub

/-- `commit` has set the begin of a record that the transaction has inserted. -/
theorem commitInsert (h : Inv s) {commitXid : Int} {rest : List Operation}
    (hphase : (s.trxes i).phase = .committing commitXid (⟨.insert, row⟩ :: rest))
    (hrecord : s.records row = some record) (howner : record.beginXid = -(s.trxes i).trxId)
    (hids : Ids (s.changed i (.update row { record with beginXid := commitXid })
      (.committing commitXid rest))) :
    Inv (s.changed i (.update row { record with beginXid := commitXid })
      (.committing commitXid rest)) := by
  have hat := h.owned row
  obtain ⟨_, hpos, hle, _⟩ := h.ids.commit i commitXid _ hphase
  have hpending : (s.trxes i).pending = ⟨.insert, row⟩ :: rest := by
    simp only [MvccTrx.pending, hphase]
  have hmine : (⟨.insert, row⟩ : Operation) ∈ (s.trxes i).pending := by simp [hpending]
  have hapart := h.apart i
  rw [hpending, List.pairwise_cons] at hapart
  apply h.changed hids
  · intro op hop
    have hne : op ≠ ⟨.insert, row⟩ := by
      rintro rfl
      exact hop rfl
    simp [MvccTrx.pending, hphase, hne]
  · have hnew := changed_records_self s i (.update row { record with beginXid := commitXid })
      (.committing commitXid rest)
    simp only [RecordChange.row, RecordChange.image] at hnew ⊢
    generalize hs' : s.changed i (.update row { record with beginXid := commitXid })
      (.committing commitXid rest) = s' at hnew ⊢
    have hcurrent : s'.currentTrxId = s.currentTrxId := by rw [← hs', changed_currentTrxId]
    have hid : ∀ j, (s'.trxes j).trxId = (s.trxes j).trxId := by
      intro j
      rw [← hs', changed_trxId]
    have hself : (s'.trxes i).pending = rest := by
      rw [← hs', changed_trxes_self]
      rfl
    have hother : ∀ j, j ≠ i → (s'.trxes j).pending = (s.trxes j).pending := by
      intro j hj
      rw [← hs', changed_trxes_of_ne hj]
    refine
      { begin_ne := ?_
        end_ne := ?_
        insert_pending := ?_
        delete_pending := ?_
        insert_owner := ?_
        delete_owner := ?_ }
    · intro r hr
      rw [hnew] at hr
      cases hr
      rw [hcurrent]
      exact ⟨Int.ne_of_gt hpos, hle⟩
    · intro r hr
      rw [hnew] at hr
      cases hr
      have hend := hat.end_ne hrecord
      rwa [hcurrent]
    · intro j hj
      -- the record had one owner, and the owner had inserted it once
      exfalso
      by_cases hji : j = i
      · subst hji
        rw [hself] at hj
        exact hapart.1 _ hj rfl rfl
      · rw [hother j hji] at hj
        have howner' := hat.beginXid_of_insert hj hrecord
        exact hji (h.eq_of_trxId hmine (howner.symm.trans howner')).symm
    · intro j _
      exact ⟨_, hnew, Or.inl hpos⟩
    · intro r hr hneg
      rw [hnew] at hr
      cases hr
      exact absurd hneg (Int.not_lt.mpr (Int.le_of_lt hpos))
    · intro r hr hneg
      rw [hnew] at hr
      cases hr
      obtain ⟨j, hmem, howner'⟩ := hat.delete_owner hrecord hneg
      refine ⟨j, ?_, by rw [hid, ← howner']⟩
      by_cases hji : j = i
      · subst hji
        rw [hpending] at hmem
        rw [hself]
        simpa using hmem
      · rwa [hother j hji]
  · exact hapart.2

/-- `rollback` has taken away a record that the transaction has inserted. -/
theorem undoInsert (h : Inv s) {rest : List Operation}
    (hphase : (s.trxes i).phase = .rollingBack (⟨.insert, row⟩ :: rest))
    (hids : Ids (s.changed i (.delete row) (.rollingBack rest))) :
    Inv (s.changed i (.delete row) (.rollingBack rest)) := by
  have hat := h.owned row
  have hpending : (s.trxes i).pending = rest.reverse ++ [⟨.insert, row⟩] := by
    simp only [MvccTrx.pending, hphase, List.reverse_cons]
  have hmine : (⟨.insert, row⟩ : Operation) ∈ (s.trxes i).pending := by simp [hpending]
  have hapart := h.apart i
  rw [hpending, List.pairwise_append] at hapart
  obtain ⟨record, hrecord, howner⟩ := hat.insert_pending hmine
  have hpos := h.ids.pos i (Or.inr (List.ne_nil_of_mem hmine))
  apply h.changed hids
  · intro op hop
    have hne : op ≠ ⟨.insert, row⟩ := by
      rintro rfl
      exact hop rfl
    simp [MvccTrx.pending, hphase, hne]
  · have hnew := changed_records_self s i (.delete row)
      (.rollingBack rest)
    simp only [RecordChange.row, RecordChange.image] at hnew ⊢
    generalize hs' : s.changed i (.delete row) (.rollingBack rest) = s' at hnew ⊢
    have hnone : ∀ {j type}, ⟨type, row⟩ ∉ (s'.trxes j).pending := by
      intro j type hmem
      by_cases hji : j = i
      · rw [hji, ← hs', changed_trxes_self] at hmem
        exact hapart.2.2 _ hmem _ (List.mem_singleton_self _) rfl rfl
      · rw [← hs', changed_trxes_of_ne hji] at hmem
        have hsame : record.beginXid = -(s.trxes j).trxId := by
          cases type with
          | insert =>
            have howner' := hat.beginXid_of_insert hmem hrecord
            exact howner'
          | delete =>
            obtain ⟨r, hr, howner'⟩ := hat.delete_pending hmem
            rw [hrecord] at hr
            cases hr
            exact howner'.resolve_left (by omega)
        exact hji (h.eq_of_trxId hmine (howner.symm.trans hsame)).symm
    exact
      { begin_ne := fun hr => by rw [hnew] at hr; cases hr
        end_ne := fun hr => by rw [hnew] at hr; cases hr
        insert_pending := fun hmem => absurd hmem hnone
        delete_pending := fun hmem => absurd hmem hnone
        insert_owner := fun hr => by rw [hnew] at hr; cases hr
        delete_owner := fun hr => by rw [hnew] at hr; cases hr }
  · exact hapart.1

theorem create : Inv create where
  ids := Ids.create
  owned row := by
    constructor <;> simp [Db.create, MvccTrx.pending]
  apart i := List.Pairwise.nil

theorem same (h : Inv s) (hids : Ids s') (hcurrent : s.currentTrxId ≤ s'.currentTrxId)
    (hsame : SameOperations s s') : Inv s' := by
  obtain ⟨hrecords, hpending⟩ := hsame
  refine ⟨hids, ?_, ?_⟩
  · intro row
    apply (h.owned row).congr (congrFun hrecords row) hcurrent
    · intro j type
      rw [(hpending j).1]
    · exact fun j => (hpending j).2
  · intro j
    rw [(hpending j).1]
    exact h.apart j

theorem change (h : Inv s) {ch : RecordChange} {phase : Phase}
    (hids : Ids (s.changed i ch phase)) (hchange : Change s i c ch phase) :
    Inv (s.changed i ch phase) := by
  cases hchange with
  | insert hphase hstarted hfree => exact h.insert hphase hstarted hfree hids
  | delete hphase hstarted hrecord hvisit => exact h.delete hphase hstarted hrecord hvisit hids
  | commitInsert hphase hrecord howner => exact h.commitInsert hphase hrecord howner hids
  | commitDelete hphase hrecord howner =>
    obtain ⟨_, hpos, hle, _⟩ := h.ids.commit i _ _ hphase
    apply h.setEnd hrecord ⟨hpos, Or.inl hle⟩
    · intro op hop
      simp [MvccTrx.pending, hphase, hop]
    · simp [MvccTrx.pending, hphase]
    · exact hids
  | undoInsert hphase hrecord => exact h.undoInsert hphase hids
  | undoDelete hphase hrecord howner =>
    apply h.setEnd hrecord ⟨by simp [maxTrxId], Or.inr rfl⟩
    · intro op hop
      simp [MvccTrx.pending, hphase, hop]
    · simp [MvccTrx.pending, hphase]
    · exact hids

theorem effect (h : Inv s) (hplain : s.Plain (i, c)) (heffect : Effect s i c s') : Inv s' := by
  have hids := h.ids.effect hplain.fits heffect
  rcases heffect.same_or_change hplain with hsame | ⟨ch, phase, rfl, hchange⟩
  · apply h.same hids ?_ hsame
    cases heffect with
    | start | commit =>
      rw [setTrx_currentTrxId, draw_currentTrxId, nextTrxId_of_lt h.ids.short]
      omega
    | _ => exact Int.le_refl _
  · exact h.change hids hchange

theorem call (h : Inv s) {c : Nat × Call} (hplain : s.Plain c) (hcall : s.call c = some s') :
    Inv s' := h.effect hplain (call_effect hcall)

end Inv

end Db

end ObHtap.Mvcc
