import Mathlib.Data.List.Nodup
import ObHtap.Trx.MvccInvariant

/-!
# The marks of operations

Where no transaction deletes a record that it has deleted before, every operation that is left
finds its mark in the record.
-/

namespace ObHtap.Mvcc

namespace Db

variable {s s' : Db} {i : Nat} {c : Call} {row : RowId} {record : Record}

/-- A deletion does not meet a record that its transaction has deleted before. -/
def DeletesNew (s : Db) (c : Nat × Call) : Prop :=
  OnDelete (fun record => record.endXid ≠ -(s.trxes c.1).trxId) s c

/-- A transaction has one operation of each kind on a record.  The ones that are left have their
marks in the record. -/
structure Marked (s : Db) : Prop where
  nodup : ∀ i, (s.trxes i).pending.Nodup
  delete : ∀ i row, ⟨.delete, row⟩ ∈ (s.trxes i).pending →
    ∃ record, s.records row = some record ∧ record.endXid = -(s.trxes i).trxId
  insert : ∀ i row record, ⟨.insert, row⟩ ∈ (s.trxes i).pending → s.records row = some record →
    record.endXid = maxTrxId ∨ record.endXid = -(s.trxes i).trxId

namespace Marked

theorem create : Marked create where
  nodup _ := List.nodup_nil
  delete _ _ h := by simp [Db.create, MvccTrx.pending] at h
  insert _ _ _ h := by simp [Db.create, MvccTrx.pending] at h

/-- A record that a transaction can delete is not being deleted by another one. -/
theorem not_deleting (hmarked : Marked s) (h : Inv s) (hpos : 0 < (s.trxes i).trxId)
    (hrecord : s.records row = some record)
    (hvisit : visitRecord (s.trxes i).trxId .readWrite record = .ok ()) {j : Nat}
    (hmem : ⟨.delete, row⟩ ∈ (s.trxes j).pending) : record.endXid = -(s.trxes i).trxId := by
  have hat := h.owned row
  obtain ⟨r, hr, hend⟩ := hmarked.delete j row hmem
  obtain ⟨r', hr', hbegin⟩ := hat.delete_pending hmem
  rw [hrecord] at hr hr'
  cases hr
  cases hr'
  have hposj := h.ids.pos j (Or.inr (List.ne_nil_of_mem hmem))
  rcases visitRecord_readWrite (hat.begin_ne hrecord).1 (hat.end_ne hrecord).1 hvisit with
    ⟨_, howner⟩ | ⟨hb, hle, hge⟩
  · rcases hbegin with hbegin | hbegin
    · omega
    · rw [hend, ← hbegin, howner]
  · omega

theorem same (hmarked : Marked s) (hsame : SameOperations s s') : Marked s' := by
  obtain ⟨hrecords, hpending⟩ := hsame
  refine ⟨?_, ?_, ?_⟩
  · intro j
    rw [(hpending j).1]
    exact hmarked.nodup j
  · intro j row hmem
    rw [(hpending j).1] at hmem
    rw [hrecords, (hpending j).2 (List.ne_nil_of_mem hmem)]
    exact hmarked.delete j row hmem
  · intro j row record hmem hrecord
    rw [(hpending j).1] at hmem
    rw [hrecords] at hrecord
    rw [(hpending j).2 (List.ne_nil_of_mem hmem)]
    exact hmarked.insert j row record hmem hrecord

theorem changed (hmarked : Marked s) {ch : RecordChange} {phase : Phase}
    (hnodup : ({ s.trxes i with phase } : MvccTrx).pending.Nodup)
    (hpending : ∀ op : Operation, op.row ≠ ch.row →
      op ∈ ({ s.trxes i with phase } : MvccTrx).pending → op ∈ (s.trxes i).pending)
    (hdelete : ∀ j, ⟨.delete, ch.row⟩ ∈ ((s.changed i ch phase).trxes j).pending →
      ∃ record, ch.image = some record ∧ record.endXid = -(s.trxes j).trxId)
    (hinsert : ∀ j record, ⟨.insert, ch.row⟩ ∈ ((s.changed i ch phase).trxes j).pending →
      ch.image = some record →
        record.endXid = maxTrxId ∨ record.endXid = -(s.trxes j).trxId) :
    Marked (s.changed i ch phase) := by
  have hold : ∀ j (op : Operation), op.row ≠ ch.row →
      op ∈ ((s.changed i ch phase).trxes j).pending → op ∈ (s.trxes j).pending := by
    intro j op hop hmem
    by_cases hj : j = i
    · subst hj
      rw [changed_trxes_self] at hmem
      exact hpending op hop hmem
    · rwa [changed_trxes_of_ne hj] at hmem
  refine ⟨?_, ?_, ?_⟩
  · intro j
    by_cases hj : j = i
    · rw [hj, changed_trxes_self]
      exact hnodup
    · rw [changed_trxes_of_ne hj]
      exact hmarked.nodup j
  · intro j row hmem
    rw [changed_trxId]
    by_cases hrow : row = ch.row
    · subst hrow
      rw [changed_records_self]
      exact hdelete j hmem
    · rw [changed_records_of_ne hrow]
      exact hmarked.delete j row (hold j _ hrow hmem)
  · intro j row record hmem hrecord
    rw [changed_trxId]
    by_cases hrow : row = ch.row
    · subst hrow
      rw [changed_records_self] at hrecord
      exact hinsert j record hmem hrecord
    · rw [changed_records_of_ne hrow] at hrecord
      exact hmarked.insert j row record (hold j _ hrow hmem) hrecord

theorem effect (hmarked : Marked s) (h : Inv s) (hplain : s.Plain (i, c))
    (hdelete : DeletesNew s (i, c)) (heffect : Effect s i c s') : Marked s' := by
  have h' := h.effect hplain heffect
  rcases heffect.same_or_change hplain with hsame | ⟨ch, phase, rfl, hchange⟩
  · exact hmarked.same hsame
  have hid : ∀ {j op}, op ∈ (s.trxes i).pending → (s.trxes j).trxId = (s.trxes i).trxId →
      j = i := by
    intro j op hmem heq
    exact (h.eq_of_trxId hmem (congrArg Neg.neg heq.symm)).symm
  cases hchange with
  | @insert row data hphase hstarted hfree =>
    have hnone := h.not_mem_of_free hfree
    have hpending : (s.trxes i).pending = (s.trxes i).operations := by
      simp only [MvccTrx.pending, hphase]
    apply hmarked.changed
    · have := hmarked.nodup i
      rw [hpending] at this
      simp only [MvccTrx.pending]
      apply List.Nodup.append this (List.nodup_singleton _)
      intro op hop hnew
      obtain rfl := List.mem_singleton.mp hnew
      exact hnone i _ rfl (hpending ▸ hop)
    · intro op hop hmem
      have hne : op ≠ ⟨.insert, row⟩ := by
        rintro rfl
        exact hop rfl
      simpa [MvccTrx.pending, hphase, hne] using hmem
    · intro j hmem
      exfalso
      by_cases hj : j = i
      · subst hj
        rw [changed_trxes_self] at hmem
        simp only [MvccTrx.pending, List.mem_append, List.mem_singleton] at hmem
        rcases hmem with hmem | hmem
        · exact hnone j _ rfl (hpending ▸ hmem)
        · cases hmem
      · rw [changed_trxes_of_ne hj] at hmem
        exact hnone j _ rfl hmem
    · intro j record _ himage
      cases himage
      exact Or.inl rfl
  | @delete row record hphase hstarted hrecord hvisit =>
    have hpos := h.ids.pos i (Or.inl hstarted)
    have hnot := hdelete.apply hrecord hvisit
    have hnone : ∀ j, ⟨.delete, row⟩ ∉ (s.trxes j).pending := fun j hmem =>
      hnot (hmarked.not_deleting h hpos hrecord hvisit hmem)
    have hpending : (s.trxes i).pending = (s.trxes i).operations := by
      simp only [MvccTrx.pending, hphase]
    apply hmarked.changed
    · have := hmarked.nodup i
      rw [hpending] at this
      simp only [MvccTrx.pending]
      apply List.Nodup.append this (List.nodup_singleton _)
      intro op hop hnew
      obtain rfl := List.mem_singleton.mp hnew
      exact hnone i (hpending ▸ hop)
    · intro op hop hmem
      have hne : op ≠ ⟨.delete, row⟩ := by
        rintro rfl
        exact hop rfl
      simpa [MvccTrx.pending, hphase, hne] using hmem
    · intro j hmem
      by_cases hj : j = i
      · exact ⟨_, rfl, by rw [hj]⟩
      · rw [changed_trxes_of_ne hj] at hmem
        exact absurd hmem (hnone j)
    · intro j record' hmem himage
      cases himage
      right
      -- an inserted record that is visible is the transaction's own
      by_cases hj : j = i
      · rw [hj]
      · rw [changed_trxes_of_ne hj] at hmem
        exfalso
        have howner := (h.owned row).beginXid_of_insert hmem hrecord
        have hposj := h.ids.pos j (Or.inr (List.ne_nil_of_mem hmem))
        rcases visitRecord_readWrite ((h.owned row).begin_ne hrecord).1
          ((h.owned row).end_ne hrecord).1 hvisit with ⟨_, howner'⟩ | ⟨hb, _, _⟩
        · exact hj (h.eq_of_trxId hmem (howner.symm.trans howner'))
        · omega
  | @commitInsert commitXid row rest record hphase hrecord howner =>
    have hpending : (s.trxes i).pending = ⟨.insert, row⟩ :: rest := by
      simp only [MvccTrx.pending, hphase]
    have hsub : ∀ j op, op ∈ ((s.changed i (.update row { record with beginXid := commitXid })
        (.committing commitXid rest)).trxes j).pending → op ∈ (s.trxes j).pending := by
      intro j op hmem
      by_cases hj : j = i
      · subst hj
        rw [changed_trxes_self] at hmem
        rw [hpending]
        exact List.mem_cons_of_mem _ hmem
      · rwa [changed_trxes_of_ne hj] at hmem
    apply hmarked.changed
    · have := hmarked.nodup i
      rw [hpending] at this
      exact (List.nodup_cons.mp this).2
    · intro op _ hmem
      rw [hpending]
      exact List.mem_cons_of_mem _ hmem
    · intro j hmem
      obtain ⟨r, hr, hend⟩ := hmarked.delete j row (hsub j _ hmem)
      rw [hrecord] at hr
      cases hr
      exact ⟨_, rfl, hend⟩
    · intro j record' hmem himage
      cases himage
      exact hmarked.insert j row record (hsub j _ hmem) hrecord
  | @commitDelete commitXid row rest record hphase hrecord howner =>
    have hpending : (s.trxes i).pending = ⟨.delete, row⟩ :: rest := by
      simp only [MvccTrx.pending, hphase]
    have hmine : (⟨.delete, row⟩ : Operation) ∈ (s.trxes i).pending := by simp [hpending]
    have hnodup := hmarked.nodup i
    have hapart := h.apart i
    rw [hpending] at hnodup hapart
    apply hmarked.changed
    · exact (List.nodup_cons.mp hnodup).2
    · intro op _ hmem
      rw [hpending]
      exact List.mem_cons_of_mem _ hmem
    · intro j hmem
      exfalso
      by_cases hj : j = i
      · subst hj
        rw [changed_trxes_self] at hmem
        exact (List.nodup_cons.mp hnodup).1 hmem
      · rw [changed_trxes_of_ne hj] at hmem
        obtain ⟨r, hr, hend⟩ := hmarked.delete j row hmem
        rw [hrecord] at hr
        cases hr
        exact hj (hid hmine (by omega))
    · intro j record' hmem himage
      exfalso
      by_cases hj : j = i
      · subst hj
        rw [changed_trxes_self] at hmem
        exact (List.pairwise_cons.mp hapart).1 _ hmem rfl rfl
      · rw [changed_trxes_of_ne hj] at hmem
        obtain ⟨r, hr, hb⟩ := (h.owned row).insert_pending hmem
        obtain ⟨r', hr', hb'⟩ := (h.owned row).delete_pending hmine
        rw [hrecord] at hr hr'
        cases hr
        cases hr'
        have hposj := h.ids.pos j (Or.inr (List.ne_nil_of_mem hmem))
        rcases hb' with hb' | hb'
        · omega
        · exact hj (hid hmine (by omega))
  | @undoInsert row rest record hphase hrecord =>
    have hpending : (s.trxes i).pending = rest.reverse ++ [⟨.insert, row⟩] := by
      simp only [MvccTrx.pending, hphase, List.reverse_cons]
    have hnone := h'.not_mem_of_free (changed_records_self s i (.delete row) (.rollingBack rest))
    apply hmarked.changed
    · have := hmarked.nodup i
      rw [hpending] at this
      exact this.of_append_left
    · intro op _ hmem
      rw [hpending]
      exact List.mem_append_left _ hmem
    · intro j hmem
      exact absurd hmem (hnone j _ rfl)
    · intro j record' _ himage
      cases himage
  | @undoDelete row rest record hphase hrecord howner =>
    have hpending : (s.trxes i).pending = rest.reverse ++ [⟨.delete, row⟩] := by
      simp only [MvccTrx.pending, hphase, List.reverse_cons]
    have hmine : (⟨.delete, row⟩ : Operation) ∈ (s.trxes i).pending := by simp [hpending]
    have hnodup := hmarked.nodup i
    rw [hpending] at hnodup
    apply hmarked.changed
    · exact hnodup.of_append_left
    · intro op _ hmem
      rw [hpending]
      exact List.mem_append_left _ hmem
    · intro j hmem
      exfalso
      by_cases hj : j = i
      · subst hj
        rw [changed_trxes_self] at hmem
        exact (List.nodup_append.mp hnodup).2.2 _ hmem _ (List.mem_singleton_self _) rfl
      · rw [changed_trxes_of_ne hj] at hmem
        obtain ⟨r, hr, hend⟩ := hmarked.delete j row hmem
        rw [hrecord] at hr
        cases hr
        exact hj (hid hmine (by omega))
    · intro j record' _ himage
      cases himage
      exact Or.inl rfl

end Marked

end Db

end ObHtap.Mvcc
