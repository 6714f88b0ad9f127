import ObHtap.Trx.MvccStamps
import ObHtap.Trx.MvccHistory
import ObHtap.Trx.MvccSnapshots

/-!
# Recovery

A new transaction behind a recovery sees the changes of the transactions with a COMMIT entry, and
nothing else, as long as the crash does not fall into a commit and the ids in the records are
behind those of the new transactions.  The replay counts the ids of the transactions only, and it
does not take the entries of `update_record`.
-/

namespace ObHtap.Mvcc

namespace Db

variable {s s' : Db} {i j : Nat} {c : Call} {row : RowId} {record : Record}

/-! ## Rows and transactions -/

/-- The transaction that a field of a record stands for. -/
def Author (s : Db) (xid trxId : Int) : Prop :=
  xid < 0 ∧ xid = -trxId ∨ 0 < xid ∧ s.CommitOf trxId xid

/-- The row that the log leads to, for a set of transactions, is that of the record if the
transaction that inserted it is in the set and the one that deleted it is not. -/
def Kept (committed : Int → Bool) (s : Db) (row : RowId) : Prop :=
  match s.records row with
  | none => tableOf committed s.log row = none
  | some record => ∃ inserter, s.Author record.beginXid inserter ∧
    (record.endXid = maxTrxId ∧
        tableOf committed s.log row = (if committed inserter then some record.data else none) ∨
      record.endXid ≠ maxTrxId ∧ ∃ deleter, s.Author record.endXid deleter ∧
        tableOf committed s.log row =
          if committed inserter ∧ committed deleter = false then some record.data else none)

/-- A set of transactions that can be the committed ones later. -/
def Open (committed : Int → Bool) (s : Db) : Prop :=
  ∀ trxId, committed trxId = true → 0 < trxId ∧
    ((∃ commitXid, .trx trxId (.commit commitXid) ∈ s.log) ∨ ¬s.RolledBack trxId)

theorem Author.effect {xid trxId : Int} (h : s.Author xid trxId) (heffect : Effect s i c s') :
    s'.Author xid trxId :=
  h.imp_right fun ⟨hpos, hcommit⟩ => ⟨hpos, hcommit.effect heffect⟩

theorem Open.effect {committed : Int → Bool} (hopen : Open committed s') (h : Inv s)
    (hlogged : Logged s) (heffect : Effect s i c s') : Open committed s := by
  intro trxId hcommitted
  obtain ⟨hpos, hstate⟩ := hopen trxId hcommitted
  refine ⟨hpos, ?_⟩
  rcases hstate with ⟨commitXid, hmem⟩ | hnot
  swap
  · exact Or.inr fun hrolled => hnot (hrolled.effect heffect)
  rcases heffect.trx_entry hmem with hmem | ⟨rfl, _, hcases⟩
  · exact Or.inl ⟨commitXid, hmem⟩
  right
  -- the transaction is committed by this call
  obtain ⟨operation, hphase⟩ | ⟨_, _, _, ⟨_, _, hphase⟩ | ⟨hop, _⟩⟩ := hcases
  · obtain ⟨_, hop | hop⟩ := hlogged.logging _ _ _ hphase
    · cases hop
    · cases hop
  · rintro (hmem | ⟨j, rest, hid, hrolling⟩)
    · exact hlogged.committing i _ _ hphase hmem
    · obtain rfl := h.ids.inj j i (by omega) hid
      rw [hphase] at hrolling
      cases hrolling
  · cases hop

/-- A transaction that is rolled back while it has an operation left is not committed. -/
theorem Open.not_committed {committed : Int → Bool} (hopen : Open committed s)
    (hlogged : Logged s) {rest : List Operation} (hphase : (s.trxes i).phase = .rollingBack rest)
    (hpending : (s.trxes i).pending ≠ []) : committed (s.trxes i).trxId = false := by
  cases hcommitted : committed (s.trxes i).trxId with
  | false => rfl
  | true =>
    exfalso
    rcases (hopen _ hcommitted).2 with ⟨commitXid, hmem⟩ | hnot
    · exact hpending (hlogged.ended i _ hmem trivial).2
    · exact hnot (Or.inr ⟨i, rest, rfl, hphase⟩)

theorem Author.eq_of_neg {xid trxId trxId' : Int} (h : s.Author xid trxId)
    (howner : xid = -trxId') (hpos : 0 < trxId') : trxId = trxId' := by
  rcases h with ⟨_, heq⟩ | ⟨hlt, _⟩
  · omega
  · omega

theorem Kept.congr {committed : Int → Bool} (hkept : Kept committed s row)
    (heffect : Effect s i c s') (hrecord : s'.records row = s.records row)
    (htable : tableOf committed s'.log row = tableOf committed s.log row) :
    Kept committed s' row := by
  unfold Kept at hkept ⊢
  rw [hrecord]
  split at hkept
  · rw [htable, hkept]
  · obtain ⟨inserter, hinserter, hend⟩ := hkept
    rw [htable]
    refine ⟨inserter, hinserter.effect heffect, hend.imp_right ?_⟩
    rintro ⟨hmax, deleter, hdeleter, heq⟩
    exact ⟨hmax, deleter, hdeleter.effect heffect, heq⟩

theorem Kept.of_some {committed : Int → Bool} (h : Kept committed s row)
    (hrecord : s.records row = some record) :
    ∃ inserter, s.Author record.beginXid inserter ∧
      (record.endXid = maxTrxId ∧ tableOf committed s.log row =
          (if committed inserter then some record.data else none) ∨
        record.endXid ≠ maxTrxId ∧ ∃ deleter, s.Author record.endXid deleter ∧
          tableOf committed s.log row =
            if committed inserter ∧ committed deleter = false then some record.data else none) := by
  unfold Kept at h
  rwa [hrecord] at h

theorem Kept.intro {committed : Int → Bool} {inserter : Int}
    (hrecord : s.records row = some record) (hinserter : s.Author record.beginXid inserter)
    (hend : record.endXid = maxTrxId ∧ tableOf committed s.log row =
          (if committed inserter then some record.data else none) ∨
        record.endXid ≠ maxTrxId ∧ ∃ deleter, s.Author record.endXid deleter ∧
          tableOf committed s.log row =
            if committed inserter ∧ committed deleter = false then some record.data else none) :
    Kept committed s row := by
  unfold Kept
  rw [hrecord]
  exact ⟨inserter, hinserter, hend⟩

/-- A call changes a record, or it leaves the records and appends an entry of the module
`TRANSACTION` at most. -/
theorem Effect.silent_or_change (hplain : s.Plain (i, c)) (heffect : Effect s i c s') :
    (s'.records = s.records ∧
      (s'.log = s.log ∨ ∃ trxId op, s'.log = s.log ++ [.trx trxId op])) ∨
      ∃ ch phase, s' = s.changed i ch phase ∧ Change s i c ch phase := by
  rcases heffect.same_or_change hplain with ⟨hrecords, _⟩ | hchange
  swap
  · exact Or.inr hchange
  cases heffect with
  | idle | start | scan | commit | rollback => exact Or.inl ⟨rfl, Or.inl rfl⟩
  | logged | committed | rolledBack => exact Or.inl ⟨rfl, Or.inr ⟨_, _, rfl⟩⟩
  | update => exact hplain.elim
  | insert h₁ h₂ h₃ => exact Or.inr ⟨_, _, rfl, .insert h₁ h₂ h₃⟩
  | delete h₁ h₂ h₃ h₄ => exact Or.inr ⟨_, _, rfl, .delete h₁ h₂ h₃ h₄⟩
  | commitInsert h₁ h₂ h₃ => exact Or.inr ⟨_, _, rfl, .commitInsert h₁ h₂ h₃⟩
  | commitDelete h₁ h₂ h₃ => exact Or.inr ⟨_, _, rfl, .commitDelete h₁ h₂ h₃⟩
  | undoInsert h₁ h₂ => exact Or.inr ⟨_, _, rfl, .undoInsert h₁ h₂⟩
  | undoDelete h₁ h₂ h₃ => exact Or.inr ⟨_, _, rfl, .undoDelete h₁ h₂ h₃⟩

theorem Kept.effect (hkept : ∀ committed, Open committed s → Kept committed s row) (h : Inv s)
    (hlogged : Logged s) (hplain : s.Plain (i, c)) (hdelete : DeletesOnce s (i, c))
    (heffect : Effect s i c s') (committed : Int → Bool) (hopen : Open committed s') :
    Kept committed s' row := by
  have hnow := hkept committed (hopen.effect h hlogged heffect)
  have hmax : 0 < maxTrxId := by decide
  have hshort := h.ids.short
  -- only transactions are in the set
  have hpositive : ∀ {x : Int}, x ≤ 0 → committed x = false := by
    intro x hx
    cases hx' : committed x with
    | false => rfl
    | true =>
      have := (hopen x hx').1
      omega
  rcases heffect.silent_or_change hplain with ⟨hrecords, hlog⟩ | ⟨ch, phase, rfl, hchange⟩
  · apply hnow.congr heffect (congrFun hrecords row)
    rcases hlog with hlog | ⟨trxId, op, hlog⟩
    · rw [hlog]
    · rw [hlog, tableOf_trx]
  have hlog : (s.changed i ch phase).log = s.log ++ [.record ch] := rfl
  by_cases hrow : row = ch.row
  swap
  · exact hnow.congr heffect (changed_records_of_ne hrow) (hlog ▸ tableOf_concat_of_ne hrow)
  have hnew : (s.changed i ch phase).records row = ch.image := by
    rw [hrow, changed_records_self]
  cases hchange with
  | @insert _ data hphase hstarted hfree =>
    obtain rfl := hrow
    have hid := h.ids.pos i (Or.inl hstarted)
    have hold : tableOf committed s.log row = none := by
      simpa [Kept, hfree] using hnow
    refine Kept.intro hnew (Or.inl ⟨Int.neg_neg_of_pos hid, rfl⟩) (Or.inl ⟨rfl, ?_⟩)
    rw [hlog, tableOf_insert, hold, Int.neg_neg]
  | @delete _ record hphase hstarted hrecord hvisit =>
    obtain rfl := hrow
    have hid := h.ids.pos i (Or.inl hstarted)
    obtain ⟨inserter, hinserter, hend⟩ := hnow.of_some hrecord
    refine Kept.intro hnew (hinserter.effect heffect) (Or.inr ⟨?_, (s.trxes i).trxId, ?_, ?_⟩)
    · simp only
      omega
    · exact Or.inl ⟨Int.neg_neg_of_pos hid, rfl⟩
    rw [hlog, tableOf_update, Int.neg_neg]
    rcases hend with ⟨_, htable⟩ | ⟨hnot, deleter, hdeleter, htable⟩
    · rw [htable]
      cases committed (s.trxes i).trxId <;> simp
    · -- the record is deleted already, by the transaction itself
      have hne := ((h.owned row).end_ne hrecord).1
      have hneg : record.endXid < 0 := by
        by_contra hpos
        exact hdelete.apply hrecord hvisit ⟨by omega, hnot⟩
      obtain ⟨j, hmem, howner⟩ := (h.owned row).delete_owner hrecord hneg
      have hposj := h.ids.pos j (Or.inr (List.ne_nil_of_mem hmem))
      obtain rfl := hdeleter.eq_of_neg howner hposj
      obtain ⟨record', hrecord', hbegin⟩ := (h.owned row).delete_pending hmem
      rw [hrecord] at hrecord'
      cases hrecord'
      have hown : (s.trxes j).trxId = (s.trxes i).trxId := by
        rcases visitRecord_readWrite ((h.owned row).begin_ne hrecord).1 hne hvisit with
          ⟨_, hmine⟩ | ⟨_, _, hle⟩
        · omega
        · omega
      rw [htable, hown]
      cases committed (s.trxes i).trxId <;> simp
  | @commitInsert commitXid _ rest record hphase hrecord howner =>
    obtain rfl := hrow
    have hmem := MvccTrx.mem_committing hphase
    have hid := h.ids.pos i (Or.inr (List.ne_nil_of_mem hmem))
    obtain ⟨inserter, hinserter, hend⟩ := hnow.of_some hrecord
    obtain rfl := hinserter.eq_of_neg howner hid
    have hcommit : s.CommitOf (s.trxes i).trxId commitXid := Or.inr ⟨i, _, rfl, hphase⟩
    have hauthor : s.Author commitXid (s.trxes i).trxId :=
      Or.inr ⟨(h.ids.commit i commitXid _ hphase).2.1, hcommit⟩
    refine Kept.intro hnew (hauthor.effect heffect) ?_
    rw [hlog, tableOf_update]
    rcases hend with ⟨hend, htable⟩ | ⟨hnot, deleter, hdeleter, htable⟩
    · refine Or.inl ⟨hend, ?_⟩
      rw [hpositive (by simp only; omega), htable]
      rfl
    · refine Or.inr ⟨hnot, deleter, hdeleter.effect heffect, ?_⟩
      rcases hdeleter with ⟨_, heq⟩ | ⟨hpos, _⟩
      · rw [show -record.endXid = deleter by omega, htable]
        cases committed deleter <;> simp
      · rw [hpositive (by simp only; omega), htable]
        rfl
  | @commitDelete commitXid _ rest record hphase hrecord howner =>
    obtain rfl := hrow
    have hmem := MvccTrx.mem_committing hphase
    have hid := h.ids.pos i (Or.inr (List.ne_nil_of_mem hmem))
    obtain ⟨_, hpos, hle, _⟩ := h.ids.commit i commitXid _ hphase
    obtain ⟨inserter, hinserter, hend⟩ := hnow.of_some hrecord
    obtain ⟨hend, _⟩ | ⟨_, deleter, hdeleter, htable⟩ := hend
    · omega
    obtain rfl := hdeleter.eq_of_neg howner hid
    have hcommit : s.CommitOf (s.trxes i).trxId commitXid := Or.inr ⟨i, _, rfl, hphase⟩
    have hauthor : s.Author commitXid (s.trxes i).trxId := Or.inr ⟨hpos, hcommit⟩
    refine Kept.intro hnew (hinserter.effect heffect)
      (Or.inr ⟨?_, _, hauthor.effect heffect, ?_⟩)
    · simp only
      omega
    · rw [hlog, tableOf_update, hpositive (by simp only; omega), htable]
      rfl
  | @undoInsert _ rest record hphase hrecord =>
    obtain rfl := hrow
    have hmem := MvccTrx.mem_rollingBack hphase
    have hid := h.ids.pos i (Or.inr (List.ne_nil_of_mem hmem))
    have howner := (h.owned row).beginXid_of_insert hmem hrecord
    obtain ⟨inserter, hinserter, hend⟩ := hnow.of_some hrecord
    obtain rfl := hinserter.eq_of_neg howner hid
    have hnot := (hopen.effect h hlogged heffect).not_committed hlogged hphase
      (List.ne_nil_of_mem hmem)
    have htable : tableOf committed s.log row = none := by
      rcases hend with ⟨_, htable⟩ | ⟨_, _, _, htable⟩
      · simp [htable, hnot]
      · simp [htable, hnot]
    unfold Kept
    rw [hnew]
    exact (hlog ▸ tableOf_delete).trans htable
  | @undoDelete _ rest record hphase hrecord howner =>
    obtain rfl := hrow
    have hmem := MvccTrx.mem_rollingBack hphase
    have hid := h.ids.pos i (Or.inr (List.ne_nil_of_mem hmem))
    obtain ⟨inserter, hinserter, hend⟩ := hnow.of_some hrecord
    obtain ⟨hend, _⟩ | ⟨_, deleter, hdeleter, htable⟩ := hend
    · omega
    obtain rfl := hdeleter.eq_of_neg howner hid
    have hnot := (hopen.effect h hlogged heffect).not_committed hlogged hphase
      (List.ne_nil_of_mem hmem)
    refine Kept.intro hnew (hinserter.effect heffect) (Or.inl ⟨rfl, ?_⟩)
    rw [hlog, tableOf_update, hpositive (by simp only; omega), htable, hnot]
    simp

/-! ## Prefixes of the log -/

theorem log_of_run {C : Db → Nat × Call → Prop} {calls : List (Nat × Call)}
    (hrun : Run call C s calls s') : s.log <+: s'.log := by
  induction hrun with
  | nil => exact List.prefix_refl _
  | @cons s₁ s₂ s₃ c calls hC hcall hrun ih =>
    rcases (call_effect hcall).log with hlog | ⟨e, hlog⟩
    · rwa [hlog] at ih
    · rw [hlog] at ih
      exact (List.prefix_append _ _).trans ih

/-- Every prefix of the log of a run is the log of a part of the run. -/
theorem run_of_prefix {C : Db → Nat × Call → Prop} {calls : List (Nat × Call)} {k : Nat}
    (hrun : Run call C s calls s') (hk : s.log.length ≤ k) :
    ∃ calls₁ s₁, Run call C s calls₁ s₁ ∧ s₁.log = s'.log.take k := by
  induction hrun with
  | nil s => exact ⟨[], s, .nil s, (List.take_of_length_le hk).symm⟩
  | @cons s₁ s₂ s₃ c calls hC hcall hrun ih =>
    by_cases hk₂ : s₂.log.length ≤ k
    · obtain ⟨calls₁, t, ht, hlog⟩ := ih hk₂
      exact ⟨c :: calls₁, t, .cons hC hcall ht, hlog⟩
    · -- the first call appends the entry behind the prefix
      have hlength : s₁.log.length = k := by
        rcases (call_effect hcall).log with hlog | ⟨e, hlog⟩
        · rw [hlog] at hk₂
          exact absurd hk hk₂
        · rw [hlog, List.length_append, List.length_singleton] at hk₂
          omega
      have hprefix' := log_of_run (.cons hC hcall hrun)
      refine ⟨[], s₁, .nil s₁, ?_⟩
      rw [List.prefix_iff_eq_take.mp hprefix', hlength]

/-- The records are those that the changes in the log lead to. -/
theorem records_of_run {C : Db → Nat × Call → Prop} {calls : List (Nat × Call)}
    (hrun : Run call C create calls s') : (Pages.after s'.log).records = s'.records := by
  apply hrun.invariant (I := fun s => (Pages.after s.log).records = s.records)
  · rintro s ⟨i, c⟩ s' hrecords _ hcall
    have hch : ∀ ch, (Pages.after (s.log ++ [.record ch])).records =
        (s.change ch).records := by
      intro ch
      rw [Pages.after_concat, Pages.step, Pages.write, hrecords]
      rfl
    have htrx : ∀ trxId op, (Pages.after (s.log ++ [.trx trxId op])).records = s.records := by
      intro trxId op
      rw [Pages.after_concat, Pages.step, hrecords]
    cases call_effect hcall with
    | idle | start | scan | commit | rollback => exact hrecords
    | insert | delete | update | commitInsert | commitDelete | undoInsert | undoDelete =>
      exact hch _
    | logged | committed | rolledBack => exact htrx _ _
  · rfl

end Db

/-- The record that an entry leaves. -/
def LogEntry.image : LogEntry → Option Record
  | .record ch => ch.image
  | .trx _ _ => none

theorem Pages.mem_of_after {log : List LogEntry} {row : RowId} {record : Record}
    (h : (after log).records row = some record) : ∃ e ∈ log, e.image = some record := by
  induction log using List.reverseRecOn with
  | nil => cases h
  | append_singleton log e ih =>
    rw [after_concat] at h
    have hold : (after log).records row = some record →
        ∃ e' ∈ log ++ [e], e'.image = some record := by
      intro h
      obtain ⟨e', hmem, himage⟩ := ih h
      exact ⟨e', List.mem_append_left _ hmem, himage⟩
    cases e with
    | trx => exact hold h
    | record ch =>
      rw [step, write_records] at h
      split_ifs at h with hrow
      · exact ⟨.record ch, List.mem_append_right _ (List.mem_singleton_self _), h⟩
      · exact hold h

/-! ## All or nothing -/

/-- The data that a transaction with this id reads. -/
def Recovery.read (r : Recovery) (trxId : Int) (row : RowId) : Option (List UInt8) :=
  match r.pages.records row with
  | none => none
  | some record =>
    match visitRecord trxId .readOnly record with
    | .ok () => some record.data
    | .error _ => none

/-- The recovery completes, and every new transaction reads what the transactions with a COMMIT
entry have made of the tables. -/
def AllOrNothing (tables : Int → Bool) (log : List LogEntry) (seen : PageId → Nat) : Prop :=
  ∃ r, recover tables log seen = .ok r ∧
    ∀ trxId, r.currentTrxId < trxId → trxId ≤ maxTrxId → r.read trxId = committedTable log

def LogEntry.commitsAs (commitXid : Int) : LogEntry → Bool
  | .trx _ (.commit commitXid') => commitXid' = commitXid
  | _ => false

/-- A commit that has put its id into a record has its COMMIT entry in the log. -/
def Whole (log : List LogEntry) : Prop :=
  ∀ e ∈ log, ∀ record ∈ e.image,
    (0 < record.beginXid → log.any (LogEntry.commitsAs record.beginXid) = true) ∧
      (0 < record.endXid → record.endXid ≠ maxTrxId →
        log.any (LogEntry.commitsAs record.endXid) = true)

/-- The ids in the records are behind those that the counter of the replay leads to. -/
def Counted (log : List LogEntry) : Prop :=
  ∀ e ∈ log, ∀ record ∈ e.image,
    (-record.beginXid ≤ counter 0 log ∧ record.beginXid ≤ counter 0 log + 1) ∧
      -record.endXid ≤ counter 0 log ∧
      (record.endXid = maxTrxId ∨ record.endXid ≤ counter 0 log)

instance (log : List LogEntry) : Decidable (Whole log) := by
  unfold Whole
  infer_instance

instance (log : List LogEntry) : Decidable (Counted log) := by
  unfold Counted
  infer_instance

theorem commitsAs_iff {log : List LogEntry} {commitXid : Int} :
    log.any (LogEntry.commitsAs commitXid) = true ↔
      ∃ trxId, .trx trxId (.commit commitXid) ∈ log := by
  rw [List.any_eq_true]
  constructor
  · rintro ⟨e, hmem, he⟩
    unfold LogEntry.commitsAs at he
    split at he
    · rename_i trxId commitXid'
      obtain rfl := of_decide_eq_true he
      exact ⟨trxId, hmem⟩
    · cases he
  · rintro ⟨trxId, hmem⟩
    exact ⟨_, hmem, decide_eq_true rfl⟩

namespace Db

variable {s s' : Db} {i : Nat} {row : RowId} {record : Record}

/-- The transaction of an uncommitted insertion or deletion has no COMMIT entry. -/
theorem Logged.not_committed (h : Logged s) {op : Operation} (hmem : op ∈ (s.trxes i).pending) :
    Committed s.log (s.trxes i).trxId = false := by
  cases hcommitted : Committed s.log (s.trxes i).trxId with
  | false => rfl
  | true =>
    obtain ⟨commitXid, hentry⟩ := committed_iff.mp hcommitted
    rw [(h.ended i _ hentry trivial).2] at hmem
    cases hmem

/-- The transaction of a commit id that the log has a COMMIT entry for is committed. -/
theorem Author.committed {xid trxId : Int} (h : s.Author xid trxId) (hlogged : Logged s)
    (hpos : 0 < xid) (hwhole : s.log.any (LogEntry.commitsAs xid) = true) :
    Committed s.log trxId = true := by
  obtain ⟨hneg, _⟩ | ⟨_, hcommit⟩ := h
  · omega
  obtain ⟨trxId', hmem⟩ := commitsAs_iff.mp hwhole
  obtain rfl := hlogged.commit_inj _ _ _ hcommit (Or.inl hmem)
  exact committed_iff.mpr ⟨xid, hmem⟩

theorem open_committed (h : Logged s) : Open (Committed s.log) s := by
  intro trxId hcommitted
  obtain ⟨commitXid, hmem⟩ := committed_iff.mp hcommitted
  exact ⟨(h.ids _ _ hmem).1, Or.inl ⟨commitXid, hmem⟩⟩

/-- What a new transaction reads of a record is what the log leads to. -/
theorem Kept.read (hkept : Kept (Committed s.log) s row) (h : Inv s) (hlogged : Logged s)
    (hrecords : (Pages.after s.log).records = s.records) (hwhole : Whole s.log)
    (hcounted : Counted s.log) {r : Recovery} (hpages : r.pages = Pages.after s.log)
    (hcounter : r.currentTrxId = counter 0 s.log) {trxId : Int}
    (hlt : r.currentTrxId < trxId) (hle : trxId ≤ maxTrxId) :
    r.read trxId row = committedTable s.log row := by
  have hmax : 0 < maxTrxId := by decide
  rw [hcounter] at hlt
  unfold Recovery.read committedTable
  rw [hpages, hrecords]
  cases hrecord : s.records row with
  | none =>
    unfold Kept at hkept
    rw [hrecord] at hkept
    exact hkept.symm
  | some record =>
    simp only
    obtain ⟨e, he, himage⟩ := Pages.mem_of_after (hrecords ▸ hrecord)
    obtain ⟨hbeginWhole, hendWhole⟩ := hwhole e he record himage
    obtain ⟨⟨hbeginNeg, hbeginPos⟩, hendNeg, hendPos⟩ := hcounted e he record himage
    have hbeginNe := ((h.owned row).begin_ne hrecord).1
    have hendNe := ((h.owned row).end_ne hrecord).1
    obtain ⟨inserter, hinserter, hend⟩ := hkept.of_some hrecord
    have hread : ∀ {visible : Prop} [Decidable visible],
        (visitRecord trxId .readOnly record = .ok () ↔ visible) →
        (match visitRecord trxId .readOnly record with
          | .ok () => some record.data
          | .error _ => none) = if visible then some record.data else none := by
      intro visible _ hvisible
      cases hvisit : visitRecord trxId .readOnly record with
      | ok => rw [if_pos (hvisible.mp hvisit)]
      | error rc => rw [if_neg fun hv => by simp [hvisible.mpr hv] at hvisit]
    by_cases hbegin : record.beginXid < 0
    · -- the insertion is not committed
      obtain ⟨i, hmem, howner⟩ := (h.owned row).insert_owner hrecord hbegin
      have hpos := h.ids.pos i (Or.inr (List.ne_nil_of_mem hmem))
      obtain rfl := hinserter.eq_of_neg howner hpos
      have hnot := hlogged.not_committed hmem
      have htable : tableOf (Committed s.log) s.log row = none := by
        rcases hend with ⟨_, htable⟩ | ⟨_, _, _, htable⟩
        · simp [htable, hnot]
        · simp [htable, hnot]
      rw [htable, hread (visitRecord_uncommitted hbegin), if_neg (by omega)]
    have hpos : 0 < record.beginXid := by omega
    have hcommitted := hinserter.committed hlogged hpos (hbeginWhole hpos)
    rcases hend with ⟨hend, htable⟩ | ⟨hnot, deleter, hdeleter, htable⟩
    · rw [htable, hcommitted, hread (visitRecord_committed hpos (by omega)), if_pos (by omega)]
      rfl
    by_cases hneg : record.endXid < 0
    · -- the deletion is not committed
      obtain ⟨i, hmem, howner⟩ := (h.owned row).delete_owner hrecord hneg
      have hposi := h.ids.pos i (Or.inr (List.ne_nil_of_mem hmem))
      obtain rfl := hdeleter.eq_of_neg howner hposi
      rw [htable, hcommitted, hlogged.not_committed hmem,
        hread (visitRecord_deleting hpos hneg), if_pos (by omega)]
      rfl
    · have hposEnd : 0 < record.endXid := by omega
      have hdeleted := hdeleter.committed hlogged hposEnd (hendWhole hposEnd hnot)
      have hbehind := hendPos.resolve_left hnot
      rw [htable, hcommitted, hdeleted, hread (visitRecord_committed hpos hposEnd),
        if_neg (by omega)]
      rfl

/-! ## Runs -/

/-- The condition of a step. -/
structure Recoverable (s : Db) (c : Nat × Call) : Prop where
  plain : s.Plain c
  deletes : DeletesOnce s c
  commits : CommitsOwn s c

instance (s : Db) (c : Nat × Call) : Decidable (Recoverable s c) :=
  decidable_of_iff (s.Plain c ∧ DeletesOnce s c ∧ CommitsOwn s c)
    ⟨fun ⟨hplain, hdeletes, hcommits⟩ => ⟨hplain, hdeletes, hcommits⟩,
      fun h => ⟨h.plain, h.deletes, h.commits⟩⟩

theorem recoverable_invariant {calls : List (Nat × Call)}
    (hrun : Run call Recoverable create calls s') :
    Inv s' ∧ Logged s' ∧ ∀ row committed, Open committed s' → Kept committed s' row := by
  apply hrun.invariant
    (I := fun s => Inv s ∧ Logged s ∧ ∀ row committed, Open committed s → Kept committed s row)
  · rintro s ⟨i, c⟩ s' ⟨hinv, hlogged, hkept⟩ ⟨hplain, hdeletes, hcommits⟩ hcall
    have heffect := call_effect hcall
    exact ⟨hinv.effect hplain heffect, hlogged.effect hinv hplain hcommits heffect,
      fun row => Kept.effect (hkept row) hinv hlogged hplain hdeletes heffect⟩
  · refine ⟨Inv.create, Logged.create, ?_⟩
    intro row committed _
    rfl

end Db

/-- The row that an entry is about. -/
def LogEntry.row : LogEntry → Option RowId
  | .record ch => some ch.row
  | .trx _ (.insertRecord row) => some row
  | .trx _ (.deleteRecord row) => some row
  | .trx _ (.updateRecord row) => some row
  | .trx _ _ => none

theorem Db.Logged.replayable {s : Db} (h : s.Logged) {tables : Int → Bool}
    (htables : ∀ e ∈ s.log, ∀ row ∈ e.row, tables row.tableId = true) :
    ∀ e ∈ s.log, Replayable tables e := by
  intro e he
  have htable := htables e he
  cases e with
  | record ch => exact htable ch.row rfl
  | trx trxId op =>
    cases op with
    | insertRecord row | deleteRecord row => exact htable row rfl
    | updateRecord row => exact h.no_update trxId row he
    | commit | rollback => trivial

/-- Recovery is all or nothing for every prefix of the log of a run without UPDATE in which
deletions and commits are as above, as long as the prefix breaks no commit off and its ids are
counted. -/
theorem Db.allOrNothing_of_run (calls : List (Nat × Call)) (s' : Db)
    (hrun : Run call Recoverable create calls s') (k : Nat) (seen : PageId → Nat)
    (tables : Int → Bool)
    (htables : ∀ e ∈ s'.log.take k, ∀ row ∈ e.row, tables row.tableId = true)
    (hwhole : Whole (s'.log.take k)) (hcounted : Counted (s'.log.take k)) :
    AllOrNothing tables (s'.log.take k) seen := by
  obtain ⟨calls₁, s, hrun₁, hlog⟩ := run_of_prefix hrun (Nat.zero_le k)
  rw [← hlog] at htables hwhole hcounted ⊢
  obtain ⟨hinv, hlogged, hkept⟩ := recoverable_invariant hrun₁
  refine ⟨_, recover_eq seen (hlogged.replayable htables), ?_⟩
  intro trxId hlt hle
  funext row
  exact (hkept row _ (open_committed hlogged)).read hinv hlogged (records_of_run hrun₁) hwhole
    hcounted rfl rfl hlt hle

/-- A row is committed, and the crash leaves the deletion of it unfinished.  Its page has seen the
first two entries. -/
theorem Db.allOrNothing_of_run_first : ∃ (s' : Db) (seen : PageId → Nat),
    AllOrNothing (fun _ => true) s'.log seen ∧ s'.log.length = 6 ∧
      committedTable s'.log ⟨1, ⟨1, 0⟩⟩ = some [7] := by
  let row : RowId := ⟨1, ⟨1, 0⟩⟩
  let calls : List (Nat × Call) :=
    (0, .startIfNeed) :: inserts 0 row [7] ++ commits 0 1 ++ (1, .startIfNeed) :: deletes 1 row
  have hcheck : (Run.check call Recoverable create calls).map (fun s' => decide
      (s'.log.length = 6 ∧ committedTable s'.log row = some [7] ∧ Whole s'.log ∧
        Counted s'.log)) = some true := by decide
  obtain ⟨s', hrun, hfacts⟩ := Option.map_eq_some_iff.mp hcheck
  obtain ⟨hlength, htable, hwhole, hcounted⟩ := of_decide_eq_true hfacts
  have htake : s'.log.take 6 = s'.log := List.take_of_length_le hlength.le
  have hall := allOrNothing_of_run calls s' (Run.of_check hrun) 6 (fun _ => 2) (fun _ => true)
    (fun _ _ _ _ => rfl) (htake.symm ▸ hwhole) (htake.symm ▸ hcounted)
  exact ⟨s', fun _ => 2, htake ▸ hall, hlength, htable⟩

/-- The replay ends the process at the entry of an UPDATE.  And where it completes, the first
transaction behind it has the commit id of the last deletion, and it sees the row. -/
theorem Db.updated_not_allOrNothing :
    (∃ (calls : List (Nat × Call)) (s' : Db), calls.foldlM call create = some s' ∧
      ¬AllOrNothing (fun _ => true) s'.log fun _ => 0) ∧
    ∃ (calls : List (Nat × Call)) (s' : Db), calls.foldlM call create = some s' ∧
      (∃ r, recover (fun _ => true) s'.log (fun _ => 0) = .ok r) ∧
      ¬AllOrNothing (fun _ => true) s'.log fun _ => 0 := by
  let row : RowId := ⟨1, ⟨1, 0⟩⟩
  let inserted : List (Nat × Call) := (0, .startIfNeed) :: inserts 0 row [7] ++ commits 0 1
  let updated : List (Nat × Call) := inserted ++
    [(1, .startIfNeed), (1, .scan row), (1, .updateRecord [8]), (1, .logOperation)]
  let deleted : List (Nat × Call) :=
    inserted ++ (1, .startIfNeed) :: deletes 1 row ++ commits 1 1
  have hupdated : (updated.foldlM call create).map (fun s' =>
      (recover (fun _ => true) s'.log fun _ => 0).toOption.isNone) = some true := by decide
  have hdeleted : (deleted.foldlM call create).map (fun s' =>
      (committedTable s'.log row, (recover (fun _ => true) s'.log fun _ => 0).toOption.map
        fun r => (r.currentTrxId, r.read 4 row))) =
      some (none, some (3, some [7])) := by decide
  obtain ⟨s₁, hs₁, hnone⟩ := Option.map_eq_some_iff.mp hupdated
  obtain ⟨s₂, hs₂, hpair⟩ := Option.map_eq_some_iff.mp hdeleted
  obtain ⟨htable, hrecover⟩ := Prod.mk.inj hpair
  obtain ⟨r, hr, hread⟩ := Option.map_eq_some_iff.mp hrecover
  obtain ⟨hcounter, hread⟩ := Prod.mk.inj hread
  have hok : recover (fun _ => true) s₂.log (fun _ => 0) = .ok r := by
    cases h : recover (fun _ => true) s₂.log (fun _ => 0) with
    | error e => simp [h, Except.toOption] at hr
    | ok r' => simpa [h, Except.toOption] using hr
  refine ⟨⟨updated, s₁, hs₁, ?_⟩, deleted, s₂, hs₂, ⟨r, hok⟩, ?_⟩
  · rintro ⟨r', hr', _⟩
    simp [hr', Except.toOption] at hnone
  · rintro ⟨r', hr', hall⟩
    rw [hok] at hr'
    cases hr'
    have hthen := congrFun (hall 4 (by omega) (by decide)) row
    rw [hread, htable] at hthen
    cases hthen

end ObHtap.Mvcc
