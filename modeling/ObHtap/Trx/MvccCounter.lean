import ObHtap.Trx.MvccTrxLog

/-!
# The id counter behind a replay

`create_trx` raises the counter to the id of the transaction it makes.  The redo of a COMMIT entry
drops the commit id, so that the ids handed out next are behind all ids of the log just when some
transaction has an id that large.
-/

namespace ObHtap.Mvcc

/-! ## The counter of a replay -/

theorem counter_cons_trx (x trxId : Int) (op : MvccTrxLogOperation) (log : List LogEntry) :
    counter x (.trx trxId op :: log) = counter (if x < trxId then trxId else x) log := rfl

theorem le_counter (x : Int) (log : List LogEntry) : x ≤ counter x log := by
  induction log generalizing x with
  | nil => exact Int.le_refl x
  | cons e log ih =>
    cases e with
    | record => exact ih x
    | trx trxId op =>
      rw [counter_cons_trx]
      refine Int.le_trans ?_ (ih _)
      split_ifs
      · omega
      · exact Int.le_refl x

theorem trxId_le_counter {log : List LogEntry} (x : Int) {trxId : Int} {op : MvccTrxLogOperation}
    (hmem : .trx trxId op ∈ log) : trxId ≤ counter x log := by
  induction log generalizing x with
  | nil => cases hmem
  | cons e log ih =>
    rcases List.mem_cons.mp hmem with rfl | hmem
    · rw [counter_cons_trx]
      refine Int.le_trans ?_ (le_counter _ log)
      split_ifs
      · exact Int.le_refl trxId
      · omega
    · exact ih _ hmem

/-- The counter ends where it starts or at the id of a transaction. -/
theorem counter_eq (x : Int) (log : List LogEntry) :
    counter x log = x ∨ ∃ trxId op, .trx trxId op ∈ log ∧ counter x log = trxId := by
  induction log generalizing x with
  | nil => exact Or.inl rfl
  | cons e log ih =>
    have hrest : ∀ y, counter y log = y ∨
        ∃ trxId op, .trx trxId op ∈ e :: log ∧ counter y log = trxId := by
      intro y
      apply (ih y).imp_right
      rintro ⟨trxId, op, hmem, heq⟩
      exact ⟨trxId, op, List.mem_cons_of_mem _ hmem, heq⟩
    cases e with
    | record => exact hrest x
    | trx trxId op =>
      rw [counter_cons_trx]
      by_cases hlt : x < trxId
      · rw [if_pos hlt]
        rcases hrest trxId with heq | hmem
        · exact Or.inr ⟨trxId, op, List.mem_cons_self, heq⟩
        · exact Or.inr hmem
      · rw [if_neg hlt]
        exact hrest x

theorem replayEntry_counter {e : LogEntry × Nat} {r r' : Recovery} (hmap : r.trxMap = [])
    (h : Recovery.replayEntry e r = .ok r') :
    r'.trxMap = [] ∧ r'.currentTrxId = counter r.currentTrxId [e.1] := by
  obtain ⟨e, lsn⟩ := e
  cases e with
  | record ch =>
    simp only [Recovery.replayEntry, Recovery.replayRecord] at h
    split_ifs at h
    · cases h
      exact ⟨hmap, rfl⟩
    · cases h
      exact ⟨hmap, rfl⟩
  | trx trxId op =>
    simp only [Recovery.replayEntry, Recovery.replayTrx, hmap, List.lookup_nil] at h
    split at h
    · cases h
    · cases h
      refine ⟨?_, ?_⟩
      · cases op <;> rfl
      · simp [counter]

theorem replay_counter {entries : List (LogEntry × Nat)} {r r' : Recovery} (hmap : r.trxMap = [])
    (h : replay Recovery.replayEntry entries r = .ok r') :
    r'.trxMap = [] ∧ r'.currentTrxId = counter r.currentTrxId (entries.map Prod.fst) := by
  induction entries generalizing r with
  | nil =>
    cases h
    exact ⟨hmap, rfl⟩
  | cons e entries ih =>
    rw [replay] at h
    split at h
    · rename_i r₁ hr₁
      obtain ⟨hmap₁, hcounter⟩ := replayEntry_counter hmap hr₁
      obtain ⟨hmap', hcounter'⟩ := ih hmap₁ h
      refine ⟨hmap', ?_⟩
      rw [hcounter', hcounter]
      rfl
    · cases h

/-- The counter is the largest id of a transaction in the log. -/
theorem currentTrxId_of_recover {tables : Int → Bool} {log : List LogEntry} {seen : PageId → Nat}
    {r : Recovery} (h : recover tables log seen = .ok r) : r.currentTrxId = counter 0 log := by
  unfold recover at h
  cases hreplay : replay Recovery.replayEntry (log.zipIdx 1)
      ⟨tables, Pages.image log seen, 0, []⟩ with
  | error e => simp [hreplay, bind, Except.bind] at h
  | ok r₁ =>
    obtain ⟨hmap, hcounter⟩ := replay_counter rfl hreplay
    have hdone : r₁.onDone = .ok r₁ := by
      rw [Recovery.onDone, hmap]
      cases r₁
      cases hmap
      rfl
    rw [hreplay] at h
    obtain rfl : r₁ = r := Except.ok.inj (hdone.symm.trans h)
    rw [hcounter, List.zipIdx_map_fst]

/-! ## The ids handed out -/

/-- Every id that `next_trx_id` hands out after the replay, until it wraps around, is behind all
ids that occur in the log. -/
def HandsOutNew (r : Recovery) (log : List LogEntry) : Prop :=
  ∀ n : Nat, 0 < n → r.currentTrxId + n ≤ maxTrxId → ∀ trxId op, .trx trxId op ∈ log →
    trxId < nextTrxId^[n] r.currentTrxId ∧
      ∀ commitXid, op = .commit commitXid → commitXid < nextTrxId^[n] r.currentTrxId

theorem iterate_nextTrxId {x : Int} {n : Nat} (h : x + n ≤ maxTrxId) :
    nextTrxId^[n] x = x + n := by
  induction n with
  | zero => simp
  | succ n ih =>
    rw [Function.iterate_succ_apply', ih (by omega), nextTrxId_of_lt (by omega)]
    push_cast
    omega

/-- After a replay all new ids are behind those of the log just when no commit id of the log is
larger than all ids of transactions in it. -/
theorem handsOutNew_iff (tables : Int → Bool) (log : List LogEntry) (seen : PageId → Nat)
    (r : Recovery) (hrecover : recover tables log seen = .ok r)
    (hcommits : ∀ trxId commitXid, .trx trxId (.commit commitXid) ∈ log →
      0 < commitXid ∧ commitXid ≤ maxTrxId) :
    HandsOutNew r log ↔ ∀ trxId commitXid, .trx trxId (.commit commitXid) ∈ log →
      ∃ trxId' op, .trx trxId' op ∈ log ∧ commitXid ≤ trxId' := by
  have hcounter := currentTrxId_of_recover hrecover
  constructor
  · intro hnew trxId commitXid hmem
    obtain ⟨hpos, hmax⟩ := hcommits trxId commitXid hmem
    have hbelow : commitXid ≤ counter 0 log := by
      by_cases hshort : r.currentTrxId < maxTrxId
      swap
      · omega
      have hfirst := (hnew 1 Nat.one_pos (by push_cast; omega) trxId _ hmem).2 commitXid rfl
      rw [iterate_nextTrxId (by push_cast; omega)] at hfirst
      push_cast at hfirst
      omega
    rcases counter_eq 0 log with heq | ⟨trxId', op, hmem', heq⟩
    · omega
    · exact ⟨trxId', op, hmem', by omega⟩
  · intro hbelow n hn hle trxId op hmem
    rw [iterate_nextTrxId hle]
    have hid := trxId_le_counter 0 hmem
    refine ⟨by omega, ?_⟩
    rintro commitXid rfl
    obtain ⟨trxId', op', hmem', hle'⟩ := hbelow trxId commitXid hmem
    have hid' := trxId_le_counter 0 hmem'
    omega

/-- A transaction that starts behind the commit of the other and logs a record. -/
theorem handsOutNew_iff_later : ∃ r : Recovery,
    HandsOutNew r [.trx 1 (.insertRecord ⟨1, ⟨1, 0⟩⟩), .trx 1 (.commit 2),
      .trx 3 (.insertRecord ⟨1, ⟨1, 1⟩⟩)] ∧ r.currentTrxId = 3 := by
  let log : List LogEntry := [.trx 1 (.insertRecord ⟨1, ⟨1, 0⟩⟩), .trx 1 (.commit 2),
    .trx 3 (.insertRecord ⟨1, ⟨1, 1⟩⟩)]
  have hcounter : ((recover (fun _ => true) log fun _ => 0).toOption.map
      fun r => r.currentTrxId) = some 3 := by decide
  obtain ⟨r, hr, hid⟩ := Option.map_eq_some_iff.mp hcounter
  have hrecover : recover (fun _ => true) log (fun _ => 0) = .ok r := by
    cases h : recover (fun _ => true) log (fun _ => 0) with
    | error e => simp [h, Except.toOption] at hr
    | ok r' => simpa [h, Except.toOption] using hr
  refine ⟨r, (handsOutNew_iff _ log _ r hrecover ?_).mpr ?_, hid⟩
  · intro trxId commitXid hmem
    have : trxId = 1 ∧ commitXid = 2 := by simpa [log] using hmem
    have : (2 : Int) ≤ maxTrxId := by decide
    omega
  · intro trxId commitXid hmem
    refine ⟨3, .insertRecord ⟨1, ⟨1, 1⟩⟩, by simp [log], ?_⟩
    have : trxId = 1 ∧ commitXid = 2 := by simpa [log] using hmem
    omega

/-- The commit id of the only transaction of a log is handed out again. -/
theorem committed_not_handsOutNew : ∃ (calls : List (Nat × Call)) (s : Db) (r : Recovery),
    calls.foldlM Db.call Db.create = some s ∧
      recover (fun _ => true) s.log (fun _ => 0) = .ok r ∧ ¬HandsOutNew r s.log := by
  let row : RowId := ⟨1, ⟨1, 0⟩⟩
  let calls : List (Nat × Call) := (0, .startIfNeed) :: Db.inserts 0 row [7] ++ Db.commits 0 1
  have heval : (calls.foldlM Db.call Db.create).map (fun s =>
      (decide (.trx 1 (.commit 2) ∈ s.log), (recover (fun _ => true) s.log fun _ => 0).toOption.map
        fun r => r.currentTrxId)) = some (true, some 1) := by decide
  obtain ⟨s, hs, hpair⟩ := Option.map_eq_some_iff.mp heval
  obtain ⟨hmem, hcounter⟩ := Prod.mk.inj hpair
  obtain ⟨r, hr, hid⟩ := Option.map_eq_some_iff.mp hcounter
  have hrecover : recover (fun _ => true) s.log (fun _ => 0) = .ok r := by
    cases h : recover (fun _ => true) s.log (fun _ => 0) with
    | error e => simp [h, Except.toOption] at hr
    | ok r' => simpa [h, Except.toOption] using hr
  refine ⟨calls, s, r, hs, hrecover, ?_⟩
  intro hnew
  have hthen := (hnew 1 Nat.one_pos (by rw [hid]; decide) 1 _ (of_decide_eq_true hmem)).2 2 rfl
  rw [hid] at hthen
  revert hthen
  decide

end ObHtap.Mvcc
