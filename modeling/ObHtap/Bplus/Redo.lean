import ObHtap.Bplus.Rollback

/-!
# Redo

`redo` brings the pages of a mini-transaction up to date and sets their LSN, but of all frames
it marks only the one of the file header dirty.
-/

namespace ObHtap

open IndexNodeHandler BplusTreeHandler BplusTreeMiniTransaction

variable {κ : Type}

/-- The LSNs stay, and no node page becomes dirty. -/
def KeepsMarks (s s' : Mtr κ) : Prop :=
  s'.lsn = s.lsn ∧ ∀ p, p ≠ firstIndexPage → s'.dirty p = s.dirty p

instance : Std.Refl (KeepsMarks (κ := κ)) := ⟨fun _ => ⟨rfl, fun _ _ => rfl⟩⟩

instance : IsTrans (Mtr κ) KeepsMarks :=
  ⟨fun _ _ _ h h' => ⟨h'.1.trans h.1, fun p hp => (h'.2 p hp).trans (h.2 p hp)⟩⟩

section Programs

variable (p : PageNum)

theorem readNode_keepsMarks : Within KeepsMarks (readNode p : MtrM κ _) :=
  Within.get.bind fun _ => Within.pure _

theorem writeNode_keepsMarks (node : IndexNode κ) : Within KeepsMarks (writeNode p node) :=
  Within.modify fun _ => ⟨rfl, fun _ _ => rfl⟩

theorem appendLogEntry_keepsMarks (entry : LogEntry κ) :
    Within KeepsMarks (appendLogEntry entry) :=
  Within.modify fun s => by split_ifs <;> exact ⟨rfl, fun _ _ => rfl⟩

theorem markDirty_firstIndexPage_keepsMarks :
    Within KeepsMarks (markDirty firstIndexPage : MtrM κ _) :=
  Within.modify fun _ => ⟨rfl, fun _ hp => if_neg hp⟩

theorem nextOutcome_keepsMarks : Within KeepsMarks (nextOutcome : MtrM κ _) := by
  rintro _ s rfl
  obtain ⟨t, entries, needLog, outcomes⟩ := s
  cases outcomes with
  | nil => exact ⟨rfl, fun _ _ => rfl⟩
  | cons outcome rest => exact ⟨rfl, fun _ _ => rfl⟩

theorem getPage_keepsMarks : Within KeepsMarks (getPage p : MtrM κ _) :=
  nextOutcome_keepsMarks.bind fun
    | some _ => Within.throw _
    | none => Within.get.bind fun _ => Within.ite (fun _ => Within.pure _) fun _ => Within.throw _

theorem initEmpty_keepsMarks (leaf : Bool) : Within KeepsMarks (initEmpty p leaf : MtrM κ _) :=
  (readNode_keepsMarks p).bind fun _ => writeNode_keepsMarks p _

theorem recoverInsertItems_keepsMarks (kind : HandlerKind) (index : Nat) (items : List (Item κ)) :
    Within KeepsMarks (recoverInsertItems kind p index items) :=
  (readNode_keepsMarks p).bind fun _ => Within.ite (fun _ => Within.throw _) fun _ =>
    Within.ite (fun _ => Within.throw _) fun _ => writeNode_keepsMarks p _

theorem recoverRemoveItems_keepsMarks (kind : HandlerKind) (index num : Nat) :
    Within KeepsMarks (recoverRemoveItems kind p index num : MtrM κ _) :=
  (readNode_keepsMarks p).bind fun _ => Within.ite (fun _ => Within.throw _) fun _ => Within.ite
    (fun _ => Within.ite (fun _ => Within.throw _) fun _ => writeNode_keepsMarks p _)
    fun _ => writeNode_keepsMarks p _

theorem itemAt_keepsMarks (index : Int) : Within KeepsMarks (itemAt p index : MtrM κ _) :=
  (readNode_keepsMarks p).bind fun node => Within.ite (fun _ => Within.throw _) fun _ => by
    cases node.items[index.toNat]? with
    | some item => exact Within.pure _
    | none => exact Within.throw _

theorem updateRootPageNumLocked_keepsMarks :
    Within KeepsMarks (updateRootPageNumLocked p : MtrM κ _) :=
  nextOutcome_keepsMarks.bind fun
    | some _ => Within.throw _
    | none => Within.bind (Within.get.bind fun _ => Within.pure _) fun _ =>
      (appendLogEntry_keepsMarks _).bind fun _ =>
      Within.bind (Within.modify fun _ => ⟨rfl, fun _ _ => rfl⟩) fun _ =>
      markDirty_firstIndexPage_keepsMarks

theorem redo_keepsMarks [Inhabited κ] (entry : LogEntry κ) : Within KeepsMarks entry.redo := by
  cases entry with
  | initHeaderPage rootPage =>
    exact Within.bind (Within.modify fun _ => ⟨rfl, fun _ _ => rfl⟩) fun _ =>
      markDirty_firstIndexPage_keepsMarks
  | updateRootPage rootPage _ => exact updateRootPageNumLocked_keepsMarks rootPage
  | setParentPage p parent _ =>
    exact (readNode_keepsMarks p).bind fun _ => (appendLogEntry_keepsMarks _).bind fun _ =>
      writeNode_keepsMarks p _
  | leafInitEmpty p =>
    exact (appendLogEntry_keepsMarks _).bind fun _ => (initEmpty_keepsMarks p true).bind fun _ =>
      (readNode_keepsMarks p).bind fun _ => writeNode_keepsMarks p _
  | leafSetNextPage p nextPage _ =>
    exact (readNode_keepsMarks p).bind fun _ => (appendLogEntry_keepsMarks _).bind fun _ =>
      writeNode_keepsMarks p _
  | internalInitEmpty p =>
    exact (appendLogEntry_keepsMarks _).bind fun _ => initEmpty_keepsMarks p false
  | internalCreateNewRoot p first key second =>
    exact (appendLogEntry_keepsMarks _).bind fun _ => (readNode_keepsMarks p).bind fun _ =>
      Within.ite (fun _ => Within.throw _) fun _ => writeNode_keepsMarks p _
  | internalUpdateKey p index key _ =>
    exact (itemAt_keepsMarks p index).bind fun _ => (appendLogEntry_keepsMarks _).bind fun _ =>
      (readNode_keepsMarks p).bind fun _ => writeNode_keepsMarks p _
  | nodeInsert p index items =>
    exact (readNode_keepsMarks p).bind fun _ => recoverInsertItems_keepsMarks p _ index items
  | nodeRemove p index items =>
    exact (readNode_keepsMarks p).bind fun _ => recoverRemoveItems_keepsMarks p _ index _

end Programs

section Redo

variable [Inhabited κ]

theorem redoEntries_spec (lsn : LSN) : ∀ (entries : List (LogEntry κ)) (s₀ : Mtr κ),
    (∀ p, s₀.lsn p < lsn) → Triple (· = s₀) (BplusTreeLogger.redoEntries lsn entries)
      (fun frames s => frames = entries.map LogEntry.pageNum ∧ KeepsMarks s₀ s) (fun _ _ => True)
  | [], s₀, _ => Triple.pure fun s hs => ⟨rfl, hs ▸ refl _⟩
  | entry :: entries, s₀, hbehind => by
    have hkeep : ∀ s, KeepsMarks s₀ s → ∀ p, s.lsn p < lsn := fun s hs p => hs.1 ▸ hbehind p
    have hstep : ∀ {x : MtrM κ Unit}, Within KeepsMarks x →
        Triple (KeepsMarks s₀) x (fun _ => KeepsMarks s₀) (fun _ _ => True) := fun hx =>
      (hx.triple fun _ _ h h' => IsTrans.trans _ _ _ h' h).conseq (fun _ => id) (fun _ _ => id)
        fun _ _ _ => trivial
    refine Triple.pre (H := KeepsMarks s₀) ?_ fun s hs => hs ▸ refl _
    refine (hstep (getPage_keepsMarks entry.pageNum)).bind fun _ => ?_
    refine get_of fun s hs => ?_
    rw [if_neg (not_le.mpr (hkeep s hs _))]
    refine (hstep (redo_keepsMarks entry)).bind fun _ => ?_
    refine Triple.bind (Q := fun frames s => frames = entries.map LogEntry.pageNum ∧
      KeepsMarks s₀ s) (fun s' hs' => ?_) fun frames => Triple.of_and fun hframes => ?_
    · exact (redoEntries_spec lsn entries s' (hkeep s' hs')).conseq (fun _ => id)
        (fun _ _ h => ⟨h.1, IsTrans.trans _ _ _ hs' h.2⟩) (fun _ _ _ => trivial) s' rfl
    · exact Triple.pure fun s' hs' => ⟨by rw [hframes]; rfl, hs'⟩

/-- The pages before an operation as a restart reads them: clean, with the LSNs they carry. -/
def TreeState.copies (t : TreeState κ) (fileHeader : BPFileHeader) (lsn : PageNum → LSN) :
    TreeState κ :=
  { t with pages := { t.pages with fileHeader }, dirty := fun _ => false, lsn }

/-- The page is another one afterwards, by its node or by its LSN. -/
def PageChanged (t t' : TreeState κ) (p : PageNum) : Prop :=
  t'.pages.node p ≠ t.pages.node p ∨ t'.lsn p ≠ t.lsn p

/-- Every entry can be redone on the copies, this makes the pages those after the operation and
marks all pages it changes dirty, and a second `__redo` changes nothing. -/
def Replays (lsn : LSN) (entries : List (LogEntry κ)) (copies after : TreeState κ) : Prop :=
  ∃ frames s s', BplusTreeLogger.redoEntries lsn entries (start copies false []) = .ok frames s ∧
    BplusTreeLogger.setLsn lsn frames s = .ok () s' ∧
    s'.pages.node = after.pages.node ∧ s'.pages.rootPage = after.pages.rootPage ∧
    (∀ p, PageChanged copies s'.toTreeState p → s'.dirty p = true) ∧
    ∃ s'', BplusTreeLogger.redo lsn entries s' = .ok () s'' ∧ s''.toTreeState = s'.toTreeState

theorem not_replays_of_change {lsn : LSN} {entries : List (LogEntry κ)} {entry : LogEntry κ}
    (hmem : entry ∈ entries) (hne : entry.pageNum ≠ firstIndexPage) {t after : TreeState κ}
    {fileHeader : BPFileHeader} {lsns : PageNum → LSN} (hbehind : ∀ p, lsns p < lsn) :
    ¬ Replays lsn entries (t.copies fileHeader lsns) after := by
  rintro ⟨frames, s, s', hredo, hset, -, -, hdirty, -⟩
  obtain ⟨rfl, hlsn, hkeep⟩ := (redoEntries_spec lsn entries _ hbehind).ok rfl hredo
  cases hset
  have hframe : entry.pageNum ∈ entries.map LogEntry.pageNum := List.mem_map_of_mem hmem
  have hchanged : lsn ≠ (t.copies fileHeader lsns).lsn entry.pageNum :=
    (hbehind entry.pageNum).ne'
  have hmarked : s.dirty entry.pageNum = true :=
    hdirty entry.pageNum (Or.inr (by simpa only [if_pos hframe] using hchanged))
  rw [hkeep entry.pageNum hne] at hmarked
  cases hmarked

end Redo

section Calls

variable {υ : Type} [Inhabited υ] [DecidableEq υ]

/-- The record of a successful operation is never replayed as it should be: the node pages that
it brings up to date are not marked dirty. -/
theorem not_replays_of_call (index : BplusTreeHandler (Key υ))
    (hL : 0 < index.fileHeader.leafMaxSize) (t : TreeState (Key υ)) (ht : TreePages t.pages)
    (c : Call υ) (t' : TreeState (Key υ)) (hcall : index.call c t = some (.ok (), t')) :
    ∃ lsn entries, t'.log = t.log ++ [(lsn, entries)] ∧
      ∀ (fileHeader : BPFileHeader) (lsns : PageNum → LSN), (∀ p, lsns p < lsn) →
        ¬ Replays lsn entries (t.copies fileHeader lsns) t' := by
  rw [call_eq_run] at hcall
  unfold run at hcall
  cases hbody : c.operation.mtr index (start t true c.outcomes) with
  | error e s =>
    rw [hbody] at hcall
    cases e with
    | abort => cases hcall
    | outOfFuel => cases hcall
    | rc rc =>
      simp only at hcall
      split at hcall
      · simp at hcall
      · cases hcall
  | ok a s =>
    simp only [hbody, Option.some.injEq, Prod.mk.injEq, true_and] at hcall
    obtain ⟨entry, hmem, hne⟩ :=
      (c.operation.mtr_recorded hL ht).ok (idle_start t c.outcomes) hbody
    have hlog : s.log = t.log := (c.operation.mtr_logsFirst.ok hbody).1.log
    have hcommit : (BplusTreeLogger.commit s).log = s.log ++ [(s.currentLsn + 1, s.entries)] := by
      unfold BplusTreeLogger.commit
      split
      · rename_i hnil
        rw [hnil] at hmem
        cases hmem
      · rfl
    refine ⟨s.currentLsn + 1, s.entries, ?_, fun fileHeader lsns hbehind =>
      not_replays_of_change hmem hne hbehind⟩
    rw [← hcall, ← hlog, ← hcommit]
    rfl

end Calls

theorem not_replays_of_first_insertion :
    ∃ t' lsn entries, intIndex.call ⟨.insert (intKey 1) ⟨0, 0⟩ false, []⟩ TreeState.create =
        some (.ok (), t') ∧
      t'.log = TreeState.create.log ++ [(lsn, entries)] ∧
      ∀ (fileHeader : BPFileHeader) (lsns : PageNum → LSN), (∀ p, lsns p < lsn) →
        ¬ Replays lsn entries (TreeState.create.copies fileHeader lsns) t' := by
  obtain ⟨t', hcall, -⟩ := (holds_create _ intIndex.fileHeader).call
    (ranked_ofAttrs [.ints] intIndex.fileHeader) (Key.rank_injective UserKey.rank_ints_injective)
    (by decide) (by decide) rfl (c := ⟨.insert (intKey 1) ⟨0, 0⟩ false, []⟩) rfl
  obtain ⟨lsn, entries, h⟩ := not_replays_of_call intIndex (by decide) TreeState.create
    (wellFormed_create (Key.rank (UserKey.rank [.ints])) intIndex.fileHeader).tree.treePages
    ⟨.insert (intKey 1) ⟨0, 0⟩ false, []⟩ t' hcall
  exact ⟨t', lsn, entries, hcall, h⟩

/-- Where the log holds one mini-transaction, whether its redo puts one item on page 2 and leaves
the page clean. -/
def redoneClean (copies : TreeState (Key (UserKey [.ints])))
    (log : List (LSN × List (LogEntry (Key (UserKey [.ints]))))) : Bool :=
  match log with
  | [(lsn, entries)] =>
    match BplusTreeLogger.redoEntries lsn entries (start copies false []) with
    | .ok _ s => decide ((s.pages.node 2).size = 1 ∧ s.dirty 2 = false)
    | .error _ _ => false
  | _ => false

/-- The redo of the first insertion puts the item on page 2 and leaves the page clean. -/
theorem redone_page_stays_clean :
    ∃ t' lsn entries frames s s',
      intIndex.call ⟨.insert (intKey 1) ⟨0, 0⟩ false, []⟩ TreeState.create = some (.ok (), t') ∧
      t'.log = [(lsn, entries)] ∧
      BplusTreeLogger.redoEntries lsn entries
        (start (TreeState.create.copies t'.pages.fileHeader fun _ => 0) false []) = .ok frames s ∧
      BplusTreeLogger.setLsn lsn frames s = .ok () s' ∧
      (TreeState.create.pages.node 2 : IndexNode (Key (UserKey [.ints]))).size = 0 ∧
      (s'.pages.node 2).size = 1 ∧ s'.dirty 2 = false := by
  have hrun : (intIndex.call ⟨.insert (intKey 1) ⟨0, 0⟩ false, []⟩ TreeState.create).map
      (fun r => (r.1.isOk,
        redoneClean (TreeState.create.copies r.2.pages.fileHeader fun _ => 0) r.2.log)) =
      some (true, true) := by decide +kernel
  obtain ⟨⟨result, t'⟩, hcall, hfacts⟩ := Option.map_eq_some_iff.mp hrun
  simp only [Prod.mk.injEq] at hfacts
  obtain ⟨hok, hredo⟩ := hfacts
  cases result with
  | error e => cases hok
  | ok u =>
    unfold redoneClean at hredo
    split at hredo
    · rename_i lsn entries hlog
      split at hredo
      · rename_i frames s hs
        obtain ⟨hsize, hdirty⟩ := of_decide_eq_true hredo
        exact ⟨t', lsn, entries, frames, s, _, hcall, hlog, hs, rfl, rfl, hsize, hdirty⟩
      · cases hredo
    · cases hredo

end ObHtap
