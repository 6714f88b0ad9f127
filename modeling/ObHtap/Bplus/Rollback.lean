import ObHtap.Bplus.Recorded
import ObHtap.Bplus.Runs

/-!
# Rollback

The rollback of a removal goes through `IndexNodeHandler`, whose `__item_at` is the null
pointer.  An operation that fails after it has changed a node has recorded a removal, so it is
never taken back: the process ends instead.
-/

namespace ObHtap

open IndexNodeHandler BplusTreeHandler BplusTreeMiniTransaction

section Rollback

variable {κ : Type}

/-- Items cannot be put back through the base handler. -/
theorem rollback_nodeRemove {p : PageNum} {index : Nat} {items : List (Item κ)}
    (hne : items ≠ []) :
    Triple (fun _ => True) (LogEntry.rollback (.nodeRemove p index items)) (fun _ _ => False)
      (fun e _ => e = .abort) := by
  refine Triple.bind (Q := fun _ _ => True) (fun _ _ => trivial) fun node => ?_
  rw [if_pos ⟨rfl, Or.inr hne⟩]
  exact Triple.throw fun _ _ => rfl

/-- A removal among the entries keeps the loop of `rollback` from coming to its end. -/
theorem rollback_loop {p : PageNum} {index : Nat} {items : List (Item κ)} (hne : items ≠ []) :
    ∀ entries : List (LogEntry κ), LogEntry.nodeRemove p index items ∈ entries →
      Triple (fun _ => True) (entries.forM fun entry => ignoreRC entry.rollback)
        (fun _ _ => False) (fun _ _ => True)
  | entry :: entries, hmem => by
    rcases List.mem_cons.mp hmem with rfl | hmem
    · refine Triple.bind (Q := fun _ _ => False) ?_ fun _ _ => False.elim
      exact (ignoreRC_of ((rollback_nodeRemove hne).conseq (fun _ => id) (fun _ _ => id)
        fun e _ he rc => by simp [he])).conseq (fun _ => id) (fun _ _ => id) fun _ _ _ => trivial
    · exact Triple.triv.bind fun _ => rollback_loop hne entries hmem

theorem rollback_of_removal {p : PageNum} {s : Mtr κ} (h : RemovalRecorded p s) :
    ∀ s', BplusTreeLogger.rollback s ≠ .ok () s' := by
  obtain ⟨index, items, hne, hmem⟩ := h
  have hloop : Triple (· = s) BplusTreeLogger.rollback (fun _ _ => False) (fun _ _ => True) := by
    refine Triple.bind (Q := fun s' s'' => s' = s ∧ s'' = s) (Triple.get fun s' h => ⟨h, h⟩)
      fun s' => Triple.of_and fun hs' => ?_
    subst hs'
    refine Triple.bind (Q := fun _ _ => True) (fun _ _ => trivial) fun _ => ?_
    exact (rollback_loop hne _ (List.mem_reverse.mpr hmem)).bind fun _ _ => False.elim
  exact fun s' hs' => hloop.ok rfl hs'

theorem run_of_removal {p : PageNum} {body : MtrM κ Unit} {t : TreeState κ}
    {outcomes : List (Option RC)} {rc : RC} {s : Mtr κ}
    (hbody : body (start t true outcomes) = .error (.rc rc) s) (h : RemovalRecorded p s) :
    run body t outcomes = none := by
  unfold run
  rw [hbody]
  cases hroll : BplusTreeLogger.rollback s with
  | ok a s' => exact absurd hroll (rollback_of_removal h s')
  | error e s' => simp only [hroll]

end Rollback

section Calls

variable {υ : Type} [Inhabited υ] [DecidableEq υ] {index : BplusTreeHandler (Key υ)}
  {t : TreeState (Key υ)}

/-- The mini-transaction of an operation. -/
def Operation.mtr (index : BplusTreeHandler (Key υ)) : Operation υ → MtrM (Key υ) Unit
  | insert userKey rid isNull => insertEntryMtr index userKey rid isNull
  | delete userKey rid => deleteEntryMtr index userKey rid

theorem call_eq_run (c : Call υ) : index.call c t = run (c.operation.mtr index) t c.outcomes := by
  obtain ⟨operation, outcomes⟩ := c
  cases operation with
  | insert userKey rid isNull => rfl
  | delete userKey rid => rfl

theorem Operation.mtr_logsFirst (op : Operation υ) : Within LogsFirst (op.mtr index) := by
  cases op with
  | insert userKey rid isNull => exact insertEntryMtr_logsFirst index userKey rid isNull
  | delete userKey rid => exact deleteEntryMtr_logsFirst index userKey rid

theorem Operation.mtr_recorded (hL : 0 < index.fileHeader.leafMaxSize) (ht : TreePages t.pages)
    (op : Operation υ) : Triple (Idle t.pages) (op.mtr index) (fun _ => ChangeRecorded) Refused := by
  cases op with
  | insert userKey rid isNull => exact insertEntryMtr_recorded index hL ht userKey rid isNull
  | delete userKey rid => exact deleteEntryMtr_recorded index ht userKey rid

/-- A call that returns an error has left the nodes as they were, whatever became of its page
requests. -/
theorem call_error_pages (hL : 0 < index.fileHeader.leafMaxSize) (ht : TreePages t.pages)
    {c : Call υ} {rc : RC} {t' : TreeState (Key υ)} (h : index.call c t = some (.error rc, t')) :
    t'.pages.node = t.pages.node ∧ t'.pages.rootPage = t.pages.rootPage ∧
      t.pages.fileHeader.pageCount ≤ t'.pages.fileHeader.pageCount := by
  rw [call_eq_run] at h
  have hrun := h
  unfold run at h
  split at h
  case h_1 => cases h
  case h_3 => cases h
  case h_2 rc' s hbody =>
    have hlogs := c.operation.mtr_logsFirst.error hbody
    rcases (c.operation.mtr_recorded hL ht).error (idle_start t c.outcomes) hbody rc' rfl with
      hentries | ⟨p, hremoval⟩
    · -- nothing has been recorded, so there is nothing to take back
      obtain ⟨hnode, hroot⟩ := hlogs.2 rfl hentries
      have hback : BplusTreeLogger.rollback s =
          .ok () { s with entries := [], needLog := true } := by
        obtain ⟨tree, entries, needLog, outcomes⟩ := s
        obtain rfl : entries = [] := hentries
        rfl
      rw [hback] at h
      cases h
      exact ⟨hnode, hroot, hlogs.1.pageCount.trans s.pages.pageCount_release.ge⟩
    · rw [run_of_removal hbody hremoval] at hrun
      cases hrun

/-- The call fails with a return code at a point where it has changed nodes or the root page
number. -/
def FailsMidway (index : BplusTreeHandler (Key υ)) (c : Call υ) (t : TreeState (Key υ)) : Prop :=
  ∃ rc s, c.operation.mtr index (start t true c.outcomes) = .error (.rc rc) s ∧
    (s.pages.node ≠ t.pages.node ∨ s.pages.rootPage ≠ t.pages.rootPage)

/-- The call fails and leaves the nodes that were there and the root page number as they were. -/
def RolledBack (index : BplusTreeHandler (Key υ)) (c : Call υ) (t : TreeState (Key υ)) : Prop :=
  ∃ rc t', index.call c t = some (.error rc, t') ∧ t'.pages.rootPage = t.pages.rootPage ∧
    ∀ p, t.pages.Allocated p →
      (t'.pages.node p).items = (t.pages.node p).items ∧
      (t'.pages.node p).parent = (t.pages.node p).parent ∧
      (t'.pages.node p).nextBrother = (t.pages.node p).nextBrother

/-- No operation that fails midway is rolled back. -/
theorem not_rolledBack_of_failsMidway (index : BplusTreeHandler (Key υ))
    (hL : 0 < index.fileHeader.leafMaxSize) (t : TreeState (Key υ)) (ht : TreePages t.pages)
    (c : Call υ) (hfails : FailsMidway index c t) : ¬ RolledBack index c t := by
  obtain ⟨rc, s, hbody, hchanged⟩ := hfails
  have hrefused := (c.operation.mtr_recorded hL ht).error (idle_start t c.outcomes) hbody
  rcases hrefused rc rfl with hentries | ⟨p, hremoval⟩
  · obtain ⟨hnode, hroot⟩ := ((c.operation.mtr_logsFirst).error hbody).2 rfl hentries
    exact (hchanged.elim (· hnode) (· hroot)).elim
  · rintro ⟨rc', t', hcall, -⟩
    rw [call_eq_run, run_of_removal hbody hremoval] at hcall
    cases hcall

end Calls

/-! ## Reading the leaves after a call that has failed -/

section Reading

variable {κ α β : Type} {s s' : Mtr κ} {x y : MtrM κ α}

/-- The same nodes and the same root, in files of which the second is not shorter. -/
structure SameNodes (s s' : Mtr κ) : Prop where
  node : s'.pages.node = s.pages.node
  rootPage : s'.pages.rootPage = s.pages.rootPage
  pageCount : s.pages.fileHeader.pageCount ≤ s'.pages.fileHeader.pageCount
  served : s.outcomes = []
  served' : s'.outcomes = []

/-- What the first program reads where it succeeds, the second reads too. -/
def ReadsAlike (x y : MtrM κ α) : Prop :=
  ∀ s s' a s₁, SameNodes s s' → x s = .ok a s₁ → ∃ s₁', y s' = .ok a s₁' ∧ SameNodes s₁ s₁'

namespace ReadsAlike

theorem pure (a : α) : ReadsAlike (Pure.pure a : MtrM κ α) (Pure.pure a) := by
  rintro s s' _ _ h ⟨⟩
  exact ⟨s', rfl, h⟩

theorem throw (e : Fault) : ReadsAlike (MonadExcept.throw e : MtrM κ α) y := by
  rintro s s' a s₁ - h
  cases h

theorem bind {f g : α → MtrM κ β} (hx : ReadsAlike x y) (hf : ∀ a, ReadsAlike (f a) (g a)) :
    ReadsAlike (x >>= f) (y >>= g) := by
  intro s s' b s₂ h hrun
  change EStateM.bind x f s = _ at hrun
  change ∃ s₂', EStateM.bind y g s' = .ok b s₂' ∧ _
  unfold EStateM.bind at hrun ⊢
  cases hx₁ : x s with
  | error e s₁ =>
    rw [hx₁] at hrun
    cases hrun
  | ok a s₁ =>
    rw [hx₁] at hrun
    obtain ⟨s₁', hy, h₁⟩ := hx s s' a s₁ h hx₁
    rw [hy]
    exact hf a s₁ s₁' b s₂ h₁ hrun

theorem ite {p : Prop} [Decidable p] {x' y' : MtrM κ α} (hx : ReadsAlike x y)
    (hx' : ReadsAlike x' y') : ReadsAlike (if p then x else x') (if p then y else y') := by
  split
  · exact hx
  · exact hx'

theorem readNode (p : PageNum) : ReadsAlike (ObHtap.readNode p : MtrM κ _) (ObHtap.readNode p) := by
  rintro s s' _ _ h ⟨⟩
  exact ⟨s', by rw [← h.node]; rfl, h⟩

theorem readRootPage : ReadsAlike (ObHtap.readRootPage : MtrM κ _) ObHtap.readRootPage := by
  rintro s s' _ _ h ⟨⟩
  exact ⟨s', by rw [← h.rootPage]; rfl, h⟩

theorem getPage_served (p : PageNum) (h : s.outcomes = []) :
    ObHtap.getPage p s = if 0 ≤ p ∧ p.toNat < s.pages.fileHeader.pageCount then .ok () s
      else .error (.rc .ioerrRead) s := by
  obtain ⟨t, entries, needLog, outcomes⟩ := s
  obtain rfl : outcomes = [] := h
  change (if _ then Pure.pure () else MonadExcept.throw _ : MtrM κ Unit) _ = _
  split
  · rfl
  · rfl

theorem getPage (p : PageNum) : ReadsAlike (ObHtap.getPage p : MtrM κ _) (ObHtap.getPage p) := by
  intro s s' a s₁ h hrun
  rw [getPage_served p h.served] at hrun
  split_ifs at hrun with hp
  cases hrun
  refine ⟨s', ?_, h⟩
  rw [getPage_served p h.served', if_pos ⟨hp.1, hp.2.trans_le h.pageCount⟩]

theorem valueAt (p : PageNum) (index : Nat) :
    ReadsAlike (InternalIndexNodeHandler.valueAt p index : MtrM κ _)
      (InternalIndexNodeHandler.valueAt p index) := by
  refine bind (bind (readNode p) fun node => ite (throw _) ?_) fun _ => pure _
  split
  · exact pure _
  · exact throw _

theorem findLeafFrom {fuel fuel' : Nat} (hfuel : fuel ≤ fuel') (p : PageNum) :
    ReadsAlike (BplusTreeHandler.findLeafFrom (fun _ => 0) fuel p : MtrM κ _)
      (BplusTreeHandler.findLeafFrom (fun _ => 0) fuel' p) := by
  induction fuel generalizing fuel' p with
  | zero => exact throw _
  | succ fuel ih =>
    obtain ⟨fuel', rfl⟩ := Nat.exists_eq_succ_of_ne_zero (Nat.ne_zero_of_lt hfuel)
    refine bind (readNode p) fun node => ite (pure p) ?_
    exact bind (valueAt p 0) fun next => bind (getPage next) fun _ =>
      ih (Nat.le_of_succ_le_succ hfuel) next

theorem printLeafsFrom {fuel fuel' : Nat} (hfuel : fuel ≤ fuel') (p : PageNum) :
    ReadsAlike (BplusTreeHandler.printLeafsFrom fuel p : MtrM κ _)
      (BplusTreeHandler.printLeafsFrom fuel' p) := by
  induction fuel generalizing fuel' p with
  | zero => exact throw _
  | succ fuel ih =>
    obtain ⟨fuel', rfl⟩ := Nat.exists_eq_succ_of_ne_zero (Nat.ne_zero_of_lt hfuel)
    refine bind (readNode p) fun node => ite (pure _) (bind (getPage _) fun _ => ?_)
    exact bind (ih (Nat.le_of_succ_le_succ hfuel) node.nextBrother) fun items => pure _

/-- The rounds are as many as there are pages, and one more. -/
theorem rounds_bind {f : Nat → MtrM κ α}
    (hf : ∀ n n', n ≤ n' → ReadsAlike (f n) (f n')) :
    ReadsAlike (BplusTreeHandler.rounds >>= f) (BplusTreeHandler.rounds >>= f) := by
  intro s s' a s₁ h hrun
  exact hf _ _ (Nat.succ_le_succ h.pageCount) s s' a s₁ h hrun

theorem printLeafs : ReadsAlike (BplusTreeHandler.printLeafs : MtrM κ _)
    BplusTreeHandler.printLeafs := by
  refine bind readRootPage fun rootPage => ite (pure _) (bind ?_ fun p => ?_)
  · refine bind readRootPage fun rootPage => ite (throw _) (bind (getPage _) fun _ => ?_)
    exact rounds_bind fun n n' hn => findLeafFrom hn rootPage
  · exact rounds_bind fun n n' hn => printLeafsFrom hn p

end ReadsAlike

end Reading

/-- The leaf chain reads as before after a call that has returned an error. -/
theorem leafEntries_of_call_error {υ : Type} [Inhabited υ] [DecidableEq υ]
    {index : BplusTreeHandler (Key υ)} {t t' : TreeState (Key υ)} {c : Call υ} {rc : RC}
    (hL : 0 < index.fileHeader.leafMaxSize) (ht : TreePages t.pages)
    (h : index.call c t = some (.error rc, t')) {items : List (Item (Key υ))}
    (hitems : leafEntries t = some items) : leafEntries t' = some items := by
  obtain ⟨hnode, hroot, hcount⟩ := call_error_pages hL ht h
  have hsame : SameNodes (start t true []) (start t' true []) := ⟨hnode, hroot, hcount, rfl, rfl⟩
  unfold leafEntries at hitems ⊢
  cases hrun : BplusTreeHandler.printLeafs (start t true []) with
  | error e s =>
    rw [hrun] at hitems
    cases hitems
  | ok a s =>
    rw [hrun] at hitems
    obtain ⟨s', hrun', -⟩ := ReadsAlike.printLeafs _ _ a s hsame hrun
    rw [hrun']
    exact hitems

/-- Insertions of the first keys in ascending order. -/
def ascendingInsertions (n : Nat) : List (Call (UserKey [.ints])) :=
  (List.range n).map fun i => ⟨.insert (intKey (i + 1)) ⟨0, 0⟩ false, []⟩

theorem ascendingInsertions_served (n : Nat) : ∀ c ∈ ascendingInsertions n, c.Served := by
  intro c hc
  obtain ⟨i, -, rfl⟩ := List.mem_map.mp hc
  rfl

/-- The deletion does not get the fourth page and has changed the number of items of `p`. -/
def leavesResized (index : BplusTreeHandler (Key (UserKey [.ints]))) (key : Int) (p : PageNum)
    (t : TreeState (Key (UserKey [.ints]))) : Bool :=
  match deleteEntryMtr index (intKey key) ⟨0, 0⟩
      (start t true [none, none, none, some .ioerrRead]) with
  | .error (.rc .ioerrRead) s => decide ((s.pages.node p).size ≠ (t.pages.node p).size)
  | _ => false

theorem failsMidway_of_leavesResized {index : BplusTreeHandler (Key (UserKey [.ints]))} {key : Int}
    {p : PageNum} {t : TreeState (Key (UserKey [.ints]))} (h : leavesResized index key p t = true) :
    FailsMidway index ⟨.delete (intKey key) ⟨0, 0⟩, [none, none, none, some .ioerrRead]⟩ t := by
  unfold leavesResized at h
  split at h
  · rename_i s hs
    exact ⟨.ioerrRead, s, hs, Or.inl fun hsame => of_decide_eq_true h (by rw [hsame])⟩
  · cases h

/-- Four items fit into a leaf.  The second deletion leaves one item in the right leaf, and then
the page of its neighbor cannot be read. -/
theorem refusedDelete_not_rolledBack :
    ∃ results t, (ofAttrs [.ints] ⟨3, 4, false⟩).runCalls
        (ascendingInsertions 5 ++ [⟨.delete (intKey 5) ⟨0, 0⟩, []⟩]) TreeState.create =
        some (results, t) ∧
      ¬ RolledBack (ofAttrs [.ints] ⟨3, 4, false⟩)
        ⟨.delete (intKey 4) ⟨0, 0⟩, [none, none, none, some .ioerrRead]⟩ t := by
  have hrun : ((ofAttrs [.ints] ⟨3, 4, false⟩).runCalls
      (ascendingInsertions 5 ++ [⟨.delete (intKey 5) ⟨0, 0⟩, []⟩]) TreeState.create).map
      (fun r => leavesResized (ofAttrs [.ints] ⟨3, 4, false⟩) 4 3 r.2) = some true := by
    decide +kernel
  obtain ⟨⟨results, t⟩, ht, hfails⟩ := Option.map_eq_some_iff.mp hrun
  obtain ⟨g, hw⟩ : HasLayout ⟨3, 4, false⟩ (Key.rank (UserKey.rank [.ints])) t :=
    runCalls_induction (fun _ _ _ _ hs h hc => h.call (ranked_ofAttrs [.ints] ⟨3, 4, false⟩)
      (by decide) (by decide) rfl hs hc) _
      (List.forall_mem_append.mpr ⟨ascendingInsertions_served 5, by simp [Call.Served]⟩)
      ⟨Layout.empty, wellFormed_create _ _⟩ ht
  refine ⟨results, t, ht, not_rolledBack_of_failsMidway (ofAttrs [.ints] ⟨3, 4, false⟩) (by decide)
    t hw.tree.treePages _ (failsMidway_of_leavesResized hfails)⟩

/-- The deletion of the least key leaves one item in the left leaf, and then the page of its
neighbor cannot be read.  The process ends in the rollback. -/
theorem refusedDelete_endsProcess :
    ∃ results t, (ofAttrs [.ints] ⟨3, 4, false⟩).runCalls (ascendingInsertions 5)
        TreeState.create = some (results, t) ∧
      FailsMidway (ofAttrs [.ints] ⟨3, 4, false⟩)
        ⟨.delete (intKey 1) ⟨0, 0⟩, [none, none, none, some .ioerrRead]⟩ t ∧
      (ofAttrs [.ints] ⟨3, 4, false⟩).call
        ⟨.delete (intKey 1) ⟨0, 0⟩, [none, none, none, some .ioerrRead]⟩ t = none := by
  have hrun : ((ofAttrs [.ints] ⟨3, 4, false⟩).runCalls (ascendingInsertions 5)
      TreeState.create).map
      (fun r => (leavesResized (ofAttrs [.ints] ⟨3, 4, false⟩) 1 2 r.2,
        ((ofAttrs [.ints] ⟨3, 4, false⟩).call
          ⟨.delete (intKey 1) ⟨0, 0⟩, [none, none, none, some .ioerrRead]⟩ r.2).isNone)) =
      some (true, true) := by decide +kernel
  obtain ⟨⟨results, t⟩, ht, hfacts⟩ := Option.map_eq_some_iff.mp hrun
  obtain ⟨hfails, hnone⟩ := Prod.mk.inj hfacts
  exact ⟨results, t, ht, failsMidway_of_leavesResized hfails, Option.isNone_iff_eq_none.mp hnone⟩

end ObHtap
