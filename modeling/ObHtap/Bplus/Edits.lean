import ObHtap.Bplus.NodeSpec
import ObHtap.Bplus.Handler
import ObHtap.Library.Triple

/-!
# Where an operation edits

A program edits pages of a set `W`, and it lets pages of a set `K` have a new parent.  All other
pages stay as they are, whatever the outcomes of its page requests are.
-/

namespace ObHtap

open IndexNodeHandler

variable {κ α β : Type}

/-- What may have changed from one state to another. -/
structure Edits (W K : PageNum → Prop) (s s' : Mtr κ) : Prop where
  allocated : ∀ p, s.pages.Allocated p → s'.pages.Allocated p
  rootPage : s'.pages.rootPage = s.pages.rootPage
  node : ∀ p, ¬ W p → ∃ parent, s'.pages.node p = { s.pages.node p with parent }
  parent : ∀ p, ¬ K p → (s'.pages.node p).parent = (s.pages.node p).parent

variable {W K : PageNum → Prop} {s s' s'' : Mtr κ} {p other : PageNum}

namespace Edits

theorem of_pages (h : s'.pages = s.pages) : Edits W K s s' where
  allocated p hp := h ▸ hp
  rootPage := by rw [h]
  node p _ := ⟨_, by rw [h]⟩
  parent p _ := by rw [h]

theorem trans (h : Edits W K s s') (h' : Edits W K s' s'') : Edits W K s s'' where
  allocated p hp := h'.allocated p (h.allocated p hp)
  rootPage := h'.rootPage.trans h.rootPage
  node p hW := by
    obtain ⟨parent, heq⟩ := h.node p hW
    obtain ⟨parent', heq'⟩ := h'.node p hW
    exact ⟨parent', by rw [heq', heq]⟩
  parent p hK := (h'.parent p hK).trans (h.parent p hK)

theorem mono {W' K' : PageNum → Prop} (h : Edits W K s s') (hW : ∀ p, W p → W' p)
    (hK : ∀ p, K p → K' p) : Edits W' K' s s' where
  allocated := h.allocated
  rootPage := h.rootPage
  node p hW' := h.node p fun hp => hW' (hW p hp)
  parent p hK' := h.parent p fun hp => hK' (hK p hp)

theorem same (h : Edits W K s s') (hW : ¬ W p) (hK : ¬ K p) :
    s'.pages.node p = s.pages.node p := by
  obtain ⟨parent, heq⟩ := h.node p hW
  have hparent := h.parent p hK
  rw [heq] at hparent ⊢
  rw [show parent = (s.pages.node p).parent from hparent]

end Edits

instance : Std.Refl (@Edits κ W K) := ⟨fun _ => .of_pages rfl⟩

instance : IsTrans (Mtr κ) (Edits W K) := ⟨fun _ _ _ => .trans⟩

/-- From the state `s` on, the program edits no other pages. -/
def Editing (W K : PageNum → Prop) (s : Mtr κ) (x : MtrM κ α) : Prop :=
  Triple (· = s) x (fun _ => Edits W K s) fun _ => Edits W K s

/-! ## Primitives -/

namespace Editing

theorem of_within {x : MtrM κ α} (h : Within (Edits W K) x) : Editing W K s x := h s

theorem bind_mono {W' K' : PageNum → Prop} {x : MtrM κ α} {f : α → MtrM κ β}
    (hx : Editing W' K' s x) (hW : ∀ p, W' p → W p) (hK : ∀ p, K' p → K p)
    (hf : ∀ a s', Edits W' K' s s' → Editing W K s' (f a)) : Editing W K s (x >>= f) := by
  refine Triple.bind (Q := fun _ => Edits W' K' s)
    (hx.conseq (fun _ => id) (fun _ _ => id) fun _ _ h => h.mono hW hK) fun a s' hs' => ?_
  exact (hf a s' hs').conseq (fun _ => id) (fun _ _ => (hs'.mono hW hK).trans)
    (fun _ _ => (hs'.mono hW hK).trans) s' rfl

theorem bind {x : MtrM κ α} {f : α → MtrM κ β} (hx : Editing W K s x)
    (hf : ∀ a s', Edits W K s s' → Editing W K s' (f a)) : Editing W K s (x >>= f) :=
  hx.bind_mono (fun _ => id) (fun _ => id) hf

theorem ite {c : Prop} [Decidable c] {x y : MtrM κ α} (hx : c → Editing W K s x)
    (hy : ¬ c → Editing W K s y) : Editing W K s (if c then x else y) :=
  Triple.ite hx hy

theorem readNode {f : IndexNode κ → MtrM κ α} (h : Editing W K s (f (s.pages.node p))) :
    Editing W K s (readNode p >>= f) := by
  rintro _ rfl
  exact h _ rfl

theorem appendLogEntry {entry : LogEntry κ} {f : PUnit → MtrM κ α}
    (h : ∀ s', s'.pages = s.pages → Editing W K s' (f ⟨⟩)) :
    Editing W K s (ObHtap.appendLogEntry entry >>= f) := by
  refine Triple.bind (Q := fun _ s' => s'.pages = s.pages) (Triple.modify fun s' hs' => ?_)
    fun _ s' hs' => ?_
  · split <;> rw [hs']
  · have hfirst : Edits W K s s' := .of_pages hs'
    exact (h s' hs').conseq (fun _ => id) (fun _ _ => hfirst.trans) (fun _ _ => hfirst.trans) s' rfl

theorem writeNode {node : IndexNode κ}
    (hW : ¬ W p → ∃ parent, node = { s.pages.node p with parent })
    (hK : ¬ K p → node.parent = (s.pages.node p).parent) :
    Editing W K s (writeNode p node) := by
  refine Triple.modify fun s' hs' => ?_
  subst hs'
  have hne {q : PageNum} (h : q ≠ p) : (s'.pages.setNode p node).node q = s'.pages.node q :=
    if_neg h
  have hself : (s'.pages.setNode p node).node p = node := if_pos rfl
  refine ⟨fun _ => id, rfl, fun q hq => ?_, fun q hq => ?_⟩
  · by_cases heq : q = p
    · subst heq
      obtain ⟨parent, heq⟩ := hW hq
      exact ⟨parent, hself.trans heq⟩
    · exact ⟨_, hne heq⟩
  · by_cases heq : q = p
    · subst heq
      exact (congrArg IndexNode.parent hself).trans (hK hq)
    · exact congrArg IndexNode.parent (hne heq)

end Editing

theorem nextOutcome_same {E : Fault → Mtr κ → Prop} :
    Triple (· = s) nextOutcome (fun _ s' => s'.pages = s.pages) E := by
  rintro s rfl
  obtain ⟨t, entries, needLog, outcomes⟩ := s
  cases outcomes with
  | nil => rfl
  | cons outcome rest => rfl

theorem nextOutcome_edits : Within (Edits W K) (nextOutcome : MtrM κ _) :=
  fun _ => nextOutcome_same.post fun _ _ => .of_pages

theorem readNode_edits (p : PageNum) : Within (Edits W K) (readNode p : MtrM κ _) :=
  Within.get.bind fun _ => Within.pure _

theorem getPage_edits (p : PageNum) : Within (Edits W K) (getPage p : MtrM κ _) :=
  nextOutcome_edits.bind fun
    | some _ => Within.throw _
    | none => Within.get.bind fun _ => Within.ite (fun _ => Within.pure _) fun _ => Within.throw _

theorem disposePage_edits (p : PageNum) : Within (Edits W K) (disposePage p : MtrM κ _) :=
  Within.modify fun _ => ⟨fun _ => id, rfl, fun _ _ => ⟨_, rfl⟩, fun _ _ => rfl⟩

theorem markDirty_edits (p : PageNum) : Within (Edits W K) (markDirty p : MtrM κ _) :=
  Within.modify fun _ => .of_pages rfl

theorem appendLogEntry_edits (entry : LogEntry κ) : Within (Edits W K) (appendLogEntry entry) :=
  Within.modify fun _ => by split <;> exact .of_pages rfl

theorem ignoreRC_edits {x : MtrM κ Unit} (h : Editing W K s x) : Editing W K s (ignoreRC x) := by
  rintro s rfl
  have h' := h s rfl
  unfold ignoreRC
  cases hx : x s with
  | ok a s' => rw [hx] at h'; exact h'
  | error e s' =>
    rw [hx] at h'
    cases e with
    | rc rc => exact h'
    | abort => exact h'
    | outOfFuel => exact h'

/-! ## Node handlers -/

namespace IndexNodeHandler

theorem setParentPageNum_edits (hp : K p) (parent : PageNum) :
    Within (Edits W K) (setParentPageNum p parent : MtrM κ _) := fun _ =>
  Editing.readNode <| Editing.appendLogEntry fun _ heq =>
    Editing.writeNode (fun _ => ⟨parent, by rw [heq]⟩) fun h => absurd hp h

theorem initEmpty_edits (hW : W p) (hK : K p) (leaf : Bool) :
    Within (Edits W K) (initEmpty p leaf : MtrM κ _) := fun _ =>
  Editing.readNode <| Editing.writeNode (absurd hW) (absurd hK)

theorem recoverInsertItems_edits (hp : W p) (kind : HandlerKind) (index : Nat)
    (items : List (Item κ)) : Within (Edits W K) (recoverInsertItems kind p index items) := fun _ =>
  Editing.readNode <| Editing.ite (fun _ => .of_within (.throw _)) fun _ => Editing.ite
    (fun _ => .of_within (.throw _)) fun _ => Editing.writeNode (absurd hp) fun _ => rfl

theorem recoverRemoveItems_edits (hp : W p) (kind : HandlerKind) (index num : Nat) :
    Within (Edits W K) (recoverRemoveItems kind p index num : MtrM κ _) := fun _ =>
  Editing.readNode <| Editing.ite (fun _ => .of_within (.throw _)) fun _ => Editing.ite
    (fun _ => Editing.ite (fun _ => .of_within (.throw _)) fun _ =>
      Editing.writeNode (absurd hp) fun _ => rfl)
    fun _ => Editing.writeNode (absurd hp) fun _ => rfl

theorem decreaseSize_edits (hp : W p) (n : Nat) :
    Within (Edits W K) (decreaseSize p n : MtrM κ _) := fun _ =>
  Editing.readNode <| Editing.writeNode (absurd hp) fun _ => rfl

theorem itemAt_reads {index : Int} : Triple (· = s) (itemAt p index)
    (fun item s' => (s.pages.node p).items[index.toNat]? = some item ∧ s' = s)
    fun _ s' => s' = s := by
  rintro s rfl
  refine Triple.bind (Q := fun node s' => node = s.pages.node p ∧ s' = s) ?_
    (fun node => Triple.of_and ?_) s rfl
  · rintro s rfl
    exact ⟨rfl, rfl⟩
  · rintro rfl
    refine Triple.ite (fun _ => Triple.throw fun _ => id) fun _ => ?_
    cases (s.pages.node p).items[index.toNat]? with
    | none => exact Triple.throw fun _ => id
    | some item => exact Triple.pure fun _ hs => ⟨rfl, hs⟩

theorem itemAt_editing {index : Int} {f : Item κ → MtrM κ α}
    (h : ∀ item ∈ (s.pages.node p).items, Editing W K s (f item)) :
    Editing W K s (itemAt p index >>= f) := by
  refine Triple.bind (itemAt_reads.conseq (fun _ => id) (fun _ _ => id) ?_)
    fun item => Triple.of_and fun hitem => h item (List.mem_of_getElem? hitem)
  rintro _ _ rfl
  exact refl _

theorem itemAt_edits (p : PageNum) (index : Int) :
    Within (Edits W K) (itemAt p index : MtrM κ _) := fun s => by
  have h : Editing W K s (itemAt p index >>= pure) :=
    itemAt_editing fun item _ => .of_within (Within.pure item)
  rwa [bind_pure] at h

theorem keyAt_edits (p : PageNum) (index : Int) : Within (Edits W K) (keyAt p index : MtrM κ _) :=
  (itemAt_edits p index).bind fun _ => Within.pure _

end IndexNodeHandler

namespace LeafIndexNodeHandler

theorem initEmpty_edits (hW : W p) (hK : K p) : Within (Edits W K) (initEmpty p : MtrM κ _) :=
  (appendLogEntry_edits _).bind fun _ =>
    (IndexNodeHandler.initEmpty_edits hW hK true).bind fun _ => fun _ =>
      Editing.readNode <| Editing.writeNode (absurd hW) fun _ => rfl

theorem setNextPage_edits (hp : W p) (nextPage : PageNum) :
    Within (Edits W K) (setNextPage p nextPage : MtrM κ _) := fun _ =>
  Editing.readNode <| Editing.appendLogEntry fun _ heq =>
    Editing.writeNode (absurd hp) fun _ => by rw [heq]

theorem insert_edits (hp : W p) (index : Nat) (item : Item κ) :
    Within (Edits W K) (insert p index item) :=
  (appendLogEntry_edits _).bind fun _ => recoverInsertItems_edits hp _ _ _

theorem remove_edits (hp : W p) (index : Int) :
    Within (Edits W K) (remove p index : MtrM κ _) :=
  (itemAt_edits p index).bind fun _ => (appendLogEntry_edits _).bind fun _ =>
    recoverRemoveItems_edits hp _ _ _

theorem removeKey_edits (hp : W p) (keyComparator : κ → κ → Int) (key : κ) :
    Within (Edits W K) (removeKey keyComparator p key) :=
  (readNode_edits p).bind fun _ => Within.ite
    (fun _ => (remove_edits hp _).bind fun _ => Within.pure _) fun _ => Within.pure _

theorem append_edits (hp : W p) (items : List (Item κ)) :
    Within (Edits W K) (append p items) :=
  (readNode_edits p).bind fun _ => (appendLogEntry_edits _).bind fun _ =>
    recoverInsertItems_edits hp _ _ _

theorem moveHalfTo_edits (hp : W p) (hother : W other) :
    Within (Edits W K) (moveHalfTo p other : MtrM κ _) :=
  (readNode_edits p).bind fun _ => (append_edits hother _).bind fun _ =>
    (appendLogEntry_edits _).bind fun _ => recoverRemoveItems_edits hp _ _ _

theorem moveFirstToEnd_edits (hp : W p) (hother : W other) :
    Within (Edits W K) (moveFirstToEnd p other : MtrM κ _) :=
  (itemAt_edits p 0).bind fun _ => (append_edits hother _).bind fun _ => remove_edits hp 0

theorem moveLastToFront_edits (hp : W p) (hother : W other) :
    Within (Edits W K) (moveLastToFront p other : MtrM κ _) :=
  (readNode_edits p).bind fun _ => (itemAt_edits p _).bind fun _ =>
    (insert_edits hother 0 _).bind fun _ => (readNode_edits p).bind fun _ => remove_edits hp _

theorem moveTo_edits (hp : W p) (hother : W other) :
    Within (Edits W K) (moveTo p other : MtrM κ _) :=
  (readNode_edits p).bind fun _ => (append_edits hother _).bind fun _ =>
    (setNextPage_edits hother _).bind fun _ => (appendLogEntry_edits _).bind fun _ =>
      decreaseSize_edits hp _

end LeafIndexNodeHandler

namespace InternalIndexNodeHandler

theorem initEmpty_edits (hW : W p) (hK : K p) : Within (Edits W K) (initEmpty p : MtrM κ _) :=
  (appendLogEntry_edits _).bind fun _ => IndexNodeHandler.initEmpty_edits hW hK false

theorem createNewRoot_edits [Inhabited κ] (hp : W p) (firstPage : PageNum) (key : κ)
    (secondPage : PageNum) : Within (Edits W K) (createNewRoot p firstPage key secondPage) :=
  (appendLogEntry_edits _).bind fun _ => fun _ => Editing.readNode <| Editing.ite
    (fun _ => .of_within (.throw _)) fun _ => Editing.writeNode (absurd hp) fun _ => rfl

theorem insert_edits (hp : W p) (keyComparator : κ → κ → Int) (key : κ) (child : PageNum) :
    Within (Edits W K) (insert keyComparator p key child) :=
  (readNode_edits p).bind fun _ => (appendLogEntry_edits _).bind fun _ =>
    recoverInsertItems_edits hp _ _ _

/-- The children of the items get a new parent. -/
theorem insertItems_edits (hp : W p) (index : Nat) {items : List (Item κ)}
    (hitems : ∀ item ∈ items, K item.child) : Within (Edits W K) (insertItems p index items) :=
  (appendLogEntry_edits _).bind fun _ => (recoverInsertItems_edits hp _ _ _).bind fun _ =>
    Within.forM items fun item hitem => (getPage_edits item.child).bind fun _ =>
      (setParentPageNum_edits (hitems item hitem) p).bind fun _ => markDirty_edits item.child

theorem append_edits (hp : W p) {items : List (Item κ)} (hitems : ∀ item ∈ items, K item.child) :
    Within (Edits W K) (append p items) :=
  (readNode_edits p).bind fun _ => insertItems_edits hp _ hitems

theorem setKeyAt_edits (hp : W p) (index : Nat) (key : κ) :
    Within (Edits W K) (setKeyAt p index key) :=
  (itemAt_edits p index).bind fun _ => (appendLogEntry_edits _).bind fun _ => fun _ =>
    Editing.readNode <| Editing.writeNode (absurd hp) fun _ => rfl

theorem valueAt_edits (p : PageNum) (index : Nat) :
    Within (Edits W K) (valueAt p index : MtrM κ _) :=
  (itemAt_edits p index).bind fun _ => Within.pure _

theorem remove_edits (hp : W p) (index : Nat) :
    Within (Edits W K) (remove p index : MtrM κ _) :=
  (itemAt_edits p index).bind fun _ => (appendLogEntry_edits _).bind fun _ =>
    recoverRemoveItems_edits hp _ _ _

/-! The functions that move items need to know the children of the items. -/

variable (hp : W p) (hother : W other) (hitems : ∀ item ∈ (s.pages.node p).items, K item.child)

include hp hother hitems

theorem moveHalfTo_editing : Editing W K s (moveHalfTo p other : MtrM κ _) :=
  Editing.readNode <| .of_within <|
    (append_edits hother fun item hitem => hitems item (List.mem_of_mem_drop hitem)).bind fun _ =>
      (appendLogEntry_edits _).bind fun _ => decreaseSize_edits hp _

theorem moveTo_editing : Editing W K s (moveTo p other : MtrM κ _) :=
  Editing.readNode <| .of_within <| (append_edits hother hitems).bind fun _ =>
    (appendLogEntry_edits _).bind fun _ => recoverRemoveItems_edits hp _ _ _

theorem moveFirstToEnd_editing : Editing W K s (moveFirstToEnd p other : MtrM κ _) :=
  itemAt_editing fun item hitem => .of_within <|
    (append_edits hother (List.forall_mem_singleton.mpr (hitems item hitem))).bind fun _ =>
      remove_edits hp 0

theorem moveLastToFront_editing : Editing W K s (moveLastToFront p other : MtrM κ _) :=
  Editing.readNode <| itemAt_editing fun item hitem => .of_within <|
    (insertItems_edits hother 0 (List.forall_mem_singleton.mpr (hitems item hitem))).bind fun _ =>
      (appendLogEntry_edits _).bind fun _ => decreaseSize_edits hp _

end InternalIndexNodeHandler

namespace NodeKind

theorem initEmpty_edits (hW : W p) (hK : K p) (kind : NodeKind) :
    Within (Edits W K) (kind.initEmpty p : MtrM κ _) := by
  cases kind with
  | leaf => exact LeafIndexNodeHandler.initEmpty_edits hW hK
  | internal => exact InternalIndexNodeHandler.initEmpty_edits hW hK

variable {kind : NodeKind} (hp : W p) (hother : W other)
  (hitems : kind = .internal → ∀ item ∈ (s.pages.node p).items, K item.child)

include hp hother hitems

theorem moveHalfTo_editing : Editing W K s (kind.moveHalfTo p other : MtrM κ _) := by
  cases kind with
  | leaf => exact .of_within (LeafIndexNodeHandler.moveHalfTo_edits hp hother)
  | internal => exact InternalIndexNodeHandler.moveHalfTo_editing hp hother (hitems rfl)

theorem moveTo_editing : Editing W K s (kind.moveTo p other : MtrM κ _) := by
  cases kind with
  | leaf => exact .of_within (LeafIndexNodeHandler.moveTo_edits hp hother)
  | internal => exact InternalIndexNodeHandler.moveTo_editing hp hother (hitems rfl)

theorem moveFirstToEnd_editing : Editing W K s (kind.moveFirstToEnd p other : MtrM κ _) := by
  cases kind with
  | leaf => exact .of_within (LeafIndexNodeHandler.moveFirstToEnd_edits hp hother)
  | internal => exact InternalIndexNodeHandler.moveFirstToEnd_editing hp hother (hitems rfl)

theorem moveLastToFront_editing : Editing W K s (kind.moveLastToFront p other : MtrM κ _) := by
  cases kind with
  | leaf => exact .of_within (LeafIndexNodeHandler.moveLastToFront_edits hp hother)
  | internal => exact InternalIndexNodeHandler.moveLastToFront_editing hp hother (hitems rfl)

end NodeKind

/-! ## The tree -/

namespace BplusTreeHandler

theorem edits_of_fileHeader (fileHeader : BPFileHeader)
    (hkeeps : ∀ n, s.pages.fileHeader.Allocated n → fileHeader.Allocated n)
    (hpages : s'.pages = { s.pages with fileHeader }) : Edits W K s s' where
  allocated p hp := by rw [hpages]; exact ⟨hp.1, hkeeps _ hp.2⟩
  rootPage := by rw [hpages]
  node p _ := ⟨_, by rw [hpages]⟩
  parent p _ := by rw [hpages]

theorem allocatePage_editing : Triple (· = s) (allocatePage : MtrM κ _)
    (fun p s' => Edits W K s s' ∧ ¬ s.pages.Allocated p) fun _ => Edits W K s := by
  refine Triple.bind (Q := fun _ s' => s'.pages = s.pages) nextOutcome_same fun outcome => ?_
  have hkeeps (n : Nat) (hn : s.pages.fileHeader.Allocated n) :
      s.pages.fileHeader.allocate.2.Allocated n :=
    BPFileHeader.allocated_allocate.mpr (Or.inl hn)
  cases outcome with
  | some rc =>
    refine Triple.bind (Q := fun _ => Edits W K s) (Triple.modify fun s' hs' => ?_)
      fun _ => Triple.throw fun _ => id
    cases hfree : s'.pages.fileHeader.freePage with
    | none => exact .of_pages hs'
    | some i =>
      refine edits_of_fileHeader (s.pages.fileHeader.reuse i) (fun n hn => ?_) (by rw [hs'])
      rw [hs'] at hfree
      have := hkeeps n hn
      rwa [BPFileHeader.allocate, hfree] at this
  | none =>
    rintro s' hpages
    refine ⟨edits_of_fileHeader _ hkeeps (by rw [← hpages]; rfl), fun h => ?_⟩
    have hnot := BPFileHeader.not_allocated_allocate s.pages.fileHeader
    rw [hpages] at h
    exact hnot h.2

variable {tree : BplusTreeHandler κ}

theorem insertIntoHalf_edits {parentPage newParentPage newPage : PageNum} (hparent : W parentPage)
    (hnewParent : W newParentPage) (hnew : K newPage) (key : κ) :
    Within (Edits W K) (insertIntoHalf tree parentPage newParentPage newPage key) :=
  (keyAt_edits newParentPage 0).bind fun _ => Within.ite
    (fun _ => (InternalIndexNodeHandler.insert_edits hnewParent _ key newPage).bind fun _ =>
      setParentPageNum_edits hnew _)
    fun _ => (InternalIndexNodeHandler.insert_edits hparent _ key newPage).bind fun _ =>
      setParentPageNum_edits hnew _

theorem insertIntoLeafHalf_edits {newPage : PageNum} (hp : W p) (hnew : W newPage)
    (leafSize insertPosition : Nat) (item : Item κ) :
    Within (Edits W K) (insertIntoLeafHalf p newPage leafSize insertPosition item) :=
  Within.ite (fun _ => LeafIndexNodeHandler.insert_edits hp _ item) fun _ =>
    LeafIndexNodeHandler.insert_edits hnew _ item

theorem redistribute_editing {kind : NodeKind} {neighborPage parentPage : PageNum}
    (hneighbor : W neighborPage) (hp : W p) (hparent : W parentPage)
    (hitems : kind = .internal → ∀ item ∈ (s.pages.node neighborPage).items, K item.child)
    (index : Nat) : Editing W K s (redistribute kind neighborPage p parentPage index) := by
  refine Editing.bind (Editing.ite (fun _ => ?_) fun _ => ?_) fun _ _ _ => .of_within <|
    (markDirty_edits _).bind fun _ => (markDirty_edits _).bind fun _ => markDirty_edits _
  · refine (ignoreRC_edits (NodeKind.moveFirstToEnd_editing hneighbor hp hitems)).bind
      fun _ _ _ => .of_within <| (keyAt_edits _ _).bind fun key => ?_
    exact InternalIndexNodeHandler.setKeyAt_edits hparent _ key
  · refine (ignoreRC_edits (NodeKind.moveLastToFront_editing hneighbor hp hitems)).bind
      fun _ _ _ => .of_within <| (keyAt_edits _ _).bind fun key => ?_
    exact InternalIndexNodeHandler.setKeyAt_edits hparent _ key

/-- The node has lost one item. -/
def Dropped (node node' : IndexNode κ) : Prop :=
  ∃ items, node' = { node with items } ∧ items.Sublist node.items ∧
    items.length + 1 = node.items.length

theorem recoverRemoveItems_drops {kind : HandlerKind} {index : Nat}
    (hindex : index < (s.pages.node p).size) :
    Triple (fun t => t.pages = s.pages) (recoverRemoveItems kind p index 1)
      (fun _ t => Dropped (s.pages.node p) (t.pages.node p)) fun _ _ => True := by
  have hwrite (items : List (Item κ)) (hsub : items.Sublist (s.pages.node p).items)
      (hlen : items.length + 1 = (s.pages.node p).items.length) :
      Triple (fun t => t.pages = s.pages) (writeNode p { s.pages.node p with items })
        (fun _ t => Dropped (s.pages.node p) (t.pages.node p)) fun _ _ => True :=
    Triple.modify fun t _ => ⟨items, if_pos rfl, hsub, hlen⟩
  unfold IndexNode.size at hindex
  refine readNode_of (fun _ => id) <| Triple.ite (fun _ => Triple.throw fun _ _ => trivial)
    fun _ => Triple.ite (fun _ => Triple.ite (fun _ => Triple.throw fun _ _ => trivial) fun _ => ?_)
      fun _ => ?_
  · refine hwrite _ ?_ (by simp; omega)
    rw [← List.eraseIdx_eq_take_drop_succ]
    exact List.eraseIdx_sublist _ _
  · exact hwrite _ (List.take_sublist _ _) (by simp [IndexNode.size]; omega)

theorem internal_remove_drops (p : PageNum) (index : Nat) :
    Triple (· = s) (InternalIndexNodeHandler.remove p index)
      (fun _ t => Dropped (s.pages.node p) (t.pages.node p)) fun _ _ => True := by
  refine Triple.bind (itemAt_reads.conseq (fun _ => id) (fun _ _ => id) fun _ _ _ => trivial)
    fun item => Triple.of_and fun hitem => ?_
  refine Triple.bind (Q := fun _ t => t.pages = s.pages) (Triple.modify fun t ht => ?_) fun _ =>
    recoverRemoveItems_drops (List.getElem?_eq_some_iff.mp hitem).1
  split <;> rw [ht]

theorem leaf_removeKey_drops (keyComparator : κ → κ → Int) (p : PageNum) (key : κ) :
    Triple (· = s) (LeafIndexNodeHandler.removeKey keyComparator p key)
      (fun n t => n ≠ 0 → Dropped (s.pages.node p) (t.pages.node p)) fun _ _ => True := by
  refine readNode_of (v := s.pages) (fun _ h => h ▸ rfl) <| Triple.ite (fun _ => ?_) fun _ =>
    Triple.pure fun _ _ h => absurd rfl h
  refine Triple.bind (Q := fun _ t => Dropped (s.pages.node p) (t.pages.node p)) ?_ fun _ =>
    Triple.pure fun _ h _ => h
  refine Triple.bind (itemAt_reads.conseq (fun _ => id) (fun _ _ => id) fun _ _ _ => trivial)
    fun item => Triple.of_and fun hitem => ?_
  refine Triple.bind (Q := fun _ t => t.pages = s.pages) (Triple.modify fun t ht => ?_) fun _ =>
    recoverRemoveItems_drops (List.getElem?_eq_some_iff.mp hitem).1
  split <;> rw [ht]

/-- A merge takes one item from the parent. -/
theorem mergeRight_editing {kind : NodeKind} {leftPage rightPage parentPage : PageNum}
    (hleft : W leftPage) (hright : W rightPage) (hparent : W parentPage)
    (hneLeft : parentPage ≠ leftPage) (hneRight : parentPage ≠ rightPage) (hK : ¬ K parentPage)
    (hitems : kind = .internal → ∀ item ∈ (s.pages.node rightPage).items, K item.child)
    (index : Nat) :
    Triple (· = s) (mergeRight kind leftPage rightPage parentPage index)
      (fun _ s' => Edits W K s s' ∧
        Dropped (s.pages.node parentPage) (s'.pages.node parentPage)) fun _ => Edits W K s := by
  have hremove : Within (Edits (· = parentPage) fun _ => False)
      (InternalIndexNodeHandler.remove parentPage index : MtrM κ _) :=
    InternalIndexNodeHandler.remove_edits (by simp) index
  refine Triple.bind (((hremove s).and (internal_remove_drops parentPage index)).conseq
    (fun _ h => h) (fun _ _ => id) fun _ _ h => h.1.mono (fun _ heq => heq ▸ hparent)
      fun _ => False.elim) fun _ t ht => ?_
  obtain ⟨hedits, hdrop⟩ := ht
  have hrest : Editing (fun x => x = leftPage ∨ x = rightPage) K t (do
      kind.moveTo rightPage leftPage
      linkOverRight leftPage rightPage
      disposePage rightPage) := by
    refine (NodeKind.moveTo_editing (Or.inr rfl) (Or.inl rfl) fun hkind item hitem => ?_).bind
      fun _ _ _ => .of_within ?_
    · rw [hedits.same hneRight.symm id] at hitem
      exact hitems hkind item hitem
    · refine Within.bind ?_ fun _ => disposePage_edits rightPage
      exact (readNode_edits leftPage).bind fun _ => Within.ite
        (fun _ => (readNode_edits rightPage).bind fun _ =>
          LeafIndexNodeHandler.setNextPage_edits (by simp) _) fun _ => Within.pure _
  have hfirst : Edits W K s t := hedits.mono (fun _ heq => heq ▸ hparent) fun _ => False.elim
  have hall (t' : Mtr κ) (h : Edits (fun x => x = leftPage ∨ x = rightPage) K t t') :
      Edits W K s t' := by
    refine hfirst.trans (h.mono ?_ fun _ => id)
    rintro x (rfl | rfl)
    · exact hleft
    · exact hright
  refine hrest.conseq (fun _ => id) (fun _ t' h => ⟨hall t' h, ?_⟩) (fun _ t' h => hall t' h) t rfl
  rwa [h.same (fun h => h.elim hneLeft hneRight) hK]

theorem coalesce_editing {kind : NodeKind} {neighborPage parentPage : PageNum}
    (hneighbor : W neighborPage) (hp : W p) (hparent : W parentPage)
    (hneNeighbor : parentPage ≠ neighborPage) (hne : parentPage ≠ p) (hK : ¬ K parentPage)
    (hitems : kind = .internal → ∀ x, x = neighborPage ∨ x = p →
      ∀ item ∈ (s.pages.node x).items, K item.child) (index : Nat) :
    Triple (· = s) (coalesce kind neighborPage p parentPage index)
      (fun _ s' => Edits W K s s' ∧
        Dropped (s.pages.node parentPage) (s'.pages.node parentPage)) fun _ => Edits W K s :=
  Triple.ite
    (fun _ => mergeRight_editing hp hneighbor hparent hne hneNeighbor hK
      (fun hint => hitems hint _ (Or.inl rfl)) _)
    fun _ => mergeRight_editing hneighbor hp hparent hneNeighbor hne hK
      (fun hint => hitems hint _ (Or.inr rfl)) _

end BplusTreeHandler

end ObHtap
