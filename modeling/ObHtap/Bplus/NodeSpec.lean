import ObHtap.Bplus.NodeHandler
import ObHtap.Library.Triple

/-!
# What the node handlers do to the pages

When no page request fails, each operation of the handlers ends well and changes the pages in
one way.  Its log entries, the dirty marks and the LSNs do not matter here.
-/

namespace ObHtap

open IndexNodeHandler

variable {κ : Type}

/-- The mini-transaction sees the pages `v`, and no page request is going to fail. -/
def At (v : Pages κ) (s : Mtr κ) : Prop := s.pages = v ∧ s.outcomes = []

namespace Pages

/-- The page is part of the file. -/
def InFile (v : Pages κ) (p : PageNum) : Prop :=
  0 ≤ p ∧ p.toNat < v.fileHeader.pageCount

theorem Allocated.inFile {v : Pages κ} {p : PageNum} (h : v.Allocated p) : v.InFile p :=
  ⟨h.1, h.2.1⟩

/-- The pages of a list get a new parent. -/
def setParents (v : Pages κ) (children : List PageNum) (parent : PageNum) : Pages κ :=
  { v with node := fun p => if p ∈ children then { v.node p with parent } else v.node p }

variable {v : Pages κ} {p x : PageNum} {node : IndexNode κ}

@[simp] theorem setNode_self : (v.setNode p node).node p = node := if_pos rfl

theorem setNode_of_ne (h : x ≠ p) : (v.setNode p node).node x = v.node x := if_neg h

@[simp] theorem setNode_fileHeader : (v.setNode p node).fileHeader = v.fileHeader := rfl

@[simp] theorem setNode_rootPage : (v.setNode p node).rootPage = v.rootPage := rfl

@[simp] theorem setNode_setNode {node' : IndexNode κ} :
    (v.setNode p node).setNode p node' = v.setNode p node' := by
  simp only [setNode, Pages.mk.injEq, true_and, and_true]
  funext y
  split_ifs <;> rfl

theorem setNode_pair {q : PageNum} {a a' b b' : IndexNode κ} :
    (((v.setNode q a).setNode p b).setNode q a').setNode p b' = (v.setNode q a').setNode p b' := by
  simp only [setNode, Pages.mk.injEq, true_and, and_true]
  funext y
  split_ifs <;> rfl

theorem setNode_eq_self (h : v.node p = node) : v.setNode p node = v := by
  simp only [setNode]
  congr 1
  funext y
  split_ifs with hy
  · rw [hy, h]
  · rfl

theorem setParents_node {l : List PageNum} : (v.setParents l p).node x =
    { v.node x with parent := if x ∈ l then p else (v.node x).parent } := by
  simp only [setParents]
  split_ifs <;> rfl

theorem setParents_nil : v.setParents [] p = v := by
  simp [setParents]

theorem setParents_append {l : List PageNum} {y : PageNum} :
    (v.setParents l p).setNode y { (v.setParents l p).node y with parent := p } =
      v.setParents (l ++ [y]) p := by
  simp only [setNode, setParents, Pages.mk.injEq, true_and, and_true]
  funext z
  by_cases hz : z = y
  · subst hz
    by_cases hl : z ∈ l <;> simp [hl]
  · by_cases hl : z ∈ l <;> simp [hz, hl]

end Pages

section Specs

variable {v : Pages κ} {E : Fault → Mtr κ → Prop} {α : Type} {Q : α → Mtr κ → Prop}
  {p : PageNum}

/-! ## Primitives -/

theorem readNode_of {P : Mtr κ → Prop} {f : IndexNode κ → MtrM κ α}
    (hP : ∀ s, P s → s.pages = v) (h : Triple P (f (v.node p)) Q E) :
    Triple P (readNode p >>= f) Q E := by
  intro s hs
  have := h s hs
  rw [← hP s hs] at this
  exact this

theorem readNode_bind {f : IndexNode κ → MtrM κ α} (h : Triple (At v) (f (v.node p)) Q E) :
    Triple (At v) (readNode p >>= f) Q E :=
  readNode_of (fun _ hs => hs.1) h

theorem readRootPage_of {P : Mtr κ → Prop} {f : PageNum → MtrM κ α}
    (hP : ∀ s, P s → s.pages = v) (h : Triple P (f v.rootPage) Q E) :
    Triple P (readRootPage >>= f) Q E := by
  intro s hs
  have := h s hs
  rw [← hP s hs] at this
  exact this

theorem readRootPage_bind {f : PageNum → MtrM κ α} (h : Triple (At v) (f v.rootPage) Q E) :
    Triple (At v) (readRootPage >>= f) Q E :=
  readRootPage_of (fun _ hs => hs.1) h

theorem get_of {P : Mtr κ → Prop} {f : Mtr κ → MtrM κ α}
    (h : ∀ s, P s → Triple P (f s) Q E) : Triple P (get >>= f) Q E :=
  fun s hs => h s hs s hs

theorem nextOutcome_of {P : Mtr κ → Prop} {f : Option RC → MtrM κ α}
    (hP : ∀ s, P s → s.outcomes = []) (h : Triple P (f none) Q E) :
    Triple P (nextOutcome >>= f) Q E := by
  refine Triple.bind (Q := fun o s => o = none ∧ P s) ?_ ?_
  · intro s hs
    unfold nextOutcome
    rw [hP s hs]
    exact ⟨rfl, hs⟩
  · rintro o
    exact Triple.of_and fun ho => ho ▸ h

theorem nextOutcome_bind {f : Option RC → MtrM κ α} (h : Triple (At v) (f none) Q E) :
    Triple (At v) (nextOutcome >>= f) Q E :=
  nextOutcome_of (fun _ hs => hs.2) h

theorem getPage_of {P : Mtr κ → Prop} (hP : ∀ s, P s → At v s) (hp : v.InFile p) :
    Triple P (getPage p) (fun _ => P) E := by
  refine nextOutcome_of (fun s hs => (hP s hs).2) (get_of fun s hs => ?_)
  rw [(hP s hs).1, if_pos (show 0 ≤ p ∧ p.toNat < v.fileHeader.pageCount from hp)]
  exact Triple.pure fun _ => id

theorem getPage_at (hp : v.InFile p) : Triple (At v) (getPage p) (fun _ => At v) E :=
  getPage_of (fun _ => id) hp

theorem appendLogEntry_at {entry : LogEntry κ} :
    Triple (At v) (appendLogEntry entry) (fun _ => At v) E := by
  refine Triple.modify ?_
  rintro s hs
  split_ifs <;> exact hs

theorem writeNode_at {node : IndexNode κ} :
    Triple (At v) (writeNode p node) (fun _ => At (v.setNode p node)) E := by
  refine Triple.modify ?_
  rintro s ⟨rfl, ho⟩
  exact ⟨rfl, ho⟩

theorem writeNode_again {node node' : IndexNode κ} :
    Triple (At (v.setNode p node)) (writeNode p node') (fun _ => At (v.setNode p node')) E := by
  have h : Triple (At (v.setNode p node)) (writeNode p node')
      (fun _ => At ((v.setNode p node).setNode p node')) E := writeNode_at
  rwa [Pages.setNode_setNode] at h

theorem markDirty_at : Triple (At v) (markDirty p) (fun _ => At v) E :=
  Triple.modify fun _ hs => hs

theorem writeRootPage_at {rootPage : PageNum} :
    Triple (At v) (writeRootPage rootPage) (fun _ => At { v with rootPage }) E := by
  refine Triple.modify ?_
  rintro s ⟨rfl, ho⟩
  exact ⟨rfl, ho⟩

theorem disposePage_at :
    Triple (At v) (disposePage p)
      (fun _ => At { v with disposedPages := v.disposedPages ++ [p] }) E := by
  refine Triple.modify ?_
  rintro s ⟨rfl, ho⟩
  exact ⟨rfl, ho⟩

theorem allocatePage_at :
    Triple (At v) (allocatePage (κ := κ))
      (fun q s => q = (v.fileHeader.allocate.1 : Int) ∧
        At { v with fileHeader := v.fileHeader.allocate.2 } s) E := by
  refine nextOutcome_bind ?_
  rintro s ⟨rfl, ho⟩
  exact ⟨rfl, rfl, ho⟩

theorem ignoreRC_at {x : MtrM κ Unit} {Q : Unit → Mtr κ → Prop}
    (h : Triple (At v) x Q fun e s => E e s ∧ ∀ rc, e ≠ .rc rc) :
    Triple (At v) (ignoreRC x) Q E := by
  intro s hs
  have hx := h s hs
  unfold ignoreRC
  cases hrun : x s with
  | ok a s' =>
    rw [hrun] at hx
    exact hx
  | error e s' =>
    rw [hrun] at hx
    cases e with
    | rc rc => exact absurd rfl (hx.2 rc)
    | abort => exact hx.1
    | outOfFuel => exact hx.1

/-! ## `IndexNodeHandler` -/

theorem setParentPageNum_at {parent : PageNum} :
    Triple (At v) (setParentPageNum p parent)
      (fun _ => At (v.setNode p { v.node p with parent })) E :=
  readNode_bind <| appendLogEntry_at.bind fun _ => writeNode_at

theorem recoverInsertItems_at (kind : HandlerKind) {index : Nat} (items : List (Item κ))
    (hkind : kind ≠ .base) (hindex : index ≤ (v.node p).size) :
    Triple (At v) (recoverInsertItems kind p index items)
      (fun _ => At (v.setNode p { v.node p with
        items := (v.node p).items.take index ++ items ++ (v.node p).items.drop index })) E := by
  refine readNode_bind ?_
  rw [if_neg (by simp [hkind]), if_neg (by omega)]
  exact writeNode_at

theorem recoverRemoveItems_at {kind : HandlerKind} {index num : Nat} (hkind : kind ≠ .base)
    (hindex : index + num ≤ (v.node p).size) :
    Triple (At v) (recoverRemoveItems kind p index num)
      (fun _ => At (v.setNode p { v.node p with
        items := (v.node p).items.take index ++ (v.node p).items.drop (index + num) })) E := by
  refine readNode_bind ?_
  rw [if_neg (by omega)]
  by_cases hlt : index < (v.node p).size - num
  · rw [if_pos hlt, if_neg hkind]
    exact writeNode_at
  · have hdrop : (v.node p).items.drop (index + num) = [] :=
      List.drop_eq_nil_of_le (by unfold IndexNode.size at *; omega)
    rw [if_neg hlt, hdrop, List.append_nil, show (v.node p).size - num = index by omega]
    exact writeNode_at

theorem decreaseSize_at {n : Nat} :
    Triple (At v) (decreaseSize p n)
      (fun _ => At (v.setNode p { v.node p with
        items := (v.node p).items.take ((v.node p).size - n) })) E :=
  readNode_bind writeNode_at

theorem itemAt_of {P : Mtr κ → Prop} {f : Item κ → MtrM κ α} {index : Nat} {item : Item κ}
    (hP : ∀ s, P s → s.pages = v) (hitem : (v.node p).items[index]? = some item)
    (h : Triple P (f item) Q E) : Triple P (itemAt p index >>= f) Q E := by
  have hx : Triple P (itemAt p index) (fun it s => it = item ∧ P s) E := by
    refine readNode_of hP ?_
    rw [if_neg (by omega), Int.toNat_natCast, hitem]
    exact Triple.pure fun s hs => ⟨rfl, hs⟩
  exact hx.bind fun it => Triple.of_and fun hit => hit ▸ h

theorem itemAt_bind {f : Item κ → MtrM κ α} {index : Nat} {item : Item κ}
    (hitem : (v.node p).items[index]? = some item) (h : Triple (At v) (f item) Q E) :
    Triple (At v) (itemAt p index >>= f) Q E :=
  itemAt_of (fun _ hs => hs.1) hitem h

theorem keyAt_of {P : Mtr κ → Prop} {f : κ → MtrM κ α} {index : Nat} {item : Item κ}
    (hP : ∀ s, P s → s.pages = v) (hitem : (v.node p).items[index]? = some item)
    (h : Triple P (f item.key) Q E) : Triple P (keyAt p index >>= f) Q E := by
  have hx : Triple P (keyAt p index) (fun k s => k = item.key ∧ P s) E :=
    itemAt_of hP hitem <| Triple.pure fun s hs => ⟨rfl, hs⟩
  exact hx.bind fun k => Triple.of_and fun hk => hk ▸ h

theorem keyAt_bind {f : κ → MtrM κ α} (index : Nat) (item : Item κ)
    (hitem : (v.node p).items[index]? = some item) (h : Triple (At v) (f item.key) Q E) :
    Triple (At v) (keyAt p index >>= f) Q E :=
  keyAt_of (fun _ hs => hs.1) hitem h

theorem valueAt_of {P : Mtr κ → Prop} {f : PageNum → MtrM κ α} {index : Nat} {item : Item κ}
    (hP : ∀ s, P s → s.pages = v) (hitem : (v.node p).items[index]? = some item)
    (h : Triple P (f item.child) Q E) :
    Triple P (InternalIndexNodeHandler.valueAt p index >>= f) Q E := by
  have hx : Triple P (InternalIndexNodeHandler.valueAt p index)
      (fun c s => c = item.child ∧ P s) E :=
    itemAt_of hP hitem <| Triple.pure fun s hs => ⟨rfl, hs⟩
  exact hx.bind fun c => Triple.of_and fun hc => hc ▸ h

theorem valueAt_bind {f : PageNum → MtrM κ α} (index : Nat) (item : Item κ)
    (hitem : (v.node p).items[index]? = some item) (h : Triple (At v) (f item.child) Q E) :
    Triple (At v) (InternalIndexNodeHandler.valueAt p index >>= f) Q E :=
  valueAt_of (fun _ hs => hs.1) hitem h

theorem itemAt_abort {index : Int} {Q : Item κ → Mtr κ → Prop} (hindex : index < 0 ∨ (v.node p).size ≤ index)
    (h : ∀ s, At v s → E .abort s) : Triple (At v) (itemAt p index) Q E := by
  refine readNode_bind ?_
  by_cases hneg : index < 0
  · rw [if_pos hneg]
    exact Triple.throw h
  · have hnone : (v.node p).items[index.toNat]? = none := by
      rw [List.getElem?_eq_none_iff]
      unfold IndexNode.size at hindex
      omega
    rw [if_neg hneg, hnone]
    exact Triple.throw h

/-! ## `LeafIndexNodeHandler` -/

namespace LeafIndexNodeHandler

theorem initEmpty_at : Triple (At v) (initEmpty p)
    (fun _ => At (v.setNode p ⟨true, bpInvalidPageNum, bpInvalidPageNum, []⟩)) E := by
  refine appendLogEntry_at.bind fun _ => ?_
  refine Triple.bind (readNode_bind writeNode_at) fun _ => readNode_bind ?_
  rw [Pages.setNode_self]
  exact writeNode_again

theorem setNextPage_at {nextPage : PageNum} :
    Triple (At v) (setNextPage p nextPage)
      (fun _ => At (v.setNode p { v.node p with nextBrother := nextPage })) E :=
  readNode_bind <| appendLogEntry_at.bind fun _ => writeNode_at

theorem insert_at {index : Nat} {item : Item κ} (hindex : index ≤ (v.node p).size) :
    Triple (At v) (insert p index item)
      (fun _ => At (v.setNode p { v.node p with
        items := (v.node p).items.take index ++ item :: (v.node p).items.drop index })) E := by
  refine appendLogEntry_at.bind fun _ => ?_
  simpa using recoverInsertItems_at .leaf [item] (by simp) hindex

theorem remove_at {index : Nat} (hindex : index < (v.node p).size) :
    Triple (At v) (remove p index)
      (fun _ => At (v.setNode p { v.node p with
        items := (v.node p).items.take index ++ (v.node p).items.drop (index + 1) })) E := by
  have hitem : (v.node p).items[index]? = some ((v.node p).items.get ⟨index, hindex⟩) :=
    List.getElem?_eq_getElem hindex
  refine itemAt_bind hitem <| appendLogEntry_at.bind fun _ => ?_
  exact recoverRemoveItems_at (by simp) hindex

theorem append_at {items : List (Item κ)} :
    Triple (At v) (append p items)
      (fun _ => At (v.setNode p { v.node p with items := (v.node p).items ++ items })) E := by
  refine readNode_bind <| appendLogEntry_at.bind fun _ => ?_
  simpa [IndexNode.size] using
    recoverInsertItems_at (v := v) (E := E) .leaf items (by simp) le_rfl

end LeafIndexNodeHandler

/-! ## `InternalIndexNodeHandler` -/

namespace InternalIndexNodeHandler

theorem initEmpty_at : Triple (At v) (initEmpty p)
    (fun _ => At (v.setNode p
      { v.node p with isLeaf := false, items := [], parent := bpInvalidPageNum })) E :=
  appendLogEntry_at.bind fun _ => readNode_bind writeNode_at

theorem createNewRoot_at [Inhabited κ] {firstPage secondPage : PageNum} {key : κ}
    (hempty : (v.node p).items = []) :
    Triple (At v) (createNewRoot p firstPage key secondPage)
      (fun _ => At (v.setNode p { v.node p with
        items := [⟨default, .page firstPage⟩, ⟨key, .page secondPage⟩] })) E := by
  refine appendLogEntry_at.bind fun _ => readNode_bind ?_
  rw [if_neg (by simp [IndexNode.size, hempty])]
  exact writeNode_at

theorem insert_at {cmp : κ → κ → Int} {key : κ} {child : PageNum}
    (hpos : (lookup cmp (v.node p) key).2 ≤ (v.node p).size) :
    Triple (At v) (insert cmp p key child)
      (fun _ => At (v.setNode p { v.node p with
        items := (v.node p).items.take (lookup cmp (v.node p) key).2 ++
          ⟨key, .page child⟩ :: (v.node p).items.drop (lookup cmp (v.node p) key).2 })) E := by
  refine readNode_bind <| appendLogEntry_at.bind fun _ => ?_
  simpa using recoverInsertItems_at .internal [⟨key, .page child⟩] (by simp) hpos

theorem setParents_at {items : List (Item κ)} (hin : ∀ item ∈ items, v.InFile item.child) :
    Triple (At v)
      (items.forM fun item => do
        getPage item.child
        setParentPageNum item.child p
        markDirty item.child)
      (fun _ => At (v.setParents (items.map Item.child) p)) E := by
  suffices hgen : ∀ (todo done : List (Item κ)), (∀ item ∈ todo, v.InFile item.child) →
      Triple (At (v.setParents (done.map Item.child) p))
        (todo.forM fun item => do
          getPage item.child
          setParentPageNum item.child p
          markDirty item.child)
        (fun _ => At (v.setParents ((done ++ todo).map Item.child) p)) E by
    simpa [Pages.setParents_nil] using hgen items [] hin
  intro todo
  induction todo with
  | nil =>
    intro done _
    exact Triple.pure fun s hs => by simpa using hs
  | cons item todo ih =>
    intro done hin
    have hstep : Triple (At (v.setParents (done.map Item.child) p))
        (do
          getPage item.child
          setParentPageNum item.child p
          markDirty item.child)
        (fun _ => At (v.setParents ((done ++ [item]).map Item.child) p)) E := by
      have hfile : (v.setParents (done.map Item.child) p).InFile item.child := hin item (by simp)
      refine (getPage_at hfile).bind fun _ => ?_
      refine setParentPageNum_at.bind fun _ => ?_
      rw [Pages.setParents_append]
      simpa using markDirty_at
    refine hstep.bind fun _ => ?_
    simpa using ih (done ++ [item]) fun i hi => hin i (List.mem_cons_of_mem _ hi)

theorem insertItems_at {index : Nat} {items : List (Item κ)} (hindex : index ≤ (v.node p).size)
    (hin : ∀ item ∈ items, v.InFile item.child) :
    Triple (At v) (insertItems p index items)
      (fun _ => At ((v.setNode p { v.node p with
          items := (v.node p).items.take index ++ items ++ (v.node p).items.drop index }).setParents
            (items.map Item.child) p)) E := by
  refine appendLogEntry_at.bind fun _ => ?_
  refine (recoverInsertItems_at .internal _ (by simp) hindex).bind fun _ => ?_
  exact setParents_at hin

theorem append_at {items : List (Item κ)} (hin : ∀ item ∈ items, v.InFile item.child) :
    Triple (At v) (append p items)
      (fun _ => At ((v.setNode p { v.node p with items := (v.node p).items ++ items }).setParents
        (items.map Item.child) p)) E := by
  refine readNode_bind ?_
  simpa [IndexNode.size] using insertItems_at (v := v) (E := E) le_rfl hin

theorem remove_at {index : Nat} (hindex : index < (v.node p).size) :
    Triple (At v) (remove p index)
      (fun _ => At (v.setNode p { v.node p with
        items := (v.node p).items.take index ++ (v.node p).items.drop (index + 1) })) E := by
  have hitem : (v.node p).items[index]? = some ((v.node p).items.get ⟨index, hindex⟩) :=
    List.getElem?_eq_getElem hindex
  refine itemAt_bind hitem <| appendLogEntry_at.bind fun _ => ?_
  exact recoverRemoveItems_at (by simp) hindex

theorem setKeyAt_at (index : Nat) {key : κ} (item : Item κ)
    (hitem : (v.node p).items[index]? = some item) :
    Triple (At v) (setKeyAt p index key)
      (fun _ => At (v.setNode p { v.node p with
        items := (v.node p).items.set index { item with key } })) E :=
  itemAt_bind hitem <| appendLogEntry_at.bind fun _ => readNode_bind writeNode_at

end InternalIndexNodeHandler

end Specs

end ObHtap
