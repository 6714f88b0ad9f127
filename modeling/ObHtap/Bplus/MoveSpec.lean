import ObHtap.Bplus.NodeSpec
import ObHtap.Bplus.Handler

/-!
# Moving items between two nodes

All the moves of the node handlers have one shape: the destination gets items, their children
get it as their parent when the nodes are internal, and then the source gives the items up.
-/

namespace ObHtap

open IndexNodeHandler

variable {κ : Type} {v v' : Pages κ} {E : Fault → Mtr κ → Prop} {src dst : PageNum}

/-- The pages whose parent changes when the items move. -/
def NodeKind.children : NodeKind → List (Item κ) → List PageNum
  | .leaf, _ => []
  | .internal, items => items.map Item.child

/-- Items have moved from `src` to `dst`, and the pages `children` belong to `dst` now. -/
structure Moved (v v' : Pages κ) (src dst : PageNum) (srcItems dstItems : List (Item κ))
    (children : List PageNum) : Prop where
  fileHeader : v'.fileHeader = v.fileHeader
  rootPage : v'.rootPage = v.rootPage
  disposed : v'.disposedPages = v.disposedPages
  source : v'.node src = { v.node src with items := srcItems }
  dest : v'.node dst = { v.node dst with items := dstItems }
  others : ∀ x, x ≠ src → x ≠ dst → v'.node x =
    { v.node x with parent := if x ∈ children then dst else (v.node x).parent }

theorem Moved.intro (hne : src ≠ dst) {srcItems dstItems : List (Item κ)}
    {children : List PageNum} (hd : dst ∉ children) :
    Moved v
      (((v.setNode dst { v.node dst with items := dstItems }).setParents children dst).setNode src
        { v.node src with items := srcItems })
      src dst srcItems dstItems children where
  fileHeader := rfl
  rootPage := rfl
  disposed := rfl
  source := Pages.setNode_self
  dest := by
    rw [Pages.setNode_of_ne (Ne.symm hne), Pages.setParents_node, Pages.setNode_self, if_neg hd]
  others := by
    intro x hx1 hx2
    rw [Pages.setNode_of_ne hx1, Pages.setParents_node, Pages.setNode_of_ne hx2]

/-- What the moves need to know about the children of the items that move. -/
def Movable (v : Pages κ) (kind : NodeKind) (src dst : PageNum) (items : List (Item κ)) : Prop :=
  kind = .internal → ∀ item ∈ items, v.InFile item.child ∧ item.child ≠ src ∧ item.child ≠ dst

theorem Movable.mono {kind : NodeKind} {items items' : List (Item κ)}
    (h : Movable v kind src dst items) (hsub : ∀ item ∈ items', item ∈ items) :
    Movable v kind src dst items' :=
  fun hk item hmem => h hk item (hsub item hmem)

theorem Movable.src_not_mem {kind : NodeKind} {items : List (Item κ)}
    (h : Movable v kind src dst items) : src ∉ kind.children items := by
  cases kind with
  | leaf => simp [NodeKind.children]
  | internal =>
    intro hmem
    obtain ⟨item, hm, heq⟩ := List.mem_map.mp hmem
    exact (h rfl item hm).2.1 heq

theorem Movable.dst_not_mem {kind : NodeKind} {items : List (Item κ)}
    (h : Movable v kind src dst items) : dst ∉ kind.children items := by
  cases kind with
  | leaf => simp [NodeKind.children]
  | internal =>
    intro hmem
    obtain ⟨item, hm, heq⟩ := List.mem_map.mp hmem
    exact (h rfl item hm).2.2 heq

theorem Pages.node_src {children : List PageNum} (node : IndexNode κ) (hne : src ≠ dst)
    (hs : src ∉ children) : ((v.setNode dst node).setParents children dst).node src = v.node src := by
  rw [Pages.setParents_node, Pages.setNode_of_ne hne, if_neg hs]

namespace NodeKind

/-- `append` of either handler. -/
def append : NodeKind → PageNum → List (Item κ) → MtrM κ Unit
  | leaf => LeafIndexNodeHandler.append
  | internal => InternalIndexNodeHandler.append

theorem append_at {kind : NodeKind} {items : List (Item κ)} (h : Movable v kind src dst items) :
    Triple (At v) (kind.append dst items)
      (fun _ => At ((v.setNode dst { v.node dst with
        items := (v.node dst).items ++ items }).setParents (kind.children items) dst)) E := by
  cases kind with
  | leaf =>
    rw [children, Pages.setParents_nil]
    exact LeafIndexNodeHandler.append_at
  | internal => exact InternalIndexNodeHandler.append_at fun item hm => (h rfl item hm).1

/-- `preappend` of either handler. -/
def preappend : NodeKind → PageNum → Item κ → MtrM κ Unit
  | leaf => LeafIndexNodeHandler.preappend
  | internal => InternalIndexNodeHandler.preappend

theorem preappend_at {kind : NodeKind} {item : Item κ} (h : Movable v kind src dst [item]) :
    Triple (At v) (kind.preappend dst item)
      (fun _ => At ((v.setNode dst { v.node dst with
        items := item :: (v.node dst).items }).setParents (kind.children [item]) dst)) E := by
  cases kind with
  | leaf =>
    rw [children, Pages.setParents_nil]
    exact LeafIndexNodeHandler.insert_at (Nat.zero_le _)
  | internal =>
    exact InternalIndexNodeHandler.insertItems_at (Nat.zero_le _) fun item hm => (h rfl item hm).1

/-- Ends a move: the source is left with its own part of the items. -/
theorem moved_of_at {srcItems dstItems : List (Item κ)} {children : List PageNum} {s : Mtr κ}
    (hne : src ≠ dst) (hd : dst ∉ children)
    (h : At (((v.setNode dst { v.node dst with items := dstItems }).setParents children dst).setNode
      src { v.node src with items := srcItems }) s) :
    ∃ v', At v' s ∧ Moved v v' src dst srcItems dstItems children :=
  ⟨_, h, Moved.intro hne hd⟩

theorem moveHalfTo_at {kind : NodeKind} (hne : src ≠ dst)
    (h : Movable v kind src dst (v.node src).items) :
    Triple (At v) (kind.moveHalfTo src dst)
      (fun _ s => ∃ v', At v' s ∧ Moved v v' src dst
        ((v.node src).items.take ((v.node src).size / 2))
        ((v.node dst).items ++ (v.node src).items.drop ((v.node src).size / 2))
        (kind.children ((v.node src).items.drop ((v.node src).size / 2)))) E := by
  have h' := h.mono fun item => List.mem_of_mem_drop (i := (v.node src).size / 2)
  have hsrc := Pages.node_src (v := v) { v.node dst with
    items := (v.node dst).items ++ (v.node src).items.drop ((v.node src).size / 2) } hne
    h'.src_not_mem
  have happ := append_at (E := E) h'
  cases kind with
  | leaf =>
    refine readNode_bind <| happ.bind fun _ => appendLogEntry_at.bind fun _ => ?_
    refine (recoverRemoveItems_at (by simp) ?_).post fun _ s hs => ?_
    · rw [hsrc]
      omega
    · refine moved_of_at hne h'.dst_not_mem ?_
      rw [hsrc] at hs
      rwa [show (v.node src).size / 2 + ((v.node src).size - (v.node src).size / 2) =
        (v.node src).items.length by unfold IndexNode.size; omega, List.drop_length,
        List.append_nil] at hs
  | internal =>
    refine readNode_bind <| happ.bind fun _ => appendLogEntry_at.bind fun _ => ?_
    refine decreaseSize_at.post fun _ s hs => ?_
    refine moved_of_at hne h'.dst_not_mem ?_
    rw [hsrc] at hs
    rwa [show (v.node src).size - ((v.node src).size - (v.node src).size / 2) =
      (v.node src).size / 2 by omega] at hs

theorem moveFirstToEnd_at {kind : NodeKind} {first : Item κ} {rest : List (Item κ)}
    (hne : src ≠ dst) (hitems : (v.node src).items = first :: rest)
    (h : Movable v kind src dst (v.node src).items) :
    Triple (At v) (kind.moveFirstToEnd src dst)
      (fun _ s => ∃ v', At v' s ∧ Moved v v' src dst rest ((v.node dst).items ++ [first])
        (kind.children [first])) E := by
  have h' := h.mono (show ∀ item ∈ [first], item ∈ (v.node src).items by simp [hitems])
  have hsrc := Pages.node_src (v := v) { v.node dst with
    items := (v.node dst).items ++ [first] } hne h'.src_not_mem
  have hfirst : (v.node src).items[0]? = some first := by simp [hitems]
  have happ := append_at (E := E) h'
  cases kind with
  | leaf =>
    refine itemAt_bind hfirst <| happ.bind fun _ => ?_
    refine (LeafIndexNodeHandler.remove_at (show 0 < IndexNode.size _ from ?_)).post fun _ s hs => ?_
    · rw [hsrc]
      simp [IndexNode.size, hitems]
    · refine moved_of_at hne h'.dst_not_mem ?_
      rw [hsrc] at hs
      simpa [hitems] using hs
  | internal =>
    refine itemAt_bind hfirst <| happ.bind fun _ => ?_
    refine (InternalIndexNodeHandler.remove_at (show 0 < IndexNode.size _ from ?_)).post fun _ s hs => ?_
    · rw [hsrc]
      simp [IndexNode.size, hitems]
    · refine moved_of_at hne h'.dst_not_mem ?_
      rw [hsrc] at hs
      simpa [hitems] using hs

theorem moveLastToFront_at {kind : NodeKind} {last : Item κ} {init : List (Item κ)}
    (hne : src ≠ dst) (hitems : (v.node src).items = init ++ [last])
    (h : Movable v kind src dst (v.node src).items) :
    Triple (At v) (kind.moveLastToFront src dst)
      (fun _ s => ∃ v', At v' s ∧ Moved v v' src dst init (last :: (v.node dst).items)
        (kind.children [last])) E := by
  have h' := h.mono (show ∀ item ∈ [last], item ∈ (v.node src).items by simp [hitems])
  have hsrc := Pages.node_src (v := v) { v.node dst with
    items := last :: (v.node dst).items } hne h'.src_not_mem
  have hsize : (v.node src).size = init.length + 1 := by simp [IndexNode.size, hitems]
  have hindex : ((v.node src).size : Int) - 1 = (init.length : Nat) := by omega
  have hlast : (v.node src).items[init.length]? = some last := by simp [hitems]
  have hpre := preappend_at (E := E) h'
  cases kind with
  | leaf =>
    refine readNode_bind ?_
    rw [hindex]
    refine itemAt_bind hlast <| hpre.bind fun _ => readNode_bind ?_
    rw [hsrc, hindex]
    refine (LeafIndexNodeHandler.remove_at (by rw [hsrc]; omega)).post fun _ s hs => ?_
    refine moved_of_at hne h'.dst_not_mem ?_
    rw [hsrc] at hs
    simpa [hitems] using hs
  | internal =>
    refine readNode_bind ?_
    rw [hindex]
    refine itemAt_bind hlast <| hpre.bind fun _ => appendLogEntry_at.bind fun _ => ?_
    refine decreaseSize_at.post fun _ s hs => ?_
    refine moved_of_at hne h'.dst_not_mem ?_
    rw [hsrc, hsize] at hs
    simpa [hitems] using hs

theorem moveTo_internal_at (hne : src ≠ dst)
    (h : Movable v .internal src dst (v.node src).items) :
    Triple (At v) (InternalIndexNodeHandler.moveTo src dst)
      (fun _ s => ∃ v', At v' s ∧ Moved v v' src dst [] ((v.node dst).items ++ (v.node src).items)
        (internal.children (v.node src).items)) E := by
  have hsrc := Pages.node_src (v := v) { v.node dst with
    items := (v.node dst).items ++ (v.node src).items } hne h.src_not_mem
  refine readNode_bind <| (append_at h).bind fun _ => appendLogEntry_at.bind fun _ => ?_
  refine (recoverRemoveItems_at (by simp) ?_).post fun _ s hs => ?_
  · rw [hsrc]
    omega
  · refine moved_of_at hne h.dst_not_mem ?_
    rw [hsrc] at hs
    simpa [IndexNode.size] using hs

theorem moveTo_leaf_at (hne : src ≠ dst) :
    Triple (At v) (LeafIndexNodeHandler.moveTo src dst)
      (fun _ => At ((v.setNode dst { v.node dst with
          items := (v.node dst).items ++ (v.node src).items
          nextBrother := (v.node src).nextBrother }).setNode src { v.node src with items := [] })) E := by
  refine readNode_bind <| LeafIndexNodeHandler.append_at.bind fun _ => ?_
  refine LeafIndexNodeHandler.setNextPage_at.bind fun _ => appendLogEntry_at.bind fun _ => ?_
  refine decreaseSize_at.post fun _ s hs => ?_
  simpa [Pages.setNode_of_ne hne, IndexNode.size] using hs

end NodeKind

end ObHtap
