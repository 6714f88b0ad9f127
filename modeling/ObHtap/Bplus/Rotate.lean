import ObHtap.Bplus.Merge
import ObHtap.Bplus.NodeSpec

/-!
# Moving the boundary between two neighbors

A redistribution is, for the layout, a merge of two neighbors followed by a split at another
place: the right page is forgotten and comes back as the new half.
-/

namespace ObHtap

open ObHtap.Bound

variable {κ ρ : Type} [LinearOrder ρ] {rank : κ → ρ} {v v' : Pages κ} {g : Layout ρ}
  {parent : PageNum} {js ks left right : List (Item κ)} {il ir first : Item κ}

/-- The pages after the items of two neighbors have been divided between them anew, with
`first` as the first item on the right. -/
structure Rotated (v v' : Pages κ) (parent : PageNum) (js : List (Item κ)) (il ir : Item κ)
    (ks left : List (Item κ)) (first : Item κ) (right : List (Item κ)) : Prop where
  rootPage : v'.rootPage = v.rootPage
  fileHeader : v'.fileHeader = v.fileHeader
  disposed : v'.disposedPages = v.disposedPages
  parentNode : v'.node parent =
    { v.node parent with items := js ++ il :: ⟨first.key, ir.value⟩ :: ks }
  leftNode : v'.node il.child = { v.node il.child with items := left }
  rightNode : v'.node ir.child = { v.node ir.child with items := first :: right }
  others : ∀ x, x ≠ parent → x ≠ il.child → x ≠ ir.child → v'.node x =
    { v.node x with
      parent :=
        if (v.node il.child).isLeaf = false ∧ x ∈ (first :: right).map Item.child then ir.child
        else if (v.node il.child).isLeaf = false ∧ x ∈ left.map Item.child then il.child
        else (v.node x).parent }

/-- The layout after the boundary between two neighbors has moved. -/
def Layout.rotate (g : Layout ρ) (l r : PageNum) (mid : Bound ρ) : Layout ρ :=
  (g.merge l r).split l r mid

namespace TreeInv

theorem next_eq (h : TreeInv rank v g none) {l r : PageNum} (hl : g.dom l) (hr : g.dom r)
    (hll : g.lvl l = 0) (hlr : g.lvl r = 0) (hmid : g.hi l = g.lo r) :
    (v.node l).nextBrother = r := by
  have hlt := h.lt r hr
  rcases h.next l hl hll with ⟨htop, -⟩ | ⟨hd, hln, hlo⟩
  · rw [htop] at hmid
    exact absurd (hlt.trans_le le_top) (by rw [← hmid]; exact lt_irrefl _)
  · rw [hmid] at hlo
    exact h.eq_of_common hd hr (hln.trans hlr.symm) ⟨hlo.le, hlo ▸ h.lt _ hd⟩ ⟨le_rfl, hlt⟩

theorem rotated_steps (h : TreeInv rank v g none) (hP : g.dom parent) (hlP : g.lvl parent ≠ 0)
    (hitems : (v.node parent).items = js ++ il :: ir :: ks)
    (hall : (v.node il.child).items ++ (v.node ir.child).items = left ++ first :: right)
    (hs : Rotated v v' parent js il ir ks left first right) :
    ∃ vM vS, MergeInto v vM parent il.child ir.child (js ++ il :: ks) ∧
      SplitInto vM vS il.child ir.child left (first :: right) ∧
      AddChild vS v' parent ⟨first.key, ir.value⟩
        (js ++ il :: ⟨first.key, ir.value⟩ :: ks) := by
  obtain ⟨-, hl, hr, -, hmid⟩ := h.neighbors hP hlP hitems
  have hlP' := hl.lvl
  have hrP' := hr.lvl
  have hlr := h.neighbors_ne hP hlP hitems
  have hPl : il.child ≠ parent := fun hc => by rw [hc] at hlP'; omega
  have hPr : ir.child ≠ parent := fun hc => by rw [hc] at hrP'; omega
  have hleaf : (v.node ir.child).isLeaf = (v.node il.child).isLeaf := by
    rw [Bool.eq_iff_iff, h.isLeaf_iff hr.dom, h.isLeaf_iff hl.dom]
    omega
  have hallocr := (h.alloc _ hr.dom).2.1
  -- the children of the left page name it as their parent
  have hlchild : ∀ x, (v.node il.child).isLeaf = false →
      x ∈ (v.node il.child).items.map Item.child → (v.node x).parent = il.child :=
    fun x hb hx => h.parent_of_child hl.dom hb hx
  let vM : Pages κ :=
    { v with
      node := fun x =>
        if x = parent then { v.node parent with items := js ++ il :: ks }
        else if x = il.child then
          { v.node il.child with
            items := (v.node il.child).items ++ (v.node ir.child).items
            nextBrother := (v.node ir.child).nextBrother }
        else
          { v.node x with
            parent :=
              if (v.node il.child).isLeaf = false ∧ x ∈ (v.node ir.child).items.map Item.child then
                il.child
              else (v.node x).parent } }
  have hMP : vM.node parent = { v.node parent with items := js ++ il :: ks } := if_pos rfl
  have hMl : vM.node il.child = { v.node il.child with
      items := (v.node il.child).items ++ (v.node ir.child).items
      nextBrother := (v.node ir.child).nextBrother } := by
    simp only [vM, if_neg hPl, if_true]
  have hMx : ∀ x, x ≠ parent → x ≠ il.child → vM.node x = { v.node x with
      parent := if (v.node il.child).isLeaf = false ∧ x ∈ (v.node ir.child).items.map Item.child then
        il.child else (v.node x).parent } := by
    intro x h1 h2
    simp only [vM, if_neg h1, if_neg h2]
  refine ⟨vM, v'.setNode parent { v'.node parent with items := js ++ il :: ks }, ?_, ?_, ?_⟩
  · exact
      { rootPage := rfl
        fileHeader := rfl
        disposed := fun x hx => Or.inl hx
        parentNode := hMP
        isLeaf_left := by rw [hMl]
        parent_left := by rw [hMl]
        items_left := by rw [hMl]
        next_left := fun _ => by rw [hMl]
        others := fun x h1 h2 _ => hMx x h1 h2 }
  · exact
      { rootPage := hs.rootPage
        alloc := fun x hx => by
          rw [Pages.Allocated, Pages.setNode_fileHeader, hs.fileHeader]
          exact hx
        new := by
          rw [Pages.Allocated, Pages.setNode_fileHeader, hs.fileHeader]
          exact hallocr
        disposed := hs.disposed
        items_left := by rw [Pages.setNode_of_ne hPl, hs.leftNode]
        items_right := by rw [Pages.setNode_of_ne hPr, hs.rightNode]
        isLeaf_left := by rw [Pages.setNode_of_ne hPl, hs.leftNode, hMl]
        isLeaf_right := by rw [Pages.setNode_of_ne hPr, hs.rightNode, hMl]; exact hleaf
        parent_left := by rw [Pages.setNode_of_ne hPl, hs.leftNode, hMl]
        next_left := fun hb => by
          rw [hMl] at hb
          rw [Pages.setNode_of_ne hPl, hs.leftNode]
          have h0 := (h.isLeaf_iff hl.dom).mp hb
          exact h.next_eq hl.dom hr.dom h0 (by omega) hmid
        next_right := fun _ => by rw [Pages.setNode_of_ne hPr, hs.rightNode, hMl]
        others := by
          intro x h1 h2
          rw [hMl]
          by_cases hxP : x = parent
          · subst hxP
            have hnot : ∀ l : List (Item κ), (∀ item ∈ l, item ∈ (v.node il.child).items ∨
                item ∈ (v.node ir.child).items) → (v.node il.child).isLeaf = false →
                x ∉ l.map Item.child := by
              intro l hsub hb hmem
              obtain ⟨item, hm, hc⟩ := List.mem_map.mp hmem
              have hl0 := h.lvl_ne_zero hl.dom hb
              rcases hsub item hm with hm | hm
              · obtain ⟨_, _, hch, -⟩ := h.child_of_mem hl.dom hl0 hm
                have := hch.lvl
                rw [hc] at this
                omega
              · obtain ⟨_, _, hch, -⟩ := h.child_of_mem hr.dom (by omega) hm
                have := hch.lvl
                rw [hc] at this
                omega
            have hnr : ¬ ((v.node il.child).isLeaf = false ∧
                x ∈ (first :: right).map Item.child) := by
              rintro ⟨hb, hm⟩
              refine hnot (first :: right) (fun item hi => ?_) hb hm
              have : item ∈ left ++ first :: right := List.mem_append_right _ hi
              rwa [← hall, List.mem_append] at this
            rw [Pages.setNode_self, hs.parentNode, hMP]
            simp only [hnr, if_false]
          · rw [Pages.setNode_of_ne hxP, hs.others x hxP h1 h2, hMx x hxP h1]
            by_cases hb : (v.node il.child).isLeaf = false
            · simp only [hb, true_and]
              by_cases hxr : x ∈ (first :: right).map Item.child
              · simp only [hxr, if_true]
              · simp only [hxr, if_false]
                have hmem : ∀ l : List (Item κ), (∀ item ∈ l, item ∈ left ++ first :: right) →
                    x ∈ l.map Item.child → x ∈ left.map Item.child := by
                  intro l hsub hx
                  obtain ⟨item, hm, hc⟩ := List.mem_map.mp hx
                  rcases List.mem_append.mp (hsub item hm) with hm | hm
                  · exact hc ▸ List.mem_map_of_mem hm
                  · exact absurd (hc ▸ List.mem_map_of_mem hm) hxr
                by_cases hxl : x ∈ left.map Item.child
                · simp only [hxl, if_true]
                  by_cases hxr' : x ∈ (v.node ir.child).items.map Item.child
                  · simp only [hxr', if_true]
                  · simp only [hxr', if_false]
                    obtain ⟨item, hm, hc⟩ := List.mem_map.mp hxl
                    have hm' : item ∈ (v.node il.child).items ++ (v.node ir.child).items := by
                      rw [hall]
                      exact List.mem_append_left _ hm
                    rcases List.mem_append.mp hm' with hm' | hm'
                    · rw [hlchild x hb (hc ▸ List.mem_map_of_mem hm')]
                    · exact absurd (hc ▸ List.mem_map_of_mem hm') hxr'
                · have hxr' : x ∉ (v.node ir.child).items.map Item.child := fun hx => hxl <|
                    hmem _ (fun item hm => by rw [← hall]; exact List.mem_append_right _ hm) hx
                  simp only [hxl, hxr', if_false]
            · simp only [Bool.eq_true_of_not_eq_false hb, Bool.true_eq_false, false_and,
                if_false] }
  · exact
      { rootPage := rfl
        fileHeader := rfl
        disposed := rfl
        parentNode := by
          rw [hs.parentNode, Pages.setNode_self]
        child := by
          change v'.node ir.child = { (v'.setNode parent _).node ir.child with parent := parent }
          rw [Pages.setNode_of_ne hPr, hs.rightNode, ← hr.parent]
        others := fun x h1 _ => (Pages.setNode_of_ne h1).symm }

theorem rotated (h : TreeInv rank v g none) (hP : g.dom parent) (hlP : g.lvl parent ≠ 0)
    (hitems : (v.node parent).items = js ++ il :: ir :: ks)
    (hall : (v.node il.child).items ++ (v.node ir.child).items = left ++ first :: right)
    (hleft : left ≠ []) (hs : Rotated v v' parent js il ir ks left first right) :
    TreeInv rank v' (g.rotate il.child ir.child (at_ (rank first.key))) none ∧
      ∀ item, Entry v' (g.rotate il.child ir.child (at_ (rank first.key))) item ↔
        Entry v g item := by
  obtain ⟨-, hl, hr, -, -⟩ := h.neighbors hP hlP hitems
  have hlP' := hl.lvl
  have hrP' := hr.lvl
  have hlr := h.neighbors_ne hP hlP hitems
  have hPr : parent ≠ ir.child := fun hc => by rw [← hc] at hrP'; omega
  have hPl : parent ≠ il.child := fun hc => by rw [← hc] at hlP'; omega
  obtain ⟨vM, vS, hM, hS, hA⟩ := h.rotated_steps hP hlP hitems hall hs
  have hallM : (vM.node il.child).items = left ++ first :: right := by rw [hM.items_left, hall]
  have h₁ := h.mergeInto hP hlP hitems hM
  have hldom : (g.merge il.child ir.child).dom il.child := ⟨hl.dom, hlr⟩
  have hrdom : ¬ (g.merge il.child ir.child).dom ir.child := fun hc => hc.2 rfl
  have hrd : ir.child ∉ vM.disposedPages := by
    rw [← hS.disposed, ← hA.disposed, hs.disposed]
    exact (h.alloc _ hr.dom).2.2
  have h₂ := h₁.splitInto hldom hrdom (h.nonneg hr.dom) hrd hallM hleft hS
  have hlvl : ∀ x, x ≠ ir.child →
      (g.rotate il.child ir.child (at_ (rank first.key))).lvl x = g.lvl x := fun x hx => if_neg hx
  have hlvlr : (g.rotate il.child ir.child (at_ (rank first.key))).lvl ir.child =
      g.lvl il.child := if_pos rfl
  have hitemsS : (vS.node parent).items = js ++ il :: ks := by
    rw [hS.others parent hPl hPr, hM.parentNode]
  have h₃ := TreeInv.addChild ⟨first.key, ir.value⟩ (p := il.child) h₂
    (Or.inr ⟨hP, hPr⟩)
    (by rw [show ((g.merge il.child ir.child).split il.child ir.child
          (at_ (rank first.key))).lvl il.child = g.lvl il.child from hlvl _ hlr,
        show ((g.merge il.child ir.child).split il.child ir.child
          (at_ (rank first.key))).lvl parent = g.lvl parent from hlvl _ hPr]
        exact hlP')
    hitemsS rfl (if_pos rfl) hA
  refine ⟨h₃, fun item => ?_⟩
  have e₁ := h.entry_mergeInto hP hlP hitems hM item
  have e₂ := TreeInv.entry_splitInto hldom hrdom hallM hS (at_ (rank first.key)) item
  have e₃ := TreeInv.entry_addChild (g := g.rotate il.child ir.child (at_ (rank first.key)))
    (by rw [hlvl _ hPr]; exact hlP) hA item
  exact e₃.trans (e₂.trans e₁)

end TreeInv

end ObHtap
