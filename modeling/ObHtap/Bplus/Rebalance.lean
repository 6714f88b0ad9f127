import ObHtap.Bplus.Insertion
import ObHtap.Bplus.Rotate

/-!
# Nodes that have become too small

The steps of a deletion above the leaf: an item moves over from a neighbor, two neighbors are
merged, or the root goes away.
-/

namespace ObHtap

open ObHtap.Bound IndexNodeHandler BplusTreeHandler

variable {κ ρ : Type} [LinearOrder ρ] {rank : κ → ρ} {v v' : Pages κ} {g : Layout ρ}
  {E : Fault → Mtr κ → Prop} {kind : NodeKind} {parent : PageNum} {js ks : List (Item κ)}
  {il ir : Item κ}

/-! ## Redistribution -/

section Redistribute

/-- Two neighbors are on one level, and their children are not among the pages involved. -/
theorem TreeInv.neighbors_apart (h : TreeInv rank v g none) (hP : g.dom parent)
    (hlP : g.lvl parent ≠ 0) (hitems : (v.node parent).items = js ++ il :: ir :: ks) :
    il.child ≠ ir.child ∧ il.child ≠ parent ∧ ir.child ≠ parent ∧
      g.lvl il.child = g.lvl ir.child ∧
      Child rank v g none parent il (g.lo il.child) (g.hi il.child) ∧
      Child rank v g none parent ir (g.lo ir.child) (g.hi ir.child) := by
  obtain ⟨-, hl, hr, -, -⟩ := h.neighbors hP hlP hitems
  have hl' := hl.lvl
  have hr' := hr.lvl
  refine ⟨h.neighbors_ne hP hlP hitems, ?_, ?_, ?_, hl, hr⟩
  · exact fun hc => by rw [hc] at hl'; omega
  · exact fun hc => by rw [hc] at hr'; omega
  · omega

theorem TreeInv.not_grandchild (h : TreeInv rank v g none) {x y : PageNum} (hx : g.dom x)
    (hlt : g.lvl x ≤ g.lvl y) (hleaf : (v.node x).isLeaf = false) :
    y ∉ (v.node x).items.map Item.child := by
  intro hmem
  obtain ⟨item, hm, rfl⟩ := List.mem_map.mp hmem
  obtain ⟨l, u, hc, -⟩ := h.child_of_mem hx (h.lvl_ne_zero hx hleaf) hm
  have := hc.lvl
  omega

/-- The parents that a move writes are those the redistribution asks for. -/
theorem TreeInv.rotated_parent (h : TreeInv rank v g none) (hkind : kind = .leaf ↔ g.lvl il.child = 0)
    (hl : g.dom il.child) (hr : g.dom ir.child) (hlvl : g.lvl il.child = g.lvl ir.child)
    {left right : List (Item κ)} (moved : List (Item κ)) (dst : PageNum)
    (hall : (v.node il.child).items ++ (v.node ir.child).items = left ++ right)
    (hmoved : (dst = il.child ∧ left = (v.node il.child).items ++ moved) ∨
      (dst = ir.child ∧ right = moved ++ (v.node ir.child).items)) (x : PageNum) :
    (if x ∈ kind.children moved then dst else (v.node x).parent) =
      if (v.node il.child).isLeaf = false ∧ x ∈ right.map Item.child then ir.child
      else if (v.node il.child).isLeaf = false ∧ x ∈ left.map Item.child then il.child
      else (v.node x).parent := by
  cases kind with
  | leaf =>
    have hleaf : (v.node il.child).isLeaf = true := (h.isLeaf_iff hl).mpr (hkind.mp rfl)
    simp [NodeKind.children, hleaf]
  | internal =>
    have hl0 : g.lvl il.child ≠ 0 := fun h0 => by simpa using hkind.mpr h0
    have hleafl := (h.internal _ hl hl0).isLeaf
    have hleafr := (h.internal _ hr (by omega)).isLeaf
    have hpl : x ∈ (v.node il.child).items.map Item.child → (v.node x).parent = il.child :=
      h.parent_of_child hl hleafl
    have hpr : x ∈ (v.node ir.child).items.map Item.child → (v.node x).parent = ir.child :=
      h.parent_of_child hr hleafr
    rcases hmoved with ⟨rfl, rfl⟩ | ⟨rfl, rfl⟩ <;>
      simp only [NodeKind.children, hleafl, true_and, List.map_append, List.mem_append]
    · rw [List.append_assoc, List.append_cancel_left_eq] at hall
      rw [hall, List.map_append, List.mem_append] at hpr
      by_cases hm : x ∈ moved.map Item.child
      · have hxr : x ∉ right.map Item.child := by
          intro hxr
          obtain ⟨a, ha, hax⟩ := List.mem_map.mp hm
          obtain ⟨b, hb, hbx⟩ := List.mem_map.mp hxr
          obtain ⟨as, bs, rfl⟩ := List.append_of_mem hb
          refine h.child_unique hr (by omega)
            (show (v.node ir.child).items = (moved ++ as) ++ b :: bs by rw [hall]; simp) (Or.inl (List.mem_append_left _ ha)) (hax.trans hbx.symm)
        simp only [hm, hxr, if_true, if_false, or_true]
      · by_cases hxr : x ∈ right.map Item.child
        · simp only [hm, hxr, if_true, if_false]
          exact hpr (Or.inr hxr)
        · by_cases hxl : x ∈ (v.node il.child).items.map Item.child
          · simp only [hm, hxr, hxl, if_true, if_false, or_false]
            exact hpl hxl
          · simp only [hm, hxr, hxl, if_false, or_self]
    · rw [← List.append_assoc, List.append_cancel_right_eq] at hall
      rw [hall, List.map_append, List.mem_append] at hpl
      by_cases hm : x ∈ moved.map Item.child
      · simp only [hm, if_true, true_or]
      · by_cases hxr : x ∈ (v.node ir.child).items.map Item.child
        · simp only [hm, hxr, if_true, if_false, or_true]
          exact hpr hxr
        · by_cases hxl : x ∈ left.map Item.child
          · simp only [hm, hxr, hxl, if_true, if_false, or_self]
            exact hpl (Or.inl hxl)
          · simp only [hm, hxr, hxl, if_false, or_self]

/-- A move between two neighbors followed by the new separator is a redistribution. -/
theorem Moved.rotated (h : TreeInv rank v g none) (hP : g.dom parent) (hlP : g.lvl parent ≠ 0)
    (hitems : (v.node parent).items = js ++ il :: ir :: ks)
    (hkind : kind = .leaf ↔ g.lvl il.child = 0) {src dst : PageNum}
    {moved left right : List (Item κ)} {first : Item κ}
    {srcItems dstItems : List (Item κ)}
    (hm : Moved v v' src dst srcItems dstItems (kind.children moved))
    (hall : (v.node il.child).items ++ (v.node ir.child).items = left ++ first :: right)
    (hside : (dst = il.child ∧ src = ir.child ∧ dstItems = left ∧ srcItems = first :: right ∧
        left = (v.node il.child).items ++ moved) ∨
      (dst = ir.child ∧ src = il.child ∧ dstItems = first :: right ∧ srcItems = left ∧
        first :: right = moved ++ (v.node ir.child).items)) :
    Rotated v (v'.setNode parent { v'.node parent with
      items := (v'.node parent).items.set (js.length + 1) ⟨first.key, ir.value⟩ })
      parent js il ir ks left first right := by
  obtain ⟨hlr, hPl, hPr, hlvl, hl, hr⟩ := h.neighbors_apart hP hlP hitems
  have hl' := hl.lvl
  have hpar := h.rotated_parent hkind hl.dom hr.dom hlvl moved dst hall
    (hside.imp (fun hc => ⟨hc.1, hc.2.2.2.2⟩) fun hc => ⟨hc.1, hc.2.2.2.2⟩)
  -- the parent is not among the children that move
  have hPnode : v'.node parent = v.node parent := by
    have hothers := hm.others parent (by rcases hside with hc | hc <;> rw [hc.2.1] <;>
      [exact hPr.symm; exact hPl.symm]) (by rcases hside with hc | hc <;> rw [hc.1] <;>
      [exact hPl.symm; exact hPr.symm])
    have hnot : ∀ l : List (Item κ), (∀ item ∈ l, item ∈ (v.node il.child).items ++
        (v.node ir.child).items) → ¬ ((v.node il.child).isLeaf = false ∧
        parent ∈ l.map Item.child) := by
      rintro l hsub ⟨hleaf, hmem⟩
      obtain ⟨item, hi, hc⟩ := List.mem_map.mp hmem
      have hleafr : (v.node ir.child).isLeaf = false := by
        have h0 := h.lvl_ne_zero hl.dom hleaf
        exact (h.internal _ hr.dom (by omega)).isLeaf
      rcases List.mem_append.mp (hsub item hi) with hi | hi
      · exact h.not_grandchild hl.dom (y := parent) (by omega) hleaf (List.mem_map.mpr ⟨item, hi, hc⟩)
      · exact h.not_grandchild hr.dom (y := parent) (by omega) hleafr
          (List.mem_map.mpr ⟨item, hi, hc⟩)
    rw [hothers, hpar, if_neg (hnot _ fun item hi => by rw [hall]; exact List.mem_append_right _ hi),
      if_neg (hnot _ fun item hi => by rw [hall]; exact List.mem_append_left _ hi)]
  exact
    { rootPage := hm.rootPage
      fileHeader := hm.fileHeader
      disposed := hm.disposed
      parentNode := by
        rw [Pages.setNode_self, hPnode, hitems]
        simp
      leftNode := by
        rw [Pages.setNode_of_ne hPl]
        rcases hside with ⟨rfl, rfl, rfl, rfl, -⟩ | ⟨rfl, rfl, rfl, rfl, -⟩
        · exact hm.dest
        · exact hm.source
      rightNode := by
        rw [Pages.setNode_of_ne hPr]
        rcases hside with ⟨rfl, rfl, rfl, rfl, -⟩ | ⟨rfl, rfl, rfl, rfl, -⟩
        · exact hm.source
        · exact hm.dest
      others := by
        intro x h1 h2 h3
        rw [Pages.setNode_of_ne h1, hm.others x, hpar]
        · rcases hside with hc | hc <;> rw [hc.2.1] <;> assumption
        · rcases hside with hc | hc <;> rw [hc.1] <;> assumption }

variable {neighborPage pageNum : PageNum} {index : Nat}

/-- Which of two neighbors is `pageNum`, and how the two are passed on. -/
def Side (js : List (Item κ)) (il ir : Item κ) (neighborPage pageNum : PageNum) (index : Nat) :
    Prop :=
  (pageNum = il.child ∧ neighborPage = ir.child ∧ index = 0 ∧ js = []) ∨
    (pageNum = ir.child ∧ neighborPage = il.child ∧ index = js.length + 1)

variable (h : TreeInv rank v g none) (hP : g.dom parent)
  (hlP : g.lvl parent ≠ 0) (hitems : (v.node parent).items = js ++ il :: ir :: ks)
  (hkind : kind = .leaf ↔ g.lvl pageNum = 0) (hside : Side js il ir neighborPage pageNum index)
  (h2 : 2 ≤ (v.node neighborPage).size)
include h hP hlP hitems hkind hside h2

theorem moveFromNeighbor_at :
    Triple (At v) (moveFromNeighbor kind neighborPage pageNum parent index)
      (fun _ s => ∃ v' left first right, At v' s ∧
        (v.node il.child).items ++ (v.node ir.child).items = left ++ first :: right ∧
        left ≠ [] ∧
        ((left.length = (v.node pageNum).size + 1 ∧
            right.length + 2 = (v.node neighborPage).size) ∨
          (left.length + 1 = (v.node neighborPage).size ∧
            right.length = (v.node pageNum).size)) ∧
        Rotated v v' parent js il ir ks left first right) E := by
  obtain ⟨hlr, hPl, hPr, hlvl, hl, hr⟩ := h.neighbors_apart hP hlP hitems
  unfold IndexNode.size at h2
  unfold moveFromNeighbor
  rcases hside with ⟨rfl, rfl, rfl, rfl⟩ | ⟨rfl, rfl, rfl⟩
  · -- the first item of the right neighbor moves to the end
    have hmov : Movable v kind ir.child il.child _ :=
      h.movable hr.dom (by rw [hkind, hlvl]) (Or.inr hlvl)
    obtain ⟨moved, first, right, hright⟩ : ∃ a b c, (v.node ir.child).items = a :: b :: c := by
      match hm : (v.node ir.child).items with
      | [] => simp [hm] at h2
      | [_] => simp [hm] at h2
      | a :: b :: c => exact ⟨a, b, c, rfl⟩
    rw [if_pos rfl]
    refine (ignoreRC_at ((NodeKind.moveFirstToEnd_at (E := fun _ _ => False) hlr.symm hright
      hmov).conseq (fun _ => id) (fun _ _ => id) fun _ _ => False.elim)).bind fun _ => ?_
    refine Triple.of_exists fun v₁ => Triple.and_of fun hm => ?_
    refine keyAt_bind 0 first (by rw [hm.source]; rfl) ?_
    have hall : (v.node il.child).items ++ (v.node ir.child).items =
        ((v.node il.child).items ++ [moved]) ++ first :: right := by rw [hright]; simp
    have hrot := hm.rotated h hP hlP hitems hkind hall
      (Or.inl ⟨rfl, rfl, rfl, rfl, rfl⟩)
    have hPitems : (v₁.node parent).items = il :: ir :: ks := by
      rw [hm.others parent hPr.symm hPl.symm]
      exact hitems
    refine (InternalIndexNodeHandler.setKeyAt_at (0 + 1) ir
      (by rw [hPitems]; rfl)).post fun _ s hs => ?_
    refine ⟨_, _, first, right, hs, hall, by simp, Or.inl ⟨?_, ?_⟩, hrot⟩
    · simp [IndexNode.size]
    · simp [IndexNode.size, hright]
  · -- the last item of the left neighbor moves to the front
    have hmov : Movable v kind il.child ir.child _ :=
      h.movable hl.dom (by rw [hkind, hlvl]) (Or.inr hlvl.symm)
    have hne : (v.node il.child).items ≠ [] := fun hc => by simp [hc] at h2
    obtain ⟨left, first, hleft⟩ := List.eq_nil_or_concat'  (v.node il.child).items |>.resolve_left hne
    rw [hleft, List.length_append, List.length_singleton] at h2
    rw [if_neg (Nat.succ_ne_zero _)]
    refine (ignoreRC_at ((NodeKind.moveLastToFront_at (E := fun _ _ => False) hlr hleft
      hmov).conseq (fun _ => id) (fun _ _ => id) fun _ _ => False.elim)).bind fun _ => ?_
    refine Triple.of_exists fun v₁ => Triple.and_of fun hm => ?_
    refine keyAt_bind 0 first (by rw [hm.dest]; rfl) ?_
    have hall : (v.node il.child).items ++ (v.node ir.child).items =
        left ++ first :: (v.node ir.child).items := by rw [hleft]; simp
    have hrot := hm.rotated h hP hlP hitems (by rw [hkind, hlvl]) hall
      (Or.inr ⟨rfl, rfl, rfl, rfl, rfl⟩)
    have hPitems : (v₁.node parent).items = js ++ il :: ir :: ks := by
      rw [hm.others parent hPl.symm hPr.symm]
      exact hitems
    refine (InternalIndexNodeHandler.setKeyAt_at (js.length + 1) ir
      (by rw [hPitems]; simp)).post fun _ s hs => ?_
    refine ⟨_, left, first, (v.node ir.child).items, hs, hall, ?_, Or.inr ⟨?_, rfl⟩, hrot⟩
    · rintro rfl
      simp at h2
    · simp [IndexNode.size, hleft]

theorem redistribute_at :
    Triple (At v) (redistribute kind neighborPage pageNum parent index)
      (fun _ s => ∃ v' left first right, At v' s ∧
        (v.node il.child).items ++ (v.node ir.child).items = left ++ first :: right ∧
        left ≠ [] ∧
        ((left.length = (v.node pageNum).size + 1 ∧
            right.length + 2 = (v.node neighborPage).size) ∨
          (left.length + 1 = (v.node neighborPage).size ∧
            right.length = (v.node pageNum).size)) ∧
        Rotated v v' parent js il ir ks left first right) E := by
  refine (moveFromNeighbor_at h hP hlP hitems hkind hside h2).bind fun _ => ?_
  refine Triple.of_exists fun v' => Triple.of_exists fun left => Triple.of_exists fun first => ?_
  refine Triple.of_exists fun right => Triple.and_of fun hrest => ?_
  refine markDirty_at.bind fun _ => markDirty_at.bind fun _ => markDirty_at.post fun _ s hs => ?_
  exact ⟨v', left, first, right, hs, hrest⟩

end Redistribute

/-! ## Merging -/

section Coalesce

theorem linkOverRight_leaf_at {l r : PageNum} (hleaf : (v.node l).isLeaf = true) :
    Triple (At v) (linkOverRight l r)
      (fun _ => At (v.setNode l { v.node l with nextBrother := (v.node r).nextBrother })) E := by
  refine readNode_bind ?_
  rw [if_pos hleaf]
  exact readNode_bind LeafIndexNodeHandler.setNextPage_at

theorem linkOverRight_internal_at {l r : PageNum} (hleaf : (v.node l).isLeaf = false) :
    Triple (At v) (linkOverRight l r) (fun _ => At v) E := by
  refine readNode_bind ?_
  rw [if_neg (by simp [hleaf])]
  exact Triple.pure fun _ => id

theorem MergeInto.dispose {l r : PageNum} {items : List (Item κ)}
    (h : MergeInto v v' parent l r items) :
    MergeInto v { v' with disposedPages := v'.disposedPages ++ [r] } parent l r items :=
  { h with
    disposed := fun x hx => by
      rcases List.mem_append.mp hx with hx | hx
      · exact h.disposed x hx
      · exact Or.inr (List.mem_singleton.mp hx) }

theorem MergeInto.of_leaf {l r : PageNum} {items : List (Item κ)} (hPl : l ≠ parent)
    (hPr : r ≠ parent) (hleaf : (v.node l).isLeaf = true) {left right left' : IndexNode κ}
    (hleft : left' = { v.node l with
      items := (v.node l).items ++ (v.node r).items
      nextBrother := (v.node r).nextBrother }) :
    MergeInto v ((((v.setNode parent { v.node parent with items }).setNode l left).setNode r
      right).setNode l left') parent l r items where
  rootPage := rfl
  fileHeader := rfl
  disposed := fun x hx => Or.inl hx
  parentNode := by
    rw [Pages.setNode_of_ne hPl.symm, Pages.setNode_of_ne hPr.symm, Pages.setNode_of_ne hPl.symm,
      Pages.setNode_self]
  isLeaf_left := by rw [Pages.setNode_self, hleft]
  parent_left := by rw [Pages.setNode_self, hleft]
  items_left := by rw [Pages.setNode_self, hleft]
  next_left := fun _ => by rw [Pages.setNode_self, hleft]
  others := by
    intro x h1 h2 h3
    rw [Pages.setNode_of_ne h2, Pages.setNode_of_ne h3, Pages.setNode_of_ne h2,
      Pages.setNode_of_ne h1]
    simp [hleaf]

/-- The merge of two neighbors, the right one of which is the child at `js.length + 1`. -/
theorem mergeRight_at (h : TreeInv rank v g none) (hP : g.dom parent) (hlP : g.lvl parent ≠ 0)
    (hitems : (v.node parent).items = js ++ il :: ir :: ks)
    (hkind : kind = .leaf ↔ g.lvl il.child = 0) :
    Triple (At v) (mergeRight kind il.child ir.child parent (js.length + 1))
      (fun _ s => ∃ v', At v' s ∧
        MergeInto v v' parent il.child ir.child (js ++ il :: ks)) E := by
  obtain ⟨hlr, hPl, hPr, hlvl, hl, hr⟩ := h.neighbors_apart hP hlP hitems
  have hmov : Movable v kind ir.child il.child _ :=
    h.movable hr.dom (by rw [hkind, hlvl]) (Or.inr hlvl)
  have hl' := hl.lvl
  refine (InternalIndexNodeHandler.remove_at (by simp [IndexNode.size, hitems])).bind fun _ => ?_
  have htake : (v.node parent).items.take (js.length + 1) ++
      (v.node parent).items.drop (js.length + 1 + 1) = js ++ il :: ks := by
    rw [hitems, show js ++ il :: ir :: ks = (js ++ [il]) ++ ir :: ks by simp,
      List.take_left' (by simp), show js.length + 1 + 1 = (js ++ [il]).length + 1 by simp,
      List.drop_length_add_append]
    simp
  rw [htake]
  cases kind with
  | leaf =>
    have hleaf : (v.node il.child).isLeaf = true := (h.isLeaf_iff hl.dom).mpr (hkind.mp rfl)
    refine (NodeKind.moveTo_leaf_at hlr.symm).bind fun _ => ?_
    refine (linkOverRight_leaf_at ?_).bind fun _ => disposePage_at.post fun _ s hs => ⟨_, hs, ?_⟩
    · rw [Pages.setNode_of_ne hlr, Pages.setNode_self, Pages.setNode_of_ne hPl]
      exact hleaf
    refine (MergeInto.of_leaf hPl hPr hleaf ?_).dispose
    simp only [Pages.setNode_of_ne hlr, Pages.setNode_of_ne hPl, Pages.setNode_of_ne hPr,
      Pages.setNode_self]
  | internal =>
    have hl0 : g.lvl il.child ≠ 0 := fun h0 => by simpa using hkind.mpr h0
    have hleaf := (h.internal _ hl.dom hl0).isLeaf
    have hleafr := (h.internal _ hr.dom (by omega)).isLeaf
    refine (NodeKind.moveTo_internal_at hlr.symm ?_).bind fun _ => ?_
    · rw [Pages.setNode_of_ne hPr]
      exact hmov
    refine Triple.of_exists fun v₁ => Triple.and_of fun hm => ?_
    have hleft := hm.dest
    rw [Pages.setNode_of_ne hPl, Pages.setNode_of_ne hPr] at hleft
    have hothers := hm.others
    simp only [NodeKind.children, Pages.setNode_of_ne hPr] at hothers
    have hmerge : MergeInto v v₁ parent il.child ir.child (js ++ il :: ks) :=
      { rootPage := hm.rootPage
        fileHeader := hm.fileHeader
        disposed := fun x hx => Or.inl (by rwa [hm.disposed] at hx)
        parentNode := by
          rw [hothers parent hPr.symm hPl.symm, Pages.setNode_self,
            if_neg (h.not_grandchild hr.dom (y := parent) (by omega) hleafr)]
        isLeaf_left := by rw [hleft]
        parent_left := by rw [hleft]
        items_left := by rw [hleft]
        next_left := fun hc => by simp [hleaf] at hc
        others := by
          intro x h1 h2 h3
          rw [hothers x h3 h2, Pages.setNode_of_ne h1]
          simp [hleaf] }
    refine (linkOverRight_internal_at (by rw [hleft]; exact hleaf)).bind fun _ => ?_
    exact disposePage_at.post fun _ s hs => ⟨_, hs, hmerge.dispose⟩

theorem coalesce_at {neighborPage pageNum : PageNum} {index : Nat} (h : TreeInv rank v g none)
    (hP : g.dom parent) (hlP : g.lvl parent ≠ 0)
    (hitems : (v.node parent).items = js ++ il :: ir :: ks)
    (hkind : kind = .leaf ↔ g.lvl pageNum = 0)
    (hside : Side js il ir neighborPage pageNum index) :
    Triple (At v) (coalesce kind neighborPage pageNum parent index)
      (fun _ s => ∃ v', At v' s ∧
        MergeInto v v' parent il.child ir.child (js ++ il :: ks)) E := by
  obtain ⟨-, -, -, hlvl, -, -⟩ := h.neighbors_apart hP hlP hitems
  unfold coalesce
  rcases hside with ⟨rfl, rfl, rfl, rfl⟩ | ⟨rfl, rfl, rfl⟩
  · rw [if_pos rfl]
    have hitems' : (v.node parent).items = [] ++ il :: ir :: ks := hitems
    have hmerge := mergeRight_at (E := E) h hP hlP hitems' hkind
    simpa only [List.length_nil, List.nil_append] using hmerge
  · rw [if_neg (Nat.succ_ne_zero _)]
    exact mergeRight_at h hP hlP hitems (by rw [hkind, hlvl])

end Coalesce

end ObHtap
