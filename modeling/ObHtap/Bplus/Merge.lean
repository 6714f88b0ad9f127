import ObHtap.Bplus.Split

/-!
# Merging pages and changing the root

The page-level steps of a deletion: two neighboring children of a node become one, and a root
that is not needed any more is given up.  The first leaf of an empty tree is here as well.
-/

namespace ObHtap

open ObHtap.Bound

variable {κ ρ : Type} [LinearOrder ρ] {rank : κ → ρ} {v v' : Pages κ} {g : Layout ρ}

/-! ## Two neighbors become one -/

/-- The layout after the page `r` has been merged into its left neighbor `l`. -/
def Layout.merge (g : Layout ρ) (l r : PageNum) : Layout ρ where
  dom x := g.dom x ∧ x ≠ r
  lvl := g.lvl
  lo := g.lo
  hi x := if x = l then g.hi r else g.hi x

/-- The pages after the items of `r` have moved to `l` and the item of `r` has left the parent,
which keeps `items`. -/
structure MergeInto (v v' : Pages κ) (parent l r : PageNum) (items : List (Item κ)) : Prop where
  rootPage : v'.rootPage = v.rootPage
  fileHeader : v'.fileHeader = v.fileHeader
  disposed : ∀ x ∈ v'.disposedPages, x ∈ v.disposedPages ∨ x = r
  parentNode : v'.node parent = { v.node parent with items }
  isLeaf_left : (v'.node l).isLeaf = (v.node l).isLeaf
  parent_left : (v'.node l).parent = (v.node l).parent
  items_left : (v'.node l).items = (v.node l).items ++ (v.node r).items
  next_left : (v.node l).isLeaf = true → (v'.node l).nextBrother = (v.node r).nextBrother
  others : ∀ x, x ≠ parent → x ≠ l → x ≠ r → v'.node x =
    { v.node x with
      parent := if (v.node l).isLeaf = false ∧ x ∈ (v.node r).items.map Item.child then l
        else (v.node x).parent }

namespace TreeInv

section Merge

variable {parent : PageNum} {js ks : List (Item κ)} {il ir : Item κ}

theorem neighbors_ne (h : TreeInv rank v g none) (hP : g.dom parent) (hlP : g.lvl parent ≠ 0)
    (hitems : (v.node parent).items = js ++ il :: ir :: ks) : il.child ≠ ir.child :=
  (h.child_unique hP hlP hitems (Or.inr (by simp : ir ∈ ir :: ks))).symm

theorem neighbors (h : TreeInv rank v g none) (hP : g.dom parent) (hlP : g.lvl parent ≠ 0)
    (hitems : (v.node parent).items = js ++ il :: ir :: ks) :
    Cover (Child rank v g none parent) (g.lo parent) js (g.lo il.child) ∧
      Child rank v g none parent il (g.lo il.child) (g.hi il.child) ∧
      Child rank v g none parent ir (g.lo ir.child) (g.hi ir.child) ∧
      Cover (Child rank v g none parent) (g.hi ir.child) ks (g.hi parent) ∧
      g.hi il.child = g.lo ir.child := by
  have hcov := (h.internal parent hP hlP).cover
  rw [hitems, Cover.middle_iff] at hcov
  obtain ⟨a, b, hjs, hl, c, hr, hks⟩ := hcov
  have ha := hl.lo
  have hb : g.hi il.child = b := hl.cov
  have hb' := hr.lo
  have hc : g.hi ir.child = c := hr.cov
  subst ha hb hc
  rw [← hb'] at hr
  exact ⟨hjs, hl, hr, hks, hb'.symm⟩

theorem mergeInto (h : TreeInv rank v g none) (hP : g.dom parent) (hlP : g.lvl parent ≠ 0)
    (hitems : (v.node parent).items = js ++ il :: ir :: ks)
    (hs : MergeInto v v' parent il.child ir.child (js ++ il :: ks)) :
    TreeInv rank v' (g.merge il.child ir.child) none := by
  obtain ⟨hjs, hl, hr, hks, hmid⟩ := h.neighbors hP hlP hitems
  have hlP' := hl.lvl
  have hrP' := hr.lvl
  have hlr := h.neighbors_ne hP hlP hitems
  have hPl : parent ≠ il.child := fun hc => by rw [← hc] at hlP'; omega
  have hPr : parent ≠ ir.child := fun hc => by rw [← hc] at hrP'; omega
  have hrroot : v.rootPage ≠ ir.child := by
    intro hc
    have := (h.root_bounds (hc ▸ hr.dom)).2.2
    rw [hc, hr.parent] at this
    exact h.ne_invalid hP this
  have hdom : ∀ {x}, g.dom x → x ≠ ir.child → (g.merge il.child ir.child).dom x :=
    fun hx hxr => ⟨hx, hxr⟩
  have hhi : ∀ x, x ≠ il.child → (g.merge il.child ir.child).hi x = g.hi x := fun x hx => if_neg hx
  have hhil : (g.merge il.child ir.child).hi il.child = g.hi ir.child := if_pos rfl
  -- the children of the page given up name it as their parent
  have hrchild : ∀ x, (v.node il.child).isLeaf = false → x ∈ (v.node ir.child).items.map Item.child →
      (v.node x).parent = ir.child := by
    intro x hleaf hx
    have hl0 := h.lvl_ne_zero hl.dom hleaf
    have hr0 : g.lvl ir.child ≠ 0 := by omega
    exact h.parent_of_child hr.dom (h.internal _ hr.dom hr0).isLeaf hx
  have hitems' : ∀ x, x ≠ parent → x ≠ il.child → x ≠ ir.child →
      (v'.node x).items = (v.node x).items := by
    intro x h1 h2 h3
    rw [hs.others x h1 h2 h3]
  have hpar : ∀ x, x ≠ ir.child → (v.node x).parent ≠ ir.child →
      (v'.node x).parent = (v.node x).parent := by
    intro x hxr hxp
    by_cases hx1 : x = parent
    · rw [hx1, hs.parentNode]
    by_cases hx2 : x = il.child
    · rw [hx2, hs.parent_left]
    rw [hs.others x hx1 hx2 hxr]
    exact if_neg fun hc => hxp (hrchild x hc.1 hc.2)
  -- children other than the two neighbors keep their entries
  have hchild : ∀ {x item l u}, x ≠ ir.child → item.child ≠ il.child → item.child ≠ ir.child →
      Child rank v g none x item l u →
      Child rank v' (g.merge il.child ir.child) none x item l u := by
    intro x item l u hx hcl hcr hc
    exact
      { dom := hdom hc.dom hcr
        parent := by rw [hpar _ hcr (by rw [hc.parent]; exact hx)]; exact hc.parent
        lvl := hc.lvl
        lo := hc.lo
        cov := by rw [Layout.cov_none, hhi _ hcl]; exact hc.cov
        key := hc.key }
  have hnotlr : ∀ {x item l u}, x ≠ parent → Child rank v g none x item l u →
      item.child ≠ il.child ∧ item.child ≠ ir.child := by
    intro x item l u hx hc
    constructor <;> intro heq
    · exact hx (by rw [← hc.parent, heq, hl.parent])
    · exact hx (by rw [← hc.parent, heq, hr.parent])
  exact
    { headers := by simpa only [Pages.Allocated, hs.fileHeader] using h.headers
      alloc := by
        rintro x ⟨hx, hxr⟩
        obtain ⟨h2, ha, hd⟩ := h.alloc x hx
        refine ⟨h2, by rwa [Pages.Allocated, hs.fileHeader], fun hmem => ?_⟩
        exact (hs.disposed x hmem).elim hd hxr
      disposed := by
        intro x hx
        rcases hs.disposed x hx with hd | rfl
        · exact h.disposed x hd
        · exact h.nonneg hr.dom
      lt := by
        rintro x ⟨hx, hxr⟩
        by_cases hxl : x = il.child
        · rw [hxl, hhil]
          exact (h.lt _ hl.dom).trans (by rw [hmid]; exact h.lt _ hr.dom)
        · rw [hhi x hxl]
          exact h.lt x hx
      apart := by
        have key : ∀ y, g.dom y → y ≠ il.child → y ≠ ir.child → g.lvl il.child = g.lvl y →
            g.hi ir.child ≤ g.lo y ∨ g.hi y ≤ g.lo il.child := by
          intro y hy hyl hyr hly
          have hylt := h.lt y hy
          have h1 := h.apart il.child y hl.dom hy hly (Ne.symm hyl)
          have h2 := h.apart ir.child y hr.dom hy (by omega) (Ne.symm hyr)
          rcases h1 with h1 | h1
          · rcases h2 with h2 | h2
            · exact Or.inl h2
            · rw [hmid] at h1
              exact absurd (hylt.trans_le h2) (not_lt.mpr h1)
          · exact Or.inr h1
        rintro x y ⟨hx, hxr⟩ ⟨hy, hyr⟩ hxy hne
        by_cases hxl : x = il.child
        · subst hxl
          rw [hhil, hhi y (Ne.symm hne)]
          exact key y hy (Ne.symm hne) hyr hxy
        · by_cases hyl : y = il.child
          · subst hyl
            rw [hhil, hhi x hne]
            exact (key x hx hne hxr hxy.symm).symm
          · rw [hhi x hxl, hhi y hyl]
            exact h.apart x y hx hy hxy hne
      leaf := by
        rintro x ⟨hx, hxr⟩ hlx
        have hleaf := h.leaf x hx hlx
        have hxP : x ≠ parent := fun hc => hlP (hc ▸ hlx)
        by_cases hxl : x = il.child
        · subst hxl
          have hleafr := h.leaf _ hr.dom (show g.lvl ir.child = 0 by
            have : g.lvl il.child = 0 := hlx
            omega)
          refine ⟨hs.isLeaf_left.trans hleaf.isLeaf, ?_, ?_⟩
          · rw [hs.items_left, List.pairwise_append]
            refine ⟨hleaf.sorted, hleafr.sorted, fun a ha b hb => at_lt_at.mp ?_⟩
            exact (hleaf.bounds a ha).2.trans_le (hmid ▸ (hleafr.bounds b hb).1)
          · rw [hs.items_left, hhil]
            intro item hmem
            rcases List.mem_append.mp hmem with hm | hm
            · obtain ⟨h1, h2⟩ := hleaf.bounds item hm
              exact ⟨h1, (h2.trans_le hmid.le).trans (h.lt _ hr.dom)⟩
            · obtain ⟨h1, h2⟩ := hleafr.bounds item hm
              exact ⟨(h.lt _ hl.dom).le.trans (hmid ▸ h1), h2⟩
        · rw [hs.others x hxP hxl hxr, hhi x hxl]
          exact ⟨hleaf.isLeaf, hleaf.sorted, hleaf.bounds⟩
      internal := by
        rintro x ⟨hx, hxr⟩ hlx
        have hnode := h.internal x hx hlx
        by_cases hxP : x = parent
        · subst hxP
          refine ⟨?_, ?_, ?_⟩
          · rw [hs.parentNode]
            exact hnode.isLeaf
          · rw [hs.parentNode]
            simp
          rw [hs.parentNode, hhi x hPl, Cover.middle_iff]
          have hu1 : ∀ item, item ∈ js ∨ item ∈ ks → item.child ≠ il.child := fun item hm =>
            h.child_unique hP hlP hitems (hm.imp id fun hm => List.mem_cons_of_mem _ hm)
          have hu2 : ∀ item, item ∈ js ∨ item ∈ ks → item.child ≠ ir.child := fun item hm =>
            h.child_unique hP hlP
              (show (v.node _).items = (js ++ [il]) ++ ir :: ks by rw [hitems]; simp)
              (hm.imp (fun hm => List.mem_append_left _ hm) id)
          refine ⟨g.lo il.child, g.hi ir.child, ?_, ?_, ?_⟩
          · exact hjs.mono fun item hm l u hc =>
              hchild hPr (hu1 item (Or.inl hm)) (hu2 item (Or.inl hm)) hc
          · exact
              { dom := hdom hl.dom hlr
                parent := by rw [hs.parent_left]; exact hl.parent
                lvl := hl.lvl
                lo := rfl
                cov := hhil
                key := hl.key }
          · exact hks.mono fun item hm l u hc =>
              hchild hPr (hu1 item (Or.inr hm)) (hu2 item (Or.inr hm)) hc
        · by_cases hxl : x = il.child
          · subst hxl
            have hlx' : g.lvl il.child ≠ 0 := hlx
            have hnoder := h.internal _ hr.dom (show g.lvl ir.child ≠ 0 by omega)
            refine ⟨hs.isLeaf_left.trans hnode.isLeaf, ?_, ?_⟩
            · rw [hs.items_left]
              simp [hnode.ne_nil]
            rw [hs.items_left, hhil, Cover.append_iff]
            refine ⟨g.hi il.child, ?_, ?_⟩
            · exact hnode.cover.mono fun item hm l u hc =>
                hchild hlr (hnotlr hPl.symm hc).1 (hnotlr hPl.symm hc).2 hc
            · rw [hmid]
              refine hnoder.cover.mono fun item hm l u hc => ?_
              obtain ⟨h1, h2⟩ := hnotlr hPr.symm hc
              have hPc : item.child ≠ parent := fun heq => by
                have := hc.lvl
                rw [heq] at this
                omega
              exact
                { dom := hdom hc.dom h2
                  parent := by
                    rw [hs.others _ hPc h1 h2]
                    simp [hnode.isLeaf, List.mem_map_of_mem hm]
                  lvl := by rw [show (g.merge il.child ir.child).lvl = g.lvl from rfl, hc.lvl]; omega
                  lo := hc.lo
                  cov := by rw [Layout.cov_none, hhi _ h1]; exact hc.cov
                  key := hc.key }
          · refine ⟨?_, ?_, ?_⟩
            · rw [hs.others x hxP hxl hxr]
              exact hnode.isLeaf
            · rw [hitems' x hxP hxl hxr]
              exact hnode.ne_nil
            rw [hitems' x hxP hxl hxr, hhi x hxl]
            exact hnode.cover.mono fun item hm l u hc =>
              hchild hxr (hnotlr hxP hc).1 (hnotlr hxP hc).2 hc
      next := by
        rintro x ⟨hx, hxr⟩ hlx
        have hlx' : g.lvl x = 0 := hlx
        have hxP : x ≠ parent := fun hc => hlP (hc ▸ hlx)
        by_cases hxl : x = il.child
        · subst hxl
          rw [hs.next_left (h.leaf _ hx hlx).isLeaf, hhil]
          refine (h.next _ hr.dom (by omega)).imp id ?_
          rintro ⟨hd, hln, hlon⟩
          refine ⟨hdom hd fun hc => ?_, hln, hlon⟩
          rw [hc] at hlon
          exact absurd (h.lt _ hr.dom) (by rw [hlon]; exact lt_irrefl _)
        · rw [hs.others x hxP hxl hxr, hhi x hxl]
          refine (h.next x hx hlx).imp id ?_
          rintro ⟨hd, hln, hlon⟩
          refine ⟨hdom hd fun hc => ?_, hln, hlon⟩
          -- only the left neighbor is followed by the page given up
          rw [hc, ← hmid] at hlon
          rcases h.apart x il.child hx hl.dom (by rw [hc] at hln; omega) hxl with h1 | h1
          · rw [← hlon] at h1
            exact absurd (h.lt _ hl.dom) (not_lt.mpr h1)
          · rw [hlon] at h1
            exact absurd (h.lt x hx) (not_lt.mpr h1)
      up := by
        rintro x ⟨hx, hxr⟩ hxroot _
        rw [hs.rootPage] at hxroot
        obtain ⟨hd, hlp, item, hmem, hc⟩ := h.up x hx hxroot (by simp)
        by_cases hxp : (v.node x).parent = ir.child
        · -- a child of the page given up is now a child of its left neighbor
          rw [hxp] at hd hlp hmem
          have hl0 : g.lvl il.child ≠ 0 := by omega
          have hleaf := (h.internal _ hl.dom hl0).isLeaf
          have hxP : x ≠ parent := fun heq => by
            obtain ⟨l, u, hch, -⟩ := h.child_of_mem hd hlp hmem
            have := hch.lvl
            rw [hc, heq] at this
            omega
          have hxl : x ≠ il.child := fun heq => by
            rw [heq, hl.parent] at hxp
            exact hPr hxp
          have hin : x ∈ (v.node ir.child).items.map Item.child := hc ▸ List.mem_map_of_mem hmem
          rw [hs.others x hxP hxl hxr]
          simp only [hleaf, hin, and_self, if_true]
          refine ⟨hdom hl.dom hlr, hl0, item, ?_, hc⟩
          rw [hs.items_left]
          exact List.mem_append_right _ hmem
        · rw [hpar x hxr hxp]
          refine ⟨hdom hd hxp, hlp, item, ?_, hc⟩
          by_cases h1 : (v.node x).parent = parent
          · rw [h1] at hmem ⊢
            rw [hs.parentNode]
            rw [hitems] at hmem
            have hne : item ≠ ir := fun heq => hxr (by rw [← hc, heq])
            simp only [List.mem_append, List.mem_cons] at hmem ⊢
            tauto
          · by_cases h2 : (v.node x).parent = il.child
            · rw [h2] at hmem ⊢
              rw [hs.items_left]
              exact List.mem_append_left _ hmem
            · rwa [hitems' _ h1 h2 hxp]
      lvl_le := by
        rw [hs.rootPage]
        exact fun x hx => h.lvl_le x hx.1
      root := by
        have hrt := h.dom_root hP
        obtain ⟨hlo, hcov, hrp⟩ := h.root_bounds hrt
        refine Or.inr ?_
        rw [hs.rootPage]
        have hrl : v.rootPage ≠ il.child := by
          intro hc
          rw [hc, hl.parent] at hrp
          exact h.ne_invalid hP hrp
        refine ⟨hdom hrt hrroot, hlo, by rw [Layout.cov_none, hhi _ hrl]; exact hcov, ?_⟩
        rw [hpar _ hrroot (by rw [hrp]; exact (h.ne_invalid hr.dom).symm)]
        exact hrp
      split := by simp }

theorem entry_mergeInto (h : TreeInv rank v g none) (hP : g.dom parent) (hlP : g.lvl parent ≠ 0)
    (hitems : (v.node parent).items = js ++ il :: ir :: ks)
    (hs : MergeInto v v' parent il.child ir.child (js ++ il :: ks)) (item : Item κ) :
    Entry v' (g.merge il.child ir.child) item ↔ Entry v g item := by
  obtain ⟨-, hl, hr, -, -⟩ := h.neighbors hP hlP hitems
  have hlP' := hl.lvl
  have hrP' := hr.lvl
  have hlr := h.neighbors_ne hP hlP hitems
  have hxP : ∀ x, g.lvl x = 0 → x ≠ parent := fun x hlx hc => hlP (hc ▸ hlx)
  constructor
  · rintro ⟨x, ⟨hx, hxr⟩, hlx, hmem⟩
    have hlx' : g.lvl x = 0 := hlx
    by_cases hxl : x = il.child
    · subst hxl
      rw [hs.items_left] at hmem
      rcases List.mem_append.mp hmem with hm | hm
      · exact ⟨_, hx, hlx, hm⟩
      · exact ⟨_, hr.dom, by omega, hm⟩
    · rw [hs.others x (hxP x hlx) hxl hxr] at hmem
      exact ⟨x, hx, hlx, hmem⟩
  · rintro ⟨x, hx, hlx, hmem⟩
    by_cases hxr : x = ir.child
    · subst hxr
      refine ⟨il.child, ⟨hl.dom, hlr⟩, show g.lvl il.child = 0 by omega, ?_⟩
      rw [hs.items_left]
      exact List.mem_append_right _ hmem
    · by_cases hxl : x = il.child
      · subst hxl
        refine ⟨_, ⟨hx, hxr⟩, hlx, ?_⟩
        rw [hs.items_left]
        exact List.mem_append_left _ hmem
      · refine ⟨x, ⟨hx, hxr⟩, hlx, ?_⟩
        rwa [hs.others x (hxP x hlx) hxl hxr]

end Merge

end TreeInv

/-! ## The root goes away -/

/-- The layout without the page `r`. -/
def Layout.drop (g : Layout ρ) (r : PageNum) : Layout ρ :=
  { g with dom := fun x => g.dom x ∧ x ≠ r }

/-- The layout of the tree without pages. -/
def Layout.empty : Layout ρ where
  dom _ := False
  lvl _ := 0
  lo _ := ⊥
  hi _ := ⊤

/-- The pages after the only child of the root has become the root. -/
structure ShrinkRoot (v v' : Pages κ) (child : PageNum) : Prop where
  rootPage : v'.rootPage = child
  fileHeader : v'.fileHeader = v.fileHeader
  disposed : ∀ x ∈ v'.disposedPages, x ∈ v.disposedPages ∨ x = v.rootPage
  childNode : v'.node child = { v.node child with parent := bpInvalidPageNum }
  others : ∀ x, x ≠ child → v'.node x = v.node x

theorem ShrinkRoot.node_eq {child : PageNum} (hs : ShrinkRoot v v' child) (x : PageNum) :
    ∃ parent, v'.node x = { v.node x with parent } := by
  by_cases hx : x = child
  · exact ⟨_, hx ▸ hs.childNode⟩
  · exact ⟨_, hs.others x hx⟩

/-- The pages after the tree has lost its root, a leaf. -/
structure DropRoot (v v' : Pages κ) : Prop where
  rootPage : v'.rootPage = bpInvalidPageNum
  fileHeader : v'.fileHeader = v.fileHeader
  disposed : ∀ x ∈ v'.disposedPages, x ∈ v.disposedPages ∨ x = v.rootPage

namespace TreeInv

section Root

variable {it : Item κ}

theorem shrinkRoot (h : TreeInv rank v g none) (hroot : g.dom v.rootPage)
    (hl : g.lvl v.rootPage ≠ 0) (hitems : (v.node v.rootPage).items = [it])
    (hs : ShrinkRoot v v' it.child) : TreeInv rank v' (g.drop v.rootPage) none := by
  obtain ⟨hrlo, hrhi, -⟩ := h.root_bounds hroot
  have hcov := (h.internal _ hroot hl).cover
  rw [hitems, Cover.singleton_iff] at hcov
  have hclvl := hcov.lvl
  have hcr : it.child ≠ v.rootPage := fun hc => by rw [hc] at hclvl; omega
  have hitems' : ∀ x, (v'.node x).items = (v.node x).items := by
    intro x
    obtain ⟨_, hx⟩ := hs.node_eq x
    rw [hx]
  have hleaf' : ∀ x, (v'.node x).isLeaf = (v.node x).isLeaf := by
    intro x
    obtain ⟨_, hx⟩ := hs.node_eq x
    rw [hx]
  have hnext' : ∀ x, (v'.node x).nextBrother = (v.node x).nextBrother := by
    intro x
    obtain ⟨_, hx⟩ := hs.node_eq x
    rw [hx]
  exact
    { headers := by simpa only [Pages.Allocated, hs.fileHeader] using h.headers
      alloc := by
        rintro x ⟨hx, hxr⟩
        obtain ⟨h2, ha, hd⟩ := h.alloc x hx
        refine ⟨h2, by rwa [Pages.Allocated, hs.fileHeader], fun hmem => ?_⟩
        exact (hs.disposed x hmem).elim hd hxr
      disposed := by
        intro x hx
        rcases hs.disposed x hx with hd | rfl
        · exact h.disposed x hd
        · exact h.nonneg hroot
      lt := fun x hx => h.lt x hx.1
      apart := fun x y hx hy => h.apart x y hx.1 hy.1
      leaf := by
        rintro x ⟨hx, -⟩ hlx
        have hleaf := h.leaf x hx hlx
        exact ⟨(hleaf' x).trans hleaf.isLeaf, by rw [hitems']; exact hleaf.sorted,
          by rw [hitems']; exact hleaf.bounds⟩
      internal := by
        rintro x ⟨hx, hxr⟩ hlx
        have hnode := h.internal x hx hlx
        refine ⟨(hleaf' x).trans hnode.isLeaf, by rw [hitems']; exact hnode.ne_nil, ?_⟩
        rw [hitems']
        refine hnode.cover.mono fun item hm l u hc => ?_
        have hci : item.child ≠ it.child := fun heq => by
          have h1 := hc.parent
          rw [heq, hcov.parent] at h1
          exact hxr h1.symm
        have hcroot : item.child ≠ v.rootPage := fun heq => by
          have h1 := hc.lvl
          have h2 := h.lvl_le x hx
          rw [heq] at h1
          omega
        exact
          { hc with
            dom := ⟨hc.dom, hcroot⟩
            parent := by rw [hs.others _ hci]; exact hc.parent }
      next := by
        rintro x ⟨hx, hxr⟩ hlx
        rw [hnext']
        refine (h.next x hx hlx).imp id ?_
        rintro ⟨hd, hln, hlon⟩
        exact ⟨⟨hd, fun hc => hl (hc ▸ hln)⟩, hln, hlon⟩
      up := by
        rintro x ⟨hx, hxr⟩ hxroot _
        rw [hs.rootPage] at hxroot
        obtain ⟨hd, hlp, item, hmem, hc⟩ := h.up x hx hxr (by simp)
        rw [hs.others x hxroot]
        refine ⟨⟨hd, fun heq => hxroot ?_⟩, hlp, item, by rwa [hitems'], hc⟩
        rw [heq, hitems] at hmem
        rw [← hc, List.mem_singleton.mp hmem]
      lvl_le := by
        rintro x ⟨hx, hxr⟩
        rw [hs.rootPage]
        have h1 := h.lvl_le x hx
        have h2 : g.lvl x ≠ g.lvl v.rootPage := fun hc =>
          (h.eq_root_of_lvl hx hc).elim hxr (by simp)
        change g.lvl x ≤ g.lvl it.child
        omega
      root := by
        refine Or.inr ?_
        rw [hs.rootPage, hs.childNode]
        exact ⟨⟨hcov.dom, hcr⟩, hcov.lo.trans hrlo, hcov.cov.trans hrhi, rfl⟩
      split := by simp }

omit [LinearOrder ρ] in
theorem entry_shrinkRoot (hl : g.lvl v.rootPage ≠ 0) (hs : ShrinkRoot v v' it.child)
    {item : Item κ} : Entry v' (g.drop v.rootPage) item ↔ Entry v g item := by
  have hitems' : ∀ x, (v'.node x).items = (v.node x).items := by
    intro x
    obtain ⟨_, hx⟩ := hs.node_eq x
    rw [hx]
  constructor
  · rintro ⟨x, ⟨hx, -⟩, hlx, hmem⟩
    exact ⟨x, hx, hlx, by rwa [hitems'] at hmem⟩
  · rintro ⟨x, hx, hlx, hmem⟩
    exact ⟨x, ⟨hx, fun hc => hl (hc ▸ hlx)⟩, hlx, by rwa [hitems']⟩

theorem dropRoot (h : TreeInv rank v g none) (hroot : g.dom v.rootPage) (hs : DropRoot v v') :
    TreeInv rank v' Layout.empty none where
  headers := by simpa only [Pages.Allocated, hs.fileHeader] using h.headers
  alloc := by simp [Layout.empty]
  disposed := by
    intro x hx
    rcases hs.disposed x hx with hd | rfl
    · exact h.disposed x hd
    · exact h.nonneg hroot
  lt := by simp [Layout.empty]
  apart := by simp [Layout.empty]
  leaf := by simp [Layout.empty]
  internal := by simp [Layout.empty]
  next := by simp [Layout.empty]
  up := by simp [Layout.empty]
  lvl_le := by simp [Layout.empty]
  root := Or.inl ⟨hs.rootPage, by simp [Layout.empty]⟩
  split := by simp

omit [LinearOrder ρ] in
@[simp] theorem not_entry_empty (item : Item κ) :
    ¬ Entry v (Layout.empty : Layout ρ) item := by
  simp [Entry, Layout.empty]

theorem not_entry_of_empty_root (h : TreeInv rank v g none) (hl : g.lvl v.rootPage = 0)
    (hitems : (v.node v.rootPage).items = []) (item : Item κ) : ¬ Entry v g item := by
  rintro ⟨x, hx, hlx, hmem⟩
  rcases h.eq_root_of_lvl hx (hlx.trans hl.symm) with rfl | hc
  · rw [hitems] at hmem
    exact absurd hmem (by simp)
  · simp at hc

end Root

end TreeInv

/-! ## The first leaf -/

/-- The layout of a tree that consists of one leaf. -/
def Layout.single (p : PageNum) : Layout ρ where
  dom x := x = p
  lvl _ := 0
  lo _ := ⊥
  hi _ := ⊤

/-- The pages after a tree has been created on the page `p`. -/
structure NewTree (v v' : Pages κ) (p : PageNum) (item : Item κ) : Prop where
  rootPage : v'.rootPage = p
  alloc : ∀ x, v.Allocated x → v'.Allocated x
  new : v'.Allocated p
  disposed : v'.disposedPages = v.disposedPages
  node : v'.node p = ⟨true, bpInvalidPageNum, bpInvalidPageNum, [item]⟩

theorem TreeInv.newTree (h : TreeInv rank v g none) {p : PageNum} (hp2 : 2 ≤ p)
    (hpd : p ∉ v.disposedPages) {item : Item κ} (hs : NewTree v v' p item) :
    TreeInv rank v' (Layout.single p) none where
  headers := ⟨hs.alloc _ h.headers.1, hs.alloc _ h.headers.2⟩
  alloc := by
    rintro x rfl
    exact ⟨hp2, hs.new, by rwa [hs.disposed]⟩
  disposed := by
    rw [hs.disposed]
    exact h.disposed
  lt := by simp [Layout.single]
  apart := by
    rintro x y rfl rfl _ hne
    exact absurd rfl hne
  leaf := by
    rintro x rfl _
    rw [hs.node]
    exact ⟨rfl, by simp, by simp [Layout.single]⟩
  internal := fun x _ hlx => absurd rfl hlx
  next := by
    rintro x rfl _
    rw [hs.node]
    exact Or.inl ⟨rfl, rfl⟩
  up := by
    rintro x rfl hxr _
    exact absurd hs.rootPage.symm hxr
  lvl_le := fun x _ => le_rfl
  root := by
    refine Or.inr ?_
    rw [hs.rootPage, hs.node]
    exact ⟨rfl, rfl, rfl, rfl⟩
  split := by simp

omit [LinearOrder ρ] in
theorem entry_newTree {p : PageNum} {new item : Item κ} (hs : NewTree v v' p new) :
    Entry v' (Layout.single p : Layout ρ) item ↔ item = new := by
  constructor
  · rintro ⟨x, rfl, -, hmem⟩
    rw [hs.node] at hmem
    simpa using hmem
  · rintro rfl
    exact ⟨p, rfl, rfl, by rw [hs.node]; simp⟩

end ObHtap
