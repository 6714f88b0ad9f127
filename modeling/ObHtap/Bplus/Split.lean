import ObHtap.Bplus.Invariant

/-!
# Splitting a page and telling its parent

The page-level steps of an insertion, apart from the order in which the code performs them: an
item enters a leaf, a page is split in two, and the new page enters the parent or a new root.
Each step keeps the invariant; the last two move the hole up or close it.
-/

namespace ObHtap

open ObHtap.Bound

variable {κ ρ : Type} [LinearOrder ρ] {rank : κ → ρ} {v v' : Pages κ} {g : Layout ρ}
  {hole : Option (PageNum × PageNum)}

/-! ## Items of a leaf -/

theorem TreeInv.setLeaf (h : TreeInv rank v g none) {p : PageNum} (hp : g.dom p)
    (hl : g.lvl p = 0) {items : List (Item κ)}
    (hleaf : LeafNode rank { v.node p with items } (g.lo p) (g.hi p)) :
    TreeInv rank (v.setNode p { v.node p with items }) g none := by
  have hparent : ∀ x, ((v.setNode p { v.node p with items }).node x).parent = (v.node x).parent := by
    intro x
    simp only [Pages.setNode]
    split_ifs with hx <;> simp [hx]
  have hnext : ∀ x, ((v.setNode p { v.node p with items }).node x).nextBrother =
      (v.node x).nextBrother := by
    intro x
    simp only [Pages.setNode]
    split_ifs with hx <;> simp [hx]
  have hnode : ∀ x, x ≠ p → (v.setNode p { v.node p with items }).node x = v.node x := by
    intro x hx
    simp [Pages.setNode, hx]
  exact
    { headers := h.headers
      alloc := h.alloc
      disposed := h.disposed
      lt := h.lt
      apart := h.apart
      leaf := by
        intro x hx hlx
        by_cases hxp : x = p
        · subst hxp
          simpa [Pages.setNode] using hleaf
        · rw [hnode x hxp]
          exact h.leaf x hx hlx
      internal := by
        intro x hx hlx
        have hxp : x ≠ p := by
          rintro rfl
          exact hlx hl
        obtain ⟨hi, hne, hcov⟩ := h.internal x hx hlx
        refine ⟨by rw [hnode x hxp]; exact hi, by rw [hnode x hxp]; exact hne, ?_⟩
        rw [hnode x hxp]
        exact hcov.mono fun item _ l u hc => { hc with parent := (hparent _).trans hc.parent }
      next := by
        intro x hx hlx
        rw [hnext]
        exact h.next x hx hlx
      up := by
        intro x hx hroot horphan
        obtain ⟨hd, hlp, item, hmem, hc⟩ := h.up x hx hroot horphan
        have hne : (v.node x).parent ≠ p := fun hcon => hlp (hcon ▸ hl)
        rw [hparent, hnode _ hne]
        exact ⟨hd, hlp, item, hmem, hc⟩
      lvl_le := h.lvl_le
      root := by
        rcases h.root with hr | ⟨hd, hlo, hcov, hpar⟩
        · exact Or.inl hr
        · exact Or.inr ⟨hd, hlo, hcov, (hparent _).trans hpar⟩
      split := h.split }

theorem TreeInv.leaf_of_entry (h : TreeInv rank v g none) {p q : PageNum} (hp : g.dom p)
    (hlp : g.lvl p = 0) (hq : g.dom q) (hlq : g.lvl q = 0) {item item' : Item κ}
    (hmp : item ∈ (v.node p).items) (hmq : item' ∈ (v.node q).items)
    (hrank : rank item.key = rank item'.key) : p = q := by
  have h1 := (h.leaf p hp hlp).bounds item hmp
  have h2 := (h.leaf q hq hlq).bounds item' hmq
  rw [← hrank] at h2
  exact h.eq_of_common hp hq (hlp.trans hlq.symm) h1 h2

omit [LinearOrder ρ] in
theorem entry_setLeaf {p : PageNum} (hp : g.dom p) (hl : g.lvl p = 0) {items : List (Item κ)}
    {item : Item κ} :
    Entry (v.setNode p { v.node p with items }) g item ↔
      item ∈ items ∨ ∃ q, q ≠ p ∧ g.dom q ∧ g.lvl q = 0 ∧ item ∈ (v.node q).items := by
  constructor
  · rintro ⟨q, hq, hlq, hmem⟩
    by_cases hqp : q = p
    · subst hqp
      exact Or.inl (by simpa [Pages.setNode] using hmem)
    · exact Or.inr ⟨q, hqp, hq, hlq, by simpa [Pages.setNode, hqp] using hmem⟩
  · rintro (hmem | ⟨q, hqp, hq, hlq, hmem⟩)
    · exact ⟨p, hp, hl, by simpa [Pages.setNode] using hmem⟩
    · exact ⟨q, hq, hlq, by simpa [Pages.setNode, hqp] using hmem⟩

omit [LinearOrder ρ] in
theorem entry_insertLeaf {p : PageNum} (hp : g.dom p) (hl : g.lvl p = 0)
    {js ks : List (Item κ)} (hitems : (v.node p).items = js ++ ks) {new item : Item κ} :
    Entry (v.setNode p { v.node p with items := js ++ new :: ks }) g item ↔
      Entry v g item ∨ item = new := by
  rw [entry_setLeaf hp hl]
  constructor
  · rintro (hmem | ⟨q, -, hq, hlq, hmem⟩)
    · have : item ∈ js ++ ks ∨ item = new := by
        simp only [List.mem_append, List.mem_cons] at hmem ⊢
        tauto
      exact this.imp (fun hm => ⟨p, hp, hl, by rw [hitems]; exact hm⟩) id
    · exact Or.inl ⟨q, hq, hlq, hmem⟩
  · rintro (⟨q, hq, hlq, hmem⟩ | rfl)
    · by_cases hqp : q = p
      · subst hqp
        rw [hitems] at hmem
        refine Or.inl ?_
        simp only [List.mem_append, List.mem_cons] at hmem ⊢
        tauto
      · exact Or.inr ⟨q, hqp, hq, hlq, hmem⟩
    · exact Or.inl (by simp)

theorem TreeInv.entry_removeLeaf (h : TreeInv rank v g none) {p : PageNum} (hp : g.dom p)
    (hl : g.lvl p = 0) {js ks : List (Item κ)} {old : Item κ}
    (hitems : (v.node p).items = js ++ old :: ks) {item : Item κ} :
    Entry (v.setNode p { v.node p with items := js ++ ks }) g item ↔
      Entry v g item ∧ rank item.key ≠ rank old.key := by
  have hold : old ∈ (v.node p).items := by rw [hitems]; simp
  have hsorted := (h.leaf p hp hl).sorted
  rw [hitems, List.pairwise_append, List.pairwise_cons] at hsorted
  obtain ⟨-, ⟨hks, -⟩, hjs⟩ := hsorted
  rw [entry_setLeaf hp hl]
  constructor
  · rintro (hmem | ⟨q, hqp, hq, hlq, hmem⟩)
    · refine ⟨⟨p, hp, hl, ?_⟩, ?_⟩
      · rw [hitems]
        simp only [List.mem_append, List.mem_cons] at hmem ⊢
        tauto
      · rcases List.mem_append.mp hmem with hm | hm
        · exact (hjs item hm old (by simp)).ne
        · exact (hks item hm).ne'
    · refine ⟨⟨q, hq, hlq, hmem⟩, fun hrank => hqp ?_⟩
      exact h.leaf_of_entry hq hlq hp hl hmem hold hrank
  · rintro ⟨⟨q, hq, hlq, hmem⟩, hne⟩
    by_cases hqp : q = p
    · subst hqp
      refine Or.inl ?_
      rw [hitems] at hmem
      simp only [List.mem_append, List.mem_cons] at hmem ⊢
      rcases hmem with hm | rfl | hm
      · exact Or.inl hm
      · exact absurd rfl hne
      · exact Or.inr hm
    · exact Or.inr ⟨q, hqp, hq, hlq, hmem⟩

/-! ## A page is split in two -/

/-- The layout after the right part of `p`, from `mid` on, has moved to the page `q`. -/
def Layout.split (g : Layout ρ) (p q : PageNum) (mid : Bound ρ) : Layout ρ where
  dom x := x = q ∨ g.dom x
  lvl x := if x = q then g.lvl p else g.lvl x
  lo x := if x = q then mid else g.lo x
  hi x := if x = q then g.hi p else if x = p then mid else g.hi x

/-- The pages after the items of `p` have been divided between `p` and the new page `q`. -/
structure SplitInto (v v' : Pages κ) (p q : PageNum) (left right : List (Item κ)) : Prop where
  rootPage : v'.rootPage = v.rootPage
  alloc : ∀ x, v.Allocated x → v'.Allocated x
  new : v'.Allocated q
  disposed : v'.disposedPages = v.disposedPages
  items_left : (v'.node p).items = left
  items_right : (v'.node q).items = right
  isLeaf_left : (v'.node p).isLeaf = (v.node p).isLeaf
  isLeaf_right : (v'.node q).isLeaf = (v.node p).isLeaf
  parent_left : (v'.node p).parent = (v.node p).parent
  next_left : (v.node p).isLeaf = true → (v'.node p).nextBrother = q
  next_right : (v.node p).isLeaf = true → (v'.node q).nextBrother = (v.node p).nextBrother
  others : ∀ x, x ≠ p → x ≠ q → v'.node x =
    { v.node x with
      parent := if (v.node p).isLeaf = false ∧ x ∈ right.map Item.child then q
        else (v.node x).parent }

namespace TreeInv

section Split

variable {p q : PageNum} {left right : List (Item κ)} {first : Item κ}

/-- A child of the page split does not stay on the left when it is on the right. -/
theorem child_left_not_right (h : TreeInv rank v g none) (hp : g.dom p) (hl : g.lvl p ≠ 0)
    (hitems : (v.node p).items = left ++ right) {item : Item κ} (hmem : item ∈ left) :
    item.child ∉ right.map Item.child := by
  intro hc
  obtain ⟨item', hmem', heq⟩ := List.mem_map.mp hc
  have hcov := (h.internal p hp hl).cover
  rw [hitems, Cover.append_iff] at hcov
  obtain ⟨m, hleft, hright⟩ := hcov
  obtain ⟨l, u, hc1, -, hum⟩ := hleft.mem_bounds (fun _ _ _ => h.child_lt) hmem
  obtain ⟨l', u', hc2, hml, -⟩ := hright.mem_bounds (fun _ _ _ => h.child_lt) hmem'
  have hll : l' = l := by rw [← hc1.lo, ← hc2.lo, heq]
  exact absurd ((h.child_lt hc1).trans_le hum) (not_lt.mpr (hll ▸ hml))

/-- The key of the first item on the right is where the intervals of the two halves meet. -/
theorem cover_split (h : TreeInv rank v g none) (hp : g.dom p) (hl : g.lvl p ≠ 0)
    (hitems : (v.node p).items = left ++ first :: right) (hleft : left ≠ []) :
    Cover (Child rank v g none p) (g.lo p) left (at_ (rank first.key)) ∧
      Cover (Child rank v g none p) (at_ (rank first.key)) (first :: right) (g.hi p) := by
  have hcov := (h.internal p hp hl).cover
  rw [hitems, Cover.append_iff] at hcov
  obtain ⟨m, hcl, hcr⟩ := hcov
  have hlt : g.lo p < m := hcl.lt (fun _ _ _ => h.child_lt) hleft
  obtain ⟨n, hfirst, hrest⟩ := hcr
  have hm : m = at_ (rank first.key) :=
    hfirst.key.resolve_left fun hbot => absurd hlt (by rw [hbot]; exact not_lt.mpr bot_le)
  subst hm
  exact ⟨hcl, n, hfirst, hrest⟩

theorem mid_bounds (h : TreeInv rank v g none) (hp : g.dom p)
    (hitems : (v.node p).items = left ++ first :: right) (hleft : left ≠ []) :
    g.lo p < at_ (rank first.key) ∧ at_ (rank first.key) < g.hi p := by
  by_cases hl : g.lvl p = 0
  · have hleaf := h.leaf p hp hl
    have hmem : first ∈ (v.node p).items := by rw [hitems]; simp
    refine ⟨?_, (hleaf.bounds first hmem).2⟩
    obtain ⟨a, left, rfl⟩ := List.exists_cons_of_ne_nil hleft
    have ha := (hleaf.bounds a (by rw [hitems]; simp)).1
    have hsorted := hleaf.sorted
    rw [hitems, List.pairwise_append] at hsorted
    have : rank a.key < rank first.key := hsorted.2.2 a (by simp) first (by simp)
    exact ha.trans_lt (at_lt_at.mpr this)
  · obtain ⟨hcl, hcr⟩ := h.cover_split hp hl hitems hleft
    exact ⟨hcl.lt (fun _ _ _ => h.child_lt) hleft,
      hcr.lt (fun _ _ _ => h.child_lt) (List.cons_ne_nil _ _)⟩

/-- A page has been split, and its new half is not yet known to the parent. -/
theorem splitInto (h : TreeInv rank v g none) (hp : g.dom p) (hq : ¬ g.dom q) (hq2 : 2 ≤ q)
    (hqd : q ∉ v.disposedPages) (hitems : (v.node p).items = left ++ first :: right)
    (hleft : left ≠ []) (hs : SplitInto v v' p q left (first :: right)) :
    TreeInv rank v' (g.split p q (at_ (rank first.key))) (some (p, q)) := by
  obtain ⟨hlomid, hmidhi⟩ := h.mid_bounds hp hitems hleft
  have hpq : p ≠ q := fun hc => hq (hc ▸ hp)
  have hne : ∀ x, g.dom x → x ≠ q := fun x hx hc => hq (hc ▸ hx)
  have hlo : ∀ x, g.dom x → (g.split p q (at_ (rank first.key))).lo x = g.lo x :=
    fun x hx => if_neg (hne x hx)
  have hlvl : ∀ x, g.dom x → (g.split p q (at_ (rank first.key))).lvl x = g.lvl x :=
    fun x hx => if_neg (hne x hx)
  have hcov : ∀ x, g.dom x →
      (g.split p q (at_ (rank first.key))).cov (some (p, q)) x = g.hi x := by
    intro x hx
    by_cases hxp : x = p
    · subst hxp
      simp [Layout.split]
    · rw [Layout.cov_some_of_ne _ hxp]
      simp [Layout.split, hne x hx, hxp]
  have hright : ∀ x, (v.node p).isLeaf = false → x ∈ (first :: right).map Item.child →
      (v.node x).parent = p := by
    intro x hpl hx
    refine h.parent_of_child hp hpl ?_
    rw [hitems, List.map_append]
    exact List.mem_append_right _ hx
  -- what a child of any page becomes, once its parent entry is known
  have hchild : ∀ {x x' item l u}, g.lvl x = (g.split p q (at_ (rank first.key))).lvl x' →
      (v'.node item.child).parent = x' → Child rank v g none x item l u →
      Child rank v' (g.split p q (at_ (rank first.key))) (some (p, q)) x' item l u := by
    intro x x' item l u hxx' hpar hc
    exact
      { dom := Or.inr hc.dom
        parent := hpar
        lvl := by rw [hlvl _ hc.dom, hc.lvl, hxx']
        lo := by rw [hlo _ hc.dom, hc.lo]
        cov := by rw [hcov _ hc.dom]; exact hc.cov
        key := hc.key }
  exact
    { headers := ⟨hs.alloc _ h.headers.1, hs.alloc _ h.headers.2⟩
      alloc := by
        rintro x (rfl | hx)
        · exact ⟨hq2, hs.new, by rwa [hs.disposed]⟩
        · obtain ⟨h2, ha, hd⟩ := h.alloc x hx
          exact ⟨h2, hs.alloc x ha, by rwa [hs.disposed]⟩
      disposed := by
        rw [hs.disposed]
        exact h.disposed
      lt := by
        rintro x (rfl | hx)
        · simpa [Layout.split] using hmidhi
        · by_cases hxp : x = p
          · subst hxp
            simpa [Layout.split, hpq] using hlomid
          · simpa [Layout.split, hne x hx, hxp] using h.lt x hx
      apart := by
        rintro x y (rfl | hx) (rfl | hy) hxy hne'
        · exact absurd rfl hne'
        · by_cases hyp : y = p
          · subst hyp
            exact Or.inr (by simp [Layout.split, hpq])
          · have := h.apart p y hp hy (by simpa [Layout.split, hne y hy] using hxy) (Ne.symm hyp)
            simp only [Layout.split, hne y hy, hyp, if_true, if_false]
            exact this.imp id fun hle => hle.trans hlomid.le
        · by_cases hxp : x = p
          · subst hxp
            exact Or.inl (by simp [Layout.split, hpq])
          · have := h.apart x p hx hp (by simpa [Layout.split, hne x hx] using hxy) hxp
            simp only [Layout.split, hne x hx, hxp, if_true, if_false]
            exact this.imp (fun hle => hle.trans hlomid.le) id
        · have := h.apart x y hx hy (by simpa [Layout.split, hne x hx, hne y hy] using hxy) hne'
          simp only [Layout.split, hne x hx, hne y hy, if_false]
          by_cases hxp : x = p
          · subst hxp
            rw [if_pos rfl, if_neg (Ne.symm hne')]
            exact this.imp (fun hle => hmidhi.le.trans hle) id
          · by_cases hyp : y = p
            · subst hyp
              rw [if_pos rfl, if_neg hxp]
              exact this.imp id fun hle => hmidhi.le.trans hle
            · rwa [if_neg hxp, if_neg hyp]
      leaf := by
        rintro x (rfl | hx) hlx
        · have hl : g.lvl p = 0 := by simpa [Layout.split] using hlx
          have hleaf := h.leaf p hp hl
          have hsorted := hleaf.sorted
          rw [hitems, List.pairwise_append] at hsorted
          refine ⟨hs.isLeaf_right.trans hleaf.isLeaf, by rw [hs.items_right]; exact hsorted.2.1, ?_⟩
          rw [hs.items_right]
          intro item hmem
          have hb := (hleaf.bounds item (by rw [hitems]; exact List.mem_append_right _ hmem)).2
          simp only [Layout.split, if_true]
          refine ⟨?_, hb⟩
          rcases List.mem_cons.mp hmem with rfl | hm
          · exact le_rfl
          · exact (at_lt_at.mpr ((List.pairwise_cons.mp hsorted.2.1).1 item hm)).le
        · have hlx' : g.lvl x = 0 := by simpa [Layout.split, hne x hx] using hlx
          have hleaf := h.leaf x hx hlx'
          by_cases hxp : x = p
          · subst hxp
            have hsorted := hleaf.sorted
            rw [hitems, List.pairwise_append] at hsorted
            refine ⟨hs.isLeaf_left.trans hleaf.isLeaf, by rw [hs.items_left]; exact hsorted.1, ?_⟩
            rw [hs.items_left]
            intro item hmem
            have hb := (hleaf.bounds item (by rw [hitems]; exact List.mem_append_left _ hmem)).1
            simp only [Layout.split, hpq, if_true, if_false]
            exact ⟨hb, at_lt_at.mpr (hsorted.2.2 item hmem first (by simp))⟩
          · rw [hs.others x hxp (hne x hx)]
            simp only [Layout.split, hne x hx, hxp, if_false]
            exact ⟨hleaf.isLeaf, hleaf.sorted, hleaf.bounds⟩
      internal := by
        rintro x (rfl | hx) hlx
        · have hl : g.lvl p ≠ 0 := by simpa [Layout.split] using hlx
          have hnode := h.internal p hp hl
          refine ⟨hs.isLeaf_right.trans hnode.isLeaf, by rw [hs.items_right]; simp, ?_⟩
          rw [hs.items_right]
          have hcr := (h.cover_split hp hl hitems hleft).2
          simp only [Layout.split, if_true]
          refine hcr.mono fun item hmem l u hc => hchild (by simp [Layout.split]) ?_ hc
          have hcp : item.child ≠ p := fun heq => by have := hc.lvl; rw [heq] at this; omega
          rw [hs.others _ hcp (hne _ hc.dom)]
          simp only [hnode.isLeaf, true_and]
          rw [if_pos (List.mem_map_of_mem hmem)]
        · have hlx' : g.lvl x ≠ 0 := by simpa [Layout.split, hne x hx] using hlx
          have hnode := h.internal x hx hlx'
          by_cases hxp : x = p
          · subst hxp
            refine ⟨hs.isLeaf_left.trans hnode.isLeaf, by rw [hs.items_left]; exact hleft, ?_⟩
            rw [hs.items_left]
            have hcl := (h.cover_split hx hlx' hitems hleft).1
            simp only [Layout.split, hpq, if_true, if_false]
            refine hcl.mono fun item hmem l u hc => hchild (by simp [Layout.split, hpq]) ?_ hc
            have hcp : item.child ≠ x := fun heq => by have := hc.lvl; rw [heq] at this; omega
            rw [hs.others _ hcp (hne _ hc.dom)]
            have hnot := h.child_left_not_right hx hlx' hitems hmem
            simp only [hnot, and_false, if_false]
            exact hc.parent
          · have hitems' : (v'.node x).items = (v.node x).items := by rw [hs.others x hxp (hne x hx)]
            have hleaf' : (v'.node x).isLeaf = (v.node x).isLeaf := by
              rw [hs.others x hxp (hne x hx)]
            refine ⟨hleaf'.trans hnode.isLeaf, by rw [hitems']; exact hnode.ne_nil, ?_⟩
            rw [hitems']
            simp only [Layout.split, hne x hx, hxp, if_false]
            refine hnode.cover.mono fun item hmem l u hc => hchild (by simp [hlvl x hx]) ?_ hc
            by_cases hcp : item.child = p
            · rw [hcp, hs.parent_left, ← hcp]
              exact hc.parent
            · rw [hs.others _ hcp (hne _ hc.dom)]
              refine (if_neg ?_).trans hc.parent
              -- a child of `p` names `p`, not `x`
              rintro ⟨hpl, hmem'⟩
              exact hxp (hc.parent.symm.trans (hright _ hpl hmem'))
      next := by
        rintro x (rfl | hx) hlx
        · have hl : g.lvl p = 0 := by simpa [Layout.split] using hlx
          rw [hs.next_right (h.leaf p hp hl).isLeaf]
          rcases h.next p hp hl with ⟨htop, hn⟩ | ⟨hd, hln, hlon⟩
          · exact Or.inl ⟨by simpa [Layout.split] using htop, hn⟩
          · refine Or.inr ⟨Or.inr hd, (hlvl _ hd).trans hln, ?_⟩
            rw [hlo _ hd, hlon]
            simp [Layout.split]
        · have hlx' : g.lvl x = 0 := by simpa [Layout.split, hne x hx] using hlx
          by_cases hxp : x = p
          · subst hxp
            rw [hs.next_left (h.leaf x hx hlx').isLeaf]
            refine Or.inr ⟨Or.inl rfl, ?_, ?_⟩ <;> simp [Layout.split, hpq, hlx']
          · rw [hs.others x hxp (hne x hx)]
            rcases h.next x hx hlx' with ⟨htop, hn⟩ | ⟨hd, hln, hlon⟩
            · exact Or.inl ⟨by simpa [Layout.split, hne x hx, hxp] using htop, hn⟩
            · refine Or.inr ⟨Or.inr hd, (hlvl _ hd).trans hln, ?_⟩
              rw [hlo _ hd, hlon]
              simp [Layout.split, hne x hx, hxp]
      up := by
        rintro x (rfl | hx) hroot horphan
        · exact absurd rfl (horphan p)
        · have hroot' : x ≠ v.rootPage := by rwa [hs.rootPage] at hroot
          obtain ⟨hd, hlp, item, hmem, hc⟩ := h.up x hx hroot' fun l => by simp
          by_cases hxp : x = p
          · subst hxp
            rw [hs.parent_left]
            refine ⟨Or.inr hd, by rwa [hlvl _ hd], item, ?_, hc⟩
            have hpx : (v.node x).parent ≠ x := fun heq => by
              obtain ⟨l, u, hch, -⟩ := h.child_of_mem hd hlp hmem
              have := hch.lvl
              rw [hc, heq] at this
              omega
            rwa [hs.others _ hpx (hne _ hd)]
          · rw [hs.others x hxp (hne x hx)]
            by_cases hpx : (v.node x).parent = p
            · -- the item of `x` went to the left or to the right half
              rw [hpx] at hd hlp hmem
              have hnode := h.internal p hp hlp
              rw [hitems] at hmem
              rcases List.mem_append.mp hmem with hm | hm
              · have hnot := h.child_left_not_right hp hlp hitems hm
                rw [hc] at hnot
                simp only [hnode.isLeaf, hnot, and_false, if_false, hpx]
                exact ⟨Or.inr hp, by rwa [hlvl _ hp], item, by rw [hs.items_left]; exact hm, hc⟩
              · have hin : x ∈ (first :: right).map Item.child :=
                  hc ▸ List.mem_map_of_mem hm
                simp only [hnode.isLeaf, hin, and_self, if_true]
                refine ⟨Or.inl rfl, by simpa [Layout.split] using hlp, item, ?_, hc⟩
                rw [hs.items_right]
                exact hm
            · have hnot : ¬ ((v.node p).isLeaf = false ∧ x ∈ (first :: right).map Item.child) := by
                rintro ⟨hpl, hmem'⟩
                exact hpx (hright _ hpl hmem')
              simp only [hnot, if_false]
              refine ⟨Or.inr hd, by rwa [hlvl _ hd], item, ?_, hc⟩
              rwa [hs.others _ hpx (hne _ hd)]
      lvl_le := by
        have hr := h.dom_root hp
        rw [hs.rootPage, hlvl _ hr]
        rintro x (rfl | hx)
        · simpa [Layout.split] using h.lvl_le p hp
        · rw [hlvl x hx]
          exact h.lvl_le x hx
      root := by
        have hr := h.dom_root hp
        obtain ⟨hlo', hcov', hpar⟩ := h.root_bounds hr
        refine Or.inr ?_
        rw [hs.rootPage]
        refine ⟨Or.inr hr, by rw [hlo _ hr, hlo'], by rw [hcov _ hr]; exact hcov', ?_⟩
        by_cases hrp : v.rootPage = p
        · rw [hrp, hs.parent_left, ← hrp]
          exact hpar
        · rw [hs.others _ hrp (hne _ hr)]
          refine (if_neg ?_).trans hpar
          rintro ⟨hpl, hmem'⟩
          exact h.ne_invalid hp ((hright _ hpl hmem').symm.trans hpar)
      split := by
        rintro l r ⟨⟩
        exact ⟨Or.inr hp, Or.inl rfl, hpq, by simp [Layout.split], by simp [Layout.split, hpq]⟩ }

omit [LinearOrder ρ] in
/-- Splitting a page moves items, but the index holds the same ones. -/
theorem entry_splitInto (hp : g.dom p) (hq : ¬ g.dom q)
    (hitems : (v.node p).items = left ++ right) (hs : SplitInto v v' p q left right)
    (mid : Bound ρ) (item : Item κ) : Entry v' (g.split p q mid) item ↔ Entry v g item := by
  have hpq : p ≠ q := fun hc => hq (hc ▸ hp)
  have hne : ∀ x, g.dom x → x ≠ q := fun x hx hc => hq (hc ▸ hx)
  constructor
  · rintro ⟨x, rfl | hx, hlx, hmem⟩
    · rw [hs.items_right] at hmem
      refine ⟨p, hp, by simpa [Layout.split] using hlx, ?_⟩
      rw [hitems]
      exact List.mem_append_right _ hmem
    · have hlx' : g.lvl x = 0 := by simpa [Layout.split, hne x hx] using hlx
      by_cases hxp : x = p
      · subst hxp
        rw [hs.items_left] at hmem
        exact ⟨x, hx, hlx', by rw [hitems]; exact List.mem_append_left _ hmem⟩
      · rw [hs.others x hxp (hne x hx)] at hmem
        exact ⟨x, hx, hlx', hmem⟩
  · rintro ⟨x, hx, hlx, hmem⟩
    by_cases hxp : x = p
    · subst hxp
      rw [hitems] at hmem
      rcases List.mem_append.mp hmem with hm | hm
      · exact ⟨x, Or.inr hx, by simpa [Layout.split, hpq] using hlx, by rwa [hs.items_left]⟩
      · exact ⟨q, Or.inl rfl, by simpa [Layout.split] using hlx, by rwa [hs.items_right]⟩
    · refine ⟨x, Or.inr hx, by simpa [Layout.split, hne x hx] using hlx, ?_⟩
      rwa [hs.others x hxp (hne x hx)]

end Split

/-! ## The parent learns of the new page -/

section AddChild

variable {p q : PageNum} {js ks : List (Item κ)} {it new : Item κ}

/-- Inside the parent, no item but its own stands for a page. -/
theorem child_unique (h : TreeInv rank v g hole) {x : PageNum} (hx : g.dom x)
    (hl : g.lvl x ≠ 0) (hitems : (v.node x).items = js ++ it :: ks) {item : Item κ}
    (hmem : item ∈ js ∨ item ∈ ks) : item.child ≠ it.child := by
  intro hc
  have hcov := (h.internal x hx hl).cover
  rw [hitems, Cover.middle_iff] at hcov
  obtain ⟨l, u, hjs, hit, hks⟩ := hcov
  rcases hmem with hm | hm
  · obtain ⟨l', u', hc', -, hul⟩ := hjs.mem_bounds (fun _ _ _ => h.child_lt) hm
    have : l' = l := by rw [← hc'.lo, ← hit.lo, hc]
    exact absurd ((h.child_lt hc').trans_le hul) (by rw [this]; exact lt_irrefl l)
  · obtain ⟨l', u', hc', hul, -⟩ := hks.mem_bounds (fun _ _ _ => h.child_lt) hm
    have : l' = l := by rw [← hc'.lo, ← hit.lo, hc]
    exact absurd ((h.child_lt hit).trans_le hul) (by rw [this]; exact lt_irrefl l)

theorem slot_unique (h : TreeInv rank v g hole) {x : PageNum} (hx : g.dom x)
    (hl : g.lvl x ≠ 0) (hitems : (v.node x).items = js ++ it :: ks) {i : Nat} {item : Item κ}
    (hget : (v.node x).items[i]? = some item) (hchild : item.child = it.child) :
    i = js.length := by
  by_contra hne
  have hmem : item ∈ js ∨ item ∈ ks := by
    rw [hitems] at hget
    rcases Nat.lt_or_gt_of_ne hne with hlt | hgt
    · rw [List.getElem?_append_left hlt] at hget
      exact Or.inl (List.mem_of_getElem? hget)
    · rw [List.getElem?_append_right hgt.le] at hget
      obtain ⟨k, hk⟩ : ∃ k, i - js.length = k + 1 := ⟨i - js.length - 1, by omega⟩
      rw [hk, List.getElem?_cons_succ] at hget
      exact Or.inr (List.mem_of_getElem? hget)
  exact h.child_unique hx hl hitems hmem hchild

theorem orphan_not_child (h : TreeInv rank v g (some (p, q))) {x : PageNum} (hx : g.dom x)
    (hl : g.lvl x ≠ 0) {item : Item κ} (hmem : item ∈ (v.node x).items) : item.child ≠ q := by
  intro hc
  obtain ⟨hp, hq, hpq, hlpq, hsplit⟩ := h.split p q rfl
  obtain ⟨l, u, hch, hlol, huhi⟩ := h.child_of_mem hx hl hmem
  have hlvl : g.lvl q + 1 = g.lvl x := by rw [← hc]; exact hch.lvl
  by_cases hproot : p = v.rootPage
  · have := h.lvl_le x hx
    rw [← hproot] at this
    omega
  obtain ⟨js, it, ks, hitems, hit, hP, hlP⟩ :=
    h.child_of_parent hp hproot fun l hc => by cases hc; exact hpq rfl
  have hlP0 : g.lvl (v.node p).parent ≠ 0 := by omega
  have hcov := (h.internal _ hP hlP0).cover
  rw [hitems, Cover.middle_iff] at hcov
  obtain ⟨a, b, hjs, hchit, hks⟩ := hcov
  have ha : g.lo p = a := by rw [← hit]; exact hchit.lo
  have hb : g.hi q = b := by rw [← hchit.cov, hit, Layout.cov_some_self]
  have hlq : g.lo q = l := by rw [← hc]; exact hch.lo
  have huq : g.hi q = u := by rw [← hch.cov, hc, Layout.cov_some_of_ne g (Ne.symm hpq)]
  have hplt := h.lt p hp
  have hqlt := h.lt q hq
  -- both parents contain the beginning of the new page
  have hxP : x = (v.node p).parent := by
    refine h.eq_of_common hx hP (by omega) (x := g.lo q) ⟨hlq ▸ hlol, ?_⟩ ⟨?_, ?_⟩
    · exact hqlt.trans_le (huq ▸ huhi)
    · exact (hjs.le fun _ _ _ => h.child_lt).trans (by rw [← ha, ← hsplit]; exact hplt.le)
    · exact hqlt.trans_le (by rw [hb]; exact hks.le fun _ _ _ => h.child_lt)
  rw [hxP, hitems] at hmem
  have hcases : item ∈ js ∨ item = it ∨ item ∈ ks := by simpa using hmem
  rcases hcases with hm | rfl | hm
  · obtain ⟨l', u', hc', -, hul⟩ := hjs.mem_bounds (fun _ _ _ => h.child_lt) hm
    have hu' : g.hi q = u' := by rw [← hc'.cov, hc, Layout.cov_some_of_ne g (Ne.symm hpq)]
    rw [← hu', ← ha] at hul
    exact absurd (hqlt.trans_le (hul.trans hplt.le)) (by rw [hsplit]; exact lt_irrefl _)
  · exact hpq (hit.symm.trans hc)
  · obtain ⟨l', u', hc', hul, -⟩ := hks.mem_bounds (fun _ _ _ => h.child_lt) hm
    have hl' : g.lo q = l' := by rw [← hc'.lo, hc]
    rw [← hb, ← hl'] at hul
    exact absurd hqlt (not_lt.mpr hul)

end AddChild

end TreeInv

/-- The pages after the item `new` has entered the node `parent` next to the item of the page
that was split. -/
structure AddChild (v v' : Pages κ) (parent : PageNum) (new : Item κ) (items : List (Item κ)) :
    Prop where
  rootPage : v'.rootPage = v.rootPage
  fileHeader : v'.fileHeader = v.fileHeader
  disposed : v'.disposedPages = v.disposedPages
  parentNode : v'.node parent = { v.node parent with items }
  child : v'.node new.child = { v.node new.child with parent }
  others : ∀ x, x ≠ parent → x ≠ new.child → v'.node x = v.node x

namespace TreeInv

variable {p q : PageNum} {js ks : List (Item κ)} {it new : Item κ}

/-- The hole closes when the parent has room for the new page. -/
theorem addChild (new : Item κ) (h : TreeInv rank v g (some (p, new.child))) {parent : PageNum}
    (hP : g.dom parent) (hlP : g.lvl p + 1 = g.lvl parent)
    (hitems : (v.node parent).items = js ++ it :: ks) (hit : it.child = p)
    (hkey : g.lo new.child = at_ (rank new.key))
    (hs : AddChild v v' parent new (js ++ it :: new :: ks)) : TreeInv rank v' g none := by
  obtain ⟨hp, hq, hpq, hlpq, hsplit⟩ := h.split p new.child rfl
  have hlP0 : g.lvl parent ≠ 0 := by omega
  have hPq : new.child ≠ parent := fun hc => by rw [hc] at hlpq; omega
  have hitems' : (v'.node parent).items = js ++ it :: new :: ks := by rw [hs.parentNode]
  have hleaf : ∀ x, (v'.node x).isLeaf = (v.node x).isLeaf := by
    intro x
    by_cases hxP : x = parent
    · rw [hxP, hs.parentNode]
    · by_cases hxq : x = new.child
      · rw [hxq, hs.child]
      · rw [hs.others x hxP hxq]
  have hnext : ∀ x, (v'.node x).nextBrother = (v.node x).nextBrother := by
    intro x
    by_cases hxP : x = parent
    · rw [hxP, hs.parentNode]
    · by_cases hxq : x = new.child
      · rw [hxq, hs.child]
      · rw [hs.others x hxP hxq]
  have hother : ∀ x, x ≠ parent → (v'.node x).items = (v.node x).items := by
    intro x hxP
    by_cases hxq : x = new.child
    · rw [hxq, hs.child]
    · rw [hs.others x hxP hxq]
  have hpar : ∀ x, x ≠ new.child → (v'.node x).parent = (v.node x).parent := by
    intro x hxq
    by_cases hxP : x = parent
    · rw [hxP, hs.parentNode]
    · rw [hs.others x hxP hxq]
  have hparq : (v'.node new.child).parent = parent := by rw [hs.child]
  -- a child other than the page split keeps its entry
  have hchild : ∀ {x item l u}, g.dom x → g.lvl x ≠ 0 → item ∈ (v.node x).items → item.child ≠ p →
      Child rank v g (some (p, new.child)) x item l u → Child rank v' g none x item l u := by
    intro x item l u hx hl hmem hne hc
    exact
      { hc with
        parent := (hpar _ (h.orphan_not_child hx hl hmem)).trans hc.parent
        cov := by rw [Layout.cov_none, ← hc.cov, Layout.cov_some_of_ne g hne] }
  exact
    { headers := by simpa only [Pages.Allocated, hs.fileHeader] using h.headers
      alloc := by
        intro x hx
        rw [hs.disposed, Pages.Allocated, hs.fileHeader]
        exact h.alloc x hx
      disposed := by
        rw [hs.disposed]
        exact h.disposed
      lt := h.lt
      apart := h.apart
      leaf := by
        intro x hx hlx
        have hxP : x ≠ parent := fun hc => by rw [hc] at hlx; omega
        have hx' := h.leaf x hx hlx
        refine ⟨(hleaf x).trans hx'.isLeaf, ?_, ?_⟩
        · rw [hother x hxP]
          exact hx'.sorted
        · rw [hother x hxP]
          exact hx'.bounds
      internal := by
        intro x hx hlx
        have hnode := h.internal x hx hlx
        by_cases hxP : x = parent
        · subst hxP
          refine ⟨(hleaf x).trans hnode.isLeaf, by rw [hitems']; simp, ?_⟩
          have hcov := hnode.cover
          rw [hitems, Cover.middle_iff] at hcov
          obtain ⟨l, u, hjs, hchit, hks⟩ := hcov
          have hu : g.hi new.child = u := by rw [← hchit.cov, hit, Layout.cov_some_self]
          rw [hitems', Cover.middle_iff]
          refine ⟨l, g.lo new.child, ?_, ?_, u, ?_, ?_⟩
          · refine hjs.mono fun item hm a b hc => hchild hx hlx ?_ ?_ hc
            · rw [hitems]; simp [hm]
            · rw [← hit]; exact h.child_unique hx hlx hitems (Or.inl hm)
          · exact
              { dom := hchit.dom
                parent := by rw [hpar _ (hit ▸ hpq)]; exact hchit.parent
                lvl := hchit.lvl
                lo := hchit.lo
                cov := by rw [Layout.cov_none, hit, hsplit]
                key := hchit.key }
          · exact
              { dom := hq
                parent := hparq
                lvl := by rw [← hlpq]; exact hlP
                lo := rfl
                cov := hu
                key := Or.inr hkey }
          · refine hks.mono fun item hm a b hc => hchild hx hlx ?_ ?_ hc
            · rw [hitems]; simp [hm]
            · rw [← hit]; exact h.child_unique hx hlx hitems (Or.inr hm)
        · refine ⟨(hleaf x).trans hnode.isLeaf, by rw [hother x hxP]; exact hnode.ne_nil, ?_⟩
          rw [hother x hxP]
          refine hnode.cover.mono fun item hm a b hc => hchild hx hlx hm ?_ hc
          -- `p` is a child of `parent`, not of `x`
          rintro hcp
          have hitmem : it ∈ (v.node parent).items := by rw [hitems]; simp
          obtain ⟨l', u', hc', -⟩ := h.child_of_mem hP hlP0 hitmem
          have h1 := hc.parent
          have h2 := hc'.parent
          rw [hcp] at h1
          rw [hit] at h2
          exact hxP (h1.symm.trans h2)
      next := by
        intro x hx hlx
        rw [hnext]
        exact h.next x hx hlx
      up := by
        intro x hx hroot _
        rw [hs.rootPage] at hroot
        by_cases hxq : x = new.child
        · subst hxq
          rw [hparq]
          exact ⟨hP, hlP0, new, by rw [hitems']; simp, rfl⟩
        · obtain ⟨hd, hlp, item, hmem, hc⟩ :=
            h.up x hx hroot fun l hcon => hxq (by cases hcon; rfl)
          rw [hpar x hxq]
          refine ⟨hd, hlp, item, ?_, hc⟩
          by_cases hxP : (v.node x).parent = parent
          · rw [hxP] at hmem ⊢
            rw [hitems] at hmem
            rw [hitems']
            simp only [List.mem_append, List.mem_cons] at hmem ⊢
            tauto
          · rwa [hother _ hxP]
      lvl_le := by
        rw [hs.rootPage]
        exact h.lvl_le
      root := by
        have hr := h.dom_root hp
        obtain ⟨hlo, hcov, hrp⟩ := h.root_bounds hr
        refine Or.inr ?_
        rw [hs.rootPage]
        have hrootp : v.rootPage ≠ p := by
          intro hc
          have := h.lvl_le parent hP
          rw [hc] at this
          omega
        refine ⟨hr, hlo, by rw [← hcov, Layout.cov_some_of_ne g hrootp]; rfl, ?_⟩
        rw [hpar _ ?_]
        · exact hrp
        · intro hc
          have := h.lvl_le parent hP
          rw [hc, ← hlpq] at this
          omega
      split := by simp }

omit [LinearOrder ρ] in
theorem entry_addChild {parent : PageNum} (hlP : g.lvl parent ≠ 0) {items : List (Item κ)}
    (hs : AddChild v v' parent new items) (item : Item κ) : Entry v' g item ↔ Entry v g item := by
  have hother : ∀ x, g.lvl x = 0 → (v'.node x).items = (v.node x).items := by
    intro x hlx
    have hxP : x ≠ parent := fun hc => hlP (hc ▸ hlx)
    by_cases hxq : x = new.child
    · rw [hxq, hs.child]
    · rw [hs.others x hxP hxq]
  constructor
  · rintro ⟨x, hx, hlx, hmem⟩
    exact ⟨x, hx, hlx, by rwa [hother x hlx] at hmem⟩
  · rintro ⟨x, hx, hlx, hmem⟩
    exact ⟨x, hx, hlx, by rwa [hother x hlx]⟩

end TreeInv

/-! ## A new root -/

/-- The layout with the page `r` as a new root above the page `p`. -/
def Layout.grow (g : Layout ρ) (p r : PageNum) : Layout ρ where
  dom x := x = r ∨ g.dom x
  lvl x := if x = r then g.lvl p + 1 else g.lvl x
  lo x := if x = r then ⊥ else g.lo x
  hi x := if x = r then ⊤ else g.hi x

/-- The pages after the two halves of the old root have become the children of the new page
`r`. -/
structure NewRoot (v v' : Pages κ) (r : PageNum) (left right : Item κ) : Prop where
  rootPage : v'.rootPage = r
  alloc : ∀ x, v.Allocated x → v'.Allocated x
  new : v'.Allocated r
  disposed : v'.disposedPages = v.disposedPages
  isLeaf : (v'.node r).isLeaf = false
  parent : (v'.node r).parent = bpInvalidPageNum
  items : (v'.node r).items = [left, right]
  others : ∀ x, x ≠ r → v'.node x =
    { v.node x with
      parent := if x = left.child ∨ x = right.child then r else (v.node x).parent }

namespace TreeInv

variable {r : PageNum} {left right : Item κ}

/-- The hole closes at the root. -/
theorem newRoot (left right : Item κ) (h : TreeInv rank v g (some (left.child, right.child)))
    (hroot : v.rootPage = left.child) (hr : ¬ g.dom r) (hr2 : 2 ≤ r) (hrd : r ∉ v.disposedPages)
    (hkey : g.lo right.child = at_ (rank right.key)) (hs : NewRoot v v' r left right) :
    TreeInv rank v' (g.grow left.child r) none := by
  obtain ⟨hp, hq, hpq, hlpq, hsplit⟩ := h.split left.child right.child rfl
  obtain ⟨hplo, hqhi, -⟩ := h.root_bounds (hroot ▸ hp)
  rw [hroot] at hplo
  rw [hroot, Layout.cov_some_self] at hqhi
  have hne : ∀ x, g.dom x → x ≠ r := fun x hx hc => hr (hc ▸ hx)
  have hlvl_le : ∀ x, g.dom x → g.lvl x ≤ g.lvl left.child := hroot ▸ h.lvl_le
  have hlvl : ∀ x, g.dom x → (g.grow left.child r).lvl x = g.lvl x := fun x hx => if_neg (hne x hx)
  have hlo : ∀ x, g.dom x → (g.grow left.child r).lo x = g.lo x := fun x hx => if_neg (hne x hx)
  have hhi : ∀ x, g.dom x → (g.grow left.child r).hi x = g.hi x := fun x hx => if_neg (hne x hx)
  have hlr : (g.grow left.child r).lvl r = g.lvl left.child + 1 := if_pos rfl
  have hitems : ∀ x, g.dom x → (v'.node x).items = (v.node x).items := by
    intro x hx
    rw [hs.others x (hne x hx)]
  -- the halves of the root are children of nobody else
  have hnotp : ∀ {x item}, g.dom x → g.lvl x ≠ 0 → item ∈ (v.node x).items →
      item.child ≠ left.child := by
    intro x item hx hl hmem hc
    obtain ⟨l, u, hch, -⟩ := h.child_of_mem hx hl hmem
    have h1 := hch.lvl
    have h2 := hlvl_le x hx
    rw [hc] at h1
    omega
  exact
    { headers := ⟨hs.alloc _ h.headers.1, hs.alloc _ h.headers.2⟩
      alloc := by
        rintro x (rfl | hx)
        · exact ⟨hr2, hs.new, by rwa [hs.disposed]⟩
        · obtain ⟨h2, ha, hd⟩ := h.alloc x hx
          exact ⟨h2, hs.alloc x ha, by rwa [hs.disposed]⟩
      disposed := by
        rw [hs.disposed]
        exact h.disposed
      lt := by
        rintro x (rfl | hx)
        · simp [Layout.grow]
        · rw [hlo x hx, hhi x hx]
          exact h.lt x hx
      apart := by
        rintro x y (rfl | hx) (rfl | hy) hxy hne'
        · exact absurd rfl hne'
        · have := hlvl_le y hy
          rw [hlr, hlvl y hy] at hxy
          omega
        · have := hlvl_le x hx
          rw [hlr, hlvl x hx] at hxy
          omega
        · rw [hlvl x hx, hlvl y hy] at hxy
          rw [hlo x hx, hlo y hy, hhi x hx, hhi y hy]
          exact h.apart x y hx hy hxy hne'
      leaf := by
        rintro x (rfl | hx) hlx
        · omega
        · rw [hlvl x hx] at hlx
          rw [hlo x hx, hhi x hx]
          obtain ⟨hl, hsorted, hb⟩ := h.leaf x hx hlx
          refine ⟨?_, by rwa [hitems x hx], by rwa [hitems x hx]⟩
          rw [hs.others x (hne x hx)]
          exact hl
      internal := by
        rintro x (rfl | hx) hlx
        · refine ⟨hs.isLeaf, by rw [hs.items]; simp, ?_⟩
          rw [hs.items]
          refine ⟨g.lo right.child, ?_, g.hi right.child, ?_, ?_⟩
          · exact
              { dom := Or.inr hp
                parent := by rw [hs.others _ (hne _ hp)]; simp
                lvl := by rw [hlr, hlvl _ hp]
                lo := by rw [hlo _ hp, hplo]; simp [Layout.grow]
                cov := by rw [Layout.cov_none, hhi _ hp, hsplit]
                key := Or.inl (by simp [Layout.grow]) }
          · exact
              { dom := Or.inr hq
                parent := by rw [hs.others _ (hne _ hq)]; simp
                lvl := by rw [hlr, hlvl _ hq, hlpq]
                lo := hlo _ hq
                cov := by rw [Layout.cov_none, hhi _ hq]
                key := Or.inr hkey }
          · simpa [Layout.grow] using hqhi
        · rw [hlvl x hx] at hlx
          have hnode := h.internal x hx hlx
          refine ⟨?_, by rw [hitems x hx]; exact hnode.ne_nil, ?_⟩
          · rw [hs.others x (hne x hx)]
            exact hnode.isLeaf
          rw [hitems x hx, hlo x hx, hhi x hx]
          refine hnode.cover.mono fun item hm l u hc => ?_
          have hnp := hnotp hx hlx hm
          have hnq := h.orphan_not_child hx hlx hm
          exact
            { dom := Or.inr hc.dom
              parent := by
                rw [hs.others _ (hne _ hc.dom)]
                simpa [hnp, hnq] using hc.parent
              lvl := by rw [hlvl _ hc.dom, hlvl x hx, hc.lvl]
              lo := by rw [hlo _ hc.dom, hc.lo]
              cov := by rw [Layout.cov_none, hhi _ hc.dom, ← hc.cov, Layout.cov_some_of_ne g hnp]
              key := hc.key }
      next := by
        rintro x (rfl | hx) hlx
        · omega
        · rw [hlvl x hx] at hlx
          rw [hs.others x (hne x hx), hhi x hx]
          refine (h.next x hx hlx).imp id ?_
          rintro ⟨hd, hln, hlon⟩
          exact ⟨Or.inr hd, by rwa [hlvl _ hd], by rwa [hlo _ hd]⟩
      up := by
        rintro x (rfl | hx) hxroot _
        · exact absurd hs.rootPage.symm hxroot
        · rw [hs.others x (hne x hx)]
          by_cases hxpq : x = left.child ∨ x = right.child
          · simp only [hxpq, if_true, hlr]
            refine ⟨Or.inl rfl, by omega, ?_⟩
            rw [hs.items]
            rcases hxpq with rfl | rfl
            · exact ⟨left, by simp, rfl⟩
            · exact ⟨right, by simp, rfl⟩
          · simp only [hxpq, if_false]
            push Not at hxpq
            obtain ⟨hd, hlp, item, hmem, hc⟩ := h.up x hx (by rw [hroot]; exact hxpq.1)
              fun l hcon => hxpq.2 (by cases hcon; rfl)
            exact ⟨Or.inr hd, by rwa [hlvl _ hd], item, by rwa [hitems _ hd], hc⟩
      lvl_le := by
        rw [hs.rootPage, hlr]
        rintro x (rfl | hx)
        · omega
        · rw [hlvl x hx]
          exact (hlvl_le x hx).trans (Nat.le_succ _)
      root := by
        refine Or.inr ?_
        rw [hs.rootPage]
        exact ⟨Or.inl rfl, by simp [Layout.grow], by simp [Layout.grow], hs.parent⟩
      split := by simp }

omit [LinearOrder ρ] in
theorem entry_newRoot (hr : ¬ g.dom r) (hs : NewRoot v v' r left right) {p : PageNum}
    {item : Item κ} : Entry v' (g.grow p r) item ↔ Entry v g item := by
  have hne : ∀ x, g.dom x → x ≠ r := fun x hx hc => hr (hc ▸ hx)
  constructor
  · rintro ⟨x, rfl | hx, hlx, hmem⟩
    · simp [Layout.grow] at hlx
    · rw [hs.others x (hne x hx)] at hmem
      exact ⟨x, hx, by simpa [Layout.grow, hne x hx] using hlx, hmem⟩
  · rintro ⟨x, hx, hlx, hmem⟩
    refine ⟨x, Or.inr hx, by simpa [Layout.grow, hne x hx] using hlx, ?_⟩
    rwa [hs.others x (hne x hx)]

end TreeInv

end ObHtap
