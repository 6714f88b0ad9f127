import ObHtap.Bplus.InsertEntry
import ObHtap.Bplus.Rebalance
import ObHtap.Bplus.Position

/-!
# Deleting an entry

The climb of a deletion from the leaf towards the root, and the whole mini-transaction: a
deletion is refused exactly when the key is missing, and otherwise takes its entry away.

With very small page capacities the climb can end the process: a node without items has no
last key to search its parent for, the unused first key of a node may lead the search astray,
and the neighbor may be missing.
-/

namespace ObHtap

open ObHtap.Bound IndexNodeHandler BplusTreeHandler

variable {κ ρ : Type} [LinearOrder ρ] {rank : κ → ρ} {v v' : Pages κ} {g g' : Layout ρ}
  {header : IndexFileHeader} {p : PageNum}

/-- The tree while a deletion climbs: the page `p` may be one item short. -/
structure Lacking (header : IndexFileHeader) (v : Pages κ) (g : Layout ρ) (p : PageNum) :
    Prop where
  filled : ∀ x, g.dom x → x ≠ v.rootPage → x ≠ p →
    minFill header (g.lvl x) ≤ (v.node x).items.length
  short : p ≠ v.rootPage → minFill header (g.lvl p) ≤ (v.node p).items.length + 1
  root : g.dom v.rootPage → v.rootPage ≠ p → g.lvl v.rootPage ≠ 0 →
    2 ≤ (v.node v.rootPage).items.length
  onlyChild : ∀ item, g.lvl p ≠ 0 → (v.node p).items = [item] → g.lvl item.child ≠ 0 →
    2 ≤ (v.node item.child).items.length

/-- The pages `v'` are a balanced tree and hold the entries that `v` holds. -/
structure Rebalanced (header : IndexFileHeader) (rank : κ → ρ) (v : Pages κ) (g : Layout ρ)
    (v' : Pages κ) (g' : Layout ρ) : Prop where
  tree : TreeInv rank v' g' none
  balanced : Balanced header v' g' none
  entries : ∀ item, Entry v' g' item ↔ Entry v g item

/-- The pages `v'` are a balanced tree again, and as full as they should be if no page but `p`
was short of items. -/
structure Refilled (header : IndexFileHeader) (rank : κ → ρ) (v : Pages κ) (g : Layout ρ)
    (p : PageNum) (v' : Pages κ) (g' : Layout ρ) : Prop
    extends Rebalanced header rank v g v' g' where
  occupied : OccupiedBut header v g p → Occupied header v' g' none

theorem Rebalanced.of_entries {v₁ : Pages κ} {g₁ : Layout ρ}
    (h : Rebalanced header rank v₁ g₁ v' g') (he : ∀ item, Entry v₁ g₁ item ↔ Entry v g item) :
    Rebalanced header rank v g v' g' :=
  { h with entries := fun item => (h.entries item).trans (he item) }

omit [LinearOrder ρ] in
theorem Lacking.balanced (hb : Lacking header v g p)
    (hp : p ≠ v.rootPage → minFill header (g.lvl p) ≤ (v.node p).items.length)
    (hr : v.rootPage = p → g.lvl v.rootPage ≠ 0 → 2 ≤ (v.node v.rootPage).items.length) :
    Balanced header v g none where
  filled := by
    intro x hx hxr
    have hxr' : x ≠ v.rootPage := hxr.elim id fun ⟨_, hc⟩ => by simp at hc
    by_cases hxp : x = p
    · subst hxp
      exact hp hxr'
    · exact hb.filled x hx hxr' hxp
  root := by
    intro hd _ hl
    by_cases hrp : v.rootPage = p
    · exact hr hrp hl
    · exact hb.root hd hrp hl

/-! ## The root -/

section Root

variable {E : Fault → Mtr κ → Prop}

theorem adjustRoot_at (h : TreeInv rank v g none) (hroot : g.dom v.rootPage)
    (hb : Lacking header v g v.rootPage) (hsize : (v.node v.rootPage).size ≤ 1) :
    Triple (At v) (adjustRoot v.rootPage)
      (fun _ s => ∃ v' g', At v' s ∧ Refilled header rank v g v.rootPage v' g') E := by
  unfold IndexNode.size at hsize
  refine readNode_bind ?_
  by_cases hl : g.lvl v.rootPage = 0
  · have hleaf := (h.isLeaf_iff hroot).mpr hl
    by_cases hpos : 0 < (v.node v.rootPage).size
    · -- a leaf with an item stays the root
      rw [if_pos ⟨hleaf, hpos⟩]
      refine markDirty_at.post fun _ s hs => ⟨v, g, hs, ⟨h, ?_, fun _ => Iff.rfl⟩, fun hocc => ?_⟩
      · exact hb.balanced (fun hc => absurd rfl hc) fun _ hc => absurd hl hc
      · exact hocc.occupied fun hc => absurd rfl hc
    · rw [if_neg fun hc => hpos hc.2, if_pos hleaf]
      have hnil : (v.node v.rootPage).items = [] := by
        unfold IndexNode.size at hpos
        exact List.length_eq_zero_iff.mp (by omega)
      refine updateRootPageNumLocked_at.bind fun _ => disposePage_at.post fun _ s hs => ?_
      refine ⟨_, Layout.empty, hs, ⟨h.dropRoot hroot ⟨rfl, rfl, fun x hx => ?_⟩, ⟨?_, ?_⟩, ?_⟩,
        fun _ => ⟨?_, ?_⟩⟩
      · simpa using hx
      · exact fun x hx => absurd hx id
      · exact fun hx => absurd hx id
      · exact fun item => iff_of_false (TreeInv.not_entry_empty item)
          (h.not_entry_of_empty_root hl hnil item)
      · exact fun x hx => absurd hx id
      · exact fun x hx => absurd hx id
  · have hnode := h.internal _ hroot hl
    rw [if_neg (by simp [hnode.isLeaf]), if_neg (by simp [hnode.isLeaf])]
    -- the only child becomes the root
    obtain ⟨it, hitems⟩ : ∃ it, (v.node v.rootPage).items = [it] := by
      rw [← List.length_eq_one_iff]
      have := List.length_pos_iff.mpr hnode.ne_nil
      omega
    obtain ⟨l, u, hc, -⟩ := h.child_of_mem hroot hl
      (show it ∈ (v.node v.rootPage).items by simp [hitems])
    have hclvl := hc.lvl
    have hne : it.child ≠ v.rootPage := fun heq => by rw [heq] at hclvl; omega
    refine valueAt_bind 0 it (by simp [hitems]) ?_
    refine (getPage_at (h.inFile hc.dom)).bind fun _ => setParentPageNum_at.bind fun _ => ?_
    refine updateRootPageNumLocked_at.bind fun _ => disposePage_at.post fun _ s hs => ?_
    have hshrink : ShrinkRoot v
        { v.setNode it.child { v.node it.child with parent := bpInvalidPageNum } with
          rootPage := it.child
          disposedPages := v.disposedPages ++ [v.rootPage] } it.child :=
      { rootPage := rfl
        fileHeader := rfl
        disposed := fun x hx => by simpa using hx
        childNode := Pages.setNode_self
        others := fun x hx => Pages.setNode_of_ne hx }
    have hlen : ∀ x, (({ v.setNode it.child { v.node it.child with parent := bpInvalidPageNum } with
        rootPage := it.child
        disposedPages := v.disposedPages ++ [v.rootPage] } : Pages κ).node x).items.length =
          (v.node x).items.length := by
      intro x
      by_cases hx : x = it.child
      · rw [hx, hshrink.childNode]
      · rw [hshrink.others x hx]
    refine ⟨_, g.drop v.rootPage, hs, ⟨h.shrinkRoot hroot hl hitems hshrink, ⟨?_, ?_⟩,
      fun item => TreeInv.entry_shrinkRoot hl hshrink⟩, fun hocc => ⟨?_, ?_⟩⟩
    · rintro x ⟨hx, hxr⟩ hxc
      rw [hlen]
      exact hb.filled x hx hxr hxr
    · rintro - - hlr
      rw [hlen]
      exact hb.onlyChild it hl hitems hlr
    · rintro x ⟨hx, hxr⟩ hxc
      rw [hlen]
      exact hocc.least x hx hxr hxr
    · rintro x ⟨hx, hxr⟩
      rw [hlen]
      exact hocc.most x hx

end Root

/-! ## The climb -/

section Climb

variable {tree : BplusTreeHandler κ} {v₀ : Pages κ} {kind : NodeKind} {parent neighborPage : PageNum}
  {js ks : List (Item κ)} {il ir : Item κ} {index : Nat}

/-- The failures of an operation that may end the process. -/
def Aborts (A : Prop) (e : Fault) (_ : Mtr κ) : Prop := e = .abort ∧ A

/-- With capacities that are not too small, every page that loses an item keeps its place. -/
theorem locatable_of_big (h : TreeInv rank v g none) (hb : Balanced header v g none)
    (hbig : 4 ≤ header.leafMaxSize ∧ 6 ≤ header.internalMaxSize) (hp : g.dom p)
    {cmp : κ → κ → Int} : Locatable header cmp v p := by
  rintro x hx hne -
  have hdom : g.dom x := by
    induction hx with
    | here => exact hp
    | above hne' _ _ _ _ _ _ ih => exact ih (h.up _ hp hne' (by simp)).1 hne
  obtain ⟨_, _, _, -, -, hP, hlP⟩ := h.child_of_parent hdom hne (by simp)
  have hlP0 : g.lvl (v.node x).parent ≠ 0 := by omega
  have hfill := hb.filled x hdom (Or.inl hne)
  refine ⟨?_, fun hleaf => ?_, fun hleaf htwo => ?_⟩
  · unfold IndexNode.size
    by_cases hPr : (v.node x).parent = v.rootPage
    · rw [hPr]
      exact hb.root (h.dom_root hp) (by simp) (hPr ▸ hlP0)
    · have := hb.filled _ hP (Or.inl hPr)
      rw [minFill, if_neg hlP0] at this
      omega
  · rw [minFill, if_pos ((h.isLeaf_iff hdom).mp hleaf)] at hfill
    unfold IndexNode.size
    omega
  · rw [minFill, if_neg (h.lvl_ne_zero hdom hleaf)] at hfill
    unfold IndexNode.size at htwo
    omega

section Rotated

variable {left right : List (Item κ)} {first : Item κ}

theorem TreeInv.child_ne_root (h : TreeInv rank v g none) (hP : g.dom parent) {item : Item κ}
    (hpar : (v.node item.child).parent = parent) : v.rootPage ≠ item.child := by
  intro hc
  have := (h.root_bounds (h.dom_root hP)).2.2
  rw [hc, hpar] at this
  exact h.ne_invalid hP this

omit [LinearOrder ρ] in
theorem Rotated.length_others (hitems : (v.node parent).items = js ++ il :: ir :: ks)
    (hs : Rotated v v' parent js il ir ks left first right) {x : PageNum} (hxl : x ≠ il.child)
    (hxr : x ≠ ir.child) : (v'.node x).items.length = (v.node x).items.length := by
  by_cases hxP : x = parent
  · rw [hxP, hs.parentNode, hitems]
    simp
  · rw [hs.others x hxP hxl hxr]

/-- What holds of the numbers of items holds after a redistribution if it holds of the two
neighbors. -/
theorem Rotated.fits (fits : Nat → Nat → Prop) {U : PageNum → Prop} (h : TreeInv rank v g none)
    (hP : g.dom parent) (hlP : g.lvl parent ≠ 0)
    (hitems : (v.node parent).items = js ++ il :: ir :: ks)
    (hp : p = il.child ∨ p = ir.child)
    (hfits : ∀ x, g.dom x → U x → x ≠ p → fits (g.lvl x) (v.node x).items.length)
    (hleft : fits (g.lvl p) left.length) (hright : fits (g.lvl p) (right.length + 1))
    {mid : Bound ρ} (hs : Rotated v v' parent js il ir ks left first right) (x : PageNum)
    (hx : (g.rotate il.child ir.child mid).dom x) (hxU : U x) :
    fits ((g.rotate il.child ir.child mid).lvl x) (v'.node x).items.length := by
  obtain ⟨hlr, hPl, hPr, hlvl, hl, hr⟩ := h.neighbors_apart hP hlP hitems
  have hlp : g.lvl p = g.lvl il.child := by
    rcases hp with rfl | rfl
    · rfl
    · exact hlvl.symm
  have hxlvl : (g.rotate il.child ir.child mid).lvl x = g.lvl x := by
    by_cases hxr : x = ir.child
    · rw [hxr, ← hlvl]
      exact if_pos rfl
    · exact if_neg hxr
  rw [hxlvl]
  by_cases h1 : x = il.child
  · rw [h1, hs.leftNode, ← hlp]
    exact hleft
  · by_cases h2 : x = ir.child
    · rw [h2, hs.rightNode, ← hlvl, ← hlp]
      simpa using hright
    · rw [hs.length_others hitems h1 h2]
      have hx' : g.dom x := by
        rcases hx with rfl | hx
        · exact hr.dom
        · exact hx.1
      exact hfits x hx' hxU (by rcases hp with rfl | rfl <;> assumption)

theorem Lacking.rotated (h : TreeInv rank v g none) (hb : Lacking header v g p)
    (hP : g.dom parent) (hlP : g.lvl parent ≠ 0)
    (hitems : (v.node parent).items = js ++ il :: ir :: ks)
    (hp : p = il.child ∨ p = ir.child)
    (hleft : minFill header (g.lvl p) ≤ left.length)
    (hright : minFill header (g.lvl p) ≤ right.length + 1) {mid : Bound ρ}
    (hs : Rotated v v' parent js il ir ks left first right) :
    Balanced header v' (g.rotate il.child ir.child mid) none := by
  obtain ⟨-, hl, hr, -, -⟩ := h.neighbors hP hlP hitems
  have hlroot := h.child_ne_root hP hl.parent
  have hrroot := h.child_ne_root hP hr.parent
  constructor
  · intro x hx hxr
    have hxr' : x ≠ v'.rootPage := hxr.elim id fun ⟨_, hc⟩ => by simp at hc
    rw [hs.rootPage] at hxr'
    exact hs.fits (fun lvl n => minFill header lvl ≤ n) h hP hlP hitems hp hb.filled hleft hright
      x hx hxr'
  · intro _ _ hlr'
    rw [hs.rootPage] at hlr' ⊢
    rw [hs.length_others hitems hlroot hrroot]
    refine hb.root (h.dom_root hP) ?_ (by rwa [show (g.rotate il.child ir.child mid).lvl
      v.rootPage = g.lvl v.rootPage from if_neg hrroot] at hlr')
    rcases hp with rfl | rfl <;> assumption

theorem OccupiedBut.rotated (h : TreeInv rank v g none) (hocc : OccupiedBut header v g p)
    (hP : g.dom parent) (hlP : g.lvl parent ≠ 0)
    (hitems : (v.node parent).items = js ++ il :: ir :: ks)
    (hp : p = il.child ∨ p = ir.child)
    (hleft : levelMin header (g.lvl p) ≤ left.length ∧ left.length ≤ levelMax header (g.lvl p))
    (hright : levelMin header (g.lvl p) ≤ right.length + 1 ∧
      right.length + 1 ≤ levelMax header (g.lvl p)) {mid : Bound ρ}
    (hs : Rotated v v' parent js il ir ks left first right) :
    Occupied header v' (g.rotate il.child ir.child mid) none where
  least x hx hxr := by
    have hxr' : x ≠ v'.rootPage := hxr.elim id fun ⟨_, hc⟩ => by simp at hc
    rw [hs.rootPage] at hxr'
    exact hs.fits (fun lvl n => levelMin header lvl ≤ n) h hP hlP hitems hp hocc.least hleft.1
      hright.1 x hx hxr'
  most x hx :=
    hs.fits (U := fun _ => True) (fun lvl n => n ≤ levelMax header lvl) h hP hlP hitems hp
      (fun y hy _ _ => hocc.most y hy) hleft.2 hright.2 x hx trivial

end Rotated

section Merged

/-- What holds of the numbers of items holds after a merge, of all pages but the parent, if it
holds of the page merged. -/
theorem MergeInto.fits (fits : Nat → Nat → Prop) {U : PageNum → Prop} (h : TreeInv rank v g none)
    (hP : g.dom parent) (hlP : g.lvl parent ≠ 0)
    (hitems : (v.node parent).items = js ++ il :: ir :: ks)
    (hp : p = il.child ∨ p = ir.child)
    (hfits : ∀ x, g.dom x → U x → x ≠ p → fits (g.lvl x) (v.node x).items.length)
    (hsum : fits (g.lvl p) ((v.node il.child).items.length + (v.node ir.child).items.length))
    (hs : MergeInto v v' parent il.child ir.child (js ++ il :: ks)) (x : PageNum)
    (hx : (g.merge il.child ir.child).dom x) (hxU : U x) (hxP : x ≠ parent) :
    fits ((g.merge il.child ir.child).lvl x) (v'.node x).items.length := by
  obtain ⟨-, -, -, hlvl, -, -⟩ := h.neighbors_apart hP hlP hitems
  obtain ⟨hx, hxr⟩ := hx
  change fits (g.lvl x) _
  by_cases h1 : x = il.child
  · subst h1
    rw [hs.items_left, List.length_append]
    rcases hp with rfl | rfl
    · exact hsum
    · rwa [hlvl]
  · rw [hs.others x hxP h1 hxr]
    exact hfits x hx hxU (by rcases hp with rfl | rfl <;> assumption)

/-- After a merge the parent may be one item short. -/
theorem Lacking.merged (h : TreeInv rank v g none) (hb : Lacking header v g p)
    (hP : g.dom parent) (hlP : g.lvl parent ≠ 0)
    (hitems : (v.node parent).items = js ++ il :: ir :: ks)
    (hp : p = il.child ∨ p = ir.child)
    (hs : MergeInto v v' parent il.child ir.child (js ++ il :: ks)) :
    Lacking header v' (g.merge il.child ir.child) parent := by
  obtain ⟨hlr, hPl, hPr, hlvl, hl, hr⟩ := h.neighbors_apart hP hlP hitems
  have hlroot := h.child_ne_root hP hl.parent
  have hrroot := h.child_ne_root hP hr.parent
  have hpP : parent ≠ p := by rcases hp with rfl | rfl <;> [exact hPl.symm; exact hPr.symm]
  constructor
  · intro x hx hxroot hxP
    rw [hs.rootPage] at hxroot
    refine hs.fits (fun lvl n => minFill header lvl ≤ n) h hP hlP hitems hp hb.filled ?_ x hx
      hxroot hxP
    rcases hp with rfl | rfl
    · have := hb.filled _ hr.dom hrroot.symm hlr.symm
      rw [hlvl]
      omega
    · have := hb.filled _ hl.dom hlroot.symm hlr
      rw [hlvl] at this
      omega
  · intro hPr'
    rw [hs.rootPage] at hPr'
    have := hb.filled parent hP hPr' hpP
    change minFill header (g.lvl parent) ≤ _
    rw [hs.parentNode]
    rw [hitems] at this
    simp only [List.length_append, List.length_cons] at this ⊢
    omega
  · rintro - hrP hlr'
    rw [hs.rootPage] at hrP hlr' ⊢
    rw [hs.others _ hrP hlroot hrroot]
    refine hb.root (h.dom_root hP) ?_ hlr'
    rcases hp with rfl | rfl <;> assumption
  · intro item _ hone hlvl'
    rw [hs.parentNode] at hone
    obtain rfl : item = il := by
      have : il ∈ [item] := by rw [← show js ++ il :: ks = [item] from hone]; simp
      exact (List.mem_singleton.mp this).symm
    have hlvl'' : g.lvl item.child ≠ 0 := hlvl'
    have h1 := List.length_pos_iff.mpr (h.internal _ hl.dom hlvl'').ne_nil
    have h2 := List.length_pos_iff.mpr (h.internal _ hr.dom (by omega)).ne_nil
    rw [hs.items_left, List.length_append]
    omega

/-- After a merge of no more items than fit in a page only the parent may be short of items. -/
theorem OccupiedBut.merged (h : TreeInv rank v g none) (hocc : OccupiedBut header v g p)
    (hP : g.dom parent) (hlP : g.lvl parent ≠ 0)
    (hitems : (v.node parent).items = js ++ il :: ir :: ks)
    (hp : p = il.child ∨ p = ir.child)
    (hsum : (v.node il.child).items.length + (v.node ir.child).items.length ≤
      levelMax header (g.lvl p))
    (hs : MergeInto v v' parent il.child ir.child (js ++ il :: ks)) :
    OccupiedBut header v' (g.merge il.child ir.child) parent := by
  obtain ⟨hlr, hPl, hPr, hlvl, hl, hr⟩ := h.neighbors_apart hP hlP hitems
  have hpP : parent ≠ p := by rcases hp with rfl | rfl <;> [exact hPl.symm; exact hPr.symm]
  have hparent : (v'.node parent).items.length + 1 = (v.node parent).items.length := by
    rw [hs.parentNode, hitems]
    simp only [List.length_append, List.length_cons]
    omega
  refine ⟨?_, ?_, ?_⟩
  · intro x hx hxroot hxP
    rw [hs.rootPage] at hxroot
    refine hs.fits (fun lvl n => levelMin header lvl ≤ n) h hP hlP hitems hp hocc.least ?_ x hx
      hxroot hxP
    rcases hp with rfl | rfl
    · have := hocc.least _ hr.dom (h.child_ne_root hP hr.parent).symm hlr.symm
      rw [hlvl]
      omega
    · have := hocc.least _ hl.dom (h.child_ne_root hP hl.parent).symm hlr
      rw [hlvl] at this
      omega
  · intro hPr'
    rw [hs.rootPage] at hPr'
    rw [hparent]
    exact hocc.least parent hP hPr' hpP
  · intro x hx
    by_cases hxP : x = parent
    · have := hocc.most parent hP
      rw [hxP]
      change _ ≤ levelMax header (g.lvl parent)
      omega
    · exact hs.fits (U := fun _ => True) (fun lvl n => n ≤ levelMax header lvl) h hP hlP hitems hp
        (fun y hy _ _ => hocc.most y hy) hsum x hx trivial hxP

end Merged

/-- A page that is too small borrows from its neighbor or is merged with it. -/
theorem borrowOrMerge_at {C : Prop} (h : TreeInv rank v g none)
    (hb : Lacking tree.fileHeader v g p) (hp : g.dom p) (hP : g.dom parent) (hlP : g.lvl parent ≠ 0)
    (hitems : (v.node parent).items = js ++ il :: ir :: ks)
    (hkind : kind = .leaf ↔ g.lvl p = 0) (hside : Side js il ir neighborPage p index)
    (hsmall : (v.node p).size < minSize tree.fileHeader (v.node p))
    (hlost : LostOne v₀ v g p) {climb : MtrM κ Unit}
    (hclimb : ∀ v₁ g₁, TreeInv rank v₁ g₁ none → g₁.dom parent →
      Lacking tree.fileHeader v₁ g₁ parent → g₁.lvl = g.lvl → v₁.rootPage = v.rootPage →
      LostOne v₀ v₁ g₁ parent →
      Triple (At v₁) climb
        (fun _ s => C ∧ ∃ v' g', At v' s ∧ Refilled tree.fileHeader rank v₁ g₁ parent v' g')
        (Aborts (¬ C))) :
    Triple (At v)
      (do
        getPage neighborPage
        let neighborNode ← readNode neighborPage
        if (v.node p).size + neighborNode.size > maxSize tree.fileHeader (v.node p) then
          redistribute kind neighborPage p parent index
        else
          coalesce kind neighborPage p parent index
          climb)
      (fun _ s => ((v.node p).size + (v.node neighborPage).size ≤
          maxSize tree.fileHeader (v.node p) → C) ∧
        ∃ v' g', At v' s ∧ Refilled tree.fileHeader rank v g p v' g')
      (Aborts ¬ ((v.node p).size + (v.node neighborPage).size ≤
          maxSize tree.fileHeader (v.node p) → C)) := by
  obtain ⟨hlr, hPl, hPr, hlvl, hl, hr⟩ := h.neighbors_apart hP hlP hitems
  have hpc : p = il.child ∨ p = ir.child := hside.imp (fun hc => hc.1) fun hc => hc.1
  have hnb : g.dom neighborPage ∧ g.lvl neighborPage = g.lvl p ∧
      (v.node p).items.length + (v.node neighborPage).items.length =
        (v.node il.child).items.length + (v.node ir.child).items.length := by
    rcases hside with ⟨rfl, rfl, -⟩ | ⟨rfl, rfl, -⟩
    · exact ⟨hr.dom, hlvl.symm, rfl⟩
    · exact ⟨hl.dom, hlvl, Nat.add_comm _ _⟩
  have hproot : p ≠ v.rootPage := by
    rcases hpc with rfl | rfl
    · exact (h.child_ne_root hP hl.parent).symm
    · exact (h.child_ne_root hP hr.parent).symm
  have hmax : maxSize tree.fileHeader (v.node p) = levelMax tree.fileHeader (g.lvl p) :=
    h.maxSize_eq hp
  have hmin : minSize tree.fileHeader (v.node p) = levelMin tree.fileHeader (g.lvl p) :=
    h.minSize_eq hp
  have hfill : minFill tree.fileHeader (g.lvl p) = levelMax tree.fileHeader (g.lvl p) / 2 := rfl
  have hlPp : g.lvl parent = g.lvl p + 1 := by
    have := hl.lvl
    rcases hpc with rfl | rfl <;> omega
  have hshort := hb.short hproot
  rw [hmin, levelMin] at hsmall
  unfold IndexNode.size at hsmall
  refine (getPage_at (h.inFile hnb.1)).bind fun _ => readNode_bind <| Triple.ite ?_ ?_
  · intro hmore
    rw [hmax] at hmore
    unfold IndexNode.size at hmore
    refine (redistribute_at h hP hlP hitems hkind hside (by unfold IndexNode.size; omega)).post ?_
    rintro _ s ⟨v', left, first, right, hs, hall, hleft, hn, hrot⟩
    unfold IndexNode.size at hn
    obtain ⟨h', he'⟩ := h.rotated hP hlP hitems hall hleft hrot
    refine ⟨fun hle => absurd hle (by rw [hmax]; unfold IndexNode.size; omega), v', _, hs,
      ⟨h', hb.rotated h hP hlP hitems hpc (by omega) (by omega) hrot, he'⟩, fun hocc => ?_⟩
    have hshort' := hocc.short hproot
    have hmost := hocc.most _ hnb.1
    rw [hnb.2.1] at hmost
    rw [levelMin] at hshort'
    refine hocc.rotated h hP hlP hitems hpc ⟨?_, ?_⟩ ⟨?_, ?_⟩ hrot <;> rw [levelMin] at * <;> omega
  · intro hfew
    rw [hmax] at hfew
    refine (coalesce_at h hP hlP hitems hkind hside).bind fun _ => ?_
    refine Triple.of_exists fun v₁ => Triple.and_of fun hs => ?_
    refine (hclimb v₁ _ (h.mergeInto hP hlP hitems hs) ⟨hP, hPr.symm⟩
      (hb.merged h hP hlP hitems hpc hs) rfl hs.rootPage
      (hlost.merged h hP hlPp hitems hs)).conseq (fun _ => id) ?_ ?_
    · rintro _ s ⟨hC, v', g', hs', hr'⟩
      refine ⟨fun _ => hC, v', g', hs',
        hr'.toRebalanced.of_entries fun item => h.entry_mergeInto hP hlP hitems hs item,
        fun hocc => hr'.occupied (hocc.merged h hP hlP hitems hpc ?_ hs)⟩
      unfold IndexNode.size at hfew
      omega
    · rintro e s ⟨he, hC⟩
      exact ⟨he, fun hc => hC (hc (by rw [hmax]; omega))⟩

/-- The position of a child among the items of its parent tells which neighbor is taken. -/
theorem side_of_getElem {items : List (Item κ)} {it : Item κ} (hitem : items[index]? = some it)
    (hnb : items[if index = 0 then 1 else index - 1]? ≠ none) :
    ∃ js il ir ks nb, items = js ++ il :: ir :: ks ∧
      items[if index = 0 then 1 else index - 1]? = some nb ∧
      Side js il ir nb.child it.child index := by
  cases index with
  | zero =>
    match items, hitem, hnb with
    | [_], _, hnb => simp at hnb
    | a :: b :: ks, hitem, _ =>
      obtain rfl : a = it := by simpa using hitem
      exact ⟨[], a, b, ks, b, rfl, rfl, Or.inl ⟨rfl, rfl, rfl, rfl⟩⟩
  | succ n =>
    obtain ⟨hlt, hget⟩ := List.getElem?_eq_some_iff.mp hitem
    rw [if_neg (Nat.succ_ne_zero n), Nat.succ_sub_one]
    refine ⟨items.take n, items[n], it, items.drop (n + 1 + 1), items[n], ?_, ?_, ?_⟩
    · rw [← hget, ← List.drop_eq_getElem_cons hlt, ← List.drop_eq_getElem_cons (by omega),
        List.take_append_drop]
    · exact List.getElem?_eq_getElem (by omega)
    · refine Or.inr ⟨rfl, rfl, ?_⟩
      rw [List.length_take]
      omega

/-- `coalesce_or_redistribute` leaves a balanced tree with the same entries, or ends the process
exactly if some page on the way does not keep its place. -/
theorem coalesceOrRedistribute_spec (hcmp : RankedBy tree.keyComparator rank)
    (hm : 3 ≤ tree.fileHeader.internalMaxSize) (fuel : Nat) (h : TreeInv rank v g none)
    (hp : g.dom p) (hb : Lacking tree.fileHeader v g p) (hkind : kind = .leaf ↔ g.lvl p = 0)
    (hlost : LostOne v₀ v g p) (hfuel : g.lvl v.rootPage < g.lvl p + fuel) :
    Triple (At v) (coalesceOrRedistribute tree fuel kind p)
      (fun _ s => Locatable tree.fileHeader tree.keyComparator v₀ p ∧
        ∃ v' g', At v' s ∧ Refilled tree.fileHeader rank v g p v' g')
      (Aborts ¬ Locatable tree.fileHeader tree.keyComparator v₀ p) := by
  induction fuel generalizing v g p kind with
  | zero =>
    have := h.lvl_le p hp
    omega
  | succ fuel ih =>
    have hmin : minSize tree.fileHeader (v.node p) = levelMin tree.fileHeader (g.lvl p) :=
      h.minSize_eq hp
    have hmin₀ : minSize tree.fileHeader (v₀.node p) = minSize tree.fileHeader (v.node p) := by
      rw [minSize, minSize, maxSize, maxSize, hlost.isLeaf]
    have hsize₀ := hlost.size
    refine readNode_bind <| Triple.ite (fun hfull => ?_) fun hsmall => Triple.ite ?_ ?_
    · -- the page is full enough
      refine Triple.pure fun s hs => ⟨locatable_of_large (by omega), v, g, hs,
        ⟨h, hb.balanced ?_ ?_, fun _ => Iff.rfl⟩, fun hocc => hocc.occupied fun _ => ?_⟩
      · intro _
        rw [hmin, levelMin] at hfull
        unfold IndexNode.size at hfull
        change levelMax tree.fileHeader (g.lvl p) / 2 ≤ _
        omega
      · rintro rfl hl
        rw [hmin, levelMin, levelMax, if_neg hl] at hfull
        unfold IndexNode.size at hfull
        omega
      · rw [hmin] at hfull
        exact hfull
    · intro hpar
      obtain rfl := (h.parent_eq_invalid_iff hp (by simp)).mp hpar
      have hloc : Locatable tree.fileHeader tree.keyComparator v₀ v.rootPage :=
        locatable_root hlost.rootPage
      refine Triple.ite (fun hmany => ?_) fun hfew => ?_
      · refine Triple.pure fun s hs => ⟨hloc, v, g, hs, ⟨h, ?_, fun _ => Iff.rfl⟩, fun hocc => ?_⟩
        · exact hb.balanced (fun hc => absurd rfl hc) fun _ _ => hmany
        · exact hocc.occupied fun hc => absurd rfl hc
      · exact ignoreRC_at ((adjustRoot_at (E := fun _ _ => False) h hp hb (not_lt.mp hfew)).conseq
          (fun _ => id) (fun _ _ hs => ⟨hloc, hs⟩) fun _ _ => False.elim)
    · intro hpar
      have hproot : p ≠ v.rootPage := fun hc =>
        hpar ((h.parent_eq_invalid_iff hp (by simp)).mpr hc)
      have hproot₀ : p ≠ v₀.rootPage := hlost.rootPage ▸ hproot
      have hsmall₀ : (v₀.node p).size ≤ minSize tree.fileHeader (v₀.node p) := by omega
      obtain ⟨js₀, it₀, ks₀, hitems₀, hit₀, hP, hlP⟩ := h.child_of_parent hp hproot (by simp)
      have hlP0 : g.lvl (v.node p).parent ≠ 0 := by omega
      have hkeeps := hlost.keepsPlace_iff hcmp h hp hproot
      have hfails : (∀ last, (v.node p).items[(v.node p).size - 1]? = some last →
          ¬ Located tree.keyComparator v p last.key) →
          ¬ Locatable tree.fileHeader tree.keyComparator v₀ p := fun hno hloc => by
        obtain ⟨last, hlast, hl⟩ := hkeeps.mp (hloc.keepsPlace hproot₀ hsmall₀)
        exact hno last hlast hl
      refine (getPage_at (h.inFile hP)).bind fun _ => readNode_bind ?_
      by_cases hempty : (v.node p).size = 0
      · -- there is no last key
        refine Triple.bind (Q := fun _ _ => False) ?_ fun _ => fun _ hf => hf.elim
        refine Triple.bind (Q := fun _ _ => False) ?_ fun _ => fun _ hf => hf.elim
        refine itemAt_abort (Or.inl (by omega)) fun s hs => ⟨rfl, hfails fun last hlast => ?_⟩
        have := (List.getElem?_eq_some_iff.mp hlast).1
        unfold IndexNode.size at hempty this
        omega
      have hlt : (v.node p).size - 1 < (v.node p).items.length := by
        unfold IndexNode.size at hempty ⊢
        omega
      obtain ⟨last, hlast⟩ : ∃ last, (v.node p).items[(v.node p).size - 1]? = some last :=
        ⟨_, List.getElem?_eq_getElem hlt⟩
      have hfails' : ¬ Located tree.keyComparator v p last.key →
          ¬ Locatable tree.fileHeader tree.keyComparator v₀ p := fun hno =>
        hfails fun last' hlast' => by
          rw [hlast] at hlast'
          cases hlast'
          exact hno
      rw [show ((v.node p).size : Int) - 1 = (((v.node p).size - 1 : Nat) : Int) by omega]
      refine keyAt_bind _ _ hlast ?_
      have hkeeps' : Located tree.keyComparator v p last.key →
          KeepsPlace tree.keyComparator v₀ p := fun hl => hkeeps.mpr ⟨last, hlast, hl⟩
      unfold Located at hfails' hkeeps'
      generalize (InternalIndexNodeHandler.lookup tree.keyComparator
        (v.node (v.node p).parent) last.key).1 = index at hfails' hkeeps' ⊢
      cases hit : (v.node (v.node p).parent).items[index]? with
      | none =>
        refine Triple.bind (Q := fun _ _ => False) ?_ fun _ => fun _ hf => hf.elim
        refine Triple.bind (Q := fun _ _ => False) ?_ fun _ => fun _ hf => hf.elim
        refine itemAt_abort (Or.inr ?_) fun s hs => ⟨rfl, hfails' ?_⟩
        · have := List.getElem?_eq_none_iff.mp hit
          unfold IndexNode.size
          omega
        · rintro ⟨it, nb, hc, -⟩
          rw [hit] at hc
          cases hc
      | some it =>
        refine valueAt_bind _ _ hit <| Triple.ite (fun hne => ?_) fun heq => ?_
        · refine Triple.throw fun s hs => ⟨rfl, hfails' ?_⟩
          rintro ⟨it', nb, hc, hp', -⟩
          rw [hit] at hc
          cases hc
          exact hne hp'
        · rw [not_not] at heq
          by_cases hnb : (v.node (v.node p).parent).items[neighborSlot index]? = none
          · -- there is no neighbor
            refine Triple.bind (Q := fun _ _ => False) ?_ fun _ => fun _ hf => hf.elim
            refine Triple.bind (Q := fun _ _ => False) ?_ fun _ => fun _ hf => hf.elim
            refine itemAt_abort (Or.inr ?_) fun s hs => ⟨rfl, hfails' ?_⟩
            · have hlen := List.getElem?_eq_none_iff.mp hnb
              unfold neighborSlot at hlen
              unfold IndexNode.size
              omega
            · rintro ⟨it', nb, -, -, hc⟩
              rw [hnb] at hc
              cases hc
          · obtain ⟨js, il, ir, ks, nb, hitems, hnb', hside⟩ := side_of_getElem hit hnb
            have hkp := hkeeps' ⟨it, nb, hit, heq, hnb'⟩
            have hiff := hlost.locatable_iff h hp hproot hsmall₀ hit heq hnb' hkp
            rw [heq] at hside
            refine valueAt_bind _ _ hnb' ?_
            rw [hiff]
            refine borrowOrMerge_at h hb hp hP hlP0 hitems hkind hside (not_le.mp hsmall) hlost ?_
            intro v₁ g₁ h₁ hd₁ hb₁ hl₁ hr₁ hlost₁
            refine ih h₁ hd₁ hb₁ ?_ hlost₁ ?_
            · rw [hl₁]
              simpa using hlP0
            · rw [hl₁, hr₁]
              omega

end Climb

/-! ## The entry -/

/-- The pages `v'` are a balanced tree and hold the entries of `v` with other keys. -/
structure Removed (header : IndexFileHeader) (rank : κ → ρ) (v : Pages κ) (g : Layout ρ) (key : κ)
    (v' : Pages κ) (g' : Layout ρ) : Prop where
  tree : TreeInv rank v' g' none
  balanced : Balanced header v' g' none
  entries : ∀ item, Entry v' g' item ↔ Entry v g item ∧ rank item.key ≠ rank key

section Entry

variable {tree : BplusTreeHandler κ} {key : κ} {s₀ : Mtr κ}

/-- The tree right after an item has left a leaf. -/
theorem Lacking.of_wellFormed (hw : WellFormed header rank v g) (hp : g.dom p) (hl : g.lvl p = 0)
    {js ks : List (Item κ)} {old : Item κ} (hitems : (v.node p).items = js ++ old :: ks) :
    Lacking header (v.setNode p { v.node p with items := js ++ ks }) g p where
  filled x hx hxr hxp := by
    rw [Pages.setNode_of_ne hxp]
    exact hw.balanced.filled x hx (Or.inl hxr)
  short hpr := by
    have := hw.balanced.filled p hp (Or.inl hpr)
    rw [hitems] at this
    rw [Pages.setNode_self]
    simp only [List.length_append, List.length_cons] at this ⊢
    omega
  root hr hrp hlr := by
    rw [Pages.setNode_rootPage] at hr hrp hlr ⊢
    rw [Pages.setNode_of_ne hrp]
    exact hw.balanced.root hr (by simp) hlr
  onlyChild _ hl' _ _ := absurd hl hl'

omit [LinearOrder ρ] in
/-- How full the tree is right after an item has left a leaf. -/
theorem OccupiedBut.of_occupied (hocc : Occupied header v g none)
    {js ks : List (Item κ)} {old : Item κ} (hitems : (v.node p).items = js ++ old :: ks)
    (hp : g.dom p) :
    OccupiedBut header (v.setNode p { v.node p with items := js ++ ks }) g p where
  least x hx hxr hxp := by
    rw [Pages.setNode_of_ne hxp]
    exact hocc.least x hx (Or.inl hxr)
  short hpr := by
    have := hocc.least p hp (Or.inl hpr)
    rw [hitems] at this
    rw [Pages.setNode_self]
    simp only [List.length_append, List.length_cons] at this ⊢
    omega
  most x hx := by
    have := hocc.most x hx
    by_cases hxp : x = p
    · rw [hxp, hitems] at this
      rw [hxp, Pages.setNode_self]
      simp only [List.length_append, List.length_cons] at this ⊢
      omega
    · rwa [Pages.setNode_of_ne hxp]

omit [LinearOrder ρ] in
theorem LostOne.of_leaf (hl : g.lvl p = 0) {js ks : List (Item κ)} {old : Item κ}
    (hitems : (v.node p).items = js ++ old :: ks) :
    LostOne v (v.setNode p { v.node p with items := js ++ ks }) g p where
  rootPage := rfl
  isLeaf := by rw [Pages.setNode_self]
  parent := by rw [Pages.setNode_self]
  items := ⟨js, old, ks, hitems, by rw [Pages.setNode_self], fun hl' => absurd hl hl'⟩
  others x _ _ hxp := Pages.setNode_of_ne hxp

/-- `delete_entry_internal`, from the leaf that the descent has found. -/
theorem deleteEntryInternal_spec (hcmp : RankedBy tree.keyComparator rank)
    (hm : 3 ≤ tree.fileHeader.internalMaxSize)
    (hw : WellFormed tree.fileHeader rank v g) (hs₀ : At v s₀) (hp : g.dom p) (hl : g.lvl p = 0)
    (hlo : g.lo p ≤ at_ (rank key)) (hhi : at_ (rank key) < g.hi p) :
    Triple (· = s₀) (deleteEntryInternal tree p key)
      (fun _ s => (∃ item, Entry v g item ∧ rank item.key = rank key) ∧
        Locatable tree.fileHeader tree.keyComparator v p ∧ ∃ v' g', At v' s ∧
          Removed tree.fileHeader rank v g key v' g' ∧
          (Occupied tree.fileHeader v g none → Occupied tree.fileHeader v' g' none))
      (fun e s => (e = .rc .recordNotExist ∧
          (¬ ∃ item, Entry v g item ∧ rank item.key = rank key) ∧ s = s₀) ∨
        ((∃ item, Entry v g item ∧ rank item.key = rank key) ∧
          Aborts (¬ Locatable tree.fileHeader tree.keyComparator v p) e s)) := by
  have h := hw.tree
  have hleaf := h.leaf p hp hl
  have hpos := LeafIndexNodeHandler.lookup_spec key hcmp hleaf.sorted
  rw [h.key_in_leaf hp hl hlo hhi, ← hpos.found_iff]
  unfold deleteEntryInternal LeafIndexNodeHandler.removeKey
  rw [bind_assoc]
  refine readNode_of (v := v) (fun s hs => hs ▸ hs₀.1) ?_
  generalize LeafIndexNodeHandler.lookup tree.keyComparator (v.node p) key = result at hpos ⊢
  obtain ⟨pos, found⟩ := result
  cases found with
  | false => exact Triple.throw fun s hs => Or.inl ⟨rfl, by simp, hs⟩
  | true =>
    obtain ⟨old, hold, hrank⟩ := hpos.hit rfl
    have hlt := (List.getElem?_eq_some_iff.mp hold).1
    have hitems : (v.node p).items =
        (v.node p).items.take pos ++ old :: (v.node p).items.drop (pos + 1) := by
      rw [← (List.getElem?_eq_some_iff.mp hold).2, ← List.drop_eq_getElem_cons hlt,
        List.take_append_drop]
    have hb := Lacking.of_wellFormed hw hp hl hitems
    have hocc := fun hocc : Occupied tree.fileHeader v g none =>
      OccupiedBut.of_occupied hocc hitems hp
    have hlost := LostOne.of_leaf hl hitems
    simp only [if_true, bind_assoc, pure_bind, Nat.one_ne_zero, if_false]
    refine Triple.pre (H := At v) ?_ fun s hs => hs ▸ hs₀
    refine (LeafIndexNodeHandler.remove_at hlt).bind fun _ => markDirty_at.bind fun _ => ?_
    set v₁ := v.setNode p { v.node p with
      items := (v.node p).items.take pos ++ (v.node p).items.drop (pos + 1) } with hv₁
    have h₁ : TreeInv rank v₁ g none := h.setLeaf hp hl
      { isLeaf := hleaf.isLeaf
        sorted := hleaf.sorted.sublist (by
          conv_rhs => rw [hitems]
          exact (List.sublist_cons_self _ _).append_left _)
        bounds := fun item hm => hleaf.bounds item (by
          rw [hitems]
          simp only [List.mem_append, List.mem_cons] at hm ⊢
          tauto) }
    have he₁ : ∀ item, Entry v₁ g item ↔ Entry v g item ∧ rank item.key ≠ rank key := fun item => by
      rw [← hrank]
      exact h.entry_removeLeaf hp hl hitems
    refine readNode_bind <| Triple.ite (fun hfull => ?_) fun _ => rounds_bind ?_
    · have hsize := hlost.size
      have hmin : minSize tree.fileHeader (v.node p) = levelMin tree.fileHeader (g.lvl p) :=
        h.minSize_eq hp
      rw [h₁.minSize_eq hp] at hfull
      refine Triple.pure fun s hs => ⟨trivial, locatable_of_large (by omega), v₁, g, hs,
        ⟨h₁, hb.balanced (fun _ => ?_) ?_, he₁⟩, fun hfull₀ => (hocc hfull₀).occupied fun _ => hfull⟩
      · rw [levelMin] at hfull
        unfold IndexNode.size at hfull
        change levelMax tree.fileHeader (g.lvl p) / 2 ≤ _
        omega
      · exact fun hrp hl' => absurd hl (hrp ▸ hl')
    · have hr₁ := h₁.lvl_root_lt (h₁.dom_root hp)
      refine (coalesceOrRedistribute_spec hcmp hm _ h₁ hp hb (by simp [hl]) hlost (by omega)).conseq
        (fun _ => id) ?_ fun e s he => Or.inr ⟨trivial, he⟩
      rintro _ s ⟨hloc, v', g', hs, hreb⟩
      exact ⟨trivial, hloc, v', g', hs, ⟨hreb.tree, hreb.balanced,
        fun item => (hreb.entries item).trans (he₁ item)⟩, fun h₀ => hreb.occupied (hocc h₀)⟩

end Entry

end ObHtap
