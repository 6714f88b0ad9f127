import ObHtap.Bplus.Invariant
import ObHtap.Bplus.NodeHandler

/-!
# How full the pages are kept

`min_size` and `max_size` of the pages of a level, and the splits that an insertion goes on to
make once a page has been split.
-/

namespace ObHtap

open IndexNodeHandler

variable {κ ρ : Type} [LinearOrder ρ] {rank : κ → ρ} {v v' : Pages κ} {g : Layout ρ}
  {hole : Option (PageNum × PageNum)} {header : IndexFileHeader} {p x : PageNum} {slot : Nat}

/-- `max_size` of the pages of a level. -/
def levelMax (header : IndexFileHeader) (lvl : Nat) : Nat :=
  if lvl = 0 then header.leafMaxSize else header.internalMaxSize

/-- `min_size` of the pages of a level. -/
def levelMin (header : IndexFileHeader) (lvl : Nat) : Nat :=
  levelMax header lvl - levelMax header lvl / 2

theorem TreeInv.maxSize_eq (h : TreeInv rank v g hole) (hp : g.dom p) :
    maxSize header (v.node p) = levelMax header (g.lvl p) := by
  unfold maxSize levelMax
  by_cases h0 : g.lvl p = 0
  · rw [if_pos h0, if_pos ((h.isLeaf_iff hp).mpr h0)]
  · rw [if_neg h0, if_neg (by rw [(h.internal p hp h0).isLeaf]; simp)]

theorem TreeInv.minSize_eq (h : TreeInv rank v g hole) (hp : g.dom p) :
    minSize header (v.node p) = levelMin header (g.lvl p) := by
  rw [minSize, levelMin, h.maxSize_eq hp]

/-- Pages other than the root have at least `min_size` items, and no page has more than
`max_size`. -/
structure Occupied (header : IndexFileHeader) (v : Pages κ) (g : Layout ρ)
    (hole : Option (PageNum × PageNum)) : Prop where
  least : ∀ x, g.dom x → (x ≠ v.rootPage ∨ ∃ r, hole = some (x, r)) →
    levelMin header (g.lvl x) ≤ (v.node x).items.length
  most : ∀ x, g.dom x → (v.node x).items.length ≤ levelMax header (g.lvl x)

/-- The tree while a deletion climbs: the page `p` may be one item short of `min_size`. -/
structure OccupiedBut (header : IndexFileHeader) (v : Pages κ) (g : Layout ρ) (p : PageNum) :
    Prop where
  least : ∀ x, g.dom x → x ≠ v.rootPage → x ≠ p → levelMin header (g.lvl x) ≤ (v.node x).items.length
  short : p ≠ v.rootPage → levelMin header (g.lvl p) ≤ (v.node p).items.length + 1
  most : ∀ x, g.dom x → (v.node x).items.length ≤ levelMax header (g.lvl x)

omit [LinearOrder ρ] in
theorem OccupiedBut.occupied (h : OccupiedBut header v g p)
    (hp : p ≠ v.rootPage → levelMin header (g.lvl p) ≤ (v.node p).items.length) :
    Occupied header v g none where
  least x hx hxr := by
    have hxr' : x ≠ v.rootPage := hxr.elim id fun ⟨_, hc⟩ => by simp at hc
    by_cases hxp : x = p
    · subst hxp
      exact hp hxr'
    · exact h.least x hx hxr' hxp
  most := h.most

/-- A page of odd capacity whose right half takes the new item: the left half is left with fewer
items than `min_size` asks for. -/
def Uneven (capacity position : Nat) : Prop := capacity % 2 = 1 ∧ capacity / 2 ≤ position

instance (capacity position : Nat) : Decidable (Uneven capacity position) :=
  inferInstanceAs (Decidable (_ ∧ _))

/-- An insertion that has split the page `p` goes on to split the page `x`, in whose slot `slot`
it comes from a child that has been split. -/
inductive SplitAbove (header : IndexFileHeader) (v : Pages κ) : PageNum → PageNum → Nat → Prop
  | parent {p : PageNum} {item : Item κ} {slot : Nat} : p ≠ v.rootPage →
      (v.node (v.node p).parent).items[slot]? = some item → item.child = p →
      header.internalMaxSize ≤ (v.node (v.node p).parent).size →
      SplitAbove header v p (v.node p).parent slot
  | above {p x : PageNum} {slot : Nat} : p ≠ v.rootPage →
      header.internalMaxSize ≤ (v.node (v.node p).parent).size →
      SplitAbove header v (v.node p).parent x slot → SplitAbove header v p x slot

/-- All splits from `p` on leave both halves full enough. -/
def EvenAbove (header : IndexFileHeader) (v : Pages κ) (p : PageNum) : Prop :=
  ∀ x slot, SplitAbove header v p x slot → ¬ Uneven header.internalMaxSize slot

/-- All splits of an insertion at `position` in the leaf `p` leave both halves full enough. -/
def EvenFrom (header : IndexFileHeader) (v : Pages κ) (p : PageNum) (position : Nat) : Prop :=
  header.leafMaxSize ≤ (v.node p).size →
    ¬ Uneven header.leafMaxSize position ∧ EvenAbove header v p

/-- Between the pages `v` and `v'` the pages stay as full as they should be exactly in the case
`even`. -/
def OccupiedWhen (header : IndexFileHeader) (v : Pages κ) (g : Layout ρ) (v' : Pages κ)
    (g' : Layout ρ) (even : Prop) : Prop :=
  Occupied header v g none → (Occupied header v' g' none ↔ even)

omit [LinearOrder ρ]

theorem evenAbove_root (hp : p = v.rootPage) : EvenAbove header v p := by
  intro x slot h
  cases h with
  | parent hne => exact absurd hp hne
  | above hne => exact absurd hp hne

theorem evenAbove_of_room (hroom : (v.node (v.node p).parent).size < header.internalMaxSize) :
    EvenAbove header v p := by
  intro x slot h
  cases h with
  | parent _ _ _ hfull => omega
  | above _ hfull => omega

theorem evenAbove_iff (hp : p ≠ v.rootPage)
    (hfull : header.internalMaxSize ≤ (v.node (v.node p).parent).size)
    (hslot : ∀ i item, (v.node (v.node p).parent).items[i]? = some item → item.child = p → i = slot)
    (hitem : ∃ item, (v.node (v.node p).parent).items[slot]? = some item ∧ item.child = p) :
    EvenAbove header v p ↔
      ¬ Uneven header.internalMaxSize slot ∧ EvenAbove header v (v.node p).parent := by
  constructor
  · intro h
    obtain ⟨item, hget, hchild⟩ := hitem
    refine ⟨h _ _ (.parent hp hget hchild hfull), fun x i hx => h x i (.above hp hfull hx)⟩
  · rintro ⟨hslot', habove⟩ x i hx
    cases hx with
    | parent _ hget hchild _ => exact hslot i _ hget hchild ▸ hslot'
    | above _ _ hx => exact habove x i hx

/-- Two states of the pages have the same pages from those of `U` upwards. -/
structure SameAbove (U : PageNum → Prop) (v v' : Pages κ) : Prop where
  rootPage : v'.rootPage = v.rootPage
  parent : ∀ x, U x → (v'.node x).parent = (v.node x).parent
  node : ∀ x, U x → x ≠ v.rootPage → v'.node (v.node x).parent = v.node (v.node x).parent
  up : ∀ x, U x → x ≠ v.rootPage → U (v.node x).parent

theorem SameAbove.symm {U : PageNum → Prop} (h : SameAbove U v v') : SameAbove U v' v where
  rootPage := h.rootPage.symm
  parent x hx := (h.parent x hx).symm
  node x hx hne := by
    rw [h.rootPage] at hne
    rw [h.parent x hx, h.node x hx hne]
  up x hx hne := by
    rw [h.rootPage] at hne
    rw [h.parent x hx]
    exact h.up x hx hne

/-- The pages above a page are its parent, the parent of that and so on. -/
theorem TreeInv.sameAbove [LinearOrder ρ] (h : TreeInv rank v g hole)
    (hhole : ∀ l r, hole = some (l, r) → g.lvl r < g.lvl p) (hroot : v'.rootPage = v.rootPage)
    (hpar : (v'.node p).parent = (v.node p).parent)
    (hnode : ∀ x, g.dom x → g.lvl p ≤ g.lvl x → x ≠ p → v'.node x = v.node x) :
    SameAbove (fun x => g.dom x ∧ g.lvl p ≤ g.lvl x) v v' := by
  have hup : ∀ x, g.dom x → g.lvl p ≤ g.lvl x → x ≠ v.rootPage →
      g.dom (v.node x).parent ∧ g.lvl p < g.lvl (v.node x).parent := by
    intro x hx hlx hne
    obtain ⟨_, _, _, _, _, hd, hl⟩ := h.child_of_parent hx hne fun l hc => by
      have := hhole l x hc
      omega
    exact ⟨hd, by omega⟩
  refine ⟨hroot, ?_, ?_, ?_⟩
  · rintro x ⟨hx, hlx⟩
    by_cases hxp : x = p
    · rw [hxp, hpar]
    · rw [hnode x hx hlx hxp]
  · rintro x ⟨hx, hlx⟩ hne
    obtain ⟨hd, hl⟩ := hup x hx hlx hne
    exact hnode _ hd hl.le fun hc => by rw [hc] at hl; omega
  · rintro x ⟨hx, hlx⟩ hne
    exact ⟨(hup x hx hlx hne).1, (hup x hx hlx hne).2.le⟩

theorem SplitAbove.congr {U : PageNum → Prop} (h : SameAbove U v v') (hp : U p)
    (hx : SplitAbove header v p x slot) : SplitAbove header v' p x slot := by
  induction hx with
  | @parent p item slot hne hget hchild hfull =>
    rw [← h.parent p hp]
    refine .parent (by rwa [h.rootPage]) ?_ hchild ?_ <;> rw [h.parent p hp, h.node p hp hne]
    · exact hget
    · exact hfull
  | @above p x slot hne hfull _ ih =>
    refine .above (by rwa [h.rootPage]) ?_ ?_ <;> rw [h.parent p hp]
    · rw [h.node p hp hne]
      exact hfull
    · exact ih (h.up p hp hne)

theorem evenAbove_congr {U : PageNum → Prop} (h : SameAbove U v v') (hp : U p) :
    EvenAbove header v' p ↔ EvenAbove header v p :=
  forall₂_congr fun _ _ => imp_congr_left ⟨.congr h.symm hp, .congr h hp⟩

end ObHtap
