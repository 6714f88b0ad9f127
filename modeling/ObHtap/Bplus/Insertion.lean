import ObHtap.Bplus.Merge
import ObHtap.Bplus.Descent
import ObHtap.Bplus.MoveSpec
import ObHtap.Bplus.Occupancy

/-!
# Insertion keeps the structure

The functions of the insertion path run without failure on a well-formed tree and leave a
well-formed tree that holds the new entry besides the old ones.
-/

namespace ObHtap

open ObHtap.Bound IndexNodeHandler BplusTreeHandler

variable {κ ρ : Type} [LinearOrder ρ] {rank : κ → ρ} {v v' : Pages κ} {g : Layout ρ}
  {hole : Option (PageNum × PageNum)} {E : Fault → Mtr κ → Prop}

/-! ## New pages -/

namespace Pages

/-- The page that `allocate_page` hands out next. -/
def newPage (v : Pages κ) : PageNum := (v.fileHeader.allocate.1 : Int)

/-- The pages after `allocate_page`. -/
def allocate (v : Pages κ) : Pages κ := { v with fileHeader := v.fileHeader.allocate.2 }

@[simp] theorem allocate_node : v.allocate.node = v.node := rfl

theorem allocated_allocate {x : PageNum} :
    v.allocate.Allocated x ↔ v.Allocated x ∨ x = v.newPage := by
  unfold Allocated allocate newPage
  rw [BPFileHeader.allocated_allocate]
  constructor
  · rintro ⟨h0, h | h⟩
    · exact Or.inl ⟨h0, h⟩
    · exact Or.inr (by rw [← h, Int.toNat_of_nonneg h0])
  · rintro (⟨h0, h⟩ | rfl)
    · exact ⟨h0, Or.inl h⟩
    · exact ⟨Int.natCast_nonneg _, Or.inr (Int.toNat_natCast _)⟩

theorem not_allocated_newPage : ¬ v.Allocated v.newPage := by
  rintro ⟨-, h⟩
  rw [newPage, Int.toNat_natCast] at h
  exact BPFileHeader.not_allocated_allocate _ h

theorem InFile.allocate {x : PageNum} (h : v.InFile x) : v.allocate.InFile x :=
  ⟨h.1, h.2.trans_le (BPFileHeader.pageCount_le_allocate _)⟩

end Pages

theorem allocatePage_bind {α : Type} {Q : α → Mtr κ → Prop} {f : PageNum → MtrM κ α}
    (h : Triple (At v.allocate) (f v.newPage) Q E) :
    Triple (At v) (allocatePage >>= f) Q E :=
  allocatePage_at.bind fun _ => Triple.of_and fun hq => hq ▸ h

namespace TreeInv

theorem newPage_not_dom (h : TreeInv rank v g hole) : ¬ g.dom v.newPage :=
  fun hd => Pages.not_allocated_newPage (h.alloc _ hd).2.1

theorem two_le_newPage (h : TreeInv rank v g hole) : 2 ≤ v.newPage := by
  have h0 : v.newPage ≠ 0 := fun hc => Pages.not_allocated_newPage (hc ▸ h.headers.1)
  have h1 : v.newPage ≠ firstIndexPage := fun hc => by
    have := h.headers.2
    rw [← hc] at this
    exact Pages.not_allocated_newPage this
  change (2 : Int) ≤ (v.fileHeader.allocate.1 : Nat)
  change ((v.fileHeader.allocate.1 : Nat) : Int) ≠ (0 : Int) at h0
  change ((v.fileHeader.allocate.1 : Nat) : Int) ≠ (1 : Int) at h1
  omega

end TreeInv

theorem updateRootPageNumLocked_at {rootPage : PageNum} :
    Triple (At v) (updateRootPageNumLocked rootPage) (fun _ => At { v with rootPage }) E :=
  nextOutcome_bind <| readRootPage_bind <| appendLogEntry_at.bind fun _ =>
    writeRootPage_at.bind fun _ => markDirty_at

/-! ## Splitting -/

/-- The pages after `split`: the new page has taken over the second half of the items. -/
structure SplitPage (kind : NodeKind) (v v' : Pages κ) (p q : PageNum) : Prop where
  fileHeader : v'.fileHeader = v.allocate.fileHeader
  rootPage : v'.rootPage = v.rootPage
  disposed : v'.disposedPages = v.disposedPages
  left : v'.node p = { v.node p with items := (v.node p).items.take ((v.node p).size / 2) }
  isLeaf : (v'.node q).isLeaf = decide (kind = .leaf)
  parent : (v'.node q).parent = (v.node p).parent
  right : (v'.node q).items = (v.node p).items.drop ((v.node p).size / 2)
  others : ∀ x, x ≠ p → x ≠ q → v'.node x =
    { v.node x with
      parent := if x ∈ kind.children ((v.node p).items.drop ((v.node p).size / 2)) then q
        else (v.node x).parent }

omit [LinearOrder ρ] in
theorem SplitPage.allocated {kind : NodeKind} {p q x : PageNum} (hs : SplitPage kind v v' p q)
    (hx : v.Allocated x ∨ x = v.newPage) : v'.Allocated x := by
  rw [Pages.Allocated, hs.fileHeader]
  exact Pages.allocated_allocate.mpr hx

theorem initEmpty_at {kind : NodeKind} {q : PageNum} :
    Triple (At v) (kind.initEmpty q)
      (fun _ s => ∃ node : IndexNode κ, node.isLeaf = decide (kind = .leaf) ∧ node.items = [] ∧
        At (v.setNode q node) s) E := by
  cases kind with
  | leaf => exact LeafIndexNodeHandler.initEmpty_at.post fun _ s hs => ⟨_, rfl, rfl, hs⟩
  | internal => exact InternalIndexNodeHandler.initEmpty_at.post fun _ s hs => ⟨_, rfl, rfl, hs⟩

theorem split_at {kind : NodeKind} {p : PageNum} (hp : p ≠ v.newPage)
    (hmov : Movable v kind p v.newPage (v.node p).items) :
    Triple (At v) (split kind p)
      (fun q s => q = v.newPage ∧ ∃ v', At v' s ∧ SplitPage kind v v' p v.newPage) E := by
  refine allocatePage_bind <| initEmpty_at.bind fun _ => Triple.of_exists fun node => ?_
  refine Triple.of_and fun hleaf => Triple.of_and fun hitems => ?_
  refine readNode_bind <| setParentPageNum_at.bind fun _ => ?_
  simp only [Pages.setNode_self, Pages.setNode_setNode, Pages.setNode_of_ne hp, Pages.allocate_node]
  have hnode : ((v.allocate.setNode v.newPage { node with parent := (v.node p).parent }).node p) =
      v.node p := Pages.setNode_of_ne hp
  have hmov' : Movable (v.allocate.setNode v.newPage { node with parent := (v.node p).parent }) kind
      p v.newPage (v.node p).items :=
    fun hk item hm => ⟨(hmov hk item hm).1.allocate, (hmov hk item hm).2⟩
  refine (ignoreRC_at (E := E) ((NodeKind.moveHalfTo_at hp (by rwa [hnode])).conseq (F := fun _ _ => False)
    (fun _ => id) (fun _ _ => id) (fun _ _ => False.elim))).bind fun _ => ?_
  refine Triple.of_exists fun v' => Triple.and_of fun hm => ?_
  refine markDirty_at.bind fun _ => markDirty_at.bind fun _ => Triple.pure fun s hs => ?_
  rw [hnode] at hm
  refine ⟨rfl, v', hs, ?_⟩
  exact
    { fileHeader := hm.fileHeader
      rootPage := hm.rootPage
      disposed := hm.disposed
      left := by rw [hm.source, hnode]
      isLeaf := by rw [hm.dest, Pages.setNode_self]; exact hleaf
      parent := by rw [hm.dest, Pages.setNode_self]
      right := by rw [hm.dest, Pages.setNode_self]; simp [hitems]
      others := by
        intro x hx1 hx2
        rw [hm.others x hx1 hx2, Pages.setNode_of_ne hx2]
        rfl }

/-! ## How full the pages are -/

/-- The least number of items of a page that is not the root. -/
def minFill (header : IndexFileHeader) (lvl : Nat) : Nat :=
  (if lvl = 0 then header.leafMaxSize else header.internalMaxSize) / 2

/-- Pages other than the root are at least half full, and an internal root has two children. -/
structure Balanced (header : IndexFileHeader) (v : Pages κ) (g : Layout ρ)
    (hole : Option (PageNum × PageNum)) : Prop where
  filled : ∀ x, g.dom x → (x ≠ v.rootPage ∨ ∃ r, hole = some (x, r)) →
    minFill header (g.lvl x) ≤ (v.node x).items.length
  root : g.dom v.rootPage → (∀ r, hole ≠ some (v.rootPage, r)) → g.lvl v.rootPage ≠ 0 →
    2 ≤ (v.node v.rootPage).items.length

/-- A tree between operations. -/
structure WellFormed (header : IndexFileHeader) (rank : κ → ρ) (v : Pages κ) (g : Layout ρ) :
    Prop where
  tree : TreeInv rank v g none
  balanced : Balanced header v g none
  disposed : v.disposedPages = []

/-- The pages `v'` are a well-formed tree again and hold the entries that `v` holds. -/
structure Kept (header : IndexFileHeader) (rank : κ → ρ) (v : Pages κ) (g : Layout ρ)
    (v' : Pages κ) (g' : Layout ρ) : Prop extends WellFormed header rank v' g' where
  entries : ∀ item, Entry v' g' item ↔ Entry v g item

/-- The climb from `p` upwards has left the pages up to the level of `p` with as many items, none
of them is the root, and the pages above are as full as the splits allow. -/
structure Climbed (header : IndexFileHeader) (v : Pages κ) (g : Layout ρ) (p q : PageNum)
    (v' : Pages κ) (g' : Layout ρ) : Prop where
  below : ∀ x, g.dom x → g.lvl x ≤ g.lvl p → g'.dom x ∧ g'.lvl x = g.lvl x ∧ x ≠ v'.rootPage ∧
    (v'.node x).items.length = (v.node x).items.length
  occupied : Occupied header v g (some (p, q)) →
    (Occupied header v' g' none ↔ EvenAbove header v p)

omit [LinearOrder ρ] in
/-- After the split of a full page the climb above it decides how full the pages are, unless the
split has left the left half short. -/
theorem Climbed.occupied_iff {header : IndexFileHeader} {v₃ : Pages κ} {p q : PageNum}
    {mid : Bound ρ} {slot : Nat} {g' : Layout ρ}
    (hclimb : Climbed header v₃ (g.split p q mid) p q v' g') (hp : g.dom p) (hq : ¬ g.dom q)
    (hocc : Occupied header v g hole) (hmax : 2 ≤ levelMax header (g.lvl p))
    (hfull : levelMax header (g.lvl p) ≤ (v.node p).items.length)
    (hhalf : (slot < (v.node p).items.length / 2 ∧
        (v₃.node p).items.length = (v.node p).items.length / 2 + 1) ∨
      ((v.node p).items.length / 2 ≤ slot ∧
        (v₃.node p).items.length = (v.node p).items.length / 2))
    (hsum : (v₃.node p).items.length + (v₃.node q).items.length = (v.node p).items.length + 1)
    (hlen : ∀ x, g.dom x → x ≠ p → (v₃.node x).items.length = (v.node x).items.length)
    (hsame : SameAbove (fun x => g.dom x ∧ g.lvl p ≤ g.lvl x) v v₃) :
    Occupied header v' g' none ↔
      ¬ Uneven (levelMax header (g.lvl p)) slot ∧ EvenAbove header v p := by
  have hmost := hocc.most p hp
  have hlvl : ∀ x, g.dom x → (g.split p q mid).lvl x = g.lvl x :=
    fun x hx => if_neg fun (hc : x = q) => hq (hc ▸ hx)
  have hlvlq : (g.split p q mid).lvl q = g.lvl p := if_pos rfl
  by_cases hun : Uneven (levelMax header (g.lvl p)) slot
  · -- the left half stays short
    refine iff_of_false (fun hocc' => ?_) fun hc => hc.1 hun
    obtain ⟨hd', hl', hr', hn'⟩ := hclimb.below p (Or.inr hp) le_rfl
    have hshort := hocc'.least p hd' (Or.inl hr')
    rw [hl', hn', hlvl p hp, levelMin] at hshort
    obtain ⟨hodd, hslot⟩ := hun
    omega
  have hocc₃ : Occupied header v₃ (g.split p q mid) (some (p, q)) := by
    constructor
    · rintro x (rfl | hx) hxr
      · rw [hlvlq, levelMin]
        omega
      · rw [hlvl x hx]
        by_cases hxp : x = p
        · rw [hxp, levelMin]
          unfold Uneven at hun
          omega
        · rw [hlen x hx hxp]
          rw [hsame.rootPage] at hxr
          exact hocc.least x hx (Or.inl (hxr.elim id fun hc =>
            absurd (hc.elim fun _ heq => by cases heq; rfl) hxp))
    · rintro x (rfl | hx)
      · rw [hlvlq]
        omega
      · rw [hlvl x hx]
        by_cases hxp : x = p
        · rw [hxp]
          omega
        · rw [hlen x hx hxp]
          exact hocc.most x hx
  rw [hclimb.occupied hocc₃, and_iff_right hun]
  exact evenAbove_congr hsame ⟨hp, le_rfl⟩

theorem Kept.of_entries {header : IndexFileHeader} {v₁ : Pages κ} {g' g₁ : Layout ρ}
    (h : Kept header rank v₁ g₁ v' g') (he : ∀ item, Entry v₁ g₁ item ↔ Entry v g item) :
    Kept header rank v g v' g' :=
  { h with entries := fun item => (h.entries item).trans (he item) }

/-! ## Inserting a new page into its parent -/

theorem insert_after {α : Type} {js ks : List α} {a b : α} :
    (js ++ a :: ks).take (js.length + 1) ++ b :: (js ++ a :: ks).drop (js.length + 1) =
      js ++ a :: b :: ks := by
  have htake : js.take (js.length + 1) = js := List.take_of_length_le (Nat.le_succ _)
  have hdrop : js.drop (js.length + 1) = [] := List.drop_eq_nil_of_le (Nat.le_succ _)
  simp [List.take_append, List.drop_append, htake, hdrop]

section Parent

variable {p q : PageNum} {js ks : List (Item κ)} {it : Item κ} {key : κ}

/-- The key of a page split off lies right of the item of its left half and left of the items
after it. -/
theorem TreeInv.hole_seps (h : TreeInv rank v g (some (p, q))) {parent : PageNum}
    (hP : g.dom parent) (hlP : g.lvl parent ≠ 0)
    (hitems : (v.node parent).items = js ++ it :: ks) (hit : it.child = p)
    (hkey : g.lo q = at_ (rank key)) :
    (∀ a ∈ js.tail, rank a.key < rank key) ∧ (js ≠ [] → rank it.key < rank key) ∧
      ∀ b ∈ ks, rank key < rank b.key := by
  obtain ⟨hp, hq, -, -, hsplit⟩ := h.split p q rfl
  obtain ⟨hjs, hks⟩ := h.seps_around hP hlP hitems
  have hlt : g.lo p < at_ (rank key) := by rw [← hkey, ← hsplit]; exact h.lt p hp
  have hlt' : at_ (rank key) < g.hi q := by rw [← hkey]; exact h.lt q hq
  rw [hit] at hjs
  rw [hit, Layout.cov_some_self] at hks
  refine ⟨fun a ha => at_lt_at.mp ((hjs a ha).trans hlt), fun hne => ?_,
    fun b hb => at_lt_at.mp (hlt'.trans_le (hks b hb))⟩
  have := h.key_eq_lo hP hlP hitems hne
  rw [hit] at this
  exact at_lt_at.mp (this ▸ hlt)

/-- The pages after the item `new` has entered `parent` and its page names `parent`. -/
def Pages.addChild (v : Pages κ) (parent : PageNum) (new : Item κ) (items : List (Item κ)) :
    Pages κ :=
  (v.setNode parent { v.node parent with items }).setNode new.child
    { v.node new.child with parent }

theorem Pages.addChild_spec {parent : PageNum} (new : Item κ) (items : List (Item κ))
    (hne : parent ≠ new.child) : AddChild v (v.addChild parent new items) parent new items where
  rootPage := rfl
  fileHeader := rfl
  disposed := rfl
  parentNode := by rw [addChild, setNode_of_ne hne, setNode_self]
  child := setNode_self
  others := by
    intro x h1 h2
    rw [addChild, setNode_of_ne h2, setNode_of_ne h1]

section

variable {parent newParent : PageNum} (new : Item κ) {items left right : List (Item κ)}
  (hs : SplitPage .internal v v' parent newParent)
  (hnew : newParent = v.newPage) (hleaf : (v.node parent).isLeaf = false)
  (hPN : parent ≠ newParent) (hPq : parent ≠ new.child) (hNq : newParent ≠ new.child)
include hs hnew hleaf hPN hPq hNq

/-- What the insertion into the right half of a split parent amounts to. -/
theorem SplitPage.insert_right (hright : ∀ x, x ∈ right.map Item.child ↔ x = new.child ∨
      x ∈ ((v.node parent).items.drop ((v.node parent).size / 2)).map Item.child) :
    SplitInto (v.addChild parent new items)
      ((v'.setNode newParent { v'.node newParent with items := right }).setNode new.child
        { v'.node new.child with parent := newParent })
      parent newParent ((v.node parent).items.take ((v.node parent).size / 2)) right := by
  have hadd := Pages.addChild_spec (v := v) new items hPq
  have hP₁ := hadd.parentNode
  have hP₃ : ((v'.setNode newParent { v'.node newParent with items := right }).setNode new.child
      { v'.node new.child with parent := newParent }).node parent = v'.node parent := by
    rw [Pages.setNode_of_ne hPq, Pages.setNode_of_ne hPN]
  have hN₃ : ((v'.setNode newParent { v'.node newParent with items := right }).setNode new.child
      { v'.node new.child with parent := newParent }).node newParent =
      { v'.node newParent with items := right } := by
    rw [Pages.setNode_of_ne hNq, Pages.setNode_self]
  exact
    { rootPage := hs.rootPage
      alloc := fun x hx => hs.allocated (Or.inl hx)
      new := hs.allocated (Or.inr hnew)
      disposed := hs.disposed
      items_left := by rw [hP₃, hs.left]
      items_right := by rw [hN₃]
      isLeaf_left := by rw [hP₃, hs.left, hP₁]
      isLeaf_right := by rw [hN₃, hP₁]; simpa [hleaf] using hs.isLeaf
      parent_left := by rw [hP₃, hs.left, hP₁]
      next_left := by rw [hP₁, hleaf]; simp
      next_right := by rw [hP₁, hleaf]; simp
      others := by
        intro x h1 h2
        rw [hP₁]
        simp only [hleaf, true_and, hright]
        by_cases hxq : x = new.child
        · subst hxq
          rw [Pages.setNode_self, hs.others _ h1 h2, hadd.child]
          simp
        · rw [Pages.setNode_of_ne hxq, Pages.setNode_of_ne h2, hs.others x h1 h2,
            hadd.others x h1 hxq]
          simp [hxq, NodeKind.children] }

/-- What the insertion into the left half of a split parent amounts to. -/
theorem SplitPage.insert_left (hright : new.child ∉
      ((v.node parent).items.drop ((v.node parent).size / 2)).map Item.child) :
    SplitInto (v.addChild parent new items)
      ((v'.setNode parent { v'.node parent with items := left }).setNode new.child
        { v'.node new.child with parent := parent })
      parent newParent left ((v.node parent).items.drop ((v.node parent).size / 2)) := by
  have hadd := Pages.addChild_spec (v := v) new items hPq
  have hP₁ := hadd.parentNode
  have hP₃ : ((v'.setNode parent { v'.node parent with items := left }).setNode new.child
      { v'.node new.child with parent := parent }).node parent =
      { v'.node parent with items := left } := by
    rw [Pages.setNode_of_ne hPq, Pages.setNode_self]
  have hN₃ : ((v'.setNode parent { v'.node parent with items := left }).setNode new.child
      { v'.node new.child with parent := parent }).node newParent = v'.node newParent := by
    rw [Pages.setNode_of_ne hNq, Pages.setNode_of_ne hPN.symm]
  exact
    { rootPage := hs.rootPage
      alloc := fun x hx => hs.allocated (Or.inl hx)
      new := hs.allocated (Or.inr hnew)
      disposed := hs.disposed
      items_left := by rw [hP₃]
      items_right := by rw [hN₃, hs.right]
      isLeaf_left := by rw [hP₃, hs.left, hP₁]
      isLeaf_right := by rw [hN₃, hP₁]; simpa [hleaf] using hs.isLeaf
      parent_left := by rw [hP₃, hs.left, hP₁]
      next_left := by rw [hP₁, hleaf]; simp
      next_right := by rw [hP₁, hleaf]; simp
      others := by
        intro x h1 h2
        rw [hP₁]
        simp only [hleaf, true_and]
        by_cases hxq : x = new.child
        · subst hxq
          rw [Pages.setNode_self, hs.others _ h1 h2, hadd.child]
          simp only [hright, if_false]
        · rw [Pages.setNode_of_ne hxq, Pages.setNode_of_ne h1, hs.others x h1 h2,
            hadd.others x h1 hxq]
          rfl }

end

variable {tree : BplusTreeHandler κ} {parent : PageNum}

theorem insert_internal_at (js' ks' : List (Item κ)) {items : List (Item κ)}
    (hcmp : RankedBy tree.keyComparator rank)
    (hitems : (v.node p).items = js' ++ it :: ks')
    (hsorted : ((v.node p).items.drop 1).Pairwise fun a b => rank a.key < rank b.key)
    (hjs : ∀ a ∈ js'.tail, rank a.key < rank key) (hit : js' ≠ [] → rank it.key < rank key)
    (hks : ∀ b ∈ ks', rank key < rank b.key)
    (heq : items = js' ++ it :: ⟨key, .page q⟩ :: ks') :
    Triple (At v) (InternalIndexNodeHandler.insert tree.keyComparator p key q)
      (fun _ => At (v.setNode p { v.node p with items })) E := by
  have hpos := (InternalIndexNodeHandler.lookup_of_seps hcmp hitems hsorted hjs
    (fun hne => (hit hne).le) hks).2 fun hne => (hit hne).ne
  have hat : Triple (At v) (InternalIndexNodeHandler.insert tree.keyComparator p key q) _ E :=
    InternalIndexNodeHandler.insert_at (by rw [hpos]; simp [IndexNode.size, hitems])
  rw [hpos, hitems, insert_after] at hat
  rwa [heq]

/-- The new page enters the half of the split parent that its key belongs to. -/
theorem insertIntoHalf_at [Inhabited κ] (hcmp : RankedBy tree.keyComparator rank)
    (h : TreeInv rank v g (some (p, q))) (hP : g.dom parent) (hlP : g.lvl parent ≠ 0)
    (hitems : (v.node parent).items = js ++ it :: ks) (hit : it.child = p)
    (hkey : g.lo q = at_ (rank key)) (hsize : 2 ≤ (v.node parent).items.length)
    (hs : SplitPage .internal v v' parent v.newPage) :
    Triple (At v') (insertIntoHalf tree parent v.newPage q key)
      (fun _ s => ∃ v₃ left right, At v₃ s ∧ js ++ it :: ⟨key, .page q⟩ :: ks = left ++ right ∧
        ((js.length < (v.node parent).items.length / 2 ∧
            left.length = (v.node parent).items.length / 2 + 1) ∨
          ((v.node parent).items.length / 2 ≤ js.length ∧
            left.length = (v.node parent).items.length / 2)) ∧
        SplitInto (v.addChild parent ⟨key, .page q⟩ (js ++ it :: ⟨key, .page q⟩ :: ks)) v₃
          parent v.newPage left right) E := by
  obtain ⟨hjs, hitlt, hks⟩ := h.hole_seps hP hlP hitems hit hkey
  obtain ⟨hp, hq, hpq, hlpq, -⟩ := h.split p q rfl
  have hsorted := h.seps_sorted hP hlP
  have hleaf := (h.internal parent hP hlP).isLeaf
  have hNdom : ∀ x, g.dom x → x ≠ v.newPage := fun x hx hc => h.newPage_not_dom (hc ▸ hx)
  have hPN := hNdom parent hP
  have hPq : parent ≠ q := by
    rintro rfl
    obtain ⟨l, u, hc, -⟩ := h.child_of_mem hP hlP (show it ∈ (v.node parent).items by simp [hitems])
    have := hc.lvl
    rw [hit] at this
    omega
  have hNq := (hNdom q hq).symm
  set n := (v.node parent).items.length with hn
  have hm : n / 2 < (v.node parent).items.length := by omega
  have hsz : (v.node parent).size / 2 = n / 2 := rfl
  have hlen : n = js.length + 1 + ks.length := by rw [hn, hitems]; simp; omega
  have hright := hs.right
  have hleft := congrArg IndexNode.items hs.left
  rw [hsz] at hright
  simp only [hsz] at hleft
  refine keyAt_bind 0 (v.node parent).items[n / 2] ?_ ?_
  · rw [hright, List.getElem?_drop, Nat.add_zero, List.getElem?_eq_getElem hm]
  by_cases hgt : 0 < tree.keyComparator key (v.node parent).items[n / 2].key
  · -- the child that was split is in the right half
    have hlt := (hcmp.pos_iff _ _).mp hgt
    have hmj : n / 2 ≤ js.length := by
      by_contra hc
      refine absurd (hks (v.node parent).items[n / 2] ?_) (not_lt.mpr hlt.le)
      have hmem : (v.node parent).items[n / 2] ∈ (v.node parent).items.drop (js.length + 1) := by
        rw [List.mem_drop_iff_getElem]
        exact ⟨n / 2 - (js.length + 1), by omega, by congr 1; omega⟩
      have hdrop : (v.node parent).items.drop (js.length + 1) = ks := by
        rw [hitems, List.drop_append, List.drop_eq_nil_of_le (Nat.le_succ _), List.nil_append,
          Nat.add_sub_cancel_left, List.drop_one, List.tail_cons]
      rwa [hdrop] at hmem
    have hdrop : (v.node parent).items.drop (n / 2) = js.drop (n / 2) ++ it :: ks := by
      rw [hitems, List.drop_append_of_le_length hmj]
    have htake : (v.node parent).items.take (n / 2) = js.take (n / 2) := by
      rw [hitems, List.take_append_of_le_length hmj]
    rw [if_pos hgt]
    refine (insert_internal_at (js.drop (n / 2)) ks hcmp (hright.trans hdrop)
      ?_ ?_ ?_ hks rfl).bind fun _ => ?_
    · rw [hright, List.drop_drop]
      exact hsorted.sublist (by
        rw [show n / 2 + 1 = 1 + n / 2 by omega, ← List.drop_drop]
        exact List.drop_sublist _ _)
    · intro a ha
      refine hjs a ?_
      rw [← List.drop_one, List.drop_drop] at ha
      rw [← List.drop_one]
      exact (List.drop_sublist (n / 2) _).mem (by rwa [List.drop_drop, Nat.add_comm 1])
    · exact fun hne => hitlt fun hc => hne (by simp [hc])
    refine setParentPageNum_at.post fun _ s hs₃ => ?_
    rw [Pages.setNode_of_ne hNq.symm] at hs₃
    refine ⟨_, (v.node parent).items.take (n / 2), js.drop (n / 2) ++ it :: ⟨key, .page q⟩ :: ks,
      hs₃, ?_, Or.inr ⟨hmj, ?_⟩, ?_⟩
    · rw [htake, ← List.append_assoc, List.take_append_drop]
    · rw [List.length_take]
      omega
    · refine SplitPage.insert_right ⟨key, .page q⟩ hs rfl hleaf hPN hPq hNq fun x => ?_
      rw [hsz, hdrop]
      simp only [List.map_append, List.map_cons, List.mem_append, List.mem_cons]
      rw [or_left_comm (a := x = it.child), or_left_comm]
  · -- it is in the left half
    have hle := not_lt.mp (fun hc => hgt ((hcmp.pos_iff _ _).mpr hc))
    have hjm : js.length < n / 2 := by
      by_contra hc
      refine absurd hle (not_le.mpr ?_)
      by_cases heq : n / 2 = js.length
      · have hget : (v.node parent).items[n / 2] = it := by simp only [hitems, heq]; simp
        rw [hget]
        exact hitlt fun hc => by rw [hc] at heq; simp at heq; omega
      · refine hjs _ ?_
        rw [← List.drop_one, List.mem_drop_iff_getElem]
        refine ⟨n / 2 - 1, by omega, ?_⟩
        simp only [hitems]
        rw [List.getElem_append_left (by omega)]
        congr 1
        omega
    have htake : (v.node parent).items.take (n / 2) =
        js ++ it :: ks.take (n / 2 - (js.length + 1)) := by
      rw [hitems, List.take_append, List.take_of_length_le (by omega),
        show n / 2 - js.length = n / 2 - (js.length + 1) + 1 by omega, List.take_succ_cons]
    have hdrop : (v.node parent).items.drop (n / 2) = ks.drop (n / 2 - (js.length + 1)) := by
      rw [hitems, List.drop_append, List.drop_eq_nil_of_le (by omega),
        show n / 2 - js.length = n / 2 - (js.length + 1) + 1 by omega, List.drop_succ_cons,
        List.nil_append]
    rw [if_neg hgt]
    refine (insert_internal_at js (ks.take (n / 2 - (js.length + 1))) hcmp
      (hleft.trans htake) ?_ hjs hitlt (fun b hb => hks b (List.mem_of_mem_take hb)) rfl).bind
      fun _ => ?_
    · rw [hleft]
      exact hsorted.sublist ((List.take_sublist _ _).drop 1)
    refine setParentPageNum_at.post fun _ s hs₃ => ?_
    rw [Pages.setNode_of_ne hPq.symm] at hs₃
    refine ⟨_, js ++ it :: ⟨key, .page q⟩ :: ks.take (n / 2 - (js.length + 1)),
      (v.node parent).items.drop (n / 2), hs₃, ?_, Or.inl ⟨hjm, ?_⟩, ?_⟩
    · rw [hdrop]
      simp
    · simp only [List.length_append, List.length_take, List.length_cons]
      omega
    · refine SplitPage.insert_left ⟨key, .page q⟩ hs rfl hleaf hPN hPq hNq fun hmem => ?_
      obtain ⟨item, hm, heq⟩ := List.mem_map.mp hmem
      exact h.orphan_not_child hP hlP (List.mem_of_mem_drop hm) heq

theorem TreeInv.movable (h : TreeInv rank v g hole) {src dst : PageNum} {kind : NodeKind}
    (hsrc : g.dom src) (hkind : kind = .leaf ↔ g.lvl src = 0)
    (hdst : ¬ g.dom dst ∨ g.lvl dst = g.lvl src) :
    Movable v kind src dst (v.node src).items := by
  rintro rfl item hmem
  have hl : g.lvl src ≠ 0 := fun h0 => by simpa using hkind.mpr h0
  obtain ⟨l, u, hc, -⟩ := h.child_of_mem hsrc hl hmem
  have hlvl := hc.lvl
  refine ⟨h.inFile hc.dom, fun heq => by rw [heq] at hlvl; omega, fun heq => ?_⟩
  rcases hdst with hd | hd
  · exact hd (heq ▸ hc.dom)
  · rw [heq] at hlvl
    omega

theorem insertIntoNewRoot_at [Inhabited κ] (hmax : 2 ≤ tree.fileHeader.internalMaxSize)
    (h : TreeInv rank v g (some (p, q)))
    (hd : v.disposedPages = []) (hb : Balanced tree.fileHeader v g (some (p, q)))
    (hkey : g.lo q = at_ (rank key)) (hroot : v.rootPage = p) (fuel : Nat) :
    Triple (At v) (insertEntryIntoParent tree (fuel + 1) p q key)
      (fun _ s => ∃ v' g', At v' s ∧ Kept tree.fileHeader rank v g v' g' ∧
        Climbed tree.fileHeader v g p q v' g') E := by
  obtain ⟨hp, hq, hpq, hlpq, -⟩ := h.split p q rfl
  have hr := h.newPage_not_dom
  have hpr : p ≠ v.newPage := fun hc => hr (hc ▸ hp)
  have hqr : q ≠ v.newPage := fun hc => hr (hc ▸ hq)
  refine readNode_bind ?_
  rw [if_pos ((h.parent_eq_invalid_iff hp fun l hc => hpq (by cases hc; rfl)).mpr hroot.symm)]
  refine allocatePage_bind <| InternalIndexNodeHandler.initEmpty_at.bind fun _ => ?_
  refine (InternalIndexNodeHandler.createNewRoot_at (by simp)).bind fun _ => ?_
  refine setParentPageNum_at.bind fun _ => setParentPageNum_at.bind fun _ => ?_
  refine markDirty_at.bind fun _ => markDirty_at.bind fun _ => ?_
  refine updateRootPageNumLocked_at.bind fun _ => markDirty_at.post fun _ s hs => ?_
  simp only [Pages.setNode_self, Pages.setNode_setNode, Pages.setNode_of_ne hpr,
    Pages.setNode_of_ne hqr, Pages.setNode_of_ne hpq.symm, Pages.allocate_node] at hs
  refine ⟨_, g.grow p v.newPage, hs, ?_⟩
  have hnew : NewRoot v
      { ((v.allocate.setNode v.newPage
          { v.node v.newPage with
            isLeaf := false
            items := [⟨default, .page p⟩, ⟨key, .page q⟩]
            parent := bpInvalidPageNum }).setNode p
          { v.node p with parent := v.newPage }).setNode q
          { v.node q with parent := v.newPage } with rootPage := v.newPage }
      v.newPage ⟨default, .page p⟩ ⟨key, .page q⟩ := by
    refine
      { rootPage := rfl
        alloc := fun x hx => Pages.allocated_allocate.mpr (Or.inl hx)
        new := Pages.allocated_allocate.mpr (Or.inr rfl)
        disposed := rfl
        isLeaf := ?_
        parent := ?_
        items := ?_
        others := ?_ }
    · rw [Pages.setNode_of_ne hqr.symm, Pages.setNode_of_ne hpr.symm, Pages.setNode_self]
    · rw [Pages.setNode_of_ne hqr.symm, Pages.setNode_of_ne hpr.symm, Pages.setNode_self]
    · rw [Pages.setNode_of_ne hqr.symm, Pages.setNode_of_ne hpr.symm, Pages.setNode_self]
    · intro x hx
      change _ = { v.node x with parent := if x = p ∨ x = q then v.newPage else (v.node x).parent }
      by_cases hxq : x = q
      · subst hxq
        simp
      · rw [Pages.setNode_of_ne hxq]
        by_cases hxp : x = p
        · subst hxp
          simp
        · rw [Pages.setNode_of_ne hxp, Pages.setNode_of_ne hx]
          simp [hxp, hxq]
  have hne : ∀ x, g.dom x → x ≠ v.newPage := fun x hx hc => hr (hc ▸ hx)
  have hlvl : ∀ x, g.dom x → (g.grow p v.newPage).lvl x = g.lvl x := fun x hx => if_neg (hne x hx)
  -- the page split is the old root, so every old page counts
  have hold : ∀ x, x ≠ v.rootPage ∨ ∃ r, some (p, q) = some (x, r) := by
    intro x
    by_cases hxp : x = p
    · exact Or.inr ⟨q, by rw [hxp]⟩
    · exact Or.inl (by rwa [hroot])
  refine ⟨?_, ?_, fun hocc => iff_of_true ⟨?_, ?_⟩ (evenAbove_root hroot.symm)⟩
  · refine
      { tree := h.newRoot ⟨default, .page p⟩ ⟨key, .page q⟩ hroot hr
          h.two_le_newPage (by rw [hd]; simp) hkey hnew
        balanced := ⟨?_, ?_⟩
        disposed := hd
        entries := fun item => TreeInv.entry_newRoot hr hnew }
    · rintro x (rfl | hx) hxr
      · exact absurd rfl (hxr.elim id fun ⟨_, hc⟩ => by simp at hc)
      · rw [hnew.others x (hne x hx), hlvl x hx]
        exact hb.filled x hx (hold x)
    · intro _ _ _
      rw [hnew.rootPage, hnew.items]
      simp
  · intro x hx _
    refine ⟨Or.inr hx, hlvl x hx, ?_, ?_⟩
    · rw [hnew.rootPage]
      exact hne x hx
    · rw [hnew.others x (hne x hx)]
  · rintro x (rfl | hx) hxr
    · exact absurd rfl (hxr.elim id fun ⟨_, hc⟩ => by simp at hc)
    · rw [hnew.others x (hne x hx), hlvl x hx]
      exact hocc.least x hx (hold x)
  · rintro x (rfl | hx)
    · rw [hnew.items, levelMax,
        if_neg (show (g.grow p v.newPage).lvl v.newPage ≠ 0 by simp [Layout.grow])]
      exact hmax
    · rw [hnew.others x (hne x hx), hlvl x hx]
      exact hocc.most x hx

/-- A page that has been split, below its parent `parent` in whose slot it is. -/
theorem TreeInv.evenAbove_parent (h : TreeInv rank v g (some (p, q))) {header : IndexFileHeader}
    (hproot : p ≠ v.rootPage) (hP : g.dom (v.node p).parent) (hlP : g.lvl (v.node p).parent ≠ 0)
    (hitems : (v.node (v.node p).parent).items = js ++ it :: ks) (hit : it.child = p)
    (hfull : header.internalMaxSize ≤ (v.node (v.node p).parent).size) :
    EvenAbove header v p ↔ ¬ Uneven header.internalMaxSize js.length ∧
      EvenAbove header v (v.node p).parent := by
  have hget : (v.node (v.node p).parent).items[js.length]? = some it := by simp [hitems]
  exact evenAbove_iff hproot hfull
    (fun i item hi hc => h.slot_unique hP hlP hitems hi (hc.trans hit.symm)) ⟨it, hget, hit⟩

/-- `insert_entry_into_parent` closes the hole, at the parent, further up or at a new root. -/
theorem insertEntryIntoParent_spec [Inhabited κ] (hcmp : RankedBy tree.keyComparator rank)
    (hmax : 2 ≤ tree.fileHeader.internalMaxSize) (fuel : Nat)
    (h : TreeInv rank v g (some (p, q))) (hd : v.disposedPages = [])
    (hb : Balanced tree.fileHeader v g (some (p, q))) (hkey : g.lo q = at_ (rank key))
    (hfuel : g.lvl v.rootPage < g.lvl p + fuel) :
    Triple (At v) (insertEntryIntoParent tree fuel p q key)
      (fun _ s => ∃ v' g', At v' s ∧ Kept tree.fileHeader rank v g v' g' ∧
        Climbed tree.fileHeader v g p q v' g') E := by
  induction fuel generalizing v g p q key with
  | zero =>
    have := h.lvl_le p (h.split p q rfl).1
    omega
  | succ fuel ih =>
    obtain ⟨hp, hq, hpq, hlpq, -⟩ := h.split p q rfl
    have hporphan : ∀ l, some (p, q) ≠ some (l, p) := fun l hc => hpq (by cases hc; rfl)
    by_cases hproot : v.rootPage = p
    · exact insertIntoNewRoot_at hmax h hd hb hkey hproot fuel
    obtain ⟨js, it, ks, hitems, hit, hP, hlP⟩ := h.child_of_parent hp (Ne.symm hproot) hporphan
    have hlP0 : g.lvl (v.node p).parent ≠ 0 := by omega
    have hleaf := (h.internal _ hP hlP0).isLeaf
    have hPq : (v.node p).parent ≠ q := fun hc => by rw [hc] at hlP; omega
    have hadd := Pages.addChild_spec (v := v) ⟨key, .page q⟩
      (js ++ it :: ⟨key, .page q⟩ :: ks) hPq
    have hqnode : (v.addChild (v.node p).parent ⟨key, .page q⟩
        (js ++ it :: ⟨key, .page q⟩ :: ks)).node q =
          { v.node q with parent := (v.node p).parent } := hadd.child
    have hlen : ∀ x, x ≠ (v.node p).parent →
        ((v.addChild (v.node p).parent ⟨key, .page q⟩
          (js ++ it :: ⟨key, .page q⟩ :: ks)).node x).items.length = (v.node x).items.length := by
      intro x hxP
      by_cases hxq : x = q
      · rw [hxq, hqnode]
      · rw [hadd.others x hxP hxq]
    have hlenP : (v.node (v.node p).parent).items.length = js.length + 1 + ks.length := by
      rw [hitems]
      simp
      omega
    have hroot := h.dom_root hp
    have hle := h.lvl_le _ hP
    have h₁ := h.addChild ⟨key, .page q⟩ hP hlP hitems hit hkey hadd
    have he₁ := TreeInv.entry_addChild hlP0 hadd
    refine readNode_bind ?_
    rw [if_neg fun hc => hproot ((h.parent_eq_invalid_iff hp hporphan).mp hc).symm]
    refine (getPage_at (h.inFile hP)).bind fun _ => readNode_bind ?_
    have hmaxSize : maxSize tree.fileHeader (v.node (v.node p).parent) =
        tree.fileHeader.internalMaxSize := by simp [maxSize, hleaf]
    rw [hmaxSize]
    by_cases hroom : (v.node (v.node p).parent).size < tree.fileHeader.internalMaxSize
    · -- the parent has room
      rw [if_pos hroom]
      obtain ⟨hjs, hitlt, hks⟩ := h.hole_seps hP hlP0 hitems hit hkey
      refine (insert_internal_at js ks hcmp hitems (h.seps_sorted hP hlP0) hjs hitlt hks rfl).bind
        fun _ => ?_
      refine setParentPageNum_at.bind fun _ => markDirty_at.bind fun _ => ?_
      refine markDirty_at.bind fun _ => markDirty_at.post fun _ s hs => ?_
      rw [Pages.setNode_of_ne (Ne.symm hPq)] at hs
      have hmore : ∀ x, (v.node x).items.length ≤ ((v.addChild (v.node p).parent ⟨key, .page q⟩
          (js ++ it :: ⟨key, .page q⟩ :: ks)).node x).items.length := by
        intro x
        by_cases hxP : x = (v.node p).parent
        · rw [hxP, hadd.parentNode, hlenP]
          simp only [List.length_append, List.length_cons]
          omega
        · exact (hlen x hxP).ge
      refine ⟨v.addChild (v.node p).parent ⟨key, .page q⟩ (js ++ it :: ⟨key, .page q⟩ :: ks), g,
        hs, ⟨⟨h₁, ⟨?_, ?_⟩, hd⟩, he₁⟩, ?_, fun hocc => iff_of_true ⟨?_, ?_⟩
          (evenAbove_of_room hroom)⟩
      · intro x hx hxr
        exact (hb.filled x hx (Or.inl (hxr.elim id fun ⟨_, hc⟩ => by simp at hc))).trans (hmore x)
      · intro hr _ hlr
        exact (hb.root hr (fun r hc => hproot (by cases hc; rfl)) hlr).trans (hmore _)
      · intro x hx hlx
        have hxP : x ≠ (v.node p).parent := fun hc => by rw [hc] at hlx; omega
        refine ⟨hx, rfl, fun hc => ?_, hlen x hxP⟩
        rw [hc, hadd.rootPage] at hlx
        omega
      · intro x hx hxr
        exact (hocc.least x hx (Or.inl (hxr.elim id fun ⟨_, hc⟩ => by simp at hc))).trans (hmore x)
      · intro x hx
        by_cases hxP : x = (v.node p).parent
        · rw [hxP, hadd.parentNode, levelMax, if_neg hlP0]
          unfold IndexNode.size at hroom
          simp only [List.length_append, List.length_cons]
          omega
        · rw [hlen x hxP]
          exact hocc.most x hx
    · -- the parent is split in turn
      rw [if_neg hroom]
      have hfull : tree.fileHeader.internalMaxSize ≤ (v.node (v.node p).parent).size :=
        not_lt.mp hroom
      unfold IndexNode.size at hfull
      have hsize : 2 ≤ (v.node (v.node p).parent).items.length := hmax.trans hfull
      have hNdom := h.newPage_not_dom
      have hPN : (v.node p).parent ≠ v.newPage := fun hc => hNdom (hc ▸ hP)
      refine (split_at hPN (h.movable hP (by simp [hlP0]) (Or.inl hNdom))).bind fun newParent => ?_
      refine Triple.of_and fun hnew => Triple.of_exists fun v₂ => Triple.and_of fun hs₂ => ?_
      subst hnew
      refine (insertIntoHalf_at hcmp h hP hlP0 hitems hit hkey hsize hs₂).bind fun _ => ?_
      refine Triple.of_exists fun v₃ => Triple.of_exists fun left => Triple.of_exists fun right => ?_
      refine Triple.and_of fun ⟨hall, hhalf, hs₃⟩ => ?_
      have hsum : left.length + right.length = js.length + 1 + ks.length + 1 := by
        have := congrArg List.length hall
        simp only [List.length_append, List.length_cons] at this
        omega
      have hleft0 : left ≠ [] := fun hc => by rw [hc] at hhalf; simp at hhalf; omega
      obtain ⟨first, rest, rfl⟩ := List.exists_cons_of_ne_nil (l := right) fun hc => by
        rw [hc] at hsum
        simp only [List.length_nil] at hsum
        omega
      have hitems₁ : ((v.addChild (v.node p).parent ⟨key, .page q⟩
          (js ++ it :: ⟨key, .page q⟩ :: ks)).node (v.node p).parent).items =
            left ++ first :: rest := by rw [hadd.parentNode]; exact hall
      have h₃ := h₁.splitInto hP hNdom h.two_le_newPage (by rw [hadd.disposed, hd]; simp)
        hitems₁ hleft0 hs₃
      have he₃ := TreeInv.entry_splitInto hP hNdom hitems₁ hs₃ (at_ (rank first.key))
      have hroot₃ : v₃.rootPage = v.rootPage := hs₃.rootPage
      have hlvl₃ : ∀ x, g.dom x → (g.split (v.node p).parent v.newPage
          (at_ (rank first.key))).lvl x = g.lvl x :=
        fun x hx => if_neg fun (hc : x = v.newPage) => hNdom (hc ▸ hx)
      have hlvlN : (g.split (v.node p).parent v.newPage (at_ (rank first.key))).lvl v.newPage =
          g.lvl (v.node p).parent := if_pos rfl
      have hlen₃ : ∀ x, g.dom x → x ≠ (v.node p).parent →
          (v₃.node x).items.length = (v.node x).items.length := by
        intro x hx hxP
        rw [hs₃.others x hxP fun hc => hNdom (hc ▸ hx)]
        exact hlen x hxP
      refine keyAt_bind 0 first (by rw [hs₃.items_right]; rfl) ?_
      refine (ih h₃ (hs₃.disposed.trans hd) ⟨?_, ?_⟩ ?_ ?_).post ?_
      · -- both halves are full enough, and the other pages have not changed
        rintro x (rfl | hx) hxr
        · rw [hs₃.items_right, hlvlN, minFill, if_neg hlP0]
          omega
        · rw [hlvl₃ x hx]
          by_cases hxP : x = (v.node p).parent
          · rw [hxP, hs₃.items_left, minFill, if_neg hlP0]
            omega
          · rw [hlen₃ x hx hxP]
            rw [hroot₃] at hxr
            exact hb.filled x hx (Or.inl (hxr.elim id fun ⟨r, hc⟩ =>
              absurd (by cases hc; rfl) hxP))
      · intro _ hrP hlr
        rw [hroot₃] at hrP hlr ⊢
        rw [hlvl₃ _ hroot] at hlr
        rw [hlen₃ _ hroot fun hc => hrP v.newPage (by rw [hc])]
        exact hb.root hroot (fun r hc => hproot (by cases hc; rfl)) hlr
      · simp [Layout.split]
      · rw [hroot₃, hlvl₃ _ hroot, hlvl₃ _ hP]
        omega
      · rintro _ s ⟨v', g', hs, hk, hclimb⟩
        refine ⟨v', g', hs, hk.of_entries fun item => (he₃ item).trans (he₁ item), ?_, ?_⟩
        · intro x hx hlx
          have hxP : x ≠ (v.node p).parent := fun hc => by rw [hc] at hlx; omega
          obtain ⟨hd', hl', hr', hn'⟩ := hclimb.below x (Or.inr hx) (by
            rw [hlvl₃ x hx, hlvl₃ _ hP]
            omega)
          exact ⟨hd', hl'.trans (hlvl₃ x hx), hr', hn'.trans (hlen₃ x hx hxP)⟩
        · intro hocc
          rw [h.evenAbove_parent (Ne.symm hproot) hP hlP0 hitems hit hfull]
          have hlevel : levelMax tree.fileHeader (g.lvl (v.node p).parent) =
              tree.fileHeader.internalMaxSize := if_neg hlP0
          rw [← hlevel]
          refine hclimb.occupied_iff hP hNdom hocc (by rwa [hlevel]) (by rwa [hlevel]) ?_ ?_
            hlen₃ (h.sameAbove ?_ hroot₃ ?_ ?_)
          · rw [hs₃.items_left]
            exact hhalf
          · rw [hs₃.items_left, hs₃.items_right, hlenP]
            exact hsum
          · rintro l r hc
            cases hc
            omega
          · rw [hs₃.parent_left, hadd.parentNode]
          · intro x hx hlx hxP
            have hxq : x ≠ q := fun hc => by rw [hc] at hlx; omega
            rw [hs₃.others x hxP fun hc => hNdom (hc ▸ hx), hadd.others x hxP hxq, if_neg]
            rintro ⟨-, hmem⟩
            obtain ⟨item, hitem, rfl⟩ := List.mem_map.mp hmem
            obtain ⟨l, u, hc, -⟩ := h₁.child_of_mem hP hlP0
              (show item ∈ _ by rw [hitems₁]; exact List.mem_append_right _ hitem)
            have := hc.lvl
            omega

end Parent

end ObHtap
