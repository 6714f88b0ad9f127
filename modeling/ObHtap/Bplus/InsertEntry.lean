import ObHtap.Bplus.Insertion

/-!
# Inserting an entry

From the leaf that the descent ends in to the whole mini-transaction: an insertion is refused
exactly when the key is there, and otherwise adds its entry.
-/

namespace ObHtap

open ObHtap.Bound IndexNodeHandler BplusTreeHandler

variable {κ ρ : Type} [LinearOrder ρ] {rank : κ → ρ} {v v' : Pages κ}
  {g : Layout ρ} {E : Fault → Mtr κ → Prop} {tree : BplusTreeHandler κ} {key : κ} {rid : RID}
  {p : PageNum}

/-- The pages `v'` are a well-formed tree and hold `new` besides the entries of `v`. -/
structure Inserted (header : IndexFileHeader) (rank : κ → ρ) (v : Pages κ) (g : Layout ρ)
    (new : Item κ) (v' : Pages κ) (g' : Layout ρ) : Prop extends WellFormed header rank v' g' where
  entries : ∀ item, Entry v' g' item ↔ Entry v g item ∨ item = new

/-- Whether the index has a key is decided in the leaf whose interval contains it. -/
theorem TreeInv.key_in_leaf (h : TreeInv rank v g none) (hp : g.dom p) (hl : g.lvl p = 0)
    (hlo : g.lo p ≤ at_ (rank key)) (hhi : at_ (rank key) < g.hi p) :
    (∃ item, Entry v g item ∧ rank item.key = rank key) ↔
      ∃ item ∈ (v.node p).items, rank item.key = rank key := by
  constructor
  · rintro ⟨item, ⟨q, hq, hlq, hmem⟩, hrank⟩
    have hb := (h.leaf q hq hlq).bounds item hmem
    rw [hrank] at hb
    obtain rfl := h.eq_of_common hq hp (hlq.trans hl.symm) hb ⟨hlo, hhi⟩
    exact ⟨item, hmem, hrank⟩
  · rintro ⟨item, hmem, hrank⟩
    exact ⟨item, ⟨p, hp, hl, hmem⟩, hrank⟩

section Leaf

variable {pos : Nat} {new : Item κ}

theorem leafNode_insert (h : LeafNode rank (v.node p) (g.lo p) (g.hi p))
    (hpos : LeafPosition rank key (v.node p).items pos false) (hnew : new.key = key)
    (hlo : g.lo p ≤ at_ (rank key)) (hhi : at_ (rank key) < g.hi p) :
    LeafNode rank { v.node p with
      items := (v.node p).items.take pos ++ new :: (v.node p).items.drop pos }
      (g.lo p) (g.hi p) where
  isLeaf := h.isLeaf
  sorted := hpos.sorted_insert h.sorted hnew
  bounds := by
    intro item hmem
    simp only [List.mem_append, List.mem_cons] at hmem
    rcases hmem with hm | rfl | hm
    · exact h.bounds item (List.mem_of_mem_take hm)
    · exact hnew ▸ ⟨hlo, hhi⟩
    · exact h.bounds item (List.mem_of_mem_drop hm)

omit [LinearOrder ρ] in
/-- What the insertion into a full leaf amounts to: `left` and `right` are the items of the
leaf with the new one among them. -/
theorem SplitPage.leaf_halves {q : PageNum} (items left right : List (Item κ))
    (hs : SplitPage .leaf v v' p q) (hnew : q = v.newPage) (hleaf : (v.node p).isLeaf = true)
    (hpq : p ≠ q) :
    SplitInto (v.setNode p { v.node p with items })
      ((v'.setNode q { v'.node q with
          nextBrother := (v.node p).nextBrother
          parent := (v.node p).parent
          items := right }).setNode p { v'.node p with nextBrother := q, items := left })
      p q left right := by
  exact
    { rootPage := hs.rootPage
      alloc := fun x hx => hs.allocated (Or.inl hx)
      new := hs.allocated (Or.inr hnew)
      disposed := hs.disposed
      items_left := by rw [Pages.setNode_self]
      items_right := by rw [Pages.setNode_of_ne hpq.symm, Pages.setNode_self]
      isLeaf_left := by rw [Pages.setNode_self, Pages.setNode_self, hs.left]
      isLeaf_right := by
        rw [Pages.setNode_of_ne hpq.symm, Pages.setNode_self, Pages.setNode_self, hs.isLeaf]
        simp [hleaf]
      parent_left := by rw [Pages.setNode_self, Pages.setNode_self, hs.left]
      next_left := fun _ => by rw [Pages.setNode_self]
      next_right := fun _ => by
        rw [Pages.setNode_of_ne hpq.symm, Pages.setNode_self, Pages.setNode_self]
      others := by
        intro x h1 h2
        rw [Pages.setNode_of_ne h1, Pages.setNode_of_ne h2, Pages.setNode_of_ne h1,
          Pages.setNode_self, hs.others x h1 h2]
        simp [hleaf, NodeKind.children] }

omit [LinearOrder ρ] in
theorem SplitInto.leaf_others {q x : PageNum} {items left right : List (Item κ)}
    (hs : SplitInto (v.setNode p { v.node p with items }) v' p q left right)
    (hleaf : (v.node p).isLeaf = true) (hxp : x ≠ p) (hxq : x ≠ q) : v'.node x = v.node x := by
  rw [hs.others x hxp hxq, Pages.setNode_self, Pages.setNode_of_ne hxp]
  simp [hleaf]

theorem insertIntoLeafHalf_at {q : PageNum} (items : List (Item κ)) {m : Nat} (hpq : p ≠ q)
    (hp : (v.node p).items = items.take m) (hq : (v.node q).items = items.drop m)
    (hm : m ≤ items.length) (hpos : pos ≤ items.length) :
    Triple (At v) (insertIntoLeafHalf p q m pos new)
      (fun _ s => ∃ left right, items.take pos ++ new :: items.drop pos = left ++ right ∧
        ((pos < m ∧ left.length = m + 1) ∨ (m ≤ pos ∧ left.length = m)) ∧
        At ((v.setNode q { v.node q with items := right }).setNode p
          { v.node p with items := left }) s) E := by
  unfold insertIntoLeafHalf
  by_cases hlt : pos < m
  · rw [if_pos hlt]
    refine (LeafIndexNodeHandler.insert_at ?_).post fun _ s hs => ?_
    · rw [IndexNode.size, hp, List.length_take]
      omega
    refine ⟨items.take pos ++ new :: (items.take m).drop pos, items.drop m, ?_,
      Or.inl ⟨hlt, ?_⟩, ?_⟩
    · have hdrop : items.drop pos = (items.take m).drop pos ++ items.drop m := by
        conv_lhs => rw [← List.take_append_drop m items]
        rw [List.drop_append_of_le_length (by rw [List.length_take]; omega)]
      rw [hdrop]
      simp
    · simp only [List.length_append, List.length_cons, List.length_drop, List.length_take]
      omega
    · rw [Pages.setNode_eq_self (v := v) (p := q) (by rw [← hq])]
      rwa [hp, List.take_take, Nat.min_eq_left hlt.le] at hs
  · rw [if_neg hlt]
    refine (LeafIndexNodeHandler.insert_at ?_).post fun _ s hs => ?_
    · rw [IndexNode.size, hq, List.length_drop]
      omega
    refine ⟨items.take m, (items.drop m).take (pos - m) ++ new :: items.drop pos, ?_,
      Or.inr ⟨not_lt.mp hlt, ?_⟩, ?_⟩
    · have htake : items.take pos = items.take m ++ (items.drop m).take (pos - m) := by
        conv_lhs => rw [show pos = m + (pos - m) by omega, List.take_add]
      rw [htake, List.append_assoc]
    · rw [List.length_take]
      omega
    · rw [Pages.setNode_eq_self (by rw [Pages.setNode_of_ne hpq, ← hp])]
      rwa [hq, List.drop_drop, show m + (pos - m) = pos by omega] at hs

end Leaf

section Operation

variable {s₀ : Mtr κ}

theorem Inserted.of_room (hw : WellFormed tree.fileHeader rank v g) (hp : g.dom p)
    (hl : g.lvl p = 0) {pos : Nat} {new : Item κ}
    (hpos : LeafPosition rank key (v.node p).items pos false) (hnew : new.key = key)
    (hlo : g.lo p ≤ at_ (rank key)) (hhi : at_ (rank key) < g.hi p) :
    Inserted tree.fileHeader rank v g new
      (v.setNode p { v.node p with
        items := (v.node p).items.take pos ++ new :: (v.node p).items.drop pos }) g := by
  have hlen : (v.node p).items.length ≤
      ((v.node p).items.take pos ++ new :: (v.node p).items.drop pos).length := by
    simp only [List.length_append, List.length_cons, List.length_take, List.length_drop]
    omega
  have hsame : ∀ x, (v.node x).items.length ≤ ((v.setNode p { v.node p with
      items := (v.node p).items.take pos ++ new :: (v.node p).items.drop pos }).node x).items.length := by
    intro x
    by_cases hx : x = p
    · rw [hx, Pages.setNode_self]
      exact hlen
    · rw [Pages.setNode_of_ne hx]
  exact
    { tree := hw.tree.setLeaf hp hl (leafNode_insert (hw.tree.leaf p hp hl) hpos hnew hlo hhi)
      balanced :=
        { filled := fun x hx hxr => (hw.balanced.filled x hx hxr).trans (hsame x)
          root := fun hr hh hlr => (hw.balanced.root hr hh hlr).trans (hsame _) }
      disposed := hw.disposed
      entries := fun item =>
        entry_insertLeaf hp hl (List.take_append_drop pos (v.node p).items).symm }

theorem occupiedWhen_of_room {header : IndexFileHeader} (hl : g.lvl p = 0)
    {pos : Nat} {new : Item κ} (hpos : LeafPosition rank key (v.node p).items pos false)
    (hroom : (v.node p).size < header.leafMaxSize) :
    OccupiedWhen header v g (v.setNode p { v.node p with
      items := (v.node p).items.take pos ++ new :: (v.node p).items.drop pos }) g
      (EvenFrom header v p pos) := by
  have hlen : ((v.node p).items.take pos ++ new :: (v.node p).items.drop pos).length =
      (v.node p).items.length + 1 := by
    have := hpos.le_length
    simp only [List.length_append, List.length_cons, List.length_take, List.length_drop]
    omega
  unfold IndexNode.size at hroom
  refine fun hocc => iff_of_true ⟨fun x hx hxr => ?_, fun x hx => ?_⟩ fun hfull => ?_
  · by_cases hxp : x = p
    · subst hxp
      have := hocc.least x hx hxr
      rw [Pages.setNode_self, hlen]
      omega
    · rw [Pages.setNode_of_ne hxp]
      exact hocc.least x hx hxr
  · by_cases hxp : x = p
    · rw [hxp, Pages.setNode_self, hlen, levelMax, if_pos hl]
      omega
    · rw [Pages.setNode_of_ne hxp]
      exact hocc.most x hx
  · unfold IndexNode.size at hfull
    omega

theorem rounds_bind {α : Type} {Q : α → Mtr κ → Prop} {f : Nat → MtrM κ α}
    (h : Triple (At v) (f (v.fileHeader.pageCount + 1)) Q E) :
    Triple (At v) (rounds >>= f) Q E := by
  refine Triple.bind (Q := fun n s => n = v.fileHeader.pageCount + 1 ∧ At v s) ?_ fun n => ?_
  · exact get_of fun s hs => Triple.pure fun t ht => ⟨by rw [hs.1], ht⟩
  · exact Triple.of_and fun hn => hn ▸ h

variable [Inhabited κ]

/-- The leaf is full: it is split, and the new half is made known further up. -/
theorem insertIntoFullLeaf_spec (hcmp : RankedBy tree.keyComparator rank)
    (hL : 2 ≤ tree.fileHeader.leafMaxSize) (hm : 2 ≤ tree.fileHeader.internalMaxSize)
    (hw : WellFormed tree.fileHeader rank v g) (hp : g.dom p) (hl : g.lvl p = 0)
    {pos : Nat} (hpos : LeafPosition rank key (v.node p).items pos false)
    (hlo : g.lo p ≤ at_ (rank key)) (hhi : at_ (rank key) < g.hi p)
    (hfull : tree.fileHeader.leafMaxSize ≤ (v.node p).items.length) :
    Triple (At v)
      (do
        let newPage ← split .leaf p
        let leafNode ← readNode p
        LeafIndexNodeHandler.setNextPage newPage leafNode.nextBrother
        setParentPageNum newPage leafNode.parent
        LeafIndexNodeHandler.setNextPage p newPage
        insertIntoLeafHalf p newPage leafNode.size pos ⟨key, .rid rid⟩
        let newKey ← keyAt newPage 0
        insertEntryIntoParent tree (← rounds) p newPage newKey)
      (fun _ s => ∃ v' g', At v' s ∧
        Inserted tree.fileHeader rank v g ⟨key, .rid rid⟩ v' g' ∧
        OccupiedWhen tree.fileHeader v g v' g' (EvenFrom tree.fileHeader v p pos)) E := by
  have h := hw.tree
  have hd := hw.disposed
  have hNdom := h.newPage_not_dom
  have hpN : p ≠ v.newPage := fun hc => hNdom (hc ▸ hp)
  have hleaf := h.leaf p hp hl
  have hroom := Inserted.of_room hw hp hl hpos
    (show (⟨key, .rid rid⟩ : Item κ).key = key from rfl) hlo hhi
  refine (split_at hpN (h.movable hp (by simp [hl]) (Or.inl hNdom))).bind fun newPage => ?_
  refine Triple.of_and fun hnew => Triple.of_exists fun v₂ => Triple.and_of fun hs₂ => ?_
  subst hnew
  have hleft₂ := hs₂.left
  refine readNode_bind <| LeafIndexNodeHandler.setNextPage_at.bind fun _ => ?_
  refine setParentPageNum_at.bind fun _ => LeafIndexNodeHandler.setNextPage_at.bind fun _ => ?_
  simp only [Pages.setNode_self, Pages.setNode_setNode, Pages.setNode_of_ne hpN, hleft₂]
  rw [show IndexNode.size (κ := κ) { v.node p with
      items := (v.node p).items.take ((v.node p).size / 2) } = (v.node p).items.length / 2 by
    simp only [IndexNode.size, List.length_take]
    omega]
  refine (insertIntoLeafHalf_at (v.node p).items hpN ?_ ?_ (Nat.div_le_self _ _)
    hpos.le_length).bind fun _ => ?_
  · rw [Pages.setNode_self]
    rfl
  · rw [Pages.setNode_of_ne hpN.symm, Pages.setNode_self]
    exact hs₂.right
  refine Triple.of_exists fun left => Triple.of_exists fun right => ?_
  refine Triple.of_and fun hall => Triple.of_and fun hhalf => ?_
  simp only [Pages.setNode_pair, Pages.setNode_self, Pages.setNode_of_ne hpN.symm]
  have hs := hs₂.leaf_halves ((v.node p).items.take pos ++
    ⟨key, .rid rid⟩ :: (v.node p).items.drop pos) left right rfl
    hleaf.isLeaf hpN
  rw [hleft₂] at hs
  have hsum : left.length + right.length = (v.node p).items.length + 1 := by
    have := congrArg List.length hall
    simp only [List.length_append, List.length_cons, List.length_take, List.length_drop] at this
    have := hpos.le_length
    omega
  have hleft0 : left ≠ [] := fun hc => by rw [hc] at hhalf; simp at hhalf; omega
  obtain ⟨first, rest, rfl⟩ := List.exists_cons_of_ne_nil (l := right) fun hc => by
    rw [hc] at hsum
    simp only [List.length_nil] at hsum
    omega
  have hitems : ((v.setNode p { v.node p with items := (v.node p).items.take pos ++
      ⟨key, .rid rid⟩ :: (v.node p).items.drop pos }).node p).items = left ++ first :: rest := by
    rw [Pages.setNode_self]
    exact hall
  have h₃ := hroom.tree.splitInto hp hNdom h.two_le_newPage (by rw [hroom.disposed]; simp)
    hitems hleft0 hs
  have he₃ := TreeInv.entry_splitInto hp hNdom hitems hs (at_ (rank first.key))
  have hr := h.dom_root hp
  have hlvl₃ : ∀ x, g.dom x → (g.split p v.newPage (at_ (rank first.key))).lvl x = g.lvl x :=
    fun x hx => if_neg fun (hc : x = v.newPage) => hNdom (hc ▸ hx)
  refine keyAt_bind 0 first (by rw [hs.items_right]; rfl) ?_
  refine rounds_bind ?_
  refine (insertEntryIntoParent_spec hcmp hm _ h₃ (hs.disposed.trans hroom.disposed) ⟨?_, ?_⟩ ?_
    ?_).post ?_
  · rintro x (rfl | hx) hxr
    · rw [hs.items_right, show (g.split p v.newPage (at_ (rank first.key))).lvl v.newPage =
        g.lvl p from if_pos rfl]
      rw [minFill, if_pos hl]
      omega
    · rw [hlvl₃ x hx]
      have hxN : x ≠ v.newPage := fun hc => hNdom (hc ▸ hx)
      by_cases hxp : x = p
      · rw [hxp, hs.items_left, minFill, if_pos hl]
        omega
      · rw [hs.others x hxp hxN]
        rw [hs.rootPage] at hxr
        have hxr' : x ≠ v.rootPage := hxr.elim id fun hc =>
          absurd (hc.elim fun _ heq => by cases heq; rfl) hxp
        exact hroom.balanced.filled x hx (Or.inl hxr')
  · intro _ hrp hlr
    rw [hs.rootPage] at hrp hlr ⊢
    rw [Pages.setNode_rootPage] at hrp hlr ⊢
    rw [hlvl₃ _ hr] at hlr
    have hrp' : v.rootPage ≠ p := fun hc => hrp v.newPage (by rw [hc])
    have hrN : v.rootPage ≠ v.newPage := fun hc => hNdom (hc ▸ hr)
    rw [hs.others _ hrp' hrN]
    exact hroom.balanced.root hr (by simp) hlr
  · simp [Layout.split]
  · have hr₃ := h₃.dom_root (h₃.split _ _ rfl).1
    exact (h₃.lvl_root_lt hr₃).trans_le ((Nat.le_succ _).trans (Nat.le_add_left _ _))
  · rintro _ s ⟨v', g', hs', hk, hclimb⟩
    refine ⟨v', g', hs', ⟨hk.toWellFormed, fun item => ?_⟩, fun hocc => ?_⟩
    · rw [hk.entries, he₃, hroom.entries]
    · have hothers := fun x (hx : g.dom x) (hxp : x ≠ p) =>
        hs.leaf_others hleaf.isLeaf hxp fun hc => hNdom (hc ▸ hx)
      have hlevel : levelMax tree.fileHeader (g.lvl p) = tree.fileHeader.leafMaxSize := if_pos hl
      rw [EvenFrom, imp_iff_right (show _ ≤ (v.node p).size from hfull), ← hlevel]
      refine hclimb.occupied_iff hp hNdom hocc (by rwa [hlevel]) (by rwa [hlevel]) ?_ ?_
        (fun x hx hxp => by rw [hothers x hx hxp])
        (h.sameAbove (by simp) hs.rootPage ?_ fun x hx _ hxp => hothers x hx hxp)
      · rw [hs.items_left]
        exact hhalf
      · rw [hs.items_left, hs.items_right]
        exact hsum
      · rw [hs.parent_left, Pages.setNode_self]

/-- `insert_entry_into_leaf_node`, from the leaf that the descent has found. -/
theorem insertEntryIntoLeafNode_spec (hcmp : RankedBy tree.keyComparator rank)
    (hL : 2 ≤ tree.fileHeader.leafMaxSize) (hm : 2 ≤ tree.fileHeader.internalMaxSize)
    (hw : WellFormed tree.fileHeader rank v g) (hs₀ : At v s₀) (hp : g.dom p) (hl : g.lvl p = 0)
    (hlo : g.lo p ≤ at_ (rank key)) (hhi : at_ (rank key) < g.hi p) :
    Triple (· = s₀) (insertEntryIntoLeafNode tree p key rid)
      (fun _ s => (¬ ∃ item, Entry v g item ∧ rank item.key = rank key) ∧ ∃ v' g', At v' s ∧
        Inserted tree.fileHeader rank v g ⟨key, .rid rid⟩ v' g' ∧
        OccupiedWhen tree.fileHeader v g v' g' (EvenFrom tree.fileHeader v p
          (LeafIndexNodeHandler.lookup tree.keyComparator (v.node p) key).1))
      (fun e s => e = .rc .recordDuplicateKey ∧
        (∃ item, Entry v g item ∧ rank item.key = rank key) ∧ s = s₀) := by
  have hleaf := hw.tree.leaf p hp hl
  have hpos := LeafIndexNodeHandler.lookup_spec key hcmp hleaf.sorted
  rw [hw.tree.key_in_leaf hp hl hlo hhi, ← hpos.found_iff]
  refine readNode_of (v := v) (fun s hs => hs ▸ hs₀.1) ?_
  generalize LeafIndexNodeHandler.lookup tree.keyComparator (v.node p) key = result at hpos ⊢
  obtain ⟨pos, found⟩ := result
  cases found with
  | true => exact Triple.throw fun s hs => ⟨rfl, rfl, hs⟩
  | false =>
    simp only [Bool.false_eq_true, if_false]
    refine Triple.pre (H := At v) ?_ fun s hs => hs ▸ hs₀
    have hmaxSize : maxSize tree.fileHeader (v.node p) = tree.fileHeader.leafMaxSize := by
      simp [maxSize, hleaf.isLeaf]
    rw [hmaxSize]
    by_cases hroom : (v.node p).size < tree.fileHeader.leafMaxSize
    · rw [if_pos hroom]
      refine (LeafIndexNodeHandler.insert_at hpos.le_length).bind fun _ => ?_
      refine markDirty_at.post fun _ s hs => ⟨by simp, _, g, hs, ?_⟩
      exact ⟨Inserted.of_room hw hp hl hpos rfl hlo hhi, occupiedWhen_of_room hl hpos hroom⟩
    · rw [if_neg hroom]
      exact (insertIntoFullLeaf_spec hcmp hL hm hw hp hl hpos hlo hhi (not_lt.mp hroom)).post
        fun _ s hs => ⟨by simp, hs⟩

omit [Inhabited κ] in
theorem createNewTree_spec (hL : 2 ≤ tree.fileHeader.leafMaxSize)
    (hw : WellFormed tree.fileHeader rank v g)
    (hempty : v.rootPage = bpInvalidPageNum) :
    Triple (At v) (createNewTree key rid)
      (fun _ s => ∃ v' g', At v' s ∧
        Inserted tree.fileHeader rank v g ⟨key, .rid rid⟩ v' g' ∧
        Occupied tree.fileHeader v' g' none) E := by
  have hnone : ∀ x, ¬ g.dom x := fun x hx =>
    hw.tree.ne_invalid (hw.tree.dom_root hx) hempty
  refine readRootPage_bind ?_
  rw [if_neg (by simp [hempty])]
  refine allocatePage_bind <| LeafIndexNodeHandler.initEmpty_at.bind fun _ => ?_
  refine (LeafIndexNodeHandler.insert_at (Nat.zero_le _)).bind fun _ => ?_
  refine updateRootPageNumLocked_at.bind fun _ => markDirty_at.post fun _ s hs => ?_
  simp only [Pages.setNode_self, Pages.setNode_setNode, List.take_zero, List.drop_zero,
    List.nil_append] at hs
  have hnew : NewTree v
      { v.allocate.setNode v.newPage
          ⟨true, bpInvalidPageNum, bpInvalidPageNum, [⟨key, .rid rid⟩]⟩ with
        rootPage := v.newPage } v.newPage ⟨key, .rid rid⟩ :=
    { rootPage := rfl
      alloc := fun x hx => Pages.allocated_allocate.mpr (Or.inl hx)
      new := Pages.allocated_allocate.mpr (Or.inr rfl)
      disposed := rfl
      node := Pages.setNode_self }
  have hnotRoot {p root : PageNum} (h : p ≠ root ∨ ∃ r : PageNum, none = some (p, r)) : p ≠ root :=
    h.elim id fun hhole => hhole.elim fun _ heq => by simp at heq
  refine ⟨_, Layout.single v.newPage, hs, ?_, ?_, ?_⟩
  rotate_left
  · exact fun x hx hxr => absurd hx (hnotRoot hxr)
  · rintro x rfl
    rw [hnew.node, levelMax, if_pos (show (Layout.single (ρ := ρ) v.newPage).lvl v.newPage = 0 from rfl)]
    exact (Nat.le_succ 1).trans hL
  exact
    { tree := hw.tree.newTree hw.tree.two_le_newPage (by rw [hw.disposed]; simp) hnew
      balanced :=
        { filled := fun x hx hxr => absurd hx (hnotRoot hxr)
          root := fun _ _ hlr => absurd rfl hlr }
      disposed := hw.disposed
      entries := fun item => by
        rw [entry_newTree hnew]
        exact (or_iff_right fun hentry => hentry.elim fun x hx => hnone x hx.1).symm }

end Operation

end ObHtap
