import ObHtap.Bplus.Merge
import ObHtap.Bplus.Search
import ObHtap.Bplus.Handler

/-!
# How a small node finds its place

`coalesce_or_redistribute` looks for the slot of a node in its parent by the last key that is
left in the node.  In a leaf, and in an internal node with two items or more, this key lies in
the interval of the node.  The first key of an internal node is not kept up to date on the left
edge of the tree, and a node without items has no key.
-/

namespace ObHtap

open ObHtap.Bound IndexNodeHandler

variable {κ ρ : Type} [LinearOrder ρ] {rank : κ → ρ} {v₀ v v' : Pages κ} {g : Layout ρ}
  {header : IndexFileHeader} {cmp : κ → κ → Int} {p x : PageNum} {key : κ}
  {js ks : List (Item κ)} {it : Item κ}

/-- The slot of the neighbor that a node turns to. -/
def neighborSlot (slot : Nat) : Nat := if slot = 0 then 1 else slot - 1

/-- When `p` loses an item, so does `x`: the pages from `p` to below `x` become too small and
are merged with their neighbors. -/
inductive LosesItem (header : IndexFileHeader) (v : Pages κ) : PageNum → PageNum → Prop
  | here {p : PageNum} : LosesItem header v p p
  | above {p x : PageNum} {slot : Nat} {item neighbor : Item κ} : p ≠ v.rootPage →
      (v.node (v.node p).parent).items[slot]? = some item → item.child = p →
      (v.node (v.node p).parent).items[neighborSlot slot]? = some neighbor →
      (v.node p).size ≤ minSize header (v.node p) →
      (v.node p).size - 1 + (v.node neighbor.child).size ≤ maxSize header (v.node p) →
      LosesItem header v (v.node p).parent x → LosesItem header v p x

/-- A page that loses an item is not its parent's only child, keeps an item if it is a leaf, and
if it is an internal page with two items at the start of its parent, its first key is below the
separator after it. -/
structure KeepsPlace (cmp : κ → κ → Int) (v : Pages κ) (x : PageNum) : Prop where
  neighbor : 2 ≤ (v.node (v.node x).parent).size
  item : (v.node x).isLeaf = true → 2 ≤ (v.node x).size
  firstKey : (v.node x).isLeaf = false → (v.node x).size = 2 → ∀ item sep first,
    (v.node (v.node x).parent).items[0]? = some item → item.child = x →
    (v.node (v.node x).parent).items[1]? = some sep → (v.node x).items[0]? = some first →
    cmp first.key sep.key < 0

/-- All pages that become too small when `p` loses an item keep their place. -/
def Locatable (header : IndexFileHeader) (cmp : κ → κ → Int) (v : Pages κ) (p : PageNum) : Prop :=
  ∀ x, LosesItem header v p x → x ≠ v.rootPage →
    (v.node x).size ≤ minSize header (v.node x) → KeepsPlace cmp v x

/-- The search for the key in the parent of `p` ends in the slot of `p`, and there is a
neighbor. -/
def Located (cmp : κ → κ → Int) (v : Pages κ) (p : PageNum) (key : κ) : Prop :=
  ∃ item neighbor, (v.node (v.node p).parent).items[(InternalIndexNodeHandler.lookup cmp
      (v.node (v.node p).parent) key).1]? = some item ∧ item.child = p ∧
    (v.node (v.node p).parent).items[neighborSlot (InternalIndexNodeHandler.lookup cmp
      (v.node (v.node p).parent) key).1]? = some neighbor

/-- The pages `v` are those of `v₀` from the level of `p` upwards, but `p` has lost an item,
and not the first one of an internal page. -/
structure LostOne (v₀ v : Pages κ) (g : Layout ρ) (p : PageNum) : Prop where
  rootPage : v.rootPage = v₀.rootPage
  isLeaf : (v.node p).isLeaf = (v₀.node p).isLeaf
  parent : (v.node p).parent = (v₀.node p).parent
  items : ∃ js old ks, (v₀.node p).items = js ++ old :: ks ∧ (v.node p).items = js ++ ks ∧
    (g.lvl p ≠ 0 → js ≠ [])
  others : ∀ x, g.dom x → g.lvl p ≤ g.lvl x → x ≠ p → v.node x = v₀.node x

/-! ## The climb of a deletion -/

section Climb

omit [LinearOrder ρ]

theorem locatable_of_large (hlarge : minSize header (v.node p) < (v.node p).size) :
    Locatable header cmp v p := by
  intro x hx _ hsmall
  cases hx with
  | here => omega
  | above _ _ _ _ hsmall' => omega

theorem locatable_root (hp : p = v.rootPage) : Locatable header cmp v p := by
  intro x hx hne
  cases hx with
  | here => exact absurd hp hne
  | above hne' => exact absurd hp hne'

theorem Locatable.keepsPlace (h : Locatable header cmp v p) (hp : p ≠ v.rootPage)
    (hsmall : (v.node p).size ≤ minSize header (v.node p)) : KeepsPlace cmp v p :=
  h p .here hp hsmall

/-- The climb ends at a page that borrows from its neighbor, and goes on after a merge. -/
theorem locatable_iff (hp : p ≠ v.rootPage)
    (hsmall : (v.node p).size ≤ minSize header (v.node p)) (slot : Nat) {nb : Item κ}
    (hslot : ∀ i item, (v.node (v.node p).parent).items[i]? = some item → item.child = p → i = slot)
    (hitem : ∃ item, (v.node (v.node p).parent).items[slot]? = some item ∧ item.child = p)
    (hnb : (v.node (v.node p).parent).items[neighborSlot slot]? = some nb) :
    Locatable header cmp v p ↔ KeepsPlace cmp v p ∧
      ((v.node p).size - 1 + (v.node nb.child).size ≤ maxSize header (v.node p) →
        Locatable header cmp v (v.node p).parent) := by
  obtain ⟨item, hget, hchild⟩ := hitem
  constructor
  · intro h
    refine ⟨h.keepsPlace hp hsmall, fun hmerge x hx => ?_⟩
    exact h x (.above hp hget hchild hnb hsmall hmerge hx)
  · rintro ⟨hkeeps, habove⟩ x hx
    cases hx with
    | here => exact fun _ _ => hkeeps
    | above _ hget' hchild' hnb' _ hmerge hx =>
      obtain rfl := hslot _ _ hget' hchild'
      rw [hnb] at hnb'
      cases hnb'
      exact habove hmerge x hx

end Climb

/-! ## The search by the last key -/

omit [LinearOrder ρ] in
/-- A search that ends in the first slot has found the key below the separator after it. -/
theorem InternalIndexNodeHandler.lookup_zero {node : IndexNode κ} {sep : Item κ}
    (h : (lookup cmp node key).1 = 0) (hsep : node.items[1]? = some sep) :
    cmp key sep.key < 0 := by
  have hsize : node.size ≠ 0 := by
    have := (List.getElem?_eq_some_iff.mp hsep).1
    unfold IndexNode.size
    omega
  unfold lookup at h
  rw [if_neg hsize] at h
  simp only at h
  generalize (lowerBound (fun i => compareAt cmp node.items key (i + 1)) (node.size - 1)).1 = n at h
  cases hget : node.items[n + 1]? with
  | none =>
    rw [hget] at h
    obtain rfl : n = 0 := h
    rw [hsep] at hget
    cases hget
  | some item =>
    rw [hget] at h
    simp only at h
    by_cases hlt : cmp key item.key < 0
    · rw [if_pos hlt] at h
      obtain rfl : n = 0 := h
      rw [hsep] at hget
      cases hget
      exact hlt
    · rw [if_neg hlt] at h
      exact absurd h (Nat.succ_ne_zero n)

/-- The first key of an internal page leads to the page, unless the page is the first one of its
parent and the key is not below the separator after it. -/
theorem TreeInv.lookup_firstKey (hcmp : RankedBy cmp rank) (h : TreeInv rank v g none)
    {parent : PageNum} (hP : g.dom parent) (hlP : g.lvl parent ≠ 0)
    (hitems : (v.node parent).items = js ++ it :: ks) (hl : g.lvl it.child ≠ 0) {first : Item κ}
    (hfirst : (v.node it.child).items[0]? = some first) :
    (InternalIndexNodeHandler.lookup cmp (v.node parent) first.key).1 = js.length ↔
      (js = [] → ∀ sep, ks[0]? = some sep → cmp first.key sep.key < 0) := by
  have hmem : it ∈ (v.node parent).items := by simp [hitems]
  obtain ⟨_, _, hc, -⟩ := h.child_of_mem hP hlP hmem
  by_cases hjs : js = []
  · subst hjs
    simp only [List.nil_append, List.length_nil, forall_const] at hitems ⊢
    constructor
    · intro hzero sep hsep
      exact InternalIndexNodeHandler.lookup_zero hzero (by rw [hitems]; exact hsep)
    · intro hsep
      have hsorted := h.seps_sorted hP hlP
      have hnil : (v.node parent).items = [] ++ it :: ks := hitems
      refine (InternalIndexNodeHandler.lookup_of_seps hcmp hnil hsorted (by simp) (by simp)
        fun b hb => ?_).1
      rw [hitems, List.drop_one, List.tail_cons] at hsorted
      obtain ⟨sep, ks', rfl⟩ := List.exists_cons_of_ne_nil (List.ne_nil_of_mem hb)
      have hlt := (hcmp.neg_iff _ _).mp (hsep sep rfl)
      rcases List.mem_cons.mp hb with rfl | hb
      · exact hlt
      · exact hlt.trans ((List.pairwise_cons.mp hsorted).1 b hb)
  · -- the page does not start at the left end, so its first key is where it starts
    refine iff_of_true ?_ fun hc => absurd hc hjs
    have hlo := h.key_eq_lo hP hlP hitems hjs
    have hcov := (h.internal _ hc.dom hl).cover
    obtain ⟨rest, hrest⟩ : ∃ rest, (v.node it.child).items = first :: rest := by
      cases hi : (v.node it.child).items with
      | nil => simp [hi] at hfirst
      | cons a rest => exact ⟨rest, by simp [hi] at hfirst; rw [hfirst]⟩
    rw [hrest] at hcov
    obtain ⟨m, hfc, -⟩ := hcov
    have hkey : g.lo it.child = at_ (rank first.key) :=
      hfc.key.resolve_left fun hb => by rw [hb] at hlo; exact absurd hlo.symm (by simp)
    exact InternalIndexNodeHandler.lookup_eq hcmp h hP hlP hitems hkey.le
      (hkey ▸ h.lt _ hc.dom)

/-- In a leaf, and where two items are left, the last key leads to the page. -/
theorem TreeInv.lookup_lastKey (hcmp : RankedBy cmp rank) (h : TreeInv rank v g none)
    {parent : PageNum} (hP : g.dom parent) (hlP : g.lvl parent ≠ 0)
    (hitems : (v.node parent).items = js ++ it :: ks) {last : Item κ}
    (hlast : (v.node it.child).items[(v.node it.child).size - 1]? = some last)
    (hmany : g.lvl it.child ≠ 0 → 2 ≤ (v.node it.child).size) :
    (InternalIndexNodeHandler.lookup cmp (v.node parent) last.key).1 = js.length := by
  obtain ⟨_, _, hc, -⟩ := h.child_of_mem hP hlP (show it ∈ (v.node parent).items by simp [hitems])
  obtain ⟨hlt, hget⟩ := List.getElem?_eq_some_iff.mp hlast
  have hmem : last ∈ (v.node it.child).items := List.mem_of_getElem? hlast
  by_cases hl : g.lvl it.child = 0
  · have hb := (h.leaf _ hc.dom hl).bounds last hmem
    exact InternalIndexNodeHandler.lookup_eq hcmp h hP hlP hitems hb.1 hb.2
  · -- the last item has others before it, so its key is where its child starts
    obtain ⟨l, u, hlc, hlo, hhi⟩ := h.child_of_mem hc.dom hl hmem
    have hmany := hmany hl
    have hsplit : (v.node it.child).items =
        (v.node it.child).items.take ((v.node it.child).size - 1) ++ last ::
          (v.node it.child).items.drop ((v.node it.child).size - 1 + 1) := by
      rw [← hget, ← List.drop_eq_getElem_cons hlt, List.take_append_drop]
    have hsep := h.key_eq_lo hc.dom hl hsplit fun hnil => by
      have := congrArg List.length hnil
      simp only [List.length_take, List.length_nil] at this
      omega
    rw [← hlc.lo, hsep] at hlo
    have hlt' := (h.child_lt hlc).trans_le hhi
    rw [← hlc.lo, hsep] at hlt'
    exact InternalIndexNodeHandler.lookup_eq hcmp h hP hlP hitems hlo hlt'

/-- A page is located when the search ends in its slot and its parent has another child. -/
theorem TreeInv.located_iff (h : TreeInv rank v g none) (hP : g.dom (v.node it.child).parent)
    (hlP : g.lvl (v.node it.child).parent ≠ 0)
    (hitems : (v.node (v.node it.child).parent).items = js ++ it :: ks) :
    Located cmp v it.child key ↔ (InternalIndexNodeHandler.lookup cmp
        (v.node (v.node it.child).parent) key).1 = js.length ∧
      2 ≤ (v.node (v.node it.child).parent).size := by
  have hsize : (v.node (v.node it.child).parent).size = js.length + 1 + ks.length := by
    rw [IndexNode.size, hitems]
    simp
    omega
  constructor
  · rintro ⟨item, nb, hget, hchild, hnb⟩
    have hslot := h.slot_unique hP hlP hitems hget hchild
    refine ⟨hslot, ?_⟩
    rw [hslot] at hnb
    have hlt := (List.getElem?_eq_some_iff.mp hnb).1
    change _ < (v.node (v.node it.child).parent).size at hlt
    unfold neighborSlot at hlt
    split_ifs at hlt <;> omega
  · rintro ⟨hslot, h2⟩
    have hlt : neighborSlot js.length < (v.node (v.node it.child).parent).items.length := by
      change _ < (v.node (v.node it.child).parent).size
      unfold neighborSlot
      split_ifs <;> omega
    refine ⟨it, (v.node (v.node it.child).parent).items[neighborSlot js.length], ?_, rfl, ?_⟩
    · rw [hslot, hitems]
      simp
    · rw [hslot]
      exact List.getElem?_eq_getElem hlt

omit [LinearOrder ρ] in
theorem LostOne.size (hlost : LostOne v₀ v g p) : (v₀.node p).size = (v.node p).size + 1 := by
  obtain ⟨js, old, ks, h₀, h₁, -⟩ := hlost.items
  simp only [IndexNode.size, h₀, h₁, List.length_append, List.length_cons]
  omega

/-- A page whose parent is as before keeps its place exactly if the last key that is left
leads to it, and it has a neighbor. -/
theorem LostOne.keepsPlace_iff (hcmp : RankedBy cmp rank) (h : TreeInv rank v g none)
    (hlost : LostOne v₀ v g p) (hp : g.dom p) (hroot : p ≠ v.rootPage) :
    KeepsPlace cmp v₀ p ↔ ∃ last, (v.node p).items[(v.node p).size - 1]? = some last ∧
      Located cmp v p last.key := by
  obtain ⟨js, it, ks, hitems, rfl, hP, hlP⟩ := h.child_of_parent hp hroot (by simp)
  have hlP0 : g.lvl (v.node it.child).parent ≠ 0 := by omega
  have hPnode : v.node (v.node it.child).parent = v₀.node (v.node it.child).parent :=
    hlost.others _ hP (by omega) fun hc => by rw [hc] at hlP; omega
  have hsize := hlost.size
  have hlocated : ∀ key, Located cmp v it.child key ↔ _ := fun key => h.located_iff hP hlP0 hitems
  have hleaf := h.isLeaf_iff hp
  constructor
  · intro hkeeps
    have h2 := hkeeps.neighbor
    rw [← hlost.parent, ← hPnode] at h2
    have hpos : 0 < (v.node it.child).size := by
      by_cases hl : g.lvl it.child = 0
      · have := hkeeps.item (by rw [← hlost.isLeaf]; exact hleaf.mpr hl)
        omega
      · exact List.length_pos_iff.mpr (h.internal _ hp hl).ne_nil
    have hlt : (v.node it.child).size - 1 < (v.node it.child).items.length := by
      unfold IndexNode.size at hpos ⊢
      omega
    obtain ⟨last, hlast⟩ : ∃ last,
        (v.node it.child).items[(v.node it.child).size - 1]? = some last :=
      ⟨_, List.getElem?_eq_getElem hlt⟩
    refine ⟨last, hlast, (hlocated _).mpr ⟨?_, h2⟩⟩
    by_cases hone : g.lvl it.child ≠ 0 ∧ (v.node it.child).size = 1
    · -- only the first item is left
      obtain ⟨hl, hone⟩ := hone
      simp only [hone, Nat.sub_self] at hlast
      refine (h.lookup_firstKey hcmp hP hlP0 hitems hl hlast).mpr ?_
      rintro rfl sep hsep
      obtain ⟨js', old, ks', h₀, h₁, hne⟩ := hlost.items
      refine hkeeps.firstKey ?_ (by omega) it sep _ ?_ rfl ?_ ?_
      · rw [← hlost.isLeaf, Bool.eq_false_iff]
        exact fun hc => hl (hleaf.mp hc)
      · rw [← hlost.parent, ← hPnode, hitems]
        rfl
      · rw [← hlost.parent, ← hPnode, hitems]
        exact hsep
      · rw [h₁] at hlast
        obtain ⟨a, as, rfl⟩ := List.exists_cons_of_ne_nil (hne hl)
        rw [h₀]
        exact hlast
    · refine h.lookup_lastKey hcmp hP hlP0 hitems hlast fun hl => ?_
      have := fun hc => hone ⟨hl, hc⟩
      omega
  · rintro ⟨last, hlast, hloc⟩
    obtain ⟨hslot, h2⟩ := (hlocated _).mp hloc
    have hlt := (List.getElem?_eq_some_iff.mp hlast).1
    change _ < (v.node it.child).size at hlt
    refine ⟨?_, fun _ => by omega, fun hleaf₀ htwo item sep first hget hchild hsep hfirst => ?_⟩
    · rwa [← hlost.parent, ← hPnode]
    · rw [← hlost.parent, ← hPnode] at hget hsep
      have hl : g.lvl it.child ≠ 0 := fun hc => by
        rw [← hlost.isLeaf, hleaf.mpr hc] at hleaf₀
        cases hleaf₀
      obtain ⟨js', old, ks', h₀, h₁, hne⟩ := hlost.items
      obtain ⟨a, as, rfl⟩ := List.exists_cons_of_ne_nil (hne hl)
      have hone : (v.node it.child).size - 1 = 0 := by omega
      rw [hone] at hlast
      have heq : last = first := by
        rw [h₀] at hfirst
        rw [h₁] at hlast
        simp only [List.cons_append, List.getElem?_cons_zero, Option.some.injEq] at hfirst hlast
        exact hlast.symm.trans hfirst
      subst heq
      have hjs := h.slot_unique hP hlP0 hitems hget hchild
      obtain rfl := List.length_eq_zero_iff.mp hjs.symm
      refine (h.lookup_firstKey hcmp hP hlP0 hitems hl hlast).mp hslot rfl sep ?_
      rw [hitems] at hsep
      exact hsep

theorem LostOne.parentNode (h : TreeInv rank v g none) (hlost : LostOne v₀ v g p) (hp : g.dom p)
    (hroot : p ≠ v.rootPage) : v.node (v.node p).parent = v₀.node (v₀.node p).parent := by
  obtain ⟨_, _, _, -, -, hP, hlP⟩ := h.child_of_parent hp hroot (by simp)
  rw [← hlost.parent]
  exact hlost.others _ hP (by omega) fun hc => by rw [hc] at hlP; omega

/-- Once the page has been located, a merge decides whether the climb goes on. -/
theorem LostOne.locatable_iff (h : TreeInv rank v g none) (hlost : LostOne v₀ v g p)
    (hp : g.dom p) (hroot : p ≠ v.rootPage)
    (hsmall : (v₀.node p).size ≤ minSize header (v₀.node p)) {slot : Nat} {item nb : Item κ}
    (hitem : (v.node (v.node p).parent).items[slot]? = some item) (hchild : item.child = p)
    (hnb : (v.node (v.node p).parent).items[neighborSlot slot]? = some nb)
    (hkeeps : KeepsPlace cmp v₀ p) :
    Locatable header cmp v₀ p ↔
      ((v.node p).size + (v.node nb.child).size ≤ maxSize header (v.node p) →
        Locatable header cmp v₀ (v.node p).parent) := by
  obtain ⟨js, it, ks, hitems, hit, hP, hlP⟩ := h.child_of_parent hp hroot (by simp)
  have hlP0 : g.lvl (v.node p).parent ≠ 0 := by omega
  have hPnode := hlost.parentNode h hp hroot
  have hslot : ∀ i a, (v.node (v.node p).parent).items[i]? = some a → a.child = p → i = slot :=
    fun i a hi ha => (h.slot_unique hP hlP0 hitems hi (ha.trans hit.symm)).trans
      (h.slot_unique hP hlP0 hitems hitem (hchild.trans hit.symm)).symm
  -- the neighbor is another page of the same level
  have hnbne : nb.child ≠ p := fun hc => by
    have := hslot _ _ hnb hc
    unfold neighborSlot at this
    split_ifs at this <;> omega
  obtain ⟨_, _, hcnb, -⟩ := h.child_of_mem hP hlP0 (List.mem_of_getElem? hnb)
  have hlnb := hcnb.lvl
  have hnbNode := hlost.others _ hcnb.dom (by omega) hnbne
  have hmax : maxSize header (v₀.node p) = maxSize header (v.node p) := by
    rw [maxSize, maxSize, hlost.isLeaf]
  have hsize := hlost.size
  rw [hPnode] at hslot hitem hnb
  rw [ObHtap.locatable_iff (by rwa [← hlost.rootPage]) hsmall slot hslot ⟨item, hitem, hchild⟩ hnb,
    and_iff_right hkeeps, hmax, hsize, Nat.add_sub_cancel, ← hnbNode, ← hlost.parent]

theorem LostOne.merged {parent : PageNum} {il ir : Item κ} (h : TreeInv rank v g none)
    (hlost : LostOne v₀ v g p) (hP : g.dom parent) (hlP : g.lvl parent = g.lvl p + 1)
    (hitems : (v.node parent).items = js ++ il :: ir :: ks)
    (hs : MergeInto v v' parent il.child ir.child (js ++ il :: ks)) :
    LostOne v₀ v' (g.merge il.child ir.child) parent := by
  have hlP0 : g.lvl parent ≠ 0 := by omega
  obtain ⟨-, hl, hr, -, -⟩ := h.neighbors hP hlP0 hitems
  have hll := hl.lvl
  have hlr := hr.lvl
  have hPnode : v.node parent = v₀.node parent :=
    hlost.others _ hP (by omega) fun hc => by rw [hc] at hlP; omega
  refine
    { rootPage := hs.rootPage.trans hlost.rootPage
      isLeaf := by rw [hs.parentNode, hPnode]
      parent := by rw [hs.parentNode, hPnode]
      items := ⟨js ++ [il], ir, ks, ?_, ?_, fun _ => by simp⟩
      others := ?_ }
  · rw [← hPnode, hitems]
    simp
  · rw [hs.parentNode]
    simp
  · rintro x ⟨hx, hxr⟩ hlx hxP
    change g.lvl parent ≤ g.lvl x at hlx
    have hxl : x ≠ il.child := fun hc => by rw [hc] at hlx; omega
    rw [← hlost.others x hx (by omega) fun hc => by rw [hc] at hlx; omega,
      hs.others x hxP hxl hxr, if_neg]
    rintro ⟨hleaf, hmem⟩
    obtain ⟨item, hitem, rfl⟩ := List.mem_map.mp hmem
    have hl0 := h.lvl_ne_zero hl.dom hleaf
    obtain ⟨_, _, hc, -⟩ := h.child_of_mem hr.dom (by omega) hitem
    have := hc.lvl
    omega

end ObHtap
