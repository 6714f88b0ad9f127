import ObHtap.Bplus.Descent
import Mathlib.Data.Finset.Filter

/-!
# Valid trees

What `validate_tree` is after, said of the pages alone: of those that can be reached from the
root, and of the chain of leaves.
-/

namespace ObHtap

open ObHtap.Bound IndexNodeHandler BplusTreeHandler

variable {κ : Type}

/-- The page is reached from the root in `depth` steps. -/
inductive Reach (v : Pages κ) : PageNum → Nat → Prop
  | root : v.rootPage ≠ bpInvalidPageNum → Reach v v.rootPage 0
  | child {p : PageNum} {depth : Nat} {item : Item κ} : Reach v p depth →
      (v.node p).isLeaf = false → item ∈ (v.node p).items → Reach v item.child (depth + 1)

/-- The page is reached from the root through first children only. -/
inductive LeftEdge (v : Pages κ) : PageNum → Prop
  | root : v.rootPage ≠ bpInvalidPageNum → LeftEdge v v.rootPage
  | child {p : PageNum} {item : Item κ} : LeftEdge v p →
      (v.node p).isLeaf = false → (v.node p).items.head? = some item → LeftEdge v item.child

/-- The pages that `next_brother` leads to from a page on, the page among them. -/
inductive Chain (v : Pages κ) : PageNum → List PageNum → Prop
  | nil : Chain v bpInvalidPageNum []
  | cons {p : PageNum} {ps : List PageNum} : p ≠ bpInvalidPageNum →
      Chain v (v.node p).nextBrother ps → Chain v p (p :: ps)

theorem Chain.eq_nil {v : Pages κ} {p : PageNum} {ps : List PageNum} (h : Chain v p ps)
    (hp : p = bpInvalidPageNum) : ps = [] := by
  cases h with
  | nil => rfl
  | cons hne _ => exact absurd hp hne

theorem Chain.exists_cons {v : Pages κ} {p : PageNum} {ps : List PageNum} (h : Chain v p ps)
    (hp : p ≠ bpInvalidPageNum) : ∃ qs, ps = p :: qs := by
  cases h with
  | nil => exact absurd rfl hp
  | cons _ _ => exact ⟨_, rfl⟩

theorem Chain.head_mem {v : Pages κ} {p : PageNum} {ps : List PageNum} (h : Chain v p ps)
    (hp : p ≠ bpInvalidPageNum) : p ∈ ps := by
  cases h with
  | nil => exact absurd rfl hp
  | cons _ _ => exact List.mem_cons_self

/-- The keys of a node that count: the first key of an internal node is not used. -/
def IndexNode.keys (node : IndexNode κ) : List κ :=
  (if node.isLeaf then node.items else node.items.drop 1).map Item.key

/-- The items of the leaves in a list. -/
def Pages.itemsOf (v : Pages κ) (ps : List PageNum) : List (Item κ) :=
  ps.flatMap fun p => (v.node p).items

/-- The leaf chain starts at the left-most leaf and visits every leaf once, in key order. -/
structure LeafChain (keyComparator : κ → κ → Int) (v : Pages κ) (first : PageNum)
    (leaves : List PageNum) : Prop where
  leftMost : LeftEdge v first ∧ (v.node first).isLeaf = true
  chain : Chain v first leaves
  nodup : leaves.Nodup
  mem_iff : ∀ p, p ∈ leaves ↔ (∃ depth, Reach v p depth) ∧ (v.node p).isLeaf = true
  ordered : (v.itemsOf leaves).Pairwise fun a b => keyComparator a.key b.key < 0

/-- The structural invariant of a tree. -/
structure ValidTree (keyComparator : κ → κ → Int) (v : Pages κ) : Prop where
  sorted : ∀ p depth, Reach v p depth →
    (v.node p).keys.Pairwise fun a b => keyComparator a b < 0
  between : ∀ p depth, Reach v p depth → (v.node p).isLeaf = false →
    ∀ js item ks, (v.node p).items = js ++ item :: ks → ∀ key ∈ (v.node item.child).keys,
      (js ≠ [] → keyComparator item.key key ≤ 0) ∧
        ∀ next ∈ ks.head?, keyComparator key next.key < 0
  parent : ∀ p depth, Reach v p depth → (v.node p).isLeaf = false →
    ∀ item ∈ (v.node p).items, (v.node item.child).parent = p
  sameDepth : ∀ p q depth depth', Reach v p depth → Reach v q depth' →
    (v.node p).isLeaf = true → (v.node q).isLeaf = true → depth = depth'
  leafChain : v.rootPage ≠ bpInvalidPageNum → ∃ first leaves, LeafChain keyComparator v first leaves
  rootChildren : v.rootPage ≠ bpInvalidPageNum → (v.node v.rootPage).isLeaf = false →
    2 ≤ (v.node v.rootPage).size

/-! ## The layout tells all this -/

variable {ρ : Type} [LinearOrder ρ] {rank : κ → ρ} {v : Pages κ} {g : Layout ρ}
  {cmp : κ → κ → Int} {p : PageNum}

namespace TreeInv

theorem dom_of_reach (h : TreeInv rank v g none) {depth : Nat} (hr : Reach v p depth) :
    g.dom p ∧ g.lvl p + depth = g.lvl v.rootPage := by
  induction hr with
  | root hne => exact ⟨h.root.elim (fun hc => absurd hc.1 hne) fun hc => hc.1, rfl⟩
  | child _ hleaf hmem ih =>
    obtain ⟨hd, hl⟩ := ih
    obtain ⟨l, u, hc, -⟩ := h.child_of_mem hd (h.lvl_ne_zero hd hleaf) hmem
    exact ⟨hc.dom, by have := hc.lvl; omega⟩

theorem reach_of_dom (h : TreeInv rank v g none) (hp : g.dom p) : ∃ depth, Reach v p depth := by
  induction hn : g.lvl v.rootPage - g.lvl p generalizing p with
  | zero =>
    have hle := h.lvl_le p hp
    obtain rfl : p = v.rootPage := (h.eq_root_of_lvl hp (by omega)).elim id (by simp)
    exact ⟨0, .root (h.ne_invalid hp)⟩
  | succ n ih =>
    have hne : p ≠ v.rootPage := by rintro rfl; omega
    obtain ⟨hd, hl, item, hmem, rfl⟩ := h.up p hp hne (by simp)
    obtain ⟨l, u, hc, -⟩ := h.child_of_mem hd hl hmem
    have hlvl := hc.lvl
    obtain ⟨depth, hr⟩ := ih hd (by omega)
    exact ⟨depth + 1, hr.child (h.internal _ hd hl).isLeaf hmem⟩

theorem keys_bounds (h : TreeInv rank v g none) (hp : g.dom p) {key : κ}
    (hkey : key ∈ (v.node p).keys) : g.lo p ≤ at_ (rank key) ∧ at_ (rank key) < g.hi p := by
  unfold IndexNode.keys at hkey
  obtain ⟨item, hmem, rfl⟩ := List.mem_map.mp hkey
  by_cases hl : g.lvl p = 0
  · have hleaf := h.leaf p hp hl
    rw [if_pos hleaf.isLeaf] at hmem
    exact hleaf.bounds item hmem
  · rw [if_neg (by rw [(h.internal p hp hl).isLeaf]; simp)] at hmem
    obtain ⟨first, rest, hitems⟩ := List.exists_cons_of_ne_nil (h.internal p hp hl).ne_nil
    rw [hitems, List.drop_one, List.tail_cons] at hmem
    obtain ⟨js, ks, rfl⟩ := List.append_of_mem hmem
    obtain ⟨l, u, hc, hlo, hhi⟩ := h.child_of_mem hp hl
      (show item ∈ (v.node p).items by rw [hitems]; simp)
    have hsep := h.key_eq_lo hp hl
      (show (v.node p).items = (first :: js) ++ item :: ks by rw [hitems]; simp) (by simp)
    rw [← hc.lo, hsep] at hlo
    have hlt := (h.child_lt hc).trans_le hhi
    rw [← hc.lo, hsep] at hlt
    exact ⟨hlo, hlt⟩

theorem keys_sorted (h : TreeInv rank v g none) (hp : g.dom p) :
    (v.node p).keys.Pairwise fun a b => rank a < rank b := by
  unfold IndexNode.keys
  rw [List.pairwise_map]
  by_cases hl : g.lvl p = 0
  · rw [if_pos (h.leaf p hp hl).isLeaf]
    exact (h.leaf p hp hl).sorted
  · rw [if_neg (by rw [(h.internal p hp hl).isLeaf]; simp)]
    exact h.seps_sorted hp hl

/-- The leaves from one on, as the chain visits them. -/
theorem chain (h : TreeInv rank v g none) (hp : g.dom p) (hl : g.lvl p = 0) :
    ∃ ps, Chain v p ps ∧ (ps.Pairwise fun a b => g.hi a ≤ g.lo b) ∧
      ∀ q, q ∈ ps ↔ g.dom q ∧ g.lvl q = 0 ∧ g.lo p ≤ g.lo q := by
  classical
  -- the leaves still to come are pages of the file
  let later := fun p : PageNum =>
    (Finset.range v.fileHeader.pageCount).filter fun n : Nat =>
      g.dom (n : Int) ∧ g.lvl (n : Int) = 0 ∧ g.lo p < g.lo (n : Int)
  induction hn : (later p).card using Nat.strong_induction_on generalizing p with
  | _ n ih =>
    have hlt := h.lt p hp
    rcases h.next p hp hl with ⟨htop, hnext⟩ | ⟨hd, hln, hlo⟩
    · refine ⟨[p], .cons (h.ne_invalid hp) (hnext ▸ .nil), List.pairwise_singleton _ _, ?_⟩
      intro q
      rw [List.mem_singleton]
      constructor
      · rintro rfl
        exact ⟨hp, hl, le_rfl⟩
      · rintro ⟨hq, hlq, hle⟩
        have hqlt := h.lt q hq
        refine (h.eq_of_common hp hq (hl.trans hlq.symm) (x := g.lo q) ⟨hle, ?_⟩
          ⟨le_rfl, hqlt⟩).symm
        rw [htop]
        exact hqlt.trans_le le_top
    · have hsub : later (v.node p).nextBrother ⊂ later p := by
        refine Finset.ssubset_iff_of_subset ?_ |>.mpr ⟨(v.node p).nextBrother.toNat, ?_, ?_⟩
        · intro i hi
          simp only [later, Finset.mem_filter] at hi ⊢
          exact ⟨hi.1, hi.2.1, hi.2.2.1, by rw [hlo] at hi; exact hlt.trans hi.2.2.2⟩
        · have ha := (h.alloc _ hd).2.1
          simp only [later, Finset.mem_filter, Finset.mem_range, Int.toNat_of_nonneg ha.1]
          exact ⟨ha.2.1, hd, hln, by rw [hlo]; exact hlt⟩
        · have ha := (h.alloc _ hd).2.1
          simp only [later, Finset.mem_filter, Int.toNat_of_nonneg ha.1, lt_self_iff_false,
            and_false, not_false_eq_true]
      obtain ⟨ps, hc, hpw, hmem⟩ := ih _ (hn ▸ Finset.card_lt_card hsub) hd hln rfl
      refine ⟨p :: ps, .cons (h.ne_invalid hp) hc, List.pairwise_cons.mpr ⟨?_, hpw⟩, ?_⟩
      · intro q hq
        rw [← hlo]
        exact ((hmem q).mp hq).2.2
      · intro q
        rw [List.mem_cons, hmem, hlo]
        constructor
        · rintro (rfl | ⟨hq, hlq, hle⟩)
          · exact ⟨hp, hl, le_rfl⟩
          · exact ⟨hq, hlq, hlt.le.trans hle⟩
        · rintro ⟨hq, hlq, hle⟩
          by_cases hqp : q = p
          · exact Or.inl hqp
          · refine Or.inr ⟨hq, hlq, ?_⟩
            refine (h.apart p q hp hq (hl.trans hlq.symm) (Ne.symm hqp)).resolve_right fun hc => ?_
            exact absurd ((h.lt q hq).trans_le (hc.trans hle)) (lt_irrefl _)

theorem itemsOf_sorted (h : TreeInv rank v g none) {ps : List PageNum}
    (hleaf : ∀ q ∈ ps, g.dom q ∧ g.lvl q = 0) (hpw : ps.Pairwise fun a b => g.hi a ≤ g.lo b) :
    (v.itemsOf ps).Pairwise fun a b => rank a.key < rank b.key := by
  unfold Pages.itemsOf
  rw [List.pairwise_flatMap]
  refine ⟨fun q hq => (h.leaf q (hleaf q hq).1 (hleaf q hq).2).sorted, ?_⟩
  refine hpw.imp_of_mem fun {a b} ha hb hab x hx y hy => at_lt_at.mp ?_
  have hxb := (h.leaf a (hleaf a ha).1 (hleaf a ha).2).bounds x hx
  have hyb := (h.leaf b (hleaf b hb).1 (hleaf b hb).2).bounds y hy
  exact hxb.2.trans_le (hab.trans hyb.1)

theorem leftEdge (h : TreeInv rank v g none) (hroot : g.dom v.rootPage) :
    ∃ first, LeftEdge v first ∧ g.dom first ∧ g.lvl first = 0 ∧ g.lo first = ⊥ := by
  suffices hgen : ∀ n p, g.lvl p = n → LeftEdge v p → g.dom p → g.lo p = ⊥ →
      ∃ first, LeftEdge v first ∧ g.dom first ∧ g.lvl first = 0 ∧ g.lo first = ⊥ from
    hgen _ _ rfl (.root (h.ne_invalid hroot)) hroot (h.root_bounds hroot).1
  intro n
  induction n with
  | zero => exact fun p hl he hp hlo => ⟨p, he, hp, hl, hlo⟩
  | succ n ih =>
    intro p hl he hp hlo
    have hnode := h.internal p hp (by omega)
    obtain ⟨first, rest, hitems⟩ := List.exists_cons_of_ne_nil hnode.ne_nil
    have hcov := hnode.cover
    rw [hitems] at hcov
    obtain ⟨m, hc, -⟩ := hcov
    have hlvl := hc.lvl
    exact ih first.child (by omega) (he.child hnode.isLeaf (by rw [hitems]; rfl)) hc.dom
      (hc.lo.trans hlo)

end TreeInv

theorem TreeInv.leafChain (hcmp : RankedBy cmp rank) (h : TreeInv rank v g none)
    (hroot : g.dom v.rootPage) : ∃ first leaves, LeafChain cmp v first leaves := by
  obtain ⟨first, hedge, hd, hl, hlo⟩ := h.leftEdge hroot
  obtain ⟨ps, hc, hpw, hmem⟩ := h.chain hd hl
  have hleaf : ∀ q ∈ ps, g.dom q ∧ g.lvl q = 0 := fun q hq =>
    ⟨((hmem q).mp hq).1, ((hmem q).mp hq).2.1⟩
  refine ⟨first, ps, ⟨hedge, (h.isLeaf_iff hd).mpr hl⟩, hc, ?_, ?_, ?_⟩
  · refine hpw.imp_of_mem fun {a b} ha _ hab heq => ?_
    subst heq
    exact absurd (h.lt a (hleaf a ha).1) (not_lt.mpr hab)
  · intro q
    rw [hmem, hlo]
    constructor
    · rintro ⟨hq, hlq, -⟩
      exact ⟨h.reach_of_dom hq, (h.isLeaf_iff hq).mpr hlq⟩
    · rintro ⟨⟨_, hr⟩, hlq⟩
      have hq := (h.dom_of_reach hr).1
      exact ⟨hq, (h.isLeaf_iff hq).mp hlq, bot_le⟩
  · simpa only [hcmp.neg_iff] using h.itemsOf_sorted hleaf hpw

/-- A tree with a layout whose root is not too small is valid. -/
theorem TreeInv.validTree (hcmp : RankedBy cmp rank) (h : TreeInv rank v g none)
    (hroot : g.dom v.rootPage → g.lvl v.rootPage ≠ 0 → 2 ≤ (v.node v.rootPage).items.length) :
    ValidTree cmp v where
  sorted p depth hr := by
    simpa only [hcmp.neg_iff] using h.keys_sorted (h.dom_of_reach hr).1
  between := by
    intro p depth hr hleaf js item ks hitems key hkey
    have hp := (h.dom_of_reach hr).1
    have hl := h.lvl_ne_zero hp hleaf
    obtain ⟨l, u, hc, -⟩ := h.child_of_mem hp hl (show item ∈ (v.node p).items by simp [hitems])
    obtain ⟨hlo, hhi⟩ := h.keys_bounds hc.dom hkey
    constructor
    · intro hne
      rw [h.key_eq_lo hp hl hitems hne] at hlo
      exact (hcmp.nonpos_iff _ _).mpr (at_le_at.mp hlo)
    · intro next hnext
      have := (h.seps_around hp hl hitems).2 next (List.mem_of_mem_head? hnext)
      exact (hcmp.neg_iff _ _).mpr (at_lt_at.mp (hhi.trans_le this))
  parent p depth hr hleaf item hmem :=
    h.parent_of_child (h.dom_of_reach hr).1 hleaf (List.mem_map_of_mem hmem)
  sameDepth := by
    intro p q depth depth' hr hr' hp hq
    obtain ⟨hd, hl⟩ := h.dom_of_reach hr
    obtain ⟨hd', hl'⟩ := h.dom_of_reach hr'
    rw [(h.isLeaf_iff hd).mp hp] at hl
    rw [(h.isLeaf_iff hd').mp hq] at hl'
    omega
  leafChain hne := h.leafChain hcmp (h.root.elim (fun hc => absurd hc.1 hne) fun hc => hc.1)
  rootChildren hne hleaf := by
    have hd := h.root.elim (fun hc => absurd hc.1 hne) fun hc => hc.1
    exact hroot hd (h.lvl_ne_zero hd hleaf)

/-! ## Walking the leaves -/

section Walk

variable {E : Fault → Mtr κ → Prop} {s₀ : Mtr κ} {ps : List PageNum}

/-- Pages of the file that differ from each other are no more than the file has pages. -/
theorem length_le_pageCount (hin : ∀ q ∈ ps, v.InFile q) (hnodup : ps.Nodup) :
    ps.length ≤ v.fileHeader.pageCount := by
  have hinj : (ps.map Int.toNat).Nodup := hnodup.map_on fun a ha b hb hab => by
    rw [← Int.toNat_of_nonneg (hin a ha).1, ← Int.toNat_of_nonneg (hin b hb).1, hab]
  have hsub : (ps.map Int.toNat).toFinset ⊆ Finset.range v.fileHeader.pageCount := by
    intro n hn
    simp only [List.mem_toFinset, List.mem_map] at hn
    obtain ⟨q, hq, rfl⟩ := hn
    exact Finset.mem_range.mpr (hin q hq).2
  have hcard := Finset.card_le_card hsub
  rwa [List.toFinset_card_of_nodup hinj, List.length_map, Finset.card_range] at hcard

theorem printLeafsFrom_spec (hs₀ : At v s₀) (hc : Chain v p ps) (hp : p ≠ bpInvalidPageNum)
    (hin : ∀ q ∈ ps, v.InFile q) {fuel : Nat} (hfuel : ps.length ≤ fuel) :
    Triple (· = s₀) (printLeafsFrom fuel p) (fun items s => items = v.itemsOf ps ∧ s = s₀) E := by
  induction hc generalizing fuel with
  | nil => exact absurd rfl hp
  | @cons p ps hne hc ih =>
    obtain ⟨fuel, rfl⟩ : ∃ n, fuel = n + 1 := ⟨fuel - 1, by simp at hfuel; omega⟩
    refine readNode_of (v := v) (fun s hs => hs ▸ hs₀.1) <| Triple.ite (fun hnext => ?_)
      fun hnext => ?_
    · exact Triple.pure fun s hs => ⟨by simp [Pages.itemsOf, hc.eq_nil hnext], hs⟩
    · have hnextIn := hin _ (List.mem_cons_of_mem _ (hc.head_mem hnext))
      refine (getPage_of (fun s hs => hs ▸ hs₀) hnextIn).bind fun _ => ?_
      refine (ih hnext (fun q hq => hin q (List.mem_cons_of_mem _ hq))
        (by simpa using hfuel)).bind fun items => Triple.of_and fun hitems => ?_
      exact Triple.pure fun s hs => ⟨by simp [Pages.itemsOf, hitems], hs⟩

/-- Walking the leaf chain gives the entries of the index in order. -/
theorem printLeafs_spec (h : TreeInv rank v g none) (hs₀ : At v s₀) :
    Triple (· = s₀) printLeafs
      (fun items s => (items.Pairwise (fun a b => rank a.key < rank b.key) ∧
        ∀ item, item ∈ items ↔ Entry v g item) ∧ s = s₀) E := by
  refine readRootPage_of (fun s hs => hs ▸ hs₀.1) <| Triple.ite (fun hroot => ?_) fun hroot => ?_
  · refine Triple.pure fun s hs => ⟨⟨List.Pairwise.nil, fun item => ?_⟩, hs⟩
    refine iff_of_false List.not_mem_nil ?_
    rintro ⟨q, hq, -, -⟩
    exact h.ne_invalid (h.dom_root hq) hroot
  · have hd := h.root.elim (fun hc => absurd hc.1 hroot) fun hc => hc.1
    refine (leftMostPage_spec h hs₀ hd).bind fun first => Triple.of_and ?_
    rintro ⟨hfirst, hl, hlo⟩
    obtain ⟨ps, hc, hpw, hmem⟩ := h.chain hfirst hl
    have hleaf : ∀ q ∈ ps, g.dom q ∧ g.lvl q = 0 := fun q hq =>
      ⟨((hmem q).mp hq).1, ((hmem q).mp hq).2.1⟩
    have hin : ∀ q ∈ ps, v.InFile q := fun q hq => h.inFile (hleaf q hq).1
    have hnodup : ps.Nodup := hpw.imp_of_mem fun {a b} ha _ hab heq => by
      subst heq
      exact absurd (h.lt a (hleaf a ha).1) (not_lt.mpr hab)
    refine Triple.bind (Q := fun n s => n = v.fileHeader.pageCount + 1 ∧ s = s₀) ?_ fun n => ?_
    · exact get_of fun s hs => Triple.pure fun t ht => ⟨by rw [hs, hs₀.1], ht⟩
    refine Triple.of_and fun hn => ?_
    have hlen := length_le_pageCount hin hnodup
    refine (printLeafsFrom_spec hs₀ hc (h.ne_invalid hfirst) hin (by omega)).post ?_
    rintro items s ⟨rfl, hs⟩
    refine ⟨⟨h.itemsOf_sorted hleaf hpw, fun item => ?_⟩, hs⟩
    simp only [Pages.itemsOf, List.mem_flatMap, hmem]
    constructor
    · rintro ⟨q, ⟨hq, hlq, -⟩, hitem⟩
      exact ⟨q, hq, hlq, hitem⟩
    · rintro ⟨q, hq, hlq, hitem⟩
      exact ⟨q, ⟨hq, hlq, hlo ▸ bot_le⟩, hitem⟩

end Walk

end ObHtap
