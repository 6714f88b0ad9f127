import ObHtap.Bplus.Search
import ObHtap.Bplus.NodeSpec
import ObHtap.Bplus.Handler
import Mathlib.Data.Finset.Card
import Mathlib.Data.Finset.Range

/-!
# The descent to a leaf

A tree has fewer levels than its file has pages, so the descent ends; and it ends in the leaf
whose interval contains the key sought.
-/

namespace ObHtap

open ObHtap.Bound

variable {κ ρ : Type} [LinearOrder ρ] {rank : κ → ρ} {v : Pages κ} {g : Layout ρ}
  {hole : Option (PageNum × PageNum)}

namespace TreeInv

theorem exists_at_lvl (h : TreeInv rank v g hole) (hroot : g.dom v.rootPage) {n : Nat}
    (hn : n ≤ g.lvl v.rootPage) : ∃ p, g.dom p ∧ g.lvl p = n := by
  induction hk : g.lvl v.rootPage - n generalizing n with
  | zero => exact ⟨_, hroot, by omega⟩
  | succ k ih =>
    obtain ⟨p, hp, hl⟩ := ih (n := n + 1) (by omega) (by omega)
    obtain ⟨item, hmem⟩ := List.exists_mem_of_ne_nil _ (h.internal p hp (by omega)).ne_nil
    obtain ⟨l, u, hc, -⟩ := h.child_of_mem hp (by omega) hmem
    exact ⟨item.child, hc.dom, by have := hc.lvl; omega⟩

theorem lvl_root_lt (h : TreeInv rank v g hole) (hroot : g.dom v.rootPage) :
    g.lvl v.rootPage < v.fileHeader.pageCount := by
  choose! page hdom hlvl using fun n (hn : n ≤ g.lvl v.rootPage) => h.exists_at_lvl hroot hn
  have hmaps : ∀ n ∈ Finset.range (g.lvl v.rootPage + 1),
      (page n).toNat ∈ Finset.range v.fileHeader.pageCount := by
    intro n hn
    have hn' : n ≤ g.lvl v.rootPage := by simpa [Nat.lt_succ_iff] using hn
    exact Finset.mem_range.mpr (h.alloc _ (hdom n hn')).2.1.2.1
  have hinj : Set.InjOn (fun n => (page n).toNat) (Finset.range (g.lvl v.rootPage + 1)) := by
    intro n hn m hm hnm
    have hn' : n ≤ g.lvl v.rootPage := by simpa [Nat.lt_succ_iff] using hn
    have hm' : m ≤ g.lvl v.rootPage := by simpa [Nat.lt_succ_iff] using hm
    have h1 := (h.alloc _ (hdom n hn')).2.1.1
    have h2 := (h.alloc _ (hdom m hm')).2.1.1
    have hpage : page n = page m := by
      rw [← Int.toNat_of_nonneg h1, ← Int.toNat_of_nonneg h2]
      exact congrArg Int.ofNat hnm
    rw [← hlvl n hn', ← hlvl m hm', hpage]
  have hcard : (Finset.range (g.lvl v.rootPage + 1)).card ≤
      (Finset.range v.fileHeader.pageCount).card :=
    Finset.card_le_card_of_injOn (fun n => (page n).toNat) hmaps hinj
  rw [Finset.card_range, Finset.card_range] at hcard
  exact hcard

theorem inFile (h : TreeInv rank v g hole) {p : PageNum} (hp : g.dom p) : v.InFile p :=
  (h.alloc p hp).2.1.inFile

theorem exists_child (h : TreeInv rank v g hole) {p : PageNum} (hp : g.dom p) (hl : g.lvl p ≠ 0)
    {x : Bound ρ} (hlo : g.lo p ≤ x) (hhi : x < g.hi p) :
    ∃ js it ks, (v.node p).items = js ++ it :: ks ∧ g.dom it.child ∧
      g.lvl it.child + 1 = g.lvl p ∧ g.lo it.child ≤ x ∧ x < g.cov hole it.child := by
  obtain ⟨js, it, ks, l, u, hitems, -, hc, -, hlx, hxu⟩ := (h.internal p hp hl).cover.route hlo hhi
  exact ⟨js, it, ks, hitems, hc.dom, hc.lvl, hc.lo ▸ hlx, hc.cov ▸ hxu⟩

end TreeInv

namespace BplusTreeHandler

variable {tree : BplusTreeHandler κ} {E : Fault → Mtr κ → Prop} {s₀ : Mtr κ}

/-- A descent ends in a leaf of the tree and changes nothing.  `I` is what the choice of the
child keeps true. -/
theorem findLeafFrom_spec (h : TreeInv rank v g none) (hs₀ : At v s₀)
    {childPageGetter : IndexNode κ → Nat} {I : PageNum → Prop}
    (hchoice : ∀ p, g.dom p → g.lvl p ≠ 0 → I p → ∃ item,
      (v.node p).items[childPageGetter (v.node p)]? = some item ∧ I item.child)
    (fuel : Nat) {p : PageNum} (hp : g.dom p) (hI : I p) (hfuel : g.lvl p < fuel) :
    Triple (· = s₀) (findLeafFrom childPageGetter fuel p)
      (fun q s => (g.dom q ∧ g.lvl q = 0 ∧ I q) ∧ s = s₀) E := by
  have hpages : ∀ s, s = s₀ → s.pages = v := fun s hs => hs ▸ hs₀.1
  induction fuel generalizing p with
  | zero => omega
  | succ fuel ih =>
    refine readNode_of hpages ?_
    by_cases hl : g.lvl p = 0
    · rw [if_pos (h.leaf p hp hl).isLeaf]
      exact Triple.pure fun s hs => ⟨⟨hp, hl, hI⟩, hs⟩
    · rw [if_neg (by rw [(h.internal p hp hl).isLeaf]; simp)]
      obtain ⟨item, hitem, hI'⟩ := hchoice p hp hl hI
      obtain ⟨l, u, hc, -⟩ := h.child_of_mem hp hl (List.mem_of_getElem? hitem)
      refine valueAt_of hpages hitem ?_
      refine (getPage_of (fun s hs => hs ▸ hs₀) (h.inFile hc.dom)).bind fun _ => ?_
      exact ih hc.dom hI' (by have := hc.lvl; omega)

theorem findLeafInternal_spec (h : TreeInv rank v g none) (hs₀ : At v s₀)
    (hroot : g.dom v.rootPage) {childPageGetter : IndexNode κ → Nat} {I : PageNum → Prop}
    (hchoice : ∀ p, g.dom p → g.lvl p ≠ 0 → I p → ∃ item,
      (v.node p).items[childPageGetter (v.node p)]? = some item ∧ I item.child)
    (hI : I v.rootPage) :
    Triple (· = s₀) (findLeafInternal childPageGetter)
      (fun q s => (g.dom q ∧ g.lvl q = 0 ∧ I q) ∧ s = s₀) E := by
  refine readRootPage_of (fun s hs => hs ▸ hs₀.1) ?_
  rw [if_neg (h.ne_invalid hroot)]
  refine (getPage_of (fun s hs => hs ▸ hs₀) (h.inFile hroot)).bind fun _ => ?_
  refine Triple.bind (Q := fun n s => n = v.fileHeader.pageCount + 1 ∧ s = s₀) ?_ fun n => ?_
  · exact get_of fun s hs => Triple.pure fun t ht => ⟨by rw [hs, hs₀.1], ht⟩
  · refine Triple.of_and fun hn => ?_
    exact findLeafFrom_spec h hs₀ hchoice n hroot hI (by have := h.lvl_root_lt hroot; omega)

theorem exists_lookup_child (hcmp : RankedBy tree.keyComparator rank)
    (h : TreeInv rank v g none) (key : κ) {p : PageNum} (hp : g.dom p) (hl : g.lvl p ≠ 0)
    (hbounds : g.lo p ≤ at_ (rank key) ∧ at_ (rank key) < g.hi p) :
    ∃ item, (v.node p).items[(InternalIndexNodeHandler.lookup tree.keyComparator (v.node p)
        key).1]? = some item ∧
      g.lo item.child ≤ at_ (rank key) ∧ at_ (rank key) < g.hi item.child := by
  obtain ⟨js, it, ks, hitems, -, -, hlo', hhi'⟩ := h.exists_child hp hl hbounds.1 hbounds.2
  refine ⟨it, ?_, hlo', hhi'⟩
  rw [InternalIndexNodeHandler.lookup_eq hcmp h hp hl hitems hlo' hhi', hitems]
  simp

/-- The first child of a node with nothing to its left has nothing to its left either. -/
theorem exists_first_child (h : TreeInv rank v g none) {p : PageNum} (hp : g.dom p)
    (hl : g.lvl p ≠ 0) (hlo : g.lo p = ⊥) :
    ∃ item, (v.node p).items[0]? = some item ∧ g.lo item.child = ⊥ := by
  have hnode := h.internal p hp hl
  obtain ⟨first, rest, hitems⟩ := List.exists_cons_of_ne_nil hnode.ne_nil
  have hcov := hnode.cover
  rw [hitems] at hcov
  obtain ⟨m, hc, -⟩ := hcov
  exact ⟨first, by rw [hitems]; rfl, hc.lo.trans hlo⟩

theorem root_contains (h : TreeInv rank v g none) (hroot : g.dom v.rootPage) (key : κ) :
    g.lo v.rootPage ≤ at_ (rank key) ∧ at_ (rank key) < g.hi v.rootPage := by
  obtain ⟨hlo, hhi, -⟩ := h.root_bounds hroot
  rw [Layout.cov_none] at hhi
  rw [hlo, hhi]
  simp

/-- `find_leaf` ends in the leaf whose interval contains the key. -/
theorem findLeaf_spec (hcmp : RankedBy tree.keyComparator rank) (h : TreeInv rank v g none)
    (hs₀ : At v s₀) (hroot : g.dom v.rootPage) (key : κ) :
    Triple (· = s₀) (findLeaf tree key)
      (fun q s => (g.dom q ∧ g.lvl q = 0 ∧ g.lo q ≤ at_ (rank key) ∧ at_ (rank key) < g.hi q) ∧
        s = s₀) E :=
  findLeafInternal_spec h hs₀ hroot (fun _ hp hl => exists_lookup_child hcmp h key hp hl)
    (root_contains h hroot key)

theorem leftMostPage_spec (h : TreeInv rank v g none) (hs₀ : At v s₀)
    (hroot : g.dom v.rootPage) :
    Triple (· = s₀) leftMostPage
      (fun q s => (g.dom q ∧ g.lvl q = 0 ∧ g.lo q = ⊥) ∧ s = s₀) E :=
  findLeafInternal_spec h hs₀ hroot (fun _ hp hl => exists_first_child h hp hl)
    (h.root_bounds hroot).1

end BplusTreeHandler

end ObHtap
