import ObHtap.Bplus.MiniTransaction
import ObHtap.Library.Cover

/-!
# The structure of the tree

A layout assigns to every page of the tree its level and the half-open interval of key ranks
it is responsible for.  The invariant says that the pages agree with some layout: the children
of an internal node cover its interval from left to right, each from its separator on, and the
leaves follow one another in the same way.

While an insertion climbs the tree, a page `l` may have been split into `l` and `r` with `r`
not yet known to the parent.  This is the hole `some (l, r)`: the item of `l` in the parent
still stands for the intervals of both.
-/

namespace ObHtap

open ObHtap.Bound

/-- The pages of a tree, their levels above the leaves and their intervals. -/
structure Layout (ρ : Type) where
  dom : PageNum → Prop
  lvl : PageNum → Nat
  lo : PageNum → Bound ρ
  hi : PageNum → Bound ρ

namespace Layout

variable {ρ : Type}

/-- Where the interval ends that the item of the page in its parent stands for. -/
def cov (g : Layout ρ) : Option (PageNum × PageNum) → PageNum → Bound ρ
  | none, p => g.hi p
  | some (l, r), p => if p = l then g.hi r else g.hi p

@[simp] theorem cov_none (g : Layout ρ) (p : PageNum) : g.cov none p = g.hi p := rfl

@[simp] theorem cov_some_self (g : Layout ρ) (l r : PageNum) : g.cov (some (l, r)) l = g.hi r := by
  simp [cov]

theorem cov_some_of_ne (g : Layout ρ) {l r p : PageNum} (h : p ≠ l) :
    g.cov (some (l, r)) p = g.hi p := by
  simp [cov, h]

end Layout

variable {κ ρ : Type} [LinearOrder ρ] {rank : κ → ρ} {v v' : Pages κ} {g : Layout ρ}
  {hole : Option (PageNum × PageNum)}

/-- An item of the internal node `p` stands for the interval from `l` to `u`: its child has
this interval and names `p` as its parent, and its key is the separator `l`, unless nothing
lies to the left of it. -/
structure Child (rank : κ → ρ) (v : Pages κ) (g : Layout ρ) (hole : Option (PageNum × PageNum))
    (p : PageNum) (item : Item κ) (l u : Bound ρ) : Prop where
  dom : g.dom item.child
  parent : (v.node item.child).parent = p
  lvl : g.lvl item.child + 1 = g.lvl p
  lo : g.lo item.child = l
  cov : g.cov hole item.child = u
  key : l = ⊥ ∨ l = at_ (rank item.key)

/-- The items of a leaf are in strictly increasing order, inside the interval of the leaf. -/
structure LeafNode (rank : κ → ρ) (node : IndexNode κ) (lo hi : Bound ρ) : Prop where
  isLeaf : node.isLeaf = true
  sorted : node.items.Pairwise fun a b => rank a.key < rank b.key
  bounds : ∀ item ∈ node.items, lo ≤ at_ (rank item.key) ∧ at_ (rank item.key) < hi

/-- The items of an internal node cover its interval. -/
structure InternalNode (rank : κ → ρ) (v : Pages κ) (g : Layout ρ)
    (hole : Option (PageNum × PageNum)) (p : PageNum) : Prop where
  isLeaf : (v.node p).isLeaf = false
  ne_nil : (v.node p).items ≠ []
  cover : Cover (Child rank v g hole p) (g.lo p) (v.node p).items (g.hi p)

/-- The pages agree with the layout. -/
structure TreeInv (rank : κ → ρ) (v : Pages κ) (g : Layout ρ)
    (hole : Option (PageNum × PageNum)) : Prop where
  headers : v.Allocated 0 ∧ v.Allocated firstIndexPage
  alloc : ∀ p, g.dom p → 2 ≤ p ∧ v.Allocated p ∧ p ∉ v.disposedPages
  disposed : ∀ p ∈ v.disposedPages, 2 ≤ p
  lt : ∀ p, g.dom p → g.lo p < g.hi p
  apart : ∀ p q, g.dom p → g.dom q → g.lvl p = g.lvl q → p ≠ q → g.hi p ≤ g.lo q ∨ g.hi q ≤ g.lo p
  leaf : ∀ p, g.dom p → g.lvl p = 0 → LeafNode rank (v.node p) (g.lo p) (g.hi p)
  internal : ∀ p, g.dom p → g.lvl p ≠ 0 → InternalNode rank v g hole p
  next : ∀ p, g.dom p → g.lvl p = 0 →
    (g.hi p = ⊤ ∧ (v.node p).nextBrother = bpInvalidPageNum) ∨
      (g.dom (v.node p).nextBrother ∧ g.lvl (v.node p).nextBrother = 0 ∧
        g.lo (v.node p).nextBrother = g.hi p)
  up : ∀ p, g.dom p → p ≠ v.rootPage → (∀ l, hole ≠ some (l, p)) →
    g.dom (v.node p).parent ∧ g.lvl (v.node p).parent ≠ 0 ∧
      ∃ item ∈ (v.node (v.node p).parent).items, item.child = p
  lvl_le : ∀ p, g.dom p → g.lvl p ≤ g.lvl v.rootPage
  root : (v.rootPage = bpInvalidPageNum ∧ ∀ p, ¬ g.dom p) ∨
    (g.dom v.rootPage ∧ g.lo v.rootPage = ⊥ ∧ g.cov hole v.rootPage = ⊤ ∧
      (v.node v.rootPage).parent = bpInvalidPageNum)
  split : ∀ l r, hole = some (l, r) →
    g.dom l ∧ g.dom r ∧ l ≠ r ∧ g.lvl l = g.lvl r ∧ g.hi l = g.lo r

/-- The index holds the item: it is in some leaf. -/
def Entry (v : Pages κ) (g : Layout ρ) (item : Item κ) : Prop :=
  ∃ p, g.dom p ∧ g.lvl p = 0 ∧ item ∈ (v.node p).items

namespace TreeInv

theorem nonneg (h : TreeInv rank v g hole) {p : PageNum} (hp : g.dom p) : 2 ≤ p :=
  (h.alloc p hp).1

theorem ne_invalid (h : TreeInv rank v g hole) {p : PageNum} (hp : g.dom p) :
    p ≠ bpInvalidPageNum := by
  rintro rfl
  exact absurd (h.nonneg hp) (by decide)

theorem dom_root (h : TreeInv rank v g hole) {p : PageNum} (hp : g.dom p) : g.dom v.rootPage :=
  h.root.elim (fun hr => absurd hp (hr.2 p)) fun hr => hr.1

theorem root_bounds (h : TreeInv rank v g hole) (hr : g.dom v.rootPage) :
    g.lo v.rootPage = ⊥ ∧ g.cov hole v.rootPage = ⊤ ∧
      (v.node v.rootPage).parent = bpInvalidPageNum :=
  h.root.elim (fun hn => absurd hr (hn.2 _)) fun hn => hn.2

/-- Every interval ends no later than the item of the page in its parent says. -/
theorem hi_le_cov (h : TreeInv rank v g hole) (p : PageNum) : g.hi p ≤ g.cov hole p := by
  rcases hole with _ | ⟨l, r⟩
  · simp
  · obtain ⟨-, hr, -, -, hlr⟩ := h.split l r rfl
    by_cases hp : p = l
    · subst hp
      rw [Layout.cov_some_self, hlr]
      exact (h.lt r hr).le
    · rw [Layout.cov_some_of_ne g hp]

theorem child_lt (h : TreeInv rank v g hole) {p : PageNum} {item : Item κ} {l u : Bound ρ}
    (hc : Child rank v g hole p item l u) : l < u := by
  rw [← hc.lo, ← hc.cov]
  exact (h.lt _ hc.dom).trans_le (h.hi_le_cov _)

/-- A page that is not the root, nor missing from its parent, is a child of its parent. -/
theorem child_of_parent (h : TreeInv rank v g hole) {p : PageNum} (hp : g.dom p)
    (hroot : p ≠ v.rootPage) (horphan : ∀ l, hole ≠ some (l, p)) :
    ∃ js item ks, (v.node (v.node p).parent).items = js ++ item :: ks ∧ item.child = p ∧
      g.dom (v.node p).parent ∧ g.lvl p + 1 = g.lvl (v.node p).parent := by
  obtain ⟨hd, hl, item, hmem, rfl⟩ := h.up p hp hroot horphan
  obtain ⟨l, u, hc⟩ := (h.internal _ hd hl).cover.exists_of_mem hmem
  obtain ⟨js, ks, hitems⟩ := List.append_of_mem hmem
  exact ⟨js, item, ks, hitems, rfl, hd, hc.lvl⟩

theorem child_of_mem (h : TreeInv rank v g hole) {p : PageNum} (hp : g.dom p)
    (hl : g.lvl p ≠ 0) {item : Item κ} (hmem : item ∈ (v.node p).items) :
    ∃ l u, Child rank v g hole p item l u ∧ g.lo p ≤ l ∧ u ≤ g.hi p :=
  (h.internal p hp hl).cover.mem_bounds (fun _ _ _ => h.child_lt) hmem

theorem lvl_ne_zero (h : TreeInv rank v g hole) {p : PageNum} (hp : g.dom p)
    (hl : (v.node p).isLeaf = false) : g.lvl p ≠ 0 := by
  intro h0
  rw [(h.leaf p hp h0).isLeaf] at hl
  exact absurd hl (by simp)

theorem isLeaf_iff (h : TreeInv rank v g hole) {p : PageNum} (hp : g.dom p) :
    (v.node p).isLeaf = true ↔ g.lvl p = 0 := by
  constructor
  · intro hl
    by_contra h0
    rw [(h.internal p hp h0).isLeaf] at hl
    exact absurd hl (by simp)
  · exact fun h0 => (h.leaf p hp h0).isLeaf

theorem parent_of_child (h : TreeInv rank v g hole) {p x : PageNum} (hp : g.dom p)
    (hl : (v.node p).isLeaf = false) (hx : x ∈ (v.node p).items.map Item.child) :
    (v.node x).parent = p := by
  obtain ⟨item, hmem, rfl⟩ := List.mem_map.mp hx
  obtain ⟨l, u, hc, -⟩ := h.child_of_mem hp (h.lvl_ne_zero hp hl) hmem
  exact hc.parent

theorem parent_eq_invalid_iff (h : TreeInv rank v g hole) {p : PageNum} (hp : g.dom p)
    (horphan : ∀ l, hole ≠ some (l, p)) :
    (v.node p).parent = bpInvalidPageNum ↔ p = v.rootPage := by
  constructor
  · intro hpar
    by_contra hne
    have := (h.up p hp hne horphan).1
    rw [hpar] at this
    exact h.ne_invalid this rfl
  · rintro rfl
    exact (h.root_bounds hp).2.2

theorem eq_of_common (h : TreeInv rank v g hole) {p q : PageNum} (hp : g.dom p) (hq : g.dom q)
    (hl : g.lvl p = g.lvl q) {x : Bound ρ} (hpx : g.lo p ≤ x ∧ x < g.hi p)
    (hqx : g.lo q ≤ x ∧ x < g.hi q) : p = q := by
  by_contra hne
  rcases h.apart p q hp hq hl hne with hpq | hqp
  · exact absurd (hpx.2.trans_le (hpq.trans hqx.1)) (lt_irrefl x)
  · exact absurd (hqx.2.trans_le (hqp.trans hpx.1)) (lt_irrefl x)

/-- On its level the root is alone, but for the page split off from it. -/
theorem eq_root_of_lvl (h : TreeInv rank v g hole) {p : PageNum} (hp : g.dom p)
    (hl : g.lvl p = g.lvl v.rootPage) : p = v.rootPage ∨ hole = some (v.rootPage, p) := by
  have hr := h.dom_root hp
  obtain ⟨hlo, hcov, -⟩ := h.root_bounds hr
  by_contra! hne
  have hlt := h.lt p hp
  rcases h.apart p v.rootPage hp hr hl hne.1 with hpr | hrp
  · rw [hlo] at hpr
    exact absurd (hlt.trans_le hpr) (not_lt.mpr bot_le)
  · -- the root ends where `p` begins, so it has been split, and `p` is not the new half
    rcases hole with _ | ⟨l, r⟩
    · rw [Layout.cov_none] at hcov
      rw [hcov] at hrp
      exact absurd (hlt.trans_le le_top) (not_lt.mpr hrp)
    · obtain ⟨hdl, hdr, -, hlr, hsplit⟩ := h.split l r rfl
      by_cases hrl : v.rootPage = l
      · have hrp' : p ≠ r := fun hc => hne.2 (by rw [hrl, hc])
        rw [hrl, Layout.cov_some_self] at hcov
        rcases h.apart p r hp hdr (by rw [hl, hrl, hlr]) hrp' with h1 | h1
        · rw [← hsplit, ← hrl] at h1
          exact absurd (hlt.trans_le (h1.trans hrp)) (lt_irrefl _)
        · rw [hcov] at h1
          exact absurd (hlt.trans_le le_top) (not_lt.mpr h1)
      · rw [Layout.cov_some_of_ne g hrl] at hcov
        rw [hcov] at hrp
        exact absurd (hlt.trans_le le_top) (not_lt.mpr hrp)

end TreeInv

end ObHtap
