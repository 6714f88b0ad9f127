import Mathlib.Order.Lattice
import Mathlib.Data.List.Basic

/-!
# Chains of adjacent intervals

`Cover C a is b` says that the items `is` cover the half-open interval `[a, b)` from left to
right: there are cut points `a = c₀, c₁, …, cₙ = b` with `C iₖ cₖ cₖ₊₁` for every item.  The
children of a search-tree node and the leaves of a level are such chains.
-/

namespace ObHtap

variable {ι β : Type*}

/-- The items cover `[a, b)` one after the other, item by item as `C` allows. -/
def Cover (C : ι → β → β → Prop) : β → List ι → β → Prop
  | a, [], b => a = b
  | a, i :: is, b => ∃ m, C i a m ∧ Cover C m is b

namespace Cover

variable {C C' : ι → β → β → Prop}

@[simp] theorem nil_iff {a b : β} : Cover C a [] b ↔ a = b := Iff.rfl

theorem cons_iff {a b : β} {i : ι} {is : List ι} :
    Cover C a (i :: is) b ↔ ∃ m, C i a m ∧ Cover C m is b := Iff.rfl

@[simp] theorem singleton_iff {a b : β} {i : ι} : Cover C a [i] b ↔ C i a b := by
  simp [cons_iff]

theorem append_iff {a b : β} {is js : List ι} :
    Cover C a (is ++ js) b ↔ ∃ m, Cover C a is m ∧ Cover C m js b := by
  induction is generalizing a with
  | nil => simp
  | cons i is ih =>
    simp only [List.cons_append, cons_iff, ih]
    constructor
    · rintro ⟨m, hi, n, his, hjs⟩
      exact ⟨n, ⟨m, hi, his⟩, hjs⟩
    · rintro ⟨n, ⟨m, hi, his⟩, hjs⟩
      exact ⟨m, hi, n, his, hjs⟩

/-- A chain around one item, cut on both sides of it. -/
theorem middle_iff {a b : β} {is js : List ι} {i : ι} :
    Cover C a (is ++ i :: js) b ↔ ∃ l h, Cover C a is l ∧ C i l h ∧ Cover C h js b := by
  rw [append_iff]
  simp only [cons_iff]
  constructor
  · rintro ⟨l, his, h, hi, hjs⟩
    exact ⟨l, h, his, hi, hjs⟩
  · rintro ⟨l, h, his, hi, hjs⟩
    exact ⟨l, his, h, hi, hjs⟩

/-- A chain depends on the relation only at its own items. -/
theorem mono {a b : β} {is : List ι} (h : Cover C a is b)
    (hC : ∀ i ∈ is, ∀ l u, C i l u → C' i l u) : Cover C' a is b := by
  induction is generalizing a with
  | nil => exact h
  | cons i is ih =>
    obtain ⟨m, hi, his⟩ := h
    exact ⟨m, hC i (by simp) _ _ hi, ih his fun j hj => hC j (by simp [hj])⟩

theorem exists_of_mem {a b : β} {is : List ι} (h : Cover C a is b) {i : ι} (hi : i ∈ is) :
    ∃ l u, C i l u := by
  obtain ⟨js, ks, rfl⟩ := List.append_of_mem hi
  obtain ⟨l, u, -, hC, -⟩ := middle_iff.mp h
  exact ⟨l, u, hC⟩

section Order

variable [Preorder β] (hlt : ∀ i l u, C i l u → l < u)

include hlt

theorem le {a b : β} {is : List ι} (h : Cover C a is b) : a ≤ b := by
  induction is generalizing a with
  | nil => exact le_of_eq h
  | cons i is ih =>
    obtain ⟨m, hi, his⟩ := h
    exact (hlt _ _ _ hi).le.trans (ih his)

theorem lt {a b : β} {is : List ι} (h : Cover C a is b) (hne : is ≠ []) : a < b := by
  cases is with
  | nil => exact absurd rfl hne
  | cons i is =>
    obtain ⟨m, hi, his⟩ := h
    exact (hlt _ _ _ hi).trans_le (le hlt his)

theorem mem_bounds {a b : β} {is : List ι} (h : Cover C a is b) {i : ι} (hi : i ∈ is) :
    ∃ l u, C i l u ∧ a ≤ l ∧ u ≤ b := by
  obtain ⟨js, ks, rfl⟩ := List.append_of_mem hi
  obtain ⟨l, u, hjs, hC, hks⟩ := middle_iff.mp h
  exact ⟨l, u, hC, le hlt hjs, le hlt hks⟩

end Order

/-- A point of the covered interval lies in the interval of exactly one item: the chain is
cut around it. -/
theorem route [LinearOrder β] {a b x : β} {is : List ι}
    (h : Cover C a is b) (hax : a ≤ x) (hxb : x < b) :
    ∃ js i ks l u, is = js ++ i :: ks ∧ Cover C a js l ∧ C i l u ∧ Cover C u ks b ∧
      l ≤ x ∧ x < u := by
  induction is generalizing a with
  | nil =>
    obtain rfl : a = b := h
    exact absurd hax (not_le.mpr hxb)
  | cons i is ih =>
    obtain ⟨m, hi, his⟩ := h
    rcases lt_or_ge x m with hxm | hmx
    · exact ⟨[], i, is, a, m, rfl, rfl, hi, his, hax, hxm⟩
    · obtain ⟨js, j, ks, l, u, rfl, hjs, hj, hks, hlx, hxu⟩ := ih his hmx
      exact ⟨i :: js, j, ks, l, u, rfl, ⟨m, hi, hjs⟩, hj, hks, hlx, hxu⟩

end Cover

end ObHtap
