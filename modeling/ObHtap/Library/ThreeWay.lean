import Mathlib.Order.WithBot
import Mathlib.Data.List.Lex
import Mathlib.Data.Prod.Lex

/-!
# Three-way comparison functions

A comparison function returns a negative, zero or positive integer.  It is lawful for a
ranking `rank : κ → ρ` into a linear order when its sign is the order of the ranks.  Two
keys of the same rank need not be equal: `strncmp` stops at the first zero byte.
-/

namespace ObHtap

/-- The order of two elements: -1, 0 or 1. -/
def threeWay {ρ : Type*} [LinearOrder ρ] (a b : ρ) : Int :=
  if a < b then -1 else if a = b then 0 else 1

theorem threeWay_sign {ρ : Type*} [LinearOrder ρ] (a b : ρ) :
    threeWay a b = -1 ∨ threeWay a b = 0 ∨ threeWay a b = 1 := by
  unfold threeWay
  split_ifs
  · exact Or.inl rfl
  · exact Or.inr (Or.inl rfl)
  · exact Or.inr (Or.inr rfl)

/-- Lists are ordered by their first elements that differ. -/
theorem threeWay_cons {ρ : Type*} [LinearOrder ρ] (a b : ρ) (l l' : List ρ) :
    threeWay (a :: l) (b :: l') = if threeWay a b = 0 then threeWay l l' else threeWay a b := by
  unfold threeWay
  simp only [List.cons_lt_cons_iff, List.cons.injEq]
  rcases lt_trichotomy a b with h | h | h
  · simp [h]
  · subst h
    by_cases hlt : l < l'
    · simp [hlt]
    · simp [hlt]
  · simp [h.not_gt, h.ne']

theorem threeWay_singleton {ρ : Type*} [LinearOrder ρ] (a b : ρ) :
    threeWay [a] [b] = threeWay a b := by
  rw [threeWay_cons]
  split_ifs with h
  · rw [h, threeWay, if_neg (lt_irrefl _), if_pos rfl]
  · rfl

theorem threeWay_of_strictMono {ρ σ : Type*} [LinearOrder ρ] [LinearOrder σ] {f : ρ → σ}
    (hf : StrictMono f) (a b : ρ) : threeWay (f a) (f b) = threeWay a b := by
  unfold threeWay
  simp only [hf.lt_iff_lt, hf.injective.eq_iff]

/-- Elements may be replaced by others in the same order. -/
theorem threeWay_map {ρ σ : Type*} [LinearOrder ρ] [LinearOrder σ] {f : ρ → σ}
    (hf : StrictMono f) (l l' : List ρ) : threeWay (l.map f) (l'.map f) = threeWay l l' := by
  induction l generalizing l' with
  | nil => cases l' <;> simp [threeWay]
  | cons a l ih =>
    cases l' with
    | nil => simp [threeWay]
    | cons b l' =>
      rw [List.map_cons, List.map_cons, threeWay_cons, threeWay_cons, ih,
        threeWay_of_strictMono hf]

theorem threeWay_pos_iff {ρ : Type*} [LinearOrder ρ] {a b : ρ} : 0 < threeWay a b ↔ b < a := by
  unfold threeWay
  split_ifs with hlt heq
  · simp [hlt.le]
  · simp [heq]
  · simp [lt_of_le_of_ne (not_lt.mp hlt) (Ne.symm heq)]

theorem threeWay_neg_iff {ρ : Type*} [LinearOrder ρ] {a b : ρ} : threeWay a b < 0 ↔ a < b := by
  unfold threeWay
  split_ifs with hlt heq
  · simp [hlt]
  · simp [heq]
  · simp [hlt]

/-- The sign of `compare a b` is the order of the ranks of `a` and `b`. -/
structure RankedBy {κ ρ : Type*} [LinearOrder ρ] (compare : κ → κ → Int) (rank : κ → ρ) :
    Prop where
  neg_iff : ∀ a b, compare a b < 0 ↔ rank a < rank b
  zero_iff : ∀ a b, compare a b = 0 ↔ rank a = rank b

namespace RankedBy

variable {κ ρ : Type*} [LinearOrder ρ] {compare : κ → κ → Int} {rank : κ → ρ}

theorem pos_iff (h : RankedBy compare rank) (a b : κ) : 0 < compare a b ↔ rank b < rank a := by
  have hneg := h.neg_iff a b
  have hzero := h.zero_iff a b
  constructor
  · intro hpos
    refine lt_of_le_of_ne ?_ ?_
    · exact not_lt.mp fun hlt => by have := hneg.mpr hlt; omega
    · exact fun heq => by have := hzero.mpr heq.symm; omega
  · intro hlt
    have h1 : ¬ compare a b < 0 := fun hc => lt_asymm hlt (hneg.mp hc)
    have h2 : compare a b ≠ 0 := fun hc => hlt.ne' (hzero.mp hc)
    omega

theorem nonneg_iff (h : RankedBy compare rank) (a b : κ) :
    0 ≤ compare a b ↔ rank b ≤ rank a := by
  rw [← not_lt, ← not_lt, h.neg_iff]

theorem nonpos_iff (h : RankedBy compare rank) (a b : κ) :
    compare a b ≤ 0 ↔ rank a ≤ rank b := by
  rw [← not_lt, ← not_lt, h.pos_iff]

/-- A comparison whose results are -1, 0 and 1 is that of the ranks. -/
theorem eq_threeWay (h : RankedBy compare rank) {a b : κ}
    (hsign : compare a b = -1 ∨ compare a b = 0 ∨ compare a b = 1) :
    compare a b = threeWay (rank a) (rank b) := by
  have hneg := h.neg_iff a b
  have hzero := h.zero_iff a b
  unfold threeWay
  split_ifs with hlt heq
  · have := hneg.mpr hlt
    omega
  · exact hzero.mpr heq
  · have := mt hneg.mp hlt
    have := mt hzero.mp heq
    omega

/-- The comparison is transitive, and strict where one of its steps is. -/
theorem trans (h : RankedBy compare rank) {a b c : κ} (hab : compare a b ≤ 0)
    (hbc : compare b c ≤ 0) :
    compare a c ≤ 0 ∧ (compare a c = 0 → compare a b = 0 ∧ compare b c = 0) := by
  have hab' := (h.nonpos_iff a b).mp hab
  have hbc' := (h.nonpos_iff b c).mp hbc
  refine ⟨(h.nonpos_iff a c).mpr (hab'.trans hbc'), fun heq => ?_⟩
  have heq' := (h.zero_iff a c).mp heq
  have hba : rank b ≤ rank a := hbc'.trans heq'.ge
  have hcb : rank c ≤ rank b := heq'.ge.trans hab'
  exact ⟨(h.zero_iff a b).mpr (hab'.antisymm hba), (h.zero_iff b c).mpr (hbc'.antisymm hcb)⟩

/-- A comparison that agrees with the ranks where it tells two apart, and that tells all apart. -/
theorem of_apart (hneg : ∀ a b, compare a b < 0 → rank a < rank b)
    (hpos : ∀ a b, 0 < compare a b → rank b < rank a) (hapart : ∀ a b, compare a b = 0 → a = b) :
    RankedBy compare rank where
  neg_iff a b := by
    constructor
    · exact hneg a b
    · intro hlt
      have hzero : compare a b ≠ 0 := fun h => hlt.ne (congrArg rank (hapart a b h))
      have hnot : ¬ 0 < compare a b := fun h => lt_asymm hlt (hpos a b h)
      omega
  zero_iff a b := by
    constructor
    · intro h
      rw [hapart a b h]
    · intro heq
      have hnot : ¬ 0 < compare a b := fun h => (hpos a b h).ne' heq
      have hnot' : ¬ compare a b < 0 := fun h => (hneg a b h).ne heq
      omega

/-- Comparing first by `compare` and then, on a tie, by `compare'` orders pairs
lexicographically. -/
theorem lex {κ' ρ' : Type*} [LinearOrder ρ'] {compare' : κ' → κ' → Int} {rank' : κ' → ρ'}
    (h : RankedBy compare rank) (h' : RankedBy compare' rank') :
    RankedBy
      (fun p q : κ × κ' => if compare p.1 q.1 ≠ 0 then compare p.1 q.1 else compare' p.2 q.2)
      (fun p => toLex (rank p.1, rank' p.2)) where
  neg_iff := by
    rintro ⟨a, a'⟩ ⟨b, b'⟩
    simp only [Prod.Lex.toLex_lt_toLex]
    by_cases hz : compare a b = 0
    · have hr := (h.zero_iff a b).mp hz
      simp [hz, hr, h'.neg_iff]
    · have hr : rank a ≠ rank b := fun hc => hz ((h.zero_iff a b).mpr hc)
      simp [hz, hr, h.neg_iff]
  zero_iff := by
    rintro ⟨a, a'⟩ ⟨b, b'⟩
    simp only [EmbeddingLike.apply_eq_iff_eq, Prod.mk.injEq]
    by_cases hz : compare a b = 0
    · have hr := (h.zero_iff a b).mp hz
      simp [hz, hr, h'.zero_iff]
    · have hr : rank a ≠ rank b := fun hc => hz ((h.zero_iff a b).mpr hc)
      simp [hz, hr]

end RankedBy

/-- The comparison is one of a total order, in which keys may be equal that differ. -/
structure IsThreeWay {κ : Type*} (compare : κ → κ → Int) : Prop where
  swap : ∀ a b, compare a b < 0 ↔ 0 < compare b a
  trans : ∀ a b c, compare a b ≤ 0 → compare b c ≤ 0 → compare a c ≤ 0

/-- What is below a key is below everything that the key is not above. -/
theorem IsThreeWay.lt_of_lt_of_le {κ : Type*} {compare : κ → κ → Int} (h : IsThreeWay compare)
    {a b c : κ} (hab : compare a b < 0) (hbc : compare b c ≤ 0) : compare a c < 0 := by
  by_contra hac
  have hca : compare c a ≤ 0 := by have := h.swap a c; omega
  have hba : compare b a ≤ 0 := h.trans b c a hbc hca
  have hswap := h.swap a b
  omega

theorem RankedBy.isThreeWay {κ ρ : Type*} [LinearOrder ρ] {compare : κ → κ → Int} {rank : κ → ρ}
    (h : RankedBy compare rank) : IsThreeWay compare where
  swap a b := by rw [h.neg_iff, h.pos_iff]
  trans _ _ _ hab hbc := (h.trans hab hbc).1

/-! ## Bounds of key intervals -/

/-- A bound of a half-open interval of ranks: below every rank, a rank, or above every
rank. -/
abbrev Bound (ρ : Type*) := WithBot (WithTop ρ)

namespace Bound

variable {ρ : Type*}

/-- The bound at a rank. -/
def at_ (r : ρ) : Bound ρ := ((r : WithTop ρ) : WithBot (WithTop ρ))

@[simp] theorem at_ne_bot (r : ρ) : at_ r ≠ ⊥ := by
  simp [at_]

@[simp] theorem at_ne_top (r : ρ) : at_ r ≠ ⊤ := by
  intro h
  have h' : ((r : WithTop ρ) : WithBot (WithTop ρ)) = ((⊤ : WithTop ρ) : WithBot _) := h
  simp at h'

variable [LinearOrder ρ]

@[simp] theorem at_lt_at {r r' : ρ} : at_ r < at_ r' ↔ r < r' := by
  simp [at_]

@[simp] theorem at_le_at {r r' : ρ} : at_ r ≤ at_ r' ↔ r ≤ r' := by
  simp [at_]

@[simp] theorem at_lt_top (r : ρ) : at_ r < (⊤ : Bound ρ) :=
  lt_of_le_of_ne le_top (at_ne_top r)

end Bound

end ObHtap
