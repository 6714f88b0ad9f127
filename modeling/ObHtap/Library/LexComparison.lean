import Mathlib.Order.RelClasses
import Mathlib.Tactic.Tauto

/-!
# Lexicographic comparison with a tolerance

Elements are compared by one three-way comparison after the other.  A comparison need not tell
apart what it calls equal in a transitive way: each of two elements may be as good as a third one
and still come one before the other.  What the comparisons say together is a strict weak order
exactly if the later ones resolve every such chain.
-/

namespace ObHtap

variable {ι : Type*} {c : ι → ι → Int} {cs ds : List (ι → ι → Int)} {x y z : ι}

/-- Less and greater are turned around with the arguments, and less is transitive. -/
structure StrictCompare (c : ι → ι → Int) : Prop where
  swap : ∀ x y, c x y < 0 ↔ 0 < c y x
  trans : ∀ x y z, c x y < 0 → c y z < 0 → c x z < 0

namespace StrictCompare

theorem zero_comm (h : StrictCompare c) : c x y = 0 ↔ c y x = 0 := by
  have hxy := h.swap x y
  have hyx := h.swap y x
  omega

theorem neg (h : StrictCompare c) : StrictCompare fun x y => -c x y where
  swap x y := by
    have hswap := h.swap y x
    omega
  trans x y z hxy hyz := by
    have hxy' := (h.swap y x).mpr (by omega)
    have hyz' := (h.swap z y).mpr (by omega)
    have hzx := (h.swap z x).mp (h.trans z y x hyz' hxy')
    omega

theorem comap {κ : Type*} (h : StrictCompare c) (f : κ → ι) :
    StrictCompare fun x y => c (f x) (f y) :=
  ⟨fun x y => h.swap (f x) (f y), fun x y z => h.trans (f x) (f y) (f z)⟩

end StrictCompare

/-- The first comparison that tells two elements apart says less. -/
def Before : List (ι → ι → Int) → ι → ι → Prop
  | [], _, _ => False
  | c :: cs, x, y => c x y < 0 ∨ c x y = 0 ∧ Before cs x y

/-- Three elements that are equal up to a comparison which puts the first before the third, while
the second is as good as both; and what comes after it puts the second neither behind the first
nor before the third. -/
def Tangled : List (ι → ι → Int) → ι → ι → ι → Prop
  | [], _, _, _ => False
  | c :: cs, x, y, z =>
    c x y = 0 ∧ c y z = 0 ∧
      (c x z < 0 ∧ ¬ Before cs x y ∧ ¬ Before cs y z ∨ c x z = 0 ∧ Tangled cs x y z)

instance decidableBefore : (cs : List (ι → ι → Int)) → (x y : ι) → Decidable (Before cs x y)
  | [], _, _ => isFalse id
  | c :: cs, x, y =>
    have := decidableBefore cs x y
    inferInstanceAs (Decidable (c x y < 0 ∨ c x y = 0 ∧ Before cs x y))

instance decidableTangled : (cs : List (ι → ι → Int)) → (x y z : ι) → Decidable (Tangled cs x y z)
  | [], _, _, _ => isFalse id
  | c :: cs, x, y, z =>
    have := decidableTangled cs x y z
    inferInstanceAs (Decidable (c x y = 0 ∧ c y z = 0 ∧
      (c x z < 0 ∧ ¬ Before cs x y ∧ ¬ Before cs y z ∨ c x z = 0 ∧ Tangled cs x y z)))

theorem before_append : Before (cs ++ ds) x y ↔
    Before cs x y ∨ (∀ c ∈ cs, c x y = 0) ∧ Before ds x y := by
  induction cs with
  | nil => simp [Before]
  | cons c cs ih =>
    simp only [List.cons_append, Before, ih, List.forall_mem_cons]
    tauto

/-- Turned around comparisons. -/
theorem before_map_neg (h : ∀ c ∈ cs, StrictCompare c) :
    Before (cs.map fun c x y => -c x y) x y ↔ Before cs y x := by
  induction cs with
  | nil => rfl
  | cons c cs ih =>
    have hc := List.forall_mem_cons.mp h
    have hswap := hc.1.swap y x
    have hswap' := hc.1.swap x y
    have hless : -c x y < 0 ↔ c y x < 0 := by omega
    have hequal : -c x y = 0 ↔ c y x = 0 := by omega
    simp only [List.map_cons, Before, ih hc.2, hless, hequal]

theorem before_comap {κ : Type*} {f : κ → ι} {x y : κ} :
    Before (cs.map fun c x y => c (f x) (f y)) x y ↔ Before cs (f x) (f y) := by
  induction cs with
  | nil => rfl
  | cons c cs ih => simp only [List.map_cons, Before, ih]

theorem tangled_comap {κ : Type*} {f : κ → ι} {x y z : κ} :
    Tangled (cs.map fun c x y => c (f x) (f y)) x y z ↔ Tangled cs (f x) (f y) (f z) := by
  induction cs with
  | nil => rfl
  | cons c cs ih => simp only [List.map_cons, Tangled, before_comap, ih]

theorem before_asymm (h : ∀ c ∈ cs, StrictCompare c) (hxy : Before cs x y) : ¬ Before cs y x := by
  induction cs with
  | nil => exact id
  | cons c cs ih =>
    have hc := List.forall_mem_cons.mp h
    have hswap := hc.1.swap x y
    rcases hxy with hlt | ⟨heq, hbefore⟩
    · rintro (hlt' | ⟨heq', -⟩) <;> omega
    · rintro (hlt' | ⟨-, hbefore'⟩)
      · have hswap' := hc.1.swap y x
        omega
      · exact ih hc.2 hbefore hbefore'

/-- A tangle is a chain that no order can have. -/
theorem Tangled.chain (h : Tangled cs x y z) :
    Before cs x z ∧ ¬ Before cs x y ∧ ¬ Before cs y z := by
  induction cs with
  | nil => cases h
  | cons c cs ih =>
    obtain ⟨hxy, hyz, ⟨hxz, hnot, hnot'⟩ | ⟨hxz, hrest⟩⟩ := h
    · refine ⟨Or.inl hxz, ?_, ?_⟩
      · rintro (hlt | ⟨-, hbefore⟩)
        · omega
        · exact hnot hbefore
      · rintro (hlt | ⟨-, hbefore⟩)
        · omega
        · exact hnot' hbefore
    · obtain ⟨hbefore, hnot, hnot'⟩ := ih hrest
      refine ⟨Or.inr ⟨hxz, hbefore⟩, ?_, ?_⟩
      · rintro (hlt | ⟨-, hbefore'⟩)
        · omega
        · exact hnot hbefore'
      · rintro (hlt | ⟨-, hbefore'⟩)
        · omega
        · exact hnot' hbefore'

/-- Of three elements in such a chain there is a tangle in some order. -/
theorem exists_tangled (h : ∀ c ∈ cs, StrictCompare c) (hxz : Before cs x z)
    (hxy : ¬ Before cs x y) (hyz : ¬ Before cs y z) :
    Tangled cs x y z ∨ Tangled cs y z x ∨ Tangled cs z x y := by
  induction cs with
  | nil => cases hxz
  | cons c cs ih =>
    obtain ⟨hc, hcs⟩ := List.forall_mem_cons.mp h
    have hnxy : ¬ c x y < 0 := fun hlt => hxy (Or.inl hlt)
    have hnyz : ¬ c y z < 0 := fun hlt => hyz (Or.inl hlt)
    have hsxy := hc.swap x y
    have hsyx := hc.swap y x
    have hsyz := hc.swap y z
    have hszy := hc.swap z y
    have hsxz := hc.swap x z
    have hszx := hc.swap z x
    rcases hxz with hlt | ⟨heq, hbefore⟩
    · -- the comparison itself puts the first before the third
      have heqxy : c x y = 0 := by
        by_contra hne
        have := hc.trans y x z (by omega) hlt
        omega
      have heqyz : c y z = 0 := by
        by_contra hne
        have := hc.trans x z y hlt (by omega)
        omega
      exact Or.inl ⟨heqxy, heqyz, Or.inl ⟨hlt, fun hb => hxy (Or.inr ⟨heqxy, hb⟩),
        fun hb => hyz (Or.inr ⟨heqyz, hb⟩)⟩⟩
    · have hback := before_asymm hcs hbefore
      rcases eq_or_ne (c x y) 0 with heqxy | hnexy
      · have hxy' : ¬ Before cs x y := fun hb => hxy (Or.inr ⟨heqxy, hb⟩)
        rcases eq_or_ne (c y z) 0 with heqyz | hneyz
        · have hyz' : ¬ Before cs y z := fun hb => hyz (Or.inr ⟨heqyz, hb⟩)
          rcases ih hcs hbefore hxy' hyz' with ht | ht | ht
          · exact Or.inl ⟨heqxy, heqyz, Or.inr ⟨heq, ht⟩⟩
          · exact Or.inr (Or.inl ⟨heqyz, by omega, Or.inr ⟨by omega, ht⟩⟩)
          · exact Or.inr (Or.inr ⟨by omega, heqxy, Or.inr ⟨by omega, ht⟩⟩)
        · -- the third comes before the second
          exact Or.inr (Or.inr ⟨by omega, heqxy, Or.inl ⟨by omega, hback, hxy'⟩⟩)
      · have heqyz : c y z = 0 := by
          by_contra hne
          have := hc.trans z y x (by omega) (by omega)
          omega
        have hyz' : ¬ Before cs y z := fun hb => hyz (Or.inr ⟨heqyz, hb⟩)
        exact Or.inr (Or.inl ⟨heqyz, by omega, Or.inl ⟨by omega, hyz', hback⟩⟩)

/-- The comparisons together are a strict weak order exactly if there are no tangles. -/
theorem isStrictWeakOrder_before_iff (h : ∀ c ∈ cs, StrictCompare c) :
    IsStrictWeakOrder ι (Before cs) ↔ ∀ x y z, ¬ Tangled cs x y z := by
  constructor
  · intro horder x y z htangled
    obtain ⟨hxz, hxy, hyz⟩ := htangled.chain
    have hyx : ¬ Before cs y x := fun hyx => hyz (horder.trans y x z hyx hxz)
    have hzy : ¬ Before cs z y := fun hzy => hxy (horder.trans x z y hxz hzy)
    exact (horder.incomp_trans x y z ⟨hxy, hyx⟩ ⟨hyz, hzy⟩).1 hxz
  · intro hnone
    have hasymm : Std.Asymm (Before cs) := ⟨fun x y hxy => before_asymm h hxy⟩
    have hconnected : IsOrderConnected ι (Before cs) := by
      refine ⟨fun x y z hxz => ?_⟩
      by_contra hnot
      obtain ⟨hxy, hyz⟩ := not_or.mp hnot
      rcases exists_tangled h hxz hxy hyz with ht | ht | ht
      · exact hnone x y z ht
      · exact hnone y z x ht
      · exact hnone z x y ht
    exact isStrictWeakOrder_of_isOrderConnected

/-! ## Comparisons of a part -/

/-- A comparison of what some elements have; the others are all equal. -/
def partialCompare {κ : Type*} (p : ι → Option κ) (c : κ → κ → Int) (x y : ι) : Int :=
  match p x, p y with
  | some a, some b => c a b
  | _, _ => 0

section

variable {κ : Type*} {p : ι → Option κ} {c : κ → κ → Int} {cs : List (κ → κ → Int)} {a b : κ}

theorem partialCompare_some (hx : p x = some a) (hy : p y = some b) :
    partialCompare p c x y = c a b := by
  rw [partialCompare, hx, hy]

theorem partialCompare_lt (h : partialCompare p c x y < 0) :
    ∃ a b, p x = some a ∧ p y = some b ∧ c a b < 0 := by
  unfold partialCompare at h
  split at h
  next a b hx hy => exact ⟨a, b, hx, hy, h⟩
  · cases h

theorem StrictCompare.partialCompare (h : StrictCompare c) :
    StrictCompare (ObHtap.partialCompare p c) where
  swap x y := by
    cases hx : p x <;> cases hy : p y <;> simp [ObHtap.partialCompare, hx, hy, h.swap]
  trans x y z hxy hyz := by
    obtain ⟨a, b, hx, hy, hab⟩ := partialCompare_lt hxy
    obtain ⟨b', d, hy', hz, hbd⟩ := partialCompare_lt hyz
    cases hy.symm.trans hy'
    rw [partialCompare_some hx hz]
    exact h.trans a b d hab hbd

theorem before_map_partialCompare (hx : p x = some a) (hy : p y = some b) :
    Before (cs.map (partialCompare p)) x y ↔ Before cs a b := by
  induction cs with
  | nil => rfl
  | cons c cs ih => simp only [List.map_cons, Before, ih, partialCompare_some hx hy]

end

/-- The first `n` elements of two lists, one after the other. -/
def listCompares {κ : Type*} (c : κ → κ → Int) : Nat → List (List κ → List κ → Int)
  | 0 => []
  | n + 1 =>
    partialCompare List.head? c :: (listCompares c n).map fun c xs ys => c xs.tail ys.tail

theorem strictCompare_listCompares {κ : Type*} {c : κ → κ → Int} (h : StrictCompare c) (n : Nat) :
    ∀ c' ∈ listCompares c n, StrictCompare c' := by
  induction n with
  | zero => exact nofun
  | succ n ih =>
    intro c' hmem
    rcases List.mem_cons.mp hmem with rfl | hmem
    · exact h.partialCompare
    · obtain ⟨c'', hmem', rfl⟩ := List.mem_map.mp hmem
      exact (ih c'' hmem').comap List.tail

theorem not_before_of_equal (h : ∀ c ∈ cs, c x y = 0) : ¬ Before cs x y := by
  induction cs with
  | nil => exact id
  | cons c cs ih =>
    obtain ⟨hc, hcs⟩ := List.forall_mem_cons.mp h
    rintro (hlt | ⟨-, hb⟩)
    · omega
    · exact ih hcs hb

/-- A number with the sign of the comparisons. -/
def HasSign (cs : List (ι → ι → Int)) (x y : ι) (n : Int) : Prop :=
  (Before cs x y ↔ n < 0) ∧ (Before cs y x ↔ 0 < n) ∧ ((∀ c ∈ cs, c x y = 0) ↔ n = 0)

/-- A comparison in front that tells the elements apart. -/
theorem hasSign_of_first {c : ι → ι → Int} {n : Int} (hc : StrictCompare c) (hne : c x y ≠ 0)
    (hlt : c x y < 0 ↔ n < 0) (hgt : 0 < c x y ↔ 0 < n) : HasSign (c :: cs) x y n := by
  have hswap := hc.swap y x
  have hzero := hc.zero_comm (x := x) (y := y)
  refine ⟨?_, ?_, ?_⟩
  · exact ⟨fun h => hlt.mp (h.resolve_right fun h => hne h.1), fun h => Or.inl (hlt.mpr h)⟩
  · exact ⟨fun h => hgt.mp (hswap.mp (h.resolve_right fun h => hne (hzero.mpr h.1))),
      fun h => Or.inl (hswap.mpr (hgt.mpr h))⟩
  · refine iff_of_false (fun h => hne (h c (List.mem_cons_self ..))) ?_
    omega

/-- A comparison in front that does not. -/
theorem HasSign.cons {c : ι → ι → Int} {n : Int} (h : HasSign cs x y n) (hc : StrictCompare c)
    (hzero : c x y = 0) : HasSign (c :: cs) x y n := by
  have hzero' := hc.zero_comm.mp hzero
  unfold HasSign Before
  rw [List.forall_mem_cons, hzero, hzero']
  simp only [Int.lt_irrefl, false_or, true_and]
  exact h

theorem HasSign.comap {κ : Type*} {f : κ → ι} {x y : κ} {n : Int} (h : HasSign cs (f x) (f y) n) :
    HasSign (cs.map fun c x y => c (f x) (f y)) x y n := by
  unfold HasSign
  rw [before_comap, before_comap, List.forall_mem_map]
  exact h

theorem HasSign.partialCompare {κ : Type*} {p : ι → Option κ} {cs : List (κ → κ → Int)} {a b : κ}
    {n : Int} (h : HasSign cs a b n) (hx : p x = some a) (hy : p y = some b) :
    HasSign (cs.map (ObHtap.partialCompare p)) x y n := by
  unfold HasSign
  rw [before_map_partialCompare hx hy, before_map_partialCompare hy hx, List.forall_mem_map]
  simp only [partialCompare_some hx hy]
  exact h

theorem HasSign.map_neg {n : Int} (hcs : ∀ c ∈ cs, StrictCompare c) (h : HasSign cs x y n) :
    HasSign (cs.map fun c x y => -c x y) x y (-n) := by
  unfold HasSign
  rw [before_map_neg hcs, before_map_neg hcs, List.forall_mem_map, h.1, h.2.1]
  refine ⟨by omega, by omega, ?_⟩
  simp only [Int.neg_eq_zero]
  exact h.2.2

/-- One comparison says what it says. -/
theorem hasSign_single {c : ι → ι → Int} (hc : StrictCompare c) (x y : ι) :
    HasSign [c] x y (c x y) := by
  have hswap := hc.swap y x
  refine ⟨?_, ?_, List.forall_mem_singleton⟩ <;> simp only [Before, and_false, or_false]
  exact hswap

theorem hasSign_partialCompare {κ : Type*} {p : ι → Option κ} {c : κ → κ → Int} {a b : κ}
    (hc : StrictCompare c) (hx : p x = some a) (hy : p y = some b) :
    HasSign [partialCompare p c] x y (c a b) := by
  rw [← partialCompare_some (c := c) hx hy]
  exact hasSign_single hc.partialCompare x y

theorem hasSign_nil : HasSign [] x y 0 :=
  ⟨⟨False.elim, fun h => absurd h (by decide)⟩, ⟨False.elim, fun h => absurd h (by decide)⟩,
    ⟨fun _ => rfl, fun _ => nofun⟩⟩

end ObHtap
