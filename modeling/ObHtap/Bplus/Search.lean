import ObHtap.Bplus.Invariant
import ObHtap.Bplus.NodeHandler

/-!
# The searches inside a node

The binary searches of the node handlers find what they are meant to find: in a leaf the place
of a key, in an internal node the child whose interval contains the key.
-/

namespace ObHtap

open ObHtap.Bound

variable {κ ρ : Type} [LinearOrder ρ] {rank : κ → ρ} {cmp : κ → κ → Int} {key : κ}

/-- On a sorted run of items the comparator increases as the binary search needs it. -/
theorem increasing_compareAt (key : κ) (hcmp : RankedBy cmp rank) {items : List (Item κ)} {k : Nat}
    (hsorted : (items.drop k).Pairwise fun a b => rank a.key < rank b.key) :
    Increasing (fun i => compareAt cmp items key (i + k)) (items.length - k) := by
  intro i j hij hj hle
  have hj' : j + k < items.length := by omega
  have hi' : i + k < items.length := by omega
  simp only [compareAt, List.getElem?_eq_getElem hj', List.getElem?_eq_getElem hi'] at hle ⊢
  rw [hcmp.nonpos_iff] at hle
  rw [hcmp.neg_iff]
  have hp := List.pairwise_iff_getElem.mp hsorted i j (by simp; omega) (by simp; omega) hij
  simp only [List.getElem_drop] at hp
  have h1 : items[k + i].key = items[i + k].key := by simp only [Nat.add_comm]
  have h2 : items[k + j].key = items[j + k].key := by simp only [Nat.add_comm]
  rw [h1, h2] at hp
  exact hp.trans_le hle

/-! ## Leaves -/

/-- The result of the search for a key in a sorted leaf. -/
structure LeafPosition (rank : κ → ρ) (key : κ) (items : List (Item κ)) (pos : Nat)
    (found : Bool) : Prop where
  le_length : pos ≤ items.length
  below : ∀ item ∈ items.take pos, rank item.key < rank key
  above : found = false → ∀ item ∈ items.drop pos, rank key < rank item.key
  hit : found = true → ∃ item, items[pos]? = some item ∧ rank item.key = rank key

theorem LeafIndexNodeHandler.lookup_spec (key : κ) (hcmp : RankedBy cmp rank) {node : IndexNode κ}
    (hsorted : node.items.Pairwise fun a b => rank a.key < rank b.key) :
    LeafPosition rank key node.items (lookup cmp node key).1 (lookup cmp node key).2 := by
  have hspec : IsLowerBound (compareAt cmp node.items key) node.items.length
      (lookup cmp node key).1 (lookup cmp node key).2 :=
    lowerBound_spec (by simpa using increasing_compareAt key hcmp (k := 0) hsorted)
  generalize (lookup cmp node key).1 = pos at hspec ⊢
  generalize (lookup cmp node key).2 = found at hspec ⊢
  have hat : ∀ i (hi : i < node.items.length),
      compareAt cmp node.items key i = cmp node.items[i].key key := by
    intro i hi
    simp [compareAt, List.getElem?_eq_getElem hi]
  refine ⟨hspec.le_count, ?_, ?_, ?_⟩
  · intro item hmem
    obtain ⟨i, hi, rfl⟩ := List.mem_take_iff_getElem.mp hmem
    have hlt := hspec.below i (by omega)
    rw [hat i (by omega), hcmp.neg_iff] at hlt
    exact hlt
  · intro hfound item hmem
    obtain ⟨i, hi, rfl⟩ := List.mem_drop_iff_getElem.mp hmem
    have hpos : 0 < compareAt cmp node.items key (i + pos) := by
      by_cases h0 : i = 0
      · subst h0
        have h1 := hspec.at_nonneg (by omega)
        have h2 : compareAt cmp node.items key pos ≠ 0 := fun hc => by
          have := hspec.found_iff.mpr ⟨by omega, hc⟩
          rw [hfound] at this
          exact absurd this (by simp)
        simp only [Nat.zero_add]
        omega
      · exact hspec.above (i + pos) (by omega) (by omega)
    rw [hat (i + pos) (by omega), hcmp.pos_iff] at hpos
    simpa [Nat.add_comm] using hpos
  · intro hfound
    obtain ⟨hlt, hz⟩ := hspec.found_iff.mp hfound
    rw [hat pos hlt, hcmp.zero_iff] at hz
    exact ⟨_, List.getElem?_eq_getElem hlt, hz⟩

namespace LeafPosition

variable {items : List (Item κ)} {pos : Nat} {found : Bool}

theorem found_iff (h : LeafPosition rank key items pos found) :
    found = true ↔ ∃ item ∈ items, rank item.key = rank key := by
  constructor
  · intro hf
    obtain ⟨item, hitem, hrank⟩ := h.hit hf
    exact ⟨item, List.mem_of_getElem? hitem, hrank⟩
  · rintro ⟨item, hmem, hrank⟩
    by_contra hf
    rw [← List.take_append_drop pos items] at hmem
    rcases List.mem_append.mp hmem with hm | hm
    · exact (h.below item hm).ne hrank
    · exact (h.above (by simpa using hf) item hm).ne' hrank

theorem mem_drop_iff (h : LeafPosition rank key items pos found)
    (hsorted : items.Pairwise fun a b => rank a.key < rank b.key) (item : Item κ) :
    item ∈ items.drop pos ↔ item ∈ items ∧ rank key ≤ rank item.key := by
  constructor
  · intro hmem
    refine ⟨List.mem_of_mem_drop hmem, ?_⟩
    cases found with
    | false => exact (h.above rfl item hmem).le
    | true =>
      obtain ⟨first, hfirst, hrank⟩ := h.hit rfl
      obtain ⟨hpos, rfl⟩ := List.getElem?_eq_some_iff.mp hfirst
      have hdrop := hsorted.drop (i := pos)
      rw [List.drop_eq_getElem_cons hpos] at hdrop hmem
      rcases List.mem_cons.mp hmem with rfl | hmem
      · exact hrank.ge
      · exact hrank.ge.trans ((List.pairwise_cons.mp hdrop).1 item hmem).le
  · rintro ⟨hmem, hle⟩
    rw [← List.take_append_drop pos items] at hmem
    rcases List.mem_append.mp hmem with htake | hdrop
    · exact absurd (h.below item htake) (not_lt.mpr hle)
    · exact hdrop

theorem least (h : LeafPosition rank key items pos found)
    (hsorted : items.Pairwise fun a b => rank a.key < rank b.key) {first : Item κ}
    (hfirst : items[pos]? = some first) :
    rank key ≤ rank first.key ∧
      ∀ item ∈ items, rank key ≤ rank item.key → rank first.key ≤ rank item.key := by
  obtain ⟨hpos, rfl⟩ := List.getElem?_eq_some_iff.mp hfirst
  constructor
  · cases found with
    | true =>
      obtain ⟨item, hitem, hrank⟩ := h.hit rfl
      rw [hfirst] at hitem
      cases hitem
      exact hrank.ge
    | false => exact (h.above rfl _ (List.mem_drop_iff_getElem.mpr ⟨0, by simpa, by simp⟩)).le
  · intro item hmem hle
    obtain ⟨i, hi, rfl⟩ := List.getElem_of_mem hmem
    rcases lt_trichotomy i pos with hlt | rfl | hgt
    · exact absurd (h.below _ (List.mem_take_iff_getElem.mpr ⟨i, by omega, rfl⟩)) (not_lt.mpr hle)
    · exact le_rfl
    · exact (List.pairwise_iff_getElem.mp hsorted pos i hpos hi hgt).le

theorem sorted_insert (h : LeafPosition rank key items pos false)
    (hsorted : items.Pairwise fun a b => rank a.key < rank b.key) {new : Item κ}
    (hnew : new.key = key) :
    (items.take pos ++ new :: items.drop pos).Pairwise fun a b => rank a.key < rank b.key := by
  have hs := hsorted
  rw [← List.take_append_drop pos items, List.pairwise_append] at hs
  rw [List.pairwise_append, List.pairwise_cons]
  refine ⟨hs.1, ⟨fun b hb => hnew ▸ h.above rfl b hb, hs.2.1⟩, fun a ha b hb => ?_⟩
  rcases List.mem_cons.mp hb with rfl | hb
  · exact hnew ▸ h.below a ha
  · exact hs.2.2 a ha b hb

end LeafPosition

/-! ## Internal nodes -/

variable {v : Pages κ} {g : Layout ρ} {hole : Option (PageNum × PageNum)}

namespace TreeInv

variable {p : PageNum} {js ks : List (Item κ)} {it : Item κ}

/-- From the second slot on, the key of an item is where the interval of its child begins. -/
theorem key_eq_lo (h : TreeInv rank v g hole) (hp : g.dom p) (hl : g.lvl p ≠ 0)
    (hitems : (v.node p).items = js ++ it :: ks) (hjs : js ≠ []) :
    g.lo it.child = at_ (rank it.key) := by
  have hcov := (h.internal p hp hl).cover
  rw [hitems, Cover.middle_iff] at hcov
  obtain ⟨l, u, hcj, hc, -⟩ := hcov
  have hlt : g.lo p < l := hcj.lt (fun _ _ _ => h.child_lt) hjs
  rw [hc.lo]
  exact hc.key.resolve_left fun hb => absurd hlt (by rw [hb]; exact not_lt.mpr bot_le)

/-- The items before a child have smaller separators, those after it larger ones. -/
theorem seps_around (h : TreeInv rank v g hole) (hp : g.dom p) (hl : g.lvl p ≠ 0)
    (hitems : (v.node p).items = js ++ it :: ks) :
    (∀ a ∈ js.tail, at_ (rank a.key) < g.lo it.child) ∧
      ∀ b ∈ ks, g.cov hole it.child ≤ at_ (rank b.key) := by
  have hcov := (h.internal p hp hl).cover
  rw [hitems, Cover.middle_iff] at hcov
  obtain ⟨l, u, hcj, hc, hck⟩ := hcov
  constructor
  · intro a ha
    obtain ⟨first, tail, rfl⟩ := List.exists_cons_of_ne_nil (l := js) (by rintro rfl; simp at ha)
    obtain ⟨as, bs, htail⟩ := List.append_of_mem (show a ∈ tail from ha)
    subst htail
    have hlo := h.key_eq_lo hp hl
      (show (v.node p).items = (first :: as) ++ a :: (bs ++ it :: ks) by rw [hitems]; simp) (by simp)
    obtain ⟨l', u', hca, -, hu'⟩ := hcj.mem_bounds (fun _ _ _ => h.child_lt)
      (show a ∈ first :: (as ++ a :: bs) by simp)
    rw [← hlo, hca.lo, hc.lo]
    exact (h.child_lt hca).trans_le hu'
  · intro b hb
    obtain ⟨as, bs, rfl⟩ := List.append_of_mem hb
    have hlo := h.key_eq_lo hp hl
      (show (v.node p).items = (js ++ it :: as) ++ b :: bs by rw [hitems]; simp) (by simp)
    obtain ⟨l', u', hcb, hl', -⟩ := hck.mem_bounds (fun _ _ _ => h.child_lt)
      (show b ∈ as ++ b :: bs by simp)
    rw [← hlo, hcb.lo, hc.cov]
    exact hl'

theorem seps_sorted (h : TreeInv rank v g hole) (hp : g.dom p) (hl : g.lvl p ≠ 0) :
    ((v.node p).items.drop 1).Pairwise fun a b => rank a.key < rank b.key := by
  rw [List.pairwise_iff_getElem]
  intro i j hi hj hij
  simp only [List.getElem_drop]
  simp only [List.length_drop] at hi hj
  have hitems : (v.node p).items = (v.node p).items.take (1 + j) ++
      (v.node p).items[1 + j] :: (v.node p).items.drop (1 + j + 1) := by simp
  have hlt := (h.seps_around hp hl hitems).1 (v.node p).items[1 + i] (by
    rw [← List.drop_one, List.mem_drop_iff_getElem]
    exact ⟨i, by simp; omega, by simp [Nat.add_comm]⟩)
  rw [h.key_eq_lo hp hl hitems (by
    intro hc
    have := congrArg List.length hc
    simp only [List.length_take, List.length_nil] at this
    omega)] at hlt
  exact at_lt_at.mp hlt

end TreeInv

/-- The search in an internal node ends at the last item whose separator is not above the key,
and a key that is no separator belongs right after it. -/
theorem InternalIndexNodeHandler.lookup_of_seps (hcmp : RankedBy cmp rank) {node : IndexNode κ}
    {js ks : List (Item κ)} {it : Item κ} (hitems : node.items = js ++ it :: ks)
    (hsorted : (node.items.drop 1).Pairwise fun a b => rank a.key < rank b.key)
    (hjs : ∀ a ∈ js.tail, rank a.key < rank key) (hit : js ≠ [] → rank it.key ≤ rank key)
    (hks : ∀ b ∈ ks, rank key < rank b.key) :
    (lookup cmp node key).1 = js.length ∧
      ((js ≠ [] → rank it.key ≠ rank key) → (lookup cmp node key).2 = js.length + 1) := by
  have hlen : node.items.length = js.length + 1 + ks.length := by rw [hitems]; simp; omega
  have hspec := lowerBound_spec (increasing_compareAt key hcmp hsorted)
  -- the separators before `it`, its own, and those after it
  have hbefore : ∀ i, i + 1 < js.length → compareAt cmp node.items key (i + 1) < 0 := by
    intro i hi
    rw [compareAt, hitems, List.getElem?_append_left hi, List.getElem?_eq_getElem hi]
    rw [hcmp.neg_iff]
    refine hjs _ ?_
    rw [← List.drop_one, List.mem_drop_iff_getElem]
    exact ⟨i, by omega, by simp [Nat.add_comm]⟩
  have hown : compareAt cmp node.items key js.length = cmp it.key key := by
    simp [compareAt, hitems]
  have hafter : ∀ i, js.length < i → i < node.items.length →
      0 < compareAt cmp node.items key i := by
    intro i hi hi'
    obtain ⟨n, rfl⟩ := Nat.exists_eq_add_of_lt hi
    have hn : n < ks.length := by omega
    have hget : node.items[js.length + n + 1]? = some ks[n] := by
      rw [hitems, List.getElem?_append_right (by omega),
        show js.length + n + 1 - js.length = n + 1 by omega, List.getElem?_cons_succ,
        List.getElem?_eq_getElem hn]
    rw [compareAt, hget]
    rw [hcmp.pos_iff]
    exact hks _ (List.getElem_mem hn)
  unfold lookup
  rw [if_neg (by unfold IndexNode.size; omega), show node.size = node.items.length from rfl]
  by_cases heq : js ≠ [] ∧ rank it.key = rank key
  · -- the key is the separator of the child itself
    have hjs1 : 1 ≤ js.length := List.length_pos_iff.mpr heq.1
    have hz : cmp it.key key = 0 := (hcmp.zero_iff _ _).mpr heq.2
    have hpos : (lowerBound (fun i => compareAt cmp node.items key (i + 1))
        (node.items.length - 1)).1 = js.length - 1 := by
      refine hspec.eq (by omega) (fun i hi => hbefore i (by omega)) fun _ => ?_
      rw [Nat.sub_add_cancel hjs1, hown, hz]
    have hget : node.items[js.length]? = some it := by simp [hitems]
    simp only [hpos, Nat.sub_add_cancel hjs1, hget]
    have hnot : ¬ cmp key it.key < 0 := by rw [hcmp.neg_iff, heq.2]; exact lt_irrefl _
    rw [if_neg hnot]
    exact ⟨rfl, fun hne => absurd heq.2 (hne heq.1)⟩
  · have hpos : (lowerBound (fun i => compareAt cmp node.items key (i + 1))
        (node.items.length - 1)).1 = js.length := by
      refine hspec.eq (by omega) (fun i hi => ?_) fun hlt => ?_
      · by_cases hi' : i + 1 < js.length
        · exact hbefore i hi'
        · have hne : js ≠ [] := by rintro rfl; simp at hi
          rw [show i + 1 = js.length by omega, hown, hcmp.neg_iff]
          exact lt_of_le_of_ne (hit hne) fun hc => heq ⟨hne, hc⟩
      · exact (hafter _ (by omega) (by omega)).le
    simp only [hpos]
    cases hget : node.items[js.length + 1]? with
    | none => exact ⟨rfl, fun _ => rfl⟩
    | some item =>
      have hlt : js.length + 1 < node.items.length := (List.getElem?_eq_some_iff.mp hget).1
      have hc := hafter (js.length + 1) (by omega) hlt
      rw [compareAt, hget] at hc
      have hneg : cmp key item.key < 0 := by
        rw [hcmp.neg_iff]
        exact (hcmp.pos_iff _ _).mp hc
      simp [hneg]

/-- In a node of the tree this is the child whose interval contains the key. -/
theorem InternalIndexNodeHandler.lookup_eq (hcmp : RankedBy cmp rank)
    (h : TreeInv rank v g hole) {p : PageNum} (hp : g.dom p) (hl : g.lvl p ≠ 0)
    {js ks : List (Item κ)} {it : Item κ} (hitems : (v.node p).items = js ++ it :: ks)
    (hlo : g.lo it.child ≤ at_ (rank key)) (hhi : at_ (rank key) < g.cov hole it.child) :
    (lookup cmp (v.node p) key).1 = js.length := by
  obtain ⟨hjs, hks⟩ := h.seps_around hp hl hitems
  refine (lookup_of_seps hcmp hitems (h.seps_sorted hp hl) ?_ ?_ ?_).1
  · exact fun a ha => at_lt_at.mp ((hjs a ha).trans_le hlo)
  · exact fun hne => at_le_at.mp (h.key_eq_lo hp hl hitems hne ▸ hlo)
  · exact fun b hb => at_lt_at.mp (hhi.trans_le (hks b hb))

end ObHtap
