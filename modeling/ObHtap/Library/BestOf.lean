import Mathlib.Data.List.Perm.Subperm

/-!
# The best of a list

One element of a list after the other is compared with the best so far, and takes its place when it
is better.  Nothing is said of the comparison; the result is the same in every order of the elements
only where it singles one of them out.
-/

namespace ObHtap

namespace BestOf

variable {α ε : Type*} (better : α → α → Except ε Bool)

/-- The better of the two; `best` stays if the other one is no better. -/
def choose (best a : α) : Except ε α :=
  (better a best).map fun isBetter => if isBetter then a else best

/-- The best of a list that has a first element. -/
def bestOf (a : α) (l : List α) : Except ε α :=
  l.foldlM (choose better) a

/-- Any two elements are compared without an error. -/
def Compares (l : List α) : Prop :=
  ∀ a b, [a, b].Subperm l → ∃ isBetter, better a b = .ok isBetter

/-- An element is better than all that differ from it, and none of them is better. -/
def Singles (l : List α) (m : α) : Prop :=
  m ∈ l ∧ ∀ a ∈ l, a ≠ m → better m a = .ok true ∧ better a m = .ok false

variable {better} {a b m best r : α} {l l' : List α}

theorem choose_of_ok {isBetter : Bool} (h : better a best = .ok isBetter) :
    choose better best a = .ok (if isBetter then a else best) := by
  unfold choose
  rw [h]
  rfl

theorem choose_eq_ok (h : choose better best a = .ok r) :
    ∃ isBetter, better a best = .ok isBetter ∧ r = if isBetter then a else best := by
  unfold choose at h
  cases hbetter : better a best with
  | error e =>
    rw [hbetter] at h
    cases h
  | ok isBetter =>
    rw [hbetter] at h
    exact ⟨isBetter, rfl, (Except.ok.inj h).symm⟩

theorem bestOf_cons (a b : α) (l : List α) :
    bestOf better a (b :: l) = choose better a b >>= fun best => bestOf better best l :=
  List.foldlM_cons

theorem bestOf_cons_eq_ok (h : bestOf better a (b :: l) = .ok r) :
    ∃ isBetter, better b a = .ok isBetter ∧
      bestOf better (if isBetter then b else a) l = .ok r := by
  rw [bestOf_cons] at h
  cases hchoose : choose better a b with
  | error e =>
    rw [hchoose] at h
    cases h
  | ok best =>
    obtain ⟨isBetter, hbetter, rfl⟩ := choose_eq_ok hchoose
    rw [hchoose] at h
    exact ⟨isBetter, hbetter, h⟩

theorem mem_of_bestOf (h : bestOf better a l = .ok r) : r ∈ a :: l := by
  induction l generalizing a with
  | nil =>
    cases h
    exact List.mem_singleton_self _
  | cons b l ih =>
    obtain ⟨isBetter, -, hrest⟩ := bestOf_cons_eq_ok h
    have hmem := ih hrest
    cases isBetter with
    | true => exact List.mem_cons_of_mem a hmem
    | false => exact List.cons_subset_cons a (List.subset_cons_self b l) hmem

/-! ## Sufficiency -/

/-- Once the element that is singled out has come, it stays. -/
theorem bestOf_of_best (hall : ∀ b ∈ l, b ≠ m → better b m = .ok false)
    (hself : ∀ b ∈ l, b = m → ∃ isBetter, better b m = .ok isBetter) :
    bestOf better m l = .ok m := by
  induction l with
  | nil => rfl
  | cons b l ih =>
    have hrest := ih (fun c hc => hall c (List.mem_cons_of_mem b hc))
      (fun c hc => hself c (List.mem_cons_of_mem b hc))
    rw [bestOf_cons]
    by_cases hb : b = m
    · obtain ⟨isBetter, hbetter⟩ := hself b List.mem_cons_self hb
      rw [choose_of_ok hbetter, hb, ite_self]
      exact hrest
    · rw [choose_of_ok (hall b List.mem_cons_self hb)]
      exact hrest

theorem Compares.of_subperm (h : Compares better l) (hsub : l'.Subperm l) : Compares better l' :=
  fun a b hab => h a b (hab.trans hsub)

theorem Compares.head (h : Compares better (a :: l)) (hb : b ∈ l) :
    (∃ isBetter, better a b = .ok isBetter) ∧ ∃ isBetter, better b a = .ok isBetter := by
  have hpair : [a, b].Subperm (a :: l) := (List.singleton_sublist.mpr hb).cons_cons a |>.subperm
  exact ⟨h a b hpair, h b a ((List.Perm.swap a b []).subperm.trans hpair)⟩

/-- By induction on the list: the element that is singled out is the next one, or is still to
come. -/
theorem bestOf_of_singles (hcompares : Compares better (a :: l)) (h : Singles better (a :: l) m) :
    bestOf better a l = .ok m := by
  induction l generalizing a with
  | nil =>
    obtain rfl := List.mem_singleton.mp h.1
    rfl
  | cons b l ih =>
    by_cases ha : a = m
    · subst ha
      exact bestOf_of_best (fun c hc hne => (h.2 c (List.mem_cons_of_mem a hc) hne).2)
        fun c hc _ => (hcompares.head hc).2
    · have hm : m ∈ b :: l := List.mem_of_ne_of_mem (Ne.symm ha) h.1
      obtain ⟨isBetter, hbetter⟩ := (hcompares.head List.mem_cons_self).2
      rw [bestOf_cons, choose_of_ok hbetter]
      cases isBetter with
      | true =>
        exact ih (hcompares.of_subperm (List.sublist_cons_self a _).subperm)
          ⟨hm, fun c hc => h.2 c (List.mem_cons_of_mem a hc)⟩
      | false =>
        have hsub : (a :: l).Sublist (a :: b :: l) := (List.sublist_cons_self b l).cons_cons a
        refine ih (hcompares.of_subperm hsub.subperm) ⟨?_, fun c hc => h.2 c (hsub.subset hc)⟩
        -- the element that is singled out would have been better
        refine List.mem_cons_of_mem a (List.mem_of_ne_of_mem ?_ hm)
        rintro rfl
        obtain ⟨hwins, -⟩ := h.2 a List.mem_cons_self ha
        cases hbetter.symm.trans hwins

/-! ## Necessity -/

/-- The elements before the last copy of one are of no use to the others. -/
theorem not_mem_of_bestOf (h : bestOf better a l = .ok r) (ha : a ≠ r) (hl : r ∉ l) : False :=
  (List.mem_cons.mp (mem_of_bestOf h)).elim (fun heq => ha heq.symm) hl

theorem bestOf_replicate {n : Nat} {rest : List α}
    (h : bestOf better a (List.replicate n a ++ rest) = .ok r) : bestOf better a rest = .ok r := by
  induction n with
  | zero => exact h
  | succ n ih =>
    obtain ⟨isBetter, -, hrest⟩ := bestOf_cons_eq_ok h
    rw [ite_self] at hrest
    exact ih hrest

/-- In front of the copies of the result nothing else may stand that keeps its place. -/
theorem better_of_bestOf {n : Nat} {rest : List α} (hne : a ≠ r) (hrest : r ∉ rest)
    (h : bestOf better a (List.replicate (n + 1) r ++ rest) = .ok r) : better r a = .ok true := by
  have hkeep : ∀ n, better r a = .ok false →
      bestOf better a (List.replicate n r ++ rest) = .ok r → False := by
    intro n hloses
    induction n with
    | zero => exact fun h => not_mem_of_bestOf h hne hrest
    | succ n ih =>
      intro h
      obtain ⟨isBetter, hbetter, htail⟩ := bestOf_cons_eq_ok h
      cases hbetter.symm.trans hloses
      exact ih htail
  obtain ⟨isBetter, hbetter, -⟩ := bestOf_cons_eq_ok h
  cases isBetter with
  | true => exact hbetter
  | false => exact (hkeep (n + 1) hbetter h).elim

/-- The result is the same in every order exactly if one element is singled out. -/
theorem bestOf_perm_iff (hpos : l ≠ []) :
    (∃ r, ∀ a l', (a :: l').Perm l → bestOf better a l' = .ok r) ↔
      Compares better l ∧ ∃ m, Singles better l m := by
  classical
  constructor
  · rintro ⟨r, hall⟩
    have hcompares : Compares better l := by
      intro a b hab
      obtain ⟨pair, hpair, hsub⟩ := hab
      obtain ⟨rest, hrest⟩ := hsub.exists_perm_append
      have hswap : (b :: a :: rest).Perm l :=
        ((hpair.trans (List.Perm.swap b a [])).symm.append_right rest).trans hrest.symm
      obtain ⟨isBetter, hbetter, -⟩ := bestOf_cons_eq_ok (hall b (a :: rest) hswap)
      exact ⟨isBetter, hbetter⟩
    have hr : r ∈ l := by
      cases l with
      | nil => exact absurd rfl hpos
      | cons a l => exact mem_of_bestOf (hall a l (.refl _))
    refine ⟨hcompares, r, hr, fun a ha hne => ?_⟩
    -- the copies of the result, an element that differs, and the rest
    obtain ⟨n, hn⟩ : ∃ n, l.count r = n + 1 :=
      Nat.exists_eq_succ_of_ne_zero (Nat.pos_iff_ne_zero.mp (List.count_pos_iff.mpr hr))
    let others := (l.filter (· ≠ r)).erase a
    have hothers : r ∉ others := fun hmem => by
      simpa using List.mem_filter.mp (List.mem_of_mem_erase hmem)
    have hsplit : (List.replicate (n + 1) r ++ a :: others).Perm l := by
      have hfilter := List.filter_append_perm (· = r) l
      have hcopies : l.filter (· = r) = List.replicate (n + 1) r := by
        rw [← hn, List.filter_eq]
      have hmem : a ∈ l.filter (· ≠ r) := List.mem_filter.mpr ⟨ha, by simpa using hne⟩
      rw [hcopies] at hfilter
      refine (List.Perm.append_left _ (List.perm_cons_erase hmem).symm).trans ?_
      simpa using hfilter
    constructor
    · exact better_of_bestOf hne hothers (hall a _ (List.perm_middle.symm.trans hsplit))
    · have hrun := bestOf_replicate (hall r (List.replicate n r ++ a :: others) hsplit)
      obtain ⟨isBetter, hbetter, htail⟩ := bestOf_cons_eq_ok hrun
      cases isBetter with
      | false => exact hbetter
      | true => exact (not_mem_of_bestOf htail hne hothers).elim
  · rintro ⟨hcompares, m, hm, hsingle⟩
    refine ⟨m, fun a l' hperm => ?_⟩
    exact bestOf_of_singles (hcompares.of_subperm hperm.subperm)
      ⟨hperm.mem_iff.mpr hm, fun c hc => hsingle c (hperm.mem_iff.mp hc)⟩

end BestOf

end ObHtap
