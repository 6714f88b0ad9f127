import Mathlib.Data.List.Perm.Basic
import Mathlib.Order.Basic
import Mathlib.Order.Lattice

/-!
# Priority queues

A queue is the list of what is in it, in any order.  On top is an element with none above it; which
one, of several that are as large, is left open.
-/

namespace ObHtap

variable {α K : Type*}

/-- `x` is on top, and `rest` is what is left when it is popped. -/
structure PopsTop (less : α → α → Prop) (queue : List α) (x : α) (rest : List α) : Prop where
  perm : queue.Perm (x :: rest)
  top : ∀ y ∈ queue, ¬ less x y

/-- The elements in the order in which they are popped. -/
inductive Drains (less : α → α → Prop) : List α → List α → Prop where
  | nil : Drains less [] []
  | cons {queue x rest xs} : PopsTop less queue x rest → Drains less rest xs →
      Drains less queue (x :: xs)

/-- An element comes to a queue that keeps the smallest ones, `limit` of them at most.  `none` is
for the top of an empty queue. -/
inductive Offers (less : α → α → Prop) (limit : Nat) (x : α) : List α → Option (List α) → Prop where
  | room {queue} : queue.length < limit → Offers less limit x queue (some (x :: queue))
  | empty : limit = 0 → Offers less limit x [] none
  | replaces {queue top rest} : ¬ queue.length < limit → PopsTop less queue top rest →
      less x top → Offers less limit x queue (some (x :: rest))
  | keeps {queue top rest} : ¬ queue.length < limit → PopsTop less queue top rest →
      ¬ less x top → Offers less limit x queue (some queue)

/-- One element after the other comes. -/
inductive OffersAll (less : α → α → Prop) (limit : Nat) :
    List α → List α → Option (List α) → Prop where
  | nil {queue} : OffersAll less limit [] queue (some queue)
  | fails {x xs queue} : Offers less limit x queue none → OffersAll less limit (x :: xs) queue none
  | cons {x xs queue queue' answer} : Offers less limit x queue (some queue') →
      OffersAll less limit xs queue' answer → OffersAll less limit (x :: xs) queue answer

variable {less : α → α → Prop} {key : α → K} {limit : Nat} {x : α} {xs seen queue rest : List α}
  {answer : Option (List α)}

section

variable (less) [IsStrictOrder α less]

theorem exists_popsTop (h : queue ≠ []) : ∃ x rest, PopsTop less queue x rest := by
  obtain ⟨x, hx, htop⟩ : ∃ x ∈ queue, ∀ y ∈ queue, ¬ less x y := by
    induction queue with
    | nil => exact absurd rfl h
    | cons x queue ih =>
      rcases eq_or_ne queue [] with rfl | hne
      · exact ⟨x, List.mem_singleton_self x, by simpa using irrefl_of less x⟩
      obtain ⟨top, hmem, htop⟩ := ih hne
      by_cases hx : less top x
      · have hlater : ∀ y ∈ queue, ¬ less x y := fun y hy hlt =>
          htop y hy (trans_of less hx hlt)
        exact ⟨x, List.mem_cons_self, List.forall_mem_cons.mpr ⟨irrefl_of less x, hlater⟩⟩
      · exact ⟨top, List.mem_cons_of_mem x hmem, List.forall_mem_cons.mpr ⟨hx, htop⟩⟩
  obtain ⟨front, back, rfl⟩ := List.append_of_mem hx
  exact ⟨x, front ++ back, List.perm_middle, htop⟩

theorem exists_drains (queue : List α) : ∃ xs, Drains less queue xs := by
  induction hn : queue.length generalizing queue with
  | zero =>
    obtain rfl := List.eq_nil_of_length_eq_zero hn
    exact ⟨[], .nil⟩
  | succ n ih =>
    obtain ⟨x, rest, hpop⟩ := exists_popsTop less (List.ne_nil_of_length_eq_add_one hn)
    have hlength := hpop.perm.length_eq
    rw [List.length_cons] at hlength
    obtain ⟨xs, hdrains⟩ := ih rest (by omega)
    exact ⟨x :: xs, .cons hpop hdrains⟩

theorem exists_offers (limit : Nat) (x : α) (queue : List α) :
    ∃ answer, Offers less limit x queue answer := by
  by_cases hroom : queue.length < limit
  · exact ⟨_, .room hroom⟩
  rcases eq_or_ne queue [] with rfl | hne
  · exact ⟨_, .empty (by simpa using hroom)⟩
  obtain ⟨top, rest, hpop⟩ := exists_popsTop less hne
  by_cases hx : less x top
  · exact ⟨_, .replaces hroom hpop hx⟩
  · exact ⟨_, .keeps hroom hpop hx⟩

theorem exists_offersAll (limit : Nat) (xs queue : List α) :
    ∃ answer, OffersAll less limit xs queue answer := by
  induction xs generalizing queue with
  | nil => exact ⟨_, .nil⟩
  | cons x xs ih =>
    obtain ⟨answer, hoffers⟩ := exists_offers less limit x queue
    cases answer with
    | none => exact ⟨none, .fails hoffers⟩
    | some queue' =>
      obtain ⟨answer, hall⟩ := ih queue'
      exact ⟨answer, .cons hoffers hall⟩

end

/-- Elements are popped in any order in which none is below a later one. -/
theorem drains_iff [IsStrictOrder α less] :
    Drains less queue xs ↔ queue.Perm xs ∧ xs.Pairwise fun x y => ¬ less x y := by
  constructor
  · intro h
    induction h with
    | nil => exact ⟨.refl _, .nil⟩
    | cons hpop hdrains ih =>
      obtain ⟨hperm, hsorted⟩ := ih
      refine ⟨hpop.perm.trans (hperm.cons _), List.pairwise_cons.mpr ⟨fun y hy => ?_, hsorted⟩⟩
      apply hpop.top
      exact hpop.perm.mem_iff.mpr (List.mem_cons_of_mem _ (hperm.mem_iff.mpr hy))
  · rintro ⟨hperm, hsorted⟩
    induction xs generalizing queue with
    | nil =>
      obtain rfl := hperm.eq_nil
      exact .nil
    | cons x xs ih =>
      obtain ⟨hhead, htail⟩ := List.pairwise_cons.mp hsorted
      refine .cons ⟨hperm, fun y hy => ?_⟩ (ih (.refl _) htail)
      rcases List.mem_cons.mp (hperm.mem_iff.mp hy) with rfl | hmem
      · exact irrefl_of less y
      · exact hhead y hmem

section

variable [LinearOrder K]

/-- `less` compares the keys of some elements. -/
def ComparesKeys (less : α → α → Prop) (key : α → K) (S : Set α) : Prop :=
  ∀ x ∈ S, ∀ y ∈ S, less x y ↔ key x < key y

/-- A queue has the `limit` elements with the smallest keys of those seen. -/
structure KeepsSmallest (key : α → K) (limit : Nat) (seen queue dropped : List α) : Prop where
  perm : seen.Perm (queue ++ dropped)
  length : queue.length = min limit seen.length
  smallest : ∀ x ∈ queue, ∀ y ∈ dropped, key x ≤ key y

theorem PopsTop.mem (h : PopsTop less queue x rest) : x ∈ queue :=
  h.perm.mem_iff.mpr List.mem_cons_self

theorem PopsTop.mem_of_rest {y : α} (h : PopsTop less queue x rest) (hy : y ∈ rest) : y ∈ queue :=
  h.perm.mem_iff.mpr (List.mem_cons_of_mem x hy)

variable {S : Set α}

theorem PopsTop.key_le (hless : ComparesKeys less key S) (hqueue : ∀ y ∈ queue, y ∈ S)
    (h : PopsTop less queue x rest) : ∀ y ∈ queue, key y ≤ key x :=
  fun y hy => not_lt.mp (mt (hless x (hqueue x h.mem) y (hqueue y hy)).mpr (h.top y hy))

/-- What comes and is dropped is no smaller than what is kept: it is no smaller than the top. -/
theorem Offers.keepsSmallest (hless : ComparesKeys less key S) (hlimit : 0 < limit) (hx : x ∈ S)
    (hseen : ∀ y ∈ seen, y ∈ S) {dropped : List α}
    (hkeeps : KeepsSmallest key limit seen queue dropped)
    (h : Offers less limit x queue answer) :
    ∃ queue' dropped', answer = some queue' ∧
      KeepsSmallest key limit (x :: seen) queue' dropped' := by
  have hlength := hkeeps.length
  have hsplit := hkeeps.perm.length_eq
  rw [List.length_append] at hsplit
  have hqueue : ∀ y ∈ queue, y ∈ S := fun y hy =>
    hseen y (hkeeps.perm.mem_iff.mpr (List.mem_append_left dropped hy))
  cases h with
  | room hroom =>
    have hnone : dropped = [] := List.eq_nil_of_length_eq_zero (by omega)
    subst hnone
    refine ⟨_, [], rfl, hkeeps.perm.cons x, ?_, fun _ _ _ hy => absurd hy List.not_mem_nil⟩
    rw [List.length_cons, List.length_cons]
    omega
  | empty hzero => exact absurd hzero (Nat.pos_iff_ne_zero.mp hlimit)
  | @replaces _ top rest hfull hpop hlt =>
    have hrest := hpop.perm.length_eq
    rw [List.length_cons] at hrest
    refine ⟨x :: rest, top :: dropped, rfl, ?_, ?_, fun y hy z hz => ?_⟩
    · refine (hkeeps.perm.trans (hpop.perm.append_right dropped)).cons x |>.trans ?_
      exact List.perm_middle.symm.cons x
    · rw [List.length_cons, List.length_cons]
      omega
    · have htop : key y ≤ key top := by
        rcases List.mem_cons.mp hy with rfl | hmem
        · exact ((hless y hx top (hqueue top hpop.mem)).mp hlt).le
        · exact hpop.key_le hless hqueue y (hpop.mem_of_rest hmem)
      rcases List.mem_cons.mp hz with rfl | hmem
      · exact htop
      · exact htop.trans (hkeeps.smallest top hpop.mem z hmem)
  | @keeps _ top rest hfull hpop hle =>
    refine ⟨queue, x :: dropped, rfl, ?_, ?_, fun y hy z hz => ?_⟩
    · exact (hkeeps.perm.cons x).trans List.perm_middle.symm
    · rw [List.length_cons]
      omega
    · rcases List.mem_cons.mp hz with rfl | hmem
      · have hcompare := hless z hx top (hqueue top hpop.mem)
        exact (hpop.key_le hless hqueue y hy).trans (not_lt.mp (mt hcompare.mpr hle))
      · exact hkeeps.smallest y hy z hmem

theorem OffersAll.keepsSmallest (hless : ComparesKeys less key S) (hlimit : 0 < limit)
    (hxs : ∀ x ∈ xs, x ∈ S) (hseen : ∀ y ∈ seen, y ∈ S) {dropped : List α}
    (hkeeps : KeepsSmallest key limit seen queue dropped)
    (h : OffersAll less limit xs queue answer) :
    ∃ queue' dropped', answer = some queue' ∧
      KeepsSmallest key limit (xs.reverse ++ seen) queue' dropped' := by
  induction h generalizing seen dropped with
  | nil => exact ⟨_, dropped, rfl, hkeeps⟩
  | fails hoffers =>
    have hx := (List.forall_mem_cons.mp hxs).1
    obtain ⟨_, _, hnone, -⟩ := hoffers.keepsSmallest hless hlimit hx hseen hkeeps
    cases hnone
  | @cons x xs _ _ _ hoffers _ ih =>
    obtain ⟨hx, hxs⟩ := List.forall_mem_cons.mp hxs
    obtain ⟨_, _, hsome, hstep⟩ := hoffers.keepsSmallest hless hlimit hx hseen hkeeps
    cases hsome
    rw [List.reverse_cons, List.append_assoc, List.singleton_append]
    exact ih hxs (List.forall_mem_cons.mpr ⟨hx, hseen⟩) hstep

/-- From an empty queue, the elements with the smallest keys are kept. -/
theorem OffersAll.smallest (hless : ComparesKeys less key S) (hlimit : 0 < limit)
    (hxs : ∀ x ∈ xs, x ∈ S) (h : OffersAll less limit xs [] answer) :
    ∃ queue dropped, answer = some queue ∧ KeepsSmallest key limit xs queue dropped := by
  have hstart : KeepsSmallest key limit ([] : List α) [] [] :=
    ⟨.refl _, (Nat.min_eq_right limit.zero_le).symm, fun _ hx => absurd hx List.not_mem_nil⟩
  obtain ⟨queue, dropped, hanswer, hkeeps⟩ :=
    h.keepsSmallest hless hlimit hxs (fun _ hx => absurd hx List.not_mem_nil) hstart
  rw [List.append_nil] at hkeeps
  refine ⟨queue, dropped, hanswer, (List.reverse_perm xs).symm.trans hkeeps.perm, ?_,
    hkeeps.smallest⟩
  rw [hkeeps.length, List.length_reverse]

end

/-- A queue without room looks at the top of an empty one. -/
theorem OffersAll.none_of_zero (hxs : xs ≠ []) (h : OffersAll less 0 xs [] answer) :
    answer = none := by
  cases h with
  | nil => exact absurd rfl hxs
  | fails _ => rfl
  | cons hoffers _ =>
    cases hoffers with
    | room hroom => exact absurd hroom (Nat.not_lt_zero _)
    | replaces _ hpop _ | keeps _ hpop _ =>
      exact absurd hpop.perm.symm.eq_nil (List.cons_ne_nil _ _)

end ObHtap
