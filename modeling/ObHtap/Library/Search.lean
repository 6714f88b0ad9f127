import Mathlib.Data.Bool.Basic
import ObHtap.Library.Loop

/-!
# Searches

A loop that ends at the first element with the answer it looks for.
-/

namespace ObHtap

section

variable {ε α : Type} (stop : Bool) (f : α → Except ε Bool)

/-- The answer `stop` of the first element that has it, and the other one behind the last. -/
def search : List α → Except ε Bool
  | [] => .ok !stop
  | a :: l => do if (← f a) = stop then .ok stop else search l

/-- What a search needs for an answer: no element before the one that it ends at fails. -/
def Decided (l : List α) (b : Bool) : Prop :=
  if b = stop then ∃ before a after, l = before ++ a :: after ∧ f a = .ok stop ∧
    ∀ a ∈ before, f a = .ok !stop
  else ∀ a ∈ l, f a = .ok !stop

variable {stop : Bool} {f : α → Except ε Bool} {a : α} {l : List α}

theorem search_stop (ha : f a = .ok stop) : search stop f (a :: l) = .ok stop := by
  rw [search, ha]
  exact if_pos rfl

theorem search_next (ha : f a = .ok !stop) : search stop f (a :: l) = search stop f l := by
  rw [search, ha]
  exact if_neg (Bool.not_ne_self stop)

theorem search_error {e : ε} (ha : f a = .error e) : search stop f (a :: l) = .error e := by
  rw [search, ha]
  rfl

theorem search_congr {g : α → Except ε Bool} (h : ∀ a ∈ l, f a = g a) :
    search stop f l = search stop g l := by
  induction l with
  | nil => rfl
  | cons head l ih =>
    obtain ⟨ha, hl⟩ := List.forall_mem_cons.mp h
    rw [search, search, ha, ih hl]

theorem cases_answer (stop : Bool) (result : Except ε Bool) :
    result = .ok stop ∨ result = .ok (!stop) ∨ ∃ e, result = .error e := by
  cases result with
  | error e => exact Or.inr (Or.inr ⟨e, rfl⟩)
  | ok b =>
    cases b <;> cases stop
    · exact Or.inl rfl
    · exact Or.inr (Or.inl rfl)
    · exact Or.inr (Or.inl rfl)
    · exact Or.inl rfl

theorem search_singleton (a : α) : search stop f [a] = f a := by
  rcases cases_answer stop (f a) with ha | ha | ⟨e, ha⟩
  · rw [search_stop ha, ha]
  · rw [search_next ha, ha]
    rfl
  · rw [search_error ha, ha]

theorem search_eq_stop : search stop f l = .ok stop ↔
    ∃ before a after, l = before ++ a :: after ∧ f a = .ok stop ∧
      ∀ a ∈ before, f a = .ok !stop := by
  induction l with
  | nil =>
    refine iff_of_false (fun h => Bool.not_ne_self stop (Except.ok.inj h)) ?_
    rintro ⟨before, a, after, h, -⟩
    exact absurd h (List.append_ne_nil_of_right_ne_nil _ (List.cons_ne_nil _ _)).symm
  | cons head l ih =>
    simp only [List.cons_eq_append_iff]
    rcases cases_answer stop (f head) with ha | ha | ⟨e, ha⟩
    · rw [search_stop ha]
      exact iff_of_true rfl ⟨[], head, l, Or.inl ⟨rfl, rfl⟩, ha, nofun⟩
    · rw [search_next ha, ih]
      constructor
      · rintro ⟨before, a, after, rfl, hstop, hbefore⟩
        exact ⟨head :: before, a, after, Or.inr ⟨before, rfl, rfl⟩, hstop,
          List.forall_mem_cons.mpr ⟨ha, hbefore⟩⟩
      · rintro ⟨before, a, after, ⟨-, h⟩ | ⟨before', rfl, hl⟩, hstop, hbefore⟩
        · rw [(List.cons.inj h).1, ha] at hstop
          exact absurd (Except.ok.inj hstop) (Bool.not_ne_self stop)
        · exact ⟨before', a, after, hl, hstop, (List.forall_mem_cons.mp hbefore).2⟩
    · rw [search_error ha]
      refine iff_of_false nofun ?_
      rintro ⟨before, a, after, ⟨-, h⟩ | ⟨before', rfl, -⟩, hstop, hbefore⟩
      · rw [(List.cons.inj h).1, ha] at hstop
        cases hstop
      · cases ha.symm.trans (hbefore head (List.mem_cons_self ..))

theorem search_eq_not : search stop f l = .ok (!stop) ↔ ∀ a ∈ l, f a = .ok !stop := by
  induction l with
  | nil => exact iff_of_true rfl nofun
  | cons head l ih =>
    rw [List.forall_mem_cons]
    rcases cases_answer stop (f head) with ha | ha | ⟨e, ha⟩
    · rw [search_stop ha, ha]
      have hne : (Except.ok stop : Except ε Bool) ≠ .ok !stop := fun h =>
        Bool.not_ne_self stop (Except.ok.inj h).symm
      exact iff_of_false hne fun h => hne h.1
    · rw [search_next ha, ih, and_iff_right ha]
    · rw [search_error ha, ha]
      exact iff_of_false nofun fun h => nomatch h.1

theorem search_eq_error {e : ε} (h : search stop f l = .error e) : ∃ a ∈ l, f a = .error e := by
  induction l with
  | nil => cases h
  | cons head l ih =>
    rcases cases_answer stop (f head) with ha | ha | ⟨e', ha⟩
    · cases (search_stop ha).symm.trans h
    · obtain ⟨a, hmem, ha⟩ := ih ((search_next ha).symm.trans h)
      exact ⟨a, List.mem_cons_of_mem head hmem, ha⟩
    · cases (search_error ha).symm.trans h
      exact ⟨head, List.mem_cons_self .., ha⟩

theorem search_eq_ok {b : Bool} : search stop f l = .ok b ↔ Decided stop f l b := by
  unfold Decided
  split_ifs with h
  · rw [h, search_eq_stop]
  · rw [(Bool.eq_not_of_ne h : b = !stop), search_eq_not]

end

end ObHtap
