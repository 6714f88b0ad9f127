import Mathlib.Data.List.Basic

/-!
# Loops that a failure ends

What an element of the result says about the element that the loop took.
-/

namespace ObHtap

theorem ok_bind {ε α β : Type} (a : α) (f : α → Except ε β) :
    ((.ok a : Except ε α) >>= f) = f a := rfl

theorem bind_eq_ok {ε α β : Type} {x : Except ε α} {f : α → Except ε β} {b : β}
    (h : (x >>= f) = .ok b) : ∃ a, x = .ok a ∧ f a = .ok b := by
  cases x with
  | error e => cases h
  | ok a => exact ⟨a, rfl, h⟩

theorem bind_error {ε α β : Type} {x : Except ε α} {f : α → Except ε β} {e : ε}
    (h : (x >>= f) = .error e) : x = .error e ∨ ∃ a, x = .ok a ∧ f a = .error e := by
  cases x with
  | error e' =>
    cases h
    exact Or.inl rfl
  | ok a => exact Or.inr ⟨a, rfl, h⟩

theorem map_eq_ok {ε α β : Type} {x : Except ε α} {f : α → β} {b : β} (h : x.map f = .ok b) :
    ∃ a, x = .ok a ∧ f a = b := by
  cases x with
  | error e => cases h
  | ok a => exact ⟨a, rfl, Except.ok.inj h⟩

section

variable {ε α β : Type} {f : α → Except ε β} {l : List α} {l' : List β}

theorem length_of_mapM (h : l.mapM f = .ok l') : l'.length = l.length := by
  induction l generalizing l' with
  | nil =>
    cases h
    rfl
  | cons head l ih =>
    rw [List.mapM_cons] at h
    obtain ⟨b, -, h⟩ := bind_eq_ok h
    obtain ⟨tail, htail, heq⟩ := bind_eq_ok h
    cases heq
    exact congrArg Nat.succ (ih htail)

theorem getElem?_of_mapM {i : Nat} {a : α} (h : l.mapM f = .ok l') (ha : l[i]? = some a) :
    ∃ b, f a = .ok b ∧ l'[i]? = some b := by
  induction l generalizing l' i with
  | nil => cases ha
  | cons head l ih =>
    rw [List.mapM_cons] at h
    obtain ⟨b, hb, h⟩ := bind_eq_ok h
    obtain ⟨tail, htail, heq⟩ := bind_eq_ok h
    cases heq
    cases i with
    | zero =>
      cases ha
      exact ⟨b, hb, rfl⟩
    | succ i =>
      obtain ⟨b', hb', hi⟩ := ih htail ha
      exact ⟨b', hb', hi⟩

/-- A loop whose steps give a value each gives all of them. -/
theorem mapM_eq_ok_map {g : α → β} (h : ∀ a ∈ l, f a = .ok (g a)) : l.mapM f = .ok (l.map g) := by
  induction l with
  | nil => rfl
  | cons a l ih =>
    obtain ⟨hhead, htail⟩ := List.forall_mem_cons.mp h
    rw [List.mapM_cons, hhead, ih htail]
    rfl

theorem mapM_of_forall (h : ∀ a ∈ l, ∃ b, f a = .ok b) : ∃ l', l.mapM f = .ok l' := by
  induction l with
  | nil => exact ⟨[], rfl⟩
  | cons a l ih =>
    obtain ⟨⟨b, hb⟩, hrest⟩ := List.forall_mem_cons.mp h
    obtain ⟨l', hl'⟩ := ih hrest
    rw [List.mapM_cons, hb, hl']
    exact ⟨b :: l', rfl⟩

theorem ok_of_mem_mapM {a : α} (h : l.mapM f = .ok l') (ha : a ∈ l) : ∃ b, f a = .ok b := by
  obtain ⟨i, hi⟩ := List.mem_iff_getElem?.mp ha
  obtain ⟨b, hb, -⟩ := getElem?_of_mapM h hi
  exact ⟨b, hb⟩

theorem of_mem_mapM {b : β} (h : l.mapM f = .ok l') (hb : b ∈ l') : ∃ a ∈ l, f a = .ok b := by
  obtain ⟨i, hi⟩ := List.mem_iff_getElem?.mp hb
  have hlt : i < l.length := by
    rw [← length_of_mapM h]
    exact (List.getElem?_eq_some_iff.mp hi).1
  obtain ⟨b', hb', hi'⟩ := getElem?_of_mapM h (List.getElem?_eq_getElem hlt)
  obtain rfl : b' = b := Option.some.inj (hi'.symm.trans hi)
  exact ⟨l[i], List.getElem_mem hlt, hb'⟩

end

/-- A loop over the indices below a bound, each of which changes the element at it: it leaves what
the change gives at each of them, and the rest of the list as it was. -/
theorem getElem?_of_foldlM_range {ε α : Type} {step : List α → Nat → Except ε (List α)}
    (change : Nat → α → Except ε α) {n : Nat} {l l' : List α}
    (hstep : ∀ l l' i, step l i = .ok l' →
      ∃ a a', l[i]? = some a ∧ change i a = .ok a' ∧ l' = l.set i a')
    (h : (List.range n).foldlM step l = .ok l') (i : Nat) :
    if i < n then ∃ a a', l[i]? = some a ∧ change i a = .ok a' ∧ l'[i]? = some a'
    else l'[i]? = l[i]? := by
  induction n generalizing l' with
  | zero =>
    cases h
    rfl
  | succ n ih =>
    rw [List.range_succ, List.foldlM_append] at h
    obtain ⟨before, hbefore, h⟩ := bind_eq_ok h
    rw [List.foldlM_cons] at h
    obtain ⟨after, hafter, heq⟩ := bind_eq_ok h
    cases heq
    have hi := ih hbefore
    obtain ⟨a, a', ha, hchange, rfl⟩ := hstep before l' n hafter
    rcases Nat.lt_trichotomy i n with hlt | rfl | hgt
    · rw [if_pos hlt] at hi
      rw [if_pos (by omega), List.getElem?_set_ne (by omega)]
      exact hi
    · rw [if_neg (by omega)] at hi
      rw [if_pos (by omega)]
      have hlt : i < before.length := (List.getElem?_eq_some_iff.mp ha).1
      exact ⟨a, a', hi ▸ ha, hchange, List.getElem?_set_self hlt⟩
    · rw [if_neg (by omega)] at hi
      rw [if_neg (by omega), List.getElem?_set_ne (by omega)]
      exact hi

end ObHtap
