import Mathlib.Data.List.Basic

/-!
# Runs

Lists of steps from one state to another, and what holds along them.
-/

namespace ObHtap

/-! ## Runs of a partial step function

A step may end the program.  A run goes through a list of steps that are all defined, each of
them taken where a condition holds. -/

section

variable {σ α : Type} {step : σ → α → Option σ} {C D : σ → α → Prop} {I : σ → Prop}
  {s s' s'' : σ} {a : α} {as bs : List α}

/-- The steps `as` lead from one state to another, and `C` holds before each of them. -/
inductive Run (step : σ → α → Option σ) (C : σ → α → Prop) : σ → List α → σ → Prop
  | nil (s : σ) : Run step C s [] s
  | cons {s s' s'' : σ} {a : α} {as : List α} (hC : C s a) (hstep : step s a = some s')
      (hrun : Run step C s' as s'') : Run step C s (a :: as) s''

namespace Run

theorem single (hC : C s a) (hstep : step s a = some s') : Run step C s [a] s' :=
  cons hC hstep (nil s')

theorem append (h : Run step C s as s') (h' : Run step C s' bs s'') :
    Run step C s (as ++ bs) s'' := by
  induction h with
  | nil => exact h'
  | cons hC hstep _ ih => exact cons hC hstep (ih h')

theorem append_inv (h : Run step C s (as ++ bs) s'') :
    ∃ s', Run step C s as s' ∧ Run step C s' bs s'' := by
  induction as generalizing s with
  | nil => exact ⟨s, nil s, h⟩
  | cons a as ih =>
    cases h with
    | cons hC hstep hrun =>
      obtain ⟨s', has, hbs⟩ := ih hrun
      exact ⟨s', cons hC hstep has, hbs⟩

theorem mono (h : Run step C s as s') (hCD : ∀ s a, C s a → D s a) : Run step D s as s' := by
  induction h with
  | nil s => exact nil s
  | cons hC hstep _ ih => exact cons (hCD _ _ hC) hstep ih

theorem invariant (hkeep : ∀ s a s', I s → C s a → step s a = some s' → I s')
    (hI : I s) (h : Run step C s as s') : I s' := by
  induction h with
  | nil => exact hI
  | cons hC hstep _ ih => exact ih (hkeep _ _ _ hI hC hstep)

/-- What every step keeps can be used as a condition of the steps. -/
theorem strengthen (hkeep : ∀ s a s', I s → C s a → step s a = some s' → I s')
    (hI : I s) (h : Run step C s as s') : Run step (fun s a => I s ∧ C s a) s as s' := by
  induction h with
  | nil s => exact nil s
  | cons hC hstep _ ih => exact cons ⟨hI, hC⟩ hstep (ih (hkeep _ _ _ hI hC hstep))

/-- The state at the end is a function of the steps. -/
theorem eval (h : Run step C s as s') : as.foldlM step s = some s' := by
  induction h with
  | nil s => rfl
  | cons _ hstep _ ih =>
    rw [List.foldlM_cons, hstep]
    exact ih

theorem of_eval (hC : ∀ s a, C s a) (h : as.foldlM step s = some s') : Run step C s as s' := by
  induction as generalizing s with
  | nil =>
    obtain rfl := Option.some.inj h
    exact nil s
  | cons a as ih =>
    rw [List.foldlM_cons] at h
    obtain ⟨s₁, hstep, hrest⟩ := Option.bind_eq_some_iff.mp h
    exact cons (hC s a) hstep (ih hrest)

/-- Takes the steps as long as the condition holds before them. -/
def check (step : σ → α → Option σ) (C : σ → α → Prop) [∀ s a, Decidable (C s a)] :
    σ → List α → Option σ
  | s, [] => some s
  | s, a :: as => if C s a then (step s a).bind fun s' => check step C s' as else none

theorem of_check [∀ s a, Decidable (C s a)] (h : check step C s as = some s') :
    Run step C s as s' := by
  induction as generalizing s with
  | nil =>
    obtain rfl := Option.some.inj h
    exact nil s
  | cons a as ih =>
    rw [check] at h
    split_ifs at h with hC
    obtain ⟨s₁, hstep, hrest⟩ := Option.bind_eq_some_iff.mp h
    exact cons hC hstep (ih hrest)

end Run

end

/-! ## The steps of a run

The steps that a run takes, each with the state before it.  A run ends at a step that does not
return; that step is one of them. -/

section

variable {σ α : Type} {step : σ → α → Option σ} {P C : σ → α → Prop} {I : σ → Prop}

/-- The steps of a run from a state, each with the state before it. -/
def taken (step : σ → α → Option σ) : σ → List α → List (σ × α)
  | _, [] => []
  | s, a :: as =>
    (s, a) :: match step s a with
      | some s' => taken step s' as
      | none => []

theorem mem_of_mem_taken {s : σ} {as : List α} {t : σ × α} (h : t ∈ taken step s as) :
    t.2 ∈ as := by
  induction as generalizing s with
  | nil => cases h
  | cons a as ih =>
    unfold taken at h
    rcases List.mem_cons.mp h with rfl | h
    · exact List.mem_cons_self
    · cases hstep : step s a with
      | none =>
        rw [hstep] at h
        cases h
      | some s' =>
        rw [hstep] at h
        exact List.mem_cons_of_mem a (ih h)

/-- Where a property of a step keeps an invariant, and is a condition under the invariant, all
steps of a run have it exactly if all meet the condition. -/
theorem forall_taken_iff (hiff : ∀ s a, I s → (P s a ↔ C s a))
    (hkeep : ∀ s a s', I s → P s a → step s a = some s' → I s') {s : σ} (h : I s) (as : List α) :
    (∀ t ∈ taken step s as, P t.1 t.2) ↔ ∀ t ∈ taken step s as, C t.1 t.2 := by
  induction as generalizing s with
  | nil => exact iff_of_true (List.forall_mem_nil _) (List.forall_mem_nil _)
  | cons a as ih =>
    unfold taken
    rw [List.forall_mem_cons, List.forall_mem_cons, hiff s a h]
    apply and_congr_right
    intro hC
    cases hstep : step s a with
    | none => exact iff_of_true (List.forall_mem_nil _) (List.forall_mem_nil _)
    | some s' => exact ih (hkeep s a s' h ((hiff s a h).mpr hC) hstep)

end

/-! ## What holds along a fold

A state is changed by the elements of a list, one after the other.  A property may hold not only
at the end but at every point, so that it does not matter where the fold is cut short. -/

section

variable {σ α : Type} {step : σ → α → σ} {P Q : σ → Prop} {s : σ} {a : α} {as bs : List α}

/-- `P` holds before and after every step. -/
def Along (step : σ → α → σ) (P : σ → Prop) : σ → List α → Prop
  | s, [] => P s
  | s, a :: as => P s ∧ Along step P (step s a) as

namespace Along

theorem nil (h : P s) : Along step P s [] := h

theorem cons (h : P s) (has : Along step P (step s a) as) : Along step P s (a :: as) := ⟨h, has⟩

theorem take (h : Along step P s as) (n : Nat) : P ((as.take n).foldl step s) := by
  induction as generalizing s n with
  | nil =>
    rw [List.take_nil]
    exact h
  | cons a as ih =>
    cases n with
    | zero => exact h.1
    | succ n => exact ih h.2 n

theorem append (h : Along step P s as) (hbs : Along step P (as.foldl step s) bs) :
    Along step P s (as ++ bs) := by
  induction as generalizing s with
  | nil => exact hbs
  | cons a as ih => exact cons h.1 (ih h.2 hbs)

end Along

end

end ObHtap
