import Mathlib.Logic.Relation

/-!
# Replaying a log

A log is replayed entry by entry onto a state that may have seen a part of it already.  The
replay ends where the run that wrote the log ended as soon as two things hold: an entry that has
been seen does nothing, and a new one follows the step of the run that wrote it.
-/

namespace ObHtap

variable {ε σ τ η : Type}

/-- Redoes the entries in order, up to the first that fails. -/
def replay (redo : ε → σ → Except η σ) : List ε → σ → Except η σ
  | [], t => .ok t
  | e :: log, t =>
    match redo e t with
    | .ok t' => replay redo log t'
    | .error rc => .error rc

/-- Replays the whole log so many times. -/
def replayTimes (redo : ε → σ → Except η σ) (log : List ε) : Nat → σ → Except η σ
  | 0, t => .ok t
  | n + 1, t =>
    match replay redo log t with
    | .ok t' => replayTimes redo log n t'
    | .error rc => .error rc

variable {redo : ε → σ → Except η σ}

theorem replay_append {log log' : List ε} {t t' : σ} (h : replay redo log t = .ok t') :
    replay redo (log ++ log') t = replay redo log' t' := by
  induction log generalizing t with
  | nil =>
    cases h
    rfl
  | cons e log ih =>
    rw [replay] at h
    rw [List.cons_append, replay]
    cases hredo : redo e t with
    | error rc => simp [hredo] at h
    | ok t₁ =>
      simp only [hredo] at h
      exact ih h

theorem replay_singleton {e : ε} {t u : σ} (h : redo e t = .ok u) :
    replay redo [e] t = .ok u := by
  rw [replay, h]
  rfl

theorem replay_eq_self {log : List ε} {t : σ} (h : ∀ e ∈ log, redo e t = .ok t) :
    replay redo log t = .ok t := by
  induction log with
  | nil => rfl
  | cons e log ih =>
    rw [replay, h e List.mem_cons_self]
    exact ih fun e' he' => h e' (List.mem_cons_of_mem _ he')

theorem replayTimes_eq_self {log : List ε} {t : σ} (h : replay redo log t = .ok t) (n : Nat) :
    replayTimes redo log n t = .ok t := by
  induction n with
  | zero => rfl
  | succ n ih =>
    rw [replayTimes, h]
    exact ih

/-- The relation `R` ties the states that are replayed onto to the states of a run: what the run
has logged does nothing any more, and what a step logs leads to the state after the step. -/
structure Follows (redo : ε → σ → Except η σ) (log : τ → List ε) (step : τ → τ → Prop)
    (R : σ → τ → Prop) : Prop where
  settled : ∀ {t s}, R t s → ∀ e ∈ log s, redo e t = .ok t
  follow : ∀ {t s s'}, R t s → step s s' →
    ∃ entries t', log s' = log s ++ entries ∧ replay redo entries t = .ok t' ∧ R t' s'

namespace Follows

variable {log : τ → List ε} {step : τ → τ → Prop} {R : σ → τ → Prop} {t : σ} {s s' : τ}

/-- From a state of any point of the run the whole log leads to its end. -/
theorem replay (h : Follows redo log step R) (hR : R t s) (hrun : Relation.ReflTransGen step s s') :
    ∃ t', replay redo (log s') t = .ok t' ∧ R t' s' := by
  induction hrun with
  | refl => exact ⟨t, replay_eq_self (h.settled hR), hR⟩
  | tail _ hstep ih =>
    obtain ⟨t₁, ht₁, hR₁⟩ := ih
    obtain ⟨entries, t', hlog, ht', hR'⟩ := h.follow hR₁ hstep
    refine ⟨t', ?_, hR'⟩
    rw [hlog, replay_append ht₁, ht']

/-- Further replays change nothing. -/
theorem replayTimes (h : Follows redo log step R) (hR : R t s)
    (hrun : Relation.ReflTransGen step s s') {n : Nat} (hn : 0 < n) :
    ∃ t', replayTimes redo (log s') n t = .ok t' ∧ R t' s' := by
  obtain ⟨t', ht', hR'⟩ := h.replay hR hrun
  obtain ⟨n, rfl⟩ := Nat.exists_eq_add_of_le' hn
  refine ⟨t', ?_, hR'⟩
  rw [ObHtap.replayTimes, ht']
  exact replayTimes_eq_self (replay_eq_self (h.settled hR')) n

end Follows

end ObHtap
