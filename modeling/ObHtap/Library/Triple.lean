import Mathlib.Order.Defs.Unbundled
import Mathlib.Tactic.Basic

/-!
# Programs with a state

What a program in `EStateM` does: from a precondition, as a relation between its states, and when it
returns.
-/

namespace ObHtap

/-! ## Triples

Pre- and postconditions of programs in `EStateM`.  A program that fails keeps the state it
failed in, so a triple has a postcondition for failures as well. -/

section

variable {ε σ α β ι : Type}

/-- From every state in `P`, the program `x` ends with a result and a state in `Q` or fails
with an exception and a state in `E`. -/
def Triple (P : σ → Prop) (x : EStateM ε σ α) (Q : α → σ → Prop) (E : ε → σ → Prop) : Prop :=
  ∀ s, P s → match x s with
    | .ok a s' => Q a s'
    | .error e s' => E e s'

namespace Triple

variable {P H : σ → Prop} {Q S : α → σ → Prop} {R : β → σ → Prop} {E F : ε → σ → Prop}
  {x : EStateM ε σ α} {f : α → EStateM ε σ β}

theorem ok {s s' : σ} {a : α} (h : Triple P x Q E) (hs : P s) (hx : x s = .ok a s') :
    Q a s' := by
  have := h s hs
  rwa [hx] at this

theorem error {s s' : σ} {e : ε} (h : Triple P x Q E) (hs : P s) (hx : x s = .error e s') :
    E e s' := by
  have := h s hs
  rwa [hx] at this

theorem exists_ok {s : σ} (h : Triple P x Q fun _ _ => False) (hs : P s) :
    ∃ a s', x s = .ok a s' ∧ Q a s' := by
  have h' := h s hs
  cases hx : x s with
  | ok a s' => rw [hx] at h'; exact ⟨a, s', rfl, h'⟩
  | error e s' => rw [hx] at h'; exact h'.elim

theorem conseq (h : Triple H x S F) (hP : ∀ s, P s → H s) (hQ : ∀ a s, S a s → Q a s)
    (hE : ∀ e s, F e s → E e s) : Triple P x Q E := by
  intro s hs
  have h' := h s (hP s hs)
  cases hx : x s with
  | ok a s' => rw [hx] at h'; exact hQ a s' h'
  | error e s' => rw [hx] at h'; exact hE e s' h'

theorem pre (h : Triple H x Q E) (hP : ∀ s, P s → H s) : Triple P x Q E :=
  h.conseq hP (fun _ _ => id) (fun _ _ => id)

theorem post (h : Triple P x S E) (hQ : ∀ a s, S a s → Q a s) : Triple P x Q E :=
  h.conseq (fun _ => id) hQ (fun _ _ => id)

theorem and (h : Triple P x Q E) (h' : Triple P x S F) :
    Triple P x (fun a s => Q a s ∧ S a s) (fun e s => E e s ∧ F e s) := by
  intro s hs
  have h₁ := h s hs
  have h₂ := h' s hs
  cases hx : x s with
  | ok a s' => rw [hx] at h₁ h₂; exact ⟨h₁, h₂⟩
  | error e s' => rw [hx] at h₁ h₂; exact ⟨h₁, h₂⟩

theorem triv : Triple P x (fun _ _ => True) (fun _ _ => True) := by
  intro s _
  cases x s with
  | ok a s' => exact trivial
  | error e s' => exact trivial

/-- A fact that does not depend on the state may be assumed outside of the triple. -/
theorem of_and {φ : Prop} (h : φ → Triple P x Q E) : Triple (fun s => φ ∧ P s) x Q E :=
  fun s hs => h hs.1 s hs.2

theorem and_of {φ : Prop} (h : φ → Triple P x Q E) : Triple (fun s => P s ∧ φ) x Q E :=
  fun s hs => h hs.2 s hs.1

theorem of_exists {τ : Type} {P : τ → σ → Prop} (h : ∀ i, Triple (P i) x Q E) :
    Triple (fun s => ∃ i, P i s) x Q E :=
  fun s ⟨i, hs⟩ => h i s hs

theorem pure {a : α} (h : ∀ s, P s → Q a s) : Triple P (Pure.pure a : EStateM ε σ α) Q E :=
  fun s hs => h s hs

theorem throw {e : ε} (h : ∀ s, P s → E e s) : Triple P (throw e : EStateM ε σ α) Q E :=
  fun s hs => h s hs

theorem bind (hx : Triple P x Q E) (hf : ∀ a, Triple (Q a) (f a) R E) :
    Triple P (x >>= f) R E := by
  intro s hs
  have hx' := hx s hs
  change match EStateM.bind x f s with
    | .ok b s' => R b s'
    | .error e s' => E e s'
  unfold EStateM.bind
  cases hrun : x s with
  | ok a s' => rw [hrun] at hx'; exact hf a s' hx'
  | error e s' => rw [hrun] at hx'; exact hx'

theorem ite {c : Prop} [Decidable c] {x y : EStateM ε σ α} (hx : c → Triple P x Q E)
    (hy : ¬ c → Triple P y Q E) : Triple P (if c then x else y) Q E := by
  by_cases hc : c
  · rw [if_pos hc]; exact hx hc
  · rw [if_neg hc]; exact hy hc

theorem get {Q : σ → σ → Prop} (h : ∀ s, P s → Q s s) :
    Triple P (MonadState.get : EStateM ε σ σ) Q E :=
  fun s hs => h s hs

theorem modify {g : σ → σ} {Q : PUnit → σ → Prop} (h : ∀ s, P s → Q ⟨⟩ (g s)) :
    Triple P (modify g : EStateM ε σ PUnit) Q E :=
  fun s hs => h s hs

theorem set {t : σ} {Q : PUnit → σ → Prop} (h : ∀ s, P s → Q ⟨⟩ t) :
    Triple P (set t : EStateM ε σ PUnit) Q E :=
  fun s hs => h s hs

theorem modifyGet {g : σ → α × σ} (h : ∀ s, P s → Q (g s).1 (g s).2) :
    Triple P (modifyGet g : EStateM ε σ α) Q E :=
  fun s hs => h s hs

/-- The state that is read is the state in which the program goes on. -/
theorem get_bind {t : σ} {g : σ → EStateM ε σ α} (h : Triple (fun s => s = t) (g t) Q E) :
    Triple (fun s => s = t) (MonadState.get >>= g) Q E := by
  rintro s rfl
  exact h s rfl

end Triple

end

/-! ## Relations between the first and the last state

What a program may do to its state, as a relation.  A relation that is reflexive and transitive
holds of a program as soon as it holds of its parts. -/

section

variable {ε σ α β ι : Type}

/-- However `x` ends, its last state is related to its first one. -/
def Within (R : σ → σ → Prop) (x : EStateM ε σ α) : Prop :=
  ∀ s, Triple (· = s) x (fun _ => R s) (fun _ => R s)

namespace Within

variable {R R' : σ → σ → Prop} {x y : EStateM ε σ α} {f : α → EStateM ε σ β}

theorem ok {s s' : σ} {a : α} (h : Within R x) (hx : x s = .ok a s') : R s s' :=
  (h s).ok rfl hx

theorem error {s s' : σ} {e : ε} (h : Within R x) (hx : x s = .error e s') : R s s' :=
  (h s).error rfl hx

theorem mono (h : Within R' x) (hR : ∀ s s', R' s s' → R s s') : Within R x :=
  fun s => (h s).conseq (fun _ => id) (fun _ => hR s) fun _ => hR s

/-- What the relation carries from one state to the next is kept. -/
theorem triple {P : σ → Prop} (h : Within R x) (hP : ∀ s s', R s s' → P s → P s') :
    Triple P x (fun _ => P) (fun _ => P) :=
  fun s hs => (h s).conseq (fun _ => id) (fun _ s' hr => hP s s' hr hs)
    (fun _ s' hr => hP s s' hr hs) s rfl

theorem bind [IsTrans σ R] (hx : Within R x) (hf : ∀ a, Within R (f a)) :
    Within R (x >>= f) := by
  intro s
  refine (hx s).bind fun a s' hs' => ?_
  exact (hf a s').conseq (fun _ => id) (fun _ _ h => IsTrans.trans _ _ _ hs' h)
    (fun _ _ h => IsTrans.trans _ _ _ hs' h) s' rfl

/-- Programs that go on alike from every state that `x` may leave behind. -/
theorem bind_congr {f' : α → EStateM ε σ β} (h : Within R x) {s : σ}
    (hf : ∀ a s', R s s' → f a s' = f' a s') : (x >>= f) s = (x >>= f') s := by
  change EStateM.bind x f s = EStateM.bind x f' s
  unfold EStateM.bind
  cases hx : x s with
  | ok a s' => exact hf a s' (h.ok hx)
  | error e s' => rfl

theorem pure [Std.Refl R] (a : α) : Within R (Pure.pure a : EStateM ε σ α) :=
  fun _ => Triple.pure fun _ hs => hs ▸ refl _

theorem throw [Std.Refl R] (e : ε) : Within R (throw e : EStateM ε σ α) :=
  fun _ => Triple.throw fun _ hs => hs ▸ refl _

theorem get [Std.Refl R] : Within R (MonadState.get : EStateM ε σ σ) :=
  fun _ => Triple.get fun _ hs => hs ▸ refl _

theorem modify {g : σ → σ} (h : ∀ s, R s (g s)) :
    Within R (modify g : EStateM ε σ PUnit) :=
  fun _ => Triple.modify fun _ hs => hs ▸ h _

theorem ite {c : Prop} [Decidable c] (hx : c → Within R x) (hy : ¬ c → Within R y) :
    Within R (if c then x else y) :=
  fun s => Triple.ite (fun hc => hx hc s) fun hc => hy hc s

theorem forM [Std.Refl R] [IsTrans σ R] {g : ι → EStateM ε σ PUnit} :
    ∀ l : List ι, (∀ i ∈ l, Within R (g i)) → Within R (l.forM g)
  | [], _ => pure PUnit.unit
  | i :: l, h => bind (h i List.mem_cons_self) fun _ =>
    forM l fun j hj => h j (List.mem_cons_of_mem i hj)

end Within

end

/-! ## Programs that return

When a program in `EStateM` returns, it is known how it did so: the lemmas here take its steps
apart. -/

section

variable {ε σ α β : Type}

/-- From the state `s` the program returns `a`, in the state `s'`. -/
def Returns (x : EStateM ε σ α) (s : σ) (a : α) (s' : σ) : Prop :=
  x s = .ok a s'

variable {x : EStateM ε σ α} {f : α → EStateM ε σ β} {s s' : σ} {a a' : α} {b : β}

theorem bind_of_returns (h : Returns x s a s') : (x >>= f) s = f a s' := by
  change EStateM.bind x f s = _
  rw [EStateM.bind, h]

theorem Returns.unique {t t' : σ} (h : Returns x s a t) (h' : Returns x s a' t') :
    a = a' ∧ t = t' := by
  have heq : EStateM.Result.ok (ε := ε) a t = .ok a' t' := h.symm.trans h'
  cases heq
  exact ⟨rfl, rfl⟩

@[simp] theorem returns_bind :
    Returns (x >>= f) s b s' ↔ ∃ a s₁, Returns x s a s₁ ∧ Returns (f a) s₁ b s' := by
  change EStateM.bind x f s = _ ↔ _
  unfold EStateM.bind Returns
  cases x s with
  | ok a s₁ =>
    constructor
    · intro h
      exact ⟨a, s₁, rfl, h⟩
    · rintro ⟨a', s₁', hx, h⟩
      cases hx
      exact h
  | error e s₁ => simp

@[simp] theorem returns_pure : Returns (pure a : EStateM ε σ α) s a' s' ↔ a = a' ∧ s = s' := by
  constructor
  · intro h
    cases h
    exact ⟨rfl, rfl⟩
  · rintro ⟨rfl, rfl⟩
    rfl

@[simp] theorem returns_get {t : σ} :
    Returns (get : EStateM ε σ σ) s t s' ↔ s = t ∧ s = s' := by
  constructor
  · intro h
    cases h
    exact ⟨rfl, rfl⟩
  · rintro ⟨rfl, rfl⟩
    rfl

@[simp] theorem returns_set {u : PUnit} {t : σ} :
    Returns (set t : EStateM ε σ PUnit) s u s' ↔ t = s' := by
  constructor
  · intro h
    cases h
    rfl
  · rintro rfl
    rfl

@[simp] theorem returns_modify {u : PUnit} {g : σ → σ} :
    Returns (modify g : EStateM ε σ PUnit) s u s' ↔ g s = s' := by
  constructor
  · intro h
    cases h
    rfl
  · rintro rfl
    rfl

@[simp] theorem not_returns_throw {e : ε} : ¬ Returns (throw e : EStateM ε σ α) s a s' := by
  intro h
  cases h

end

end ObHtap
