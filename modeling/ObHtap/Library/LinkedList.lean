import Mathlib.Data.List.Basic
import Mathlib.Data.List.Induction
import Mathlib.Data.List.Nodup
import Mathlib.Logic.Function.Basic

/-!
# Linked lists

Lists of elements that point to the next one, or to the one before as well.
-/

namespace ObHtap

/-! ## Singly linked lists

A list that is followed from its first element by a function to the next one.  The first element
determines the list, so no element is on it twice. -/

section

variable {α : Type} {next next' : α → Option α} {a : α} {l l' : List α}

/-- Each element leads to the one behind it, and the last one to none. -/
def Links (next : α → Option α) : List α → Prop
  | [] => False
  | [a] => next a = none
  | a :: b :: l => next a = some b ∧ Links next (b :: l)

theorem links_cons (hne : l ≠ []) : Links next (a :: l) ↔ next a = l.head? ∧ Links next l := by
  cases l with
  | nil => exact absurd rfl hne
  | cons b l => rfl

theorem Links.congr (h : Links next l) (heq : ∀ a ∈ l, next' a = next a) : Links next' l := by
  induction l with
  | nil => exact h
  | cons a l ih =>
    have ha := heq a List.mem_cons_self
    cases l with
    | nil => exact ha.trans h
    | cons b l => exact ⟨ha.trans h.1, ih h.2 fun c hc => heq c (List.mem_cons_of_mem _ hc)⟩

theorem Links.eq_of_head (h : Links next l) (h' : Links next l') (heq : l.head? = l'.head?) :
    l = l' := by
  induction l generalizing l' with
  | nil => exact absurd h id
  | cons a l ih =>
    cases l' with
    | nil => exact absurd h' id
    | cons a' l' =>
      obtain rfl : a = a' := Option.some.inj heq
      congr 1
      cases l with
      | nil =>
        cases l' with
        | nil => rfl
        | cons b' l' => exact absurd (h.symm.trans h'.1) (Option.some_ne_none b').symm
      | cons b l =>
        cases l' with
        | nil => exact absurd (h.1.symm.trans h') (Option.some_ne_none b)
        | cons b' l' => exact ih h.2 h'.2 (h.1.symm.trans h'.1)

theorem Links.of_append {front : List α} (h : Links next (front ++ l)) (hne : l ≠ []) :
    Links next l := by
  induction front with
  | nil => exact h
  | cons b front ih =>
    have hne' : front ++ l ≠ [] := List.append_ne_nil_of_right_ne_nil front hne
    rw [List.cons_append, links_cons hne'] at h
    exact ih h.2

theorem Links.nodup (h : Links next l) : l.Nodup := by
  induction l with
  | nil => exact List.nodup_nil
  | cons a l ih =>
    cases l with
    | nil => exact List.nodup_singleton a
    | cons b l =>
      refine List.nodup_cons.mpr ⟨fun hmem => ?_, ih h.2⟩
      -- the list from there on would be the whole list
      obtain ⟨front, back, hsplit⟩ := List.append_of_mem hmem
      have hback : Links next (a :: back) := by
        have htail := h.2
        rw [hsplit] at htail
        exact htail.of_append (List.cons_ne_nil _ _)
      have heq := h.eq_of_head hback rfl
      have hlen := congrArg List.length heq
      have hlen' := congrArg List.length hsplit
      simp only [List.length_cons, List.length_append] at hlen hlen'
      omega

end

/-! ## Doubly linked lists

Elements with a pointer to the one before and a pointer to the one behind.  A segment of such a
list knows what its ends point to, so that a list is changed by changing the ends of its segments. -/

section

variable {α : Type} {prev next prev' next' : α → Option α} {before after : Option α}
  {a : α} {l l₁ l₂ : List α}

/-- The elements of the list point to each other, the first one back to `before` and the last one
on to `after`. -/
def Doubly (prev next : α → Option α) : Option α → List α → Option α → Prop
  | _, [], _ => True
  | before, a :: l, after =>
    prev a = before ∧ next a = l.head?.or after ∧ Doubly prev next (some a) l after

/-- A list comes apart into segments, and segments that point to each other's ends make a list. -/
theorem doubly_append :
    Doubly prev next before (l₁ ++ l₂) after ↔
      Doubly prev next before l₁ (l₂.head?.or after) ∧
        Doubly prev next (l₁.getLast?.or before) l₂ after := by
  induction l₁ generalizing before with
  | nil => simp [Doubly]
  | cons b l₁ ih =>
    have hlast : (b :: l₁).getLast?.or before = l₁.getLast?.or (some b) := by
      cases l₁ with
      | nil => rfl
      | cons c l₁ => rw [List.getLast?_cons_cons, List.getLast?_cons, Option.some_or, Option.some_or]
    rw [List.cons_append, Doubly, Doubly, ih, hlast, List.head?_append, Option.or_assoc, and_assoc,
      and_assoc]

theorem Doubly.congr (h : Doubly prev next before l after) (hprev : ∀ b ∈ l, prev' b = prev b)
    (hnext : ∀ b ∈ l, next' b = next b) : Doubly prev' next' before l after := by
  induction l generalizing before with
  | nil => trivial
  | cons b l ih =>
    obtain ⟨hb, hb', hrest⟩ := h
    rw [List.forall_mem_cons] at hprev hnext
    exact ⟨hprev.1.trans hb, hnext.1.trans hb', ih hrest hprev.2 hnext.2⟩

/-- An element points on to the head of what is behind it. -/
theorem Doubly.next_of_append (h : Doubly prev next before (l₁ ++ a :: l₂) after) :
    next a = l₂.head?.or after := by
  rw [doubly_append, Doubly] at h
  exact h.2.2.1

/-- An element points back to the last one before it. -/
theorem Doubly.prev_of_append (h : Doubly prev next before (l₁ ++ a :: l₂) after) :
    prev a = l₁.getLast?.or before := by
  rw [doubly_append, Doubly] at h
  exact h.2.1

theorem Doubly.reverse (h : Doubly prev next before l after) :
    Doubly next prev after l.reverse before := by
  induction l generalizing before with
  | nil => trivial
  | cons a l ih =>
    obtain ⟨hprev, hnext, hrest⟩ := h
    rw [List.reverse_cons, doubly_append]
    refine ⟨ih hrest, ?_, hprev, trivial⟩
    rw [hnext, List.getLast?_reverse]

/-! ## Changes of pointers -/

section

variable [DecidableEq α] {p q : Option α}

/-- Where there is an element `p`, its pointer becomes `q`. -/
def relink (f : α → Option α) (p q : Option α) : α → Option α :=
  p.elim f fun a => Function.update f a q

theorem relink_of_ne {f : α → Option α} (h : p ≠ some a) : relink f p q a = f a := by
  cases p with
  | none => rfl
  | some b => exact Function.update_of_ne (fun heq => h (congrArg some heq.symm)) q f

/-- A segment goes on elsewhere when the pointer of its last element does. -/
theorem Doubly.relink_next (h : Doubly prev next before l after) (hl : l.Nodup)
    (after' : Option α) :
    Doubly prev (relink next l.getLast? after') before l after' := by
  induction l using List.reverseRecOn with
  | nil => trivial
  | append_singleton l b _ =>
    rw [doubly_append] at h ⊢
    have hnot : b ∉ l := fun hb => (List.disjoint_of_nodup_append hl) hb List.mem_cons_self
    rw [List.getLast?_append, List.getLast?_singleton, Option.some_or]
    constructor
    · apply h.1.congr (fun _ _ => rfl)
      intro c hc
      apply relink_of_ne
      rintro ⟨⟩
      exact hnot hc
    · exact ⟨h.2.1, Function.update_self b _ next, trivial⟩

/-- A segment comes from elsewhere when the pointer of its first element does. -/
theorem Doubly.relink_prev (h : Doubly prev next before l after) (hl : l.Nodup)
    (before' : Option α) :
    Doubly (relink prev l.head? before') next before' l after := by
  cases l with
  | nil => trivial
  | cons b l =>
    obtain ⟨-, hnext, hrest⟩ := h
    refine ⟨Function.update_self b _ prev, hnext, ?_⟩
    apply hrest.congr _ (fun _ _ => rfl)
    intro c hc
    apply relink_of_ne
    rintro ⟨⟩
    exact (List.nodup_cons.mp hl).1 hc

/-- An element is taken out when those around it point to each other. -/
theorem Doubly.unlink (h : Doubly prev next none (l₁ ++ a :: l₂) none)
    (hl : (l₁ ++ a :: l₂).Nodup) :
    Doubly (relink prev (next a) (prev a)) (relink next (prev a) (next a)) none (l₁ ++ l₂) none := by
  have hprev : prev a = l₁.getLast? := by rw [h.prev_of_append, Option.or_none]
  have hnext : next a = l₂.head? := by rw [h.next_of_append, Option.or_none]
  rw [doubly_append] at h
  obtain ⟨hl₁, hl₂, hdisjoint⟩ := List.nodup_append'.mp hl
  rw [hprev, hnext, doubly_append, Option.or_none, Option.or_none]
  constructor
  · -- the elements in front keep their pointers back
    apply (h.1.relink_next hl₁ l₂.head?).congr _ (fun _ _ => rfl)
    intro b hb
    apply relink_of_ne
    intro hhead
    exact hdisjoint hb (List.mem_cons_of_mem a (List.mem_of_head? hhead))
  · apply (h.2.2.2.relink_prev (List.nodup_cons.mp hl₂).2 l₁.getLast?).congr
      (fun _ _ => rfl)
    intro b hb
    apply relink_of_ne
    intro hlast
    exact hdisjoint (List.mem_of_getLast? hlast) (List.mem_cons_of_mem a hb)

/-- An element is put in front when it points on to the first one and that one back to it. -/
theorem Doubly.pushFront (h : Doubly prev next none l none) (hl : l.Nodup) (ha : a ∉ l) :
    Doubly (relink (Function.update prev a none) l.head? (some a)) (Function.update next a l.head?)
      none (a :: l) none := by
  have hne : l.head? ≠ some a := fun hhead => ha (List.mem_of_head? hhead)
  have hkept : Doubly (Function.update prev a none) (Function.update next a l.head?) none l none := by
    have hother (b : α) (hb : b ∈ l) : b ≠ a := ne_of_mem_of_not_mem hb ha
    apply h.congr
    · intro b hb
      exact Function.update_of_ne (hother b hb) none prev
    · intro b hb
      exact Function.update_of_ne (hother b hb) l.head? next
  refine ⟨?_, ?_, hkept.relink_prev hl (some a)⟩
  · rw [relink_of_ne hne, Function.update_self]
  · rw [Function.update_self, Option.or_none]

end

end

end ObHtap
