/-!
# Cursors

Something that is opened, gives elements one after the other until a call fails, and is closed.
The calls that give an element come to an end, so that a loop over a cursor does.
-/

namespace ObHtap

/-- Calls fail with an error from `ε` and otherwise give an element of `T`. -/
structure Cursor (ε T : Type) where
  State : Type
  init : State
  openOp : State → Except ε Unit × State
  next : State → Except ε T × State
  close : State → State
  /-- A bound for the elements to come. -/
  remaining : State → Nat
  remaining_lt : ∀ {st t st'}, next st = (.ok t, st') → remaining st' < remaining st

namespace Cursor

variable {ε T : Type} (c : Cursor ε T)

/-- The elements up to the first call that fails, with its error and the state it leaves. -/
def drain (st : c.State) : (List T × ε) × c.State :=
  match _h : c.next st with
  | (.error e, st') => (([], e), st')
  | (.ok t, st') =>
    let rest := drain st'
    ((t :: rest.1.1, rest.1.2), rest.2)
termination_by c.remaining st
decreasing_by exact c.remaining_lt _h

/-- The elements to the first that `step` takes or fails at; `none` leaves an element out. -/
def find {U : Type} (step : T → Except ε (Option U)) (st : c.State) : Except ε U × c.State :=
  match _h : c.next st with
  | (.error e, st') => (.error e, st')
  | (.ok t, st') =>
    match step t with
    | .error e => (.error e, st')
    | .ok (some u) => (.ok u, st')
    | .ok none => find step st'
termination_by c.remaining st
decreasing_by exact c.remaining_lt _h

/-- Every element into an accumulator, up to the first call that fails, whose error is on the
right, or the first element that `step` fails at. -/
def forEach {σ : Type} (step : σ → T → Except ε Unit × σ) (st : c.State) (acc : σ) :
    (ε ⊕ ε) × σ × c.State :=
  match _h : c.next st with
  | (.error e, st') => (.inr e, acc, st')
  | (.ok t, st') =>
    match step acc t with
    | (.error e, acc) => (.inl e, acc, st')
    | (.ok (), acc) => forEach step st' acc
termination_by c.remaining st
decreasing_by exact c.remaining_lt _h

/-- `n` calls of `next`, whatever they give. -/
def nextTimes : Nat → c.State → c.State
  | 0, st => st
  | n + 1, st => nextTimes n (c.next st).2

/-- What opening gives, and the elements up to the first call of `next` that fails. -/
def openAndDrain (st : c.State) : Except ε Unit × List T × ε :=
  ((c.openOp st).1, (c.drain (c.openOp st).2).1)

variable {c}

theorem drain_of_error {st st' : c.State} {e : ε} (h : c.next st = (.error e, st')) :
    c.drain st = (([], e), st') := by
  rw [drain]
  split
  next heq =>
    cases h.symm.trans heq
    rfl
  next heq => cases h.symm.trans heq

theorem drain_of_ok {st st' : c.State} {t : T} (h : c.next st = (.ok t, st')) :
    c.drain st = ((t :: (c.drain st').1.1, (c.drain st').1.2), (c.drain st').2) := by
  rw [drain]
  split
  next heq => cases h.symm.trans heq
  next heq =>
    cases h.symm.trans heq
    rfl

theorem find_of_error {U : Type} {step : T → Except ε (Option U)} {st st' : c.State} {e : ε}
    (h : c.next st = (.error e, st')) : c.find step st = (.error e, st') := by
  rw [find]
  split
  next heq =>
    cases h.symm.trans heq
    rfl
  next heq => cases h.symm.trans heq

theorem find_of_ok {U : Type} {step : T → Except ε (Option U)} {st st' : c.State} {t : T}
    (h : c.next st = (.ok t, st')) :
    c.find step st =
      match step t with
      | .error e => (.error e, st')
      | .ok (some u) => (.ok u, st')
      | .ok none => c.find step st' := by
  rw [find]
  split
  next heq => cases h.symm.trans heq
  next heq =>
    cases h.symm.trans heq
    rfl

theorem forEach_of_error {σ : Type} {step : σ → T → Except ε Unit × σ} {st st' : c.State} {acc : σ}
    {e : ε} (h : c.next st = (.error e, st')) :
    c.forEach step st acc = (.inr e, acc, st') := by
  rw [forEach]
  split
  next heq =>
    cases h.symm.trans heq
    rfl
  next heq => cases h.symm.trans heq

theorem forEach_of_ok {σ : Type} {step : σ → T → Except ε Unit × σ} {st st' : c.State} {acc : σ}
    {t : T} (h : c.next st = (.ok t, st')) :
    c.forEach step st acc =
      match step acc t with
      | (.error e, acc) => (.inl e, acc, st')
      | (.ok (), acc) => c.forEach step st' acc := by
  rw [forEach]
  split
  next heq => cases h.symm.trans heq
  next heq =>
    cases h.symm.trans heq
    rfl

/-- An element that is found was one of those to come. -/
theorem remaining_lt_of_find {U : Type} {step : T → Except ε (Option U)} {st st' : c.State} {u : U}
    (h : c.find step st = (.ok u, st')) : c.remaining st' < c.remaining st := by
  induction st using find.induct c step with
  | case1 st e st₁ hnext =>
    rw [find_of_error hnext] at h
    cases h
  | case2 st t st₁ hnext e hstep =>
    rw [find_of_ok hnext, hstep] at h
    cases h
  | case3 st t st₁ hnext u' hstep =>
    rw [find_of_ok hnext, hstep] at h
    cases h
    exact c.remaining_lt hnext
  | case4 st t st₁ hnext hstep ih =>
    rw [find_of_ok hnext, hstep] at h
    exact Nat.lt_trans (ih h) (c.remaining_lt hnext)

/-! ## Cursors as lists -/

/-- What loops of `find` give on elements with the error at their end. -/
def findList {U : Type} (step : T → Except ε (Option U)) : List T → ε → List U × ε
  | [], e => ([], e)
  | t :: ts, e =>
    match step t with
    | .error e => ([], e)
    | .ok (some u) => (u :: (findList step ts e).1, (findList step ts e).2)
    | .ok none => findList step ts e

section

variable {U : Type} {step : T → Except ε (Option U)} {t : T} {ts : List T} {e e' : ε}

theorem findList_cons_error (h : step t = .error e') : findList step (t :: ts) e = ([], e') := by
  rw [findList, h]

theorem findList_cons_some {u : U} (h : step t = .ok (some u)) :
    findList step (t :: ts) e = (u :: (findList step ts e).1, (findList step ts e).2) := by
  rw [findList, h]

theorem findList_cons_none (h : step t = .ok none) :
    findList step (t :: ts) e = findList step ts e := by
  rw [findList, h]

theorem findList_congr {step' : T → Except ε (Option U)} (h : ∀ t ∈ ts, step t = step' t) :
    findList step ts e = findList step' ts e := by
  induction ts with
  | nil => rfl
  | cons t ts ih =>
    have hrest := ih fun t' hmem => h t' (List.mem_cons_of_mem t hmem)
    rw [findList, findList, hrest, h t List.mem_cons_self]

/-- An element passes both steps, one after the other. -/
def andThen {V : Type} (step : T → Except ε (Option U)) (next : U → Except ε (Option V)) (t : T) :
    Except ε (Option V) :=
  match step t with
  | .error e => .error e
  | .ok none => .ok none
  | .ok (some u) => next u

theorem findList_findList {V : Type} {next : U → Except ε (Option V)} :
    findList next (findList step ts e).1 (findList step ts e).2 =
      findList (andThen step next) ts e := by
  induction ts with
  | nil => rfl
  | cons t ts ih =>
    cases hstep : step t with
    | error e' =>
      have hboth : andThen step next t = .error e' := by rw [andThen, hstep]
      rw [findList_cons_error hstep, findList_cons_error hboth]
      rfl
    | ok found =>
      cases found with
      | none =>
        have hboth : andThen step next t = .ok none := by rw [andThen, hstep]
        rw [findList_cons_none hstep, findList_cons_none hboth, ih]
      | some u =>
        have hboth : andThen step next t = next u := by rw [andThen, hstep]
        rw [findList_cons_some hstep, findList, findList, hboth, ih]

theorem findList_some {ts : List T} : findList (fun t => .ok (some t)) ts e = (ts, e) := by
  induction ts with
  | nil => rfl
  | cons t ts ih => rw [findList, ih]

theorem findList_filter {ts : List T} {step : T → Except ε (Option T)} {p : T → Bool}
    (h : ∀ t ∈ ts, step t = .ok (if p t then some t else none)) :
    findList step ts e = (ts.filter p, e) := by
  induction ts with
  | nil => rfl
  | cons t ts ih =>
    have hstep := h t List.mem_cons_self
    have hrest := ih fun t' hmem => h t' (List.mem_cons_of_mem t hmem)
    cases hp : p t with
    | true =>
      rw [hp] at hstep
      rw [findList_cons_some hstep, hrest, List.filter_cons_of_pos hp]
    | false =>
      rw [hp] at hstep
      rw [findList_cons_none hstep, hrest, List.filter_cons_of_neg (by simp [hp])]

theorem findList_none : findList (fun _ => .ok none) ts e = (([] : List U), e) := by
  induction ts with
  | nil => rfl
  | cons t ts ih => rw [findList, ih]

end

/-- `forEach` on elements with the error at their end. -/
def forEachList {σ : Type} (step : σ → T → Except ε Unit × σ) :
    List T → ε → σ → (ε ⊕ ε) × σ
  | [], e, acc => (.inr e, acc)
  | t :: ts, e, acc =>
    match step acc t with
    | (.error e, acc) => (.inl e, acc)
    | (.ok (), acc) => forEachList step ts e acc

/-- One element more behind those that went well. -/
theorem forEachList_concat {σ : Type} {step : σ → T → Except ε Unit × σ} {ts : List T} {t : T}
    {e : ε} {acc acc₁ acc₂ : σ} (h : forEachList step ts e acc = (.inr e, acc₁))
    (hstep : step acc₁ t = (.ok (), acc₂)) :
    forEachList step (ts ++ [t]) e acc = (.inr e, acc₂) := by
  induction ts generalizing acc with
  | nil =>
    cases h
    rw [List.nil_append, forEachList, hstep]
    rfl
  | cons t' ts ih =>
    rw [forEachList] at h
    rw [List.cons_append, forEachList]
    split at h
    next => cases h
    next => exact ih h

theorem forEach_eq_forEachList {σ : Type} (step : σ → T → Except ε Unit × σ) (st : c.State)
    (acc : σ) :
    ((c.forEach step st acc).1, (c.forEach step st acc).2.1) =
      forEachList step (c.drain st).1.1 (c.drain st).1.2 acc := by
  induction st, acc using forEach.induct c step with
  | case1 st acc e st₁ hnext =>
    rw [forEach_of_error hnext, drain_of_error hnext]
    rfl
  | case2 st acc t st₁ hnext e acc' hstep =>
    rw [forEach_of_ok hnext, drain_of_ok hnext, forEachList, hstep]
  | case3 st acc t st₁ hnext acc' hstep ih =>
    rw [forEach_of_ok hnext, drain_of_ok hnext, forEachList, hstep]
    exact ih

/-- Only the first call tells a state from another. -/
theorem drain_congr {st st' : c.State} (h : c.next st = c.next st') : c.drain st = c.drain st' := by
  cases hnext : c.next st' with
  | mk result st₁ =>
    cases result with
    | error e => rw [drain_of_error (h.trans hnext), drain_of_error hnext]
    | ok t => rw [drain_of_ok (h.trans hnext), drain_of_ok hnext]

/-- A cursor whose `next` is a `find` of another gives what the loop gives on the list. -/
theorem drain_of_find {U : Type} {d : Cursor ε U} {step : T → Except ε (Option U)}
    (toState : c.State → d.State)
    (hnext : ∀ st, d.next (toState st) =
      ((c.find step st).1, toState (c.find step st).2)) (st : c.State) :
    (d.drain (toState st)).1 = findList step (c.drain st).1.1 (c.drain st).1.2 := by
  induction st using drain.induct c with
  | case1 st e st₁ hc =>
    have hd : d.next (toState st) = (.error e, toState st₁) := by
      rw [hnext, find_of_error hc]
    rw [drain_of_error hd, drain_of_error hc]
    rfl
  | case2 st t st₁ hc ih =>
    rw [drain_of_ok hc]
    cases hstep : step t with
    | error e =>
      have hd : d.next (toState st) = (.error e, toState st₁) := by
        rw [hnext, find_of_ok hc, hstep]
      rw [drain_of_error hd, findList_cons_error hstep]
    | ok found =>
      cases found with
      | some u =>
        have hd : d.next (toState st) = (.ok u, toState st₁) := by
          rw [hnext, find_of_ok hc, hstep]
        rw [drain_of_ok hd, findList_cons_some hstep, ih]
      | none =>
        have hd : d.next (toState st) = d.next (toState st₁) := by
          rw [hnext, hnext, find_of_ok hc, hstep]
        rw [drain_congr hd, findList_cons_none hstep, ih]

/-! ## States that no call tells apart -/

/-- The same result, and related states. -/
def Agree {α σ : Type} (rel : σ → σ → Prop) (x y : α × σ) : Prop :=
  x.1 = y.1 ∧ rel x.2 y.2

/-- `open` and `next` give the same from related states, and keep them related. -/
structure IsBisimulation (c : Cursor ε T) (rel : c.State → c.State → Prop) : Prop where
  openOp : ∀ {st st'}, rel st st' → Agree rel (c.openOp st) (c.openOp st')
  next : ∀ {st st'}, rel st st' → Agree rel (c.next st) (c.next st')

namespace IsBisimulation

variable {rel : c.State → c.State → Prop} (h : IsBisimulation c rel)

include h

theorem next_eq {st st' st₁ : c.State} {result : Except ε T} (hrel : rel st st')
    (hnext : c.next st = (result, st₁)) : ∃ st₁', c.next st' = (result, st₁') ∧ rel st₁ st₁' := by
  obtain ⟨hresult, hrel₁⟩ := h.next hrel
  rw [hnext] at hresult hrel₁
  exact ⟨(c.next st').2, Prod.ext hresult.symm rfl, hrel₁⟩

theorem openOp_eq {st st' st₁ : c.State} {result : Except ε Unit} (hrel : rel st st')
    (hopen : c.openOp st = (result, st₁)) :
    ∃ st₁', c.openOp st' = (result, st₁') ∧ rel st₁ st₁' := by
  obtain ⟨hresult, hrel₁⟩ := h.openOp hrel
  rw [hopen] at hresult hrel₁
  exact ⟨(c.openOp st').2, Prod.ext hresult.symm rfl, hrel₁⟩

theorem drain {st st' : c.State} (hrel : rel st st') : Agree rel (c.drain st) (c.drain st') := by
  induction st using drain.induct c generalizing st' with
  | case1 st e st₁ hnext =>
    obtain ⟨st₁', hnext', hrel₁⟩ := h.next_eq hrel hnext
    rw [drain_of_error hnext, drain_of_error hnext']
    exact ⟨rfl, hrel₁⟩
  | case2 st t st₁ hnext ih =>
    obtain ⟨st₁', hnext', hrel₁⟩ := h.next_eq hrel hnext
    obtain ⟨hrest, hrel₂⟩ := ih hrel₁
    rw [drain_of_ok hnext, drain_of_ok hnext', hrest]
    exact ⟨rfl, hrel₂⟩

theorem find {U : Type} {step : T → Except ε (Option U)} {st st' : c.State} (hrel : rel st st') :
    Agree rel (c.find step st) (c.find step st') := by
  induction st using find.induct c step generalizing st' with
  | case1 st e st₁ hnext =>
    obtain ⟨st₁', hnext', hrel₁⟩ := h.next_eq hrel hnext
    rw [find_of_error hnext, find_of_error hnext']
    exact ⟨rfl, hrel₁⟩
  | case2 st t st₁ hnext e hstep =>
    obtain ⟨st₁', hnext', hrel₁⟩ := h.next_eq hrel hnext
    rw [find_of_ok hnext, find_of_ok hnext', hstep]
    exact ⟨rfl, hrel₁⟩
  | case3 st t st₁ hnext u hstep =>
    obtain ⟨st₁', hnext', hrel₁⟩ := h.next_eq hrel hnext
    rw [find_of_ok hnext, find_of_ok hnext', hstep]
    exact ⟨rfl, hrel₁⟩
  | case4 st t st₁ hnext hstep ih =>
    obtain ⟨st₁', hnext', hrel₁⟩ := h.next_eq hrel hnext
    rw [find_of_ok hnext, find_of_ok hnext', hstep]
    exact ih hrel₁

theorem forEach {σ : Type} (step : σ → T → Except ε Unit × σ) {st st' : c.State} (acc : σ)
    (hrel : rel st st') :
    (c.forEach step st acc).1 = (c.forEach step st' acc).1 ∧
      (c.forEach step st acc).2.1 = (c.forEach step st' acc).2.1 ∧
      rel (c.forEach step st acc).2.2 (c.forEach step st' acc).2.2 := by
  induction st, acc using forEach.induct c step generalizing st' with
  | case1 st acc e st₁ hnext =>
    obtain ⟨st₁', hnext', hrel₁⟩ := h.next_eq hrel hnext
    rw [forEach_of_error hnext, forEach_of_error hnext']
    exact ⟨rfl, rfl, hrel₁⟩
  | case2 st acc t st₁ hnext e acc' hstep =>
    obtain ⟨st₁', hnext', hrel₁⟩ := h.next_eq hrel hnext
    rw [forEach_of_ok hnext, forEach_of_ok hnext', hstep]
    exact ⟨rfl, rfl, hrel₁⟩
  | case3 st acc t st₁ hnext acc' hstep ih =>
    obtain ⟨st₁', hnext', hrel₁⟩ := h.next_eq hrel hnext
    rw [forEach_of_ok hnext, forEach_of_ok hnext', hstep]
    exact ih hrel₁

theorem openAndDrain {st st' : c.State} (hrel : rel st st') :
    c.openAndDrain st = c.openAndDrain st' := by
  obtain ⟨hopen, hrel₁⟩ := h.openOp hrel
  rw [Cursor.openAndDrain, Cursor.openAndDrain, hopen, (h.drain hrel₁).1]

end IsBisimulation

end Cursor

end ObHtap
