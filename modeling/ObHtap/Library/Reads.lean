import Mathlib.Data.List.Basic

/-!
# Readers

A reader takes a value off the front of a list or fails.  It reads what a writer wrote if it
takes exactly the written elements, whatever stands behind them; readers and writers can then be
put together in the same order.
-/

namespace ObHtap

variable {α β γ δ ε : Type}

abbrev ListReader (β ε α : Type) := StateT (List β) (Except ε) α

/-- `r` takes `bytes` off the front and makes `x` of them. -/
def Reads (r : ListReader β ε α) (x : α) (bytes : List β) : Prop :=
  ∀ rest, r (bytes ++ rest) = .ok (x, rest)

namespace Reads

variable {r : ListReader β ε α} {f : α → ListReader β ε γ} {x : α} {y : γ} {bytes bytes' : List β}

theorem pure (x : α) : Reads (Pure.pure x : ListReader β ε α) x [] := fun _ => rfl

theorem bind (hr : Reads r x bytes) (hf : Reads (f x) y bytes') :
    Reads (r >>= f) y (bytes ++ bytes') := by
  intro rest
  show Except.bind (r (bytes ++ bytes' ++ rest)) (fun p => f p.1 p.2) = _
  rw [List.append_assoc, hr]
  exact hf rest

theorem map (hr : Reads r x bytes) (g : α → γ) :
    Reads (r >>= fun a => Pure.pure (g a)) (g x) bytes := by
  have h : Reads (r >>= fun a => Pure.pure (g a)) (g x) (bytes ++ []) := hr.bind (pure (g x))
  rwa [List.append_nil] at h

theorem to_end (hr : Reads r x bytes) : r bytes = .ok (x, []) := by
  have h := hr []
  rwa [List.append_nil] at h

end Reads

/-- The first `n` elements. -/
def takeFront (n : Nat) (e : ε) : ListReader β ε (List β) := fun bytes =>
  if bytes.length < n then .error e else .ok (bytes.take n, bytes.drop n)

theorem reads_takeFront {n : Nat} {bytes : List β} (h : bytes.length = n) (e : ε) :
    Reads (takeFront n e) bytes bytes := by
  intro rest
  unfold takeFront
  rw [if_neg (by rw [List.length_append]; omega), List.take_left' h, List.drop_left' h]

/-- Reads values up to the end of the list, in at most `n` rounds. -/
def readMany (r : ListReader β ε α) (e : ε) : Nat → ListReader β ε (List α)
  | _, [] => .ok ([], [])
  | 0, _ :: _ => .error e
  | n + 1, b :: bytes => do
    let (x, rest) ← r (b :: bytes)
    let (xs, rest) ← readMany r e n rest
    .ok (x :: xs, rest)

theorem length_le_flatMap {encode : δ → List β} {items : List δ}
    (hne : ∀ item ∈ items, encode item ≠ []) : items.length ≤ (items.flatMap encode).length := by
  induction items with
  | nil => exact Nat.le_refl _
  | cons item items ih =>
    have hrest := ih fun i hi => hne i (List.mem_cons_of_mem _ hi)
    have hitem := List.length_pos_of_ne_nil (hne item List.mem_cons_self)
    rw [List.flatMap_cons, List.length_append, List.length_cons]
    omega

/-- What has been written value by value is read value by value. -/
theorem readMany_flatMap {r : ListReader β ε α} {e : ε} {encode : δ → List β} {value : δ → α}
    {items : List δ} {n : Nat} (hreads : ∀ item ∈ items, Reads r (value item) (encode item))
    (hne : ∀ item ∈ items, encode item ≠ []) (hn : items.length ≤ n) :
    readMany r e n (items.flatMap encode) = .ok (items.map value, []) := by
  induction items generalizing n with
  | nil => simp [readMany]
  | cons item items ih =>
    obtain ⟨n, rfl⟩ := Nat.exists_eq_add_of_lt hn
    have hrest := ih (fun i hi => hreads i (List.mem_cons_of_mem _ hi))
      (fun i hi => hne i (List.mem_cons_of_mem _ hi)) (Nat.le_add_right items.length n)
    have hitem := hreads item List.mem_cons_self (items.flatMap encode)
    obtain ⟨b, bytes, hbytes⟩ := List.exists_cons_of_ne_nil (hne item List.mem_cons_self)
    rw [List.flatMap_cons]
    rw [hbytes, List.cons_append] at hitem ⊢
    rw [readMany, hitem]
    show Except.bind (readMany r e (items.length + n) (items.flatMap encode)) _ = _
    rw [hrest]
    rfl

theorem Reads.unique {r : ListReader β ε α} {x y : α} {bytes : List β} (hx : Reads r x bytes)
    (hy : Reads r y bytes) : x = y :=
  congrArg Prod.fst (Except.ok.inj ((hx []).symm.trans (hy [])))

/-- What a reader has taken for a value of many was read, if it takes nothing else for the value. -/
theorem reads_of_readMany {r : ListReader β ε α} {e : ε} {encode : δ → List β} {value : δ → α}
    {items : List δ} {n : Nat} {rest : List β} (hne : ∀ item ∈ items, encode item ≠ [])
    (honly : ∀ item ∈ items, ∀ after after',
      r (encode item ++ after) = .ok (value item, after') → Reads r (value item) (encode item))
    (h : readMany r e n (items.flatMap encode) = .ok (items.map value, rest)) :
    ∀ item ∈ items, Reads r (value item) (encode item) := by
  induction items generalizing n rest with
  | nil => nofun
  | cons item items ih =>
    obtain ⟨hitem, hitems⟩ := List.forall_mem_cons.mp hne
    obtain ⟨b, bytes, hbytes⟩ := List.exists_cons_of_ne_nil hitem
    have honly' := honly item List.mem_cons_self (items.flatMap encode)
    rw [List.flatMap_cons] at h
    rw [hbytes, List.cons_append] at h honly'
    cases n with
    | zero => cases h
    | succ n =>
      rw [readMany] at h
      cases hread : r (b :: (bytes ++ items.flatMap encode)) with
      | error e' =>
        rw [hread] at h
        cases h
      | ok result =>
        obtain ⟨x, rest'⟩ := result
        rw [hread] at h
        change Except.bind (readMany r e n rest') _ = _ at h
        cases hmany : readMany r e n rest' with
        | error e' =>
          rw [hmany] at h
          cases h
        | ok result =>
          obtain ⟨xs, rest''⟩ := result
          rw [hmany] at h
          obtain ⟨hvalues, -⟩ := Prod.mk.inj (Except.ok.inj h)
          obtain ⟨rfl, rfl⟩ := List.cons.inj hvalues
          have hfirst := honly' rest' hread
          -- so the others were read from what stands behind it
          obtain rfl : rest' = items.flatMap encode := by
            have hboth := hfirst (items.flatMap encode)
            rw [List.cons_append, hread] at hboth
            exact congrArg Prod.snd (Except.ok.inj hboth)
          refine List.forall_mem_cons.mpr ⟨hbytes ▸ hfirst, ih hitems ?_ hmany⟩
          exact fun item' hmem => honly item' (List.mem_cons_of_mem _ hmem)

end ObHtap
