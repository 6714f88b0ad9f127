import Mathlib.Data.Nat.Digits.Defs

/-!
# Decimal numbers as bytes

The text of an integer in base ten, and texts that are cut at a byte it cannot have.
-/

namespace ObHtap

/-- The decimal digits of a number, the most significant one first. -/
def decimalDigits (n : Nat) : List UInt8 :=
  if n = 0 then [48] else (Nat.digits 10 n).reverse.map fun d => UInt8.ofNat (48 + d)

/-- The decimal text of an integer. -/
def decimal (n : Int) : List UInt8 :=
  if n < 0 then 45 :: decimalDigits n.natAbs else decimalDigits n.natAbs

theorem digits_lt_ten {n d : Nat} (h : d ∈ Nat.digits 10 n) : d < 10 :=
  Nat.digits_lt_base (by omega) h

theorem toNat_digit {d : Nat} (h : d < 10) : (UInt8.ofNat (48 + d)).toNat = 48 + d := by
  have hsize : UInt8.size = 256 := rfl
  exact UInt8.toNat_ofNat_of_lt (by omega)

theorem mem_decimalDigits {n : Nat} {b : UInt8} (h : b ∈ decimalDigits n) :
    48 ≤ b.toNat ∧ b.toNat < 58 := by
  rw [decimalDigits] at h
  split at h
  · obtain rfl := List.mem_singleton.mp h
    decide
  · obtain ⟨d, hd, rfl⟩ := List.mem_map.mp h
    have hlt := digits_lt_ten (List.mem_reverse.mp hd)
    have hval := toNat_digit hlt
    omega

/-- The number whose digits a text has. -/
def ofDecimalDigits (bs : List UInt8) : Nat :=
  Nat.ofDigits 10 (bs.map fun b => b.toNat - 48).reverse

theorem ofDecimalDigits_decimalDigits (n : Nat) : ofDecimalDigits (decimalDigits n) = n := by
  rw [decimalDigits]
  split
  · next h =>
    rw [h]
    rfl
  · have hdigits : ∀ d ∈ (Nat.digits 10 n).reverse,
        ((fun b : UInt8 => b.toNat - 48) ∘ fun d => UInt8.ofNat (48 + d)) d = id d := by
      intro d hd
      have hval := toNat_digit (digits_lt_ten (List.mem_reverse.mp hd))
      simp only [Function.comp_apply, id_eq]
      omega
    rw [ofDecimalDigits, List.map_map, List.map_congr_left hdigits, List.map_id,
      List.reverse_reverse, Nat.ofDigits_digits]

theorem decimalDigits_injective : Function.Injective decimalDigits :=
  Function.LeftInverse.injective ofDecimalDigits_decimalDigits

theorem minus_notMem (n : Nat) : 45 ∉ decimalDigits n := by
  intro h
  have hdigit := mem_decimalDigits h
  exact absurd hdigit.1 (by decide)

theorem decimal_injective : Function.Injective decimal := by
  intro m n h
  rw [decimal, decimal] at h
  split at h <;> split at h
  · have habs := decimalDigits_injective (List.cons.inj h).2
    omega
  · exact absurd (by rw [← h]; exact List.mem_cons_self) (minus_notMem n.natAbs)
  · exact absurd (by rw [h]; exact List.mem_cons_self) (minus_notMem m.natAbs)
  · have habs := decimalDigits_injective h
    omega

theorem notMem_decimal {n : Int} {b : UInt8} (h : 58 ≤ b.toNat) : b ∉ decimal n := by
  intro hmem
  have hdigit : b ∈ decimalDigits n.natAbs ∨ b = 45 := by
    rw [decimal] at hmem
    split at hmem
    · exact (List.mem_cons.mp hmem).symm
    · exact .inl hmem
  rcases hdigit with hdigit | rfl
  · have hlt := mem_decimalDigits hdigit
    omega
  · exact absurd h (by decide)

/-- A text filled up with zeros on the left. -/
def zeroPadded (width : Nat) (text : List UInt8) : List UInt8 :=
  List.replicate (width - text.length) 48 ++ text

/-- The last decimal digits of a number, as many as asked for. -/
def fixedDigits : Nat → Nat → List UInt8
  | 0, _ => []
  | width + 1, n => fixedDigits width (n / 10) ++ [UInt8.ofNat (48 + n % 10)]

theorem decimalDigits_of_lt {n : Nat} (h : n < 10) : decimalDigits n = [UInt8.ofNat (48 + n)] := by
  rw [decimalDigits]
  split
  · next hzero =>
    rw [hzero]
    rfl
  · next hne => rw [Nat.digits_of_lt 10 n hne h, List.reverse_singleton, List.map_singleton]

theorem decimalDigits_of_le {n : Nat} (h : 10 ≤ n) :
    decimalDigits n = decimalDigits (n / 10) ++ [UInt8.ofNat (48 + n % 10)] := by
  rw [decimalDigits, if_neg (by omega), decimalDigits, if_neg (by omega),
    Nat.digits_def' (by omega) (by omega), List.reverse_cons, List.map_append, List.map_singleton]

theorem zeroPadded_append_singleton (width : Nat) (text : List UInt8) (c : UInt8) :
    zeroPadded (width + 1) (text ++ [c]) = zeroPadded width text ++ [c] := by
  rw [zeroPadded, zeroPadded, List.append_assoc, List.length_append, List.length_singleton,
    Nat.add_sub_add_right]

theorem fixedDigits_zero (width : Nat) : fixedDigits width 0 = List.replicate width 48 := by
  induction width with
  | zero => rfl
  | succ width ih =>
    rw [fixedDigits, Nat.zero_div, ih, List.replicate_succ']
    rfl

/-- A number that fits the width is printed with exactly so many digits. -/
theorem zeroPadded_decimalDigits {width n : Nat} (h : n < 10 ^ (width + 1)) :
    zeroPadded (width + 1) (decimalDigits n) = fixedDigits (width + 1) n := by
  induction width generalizing n with
  | zero =>
    have hlt : n < 10 := by omega
    rw [decimalDigits_of_lt hlt, fixedDigits, Nat.mod_eq_of_lt hlt]
    rfl
  | succ width ih =>
    rcases Nat.lt_or_ge n 10 with hlt | hle
    · rw [decimalDigits_of_lt hlt, fixedDigits, Nat.div_eq_of_lt hlt, Nat.mod_eq_of_lt hlt,
        fixedDigits_zero]
      rfl
    · have hdiv : n / 10 < 10 ^ (width + 1) := by
        rw [Nat.pow_succ] at h
        omega
      rw [decimalDigits_of_le hle, zeroPadded_append_singleton, ih hdiv]
      rfl

/-- Two texts are cut at the first place of a byte. -/
theorem append_cons_inj_of_notMem {α : Type} {c : α} {xs ys xs' ys' : List α} (hxs : c ∉ xs)
    (hxs' : c ∉ xs') (h : xs ++ c :: ys = xs' ++ c :: ys') : xs = xs' ∧ ys = ys' := by
  induction xs generalizing xs' with
  | nil =>
    cases xs' with
    | nil => simpa using h
    | cons x' xs' =>
      have hhead : c = x' := (List.cons.inj h).1
      exact absurd (by simp [hhead]) hxs'
  | cons x xs ih =>
    cases xs' with
    | nil =>
      have hhead : x = c := (List.cons.inj h).1
      exact absurd (by simp [hhead]) hxs
    | cons x' xs' =>
      rw [List.mem_cons, not_or] at hxs hxs'
      obtain ⟨hhead, htail⟩ := List.cons.inj h
      obtain ⟨hrest, hend⟩ := ih hxs.2 hxs'.2 htail
      exact ⟨by rw [hhead, hrest], hend⟩

end ObHtap
