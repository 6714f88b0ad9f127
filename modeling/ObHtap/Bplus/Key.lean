import ObHtap.Bplus.FloatColumn
import Mathlib.Algebra.GroupWithZero.Nat
import Mathlib.Data.Int.Order.Basic
import Mathlib.Data.List.Lex
import Mathlib.Data.Nat.Basic
import Mathlib.Data.Prod.Lex
import Mathlib.Order.Lex

/-!
# Index keys

A key of the index is the user key, that is the indexed columns one after the other, followed
by the record identifier.  `KeyComparator` compares the columns in their declared order and
then the record identifiers.
-/

namespace ObHtap

/-- `RID`.  Page and slot numbers of records are never negative. -/
structure RID where
  pageNum : Nat
  slotNum : Nat
  deriving DecidableEq, Repr, Inhabited

namespace RID

/-- `RID::compare`. -/
def compare (rid1 rid2 : RID) : Int :=
  let pageDiff : Int := rid1.pageNum - rid2.pageNum
  if pageDiff ≠ 0 then pageDiff else rid1.slotNum - rid2.slotNum

/-- `RID::min`. -/
def min : RID := ⟨0, 0⟩

/-- The order of record identifiers. -/
def rank (rid : RID) : ℕ ×ₗ ℕ := toLex (rid.pageNum, rid.slotNum)

theorem rank_injective : Function.Injective rank := by
  rintro ⟨p, s⟩ ⟨p', s'⟩ h
  simpa [rank] using h

theorem min_le (rid : RID) : min.rank ≤ rid.rank := by
  rw [rank, rank, Prod.Lex.toLex_le_toLex]
  simp only [min]
  rcases Nat.eq_zero_or_pos rid.pageNum with h | h
  · exact Or.inr ⟨h.symm, Nat.zero_le _⟩
  · exact Or.inl h

end RID

theorem ranked_sub : RankedBy (fun a b : ℕ => (a : Int) - b) id where
  neg_iff a b := by simp only [id]; omega
  zero_iff a b := by simp only [id]; omega

theorem RID.ranked : RankedBy RID.compare RID.rank where
  neg_iff a b := (ranked_sub.lex ranked_sub).neg_iff (a.pageNum, a.slotNum) (b.pageNum, b.slotNum)
  zero_iff a b := (ranked_sub.lex ranked_sub).zero_iff (a.pageNum, a.slotNum) (b.pageNum, b.slotNum)

/-! ## Column values -/

/-- `common::compare_int`. -/
def compareInt (v1 v2 : Int) : Int :=
  if v1 > v2 then 1 else if v1 < v2 then -1 else 0

theorem ranked_compareInt : RankedBy compareInt id where
  neg_iff a b := by
    change compareInt a b < 0 ↔ a < b
    unfold compareInt
    split_ifs <;> omega
  zero_iff a b := by
    change compareInt a b = 0 ↔ a = b
    unfold compareInt
    grind

/-- `strncmp` on the first bytes of two buffers: the comparison stops at the first
difference, at a zero byte, or where the bytes end. -/
def strncmp : List UInt8 → List UInt8 → Int
  | a :: s1, b :: s2 =>
    if a ≠ b then (a.toNat : Int) - b.toNat else if a = 0 then 0 else strncmp s1 s2
  | _, _ => 0

/-- `common::compare_string`. -/
def compareString (s1 : List UInt8) (maxLength1 : Nat) (s2 : List UInt8) (maxLength2 : Nat) :
    Int :=
  let maxlen := Nat.min maxLength1 maxLength2
  let result := strncmp (s1.take maxlen) (s2.take maxlen)
  if result ≠ 0 then if result < 0 then -1 else 1
  else if maxLength1 > maxlen then 1
  else if maxLength2 > maxlen then -1
  else 0

/-- The bytes that `strncmp` looks at: those before the first zero byte. -/
def cString (s : List UInt8) : List ℕ := (s.takeWhile (· ≠ 0)).map UInt8.toNat

@[simp] theorem cString_nil : cString [] = [] := rfl

theorem cString_cons (a : UInt8) (s : List UInt8) :
    cString (a :: s) = if a = 0 then [] else a.toNat :: cString s := by
  by_cases h : a = 0 <;> simp [cString, h]

theorem strncmp_spec (s1 s2 : List UInt8) (hlen : s1.length = s2.length) :
    (strncmp s1 s2 < 0 ↔ cString s1 < cString s2) ∧
      (strncmp s1 s2 = 0 ↔ cString s1 = cString s2) := by
  induction s1 generalizing s2 with
  | nil =>
    obtain rfl : s2 = [] := List.eq_nil_of_length_eq_zero hlen.symm
    simp [strncmp]
  | cons a s1 ih =>
    obtain _ | ⟨b, s2⟩ := s2
    · simp at hlen
    have ih := ih s2 (by simpa using hlen)
    rw [strncmp, cString_cons, cString_cons]
    by_cases hab : a = b
    · subst hab
      by_cases ha : a = 0
      · simp [ha]
      · simp [ha, ih.1, ih.2]
    · have hne : a.toNat ≠ b.toNat := fun h => hab (UInt8.toNat_inj.mp h)
      rw [if_pos hab]
      by_cases ha : a = 0
      · subst ha
        have hb : b ≠ 0 := Ne.symm hab
        have hpos : 0 < b.toNat := Nat.pos_of_ne_zero fun h => hb (UInt8.toNat_inj.mp h)
        simp only [hb, if_true, if_false, UInt8.toNat_zero, List.nil_lt_cons, iff_true]
        constructor
        · omega
        · simp only [reduceCtorEq, iff_false]
          omega
      · by_cases hb : b = 0
        · subst hb
          have hpos : 0 < a.toNat := Nat.pos_of_ne_zero fun h => ha (UInt8.toNat_inj.mp h)
          simp only [ha, if_true, if_false, UInt8.toNat_zero, List.not_lt_nil, iff_false]
          constructor
          · omega
          · simp only [reduceCtorEq, iff_false]
            omega
        · simp only [ha, hb, if_false, List.cons_lt_cons_iff, List.cons.injEq, hne, false_and,
            or_false, iff_false]
          omega

/-- The types of indexed columns with their lengths.  A column of floats comes with the floats that
it takes. -/
inductive KeyAttr where
  | ints
  | floats (column : FloatValues)
  | dates
  | chars (length : Nat)
  deriving DecidableEq

namespace KeyAttr

/-- What a column of the type stores: a 32-bit integer, one of its floats, or exactly as many bytes
as the column is long. -/
def Val : KeyAttr → Type
  | ints => Int
  | floats column => column.Val
  | dates => Int
  | chars n => { s : List UInt8 // s.length = n }

instance : (attr : KeyAttr) → DecidableEq attr.Val
  | ints => inferInstanceAs (DecidableEq Int)
  | floats column => inferInstanceAs (DecidableEq column.Val)
  | dates => inferInstanceAs (DecidableEq Int)
  | chars n => inferInstanceAs (DecidableEq { s : List UInt8 // s.length = n })

theorem length_zeros (n : Nat) : (List.replicate n (0 : UInt8)).length = n :=
  List.length_replicate

/-- All bytes zero, or the first float. -/
instance : (attr : KeyAttr) → Inhabited attr.Val
  | ints => ⟨(0 : Int)⟩
  | floats column => inferInstanceAs (Inhabited column.Val)
  | dates => ⟨(0 : Int)⟩
  | chars n => ⟨⟨List.replicate n 0, length_zeros n⟩⟩

/-- The number of bytes of a column. -/
def length : KeyAttr → Nat
  | ints => 4
  | floats _ => 4
  | dates => 4
  | chars n => n

/-- `AttrComparator::compare_key`. -/
def compareKey : (attr : KeyAttr) → attr.Val → attr.Val → Int
  | ints, v1, v2 => compareInt v1 v2
  | floats _, v1, v2 => compareFloatBits v1.val v2.val
  | dates, v1, v2 => compareInt v1 v2
  | chars n, v1, v2 => compareString v1.val n v2.val n

/-- The places that the values of columns have: a number, and a string behind it. -/
abbrev Rank : Type :=
  WithBot (WithTop ℚ) ×ₗ List ℕ

/-- The place of an integer. -/
def intRank (v : Int) : Rank :=
  toLex ((((v : ℚ) : WithTop ℚ) : WithBot (WithTop ℚ)), [])

/-- Numbers by value, strings by the bytes before the first zero. -/
def rank : (attr : KeyAttr) → attr.Val → Rank
  | ints, v => intRank v
  | floats _, v => toLex ((Sql.Single.ofBits v.val).rank, [])
  | dates, v => intRank v
  | chars _, v => toLex (0, cString v.val)

theorem intRank_injective : Function.Injective intRank := by
  intro v v' h
  simpa [intRank] using h

theorem ranked_compareInt_rank : RankedBy compareInt intRank where
  neg_iff a b := by simp [intRank, ranked_compareInt.neg_iff, Prod.Lex.toLex_lt_toLex]
  zero_iff a b := by simp [intRank, ranked_compareInt.zero_iff]

theorem compareKey_chars {n : Nat} (v1 v2 : (chars n).Val) :
    (chars n).compareKey v1 v2 =
      if strncmp v1.val v2.val ≠ 0 then if strncmp v1.val v2.val < 0 then -1 else 1 else 0 := by
  simp [compareKey, compareString, List.take_of_length_le, v1.property, v2.property]

theorem ranked_compareKey : (attr : KeyAttr) → RankedBy attr.compareKey attr.rank
  | ints => ranked_compareInt_rank
  | floats column =>
    { neg_iff := fun a b => by
        rw [rank, rank, Prod.Lex.toLex_lt_toLex]
        simp only [lt_self_iff_false, and_false, or_false]
        exact column.ranked.neg_iff a b
      zero_iff := fun a b => by
        rw [rank, rank, toLex_inj, Prod.mk.injEq, and_iff_left rfl]
        exact column.ranked.zero_iff a b }
  | dates => ranked_compareInt_rank
  | chars n =>
    { neg_iff := fun a b => by
        have h := strncmp_spec a.val b.val (a.property.trans b.property.symm)
        rw [compareKey_chars, rank, rank, Prod.Lex.toLex_lt_toLex]
        simp only [lt_self_iff_false, true_and, false_or, ← h.1]
        grind
      zero_iff := fun a b => by
        have h := strncmp_spec a.val b.val (a.property.trans b.property.symm)
        rw [compareKey_chars, rank, rank]
        simp only [EmbeddingLike.apply_eq_iff_eq, Prod.mk.injEq, true_and, ← h.2]
        grind }

/-- A string is followed by zero bytes only, as `Table::make_record` stores it. -/
def Padded : (attr : KeyAttr) → attr.Val → Prop
  | ints, _ => True
  | floats _, _ => True
  | dates, _ => True
  | chars _, v => ∃ (s : List UInt8) (k : Nat), 0 ∉ s ∧ v.val = s ++ List.replicate k 0

theorem cString_padded {s : List UInt8} (hs : 0 ∉ s) (k : Nat) :
    cString (s ++ List.replicate k 0) = s.map UInt8.toNat := by
  induction s with
  | nil => cases k <;> simp [List.replicate_succ, cString_cons]
  | cons a s ih =>
    simp only [List.mem_cons, not_or] at hs
    rw [List.cons_append, cString_cons, if_neg (Ne.symm hs.1), ih hs.2, List.map_cons]

theorem eq_of_rank_eq : (attr : KeyAttr) → {v1 v2 : attr.Val} → attr.Padded v1 →
    attr.Padded v2 → attr.rank v1 = attr.rank v2 → v1 = v2
  | ints, _, _, _, _, h => intRank_injective h
  | floats column, v1, v2, _, _, h => by
    have hzero := (column.ranked.zero_iff v1 v2).mpr (Prod.mk.inj (toLex.injective h)).1
    exact Subtype.ext (column.apart _ v1.property _ v2.property hzero)
  | dates, _, _, _, _, h => intRank_injective h
  | chars n, ⟨v1, hn1⟩, ⟨v2, hn2⟩, ⟨s1, k1, hs1, h1⟩, ⟨s2, k2, hs2, h2⟩, h => by
    have hc := (Prod.mk.inj (toLex.injective h)).2
    obtain rfl : v1 = s1 ++ List.replicate k1 0 := h1
    obtain rfl : v2 = s2 ++ List.replicate k2 0 := h2
    simp only [cString_padded hs1, cString_padded hs2] at hc
    obtain rfl := List.map_injective_iff.mpr (fun _ _ => UInt8.toNat_inj.mp) hc
    have hk : k1 = k2 := by
      simp only [List.length_append, List.length_replicate] at hn1 hn2
      omega
    subst hk
    rfl

end KeyAttr

/-! ## User keys -/

/-- The columns of an index entry, one value for every indexed column. -/
def UserKey : List KeyAttr → Type
  | [] => Unit
  | attr :: attrs => attr.Val × UserKey attrs

namespace UserKey

instance : (attrs : List KeyAttr) → DecidableEq (UserKey attrs)
  | [] => inferInstanceAs (DecidableEq Unit)
  | attr :: attrs =>
    have := instDecidableEq attrs
    inferInstanceAs (DecidableEq (attr.Val × UserKey attrs))

instance : (attrs : List KeyAttr) → Inhabited (UserKey attrs)
  | [] => ⟨()⟩
  | _ :: attrs =>
    have := instInhabited attrs
    ⟨(default, default)⟩

/-- `AttrComparator::operator()`: the first column that differs decides. -/
def compare : (attrs : List KeyAttr) → UserKey attrs → UserKey attrs → Int
  | [], _, _ => 0
  | attr :: attrs, v1, v2 =>
    let result := attr.compareKey v1.1 v2.1
    if result ≠ 0 then result else compare attrs v1.2 v2.2

/-- The ranks of the columns in order. -/
def Rank : List KeyAttr → Type
  | [] => Unit
  | _ :: attrs => KeyAttr.Rank ×ₗ Rank attrs

instance : (attrs : List KeyAttr) → LinearOrder (Rank attrs)
  | [] => inferInstanceAs (LinearOrder Unit)
  | _ :: attrs =>
    have := instLinearOrderRank attrs
    inferInstanceAs (LinearOrder (KeyAttr.Rank ×ₗ Rank attrs))

def rank : (attrs : List KeyAttr) → UserKey attrs → Rank attrs
  | [], _ => ()
  | attr :: attrs, v => toLex (attr.rank v.1, rank attrs v.2)

theorem ranked : (attrs : List KeyAttr) → RankedBy (compare attrs) (rank attrs)
  | [] =>
    { neg_iff := fun a _ => iff_of_false (lt_irrefl 0) (lt_irrefl (rank [] a))
      zero_iff := fun _ _ => iff_of_true rfl rfl }
  | attr :: attrs => (KeyAttr.ranked_compareKey attr).lex (ranked attrs)

/-- All strings of the key are followed by zero bytes only. -/
def Padded : (attrs : List KeyAttr) → UserKey attrs → Prop
  | [], _ => True
  | attr :: attrs, v => attr.Padded v.1 ∧ Padded attrs v.2

theorem eq_of_rank_eq : (attrs : List KeyAttr) → {u u' : UserKey attrs} → Padded attrs u →
    Padded attrs u' → rank attrs u = rank attrs u' → u = u'
  | [], ⟨⟩, ⟨⟩, _, _, _ => rfl
  | attr :: attrs, ⟨_, _⟩, ⟨_, _⟩, hu, hu', h =>
    have h' := Prod.mk.inj (toLex.injective h)
    Prod.ext (attr.eq_of_rank_eq hu.1 hu'.1 h'.1) (eq_of_rank_eq attrs hu.2 hu'.2 h'.2)

theorem rank_ints_injective : Function.Injective (rank [.ints]) := fun _ _ h =>
  eq_of_rank_eq [.ints] ⟨trivial, trivial⟩ ⟨trivial, trivial⟩ h

/-- `total_attr_length`. -/
def totalLength (attrs : List KeyAttr) : Nat := (attrs.map KeyAttr.length).sum

end UserKey

/-! ## Index keys -/

/-- The key of an index entry: `make_key` of the user key and the record identifier. -/
structure Key (υ : Type*) where
  userKey : υ
  rid : RID
  deriving DecidableEq, Inhabited

namespace Key

variable {υ : Type*}

/-- `KeyComparator::operator()`. -/
def compare (compareUser : υ → υ → Int) (v1 v2 : Key υ) : Int :=
  let result := compareUser v1.userKey v2.userKey
  if result ≠ 0 then result else RID.compare v1.rid v2.rid

def rank {ρ : Type*} (rankUser : υ → ρ) (key : Key υ) : ρ ×ₗ (ℕ ×ₗ ℕ) :=
  toLex (rankUser key.userKey, key.rid.rank)

theorem ranked {ρ : Type*} [LinearOrder ρ] {compareUser : υ → υ → Int} {rankUser : υ → ρ}
    (h : RankedBy compareUser rankUser) : RankedBy (compare compareUser) (rank rankUser) where
  neg_iff a b := (h.lex RID.ranked).neg_iff (a.userKey, a.rid) (b.userKey, b.rid)
  zero_iff a b := (h.lex RID.ranked).zero_iff (a.userKey, a.rid) (b.userKey, b.rid)

/-- With the least record identifier a user key ranks before all its entries. -/
theorem rank_min_le {ρ : Type*} [LinearOrder ρ] {rankUser : υ → ρ} (userKey : υ) (rid : RID) :
    rank rankUser ⟨userKey, RID.min⟩ ≤ rank rankUser ⟨userKey, rid⟩ := by
  rw [rank, rank, Prod.Lex.toLex_le_toLex]
  exact Or.inr ⟨rfl, RID.min_le rid⟩

theorem rank_injective {ρ : Type*} {rankUser : υ → ρ} (h : Function.Injective rankUser) :
    Function.Injective (rank rankUser) := by
  rintro ⟨u, r⟩ ⟨u', r'⟩ heq
  simp only [rank, EmbeddingLike.apply_eq_iff_eq, Prod.mk.injEq] at heq
  rw [h heq.1, RID.rank_injective heq.2]

end Key

end ObHtap
