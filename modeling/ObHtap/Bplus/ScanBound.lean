import ObHtap.Bplus.LatchedScanner
import ObHtap.Bplus.Scanner
import Mathlib.Data.Int.ConditionallyCompleteOrder
import Mathlib.Order.ConditionallyCompleteLattice.Basic

/-!
# The bounds of a scan

`open` makes index keys of the user keys that a scan is bounded by.  A string that is longer than
the column cannot be a key: it is cut, and as a left bound its last byte is raised.
-/

namespace ObHtap

/-- A string bound: the bytes in front of its terminator, and the length that `open` is given,
which is not greater. -/
structure BoundString where
  bytes : List UInt8
  len : Nat
  nonzero : 0 ∉ bytes
  len_le : len ≤ bytes.length

namespace KeyAttr

/-- What a user key of a bound points to.  The floats of a column include those of the bounds. -/
def UserBytes : KeyAttr → Type
  | ints => Int
  | floats column => column.Val
  | dates => Int
  | chars _ => BoundString

/-- `attr_comparator` on two user keys.  It reads a string up to its terminator, whatever length is
given for it. -/
def compareBound : (attr : KeyAttr) → attr.UserBytes → attr.UserBytes → Int
  | ints, v1, v2 => compareInt v1 v2
  | floats _, v1, v2 => compareFloatBits v1.val v2.val
  | dates, v1, v2 => compareInt v1 v2
  | chars n, v1, v2 => compareString (v1.bytes ++ [0]) n (v2.bytes ++ [0]) n

/-- What a bound stands for, as the full string or as the number. -/
def boundRank : (attr : KeyAttr) → attr.UserBytes → Rank
  | ints, v => intRank v
  | floats column, v => (floats column).rank v
  | dates, v => intRank v
  | chars _, v => toLex (0, (v.bytes.take v.len).map UInt8.toNat)

end KeyAttr

/-- `BplusTreeScanner::fix_user_key`, with `should_inclusive`. -/
def fixUserKey (attrLength : Nat) (userKey : List UInt8) (wantGreater : Bool) :
    List UInt8 × Bool :=
  if userKey.length ≤ attrLength then
    (userKey ++ List.replicate (attrLength - userKey.length) 0, false)
  else
    let keyBuf := userKey.take attrLength
    if userKey.getD attrLength 0 = 0 then (keyBuf, false)
    else if wantGreater then
      (keyBuf.set (attrLength - 1) (keyBuf.getD (attrLength - 1) 0 + 1), true)
    else (keyBuf, true)

theorem length_fixUserKey (n : Nat) (userKey : List UInt8) (wantGreater : Bool) :
    (fixUserKey n userKey wantGreater).1.length = n := by
  rw [fixUserKey]
  split_ifs with hlen
  · rw [List.length_append, List.length_replicate]
    omega
  all_goals
    simp only [List.length_set, List.length_take]
    omega

/-- The fixed key of a string bound, as a value of the column. -/
def BoundString.fixed (n : Nat) (string : BoundString) (wantGreater : Bool) :
    { s : List UInt8 // s.length = n } × Bool :=
  (⟨(fixUserKey n (string.bytes.take string.len) wantGreater).1, length_fixUserKey _ _ _⟩,
    (fixUserKey n (string.bytes.take string.len) wantGreater).2)

/-- One value comes before another, or may be equal to it as well. -/
def Below {ρ : Type*} [Preorder ρ] (inclusive : Bool) (a b : ρ) : Prop :=
  if inclusive then a ≤ b else a < b

/-- A bound of a scan over one column. -/
structure ScanBound (attr : KeyAttr) where
  userKey : attr.UserBytes
  inclusive : Bool

namespace ScanBound

/-- The user key for the index, and whether the bound is inclusive in the end. -/
def fixed : (attr : KeyAttr) → Bool → ScanBound attr → attr.Val × Bool
  | .ints, _, bound => (bound.userKey, bound.inclusive)
  | .floats _, _, bound => (bound.userKey, bound.inclusive)
  | .dates, _, bound => (bound.userKey, bound.inclusive)
  | .chars n, wantGreater, bound =>
    let (key, shouldInclusive) := BoundString.fixed n bound.userKey wantGreater
    (key, shouldInclusive || bound.inclusive)

variable {attr : KeyAttr}

/-- The left key of `open`. -/
def leftKey (bound : ScanBound attr) : Key (UserKey [attr]) :=
  let (userKey, inclusive) := fixed attr true bound
  ⟨(userKey, ()), if inclusive then RID.min else RID.max⟩

/-- The right key of `open`. -/
def rightKey (bound : ScanBound attr) : Key (UserKey [attr]) :=
  let (userKey, inclusive) := fixed attr false bound
  ⟨(userKey, ()), if inclusive then RID.max else RID.min⟩

/-- A user key is within a left bound. -/
def FromLeft (bound : ScanBound attr) (userKey : UserKey [attr]) : Prop :=
  Below bound.inclusive (attr.boundRank bound.userKey) (attr.rank userKey.1)

/-- A user key is within a right bound. -/
def UpToRight (bound : ScanBound attr) (userKey : UserKey [attr]) : Prop :=
  Below bound.inclusive (attr.rank userKey.1) (attr.boundRank bound.userKey)

/-- The check of `open` that the left bound is not behind the right one. -/
def accepted (left right : Option (ScanBound attr)) : Bool :=
  match left, right with
  | some left, some right =>
    let result := attr.compareBound left.userKey right.userKey
    !(0 < result || (result = 0 && (!left.inclusive || !right.inclusive)))
  | _, _ => true

/-- The arguments of `open` as the scanner uses them. -/
def range (left right : Option (ScanBound attr)) : ScanRange (Key (UserKey [attr])) where
  valid := accepted left right
  leftKey := left.map leftKey
  rightKey := right.map rightKey

end ScanBound

/-! ## Strings longer than the column -/

/-- A list that is not longer than a prefix lies above the whole as soon as above the prefix. -/
theorem append_lt_iff {p k r : List ℕ} (hlen : k.length ≤ p.length) :
    p ++ r < k ↔ p < k := by
  induction p generalizing k with
  | nil =>
    obtain rfl := List.eq_nil_of_length_eq_zero (Nat.le_zero.mp hlen)
    exact iff_of_false (List.not_lt_nil _) (lt_irrefl _)
  | cons a p ih =>
    cases k with
    | nil => exact iff_of_false (List.not_lt_nil _) (List.not_lt_nil _)
    | cons c k =>
      rw [List.cons_append, List.cons_lt_cons_iff, List.cons_lt_cons_iff,
        ih (Nat.le_of_succ_le_succ hlen)]

theorem append_le_iff {p k r : List ℕ} (hlen : k.length ≤ p.length) (hr : r ≠ []) :
    p ++ r ≤ k ↔ p < k := by
  have hne : p ++ r ≠ k := by
    rintro rfl
    rw [List.length_append] at hlen
    exact hr (List.eq_nil_of_length_eq_zero (by omega))
  rw [le_iff_lt_or_eq, or_iff_left hne, append_lt_iff hlen]

/-- Raising the last element turns "above" into "not below". -/
theorem raised_le_iff {q k : List ℕ} {x : ℕ} (hlen : k.length ≤ q.length + 1) :
    q ++ [x + 1] ≤ k ↔ q ++ [x] < k := by
  rw [le_iff_lt_or_eq]
  induction q generalizing k with
  | nil =>
    cases k with
    | nil => simp
    | cons c k =>
      obtain rfl : k = [] := List.eq_nil_of_length_eq_zero (by simpa using hlen)
      simp only [List.nil_append, List.cons_lt_cons_iff, List.cons.injEq, List.not_lt_nil]
      grind
  | cons a q ih =>
    cases k with
    | nil => simp
    | cons c k =>
      simp only [List.cons_append, List.cons_lt_cons_iff, List.cons.injEq,
        ← ih (by simpa using hlen)]
      grind

theorem length_cString_le (s : List UInt8) : (cString s).length ≤ s.length := by
  rw [cString, List.length_map]
  exact (List.takeWhile_prefix _).length_le

theorem cString_of_nonzero {s : List UInt8} (h : 0 ∉ s) : cString s = s.map UInt8.toNat := by
  simpa using KeyAttr.cString_padded h 0

theorem toNat_succ {x : UInt8} (hx : x ≠ 255) : (x + 1).toNat = x.toNat + 1 := by
  have hlt := x.toNat_lt
  have hne : x.toNat ≠ 255 := fun h => hx (UInt8.toNat_inj.mp h)
  rw [UInt8.toNat_add]
  change (x.toNat + 1) % 256 = _
  omega

namespace ScanBound

variable {attr : KeyAttr}

/-- A left bound that is longer than the column, with no byte above the one to be raised.  The
source takes strings to be plain ASCII. -/
def Overflows : (attr : KeyAttr) → ScanBound attr → Prop
  | .ints, _ => False
  | .floats _, _ => False
  | .dates, _ => False
  | .chars n, bound => n < bound.userKey.len ∧ bound.userKey.bytes[n - 1]? = some 255

theorem string_le {a b : List ℕ} :
    (toLex (0, a) : KeyAttr.Rank) ≤ toLex (0, b) ↔ a ≤ b := by
  simp [Prod.Lex.toLex_le_toLex]

theorem string_lt {a b : List ℕ} :
    (toLex (0, a) : KeyAttr.Rank) < toLex (0, b) ↔ a < b := by
  simp [Prod.Lex.toLex_lt_toLex]

/-- The bytes of a bound that fit into the column, and the others. -/
theorem exists_prefix {n : Nat} (userKey : BoundString) (hlong : n < userKey.len) :
    ∃ r, r ≠ [] ∧ (userKey.bytes.take userKey.len).map UInt8.toNat =
      (userKey.bytes.take n).map UInt8.toNat ++ r := by
  have hlen := userKey.len_le
  refine ⟨((userKey.bytes.take userKey.len).drop n).map UInt8.toNat, fun h => ?_, ?_⟩
  · have := congrArg List.length h
    simp only [List.length_map, List.length_drop, List.length_take, List.length_nil] at this
    omega
  · rw [← List.map_append]
    have h := List.take_append_drop n (userKey.bytes.take userKey.len)
    rw [List.take_take, Nat.min_eq_left hlong.le] at h
    rw [h]

theorem nonzero_take {string : BoundString} (n : Nat) : 0 ∉ string.bytes.take n :=
  fun h => string.nonzero (List.mem_of_mem_take h)

theorem length_take_len (string : BoundString) :
    (string.bytes.take string.len).length = string.len := by
  rw [List.length_take, Nat.min_eq_left string.len_le]

theorem fixed_of_le {n : Nat} {string : BoundString} (h : string.len ≤ n) (wantGreater : Bool) :
    (string.fixed n wantGreater).2 = false ∧
      cString (string.fixed n wantGreater).1.val =
        (string.bytes.take string.len).map UInt8.toNat := by
  have hfix : fixUserKey n (string.bytes.take string.len) wantGreater =
      (string.bytes.take string.len ++ List.replicate (n - string.len) 0, false) := by
    rw [fixUserKey, length_take_len, if_pos h]
  simp only [BoundString.fixed, hfix]
  exact ⟨trivial, KeyAttr.cString_padded (nonzero_take _) _⟩

theorem fixUserKey_of_lt {n : Nat} {string : BoundString} (h : n < string.len)
    (wantGreater : Bool) :
    fixUserKey n (string.bytes.take string.len) wantGreater =
      (if wantGreater then
        (string.bytes.take n).set (n - 1) ((string.bytes.take n).getD (n - 1) 0 + 1)
      else string.bytes.take n, true) := by
  have hlt := h.trans_le string.len_le
  have hc : (string.bytes.take string.len).getD n 0 ≠ 0 := by
    rw [List.getD_eq_getElem?_getD, List.getElem?_take_of_lt h, List.getElem?_eq_getElem hlt]
    exact fun heq => string.nonzero (heq ▸ List.getElem_mem hlt)
  rw [fixUserKey, length_take_len, if_neg (not_le.mpr h), if_neg hc, List.take_take,
    Nat.min_eq_left h.le]
  cases wantGreater <;> rfl

/-- The string that a right bound is cut to. -/
theorem fixed_right_of_lt {n : Nat} {string : BoundString} (h : n < string.len) :
    (string.fixed n false).2 = true ∧
      cString (string.fixed n false).1.val = (string.bytes.take n).map UInt8.toNat := by
  simp only [BoundString.fixed, fixUserKey_of_lt h]
  exact ⟨trivial, cString_of_nonzero (nonzero_take _)⟩

/-- The string that a left bound is cut and raised to. -/
theorem fixed_left_of_lt {n : Nat} {string : BoundString} (hn : 0 < n) (h : n < string.len)
    (hno : string.bytes[n - 1]? ≠ some 255) :
    ∃ q x, (string.bytes.take n).map UInt8.toNat = q ++ [x] ∧ q.length + 1 = n ∧
      (string.fixed n true).2 = true ∧ cString (string.fixed n true).1.val = q ++ [x + 1] := by
  have hlt : n - 1 < string.bytes.length := by have := string.len_le; omega
  have hsplit : string.bytes.take n = string.bytes.take (n - 1) ++ [string.bytes[n - 1]] := by
    obtain ⟨m, rfl⟩ := Nat.exists_eq_add_of_lt hn
    simp
  have hlen : (string.bytes.take (n - 1)).length = n - 1 := by
    rw [List.length_take]
    omega
  have hne : string.bytes[n - 1] ≠ 255 := fun h => hno (by rw [List.getElem?_eq_getElem hlt, h])
  refine ⟨(string.bytes.take (n - 1)).map UInt8.toNat, (string.bytes[n - 1]).toNat, ?_, ?_, ?_⟩
  · rw [hsplit, List.map_append]
    rfl
  · rw [List.length_map, hlen]
    omega
  · have hraised : (string.bytes.take n).set (n - 1) ((string.bytes.take n).getD (n - 1) 0 + 1) =
        string.bytes.take (n - 1) ++ [string.bytes[n - 1] + 1] := by
      rw [hsplit, List.set_append_right _ _ hlen.le, List.getD_eq_getElem?_getD,
        List.getElem?_append_right hlen.le, hlen, Nat.sub_self]
      rfl
    have hzero : (0 : UInt8) ∉ string.bytes.take (n - 1) ++ [string.bytes[n - 1] + 1] := by
      rw [List.mem_append, List.mem_singleton, not_or]
      refine ⟨nonzero_take _, fun h => ?_⟩
      have := congrArg UInt8.toNat h
      rw [toNat_succ hne] at this
      exact absurd this (Nat.succ_ne_zero _).symm
    simp only [BoundString.fixed, fixUserKey_of_lt h, if_true, hraised]
    rw [cString_of_nonzero hzero, List.map_append, List.map_singleton, toNat_succ hne]
    exact ⟨trivial, rfl⟩

theorem below_string {inclusive : Bool} {a b : List ℕ} :
    Below inclusive (toLex (0, a) : KeyAttr.Rank) (toLex (0, b)) ↔ Below inclusive a b := by
  rw [Below, Below, string_le, string_lt]

theorem below_fixed_left {n : Nat} (hn : 0 < n) (string : BoundString) (inclusive : Bool)
    {k : List ℕ} (hlen : k.length ≤ n)
    (hno : ¬ (n < string.len ∧ string.bytes[n - 1]? = some 255)) :
    Below ((string.fixed n true).2 || inclusive) (cString (string.fixed n true).1.val) k ↔
      Below inclusive ((string.bytes.take string.len).map UInt8.toNat) k := by
  rcases Nat.lt_or_ge n string.len with hlong | hfits
  · -- the string is cut and its last byte is raised
    obtain ⟨q, x, hp, hq, hinc, hraised⟩ := fixed_left_of_lt hn hlong fun h => hno ⟨hlong, h⟩
    obtain ⟨r, hr, hb⟩ := exists_prefix string hlong
    have hlen' : k.length ≤ (q ++ [x]).length := by
      rwa [List.length_append, List.length_singleton, hq]
    rw [hinc, hraised, hb, hp]
    simp only [Below, Bool.true_or, if_true, raised_le_iff (hq ▸ hlen), append_le_iff hlen' hr,
      append_lt_iff hlen', ite_self]
  · rw [(fixed_of_le hfits _).1, (fixed_of_le hfits _).2, Bool.false_or]

theorem below_fixed_right {n : Nat} (string : BoundString) (inclusive : Bool) {k : List ℕ}
    (hlen : k.length ≤ n) :
    Below ((string.fixed n false).2 || inclusive) k (cString (string.fixed n false).1.val) ↔
      Below inclusive k ((string.bytes.take string.len).map UInt8.toNat) := by
  rcases Nat.lt_or_ge n string.len with hlong | hfits
  · obtain ⟨r, hr, hb⟩ := exists_prefix string hlong
    have hlt := hlong.trans_le string.len_le
    have hlen' : k.length ≤ ((string.bytes.take n).map UInt8.toNat).length := by
      rw [List.length_map, List.length_take]
      omega
    rw [(fixed_right_of_lt hlong).1, (fixed_right_of_lt hlong).2, hb]
    rw [Below, Below, Bool.true_or, if_pos rfl]
    cases inclusive with
    | true => rw [if_pos rfl, ← not_lt, ← not_lt, append_lt_iff hlen']
    | false =>
      rw [if_neg Bool.false_ne_true, ← not_lt, ← append_le_iff hlen' hr, not_le]
  · rw [(fixed_of_le hfits _).1, (fixed_of_le hfits _).2, Bool.false_or]

theorem fixed_left (hattr : attr ≠ .chars 0) {bound : ScanBound attr}
    (hno : ¬ Overflows attr bound) (userKey : UserKey [attr]) :
    Below (fixed attr true bound).2 (attr.rank (fixed attr true bound).1) (attr.rank userKey.1) ↔
      bound.FromLeft userKey := by
  match attr, bound, userKey, hno, hattr with
  | .ints, bound, userKey, _, _ => exact Iff.rfl
  | .floats _, bound, userKey, _, _ => exact Iff.rfl
  | .dates, bound, userKey, _, _ => exact Iff.rfl
  | .chars n, ⟨string, inclusive⟩, (v, _), hno, hattr =>
    have hn : 0 < n := Nat.pos_of_ne_zero fun h => hattr (by rw [h])
    have h := below_fixed_left hn string inclusive
      ((length_cString_le _).trans v.property.le) hno
    exact (below_string.trans h).trans below_string.symm

theorem fixed_right (bound : ScanBound attr) (userKey : UserKey [attr]) :
    Below (fixed attr false bound).2 (attr.rank userKey.1) (attr.rank (fixed attr false bound).1) ↔
      bound.UpToRight userKey := by
  match attr, bound, userKey with
  | .ints, bound, userKey => exact Iff.rfl
  | .floats _, bound, userKey => exact Iff.rfl
  | .dates, bound, userKey => exact Iff.rfl
  | .chars n, ⟨string, inclusive⟩, (v, _) =>
    have h := below_fixed_right string inclusive ((length_cString_le _).trans v.property.le)
    exact (below_string.trans h).trans below_string.symm

/-! ## Keys for the bounds -/

theorem rank_singleton_lt {u u' : UserKey [attr]} :
    UserKey.rank [attr] u < UserKey.rank [attr] u' ↔ attr.rank u.1 < attr.rank u'.1 := by
  refine Prod.Lex.toLex_lt_toLex.trans (or_iff_left ?_)
  rintro ⟨-, h⟩
  exact lt_irrefl () h

theorem rank_singleton_eq {u u' : UserKey [attr]} :
    UserKey.rank [attr] u = UserKey.rank [attr] u' ↔ attr.rank u.1 = attr.rank u'.1 := by
  refine toLex_inj.trans (Prod.mk.injEq _ _ _ _ ▸ ?_)
  exact and_iff_left rfl

/-- With the least record identifier a user key comes before its entries, with the greatest one
behind them. -/
theorem rank_le_iff_below {u : UserKey [attr]} {key : Key (UserKey [attr])} (inclusive : Bool)
    (hmax : key.rid.rank < RID.max.rank) :
    Key.rank (UserKey.rank [attr]) ⟨u, if inclusive then RID.min else RID.max⟩ ≤
        Key.rank (UserKey.rank [attr]) key ↔
      Below inclusive (attr.rank u.1) (attr.rank key.userKey.1) := by
  refine Prod.Lex.toLex_le_toLex.trans ?_
  rw [rank_singleton_lt, rank_singleton_eq, Below]
  cases inclusive with
  | true => exact (or_congr_right (and_iff_left (RID.min_le _))).trans le_iff_lt_or_eq.symm
  | false => simp [not_le.mpr hmax]

theorem rank_ge_iff_below {u : UserKey [attr]} {key : Key (UserKey [attr])} (inclusive : Bool)
    (hmin : RID.min.rank < key.rid.rank) (hmax : key.rid.rank < RID.max.rank) :
    Key.rank (UserKey.rank [attr]) key ≤
        Key.rank (UserKey.rank [attr]) ⟨u, if inclusive then RID.max else RID.min⟩ ↔
      Below inclusive (attr.rank key.userKey.1) (attr.rank u.1) := by
  refine Prod.Lex.toLex_le_toLex.trans ?_
  rw [rank_singleton_lt, rank_singleton_eq, Below]
  cases inclusive with
  | true => exact (or_congr_right (and_iff_left hmax.le)).trans le_iff_lt_or_eq.symm
  | false => simp [not_le.mpr hmin]

theorem leftKey_le_iff (hattr : attr ≠ .chars 0) {bound : ScanBound attr}
    (hno : ¬ Overflows attr bound) {key : Key (UserKey [attr])}
    (hmax : key.rid.rank < RID.max.rank) :
    Key.rank (UserKey.rank [attr]) bound.leftKey ≤ Key.rank (UserKey.rank [attr]) key ↔
      bound.FromLeft key.userKey :=
  (rank_le_iff_below _ hmax).trans (fixed_left hattr hno _)

theorem le_rightKey_iff {bound : ScanBound attr} {key : Key (UserKey [attr])}
    (hmin : RID.min.rank < key.rid.rank) (hmax : key.rid.rank < RID.max.rank) :
    Key.rank (UserKey.rank [attr]) key ≤ Key.rank (UserKey.rank [attr]) bound.rightKey ↔
      bound.UpToRight key.userKey :=
  (rank_ge_iff_below _ hmin hmax).trans (fixed_right bound _)

end ScanBound

end ObHtap
