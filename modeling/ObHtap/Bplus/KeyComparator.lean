import ObHtap.Bplus.Key
import ObHtap.Library.LittleEndian
import ObHtap.Sql.Vectorized

/-!
# The comparison of stored keys

`AttrComparator` and `KeyComparator` on the bytes of the keys, with `FLOATS` among the columns.
Floats are exact rational numbers here.
-/

namespace ObHtap

/-- An entry of `attr_types_` and `attr_lengths_`; a number has four bytes. -/
inductive KeyColumn where
  | ints
  | floats
  | dates
  | chars (length : Nat)
  deriving DecidableEq, Repr

namespace KeyColumn

def length : KeyColumn → Nat
  | ints | floats | dates => 4
  | chars n => n

/-- The four bytes at the front as an `int`. -/
def intAt (v : List UInt8) : Int32 :=
  bytesInt32 (v.take 4)

/-- The four bytes at the front as a `float`. -/
def floatAt (v : List UInt8) : ℚ :=
  Sql.FloatBits.ofBits (intAt v)

/-- `AttrComparator::compare_key`. -/
def compareKey (v1 v2 : List UInt8) : KeyColumn → Int
  | ints | dates => compareInt (intAt v1).toInt (intAt v2).toInt
  | floats => Sql.compareFloat (floatAt v1) (floatAt v2)
  | chars n => compareString v1 n v2 n

/-- What a column holds; a string ends at the first zero byte. -/
inductive Content where
  | int (value : Int)
  | float (value : ℚ)
  | string (value : List ℕ)
  deriving DecidableEq

def content (v : List UInt8) : KeyColumn → Content
  | ints | dates => .int (intAt v).toInt
  | floats => .float (floatAt v)
  | chars n => .string (cString (v.take n))

end KeyColumn

open KeyColumn

/-- `total_attr_length`. -/
def totalAttrLength (columns : List KeyColumn) : Nat :=
  (columns.map KeyColumn.length).sum

/-- `AttrComparator::operator()`, with the pointers moved on by each column. -/
def attrCompare : List KeyColumn → List UInt8 → List UInt8 → Int
  | [], _, _ => 0
  | column :: columns, v1, v2 =>
    let result := column.compareKey v1 v2
    if result ≠ 0 then result
    else attrCompare columns (v1.drop column.length) (v2.drop column.length)

/-- The record identifier in the bytes at the front. -/
def ridAt (v : List UInt8) : RID where
  pageNum := (intAt v).toInt.toNat
  slotNum := (intAt (v.drop 4)).toInt.toNat

/-- `KeyComparator::operator()`. -/
def keyCompare (columns : List KeyColumn) (v1 v2 : List UInt8) : Int :=
  let result := attrCompare columns v1 v2
  if result ≠ 0 then result
  else RID.compare (ridAt (v1.drop (totalAttrLength columns)))
    (ridAt (v2.drop (totalAttrLength columns)))

/-- What the columns of a key hold. -/
def contents : List KeyColumn → List UInt8 → List Content
  | [], _ => []
  | column :: columns, v => column.content v :: contents columns (v.drop column.length)

/-- A key as it is stored: the columns and the record identifier, whose numbers are not negative. -/
structure StoredKey (columns : List KeyColumn) where
  bytes : List UInt8
  length_eq : bytes.length = totalAttrLength columns + 8
  pageNum_nonneg : 0 ≤ (intAt (bytes.drop (totalAttrLength columns))).toInt
  slotNum_nonneg : 0 ≤ (intAt ((bytes.drop (totalAttrLength columns)).drop 4)).toInt

namespace StoredKey

variable {columns : List KeyColumn}

def rid (key : StoredKey columns) : RID :=
  ridAt (key.bytes.drop (totalAttrLength columns))

def compare (k k' : StoredKey columns) : Int :=
  keyCompare columns k.bytes k'.bytes

end StoredKey

/-- The comparison is a total order that is consistent with equality, column by column in the
declared order and then by record identifier. -/
structure OrdersKeys (columns : List KeyColumn) : Prop where
  refl : ∀ k : StoredKey columns, k.compare k = 0
  antisymm : ∀ k k' : StoredKey columns, k.compare k' < 0 ↔ 0 < k'.compare k
  trans : ∀ k k' k'' : StoredKey columns,
    k.compare k' ≤ 0 → k'.compare k'' ≤ 0 → k.compare k'' ≤ 0
  equal : ∀ k k' : StoredKey columns, k.compare k' = 0 →
    contents columns k.bytes = contents columns k'.bytes ∧ k.rid = k'.rid
  declaredOrder : ∀ before column after, columns = before ++ column :: after →
    ∀ k k' : StoredKey columns, contents before k.bytes = contents before k'.bytes →
    let v := k.bytes.drop (totalAttrLength before)
    let v' := k'.bytes.drop (totalAttrLength before)
    column.compareKey v v' ≠ 0 → k.compare k' = column.compareKey v v'
  ridLast : ∀ k k' : StoredKey columns, contents columns k.bytes = contents columns k'.bytes →
    k.compare k' = RID.compare k.rid k'.rid

/-! ## Keys without floats -/

namespace KeyAttr

/-- The column of a type. -/
def column : KeyAttr → KeyColumn
  | ints => .ints
  | floats _ => .floats
  | dates => .dates
  | chars n => .chars n

@[simp] theorem length_column (attr : KeyAttr) : attr.column.length = attr.length := by
  cases attr <;> rfl

/-- The string of a length in the bytes at the front. -/
def charsAt (n : Nat) (v : List UInt8) : { s : List UInt8 // s.length = n } :=
  if h : (v.take n).length = n then ⟨v.take n, h⟩ else ⟨List.replicate n 0, length_zeros n⟩

/-- The value of a column in the bytes at the front. -/
def decode : (attr : KeyAttr) → List UInt8 → attr.Val
  | ints, v => (intAt v).toInt
  | floats column, v => column.ofBits (intAt v)
  | dates, v => (intAt v).toInt
  | chars n, v => charsAt n v

theorem val_charsAt {n : Nat} {v : List UInt8} (h : n ≤ v.length) :
    (charsAt n v).val = v.take n := by
  rw [charsAt, dif_pos (by rw [List.length_take]; omega)]

theorem compareKey_column (attr : KeyAttr) (hfloat : attr.column ≠ .floats) {v1 v2 : List UInt8}
    (h1 : attr.length ≤ v1.length) (h2 : attr.length ≤ v2.length) :
    attr.column.compareKey v1 v2 = attr.compareKey (attr.decode v1) (attr.decode v2) := by
  cases attr with
  | ints => rfl
  | floats _ => exact absurd rfl hfloat
  | dates => rfl
  | chars n =>
    change n ≤ v1.length at h1
    change n ≤ v2.length at h2
    change compareString v1 n v2 n = compareString (charsAt n v1).val n (charsAt n v2).val n
    rw [val_charsAt h1, val_charsAt h2]
    simp [compareString, List.take_take]

theorem content_column (attr : KeyAttr) (hfloat : attr.column ≠ .floats) {v1 v2 : List UInt8}
    (h1 : attr.length ≤ v1.length) (h2 : attr.length ≤ v2.length)
    (h : attr.rank (attr.decode v1) = attr.rank (attr.decode v2)) :
    attr.column.content v1 = attr.column.content v2 := by
  cases attr with
  | ints => exact congrArg Content.int (intRank_injective h)
  | floats _ => exact absurd rfl hfloat
  | dates => exact congrArg Content.int (intRank_injective h)
  | chars n =>
    change n ≤ v1.length at h1
    change n ≤ v2.length at h2
    have hstring : cString (charsAt n v1).val = cString (charsAt n v2).val :=
      (Prod.mk.inj (toLex.injective h)).2
    rw [val_charsAt h1, val_charsAt h2] at hstring
    exact congrArg Content.string hstring

end KeyAttr

namespace UserKey

/-- The user key in the bytes at the front. -/
def decode : (attrs : List KeyAttr) → List UInt8 → UserKey attrs
  | [], _ => ()
  | attr :: attrs, v => (attr.decode v, decode attrs (v.drop attr.length))

theorem totalAttrLength_columns (attrs : List KeyAttr) :
    totalAttrLength (attrs.map KeyAttr.column) = totalLength attrs := by
  simp only [totalAttrLength, totalLength, List.map_map]
  congr 1
  exact List.map_congr_left fun attr _ => attr.length_column

theorem attrCompare_columns (attrs : List KeyAttr) (hfloats : ∀ attr ∈ attrs, attr.column ≠ .floats)
    {v1 v2 : List UInt8}
    (h1 : totalLength attrs ≤ v1.length) (h2 : totalLength attrs ≤ v2.length) :
    attrCompare (attrs.map KeyAttr.column) v1 v2 =
      compare attrs (decode attrs v1) (decode attrs v2) := by
  induction attrs generalizing v1 v2 with
  | nil => rfl
  | cons attr attrs ih =>
    simp only [totalLength, List.map_cons, List.sum_cons] at h1 h2
    simp only [List.mem_cons, forall_eq_or_imp] at hfloats
    rw [List.map_cons, attrCompare, attr.compareKey_column hfloats.1 (by omega) (by omega),
      attr.length_column, ih hfloats.2, compare]
    · rfl
    · rw [List.length_drop, totalLength]
      omega
    · rw [List.length_drop, totalLength]
      omega

theorem contents_columns (attrs : List KeyAttr) (hfloats : ∀ attr ∈ attrs, attr.column ≠ .floats)
    {v1 v2 : List UInt8}
    (h1 : totalLength attrs ≤ v1.length) (h2 : totalLength attrs ≤ v2.length)
    (h : rank attrs (decode attrs v1) = rank attrs (decode attrs v2)) :
    contents (attrs.map KeyAttr.column) v1 = contents (attrs.map KeyAttr.column) v2 := by
  induction attrs generalizing v1 v2 with
  | nil => rfl
  | cons attr attrs ih =>
    simp only [totalLength, List.map_cons, List.sum_cons] at h1 h2
    obtain ⟨hhead, htail⟩ := Prod.mk.inj (toLex.injective h)
    simp only [List.mem_cons, forall_eq_or_imp] at hfloats
    rw [List.map_cons, contents, contents,
      attr.content_column hfloats.1 (by omega) (by omega) hhead, attr.length_column,
      ih hfloats.2 _ _ htail]
    · rw [List.length_drop, totalLength]
      omega
    · rw [List.length_drop, totalLength]
      omega

end UserKey

/-! ## Columns in the declared order -/

namespace KeyColumn

theorem compareKey_of_content {column : KeyColumn} {v1 v2 : List UInt8}
    (h1 : column.length ≤ v1.length) (h2 : column.length ≤ v2.length)
    (h : column.content v1 = column.content v2) : column.compareKey v1 v2 = 0 := by
  cases column with
  | ints => exact (ranked_compareInt.zero_iff _ _).mpr (Content.int.inj h)
  | dates => exact (ranked_compareInt.zero_iff _ _).mpr (Content.int.inj h)
  | floats =>
    have hfloat : floatAt v1 = floatAt v2 := Content.float.inj h
    rw [compareKey, hfloat]
    refine Sql.ComparisonExpr.compareFloat_near ?_ ?_
    · rw [sub_self]
      decide +kernel
    · rw [sub_self]
      decide +kernel
  | chars n =>
    change n ≤ v1.length at h1
    change n ≤ v2.length at h2
    have hlength : (v1.take n).length = (v2.take n).length := by
      rw [List.length_take, List.length_take]
      omega
    have hzero := (strncmp_spec (v1.take n) (v2.take n) hlength).2.mpr (Content.string.inj h)
    simp [compareKey, compareString, hzero]

end KeyColumn

theorem totalAttrLength_cons (column : KeyColumn) (columns : List KeyColumn) :
    totalAttrLength (column :: columns) = column.length + totalAttrLength columns := by
  simp [totalAttrLength]

theorem totalAttrLength_append (columns columns' : List KeyColumn) :
    totalAttrLength (columns ++ columns') = totalAttrLength columns + totalAttrLength columns' := by
  simp [totalAttrLength]

theorem contents_append (columns columns' : List KeyColumn) (v : List UInt8) :
    contents (columns ++ columns') v =
      contents columns v ++ contents columns' (v.drop (totalAttrLength columns)) := by
  induction columns generalizing v with
  | nil => rfl
  | cons column columns ih =>
    rw [List.cons_append, contents, contents, ih, List.cons_append, List.drop_drop,
      totalAttrLength_cons]

/-- Columns that hold the same leave the comparison to those behind them. -/
theorem attrCompare_append {columns : List KeyColumn} (columns' : List KeyColumn)
    {v1 v2 : List UInt8} (h1 : totalAttrLength columns ≤ v1.length)
    (h2 : totalAttrLength columns ≤ v2.length) (h : contents columns v1 = contents columns v2) :
    attrCompare (columns ++ columns') v1 v2 =
      attrCompare columns' (v1.drop (totalAttrLength columns))
        (v2.drop (totalAttrLength columns)) := by
  induction columns generalizing v1 v2 with
  | nil => rfl
  | cons column columns ih =>
    rw [totalAttrLength_cons] at h1 h2
    obtain ⟨hhead, htail⟩ := List.cons.inj h
    have hzero := compareKey_of_content (by omega) (by omega) hhead
    rw [List.cons_append, attrCompare, hzero, if_neg (by simp), ih _ _ htail, List.drop_drop,
      List.drop_drop, totalAttrLength_cons]
    · rw [List.length_drop]
      omega
    · rw [List.length_drop]
      omega

theorem attrCompare_of_contents {columns : List KeyColumn} {v1 v2 : List UInt8}
    (h1 : totalAttrLength columns ≤ v1.length) (h2 : totalAttrLength columns ≤ v2.length)
    (h : contents columns v1 = contents columns v2) : attrCompare columns v1 v2 = 0 := by
  have happend := attrCompare_append [] h1 h2 h
  rw [List.append_nil] at happend
  exact happend

namespace StoredKey

variable {columns : List KeyColumn}

theorem totalAttrLength_le (k : StoredKey columns) : totalAttrLength columns ≤ k.bytes.length := by
  rw [k.length_eq]
  omega

theorem compare_of_contents {k k' : StoredKey columns}
    (h : contents columns k.bytes = contents columns k'.bytes) :
    k.compare k' = RID.compare k.rid k'.rid := by
  rw [compare, keyCompare, attrCompare_of_contents k.totalAttrLength_le k'.totalAttrLength_le h]
  rfl

theorem compare_of_column {before after : List KeyColumn} {column : KeyColumn}
    (hcolumns : columns = before ++ column :: after) {k k' : StoredKey columns}
    (h : contents before k.bytes = contents before k'.bytes)
    (hne : column.compareKey (k.bytes.drop (totalAttrLength before))
      (k'.bytes.drop (totalAttrLength before)) ≠ 0) :
    k.compare k' = column.compareKey (k.bytes.drop (totalAttrLength before))
      (k'.bytes.drop (totalAttrLength before)) := by
  subst hcolumns
  have htotal : totalAttrLength before ≤ totalAttrLength (before ++ column :: after) := by
    rw [totalAttrLength_append]
    omega
  have hattr : attrCompare (before ++ column :: after) k.bytes k'.bytes =
      column.compareKey (k.bytes.drop (totalAttrLength before))
        (k'.bytes.drop (totalAttrLength before)) := by
    rw [attrCompare_append _ (htotal.trans k.totalAttrLength_le)
      (htotal.trans k'.totalAttrLength_le) h, attrCompare, if_pos hne]
  rw [compare, keyCompare, hattr, if_pos hne]

/-- Without floats the comparison of the bytes is that of the keys of the tree. -/
theorem compare_columns {attrs : List KeyAttr} (hfloats : ∀ attr ∈ attrs, attr.column ≠ .floats)
    (k k' : StoredKey (attrs.map KeyAttr.column)) :
    k.compare k' = Key.compare (UserKey.compare attrs) ⟨UserKey.decode attrs k.bytes, k.rid⟩
      ⟨UserKey.decode attrs k'.bytes, k'.rid⟩ := by
  have h := k.totalAttrLength_le
  have h' := k'.totalAttrLength_le
  rw [UserKey.totalAttrLength_columns] at h h'
  rw [compare, keyCompare, UserKey.attrCompare_columns attrs hfloats h h']
  rfl

end StoredKey

/-- Without floats the keys are ranked. -/
theorem ordersKeys_columns (attrs : List KeyAttr) (hfloats : ∀ attr ∈ attrs, attr.column ≠ .floats) :
    OrdersKeys (attrs.map KeyAttr.column) := by
  have hranked := Key.ranked (UserKey.ranked attrs)
  refine ⟨?_, ?_, ?_, ?_, ?_, ?_⟩
  · intro k
    rw [StoredKey.compare_columns hfloats, hranked.zero_iff]
  · intro k k'
    rw [StoredKey.compare_columns hfloats, StoredKey.compare_columns hfloats, hranked.neg_iff, hranked.pos_iff]
  · intro k k' k'' h h'
    rw [StoredKey.compare_columns hfloats, hranked.nonpos_iff] at h h' ⊢
    exact h.trans h'
  · intro k k' h
    rw [StoredKey.compare_columns hfloats, hranked.zero_iff] at h
    obtain ⟨huser, hrid⟩ := Prod.mk.inj (toLex.injective h)
    have hle := k.totalAttrLength_le
    have hle' := k'.totalAttrLength_le
    rw [UserKey.totalAttrLength_columns] at hle hle'
    exact ⟨UserKey.contents_columns attrs hfloats hle hle' huser, RID.rank_injective hrid⟩
  · intro before column after hcolumns k k' h
    exact StoredKey.compare_of_column hcolumns h
  · intro k k' h
    exact StoredKey.compare_of_contents h

theorem exists_columns_of_floats_notMem {columns : List KeyColumn} (h : .floats ∉ columns) :
    ∃ attrs : List KeyAttr, columns = attrs.map KeyAttr.column := by
  induction columns with
  | nil => exact ⟨[], rfl⟩
  | cons column columns ih =>
    obtain ⟨attrs, rfl⟩ := ih fun hmem => h (List.mem_cons_of_mem _ hmem)
    cases column with
    | ints => exact ⟨.ints :: attrs, rfl⟩
    | dates => exact ⟨.dates :: attrs, rfl⟩
    | chars n => exact ⟨.chars n :: attrs, rfl⟩
    | floats => exact absurd List.mem_cons_self h

/-! ## Keys with floats -/

theorem contents_of_take {columns : List KeyColumn} {v1 v2 : List UInt8}
    (h : v1.take (totalAttrLength columns) = v2.take (totalAttrLength columns)) :
    contents columns v1 = contents columns v2 := by
  induction columns generalizing v1 v2 with
  | nil => rfl
  | cons column columns ih =>
    rw [totalAttrLength_cons] at h
    have hhead : v1.take column.length = v2.take column.length := by
      have htake := congrArg (List.take column.length) h
      rwa [List.take_take, List.take_take, Nat.min_eq_left (by omega)] at htake
    have htail := congrArg (List.drop column.length) h
    rw [List.drop_take, List.drop_take, Nat.add_sub_cancel_left] at htail
    rw [contents, contents, ih htail]
    congr 1
    cases column with
    | ints | dates => exact congrArg (fun bytes => Content.int (bytesInt32 bytes).toInt) hhead
    | floats =>
      exact congrArg (fun bytes => Content.float (Sql.FloatBits.ofBits (bytesInt32 bytes))) hhead
    | chars n => exact congrArg (fun bytes => Content.string (cString bytes)) hhead

/-- The bytes of a key of zeros but for the four bytes of one column. -/
def floatBytes (before after : List KeyColumn) (bytes : List UInt8) : List UInt8 :=
  List.replicate (totalAttrLength before) 0 ++
    (bytes ++ List.replicate (totalAttrLength after + 8) 0)

theorem drop_floatBytes (before after : List KeyColumn) {bytes : List UInt8}
    (h : bytes.length = 4) :
    (floatBytes before after bytes).drop (totalAttrLength (before ++ .floats :: after)) =
      List.replicate 8 0 := by
  have hlength : bytes.length = KeyColumn.floats.length := h
  rw [totalAttrLength_append, totalAttrLength_cons, floatBytes, ← List.drop_drop,
    List.drop_left' List.length_replicate, ← List.drop_drop, List.drop_left' hlength,
    List.drop_replicate, Nat.add_sub_cancel_left]

/-- A key of zeros but for one float. -/
def floatKey (before after : List KeyColumn) (bytes : List UInt8) (h : bytes.length = 4) :
    StoredKey (before ++ .floats :: after) where
  bytes := floatBytes before after bytes
  length_eq := by
    rw [totalAttrLength_append, totalAttrLength_cons, floatBytes]
    simp only [List.length_append, List.length_replicate, h, KeyColumn.length]
    omega
  pageNum_nonneg := by
    rw [drop_floatBytes before after h]
    decide
  slotNum_nonneg := by
    rw [drop_floatBytes before after h]
    decide

/-- Two keys that differ by less than `EPSILON` in a float compare as equal. -/
theorem not_ordersKeys_floats (before after : List KeyColumn) :
    ¬OrdersKeys (before ++ .floats :: after) := by
  intro horders
  let zero := floatKey before after [0, 0, 0, 0] rfl
  -- `2 ^ -24`
  let tiny := floatKey before after [0, 0, 128, 51] rfl
  have hdrop : ∀ bytes : List UInt8, (floatBytes before after bytes).drop (totalAttrLength before) =
      bytes ++ List.replicate (totalAttrLength after + 8) 0 :=
    fun bytes => List.drop_left' List.length_replicate
  have hbefore : contents before zero.bytes = contents before tiny.bytes := by
    apply contents_of_take
    change (floatBytes before after _).take _ = (floatBytes before after _).take _
    rw [floatBytes, floatBytes, List.take_left' List.length_replicate,
      List.take_left' List.length_replicate]
  have hle : ∀ k : StoredKey (before ++ .floats :: after),
      totalAttrLength before ≤ k.bytes.length := by
    intro k
    have := k.totalAttrLength_le
    rw [totalAttrLength_append] at this
    omega
  have hattr : attrCompare (before ++ .floats :: after) zero.bytes tiny.bytes = 0 := by
    rw [attrCompare_append _ (hle zero) (hle tiny) hbefore]
    change attrCompare _ ((floatBytes before after _).drop _)
      ((floatBytes before after _).drop _) = 0
    rw [hdrop, hdrop, attrCompare]
    have hfloat : compareKey ([0, 0, 0, 0] ++ List.replicate (totalAttrLength after + 8) 0)
        ([0, 0, 128, 51] ++ List.replicate (totalAttrLength after + 8) 0) .floats = 0 := by
      change Sql.compareFloat (Sql.FloatBits.ofBits (bytesInt32 [0, 0, 0, 0]) : ℚ)
        (Sql.FloatBits.ofBits (bytesInt32 [0, 0, 128, 51])) = 0
      decide +kernel
    rw [hfloat, if_neg (by simp)]
    apply attrCompare_of_contents
    · simp [KeyColumn.length]
    · simp [KeyColumn.length]
    · rfl
  have hzero : zero.compare tiny = 0 := by
    rw [StoredKey.compare, keyCompare, hattr, if_neg (by simp)]
    change RID.compare (ridAt ((floatBytes before after _).drop _))
      (ridAt ((floatBytes before after _).drop _)) = 0
    rw [drop_floatBytes before after rfl, drop_floatBytes before after rfl]
    rfl
  have hcontents := (horders.equal zero tiny hzero).1
  rw [contents_append, contents_append, hbefore] at hcontents
  have hfloats := List.append_cancel_left hcontents
  change contents _ ((floatBytes before after _).drop _) =
    contents _ ((floatBytes before after _).drop _) at hfloats
  rw [hdrop, hdrop] at hfloats
  have hfloat := Content.float.inj (List.cons.inj hfloats).1
  have hne : (Sql.FloatBits.ofBits (bytesInt32 [0, 0, 0, 0]) : ℚ) ≠
      Sql.FloatBits.ofBits (bytesInt32 [0, 0, 128, 51]) := by
    decide +kernel
  exact hne hfloat

/-- The comparison orders the keys exactly when no column is a float. -/
theorem ordersKeys_iff (columns : List KeyColumn) : OrdersKeys columns ↔ .floats ∉ columns := by
  constructor
  · intro horders hmem
    obtain ⟨before, after, rfl⟩ := List.append_of_mem hmem
    exact not_ordersKeys_floats before after horders
  · intro hfree
    obtain ⟨attrs, rfl⟩ := exists_columns_of_floats_notMem hfree
    apply ordersKeys_columns attrs
    intro attr hattr hfloat
    exact hfree (List.mem_map.mpr ⟨attr, hattr, hfloat⟩)

/-- 0, `2⁻²⁰` and `2⁻¹⁹`: the first two and the last two compare as equal, the first and the last
do not. -/
theorem ordersKeys_fails : ∃ a b c : StoredKey [.floats],
    a.bytes = [0, 0, 0, 0] ++ List.replicate 8 0 ∧ b.bytes = [0, 0, 128, 53] ++ List.replicate 8 0 ∧
    c.bytes = [0, 0, 0, 54] ++ List.replicate 8 0 ∧
    c.compare b ≤ 0 ∧ b.compare a ≤ 0 ∧ ¬c.compare a ≤ 0 := by
  refine ⟨floatKey [] [] [0, 0, 0, 0] rfl, floatKey [] [] [0, 0, 128, 53] rfl,
    floatKey [] [] [0, 0, 0, 54] rfl, rfl, rfl, rfl, ?_, ?_, ?_⟩
  · decide +kernel
  · decide +kernel
  · decide +kernel

end ObHtap
