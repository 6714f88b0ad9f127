import Mathlib.Tactic.Linarith
import Mathlib.Tactic.NormNum
import ObHtap.Sql.Column

/-!
# Evaluation by columns and by tuples

What `get_column` and `eval` find for a row of a chunk, against what `get_value` finds for the tuple
of the row.  Floats are exact rational numbers here.
-/

namespace ObHtap

namespace Sql

/-! ## Elements of the loops -/

theorem simdRows_le (simd : Bool) (size : Nat) : simdRows simd size ≤ size := by
  unfold simdRows
  split_ifs
  · exact Nat.div_mul_le_self size simdWidth
  · exact Nat.zero_le size

theorem elementAt_eq_ok {T : Type} {cells : List T} {index : Nat} {cell : T} :
    elementAt cells index = .ok cell ↔ cells[index]? = some cell := by
  unfold elementAt
  cases hcell : cells[index]? with
  | none => simp
  | some cell' => simp

section

variable {T : Type} {simd leftConstant rightConstant : Bool} {left right : List T}

/-- An element of the result is what one of the two operations gives for the elements there. -/
theorem getElem?_binaryOperator {simdOperation operation : T → T → Except Fault T} {size : Nat}
    {cells : List T}
    (h : binaryOperator simd simdOperation operation left right leftConstant rightConstant size =
      .ok cells) :
    cells.length = size ∧ ∀ i < size, ∃ x y z,
      left[if leftConstant then 0 else i]? = some x ∧
      right[if rightConstant then 0 else i]? = some y ∧ cells[i]? = some z ∧
      (simdOperation x y = .ok z ∨ operation x y = .ok z) := by
  obtain ⟨blocks, hblocks, h⟩ := bind_eq_ok h
  obtain ⟨rest, hrest, h⟩ := bind_eq_ok h
  cases h
  have hle : simdRows simd size ≤ size := simdRows_le simd size
  have hblocksLength : blocks.length = simdRows simd size := by
    rw [length_of_mapM hblocks, List.length_range]
  have hrestLength : rest.length = size - simdRows simd size := by
    rw [length_of_mapM hrest, List.length_range']
  refine ⟨?_, ?_⟩
  · rw [List.length_append, hblocksLength, hrestLength]
    omega
  · intro i hi
    by_cases hblock : i < simdRows simd size
    · obtain ⟨z, hz, hcell⟩ := getElem?_of_mapM hblocks
        (List.getElem?_eq_some_iff.mpr ⟨by rwa [List.length_range], List.getElem_range _⟩)
      obtain ⟨x, hx, hz⟩ := bind_eq_ok hz
      obtain ⟨y, hy, hz⟩ := bind_eq_ok hz
      refine ⟨x, y, z, elementAt_eq_ok.mp hx, elementAt_eq_ok.mp hy, ?_, Or.inl hz⟩
      rw [List.getElem?_append_left (by omega)]
      exact hcell
    · have hindex : (List.range' (simdRows simd size) (size - simdRows simd size))[i -
          simdRows simd size]? = some i := by
        rw [List.getElem?_range' (by omega)]
        congr 1
        omega
      obtain ⟨z, hz, hcell⟩ := getElem?_of_mapM hrest hindex
      obtain ⟨x, hx, hz⟩ := bind_eq_ok hz
      obtain ⟨y, hy, hz⟩ := bind_eq_ok hz
      refine ⟨x, y, z, elementAt_eq_ok.mp hx, elementAt_eq_ok.mp hy, ?_, Or.inr hz⟩
      rw [List.getElem?_append_right (by omega), hblocksLength]
      exact hcell

theorem getElem?_unaryOperator {operation : T → T} {input cells : List T} {isConstant : Bool}
    {size : Nat} (h : unaryOperator operation input isConstant size = .ok cells) :
    cells.length = size ∧ ∀ i < size, ∃ x,
      input[if isConstant then 0 else i]? = some x ∧ cells[i]? = some (operation x) := by
  refine ⟨by rw [length_of_mapM h, List.length_range], ?_⟩
  intro i hi
  obtain ⟨z, hz, hcell⟩ := getElem?_of_mapM h
    (List.getElem?_eq_some_iff.mpr ⟨by rwa [List.length_range], List.getElem_range _⟩)
  obtain ⟨x, hx, hz⟩ := bind_eq_ok hz
  cases hz
  exact ⟨x, elementAt_eq_ok.mp hx, hcell⟩

/-- The rows that are compared are anded with their comparisons, the others are left alone. -/
theorem getElem?_compareOperation {operation : T → T → Bool} {n : Nat} {result result' : List UInt8}
    (h : compareOperation simd operation left right leftConstant rightConstant n result =
      .ok result') (i : Nat) :
    if i < n then ∃ x y selected, left[if leftConstant then 0 else i]? = some x ∧
      right[if rightConstant then 0 else i]? = some y ∧ result[i]? = some selected ∧
      result'[i]? = some (selected &&& if operation x y then 1 else 0)
    else result'[i]? = result[i]? := by
  have hrange : List.range (simdRows simd n) ++
      List.range' (simdRows simd n) (n - simdRows simd n) = List.range n := by
    have happend : List.range' 0 (simdRows simd n) ++
        List.range' (0 + simdRows simd n) (n - simdRows simd n) = _ := List.range'_append_1
    rw [Nat.zero_add, Nat.add_sub_cancel' (simdRows_le simd n)] at happend
    rw [List.range_eq_range', List.range_eq_range', happend]
  rw [compareOperation, hrange] at h
  have hi := getElem?_of_foldlM_range (fun i selected => do
    let leftValue ← elementAt left (if leftConstant then 0 else i)
    let rightValue ← elementAt right (if rightConstant then 0 else i)
    .ok (selected &&& if operation leftValue rightValue then 1 else 0)) ?_ h i
  · by_cases hlt : i < n
    · rw [if_pos hlt] at hi ⊢
      obtain ⟨selected, selected', hselected, hchange, hselected'⟩ := hi
      obtain ⟨x, hx, hchange⟩ := bind_eq_ok hchange
      obtain ⟨y, hy, hchange⟩ := bind_eq_ok hchange
      cases hchange
      exact ⟨x, y, selected, elementAt_eq_ok.mp hx, elementAt_eq_ok.mp hy, hselected, hselected'⟩
    · rw [if_neg hlt] at hi ⊢
      exact hi
  · intro l l' i hstep
    obtain ⟨x, hx, hstep⟩ := bind_eq_ok hstep
    obtain ⟨y, hy, hstep⟩ := bind_eq_ok hstep
    obtain ⟨selected, hselected, hstep⟩ := bind_eq_ok hstep
    cases hstep
    refine ⟨selected, _, elementAt_eq_ok.mp hselected, ?_, rfl⟩
    rw [hx, hy]
    rfl

end

/-! ## Exact values -/

namespace NumericValue

/-- The four bytes of the value, read as a float, are the number that the value is converted to. -/
def ReadsAlike (v : NumericValue ℚ) : Prop :=
  v.cell.asFloat = v.toValue.getFloat

instance (v : NumericValue ℚ) : Decidable v.ReadsAlike :=
  inferInstanceAs (Decidable (_ = _))

theorem type_of_ofCell {F : Type} {type : ColumnType} {cell : Cell F} {v : NumericValue F}
    (h : ofCell type cell = some v) : v.type = type ∧ v.cell = cell := by
  unfold ofCell at h
  split at h
  · cases h
    exact ⟨rfl, rfl⟩
  · cases h
    exact ⟨rfl, rfl⟩
  · cases h
    exact ⟨rfl, rfl⟩
  · cases h

theorem ofCell_type {F : Type} (v : NumericValue F) : ofCell v.type v.cell = some v := by
  cases v <;> rfl

end NumericValue

/-- A divisor that `Value::divide` takes for zero. -/
def NearZero (x : ℚ) : Prop :=
  -Floats.epsilon < x ∧ x < Floats.epsilon

instance (x : ℚ) : Decidable (NearZero x) :=
  inferInstanceAs (Decidable (_ ∧ _))

/-- The value of an operation: on `INTS` when it does not overflow, and on numbers that are the same
read as floats and converted to floats when the divisor is not near zero. -/
def ArithmeticType.exact (arithmeticType : ArithmeticType) :
    ColumnType → NumericValue ℚ → NumericValue ℚ → Option (NumericValue ℚ)
  | .ints, .ints x, .ints y => (arithmeticType.intOperation x y).toOption.map .ints
  | .floats, left, right =>
    if left.ReadsAlike ∧ right.ReadsAlike ∧
        ¬(arithmeticType = .div ∧ NearZero right.toValue.getFloat) then
      some (.floats (arithmeticType.floatOperation left.toValue.getFloat right.toValue.getFloat))
    else none
  | _, _, _ => none

namespace NumericExpr

/-- The value of a column of the chunk in a row. -/
def fieldValue (chunk : Chunk ℚ) (row fieldId : Nat) : Option (NumericValue ℚ) :=
  chunk[fieldId]?.bind (·.valueAt row)

/-- The value of an expression for a row of a chunk. -/
def exact (chunk : Chunk ℚ) (row : Nat) : NumericExpr ℚ → Option (NumericValue ℚ)
  | field _ _ fieldId => fieldValue chunk row fieldId
  | value v => some v
  | binary arithmeticType left right => do
    let leftValue ← left.exact chunk row
    let rightValue ← right.exact chunk row
    arithmeticType.exact (binary arithmeticType left right).valueType leftValue rightValue
  | negative child => do
    let v ← child.exact chunk row
    if v.ReadsAlike then some (.floats (-v.toValue.getFloat)) else none

/-- The fields have columns of their types, and the tuple is that of the row. -/
def ReadsRow (findCell : TupleCellSpec → Except Fault (Value ℚ)) (chunk : Chunk ℚ) (row : Nat) :
    NumericExpr ℚ → Prop
  | field column fieldType fieldId => ∃ v, fieldValue chunk row fieldId = some v ∧
    v.type = fieldType ∧ findCell column.fieldSpec = .ok v.toValue
  | value _ => True
  | binary _ left right => left.ReadsRow findCell chunk row ∧ right.ReadsRow findCell chunk row
  | negative child => child.ReadsRow findCell chunk row

/-- Whether the column of an expression is constant. -/
def isConstant (chunk : Chunk ℚ) : NumericExpr ℚ → Bool
  | field _ _ fieldId => chunk[fieldId]?.any (·.isConstant)
  | value _ => true
  | binary _ left right => left.isConstant chunk && right.isConstant chunk
  | negative child => child.isConstant chunk

/-- The number of cells that the column of an expression has. -/
def cellCount (chunk : Chunk ℚ) : NumericExpr ℚ → Nat
  | field _ _ fieldId => (chunk[fieldId]?.map (·.data.length)).getD 0
  | value _ => 1
  | binary _ left right => max (left.cellCount chunk) (right.cellCount chunk)
  | negative child => max (child.cellCount chunk) 1

end NumericExpr

theorem ArithmeticType.exact_ints {arithmeticType : ArithmeticType} {left right v : NumericValue ℚ}
    (h : arithmeticType.exact .ints left right = some v) :
    ∃ x y z, left = .ints x ∧ right = .ints y ∧ v = .ints z ∧
      arithmeticType.intOperation x y = .ok z := by
  cases left with
  | ints x =>
    cases right with
    | ints y =>
      change (arithmeticType.intOperation x y).toOption.map .ints = some v at h
      cases hop : arithmeticType.intOperation x y with
      | error fault =>
        rw [hop] at h
        cases h
      | ok z =>
        rw [hop] at h
        cases h
        exact ⟨x, y, z, rfl, rfl, rfl, hop⟩
    | floats y => cases h
    | dates y => cases h
  | floats x => cases h
  | dates x => cases h

theorem ArithmeticType.exact_floats {arithmeticType : ArithmeticType}
    {left right v : NumericValue ℚ} (h : arithmeticType.exact .floats left right = some v) :
    left.ReadsAlike ∧ right.ReadsAlike ∧
      ¬(arithmeticType = .div ∧ NearZero right.toValue.getFloat) ∧
      v = .floats (arithmeticType.floatOperation left.toValue.getFloat
        right.toValue.getFloat) := by
  change (if _ then _ else none) = _ at h
  split_ifs at h with hcond
  cases h
  exact ⟨hcond.1, hcond.2.1, hcond.2.2, rfl⟩

theorem Column.cell_of_valueAt {column : Column ℚ} {row : Nat} {v : NumericValue ℚ}
    (h : column.valueAt row = some v) :
    column.data[column.indexOf row]? = some v.cell ∧ v.type = column.type := by
  obtain ⟨cell, hcell, hv⟩ := Option.bind_eq_some_iff.mp h
  obtain ⟨htype, rfl⟩ := NumericValue.type_of_ofCell hv
  exact ⟨hcell, htype⟩

theorem Column.valueAt_of_cell {column : Column ℚ} {row : Nat} {v : NumericValue ℚ}
    (hcell : column.data[column.indexOf row]? = some v.cell) (htype : v.type = column.type) :
    column.valueAt row = some v := by
  rw [Column.valueAt, hcell, ← htype]
  exact NumericValue.ofCell_type v

/-! ## Operations on a row -/

theorem eq_ofInt_of_checkedInt {n : Int} {z : Int32} (h : Value.checkedInt n = .ok z) :
    z = Int32.ofInt n := by
  unfold Value.checkedInt at h
  split_ifs at h
  cases h
  rfl

/-- An operation with SIMD that does not exit gives what the operation without it does. -/
theorem ArithmeticType.simdIntOperation_eq {arithmeticType : ArithmeticType} {x y z w : Int32}
    (hdiv : arithmeticType ≠ .div) (hop : arithmeticType.intOperation x y = .ok z)
    (hsimd : arithmeticType.simdIntOperation ℚ x y = .ok w) : w = z := by
  cases arithmeticType with
  | add =>
    obtain rfl : x + y = w := Except.ok.inj hsimd
    rw [eq_ofInt_of_checkedInt hop, Int32.ofInt_add, Int32.ofInt_toInt, Int32.ofInt_toInt]
  | sub => cases hsimd
  | mul => cases hsimd
  | div => exact absurd rfl hdiv

theorem ArithmeticType.simdFloatOperation_eq {arithmeticType : ArithmeticType} {x y w : ℚ}
    (hsimd : arithmeticType.simdFloatOperation x y = .ok w) :
    w = arithmeticType.floatOperation x y := by
  cases arithmeticType with
  | add => exact (Except.ok.inj hsimd).symm
  | sub => cases hsimd
  | mul => cases hsimd
  | div => exact (Except.ok.inj hsimd).symm

namespace NumericExpr

/-- The cell that `binary_operator` computes for a row is computed from the cells of the row. -/
theorem cell_of_binaryOperator {T : Type} {simd : Bool} {read : Cell ℚ → T}
    {simdOperation operation : T → T → Except Fault T} {leftColumn rightColumn : Column ℚ}
    {cells : List T} {row : Nat} {left right : NumericValue ℚ}
    (hleft : leftColumn.valueAt row = some left) (hright : rightColumn.valueAt row = some right)
    (h : binaryOperator simd simdOperation operation (leftColumn.data.map read)
      (rightColumn.data.map read) leftColumn.isConstant rightColumn.isConstant
      (max leftColumn.data.length rightColumn.data.length) = .ok cells) :
    ∃ z, cells[if leftColumn.isConstant && rightColumn.isConstant then 0 else row]? = some z ∧
      (simdOperation (read left.cell) (read right.cell) = .ok z ∨
        operation (read left.cell) (read right.cell) = .ok z) := by
  obtain ⟨hleftCell, -⟩ := Column.cell_of_valueAt hleft
  obtain ⟨hrightCell, -⟩ := Column.cell_of_valueAt hright
  have hleftLt := (List.getElem?_eq_some_iff.mp hleftCell).1
  have hrightLt := (List.getElem?_eq_some_iff.mp hrightCell).1
  have hindex : (if leftColumn.isConstant && rightColumn.isConstant then 0 else row) <
      max leftColumn.data.length rightColumn.data.length := by
    unfold Column.indexOf at hleftLt hrightLt
    cases hl : leftColumn.isConstant <;> cases hr : rightColumn.isConstant <;>
      simp only [hl, hr, Bool.and_true, Bool.and_false, Bool.false_eq_true, if_true, if_false]
        at hleftLt hrightLt ⊢ <;> omega
  obtain ⟨x, y, z, hx, hy, hz, hop⟩ := (getElem?_binaryOperator h).2 _ hindex
  have hleftIndex : (if leftColumn.isConstant then 0
      else if leftColumn.isConstant && rightColumn.isConstant then 0 else row) =
      leftColumn.indexOf row := by
    unfold Column.indexOf
    cases leftColumn.isConstant <;> rfl
  have hrightIndex : (if rightColumn.isConstant then 0
      else if leftColumn.isConstant && rightColumn.isConstant then 0 else row) =
      rightColumn.indexOf row := by
    unfold Column.indexOf
    cases rightColumn.isConstant <;> simp
  rw [hleftIndex, List.getElem?_map, hleftCell] at hx
  rw [hrightIndex, List.getElem?_map, hrightCell] at hy
  obtain rfl := Option.some.inj hx
  obtain rfl := Option.some.inj hy
  exact ⟨z, hz, hop⟩

theorem calcColumn_exact {simd : Bool} {arithmeticType : ArithmeticType} {type : ColumnType}
    {leftColumn rightColumn column : Column ℚ} {row : Nat} {left right v : NumericValue ℚ}
    (hdiv : type = .ints → arithmeticType ≠ .div)
    (hleft : leftColumn.valueAt row = some left) (hright : rightColumn.valueAt row = some right)
    (hexact : arithmeticType.exact type left right = some v)
    (h : calcColumn simd arithmeticType type leftColumn rightColumn = .ok column) :
    column.valueAt row = some v := by
  obtain ⟨cells, hcells, heq⟩ := bind_eq_ok h
  cases heq
  cases type with
  | ints =>
    obtain ⟨x, y, z, rfl, rfl, rfl, hop⟩ := ArithmeticType.exact_ints hexact
    obtain ⟨elements, helements, heq⟩ := bind_eq_ok hcells
    cases heq
    obtain ⟨w, hw, hor⟩ := cell_of_binaryOperator hleft hright helements
    have hwz : w = z := by
      rcases hor with hsimd | hplain
      · exact ArithmeticType.simdIntOperation_eq (hdiv rfl) hop hsimd
      · exact Except.ok.inj (hplain.symm.trans hop)
    apply Column.valueAt_of_cell _ rfl
    rw [← hwz, List.getElem?_map]
    exact congrArg (Option.map _) hw
  | floats =>
    obtain ⟨hleftAlike, hrightAlike, -, rfl⟩ := ArithmeticType.exact_floats hexact
    obtain ⟨elements, helements, heq⟩ := bind_eq_ok hcells
    cases heq
    obtain ⟨w, hw, hor⟩ := cell_of_binaryOperator hleft hright helements
    have hwz : w = arithmeticType.floatOperation left.cell.asFloat right.cell.asFloat := by
      rcases hor with hsimd | hplain
      · exact ArithmeticType.simdFloatOperation_eq hsimd
      · exact (Except.ok.inj hplain).symm
    apply Column.valueAt_of_cell _ rfl
    rw [← hleftAlike, ← hrightAlike, ← hwz, List.getElem?_map]
    exact congrArg (Option.map _) hw
  | dates => cases hcells

end NumericExpr

theorem NumericValue.isNull_toValue (v : NumericValue ℚ) : v.toValue.isNull = false := by
  cases v <;> rfl

theorem ArithmeticType.calcValue_exact {arithmeticType : ArithmeticType} {type : ColumnType}
    {left right v : NumericValue ℚ} (hdiv : type = .ints → arithmeticType ≠ .div)
    (hexact : arithmeticType.exact type left right = some v) :
    arithmeticType.calcValue type left.toValue right.toValue = .ok v.toValue := by
  cases type with
  | ints =>
    obtain ⟨x, y, z, rfl, rfl, rfl, hop⟩ := exact_ints hexact
    cases arithmeticType with
    | div => exact absurd rfl (hdiv rfl)
    | add =>
      have hadd : Value.add ColumnType.ints.attrType (.ints x : NumericValue ℚ).toValue
          (.ints y : NumericValue ℚ).toValue = .ok (.ints z : NumericValue ℚ).toValue :=
        congrArg (Except.map Value.ints) hop
      simp only [calcValue, hadd]
    | sub =>
      have hsub : Value.subtract ColumnType.ints.attrType (.ints x : NumericValue ℚ).toValue
          (.ints y : NumericValue ℚ).toValue = .ok (.ints z : NumericValue ℚ).toValue :=
        congrArg (Except.map Value.ints) hop
      simp only [calcValue, hsub]
    | mul =>
      have hmul : Value.multiply ColumnType.ints.attrType (.ints x : NumericValue ℚ).toValue
          (.ints y : NumericValue ℚ).toValue = .ok (.ints z : NumericValue ℚ).toValue :=
        congrArg (Except.map Value.ints) hop
      simp only [calcValue, hmul]
  | floats =>
    obtain ⟨-, -, hzero, rfl⟩ := exact_floats hexact
    have hnull : ¬(left.toValue.isNull = true ∨ right.toValue.isNull = true) := by
      rw [left.isNull_toValue, right.isNull_toValue]
      simp
    cases arithmeticType with
    | add =>
      have hadd : Value.add ColumnType.floats.attrType left.toValue right.toValue =
          .ok (.floats (left.toValue.getFloat + right.toValue.getFloat)) := if_neg hnull
      simp only [calcValue, hadd]
      rfl
    | sub =>
      have hsub : Value.subtract ColumnType.floats.attrType left.toValue right.toValue =
          .ok (.floats (left.toValue.getFloat - right.toValue.getFloat)) := if_neg hnull
      simp only [calcValue, hsub]
      rfl
    | mul =>
      have hmul : Value.multiply ColumnType.floats.attrType left.toValue right.toValue =
          .ok (.floats (left.toValue.getFloat * right.toValue.getFloat)) := if_neg hnull
      simp only [calcValue, hmul]
      rfl
    | div =>
      have hdivisor : ¬(Floats.lt (-Floats.epsilon) right.toValue.getFloat = true ∧
          Floats.lt right.toValue.getFloat Floats.epsilon = true) := by
        intro hnear
        exact hzero ⟨rfl, of_decide_eq_true hnear.1, of_decide_eq_true hnear.2⟩
      have hquotient : Value.divide ColumnType.floats.attrType left.toValue right.toValue =
          .ok (.floats (left.toValue.getFloat / right.toValue.getFloat)) :=
        (if_neg hnull).trans (if_neg hdivisor)
      simp only [calcValue, hquotient]
      rfl
  | dates => cases hexact

/-! ## Values of expressions -/

namespace NumericExpr

theorem valueType_binary_ints {arithmeticType : ArithmeticType} {left right : NumericExpr ℚ}
    (h : (binary arithmeticType left right).valueType = .ints) : arithmeticType ≠ .div := by
  rw [valueType] at h
  split_ifs at h with hcond
  exact hcond.2.2

variable {findCell : TupleCellSpec → Except Fault (Value ℚ)} {chunk : Chunk ℚ} {row : Nat}

theorem getValue_exact {expr : NumericExpr ℚ} {v : NumericValue ℚ}
    (hrow : expr.ReadsRow findCell chunk row) (hexact : expr.exact chunk row = some v) :
    expr.getValue findCell = .ok v.toValue := by
  induction expr generalizing v with
  | field column fieldType fieldId =>
    obtain ⟨w, hw, -, hcell⟩ := hrow
    obtain rfl : w = v := Option.some.inj (hw.symm.trans hexact)
    exact hcell
  | value w =>
    cases hexact
    rfl
  | binary arithmeticType left right ihleft ihright =>
    obtain ⟨l, hl, hexact⟩ := Option.bind_eq_some_iff.mp hexact
    obtain ⟨r, hr, hexact⟩ := Option.bind_eq_some_iff.mp hexact
    rw [getValue, ihleft hrow.1 hl, ihright hrow.2 hr]
    exact ArithmeticType.calcValue_exact valueType_binary_ints hexact
  | negative child ih =>
    obtain ⟨w, hw, hexact⟩ := Option.bind_eq_some_iff.mp hexact
    split_ifs at hexact
    cases hexact
    rw [getValue, ih hrow hw]
    change Value.negative .floats w.toValue = _
    rw [Value.negative, w.isNull_toValue]
    rfl

/-- The column of an expression has its type, and the exact value in the row. -/
theorem getColumn_exact {simd : Bool} {expr : NumericExpr ℚ} {column : Column ℚ}
    {v : NumericValue ℚ} (hrow : expr.ReadsRow findCell chunk row)
    (hexact : expr.exact chunk row = some v) (h : expr.getColumn simd chunk = .ok column) :
    column.valueAt row = some v := by
  induction expr generalizing v column with
  | field _ fieldType fieldId =>
    have hcolumn := elementAt_eq_ok.mp h
    rw [exact, fieldValue, hcolumn] at hexact
    exact hexact
  | value w =>
    cases hexact
    cases h
    exact Column.valueAt_of_cell rfl rfl
  | binary arithmeticType left right ihleft ihright =>
    obtain ⟨l, hl, hexact⟩ := Option.bind_eq_some_iff.mp hexact
    obtain ⟨r, hr, hexact⟩ := Option.bind_eq_some_iff.mp hexact
    obtain ⟨leftColumn, hleft, h⟩ := bind_eq_ok h
    obtain ⟨rightColumn, hright, h⟩ := bind_eq_ok h
    exact calcColumn_exact valueType_binary_ints (ihleft hrow.1 hl hleft)
      (ihright hrow.2 hr hright) hexact h
  | negative child ih =>
    obtain ⟨w, hw, hexact⟩ := Option.bind_eq_some_iff.mp hexact
    split_ifs at hexact with halike
    cases hexact
    obtain ⟨childColumn, hchild, h⟩ := bind_eq_ok h
    obtain ⟨cells, hcells, heq⟩ := bind_eq_ok h
    cases heq
    obtain ⟨hcell, -⟩ := Column.cell_of_valueAt (ih hrow hw hchild)
    have hlt := (List.getElem?_eq_some_iff.mp hcell).1
    obtain ⟨x, hx, hneg⟩ := (getElem?_unaryOperator hcells).2 (childColumn.indexOf row)
      (lt_max_of_lt_left hlt)
    have hindex : (if childColumn.isConstant then 0 else childColumn.indexOf row) =
        childColumn.indexOf row := by
      unfold Column.indexOf
      cases childColumn.isConstant <;> rfl
    rw [hindex, List.getElem?_map, hcell] at hx
    obtain rfl := Option.some.inj hx
    apply Column.valueAt_of_cell _ rfl
    rw [← halike, List.getElem?_map]
    exact congrArg (Option.map _) hneg

theorem isConstant_of_getColumn {simd : Bool} {expr : NumericExpr ℚ} {column : Column ℚ}
    (h : expr.getColumn simd chunk = .ok column) :
    column.isConstant = expr.isConstant chunk ∧ column.data.length = expr.cellCount chunk := by
  induction expr generalizing column with
  | field _ _ fieldId =>
    have hcolumn := elementAt_eq_ok.mp h
    rw [isConstant, cellCount, hcolumn]
    exact ⟨rfl, rfl⟩
  | value w =>
    cases h
    exact ⟨rfl, rfl⟩
  | binary arithmeticType left right ihleft ihright =>
    obtain ⟨leftColumn, hleft, h⟩ := bind_eq_ok h
    obtain ⟨rightColumn, hright, h⟩ := bind_eq_ok h
    obtain ⟨cells, hcells, heq⟩ := bind_eq_ok h
    cases heq
    refine ⟨by rw [isConstant, ← (ihleft hleft).1, ← (ihright hright).1], ?_⟩
    rw [cellCount, ← (ihleft hleft).2, ← (ihright hright).2]
    unfold executeCalc at hcells
    split at hcells
    · obtain ⟨elements, helements, heq⟩ := bind_eq_ok hcells
      cases heq
      rw [List.length_map]
      exact (getElem?_binaryOperator helements).1
    · obtain ⟨elements, helements, heq⟩ := bind_eq_ok hcells
      cases heq
      rw [List.length_map]
      exact (getElem?_binaryOperator helements).1
    · cases hcells
  | negative child ih =>
    obtain ⟨childColumn, hchild, h⟩ := bind_eq_ok h
    obtain ⟨cells, hcells, heq⟩ := bind_eq_ok h
    cases heq
    refine ⟨(ih hchild).1, ?_⟩
    rw [cellCount, ← (ih hchild).2, List.length_map]
    exact (getElem?_unaryOperator hcells).1

end NumericExpr

/-! ## Comparisons -/

namespace ComparisonExpr

/-- The operators that `compare_result` has. -/
def Compared (comp : CompOp) : Prop :=
  comp = .equalTo ∨ comp = .notEqual ∨ comp = .greatEqual ∨ comp = .greatThan ∨
    comp = .lessEqual ∨ comp = .lessThan

instance (comp : CompOp) : Decidable (Compared comp) :=
  inferInstanceAs (Decidable (_ ∨ _))

/-- The exact comparison of two values of a type. -/
def holds (comp : CompOp) : NumericValue ℚ → NumericValue ℚ → Option Bool
  | .ints x, .ints y => operation (fun x y => decide (x = y)) (fun x y => decide (x < y)) x y comp
  | .floats x, .floats y =>
    operation (fun x y => decide (x = y)) (fun x y => decide (x < y)) x y comp
  | .dates x, .dates y => operation (fun x y => decide (x = y)) (fun x y => decide (x < y)) x y comp
  | _, _ => none

/-- Two floats that differ by no more than `EPSILON`, in a comparison that has another result for
equal ones. -/
def TolerancePrevails (comp : CompOp) : NumericValue ℚ → NumericValue ℚ → Prop
  | .floats x, .floats y => x ≠ y ∧ -Floats.epsilon ≤ x - y ∧ x - y ≤ Floats.epsilon ∧
    (comp = .equalTo ∨ comp = .notEqual ∨ x < y ∧ (comp = .greatEqual ∨ comp = .lessThan) ∨
      y < x ∧ (comp = .lessEqual ∨ comp = .greatThan))
  | _, _ => False

section

variable {simd : Bool} {comp : CompOp} {leftColumn rightColumn : Column ℚ}
  {select select' : List UInt8} {row : Nat} {left right : NumericValue ℚ}

theorem compareColumn_of_not_compared {T : Type} {eq lt : T → T → Bool} {read : Cell ℚ → T}
    (hcomp : ¬Compared comp) :
    compareColumn simd eq lt read comp leftColumn rightColumn select = .ok select := by
  unfold Compared at hcomp
  cases comp with
  | equalTo | notEqual | greatEqual | greatThan | lessEqual | lessThan => simp at hcomp
  | _ => rfl

theorem compareColumn_of_compared {T : Type} {eq lt : T → T → Bool} {read : Cell ℚ → T}
    (hcomp : Compared comp) :
    compareColumn simd eq lt read comp leftColumn rightColumn select =
      compareOperation simd (fun x y => (operation eq lt x y comp).getD true)
        (leftColumn.data.map read) (rightColumn.data.map read) leftColumn.isConstant
        rightColumn.isConstant (rowCount leftColumn rightColumn) select := by
  rcases hcomp with rfl | rfl | rfl | rfl | rfl | rfl <;> rfl

/-- The rows that are not compared are those behind the cells of two constants. -/
theorem lt_rowCount_iff (hleft : leftColumn.valueAt row = some left)
    (hright : rightColumn.valueAt row = some right) :
    row < rowCount leftColumn rightColumn ↔
      ¬(leftColumn.isConstant = true ∧ rightColumn.isConstant = true ∧
        leftColumn.data.length ≤ row) := by
  have hleftLt := (List.getElem?_eq_some_iff.mp (Column.cell_of_valueAt hleft).1).1
  have hrightLt := (List.getElem?_eq_some_iff.mp (Column.cell_of_valueAt hright).1).1
  unfold rowCount
  unfold Column.indexOf at hleftLt hrightLt
  cases hl : leftColumn.isConstant <;> cases hr : rightColumn.isConstant <;>
    simp only [hl, hr, Bool.not_true, Bool.not_false, Bool.and_true, Bool.and_false,
      Bool.false_eq_true, if_true, if_false] at hleftLt hrightLt ⊢ <;> simp <;> omega

/-- A row that is compared is anded with the comparison of its cells. -/
theorem getElem?_compareColumn {T : Type} {eq lt : T → T → Bool} {read : Cell ℚ → T}
    (hcomp : Compared comp) (hrow : row < rowCount leftColumn rightColumn)
    (hleft : leftColumn.valueAt row = some left) (hright : rightColumn.valueAt row = some right)
    (h : compareColumn simd eq lt read comp leftColumn rightColumn select = .ok select') :
    ∃ selected, select[row]? = some selected ∧ select'[row]? = some (selected &&&
      if (operation eq lt (read left.cell) (read right.cell) comp).getD true then 1 else 0) := by
  rw [compareColumn_of_compared hcomp] at h
  have hi := getElem?_compareOperation h row
  rw [if_pos hrow] at hi
  obtain ⟨x, y, selected, hx, hy, hselected, hselected'⟩ := hi
  have hleftCell := (Column.cell_of_valueAt hleft).1
  have hrightCell := (Column.cell_of_valueAt hright).1
  rw [Column.indexOf] at hleftCell hrightCell
  rw [List.getElem?_map, hleftCell] at hx
  rw [List.getElem?_map, hrightCell] at hy
  obtain rfl := Option.some.inj hx
  obtain rfl := Option.some.inj hy
  exact ⟨selected, hselected, hselected'⟩

theorem getElem?_compareColumn_of_le {T : Type} {eq lt : T → T → Bool} {read : Cell ℚ → T}
    (hrow : rowCount leftColumn rightColumn ≤ row)
    (h : compareColumn simd eq lt read comp leftColumn rightColumn select = .ok select') :
    select'[row]? = select[row]? := by
  by_cases hcomp : Compared comp
  · rw [compareColumn_of_compared hcomp] at h
    have hi := getElem?_compareOperation h row
    rw [if_neg (by omega)] at hi
    exact hi
  · rw [compareColumn_of_not_compared hcomp] at h
    cases h
    rfl

/-- The columns of a chunk that are compared have one type. -/
theorem compareColumn_of_eval {chunk : Chunk ℚ} {leftExpr rightExpr : NumericExpr ℚ}
    (h : eval simd chunk comp leftExpr rightExpr select = .ok select') :
    ∃ leftColumn rightColumn, leftExpr.getColumn simd chunk = .ok leftColumn ∧
      rightExpr.getColumn simd chunk = .ok rightColumn ∧ leftColumn.type = rightColumn.type ∧
      ((leftColumn.type = .ints ∨ leftColumn.type = .dates) ∧
          compareColumn simd (fun x y : Int32 => decide (x = y)) (fun x y => decide (x < y))
            Cell.asInt comp leftColumn rightColumn select = .ok select' ∨
        leftColumn.type = .floats ∧
          compareColumn simd FloatBits.eq (Floats.lt (F := ℚ)) Cell.asFloat comp leftColumn
            rightColumn select = .ok select') := by
  obtain ⟨leftColumn, hleft, h⟩ := bind_eq_ok h
  obtain ⟨rightColumn, hright, h⟩ := bind_eq_ok h
  split_ifs at h with htype
  refine ⟨leftColumn, rightColumn, hleft, hright, not_not.mp htype, ?_⟩
  cases hleftType : leftColumn.type with
  | ints =>
    rw [hleftType] at h
    exact Or.inl ⟨Or.inl rfl, h⟩
  | dates =>
    rw [hleftType] at h
    exact Or.inl ⟨Or.inr rfl, h⟩
  | floats =>
    rw [hleftType] at h
    exact Or.inr ⟨rfl, h⟩

end

/-! ## Comparisons of two values -/

theorem operation_congr {T T' : Type} {eq lt : T → T → Bool} {eq' lt' : T' → T' → Bool} {x y : T}
    {x' y' : T'} (comp : CompOp) (heq : eq x y = eq' x' y') (hlt : lt x y = lt' x' y')
    (hgt : lt y x = lt' y' x') : operation eq lt x y comp = operation eq' lt' x' y' comp := by
  cases comp with
  | equalTo | notEqual => simp only [operation, heq]
  | greatEqual | greatThan => simp only [operation, heq, hgt]
  | lessEqual | lessThan => simp only [operation, heq, hlt]
  | _ => rfl

/-- The result of a comparison as the operators read it. -/
def signHolds (comp : CompOp) (cmpResult : Int) : Option Bool :=
  operation (fun a b : Int => decide (a = b)) (fun a b => decide (a < b)) cmpResult 0 comp

theorem ofCmpResult_sign {comp : CompOp} {cmpResult : Int} (hcomp : Compared comp)
    (hsign : cmpResult = 1 ∨ cmpResult = -1 ∨ cmpResult = 0) :
    ∃ b, signHolds comp cmpResult = some b ∧ ofCmpResult comp cmpResult = .ok b := by
  rcases hsign with rfl | rfl | rfl <;> rcases hcomp with rfl | rfl | rfl | rfl | rfl | rfl <;>
    exact ⟨_, rfl, rfl⟩

theorem evalComp_sign [StrLike ℚ] {comp : CompOp} (left right : NumericValue ℚ) {cmpResult : Int}
    (hcomp : Compared comp) (hcompare : left.toValue.compare right.toValue = .ok cmpResult)
    (hsign : cmpResult = 1 ∨ cmpResult = -1 ∨ cmpResult = 0) :
    ∃ b, signHolds comp cmpResult = some b ∧
      evalComp comp left.toValue right.toValue = .ok b := by
  obtain ⟨b, hb, hresult⟩ := ofCmpResult_sign hcomp hsign
  have heval : evalComp comp left.toValue right.toValue =
      compareValue comp left.toValue right.toValue := by
    rcases hcomp with rfl | rfl | rfl | rfl | rfl | rfl <;> rfl
  have hleftSize : left.toValue.listSize = 1 := by
    cases left <;> rfl
  have hrightSize : right.toValue.listSize = 1 := by
    cases right <;> rfl
  refine ⟨b, hb, ?_⟩
  rw [heval, compareValue, hcompare]
  change (if _ then _ else _) = _
  rw [hleftSize, hrightSize, left.isNull_toValue, right.isNull_toValue]
  exact hresult

theorem compareInt_sign (x y : Int32) :
    (compareInt x y = 1 ∨ compareInt x y = -1 ∨ compareInt x y = 0) ∧
      (x = y ↔ compareInt x y = 0) ∧ (x < y ↔ compareInt x y < 0) ∧ (y < x ↔ 0 < compareInt x y) := by
  have heq : x = y ↔ x.toInt = y.toInt := Int32.toInt_inj.symm
  rw [heq, Int32.lt_iff_toInt_lt, Int32.lt_iff_toInt_lt]
  unfold compareInt
  simp only [Int32.lt_iff_toInt_lt]
  split_ifs <;> grind

theorem operation_compareInt (comp : CompOp) (x y : Int32) :
    operation (fun x y : Int32 => decide (x = y)) (fun x y => decide (x < y)) x y comp =
      signHolds comp (compareInt x y) := by
  obtain ⟨-, heq, hlt, hgt⟩ := compareInt_sign x y
  exact operation_congr comp (decide_eq_decide.mpr heq) (decide_eq_decide.mpr hlt)
    (decide_eq_decide.mpr hgt)

theorem compareFloat_sign (x y : ℚ) :
    compareFloat x y = 1 ∨ compareFloat x y = -1 ∨ compareFloat x y = 0 := by
  unfold compareFloat
  split_ifs
  · exact Or.inl rfl
  · exact Or.inr (Or.inl rfl)
  · exact Or.inr (Or.inr rfl)

/-- Numbers that are equal or differ by more than `EPSILON` have the sign of their difference. -/
theorem operation_compareFloat (comp : CompOp) {x y : ℚ}
    (hfar : x = y ∨ x - y < -Floats.epsilon ∨ Floats.epsilon < x - y) :
    operation (fun x y : ℚ => decide (x = y)) (fun x y => decide (x < y)) x y comp =
      signHolds comp (compareFloat x y) := by
  have hepsilon : (0 : ℚ) < Floats.epsilon := by
    norm_num [Floats.epsilon]
  have hif : compareFloat x y =
      if Floats.epsilon < x - y then 1 else if x - y < -Floats.epsilon then -1 else 0 := by
    simp only [compareFloat, Floats.lt, decide_eq_true_eq]
  apply operation_congr
  · apply decide_eq_decide.mpr
    rw [hif]
    constructor
    · rintro rfl
      rw [if_neg (by linarith), if_neg (by linarith)]
    · intro hzero
      split_ifs at hzero with hgt hlt
      · cases hzero
      · rcases hfar with h | h | h
        · exact h
        · exact absurd h hlt
        · exact absurd h hgt
  · apply decide_eq_decide.mpr
    rw [hif]
    split_ifs with hgt hlt
    · exact iff_of_false (by linarith) (by omega)
    · exact iff_of_true (by linarith) (by omega)
    · rcases hfar with h | h | h
      · exact iff_of_false (by linarith) (by omega)
      · contradiction
      · contradiction
  · apply decide_eq_decide.mpr
    rw [hif]
    split_ifs with hgt hlt
    · exact iff_of_true (by linarith) (by omega)
    · exact iff_of_false (by linarith) (by omega)
    · rcases hfar with h | h | h
      · exact iff_of_false (by linarith) (by omega)
      · contradiction
      · contradiction

theorem compareFloat_near {x y : ℚ} (hlow : -Floats.epsilon ≤ x - y)
    (hhigh : x - y ≤ Floats.epsilon) : compareFloat x y = 0 := by
  simp only [compareFloat, Floats.lt, decide_eq_true_eq]
  rw [if_neg (not_lt.mpr hhigh), if_neg (not_lt.mpr hlow)]

/-- The comparison of two different numbers is that of equal ones, unless the tolerance prevails. -/
theorem operation_near {comp : CompOp} {x y : ℚ} (hcomp : Compared comp) (hne : x ≠ y) :
    operation (fun x y : ℚ => decide (x = y)) (fun x y => decide (x < y)) x y comp =
        signHolds comp 0 ↔
      ¬(comp = .equalTo ∨ comp = .notEqual ∨ x < y ∧ (comp = .greatEqual ∨ comp = .lessThan) ∨
        y < x ∧ (comp = .lessEqual ∨ comp = .greatThan)) := by
  rcases lt_or_gt_of_ne hne with hlt | hgt
  · have hnlt : ¬y < x := not_lt.mpr hlt.le
    rcases hcomp with rfl | rfl | rfl | rfl | rfl | rfl <;>
      simp [operation, signHolds, hne, hlt, hnlt]
  · have hngt : ¬x < y := not_lt.mpr hgt.le
    rcases hcomp with rfl | rfl | rfl | rfl | rfl | rfl <;>
      simp [operation, signHolds, hne, hgt, hngt]

/-- The comparison of two values of a type is exact but where the tolerance prevails. -/
theorem evalComp_holds [StrLike ℚ] {comp : CompOp} {left right : NumericValue ℚ}
    (hcomp : Compared comp) (htype : left.type = right.type) :
    ∃ b b', evalComp comp left.toValue right.toValue = .ok b ∧ holds comp left right = some b' ∧
      (b = b' ↔ ¬TolerancePrevails comp left right) := by
  cases left with
  | ints x =>
    cases right with
    | ints y =>
      obtain ⟨b, hb, heval⟩ := evalComp_sign (.ints x) (.ints y) hcomp rfl
        (compareInt_sign x y).1
      exact ⟨b, b, heval, (operation_compareInt comp x y).trans hb, iff_of_true rfl id⟩
    | floats y => cases htype
    | dates y => cases htype
  | dates x =>
    cases right with
    | ints y => cases htype
    | floats y => cases htype
    | dates y =>
      obtain ⟨b, hb, heval⟩ := evalComp_sign (.dates x) (.dates y) hcomp rfl
        (compareInt_sign x y).1
      exact ⟨b, b, heval, (operation_compareInt comp x y).trans hb, iff_of_true rfl id⟩
  | floats x =>
    cases right with
    | ints y => cases htype
    | dates y => cases htype
    | floats y =>
      obtain ⟨b, hb, heval⟩ := evalComp_sign (.floats x) (.floats y) hcomp rfl
        (compareFloat_sign x y)
      by_cases hfar : x = y ∨ x - y < -Floats.epsilon ∨ Floats.epsilon < x - y
      · refine ⟨b, b, heval, (operation_compareFloat comp hfar).trans hb, iff_of_true rfl ?_⟩
        rintro ⟨hne, hlow, hhigh, -⟩
        rcases hfar with h | h | h
        · exact hne h
        · exact absurd hlow (not_le.mpr h)
        · exact absurd hhigh (not_le.mpr h)
      · obtain ⟨hne, hlow, hhigh⟩ : x ≠ y ∧ -Floats.epsilon ≤ x - y ∧ x - y ≤ Floats.epsilon := by
          simp only [not_or, not_lt] at hfar
          exact hfar
        rw [compareFloat_near hlow hhigh] at hb
        have hsome : ∃ b', holds comp (.floats x) (.floats y) = some b' := by
          rcases hcomp with rfl | rfl | rfl | rfl | rfl | rfl <;> exact ⟨_, rfl⟩
        obtain ⟨b', hb'⟩ := hsome
        refine ⟨b, b', heval, hb', ?_⟩
        have hnear := operation_near hcomp hne
        rw [hb] at hnear
        change holds comp (.floats x) (.floats y) = some b ↔ _ at hnear
        rw [hb', Option.some.injEq] at hnear
        constructor
        · rintro rfl ⟨-, -, -, hprevails⟩
          exact hnear.mp rfl hprevails
        · intro hnot
          refine (hnear.mpr ?_).symm
          intro hprevails
          exact hnot ⟨hne, hlow, hhigh, hprevails⟩

/-! ## Rows of a chunk -/

section

variable {simd : Bool} {comp : CompOp} {findCell : TupleCellSpec → Except Fault (Value ℚ)}
  {chunk : Chunk ℚ} {row : Nat} {left right : NumericExpr ℚ} {l r : NumericValue ℚ}
  {select select' : List UInt8}

/-- The rows that `eval` leaves as they are: all of them when the operator is not one that it
compares, and those behind the cells of two constants. -/
def Untouched (chunk : Chunk ℚ) (row : Nat) (comp : CompOp) (left right : NumericExpr ℚ) : Prop :=
  ¬Compared comp ∨ left.isConstant chunk = true ∧ right.isConstant chunk = true ∧
    left.cellCount chunk ≤ row

instance : Decidable (Untouched chunk row comp left right) :=
  inferInstanceAs (Decidable (_ ∨ _))

/-- The comparison of the cells of a row is that of its values. -/
theorem operation_of_valueAt (comp : CompOp) {column column' : Column ℚ}
    (hleft : column.valueAt row = some l) (hright : column'.valueAt row = some r)
    (htype : column.type = column'.type) :
    (column.type = .floats → holds comp l r =
      operation FloatBits.eq (Floats.lt (F := ℚ)) l.cell.asFloat r.cell.asFloat comp) ∧
    (column.type = .ints ∨ column.type = .dates → holds comp l r =
      operation (fun x y : Int32 => decide (x = y)) (fun x y => decide (x < y)) l.cell.asInt
        r.cell.asInt comp) := by
  have hl : l.type = column.type := (Column.cell_of_valueAt hleft).2
  have hr : r.type = column.type := (Column.cell_of_valueAt hright).2.trans htype.symm
  cases hcolumn : column.type with
  | floats =>
    rw [hcolumn] at hl hr
    refine ⟨?_, by simp⟩
    intro
    cases l with
    | floats x =>
      cases r with
      | floats y => rfl
      | ints y | dates y => cases hr
    | ints x | dates x => cases hl
  | ints =>
    rw [hcolumn] at hl hr
    refine ⟨by simp, ?_⟩
    intro
    cases l with
    | ints x =>
      cases r with
      | ints y => rfl
      | floats y | dates y => cases hr
    | floats x | dates x => cases hl
  | dates =>
    rw [hcolumn] at hl hr
    refine ⟨by simp, ?_⟩
    intro
    cases l with
    | dates x =>
      cases r with
      | dates y => rfl
      | floats y | ints y => cases hr
    | floats x | ints x => cases hl

/-- `eval` ands a row with the exact comparison of the values, or leaves it as it is. -/
theorem eval_row (hleftRow : left.ReadsRow findCell chunk row)
    (hrightRow : right.ReadsRow findCell chunk row) (hl : left.exact chunk row = some l)
    (hr : right.exact chunk row = some r)
    (h : eval simd chunk comp left right select = .ok select') :
    l.type = r.type ∧
      (Untouched chunk row comp left right → select'[row]? = select[row]?) ∧
      (¬Untouched chunk row comp left right → ∃ selected, select[row]? = some selected ∧
        select'[row]? =
          some (selected &&& if (holds comp l r).getD true then 1 else 0)) := by
  obtain ⟨leftColumn, rightColumn, hleftColumn, hrightColumn, htype, hcompare⟩ :=
    compareColumn_of_eval h
  have hleft := NumericExpr.getColumn_exact hleftRow hl hleftColumn
  have hright := NumericExpr.getColumn_exact hrightRow hr hrightColumn
  obtain ⟨hleftConstant, hleftCount⟩ := NumericExpr.isConstant_of_getColumn hleftColumn
  obtain ⟨hrightConstant, -⟩ := NumericExpr.isConstant_of_getColumn hrightColumn
  obtain ⟨hfloats, hints⟩ := operation_of_valueAt comp hleft hright htype
  have hrows := lt_rowCount_iff hleft hright
  rw [hleftConstant, hrightConstant, hleftCount] at hrows
  refine ⟨?_, ?_, ?_⟩
  · rw [(Column.cell_of_valueAt hleft).2, (Column.cell_of_valueAt hright).2]
    exact htype
  · rintro (hnot | hconstant)
    · rcases hcompare with ⟨-, hselect⟩ | ⟨-, hselect⟩
      · rw [compareColumn_of_not_compared hnot] at hselect
        cases hselect
        rfl
      · rw [compareColumn_of_not_compared hnot] at hselect
        cases hselect
        rfl
    · have hle : rowCount leftColumn rightColumn ≤ row :=
        not_lt.mp fun hlt => hrows.mp hlt hconstant
      rcases hcompare with ⟨-, hselect⟩ | ⟨-, hselect⟩
      · exact getElem?_compareColumn_of_le hle hselect
      · exact getElem?_compareColumn_of_le hle hselect
  · intro htouched
    obtain ⟨hcomp, hconstant⟩ := not_or.mp htouched
    have hlt := hrows.mpr hconstant
    rcases hcompare with ⟨hcolumn, hselect⟩ | ⟨hcolumn, hselect⟩
    · rw [hints hcolumn]
      exact getElem?_compareColumn (not_not.mp hcomp) hlt hleft hright hselect
    · rw [hfloats hcolumn]
      exact getElem?_compareColumn (not_not.mp hcomp) hlt hleft hright hselect

/-- The two paths find the same for a comparison: `EPSILON` has no part in it, and a row that the
chunk leaves as it is has a comparison that is true. -/
def SamePaths [StrLike ℚ] (chunk : Chunk ℚ) (row : Nat) (comp : CompOp)
    (left right : NumericExpr ℚ) (l r : NumericValue ℚ) : Prop :=
  if Untouched chunk row comp left right then evalComp comp l.toValue r.toValue = .ok true
  else ¬TolerancePrevails comp l r

theorem getValue_iff [StrLike ℚ] (hleftRow : left.ReadsRow findCell chunk row)
    (hrightRow : right.ReadsRow findCell chunk row) (hl : left.exact chunk row = some l)
    (hr : right.exact chunk row = some r) (b : Bool) :
    getValue findCell comp left right = .ok (.booleans b) ↔
      evalComp comp l.toValue r.toValue = .ok b := by
  rw [getValue, NumericExpr.getValue_exact hleftRow hl, NumericExpr.getValue_exact hrightRow hr]
  change (evalComp comp l.toValue r.toValue).map Value.booleans = _ ↔ _
  cases evalComp comp l.toValue r.toValue with
  | error fault => simp [Except.map]
  | ok b' => simp [Except.map]

end

/-- An expression whose operations are exact in a row has the same value on both paths, and a
comparison of two such expressions has the same result exactly when the paths do the same. -/
theorem eval_agrees_iff [StrLike ℚ] {simd : Bool} {comp : CompOp}
    {findCell : TupleCellSpec → Except Fault (Value ℚ)} {chunk : Chunk ℚ} {row : Nat}
    {left right : NumericExpr ℚ} {l r : NumericValue ℚ} {select select' : List UInt8}
    (hleftRow : left.ReadsRow findCell chunk row) (hrightRow : right.ReadsRow findCell chunk row)
    (hl : left.exact chunk row = some l) (hr : right.exact chunk row = some r)
    (hselected : select[row]? = some 1) :
    (∀ column, left.getColumn simd chunk = .ok column →
      column.valueAt row = some l ∧ left.getValue findCell = .ok l.toValue) ∧
    (eval simd chunk comp left right select = .ok select' →
      ((∃ b, getValue findCell comp left right = .ok (.booleans b) ∧
          select'[row]? = some (if b then 1 else 0)) ↔
        SamePaths chunk row comp left right l r)) := by
  refine ⟨?_, ?_⟩
  · intro column hcolumn
    exact ⟨NumericExpr.getColumn_exact hleftRow hl hcolumn,
      NumericExpr.getValue_exact hleftRow hl⟩
  intro h
  simp only [getValue_iff hleftRow hrightRow hl hr]
  obtain ⟨htype, huntouched, htouched⟩ := eval_row hleftRow hrightRow hl hr h
  by_cases hcase : Untouched chunk row comp left right
  · rw [SamePaths, if_pos hcase, huntouched hcase, hselected]
    constructor
    · rintro ⟨b, hb, hselect⟩
      cases b with
      | true => exact hb
      | false => cases hselect
    · intro htrue
      exact ⟨true, htrue, rfl⟩
  · rw [SamePaths, if_neg hcase]
    have hcomp : Compared comp := by
      by_contra hnot
      exact hcase (Or.inl hnot)
    obtain ⟨b, b', hb, hb', hiff⟩ := evalComp_holds hcomp htype
    obtain ⟨selected, hselected', hselect⟩ := htouched hcase
    obtain rfl : selected = 1 := Option.some.inj (hselected'.symm.trans hselected)
    rw [hselect, hb', hb, ← hiff]
    cases b <;> cases b' <;> simp

/-- `a + 4 = 7` over a chunk with two rows, in the row where `a` is 3. -/
theorem eval_agrees_iff_sum :
    let field : FieldExpr := ⟨"t", "a", "t"⟩
    let chunk : Chunk ℚ := [⟨.ints, false, [.int 5, .int 3]⟩]
    let sum : NumericExpr ℚ := .binary .add (.field field .ints 0) (.value (.ints 4))
    (∃ b, getValue (fun _ => .ok (.ints 3)) .equalTo sum (.value (.ints 7)) = .ok (.booleans b) ∧
        ([0, 1] : List UInt8)[1]? = some (if b then 1 else 0)) ↔
      SamePaths chunk 1 .equalTo sum (.value (.ints 7)) (.ints 7) (.ints 7) := by
  intro field chunk sum
  exact (@eval_agrees_iff _ false .equalTo (fun _ => .ok (.ints 3)) chunk 1 sum (.value (.ints 7))
    (.ints 7) (.ints 7) [1, 1] [0, 1] ⟨⟨.ints 3, rfl, rfl, rfl⟩, trivial⟩ trivial rfl rfl rfl).2 rfl

/-- A float of `2⁻²³` equals zero on the tuple but not in the chunk, and the sum of an integer 1 and
a float 0 is read from the bits of the integer in the chunk. -/
theorem eval_differs :
    (let tiny : NumericExpr ℚ := .field ⟨"t", "x", "t"⟩ .floats 0
      let zero : NumericExpr ℚ := .value (.floats 0)
      let chunk : Chunk ℚ := [⟨.floats, false, [.float (1 / 8388608)]⟩]
      getValue (fun _ => .ok (.floats (1 / 8388608))) .equalTo tiny zero = .ok (.booleans true) ∧
        eval false chunk .equalTo tiny zero [1] = .ok [0]) ∧
    let sum : NumericExpr ℚ := .binary .add (.field ⟨"t", "a", "t"⟩ .ints 0) (.value (.floats 0))
    let chunk : Chunk ℚ := [⟨.ints, false, [.int 1]⟩]
    sum.getValue (fun _ => .ok (.ints 1)) = .ok (.floats 1) ∧
      ∃ column x, sum.getColumn false chunk = .ok column ∧ column.valueAt 0 = some (.floats x) ∧
        x < 1 / 2 := by
  refine ⟨⟨?_, ?_⟩, ?_, _, FloatBits.ofBits 1 + 0, rfl, rfl, ?_⟩
  · have hcompare : compareFloat (1 / 8388608 : ℚ) 0 = 0 := by decide +kernel
    exact congrArg (fun n => (ofCmpResult .equalTo n).map Value.booleans) hcompare
  · have hne : decide ((1 / 8388608 : ℚ) = 0) = false := by decide +kernel
    exact congrArg (fun b : Bool => Except.ok [(1 : UInt8) &&& if b then 1 else 0]) hne
  · have hsum : ((1 : Int32).toInt : ℚ) + 0 = 1 := by decide +kernel
    exact congrArg (fun x => Except.ok (Value.floats x)) hsum
  · decide +kernel

end ComparisonExpr

end Sql

end ObHtap
