import Mathlib.Data.Int.ConditionallyCompleteOrder
import Mathlib.Order.CompletePartialOrder
import Mathlib.Order.Interval.Set.Disjoint
import ObHtap.Library.LittleEndian
import ObHtap.Sql.Column
import ObHtap.Table.FieldMeta
import ObHtap.Table.MetaRoundTrip

/-!
# Making a record and reading its cells

The bytes of a record, as `Table` and the UPDATE operator write them, against what is read of its
cells.
-/

namespace ObHtap

/-! ## The bytes of a record

How `Table` and the UPDATE operator write the bytes and the null flag of a field into a record.
The null flags stand at the end of the record, the one of the first column last. -/

section

/-- `memcpy` into a record.  Behind its end there is no result. -/
def memcpy (record : List UInt8) (offset : Nat) (bytes : List UInt8) : Option (List UInt8) :=
  if offset + bytes.length ≤ record.length then
    some (record.take offset ++ bytes ++ record.drop (offset + bytes.length))
  else none

/-- The null bit of a field is set to a value. -/
def setNullFlag (field : FieldMeta) (isNull : Bool) (record : List UInt8) : Option (List UInt8) :=
  memcpy record (record.length - field.fieldId.toNatClampNeg - 1) [if isNull then 1 else 0]

/-- `MAX_TEXT_LENGTH`. -/
def maxTextLength : Nat := 65535

variable {record record' bytes : List UInt8} {field : FieldMeta} {offset : Nat}

theorem length_memcpy (h : memcpy record offset bytes = some record') :
    record'.length = record.length := by
  rw [memcpy] at h
  split at h
  · cases h
    simp only [List.length_append, List.length_take, List.length_drop]
    omega
  · cases h

theorem length_memcpy_setNullFlag {isNull : Bool}
    (h : (memcpy record offset bytes).bind (setNullFlag field isNull) = some record') :
    record'.length = record.length := by
  obtain ⟨mid, hmid, hset⟩ := Option.bind_eq_some_iff.mp h
  exact (length_memcpy hset).trans (length_memcpy hmid)

/-- A byte after the copy: the one that is copied there, or the one from before. -/
theorem getElem?_memcpy (h : memcpy record offset bytes = some record') (p : Nat) :
    record'[p]? =
      if offset ≤ p ∧ p < offset + bytes.length then bytes[p - offset]? else record[p]? := by
  rw [memcpy] at h
  split at h
  case isFalse => cases h
  case isTrue hin =>
    obtain rfl := Option.some.inj h
    have htake : (record.take offset).length = offset := by
      rw [List.length_take]
      omega
    rcases Nat.lt_or_ge p offset with hlt | hge
    · rw [if_neg (by omega), List.append_assoc, List.getElem?_append_left (by omega),
        List.getElem?_take_of_lt hlt]
    · rw [List.append_assoc, List.getElem?_append_right (by omega), htake]
      rcases Nat.lt_or_ge p (offset + bytes.length) with hlt' | hge'
      · rw [if_pos ⟨hge, hlt'⟩, List.getElem?_append_left (by omega)]
      · rw [if_neg (by omega), List.getElem?_append_right (by omega), List.getElem?_drop]
        congr 1
        omega

end

/-! ## Making a record and reading its cells

`Table::make_record` (`table.cpp`) against `RowTuple::cell_at` (`tuple.h`) and `Value::set_data`
(`value.cpp`).  A value is copied with as many bytes as its field has; a number is read with four.
The two fit if no column of numbers is declared with fewer bytes. -/

section

namespace Sql

/-- A float as it lies in memory. -/
structure FloatWord where
  bits : Int32
  deriving DecidableEq

namespace Value

/-- `Value::length`. -/
def length : Value FloatWord → Nat
  | undefined | nulls => 0
  | chars pointer => (pointer.getD []).length
  | ints _ | floats _ | dates _ | texts _ | highVectors _ => 4
  | booleans _ => 1
  | vectors elems => 4 * elems.length
  | valuesLists _ => 8

/-- The bytes of a vector. -/
def vectorBytes (elems : List FloatWord) : List UInt8 :=
  elems.flatMap fun x => int32Bytes x.bits

/-- What the value has at `Value::data`; `none` is a null pointer. -/
def data : Value FloatWord → Option (List UInt8)
  | chars pointer => pointer.map (· ++ [0])
  | ints v | dates v | texts v | highVectors v => some (int32Bytes v)
  | floats x => some (int32Bytes x.bits)
  | booleans b => some [if b then 1 else 0]
  | vectors elems => some (vectorBytes elems)
  | undefined | nulls | valuesLists _ => some []

/-- The first `n` bytes at `Value::data`; `behind` has the memory behind those of the value. -/
def memory (value : Value FloatWord) (behind : Nat → UInt8) (n : Nat) :
    Except Fault (List UInt8) :=
  match value.data with
  | none => .error .abort
  | some bytes => .ok ((List.range n).map fun i => bytes.getD i (behind i))

end Value

end Sql

open Sql

/-! ## Writing -/

/-- What a call of `make_record` meets with: what the calls of `write_text` for the text and for
the vector of the column `i` return, and the memory behind the value of the column. -/
structure RecordOutcomes where
  writeText : Nat → List UInt8 → Except Fault Int32
  writeVector : Nat → List UInt8 → Except Fault Int32
  behind : Nat → Nat → UInt8

/-- The bytes that `set_value_to_record` copies.  A string that is shorter than the field is
copied with its terminating zero. -/
def copiedBytes (behind : Nat → UInt8) (value : Sql.Value FloatWord) (field : FieldMeta) :
    Except Fault (List UInt8) :=
  let copyLen := field.attrLen.toNatClampNeg
  if value.attrType = .chars then
    if copyLen < value.length then .error (.rc .error)
    else value.memory behind (if value.length < copyLen then value.length + 1 else copyLen)
  else value.memory behind copyLen

/-- The bytes and the null flag of a field are written. -/
def store (field : FieldMeta) (bytes : List UInt8) (isNull : Bool) (record : List UInt8) :
    Except Fault (List UInt8) :=
  match (memcpy record field.attrOffset.toNatClampNeg bytes).bind (setNullFlag field isNull) with
  | some record => .ok record
  | none => .error .abort

/-- `Table::set_value_to_record`. -/
def setValueToRecord (behind : Nat → UInt8) (value : Sql.Value FloatWord) (field : FieldMeta)
    (record : List UInt8) : Except Fault (List UInt8) := do
  let bytes ← copiedBytes behind value field
  store field bytes value.isNull record

namespace TableMeta

/-- `sys_field_num`. -/
def sysFieldNum (table : TableMeta) : Nat := table.trxFields.length

/-- The fields of the columns. -/
def columns (table : TableMeta) : List FieldMeta := table.fields.drop table.sysFieldNum

end TableMeta

section

variable [Floats FloatWord]

/-- The value that `make_record` hands to `set_value_to_record` for the column `i`.  A text and a
vector of high dimension are written to pages of their own, and the number of the first page is
handed over. -/
def realValue (env : RecordOutcomes) (i : Nat) (field : FieldMeta) (value : Sql.Value FloatWord) :
    Except Fault (Sql.Value FloatWord) :=
  if field.attrType ≠ value.attrType then
    if value.isNull ∧ field.canBeNull then .ok value
    else if field.attrType = .texts then
      match value with
      | .chars pointer =>
        if maxTextLength < (pointer.getD []).length then .error (.rc .error)
        else (env.writeText i (pointer.getD [])).map .ints
      | _ => .error (.rc .error)
    else if field.attrType = .highVectors then
      match value with
      | .vectors elems =>
        if maxVectorDim * 4 < value.length then .error (.rc .error)
        else if (value.length : Int) ≠ field.realLen.toInt then .error (.rc .error)
        else (env.writeVector i (Sql.Value.vectorBytes elems)).map .ints
      | _ => .error (.rc .error)
    else value.castTo field.attrType
  else if field.attrType = .vectors ∧ field.attrLen.toInt ≠ value.length then .error (.rc .error)
  else .ok value

/-- The loop of `make_record`, from the column `i` on. -/
def makeFields (env : RecordOutcomes) :
    Nat → List FieldMeta → List (Sql.Value FloatWord) → List UInt8 → Except Fault (List UInt8)
  | i, field :: fields, value :: values, record => do
    let real ← realValue env i field value
    let record ← setValueToRecord (env.behind i) real field record
    makeFields env (i + 1) fields values record
  | _, _, _, record => .ok record

/-- `Table::make_record`.  For a negative size there is no memory. -/
def TableMeta.makeRecord (table : TableMeta) (env : RecordOutcomes)
    (values : List (Sql.Value FloatWord)) : Except Fault (List UInt8) :=
  if values.length + table.sysFieldNum ≠ table.fields.length then
    .error (.rc .schemaFieldMissing)
  else if table.recordSize < 0 then .error .abort
  else makeFields env 0 table.columns values (List.replicate table.recordSize.toNatClampNeg 0)

end

/-! ## Reading -/

/-- The bytes of a record from a place on; there are none past its end. -/
def readBytes (record : List UInt8) (offset n : Nat) : Except Fault (List UInt8) :=
  if offset + n ≤ record.length then .ok ((record.drop offset).take n) else .error .abort

/-- `cell_is_null`. -/
def cellIsNull (record : List UInt8) (field : FieldMeta) : Except Fault Bool :=
  let place : Int := record.length - field.fieldId.toInt - 1
  if place < 0 then .error .abort
  else
    match record[place.toNat]? with
    | some flag => .ok (flag != 0)
    | none => .error .abort

/-- The floats of a vector. -/
def vectorElems : List UInt8 → List FloatWord
  | b₀ :: b₁ :: b₂ :: b₃ :: bytes => ⟨bytesInt32 [b₀, b₁, b₂, b₃]⟩ :: vectorElems bytes
  | _ => []

/-- `Value::set_data` on a cell whose type is set.  The list that a cell of type `VALUESLISTS`
points to is not there. -/
def Sql.Value.setData (type : AttrType) (record : List UInt8) (offset len : Nat) :
    Except Fault (Sql.Value FloatWord) :=
  match type with
  | .chars => (readBytes record offset len).map fun bytes => .ofBytes (bytes.takeWhile (· ≠ 0))
  | .ints => (readBytes record offset 4).map fun bytes => .ints (bytesInt32 bytes)
  | .dates => (readBytes record offset 4).map fun bytes => .dates (bytesInt32 bytes)
  | .floats => (readBytes record offset 4).map fun bytes => .floats ⟨bytesInt32 bytes⟩
  | .booleans => (readBytes record offset 4).map fun bytes => .booleans (bytesInt32 bytes ≠ 0)
  | .texts => (readBytes record offset 4).map fun bytes => .texts (bytesInt32 bytes)
  | .highVectors => (readBytes record offset 4).map fun bytes => .highVectors (bytesInt32 bytes)
  | .vectors => (readBytes record offset len).map fun bytes => .vectors (vectorElems bytes)
  | .valuesLists => .error .abort
  | .nulls => .ok .nulls
  | .undefined | .maxType => .ok .undefined

/-- `RowTuple::cell_at`. -/
def TableMeta.cellAt (table : TableMeta) (record : List UInt8) (index : Nat) :
    Except Fault (Sql.Value FloatWord) :=
  match table.fields[index]? with
  | none => .error (.rc .invalidArgument)
  | some field => do
    if ← cellIsNull record field then .ok .nulls
    else
      Sql.Value.setData field.attrType record field.attrOffset.toNatClampNeg
        field.attrLen.toNatClampNeg


/-! ## What a record promises -/

/-- The types that a declaration gives a column. -/
def AttrType.OfColumn (type : AttrType) : Prop :=
  type ∈ [ints, chars, floats, dates, texts, vectors, highVectors]

/-- The types whose cells are read with four bytes. -/
def AttrType.IsWord (type : AttrType) : Prop := type ∈ [ints, floats, dates, texts]

instance (type : AttrType) : Decidable type.OfColumn := inferInstanceAs (Decidable (_ ∈ _))

instance (type : AttrType) : Decidable type.IsWord := inferInstanceAs (Decidable (_ ∈ _))

/-- Where the bytes of a field are. -/
def FieldMeta.place (field : FieldMeta) : Set Int :=
  Set.Ico field.attrOffset.toInt (field.attrOffset.toInt + field.attrLen.toInt)

/-- Where the null flag of a field is. -/
def TableMeta.flagPlace (table : TableMeta) (field : FieldMeta) : Int :=
  table.recordSize.toInt - field.fieldId.toInt - 1

/-- A string up to its first NUL, which is all that `set_string` takes. -/
def Sql.Value.asCString : Sql.Value FloatWord → Sql.Value FloatWord
  | chars pointer => ofBytes ((pointer.getD []).takeWhile (· ≠ 0))
  | value => value

section

variable [Floats FloatWord]

/-- A value converted to the type of the field of the column `i`.  A text or a vector of high
dimension is the page that it is written to. -/
def converted (env : RecordOutcomes) (i : Nat) (field : FieldMeta) (value : Sql.Value FloatWord) :
    Except Fault (Sql.Value FloatWord) :=
  if field.attrType = value.attrType then .ok value
  else
    match field.attrType, value with
    | .texts, .chars pointer => (env.writeText i (pointer.getD [])).map .texts
    | .highVectors, .vectors elems =>
      (env.writeVector i (Sql.Value.vectorBytes elems)).map .highVectors
    | type, value => value.castTo type

namespace TableMeta

/-- A record that has been made of a list of values: its cells are the values, `NULL` is accepted
in the place of a value if the field is nullable, and nothing overlaps. -/
structure Inverse (table : TableMeta) (env : RecordOutcomes) (values : List (Sql.Value FloatWord))
    (record : List UInt8) : Prop where
  cells : ∀ i field value, table.columns[i]? = some field → values[i]? = some value →
    ∃ cell, table.cellAt record (table.sysFieldNum + i) = .ok cell ∧
      cell.isNull = value.isNull ∧
      (value.isNull = false → (converted env i field value).map Sql.Value.asCString = .ok cell)
  nulls : ∀ i field, table.columns[i]? = some field →
    ((∃ record', table.makeRecord env (values.set i .nulls) = .ok record') ↔
      field.canBeNull = true)
  fieldsApart : table.fields.Pairwise fun f f' => Disjoint f.place f'.place
  flagsApart : table.columns.Pairwise fun f f' => table.flagPlace f ≠ table.flagPlace f'
  flagsBehind : ∀ f ∈ table.columns, ∀ f' ∈ table.fields, table.flagPlace f ∉ f'.place
  flagsInside : ∀ f ∈ table.columns, 0 ≤ table.flagPlace f ∧ table.flagPlace f < record.length

/-- Every record that is made keeps its values. -/
def RoundTrips (table : TableMeta) : Prop :=
  ∀ env values record, table.makeRecord env values = .ok record → table.Inverse env values record

/-- No column of numbers has fewer than four bytes. -/
def Wide (table : TableMeta) : Prop :=
  ∀ f ∈ table.columns, f.attrType.IsWord → 4 ≤ f.attrLen.toInt

/-- No list of values is accepted: a vector that can't be null has a length that no vector has, or
the size of a record is not an `int`. -/
def Unfillable (table : TableMeta) : Prop :=
  (∃ f ∈ table.columns, f.attrType = .vectors ∧ f.canBeNull = false ∧ ¬ 4 ∣ f.attrLen.toInt) ∨
    ∃ f, table.fields.getLast? = some f ∧
      2 ^ 31 ≤ f.attrOffset.toInt + f.attrLen.toInt + table.columns.length

end TableMeta

end

end

end ObHtap
