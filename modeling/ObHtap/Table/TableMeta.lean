import ObHtap.Table.FieldMeta
import Mathlib.Algebra.Ring.Int.Defs

/-!
# Table metadata

The layout of a table's records, its indexes, and the JSON document its metadata is kept in
(`table_meta.cpp`, `index_meta.cpp`).  The text of a document is written and read by a JSON
library, which is a parameter here: a writer from values to text and a parser back.
-/

namespace ObHtap

open Json

inductive StorageFormat where
  | unknownFormat
  | rowFormat
  | paxFormat
  deriving DecidableEq, Repr

namespace StorageFormat

def toInt : StorageFormat → Int32
  | unknownFormat => 0
  | rowFormat => 1
  | paxFormat => 2

/-- The enumerator of a number; the other numbers have none. -/
def ofInt (n : Int) : Option StorageFormat :=
  if n = 0 then some unknownFormat
  else if n = 1 then some rowFormat
  else if n = 2 then some paxFormat
  else none

theorem ofInt_toInt (format : StorageFormat) : ofInt format.toInt.toInt = some format := by
  cases format <;> rfl

end StorageFormat

/-- A column of a `CREATE TABLE`; the length is a `size_t`. -/
structure AttrInfoSqlNode where
  type : AttrType
  name : String
  length : Nat
  canBeNull : Bool
  deriving DecidableEq

def maxVectorDim : Nat := 16000

/-- The metadata of an index.  `lists_` and `probes_` are left unset by the `init` of a B+ tree
index. -/
structure IndexMeta where
  name : String
  fields : List String
  fieldNum : Int32
  unique : Int32
  disType : String
  lists : Option Int32
  probes : Option Int32
  deriving DecidableEq

/-- The metadata of a table; `fields` holds the fields of the transactions first. -/
structure TableMeta where
  tableId : Int32
  name : String
  trxFields : List FieldMeta
  fields : List FieldMeta
  indexes : List IndexMeta
  storageFormat : StorageFormat
  recordSize : Int32
  deriving DecidableEq

namespace IndexMeta

/-- `IndexMeta::init` of a B+ tree index. -/
def init (name : String) (fields : List FieldMeta) (fieldNum isUnique : Int32) :
    Except RC IndexMeta :=
  if isBlank name then .error .invalidArgument
  else .ok
    { name
      fields := (fields.take fieldNum.toInt.toNat).map FieldMeta.name
      fieldNum
      unique := isUnique
      disType := ""
      lists := none
      probes := none }

/-- `IndexMeta::init` of a vector index. -/
def initVector (name : String) (fields : List FieldMeta) (fieldNum isUnique : Int32)
    (disType : String) (lists probes : Int32) : Except RC IndexMeta :=
  if isBlank name then .error .invalidArgument
  else .ok
    { name
      fields := (fields.take fieldNum.toInt.toNat).map FieldMeta.name
      fieldNum
      unique := isUnique
      disType
      lists := some lists
      probes := some probes }

/-- `IndexMeta::to_json`. -/
def toJson (index : IndexMeta) : Value :=
  .ofMembers
    [("name", .string index.name),
      ("field_num", .int index.fieldNum.toInt),
      ("unique", .int index.unique.toInt),
      ("field_name", .ofElements (index.fields.mapIdx fun i field =>
        .ofMembers [(toString i, .string field)]))]

end IndexMeta

namespace TableMeta

/-- `TableMeta::init`, the loop over the fields of the transactions.  It returns the fields and
the offset after them. -/
def initTrxFields : Int32 → List FieldMeta → Except RC (List FieldMeta × Int32)
  | fieldOffset, [] => .ok ([], fieldOffset)
  | fieldOffset, fieldMeta :: rest => do
    let field ← FieldMeta.new fieldMeta.name fieldMeta.attrType fieldOffset fieldMeta.attrLen
      false fieldMeta.fieldId
    let (fields, last) ← initTrxFields (fieldOffset + fieldMeta.attrLen) rest
    return (field :: fields, last)

/-- The field of the column `i`.  A high-dimension vector is kept on pages of its own: its field
holds a page number. -/
def initField (i : Nat) (fieldOffset : Int32) (attrInfo : AttrInfoSqlNode) : Except RC FieldMeta :=
  if attrInfo.type ≠ .highVectors then
    FieldMeta.init attrInfo.name attrInfo.type fieldOffset (.ofNat attrInfo.length) true
      (.ofNat i) attrInfo.canBeNull 4
  else
    FieldMeta.init attrInfo.name attrInfo.type fieldOffset 4 true (.ofNat i)
      attrInfo.canBeNull (.ofNat attrInfo.length)

/-- `TableMeta::init`, the loop over the columns, from the column `i` on. -/
def initFields (i : Nat) : Int32 → List AttrInfoSqlNode → Except RC (List FieldMeta × Int32)
  | fieldOffset, [] => .ok ([], fieldOffset)
  | fieldOffset, attrInfo :: rest => do
    let field ← initField i fieldOffset attrInfo
    let (fields, last) ← initFields (i + 1)
      (if attrInfo.type ≠ .highVectors then .ofInt (fieldOffset.toInt + attrInfo.length)
        else fieldOffset + 4) rest
    return (field :: fields, last)

/-- `TableMeta::init`.  A record ends with one null flag for each column. -/
def init (tableId : Int32) (name : String) (trxFields : Option (List FieldMeta))
    (attributes : List AttrInfoSqlNode) (storageFormat : StorageFormat) : Except RC TableMeta :=
  if isBlank name then .error .invalidArgument
  else if attributes.length = 0 then .error .invalidArgument
  else if ∃ attr ∈ attributes, attr.type = .highVectors ∧ attr.length > maxVectorDim * 4 then
    .error .error
  else do
    let (sysFields, fieldOffset) ← initTrxFields 0 (trxFields.getD [])
    let (fields, fieldOffset) ← initFields 0 fieldOffset attributes
    return {
      tableId
      name
      trxFields := trxFields.getD []
      fields := sysFields ++ fields
      indexes := []
      storageFormat
      recordSize := .ofInt (fieldOffset.toInt + attributes.length) }

/-- `TableMeta::add_index`. -/
def addIndex (table : TableMeta) (index : IndexMeta) : TableMeta :=
  { table with indexes := table.indexes ++ [index] }

/-- `TableMeta::field` of a name. -/
def field (table : TableMeta) (name : String) : Option FieldMeta :=
  table.fields.find? fun field => field.name = name

/-- The members `TableMeta::serialize` assigns. -/
def jsonMembers (table : TableMeta) (fields : List Value) : List (String × Value) :=
  [("table_id", .int table.tableId.toInt),
    ("table_name", .string table.name),
    ("storage_format", .int table.storageFormat.toInt.toInt),
    ("fields", .ofElements fields),
    ("indexes", .ofElements (table.indexes.map IndexMeta.toJson))]

/-- The document `TableMeta::serialize` writes. -/
def toJson (table : TableMeta) : Option Value := do
  let fields ← table.fields.mapM FieldMeta.toJson
  return .ofMembers (table.jsonMembers fields)

/-- `TableMeta::serialize`. -/
def serialize (write : Value → String) (table : TableMeta) : Option String :=
  table.toJson.map write

end TableMeta

/-- `IndexMeta::from_json`; an exception of the JSON library, as an error code, gives `none`. -/
def IndexMeta.fromJson (table : TableMeta) (jsonValue : Value) : Option IndexMeta := do
  let nameValue ← jsonValue.member? "name"
  let fieldNumValue ← jsonValue.member? "field_num"
  let fieldUniqueValue ← jsonValue.member? "unique"
  guard nameValue.isString
  let fieldNum : Int32 := .ofInt (← fieldNumValue.asInt64)
  let unique : Int32 := .ofInt (← fieldUniqueValue.asInt64)
  let fieldsValue ← jsonValue.member? "field_name"
  let fields ← (List.range fieldNum.toInt.toNat).mapM fun i => do
    let element ← fieldsValue.element? i
    let fieldValue ← element.member? (toString i)
    table.field (← fieldValue.asCString)
  (init (← nameValue.asCString) fields fieldNum unique).toOption

namespace TableMeta

/-- The result of an `int` operation; one that does not fit is undefined. -/
def checkedInt (n : Int) : Option Int32 :=
  if -2 ^ 31 ≤ n ∧ n < 2 ^ 31 then some (.ofInt n) else none

/-- The record size `TableMeta::deserialize` computes from its sorted fields. -/
def storedRecordSize (fields : List FieldMeta) : Option Int32 := do
  let back ← fields.getLast?
  let front ← fields.head?
  let stop ← checkedInt (back.attrOffset.toInt + back.attrLen.toInt)
  let size ← checkedInt (stop.toInt - front.attrOffset.toInt)
  checkedInt (size.toInt + (Int32.ofNat fields.length).toInt)

/-- The metadata `TableMeta::deserialize` takes from a document, `none` when the result is negative
or an exception is thrown.  What is checked before the storage format is read is the table id. -/
def ofJson (tableValue : Value) : Option TableMeta := do
  let tableIdValue ← tableValue.member? "table_id"
  guard tableIdValue.isInt
  let tableId ← tableIdValue.asInt
  let tableNameValue ← tableValue.member? "table_name"
  guard tableNameValue.isString
  let tableName ← tableNameValue.asCString
  let fieldsValue ← tableValue.member? "fields"
  guard (fieldsValue.isArray ∧ 0 < fieldsValue.elements.length)
  let storageFormatValue ← tableValue.member? "storage_format"
  guard tableIdValue.isInt
  let storageFormat ← StorageFormat.ofInt (← storageFormatValue.asInt)
  let fields ← fieldsValue.elements.mapM FieldMeta.fromJson
  let fields := fields.mergeSort fun f f' => decide (f.attrOffset ≤ f'.attrOffset)
  let table : TableMeta := {
    tableId := .ofInt tableId
    name := tableName
    trxFields := fields.filter fun field => !field.visible
    fields
    indexes := []
    storageFormat
    recordSize := ← storedRecordSize fields }
  let indexesValue ← tableValue.member? "indexes"
  if indexesValue.isEmpty then
    return table
  else do
    guard indexesValue.isArray
    let indexes ← indexesValue.elements.mapM (IndexMeta.fromJson table)
    return { table with indexes }

/-- `TableMeta::deserialize` into fresh metadata. -/
def deserialize (parse : String → Option Value) (is : String) : Option TableMeta := do
  ofJson (← parse is)

end TableMeta

end ObHtap
