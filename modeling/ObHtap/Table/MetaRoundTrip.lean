import Mathlib.Data.List.Forall2
import ObHtap.Table.TableMeta

/-!
# Reading a table's metadata back

The fields of a table lie one after the other from offset zero, the fields of the transactions
first.  The record size made with the table counts one null flag for each column; the one read
back counts one for each field.  The two agree when there are no transaction fields.
-/

namespace ObHtap

open Json

namespace TableMeta

theorem checkedInt_eq_some {n : Int} {a : Int32} : checkedInt n = some a ↔ a.toInt = n := by
  rw [checkedInt]
  constructor
  · intro h
    split at h
    · next hfits =>
      obtain rfl := Option.some.inj h
      exact Int32.toInt_ofInt_of_le hfits.1 hfits.2
    · cases h
  · intro h
    subst h
    rw [if_pos ⟨a.le_toInt, a.toInt_lt⟩, Int32.ofInt_toInt]

theorem checkedInt_eq_none {n : Int} (h : 2 ^ 31 ≤ n) : checkedInt n = none :=
  if_neg (by omega)

/-- The fields lie one after the other between two positions. -/
def Laid : Int → List FieldMeta → Int → Prop
  | start, [], stop => start = stop
  | start, field :: fields, stop =>
    field.attrOffset.toInt = start ∧ 0 < field.attrLen.toInt ∧
      Laid (start + field.attrLen.toInt) fields stop

variable {start mid stop : Int} {fields fields' : List FieldMeta} {field : FieldMeta}

theorem Laid.append (h : Laid start fields mid) (h' : Laid mid fields' stop) :
    Laid start (fields ++ fields') stop := by
  induction fields generalizing start with
  | nil =>
    obtain rfl : start = mid := h
    exact h'
  | cons field fields ih => exact ⟨h.1, h.2.1, ih h.2.2⟩

theorem Laid.length_le (h : Laid start fields stop) : start + fields.length ≤ stop := by
  induction fields generalizing start with
  | nil =>
    obtain rfl : start = stop := h
    simp
  | cons field fields ih =>
    have hrest := ih h.2.2
    have hpos := h.2.1
    simp only [List.length_cons]
    omega

theorem Laid.start_le (h : Laid start fields stop) : ∀ f ∈ fields, start ≤ f.attrOffset.toInt := by
  induction fields generalizing start with
  | nil => simp
  | cons field fields ih =>
    intro f hf
    rcases List.mem_cons.mp hf with rfl | hmem
    · exact Int.le_of_eq h.1.symm
    · have hrest := ih h.2.2 f hmem
      have hpos := h.2.1
      omega

theorem Laid.pairwise (h : Laid start fields stop) :
    fields.Pairwise fun f f' => f.attrOffset ≤ f'.attrOffset := by
  induction fields generalizing start with
  | nil => exact List.Pairwise.nil
  | cons field fields ih =>
    apply List.Pairwise.cons _ (ih h.2.2)
    intro f' hf'
    have hle := Laid.start_le h.2.2 f' hf'
    have hpos := h.2.1
    have hstart := h.1
    rw [Int32.le_iff_toInt_le]
    omega

theorem Laid.sort (h : Laid start fields stop) :
    (fields.mergeSort fun f f' => decide (f.attrOffset ≤ f'.attrOffset)) = fields := by
  apply List.mergeSort_of_pairwise
  simpa using h.pairwise

theorem Laid.getLast (h : Laid start fields stop) (hlast : fields.getLast? = some field) :
    field.attrOffset.toInt + field.attrLen.toInt = stop := by
  induction fields generalizing start with
  | nil => simp at hlast
  | cons f fields ih =>
    cases fields with
    | nil =>
      obtain rfl : f = field := by simpa using hlast
      have hstop : start + f.attrLen.toInt = stop := h.2.2
      rw [h.1, hstop]
    | cons f' fields => exact ih h.2.2 (by simpa using hlast)

/-- The size computed from fields laid from zero: their end and one flag for each. -/
theorem Laid.storedRecordSize (h : Laid 0 fields stop) (hne : fields ≠ []) :
    TableMeta.storedRecordSize fields = checkedInt (stop + fields.length) := by
  have hback := List.getLast?_eq_some_getLast hne
  obtain ⟨front, rest, rfl⟩ := List.exists_cons_of_ne_nil hne
  have hstop := h.getLast hback
  have hlen := h.length_le
  have hfront : front.attrOffset.toInt = 0 := h.1
  simp only [TableMeta.storedRecordSize, hback, List.head?_cons, Option.bind_eq_bind,
    Option.bind_some, hstop, hfront, Int.sub_zero]
  by_cases hfits : stop < 2 ^ 31
  · have hend : checkedInt stop = some (.ofInt stop) := if_pos (by omega)
    have hnum : (Int32.ofNat (front :: rest).length).toInt = ((front :: rest).length : Int) :=
      Int32.toInt_ofNat_of_lt (by omega)
    rw [hend, Option.bind_some, Int32.toInt_ofInt_of_le (by omega) hfits, hend,
      Option.bind_some, Int32.toInt_ofInt_of_le (by omega) hfits, hnum]
  · rw [checkedInt_eq_none (by omega), checkedInt_eq_none (by omega), Option.bind_none]

end TableMeta

/-- The length a column takes in a record, as an `int`. -/
def AttrInfoSqlNode.len (attr : AttrInfoSqlNode) : Int32 :=
  if attr.type ≠ .highVectors then .ofNat attr.length else 4

namespace TableMeta

/-- A field made for a column. -/
structure FieldOf (attr : AttrInfoSqlNode) (field : FieldMeta) : Prop where
  name : field.name = attr.name
  type : field.attrType = attr.type
  len : field.attrLen = attr.len
  visible : field.visible = true
  valid : field.Valid

/-- An offset that a field accepts has not wrapped around. -/
theorem ofInt_of_not_neg {s : Int} (hs : 0 ≤ s) (hlt : s < 2 ^ 32) (h : ¬Int32.ofInt s < 0) :
    s < 2 ^ 31 ∧ (Int32.ofInt s).toInt = s := by
  have hzero : ¬(Int32.ofInt s).toInt < 0 := by simpa [Int32.lt_iff_toInt_lt] using h
  have hmod : (Int32.ofInt s).toInt = s.bmod (2 ^ 32) := Int32.toInt_ofInt
  rw [hmod, Int.bmod] at hzero
  have hsmall : s < 2 ^ 31 := by
    split at hzero <;> omega
  exact ⟨hsmall, Int32.toInt_ofInt_of_le (by omega) hsmall⟩

theorem toInt_pos {n : Int32} (h : ¬n ≤ 0) : 0 < n.toInt := by
  simpa [Int32.le_iff_toInt_le] using h

theorem initTrxFields_spec {trxFields fields : List FieldMeta} {last : Int32} {s : Int}
    (h : initTrxFields (.ofInt s) trxFields = .ok (fields, last)) (hs : 0 ≤ s) (hlt : s < 2 ^ 32) :
    ∃ e, Laid s fields e ∧ e < 2 ^ 32 ∧ last = .ofInt e ∧ fields.length = trxFields.length ∧
      ∀ f ∈ fields, f.Valid ∧ f.visible = false := by
  induction trxFields generalizing s fields with
  | nil =>
    cases h
    exact ⟨s, rfl, hlt, rfl, rfl, by simp⟩
  | cons fieldMeta rest ih =>
    rw [initTrxFields] at h
    obtain ⟨field, hfield, hrest⟩ := bind_eq_ok h
    obtain ⟨⟨fields', last'⟩, hfields, hlist⟩ := bind_eq_ok hrest
    cases hlist
    obtain ⟨hvalid, rfl⟩ := FieldMeta.init_eq_ok hfield
    simp only [FieldMeta.Rejected, not_or] at hvalid
    obtain ⟨hsmall, hoff⟩ := ofInt_of_not_neg hs hlt hvalid.2.2.1
    have hpos := toInt_pos hvalid.2.2.2
    have hlen := fieldMeta.attrLen.toInt_lt
    have hnext : Int32.ofInt s + fieldMeta.attrLen = .ofInt (s + fieldMeta.attrLen.toInt) := by
      rw [Int32.ofInt_add, Int32.ofInt_toInt]
    rw [hnext] at hfields
    obtain ⟨e, hlaid, he, hlast, hnum, hall⟩ := ih hfields (by omega) (by omega)
    refine ⟨e, ⟨hoff, hpos, hlaid⟩, he, hlast, by simp [hnum], ?_⟩
    intro f hf
    rcases List.mem_cons.mp hf with rfl | hmem
    · exact ⟨by simp only [FieldMeta.Valid, FieldMeta.Rejected, not_or]; exact hvalid, rfl⟩
    · exact hall f hmem

theorem initField_spec {i : Nat} {fieldOffset : Int32} {attr : AttrInfoSqlNode}
    {field : FieldMeta} (h : initField i fieldOffset attr = .ok field) :
    FieldOf attr field ∧ field.attrOffset = fieldOffset := by
  rw [initField] at h
  split at h
  case isTrue hkind =>
    obtain ⟨hvalid, rfl⟩ := FieldMeta.init_eq_ok h
    exact ⟨⟨rfl, rfl, (if_pos hkind).symm, rfl, hvalid⟩, rfl⟩
  case isFalse hkind =>
    obtain ⟨hvalid, rfl⟩ := FieldMeta.init_eq_ok h
    exact ⟨⟨rfl, rfl, (if_neg hkind).symm, rfl, hvalid⟩, rfl⟩

theorem next_offset (attr : AttrInfoSqlNode) (s : Int) :
    (if attr.type ≠ .highVectors then .ofInt ((Int32.ofInt s).toInt + attr.length)
      else Int32.ofInt s + 4) = Int32.ofInt (s + attr.len.toInt) := by
  rw [Int32.ofInt_add, Int32.ofInt_add, Int32.ofInt_toInt, Int32.ofInt_toInt,
    Int32.ofInt_eq_ofNat, AttrInfoSqlNode.len]
  split <;> rfl

theorem initFields_spec {i : Nat} {attributes : List AttrInfoSqlNode} {fields : List FieldMeta}
    {last : Int32} {s : Int} (h : initFields i (.ofInt s) attributes = .ok (fields, last))
    (hs : 0 ≤ s) (hlt : s < 2 ^ 32) :
    ∃ e, Laid s fields e ∧ e = s + (attributes.map fun attr => attr.len.toInt).sum ∧
      last = .ofInt e ∧ List.Forall₂ FieldOf attributes fields := by
  induction attributes generalizing i s fields with
  | nil =>
    cases h
    exact ⟨s, rfl, by simp, rfl, .nil⟩
  | cons attr rest ih =>
    rw [initFields] at h
    obtain ⟨field, hfield, hrest⟩ := bind_eq_ok h
    obtain ⟨⟨fields', last'⟩, hfields, hlist⟩ := bind_eq_ok hrest
    cases hlist
    obtain ⟨hof, hoffset⟩ := initField_spec hfield
    have hvalid := hof.valid
    simp only [FieldMeta.Valid, FieldMeta.Rejected, not_or, hoffset, hof.len] at hvalid
    obtain ⟨hsmall, hoff⟩ := ofInt_of_not_neg hs hlt hvalid.2.2.1
    have hpos := toInt_pos hvalid.2.2.2
    have hlen := attr.len.toInt_lt
    rw [next_offset attr s] at hfields
    obtain ⟨e, hlaid, he, hlast, hall⟩ := ih hfields (by omega) (by omega)
    refine ⟨e, ⟨hoffset ▸ hoff, hof.len ▸ hpos, hof.len ▸ hlaid⟩, ?_, hlast, .cons hof hall⟩
    rw [he, List.map_cons, List.sum_cons]
    omega

theorem init_spec {tableId : Int32} {name : String} {trxFields : Option (List FieldMeta)}
    {attributes : List AttrInfoSqlNode} {storageFormat : StorageFormat} {table : TableMeta}
    (h : init tableId name trxFields attributes storageFormat = .ok table) :
    ∃ sysFields columns e,
      table = {
        tableId
        name
        trxFields := trxFields.getD []
        fields := sysFields ++ columns
        indexes := []
        storageFormat
        recordSize := .ofInt (e + attributes.length) } ∧
      Laid 0 (sysFields ++ columns) e ∧ sysFields.length = (trxFields.getD []).length ∧
      (∀ f ∈ sysFields, f.Valid ∧ f.visible = false) ∧
      List.Forall₂ FieldOf attributes columns ∧ attributes ≠ [] ∧
      (sysFields = [] → e = (attributes.map fun attr => attr.len.toInt).sum) := by
  rw [init] at h
  split_ifs at h with hblank hnone hvector
  obtain ⟨⟨sysFields, fieldOffset⟩, hsys, hrest⟩ := bind_eq_ok h
  obtain ⟨⟨columns, last⟩, hcolumns, htable⟩ := bind_eq_ok hrest
  cases htable
  obtain ⟨mid, hlaid, hmid, hoffset, hnum, hinvisible⟩ :=
    initTrxFields_spec (s := 0) hsys (by omega) (by omega)
  have hle := hlaid.length_le
  rw [hoffset] at hcolumns
  obtain ⟨e, hlaid', he, hlast, hof⟩ := initFields_spec hcolumns (by omega) hmid
  refine ⟨sysFields, columns, e, ?_, hlaid.append hlaid', hnum, hinvisible, hof, ?_, ?_⟩
  · rw [hlast, Int32.ofInt_add, Int32.ofInt_add, Int32.ofInt_toInt]
  · exact fun hnil => hnone (congrArg List.length hnil)
  · intro hnil
    subst hnil
    obtain rfl : 0 = mid := hlaid
    simpa using he

section Document

variable (table : TableMeta) (vs : List Value)

theorem document_tableId : (Value.ofMembers (table.jsonMembers vs)).member? "table_id" =
    some (.int table.tableId.toInt) := by
  simp [jsonMembers, Value.ofMembers, lookup_insertMember]

theorem document_tableName : (Value.ofMembers (table.jsonMembers vs)).member? "table_name" =
    some (.string table.name) := by
  simp [jsonMembers, Value.ofMembers, lookup_insertMember]

theorem document_storageFormat :
    (Value.ofMembers (table.jsonMembers vs)).member? "storage_format" =
      some (.int table.storageFormat.toInt.toInt) := by
  simp [jsonMembers, Value.ofMembers, lookup_insertMember]

theorem document_fields : (Value.ofMembers (table.jsonMembers vs)).member? "fields" =
    some (.ofElements vs) := by
  simp [jsonMembers, Value.ofMembers, lookup_insertMember]

theorem document_indexes : (Value.ofMembers (table.jsonMembers vs)).member? "indexes" =
    some (.ofElements (table.indexes.map IndexMeta.toJson)) := by
  simp [jsonMembers, Value.ofMembers, lookup_insertMember]

end Document

variable {table : TableMeta} {vs : List Value} {read : List FieldMeta}

/-- What is read from a document whose fields are read. -/
theorem ofJson_jsonMembers (hfields : vs.mapM FieldMeta.fromJson = some read) (hne : vs ≠ [])
    (hlaid : Laid 0 read stop) :
    ofJson (.ofMembers (table.jsonMembers vs)) =
      (checkedInt (stop + read.length)).bind fun recordSize =>
        ((table.indexes.map IndexMeta.toJson).mapM (IndexMeta.fromJson
          { table with
            trxFields := read.filter fun field => !field.visible
            fields := read
            indexes := []
            recordSize })).map fun indexes =>
          { table with
            trxFields := read.filter fun field => !field.visible
            fields := read
            indexes
            recordSize } := by
  have hread : read ≠ [] := by
    intro hnil
    have hlen := mapM_length hfields
    rw [hnil, List.length_nil] at hlen
    exact hne (List.length_eq_zero_iff.mp hlen.symm)
  have hsize := hlaid.storedRecordSize hread
  have hpos : 0 < vs.length := List.length_pos_iff.mpr hne
  have hempty : vs.isEmpty = false := by simpa using hne
  simp only [ofJson, document_tableId, document_tableName, document_storageFormat,
    document_fields, document_indexes, Value.elements_ofElements, Value.isArray_ofElements, hfields,
    StorageFormat.ofInt_toInt, hlaid.sort, hsize, hpos, hempty, Value.isEmpty_ofElements,
    Value.isInt_toInt, Value.isString_string, Value.asInt_toInt, Value.asCString_string,
    Int32.ofInt_toInt, Option.bind_eq_bind, Option.bind_some, Bool.not_false, and_self, guard_true,
    Option.pure_def]
  apply Option.bind_congr
  intro recordSize _
  by_cases hindexes : table.indexes = []
  · simp [hindexes]
  · simp [hindexes, Option.map_eq_bind, Function.comp_def]

/-- A document with a field that is not read is not read. -/
theorem ofJson_jsonMembers_of_none (hfields : vs.mapM FieldMeta.fromJson = none) :
    ofJson (.ofMembers (table.jsonMembers vs)) = none := by
  simp [ofJson, document_tableId, document_tableName, document_storageFormat,
    document_fields, document_indexes, Value.elements_ofElements, hfields,
    StorageFormat.ofInt_toInt]

end TableMeta

namespace IndexMeta

/-- The metadata of an index, as `init` makes it from an array of fields. -/
inductive Built : IndexMeta → Prop
  | bplusTree {name : String} {fields : List FieldMeta} {fieldNum isUnique : Int32}
      {index : IndexMeta} (hnum : fieldNum.toInt = fields.length)
      (h : init name fields fieldNum isUnique = .ok index) : Built index
  | vector {name : String} {fields : List FieldMeta} {fieldNum isUnique : Int32}
      {disType : String} {lists probes : Int32} {index : IndexMeta}
      (hnum : fieldNum.toInt = fields.length)
      (h : initVector name fields fieldNum isUnique disType lists probes = .ok index) : Built index

/-- The parameters of a vector index are unset. -/
def Plain (index : IndexMeta) : Prop :=
  index.disType = "" ∧ index.lists = none ∧ index.probes = none

variable {index : IndexMeta} {table : TableMeta} {fields : List FieldMeta}

theorem Built.spec (h : index.Built) :
    isBlank index.name = false ∧ index.fieldNum.toInt = index.fields.length := by
  cases h with
  | bplusTree hnum h =>
    rw [init] at h
    split at h
    · cases h
    · next hblank =>
      cases h
      exact ⟨by simpa using hblank, by simp [hnum]⟩
  | vector hnum h =>
    rw [initVector] at h
    split at h
    · cases h
    · next hblank =>
      cases h
      exact ⟨by simpa using hblank, by simp [hnum]⟩

/-- The fields found under names have these names. -/
theorem map_name_of_mapM {names : List String} (h : names.mapM table.field = some fields) :
    fields.map FieldMeta.name = names := by
  induction names generalizing fields with
  | nil =>
    obtain rfl := Option.some.inj h
    rfl
  | cons name names ih =>
    rw [List.mapM_cons] at h
    obtain ⟨field, hfield, hrest⟩ := Option.bind_eq_some_iff.mp h
    obtain ⟨fields', hfields, hlist⟩ := Option.bind_eq_some_iff.mp hrest
    obtain rfl := Option.some.inj hlist
    have hname := List.find?_some hfield
    rw [List.map_cons, ih hfields]
    simp_all

section Document

variable (index : IndexMeta)

theorem document_name : index.toJson.member? "name" = some (.string index.name) := by
  simp [toJson, Value.ofMembers, lookup_insertMember]

theorem document_fieldNum :
    index.toJson.member? "field_num" = some (.int index.fieldNum.toInt) := by
  simp [toJson, Value.ofMembers, lookup_insertMember]

theorem document_unique : index.toJson.member? "unique" = some (.int index.unique.toInt) := by
  simp [toJson, Value.ofMembers, lookup_insertMember]

theorem document_fieldName :
    index.toJson.member? "field_name" = some (.ofElements (index.fields.mapIdx fun i field =>
      .ofMembers [(toString i, .string field)])) := by
  simp [toJson, Value.ofMembers, lookup_insertMember]

end Document

/-- An index is read back without the parameters of a vector index, if the table has its
fields. -/
theorem fromJson_toJson (h : index.Built) :
    fromJson table index.toJson = (index.fields.mapM table.field).map fun _ =>
      { index with disType := "", lists := none, probes := none } := by
  obtain ⟨hblank, hnum⟩ := h.spec
  have hcount : index.fieldNum.toInt.toNat = index.fields.length := by
    rw [hnum, Int.toNat_natCast]
  simp only [fromJson, document_name, document_fieldNum, document_unique, document_fieldName,
    Option.bind_eq_bind, Option.bind_some, Value.isString_string, Value.asInt64_toInt,
    Value.asCString_string, Int32.ofInt_toInt, hcount, guard_true, Option.pure_def]
  rw [mapM_range index.fields table.field]
  · cases hfields : index.fields.mapM table.field with
    | none => rfl
    | some fields =>
      have hnames := map_name_of_mapM hfields
      have hlen : fields.length = index.fields.length := mapM_length hfields
      rw [Option.bind_some, init, hblank, hcount, ← hlen, List.take_length, hnames]
      rfl
  · intro i name hname
    simp [Value.element?_ofElements, hname, Value.ofMembers, lookup_insertMember]

/-- An index is read back as it was just when it is a B+ tree index on fields of the table. -/
theorem fromJson_toJson_iff (h : index.Built) :
    fromJson table index.toJson = some index ↔
      index.Plain ∧ ∀ name ∈ index.fields, ∃ f ∈ table.fields, f.name = name := by
  have hfound : (index.fields.mapM table.field).isSome ↔
      ∀ name ∈ index.fields, ∃ f ∈ table.fields, f.name = name := by
    simp [mapM_isSome, TableMeta.field]
  rw [fromJson_toJson h, ← hfound, Option.map_eq_some_iff, Option.isSome_iff_exists]
  constructor
  · rintro ⟨fields, hfields, heq⟩
    exact ⟨⟨congrArg disType heq.symm, congrArg lists heq.symm, congrArg probes heq.symm⟩,
      fields, hfields⟩
  · rintro ⟨⟨hdis, hlists, hprobes⟩, fields, hfields⟩
    refine ⟨fields, hfields, ?_⟩
    cases index
    cases hdis
    cases hlists
    cases hprobes
    rfl

end IndexMeta

namespace TableMeta

/-- The bytes of a record without transaction fields: the columns and their null flags. -/
def recordLen (attributes : List AttrInfoSqlNode) : Int :=
  (attributes.map fun attr => attr.len.toInt).sum + attributes.length

/-- What metadata that is read back as it was is made from: no transaction fields, types that
have names, a record whose length is an `int`, and indexes on columns without the parameters of a
vector index. -/
structure ReadBack (trxFields : Option (List FieldMeta)) (attributes : List AttrInfoSqlNode)
    (indexes : List IndexMeta) : Prop where
  noTrxFields : trxFields.getD [] = []
  named : ∀ attr ∈ attributes, attr.type.Named
  fits : recordLen attributes < 2 ^ 31
  plain : ∀ index ∈ indexes, index.Plain
  onColumns : ∀ index ∈ indexes, ∀ name ∈ index.fields, ∃ attr ∈ attributes, attr.name = name

theorem foldl_addIndex (table : TableMeta) (indexes : List IndexMeta) :
    indexes.foldl addIndex table = { table with indexes := table.indexes ++ indexes } := by
  induction indexes generalizing table with
  | nil => simp
  | cons index indexes ih =>
    rw [List.foldl_cons, ih]
    simp [addIndex]

/-- Reading back what was written. -/
def roundTrip (write : Value → String) (parse : String → Option Value) (table : TableMeta) :
    Option TableMeta :=
  (table.serialize write).bind (deserialize parse)

variable {write : Value → String} {parse : String → Option Value} {table : TableMeta}
  {fields : List FieldMeta} {stop : Int}

/-- The text is read back as the document that was written. -/
theorem roundTrip_eq (hjson : ∀ v, table.toJson = some v → parse (write v) = some v) :
    table.roundTrip write parse = table.toJson.bind ofJson := by
  cases hdoc : table.toJson with
  | none => rw [roundTrip, serialize, hdoc, Option.map_none, Option.bind_none, Option.bind_none]
  | some v =>
    rw [roundTrip, serialize, hdoc, Option.map_some, Option.bind_some, deserialize, hjson v hdoc]
    rfl

/-- A document with a field whose type has no name is not read. -/
theorem named_of_ofJson (h : (table.toJson.bind ofJson).isSome) :
    ∀ f ∈ table.fields, f.attrType.Named := by
  obtain ⟨table', h⟩ := Option.isSome_iff_exists.mp h
  obtain ⟨v, hv, hread⟩ := Option.bind_eq_some_iff.mp h
  obtain ⟨vs, hvs, hdoc⟩ := Option.bind_eq_some_iff.mp hv
  obtain rfl := Option.some.inj hdoc
  intro f hf
  by_contra hnamed
  cases hfields : vs.mapM FieldMeta.fromJson with
  | none =>
    rw [ofJson_jsonMembers_of_none hfields] at hread
    cases hread
  | some read =>
    obtain ⟨b, hb, hback⟩ := of_mapM_mapM hvs hfields f hf
    rw [FieldMeta.fromJson_toJson_of_not hnamed hb] at hback
    cases hback

/-- Metadata whose fields lie one after the other is read from its document as it was just when its
record size counts a flag for every field, its transaction fields are the invisible fields, and
its indexes are read back. -/
theorem ofJson_toJson_iff (hlaid : Laid 0 table.fields stop) (hne : table.fields ≠ [])
    (hvalid : ∀ f ∈ table.fields, f.Valid) (hnamed : ∀ f ∈ table.fields, f.attrType.Named)
    (hbuilt : ∀ index ∈ table.indexes, index.Built) :
    table.toJson.bind ofJson = some table ↔
      table.recordSize.toInt = stop + table.fields.length ∧
      table.trxFields = table.fields.filter (fun field => !field.visible) ∧
      ∀ index ∈ table.indexes, index.Plain ∧
        ∀ name ∈ index.fields, ∃ f ∈ table.fields, f.name = name := by
  obtain ⟨vs, hvs, hread⟩ := mapM_mapM_eq FieldMeta.fromJson fun f hf =>
    FieldMeta.fromJson_toJson (hvalid f hf) (hnamed f hf)
  have hdoc : table.toJson = some (.ofMembers (table.jsonMembers vs)) := by
    rw [toJson, hvs]
    rfl
  have hvsne : vs ≠ [] := by
    intro hnil
    have hlen := mapM_length hvs
    rw [hnil] at hlen
    exact hne (List.length_eq_zero_iff.mp hlen.symm)
  rw [hdoc, Option.bind_some, ofJson_jsonMembers hread hvsne hlaid]
  constructor
  · intro h
    obtain ⟨recordSize, hsize, hindexes⟩ := Option.bind_eq_some_iff.mp h
    obtain ⟨indexes, hmap, heq⟩ := Option.map_eq_some_iff.mp hindexes
    have hrec : recordSize = table.recordSize := congrArg TableMeta.recordSize heq
    have htrx := congrArg TableMeta.trxFields heq
    have hind : indexes = table.indexes := congrArg TableMeta.indexes heq
    rw [hind, mapM_map_eq_some] at hmap
    refine ⟨hrec ▸ checkedInt_eq_some.mp hsize, htrx.symm, ?_⟩
    intro index hmem
    exact (IndexMeta.fromJson_toJson_iff (hbuilt index hmem)).mp (hmap index hmem)
  · rintro ⟨hsize, htrx, hindexes⟩
    rw [checkedInt_eq_some.mpr hsize, Option.bind_some, Option.map_eq_some_iff]
    refine ⟨table.indexes, (mapM_map_eq_some _).mpr ?_, ?_⟩
    · intro index hmem
      exact (IndexMeta.fromJson_toJson_iff (hbuilt index hmem)).mpr (hindexes index hmem)
    · cases table
      simp only at htrx
      subst htrx
      rfl

theorem filter_visible_of_forall₂ {attributes : List AttrInfoSqlNode} {columns : List FieldMeta}
    (h : List.Forall₂ FieldOf attributes columns) :
    columns.filter (fun field => !field.visible) = [] := by
  induction h with
  | nil => rfl
  | cons hof _ ih => rw [List.filter_cons_of_neg (by simp [hof.visible]), ih]

theorem names_of_forall₂ {attributes : List AttrInfoSqlNode} {columns : List FieldMeta}
    (h : List.Forall₂ FieldOf attributes columns) (name : String) :
    (∃ f ∈ columns, f.name = name) ↔ ∃ attr ∈ attributes, attr.name = name := by
  induction h with
  | nil => simp
  | cons hof _ ih => simp only [List.exists_mem_cons_iff, ih, hof.name]

theorem named_of_forall₂ {attributes : List AttrInfoSqlNode} {columns : List FieldMeta}
    (h : List.Forall₂ FieldOf attributes columns) :
    (∀ f ∈ columns, f.attrType.Named) ↔ ∀ attr ∈ attributes, attr.type.Named := by
  induction h with
  | nil => simp
  | cons hof _ ih => simp only [List.forall_mem_cons, ih, hof.type]

theorem valid_of_forall₂ {attributes : List AttrInfoSqlNode} {columns : List FieldMeta}
    (h : List.Forall₂ FieldOf attributes columns) : ∀ f ∈ columns, f.Valid := by
  induction h with
  | nil => simp
  | cons hof _ ih => exact List.forall_mem_cons.mpr ⟨hof.valid, ih⟩

/-- Metadata is read back as it was just when it is made without transaction fields, of named
types, with a record length that is an `int`, and with B+ tree indexes only. -/
theorem roundTrip_iff {tableId : Int32} {name : String} {trxFields : Option (List FieldMeta)}
    {attributes : List AttrInfoSqlNode} {storageFormat : StorageFormat} {table' : TableMeta}
    {indexes : List IndexMeta}
    (hinit : init tableId name trxFields attributes storageFormat = .ok table)
    (hbuilt : ∀ index ∈ indexes, index.Built) (htable : indexes.foldl addIndex table = table')
    (hjson : ∀ v, table'.toJson = some v → parse (write v) = some v) :
    table'.roundTrip write parse = some table' ↔ ReadBack trxFields attributes indexes := by
  obtain ⟨sysFields, columns, e, rfl, hlaid, hnum, hinvisible, hof, hattrs, hsum⟩ :=
    init_spec hinit
  have hcount : columns.length = attributes.length := hof.length_eq.symm
  have hpos : 0 < attributes.length := List.length_pos_iff.mpr hattrs
  rw [foldl_addIndex, List.nil_append] at htable
  have hfields : table'.fields = sysFields ++ columns := by rw [← htable]
  have htrxFields : table'.trxFields = trxFields.getD [] := by rw [← htable]
  have hindexes' : table'.indexes = indexes := by rw [← htable]
  have hsize' : table'.recordSize = .ofInt (e + attributes.length) := by rw [← htable]
  have hlen : (table'.fields.length : Int) = sysFields.length + attributes.length := by
    rw [hfields, List.length_append, hcount]
    omega
  have hne : table'.fields ≠ [] := List.ne_nil_of_length_pos (by omega)
  have hvalid : ∀ f ∈ table'.fields, f.Valid := by
    intro f hf
    rw [hfields] at hf
    rcases List.mem_append.mp hf with hsys | hcol
    · exact (hinvisible f hsys).1
    · exact valid_of_forall₂ hof f hcol
  have hiff := fun hnamed => ofJson_toJson_iff (hfields ▸ hlaid) hne hvalid hnamed
    (hindexes' ▸ hbuilt)
  rw [roundTrip_eq hjson]
  have hend := hlaid.length_le
  constructor
  · intro h
    have hnamed := named_of_ofJson (by rw [h]; rfl)
    obtain ⟨hsize, htrx, hindexes⟩ := (hiff hnamed).mp h
    have hbound := table'.recordSize.toInt_lt
    rw [hsize] at hbound
    rw [hsize', Int32.toInt_ofInt_of_le (by omega) (by omega)] at hsize
    obtain rfl : sysFields = [] := List.eq_nil_of_length_eq_zero (by omega)
    rw [List.nil_append] at hfields
    rw [hfields] at hnamed hindexes
    rw [hindexes'] at hindexes
    exact {
      noTrxFields := List.eq_nil_of_length_eq_zero hnum.symm
      named := (named_of_forall₂ hof).mp hnamed
      fits := by rw [recordLen, ← hsum rfl]; omega
      plain := fun index hmem => (hindexes index hmem).1
      onColumns := fun index hmem name hname =>
        (names_of_forall₂ hof name).mp ((hindexes index hmem).2 name hname) }
  · intro h
    obtain rfl : sysFields = [] := by
      apply List.eq_nil_of_length_eq_zero
      rw [hnum, h.noTrxFields, List.length_nil]
    rw [List.nil_append] at hfields
    have hnamed : ∀ f ∈ table'.fields, f.attrType.Named := by
      rw [hfields]
      exact (named_of_forall₂ hof).mpr h.named
    have hfits := h.fits
    rw [recordLen, ← hsum rfl] at hfits
    apply (hiff hnamed).mpr
    refine ⟨?_, ?_, ?_⟩
    · rw [hsize', Int32.toInt_ofInt_of_le (by omega) hfits, hlen, List.length_nil]
      omega
    · rw [htrxFields, h.noTrxFields, hfields, filter_visible_of_forall₂ hof]
    · intro index hmem
      rw [hindexes'] at hmem
      refine ⟨h.plain index hmem, ?_⟩
      intro name hname
      rw [hfields]
      exact (names_of_forall₂ hof name).mpr (h.onColumns index hmem name hname)

/-- A table with one column and an index on it. -/
def plainTable : TableMeta where
  tableId := 0
  name := "t"
  trxFields := []
  fields := [⟨"id", .ints, 0, 4, true, 0, false, 4⟩]
  indexes := [⟨"i_id", ["id"], 1, 0, "", none, none⟩]
  storageFormat := .rowFormat
  recordSize := 5

/-- The text of its metadata, as the JSON writer lays it out. -/
def plainText : String :=
  "\x7b\n\t\"fields\" : \n\t[\n\t\t\x7b\n\t\t\t\"FIELD_id\" : 0,\n" ++
    "\t\t\t\"can_be_null\" : false,\n\t\t\t\"len\" : 4,\n\t\t\t\"name\" : \"id\",\n" ++
    "\t\t\t\"offset\" : 0,\n\t\t\t\"real_len\" : 4,\n\t\t\t\"type\" : \"ints\",\n" ++
    "\t\t\t\"visible\" : true\n\t\t\x7d\n\t],\n\t\"indexes\" : \n\t[\n\t\t\x7b\n" ++
    "\t\t\t\"field_name\" : \n\t\t\t[\n\t\t\t\t\x7b\n\t\t\t\t\t\"0\" : \"id\"\n\t\t\t\t\x7d\n" ++
    "\t\t\t],\n\t\t\t\"field_num\" : 1,\n\t\t\t\"name\" : \"i_id\",\n" ++
    "\t\t\t\"unique\" : 0\n\t\t\x7d\n\t],\n\t\"storage_format\" : 1,\n" ++
    "\t\"table_id\" : 0,\n\t\"table_name\" : \"t\"\n\x7d"

/-- The writer on that table. -/
def plainWrite (_ : Value) : String := plainText

/-- The parser on that text. -/
def plainParse (text : String) : Option Value :=
  if text = plainText then plainTable.toJson else none

theorem roundTrip_plainTable : plainTable.roundTrip plainWrite plainParse = some plainTable := by
  have hinit : init 0 "t" none [⟨.ints, "id", 4, false⟩] .rowFormat =
      .ok { plainTable with indexes := [] } := by decide
  have hindex : IndexMeta.init "i_id" plainTable.fields 1 0 =
      .ok ⟨"i_id", ["id"], 1, 0, "", none, none⟩ := by decide
  have hbuilt : ∀ index ∈ plainTable.indexes, index.Built := by
    intro index hmem
    obtain rfl := List.mem_singleton.mp hmem
    exact .bplusTree (by decide) hindex
  have hjson : ∀ v, plainTable.toJson = some v → plainParse (plainWrite v) = some v := by
    intro v hv
    rw [plainWrite, plainParse, if_pos rfl, hv]
  have htable : plainTable.indexes.foldl addIndex { plainTable with indexes := [] } =
      plainTable := by
    rw [foldl_addIndex]
    rfl
  apply (roundTrip_iff hinit hbuilt htable hjson).mpr
  exact {
    noTrxFields := rfl
    named := by decide
    fits := by decide
    plain := by
      intro index hmem
      obtain rfl := List.mem_singleton.mp hmem
      exact ⟨rfl, rfl, rfl⟩
    onColumns := by decide }

/-- A table of a database with row versions: the two transaction fields come first. -/
def versionedTable : TableMeta where
  tableId := 0
  name := "t"
  trxFields := [⟨"__trx_xid_begin", .ints, 0, 4, false, -1, true, 4⟩,
    ⟨"__trx_xid_end", .ints, 0, 4, false, -2, true, 4⟩]
  fields := [⟨"__trx_xid_begin", .ints, 0, 4, false, -1, true, 4⟩,
    ⟨"__trx_xid_end", .ints, 4, 4, false, -2, true, 4⟩, ⟨"id", .ints, 8, 4, true, 0, false, 4⟩]
  indexes := []
  storageFormat := .rowFormat
  recordSize := 13

/-- The metadata of such a table is read back with a record two bytes longer, whatever the writer
and the parser of its document are. -/
theorem versionedTable_recordSize :
    init 0 "t" (some versionedTable.trxFields) [⟨.ints, "id", 4, false⟩] .rowFormat =
      .ok versionedTable ∧
    ∀ (write : Value → String) (parse : String → Option Value),
      (∀ v, versionedTable.toJson = some v → parse (write v) = some v) →
      versionedTable.roundTrip write parse ≠ some versionedTable := by
  refine ⟨by decide, ?_⟩
  intro write parse hjson hback
  have hlaid : Laid 0 versionedTable.fields 12 := by
    simp [versionedTable, Laid]
  rw [roundTrip_eq hjson, ofJson_toJson_iff hlaid (by decide) (by decide) (by decide)
    (by simp [versionedTable])] at hback
  exact absurd hback.1 (by decide)

end TableMeta

end ObHtap
