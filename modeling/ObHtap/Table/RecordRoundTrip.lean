import ObHtap.Table.StoredFields

/-!
# A record keeps its values

The fields lie one after the other and the null flags behind them, so what is written for one
column stays when the next ones are written.  A number is copied with as many bytes as its field
has and read with four, so the cells are the values exactly if no field of numbers is narrower.
-/

namespace ObHtap

open Sql

variable {field : FieldMeta} {i : Nat} {env : RecordOutcomes}

/-! ## The fields of a table -/

namespace TableMeta

variable {table : TableMeta}

theorem Laid.last_offset {start stop : Int} {fields : List FieldMeta}
    (h : Laid start fields stop) (hlast : fields.getLast? = some field) :
    start + fields.length ≤ field.attrOffset.toInt + 1 := by
  induction fields generalizing start with
  | nil => simp at hlast
  | cons f fields ih =>
    cases fields with
    | nil =>
      obtain rfl : f = field := by simpa using hlast
      rw [h.1]
      simp
    | cons f' fields =>
      have hrest := ih h.2.2 (by simpa using hlast)
      have hpos := h.2.1
      simp only [List.length_cons] at hrest ⊢
      omega

theorem Laid.apart {start stop : Int} {fields : List FieldMeta} (h : Laid start fields stop) :
    fields.Pairwise fun f f' => f.attrOffset.toInt + f.attrLen.toInt ≤ f'.attrOffset.toInt := by
  induction fields generalizing start with
  | nil => exact List.Pairwise.nil
  | cons field fields ih =>
    apply List.Pairwise.cons _ (ih h.2.2)
    intro f' hf'
    rw [h.1]
    exact Laid.start_le h.2.2 f' hf'

theorem Laid.inside {start stop : Int} {fields : List FieldMeta} (h : Laid start fields stop) :
    ∀ f ∈ fields, start ≤ f.attrOffset.toInt ∧ 0 < f.attrLen.toInt ∧
      f.attrOffset.toInt + f.attrLen.toInt ≤ stop := by
  induction fields generalizing start with
  | nil => simp
  | cons field fields ih =>
    intro f hf
    have hlen := Laid.length_le h.2.2
    have hstart := h.1
    have hpos := h.2.1
    rcases List.mem_cons.mp hf with rfl | hmem
    · omega
    · have hrest := ih h.2.2 f hmem
      omega

theorem initFields_ids {i : Nat} {fieldOffset last : Int32} {attributes : List AttrInfoSqlNode}
    {fields : List FieldMeta} (h : initFields i fieldOffset attributes = .ok (fields, last)) :
    fields.length = attributes.length ∧
      ∀ (k : Nat) (f : FieldMeta), fields[k]? = some f → f.fieldId = Int32.ofNat (i + k) := by
  induction attributes generalizing i fieldOffset fields with
  | nil =>
    cases h
    exact ⟨rfl, fun k f hf => by cases hf⟩
  | cons attr rest ih =>
    rw [initFields] at h
    obtain ⟨field, hfield, hrest⟩ := bind_eq_ok h
    obtain ⟨⟨fields', last'⟩, hfields, hlist⟩ := bind_eq_ok hrest
    cases hlist
    obtain ⟨hlength, hids⟩ := ih hfields
    refine ⟨congrArg Nat.succ hlength, fun k f hk => ?_⟩
    cases k with
    | zero =>
      cases hk
      rw [initField] at hfield
      split at hfield <;> exact (FieldMeta.init_eq_ok hfield).2 ▸ rfl
    | succ k =>
      rw [hids k f hk]
      congr 1
      omega

theorem exists_fieldOf {attributes : List AttrInfoSqlNode} {columns : List FieldMeta}
    (h : List.Forall₂ FieldOf attributes columns) :
    ∀ f ∈ columns, ∃ attr ∈ attributes, FieldOf attr f := by
  induction h with
  | nil => simp
  | cons hfirst _ ih =>
    intro f hf
    rcases List.mem_cons.mp hf with rfl | hmem
    · exact ⟨_, List.mem_cons_self, hfirst⟩
    · obtain ⟨attr, hattr, hof⟩ := ih f hmem
      exact ⟨attr, List.mem_cons_of_mem _ hattr, hof⟩

/-- A table as `init` makes it, with columns that can be declared; its fields end at `stop`. -/
structure Made (table : TableMeta) (stop : Nat) : Prop where
  laid : Laid 0 table.fields stop
  count : table.fields.length = table.sysFieldNum + table.columns.length
  size : table.recordSize = .ofInt (stop + table.columns.length : Nat)
  ids : ∀ (k : Nat) (f : FieldMeta), table.columns[k]? = some f → f.fieldId = Int32.ofNat k
  types : ∀ f ∈ table.columns, f.attrType.OfColumn
  highVectors : ∀ f ∈ table.columns, f.attrType = .highVectors → f.attrLen.toInt = 4
  nonempty : table.columns ≠ []

theorem made_of_init {tableId : Int32} {name : String} {trxFields : Option (List FieldMeta)}
    {attributes : List AttrInfoSqlNode} {storageFormat : StorageFormat}
    (h : init tableId name trxFields attributes storageFormat = .ok table)
    (htypes : ∀ attr ∈ attributes, attr.type.OfColumn) : ∃ stop, table.Made stop := by
  obtain ⟨sysFields, columns, e, htable, hlaid, hnum, -, hof, hne, -⟩ := init_spec h
  have hcolumns : table.columns = columns := by
    rw [htable]
    unfold TableMeta.columns sysFieldNum
    dsimp only
    rw [← hnum, List.drop_left]
  have hle := hlaid.length_le
  have hlength := hof.length_eq
  refine ⟨e.toNat, ?_, ?_, ?_, ?_, ?_, ?_, ?_⟩
  · rw [Int.toNat_of_nonneg (by omega), htable]
    exact hlaid
  · rw [hcolumns, htable]
    unfold sysFieldNum
    dsimp only
    rw [List.length_append, hnum]
  · rw [hcolumns, htable]
    dsimp only
    rw [← hlength]
    congr 1
    omega
  · rw [init] at h
    split_ifs at h
    obtain ⟨⟨sysFields', fieldOffset⟩, -, hrest⟩ := bind_eq_ok h
    obtain ⟨⟨columns', last⟩, hcolumns', heq⟩ := bind_eq_ok hrest
    intro k f hf
    have hsame : columns' = columns := by
      have hfields := congrArg TableMeta.fields ((Except.ok.inj heq).trans htable)
      have hlast : columns'.length = columns.length :=
        (initFields_ids hcolumns').1.trans hlength
      exact (List.append_inj' hfields hlast).2
    rw [hcolumns, ← hsame] at hf
    have hid := (initFields_ids hcolumns').2 k f hf
    rwa [Nat.zero_add] at hid
  · rw [hcolumns]
    intro f hf
    obtain ⟨attr, hattr, hfield⟩ := exists_fieldOf hof f hf
    exact hfield.type ▸ htypes attr hattr
  · rw [hcolumns]
    intro f hf hvectors
    obtain ⟨attr, hattr, hfield⟩ := exists_fieldOf hof f hf
    rw [hfield.len, AttrInfoSqlNode.len, if_neg (by rw [← hfield.type, hvectors]; simp)]
    rfl
  · rw [hcolumns]
    intro hnil
    rw [hnil, List.length_nil] at hlength
    exact hne (List.length_eq_zero_iff.mp hlength)

namespace Made

variable {stop : Nat} (h : table.Made stop)

include h

theorem columnsFrom (hroom : stop + table.columns.length < 2 ^ 31) :
    Columns stop 0 table.columns where
  inside f hf := by
    have hin := h.laid.inside f (List.mem_of_mem_drop hf)
    unfold Int32.toNatClampNeg
    omega
  ids k f hf := by
    have hlt := (List.getElem?_eq_some_iff.mp hf).1
    rw [h.ids k f hf, Int32.toInt_ofNat_of_lt (by omega), Nat.zero_add]
  apart := by
    have hsub : table.columns.Sublist table.fields := List.drop_sublist _ _
    refine (h.laid.apart.sublist hsub).imp_of_mem fun hf hf' hle => ?_
    have hin := h.laid.inside _ (hsub.subset hf)
    have hin' := h.laid.inside _ (hsub.subset hf')
    unfold Int32.toNatClampNeg
    omega

theorem recordSize_eq (hroom : stop + table.columns.length < 2 ^ 31) :
    table.recordSize.toInt = stop + table.columns.length := by
  rw [h.size, Int32.toInt_ofInt_of_le (by omega) (by omega)]
  omega

theorem exists_last : ∃ f, table.fields.getLast? = some f ∧ table.columns.getLast? = some f := by
  have hlast := List.getLast?_eq_some_getLast h.nonempty
  refine ⟨_, ?_, hlast⟩
  have hdrop : table.columns.getLast? = if table.fields.length ≤ table.sysFieldNum then none
      else table.fields.getLast? := List.getLast?_drop
  rw [← hlast, hdrop, if_neg]
  have hpos := List.length_pos_iff.mpr h.nonempty
  have hcount := h.count
  omega

section

variable [Floats FloatWord] {env : RecordOutcomes} {values : List (Sql.Value FloatWord)}
  {record : List UInt8}

theorem makeRecord_length (hmade : table.makeRecord env values = .ok record) :
    values.length = table.columns.length := by
  unfold makeRecord at hmade
  split at hmade
  · cases hmade
  · next hnum =>
    have hcount := h.count
    omega

/-- A record is made only if its size is an `int`. -/
theorem room_of_makeRecord (hmade : table.makeRecord env values = .ok record) :
    stop + table.columns.length < 2 ^ 31 := by
  have hlength := h.makeRecord_length hmade
  unfold makeRecord at hmade
  split_ifs at hmade with _ hsize
  obtain ⟨f, hlast, hcolumn⟩ := h.exists_last
  have hend := h.laid.getLast hlast
  have hoffset := h.laid.last_offset hlast
  obtain ⟨hstart, hpos, -⟩ := h.laid.inside f (List.mem_of_getLast? hlast)
  have hbound := f.attrOffset.toInt_lt
  have hbound' := f.attrLen.toInt_lt
  have hcount := h.count
  have hcols : 0 < table.columns.length := List.length_pos_iff.mpr h.nonempty
  -- the last column has been written
  rw [List.getLast?_eq_getElem?] at hcolumn
  have hvalue : values[table.columns.length - 1]? = some (values[table.columns.length - 1]) :=
    List.getElem?_eq_getElem _
  have hbegins := makeFields_begins hmade f _ _ hcolumn hvalue
    (by unfold Int32.toNatClampNeg; omega)
  have hnonneg : ¬ table.recordSize.toInt < 0 := by simpa [Int32.lt_iff_toInt_lt] using hsize
  have hmod : table.recordSize.toInt =
      ((stop + table.columns.length : Nat) : Int).bmod (2 ^ 32) := by
    rw [h.size]
    exact Int32.toInt_ofInt
  rw [List.length_replicate] at hbegins
  unfold Int32.toNatClampNeg at hbegins
  rw [Int.bmod] at hmod
  split at hmod <;> omega

/-- A list of values is accepted if each of them can be written. -/
theorem makeRecord_ok_iff (hroom : stop + table.columns.length < 2 ^ 31) :
    (∃ record, table.makeRecord env values = .ok record) ↔
      values.length = table.columns.length ∧ ∀ k f v, table.columns[k]? = some f →
        values[k]? = some v → Takes env k f v := by
  have hsize := h.recordSize_eq hroom
  have hnat : table.recordSize.toNatClampNeg = stop + table.columns.length := by
    unfold Int32.toNatClampNeg
    omega
  have hcolumns := h.columnsFrom hroom
  have hbound : stop + (0 + table.columns.length) ≤
      (List.replicate table.recordSize.toNatClampNeg (0 : UInt8)).length := by
    rw [List.length_replicate, hnat, Nat.zero_add]
  have hcount := h.count
  have hnonneg : ¬ table.recordSize < 0 := by
    rw [Int32.lt_iff_toInt_lt, hsize]
    simp
    omega
  constructor
  · rintro ⟨record, hmade⟩
    refine ⟨h.makeRecord_length hmade, fun k f v hf hv => ?_⟩
    unfold makeRecord at hmade
    rw [if_neg (by have hlen := h.makeRecord_length hmade; omega), if_neg hnonneg] at hmade
    obtain ⟨real, bytes, hreal, hbytes, -⟩ :=
      (makeFields_spec hcolumns hbound hmade).2.2.2 k f v hf hv
    rw [Nat.zero_add] at hreal hbytes
    exact ⟨real, bytes, hreal, hbytes⟩
  · rintro ⟨hlen, htakes⟩
    unfold makeRecord
    rw [if_neg (by omega), if_neg hnonneg]
    refine makeFields_ok hcolumns hbound fun k f v hf hv => ?_
    rw [Nat.zero_add]
    exact htakes k f v hf hv

theorem stored_of_makeRecord (hmade : table.makeRecord env values = .ok record) :
    record.length = stop + table.columns.length ∧ ∀ k f v, table.columns[k]? = some f →
      values[k]? = some v → ∃ real bytes, realValue env k f v = .ok real ∧
        copiedBytes (env.behind k) real f = .ok bytes ∧ Stored f bytes real.isNull record := by
  have hroom := h.room_of_makeRecord hmade
  have hlen := h.makeRecord_length hmade
  have hsize := h.recordSize_eq hroom
  have hnat : table.recordSize.toNatClampNeg = stop + table.columns.length := by
    unfold Int32.toNatClampNeg
    omega
  unfold makeRecord at hmade
  split_ifs at hmade
  obtain ⟨hlength, -, -, hall⟩ := makeFields_spec (h.columnsFrom hroom)
    (by rw [List.length_replicate, hnat, Nat.zero_add]) hmade
  rw [List.length_replicate, hnat] at hlength
  refine ⟨hlength, fun k f v hf hv => ?_⟩
  obtain ⟨real, bytes, hreal, hbytes, hstored⟩ := hall k f v hf hv
  rw [Nat.zero_add] at hreal hbytes
  exact ⟨real, bytes, hreal, hbytes, hstored⟩

end

end Made

end TableMeta

/-! ## A narrow field -/

/-- A number of a type, by its bytes. -/
def wordOf (type : AttrType) (bits : Int32) : Sql.Value FloatWord :=
  match type with
  | .floats => .floats ⟨bits⟩
  | .dates => .dates bits
  | .texts => .texts bits
  | _ => .ints bits

theorem wordOf_spec {type : AttrType} (h : type.IsWord) (bits : Int32) :
    (wordOf type bits).attrType = type ∧ (wordOf type bits).data = some (int32Bytes bits) ∧
      (wordOf type bits).asCString = wordOf type bits := by
  revert h
  cases type
  case ints | floats | dates | texts => exact fun _ => ⟨rfl, rfl, rfl⟩
  all_goals exact fun h => absurd h (by decide)

/-- A field of fewer than four bytes loses the last byte of a number. -/
theorem copiedBytes_narrow {behind : Nat → UInt8} (hword : field.attrType.IsWord)
    (hnarrow : field.attrLen.toNatClampNeg < 4) :
    copiedBytes behind (wordOf field.attrType 0) field =
      copiedBytes behind (wordOf field.attrType (2 ^ 24)) field := by
  obtain ⟨hkind, hdata, -⟩ := wordOf_spec hword 0
  obtain ⟨hkind', hdata', -⟩ := wordOf_spec hword (2 ^ 24)
  have hchars : field.attrType ≠ .chars := by
    intro heq
    rw [heq] at hword
    exact absurd hword (by decide)
  unfold copiedBytes Sql.Value.memory
  dsimp only
  rw [hkind, hkind', if_neg hchars, if_neg hchars, hdata, hdata']
  dsimp only
  congr 1
  apply List.map_congr_left
  intro p hp
  have hlt := List.mem_range.mp hp
  match p with
  | 0 | 1 | 2 => rfl
  | p + 3 => omega

/-! ## Round trips -/

section

variable [Floats FloatWord]

/-- `NULL` can be written exactly into a nullable field. -/
theorem takes_nulls_iff (htype : field.attrType.OfColumn) :
    Takes env i field .nulls ↔ field.canBeNull = true := by
  have hne : field.attrType ≠ (Sql.Value.nulls : Sql.Value FloatWord).attrType := by
    intro heq
    rw [heq] at htype
    exact absurd htype (by simp only [Sql.Value.attrType]; decide)
  constructor
  · rintro ⟨real, bytes, hreal, -⟩
    rcases realValue_spec htype hreal with ⟨-, -, hnull⟩ | ⟨hnot, -⟩
    · exact hnull
    · cases hnot
  · intro hnull
    obtain ⟨bytes, hbytes⟩ := @Sql.Value.memory_of_data .nulls (env.behind i)
      field.attrLen.toNatClampNeg [] rfl
    refine ⟨.nulls, bytes, ?_, ?_⟩
    · unfold realValue
      rw [if_pos hne, if_pos ⟨rfl, hnull⟩]
    · unfold copiedBytes
      dsimp only
      rw [if_neg (by rintro ⟨⟩), hbytes]

namespace TableMeta

variable {table : TableMeta} {stop : Nat}

theorem Made.inverse (h : table.Made stop) (hwide : table.Wide) {env : RecordOutcomes}
    {values : List (Sql.Value FloatWord)} {record : List UInt8}
    (hmade : table.makeRecord env values = .ok record) : table.Inverse env values record := by
  have hroom := h.room_of_makeRecord hmade
  obtain ⟨hlength, hall⟩ := h.stored_of_makeRecord hmade
  have hcolumns := h.columnsFrom hroom
  have hsize := h.recordSize_eq hroom
  have hflag (k : Nat) (f : FieldMeta) (hf : table.columns[k]? = some f) :
      table.flagPlace f = stop + table.columns.length - k - 1 ∧ k < table.columns.length := by
    have hlt := (List.getElem?_eq_some_iff.mp hf).1
    unfold flagPlace
    rw [hsize, hcolumns.ids k f hf, Nat.zero_add]
    exact ⟨rfl, hlt⟩
  refine ⟨?_, ?_, ?_, ?_, ?_, ?_⟩
  · intro k f v hf hv
    obtain ⟨real, bytes, hreal, hbytes, hstored⟩ := hall k f v hf hv
    have hmem := List.mem_of_getElem? hf
    have htype := h.types f hmem
    have hat : table.cellAt record (table.sysFieldNum + k) = cellIsNull record f >>= fun isNull =>
        if isNull then .ok .nulls
        else Sql.Value.setData f.attrType record f.attrOffset.toNatClampNeg
          f.attrLen.toNatClampNeg := by
      have hfield : table.fields[table.sysFieldNum + k]? = some f := by
        rw [← List.getElem?_drop]
        exact hf
      rw [cellAt, hfield]
    rw [hstored.flag, ok_bind] at hat
    rcases realValue_spec htype hreal with
      ⟨hnull, hreal', -⟩ | ⟨hnot, hreal', cell, hconv, hcell, hdata, hchars, hvector⟩
    · rw [hreal', if_pos rfl] at hat
      refine ⟨_, hat, hnull.symm, fun hfalse => ?_⟩
      rw [hnull] at hfalse
      cases hfalse
    · rw [hreal', if_neg Bool.false_ne_true] at hat
      have hin := hcolumns.inside f hmem
      have hread := setData_of_stored htype hbytes hstored (by omega) hcell hdata hchars hvector ?_
      · refine ⟨_, hat.trans hread, ?_, fun _ => by rw [hconv]; rfl⟩
        rw [hnot, isNull_asCString, isNull_of_ofColumn (hcell ▸ htype)]
      · intro hkind
        have hlen : 4 ≤ f.attrLen.toInt := by
          rcases hkind with hword | hvectors
          · exact hwide f hmem hword
          · exact (h.highVectors f hmem hvectors).ge
        unfold Int32.toNatClampNeg
        omega
  · intro k f hf
    have hlt := (List.getElem?_eq_some_iff.mp hf).1
    have htype := h.types f (List.mem_of_getElem? hf)
    obtain ⟨hnum, htakes⟩ := (h.makeRecord_ok_iff hroom).mp ⟨record, hmade⟩
    rw [h.makeRecord_ok_iff hroom, ← @takes_nulls_iff _ k env _ htype]
    constructor
    · rintro ⟨-, hset⟩
      exact hset k f .nulls hf (List.getElem?_set_self (by omega))
    · intro hnulls
      refine ⟨by rw [List.length_set, hnum], fun j g v hg hv => ?_⟩
      rcases Nat.decEq k j with hne | rfl
      · rw [List.getElem?_set_ne hne] at hv
        exact htakes j g v hg hv
      · rw [List.getElem?_set_self (by omega)] at hv
        cases hv
        cases hf.symm.trans hg
        exact hnulls
  · refine h.laid.apart.imp fun hle => ?_
    apply Set.disjoint_left.mpr
    intro p hp hp'
    exact absurd (hp.2.trans_le hle) (not_lt.mpr hp'.1)
  · apply List.pairwise_iff_getElem.mpr
    intro j k hj hk hlt heq
    rw [(hflag j _ (List.getElem?_eq_getElem hj)).1, (hflag k _ (List.getElem?_eq_getElem hk)).1]
      at heq
    omega
  · intro f hf f' hf' hmem
    obtain ⟨k, hk⟩ := List.mem_iff_getElem?.mp hf
    have hplace := hflag k f hk
    have hin := (h.laid.inside f' hf').2.2
    have hlt := hmem.2
    omega
  · intro f hf
    obtain ⟨k, hk⟩ := List.mem_iff_getElem?.mp hf
    have hplace := hflag k f hk
    omega

theorem Made.not_unfillable (h : table.Made stop) {env : RecordOutcomes}
    {values : List (Sql.Value FloatWord)} {record : List UInt8}
    (hmade : table.makeRecord env values = .ok record) : ¬ table.Unfillable := by
  rintro (⟨f, hf, hvectors, hnot, hdvd⟩ | ⟨f, hlast, hbig⟩)
  · obtain ⟨k, hk⟩ := List.mem_iff_getElem?.mp hf
    have hlt := (List.getElem?_eq_some_iff.mp hk).1
    have hlen := h.makeRecord_length hmade
    obtain ⟨real, bytes, hreal, -⟩ := (h.stored_of_makeRecord hmade).2 k f _ hk
      (List.getElem?_eq_getElem (hlen ▸ hlt))
    rcases realValue_spec (h.types f hf) hreal with
      ⟨-, -, hnull⟩ | ⟨-, -, cell, -, hcell, -, -, hvector⟩
    · rw [hnot] at hnull
      cases hnull
    · have hlength := hvector hvectors
      rw [hvectors] at hcell
      cases cell with
      | vectors elems =>
        rw [Sql.Value.length] at hlength
        exact hdvd ⟨elems.length, by omega⟩
      | _ => cases hcell
  · have hroom := h.room_of_makeRecord hmade
    have hend := h.laid.getLast hlast
    omega

/-- Every text is written to page 0, and the memory behind a value is zero. -/
def zeroOutcomes : RecordOutcomes := ⟨fun _ _ => .ok 0, fun _ _ => .ok 0, fun _ _ => 0⟩

/-- A value that a field takes. -/
def filler (field : FieldMeta) : Sql.Value FloatWord :=
  match field.attrType with
  | .chars => .chars (some [])
  | .highVectors => .highVectors 0
  | .vectors =>
    if field.canBeNull then .nulls
    else .vectors (List.replicate (field.attrLen.toNatClampNeg / 4) ⟨0⟩)
  | type => wordOf type 0

theorem takes_of_attrType {value : Sql.Value FloatWord} {own : List UInt8}
    (htype : field.attrType = value.attrType) (hdata : value.data = some own)
    (hchars : value.attrType = .chars → value.length ≤ field.attrLen.toNatClampNeg)
    (hvectors : value.attrType = .vectors → field.attrLen.toInt = value.length) :
    Takes env i field value := by
  have hreal : realValue env i field value = .ok value := by
    unfold realValue
    rw [if_neg (not_not.mpr htype), if_neg]
    rintro ⟨hv, hne⟩
    exact hne (hvectors (htype ▸ hv))
  obtain ⟨bytes, hbytes⟩ : ∃ bytes, copiedBytes (env.behind i) value field = .ok bytes := by
    unfold copiedBytes
    dsimp only
    split
    · next hc =>
      rw [if_neg (not_lt.mpr (hchars hc))]
      exact Sql.Value.memory_of_data hdata
    · exact Sql.Value.memory_of_data hdata
  exact ⟨value, bytes, hreal, hbytes⟩

theorem takes_filler (htype : field.attrType.OfColumn) (hpos : 0 < field.attrLen.toInt)
    (hfits : field.attrType = .vectors → field.canBeNull = false → 4 ∣ field.attrLen.toInt) :
    Takes env i field (filler field) := by
  unfold filler
  split
  case h_1 heq =>
    exact takes_of_attrType heq rfl (fun _ => Nat.zero_le _) (fun hv => by cases hv)
  case h_2 heq => exact takes_of_attrType heq rfl (fun hc => by cases hc) (fun hv => by cases hv)
  case h_3 heq =>
    split
    case isTrue hnull => exact (takes_nulls_iff htype).mpr hnull
    case isFalse hnot =>
      refine takes_of_attrType heq rfl (fun hc => by cases hc) fun _ => ?_
      have hdvd := hfits heq (Bool.eq_false_of_not_eq_true hnot)
      rw [Sql.Value.length, List.length_replicate]
      unfold Int32.toNatClampNeg
      omega
  case h_4 hchars hhigh hvectors =>
    have hword : field.attrType.IsWord := by
      revert htype hchars hhigh hvectors
      generalize field.attrType = type
      cases type <;> simp [AttrType.OfColumn, AttrType.IsWord]
    obtain ⟨hkind, hdata, -⟩ := wordOf_spec hword 0
    refine takes_of_attrType hkind.symm hdata (fun hc => ?_) (fun hv => ?_)
    · exact absurd (hkind.symm.trans hc) hchars
    · exact absurd (hkind.symm.trans hv) hvectors

/-- Two values that are written alike give the same record. -/
theorem makeFields_set {fields : List FieldMeta} {values : List (Sql.Value FloatWord)}
    {record : List UInt8} {value value' : Sql.Value FloatWord} {j : Nat}
    (hreal : realValue env (i + j) field value = .ok value)
    (hreal' : realValue env (i + j) field value' = .ok value')
    (hcopied : copiedBytes (env.behind (i + j)) value field =
      copiedBytes (env.behind (i + j)) value' field)
    (hnull : value.isNull = value'.isNull) (hj : fields[j]? = some field) :
    makeFields env i fields (values.set j value) record =
      makeFields env i fields (values.set j value') record := by
  induction fields generalizing i j values record with
  | nil => cases hj
  | cons f fields ih =>
    cases values with
    | nil => rfl
    | cons v values =>
      cases j with
      | zero =>
        cases hj
        rw [Nat.add_zero] at hreal hreal' hcopied
        rw [List.set_cons_zero, List.set_cons_zero, makeFields, makeFields, hreal, hreal', ok_bind,
          ok_bind, setValueToRecord, setValueToRecord, hcopied, hnull]
      | succ j =>
        rw [Nat.add_comm j, ← Nat.add_assoc] at hreal hreal' hcopied
        rw [List.set_cons_succ, List.set_cons_succ, makeFields, makeFields]
        congr 1
        funext real
        congr 1
        funext record
        exact ih hreal hreal' hcopied hj

/-- A number of the type of the field is handed over as it is. -/
theorem realValue_wordOf (hword : field.attrType.IsWord) (bits : Int32) :
    realValue env i field (wordOf field.attrType bits) = .ok (wordOf field.attrType bits) := by
  obtain ⟨hkind, -, -⟩ := wordOf_spec hword bits
  unfold realValue
  rw [if_neg (not_not.mpr hkind.symm), if_neg]
  rintro ⟨hvectors, -⟩
  rw [hvectors] at hword
  exact absurd hword (by decide)

theorem takes_wordOf (hword : field.attrType.IsWord) (bits : Int32) :
    Takes env i field (wordOf field.attrType bits) := by
  obtain ⟨hkind, hdata, -⟩ := wordOf_spec hword bits
  refine takes_of_attrType hkind.symm hdata (fun hchars => ?_) (fun hvectors => ?_)
  · rw [hkind.symm.trans hchars] at hword
    exact absurd hword (by decide)
  · rw [hkind.symm.trans hvectors] at hword
    exact absurd hword (by decide)

/-- Some list with the given value in one place is accepted. -/
theorem Made.accepts (h : table.Made stop) (hfillable : ¬ table.Unfillable) {j : Nat}
    {value : Sql.Value FloatWord} (hj : table.columns[j]? = some field)
    (htakes : Takes env j field value) :
    ∃ record, table.makeRecord env ((table.columns.map filler).set j value) = .ok record := by
  have hlt := (List.getElem?_eq_some_iff.mp hj).1
  have hroom : stop + table.columns.length < 2 ^ 31 := by
    by_contra hbig
    obtain ⟨last, hlast, -⟩ := h.exists_last
    have hend := h.laid.getLast hlast
    exact hfillable (Or.inr ⟨last, hlast, by omega⟩)
  rw [h.makeRecord_ok_iff hroom]
  refine ⟨by rw [List.length_set, List.length_map], fun k g v hg hv => ?_⟩
  rcases Nat.decEq j k with hne | rfl
  · rw [List.getElem?_set_ne hne, List.getElem?_map, hg] at hv
    cases hv
    have hmem := List.mem_of_getElem? hg
    refine takes_filler (h.types g hmem) (h.laid.inside g (List.mem_of_mem_drop hmem)).2.1 ?_
    intro hvectors hnull
    by_contra hdvd
    exact hfillable (Or.inl ⟨g, hmem, hvectors, hnull, hdvd⟩)
  · rw [List.getElem?_set_self (by rw [List.length_map]; exact hlt)] at hv
    cases hv
    cases hj.symm.trans hg
    exact htakes

/-- Two numbers that differ in their last byte have the same record. -/
theorem makeRecord_narrow {j : Nat} {values : List (Sql.Value FloatWord)} {record : List UInt8}
    (hj : table.columns[j]? = some field) (htype : field.attrType.OfColumn)
    (hword : field.attrType.IsWord) (hnarrow : field.attrLen.toInt < 4)
    (hmade : table.makeRecord env (values.set j (wordOf field.attrType 0)) = .ok record) :
    table.makeRecord env (values.set j (wordOf field.attrType (2 ^ 24))) = .ok record := by
  have hnull (bits : Int32) : (wordOf field.attrType bits).isNull = false :=
    isNull_of_ofColumn ((wordOf_spec hword bits).1.symm ▸ htype)
  have hlen : field.attrLen.toNatClampNeg < 4 := by
    unfold Int32.toNatClampNeg
    omega
  unfold makeRecord at hmade ⊢
  rw [List.length_set] at hmade ⊢
  rw [← hmade]
  congr 2
  have hsame := @makeFields_set field 0 env _ table.columns values
    (List.replicate table.recordSize.toNatClampNeg 0) (wordOf field.attrType (2 ^ 24))
    (wordOf field.attrType 0) j
  rw [Nat.zero_add] at hsame
  exact hsame (realValue_wordOf hword _) (realValue_wordOf hword _)
    (copiedBytes_narrow hword hlen).symm ((hnull _).trans (hnull _).symm) hj

/-- One of two numbers with the same record is lost. -/
theorem Made.not_roundTrips (h : table.Made stop) (hwide : ¬ table.Wide)
    (hfillable : ¬ table.Unfillable) : ¬ table.RoundTrips := by
  intro hround
  unfold Wide at hwide
  push Not at hwide
  obtain ⟨f, hf, hword, hnarrow⟩ := hwide
  obtain ⟨j, hj⟩ := List.mem_iff_getElem?.mp hf
  have hlt := (List.getElem?_eq_some_iff.mp hj).1
  have hread (bits : Int32) (record : List UInt8) (hmade : table.makeRecord zeroOutcomes
      ((table.columns.map filler).set j (wordOf f.attrType bits)) = .ok record) :
      table.cellAt record (table.sysFieldNum + j) = .ok (wordOf f.attrType bits) := by
    obtain ⟨hkind, -, hsame⟩ := wordOf_spec hword bits
    obtain ⟨cell, hcell, -, hconv⟩ := (hround _ _ record hmade).cells j f _ hj
      (List.getElem?_set_self (by rw [List.length_map]; exact hlt))
    have hvalue := hconv (isNull_of_ofColumn (hkind.symm ▸ h.types f hf))
    unfold converted at hvalue
    rw [if_pos hkind.symm] at hvalue
    rw [hcell, ← hvalue, Except.map, hsame]
  obtain ⟨record, hmade⟩ := h.accepts hfillable hj (@takes_wordOf f j zeroOutcomes _ hword 0)
  have hmade' := makeRecord_narrow hj (h.types f hf) hword hnarrow hmade
  have heq := (hread 0 record hmade).symm.trans (hread (2 ^ 24) record hmade')
  have hdata := congrArg Sql.Value.data (Except.ok.inj heq)
  rw [(wordOf_spec hword _).2.1, (wordOf_spec hword _).2.1] at hdata
  exact absurd (Option.some.inj hdata) (by decide)

/-- The cells of a record are the values that it was made of exactly if no column of numbers is
declared with fewer than four bytes, unless no record can be made at all. -/
theorem roundTrips_iff {tableId : Int32} {name : String} {trxFields : Option (List FieldMeta)}
    {attributes : List AttrInfoSqlNode} {storageFormat : StorageFormat}
    (h : init tableId name trxFields attributes storageFormat = .ok table)
    (htypes : ∀ attr ∈ attributes, attr.type.OfColumn) :
    table.RoundTrips ↔ table.Wide ∨ table.Unfillable := by
  obtain ⟨stop, hmade⟩ := made_of_init h htypes
  constructor
  · intro hround
    by_contra hnot
    rw [not_or] at hnot
    exact hmade.not_roundTrips hnot.1 hnot.2 hround
  · rintro (hwide | hunfillable) env values record hrecord
    · exact hmade.inverse hwide hrecord
    · exact absurd hunfillable (hmade.not_unfillable hrecord)

end TableMeta

end

namespace Sql.FloatWord

/-- A float as a rational number; infinities and NaNs are none. -/
def toRat (x : FloatWord) : ℚ := FloatBits.ofBits x.bits

def ofRat (q : ℚ) : FloatWord := ⟨FloatBits.toBits q⟩

instance : Floats FloatWord where
  add x y := ofRat (x.toRat + y.toRat)
  sub x y := ofRat (x.toRat - y.toRat)
  mul x y := ofRat (x.toRat * y.toRat)
  div x y := ofRat (x.toRat / y.toRat)
  neg x := ofRat (-x.toRat)
  lt x y := Floats.lt x.toRat y.toRat
  le x y := Floats.le x.toRat y.toRat
  ofInt n := ofRat n
  round x := Floats.round x.toRat
  epsilon := ofRat Floats.epsilon
  tenths acc n := ofRat (Floats.tenths acc.toRat n)
  toInt x := Floats.toInt x.toRat
  doubleToStr x := Floats.doubleToStr x.toRat
  stof s := ofRat (Floats.stof s)
  bits x := x.bits

end Sql.FloatWord

namespace TableMeta

/-- A number and a string of three characters. -/
def namedTable : TableMeta where
  tableId := 1
  name := "t"
  trxFields := []
  fields := [⟨"id", .ints, 0, 4, true, 0, false, 4⟩, ⟨"name", .chars, 4, 3, true, 1, true, 4⟩]
  indexes := []
  storageFormat := .rowFormat
  recordSize := 9

theorem roundTrips_named : namedTable.RoundTrips := by
  have hinit : init 1 "t" none [⟨.ints, "id", 4, false⟩, ⟨.chars, "name", 3, true⟩] .rowFormat =
      .ok namedTable := by decide
  refine (roundTrips_iff hinit (by decide)).mpr (Or.inl ?_)
  unfold Wide
  decide

def narrowTable : TableMeta where
  tableId := 1
  name := "t"
  trxFields := []
  fields := [⟨"a", .ints, 0, 2, true, 0, true, 4⟩, ⟨"b", .ints, 2, 4, true, 1, true, 4⟩]
  indexes := []
  storageFormat := .rowFormat
  recordSize := 8

/-- In a column of type `INT(2)` 65536 is read as 0. -/
theorem not_roundTrips_narrow :
    init 1 "t" none [⟨.ints, "a", 2, true⟩, ⟨.ints, "b", 4, true⟩] .rowFormat = .ok narrowTable ∧
      ¬ narrowTable.RoundTrips := by
  refine ⟨by decide, fun h => ?_⟩
  have hmade : narrowTable.makeRecord zeroOutcomes [.ints 65536, .ints 0] =
      .ok [0, 0, 0, 0, 0, 0, 0, 0] := by decide +kernel
  obtain ⟨cell, hcell, -, hvalue⟩ := (h _ _ _ hmade).cells 0 _ _ rfl rfl
  have hread : narrowTable.cellAt [0, 0, 0, 0, 0, 0, 0, 0] 0 = .ok (.ints 0) := rfl
  obtain rfl := Except.ok.inj (hcell.symm.trans hread)
  have hconv := hvalue rfl
  cases hconv

end TableMeta

end ObHtap
