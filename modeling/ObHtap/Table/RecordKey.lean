import Mathlib.Data.List.Forall2
import ObHtap.Library.Decimal
import ObHtap.Library.KeyValue
import ObHtap.Table.TableMeta

/-!
# Rows in the key-value store

A record is inserted under the key `t<id>_r` followed by the bytes of the table's first field
(`table.cpp`).  With row versions the first field is the id of the inserting transaction.
-/

namespace ObHtap

namespace Table

/-- The storage engine of a database: every table keeps its rows in it. -/
abbrev Engine := Store (List UInt8) (List UInt8)

/-- The bytes of a record that `record_encode_key` copies; the table needs a field, and a read
past the record is undefined. -/
def firstFieldBytes (table : TableMeta) (data : List UInt8) : Option (List UInt8) := do
  let field0 ← table.fields.head?
  let field0Len := field0.attrLen.toInt
  guard (0 ≤ field0Len ∧ field0Len ≤ data.length)
  return data.take field0Len.toNat

/-- The text `t<id>_r`. -/
def keyPrefix (tableId : Int32) : List UInt8 :=
  116 :: (decimal tableId.toInt ++ [95, 114])

/-- `Table::record_encode_key`. -/
def recordEncodeKey (table : TableMeta) (tableId : Int32) (data : List UInt8) :
    Option (List UInt8) := do
  return keyPrefix tableId ++ (← firstFieldBytes table data)

/-- `Table::insert_record`.  The result of the engine is ignored, and nothing else is done. -/
def insertRecord (engine : Engine) (table : TableMeta) (isView : Bool) (data : List UInt8) :
    Option (Except RC Unit × Engine) :=
  if isView then some (.error .error, engine)
  else do
    let recKey ← recordEncodeKey table table.tableId data
    return (.ok (), engine.put recKey data)

/-- A record for a table. -/
structure Insertion where
  table : TableMeta
  isView : Bool
  data : List UInt8

/-- Insertions one after the other that all return `SUCCESS`. -/
def insertRecords : Engine → List Insertion → Option Engine
  | engine, [] => some engine
  | engine, ins :: rest =>
    match insertRecord engine ins.table ins.isView ins.data with
    | some (.ok (), engine') => insertRecords engine' rest
    | _ => none

/-! ## Keys -/

/-- A key is read back as the table's id and the bytes of the first field. -/
theorem keyPrefix_append_inj {tableId tableId' : Int32} {bs bs' : List UInt8}
    (h : keyPrefix tableId ++ bs = keyPrefix tableId' ++ bs') : tableId = tableId' ∧ bs = bs' := by
  simp only [keyPrefix, List.cons_append, List.append_assoc, List.nil_append, List.cons.injEq,
    true_and] at h
  obtain ⟨hid, hrest⟩ := append_cons_inj_of_notMem (notMem_decimal (by decide))
    (notMem_decimal (by decide)) h
  exact ⟨Int32.toInt_inj.mp (decimal_injective hid), (List.cons.inj hrest).2⟩

/-- Two insertions for the same table id whose records agree in the first field. -/
def SameRow (ins ins' : Insertion) : Prop :=
  ins.table.tableId = ins'.table.tableId ∧
    firstFieldBytes ins.table ins.data = firstFieldBytes ins'.table ins'.data

instance (ins ins' : Insertion) : Decidable (SameRow ins ins') :=
  inferInstanceAs (Decidable (_ ∧ _))

/-- The key of an insertion. -/
def Insertion.key (ins : Insertion) : Option (List UInt8) :=
  recordEncodeKey ins.table ins.table.tableId ins.data

/-- What an insertion puts into the engine. -/
def Puts (ins : Insertion) (entry : List UInt8 × List UInt8) : Prop :=
  ins.key = some entry.1 ∧ entry.2 = ins.data

theorem key_eq_iff {ins ins' : Insertion} {k k' : List UInt8} (hk : ins.key = some k)
    (hk' : ins'.key = some k') : k = k' ↔ SameRow ins ins' := by
  obtain ⟨bs, hbs, heq⟩ := Option.bind_eq_some_iff.mp hk
  obtain ⟨bs', hbs', heq'⟩ := Option.bind_eq_some_iff.mp hk'
  obtain rfl := Option.some.inj heq
  obtain rfl := Option.some.inj heq'
  rw [SameRow, hbs, hbs', Option.some.injEq]
  constructor
  · exact keyPrefix_append_inj
  · rintro ⟨hid, hbytes⟩
    rw [hid, hbytes]

/-- Insertions that return `SUCCESS` put each record under its key. -/
theorem insertRecords_eq_puts {engine engine' : Engine} {insertions : List Insertion}
    (h : insertRecords engine insertions = some engine') :
    ∃ entries, List.Forall₂ Puts insertions entries ∧ engine' = engine.puts entries := by
  induction insertions generalizing engine with
  | nil =>
    obtain rfl := Option.some.inj h
    exact ⟨[], .nil, rfl⟩
  | cons ins rest ih =>
    rw [insertRecords, insertRecord] at h
    split at h
    case h_1 engine₁ hins =>
      split at hins
      · cases hins
      · obtain ⟨k, hk, hput⟩ := Option.bind_eq_some_iff.mp hins
        cases hput
        obtain ⟨entries, hentries, rfl⟩ := ih h
        exact ⟨(k, ins.data) :: entries, .cons ⟨hk, rfl⟩ hentries, rfl⟩
    case h_2 => cases h

theorem map_snd_of_puts {insertions : List Insertion} {entries : List (List UInt8 × List UInt8)}
    (h : List.Forall₂ Puts insertions entries) :
    entries.map Prod.snd = insertions.map Insertion.data := by
  induction h with
  | nil => rfl
  | cons hput _ ih => rw [List.map_cons, List.map_cons, ih, hput.2]

theorem notMem_keys_iff {ins : Insertion} {k : List UInt8} {insertions : List Insertion}
    {entries : List (List UInt8 × List UInt8)} (hk : ins.key = some k)
    (h : List.Forall₂ Puts insertions entries) :
    k ∉ entries.map Prod.fst ↔ ∀ ins' ∈ insertions, ¬SameRow ins ins' := by
  induction h with
  | nil => simp
  | cons hput _ ih =>
    rw [List.map_cons, List.mem_cons, not_or, ih, List.forall_mem_cons, key_eq_iff hk hput.1]

theorem nodup_keys_iff {insertions : List Insertion}
    {entries : List (List UInt8 × List UInt8)} (h : List.Forall₂ Puts insertions entries) :
    (entries.map Prod.fst).Nodup ↔ insertions.Pairwise fun ins ins' => ¬SameRow ins ins' := by
  induction h with
  | nil => simp
  | cons hput hrest ih =>
    rw [List.map_cons, List.nodup_cons, List.pairwise_cons, ih, notMem_keys_iff hput.1 hrest]

/-- The engine holds an entry of its own for every inserted record just when no two of them agree
in the id of the table and in the bytes of the first field. -/
theorem separate_insertRecords_iff {insertions : List Insertion} {engine : Engine}
    (h : insertRecords Store.empty insertions = some engine) :
    engine.Separate (insertions.map Insertion.data) ↔
      insertions.Pairwise fun ins ins' => ¬SameRow ins ins' := by
  obtain ⟨entries, hentries, rfl⟩ := insertRecords_eq_puts h
  rw [← map_snd_of_puts hentries, Store.separate_puts_iff, nodup_keys_iff hentries]

/-- A table with the columns `id` and `num`. -/
def numTable : TableMeta where
  tableId := 0
  name := "t"
  trxFields := []
  fields := [⟨"id", .ints, 0, 4, true, 0, false, 4⟩, ⟨"num", .ints, 4, 4, true, 1, false, 4⟩]
  indexes := []
  storageFormat := .rowFormat
  recordSize := 10

/-- A row of that table. -/
def numRow (id num : UInt8) : Insertion where
  table := numTable
  isView := false
  data := [id, 0, 0, 0, num, 0, 0, 0, 0, 0]

/-- The key of a row of that table: `t0_r` and the first column. -/
def numKey (id : UInt8) : List UInt8 := [116, 48, 95, 114, id, 0, 0, 0]

/-- Two rows with different first columns keep entries of their own. -/
theorem separate_insertRecords_two :
    insertRecords Store.empty [numRow 1 1, numRow 2 1] =
        some (Store.empty.puts [(numKey 1, (numRow 1 1).data), (numKey 2, (numRow 2 1).data)]) ∧
      (Store.empty.puts [(numKey 1, (numRow 1 1).data), (numKey 2, (numRow 2 1).data)]).Separate
        [(numRow 1 1).data, (numRow 2 1).data] := by
  have hinsert : insertRecords Store.empty [numRow 1 1, numRow 2 1] =
      some (Store.empty.puts [(numKey 1, (numRow 1 1).data), (numKey 2, (numRow 2 1).data)]) := rfl
  have hrows : [numRow 1 1, numRow 2 1].Pairwise fun ins ins' => ¬SameRow ins ins' := by decide
  exact ⟨hinsert, (separate_insertRecords_iff hinsert).mpr hrows⟩

/-- The second of two rows with the same first column replaces the first one. -/
theorem insertRecords_replaced :
    insertRecords Store.empty [numRow 1 1, numRow 1 2] =
        some (Store.empty.puts [(numKey 1, (numRow 1 1).data), (numKey 1, (numRow 1 2).data)]) ∧
      ¬(Store.empty.puts [(numKey 1, (numRow 1 1).data), (numKey 1, (numRow 1 2).data)]).Separate
        [(numRow 1 1).data, (numRow 1 2).data] := by
  refine ⟨rfl, ?_⟩
  intro hseparate
  have hkeys := Store.separate_puts_iff.mp hseparate
  exact absurd hkeys (by decide)

end Table

end ObHtap
