import ObHtap.Ivfflat.Index
import ObHtap.Table.TableIndex
import ObHtap.Table.TableMeta

/-!
# Creating an index

The two `Table::create_index` (`table.cpp`), for B+ trees and for vectors: the file of the index is
made and opened, the rows of the table are inserted, the index joins the live ones, and the metadata
of the table is written to a temporary file that takes the place of the old one.  Each step can
fail, and none is undone; so a call that fails leaves everything as it was only if it fails before
there is a file.
-/

namespace ObHtap

open Json

/-- An index in memory: a new one, the insertion of a row with the outcomes of its page requests,
and what is done when all rows are in it, with the rows that are scanned for that. -/
structure IndexEngine (ι : Type) where
  create : IndexMeta → List FieldMeta → ι
  insertEntry : ι → StoredRecord → List (Option RC) → Option (Except RC Unit × ι)
  finish : ι → List StoredRecord → ι

/-- The arguments of `create_index`; a vector index has a kind of distance, its lists and probes. -/
structure IndexDefinition where
  name : String
  fields : List FieldMeta
  unique : Int32
  vector : Option (String × Int32 × Int32)

/-- What a call meets with: whether a file can be made where there is none, and written and opened;
whether the tree in it can be set up; the rows that the scanner returns, with its last return code,
and the page requests for each; the rows of a second scan; and whether the temporary file can be
opened, written and renamed. -/
structure CreateOutcomes where
  creates : Bool
  writesHeader : Except RC Unit
  opens : Except RC Unit
  setsUp : Except RC Unit
  scans : Except RC Unit
  rows : List StoredRecord
  last : RC
  requests : List (List (Option RC))
  rescanned : List StoredRecord
  tmpOpens : Bool
  serializes : Bool
  renames : Bool

/-- A table with its live indexes, its metadata in memory and on disk, the files of its indexes, and
those of them that the buffer pools have opened. -/
structure IndexingTable (ι : Type) where
  isView : Bool
  tableMeta : TableMeta
  indexes : List ι
  metaFile : Value
  tmpFile : Bool
  indexFiles : List String
  openedFiles : List String

/-- `table_index_file`, without the directory. -/
def tableIndexFile (tableName indexName : String) : String :=
  tableName ++ "-" ++ indexName ++ ".index"

/-- The `init` of the metadata of a new index. -/
def IndexDefinition.newIndexMeta (d : IndexDefinition) : Except RC IndexMeta :=
  match d.vector with
  | none => IndexMeta.init d.name d.fields (.ofNat d.fields.length) d.unique
  | some (disType, lists, probes) =>
    IndexMeta.initVector d.name d.fields (.ofNat d.fields.length) d.unique disType lists probes

namespace IndexingTable

variable {ι : Type} (engine : IndexEngine ι)

/-- `BufferPoolManager::create_file`.  A header that can't be written leaves the file behind. -/
def createFile (t : IndexingTable ι) (file : String) (o : CreateOutcomes) :
    Except RC Unit × IndexingTable ι :=
  if file ∈ t.indexFiles ∨ o.creates = false then (.error .schemaDbExist, t)
  else (o.writesHeader, { t with indexFiles := file :: t.indexFiles })

/-- `BufferPoolManager::open_file`. -/
def openFile (t : IndexingTable ι) (file : String) (o : CreateOutcomes) :
    Except RC Unit × IndexingTable ι :=
  if file ∈ t.openedFiles then (.error .bufferpoolOpen, t)
  else
    match o.opens with
    | .error rc => (.error rc, t)
    | .ok () => (.ok (), { t with openedFiles := file :: t.openedFiles })

/-- `BplusTreeHandler::create`, which both kinds of index go through.  When the tree can't be set up
the file is closed. -/
def createTree (t : IndexingTable ι) (file : String) (o : CreateOutcomes) :
    Except RC Unit × IndexingTable ι :=
  match t.createFile file o with
  | (.error rc, t) => (.error rc, t)
  | (.ok (), t) =>
    match t.openFile file o with
    | (.error rc, t) => (.error rc, t)
    | (.ok (), t) =>
      match o.setsUp with
      | .error rc => (.error rc, { t with openedFiles := t.openedFiles.erase file })
      | .ok () => (.ok (), t)

/-- The loop over the rows.  It ends at a row that can't be inserted. -/
def insertRows (index : ι) : List StoredRecord → List (List (Option RC)) →
    Option (Except RC Unit × ι)
  | [], _ => some (.ok (), index)
  | row :: rows, requests =>
    match engine.insertEntry index row (requests.headD []) with
    | none => none
    | some (.error rc, index) => some (.error rc, index)
    | some (.ok (), index) => insertRows index rows requests.tail

/-- The end of `create_index`: the new metadata is written to the temporary file, which is renamed;
then it is the metadata in memory.  A type without a name can't be written. -/
def saveMeta (t : IndexingTable ι) (newMeta : TableMeta) (o : CreateOutcomes) :
    Option (Except RC Unit × IndexingTable ι) :=
  if o.tmpOpens = false then some (.error .ioerrOpen, t)
  else
    match newMeta.toJson with
    | none => none
    | some document =>
      if o.serializes = false then some (.error .ioerrWrite, { t with tmpFile := true })
      else if o.renames = false then some (.error .ioerrWrite, { t with tmpFile := true })
      else some (.ok (), { t with metaFile := document, tmpFile := false, tableMeta := newMeta })

/-- `Table::create_index`.  The index that has been made is not deleted on an error, so that its
file stays open. -/
def createIndex (t : IndexingTable ι) (d : IndexDefinition) (o : CreateOutcomes) :
    Option (Except RC Unit × IndexingTable ι) :=
  if t.isView then some (.error .error, t)
  else if isBlank d.name then some (.error .invalidArgument, t)
  else
    match d.newIndexMeta with
    | .error rc => some (.error rc, t)
    | .ok newIndexMeta =>
      match t.createTree (tableIndexFile t.tableMeta.name d.name) o with
      | (.error rc, t) => some (.error rc, t)
      | (.ok (), t) =>
        match o.scans with
        | .error rc => some (.error rc, t)
        | .ok () =>
          match insertRows engine (engine.create newIndexMeta d.fields) o.rows o.requests with
          | none => none
          | some (.error rc, _) => some (.error rc, t)
          | some (.ok (), index) =>
            if o.last ≠ .recordEof then some (.error o.last, t)
            else
              saveMeta { t with indexes := t.indexes ++ [engine.finish index o.rescanned] }
                (t.tableMeta.addIndex newIndexMeta) o

/-! ## All or nothing -/

/-- The live indexes, the metadata in memory and on disk and the files of the indexes are as they
were. -/
structure Undisturbed (t t' : IndexingTable ι) : Prop where
  indexes : t'.indexes = t.indexes
  tableMeta : t'.tableMeta = t.tableMeta
  metaFile : t'.metaFile = t.metaFile
  indexFiles : ∀ file, file ∈ t'.indexFiles ↔ file ∈ t.indexFiles

/-- The call returns, and it has had no effect if it has failed. -/
def Atomic (t : IndexingTable ι) (d : IndexDefinition) (o : CreateOutcomes) : Prop :=
  ∃ result t', createIndex engine t d o = some (result, t') ∧
    ((∃ rc, result = .error rc) → Undisturbed t t')

/-- The call is refused before the file of the index is made. -/
def RefusesIndex (t : IndexingTable ι) (d : IndexDefinition) (o : CreateOutcomes) : Prop :=
  t.isView = true ∨ isBlank d.name = true ∨
    tableIndexFile t.tableMeta.name d.name ∈ t.indexFiles ∨ o.creates = false

/-- Each of the rows is inserted into the index that the rows before it have left. -/
def InsertsAll : ι → List StoredRecord → List (List (Option RC)) → Prop
  | _, [], _ => True
  | index, row :: rows, requests =>
    ∃ index', engine.insertEntry index row (requests.headD []) = some (.ok (), index') ∧
      InsertsAll index' rows requests.tail

/-- Nothing fails from the file of the index to the metadata. -/
structure Unhindered (t : IndexingTable ι) (d : IndexDefinition) (o : CreateOutcomes) : Prop where
  writesHeader : o.writesHeader = .ok ()
  closed : tableIndexFile t.tableMeta.name d.name ∉ t.openedFiles
  opens : o.opens = .ok ()
  setsUp : o.setsUp = .ok ()
  scans : o.scans = .ok ()
  inserts : ∀ newIndexMeta, d.newIndexMeta = .ok newIndexMeta →
    InsertsAll engine (engine.create newIndexMeta d.fields) o.rows o.requests
  last : o.last = .recordEof
  tmpOpens : o.tmpOpens = true
  named : t.tableMeta.toJson.isSome = true
  serializes : o.serializes = true
  renames : o.renames = true

variable {engine} {t t' : IndexingTable ι} {d : IndexDefinition} {o : CreateOutcomes}
  {file : String} {result : Except RC Unit} {newMeta : TableMeta} {newIndexMeta : IndexMeta}

theorem newIndexMeta_of_named (hname : isBlank d.name = false) :
    ∃ newIndexMeta, d.newIndexMeta = .ok newIndexMeta := by
  unfold IndexDefinition.newIndexMeta IndexMeta.init IndexMeta.initVector
  rw [hname]
  cases d.vector <;> exact ⟨_, rfl⟩

/-- The indexes don't matter for whether the metadata can be written. -/
theorem toJson_addIndex_isSome (table : TableMeta) (index : IndexMeta) :
    (table.addIndex index).toJson.isSome = table.toJson.isSome := by
  unfold TableMeta.toJson TableMeta.addIndex
  dsimp only
  cases table.fields.mapM FieldMeta.toJson <;> rfl

theorem insertRows_ok_iff {index : ι} {rows : List StoredRecord}
    {requests : List (List (Option RC))} :
    (∃ index', insertRows engine index rows requests = some (.ok (), index')) ↔
      InsertsAll engine index rows requests := by
  induction rows generalizing index requests with
  | nil => exact iff_of_true ⟨index, rfl⟩ trivial
  | cons row rows ih =>
    rw [insertRows, InsertsAll]
    cases hinsert : engine.insertEntry index row (requests.headD []) with
    | none =>
      refine iff_of_false ?_ ?_
      · rintro ⟨_, ⟨⟩⟩
      · rintro ⟨_, ⟨⟩, -⟩
    | some r =>
      obtain ⟨result, index₁⟩ := r
      cases result with
      | error rc =>
        refine iff_of_false ?_ ?_
        · rintro ⟨_, ⟨⟩⟩
        · rintro ⟨_, ⟨⟩, -⟩
      | ok _ =>
        refine ih.trans ⟨fun hrest => ⟨index₁, rfl, hrest⟩, ?_⟩
        rintro ⟨_, heq, hrest⟩
        obtain rfl := (Prod.mk.inj (Option.some.inj heq)).2
        exact hrest

/-- A file is made, or all is as before. -/
theorem createTree_cases (h : t.createTree file o = (result, t')) :
    (file ∈ t.indexFiles ∨ o.creates = false) ∧ t' = t ∧ (∃ rc, result = .error rc) ∨
      ¬ (file ∈ t.indexFiles ∨ o.creates = false) ∧ file ∈ t'.indexFiles ∧
        t'.tableMeta = t.tableMeta ∧ ((∃ rc, result = .error rc) ∨
          o.writesHeader = .ok () ∧ file ∉ t.openedFiles ∧ o.opens = .ok () ∧
            o.setsUp = .ok () ∧ result = .ok () ∧
            t' = { t with
              indexFiles := file :: t.indexFiles
              openedFiles := file :: t.openedFiles }) := by
  unfold createTree createFile openFile at h
  by_cases hmade : file ∈ t.indexFiles ∨ o.creates = false
  · rw [if_pos hmade] at h
    obtain ⟨rfl, rfl⟩ := Prod.mk.inj h
    exact Or.inl ⟨hmade, rfl, _, rfl⟩
  · right
    refine ⟨hmade, ?_⟩
    rw [if_neg hmade] at h
    cases hheader : o.writesHeader with
    | error rc =>
      rw [hheader] at h
      obtain ⟨rfl, rfl⟩ := Prod.mk.inj h
      exact ⟨List.mem_cons_self, rfl, Or.inl ⟨rc, rfl⟩⟩
    | ok _ =>
      rw [hheader] at h
      dsimp only at h
      by_cases hopened : file ∈ t.openedFiles
      · rw [if_pos hopened] at h
        obtain ⟨rfl, rfl⟩ := Prod.mk.inj h
        exact ⟨List.mem_cons_self, rfl, Or.inl ⟨_, rfl⟩⟩
      · rw [if_neg hopened] at h
        cases hopens : o.opens with
        | error rc =>
          rw [hopens] at h
          obtain ⟨rfl, rfl⟩ := Prod.mk.inj h
          exact ⟨List.mem_cons_self, rfl, Or.inl ⟨rc, rfl⟩⟩
        | ok _ =>
          rw [hopens] at h
          cases hsets : o.setsUp with
          | error rc =>
            rw [hsets] at h
            obtain ⟨rfl, rfl⟩ := Prod.mk.inj h
            exact ⟨List.mem_cons_self, rfl, Or.inl ⟨rc, rfl⟩⟩
          | ok _ =>
            rw [hsets] at h
            obtain ⟨rfl, rfl⟩ := Prod.mk.inj h
            exact ⟨List.mem_cons_self, rfl, Or.inr ⟨rfl, hopened, rfl, rfl, rfl, rfl⟩⟩

theorem saveMeta_cases (h : t.saveMeta newMeta o = some (result, t')) :
    t'.indexFiles = t.indexFiles ∧
      ((∃ rc, result = .error rc) ∧ t'.tableMeta = t.tableMeta ∨ o.tmpOpens = true ∧
        newMeta.toJson.isSome = true ∧ o.serializes = true ∧ o.renames = true ∧
          result = .ok ()) := by
  unfold saveMeta at h
  by_cases htmp : o.tmpOpens = false
  · rw [if_pos htmp] at h
    cases h
    exact ⟨rfl, Or.inl ⟨⟨_, rfl⟩, rfl⟩⟩
  · rw [if_neg htmp] at h
    cases hjson : newMeta.toJson with
    | none =>
      rw [hjson] at h
      cases h
    | some document =>
      rw [hjson] at h
      dsimp only at h
      split_ifs at h with hserializes hrenames
      · cases h
        exact ⟨rfl, Or.inl ⟨⟨_, rfl⟩, rfl⟩⟩
      · cases h
        exact ⟨rfl, Or.inl ⟨⟨_, rfl⟩, rfl⟩⟩
      · cases h
        exact ⟨rfl, Or.inr ⟨Bool.not_eq_false _ ▸ htmp, rfl, Bool.not_eq_false _ ▸ hserializes,
          Bool.not_eq_false _ ▸ hrenames, rfl⟩⟩

/-- The call is refused, or the file of the index is there afterwards, which was not before; then
it has failed unless nothing is in its way. -/
theorem createIndex_cases (h : createIndex engine t d o = some (result, t')) :
    RefusesIndex t d o ∧ t' = t ∧ (∃ rc, result = .error rc) ∨
      tableIndexFile t.tableMeta.name d.name ∉ t.indexFiles ∧
        tableIndexFile t.tableMeta.name d.name ∈ t'.indexFiles ∧
        ((∃ rc, result = .error rc) ∧ t'.tableMeta = t.tableMeta ∨
          result = .ok () ∧ Unhindered engine t d o) := by
  unfold createIndex at h
  by_cases hview : t.isView = true
  · rw [if_pos hview] at h
    cases h
    exact Or.inl ⟨Or.inl hview, rfl, _, rfl⟩
  · rw [if_neg hview] at h
    by_cases hblank : isBlank d.name = true
    · rw [if_pos hblank] at h
      cases h
      exact Or.inl ⟨Or.inr (Or.inl hblank), rfl, _, rfl⟩
    · rw [if_neg hblank] at h
      obtain ⟨newIndexMeta, hmeta⟩ := newIndexMeta_of_named (Bool.not_eq_true _ ▸ hblank)
      rw [hmeta] at h
      dsimp only at h
      cases htree : t.createTree (tableIndexFile t.tableMeta.name d.name) o with
      | mk made t₁ =>
        rw [htree] at h
        rcases createTree_cases htree with ⟨hmade, rfl, rc, rfl⟩ | ⟨hmade, hmem, hsame, ⟨rc, rfl⟩ |
          ⟨hheader, hclosed, hopens, hsets, rfl, rfl⟩⟩
        · cases h
          exact Or.inl ⟨Or.inr (Or.inr hmade), rfl, rc, rfl⟩
        · cases h
          exact Or.inr ⟨fun hfile => hmade (Or.inl hfile), hmem, Or.inl ⟨⟨rc, rfl⟩, hsame⟩⟩
        · refine Or.inr ⟨fun hfile => hmade (Or.inl hfile), ?_⟩
          dsimp only at h
          cases hscans : o.scans with
          | error rc =>
            rw [hscans] at h
            cases h
            exact ⟨hmem, Or.inl ⟨⟨rc, rfl⟩, rfl⟩⟩
          | ok _ =>
            rw [hscans] at h
            dsimp only at h
            cases hinsert : insertRows engine (engine.create newIndexMeta d.fields) o.rows
                o.requests with
            | none =>
              rw [hinsert] at h
              cases h
            | some filled =>
              obtain ⟨filled, index⟩ := filled
              rw [hinsert] at h
              cases filled with
              | error rc =>
                cases h
                exact ⟨hmem, Or.inl ⟨⟨rc, rfl⟩, rfl⟩⟩
              | ok _ =>
                dsimp only at h
                by_cases hlast : o.last ≠ .recordEof
                · rw [if_pos hlast] at h
                  cases h
                  exact ⟨hmem, Or.inl ⟨⟨_, rfl⟩, rfl⟩⟩
                · rw [if_neg hlast] at h
                  obtain ⟨hfiles, hsaved⟩ := saveMeta_cases h
                  rw [hfiles]
                  refine ⟨hmem, hsaved.imp id ?_⟩
                  rintro ⟨htmp, hnamed, hserializes, hrenames, hok⟩
                  rw [toJson_addIndex_isSome] at hnamed
                  refine ⟨hok, hheader, hclosed, hopens, hsets, hscans, ?_, not_not.mp hlast,
                    htmp, hnamed, hserializes, hrenames⟩
                  intro m hm
                  obtain rfl := Except.ok.inj (hmeta.symm.trans hm)
                  exact insertRows_ok_iff.mp ⟨index, hinsert⟩

theorem createIndex_of_unhindered (hrefuses : ¬ RefusesIndex t d o)
    (h : Unhindered engine t d o) : ∃ t', createIndex engine t d o = some (.ok (), t') := by
  obtain ⟨hview, hrest⟩ := not_or.mp hrefuses
  obtain ⟨hblank, hmade⟩ := not_or.mp hrest
  obtain ⟨newIndexMeta, hmeta⟩ := newIndexMeta_of_named (Bool.not_eq_true _ ▸ hblank)
  obtain ⟨index, hinsert⟩ := insertRows_ok_iff.mpr (h.inserts newIndexMeta hmeta)
  obtain ⟨document, hjson⟩ := Option.isSome_iff_exists.mp
    ((toJson_addIndex_isSome t.tableMeta newIndexMeta).trans h.named)
  refine ⟨?_, ?_⟩
  rotate_left
  · unfold createIndex createTree createFile openFile saveMeta
    rw [if_neg hview, if_neg hblank, hmeta]
    dsimp only
    rw [if_neg hmade, h.writesHeader]
    dsimp only
    rw [if_neg h.closed, h.opens, h.setsUp, h.scans]
    dsimp only
    rw [hinsert]
    dsimp only
    rw [if_neg (not_not.mpr h.last), h.tmpOpens, if_neg (by decide), hjson, h.serializes,
      h.renames]
    rfl

theorem createIndex_of_refuses (h : RefusesIndex t d o) :
    ∃ rc, createIndex engine t d o = some (.error rc, t) := by
  unfold createIndex
  by_cases hview : t.isView = true
  · exact ⟨_, if_pos hview⟩
  · rw [if_neg hview]
    by_cases hblank : isBlank d.name = true
    · exact ⟨_, if_pos hblank⟩
    · obtain ⟨newIndexMeta, hmeta⟩ := newIndexMeta_of_named (Bool.not_eq_true _ ▸ hblank)
      have hmade := (h.resolve_left hview).resolve_left hblank
      refine ⟨.schemaDbExist, ?_⟩
      unfold createTree createFile
      rw [if_neg hblank, hmeta, if_pos hmade]

/-- A call is atomic exactly if it is refused before there is a file or nothing fails in it. -/
theorem createIndex_atomic_iff (engine : IndexEngine ι) (t : IndexingTable ι)
    (d : IndexDefinition) (o : CreateOutcomes) :
    Atomic engine t d o ↔ RefusesIndex t d o ∨ Unhindered engine t d o := by
  constructor
  · rintro ⟨result, t', hcall, hfails⟩
    rcases createIndex_cases hcall with ⟨hrefuses, -, -⟩ | ⟨hnew, hmem, ⟨herror, -⟩ | ⟨-, h⟩⟩
    · exact Or.inl hrefuses
    · exact absurd (((hfails herror).indexFiles _).mp hmem) hnew
    · exact Or.inr h
  · intro h
    by_cases hrefuses : RefusesIndex t d o
    · obtain ⟨rc, hcall⟩ := createIndex_of_refuses hrefuses
      exact ⟨_, t, hcall, fun _ => ⟨rfl, rfl, rfl, fun _ => Iff.rfl⟩⟩
    · obtain ⟨t', hcall⟩ := createIndex_of_unhindered hrefuses (h.resolve_left hrefuses)
      exact ⟨_, t', hcall, (by rintro ⟨rc, ⟨⟩⟩)⟩

end IndexingTable

/-! ## The two kinds of index -/

/-- A B+ tree over the columns of a layout. -/
def bplusTreeIndex (layout : TableIndex) (recordSize : Nat) :
    IndexEngine (TreeState (Key (UserKey layout.attrs))) where
  create _ _ := .create
  insertEntry tree row outcomes :=
    BplusTreeHandler.insertEntry layout.handler (layout.userKey row.data) row.rid
      (layout.recordNull recordSize row.data) tree outcomes
  finish tree _ := tree

/-- An IVF-flat index over the vectors that are read from the rows.  What `update_centroids` does
with a vector in no cluster is undefined; here it leaves the index as it is. -/
def ivfflatIndex {F : Type} [ExactFloats F] {dim : Nat} (type : DisType)
    (lists probes : Nat) (random : Nat → Nat → F) (vectorOf : List UInt8 → Vector F dim) :
    IndexEngine (Ivfflat.IvfflatIndex F dim) where
  create _ _ := Ivfflat.create type lists probes random
  insertEntry index row _ := some (.ok (), Ivfflat.insertEntry index (row.rid, vectorOf row.data))
  finish index rows :=
    let entries := rows.map fun row => (row.rid, vectorOf row.data)
    match Ivfflat.updateCentroids entries entries index with
    | .ok index => index
    | .error _ => index

/-- A vector index refuses no row. -/
theorem insertsAll_ivfflatIndex {F : Type} [ExactFloats F] {dim : Nat}
    {type : DisType} {lists probes : Nat} {random : Nat → Nat → F}
    {vectorOf : List UInt8 → Vector F dim} {index : Ivfflat.IvfflatIndex F dim}
    {rows : List StoredRecord} {requests : List (List (Option RC))} :
    IndexingTable.InsertsAll (ivfflatIndex type lists probes random vectorOf) index rows
      requests := by
  induction rows generalizing index requests with
  | nil => trivial
  | cons row rows ih => exact ⟨_, rfl, ih⟩

/-- A table with the column `id` and no index. -/
def unindexedTable {ι : Type} : IndexingTable ι where
  isView := false
  tableMeta := ⟨0, "t", [], [⟨"id", .ints, 0, 4, true, 0, false, 4⟩], [], .rowFormat, 5⟩
  indexes := []
  metaFile := .null
  tmpFile := false
  indexFiles := []
  openedFiles := []

/-- A unique index over an integer column at the start of a row. -/
def idLayout : TableIndex where
  fields := [⟨.ints, 0, 0⟩]
  header := BplusTreeIndex.fileHeader [.ints] true
  tree := .create
  leafCapacity := TableIndex.leafCapacity_ints
  internalCapacity := TableIndex.internalCapacity_ints

def idDefinition : IndexDefinition := ⟨"i", [⟨"id", .ints, 0, 4, true, 0, false, 4⟩], 1, none⟩

/-- Nothing fails, and there are two rows with the same number. -/
def sevenTwice : CreateOutcomes where
  creates := true
  writesHeader := .ok ()
  opens := .ok ()
  setsUp := .ok ()
  scans := .ok ()
  rows := [⟨⟨1, 0⟩, [7, 0, 0, 0, 0]⟩, ⟨⟨1, 1⟩, [7, 0, 0, 0, 0]⟩]
  last := .recordEof
  requests := []
  rescanned := []
  tmpOpens := true
  serializes := true
  renames := true

/-- A unique index can't be created over a column that has a number twice; its file stays. -/
theorem createIndex_not_atomic :
    ¬ IndexingTable.Atomic (bplusTreeIndex idLayout 5) unindexedTable idDefinition sevenTwice := by
  have hrow : ∃ index, IndexingTable.insertRows (bplusTreeIndex idLayout 5) .create
      sevenTwice.rows [] = some (.error .schemaIndexUnique, index) := by
    have hrun : (IndexingTable.insertRows (bplusTreeIndex idLayout 5) .create
        sevenTwice.rows []).map Prod.fst = some (.error .schemaIndexUnique) := by
      decide +kernel
    obtain ⟨⟨result, index⟩, hrun, rfl⟩ := Option.map_eq_some_iff.mp hrun
    exact ⟨index, hrun⟩
  rintro ⟨result, t', hcall, hfails⟩
  have hrefuses : ¬ @IndexingTable.RefusesIndex (TreeState (Key (UserKey idLayout.attrs)))
      unindexedTable idDefinition sevenTwice := by
    unfold IndexingTable.RefusesIndex
    decide
  rcases IndexingTable.createIndex_cases hcall with ⟨hearly, -, -⟩ |
    ⟨hnew, hmem, ⟨herror, -⟩ | ⟨-, h⟩⟩
  · exact hrefuses hearly
  · exact hnew (((hfails herror).indexFiles _).mp hmem)
  · obtain ⟨index, hbad⟩ := hrow
    obtain ⟨index', hok⟩ := IndexingTable.insertRows_ok_iff.mpr (h.inserts _ rfl)
    cases hok.symm.trans hbad

end ObHtap
