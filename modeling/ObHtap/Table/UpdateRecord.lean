import ObHtap.Table.TableIndex

/-!
# Updating a record of a table with indexes

`Table::update_record` updates the entries of all indexes one after the other and then writes the
record.  It returns at the first index that refuses the new key, and leaves the indexes before it
as they are by then.
-/

namespace ObHtap

open BplusTreeHandler

/-! ## All indexes -/

namespace IndexedTable

open TableIndex

variable {indexes indexes' : List TableIndex} {records : List StoredRecord} {rid : RID}
  {data newData : List UInt8} {recordSize : Nat}

/-- The indexes with the outcomes of their page requests. -/
def indexCalls :
    List TableIndex → List (List (Option RC) × List (Option RC)) → List IndexCall
  | [], _ => []
  | index :: indexes, outcomes =>
    ⟨index, (outcomes.headD ([], [])).1, (outcomes.headD ([], [])).2⟩ ::
      indexCalls indexes outcomes.tail

/-- The call on the index returns an error. -/
def Fails (records : List StoredRecord) (recordSize : Nat) (data newData : List UInt8) (rid : RID)
    (c : IndexCall) : Prop :=
  c.Refuses records recordSize data newData rid ∨ c.KeepsBoth records recordSize data newData rid

/-- How a call ends that has returned an error: the indexes before the one that fails hold the
changed record, and those behind it are as they were.  It is itself as it was if it has refused the
new key. -/
def StopsAt (records : List StoredRecord) (recordSize : Nat) (data newData : List UInt8)
    (rid : RID) (calls : List IndexCall) (indexes' : List TableIndex) : Prop :=
  ∃ before c after before' index', calls = before ++ c :: after ∧
    indexes' = before' ++ index' :: after.map IndexCall.index ∧
    (∀ b ∈ before, ¬Fails records recordSize data newData rid b) ∧
    List.Forall₂ (fun b => Updated records newData rid b.index) before before' ∧
    (c.Refuses records recordSize data newData rid ∧ SameEntries c.index index' ∨
      c.KeepsBoth records recordSize data newData rid ∧ ¬SameEntries c.index index')

theorem map_indexCalls (indexes : List TableIndex)
    (outcomes : List (List (Option RC) × List (Option RC))) :
    (indexCalls indexes outcomes).map IndexCall.index = indexes := by
  induction indexes generalizing outcomes with
  | nil => rfl
  | cons index indexes ih => rw [indexCalls, List.map_cons, ih]

/-- When all page requests are served. -/
theorem answered_nil (indexes : List TableIndex) :
    ∀ c ∈ indexCalls indexes [], c.Answered recordSize data newData rid := by
  induction indexes with
  | nil => simp [indexCalls]
  | cons index indexes ih =>
    intro c hc
    rcases List.mem_cons.mp hc with rfl | hc
    · exact ⟨fun h => absurd rfl h, fun h => absurd rfl h⟩
    · exact ih c hc

theorem StopsAt.cons {c : IndexCall} {calls : List IndexCall} {index' : TableIndex}
    (hnot : ¬Fails records recordSize data newData rid c)
    (hup : Updated records newData rid c.index index')
    (h : StopsAt records recordSize data newData rid calls indexes') :
    StopsAt records recordSize data newData rid (c :: calls) (index' :: indexes') := by
  obtain ⟨before, d, after, before', ix', rfl, rfl, hnone, hbefore, hend⟩ := h
  refine ⟨c :: before, d, after, index' :: before', ix', rfl, rfl, ?_, hbefore.cons hup, hend⟩
  intro b hb
  rcases List.mem_cons.mp hb with rfl | hb
  · exact hnot
  · exact hnone b hb

/-- The loop over the indexes, by induction on them. -/
theorem updateEntryOfIndexes_spec (hrecords : DistinctRecords records)
    (hmem : ⟨rid, data⟩ ∈ records) {outcomes : List (List (Option RC) × List (Option RC))}
    (hanswered : ∀ c ∈ indexCalls indexes outcomes, c.Answered recordSize data newData rid)
    (h : ∀ ix ∈ indexes, ix.HoldsRecords records) (hreads : ∀ ix ∈ indexes, ix.Reads newData)
    {result : Except RC Unit}
    (hcall : updateEntryOfIndexes recordSize data newData rid indexes outcomes =
      some (result, indexes')) :
    ((∃ rc, result = .error rc) ∧ StopsAt records recordSize data newData rid
        (indexCalls indexes outcomes) indexes') ∨
      (result = .ok () ∧
        (∀ c ∈ indexCalls indexes outcomes, ¬Fails records recordSize data newData rid c) ∧
        List.Forall₂ (Updated records newData rid) indexes indexes') := by
  induction indexes generalizing indexes' outcomes result with
  | nil =>
    cases hcall
    exact Or.inr ⟨rfl, by simp [indexCalls], .nil⟩
  | cons index indexes ih =>
    rw [indexCalls] at hanswered ⊢
    have hindex := h index List.mem_cons_self
    have hindexReads := hreads index List.mem_cons_self
    have hfirst := hanswered _ List.mem_cons_self
    rw [updateEntryOfIndexes] at hcall
    split at hcall
    case h_1 => cases hcall
    case h_2 rc index' heq =>
      cases hcall
      have hmap := map_indexCalls indexes outcomes.tail
      rcases updateEntry_spec hrecords hmem hindex hindexReads hfirst heq with
        ⟨-, href, hsame⟩ | ⟨-, hboth, hother⟩ | ⟨hok, -⟩
      · exact Or.inl ⟨⟨rc, rfl⟩, [], _, _, [], index', rfl, by rw [hmap]; rfl, by simp, .nil,
          Or.inl ⟨href, hsame⟩⟩
      · exact Or.inl ⟨⟨rc, rfl⟩, [], _, _, [], index', rfl, by rw [hmap]; rfl, by simp, .nil,
          Or.inr ⟨hboth, hother⟩⟩
      · cases hok
    case h_3 index' heq =>
      rcases updateEntry_spec hrecords hmem hindex hindexReads hfirst heq with
        ⟨⟨rc, hrc⟩, -⟩ | ⟨⟨rc, hrc⟩, -⟩ | ⟨-, href, hboth, hup⟩
      · cases hrc
      · cases hrc
      · have hnot := not_or.mpr ⟨href, hboth⟩
        obtain ⟨⟨result', rest⟩, hrest, heq'⟩ := Option.map_eq_some_iff.mp hcall
        cases heq'
        rcases ih (fun c hc => hanswered c (List.mem_cons_of_mem _ hc))
          (fun ix hix => h ix (List.mem_cons_of_mem _ hix))
          (fun ix hix => hreads ix (List.mem_cons_of_mem _ hix)) hrest with
          ⟨hrc, hstop⟩ | ⟨hok, hnone, hall⟩
        · exact Or.inl ⟨hrc, hstop.cons hnot hup⟩
        · refine Or.inr ⟨hok, fun c hc => ?_, hall.cons hup⟩
          rcases List.mem_cons.mp hc with rfl | hc
          · exact hnot
          · exact hnone c hc

/-- The columns of the indexes stay. -/
theorem fields_updateEntryOfIndexes {outcomes : List (List (Option RC) × List (Option RC))}
    {result : Except RC Unit}
    (hcall : updateEntryOfIndexes recordSize data newData rid indexes outcomes =
      some (result, indexes')) :
    indexes'.map TableIndex.fields = indexes.map TableIndex.fields := by
  induction indexes generalizing indexes' outcomes result with
  | nil =>
    cases hcall
    rfl
  | cons index indexes ih =>
    rw [updateEntryOfIndexes] at hcall
    split at hcall
    case h_1 => cases hcall
    case h_2 rc index' heq =>
      cases hcall
      rw [List.map_cons, List.map_cons, fields_updateEntry heq]
    case h_3 index' heq =>
      obtain ⟨⟨result', rest⟩, hrest, heq'⟩ := Option.map_eq_some_iff.mp hcall
      cases heq'
      rw [List.map_cons, List.map_cons, fields_updateEntry heq, ih hrest]

/-! ## What an update promises -/

/-- The indexes hold the records of the table, and a unique one no two records without NULL that
have the same columns. -/
structure Consistent (table : IndexedTable) : Prop where
  distinct : DistinctRecords table.records
  holds : ∀ index ∈ table.indexes, index.HoldsRecords table.records
  noTwins : ∀ index ∈ table.indexes, index.header.unique = true →
    index.NoTwins table.recordSize table.records

/-- Index updates are all-or-nothing. -/
structure AllOrNothing (table : IndexedTable) (data newData : List UInt8) (rid : RID)
    (result : Except RC Unit) (table' : IndexedTable) : Prop where
  unchanged : (∃ rc, result = .error rc) →
    List.Forall₂ SameEntries table.indexes table'.indexes
  updated : result = .ok () → ∀ index ∈ table'.indexes,
    index.entry newData rid ∈ index.entries ∧
      (index.userKey data ≠ index.userKey newData → index.entry data rid ∉ index.entries)
  noTwins : result = .ok () → ∀ index ∈ table'.indexes, index.header.unique = true →
    index.NoTwins table'.recordSize table'.records

/-- No call on an index whose page requests are not all served returns `SUCCESS`. -/
def Answered (table : IndexedTable) (data newData : List UInt8) (rid : RID)
    (outcomes : List (List (Option RC) × List (Option RC))) : Prop :=
  ∀ c ∈ indexCalls table.indexes outcomes, c.Answered table.recordSize data newData rid

/-- The first index whose call fails has refused the new key, and no index that has changed by
then comes before it.  And when none fails, no other record without NULL has the new columns of a
unique index, unless these have a NULL. -/
structure UpdatesCleanly (table : IndexedTable) (data newData : List UInt8) (rid : RID)
    (outcomes : List (List (Option RC) × List (Option RC))) : Prop where
  refusedFirst : ∀ before c after, indexCalls table.indexes outcomes = before ++ c :: after →
    Fails table.records table.recordSize data newData rid c →
    (∀ b ∈ before, ¬Fails table.records table.recordSize data newData rid b) →
    c.Refuses table.records table.recordSize data newData rid ∧
      ∀ b ∈ before, ¬b.index.Changes data newData
  fresh : (∀ c ∈ indexCalls table.indexes outcomes,
      ¬Fails table.records table.recordSize data newData rid c) →
    ∀ index ∈ table.indexes, index.header.unique = true →
      index.recordNull table.recordSize newData = false →
      ∀ r ∈ table.records, r.rid ≠ rid → index.recordNull table.recordSize r.data = false →
        ¬SameColumns (index.userKey r.data) (index.userKey newData)

theorem SameEntries.refl (index : TableIndex) : SameEntries index index :=
  ⟨index.tree, rfl, fun _ => Iff.rfl⟩

theorem forall₂_sameEntries_refl (indexes : List TableIndex) :
    List.Forall₂ SameEntries indexes indexes :=
  List.forall₂_same.mpr fun index _ => SameEntries.refl index

/-- An index that has come to hold a changed record has other entries than before. -/
theorem not_sameEntries_of_updated {c : IndexCall} {index' : TableIndex}
    (hmem : ⟨rid, data⟩ ∈ records) (h : c.index.HoldsRecords records)
    (hup : Updated records newData rid c.index index') (hchanges : c.index.Changes data newData)
    (hnot : ¬c.Refuses records recordSize data newData rid) : ¬SameEntries c.index index' := by
  rintro ⟨tree, rfl, hsame⟩
  obtain ⟨tree', htree, h'⟩ := hup
  rw [← withTree_inj htree] at h'
  have hnew : c.index.entry newData rid ∈ (c.index.withTree tree).entries :=
    h'.entry_mem.mpr ⟨⟨rid, newData⟩, mem_setData.mpr (Or.inl ⟨_, hmem, rfl, rfl⟩), rfl, rfl⟩
  obtain ⟨r, hr, hkey, hrid⟩ := h.entry_mem.mp ((hsame _).mp hnew)
  apply hnot
  refine ⟨hchanges, Or.inr (Or.inl ⟨_, mem_keys.mpr ⟨r, hr, rfl⟩, ?_, hrid⟩)⟩
  rw [hkey]
  exact sameColumns_iff.mpr rfl

theorem sameEntries_of_not_changes {index index' : TableIndex} (hmem : ⟨rid, data⟩ ∈ records)
    (hrecords : DistinctRecords records) (h : index.HoldsRecords records)
    (hup : Updated records newData rid index index') (hsame : ¬index.Changes data newData) :
    SameEntries index index' := by
  obtain ⟨tree, rfl, h'⟩ := hup
  exact sameEntries_of_keys_eq h h' (keys_setData_eq hrecords hmem hsame)

theorem before_eq_of_first {α : Type} {P : α → Prop} {x x' : α} :
    ∀ {before before' after after' : List α}, before ++ x :: after = before' ++ x' :: after' →
      P x → P x' → (∀ y ∈ before, ¬P y) → (∀ y ∈ before', ¬P y) → before = before'
  | [], [], _, _, _, _, _, _, _ => rfl
  | [], y :: _, _, _, h, hx, _, _, hb' => by
    obtain rfl := (List.cons.inj h).1
    exact absurd hx (hb' _ List.mem_cons_self)
  | y :: _, [], _, _, h, _, hx', hb, _ => by
    obtain rfl := (List.cons.inj h).1
    exact absurd hx' (hb _ List.mem_cons_self)
  | y :: before, y' :: before', _, _, h, hx, hx', hb, hb' => by
    obtain ⟨rfl, hrest⟩ := List.cons.inj h
    rw [before_eq_of_first hrest hx hx' (fun z hz => hb z (List.mem_cons_of_mem _ hz))
      fun z hz => hb' z (List.mem_cons_of_mem _ hz)]

/-- Among indexes that hold the changed record only those that have not changed are as they
were. -/
theorem not_changes_of_sameEntries (hmem : ⟨rid, data⟩ ∈ records) {before : List IndexCall}
    {before' rest rest' : List TableIndex}
    (hup : List.Forall₂ (fun b => Updated records newData rid b.index) before before')
    (hholds : ∀ b ∈ before, b.index.HoldsRecords records)
    (hnone : ∀ b ∈ before, ¬Fails records recordSize data newData rid b)
    (hall : List.Forall₂ SameEntries (before.map IndexCall.index ++ rest) (before' ++ rest')) :
    (∀ b ∈ before, ¬b.index.Changes data newData) ∧ List.Forall₂ SameEntries rest rest' := by
  induction hup with
  | nil => exact ⟨by simp, hall⟩
  | cons hb hrest ih =>
    simp only [List.mem_cons, forall_eq_or_imp] at hholds hnone ⊢
    obtain ⟨hsame, hall⟩ := List.forall₂_cons.mp hall
    obtain ⟨hno, hrest'⟩ := ih hholds.2 hnone.2 hall
    refine ⟨⟨fun hchanges => ?_, hno⟩, hrest'⟩
    exact not_sameEntries_of_updated hmem hholds.1 hb hchanges (not_or.mp hnone.1).1 hsame

/-- After an error all indexes are as they were exactly when the one that fails has refused the new
key and none before it has changed. -/
theorem StopsAt.sameEntries_iff {table : IndexedTable} (hcons : table.Consistent)
    (hmem : ⟨rid, data⟩ ∈ table.records) {outcomes : List (List (Option RC) × List (Option RC))}
    (h : StopsAt table.records table.recordSize data newData rid
      (indexCalls table.indexes outcomes) indexes') :
    List.Forall₂ SameEntries table.indexes indexes' ↔
      ∀ before c after, indexCalls table.indexes outcomes = before ++ c :: after →
        Fails table.records table.recordSize data newData rid c →
        (∀ b ∈ before, ¬Fails table.records table.recordSize data newData rid b) →
        c.Refuses table.records table.recordSize data newData rid ∧
          ∀ b ∈ before, ¬b.index.Changes data newData := by
  obtain ⟨before, c, after, before', index', heq, rfl, hnone, hup, hend⟩ := h
  have hindexes : table.indexes =
      before.map IndexCall.index ++ c.index :: after.map IndexCall.index := by
    rw [← map_indexCalls table.indexes outcomes, heq, List.map_append, List.map_cons]
  have hholds : ∀ b ∈ before, b.index.HoldsRecords table.records := by
    intro b hb
    apply hcons.holds
    rw [hindexes]
    exact List.mem_append_left _ (List.mem_map_of_mem hb)
  have hfails : Fails table.records table.recordSize data newData rid c :=
    hend.imp And.left And.left
  rw [heq, hindexes]
  constructor
  · intro hall before₁ c₁ after₁ heq₁ hfails₁ hnone₁
    obtain rfl := before_eq_of_first heq₁ hfails hfails₁ hnone hnone₁
    obtain ⟨rfl, -⟩ := List.cons.inj (List.append_cancel_left heq₁)
    obtain ⟨hno, hrest⟩ := not_changes_of_sameEntries hmem hup hholds hnone hall
    have hsame := (List.forall₂_cons.mp hrest).1
    exact ⟨hend.elim And.left fun hboth => absurd hsame hboth.2, hno⟩
  · intro hfirst
    obtain ⟨href, hno⟩ := hfirst before c after rfl hfails hnone
    have hsame : SameEntries c.index index' :=
      hend.elim And.right fun hboth => absurd href hboth.1.2.1
    have hbefore : List.Forall₂ SameEntries (before.map IndexCall.index) before' := by
      have hboth := (List.forall₂_and_left _ _).mpr
        ⟨fun b hb => And.intro (hno b hb) (hholds b hb), hup⟩
      apply List.forall₂_map_left_iff.mpr
      exact hboth.imp fun b ix' hb =>
        sameEntries_of_not_changes hmem hcons.distinct hb.1.2 hb.2 hb.1.1
    exact List.rel_append hbefore (.cons hsame (forall₂_sameEntries_refl _))

/-- What holds of each index before and after a call that succeeds. -/
theorem exists_updated_of_mem {index' : TableIndex}
    (hall : List.Forall₂ (Updated records newData rid) indexes indexes')
    (hmem : index' ∈ indexes') :
    ∃ index ∈ indexes, Updated records newData rid index index' := by
  induction hall with
  | nil => exact absurd hmem List.not_mem_nil
  | cons hix hrest ih =>
    rcases List.mem_cons.mp hmem with rfl | hmem
    · exact ⟨_, List.mem_cons_self, hix⟩
    · obtain ⟨index, hindex, hup⟩ := ih hmem
      exact ⟨index, List.mem_cons_of_mem _ hindex, hup⟩

theorem exists_updated_of_mem_left {index : TableIndex}
    (hall : List.Forall₂ (Updated records newData rid) indexes indexes')
    (hmem : index ∈ indexes) :
    ∃ index' ∈ indexes', Updated records newData rid index index' := by
  induction hall with
  | nil => exact absurd hmem List.not_mem_nil
  | cons hix hrest ih =>
    rcases List.mem_cons.mp hmem with rfl | hmem
    · exact ⟨_, List.mem_cons_self, hix⟩
    · obtain ⟨index', hindex, hup⟩ := ih hmem
      exact ⟨index', List.mem_cons_of_mem _ hindex, hup⟩

/-- An index that holds the changed record has its new key and, if this is another one, not the
old key. -/
theorem entries_of_updated {index index' : TableIndex} (hmem : ⟨rid, data⟩ ∈ records) (hup : Updated records newData rid index index') :
    index'.entry newData rid ∈ index'.entries ∧
      (index'.userKey data ≠ index'.userKey newData → index'.entry data rid ∉ index'.entries) := by
  obtain ⟨tree, rfl, h⟩ := hup
  refine ⟨h.entry_mem.mpr ⟨⟨rid, newData⟩, ?_, rfl, rfl⟩, fun hne hold => ?_⟩
  · exact mem_setData.mpr (Or.inl ⟨_, hmem, rfl, rfl⟩)
  · obtain ⟨r, hr, hkey, hrid⟩ := h.entry_mem.mp hold
    rcases mem_setData.mp hr with ⟨r₀, -, -, rfl⟩ | ⟨-, hother⟩
    · exact hne hkey.symm
    · exact hother hrid

/-- In an index that holds the changed record there are no twins exactly when no other record is
one of the changed record. -/
theorem noTwins_iff_of_updated {index index' : TableIndex} (hmem : ⟨rid, data⟩ ∈ records)
    (h : index.HoldsRecords records) (hno : index.NoTwins recordSize records)
    (hup : Updated records newData rid index index') :
    index'.NoTwins recordSize (setData records rid newData) ↔
      (index.recordNull recordSize newData = false →
        ∀ r ∈ records, r.rid ≠ rid → index.recordNull recordSize r.data = false →
          ¬SameColumns (index.userKey r.data) (index.userKey newData)) := by
  obtain ⟨tree, rfl, h'⟩ := hup
  have hin : ∀ r ∈ setData records rid newData,
      index.entry r.data r.rid ∈ (index.withTree tree).entries := fun r hr =>
    h'.entry_mem.mpr ⟨r, hr, rfl, rfl⟩
  have hin₀ : ∀ r ∈ records, index.entry r.data r.rid ∈ index.entries := fun r hr =>
    h.entry_mem.mpr ⟨r, hr, rfl, rfl⟩
  have hnew : (⟨rid, newData⟩ : StoredRecord) ∈ setData records rid newData :=
    mem_setData.mpr (Or.inl ⟨_, hmem, rfl, rfl⟩)
  constructor
  · intro htwins hnull r hr hrid hnull' hsame
    have hr' : r ∈ setData records rid newData := mem_setData.mpr (Or.inr ⟨hr, hrid⟩)
    exact hrid (htwins r hr' _ hnew hnull' hnull (hin r hr') (hin _ hnew) hsame)
  · intro hfresh r hr r' hr' hnull hnull' _ _ hsame
    have hsymm : SameColumns (index.userKey r'.data) (index.userKey r.data) :=
      sameColumns_iff.mpr (sameColumns_iff.mp hsame).symm
    rcases mem_setData.mp hr with ⟨-, -, -, rfl⟩ | ⟨hr₀, hrid⟩
    · rcases mem_setData.mp hr' with ⟨-, -, -, rfl⟩ | ⟨hr₀', hrid'⟩
      · rfl
      · exact absurd hsymm (hfresh hnull r' hr₀' hrid' hnull')
    · rcases mem_setData.mp hr' with ⟨-, -, -, rfl⟩ | ⟨hr₀', hrid'⟩
      · exact absurd hsame (hfresh hnull' r hr₀ hrid hnull)
      · exact hno r hr₀ r' hr₀' hnull hnull' (hin₀ r hr₀) (hin₀ r' hr₀') hsame

section

variable {table table' : IndexedTable} (hcons : table.Consistent)
  (hview : table.isView = false) (hmem : ⟨rid, data⟩ ∈ table.records)
  (hreads : ∀ index ∈ table.indexes, index.Reads newData)
  {outcomes : List (List (Option RC) × List (Option RC))}
  (hanswered : table.Answered data newData rid outcomes) {result : Except RC Unit}
  (hcall : table.updateRecord (some data) rid newData outcomes = some (result, table'))
include hcons hview hmem hreads hanswered hcall

/-- A call of `update_record` on a record of a table. -/
theorem updateRecord_spec :
    ((∃ rc, result = .error rc) ∧ StopsAt table.records table.recordSize data newData rid
        (indexCalls table.indexes outcomes) table'.indexes) ∨
      (result = .ok () ∧
        (∀ c ∈ indexCalls table.indexes outcomes,
          ¬Fails table.records table.recordSize data newData rid c) ∧
        List.Forall₂ (Updated table.records newData rid) table.indexes table'.indexes ∧
        table'.recordSize = table.recordSize ∧
        table'.records = setData table.records rid newData) := by
  have hstored : updateStored table.records rid newData =
      .ok (setData table.records rid newData) := if_pos ⟨_, hmem, rfl⟩
  rw [updateRecord, if_neg (ne_true_of_eq_false hview)] at hcall
  simp only [hstored] at hcall
  split at hcall
  case h_1 => cases hcall
  case h_2 rc indexes hix =>
    cases hcall
    rcases updateEntryOfIndexes_spec hcons.distinct hmem hanswered hcons.holds hreads hix with
      hstop | ⟨hok, -⟩
    · exact Or.inl hstop
    · cases hok
  case h_3 indexes hix =>
    cases hcall
    rcases updateEntryOfIndexes_spec hcons.distinct hmem hanswered hcons.holds hreads hix with
      ⟨⟨rc, hrc⟩, -⟩ | ⟨-, hnone, hall⟩
    · cases hrc
    · exact Or.inr ⟨rfl, hnone, hall, rfl, rfl⟩

/-- Where no call on an index succeeds without its pages, such a call keeps its promise exactly when
it updates cleanly. -/
theorem allOrNothing_iff :
    table.AllOrNothing data newData rid result table' ↔
      table.UpdatesCleanly data newData rid outcomes := by
  rcases updateRecord_spec hcons hview hmem hreads hanswered hcall with
    ⟨⟨rc, rfl⟩, hstop⟩ | ⟨rfl, hnone, hall, hsize, hrecords⟩
  · have hiff := hstop.sameEntries_iff hcons hmem
    obtain ⟨before, c, after, _, _, heq, -, -, -, hend⟩ := hstop
    have hc : c ∈ indexCalls table.indexes outcomes :=
      heq ▸ List.mem_append_right _ List.mem_cons_self
    constructor
    · intro h
      exact ⟨hiff.mp (h.unchanged ⟨rc, rfl⟩), fun hnone =>
        absurd (hend.imp And.left And.left) (hnone c hc)⟩
    · intro h
      exact ⟨fun _ => hiff.mpr h.refusedFirst, by simp, by simp⟩
  · have htwins : ∀ index ∈ table.indexes, ∀ index', Updated table.records newData rid index
        index' → index.header.unique = true → _ := fun index hindex index' hup hunique =>
      noTwins_iff_of_updated hmem (hcons.holds index hindex)
        (hcons.noTwins index hindex hunique) hup
    constructor
    · intro h
      constructor
      · intro before c after heq hfails
        exact absurd hfails (hnone c (heq ▸ List.mem_append_right _ List.mem_cons_self))
      · intro _ index hindex hunique
        obtain ⟨index', hindex', hup⟩ := exists_updated_of_mem_left hall hindex
        have hunique' : index'.header.unique = true := by
          obtain ⟨tree, rfl, -⟩ := hup
          exact hunique
        have hno := h.noTwins rfl index' hindex' hunique'
        rw [hsize, hrecords] at hno
        exact (htwins index hindex index' hup hunique).mp hno
    · intro h
      refine ⟨by simp, fun _ index' hindex' => ?_, fun _ index' hindex' hunique' => ?_⟩
      · obtain ⟨index, -, hup⟩ := exists_updated_of_mem hall hindex'
        exact entries_of_updated hmem hup
      · obtain ⟨index, hindex, hup⟩ := exists_updated_of_mem hall hindex'
        have hunique : index.header.unique = true := by
          obtain ⟨tree, rfl, -⟩ := hup
          exact hunique'
        rw [hsize, hrecords]
        exact (htwins index hindex index' hup hunique).mpr (h.fresh hnone index hindex hunique)

end

/-- A call keeps its promise when no call on an index succeeds without its pages and it updates
cleanly, and of the calls of the first kind only those do that update cleanly.  A view is left
alone. -/
theorem updateRecord_allOrNothing_iff (table : IndexedTable) (hcons : table.Consistent)
    (data newData : List UInt8) (rid : RID) (hmem : ⟨rid, data⟩ ∈ table.records)
    (hreads : ∀ index ∈ table.indexes, index.Reads newData)
    (outcomes : List (List (Option RC) × List (Option RC))) (result : Except RC Unit)
    (table' : IndexedTable)
    (hcall : table.updateRecord (some data) rid newData outcomes = some (result, table')) :
    ((table.isView = false → table.Answered data newData rid outcomes ∧
        table.UpdatesCleanly data newData rid outcomes) →
      table.AllOrNothing data newData rid result table') ∧
    (table.isView = false → table.Answered data newData rid outcomes →
      table.AllOrNothing data newData rid result table' →
      table.UpdatesCleanly data newData rid outcomes) := by
  cases hview : table.isView with
  | true =>
    rw [updateRecord, if_pos hview] at hcall
    cases hcall
    refine ⟨fun _ => ?_, by simp⟩
    exact ⟨fun _ => forall₂_sameEntries_refl _, by simp, by simp⟩
  | false =>
    constructor
    · intro h
      obtain ⟨hanswered, hcleanly⟩ := h rfl
      exact (allOrNothing_iff hcons hview hmem hreads hanswered hcall).mpr hcleanly
    · intro _ hanswered
      exact (allOrNothing_iff hcons hview hmem hreads hanswered hcall).mp

/-! ### Two unique indexes -/

/-- A record of two integer columns without NULL. -/
def pairRecord (a b : Int32) : List UInt8 :=
  int32Bytes a ++ int32Bytes b ++ [0, 0]

/-- The tree of a unique index over an integer column after two insertions. -/
def pairTree : TreeState (Key (UserKey [.ints])) :=
  (ObHtap.insertRecords (ofAttrs [.ints] (BplusTreeIndex.fileHeader [.ints] true))
    [⟨intKey 1, [false], ⟨1, 0⟩⟩, ⟨intKey 2, [false], ⟨1, 1⟩⟩] TreeState.create).getD
      TreeState.create

/-- An index over one of the columns. -/
def pairIndex (offset fieldId : Nat) : TableIndex where
  fields := [⟨.ints, offset, fieldId⟩]
  header := BplusTreeIndex.fileHeader [.ints] true
  tree := pairTree
  leafCapacity := TableIndex.leafCapacity_ints
  internalCapacity := TableIndex.internalCapacity_ints

/-- Unique indexes over both columns of two records. -/
def pairTable : IndexedTable where
  isView := false
  recordSize := 10
  records := [⟨⟨1, 0⟩, pairRecord 1 1⟩, ⟨⟨1, 1⟩, pairRecord 2 2⟩]
  indexes := [pairIndex 0 0, pairIndex 4 1]

theorem pairTree_holds : Holds (BplusTreeIndex.fileHeader [.ints] true)
    (Key.rank (UserKey.rank [.ints])) pairTree {⟨intKey 2, ⟨1, 1⟩⟩, ⟨intKey 1, ⟨1, 0⟩⟩} := by
  have hsome : (ObHtap.insertRecords (ofAttrs [.ints] (BplusTreeIndex.fileHeader [.ints] true))
      [⟨intKey 1, [false], ⟨1, 0⟩⟩, ⟨intKey 2, [false], ⟨1, 1⟩⟩] TreeState.create).isSome =
      true := by decide +kernel
  obtain ⟨t₂, h⟩ := Option.isSome_iff_exists.mp hsome
  obtain ⟨t₁, h₁, hrest⟩ := insertRecords_cons h
  obtain ⟨t₂', h₂, hend⟩ := insertRecords_cons hrest
  obtain rfl := Option.some.inj hend
  rw [pairTree, h, Option.getD_some]
  have hold₁ := (holds_create _ _).insertEntry_ok (by decide) (by decide) (by decide) h₁
  exact hold₁.insertEntry_ok (by decide) (by decide) (by decide) h₂

theorem pairIndex_reads (offset fieldId : Nat) (record : List UInt8) :
    (pairIndex offset fieldId).Reads record :=
  ⟨trivial, trivial⟩

theorem pairTable_reads (record : List UInt8) : ∀ index ∈ pairTable.indexes, index.Reads record := by
  intro index hindex
  rcases List.mem_pair.mp hindex with rfl | rfl
  · exact pairIndex_reads _ _ record
  · exact pairIndex_reads _ _ record

theorem pairIndex_holdsRecords {offset fieldId : Nat}
    (hkeys : (pairIndex offset fieldId).keys pairTable.records =
      {⟨intKey 2, ⟨1, 1⟩⟩, ⟨intKey 1, ⟨1, 0⟩⟩}) :
    (pairIndex offset fieldId).HoldsRecords pairTable.records where
  reads _ _ := pairIndex_reads _ _ _
  holds := by
    rw [hkeys]
    exact pairTree_holds

theorem pairIndex_noTwins {offset fieldId : Nat}
    (h : ∀ r ∈ pairTable.records, ∀ r' ∈ pairTable.records,
      (pairIndex offset fieldId).userKey r.data = (pairIndex offset fieldId).userKey r'.data →
        r.rid = r'.rid) :
    (pairIndex offset fieldId).NoTwins pairTable.recordSize pairTable.records := by
  intro r hr r' hr' _ _ _ _ hsame
  exact h r hr r' hr' (UserKey.rank_ints_injective (sameColumns_iff.mp hsame))

theorem pairTable_consistent : pairTable.Consistent where
  distinct := by
    unfold DistinctRecords
    decide
  holds index hindex := by
    rcases List.mem_pair.mp hindex with rfl | rfl
    · exact pairIndex_holdsRecords (by decide)
    · exact pairIndex_holdsRecords (by decide)
  noTwins index hindex _ := by
    rcases List.mem_pair.mp hindex with rfl | rfl
    · exact pairIndex_noTwins (by decide)
    · exact pairIndex_noTwins (by decide)

theorem pairIndex_not_fails :
    ¬Fails pairTable.records 10 (pairRecord 1 1) (pairRecord 3 2) ⟨1, 0⟩
      ⟨pairIndex 0 0, [], []⟩ := by
  have hnew : ∀ key ∈ (pairIndex 0 0).keys pairTable.records,
      ¬SameColumns key.userKey ((pairIndex 0 0).userKey (pairRecord 3 2)) := by decide
  rintro (⟨-, hserved | ⟨key, hkey, hsame, -⟩ | ⟨-, -, -, key, hkey, heq, -⟩⟩ | hboth)
  · exact hserved rfl
  · exact hnew key hkey hsame
  · exact hnew key hkey (sameColumns_iff.mpr (by rw [heq]))
  · exact hboth.2.2 rfl

/-- The first record gets 3 and 2.  The second index refuses 2, and the first one has 3 by
then. -/
theorem updateRecord_refused_second :
    pairTable.Consistent ∧ ∃ rc table',
      pairTable.updateRecord (some (pairRecord 1 1)) ⟨1, 0⟩ (pairRecord 3 2) [] =
        some (.error rc, table') ∧
      ¬pairTable.AllOrNothing (pairRecord 1 1) (pairRecord 3 2) ⟨1, 0⟩ (.error rc) table' := by
  have herror : (pairTable.updateRecord (some (pairRecord 1 1)) ⟨1, 0⟩ (pairRecord 3 2) []).map
      (fun r => r.1.isOk) = some false := by decide +kernel
  obtain ⟨⟨result, table'⟩, h, hresult⟩ := Option.map_eq_some_iff.mp herror
  cases result with
  | ok u => cases hresult
  | error rc =>
    refine ⟨pairTable_consistent, rc, table', h, fun hall => ?_⟩
    rcases updateRecord_spec pairTable_consistent rfl (by decide) (pairTable_reads _)
      (answered_nil _) h with ⟨-, hstop⟩ | ⟨hok, -⟩
    · have hfirst := (hstop.sameEntries_iff pairTable_consistent (by decide)).mp
        (hall.unchanged ⟨rc, rfl⟩)
      obtain ⟨before, c, after, _, _, heq, -, hnone, -, hend⟩ := hstop
      have hfails : Fails pairTable.records pairTable.recordSize (pairRecord 1 1) (pairRecord 3 2)
          ⟨1, 0⟩ c := hend.imp And.left And.left
      cases before with
      | nil =>
        -- the first index does not refuse
        obtain rfl := (List.cons.inj heq).1
        exact pairIndex_not_fails hfails
      | cons first before =>
        obtain rfl := (List.cons.inj heq).1
        exact (hfirst _ c after heq hfails hnone).2 _ List.mem_cons_self (by decide)
    · cases hok

/-- The first record gets 3 and 4. -/
theorem updateRecord_allOrNothing_iff_pair :
    ∃ result table', pairTable.updateRecord (some (pairRecord 1 1)) ⟨1, 0⟩ (pairRecord 3 4) [] =
        some (result, table') ∧
      ((pairTable.isView = false →
          pairTable.Answered (pairRecord 1 1) (pairRecord 3 4) ⟨1, 0⟩ [] ∧
          pairTable.UpdatesCleanly (pairRecord 1 1) (pairRecord 3 4) ⟨1, 0⟩ []) →
        pairTable.AllOrNothing (pairRecord 1 1) (pairRecord 3 4) ⟨1, 0⟩ result table') ∧
      (pairTable.isView = false →
        pairTable.Answered (pairRecord 1 1) (pairRecord 3 4) ⟨1, 0⟩ [] →
        pairTable.AllOrNothing (pairRecord 1 1) (pairRecord 3 4) ⟨1, 0⟩ result table' →
        pairTable.UpdatesCleanly (pairRecord 1 1) (pairRecord 3 4) ⟨1, 0⟩ []) := by
  have hsome : (pairTable.updateRecord (some (pairRecord 1 1)) ⟨1, 0⟩ (pairRecord 3 4)
      []).isSome = true := by decide +kernel
  obtain ⟨⟨result, table'⟩, h⟩ := Option.isSome_iff_exists.mp hsome
  exact ⟨result, table', h, updateRecord_allOrNothing_iff pairTable pairTable_consistent _ _ _
    (by decide) (pairTable_reads _) [] result table' h⟩

end IndexedTable

end ObHtap
