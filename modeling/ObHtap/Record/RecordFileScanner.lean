import ObHtap.Record.RecordFile

/-!
# Scanning a record file

`RecordFileScanner` goes through the allocated pages of a file and through the slots of each that
are in use, for a transaction to which every record is visible.  Asked again and again it gives
the records of the file, each of them once.
-/

namespace ObHtap

/-- The state of a `RecordFileScanner`: the page that the pages have been gone through to, and, if
there is an iterator over its slots, the slot that comes next there. -/
structure RecordFileScanner where
  currentPageNum : Nat
  pageIterator : Option (Option Nat)

namespace RecordFileScanner

/-- `open_scan`: the pages start behind page 0. -/
def openScan : RecordFileScanner := ⟨0, none⟩

/-- `fetch_next_record_in_page`. -/
def fetchNextRecordInPage (file : RecordFile) (pageNum : Nat) (nextSlotNum : Option Nat) :
    Option (StoredRecord × RecordFileScanner) :=
  nextSlotNum.map fun slot =>
    let page := file.pages pageNum
    (⟨⟨pageNum, slot⟩, page.recordData slot⟩,
      ⟨pageNum, some (nextSettedBit page.getBit page.header.recordCapacity (slot + 1))⟩)

/-- The loop of `fetch_next_record` over the pages that come next. -/
def fetchNextPage (file : RecordFile) : Nat → Nat → Option (StoredRecord × RecordFileScanner)
  | 0, _ => none
  | rounds + 1, currentPageNum =>
    match nextSettedBit file.header.bitmap file.header.pageCount (currentPageNum + 1) with
    | none => none
    | some pageNum =>
      let page := file.pages pageNum
      match fetchNextRecordInPage file pageNum
        (nextSettedBit page.getBit page.header.recordCapacity 0) with
      | some found => some found
      | none => fetchNextPage file rounds pageNum

/-- `next`; nothing is `RECORD_EOF`. -/
def next (file : RecordFile) (s : RecordFileScanner) : Option (StoredRecord × RecordFileScanner) :=
  match s.pageIterator.bind (fetchNextRecordInPage file s.currentPageNum) with
  | some found => some found
  | none => fetchNextPage file file.header.pageCount s.currentPageNum

/-- What a scan gives from a state on until `RECORD_EOF`. -/
inductive Scans (file : RecordFile) : RecordFileScanner → List StoredRecord → Prop
  | eof {s} : next file s = none → Scans file s []
  | record {s s' r rs} : next file s = some (r, s') → Scans file s' rs → Scans file s (r :: rs)

theorem Scans.unique {file : RecordFile} {s : RecordFileScanner} {rs rs' : List StoredRecord}
    (h : Scans file s rs) (h' : Scans file s rs') : rs = rs' := by
  induction h generalizing rs' with
  | eof hnone =>
    cases h' with
    | eof => rfl
    | record hsome => cases hnone.symm.trans hsome
  | record hsome hrest ih =>
    cases h' with
    | eof hnone => cases hnone.symm.trans hsome
    | record hsome' hrest' =>
      obtain ⟨rfl, rfl⟩ := Prod.mk.inj (Option.some.inj (hsome.symm.trans hsome'))
      rw [ih hrest']

/-! ## The records that are left -/

variable {file : RecordFile} {s s' : RecordFileScanner} {r : StoredRecord}

/-- The records of the pages behind one. -/
def recordsBehind (file : RecordFile) (pageNum : Nat) : List StoredRecord :=
  (settedFrom file.header.bitmap file.header.pageCount (pageNum + 1)).flatMap fun p =>
    (file.pages p).recordsFrom p 0

/-- The records of a page from the slot on that comes next. -/
def recordsInPage (file : RecordFile) (pageNum : Nat) (nextSlotNum : Option Nat) :
    List StoredRecord :=
  (nextSlotNum.map ((file.pages pageNum).recordsFrom pageNum)).getD []

/-- The records that a scan has yet to give. -/
def recordsLeft (file : RecordFile) (s : RecordFileScanner) : List StoredRecord :=
  (s.pageIterator.map (recordsInPage file s.currentPageNum)).getD [] ++
    recordsBehind file s.currentPageNum

theorem recordsInPage_nextSettedBit (pageNum start : Nat) :
    recordsInPage file pageNum (nextSettedBit (file.pages pageNum).getBit
      (file.pages pageNum).header.recordCapacity start) =
      (file.pages pageNum).recordsFrom pageNum start := by
  rw [recordsInPage, RecordPage.recordsFrom]
  cases hslot : nextSettedBit (file.pages pageNum).getBit
    (file.pages pageNum).header.recordCapacity start with
  | none => rw [nextSettedBit_eq_none hslot]; rfl
  | some slot =>
    obtain ⟨-, -, hstart, hself⟩ := nextSettedBit_eq_some hslot
    rw [hstart, ← hself]
    rfl

/-- The slot that comes next has been found in use. -/
def Ready (file : RecordFile) (pageNum : Nat) (nextSlotNum : Option Nat) : Prop :=
  ∃ start, nextSlotNum = nextSettedBit (file.pages pageNum).getBit
    (file.pages pageNum).header.recordCapacity start

theorem fetchNextRecordInPage_spec {pageNum : Nat} {nextSlotNum : Option Nat}
    (h : Ready file pageNum nextSlotNum) :
    (fetchNextRecordInPage file pageNum nextSlotNum = none ∧
        recordsInPage file pageNum nextSlotNum = []) ∨
      ∃ r slot, fetchNextRecordInPage file pageNum nextSlotNum =
          some (r, ⟨pageNum, some slot⟩) ∧ Ready file pageNum slot ∧
        recordsInPage file pageNum nextSlotNum = r :: recordsInPage file pageNum slot := by
  obtain ⟨start, rfl⟩ := h
  cases hslot : nextSettedBit (file.pages pageNum).getBit
    (file.pages pageNum).header.recordCapacity start with
  | none => exact Or.inl ⟨rfl, rfl⟩
  | some slot =>
    obtain ⟨-, -, -, hself⟩ := nextSettedBit_eq_some hslot
    refine Or.inr ⟨_, _, rfl, ⟨slot + 1, rfl⟩, ?_⟩
    rw [recordsInPage_nextSettedBit]
    change (file.pages pageNum).recordsFrom pageNum slot = _
    rw [RecordPage.recordsFrom, hself, List.map_cons]
    rfl

/-- A state whose iterator, if there is one, is ready. -/
def Valid (file : RecordFile) (s : RecordFileScanner) : Prop :=
  ∀ slot, s.pageIterator = some slot → Ready file s.currentPageNum slot

/-- The search of the pages behind one, by induction on the rounds. -/
theorem fetchNextPage_spec (rounds pageNum : Nat)
    (hrounds : file.header.pageCount ≤ rounds + pageNum) :
    (fetchNextPage file rounds pageNum = none ∧ recordsBehind file pageNum = []) ∨
      ∃ r s', fetchNextPage file rounds pageNum = some (r, s') ∧ Valid file s' ∧
        recordsBehind file pageNum = r :: recordsLeft file s' := by
  induction rounds generalizing pageNum with
  | zero =>
    refine Or.inl ⟨rfl, ?_⟩
    rw [recordsBehind, settedFrom, show file.header.pageCount - (pageNum + 1) = 0 by omega]
    rfl
  | succ rounds ih =>
    rw [fetchNextPage]
    cases hp : nextSettedBit file.header.bitmap file.header.pageCount (pageNum + 1) with
    | none =>
      refine Or.inl ⟨rfl, ?_⟩
      rw [recordsBehind, nextSettedBit_eq_none hp]
      rfl
    | some p =>
      obtain ⟨hle, hlt, hstart, -⟩ := nextSettedBit_eq_some hp
      have hbehind : recordsBehind file pageNum =
          (file.pages p).recordsFrom p 0 ++ recordsBehind file p := by
        rw [recordsBehind, hstart, List.flatMap_cons]
        rfl
      rw [hbehind, ← recordsInPage_nextSettedBit]
      have hready : Ready file p (nextSettedBit (file.pages p).getBit
          (file.pages p).header.recordCapacity 0) := ⟨0, rfl⟩
      rcases fetchNextRecordInPage_spec hready with
        ⟨hnone, hempty⟩ | ⟨r, slot, hsome, hready', hrecords⟩
      · simp only [hnone, hempty, List.nil_append]
        exact ih p (by omega)
      · refine Or.inr ⟨r, ⟨p, some slot⟩, ?_, ?_, ?_⟩
        · simp only [hsome]
        · rintro _ ⟨⟩
          exact hready'
        · rw [hrecords]
          rfl

theorem next_spec (hvalid : Valid file s) :
    (next file s = none ∧ recordsLeft file s = []) ∨
      ∃ r s', next file s = some (r, s') ∧ Valid file s' ∧
        recordsLeft file s = r :: recordsLeft file s' := by
  have hpages := fetchNextPage_spec file.header.pageCount s.currentPageNum
    (Nat.le_add_right _ _)
  obtain ⟨p, iterator⟩ := s
  cases iterator with
  | none => exact hpages
  | some slot =>
    rcases fetchNextRecordInPage_spec (hvalid slot rfl) with
      ⟨hnone, hempty⟩ | ⟨r, slot', hsome, hready, hrecords⟩
    · have hleft : recordsLeft file ⟨p, some slot⟩ = recordsBehind file p := by
        change recordsInPage file p slot ++ _ = _
        rw [hempty, List.nil_append]
      rw [next, Option.bind_some, hnone, hleft]
      exact hpages
    · refine Or.inr ⟨r, ⟨p, some slot'⟩, ?_, ?_, ?_⟩
      · rw [next, Option.bind_some, hsome]
      · rintro _ ⟨⟩
        exact hready
      · change recordsInPage file p slot ++ _ = _
        rw [hrecords]
        rfl

/-- From a valid state a scan gives the records that are left. -/
theorem scans_recordsLeft (hvalid : Valid file s) : Scans file s (recordsLeft file s) := by
  induction hn : recordsLeft file s generalizing s with
  | nil =>
    rcases next_spec hvalid with ⟨hnone, -⟩ | ⟨r, s', -, -, hleft⟩
    · exact .eof hnone
    · cases hn.symm.trans hleft
  | cons r rs ih =>
    rcases next_spec hvalid with ⟨-, hempty⟩ | ⟨r', s', hsome, hvalid', hleft⟩
    · cases hempty.symm.trans hn
    · obtain ⟨rfl, hrest⟩ := List.cons.inj (hn.symm.trans hleft)
      exact .record hsome (ih hvalid' hrest.symm)

theorem scans_records (file : RecordFile) : Scans file openScan file.records :=
  scans_recordsLeft (s := openScan) fun _ h => by cases h

/-! ## Updates during a scan -/

/-- The records that a scan has yet to give are the updated ones after an update. -/
theorem recordsLeft_updateRecord {file' : RecordFile} {rid : RID} {data newData : List UInt8}
    (hfile : file.WellFormed) (h : ⟨rid, data⟩ ∈ file.records)
    (hsize : newData.length = data.length) (hcall : file.updateRecord rid newData = .ok file')
    (hvalid : Valid file s) :
    Valid file' s ∧ recordsLeft file' s = setData (recordsLeft file s) rid newData := by
  obtain ⟨hpage, halloc, -⟩ := RecordFile.mem_records.mp h
  have hw := hfile _ hpage halloc
  have hlength := hsize.trans (RecordFile.length_of_mem_records h)
  obtain rfl := RecordFile.updateRecord_ok hcall
  set page' := (file.pages rid.pageNum).setRecordData rid.slotNum newData with hpage'
  have hready : ∀ {p slot}, Ready file p slot → Ready (file.setPage rid.pageNum page') p slot := by
    rintro p slot ⟨start, rfl⟩
    refine ⟨start, ?_⟩
    by_cases hp : p = rid.pageNum
    · subst hp
      rw [RecordFile.setPage_self]
      exact nextSettedBit_congr fun i hi => (RecordPage.getBit_setRecordData hw hi).symm
    · rw [RecordFile.setPage_ne hp]
  have hfrom : ∀ p start, ((file.setPage rid.pageNum page').pages p).recordsFrom p start =
      setData ((file.pages p).recordsFrom p start) rid newData := by
    intro p start
    by_cases hp : p = rid.pageNum
    · rw [hp, RecordFile.setPage_self]
      exact RecordPage.recordsFrom_updated hw hlength _ _
    · rw [RecordFile.setPage_ne hp, setData]
      have hid : ∀ r ∈ (file.pages p).recordsFrom p start,
          (if r.rid = rid then { r with data := newData } else r) = id r := fun r hr =>
        if_neg fun hrid => hp (by rw [← RecordPage.recordsFrom_pageNum hr, hrid])
      rw [List.map_congr_left hid, List.map_id]
  refine ⟨fun slot hslot => hready (hvalid slot hslot), ?_⟩
  rw [recordsLeft, recordsLeft, setData, List.map_append]
  apply congr
  · apply congrArg
    cases s.pageIterator with
    | none => rfl
    | some slot =>
      cases slot with
      | none => rfl
      | some slot => exact hfrom s.currentPageNum slot
  · rw [recordsBehind, recordsBehind, List.map_flatMap]
    apply List.flatMap_congr
    intro p _
    exact hfrom p 0

end RecordFileScanner

end ObHtap
