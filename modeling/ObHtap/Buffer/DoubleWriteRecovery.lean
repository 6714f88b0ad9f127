import ObHtap.Buffer.DoubleWriteCalls

/-!
# Recovery from the double write buffer

After a crash `load_pages` takes the first copy of a page that it finds, and `recover` writes it
to its file if it is valid.  An earlier slot may have an old copy of a page, however, that is not
valid any more, and the header may not count the last slot yet.
-/

namespace ObHtap

open DoubleWriteBuffer DoubleWriteState

/-- `load_pages` and `recover` bring back the newest copies. -/
def RestoresNewest (maxPages : Int) (history : DiskHistory) : Prop :=
  ∃ buffer, loadPages maxPages history.disk = .ok buffer ∧ ∀ (order : HashOrder) i copy,
    history.NewestCopy i copy → copy.valid = true → copy.page.Checked →
      (history.writeAll (buffer.flushPage order).1).disk.readPage copy.key = some copy.page

/-- No slot below that of a new page has a copy of the page. -/
def NoEarlierCopy (s : DoubleWriteState) : DoubleWriteCall → Prop
  | .addPage key _ _ => (∃ p ∈ s.buffer.pages, p.key = key) ∨
      ∀ i < s.buffer.pages.length, ∀ copy, s.history.disk.slots i = some copy →
        copy.page.Checked → copy.key ≠ key
  | _ => True

/-- The crash does not come between the write of a slot and that of a header which is the first
to count it. -/
def CountsSlots (s : DoubleWriteState) (call : DoubleWriteCall) (n : Nat) : Prop :=
  ∀ pageCnt, (call.run s.buffer).1[n]? = some (.header pageCnt) →
    pageCnt ≤ s.history.disk.pageCnt

/-! ## The invariant -/

/-- The pages that are held own the valid copies of the file, and no earlier slot has a copy of
any of them. -/
structure RecoverInv (held : List DoubleWritePage) (disk : Disk) : Prop where
  present : ∀ i < disk.pageCnt, (disk.slots i).isSome
  nodup : (held.map DoubleWritePage.key).Nodup
  indexed : ∀ p ∈ held, p.pageIndex < disk.pageCnt
  owned : ∀ i copy, disk.slots i = some copy → copy.valid = true → copy.page.Checked →
    ∃ p ∈ held, p.key = copy.key ∧ p.pageIndex = i
  first : ∀ p ∈ held, ∀ i < p.pageIndex, ∀ copy, disk.slots i = some copy → copy.page.Checked →
    copy.key ≠ p.key

namespace RecoverInv

variable {held rest pages : List DoubleWritePage} {disk : Disk} {history : DiskHistory}
  {p : DoubleWritePage}

theorem restoresNewest (h : RecoverInv held history.disk) (maxPages : Int) :
    RestoresNewest maxPages history := by
  obtain ⟨pages, hload, hloaded⟩ := loadPages_loaded maxPages h.present
  refine ⟨_, hload, fun order i copy hnewest hvalid hchecked => ?_⟩
  obtain ⟨p, hp, hkey, hindex⟩ := h.owned i copy hnewest.1 hvalid hchecked
  have hcounted := h.indexed p hp
  rw [hindex] at hcounted
  obtain ⟨q, hq, hqkey⟩ := hloaded.complete i hcounted copy hnewest.1 hchecked
  obtain ⟨j, -, hslot, hqchecked, hfirst⟩ := hloaded.sound q hq
  -- The copy that is loaded is neither before nor behind the valid one.
  have hji : j = i := by
    rcases Nat.lt_trichotomy j i with hlt | heq | hlt
    · exact absurd (hqkey.trans hkey.symm) (h.first p hp j (hindex ▸ hlt) q hslot hqchecked)
    · exact heq
    · exact absurd hqkey.symm (hfirst i hlt copy hnewest.1 hchecked)
  obtain rfl : q = copy := Option.some.inj (hslot.symm.trans (hji ▸ hnewest.1))
  have hperm := order.perm pages
  exact readPage_flushWrites ((hperm.map _).nodup_iff.mpr hloaded.nodup)
    (hperm.mem_iff.mpr hq) hvalid

theorem perm (h : RecoverInv held disk) (hperm : held.Perm rest) : RecoverInv rest disk where
  present := h.present
  nodup := (hperm.map _).nodup_iff.mp h.nodup
  indexed := fun p hp => h.indexed p (hperm.mem_iff.mpr hp)
  owned := fun i copy hslot hvalid hchecked => by
    obtain ⟨p, hp, hrest⟩ := h.owned i copy hslot hvalid hchecked
    exact ⟨p, hperm.mem_iff.mp hp, hrest⟩
  first := fun p hp => h.first p (hperm.mem_iff.mpr hp)

theorem write_page (h : RecoverInv held disk) (key : DoubleWritePageKey) (page : Page) :
    RecoverInv held (disk.write (.page key page)) :=
  ⟨h.present, h.nodup, h.indexed, h.owned, h.first⟩

theorem present_write_slot (h : RecoverInv held disk) (copy : DoubleWritePage) :
    ∀ i < disk.pageCnt, ((disk.write (.slot copy)).slots i).isSome := by
  intro i hi
  unfold Disk.write
  simp only
  split_ifs
  · rfl
  · exact h.present i hi

theorem retire (h : RecoverInv (p :: rest) disk) :
    RecoverInv rest (disk.write (.slot { p with valid := false })) where
  present := h.present_write_slot _
  nodup := (List.nodup_cons.mp h.nodup).2
  indexed := fun q hq => h.indexed q (List.mem_cons_of_mem _ hq)
  owned := fun i copy hslot hvalid hchecked => by
    unfold Disk.write at hslot
    simp only at hslot
    split_ifs at hslot with hi
    · obtain rfl := Option.some.inj hslot
      cases hvalid
    · obtain ⟨q, hq, hkey, hindex⟩ := h.owned i copy hslot hvalid hchecked
      rcases List.mem_cons.mp hq with rfl | hq
      · exact absurd hindex.symm hi
      · exact ⟨q, hq, hkey, hindex⟩
  first := fun q hq i hi copy hslot hchecked hkey => by
    unfold Disk.write at hslot
    simp only at hslot
    split_ifs at hslot
    · obtain rfl := Option.some.inj hslot
      exact (List.nodup_cons.mp h.nodup).1 (List.mem_map.mpr ⟨q, hq, hkey.symm⟩)
    · exact h.first q (List.mem_cons_of_mem _ hq) i hi copy hslot hchecked hkey

theorem writesBack : WritesBack fun held history => RecoverInv held history.disk where
  perm := fun h => h.perm
  page := fun h => h.write_page _ _
  slot := fun h => (h.write_page _ _).retire

theorem update (h : RecoverInv held disk) (hp : p ∈ held) (page : Page) :
    RecoverInv (held.map fun q => if q = p then { p with page } else q)
      (disk.write (.slot { p with page })) := by
  have hmem : ∀ q ∈ held.map (fun q => if q = p then { p with page } else q),
      ∃ q' ∈ held, q.key = q'.key ∧ q.pageIndex = q'.pageIndex := by
    intro q hq
    obtain ⟨q', hq', rfl⟩ := List.mem_map.mp hq
    split_ifs with heq
    · exact ⟨p, hp, rfl, rfl⟩
    · exact ⟨q', hq', rfl, rfl⟩
  have hmem' : ∀ q ∈ held, ∃ q' ∈ held.map (fun q => if q = p then { p with page } else q),
      q'.key = q.key ∧ q'.pageIndex = q.pageIndex := by
    intro q hq
    refine ⟨_, List.mem_map_of_mem hq, ?_⟩
    split_ifs with heq
    · rw [heq]
      exact ⟨rfl, rfl⟩
    · exact ⟨rfl, rfl⟩
  constructor
  · exact h.present_write_slot _
  · have hkeys : (held.map fun q => if q = p then { p with page } else q).map
        DoubleWritePage.key = held.map DoubleWritePage.key := by
      rw [List.map_map]
      apply List.map_congr_left
      intro q _
      rw [Function.comp_apply]
      split_ifs with heq
      · rw [heq]
      · rfl
    rw [hkeys]
    exact h.nodup
  · intro q hq
    obtain ⟨q', hq', -, hindex⟩ := hmem q hq
    rw [hindex]
    exact h.indexed q' hq'
  · intro i copy hslot hvalid hchecked
    unfold Disk.write at hslot
    simp only at hslot
    split_ifs at hslot with hi
    · obtain rfl := Option.some.inj hslot
      obtain ⟨q, hq, hkey, hindex⟩ := hmem' p hp
      exact ⟨q, hq, hkey, hindex.trans hi.symm⟩
    · obtain ⟨q, hq, hkey, hindex⟩ := h.owned i copy hslot hvalid hchecked
      obtain ⟨q', hq', hkey', hindex'⟩ := hmem' q hq
      exact ⟨q', hq', hkey'.trans hkey, hindex'.trans hindex⟩
  · intro q hq i hi copy hslot hchecked hkey
    obtain ⟨q', hq', hkey', hindex'⟩ := hmem q hq
    rw [hindex'] at hi
    rw [hkey'] at hkey
    unfold Disk.write at hslot
    simp only at hslot
    split_ifs at hslot with heq
    · obtain rfl := Option.some.inj hslot
      have hqp : p = q' := List.inj_on_of_nodup_map h.nodup hp hq' hkey
      rw [heq, hqp] at hi
      exact Nat.lt_irrefl _ hi
    · exact h.first q' hq' i hi copy hslot hchecked hkey

theorem insert (h : RecoverInv held disk) (new : DoubleWritePage) (disk' : Disk)
    (hslots : disk'.slots = (disk.write (.slot new)).slots)
    (hpresent : ∀ i < disk'.pageCnt, i ≠ new.pageIndex → (disk.slots i).isSome)
    (hindexed : ∀ p ∈ held, p.pageIndex < disk'.pageCnt) (hcounted : new.pageIndex < disk'.pageCnt)
    (hnew : ∀ p ∈ held, p.key ≠ new.key)
    (hfirst : ∀ i < new.pageIndex, ∀ copy, disk.slots i = some copy → copy.page.Checked →
      copy.key ≠ new.key) :
    RecoverInv (held ++ [new]) disk' := by
  have hslot : ∀ i, disk'.slots i = if i = new.pageIndex then some new else disk.slots i := by
    intro i
    rw [hslots]
    rfl
  constructor
  · intro i hi
    rw [hslot]
    split_ifs with heq
    · rfl
    · exact hpresent i hi heq
  · exact nodup_keys_append h.nodup hnew
  · intro p hp
    rcases List.mem_append.mp hp with hp | hp
    · exact hindexed p hp
    · rw [List.mem_singleton.mp hp]
      exact hcounted
  · intro i copy hcopy hvalid hchecked
    rw [hslot] at hcopy
    split_ifs at hcopy with heq
    · obtain rfl := Option.some.inj hcopy
      exact ⟨new, List.mem_append_right _ List.mem_cons_self, rfl, heq.symm⟩
    · obtain ⟨p, hp, hrest⟩ := h.owned i copy hcopy hvalid hchecked
      exact ⟨p, List.mem_append_left _ hp, hrest⟩
  · intro p hp i hi copy hcopy hchecked hkey
    rw [hslot] at hcopy
    rcases List.mem_append.mp hp with hp | hp
    · split_ifs at hcopy with heq
      · obtain rfl := Option.some.inj hcopy
        exact hnew p hp hkey.symm
      · exact h.first p hp i hi copy hcopy hchecked hkey
    · rw [List.mem_singleton.mp hp] at hi hkey
      rw [if_neg (Nat.ne_of_lt hi)] at hcopy
      exact hfirst i hi copy hcopy hchecked hkey

end RecoverInv

/-! ## Calls -/

section Calls

variable {buffer : DoubleWriteBuffer} {history : DiskHistory} {key : DoubleWritePageKey}
  {page : Page}

/-- The header counts the slot of a new page when it is written. -/
theorem RecoverInv.insertPage (h : RecoverInv buffer.pages history.disk)
    (hheader : HeaderInv buffer history.disk) (hnew : ∀ p ∈ buffer.pages, p.key ≠ key)
    (hfirst : ∀ i < buffer.pages.length, ∀ copy, history.disk.slots i = some copy →
      copy.page.Checked → copy.key ≠ key) :
    RecoverInv (buffer.insertPage key page).2.pages
      (history.writeAll (buffer.insertPage key page).1).disk := by
  have hcnt := hheader.header
  have hroom := hheader.room
  unfold DoubleWriteBuffer.insertPage
  simp only
  split_ifs with hraise
  · apply h.insert ⟨key, buffer.pages.length, true, page⟩
      ((history.disk.write (.slot _)).write (.header (buffer.pages.length + 1))) rfl
    · intro i hi hne
      apply h.present
      simp only [Disk.write] at hi hne
      omega
    · intro p hp
      have hlen := List.length_pos_of_mem hp
      have hindex := h.indexed p hp
      simp only [Disk.write]
      omega
    · exact Nat.lt_succ_self _
    · exact hnew
    · exact hfirst
  · apply h.insert ⟨key, buffer.pages.length, true, page⟩ (history.disk.write (.slot _)) rfl
    · exact fun i hi _ => h.present i hi
    · exact h.indexed
    · simp only [Disk.write]
      omega
    · exact hnew
    · exact hfirst

/-- A crash while a new page is added. -/
theorem RecoverInv.insertPage_take (h : RecoverInv buffer.pages history.disk)
    (hheader : HeaderInv buffer history.disk) (hnew : ∀ p ∈ buffer.pages, p.key ≠ key)
    (hfirst : ∀ i < buffer.pages.length, ∀ copy, history.disk.slots i = some copy →
      copy.page.Checked → copy.key ≠ key) {n : Nat}
    (hcounts : ∀ pageCnt, (buffer.insertPage key page).1[n]? = some (.header pageCnt) →
      pageCnt ≤ history.disk.pageCnt) :
    ∃ held, RecoverInv held (history.writeAll ((buffer.insertPage key page).1.take n)).disk := by
  by_cases hall : (buffer.insertPage key page).1.length ≤ n
  · rw [List.take_of_length_le hall]
    exact ⟨_, h.insertPage hheader hnew hfirst⟩
  · rw [writes_insertPage] at hall hcounts ⊢
    by_cases hraise : buffer.pageCnt < buffer.pages.length + 1
    · rw [if_pos hraise] at hall hcounts ⊢
      simp only [List.length_cons, List.length_nil] at hall
      obtain rfl | rfl : n = 0 ∨ n = 1 := by omega
      · exact ⟨_, h⟩
      · have hle := hcounts _ rfl
        exact ⟨_, h.insert ⟨key, buffer.pages.length, true, page⟩ (history.disk.write (.slot _)) rfl
          (fun i hi _ => h.present i hi) h.indexed hle hnew hfirst⟩
    · rw [if_neg hraise] at hall hcounts ⊢
      simp only [List.length_cons, List.length_nil] at hall
      obtain rfl : n = 0 := by omega
      exact ⟨_, h⟩

theorem RecoverInv.addPage (h : RecoverInv buffer.pages history.disk)
    (hheader : HeaderInv buffer history.disk) (order : HashOrder)
    (hfirst : (∃ p ∈ buffer.pages, p.key = key) ∨ ∀ i < buffer.pages.length, ∀ copy,
      history.disk.slots i = some copy → copy.page.Checked → copy.key ≠ key) :
    (∀ n, (∀ pageCnt, (buffer.addPage key page order).1[n]? = some (.header pageCnt) →
        pageCnt ≤ history.disk.pageCnt) →
      ∃ held, RecoverInv held (history.writeAll ((buffer.addPage key page order).1.take n)).disk) ∧
      RecoverInv (buffer.addPage key page order).2.pages
        (history.writeAll (buffer.addPage key page order).1).disk := by
  rcases addPage_cases buffer key page order with
    ⟨held, hheld, rfl, heq⟩ | ⟨hnew, hfull, heq⟩ | ⟨hnew, hroom, heq⟩
  · rw [heq]
    have hafter := h.update hheld page
    have halong : Along DiskHistory.write (fun d => ∃ held, RecoverInv held d.disk) history
        (buffer.updatePage held page).1 := Along.cons ⟨_, h⟩ (Along.nil ⟨_, hafter⟩)
    exact ⟨fun n _ => halong.take n, hafter⟩
  · have hfirst := hfirst.resolve_left fun ⟨p, hp, hkey⟩ => hnew p hp hkey
    have hinsert : RecoverInv (buffer.insertPage key page).2.pages _ :=
      h.insertPage hheader hnew hfirst
    have hflush := RecoverInv.writesBack.flushPage hinsert (hheader.insertPage key page).valid order
    rw [heq]
    simp only [DiskHistory.writeAll_append]
    refine ⟨fun n hcounts => ?_, hflush.2⟩
    -- The crash comes while the page is inserted or while the buffer is flushed.
    by_cases hn : n < (buffer.insertPage key page).1.length
    · rw [List.take_append_of_le_length (Nat.le_of_lt hn)]
      apply h.insertPage_take hheader hnew hfirst
      intro pageCnt hget
      apply hcounts
      rw [List.getElem?_append_left hn, hget]
    · rw [List.take_append, List.take_of_length_le (Nat.not_lt.mp hn), DiskHistory.writeAll_append]
      exact hflush.1.take _
  · have hfirst := hfirst.resolve_left fun ⟨p, hp, hkey⟩ => hnew p hp hkey
    rw [heq]
    exact ⟨fun n hcounts => h.insertPage_take hheader hnew hfirst hcounts,
      h.insertPage hheader hnew hfirst⟩

end Calls

/-- A call in which no earlier slot has a copy of a new page can be cut short by a crash, unless
the slot is not counted yet. -/
theorem RecoverInv.call {s : DoubleWriteState} (h : RecoverInv s.buffer.pages s.history.disk)
    (hheader : HeaderInv s.buffer s.history.disk) {call : DoubleWriteCall}
    (hfirst : NoEarlierCopy s call) :
    (∀ n, CountsSlots s call n → ∃ held, RecoverInv held (s.crash call n).disk) ∧
      RecoverInv (s.step call).buffer.pages (s.step call).history.disk := by
  have hdisk := DiskHistory.disk_hand s.history call
  unfold DoubleWriteState.crash DoubleWriteState.step CountsSlots
  rw [← hdisk] at h hheader ⊢
  cases call with
  | addPage key page order =>
    apply h.addPage hheader order
    rw [hdisk]
    exact hfirst
  | flushPage order =>
    obtain ⟨halong, hrest⟩ := RecoverInv.writesBack.flushPage h hheader.valid order
    exact ⟨fun n _ => halong.take n, hrest⟩
  | clearPages bufferPoolId =>
    obtain ⟨halong, hrest⟩ := RecoverInv.writesBack.clearPages h hheader.valid bufferPoolId
    exact ⟨fun n _ => halong.take n, hrest⟩
  | writePage key page =>
    have hafter := h.write_page key page
    have halong : Along DiskHistory.write (fun d => ∃ held, RecoverInv held d.disk)
        (s.history.hand (.writePage key page)) [.page key page] :=
      Along.cons ⟨_, h⟩ (Along.nil ⟨_, hafter⟩)
    exact ⟨fun n _ => halong.take n, hafter⟩

theorem recoverInv_of_runs {maxPages : Int} {files : Int → List Page}
    {calls : List DoubleWriteCall} (h : ∀ done call, done ++ [call] <+: calls →
      NoEarlierCopy (runs (create maxPages files) done) call) :
    RecoverInv (runs (create maxPages files) calls).buffer.pages
      (runs (create maxPages files) calls).history.disk := by
  induction calls using List.reverseRecOn with
  | nil => constructor <;> simp [runs, create]
  | append_singleton calls call ih =>
    have hinv := ih fun done c hd => h done c (hd.trans (List.prefix_append _ _))
    rw [runs_append_singleton]
    exact (hinv.call (headerInv_runs _ _ _) (h calls call (List.prefix_refl _))).2

/-- **Recovery restores the newest copies** after a crash at any point of a run in which no page is
added behind an earlier copy of it, except between the write of a slot and that of the header. -/
theorem restoresNewest_of_runs (maxPages : Int) (files : Int → List Page)
    (calls : List DoubleWriteCall) (call : DoubleWriteCall) (n : Nat)
    (hfirst : ∀ done c, done ++ [c] <+: calls ++ [call] →
      NoEarlierCopy (runs (create maxPages files) done) c)
    (hcounts : CountsSlots (runs (create maxPages files) calls) call n) :
    RestoresNewest maxPages ((runs (create maxPages files) calls).crash call n) := by
  have hinv := recoverInv_of_runs fun done c hd =>
    hfirst done c (hd.trans (List.prefix_append _ _))
  obtain ⟨held, hheld⟩ :=
    (hinv.call (headerInv_runs _ _ _) (hfirst calls call (List.prefix_refl _))).1 n hcounts
  exact hheld.restoresNewest maxPages

/-- The second pool is being closed, too: the crash comes before its slot is marked. -/
theorem restoresNewest_of_runs_closing :
    RestoresNewest 16 ((runs (create 16 fun _ => []) shadowedCalls).crash (.clearPages 2) 1) := by
  apply restoresNewest_of_runs
  · intro done call hpre
    rcases shadowedCalls_prefix hpre with ⟨rfl, rfl⟩ | ⟨rfl, rfl⟩ | ⟨bufferPoolId, rfl⟩
    · exact .inr fun i hi => absurd hi (Nat.not_lt_zero i)
    · refine .inr fun i hi copy hcopy _ => ?_
      obtain rfl : i = 0 := Nat.lt_one_iff.mp hi
      obtain rfl := Option.some.inj hcopy
      decide
    · trivial
  · intro pageCnt hget
    have hmem := List.mem_of_getElem? hget
    simp [DoubleWriteCall.run, clearPages] at hmem

/-! ## A shadowed copy -/

/-- The crash comes when the page of the first pool has been added again. -/
def shadowedCrash : DiskHistory :=
  (runs (create 16 fun _ => []) shadowedCalls).crash
    (.addPage ⟨1, 1⟩ (zeroImage 3) HashOrder.unchanged) 1

theorem shadowedCrash_eq : shadowedCrash.disk.pageCnt = 2 ∧
    shadowedCrash.disk.slots = (fun i =>
      if i = 1 then some ⟨⟨1, 1⟩, 1, true, zeroImage 3⟩
      else if i = 0 then some ⟨⟨1, 1⟩, 0, false, zeroImage 1⟩ else none) ∧
    shadowedCrash.disk.readPage ⟨1, 1⟩ = some (zeroImage 1) ∧
    shadowedCrash.writtenAt = (fun i => if i = 1 then 3 else if i = 0 then 2 else 0) := by
  have hspec : specPages ⟨16, 2, [⟨⟨1, 1⟩, 0, true, zeroImage 1⟩, ⟨⟨2, 1⟩, 1, true, zeroImage 2⟩]⟩ 1 =
      [⟨⟨1, 1⟩, 0, true, zeroImage 1⟩] := by
    simp [specPages]
  have hcrash : shadowedCrash = (((runs (create 16 fun _ => [])
      (shadowedCalls.take 2)).history.writeAll [.page ⟨1, 1⟩ (zeroImage 1),
        .slot ⟨⟨1, 1⟩, 0, false, zeroImage 1⟩]).hand (.addPage ⟨1, 1⟩ (zeroImage 3)
          HashOrder.unchanged)).write (.slot ⟨⟨1, 1⟩, 1, true, zeroImage 3⟩) := by
    simp [shadowedCrash, shadowedCalls, runs, step, create, DoubleWriteCall.run, addPage, find,
      insertPage, clearPages, hspec, crash]
    rfl
  rw [hcrash]
  refine ⟨rfl, ?_, rfl, ?_⟩
  · funext i
    by_cases h1 : i = 1
    · rw [h1]
      rfl
    · by_cases h0 : i = 0
      · rw [h0]
        rfl
      · simp [h0, h1, DiskHistory.hand, DiskHistory.writeAll, DiskHistory.write, Disk.write, runs,
          shadowedCalls, create, step, DoubleWriteCall.run, addPage, find, insertPage]
  · funext i
    by_cases h1 : i = 1
    · rw [h1]
      rfl
    · by_cases h0 : i = 0
      · rw [h0]
        rfl
      · simp [h0, h1, DiskHistory.hand, DiskHistory.writeAll, DiskHistory.write, Disk.write, runs,
          shadowedCalls, create, step, DoubleWriteCall.run, addPage, find, insertPage]

/-- The invalid copy in the first slot is loaded in place of the valid one behind it. -/
theorem shadowed_not_restored : ¬ RestoresNewest 16 shadowedCrash := by
  obtain ⟨hcnt, hslots, hread, hwritten⟩ := shadowedCrash_eq
  generalize shadowedCrash = history at hcnt hslots hread hwritten ⊢
  rintro ⟨buffer, hload, hrestored⟩
  have hfirst : history.disk.slots 0 = some ⟨⟨1, 1⟩, 0, false, zeroImage 1⟩ := by
    rw [hslots]
    rfl
  have hsecond : history.disk.slots 1 = some ⟨⟨1, 1⟩, 1, true, zeroImage 3⟩ := by
    rw [hslots]
    rfl
  have hpages : loadPages 16 history.disk =
      .ok ⟨16, 2, [⟨⟨1, 1⟩, 0, false, zeroImage 1⟩]⟩ := by
    have hslots : loadSlots history.disk (List.range history.disk.pageCnt) [] =
        .ok [⟨⟨1, 1⟩, 0, false, zeroImage 1⟩] := by
      rw [hcnt]
      exact loadSlots_first hfirst hsecond (checked_zeroImage 1) rfl
    rw [loadPages_eq hslots, hcnt]
  obtain rfl := Except.ok.inj (hpages.symm.trans hload)
  have hnewest : history.NewestCopy 1 ⟨⟨1, 1⟩, 1, true, zeroImage 3⟩ := by
    refine ⟨hsecond, fun j other hother _ => ?_⟩
    rw [hwritten]
    simp only
    split_ifs <;> omega
  -- The only write of the recovery marks the slot of the invalid copy.
  have hafter : history.disk.readPage ⟨1, 1⟩ = some (zeroImage 3) :=
    hrestored HashOrder.unchanged 1 _ hnewest rfl (checked_zeroImage 3)
  rw [hread] at hafter
  have hlsn : 1 = 3 := congrArg Page.lsn (Option.some.inj hafter)
  cases hlsn

end ObHtap
