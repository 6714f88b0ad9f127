import ObHtap.Clog.DiskLogHandler
import Mathlib.Data.List.Forall2
import Mathlib.Data.List.Induction

/-!
# Runs of the log handler

The invariant of the runs: the files in the order of their names hold the flushed entries in the
order of their numbers, which go on through the entry in hand and the buffer.
-/

namespace ObHtap.Clog

open DiskLogHandler

/-! ## Numbers -/

/-- The entries have the numbers from 1 on. -/
def Numbered (entries : List LogEntry) : Prop :=
  entries.map LogEntry.lsn = (List.range entries.length).map fun i => Int64.ofNat (i + 1)

section Numbered

variable {entries rest : List LogEntry} {entry : LogEntry}

theorem numbered_append_singleton :
    Numbered (entries ++ [entry]) ↔
      Numbered entries ∧ entry.lsn = Int64.ofNat (entries.length + 1) := by
  unfold Numbered
  rw [List.length_append, List.length_singleton, List.range_succ, List.map_append, List.map_append]
  constructor
  · intro h
    obtain ⟨hentries, hentry⟩ := List.append_inj h (by simp)
    exact ⟨hentries, (List.cons.inj hentry).1⟩
  · rintro ⟨hentries, hentry⟩
    rw [hentries, List.map_singleton, List.map_singleton, hentry]

theorem Numbered.prefix (h : Numbered (entries ++ rest)) : Numbered entries := by
  unfold Numbered at h ⊢
  rw [List.length_append, List.range_add, List.map_append, List.map_append] at h
  exact (List.append_inj h (by simp)).1

theorem Numbered.toInt (h : Numbered entries) (hshort : entries.length < 2 ^ 31) :
    entries.map (fun entry => entry.lsn.toInt) =
      (List.range entries.length).map fun i : Nat => (i : Int) + 1 := by
  have hmap := congrArg (List.map Int64.toInt) h
  rw [List.map_map, List.map_map] at hmap
  apply hmap.trans
  apply List.map_congr_left
  intro i hi
  have hlt := List.mem_range.mp hi
  exact Int64.toInt_ofNat_of_lt (by omega)

theorem Numbered.pos (h : Numbered entries) (hshort : entries.length < 2 ^ 31)
    (hmem : entry ∈ entries) : 0 < entry.lsn.toInt := by
  have hlsn : entry.lsn.toInt ∈ entries.map fun entry => entry.lsn.toInt :=
    List.mem_map_of_mem hmem
  rw [h.toInt hshort] at hlsn
  obtain ⟨i, -, hi⟩ := List.mem_map.mp hlsn
  omega

theorem Numbered.sorted (h : Numbered entries) (hshort : entries.length < 2 ^ 31) :
    entries.Pairwise fun a b => a.lsn.toInt < b.lsn.toInt := by
  have hmap : (entries.map fun entry => entry.lsn.toInt).Pairwise (· < ·) := by
    rw [h.toInt hshort]
    apply List.pairwise_map.mpr
    apply List.pairwise_lt_range.imp
    intro i j hij
    omega
  exact List.pairwise_map.mp hmap

theorem Numbered.maxLsn (h : Numbered entries) (hshort : entries.length < 2 ^ 31) :
    maxLsn entries = Int64.ofNat entries.length := by
  induction entries using List.reverseRecOn with
  | nil => rfl
  | append_singleton entries entry ih =>
    obtain ⟨hentries, hentry⟩ := numbered_append_singleton.mp h
    rw [List.length_append, List.length_singleton] at hshort ⊢
    have hmax := ih hentries (by omega)
    unfold DiskLogHandler.maxLsn at hmax ⊢
    rw [List.foldl_append, hmax, List.foldl_cons, List.foldl_nil, hentry,
      Int64.toInt_ofNat_of_lt (by omega), Int64.toInt_ofNat_of_lt (by omega), if_pos (by omega)]

end Numbered

/-! ## The invariant -/

/-- The file holds these entries, and none of them has a number above its range. -/
def Stored (directory : Filename → Option (List UInt8)) (file : Int × Filename)
    (entries : List LogEntry) : Prop :=
  directory file.2 = some (logBytes entries) ∧
    ∀ entry ∈ entries, entry.lsn.toInt ≤ file.1 + maxEntryNumberPerFile - 1

/-- `contents` are the entries of the files. -/
structure LogInv (s : LogState) (contents : List (List LogEntry)) : Prop where
  named : LogFileManager.Named s.handler.manager.logFiles
  stored : List.Forall₂ (Stored s.handler.manager.directory) s.handler.manager.logFiles contents
  listed : ∀ name, (s.handler.manager.directory name).isSome ↔
    name ∈ s.handler.manager.logFiles.map Prod.snd
  flushed : contents.flatten = s.flushed
  numbered : Numbered (s.flushed ++ (s.handler.hand.toList ++ s.handler.entries))
  short : s.flushed.length < 2 ^ 31
  current : s.handler.currentLsn =
    Int64.ofNat (s.flushed ++ (s.handler.hand.toList ++ s.handler.entries)).length
  complete : s.kept ++ s.appended = s.flushed ++ (s.handler.hand.toList ++ s.handler.entries)
  writer : ∀ writer, s.handler.writer = some writer → ∃ older lsn,
    s.handler.manager.logFiles = older ++ [(lsn, writer.filename)] ∧
      writer.endLsn = Int32.ofInt (lsn + maxEntryNumberPerFile - 1)

theorem dropWhile_of_sorted {entries : List LogEntry} (startLsn : Int64)
    (h : entries.Pairwise fun a b => a.lsn.toInt < b.lsn.toInt) :
    (entries.dropWhile fun entry => entry.lsn.toInt < startLsn.toInt) =
      entries.filter fun entry => startLsn.toInt ≤ entry.lsn.toInt := by
  induction entries with
  | nil => rfl
  | cons entry entries ih =>
    obtain ⟨hentry, hentries⟩ := List.pairwise_cons.mp h
    by_cases hlt : entry.lsn.toInt < startLsn.toInt
    · rw [List.dropWhile_cons_of_pos (by simpa using hlt), ih hentries,
        List.filter_cons_of_neg (by simpa using hlt)]
    · rw [List.dropWhile_cons_of_neg (by simpa using hlt), eq_comm]
      apply List.filter_eq_self.mpr
      intro e he
      rw [decide_eq_true_eq]
      rcases List.mem_cons.mp he with rfl | he
      · omega
      · have := hentry e he
        omega

/-- The files that `list_files` leaves out hold no entry from the start on. -/
theorem iterateFiles_of_stored {directory : Filename → Option (List UInt8)}
    {files : List (Int × Filename)} {contents : List (List LogEntry)}
    (h : List.Forall₂ (Stored directory) files contents) (startLsn : Int64)
    (hsorted : contents.flatten.Pairwise fun a b => a.lsn.toInt < b.lsn.toInt) :
    iterateFiles directory startLsn ((files.filter fun file =>
        startLsn.toInt ≤ file.1 + maxEntryNumberPerFile - 1).map Prod.snd) =
      (contents.flatten.filter fun entry => startLsn.toInt ≤ entry.lsn.toInt, .ok ()) := by
  induction h with
  | nil => rfl
  | @cons file entries files contents hfile _ ih =>
    rw [List.flatten_cons, List.pairwise_append] at hsorted
    have hrest := ih hsorted.2.1
    rw [List.flatten_cons, List.filter_append]
    by_cases hin : startLsn.toInt ≤ file.1 + maxEntryNumberPerFile - 1
    · rw [List.filter_cons_of_pos (by simpa using hin), List.map_cons, iterateFiles, hfile.1]
      simp only [LogFileReader.iterate_logBytes, dropWhile_of_sorted startLsn hsorted.1, hrest]
    · have hnone : (entries.filter fun entry => startLsn.toInt ≤ entry.lsn.toInt) = [] := by
        apply List.filter_eq_nil_iff.mpr
        intro entry hentry
        have := hfile.2 entry hentry
        rw [decide_eq_true_eq]
        omega
      rw [List.filter_cons_of_neg (by simpa using hin), hnone, List.nil_append]
      exact hrest

theorem forall₂_of_append_singleton {α β : Type} {R : α → β → Prop} {l : List α} {a : α}
    {m : List β} (h : List.Forall₂ R (l ++ [a]) m) :
    ∃ m' b, m = m' ++ [b] ∧ List.Forall₂ R l m' ∧ R a b := by
  induction l generalizing m with
  | nil =>
    obtain _ | ⟨hab, hnil⟩ := h
    cases hnil
    exact ⟨[], _, rfl, List.Forall₂.nil, hab⟩
  | cons c l ih =>
    obtain _ | ⟨hc, hrest⟩ := h
    obtain ⟨m', b, rfl, hl, hab⟩ := ih hrest
    exact ⟨_ :: m', b, rfl, List.Forall₂.cons hc hl, hab⟩

namespace LogInv

variable {s : LogState} {contents : List (List LogEntry)}

theorem iterate (h : LogInv s contents) (startLsn : Int64) : s.handler.iterate startLsn =
    (s.flushed.filter fun entry => startLsn.toInt ≤ entry.lsn.toInt, .ok ()) := by
  have hsorted := h.numbered.prefix.sorted h.short
  rw [← h.flushed] at hsorted ⊢
  exact iterateFiles_of_stored h.stored startLsn hsorted

/-- A new process has the same files and goes on with the next number. -/
theorem start (h : LogInv s contents) {listing : List Filename}
    (hlists : Lists listing s.handler.manager.directory) :
    DiskLogHandler.start s.handler.manager.directory listing = some
      ⟨s.handler.manager, [], Int64.ofNat s.flushed.length, Int64.ofNat s.flushed.length, none, none,
        false⟩ := by
  have hperm : listing.Perm (s.handler.manager.logFiles.map Prod.snd) := by
    apply (List.perm_ext_iff_of_nodup hlists.nodup h.named.nodup).mpr
    intro name
    rw [hlists.mem_iff, h.listed]
  have hmanager : LogFileManager.init s.handler.manager.directory listing = s.handler.manager := by
    have hfiles : (LogFileManager.init s.handler.manager.directory listing).logFiles =
        s.handler.manager.logFiles := h.named.init hperm
    exact congrArg (LogFileManager.mk s.handler.manager.directory) hfiles
  have hiter : DiskLogHandler.iterate ⟨s.handler.manager, [], 0, 0, none, none, false⟩ 0 =
      (s.flushed, .ok ()) := by
    apply (h.iterate 0).trans
    rw [Int64.toInt_zero]
    congr 1
    apply List.filter_eq_self.mpr
    intro entry hmem
    have := h.numbered.prefix.pos h.short hmem
    rw [decide_eq_true_eq]
    omega
  unfold DiskLogHandler.start
  rw [hmanager]
  simp only [hiter, h.numbered.prefix.maxLsn h.short]

theorem restart (h : LogInv s contents) {listing : List Filename} {handler : DiskLogHandler}
    (hlists : Lists listing s.handler.manager.directory)
    (hstart : DiskLogHandler.start s.handler.manager.directory listing = some handler) :
    LogInv ⟨handler, s.flushed, s.flushed, []⟩ contents := by
  obtain rfl := Option.some.inj ((h.start hlists).symm.trans hstart)
  have hnone : s.flushed ++ ((none : Option LogEntry).toList ++ []) = s.flushed := by simp
  exact
    { named := h.named
      stored := h.stored
      listed := h.listed
      flushed := h.flushed
      numbered := by
        rw [hnone]
        exact h.numbered.prefix
      short := h.short
      current := by rw [hnone]
      complete := by simp
      writer := fun writer hw => by cases hw }

theorem append (h : LogInv s contents) (moduleId : Int32) {data : List UInt8}
    (hsize : data.length ≤ maxPayloadSize) :
    LogInv { s with
      handler := (s.handler.append moduleId data).2
      appended := s.appended ++ [⟨s.handler.currentLsn + 1, moduleId, data, hsize⟩] } contents := by
  have hhandler : (s.handler.append moduleId data).2 = { s.handler with
      entries := s.handler.entries ++ [⟨s.handler.currentLsn + 1, moduleId, data, hsize⟩]
      currentLsn := s.handler.currentLsn + 1 } := by
    unfold DiskLogHandler.append
    rw [dif_pos hsize]
  have hnext : s.handler.currentLsn + 1 = Int64.ofNat
      ((s.flushed ++ (s.handler.hand.toList ++ s.handler.entries)).length + 1) := by
    rw [h.current, Int64.ofNat_add]
    rfl
  rw [hhandler]
  exact
    { named := h.named
      stored := h.stored
      listed := h.listed
      flushed := h.flushed
      numbered := by
        rw [← List.append_assoc s.handler.hand.toList, ← List.append_assoc s.flushed]
        exact numbered_append_singleton.mpr ⟨h.numbered, hnext⟩
      short := h.short
      current := by
        apply hnext.trans
        congr 1
        simp only [List.length_append, List.length_singleton]
        omega
      complete := by
        rw [← List.append_assoc, h.complete]
        simp only [List.append_assoc]
      writer := h.writer }

/-- The entry in hand is between those flushed and the buffer. -/
theorem of_hand (h : LogInv s contents) {hand : Option LogEntry} {entries : List LogEntry}
    {full : Bool} (hentries : hand.toList ++ entries = s.handler.hand.toList ++ s.handler.entries) :
    LogInv { s with handler := { s.handler with hand, entries, full } } contents :=
  { named := h.named
    stored := h.stored
    listed := h.listed
    flushed := h.flushed
    numbered := hentries ▸ h.numbered
    short := h.short
    current := by
      rw [hentries]
      exact h.current
    complete := hentries ▸ h.complete
    writer := h.writer }

theorem take (h : LogInv s contents) {handler : DiskLogHandler}
    (htake : s.handler.take = some handler) : LogInv { s with handler } contents := by
  unfold DiskLogHandler.take at htake
  split at htake
  · rename_i writer entry entries hhand hwriter hentries
    split_ifs at htake
    obtain rfl := Option.some.inj htake
    have hqueue : (some entry).toList ++ entries =
        s.handler.hand.toList ++ s.handler.entries := by
      rw [hhand, hentries]
      rfl
    exact h.of_hand hqueue
  · cases htake

/-! ## Files -/

theorem last_file (h : LogInv s contents) {writer : ThreadWriter}
    (hwriter : s.handler.writer = some writer) : ∃ older lsn old entries,
      s.handler.manager.logFiles = older ++ [(lsn, writer.filename)] ∧
      writer.endLsn = Int32.ofInt (lsn + maxEntryNumberPerFile - 1) ∧
      contents = old ++ [entries] ∧ List.Forall₂ (Stored s.handler.manager.directory) older old ∧
      Stored s.handler.manager.directory (lsn, writer.filename) entries := by
  obtain ⟨older, lsn, hfiles, hend⟩ := h.writer writer hwriter
  have hstored := h.stored
  rw [hfiles] at hstored
  obtain ⟨old, entries, hcontents, hold, hentries⟩ := forall₂_of_append_singleton hstored
  exact ⟨older, lsn, old, entries, hfiles, hend, hcontents, hold, hentries⟩

theorem stored_of_ne {directory : Filename → Option (List UInt8)} {older : List (Int × Filename)}
    {file : Int × Filename} {old : List (List LogEntry)} {bytes : Option (List UInt8)}
    (hnamed : LogFileManager.Named (older ++ [file]))
    (hold : List.Forall₂ (Stored directory) older old) :
    List.Forall₂ (Stored fun n => if n = file.2 then bytes else directory n) older old := by
  have hne : ∀ f ∈ older, f.2 ≠ file.2 := by
    have hnodup := hnamed.nodup
    rw [List.map_append, List.nodup_append] at hnodup
    intro f hf
    exact hnodup.2.2 f.2 (List.mem_map_of_mem hf) file.2 List.mem_cons_self
  apply ((List.forall₂_and_left older old).mpr ⟨hne, hold⟩).imp
  intro f entries hf
  rw [Stored, if_neg hf.1]
  exact hf.2

/-- The writer refuses what is above the range of its file. -/
theorem entry_bound (h : LogInv s contents) {entry : LogEntry} {lsn : Int} {endLsn : Int32}
    (hhand : s.handler.hand = some entry)
    (hend : endLsn = Int32.ofInt (lsn + maxEntryNumberPerFile - 1)) (hlsn : 0 ≤ lsn)
    (hle : entry.lsn.toInt ≤ endLsn.toInt) :
    entry.lsn.toInt ≤ lsn + maxEntryNumberPerFile - 1 ∧ s.flushed.length + 1 < 2 ^ 31 := by
  have hnumbered := h.numbered
  rw [hhand, Option.toList_some, List.singleton_append, List.append_cons] at hnumbered
  have hentry := (numbered_append_singleton.mp hnumbered.prefix).2
  have hshort := h.short
  have htoInt : entry.lsn.toInt = (s.flushed.length + 1 : Nat) := by
    rw [hentry]
    exact Int64.toInt_ofNat_of_lt (by omega)
  have hmax := endLsn.toInt_lt
  have hmod : endLsn.toInt ≤ lsn + maxEntryNumberPerFile - 1 := by
    unfold maxEntryNumberPerFile at hend ⊢
    rw [hend, Int32.toInt_ofInt, Int.bmod_def]
    unfold Int32.size
    split_ifs <;> omega
  omega

/-- The writer refuses what does not fit its 32 bits, so no number of the log is too large. -/
theorem write (h : LogInv s contents) {written : List LogEntry} {handler : DiskLogHandler}
    (hwrite : s.handler.write = some (written, handler)) :
    ∃ contents', LogInv { s with handler, flushed := s.flushed ++ written } contents' := by
  unfold DiskLogHandler.write at hwrite
  split at hwrite
  · rename_i entry writer hhand hwriter
    obtain ⟨older, lsn, old, entries, hfiles, hend, rfl, hold, hentries⟩ := h.last_file hwriter
    have hnamed := h.named
    rw [hfiles] at hnamed
    have hbound := hnamed.bound (lsn, writer.filename) (by simp)
    rw [hentries.1, Option.getD_some] at hwrite
    simp only at hwrite
    split at hwrite
    · rename_i writer' hok
      obtain ⟨rfl, rfl⟩ := Prod.mk.inj (Option.some.inj hwrite)
      unfold LogFileWriter.write at hok
      split_ifs at hok with hfull hlast
      obtain rfl := Except.ok.inj hok
      have hle := h.entry_bound hhand hend hbound.1 (Int.not_lt.mp hfull)
      refine ⟨old ++ [entries ++ [entry]], ?_⟩
      exact
        { named := h.named
          stored := by
            show List.Forall₂ _ s.handler.manager.logFiles _
            rw [hfiles]
            apply List.rel_append (stored_of_ne hnamed hold)
            apply List.Forall₂.cons _ List.Forall₂.nil
            constructor
            · simp only [if_pos, logBytes_append, logBytes_cons, logBytes_nil, List.append_nil,
                LogEntry.toBytes, List.append_assoc]
            · intro e he
              rcases List.mem_append.mp he with he | he
              · exact hentries.2 e he
              · rw [List.mem_singleton.mp he]
                exact hle.1
          listed := fun name => by
            rw [← h.listed]
            by_cases hname : name = writer.filename
            · rw [hname, hentries.1]
              simp
            · simp [hname]
          flushed := by
            rw [← h.flushed]
            simp
          numbered := by
            have hnumbered := h.numbered
            rw [hhand] at hnumbered
            simpa using hnumbered
          short := by
            rw [List.length_append, List.length_singleton]
            exact hle.2
          current := by
            have hcurrent := h.current
            rw [hhand] at hcurrent
            simpa using hcurrent
          complete := by
            have hcomplete := h.complete
            rw [hhand] at hcomplete
            simpa using hcomplete
          writer := fun w hw => by
            cases hw
            exact ⟨older, lsn, hfiles, hend⟩ }
    · rename_i rc _
      obtain ⟨rfl, rfl⟩ := Prod.mk.inj (Option.some.inj hwrite)
      rw [List.append_nil]
      exact ⟨_, h.of_hand (by rw [hhand]; rfl)⟩
  · cases hwrite

/-- A file that is new to the manager is new to the directory. -/
theorem filename_fresh (h : LogInv s contents) {lsn : Int}
    (hlt : ∀ file ∈ s.handler.manager.logFiles, file.1 < lsn) (hlsn : 0 ≤ lsn)
    (hbound : lsn < 2 ^ 63) : s.handler.manager.directory (filename lsn) = none := by
  apply Option.not_isSome_iff_eq_none.mp
  rw [h.listed]
  intro hmem
  obtain ⟨file, hfile, hname⟩ := List.mem_map.mp hmem
  have hkey := h.named.lsnFromFilename hfile
  rw [hname, lsnFromFilename_filename hlsn hbound] at hkey
  exact Int.ne_of_gt (hlt file hfile) (Option.some.inj hkey)

/-- The next file is empty and comes after all the others. -/
theorem open_next (h : LogInv s contents) {lsn : Int}
    (hlt : ∀ file ∈ s.handler.manager.logFiles, file.1 < lsn) (hlsn : 0 ≤ lsn)
    (hbound : lsn < 2 ^ 63) :
    LogInv { s with
      handler := openWriter { s.handler with manager := ⟨s.handler.manager.directory,
          emplace lsn (filename lsn) s.handler.manager.logFiles⟩ }
        (filename lsn) (lsn + maxEntryNumberPerFile - 1) } (contents ++ [[]]) := by
  have hfresh := h.filename_fresh hlt hlsn hbound
  have hfiles : emplace lsn (filename lsn) s.handler.manager.logFiles =
      s.handler.manager.logFiles ++ [(lsn, filename lsn)] := emplace_last hlt
  have hnamed : LogFileManager.Named (s.handler.manager.logFiles ++ [(lsn, filename lsn)]) :=
    { sorted := by
        apply List.pairwise_append.mpr
        refine ⟨h.named.sorted, List.pairwise_singleton _ _, ?_⟩
        intro file hfile next hnext
        rw [List.mem_singleton.mp hnext]
        exact hlt file hfile
      name := fun file hfile => by
        rcases List.mem_append.mp hfile with hfile | hfile
        · exact h.named.name file hfile
        · rw [List.mem_singleton.mp hfile]
      bound := fun file hfile => by
        rcases List.mem_append.mp hfile with hfile | hfile
        · exact h.named.bound file hfile
        · rw [List.mem_singleton.mp hfile]
          exact ⟨hlsn, hbound⟩ }
  unfold openWriter
  simp only [hfiles, hfresh, Option.getD_none]
  exact
    { named := hnamed
      stored := by
        apply List.rel_append (stored_of_ne hnamed h.stored)
        apply List.Forall₂.cons _ List.Forall₂.nil
        constructor
        · exact if_pos rfl
        · intro e he
          cases he
      listed := fun name => by
        rw [List.map_append, List.mem_append, ← h.listed]
        by_cases hname : name = filename lsn
        · simp [hname]
        · simp [hname]
      flushed := by
        rw [List.flatten_append, h.flushed]
        simp
      numbered := h.numbered
      short := h.short
      current := h.current
      complete := h.complete
      writer := fun w hw => by
        cases hw
        exact ⟨_, lsn, rfl, rfl⟩ }

theorem nextFile (h : LogInv s contents) {handler : DiskLogHandler}
    (hnext : s.handler.nextFile = some handler) :
    ∃ contents', LogInv { s with handler } contents' := by
  unfold DiskLogHandler.nextFile at hnext
  simp only at hnext
  split_ifs at hnext with hbound
  obtain rfl := Option.some.inj hnext
  split at hbound
  · rename_i hnone
    have hnil : s.handler.manager.logFiles = [] := List.getLast?_eq_none_iff.mp hnone
    exact ⟨contents ++ [[]], h.open_next (by simp [hnil]) (Int.le_refl 0) (by decide)⟩
  · rename_i file hfile
    obtain ⟨older, hfiles⟩ := List.getLast?_eq_some_iff.mp hfile
    have hfirst := (h.named.bound file (by simp [hfiles])).1
    have hsorted := h.named.sorted
    rw [hfiles, List.pairwise_append] at hsorted
    unfold maxEntryNumberPerFile at hbound
    refine ⟨contents ++ [[]], h.open_next ?_ ?_ ?_⟩
    · intro f hf
      rw [hfiles] at hf
      unfold maxEntryNumberPerFile
      rcases List.mem_append.mp hf with hf | hf
      · have := hsorted.2.2 f hf file List.mem_cons_self
        omega
      · rw [List.mem_singleton.mp hf]
        omega
    · unfold maxEntryNumberPerFile
      omega
    · unfold maxEntryNumberPerFile
      omega

theorem lastFile (h : LogInv s contents) {handler : DiskLogHandler}
    (hlast : s.handler.lastFile = some handler) :
    ∃ contents', LogInv { s with handler } contents' := by
  unfold DiskLogHandler.lastFile at hlast
  split at hlast
  · exact h.nextFile hlast
  · rename_i file hfile
    obtain rfl := Option.some.inj hlast
    obtain ⟨older, hfiles⟩ := List.getLast?_eq_some_iff.mp hfile
    have hstored := h.stored
    rw [hfiles] at hstored
    obtain ⟨old, entries, hcontents, hold, hentries⟩ := forall₂_of_append_singleton hstored
    have hdirectory : (fun n => if n = file.2 then some ((s.handler.manager.directory file.2).getD [])
        else s.handler.manager.directory n) = s.handler.manager.directory := by
      funext n
      split_ifs with hn
      · rw [hn, hentries.1]
        rfl
      · rfl
    unfold openWriter
    rw [hdirectory]
    exact ⟨contents,
      { named := h.named
        stored := h.stored
        listed := h.listed
        flushed := h.flushed
        numbered := h.numbered
        short := h.short
        current := h.current
        complete := h.complete
        writer := fun w hw => by
          cases hw
          exact ⟨older, file.1, hfiles, rfl⟩ }⟩

theorem openFile (h : LogInv s contents) {handler : DiskLogHandler}
    (hopen : s.handler.openFile = some handler) :
    ∃ contents', LogInv { s with handler } contents' := by
  unfold DiskLogHandler.openFile at hopen
  split_ifs at hopen
  · exact h.nextFile hopen
  · exact h.lastFile hopen
  · obtain rfl := Option.some.inj hopen
    exact ⟨contents, h⟩

end LogInv

/-! ## Runs -/

theorem logInv_create : LogInv LogState.create [] where
  named := ⟨List.Pairwise.nil, by simp [LogState.create], by simp [LogState.create]⟩
  stored := List.Forall₂.nil
  listed := by simp [LogState.create]
  flushed := rfl
  numbered := rfl
  short := by decide
  current := rfl
  complete := rfl
  writer := fun _ h => by cases h

theorem LogStep.inv {s s' : LogState} (step : LogStep s s')
    (h : ∃ contents, LogInv s contents) : ∃ contents, LogInv s' contents := by
  obtain ⟨contents, h⟩ := h
  cases step with
  | append moduleId data hsize => exact ⟨contents, h.append moduleId hsize⟩
  | openFile hopen => exact h.openFile hopen
  | take htake => exact ⟨contents, h.take htake⟩
  | write hwrite => exact h.write hwrite
  | restart hlists hstart => exact ⟨contents, h.restart hlists hstart⟩

theorem logInv_of_run {s : LogState} (run : Relation.ReflTransGen LogStep LogState.create s) :
    ∃ contents, LogInv s contents := by
  induction run with
  | refl => exact ⟨[], logInv_create⟩
  | tail _ step ih => exact step.inv ih

theorem LogInv.keepsFlushed {s : LogState} {contents : List (List LogEntry)}
    (h : LogInv s contents) : KeepsFlushed s where
  consecutive := h.numbered.prefix.toInt h.short
  iterated := h.iterate
  complete := h.complete
  restarts := fun listing hlists => by
    refine ⟨_, h.start hlists, fun moduleId data hsize => ?_⟩
    have hshort := h.short
    have hnext : Int64.ofNat s.flushed.length + 1 = Int64.ofNat (s.flushed.length + 1) :=
      (Int64.ofNat_add _ _).symm
    refine ⟨Int64.ofNat (s.flushed.length + 1), ?_, Int64.toInt_ofNat_of_lt (by omega)⟩
    unfold DiskLogHandler.append
    rw [dif_pos hsize, hnext]

/-- **Flushed entries stay**: in every run of appends, steps of the flushing thread and restarts the
log is what has been flushed, with the numbers from 1 on. -/
theorem keepsFlushed_of_run {s : LogState}
    (run : Relation.ReflTransGen LogStep LogState.create s) : KeepsFlushed s := by
  obtain ⟨contents, h⟩ := logInv_of_run run
  exact h.keepsFlushed

/-- An entry is flushed, the process ends and starts again, and another entry is flushed. -/
theorem keepsFlushed_of_run_restarted :
    ∃ s, s.flushed.map LogEntry.data = [[1], [2, 3]] ∧ KeepsFlushed s := by
  have happend := Relation.ReflTransGen.single
    (LogStep.append (s := LogState.create) 0 [1] (by decide))
  have hopen := happend.tail (LogStep.openFile rfl)
  have htake := hopen.tail (LogStep.take rfl)
  have hwrite := htake.tail (LogStep.write rfl)
  obtain ⟨s, hs, hrun, hdirectory⟩ : ∃ s : LogState, s.flushed.map LogEntry.data = [[1]] ∧
      Relation.ReflTransGen LogStep LogState.create s ∧
      s.handler.manager.directory = fun name =>
        if name = filename 0 then some (logBytes [⟨1, 0, [1], by decide⟩]) else none := by
    refine ⟨_, rfl, hwrite, funext fun name => ?_⟩
    by_cases hname : name = filename 0
    · subst hname
      rfl
    · simp only [if_neg hname]
      exact (if_neg hname).trans (if_neg hname)
  have hlists : Lists [filename 0] s.handler.manager.directory := by
    refine ⟨by simp, fun name => ?_⟩
    rw [hdirectory]
    by_cases hname : name = filename 0 <;> simp [hname]
  have hrestart := hrun.tail (LogStep.restart hlists (by rw [hdirectory]; rfl))
  have happend := hrestart.tail (LogStep.append 1 [2, 3] (by decide))
  have hopen := happend.tail (LogStep.openFile rfl)
  have htake := hopen.tail (LogStep.take rfl)
  have hwrite := htake.tail (LogStep.write rfl)
  refine ⟨_, ?_, keepsFlushed_of_run hwrite⟩
  exact (List.map_append).trans (congrArg (· ++ _) hs)

end ObHtap.Clog
