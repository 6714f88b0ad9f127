import ObHtap.Clog.LogFile
import Mathlib.Data.List.Basic
import Mathlib.Data.List.TakeWhile

/-!
# The files of the log

A log file is named after the first log sequence number that it may hold, and it may hold a fixed
number of entries.  The manager finds the files of a directory again by their names.
-/

namespace ObHtap.Clog

abbrev Filename := List Char

/-! ## Names -/

/-- `std::to_string`. -/
def toChars (n : Int) : List Char :=
  if n < 0 then '-' :: Nat.toDigits 10 n.natAbs else Nat.toDigits 10 n.natAbs

/-- `std::from_chars` for `int64_t`: what follows the digits is not looked at. -/
def fromChars (chars : List Char) : Option Int :=
  let negative := chars.head? = some '-'
  let digits := (if negative then chars.drop 1 else chars).takeWhile Char.isDigit
  let value : Int := Nat.ofDigitChars 10 digits 0
  let value := if negative then -value else value
  if digits = [] ∨ value < -2 ^ 63 ∨ 2 ^ 63 ≤ value then none else some value

def filePrefix : Filename := ['c', 'l', 'o', 'g', '_']

def fileSuffix : Filename := ['.', 'l', 'o', 'g']

/-- The name that `next_file` puts together. -/
def filename (lsn : Int) : Filename := filePrefix ++ (toChars lsn ++ fileSuffix)

/-- `get_lsn_from_filename`. -/
def lsnFromFilename (name : Filename) : Option Int :=
  if filePrefix.isPrefixOf name ∧ fileSuffix.isSuffixOf name then
    fromChars ((name.drop filePrefix.length).take
      (name.length - fileSuffix.length - filePrefix.length))
  else none

theorem fromChars_toChars {n : Int} (h0 : 0 ≤ n) (h : n < 2 ^ 63) :
    fromChars (toChars n) = some n := by
  have hdigits : ∀ c ∈ Nat.toDigits 10 n.natAbs, c.isDigit = true :=
    fun c hc => Nat.isDigit_of_mem_toDigits (by decide) (by decide) hc
  have htake : (Nat.toDigits 10 n.natAbs).takeWhile Char.isDigit = Nat.toDigits 10 n.natAbs :=
    List.takeWhile_eq_self_iff.mpr hdigits
  have hhead : ¬ (Nat.toDigits 10 n.natAbs).head? = some '-' := by
    intro hc
    have hisDigit := hdigits '-' (List.mem_of_mem_head? hc)
    revert hisDigit
    decide
  have hchars : toChars n = Nat.toDigits 10 n.natAbs := if_neg (by omega)
  unfold fromChars
  simp only [hchars, hhead, if_false, htake, Nat.ofDigitChars_ten_toDigits,
    Int.natAbs_of_nonneg h0, Nat.toDigits_ne_nil, false_or]
  exact if_neg (by omega)

theorem lsnFromFilename_filename {lsn : Int} (h0 : 0 ≤ lsn) (h : lsn < 2 ^ 63) :
    lsnFromFilename (filename lsn) = some lsn := by
  have hpre : filePrefix.isPrefixOf (filename lsn) = true :=
    List.isPrefixOf_iff_prefix.mpr (List.prefix_append _ _)
  have hsuffix : fileSuffix.isSuffixOf (filename lsn) = true :=
    List.isSuffixOf_iff_suffix.mpr
      ((List.suffix_append _ _).trans (List.suffix_append _ _))
  unfold lsnFromFilename
  rw [if_pos ⟨hpre, hsuffix⟩]
  have hmid : ((filename lsn).drop filePrefix.length).take
      ((filename lsn).length - fileSuffix.length - filePrefix.length) = toChars lsn := by
    rw [filename, List.drop_left, List.length_append, List.length_append]
    apply List.take_left'
    omega
  rw [hmid, fromChars_toChars h0 h]

/-! ## `LogFileManager` -/

/-- `max_entry_number_per_file` of `DiskLogHandler::init`. -/
def maxEntryNumberPerFile : Int := 1000

/-- `LogFileManager` with the bytes of the files in its directory.  `log_files_` is a map: it is
kept sorted by the first LSN. -/
structure LogFileManager where
  directory : Filename → Option (List UInt8)
  logFiles : List (Int × Filename)

/-- `map::emplace`: a key that is there keeps its value. -/
def emplace (lsn : Int) (name : Filename) : List (Int × Filename) → List (Int × Filename)
  | [] => [(lsn, name)]
  | file :: files =>
    if lsn < file.1 then (lsn, name) :: file :: files
    else if lsn = file.1 then file :: files
    else file :: emplace lsn name files

section Emplace

variable {lsn : Int} {name : Filename} {files : List (Int × Filename)}

theorem emplace_perm (h : ∀ file ∈ files, file.1 ≠ lsn) :
    (emplace lsn name files).Perm ((lsn, name) :: files) := by
  induction files with
  | nil => exact List.Perm.refl _
  | cons file files ih =>
    have hne := h file List.mem_cons_self
    rw [emplace]
    split_ifs with hlt heq
    · exact List.Perm.refl _
    · exact absurd heq.symm hne
    · apply (List.Perm.cons file (ih fun f hf => h f (List.mem_cons_of_mem _ hf))).trans
      exact List.Perm.swap _ _ _

theorem emplace_sorted (hne : ∀ file ∈ files, file.1 ≠ lsn)
    (h : files.Pairwise fun a b => a.1 < b.1) :
    (emplace lsn name files).Pairwise fun a b => a.1 < b.1 := by
  induction files with
  | nil => exact List.pairwise_singleton _ _
  | cons file files ih =>
    obtain ⟨hfile, hfiles⟩ := List.pairwise_cons.mp h
    have hne' : ∀ f ∈ files, f.1 ≠ lsn := fun f hf => hne f (List.mem_cons_of_mem _ hf)
    rw [emplace]
    split_ifs with hlt heq
    · apply List.Pairwise.cons _ h
      intro f hf
      rcases List.mem_cons.mp hf with rfl | hf
      · exact hlt
      · exact Int.lt_trans hlt (hfile f hf)
    · exact h
    · apply List.Pairwise.cons _ (ih hne' hfiles)
      intro f hf
      rcases List.mem_cons.mp ((emplace_perm hne').mem_iff.mp hf) with rfl | hf
      · show file.1 < lsn
        omega
      · exact hfile f hf

theorem emplace_last (h : ∀ file ∈ files, file.1 < lsn) :
    emplace lsn name files = files ++ [(lsn, name)] := by
  induction files with
  | nil => rfl
  | cons file files ih =>
    have hlt := h file List.mem_cons_self
    rw [emplace, if_neg (Int.not_lt.mpr (Int.le_of_lt hlt)), if_neg (Int.ne_of_gt hlt),
      ih fun f hf => h f (List.mem_cons_of_mem _ hf)]
    rfl

end Emplace

namespace LogFileManager

/-- The loop of `init` over the files of the directory. -/
def init.foldFiles (files : List (Int × Filename)) (listing : List Filename) :
    List (Int × Filename) :=
  listing.foldl (fun files name =>
    match lsnFromFilename name with
    | none => files
    | some lsn => emplace lsn name files) files

/-- `init` on a directory with these files, in the order in which they are listed. -/
def init (directory : Filename → Option (List UInt8)) (listing : List Filename) :
    LogFileManager :=
  ⟨directory, init.foldFiles [] listing⟩

/-- The files are named after their first LSNs, and these go up. -/
structure Named (files : List (Int × Filename)) : Prop where
  sorted : files.Pairwise fun a b => a.1 < b.1
  name : ∀ file ∈ files, file.2 = filename file.1
  bound : ∀ file ∈ files, 0 ≤ file.1 ∧ file.1 < 2 ^ 63

theorem Named.lsnFromFilename {files : List (Int × Filename)} (h : Named files)
    {file : Int × Filename} (hmem : file ∈ files) : lsnFromFilename file.2 = some file.1 := by
  rw [h.name file hmem]
  exact lsnFromFilename_filename (h.bound file hmem).1 (h.bound file hmem).2

theorem Named.nodup {files : List (Int × Filename)} (h : Named files) :
    (files.map Prod.snd).Nodup := by
  apply List.pairwise_map.mpr
  apply h.sorted.imp_of_mem
  intro a b ha hb hlt hname
  have hlsn := h.lsnFromFilename ha
  rw [hname, h.lsnFromFilename hb] at hlsn
  exact Int.ne_of_lt hlt (Option.some.inj hlsn).symm

theorem foldl_emplace {files acc : List (Int × Filename)}
    (hname : ∀ file ∈ files, Clog.lsnFromFilename file.2 = some file.1)
    (hnodup : ((acc ++ files).map Prod.fst).Nodup)
    (hacc : acc.Pairwise fun a b => a.1 < b.1) :
    ((init.foldFiles acc (files.map Prod.snd)).Perm (acc ++ files)) ∧
      (init.foldFiles acc (files.map Prod.snd)).Pairwise fun a b => a.1 < b.1 := by
  induction files generalizing acc with
  | nil => simpa [init.foldFiles] using hacc
  | cons file files ih =>
    have hfresh : ∀ f ∈ acc, f.1 ≠ file.1 := by
      intro f hf hc
      rw [List.map_append, List.map_cons, List.nodup_append] at hnodup
      exact hnodup.2.2 f.1 (List.mem_map_of_mem hf) file.1 List.mem_cons_self hc
    have hperm : (emplace file.1 file.2 acc ++ files).Perm (acc ++ file :: files) :=
      ((emplace_perm hfresh).append_right files).trans List.perm_middle.symm
    have hfold : init.foldFiles acc ((file :: files).map Prod.snd) =
        init.foldFiles (emplace file.1 file.2 acc) (files.map Prod.snd) := by
      simp only [init.foldFiles, List.map_cons, List.foldl_cons, hname file List.mem_cons_self]
    rw [hfold]
    obtain ⟨hp, hs⟩ := ih (fun f hf => hname f (List.mem_cons_of_mem _ hf))
      ((hperm.map Prod.fst).nodup_iff.mpr hnodup) (emplace_sorted hfresh hacc)
    exact ⟨hp.trans hperm, hs⟩

/-- In whatever order the directory is listed, the manager finds its files again. -/
theorem Named.init {files : List (Int × Filename)} (h : Named files)
    {directory : Filename → Option (List UInt8)} {listing : List Filename}
    (hperm : listing.Perm (files.map Prod.snd)) :
    (LogFileManager.init directory listing).logFiles = files := by
  let found := listing.map fun name => ((Clog.lsnFromFilename name).getD 0, name)
  have hfound : found.Perm files := by
    have hmap : (files.map Prod.snd).map (fun name => ((Clog.lsnFromFilename name).getD 0, name)) =
        files.map id := by
      rw [List.map_map]
      apply List.map_congr_left
      intro file hmem
      rw [Function.comp_apply, h.lsnFromFilename hmem]
      rfl
    rw [List.map_id] at hmap
    exact hmap ▸ hperm.map _
  have hlisting : found.map Prod.snd = listing := by
    rw [List.map_map]
    exact List.map_id listing
  have hlsn : ∀ file ∈ found, Clog.lsnFromFilename file.2 = some file.1 :=
    fun file hmem => h.lsnFromFilename (hfound.mem_iff.mp hmem)
  have hnodup : (([] ++ found).map Prod.fst).Nodup := by
    apply (hfound.map Prod.fst).nodup_iff.mpr
    exact List.pairwise_map.mpr (h.sorted.imp Int.ne_of_lt)
  obtain ⟨hp, hs⟩ := foldl_emplace hlsn hnodup List.Pairwise.nil
  rw [hlisting] at hp hs
  apply List.Perm.eq_of_pairwise _ hs h.sorted (hp.trans hfound)
  intro a b _ _ hab hba
  exact absurd (Int.lt_trans hab hba) (Int.lt_irrefl _)

/-- `list_files`. -/
def listFiles (manager : LogFileManager) (startLsn : Int64) : List Filename :=
  (manager.logFiles.filter fun file =>
    startLsn.toInt ≤ file.1 + maxEntryNumberPerFile - 1).map Prod.snd

end LogFileManager

end ObHtap.Clog
