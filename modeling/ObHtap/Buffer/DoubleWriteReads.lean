import ObHtap.Buffer.DoubleWriteCalls

/-!
# Reads between loading and recovery

`load_pages` loads slots that are not valid any more, and `read_page` does not look at `valid`.
The file of a page may then be newer than the copy that is read in its place, unless the first
copy of a page among the slots that the header counts is always its newest one.
-/

namespace ObHtap

open DoubleWriteBuffer DoubleWriteState

/-- What is read before the recovery is the page of the file, or an image that has been handed to
the buffer since that page was written. -/
def ReadsFresh (maxPages : Int) (history : DiskHistory) : Prop :=
  ∀ buffer, loadPages maxPages history.disk = .ok buffer →
    ∀ key page, loadPage buffer history.disk key = .ok page →
      history.disk.readPage key = some page ∨ page ∈ history.newer key

/-- The slot is counted by the header and has a copy of the page. -/
def Disk.HasCopy (disk : Disk) (key : DoubleWritePageKey) (i : Nat) : Prop :=
  i < disk.pageCnt ∧ ∃ copy, disk.slots i = some copy ∧ copy.key = key

/-- What a copy of the page `key` in slot `n` may overwrite: nothing that shows an older copy of
this page or of another one. -/
structure KeepsFirst (held : List DoubleWritePage) (disk : Disk) (key : DoubleWritePageKey)
    (n : Nat) : Prop where
  before : ∀ i < n, ¬ disk.HasCopy key i
  exposed : ∀ other ≠ key, disk.HasCopy other n →
    (∃ i < n, disk.HasCopy other i) ∨ ∀ i > n, ¬ disk.HasCopy other i
  shared : ∀ p ∈ held, p.pageIndex = n → ∀ i ≠ n, ¬ disk.HasCopy key i

/-- The image has its checksum, and a new page keeps the first copies the newest; a page that is
written directly has no copy. -/
def KeepsNewestFirst (s : DoubleWriteState) : DoubleWriteCall → Prop
  | .addPage key page _ => page.Checked ∧ ((∃ p ∈ s.buffer.pages, p.key = key) ∨
      KeepsFirst s.buffer.pages s.history.disk key s.buffer.pages.length)
  | .writePage key _ => ∀ i, ¬ s.history.disk.HasCopy key i
  | _ => True

/-! ## The invariant -/

/-- The first copy of a page is at least as new as its file.  A page that is held has its newest
copy first; if its slot has been given to another page, it has no copy at all. -/
structure FreshInv (held : List DoubleWritePage) (history : DiskHistory) : Prop where
  present : ∀ i < history.disk.pageCnt, (history.disk.slots i).isSome
  nodup : (held.map DoubleWritePage.key).Nodup
  indexed : ∀ p ∈ held, p.pageIndex < history.disk.pageCnt
  image : ∀ p ∈ held, p.page.Checked
  checked : ∀ i copy, history.disk.slots i = some copy → copy.page.Checked
  fresh : ∀ i copy, i < history.disk.pageCnt → history.disk.slots i = some copy →
    (∀ j < i, ¬ history.disk.HasCopy copy.key j) →
      history.disk.readPage copy.key = some copy.page ∨ copy.page ∈ history.newer copy.key
  own : ∀ p ∈ held, ∀ copy, history.disk.slots p.pageIndex = some copy → copy.key = p.key →
    copy.page = p.page ∧ ∀ i < p.pageIndex, ¬ history.disk.HasCopy p.key i
  shared : ∀ p ∈ held, ¬ history.disk.HasCopy p.key p.pageIndex →
    (∀ i, ¬ history.disk.HasCopy p.key i) ∧
      ∀ other, history.disk.HasCopy other p.pageIndex →
        (∃ i < p.pageIndex, history.disk.HasCopy other i) ∨
          ∀ i > p.pageIndex, ¬ history.disk.HasCopy other i

namespace FreshInv

variable {held rest : List DoubleWritePage} {history : DiskHistory} {p : DoubleWritePage}

theorem readsFresh (h : FreshInv held history) (maxPages : Int) : ReadsFresh maxPages history := by
  intro buffer hload key page hread
  obtain ⟨pages, hpages, hloaded⟩ := loadPages_loaded maxPages h.present
  obtain rfl := Except.ok.inj (hpages.symm.trans hload)
  unfold loadPage at hread
  split at hread
  · rename_i image himage
    obtain rfl := Except.ok.inj hread
    obtain ⟨copy, hfind, rfl⟩ := Option.map_eq_some_iff.mp himage
    obtain ⟨hmem, rfl⟩ := find_eq_some hfind
    obtain ⟨i, hi, hslot, -, hfirst⟩ := hloaded.sound copy hmem
    apply h.fresh i copy hi hslot
    rintro j hj ⟨-, c, hc, hkey⟩
    exact hfirst j hj c hc (h.checked j c hc) hkey
  · split at hread
    · rename_i image himage
      obtain rfl := Except.ok.inj hread
      exact .inl himage
    · cases hread

theorem perm (h : FreshInv held history) (hperm : held.Perm rest) : FreshInv rest history where
  present := h.present
  nodup := (hperm.map _).nodup_iff.mp h.nodup
  indexed := fun p hp => h.indexed p (hperm.mem_iff.mpr hp)
  image := fun p hp => h.image p (hperm.mem_iff.mpr hp)
  checked := h.checked
  fresh := h.fresh
  own := fun p hp => h.own p (hperm.mem_iff.mpr hp)
  shared := fun p hp => h.shared p (hperm.mem_iff.mpr hp)

theorem tail (h : FreshInv (p :: rest) history) : FreshInv rest history where
  present := h.present
  nodup := (List.nodup_cons.mp h.nodup).2
  indexed := fun q hq => h.indexed q (List.mem_cons_of_mem _ hq)
  image := fun q hq => h.image q (List.mem_cons_of_mem _ hq)
  checked := h.checked
  fresh := h.fresh
  own := fun q hq => h.own q (List.mem_cons_of_mem _ hq)
  shared := fun q hq => h.shared q (List.mem_cons_of_mem _ hq)

/-- A page that is held may write to its slot. -/
theorem keepsFirst (h : FreshInv (p :: rest) history) :
    KeepsFirst rest history.disk p.key p.pageIndex := by
  by_cases hcopy : history.disk.HasCopy p.key p.pageIndex
  · obtain ⟨-, copy, hslot, hkey⟩ := hcopy
    have hown := h.own p List.mem_cons_self copy hslot hkey
    constructor
    · exact hown.2
    · rintro other hne ⟨-, c, hc, rfl⟩
      obtain rfl := Option.some.inj (hslot.symm.trans hc)
      exact absurd hkey hne
    · intro q hq hindex i hi hcopy
      have hqp : q.key ≠ p.key := by
        intro heq
        exact (List.nodup_cons.mp h.nodup).1 (heq ▸ List.mem_map_of_mem hq)
      have hnot : ¬ history.disk.HasCopy q.key q.pageIndex := by
        rintro ⟨-, c, hc, hqkey⟩
        rw [hindex] at hc
        obtain rfl := Option.some.inj (hslot.symm.trans hc)
        exact hqp (hqkey.symm.trans hkey)
      obtain ⟨-, hother⟩ := h.shared q (List.mem_cons_of_mem _ hq) hnot
      rw [hindex] at hother
      rcases hother p.key ⟨h.indexed p List.mem_cons_self, copy, hslot, hkey⟩ with
        ⟨j, hj, hjcopy⟩ | hafter
      · exact hown.2 j hj hjcopy
      · rcases Nat.lt_or_gt_of_ne hi with hlt | hgt
        · exact hown.2 i hlt hcopy
        · exact hafter i hgt hcopy
  · obtain ⟨hnone, hother⟩ := h.shared p List.mem_cons_self hcopy
    exact ⟨fun i _ => hnone i, fun other _ => hother other, fun _ _ _ i _ => hnone i⟩

/-- A page that loses its slot loses its only copy. -/
theorem overwrite_shared (h : FreshInv held history) {disk : Disk} {key : DoubleWritePageKey}
    {n : Nat} (hcopy : ∀ k i, disk.HasCopy k i ↔
      i = n ∧ k = key ∨ i ≠ n ∧ history.disk.HasCopy k i)
    (hkeeps : KeepsFirst held history.disk key n) {q : DoubleWritePage} (hq : q ∈ held)
    (hqkey : q.key ≠ key) (hnot : ¬ disk.HasCopy q.key q.pageIndex) :
    (∀ i, ¬ disk.HasCopy q.key i) ∧ ∀ other, disk.HasCopy other q.pageIndex →
      (∃ i < q.pageIndex, disk.HasCopy other i) ∨
        ∀ i > q.pageIndex, ¬ disk.HasCopy other i := by
  by_cases hqn : q.pageIndex = n
  · constructor
    · intro i hci
      rcases (hcopy _ _).mp hci with ⟨-, hkey⟩ | ⟨hin, hci⟩
      · exact hqkey hkey
      · by_cases hqcopy : history.disk.HasCopy q.key q.pageIndex
        · obtain ⟨-, copy, hslot, hkey⟩ := hqcopy
          have hbefore := (h.own q hq copy hslot hkey).2
          rw [hqn] at hbefore
          rcases hkeeps.exposed q.key hqkey (hqn ▸ ⟨h.indexed q hq, copy, hslot, hkey⟩) with
            ⟨k, hk, hck⟩ | hafter
          · exact hbefore k hk hck
          · rcases Nat.lt_or_gt_of_ne hin with hlt | hgt
            · exact hbefore i hlt hci
            · exact hafter i hgt hci
        · exact (h.shared q hq hqcopy).1 i hci
    · intro other hother
      rcases (hcopy _ _).mp hother with ⟨-, rfl⟩ | ⟨hne, -⟩
      · apply Or.inr
        intro i hi hci
        rcases (hcopy _ _).mp hci with ⟨hin, -⟩ | ⟨hin, hci⟩
        · omega
        · exact hkeeps.shared q hq hqn i hin hci
      · exact absurd hqn hne
  · have hqcopy : ¬ history.disk.HasCopy q.key q.pageIndex :=
      fun hc => hnot ((hcopy _ _).mpr (.inr ⟨hqn, hc⟩))
    obtain ⟨hnone, hothers⟩ := h.shared q hq hqcopy
    constructor
    · intro i hci
      rcases (hcopy _ _).mp hci with ⟨-, hkey⟩ | ⟨-, hci⟩
      · exact hqkey hkey
      · exact hnone i hci
    · intro other hother
      rcases (hcopy _ _).mp hother with ⟨heq, -⟩ | ⟨-, hoc⟩
      · exact absurd heq hqn
      · rcases hothers other hoc with ⟨i, hi, hci⟩ | hafter
        · by_cases hin : i = n
          · by_cases hkey : other = key
            · exact .inl ⟨i, hi, (hcopy _ _).mpr (.inl ⟨hin, hkey⟩)⟩
            · rw [hin] at hi hci
              rcases hkeeps.exposed other hkey hci with ⟨k, hk, hck⟩ | hafter
              · exact .inl ⟨k, Nat.lt_trans hk hi, (hcopy _ _).mpr (.inr ⟨Nat.ne_of_lt hk, hck⟩)⟩
              · exact absurd hoc (hafter _ hi)
          · exact .inl ⟨i, hi, (hcopy _ _).mpr (.inr ⟨hin, hci⟩)⟩
        · apply Or.inr
          intro i hi hci
          rcases (hcopy _ _).mp hci with ⟨rfl, rfl⟩ | ⟨-, hci⟩
          · exact hkeeps.before _ hi hoc
          · exact hafter i hi hci

theorem overwrite (h : FreshInv held history) (new : DoubleWritePage) (history' : DiskHistory)
    (hslots : ∀ i, history'.disk.slots i =
      if i = new.pageIndex then some new else history.disk.slots i)
    (hread : ∀ key, history'.disk.readPage key = history.disk.readPage key)
    (hnewer : history'.newer = history.newer)
    (hcounted : ∀ i ≠ new.pageIndex, (i < history'.disk.pageCnt ↔ i < history.disk.pageCnt))
    (hindex : new.pageIndex < history'.disk.pageCnt) (hnew : ∀ p ∈ held, p.key ≠ new.key)
    (hchecked : new.page.Checked)
    (hfresh : history.disk.readPage new.key = some new.page ∨ new.page ∈ history.newer new.key)
    (hkeeps : KeepsFirst held history.disk new.key new.pageIndex) :
    FreshInv (new :: held) history' := by
  have hcopy : ∀ key i, history'.disk.HasCopy key i ↔
      i = new.pageIndex ∧ key = new.key ∨ i ≠ new.pageIndex ∧ history.disk.HasCopy key i := by
    intro key i
    unfold Disk.HasCopy
    rw [hslots]
    by_cases hi : i = new.pageIndex
    · rw [if_pos hi, hi]
      simp only [hindex, Option.some.injEq, true_and, exists_eq_left', not_true_eq_false, false_and,
        ne_eq, or_false]
      exact eq_comm
    · rw [if_neg hi, hcounted i hi]
      simp only [hi, false_and, ne_eq, not_false_eq_true, true_and, false_or]
  -- No older copy becomes the first one.
  have hfirst : ∀ other ≠ new.key, ∀ i, history.disk.HasCopy other i →
      (∀ j < i, ¬ history'.disk.HasCopy other j) → ∀ j < i, ¬ history.disk.HasCopy other j := by
    intro other hother i hi hnone j hj hcj
    by_cases hjn : j = new.pageIndex
    · rw [hjn] at hj hcj
      rcases hkeeps.exposed other hother hcj with ⟨k, hk, hck⟩ | hafter
      · exact hnone k (Nat.lt_trans hk hj) ((hcopy other k).mpr (.inr ⟨Nat.ne_of_lt hk, hck⟩))
      · exact hafter i hj hi
    · exact hnone j hj ((hcopy other j).mpr (.inr ⟨hjn, hcj⟩))
  constructor
  · intro i hi
    rw [hslots]
    split_ifs with hin
    · rfl
    · exact h.present i ((hcounted i hin).mp hi)
  · rw [List.map_cons, List.nodup_cons]
    refine ⟨fun hmem => ?_, h.nodup⟩
    obtain ⟨q, hq, hkey⟩ := List.mem_map.mp hmem
    exact hnew q hq hkey
  · intro q hq
    rcases List.mem_cons.mp hq with rfl | hq
    · exact hindex
    · by_cases hqn : q.pageIndex = new.pageIndex
      · rw [hqn]
        exact hindex
      · exact (hcounted _ hqn).mpr (h.indexed q hq)
  · intro q hq
    rcases List.mem_cons.mp hq with rfl | hq
    · exact hchecked
    · exact h.image q hq
  · intro i copy hslot
    rw [hslots] at hslot
    split_ifs at hslot with hin
    · obtain rfl := Option.some.inj hslot
      exact hchecked
    · exact h.checked i copy hslot
  · intro i copy hi hslot hnone
    rw [hread, hnewer]
    rw [hslots] at hslot
    split_ifs at hslot with hin
    · obtain rfl := Option.some.inj hslot
      exact hfresh
    · have hci : history.disk.HasCopy copy.key i := ⟨(hcounted i hin).mp hi, copy, hslot, rfl⟩
      by_cases hkey : copy.key = new.key
      · rcases Nat.lt_or_gt_of_ne hin with hlt | hgt
        · exact absurd (hkey ▸ hci) (hkeeps.before i hlt)
        · exact absurd ((hcopy _ _).mpr (.inl ⟨rfl, hkey⟩)) (hnone _ hgt)
      · exact h.fresh i copy hci.1 hslot (hfirst _ hkey i hci hnone)
  · intro q hq copy hslot hkey
    rw [hslots] at hslot
    rcases List.mem_cons.mp hq with rfl | hq
    · rw [if_pos rfl] at hslot
      obtain rfl := Option.some.inj hslot
      refine ⟨rfl, fun i hi hci => ?_⟩
      rcases (hcopy _ _).mp hci with ⟨hin, -⟩ | ⟨-, hci⟩
      · exact Nat.ne_of_lt hi hin
      · exact hkeeps.before i hi hci
    · split_ifs at hslot with hqn
      · obtain rfl := Option.some.inj hslot
        exact absurd hkey.symm (hnew q hq)
      · obtain ⟨hpage, hbefore⟩ := h.own q hq copy hslot hkey
        refine ⟨hpage, fun i hi hci => ?_⟩
        rcases (hcopy _ _).mp hci with ⟨-, hqkey⟩ | ⟨-, hci⟩
        · exact hnew q hq hqkey
        · exact hbefore i hi hci
  · intro q hq hnot
    rcases List.mem_cons.mp hq with rfl | hq
    · exact absurd ((hcopy _ _).mpr (.inl ⟨rfl, rfl⟩)) hnot
    · exact h.overwrite_shared hcopy hkeeps hq (hnew q hq) hnot

/-- A page is written to its file, and its first copy, if it has any, is the same image. -/
theorem write_page (h : FreshInv held history) (key : DoubleWritePageKey) (page : Page)
    (hsame : ∀ i copy, i < history.disk.pageCnt → history.disk.slots i = some copy →
      copy.key = key → (∀ j < i, ¬ history.disk.HasCopy key j) → copy.page = page) :
    FreshInv held (history.write (.page key page)) where
  present := h.present
  nodup := h.nodup
  indexed := h.indexed
  image := h.image
  checked := h.checked
  fresh := fun i copy hi hslot hnone => by
    rw [DiskHistory.disk_write]
    by_cases hkey : copy.key = key
    · apply Or.inl
      rw [hsame i copy hi hslot hkey (hkey ▸ hnone), hkey, Disk.readPage_write_self]
    · rcases h.fresh i copy hi hslot hnone with hread | hnewer
      · exact .inl (Disk.readPage_write_of_ne hkey hread)
      · apply Or.inr
        show copy.page ∈ if copy.key = key then [] else history.newer copy.key
        rw [if_neg hkey]
        exact hnewer
  own := h.own
  shared := h.shared

theorem write_held (h : FreshInv (p :: rest) history) :
    FreshInv (p :: rest) (history.write (.page p.key p.page)) := by
  apply h.write_page
  intro i copy hi hslot hkey hnone
  by_cases hcopy : history.disk.HasCopy p.key p.pageIndex
  · obtain ⟨-, c, hc, hckey⟩ := hcopy
    have hown := h.own p List.mem_cons_self c hc hckey
    have hin : i = p.pageIndex := by
      rcases Nat.lt_trichotomy i p.pageIndex with hlt | heq | hgt
      · exact absurd ⟨hi, copy, hslot, hkey⟩ (hown.2 i hlt)
      · exact heq
      · exact absurd ⟨h.indexed p List.mem_cons_self, c, hc, hckey⟩ (hnone _ hgt)
    rw [hin] at hslot
    obtain rfl := Option.some.inj (hc.symm.trans hslot)
    exact hown.1
  · exact absurd ⟨hi, copy, hslot, hkey⟩ ((h.shared p List.mem_cons_self hcopy).1 i)

theorem write_slot (h : FreshInv (p :: rest) history) (copy : DoubleWritePage)
    (hkey : copy.key = p.key) (hindex : copy.pageIndex = p.pageIndex)
    (hchecked : copy.page.Checked)
    (hfresh : history.disk.readPage p.key = some copy.page ∨ copy.page ∈ history.newer p.key) :
    FreshInv (copy :: rest) (history.write (.slot copy)) := by
  apply h.tail.overwrite copy (history.write (.slot copy)) (fun _ => rfl) (fun _ => rfl) rfl
    (fun _ _ => Iff.rfl)
  · rw [hindex]
    exact h.indexed p List.mem_cons_self
  · intro q hq hqkey
    exact (List.nodup_cons.mp h.nodup).1 (hkey ▸ hqkey ▸ List.mem_map_of_mem hq)
  · exact hchecked
  · rw [hkey]
    exact hfresh
  · rw [hkey, hindex]
    exact h.keepsFirst

theorem hand (h : FreshInv held history) (call : DoubleWriteCall) :
    FreshInv held (history.hand call) := by
  have hnewer : ∀ key page, page ∈ history.newer key → page ∈ (history.hand call).newer key := by
    intro key page hpage
    unfold DiskHistory.hand
    split
    · simp only
      split_ifs
      · exact List.mem_append_left _ hpage
      · exact hpage
    · exact hpage
  have hdisk := DiskHistory.disk_hand history call
  constructor
  · rw [hdisk]
    exact h.present
  · exact h.nodup
  · rw [hdisk]
    exact h.indexed
  · exact h.image
  · rw [hdisk]
    exact h.checked
  · rw [hdisk]
    exact fun i copy hi hslot hnone => (h.fresh i copy hi hslot hnone).imp_right (hnewer _ _)
  · rw [hdisk]
    exact h.own
  · rw [hdisk]
    exact h.shared

theorem writesBack : WritesBack FreshInv where
  perm := fun h => h.perm
  page := fun h => h.write_held
  slot := fun {p _ _} h => (h.write_held.write_slot { p with valid := false } rfl rfl
    (h.image p List.mem_cons_self) (.inl Disk.readPage_write_self)).tail

theorem write_uncounted (h : FreshInv held history) (copy : DoubleWritePage)
    (hindex : history.disk.pageCnt ≤ copy.pageIndex) (hchecked : copy.page.Checked) :
    FreshInv held (history.write (.slot copy)) := by
  have hslots : ∀ i < history.disk.pageCnt,
      (history.write (.slot copy)).disk.slots i = history.disk.slots i :=
    fun i hi => if_neg (Nat.ne_of_lt (Nat.lt_of_lt_of_le hi hindex))
  have hcopy : (history.write (.slot copy)).disk.HasCopy = history.disk.HasCopy := by
    funext key i
    apply propext
    constructor
    · rintro ⟨hi, c, hc, hkey⟩
      exact ⟨hi, c, (hslots i hi).symm.trans hc, hkey⟩
    · rintro ⟨hi, c, hc, hkey⟩
      exact ⟨hi, c, (hslots i hi).trans hc, hkey⟩
  constructor
  · intro i hi
    rw [hslots i hi]
    exact h.present i hi
  · exact h.nodup
  · exact h.indexed
  · exact h.image
  · intro i c hc
    by_cases hin : i = copy.pageIndex
    · have hcc : c = copy := by
        apply Option.some.inj
        rw [← hc]
        exact if_pos hin
      rw [hcc]
      exact hchecked
    · exact h.checked i c ((if_neg hin).symm.trans hc)
  · intro i c hi hc hnone
    rw [hcopy] at hnone
    exact h.fresh i c hi ((hslots i hi).symm.trans hc) hnone
  · intro p hp c hc hkey
    rw [hcopy]
    exact h.own p hp c ((hslots _ (h.indexed p hp)).symm.trans hc) hkey
  · rw [hcopy]
    exact h.shared

/-- The header is written so that it counts fewer slots. -/
theorem write_header (h : FreshInv held history) (pageCnt : Nat)
    (hle : pageCnt ≤ history.disk.pageCnt) (hindexed : ∀ p ∈ held, p.pageIndex < pageCnt) :
    FreshInv held (history.write (.header pageCnt)) := by
  have hcopy : ∀ key i, (history.write (.header pageCnt)).disk.HasCopy key i ↔
      i < pageCnt ∧ history.disk.HasCopy key i := by
    intro key i
    constructor
    · rintro ⟨hi, hc⟩
      exact ⟨hi, Nat.lt_of_lt_of_le hi hle, hc⟩
    · rintro ⟨hi, -, hc⟩
      exact ⟨hi, hc⟩
  have hmono : ∀ key i, (history.write (.header pageCnt)).disk.HasCopy key i →
      history.disk.HasCopy key i := fun key i hc => ((hcopy key i).mp hc).2
  constructor
  · exact fun i hi => h.present i (Nat.lt_of_lt_of_le hi hle)
  · exact h.nodup
  · exact hindexed
  · exact h.image
  · exact h.checked
  · intro i copy hi hslot hnone
    apply h.fresh i copy (Nat.lt_of_lt_of_le hi hle) hslot
    exact fun j hj hc => hnone j hj ((hcopy _ _).mpr ⟨Nat.lt_trans hj hi, hc⟩)
  · intro p hp copy hslot hkey
    obtain ⟨hpage, hbefore⟩ := h.own p hp copy hslot hkey
    exact ⟨hpage, fun i hi hc => hbefore i hi (hmono _ _ hc)⟩
  · intro p hp hnot
    have hnot' : ¬ history.disk.HasCopy p.key p.pageIndex :=
      fun hc => hnot ((hcopy _ _).mpr ⟨hindexed p hp, hc⟩)
    obtain ⟨hnone, hothers⟩ := h.shared p hp hnot'
    refine ⟨fun i hc => hnone i (hmono _ _ hc), fun other hother => ?_⟩
    rcases hothers other (hmono _ _ hother) with ⟨i, hi, hc⟩ | hafter
    · exact .inl ⟨i, hi, (hcopy _ _).mpr ⟨Nat.lt_trans hi (hindexed p hp), hc⟩⟩
    · exact .inr fun i hi hc => hafter i hi (hmono _ _ hc)

end FreshInv

/-! ## Calls -/

section Calls

variable {buffer : DoubleWriteBuffer} {history : DiskHistory} {key : DoubleWritePageKey}
  {page : Page}

theorem FreshInv.updatePage (h : FreshInv buffer.pages history) {held : DoubleWritePage}
    (hheld : held ∈ buffer.pages) (hchecked : page.Checked) (hnewer : page ∈ history.newer held.key) :
    FreshInv (buffer.updatePage held page).2.pages
      (history.writeAll (buffer.updatePage held page).1) := by
  have hperm := List.perm_cons_erase hheld
  have hrest : (buffer.pages.erase held).map (fun p => if p = held then { held with page } else p) =
      buffer.pages.erase held := by
    rw [List.map_congr_left, List.map_id]
    intro p hp
    exact if_neg (h.nodup.of_map.mem_erase_iff.mp hp).1
  have hslot := (h.perm hperm).write_slot { held with page } rfl rfl hchecked (.inr hnewer)
  apply hslot.perm
  have hmap := (hperm.map fun p => if p = held then { held with page } else p).symm
  rw [List.map_cons, if_pos rfl, hrest] at hmap
  exact hmap

/-- A new page keeps the first copies the newest, also while the header is written. -/
theorem FreshInv.insertPage (h : FreshInv buffer.pages history)
    (hheader : HeaderInv buffer history.disk) (hnew : ∀ p ∈ buffer.pages, p.key ≠ key)
    (hchecked : page.Checked) (hnewer : page ∈ history.newer key)
    (hkeeps : KeepsFirst buffer.pages history.disk key buffer.pages.length) :
    Along DiskHistory.write (fun d => ∃ held, FreshInv held d) history
        (buffer.insertPage key page).1 ∧
      FreshInv (buffer.insertPage key page).2.pages
        (history.writeAll (buffer.insertPage key page).1) := by
  have hcnt := hheader.header
  have hroom := hheader.room
  have hpages := pages_insertPage buffer key page
  let new : DoubleWritePage := ⟨key, buffer.pages.length, true, page⟩
  have hperm : (new :: buffer.pages).Perm (buffer.insertPage key page).2.pages := by
    rw [hpages]
    exact (List.perm_append_singleton _ _).symm
  have hslots : ∀ i, (history.write (.slot new)).disk.slots i =
      if i = new.pageIndex then some new else history.disk.slots i := fun _ => rfl
  rw [writes_insertPage]
  by_cases hraise : buffer.pageCnt < buffer.pages.length + 1
  · rw [if_pos hraise]
    by_cases hlt : buffer.pages.length < history.disk.pageCnt
    · -- The first page after a flush: the header will count this slot only.
      have hnil : buffer.pages.length = 0 := by omega
      have hmid := h.overwrite new (history.write (.slot new)) hslots (fun _ => rfl) rfl
        (fun _ _ => Iff.rfl) hlt hnew hchecked (.inr hnewer) hkeeps
      have hafter := hmid.write_header (buffer.pages.length + 1) hlt (by
        rw [List.eq_nil_of_length_eq_zero hnil]
        intro p hp
        rw [List.mem_singleton.mp hp]
        show buffer.pages.length < 1
        omega)
      exact ⟨Along.cons ⟨_, h⟩ (Along.cons ⟨_, hmid⟩ (Along.nil ⟨_, hafter⟩)), hafter.perm hperm⟩
    · have hmid := h.write_uncounted new (Nat.not_lt.mp hlt) hchecked
      have hafter := h.overwrite new ((history.write (.slot new)).write
        (.header (buffer.pages.length + 1))) hslots (fun _ => rfl) rfl
        (by
          intro i hi
          simp only [DiskHistory.disk_write, Disk.write, new] at hi ⊢
          omega)
        (Nat.lt_succ_self _) hnew hchecked (.inr hnewer) hkeeps
      exact ⟨Along.cons ⟨_, h⟩ (Along.cons ⟨_, hmid⟩ (Along.nil ⟨_, hafter⟩)), hafter.perm hperm⟩
  · rw [if_neg hraise]
    have hafter := h.overwrite new (history.write (.slot new)) hslots (fun _ => rfl) rfl
      (fun _ _ => Iff.rfl) (by simp only [DiskHistory.disk_write, Disk.write, new]; omega) hnew
      hchecked (.inr hnewer) hkeeps
    exact ⟨Along.cons ⟨_, h⟩ (Along.nil ⟨_, hafter⟩), hafter.perm hperm⟩

theorem FreshInv.addPage (h : FreshInv buffer.pages history)
    (hheader : HeaderInv buffer history.disk) (order : HashOrder) (hchecked : page.Checked)
    (hnewer : page ∈ history.newer key)
    (hkeeps : (∃ p ∈ buffer.pages, p.key = key) ∨
      KeepsFirst buffer.pages history.disk key buffer.pages.length) :
    Along DiskHistory.write (fun d => ∃ held, FreshInv held d) history
        (buffer.addPage key page order).1 ∧
      FreshInv (buffer.addPage key page order).2.pages
        (history.writeAll (buffer.addPage key page order).1) := by
  rcases addPage_cases buffer key page order with
    ⟨held, hheld, rfl, heq⟩ | ⟨hnew, hfull, heq⟩ | ⟨hnew, hroom, heq⟩
  · rw [heq]
    have hafter := h.updatePage hheld hchecked hnewer
    exact ⟨Along.cons ⟨_, h⟩ (Along.nil ⟨_, hafter⟩), hafter⟩
  · have hkeeps := hkeeps.resolve_left fun ⟨p, hp, hkey⟩ => hnew p hp hkey
    have hinsert := h.insertPage hheader hnew hchecked hnewer hkeeps
    have hvalid := (hheader.insertPage key page).valid
    have hflush := FreshInv.writesBack.flushPage hinsert.2 hvalid order
    rw [heq, DiskHistory.writeAll_append]
    exact ⟨hinsert.1.append hflush.1, hflush.2⟩
  · have hkeeps := hkeeps.resolve_left fun ⟨p, hp, hkey⟩ => hnew p hp hkey
    rw [heq]
    exact h.insertPage hheader hnew hchecked hnewer hkeeps

end Calls

/-- A call that keeps the first copies the newest can be cut short by a crash anywhere. -/
theorem FreshInv.call {s : DoubleWriteState} (h : FreshInv s.buffer.pages s.history)
    (hheader : HeaderInv s.buffer s.history.disk) {call : DoubleWriteCall}
    (hkeeps : KeepsNewestFirst s call) :
    (∀ n, ∃ held, FreshInv held (s.crash call n)) ∧
      FreshInv (s.step call).buffer.pages (s.step call).history := by
  have hdisk := DiskHistory.disk_hand s.history call
  have hhand := h.hand call
  unfold DoubleWriteState.crash DoubleWriteState.step
  rw [← hdisk] at hheader
  cases call with
  | addPage key page order =>
    obtain ⟨hchecked, hkeeps⟩ := hkeeps
    rw [← hdisk] at hkeeps
    have hnewer : page ∈ (s.history.hand (.addPage key page order)).newer key := by
      simp [DiskHistory.hand]
    obtain ⟨halong, hafter⟩ := hhand.addPage hheader order hchecked hnewer hkeeps
    exact ⟨halong.take, hafter⟩
  | flushPage order =>
    obtain ⟨halong, hafter⟩ := FreshInv.writesBack.flushPage hhand hheader.valid order
    exact ⟨halong.take, hafter⟩
  | clearPages bufferPoolId =>
    obtain ⟨halong, hafter⟩ := FreshInv.writesBack.clearPages hhand hheader.valid bufferPoolId
    exact ⟨halong.take, hafter⟩
  | writePage key page =>
    have hafter := hhand.write_page key page fun i copy hi hslot hkey _ =>
      absurd ⟨hi, copy, hslot, hkey⟩ (hkeeps i)
    have halong : Along DiskHistory.write (fun d => ∃ held, FreshInv held d)
        (s.history.hand (.writePage key page)) [.page key page] :=
      Along.cons ⟨_, hhand⟩ (Along.nil ⟨_, hafter⟩)
    exact ⟨halong.take, hafter⟩

theorem freshInv_of_runs {maxPages : Int} {files : Int → List Page}
    {calls : List DoubleWriteCall} (h : ∀ done call, done ++ [call] <+: calls →
      KeepsNewestFirst (runs (create maxPages files) done) call) :
    FreshInv (runs (create maxPages files) calls).buffer.pages
      (runs (create maxPages files) calls).history := by
  induction calls using List.reverseRecOn with
  | nil => constructor <;> simp [runs, create]
  | append_singleton calls call ih =>
    have hinv := ih fun done c hd => h done c (hd.trans (List.prefix_append _ _))
    rw [runs_append_singleton]
    exact (hinv.call (headerInv_runs _ _ _) (h calls call (List.prefix_refl _))).2

/-- **Reads before the recovery are never stale** after a crash at any point of a run whose calls
keep the first copy of each page the newest one. -/
theorem readsFresh_of_runs (maxPages : Int) (files : Int → List Page)
    (calls : List DoubleWriteCall) (call : DoubleWriteCall) (n : Nat)
    (hkeeps : ∀ done c, done ++ [c] <+: calls ++ [call] →
      KeepsNewestFirst (runs (create maxPages files) done) c) :
    ReadsFresh maxPages ((runs (create maxPages files) calls).crash call n) := by
  have hinv := freshInv_of_runs fun done c hd =>
    hkeeps done c (hd.trans (List.prefix_append _ _))
  obtain ⟨held, hheld⟩ :=
    (hinv.call (headerInv_runs _ _ _) (hkeeps calls call (List.prefix_refl _))).1 n
  exact hheld.readsFresh maxPages

/-- Two pools have been added to and are closed one after the other; the crash comes before the
slot of the second is marked. -/
theorem readsFresh_of_runs_closing :
    ReadsFresh 16 ((runs (create 16 fun _ => []) shadowedCalls).crash (.clearPages 2) 1) := by
  apply readsFresh_of_runs
  intro done call hpre
  rcases shadowedCalls_prefix hpre with ⟨rfl, rfl⟩ | ⟨rfl, rfl⟩ | ⟨bufferPoolId, rfl⟩
  · refine ⟨checked_zeroImage 1, .inr ⟨fun i hi => absurd hi (Nat.not_lt_zero i), ?_, ?_⟩⟩
    · rintro other - ⟨hcnt, -⟩
      exact absurd hcnt (Nat.not_lt_zero 0)
    · intro p hp
      cases hp
  · refine ⟨checked_zeroImage 2, .inr ⟨?_, ?_, ?_⟩⟩
    · rintro i hi ⟨-, copy, hcopy, hkey⟩
      obtain rfl : i = 0 := Nat.lt_one_iff.mp hi
      obtain rfl := Option.some.inj hcopy
      exact absurd hkey (by decide)
    · rintro other - ⟨hcnt, -⟩
      exact absurd hcnt (Nat.lt_irrefl 1)
    · intro p hp hindex
      obtain rfl := List.mem_singleton.mp hp
      cases hindex
  · trivial

/-! ## A stale read -/

/-- Two pools with a page each; the first one is closed and opened again. -/
def staleCalls : List DoubleWriteCall :=
  [.addPage ⟨1, 1⟩ (zeroImage 1) HashOrder.unchanged,
    .addPage ⟨2, 1⟩ (zeroImage 2) HashOrder.unchanged, .clearPages 1,
    .addPage ⟨1, 1⟩ (zeroImage 3) HashOrder.unchanged]

/-- The crash comes when the first pool has been closed once more. -/
def staleCrash : DiskHistory :=
  (runs (create 16 fun _ => []) staleCalls).crash (.clearPages 1) 2

theorem staleCrash_eq : staleCrash.disk.pageCnt = 2 ∧
    staleCrash.disk.slots 0 = some ⟨⟨1, 1⟩, 0, false, zeroImage 1⟩ ∧
    staleCrash.disk.slots 1 = some ⟨⟨1, 1⟩, 1, false, zeroImage 3⟩ ∧
    staleCrash.disk.readPage ⟨1, 1⟩ = some (zeroImage 3) ∧ staleCrash.newer ⟨1, 1⟩ = [] := by
  have hspec : specPages ⟨16, 2, [⟨⟨1, 1⟩, 0, true, zeroImage 1⟩, ⟨⟨2, 1⟩, 1, true, zeroImage 2⟩]⟩ 1 =
      [⟨⟨1, 1⟩, 0, true, zeroImage 1⟩] := by
    simp [specPages]
  have hspec' : specPages ⟨16, 2, [⟨⟨2, 1⟩, 1, true, zeroImage 2⟩, ⟨⟨1, 1⟩, 1, true, zeroImage 3⟩]⟩ 1 =
      [⟨⟨1, 1⟩, 1, true, zeroImage 3⟩] := by
    simp [specPages]
  have hcrash : staleCrash = ((((runs (create 16 fun _ => []) (staleCalls.take 2)).history.writeAll
      [.page ⟨1, 1⟩ (zeroImage 1), .slot ⟨⟨1, 1⟩, 0, false, zeroImage 1⟩]).hand
        (.addPage ⟨1, 1⟩ (zeroImage 3) HashOrder.unchanged)).write
          (.slot ⟨⟨1, 1⟩, 1, true, zeroImage 3⟩)).writeAll
            [.page ⟨1, 1⟩ (zeroImage 3), .slot ⟨⟨1, 1⟩, 1, false, zeroImage 3⟩] := by
    simp [staleCrash, staleCalls, runs, step, create, DoubleWriteCall.run, addPage, find,
      insertPage, clearPages, hspec, hspec', crash]
    rfl
  rw [hcrash]
  exact ⟨rfl, rfl, rfl, rfl, rfl⟩

/-- The old image in the first slot is read, and the file has the new one. -/
theorem staleCrash_not_fresh : ¬ ReadsFresh 16 staleCrash := by
  obtain ⟨hcnt, hfirst, hsecond, hread, hnewer⟩ := staleCrash_eq
  generalize staleCrash = history at hcnt hfirst hsecond hread hnewer ⊢
  intro hfresh
  have hslots : loadSlots history.disk (List.range history.disk.pageCnt) [] =
      .ok [⟨⟨1, 1⟩, 0, false, zeroImage 1⟩] := by
    rw [hcnt]
    exact loadSlots_first hfirst hsecond (checked_zeroImage 1) rfl
  rcases hfresh _ (loadPages_eq hslots) ⟨1, 1⟩ (zeroImage 1) rfl with hfile | hnew
  · rw [hread] at hfile
    have hlsn : 3 = 1 := congrArg Page.lsn (Option.some.inj hfile)
    cases hlsn
  · rw [hnewer] at hnew
    cases hnew

end ObHtap
