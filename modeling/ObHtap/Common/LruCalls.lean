import ObHtap.Common.LruCache
import ObHtap.Library.PartialRun

/-!
# The calls of `LruCache`

Every call goes through, and makes of the entries what the order of use says.
-/

namespace ObHtap

namespace Common

namespace LruCache

variable {Key Value : Type}

/-! ## The hash set -/

section

variable [BEq Key] {c c' : LruCache Key Value} {a : Nat} {e : Key × Value} {key : Key}
  {l l₁ l₂ : List (Nat × Key × Value)}

theorem find_of_not (h : ∀ b ∈ c.searcher, ∃ e, c.entry b = some e ∧ (key == e.1) = false) :
    c.find key = some none := by
  unfold find
  generalize c.searcher = searcher at h
  induction searcher with
  | nil => rfl
  | cons b s ih =>
    rw [List.forall_mem_cons] at h
    obtain ⟨⟨e, he, hkey⟩, hrest⟩ := h
    rw [List.findM?, node_of_entry he]
    simp only [some_bind, pure, hkey]
    exact ih hrest

theorem find_of_mem (ha : a ∈ c.searcher) (he : c.entry a = some e) (hkey : key == e.1)
    (h : ∀ b ∈ c.searcher, ∃ e, c.entry b = some e ∧ ((key == e.1) = true → b = a)) :
    c.find key = some (some a) := by
  unfold find
  generalize c.searcher = searcher at ha h
  induction searcher with
  | nil => exact absurd ha List.not_mem_nil
  | cons b s ih =>
    rw [List.forall_mem_cons] at h
    obtain ⟨⟨e', he', hsame⟩, hrest⟩ := h
    rw [List.findM?, node_of_entry he']
    simp only [some_bind, pure]
    split
    · next hb => rw [hsame hb]
    · next hb =>
      apply ih _ hrest
      rcases List.mem_cons.mp ha with rfl | hmem
      · rw [he] at he'
        rw [← Option.some.inj he', hkey] at hb
        cases hb
      · exact hmem

theorem erase_of_find (he : c.entry a = some e) (h : c.find e.1 = some (some a)) :
    c.erase a = some { c with searcher := c.searcher.erase a } := by
  rw [erase, node_of_entry he, some_bind, h, some_bind]
  rfl

theorem insert_of_find (he : c.entry a = some e) (h : c.find e.1 = some none) :
    c.insert a = some { c with searcher := a :: c.searcher } := by
  rw [insert, node_of_entry he, some_bind, h, some_bind]
  rfl

theorem Holds.congr (h : c.Holds l) (hentry : c'.entry = c.entry)
    (hsearcher : c'.searcher = c.searcher) : c'.Holds l where
  entry a e := by rw [hentry, h.entry]
  searcher := by rw [hsearcher]; exact h.searcher
  distinct := h.distinct

theorem Holds.mem_searcher (h : c.Holds l) : a ∈ c.searcher ↔ ∃ e, (a, e) ∈ l := by
  rw [h.searcher.mem_iff, List.mem_map]
  constructor
  · rintro ⟨⟨b, e⟩, hmem, rfl⟩
    exact ⟨e, hmem⟩
  · rintro ⟨e, hmem⟩
    exact ⟨(a, e), hmem, rfl⟩

theorem Holds.count_eq (h : c.Holds l) : c.count = l.length :=
  h.searcher.length_eq.trans (List.length_map _)

theorem Holds.isSome (h : c.Holds l) : ∀ a ∈ l.map Prod.fst, (c.entry a).isSome := by
  intro a ha
  obtain ⟨e, he⟩ := h.mem_searcher.mp (h.searcher.mem_iff.mpr ha)
  rw [(h.entry a e).mpr he]
  rfl

theorem Holds.find_of_not (h : c.Holds l)
    (hnot : ∀ e ∈ l.map Prod.snd, (key == e.1) = false) : c.find key = some none := by
  apply LruCache.find_of_not
  intro b hb
  obtain ⟨e, he⟩ := h.mem_searcher.mp hb
  exact ⟨e, (h.entry b e).mpr he, hnot e (List.mem_map_of_mem he)⟩

theorem Holds.find_of_split [EquivBEq Key] (h : c.Holds (l₁ ++ (a, e) :: l₂)) (hkey : key == e.1) :
    c.find key = some (some a) := by
  have hmem : (a, e) ∈ l₁ ++ (a, e) :: l₂ := by simp
  have hdistinct := h.distinct
  rw [List.map_append, List.map_cons] at hdistinct
  apply find_of_mem (h.mem_searcher.mpr ⟨e, hmem⟩) ((h.entry a e).mpr hmem) hkey
  intro b hb
  obtain ⟨e', he'⟩ := h.mem_searcher.mp hb
  refine ⟨e', (h.entry b e').mpr he', fun hkey' => ?_⟩
  rw [List.perm_middle.mem_iff, List.mem_cons] at he'
  rcases he' with heq | hother
  · exact (Prod.mk.inj heq).1
  · have hmap : e' ∈ l₁.map Prod.snd ++ l₂.map Prod.snd := by
      rw [← List.map_append]
      exact List.mem_map_of_mem hother
    rw [UseOrder.not_beq_of_split hdistinct hkey e' hmap] at hkey'
    cases hkey'

theorem Holds.perm [EquivBEq Key] {l' : List (Nat × Key × Value)} (h : c.Holds l) (hl : l.Perm l') :
    c.Holds l' where
  entry a e := by rw [h.entry, hl.mem_iff]
  searcher := h.searcher.trans (hl.map Prod.fst)
  distinct := by
    apply (hl.map Prod.snd).pairwise h.distinct
    intro e e' hne
    rw [BEq.comm]
    exact hne

end

/-! ## Each call -/

/-- The list and the hash set hold these entries, the most recently used first. -/
def Represents [BEq Key] (c : LruCache Key Value) (entries : List (Key × Value)) : Prop :=
  ∃ l, c.Holds l ∧ c.Linked (l.map Prod.fst) ∧ l.map Prod.snd = entries

section

variable [BEq Key] {c c' : LruCache Key Value} {a ln : Nat} {e : Key × Value} {key : Key}
  {value : Value} {entries : List (Key × Value)} {l l₁ l₂ : List (Nat × Key × Value)}

theorem create_represents : (create : LruCache Key Value).Represents [] := by
  refine ⟨[], ⟨?_, .nil, .nil⟩, ⟨.nil, trivial, rfl, rfl⟩, rfl⟩
  intro a e
  exact iff_of_false (fun h => nomatch h) List.not_mem_nil

omit [BEq Key] in
/-- The entries when one node has a new one. -/
theorem update_entry_iff {entry : Nat → Option (Key × Value)} {b : Nat} {e' : Key × Value}
    (hnotMem : a ∉ l.map Prod.fst)
    (hentry : b ≠ a → (entry b = some e' ↔ (b, e') ∈ l)) :
    Function.update entry a (some e) b = some e' ↔ (b, e') ∈ (a, e) :: l := by
  rw [List.mem_cons]
  by_cases hb : b = a
  · rw [hb, Function.update_self, Option.some_inj]
    constructor
    · exact fun heq => .inl (heq ▸ rfl)
    · rintro (heq | hmem)
      · exact (Prod.mk.inj heq).2.symm
      · exact absurd (List.mem_map_of_mem hmem) hnotMem
  · rw [Function.update_of_ne hb, hentry hb]
    exact (or_iff_right fun heq => hb (Prod.mk.inj heq).1).symm

theorem Holds.setValue (h : c.Holds (l₁ ++ (a, e) :: l₂))
    (hnodup : ((l₁ ++ (a, e) :: l₂).map Prod.fst).Nodup) (node : ListNode Key Value)
    (hkey : node.key = e.1) :
    (c.withNode a node).Holds (l₁ ++ (a, node.key, node.value) :: l₂) where
  entry b e' := by
    rw [List.map_append, List.map_cons] at hnodup
    have hnotMem := (nodup_unlinked hnodup).2
    rw [← List.map_append] at hnotMem
    rw [entry_withNode, List.perm_middle.mem_iff]
    refine update_entry_iff hnotMem fun hb => ?_
    rw [h.entry, List.perm_middle.mem_iff, List.mem_cons]
    exact or_iff_right fun heq => hb (Prod.mk.inj heq).1
  searcher := by
    have hperm := h.searcher
    rw [List.map_append, List.map_cons] at hperm ⊢
    exact hperm
  distinct := by
    have hdistinct := h.distinct
    rw [UseOrder.Distinct, List.map_append, List.map_cons] at hdistinct ⊢
    rw [List.pairwise_append, List.pairwise_cons] at hdistinct ⊢
    simp only [List.forall_mem_cons, hkey] at hdistinct ⊢
    exact hdistinct

/-- `destroy` deletes the nodes of the hash set, which are all that there are. -/
theorem destroy_represents (h : c.Represents entries) :
    ∃ c', c.destroy = some c' ∧ c'.Represents [] := by
  obtain ⟨l, hholds, hlinked, rfl⟩ := h
  have hnodup : c.searcher.Nodup := hholds.searcher.nodup_iff.mpr hlinked.nodup
  obtain ⟨c', hc', hentry⟩ := foldlM_deleteNode hnodup fun a ha =>
    hholds.isSome a (hholds.searcher.mem_iff.mp ha)
  refine ⟨⟨c'.nodes, [], none, none⟩, ?_, [], ⟨?_, .nil, .nil⟩, ⟨.nil, trivial, rfl, rfl⟩, rfl⟩
  · rw [destroy, hc']
    rfl
  · intro a e
    change c'.entry a = some e ↔ _
    apply iff_of_false _ List.not_mem_nil
    rw [hentry]
    split_ifs with ha
    · exact fun h => nomatch h
    · rw [hholds.entry]
      exact fun hmem => ha (hholds.mem_searcher.mpr ⟨e, hmem⟩)

theorem foreach_eq (h : c.Represents entries) (func : List (Key × Value) → Bool) :
    c.foreach func c.count = some (UseOrder.shown func [] entries) := by
  obtain ⟨l, hholds, hlinked, rfl⟩ := h
  rw [foreach, hlinked.front]
  apply walk_eq func hlinked.links
  · exact fun x hx => (hholds.entry x.1 x.2).mpr hx
  · exact Nat.le_of_eq hholds.count_eq.symm

theorem foreachReverse_eq (h : c.Represents entries) (func : List (Key × Value) → Bool) :
    c.foreachReverse func c.count = some (UseOrder.shown func [] entries.reverse) := by
  obtain ⟨l, hholds, hlinked, rfl⟩ := h
  have hlinks := hlinked.links.reverse
  rw [← List.map_reverse] at hlinks ⊢
  rw [foreachReverse, hlinked.tail, ← List.head?_reverse, ← List.map_reverse]
  apply walk_eq func hlinks
  · exact fun x hx => (hholds.entry x.1 x.2).mpr (List.mem_reverse.mp hx)
  · rw [List.length_reverse]
    exact Nat.le_of_eq hholds.count_eq.symm

theorem lruPush_represents (hholds : c.Holds l) (hlinked : c.Linked (l.map Prod.fst))
    (hln : c.nodes ln = none) (hnot : ∀ e ∈ l.map Prod.snd, (key == e.1) = false) :
    ∃ c', (c.withNode ln ⟨key, value, none, none⟩).lruPush ln = some c' ∧
      c'.Represents ((key, value) :: l.map Prod.snd) := by
  have hnotMem : ln ∉ l.map Prod.fst := by
    intro hmem
    have hsome := hholds.isSome ln hmem
    rw [LruCache.entry, hln] at hsome
    cases hsome
  have hother (b : Nat) (hb : b ∈ l.map Prod.fst) : b ≠ ln := ne_of_mem_of_not_mem hb hnotMem
  let c₁ : LruCache Key Value := { c.withNode ln ⟨key, value, none, none⟩ with
    lruTail := (ln :: l.map Prod.fst).getLast? }
  have htail : (if c.lruTail = none then some ln else c.lruTail) = c₁.lruTail := by
    rw [hlinked.tail]
    cases hl : l.map Prod.fst with
    | nil => simp [c₁, hl]
    | cons b nodes => simp [c₁, hl]
  have hentry₁ : c₁.entry = Function.update c.entry ln (some (key, value)) := entry_withNode _ _ _
  have hlinks₁ : Doubly c₁.prev c₁.next none (l.map Prod.fst) none := by
    apply hlinked.links.congr
    · intro b hb
      change (c.withNode ln _).prev b = _
      rw [prev_withNode, Function.update_of_ne (hother b hb)]
    · intro b hb
      change (c.withNode ln _).next b = _
      rw [next_withNode, Function.update_of_ne (hother b hb)]
  obtain ⟨c₂, hc₂, hlinks₂, hfront₂, htail₂, hentry₂, hsearcher₂⟩ :=
    toFront_linked hlinked.nodup hlinks₁ hlinked.front hnotMem (by
      rw [hentry₁, List.forall_mem_cons, Function.update_self]
      refine ⟨rfl, fun b hb => ?_⟩
      rw [Function.update_of_ne (hother b hb)]
      exact hholds.isSome b hb)
  have he₂ : c₂.entry ln = some (key, value) := by
    rw [hentry₂, hentry₁, Function.update_self]
  have hfind : c₂.find key = some none := by
    apply find_of_not
    intro b hb
    rw [hsearcher₂] at hb
    obtain ⟨e, he⟩ := hholds.mem_searcher.mp hb
    have hb' : b ∈ l.map Prod.fst := List.mem_map_of_mem he
    refine ⟨e, ?_, hnot e (List.mem_map_of_mem he)⟩
    rw [hentry₂, hentry₁, Function.update_of_ne (hother b hb'), hholds.entry]
    exact he
  refine ⟨{ c₂ with searcher := ln :: c₂.searcher }, ?_, (ln, key, value) :: l, ⟨?_, ?_, ?_⟩,
    ⟨?_, hlinks₂, hfront₂, htail₂⟩, rfl⟩
  · rw [lruPush, setTail_eq]
    change ({ c.withNode ln _ with
      lruTail := if c.lruTail = none then some ln else c.lruTail }.toFront ln >>= _) = _
    rw [htail]
    change (c₁.toFront ln >>= fun c => c.insert ln) = _
    rw [hc₂, some_bind, insert_of_find he₂ hfind]
  · intro b e
    change c₂.entry b = some e ↔ _
    rw [hentry₂, hentry₁]
    exact update_entry_iff hnotMem fun _ => hholds.entry b e
  · rw [List.map_cons]
    change (ln :: c₂.searcher).Perm _
    rw [hsearcher₂]
    exact hholds.searcher.cons ln
  · exact hholds.distinct.cons hnot
  · exact List.nodup_cons.mpr ⟨hnotMem, hlinked.nodup⟩

variable [EquivBEq Key]

/-- `lru_remove` takes a node out of the list and of the hash set. -/
theorem lruRemove_holds (hholds : c.Holds (l₁ ++ (a, e) :: l₂))
    (hlinked : c.Linked (l₁.map Prod.fst ++ a :: l₂.map Prod.fst)) :
    ∃ c', c.lruRemove a = some c' ∧ c'.Holds (l₁ ++ l₂) ∧
      c'.Linked (l₁.map Prod.fst ++ l₂.map Prod.fst) := by
  obtain ⟨hprev, hnext, hprev_ne, hnext_ne⟩ := hlinked.pointers
  obtain ⟨hnodup, hnotMem⟩ := nodup_unlinked hlinked.nodup
  have he : c.entry a = some e := (hholds.entry a e).mpr (by simp)
  have hentry : ∀ b ∈ l₁.map Prod.fst ++ a :: l₂.map Prod.fst, (c.entry b).isSome := by
    intro b hb
    apply hholds.isSome
    rw [List.map_append, List.map_cons]
    exact hb
  -- the neighbours point to each other
  obtain ⟨c₁, hc₁, m₁⟩ := setNext_moves (c := c) (p := c.prev a) (fun b hb => hentry b (by
    rw [hprev] at hb
    exact List.mem_append_left _ (List.mem_of_getLast? hb))) (c.next a)
  obtain ⟨c₂, hc₂, m₂⟩ := setPrev_moves (c := c₁) (p := c.next a) (fun b hb => by
    rw [hnext] at hb
    rw [m₁.entry]
    exact hentry b (List.mem_append_right _ (List.mem_cons_of_mem a (List.mem_of_head? hb))))
    (c.prev a)
  have hentry₂ : c₂.entry = c.entry := m₂.entry.trans m₁.entry
  have hprev₂ : c₂.prev = relink c.prev (c.next a) (c.prev a) := by rw [m₂.prev, m₁.prev]
  have hnext₂ : c₂.next = relink c.next (c.prev a) (c.next a) := m₂.next.trans m₁.next
  have hnode := node_of_entry he
  have hnode₁ := node_of_entry (m₁.entry ▸ he : c₁.entry a = some e)
  rw [m₁.prev, m₁.next, relink_of_ne hprev_ne] at hnode₁
  have hnode₂ := node_of_entry (hentry₂ ▸ he : c₂.entry a = some e)
  rw [hprev₂, hnext₂, relink_of_ne hprev_ne, relink_of_ne hnext_ne] at hnode₂
  let c₃ : LruCache Key Value := { c₂ with
    lruFront := (l₁.map Prod.fst ++ l₂.map Prod.fst).head?
    lruTail := (l₁.map Prod.fst ++ l₂.map Prod.fst).getLast? }
  have hfront : (if c₂.lruFront = some a then c.next a else c₂.lruFront) = c₃.lruFront := by
    rw [m₂.front, m₁.front, hlinked.front, hnext]
    exact head?_unlinked hlinked.nodup
  have htail : (if c₂.lruTail = some a then c.prev a else c₂.lruTail) = c₃.lruTail := by
    rw [m₂.tail, m₁.tail, hlinked.tail, hprev]
    exact getLast?_unlinked_of_nodup hlinked.nodup
  have he₃ : c₃.entry a = some e := hentry₂ ▸ he
  have hholds₃ : c₃.Holds (l₁ ++ (a, e) :: l₂) :=
    hholds.congr hentry₂ (m₂.searcher.trans m₁.searcher)
  have hfind : c₃.find e.1 = some (some a) := hholds₃.find_of_split BEq.rfl
  refine ⟨{ c₃ with searcher := c₃.searcher.erase a }.withoutNode a, ?_, ?_, ?_⟩
  · rw [lruRemove]
    simp only [hnode, some_bind, hc₁, hnode₁, hc₂, hnode₂]
    rw [setFront_eq, hfront, setTail_eq, htail]
    change (c₃.erase a >>= fun c => c.deleteNode a) = _
    rw [erase_of_find he₃ hfind, some_bind]
    exact deleteNode_eq he₃
  · constructor
    · intro b e'
      rw [entry_withoutNode]
      by_cases hb : b = a
      · rw [hb, Function.update_self]
        apply iff_of_false (fun h => nomatch h)
        intro hmem
        apply hnotMem
        rw [← List.map_append]
        exact List.mem_map_of_mem hmem
      · rw [Function.update_of_ne hb]
        change c₂.entry b = some e' ↔ _
        rw [hentry₂, hholds.entry, List.perm_middle.mem_iff, List.mem_cons]
        exact or_iff_right fun heq => hb (Prod.mk.inj heq).1
    · have hperm := hholds.searcher
      rw [List.map_append, List.map_cons] at hperm
      have herase := (hperm.trans List.perm_middle).erase a
      rw [List.erase_cons_head, ← List.map_append, ← m₁.searcher, ← m₂.searcher] at herase
      exact herase
    · have hdistinct := hholds.distinct
      rw [List.map_append, List.map_cons] at hdistinct
      rw [List.map_append]
      exact hdistinct.sublist (UseOrder.sublist_split _ _ e)
  · have hother (b : Nat) (hb : b ∈ l₁.map Prod.fst ++ l₂.map Prod.fst) : b ≠ a :=
      ne_of_mem_of_not_mem hb hnotMem
    refine ⟨hnodup, ?_, rfl, rfl⟩
    apply (hlinked.links.unlink hlinked.nodup).congr
    · intro b hb
      rw [prev_withoutNode, Function.update_of_ne (hother b hb), ← hprev₂]
      rfl
    · intro b hb
      rw [next_withoutNode, Function.update_of_ne (hother b hb), ← hnext₂]
      rfl

theorem lruTouch_represents (hholds : c.Holds (l₁ ++ (a, e) :: l₂))
    (hlinked : c.Linked ((l₁ ++ (a, e) :: l₂).map Prod.fst)) :
    ∃ c', c.lruTouch a = some c' ∧ c'.entry a = some e ∧
      c'.Represents (e :: (l₁ ++ l₂).map Prod.snd) := by
  rw [List.map_append, List.map_cons] at hlinked
  obtain ⟨c', hc', hlinked', hentry, hsearcher⟩ := lruTouch_linked hlinked fun b hb =>
    hholds.isSome b (by rw [List.map_append, List.map_cons]; exact hb)
  refine ⟨c', hc', ?_, (a, e) :: (l₁ ++ l₂), ?_, ?_, rfl⟩
  · rw [hentry, hholds.entry]
    simp
  · exact (hholds.congr hentry hsearcher).perm List.perm_middle
  · rw [List.map_cons, List.map_append]
    exact hlinked'

/-- The node with the entry of a key, if there is one. -/
theorem Holds.split_or_not (h : c.Holds l) (key : Key) :
    (∃ l₁ a e l₂, l = l₁ ++ (a, e) :: l₂ ∧ c.find key = some (some a) ∧
      UseOrder.entryOf (l.map Prod.snd) key = some e ∧
      UseOrder.without (l.map Prod.snd) key = (l₁ ++ l₂).map Prod.snd) ∨
      (∀ e ∈ l.map Prod.snd, (key == e.1) = false) ∧ c.find key = some none := by
  rcases UseOrder.split_or_not (l.map Prod.snd) key with ⟨es₁, e, es₂, hl, hkey⟩ | hnot
  · obtain ⟨l₁, rest, rfl, -, hrest⟩ := List.map_eq_append_iff.mp hl
    obtain ⟨⟨a, e'⟩, l₂, rfl, rfl, -⟩ := List.map_eq_cons_iff.mp hrest
    have hdistinct := h.distinct
    refine .inl ⟨l₁, a, e', l₂, rfl, h.find_of_split hkey, ?_, ?_⟩
    · rw [List.map_append, List.map_cons] at hdistinct ⊢
      rw [UseOrder.entryOf_split hdistinct, if_pos hkey]
    · rw [List.map_append, List.map_cons] at hdistinct ⊢
      rw [UseOrder.without_split hdistinct hkey, List.map_append]
  · exact .inr ⟨hnot, h.find_of_not hnot⟩

theorem get_represents (h : c.Represents entries) (key : Key) :
    ∃ c', c.get key = some ((UseOrder.entryOf entries key).map Prod.snd, c') ∧
      c'.Represents (UseOrder.step entries (.get key)) := by
  obtain ⟨l, hholds, hlinked, rfl⟩ := h
  rcases hholds.split_or_not key with ⟨l₁, a, e, l₂, rfl, hfind, hentry, hwithout⟩ | ⟨hnot, hfind⟩
  · obtain ⟨c', hc', he, hrep⟩ := lruTouch_represents hholds hlinked
    refine ⟨c', ?_, ?_⟩
    · rw [get, hfind, some_bind]
      simp only [hc', some_bind, node_of_entry he, hentry]
      rfl
    · simp only [UseOrder.step, hentry, hwithout]
      exact hrep
  · have hnone := UseOrder.entryOf_of_not hnot
    refine ⟨c, ?_, ?_⟩
    · rw [get, hfind, hnone]
      rfl
    · simp only [UseOrder.step, hnone]
      exact ⟨l, hholds, hlinked, rfl⟩

theorem remove_represents (h : c.Represents entries) (key : Key) :
    ∃ c', c.remove key = some c' ∧ c'.Represents (UseOrder.step entries (.remove key)) := by
  obtain ⟨l, hholds, hlinked, rfl⟩ := h
  rcases hholds.split_or_not key with ⟨l₁, a, e, l₂, rfl, hfind, -, hwithout⟩ | ⟨hnot, hfind⟩
  · rw [List.map_append, List.map_cons] at hlinked
    obtain ⟨c', hc', hholds', hlinked'⟩ := lruRemove_holds hholds hlinked
    refine ⟨c', ?_, l₁ ++ l₂, hholds', ?_, hwithout.symm⟩
    · rw [remove, hfind, some_bind]
      exact hc'
    · rw [List.map_append]
      exact hlinked'
  · refine ⟨c, ?_, l, hholds, hlinked, ?_⟩
    · rw [remove, hfind]
      rfl
    · rw [UseOrder.step, UseOrder.without_of_not hnot]

theorem put_represents (h : c.Represents entries) (key : Key) (value : Value)
    (hln : c.nodes ln = none) :
    ∃ c', c.put key value ln = some c' ∧
      c'.Represents (UseOrder.step entries (.put key value)) := by
  obtain ⟨l, hholds, hlinked, rfl⟩ := h
  rcases hholds.split_or_not key with ⟨l₁, a, e, l₂, rfl, hfind, hentry, hwithout⟩ | ⟨hnot, hfind⟩
  · have he : c.entry a = some e := (hholds.entry a e).mpr (by simp)
    let node : ListNode Key Value := ⟨e.1, value, c.prev a, c.next a⟩
    have hholds' := hholds.setValue hlinked.nodup node rfl
    rw [List.map_append, List.map_cons] at hlinked
    have hlinked' := hlinked.withNode node rfl rfl
    rw [← List.map_cons (f := Prod.fst) (a := (a, node.key, node.value)), ← List.map_append]
      at hlinked'
    obtain ⟨c', hc', -, hrep⟩ := lruTouch_represents hholds' hlinked'
    refine ⟨c', ?_, ?_⟩
    · rw [put, hfind, some_bind]
      simp only [assign_eq he, some_bind]
      exact hc'
    · simp only [UseOrder.step, hentry, hwithout]
      exact hrep
  · obtain ⟨c', hc', hrep⟩ := lruPush_represents hholds hlinked hln hnot
    refine ⟨c', ?_, ?_⟩
    · rw [put, hfind]
      exact hc'
    · simp only [UseOrder.step, UseOrder.entryOf_of_not hnot]
      exact hrep

/-- A call goes through if `new` returns an address that is not in use. -/
theorem step_represents (h : c.Represents entries) (call : CacheCall Key Value)
    (hln : c.nodes ln = none) :
    ∃ c', c.step (call, ln) = some c' ∧ c'.Represents (UseOrder.step entries call) := by
  cases call with
  | get key =>
    obtain ⟨c', hc', hrep⟩ := get_represents h key
    exact ⟨c', by rw [step, hc', Option.map_some], hrep⟩
  | put key value => exact put_represents h key value hln
  | remove key => exact remove_represents h key
  | foreach func => exact ⟨c, by rw [step, foreach_eq h, Option.map_some], h⟩
  | foreachReverse func => exact ⟨c, by rw [step, foreachReverse_eq h, Option.map_some], h⟩
  | destroy => exact destroy_represents h

end

/-! ## Runs -/

/-- `new` returns an address that is not in use. -/
def Fresh (c : LruCache Key Value) (call : CacheCall Key Value × Nat) : Prop :=
  c.nodes call.2 = none

instance (c : LruCache Key Value) (call : CacheCall Key Value × Nat) : Decidable (c.Fresh call) :=
  inferInstanceAs (Decidable (c.nodes call.2 = none))

/-- What the cache is after these calls, the last one first. -/
structure Keeps [BEq Key] (past : List (CacheCall Key Value)) (c : LruCache Key Value) : Prop where
  /-- The nodes from the front to the tail are those of the hash set, each once. -/
  linked : ∃ nodes, c.Linked nodes ∧ c.searcher.Perm nodes
  /-- `get` answers with the value that the key has been given last. -/
  get : ∀ key, ∃ c', c.get key = some (UseOrder.held past key, c')
  /-- `foreach` goes from the key that has been touched last, and `foreach_reverse` to it. -/
  foreach : ∃ entries, UseOrder.InUseOrder past entries ∧ ∀ func,
    c.foreach func c.count = some (UseOrder.shown func [] entries) ∧
      c.foreachReverse func c.count = some (UseOrder.shown func [] entries.reverse)
  /-- No call follows a null or dangling pointer. -/
  goes : ∀ call, c.Fresh call → (c.step call).isSome

section

variable [BEq Key] [EquivBEq Key] {c c' : LruCache Key Value}
  {calls : List (CacheCall Key Value × Nat)} {past : List (CacheCall Key Value)}
  {entries : List (Key × Value)}

theorem Represents.keeps (h : c.Represents entries) (huse : UseOrder.InUseOrder past entries) :
    c.Keeps past where
  linked := by
    obtain ⟨l, hholds, hlinked, -⟩ := h
    exact ⟨l.map Prod.fst, hlinked, hholds.searcher⟩
  get key := by
    obtain ⟨c', hc', -⟩ := get_represents h key
    rw [huse.held] at hc'
    exact ⟨c', hc'⟩
  foreach := ⟨entries, huse, fun func => ⟨foreach_eq h func, foreachReverse_eq h func⟩⟩
  goes call hfresh := by
    obtain ⟨c', hc', -⟩ := step_represents h call.1 hfresh
    exact Option.isSome_iff_exists.mpr ⟨c', hc'⟩

theorem run_represents (h : Run step Fresh c calls c') (hrep : c.Represents entries)
    (huse : UseOrder.InUseOrder past entries) :
    ∃ entries', c'.Represents entries' ∧
      UseOrder.InUseOrder ((calls.map Prod.fst).reverse ++ past) entries' := by
  induction h generalizing entries past with
  | nil c => exact ⟨entries, hrep, huse⟩
  | @cons c c₁ c' call calls hfresh hstep _ ih =>
    obtain ⟨c₂, hc₂, hrep₂⟩ := step_represents hrep call.1 hfresh
    rw [hstep] at hc₂
    obtain rfl := Option.some.inj hc₂
    obtain ⟨entries', hrep', huse'⟩ := ih hrep₂ (huse.step call.1)
    refine ⟨entries', hrep', ?_⟩
    rw [List.map_cons, List.reverse_cons, List.append_assoc, List.singleton_append]
    exact huse'

/-- After every run of calls the list goes through the hash set in the order of use. -/
theorem run_keepsUseOrder (h : Run step Fresh create calls c) :
    c.Keeps (calls.map Prod.fst).reverse := by
  obtain ⟨entries, hrep, huse⟩ := run_represents h create_represents UseOrder.inUseOrder_nil
  rw [List.append_nil] at huse
  exact hrep.keeps huse

end

/-- A key in the middle is used again, and another one is taken out. -/
theorem run_keepsUseOrder_again :
    ∃ c : LruCache Nat Nat,
      Run step Fresh create
        [(.put 1 10, 0), (.put 2 20, 1), (.put 3 30, 2), (.get 2, 3), (.remove 3, 3)] c ∧
        c.Keeps [.remove 3, .get 2, .put 3 30, .put 2 20, .put 1 10] := by
  obtain ⟨c, hc⟩ : ∃ c : LruCache Nat Nat, Run.check step Fresh create
      [(.put 1 10, 0), (.put 2 20, 1), (.put 3 30, 2), (.get 2, 3), (.remove 3, 3)] = some c :=
    ⟨_, rfl⟩
  exact ⟨c, Run.of_check hc, run_keepsUseOrder (Run.of_check hc)⟩

section

variable [DecidableEq Key] {c c' : LruCache Key Value} {cache : ObHtap.LruCache Key Value}

/-- The cache does with its nodes what the association list does with its entries. -/
theorem step_refines (h : c.Represents cache.toPairs) (call : CacheCall Key Value × Nat)
    (hfresh : c.Fresh call) :
    ∃ c', c.step call = some c' ∧ c'.Represents (cache.after call.1).toPairs := by
  rw [ObHtap.LruCache.toPairs_after]
  exact step_represents h call.1 hfresh

/-- Over every run of calls the cache is the association list with the same calls. -/
theorem run_refines {calls : List (CacheCall Key Value × Nat)}
    (hrun : Run step Fresh c calls c') (h : c.Represents cache.toPairs) :
    c'.Represents ((calls.map Prod.fst).foldl ObHtap.LruCache.after cache).toPairs := by
  induction hrun generalizing cache with
  | nil c => exact h
  | cons hfresh hstep _ ih =>
    obtain ⟨c₁, hc₁, h₁⟩ := step_refines h _ hfresh
    rw [hstep] at hc₁
    obtain rfl := Option.some.inj hc₁
    exact ih h₁

end

/-- A key gets another value and is in front. -/
theorem run_refines_again :
    ∃ c : LruCache Nat Nat,
      Run step Fresh create [(.put 1 10, 0), (.put 2 20, 1), (.put 1 30, 2)] c ∧
        c.Represents [(1, 30), (2, 20)] := by
  obtain ⟨c, hc⟩ : ∃ c : LruCache Nat Nat, Run.check step Fresh create
      [(.put 1 10, 0), (.put 2 20, 1), (.put 1 30, 2)] = some c :=
    ⟨_, rfl⟩
  have hrefines := @run_refines Nat Nat _ create c ∅ _ (Run.of_check hc) create_represents
  exact ⟨c, Run.of_check hc, hrefines⟩

end LruCache

end Common

end ObHtap
