import ObHtap.Library.LinkedList
import ObHtap.Library.LruCache

/-!
# `LruCache`

The cache of `deps/common/lang/lru_cache.h`: a hash set of list nodes that are doubly linked in the
order of their use.  A null or dangling pointer that is followed ends the program.
-/

namespace ObHtap

namespace Common

/-- `ListNode`. -/
structure ListNode (Key Value : Type) where
  key : Key
  value : Value
  prev : Option Nat
  next : Option Nat

/-- `LruCache`, with the nodes that it has allocated.  Pointers are addresses of nodes, and the
hash set holds pointers. -/
structure LruCache (Key Value : Type) where
  nodes : Nat → Option (ListNode Key Value)
  searcher : List Nat
  lruFront : Option Nat
  lruTail : Option Nat

namespace LruCache

variable {Key Value : Type}

/-- A new cache. -/
def create : LruCache Key Value :=
  ⟨fun _ => none, [], none, none⟩

/-- `count`. -/
def count (c : LruCache Key Value) : Nat :=
  c.searcher.length

/-- Changes the node at an address. -/
def assign (c : LruCache Key Value) (a : Nat) (f : ListNode Key Value → ListNode Key Value) :
    Option (LruCache Key Value) := do
  return { c with nodes := Function.update c.nodes a (some (f (← c.nodes a))) }

/-- `if (p != nullptr) { p->next_ = q; }`. -/
def setNext (c : LruCache Key Value) (p q : Option Nat) : Option (LruCache Key Value) :=
  match p with
  | none => some c
  | some a => c.assign a fun node => { node with next := q }

/-- `if (p != nullptr) { p->prev_ = q; }`. -/
def setPrev (c : LruCache Key Value) (p q : Option Nat) : Option (LruCache Key Value) :=
  match p with
  | none => some c
  | some a => c.assign a fun node => { node with prev := q }

/-- The end of `lru_touch` and of `lru_push`: the node goes to the front. -/
def toFront (c : LruCache Key Value) (node : Nat) : Option (LruCache Key Value) := do
  let c ← c.setPrev node none
  let c ← c.setNext node c.lruFront
  let c ← c.setPrev c.lruFront node
  return { c with lruFront := node }

/-- `lru_touch`. -/
def lruTouch (c : LruCache Key Value) (node : Nat) : Option (LruCache Key Value) := do
  if (← c.nodes node).prev = none then return c
  let c ← c.setNext (← c.nodes node).prev (← c.nodes node).next
  let c ←
    if (← c.nodes node).next ≠ none then
      c.setPrev (← c.nodes node).next (← c.nodes node).prev
    else pure { c with lruTail := (← c.nodes node).prev }
  c.toFront node

section

variable [BEq Key]

/-- `searcher_.find`: an element of the hash set whose key is equal.  Equal keys have equal hashes, and
the hash only says which elements are compared. -/
def find (c : LruCache Key Value) (key : Key) : Option (Option Nat) :=
  c.searcher.findM? fun a => do return key == (← c.nodes a).key

/-- `searcher_.insert`, which inserts nothing if there is an element with an equal key. -/
def insert (c : LruCache Key Value) (node : Nat) : Option (LruCache Key Value) := do
  match ← c.find (← c.nodes node).key with
  | some _ => return c
  | none => return { c with searcher := node :: c.searcher }

/-- `searcher_.erase` of the element with an equal key. -/
def erase (c : LruCache Key Value) (node : Nat) : Option (LruCache Key Value) := do
  match ← c.find (← c.nodes node).key with
  | some a => return { c with searcher := c.searcher.erase a }
  | none => return c

/-- `lru_push`. -/
def lruPush (c : LruCache Key Value) (node : Nat) : Option (LruCache Key Value) := do
  let c := if c.lruTail = none then { c with lruTail := some node } else c
  let c ← c.toFront node
  c.insert node

/-- `delete`. -/
def deleteNode (c : LruCache Key Value) (node : Nat) : Option (LruCache Key Value) := do
  let _ ← c.nodes node
  return { c with nodes := Function.update c.nodes node none }

/-- `lru_remove`. -/
def lruRemove (c : LruCache Key Value) (node : Nat) : Option (LruCache Key Value) := do
  let c ← c.setNext (← c.nodes node).prev (← c.nodes node).next
  let c ← c.setPrev (← c.nodes node).next (← c.nodes node).prev
  let n ← c.nodes node
  let c := if c.lruFront = some node then { c with lruFront := n.next } else c
  let c := if c.lruTail = some node then { c with lruTail := n.prev } else c
  let c ← c.erase node
  c.deleteNode node

/-- `get`: the value, if there is one. -/
def get (c : LruCache Key Value) (key : Key) : Option (Option Value × LruCache Key Value) := do
  match ← c.find key with
  | none => return (none, c)
  | some node =>
    let c ← c.lruTouch node
    return (some (← c.nodes node).value, c)

/-- `put`, where `new` returns the address `ln`. -/
def put (c : LruCache Key Value) (key : Key) (value : Value) (ln : Nat) :
    Option (LruCache Key Value) := do
  match ← c.find key with
  | some node =>
    let c ← c.assign node fun node => { node with value }
    c.lruTouch node
  | none =>
    let node : ListNode Key Value := ⟨key, value, none, none⟩
    { c with nodes := Function.update c.nodes ln (some node) }.lruPush ln

/-- `remove`. -/
def remove (c : LruCache Key Value) (key : Key) : Option (LruCache Key Value) := do
  match ← c.find key with
  | some node => c.lruRemove node
  | none => return c

end

/-- `destroy`. -/
def destroy (c : LruCache Key Value) : Option (LruCache Key Value) := do
  let c ← c.searcher.foldlM deleteNode c
  return ⟨c.nodes, [], none, none⟩

/-- The loop of `foreach` and of `foreach_reverse` from a pointer on, in so many rounds at most:
the entries that the callback is shown. -/
def walk (c : LruCache Key Value) (step : ListNode Key Value → Option Nat)
    (func : List (Key × Value) → Bool) :
    Nat → Option Nat → List (Key × Value) → Option (List (Key × Value))
  | _, none, seen => some seen
  | 0, some _, _ => none
  | rounds + 1, some a, seen => do
    let node ← c.nodes a
    let seen := seen ++ [(node.key, node.value)]
    if func seen then walk c step func rounds (step node) seen else return seen

/-- `foreach`. -/
def foreach (c : LruCache Key Value) (func : List (Key × Value) → Bool) (rounds : Nat) :
    Option (List (Key × Value)) :=
  c.walk ListNode.next func rounds c.lruFront []

/-- `foreach_reverse`. -/
def foreachReverse (c : LruCache Key Value) (func : List (Key × Value) → Bool) (rounds : Nat) :
    Option (List (Key × Value)) :=
  c.walk ListNode.prev func rounds c.lruTail []

/-- A call, with the address that `new` returns if there is need of one. -/
def step [BEq Key] (c : LruCache Key Value) :
    CacheCall Key Value × Nat → Option (LruCache Key Value)
  | (.get key, _) => (c.get key).map Prod.snd
  | (.put key value, ln) => c.put key value ln
  | (.remove key, _) => c.remove key
  | (.foreach func, _) => (c.foreach func c.count).map fun _ => c
  | (.foreachReverse func, _) => (c.foreachReverse func c.count).map fun _ => c
  | (.destroy, _) => c.destroy

/-! ## The representation -/

/-- The pointers back. -/
def prev (c : LruCache Key Value) (a : Nat) : Option Nat :=
  (c.nodes a).bind ListNode.prev

/-- The pointers on. -/
def next (c : LruCache Key Value) (a : Nat) : Option Nat :=
  (c.nodes a).bind ListNode.next

/-- The key and the value of a node. -/
def entry (c : LruCache Key Value) (a : Nat) : Option (Key × Value) :=
  (c.nodes a).map fun node => (node.key, node.value)

/-- The list from `lru_front_` to `lru_tail_` goes through these nodes, in both directions. -/
structure Linked (c : LruCache Key Value) (nodes : List Nat) : Prop where
  nodup : nodes.Nodup
  links : Doubly c.prev c.next none nodes none
  front : c.lruFront = nodes.head?
  tail : c.lruTail = nodes.getLast?

/-- These are the nodes with their keys and values: all that are allocated, and all that are in
the hash set, which has no two equal keys. -/
structure Holds [BEq Key] (c : LruCache Key Value) (l : List (Nat × Key × Value)) : Prop where
  entry : ∀ a e, c.entry a = some e ↔ (a, e) ∈ l
  searcher : c.searcher.Perm (l.map Prod.fst)
  distinct : UseOrder.Distinct (l.map Prod.snd)

/-! ## Pointers are changed -/

section

variable {c c' : LruCache Key Value} {p q front tail : Option Nat} {a : Nat} {e : Key × Value}
  {nodes l₁ l₂ : List Nat} {prev' next' : Nat → Option Nat}

theorem some_bind {α β : Type} (x : α) (f : α → Option β) : (some x >>= f) = f x := rfl

theorem node_of_entry (h : c.entry a = some e) :
    c.nodes a = some ⟨e.1, e.2, c.prev a, c.next a⟩ := by
  obtain ⟨node, hnode, rfl⟩ := Option.map_eq_some_iff.mp h
  rw [prev, next, hnode]
  rfl

/-- The cache with another node at an address. -/
def withNode (c : LruCache Key Value) (a : Nat) (node : ListNode Key Value) : LruCache Key Value :=
  { c with nodes := Function.update c.nodes a (some node) }

@[simp] theorem prev_withNode (c : LruCache Key Value) (a : Nat) (node : ListNode Key Value) :
    (c.withNode a node).prev = Function.update c.prev a node.prev := by
  funext b
  by_cases hb : b = a
  · simp [prev, withNode, hb]
  · simp [prev, withNode, hb]

@[simp] theorem next_withNode (c : LruCache Key Value) (a : Nat) (node : ListNode Key Value) :
    (c.withNode a node).next = Function.update c.next a node.next := by
  funext b
  by_cases hb : b = a
  · simp [next, withNode, hb]
  · simp [next, withNode, hb]

@[simp] theorem entry_withNode (c : LruCache Key Value) (a : Nat) (node : ListNode Key Value) :
    (c.withNode a node).entry = Function.update c.entry a (some (node.key, node.value)) := by
  funext b
  by_cases hb : b = a
  · simp [entry, withNode, hb]
  · simp [entry, withNode, hb]

theorem assign_eq (h : c.entry a = some e) (f : ListNode Key Value → ListNode Key Value) :
    c.assign a f = some (c.withNode a (f ⟨e.1, e.2, c.prev a, c.next a⟩)) := by
  rw [assign, node_of_entry h]
  rfl

/-- The cache without the node at an address. -/
def withoutNode (c : LruCache Key Value) (a : Nat) : LruCache Key Value :=
  { c with nodes := Function.update c.nodes a none }

@[simp] theorem prev_withoutNode (c : LruCache Key Value) (a : Nat) :
    (c.withoutNode a).prev = Function.update c.prev a none := by
  funext b
  by_cases hb : b = a
  · simp [prev, withoutNode, hb]
  · simp [prev, withoutNode, hb]

@[simp] theorem next_withoutNode (c : LruCache Key Value) (a : Nat) :
    (c.withoutNode a).next = Function.update c.next a none := by
  funext b
  by_cases hb : b = a
  · simp [next, withoutNode, hb]
  · simp [next, withoutNode, hb]

@[simp] theorem entry_withoutNode (c : LruCache Key Value) (a : Nat) :
    (c.withoutNode a).entry = Function.update c.entry a none := by
  funext b
  by_cases hb : b = a
  · simp [entry, withoutNode, hb]
  · simp [entry, withoutNode, hb]

theorem deleteNode_eq (h : c.entry a = some e) : c.deleteNode a = some (c.withoutNode a) := by
  rw [deleteNode, node_of_entry h]
  rfl

theorem foldlM_deleteNode (hnodup : nodes.Nodup)
    (hentry : ∀ a ∈ nodes, (c.entry a).isSome) :
    ∃ c', nodes.foldlM deleteNode c = some c' ∧
      ∀ b, c'.entry b = if b ∈ nodes then none else c.entry b := by
  induction nodes generalizing c with
  | nil => exact ⟨c, rfl, fun b => (if_neg List.not_mem_nil).symm⟩
  | cons a nodes ih =>
    rw [List.forall_mem_cons] at hentry
    obtain ⟨ha, hnodup⟩ := List.nodup_cons.mp hnodup
    obtain ⟨e, he⟩ := Option.isSome_iff_exists.mp hentry.1
    have hrest : ∀ b ∈ nodes, ((c.withoutNode a).entry b).isSome := by
      intro b hb
      rw [entry_withoutNode, Function.update_of_ne (ne_of_mem_of_not_mem hb ha)]
      exact hentry.2 b hb
    obtain ⟨c', hc', hb⟩ := ih hnodup hrest
    refine ⟨c', ?_, fun b => ?_⟩
    · rw [List.foldlM_cons, deleteNode_eq he, some_bind]
      exact hc'
    · rw [hb, entry_withoutNode, Function.update_apply]
      by_cases hba : b = a
      · simp [hba]
      · simp [hba]

/-- Nothing but pointers differs. -/
structure Moves (c c' : LruCache Key Value) (prev next : Nat → Option Nat)
    (front tail : Option Nat) : Prop where
  prev : c'.prev = prev
  next : c'.next = next
  front : c'.lruFront = front
  tail : c'.lruTail = tail
  entry : c'.entry = c.entry
  searcher : c'.searcher = c.searcher

theorem setNext_moves (h : ∀ a ∈ p, (c.entry a).isSome) (q : Option Nat) :
    ∃ c', c.setNext p q = some c' ∧
      Moves c c' c.prev (relink c.next p q) c.lruFront c.lruTail := by
  cases p with
  | none => exact ⟨c, rfl, rfl, rfl, rfl, rfl, rfl, rfl⟩
  | some a =>
    obtain ⟨e, he⟩ := Option.isSome_iff_exists.mp (h a rfl)
    refine ⟨_, assign_eq he _, ?_, next_withNode _ _ _, rfl, rfl, ?_, rfl⟩
    · rw [prev_withNode, Function.update_eq_self]
    · rw [entry_withNode, ← he, Function.update_eq_self]

theorem setPrev_moves (h : ∀ a ∈ p, (c.entry a).isSome) (q : Option Nat) :
    ∃ c', c.setPrev p q = some c' ∧
      Moves c c' (relink c.prev p q) c.next c.lruFront c.lruTail := by
  cases p with
  | none => exact ⟨c, rfl, rfl, rfl, rfl, rfl, rfl, rfl⟩
  | some a =>
    obtain ⟨e, he⟩ := Option.isSome_iff_exists.mp (h a rfl)
    refine ⟨_, assign_eq he _, prev_withNode _ _ _, ?_, rfl, rfl, ?_, rfl⟩
    · rw [next_withNode, Function.update_eq_self]
    · rw [entry_withNode, ← he, Function.update_eq_self]

/-- A node outside of the list goes to its front. -/
theorem toFront_linked (hnodup : nodes.Nodup) (hlinks : Doubly c.prev c.next none nodes none)
    (hfront : c.lruFront = nodes.head?) (ha : a ∉ nodes)
    (hentry : ∀ b ∈ a :: nodes, (c.entry b).isSome) :
    ∃ c', c.toFront a = some c' ∧ Doubly c'.prev c'.next none (a :: nodes) none ∧
      c'.lruFront = some a ∧ c'.lruTail = c.lruTail ∧ c'.entry = c.entry ∧
        c'.searcher = c.searcher := by
  have hsome (p : Option Nat) (hp : ∀ b ∈ p, b ∈ a :: nodes) : ∀ b ∈ p, (c.entry b).isSome :=
    fun b hb => hentry b (hp b hb)
  have hself : ∀ b ∈ some a, (c.entry b).isSome :=
    hsome _ fun b hb => Option.some.inj hb ▸ List.mem_cons_self
  have hhead : ∀ b ∈ nodes.head?, (c.entry b).isSome :=
    hsome _ fun b hb => List.mem_cons_of_mem a (List.mem_of_head? hb)
  obtain ⟨c₁, hc₁, m₁⟩ := setPrev_moves hself none
  obtain ⟨c₂, hc₂, m₂⟩ := setNext_moves (c := c₁) (m₁.entry ▸ hself) c₁.lruFront
  have hfront₂ : c₂.lruFront = nodes.head? := by rw [m₂.front, m₁.front, hfront]
  obtain ⟨c₃, hc₃, m₃⟩ := setPrev_moves (c := c₂) (p := c₂.lruFront)
    (by rw [hfront₂, m₂.entry, m₁.entry]; exact hhead) a
  refine ⟨{ c₃ with lruFront := some a }, ?_, ?_, rfl, ?_, ?_, ?_⟩
  · rw [toFront, hc₁, some_bind, hc₂, some_bind, hc₃, some_bind]
    rfl
  · have hpush := hlinks.pushFront hnodup ha
    have hprev : c₃.prev = relink (Function.update c.prev a none) nodes.head? (some a) := by
      rw [m₃.prev, hfront₂, m₂.prev, m₁.prev]
      rfl
    have hnext : c₃.next = Function.update c.next a nodes.head? := by
      rw [m₃.next, m₂.next, m₁.next, m₁.front, hfront]
      rfl
    rw [← hprev, ← hnext] at hpush
    exact hpush
  · exact m₃.tail.trans (m₂.tail.trans m₁.tail)
  · exact m₃.entry.trans (m₂.entry.trans m₁.entry)
  · exact m₃.searcher.trans (m₂.searcher.trans m₁.searcher)

theorem Linked.withNode (h : c.Linked nodes) (node : ListNode Key Value)
    (hprev : node.prev = c.prev a) (hnext : node.next = c.next a) :
    (c.withNode a node).Linked nodes where
  nodup := h.nodup
  links := by
    rw [prev_withNode, next_withNode, hprev, hnext, Function.update_eq_self,
      Function.update_eq_self]
    exact h.links
  front := h.front
  tail := h.tail

theorem Linked.pointers (h : c.Linked (l₁ ++ a :: l₂)) :
    c.prev a = l₁.getLast? ∧ c.next a = l₂.head? ∧ c.prev a ≠ some a ∧ c.next a ≠ some a := by
  have hprev : c.prev a = l₁.getLast? := by rw [h.links.prev_of_append, Option.or_none]
  have hnext : c.next a = l₂.head? := by rw [h.links.next_of_append, Option.or_none]
  obtain ⟨-, hbehind, hdisjoint⟩ := List.nodup_append'.mp h.nodup
  refine ⟨hprev, hnext, ?_, ?_⟩
  · rw [hprev]
    exact fun hlast => hdisjoint (List.mem_of_getLast? hlast) List.mem_cons_self
  · rw [hnext]
    exact fun hhead => (List.nodup_cons.mp hbehind).1 (List.mem_of_head? hhead)

theorem nodup_unlinked (h : (l₁ ++ a :: l₂).Nodup) : (l₁ ++ l₂).Nodup ∧ a ∉ l₁ ++ l₂ := by
  have hperm : (a :: (l₁ ++ l₂)).Nodup := List.perm_middle.nodup_iff.mp h
  exact ⟨(List.nodup_cons.mp hperm).2, (List.nodup_cons.mp hperm).1⟩

theorem getLast?_unlinked (h : l₂ ≠ []) : (l₁ ++ a :: l₂).getLast? = (l₁ ++ l₂).getLast? := by
  obtain ⟨b, l, rfl⟩ := List.exists_cons_of_ne_nil h
  simp only [List.getLast?_append, List.getLast?_cons_cons]

/-- A node in the list goes to its front. -/
theorem lruTouch_linked (h : c.Linked (l₁ ++ a :: l₂))
    (hentry : ∀ b ∈ l₁ ++ a :: l₂, (c.entry b).isSome) :
    ∃ c', c.lruTouch a = some c' ∧ c'.Linked (a :: (l₁ ++ l₂)) ∧ c'.entry = c.entry ∧
      c'.searcher = c.searcher := by
  obtain ⟨hprev, hnext, hprev_ne, hnext_ne⟩ := h.pointers
  obtain ⟨hnodup, hnotMem⟩ := nodup_unlinked h.nodup
  obtain ⟨e, he⟩ := Option.isSome_iff_exists.mp (hentry a (by simp))
  have hnode := node_of_entry he
  by_cases hfirst : l₁ = []
  · -- the node is in front already
    subst hfirst
    have hnone : c.prev a = none := hprev
    refine ⟨c, ?_, h, rfl, rfl⟩
    rw [lruTouch, hnode, some_bind, if_pos hnone]
    rfl
  have hsome : c.prev a ≠ none := by
    rw [hprev, Ne, List.getLast?_eq_none_iff]
    exact hfirst
  have hentry_prev : ∀ b ∈ c.prev a, (c.entry b).isSome := by
    intro b hb
    rw [hprev] at hb
    exact hentry b (List.mem_append_left _ (List.mem_of_getLast? hb))
  have hentry_next : ∀ b ∈ c.next a, (c.entry b).isSome := by
    intro b hb
    rw [hnext] at hb
    exact hentry b (List.mem_append_right l₁ (List.mem_cons_of_mem a (List.mem_of_head? hb)))
  obtain ⟨c₁, hc₁, m₁⟩ := setNext_moves hentry_prev (c.next a)
  have hnode₁ : c₁.nodes a = some ⟨e.1, e.2, c.prev a, c.next a⟩ := by
    rw [node_of_entry (m₁.entry ▸ he), m₁.prev, m₁.next, relink_of_ne hprev_ne]
  obtain ⟨c₂, hc₂, m₂⟩ : ∃ c₂,
      (if c.next a ≠ none then c₁.setPrev (c.next a) (c.prev a)
        else pure { c₁ with lruTail := c.prev a }) = some c₂ ∧
      Moves c c₂ (relink c.prev (c.next a) (c.prev a)) (relink c.next (c.prev a) (c.next a))
        c.lruFront (l₁ ++ l₂).getLast? := by
    by_cases hlast : l₂ = []
    · have hnone : c.next a = none := by rw [hnext, hlast, List.head?_nil]
      refine ⟨{ c₁ with lruTail := c.prev a }, ?_, ?_, m₁.next, m₁.front, ?_, m₁.entry,
        m₁.searcher⟩
      · rw [if_neg (not_not.mpr hnone)]
        rfl
      · rw [hnone]
        exact m₁.prev
      · rw [hlast, List.append_nil]
        exact hprev
    · have hne : c.next a ≠ none := by
        rw [hnext, Ne, List.head?_eq_none_iff]
        exact hlast
      obtain ⟨c₂, hc₂, m₂⟩ := setPrev_moves (c := c₁) (m₁.entry ▸ hentry_next) (c.prev a)
      refine ⟨c₂, ?_, ?_, m₂.next.trans m₁.next, m₂.front.trans m₁.front, ?_,
        m₂.entry.trans m₁.entry, m₂.searcher.trans m₁.searcher⟩
      · rw [if_pos hne, hc₂]
      · rw [m₂.prev, m₁.prev]
      · rw [m₂.tail, m₁.tail, h.tail]
        exact getLast?_unlinked hlast
  have hlinks := h.links.unlink h.nodup
  rw [← m₂.prev, ← m₂.next] at hlinks
  have hfront : c₂.lruFront = (l₁ ++ l₂).head? := by
    rw [m₂.front, h.front, List.head?_append_of_ne_nil _ hfirst,
      List.head?_append_of_ne_nil _ hfirst]
  obtain ⟨c', hc', hlinked, hfront', htail', hentry', hsearcher'⟩ :=
    toFront_linked hnodup hlinks hfront hnotMem (by
      intro b hb
      rw [m₂.entry]
      exact hentry b (List.perm_middle.mem_iff.mpr hb))
  refine ⟨c', ?_, ⟨?_, hlinked, hfront', ?_⟩, hentry'.trans m₂.entry,
    hsearcher'.trans m₂.searcher⟩
  · rw [lruTouch, hnode, some_bind, if_neg hsome]
    simp only [some_bind, hc₁, hnode₁]
    split_ifs at hc₂ ⊢
    · rw [hc₂, some_bind, hc']
    · rw [hc₂, some_bind, hc']
  · exact List.nodup_cons.mpr ⟨hnotMem, hnodup⟩
  · have hne : l₁ ++ l₂ ≠ [] := List.append_ne_nil_of_left_ne_nil hfirst l₂
    rw [htail', m₂.tail]
    have hlast : ([] ++ a :: (l₁ ++ l₂)).getLast? = ([] ++ (l₁ ++ l₂)).getLast? :=
      getLast?_unlinked hne
    exact hlast.symm

theorem setFront_eq (p q : Option Nat) :
    (if c.lruFront = p then { c with lruFront := q } else c) =
      { c with lruFront := if c.lruFront = p then q else c.lruFront } := by
  split_ifs <;> rfl

theorem setTail_eq (p q : Option Nat) :
    (if c.lruTail = p then { c with lruTail := q } else c) =
      { c with lruTail := if c.lruTail = p then q else c.lruTail } := by
  split_ifs <;> rfl

theorem head?_unlinked (h : (l₁ ++ a :: l₂).Nodup) :
    (if (l₁ ++ a :: l₂).head? = some a then l₂.head? else (l₁ ++ a :: l₂).head?) =
      (l₁ ++ l₂).head? := by
  cases l₁ with
  | nil => exact if_pos rfl
  | cons b l₁ =>
    have hne : b ≠ a := by
      rintro rfl
      exact (nodup_unlinked h).2 List.mem_cons_self
    exact if_neg fun heq => hne (Option.some.inj heq)

theorem getLast?_unlinked_of_nodup (h : (l₁ ++ a :: l₂).Nodup) :
    (if (l₁ ++ a :: l₂).getLast? = some a then l₁.getLast? else (l₁ ++ a :: l₂).getLast?) =
      (l₁ ++ l₂).getLast? := by
  by_cases hlast : l₂ = []
  · rw [hlast, List.append_nil, if_pos]
    rw [List.getLast?_append, List.getLast?_singleton, Option.some_or]
  · rw [getLast?_unlinked hlast, if_neg]
    exact fun heq => (nodup_unlinked h).2 (List.mem_of_getLast? heq)

/-- The loop of `foreach` shows the entries along the list. -/
theorem walk_eq {other : Nat → Option Nat} {l : List (Nat × Key × Value)}
    {step : ListNode Key Value → Option Nat} {before : Option Nat} {rounds : Nat}
    (func : List (Key × Value) → Bool)
    (hlinks : Doubly other (fun a => (c.nodes a).bind step) before (l.map Prod.fst) none)
    (hentry : ∀ x ∈ l, c.entry x.1 = some x.2) (hrounds : l.length ≤ rounds)
    (seen : List (Key × Value)) :
    c.walk step func rounds (l.map Prod.fst).head? seen =
      some (UseOrder.shown func seen (l.map Prod.snd)) := by
  induction l generalizing before rounds seen with
  | nil =>
    rw [List.map_nil, List.head?_nil, walk]
    rfl
  | cons x l ih =>
    obtain ⟨rounds, rfl⟩ : ∃ n, rounds = n + 1 :=
      Nat.exists_eq_succ_of_ne_zero (Nat.ne_zero_of_lt hrounds)
    rw [List.map_cons] at hlinks ⊢
    obtain ⟨-, hnext, hrest⟩ := hlinks
    rw [List.forall_mem_cons] at hentry
    have hnode := node_of_entry hentry.1
    change (c.nodes x.1).bind step = _ at hnext
    rw [hnode, Option.or_none] at hnext
    rw [List.head?_cons, walk, hnode, some_bind, List.map_cons, UseOrder.shown]
    change (if func (seen ++ [x.2]) = true then c.walk step func rounds _ (seen ++ [x.2]) else _) = _
    split_ifs
    · rw [← ih hrest hentry.2 (Nat.le_of_succ_le_succ hrounds)]
      exact congrArg (fun p => c.walk step func rounds p (seen ++ [x.2])) hnext
    · rfl

end

end LruCache

end Common

end ObHtap
