import ObHtap.Bplus.MiniTransaction
import ObHtap.Common.LowerBound

/-!
# Node handlers

The operations of `IndexNodeHandler`, `LeafIndexNodeHandler` and `InternalIndexNodeHandler` on
the node of a page.  Every change is logged before it is made.
-/

namespace ObHtap

variable {κ : Type}

/-- The handler class through which a page is accessed.  `IndexNodeHandler` itself has no
items: its `__item_at` is the null pointer. -/
inductive HandlerKind where
  | base
  | leaf
  | internal
  deriving DecidableEq

/-! ## `IndexNodeHandler` -/

namespace IndexNodeHandler

def maxSize (header : IndexFileHeader) (node : IndexNode κ) : Nat :=
  if node.isLeaf then header.leafMaxSize else header.internalMaxSize

def minSize (header : IndexFileHeader) (node : IndexNode κ) : Nat :=
  maxSize header node - maxSize header node / 2

def setParentPageNum (pageNum parentPage : PageNum) : MtrM κ Unit := do
  let node ← readNode pageNum
  appendLogEntry (.setParentPage pageNum parentPage node.parent)
  writeNode pageNum { node with parent := parentPage }

def initEmpty (pageNum : PageNum) (leaf : Bool) : MtrM κ Unit := do
  let node ← readNode pageNum
  writeNode pageNum { node with isLeaf := leaf, items := [], parent := bpInvalidPageNum }

/-- `recover_insert_items`.  Through the base handler the bytes would be moved to and from the
null pointer.  Past the end of the items there would be a gap. -/
def recoverInsertItems (kind : HandlerKind) (pageNum : PageNum) (index : Nat)
    (items : List (Item κ)) : MtrM κ Unit := do
  let node ← readNode pageNum
  if kind = .base ∧ (index < node.size ∨ items ≠ []) then throw .abort
  else if node.size < index then throw .abort
  else writeNode pageNum { node with items := node.items.take index ++ items ++ node.items.drop index }

/-- `recover_remove_items`.  Bytes are moved only when items follow the removed ones. -/
def recoverRemoveItems (kind : HandlerKind) (pageNum : PageNum) (index num : Nat) :
    MtrM κ Unit := do
  let node ← readNode pageNum
  if node.size < num then throw .abort
  else if index < node.size - num then
    if kind = .base then throw .abort
    else writeNode pageNum { node with items := node.items.take index ++ node.items.drop (index + num) }
  else writeNode pageNum { node with items := node.items.take (node.size - num) }

/-- `increase_size(-n)`: the last `n` items are cut off. -/
def decreaseSize (pageNum : PageNum) (n : Nat) : MtrM κ Unit := do
  let node ← readNode pageNum
  writeNode pageNum { node with items := node.items.take (node.size - n) }

/-- The item in a slot; the slot has to be in use. -/
def itemAt (pageNum : PageNum) (index : Int) : MtrM κ (Item κ) := do
  let node ← readNode pageNum
  if index < 0 then throw .abort
  else match node.items[index.toNat]? with
    | some item => pure item
    | none => throw .abort

def keyAt (pageNum : PageNum) (index : Int) : MtrM κ κ := do
  return (← itemAt pageNum index).key

end IndexNodeHandler

open IndexNodeHandler

/-- The comparator at a slot of the array, as the binary search calls it. -/
def compareAt (keyComparator : κ → κ → Int) (items : List (Item κ)) (key : κ) (i : Nat) : Int :=
  match items[i]? with
  | some item => keyComparator item.key key
  | none => 0

/-! ## `LeafIndexNodeHandler` -/

namespace LeafIndexNodeHandler

def initEmpty (pageNum : PageNum) : MtrM κ Unit := do
  appendLogEntry (.leafInitEmpty pageNum)
  IndexNodeHandler.initEmpty pageNum true
  let node ← readNode pageNum
  writeNode pageNum { node with nextBrother := bpInvalidPageNum }

def setNextPage (pageNum nextPage : PageNum) : MtrM κ Unit := do
  let node ← readNode pageNum
  appendLogEntry (.leafSetNextPage pageNum nextPage node.nextBrother)
  writeNode pageNum { node with nextBrother := nextPage }

/-- `lookup`: the position for the key and whether the key is there. -/
def lookup (keyComparator : κ → κ → Int) (node : IndexNode κ) (key : κ) : Nat × Bool :=
  lowerBound (compareAt keyComparator node.items key) node.size

def insert (pageNum : PageNum) (index : Nat) (item : Item κ) : MtrM κ Unit := do
  appendLogEntry (.nodeInsert pageNum index [item])
  recoverInsertItems .leaf pageNum index [item]

def remove (pageNum : PageNum) (index : Int) : MtrM κ Unit := do
  let item ← itemAt pageNum index
  appendLogEntry (.nodeRemove pageNum index.toNat [item])
  recoverRemoveItems .leaf pageNum index.toNat 1

/-- `remove(key, comparator)`: the number of items removed. -/
def removeKey (keyComparator : κ → κ → Int) (pageNum : PageNum) (key : κ) : MtrM κ Nat := do
  let node ← readNode pageNum
  let (index, found) := lookup keyComparator node key
  if found then
    remove pageNum index
    pure 1
  else pure 0

/-- `append(items, num)`. -/
def append (pageNum : PageNum) (items : List (Item κ)) : MtrM κ Unit := do
  let node ← readNode pageNum
  appendLogEntry (.nodeInsert pageNum node.size items)
  recoverInsertItems .leaf pageNum node.size items

def preappend (pageNum : PageNum) (item : Item κ) : MtrM κ Unit :=
  insert pageNum 0 item

def moveHalfTo (pageNum other : PageNum) : MtrM κ Unit := do
  let node ← readNode pageNum
  let moveIndex := node.size / 2
  let items := node.items.drop moveIndex
  append other items
  appendLogEntry (.nodeRemove pageNum moveIndex items)
  recoverRemoveItems .leaf pageNum moveIndex (node.size - moveIndex)

def moveFirstToEnd (pageNum other : PageNum) : MtrM κ Unit := do
  append other [← itemAt pageNum 0]
  remove pageNum 0

def moveLastToFront (pageNum other : PageNum) : MtrM κ Unit := do
  let node ← readNode pageNum
  preappend other (← itemAt pageNum (node.size - 1))
  let node ← readNode pageNum
  remove pageNum (node.size - 1)

def moveTo (pageNum other : PageNum) : MtrM κ Unit := do
  let node ← readNode pageNum
  append other node.items
  setNextPage other node.nextBrother
  appendLogEntry (.nodeRemove pageNum 0 node.items)
  decreaseSize pageNum node.size

end LeafIndexNodeHandler

/-! ## `InternalIndexNodeHandler` -/

namespace InternalIndexNodeHandler

def initEmpty (pageNum : PageNum) : MtrM κ Unit := do
  appendLogEntry (.internalInitEmpty pageNum)
  IndexNodeHandler.initEmpty pageNum false

/-- `create_new_root`, called on an empty node.  The bytes of the first key are zero. -/
def createNewRoot [Inhabited κ] (pageNum firstPage : PageNum) (key : κ) (secondPage : PageNum) :
    MtrM κ Unit := do
  appendLogEntry (.internalCreateNewRoot pageNum firstPage key secondPage)
  let node ← readNode pageNum
  if node.size ≠ 0 then throw .abort
  else writeNode pageNum { node with items := [⟨default, .page firstPage⟩, ⟨key, .page secondPage⟩] }

/-- `lookup`: the index of the child for the key, and the position to insert the key at.  The
search leaves the first key out. -/
def lookup (keyComparator : κ → κ → Int) (node : IndexNode κ) (key : κ) : Nat × Nat :=
  if node.size = 0 then (0, 1)
  else
    let ret := (lowerBound (fun i => compareAt keyComparator node.items key (i + 1))
      (node.size - 1)).1 + 1
    match node.items[ret]? with
    | none => (ret - 1, ret)
    | some item => if keyComparator key item.key < 0 then (ret - 1, ret) else (ret, ret)

def insert (keyComparator : κ → κ → Int) (pageNum : PageNum) (key : κ) (child : PageNum) :
    MtrM κ Unit := do
  let node ← readNode pageNum
  let insertPosition := (lookup keyComparator node key).2
  let item := ⟨key, .page child⟩
  appendLogEntry (.nodeInsert pageNum insertPosition [item])
  recoverInsertItems .internal pageNum insertPosition [item]

/-- `insert_items`: the children of the items get the page as their parent. -/
def insertItems (pageNum : PageNum) (index : Nat) (items : List (Item κ)) : MtrM κ Unit := do
  appendLogEntry (.nodeInsert pageNum index items)
  recoverInsertItems .internal pageNum index items
  items.forM fun item => do
    getPage item.child
    setParentPageNum item.child pageNum
    markDirty item.child

def append (pageNum : PageNum) (items : List (Item κ)) : MtrM κ Unit := do
  let node ← readNode pageNum
  insertItems pageNum node.size items

def preappend (pageNum : PageNum) (item : Item κ) : MtrM κ Unit :=
  insertItems pageNum 0 [item]

def moveHalfTo (pageNum other : PageNum) : MtrM κ Unit := do
  let node ← readNode pageNum
  let moveIndex := node.size / 2
  let items := node.items.drop moveIndex
  append other items
  appendLogEntry (.nodeRemove pageNum moveIndex items)
  decreaseSize pageNum (node.size - moveIndex)

def setKeyAt (pageNum : PageNum) (index : Nat) (key : κ) : MtrM κ Unit := do
  let item ← itemAt pageNum index
  appendLogEntry (.internalUpdateKey pageNum index key item.key)
  let node ← readNode pageNum
  writeNode pageNum { node with items := node.items.set index { item with key } }

def valueAt (pageNum : PageNum) (index : Nat) : MtrM κ PageNum := do
  return (← itemAt pageNum index).child

def remove (pageNum : PageNum) (index : Nat) : MtrM κ Unit := do
  let item ← itemAt pageNum index
  appendLogEntry (.nodeRemove pageNum index [item])
  recoverRemoveItems .internal pageNum index 1

def moveTo (pageNum other : PageNum) : MtrM κ Unit := do
  let node ← readNode pageNum
  append other node.items
  appendLogEntry (.nodeRemove pageNum 0 node.items)
  recoverRemoveItems .internal pageNum 0 node.size

def moveFirstToEnd (pageNum other : PageNum) : MtrM κ Unit := do
  append other [← itemAt pageNum 0]
  remove pageNum 0

def moveLastToFront (pageNum other : PageNum) : MtrM κ Unit := do
  let node ← readNode pageNum
  let item ← itemAt pageNum (node.size - 1)
  preappend other item
  appendLogEntry (.nodeRemove pageNum (node.size - 1) [item])
  decreaseSize pageNum 1

end InternalIndexNodeHandler

end ObHtap
