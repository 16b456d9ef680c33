import SoupDB.Lib.Effect
import SoupDB.Lib.Bisect
import SoupDB.Storage.DiskManager
import SoupDB.Indexes.BPlusPage

/-!
# SoupDB: the persistent B+ tree

The methods of the tree over the pages of its file.  A method reads pages, writes
them and may raise; what it wrote before it raised stays written.

The loops that follow page ids (the descent, the leaf chain, the way up through the
parents) take a bound on their rounds.  A file with `pageCount` pages has no longer
path, and `NonTermination` stands for a path that is longer.
-/

namespace SoupDB

open BPlusPage Effect

/-- `METADATA_PAGE_ID`. -/
def BPlusTree.METADATA_PAGE_ID : Int := 0

/-- An open tree: its file and the fields read from the metadata page. -/
structure BPlusTree where
  disk : DiskManager
  rootPageId : Int
  firstLeafPageId : Int
  closed : Bool
deriving Repr

namespace BPlusTree

abbrev Method (α : Type) : Type := Effect PyError BPlusTree α

def pageSize (t : BPlusTree) : Nat := t.disk.pageSize

/-- More rounds than a path without repetition has. -/
def rounds (t : BPlusTree) : Nat := t.disk.pageCount + 1

/-! ## Pages -/

def readPage (t : BPlusTree) (pageId : Int) : Except PyError Bytes :=
  t.disk.readPage pageId

def readLeaf (t : BPlusTree) (pageId : Int) : Except PyError LeafNode := do
  let page ← t.readPage pageId
  let nodeType ← pageType page
  if nodeType ≠ PAGE_TYPE_LEAF then .error (.ValueError "expected B+ leaf page")
  else decodeLeaf page

def readInternal (t : BPlusTree) (pageId : Int) : Except PyError InternalNode := do
  let page ← t.readPage pageId
  let nodeType ← pageType page
  if nodeType ≠ PAGE_TYPE_INTERNAL then .error (.ValueError "expected B+ internal page")
  else decodeInternal page

def writePage (pageId : Int) (data : Bytes) : Method Unit := fun t =>
  match t.disk.writePage pageId data with
  | .ok disk => (.ok (), { t with disk })
  | .error e => (.error e, t)

def allocatePage : Method Int := fun t =>
  (.ok t.disk.allocatePage.1, { t with disk := t.disk.allocatePage.2 })

def ensureOpen : Method Unit := fun t =>
  if t.closed then (.error (.RuntimeError "B+ tree is closed"), t) else (.ok (), t)

def writeMetadata : Method Unit := do
  let t ← get
  let page ← lift
    (encodeMetadata t.pageSize (some t.rootPageId) (some t.firstLeafPageId))
  writePage METADATA_PAGE_ID page

/-! ## Opening and closing -/

/-- A new file: the metadata page and an empty root leaf. -/
def initializeTree : Method Unit := do
  let metadataPageId ← allocatePage
  if metadataPageId ≠ METADATA_PAGE_ID then
    raise (.ValueError "B+ metadata page must be page 0")
  else do
    let rootPageId ← allocatePage
    let t ← get
    let page ← lift (encodeLeaf t.pageSize
      { parentPageId := none, nextLeafPageId := none, entries := [] })
    writePage rootPageId page
    Effect.modify (fun t => { t with rootPageId, firstLeafPageId := rootPageId })
    writeMetadata

def loadMetadata : Method Unit := do
  let t ← get
  if t.disk.pageCount < 2 then raise (.ValueError "incomplete B+ index file")
  else do
    let page ← lift (t.readPage METADATA_PAGE_ID)
    let metadata ← lift (decodeMetadata page)
    match metadata.rootPageId, metadata.firstLeafPageId with
    | none, _ => raise (.ValueError "B+ metadata does not contain a root page")
    | some _, none => raise (.ValueError "B+ metadata does not contain a first leaf page")
    | some rootPageId, some firstLeafPageId =>
        Effect.modify (fun t => { t with rootPageId, firstLeafPageId })

/-- `BPlusTree(disk_manager, buffer_manager)`. -/
def construct (disk : DiskManager) : Except PyError Unit × BPlusTree :=
  let t : BPlusTree :=
    { disk, rootPageId := NONE_PAGE_ID, firstLeafPageId := NONE_PAGE_ID, closed := false }
  if disk.pageCount = 0 then initializeTree t else loadMetadata t

def close : Method Unit := Effect.modify (fun t => { t with closed := true })

/-! ## Descent -/

/-- `bisect_left(keys, key)`. -/
def bisectLeft (keys : List Value) (key : Value) : Except PyError Nat :=
  bisect (fun k => k.lt key) keys

/-- `bisect_right(keys, key)`. -/
def bisectRight (keys : List Value) (key : Value) : Except PyError Nat :=
  bisect (fun k => do
    let smaller ← key.lt k
    .ok (!smaller)) keys

/-- The leaf the separators lead to. -/
def findLeafFrom (t : BPlusTree) (key : Value) (leftBias : Bool) : Nat → Int → Except PyError Int
  | 0, _ => .error .NonTermination
  | rounds + 1, pageId => do
      let page ← t.readPage pageId
      let nodeType ← pageType page
      if nodeType = PAGE_TYPE_LEAF then .ok pageId
      else if nodeType ≠ PAGE_TYPE_INTERNAL then
        .error (.ValueError "invalid B+ node in search path")
      else do
        let node ← decodeInternal page
        let childIndex ←
          if leftBias then bisectLeft node.keys key else bisectRight node.keys key
        match node.children[childIndex]? with
        | some childPageId => findLeafFrom t key leftBias rounds childPageId
        | none => .error (.IndexError "tuple index out of range")

def findLeafPageId (t : BPlusTree) (key : Value) (leftBias : Bool) : Except PyError Int :=
  t.findLeafFrom key leftBias t.rounds t.rootPageId

/-! ## Searching -/

/-- The entries of one leaf that `search` returns, and whether it stops there. -/
def searchEntries (key : Value) : List Entry → Except PyError (List RID × Bool)
  | [] => .ok ([], false)
  | (entryKey, rid) :: entries => do
      let smaller ← entryKey.lt key
      if smaller then searchEntries key entries
      else if entryKey.eq key then do
        let (found, done) ← searchEntries key entries
        .ok (rid :: found, done)
      else .ok ([], true)

def searchFrom (t : BPlusTree) (key : Value) : Nat → Option Int → Except PyError (List RID)
  | _, none => .ok []
  | 0, some _ => .error .NonTermination
  | rounds + 1, some pageId => do
      let leaf ← t.readLeaf pageId
      let (found, done) ← searchEntries key leaf.entries
      if done then .ok found
      else do
        let rest ← searchFrom t key rounds leaf.nextLeafPageId
        .ok (found ++ rest)

def search (t : BPlusTree) (key : Value) : Except PyError (List RID) :=
  if t.closed then .error (.RuntimeError "B+ tree is closed")
  else do
    let pageId ← t.findLeafPageId key true
    t.searchFrom key t.rounds (some pageId)

/-- The entries of one leaf that `rangeSearch` returns, and whether it stops there. -/
def rangeEntries (lo hi : Value) : List Entry → Except PyError (List RID × Bool)
  | [] => .ok ([], false)
  | (key, rid) :: entries => do
      let below ← key.lt lo
      if below then rangeEntries lo hi entries
      else do
        let above ← hi.lt key
        if above then .ok ([], true)
        else do
          let (found, done) ← rangeEntries lo hi entries
          .ok (rid :: found, done)

def rangeFrom (t : BPlusTree) (lo hi : Value) : Nat → Option Int → Except PyError (List RID)
  | _, none => .ok []
  | 0, some _ => .error .NonTermination
  | rounds + 1, some pageId => do
      let leaf ← t.readLeaf pageId
      let (found, done) ← rangeEntries lo hi leaf.entries
      if done then .ok found
      else do
        let rest ← rangeFrom t lo hi rounds leaf.nextLeafPageId
        .ok (found ++ rest)

/-- The RIDs whose key is in `[lo, hi]`. -/
def rangeSearch (t : BPlusTree) (lo hi : Value) : Except PyError (List RID) :=
  if t.closed then .error (.RuntimeError "B+ tree is closed")
  else do
    let crossed ← hi.lt lo
    if crossed then .ok []
    else do
      let pageId ← t.findLeafPageId lo true
      t.rangeFrom lo hi t.rounds (some pageId)

/-! ## Removing -/

/-- Whether `remove` drops an entry, after `removed` others. -/
def shouldRemove (key : Value) (rid : Option RID) (removed : Nat) (entry : Entry) : Bool :=
  entry.1.eq key && match rid with
    | none => true
    | some r => removed == 0 && entry.2 == r

/-- One leaf under `remove`: the entries that stay, how many were removed so far,
whether any was removed here, and whether an entry above the key was seen. -/
def removeEntries (key : Value) (rid : Option RID) :
    List Entry → Nat → Except PyError (List Entry × Nat × Bool × Bool)
  | [], removed => .ok ([], removed, false, false)
  | entry :: entries, removed => do
      let above ← key.lt entry.1
      if shouldRemove key rid removed entry then do
        let (remaining, removed, _, passedKey) ← removeEntries key rid entries (removed + 1)
        .ok (remaining, removed, true, above || passedKey)
      else do
        let (remaining, removed, changed, passedKey) ← removeEntries key rid entries removed
        .ok (entry :: remaining, removed, changed, above || passedKey)

def removeFrom (key : Value) (rid : Option RID) : Nat → Option Int → Nat → Method Nat
  | _, none, removed => pure removed
  | 0, some _, _ => raise .NonTermination
  | rounds + 1, some pageId, removed => do
      let t ← get
      let leaf ← lift (t.readLeaf pageId)
      let (remaining, removed, changed, passedKey) ←
        lift (removeEntries key rid leaf.entries removed)
      if changed then do
        let page ← lift (encodeLeaf t.pageSize { leaf with entries := remaining })
        writePage pageId page
        if rid.isSome || passedKey then pure removed
        else removeFrom key rid rounds leaf.nextLeafPageId removed
      else if passedKey then pure removed
      else removeFrom key rid rounds leaf.nextLeafPageId removed

def remove (key : Value) (rid : Option RID) : Method Nat := do
  ensureOpen
  let t ← get
  let pageId ← lift (t.findLeafPageId key true)
  removeFrom key rid t.rounds (some pageId) 0

/-! ## Splitting -/

/-- The order of the entries of a leaf: by key, then page, then slot. -/
def entryLE (a b : Entry) : Prop :=
  toLex (a.1.ord, toLex (a.2.pageId, a.2.slot)) ≤
    (toLex (b.1.ord, toLex (b.2.pageId, b.2.slot)) : List Value.Token ×ₗ Int ×ₗ Int)

instance : DecidableRel entryLE := fun _ _ => inferInstanceAs (Decidable (_ ≤ _))

/-- Two keys whose comparison as the first items of two tuples does not raise. -/
def sortable (a b : Value) : Bool := a.eq b || (a.cmp b).isSome || a.unordered b

/-- `entries.sort(key=...)`.  Two entries whose keys are `==` are compared by their
RIDs; two keys that are not and cannot be compared raise.  Where a key with a NaN lands does
not matter: it cannot be encoded. -/
def sortEntries (entries : List Entry) : Except PyError (List Entry) :=
  if entries.Pairwise (fun a b => sortable a.1 b.1 = true) then
    .ok (entries.insertionSort entryLE)
  else .error (.TypeError "'<' not supported between these types")

/-- Distance of a split position from the middle, as the candidates are sorted by it. -/
def candidates (positions : List Nat) (imbalance : Nat → Nat) : List Nat :=
  positions.insertionSort (fun a b => imbalance a ≤ imbalance b)

/-- The first candidate whose two nodes are accepted; only `ValueError` means "try the next". -/
def firstValid {α : Type} (build : Nat → α) (check : α → Except PyError Unit) (failure : String) :
    List Nat → Except PyError α
  | [] => .error (.ValueError failure)
  | position :: positions =>
      match check (build position) with
      | .ok _ => .ok (build position)
      | .error (.ValueError _) => firstValid build check failure positions
      | .error e => .error e

/-- The two leaves of a split at `position`. -/
def leafSplitAt (entries : List Entry) (parentPageId rightPageId : Int)
    (oldNextLeafPageId : Option Int) (position : Nat) : LeafNode × LeafNode :=
  ({ parentPageId := some parentPageId
     nextLeafPageId := some rightPageId
     entries := entries.take position },
   { parentPageId := some parentPageId
     nextLeafPageId := oldNextLeafPageId
     entries := entries.drop position })

def chooseLeafSplit (pageSize : Nat) (entries : List Entry)
    (parentPageId rightPageId : Int) (oldNextLeafPageId : Option Int) :
    Except PyError (LeafNode × LeafNode) :=
  firstValid (leafSplitAt entries parentPageId rightPageId oldNextLeafPageId)
    (fun nodes => do
      let _ ← encodeLeaf pageSize nodes.1
      let _ ← encodeLeaf pageSize nodes.2
      .ok ())
    "B+ leaf entries cannot be split into valid pages"
    (candidates (List.range' 1 (entries.length - 1))
      (fun position => ((entries.length : Int) - 2 * position).natAbs))

/-- The two nodes of a split at `position` and the key between them. -/
def internalSplitAt (node : InternalNode) (leftParentPageId rightParentPageId : Int)
    (position : Nat) : InternalNode × Value × InternalNode :=
  ({ parentPageId := some leftParentPageId
     keys := node.keys.take position
     children := node.children.take (position + 1) },
   node.keys.getD position .null,
   { parentPageId := some rightParentPageId
     keys := node.keys.drop (position + 1)
     children := node.children.drop (position + 1) })

def chooseInternalSplit (pageSize : Nat) (node : InternalNode)
    (leftParentPageId rightParentPageId : Int) :
    Except PyError (InternalNode × Value × InternalNode) :=
  firstValid (internalSplitAt node leftParentPageId rightParentPageId)
    (fun (left, _, right) => do
      if left.keys.isEmpty || right.keys.isEmpty then .error (.ValueError "continue")
      else do
        let _ ← encodeInternal pageSize left
        let _ ← encodeInternal pageSize right
        .ok ())
    "B+ internal node cannot be split into valid pages"
    (candidates (List.range node.keys.length)
      (fun position => ((node.keys.length : Int) - 1 - 2 * position).natAbs))

def setParentPageId (parentPageId pageId : Int) : Method Unit := do
  let t ← get
  let page ← lift (t.readPage pageId)
  let nodeType ← lift (pageType page)
  if nodeType = PAGE_TYPE_LEAF then do
    let leaf ← lift (decodeLeaf page)
    let encoded ← lift
      (encodeLeaf t.pageSize { leaf with parentPageId := some parentPageId })
    writePage pageId encoded
  else if nodeType = PAGE_TYPE_INTERNAL then do
    let internal ← lift (decodeInternal page)
    let encoded ← lift
      (encodeInternal t.pageSize { internal with parentPageId := some parentPageId })
    writePage pageId encoded
  else raise (.ValueError "metadata page cannot be an internal child")

def updateChildrenParent (children : List Int) (parentPageId : Int) : Method Unit :=
  forEach (setParentPageId parentPageId) children

/-- `raise RuntimeError` unless the pages came in the expected order. -/
def ensureAllocated (asExpected : Bool) : Method Unit :=
  if asExpected then pure ()
  else raise (.RuntimeError "unexpected B+ page allocation order")

/-- The end of both root splits: the new root, and the metadata that names it. -/
def writeNewRoot (newRootPageId : Int) (newRoot : InternalNode) : Method Unit := do
  let t ← get
  let rootPage ← lift (encodeInternal t.pageSize newRoot)
  writePage newRootPageId rootPage
  Effect.modify (fun t => { t with rootPageId := newRootPageId })
  writeMetadata

/-- The writes both kinds of internal split make: the two halves, then the parents of
their children. -/
def writeHalves (pageId rightPageId : Int) (left right : InternalNode) : Method Unit := do
  let t ← get
  let leftPage ← lift (encodeInternal t.pageSize left)
  writePage pageId leftPage
  let rightPage ← lift (encodeInternal t.pageSize right)
  writePage rightPageId rightPage
  updateChildrenParent left.children pageId
  updateChildrenParent right.children rightPageId

def splitRootInternal (pageId : Int) (node : InternalNode) : Method Unit := do
  let t ← get
  let rightPageId : Int := t.disk.pageCount
  let newRootPageId := rightPageId + 1
  let (left, promoted, right) ← lift
    (chooseInternalSplit t.pageSize node newRootPageId newRootPageId)
  let newRoot : InternalNode :=
    { parentPageId := none, keys := [promoted], children := [pageId, rightPageId] }
  let allocatedRight ← allocatePage
  let allocatedRoot ← allocatePage
  ensureAllocated (allocatedRight == rightPageId && allocatedRoot == newRootPageId)
  writeHalves pageId rightPageId left right
  writeNewRoot newRootPageId newRoot

/-- `propagate parent_page_id left_page_id separator right_page_id` enters the new node
in its parent. -/
def splitInternal (propagate : Int → Int → Value → Int → Method Unit) (pageId : Int)
    (node : InternalNode) : Method Unit :=
  match node.parentPageId with
  | none => splitRootInternal pageId node
  | some parentPageId => do
      let t ← get
      let rightPageId : Int := t.disk.pageCount
      let (left, promoted, right) ← lift
        (chooseInternalSplit t.pageSize node parentPageId parentPageId)
      let allocatedRight ← allocatePage
      ensureAllocated (allocatedRight == rightPageId)
      writeHalves pageId rightPageId left right
      propagate parentPageId pageId promoted rightPageId

/-- The node with the separator and the new child after the child at `child_position`. -/
def insertChild (parent : InternalNode) (childPosition : Nat) (separator : Value)
    (rightPageId : Int) : InternalNode :=
  { parent with
    keys := parent.keys.insertIdx childPosition separator
    children := parent.children.insertIdx (childPosition + 1) rightPageId }

def insertIntoParent : Nat → Int → Int → Value → Int → Method Unit
  | 0, _, _, _, _ => raise .NonTermination
  | rounds + 1, parentPageId, leftPageId, separator, rightPageId => do
      let t ← get
      let parent ← lift (t.readInternal parentPageId)
      match parent.children.idxOf? leftPageId with
      | none => raise (.ValueError "child is not referenced by its parent")
      | some childPosition =>
          let updated := insertChild parent childPosition separator rightPageId
          match encodeInternal t.pageSize updated with
          | .ok encoded => writePage parentPageId encoded
          | .error (.ValueError _) =>
              splitInternal (insertIntoParent rounds) parentPageId updated
          | .error e => raise e

/-- `right.entries[0][0]`. -/
def separatorOf (right : LeafNode) : Except PyError Value :=
  match right.entries with
  | (key, _) :: _ => .ok key
  | [] => .error (.IndexError "tuple index out of range")

def splitRootLeaf (leafPageId : Int) (leaf : LeafNode) (entries : List Entry) :
    Method Unit := do
  let t ← get
  let rightPageId : Int := t.disk.pageCount
  let newRootPageId := rightPageId + 1
  let (left, right) ← lift (chooseLeafSplit t.pageSize entries newRootPageId
    rightPageId leaf.nextLeafPageId)
  let separator ← lift (separatorOf right)
  let newRoot : InternalNode :=
    { parentPageId := none, keys := [separator], children := [leafPageId, rightPageId] }
  let allocatedRight ← allocatePage
  let allocatedRoot ← allocatePage
  ensureAllocated (allocatedRight == rightPageId && allocatedRoot == newRootPageId)
  let leftPage ← lift (encodeLeaf t.pageSize left)
  writePage leafPageId leftPage
  let rightPage ← lift (encodeLeaf t.pageSize right)
  writePage rightPageId rightPage
  writeNewRoot newRootPageId newRoot

def splitLeaf (leafPageId : Int) (leaf : LeafNode) (entries : List Entry) : Method Unit :=
  match leaf.parentPageId with
  | none => splitRootLeaf leafPageId leaf entries
  | some parentPageId => do
      let t ← get
      let rightPageId : Int := t.disk.pageCount
      let (left, right) ← lift (chooseLeafSplit t.pageSize entries parentPageId
        rightPageId leaf.nextLeafPageId)
      let separator ← lift (separatorOf right)
      let rightPageId ← allocatePage
      let leftPage ← lift (encodeLeaf t.pageSize left)
      writePage leafPageId leftPage
      let rightPage ← lift (encodeLeaf t.pageSize right)
      writePage rightPageId rightPage
      insertIntoParent t.rounds parentPageId leafPageId separator rightPageId

def insert (key : Value) (rid : RID) : Method Unit := do
  ensureOpen
  let t ← get
  let leafPageId ← lift (t.findLeafPageId key false)
  let leaf ← lift (t.readLeaf leafPageId)
  let entries ← lift (sortEntries (leaf.entries ++ [(key, rid)]))
  match encodeLeaf t.pageSize { leaf with entries } with
  | .ok page => writePage leafPageId page
  | .error (.ValueError _) => splitLeaf leafPageId leaf entries
  | .error e => raise e

end BPlusTree
end SoupDB
