import SoupDB.Indexes.HashPage
import SoupDB.Indexes.KeyCodec
import SoupDB.Storage.DiskManager

/-!
# SoupDB: extendible hashing

The directory has `2 ^ global_depth` slots of bucket page ids, on directory pages that the
metadata page lists; the low bits of the hash of a key are its slot.  A full bucket is split
by one more bit, which doubles the directory if the bucket had as many bits as the
directory; a bucket of maximal depth grows by a chain of overflow pages.

`ExtendibleHash` is the state in memory with the file.  Integer keys are hashed to their 64
bits; string keys by the digest `blake2b`, which can be any function.
-/

namespace SoupDB

open Effect HashPage

structure ExtendibleHash where
  diskManager : DiskManager
  globalDepth : Nat
  maxDepth : Nat
  directoryPages : List Int

namespace ExtendibleHash

abbrev Method (α : Type) : Type := Effect PyError ExtendibleHash α

def INT_TAG : UInt8 := 0
def STR_TAG : UInt8 := 1

/-- A tag and the key, so that integer and string keys can share an index. -/
def encodeKey : Value → Except PyError Bytes
  | .bool _ => .error (.ValueError "bool is not a valid key type")
  | .int i => do
      let payload ← Pack.packI 8 i
      .ok (INT_TAG :: payload)
  | .str s => .ok (STR_TAG :: KeyCodec.encodeUtf8 s)
  | .null => .error (.ValueError "unsupported key type NoneType")
  | .float _ => .error (.ValueError "unsupported key type float")
  | .tuple _ => .error (.ValueError "unsupported key type tuple")

def hashEncoded (blake2b : Bytes → Bytes) (encoded : Bytes) : Nat :=
  if encoded.head? = some INT_TAG then (Pack.unpackI 8 (slice encoded 1 9) % 2 ^ 64).toNat
  else Pack.unpackLE (blake2b (encoded.drop 1))

def pageSize (h : ExtendibleHash) : Nat := h.diskManager.pageSize

def slotsPerPage (h : ExtendibleHash) : Nat := directorySlotsPerPage h.pageSize

def directoryMask (h : ExtendibleHash) : Nat := 2 ^ h.globalDepth - 1

/-! ## Frames -/

def peek {α : Type} (pageId : Int) (f : Bytes → Except PyError α) : Method α := do
  let h ← get
  let frame ← lift (h.diskManager.readPage pageId)
  lift (f frame)

/-- Run a program on the frame of a page; what it wrote stays, also when it raises. -/
def pin {α : Type} (pageId : Int) (x : Frame α) : Method α := fun h =>
  match h.diskManager.readPage pageId with
  | .error e => (.error e, h)
  | .ok frame =>
      match h.diskManager.writePage pageId (x frame).2 with
      | .error e => (.error e, h)
      | .ok diskManager => ((x frame).1, { h with diskManager })

def allocatePage : Method Int := do
  let h ← get
  modify (fun h => { h with diskManager := h.diskManager.allocatePage.2 })
  pure h.diskManager.allocatePage.1

def flushMetadata : Method Unit := do
  let h ← get
  pin 0 (writeMetadata h.globalDepth h.maxDepth h.directoryPages)

def newDirectoryPage : Method Int := do
  let h ← get
  let pageId ← allocatePage
  pin pageId (update (fun _ => .ok (List.replicate h.pageSize 0)))
  pure pageId

def newBucket (localDepth : Nat) : Method Int := do
  let h ← get
  let pageId ← allocatePage
  pin pageId (update (fun _ => HashPage.newBucket h.pageSize localDepth))
  pure pageId

/-! ## The directory -/

def directoryPage (h : ExtendibleHash) (slot : Nat) : Except PyError Int :=
  match h.directoryPages[slot / h.slotsPerPage]? with
  | some pageId => .ok pageId
  | none => .error (.IndexError "list index out of range")

def directorySlot (slot : Nat) : Method Int := do
  let h ← get
  let pageId ← lift (h.directoryPage slot)
  peek pageId (fun frame => readDirectorySlot frame (slot % h.slotsPerPage))

def writeDirectorySlot (slot : Nat) (bucketId : Int) : Method Unit := do
  let h ← get
  let pageId ← lift (h.directoryPage slot)
  pin pageId (HashPage.writeDirectorySlot (slot % h.slotsPerPage) bucketId)

/-- Append new directory pages. -/
def extendDirectory : Nat → Method Unit
  | 0 => pure ()
  | n + 1 => do
      let pageId ← newDirectoryPage
      modify (fun h => { h with directoryPages := h.directoryPages ++ [pageId] })
      extendDirectory n

/-- Copy a slot to its twin by suffix. -/
def copySlot (oldSize slot : Nat) : Method Unit := do
  let bucketId ← directorySlot slot
  writeDirectorySlot (slot + oldSize) bucketId

def doubleDirectory : Method Unit := do
  let h ← get
  let oldSize := 2 ^ h.globalDepth
  let neededPages := (oldSize * 2 + h.slotsPerPage - 1) / h.slotsPerPage
  if (neededPages : Int) > maxDirectoryPages h.pageSize then
    raise (.ValueError "directory does not fit in the metadata page")
  else do
    extendDirectory (neededPages - h.directoryPages.length)
    forEach (copySlot oldSize) (List.range oldSize)
    modify (fun h => { h with globalDepth := h.globalDepth + 1 })
    flushMetadata

/-! ## Buckets -/

/-- The pages from a bucket page on, by the overflow links. -/
def chainFrom : Nat → Int → Method (List Int)
  | 0, _ => raise .NonTermination
  | rounds + 1, pageId =>
      if pageId = HashPage.NO_OVERFLOW then pure []
      else do
        let nextId ← peek pageId overflowPageId
        let rest ← chainFrom rounds nextId
        pure (pageId :: rest)

/-- The page ids of a bucket, the overflow chain included. -/
def chain (bucketId : Int) : Method (List Int) := do
  let h ← get
  chainFrom (h.diskManager.pageCount + 1) bucketId

section Keys

variable (blake2b : Bytes → Bytes)

def bucketFor (encoded : Bytes) : Method Int := do
  let h ← get
  directorySlot (hashEncoded blake2b encoded &&& h.directoryMask)

/-- `range(start, stop, step)`. -/
def rangeStep (start stop step : Nat) : List Nat :=
  List.range' start ((stop - start + step - 1) / step) step

/-- Whether a split moves an entry to the new bucket. -/
def moves (localDepth : Nat) (entry : Entry) : Bool :=
  hashEncoded blake2b entry.1 >>> localDepth &&& 1 != 0

/-- Split the entries of a bucket page: those that stay are written back, those that move
are returned. -/
def splitEntries (localDepth : Nat) : Frame (List Entry) := do
  let frame ← get
  let entries ← lift (iterEntries frame)
  writeEntries (entries.filter (fun entry => !moves blake2b localDepth entry))
  setLocalDepth (localDepth + 1)
  pure (entries.filter (moves blake2b localDepth))

def splitBucket (slot : Nat) (bucketId : Int) (localDepth : Nat) : Method Unit := do
  let h ← get
  if localDepth = h.globalDepth then doubleDirectory else pure ()
  let newBucketId ← newBucket (localDepth + 1)
  let move ← pin bucketId (splitEntries blake2b localDepth)
  pin newBucketId (writeEntries move)
  -- the label is a suffix: the new bucket takes the slots with one more bit set
  let suffix := slot &&& (2 ^ localDepth - 1)
  let first := suffix ||| 2 ^ localDepth
  let h ← get
  forEach (fun slot => writeDirectorySlot slot newBucketId)
    (rangeStep first (2 ^ h.globalDepth) (2 ^ (localDepth + 1)))

def insertIntoOverflow (bucketId : Int) (encoded : Bytes) (rid : RID) : Method Unit := do
  let pages ← chain bucketId
  match pages.getLast? with
  | none => raise (.IndexError "list index out of range")
  | some lastId => do
      let added ← pin lastId (addEntry encoded rid)
      if added then pure ()
      else do
        let h ← get
        let overflowId ← newBucket h.maxDepth
        let _ ← pin overflowId (addEntry encoded rid)
        pin lastId (setOverflowPageId overflowId)

/-- Add the entry to its bucket page, and read the local depth of the bucket. -/
def addToBucket (encoded : Bytes) (rid : RID) : Frame (Bool × Nat) := do
  let added ← addEntry encoded rid
  let frame ← get
  let localDepth ← lift (HashPage.localDepth frame)
  pure (added, localDepth)

/-- The loop of `insert`; every round but the last splits the bucket of the key. -/
def insertLoop (encoded : Bytes) (rid : RID) : Nat → Method Unit
  | 0 => raise .NonTermination
  | rounds + 1 => do
      let h ← get
      let slot := hashEncoded blake2b encoded &&& h.directoryMask
      let bucketId ← directorySlot slot
      let (added, localDepth) ← pin bucketId (addToBucket encoded rid)
      if added then pure ()
      else if localDepth ≥ h.maxDepth then insertIntoOverflow bucketId encoded rid
      else do
        splitBucket blake2b slot bucketId localDepth
        insertLoop encoded rid rounds

def insert (key : Value) (rid : RID) : Method Unit := do
  let encoded ← lift (encodeKey key)
  let h ← get
  if (encoded.length : Int) > maxKeySize h.pageSize then
    raise (.ValueError
      s!"key of {encoded.length} bytes does not fit in a page of {h.pageSize} bytes")
  else insertLoop blake2b encoded rid (h.maxDepth + 1)

/-- The RIDs under a key on some pages. -/
def collect (encoded : Bytes) : List Int → Method (List RID)
  | [] => pure []
  | pageId :: pageIds => do
      let entries ← peek pageId iterEntries
      let rest ← collect encoded pageIds
      pure ((entries.filter (fun entry => entry.1 == encoded)).map Prod.snd ++ rest)

def search (key : Value) : Method (List RID) := do
  let encoded ← lift (encodeKey key)
  let bucketId ← bucketFor blake2b encoded
  let pages ← chain bucketId
  collect encoded pages

def removeFrom (encoded : Bytes) (rid : Option RID) : List Int → Method Nat
  | [] => pure 0
  | pageId :: pageIds => do
      let pageRemoved ← pin pageId (removeEntries encoded rid)
      let removed ← removeFrom encoded rid pageIds
      pure (pageRemoved + removed)

def remove (key : Value) (rid : Option RID) : Method Nat := do
  let encoded ← lift (encodeKey key)
  let bucketId ← bucketFor blake2b encoded
  let pages ← chain bucketId
  removeFrom encoded rid pages

end Keys

/-! ## Opening -/

def create : Method Unit := do
  let h ← get
  let metadataId ← allocatePage
  pin metadataId (update (fun _ => newMetadata h.pageSize h.maxDepth))
  let directoryId ← newDirectoryPage
  modify (fun h => { h with directoryPages := [directoryId] })
  let bucketId ← newBucket 0
  writeDirectorySlot 0 bucketId
  flushMetadata

def load (diskManager : DiskManager) : Except PyError ExtendibleHash := do
  let frame ← diskManager.readPage 0
  let (globalDepth, maxDepth, directoryPages) ← readMetadata frame
  .ok { diskManager, globalDepth, maxDepth, directoryPages }

/-- `ExtendibleHash(disk_manager, buffer_manager, max_global_depth=...)`. -/
def init (maxGlobalDepth : Int) (diskManager : DiskManager) :
    Except PyError ExtendibleHash :=
  if diskManager.pageCount = 0 then
    if maxGlobalDepth < 0 then
      .error (.ValueError s!"max_global_depth must be non-negative, got {maxGlobalDepth}")
    else
      match create ⟨diskManager, 0, maxGlobalDepth.toNat, []⟩ with
      | (.ok _, h) => .ok h
      | (.error e, _) => .error e
  else load diskManager

/-! ## Calls -/

/-- One call on an index. -/
inductive Op
  | insert (key : Value) (rid : RID)
  | search (key : Value)
  | remove (key : Value) (rid : Option RID)
  /-- Close the index and open its file again. -/
  | reopen (maxGlobalDepth : Int)

/-- What a call returns. -/
inductive Answer
  | done
  | rids (found : List RID)
  | count (removed : Nat)
deriving DecidableEq

def reopen (maxGlobalDepth : Int) : Method Unit := do
  let h ← get
  let h ← lift (init maxGlobalDepth h.diskManager)
  modify (fun _ => h)

def perform (blake2b : Bytes → Bytes) : Op → Method Answer
  | .insert key rid => do
      insert blake2b key rid
      pure .done
  | .search key => do
      let found ← search blake2b key
      pure (.rids found)
  | .remove key rid => do
      let removed ← remove blake2b key rid
      pure (.count removed)
  | .reopen maxGlobalDepth => do
      reopen maxGlobalDepth
      pure .done

end ExtendibleHash
end SoupDB
