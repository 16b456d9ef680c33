import SoupDB.Storage.SequentialPage
import SoupDB.Storage.RecordPages
import SoupDB.Lib.Dict
import SoupDB.Lib.Sort

/-!
# SoupDB: sequential files

A file sorted by a key of its records.  Records are grouped into buckets: a main page and
its overflow chain.  An insert only writes a new slot, so a record keeps its RID; a
removal leaves a tombstone, and when too many bytes are dead every page is compacted.

Which bucket a record goes to is decided by the largest key of each bucket, which is kept
in memory (`pageMaxKey`) along with the chain of main pages (`mainNext`) and the main
page of every page (`pageOwnerMain`); `rebuildChainMetadata` computes all three from
the pages.  NULL stands both for no key and for a key that is NULL.

The chains are read by `chain` before what is done with their pages; no page is linked
while they are read.
-/

namespace SoupDB

open Effect SlottedPage SequentialPage

/-- The key of a record. -/
abbrev KeyFn : Type := Bytes → Except PyError Value

structure SequentialFile where
  diskManager : DiskManager
  pageMaxKey : Dict Int Value
  mainNext : Dict Int (Option Int)
  pageOwnerMain : Dict Int Int

namespace SequentialFile

def MAIN_HEAD : Int := 0

/-- Run a program on the pages. -/
def disk {α : Type} (x : Effect PyError DiskManager α) : Effect PyError SequentialFile α :=
  focus SequentialFile.diskManager (fun d s => { s with diskManager := d }) x

def pageExists (s : SequentialFile) (pageId : Int) : Bool :=
  decide (0 ≤ pageId ∧ pageId < s.diskManager.pageCount)

/-! ## Reading -/

/-- The pages of a chain, from a page on; the first argument bounds the rounds. -/
def chain (d : DiskManager) : Nat → Option Int → Except PyError (List Int)
  | _, none => .ok []
  | 0, some _ => .error .NonTermination
  | rounds + 1, some pageId => do
      let frame ← d.readPage pageId
      let next ← nextPageId frame
      let rest ← chain d rounds next
      .ok (pageId :: rest)

/-- The main pages, in the order of the chain. -/
def mainPages (d : DiskManager) : Except PyError (List Int) :=
  chain d d.pageCount (some MAIN_HEAD)

def bucketPages (d : DiskManager) (mainId : Int) : Except PyError (List Int) := do
  let frame ← d.readPage mainId
  let overflowId ← firstOverflowPageId frame
  let overflow ← chain d d.pageCount overflowId
  .ok (mainId :: overflow)

def chainedPages (d : DiskManager) : Except PyError (List Int) := do
  let mains ← mainPages d
  let buckets ← mains.mapM (bucketPages d)
  .ok buckets.flatten

def liveRecords (body : Bytes) : Except PyError (List (Nat × Bytes)) := do
  let numSlots ← slotCount body
  let records ← (List.range numSlots).mapM (fun (slot : Nat) => do
    let data ← readRecord body slot
    .ok (data.map (fun data => (slot, data))))
  .ok (records.filterMap id)

/-- An entry of a scan: key, page, slot and data. -/
abbrev Entry : Type := Value × Int × Nat × Bytes

def entries (keyFn : KeyFn) (body : Bytes) (pageId : Int) : Except PyError (List Entry) := do
  let records ← liveRecords body
  records.mapM (fun record => do
    let key ← keyFn record.2
    .ok (key, pageId, record.1, record.2))

def bodyKeys (keyFn : KeyFn) (body : Bytes) : Except PyError (List Value) := do
  let records ← liveRecords body
  records.mapM (fun record => keyFn record.2)

/-- `max(current, key)`. -/
def larger (current key : Value) : Except PyError Value := do
  let above ← Value.gt key current
  .ok (if above then key else current)

/-- `max(keys) if keys else None`. -/
def maxKey : List Value → Except PyError Value
  | [] => .ok .null
  | key :: keys => keys.foldlM larger key

def bucketKeys (keyFn : KeyFn) (d : DiskManager) (mainId : Int) :
    Except PyError (List Value) := do
  let pages ← bucketPages d mainId
  let keys ← pages.mapM (fun pageId => do
    let frame ← d.readPage pageId
    bodyKeys keyFn (body frame))
  .ok keys.flatten

def bucketMax (keyFn : KeyFn) (d : DiskManager) (mainId : Int) : Except PyError Value := do
  let keys ← bucketKeys keyFn d mainId
  maxKey keys

def occupiedPayloadBytes (body : Bytes) : Except PyError Int := do
  let numSlots ← slotCount body
  let free ← freeSpace body
  let directoryEnd : Int := SlottedPage.HEADER_SIZE + numSlots * SLOT_SIZE
  .ok (body.length - free - directoryEnd)

def globalWasteStats (d : DiskManager) : Except PyError (Int × Int) := do
  let pages ← chainedPages d
  let stats ← pages.mapM (fun pageId => do
    let frame ← d.readPage pageId
    let reclaimable ← reclaimableSpace (body frame)
    let occupied ← occupiedPayloadBytes (body frame)
    .ok (reclaimable, occupied))
  .ok ((stats.map Prod.fst).sum, (stats.map Prod.snd).sum)

def shouldReorganizeGlobally (reclaimable occupied : Int) : Bool :=
  decide (occupied > 0) && decide (reclaimable * 100 > occupied * 30)

/-- The order of a scan within a bucket. -/
def entryLt (a b : Entry) : Except PyError Bool :=
  Value.lt (.tuple [a.1, .int a.2.1, .int a.2.2.1]) (.tuple [b.1, .int b.2.1, .int b.2.2.1])

def scanBucket (keyFn : KeyFn) (d : DiskManager) (mainId : Int) :
    Except PyError (List Entry) := do
  let pages ← bucketPages d mainId
  let found ← pages.mapM (fun pageId => do
    let frame ← d.readPage pageId
    entries keyFn (body frame) pageId)
  sortBy entryLt found.flatten

def scan (keyFn : KeyFn) : Effect PyError SequentialFile (List (RID × Bytes)) := do
  let s ← get
  let mains ← lift (mainPages s.diskManager)
  let buckets ← lift (mains.mapM (scanBucket keyFn s.diskManager))
  pure (buckets.flatten.map (fun entry => (⟨entry.2.1, entry.2.2.1⟩, entry.2.2.2)))

def fetch (rid : RID) : Effect PyError SequentialFile (Option Bytes) := do
  let s ← get
  if !s.pageExists rid.pageId then pure none
  else disk (readFrame rid.pageId (fun frame => readRecord (body frame) rid.slot))

/-! ## Inserting -/

/-- `max_key is not None and max_key >= key`. -/
def covers (maxKey key : Value) : Except PyError Bool :=
  match maxKey with
  | .null => .ok false
  | maxKey => Value.ge maxKey key

/-- The bucket for a key: the first whose largest key is not below it, else the last; and
whether there was such a bucket. -/
def targetMain (s : SequentialFile) (key : Value) : Nat → Int → Except PyError (Int × Bool)
  | 0, _ => .error .NonTermination
  | rounds + 1, mainId => do
      let in_range ← covers ((s.pageMaxKey.lookup mainId).getD .null) key
      if in_range then .ok (mainId, true)
      else
        match (s.mainNext.lookup mainId).join with
        | none => .ok (mainId, false)
        | some nextId => targetMain s key rounds nextId

/-- `key if current is None else max(current, key)`. -/
def bump (current key : Value) : Except PyError Value :=
  match current with
  | .null => .ok key
  | current => larger current key

def bumpMax (mainId : Int) (key : Value) : Effect PyError SequentialFile Unit := do
  let s ← get
  let bumped ← lift (bump ((s.pageMaxKey.lookup mainId).getD .null) key)
  modify (fun s => { s with pageMaxKey := s.pageMaxKey.insert mainId bumped })

def linkMain (fromId toId : Int) : Effect PyError SequentialFile Unit := do
  disk (withFrame fromId (fun frame => do
    let frame ← setNextPageId frame toId
    .ok ((), frame)))
  modify (fun s => { s with mainNext := s.mainNext.insert fromId (some toId) })

def newPage (kind : Nat) : Effect PyError SequentialFile Int := do
  let s ← get
  let pageId : Int := s.diskManager.pageCount
  disk (modify (fun d => d.allocatePage.2))
  disk (withFrame pageId (fun _ => do
    let frame ← SequentialPage.newPage s.diskManager.pageSize kind
    .ok ((), frame)))
  if kind = MAIN then do
    modify (fun s =>
      { s with
        pageMaxKey := s.pageMaxKey.insert pageId .null
        mainNext := s.mainNext.insert pageId none
        pageOwnerMain := s.pageOwnerMain.insert pageId pageId })
    pure pageId
  else pure pageId

/-- Place the data in the frame, compacting its body where that helps. -/
def place (data frame : Bytes) : Except PyError (Option Nat × Bytes) := do
  let (slot, placed) ← insertRecord (body frame) data
  match slot with
  | some slot => .ok (some slot, withBody frame placed)
  | none => do
      let reclaimable ← reclaimableSpace (body frame)
      if reclaimable > 0 then do
        let packed ← compact (body frame)
        let (slot, placed) ← insertRecord packed data
        .ok (slot, withBody frame placed)
      else .ok (none, frame)

def insertFresh (pageId ownerMainId : Int) (key : Value) (data : Bytes) :
    Effect PyError SequentialFile RID := do
  let slot ← disk (withFrame pageId (fun frame => do
    let (slot, placed) ← insertRecord (body frame) data
    match slot with
    | none => .error .AssertionError
    | some slot => .ok (slot, withBody frame placed)))
  bumpMax ownerMainId key
  pure ⟨pageId, slot⟩

/-- Append a new overflow page to the bucket; `link` writes its page id to the page before
it. -/
def appendOverflow (mainId fromId : Int) (link : Bytes → Int → Except PyError Bytes)
    (key : Value) (data : Bytes) : Effect PyError SequentialFile RID := do
  let newOverflow ← newPage OVERFLOW
  modify (fun s => { s with pageOwnerMain := s.pageOwnerMain.insert newOverflow mainId })
  disk (withFrame fromId (fun frame => do
    let frame ← link frame newOverflow
    .ok ((), frame)))
  insertFresh newOverflow mainId key data

/-- The loop over the overflow pages of a bucket. -/
def insertAlong (mainId : Int) (key : Value) (data : Bytes) :
    Nat → Int → Effect PyError SequentialFile RID
  | 0, _ => raise .NonTermination
  | rounds + 1, current => do
      let slot ← disk (withFrame current (place data))
      match slot with
      | some slot => do
          bumpMax mainId key
          pure ⟨current, slot⟩
      | none => do
          let nextOverflow ← disk (readFrame current nextPageId)
          match nextOverflow with
          | none => appendOverflow mainId current setNextPageId key data
          | some nextOverflow => insertAlong mainId key data rounds nextOverflow

def insertIntoOverflow (mainId : Int) (key : Value) (data : Bytes) :
    Effect PyError SequentialFile RID := do
  let current ← disk (readFrame mainId firstOverflowPageId)
  match current with
  | none => appendOverflow mainId mainId setFirstOverflowPageId key data
  | some current => do
      let s ← get
      insertAlong mainId key data s.diskManager.pageCount current

def appendMain (mainId : Int) (key : Value) (data : Bytes) :
    Effect PyError SequentialFile RID := do
  let newMain ← newPage MAIN
  linkMain mainId newMain
  insertFresh newMain newMain key data

/-- The largest record that fits a page. -/
def maxPayload (pageSize : Nat) : Int := maxRecordSize (bodySize pageSize)

def insert (keyFn : KeyFn) (data : Bytes) : Effect PyError SequentialFile RID := do
  let s ← get
  if (data.length : Int) > maxPayload s.diskManager.pageSize then
    raise (.ValueError (s!"record of {data.length} bytes can never fit in a " ++
      s!"{s.diskManager.pageSize}-byte page (maximum record payload is " ++
      s!"{maxPayload s.diskManager.pageSize} bytes)"))
  else do
    let key ← lift (keyFn data)
    let (mainId, in_range) ←
      lift (targetMain s key (s.diskManager.pageCount + 1) MAIN_HEAD)
    let slot ← disk (withFrame mainId (place data))
    match slot with
    | some slot => do
        bumpMax mainId key
        pure ⟨mainId, slot⟩
    | none =>
        if !in_range then appendMain mainId key data
        else insertIntoOverflow mainId key data

/-! ## Removing -/

/-- Compact the page where that recovers bytes. -/
def reorganizePage (pageId : Int) : Effect PyError SequentialFile Unit :=
  disk (withFrame pageId (fun frame => do
    let reclaimable ← reclaimableSpace (body frame)
    if reclaimable > 0 then do
      let packed ← compact (body frame)
      .ok ((), withBody frame packed)
    else .ok ((), frame)))

def reorganizeGlobally : Effect PyError SequentialFile Unit := do
  let s ← get
  let pages ← lift (chainedPages s.diskManager)
  forEach reorganizePage pages

def remove (keyFn : KeyFn) (rid : RID) : Effect PyError SequentialFile Bool := do
  let s ← get
  if !s.pageExists rid.pageId then pure false
  else do
    let removed ← disk (withFrame rid.pageId (fun frame => do
      let (removed, erased) ← deleteRecord (body frame) rid.slot
      .ok (removed, withBody frame erased)))
    if !removed then pure false
    else do
      let s ← get
      match s.pageOwnerMain.lookup rid.pageId with
      | none => raise (.KeyError s!"{rid.pageId}")
      | some ownerMainId => do
          let largest ← lift (bucketMax keyFn s.diskManager ownerMainId)
          modify (fun s => { s with pageMaxKey := s.pageMaxKey.insert ownerMainId largest })
          let (reclaimable, occupied) ← lift (globalWasteStats s.diskManager)
          if shouldReorganizeGlobally reclaimable occupied then do
            reorganizeGlobally
            pure true
          else pure true

/-! ## Opening -/

/-- The metadata of one bucket. -/
def rebuildBucket (keyFn : KeyFn) (s : SequentialFile) (mainId : Int) :
    Except PyError SequentialFile := do
  let pages ← bucketPages s.diskManager mainId
  let frame ← s.diskManager.readPage mainId
  let nextMain ← nextPageId frame
  let largest ← bucketMax keyFn s.diskManager mainId
  .ok { s with
    pageOwnerMain := pages.foldl (fun owner pageId => owner.insert pageId mainId)
      s.pageOwnerMain
    pageMaxKey := s.pageMaxKey.insert mainId largest
    mainNext := s.mainNext.insert mainId nextMain }

def rebuildChainMetadata (keyFn : KeyFn) (d : DiskManager) : Except PyError SequentialFile := do
  let mains ← mainPages d
  mains.foldlM (rebuildBucket keyFn) ⟨d, ∅, ∅, ∅⟩

/-- Open a file on its pages; a file without pages gets a first main page. -/
def init (keyFn : KeyFn) (d : DiskManager) : Except PyError SequentialFile :=
  if d.pageCount = 0 then
    match newPage MAIN ⟨d, ∅, ∅, ∅⟩ with
    | (.ok _, s) => .ok s
    | (.error e, _) => .error e
  else rebuildChainMetadata keyFn d

/-- Open the pages of the file again. -/
def reopen (keyFn : KeyFn) : Effect PyError SequentialFile Unit := do
  let s ← get
  let s ← lift (init keyFn s.diskManager)
  modify (fun _ => s)

def organization (keyFn : KeyFn) : Organization SequentialFile where
  insert := insert keyFn
  fetch := fetch
  remove := remove keyFn
  reopen := reopen keyFn

end SequentialFile
end SoupDB
