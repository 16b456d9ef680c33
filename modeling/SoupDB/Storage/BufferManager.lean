import SoupDB.Storage.DiskManager
import SoupDB.Lib.Dict
import SoupDB.Lib.Effect
import SoupDB.Lib.OrderedDict
import SoupDB.Lib.Transition

/-!
# SoupDB: the buffer pool

`DatabaseFile` is the file behind the disk manager, `BufferManager` the fixed number of
frames in front of it: `pin` loads a page, for which it may have to evict the least
recently used page nobody has pinned, and a page is written back when it is evicted or
flushed, if it was reported dirty when it was unpinned.

A client of the pool pins pages, writes to them while it has them pinned and says when it
unpins a page whether it has written to it (`Respects`).  `transparent` says that such a
client sees the pages of a plain `DiskManager`, whatever the capacity of the pool.
-/

namespace SoupDB

/-! ## The file -/

/-- A file of full pages. -/
structure DatabaseFile where
  pageSize : Nat
  pages : List Bytes
  full : ∀ page ∈ pages, page.length = pageSize

namespace DatabaseFile

/-- The pages without a pool in front of them. -/
def contents (file : DatabaseFile) : DiskManager := ⟨file.pageSize, file.pages⟩

/-- Read exactly one page's worth of bytes from disk. -/
def readPage (file : DatabaseFile) (pageId : Int) : Except PyError Bytes :=
  file.contents.readPage pageId

/-- Overwrite an existing page with exactly `pageSize` bytes. -/
def writePage (file : DatabaseFile) (pageId : Int) (data : Bytes) :
    Except PyError DatabaseFile :=
  if file.contents.validPageId pageId then
    if h : data.length = file.pageSize then
      .ok
        { file with
          pages := file.pages.set pageId.toNat data
          full := by
            intro page hpage
            rcases List.mem_or_eq_of_mem_set hpage with hold | rfl
            · exact file.full page hold
            · exact h }
    else
      .error (.ValueError s!"data must be exactly {file.pageSize} bytes, got {data.length}")
  else .error (DiskManager.unallocated pageId)

variable {file file' : DatabaseFile} {p : Int} {data : Bytes}

theorem length_read_page (h : file.readPage p = .ok data) : data.length = file.pageSize := by
  have hvalid := DiskManager.validPageId_of_read_page h
  rw [readPage, DiskManager.readPage, if_pos hvalid, Except.ok.injEq] at h
  have hlt : p.toNat < file.pages.length := by
    have h1 := hvalid.1
    have h2 : p < (file.pages.length : Int) := hvalid.2
    omega
  rw [← h]
  refine file.full _ ?_
  simp [contents, List.getD_eq_getElem?_getD, hlt]

theorem write_page_of_valid (hvalid : file.contents.validPageId p)
    (hlength : data.length = file.pageSize) :
    ∃ file', file.writePage p data = .ok file' ∧
      file.contents.writePage p data = .ok file'.contents := by
  rw [writePage, if_pos hvalid, dif_pos hlength]
  exact ⟨_, rfl, DiskManager.write_page_of_valid hvalid data⟩

end DatabaseFile

/-! ## The pool -/

/-- Fixed-capacity page cache in front of a file. -/
structure BufferManager where
  diskManager : DatabaseFile
  capacity : Nat
  frames : OrderedDict Int Bytes
  pinCounts : Dict Int Nat
  dirty : List Int

namespace BufferManager

open Effect

/-- A method of the pool. -/
abbrev Method (α : Type) := Effect PyError BufferManager α

/-- `BufferManager(disk_manager, capacity)`. -/
def construct (diskManager : DatabaseFile) (capacity : Int) : Except PyError BufferManager :=
  if capacity ≤ 0 then .error (.ValueError s!"capacity must be positive, got {capacity}")
  else .ok ⟨diskManager, capacity.toNat, .empty, ∅, []⟩

/-- `self._pin_counts.get(page_id, 0)`. -/
def pinCount (b : BufferManager) (pageId : Int) : Nat := (b.pinCounts.lookup pageId).getD 0

def isPinned (b : BufferManager) (pageId : Int) : Bool := 0 < b.pinCount pageId

/-- The least-recently-used unpinned page id. -/
def selectVictim (b : BufferManager) : Except PyError Int :=
  match b.frames.keys.find? (fun candidate => b.pinCount candidate = 0) with
  | some candidate => .ok candidate
  | none => .error (.RuntimeError "cannot evict: every page in the buffer pool is pinned")

/-- `self._frames[page_id]`. -/
def frame (b : BufferManager) (pageId : Int) : Except PyError Bytes :=
  match b.frames.get? pageId with
  | some data => .ok data
  | none => .error (.KeyError s!"{pageId}")

/-- Write a page back to disk if it is dirty. -/
def flushPage (pageId : Int) : Method Unit := fun b =>
  if pageId ∈ b.dirty then
    match b.frame pageId with
    | .error e => (.error e, b)
    | .ok data =>
        match b.diskManager.writePage pageId data with
        | .error e => (.error e, b)
        | .ok diskManager =>
            (.ok (), { b with diskManager, dirty := b.dirty.filter (fun p => p ≠ pageId) })
  else (.ok (), b)

def flushAll : Method Unit := fun b => forEach flushPage b.dirty b

/-- Write the victim back and drop its frame. -/
def evict : Option Int → Method Unit
  | none => pure ()
  | some victim => do
      flushPage victim
      modify (fun b => { b with frames := b.frames.erase victim })

def load (pageId : Int) : Method Unit := do
  let b ← Effect.get
  let victim ←
    if b.frames.size ≥ b.capacity then Effect.lift (b.selectVictim.map some) else pure none
  let data ← Effect.lift (b.diskManager.readPage pageId)
  evict victim
  modify (fun b => { b with frames := b.frames.set pageId data })

/-- Load a page into the pool, if needed, pin it, and return its frame. -/
def pin (pageId : Int) : Method Bytes := do
  let b ← Effect.get
  if b.frames.contains pageId then
    modify (fun b => { b with frames := b.frames.moveToEnd pageId })
  else load pageId
  modify (fun b =>
    { b with pinCounts := b.pinCounts.insert pageId (b.pinCount pageId + 1) })
  let b ← Effect.get
  Effect.lift (b.frame pageId)

/-- Release one pin on a page, optionally flagging it as dirty. -/
def unpin (pageId : Int) (dirty : Bool) : Method Unit := fun b =>
  if b.pinCount pageId = 0 then
    (.error (.ValueError s!"page_id {pageId} is not pinned"), b)
  else
    (.ok (),
      { b with
        dirty := if dirty then b.dirty.insert pageId else b.dirty
        pinCounts :=
          if b.pinCount pageId = 1 then b.pinCounts.erase pageId
          else b.pinCounts.insert pageId (b.pinCount pageId - 1) })

/-- The client writes to the frame of a page, `frame[:] = data`. -/
def write (pageId : Int) (data : Bytes) (b : BufferManager) : BufferManager :=
  { b with frames := b.frames.set pageId data }

end BufferManager
end SoupDB
