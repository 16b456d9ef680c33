import SoupDB.Indexes.Index
import SoupDB.Storage.FileOrganization

/-!
# SoupDB: the files of a database

One file per logical name.  A file of records is the live records with their RIDs, whatever
its pages look like, and a file of an index is the index.  Names of record files and of index
files never meet: the first are those of system tables or start with `t_`, the second start
with `ix_`.

Which free RID a record gets, in which order a scan meets the records, whether a file refuses
a record or an index an entry: this depends on pages, and is left to a `Storage`.
-/

namespace SoupDB

/-- What the pages decide.  An answer may depend on all that was asked before, so a request
comes with its number. -/
structure Storage where
  /-- The RID a record gets in a file, or the exception of the insert. -/
  place : Nat → FileOrganization Bytes → Bytes → Except PyError RID
  /-- No RID is given out twice. -/
  place_free : ∀ {n f data rid}, place n f data = .ok rid → rid ∉ f.used
  /-- The live records of a file, in the order of a scan. -/
  order : Nat → FileOrganization Bytes → List (RID × Bytes)
  order_perm : ∀ n f, (order n f).Perm f.scan
  /-- Opening a SEQUENTIAL file on the pages it has. -/
  rebuild : Nat → FileOrganization Bytes → Except PyError Unit
  /-- Whether a BTREE or HASH index takes an entry whose key it can encode. -/
  admits : Nat → Index → IndexKey → RID → Except PyError Unit
  /-- Opening a BTREE or HASH index on the pages of another structure. -/
  mismatch : Index → PyError
  /-- `blake2b` of a string, as the two halves of eight bytes. -/
  digest : String → UInt64 × UInt64

/-- The least slot above those of a list of RIDs. -/
def nextSlot (rids : List RID) : Int := (rids.map (fun rid => rid.slot + 1)).foldr max 0

theorem slot_lt_next_slot {rids : List RID} {rid : RID} (h : rid ∈ rids) :
    rid.slot < nextSlot rids := by
  induction rids with
  | nil => cases h
  | cons rid' rids ih =>
      rw [nextSlot, List.map_cons, List.foldr_cons, lt_max_iff]
      rcases List.mem_cons.mp h with rfl | h
      · exact Or.inl (Int.lt_succ _)
      · exact Or.inr (ih h)

/-- Files of one page without a limit: slots in order, and nothing refused. -/
def Storage.onePage : Storage where
  place := fun _ f _ => .ok ⟨0, nextSlot f.used⟩
  place_free := by
    intro n f data rid h hused
    obtain rfl := Except.ok.inj h
    exact lt_irrefl _ (slot_lt_next_slot hused)
  order := fun _ f => f.scan
  order_perm := fun _ f => List.Perm.refl f.scan
  rebuild := fun _ _ => .ok ()
  admits := fun _ _ _ _ => .ok ()
  mismatch := fun i => .ValueError s!"not an index of type {i.indexType}"
  digest := fun _ => (0, 0)

/-- The files on disk, those that are open, and the number of the next request. -/
structure FileManager where
  records : String → FileOrganization Bytes
  indexes : String → Option Index
  storages : List String
  requests : Nat

namespace FileManager

abbrev Method (α : Type) : Type := Effect PyError FileManager α

/-- An empty directory. -/
def empty : FileManager where
  records := fun _ => FileOrganization.empty
  indexes := fun _ => none
  storages := []
  requests := 0

def ask {α : Type} (answer : Nat → Except PyError α) : Method α := fun m =>
  (answer m.requests, { m with requests := m.requests + 1 })

/-- Open a file, if it is not open yet. -/
def storage (fileId : String) : Method Unit :=
  Effect.modify (fun m =>
    if fileId ∈ m.storages then m else { m with storages := m.storages ++ [fileId] })

/-- Close and delete a file, if it is open. -/
def drop (fileId : String) : Method Unit :=
  Effect.modify (fun m =>
    if fileId ∈ m.storages then
      { m with
        storages := m.storages.filter (fun name => name ≠ fileId)
        records := Function.update m.records fileId FileOrganization.empty
        indexes := Function.update m.indexes fileId none }
    else m)

/-- Close every file; a manager on the same directory comes after it. -/
def close (m : FileManager) : FileManager := { m with storages := [] }

/-! ## Files of records -/

section Records

variable (w : Storage) (fileId : String)

def insert (data : Bytes) : Method RID := do
  let m ← Effect.get
  let rid ← ask (fun n => w.place n (m.records fileId) data)
  Effect.modify (fun m =>
    { m with records := Function.update m.records fileId ((m.records fileId).insert rid data) })
  pure rid

def fetch (rid : RID) : Method (Option Bytes) := do
  let m ← Effect.get
  pure ((m.records fileId).fetch rid)

/-- Whether a live record was removed. -/
def remove (rid : RID) : Method Bool := do
  let m ← Effect.get
  Effect.modify (fun m =>
    { m with records := Function.update m.records fileId ((m.records fileId).remove rid) })
  pure ((m.records fileId).fetch rid).isSome

def scan : Method (List (RID × Bytes)) := do
  let m ← Effect.get
  ask (fun n => .ok (w.order n (m.records fileId)))

/-- `SequentialFile(...)`. -/
def openSequential : Method Unit := do
  let m ← Effect.get
  ask (fun n => w.rebuild n (m.records fileId))

end Records

/-! ## Files of indexes -/

section Indexes

variable (w : Storage) (fileId : String)

/-- `BPlusTree(...)` or `ExtendibleHash(...)`: a new file gets an empty index. -/
def openIndex (indexType : String) : Method Unit := do
  let m ← Effect.get
  match m.indexes fileId with
  | none =>
      Effect.modify (fun m =>
        { m with indexes := Function.update m.indexes fileId (some ⟨indexType, []⟩) })
  | some i => if i.indexType = indexType then pure () else Effect.raise (w.mismatch i)

def setIndex (i : Index) : Method Unit :=
  Effect.modify (fun m => { m with indexes := Function.update m.indexes fileId (some i) })

end Indexes

/-- `index.insert(key, rid)`, on the index as it is: what it becomes.  An RTREE takes every
point. -/
def indexInsert (w : Storage) (i : Index) (key : Datum) (rid : RID) : Method Index := do
  let k ← Effect.lift (Index.keyOf w.digest i.indexType key)
  if i.indexType = "RTREE" then pure (i.insert k rid)
  else do
    ask (fun n => w.admits n i k rid)
    pure (i.insert k rid)

/-- `index.remove(key, rid)`. -/
def indexRemove (w : Storage) (i : Index) (key : Datum) (rid : RID) : Method Index := do
  let k ← Effect.lift (Index.keyOf w.digest i.indexType key)
  pure (i.remove k rid)

end FileManager
end SoupDB
