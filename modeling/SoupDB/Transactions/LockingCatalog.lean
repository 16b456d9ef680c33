import SoupDB.Query.Executor
import SoupDB.Transactions.Server

/-!
# SoupDB: transactional sessions

A session runs statements on a proxy of the catalog that takes the locks of strict two-phase
locking and keeps an undo journal.  Outside of an explicit transaction every statement is a
transaction of its own.

Which locks are granted depends on the other sessions, so it is left open.
-/

namespace SoupDB

open Effect Executor

open Record (decodeRow)

/-- A transaction that is open on the thread of a session. -/
structure OpenTransaction where
  txId : Nat
  journal : List (JournalEntry Bytes)

structure TransactionalSession where
  catalog : Catalog
  tx : Option OpenTransaction
  nextId : Nat
  /-- Set while a statement is its own transaction. -/
  rankedDdlAuto : Bool

/-! ## Undo -/

namespace Catalog

variable (w : World)

def fetch (name : String) (rid : RID) : Method (Option Bytes) := do
  let t ← table name
  onFiles (FileManager.fetch t.fileId rid)

def rowValues (tableName : String) (record : Bytes) : Method (List Datum) := do
  let columns ← schema tableName
  lift (decodeRow record columns)

/-- Index a row that undoing a DELETE has just put back. -/
def indexRowOf (tableName : String) (record : Bytes) (rid : RID) : Method Unit := do
  let row ← rowValues tableName record
  let columns ← schema tableName
  eachIndex (api w) (fun entry value => insertKey w tableName entry value rid)
    tableName columns row
  let targets ← rankedTargets (api w) w.plugins tableName
  maintainRanked (api w) w.plugins targets columns row rid true

/-- Drop from the indexes the row that undoing an INSERT is about to remove. -/
def unindexRow (tableName : String) (record : Bytes) (rid : RID) : Method Unit := do
  let row ← rowValues tableName record
  let columns ← schema tableName
  eachIndex (api w) (fun entry value => deleteKey w tableName entry value rid)
    tableName columns row
  let targets ← rankedTargets (api w) w.plugins tableName
  maintainRanked (api w) w.plugins targets columns row rid false

/-- Undo one entry of a journal; `inserted` are the tables and RIDs of its inserts. -/
def undoEntry (inserted : List (String × RID)) : JournalEntry Bytes → Method Unit
  | .UndoInsert tableName rid => do
      let _ ← table tableName
      let record ← fetch tableName rid
      match record with
      | none => pure ()
      | some record => unindexRow w tableName record rid
      let _ ← (api w).remove tableName rid
  | .UndoRemove tableName rid record => do
      let columns ← schema tableName
      let row ← lift (decodeRow record columns)
      let targets ← rankedTargets (api w) w.plugins tableName
      -- stale references of a DELETE that failed partway
      maintainRanked (api w) w.plugins targets columns row rid false
      if (tableName, rid) ∈ inserted then pure ()
      else do
        let rid ← (api w).insert tableName record
        indexRowOf w tableName record rid

def insertedOf (journal : List (JournalEntry Bytes)) : List (String × RID) :=
  journal.filterMap (fun entry => entry.inserted?.map (fun rid => (entry.table, rid)))

/-- Undo the journal, storage and indexes together, the newest entry first. -/
def applyUndo (journal : List (JournalEntry Bytes)) : Method Unit :=
  forEach (undoEntry w (insertedOf journal)) journal.reverse

end Catalog

namespace TransactionalSession

abbrev Method (α : Type) : Type := Effect PyError TransactionalSession α

/-- Whether a lock is granted: the n-th request, for a resource and a mode. -/
abbrev Grants : Type := Nat → Resource → LockMode → Except PyError Unit

variable {E S : Type} (w : World) (grants : Grants) (q : Evaluation E S)

def onCatalog {α : Type} (x : Catalog.Method α) : Method α :=
  focus TransactionalSession.catalog (fun catalog s => { s with catalog }) x

/-! ## Transactions -/

def begin : Method Unit := do
  let s ← get
  match s.tx with
  | some _ =>
      raise (.TransactionError "a transaction is already active on this thread")
  | none =>
      Effect.modify (fun s =>
        { s with tx := some { txId := s.nextId, journal := [] }, nextId := s.nextId + 1 })

def noTransaction : PyError := .TransactionError "no active transaction on this thread"

def current : Method OpenTransaction := do
  let s ← get
  match s.tx with
  | some tx => pure tx
  | none => raise noTransaction

def commit : Method Unit := do
  let _ ← current
  Effect.modify (fun s => { s with tx := none })

def rollback : Method Unit := do
  let tx ← current
  onCatalog (Catalog.applyUndo w tx.journal)
  Effect.modify (fun s => { s with tx := none })

def lock (resource : Resource) (mode : LockMode) : Method Unit := do
  let _ ← current
  onCatalog (Catalog.ask (fun n => grants n resource mode))

def journalAppend (entry : JournalEntry Bytes) : Method Unit := do
  let tx ← current
  Effect.modify (fun s => { s with tx := some { tx with journal := tx.journal ++ [entry] } })

/-! ## The proxy of the catalog -/

def irreversible : PyError :=
  .TransactionError "ranked DDL is not reversible inside explicit transactions"

/-- `_LockingFileOrganization.insert`. -/
def lockingInsert (name : String) (data : Bytes) : Method RID := do
  lock grants (.table name) .EXCLUSIVE
  let rid ← onCatalog ((Catalog.api w).insert name data)
  journalAppend (.UndoInsert name rid)
  pure rid

/-- `_LockingFileOrganization.remove`. -/
def lockingRemove (name : String) (rid : RID) : Method Bool := do
  lock grants (.record rid) .EXCLUSIVE
  let record ← onCatalog (Catalog.fetch name rid)
  match record with
  | none => pure false
  | some record => do
      let _ ← onCatalog ((Catalog.api w).remove name rid)
      journalAppend (.UndoRemove name rid record)
      pure true

/-- `_LockingFileOrganization.scan`. -/
def lockingScan (name : String) : Method (List (RID × Bytes)) := do
  lock grants (.table name) .SHARED
  onCatalog ((Catalog.api w).scan name)

/-- `_LockingCatalog.dropTable`. -/
def lockingDropTable (name : String) : Method Unit := do
  let ranked ← onCatalog (Catalog.rankedMetadataFor name)
  let s ← get
  if ranked ≠ [] ∧ s.rankedDdlAuto = false then raise irreversible
  else do
    lock grants (.table name) .EXCLUSIVE
    onCatalog (Catalog.dropTable w name)

/-- `_LockingCatalog.dropIndex`. -/
def lockingDropIndex (indexName : String) : Method Unit := do
  let location ← onCatalog (Catalog.indexLocation indexName)
  match location with
  | none => onCatalog (Catalog.dropIndex w indexName)
  | some (name, _) => do
      let ranked ← onCatalog (Catalog.rankedMetadataFor name)
      let s ← get
      if indexName ∈ ranked.map RankedMetadata.name ∧ s.rankedDdlAuto = false then
        raise irreversible
      else do
        lock grants (.table name) .EXCLUSIVE
        onCatalog (Catalog.dropIndex w indexName)

/-- `_LockingCatalog.createRankedIndex`. -/
def lockingCreateRankedIndex (m : RankedMetadata) : Method Unit := do
  let s ← get
  if s.rankedDdlAuto = false then raise irreversible
  else do
    lock grants (.table m.table) .EXCLUSIVE
    onCatalog (Catalog.createRankedIndex w m)

/-- `_LockingCatalog`.  It has no `isSystemTable` and no `validatePluginOptions`. -/
def lockingCatalog : CatalogApi TransactionalSession where
  isSystemTable := none
  rankedTransactional := true
  ask answer := onCatalog (Catalog.ask answer)
  schema name := onCatalog (Catalog.schema name)
  fileOrg name := onCatalog ((Catalog.api w).fileOrg name)
  insert := lockingInsert w grants
  remove := lockingRemove w grants
  scan := lockingScan w grants
  indexesFor name column := onCatalog (Catalog.indexesFor name column)
  insertKey name entry value rid := onCatalog (Catalog.insertKey w name entry value rid)
  removeKey name entry value rid := onCatalog (Catalog.deleteKey w name entry value rid)
  rankedMetadataFor name := onCatalog (Catalog.rankedMetadataFor name)
  rankedIndexesFor name := onCatalog (Catalog.rankedIndexesFor name)
  indexLocation indexName := onCatalog (Catalog.indexLocation indexName)
  pluginCapabilities name := onCatalog ((Catalog.api w).pluginCapabilities name)
  validatePluginOptions := none
  rankedFactory := onCatalog (Catalog.api w).rankedFactory
  extensionConfigured name := onCatalog (Catalog.extensionConfigured w name)
  createTable name columns engine := do
    lock grants (.table name) .EXCLUSIVE
    onCatalog (Catalog.createTable w name columns engine)
  createIndex indexName table column indexType := do
    lock grants (.table table) .EXCLUSIVE
    onCatalog (Catalog.createIndex w indexName table column indexType)
  createRankedIndex := lockingCreateRankedIndex w grants
  createExtension name options := do
    lock grants (.catalog "plugins") .EXCLUSIVE
    onCatalog (Catalog.createExtension w name options)
  dropTable := lockingDropTable w grants
  dropIndex := lockingDropIndex w grants
  dropExtension name := do
    lock grants (.catalog "plugins") .EXCLUSIVE
    onCatalog (Catalog.dropExtension w name)

/-! ## Statements -/

/-- Undo the open transaction, if there is one. -/
def rollbackOpen : Method Unit := do
  let s ← get
  match s.tx with
  | some _ => rollback w
  | none => pure ()

/-- A lock that is not granted ends the transaction. -/
def lockFailure (message : String) : Method ResultSet := do
  let s ← get
  let txId :=
    match s.tx with
    | some tx => toString tx.txId
    | none => "?"
  rollbackOpen w
  raise (.TransactionError
    s!"deadlock or lock timeout in transaction {txId}: {message}")

/-- `_run`: a statement on the proxy. -/
def run (statement : Statement E S) : Method ResultSet :=
  tryCatch (Executor.run (lockingCatalog w grants) w.plugins q statement) (fun e =>
    match e with
    | .LockNotGranted message => lockFailure w message
    | .DeadlockDetected message => lockFailure w message
    | e => raise e)

/-- A statement as a transaction of its own. -/
def runAuto (statement : Statement E S) : Method ResultSet := do
  begin
  Effect.modify (fun s => { s with rankedDdlAuto := true })
  let result ← tryCatch (run w grants q statement) (fun e => do
    rollbackOpen w
    raise e)
  commit
  pure result

/-- Run a part, and reset the flag whatever its outcome. -/
def finallyReset {α : Type} (x : Method α) : Method α := fun s =>
  ((x s).1, { (x s).2 with rankedDdlAuto := false })

def executeStatement : Statement E S → Method ResultSet
  | .BeginTransactionStatement => do
      begin
      pure ⟨[], [], 0⟩
  | .EndTransactionStatement => do
      commit
      pure ⟨[], [], 0⟩
  | statement => do
      let s ← get
      match s.tx with
      | none => finallyReset (runAuto w grants q statement)
      | some _ => run w grants q statement

/-- What a client does with a session: statements, and the calls that begin and end its
transactions.  `reopen` closes the database and opens it again, for a new session. -/
inductive Action (E S : Type)
  | execute (statement : Statement E S)
  | begin
  | commit
  | rollback
  | reopen

def on (catalog : Catalog) : TransactionalSession where
  catalog := catalog
  tx := none
  nextId := 1
  rankedDdlAuto := false

/-- The answer to an action, if it gives one, and the session after it.  Opening a database
that raises gives no session. -/
def perform : Action E S → TransactionalSession → Except PyError ResultSet × TransactionalSession
  | .execute statement, s => executeStatement w grants q statement s
  | .begin, s => ((begin s).1.map (fun _ => ⟨[], [], 0⟩), (begin s).2)
  | .commit, s => ((commit s).1.map (fun _ => ⟨[], [], 0⟩), (commit s).2)
  | .rollback, s => ((rollback w s).1.map (fun _ => ⟨[], [], 0⟩), (rollback w s).2)
  | .reopen, s =>
      match Catalog.reopen w s.catalog with
      | (.ok (), catalog) => (.ok ⟨[], [], 0⟩, on catalog)
      | (.error e, _) => (.error e, s)

def step (s : TransactionalSession) (action : Action E S) : TransactionalSession :=
  (perform w grants q action s).2

end TransactionalSession
end SoupDB
