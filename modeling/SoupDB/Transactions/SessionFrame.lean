import SoupDB.Common.CatalogFrame
import SoupDB.Transactions.LockingCatalog

/-!
# SoupDB: what the steps of a session keep

A property of the catalog that reading it keeps, and that writing rows of tables whose names
are not reserved keeps, is kept by the steps of a session, rollbacks included, as long as the
journal is about such tables only (`Held`).
-/

namespace SoupDB.TransactionalSession

open Effect Catalog

variable {E S : Type} (w : World) (grants : Grants) {q : Evaluation E S} {P : Catalog → Prop}

/-- The catalog has a property, and the journal names no system table. -/
structure Held (P : Catalog → Prop) (s : TransactionalSession) : Prop where
  catalog : P s.catalog
  journal : ∀ tx, s.tx = some tx → ∀ entry ∈ tx.journal, reserved entry.table = false

theorem keeps_on_catalog {α : Type} {x : Catalog.Method α} (hx : Keeps P x) :
    Keeps (Held P) (onCatalog x) := fun s hs => ⟨hx s.catalog hs.catalog, hs.journal⟩

theorem keeps_current : Keeps (Held P) current := by
  refine .bind .get (fun s => ?_)
  split
  · exact .pure _
  · exact .raise _

theorem keeps_lock (hI : ByRecords P) (resource : Resource) (mode : LockMode) :
    Keeps (Held P) (lock grants resource mode) :=
  .bind keeps_current (fun _ => keeps_on_catalog (keeps_ask hI _))

theorem keeps_journal_append {entry : JournalEntry Bytes} (h : reserved entry.table = false) :
    Keeps (Held P) (journalAppend entry) := by
  intro s hs
  rw [journalAppend, run_bind, current, run_bind_ok _ (run_get s)]
  cases htx : s.tx with
  | none => exact hs
  | some tx =>
      refine ⟨hs.catalog, ?_⟩
      rintro tx' htx' e he
      obtain rfl := Option.some.inj htx'
      rcases List.mem_append.mp he with he | he
      · exact hs.journal tx htx e he
      · rw [List.mem_singleton.mp he]
        exact h

/-! ## Transactions -/

theorem keeps_begin : Keeps (Held P) begin := by
  intro s hs
  rw [begin, run_bind_ok _ (run_get s)]
  cases htx : s.tx with
  | some tx => exact hs
  | none =>
      refine ⟨hs.catalog, ?_⟩
      rintro tx' htx' e he
      obtain rfl := Option.some.inj htx'
      exact absurd he List.not_mem_nil

theorem keeps_end : Keeps (Held P)
    (Effect.modify (fun s => { s with tx := none }) : Method Unit) := by
  refine .modify (fun s hs => ⟨hs.catalog, ?_⟩)
  rintro tx ⟨⟩

theorem keeps_commit : Keeps (Held P) commit :=
  .bind keeps_current (fun _ => keeps_end)

section Undo

variable (hI : ByRecords P)
  (hwrites : ∀ name, reserved name = false → Executor.Writes (Catalog.api w) P name)
include hI hwrites

omit hI hwrites in
theorem keeps_row_values (tableName : String) (record : Bytes) :
    Keeps P (rowValues tableName record) :=
  .bind (keeps_schema tableName) (fun _ => .lift _)

theorem keeps_index_row_of {tableName : String} (hname : reserved tableName = false)
    (record : Bytes) (rid : RID) : Keeps P (indexRowOf w tableName record rid) := by
  refine .bind (keeps_row_values tableName record) (fun row => ?_)
  refine .bind (keeps_schema tableName) (fun columns => ?_)
  refine .bind ((reads w hI).eachIndex _ tableName columns row ?_) (fun _ => ?_)
  · exact fun entry value => (hwrites tableName hname).insertKey entry value rid
  · exact .bind ((reads w hI).rankedTargets tableName)
      (fun targets => (reads w hI).maintainRanked targets columns row rid true)

theorem keeps_unindex_row {tableName : String} (hname : reserved tableName = false)
    (record : Bytes) (rid : RID) : Keeps P (unindexRow w tableName record rid) := by
  refine .bind (keeps_row_values tableName record) (fun row => ?_)
  refine .bind (keeps_schema tableName) (fun columns => ?_)
  refine .bind ((reads w hI).eachIndex _ tableName columns row ?_) (fun _ => ?_)
  · exact fun entry value => (hwrites tableName hname).removeKey entry value rid
  · exact .bind ((reads w hI).rankedTargets tableName)
      (fun targets => (reads w hI).maintainRanked targets columns row rid false)

omit hwrites in
theorem keeps_fetch (tableName : String) (rid : RID) :
    Keeps P (Catalog.fetch tableName rid) :=
  .bind (keeps_table tableName)
    (fun _ => keeps_files (fun _ => FileManager.keeps_fetch _ rid) hI)

theorem keeps_undo_entry (inserted : List (String × RID)) {entry : JournalEntry Bytes}
    (hname : reserved entry.table = false) : Keeps P (undoEntry w inserted entry) := by
  cases entry with
  | UndoInsert tableName rid =>
      refine .bind (keeps_table tableName) (fun _ => ?_)
      refine .bind (keeps_fetch hI tableName rid) (fun record => ?_)
      have hremove := (hwrites tableName hname).remove rid
      cases record with
      | none => exact .bind hremove (fun _ => .pure _)
      | some record =>
          refine .bind (keeps_unindex_row w hI hwrites hname record rid) (fun _ => ?_)
          exact .bind hremove (fun _ => .pure _)
  | UndoRemove tableName rid record =>
      refine .bind (keeps_schema tableName) (fun columns => ?_)
      refine .bind (.lift _) (fun row => ?_)
      refine .bind ((reads w hI).rankedTargets tableName) (fun targets => ?_)
      refine .bind ((reads w hI).maintainRanked targets columns row rid false)
        (fun _ => ?_)
      refine .ite (.pure _) ?_
      exact .bind ((hwrites tableName hname).insert record)
        (fun rid => keeps_index_row_of w hI hwrites hname record rid)

theorem keeps_rollback : Keeps (Held P) (rollback w) := by
  intro s hs
  rw [rollback, run_bind, current, run_bind_ok _ (run_get s)]
  cases htx : s.tx with
  | none => exact hs
  | some tx =>
      refine Keeps.bind (keeps_on_catalog ?_) (fun _ => keeps_end) s hs
      refine Keeps.forEach_mem _ (fun entry hentry => keeps_undo_entry w hI hwrites _ ?_)
      exact hs.journal tx htx entry (List.mem_reverse.mp hentry)

theorem keeps_rollback_open : Keeps (Held P) (rollbackOpen w) := by
  refine .bind .get (fun s => ?_)
  split
  · exact keeps_rollback w hI hwrites
  · exact .pure _

end Undo

/-! ## The proxy -/

theorem reads_locking (hI : ByRecords P) :
    Executor.Reads (lockingCatalog w grants) (Held P) where
  ask answer := keeps_on_catalog (keeps_ask hI answer)
  schema name := keeps_on_catalog (keeps_schema name)
  fileOrg name := keeps_on_catalog ((reads w hI).fileOrg name)
  indexesFor name column := keeps_on_catalog ((reads w hI).indexesFor name column)
  rankedMetadataFor name := keeps_on_catalog ((reads w hI).rankedMetadataFor name)
  rankedIndexesFor name := keeps_on_catalog ((reads w hI).rankedIndexesFor name)
  indexLocation indexName := keeps_on_catalog ((reads w hI).indexLocation indexName)
  pluginCapabilities name := keeps_on_catalog ((reads w hI).pluginCapabilities name)
  validatePluginOptions := by
    rintro validate ⟨⟩
  rankedFactory := keeps_on_catalog (reads w hI).rankedFactory
  extensionConfigured name := keeps_on_catalog ((reads w hI).extensionConfigured name)

theorem writes_locking (hI : ByRecords P)
    (hwrites : ∀ name, reserved name = false → Executor.Writes (Catalog.api w) P name)
    {name : String} (hname : reserved name = false) :
    Executor.Writes (lockingCatalog w grants) (Held P) name where
  insert data := by
    refine .bind (keeps_lock grants hI _ _) (fun _ => ?_)
    refine .bind (keeps_on_catalog ((hwrites name hname).insert data)) (fun rid => ?_)
    exact .bind (keeps_journal_append hname) (fun _ => .pure _)
  remove rid := by
    refine .bind (keeps_lock grants hI _ _) (fun _ => ?_)
    refine .bind (keeps_on_catalog (keeps_fetch hI name rid)) (fun record => ?_)
    cases record with
    | none => exact .pure _
    | some record =>
        refine .bind (keeps_on_catalog ((hwrites name hname).remove rid)) (fun _ => ?_)
        exact .bind (keeps_journal_append hname) (fun _ => .pure _)
  scan := .bind (keeps_lock grants hI _ _)
    (fun _ => keeps_on_catalog (hwrites name hname).scan)
  insertKey entry value rid :=
    keeps_on_catalog ((hwrites name hname).insertKey entry value rid)
  removeKey entry value rid :=
    keeps_on_catalog ((hwrites name hname).removeKey entry value rid)

theorem defines_locking (hI : ByRecords P) (hdefines : Executor.Defines (Catalog.api w) P) :
    Executor.Defines (lockingCatalog w grants) (Held P) where
  createTable name columns engine :=
    .bind (keeps_lock grants hI _ _)
      (fun _ => keeps_on_catalog (hdefines.createTable name columns engine))
  createIndex indexName table column indexType :=
    .bind (keeps_lock grants hI _ _)
      (fun _ => keeps_on_catalog (hdefines.createIndex indexName table column indexType))
  createRankedIndex m := by
    refine .bind .get (fun s => .ite (.raise _) ?_)
    exact .bind (keeps_lock grants hI _ _)
      (fun _ => keeps_on_catalog (hdefines.createRankedIndex m))
  createExtension name options :=
    .bind (keeps_lock grants hI _ _)
      (fun _ => keeps_on_catalog (hdefines.createExtension name options))
  dropTable name := by
    refine .bind (keeps_on_catalog ((reads w hI).rankedMetadataFor name)) (fun _ => ?_)
    refine .bind .get (fun s => .ite (.raise _) ?_)
    exact .bind (keeps_lock grants hI _ _)
      (fun _ => keeps_on_catalog (hdefines.dropTable name))
  dropIndex indexName := by
    have hdrop := keeps_on_catalog (hdefines.dropIndex indexName)
    refine .bind (keeps_on_catalog ((reads w hI).indexLocation indexName))
      (fun location => ?_)
    rcases location with _ | ⟨name, column⟩
    · exact hdrop
    · refine .bind (keeps_on_catalog ((reads w hI).rankedMetadataFor name)) (fun _ => ?_)
      refine .bind .get (fun s => .ite (.raise _) ?_)
      exact .bind (keeps_lock grants hI _ _) (fun _ => hdrop)
  dropExtension name :=
    .bind (keeps_lock grants hI _ _)
      (fun _ => keeps_on_catalog (hdefines.dropExtension name))

/-! ## Statements -/

section Statements

variable (hI : ByRecords P)
  (hwrites : ∀ name, reserved name = false → Executor.Writes (Catalog.api w) P name)
include hI hwrites

theorem keeps_lock_failure (message : String) : Keeps (Held P) (lockFailure w message) := by
  refine .bind .get (fun s => ?_)
  exact .bind (keeps_rollback_open w hI hwrites) (fun _ => .raise _)

theorem keeps_handled {x : Method ResultSet} (hx : Keeps (Held P) x) :
    Keeps (Held P) (x.tryCatch (fun e =>
      match e with
      | .LockNotGranted message => lockFailure w message
      | .DeadlockDetected message => lockFailure w message
      | e => Effect.raise e)) := by
  refine .tryCatch hx (fun e => ?_)
  split
  · exact keeps_lock_failure w hI hwrites _
  · exact keeps_lock_failure w hI hwrites _
  · exact .raise _

omit hI hwrites in
/-- A statement in a transaction of its own or in that of the session. -/
theorem keeps_in_transaction {x y : Method ResultSet} (hx : Keeps (Held P) x)
    (hy : Keeps (Held P) y) :
    Keeps (Held P) (do
      let s ← Effect.get
      match s.tx with
      | none => finallyReset x
      | some _ => y) := by
  refine .bind .get (fun s => ?_)
  split
  · exact fun s hs => ⟨(hx s hs).catalog, (hx s hs).journal⟩
  · exact hy

/-- A statement through the session, from what running it on the proxy keeps. -/
theorem keeps_execute_statement {statement : Statement E S}
    (hrun : Keeps (Held P)
      (Executor.run (lockingCatalog w grants) w.plugins q statement)) :
    Keeps (Held P) (executeStatement w grants q statement) := by
  have hhandled : Keeps (Held P) (run w grants q statement) := keeps_handled w hI hwrites hrun
  have hauto : Keeps (Held P) (runAuto w grants q statement) := by
    refine .bind keeps_begin (fun _ => ?_)
    refine .bind (.modify (fun s hs => ⟨hs.catalog, hs.journal⟩)) (fun _ => ?_)
    refine .bind (.tryCatch hhandled (fun e => ?_)) (fun result => ?_)
    · exact .bind (keeps_rollback_open w hI hwrites) (fun _ => .raise e)
    · exact .bind keeps_commit (fun _ => .pure _)
  have hboth := keeps_in_transaction hauto hhandled
  cases statement with
  | BeginTransactionStatement => exact .bind keeps_begin (fun _ => .pure _)
  | EndTransactionStatement => exact .bind keeps_commit (fun _ => .pure _)
  | SelectStatement select => exact hboth
  | InsertStatement table columns values => exact hboth
  | DeleteStatement table condition => exact hboth
  | UpdateStatement table assignments condition => exact hboth
  | CreateTableStatement table columns engine primaryKey => exact hboth
  | CreateIndexStatement i t c ty m d p o => exact hboth
  | DropTableStatement table => exact hboth
  | DropIndexStatement indexName => exact hboth
  | CreateExtensionStatement name options => exact hboth
  | DropExtensionStatement name => exact hboth
  | ExplainStatement statement analyze jsonFormat => exact hboth

end Statements

end SoupDB.TransactionalSession
