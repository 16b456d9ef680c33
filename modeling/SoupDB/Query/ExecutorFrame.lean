import SoupDB.Query.Executor

/-!
# SoupDB: what statements keep

A property of the state that the methods of a catalog keep is kept by planning and executing
a statement.  `Reads` is about the methods that plans use, `Writes` about the methods an
INSERT or a DELETE uses on its table, and `Defines` about the DDL methods.
-/

namespace SoupDB.Executor

open Effect

variable {E S σ : Type}

/-- The methods that change no table keep a property. -/
structure Reads (api : CatalogApi σ) (I : σ → Prop) : Prop where
  ask : ∀ {α : Type} (answer : Nat → Except PyError α), Keeps I (api.ask answer)
  schema : ∀ name, Keeps I (api.schema name)
  fileOrg : ∀ name, Keeps I (api.fileOrg name)
  indexesFor : ∀ name column, Keeps I (api.indexesFor name column)
  rankedMetadataFor : ∀ name, Keeps I (api.rankedMetadataFor name)
  rankedIndexesFor : ∀ name, Keeps I (api.rankedIndexesFor name)
  indexLocation : ∀ indexName, Keeps I (api.indexLocation indexName)
  pluginCapabilities : ∀ name, Keeps I (api.pluginCapabilities name)
  validatePluginOptions : ∀ validate, api.validatePluginOptions = some validate →
    ∀ name options, Keeps I (validate name options)
  rankedFactory : Keeps I api.rankedFactory
  extensionConfigured : ∀ name, Keeps I (api.extensionConfigured name)

/-- The methods that change the rows of a table keep a property. -/
structure Writes (api : CatalogApi σ) (I : σ → Prop) (table : String) : Prop where
  insert : ∀ data, Keeps I (api.insert table data)
  remove : ∀ rid, Keeps I (api.remove table rid)
  scan : Keeps I (api.scan table)
  insertKey : ∀ entry value rid, Keeps I (api.insertKey table entry value rid)
  removeKey : ∀ entry value rid, Keeps I (api.removeKey table entry value rid)

/-- The DDL methods keep a property. -/
structure Defines (api : CatalogApi σ) (I : σ → Prop) : Prop where
  createTable : ∀ name columns engine, Keeps I (api.createTable name columns engine)
  createIndex : ∀ indexName table column indexType,
    Keeps I (api.createIndex indexName table column indexType)
  createRankedIndex : ∀ m, Keeps I (api.createRankedIndex m)
  createExtension : ∀ name options, Keeps I (api.createExtension name options)
  dropTable : ∀ name, Keeps I (api.dropTable name)
  dropIndex : ∀ indexName, Keeps I (api.dropIndex indexName)
  dropExtension : ∀ name, Keeps I (api.dropExtension name)

variable {api : CatalogApi σ} {I : σ → Prop} {plugins : Plugins} {q : Evaluation E S}

namespace Reads

variable (h : Reads api I)
include h

theorem rankedTargets (table : String) : Keeps I (rankedTargets api plugins table) := by
  refine .bind (h.rankedMetadataFor table) (fun metadata => ?_)
  refine .bind (h.rankedIndexesFor table) (fun ready => ?_)
  split
  · exact .raise _
  · refine .bind (.forEach (fun binding => ?_) ready) (fun _ => .pure _)
    refine .bind (h.ask _) (fun reversible => ?_)
    split
    · exact .pure _
    · exact .raise _

theorem maintainRanked (targets : List RankedMetadata) (schema : List ColumnDef)
    (row : List Datum) (rid : RID) (insert : Bool) :
    Keeps I (maintainRanked api plugins targets schema row rid insert) := by
  refine .forEach (fun binding => ?_) targets
  split
  · exact .raise _
  · dsimp only
    split
    · exact .pure _
    · exact h.ask _

theorem ensureRankedWriteSafe (table : String) :
    Keeps I (ensureRankedWriteSafe api plugins table) := by
  refine .bind (h.rankedTargets table) (fun targets => ?_)
  split
  · exact .raise _
  · exact .pure _

theorem planInsert (table : String) (columns : List String) (values : List (List E)) :
    Keeps I (planInsert api plugins table columns values) := by
  refine .bind (h.schema table) (fun schema => ?_)
  refine .bind (h.ensureRankedWriteSafe table) (fun _ => ?_)
  exact .ite (.raise _) (.ite (.raise _) (.pure _))

theorem planDelete (table : String) (condition : Option E) :
    Keeps I (planDelete api plugins q table condition) := by
  refine .bind (h.schema table) (fun schema => ?_)
  refine .bind (h.ensureRankedWriteSafe table) (fun _ => ?_)
  refine .bind (h.fileOrg table) (fun _ => ?_)
  cases condition with
  | none => exact .pure _
  | some condition => exact .lift _

omit h in
theorem planCreate (columns : List ColumnDef) (engine : String) (primaryKey : Option String) :
    Keeps I (planCreate columns engine primaryKey) := by
  unfold Executor.planCreate
  split
  · exact .raise _
  · refine .bind (.lift _) (fun _ => ?_)
    cases primaryKey with
    | none => exact .pure _
    | some column =>
        dsimp only
        split
        · exact .pure _
        · exact .raise _

theorem isPlugin (indexType : String) : Keeps I (isPlugin api indexType) :=
  .bind (h.pluginCapabilities indexType) (fun _ => .pure _)

theorem planRankedIndex (m : RankedMetadata) (options : List (String × Datum)) :
    Keeps I (planRankedIndex api m options) := by
  have hrest : Keeps I (do
      let schema ← api.schema m.table
      Effect.lift (m.checkRankedMetadata schema)
      let location ← api.indexLocation m.name
      if location.isSome then Effect.raise (indexExists m.name)
      else do
        let configured ← api.rankedFactory
        if configured then pure ()
        else Effect.raise (.QueryExecutionError
          "ranked CREATE INDEX requires a configured index factory")) := by
    refine .bind (h.schema m.table) (fun schema => ?_)
    refine .bind (.lift _) (fun _ => ?_)
    refine .bind (h.indexLocation m.name) (fun location => ?_)
    split
    · exact .raise _
    · refine .bind h.rankedFactory (fun configured => ?_)
      split
      · exact .pure _
      · exact .raise _
  rw [Executor.planRankedIndex]
  cases hvalidate : api.validatePluginOptions with
  | none => exact hrest
  | some validate =>
      exact .bind (h.validatePluginOptions validate hvalidate _ _) (fun _ => hrest)

theorem planScalarIndex (table column indexType : String) :
    Keeps I (planScalarIndex api table column indexType) := by
  rw [Executor.planScalarIndex]
  split
  · exact .raise _
  · refine .bind (h.schema table) (fun schema => ?_)
    split
    · exact .raise _
    · split
      · exact .raise _
      · exact .pure _

theorem planCreateIndex (indexName table column indexType : String)
    (metric : Option String) (dimension : Option Int) (profileId : Option String)
    (options : List (String × Datum)) :
    Keeps I (planCreateIndex api indexName table column indexType metric dimension
      profileId options) := by
  rw [Executor.planCreateIndex]
  split
  · exact .raise _
  · refine .bind (h.isPlugin indexType) (fun plugin => ?_)
    split
    · exact h.planRankedIndex _ _
    · split
      · exact .raise _
      · exact h.planScalarIndex _ _ _

theorem plan (statement : Statement E S) : Keeps I (plan api plugins q statement) := by
  induction statement with
  | SelectStatement select => exact h.ask _
  | InsertStatement table columns values => exact h.planInsert table columns values
  | DeleteStatement table condition => exact h.planDelete table condition
  | UpdateStatement table assignments condition => exact .raise _
  | CreateTableStatement table columns engine primaryKey =>
      exact Reads.planCreate columns engine primaryKey
  | CreateIndexStatement indexName table column indexType metric dimension profileId options =>
      exact h.planCreateIndex _ _ _ _ _ _ _ _
  | DropTableStatement table =>
      rw [Executor.plan, planDropTable]
      split
      · exact .raise _
      · exact .bind (h.schema table) (fun _ => .pure _)
  | DropIndexStatement indexName =>
      refine .bind (h.indexLocation indexName) (fun location => ?_)
      split
      · exact .pure _
      · exact .raise _
  | CreateExtensionStatement name options =>
      refine .bind (h.pluginCapabilities name) (fun capabilities => ?_)
      split
      · exact .pure _
      · exact .raise _
  | DropExtensionStatement name =>
      refine .bind (h.extensionConfigured name) (fun configured => ?_)
      split
      · exact .pure _
      · exact .raise _
  | BeginTransactionStatement => exact .pure _
  | EndTransactionStatement => exact .pure _
  | ExplainStatement statement analyze jsonFormat ih => exact ih

theorem eachIndex (act : IndexEntry → Datum → Effect PyError σ Unit) (table : String)
    (schema : List ColumnDef) (row : List Datum) (hact : ∀ entry value, Keeps I (act entry value)) :
    Keeps I (eachIndex api act table schema row) := by
  refine .forEach (fun e => ?_) _
  refine .bind (h.indexesFor table e.1.name) (fun entries => ?_)
  exact .forEach (fun entry => hact entry _) entries

omit h in
theorem ensureWritable (table : String) : Keeps I (ensureWritable api table) := by
  rw [Executor.ensureWritable]
  split
  · exact .raise _
  · exact .pure _

end Reads

/-! ## INSERT and DELETE -/

section Rows

variable {table : String} (h : Reads api I) (hw : Writes api I table)
include h hw

theorem keeps_insert_row (schema : List ColumnDef) (ranked : List RankedMetadata)
    (positions : List Nat) (exprs : List E) :
    Keeps I (insertRow api plugins q table schema ranked positions exprs) := by
  refine .bind (.lift _) (fun values => ?_)
  refine .bind (.lift _) (fun data => ?_)
  refine .bind (hw.insert data) (fun rid => ?_)
  refine .bind (h.eachIndex _ table schema values ?_) (fun _ => ?_)
  · exact fun entry value => hw.insertKey entry value rid
  · exact h.maintainRanked _ _ _ _ _

theorem keeps_execute_insert (columns : List String) (values : List (List E)) :
    Keeps I (executeInsert api plugins q table columns values) := by
  refine .bind (Reads.ensureWritable table) (fun _ => ?_)
  refine .bind (h.schema table) (fun schema => ?_)
  refine .bind (h.fileOrg table) (fun _ => ?_)
  refine .bind (h.rankedTargets table) (fun ranked => ?_)
  refine .bind (.lift _) (fun positions => ?_)
  refine .bind (.forEach (fun exprs => ?_) values) (fun _ => .pure _)
  exact keeps_insert_row h hw schema ranked positions exprs

theorem keeps_delete_row (schema : List ColumnDef) (ranked : List RankedMetadata) (rid : RID)
    (row : List Datum) : Keeps I (deleteRow api plugins table schema ranked rid row) := by
  refine .bind (hw.remove rid) (fun removed => ?_)
  split
  · exact .pure _
  · refine .bind (h.eachIndex _ table schema row ?_) (fun _ => ?_)
    · exact fun entry value => hw.removeKey entry value rid
    · exact .bind (h.maintainRanked _ _ _ _ _) (fun _ => .pure _)

theorem keeps_delete_rows (schema : List ColumnDef) (ranked : List RankedMetadata)
    (rows : List (RID × List Datum)) :
    Keeps I (deleteRows api plugins table schema ranked rows) := by
  induction rows with
  | nil => exact .pure _
  | cons e rows ih =>
      refine .bind (keeps_delete_row h hw schema ranked e.1 e.2) (fun removed => ?_)
      exact .bind ih (fun affected => .pure _)

theorem keeps_execute_delete (condition : Option E) :
    Keeps I (executeDelete api plugins q table condition) := by
  refine .bind (Reads.ensureWritable table) (fun _ => ?_)
  refine .bind (h.schema table) (fun schema => ?_)
  refine .bind (h.fileOrg table) (fun _ => ?_)
  refine .bind (h.rankedTargets table) (fun ranked => ?_)
  refine .bind hw.scan (fun records => ?_)
  refine .bind (.lift _) (fun rows => ?_)
  exact .bind (keeps_delete_rows h hw schema ranked rows) (fun _ => .pure _)

end Rows

/-! ## Statements -/

/-- The table whose rows executing a statement may change. -/
def dmlTable : Statement E S → Option String
  | .InsertStatement table _ _ => some table
  | .DeleteStatement table _ => some table
  | .ExplainStatement statement true _ => dmlTable statement
  | _ => none

/-- Executing the statement executes a CREATE or a DROP. -/
def isDdl : Statement E S → Bool
  | .CreateTableStatement _ _ _ _ => true
  | .CreateIndexStatement _ _ _ _ _ _ _ _ => true
  | .DropTableStatement _ => true
  | .DropIndexStatement _ => true
  | .CreateExtensionStatement _ _ => true
  | .DropExtensionStatement _ => true
  | .ExplainStatement statement true _ => isDdl statement
  | _ => false

variable (h : Reads api I) (statement : Statement E S)
    (hwrites : ∀ table, dmlTable statement = some table → Writes api I table)
include h statement hwrites

/-- Executing keeps what the reading methods keep, the methods on the table it writes, and,
if it is a CREATE or a DROP, the DDL methods. -/
theorem keeps_execute (hdefines : isDdl statement = true → Defines api I) :
    Keeps I (execute api plugins q statement) := by
  induction statement with
  | SelectStatement select => exact h.ask _
  | InsertStatement table columns values =>
      exact keeps_execute_insert h (hwrites table rfl) columns values
  | DeleteStatement table condition =>
      exact keeps_execute_delete h (hwrites table rfl) condition
  | UpdateStatement table assignments condition => exact .raise _
  | CreateTableStatement table columns engine primaryKey =>
      refine .bind ((hdefines rfl).createTable _ _ _) (fun _ => ?_)
      cases primaryKey with
      | none => exact .pure _
      | some column =>
          exact .bind ((hdefines rfl).createIndex _ _ _ _) (fun _ => .pure _)
  | CreateIndexStatement indexName table column indexType metric dimension profileId options =>
      refine .bind (h.isPlugin indexType) (fun plugin => ?_)
      split
      · exact .bind ((hdefines rfl).createRankedIndex _) (fun _ => .pure _)
      · exact .bind ((hdefines rfl).createIndex _ _ _ _) (fun _ => .pure _)
  | DropTableStatement table =>
      exact .bind ((hdefines rfl).dropTable _) (fun _ => .pure _)
  | DropIndexStatement indexName =>
      exact .bind ((hdefines rfl).dropIndex _) (fun _ => .pure _)
  | CreateExtensionStatement name options =>
      exact .bind ((hdefines rfl).createExtension _ _) (fun _ => .pure _)
  | DropExtensionStatement name =>
      exact .bind ((hdefines rfl).dropExtension _) (fun _ => .pure _)
  | BeginTransactionStatement => exact .raise _
  | EndTransactionStatement => exact .raise _
  | ExplainStatement statement analyze jsonFormat ih =>
      have hlines : Keeps I (do
          let lines ← api.ask (fun n => .ok (q.render n))
          pure (⟨[⟨"QUERY PLAN", .TEXT, none⟩], lines.map (fun line => [.str line]), 0⟩ :
            ResultSet)) := .bind (h.ask _) (fun _ => .pure _)
      cases analyze with
      | false => exact hlines
      | true =>
          rw [execute, if_pos rfl]
          cases root statement with
          | some select =>
              exact .bind (h.ask _) (fun _ => hlines)
          | none =>
              exact .bind (ih hwrites hdefines) (fun _ => hlines)

/-- The same for planning and executing. -/
theorem keeps_run (hdefines : isDdl statement = true → Defines api I) :
    Keeps I (run api plugins q statement) :=
  .bind (h.plan statement) (fun _ => keeps_execute h statement hwrites hdefines)

end SoupDB.Executor
