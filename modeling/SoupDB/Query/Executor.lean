import SoupDB.Common.Catalog
import SoupDB.Transactions.Protocol

/-!
# SoupDB: planning and executing statements

INSERT, DELETE, CREATE and DROP are executed against a catalog.  The executor does not own
it: it is whatever has the methods of a `CatalogApi`, the catalog itself (`Catalog.api`) or a
proxy of it.  A method a catalog need not have is an `Option`.

Expressions and SELECT plans are other modules: an `Evaluation` says what they give.
-/

namespace SoupDB

open Effect

/-- A parsed statement. -/
inductive Statement (E S : Type)
  | SelectStatement (select : S)
  | InsertStatement (table : String) (columns : List String) (values : List (List E))
  | DeleteStatement (table : String) (condition : Option E)
  | UpdateStatement (table : String) (assignments : List (String × E)) (condition : Option E)
  | CreateTableStatement (table : String) (columns : List ColumnDef) (engine : String)
      (primaryKey : Option String)
  | CreateIndexStatement (indexName table column indexType : String)
      (metric : Option String) (dimension : Option Int) (profileId : Option String)
      (options : List (String × Datum))
  | DropTableStatement (table : String)
  | DropIndexStatement (indexName : String)
  | CreateExtensionStatement (name : String) (options : List (String × Datum))
  | DropExtensionStatement (name : String)
  | BeginTransactionStatement
  | EndTransactionStatement
  | ExplainStatement (statement : Statement E S) (analyze jsonFormat : Bool)

/-- What expressions and plans of SELECT give. -/
structure Evaluation (E S : Type) where
  evaluate : E → List Datum → List ColumnDef → Except PyError Datum
  /-- Whether an expression names only columns of a schema. -/
  validateColumns : E → List ColumnDef → Except PyError Unit
  planSelect : Nat → S → Except PyError Unit
  runSelect : Nat → S → Except PyError ResultSet
  /-- The lines of a rendered plan. -/
  render : Nat → List String

/-- What the executor asks of a catalog. -/
structure CatalogApi (σ : Type) : Type 1 where
  isSystemTable : Option (String → Bool)
  rankedTransactional : Bool
  /-- A question to a provider or to a SELECT plan. -/
  ask : {α : Type} → (Nat → Except PyError α) → Effect PyError σ α
  schema : String → Effect PyError σ (List ColumnDef)
  /-- `file_org(name)`: there is such a table. -/
  fileOrg : String → Effect PyError σ Unit
  insert : String → Bytes → Effect PyError σ RID
  remove : String → RID → Effect PyError σ Bool
  scan : String → Effect PyError σ (List (RID × Bytes))
  indexesFor : String → String → Effect PyError σ (List IndexEntry)
  /-- `index.insert(value, rid)`, unless the value stays out of the index. -/
  insertKey : String → IndexEntry → Datum → RID → Effect PyError σ Unit
  removeKey : String → IndexEntry → Datum → RID → Effect PyError σ Unit
  rankedMetadataFor : String → Effect PyError σ (List RankedMetadata)
  rankedIndexesFor : String → Effect PyError σ (List RankedMetadata)
  indexLocation : String → Effect PyError σ (Option (String × String))
  pluginCapabilities : String → Effect PyError σ Bool
  validatePluginOptions :
    Option (String → List (String × Datum) → Effect PyError σ Unit)
  rankedFactory : Effect PyError σ Bool
  extensionConfigured : String → Effect PyError σ Bool
  createTable : String → List ColumnDef → String → Effect PyError σ Unit
  createIndex : String → String → String → String → Effect PyError σ Unit
  createRankedIndex : RankedMetadata → Effect PyError σ Unit
  createExtension : String → List (String × Datum) → Effect PyError σ Unit
  dropTable : String → Effect PyError σ Unit
  dropIndex : String → Effect PyError σ Unit
  dropExtension : String → Effect PyError σ Unit

namespace Catalog

variable (w : World)

def insertKey (tableName : String) (entry : IndexEntry) (value : Datum) (rid : RID) :
    Method Unit := do
  let entry ← addKey w entry value rid
  setEntry tableName entry

def deleteKey (tableName : String) (entry : IndexEntry) (value : Datum) (rid : RID) :
    Method Unit := do
  let entry ← removeKey w entry value rid
  setEntry tableName entry

/-- The methods of a catalog itself. -/
def api : CatalogApi Catalog where
  isSystemTable := some isSystemTable
  rankedTransactional := false
  ask := ask
  schema := schema
  fileOrg name := do
    let _ ← table name
  insert name data := do
    let t ← table name
    onFiles (FileManager.insert w.storage t.fileId data)
  remove name rid := do
    let t ← table name
    onFiles (FileManager.remove t.fileId rid)
  scan name := do
    let t ← table name
    onFiles (FileManager.scan w.storage t.fileId)
  indexesFor := indexesFor
  insertKey := insertKey w
  removeKey := deleteKey w
  rankedMetadataFor := rankedMetadataFor
  rankedIndexesFor := rankedIndexesFor
  indexLocation := indexLocation
  pluginCapabilities name := ask (fun n => .ok (w.plugins.capabilities n name))
  validatePluginOptions := some (fun name options =>
    ask (fun n => w.plugins.validateOptions n name options))
  rankedFactory := ask (fun n => .ok (w.plugins.factory n))
  extensionConfigured := extensionConfigured w
  createTable := createTable w
  createIndex := createIndex w
  createRankedIndex := createRankedIndex w
  createExtension := createExtension w
  dropTable := dropTable w
  dropIndex := dropIndex w
  dropExtension := dropExtension w

end Catalog

namespace Executor

open Record (encodeRow decodeRow)

variable {E S σ : Type}

section Plan

variable (api : CatalogApi σ) (plugins : Plugins) (q : Evaluation E S)

/-- Return verified ranked bindings; reject unavailable or unsafe providers. -/
def rankedTargets (table : String) : Effect PyError σ (List RankedMetadata) := do
  let metadata ← api.rankedMetadataFor table
  let ready ← api.rankedIndexesFor table
  if metadata ≠ [] ∧ ¬ (∀ m ∈ metadata, m.name ∈ ready.map RankedMetadata.name) then
    raise (.QueryExecutionError "ranked DML is blocked: a ranked provider is unavailable")
  else do
    forEach (fun binding : RankedMetadata => do
      let reversible ← api.ask (fun n => .ok (plugins.reversible n binding))
      if binding.mutable && reversible then pure ()
      else raise (.QueryExecutionError
        (s!"ranked DML is blocked: index {reprStr binding.name} has no " ++
          "reversible provider"))) ready
    pure ready

/-- Apply a row mutation to the ranked indexes of a table. -/
def maintainRanked (targets : List RankedMetadata) (schema : List ColumnDef)
    (row : List Datum) (rid : RID) (insert : Bool) : Effect PyError σ Unit :=
  forEach (fun binding : RankedMetadata =>
    match schema.findIdx? (fun column => column.name = binding.column) with
    | none =>
        raise (.QueryExecutionError
          s!"ranked column {reprStr binding.column} is missing from the table")
    | some position =>
        let value := row.getD position .null
        if value.isNull then pure ()
        else api.ask (fun n => plugins.maintain n binding rid value insert)) targets

/-- Permit ranked writes only with a reversible provider and an undo journal. -/
def ensureRankedWriteSafe (table : String) : Effect PyError σ Unit := do
  let targets ← rankedTargets api plugins table
  if targets ≠ [] ∧ api.rankedTransactional = false then
    raise (.QueryExecutionError
      "ranked DML is blocked without TransactionalSession with reversible undo")
  else pure ()

def planInsert (table : String) (columns : List String) (values : List (List E)) :
    Effect PyError σ Unit := do
  let schema ← api.schema table
  ensureRankedWriteSafe api plugins table
  let names := schema.map ColumnDef.name
  if columns ≠ [] ∧ (columns.length ≠ schema.length ∨
      ¬ ((∀ name ∈ columns, name ∈ names) ∧ ∀ name ∈ names, name ∈ columns)) then
    raise (.QueryExecutionError "insert must provide exactly the table columns")
  else
    let width := if columns ≠ [] then columns.length else schema.length
    if values.any (fun row => row.length ≠ width) then
      raise (.QueryExecutionError "insert value count does not match column count")
    else pure ()

def planDelete (table : String) (condition : Option E) : Effect PyError σ Unit := do
  let schema ← api.schema table
  ensureRankedWriteSafe api plugins table
  api.fileOrg table
  match condition with
  | none => pure ()
  | some condition => lift (q.validateColumns condition schema)

def planCreate (columns : List ColumnDef) (engine : String) (primaryKey : Option String) :
    Effect PyError σ Unit :=
  if engine ≠ "HEAP" ∧ engine ≠ "SEQUENTIAL" then
    raise (.QueryExecutionError
      s!"unsupported engine {reprStr engine}; use HEAP or SEQUENTIAL")
  else do
    lift (checkColumns [] columns)
    match primaryKey with
    | none => pure ()
    | some column =>
        if column ∈ columns.map ColumnDef.name then pure ()
        else raise (.QueryExecutionError
          s!"unknown column {reprStr column} in PRIMARY KEY")

def indexExists (indexName : String) : PyError :=
  .QueryExecutionError s!"index {reprStr indexName} already exists"

def isPlugin (indexType : String) : Effect PyError σ Bool := do
  let capabilities ← api.pluginCapabilities indexType
  pure (decide (indexType ∈ RankedMetadata.rankedAlgorithms) || capabilities)

def rankedMetadata (indexName table column indexType : String) (metric : Option String)
    (dimension : Option Int) (profileId : Option String) : RankedMetadata where
  name := indexName
  table := table
  column := column
  algorithm := indexType
  metric := metric
  dimension := dimension
  profileId := profileId
  itemCount := none
  exact := false
  exhaustive := false
  mutable := false

def planRankedIndex (m : RankedMetadata) (options : List (String × Datum)) :
    Effect PyError σ Unit := do
  match api.validatePluginOptions with
  | none => pure ()
  | some validate => validate m.algorithm options
  let schema ← api.schema m.table
  lift (m.checkRankedMetadata schema)
  let location ← api.indexLocation m.name
  if location.isSome then raise (indexExists m.name)
  else do
    let configured ← api.rankedFactory
    if configured then pure ()
    else raise (.QueryExecutionError
      "ranked CREATE INDEX requires a configured index factory")

def planScalarIndex (table column indexType : String) : Effect PyError σ Unit :=
  if indexType ∉ SUPPORTED_INDEX_TYPES then
    raise (.QueryExecutionError
      (s!"unsupported index type {reprStr indexType}; " ++
        "use " ++ ", ".intercalate SUPPORTED_INDEX_TYPES))
  else do
    let schema ← api.schema table
    match schema.find? (fun definition => definition.name = column) with
    | none =>
        raise (.QueryExecutionError
          s!"unknown column {reprStr column} in table {reprStr table}")
    | some definition =>
        if indexType = "RTREE" ∧ definition.typeName ≠ .POINT then
          raise (.QueryExecutionError
            (s!"a spatial index requires a POINT column; column {reprStr column} of " ++
              s!"table {reprStr table} is {definition.typeName.value}"))
        else pure ()

def planCreateIndex (indexName table column indexType : String) (metric : Option String)
    (dimension : Option Int) (profileId : Option String) (options : List (String × Datum)) :
    Effect PyError σ Unit :=
  if api.isSystemTable.any (fun checker => checker table) then
    raise (Catalog.readOnly table)
  else do
    let plugin ← isPlugin api indexType
    if plugin then
      planRankedIndex api
        (rankedMetadata indexName table column indexType metric dimension profileId) options
    else if metric.isSome || dimension.isSome || profileId.isSome then
      raise (.QueryExecutionError "scalar/spatial CREATE INDEX cannot have vector options")
    else planScalarIndex api table column indexType

def planDropTable (table : String) : Effect PyError σ Unit :=
  if reserved table then raise (Catalog.reservedName table)
  else do
    let _ ← api.schema table

def planDropIndex (indexName : String) : Effect PyError σ Unit := do
  let location ← api.indexLocation indexName
  if location.isSome then pure ()
  else raise (.QueryExecutionError s!"unknown index {reprStr indexName}")

def planCreateExtension (name : String) : Effect PyError σ Unit := do
  let capabilities ← api.pluginCapabilities name
  if capabilities then pure ()
  else raise (.QueryExecutionError s!"plugin {reprStr name} is not installed")

def planDropExtension (name : String) : Effect PyError σ Unit := do
  let configured ← api.extensionConfigured name
  if configured then pure ()
  else raise (.QueryExecutionError s!"extension {reprStr name} is not installed")

/-- Build the execution plan for a parsed statement. -/
def plan : Statement E S → Effect PyError σ Unit
  | .SelectStatement select => api.ask (fun n => q.planSelect n select)
  | .InsertStatement table columns values => planInsert api plugins table columns values
  | .DeleteStatement table condition => planDelete api plugins q table condition
  | .UpdateStatement _ _ _ =>
      raise (.QueryExecutionError "unsupported statement UpdateStatement")
  | .CreateTableStatement _ columns engine primaryKey => planCreate columns engine primaryKey
  | .CreateIndexStatement indexName table column indexType metric dimension profileId options =>
      planCreateIndex api indexName table column indexType metric dimension profileId options
  | .DropTableStatement table => planDropTable api table
  | .DropIndexStatement indexName => planDropIndex api indexName
  | .CreateExtensionStatement name _ => planCreateExtension api name
  | .DropExtensionStatement name => planDropExtension api name
  | .BeginTransactionStatement => pure ()
  | .EndTransactionStatement => pure ()
  | .ExplainStatement statement _ _ => plan statement

end Plan

section Execute

variable (api : CatalogApi σ) (plugins : Plugins) (q : Evaluation E S)

/-- Reject DML over the read-only system tables. -/
def ensureWritable (table : String) : Effect PyError σ Unit :=
  if api.isSystemTable.any (fun checker => checker table) then
    raise (Catalog.readOnly table)
  else pure ()

/-- The values of a row, each at the position of its column. -/
def rowValues : List Nat → List E → List Datum → Except PyError (List Datum)
  | position :: positions, e :: exprs, values => do
      let value ← q.evaluate e [] []
      rowValues positions exprs (values.set position value)
  | [], [], values => .ok values
  | [], _ :: _, _ => .error (.ValueError "zip() argument 2 is longer than argument 1")
  | _ :: _, [], _ => .error (.ValueError "zip() argument 2 is shorter than argument 1")

/-- What is done to the indexes of a table for a row: column by column. -/
def eachIndex (act : IndexEntry → Datum → Effect PyError σ Unit) (table : String)
    (schema : List ColumnDef) (row : List Datum) : Effect PyError σ Unit :=
  forEach (fun e : ColumnDef × Nat => do
    let entries ← api.indexesFor table e.1.name
    forEach (fun entry => act entry (row.getD e.2 .null)) entries) schema.zipIdx

def insertRow (table : String) (schema : List ColumnDef) (ranked : List RankedMetadata)
    (positions : List Nat) (exprs : List E) : Effect PyError σ Unit := do
  let values ← lift (rowValues q positions exprs (List.replicate schema.length .null))
  let data ← lift (encodeRow values schema)
  let rid ← api.insert table data
  eachIndex api (fun entry value => api.insertKey table entry value rid) table schema values
  maintainRanked api plugins ranked schema values rid true

def executeInsert (table : String) (columns : List String) (values : List (List E)) :
    Effect PyError σ ResultSet := do
  ensureWritable api table
  let schema ← api.schema table
  api.fileOrg table
  let ranked ← rankedTargets api plugins table
  let columns := if columns = [] then schema.map ColumnDef.name else columns
  let positions ← lift (columns.mapM (columnPosition schema))
  forEach (insertRow api plugins q table schema ranked positions) values
  pure ⟨[], [], values.length⟩

/-- The rows a DELETE is about. -/
def matching (schema : List ColumnDef) (condition : Option E) :
    List (RID × Bytes) → Except PyError (List (RID × List Datum))
  | [] => .ok []
  | (rid, data) :: records => do
      let row ← decodeRow data schema
      let found ←
        match condition with
        | none => .ok true
        | some condition => (q.evaluate condition row schema).map Datum.truth
      let rows ← matching schema condition records
      .ok (if found then (rid, row) :: rows else rows)

/-- Whether the row was there. -/
def deleteRow (table : String) (schema : List ColumnDef) (ranked : List RankedMetadata)
    (rid : RID) (row : List Datum) : Effect PyError σ Bool := do
  let removed ← api.remove table rid
  if !removed then pure false
  else do
    eachIndex api (fun entry value => api.removeKey table entry value rid) table schema row
    maintainRanked api plugins ranked schema row rid false
    pure true

def deleteRows (table : String) (schema : List ColumnDef) (ranked : List RankedMetadata) :
    List (RID × List Datum) → Effect PyError σ Nat
  | [] => pure 0
  | (rid, row) :: rows => do
      let removed ← deleteRow api plugins table schema ranked rid row
      let affected ← deleteRows table schema ranked rows
      pure (if removed then affected + 1 else affected)

def executeDelete (table : String) (condition : Option E) : Effect PyError σ ResultSet := do
  ensureWritable api table
  let schema ← api.schema table
  api.fileOrg table
  let ranked ← rankedTargets api plugins table
  let records ← api.scan table
  let rows ← lift (matching q schema condition records)
  let affected ← deleteRows api plugins table schema ranked rows
  pure ⟨[], [], affected⟩

def executeCreateTable (table : String) (columns : List ColumnDef) (engine : String)
    (primaryKey : Option String) : Effect PyError σ ResultSet := do
  api.createTable table columns engine
  match primaryKey with
  | none => pure ⟨[], [], 0⟩
  | some column => do
      api.createIndex (table ++ "_pk") table column "BTREE"
      pure ⟨[], [], 0⟩

def executeCreateIndex (indexName table column indexType : String)
    (metric : Option String) (dimension : Option Int) (profileId : Option String) :
    Effect PyError σ ResultSet := do
  let plugin ← isPlugin api indexType
  if plugin then
    api.createRankedIndex
      (rankedMetadata indexName table column indexType metric dimension profileId)
  else api.createIndex indexName table column indexType
  pure ⟨[], [], 0⟩

def transactionControlError (name : String) : PyError :=
  .QueryExecutionError
    (s!"{name} TRANSACTION cannot be executed here: transaction boundaries are " ++
      "held by the transactional session, not by the statement executor. Send it " ++
      "through TransactionalSession.execute() (engine.transactions.session) so the " ++
      "transaction state is tracked; running it here would leave every statement " ++
      "auto-committed")

/-- The SELECT at the bottom of a statement that has an operator tree. -/
def root : Statement E S → Option S
  | .SelectStatement select => some select
  | .ExplainStatement statement _ _ => root statement
  | _ => none

/-- Execute a planned statement and return its result. -/
def execute : Statement E S → Effect PyError σ ResultSet
  | .SelectStatement select => api.ask (fun n => q.runSelect n select)
  | .InsertStatement table columns values => executeInsert api plugins q table columns values
  | .DeleteStatement table condition => executeDelete api plugins q table condition
  | .UpdateStatement _ _ _ =>
      raise (.QueryExecutionError "unsupported statement UpdateStatement")
  | .CreateTableStatement table columns engine primaryKey =>
      executeCreateTable api table columns engine primaryKey
  | .CreateIndexStatement indexName table column indexType metric dimension profileId _ =>
      executeCreateIndex api indexName table column indexType metric dimension profileId
  | .DropTableStatement table => do
      api.dropTable table
      pure ⟨[], [], 0⟩
  | .DropIndexStatement indexName => do
      api.dropIndex indexName
      pure ⟨[], [], 0⟩
  | .CreateExtensionStatement name options => do
      api.createExtension name options
      pure ⟨[], [], 0⟩
  | .DropExtensionStatement name => do
      api.dropExtension name
      pure ⟨[], [], 0⟩
  | .BeginTransactionStatement => raise (transactionControlError "BEGIN")
  | .EndTransactionStatement => raise (transactionControlError "END")
  | .ExplainStatement statement analyze _ => do
      if analyze then
        match root statement with
        | some select => do
            let _ ← api.ask (fun n => q.runSelect n select)
        | none => do
            let _ ← execute statement
      else pure ()
      let lines ← api.ask (fun n => .ok (q.render n))
      pure ⟨[⟨"QUERY PLAN", .TEXT, none⟩], lines.map (fun line => [.str line]), 0⟩

/-- `execute(plan(statement, catalog), catalog)`. -/
def run (statement : Statement E S) : Effect PyError σ ResultSet := do
  plan api plugins q statement
  execute api plugins q statement

end Execute

end Executor
end SoupDB
