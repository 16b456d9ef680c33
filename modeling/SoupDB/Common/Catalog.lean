import SoupDB.Common.RankedCatalog
import SoupDB.Lib.OrderedDict
import SoupDB.Lib.Sort
import SoupDB.Storage.FileManager

/-!
# SoupDB: the catalog

Tables and indexes, with their metadata stored as rows of system tables.  The dictionary of
tables is in memory; `init` opens a directory, writes the rows of the system tables the first
time, and loads what the rows say.

Providers of ranked indexes are outside: `Plugins` says what they answer.  As for the files,
an answer may depend on all that was asked before.
-/

namespace SoupDB

open Effect FileManager

/-! ## Schemas of the system tables -/

def SYS_TABLES_SCHEMA : List ColumnDef :=
  [⟨"table_name", .TEXT, none⟩, ⟨"file_id", .TEXT, none⟩, ⟨"strategy", .TEXT, none⟩,
    ⟨"position", .INT, none⟩]

def SYS_COLUMNS_SCHEMA : List ColumnDef :=
  [⟨"table_name", .TEXT, none⟩, ⟨"position", .INT, none⟩, ⟨"column_name", .TEXT, none⟩,
    ⟨"type_name", .TEXT, none⟩, ⟨"length", .INT, none⟩]

def SYS_INDEXES_SCHEMA : List ColumnDef :=
  [⟨"index_name", .TEXT, none⟩, ⟨"table_name", .TEXT, none⟩, ⟨"column_name", .TEXT, none⟩,
    ⟨"index_type", .TEXT, none⟩]

def SYS_PLUGINS_SCHEMA : List ColumnDef :=
  [⟨"plugin_name", .TEXT, none⟩, ⟨"version", .TEXT, none⟩, ⟨"api_version", .INT, none⟩,
    ⟨"enabled", .BOOL, none⟩, ⟨"config_json", .TEXT, none⟩]

def SYS_TYPES_SCHEMA : List ColumnDef :=
  [⟨"type_name", .TEXT, none⟩, ⟨"plugin_name", .TEXT, none⟩, ⟨"encoding", .INT, none⟩,
    ⟨"size", .INT, none⟩]

def SYS_PLUGIN_INDEXES_SCHEMA : List ColumnDef :=
  [⟨"index_name", .TEXT, none⟩, ⟨"table_name", .TEXT, none⟩, ⟨"column_name", .TEXT, none⟩,
    ⟨"index_type", .TEXT, none⟩, ⟨"plugin_name", .TEXT, none⟩, ⟨"options_json", .TEXT, none⟩,
    ⟨"capabilities_json", .TEXT, none⟩, ⟨"item_count", .INT, none⟩,
    ⟨"artifact_root", .TEXT, none⟩]

def SYS_TABLES : List (String × List ColumnDef) :=
  [("SysTables", SYS_TABLES_SCHEMA), ("SysColumns", SYS_COLUMNS_SCHEMA),
    ("SysIndexes", SYS_INDEXES_SCHEMA), ("SysPlugins", SYS_PLUGINS_SCHEMA),
    ("SysTypes", SYS_TYPES_SCHEMA), ("SysPluginIndexes", SYS_PLUGIN_INDEXES_SCHEMA)]

/-- The legacy file of ranked metadata and its schema. -/
def RANKED_METADATA_FILE : String := "SysRankedIndexes"

def RANKED_SCHEMA : List ColumnDef :=
  [⟨"index_name", .TEXT, none⟩, ⟨"table_name", .TEXT, none⟩, ⟨"column_name", .TEXT, none⟩,
    ⟨"algorithm", .TEXT, none⟩, ⟨"metric", .TEXT, none⟩, ⟨"dimension", .INT, none⟩,
    ⟨"profile_id", .TEXT, none⟩, ⟨"item_count", .INT, none⟩, ⟨"exact", .BOOL, none⟩,
    ⟨"exhaustive", .BOOL, none⟩, ⟨"mutable", .BOOL, none⟩]

/-- Type, plugin, encoding and size of the native types. -/
def NATIVE_TYPES : List (List Datum) :=
  [[.str "INT", .str "", .int 0, .int 4], [.str "FLOAT", .str "", .int 0, .int 8],
    [.str "VARCHAR", .str "", .int 0, .int 0], [.str "TEXT", .str "", .int 0, .int 0],
    [.str "BOOL", .str "", .int 0, .int 1], [.str "POINT", .str "", .int 0, .int 16]]

def SUPPORTED_ENGINES : List String := ["HEAP", "SEQUENTIAL"]

def SUPPORTED_INDEX_TYPES : List String := ["BTREE", "HASH", "RTREE"]

/-- `name.startswith("Sys")`. -/
def reserved (name : String) : Bool := "Sys".toList.isPrefixOf name.toList

/-! ## State -/

structure IndexEntry where
  indexName : String
  column : String
  indexType : String
  /-- The index, if it is an RTREE: it is in memory only. -/
  tree : Index

structure Table where
  name : String
  schema : List ColumnDef
  fileId : String
  strategy : String
  indexes : OrderedDict String IndexEntry

structure Catalog where
  files : FileManager
  tables : OrderedDict String Table
  rankedMeta : OrderedDict String RankedMetadata
  /-- What the loaded providers declare. -/
  rankedReady : OrderedDict String RankedMetadata

/-- What the providers of ranked indexes and their registry answer. -/
structure Plugins where
  /-- `str.upper`. -/
  upper : String → String
  /-- Whether a plugin of the name declares capabilities. -/
  capabilities : Nat → String → Bool
  validateOptions : Nat → String → List (String × Datum) → Except PyError Unit
  /-- Whether a ranked factory is configured. -/
  factory : Nat → Bool
  /-- What the built or the loaded provider declares. -/
  build : Nat → RankedMetadata → Except PyError RankedMetadata
  load : Nat → RankedMetadata → Except PyError RankedMetadata
  /-- The row of `SysPlugins` for an algorithm, if it is registered. -/
  config : Nat → String → Option (List Datum)
  /-- The row of `SysPlugins` for an activated plugin. -/
  activate : Nat → String → List (String × Datum) → Except PyError (List Datum)
  deactivate : Nat → String → Except PyError Unit
  /-- Loading the plugins that the rows of `SysPlugins` configure. -/
  configure : Nat → List (List Datum) → Except PyError Unit
  /-- Whether the provider has atomic, reversible mutations. -/
  reversible : Nat → RankedMetadata → Bool
  /-- `insertDocument` or `removeDocument`. -/
  maintain : Nat → RankedMetadata → RID → Datum → Bool → Except PyError Unit
  /-- Closing a provider and dropping its artifacts. -/
  forget : Nat → RankedMetadata → Except PyError Unit

/-- No plugin is installed. -/
def Plugins.absent : Plugins where
  upper := fun s => s
  capabilities := fun _ _ => false
  validateOptions := fun _ name _ => .error (.QueryExecutionError s!"unknown plugin {name}")
  factory := fun _ => false
  build := fun _ m => .error (.QueryExecutionError s!"unknown algorithm {m.algorithm}")
  load := fun _ m => .error (.QueryExecutionError s!"unknown algorithm {m.algorithm}")
  config := fun _ _ => none
  activate := fun _ name _ => .error (.QueryExecutionError s!"unknown plugin {name}")
  deactivate := fun _ _ => .ok ()
  configure := fun _ _ => .ok ()
  reversible := fun _ _ => false
  maintain := fun _ _ _ _ _ => .ok ()
  forget := fun _ _ => .ok ()

/-- What is outside of the catalog. -/
structure World where
  storage : Storage
  plugins : Plugins

def World.plain : World := ⟨Storage.onePage, Plugins.absent⟩

def lengthOrNone (length : Int) : Option Int := if length = 0 then none else some length

/-- `column.length or 0`. -/
def lengthOrZero (length : Option Int) : Int := length.getD 0

/-- `ColumnType(type_name)`. -/
def columnType (typeName : String) : Except PyError ColumnType :=
  match [ColumnType.INT, .FLOAT, .VARCHAR, .TEXT, .BOOL, .POINT].find?
      (fun t => t.value = typeName) with
  | some t => .ok t
  | none => .error (.ValueError s!"{reprStr typeName} is not a valid ColumnType")

def checkColumns : List String → List ColumnDef → Except PyError Unit
  | _, [] => .ok ()
  | seen, column :: columns =>
      if column.name ∈ seen then
        .error (.QueryExecutionError s!"duplicate column {reprStr column.name}")
      else checkColumns (seen ++ [column.name]) columns

def columnPosition (columns : List ColumnDef) (name : String) : Except PyError Nat :=
  match columns.findIdx? (fun column => column.name = name) with
  | some position => .ok position
  | none => .error (.QueryExecutionError s!"unknown column {reprStr name}")

namespace Catalog

abbrev Method (α : Type) : Type := Effect PyError Catalog α

open Record (encodeRow decodeRow)

def onFiles {α : Type} (x : FileManager.Method α) : Method α :=
  focus Catalog.files (fun files c => { c with files }) x

/-- A question to the providers. -/
def ask {α : Type} (answer : Nat → Except PyError α) : Method α :=
  onFiles (FileManager.ask answer)

variable (w : World)

/-! ## Lookups -/

def table (name : String) : Method Table := do
  let c ← get
  match c.tables.get? name with
  | some table => pure table
  | none => raise (.QueryExecutionError s!"unknown table {reprStr name}")

def schema (name : String) : Method (List ColumnDef) := do
  let t ← table name
  pure t.schema

def isSystemTable (name : String) : Bool := reserved name

def indexesFor (name column : String) : Method (List IndexEntry) := do
  let t ← table name
  pure ((t.indexes.entries.map Prod.snd).filter (fun entry => entry.column = column))

def indexNames (c : Catalog) : List String :=
  c.rankedMeta.keys ++ c.tables.entries.flatMap (fun e => e.2.indexes.keys)

def indexLocation (indexName : String) : Method (Option (String × String)) := do
  let c ← get
  match c.rankedMeta.get? indexName with
  | some ranked => pure (some (ranked.table, ranked.column))
  | none =>
      pure (c.tables.entries.findSome? (fun e =>
        (e.2.indexes.get? indexName).map (fun entry => (e.2.name, entry.column))))

def rankedMetadataFor (name : String) : Method (List RankedMetadata) := do
  let _ ← table name
  let c ← get
  pure ((c.rankedMeta.entries.map Prod.snd).filter (fun m => m.table = name))

def rankedIndexesFor (name : String) : Method (List RankedMetadata) := do
  let _ ← table name
  let c ← get
  pure ((c.rankedReady.entries.map Prod.snd).filter (fun m => m.table = name))

/-! ## Rows of system tables -/

def insertSysRow (name : String) (schema : List ColumnDef) (row : List Datum) :
    Method Unit := do
  onFiles (FileManager.storage name)
  let data ← lift (encodeRow row schema)
  let _ ← onFiles (insert w.storage name data)

def scanRows (fileId : String) (schema : List ColumnDef) :
    Method (List (RID × List Datum)) := do
  let records ← onFiles (scan w.storage fileId)
  lift (records.mapM (fun e => do
    let row ← decodeRow e.2 schema
    .ok (e.1, row)))

def readSysRows (name : String) (schema : List ColumnDef) : Method (List (List Datum)) := do
  onFiles (FileManager.storage name)
  let rows ← scanRows w name schema
  pure (rows.map Prod.snd)

def deleteSysRows (name : String) (schema : List ColumnDef) (predicate : List Datum → Bool) :
    Method Unit := do
  onFiles (FileManager.storage name)
  let rows ← scanRows w name schema
  forEach (fun rid => do
    let _ ← onFiles (remove name rid))
    ((rows.filter (fun e => predicate e.2)).map Prod.fst)

/-- Replace the matching system rows. -/
def upsertSysRow (name : String) (schema : List ColumnDef) (row : List Datum)
    (key : List Datum → Bool) : Method Unit := do
  deleteSysRows w name schema key
  insertSysRow w name schema row

/-- `row[0] == name`. -/
def names (name : String) : List Datum → Bool
  | .str s :: _ => s = name
  | _ => false

/-! ## Files -/

def openFile (fileId strategy : String) : Method Unit := do
  onFiles (FileManager.storage fileId)
  if strategy = "HEAP" then pure ()
  else if strategy = "SEQUENTIAL" then onFiles (openSequential w.storage fileId)
  else raise (.QueryExecutionError s!"unsupported engine {reprStr strategy}")

def indexFile (indexName : String) : String := "ix_" ++ indexName

def openIndex (indexName indexType : String) : Method Unit :=
  if indexType = "RTREE" then pure ()
  else do
    onFiles (FileManager.storage (indexFile indexName))
    if indexType = "BTREE" ∨ indexType = "HASH" then
      onFiles (FileManager.openIndex w.storage (indexFile indexName) indexType)
    else raise (.QueryExecutionError s!"unsupported index type {reprStr indexType}")

/-- An index as it is: in memory, or in its file. -/
def indexOf (c : Catalog) (entry : IndexEntry) : Index :=
  if entry.indexType = "RTREE" then entry.tree
  else (c.files.indexes (indexFile entry.indexName)).getD ⟨entry.indexType, []⟩

/-! ## Entries of an index -/

/-- Whether a NULL value must stay out of an index: a NULL coordinate is not a location. -/
def skipIndexKey (entry : IndexEntry) (value : Datum) : Bool :=
  decide (entry.indexType = "RTREE") && value.isNull

/-- Keep what an index has become: an RTREE in its entry, another structure in its file. -/
def setIndex (entry : IndexEntry) (i : Index) : Method IndexEntry :=
  if entry.indexType = "RTREE" then pure { entry with tree := i }
  else do
    onFiles (FileManager.setIndex (indexFile entry.indexName) i)
    pure entry

/-- Insert a value and a RID, unless the value stays out. -/
def addKey (entry : IndexEntry) (value : Datum) (rid : RID) : Method IndexEntry :=
  if skipIndexKey entry value then pure entry
  else do
    let c ← get
    let i ← onFiles (indexInsert w.storage (c.indexOf entry) value rid)
    setIndex entry i

def removeKey (entry : IndexEntry) (value : Datum) (rid : RID) : Method IndexEntry :=
  if skipIndexKey entry value then pure entry
  else do
    let c ← get
    let i ← onFiles (indexRemove w.storage (c.indexOf entry) value rid)
    setIndex entry i

/-- Put an entry back into its table. -/
def setEntry (tableName : String) (entry : IndexEntry) : Method Unit :=
  Effect.modify (fun c =>
    match c.tables.get? tableName with
    | some t =>
        { c with
          tables := c.tables.set tableName
            { t with indexes := t.indexes.set entry.indexName entry } }
    | none => c)

/-- Insert every record into an index, keyed by the column at a position. -/
def fillRecords (schema : List ColumnDef) (position : Nat) :
    List (RID × Bytes) → IndexEntry → Method IndexEntry
  | [], entry => pure entry
  | (rid, data) :: records, entry => do
      let row ← lift (decodeRow data schema)
      let entry ← addKey w entry (row.getD position .null) rid
      fillRecords schema position records entry

def fillIndex (t : Table) (entry : IndexEntry) : Method IndexEntry := do
  let position ← lift (columnPosition t.schema entry.column)
  let records ← onFiles (scan w.storage t.fileId)
  fillRecords w t.schema position records entry

def newEntry (indexName column indexType : String) : IndexEntry :=
  { indexName, column, indexType, tree := ⟨indexType, []⟩ }

/-- Open an index with the entries already in the table.  BTREE and HASH keep their own
pages; an RTREE is made from the table every time. -/
def buildIndex (t : Table) (indexName column indexType : String) : Method IndexEntry := do
  openIndex w indexName indexType
  if indexType = "RTREE" then fillIndex w t (newEntry indexName column indexType)
  else pure (newEntry indexName column indexType)

/-! ## DDL -/

def reservedName (name : String) : PyError :=
  .QueryExecutionError s!"table name {reprStr name} is reserved for system tables (Sys*)"

def readOnly (name : String) : PyError :=
  .QueryExecutionError s!"system table {reprStr name} is read-only"

/-- The row of `SysColumns` for the column at a position. -/
def columnRow (name : String) (position : Nat) (column : ColumnDef) : List Datum :=
  [.str name, .int position, .str column.name, .str column.typeName.value,
    .int (lengthOrZero column.length)]

def insertColumns (name : String) (columns : List ColumnDef) : Method Unit :=
  forEach (fun e : ColumnDef × Nat =>
    insertSysRow w "SysColumns" SYS_COLUMNS_SCHEMA (columnRow name e.2 e.1)) columns.zipIdx

def tableRow (name fileId strategy : String) (position : Nat) : List Datum :=
  [.str name, .str fileId, .str strategy, .int position]

def setTable (name : String) (t : Table) : Method Unit :=
  Effect.modify (fun c => { c with tables := c.tables.set name t })

def createTable (name : String) (columns : List ColumnDef) (engine : String) :
    Method Unit := do
  let c ← get
  if c.tables.contains name then
    raise (.QueryExecutionError s!"table {reprStr name} already exists")
  else if reserved name then raise (reservedName name)
  else if engine ∉ SUPPORTED_ENGINES then
    raise (.QueryExecutionError
      (s!"unsupported engine {reprStr engine}; use one of " ++
        ", ".intercalate SUPPORTED_ENGINES))
  else do
    lift (checkColumns [] columns)
    let fileId := "t_" ++ name
    openFile w fileId engine
    let position := c.tables.size
    setTable name
      { name, schema := columns, fileId, strategy := engine, indexes := OrderedDict.empty }
    insertSysRow w "SysTables" SYS_TABLES_SCHEMA (tableRow name fileId engine position)
    insertColumns w name columns

/-- Reject a spatial index on a column that cannot hold a location. -/
def checkIndexableColumn (t : Table) (tableName column indexType : String) :
    Except PyError Unit :=
  if indexType ≠ "RTREE" then .ok ()
  else
    match t.schema.find? (fun definition => definition.name = column) with
    | none => .error (.QueryExecutionError s!"unknown column {reprStr column}")
    | some definition =>
        if definition.typeName = .POINT then .ok ()
        else
          .error (.QueryExecutionError
            (s!"a spatial index requires a POINT column; column {reprStr column} of table " ++
              s!"{reprStr tableName} is {definition.typeName.value}"))

def indexRow (indexName tableName column indexType : String) : List Datum :=
  [.str indexName, .str tableName, .str column, .str indexType]

def createIndex (indexName tableName column indexType : String) : Method Unit := do
  let c ← get
  if indexName ∈ indexNames c then
    raise (.QueryExecutionError s!"index {reprStr indexName} already exists")
  else if isSystemTable tableName then raise (readOnly tableName)
  else do
    let t ← table tableName
    if column ∉ t.schema.map ColumnDef.name then
      raise (.QueryExecutionError
        s!"unknown column {reprStr column} in table {reprStr tableName}")
    else if indexType ∉ SUPPORTED_INDEX_TYPES then
      raise (.QueryExecutionError
        (s!"unsupported index type {reprStr indexType}; " ++
          "use " ++ ", ".intercalate SUPPORTED_INDEX_TYPES))
    else do
      lift (checkIndexableColumn t tableName column indexType)
      openIndex w indexName indexType
      let entry ← fillIndex w t (newEntry indexName column indexType)
      setEntry tableName entry
      insertSysRow w "SysIndexes" SYS_INDEXES_SCHEMA
        (indexRow indexName tableName column indexType)

def forgetRanked (indexName : String) : Method Unit := do
  let c ← get
  match c.rankedMeta.get? indexName with
  | none => raise (.KeyError indexName)
  | some m => do
      Effect.modify (fun c => { c with rankedReady := c.rankedReady.erase indexName })
      deleteSysRows w "SysPluginIndexes" SYS_PLUGIN_INDEXES_SCHEMA (names indexName)
      Effect.modify (fun c => { c with rankedMeta := c.rankedMeta.erase indexName })
      ask (fun n => w.plugins.forget n m)

/-- Remove the file and the system row of one index of a table that is dropped. -/
def dropEntry (entry : IndexEntry) : Method Unit := do
  onFiles (drop (indexFile entry.indexName))
  deleteSysRows w "SysIndexes" SYS_INDEXES_SCHEMA (names entry.indexName)

/-- Remove a table, its sys rows, its indexes and its backing file. -/
def dropTable (name : String) : Method Unit :=
  if reserved name then raise (reservedName name)
  else do
    let t ← table name
    let ranked ← rankedMetadataFor name
    forEach (fun m : RankedMetadata => forgetRanked w m.name) ranked
    forEach (dropEntry w) (t.indexes.entries.map Prod.snd)
    deleteSysRows w "SysTables" SYS_TABLES_SCHEMA (names name)
    deleteSysRows w "SysColumns" SYS_COLUMNS_SCHEMA (names name)
    Effect.modify (fun c => { c with tables := c.tables.erase name })
    onFiles (drop ("t_" ++ name))

/-- Remove an index, its sys row and its backing file. -/
def dropIndex (indexName : String) : Method Unit := do
  let c ← get
  if c.rankedMeta.contains indexName then forgetRanked w indexName
  else
    match c.tables.entries.find? (fun e => e.2.indexes.contains indexName) with
    | none => raise (.QueryExecutionError s!"unknown index {reprStr indexName}")
    | some (name, t) => do
        setTable name { t with indexes := t.indexes.erase indexName }
        deleteSysRows w "SysIndexes" SYS_INDEXES_SCHEMA (names indexName)
        onFiles (drop (indexFile indexName))

/-! ## Ranked indexes and extensions -/

/-- Store the plugin configuration needed to reload an index later. -/
def persistPluginConfig (algorithm : String) : Method Unit := do
  let row ← ask (fun n => .ok (w.plugins.config n algorithm))
  match row with
  | none => pure ()
  | some row =>
      upsertSysRow w "SysPlugins" SYS_PLUGINS_SCHEMA row (fun item =>
        match item, row with
        | .str a :: _, .str b :: _ => a = b
        | _, _ => false)

/-- Publish and persist an already-built ranked index. -/
def registerRankedIndex (binding : RankedMetadata) : Method Unit := do
  let columns ← schema binding.table
  lift (binding.validateRankedBinding columns)
  let c ← get
  if binding.name ∈ indexNames c then
    raise (.QueryExecutionError s!"index {reprStr binding.name} already exists")
  else do
    lift (binding.checkRankedMetadata columns)
    upsertSysRow w "SysPluginIndexes" SYS_PLUGIN_INDEXES_SCHEMA binding.rankedRow
      (names binding.name)
    persistPluginConfig w binding.algorithm
    Effect.modify (fun c =>
      { c with
        rankedMeta := c.rankedMeta.set binding.name binding
        rankedReady := c.rankedReady.set binding.name binding })

/-- The binding declares what was asked for. -/
def consistent (binding m : RankedMetadata) : Bool :=
  decide (binding.name = m.name ∧ binding.table = m.table ∧ binding.column = m.column ∧
    binding.algorithm = m.algorithm ∧ binding.metric = m.metric ∧
    binding.dimension = m.dimension ∧ binding.profileId = m.profileId)

/-- Build first, persist metadata after the provider succeeds. -/
def createRankedIndex (m : RankedMetadata) : Method Unit :=
  if isSystemTable m.table then raise (readOnly m.table)
  else do
    let columns ← schema m.table
    lift (m.checkRankedMetadata columns)
    let c ← get
    if m.name ∈ indexNames c then
      raise (.QueryExecutionError s!"index {reprStr m.name} already exists")
    else do
      let configured ← ask (fun n => .ok (w.plugins.factory n))
      if !configured then
        raise (.QueryExecutionError
          "ranked CREATE INDEX requires a configured index factory")
      else do
        let binding ← ask (fun n => w.plugins.build n m)
        if !consistent binding m then
          raise (.QueryExecutionError
            "ranked factory returned inconsistent index metadata")
        else registerRankedIndex w binding

/-- `str(row[0]).upper() == name`. -/
def namesUpper (name : String) : List Datum → Bool
  | .str s :: _ => w.plugins.upper s = name
  | _ => false

/-- Whether `SysPlugins` has an enabled row for this plugin. -/
def extensionConfigured (name : String) : Method Bool := do
  let rows ← readSysRows w "SysPlugins" SYS_PLUGINS_SCHEMA
  pure (rows.any (fun row =>
    namesUpper w (w.plugins.upper name) row && (row.getD 3 .null).truth))

/-- Activate an installed plugin and persist its configuration. -/
def createExtension (name : String) (options : List (String × Datum)) : Method Unit := do
  let row ← ask (fun n => w.plugins.activate n (w.plugins.upper name) options)
  upsertSysRow w "SysPlugins" SYS_PLUGINS_SCHEMA row (fun item =>
    match row with
    | .str plugin :: _ => namesUpper w plugin item
    | _ => false)

/-- `row[4] or row[3]`, in upper case. -/
def pluginOf (row : List Datum) : String :=
  match row.getD 4 .null, row.getD 3 .null with
  | .str plugin, .str indexType =>
      w.plugins.upper (if plugin = "" then indexType else plugin)
  | .str plugin, _ => w.plugins.upper plugin
  | _, .str indexType => w.plugins.upper indexType
  | _, _ => w.plugins.upper "None"

/-- Deactivate a plugin, refusing while indexes still depend on it. -/
def dropExtension (name : String) : Method Unit := do
  let normalized := w.plugins.upper name
  let rows ← readSysRows w "SysPluginIndexes" SYS_PLUGIN_INDEXES_SCHEMA
  let dependent := (rows.filter (fun row => pluginOf w row = normalized)).map
    (fun row => match row with
      | .str indexName :: _ => reprStr indexName
      | _ => "None")
  if dependent ≠ [] then
    raise (.QueryExecutionError
      (s!"cannot drop extension {reprStr normalized}: indexes depend on it: " ++
        "[" ++ ", ".intercalate (dependent.insertionSort (fun a b => a ≤ b)) ++ "]"))
  else do
    deleteSysRows w "SysPlugins" SYS_PLUGINS_SCHEMA (namesUpper w normalized)
    ask (fun n => w.plugins.deactivate n normalized)

/-! ## Opening a database -/

/-- The rows of one system table in `SysTables` and `SysColumns`. -/
def registerSysTable (sysName : String) (sysSchema : List ColumnDef) (position : Nat) :
    Method Unit := do
  insertSysRow w "SysTables" SYS_TABLES_SCHEMA (tableRow sysName sysName "HEAP" position)
  insertColumns w sysName sysSchema

/-- Write the system-table rows the first time this database is opened. -/
def seedSysMetadata : Method Unit := do
  openFile w "SysTables" "HEAP"
  let records ← onFiles (scan w.storage "SysTables")
  if records ≠ [] then pure ()
  else
    forEach (fun e : (String × List ColumnDef) × Nat =>
      registerSysTable w e.1.1 e.1.2 e.2) SYS_TABLES.zipIdx

/-- A row of `SysTables`. -/
structure TableRow where
  tableName : String
  fileId : String
  strategy : String
  position : Int

/-- A row of `SysTables`, if no field is NULL. -/
def readTableRow (row : List Datum) : Except PyError TableRow :=
  match row with
  | [.str tableName, .str fileId, .str strategy, .int position] =>
      .ok { tableName, fileId, strategy, position }
  | _ => .error (.TypeError "a field of a row of SysTables is None")

/-- A column as a row of `SysColumns` has it, and its position. -/
def readColumnRow (row : List Datum) : Except PyError (Int × ColumnDef) :=
  match row with
  | [_, .int position, .str name, .str typeName, .int length] => do
      let typeName ← columnType typeName
      .ok (position, { name, typeName, length := lengthOrNone length })
  | _ => .error (.TypeError "a field of a row of SysColumns is None")

/-- The columns of a table, in the order of their positions. -/
def loadColumns (cRows : List (List Datum)) (tableName : String) :
    Except PyError (List ColumnDef) := do
  let columns ← (cRows.filter (names tableName)).mapM readColumnRow
  .ok ((columns.insertionSort (fun a b => a.1 ≤ b.1)).map Prod.snd)

def loadTable (cRows : List (List Datum)) (row : TableRow) : Method Unit := do
  let columns ← lift (loadColumns cRows row.tableName)
  openFile w row.fileId row.strategy
  setTable row.tableName
    { name := row.tableName, schema := columns, fileId := row.fileId,
      strategy := row.strategy, indexes := OrderedDict.empty }

/-- Open the index of a row of `SysIndexes`, if its table is there. -/
def loadIndex (row : List Datum) : Method Unit :=
  match row with
  | [.str indexName, .str tableName, .str column, .str indexType] => do
      let c ← get
      match c.tables.get? tableName with
      | none => pure ()
      | some t => do
          let entry ← buildIndex w t indexName column indexType
          setEntry tableName entry
  | _ => raise (.TypeError "a field of a row of SysIndexes is None")

def load : Method Unit := do
  let tRows ← readSysRows w "SysTables" SYS_TABLES_SCHEMA
  let cRows ← readSysRows w "SysColumns" SYS_COLUMNS_SCHEMA
  let iRows ← readSysRows w "SysIndexes" SYS_INDEXES_SCHEMA
  let rows ← lift (tRows.mapM readTableRow)
  forEach (loadTable w cRows) (rows.insertionSort (fun a b => a.position ≤ b.position))
  forEach (loadIndex w) iRows

/-- Register a system table introduced after this database was created. -/
def ensureSysTable (sysName : String) (sysSchema : List ColumnDef) : Method Unit := do
  let c ← get
  if c.tables.contains sysName then pure ()
  else do
    registerSysTable w sysName sysSchema c.tables.size
    openFile w sysName "HEAP"
    setTable sysName
      { name := sysName, schema := sysSchema, fileId := sysName, strategy := "HEAP",
        indexes := OrderedDict.empty }

def ensureSysTables : Method Unit :=
  forEach (fun e : String × List ColumnDef => ensureSysTable w e.1 e.2) SYS_TABLES

/-- Register the native column types in `SysTypes` on first open. -/
def seedTypes : Method Unit := do
  let rows ← readSysRows w "SysTypes" SYS_TYPES_SCHEMA
  if rows ≠ [] then pure ()
  else forEach (insertSysRow w "SysTypes" SYS_TYPES_SCHEMA) NATIVE_TYPES

def loadPlugins : Method Unit := do
  let stored ← readSysRows w "SysPlugins" SYS_PLUGINS_SCHEMA
  ask (fun n => w.plugins.configure n stored)

/-- `RankedMetadata.from_row`, on a row of the legacy layout. -/
def metadataFromRow (row : List Datum) : Except PyError RankedMetadata :=
  match row with
  | [.str name, .str table, .str column, .str algorithm, metric, dimension, profileId,
      itemCount, .bool exact, .bool exhaustive, .bool mutable] =>
      .ok {
        name, table, column, algorithm, exact, exhaustive, mutable
        metric := match metric with
          | .str s => some s
          | _ => none
        dimension := match dimension with
          | .int n => some n
          | _ => none
        profileId := match profileId with
          | .str s => some s
          | _ => none
        itemCount := match itemCount with
          | .int n => some n
          | _ => none }
  | _ => .error (.TypeError "a field of a row of SysRankedIndexes is None")

/-- One-version migration from the legacy layout of ranked metadata. -/
def migrateRankedMetadata : Method Unit := do
  let rows ← readSysRows w "SysPluginIndexes" SYS_PLUGIN_INDEXES_SCHEMA
  if rows ≠ [] then pure ()
  else do
    let legacy ← readSysRows w RANKED_METADATA_FILE RANKED_SCHEMA
    forEach (fun row => do
      let m ← lift (metadataFromRow row)
      insertSysRow w "SysPluginIndexes" SYS_PLUGIN_INDEXES_SCHEMA m.rankedRow) legacy

/-- The metadata of a row of `SysPluginIndexes`, and its provider if there is a factory. -/
def loadRanked (row : List Datum) : Method Unit := do
  let m ← lift (RankedMetadata.metaFromRow row)
  let columns ← schema m.table
  lift (m.checkRankedMetadata columns)
  let c ← get
  if c.rankedMeta.contains m.name then
    raise (.QueryExecutionError s!"duplicate ranked metadata {reprStr m.name}")
  else do
    Effect.modify (fun c => { c with rankedMeta := c.rankedMeta.set m.name m })
    let configured ← ask (fun n => .ok (w.plugins.factory n))
    if !configured then pure ()
    else do
      let binding ← ask (fun n => w.plugins.load n m)
      lift (binding.validateRankedBinding columns)
      if binding.name ≠ m.name ∨ binding.algorithm ≠ m.algorithm then
        raise (.QueryExecutionError "ranked factory loaded inconsistent metadata")
      else
        Effect.modify (fun c => { c with rankedReady := c.rankedReady.set m.name binding })

/-- A catalog that has read nothing yet. -/
def blank (files : FileManager) : Catalog where
  files := files
  tables := OrderedDict.empty
  rankedMeta := OrderedDict.empty
  rankedReady := OrderedDict.empty

/-- `Catalog(db_path, ...)`, on a blank catalog of the directory. -/
def init : Method Unit := do
  seedSysMetadata w
  load w
  ensureSysTables w
  seedTypes w
  loadPlugins w
  migrateRankedMetadata w
  let rows ← readSysRows w "SysPluginIndexes" SYS_PLUGIN_INDEXES_SCHEMA
  forEach (loadRanked w) rows

/-- Close the catalog and open its directory again. -/
def reopen (c : Catalog) : Except PyError Unit × Catalog := init w (blank c.files.close)

end Catalog
end SoupDB
