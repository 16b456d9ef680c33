import SoupDB.Common.Record
import SoupDB.Lib.Json

/-!
# SoupDB: metadata of ranked indexes

Ranked indexes are built by providers.  What the catalog keeps of one is its metadata; it is
stored as a row of `SysPluginIndexes`, with the options and the capabilities as JSON texts.
-/

namespace SoupDB

/-- What is kept of a ranked index. -/
structure RankedMetadata where
  name : String
  table : String
  column : String
  algorithm : String
  metric : Option String
  dimension : Option Int
  profileId : Option String
  itemCount : Option Int
  exact : Bool
  exhaustive : Bool
  mutable : Bool
deriving DecidableEq

/-- A character that `str.strip` takes away. -/
def isSpace (c : Char) : Bool :=
  let n := c.toNat
  decide ((9 ≤ n ∧ n ≤ 13) ∨ (28 ≤ n ∧ n ≤ 32) ∨ n = 133 ∨ n = 160 ∨ n = 5760 ∨
    (8192 ≤ n ∧ n ≤ 8202) ∨ n = 8232 ∨ n = 8233 ∨ n = 8239 ∨ n = 8287 ∨ n = 12288)

/-- `not text.strip()`. -/
def isBlank (text : String) : Bool := text.toList.all isSpace

namespace RankedMetadata

/-- The metric, the dimension and the profile of a vector index. -/
def vectorOptions (m : RankedMetadata) : Bool :=
  m.metric.isSome || m.dimension.isSome || m.profileId.isSome

def columnOf (m : RankedMetadata) (schema : List ColumnDef) : Option ColumnDef :=
  schema.find? (fun column => column.name = m.column)

def rankedAlgorithms : List String := ["INVERTED", "IVF", "HNSW"]

def vectorMetrics : List String := ["euclidean", "cosine", "inner_product"]

def checkRankedMetadata (m : RankedMetadata) (schema : List ColumnDef) : Except PyError Unit :=
  if isBlank m.name || isBlank m.table || isBlank m.column then
    .error (.QueryExecutionError "ranked index name, table and column are required")
  else if m.algorithm ∉ rankedAlgorithms then
    .error (.QueryExecutionError s!"unsupported ranked algorithm {reprStr m.algorithm}")
  else if !(m.columnOf schema).any
      (fun column => column.typeName = .TEXT ∨ column.typeName = .VARCHAR) then
    .error (.QueryExecutionError "ranked index requires a TEXT or VARCHAR column")
  else if m.algorithm = "INVERTED" ∧ m.vectorOptions = true then
    .error (.QueryExecutionError "INVERTED cannot use vector options")
  else if m.algorithm ≠ "INVERTED" ∧
      ¬ (m.metric.any (fun metric => metric ∈ vectorMetrics) = true ∧
        m.dimension.any (fun dimension => 0 < dimension) = true ∧
        m.profileId.any (fun profile => !isBlank profile) = true) then
    .error (.QueryExecutionError "vector indexes require metric, dimension and profile")
  else if m.itemCount.any (fun count => count < 0) then
    .error (.QueryExecutionError "item_count must be a non-negative integer")
  else .ok ()

/-- The same checks on what a provider declares, with its own texts. -/
def validateRankedBinding (m : RankedMetadata) (schema : List ColumnDef) :
    Except PyError Unit :=
  match [("name", m.name), ("table", m.table), ("column", m.column)].find?
      (fun field => isBlank field.2) with
  | some field =>
      .error (.QueryExecutionError s!"ranked binding {field.1} must be a non-empty string")
  | none =>
      if m.algorithm ∉ rankedAlgorithms then
        .error (.QueryExecutionError s!"unsupported ranked algorithm {reprStr m.algorithm}")
      else
        match m.columnOf schema with
        | none =>
            .error (.QueryExecutionError
              s!"unknown column {reprStr m.column} for ranked index {reprStr m.name}")
        | some column =>
            if column.typeName ≠ .TEXT ∧ column.typeName ≠ .VARCHAR then
              .error (.QueryExecutionError
                s!"ranked index column {reprStr m.column} must be TEXT or VARCHAR")
            else if m.algorithm = "INVERTED" ∧ m.vectorOptions = true then
              .error (.QueryExecutionError "INVERTED bindings cannot have vector metadata")
            else if m.algorithm ≠ "INVERTED" ∧
                m.metric.any (fun metric => metric ∈ vectorMetrics) = false then
              .error (.QueryExecutionError
                s!"{m.algorithm} requires a supported vector metric")
            else if m.algorithm ≠ "INVERTED" ∧
                m.dimension.any (fun dimension => 0 < dimension) = false then
              .error (.QueryExecutionError "vector dimension must be a positive integer")
            else if m.algorithm ≠ "INVERTED" ∧
                m.profileId.any (fun profile => !isBlank profile) = false then
              .error (.QueryExecutionError "vector profile_id must be a non-empty string")
            else if m.itemCount.any (fun count => count < 0) then
              .error (.QueryExecutionError "item_count must be a non-negative integer or None")
            else .ok ()

/-! ## Rows of `SysPluginIndexes` -/

/-- The options that are given, in the order of their names. -/
def options (m : RankedMetadata) : Json.Object :=
  (m.dimension.map (fun dimension => ("dimension", Json.Scalar.int dimension))).toList ++
    (m.metric.map (fun metric => ("metric", Json.Scalar.str metric))).toList ++
    (m.profileId.map (fun profile => ("profile_id", Json.Scalar.str profile))).toList

def capabilities (m : RankedMetadata) : Json.Object :=
  [("exact", .bool m.exact), ("exhaustive", .bool m.exhaustive), ("mutable", .bool m.mutable)]

/-- A number or NULL. -/
def datum (n : Option Int) : Datum :=
  match n with
  | some n => .int n
  | none => .null

/-- Map `RankedMetadata` to a `SysPluginIndexes` row. -/
def rankedRow (m : RankedMetadata) : List Datum :=
  [.str m.name, .str m.table, .str m.column, .str m.algorithm, .str m.algorithm,
    .str (Json.dumps m.options), .str (Json.dumps m.capabilities), datum m.itemCount, .str ""]

/-- A text cell that `json_loads` reads, `{}` if it is empty. -/
def loadJson : Datum → Except PyError Json.Object
  | .null => .ok []
  | .str "" => .ok []
  | .str text =>
      match Json.loads text with
      | some object => .ok object
      | none => .error (.QueryExecutionError "invalid plugin index metadata JSON")
  | _ => .error (.TypeError "the JSON object must be str, bytes or bytearray")

/-- `options.get(key)`, where a text is expected. -/
def getText (object : Json.Object) (key : String) : Option String :=
  match object.lookup key with
  | some (.str s) => some s
  | _ => none

def getInt (object : Json.Object) (key : String) : Option Int :=
  match object.lookup key with
  | some (.int i) => some i
  | _ => none

/-- `bool(capabilities.get(key, False))`, where a truth value is expected. -/
def getFlag (object : Json.Object) (key : String) : Bool :=
  match object.lookup key with
  | some (.bool b) => b
  | _ => false

/-- Rebuild `RankedMetadata` from a `SysPluginIndexes` row. -/
def metaFromRow (row : List Datum) : Except PyError RankedMetadata :=
  match row with
  | [.str name, .str table, .str column, .str indexType, pluginName, optionsJson,
      capabilitiesJson, itemCount, _] => do
      let options ← loadJson optionsJson
      let capabilities ← loadJson capabilitiesJson
      .ok {
        name
        table
        column
        algorithm := match pluginName with
          | .str "" => indexType
          | .str plugin => plugin
          | _ => indexType
        metric := getText options "metric"
        dimension := getInt options "dimension"
        profileId := getText options "profile_id"
        itemCount := match itemCount with
          | .int n => some n
          | _ => none
        exact := getFlag capabilities "exact"
        exhaustive := getFlag capabilities "exhaustive"
        mutable := getFlag capabilities "mutable" }
  | _ => .error (.QueryExecutionError "ranked index name, table and column are required")

end RankedMetadata
end SoupDB
