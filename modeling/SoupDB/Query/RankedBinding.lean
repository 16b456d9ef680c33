import SoupDB.Common.RankedCatalog
import SoupDB.Query.Grouping
import SoupDB.Query.Lexer

/-!
# SoupDB: ranked SELECT statements

The row of a ranked hit has its score in one more column, that no name of a statement reads.
`SCORE()` is bound to it in projections and in ORDER BY keys; anywhere else, and inside any
other expression, the scores and the search predicates are refused.

Text and vector search share these functions.
-/

namespace SoupDB

/-! ## Statements -/

/-- `LIMIT n` with optional `OFFSET m`. -/
structure LimitClause where
  limit : Value
  offset : Option Value

/-- Algorithm (and optional vector metric) selected by USING. -/
structure SearchOptions where
  strategy : String
  metric : Option String
  options : List (String × Value)

/-- `self.option(key, default)`. -/
def SearchOptions.option (s : SearchOptions) (key : String) (default : Value) : Value :=
  ((s.options.find? (fun entry => entry.1 = key)).map Prod.snd).getD default

structure SelectStatement where
  columns : List SelectColumn
  table : String
  whereClause : Option Expr
  groupBy : List Expr
  orderBy : List (OrderByItem Expr)
  distinct : Bool
  having : Option Expr
  limit : Option LimitClause
  joins : List (String × Expr)
  search : Option SearchOptions

/-! ## The catalog -/

/-- What the planners of searches ask the catalog.  An index is registered once it is validated
against its table. -/
structure SearchCatalog where
  /-- The schemas of the tables. -/
  tables : String → Option (List ColumnDef)
  /-- The bindings with a live provider, in the order of the registry. -/
  ready : List RankedMetadata
  /-- The kind of query of an installed plugin. -/
  pluginQueryKind : String → Option String
  /-- There is a vectorizer. -/
  queryVectorizer : Bool
  registered : ∀ binding ∈ ready, ∃ schema, tables binding.table = some schema ∧
    binding.validateRankedBinding schema = .ok ()
  nodup : (ready.map RankedMetadata.name).Nodup

namespace SearchCatalog

def schema (c : SearchCatalog) (table : String) : Except PyError (List ColumnDef) :=
  match c.tables table with
  | some schema => .ok schema
  | none => .error (.QueryExecutionError s!"unknown table {reprStr table}")

def rankedIndexesFor (c : SearchCatalog) (name : String) (column : Option String) :
    Except PyError (List RankedMetadata) := do
  let _ ← c.schema name
  .ok (c.ready.filter (fun binding =>
    binding.table = name ∧ (column = none ∨ some binding.column = column)))

end SearchCatalog

/-! ## The nodes of an expression -/

mutual

/-- The nodes of an expression, from the outside in and from left to right. -/
def walkNodes : Expr → List Expr
  | .CompareExpr left op right =>
      .CompareExpr left op right :: (walkNodes left ++ walkNodes right)
  | .BinaryExpr left op right =>
      .BinaryExpr left op right :: (walkNodes left ++ walkNodes right)
  | .IsNullExpr value negated => .IsNullExpr value negated :: walkNodes value
  | .LogicalExpr left op right =>
      .LogicalExpr left op right :: (walkNodes left ++ walkNodes right)
  | .NotExpr operand => .NotExpr operand :: walkNodes operand
  | .BetweenExpr value lo hi =>
      .BetweenExpr value lo hi :: (walkNodes value ++ (walkNodes lo ++ walkNodes hi))
  | .InExpr value items => .InExpr value items :: (walkNodes value ++ walkNodesItems items)
  | .LikeExpr value pattern => .LikeExpr value pattern :: (walkNodes value ++ walkNodes pattern)
  | .MatchExpr column query => .MatchExpr column query :: .ColumnRef column :: walkNodes query
  | .SimilarToExpr source k => .SimilarToExpr source k :: (walkNodes source ++ [.Literal k])
  | .SearchExpr column query => .SearchExpr column query :: .ColumnRef column :: walkNodes query
  | .FunctionExpr name arg distinct => .FunctionExpr name arg distinct :: walkNodesArg arg
  | .PointExpr x y => .PointExpr x y :: (walkNodes x ++ walkNodes y)
  | .DistanceExpr left right metric =>
      .DistanceExpr left right metric :: (walkNodes left ++ walkNodes right)
  | .PolygonExpr vertices => .PolygonExpr vertices :: walkNodesItems vertices
  | .IntersectsExpr left right =>
      .IntersectsExpr left right :: (walkNodes left ++ walkNodes right)
  | expr => [expr]

def walkNodesArg : Option Expr → List Expr
  | none => []
  | some arg => walkNodes arg

def walkNodesItems : List Expr → List Expr
  | [] => []
  | item :: items => walkNodes item ++ walkNodesItems items

end

namespace Expr

/-- `isinstance(node, FunctionExpr)`. -/
def isFunction : Expr → Bool
  | .FunctionExpr _ _ _ => true
  | _ => false

/-- `isinstance(node, (ScoreExpr, BoundScoreExpr))`. -/
def isScore : Expr → Bool
  | .ScoreExpr _ => true
  | .BoundScoreExpr _ _ => true
  | _ => false

/-- `isinstance(node, (MatchExpr, SearchExpr))`. -/
def isMatch : Expr → Bool
  | .MatchExpr _ _ => true
  | .SearchExpr _ _ => true
  | _ => false

/-- `isinstance(node, (SimilarToExpr, SearchExpr))`. -/
def isSimilarity : Expr → Bool
  | .SimilarToExpr _ _ => true
  | .SearchExpr _ _ => true
  | _ => false

/-- `isinstance(node, BoundScoreExpr)`. -/
def isBoundScore : Expr → Bool
  | .BoundScoreExpr _ _ => true
  | _ => false

end Expr

/-- The statement projects an aggregate. -/
def projectsFunction (columns : List SelectColumn) : Bool :=
  columns.any (fun selection => (walkNodes selection.expr).any Expr.isFunction)

/-! ## Binding scores -/

/-- A temporary schema with one private FLOAT column appended. -/
def appendScoreSchema (schema : List ColumnDef) : Except PyError (List ColumnDef) :=
  if schema.any (fun column => column.name = INTERNAL_SCORE_NAME) then
    .error (.QueryExecutionError "internal score slot already exists")
  else .ok (schema ++ [⟨INTERNAL_SCORE_NAME, .FLOAT, none⟩])

variable (upper : String → String)

/-- Bind one standalone `SCORE()` to the temporary slot. -/
def bindScore (expr : Expr) (position : Nat) (kind : String) : Except PyError Expr :=
  match expr with
  | .ScoreExpr scoreKind =>
      if scoreKind ≠ "auto" ∧ scoreKind ≠ kind then
        .error (.QueryExecutionError
          s!"{upper scoreKind} score cannot be used in a {kind} search")
      else .ok (.BoundScoreExpr position kind)
  | expr =>
      if (walkNodes expr).any Expr.isScore then
        .error (.QueryExecutionError "SCORE() must be a standalone expression")
      else .ok expr

def baseColumns (baseSchema : List ColumnDef) : List SelectColumn :=
  baseSchema.map (fun column => ⟨.ColumnRef column.name, none⟩)

def visibleProjection (columns : List SelectColumn) (baseSchema : List ColumnDef) (kind : String)
    (offset : Nat) (selected : SelectColumn) : Except PyError (List SelectColumn) :=
  match selected.expr with
  | .StarExpr =>
      if offset ≠ 0 ∨ columns.length = 1 then
        .error (.QueryExecutionError "invalid mixed SELECT * projection")
      else .ok (baseColumns baseSchema)
  | expr =>
      let conflict :=
        match expr, selected.aliasName with
        | .ScoreExpr _, some aliasName => baseSchema.any (fun column => column.name = aliasName)
        | _, _ => false
      if conflict then
        let aliasName := selected.aliasName.getD ""
        .error (.QueryExecutionError
          s!"score alias {reprStr aliasName} conflicts with a base column")
      else do
        let expr ← bindScore upper expr baseSchema.length kind
        .ok [⟨expr, selected.aliasName⟩]

/-- Expand `SELECT *` using only base columns and bind `SCORE()` projections. -/
def visibleProjections (columns : List SelectColumn) (baseSchema : List ColumnDef)
    (kind : String) : Except PyError (List SelectColumn) :=
  if columns.isEmpty then .ok (baseColumns baseSchema)
  else do
    let visible ← columns.zipIdx.mapM (fun (selected, offset) =>
      visibleProjection upper columns baseSchema kind offset selected)
    .ok visible.flatten

def validateScalar (schema : List ColumnDef) (expr : Expr) : Except PyError Unit :=
  (walkNodes expr).forM (fun node =>
    match node with
    | .ColumnRef name =>
        if schema.any (fun column => column.name = name) then .ok ()
        else .error (.QueryExecutionError s!"unknown column {reprStr name}")
    | node =>
        if node.isScore || node.isMatch || node.isFunction then
          .error (.QueryExecutionError
            "SCORE/MATCH/aggregates cannot be nested in a residual predicate")
        else .ok ())

/-- The projections are scores and scalars of the columns. -/
def validateSelections (schema : List ColumnDef) (selections : List SelectColumn) :
    Except PyError Unit :=
  selections.forM (fun selection =>
    if selection.expr.isBoundScore then .ok () else validateScalar schema selection.expr)

/-- The expression that an ORDER BY key stands for. -/
def orderExpr (columns : List SelectColumn) : Expr → Expr
  | .ColumnRef name => (projectionAlias columns name).getD (.ColumnRef name)
  | expr => expr

/-- An ORDER BY expression, with its `SCORE()` bound. -/
def bindOrder (schema : List ColumnDef) (kind : String) : Expr → Except PyError Expr
  | .ScoreExpr scoreKind => bindScore upper (.ScoreExpr scoreKind) schema.length kind
  | expr =>
      if (walkNodes expr).any (fun node => node.isScore || node.isMatch) then
        .error (.QueryExecutionError "nested SCORE/MATCH ordering is not supported")
      else do
        validateScalar schema expr
        .ok expr

def orderKey (columns : List SelectColumn) (schema : List ColumnDef) (kind : String)
    (item : OrderByItem Expr) : Except PyError (OrderByItem Expr) := do
  let expr ← bindOrder upper schema kind (orderExpr columns item.expr)
  .ok ⟨expr, item.ascending⟩

/-- The key keeps the order of the hits: it is the score, from high to low. -/
def keepsOrder (item : OrderByItem Expr) : Bool := item.expr.isBoundScore && !item.ascending

/-- Bind SCORE aliases and flag ordering that requires all candidates. -/
def orderKeys (statement : SelectStatement) (schema : List ColumnDef) (kind : String) :
    Except PyError (List (OrderByItem Expr) × Bool) := do
  let keys ← statement.orderBy.mapM (orderKey upper statement.columns schema kind)
  .ok (keys, !keys.all keepsOrder)

end SoupDB
