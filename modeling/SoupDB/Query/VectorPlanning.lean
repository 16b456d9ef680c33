import SoupDB.Query.RankedBinding

/-!
# SoupDB: planning of vector searches

A SELECT with SEARCH or SIMILAR_TO reads one vector index of its table.  The planner takes the
indexes of the table with the algorithm and the metric of the USING clause; the column that
SEARCH names takes no part in the choice, where the planner of text searches asks the catalog
for the indexes of the column of MATCH.

Main fact: `vector_search_index`.  A supported SEARCH reads an index of its column whenever there
is just one to read exactly if there is one index with its algorithm and metric on the column
when and only when there is one on the table.
-/

namespace SoupDB

/-! ## The plan -/

/-- `int(value)`, where the numbers of texts are read by `intText`; `none` is a `TypeError` or
a `ValueError`. -/
def intOf (intText : String → Option Int) : Value → Except PyError (Option Int)
  | .null => .ok none
  | .bool b => .ok (some (if b then 1 else 0))
  | .int i => .ok (some i)
  | .float bits =>
      if Double.isFinite bits then .ok (some (Double.truncate bits))
      else if Double.number bits = none then .ok none
      else .error (.OverflowError "cannot convert float infinity to integer")
  | .str s => .ok (intText s)
  | .tuple _ => .ok none

/-- The representation of a text that may be `None`. -/
def reprOption : Option String → String
  | none => "None"
  | some text => reprStr text

/-- The predicate of a vector search: `SIMILAR_TO` with its reference and its `k`, or `SEARCH`
with its column and its query. -/
inductive Similarity
  | similarTo (source : Expr) (k : Value)
  | search (column : String) (query : Expr)

def getSimilarity (predicate : Option Expr) : Except PyError Similarity :=
  match predicate with
  | some (.SimilarToExpr source k) => .ok (.similarTo source k)
  | some (.SearchExpr column query) => .ok (.search column query)
  | predicate =>
      if predicate.any (fun expr => (walkNodes expr).any Expr.isSimilarity) then
        .error (.QueryExecutionError "filtered/combined SIMILAR_TO is not supported")
      else
        .error (.QueryExecutionError "vector search requires exactly one SIMILAR_TO predicate")

/-- What a vector search asks an index for. -/
structure VectorRequest where
  strategy : String
  metric : Option String
  k : Int
  source : Value

/-- The volcano tree of a vector search. -/
structure VectorPlan where
  binding : RankedMetadata
  source : Value
  request : Int
  orderBy : List (OrderByItem Expr)
  selections : List SelectColumn
  outputSchema : List ColumnDef
  limit : Option LimitClause

/-- `value < 0` is an error with a text. -/
def checkBound (value : Value) (message : String) : Except PyError Unit :=
  match value with
  | .bool _ | .int _ | .float _ =>
      if value.cmp (.int 0) = some .lt then .error (.QueryExecutionError message) else .ok ()
  | value =>
      .error (.TypeError
        s!"'<' not supported between instances of '{(Obj.value value).typeName}' and 'int'")

/-- `Limit.__init__`. -/
def checkLimit : Option LimitClause → Except PyError Unit
  | none => .ok ()
  | some clause => do
      checkBound clause.limit "LIMIT must be non-negative"
      checkBound (clause.offset.getD (.int 0)) "OFFSET must be non-negative"

def isReference : Value → Bool
  | .str reference => !isBlank reference
  | _ => false

/-- `IVFSearch.__init__` or `HNSWSearch.__init__`: the schema of its rows. -/
def vectorScan (catalog : SearchCatalog) (schema : List ColumnDef) (request : VectorRequest)
    (binding : RankedMetadata) : Except PyError (List ColumnDef) :=
  if binding.algorithm ≠ "IVF" ∧ binding.algorithm ≠ "HNSW" then
    .error (.QueryExecutionError "HNSWSearch requires HNSW binding")
  else if !isReference request.source then
    .error (.QueryExecutionError "SIMILAR_TO requires a non-empty reference")
  else if !catalog.queryVectorizer then
    .error (.QueryExecutionError "query vectorizer is not configured")
  else do
    binding.validateRankedBinding schema
    appendScoreSchema schema

section Planner

variable (upper : String → String) (intText : String → Option Int)

/-- The `k` and the reference of the predicate. -/
def similarityRequest (options : SearchOptions) : Similarity → Except PyError (Value × Value)
  | .similarTo source k =>
      match source with
      | .Literal value => .ok (k, value)
      -- these have a `value` that is an expression, and no text
      | .IsNullExpr _ _ | .BetweenExpr _ _ _ | .InExpr _ _ | .LikeExpr _ _ => .ok (k, .null)
      | expr => .error (.AttributeError s!"'{expr.typeName}' object has no attribute 'value'")
  | .search _ query => do
      let k ← intOf intText (options.option "k" (.int 10))
      match k with
      | none => .error (.QueryExecutionError "vector search k must be an integer")
      | some k =>
          match query with
          | .Literal (.str source) => .ok (.int k, .str source)
          | _ => .error (.QueryExecutionError "vector search requires a string reference")

/-- What the planner does before it looks for an index. -/
def vectorRequest (catalog : SearchCatalog) (statement : SelectStatement) :
    Except PyError VectorRequest :=
  match statement.search with
  | none => .error (.QueryExecutionError "SIMILAR_TO requires USING IVF or HNSW")
  | some options =>
      if options.strategy ∉ ["IVF", "HNSW"] ∧
          catalog.pluginQueryKind options.strategy ≠ some "vector" then
        .error (.QueryExecutionError "SIMILAR_TO requires USING IVF or HNSW")
      else if !statement.groupBy.isEmpty || statement.having.isSome ||
          !statement.joins.isEmpty then
        .error (.QueryExecutionError "SIMILAR_TO does not support GROUP BY, HAVING or JOIN")
      else if statement.distinct then
        .error (.QueryExecutionError "SIMILAR_TO with DISTINCT is not supported")
      else if projectsFunction statement.columns then
        .error (.QueryExecutionError "aggregates are not supported with SIMILAR_TO")
      else do
        let sim ← getSimilarity statement.whereClause
        let (k, source) ← similarityRequest intText options sim
        match k with
        | .int k =>
            if k < 0 then
              .error (.QueryExecutionError "SIMILAR_TO k must be a non-negative integer")
            else .ok ⟨options.strategy, options.metric, k, source⟩
        | _ => .error (.QueryExecutionError "SIMILAR_TO k must be a non-negative integer")

/-- The one index that a request may be about. -/
def chooseIndex (table : String) (request : VectorRequest) (indexes : List RankedMetadata) :
    Except PyError RankedMetadata :=
  let found := indexes.filter (fun binding =>
    binding.algorithm = request.strategy ∧ binding.metric = request.metric)
  match found with
  | [] =>
      .error (.QueryExecutionError
        s!"no {request.strategy} index with metric {reprOption request.metric} for {reprStr table}")
  | [binding] => .ok binding
  | found =>
      let names := ", ".intercalate ((found.map RankedMetadata.name).mergeSort (fun a b => a ≤ b))
      .error (.QueryExecutionError s!"ambiguous vector indexes: {names}")

/-- The volcano tree over an index. -/
def vectorTree (catalog : SearchCatalog) (statement : SelectStatement) (schema : List ColumnDef)
    (request : VectorRequest) (binding : RankedMetadata) : Except PyError VectorPlan :=
  if !catalog.queryVectorizer then
    .error (.QueryExecutionError "query vectorizer is not configured")
  else do
    let selections ← visibleProjections upper statement.columns schema "vector"
    validateSelections schema selections
    let (orderBy, _) ← orderKeys upper statement schema "vector"
    let scanSchema ← vectorScan catalog schema request binding
    let outputSchema ← inferSchema selections scanSchema
    checkLimit statement.limit
    .ok ⟨binding, request.source, request.k, orderBy, selections, outputSchema, statement.limit⟩

/-- Return a safe ANN top-k over the k *global* matches; no hidden filters. -/
def planVectorSearch (catalog : SearchCatalog) (statement : SelectStatement) :
    Except PyError VectorPlan := do
  let request ← vectorRequest intText catalog statement
  let schema ← catalog.schema statement.table
  let indexes ← catalog.rankedIndexesFor statement.table none
  let binding ← chooseIndex statement.table request indexes
  vectorTree upper catalog statement schema request binding

/-! ## The index of the request -/

/-- The indexes of the table of a statement with its algorithm and its metric. -/
def tableIndexes (catalog : SearchCatalog) (statement : SelectStatement) : List RankedMetadata :=
  catalog.ready.filter (fun binding =>
    binding.table = statement.table ∧
      some binding.algorithm = statement.search.map SearchOptions.strategy ∧
      binding.metric = statement.search.bind SearchOptions.metric)

/-- Those of them on a column. -/
def columnIndexes (catalog : SearchCatalog) (statement : SelectStatement) (column : String) :
    List RankedMetadata :=
  (tableIndexes catalog statement).filter (fun binding => binding.column = column)

/-- Apart from its index, the statement can be planned. -/
def Plannable (catalog : SearchCatalog) (statement : SelectStatement) : Prop :=
  ∃ request schema selections keys scanSchema outputSchema,
    vectorRequest intText catalog statement = .ok request ∧
    catalog.schema statement.table = .ok schema ∧
    (request.strategy = "IVF" ∨ request.strategy = "HNSW") ∧
    isReference request.source = true ∧ catalog.queryVectorizer = true ∧
    visibleProjections upper statement.columns schema "vector" = .ok selections ∧
    validateSelections schema selections = .ok () ∧
    orderKeys upper statement schema "vector" = .ok keys ∧
    appendScoreSchema schema = .ok scanSchema ∧
    inferSchema selections scanSchema = .ok outputSchema ∧
    checkLimit statement.limit = .ok ()

/-- The plan of a search on a column reads an index of the table on that column, with the
algorithm and the metric of the statement; and there is a plan if there is just one such index
and the statement is supported otherwise. -/
def ReadsColumnIndex (catalog : SearchCatalog) (statement : SelectStatement) (column : String) :
    Prop :=
  (∀ plan, planVectorSearch upper intText catalog statement = .ok plan →
      plan.binding ∈ columnIndexes catalog statement column) ∧
    (Plannable upper intText catalog statement →
      (columnIndexes catalog statement column).length = 1 →
        ∃ plan, planVectorSearch upper intText catalog statement = .ok plan)

variable {upper intText} {catalog : SearchCatalog} {statement : SelectStatement}
  {request : VectorRequest} {schema : List ColumnDef} {binding : RankedMetadata}

theorem request_of_statement (h : vectorRequest intText catalog statement = .ok request) :
    some request.strategy = statement.search.map SearchOptions.strategy ∧
      request.metric = statement.search.bind SearchOptions.metric := by
  rw [vectorRequest] at h
  split at h
  · cases h
  · next options hsearch =>
      rw [hsearch]
      split_ifs at h
      obtain ⟨sim, -, h⟩ := bind_eq_ok.mp h
      obtain ⟨⟨k, source⟩, -, h⟩ := bind_eq_ok.mp h
      dsimp only at h
      split at h
      · split at h
        · cases h
        · cases h
          exact ⟨rfl, rfl⟩
      · cases h

theorem choose_index_ok (table : String) {indexes : List RankedMetadata} :
    chooseIndex table request indexes = .ok binding ↔
      indexes.filter (fun binding =>
        binding.algorithm = request.strategy ∧ binding.metric = request.metric) = [binding] := by
  rw [chooseIndex]
  split
  · next hfound =>
      rw [hfound]
      simp
  · next found hfound =>
      rw [hfound]
      simp
  · next found hnil hone =>
      refine iff_of_false (by simp) (fun h => hone binding ?_)
      exact h

theorem indexes_of_table (hschema : catalog.schema statement.table = .ok schema) :
    catalog.rankedIndexesFor statement.table none =
      .ok (catalog.ready.filter (fun binding => binding.table = statement.table)) := by
  rw [SearchCatalog.rankedIndexesFor, hschema, ok_bind]
  simp

theorem chosen_iff (hrequest : vectorRequest intText catalog statement = .ok request)
    (hschema : catalog.schema statement.table = .ok schema) :
    (∃ indexes, catalog.rankedIndexesFor statement.table none = .ok indexes ∧
        chooseIndex statement.table request indexes = .ok binding) ↔
      tableIndexes catalog statement = [binding] := by
  obtain ⟨hstrategy, hmetric⟩ := request_of_statement hrequest
  have hfound : (catalog.ready.filter (fun binding => binding.table = statement.table)).filter
        (fun binding => binding.algorithm = request.strategy ∧ binding.metric = request.metric) =
      tableIndexes catalog statement := by
    rw [tableIndexes, List.filter_filter]
    refine List.filter_congr (fun binding _ => ?_)
    rw [← hstrategy, ← hmetric]
    simp [Bool.and_comm]
  rw [indexes_of_table hschema, ← hfound, ← choose_index_ok statement.table]
  constructor
  · rintro ⟨indexes, hindexes, h⟩
    cases hindexes
    exact h
  · intro h
    exact ⟨_, rfl, h⟩

theorem valid_of_table_index (hschema : catalog.schema statement.table = .ok schema)
    (h : binding ∈ tableIndexes catalog statement) :
    binding.validateRankedBinding schema = .ok () := by
  rw [tableIndexes, List.mem_filter] at h
  obtain ⟨hready, h⟩ := h
  obtain ⟨htable, -⟩ := of_decide_eq_true h
  obtain ⟨schema', htables, hvalid⟩ := catalog.registered binding hready
  rw [htable] at htables
  rw [SearchCatalog.schema, htables] at hschema
  cases hschema
  exact hvalid

theorem algorithm_of_table_index
    (hrequest : vectorRequest intText catalog statement = .ok request)
    (h : binding ∈ tableIndexes catalog statement) : binding.algorithm = request.strategy := by
  obtain ⟨-, h⟩ := List.mem_filter.mp h
  obtain ⟨-, halgorithm, -⟩ := of_decide_eq_true h
  rw [← (request_of_statement hrequest).1] at halgorithm
  exact Option.some.inj halgorithm

/-- A statement with a plan has one index with its algorithm and its metric on its table, which
it reads, and is supported otherwise. -/
theorem plan_vector_search_ok (plan : VectorPlan)
    (h : planVectorSearch upper intText catalog statement = .ok plan) :
    tableIndexes catalog statement = [plan.binding] ∧ Plannable upper intText catalog statement :=
      by
  obtain ⟨request, hrequest, h⟩ := bind_eq_ok.mp h
  obtain ⟨schema, hschema, h⟩ := bind_eq_ok.mp h
  obtain ⟨indexes, hindexes, h⟩ := bind_eq_ok.mp h
  obtain ⟨binding, hbinding, h⟩ := bind_eq_ok.mp h
  have hone := (chosen_iff hrequest hschema).mp ⟨indexes, hindexes, hbinding⟩
  have hmem : binding ∈ tableIndexes catalog statement := by
    rw [hone]
    exact List.mem_singleton_self _
  rw [vectorTree] at h
  split at h
  · cases h
  · next hvectorizer =>
      obtain ⟨selections, hselections, h⟩ := bind_eq_ok.mp h
      obtain ⟨_, hvalid, h⟩ := bind_eq_ok.mp h
      obtain ⟨keys, hkeys, h⟩ := bind_eq_ok.mp h
      obtain ⟨scanSchema, hscan, h⟩ := bind_eq_ok.mp h
      obtain ⟨outputSchema, houtput, h⟩ := bind_eq_ok.mp h
      obtain ⟨_, hlimit, h⟩ := bind_eq_ok.mp h
      cases h
      rw [vectorScan] at hscan
      split_ifs at hscan with halgorithm hreference
      obtain ⟨_, -, hscan⟩ := bind_eq_ok.mp hscan
      rw [algorithm_of_table_index hrequest hmem] at halgorithm
      refine ⟨hone, request, schema, selections, keys, scanSchema, outputSchema, hrequest,
        hschema, ?_, ?_, ?_, hselections, hvalid, hkeys, hscan, houtput, hlimit⟩
      · by_contra hne
        exact halgorithm (not_or.mp hne)
      · simpa using hreference
      · simpa using hvectorizer

theorem exists_plan (hsupported : Plannable upper intText catalog statement)
    (hone : tableIndexes catalog statement = [binding]) :
    ∃ plan, planVectorSearch upper intText catalog statement = .ok plan := by
  obtain ⟨request, schema, selections, keys, scanSchema, outputSchema, hrequest, hschema,
    hstrategy, hreference, hvectorizer, hselections, hvalid, hkeys, hscan, houtput, hlimit⟩ :=
    hsupported
  have hmem : binding ∈ tableIndexes catalog statement := by
    rw [hone]
    exact List.mem_singleton_self _
  obtain ⟨indexes, hindexes, hchosen⟩ := (chosen_iff hrequest hschema).mpr hone
  have halgorithm := algorithm_of_table_index hrequest hmem
  have hscanOk : vectorScan catalog schema request binding = .ok scanSchema := by
    rw [vectorScan, if_neg (by rw [halgorithm]; tauto), if_neg (by simp [hreference]),
      if_neg (by simp [hvectorizer]), valid_of_table_index hschema hmem, ok_bind, hscan]
  refine ⟨⟨binding, request.source, request.k, keys.1, selections, outputSchema,
    statement.limit⟩, ?_⟩
  rw [planVectorSearch, hrequest, ok_bind, hschema, ok_bind, hindexes, ok_bind, hchosen, ok_bind,
    vectorTree, if_neg (by simp [hvectorizer]), hselections, ok_bind, hvalid, ok_bind, hkeys,
    ok_bind]
  dsimp only
  rw [hscanOk, ok_bind, houtput, ok_bind, hlimit, ok_bind]

/-- The plan of a vector search on a column reads the index that it should, and there is one
whenever that index exists, exactly if an unsupported statement is given or the table has just
one index with its algorithm and metric if and only if the column has just one. -/
theorem vector_search_index (upper : String → String) (intText : String → Option Int)
    (catalog : SearchCatalog) (statement : SelectStatement) (column : String) :
    ReadsColumnIndex upper intText catalog statement column ↔
      (Plannable upper intText catalog statement →
        ((tableIndexes catalog statement).length = 1 ↔
          (columnIndexes catalog statement column).length = 1)) := by
  constructor
  · rintro ⟨hreads, hplans⟩ hsupported
    constructor
    · intro hone
      obtain ⟨binding, hbinding⟩ := List.length_eq_one_iff.mp hone
      obtain ⟨plan, hplan⟩ := exists_plan hsupported hbinding
      have hmem := hreads plan hplan
      refine le_antisymm ?_ (List.length_pos_of_mem hmem)
      exact (List.length_filter_le _ _).trans hone.le
    · intro hone
      obtain ⟨plan, hplan⟩ := hplans hsupported hone
      rw [(plan_vector_search_ok plan hplan).1]
      rfl
  · intro hsame
    constructor
    · intro plan hplan
      obtain ⟨hone, hsupported⟩ := plan_vector_search_ok plan hplan
      have hcolumn := (hsame hsupported).mp (by rw [hone]; rfl)
      obtain ⟨binding, hbinding⟩ := List.length_eq_one_iff.mp hcolumn
      have hmem : binding ∈ columnIndexes catalog statement column := by
        rw [hbinding]
        exact List.mem_singleton_self _
      have htable := List.mem_of_mem_filter hmem
      rw [hone, List.mem_singleton] at htable
      exact htable ▸ hmem
    · intro hsupported hcolumn
      obtain ⟨binding, hbinding⟩ := List.length_eq_one_iff.mp ((hsame hsupported).mpr hcolumn)
      exact exists_plan hsupported hbinding

end Planner

/-! ## An index on another column -/

/-- The schema of a table of documents. -/
def docsSchema : List ColumnDef := [⟨"title", .TEXT, none⟩, ⟨"body", .TEXT, none⟩]

def titleIvf : RankedMetadata :=
  ⟨"docs_title", "docs", "title", "IVF", some "cosine", some 2, some "words", some 3, false, false,
    false⟩

/-- A catalog with the one table and the one index. -/
def titleCatalog : SearchCatalog where
  tables name := if name = "docs" then some docsSchema else none
  ready := [titleIvf]
  pluginQueryKind _ := none
  queryVectorizer := true
  registered := by
    intro binding hbinding
    rw [List.mem_singleton.mp hbinding]
    exact ⟨docsSchema, rfl, by decide⟩
  nodup := by decide

/-- `SELECT * FROM docs WHERE SEARCH(body, 'soup') USING IVF WITH (metric = 'cosine')`. -/
def searchBody : SelectStatement where
  columns := []
  table := "docs"
  whereClause := some (.SearchExpr "body" (.Literal (.str "soup")))
  groupBy := []
  orderBy := []
  distinct := false
  having := none
  limit := none
  joins := []
  search := some ⟨"IVF", some "cosine", [("metric", .str "cosine")]⟩

/-- The search on the bodies reads the index on the titles. -/
theorem title_index_read : ¬ ReadsColumnIndex id (fun _ => none) titleCatalog searchBody "body" :=
    by
  rintro ⟨hreads, -⟩
  have hplan : planVectorSearch id (fun _ => none) titleCatalog searchBody =
      .ok ⟨titleIvf, .str "soup", 10, [], baseColumns docsSchema, docsSchema, none⟩ := by
    rfl
  exact absurd (hreads _ hplan) (by decide)

end SoupDB
