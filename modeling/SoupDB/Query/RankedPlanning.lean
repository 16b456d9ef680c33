import SoupDB.Lib.RowStream
import SoupDB.Query.Filter
import SoupDB.Query.SplitMatch
import SoupDB.Query.TextSearch

/-!
# SoupDB: planning of text searches

A SELECT with MATCH asks the index for candidates, and filters, sorts, projects and cuts their
rows.  Where nothing drops, merges or reorders rows, `LIMIT` and `OFFSET` bound the candidates;
otherwise the number of candidates is the one that the binding of the index declares.

Main fact: `ranked_rows_exact`.  The rows are those of all candidates where the statement needs
no more of them than the binding of its index declares.
-/

namespace SoupDB

open RowStream Double SortOperator Record

open RecordFile (Record)

/-! ## The plan -/

/-- The volcano tree of a text search. -/
structure TextPlan where
  binding : RankedMetadata
  query : String
  method : String
  request : Int
  policy : String
  baseSchema : List ColumnDef
  scanSchema : List ColumnDef
  residual : Option Expr
  orderBy : List (OrderByItem Expr)
  selections : List SelectColumn
  outputSchema : List ColumnDef
  distinct : Bool
  limit : Option (Int × Int)

/-- What the operators take from elsewhere. -/
structure Operators where
  env : Environment
  /-- `text.lower()`. -/
  lower : String → String
  /-- `f"{expr}"`. -/
  exprText : Expr → String

namespace Operators

variable (o : Operators)

/-- The algorithm and the method of a strategy. -/
def textMethod (catalog : SearchCatalog) (options : SearchOptions) :
    Except PyError (String × String) :=
  if options.strategy = "BM25" then .ok ("INVERTED", "bm25")
  else if options.strategy = "TF_IDF" then .ok ("INVERTED", "tf_idf")
  else if (catalog.pluginQueryKind options.strategy).any (fun kind => kind ≠ "text") then
    .error (.QueryExecutionError s!"{options.strategy} is not a text search plugin")
  else
    let method :=
      match options.option "method" (.str "tf_idf") with
      | .str method => o.lower method
      -- the text of any other value is no method
      | _ => ""
    if method = "tf_idf" ∨ method = "bm25" then .ok (options.strategy, method)
    else .error (.QueryExecutionError "text search method must be 'tf_idf' or 'bm25'")

/-- The limit and the offset, which are to be integers. -/
def limitValues (clause : Option LimitClause) : Except PyError (Option Int × Int) := do
  let limit ←
    match clause.map LimitClause.limit with
    | none | some .null => .ok none
    | some (.int n) =>
        if n < 0 then
          .error (.QueryExecutionError "ranked LIMIT must be a non-negative integer")
        else .ok (some n)
    | some _ => .error (.QueryExecutionError "ranked LIMIT must be a non-negative integer")
  match (clause.bind LimitClause.offset).getD (.int 0) with
  | .int offset => .ok (limit, offset)
  | _ => .error (.QueryExecutionError "ranked OFFSET must be a non-negative integer")

/-- `InvertedIndexScan.__init__`: the schema of its rows. -/
def textScan (schema : List ColumnDef) (method : String) (binding : RankedMetadata) :
    Except PyError (List ColumnDef) :=
  if binding.algorithm ≠ "INVERTED" then
    .error (.QueryExecutionError "InvertedIndexScan requires an INVERTED binding")
  else if method ≠ "tf_idf" ∧ method ≠ "bm25" then
    .error (.QueryExecutionError "text ranked method must be tf_idf or bm25")
  else do
    binding.validateRankedBinding schema
    appendScoreSchema schema

def chooseTextIndex (algorithm column : String) (indexes : List RankedMetadata) :
    Except PyError RankedMetadata :=
  match indexes.filter (fun binding => binding.algorithm = algorithm) with
  | [] =>
      .error (.QueryExecutionError s!"no {algorithm} index for column {reprStr column}")
  | [binding] => .ok binding
  | _ =>
      .error (.QueryExecutionError s!"ambiguous {algorithm} indexes for column {reprStr column}")

/-- The volcano tree over an index. -/
def textTree (statement : SelectStatement) (schema : List ColumnDef) (method query : String)
    (residual : Option Expr) (binding : RankedMetadata) : Except PyError TextPlan := do
  let selections ← visibleProjections o.env.upper statement.columns schema "text"
  validateSelections schema selections
  residual.forM (validateScalar schema)
  let (orderBy, reordered) ← orderKeys o.env.upper statement schema "text"
  let (limit, offset) ← limitValues statement.limit
  let (request, policy) ←
    chooseCandidates binding limit offset residual.isSome statement.distinct reordered
  let scanSchema ← textScan schema method binding
  let outputSchema ← inferSchema selections scanSchema
  .ok ⟨binding, query, method, request, policy, schema, scanSchema, residual, orderBy,
    selections, outputSchema, statement.distinct, limit.map (fun limit => (limit, offset))⟩

/-- Build a correct ranked plan or fail explicitly on missing capabilities. -/
def planTextSearch (catalog : SearchCatalog) (statement : SelectStatement) :
    Except PyError TextPlan :=
  match statement.search with
  | none => .error (.QueryExecutionError "MATCH requires USING BM25 or USING TF_IDF")
  | some options => do
      let (algorithm, method) ← o.textMethod catalog options
      if !statement.groupBy.isEmpty || statement.having.isSome || !statement.joins.isEmpty then
        .error (.QueryExecutionError "MATCH does not yet support GROUP BY, HAVING or JOIN")
      else if projectsFunction statement.columns then
        .error (.QueryExecutionError "aggregates are not yet supported with MATCH")
      else do
        let ((column, query), residual) ← splitMatch statement.whereClause
        let schema ← catalog.schema statement.table
        match query with
        | .Literal (.str query) =>
            if !(schema.find? (fun c => c.name = column)).any
                (fun c => c.typeName = .TEXT ∨ c.typeName = .VARCHAR) then
              .error (.QueryExecutionError "MATCH requires an existing TEXT or VARCHAR column")
            else do
              let indexes ← catalog.rankedIndexesFor statement.table (some column)
              let binding ← chooseTextIndex algorithm column indexes
              o.textTree statement schema method query residual binding
        | _ => .error (.QueryExecutionError "MATCH requires a text query literal")

/-! ## The rows -/

def decode (schema : List ColumnDef) (record : Record) : Except PyError Row := do
  let row ← decodeRow record schema
  row.mapM cellValue

/-- What Sort asks of expressions. -/
def objects : Objects Expr Obj where
  evaluate expr row schema := do
    let values ← row.mapM cellValue
    evaluate o.env values schema expr
  eq := Obj.eq
  lt := Obj.lt
  text := o.exprText

/-- `RankedScan.next`: the row of a hit, with its score. -/
def scanNext (plan : TextPlan) (file : FileOrganization Record) (hit : RID × UInt64) :
    Except PyError Record :=
  match file.fetch hit.1 with
  | none =>
      .error (.QueryExecutionError
        s!"stale RID {TextSearch.ridText hit.1} in ranked index {reprStr plan.binding.name}")
  | some record => do
      let row ← decodeRow record plan.baseSchema
      encodeRow (row ++ [.float hit.2]) plan.scanSchema

/-- `Project.next`. -/
def projectNext (plan : TextPlan) (record : Record) : Except PyError Record := do
  let row ← decode plan.scanSchema record
  let values ← plan.selections.mapM (fun selection =>
    evaluate o.env row plan.scanSchema selection.expr)
  encodeOutput plan.outputSchema values

/-- The rows of Sort.  It reads and sorts those of its child when it is opened. -/
def sorted (plan : TextPlan) (rows : RowStream PyError Record) :
    Except PyError (RowStream PyError Record) :=
  if plan.orderBy.isEmpty then .ok rows
  else do
    let sort : SortOperator Expr Obj := ⟨o.objects, plan.orderBy, plan.scanSchema⟩
    let buffer ← (rows.map sort.buffered).collect
    let buffer ← sortBy sort.bufferedLt buffer
    .ok ((ofList buffer).map (fun pair => encodeRow pair.1 plan.scanSchema))

/-- The records of the hits that Filter, if there is one, lets through. -/
def filtered (plan : TextPlan) (file : FileOrganization Record) (hits : List (RID × UInt64)) :
    RowStream PyError Record :=
  let scan := (ofList hits).map (scanNext plan file)
  match plan.residual with
  | none => scan
  | some predicate => scan.filter (FilterOperator.accepts ⟨o.env, predicate, plan.scanSchema⟩)

def rowsOf (plan : TextPlan) (file : FileOrganization Record) (hits : List (RID × UInt64)) :
    Except PyError (List Record) := do
  let sorted ← o.sorted plan (o.filtered plan file hits)
  let projected := sorted.map (o.projectNext plan)
  let distinct :=
    if plan.distinct then projected.distinct (decode plan.outputSchema) Value.eqItems
    else projected
  match plan.limit with
  | none => distinct.collect
  | some (limit, offset) => (distinct.limit limit.toNat offset.toNat).collect

/-- Validate one hit of a provider: its RID, and a finite score. -/
def validateHit (hit : RID × UInt64) : Except PyError (RID × ℚ) :=
  if hit.1.pageId < 0 ∨ hit.1.slot < 0 then
    .error (.QueryExecutionError "ranked index returned an invalid RID")
  else if isFinite hit.2 then .ok (hit.1, rational hit.2)
  else .error (.QueryExecutionError "ranked index score must be a finite FLOAT")

/-- `InvertedIndexScan.open`, where the index finds these hits for the query. -/
def openScan (plan : TextPlan) (hits : List (RID × UInt64)) :
    Except PyError (List (RID × UInt64)) :=
  if plan.request = 0 then .ok []
  else do
    let rawHits := hits.take plan.request.toNat
    let validated ← rawHits.mapM validateHit
    TextSearch.checkOrder [] none validated
    .ok rawHits

/-- The rows of the statement. -/
def execute (plan : TextPlan) (file : FileOrganization Record) (hits : List (RID × UInt64)) :
    Except PyError (List Record) := do
  let hits ← openScan plan hits
  o.rowsOf plan file hits

end Operators

/-! ## The rows of hits -/

theorem cells_of_typed {row : List Datum} {schema : List ColumnDef}
    (htyped : List.Forall₂ Record.WellTyped row schema)
    (hfits : ∀ value ∈ row, Record.TextFits value) :
    ∃ values, row.mapM cellValue = .ok values ∧ List.Forall₂ Fits values schema := by
  induction htyped with
  | nil => exact ⟨[], rfl, List.Forall₂.nil⟩
  | @cons d column row schema hd _ ih =>
      obtain ⟨values, hvalues, hall⟩ := ih (fun value hvalue =>
        hfits value (List.mem_cons_of_mem _ hvalue))
      have hfirst : ∃ v, cellValue d = .ok v ∧ Fits v column := by
        have hlength := hfits d List.mem_cons_self
        cases hd with
        | null => exact ⟨.null, rfl, fits_null column⟩
        | int i htype hrange => exact ⟨.int i, rfl, Record.WellTyped.int i htype hrange, hlength⟩
        | float bits htype => exact ⟨.float _, rfl, fits_float.mpr htype⟩
        | bool b htype => exact ⟨.bool b, rfl, (fits_bool b).mpr htype⟩
        | point x y htype =>
            exact ⟨.tuple [.float _, .float _], rfl, Record.WellTyped.point _ _ htype,
              textFits_of_ne (by simp [datum])⟩
        | varchar s htype hs =>
            exact ⟨.str s, rfl, Record.WellTyped.varchar s htype hs, hlength⟩
        | text s htype => exact ⟨.str s, rfl, Record.WellTyped.text s htype, hlength⟩
      obtain ⟨v, hv, hfit⟩ := hfirst
      refine ⟨v :: values, ?_, List.Forall₂.cons hfit hall⟩
      rw [List.mapM_cons, hv, ok_bind, hvalues]
      rfl

/-- A record of the scan: it holds the row of its hit, with the score last. -/
structure ScanRecord (schema : List ColumnDef) (hit : RID × UInt64) (record : Record)
    (row : List Datum) (values : Row) : Prop where
  decoded : decodeRow record (schema ++ [⟨INTERNAL_SCORE_NAME, .FLOAT, none⟩]) = .ok row
  encoded : encodeRow row (schema ++ [⟨INTERNAL_SCORE_NAME, .FLOAT, none⟩]) = .ok record
  cells : row.mapM cellValue = .ok (values ++ [.float hit.2])
  fits : List.Forall₂ Fits values schema
  finite : isFinite hit.2 = true

theorem scan_next_live (plan : TextPlan) {file : FileOrganization Record}
    {hit : RID × UInt64} {row : List Datum} {record : Record}
    (hscan : plan.scanSchema = plan.baseSchema ++ [⟨INTERNAL_SCORE_NAME, .FLOAT, none⟩])
    (hfetch : file.fetch hit.1 = some record)
    (hencode : encodeRow row plan.baseSchema = .ok record)
    (hfinite : isFinite hit.2 = true) :
    ∃ record' row' values, Operators.scanNext plan file hit = .ok record' ∧
      ScanRecord plan.baseSchema hit record' row' values := by
  have hdecode := decode_row_encode_row hencode
  rw [encodeRow] at hencode
  split at hencode
  · cases hencode
  · next hlength =>
      obtain ⟨htyped, hfits, -⟩ := typed_of_encode_values (not_not.mp hlength) hencode
      obtain ⟨values, hvalues, hall⟩ := cells_of_typed htyped hfits
      have hscore : List.Forall₂ Record.WellTyped (row.map Datum.stored ++ [.float hit.2])
          (plan.baseSchema ++ [⟨INTERNAL_SCORE_NAME, .FLOAT, none⟩]) :=
        List.rel_append htyped
          (List.Forall₂.cons (Record.WellTyped.float hit.2 rfl) List.Forall₂.nil)
      obtain ⟨data, hdata, hread⟩ := decode_row_of_typed hscore (by
        intro value hvalue
        rcases List.mem_append.mp hvalue with hvalue | hvalue
        · exact hfits value hvalue
        · rw [List.mem_singleton.mp hvalue]
          exact textFits_of_ne (by simp))
      refine ⟨data, row.map Datum.stored ++ [.float hit.2], values, ?_, hread, hdata, ?_, hall,
        hfinite⟩
      · rw [Operators.scanNext, hfetch]
        dsimp only
        rw [hdecode, ok_bind, hscan, hdata]
      · rw [List.mapM_append, hvalues, ok_bind]
        rfl

/-! ## The scores are in order -/

section Scores

variable {o : Operators} {schema : List ColumnDef}

/-- Every key is the score, from high to low. -/
def ByScore (schema : List ColumnDef) (orderBy : List (OrderByItem Expr)) : Prop :=
  ∀ item ∈ orderBy,
    (∃ kind, item.expr = .BoundScoreExpr schema.length kind) ∧ item.ascending = false

def scoreKeys (orderBy : List (OrderByItem Expr)) (hit : RID × UInt64) : List Obj :=
  orderBy.map (fun _ => .value (.float hit.2))

variable {orderBy : List (OrderByItem Expr)}

theorem buffered_score (hscore : ByScore schema orderBy) {hit : RID × UInt64} {record : Record}
    {row : List Datum} {values : Row} (h : ScanRecord schema hit record row values) :
    buffered ⟨o.objects, orderBy, schema ++ [⟨INTERNAL_SCORE_NAME, .FLOAT, none⟩]⟩
      record = .ok (row, scoreKeys orderBy hit) := by
  have hlength := h.fits.length_eq
  have hkeys : orderBy.mapM (fun item => o.objects.evaluate item.expr row
      (schema ++ [⟨INTERNAL_SCORE_NAME, .FLOAT, none⟩])) = .ok (scoreKeys orderBy hit) := by
    refine mapM_ok (fun item hitem => ?_)
    obtain ⟨⟨kind, hexpr⟩, -⟩ := hscore item hitem
    have hbound : boundScore schema.length (values ++ [.float hit.2])
        (schema ++ [⟨INTERNAL_SCORE_NAME, .FLOAT, none⟩]) = .ok (.float hit.2) := by
      rw [boundScore, if_neg (by simp), List.getLast?_concat]
      dsimp only
      rw [if_neg (by simp)]
      simp [← hlength, h.finite]
    rw [Operators.objects, hexpr]
    dsimp only
    rw [h.cells, ok_bind, evaluate, hbound, ok_bind]
  rw [buffered, h.decoded, ok_bind, SortOperator.keys]
  dsimp only
  rw [hkeys, ok_bind]

/-- A hit is not before one with a higher score, or the same. -/
theorem compare_scores (hscore : ByScore schema orderBy) {scanSchema : List ColumnDef}
    {a b : RID × UInt64} (ha : isFinite a.2 = true) (hb : isFinite b.2 = true)
    (hle : rational b.2 ≤ rational a.2) :
    ∃ c, 0 ≤ c ∧ compareItems ⟨o.objects, orderBy, scanSchema⟩ orderBy
      (scoreKeys orderBy b) (scoreKeys orderBy a) = .ok c := by
  suffices h : ∀ items : List (OrderByItem Expr), (∀ item ∈ items, item.ascending = false) →
      ∃ c, 0 ≤ c ∧ compareItems ⟨o.objects, orderBy, scanSchema⟩ items
        (scoreKeys items b) (scoreKeys items a) = .ok c from
    h orderBy (fun item hitem => (hscore item hitem).2)
  intro items hitems
  induction items with
  | nil => exact ⟨0, le_refl 0, rfl⟩
  | cons item items ih =>
      obtain ⟨c, hc, hcompare⟩ := ih (fun i hi => hitems i (List.mem_cons_of_mem _ hi))
      rw [scoreKeys, scoreKeys, List.map_cons, List.map_cons, compareItems]
      have hnumber : ∀ {bits : UInt64}, isFinite bits = true →
          (Value.float bits).number? = some (Double.finite (rational bits)) :=
        fun hbits => number_finite hbits
      have heq : o.objects.eq (.value (.float b.2)) (.value (.float a.2)) = true ↔
          rational b.2 = rational a.2 := by
        have h : o.objects.eq (.value (.float b.2)) (.value (.float a.2)) = _ :=
          Value.eq_number (hnumber hb) (hnumber ha)
        rw [h, beq_iff_eq, finite_inj]
      by_cases hsame : rational b.2 = rational a.2
      · refine ⟨c, hc, ?_⟩
        rw [if_pos (heq.mpr hsame)]
        exact hcompare
      · have hlt : rational b.2 < rational a.2 := lt_of_le_of_ne hle hsame
        have hcmp : Value.cmp (.float b.2) (.float a.2) = some .lt := by
          rw [Value.cmp_number (hnumber hb) (hnumber ha), Value.compareBy,
            if_pos (finite_lt.mpr hlt)]
        refine ⟨1, by decide, ?_⟩
        rw [if_neg (fun h => hsame (heq.mp h))]
        have hascending : ascending ⟨o.objects, orderBy, scanSchema⟩ item
            (.value (.float b.2)) (.value (.float a.2)) = .ok true := by
          simp [ascending, Operators.objects, Obj.lt, Obj.ordered, Obj.cmp, hcmp]
        rw [hascending, ok_bind, hitems item List.mem_cons_self]
        rfl

theorem sorted_of_scores {plan : TextPlan} {hits : List (RID × UInt64)} {records : List Record}
    (hscan : plan.scanSchema = plan.baseSchema ++ [⟨INTERNAL_SCORE_NAME, .FLOAT, none⟩])
    (hscore : ByScore plan.baseSchema plan.orderBy)
    (hfinite : ∀ hit ∈ hits, isFinite hit.2 = true)
    (hdescending : hits.Pairwise (fun a b => rational b.2 ≤ rational a.2))
    (hrecords : List.Forall₂ (fun hit record =>
      ∃ row values, ScanRecord plan.baseSchema hit record row values) hits records) :
    o.sorted plan (ofList records) = .ok (ofList records) := by
  rw [Operators.sorted]
  split
  · rfl
  · have hbuffer : ∃ buffer : List (List Datum × List Obj),
        records.mapM (buffered ⟨o.objects, plan.orderBy, plan.scanSchema⟩) =
          .ok buffer ∧
        buffer.mapM (fun pair => encodeRow pair.1 plan.scanSchema) = .ok records ∧
        buffer.map Prod.snd = hits.map (scoreKeys plan.orderBy) := by
      clear hdescending hfinite
      induction hrecords with
      | nil => exact ⟨[], rfl, rfl, rfl⟩
      | @cons hit record hits records hrecord _ ih =>
          obtain ⟨row, values, h⟩ := hrecord
          obtain ⟨buffer, hbuffered, hencoded, hkeys⟩ := ih
          refine ⟨(row, scoreKeys plan.orderBy hit) :: buffer, ?_, ?_, ?_⟩
          · rw [List.mapM_cons, hscan, buffered_score hscore h, ok_bind, ← hscan, hbuffered]
            rfl
          · rw [List.mapM_cons, hscan, h.encoded, ok_bind, ← hscan, hencoded]
            rfl
          · rw [List.map_cons, List.map_cons, hkeys]
    obtain ⟨buffer, hbuffered, hencoded, hkeys⟩ := hbuffer
    have hordered : buffer.Pairwise (fun a b =>
        bufferedLt ⟨o.objects, plan.orderBy, plan.scanSchema⟩ b a = .ok false) := by
      have hpairs : (hits.map (scoreKeys plan.orderBy)).Pairwise (fun a b =>
          ∃ c, 0 ≤ c ∧ compareItems ⟨o.objects, plan.orderBy, plan.scanSchema⟩
            plan.orderBy b a = .ok c) := by
        rw [List.pairwise_map]
        exact hdescending.imp_of_mem (fun ha hb hle =>
          compare_scores hscore (hfinite _ ha) (hfinite _ hb) hle)
      rw [← hkeys, List.pairwise_map] at hpairs
      refine hpairs.imp (fun {a b} hc => ?_)
      obtain ⟨c, hc, hcompare⟩ := hc
      rw [bufferedLt, compareKeys, hcompare, ok_bind,
        decide_eq_false (by omega)]
    dsimp only
    rw [RowStream.map_of_mapM hbuffered, collect_of_list, ok_bind,
      sortBy_of_ordered hordered, ok_bind, RowStream.map_of_mapM hencoded]

end Scores

/-! ## Projecting the columns of the table -/

section Columns

variable {o : Operators} {schema : List ColumnDef} {values : Row}

theorem column_of_typed (rest : Row) (more : List ColumnDef)
    (hfits : List.Forall₂ Fits values schema) {name : String}
    (hname : name ∈ schema.map ColumnDef.name) :
    ∃ v column, columnValue name (values ++ rest) (schema ++ more) = .ok v ∧
      findColumn name (schema ++ more) = .ok column ∧ Fits v column := by
  have hfound : ∃ (i : Nat) (v : Value) (column : ColumnDef),
      (schema ++ more).findIdx? (fun column => column.name = name) = some i ∧
        (values ++ rest)[i]? = some v ∧
        (schema ++ more).find? (fun column => column.name = name) = some column ∧
        Fits v column := by
    induction hfits with
    | nil => cases hname
    | @cons v column values schema hv _ ih =>
        by_cases hfirst : column.name = name
        · exact ⟨0, v, column, by simp [List.findIdx?_cons, hfirst], rfl, by simp [hfirst], hv⟩
        · rw [List.map_cons, List.mem_cons] at hname
          obtain ⟨i, w, column', hi, hw, hcolumn, hfit⟩ :=
            ih (hname.resolve_left (fun h => hfirst h.symm))
          refine ⟨i + 1, w, column', ?_, hw, ?_, hfit⟩
          · rw [List.cons_append, List.findIdx?_cons, if_neg (by simpa using hfirst), hi]
            rfl
          · rw [List.cons_append, List.find?_cons_of_neg (by simpa using hfirst), hcolumn]
  obtain ⟨i, v, column, hi, hv, hcolumn, hfit⟩ := hfound
  refine ⟨v, column, ?_, ?_, hfit⟩
  · rw [columnValue, hi]
    dsimp only
    rw [hv]
  · rw [findColumn, hcolumn]

theorem project_columns (rest : Row) (more : List ColumnDef)
    (hfits : List.Forall₂ Fits values schema) (index : Nat) (columns : List
      ColumnDef) (hcolumns : ∀ c ∈ columns, c ∈ schema) :
    ∃ objs outputSchema,
      (baseColumns columns).mapM (fun selection =>
        evaluate o.env (values ++ rest) (schema ++ more) selection.expr) = .ok objs ∧
      columnsFrom (projectedColumn (schema ++ more)) index (baseColumns columns) =
        .ok outputSchema ∧
      List.Forall₂ (ObjFits) objs outputSchema := by
  induction columns generalizing index with
  | nil => exact ⟨[], [], rfl, rfl, List.Forall₂.nil⟩
  | cons c columns ih =>
      obtain ⟨objs, outputSchema, hobjs, houtput, hall⟩ :=
        ih (index + 1) (fun c' hc' => hcolumns c' (List.mem_cons_of_mem _ hc'))
      obtain ⟨v, column, hv, hcolumn, hfit⟩ := column_of_typed rest more hfits
        (List.mem_map_of_mem (hcolumns c List.mem_cons_self))
      refine ⟨.value v :: objs,
        ⟨nameOr "" (nameOr column.name s!"column_{index}"), column.typeName, column.length⟩ ::
          outputSchema, ?_, ?_, List.Forall₂.cons ⟨v, rfl, hfit.retype rfl (fun _ hn => hn)⟩ hall⟩
      · rw [baseColumns, List.map_cons, List.mapM_cons, evaluate, hv, ok_bind, ok_bind]
        exact congrArg (· >>= _) hobjs
      · rw [baseColumns, List.map_cons, columnsFrom, projectedColumn, inferType, hcolumn,
          ok_bind, ok_bind]
        exact congrArg (· >>= _) houtput

end Columns

/-- A database with text indexes.  For each query an index has one list of hits, with descending
finite scores, all of live records of its table. -/
structure TextDatabase where
  catalog : SearchCatalog
  fileOrg : String → FileOrganization Record
  hits : RankedMetadata → String → String → List (RID × UInt64)
  nodup : ∀ binding query method, ((hits binding query method).map Prod.fst).Nodup
  valid : ∀ binding query method, ∀ hit ∈ hits binding query method,
    0 ≤ hit.1.pageId ∧ 0 ≤ hit.1.slot ∧ isFinite hit.2 = true
  descending : ∀ binding query method,
    (hits binding query method).Pairwise (fun a b => rational b.2 ≤ rational a.2)
  live : ∀ binding ∈ catalog.ready, ∀ query method, ∀ hit ∈ hits binding query method,
    ∃ row record schema, catalog.tables binding.table = some schema ∧
      (fileOrg binding.table).fetch hit.1 = some record ∧ encodeRow row schema = .ok record


/-! ## What a plan is -/

section Planned

variable {o : Operators} {catalog : SearchCatalog} {statement : SelectStatement} {plan : TextPlan}

/-- The schema of the rows of a scan. -/
def withScore (schema : List ColumnDef) : List ColumnDef :=
  schema ++ [⟨INTERNAL_SCORE_NAME, .FLOAT, none⟩]

/-- The binding is the one text index of its column, and its table has no column with the name
of the score. -/
structure Sole (catalog : SearchCatalog) (binding : RankedMetadata) : Prop where
  one : catalog.ready.filter (fun b => b.table = binding.table ∧ b.column = binding.column ∧
    b.algorithm = "INVERTED") = [binding]
  unscored : ∀ schema, catalog.tables binding.table = some schema →
    schema.any (fun column => column.name = INTERNAL_SCORE_NAME) = false

namespace Sole

variable {binding : RankedMetadata} (h : Sole catalog binding)
include h

theorem mem : binding ∈ catalog.ready ∧ binding.algorithm = "INVERTED" := by
  have hmem : binding ∈ catalog.ready.filter (fun b => b.table = binding.table ∧
      b.column = binding.column ∧ b.algorithm = "INVERTED") := by
    rw [h.one]
    exact List.mem_singleton_self _
  obtain ⟨hready, hb⟩ := List.mem_filter.mp hmem
  exact ⟨hready, (of_decide_eq_true hb).2.2⟩

end Sole

/-- What a planned statement has: its index, its candidates, its ORDER BY keys. -/
structure Planned (o : Operators) (catalog : SearchCatalog) (statement : SelectStatement)
    (plan : TextPlan) : Prop where
  sole : Sole catalog plan.binding
  method : plan.method = "tf_idf" ∨ plan.method = "bm25"
  schema : catalog.tables plan.binding.table = some plan.baseSchema
  scan : plan.scanSchema = withScore plan.baseSchema
  request : ∃ limit offset reordered,
    orderKeys o.env.upper statement plan.baseSchema "text" = .ok (plan.orderBy, reordered) ∧
    plan.limit = Option.map (fun limit => (limit, offset)) limit ∧
    chooseCandidates plan.binding limit offset plan.residual.isSome plan.distinct reordered =
      .ok (plan.request, plan.policy)

theorem scan_of_text_scan {schema scanSchema : List ColumnDef} {method : String}
    {binding : RankedMetadata} (h : Operators.textScan schema method binding = .ok scanSchema) :
    binding.algorithm = "INVERTED" ∧ (method = "tf_idf" ∨ method = "bm25") ∧
      schema.any (fun column => column.name = INTERNAL_SCORE_NAME) = false ∧
      scanSchema = withScore schema := by
  rw [Operators.textScan] at h
  split_ifs at h with halgorithm hmethod
  obtain ⟨_, -, h⟩ := bind_eq_ok.mp h
  rw [appendScoreSchema] at h
  split_ifs at h with hany
  cases h
  refine ⟨not_not.mp halgorithm, ?_, by simpa using hany, rfl⟩
  by_contra hne
  exact hmethod (not_or.mp hne)

theorem planned_of_ok (h : o.planTextSearch catalog statement = .ok plan) :
    Planned o catalog statement plan := by
  rw [Operators.planTextSearch] at h
  split at h
  · cases h
  · next options hsearch =>
      obtain ⟨⟨algorithm, method⟩, -, h⟩ := bind_eq_ok.mp h
      dsimp only at h
      split_ifs at h
      obtain ⟨⟨⟨column, query⟩, residual⟩, -, h⟩ := bind_eq_ok.mp h
      obtain ⟨schema, hschema, h⟩ := bind_eq_ok.mp h
      dsimp only at h
      split at h
      · split_ifs at h
        obtain ⟨indexes, hindexes, h⟩ := bind_eq_ok.mp h
        obtain ⟨binding, hbinding, h⟩ := bind_eq_ok.mp h
        obtain ⟨selections, -, h⟩ := bind_eq_ok.mp h
        obtain ⟨_, -, h⟩ := bind_eq_ok.mp h
        obtain ⟨_, -, h⟩ := bind_eq_ok.mp h
        obtain ⟨⟨orderBy, reordered⟩, hkeys, h⟩ := bind_eq_ok.mp h
        obtain ⟨⟨limit, offset⟩, -, h⟩ := bind_eq_ok.mp h
        obtain ⟨⟨request, policy⟩, hrequest, h⟩ := bind_eq_ok.mp h
        obtain ⟨scanSchema, hscan, h⟩ := bind_eq_ok.mp h
        obtain ⟨outputSchema, -, h⟩ := bind_eq_ok.mp h
        cases h
        obtain ⟨halgorithm, hmethod, hunscored, hscan⟩ := scan_of_text_scan hscan
        have hone : catalog.ready.filter (fun b => b.table = statement.table ∧
            b.column = column ∧ b.algorithm = algorithm) = [binding] := by
          rw [SearchCatalog.rankedIndexesFor, hschema] at hindexes
          cases hindexes
          rw [Operators.chooseTextIndex] at hbinding
          split at hbinding
          · cases hbinding
          · next found hfound =>
              cases hbinding
              rw [← hfound, List.filter_filter]
              refine List.filter_congr (fun b _ => ?_)
              simp [Bool.and_comm, Bool.and_assoc]
          · cases hbinding
        have hmem : binding ∈ catalog.ready.filter (fun b => b.table = statement.table ∧
            b.column = column ∧ b.algorithm = algorithm) := by
          rw [hone]
          exact List.mem_singleton_self _
        obtain ⟨htable, hcolumn, hb⟩ := of_decide_eq_true (List.mem_filter.mp hmem).2
        have htables : catalog.tables statement.table = some schema := by
          rw [SearchCatalog.schema] at hschema
          split at hschema
          · next schema' htables =>
              cases hschema
              exact htables
          · cases hschema
        refine ⟨⟨?_, ?_⟩, hmethod, ?_, hscan, limit, offset, reordered, hkeys, rfl, hrequest⟩
        · rw [htable, hcolumn, ← halgorithm, hb]
          exact hone
        · intro schema' hschema'
          rw [htable, htables] at hschema'
          cases hschema'
          exact hunscored
        · rw [htable]
          exact htables
      · cases h

end Planned

/-! ## Candidates and rows -/

section Rows

variable {o : Operators} {db : TextDatabase} {statement : SelectStatement} {plan : TextPlan}

variable {binding : RankedMetadata} {offset count : Int} {upper : String → String}
    {schema : List ColumnDef} {file : FileOrganization Record} {hits : List (RID × UInt64)}

theorem choose_cases {limit : Option Int} {filtered distinct reordered : Bool} {request : Int}
    {policy : String}
    (h : chooseCandidates binding limit offset filtered distinct reordered =
      .ok (request, policy)) :
    (limit = some 0 ∧ request = 0) ∨
      (∃ n, limit = some n ∧ 0 < n ∧ 0 ≤ offset ∧ filtered = false ∧ distinct = false ∧
        reordered = false ∧ request = n + offset) ∨
      (limit ≠ some 0 ∧ (limit = none ∨ filtered = true ∨ distinct = true ∨ reordered = true) ∧
        binding.exact = true ∧ binding.exhaustive = true ∧ binding.itemCount = some request) := by
  rw [chooseCandidates] at h
  split at h
  · cases h
  · next hnonneg =>
      split at h
      · cases h
      · next hoffset =>
          dsimp only at h
          split at h
          · split at h
            · next count hboth hcount =>
                cases h
                have hand := Bool.and_eq_true_iff.mp hboth
                exact Or.inr (Or.inr ⟨by simp, Or.inl rfl, hand.1, hand.2, hcount⟩)
            · cases h
          · next n =>
              split at h
              · next hzero =>
                  cases h
                  exact Or.inl ⟨by rw [hzero], rfl⟩
              · next hzero =>
                  have hn : 0 ≤ n := by simpa using hnonneg
                  split at h
                  · next hneeds =>
                      split at h
                      · next count hboth hcount =>
                          cases h
                          have hand := Bool.and_eq_true_iff.mp hboth
                          refine Or.inr (Or.inr ⟨by simpa using hzero, Or.inr ?_, hand.1, hand.2,
                            hcount⟩)
                          simpa [or_assoc] using hneeds
                      · cases h
                  · next hplain =>
                      cases h
                      simp only [Bool.or_eq_true, not_or, Bool.not_eq_true] at hplain
                      exact Or.inr (Or.inl ⟨n, rfl, by omega, by omega, hplain.1.1, hplain.1.2,
                        hplain.2, rfl⟩)

theorem bound_of_bind_order {kind : String} {expr expr' : Expr}
    (h : bindOrder upper schema kind expr = .ok expr') (hbound : expr'.isBoundScore = true) :
    ∃ kind, expr' = .BoundScoreExpr schema.length kind :=
      by
  unfold bindOrder at h
  split at h
  · unfold bindScore at h
    dsimp only at h
    split_ifs at h
    cases h
    exact ⟨kind, rfl⟩
  · next hne =>
      split at h
      · cases h
      · next hscore =>
          obtain ⟨_, -, h⟩ := bind_eq_ok.mp h
          cases h
          exfalso
          cases expr with
          | BoundScoreExpr position kind => exact hscore rfl
          | _ => cases hbound

theorem by_score_of_order_keys {keys : List (OrderByItem Expr)}
    (h : orderKeys upper statement schema "text" = .ok (keys, false)) : ByScore schema keys := by
  obtain ⟨keys', hkeys, h⟩ := bind_eq_ok.mp h
  obtain ⟨rfl, hreordered⟩ := Prod.mk.inj (Except.ok.inj h)
  have hall : keys'.all keepsOrder = true := by simpa using hreordered
  intro key hkey
  obtain ⟨item, -, hitem⟩ := mem_mapM hkeys hkey
  have hkeeps := List.all_eq_true.mp hall key hkey
  rw [keepsOrder, Bool.and_eq_true] at hkeeps
  refine ⟨?_, by simpa using hkeeps.2⟩
  obtain ⟨expr, hexpr, hitem⟩ := bind_eq_ok.mp hitem
  cases hitem
  exact bound_of_bind_order hexpr hkeeps.1

def hitsOf (db : TextDatabase) (plan : TextPlan) : List (RID × UInt64) :=
  db.hits plan.binding plan.query plan.method

theorem open_scan_ok (db : TextDatabase) (plan : TextPlan) :
    Operators.openScan plan (hitsOf db plan) = .ok ((hitsOf db plan).take plan.request.toNat) := by
  rw [Operators.openScan]
  split
  · next hzero => rw [hzero, Int.toNat_zero, List.take_zero]
  · have hsub := List.take_sublist plan.request.toNat (hitsOf db plan)
    have hvalidated : ((hitsOf db plan).take plan.request.toNat).mapM Operators.validateHit =
        .ok (((hitsOf db plan).take plan.request.toNat).map
          (fun hit => (hit.1, rational hit.2))) := by
      refine mapM_ok (fun hit hhit => ?_)
      obtain ⟨hpage, hslot, hfinite⟩ :=
        db.valid plan.binding plan.query plan.method hit (hsub.subset hhit)
      rw [Operators.validateHit, if_neg (by omega), if_pos hfinite]
    have hcheck : TextSearch.checkOrder [] none (((hitsOf db plan).take plan.request.toNat).map
        (fun hit => (hit.1, rational hit.2))) = .ok () := by
      refine IndexedTable.check_order_ok ?_ (fun _ _ => List.not_mem_nil) ?_ (by simp)
      · rw [List.map_map]
        exact (db.nodup plan.binding plan.query plan.method).sublist (hsub.map Prod.fst)
      · rw [List.pairwise_map]
        exact (db.descending plan.binding plan.query plan.method).sublist hsub
    dsimp only
    rw [hvalidated, ok_bind, hcheck, ok_bind]

theorem scan_hits (h : Planned o db.catalog statement plan) :
    ∃ records, (hitsOf db plan).mapM
        (Operators.scanNext plan (db.fileOrg plan.binding.table)) = .ok records ∧
      List.Forall₂ (fun hit record =>
        ∃ row values, ScanRecord plan.baseSchema hit record row values)
        (hitsOf db plan) records := by
  have hlive : ∀ hit ∈ hitsOf db plan, ∃ record row values,
      Operators.scanNext plan (db.fileOrg plan.binding.table) hit = .ok record ∧
        ScanRecord plan.baseSchema hit record row values := by
    intro hit hhit
    obtain ⟨row, record, schema, htables, hfetch, hencode⟩ :=
      db.live plan.binding h.sole.mem.1 plan.query plan.method hit hhit
    rw [h.schema] at htables
    cases htables
    exact scan_next_live plan h.scan hfetch hencode
      (db.valid plan.binding plan.query plan.method hit hhit).2.2
  generalize hitsOf db plan = hits at hlive
  induction hits with
  | nil => exact ⟨[], rfl, List.Forall₂.nil⟩
  | cons hit hits ih =>
      obtain ⟨record, row, values, hnext, hrecord⟩ := hlive hit List.mem_cons_self
      obtain ⟨records, hrecords, hall⟩ := ih (fun e he => hlive e (List.mem_cons_of_mem _ he))
      refine ⟨record :: records, ?_, List.Forall₂.cons ⟨row, values, hrecord⟩ hall⟩
      rw [List.mapM_cons, hnext, ok_bind, hrecords]
      rfl

/-- Where nothing drops, merges or reorders rows, the limit needs only its candidates. -/
theorem bounded_rows (h : Planned o db.catalog statement plan)
    (hscore : ByScore plan.baseSchema plan.orderBy) (hresidual : plan.residual = none)
    (hdistinct : plan.distinct = false) {n : Int} (hn : 0 < n) (hoffset : 0 ≤ offset)
    (hlimit : plan.limit = some (n, offset)) :
    o.rowsOf plan (db.fileOrg plan.binding.table)
        ((hitsOf db plan).take (n + offset).toNat) =
      o.rowsOf plan (db.fileOrg plan.binding.table) (hitsOf db plan) := by
  obtain ⟨records, hscan, hrecords⟩ := scan_hits h
  have hcut : ∀ m, o.rowsOf plan (db.fileOrg plan.binding.table) ((hitsOf db plan).take m) =
      (((ofList (records.take m)).map (o.projectNext plan)).limit n.toNat
        offset.toNat).collect := by
    intro m
    have hscan' := mapM_eq_ok.mpr (List.forall₂_take m (mapM_eq_ok.mp hscan))
    have hsorted := @sorted_of_scores o _ _ _ h.scan hscore
      (fun hit hhit =>
        (db.valid plan.binding plan.query plan.method hit (List.mem_of_mem_take hhit)).2.2)
      ((db.descending plan.binding plan.query plan.method).sublist (List.take_sublist m _))
      (List.forall₂_take m hrecords)
    rw [Operators.rowsOf, Operators.filtered, hresidual, hdistinct, hlimit]
    dsimp only
    rw [RowStream.map_of_mapM hscan', hsorted, ok_bind]
    rfl
  have hall := hcut (hitsOf db plan).length
  rw [List.take_length, hrecords.length_eq, List.take_length] at hall
  rw [hcut, hall, show (n + offset).toNat = offset.toNat + n.toNat by omega,
    limit_map_take]

/-- The rows of the plan are those of all its candidates; where there are none for an error, the
plan gives the error or was to give no rows. -/
def SameRows (o : Operators) (db : TextDatabase) (plan : TextPlan) : Prop :=
  (∀ rows, o.rowsOf plan (db.fileOrg plan.binding.table) (hitsOf db plan) = .ok rows →
      o.execute plan (db.fileOrg plan.binding.table) (hitsOf db plan) = .ok rows) ∧
    (plan.limit.map Prod.fst ≠ some 0 →
      o.execute plan (db.fileOrg plan.binding.table) (hitsOf db plan) =
        o.rowsOf plan (db.fileOrg plan.binding.table) (hitsOf db plan))

/-- The plan needs all the candidates: it emits rows, without a LIMIT, or above a filter, a
DISTINCT or an order that is not that of the scores. -/
def NeedsAll (plan : TextPlan) : Prop :=
  plan.limit.map Prod.fst ≠ some 0 ∧
    (plan.limit = none ∨ plan.residual.isSome = true ∨ plan.distinct = true ∨
      plan.orderBy.all keepsOrder = false)

/-- Where the plan needs all the candidates, its binding declares as many. -/
def Covered (db : TextDatabase) (plan : TextPlan) : Prop :=
  NeedsAll plan → ∀ count, plan.binding.itemCount = some count →
    ((hitsOf db plan).length : Int) ≤ count

/-- No text index finds more hits for a query than its binding declares. -/
def Declared (db : TextDatabase) : Prop :=
  ∀ binding, Sole db.catalog binding → binding.exact = true → binding.exhaustive = true →
    ∀ count, binding.itemCount = some count → ∀ query, ∀ method ∈ ["tf_idf", "bm25"],
      ((db.hits binding query method).length : Int) ≤ count

theorem same_of_eq {db : TextDatabase} {plan : TextPlan}
    (h : o.rowsOf plan (db.fileOrg plan.binding.table)
        ((hitsOf db plan).take plan.request.toNat) =
      o.rowsOf plan (db.fileOrg plan.binding.table) (hitsOf db plan)) : SameRows o db plan := by
  have hexecute : o.execute plan (db.fileOrg plan.binding.table) (hitsOf db plan) =
      o.rowsOf plan (db.fileOrg plan.binding.table) (hitsOf db plan) := by
    rw [Operators.execute, open_scan_ok, ok_bind, h]
  exact ⟨fun rows hrows => hexecute.trans hrows, fun _ => hexecute⟩

theorem same_of_empty {db : TextDatabase} {plan : TextPlan} (hlimit : plan.limit = some (0, offset))
    (hrequest : plan.request = 0) : SameRows o db plan := by
  refine ⟨fun rows hrows => ?_, fun hne => absurd (by rw [hlimit]; rfl) hne⟩
  have hnone : rows = [] := by
    obtain ⟨sorted, -, hrows⟩ := bind_eq_ok.mp hrows
    rw [hlimit] at hrows
    exact collect_limit_zero hrows
  rw [Operators.execute, open_scan_ok, ok_bind, hrequest, Int.toNat_zero, List.take_zero, hnone]
  have hfiltered : o.filtered plan (db.fileOrg plan.binding.table) [] = ofList [] := by
    rw [Operators.filtered]
    cases plan.residual with
    | none => rfl
    | some predicate => rfl
  have hsorted : o.sorted plan (ofList []) = .ok (ofList []) := by
    rw [Operators.sorted]
    split
    · rfl
    · rfl
  rw [Operators.rowsOf]
  dsimp only
  rw [hfiltered, hsorted, ok_bind, hlimit]
  have hprojected : (if plan.distinct = true then
      ((ofList []).map (o.projectNext plan)).distinct (Operators.decode plan.outputSchema)
        Value.eqItems
      else (ofList []).map (o.projectNext plan)) = ofList [] := by
    cases plan.distinct with
    | true => rfl
    | false => rfl
  dsimp only
  rw [hprojected]
  simp [RowStream.limit, ofList, collect]

/-- What a plan asks for: no candidates, those of its limit, or all that are declared. -/
theorem request_cases (h : Planned o db.catalog statement plan) :
    (∃ offset, plan.limit = some (0, offset) ∧ plan.request = 0) ∨
      (∃ n offset, plan.limit = some (n, offset) ∧ 0 < n ∧ 0 ≤ offset ∧ plan.residual = none ∧
        plan.distinct = false ∧ ByScore plan.baseSchema plan.orderBy ∧
        plan.request = n + offset) ∨
      (NeedsAll plan ∧ plan.binding.exact = true ∧ plan.binding.exhaustive = true ∧
        plan.binding.itemCount = some plan.request) := by
  obtain ⟨limit, offset, reordered, hkeys, hlimit, hrequest⟩ := h.request
  rcases choose_cases hrequest with ⟨rfl, hzero⟩ |
    ⟨n, rfl, hn, hoffset, hfiltered, hdistinct, rfl, hcount⟩ |
    ⟨hne, hneeds, hexact, hexhaustive, hcount⟩
  · exact Or.inl ⟨offset, hlimit, hzero⟩
  · exact Or.inr (Or.inl ⟨n, offset, hlimit, hn, hoffset, by simpa using hfiltered, hdistinct,
      by_score_of_order_keys hkeys, hcount⟩)
  · refine Or.inr (Or.inr ⟨⟨?_, ?_⟩, hexact, hexhaustive, hcount⟩)
    · rw [hlimit]
      simpa [Function.comp_def] using hne
    · obtain ⟨keys, -, hkeys⟩ := bind_eq_ok.mp hkeys
      obtain ⟨rfl, hreordered⟩ := Prod.mk.inj (Except.ok.inj hkeys)
      rcases hneeds with rfl | hfiltered | hdistinct | rfl
      · exact Or.inl hlimit
      · exact Or.inr (Or.inl hfiltered)
      · exact Or.inr (Or.inr (Or.inl hdistinct))
      · exact Or.inr (Or.inr (Or.inr (by simpa using hreordered)))

theorem same_rows (h : Planned o db.catalog statement plan)
    (hcovered : NeedsAll plan → plan.binding.exact = true → plan.binding.exhaustive = true →
      ∀ count, plan.binding.itemCount = some count → ((hitsOf db plan).length : Int) ≤ count) :
    SameRows o db plan := by
  rcases request_cases h with ⟨offset, hlimit, hzero⟩ |
    ⟨n, offset, hlimit, hn, hoffset, hresidual, hdistinct, hscore, hcount⟩ |
    ⟨hneeds, hexact, hexhaustive, hcount⟩
  · exact same_of_empty hlimit hzero
  · refine same_of_eq ?_
    rw [hcount]
    exact bounded_rows h hscore hresidual hdistinct hn hoffset hlimit
  · refine same_of_eq ?_
    have hle := hcovered hneeds hexact hexhaustive _ hcount
    rw [List.take_of_length_le (by omega)]

/-! ## Rows without a limit -/

/-- The residual predicate does not accept the row of the hit. -/
def Rejected (o : Operators) (db : TextDatabase) (plan : TextPlan) (hit : RID × UInt64) : Prop :=
  ∃ predicate record, plan.residual = some predicate ∧
    Operators.scanNext plan (db.fileOrg plan.binding.table) hit = .ok record ∧
    FilterOperator.accepts ⟨o.env, predicate, plan.scanSchema⟩ record = .ok false

theorem unlimited_rows (hlimit : plan.limit = none) (hdistinct : plan.distinct = false)
    {rows : List Record} (hrows : o.rowsOf plan file hits = .ok rows) :
    ∃ kept : List Record, kept.length = rows.length ∧
      o.filtered plan file hits = ofList kept := by
  rw [Operators.rowsOf] at hrows
  dsimp only at hrows
  obtain ⟨sorted, hsorted, hrows⟩ := bind_eq_ok.mp hrows
  rw [hlimit, hdistinct] at hrows
  obtain ⟨records, rfl, hproject⟩ := mapM_of_map (collect_eq_ok.mp hrows)
  have hlength := (mapM_eq_ok.mp hproject).length_eq
  rw [Operators.sorted] at hsorted
  split at hsorted
  · exact ⟨records, hlength, Except.ok.inj hsorted⟩
  · obtain ⟨buffer, hbuffer, hsorted⟩ := bind_eq_ok.mp hsorted
    obtain ⟨ordered, hordered, hsorted⟩ := bind_eq_ok.mp hsorted
    obtain ⟨pairs, hpairs, hencode⟩ := mapM_of_map (Except.ok.inj hsorted)
    cases hpairs
    obtain ⟨kept, hkept, hbuffered⟩ :=
      mapM_of_map (collect_eq_ok.mp hbuffer)
    refine ⟨kept, ?_, hkept⟩
    rw [(mapM_eq_ok.mp hbuffered).length_eq, ← length_sortBy hordered,
      (mapM_eq_ok.mp hencode).length_eq, hlength]

theorem filtered_records {plan : TextPlan} {records kept : List Record}
    (hscan : hits.mapM (Operators.scanNext plan file) = .ok records)
    (hkept : o.filtered plan file hits = ofList kept) :
    ∃ accepted : Record → Bool,
      (∀ m, o.filtered plan file (hits.take m) =
        ofList ((records.take m).filter accepted)) ∧
      ∀ record ∈ records, accepted record = false ↔ ∃ predicate, plan.residual = some predicate ∧
        FilterOperator.accepts ⟨o.env, predicate, plan.scanSchema⟩ record = .ok false := by
  have hcut : ∀ m, (ofList (hits.take m)).map (Operators.scanNext plan file) =
      ofList (records.take m) := fun m =>
    RowStream.map_of_mapM (mapM_eq_ok.mpr (List.forall₂_take m (mapM_eq_ok.mp hscan)))
  rw [Operators.filtered, RowStream.map_of_mapM hscan] at hkept
  cases hresidual : plan.residual with
  | none =>
      refine ⟨fun _ => true, fun m => ?_, fun record _ => by simp⟩
      rw [Operators.filtered, hresidual, hcut, List.filter_true]
  | some predicate =>
      rw [hresidual] at hkept
      obtain ⟨accepted, haccepted⟩ : ∃ accepted : Record → Bool, ∀ record ∈ records,
          FilterOperator.accepts ⟨o.env, predicate, plan.scanSchema⟩ record =
            .ok (accepted record) := by
        refine ⟨fun record =>
          (FilterOperator.accepts ⟨o.env, predicate, plan.scanSchema⟩ record).toOption == some true,
          ?_⟩
        intro record hrecord
        obtain ⟨b, hb⟩ := ok_of_filter hkept record hrecord
        cases b with
        | true => simp [hb, Except.toOption]
        | false => simp [hb, Except.toOption]
      refine ⟨accepted, fun m => ?_, fun record hrecord => ?_⟩
      · rw [Operators.filtered, hresidual, hcut]
        exact filter_of_ok (fun record hrecord =>
          haccepted record (List.mem_of_mem_take hrecord))
      · simp [haccepted record hrecord]

/-- Without LIMIT and DISTINCT a plan has the rows of all candidates exactly where the residual
predicate rejects those that are not declared. -/
theorem same_rows_iff (h : Planned o db.catalog statement plan) (hlimit : plan.limit = none)
    (hdistinct : plan.distinct = false) {rows : List Record}
    (hrows : o.rowsOf plan (db.fileOrg plan.binding.table) (hitsOf db plan) = .ok rows) :
    ∃ count, plan.binding.itemCount = some count ∧
      (SameRows o db plan ↔
        ∀ hit ∈ (hitsOf db plan).drop count.toNat, Rejected o db plan hit) := by
  have hcount : plan.binding.itemCount = some plan.request := by
    rcases request_cases h with ⟨offset, hlimit', -⟩ | ⟨n, offset, hlimit', -⟩ | ⟨-, -, -, hcount⟩
    · rw [hlimit] at hlimit'
      cases hlimit'
    · rw [hlimit] at hlimit'
      cases hlimit'
    · exact hcount
  refine ⟨plan.request, hcount, ?_⟩
  obtain ⟨records, hscan, -⟩ := scan_hits h
  obtain ⟨kept, hkept, hfiltered⟩ := unlimited_rows hlimit hdistinct hrows
  obtain ⟨accepted, hcut, hrejected⟩ := filtered_records hscan hfiltered
  have hmatch := List.forall₂_drop plan.request.toNat (mapM_eq_ok.mp hscan)
  have hall := hcut (hitsOf db plan).length
  rw [List.take_length, (mapM_eq_ok.mp hscan).length_eq, List.take_length] at hall
  -- the records past the request are rejected where those up to it are as many
  have hrest : (records.drop plan.request.toNat).filter accepted = [] ↔
      ∀ hit ∈ (hitsOf db plan).drop plan.request.toNat, Rejected o db plan hit := by
    have hmem : ∀ record ∈ records.drop plan.request.toNat, record ∈ records :=
      fun record => List.mem_of_mem_drop
    rw [List.filter_eq_nil_iff]
    generalize (hitsOf db plan).drop plan.request.toNat = hits,
      records.drop plan.request.toNat = rest at hmatch hmem
    induction hmatch with
    | nil => simp
    | @cons hit record hits rest hnext _ ih =>
        rw [List.forall_mem_cons, List.forall_mem_cons]
        refine and_congr ?_ (ih (fun r hr => hmem r (List.mem_cons_of_mem _ hr)))
        rw [Bool.not_eq_true, hrejected record (hmem record List.mem_cons_self)]
        constructor
        · rintro ⟨predicate, hresidual, hfalse⟩
          exact ⟨predicate, record, hresidual, hnext, hfalse⟩
        · rintro ⟨predicate, record', hresidual, hnext', hfalse⟩
          rw [hnext] at hnext'
          cases hnext'
          exact ⟨predicate, hresidual, hfalse⟩
  have hsplit := congrArg (List.filter accepted) (List.take_append_drop plan.request.toNat records)
  rw [List.filter_append] at hsplit
  rw [← hrest]
  constructor
  · intro hsame
    have hexecute := hsame.1 rows hrows
    rw [Operators.execute, open_scan_ok, ok_bind] at hexecute
    obtain ⟨first, hfirst, hstream⟩ := unlimited_rows hlimit hdistinct hexecute
    have hfew := congrArg RowStream.rows ((hcut _).symm.trans hstream)
    have hmany := congrArg RowStream.rows (hall.symm.trans hfiltered)
    dsimp only [ofList] at hfew hmany
    have hlengths := congrArg List.length hsplit
    rw [List.length_append, hfew, hmany, hfirst, hkept] at hlengths
    exact List.eq_nil_of_length_eq_zero (by omega)
  · intro hnone
    rw [hnone, List.append_nil] at hsplit
    refine same_of_eq ?_
    rw [Operators.rowsOf, Operators.rowsOf, hcut, hall, hsplit]

/-! ## A statement for all the rows -/

/-- `SELECT * FROM table WHERE MATCH(column, query) USING BM25` or `TF_IDF`. -/
def allRows (binding : RankedMetadata) (query method : String) : SelectStatement where
  columns := []
  table := binding.table
  whereClause := some (.MatchExpr binding.column (.Literal (.str query)))
  groupBy := []
  orderBy := []
  distinct := false
  having := none
  limit := none
  joins := []
  search := some ⟨if method = "bm25" then "BM25" else "TF_IDF", none, []⟩

theorem searched_column (h : binding.validateRankedBinding schema = .ok ()) :
    (schema.find? (fun c => c.name = binding.column)).any
      (fun c => c.typeName = .TEXT ∨ c.typeName = .VARCHAR) = true := by
  rw [RankedMetadata.validateRankedBinding] at h
  split at h
  · cases h
  · split at h
    · cases h
    · rw [RankedMetadata.columnOf] at h
      split at h
      · cases h
      · next column hcolumn =>
          rw [hcolumn]
          split at h
          · cases h
          · next htype =>
              rw [not_and_or, not_not, not_not] at htype
              simpa using htype

theorem validate_base_columns (schema : List ColumnDef) :
    validateSelections schema (baseColumns schema) = .ok () := by
  suffices h : ∀ columns : List ColumnDef, (∀ c ∈ columns, c ∈ schema) →
      validateSelections schema (baseColumns columns) = .ok () from h schema (fun _ hc => hc)
  intro columns hcolumns
  induction columns with
  | nil => rfl
  | cons c columns ih =>
      have hname : schema.any (fun column => column.name = c.name) = true :=
        List.any_eq_true.mpr ⟨c, hcolumns c List.mem_cons_self, by simp⟩
      have hfirst : validateScalar schema (.ColumnRef c.name) = .ok () := by
        simp only [validateScalar, walkNodes, List.forM_eq_forM, List.forM_cons, List.forM_nil,
          hname]
        rfl
      rw [validateSelections, baseColumns, List.map_cons, List.forM_eq_forM, List.forM_cons]
      show (validateScalar schema (.ColumnRef c.name) >>= fun _ => _) = _
      rw [hfirst, ok_bind]
      exact ih (fun c' hc' => hcolumns c' (List.mem_cons_of_mem _ hc'))

/-- The plan of the statement asks for as many candidates as the binding declares. -/
theorem plan_all_rows (hsole : Sole db.catalog binding) {outputSchema : List ColumnDef}
    (hschema : db.catalog.tables binding.table = some schema) (hexact : binding.exact = true)
    (hexhaustive : binding.exhaustive = true) (hcount : binding.itemCount = some count)
    (query : String) {method : String} (hmethod : method ∈ ["tf_idf", "bm25"])
    (houtput : inferSchema (baseColumns schema) (withScore schema) = .ok outputSchema) :
    o.planTextSearch db.catalog (allRows binding query method) =
      .ok ⟨binding, query, method, count, "exhaustive", schema, withScore schema, none, [],
        baseColumns schema, outputSchema, false, none⟩ := by
  have hvalid : binding.validateRankedBinding schema = .ok () := by
    obtain ⟨schema', hschema', hvalid⟩ := db.catalog.registered binding hsole.mem.1
    rw [hschema] at hschema'
    cases hschema'
    exact hvalid
  have htext : o.textMethod db.catalog ⟨if method = "bm25" then "BM25" else "TF_IDF", none, []⟩ =
      .ok ("INVERTED", method) := by
    rcases List.mem_cons.mp hmethod with rfl | hmethod
    · rfl
    · rw [List.mem_singleton.mp hmethod]
      rfl
  have htable : db.catalog.schema binding.table = .ok schema := by
    rw [SearchCatalog.schema, hschema]
  have hindexes : db.catalog.rankedIndexesFor binding.table (some binding.column) =
      .ok (db.catalog.ready.filter (fun b =>
        b.table = binding.table ∧ b.column = binding.column)) := by
    rw [SearchCatalog.rankedIndexesFor, htable, ok_bind]
    simp
  have hchosen : Operators.chooseTextIndex "INVERTED" binding.column
      (db.catalog.ready.filter (fun b => b.table = binding.table ∧ b.column = binding.column)) =
        .ok binding := by
    have hone : (db.catalog.ready.filter (fun b =>
        b.table = binding.table ∧ b.column = binding.column)).filter
          (fun b => b.algorithm = "INVERTED") = [binding] := by
      rw [← hsole.one, List.filter_filter]
      refine List.filter_congr (fun b _ => ?_)
      simp [Bool.and_comm, Bool.and_assoc]
    rw [Operators.chooseTextIndex, hone]
  have hscan : Operators.textScan schema method binding = .ok (withScore schema) := by
    rw [Operators.textScan, if_neg (by simp [hsole.mem.2]), if_neg (by simp at hmethod; tauto),
      hvalid,
      ok_bind, appendScoreSchema, if_neg (by simp [hsole.unscored schema hschema])]
    rfl
  have hrequest : chooseCandidates binding none 0 false false false = .ok (count, "exhaustive") :=
    by
    rw [chooseCandidates, hexact, hexhaustive, hcount]
    rfl
  have htree : o.textTree (allRows binding query method) schema method query none binding =
      .ok ⟨binding, query, method, count, "exhaustive", schema, withScore schema, none, [],
        baseColumns schema, outputSchema, false, none⟩ := by
    have hvisible : visibleProjections o.env.upper (allRows binding query method).columns schema
        "text" = .ok (baseColumns schema) := rfl
    have hkeys : orderKeys o.env.upper (allRows binding query method) schema "text" =
        .ok ([], false) := rfl
    have hlimits : Operators.limitValues (allRows binding query method).limit = .ok (none, 0) :=
      rfl
    rw [Operators.textTree, hvisible, ok_bind, validate_base_columns, ok_bind]
    have hresidual : (none : Option Expr).forM (validateScalar schema) = .ok () := rfl
    rw [hresidual, ok_bind, hkeys, ok_bind]
    dsimp only
    rw [hlimits, ok_bind]
    show (chooseCandidates binding none 0 false false false >>= _) = _
    rw [hrequest, ok_bind]
    dsimp only
    rw [hscan, ok_bind, houtput, ok_bind]
    rfl
  have hcolumn := searched_column hvalid
  have hstart : o.planTextSearch db.catalog (allRows binding query method) =
      (do
        let (algorithm, method) ←
          o.textMethod db.catalog ⟨if method = "bm25" then "BM25" else "TF_IDF", none, []⟩
        let schema ← db.catalog.schema binding.table
        if !(schema.find? (fun c => c.name = binding.column)).any
            (fun c => c.typeName = .TEXT ∨ c.typeName = .VARCHAR) then
          .error (.QueryExecutionError "MATCH requires an existing TEXT or VARCHAR column")
        else do
          let indexes ← db.catalog.rankedIndexesFor binding.table (some binding.column)
          let index ← Operators.chooseTextIndex algorithm binding.column indexes
          o.textTree (allRows binding query method) schema method query none index) := rfl
  rw [hstart, htext, ok_bind]
  dsimp only
  rw [htable, ok_bind, if_neg (by rw [hcolumn]; decide), hindexes, ok_bind, hchosen, ok_bind, htree]

theorem item_count_nonneg (h : binding.validateRankedBinding schema = .ok ())
    (hcount : binding.itemCount = some count) : 0 ≤ count := by
  rw [RankedMetadata.validateRankedBinding] at h
  split at h
  · cases h
  · split at h
    · cases h
    · split at h
      · cases h
      · split_ifs at h with htype hvector hmetric hdimension hprofile hnegative
        rw [hcount] at hnegative
        simpa using hnegative

theorem project_record {outputSchema : List ColumnDef} {hit : RID × UInt64} {record : Record}
    {row : List Datum} {values : Row} (h : ScanRecord schema hit record row values)
    (houtput : inferSchema (baseColumns schema) (withScore schema) = .ok outputSchema)
    (hscan : plan.scanSchema = withScore schema)
    (hselections : plan.selections = baseColumns schema)
    (hschema : plan.outputSchema = outputSchema) :
    ∃ out, o.projectNext plan record = .ok out := by
  obtain ⟨objs, outputSchema', hobjs, houtput', hall⟩ := project_columns
    [.float hit.2] [⟨INTERNAL_SCORE_NAME, .FLOAT, none⟩] h.fits 1 schema (fun _ hc
      => hc)
  obtain rfl : outputSchema' = outputSchema :=
    Except.ok.inj (houtput'.symm.trans houtput)
  obtain ⟨-, out, cells, hout, -⟩ := rowFits_iff.mpr hall
  refine ⟨out, ?_⟩
  have hdecode : Operators.decode plan.scanSchema record =
      .ok (values ++ [.float hit.2]) := by
    rw [Operators.decode, hscan, withScore, h.decoded, ok_bind, h.cells]
  rw [Operators.projectNext, hdecode, ok_bind, hselections, hscan, withScore, hobjs, ok_bind,
    hschema, hout]

theorem declared_of_same (hsole : Sole db.catalog binding) (hexact : binding.exact = true)
    (hexhaustive : binding.exhaustive = true) (hcount : binding.itemCount = some count)
    (query method : String) (hmethod : method ∈ ["tf_idf", "bm25"])
    (hsame : ∀ plan, o.planTextSearch db.catalog (allRows binding query method) = .ok plan →
      SameRows o db plan) : ((db.hits binding query method).length : Int) ≤ count := by
  obtain ⟨schema, hschema, hvalid⟩ := db.catalog.registered binding hsole.mem.1
  have hnonneg := item_count_nonneg hvalid hcount
  cases hhits : db.hits binding query method with
  | nil => simpa using hnonneg
  | cons hit hits =>
      -- the first hit shows that the columns of the table have a schema
      obtain ⟨row, record, schema', hschema', hfetch, hencode⟩ :=
        db.live binding hsole.mem.1 query method hit (by rw [hhits]; exact List.mem_cons_self)
      rw [hschema] at hschema'
      cases hschema'
      obtain ⟨record', row', values, -, hrecord⟩ := scan_next_live
        ⟨binding, query, method, count, "exhaustive", schema, withScore schema, none, [], [], [],
          false, none⟩ rfl hfetch hencode
        (db.valid binding query method hit (by rw [hhits]; exact List.mem_cons_self)).2.2
      obtain ⟨-, outputSchema, -, houtput, -⟩ := project_columns (o := o)
        [.float hit.2] [⟨INTERNAL_SCORE_NAME, .FLOAT, none⟩] hrecord.fits 1 schema
          (fun _ hc => hc)
      have hplan := plan_all_rows (o := o) hsole hschema hexact hexhaustive hcount query hmethod
        houtput
      rw [← hhits]
      generalize hwide : (⟨binding, query, method, count, "exhaustive", schema, withScore schema,
        none, [], baseColumns schema, outputSchema, false, none⟩ : TextPlan) = plan at hplan
      have hfile : plan.binding = binding := by rw [← hwide]
      have hlist : hitsOf db plan = db.hits binding query method := by rw [← hwide]; rfl
      have hdistinct : plan.distinct = false := by rw [← hwide]
      have hlimit : plan.limit = none := by rw [← hwide]
      obtain ⟨records, hscan, hrecords⟩ := scan_hits (planned_of_ok hplan)
      obtain ⟨outs, houts⟩ : ∃ outs, records.mapM (o.projectNext plan) = .ok outs := by
        refine mapM_of_returns (fun r hr => ?_)
        obtain ⟨n, hn, rfl⟩ := List.mem_iff_getElem.mp hr
        have hn' : n < (hitsOf db plan).length := hrecords.length_eq ▸ hn
        obtain ⟨row, values, hr⟩ := (List.forall₂_iff_get.mp hrecords).2 n hn' hn
        have hbase : plan.baseSchema = schema := by rw [← hwide]
        rw [hbase] at hr
        exact project_record hr houtput (by rw [← hwide]) (by rw [← hwide]) (by rw [← hwide])
      have hall : o.rowsOf plan (db.fileOrg plan.binding.table) (hitsOf db plan) = .ok outs := by
        have hresidual : plan.residual = none := by rw [← hwide]
        have horder : plan.orderBy = [] := by rw [← hwide]
        rw [Operators.rowsOf, Operators.filtered, hresidual, hdistinct, hlimit]
        dsimp only
        rw [RowStream.map_of_mapM hscan, Operators.sorted, horder, if_pos List.isEmpty_nil,
          ok_bind, if_neg (by decide), RowStream.map_of_mapM houts]
        rfl
      obtain ⟨count', hcount', hiff⟩ := same_rows_iff (planned_of_ok hplan) hlimit hdistinct hall
      rw [hfile, hcount] at hcount'
      cases hcount'
      -- nothing is rejected without a residual predicate
      have hnone : (hitsOf db plan).drop count.toNat = [] := by
        refine List.eq_nil_iff_forall_not_mem.mpr (fun hit hhit => ?_)
        obtain ⟨predicate, record, hresidual, -⟩ := hiff.mp (hsame plan hplan) hit hhit
        rw [← hwide] at hresidual
        cases hresidual
      rw [← hlist]
      have := List.drop_eq_nil_iff.mp hnone
      omega

end Rows

/-- A planned statement has the rows of all candidates, whatever its residual predicate, its
order, DISTINCT, LIMIT and OFFSET, where the binding declares as many candidates as it needs.
Without LIMIT and DISTINCT it has them exactly if the candidates that are not declared are
rejected; and all statements have them exactly where no text index finds more hits than its
binding declares.  On every row the WHERE clause with its MATCH true has the truth value of the
residual predicate. -/
theorem ranked_rows_exact (o : Operators) (db : TextDatabase) :
    (∀ statement plan, o.planTextSearch db.catalog statement = .ok plan →
        (Covered db plan → SameRows o db plan) ∧
          (plan.limit = none → plan.distinct = false → ∀ rows,
            o.rowsOf plan (db.fileOrg plan.binding.table) (hitsOf db plan) = .ok rows →
            ∃ count, plan.binding.itemCount = some count ∧
              (SameRows o db plan ↔
                ∀ hit ∈ (hitsOf db plan).drop count.toNat, Rejected o db plan hit))) ∧
      ((∀ statement plan, o.planTextSearch db.catalog statement = .ok plan →
          SameRows o db plan) ↔ Declared db) ∧
      ∀ predicate found residual, splitMatch (some predicate) = .ok (found, residual) →
        ∀ row schema truth,
          evaluate o.env row schema (granted predicate) = .ok (.value (.bool truth)) ↔
            ResidualHolds o.env row schema truth residual := by
  refine ⟨fun statement plan hplan => ⟨fun hcovered => ?_, fun hlimit hdistinct rows hrows => ?_⟩,
    ⟨fun hsame => ?_, fun hdeclared statement plan hplan => ?_⟩, ?_⟩
  · exact same_rows (planned_of_ok hplan) (fun hneeds _ _ => hcovered hneeds)
  · exact same_rows_iff (planned_of_ok hplan) hlimit hdistinct hrows
  · intro binding hsole hexact hexhaustive count hcount query method hmethod
    exact declared_of_same hsole hexact hexhaustive hcount query method hmethod
      (fun plan hplan => hsame _ plan hplan)
  · have hplanned := planned_of_ok hplan
    refine same_rows hplanned (fun _ hexact hexhaustive count hcount => ?_)
    have hmethod : plan.method ∈ ["tf_idf", "bm25"] := by simpa using hplanned.method
    exact hdeclared plan.binding hplanned.sole hexact hexhaustive count hcount plan.query
      plan.method hmethod
  · intro predicate found residual hsplit row schema truth
    exact residual_meaning hsplit

/-! ## A document added to an empty table -/

/-- Numbers are of no account here. -/
def plainOperators : Operators where
  env := ⟨id, id, fun _ => 0, fun _ _ _ => .ok 0, .ok, fun _ _ => .ok false⟩
  lower := id
  exprText _ := ""

def bodySchema : List ColumnDef := [⟨"body", .TEXT, none⟩]

/-- A text index that was built when the table was empty. -/
def earlyIndex : RankedMetadata :=
  ⟨"docs_body", "docs", "body", "INVERTED", none, none, none, some 0, true, true, true⟩

/-- The record of a document. -/
def soupRecord : Record := [1, 4, 0, 0, 0, 115, 111, 117, 112]

/-- The table has one document, and every query finds it. -/
def oneDocument : TextDatabase where
  catalog := {
    tables := fun name => if name = "docs" then some bodySchema else none
    ready := [earlyIndex]
    pluginQueryKind := fun _ => none
    queryVectorizer := false
    registered := by
      intro binding hbinding
      rw [List.mem_singleton.mp hbinding]
      exact ⟨bodySchema, rfl, by decide⟩
    nodup := by decide }
  fileOrg _ := FileOrganization.empty.insert ⟨0, 0⟩ soupRecord
  hits _ _ _ := [(⟨0, 0⟩, 0)]
  nodup _ _ _ := by decide
  valid _ _ _ hit hhit := by
    rw [List.mem_singleton.mp hhit]
    decide
  descending _ _ _ := List.pairwise_singleton _ _
  live := by
    intro binding hbinding query method hit hhit
    rw [List.mem_singleton.mp hbinding, List.mem_singleton.mp hhit]
    exact ⟨[.str "soup"], soupRecord, bodySchema, rfl, rfl, rfl⟩

/-- Asking for all the documents that match finds none. -/
theorem inserted_row_missed : ¬ ∀ statement plan,
    plainOperators.planTextSearch oneDocument.catalog statement = .ok plan →
      SameRows plainOperators oneDocument plan := by
  intro hsame
  have hsole : Sole oneDocument.catalog earlyIndex := by
    refine ⟨by decide, fun schema hschema => ?_⟩
    cases hschema
    decide
  have hle := declared_of_same hsole rfl rfl rfl "soup" "bm25" (by decide)
    (fun plan hplan => hsame _ plan hplan)
  exact absurd hle (by decide)

end SoupDB
