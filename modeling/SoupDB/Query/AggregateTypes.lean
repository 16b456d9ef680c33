import SoupDB.Query.AggregateSchema

/-!
# SoupDB: the types of the aggregates

The columns of the Aggregate operator get their types when the query is planned, from the
expressions; the types of the values are decided by the rows.

Main fact: `aggregate_types_exact`.  The output rows have the types of their columns, and can
be encoded and read back, exactly where no SUM over a FLOAT column has a group with nothing
but NULL, no COUNT leaves the range of an INT, and the GROUP BY expressions have the types
that are inferred for them.
-/

namespace SoupDB

open List

open RecordFile (Record)

/-! ## Output rows as records -/

section Cells

mutual

/-- The cell of a value. -/
def datum : Value → Datum
  | .null => .null
  | .bool b => .bool b
  | .int i => .int i
  | .float bits => .float bits
  | .str s => .str s
  | .tuple items => .tuple (datums items)

def datums : List Value → List Datum
  | [] => []
  | item :: items => datum item :: datums items

end

/-- What a column expects, in the text of the error. -/
def expected : ColumnType → String
  | .INT => "INT"
  | .FLOAT => "FLOAT"
  | .BOOL => "BOOL"
  | .POINT => "POINT"
  | .VARCHAR | .TEXT => "text"

/-- `encodeValue` of an object; no column takes a polygon. -/
def encodeObject (column : ColumnDef) : Obj → Except PyError Bytes
  | .value v => Record.encodeValue (datum v) column
  | .polygon _ =>
      .error (.QueryExecutionError
        s!"column {reprStr column.name} expects {expected column.typeName}, got Polygon2D")

def encodeObjects : List Obj → List ColumnDef → Except PyError Bytes
  | obj :: row, column :: columns => do
      let bytes ← encodeObject column obj
      let rest ← encodeObjects row columns
      .ok (bytes ++ rest)
  | _, _ => .ok []

/-- `encode_row(row, schema)`. -/
def encodeOutput (schema : List ColumnDef) (row : List Obj) : Except PyError Record :=
  if row.length ≠ schema.length then
    .error (.QueryExecutionError
      s!"row has {row.length} values but schema expects {schema.length}")
  else encodeObjects row schema

/-- The row has the types of the columns, and is encoded and read back. -/
def RowFits (row : List Obj) (schema : List ColumnDef) : Prop :=
  (∃ values : Row, row = values.map Obj.value ∧ RowTyped values schema) ∧
    ∃ record cells, encodeOutput schema row = .ok record ∧
      Record.decodeRow record schema = .ok cells

/-- The value is of the type of the column, and within its range. -/
def Fits (v : Value) (column : ColumnDef) : Prop :=
  Record.WellTyped (datum v) column ∧ Record.TextFits (datum v)

/-- The object is a value that fits the column. -/
def ObjFits (obj : Obj) (column : ColumnDef) : Prop :=
  ∃ v, obj = .value v ∧ Fits v column

end Cells

variable {v : Value} {column : ColumnDef} {name : String} {obj : Obj} {values : List Obj}

/-- Two floats, where the cell is a point. -/
theorem tuple_of_datum {x y : UInt64} (h : datum v = .tuple [.float x, .float y]) :
    ∃ q r, v = .tuple [.float q, .float r] := by
  have hfloat : ∀ {v : Value} {bits : UInt64}, datum v = .float bits →
      ∃ q, v = .float q := by
    intro v bits h
    cases v with
    | float bits => exact ⟨bits, rfl⟩
    | _ => simp [datum] at h
  cases v with
  | tuple items =>
      rw [datum, Datum.tuple.injEq] at h
      match items with
      | [] => simp [datums] at h
      | [a] => simp [datums] at h
      | [a, b] =>
          simp only [datums, List.cons.injEq, and_true] at h
          obtain ⟨q, rfl⟩ := hfloat h.1
          obtain ⟨r, rfl⟩ := hfloat h.2
          exact ⟨q, r, rfl⟩
      | a :: b :: c :: items => simp [datums] at h
  | _ => simp [datum] at h

theorem Fits.typed (h : Fits v column) : HasColumnType v column.typeName := by
  obtain ⟨hd, _⟩ := h
  generalize hdatum : datum v = d at hd
  cases hd with
  | null =>
      cases v with
      | null => exact .null _
      | _ => simp [datum] at hdatum
  | int i htype hrange =>
      rw [htype]
      cases v with
      | int i => exact .int i
      | _ => simp [datum] at hdatum
  | float bits htype =>
      rw [htype]
      cases v with
      | float bits => exact .float bits
      | _ => simp [datum] at hdatum
  | bool b htype =>
      rw [htype]
      cases v with
      | bool b => exact .bool b
      | _ => simp [datum] at hdatum
  | point x y htype =>
      rw [htype]
      obtain ⟨q, r, rfl⟩ := tuple_of_datum hdatum
      exact .point q r
  | varchar s htype hlength =>
      rw [htype]
      cases v with
      | str s => exact .varchar s
      | _ => simp [datum] at hdatum
  | text s htype =>
      rw [htype]
      cases v with
      | str s => exact .text s
      | _ => simp [datum] at hdatum

theorem stored_datum {t : ColumnType} (h : HasColumnType v t) : (datum v).stored = datum v := by
  cases h with
  | _ => rfl

theorem Fits.retype {column' : ColumnDef} (h : Fits v column)
    (htype : column'.typeName = column.typeName)
    (hlength : ∀ n, column'.length = some n → column.length = some n) : Fits v column' := by
  obtain ⟨hd, hfits⟩ := h
  refine ⟨?_, hfits⟩
  clear hfits
  generalize datum v = d at hd ⊢
  cases hd with
  | null => exact .null _
  | int i ht hrange => exact .int i (htype.trans ht) hrange
  | float bits ht => exact .float bits (htype.trans ht)
  | bool b ht => exact .bool b (htype.trans ht)
  | point x y ht => exact .point x y (htype.trans ht)
  | varchar s ht hs =>
      exact .varchar s (htype.trans ht) (fun n hn => hs n (hlength n hn))
  | text s ht => exact .text s (htype.trans ht)

theorem encode_objects_values (values : Row) (columns : List ColumnDef) :
    encodeObjects (values.map Obj.value) columns =
      Record.encodeValues (values.map datum) columns := by
  induction values generalizing columns with
  | nil =>
      cases columns with
      | _ => rfl
  | cons v values ih =>
      cases columns with
      | nil => rfl
      | cons column columns =>
          rw [map_cons, map_cons, encodeObjects, ih columns]
          rfl

theorem encode_output_values (values : Row) (columns : List ColumnDef) :
    encodeOutput columns (values.map Obj.value) =
      Record.encodeRow (values.map datum) columns := by
  rw [encodeOutput, Record.encodeRow, length_map, length_map, encode_objects_values]

theorem rowFits_iff {row : List Obj} {schema : List ColumnDef} :
    RowFits row schema ↔ List.Forall₂ ObjFits row schema := by
  constructor
  · rintro ⟨⟨values, rfl, htyped⟩, record, cells, hencode, _⟩
    rw [encode_output_values, Record.encodeRow] at hencode
    split at hencode
    · cases hencode
    · next hlength =>
        obtain ⟨hwell, hfits, _⟩ := Record.typed_of_encode_values (not_not.mp hlength) hencode
        have hstored : (values.map datum).map Datum.stored =
            values.map datum := by
          rw [map_map]
          refine map_congr_left (fun v hv => ?_)
          obtain ⟨i, hi, rfl⟩ := mem_iff_getElem.mp hv
          have hi' : i < schema.length := htyped.length_eq ▸ hi
          exact stored_datum ((forall₂_iff_get.mp htyped).2 i hi hi')
        rw [hstored] at hwell hfits
        refine forall₂_map_left_iff.mpr ?_
        refine forall₂_iff_get.mpr ⟨htyped.length_eq, fun i hi hi' => ?_⟩
        refine ⟨_, rfl, ?_, hfits _ (mem_map_of_mem (get_mem _ _))⟩
        have hget := (forall₂_iff_get.mp hwell).2 i (by simpa using hi) hi'
        simpa using hget
  · intro h
    have hvalues : ∃ values : Row, row = values.map Obj.value ∧
        List.Forall₂ Fits values schema := by
      induction h with
      | nil => exact ⟨[], rfl, List.Forall₂.nil⟩
      | cons hobj _ ih =>
          obtain ⟨v, rfl, hv⟩ := hobj
          obtain ⟨values, rfl, hall⟩ := ih
          exact ⟨v :: values, rfl, List.Forall₂.cons hv hall⟩
    obtain ⟨values, rfl, hall⟩ := hvalues
    refine ⟨⟨values, rfl, hall.imp (fun _ _ hv => hv.typed)⟩, ?_⟩
    have hwell : List.Forall₂ Record.WellTyped (values.map datum) schema :=
      forall₂_map_left_iff.mpr (hall.imp (fun _ _ hv => hv.1))
    obtain ⟨data, hencode, hdecode⟩ := Record.decode_row_of_typed hwell (by
      intro d hd
      obtain ⟨v, hv, rfl⟩ := mem_map.mp hd
      obtain ⟨i, hi, rfl⟩ := mem_iff_getElem.mp hv
      have hi' : i < schema.length := hall.length_eq ▸ hi
      exact ((forall₂_iff_get.mp hall).2 i hi hi').2)
    exact ⟨data, _, by rw [encode_output_values, hencode], hdecode⟩

/-! ## The GROUP BY keys -/

/-- The rows of a table hold values that fit its columns. -/
def StoredRow (row : Row) (schema : List ColumnDef) : Prop :=
  List.Forall₂ Fits row schema

def InRange (i : Int) : Prop := -(2 ^ 31) ≤ i ∧ i < 2 ^ 31

/-- The expression has the type that is inferred for it, and a literal the range. -/
def GroupKeyFits : Expr → Prop
  | .Literal (.int i) => InRange i
  | .Literal (.str s) => Record.TextFits (.str s)
  | .Literal (.tuple _) => False
  | .IntersectsExpr _ _ => False
  | .PolygonExpr _ => False
  | _ => True

theorem objFits_value : ObjFits (.value v) column ↔ Fits v column := by
  constructor
  · rintro ⟨w, hw, hfits⟩
    cases hw
    exact hfits
  · intro h
    exact ⟨v, rfl, h⟩

theorem textFits_of_ne {d : Datum} (h : ∀ s, d ≠ .str s) : Record.TextFits d :=
  fun s hs => absurd hs (h s)

theorem fits_null (column : ColumnDef) : Fits .null column :=
  ⟨.null column, textFits_of_ne (by simp [datum])⟩

theorem fits_bool (b : Bool) : Fits (.bool b) column ↔ column.typeName = .BOOL := by
  constructor
  · intro h
    cases htyped : column.typeName with
    | BOOL => rfl
    | _ =>
        have := h.typed
        rw [htyped] at this
        cases this
  · intro h
    exact ⟨.bool b h, textFits_of_ne (by simp [datum])⟩

theorem fits_float {bits : UInt64} : Fits (.float bits) column ↔ column.typeName = .FLOAT := by
  constructor
  · intro h
    cases htyped : column.typeName with
    | FLOAT => rfl
    | _ =>
        have := h.typed
        rw [htyped] at this
        cases this
  · intro h
    exact ⟨.float _ h, textFits_of_ne (by simp [datum])⟩

theorem fits_point (x y : UInt64) (h : column.typeName = .POINT) :
    Fits (.tuple [.float x, .float y]) column :=
  ⟨.point _ _ h, textFits_of_ne (by simp [datum])⟩

theorem fits_int (i : Int) : Fits (.int i) column ↔ column.typeName = .INT ∧ InRange i := by
  constructor
  · rintro ⟨h, _⟩
    rw [datum] at h
    cases h with
    | int _ htype hrange => exact ⟨htype, hrange⟩
  · rintro ⟨htype, hrange⟩
    exact ⟨.int i htype hrange, textFits_of_ne (by simp [datum])⟩

theorem column_value_fits {row : Row} {schema : List ColumnDef} (hrow : StoredRow row schema)
    (hvalue : columnValue name row schema = .ok v) (hcolumn : findColumn name schema = .ok column) :
    Fits v column := by
  have hfind := find_column_eq_ok.mp hcolumn
  rw [columnValue] at hvalue
  split at hvalue
  · next index hindex =>
      split at hvalue
      · next found hfound =>
          cases hvalue
          obtain ⟨hi, rfl⟩ := List.getElem?_eq_some_iff.mp hfound
          obtain ⟨hi', hname, hbefore⟩ := findIdx?_eq_some_iff_getElem.mp hindex
          obtain ⟨_, j, hj, rfl, hbefore'⟩ := find?_eq_some_iff_getElem.mp hfind
          have hij : index = j := by
            rcases lt_trichotomy index j with hlt | heq | hlt
            · have := hbefore' index hlt
              simp [hname] at this
            · exact heq
            · have hj' := hbefore j hlt
              have := find?_some hfind
              simp [this] at hj'
          subst hij
          exact (forall₂_iff_get.mp hrow).2 index hi hi'
      · cases hvalue
  · cases hvalue

theorem key_fits {env : Environment} {row : Row} {schema : List ColumnDef} {index : Nat}
    {expr : Expr} (hrow : StoredRow row schema)
    (hcolumn : groupColumn schema index expr = .ok column)
    (hobj : evaluate env row schema expr = .ok obj) :
    ObjFits obj column ↔ GroupKeyFits expr := by
  cases expr with
  | ColumnRef name =>
      rw [evaluate] at hobj
      obtain ⟨v, hv, hobj⟩ := bind_eq_ok.mp hobj
      cases hobj
      exact iff_of_true (objFits_value.mpr (column_value_fits hrow hv hcolumn)) trivial
  | Literal value =>
      cases hcolumn
      rw [evaluate] at hobj
      cases hobj
      rw [objFits_value]
      cases value with
      | null => exact iff_of_true (fits_null _) trivial
      | bool b => exact iff_of_true ((fits_bool b).mpr rfl) trivial
      | int i =>
          rw [fits_int]
          exact and_iff_right rfl
      | float bits => exact iff_of_true (fits_float.mpr rfl) trivial
      | str s =>
          constructor
          · intro h
            exact h.2
          · intro h
            exact ⟨.text s rfl, h⟩
      | tuple items =>
          refine iff_of_false (fun h => ?_) (fun h => h)
          have := h.typed
          cases this
  | BoundScoreExpr position kind =>
      cases hcolumn
      rw [evaluate] at hobj
      obtain ⟨score, hscore, hobj⟩ := bind_eq_ok.mp hobj
      cases hobj
      obtain ⟨q, rfl⟩ : ∃ q, score = .float q := by
        rw [boundScore] at hscore
        split at hscore
        · cases hscore
        · split at hscore
          · split at hscore
            · cases hscore
            · split at hscore
              · split at hscore
                · cases hscore
                  exact ⟨_, rfl⟩
                · cases hscore
              · cases hscore
              · cases hscore
          · cases hscore
      exact iff_of_true (objFits_value.mpr (fits_float.mpr rfl)) trivial
  | PointExpr x y =>
      cases hcolumn
      rw [evaluate] at hobj
      obtain ⟨_, _, hobj⟩ := bind_eq_ok.mp hobj
      obtain ⟨_, _, hobj⟩ := bind_eq_ok.mp hobj
      obtain ⟨_, _, hobj⟩ := bind_eq_ok.mp hobj
      obtain ⟨_, _, hobj⟩ := bind_eq_ok.mp hobj
      obtain ⟨x, _, hobj⟩ := bind_eq_ok.mp hobj
      obtain ⟨y, _, hobj⟩ := bind_eq_ok.mp hobj
      cases hobj
      exact iff_of_true (objFits_value.mpr (fits_point x y rfl)) trivial
  | DistanceExpr left right metric =>
      cases hcolumn
      rw [evaluate] at hobj
      obtain ⟨left, _, hobj⟩ := bind_eq_ok.mp hobj
      obtain ⟨right, _, hobj⟩ := bind_eq_ok.mp hobj
      rw [distanceValue] at hobj
      split at hobj
      · cases hobj
        exact iff_of_true (objFits_value.mpr (fits_null _)) trivial
      · obtain ⟨_, _, hobj⟩ := bind_eq_ok.mp hobj
        obtain ⟨_, _, hobj⟩ := bind_eq_ok.mp hobj
        obtain ⟨q, _, hobj⟩ := bind_eq_ok.mp hobj
        cases hobj
        exact iff_of_true (objFits_value.mpr (fits_float.mpr rfl)) trivial
  | PolygonExpr vertices =>
      rw [evaluate] at hobj
      obtain ⟨_, _, hobj⟩ := bind_eq_ok.mp hobj
      obtain ⟨_, _, hobj⟩ := bind_eq_ok.mp hobj
      cases hobj
      refine iff_of_false ?_ (fun h => h)
      rintro ⟨v, hv, _⟩
      cases hv
  | IntersectsExpr left right =>
      cases hcolumn
      rw [evaluate] at hobj
      obtain ⟨_, _, hobj⟩ := bind_eq_ok.mp hobj
      obtain ⟨_, _, hobj⟩ := bind_eq_ok.mp hobj
      obtain ⟨b, _, hobj⟩ := bind_eq_ok.mp hobj
      cases hobj
      refine iff_of_false ?_ (fun h => h)
      rw [objFits_value, fits_bool]
      exact ColumnType.noConfusion
  | CompareExpr left op right | LikeExpr left right =>
      cases hcolumn
      rw [evaluate] at hobj
      obtain ⟨_, _, hobj⟩ := bind_eq_ok.mp hobj
      obtain ⟨_, _, hobj⟩ := bind_eq_ok.mp hobj
      obtain ⟨b, _, hobj⟩ := bind_eq_ok.mp hobj
      cases hobj
      exact iff_of_true (objFits_value.mpr ((fits_bool b).mpr rfl)) trivial
  | LogicalExpr left op right | BetweenExpr left op right =>
      cases hcolumn
      rw [evaluate] at hobj
      obtain ⟨_, _, hobj⟩ := bind_eq_ok.mp hobj
      obtain ⟨_, _, hobj⟩ := bind_eq_ok.mp hobj
      obtain ⟨_, _, hobj⟩ := bind_eq_ok.mp hobj
      obtain ⟨_, _, hobj⟩ := bind_eq_ok.mp hobj
      cases hobj
      exact iff_of_true (objFits_value.mpr ((fits_bool _).mpr rfl)) trivial
  | InExpr value items =>
      cases hcolumn
      rw [evaluate] at hobj
      obtain ⟨_, _, hobj⟩ := bind_eq_ok.mp hobj
      obtain ⟨_, _, hobj⟩ := bind_eq_ok.mp hobj
      obtain ⟨_, _, hobj⟩ := bind_eq_ok.mp hobj
      cases hobj
      exact iff_of_true (objFits_value.mpr ((fits_bool _).mpr rfl)) trivial
  | NotExpr operand =>
      cases hcolumn
      rw [evaluate] at hobj
      obtain ⟨_, _, hobj⟩ := bind_eq_ok.mp hobj
      obtain ⟨_, _, hobj⟩ := bind_eq_ok.mp hobj
      cases hobj
      exact iff_of_true (objFits_value.mpr ((fits_bool _).mpr rfl)) trivial
  | _ =>
      simp only [evaluate] at hobj
      cases hobj

/-! ## The aggregates -/

/-- An aggregate of a column, or `COUNT(*)`. -/
structure OverColumn (env : Environment) (agg : Aggregation) : Prop where
  name : env.upper agg.name ∈ AGGREGATES
  star : agg.arg = none → env.upper agg.name = "COUNT"
  column : ∀ arg, agg.arg = some arg → ∃ name, arg = .ColumnRef name

/-- `list(set(values))` has values of the list, and one if the list has. -/
structure ListOfSet (distinct : List Obj → List Obj) : Prop where
  mem : ∀ values v, v ∈ distinct values → v ∈ values
  nonempty : ∀ values, values ≠ [] → distinct values ≠ []

section Aggregates

variable (env : Environment)

/-- The values that an aggregate takes: those that are not NULL, or a set of them. -/
def selected (agg : Aggregation) (arg : Expr) (rows : List Row) (schema : List ColumnDef) :
    List Obj :=
  let values := rows.filterMap (fun row =>
    match evaluate env row schema arg with
    | .ok value => if value.isNone then none else some value
    | .error _ => none)
  if agg.distinct then env.distinct values else values

def counted (agg : Aggregation) (rows : List Row) (schema : List ColumnDef) : Nat :=
  match agg.arg with
  | none => rows.length
  | some arg => (selected env agg arg rows schema).length

/-- A COUNT within the range of an INT, and a SUM over a FLOAT column with a value that is
not NULL. -/
structure AggregateFits (agg : Aggregation) (rows : List Row) (schema : List ColumnDef) :
    Prop where
  count : env.upper agg.name = "COUNT" → counted env agg rows schema < 2 ^ 31
  sum : env.upper agg.name = "SUM" → ∀ name column, agg.arg = some (.ColumnRef name) →
    findColumn name schema = .ok column → column.typeName = .FLOAT →
    ∃ row ∈ rows, ∃ v, columnValue name row schema = .ok v ∧ v ≠ .null

end Aggregates

variable {env : Environment} {agg : Aggregation} {rows : List Row} {schema : List ColumnDef}

theorem filter_of_mapM {f : Row → Except PyError Obj} {objs : List Obj}
    (h : rows.mapM f = .ok objs) :
    objs.filter (fun value => !value.isNone) = rows.filterMap (fun row =>
      match f row with
      | .ok value => if value.isNone then none else some value
      | .error _ => none) := by
  induction rows generalizing objs with
  | nil =>
      cases h
      rfl
  | cons row rows ih =>
      rw [mapM_cons] at h
      obtain ⟨value, hvalue, h⟩ := bind_eq_ok.mp h
      obtain ⟨rest, hrest, h⟩ := bind_eq_ok.mp h
      cases h
      rw [filterMap_cons, hvalue]
      cases hnone : value.isNone with
      | true =>
          rw [filter_cons_of_neg (by simp [hnone]), ih hrest]
          simp [hnone]
      | false =>
          rw [filter_cons_of_pos (by simp [hnone]), ih hrest]
          simp [hnone]

theorem evaluate_aggregate_selected {arg : Expr} (hname : env.upper agg.name ∈ AGGREGATES)
    (harg : agg.arg = some arg) (h : evaluateAggregate env agg rows schema = .ok obj) :
    (if env.upper agg.name = "COUNT" then
        .ok (.value (.int (selected env agg arg rows schema).length))
      else if env.upper agg.name = "SUM" then sumValues env (selected env agg arg rows schema)
      else if env.upper agg.name = "AVG" then avgValues env (selected env agg arg rows schema)
      else if env.upper agg.name = "MIN" then
        minOrMax (selected env agg arg rows schema) "MIN"
      else minOrMax (selected env agg arg rows schema) "MAX") = .ok obj := by
  simp only [evaluateAggregate, if_neg (not_not.mpr hname), harg] at h
  obtain ⟨objs, hobjs, h⟩ := bind_eq_ok.mp h
  rw [filter_of_mapM hobjs] at h
  exact h

theorem mem_selected (hset : ListOfSet env.distinct) {value : Obj}
    (h : value ∈ selected env agg (.ColumnRef name) rows schema) :
    ∃ row ∈ rows, ∃ v, value = .value v ∧ columnValue name row schema = .ok v ∧ v ≠ .null := by
  have hmem : value ∈ rows.filterMap (fun row =>
      match evaluate env row schema (.ColumnRef name) with
      | .ok value => if value.isNone then none else some value
      | .error _ => none) := by
    rw [selected] at h
    split at h
    · exact hset.mem _ _ h
    · exact h
  obtain ⟨row, hrow, hvalue⟩ := mem_filterMap.mp hmem
  refine ⟨row, hrow, ?_⟩
  rw [evaluate] at hvalue
  cases hcolumn : columnValue name row schema with
  | error e =>
      rw [hcolumn] at hvalue
      cases hvalue
  | ok v =>
      rw [hcolumn, ok_bind] at hvalue
      dsimp only at hvalue
      split at hvalue
      · cases hvalue
      · next hnone =>
          cases hvalue
          refine ⟨v, rfl, rfl, ?_⟩
          rintro rfl
          exact hnone rfl

theorem selected_ne_nil (hset : ListOfSet env.distinct) :
    selected env agg (.ColumnRef name) rows schema ≠ [] ↔
      ∃ row ∈ rows, ∃ v, columnValue name row schema = .ok v ∧ v ≠ .null := by
  constructor
  · intro h
    obtain ⟨value, hvalue⟩ := exists_mem_of_ne_nil _ h
    obtain ⟨row, hrow, v, _, hv, hnull⟩ := mem_selected hset hvalue
    exact ⟨row, hrow, v, hv, hnull⟩
  · rintro ⟨row, hrow, v, hv, hnull⟩
    have hmem : Obj.value v ∈ rows.filterMap (fun row =>
        match evaluate env row schema (.ColumnRef name) with
        | .ok value => if value.isNone then none else some value
        | .error _ => none) := by
      refine mem_filterMap.mpr ⟨row, hrow, ?_⟩
      rw [evaluate, hv, ok_bind]
      dsimp only
      rw [if_neg]
      cases v with
      | null => exact absurd rfl hnull
      | _ => exact Bool.false_ne_true
    rw [selected]
    split
    · exact hset.nonempty _ (ne_nil_of_mem hmem)
    · exact ne_nil_of_mem hmem

/-- What `pick` gives is one of the objects. -/
theorem pick_mem {before : Obj → Obj → Except PyError Bool} :
    ∀ {values : List Obj} {best obj : Obj}, pick before best values = .ok obj →
      obj ∈ best :: values
  | [], best, obj, h => by
      cases h
      exact mem_singleton_self _
  | value :: values, best, obj, h => by
      rw [pick] at h
      obtain ⟨better, _, h⟩ := bind_eq_ok.mp h
      have hmem := pick_mem h
      cases better with
      | true =>
          rcases mem_cons.mp hmem with rfl | hmem
          · exact mem_cons_of_mem _ mem_cons_self
          · exact mem_cons_of_mem _ (mem_cons_of_mem _ hmem)
      | false =>
          rcases mem_cons.mp hmem with rfl | hmem
          · exact mem_cons_self
          · exact mem_cons_of_mem _ (mem_cons_of_mem _ hmem)

theorem min_or_max_mem (h : minOrMax values name = .ok obj) : obj ∈ values := by
  cases values with
  | nil => cases h
  | cons first values =>
      rw [minOrMax] at h
      obtain ⟨_, _, h⟩ := bind_eq_ok.mp h
      exact pick_mem h

/-- A sum of integers is an integer. -/
theorem total_int {i : Int} (h : ∀ v ∈ values, ∃ j, v = .value (.int j)) :
    ∃ j, values.foldl (fun total value => plus total (numberValue value)) (.int i) = .int j := by
  induction values generalizing i with
  | nil => exact ⟨i, rfl⟩
  | cons value values ih =>
      obtain ⟨⟨j, rfl⟩, hrest⟩ := forall_mem_cons.mp h
      rw [foldl_cons]
      exact ih hrest

/-- What SUM gives for the values of a column: a FLOAT for FLOAT values, an integer without
any, and an integer for those of another column. -/
theorem sum_values_typed {t : ColumnType}
    (htyped : ∀ value ∈ values, ∃ v, value = .value v ∧ HasColumnType v t ∧ v ≠ .null)
    (h : sumValues env values = .ok obj) :
    if t = .FLOAT ∧ values ≠ [] then ∃ q, obj = .value (.float q)
    else ∃ i, obj = .value (.int i) := by
  rw [sumValues] at h
  cases values with
  | nil =>
      cases h
      rw [if_neg (by simp)]
      exact ⟨0, rfl⟩
  | cons first values =>
      rw [if_neg (by simp)] at h
      split at h
      · cases h
      · next hnumbers =>
          rw [Bool.not_eq_true', Bool.not_eq_false] at hnumbers
          by_cases hfloat : t = .FLOAT
          · rw [if_pos ⟨hfloat, cons_ne_nil _ _⟩]
            have hany : (first :: values).any isFloat = true := by
              obtain ⟨v, rfl, hv, hnull⟩ := htyped first mem_cons_self
              rw [hfloat] at hv
              cases hv with
              | null => exact absurd rfl hnull
              | float bits => rfl
            rw [hany] at h
            obtain ⟨_, _, h⟩ := bind_eq_ok.mp h
            cases h
            exact ⟨_, rfl⟩
          · rw [if_neg (fun hboth => hfloat hboth.1)]
            have hint : ∀ v ∈ first :: values, ∃ j, v = .value (.int j) := by
              intro value hvalue
              obtain ⟨v, rfl, hv, hnull⟩ := htyped value hvalue
              have hnumber := all_eq_true.mp hnumbers _ hvalue
              cases hv with
              | null => exact absurd rfl hnull
              | int i => exact ⟨i, rfl⟩
              | float bits => exact absurd rfl hfloat
              | _ => cases hnumber
            have hany : (first :: values).any isFloat = false := by
              rw [any_eq_false]
              intro value hvalue
              obtain ⟨j, rfl⟩ := hint value hvalue
              exact Bool.false_ne_true
            obtain ⟨j, hj⟩ := total_int (i := 0) hint
            rw [hany] at h
            cases h
            exact ⟨j, congrArg (fun total => Obj.value (Total.value env total)) hj⟩

theorem evaluate_count (hname : env.upper agg.name = "COUNT")
    (h : evaluateAggregate env agg rows schema = .ok obj) :
    obj = .value (.int (counted env agg rows schema)) := by
  cases harg : agg.arg with
  | none =>
      simp only [evaluateAggregate, hname, harg] at h
      cases h
      simp only [counted, harg]
  | some arg =>
      have hselected := evaluate_aggregate_selected (hname ▸ by decide) harg h
      rw [if_pos hname] at hselected
      cases hselected
      simp only [counted, harg]

theorem AggregateFits.of_other (hcount : env.upper agg.name ≠ "COUNT")
    (hsum : env.upper agg.name ≠ "SUM") : AggregateFits env agg rows schema :=
  ⟨fun h => absurd h hcount, fun h => absurd h hsum⟩

section Fits

variable {lower : String → String} {index : Nat} {column : ColumnDef} {obj : Obj}

theorem count_fits (hname : env.upper agg.name = "COUNT")
    (hcolumn : aggregateColumn env lower schema index agg = .ok column)
    (hobj : evaluateAggregate env agg rows schema = .ok obj) :
    ObjFits obj column ↔ AggregateFits env agg rows schema := by
  rw [aggregateColumn] at hcolumn
  obtain ⟨typeName, htype, hcolumn⟩ := bind_eq_ok.mp hcolumn
  cases hcolumn
  simp only [aggregateOutputType, hname, if_true] at htype
  cases htype
  rw [evaluate_count hname hobj, objFits_value, fits_int, and_iff_right rfl]
  constructor
  · intro h
    refine ⟨fun _ => by have := h.2; omega, fun hsum => ?_⟩
    rw [hname] at hsum
    exact absurd hsum (by decide)
  · intro h
    have hlt := h.count hname
    exact ⟨by omega, by omega⟩

variable {name : String}

theorem selected_fits (hset : ListOfSet env.distinct) {source : ColumnDef}
    (hrows : ∀ row ∈ rows, StoredRow row schema) (hsource : findColumn name schema = .ok source) :
    ∀ value ∈ selected env agg (.ColumnRef name) rows schema,
      ∃ v, value = .value v ∧ Fits v source ∧ v ≠ .null := by
  intro value hvalue
  obtain ⟨row, hrow, v, rfl, hv, hnull⟩ := mem_selected hset hvalue
  exact ⟨v, rfl, column_value_fits (hrows row hrow) hv hsource, hnull⟩

theorem sum_fits (hset : ListOfSet env.distinct) (hname : env.upper agg.name = "SUM")
    (harg : agg.arg = some (.ColumnRef name)) (hrows : ∀ row ∈ rows, StoredRow row schema)
    (hcolumn : aggregateColumn env lower schema index agg = .ok column)
    (hobj : evaluateAggregate env agg rows schema = .ok obj)
    (hsum : ∀ i, obj = .value (.int i) → InRange i) :
    ObjFits obj column ↔ AggregateFits env agg rows schema := by
  have hnot : env.upper agg.name ≠ "COUNT" := by
    rw [hname]
    decide
  have hselected := evaluate_aggregate_selected (hname ▸ by decide) harg hobj
  simp only [hname, String.reduceEq, if_false, if_true] at hselected
  rw [aggregateColumn] at hcolumn
  obtain ⟨typeName, htype, hcolumn⟩ := bind_eq_ok.mp hcolumn
  cases hcolumn
  simp only [aggregateOutputType, hname, String.reduceEq, or_self, if_false, if_true, harg]
    at htype
  obtain ⟨source, hsource, htype⟩ := bind_eq_ok.mp htype
  cases htype
  have hsource' : findColumn name schema = .ok source := hsource
  have htyped := sum_values_typed (t := source.typeName) (by
    intro value hvalue
    obtain ⟨v, rfl, hfits, hnull⟩ := selected_fits hset hrows hsource' value hvalue
    exact ⟨v, rfl, hfits.typed, hnull⟩) hselected
  by_cases hfloat : source.typeName = .FLOAT
  · by_cases hne : selected env agg (.ColumnRef name) rows schema ≠ []
    · rw [if_pos ⟨hfloat, hne⟩] at htyped
      obtain ⟨q, rfl⟩ := htyped
      refine iff_of_true (objFits_value.mpr (fits_float.mpr (if_pos hfloat)))
        ⟨fun h => absurd h hnot, ?_⟩
      intro _ name' column' harg' _ _
      rw [harg] at harg'
      cases harg'
      exact (selected_ne_nil hset).mp hne
    · rw [if_neg (fun hboth => hne hboth.2)] at htyped
      obtain ⟨i, rfl⟩ := htyped
      refine iff_of_false ?_ ?_
      · rw [objFits_value, fits_int, if_pos hfloat]
        rintro ⟨h, _⟩
        cases h
      · intro h
        exact hne ((selected_ne_nil hset).mpr (h.sum hname name source harg hsource' hfloat))
  · rw [if_neg (fun hboth => hfloat hboth.1)] at htyped
    obtain ⟨i, rfl⟩ := htyped
    refine iff_of_true (objFits_value.mpr ((fits_int i).mpr ⟨if_neg hfloat, hsum i rfl⟩))
      ⟨fun h => absurd h hnot, ?_⟩
    intro _ name' column' harg' hcolumn' hfloat'
    rw [harg] at harg'
    cases harg'
    rw [hsource'] at hcolumn'
    cases hcolumn'
    exact absurd hfloat' hfloat

theorem avg_fits (hname : env.upper agg.name = "AVG") {arg : Expr} (harg : agg.arg = some arg)
    (hcolumn : aggregateColumn env lower schema index agg = .ok column)
    (hobj : evaluateAggregate env agg rows schema = .ok obj) : ObjFits obj column := by
  have hselected := evaluate_aggregate_selected (hname ▸ by decide) harg hobj
  simp only [hname, String.reduceEq, if_false, if_true] at hselected
  rw [aggregateColumn] at hcolumn
  obtain ⟨typeName, htype, hcolumn⟩ := bind_eq_ok.mp hcolumn
  cases hcolumn
  simp only [aggregateOutputType, hname, String.reduceEq, if_false, if_true] at htype
  cases htype
  rw [avgValues] at hselected
  split at hselected
  · cases hselected
  · split at hselected
    · cases hselected
    · obtain ⟨_, _, hselected⟩ := bind_eq_ok.mp hselected
      cases hselected
      exact objFits_value.mpr (fits_float.mpr rfl)

theorem extreme_fits (hset : ListOfSet env.distinct)
    (hname : env.upper agg.name = "MIN" ∨ env.upper agg.name = "MAX")
    (harg : agg.arg = some (.ColumnRef name)) (hrows : ∀ row ∈ rows, StoredRow row schema)
    (hcolumn : aggregateColumn env lower schema index agg = .ok column)
    (hobj : evaluateAggregate env agg rows schema = .ok obj) : ObjFits obj column := by
  have hmem : obj ∈ selected env agg (.ColumnRef name) rows schema := by
    rcases hname with hname | hname
    all_goals
      have hselected := evaluate_aggregate_selected (hname ▸ by decide) harg hobj
      simp only [hname, String.reduceEq, if_false, if_true] at hselected
      exact min_or_max_mem hselected
  rw [aggregateColumn] at hcolumn
  obtain ⟨typeName, htype, hcolumn⟩ := bind_eq_ok.mp hcolumn
  cases hcolumn
  have htype' : ∃ source, findColumn name schema = .ok source ∧ typeName = source.typeName := by
    rcases hname with hname | hname
    all_goals
      simp only [aggregateOutputType, hname, String.reduceEq, true_or, or_true, if_false,
        if_true, harg] at htype
      obtain ⟨source, hsource, htype⟩ := bind_eq_ok.mp htype
      cases htype
      exact ⟨source, hsource, rfl⟩
  obtain ⟨source, hsource, rfl⟩ := htype'
  obtain ⟨v, rfl, hfits, _⟩ := selected_fits hset hrows hsource obj hmem
  exact objFits_value.mpr (hfits.retype rfl (fun _ hn => by cases hn))

theorem aggregate_fits (hset : ListOfSet env.distinct) (hover : OverColumn env agg)
    (hrows : ∀ row ∈ rows, StoredRow row schema)
    (hcolumn : aggregateColumn env lower schema index agg = .ok column)
    (hobj : evaluateAggregate env agg rows schema = .ok obj)
    (hsum : env.upper agg.name = "SUM" → ∀ i, obj = .value (.int i) → InRange i) :
    ObjFits obj column ↔ AggregateFits env agg rows schema := by
  by_cases hcount : env.upper agg.name = "COUNT"
  · exact count_fits hcount hcolumn hobj
  · obtain ⟨arg, harg⟩ := Option.ne_none_iff_exists'.mp (fun h => hcount (hover.star h))
    obtain ⟨name, rfl⟩ := hover.column arg harg
    by_cases hsum' : env.upper agg.name = "SUM"
    · exact sum_fits hset hsum' harg hrows hcolumn hobj (hsum hsum')
    · refine iff_of_true ?_ (AggregateFits.of_other hcount hsum')
      have hname := hover.name
      simp only [AGGREGATES, mem_cons, not_mem_nil, or_false] at hname
      rcases hname with hname | hname | hname | hname
      · exact absurd hname hcount
      · exact absurd hname hsum'
      · exact avg_fits hname harg hcolumn hobj
      · exact extreme_fits hset hname harg hrows hcolumn hobj

end Fits

/-! ## The output rows -/

theorem forall₂_columns {α : Type} {column : Nat → α → Except PyError ColumnDef}
    {value : α → Except PyError Obj} {P : α → Prop} {xs : List α} :
    ∀ {index : Nat} {columns : List ColumnDef} {objs : List Obj},
      (∀ x ∈ xs, ∀ index c obj, column index x = .ok c → value x = .ok obj →
        (ObjFits obj c ↔ P x)) →
      columnsFrom column index xs = .ok columns → xs.mapM value = .ok objs →
      (List.Forall₂ ObjFits objs columns ↔ ∀ x ∈ xs, P x) := by
  induction xs with
  | nil =>
      intro index columns objs _ hcolumns hobjs
      cases hcolumns
      cases hobjs
      exact iff_of_true List.Forall₂.nil (by simp)
  | cons x xs ih =>
      intro index columns objs h hcolumns hobjs
      obtain ⟨hx, hxs⟩ := forall_mem_cons.mp h
      rw [columnsFrom] at hcolumns
      obtain ⟨c, hc, hcolumns⟩ := bind_eq_ok.mp hcolumns
      obtain ⟨cs, hcs, hcolumns⟩ := bind_eq_ok.mp hcolumns
      cases hcolumns
      rw [mapM_cons] at hobjs
      obtain ⟨obj, hobj, hobjs⟩ := bind_eq_ok.mp hobjs
      obtain ⟨rest, hrest, hobjs⟩ := bind_eq_ok.mp hobjs
      cases hobjs
      rw [forall₂_cons, hx _ _ _ hc hobj, ih hxs hcs hrest, forall_mem_cons]

namespace AggregateOperator

variable {a : AggregateOperator}

/-- What is known of a group: its rows are rows of the input, and so is one with its key. -/
def OfRows (a : AggregateOperator) (input : Row → Prop) (group : List Obj × List Row) : Prop :=
  (∀ row ∈ group.2, input row) ∧
    ((a.groupBy = [] ∧ group.1 = []) ∨ ∃ row, input row ∧ a.keys row = .ok group.1)

variable {input : Row → Prop} {groups : List (List Obj × List Row)} {records : List Record}
    {lower : String → String}

theorem ofRows_setGroup {key : List Obj} {row : Row} (hrow : input row)
    (hkey : a.keys row = .ok key) {rows : List Row} (hrows : ∀ r ∈ rows, input r)
    (h : ∀ g ∈ groups, a.OfRows input g) :
    ∀ g ∈ setGroup eqKeys key (rows ++ [row]) groups, a.OfRows input g := by
  have hnew : ∀ r ∈ rows ++ [row], input r := by
    intro r hr
    rcases mem_append.mp hr with hr | hr
    · exact hrows r hr
    · rw [mem_singleton.mp hr]
      exact hrow
  induction groups with
  | nil =>
      intro g hg
      rw [mem_singleton.mp hg]
      exact ⟨hnew, Or.inr ⟨row, hrow, hkey⟩⟩
  | cons first groups ih =>
      obtain ⟨hfirst, hrest⟩ := forall_mem_cons.mp h
      rw [setGroup]
      split
      · exact forall_mem_cons.mpr ⟨⟨hnew, hfirst.2⟩, hrest⟩
      · exact forall_mem_cons.mpr ⟨hfirst, ih hrest⟩

theorem ofRows_group_rows :
    ∀ {groups groups' : List (List Obj × List Row)},
      (∀ record ∈ records, ∀ row, a.decodeRow record = .ok row → input row) →
      (∀ g ∈ groups, a.OfRows input g) → a.groupRows records groups = .ok groups' →
      ∀ g ∈ groups', a.OfRows input g := by
  induction records with
  | nil =>
      intro groups groups' _ h hgroups
      cases hgroups
      exact h
  | cons record records ih =>
      intro groups groups' hinput h hgroups
      obtain ⟨hfirst, hrest⟩ := forall_mem_cons.mp hinput
      rw [AggregateOperator.groupRows] at hgroups
      obtain ⟨row, hrow, hgroups⟩ := bind_eq_ok.mp hgroups
      obtain ⟨key, hkey, hgroups⟩ := bind_eq_ok.mp hgroups
      refine ih hrest (ofRows_setGroup (hfirst row hrow) hkey ?_ h) hgroups
      intro r hr
      rw [getGroup] at hr
      cases hfind : groups.find? (fun g => eqKeys g.1 key) with
      | none =>
          rw [hfind] at hr
          cases hr
      | some g =>
          rw [hfind] at hr
          exact (h g (mem_of_find?_eq_some hfind)).1 r hr

/-- A group whose COUNTs, SUMs and keys fit their columns. -/
structure GroupFits (a : AggregateOperator) (rows : List Row) : Prop where
  keys : ∀ expr ∈ a.groupBy, GroupKeyFits expr
  aggregates : ∀ agg ∈ a.aggregates, AggregateFits a.env agg rows a.inputSchema

/-- The sums of integers of a group are in the range of an INT. -/
def SumsInRange (a : AggregateOperator) (rows : List Row) : Prop :=
  ∀ agg ∈ a.aggregates, a.env.upper agg.name = "SUM" → ∀ i,
    evaluateAggregate a.env agg rows a.inputSchema = .ok (.value (.int i)) → InRange i

/-- The output row of a group has the types of its columns, and is encoded and read back,
exactly when the group fits. -/
theorem group_values_fit {schema : List ColumnDef} {group : List Obj × List Row} {row : List Obj}
    (hschema : aggregateSchema a.env lower a.groupBy a.aggregates a.inputSchema = .ok schema)
    (hset : ListOfSet a.env.distinct) (hover : ∀ agg ∈ a.aggregates, OverColumn a.env agg)
    (hgroup : a.OfRows (fun row => StoredRow row a.inputSchema) group)
    (hrow : a.groupValues group.1 group.2 = .ok row) (hsums : a.SumsInRange group.2) :
    RowFits row schema ↔ a.GroupFits group.2 := by
  obtain ⟨keys, values, hkeys, hvalues, rfl⟩ := aggregate_schema_eq_ok.mp hschema
  rw [groupValues] at hrow
  obtain ⟨objs, hobjs, hrow⟩ := bind_eq_ok.mp hrow
  cases hrow
  have hkey : ∃ r, (StoredRow r a.inputSchema ∨ a.groupBy = []) ∧
      a.keys r = .ok group.1 := by
    rcases hgroup.2 with ⟨hnone, hkey⟩ | ⟨r, hr, hkey⟩
    · refine ⟨[], Or.inr hnone, ?_⟩
      rw [AggregateOperator.keys, hnone, hkey]
      rfl
    · exact ⟨r, Or.inl hr, hkey⟩
  obtain ⟨r, hr, hkey⟩ := hkey
  have hkeysfit : List.Forall₂ ObjFits group.1 keys ↔
      ∀ expr ∈ a.groupBy, GroupKeyFits expr := by
    refine forall₂_columns (fun expr hexpr index c obj hc hobj => ?_) hkeys hkey
    rcases hr with hr | hnone
    · exact key_fits hr hc hobj
    · rw [hnone] at hexpr
      cases hexpr
  have hvaluesfit : List.Forall₂ ObjFits objs values ↔
      ∀ agg ∈ a.aggregates, AggregateFits a.env agg group.2 a.inputSchema := by
    refine forall₂_columns (fun agg hagg index c obj hc hobj => ?_) hvalues hobjs
    refine aggregate_fits hset (hover agg hagg) hgroup.1 hc hobj (fun hsum i hi => ?_)
    rw [hi] at hobj
    exact hsums agg hagg hsum i hobj
  have hlength : group.1.length = keys.length := by
    rw [← (mapM_eq_ok.mp hkey).length_eq, length_columns_from hkeys]
  have hsplit : List.Forall₂ ObjFits (group.1 ++ objs) (keys ++ values) ↔
      List.Forall₂ ObjFits group.1 keys ∧
        List.Forall₂ ObjFits objs values := by
    constructor
    · intro h
      have htake := forall₂_take group.1.length h
      have hdrop := forall₂_drop group.1.length h
      rw [take_left, take_left' hlength.symm] at htake
      rw [drop_left, drop_left' hlength.symm] at hdrop
      exact ⟨htake, hdrop⟩
    · rintro ⟨hleft, hright⟩
      exact rel_append hleft hright
  rw [rowFits_iff, hsplit, hkeysfit, hvaluesfit]
  constructor
  · rintro ⟨hkeys, haggregates⟩
    exact ⟨hkeys, haggregates⟩
  · rintro ⟨hkeys, haggregates⟩
    exact ⟨hkeys, haggregates⟩

/-- The output rows have the types of their columns, and are encoded and read back, if and only
if in every group no COUNT leaves the range of an INT, no SUM of a FLOAT column has nothing but
NULL, and the keys have the types that are inferred for them. -/
theorem aggregate_types_exact (a : AggregateOperator) {schema : List ColumnDef}
    {rows : List (List Obj)}
    (hschema : aggregateSchema a.env lower a.groupBy a.aggregates a.inputSchema = .ok schema)
    (hset : ListOfSet a.env.distinct) (hover : ∀ agg ∈ a.aggregates, OverColumn a.env agg)
    (hstored : ∀ record ∈ records, ∀ row, a.decodeRow record = .ok row →
      StoredRow row a.inputSchema)
    (hgroups : a.groupRows records (if a.groupBy.isEmpty then [([], [])] else []) = .ok groups)
    (hrows : groups.mapM (fun group => a.groupValues group.1 group.2) = .ok rows)
    (hsums : ∀ group ∈ groups, a.SumsInRange group.2) :
    (∀ row ∈ rows, RowFits row schema) ↔ ∀ group ∈ groups, a.GroupFits group.2 := by
  have hstart : ∀ g ∈ (if a.groupBy.isEmpty then [([], [])] else [] : List (List Obj × List Row)),
      a.OfRows (fun row => StoredRow row a.inputSchema) g := by
    intro g hg
    split at hg
    · next hempty =>
        rw [mem_singleton.mp hg]
        refine ⟨fun row hrow => ?_, Or.inl ⟨List.isEmpty_iff.mp hempty, rfl⟩⟩
        cases hrow
    · cases hg
  have hof := ofRows_group_rows hstored hstart hgroups
  have hforall := mapM_eq_ok.mp hrows
  clear hgroups hrows
  induction hforall with
  | nil => exact iff_of_true (by simp) (by simp)
  | cons hrow _ ih =>
      obtain ⟨hsum, hsums⟩ := forall_mem_cons.mp hsums
      obtain ⟨hgroup, hof⟩ := forall_mem_cons.mp hof
      rw [forall_mem_cons, forall_mem_cons]
      exact and_congr (group_values_fit hschema hset hover hgroup hrow hsum) (ih hsums hof)

theorem list_of_set_id : ListOfSet id := ⟨fun _ _ h => h, fun _ h => h⟩

theorem sum_over_x {env : Environment} (hupper : env.upper = id) {agg : Aggregation}
    (hagg : agg ∈ [⟨"SUM", some (.ColumnRef "x"), false⟩]) : OverColumn env agg := by
  obtain rfl := mem_singleton.mp hagg
  exact {
    name := by rw [hupper]; decide
    star := fun hnone => by cases hnone
    column := fun arg harg => ⟨"x", (Option.some.inj harg).symm⟩ }

/-- `SELECT k, SUM(x) ... GROUP BY k` over a table with `k INT, x FLOAT`. -/
def sumByK : AggregateOperator where
  env := {
    upper := id
    distinct := id
    nearest := fun x =>
      if x = some (Double.finite (3 / 4)) then 0x3FE8000000000000 else 0x7FF8000000000000
    distance := fun _ _ _ => .error "no metric"
    polygon := .ok
    pointInPolygon := fun _ _ => .error "no polygon" }
  groupBy := [.ColumnRef "k"]
  aggregates := [⟨"SUM", some (.ColumnRef "x"), false⟩]
  inputSchema := [⟨"k", .INT, none⟩, ⟨"x", .FLOAT, none⟩]
  encodeOutput := SoupDB.encodeOutput [⟨"k", .INT, none⟩, ⟨"SUM_1", .FLOAT, none⟩]
  blake2b := id

def halfAndQuarter : List Row :=
  [[.int 1, .float 0x3FE0000000000000], [.int 1, .float 0x3FD0000000000000]]

theorem sum_half_quarter : evaluateAggregate sumByK.env ⟨"SUM", some (.ColumnRef "x"), false⟩
    halfAndQuarter sumByK.inputSchema = .ok (.value (.float 0x3FE8000000000000)) := by
  have hsum : totalOf [.value (.float 0x3FE0000000000000), .value (.float 0x3FD0000000000000)] =
      .float (some (Double.finite (3 / 4))) := by
    have h : Double.add (Double.add (some (Double.finite 0)) (Double.number 0x3FE0000000000000))
      (Double.number 0x3FD0000000000000) = some (Double.finite (3 / 4)) := by decide +kernel
    exact congrArg Total.float h
  have hvalues : evaluateAggregate sumByK.env ⟨"SUM", some (.ColumnRef "x"), false⟩ halfAndQuarter
      sumByK.inputSchema = sumValues sumByK.env
        [.value (.float 0x3FE0000000000000), .value (.float 0x3FD0000000000000)] := rfl
  have hnearest : sumByK.env.nearest (some (Double.finite (3 / 4))) = 0x3FE8000000000000 :=
    if_pos rfl
  rw [hvalues, sumValues, hsum]
  simp only [toFloat, hnearest]
  rfl

/-- The sum 0.75 of a half and a quarter, for the one key of the rows. -/
theorem aggregate_types_exact_sum :
    (∀ row ∈ [[Obj.value (.int 1), Obj.value (.float 0x3FE8000000000000)]],
      RowFits row [⟨"k", .INT, none⟩, ⟨"SUM_1", .FLOAT, none⟩]) ↔
      ∀ group ∈ [([Obj.value (.int 1)], halfAndQuarter)], sumByK.GroupFits group.2 := by
  have hgroupValues : sumByK.groupValues [Obj.value (.int 1)] halfAndQuarter =
      .ok [.value (.int 1), .value (.float 0x3FE8000000000000)] := by
    have h : sumByK.groupValues [Obj.value (.int 1)] halfAndQuarter =
        (evaluateAggregate sumByK.env ⟨"SUM", some (.ColumnRef "x"), false⟩ halfAndQuarter
          sumByK.inputSchema >>= fun value => .ok [.value (.int 1), value]) := by
      rfl
    rw [h, sum_half_quarter, ok_bind]
  refine aggregate_types_exact sumByK (rfl : aggregateSchema _ id _ _ _ = _) list_of_set_id ?_
    (show ∀ record ∈ ([[1, 1, 0, 0, 0, 1, 0, 0, 0, 0, 0, 0, 0xE0, 0x3F],
        [1, 1, 0, 0, 0, 1, 0, 0, 0, 0, 0, 0, 0xD0, 0x3F]] : List Bytes),
      ∀ row, sumByK.decodeRow record = .ok row → StoredRow row sumByK.inputSchema from ?_)
    rfl ?_ ?_
  · exact fun agg hagg => sum_over_x rfl hagg
  · intro record hrecord row hrow
    have hfits : ∀ bits : UInt64, StoredRow [.int 1, .float bits] sumByK.inputSchema := fun bits =>
      List.Forall₂.cons ((fits_int 1).mpr ⟨rfl, by rw [InRange]; decide⟩)
        (List.Forall₂.cons (fits_float.mpr rfl) List.Forall₂.nil)
    rcases mem_pair.mp hrecord with rfl | rfl
    · have h : sumByK.decodeRow [1, 1, 0, 0, 0, 1, 0, 0, 0, 0, 0, 0, 0xE0, 0x3F] =
          .ok [.int 1, .float 0x3FE0000000000000] := rfl
      rw [h] at hrow
      cases hrow
      exact hfits _
    · have h : sumByK.decodeRow [1, 1, 0, 0, 0, 1, 0, 0, 0, 0, 0, 0, 0xD0, 0x3F] =
          .ok [.int 1, .float 0x3FD0000000000000] := rfl
      rw [h] at hrow
      cases hrow
      exact hfits _
  · rw [mapM_cons, hgroupValues]
    rfl
  · intro group hgroup agg hagg _ i hi
    obtain rfl := mem_singleton.mp hgroup
    obtain rfl := mem_singleton.mp hagg
    rw [sum_half_quarter] at hi
    cases hi
/-- `SELECT SUM(x)` over a table with the one column `x FLOAT`. -/
def sumX : AggregateOperator :=
  { sumByK with
    groupBy := []
    inputSchema := [⟨"x", .FLOAT, none⟩]
    encodeOutput := SoupDB.encodeOutput [⟨"SUM_1", .FLOAT, none⟩] }

/-- The SUM of a FLOAT column with nothing but NULL is the integer 0, which its FLOAT column
does not take. -/
theorem sum_of_nulls_not_float :
    ¬ ∀ (a : AggregateOperator) (lower : String → String)
      (schema : List ColumnDef) (records : List Record) (groups : List (List Obj × List Row))
      (rows : List (List Obj)),
      aggregateSchema a.env lower a.groupBy a.aggregates a.inputSchema = .ok schema →
      ListOfSet a.env.distinct → (∀ agg ∈ a.aggregates, OverColumn a.env agg) →
      (∀ record ∈ records, ∀ row, a.decodeRow record = .ok row →
        StoredRow row a.inputSchema) →
      a.groupRows records (if a.groupBy.isEmpty then [([], [])] else []) = .ok groups →
      groups.mapM (fun group => a.groupValues group.1 group.2) = .ok rows →
      (∀ group ∈ groups, a.SumsInRange group.2) →
      ∀ row ∈ rows, RowFits row schema := by
  intro hall
  have hfits := hall sumX id [⟨"SUM_1", .FLOAT, none⟩] [[0]]
    [([], [[.null]])] [[.value (.int 0)]] rfl list_of_set_id (fun agg hagg => sum_over_x rfl hagg)
    (by
      intro record hrecord row hrow
      obtain rfl := mem_singleton.mp hrecord
      have hnull : sumX.decodeRow [0] = .ok [.null] := rfl
      rw [hnull] at hrow
      cases hrow
      exact List.Forall₂.cons (fits_null _) List.Forall₂.nil)
    rfl rfl (by
      intro group hgroup agg hagg _ i hi
      obtain rfl := mem_singleton.mp hgroup
      obtain rfl := mem_singleton.mp hagg
      have hzero : evaluateAggregate sumX.env ⟨"SUM", some (.ColumnRef "x"), false⟩
          [[.null]] sumX.inputSchema = .ok (.value (.int 0)) := rfl
      rw [hzero] at hi
      cases hi
      exact ⟨by decide, by decide⟩)
    [.value (.int 0)] mem_cons_self
  rw [rowFits_iff] at hfits
  obtain ⟨hcell, _⟩ := forall₂_cons.mp hfits
  rw [objFits_value, fits_int] at hcell
  cases hcell.1

end AggregateOperator
end SoupDB
