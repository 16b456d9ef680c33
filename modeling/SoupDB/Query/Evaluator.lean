import SoupDB.Common.Schema
import SoupDB.Query.Ast

/-!
# SoupDB: evaluation of SQL expressions against tuple rows

Comparisons require operands of the same type, or two numbers.  A NaN is neither above nor
below a number nor `==` to one; but a tuple is `==` to itself, and `in` finds an object among
others, whatever is in it.  Sums of FLOAT values are exact numbers, and the rounding of their
results is a parameter, as are the metrics of `distance`, the validation of polygons and the
point location in a polygon.

Main fact: `evaluate_uniform`.  Over the rows of a schema an expression gives NULL or
values of one type.
-/

namespace SoupDB

/-- What an expression evaluates to: a value, or a polygon. -/
inductive Obj
  | value (v : Value)
  | polygon (vertices : List (UInt64 × UInt64))

namespace Obj

def pointTuple (point : UInt64 × UInt64) : Value := .tuple [.float point.1, .float point.2]

/-- `type(value).__name__`. -/
def typeName : Obj → String
  | .value .null => "NoneType"
  | .value (.bool _) => "bool"
  | .value (.int _) => "int"
  | .value (.float _) => "float"
  | .value (.str _) => "str"
  | .value (.tuple _) => "tuple"
  | .polygon _ => "Polygon2D"

/-- `value is None`. -/
def isNone : Obj → Bool
  | .value .null => true
  | _ => false

/-- `left == right`. -/
def eq : Obj → Obj → Bool
  | .value a, .value b => a.eq b
  | .polygon vs, .polygon ws => Value.eqItems (vs.map pointTuple) (ws.map pointTuple)
  | _, _ => false

/-- The order of two objects, if they have one. -/
def cmp : Obj → Obj → Option Ordering
  | .value a, .value b => a.cmp b
  | _, _ => none

/-- The objects have no order because of a NaN. -/
def unordered : Obj → Obj → Bool
  | .value a, .value b => a.unordered b
  | _, _ => false

/-- An ordering operator of the host language. -/
def ordered (symbol : String) (holds : Ordering → Bool) (left right : Obj) :
    Except PyError Bool :=
  match cmp left right with
  | some o => .ok (holds o)
  | none =>
      if unordered left right then .ok false
      else
        .error (.TypeError
          s!"'{symbol}' not supported between '{left.typeName}' and '{right.typeName}'")

/-- `left < right`. -/
def lt (left right : Obj) : Except PyError Bool := ordered "<" (· == .lt) left right

/-- `left <= right`. -/
def le (left right : Obj) : Except PyError Bool := ordered "<=" (· != .gt) left right

/-- `left > right`. -/
def gt (left right : Obj) : Except PyError Bool := ordered ">" (· == .gt) left right

/-- `left >= right`. -/
def ge (left right : Obj) : Except PyError Bool := ordered ">=" (· != .lt) left right

end Obj

/-- Functions of other modules and of the host language. -/
structure Environment where
  /-- `name.upper()`. -/
  upper : String → String
  /-- `list(set(values))`, in the order of the set. -/
  distinct : List Obj → List Obj
  /-- The double that the result of a sum or a quotient is rounded to. -/
  nearest : Option Double.Number → UInt64
  /-- `distance(left, right, metric)`, or the text of its `ValueError`. -/
  distance : UInt64 × UInt64 → UInt64 × UInt64 → String → Except String UInt64
  /-- The vertices of `Polygon2D(vertices)`. -/
  polygon : List (UInt64 × UInt64) → Except PyError (List (UInt64 × UInt64))
  /-- `point_in_polygon(point, polygon)`, or the text of its exception. -/
  pointInPolygon : UInt64 × UInt64 → List (UInt64 × UInt64) → Except String Bool

abbrev Row := List Value

def isNumber : Obj → Bool
  | .value (.int _) => true
  | .value (.float _) => true
  | _ => false

def requireSameType (left right : Obj) : Except PyError Unit :=
  if left.typeName = right.typeName then .ok ()
  else if isNumber left && isNumber right then .ok ()
  else
    .error (.QueryExecutionError
      s!"cannot mix {left.typeName} and {right.typeName} values")

def requireBool (value : Obj) : Except PyError Bool :=
  match value with
  | .value (.bool b) => .ok b
  | value => .error (.QueryExecutionError s!"expected boolean operand, got {value.typeName}")

/-- The expressions give the same object, or points whose coordinates are the same objects. -/
def sameObject : Expr → Expr → Bool
  | .ColumnRef name, .ColumnRef name' => name = name'
  | .Literal value, .Literal value' => value.eq value'
  | .PointExpr x y, .PointExpr x' y' => sameObject x x' && sameObject y y'
  | _, _ => false

/-- A tuple is compared with itself: the items are the same objects, NaN or not. -/
def itself (same : Bool) (left : Obj) : Bool := same && left.typeName = "tuple"

def comparisons : List String := ["=", "<>", "!=", "<", "<=", ">", ">="]

/-- `_compare`, where `same` says that the operands are the same object. -/
def compare (same : Bool) (left : Obj) (op : String) (right : Obj) : Except PyError Bool :=
  if op ∉ comparisons then
    .error (.QueryExecutionError s!"unsupported comparison operator {reprStr op}")
  else if left.isNone || right.isNone then .ok false
  else do
    requireSameType left right
    if itself same left then .ok (op ∈ ["=", "<=", ">="])
    else if op = "=" then .ok (left.eq right)
    else if op = "<>" ∨ op = "!=" then .ok (!left.eq right)
    else if op = "<" then left.lt right
    else if op = "<=" then left.le right
    else if op = ">" then left.gt right
    else left.ge right

/-- `re.match` of the regular expression of a pattern: no wildcard matches a line feed, and
the end is also before a last line feed. -/
def likeMatches : List Char → List Char → Bool
  | [], value => value = [] || value = ['\n']
  | p :: pattern, value =>
      if p = '%' then
        likeMatches pattern value ||
          match value with
          | [] => false
          | c :: value => c ≠ '\n' && likeMatches (p :: pattern) value
      else
        match value with
        | [] => false
        | c :: value => (if p = '_' then c ≠ '\n' else c = p) && likeMatches pattern value
termination_by pattern value => (pattern.length, value.length)

def like (value pattern : Obj) : Except PyError Bool :=
  match value, pattern with
  | .value (.str value), .value (.str pattern) =>
      .ok (likeMatches pattern.toList value.toList)
  | _, _ => .error (.QueryExecutionError "LIKE requires string operands")

def pointValue : Obj → Option (UInt64 × UInt64)
  | .value (.tuple [.float x, .float y]) => some (x, y)
  | _ => none

def columnValue (name : String) (row : Row) (schema : List ColumnDef) :
    Except PyError Value :=
  match schema.findIdx? (fun column => column.name = name) with
  | some index =>
      match row[index]? with
      | some value => .ok value
      | none => .error (.QueryExecutionError s!"column {reprStr name} missing from row")
  | none => .error (.QueryExecutionError s!"unknown column {reprStr name}")

/-- The name of the column with the score of a ranked hit. -/
def INTERNAL_SCORE_NAME : String := "\x00ranked_score"

def boundScore (position : Int) (row : Row) (schema : List ColumnDef) :
    Except PyError Value :=
  if position ≠ schema.length - 1 then
    .error (.QueryExecutionError "invalid bound score position")
  else
    match schema.getLast? with
    | some column =>
        if column.name ≠ INTERNAL_SCORE_NAME ∨ column.typeName ≠ .FLOAT then
          .error (.QueryExecutionError "bound score requires an internal FLOAT slot")
        else
          match row[position.toNat]? with
          | some (.float score) =>
              if Double.isFinite score then .ok (.float score)
              else .error (.QueryExecutionError "bound score must be a finite FLOAT")
          | some _ => .error (.QueryExecutionError "bound score must be a finite FLOAT")
          | none => .error (.QueryExecutionError "bound score is missing from row")
    | none => .error (.IndexError "tuple index out of range")

def requireNumeric (value : Obj) : Except PyError Unit :=
  if isNumber value then .ok ()
  else
    .error (.QueryExecutionError s!"POINT requires numeric coordinates, got {value.typeName}")

/-- `float(x)` of a number. -/
def coordinate : Obj → Except PyError UInt64
  | .value (.int i) => floatOfInt i
  | .value (.float bits) => .ok bits
  | _ => .error (.TypeError "float() argument must be a string or a real number")

def distanceOperand (value : Obj) : Except PyError (UInt64 × UInt64) :=
  match pointValue value with
  | some point => .ok point
  | none =>
      .error (.QueryExecutionError
        s!"distance operands must be POINT values, got {value.typeName}")

def vertex (value : Obj) : Except PyError (UInt64 × UInt64) :=
  match pointValue value with
  | some point => .ok point
  | none =>
      .error (.QueryExecutionError s!"POLYGON requires POINT vertices, got {value.typeName}")

/-- An exception of the geometry, as an execution error. -/
def executionError {α : Type} : Except String α → Except PyError α
  | .ok a => .ok a
  | .error message => .error (.QueryExecutionError message)

variable (env : Environment)

def intersects (left right : Obj) : Except PyError Bool :=
  match pointValue left, right with
  | some point, .polygon vertices => executionError (env.pointInPolygon point vertices)
  | _, _ =>
      match pointValue right, left with
      | some point, .polygon vertices => executionError (env.pointInPolygon point vertices)
      | _, _ =>
          .error (.QueryExecutionError
            "intersects requires (POINT, POLYGON) or (POLYGON, POINT)")

/-- `lo <= value <= hi`; the first two are the same object, or the last two. -/
def between (sameLo sameHi : Bool) (value lo hi : Obj) : Except PyError Bool := do
  requireSameType value lo
  requireSameType value hi
  let above ← if itself sameLo lo then .ok true else lo.le value
  if above then if itself sameHi value then .ok true else value.le hi else .ok false

/-- `value in items`, with the items that are the same object. -/
def member (value : Obj) (items : List (Bool × Obj)) : Except PyError Bool := do
  items.forM (fun item => requireSameType value item.2)
  .ok (items.any (fun item => item.1 || value.eq item.2))

/-- `distance(left, right)` of two values. -/
def distanceValue (left right : Obj) (metric : String) : Except PyError Obj :=
  if left.isNone || right.isNone then .ok (.value .null)
  else do
    let left ← distanceOperand left
    let right ← distanceOperand right
    let result ← executionError (env.distance left right metric)
    .ok (.value (.float result))

mutual

/-- Evaluate a scalar expression or predicate against a single row. -/
def evaluate (row : Row) (schema : List ColumnDef) : Expr → Except PyError Obj
  | .Literal value => .ok (.value value)
  | .BoundScoreExpr position _ => do
      let score ← boundScore position row schema
      .ok (.value score)
  | .ColumnRef name => do
      let value ← columnValue name row schema
      .ok (.value value)
  | .CompareExpr left op right => do
      let leftValue ← evaluate row schema left
      let rightValue ← evaluate row schema right
      let result ← compare (sameObject left right) leftValue op rightValue
      .ok (.value (.bool result))
  | .LogicalExpr left op right => do
      let left ← evaluate row schema left
      let left ← requireBool left
      let right ← evaluate row schema right
      let right ← requireBool right
      .ok (.value (.bool (if op = "AND" then left && right else left || right)))
  | .NotExpr operand => do
      let operand ← evaluate row schema operand
      let operand ← requireBool operand
      .ok (.value (.bool (!operand)))
  | .BetweenExpr value lo hi => do
      let object ← evaluate row schema value
      let loObject ← evaluate row schema lo
      let hiObject ← evaluate row schema hi
      let result ←
        between (sameObject lo value) (sameObject value hi) object loObject hiObject
      .ok (.value (.bool result))
  | .InExpr value items => do
      let object ← evaluate row schema value
      let objects ← evaluateItems row schema items
      let result ← member object ((items.map (sameObject value)).zip objects)
      .ok (.value (.bool result))
  | .LikeExpr value pattern => do
      let value ← evaluate row schema value
      let pattern ← evaluate row schema pattern
      let result ← like value pattern
      .ok (.value (.bool result))
  | .PointExpr x y => do
      let x ← evaluate row schema x
      let y ← evaluate row schema y
      requireNumeric x
      requireNumeric y
      let x ← coordinate x
      let y ← coordinate y
      .ok (.value (.tuple [.float x, .float y]))
  | .DistanceExpr left right metric => do
      let left ← evaluate row schema left
      let right ← evaluate row schema right
      distanceValue env left right metric
  | .PolygonExpr vertices => do
      let vertices ← evaluateVertices row schema vertices
      let vertices ← env.polygon vertices
      .ok (.polygon vertices)
  | .IntersectsExpr left right => do
      let left ← evaluate row schema left
      let right ← evaluate row schema right
      let result ← intersects env left right
      .ok (.value (.bool result))
  | .FunctionExpr name _ _ =>
      .error (.QueryExecutionError s!"aggregate {name} is not allowed in a scalar expression")
  | expr => .error (.QueryExecutionError s!"unsupported expression {expr.typeName}")

def evaluateItems (row : Row) (schema : List ColumnDef) :
    List Expr → Except PyError (List Obj)
  | [] => .ok []
  | item :: items => do
      let value ← evaluate row schema item
      let values ← evaluateItems row schema items
      .ok (value :: values)

/-- The vertices of a polygon. -/
def evaluateVertices (row : Row) (schema : List ColumnDef) :
    List Expr → Except PyError (List (UInt64 × UInt64))
  | [] => .ok []
  | v :: vertices => do
      let value ← evaluate row schema v
      let point ← vertex value
      let points ← evaluateVertices row schema vertices
      .ok (point :: points)

end

/-! ## Aggregate functions -/

/-- A running sum: an integer, or the exact number behind a float, `none` for a NaN. -/
inductive Total
  | int (i : Int)
  | float (x : Option Double.Number)

/-- `total + value` for a number. -/
def plus : Total → Value → Total
  | .int i, .int j => .int (i + j)
  | .int i, value => .float (Double.add (some (Double.finite i)) value.number?)
  | .float x, value => .float (Double.add x value.number?)

/-- `float(total)`. -/
def toFloat : Total → Except PyError UInt64
  | .int i => floatOfInt i
  | .float x => .ok (env.nearest x)

def Total.value : Total → Value
  | .int i => .int i
  | .float x => .float (env.nearest x)

def numberValue : Obj → Value
  | .value v => v
  | .polygon _ => .null

def isFloat : Obj → Bool
  | .value (.float _) => true
  | _ => false

/-- `sum(values)`. -/
def totalOf (values : List Obj) : Total :=
  values.foldl (fun total value => plus total (numberValue value)) (.int 0)

def sumValues (values : List Obj) : Except PyError Obj :=
  if values.isEmpty then .ok (.value (.int 0))
  else if !values.all isNumber then
    .error (.QueryExecutionError "SUM requires numeric values")
  else
    let total := totalOf values
    if values.any isFloat then do
      let total ← toFloat env total
      .ok (.value (.float total))
    else .ok (.value (total.value env))

def avgValues (values : List Obj) : Except PyError Obj :=
  if values.isEmpty then .error (.QueryExecutionError "AVG of an empty group is undefined")
  else if !values.all isNumber then
    .error (.QueryExecutionError "AVG requires numeric values")
  else do
    let total ← toFloat env (totalOf values)
    .ok (.value (.float (env.nearest (Double.quotient (Double.number total) values.length))))

/-- The first value that no other is before. -/
def pick (before : Obj → Obj → Except PyError Bool) : Obj → List Obj → Except PyError Obj
  | best, [] => .ok best
  | best, value :: values => do
      let better ← before value best
      pick before (if better then value else best) values

def minOrMax (values : List Obj) (name : String) : Except PyError Obj :=
  match values with
  | [] => .error (.QueryExecutionError s!"{name} of an empty group is undefined")
  | first :: rest => do
      rest.forM (fun value => requireSameType first value)
      pick (if name = "MIN" then Obj.lt else Obj.gt) first rest

def AGGREGATES : List String := ["COUNT", "SUM", "AVG", "MIN", "MAX"]

/-- Evaluate an aggregate function over a group of rows. -/
def evaluateAggregate (expr : Aggregation) (rows : List Row) (schema : List ColumnDef) :
    Except PyError Obj :=
  let name := env.upper expr.name
  if name ∉ AGGREGATES then
    .error (.QueryExecutionError s!"unsupported aggregate {reprStr expr.name}")
  else
    match expr.arg with
    | none =>
        if name ≠ "COUNT" then
          .error (.QueryExecutionError s!"{expr.name} requires a column argument")
        else .ok (.value (.int rows.length))
    | some arg => do
        let values ← rows.mapM (fun row => evaluate env row schema arg)
        let values := values.filter (fun value => !value.isNone)
        let values := if expr.distinct then env.distinct values else values
        if name = "COUNT" then .ok (.value (.int values.length))
        else if name = "SUM" then sumValues env values
        else if name = "AVG" then avgValues env values
        else if name = "MIN" then minOrMax values "MIN"
        else minOrMax values "MAX"

/-! ## Types of values -/

inductive HasColumnType : Value → ColumnType → Prop
  | null (t : ColumnType) : HasColumnType .null t
  | int (i : Int) : HasColumnType (.int i) .INT
  | float (bits : UInt64) : HasColumnType (.float bits) .FLOAT
  | varchar (s : String) : HasColumnType (.str s) .VARCHAR
  | text (s : String) : HasColumnType (.str s) .TEXT
  | bool (b : Bool) : HasColumnType (.bool b) .BOOL
  | point (x y : UInt64) : HasColumnType (.tuple [.float x, .float y]) .POINT

/-- The row has a value for each column of the schema. -/
def RowTyped (row : Row) (schema : List ColumnDef) : Prop :=
  List.Forall₂ (fun value column => HasColumnType value column.typeName) row schema

def ColumnType.typeName : ColumnType → String
  | .INT => "int"
  | .FLOAT => "float"
  | .VARCHAR | .TEXT => "str"
  | .BOOL => "bool"
  | .POINT => "tuple"

/-- The object is NULL or of this type. -/
def OfType (typeName : String) (obj : Obj) : Prop :=
  obj.isNone = true ∨ obj.typeName = typeName

theorem HasColumnType.ofType {value : Value} {t : ColumnType} (h : HasColumnType value t) :
    OfType t.typeName (.value value) := by
  cases h with
  | null => exact Or.inl rfl
  | _ => exact Or.inr rfl

theorem column_value_typed {name : String} {row : Row} {schema : List ColumnDef} {value : Value}
    (htyped : RowTyped row schema) (h : columnValue name row schema = .ok value) :
    ∃ index column, schema.findIdx? (fun column => column.name = name) = some index ∧
      schema[index]? = some column ∧ HasColumnType value column.typeName := by
  cases hindex : schema.findIdx? (fun column => column.name = name) with
  | none =>
      simp only [columnValue, hindex] at h
      cases h
  | some index =>
      simp only [columnValue, hindex] at h
      cases hvalue : row[index]? with
      | none =>
          simp only [hvalue] at h
          cases h
      | some found =>
          simp only [hvalue] at h
          cases h
          obtain ⟨hi, rfl⟩ := List.getElem?_eq_some_iff.mp hvalue
          have hj : index < schema.length := htyped.length_eq ▸ hi
          exact ⟨index, schema[index], rfl, List.getElem?_eq_getElem hj,
            (List.forall₂_iff_get.mp htyped).2 index hi hj⟩

/-- The objects an expression builds that is no literal and no column. -/
def Built : Expr → Obj → Prop
  | .BoundScoreExpr _ _, obj => ∃ x, obj = .value (.float x)
  | .DistanceExpr _ _ _, obj => obj = .value .null ∨ ∃ x, obj = .value (.float x)
  | .PointExpr _ _, obj => ∃ x y, obj = .value (.tuple [.float x, .float y])
  | .PolygonExpr _, obj => ∃ vertices, obj = .polygon vertices
  | _, obj => ∃ b, obj = .value (.bool b)

/-- The type of these objects. -/
def builtType : Expr → String
  | .BoundScoreExpr _ _ | .DistanceExpr _ _ _ => "float"
  | .PointExpr _ _ => "tuple"
  | .PolygonExpr _ => "Polygon2D"
  | _ => "bool"

theorem Built.ofType {expr : Expr} {obj : Obj} (h : Built expr obj) :
    OfType (builtType expr) obj := by
  cases expr with
  | DistanceExpr left right metric =>
      rcases h with rfl | ⟨_, rfl⟩
      · exact Or.inl rfl
      · exact Or.inr rfl
  | PointExpr x y =>
      obtain ⟨_, _, rfl⟩ := h
      exact Or.inr rfl
  | _ =>
      obtain ⟨_, rfl⟩ := h
      exact Or.inr rfl

theorem bound_score_float {position : Int} {row : Row} {schema : List ColumnDef} {score : Value}
    (h : boundScore position row schema = .ok score) : ∃ x, score = .float x := by
  rw [boundScore] at h
  split at h
  · cases h
  · split at h
    · split at h
      · cases h
      · split at h
        · split at h
          · cases h
            exact ⟨_, rfl⟩
          · cases h
        · cases h
        · cases h
    · cases h

/-- An evaluation that returns gives the value of a literal or of a column, or builds an object. -/
theorem evaluate_cases {row : Row} {schema : List ColumnDef} {expr : Expr} {obj : Obj}
    (h : evaluate env row schema expr = .ok obj) :
    (∃ value, expr = .Literal value ∧ obj = .value value) ∨
      (∃ name value, expr = .ColumnRef name ∧ columnValue name row schema = .ok value ∧
        obj = .value value) ∨
      Built expr obj := by
  cases expr with
  | Literal value =>
      cases h
      exact Or.inl ⟨value, rfl, rfl⟩
  | ColumnRef name =>
      rw [evaluate] at h
      obtain ⟨value, hvalue, h⟩ := bind_eq_ok.mp h
      cases h
      exact Or.inr (Or.inl ⟨name, value, rfl, hvalue, rfl⟩)
  | BoundScoreExpr position kind =>
      rw [evaluate] at h
      obtain ⟨score, hscore, h⟩ := bind_eq_ok.mp h
      cases h
      obtain ⟨x, rfl⟩ := bound_score_float hscore
      exact Or.inr (Or.inr ⟨x, rfl⟩)
  | DistanceExpr left right metric =>
      rw [evaluate] at h
      obtain ⟨left, _, h⟩ := bind_eq_ok.mp h
      obtain ⟨right, _, h⟩ := bind_eq_ok.mp h
      rw [distanceValue] at h
      split at h
      · cases h
        exact Or.inr (Or.inr (Or.inl rfl))
      · obtain ⟨_, _, h⟩ := bind_eq_ok.mp h
        obtain ⟨_, _, h⟩ := bind_eq_ok.mp h
        obtain ⟨_, _, h⟩ := bind_eq_ok.mp h
        cases h
        exact Or.inr (Or.inr (Or.inr ⟨_, rfl⟩))
  | PointExpr x y =>
      rw [evaluate] at h
      obtain ⟨_, _, h⟩ := bind_eq_ok.mp h
      obtain ⟨_, _, h⟩ := bind_eq_ok.mp h
      obtain ⟨_, _, h⟩ := bind_eq_ok.mp h
      obtain ⟨_, _, h⟩ := bind_eq_ok.mp h
      obtain ⟨_, _, h⟩ := bind_eq_ok.mp h
      obtain ⟨_, _, h⟩ := bind_eq_ok.mp h
      cases h
      exact Or.inr (Or.inr ⟨_, _, rfl⟩)
  | PolygonExpr vertices | NotExpr operand =>
      rw [evaluate] at h
      obtain ⟨_, _, h⟩ := bind_eq_ok.mp h
      obtain ⟨_, _, h⟩ := bind_eq_ok.mp h
      cases h
      exact Or.inr (Or.inr ⟨_, rfl⟩)
  | CompareExpr left op right | LikeExpr left right | IntersectsExpr left right
  | InExpr left right =>
      rw [evaluate] at h
      obtain ⟨_, _, h⟩ := bind_eq_ok.mp h
      obtain ⟨_, _, h⟩ := bind_eq_ok.mp h
      obtain ⟨_, _, h⟩ := bind_eq_ok.mp h
      cases h
      exact Or.inr (Or.inr ⟨_, rfl⟩)
  | LogicalExpr left op right | BetweenExpr left op right =>
      rw [evaluate] at h
      obtain ⟨_, _, h⟩ := bind_eq_ok.mp h
      obtain ⟨_, _, h⟩ := bind_eq_ok.mp h
      obtain ⟨_, _, h⟩ := bind_eq_ok.mp h
      obtain ⟨_, _, h⟩ := bind_eq_ok.mp h
      cases h
      exact Or.inr (Or.inr ⟨_, rfl⟩)
  | _ =>
      simp only [evaluate] at h
      cases h

theorem evaluate_uniform (schema : List ColumnDef) (expr : Expr) :
    ∃ typeName, ∀ row obj, RowTyped row schema → evaluate env row schema expr = .ok obj →
      OfType typeName obj := by
  have hbuilt (hliteral : ∀ value, expr ≠ .Literal value)
      (hcolumn : ∀ name, expr ≠ .ColumnRef name) :
      ∃ typeName, ∀ row obj, RowTyped row schema → evaluate env row schema expr = .ok obj →
        OfType typeName obj := by
    refine ⟨builtType expr, ?_⟩
    intro row obj _ h
    rcases evaluate_cases env h with ⟨_, heq, _⟩ | ⟨_, _, heq, _⟩ | hbuilt
    · exact absurd heq (hliteral _)
    · exact absurd heq (hcolumn _)
    · exact hbuilt.ofType
  cases expr with
  | Literal value =>
      refine ⟨(Obj.value value).typeName, ?_⟩
      intro row obj _ h
      cases h
      exact Or.inr rfl
  | ColumnRef name =>
      cases hcolumn : (schema.findIdx? (fun column => column.name = name)).bind
          (fun index => schema[index]?) with
      | none =>
          refine ⟨"", ?_⟩
          intro row obj htyped h
          rw [evaluate] at h
          obtain ⟨value, hvalue, h⟩ := bind_eq_ok.mp h
          obtain ⟨index, column, hindex, hfound, _⟩ := column_value_typed htyped hvalue
          rw [hindex, Option.bind_some, hfound] at hcolumn
          cases hcolumn
      | some column =>
          refine ⟨column.typeName.typeName, ?_⟩
          intro row obj htyped h
          rw [evaluate] at h
          obtain ⟨value, hvalue, h⟩ := bind_eq_ok.mp h
          obtain ⟨index, column', hindex, hfound, hvalue⟩ := column_value_typed htyped hvalue
          rw [hindex, Option.bind_some, hfound] at hcolumn
          cases hcolumn
          cases h
          exact hvalue.ofType
  | _ => exact hbuilt (by simp) (by simp)

end SoupDB
