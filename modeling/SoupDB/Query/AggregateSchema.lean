import SoupDB.Query.Aggregate

/-!
# SoupDB: the schema of the Aggregate operator

The columns of the output rows: the GROUP BY keys, under the names of their columns or
`group_<n>`, followed by the aggregates, under `<name>_<n>`.  The types are inferred from the
expressions.  `name.lower()` is a parameter.

Main facts: `length_columns_from` and `column_of_columns_from`, on which column stands where.
-/

namespace SoupDB

def literalType : Value → ColumnType
  | .bool _ => .BOOL
  | .int _ => .INT
  | .float _ => .FLOAT
  | _ => .TEXT

def findColumn (name : String) (schema : List ColumnDef) : Except PyError ColumnDef :=
  match schema.find? (fun column => column.name = name) with
  | some column => .ok column
  | none => .error (.QueryExecutionError s!"unknown column {reprStr name}")

def inferType (expr : Expr) (schema : List ColumnDef) : Except PyError ColumnDef :=
  match expr with
  | .ColumnRef name => findColumn name schema
  | .Literal value => .ok ⟨"", literalType value, none⟩
  | .BoundScoreExpr _ _ => .ok ⟨"", .FLOAT, none⟩
  | .BetweenExpr _ _ _ | .CompareExpr _ _ _ | .InExpr _ _ | .LikeExpr _ _ | .LogicalExpr _ _ _
  | .NotExpr _ => .ok ⟨"", .BOOL, none⟩
  | .FunctionExpr _ _ _ => .ok ⟨"", .FLOAT, none⟩
  | .PointExpr _ _ => .ok ⟨"", .POINT, none⟩
  | .DistanceExpr _ _ _ => .ok ⟨"", .FLOAT, none⟩
  | _ => .ok ⟨"", .TEXT, none⟩

def aggregateOutputType (env : Environment) (expr : Aggregation) (schema : List ColumnDef) :
    Except PyError ColumnType :=
  let name := env.upper expr.name
  if name = "COUNT" then .ok .INT
  else if name = "AVG" then .ok .FLOAT
  else
    match expr.arg with
    | none => .ok .INT
    | some arg => do
        let column ← inferType arg schema
        if name = "MIN" ∨ name = "MAX" then .ok column.typeName
        else if name = "SUM" then .ok (if column.typeName = .FLOAT then .FLOAT else .INT)
        else .ok .INT

def groupColumn (schema : List ColumnDef) (index : Nat) (expr : Expr) :
    Except PyError ColumnDef :=
  match expr with
  | .ColumnRef name => findColumn name schema
  | expr => do
      let inferred ← inferType expr schema
      .ok ⟨s!"group_{index}", inferred.typeName, inferred.length⟩

def aggregateName (lower : String → String) (index : Nat) (expr : Aggregation) : String :=
  s!"{lower expr.name}_{index}"

def aggregateColumn (env : Environment) (lower : String → String) (schema : List ColumnDef)
    (index : Nat) (expr : Aggregation) : Except PyError ColumnDef := do
  let typeName ← aggregateOutputType env expr schema
  .ok ⟨aggregateName lower index expr, typeName, none⟩

/-- The columns of a list, numbered from a position on. -/
def columnsFrom {α : Type} (column : Nat → α → Except PyError ColumnDef) :
    Nat → List α → Except PyError (List ColumnDef)
  | _, [] => .ok []
  | index, x :: xs => do
      let first ← column index x
      let rest ← columnsFrom column (index + 1) xs
      .ok (first :: rest)

/-- GROUP BY keys followed by the aggregate results. -/
def aggregateSchema (env : Environment) (lower : String → String) (groupBy : List Expr)
    (aggregates : List Aggregation) (schema : List ColumnDef) :
    Except PyError (List ColumnDef) := do
  let keys ← columnsFrom (groupColumn schema) 1 groupBy
  let values ← columnsFrom (aggregateColumn env lower schema) 1 aggregates
  .ok (keys ++ values)

/-! ## The columns by their position -/

section Columns

variable {α : Type} {column : Nat → α → Except PyError ColumnDef}

theorem length_columns_from {xs : List α} :
    ∀ {index : Nat} {columns : List ColumnDef}, columnsFrom column index xs = .ok columns →
      columns.length = xs.length := by
  induction xs with
  | nil =>
      intro index columns h
      cases h
      rfl
  | cons x xs ih =>
      intro index columns h
      rw [columnsFrom] at h
      obtain ⟨first, _, h⟩ := bind_eq_ok.mp h
      obtain ⟨rest, hrest, h⟩ := bind_eq_ok.mp h
      cases h
      rw [List.length_cons, List.length_cons, ih hrest]

theorem column_of_columns_from {xs : List α} :
    ∀ {index : Nat} {columns : List ColumnDef}, columnsFrom column index xs = .ok columns →
      ∀ (i : Nat) (hi : i < xs.length) (hi' : i < columns.length),
        column (index + i) xs[i] = .ok columns[i] := by
  induction xs with
  | nil =>
      intro index columns _ i hi
      cases hi
  | cons x xs ih =>
      intro index columns h i hi hi'
      rw [columnsFrom] at h
      obtain ⟨first, hfirst, h⟩ := bind_eq_ok.mp h
      obtain ⟨rest, hrest, h⟩ := bind_eq_ok.mp h
      cases h
      cases i with
      | zero => exact hfirst
      | succ i =>
          have hcolumn := ih hrest i (Nat.lt_of_succ_lt_succ hi) (Nat.lt_of_succ_lt_succ hi')
          rw [Nat.add_assoc, Nat.add_comm 1 i] at hcolumn
          exact hcolumn

end Columns

variable {schema : List ColumnDef}

theorem aggregate_schema_eq_ok {env : Environment} {lower : String → String} {groupBy : List Expr}
    {aggregates : List Aggregation} {columns : List ColumnDef} :
    aggregateSchema env lower groupBy aggregates schema = .ok columns ↔
      ∃ keys values, columnsFrom (groupColumn schema) 1 groupBy = .ok keys ∧
        columnsFrom (aggregateColumn env lower schema) 1 aggregates = .ok values ∧
        columns = keys ++ values := by
  rw [aggregateSchema, bind_eq_ok]
  simp only [bind_eq_ok, Except.ok.injEq]
  constructor
  · rintro ⟨keys, hkeys, values, hvalues, rfl⟩
    exact ⟨keys, values, hkeys, hvalues, rfl⟩
  · rintro ⟨keys, values, hkeys, hvalues, rfl⟩
    exact ⟨keys, hkeys, values, hvalues, rfl⟩

theorem find_column_eq_ok {name : String} {column : ColumnDef} :
    findColumn name schema = .ok column ↔
      schema.find? (fun column => column.name = name) = some column := by
  rw [findColumn]
  cases schema.find? (fun column => column.name = name) with
  | none => simp
  | some found => simp

theorem name_of_find_column {name : String} {column : ColumnDef}
    (h : findColumn name schema = .ok column) : column.name = name := by
  have hfound := List.find?_some (find_column_eq_ok.mp h)
  exact of_decide_eq_true hfound

end SoupDB
