import SoupDB.Query.AggregateTypes
import SoupDB.Query.Sort

/-!
# SoupDB: aggregates in the SELECT list and in ORDER BY

The planner collects the aggregates of a grouped SELECT, has them computed by one Aggregate
operator, and replaces each by a reference to the generated name of its column.  References
are looked up by the first column with the name, and the columns of the GROUP BY keys, which
keep the names of the table, stand before those of the aggregates.

Main fact: `resolution_exact`.  A reference gives the value of its aggregate exactly when no
key before it carries the generated name with another value.
-/

namespace SoupDB

open List

/-! ## Equality of expressions -/

namespace Value

mutual

/-- `==` or the same object, where floats of the same bits count as one object. -/
def sameOrEq : Value → Value → Bool
  | .float x, .float y => x = y || eq (.float x) (.float y)
  | .tuple items, .tuple items' => sameOrEqItems items items'
  | a, b => eq a b

def sameOrEqItems : List Value → List Value → Bool
  | [], [] => true
  | item :: items, item' :: items' => sameOrEq item item' && sameOrEqItems items items'
  | _, _ => false

end

mutual

theorem sameOrEq_refl : ∀ a : Value, sameOrEq a a = true
  | .null => rfl
  | .str _ => by simp [sameOrEq, eq]
  | .bool _ | .int _ => by simp [sameOrEq, eq, number?, numbersEq]
  | .float _ => by simp [sameOrEq]
  | .tuple items => by simp [sameOrEq, sameOrEqItems_refl items]

theorem sameOrEqItems_refl : ∀ items : List Value, sameOrEqItems items items = true
  | [] => rfl
  | item :: items => by simp [sameOrEqItems, sameOrEq_refl item, sameOrEqItems_refl items]

end

end Value

namespace Expr

mutual

/-- `left == right`: the same node with equal fields, where literals compare as values. -/
def eq : Expr → Expr → Bool
  | .Literal value, .Literal value' => value.sameOrEq value'
  | .Parameter index, .Parameter index' => index = index'
  | .ColumnRef name, .ColumnRef name' => name = name'
  | .StarExpr, .StarExpr => true
  | .CompareExpr left op right, .CompareExpr left' op' right' =>
      eq left left' && op = op' && eq right right'
  | .BinaryExpr left op right, .BinaryExpr left' op' right' =>
      eq left left' && op = op' && eq right right'
  | .IsNullExpr value negated, .IsNullExpr value' negated' =>
      eq value value' && negated = negated'
  | .LogicalExpr left op right, .LogicalExpr left' op' right' =>
      eq left left' && op = op' && eq right right'
  | .NotExpr operand, .NotExpr operand' => eq operand operand'
  | .BetweenExpr value lo hi, .BetweenExpr value' lo' hi' =>
      eq value value' && eq lo lo' && eq hi hi'
  | .InExpr value items, .InExpr value' items' => eq value value' && eqItems items items'
  | .LikeExpr value pattern, .LikeExpr value' pattern' => eq value value' && eq pattern pattern'
  | .MatchExpr column query, .MatchExpr column' query' => column = column' && eq query query'
  | .SimilarToExpr source k, .SimilarToExpr source' k' =>
      eq source source' && k.sameOrEq k'
  | .SearchExpr column query, .SearchExpr column' query' => column = column' && eq query query'
  | .ScoreExpr kind, .ScoreExpr kind' => kind = kind'
  | .BoundScoreExpr position kind, .BoundScoreExpr position' kind' =>
      position = position' && kind = kind'
  | .FunctionExpr name arg distinct, .FunctionExpr name' arg' distinct' =>
      name = name' && eqArg arg arg' && distinct = distinct'
  | .PointExpr x y, .PointExpr x' y' => eq x x' && eq y y'
  | .DistanceExpr left right metric, .DistanceExpr left' right' metric' =>
      eq left left' && eq right right' && metric = metric'
  | .PolygonExpr vertices, .PolygonExpr vertices' => eqItems vertices vertices'
  | .IntersectsExpr left right, .IntersectsExpr left' right' => eq left left' && eq right right'
  | _, _ => false

def eqArg : Option Expr → Option Expr → Bool
  | none, none => true
  | some arg, some arg' => eq arg arg'
  | _, _ => false

def eqItems : List Expr → List Expr → Bool
  | [], [] => true
  | item :: items, item' :: items' => eq item item' && eqItems items items'
  | _, _ => false

end

mutual

theorem eq_refl : ∀ expr : Expr, eq expr expr = true
  | .Literal value => Value.sameOrEq_refl value
  | .Parameter _ | .ColumnRef _ | .ScoreExpr _ => by simp [eq]
  | .BoundScoreExpr _ _ => by simp [eq]
  | .StarExpr => rfl
  | .CompareExpr left _ right | .BinaryExpr left _ right | .LogicalExpr left _ right => by
      simp [eq, eq_refl left, eq_refl right]
  | .DistanceExpr left right _ => by simp [eq, eq_refl left, eq_refl right]
  | .IsNullExpr value _ => by simp [eq, eq_refl value]
  | .NotExpr operand => by simp [eq, eq_refl operand]
  | .BetweenExpr value lo hi => by simp [eq, eq_refl value, eq_refl lo, eq_refl hi]
  | .InExpr value items => by simp [eq, eq_refl value, eq_items_refl items]
  | .LikeExpr left right | .PointExpr left right | .IntersectsExpr left right => by
      simp [eq, eq_refl left, eq_refl right]
  | .MatchExpr _ query | .SearchExpr _ query => by simp [eq, eq_refl query]
  | .SimilarToExpr source k => by simp [eq, eq_refl source, Value.sameOrEq_refl k]
  | .FunctionExpr _ arg _ => by simp [eq, eq_arg_refl arg]
  | .PolygonExpr vertices => by simp [eq, eq_items_refl vertices]

theorem eq_arg_refl : ∀ arg : Option Expr, eqArg arg arg = true
  | none => rfl
  | some arg => eq_refl arg

theorem eq_items_refl : ∀ items : List Expr, eqItems items items = true
  | [] => rfl
  | item :: items => by simp [eqItems, eq_refl item, eq_items_refl items]

end

end Expr

/-- `left == right` of two aggregates. -/
def Aggregation.eq (left right : Aggregation) : Bool :=
  Expr.eq (.FunctionExpr left.name left.arg left.distinct)
    (.FunctionExpr right.name right.arg right.distinct)

theorem Aggregation.eq_refl (agg : Aggregation) : agg.eq agg = true := Expr.eq_refl _

/-! ## Collecting the aggregates -/

mutual

/-- The aggregates of an expression, from the outside in and from left to right. -/
def walk : Expr → List Aggregation
  | .FunctionExpr name arg distinct => ⟨name, arg, distinct⟩ :: walkArg arg
  | .CompareExpr left _ right | .LogicalExpr left _ right | .DistanceExpr left right _
  | .IntersectsExpr left right => walk left ++ walk right
  | .NotExpr operand => walk operand
  | .BetweenExpr value lo hi => walk value ++ (walk lo ++ walk hi)
  | .InExpr value items => walk value ++ walkItems items
  | .LikeExpr value pattern => walk value ++ walk pattern
  | .PointExpr x y => walk x ++ walk y
  | .PolygonExpr vertices => walkItems vertices
  | _ => []

def walkArg : Option Expr → List Aggregation
  | none => []
  | some arg => walk arg

def walkItems : List Expr → List Aggregation
  | [] => []
  | item :: items => walk item ++ walkItems items

end

/-- The keys of `dict.fromkeys(found)`, after those the dictionary has. -/
def fromkeys : List Aggregation → List Aggregation → List Aggregation
  | keys, [] => keys
  | keys, agg :: found =>
      if keys.any (fun key => agg.eq key) then fromkeys keys found
      else fromkeys (keys ++ [agg]) found

/-- One projected column in a SELECT list. -/
structure SelectColumn where
  expr : Expr
  aliasName : Option String

def collectAggregates (columns : List SelectColumn) (orderBy : List (OrderByItem Expr)) :
    List Aggregation :=
  fromkeys [] (columns.flatMap (fun selection => walk selection.expr) ++
    orderBy.flatMap (fun item => walk item.expr))

/-! ## Resolving names -/

/-- The projection that an alias names: the last one with it.  An empty alias names none. -/
def projectionAlias (columns : List SelectColumn) (name : String) : Option Expr :=
  if name = "" then none
  else
    (columns.reverse.find? (fun selection => selection.aliasName = some name)).map SelectColumn.expr

/-- ORDER BY keys that name an alias are replaced with its expression. -/
def resolveAliasOrderBy (columns : List SelectColumn) (orderBy : List (OrderByItem Expr)) :
    List (OrderByItem Expr) :=
  orderBy.map (fun item =>
    match item.expr with
    | .ColumnRef name => ⟨(projectionAlias columns name).getD item.expr, item.ascending⟩
    | expr => ⟨expr, item.ascending⟩)

/-- The name of the column of the first aggregate that is equal to an expression; the
aggregates are numbered from a position on. -/
def aggregateReference (lower : String → String) (expr : Aggregation) :
    Nat → List Aggregation → Option String
  | _, [] => none
  | position, agg :: aggregates =>
      if expr.eq agg then some (aggregateName lower position agg)
      else aggregateReference lower expr (position + 1) aggregates

/-- An aggregate becomes a reference to its column. -/
def resolveAggregate (lower : String → String) (aggregates : List Aggregation) : Expr → Expr
  | .FunctionExpr name arg distinct =>
      match aggregateReference lower ⟨name, arg, distinct⟩ 1 aggregates with
      | some column => .ColumnRef column
      | none => .FunctionExpr name arg distinct
  | expr => expr

def resolveAggregateProjections (lower : String → String) (projections : List SelectColumn)
    (aggregates : List Aggregation) : List SelectColumn :=
  projections.map (fun selection =>
    ⟨resolveAggregate lower aggregates selection.expr, selection.aliasName⟩)

def resolveAggregateOrderBy (lower : String → String) (orderBy : List (OrderByItem Expr))
    (aggregates : List Aggregation) : List (OrderByItem Expr) :=
  orderBy.map (fun item => ⟨resolveAggregate lower aggregates item.expr, item.ascending⟩)

/-! ## Planning -/

mutual

/-- Raise early when an expression references a column missing from the schema. -/
def validateColumns (schema : List ColumnDef) : Expr → Except PyError Unit
  | .ColumnRef name => do
      let _ ← findColumn name schema
      .ok ()
  | .CompareExpr left _ right | .LogicalExpr left _ right | .DistanceExpr left right _
  | .IntersectsExpr left right | .LikeExpr left right | .PointExpr left right => do
      validateColumns schema left
      validateColumns schema right
  | .NotExpr operand => validateColumns schema operand
  | .BetweenExpr value lo hi => do
      validateColumns schema value
      validateColumns schema lo
      validateColumns schema hi
  | .InExpr value items => do
      validateColumns schema value
      validateItems schema items
  | .FunctionExpr _ arg _ => validateArg schema arg
  | .PolygonExpr vertices => validateItems schema vertices
  | _ => .ok ()

def validateArg (schema : List ColumnDef) : Option Expr → Except PyError Unit
  | none => .ok ()
  | some arg => validateColumns schema arg

def validateItems (schema : List ColumnDef) : List Expr → Except PyError Unit
  | [] => .ok ()
  | item :: items => do
      validateColumns schema item
      validateItems schema items

end

/-- `value or default` of two names. -/
def nameOr (name default : String) : String := if name = "" then default else name

def projectedColumn (schema : List ColumnDef) (index : Nat) (selection : SelectColumn) :
    Except PyError ColumnDef := do
  let column ← inferType selection.expr schema
  let name := nameOr (selection.aliasName.getD "") (nameOr column.name s!"column_{index}")
  .ok ⟨name, column.typeName, column.length⟩

def inferSchema (projections : List SelectColumn) (schema : List ColumnDef) :
    Except PyError (List ColumnDef) :=
  columnsFrom (projectedColumn schema) 1 projections

/-- The plan of a grouped SELECT, above its Aggregate operator. -/
structure GroupedPlan where
  /-- The schema of the rows of the Aggregate operator. -/
  schema : List ColumnDef
  orderBy : List (OrderByItem Expr)
  selections : List SelectColumn
  outputSchema : List ColumnDef

def planGrouped (env : Environment) (lower : String → String) (columns : List SelectColumn)
    (groupBy : List Expr) (orderBy : List (OrderByItem Expr)) (schema : List ColumnDef) :
    Except PyError GroupedPlan :=
  let aggregates := collectAggregates columns orderBy
  if columns.isEmpty then
    .error (.QueryExecutionError "SELECT * cannot be combined with GROUP BY or aggregate functions")
  else do
    let orderBy := resolveAggregateOrderBy lower (resolveAliasOrderBy columns orderBy)
      aggregates
    let schema ← aggregateSchema env lower groupBy aggregates schema
    orderBy.forM (fun item => validateColumns schema item.expr)
    let selections := resolveAggregateProjections lower columns aggregates
    let outputSchema ← inferSchema selections schema
    .ok ⟨schema, orderBy, selections, outputSchema⟩

/-! ## Every aggregate is collected -/

variable {found aggregates : List Aggregation} {columns : List SelectColumn} {expr : Expr}
    {orderBy : List (OrderByItem Expr)} {schema : List ColumnDef} {lower : String → String}

theorem mem_fromkeys :
    ∀ {keys : List Aggregation} {agg : Aggregation}, agg ∈ keys → agg ∈ fromkeys keys found := by
  induction found with
  | nil =>
      intro keys agg h
      exact h
  | cons first found ih =>
      intro keys agg h
      rw [fromkeys]
      split
      · exact ih h
      · exact ih (mem_append_left _ h)

theorem exists_eq_fromkeys :
    ∀ {keys : List Aggregation} {agg : Aggregation}, agg ∈ found →
      ∃ key ∈ fromkeys keys found, agg.eq key = true := by
  induction found with
  | nil =>
      intro keys agg h
      cases h
  | cons first found ih =>
      intro keys agg h
      rw [fromkeys]
      rcases mem_cons.mp h with rfl | h
      · split
        · next hany =>
            obtain ⟨key, hkey, heq⟩ := any_eq_true.mp hany
            exact ⟨key, mem_fromkeys hkey, heq⟩
        · exact ⟨agg, mem_fromkeys (mem_append_right _ mem_cons_self), agg.eq_refl⟩
      · split
        · exact ih h
        · exact ih h

/-- The expressions of the SELECT list and, after the aliases, those of ORDER BY. -/
def plannedItems (columns : List SelectColumn) (orderBy : List (OrderByItem Expr)) : List Expr :=
  columns.map SelectColumn.expr ++
    (resolveAliasOrderBy columns orderBy).map OrderByItem.expr

theorem mem_of_projection_alias {name : String} (h : projectionAlias columns name = some expr) :
    expr ∈ columns.map SelectColumn.expr := by
  rw [projectionAlias] at h
  split at h
  · cases h
  · obtain ⟨selection, hfind, rfl⟩ := Option.map_eq_some_iff.mp h
    exact mem_map_of_mem (mem_reverse.mp (mem_of_find?_eq_some hfind))

theorem mem_of_planned_items (h : expr ∈ plannedItems columns orderBy) :
    expr ∈ columns.map SelectColumn.expr ∨ expr ∈ orderBy.map OrderByItem.expr := by
  rcases mem_append.mp h with h | h
  · exact Or.inl h
  · rw [resolveAliasOrderBy, map_map] at h
    obtain ⟨item, hitem, rfl⟩ := mem_map.mp h
    rw [Function.comp_apply]
    split
    · next name hname =>
        dsimp only
        cases halias : projectionAlias columns name with
        | none => exact Or.inr (mem_map_of_mem hitem)
        | some expr => exact Or.inl (mem_of_projection_alias halias)
    · exact Or.inr (mem_map_of_mem hitem)

theorem exists_eq_collected {name : String} {arg : Option Expr} {distinct : Bool}
    (h : .FunctionExpr name arg distinct ∈ plannedItems columns orderBy) :
    ∃ agg ∈ collectAggregates columns orderBy,
      Aggregation.eq ⟨name, arg, distinct⟩ agg = true := by
  have hwalk : (⟨name, arg, distinct⟩ : Aggregation) ∈ walk (.FunctionExpr name arg distinct) := by
    rw [walk]
    exact mem_cons_self
  refine exists_eq_fromkeys ?_
  rcases mem_of_planned_items h with h | h
  · obtain ⟨selection, hselection, hexpr⟩ := mem_map.mp h
    refine mem_append_left _ (mem_flatMap.mpr ⟨selection, hselection, ?_⟩)
    rw [hexpr]
    exact hwalk
  · obtain ⟨item, hitem, hexpr⟩ := mem_map.mp h
    refine mem_append_right _ (mem_flatMap.mpr ⟨item, hitem, ?_⟩)
    rw [hexpr]
    exact hwalk

/-! ## Names and positions -/

def keyName (index : Nat) : Expr → String
  | .ColumnRef name => name
  | _ => s!"group_{index}"

def keyNames (groupBy : List Expr) : List String :=
  groupBy.mapIdx (fun index expr => keyName (index + 1) expr)

def keyPosition (groupBy : List Expr) (name : String) : Option Nat :=
  (keyNames groupBy).findIdx? (· = name)

theorem name_of_group_column {index : Nat} {column : ColumnDef}
    (h : groupColumn schema index expr = .ok column) :
    column.name = keyName index expr := by
  cases expr with
  | ColumnRef name => exact name_of_find_column h
  | _ =>
      obtain ⟨inferred, _, h⟩ := bind_eq_ok.mp h
      cases h
      rfl

theorem names_of_keys {keys : List ColumnDef} {groupBy : List Expr}
    (h : columnsFrom (groupColumn schema) 1 groupBy = .ok keys) :
    keys.map ColumnDef.name = keyNames groupBy := by
  have hlength := length_columns_from h
  refine ext_getElem (by simp [keyNames, hlength]) (fun i hi hi' => ?_)
  rw [length_map] at hi
  have hcolumn := column_of_columns_from h i (hlength ▸ hi) hi
  rw [getElem_map, name_of_group_column hcolumn]
  simp [keyNames, Nat.add_comm]

theorem names_of_values {env : Environment} {values : List ColumnDef}
    (h : columnsFrom (aggregateColumn env lower schema) 1 aggregates = .ok values) :
    values.map ColumnDef.name =
      aggregates.mapIdx (fun index agg => aggregateName lower (index + 1) agg) := by
  have hlength := length_columns_from h
  refine ext_getElem (by simp [hlength]) (fun i hi hi' => ?_)
  rw [length_map] at hi
  have hcolumn := column_of_columns_from h i (hlength ▸ hi) hi
  obtain ⟨typeName, _, hcolumn⟩ := bind_eq_ok.mp hcolumn
  rw [getElem_map, ← Except.ok.inj hcolumn]
  simp [Nat.add_comm]

theorem toList_aggregate_name (lower : String → String) (index : Nat) (agg : Aggregation) :
    (aggregateName lower index agg).toList =
      (lower agg.name).toList ++ '_' :: Nat.toDigits 10 index := by
  simp [aggregateName, toString, String.toList_append, Nat.toList_repr]

/-- The generated names of different positions are different, whatever the aggregates. -/
theorem aggregate_name_inj {i j : Nat} {agg agg' : Aggregation}
    (h : aggregateName lower i agg = aggregateName lower j agg') : i = j := by
  have hlist := congrArg (fun name => name.toList.reverse) h
  simp only [toList_aggregate_name, reverse_append, reverse_cons, append_assoc,
    singleton_append] at hlist
  have hdigits : ∀ k, ∀ c ∈ (Nat.toDigits 10 k).reverse, c.isDigit = true := fun k c hc =>
    Nat.isDigit_of_mem_toDigits (by decide) (by decide) (mem_reverse.mp hc)
  have htake := congrArg (takeWhile Char.isDigit) hlist
  rw [takeWhile_append_of_pos (hdigits i), takeWhile_append_of_pos (hdigits j),
    takeWhile_cons_of_neg (by decide), takeWhile_cons_of_neg (by decide),
    append_nil, append_nil, reverse_inj] at htake
  have hij := congrArg (fun digits => Nat.ofDigitChars 10 digits 0) htake
  simpa only [Nat.ofDigitChars_ten_toDigits] using hij

theorem aggregate_position {i : Nat} (hi : i < aggregates.length) :
    (aggregates.mapIdx (fun index agg => aggregateName lower (index + 1) agg)).findIdx?
      (· = aggregateName lower (i + 1) aggregates[i]) = some i := by
  rw [findIdx?_eq_some_iff_getElem]
  refine ⟨by rwa [length_mapIdx], by simp, fun j hj => ?_⟩
  rw [getElem_mapIdx, decide_eq_true_iff]
  intro hname
  have := aggregate_name_inj hname
  omega

theorem aggregate_reference_eq {expr : Aggregation} :
    ∀ {position i : Nat}, aggregates.findIdx? (fun agg => expr.eq agg) = some i →
      ∀ hi : i < aggregates.length, aggregateReference lower expr position aggregates =
        some (aggregateName lower (position + i) aggregates[i]) := by
  induction aggregates with
  | nil =>
      intro position i _ hi
      cases hi
  | cons agg aggregates ih =>
      intro position i hfind hi
      rw [findIdx?_cons] at hfind
      rw [aggregateReference]
      split
      · next heq =>
          rw [if_pos heq] at hfind
          cases hfind
          rfl
      · next heq =>
          rw [if_neg heq] at hfind
          obtain ⟨j, hj, rfl⟩ := Option.map_eq_some_iff.mp hfind
          rw [ih hj (Nat.lt_of_succ_lt_succ hi), getElem_cons_succ, Nat.add_assoc,
            Nat.add_comm 1 j]

/-! ## The value of a reference -/

/-- What a planned item is to give in the row of a group: an aggregate its value over the rows
of the group, a group column the value of the key. -/
def Gives (a : AggregateOperator) (group : List Obj × List Row) (expr : Expr)
    (result : Except PyError Obj) : Prop :=
  match expr with
  | .FunctionExpr name arg distinct =>
      result = evaluateAggregate a.env ⟨name, arg, distinct⟩ group.2 a.inputSchema
  | .ColumnRef name =>
      ∀ i : Nat, a.groupBy[i]? = some (.ColumnRef name) → ∀ obj, group.1[i]? = some obj →
        result = .ok obj
  | _ => True

/-- What stands in the place of a planned item has its value: the first key with the generated
name of an aggregate, or else the first aggregate that is equal to it; the key of an
expression with the name of a group column. -/
def Unshadowed (a : AggregateOperator) (lower : String → String) (group : List Obj × List Row)
    (expr : Expr) : Prop :=
  match expr with
  | .FunctionExpr name arg distinct =>
      ∀ p, a.aggregates.findIdx? (fun agg => Aggregation.eq ⟨name, arg, distinct⟩ agg) = some p →
        ∀ agg, a.aggregates[p]? = some agg →
        let value := evaluateAggregate a.env ⟨name, arg, distinct⟩ group.2 a.inputSchema
        match keyPosition a.groupBy (aggregateName lower (p + 1) agg) with
        | some i => ∀ obj, group.1[i]? = some obj → value = .ok obj
        | none => value = evaluateAggregate a.env agg group.2 a.inputSchema
  | .ColumnRef name =>
      ∀ i, keyPosition a.groupBy name = some i → a.groupBy[i]? ≠ some (.ColumnRef name) →
        ∀ j : Nat, a.groupBy[j]? = some (.ColumnRef name) → group.1[i]? = group.1[j]?
  | _ => True

/-- Every planned item gives its value in the row of a group. -/
def Resolved (a : AggregateOperator) (columns : List SelectColumn)
    (orderBy : List (OrderByItem Expr)) (plan : GroupedPlan) (group : List Obj × List Row)
    (row : Row) : Prop :=
  List.Forall₂ (fun expr reference => Gives a group expr (evaluate a.env row plan.schema reference))
    (plannedItems columns orderBy)
    (plan.selections.map SelectColumn.expr ++ plan.orderBy.map OrderByItem.expr)

section Groups

variable {a : AggregateOperator} {lower : String → String} {schema : List ColumnDef}
  {group : List Obj × List Row} {row : Row}

variable {groupBy : List Expr} {name : String} {objs : List Obj}

theorem length_key_names : (keyNames groupBy).length = groupBy.length :=
  length_mapIdx

theorem schema_position
    (hschema : aggregateSchema a.env lower a.groupBy a.aggregates a.inputSchema = .ok schema)
    (name : String) :
    schema.findIdx? (fun column => column.name = name) =
      (keyPosition a.groupBy name).or
        (((a.aggregates.mapIdx (fun index agg => aggregateName lower (index + 1) agg)).findIdx?
          (· = name)).map (· + a.groupBy.length)) := by
  obtain ⟨keys, values, hkeys, hvalues, rfl⟩ := aggregate_schema_eq_ok.mp hschema
  have hmap : (keys ++ values).findIdx? (fun column => column.name = name) =
      ((keys ++ values).map ColumnDef.name).findIdx? (· = name) := by
    rw [findIdx?_map]
    rfl
  rw [hmap, map_append, names_of_keys hkeys, names_of_values hvalues, findIdx?_append,
    length_key_names]
  rfl

theorem evaluate_at {env : Environment} {i : Nat} {obj : Obj}
    (hindex : schema.findIdx? (fun column => column.name = name) = some i)
    (hobj : (row.map Obj.value)[i]? = some obj) :
    evaluate env row schema (.ColumnRef name) = .ok obj := by
  rw [getElem?_map] at hobj
  obtain ⟨value, hvalue, rfl⟩ := Option.map_eq_some_iff.mp hobj
  rw [evaluate, columnValue]
  simp only [hindex, hvalue]
  rfl

theorem evaluate_key
    (hschema : aggregateSchema a.env lower a.groupBy a.aggregates a.inputSchema = .ok schema)
    (hrow : row.map Obj.value = group.1 ++ objs) {i : Nat}
    (hi : keyPosition a.groupBy name = some i) {obj : Obj} (hobj : group.1[i]? = some obj) :
    evaluate a.env row schema (.ColumnRef name) = .ok obj := by
  refine evaluate_at (i := i) ?_ ?_
  · rw [schema_position hschema, hi]
    rfl
  · rw [hrow, getElem?_append_left (List.getElem?_eq_some_iff.mp hobj).1, hobj]

theorem lt_of_key_position {i : Nat} (h : keyPosition groupBy name = some i) :
    i < groupBy.length := by
  obtain ⟨hi, _⟩ := findIdx?_eq_some_iff_getElem.mp h
  rwa [length_key_names] at hi

theorem exists_key_position {j : Nat} (h : groupBy[j]? = some (Expr.ColumnRef name)) :
    ∃ i, keyPosition groupBy name = some i := by
  cases hposition : keyPosition groupBy name with
  | some i => exact ⟨i, rfl⟩
  | none =>
      obtain ⟨hj, hexpr⟩ := List.getElem?_eq_some_iff.mp h
      have hmem : keyName (j + 1) groupBy[j] ∈ keyNames groupBy :=
        mem_iff_getElem.mpr ⟨j, by rwa [length_key_names], by simp [keyNames]⟩
      have hne := findIdx?_eq_none_iff.mp hposition _ hmem
      rw [hexpr, keyName] at hne
      simp at hne

section

variable {r : Row}
    (hschema : aggregateSchema a.env lower a.groupBy a.aggregates a.inputSchema = .ok schema)
    (hrow : row.map Obj.value = group.1 ++ objs) (hkey : a.keys r = .ok group.1)
include hschema hrow hkey

theorem gives_column_iff (name : String) :
    Gives a group (.ColumnRef name) (evaluate a.env row schema (.ColumnRef name)) ↔
      Unshadowed a lower group (.ColumnRef name) := by
  have hkeys := mapM_eq_ok.mp hkey
  have hlength := hkeys.length_eq
  have hsame : ∀ {i j : Nat}, a.groupBy[i]? = some (Expr.ColumnRef name) →
      a.groupBy[j]? = some (Expr.ColumnRef name) → group.1[i]? = group.1[j]? := by
    intro i j hi hj
    obtain ⟨hi', hi⟩ := List.getElem?_eq_some_iff.mp hi
    obtain ⟨hj', hj⟩ := List.getElem?_eq_some_iff.mp hj
    have hiobj := (forall₂_iff_get.mp hkeys).2 i hi' (hlength ▸ hi')
    have hjobj := (forall₂_iff_get.mp hkeys).2 j hj' (hlength ▸ hj')
    simp only [get_eq_getElem, hi, hj] at hiobj hjobj
    rw [hiobj] at hjobj
    rw [getElem?_eq_getElem (hlength ▸ hi'), getElem?_eq_getElem (hlength ▸ hj'),
      Except.ok.inj hjobj]
  constructor
  · intro hgives i hi _ j hj
    have hi' : i < group.1.length := hlength ▸ lt_of_key_position hi
    have hj' : j < group.1.length := hlength ▸ (List.getElem?_eq_some_iff.mp hj).1
    have hresult := evaluate_key hschema hrow hi (getElem?_eq_getElem hi')
    have hvalue := hgives j hj _ (getElem?_eq_getElem hj')
    rw [hresult] at hvalue
    rw [getElem?_eq_getElem hi', getElem?_eq_getElem hj', Except.ok.inj hvalue]
  · intro hname j hj obj hobj
    obtain ⟨i, hi⟩ := exists_key_position hj
    have hij : group.1[i]? = group.1[j]? := by
      by_cases hcolumn : a.groupBy[i]? = some (Expr.ColumnRef name)
      · exact hsame hcolumn hj
      · exact hname i hi hcolumn j hj
    exact evaluate_key hschema hrow hi (hij.trans hobj)

/-- An aggregate that equals a collected one is looked up among the keys, and then at the
position of the first aggregate that is equal to it. -/
theorem gives_aggregate_iff
    (hobjs : a.aggregates.mapM (fun expr =>
      evaluateAggregate a.env expr group.2 a.inputSchema) = .ok objs) {arg : Option Expr}
    {distinct : Bool}
    (hcollected : ∃ agg ∈ a.aggregates, Aggregation.eq ⟨name, arg, distinct⟩ agg = true) :
    Gives a group (.FunctionExpr name arg distinct) (evaluate a.env row schema
        (resolveAggregate lower a.aggregates (.FunctionExpr name arg distinct))) ↔
      Unshadowed a lower group (.FunctionExpr name arg distinct) := by
  obtain ⟨p, hp⟩ : ∃ p,
      a.aggregates.findIdx? (fun agg => Aggregation.eq ⟨name, arg, distinct⟩ agg) = some p := by
    cases hfind : a.aggregates.findIdx? (fun agg => Aggregation.eq ⟨name, arg, distinct⟩ agg) with
    | some p => exact ⟨p, rfl⟩
    | none =>
        obtain ⟨agg, hagg, heq⟩ := hcollected
        rw [findIdx?_eq_none_iff.mp hfind agg hagg] at heq
        cases heq
  obtain ⟨hp', _⟩ := findIdx?_eq_some_iff_getElem.mp hp
  have hlength := (mapM_eq_ok.mp hkey).length_eq
  rw [resolveAggregate, aggregate_reference_eq hp hp']
  dsimp only
  rw [Nat.add_comm 1 p]
  simp only [Gives, Unshadowed, hp, Option.some.injEq, forall_eq', getElem?_eq_getElem hp']
  cases hi : keyPosition a.groupBy (aggregateName lower (p + 1) a.aggregates[p]) with
  | some i =>
      have hi' : i < group.1.length := hlength ▸ lt_of_key_position hi
      rw [evaluate_key hschema hrow hi (getElem?_eq_getElem hi')]
      simp only [getElem?_eq_getElem hi', Option.some.injEq, forall_eq']
      exact eq_comm
  | none =>
      have hvalues := mapM_eq_ok.mp hobjs
      have hp'' : p < objs.length := hvalues.length_eq ▸ hp'
      have hresult : evaluate a.env row schema
          (.ColumnRef (aggregateName lower (p + 1) a.aggregates[p])) = .ok objs[p] := by
        refine evaluate_at (i := p + a.groupBy.length) ?_ ?_
        · rw [schema_position hschema, hi, aggregate_position hp']
          rfl
        · rw [hrow, hlength, Nat.add_comm, getElem?_append_right (Nat.le_add_right _ _),
            Nat.add_sub_cancel_left, getElem?_eq_getElem hp'']
      rw [hresult]
      have hvalue := (forall₂_iff_get.mp hvalues).2 p hp' hp''
      simp only [get_eq_getElem] at hvalue
      dsimp only
      rw [hvalue]
      exact eq_comm

end

theorem resolved_iff {columns : List SelectColumn} {orderBy : List (OrderByItem Expr)}
    {plan : GroupedPlan}
    (hplan : planGrouped a.env lower columns a.groupBy orderBy a.inputSchema = .ok plan)
    (haggregates : a.aggregates = collectAggregates columns orderBy) {r : Row}
    (hkey : a.keys r = .ok group.1)
    (hrow : a.groupValues group.1 group.2 = .ok (row.map Obj.value)) :
    Resolved a columns orderBy plan group row ↔
      ∀ expr ∈ plannedItems columns orderBy, Unshadowed a lower group expr := by
  rw [planGrouped, ← haggregates] at hplan
  split at hplan
  · cases hplan
  · obtain ⟨schema, hschema, hplan⟩ := bind_eq_ok.mp hplan
    obtain ⟨_, _, hplan⟩ := bind_eq_ok.mp hplan
    obtain ⟨outputSchema, _, hplan⟩ := bind_eq_ok.mp hplan
    cases hplan
    obtain ⟨objs, hobjs, hrow⟩ := bind_eq_ok.mp hrow
    have hrow := (Except.ok.inj hrow).symm
    have hreferences : (resolveAggregateProjections lower columns a.aggregates).map
          SelectColumn.expr ++
        (resolveAggregateOrderBy lower (resolveAliasOrderBy columns orderBy)
          a.aggregates).map OrderByItem.expr =
        (plannedItems columns orderBy).map (resolveAggregate lower a.aggregates) := by
      simp [resolveAggregateProjections, resolveAggregateOrderBy, plannedItems,
        Function.comp_def]
    rw [Resolved, hreferences, forall₂_map_right_iff, forall₂_same]
    refine forall₂_congr (fun expr hexpr => ?_)
    cases expr with
    | FunctionExpr name arg distinct =>
        exact gives_aggregate_iff hschema hrow hkey hobjs (haggregates ▸ exists_eq_collected hexpr)
    | ColumnRef name => exact gives_column_iff hschema hrow hkey name
    | _ => exact Iff.rfl

end Groups

/-- Planned aggregates and group columns give their values in all groups if and only if in each
group what stands in their places has these values: the first key with the generated name of
an aggregate or, where there is none, the first aggregate that is equal to it, and the key of
an expression with the name of a group column. -/
theorem resolution_exact (a : AggregateOperator) {plan : GroupedPlan}
    {records : List RecordFile.Record} {groups : List (List Obj × List Row)} {rows : List Row}
    (hplan : planGrouped a.env lower columns a.groupBy orderBy a.inputSchema = .ok plan)
    (haggregates : a.aggregates = collectAggregates columns orderBy)
    (hgroups : a.groupRows records (if a.groupBy.isEmpty then [([], [])] else []) = .ok groups)
    (hrows : List.Forall₂ (fun group row =>
      a.groupValues group.1 group.2 = .ok (row.map Obj.value)) groups rows) :
    List.Forall₂ (Resolved a columns orderBy plan) groups rows ↔
      ∀ group ∈ groups, ∀ expr ∈ plannedItems columns orderBy, Unshadowed a lower group expr := by
  have hstart : ∀ g ∈ (if a.groupBy.isEmpty then [([], [])] else [] : List (List Obj × List Row)),
      a.OfRows (fun _ => True) g := by
    intro g hg
    split at hg
    · next hempty =>
        rw [mem_singleton.mp hg]
        exact ⟨fun _ _ => trivial, Or.inl ⟨List.isEmpty_iff.mp hempty, rfl⟩⟩
    · cases hg
  have hof := AggregateOperator.ofRows_group_rows (fun _ _ _ _ => trivial) hstart hgroups
  clear hgroups
  induction hrows with
  | nil => simp
  | @cons group row groups rows hrow hrows ih =>
      obtain ⟨hgroup, hof⟩ := forall_mem_cons.mp hof
      have hkey : ∃ r, a.keys r = .ok group.1 := by
        rcases hgroup.2 with ⟨hnone, hkey⟩ | ⟨r, _, hkey⟩
        · refine ⟨[], ?_⟩
          rw [AggregateOperator.keys, hnone, hkey]
          rfl
        · exact ⟨r, hkey⟩
      obtain ⟨r, hkey⟩ := hkey
      rw [forall₂_cons, forall_mem_cons]
      exact and_congr (resolved_iff hplan haggregates hkey hrow) (ih hof)

/-- `SELECT <name>, COUNT(*) AS n FROM t GROUP BY <name> ORDER BY n`, on a table with this one
column. -/
def countsOf (name : String) : AggregateOperator where
  env := {
    upper := id
    distinct := id
    nearest := fun _ => 0
    distance := fun _ _ _ => .error "no metric"
    polygon := .ok
    pointInPolygon := fun _ _ => .error "no polygon" }
  groupBy := [.ColumnRef name]
  aggregates := [⟨"COUNT", none, false⟩]
  inputSchema := [⟨name, .INT, none⟩]
  encodeOutput := fun _ => .ok []
  blake2b := id

def countsOfColumns (name : String) : List SelectColumn :=
  [⟨.ColumnRef name, none⟩, ⟨.FunctionExpr "COUNT" none false, some "n"⟩]

def countsOfOrder : List (OrderByItem Expr) := [⟨.ColumnRef "n", true⟩]

/-- `name.lower()` of the names here. -/
def lowerCount (name : String) : String := if name = "COUNT" then "count" else name

def countsOfPlan (name : String) : GroupedPlan where
  schema := [⟨name, .INT, none⟩, ⟨"count_1", .INT, none⟩]
  orderBy := [⟨.ColumnRef "count_1", true⟩]
  selections := [⟨.ColumnRef name, none⟩, ⟨.ColumnRef "count_1", some "n"⟩]
  outputSchema := [⟨name, .INT, none⟩, ⟨"n", .INT, none⟩]

theorem resolution_exact_five :
    List.Forall₂ (Resolved (countsOf "x") (countsOfColumns "x") countsOfOrder (countsOfPlan "x"))
        [([Obj.value (.int 5)], [[Value.int 5]])] [[Value.int 5, Value.int 1]] ↔
      ∀ group ∈ [([Obj.value (.int 5)], [[Value.int 5]])],
        ∀ expr ∈ plannedItems (countsOfColumns "x") countsOfOrder,
          Unshadowed (countsOf "x") lowerCount group expr :=
  resolution_exact (countsOf "x") rfl rfl
    (rfl : (countsOf "x").groupRows [[1, 5, 0, 0, 0]] [] = .ok _)
    (List.Forall₂.cons rfl List.Forall₂.nil)

/-- `SELECT count_1, COUNT(*) AS n FROM t GROUP BY count_1 ORDER BY n` shows the key as the
count. -/
theorem count_shadowed_by_key :
    ¬ ∀ (a : AggregateOperator) (lower : String → String) (columns : List SelectColumn)
      (orderBy : List (OrderByItem Expr)) (plan : GroupedPlan)
      (records : List RecordFile.Record) (groups : List (List Obj × List Row)) (rows : List Row),
      planGrouped a.env lower columns a.groupBy orderBy a.inputSchema = .ok plan →
      a.aggregates = collectAggregates columns orderBy →
      a.groupRows records (if a.groupBy.isEmpty then [([], [])] else []) = .ok groups →
      List.Forall₂ (fun group row =>
        a.groupValues group.1 group.2 = .ok (row.map Obj.value)) groups rows →
      List.Forall₂ (Resolved a columns orderBy plan) groups rows := by
  intro hall
  have hresolved := hall (countsOf "count_1") lowerCount (countsOfColumns "count_1") countsOfOrder
    (countsOfPlan "count_1") [[1, 5, 0, 0, 0]] [([.value (.int 5)], [[.int 5]])]
    [[.int 5, .int 1]] rfl rfl rfl (List.Forall₂.cons rfl List.Forall₂.nil)
  obtain ⟨hrow, _⟩ := forall₂_cons.mp hresolved
  have hcount := (forall₂_iff_get.mp hrow).2 1 (by decide) (by decide)
  have hone : (Except.ok (Obj.value (.int 5)) : Except PyError Obj) =
      .ok (.value (.int 1)) := hcount
  cases hone

end SoupDB
