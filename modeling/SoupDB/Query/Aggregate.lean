import SoupDB.Algorithms.ExternalHash
import SoupDB.Common.Record
import SoupDB.Query.Evaluator

/-!
# SoupDB: the Aggregate operator

Group-by aggregation over the full input: in memory, with the rows of each group and
`evaluateAggregate`; or, with a memory limit, by `externalHashGroupBy` with one running
state for each group.  The encoding of output rows, which both paths use, is a parameter.

Main fact: `aggregate_with_memory_limit`.  Where the group keys can be encoded the two paths
emit the same rows up to their order, or both raise; elsewhere the second raises.
-/

namespace SoupDB

open SameResult List

open RecordFile (Record Sized)
open ExternalHash (Keyed Accepted externalHashGroupBy)
open KeyCodec (encodeKey)

/-- Incremental state of a single aggregate over a group. -/
structure RunningAggregate where
  count : Nat
  total : Total
  reference : Option Obj
  minimum : Option Obj
  maximum : Option Obj

/-- The state of an empty group. -/
def RunningAggregate.start : RunningAggregate := ⟨0, .int 0, none, none, none⟩

/-- The operator, apart from its child. -/
structure AggregateOperator where
  env : Environment
  groupBy : List Expr
  aggregates : List Aggregation
  inputSchema : List ColumnDef
  /-- `encode_row(row, self.schema)`. -/
  encodeOutput : List Obj → Except PyError Record
  /-- The digest of a byte string. -/
  blake2b : Bytes → Bytes

/-- The value of a cell; a row holds no byte strings. -/
def cellValue : Datum → Except PyError Value
  | .null => .ok .null
  | .bool b => .ok (.bool b)
  | .int i => .ok (.int i)
  | .float bits => .ok (.float bits)
  | .str s => .ok (.str s)
  | .tuple [.float x, .float y] => .ok (.tuple [.float x, .float y])
  | value => .error (.TypeError s!"unexpected {value.typeName}")

namespace AggregateOperator

variable (a : AggregateOperator)

def decodeRow (record : Record) : Except PyError Row := do
  let row ← Record.decodeRow record a.inputSchema
  row.mapM cellValue

def keys (row : Row) : Except PyError (List Obj) :=
  a.groupBy.mapM (fun expr => evaluate a.env row a.inputSchema expr)

/-! ## One state for each group -/

/-- The value of a key; a polygon has no encoding. -/
def keyValue : Obj → Except PyError Value
  | .value v => .ok v
  | .polygon _ => .error (.TypeError "unsupported index key type: Polygon2D")

/-- `values[0] if len(values) == 1 else values`. -/
def unwrap (values : List Value) : Value :=
  match values with
  | [value] => value
  | values => .tuple values

def groupKey (record : Record) : Except PyError Value := do
  let row ← a.decodeRow record
  let values ← a.keys row
  let values ← values.mapM keyValue
  .ok (unwrap values)

/-- A value that is not NULL, in the state of an aggregate. -/
def stepValue (name : String) (accumulator : RunningAggregate) (value : Obj) :
    Except PyError RunningAggregate :=
  let accumulator := { accumulator with count := accumulator.count + 1 }
  if name = "SUM" ∨ name = "AVG" then
    if !isNumber value then
      .error (.QueryExecutionError s!"{name} requires numeric values")
    else .ok { accumulator with total := plus accumulator.total (numberValue value) }
  else if name = "MIN" ∨ name = "MAX" then do
    let accumulator ←
      match accumulator.reference with
      | none => .ok { accumulator with reference := some value }
      | some reference =>
          if reference.typeName ≠ value.typeName then
            .error (.QueryExecutionError
              s!"cannot mix {reference.typeName} and {value.typeName} values")
          else .ok accumulator
    if name = "MIN" then
      match accumulator.minimum with
      | none => .ok { accumulator with minimum := some value }
      | some minimum => do
          let smaller ← value.lt minimum
          .ok (if smaller then { accumulator with minimum := some value } else accumulator)
    else
      match accumulator.maximum with
      | none => .ok { accumulator with maximum := some value }
      | some maximum => do
          let larger ← value.gt maximum
          .ok (if larger then { accumulator with maximum := some value } else accumulator)
  else .ok accumulator

def stepRow (expression : Aggregation) (accumulator : RunningAggregate) (row : Row) :
    Except PyError RunningAggregate :=
  let name := a.env.upper expression.name
  match expression.arg with
  | none =>
      .ok (if name = "COUNT" then { accumulator with count := accumulator.count + 1 }
        else accumulator)
  | some arg => do
      let value ← evaluate a.env row a.inputSchema arg
      if value.isNone then .ok accumulator
      else stepValue name accumulator value

def stepStates (row : Row) :
    List Aggregation → List RunningAggregate → Except PyError (List RunningAggregate)
  | expression :: aggregates, accumulator :: state => do
      let accumulator ← a.stepRow expression accumulator row
      let state ← stepStates row aggregates state
      .ok (accumulator :: state)
  | _, _ => .ok []

def aggregateStep (state : Option (List RunningAggregate)) (record : Record) :
    Except PyError (List RunningAggregate) := do
  let row ← a.decodeRow record
  a.stepStates row a.aggregates
    (state.getD (a.aggregates.map (fun _ => RunningAggregate.start)))

/-- The value of an aggregate from its state. -/
def finish (expression : Aggregation) (accumulator : RunningAggregate) : Except PyError Obj :=
  let name := a.env.upper expression.name
  if name = "COUNT" then .ok (.value (.int accumulator.count))
  else if name = "SUM" then .ok (.value (accumulator.total.value a.env))
  else if name = "AVG" then
    if accumulator.count = 0 then
      .error (.QueryExecutionError "AVG of an empty group is undefined")
    else do
      let total ← toFloat a.env accumulator.total
      .ok (.value (.float
        (a.env.nearest (Double.quotient (Double.number total) accumulator.count))))
  else if name = "MIN" then
    if accumulator.count = 0 then
      .error (.QueryExecutionError "MIN of an empty group is undefined")
    else .ok (accumulator.minimum.getD (.value .null))
  else if name = "MAX" then
    if accumulator.count = 0 then
      .error (.QueryExecutionError "MAX of an empty group is undefined")
    else .ok (accumulator.maximum.getD (.value .null))
  else .error (.QueryExecutionError s!"unsupported aggregate {reprStr name}")

def finishGroup (state : List RunningAggregate) : Except PyError (List Obj) :=
  (a.aggregates.zip state).mapM (fun pair => a.finish pair.1 pair.2)

def emitGroup (key : Value) (state : List RunningAggregate) : Except PyError (List Obj) := do
  let values ← a.finishGroup state
  match key with
  | .tuple items => .ok (items.map Obj.value ++ values)
  | key => .ok (Obj.value key :: values)

/-- The output rows with a memory limit. -/
def external (limit : Int) (records : List Record) : Except PyError (List (List Obj)) := do
  let groups ← externalHashGroupBy ⟨limit, 8, 4, a.blake2b⟩ records a.groupKey a.aggregateStep
  groups.mapM (fun group => a.emitGroup group.1 group.2)

/-! ## The rows of each group -/

/-- `==` of two tuples of keys. -/
def eqKeys : List Obj → List Obj → Bool
  | [], [] => true
  | left :: lefts, right :: rights => left.eq right && eqKeys lefts rights
  | _, _ => false

/-- `groups.setdefault(key, []).append(row)` for each record. -/
def groupRows : List Record → List (List Obj × List Row) →
    Except PyError (List (List Obj × List Row))
  | [], groups => .ok groups
  | record :: records, groups => do
      let row ← a.decodeRow record
      let key ← a.keys row
      groupRows records
        (setGroup eqKeys key ((getGroup eqKeys key groups).getD [] ++ [row]) groups)

def groupValues (key : List Obj) (group : List Row) : Except PyError (List Obj) := do
  let values ← a.aggregates.mapM (fun expr =>
    evaluateAggregate a.env expr group a.inputSchema)
  .ok (key ++ values)

/-- The output rows without a memory limit. -/
def inMemory (records : List Record) : Except PyError (List (List Obj)) := do
  let groups ← a.groupRows records (if a.groupBy.isEmpty then [([], [])] else [])
  groups.mapM (fun group => a.groupValues group.1 group.2)

/-- The memory limit of the external path, where it is used. -/
def spill (memoryLimitBytes : Option Int) : Option Int :=
  if a.groupBy.isEmpty || a.aggregates.any (fun expression => expression.distinct) then none
  else memoryLimitBytes

/-- The records the operator emits, from those of its child. -/
def emits (memoryLimitBytes : Option Int) (records : List Record) :
    Except PyError (List Record) := do
  let rows ←
    match a.spill memoryLimitBytes with
    | none => a.inMemory records
    | some limit => a.external limit records
  rows.mapM a.encodeOutput

/-! ## Rows have the types of their columns -/

theorem decode_value_typed {column : ColumnDef} {data : Bytes}
    {offset offset' : Nat} {value : Datum} {cell : Value}
    (h : Record.decodeValue column data offset = .ok (value, offset'))
    (hcell : cellValue value = .ok cell) :
    HasColumnType cell column.typeName := by
  rw [Record.decodeValue] at h
  obtain ⟨⟨flag, offset⟩, _, h⟩ := bind_eq_ok.mp h
  dsimp only at h
  split at h
  · cases h
    cases hcell
    exact .null _
  · cases htype : column.typeName with
    | INT =>
        simp only [htype] at h
        split at h
        · cases h
        · obtain ⟨_, _, h⟩ := bind_eq_ok.mp h
          cases h
          cases hcell
          exact .int _
    | FLOAT =>
        simp only [htype] at h
        split at h
        · cases h
        · obtain ⟨_, _, h⟩ := bind_eq_ok.mp h
          cases h
          cases hcell
          exact .float _
    | BOOL =>
        simp only [htype] at h
        split at h
        · cases h
          cases hcell
          exact .bool _
        · split at h
          · cases h
            cases hcell
            exact .bool _
          · cases h
    | POINT =>
        simp only [htype] at h
        split at h
        · cases h
        · obtain ⟨_, _, h⟩ := bind_eq_ok.mp h
          obtain ⟨_, _, h⟩ := bind_eq_ok.mp h
          cases h
          cases hcell
          exact .point _ _
    | VARCHAR | TEXT =>
        simp only [htype] at h
        split at h
        · cases h
        · rw [Record.decodeText] at h
          obtain ⟨_, _, h⟩ := bind_eq_ok.mp h
          obtain ⟨_, _, h⟩ := bind_eq_ok.mp h
          dsimp only at h
          split at h
          · cases h
            cases hcell
            constructor
          · cases h

theorem decode_values_typed {data : Bytes} {columns : List ColumnDef} :
    ∀ {offset offset' : Nat} {values : List Datum} {row : Row},
      Record.decodeValues columns data offset = .ok (values, offset') →
      values.mapM cellValue = .ok row → RowTyped row columns := by
  induction columns with
  | nil =>
      intro offset offset' values row h hrow
      cases h
      cases hrow
      exact List.Forall₂.nil
  | cons column columns ih =>
      intro offset offset' values row h hrow
      rw [Record.decodeValues] at h
      obtain ⟨⟨value, _⟩, hvalue, h⟩ := bind_eq_ok.mp h
      obtain ⟨⟨rest, _⟩, hrest, h⟩ := bind_eq_ok.mp h
      cases h
      obtain ⟨cell, cells, hcell, hcells, rfl⟩ :=
        forall₂_cons_left_iff.mp (mapM_eq_ok.mp hrow)
      exact List.Forall₂.cons (decode_value_typed hvalue hcell) (ih hrest (mapM_eq_ok.mpr hcells))

variable {a}

theorem decode_row_typed {record : Record} {row : Row} (h : a.decodeRow record = .ok row) :
    RowTyped row a.inputSchema := by
  obtain ⟨values, hvalues, hrow⟩ := bind_eq_ok.mp h
  obtain ⟨⟨values', _⟩, hdecode, hvalues⟩ := bind_eq_ok.mp hvalues
  dsimp only at hvalues
  split at hvalues
  · cases hvalues
  · cases hvalues
    exact decode_values_typed hdecode hrow

/-! ## The state of one aggregate -/

theorem fold_rows {expression : Aggregation} {arg : Expr} (harg : expression.arg = some arg)
    (rows : List Row) (accumulator : RunningAggregate) :
    SameResult (rows.foldlM (a.stepRow expression) accumulator)
      (rows.mapM (fun row => evaluate a.env row a.inputSchema arg) >>= fun values =>
        (values.filter (fun value => !value.isNone)).foldlM
          (stepValue (a.env.upper expression.name)) accumulator) := by
  induction rows generalizing accumulator with
  | nil => exact .refl _
  | cons row rows ih =>
      rw [foldlM_cons, mapM_cons, stepRow]
      simp only [harg]
      cases hvalue : evaluate a.env row a.inputSchema arg with
      | error e => exact .refl _
      | ok value =>
          simp only [ok_bind]
          cases hnone : value.isNone with
          | true =>
              simp only [if_true, ok_bind]
              refine (ih accumulator).trans ?_
              cases rows.mapM (fun row => evaluate a.env row a.inputSchema arg) with
              | error e => exact .refl _
              | ok values =>
                  simp only [ok_bind, pure_bind, filter_cons, hnone, Bool.not_true,
                    Bool.false_eq_true, if_false]
                  exact .refl _
          | false =>
              simp only [Bool.false_eq_true, if_false]
              cases hstep : stepValue (a.env.upper expression.name) accumulator value with
              | error e =>
                  cases rows.mapM (fun row => evaluate a.env row a.inputSchema arg) with
                  | error e' => exact errors e e'
                  | ok values =>
                      simp only [ok_bind, pure_bind, filter_cons, hnone, Bool.not_false,
                        if_true, foldlM_cons, hstep]
                      exact .refl _
              | ok accumulator' =>
                  rw [ok_bind]
                  refine (ih accumulator').trans ?_
                  cases rows.mapM (fun row => evaluate a.env row a.inputSchema arg) with
                  | error e => exact .refl _
                  | ok values =>
                      simp only [ok_bind, pure_bind, filter_cons, hnone, Bool.not_false,
                        if_true, foldlM_cons, hstep]
                      exact .refl _

theorem fold_count (values : List Obj) (accumulator : RunningAggregate) :
    values.foldlM (stepValue "COUNT") accumulator =
      .ok { accumulator with count := accumulator.count + values.length } := by
  induction values generalizing accumulator with
  | nil => rfl
  | cons value values ih =>
      have hstep : stepValue "COUNT" accumulator value =
          .ok { accumulator with count := accumulator.count + 1 } := rfl
      rw [foldlM_cons, hstep, ok_bind, ih, length_cons]
      simp only [Nat.add_comm values.length 1, Nat.add_assoc]

variable {name : String} {expression : Aggregation} {rows : List Row}
    {aggregates : List Aggregation}

theorem fold_numbers (hname : name = "SUM" ∨ name = "AVG") (values : List Obj)
    (accumulator : RunningAggregate) :
    values.foldlM (stepValue name) accumulator =
      if values.all isNumber then
        .ok { accumulator with
          count := accumulator.count + values.length
          total := values.foldl (fun total value => plus total (numberValue value))
            accumulator.total }
      else .error (.QueryExecutionError s!"{name} requires numeric values") := by
  induction values generalizing accumulator with
  | nil => rfl
  | cons value values ih =>
      rw [foldlM_cons, stepValue, if_pos hname, all_cons]
      cases hnumber : isNumber value with
      | false => rfl
      | true =>
          simp only [Bool.not_true, Bool.false_eq_true, if_false, ok_bind, Bool.true_and]
          rw [ih, foldl_cons, length_cons]
          simp only [Nat.add_comm values.length 1, Nat.add_assoc]

/-- `value < minimum`, or `value > maximum`. -/
def better (name : String) : Obj → Obj → Except PyError Bool :=
  if name = "MIN" then Obj.lt else Obj.gt

/-- The state of MIN or MAX with a first value, the values counted and the best of them. -/
def extreme (name : String) (first : Obj) (count : Nat) (best : Obj) : RunningAggregate :=
  if name = "MIN" then ⟨count, .int 0, some first, some best, none⟩
  else ⟨count, .int 0, some first, none, some best⟩

theorem step_first (hname : name = "MIN" ∨ name = "MAX") (value : Obj) :
    stepValue name RunningAggregate.start value = .ok (extreme name value 1 value) := by
  rcases hname with rfl | rfl
  · rfl
  · rfl

theorem step_extreme (hname : name = "MIN" ∨ name = "MAX") {first value : Obj}
    (htype : first.typeName = value.typeName) (count : Nat) (best : Obj) :
    stepValue name (extreme name first count best) value =
      better name value best >>= fun better =>
        .ok (extreme name first (count + 1) (if better then value else best)) := by
  have hsame : ¬ first.typeName ≠ value.typeName := not_not.mpr htype
  rcases hname with rfl | rfl
  · simp only [stepValue, extreme, better, String.reduceEq, or_self, if_false, true_or, if_true,
      if_neg hsame, ok_bind]
    cases value.lt best with
    | error e => rfl
    | ok smaller =>
        cases smaller with
        | true => rfl
        | false => rfl
  · simp only [stepValue, extreme, better, String.reduceEq, or_self, if_false, or_true, if_true,
      if_neg hsame, ok_bind]
    cases value.gt best with
    | error e => rfl
    | ok larger =>
        cases larger with
        | true => rfl
        | false => rfl

theorem fold_extreme (hname : name = "MIN" ∨ name = "MAX") {first : Obj} (values : List Obj)
    (htypes : ∀ value ∈ values, first.typeName = value.typeName) (count : Nat) (best : Obj) :
    values.foldlM (stepValue name) (extreme name first count best) =
      pick (better name) best values >>= fun best =>
        .ok (extreme name first (count + values.length) best) := by
  induction values generalizing count best with
  | nil => rfl
  | cons value values ih =>
      rw [foldlM_cons, step_extreme hname (htypes value (by simp)), pick]
      cases better name value best with
      | error e => rfl
      | ok isBetter =>
          rw [ok_bind, ok_bind, ok_bind, ih (fun v hv => htypes v (by simp [hv])),
            length_cons]
          simp only [Nat.add_comm values.length 1, Nat.add_assoc]

/-! ## One aggregate of a group -/

/-- An aggregate without an argument is COUNT. -/
def HasArgument (a : AggregateOperator) (expression : Aggregation) : Prop :=
  expression.arg = none → a.env.upper expression.name = "COUNT"

theorem forM_ok {α : Type} {f : α → Except PyError Unit} {xs : List α}
    (h : ∀ x ∈ xs, f x = .ok ()) : xs.forM f = .ok () := by
  induction xs with
  | nil => rfl
  | cons x xs ih =>
      rw [forM_eq_forM, forM_cons, h x (by simp), ok_bind, ← forM_eq_forM,
        ih (fun y hy => h y (by simp [hy]))]

theorem finish_extreme (hname : name = "MIN" ∨ name = "MAX")
    (hupper : a.env.upper expression.name = name) {values : List Obj} {typeName : String}
    (htypes : ∀ value ∈ values, value.typeName = typeName) :
    SameResult (values.foldlM (stepValue name) RunningAggregate.start >>= a.finish expression)
      (minOrMax values name) := by
  cases values with
  | nil =>
      rcases hname with rfl | rfl
      · simp only [foldlM_nil, pure_bind, finish, hupper, String.reduceEq, if_false, if_true]
        exact errors _ _
      · simp only [foldlM_nil, pure_bind, finish, hupper, String.reduceEq, if_false, if_true]
        exact errors _ _
  | cons first rest =>
      have hsame : ∀ value ∈ rest, first.typeName = value.typeName := fun value hvalue => by
        rw [htypes first (by simp), htypes value (by simp [hvalue])]
      have hchecks : rest.forM (fun value => requireSameType first value) = .ok () :=
        forM_ok (fun value hvalue => if_pos (hsame value hvalue))
      rw [foldlM_cons, step_first hname, ok_bind, fold_extreme hname rest hsame, minOrMax,
        hchecks, ok_bind]
      have hbetter : better name = if name = "MIN" then Obj.lt else Obj.gt := rfl
      rw [← hbetter]
      cases pick (better name) first rest with
      | error e => exact .refl _
      | ok best =>
          rw [ok_bind, ok_bind]
          rcases hname with rfl | rfl
          · simp only [finish, hupper, extreme, String.reduceEq, if_false, if_true]
            rw [if_neg (by omega)]
            exact .refl _
          · simp only [finish, hupper, extreme, String.reduceEq, if_false, if_true]
            rw [if_neg (by omega)]
            exact .refl _

theorem plus_float (values : List Obj) {total : Total}
    (htotal : (∃ x, total = .float x) ∨ values.any isFloat = true) :
    ∃ x, values.foldl (fun total value => plus total (numberValue value)) total = .float x := by
  induction values generalizing total with
  | nil =>
      rcases htotal with hx | hany
      · exact hx
      · cases hany
  | cons value values ih =>
      rw [foldl_cons]
      rcases htotal with ⟨x, rfl⟩ | hany
      · exact ih (Or.inl ⟨_, rfl⟩)
      · rw [any_cons, Bool.or_eq_true] at hany
        rcases hany with hfloat | hany
        · obtain ⟨x, rfl⟩ : ∃ x, value = .value (.float x) := by
            unfold isFloat at hfloat
            split at hfloat
            · exact ⟨_, rfl⟩
            · cases hfloat
          refine ih (Or.inl ?_)
          cases total with
          | _ => exact ⟨_, rfl⟩
        · exact ih (Or.inr hany)

theorem finish_sum (hname : a.env.upper expression.name = "SUM") (values : List Obj) :
    SameResult (values.foldlM (stepValue "SUM") RunningAggregate.start >>= a.finish expression)
      (sumValues a.env values) := by
  rw [fold_numbers (Or.inl rfl), sumValues]
  cases values with
  | nil =>
      simp only [all_nil, if_true, ok_bind, finish, hname, String.reduceEq, if_false,
        isEmpty_nil]
      exact .refl _
  | cons value values =>
      cases hall : (value :: values).all isNumber with
      | false =>
          simp only [Bool.false_eq_true, if_false, error_bind, isEmpty_cons, Bool.not_false,
            if_true]
          exact errors _ _
      | true =>
          simp only [if_true, ok_bind, finish, hname, String.reduceEq, if_false,
            isEmpty_cons, Bool.not_true, Bool.false_eq_true]
          cases hany : (value :: values).any isFloat with
          | false => exact .refl _
          | true =>
              obtain ⟨x, hx⟩ := @plus_float (value :: values) (.int 0) (Or.inr hany)
              simp only [totalOf, RunningAggregate.start, hx, if_true, toFloat, Total.value,
                ok_bind]
              exact .refl _

theorem finish_avg (hname : a.env.upper expression.name = "AVG") (values : List Obj) :
    SameResult (values.foldlM (stepValue "AVG") RunningAggregate.start >>= a.finish expression)
      (avgValues a.env values) := by
  rw [fold_numbers (Or.inr rfl), avgValues]
  cases values with
  | nil =>
      simp only [all_nil, if_true, ok_bind, finish, hname, String.reduceEq, if_false,
        isEmpty_nil]
      exact errors _ _
  | cons value values =>
      cases hall : (value :: values).all isNumber with
      | false =>
          simp only [Bool.false_eq_true, if_false, error_bind, isEmpty_cons, Bool.not_false,
            if_true]
          exact errors _ _
      | true =>
          have hcount : ¬ RunningAggregate.start.count + (value :: values).length = 0 := by
            rw [length_cons]
            omega
          simp only [if_true, ok_bind, finish, hname, String.reduceEq, if_false,
            isEmpty_cons, Bool.not_true, Bool.false_eq_true, if_neg hcount]
          simp only [totalOf, RunningAggregate.start, Nat.zero_add]
          exact .refl _

theorem finish_values (hdistinct : expression.distinct = false) {arg : Expr}
    (harg : expression.arg = some arg) (hname : a.env.upper expression.name ∈ AGGREGATES)
    (htyped : ∀ row ∈ rows, RowTyped row a.inputSchema) :
    SameResult
      (rows.mapM (fun row => evaluate a.env row a.inputSchema arg) >>= fun values =>
        (values.filter (fun value => !value.isNone)).foldlM
            (stepValue (a.env.upper expression.name)) RunningAggregate.start >>=
          a.finish expression)
      (evaluateAggregate a.env expression rows a.inputSchema) := by
  have hnot : ¬ a.env.upper expression.name ∉ AGGREGATES := not_not.mpr hname
  simp only [evaluateAggregate, if_neg hnot, harg, hdistinct, Bool.false_eq_true, if_false]
  refine (SameResult.refl _).bind (fun values hvalues => ?_)
  obtain ⟨typeName, huniform⟩ := evaluate_uniform a.env a.inputSchema arg
  have htypes : ∀ value ∈ values.filter (fun value => !value.isNone),
      value.typeName = typeName := by
    intro value hvalue
    obtain ⟨hmem, hnone⟩ := mem_filter.mp hvalue
    obtain ⟨row, hrow, hvalue⟩ := mem_mapM hvalues hmem
    rcases huniform row value (htyped row hrow) hvalue with hnull | htype
    · rw [hnull] at hnone
      cases hnone
    · exact htype
  generalize values.filter (fun value => !value.isNone) = values at htypes ⊢
  simp only [AGGREGATES, mem_cons, not_mem_nil, or_false] at hname
  rcases hname with hname | hname | hname | hname | hname
  · rw [hname, fold_count, ok_bind, finish]
    simp only [hname, if_true, RunningAggregate.start, Nat.zero_add]
    exact SameResult.refl _
  · rw [hname]
    simp only [String.reduceEq, if_false, if_true]
    exact finish_sum hname values
  · rw [hname]
    simp only [String.reduceEq, if_false, if_true]
    exact finish_avg hname values
  · rw [hname]
    simp only [String.reduceEq, if_false, if_true]
    exact finish_extreme (Or.inl rfl) hname htypes
  · rw [hname]
    simp only [String.reduceEq, if_false]
    exact finish_extreme (Or.inr rfl) hname htypes

theorem fold_star (harg : expression.arg = none) (hname : a.env.upper expression.name = "COUNT")
    (rows : List Row) (accumulator : RunningAggregate) :
    rows.foldlM (a.stepRow expression) accumulator =
      .ok { accumulator with count := accumulator.count + rows.length } := by
  induction rows generalizing accumulator with
  | nil => rfl
  | cons row rows ih =>
      have hstep : a.stepRow expression accumulator row =
          .ok { accumulator with count := accumulator.count + 1 } := by
        simp only [stepRow, harg, hname, if_true]
      rw [foldlM_cons, hstep, ok_bind, ih, length_cons]
      simp only [Nat.add_comm rows.length 1, Nat.add_assoc]

/-- The running state of an aggregate over the rows of a group gives the aggregate of the
group, or both raise. -/
theorem fold_aggregate (hdistinct : expression.distinct = false)
    (hargument : HasArgument a expression) (htyped : ∀ row ∈ rows, RowTyped row a.inputSchema) :
    SameResult
      (rows.foldlM (a.stepRow expression) RunningAggregate.start >>= a.finish expression)
      (evaluateAggregate a.env expression rows a.inputSchema) := by
  cases harg : expression.arg with
  | none =>
      have hname := hargument harg
      rw [fold_star harg hname, ok_bind]
      simp [finish, hname, evaluateAggregate, harg, AGGREGATES, RunningAggregate.start]
      exact .refl _
  | some arg =>
      by_cases hname : a.env.upper expression.name ∈ AGGREGATES
      · have hfold := (@fold_rows a expression arg harg rows RunningAggregate.start).bind
          (fun accumulator _ => .refl (a.finish expression accumulator))
        rw [bind_assoc] at hfold
        exact hfold.trans (finish_values hdistinct harg hname htyped)
      · have hfinish : ∀ accumulator, a.finish expression accumulator =
            .error (.QueryExecutionError
              s!"unsupported aggregate {reprStr (a.env.upper expression.name)}") := by
          intro accumulator
          simp only [AGGREGATES, mem_cons, not_mem_nil, or_false, not_or] at hname
          obtain ⟨hcount, hsum, havg, hmin, hmax⟩ := hname
          simp only [finish, if_neg hcount, if_neg hsum, if_neg havg, if_neg hmin, if_neg hmax]
        simp only [evaluateAggregate, if_pos hname]
        cases rows.foldlM (a.stepRow expression) RunningAggregate.start with
        | error e => exact errors _ _
        | ok accumulator =>
            rw [ok_bind, hfinish]
            exact errors _ _

/-! ## The aggregates of a group -/

theorem step_states_nil (rows : List Row) :
    rows.foldlM (fun state row => a.stepStates row [] state) [] = .ok [] := by
  induction rows with
  | nil => rfl
  | cons row rows ih => exact ih

theorem step_states_cons (rows : List Row) :
    ∀ {accumulator : RunningAggregate} {state result : List RunningAggregate},
      rows.foldlM (fun state row => a.stepStates row (expression :: aggregates) state)
          (accumulator :: state) = .ok result ↔
        ∃ accumulator' state',
          rows.foldlM (a.stepRow expression) accumulator = .ok accumulator' ∧
          rows.foldlM (fun state row => a.stepStates row aggregates state) state = .ok state' ∧
          result = accumulator' :: state' := by
  induction rows with
  | nil =>
      intro accumulator state result
      constructor
      · intro h
        cases h
        exact ⟨accumulator, state, rfl, rfl, rfl⟩
      · rintro ⟨accumulator', state', h, h', rfl⟩
        cases h
        cases h'
        rfl
  | cons row rows ih =>
      intro accumulator state result
      rw [foldlM_cons, foldlM_cons, foldlM_cons, stepStates]
      cases a.stepRow expression accumulator row with
      | error e =>
          refine iff_of_false (fun h => by cases h) ?_
          rintro ⟨_, _, h, _⟩
          cases h
      | ok accumulator' =>
          rw [ok_bind, ok_bind]
          cases a.stepStates row aggregates state with
          | error e =>
              refine iff_of_false (fun h => by cases h) ?_
              rintro ⟨_, _, _, h, _⟩
              cases h
          | ok state' =>
              rw [ok_bind, ok_bind]
              exact ih

/-- The running states of a group give the aggregates of the group, or both raise. -/
theorem fold_states (htyped : ∀ row ∈ rows, RowTyped row a.inputSchema)
    (haggregates : ∀ expression ∈ aggregates,
      expression.distinct = false ∧ HasArgument a expression) :
    SameResult
      (rows.foldlM (fun state row => a.stepStates row aggregates state)
          (aggregates.map (fun _ => RunningAggregate.start)) >>= fun state =>
        (aggregates.zip state).mapM (fun pair => a.finish pair.1 pair.2))
      (aggregates.mapM (fun expr => evaluateAggregate a.env expr rows a.inputSchema)) := by
  induction aggregates with
  | nil =>
      rw [map_nil, step_states_nil]
      exact .refl _
  | cons expression aggregates ih =>
      obtain ⟨⟨hdistinct, hargument⟩, hrest⟩ := forall_mem_cons.mp haggregates
      have hone := fold_aggregate hdistinct hargument htyped
      intro values
      rw [bind_eq_ok, map_cons]
      constructor
      · rintro ⟨state, hstate, hfinish⟩
        obtain ⟨accumulator, rest, hfold, hfolds, rfl⟩ := (step_states_cons rows).mp hstate
        rw [zip_cons_cons, mapM_cons] at hfinish
        obtain ⟨value, hvalue, hfinish⟩ := bind_eq_ok.mp hfinish
        obtain ⟨others, hothers, hfinish⟩ := bind_eq_ok.mp hfinish
        have hvalue' := (hone value).mp (bind_eq_ok.mpr ⟨accumulator, hfold, hvalue⟩)
        have hothers' := (ih hrest others).mp (bind_eq_ok.mpr ⟨rest, hfolds, hothers⟩)
        rw [mapM_cons, hvalue', ok_bind, hothers', ok_bind]
        exact hfinish
      · intro h
        rw [mapM_cons] at h
        obtain ⟨value, hvalue, h⟩ := bind_eq_ok.mp h
        obtain ⟨others, hothers, h⟩ := bind_eq_ok.mp h
        obtain ⟨accumulator, hfold, hvalue'⟩ := bind_eq_ok.mp ((hone value).mpr hvalue)
        obtain ⟨rest, hfolds, hothers'⟩ := bind_eq_ok.mp ((ih hrest others).mpr hothers)
        refine ⟨accumulator :: rest,
          (step_states_cons rows).mpr ⟨accumulator, rest, hfold, hfolds, rfl⟩, ?_⟩
        rw [zip_cons_cons, mapM_cons, hvalue', ok_bind, hothers', ok_bind]
        exact h

theorem foldGroup_states {row : Record → Row} {record : Record} {records : List Record}
    (hrows : ∀ r ∈ record :: records, a.decodeRow r = .ok (row r)) :
    foldGroup a.aggregateStep none (record :: records) =
      ((record :: records).map row).foldlM (fun state row => a.stepStates row a.aggregates state)
          (a.aggregates.map (fun _ => RunningAggregate.start)) >>= fun state =>
        .ok (some state) := by
  have hfold : ∀ (records : List Record) (state : List RunningAggregate),
      (∀ r ∈ records, a.decodeRow r = .ok (row r)) →
      foldGroup a.aggregateStep (some state) records =
        (records.map row).foldlM (fun state row => a.stepStates row a.aggregates state)
          state >>= fun state => .ok (some state) := by
    intro records
    induction records with
    | nil =>
        intro state _
        rfl
    | cons r rs ih =>
        intro state h
        rw [foldGroup, aggregateStep, h r (by simp), ok_bind, map_cons, foldlM_cons,
          Option.getD_some]
        cases a.stepStates (row r) a.aggregates state with
        | error e => rfl
        | ok state' =>
            rw [ok_bind, ok_bind]
            exact ih state' (fun r' hr' => h r' (by simp [hr']))
  rw [foldGroup, aggregateStep, hrows record (by simp), ok_bind, map_cons, foldlM_cons,
    Option.getD_none]
  cases a.stepStates (row record) a.aggregates
      (a.aggregates.map (fun _ => RunningAggregate.start)) with
  | error e => rfl
  | ok state =>
      rw [ok_bind, ok_bind]
      exact hfold records state (fun r hr => hrows r (by simp [hr]))

end AggregateOperator
end SoupDB
