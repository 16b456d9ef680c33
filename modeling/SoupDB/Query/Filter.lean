import SoupDB.Lib.Kleene
import SoupDB.Query.Aggregate

/-!
# SoupDB: the Filter operator and NULL

Filter emits the records of its child on whose row the predicate evaluates to a true value.
A comparison with NULL evaluates to `False`, where SQL has it UNKNOWN, and so does an order
with a NaN.

Main fact: `filter_exact`.  A predicate of comparisons with AND, OR and NOT selects the rows
on which it is TRUE exactly where no comparison with NULL below an odd number of NOTs matters;
and `NOT (a < b)` selects the rows of `a >= b` exactly where the values have an order.
-/

namespace SoupDB

open Value Kleene

open RecordFile (Record)

/-! ## The operator -/

/-- The truth of an object: `if value`. -/
def Obj.truthy : Obj → Bool
  | .value .null => false
  | .value (.bool b) => b
  | .value (.int i) => i ≠ 0
  | .value (.float bits) => Double.number bits ≠ some (Double.finite 0)
  | .value (.str s) => s ≠ ""
  | .value (.tuple items) => !items.isEmpty
  | .polygon _ => true

/-- The operator, apart from its child. -/
structure FilterOperator where
  env : Environment
  predicate : Expr
  schema : List ColumnDef

namespace FilterOperator

variable (f : FilterOperator)

def decodeRow (record : Record) : Except PyError Row := do
  let row ← Record.decodeRow record f.schema
  row.mapM cellValue

def accepts (record : Record) : Except PyError Bool := do
  let row ← f.decodeRow record
  let value ← evaluate f.env row f.schema f.predicate
  .ok value.truthy

/-- `next()`: a record, and what the child still has. -/
def next : List Record → Except PyError (Option Record × List Record)
  | [] => .ok (none, [])
  | record :: records => do
      let accepted ← f.accepts record
      if accepted then .ok (some record, records) else next records

variable {f}

variable {records : List Record} {accepted : Record → Bool}

theorem next_length {rest : List Record} {record : Record}
    (h : f.next records = .ok (some record, rest)) : rest.length < records.length := by
  induction records with
  | nil => cases h
  | cons first records ih =>
      rw [next] at h
      obtain ⟨accepted, _, h⟩ := bind_eq_ok.mp h
      cases accepted with
      | true =>
          cases h
          exact Nat.lt_succ_self _
      | false => exact Nat.lt_succ_of_lt (ih h)

variable (f)

/-- The records of the operator, from those of its child. -/
def emits (records : List Record) : Except PyError (List Record) :=
  match _ : f.next records with
  | .error e => .error e
  | .ok (none, _) => .ok []
  | .ok (some record, rest) => do
      let records ← emits rest
      .ok (record :: records)
termination_by records.length
decreasing_by exact next_length ‹_›

variable {f}

theorem emits_none {rest : List Record} (h : f.next records = .ok (none, rest)) :
    f.emits records = .ok [] := by
  rw [emits]
  split
  · next e he =>
      rw [h] at he
      cases he
  · rfl
  · next record rest' hsome =>
      rw [h] at hsome
      cases hsome

theorem emits_some {rest : List Record} {record : Record}
    (h : f.next records = .ok (some record, rest)) :
    f.emits records = f.emits rest >>= fun records => .ok (record :: records) := by
  rw [emits]
  split
  · next e he =>
      rw [h] at he
      cases he
  · next rest' hnone =>
      rw [h] at hnone
      cases hnone
  · next record' rest' hsome =>
      rw [h] at hsome
      cases hsome
      rfl

/-- `next` passes over the records that the predicate does not accept. -/
theorem next_eq (h : ∀ record ∈ records, f.accepts record = .ok (accepted record)) :
    (f.next records = .ok (none, []) ∧ records.filter accepted = []) ∨
      ∃ record rest, f.next records = .ok (some record, rest) ∧
        records.filter accepted = record :: rest.filter accepted ∧
        ∀ r ∈ rest, f.accepts r = .ok (accepted r) := by
  induction records with
  | nil => exact Or.inl ⟨rfl, rfl⟩
  | cons record records ih =>
      have hrest : ∀ r ∈ records, f.accepts r = .ok (accepted r) :=
        fun r hr => h r (List.mem_cons_of_mem _ hr)
      rw [next, h record List.mem_cons_self, ok_bind]
      cases haccepted : accepted record with
      | true =>
          refine Or.inr ⟨record, records, rfl, ?_, hrest⟩
          rw [List.filter_cons_of_pos haccepted]
      | false =>
          rw [List.filter_cons_of_neg (by rw [haccepted]; decide)]
          exact ih hrest

theorem emits_eq (records : List Record)
    (h : ∀ record ∈ records, f.accepts record = .ok (accepted record)) :
    f.emits records = .ok (records.filter accepted) := by
  rcases next_eq h with ⟨hnext, hfilter⟩ | ⟨record, rest, hnext, hfilter, hrest⟩
  · rw [emits_none hnext, hfilter]
  · have := next_length hnext
    rw [emits_some hnext, hfilter, emits_eq rest hrest, ok_bind]
termination_by records.length

end FilterOperator

/-! ## Predicates of comparisons -/

/-- A column or a literal. -/
inductive Operand
  | column (name : String)
  | literal (value : Value)

namespace Operand

def expr : Operand → Expr
  | .column name => .ColumnRef name
  | .literal value => .Literal value

def value (row : Row) (schema : List ColumnDef) : Operand → Except PyError Value
  | .column name => columnValue name row schema
  | .literal value => .ok value

end Operand

/-- A comparison of two operands. -/
structure Comparison where
  left : Operand
  op : String
  right : Operand

abbrev Predicate := Formula Comparison

def Predicate.expr : Predicate → Expr
  | .atom c => .CompareExpr c.left.expr c.op c.right.expr
  | .conj p q => .LogicalExpr (Predicate.expr p) "AND" (Predicate.expr q)
  | .disj p q => .LogicalExpr (Predicate.expr p) "OR" (Predicate.expr q)
  | .neg p => .NotExpr (Predicate.expr p)

def Predicate.Each (holds : Comparison → Prop) : Predicate → Prop
  | .atom c => holds c
  | .conj p q => Predicate.Each holds p ∧ Predicate.Each holds q
  | .disj p q => Predicate.Each holds p ∧ Predicate.Each holds q
  | .neg p => Predicate.Each holds p

/-- Two values that SQL compares: numbers, strings, booleans or points. -/
inductive SameKind : Value → Value → Prop
  | numbers {a b : Value} (ha : isNumber (.value a) = true) (hb : isNumber (.value b) = true) :
      SameKind a b
  | strings (s t : String) : SameKind (.str s) (.str t)
  | booleans (a b : Bool) : SameKind (.bool a) (.bool b)
  | points (p q : UInt64 × UInt64) : SameKind (Obj.pointTuple p) (Obj.pointTuple q)

/-- The relation of an operator; no order holds of a NaN, unless in a point compared with
itself. -/
def relation (same : Bool) (op : String) (a b : Value) : Bool :=
  if itself same (.value a) then op ∈ ["=", "<=", ">="]
  else if op = "=" then a.eq b
  else if op = "<>" ∨ op = "!=" then !a.eq b
  else if op = "<" then (a.cmp b).any (· == .lt)
  else if op = "<=" then (a.cmp b).any (· != .gt)
  else if op = ">" then (a.cmp b).any (· == .gt)
  else (a.cmp b).any (· != .lt)

namespace Comparison

/-- The comparison is one of the language and its operands can be compared. -/
def WellTyped (row : Row) (schema : List ColumnDef) (c : Comparison) : Prop :=
  c.op ∈ comparisons ∧ ∃ a b, c.left.value row schema = .ok a ∧
    c.right.value row schema = .ok b ∧ (a = .null ∨ b = .null ∨ SameKind a b)

/-- The operands are the same object. -/
def same (c : Comparison) : Bool := sameObject c.left.expr c.right.expr

/-- The truth of a comparison on a row; UNKNOWN where an operand is NULL. -/
def truth (row : Row) (schema : List ColumnDef) (c : Comparison) : Option Bool :=
  match c.left.value row schema, c.right.value row schema with
  | .ok a, .ok b =>
      if (Obj.value a).isNone || (Obj.value b).isNone then none
      else some (relation c.same c.op a b)
  | _, _ => none

/-- Neither operand is NULL, and they have an order: none is a NaN, apart from a point compared
with itself. -/
def HasOrder (row : Row) (schema : List ColumnDef) (c : Comparison) : Prop :=
  ∃ a b, c.left.value row schema = .ok a ∧ c.right.value row schema = .ok b ∧
    a ≠ .null ∧ b ≠ .null ∧ (itself c.same (.value a) = true ∨ (a.cmp b).isSome = true)

end Comparison

theorem is_number_iff {a : Value} :
    isNumber (.value a) = true ↔ (∃ i, a = .int i) ∨ ∃ bits, a = .float bits := by
  cases a with
  | int i => simp [isNumber]
  | float bits => simp [isNumber]
  | _ => simp [isNumber]

/-- Numbers have an order, or one of them is a NaN. -/
theorem cmp_or_unordered {a b : Value} (ha : isNumber (.value a) = true)
    (hb : isNumber (.value b) = true) :
    (a.cmp b).isSome = true ∨ a.unordered b = true := by
  have hnumber : ∀ {a : Value}, isNumber (.value a) = true →
      (∃ x, a.number? = some x) ∨ ∃ bits, a = .float bits ∧ Double.number bits = none := by
    intro a ha
    rcases is_number_iff.mp ha with ⟨i, rfl⟩ | ⟨bits, rfl⟩
    · exact Or.inl ⟨_, rfl⟩
    · cases hbits : Double.number bits with
      | none => exact Or.inr ⟨bits, rfl, hbits⟩
      | some x => exact Or.inl ⟨x, hbits⟩
  rcases hnumber ha with ⟨x, hx⟩ | ⟨bits, rfl, hbits⟩
  · rcases hnumber hb with ⟨y, hy⟩ | ⟨bits, rfl, hbits⟩
    · exact Or.inl (by rw [cmp_number hx hy]; rfl)
    · refine Or.inr ?_
      rcases is_number_iff.mp ha with ⟨i, rfl⟩ | ⟨_, rfl⟩
      · simp [unordered, Value.isNumber, number?, hbits]
      · simp [unordered, Value.isNumber, number?, hbits]
  · refine Or.inr ?_
    rcases is_number_iff.mp hb with ⟨i, rfl⟩ | ⟨_, rfl⟩
    · simp [unordered, Value.isNumber, number?, hbits]
    · simp [unordered, Value.isNumber, number?, hbits]

namespace SameKind

theorem isNone {a b : Value} (h : SameKind a b) :
    ((Obj.value a).isNone || (Obj.value b).isNone) = false := by
  cases h with
  | numbers ha hb =>
      rcases is_number_iff.mp ha with ⟨i, rfl⟩ | ⟨bits, rfl⟩
      · rcases is_number_iff.mp hb with ⟨j, rfl⟩ | ⟨bits', rfl⟩
        · rfl
        · rfl
      · rcases is_number_iff.mp hb with ⟨j, rfl⟩ | ⟨bits', rfl⟩
        · rfl
        · rfl
  | _ => rfl

theorem requireSameType {a b : Value} (h : SameKind a b) :
    requireSameType (.value a) (.value b) = .ok () := by
  cases h with
  | numbers ha hb =>
      rw [SoupDB.requireSameType, ha, hb]
      split
      · rfl
      · rfl
  | _ => exact if_pos rfl

/-- Values of one kind are ordered, but for a NaN. -/
theorem order {a b : Value} (h : SameKind a b) :
    (a.cmp b).isSome = true ∨ a.unordered b = true := by
  cases h with
  | numbers ha hb => exact cmp_or_unordered ha hb
  | strings s t => exact Or.inl (by rw [Value.cmp]; rfl)
  | booleans a b =>
      refine Or.inl ?_
      rw [cmp_number rfl rfl]
      rfl
  | points p q =>
      simp only [Obj.pointTuple, Value.cmp, unordered, cmpItems,
        unorderedItems]
      split
      · split
        · exact Or.inl rfl
        · exact @cmp_or_unordered (.float p.2) (.float q.2) rfl rfl
      · exact @cmp_or_unordered (.float p.1) (.float q.1) rfl rfl

theorem ordered {a b : Value} (h : SameKind a b) (symbol : String) (holds : Ordering → Bool) :
    Obj.ordered symbol holds (.value a) (.value b) = .ok ((a.cmp b).any holds) := by
  simp only [Obj.ordered, Obj.cmp, Obj.unordered]
  cases hcmp : a.cmp b with
  | some o => rfl
  | none =>
      have hunordered := h.order
      rw [hcmp] at hunordered
      exact if_pos (hunordered.resolve_left (by decide))

theorem compare {a b : Value} (h : SameKind a b) (same : Bool) {op : String}
    (hop : op ∈ comparisons) :
    compare same (.value a) op (.value b) = .ok (relation same op a b) := by
  rw [SoupDB.compare, if_neg (not_not.mpr hop), h.isNone, if_neg (by decide), h.requireSameType,
    ok_bind]
  simp only [relation, Obj.eq, Obj.lt, Obj.le, Obj.gt, Obj.ge, h.ordered]
  split_ifs
  all_goals rfl

end SameKind

theorem Operand.evaluate_eq (env : Environment) (row : Row) (schema : List ColumnDef)
    {operand : Operand} {value : Value} (h : operand.value row schema = .ok value) :
    evaluate env row schema operand.expr = .ok (.value value) := by
  cases operand with
  | column name =>
      have hcolumn : columnValue name row schema = .ok value := h
      rw [expr, evaluate, hcolumn, ok_bind]
  | literal literal =>
      cases h
      rw [expr, evaluate]

variable {row : Row} {schema : List ColumnDef}

theorem Comparison.evaluate_eq (env : Environment) {c : Comparison} (h : c.WellTyped row schema) :
    evaluate env row schema (Predicate.expr (.atom c)) =
      .ok (.value (.bool (least (Comparison.truth row schema) c))) := by
  obtain ⟨hop, a, b, ha, hb, hkind⟩ := h
  rw [Predicate.expr, evaluate, Operand.evaluate_eq env row schema ha, ok_bind,
    Operand.evaluate_eq env row schema hb, ok_bind]
  have hcompare : compare c.same (.value a) c.op (.value b) =
      .ok (least (Comparison.truth row schema) c) := by
    simp only [least, Comparison.truth, ha, hb]
    rcases hkind with rfl | rfl | hkind
    · rw [compare, if_neg (not_not.mpr hop)]
      rfl
    · rw [compare, if_neg (not_not.mpr hop), Obj.isNone, Bool.or_true]
      rfl
    · rw [hkind.isNone, hkind.compare _ hop]
      rfl
  rw [same] at hcompare
  rw [hcompare, ok_bind]

theorem Predicate.evaluate_eq (env : Environment) (p : Predicate)
    (h : p.Each (Comparison.WellTyped row schema)) :
    evaluate env row schema p.expr =
      .ok (.value (.bool (p.holds (least (Comparison.truth row schema))
        (least (Comparison.truth row schema))))) := by
  induction p with
  | atom c => exact Comparison.evaluate_eq env h
  | conj p q ihp ihq =>
      rw [expr, evaluate, ihp h.1, ok_bind, requireBool, ok_bind, ihq h.2, ok_bind,
        requireBool, ok_bind]
      rfl
  | disj p q ihp ihq =>
      rw [expr, evaluate, ihp h.1, ok_bind, requireBool, ok_bind, ihq h.2, ok_bind,
        requireBool, ok_bind]
      rfl
  | neg p ih =>
      rw [expr, evaluate, ih h, ok_bind, requireBool, ok_bind]
      rfl

/-! ## The rows selected -/

/-- The three-valued value of a predicate on a row. -/
def Predicate.truth (row : Row) (schema : List ColumnDef) (p : Predicate) : Option Bool :=
  p.value (Comparison.truth row schema)

/-- The comparisons with NULL below an odd number of NOTs do not matter on the row. -/
def Predicate.NullSafe (row : Row) (schema : List ColumnDef) (p : Predicate) : Prop :=
  p.Indifferent (Comparison.truth row schema)

/-- `NOT (a < b)`, as a predicate. -/
def notLess (left right : Operand) : Predicate := .neg (.atom ⟨left, "<", right⟩)

/-- `a >= b`, as a predicate. -/
def atLeast (left right : Operand) : Predicate := .atom ⟨left, ">=", right⟩

theorem FilterOperator.accepts_eq (f : FilterOperator) {p : Predicate}
    (hpredicate : f.predicate = p.expr) {record : Record} (hrow : f.decodeRow record = .ok row)
    (htyped : p.Each (Comparison.WellTyped row f.schema)) :
    f.accepts record = .ok (p.holds (least (Comparison.truth row f.schema))
      (least (Comparison.truth row f.schema))) := by
  rw [FilterOperator.accepts, hrow, ok_bind, hpredicate, Predicate.evaluate_eq f.env p htyped,
    ok_bind, Obj.truthy]

theorem filter_eq_filter_iff {records : List Record} {p q : Record → Bool} :
    records.filter p = records.filter q ↔ ∀ record ∈ records, p record = q record := by
  constructor
  · intro h record hrecord
    have hmem := Iff.of_eq (congrArg (fun kept => record ∈ kept) h)
    rw [List.mem_filter, List.mem_filter] at hmem
    rw [Bool.eq_iff_iff]
    simpa only [hrecord, true_and] using hmem
  · exact List.filter_congr

theorem relation_not_less {same : Bool} {a b : Value} :
    (!relation same "<" a b) = relation same ">=" a b ↔
      itself same (.value a) = true ∨ (a.cmp b).isSome = true := by
  simp only [relation]
  cases itself same (.value a) with
  | true => simp
  | false =>
      cases a.cmp b with
      | none => simp
      | some o =>
          cases o with
          | lt => simp
          | eq => simp
          | gt => simp

/-- `NOT (a < b)` and `a >= b` are the same on a row whose values have an order, and only there. -/
theorem not_less_iff {left right : Operand}
    (htyped : Comparison.WellTyped row schema ⟨left, "<", right⟩) :
    (!least (Comparison.truth row schema) ⟨left, "<", right⟩) =
        least (Comparison.truth row schema) ⟨left, ">=", right⟩ ↔
      Comparison.HasOrder row schema ⟨left, "<", right⟩ := by
  obtain ⟨-, a, b, ha, hb, hkind⟩ := htyped
  have horder : Comparison.HasOrder row schema ⟨left, "<", right⟩ ↔
      a ≠ .null ∧ b ≠ .null ∧ (itself (Comparison.same ⟨left, "<", right⟩) (.value a) = true ∨
        (a.cmp b).isSome = true) := by
    constructor
    · rintro ⟨a', b', ha', hb', h⟩
      rw [ha] at ha'
      rw [hb] at hb'
      cases ha'
      cases hb'
      exact h
    · exact fun h => ⟨a, b, ha, hb, h⟩
  simp only [horder, least, Comparison.truth, ha, hb]
  rcases hkind with rfl | rfl | hkind
  · simp [Obj.isNone]
  · simp [Obj.isNone]
  · have hnull := hkind.isNone
    have hne : a ≠ .null ∧ b ≠ .null := by
      rw [Bool.or_eq_false_iff] at hnull
      constructor
      · rintro rfl
        cases hnull.1
      · rintro rfl
        cases hnull.2
    rw [hnull, if_neg (by decide), if_neg (by decide)]
    simp only [hne.1, hne.2, ne_eq, not_false_eq_true, true_and]
    exact relation_not_less

def FilterOperator.given (f : FilterOperator) (p : Predicate) : FilterOperator :=
  { f with predicate := p.expr }

/-- Filter emits the records on whose row the predicate is TRUE, if and only if on each row
the comparisons with NULL below an odd number of NOTs do not matter.  `NOT (a < b)` emits the
records that `a >= b` emits, if and only if on each row neither value is NULL and they have an
order. -/
theorem filter_exact (f : FilterOperator) {records : List Record} {row : Record → Row}
    (hrows : ∀ record ∈ records, f.decodeRow record = .ok (row record)) :
    (∀ p : Predicate, f.predicate = p.expr →
        (∀ record ∈ records, p.Each (Comparison.WellTyped (row record) f.schema)) →
        (f.emits records =
            .ok (records.filter (fun record => p.truth (row record) f.schema = some true)) ↔
          ∀ record ∈ records, p.NullSafe (row record) f.schema)) ∧
      ∀ left right : Operand,
        (∀ record ∈ records, Comparison.WellTyped (row record) f.schema ⟨left, "<", right⟩) →
        ((f.given (notLess left right)).emits records =
            (f.given (atLeast left right)).emits records ↔
          ∀ record ∈ records, Comparison.HasOrder (row record) f.schema ⟨left, "<", right⟩) := by
  refine ⟨fun p hpredicate htyped => ?_, fun left right htyped => ?_⟩
  · rw [FilterOperator.emits_eq records (fun record hrecord =>
      f.accepts_eq hpredicate (hrows record hrecord) (htyped record hrecord)),
      Except.ok.injEq, filter_eq_filter_iff]
    refine forall₂_congr (fun record _ => ?_)
    rw [Bool.eq_iff_iff, decide_eq_true_iff]
    exact Formula.collapsed_exact _ p
  · have hge : ∀ record ∈ records,
        (atLeast left right).Each (Comparison.WellTyped (row record) f.schema) :=
      fun record hrecord => ⟨by simp [comparisons], (htyped record hrecord).2⟩
    have hgiven : ∀ p : Predicate, ∀ record ∈ records,
        p.Each (Comparison.WellTyped (row record) f.schema) →
        (f.given p).accepts record = .ok (p.holds
          (least (Comparison.truth (row record) f.schema))
          (least (Comparison.truth (row record) f.schema))) :=
      fun p record hrecord htyped => (f.given p).accepts_eq rfl (hrows record hrecord) htyped
    rw [FilterOperator.emits_eq records (fun record hrecord =>
        hgiven (notLess left right) record hrecord (htyped record hrecord)),
      FilterOperator.emits_eq records (fun record hrecord =>
        hgiven (atLeast left right) record hrecord (hge record hrecord)),
      Except.ok.injEq, filter_eq_filter_iff]
    exact forall₂_congr (fun record hrecord => not_less_iff (htyped record hrecord))

/-- `NOT (a < b)` over two FLOAT columns. -/
def notALessB : FilterOperator where
  env := ⟨id, id, fun _ => 0, fun _ _ _ => .ok 0, fun vertices => .ok vertices, fun _ _ => .ok true⟩
  predicate := (notLess (.column "a") (.column "b")).expr
  schema := [⟨"a", .FLOAT, none⟩, ⟨"b", .FLOAT, none⟩]

/-- The records of `(1, 0)` and `(NaN, 0)`. -/
def oneAndNan : List Record :=
  [[1, 0, 0, 0, 0, 0, 0, 0xF0, 0x3F, 1, 0, 0, 0, 0, 0, 0, 0, 0],
    [1, 0, 0, 0, 0, 0, 0, 0xF8, 0x7F, 1, 0, 0, 0, 0, 0, 0, 0, 0]]

def oneOrNan (record : Record) : Row :=
  [.float (if record = oneAndNan.head! then 0x3FF0000000000000 else 0x7FF8000000000000), .float 0]

theorem filter_exact_one_nan :
    (notALessB.emits oneAndNan = .ok (oneAndNan.filter (fun record =>
        (notLess (.column "a") (.column "b")).truth (oneOrNan record) notALessB.schema =
          some true)) ↔
      ∀ record ∈ oneAndNan,
        (notLess (.column "a") (.column "b")).NullSafe (oneOrNan record) notALessB.schema) ∧
    ((notALessB.given (notLess (.column "a") (.column "b"))).emits oneAndNan =
        (notALessB.given (atLeast (.column "a") (.column "b"))).emits oneAndNan ↔
      ∀ record ∈ oneAndNan,
        Comparison.HasOrder (oneOrNan record) notALessB.schema
          ⟨.column "a", "<", .column "b"⟩) := by
  have htyped : ∀ record ∈ oneAndNan, Comparison.WellTyped (oneOrNan record) notALessB.schema
      ⟨.column "a", "<", .column "b"⟩ :=
    fun record _ => ⟨by decide, _, _, rfl, rfl, Or.inr (Or.inr (SameKind.numbers rfl rfl))⟩
  have hexact := @filter_exact notALessB oneAndNan oneOrNan (by
    intro record hrecord
    rcases List.mem_pair.mp hrecord with rfl | rfl
    · rfl
    · rfl)
  exact ⟨hexact.1 _ rfl htyped, hexact.2 _ _ htyped⟩

/-- `NOT (a < b)` selects a row whose `a` is NULL. -/
theorem null_row_selected :
    ¬ ∀ (f : FilterOperator) (p : Predicate) (records : List Record) (row : Record → Row),
      f.predicate = p.expr →
      (∀ record ∈ records, f.decodeRow record = .ok (row record)) →
      (∀ record ∈ records, p.Each (Comparison.WellTyped (row record) f.schema)) →
      f.emits records =
        .ok (records.filter (fun record => p.truth (row record) f.schema = some true)) := by
  intro hall
  have hrow : ∀ record ∈ [[0, 1, 0, 0, 0, 0, 0, 0, 0, 0]],
      notALessB.decodeRow record = .ok [.null, .float 0] := by
    intro record hrecord
    obtain rfl := List.mem_singleton.mp hrecord
    rfl
  have htyped : (notLess (.column "a") (.column "b")).Each
      (Comparison.WellTyped [.null, .float 0] notALessB.schema) :=
    ⟨by decide, .null, .float 0, rfl, rfl, Or.inl rfl⟩
  have hselected := hall notALessB (notLess (.column "a") (.column "b"))
    [[0, 1, 0, 0, 0, 0, 0, 0, 0, 0]] (fun _ => [.null, .float 0]) rfl hrow
    (fun _ _ => htyped)
  rw [FilterOperator.emits_eq _ (fun record hrecord =>
    notALessB.accepts_eq rfl (hrow record hrecord) htyped)] at hselected
  cases hselected

end SoupDB
