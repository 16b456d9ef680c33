import SoupDB.Query.FormatExact

/-!
# SoupDB: parameters of prepared statements

`bindParameters` walks through the objects of an AST by reflection: a node is a parameter, a
tuple, a list, an object with named fields, or an object that is left as it is.  The parts of a
node are found by paths, and a node is known when the labels of its parts are.

Main facts: `bind_parameters_exact` and `oneBased_of_parsed`.
-/

namespace SoupDB.Params

open List

variable {α : Type}

/-- The objects of an AST.  A dataclass has a class and the names of its fields. -/
inductive Node (α : Type)
  | Parameter (index : Int)
  | tuple (items : List (Node α))
  | list (items : List (Node α))
  | dataclass (name : String) (fields : List String) (values : List (Node α))
  | other (value : α)

/-- `Literal(value)`. -/
def Node.Literal (value : α) : Node α := .dataclass "Literal" ["value"] [.other value]

def InRange (params : List α) (index : Int) : Prop := 1 ≤ index ∧ index ≤ params.length

instance (params : List α) (index : Int) : Decidable (InRange params index) :=
  inferInstanceAs (Decidable (_ ∧ _))

theorem InRange.lt {params : List α} {index : Int} (hindex : InRange params index) :
    (index - 1).toNat < params.length := by
  have hpos := hindex.1
  have hle := hindex.2
  omega

def tooFew (params : List α) (index : Int) : PyError :=
  .QueryExecutionError
    s!"prepared statement requires at least {index} parameter(s); got {params.length}"

mutual

/-- The node with every `$n` replaced by its parameter. -/
def bindParameters (params : List α) : Node α → Except PyError (Node α)
  | .Parameter index =>
      if hindex : InRange params index then
        .ok (.Literal (params.get ⟨(index - 1).toNat, hindex.lt⟩))
      else .error (tooFew params index)
  | .tuple items => do
      let items ← bindItems params items
      .ok (.tuple items)
  | .list items => do
      let items ← bindItems params items
      .ok (.list items)
  | .dataclass name fields values => do
      let values ← bindItems params values
      .ok (.dataclass name fields values)
  | .other value => .ok (.other value)

def bindItems (params : List α) : List (Node α) → Except PyError (List (Node α))
  | [] => .ok []
  | item :: items => do
      let item ← bindParameters params item
      let items ← bindItems params items
      .ok (item :: items)

end

/-! ## Parts of a node -/

namespace Node

def children : Node α → List (Node α)
  | .Parameter _ | .other _ => []
  | .tuple items | .list items | .dataclass _ _ items => items

/-- What is seen of a node without its children. -/
inductive Label (α : Type)
  | Parameter (index : Int)
  | tuple (size : Nat)
  | list (size : Nat)
  | dataclass (name : String) (fields : List String) (size : Nat)
  | other (value : α)

def label : Node α → Label α
  | .Parameter index => .Parameter index
  | .tuple items => .tuple items.length
  | .list items => .list items.length
  | .dataclass name fields values => .dataclass name fields values.length
  | .other value => .other value

/-- The part of the node at the end of a path. -/
def part : Node α → List Nat → Option (Node α)
  | node, [] => some node
  | node, k :: path => node.children[k]?.bind fun child => child.part path

/-- The indexes of parameters start at 1. -/
def OneBased (node : Node α) : Prop := ∀ path i, node.part path = some (.Parameter i) → 1 ≤ i

variable {node child : Node α} {path : List Nat} {k : Nat}

theorem part_nil : node.part [] = some node := by rw [part]

theorem part_cons :
    node.part (k :: path) = node.children[k]?.bind fun child => child.part path := by
  rw [part]

theorem part_cons_of_child (hchild : node.children[k]? = some child) :
    node.part (k :: path) = child.part path := by
  rw [part_cons, hchild, Option.bind_some]

theorem part_literal {value : α} {m : Node α} (hpart : (Literal value).part path = some m) :
    (path = [] ∧ m = .Literal value) ∨ (path = [0] ∧ m = .other value) := by
  match path with
  | [] =>
      rw [part_nil] at hpart
      exact Or.inl ⟨rfl, (Option.some.inj hpart).symm⟩
  | 0 :: [] =>
      rw [part_cons] at hpart
      exact Or.inr ⟨rfl, (Option.some.inj hpart).symm⟩
  | 0 :: k :: path => cases hpart
  | (k + 1) :: path => cases hpart

end Node

/-! ## One step -/

section Steps

variable {params : List α} {node bound m : Node α} {items results : List (Node α)} {i : Int}
  {path : List Nat} {error : PyError}

theorem bind_items_eq_ok : bindItems params items = .ok results ↔
    List.Forall₂ (fun item result => bindParameters params item = .ok result) items results := by
  induction items generalizing results with
  | nil =>
      rw [bindItems, forall₂_nil_left_iff]
      exact ⟨fun h => (Except.ok.inj h).symm, fun h => by rw [h]⟩
  | cons item items ih =>
      rw [bindItems, bind_eq_ok, forall₂_cons_left_iff]
      constructor
      · rintro ⟨result, hresult, hrest⟩
        obtain ⟨more, hmore, hrest⟩ := bind_eq_ok.mp hrest
        exact ⟨result, more, hresult, ih.mp hmore, (Except.ok.inj hrest).symm⟩
      · rintro ⟨result, more, hresult, hmore, rfl⟩
        refine ⟨result, hresult, ?_⟩
        rw [ih.mpr hmore, ok_bind]

theorem bind_items_eq_error (hitems : bindItems params items = .error error) :
    ∃ (k : Nat) (item : Node α), items[k]? = some item ∧
      bindParameters params item = .error error := by
  induction items with
  | nil => cases hitems
  | cons item items ih =>
      rw [bindItems] at hitems
      cases hitem : bindParameters params item with
      | error e =>
          rw [hitem, error_bind] at hitems
          cases hitems
          exact ⟨0, item, rfl, hitem⟩
      | ok result =>
          rw [hitem, ok_bind] at hitems
          cases hrest : bindItems params items with
          | error e =>
              rw [hrest, error_bind] at hitems
              cases hitems
              obtain ⟨k, item, hk, hitem⟩ := ih hrest
              exact ⟨k + 1, item, hk, hitem⟩
          | ok results =>
              rw [hrest, ok_bind] at hitems
              cases hitems

theorem bind_parameter_eq_ok : bindParameters params (.Parameter i) = .ok bound ↔
    ∃ value, InRange params i ∧ params[(i - 1).toNat]? = some value ∧ bound = .Literal value := by
  rw [bindParameters]
  split
  · next hindex =>
      rw [getElem?_eq_getElem hindex.lt, get_eq_getElem]
      constructor
      · intro h
        cases h
        exact ⟨_, hindex, rfl, rfl⟩
      · rintro ⟨value, _, hvalue, rfl⟩
        cases hvalue
        rfl
  · next hindex =>
      refine iff_of_false (fun h => nomatch h) ?_
      rintro ⟨_, h, _⟩
      exact hindex h

theorem bind_step (hnode : ∀ i, node ≠ .Parameter i)
    (hbound : bindParameters params node = .ok bound) :
    bound.label = node.label ∧ (∀ i, bound ≠ .Parameter i) ∧
      List.Forall₂ (fun child result => bindParameters params child = .ok result)
        node.children bound.children := by
  cases node with
  | Parameter i => exact absurd rfl (hnode i)
  | other value =>
      rw [bindParameters] at hbound
      cases hbound
      exact ⟨rfl, hnode, List.Forall₂.nil⟩
  | tuple items | list items | dataclass name fields items =>
      rw [bindParameters] at hbound
      obtain ⟨results, hresults, hbound⟩ := bind_eq_ok.mp hbound
      cases hbound
      have hforall := bind_items_eq_ok.mp hresults
      refine ⟨?_, by simp, hforall⟩
      rw [Node.label, Node.label, hforall.length_eq]

theorem bind_step_error (hnode : ∀ i, node ≠ .Parameter i)
    (herror : bindParameters params node = .error error) :
    ∃ (k : Nat) (child : Node α), node.children[k]? = some child ∧
      bindParameters params child = .error error := by
  cases node with
  | Parameter i => exact absurd rfl (hnode i)
  | other value =>
      rw [bindParameters] at herror
      cases herror
  | tuple items | list items | dataclass name fields items =>
      rw [bindParameters] at herror
      rcases bind_eq_error.mp herror with hitems | ⟨results, _, hresults⟩
      · exact bind_items_eq_error hitems
      · cases hresults

theorem sizeOf_child {child : Node α} (hchild : child ∈ node.children) :
    sizeOf child < sizeOf node := by
  cases node with
  | Parameter i => cases hchild
  | other value => cases hchild
  | tuple items | list items | dataclass name fields items =>
      have hlt := sizeOf_lt_of_mem hchild
      simp only [Node.children] at hlt
      simp only [Node.tuple.sizeOf_spec, Node.list.sizeOf_spec, Node.dataclass.sizeOf_spec]
      omega

theorem bind_parameters_error (node : Node α)
    (herror : bindParameters params node = .error error) :
    ∃ path i, node.part path = some (.Parameter i) ∧ ¬ InRange params i ∧
      error = tooFew params i := by
  by_cases hnode : ∃ i, node = .Parameter i
  · obtain ⟨i, rfl⟩ := hnode
    rw [bindParameters] at herror
    split at herror
    · cases herror
    · next hindex =>
        cases herror
        exact ⟨[], i, Node.part_nil, hindex, rfl⟩
  · obtain ⟨k, child, hchild, herror⟩ := bind_step_error (not_exists.mp hnode) herror
    obtain ⟨path, i, hpart, hrest⟩ := bind_parameters_error child herror
    exact ⟨k :: path, i, by rw [Node.part_cons_of_child hchild, hpart], hrest⟩
termination_by sizeOf node
decreasing_by exact sizeOf_child (mem_of_getElem? hchild)

theorem exists_of_forall₂ {β γ : Type} {R : β → γ → Prop} {xs : List β} {ys : List γ}
    (h : List.Forall₂ R xs ys) {k : Nat} {x : β} (hx : xs[k]? = some x) :
    ∃ y, ys[k]? = some y ∧ R x y := by
  induction h generalizing k with
  | nil => cases hx
  | cons hxy _ ih =>
      cases k with
      | zero =>
          cases hx
          exact ⟨_, rfl, hxy⟩
      | succ k => exact ih hx

theorem part_bind (hbound : bindParameters params node = .ok bound)
    (hpart : node.part path = some m) :
    ∃ result, bound.part path = some result ∧ bindParameters params m = .ok result := by
  induction path generalizing node bound with
  | nil =>
      rw [Node.part_nil] at hpart
      cases hpart
      exact ⟨bound, Node.part_nil, hbound⟩
  | cons k path ih =>
      rw [Node.part_cons] at hpart
      obtain ⟨child, hchild, hpart⟩ := Option.bind_eq_some_iff.mp hpart
      have hnode : ∀ i, node ≠ .Parameter i := by
        rintro i rfl
        cases hchild
      obtain ⟨_, _, hchildren⟩ := bind_step hnode hbound
      obtain ⟨result, hresult, hbind⟩ := exists_of_forall₂ hchildren hchild
      obtain ⟨m', hm', hbind'⟩ := ih hbind hpart
      exact ⟨m', by rw [Node.part_cons_of_child hresult, hm'], hbind'⟩

theorem part_of_bound (hbound : bindParameters params node = .ok bound)
    (hpart : bound.part path = some m) :
    (∃ origin, node.part path = some origin ∧ bindParameters params origin = .ok m) ∨
      ∃ front i value, path = front ++ [0] ∧ node.part front = some (.Parameter i) ∧
        m = .other value := by
  induction path generalizing node bound with
  | nil =>
      rw [Node.part_nil] at hpart
      cases hpart
      exact Or.inl ⟨node, Node.part_nil, hbound⟩
  | cons k path ih =>
      by_cases hnode : ∃ i, node = .Parameter i
      · obtain ⟨i, rfl⟩ := hnode
        obtain ⟨value, _, _, rfl⟩ := bind_parameter_eq_ok.mp hbound
        rcases Node.part_literal hpart with ⟨hpath, _⟩ | ⟨hpath, rfl⟩
        · cases hpath
        · exact Or.inr ⟨[], i, value, hpath, Node.part_nil, rfl⟩
      · obtain ⟨_, _, hchildren⟩ := bind_step (not_exists.mp hnode) hbound
        rw [Node.part_cons] at hpart
        obtain ⟨child, hchild, hpart⟩ := Option.bind_eq_some_iff.mp hpart
        obtain ⟨origin, horigin, hbind⟩ := exists_of_forall₂ hchildren.flip hchild
        rcases ih hbind hpart with ⟨m', hm', hbind'⟩ | ⟨front, i, value, rfl, hfront, rfl⟩
        · exact Or.inl ⟨m', by rw [Node.part_cons_of_child horigin, hm'], hbind'⟩
        · exact Or.inr ⟨k :: front, i, value, rfl,
            by rw [Node.part_cons_of_child horigin, hfront], rfl⟩

theorem bind_ne_parameter (hbound : bindParameters params node = .ok bound) (i : Int) :
    bound ≠ .Parameter i := by
  by_cases hnode : ∃ i, node = .Parameter i
  · obtain ⟨j, rfl⟩ := hnode
    obtain ⟨value, _, _, rfl⟩ := bind_parameter_eq_ok.mp hbound
    exact fun h => nomatch h
  · exact (bind_step (not_exists.mp hnode) hbound).2.1 i

theorem bind_fails_iff : (∃ error, bindParameters params node = .error error) ↔
    ∃ path i, node.part path = some (.Parameter i) ∧ ¬ InRange params i := by
  constructor
  · rintro ⟨error, herror⟩
    obtain ⟨path, i, hpart, hindex, _⟩ := bind_parameters_error node herror
    exact ⟨path, i, hpart, hindex⟩
  · rintro ⟨path, i, hpart, hindex⟩
    cases hbound : bindParameters params node with
    | error error => exact ⟨error, rfl⟩
    | ok bound =>
        obtain ⟨result, _, hresult⟩ := part_bind hbound hpart
        obtain ⟨_, hrange, _⟩ := bind_parameter_eq_ok.mp hresult
        exact absurd hrange hindex

variable {bound' : Node α} {params' : List α} (hbound : bindParameters params node = .ok bound)
    (hbound' : bindParameters params' node = .ok bound')
include hbound hbound'

theorem label_bind : bound'.label = bound.label := by
  by_cases hnode : ∃ i, node = .Parameter i
  · obtain ⟨i, rfl⟩ := hnode
    obtain ⟨value, _, _, rfl⟩ := bind_parameter_eq_ok.mp hbound
    obtain ⟨value', _, _, rfl⟩ := bind_parameter_eq_ok.mp hbound'
    rfl
  · rw [(bind_step (not_exists.mp hnode) hbound).1, (bind_step (not_exists.mp hnode) hbound').1]

/-- Two results have the same parts, apart from the values of the literals that stand for
parameters. -/
theorem same_labels (hpart : bound.part path = some m) :
    (bound'.part path).map Node.label = some m.label ∨
      ∃ front i, path = front ++ [0] ∧ node.part front = some (.Parameter i) := by
  rcases part_of_bound hbound hpart with ⟨origin, horigin, hm⟩ | ⟨front, i, _, hpath, hfront, _⟩
  · obtain ⟨m', hm', hbind'⟩ := part_bind hbound' horigin
    rw [hm', Option.map_some, label_bind hm hbind']
    exact Or.inl rfl
  · exact Or.inr ⟨front, i, hpath, hfront⟩

end Steps

/-! ## The result of binding -/

/-- What stands where the node has `origin`: the literal of a parameter, or the same object. -/
def BoundAt (params : List α) (bound : Node α) (path : List Nat) : Node α → Prop
  | .Parameter i => ∃ value, params[(i - 1).toNat]? = some value ∧
      bound.part path = some (.Literal value)
  | origin => (bound.part path).map Node.label = some origin.label

theorem boundAt_of_part {params : List α} {node bound origin : Node α} {path : List Nat}
    (hbound : bindParameters params node = .ok bound) (hpart : node.part path = some origin) :
    BoundAt params bound path origin := by
  obtain ⟨result, hresult, hbind⟩ := part_bind hbound hpart
  have hother : (∀ i, origin ≠ .Parameter i) →
      (bound.part path).map Node.label = some origin.label := by
    intro horigin
    rw [hresult, Option.map_some, (bind_step horigin hbind).1]
  cases origin with
  | Parameter i =>
      obtain ⟨value, _, hvalue, rfl⟩ := bind_parameter_eq_ok.mp hbind
      exact ⟨value, hvalue, hresult⟩
  | tuple | list | dataclass | other => exact hother (by simp)

/-- Binding replaces the parameters of an AST and nothing else.  It fails when an index is beyond
the parameters, leaves none of them in the result, and the results of as many other parameters
differ in the values of the literals only. -/
theorem bind_parameters_exact {α : Type} (node : Node α) (hbased : node.OneBased)
    (params : List α) :
    ((∃ error, bindParameters params node = .error error) ↔
      ∃ path i, node.part path = some (.Parameter i) ∧ (params.length : Int) < i) ∧
    ∀ bound, bindParameters params node = .ok bound →
      (∀ path i, bound.part path ≠ some (.Parameter i)) ∧
      (∀ path origin, node.part path = some origin → BoundAt params bound path origin) ∧
      ∀ params' : List α, params'.length = params.length →
        ∃ bound', bindParameters params' node = .ok bound' ∧
          ∀ path, (bound'.part path).map Node.label = (bound.part path).map Node.label ∨
            ∃ front i, path = front ++ [0] ∧ node.part front = some (.Parameter i) := by
  refine ⟨?_, fun bound hbound => ⟨?_, ?_, ?_⟩⟩
  · rw [bind_fails_iff]
    constructor
    · rintro ⟨path, i, hpart, hindex⟩
      refine ⟨path, i, hpart, ?_⟩
      by_contra hle
      exact hindex ⟨hbased path i hpart, by omega⟩
    · rintro ⟨path, i, hpart, hlt⟩
      exact ⟨path, i, hpart, fun hindex => absurd hindex.2 (by omega)⟩
  · intro path i hpart
    rcases part_of_bound hbound hpart with ⟨origin, _, hbind⟩ | ⟨_, _, _, _, _, hother⟩
    · exact bind_ne_parameter hbind i rfl
    · cases hother
  · exact fun path origin hpart => boundAt_of_part hbound hpart
  · intro params' hlength
    have hsucceeds : ∃ bound', bindParameters params' node = .ok bound' := by
      cases hbound' : bindParameters params' node with
      | ok bound' => exact ⟨bound', rfl⟩
      | error error =>
          obtain ⟨path, i, hpart, hindex, _⟩ := bind_parameters_error node hbound'
          rw [InRange, hlength] at hindex
          obtain ⟨result, _, hresult⟩ := part_bind hbound hpart
          obtain ⟨_, hrange, _⟩ := bind_parameter_eq_ok.mp hresult
          exact absurd hrange hindex
    obtain ⟨bound', hbound'⟩ := hsucceeds
    refine ⟨bound', hbound', fun path => ?_⟩
    cases hpart : bound.part path with
    | some m => exact same_labels hbound hbound' hpart
    | none =>
        cases hpart' : bound'.part path with
        | none => exact Or.inl rfl
        | some m' =>
            rcases same_labels hbound' hbound hpart' with hsame | hparameter
            · rw [hpart] at hsame
              cases hsame
            · exact Or.inr hparameter

/-! ## Expressions -/

section Expressions

/-- `name(fields...)`. -/
def object (name : String) (fields : List (String × Node Value)) : Node Value :=
  .dataclass name (fields.map Prod.fst) (fields.map Prod.snd)

def text (value : String) : Node Value := .other (.str value)

def flag (value : Bool) : Node Value := .other (.bool value)

mutual

/-- The object of an expression. -/
def exprNode : Expr → Node Value
  | .Literal value => .Literal value
  | .Parameter index => .Parameter index
  | .ColumnRef name => object "ColumnRef" [("name", text name)]
  | .StarExpr => object "StarExpr" []
  | .CompareExpr left op right => object "CompareExpr"
      [("left", exprNode left), ("op", text op), ("right", exprNode right)]
  | .BinaryExpr left op right => object "BinaryExpr"
      [("left", exprNode left), ("op", text op), ("right", exprNode right)]
  | .IsNullExpr value negated => object "IsNullExpr"
      [("value", exprNode value), ("negated", flag negated)]
  | .LogicalExpr left op right => object "LogicalExpr"
      [("left", exprNode left), ("op", text op), ("right", exprNode right)]
  | .NotExpr operand => object "NotExpr" [("operand", exprNode operand)]
  | .BetweenExpr value lo hi => object "BetweenExpr"
      [("value", exprNode value), ("lo", exprNode lo), ("hi", exprNode hi)]
  | .InExpr value items => object "InExpr"
      [("value", exprNode value), ("items", .tuple (exprNodes items))]
  | .LikeExpr value pattern => object "LikeExpr"
      [("value", exprNode value), ("pattern", exprNode pattern)]
  | .MatchExpr column query => object "MatchExpr"
      [("column", object "ColumnRef" [("name", text column)]), ("query", exprNode query)]
  | .SimilarToExpr source k => object "SimilarToExpr"
      [("source", exprNode source), ("k", .Literal k)]
  | .SearchExpr column query => object "SearchExpr"
      [("column", object "ColumnRef" [("name", text column)]), ("query", exprNode query)]
  | .ScoreExpr kind => object "ScoreExpr" [("kind", text kind)]
  | .BoundScoreExpr position kind => object "BoundScoreExpr"
      [("position", .other (.int position)), ("kind", text kind)]
  | .FunctionExpr name none distinct => object "FunctionExpr"
      [("name", text name), ("arg", .other .null), ("distinct", flag distinct)]
  | .FunctionExpr name (some arg) distinct => object "FunctionExpr"
      [("name", text name), ("arg", exprNode arg), ("distinct", flag distinct)]
  | .PointExpr x y => object "PointExpr" [("x", exprNode x), ("y", exprNode y)]
  | .DistanceExpr left right metric => object "DistanceExpr"
      [("left", exprNode left), ("right", exprNode right), ("metric", text metric)]
  | .PolygonExpr vertices => object "PolygonExpr" [("vertices", .tuple (exprNodes vertices))]
  | .IntersectsExpr left right => object "IntersectsExpr"
      [("left", exprNode left), ("right", exprNode right)]

def exprNodes : List Expr → List (Node Value)
  | [] => []
  | item :: items => exprNode item :: exprNodes items

end

/-! ### Expressions that the parser takes -/

theorem oneBased_literal (value : Value) : (Node.Literal value).OneBased := by
  intro path i hpart
  rcases Node.part_literal hpart with ⟨_, h⟩ | ⟨_, h⟩ <;> cases h

theorem oneBased_other (value : Value) : (Node.other value).OneBased := by
  intro path i hpart
  cases path with
  | nil =>
      rw [Node.part_nil] at hpart
      cases hpart
  | cons k path => cases hpart

theorem oneBased_of_children {node : Node Value} (hnode : ∀ i, node ≠ .Parameter i)
    (hchildren : ∀ child ∈ node.children, child.OneBased) : node.OneBased := by
  intro path i hpart
  cases path with
  | nil =>
      rw [Node.part_nil] at hpart
      exact absurd (Option.some.inj hpart) (hnode i)
  | cons k path =>
      rw [Node.part_cons] at hpart
      obtain ⟨child, hchild, hpart⟩ := Option.bind_eq_some_iff.mp hpart
      exact hchildren child (mem_of_getElem? hchild) path i hpart

theorem oneBased_object {name : String} {fields : List (String × Node Value)}
    (hfields : ∀ field ∈ fields, field.2.OneBased) : (object name fields).OneBased := by
  refine oneBased_of_children (fun _ h => nomatch h) fun child hchild => ?_
  obtain ⟨field, hfield, rfl⟩ := mem_map.mp hchild
  exact hfields field hfield

theorem oneBased_column (column : String) :
    (object "ColumnRef" [("name", text column)]).OneBased :=
  oneBased_object (forall_mem_singleton.mpr (oneBased_other _))

theorem mem_expr_nodes {es : List Expr} {node : Node Value} (hnode : node ∈ exprNodes es) :
    ∃ e ∈ es, node = exprNode e := by
  induction es with
  | nil => cases hnode
  | cons e es ih =>
      rcases mem_cons.mp hnode with rfl | hnode
      · exact ⟨e, mem_cons_self, rfl⟩
      · obtain ⟨e', he', hnode⟩ := ih hnode
        exact ⟨e', mem_cons_of_mem _ he', hnode⟩

theorem oneBased_tuple {es : List Expr} (hes : ∀ e ∈ es, (exprNode e).OneBased) :
    (Node.tuple (exprNodes es)).OneBased := by
  refine oneBased_of_children (fun _ h => nomatch h) fun child hchild => ?_
  obtain ⟨e, he, rfl⟩ := mem_expr_nodes hchild
  exact hes e he

theorem oneBased_of_produced {h : Host} {e : Expr} (he : Parser.Produced h e) :
    (exprNode e).OneBased := by
  induction he with
  | number | string | bool | null =>
      rw [exprNode]
      exact oneBased_literal _
  | parameter hindex =>
      rw [exprNode]
      intro path i hpart
      cases path with
      | nil =>
          rw [Node.part_nil] at hpart
          cases hpart
          omega
      | cons k path => cases hpart
  | column | score | countStar =>
      rw [exprNode]
      refine oneBased_object ?_
      simp only [forall_mem_cons, not_mem_nil, false_implies, implies_true, and_true]
      simp only [text, flag, oneBased_other, and_self]
  | similarTo =>
      rw [exprNode, exprNode]
      refine oneBased_object ?_
      simp only [forall_mem_cons, not_mem_nil, false_implies, implies_true, and_true]
      exact ⟨oneBased_literal _, oneBased_literal _⟩
  | search | matchQuery =>
      rw [exprNode, exprNode]
      refine oneBased_object ?_
      simp only [forall_mem_cons, not_mem_nil, false_implies, implies_true, and_true]
      exact ⟨oneBased_column _, oneBased_literal _⟩
  | function _ _ _ ih | isNull _ _ ih | not _ ih =>
      rw [exprNode]
      refine oneBased_object ?_
      simp only [forall_mem_cons, not_mem_nil, false_implies, implies_true, and_true]
      simp only [text, flag, oneBased_other, ih, and_self]
  | point _ _ ih₁ ih₂ | distance _ _ _ ih₁ ih₂ | intersects _ _ ih₁ ih₂ | binary _ _ _ ih₁ ih₂
  | compare _ _ _ ih₁ ih₂ | like _ _ ih₁ ih₂ | logical _ _ _ ih₁ ih₂ =>
      rw [exprNode]
      refine oneBased_object ?_
      simp only [forall_mem_cons, not_mem_nil, false_implies, implies_true, and_true]
      simp only [text, oneBased_other, ih₁, ih₂, and_self]
  | between _ _ _ ih₁ ih₂ ih₃ =>
      rw [exprNode]
      refine oneBased_object ?_
      simp only [forall_mem_cons, not_mem_nil, false_implies, implies_true, and_true]
      exact ⟨ih₁, ih₂, ih₃⟩
  | polygon _ _ _ ih =>
      rw [exprNode]
      exact oneBased_object (forall_mem_singleton.mpr (oneBased_tuple ih))
  | inList _ _ _ ih ihs =>
      rw [exprNode]
      refine oneBased_object ?_
      simp only [forall_mem_cons, not_mem_nil, false_implies, implies_true, and_true]
      exact ⟨ih, oneBased_tuple ihs⟩

/-- The parser takes parameters from `$1` on only. -/
theorem oneBased_of_parsed {h : Host} {e : Expr} (he : Parser.Parsed h e) :
    (exprNode e).OneBased := by
  rcases he.cases with rfl | ⟨_, hproduced⟩
  · rw [exprNode]
    exact oneBased_object (forall_mem_nil _)
  · exact oneBased_of_produced hproduced

end Expressions

/-! ## A comparison -/

/-- `a = $1`. -/
def comparison : Expr := .CompareExpr (.ColumnRef "a") "=" (.Parameter 1)

theorem parsed_comparison : Parser.Parsed .ascii comparison :=
  Parser.parsed_of_text ['a', '=', '$', '1'] rfl rfl

theorem bind_parameters_exact_comparison :
    ((∃ error, bindParameters [Value.int 5] (exprNode comparison) = .error error) ↔
      ∃ path i, (exprNode comparison).part path = some (.Parameter i) ∧ ((1 : Nat) : Int) < i) ∧
    ∀ bound, bindParameters [Value.int 5] (exprNode comparison) = .ok bound →
      (∀ path i, bound.part path ≠ some (.Parameter i)) ∧
      (∀ path origin, (exprNode comparison).part path = some origin →
        BoundAt [Value.int 5] bound path origin) ∧
      ∀ params' : List Value, params'.length = 1 →
        ∃ bound', bindParameters params' (exprNode comparison) = .ok bound' ∧
          ∀ path, (bound'.part path).map Node.label = (bound.part path).map Node.label ∨
            ∃ front i, path = front ++ [0] ∧
              (exprNode comparison).part front = some (.Parameter i) :=
  bind_parameters_exact (exprNode comparison) (oneBased_of_parsed parsed_comparison) [Value.int 5]

end SoupDB.Params
