import SoupDB.Query.RankedBinding

/-!
# SoupDB: the search predicate of a WHERE clause

A ranked text search takes its MATCH out of the conjunction of a WHERE clause.  What is left is
the residual predicate of the rows that match.

Main fact: `residual_meaning`.  On every row, the WHERE clause with its MATCH true has the truth
value that the residual predicate has, and none where that has none.
-/

namespace SoupDB

/-- The conjuncts of a predicate, from left to right. -/
def gather : Expr → List Expr
  | .LogicalExpr left op right =>
      if op = "AND" then gather left ++ gather right else [.LogicalExpr left op right]
  | node => [node]

/-- The conjunction of predicates, if there are any. -/
def conjunction : List Expr → Option Expr
  | [] => none
  | node :: nodes =>
      some (nodes.foldl (fun residual node => .LogicalExpr residual "AND" node) node)

def matchTerms : Expr → Option (String × Expr)
  | .MatchExpr column query => some (column, query)
  | .SearchExpr column query => some (column, query)
  | _ => none

/-- Split conjunction into its single MATCH/SEARCH and a residual predicate. -/
def splitMatch : Option Expr → Except PyError ((String × Expr) × Option Expr)
  | none => .error (.QueryExecutionError "ranked search requires a MATCH predicate")
  | some predicate =>
      let predicates := gather predicate
      match predicates.filterMap matchTerms with
      | [found] =>
          let remaining := predicates.filter (fun node => !node.isMatch)
          if remaining.any (fun node => (walkNodes node).any Expr.isMatch) then
            .error (.QueryExecutionError "MATCH inside OR/NOT is not supported")
          else .ok (found, conjunction remaining)
      | _ =>
          .error (.QueryExecutionError "ranked search requires exactly one MATCH predicate")

/-- The node, or true if it is the search predicate. -/
def grantedNode (node : Expr) : Expr := if node.isMatch then .Literal (.bool true) else node

/-- The predicate where the search predicates among its conjuncts are true. -/
def granted : Expr → Expr
  | .LogicalExpr left op right =>
      if op = "AND" then .LogicalExpr (granted left) op (granted right)
      else .LogicalExpr left op right
  | node => grantedNode node

section Meaning

variable (env : Environment) (row : Row) (schema : List ColumnDef)

/-- The predicates have truth values on the row, and their conjunction has this one. -/
def ConjunctsHold (truth : Bool) (nodes : List Expr) : Prop :=
  ∃ truths, List.Forall₂ (fun node truth =>
    evaluate env row schema node = .ok (.value (.bool truth))) nodes truths ∧
      truths.all id = truth

variable {env row schema} {truth : Bool}

theorem conjuncts_nil : ConjunctsHold env row schema truth [] ↔ truth = true := by
  constructor
  · rintro ⟨truths, htruths, rfl⟩
    cases htruths
    rfl
  · rintro rfl
    exact ⟨[], List.Forall₂.nil, rfl⟩

theorem conjuncts_singleton {node : Expr} :
    ConjunctsHold env row schema truth [node] ↔
      evaluate env row schema node = .ok (.value (.bool truth)) := by
  constructor
  · rintro ⟨truths, htruths, rfl⟩
    cases htruths with
    | cons hnode hrest =>
        cases hrest
        simpa using hnode
  · intro h
    exact ⟨[truth], List.Forall₂.cons h List.Forall₂.nil, by simp⟩

theorem conjuncts_append {left right : List Expr} :
    ConjunctsHold env row schema truth (left ++ right) ↔
      ∃ a b, ConjunctsHold env row schema a left ∧ ConjunctsHold env row schema b right ∧
        (a && b) = truth := by
  constructor
  · rintro ⟨truths, htruths, rfl⟩
    refine ⟨(truths.take left.length).all id, (truths.drop left.length).all id,
      ⟨_, ?_, rfl⟩, ⟨_, ?_, rfl⟩, ?_⟩
    · simpa using List.forall₂_take left.length htruths
    · simpa using List.forall₂_drop left.length htruths
    · rw [← List.all_append, List.take_append_drop]
  · rintro ⟨a, b, ⟨as, has, rfl⟩, ⟨bs, hbs, rfl⟩, rfl⟩
    exact ⟨as ++ bs, List.rel_append has hbs, List.all_append⟩

theorem evaluate_and {left right : Expr} :
    evaluate env row schema (.LogicalExpr left "AND" right) = .ok (.value (.bool truth)) ↔
      ∃ a b, evaluate env row schema left = .ok (.value (.bool a)) ∧
        evaluate env row schema right = .ok (.value (.bool b)) ∧ (a && b) = truth := by
  have hbool : ∀ {obj : Obj} {b : Bool}, requireBool obj = .ok b → obj = .value (.bool b) := by
    intro obj b h
    match obj with
    | .value (.bool _) =>
        cases h
        rfl
    | .value .null | .value (.int _) | .value (.float _) | .value (.str _) | .value (.tuple _)
    | .polygon _ => cases h
  constructor
  · intro h
    rw [evaluate] at h
    obtain ⟨x, hx, h⟩ := bind_eq_ok.mp h
    obtain ⟨a, ha, h⟩ := bind_eq_ok.mp h
    obtain ⟨y, hy, h⟩ := bind_eq_ok.mp h
    obtain ⟨b, hb, h⟩ := bind_eq_ok.mp h
    obtain rfl := hbool ha
    obtain rfl := hbool hb
    refine ⟨a, b, hx, hy, ?_⟩
    cases h
    rfl
  · rintro ⟨a, b, ha, hb, rfl⟩
    rw [evaluate, ha, ok_bind]
    show (do
      let right ← evaluate env row schema right
      let right ← requireBool right
      Except.ok (Obj.value (.bool (if "AND" = "AND" then a && right else a || right)))) = _
    rw [hb]
    rfl

theorem evaluate_gather (predicate : Expr) :
    evaluate env row schema predicate = .ok (.value (.bool truth)) ↔
      ConjunctsHold env row schema truth (gather predicate) := by
  fun_induction gather predicate generalizing truth with
  | case1 left right ihleft ihright =>
      rw [evaluate_and, conjuncts_append]
      simp only [ihleft, ihright]
  | case2 left op right hop => rw [conjuncts_singleton]
  | case3 node hnode => rw [conjuncts_singleton]

theorem gather_granted (predicate : Expr) :
    gather (granted predicate) = (gather predicate).map grantedNode := by
  fun_induction gather predicate with
  | case1 left right ihleft ihright =>
      rw [granted, if_pos rfl, gather, if_pos rfl, ihleft, ihright, List.map_append]
  | case2 left op right hop =>
      rw [granted, if_neg hop, gather, if_neg hop]
      rfl
  | case3 node hnode =>
      have hgranted : granted node = grantedNode node := by
        cases node with
        | LogicalExpr left op right => exact absurd rfl (hnode left op right)
        | _ => rfl
      rw [hgranted, grantedNode, List.map_singleton, grantedNode]
      split
      · rfl
      · cases node with
        | LogicalExpr left op right => exact absurd rfl (hnode left op right)
        | _ => rfl

theorem conjuncts_granted (nodes : List Expr) :
    ConjunctsHold env row schema truth (nodes.map grantedNode) ↔
      ConjunctsHold env row schema truth (nodes.filter (fun node => !node.isMatch)) := by
  induction nodes generalizing truth with
  | nil => rfl
  | cons node nodes ih =>
      have hcons : ∀ (first : Expr) (rest : List Expr),
          first :: rest = [first] ++ rest := fun _ _ => rfl
      rw [List.map_cons, hcons, conjuncts_append, grantedNode]
      cases hmatch : node.isMatch with
      | true =>
          rw [if_pos rfl, List.filter_cons_of_neg (by simp [hmatch]), ← ih]
          constructor
          · rintro ⟨a, b, ha, hb, rfl⟩
            have htrue := conjuncts_singleton.mp ha
            rw [evaluate] at htrue
            cases htrue
            exact hb
          · intro h
            exact ⟨true, truth, conjuncts_singleton.mpr (by rw [evaluate]), h, rfl⟩
      | false =>
          rw [if_neg (by simp), List.filter_cons_of_pos (by simp [hmatch]),
            hcons node (nodes.filter _), conjuncts_append]
          simp only [ih]

theorem evaluate_foldl (nodes : List Expr) (first : Expr) :
    evaluate env row schema
        (nodes.foldl (fun residual node => .LogicalExpr residual "AND" node) first) =
          .ok (.value (.bool truth)) ↔
      ∃ a b, evaluate env row schema first = .ok (.value (.bool a)) ∧
        ConjunctsHold env row schema b nodes ∧ (a && b) = truth := by
  induction nodes generalizing first truth with
  | nil =>
      constructor
      · intro h
        exact ⟨truth, true, h, conjuncts_nil.mpr rfl, Bool.and_true truth⟩
      · rintro ⟨a, b, ha, hb, rfl⟩
        rw [conjuncts_nil.mp hb, Bool.and_true]
        exact ha
  | cons node nodes ih =>
      rw [List.foldl_cons, ih]
      have hcons : node :: nodes = [node] ++ nodes := rfl
      constructor
      · rintro ⟨ab, c, hab, hc, rfl⟩
        obtain ⟨a, b, ha, hb, rfl⟩ := evaluate_and.mp hab
        refine ⟨a, b && c, ha, ?_, (Bool.and_assoc a b c).symm⟩
        rw [hcons, conjuncts_append]
        exact ⟨b, c, conjuncts_singleton.mpr hb, hc, rfl⟩
      · rintro ⟨a, bc, ha, hbc, rfl⟩
        rw [hcons, conjuncts_append] at hbc
        obtain ⟨b, c, hb, hc, rfl⟩ := hbc
        exact ⟨a && b, c, evaluate_and.mpr ⟨a, b, ha, conjuncts_singleton.mp hb, rfl⟩, hc,
          Bool.and_assoc a b c⟩

theorem evaluate_conjunction {nodes : List Expr} {residual : Expr}
    (h : conjunction nodes = some residual) :
    evaluate env row schema residual = .ok (.value (.bool truth)) ↔
      ConjunctsHold env row schema truth nodes := by
  cases nodes with
  | nil => cases h
  | cons node nodes =>
      cases h
      have hcons : node :: nodes = [node] ++ nodes := rfl
      rw [evaluate_foldl, hcons, conjuncts_append]
      simp only [conjuncts_singleton]

variable (env row schema) in
/-- The residual predicate has this truth value; without one it is true. -/
def ResidualHolds (truth : Bool) : Option Expr → Prop
  | none => truth = true
  | some residual => evaluate env row schema residual = .ok (.value (.bool truth))

theorem residual_meaning {predicate : Expr} {found : String × Expr} {residual : Option Expr}
    (h : splitMatch (some predicate) = .ok (found, residual)) :
    evaluate env row schema (granted predicate) = .ok (.value (.bool truth)) ↔
      ResidualHolds env row schema truth residual := by
  rw [splitMatch] at h
  dsimp only at h
  split at h
  · split_ifs at h
    cases h
    rw [evaluate_gather, gather_granted, conjuncts_granted]
    cases hnodes : (gather predicate).filter (fun node => !node.isMatch) with
    | nil => exact conjuncts_nil
    | cons node nodes => exact (evaluate_conjunction rfl).symm
  · cases h

end Meaning

end SoupDB
