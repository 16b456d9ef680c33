import SoupDB.Query.ExpressionText

/-!
# SoupDB: the expressions that the parser produces

Names are words of the tokenizer, integers are within the limit, operators are those of the
grammar, and vertices are points.

Main fact: `produced_of_writes`.
-/

namespace SoupDB.Parser

open List

open Lexer (Spelled Item Reads itemTokens text lex)

variable (h : Host)

/-- The operators of arithmetic. -/
def ARITHMETIC_OPS : List String := ["+", "-", "*", "/", "%"]

/-- The expressions that can be read from tokens that a text spells. -/
inductive Produced : Expr → Prop
  | number {raw : String} {lexeme : List Char} {value : Value}
      (hraw : Spelled h .NUMBER raw lexeme) (hvalue : numberValue h raw = .ok value) :
      Produced (.Literal value)
  | string (value : String) : Produced (.Literal (.str value))
  | bool (value : Bool) : Produced (.Literal (.bool value))
  | null : Produced (.Literal .null)
  | parameter {index : Int} (hindex : ¬ index < 1) : Produced (.Parameter index)
  | column {name : String} {lexeme : List Char} (hname : Spelled h .IDENTIFIER name lexeme) :
      Produced (.ColumnRef name)
  | score {kind : String} (hkind : kind = "auto" ∨ kind = "vector") : Produced (.ScoreExpr kind)
  | similarTo {raw : String} {lexeme : List Char} (reference : String) {count : Int}
      (hraw : Spelled h .NUMBER raw lexeme) (hdigits : isDigits raw = true)
      (hcount : intValue h raw = .ok count) :
      Produced (.SimilarToExpr (.Literal (.str reference)) (.int count))
  | search {column : String} {lexeme : List Char} (hcolumn : Spelled h .IDENTIFIER column lexeme)
      (query : String) : Produced (.SearchExpr column (.Literal (.str query)))
  | matchQuery {column : String} {lexeme : List Char}
      (hcolumn : Spelled h .IDENTIFIER column lexeme) (query : String) :
      Produced (.MatchExpr column (.Literal (.str query)))
  | countStar : Produced (.FunctionExpr "COUNT" none false)
  | function {name : String} {arg : Expr} (hname : name ∈ AGGREGATES) (harg : Produced arg)
      (distinct : Bool) : Produced (.FunctionExpr name (some arg) distinct)
  | point {x y : Expr} (hx : Produced x) (hy : Produced y) : Produced (.PointExpr x y)
  | distance {left right : Expr} {metric : String} (hleft : Produced left) (hright : Produced right)
      (hmetric : metric ∈ METRIC_NAMES) : Produced (.DistanceExpr left right metric)
  | polygon {vertices : List Expr} (hvertices : ∀ v ∈ vertices, Produced v)
      (hpoints : ∀ v ∈ vertices, ∃ x y, v = .PointExpr x y) (hne : vertices ≠ []) :
      Produced (.PolygonExpr vertices)
  | intersects {left right : Expr} (hleft : Produced left) (hright : Produced right) :
      Produced (.IntersectsExpr left right)
  | binary {left right : Expr} {op : String} (hop : op ∈ ARITHMETIC_OPS) (hleft : Produced left)
      (hright : Produced right) : Produced (.BinaryExpr left op right)
  | compare {left right : Expr} {op : String} (hop : op ∈ COMPARISON_OPS) (hleft : Produced left)
      (hright : Produced right) : Produced (.CompareExpr left op right)
  | isNull {value : Expr} (hvalue : Produced value) (negated : Bool) :
      Produced (.IsNullExpr value negated)
  | between {value lo hi : Expr} (hvalue : Produced value) (hlo : Produced lo) (hhi : Produced hi) :
      Produced (.BetweenExpr value lo hi)
  | inList {value : Expr} {items : List Expr} (hvalue : Produced value)
      (hitems : ∀ item ∈ items, Produced item) (hne : items ≠ []) : Produced (.InExpr value items)
  | like {value pattern : Expr} (hvalue : Produced value) (hpattern : Produced pattern) :
      Produced (.LikeExpr value pattern)
  | not {operand : Expr} (hoperand : Produced operand) : Produced (.NotExpr operand)
  | logical {left right : Expr} {op : String} (hop : op = "AND" ∨ op = "OR")
      (hleft : Produced left) (hright : Produced right) : Produced (.LogicalExpr left op right)

def Lexical (t : Token) : Prop := ∃ lexeme, Spelled h t.kind t.value lexeme

def ProducedPhrase : Phrase → Prop
  | .expr _ e => Produced h e
  | .items es => es ≠ [] ∧ ∀ e ∈ es, Produced h e
  | .pair first second => Produced h first ∧ Produced h second
  | .vertices es => es ≠ [] ∧ ∀ e ∈ es, Produced h e ∧ ∃ x y, e = .PointExpr x y

section Produces

variable {h} {p : Phrase} {ts : List Token}

theorem additive_op {o : Token} {op : String} (hop : additiveOperator o = some op) :
    op ∈ ["+", "-"] := by
  rw [additiveOperator] at hop
  split at hop
  · next hoperator =>
      cases hop
      exact hoperator.2
  · cases hop

theorem multiplicative_op {o : Token} {op : String} (hop : multiplicativeOperator o = some op) :
    op ∈ ["*", "/", "%"] := by
  rw [multiplicativeOperator] at hop
  split at hop
  · next hoperator =>
      cases hop
      exact hoperator.2
  · split at hop
    · cases hop
      decide
    · cases hop

theorem metric_of_normalize {name metric : String} (hmetric : normalizeMetric h name = .ok metric)
    :
    metric ∈ METRIC_NAMES := by
  rw [normalizeMetric] at hmetric
  split at hmetric
  · cases hmetric
  · next hmem =>
      cases hmetric
      exact not_not.mp hmem

/-- What is written with tokens that a text spells is among the expressions that the parser
produces. -/
theorem produced_of_writes (hwrites : Writes h p ts) (hlexical : ∀ t ∈ ts, Lexical h t) :
    ProducedPhrase h p := by
  induction hwrites with
  | number kind hvalue =>
      obtain ⟨lexeme, hspelled⟩ := hlexical _ mem_cons_self
      rw [kind] at hspelled
      exact .number hspelled hvalue
  | column kind =>
      obtain ⟨lexeme, hspelled⟩ := hlexical _ mem_cons_self
      rw [kind] at hspelled
      exact .column hspelled
  | string kind => exact .string _
  | parameter kind hvalue hindex => exact .parameter hindex
  | trueLiteral word => exact .bool true
  | falseLiteral word => exact .bool false
  | null kind => exact .null
  | score word left right => exact .score (Or.inl rfl)
  | similarityScore word left right => exact .score (Or.inr rfl)
  | countStar word left star right => exact .countStar
  | similarTo word left _ sep hk heq hn hcount right ih =>
      simp only [forall_mem_append, forall_mem_cons] at hlexical
      obtain ⟨lexeme, hspelled⟩ := hlexical.2.2.2.2.1
      rw [hn.1] at hspelled
      exact .similarTo _ hspelled hn.2 hcount
  | search word _ ih =>
      obtain ⟨hcolumn, _⟩ := ih (forall_mem_cons.mp hlexical).2
      cases hcolumn with
      | column hname => exact .search hname _
  | matchQuery word _ ih =>
      obtain ⟨hcolumn, _⟩ := ih (forall_mem_cons.mp hlexical).2
      cases hcolumn with
      | column hname => exact .matchQuery hname _
  | group left _ right ih =>
      simp only [forall_mem_append, forall_mem_cons] at hlexical
      exact ih hlexical.1.2
  | pair left _ sep _ right ih₁ ih₂ =>
      simp only [forall_mem_append, forall_mem_cons] at hlexical
      exact ⟨ih₁ hlexical.1.1.2, ih₂ hlexical.1.2.2⟩
  | function word left _ right ih =>
      simp only [forall_mem_append, forall_mem_cons] at hlexical
      exact .function word.2 (ih hlexical.1.2.2) false
  | distinctFunction word left distinct _ right ih =>
      simp only [forall_mem_append, forall_mem_cons] at hlexical
      exact .function word.2 (ih hlexical.1.2.2.2) true
  | point word _ ih =>
      obtain ⟨hy, hx⟩ := ih (forall_mem_cons.mp hlexical).2
      exact .point hx hy
  | distance word _ ih =>
      obtain ⟨hleft, hright⟩ := ih (forall_mem_cons.mp hlexical).2
      exact .distance hleft hright (by decide)
  | distanceMetric word hl _ sep _ sep' hm hmetric hr ih₁ ih₂ =>
      simp only [forall_mem_append, forall_mem_cons] at hlexical
      exact .distance (ih₁ hlexical.1.1.2.2) (ih₂ hlexical.1.2.2) (metric_of_normalize hmetric)
  | polygon word left _ right ih =>
      simp only [forall_mem_append, forall_mem_cons] at hlexical
      obtain ⟨hne, hall⟩ := ih hlexical.1.2.2
      exact .polygon (fun v hv => (hall v hv).1) (fun v hv => (hall v hv).2) hne
  | intersects word _ ih =>
      obtain ⟨hleft, hright⟩ := ih (forall_mem_cons.mp hlexical).2
      exact .intersects hleft hright
  | firstVertex _ ih =>
      obtain ⟨hy, hx⟩ := ih hlexical
      exact ⟨cons_ne_nil _ _, forall_mem_singleton.mpr ⟨.point hx hy, _, _, rfl⟩⟩
  | nextVertex _ sep _ ih₁ ih₂ =>
      rw [forall_mem_append, forall_mem_cons] at hlexical
      obtain ⟨hne, hall⟩ := ih₁ hlexical.1
      obtain ⟨hy, hx⟩ := ih₂ hlexical.2.2
      refine ⟨by simp, ?_⟩
      rw [forall_mem_append, forall_mem_singleton]
      exact ⟨hall, .point hx hy, _, _, rfl⟩
  | firstItem _ ih => exact ⟨cons_ne_nil _ _, forall_mem_singleton.mpr (ih hlexical)⟩
  | nextItem _ sep _ ih₁ ih₂ =>
      rw [forall_mem_append, forall_mem_cons] at hlexical
      obtain ⟨hne, hall⟩ := ih₁ hlexical.1
      refine ⟨by simp, ?_⟩
      rw [forall_mem_append, forall_mem_singleton]
      exact ⟨hall, ih₂ hlexical.2.2⟩
  | term _ ih | arithmetic _ ih | predicate _ ih | negation _ ih | conjunction _ ih
  | disjunction _ ih => exact ih hlexical
  | multiplicative _ operator _ ih₁ ih₂ =>
      rw [forall_mem_append, forall_mem_cons] at hlexical
      have hop : ∀ op ∈ ["*", "/", "%"], op ∈ ARITHMETIC_OPS := by decide
      exact .binary (hop _ (multiplicative_op operator)) (ih₁ hlexical.1) (ih₂ hlexical.2.2)
  | additive _ operator _ ih₁ ih₂ =>
      rw [forall_mem_append, forall_mem_cons] at hlexical
      have hop : ∀ op ∈ ["+", "-"], op ∈ ARITHMETIC_OPS := by decide
      exact .binary (hop _ (additive_op operator)) (ih₁ hlexical.1) (ih₂ hlexical.2.2)
  | isNull _ word kind ih => exact .isNull (ih (forall_mem_append.mp hlexical).1) false
  | isNotNull _ word negated kind ih =>
      exact .isNull (ih (forall_mem_append.mp hlexical).1) true
  | compare _ operator _ ih₁ ih₂ =>
      rw [forall_mem_append, forall_mem_cons] at hlexical
      exact .compare operator.2 (ih₁ hlexical.1) (ih₂ hlexical.2.2)
  | between _ word _ word' _ ih₁ ih₂ ih₃ =>
      simp only [forall_mem_append, forall_mem_cons] at hlexical
      exact .between (ih₁ hlexical.1.1) (ih₂ hlexical.1.2.2) (ih₃ hlexical.2.2)
  | inList _ word left _ right ih₁ ih₂ =>
      simp only [forall_mem_append, forall_mem_cons] at hlexical
      obtain ⟨hne, hall⟩ := ih₂ hlexical.1.2.2.2
      exact .inList (ih₁ hlexical.1.1) hall hne
  | like _ word _ ih₁ ih₂ =>
      rw [forall_mem_append, forall_mem_cons] at hlexical
      exact .like (ih₁ hlexical.1) (ih₂ hlexical.2.2)
  | not word _ ih => exact .not (ih (forall_mem_cons.mp hlexical).2)
  | and _ word _ ih₁ ih₂ =>
      rw [forall_mem_append, forall_mem_cons] at hlexical
      exact .logical (Or.inl rfl) (ih₁ hlexical.1) (ih₂ hlexical.2.2)
  | or _ word _ ih₁ ih₂ =>
      rw [forall_mem_append, forall_mem_cons] at hlexical
      exact .logical (Or.inr rfl) (ih₁ hlexical.1) (ih₂ hlexical.2.2)

end Produces

/-! ## Tokens of texts -/

section Lexed

variable {h} {size fuel : Nat} {sql : List Char} {ts : List Token}

/-- The tokens of a text are spelled by it, the last one apart. -/
theorem lexical_of_tokens_from (htokens : Lexer.tokensFrom h size fuel sql = .ok ts) :
    ∃ front, ts = front ++ [⟨.EOF, "", size⟩] ∧ ∀ t ∈ front, Lexical h t := by
  induction fuel generalizing sql ts with
  | zero =>
      cases sql with
      | nil =>
          cases htokens
          exact ⟨[], rfl, fun _ hmem => nomatch hmem⟩
      | cons c sql => cases htokens
  | succ fuel ih =>
      cases sql with
      | nil =>
          cases htokens
          exact ⟨[], rfl, fun _ hmem => nomatch hmem⟩
      | cons c sql =>
          rw [Lexer.tokensFrom] at htokens
          obtain ⟨⟨token, rest⟩, hscan, htokens⟩ := bind_eq_ok.mp htokens
          obtain ⟨tail, htail, htokens⟩ := bind_eq_ok.mp htokens
          cases htokens
          obtain ⟨front, rfl, hfront⟩ := ih htail
          refine ⟨token.toList ++ front, (append_assoc _ _ _).symm, ?_⟩
          rcases Lexer.scan_token_sound hscan with
            ⟨rfl, _, _⟩ | ⟨t, lexeme, rfl, _, hspelled, _⟩
          · exact hfront
          · exact forall_mem_cons.mpr ⟨⟨lexeme, hspelled⟩, hfront⟩

end Lexed

end SoupDB.Parser
