import SoupDB.Query.FormatReading

/-!
# SoupDB: what can write a rendered expression

Every writing of an expression has balanced parentheses and no more other tokens than its
rendering.  So where the rendering writes the expression, each operand of it is written by the
rendering of that operand.

Main facts: `measured_of_writes` and `split_at`.
-/

namespace SoupDB.Parser

open List

open Brackets (Balanced)
open Lexer (Item)

variable {h : Host} {str : Value → String}

/-! ## Weights -/

section Weights

variable {s a b : Shape} {ss xs ys us vs : List Shape} {t : Token} {items : List Item}

@[simp]
theorem weight_nil : weight [] = 0 := rfl

@[simp]
theorem weight_append : weight (xs ++ ys) = weight xs + weight ys := countP_append

theorem weight_solid (hs : bracket s = none) : weight (s :: ss) = weight ss + 1 := by
  rw [weight, weight, countP_cons_of_pos (by simp [solid, hs])]

theorem weight_parenthesis {opened : Bool} (hs : bracket s = some opened) :
    weight (s :: ss) = weight ss := by
  rw [weight, weight, countP_cons_of_neg (by simp [solid, hs])]

theorem bracket_of_kind (hkind : t.kind ≠ .LPAREN ∧ t.kind ≠ .RPAREN) :
    bracket (Token.shape t) = none := by
  rw [bracket, Token.shape, if_neg hkind.1, if_neg hkind.2]

theorem bracket_lparen (hkind : t.kind = .LPAREN) : bracket (Token.shape t) = some true := by
  rw [bracket, Token.shape, if_pos hkind]

theorem bracket_rparen (hkind : t.kind = .RPAREN) : bracket (Token.shape t) = some false := by
  rw [bracket, Token.shape, hkind]
  rfl

theorem bracket_of_eq {kind : TokenKind} (hkind : t.kind = kind)
    (hne : kind ≠ .LPAREN ∧ kind ≠ .RPAREN) : bracket (Token.shape t) = none :=
  bracket_of_kind (hkind ▸ hne)

theorem bracket_keyword {keyword : String} (hword : isKeyword t keyword = true) :
    bracket (Token.shape t) = none :=
  bracket_of_eq (is_keyword_iff.mp hword).1 (by decide)

theorem bracket_word {name : String} (hword : isWord h t name = true) :
    bracket (Token.shape t) = none := by
  rcases (is_word_iff.mp hword).1 with hkind | hkind <;> exact bracket_of_eq hkind (by decide)

theorem bracket_inner (ht : Inner t) (hlparen : t.kind ≠ .LPAREN) :
    bracket (Token.shape t) = none := by
  refine bracket_of_kind ⟨hlparen, fun hkind => ?_⟩
  have hcloses := closes_of_kind (t := t) (by rw [hkind]; decide)
  rw [ht.closes] at hcloses
  cases hcloses

/-- Two splits of one list at tokens that are no parentheses agree when neither part is heavier. -/
theorem split_at (ha : bracket a = none) (hb : bracket b = none)
    (hsplit : xs ++ a :: ys = us ++ b :: vs) (hleft : weight xs ≤ weight us)
    (hright : weight ys ≤ weight vs) : xs = us ∧ a = b ∧ ys = vs := by
  have htotal := congrArg weight hsplit
  rw [weight_append, weight_append, weight_solid ha, weight_solid hb] at htotal
  refine Brackets.append_inj_of_count (p := solid) ?_ ?_ hsplit
    (by rw [← weight, ← weight]; omega)
  · simp [solid, ha]
  · simp [solid, hb]

end Weights

/-! ## Writings of an expression -/

def phraseWeight (str : Value → String) : Phrase → Nat
  | .expr _ e => weight (shapes (parts str e))
  | .items es => weight (shapes (joined (partsList str es)))
  | .pair first second =>
      weight (shapes (parts str first)) + 1 + weight (shapes (parts str second))
  | .vertices es => weight (shapes (joined (partsList str es)))

/-- The rendering of vertices has names that the grammar has not. -/
def surplus : Phrase → Nat
  | .vertices _ => 1
  | _ => 0

@[simp]
theorem surplus_expr (level : Level) (e : Expr) : surplus (.expr level e) = 0 := rfl

/-- What is known of the tokens that write a phrase. -/
structure Measured (str : Value → String) (p : Phrase) (ts : List Token) : Prop where
  balanced : Balanced bracket (ts.map Token.shape)
  bound : weight (ts.map Token.shape) + surplus p ≤ phraseWeight str p

section Measures

variable {p : Phrase} {ts ts₁ ts₂ : List Token} {es : List Expr} {e : Expr}

theorem parts_list_ne_nil (hne : es ≠ []) : partsList str es ≠ [] := by
  obtain ⟨e, es, rfl⟩ := exists_cons_of_ne_nil hne
  exact cons_ne_nil _ _

theorem parts_list_append (es more : List Expr) :
    partsList str (es ++ more) = partsList str es ++ partsList str more := by
  induction es with
  | nil => rfl
  | cons e es ih => rw [cons_append, partsList, partsList, ih, cons_append]

theorem shapes_joined_concat (hne : es ≠ []) :
    shapes (joined (partsList str (es ++ [e]))) =
      shapes (joined (partsList str es)) ++ (.COMMA, ",") :: shapes (parts str e) := by
  rw [parts_list_append]
  exact joined_concat (parts_list_ne_nil hne)

theorem weight_literal_pos (value : Value) : 1 ≤ weight (shapes (literalParts str value)) := by
  have hfloat : ∀ text, 1 ≤ weight (shapes (floatParts text)) := by
    intro text
    rw [floatParts]
    split
    · exact le_refl 1
    · split
      · exact Nat.le_succ 1
      · exact le_refl 1
  cases value with
  | null | bool | str | int => exact le_refl 1
  | float value => exact hfloat _
  | tuple items => exact hfloat _

/-! ### Weights of renderings -/

variable {left right items : List Item} {kind : TokenKind} {value : String} {lexeme : List Char}

theorem weight_spaced (hop : bracket (kind, value) = none) :
    weight (shapes (spaced left (word kind value) right)) =
      weight (shapes left) + 1 + weight (shapes right) := by
  rw [shapes_spaced, weight_append, weight_solid hop]
  omega

theorem weight_operator {op : String} : weight (shapes (spaced left (operator op) right)) =
    weight (shapes left) + 1 + weight (shapes right) := by
  rw [operator]
  split <;> exact weight_spaced rfl

theorem weight_enclosed : weight (shapes (enclosed items)) = weight (shapes items) := by
  rw [shapes_enclosed, cons_append, weight_parenthesis rfl, weight_append,
    weight_parenthesis rfl, weight_nil, Nat.add_zero]

variable {arguments : List (List Item)} {level : Level}

theorem weight_call (hname : bracket (kind, value) = none) :
    weight (shapes (call (.token kind value lexeme) arguments)) =
      weight (shapes (joined arguments)) + 1 := by
  rw [call, shapes_token, weight_solid hname, weight_enclosed]

theorem weight_joined_cons (h : arguments ≠ []) :
    weight (shapes (joined (items :: arguments))) =
      weight (shapes items) + 1 + weight (shapes (joined arguments)) := by
  rw [joined_cons h, shapes_append, weight_append, shapes_word, weight_solid rfl, shapes_gap]
  omega

theorem weight_pair (hname : bracket (kind, value) = none) :
    weight (shapes (call (.token kind value lexeme) (left :: right :: arguments))) =
      weight (shapes left) + 1 + weight (shapes (joined (right :: arguments))) + 1 := by
  rw [weight_call hname, weight_joined_cons (cons_ne_nil _ _)]

theorem weight_distinct (distinct : Bool) :
    weight (shapes ((if distinct then [word .KEYWORD "DISTINCT", gap] else []) ++ items)) =
      weight (shapes items) + distinct.toNat := by
  cases distinct with
  | false => rfl
  | true => exact weight_solid rfl

/-! ### Every writing is measured -/

theorem Measured.single {e : Expr} {t : Token} (ht : bracket (Token.shape t) = none)
    (he : 1 ≤ weight (shapes (parts str e))) :
    Measured str (.expr level e) [t] := by
  refine ⟨Brackets.balanced_nil.cons ht, ?_⟩
  rw [map_singleton, weight_solid ht, weight_nil]
  exact he

/-- `left op right`. -/
theorem Measured.binary {o : Token} {p₁ p₂ : Phrase} (h₁ : Measured str p₁ ts₁)
    (ho : bracket (Token.shape o) = none) (h₂ : Measured str p₂ ts₂)
    (he : phraseWeight str p₁ + 1 + phraseWeight str p₂ = weight (shapes (parts str e))) :
    Measured str (.expr level e) (ts₁ ++ o :: ts₂) := by
  have hw₁ := h₁.bound
  have hw₂ := h₂.bound
  refine ⟨?_, ?_⟩
  · rw [map_append, map_cons]
    exact h₁.balanced.append (h₂.balanced.cons ho)
  · rw [map_append, map_cons, weight_append, weight_solid ho, phraseWeight, ← he,
      surplus_expr]
    omega

/-- `name( ... )`. -/
theorem Measured.call {t : Token} (ts : List Token) (ht : bracket (Token.shape t) = none)
    (hts : Balanced bracket (ts.map Token.shape))
    (he : weight (ts.map Token.shape) + 1 ≤ weight (shapes (parts str e))) :
    Measured str (.expr level e) (t :: ts) := by
  refine ⟨hts.cons ht, ?_⟩
  rw [map_cons, weight_solid ht]
  exact he

theorem balanced_group {l r : Token} (hl : l.kind = .LPAREN)
    (hts : Balanced bracket (ts.map Token.shape)) (hr : r.kind = .RPAREN) :
    Balanced bracket ((l :: ts ++ [r]).map Token.shape) := by
  rw [cons_append, map_cons, map_append, map_singleton]
  exact hts.enclose (bracket_lparen hl) (bracket_rparen hr)

theorem weight_group {l r : Token} (hl : l.kind = .LPAREN) (hr : r.kind = .RPAREN) :
    weight ((l :: ts ++ [r]).map Token.shape) = weight (ts.map Token.shape) := by
  rw [cons_append, map_cons, map_append, map_singleton,
    weight_parenthesis (bracket_lparen hl), weight_append, weight_parenthesis (bracket_rparen hr),
    weight_nil, Nat.add_zero]

theorem weight_pair_tokens {l c r : Token} (hl : l.kind = .LPAREN) (hc : c.kind = .COMMA)
    (hr : r.kind = .RPAREN) : weight ((l :: ts₁ ++ c :: ts₂ ++ [r]).map Token.shape) =
      weight (ts₁.map Token.shape) + 1 + weight (ts₂.map Token.shape) := by
  have hts : l :: ts₁ ++ c :: ts₂ ++ [r] = l :: (ts₁ ++ c :: ts₂) ++ [r] := by simp
  rw [hts, weight_group hl hr, map_append, map_cons, weight_append,
    weight_solid (bracket_of_eq hc (by decide))]
  omega

theorem weight_metric {metric : String} (hmetric : metric ∈ METRIC_NAMES) {left right : Expr} :
    weight (shapes (parts str (.DistanceExpr left right metric))) =
      weight (shapes (parts str left)) + 1 + weight (shapes (parts str right)) + 3 := by
  have hne : metric ≠ "" := by
    rintro rfl
    exact absurd hmetric (by decide)
  have hone : weight (shapes [metricPart metric]) = 1 := rfl
  simp only [parts]
  rw [if_pos hne, cons_append, cons_append, nil_append, weight_pair rfl,
    weight_joined_cons (cons_ne_nil _ _), joined, hone]
  omega

theorem weight_point {x y : Expr} : weight (shapes (parts str (.PointExpr x y))) =
    weight (shapes (parts str y)) + 1 + weight (shapes (parts str x)) + 1 := by
  simp only [parts]
  rw [word, weight_pair rfl, joined]

theorem weight_function {name : String} {arg : Expr} {distinct : Bool} :
    weight (shapes (parts str (.FunctionExpr name (some arg) distinct))) =
      weight (shapes (parts str arg)) + distinct.toNat + 1 := by
  simp only [parts]
  rw [word, weight_call rfl, joined, weight_distinct]

theorem weight_is_null {e : Expr} {negated : Bool} :
    weight (shapes (parts str (.IsNullExpr e negated))) =
      weight (shapes (parts str e)) + negated.toNat + 2 := by
  simp only [parts]
  rw [weight_spaced rfl]
  cases negated with
  | false => rfl
  | true =>
      rw [if_pos rfl, shapes_append, weight_append]
      exact Nat.add_assoc _ 1 2

theorem vertices_ne_nil (hwrites : Writes h (.vertices es) ts) : es ≠ [] := by
  cases hwrites with
  | firstVertex _ => exact cons_ne_nil _ _
  | nextVertex _ _ _ => simp

theorem items_ne_nil (hwrites : Writes h (.items es) ts) : es ≠ [] := by
  cases hwrites with
  | firstItem _ => exact cons_ne_nil _ _
  | nextItem _ _ _ => simp

theorem word_eq (kind : TokenKind) (value : String) :
    word kind value = .token kind value value.toList := rfl

/-- A writing of an expression has balanced parentheses and no more other tokens than its
rendering. -/
theorem measured_of_writes (str : Value → String) (hwrites : Writes h p ts) : Measured str p ts :=
    by
  induction hwrites with
  | @number t value kind _ =>
      refine .single (bracket_of_eq kind (by decide)) ?_
      simp only [parts]
      exact weight_literal_pos value
  | string kind => exact .single (bracket_of_eq kind (by decide)) (by simp only [parts]; rfl)
  | parameter kind _ _ =>
      refine .single (bracket_of_eq kind (by decide)) ?_
      simp only [parts]
      rw [word, weight_call rfl]
      omega
  | trueLiteral word | falseLiteral word =>
      refine .single (bracket_keyword word) ?_
      simp only [parts]
      exact weight_literal_pos _
  | null kind =>
      refine .single (bracket_of_eq kind (by decide)) ?_
      simp only [parts]
      exact weight_literal_pos _
  | column kind =>
      refine .single (bracket_of_eq kind (by decide)) ?_
      simp only [parts]
      exact le_refl 1
  | group left _ right ih =>
      exact ⟨balanced_group left ih.balanced right, by rw [weight_group left right]; exact ih.bound⟩
  | @pair l c r first second ts₁ ts₂ left _ sep _ right ih₁ ih₂ =>
      have hts : l :: ts₁ ++ c :: ts₂ ++ [r] = l :: (ts₁ ++ c :: ts₂) ++ [r] := by simp
      refine ⟨?_, ?_⟩
      · rw [hts]
        refine balanced_group left ?_ right
        rw [map_append, map_cons]
        exact ih₁.balanced.append (ih₂.balanced.cons (bracket_of_eq sep (by decide)))
      · have hw₁ := ih₁.bound
        have hw₂ := ih₂.bound
        rw [weight_pair_tokens left sep right]
        simp only [phraseWeight, surplus] at hw₁ hw₂ ⊢
        omega
  | @score t l r word left right | @similarityScore t l r word left right =>
      have hempty : Balanced bracket (([] : List Token).map Token.shape) := Brackets.balanced_nil
      refine .call _ (bracket_word word) (balanced_group left hempty right) ?_
      simp only [parts]
      rw [word_eq, weight_call rfl, joined, shapes_nil, weight_nil]
      have hpair : weight ((l :: [] ++ [r]).map Token.shape) = 0 := weight_group left right
      exact le_of_eq (congrArg (· + 1) hpair)
  | @similarTo t l c k eq n r reference count ts word left _ sep hk heq hn hcount right ih =>
      have hts : t :: l :: ts ++ [c, k, eq, n, r] = t :: (l :: (ts ++ [c, k, eq, n]) ++ [r]) := by
        simp
      have hc := bracket_of_eq sep (by decide)
      have hk := bracket_word hk
      have heq := bracket_of_eq heq.1 (by decide)
      have hn := bracket_of_eq hn.1 (by decide)
      have hw := ih.bound
      have hcount : 1 ≤ weight (shapes (literalParts str (.int count))) := weight_literal_pos _
      rw [hts]
      refine .call _ (bracket_word word) (balanced_group left ?_ right) ?_
      · rw [map_append]
        exact ih.balanced.append ((((Brackets.balanced_nil.cons hn).cons heq).cons hk).cons hc)
      · simp only [phraseWeight, surplus] at hw
        rw [weight_group left right, map_append, weight_append]
        simp only [map_cons, map_nil, weight_solid hc, weight_solid hk, weight_solid heq,
          weight_solid hn, weight_nil]
        simp only [parts] at hw ⊢
        rw [word_eq, weight_pair rfl, joined, shapes_append, weight_append]
        simp only [shapes_word, shapes_nil]
        rw [weight_solid rfl, weight_solid rfl, weight_nil]
        omega
  | @search t column query ts word _ ih | @matchQuery t column query ts word _ ih =>
      have hw := ih.bound
      refine .call _ (bracket_word word) ih.balanced ?_
      simp only [phraseWeight, surplus, parts] at hw ⊢
      rw [word_eq, weight_pair rfl, joined]
      omega
  | @countStar t l s r word left star right =>
      have hs := bracket_of_eq star (by decide)
      have hone : Balanced bracket ([s].map Token.shape) := Brackets.balanced_nil.cons hs
      have hgroup : weight ((l :: [s] ++ [r]).map Token.shape) = 1 := by
        rw [weight_group left right, map_singleton, weight_solid hs, weight_nil]
      refine .call _ (bracket_keyword word) (balanced_group left hone right) ?_
      simp only [parts]
      rw [word_eq, weight_call rfl, joined, weight_distinct]
      exact Nat.add_le_add_right (le_of_eq hgroup) 1
  | @function t l r arg ts word left _ right ih =>
      have hw := ih.bound
      refine .call (l :: ts ++ [r]) (bracket_of_eq word.1 (by decide))
        (balanced_group left ih.balanced right) ?_
      simp only [phraseWeight, surplus] at hw
      rw [weight_group left right, weight_function, Bool.toNat_false]
      omega
  | @distinctFunction t l d r arg ts word left distinct _ right ih =>
      have hw := ih.bound
      have hd := bracket_keyword distinct
      have hargument : Balanced bracket ((d :: ts).map Token.shape) := ih.balanced.cons hd
      refine .call (l :: (d :: ts) ++ [r]) (bracket_of_eq word.1 (by decide))
        (balanced_group left hargument right) ?_
      simp only [phraseWeight, surplus] at hw
      rw [weight_group left right, map_cons, weight_solid hd, weight_function,
        Bool.toNat_true]
      omega
  | @point t x y ts word _ ih =>
      have hw := ih.bound
      refine .call _ (bracket_keyword word) ih.balanced ?_
      simp only [phraseWeight, surplus] at hw
      rw [weight_point]
      omega
  | @distance t left right ts word _ ih =>
      have hw := ih.bound
      refine .call _ (bracket_keyword word) ih.balanced ?_
      simp only [phraseWeight, surplus] at hw
      rw [weight_metric (by decide)]
      omega
  | @distanceMetric t l c c' m r left right metric ts₁ ts₂ word hl _ sep _ sep' hm hmetric hr ih₁
      ih₂ =>
      have hts : t :: l :: ts₁ ++ c :: ts₂ ++ [c', m, r] =
          t :: (l :: (ts₁ ++ c :: (ts₂ ++ [c', m])) ++ [r]) := by simp
      have hc := bracket_of_eq sep (by decide)
      have hc' := bracket_of_eq sep' (by decide)
      have hm := bracket_of_eq hm (by decide)
      have hw₁ := ih₁.bound
      have hw₂ := ih₂.bound
      rw [hts]
      refine .call _ (bracket_keyword word) (balanced_group hl ?_ hr) ?_
      · rw [map_append, map_cons, map_append]
        exact ih₁.balanced.append ((ih₂.balanced.append
          ((Brackets.balanced_nil.cons hm).cons hc')).cons hc)
      · simp only [phraseWeight, surplus] at hw₁ hw₂
        rw [weight_group hl hr, weight_metric (metric_of_normalize hmetric), map_append,
          map_cons, map_append, weight_append, weight_solid hc, weight_append]
        simp only [map_cons, map_nil, weight_solid hc', weight_solid hm, weight_nil]
        omega
  | @polygon t l r es ts word left _ right ih =>
      have hw := ih.bound
      refine .call (l :: ts ++ [r]) (bracket_keyword word)
        (balanced_group left ih.balanced right) ?_
      simp only [phraseWeight, surplus, parts] at hw ⊢
      rw [weight_group left right, word_eq, weight_call rfl]
      omega
  | @intersects t left right ts word _ ih =>
      have hw := ih.bound
      refine .call _ (bracket_keyword word) ih.balanced ?_
      simp only [phraseWeight, surplus, parts] at hw ⊢
      rw [weight_pair rfl, joined]
      omega
  | @firstVertex x y ts _ ih =>
      have hw := ih.bound
      refine ⟨ih.balanced, ?_⟩
      simp only [phraseWeight, surplus, partsList, joined] at hw ⊢
      rw [weight_point]
      omega
  | @nextVertex c x y es ts₁ ts₂ before sep _ ih₁ ih₂ =>
      have hc := bracket_of_eq sep (by decide)
      have hw₁ := ih₁.bound
      have hw₂ := ih₂.bound
      refine ⟨?_, ?_⟩
      · rw [map_append, map_cons]
        exact ih₁.balanced.append (ih₂.balanced.cons hc)
      · simp only [phraseWeight, surplus] at hw₁ hw₂ ⊢
        rw [shapes_joined_concat (vertices_ne_nil before), map_append, map_cons,
          weight_append, weight_append, weight_solid hc, weight_solid rfl, weight_point]
        omega
  | @firstItem e ts _ ih => exact ⟨ih.balanced, ih.bound⟩
  | @nextItem c e es ts₁ ts₂ before sep _ ih₁ ih₂ =>
      have hc := bracket_of_eq sep (by decide)
      have hw₁ := ih₁.bound
      have hw₂ := ih₂.bound
      refine ⟨?_, ?_⟩
      · rw [map_append, map_cons]
        exact ih₁.balanced.append (ih₂.balanced.cons hc)
      · simp only [phraseWeight, surplus] at hw₁ hw₂ ⊢
        rw [shapes_joined_concat (items_ne_nil before), map_append, map_cons,
          weight_append, weight_append, weight_solid hc, weight_solid rfl]
        omega
  | term _ ih | arithmetic _ ih | predicate _ ih | negation _ ih | conjunction _ ih
  | disjunction _ ih => exact ⟨ih.balanced, ih.bound⟩
  | multiplicative _ operator _ ih₁ ih₂ =>
      have ho := operator_inner operator
      refine ih₁.binary (bracket_inner ho.1 ho.2) ih₂ ?_
      simp only [phraseWeight, parts, weight_operator]
  | additive _ operator _ ih₁ ih₂ =>
      have ho := additive_inner operator
      refine ih₁.binary (bracket_inner ho.1 ho.2) ih₂ ?_
      simp only [phraseWeight, parts, weight_operator]
  | compare _ operator _ ih₁ ih₂ =>
      refine ih₁.binary (bracket_of_eq operator.1 (by decide)) ih₂ ?_
      simp only [phraseWeight, parts, weight_operator]
  | @isNull i n e ts _ word kind ih =>
      have hi := bracket_keyword word
      have hn := bracket_of_eq kind (by decide)
      have hw := ih.bound
      refine ⟨?_, ?_⟩
      · rw [map_append]
        exact ih.balanced.append ((Brackets.balanced_nil.cons hn).cons hi)
      · simp only [phraseWeight, surplus] at hw ⊢
        rw [map_append, weight_append, weight_is_null, Bool.toNat_false]
        simp only [map_cons, map_nil, weight_solid hi, weight_solid hn, weight_nil]
        omega
  | @isNotNull i o n e ts _ word negated kind ih =>
      have hi := bracket_keyword word
      have ho := bracket_keyword negated
      have hn := bracket_of_eq kind (by decide)
      have hw := ih.bound
      refine ⟨?_, ?_⟩
      · rw [map_append]
        exact ih.balanced.append (((Brackets.balanced_nil.cons hn).cons ho).cons hi)
      · simp only [phraseWeight, surplus] at hw ⊢
        rw [map_append, weight_append, weight_is_null, Bool.toNat_true]
        simp only [map_cons, map_nil, weight_solid hi, weight_solid ho, weight_solid hn,
          weight_nil]
        omega
  | @between b a value lo hi ts₁ ts₂ ts₃ _ word _ word' _ ih₁ ih₂ ih₃ =>
      have hb := bracket_keyword word
      have ha := bracket_keyword word'
      have hw₁ := ih₁.bound
      have hw₂ := ih₂.bound
      have hw₃ := ih₃.bound
      refine ⟨?_, ?_⟩
      · rw [map_append, map_append, map_cons, map_cons]
        exact (ih₁.balanced.append (ih₂.balanced.cons hb)).append (ih₃.balanced.cons ha)
      · simp only [phraseWeight, surplus, parts] at hw₁ hw₂ hw₃ ⊢
        rw [map_append, map_append, map_cons, map_cons, weight_append,
          weight_append, weight_solid hb, weight_solid ha, weight_spaced rfl, weight_spaced rfl]
        omega
  | @inList i l r value es ts₁ ts₂ _ word left _ right ih₁ ih₂ =>
      have hi := bracket_keyword word
      have hts : ts₁ ++ i :: l :: ts₂ ++ [r] = ts₁ ++ i :: (l :: ts₂ ++ [r]) := by simp
      have hw₁ := ih₁.bound
      have hw₂ := ih₂.bound
      rw [hts]
      refine ⟨?_, ?_⟩
      · rw [map_append, map_cons]
        exact ih₁.balanced.append ((balanced_group left ih₂.balanced right).cons hi)
      · simp only [phraseWeight, surplus, parts] at hw₁ hw₂ ⊢
        rw [map_append, map_cons, weight_append, weight_solid hi,
          weight_group left right, weight_spaced rfl, weight_enclosed]
        omega
  | like _ word _ ih₁ ih₂ =>
      refine ih₁.binary (bracket_keyword word) ih₂ ?_
      simp only [phraseWeight, parts]
      rw [weight_spaced rfl]
  | and _ word _ ih₁ ih₂ | or _ word _ ih₁ ih₂ =>
      refine ih₁.binary (bracket_keyword word) ih₂ ?_
      simp only [phraseWeight, parts]
      rw [weight_enclosed, weight_spaced rfl]
  | @not n e ts word _ ih =>
      have hn := bracket_keyword word
      have hw := ih.bound
      refine ⟨ih.balanced.cons hn, ?_⟩
      simp only [phraseWeight, surplus, parts] at hw ⊢
      rw [map_cons, weight_solid hn, shapes_word, weight_solid rfl, shapes_gap]
      omega

end Measures

end SoupDB.Parser
