import SoupDB.Query.Parser

/-!
# SoupDB: the grammar of SQL expressions

The token lists that write an expression, by the documented precedence: `OR` below `AND` below
`NOT` below comparisons below `+ -` below `* / %` below primaries.  Operators associate to the
left, comparisons do not associate, and parentheses make any expression a primary.

Main fact: `sound_expression`.  What the parser takes for an expression writes it.
-/

namespace SoupDB.Parser

open Parsing (Sound Complete LeftChain leftChain run_bind run_bind_eq_ok)

/-- The levels of precedence. -/
inductive Level
  | primary | term | arithmetic | predicate | negation | conjunction | disjunction
deriving DecidableEq

/-- What a token list can write. -/
inductive Phrase
  | expr (level : Level) (e : Expr)
  /-- The items of an IN list. -/
  | items (es : List Expr)
  /-- `(first, second)`. -/
  | pair (first second : Expr)
  /-- The vertices of a polygon. -/
  | vertices (es : List Expr)

variable (h : Host)

inductive Writes : Phrase → List Token → Prop
  | number {t : Token} {value : Value} (kind : t.kind = .NUMBER)
      (hvalue : numberValue h t.value = .ok value) : Writes (.expr .primary (.Literal value)) [t]
  | string {t : Token} (kind : t.kind = .STRING) :
      Writes (.expr .primary (.Literal (.str t.value))) [t]
  | parameter {t : Token} {index : Int} (kind : t.kind = .PARAMETER)
      (hvalue : intValue h t.value = .ok index) (hindex : ¬ index < 1) :
      Writes (.expr .primary (.Parameter index)) [t]
  | trueLiteral {t : Token} (word : isKeyword t "TRUE" = true) :
      Writes (.expr .primary (.Literal (.bool true))) [t]
  | falseLiteral {t : Token} (word : isKeyword t "FALSE" = true) :
      Writes (.expr .primary (.Literal (.bool false))) [t]
  | null {t : Token} (kind : t.kind = .NULL) : Writes (.expr .primary (.Literal .null)) [t]
  | column {t : Token} (kind : t.kind = .IDENTIFIER) :
      Writes (.expr .primary (.ColumnRef t.value)) [t]
  | group {l r : Token} {e : Expr} {ts : List Token} (left : l.kind = .LPAREN)
      (inner : Writes (.expr .disjunction e) ts) (right : r.kind = .RPAREN) :
      Writes (.expr .primary e) (l :: ts ++ [r])
  | pair {l c r : Token} {first second : Expr} {ts₁ ts₂ : List Token} (left : l.kind = .LPAREN)
      (hfirst : Writes (.expr .disjunction first) ts₁) (sep : c.kind = .COMMA)
      (hsecond : Writes (.expr .disjunction second) ts₂) (right : r.kind = .RPAREN) :
      Writes (.pair first second) (l :: ts₁ ++ c :: ts₂ ++ [r])
  | score {t l r : Token} (word : isWord h t "SCORE" = true) (left : l.kind = .LPAREN)
      (right : r.kind = .RPAREN) : Writes (.expr .primary (.ScoreExpr "auto")) [t, l, r]
  | similarityScore {t l r : Token} (word : isWord h t "SIMILARITY_SCORE" = true)
      (left : l.kind = .LPAREN) (right : r.kind = .RPAREN) :
      Writes (.expr .primary (.ScoreExpr "vector")) [t, l, r]
  | similarTo {t l c k eq n r : Token} {reference : String} {count : Int} {ts : List Token}
      (word : isWord h t "SIMILAR_TO" = true) (left : l.kind = .LPAREN)
      (hsource : Writes (.expr .disjunction (.Literal (.str reference))) ts) (sep : c.kind = .COMMA)
      (hk : isWord h k "K" = true) (heq : eq.kind = .OPERATOR ∧ eq.value = "=")
      (hn : n.kind = .NUMBER ∧ isDigits n.value = true) (hcount : intValue h n.value = .ok count)
      (right : r.kind = .RPAREN) :
      Writes (.expr .primary (.SimilarToExpr (.Literal (.str reference)) (.int count)))
        (t :: l :: ts ++ [c, k, eq, n, r])
  | search {t : Token} {column query : String} {ts : List Token}
      (word : isWord h t "SEARCH" = true)
      (arguments : Writes (.pair (.ColumnRef column) (.Literal (.str query))) ts) :
      Writes (.expr .primary (.SearchExpr column (.Literal (.str query)))) (t :: ts)
  | matchQuery {t : Token} {column query : String} {ts : List Token}
      (word : isWord h t "MATCH" = true)
      (arguments : Writes (.pair (.ColumnRef column) (.Literal (.str query))) ts) :
      Writes (.expr .primary (.MatchExpr column (.Literal (.str query)))) (t :: ts)
  | countStar {t l s r : Token} (word : isKeyword t "COUNT" = true) (left : l.kind = .LPAREN)
      (star : s.kind = .STAR) (right : r.kind = .RPAREN) :
      Writes (.expr .primary (.FunctionExpr "COUNT" none false)) [t, l, s, r]
  | function {t l r : Token} {arg : Expr} {ts : List Token}
      (word : t.kind = .KEYWORD ∧ t.value ∈ AGGREGATES) (left : l.kind = .LPAREN)
      (harg : Writes (.expr .disjunction arg) ts) (right : r.kind = .RPAREN) :
      Writes (.expr .primary (.FunctionExpr t.value (some arg) false)) (t :: l :: ts ++ [r])
  | distinctFunction {t l d r : Token} {arg : Expr} {ts : List Token}
      (word : t.kind = .KEYWORD ∧ t.value ∈ AGGREGATES) (left : l.kind = .LPAREN)
      (distinct : isKeyword d "DISTINCT" = true) (harg : Writes (.expr .disjunction arg) ts)
      (right : r.kind = .RPAREN) :
      Writes (.expr .primary (.FunctionExpr t.value (some arg) true)) (t :: l :: d :: ts ++ [r])
  | point {t : Token} {x y : Expr} {ts : List Token} (word : isKeyword t "POINT" = true)
      (arguments : Writes (.pair y x) ts) : Writes (.expr .primary (.PointExpr x y)) (t :: ts)
  | distance {t : Token} {left right : Expr} {ts : List Token}
      (word : isKeyword t "DISTANCE" = true) (arguments : Writes (.pair left right) ts) :
      Writes (.expr .primary (.DistanceExpr left right "euclidean")) (t :: ts)
  | distanceMetric {t l c c' m r : Token} {left right : Expr} {metric : String}
      {ts₁ ts₂ : List Token} (word : isKeyword t "DISTANCE" = true) (hl : l.kind = .LPAREN)
      (hleft : Writes (.expr .disjunction left) ts₁) (sep : c.kind = .COMMA)
      (hright : Writes (.expr .disjunction right) ts₂) (sep' : c'.kind = .COMMA)
      (hm : m.kind = .STRING) (hmetric : normalizeMetric h m.value = .ok metric)
      (hr : r.kind = .RPAREN) :
      Writes (.expr .primary (.DistanceExpr left right metric))
        (t :: l :: ts₁ ++ c :: ts₂ ++ [c', m, r])
  | polygon {t l r : Token} {es : List Expr} {ts : List Token}
      (word : isKeyword t "POLYGON" = true) (left : l.kind = .LPAREN)
      (hvertices : Writes (.vertices es) ts) (right : r.kind = .RPAREN) :
      Writes (.expr .primary (.PolygonExpr es)) (t :: l :: ts ++ [r])
  | intersects {t : Token} {left right : Expr} {ts : List Token}
      (word : isKeyword t "INTERSECTS" = true) (arguments : Writes (.pair left right) ts) :
      Writes (.expr .primary (.IntersectsExpr left right)) (t :: ts)
  | firstVertex {x y : Expr} {ts : List Token} (vertex : Writes (.pair y x) ts) :
      Writes (.vertices [.PointExpr x y]) ts
  | nextVertex {c : Token} {x y : Expr} {es : List Expr} {ts₁ ts₂ : List Token}
      (before : Writes (.vertices es) ts₁) (sep : c.kind = .COMMA)
      (vertex : Writes (.pair y x) ts₂) :
      Writes (.vertices (es ++ [.PointExpr x y])) (ts₁ ++ c :: ts₂)
  | firstItem {e : Expr} {ts : List Token} (item : Writes (.expr .arithmetic e) ts) :
      Writes (.items [e]) ts
  | nextItem {c : Token} {e : Expr} {es : List Expr} {ts₁ ts₂ : List Token}
      (before : Writes (.items es) ts₁) (sep : c.kind = .COMMA)
      (item : Writes (.expr .arithmetic e) ts₂) : Writes (.items (es ++ [e])) (ts₁ ++ c :: ts₂)
  | term {e : Expr} {ts : List Token} (operand : Writes (.expr .primary e) ts) :
      Writes (.expr .term e) ts
  | multiplicative {o : Token} {left right : Expr} {op : String} {ts₁ ts₂ : List Token}
      (hleft : Writes (.expr .term left) ts₁) (operator : multiplicativeOperator o = some op)
      (hright : Writes (.expr .primary right) ts₂) :
      Writes (.expr .term (.BinaryExpr left op right)) (ts₁ ++ o :: ts₂)
  | arithmetic {e : Expr} {ts : List Token} (operand : Writes (.expr .term e) ts) :
      Writes (.expr .arithmetic e) ts
  | additive {o : Token} {left right : Expr} {op : String} {ts₁ ts₂ : List Token}
      (hleft : Writes (.expr .arithmetic left) ts₁) (operator : additiveOperator o = some op)
      (hright : Writes (.expr .term right) ts₂) :
      Writes (.expr .arithmetic (.BinaryExpr left op right)) (ts₁ ++ o :: ts₂)
  | predicate {e : Expr} {ts : List Token} (operand : Writes (.expr .arithmetic e) ts) :
      Writes (.expr .predicate e) ts
  | isNull {i n : Token} {e : Expr} {ts : List Token} (hvalue : Writes (.expr .arithmetic e) ts)
      (word : isKeyword i "IS" = true) (kind : n.kind = .NULL) :
      Writes (.expr .predicate (.IsNullExpr e false)) (ts ++ [i, n])
  | isNotNull {i o n : Token} {e : Expr} {ts : List Token}
      (hvalue : Writes (.expr .arithmetic e) ts) (word : isKeyword i "IS" = true)
      (negated : isKeyword o "NOT" = true) (kind : n.kind = .NULL) :
      Writes (.expr .predicate (.IsNullExpr e true)) (ts ++ [i, o, n])
  | compare {o : Token} {left right : Expr} {ts₁ ts₂ : List Token}
      (hleft : Writes (.expr .arithmetic left) ts₁)
      (operator : o.kind = .OPERATOR ∧ o.value ∈ COMPARISON_OPS)
      (hright : Writes (.expr .arithmetic right) ts₂) :
      Writes (.expr .predicate (.CompareExpr left o.value right)) (ts₁ ++ o :: ts₂)
  | between {b a : Token} {value lo hi : Expr} {ts₁ ts₂ ts₃ : List Token}
      (hvalue : Writes (.expr .arithmetic value) ts₁) (word : isKeyword b "BETWEEN" = true)
      (hlo : Writes (.expr .arithmetic lo) ts₂) (word' : isKeyword a "AND" = true)
      (hhi : Writes (.expr .arithmetic hi) ts₃) :
      Writes (.expr .predicate (.BetweenExpr value lo hi)) (ts₁ ++ b :: ts₂ ++ a :: ts₃)
  | inList {i l r : Token} {value : Expr} {es : List Expr} {ts₁ ts₂ : List Token}
      (hvalue : Writes (.expr .arithmetic value) ts₁) (word : isKeyword i "IN" = true)
      (left : l.kind = .LPAREN) (hitems : Writes (.items es) ts₂) (right : r.kind = .RPAREN) :
      Writes (.expr .predicate (.InExpr value es)) (ts₁ ++ i :: l :: ts₂ ++ [r])
  | like {l : Token} {value pattern : Expr} {ts₁ ts₂ : List Token}
      (hvalue : Writes (.expr .arithmetic value) ts₁) (word : isKeyword l "LIKE" = true)
      (hpattern : Writes (.expr .arithmetic pattern) ts₂) :
      Writes (.expr .predicate (.LikeExpr value pattern)) (ts₁ ++ l :: ts₂)
  | negation {e : Expr} {ts : List Token} (operand : Writes (.expr .predicate e) ts) :
      Writes (.expr .negation e) ts
  | not {n : Token} {e : Expr} {ts : List Token} (word : isKeyword n "NOT" = true)
      (operand : Writes (.expr .negation e) ts) : Writes (.expr .negation (.NotExpr e)) (n :: ts)
  | conjunction {e : Expr} {ts : List Token} (operand : Writes (.expr .negation e) ts) :
      Writes (.expr .conjunction e) ts
  | and {o : Token} {left right : Expr} {ts₁ ts₂ : List Token}
      (hleft : Writes (.expr .conjunction left) ts₁) (word : isKeyword o "AND" = true)
      (hright : Writes (.expr .negation right) ts₂) :
      Writes (.expr .conjunction (.LogicalExpr left "AND" right)) (ts₁ ++ o :: ts₂)
  | disjunction {e : Expr} {ts : List Token} (operand : Writes (.expr .conjunction e) ts) :
      Writes (.expr .disjunction e) ts
  | or {o : Token} {left right : Expr} {ts₁ ts₂ : List Token}
      (hleft : Writes (.expr .disjunction left) ts₁) (word : isKeyword o "OR" = true)
      (hright : Writes (.expr .conjunction right) ts₂) :
      Writes (.expr .disjunction (.LogicalExpr left "OR" right)) (ts₁ ++ o :: ts₂)

def WritesAt (level : Level) (e : Expr) (ts : List Token) : Prop := Writes h (.expr level e) ts

/-! ## Running the primitives -/

section Primitives

variable {α : Type} {t : Token} {ts rest : List Token} {kind : TokenKind} {keyword : String}

theorem run_peek : peek (t :: ts) = .ok (t, t :: ts) := rfl

theorem run_advance : advance (t :: ts) = .ok (t, ts) := rfl

theorem run_expect_kind (h : t.kind = kind) : expectKind kind (t :: ts) = .ok (t, ts) := by
  rw [expectKind, run_bind run_peek, if_neg (not_not_intro h), run_advance]

theorem expect_kind_eq_ok :
    expectKind kind ts = .ok (t, rest) ↔ ts = t :: rest ∧ t.kind = kind := by
  constructor
  · intro h
    cases ts with
    | nil => cases h
    | cons head tail =>
        rw [expectKind, run_bind run_peek] at h
        split at h
        · cases h
        · next hkind =>
            rw [run_advance] at h
            cases h
            exact ⟨rfl, not_not.mp hkind⟩
  · rintro ⟨rfl, h⟩
    exact run_expect_kind h

theorem run_check_kind : checkKind kind (t :: ts) = .ok (decide (t.kind = kind), t :: ts) := rfl

/-- A branch on the kind of the next token, which is taken. -/
theorem run_match_kind {p q : Parse α} :
    (matchKind kind >>= fun b => if b = true then p else q) (t :: ts) =
      if t.kind = kind then p ts else q (t :: ts) := by
  by_cases hkind : t.kind = kind
  · have hmatch : matchKind kind (t :: ts) = .ok (true, ts) := by
      rw [matchKind, run_bind run_check_kind, decide_eq_true hkind]
      rfl
    rw [run_bind hmatch, if_pos hkind, if_pos rfl]
  · have hmatch : matchKind kind (t :: ts) = .ok (false, t :: ts) := by
      rw [matchKind, run_bind run_check_kind, decide_eq_false hkind]
      rfl
    rw [run_bind hmatch, if_neg hkind, if_neg Bool.false_ne_true]

theorem run_check_keyword :
    checkKeyword keyword (t :: ts) = .ok (isKeyword t keyword, t :: ts) := rfl

theorem run_match_keyword_bind {f : Bool → Parse α} :
    (matchKeyword keyword >>= f) (t :: ts) =
      if isKeyword t keyword = true then f true ts else f false (t :: ts) := by
  cases hkeyword : isKeyword t keyword with
  | true =>
      have hmatch : matchKeyword keyword (t :: ts) = .ok (true, ts) := by
        rw [matchKeyword, run_bind run_check_keyword, hkeyword]
        rfl
      rw [run_bind hmatch, if_pos rfl]
  | false =>
      have hmatch : matchKeyword keyword (t :: ts) = .ok (false, t :: ts) := by
        rw [matchKeyword, run_bind run_check_keyword, hkeyword]
        rfl
      rw [run_bind hmatch, if_neg Bool.false_ne_true]

theorem run_match_keyword {p q : Parse α} :
    (matchKeyword keyword >>= fun b => if b = true then p else q) (t :: ts) =
      if isKeyword t keyword = true then p ts else q (t :: ts) := by
  rw [run_match_keyword_bind, if_pos rfl, if_neg Bool.false_ne_true]

theorem run_expect_keyword (hkeyword : isKeyword t keyword = true) :
    expectKeyword keyword (t :: ts) = .ok ((), ts) := by
  rw [expectKeyword, run_match_keyword, if_pos hkeyword]
  rfl

theorem expect_keyword_eq_ok : expectKeyword keyword ts = .ok ((), rest) ↔
    ∃ t, ts = t :: rest ∧ isKeyword t keyword = true := by
  constructor
  · intro h
    cases ts with
    | nil => cases h
    | cons head tail =>
        rw [expectKeyword, run_match_keyword] at h
        split at h
        · next hkeyword =>
            cases h
            exact ⟨head, rfl, hkeyword⟩
        · cases h
  · rintro ⟨t, rfl, hkeyword⟩
    exact run_expect_keyword hkeyword

theorem run_match_word {h : Host} {word : String} {p q : Parse α} :
    (matchWord h word >>= fun b => if b = true then p else q) (t :: ts) =
      if isWord h t word = true then p ts else q (t :: ts) := by
  cases hword : isWord h t word with
  | true =>
      have hmatch : matchWord h word (t :: ts) = .ok (true, ts) := by
        rw [matchWord, run_bind run_peek, if_pos (of_decide_eq_true hword)]
        rfl
      rw [run_bind hmatch, if_pos rfl, if_pos rfl]
  | false =>
      have hmatch : matchWord h word (t :: ts) = .ok (false, t :: ts) := by
        rw [matchWord, run_bind run_peek, if_neg (of_decide_eq_false hword)]
        rfl
      rw [run_bind hmatch, if_neg Bool.false_ne_true, if_neg Bool.false_ne_true]

/-- Whether a list of tokens starts with a parenthesis. -/
def lparenFirst (ts : List Token) : Bool := ts.head?.any (fun t => t.kind = .LPAREN)

theorem run_checks_lparen_next :
    checksLparenNext (t :: ts) = .ok (lparenFirst ts, t :: ts) := by
  cases ts with
  | nil => rfl
  | cons next rest => rfl

variable {e : Except PyError α}

theorem run_lift {a : α} (h : e = .ok a) : (liftM e : Parse α) ts = .ok (a, ts) := by
  rw [h]
  rfl

theorem lift_eq_ok {a : α} : (liftM e : Parse α) ts = .ok (a, rest) ↔ e = .ok a ∧ rest = ts := by
  cases e with
  | error e =>
      constructor
      · intro h
        cases h
      · rintro ⟨h, _⟩
        cases h
  | ok b =>
      constructor
      · intro h
        cases h
        exact ⟨rfl, rfl⟩
      · rintro ⟨h, rfl⟩
        cases h
        rfl

end Primitives

theorem comma_eq_some {t : Token} {u : Unit} : comma t = some u ↔ t.kind = .COMMA := by
  rw [comma]
  split
  · next hkind => exact iff_of_true rfl hkind
  · next hkind => exact iff_of_false (by simp) hkind

theorem distance_metric_eq_ok {h : Host} {metric : String} {ts rest : List Token} :
    parseDistanceMetric h ts = .ok (metric, rest) ↔
      ∃ m, ts = m :: rest ∧ m.kind = .STRING ∧ normalizeMetric h m.value = .ok metric := by
  cases ts with
  | nil =>
      constructor
      · intro hp
        cases hp
      · rintro ⟨_, hts, _⟩
        cases hts
  | cons t ts =>
      rw [parseDistanceMetric, run_bind run_peek]
      split
      · next hkind =>
          constructor
          · intro hp
            cases hp
          · rintro ⟨_, hts, hm, _⟩
            cases hts
            exact absurd hm hkind
      · next hkind =>
          rw [run_bind run_advance]
          cases hcanonical : normalizeMetric h t.value with
          | ok canonical =>
              constructor
              · intro hp
                cases hp
                exact ⟨t, rfl, not_not.mp hkind, hcanonical⟩
              · rintro ⟨_, hts, _, hmetric⟩
                cases hts
                rw [hmetric] at hcanonical
                cases hcanonical
                rfl
          | error message =>
              constructor
              · intro hp
                cases hp
              · rintro ⟨_, hts, _, hmetric⟩
                cases hts
                rw [hmetric] at hcanonical
                cases hcanonical

/-! ## What the parser takes is in the grammar -/

section Soundness

variable {h} {E : Parse Expr} (hE : Sound E (WritesAt h .disjunction)) {t : Token}
  {ts rest : List Token} {e : Expr}

include hE in
theorem sound_pair :
    Sound (parsePair E) (fun (p : Expr × Expr) ts => Writes h (.pair p.1 p.2) ts) := by
  intro ts p rest hp
  simp only [parsePair, run_bind_eq_ok, expect_kind_eq_ok] at hp
  obtain ⟨l, _, ⟨rfl, hl⟩, first, _, hfirst, c, _, ⟨rfl, hc⟩, second, _, hsecond, r, _, ⟨rfl, hr⟩,
    hpure⟩ := hp
  cases hpure
  obtain ⟨used₁, rfl, hused₁⟩ := hE _ _ _ hfirst
  obtain ⟨used₂, hcomma, hused₂⟩ := hE _ _ _ hsecond
  obtain rfl := hcomma
  exact ⟨l :: used₁ ++ c :: used₂ ++ [r], by simp, .pair hl hused₁ hc hused₂ hr⟩

include hE in
theorem sound_function_call (hword : t.kind = .KEYWORD ∧ t.value ∈ AGGREGATES)
    (hp : parseFunctionCall E (t :: ts) = .ok (e, rest)) :
    ∃ used, t :: ts = used ++ rest ∧ WritesAt h .primary e used := by
  rw [parseFunctionCall, run_bind run_advance, run_bind_eq_ok] at hp
  obtain ⟨l, ts, htake, hp⟩ := hp
  obtain ⟨rfl, hl⟩ := expect_kind_eq_ok.mp htake
  cases ts with
  | nil => cases hp
  | cons d ts =>
      rw [run_match_keyword_bind] at hp
      split at hp
      · next hdistinct =>
          rw [run_bind_eq_ok] at hp
          obtain ⟨star, _, hstar, hp⟩ := hp
          cases star with
          | true =>
              rw [if_pos rfl, run_bind_eq_ok] at hp
              obtain ⟨s, _, _, hp⟩ := hp
              rw [if_pos (Or.inr rfl)] at hp
              cases hp
          | false =>
              rw [if_neg Bool.false_ne_true] at hp
              cases ts with
              | nil => cases hstar
              | cons s ts =>
                  rw [run_check_kind, Except.ok.injEq, Prod.mk.injEq] at hstar
                  obtain ⟨_, rfl⟩ := hstar
                  simp only [run_bind_eq_ok, expect_kind_eq_ok] at hp
                  obtain ⟨arg, _, harg, r, _, ⟨rfl, hr⟩, hpure⟩ := hp
                  cases hpure
                  obtain ⟨used, hts, hused⟩ := hE _ _ _ harg
                  rw [hts]
                  exact ⟨t :: l :: d :: used ++ [r], by simp,
                    .distinctFunction hword hl hdistinct hused hr⟩
      · rw [run_bind run_check_kind] at hp
        split at hp
        · next hstar =>
            rw [run_bind run_advance] at hp
            split at hp
            · cases hp
            · next hcount =>
                simp only [run_bind_eq_ok, expect_kind_eq_ok] at hp
                obtain ⟨r, _, ⟨rfl, hr⟩, hpure⟩ := hp
                cases hpure
                rw [not_or, not_not] at hcount
                have hkeyword : isKeyword t "COUNT" = true := decide_eq_true ⟨hword.1, hcount.1⟩
                refine ⟨[t, l, d, r], rfl, ?_⟩
                rw [hcount.1]
                exact .countStar hkeyword hl (of_decide_eq_true hstar) hr
        · simp only [run_bind_eq_ok, expect_kind_eq_ok] at hp
          obtain ⟨arg, _, harg, r, _, ⟨rfl, hr⟩, hpure⟩ := hp
          cases hpure
          obtain ⟨used, hts, hused⟩ := hE _ _ _ harg
          rw [hts]
          exact ⟨t :: l :: used ++ [r], by simp, .function hword hl hused hr⟩

include hE in
theorem sound_similar_to (hword : isWord h t "SIMILAR_TO" = true)
    (hp : parseSimilarToExpr h E (t :: ts) = .ok (e, rest)) :
    ∃ used, t :: ts = used ++ rest ∧ WritesAt h .primary e used := by
  rw [parseSimilarToExpr, run_bind run_advance, run_bind_eq_ok] at hp
  obtain ⟨l, ts, htake, hp⟩ := hp
  obtain ⟨rfl, hl⟩ := expect_kind_eq_ok.mp htake
  rw [run_bind_eq_ok] at hp
  obtain ⟨reference, _, hreference, hp⟩ := hp
  obtain ⟨used, rfl, hused⟩ := hE _ _ _ hreference
  split at hp
  · next reference =>
      rw [run_bind_eq_ok] at hp
      obtain ⟨c, ts, htake, hp⟩ := hp
      obtain ⟨rfl, hc⟩ := expect_kind_eq_ok.mp htake
      cases ts with
      | nil => cases hp
      | cons k ts =>
          rw [run_match_word] at hp
          split at hp
          · next hk =>
              rw [run_bind_eq_ok] at hp
              obtain ⟨eq, _, htake, hp⟩ := hp
              obtain ⟨rfl, heq⟩ := expect_kind_eq_ok.mp htake
              split at hp
              · cases hp
              · next hvalue =>
                  rw [run_bind_eq_ok] at hp
                  obtain ⟨n, _, htake, hp⟩ := hp
                  obtain ⟨rfl, hn⟩ := expect_kind_eq_ok.mp htake
                  split at hp
                  · next hdigits =>
                      simp only [run_bind_eq_ok, expect_kind_eq_ok, lift_eq_ok] at hp
                      obtain ⟨r, _, ⟨rfl, hr⟩, count, _, ⟨hcount, rfl⟩, hpure⟩ := hp
                      cases hpure
                      exact ⟨t :: l :: used ++ [c, k, eq, n, r], by simp,
                        .similarTo hword hl hused hc hk ⟨heq, not_not.mp hvalue⟩
                          ⟨hn, hdigits⟩ hcount hr⟩
                  · cases hp
          · cases hp
  · cases hp

theorem sound_no_arguments {expr : Expr}
    (hwrites : ∀ {l r : Token}, l.kind = .LPAREN → r.kind = .RPAREN →
      WritesAt h .primary expr [t, l, r])
    (hp : parseNoArguments expr (t :: ts) = .ok (e, rest)) :
    ∃ used, t :: ts = used ++ rest ∧ WritesAt h .primary e used := by
  rw [parseNoArguments, run_bind run_advance] at hp
  simp only [run_bind_eq_ok, expect_kind_eq_ok] at hp
  obtain ⟨l, _, ⟨rfl, hl⟩, r, _, ⟨rfl, hr⟩, hpure⟩ := hp
  cases hpure
  exact ⟨[t, l, r], rfl, hwrites hl hr⟩

include hE in
theorem sound_column_query {name : String} {node : String → Expr → Expr}
    (hwrites : ∀ {column query : String} {used : List Token},
      Writes h (.pair (.ColumnRef column) (.Literal (.str query))) used →
      WritesAt h .primary (node column (.Literal (.str query))) (t :: used))
    (hp : parseColumnQuery E name node (t :: ts) = .ok (e, rest)) :
    ∃ used, t :: ts = used ++ rest ∧ WritesAt h .primary e used := by
  rw [parseColumnQuery, run_bind run_advance, run_bind_eq_ok] at hp
  obtain ⟨⟨column, query⟩, _, hpair, hp⟩ := hp
  obtain ⟨used, rfl, hused⟩ := sound_pair hE _ _ _ hpair
  dsimp only at hp hused
  split at hp
  · split at hp
    · cases hp
      exact ⟨t :: used, rfl, hwrites hused⟩
    · cases hp
  · cases hp

include hE in
theorem sound_pair_call (node : Expr → Expr → Expr)
    (hwrites : ∀ {first second : Expr} {used : List Token}, Writes h (.pair first second) used →
      WritesAt h .primary (node first second) (t :: used))
    (hp : (advance >>= fun _ => parsePair E >>= fun p => pure (node p.1 p.2)) (t :: ts) =
      .ok (e, rest)) : ∃ used, t :: ts = used ++ rest ∧ WritesAt h .primary e used := by
  rw [run_bind run_advance, run_bind_eq_ok] at hp
  obtain ⟨p, _, hpair, hp⟩ := hp
  obtain ⟨used, rfl, hused⟩ := sound_pair hE _ _ _ hpair
  cases hp
  exact ⟨t :: used, rfl, hwrites hused⟩

include hE in
theorem sound_distance (hword : isKeyword t "DISTANCE" = true)
    (hp : parseDistanceExpr h E (t :: ts) = .ok (e, rest)) :
    ∃ used, t :: ts = used ++ rest ∧ WritesAt h .primary e used := by
  rw [parseDistanceExpr, run_bind run_advance, run_bind_eq_ok] at hp
  obtain ⟨l, _, htake, hp⟩ := hp
  obtain ⟨rfl, hl⟩ := expect_kind_eq_ok.mp htake
  rw [run_bind_eq_ok] at hp
  obtain ⟨left, _, hleft, hp⟩ := hp
  obtain ⟨used₁, rfl, hused₁⟩ := hE _ _ _ hleft
  rw [run_bind_eq_ok] at hp
  obtain ⟨c, _, htake, hp⟩ := hp
  obtain ⟨rfl, hc⟩ := expect_kind_eq_ok.mp htake
  rw [run_bind_eq_ok] at hp
  obtain ⟨right, ts, hright, hp⟩ := hp
  obtain ⟨used₂, rfl, hused₂⟩ := hE _ _ _ hright
  cases ts with
  | nil => cases hp
  | cons c' ts =>
      rw [run_match_kind] at hp
      split at hp
      · next hc' =>
          rw [run_bind_eq_ok] at hp
          obtain ⟨metric, _, hname, hp⟩ := hp
          obtain ⟨m, rfl, hm, hmetric⟩ := distance_metric_eq_ok.mp hname
          simp only [run_bind_eq_ok, expect_kind_eq_ok] at hp
          obtain ⟨r, _, ⟨rfl, hr⟩, hpure⟩ := hp
          cases hpure
          exact ⟨t :: l :: used₁ ++ c :: used₂ ++ [c', m, r], by simp,
            .distanceMetric hword hl hused₁ hc hused₂ hc' hm hmetric hr⟩
      · simp only [run_bind_eq_ok, expect_kind_eq_ok] at hp
        obtain ⟨r, _, ⟨hts, hr⟩, hpure⟩ := hp
        cases hpure
        cases hts
        exact ⟨t :: (l :: used₁ ++ c :: used₂ ++ [c']), by simp,
          .distance hword (.pair hl hused₁ hc hused₂ hr)⟩

include hE in
theorem sound_vertex : Sound (parseVertex E)
    (fun v ts => ∃ x y, v = .PointExpr x y ∧ Writes h (.pair y x) ts) := by
  intro ts v rest hp
  rw [parseVertex, run_bind_eq_ok] at hp
  obtain ⟨p, _, hpair, hp⟩ := hp
  obtain ⟨used, rfl, hused⟩ := sound_pair hE _ _ _ hpair
  cases hp
  exact ⟨used, rfl, p.2, p.1, rfl, hused⟩

include hE in
theorem sound_vertices :
    Sound (commaList (parseVertex E)) (fun es ts => Writes h (.vertices es) ts) := by
  refine (Parsing.left_chain_sound ((sound_vertex hE).map (fun v => [v]))).mono ?_
  intro es used hchain
  induction hchain with
  | operand hfirst =>
      obtain ⟨_, rfl, x, y, rfl, hpair⟩ := hfirst
      exact .firstVertex hpair
  | node _ hcomma hnext ih =>
      obtain ⟨_, rfl, x, y, rfl, hpair⟩ := hnext
      exact .nextVertex ih (comma_eq_some.mp hcomma) hpair

include hE in
theorem sound_polygon (hword : isKeyword t "POLYGON" = true)
    (hp : parsePolygonExpr E (t :: ts) = .ok (e, rest)) :
    ∃ used, t :: ts = used ++ rest ∧ WritesAt h .primary e used := by
  rw [parsePolygonExpr, run_bind run_advance] at hp
  simp only [run_bind_eq_ok, expect_kind_eq_ok] at hp
  obtain ⟨l, _, ⟨rfl, hl⟩, es, _, hvertices, r, _, ⟨rfl, hr⟩, hpure⟩ := hp
  cases hpure
  obtain ⟨used, rfl, hused⟩ := sound_vertices hE _ _ _ hvertices
  exact ⟨t :: l :: used ++ [r], by simp, .polygon hword hl hused hr⟩

include hE in
theorem sound_primary : Sound (parsePrimary h E) (WritesAt h .primary) := by
  intro ts e rest hp
  cases ts with
  | nil => cases hp
  | cons t ts =>
      rw [parsePrimary, run_bind run_peek, run_bind run_checks_lparen_next, run_match_kind] at hp
      by_cases hkind : t.kind = .NUMBER
      · rw [if_pos hkind, run_bind_eq_ok] at hp
        obtain ⟨value, _, hlift, hp⟩ := hp
        obtain ⟨hvalue, rfl⟩ := lift_eq_ok.mp hlift
        cases hp
        exact ⟨[t], rfl, .number hkind hvalue⟩
      rw [if_neg hkind, run_match_kind] at hp
      by_cases hkind : t.kind = .STRING
      · rw [if_pos hkind] at hp
        cases hp
        exact ⟨[t], rfl, .string hkind⟩
      rw [if_neg hkind] at hp
      by_cases hkind : t.kind = .PARAMETER
      · rw [if_pos hkind, run_bind run_advance, run_bind_eq_ok] at hp
        obtain ⟨index, _, hindex, hp⟩ := hp
        obtain ⟨hvalue, rfl⟩ := lift_eq_ok.mp hindex
        split at hp
        · cases hp
        · next hpositive =>
            cases hp
            exact ⟨[t], rfl, .parameter hkind hvalue hpositive⟩
      rw [if_neg hkind, run_match_keyword] at hp
      by_cases hword : isKeyword t "TRUE" = true
      · rw [if_pos hword] at hp
        cases hp
        exact ⟨[t], rfl, .trueLiteral hword⟩
      rw [if_neg hword, run_match_keyword] at hp
      by_cases hword : isKeyword t "FALSE" = true
      · rw [if_pos hword] at hp
        cases hp
        exact ⟨[t], rfl, .falseLiteral hword⟩
      rw [if_neg hword, run_match_kind] at hp
      by_cases hkind : t.kind = .NULL
      · rw [if_pos hkind] at hp
        cases hp
        exact ⟨[t], rfl, .null hkind⟩
      rw [if_neg hkind, parseName] at hp
      by_cases hword : (isWord h t "SIMILAR_TO" && lparenFirst ts) = true
      · rw [if_pos hword] at hp
        exact sound_similar_to hE (Bool.and_eq_true_iff.mp hword).1 hp
      rw [if_neg hword] at hp
      by_cases hword : (isWord h t "SIMILARITY_SCORE" && lparenFirst ts) = true
      · rw [if_pos hword] at hp
        refine sound_no_arguments (fun hl hr => ?_) hp
        exact .similarityScore (Bool.and_eq_true_iff.mp hword).1 hl hr
      rw [if_neg hword] at hp
      by_cases hword : (isWord h t "SEARCH" && lparenFirst ts) = true
      · rw [if_pos hword] at hp
        refine sound_column_query hE (fun harguments => ?_) hp
        exact .search (Bool.and_eq_true_iff.mp hword).1 harguments
      rw [if_neg hword] at hp
      by_cases hword : (isWord h t "MATCH" && lparenFirst ts) = true
      · rw [if_pos hword] at hp
        refine sound_column_query hE (fun harguments => ?_) hp
        exact .matchQuery (Bool.and_eq_true_iff.mp hword).1 harguments
      rw [if_neg hword] at hp
      by_cases hword : (isWord h t "SCORE" && lparenFirst ts) = true
      · rw [if_pos hword] at hp
        refine sound_no_arguments (fun hl hr => ?_) hp
        exact .score (Bool.and_eq_true_iff.mp hword).1 hl hr
      rw [if_neg hword] at hp
      by_cases hword : t.kind = .KEYWORD ∧ t.value ∈ AGGREGATES ∧ lparenFirst ts = true
      · rw [if_pos hword] at hp
        exact sound_function_call hE ⟨hword.1, hword.2.1⟩ hp
      rw [if_neg hword] at hp
      by_cases hword : (isKeyword t "POINT" && lparenFirst ts) = true
      · rw [if_pos hword] at hp
        refine sound_pair_call hE (fun y x => .PointExpr x y) (fun harguments => ?_) hp
        exact .point (Bool.and_eq_true_iff.mp hword).1 harguments
      rw [if_neg hword] at hp
      by_cases hword : (isKeyword t "DISTANCE" && lparenFirst ts) = true
      · rw [if_pos hword] at hp
        exact sound_distance hE (Bool.and_eq_true_iff.mp hword).1 hp
      rw [if_neg hword] at hp
      by_cases hword : (isKeyword t "POLYGON" && lparenFirst ts) = true
      · rw [if_pos hword] at hp
        exact sound_polygon hE (Bool.and_eq_true_iff.mp hword).1 hp
      rw [if_neg hword] at hp
      by_cases hword : (isKeyword t "INTERSECTS" && lparenFirst ts) = true
      · rw [if_pos hword] at hp
        refine sound_pair_call hE .IntersectsExpr (fun harguments => ?_) hp
        exact .intersects (Bool.and_eq_true_iff.mp hword).1 harguments
      rw [if_neg hword, run_match_kind] at hp
      by_cases hkind : t.kind = .IDENTIFIER
      · rw [if_pos hkind] at hp
        cases hp
        exact ⟨[t], rfl, .column hkind⟩
      rw [if_neg hkind, run_match_kind] at hp
      by_cases hkind : t.kind = .LPAREN
      · rw [if_pos hkind] at hp
        simp only [run_bind_eq_ok, expect_kind_eq_ok] at hp
        obtain ⟨expr, _, hexpr, r, _, ⟨rfl, hr⟩, hpure⟩ := hp
        cases hpure
        obtain ⟨used, rfl, hused⟩ := hE _ _ _ hexpr
        exact ⟨t :: used ++ [r], by simp, .group hkind hused hr⟩
      rw [if_neg hkind] at hp
      cases hp

include hE in
theorem sound_term : Sound (parseTerm h E) (WritesAt h .term) := by
  refine (Parsing.left_chain_sound (sound_primary hE)).mono ?_
  intro e used hchain
  induction hchain with
  | operand hfirst => exact .term hfirst
  | node _ hoperator hnext ih => exact .multiplicative ih hoperator hnext

include hE in
theorem sound_arithmetic : Sound (parseArithmetic h E) (WritesAt h .arithmetic) := by
  refine (Parsing.left_chain_sound (sound_term hE)).mono ?_
  intro e used hchain
  induction hchain with
  | operand hfirst => exact .arithmetic hfirst
  | node _ hoperator hnext ih => exact .additive ih hoperator hnext

include hE in
theorem sound_items :
    Sound (commaList (parseArithmetic h E)) (fun es ts => Writes h (.items es) ts) := by
  refine (Parsing.left_chain_sound ((sound_arithmetic hE).map (fun e => [e]))).mono ?_
  intro es used hchain
  induction hchain with
  | operand hfirst =>
      obtain ⟨e, rfl, hitem⟩ := hfirst
      exact .firstItem hitem
  | node _ hcomma hnext ih =>
      obtain ⟨e, rfl, hitem⟩ := hnext
      exact .nextItem ih (comma_eq_some.mp hcomma) hitem

include hE in
theorem sound_predicate : Sound (parsePredicate h E) (WritesAt h .predicate) := by
  intro ts e rest hp
  rw [parsePredicate, run_bind_eq_ok] at hp
  obtain ⟨value, ts, hvalue, hp⟩ := hp
  obtain ⟨used, rfl, hused⟩ := sound_arithmetic hE _ _ _ hvalue
  cases ts with
  | nil => cases hp
  | cons t ts =>
      rw [run_bind run_peek, run_match_keyword] at hp
      by_cases hword : isKeyword t "IS" = true
      · rw [if_pos hword] at hp
        cases ts with
        | nil => cases hp
        | cons o ts =>
            rw [run_match_keyword_bind] at hp
            split at hp
            · next hnot =>
                simp only [run_bind_eq_ok, expect_kind_eq_ok] at hp
                obtain ⟨n, _, ⟨rfl, hn⟩, hpure⟩ := hp
                cases hpure
                exact ⟨used ++ [t, o, n], by simp, .isNotNull hused hword hnot hn⟩
            · simp only [run_bind_eq_ok, expect_kind_eq_ok] at hp
              obtain ⟨n, _, ⟨hts, hn⟩, hpure⟩ := hp
              cases hpure
              cases hts
              exact ⟨used ++ [t, o], by simp, .isNull hused hword hn⟩
      rw [if_neg hword] at hp
      by_cases hcompare : t.kind = .OPERATOR ∧ t.value ∈ COMPARISON_OPS
      · rw [if_pos hcompare, run_bind run_advance, run_bind_eq_ok] at hp
        obtain ⟨right, _, hright, hp⟩ := hp
        obtain ⟨used', rfl, hused'⟩ := sound_arithmetic hE _ _ _ hright
        cases hp
        exact ⟨used ++ t :: used', by simp, .compare hused hcompare hused'⟩
      rw [if_neg hcompare, run_match_keyword] at hp
      by_cases hword : isKeyword t "BETWEEN" = true
      · rw [if_pos hword, run_bind_eq_ok] at hp
        obtain ⟨lo, _, hlo, hp⟩ := hp
        obtain ⟨used₂, rfl, hused₂⟩ := sound_arithmetic hE _ _ _ hlo
        rw [run_bind_eq_ok] at hp
        obtain ⟨_, _, htake, hp⟩ := hp
        obtain ⟨a, rfl, hand⟩ := expect_keyword_eq_ok.mp htake
        rw [run_bind_eq_ok] at hp
        obtain ⟨hi, _, hhi, hp⟩ := hp
        obtain ⟨used₃, rfl, hused₃⟩ := sound_arithmetic hE _ _ _ hhi
        cases hp
        exact ⟨used ++ t :: used₂ ++ a :: used₃, by simp,
          .between hused hword hused₂ hand hused₃⟩
      rw [if_neg hword, run_match_keyword] at hp
      by_cases hword : isKeyword t "IN" = true
      · rw [if_pos hword] at hp
        simp only [run_bind_eq_ok, expect_kind_eq_ok] at hp
        obtain ⟨l, _, ⟨rfl, hl⟩, items, _, hitems, r, _, ⟨rfl, hr⟩, hpure⟩ := hp
        cases hpure
        obtain ⟨used', rfl, hused'⟩ := sound_items hE _ _ _ hitems
        exact ⟨used ++ t :: l :: used' ++ [r], by simp, .inList hused hword hl hused' hr⟩
      rw [if_neg hword, run_match_keyword] at hp
      by_cases hword : isKeyword t "LIKE" = true
      · rw [if_pos hword, run_bind_eq_ok] at hp
        obtain ⟨pattern, _, hpattern, hp⟩ := hp
        obtain ⟨used', rfl, hused'⟩ := sound_arithmetic hE _ _ _ hpattern
        cases hp
        exact ⟨used ++ t :: used', by simp, .like hused hword hused'⟩
      rw [if_neg hword] at hp
      cases hp
      exact ⟨used, rfl, .predicate hused⟩

include hE in
theorem sound_not : Sound (parseNot h E) (WritesAt h .negation) := by
  intro ts
  induction ts with
  | nil =>
      intro e rest hp
      cases hp
  | cons t ts ih =>
      intro e rest hp
      rw [parseNot] at hp
      split at hp
      · next hword =>
          obtain ⟨⟨operand, rest'⟩, hoperand, hp⟩ := bind_eq_ok.mp hp
          cases hp
          obtain ⟨used, rfl, hused⟩ := ih _ _ hoperand
          exact ⟨t :: used, rfl, .not hword hused⟩
      · obtain ⟨used, hts, hused⟩ := sound_predicate hE _ _ _ hp
        exact ⟨used, hts, .negation hused⟩

theorem keyword_operator_eq_some {keyword op : String} :
    keywordOperator keyword t = some op ↔ isKeyword t keyword = true ∧ op = keyword := by
  rw [keywordOperator, isKeyword, decide_eq_true_iff]
  split
  · next hkeyword =>
      rw [Option.some.injEq]
      exact ⟨fun hop => ⟨hkeyword, hop.symm⟩, fun hop => hop.2.symm⟩
  · next hkeyword => exact iff_of_false (by simp) (fun hop => hkeyword hop.1)

include hE in
theorem sound_and : Sound (parseAnd h E) (WritesAt h .conjunction) := by
  refine (Parsing.left_chain_sound (sound_not hE)).mono ?_
  intro e used hchain
  induction hchain with
  | operand hfirst => exact .conjunction hfirst
  | node _ hoperator hnext ih =>
      obtain ⟨hword, rfl⟩ := keyword_operator_eq_some.mp hoperator
      exact .and ih hword hnext

include hE in
theorem sound_or : Sound (parseOr h E) (WritesAt h .disjunction) := by
  refine (Parsing.left_chain_sound (sound_and hE)).mono ?_
  intro e used hchain
  induction hchain with
  | operand hfirst => exact .disjunction hfirst
  | node _ hoperator hnext ih =>
      obtain ⟨hword, rfl⟩ := keyword_operator_eq_some.mp hoperator
      exact .or ih hword hnext

end Soundness

theorem sound_parse_expression (fuel : Nat) :
    Sound (parseExpression h fuel) (WritesAt h .disjunction) := by
  induction fuel with
  | zero =>
      intro ts e rest hp
      cases hp
  | succ fuel ih => exact sound_or ih

theorem sound_expression : Sound (expression h) (WritesAt h .disjunction) :=
  fun ts e rest hp => sound_parse_expression h (ts.length + 1) ts e rest hp

end SoupDB.Parser
