import SoupDB.Query.Grammar
import Mathlib.Data.Bool.AllAny

/-!
# SoupDB: the parser follows the documented precedence

A token list of the grammar is taken to the expression that it writes, wherever a token follows
that no operator of its level can be.

Main fact: `complete_expression`.
-/

namespace SoupDB.Parser

open List

open Parsing (Sound Complete LeftChain leftChain run_bind run_bind_eq_ok)

/-- Whether a token starts the rest of a comparison. -/
def continuesPredicate (t : Token) : Bool :=
  isKeyword t "IS" || (t.kind = .OPERATOR ∧ t.value ∈ COMPARISON_OPS) ||
    isKeyword t "BETWEEN" || isKeyword t "IN" || isKeyword t "LIKE"

/-- Whether a token goes on with an expression of a level. -/
def continues (level : Level) (t : Token) : Bool :=
  let primary := decide (t.kind = .LPAREN)
  let term := primary || (multiplicativeOperator t).isSome
  let arithmetic := term || (additiveOperator t).isSome
  let predicate := arithmetic || continuesPredicate t
  let conjunction := predicate || isKeyword t "AND"
  match level with
  | .primary => primary
  | .term => term
  | .arithmetic => arithmetic
  | .predicate | .negation => predicate
  | .conjunction => conjunction
  | .disjunction => conjunction || isKeyword t "OR"

/-- The next token does not go on with an expression of the level. -/
def Follow (level : Level) (rest : List Token) : Prop :=
  ∃ t ts, rest = t :: ts ∧ continues level t = false

variable {h : Host} {E : Parse Expr} {n : Nat}

/-- The token lists that write an expression at a level and are not too long. -/
def WritesWithin (h : Host) (n : Nat) (level : Level) (e : Expr) (ts : List Token) : Prop :=
  WritesAt h level e ts ∧ ts.length ≤ n

/-! ## Tokens and words -/

section Words

variable {t : Token} {word keyword : String}

theorem keywords_ascii : ∀ keyword ∈ Lexer.KEYWORDS, (∀ c ∈ keyword.toList, c.toNat < 128) ∧
    String.ofList (keyword.toList.map Char.toUpper) = keyword := by
  have hall : ∀ keyword ∈ Lexer.KEYWORDS, keyword.toList.all (fun c => c.toNat < 128) ∧
      String.ofList (keyword.toList.map Char.toUpper) = keyword := by
    decide
  intro keyword hkeyword
  obtain ⟨hascii, hupper⟩ := hall keyword hkeyword
  exact ⟨all_iff_forall_prop.mp hascii, hupper⟩

theorem upper_keyword (hkeyword : keyword ∈ Lexer.KEYWORDS) : h.upper keyword = keyword := by
  obtain ⟨hascii, hupper⟩ := keywords_ascii keyword hkeyword
  rw [h.upper_ascii keyword hascii, hupper]

theorem is_keyword_iff : isKeyword t keyword = true ↔ t.kind = .KEYWORD ∧ t.value = keyword :=
  decide_eq_true_iff

theorem is_word_iff : isWord h t word = true ↔
    (t.kind = .IDENTIFIER ∨ t.kind = .KEYWORD) ∧ h.upper t.value = word :=
  decide_eq_true_iff

theorem not_word_of_keyword (hvalue : t.value ∈ Lexer.KEYWORDS) (hword : word ∉ Lexer.KEYWORDS) :
    isWord h t word = false := by
  cases hw : isWord h t word with
  | false => rfl
  | true =>
      have hupper := (is_word_iff.mp hw).2
      rw [upper_keyword hvalue] at hupper
      exact absurd (hupper ▸ hvalue) hword

theorem not_keyword_of_word (hword : isWord h t word = true) (hnone : word ∉ Lexer.KEYWORDS)
    (hkeyword : keyword ∈ Lexer.KEYWORDS) : isKeyword t keyword = false := by
  cases hk : isKeyword t keyword with
  | false => rfl
  | true =>
      obtain ⟨_, rfl⟩ := is_keyword_iff.mp hk
      rw [not_word_of_keyword hkeyword hnone] at hword
      cases hword

theorem not_word_of_word {word' : String} (hword : isWord h t word = true) (hne : word ≠ word') :
    isWord h t word' = false := by
  cases hw : isWord h t word' with
  | false => rfl
  | true => exact absurd ((is_word_iff.mp hword).2.symm.trans (is_word_iff.mp hw).2) hne

theorem not_keyword_of_keyword {keyword' : String} (hkeyword : isKeyword t keyword = true)
    (hne : keyword ≠ keyword') : isKeyword t keyword' = false := by
  cases hk : isKeyword t keyword' with
  | false => rfl
  | true => exact absurd ((is_keyword_iff.mp hkeyword).2.symm.trans (is_keyword_iff.mp hk).2) hne

end Words

/-! ## Primaries -/

section Completeness

variable (hE : Complete E (fun e ts => WritesAt h .disjunction e ts ∧ ts.length < n)
  (Follow .disjunction))

variable {level : Level} {t l r : Token} {rest ts used : List Token} {keyword op : String}
    {e : Expr} {es : List Expr}

theorem follow_of_kind (hkind : t.kind = .RPAREN ∨ t.kind = .COMMA) : Follow level (t :: rest) := by
  refine ⟨t, rest, rfl, ?_⟩
  have hne : ∀ kind : TokenKind, kind ≠ .RPAREN → kind ≠ .COMMA → t.kind ≠ kind := by
    intro kind hr hc ht
    rcases hkind with hkind | hkind
    · exact hr (ht.symm.trans hkind)
    · exact hc (ht.symm.trans hkind)
  have hl := hne .LPAREN (by decide) (by decide)
  have ho := hne .OPERATOR (by decide) (by decide)
  have hk := hne .KEYWORD (by decide) (by decide)
  have hs := hne .STAR (by decide) (by decide)
  cases level <;>
    simp [continues, continuesPredicate, multiplicativeOperator, additiveOperator, isKeyword,
      hl, ho, hk, hs]

include hE in
theorem complete_pair :
    Complete (parsePair E) (fun (p : Expr × Expr) ts => Writes h (.pair p.1 p.2) ts ∧
      ts.length ≤ n) (fun _ => True) := by
  rintro used ⟨first, second⟩ rest ⟨hused, hn⟩ -
  cases hused with
  | @pair l c r _ _ ts₁ ts₂ hl hfirst hc hsecond hr =>
      simp only [length_append, length_cons] at hn
      have h₁ := hE ts₁ first (c :: ts₂ ++ r :: rest) ⟨hfirst, by omega⟩
        (follow_of_kind (Or.inr hc))
      have h₂ := hE ts₂ second (r :: rest) ⟨hsecond, by omega⟩ (follow_of_kind (Or.inl hr))
      have hused : l :: ts₁ ++ c :: ts₂ ++ [r] ++ rest = l :: (ts₁ ++ (c :: ts₂ ++ r :: rest)) := by
        simp
      rw [hused, parsePair, run_bind (run_expect_kind hl), run_bind h₁, cons_append,
        run_bind (run_expect_kind hc), run_bind h₂, run_bind (run_expect_kind hr)]
      rfl

theorem primary_name (hkind : t.kind = .IDENTIFIER ∨ t.kind = .KEYWORD ∨ t.kind = .LPAREN)
    (htrue : isKeyword t "TRUE" = false) (hfalse : isKeyword t "FALSE" = false) :
    parsePrimary h E (t :: ts) = parseName h E t (lparenFirst ts) (t :: ts) := by
  have hne : ∀ kind : TokenKind, kind ≠ .IDENTIFIER → kind ≠ .KEYWORD → kind ≠ .LPAREN →
      t.kind ≠ kind := by
    intro kind hi hk hl ht
    rcases hkind with hkind | hkind | hkind
    · exact hi (ht.symm.trans hkind)
    · exact hk (ht.symm.trans hkind)
    · exact hl (ht.symm.trans hkind)
  rw [parsePrimary, run_bind run_peek, run_bind run_checks_lparen_next, run_match_kind,
    if_neg (hne _ (by decide) (by decide) (by decide)), run_match_kind,
    if_neg (hne _ (by decide) (by decide) (by decide)),
    if_neg (hne _ (by decide) (by decide) (by decide)), run_match_keyword, htrue,
    if_neg Bool.false_ne_true, run_match_keyword, hfalse, if_neg Bool.false_ne_true,
    run_match_kind, if_neg (hne _ (by decide) (by decide) (by decide))]

/-! ### Calls -/

section Calls

variable {t l : Token} {ts : List Token}

theorem lparen_first_cons (hl : l.kind = .LPAREN) : lparenFirst (l :: ts) = true := by
  simp [lparenFirst, hl]

/-- A contextual word before a parenthesis is looked for among the calls. -/
theorem primary_word {word : String} (hword : isWord h t word = true)
    (hnone : word ∉ Lexer.KEYWORDS) (hl : l.kind = .LPAREN) :
    parsePrimary h E (t :: l :: ts) = parseName h E t true (t :: l :: ts) := by
  have hkind := (is_word_iff.mp hword).1
  rw [primary_name (hkind.imp id Or.inl) (not_keyword_of_word hword hnone (by decide))
    (not_keyword_of_word hword hnone (by decide)), lparen_first_cons hl]

theorem name_keyword {keyword : String} (hkeyword : isKeyword t keyword = true)
    (hmem : keyword ∈ Lexer.KEYWORDS) {word : String} (hword : word ∉ Lexer.KEYWORDS) :
    isWord h t word = false := by
  obtain ⟨_, rfl⟩ := is_keyword_iff.mp hkeyword
  exact not_word_of_keyword hmem hword

theorem primary_similar_to (hword : isWord h t "SIMILAR_TO" = true) (hl : l.kind = .LPAREN) :
    parsePrimary h E (t :: l :: ts) = parseSimilarToExpr h E (t :: l :: ts) := by
  rw [primary_word hword (by decide) hl, parseName, hword, Bool.and_true, if_pos rfl]

theorem primary_similarity_score (hword : isWord h t "SIMILARITY_SCORE" = true)
    (hl : l.kind = .LPAREN) :
    parsePrimary h E (t :: l :: ts) = parseSimilarityScoreExpr (t :: l :: ts) := by
  rw [primary_word hword (by decide) hl, parseName, not_word_of_word hword (by decide), hword,
    Bool.false_and, if_neg Bool.false_ne_true, Bool.and_true, if_pos rfl]

theorem primary_search (hword : isWord h t "SEARCH" = true) (hl : l.kind = .LPAREN) :
    parsePrimary h E (t :: l :: ts) = parseSearchExpr E (t :: l :: ts) := by
  rw [primary_word hword (by decide) hl, parseName, not_word_of_word hword (by decide),
    not_word_of_word hword (by decide), hword, Bool.false_and, if_neg Bool.false_ne_true,
    if_neg Bool.false_ne_true, Bool.and_true, if_pos rfl]

theorem primary_match (hword : isWord h t "MATCH" = true) (hl : l.kind = .LPAREN) :
    parsePrimary h E (t :: l :: ts) = parseMatchExpr E (t :: l :: ts) := by
  rw [primary_word hword (by decide) hl, parseName, not_word_of_word hword (by decide),
    not_word_of_word hword (by decide), not_word_of_word hword (by decide), hword,
    Bool.false_and, if_neg Bool.false_ne_true, if_neg Bool.false_ne_true,
    if_neg Bool.false_ne_true, Bool.and_true, if_pos rfl]

theorem primary_score (hword : isWord h t "SCORE" = true) (hl : l.kind = .LPAREN) :
    parsePrimary h E (t :: l :: ts) = parseScoreExpr (t :: l :: ts) := by
  rw [primary_word hword (by decide) hl, parseName, not_word_of_word hword (by decide),
    not_word_of_word hword (by decide), not_word_of_word hword (by decide),
    not_word_of_word hword (by decide), hword, Bool.false_and, if_neg Bool.false_ne_true,
    if_neg Bool.false_ne_true, if_neg Bool.false_ne_true, if_neg Bool.false_ne_true,
    Bool.and_true, if_pos rfl]

theorem primary_keyword {keyword : String} (hkeyword : isKeyword t keyword = true)
    (hmem : keyword ∈ Lexer.KEYWORDS) (htrue : keyword ≠ "TRUE") (hfalse : keyword ≠ "FALSE")
    (hl : l.kind = .LPAREN) :
    parsePrimary h E (t :: l :: ts) =
      (if t.kind = .KEYWORD ∧ t.value ∈ AGGREGATES ∧ true = true then parseFunctionCall E
        else if isKeyword t "POINT" && true then parsePointExpr E
        else if isKeyword t "DISTANCE" && true then parseDistanceExpr h E
        else if isKeyword t "POLYGON" && true then parsePolygonExpr E
        else if isKeyword t "INTERSECTS" && true then parseIntersectsExpr E
        else parseName h E t false) (t :: l :: ts) := by
  have hkind := (is_keyword_iff.mp hkeyword).1
  rw [primary_name (Or.inr (Or.inl hkind)) (not_keyword_of_keyword hkeyword htrue)
    (not_keyword_of_keyword hkeyword hfalse), lparen_first_cons hl, parseName,
    name_keyword hkeyword hmem (by decide), name_keyword hkeyword hmem (by decide),
    name_keyword hkeyword hmem (by decide), name_keyword hkeyword hmem (by decide),
    name_keyword hkeyword hmem (by decide)]
  simp only [Bool.false_and, Bool.false_eq_true, if_false, parseName, Bool.and_false, and_false]

end Calls

theorem primary_function (hword : t.kind = .KEYWORD ∧ t.value ∈ AGGREGATES)
    (hl : l.kind = .LPAREN) :
    parsePrimary h E (t :: l :: ts) = parseFunctionCall E (t :: l :: ts) := by
  have hname : ∀ name ∈ AGGREGATES, name ∈ Lexer.KEYWORDS ∧ name ≠ "TRUE" ∧ name ≠ "FALSE" := by
    decide
  obtain ⟨hmem, htrue, hfalse⟩ := hname _ hword.2
  rw [primary_keyword (decide_eq_true ⟨hword.1, rfl⟩) hmem htrue hfalse hl,
    if_pos ⟨hword.1, hword.2, rfl⟩]

/-- A keyword that is no aggregate is looked for among the functions of geometry. -/
theorem primary_geometry (hkeyword : isKeyword t keyword = true)
    (hmem : keyword ∈ ["POINT", "DISTANCE", "POLYGON", "INTERSECTS"]) (hl : l.kind = .LPAREN) :
    parsePrimary h E (t :: l :: ts) =
      (if isKeyword t "POINT" && true then parsePointExpr E
        else if isKeyword t "DISTANCE" && true then parseDistanceExpr h E
        else if isKeyword t "POLYGON" && true then parsePolygonExpr E
        else if isKeyword t "INTERSECTS" && true then parseIntersectsExpr E
        else parseName h E t false) (t :: l :: ts) := by
  have hname : ∀ name ∈ ["POINT", "DISTANCE", "POLYGON", "INTERSECTS"],
      name ∈ Lexer.KEYWORDS ∧ name ≠ "TRUE" ∧ name ≠ "FALSE" ∧ name ∉ AGGREGATES := by decide
  obtain ⟨hkeywords, htrue, hfalse, hnone⟩ := hname _ hmem
  rw [primary_keyword hkeyword hkeywords htrue hfalse hl, if_neg]
  rintro ⟨_, hvalue, _⟩
  rw [(is_keyword_iff.mp hkeyword).2] at hvalue
  exact hnone hvalue

theorem primary_point (hword : isKeyword t "POINT" = true) (hl : l.kind = .LPAREN) :
    parsePrimary h E (t :: l :: ts) = parsePointExpr E (t :: l :: ts) := by
  rw [primary_geometry hword (by decide) hl, hword, Bool.and_true, if_pos rfl]

theorem primary_distance (hword : isKeyword t "DISTANCE" = true) (hl : l.kind = .LPAREN) :
    parsePrimary h E (t :: l :: ts) = parseDistanceExpr h E (t :: l :: ts) := by
  rw [primary_geometry hword (by decide) hl, not_keyword_of_keyword hword (by decide), hword,
    Bool.false_and, if_neg Bool.false_ne_true, Bool.and_true, if_pos rfl]

theorem primary_polygon (hword : isKeyword t "POLYGON" = true) (hl : l.kind = .LPAREN) :
    parsePrimary h E (t :: l :: ts) = parsePolygonExpr E (t :: l :: ts) := by
  rw [primary_geometry hword (by decide) hl, not_keyword_of_keyword hword (by decide),
    not_keyword_of_keyword hword (by decide), hword, Bool.false_and, if_neg Bool.false_ne_true,
    if_neg Bool.false_ne_true, Bool.and_true, if_pos rfl]

theorem primary_intersects (hword : isKeyword t "INTERSECTS" = true) (hl : l.kind = .LPAREN) :
    parsePrimary h E (t :: l :: ts) = parseIntersectsExpr E (t :: l :: ts) := by
  rw [primary_geometry hword (by decide) hl, not_keyword_of_keyword hword (by decide),
    not_keyword_of_keyword hword (by decide), not_keyword_of_keyword hword (by decide), hword,
    Bool.false_and, if_neg Bool.false_ne_true, if_neg Bool.false_ne_true,
    if_neg Bool.false_ne_true, Bool.and_true, if_pos rfl]

/-! ### First tokens -/

/-- What an expression does not start with. -/
def Opening (ts : List Token) : Prop :=
  ∃ first more, ts = first :: more ∧ isKeyword first "DISTINCT" = false ∧ first.kind ≠ .STAR

theorem Opening.append {ts more : List Token} (hts : Opening ts) : Opening (ts ++ more) := by
  obtain ⟨first, rest, rfl, hdistinct, hstar⟩ := hts
  exact ⟨first, rest ++ more, rfl, hdistinct, hstar⟩

theorem opening_of_kind (hk : t.kind ≠ .KEYWORD) (hs : t.kind ≠ .STAR) : Opening (t :: ts) :=
  ⟨t, ts, rfl, decide_eq_false fun hkeyword => hk hkeyword.1, hs⟩

theorem opening_of_keyword (hkeyword : isKeyword t keyword = true) (hne : keyword ≠ "DISTINCT") :
    Opening (t :: ts) := by
  refine ⟨t, ts, rfl, not_keyword_of_keyword hkeyword hne, ?_⟩
  rw [(is_keyword_iff.mp hkeyword).1]
  decide

theorem opening_of_word {word : String} (hword : isWord h t word = true)
    (hnone : word ∉ Lexer.KEYWORDS) : Opening (t :: ts) := by
  refine ⟨t, ts, rfl, not_keyword_of_word hword hnone (by decide), ?_⟩
  rcases (is_word_iff.mp hword).1 with hkind | hkind
  · rw [hkind]
    decide
  · rw [hkind]
    decide

theorem opening_of_aggregate (hword : t.kind = .KEYWORD ∧ t.value ∈ AGGREGATES) :
    Opening (t :: ts) := by
  have hne : ∀ name ∈ AGGREGATES, name ≠ "DISTINCT" := by decide
  exact opening_of_keyword (decide_eq_true ⟨hword.1, rfl⟩) (hne _ hword.2)

theorem first_of_phrase {p : Phrase} (hp : Writes h p ts) : Opening ts := by
  induction hp with
  | number kind | string kind | parameter kind | null kind | column kind | group kind
  | pair kind =>
      refine opening_of_kind ?_ ?_
      all_goals
        rw [kind]
        decide
  | trueLiteral word | falseLiteral word | countStar word | point word | distance word
  | distanceMetric word | polygon word | intersects word | not word =>
      exact opening_of_keyword word (by decide)
  | score word | similarityScore word | similarTo word | search word | matchQuery word =>
      exact opening_of_word word (by decide)
  | function word | distinctFunction word => exact opening_of_aggregate word
  | firstVertex _ ih | firstItem _ ih | term _ ih | arithmetic _ ih | predicate _ ih
  | negation _ ih | conjunction _ ih | disjunction _ ih => exact ih
  | nextVertex _ _ _ ih | nextItem _ _ _ ih | multiplicative _ _ _ ih | additive _ _ _ ih
  | compare _ _ _ ih | like _ _ _ ih | and _ _ _ ih | or _ _ _ ih | isNull _ _ _ ih
  | isNotNull _ _ _ _ ih => exact ih.append
  | between _ _ _ _ _ ih => exact ih.append.append
  | inList _ _ _ _ _ ih => exact ih.append.append

theorem first_of_writes (he : WritesAt h level e ts) : Opening ts := first_of_phrase he

/-! ### Names and parentheses -/

theorem is_keyword_of_kind (hkind : t.kind ≠ .KEYWORD) (keyword : String) :
    isKeyword t keyword = false :=
  decide_eq_false fun hkeyword => hkind hkeyword.1

theorem is_word_of_kind (hi : t.kind ≠ .IDENTIFIER) (hk : t.kind ≠ .KEYWORD) (word : String) :
    isWord h t word = false :=
  decide_eq_false fun hword => hword.1.elim hi hk

theorem name_column (hkind : t.kind = .IDENTIFIER) :
    parseName h E t false (t :: ts) = .ok (.ColumnRef t.value, ts) := by
  have hk : t.kind ≠ .KEYWORD := by
    rw [hkind]
    decide
  simp only [parseName, Bool.and_false, Bool.false_eq_true, and_false, if_false]
  rw [run_match_kind, if_pos hkind]
  rfl

theorem name_group {call : Bool} (hkind : t.kind = .LPAREN) :
    parseName h E t call (t :: ts) =
      (E >>= fun expr => expectKind .RPAREN >>= fun _ => pure expr) ts := by
  have hi : t.kind ≠ .IDENTIFIER := by
    rw [hkind]
    decide
  have hk : t.kind ≠ .KEYWORD := by
    rw [hkind]
    decide
  simp only [parseName, is_word_of_kind hi hk, is_keyword_of_kind hk, hk, Bool.false_and,
    Bool.false_eq_true, false_and, if_false]
  rw [run_match_kind, if_neg hi, run_match_kind, if_pos hkind]

include hE in
theorem complete_group (hl : l.kind = .LPAREN) (hinner : WritesAt h .disjunction e ts)
    (hr : r.kind = .RPAREN) (hn : (l :: ts ++ [r]).length ≤ n) :
    parsePrimary h E (l :: ts ++ [r] ++ rest) = .ok (e, rest) := by
  have hk : l.kind ≠ .KEYWORD := by
    rw [hl]
    decide
  simp only [length_append, length_cons] at hn
  have hexpr := hE ts e (r :: rest) ⟨hinner, by omega⟩ (follow_of_kind (Or.inl hr))
  have hused : l :: ts ++ [r] ++ rest = l :: (ts ++ r :: rest) := by simp
  rw [hused, primary_name (Or.inr (Or.inr hl)) (is_keyword_of_kind hk _) (is_keyword_of_kind hk _),
    name_group hl, run_bind hexpr, run_bind (run_expect_kind hr)]
  rfl

theorem complete_no_arguments {expr : Expr} (hl : l.kind = .LPAREN) (hr : r.kind = .RPAREN) :
    parseNoArguments expr (t :: l :: r :: rest) = .ok (expr, rest) := by
  rw [parseNoArguments, run_bind run_advance, run_bind (run_expect_kind hl),
    run_bind (run_expect_kind hr)]
  rfl

include hE in
theorem complete_similar_to {c k eq m : Token} {reference : String} {count : Int}
    (hl : l.kind = .LPAREN) (hsource : WritesAt h .disjunction (.Literal (.str reference)) ts)
    (hc : c.kind = .COMMA) (hk : isWord h k "K" = true) (heq : eq.kind = .OPERATOR ∧ eq.value = "=")
    (hm : m.kind = .NUMBER ∧ isDigits m.value = true) (hcount : intValue h m.value = .ok count)
    (hr : r.kind = .RPAREN) (hn : (t :: l :: ts ++ [c, k, eq, m, r]).length ≤ n) :
    parseSimilarToExpr h E (t :: l :: (ts ++ c :: k :: eq :: m :: r :: rest)) =
      .ok (.SimilarToExpr (.Literal (.str reference)) (.int count), rest) := by
  simp only [length_append, length_cons] at hn
  have hexpr := hE ts _ (c :: k :: eq :: m :: r :: rest) ⟨hsource, by omega⟩
    (follow_of_kind (Or.inr hc))
  rw [parseSimilarToExpr, run_bind run_advance, run_bind (run_expect_kind hl), run_bind hexpr]
  dsimp only
  rw [run_bind (run_expect_kind hc), run_match_word, if_pos hk, run_bind (run_expect_kind heq.1),
    if_neg (not_not_intro heq.2), run_bind (run_expect_kind hm.1), if_pos hm.2,
    run_bind (run_expect_kind hr), run_bind (run_lift hcount)]
  rfl

include hE in
theorem complete_column_query {name column query : String} {node : String → Expr → Expr}
    (hpair : Writes h (.pair (.ColumnRef column) (.Literal (.str query))) ts) (hn : ts.length ≤ n) :
    parseColumnQuery E name node (t :: (ts ++ rest)) =
      .ok (node column (.Literal (.str query)), rest) := by
  have harguments := complete_pair hE ts (.ColumnRef column, .Literal (.str query)) rest
    ⟨hpair, hn⟩ trivial
  rw [parseColumnQuery, run_bind run_advance, run_bind harguments]
  rfl

include hE in
theorem complete_pair_call (node : Expr → Expr → Expr) {first second : Expr}
    (hpair : Writes h (.pair first second) ts) (hn : ts.length ≤ n) :
    (advance >>= fun _ => parsePair E >>= fun p => pure (node p.1 p.2)) (t :: (ts ++ rest)) =
      .ok (node first second, rest) := by
  rw [run_bind run_advance, run_bind (complete_pair hE ts (first, second) rest ⟨hpair, hn⟩ trivial)]
  rfl

/-! ### Lists with commas -/

theorem comma_of_kind (hkind : t.kind = .RPAREN) : comma t = none := by
  rw [comma, hkind]
  rfl

theorem complete_comma_list {α : Type} {item : Parse α} {W W' : α → List Token → Prop}
    {follow : List Token → Prop} (hsound : Sound item W) (hitem : Complete item W' follow)
    (hcomma : ∀ (t : Token) (ts : List Token), t.kind = .COMMA → follow (t :: ts)) {items : List α}
    (hused : LeftChain comma (fun items _ more => items ++ more)
      (fun items ts => ∃ x, items = [x] ∧ W' x ts) items used) (hr : r.kind = .RPAREN)
    (hrest : follow (r :: rest)) :
    commaList item (used ++ r :: rest) = .ok (items, r :: rest) := by
  refine Parsing.left_chain_complete (hsound.map (fun x => [x])) (hitem.map (fun x => [x])) ?_ _ _ _
    hused ⟨hrest, r, rest, rfl, comma_of_kind hr⟩
  intro t op ts hop
  exact hcomma t ts (comma_eq_some.mp hop)

theorem chain_of_vertices (hused : Writes h (.vertices es) used) :
    LeftChain comma (fun items _ more => items ++ more)
      (fun items ts => ∃ v, items = [v] ∧ ∃ x y, v = Expr.PointExpr x y ∧ Writes h (.pair y x) ts)
      es used := by
  generalize hp : Phrase.vertices es = p at hused
  induction hused generalizing es with
  | @firstVertex x y ts hvertex =>
      cases hp
      exact .operand ⟨_, rfl, x, y, rfl, hvertex⟩
  | @nextVertex c x y es ts₁ ts₂ _ hc hvertex ih _ =>
      cases hp
      exact .node (ih rfl) (comma_eq_some.mpr hc : comma c = some ())
        ⟨_, rfl, x, y, rfl, hvertex⟩
  | _ => cases hp

theorem chain_of_items (hused : Writes h (.items es) used) :
    LeftChain comma (fun items _ more => items ++ more)
      (fun items ts => ∃ e, items = [e] ∧ WritesAt h .arithmetic e ts) es used := by
  generalize hp : Phrase.items es = p at hused
  induction hused generalizing es with
  | firstItem hitem =>
      cases hp
      exact .operand ⟨_, rfl, hitem⟩
  | @nextItem c _ _ _ _ _ hc hitem ih _ =>
      cases hp
      exact .node (ih rfl) (comma_eq_some.mpr hc : comma c = some ()) ⟨_, rfl, hitem⟩
  | _ => cases hp

include hE in
theorem complete_vertex : Complete (parseVertex E)
    (fun v ts => (∃ x y, v = .PointExpr x y ∧ Writes h (.pair y x) ts) ∧ ts.length ≤ n)
    (fun _ => True) := by
  rintro used v rest ⟨⟨x, y, rfl, hpair⟩, hn⟩ -
  rw [parseVertex, run_bind (complete_pair hE used (y, x) rest ⟨hpair, hn⟩ trivial)]
  rfl

variable (hS : Sound E (WritesAt h .disjunction))

include hE hS in
theorem complete_polygon (hl : l.kind = .LPAREN) (hvertices : Writes h (.vertices es) ts)
    (hr : r.kind = .RPAREN) (hn : ts.length ≤ n) :
    parsePolygonExpr E (t :: l :: (ts ++ r :: rest)) = .ok (.PolygonExpr es, rest) := by
  have hchain := ((chain_of_vertices hvertices).bounded hn).mono (fun items ts hitem => by
    obtain ⟨⟨v, hv, hpair⟩, hn⟩ := hitem
    exact (⟨v, hv, hpair, hn⟩ : ∃ v, items = [v] ∧
      ((∃ x y, v = Expr.PointExpr x y ∧ Writes h (.pair y x) ts) ∧ ts.length ≤ n)))
  have hlist : commaList (parseVertex E) (ts ++ r :: rest) = .ok (es, r :: rest) :=
    complete_comma_list (sound_vertex hS) (complete_vertex hE) (fun _ _ _ => trivial) hchain hr
      trivial
  rw [parsePolygonExpr, run_bind run_advance, run_bind (run_expect_kind hl), run_bind hlist,
    run_bind (run_expect_kind hr)]
  rfl

include hE in
theorem complete_distance_metric {c c' m : Token} {left right : Expr} {metric : String}
    {ts₁ ts₂ : List Token} (hl : l.kind = .LPAREN) (hleft : WritesAt h .disjunction left ts₁)
    (hc : c.kind = .COMMA) (hright : WritesAt h .disjunction right ts₂) (hc' : c'.kind = .COMMA)
    (hm : m.kind = .STRING) (hmetric : normalizeMetric h m.value = .ok metric)
    (hr : r.kind = .RPAREN) (hn : (t :: l :: ts₁ ++ c :: ts₂ ++ [c', m, r]).length ≤ n) :
    parseDistanceExpr h E (t :: l :: (ts₁ ++ c :: (ts₂ ++ c' :: m :: r :: rest))) =
      .ok (.DistanceExpr left right metric, rest) := by
  simp only [length_append, length_cons] at hn
  have h₁ := hE ts₁ left (c :: (ts₂ ++ c' :: m :: r :: rest)) ⟨hleft, by omega⟩
    (follow_of_kind (Or.inr hc))
  have h₂ := hE ts₂ right (c' :: m :: r :: rest) ⟨hright, by omega⟩ (follow_of_kind (Or.inr hc'))
  rw [parseDistanceExpr, run_bind run_advance, run_bind (run_expect_kind hl), run_bind h₁,
    run_bind (run_expect_kind hc), run_bind h₂, run_match_kind, if_pos hc',
    run_bind (distance_metric_eq_ok.mpr ⟨m, rfl, hm, hmetric⟩), run_bind (run_expect_kind hr)]
  rfl

include hE in
theorem complete_distance {left right : Expr} (hpair : Writes h (.pair left right) ts)
    (hn : ts.length ≤ n) :
    parseDistanceExpr h E (t :: (ts ++ rest)) =
      .ok (.DistanceExpr left right "euclidean", rest) := by
  cases hpair with
  | @pair l c r _ _ ts₁ ts₂ hl hleft hc hright hr =>
      simp only [length_append, length_cons] at hn
      have h₁ := hE ts₁ left (c :: (ts₂ ++ r :: rest)) ⟨hleft, by omega⟩
        (follow_of_kind (Or.inr hc))
      have h₂ := hE ts₂ right (r :: rest) ⟨hright, by omega⟩ (follow_of_kind (Or.inl hr))
      have hused : t :: (l :: ts₁ ++ c :: ts₂ ++ [r] ++ rest) =
          t :: l :: (ts₁ ++ c :: (ts₂ ++ r :: rest)) := by simp
      have hne : r.kind ≠ .COMMA := by
        rw [hr]
        decide
      rw [hused, parseDistanceExpr, run_bind run_advance, run_bind (run_expect_kind hl),
        run_bind h₁, run_bind (run_expect_kind hc), run_bind h₂, run_match_kind, if_neg hne,
        run_bind (run_expect_kind hr)]
      rfl

include hE in
theorem complete_function {arg : Expr} (hl : l.kind = .LPAREN)
    (harg : WritesAt h .disjunction arg ts) (hr : r.kind = .RPAREN)
    (hn : (t :: l :: ts ++ [r]).length ≤ n) :
    parseFunctionCall E (t :: l :: (ts ++ r :: rest)) =
      .ok (.FunctionExpr t.value (some arg) false, rest) := by
  simp only [length_append, length_cons] at hn
  have hexpr := hE ts arg (r :: rest) ⟨harg, by omega⟩ (follow_of_kind (Or.inl hr))
  obtain ⟨first, more, rfl, hdistinct, hstar⟩ := first_of_writes harg
  rw [cons_append] at hexpr ⊢
  rw [parseFunctionCall, run_bind run_advance, run_bind (run_expect_kind hl),
    run_match_keyword_bind, hdistinct, if_neg Bool.false_ne_true, run_bind run_check_kind,
    if_neg (by simpa using hstar), run_bind hexpr, run_bind (run_expect_kind hr)]
  rfl

include hE in
theorem complete_distinct_function {d : Token} {arg : Expr} (hl : l.kind = .LPAREN)
    (hdistinct : isKeyword d "DISTINCT" = true) (harg : WritesAt h .disjunction arg ts)
    (hr : r.kind = .RPAREN) (hn : (t :: l :: d :: ts ++ [r]).length ≤ n) :
    parseFunctionCall E (t :: l :: d :: (ts ++ r :: rest)) =
      .ok (.FunctionExpr t.value (some arg) true, rest) := by
  simp only [length_append, length_cons] at hn
  have hexpr := hE ts arg (r :: rest) ⟨harg, by omega⟩ (follow_of_kind (Or.inl hr))
  obtain ⟨first, more, rfl, _, hstar⟩ := first_of_writes harg
  rw [cons_append] at hexpr ⊢
  rw [parseFunctionCall, run_bind run_advance, run_bind (run_expect_kind hl),
    run_match_keyword_bind, if_pos hdistinct, run_bind run_check_kind,
    if_neg (by simpa using hstar), run_bind hexpr, run_bind (run_expect_kind hr)]
  rfl

include hE hS in
theorem complete_primary :
    Complete (parsePrimary h E) (WritesWithin h n .primary) (Follow .primary) := by
  rintro used e rest ⟨hused, hn⟩ ⟨next, more, rfl, hnext⟩
  cases hused with
  | @number t value hkind hvalue =>
      rw [singleton_append, parsePrimary, run_bind run_peek, run_bind run_checks_lparen_next,
        run_match_kind, if_pos hkind, run_bind (run_lift hvalue)]
      rfl
  | @string t hkind =>
      rw [singleton_append, parsePrimary, run_bind run_peek, run_bind run_checks_lparen_next,
        run_match_kind, if_neg (by rw [hkind]; decide), run_match_kind, if_pos hkind]
      rfl
  | @parameter t index hkind hvalue hindex =>
      rw [singleton_append, parsePrimary, run_bind run_peek, run_bind run_checks_lparen_next,
        run_match_kind, if_neg (by rw [hkind]; decide), run_match_kind,
        if_neg (by rw [hkind]; decide), if_pos hkind, run_bind run_advance,
        run_bind (run_lift hvalue), if_neg hindex]
      rfl
  | @trueLiteral t hword =>
      have hkind := (is_keyword_iff.mp hword).1
      rw [singleton_append, parsePrimary, run_bind run_peek, run_bind run_checks_lparen_next,
        run_match_kind, if_neg (by rw [hkind]; decide), run_match_kind,
        if_neg (by rw [hkind]; decide), if_neg (by rw [hkind]; decide), run_match_keyword,
        if_pos hword]
      rfl
  | @falseLiteral t hword =>
      have hkind := (is_keyword_iff.mp hword).1
      rw [singleton_append, parsePrimary, run_bind run_peek, run_bind run_checks_lparen_next,
        run_match_kind, if_neg (by rw [hkind]; decide), run_match_kind,
        if_neg (by rw [hkind]; decide), if_neg (by rw [hkind]; decide), run_match_keyword,
        not_keyword_of_keyword hword (by decide), if_neg Bool.false_ne_true, run_match_keyword,
        if_pos hword]
      rfl
  | @null t hkind =>
      have hk : t.kind ≠ .KEYWORD := by
        rw [hkind]
        decide
      rw [singleton_append, parsePrimary, run_bind run_peek, run_bind run_checks_lparen_next,
        run_match_kind, if_neg (by rw [hkind]; decide), run_match_kind,
        if_neg (by rw [hkind]; decide), if_neg (by rw [hkind]; decide), run_match_keyword,
        is_keyword_of_kind hk, if_neg Bool.false_ne_true, run_match_keyword, is_keyword_of_kind hk,
        if_neg Bool.false_ne_true, run_match_kind, if_pos hkind]
      rfl
  | @column t hkind =>
      have hk : t.kind ≠ .KEYWORD := by
        rw [hkind]
        decide
      have hcall : lparenFirst (next :: more) = false := hnext
      rw [singleton_append, primary_name (Or.inl hkind) (is_keyword_of_kind hk _)
        (is_keyword_of_kind hk _), hcall, name_column hkind]
  | group hl hinner hr => exact complete_group hE hl hinner hr hn
  | score hword hl hr =>
      exact (primary_score hword hl).trans (complete_no_arguments hl hr)
  | similarityScore hword hl hr =>
      exact (primary_similarity_score hword hl).trans (complete_no_arguments hl hr)
  | @similarTo t l c k eq m r reference count ts hword hl hsource hc hk heq hm hcount hr =>
      have hused : t :: l :: ts ++ [c, k, eq, m, r] ++ next :: more =
          t :: l :: (ts ++ c :: k :: eq :: m :: r :: next :: more) := by simp
      rw [hused, primary_similar_to hword hl]
      exact complete_similar_to hE hl hsource hc hk heq hm hcount hr hn
  | @search t column query ts hword hpair =>
      rw [length_cons] at hn
      have hcall : parseSearchExpr E (t :: (ts ++ next :: more)) = .ok (_, next :: more) :=
        complete_column_query hE hpair (by omega)
      cases hpair with
      | pair hl => exact (primary_search hword hl).trans hcall
  | @matchQuery t column query ts hword hpair =>
      rw [length_cons] at hn
      have hcall : parseMatchExpr E (t :: (ts ++ next :: more)) = .ok (_, next :: more) :=
        complete_column_query hE hpair (by omega)
      cases hpair with
      | pair hl => exact (primary_match hword hl).trans hcall
  | @countStar t l s r hword hl hs hr =>
      obtain ⟨hkind, hvalue⟩ := is_keyword_iff.mp hword
      have haggregate : t.value ∈ AGGREGATES := by
        rw [hvalue]
        decide
      have hstar : s.kind ≠ .KEYWORD := by
        rw [hs]
        decide
      have hcount : ¬ (t.value ≠ "COUNT" ∨ false = true) := by simp [hvalue]
      have hused : [t, l, s, r] ++ next :: more = t :: l :: s :: r :: next :: more := rfl
      rw [hused, primary_function ⟨hkind, haggregate⟩ hl, parseFunctionCall,
        run_bind run_advance, run_bind (run_expect_kind hl), run_match_keyword_bind,
        is_keyword_of_kind hstar, if_neg Bool.false_ne_true, run_bind run_check_kind,
        if_pos (decide_eq_true hs), run_bind run_advance, if_neg hcount,
        run_bind (run_expect_kind hr), hvalue]
      rfl
  | @function t l r arg ts hword hl harg hr =>
      have hused : t :: l :: ts ++ [r] ++ next :: more = t :: l :: (ts ++ r :: next :: more) := by
        simp
      rw [hused, primary_function hword hl]
      exact complete_function hE hl harg hr hn
  | @distinctFunction t l d r arg ts hword hl hdistinct harg hr =>
      have hused : t :: l :: d :: ts ++ [r] ++ next :: more =
          t :: l :: d :: (ts ++ r :: next :: more) := by simp
      rw [hused, primary_function hword hl]
      exact complete_distinct_function hE hl hdistinct harg hr hn
  | @point t x y ts hword hpair =>
      rw [length_cons] at hn
      have hcall : parsePointExpr E (t :: (ts ++ next :: more)) =
          .ok (.PointExpr x y, next :: more) :=
        complete_pair_call hE (fun y x => .PointExpr x y) hpair (by omega)
      cases hpair with
      | pair hl => exact (primary_point hword hl).trans hcall
  | @distance t left right ts hword hpair =>
      rw [length_cons] at hn
      have hcall : parseDistanceExpr h E (t :: (ts ++ next :: more)) = .ok (_, next :: more) :=
        complete_distance hE hpair (by omega)
      cases hpair with
      | pair hl => exact (primary_distance hword hl).trans hcall
  | @distanceMetric t l c c' m r left right metric ts₁ ts₂ hword hl hleft hc hright hc' hm
      hmetric hr =>
      have hused : t :: l :: ts₁ ++ c :: ts₂ ++ [c', m, r] ++ next :: more =
          t :: l :: (ts₁ ++ c :: (ts₂ ++ c' :: m :: r :: next :: more)) := by simp
      rw [hused, primary_distance hword hl]
      exact complete_distance_metric hE hl hleft hc hright hc' hm hmetric hr hn
  | @polygon t l r es ts hword hl hvertices hr =>
      have hused : t :: l :: ts ++ [r] ++ next :: more = t :: l :: (ts ++ r :: next :: more) := by
        simp
      rw [length_append, length_cons, length_cons] at hn
      rw [hused, primary_polygon hword hl]
      exact complete_polygon hE hS hl hvertices hr (by omega)
  | @intersects t left right ts hword hpair =>
      rw [length_cons] at hn
      have hcall : parseIntersectsExpr E (t :: (ts ++ next :: more)) =
          .ok (.IntersectsExpr left right, next :: more) :=
        complete_pair_call hE .IntersectsExpr hpair (by omega)
      cases hpair with
      | pair hl => exact (primary_intersects hword hl).trans hcall

/-! ## Arithmetic -/

theorem chain_of_term (hused : WritesAt h .term e used) :
    LeftChain multiplicativeOperator .BinaryExpr (WritesAt h .primary) e used := by
  unfold WritesAt at hused
  generalize hp : Phrase.expr .term e = p at hused
  induction hused generalizing e with
  | term hoperand =>
      cases hp
      exact .operand hoperand
  | multiplicative _ hoperator hright ih =>
      cases hp
      exact .node (ih rfl) hoperator hright
  | _ => cases hp

theorem chain_of_arithmetic (hused : WritesAt h .arithmetic e used) :
    LeftChain additiveOperator .BinaryExpr (WritesAt h .term) e used := by
  unfold WritesAt at hused
  generalize hp : Phrase.expr .arithmetic e = p at hused
  induction hused generalizing e with
  | arithmetic hoperand =>
      cases hp
      exact .operand hoperand
  | additive _ hoperator hright ih =>
      cases hp
      exact .node (ih rfl) hoperator hright
  | _ => cases hp

theorem multiplicative_operator_eq_some (hop : multiplicativeOperator t = some op) :
    t.kind = .OPERATOR ∨ t.kind = .STAR := by
  rw [multiplicativeOperator] at hop
  split at hop
  · next hkind => exact Or.inl hkind.1
  · split at hop
    · next hkind => exact Or.inr hkind
    · cases hop

theorem additive_operator_eq_some :
    additiveOperator t = some op ↔ t.kind = .OPERATOR ∧ t.value ∈ ["+", "-"] ∧ op = t.value := by
  rw [additiveOperator]
  split
  · next hkind =>
      rw [Option.some.injEq]
      exact ⟨fun hop => ⟨hkind.1, hkind.2, hop.symm⟩, fun hop => hop.2.2.symm⟩
  · next hkind => exact iff_of_false (by simp) (fun hop => hkind ⟨hop.1, hop.2.1⟩)

/-- An operator that is no product goes on with no term. -/
theorem multiplicative_operator_of_value (hs : t.kind ≠ .STAR)
    (hvalue : t.value ∉ ["*", "/", "%"]) : multiplicativeOperator t = none := by
  rw [multiplicativeOperator, if_neg (fun hop => hvalue hop.2), if_neg hs]

theorem follow_multiplicative (ts : List Token) (hop : multiplicativeOperator t = some op) :
    Follow .primary (t :: ts) := by
  refine ⟨t, ts, rfl, decide_eq_false ?_⟩
  rcases multiplicative_operator_eq_some hop with hkind | hkind
  · rw [hkind]
    decide
  · rw [hkind]
    decide

theorem follow_additive (ts : List Token) (hop : additiveOperator t = some op) :
    Follow .term (t :: ts) := by
  obtain ⟨hkind, hvalue, _⟩ := additive_operator_eq_some.mp hop
  have hnone : ∀ value ∈ ["+", "-"], value ∉ ["*", "/", "%"] := by decide
  have hs : t.kind ≠ .STAR := by
    rw [hkind]
    decide
  refine ⟨t, ts, rfl, ?_⟩
  simp [continues, hkind, multiplicative_operator_of_value hs (hnone _ hvalue)]

theorem Follow.mono {level' : Level} (hfollow : Follow level rest)
    (hlevel : ∀ t, continues level t = false → continues level' t = false) :
    Follow level' rest := by
  obtain ⟨t, ts, hrest, ht⟩ := hfollow
  exact ⟨t, ts, hrest, hlevel t ht⟩

include hE hS in
theorem complete_term : Complete (parseTerm h E) (WritesWithin h n .term) (Follow .term) := by
  refine (Parsing.left_chain_complete (sound_primary hS) (complete_primary hE hS)
    (fun t op ts hop => follow_multiplicative ts hop)).mono ?_ ?_
  · rintro e used ⟨hused, hn⟩
    exact (chain_of_term hused).bounded hn
  · intro rest hfollow
    refine ⟨hfollow.mono (fun t ht => ?_), ?_⟩
    · exact (Bool.or_eq_false_iff.mp ht).1
    · obtain ⟨t, ts, hrest, ht⟩ := hfollow
      exact ⟨t, ts, hrest, by simpa using (Bool.or_eq_false_iff.mp ht).2⟩

include hE hS in
theorem complete_arithmetic :
    Complete (parseArithmetic h E) (WritesWithin h n .arithmetic) (Follow .arithmetic) := by
  refine (Parsing.left_chain_complete (sound_term hS) (complete_term hE hS)
    (fun t op ts hop => follow_additive ts hop)).mono ?_ ?_
  · rintro e used ⟨hused, hn⟩
    exact (chain_of_arithmetic hused).bounded hn
  · intro rest hfollow
    refine ⟨hfollow.mono (fun t ht => ?_), ?_⟩
    · exact (Bool.or_eq_false_iff.mp ht).1
    · obtain ⟨t, ts, hrest, ht⟩ := hfollow
      exact ⟨t, ts, hrest, by simpa using (Bool.or_eq_false_iff.mp ht).2⟩

/-! ## Comparisons -/

theorem follow_predicate (ts : List Token)
    (ht : t.kind = .KEYWORD ∨ (t.kind = .OPERATOR ∧ t.value ∈ COMPARISON_OPS)) :
    Follow .arithmetic (t :: ts) := by
  refine ⟨t, ts, rfl, ?_⟩
  rcases ht with hkind | ⟨hkind, hvalue⟩
  · simp [continues, hkind, multiplicativeOperator, additiveOperator]
  · have hnone : ∀ value ∈ COMPARISON_OPS, value ∉ ["*", "/", "%"] ∧ value ∉ ["+", "-"] := by
      decide
    have hs : t.kind ≠ .STAR := by
      rw [hkind]
      decide
    obtain ⟨hproduct, hsum⟩ := hnone _ hvalue
    simp [continues, hkind, multiplicative_operator_of_value hs hproduct, additiveOperator, hsum]

theorem follow_keyword (ts : List Token) (hword : isKeyword t keyword = true) :
    Follow .arithmetic (t :: ts) :=
  follow_predicate ts (Or.inl (is_keyword_iff.mp hword).1)

include hE hS in
theorem complete_items (hitems : Writes h (.items es) ts) (hr : r.kind = .RPAREN)
    (hn : ts.length ≤ n) :
    commaList (parseArithmetic h E) (ts ++ r :: rest) = .ok (es, r :: rest) := by
  have hchain := ((chain_of_items hitems).bounded hn).mono (fun items ts hitem => by
    obtain ⟨⟨e, he, hwrites⟩, hn⟩ := hitem
    exact (⟨e, he, hwrites, hn⟩ : ∃ e, items = [e] ∧ WritesWithin h n .arithmetic e ts))
  refine complete_comma_list (sound_arithmetic hS) (complete_arithmetic hE hS) ?_ hchain hr
    (follow_of_kind (Or.inl hr))
  intro t ts ht
  exact follow_of_kind (Or.inr ht)

theorem predicate_run {value : Expr}
    (hvalue : parseArithmetic h E (used ++ t :: rest) = .ok (value, t :: rest)) :
    parsePredicate h E (used ++ t :: rest) =
      if isKeyword t "IS" = true then
        (matchKeyword "NOT" >>= fun negated => expectKind .NULL >>= fun _ =>
          pure (.IsNullExpr value negated)) rest
      else if t.kind = .OPERATOR ∧ t.value ∈ COMPARISON_OPS then
        (parseArithmetic h E >>= fun right => pure (.CompareExpr value t.value right)) rest
      else if isKeyword t "BETWEEN" = true then
        (parseArithmetic h E >>= fun lo => expectKeyword "AND" >>= fun _ =>
          parseArithmetic h E >>= fun hi => pure (.BetweenExpr value lo hi)) rest
      else if isKeyword t "IN" = true then
        (expectKind .LPAREN >>= fun _ => commaList (parseArithmetic h E) >>= fun items =>
          expectKind .RPAREN >>= fun _ => pure (.InExpr value items)) rest
      else if isKeyword t "LIKE" = true then
        (parseArithmetic h E >>= fun pattern => pure (.LikeExpr value pattern)) rest
      else .ok (value, t :: rest) := by
  rw [parsePredicate, run_bind hvalue, run_bind run_peek, run_match_keyword]
  refine if_congr Iff.rfl rfl ?_
  by_cases hcompare : t.kind = .OPERATOR ∧ t.value ∈ COMPARISON_OPS
  · rw [if_pos hcompare, if_pos hcompare, run_bind run_advance]
  · rw [if_neg hcompare, if_neg hcompare, run_match_keyword]
    refine if_congr Iff.rfl rfl ?_
    rw [run_match_keyword]
    refine if_congr Iff.rfl rfl ?_
    rw [run_match_keyword]
    rfl

include hE hS in
theorem complete_predicate :
    Complete (parsePredicate h E) (WritesWithin h n .predicate) (Follow .predicate) := by
  have harith := complete_arithmetic hE hS
  rintro used e rest ⟨hused, hn⟩ hfollow
  have hrest : Follow .arithmetic rest :=
    hfollow.mono (fun t ht => (Bool.or_eq_false_iff.mp ht).1)
  unfold WritesAt at hused
  cases hused with
  | predicate hoperand =>
      obtain ⟨t, ts, rfl, ht⟩ := hfollow
      have hnone := (Bool.or_eq_false_iff.mp ht).2
      simp only [continuesPredicate, Bool.or_eq_false_iff, decide_eq_false_iff_not] at hnone
      obtain ⟨⟨⟨⟨his, hcompare⟩, hbetween⟩, hin⟩, hlike⟩ := hnone
      rw [predicate_run (harith used e _ ⟨hoperand, hn⟩ hrest), his, if_neg Bool.false_ne_true,
        if_neg hcompare, hbetween, if_neg Bool.false_ne_true, hin, if_neg Bool.false_ne_true, hlike,
        if_neg Bool.false_ne_true]
  | @isNull i m e ts hvalue hword hkind =>
      rw [length_append] at hn
      have hk : m.kind ≠ .KEYWORD := by
        rw [hkind]
        decide
      have hused : ts ++ [i, m] ++ rest = ts ++ i :: m :: rest := by simp
      rw [hused, predicate_run (harith ts e _ ⟨hvalue, by omega⟩ (follow_keyword _ hword)),
        if_pos hword, run_match_keyword_bind, is_keyword_of_kind hk, if_neg Bool.false_ne_true,
        run_bind (run_expect_kind hkind)]
      rfl
  | @isNotNull i o m e ts hvalue hword hnot hkind =>
      rw [length_append] at hn
      have hused : ts ++ [i, o, m] ++ rest = ts ++ i :: o :: m :: rest := by simp
      rw [hused, predicate_run (harith ts e _ ⟨hvalue, by omega⟩ (follow_keyword _ hword)),
        if_pos hword, run_match_keyword_bind, if_pos hnot, run_bind (run_expect_kind hkind)]
      rfl
  | @compare o left right ts₁ ts₂ hleft hoperator hright =>
      rw [length_append, length_cons] at hn
      have his : isKeyword o "IS" = false :=
        is_keyword_of_kind (by rw [hoperator.1]; decide) _
      have hused : ts₁ ++ o :: ts₂ ++ rest = ts₁ ++ o :: (ts₂ ++ rest) := by simp
      rw [hused, predicate_run (harith ts₁ left _ ⟨hleft, by omega⟩
          (follow_predicate _ (Or.inr hoperator))), his, if_neg Bool.false_ne_true,
        if_pos hoperator, run_bind (harith ts₂ right rest ⟨hright, by omega⟩ hrest)]
      rfl
  | @between b a value lo hi ts₁ ts₂ ts₃ hvalue hword hlo hand hhi =>
      simp only [length_append, length_cons] at hn
      have hoperator : b.kind ≠ .OPERATOR := by
        rw [(is_keyword_iff.mp hword).1]
        decide
      have hused : ts₁ ++ b :: ts₂ ++ a :: ts₃ ++ rest =
          ts₁ ++ b :: (ts₂ ++ a :: (ts₃ ++ rest)) := by simp
      rw [hused, predicate_run (harith ts₁ value _ ⟨hvalue, by omega⟩ (follow_keyword _ hword)),
        not_keyword_of_keyword hword (by decide), if_neg Bool.false_ne_true,
        if_neg (fun hop => hoperator hop.1), if_pos hword,
        run_bind (harith ts₂ lo _ ⟨hlo, by omega⟩ (follow_keyword _ hand)),
        run_bind (run_expect_keyword hand), run_bind (harith ts₃ hi rest ⟨hhi, by omega⟩ hrest)]
      rfl
  | @inList i l r value es ts₁ ts₂ hvalue hword hl hitems hr =>
      simp only [length_append, length_cons] at hn
      have hoperator : i.kind ≠ .OPERATOR := by
        rw [(is_keyword_iff.mp hword).1]
        decide
      have hused : ts₁ ++ i :: l :: ts₂ ++ [r] ++ rest = ts₁ ++ i :: l :: (ts₂ ++ r :: rest) := by
        simp
      rw [hused, predicate_run (harith ts₁ value _ ⟨hvalue, by omega⟩ (follow_keyword _ hword)),
        not_keyword_of_keyword hword (by decide), if_neg Bool.false_ne_true,
        if_neg (fun hop => hoperator hop.1), not_keyword_of_keyword hword (by decide),
        if_neg Bool.false_ne_true, if_pos hword, run_bind (run_expect_kind hl),
        run_bind (complete_items hE hS hitems hr (by omega)), run_bind (run_expect_kind hr)]
      rfl
  | @like l value pattern ts₁ ts₂ hvalue hword hpattern =>
      rw [length_append, length_cons] at hn
      have hoperator : l.kind ≠ .OPERATOR := by
        rw [(is_keyword_iff.mp hword).1]
        decide
      have hused : ts₁ ++ l :: ts₂ ++ rest = ts₁ ++ l :: (ts₂ ++ rest) := by simp
      rw [hused, predicate_run (harith ts₁ value _ ⟨hvalue, by omega⟩ (follow_keyword _ hword)),
        not_keyword_of_keyword hword (by decide), if_neg Bool.false_ne_true,
        if_neg (fun hop => hoperator hop.1), not_keyword_of_keyword hword (by decide),
        if_neg Bool.false_ne_true, not_keyword_of_keyword hword (by decide),
        if_neg Bool.false_ne_true, if_pos hword,
        run_bind (harith ts₂ pattern rest ⟨hpattern, by omega⟩ hrest)]
      rfl

/-! ## NOT, AND and OR -/

/-- The phrases that start with no `NOT`. -/
def BelowNegation : Phrase → Prop
  | .expr level _ => level ≠ .negation ∧ level ≠ .conjunction ∧ level ≠ .disjunction
  | _ => True

/-- The list starts with a token other than `NOT`. -/
def Affirmative (ts : List Token) : Prop :=
  ∃ first more, ts = first :: more ∧ isKeyword first "NOT" = false

theorem Affirmative.append {ts more : List Token} (hts : Affirmative ts) :
    Affirmative (ts ++ more) := by
  obtain ⟨first, rest, rfl, hnot⟩ := hts
  exact ⟨first, rest ++ more, rfl, hnot⟩

theorem affirmative_of_phrase {p : Phrase} (hp : Writes h p ts) (hlow : BelowNegation p) :
    Affirmative ts := by
  induction hp with
  | number kind | string kind | parameter kind | null kind | column kind | group kind
  | pair kind =>
      refine ⟨_, _, rfl, is_keyword_of_kind ?_ _⟩
      rw [kind]
      decide
  | trueLiteral word | falseLiteral word | countStar word | point word | distance word
  | distanceMetric word | polygon word | intersects word =>
      exact ⟨_, _, rfl, not_keyword_of_keyword word (by decide)⟩
  | score word | similarityScore word | similarTo word | search word | matchQuery word =>
      exact ⟨_, _, rfl, not_keyword_of_word word (by decide) (by decide)⟩
  | function word | distinctFunction word =>
      have hne : ∀ name ∈ AGGREGATES, name ≠ "NOT" := by decide
      exact ⟨_, _, rfl, not_keyword_of_keyword (decide_eq_true ⟨word.1, rfl⟩) (hne _ word.2)⟩
  | firstVertex _ ih => exact ih trivial
  | firstItem _ ih | term _ ih | arithmetic _ ih | predicate _ ih =>
      exact ih ⟨by decide, by decide, by decide⟩
  | nextVertex _ _ _ ih | nextItem _ _ _ ih => exact (ih trivial).append
  | multiplicative _ _ _ ih | additive _ _ _ ih | compare _ _ _ ih | like _ _ _ ih
  | isNull _ _ _ ih | isNotNull _ _ _ _ ih =>
      exact (ih ⟨by decide, by decide, by decide⟩).append
  | between _ _ _ _ _ ih | inList _ _ _ _ _ ih =>
      exact (ih ⟨by decide, by decide, by decide⟩).append.append
  | negation | not => exact absurd rfl hlow.1
  | conjunction | and => exact absurd rfl hlow.2.1
  | disjunction | or => exact absurd rfl hlow.2.2

include hE hS in
theorem complete_not :
    Complete (parseNot h E) (WritesWithin h n .negation) (Follow .negation) := by
  intro used
  induction used with
  | nil =>
      rintro e rest ⟨hused, _⟩ _
      obtain ⟨_, _, hnil, _⟩ := first_of_writes hused
      cases hnil
  | cons t ts ih =>
      rintro e rest ⟨hused, hn⟩ hfollow
      unfold WritesAt at hused
      generalize hts : t :: ts = used at hused
      cases hused with
      | negation hoperand =>
          obtain ⟨first, more, rfl, hnot⟩ :=
            affirmative_of_phrase hoperand ⟨by decide, by decide, by decide⟩
          obtain ⟨rfl, rfl⟩ := List.cons.inj hts
          rw [cons_append, parseNot, hnot, if_neg Bool.false_ne_true]
          exact complete_predicate hE hS _ e rest ⟨hoperand, hn⟩ hfollow
      | not hword hoperand =>
          obtain ⟨rfl, rfl⟩ := List.cons.inj hts
          rw [length_cons] at hn
          rw [cons_append, parseNot, if_pos hword,
            ih _ rest ⟨hoperand, by omega⟩ hfollow, ok_bind]

theorem chain_of_conjunction (hused : WritesAt h .conjunction e used) :
    LeftChain (keywordOperator "AND") .LogicalExpr (WritesAt h .negation) e used := by
  unfold WritesAt at hused
  generalize hp : Phrase.expr .conjunction e = p at hused
  induction hused generalizing e with
  | conjunction hoperand =>
      cases hp
      exact .operand hoperand
  | and _ hword hright ih =>
      cases hp
      exact .node (ih rfl) (keyword_operator_eq_some.mpr ⟨hword, rfl⟩) hright
  | _ => cases hp

theorem chain_of_disjunction (hused : WritesAt h .disjunction e used) :
    LeftChain (keywordOperator "OR") .LogicalExpr (WritesAt h .conjunction) e used := by
  unfold WritesAt at hused
  generalize hp : Phrase.expr .disjunction e = p at hused
  induction hused generalizing e with
  | disjunction hoperand =>
      cases hp
      exact .operand hoperand
  | or _ hword hright ih =>
      cases hp
      exact .node (ih rfl) (keyword_operator_eq_some.mpr ⟨hword, rfl⟩) hright
  | _ => cases hp

theorem keyword_operator_eq_none (hkeyword : isKeyword t keyword = false) :
    keywordOperator keyword t = none :=
  if_neg (of_decide_eq_false hkeyword)

/-- A logical operator does not go on with its left operand. -/
theorem follow_logical (ts : List Token) (hword : isKeyword t keyword = true)
    (hne : keyword ∉ ["IS", "BETWEEN", "IN", "LIKE"]) :
    Follow .negation (t :: ts) := by
  obtain ⟨hkind, rfl⟩ := is_keyword_iff.mp hword
  simp only [mem_cons, not_or, not_mem_nil, not_false_eq_true, and_true] at hne
  refine ⟨t, ts, rfl, ?_⟩
  simp [continues, continuesPredicate, hkind, multiplicativeOperator, additiveOperator,
    isKeyword, hne]

include hE hS in
theorem complete_and :
    Complete (parseAnd h E) (WritesWithin h n .conjunction) (Follow .conjunction) := by
  refine (Parsing.left_chain_complete (sound_not hS) (complete_not hE hS)
    (fun t op ts hop =>
      follow_logical ts (keyword_operator_eq_some.mp hop).1 (by decide))).mono ?_ ?_
  · rintro e used ⟨hused, hn⟩
    exact (chain_of_conjunction hused).bounded hn
  · intro rest hfollow
    refine ⟨hfollow.mono (fun t ht => (Bool.or_eq_false_iff.mp ht).1), ?_⟩
    obtain ⟨t, ts, hrest, ht⟩ := hfollow
    exact ⟨t, ts, hrest, keyword_operator_eq_none (Bool.or_eq_false_iff.mp ht).2⟩

/-- `OR` does not go on with a conjunction. -/
theorem follow_or (ts : List Token) (hword : isKeyword t "OR" = true) :
    Follow .conjunction (t :: ts) := by
  obtain ⟨t, ts, hts, ht⟩ := follow_logical ts hword (by decide)
  cases hts
  exact ⟨t, ts, rfl, Bool.or_eq_false_iff.mpr ⟨ht, not_keyword_of_keyword hword (by decide)⟩⟩

include hE hS in
theorem complete_or :
    Complete (parseOr h E) (WritesWithin h n .disjunction) (Follow .disjunction) := by
  refine (Parsing.left_chain_complete (sound_and hS) (complete_and hE hS)
    (fun t op ts hop => follow_or ts (keyword_operator_eq_some.mp hop).1)).mono ?_ ?_
  · rintro e used ⟨hused, hn⟩
    exact (chain_of_disjunction hused).bounded hn
  · intro rest hfollow
    refine ⟨hfollow.mono (fun t ht => (Bool.or_eq_false_iff.mp ht).1), ?_⟩
    obtain ⟨t, ts, hrest, ht⟩ := hfollow
    exact ⟨t, ts, hrest, keyword_operator_eq_none (Bool.or_eq_false_iff.mp ht).2⟩

end Completeness

theorem complete_parse_expression (h : Host) (fuel : Nat) :
    Complete (parseExpression h fuel)
      (fun e ts => WritesAt h .disjunction e ts ∧ ts.length < fuel) (Follow .disjunction) := by
  induction fuel with
  | zero =>
      rintro used e rest ⟨_, hn⟩ _
      exact absurd hn (Nat.not_lt_zero _)
  | succ fuel ih =>
      rintro used e rest ⟨hused, hn⟩ hfollow
      exact complete_or ih (sound_parse_expression h fuel) used e rest
        ⟨hused, Nat.le_of_lt_succ hn⟩ hfollow

theorem complete_expression (h : Host) :
    Complete (expression h) (WritesAt h .disjunction) (Follow .disjunction) := by
  intro used e rest hused hfollow
  refine complete_parse_expression h _ used e rest ⟨hused, ?_⟩ hfollow
  rw [length_append]
  omega

end SoupDB.Parser
