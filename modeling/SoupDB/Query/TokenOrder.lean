import SoupDB.Query.Precedence
import Mathlib.Data.List.Chain

/-!
# SoupDB: the order of the tokens of an expression

Two operands never stand next to each other, nor do two operators, and the integers are within
the limit of the host language.

Main facts: `orderly_of_writes`, `short_of_writes` and `writes_of_short`.
-/

namespace SoupDB.Parser

open List

/-- A token that can end an expression. -/
def closes (t : Token) : Bool :=
  t.kind = .NUMBER || t.kind = .STRING || t.kind = .PARAMETER || t.kind = .IDENTIFIER ||
    t.kind = .NULL || t.kind = .RPAREN || isKeyword t "TRUE" || isKeyword t "FALSE"

/-- What is known of two tokens in a row. -/
structure Beside (h : Host) (a b : Token) : Prop where
  operand : b.kind = .NUMBER ∨ b.kind = .STRING → closes a = false
  operator : a.kind = .OPERATOR → b.kind ≠ .OPERATOR
  minus : b.kind = .OPERATOR → b.value = "-" → closes a = true
  name : a.kind = .IDENTIFIER → h.upper a.value = "DISTANCIA" → b.kind ≠ .LPAREN
  call : isKeyword a "DISTANCE" = true → b.kind = .LPAREN

/-- The tokens of an expression. -/
structure Orderly (h : Host) (ts : List Token) : Prop where
  chain : ts.IsChain (Beside h)
  nonempty : ts ≠ []
  first : ∀ t ∈ ts.head?, t.kind ≠ .OPERATOR
  last : ∀ t ∈ ts.getLast?, closes t = true
  plain : ∀ t ∈ ts, t.kind ≠ .EOF ∧ t.kind ≠ .SEMICOLON

/-- A token that never ends an expression. -/
structure Inner (t : Token) : Prop where
  closes : closes t = false
  distance : isKeyword t "DISTANCE" = false
  plain : t.kind ≠ .EOF ∧ t.kind ≠ .SEMICOLON

section Tokens

variable {h : Host} {a b o t : Token} {ts ts₁ ts₂ : List Token}

theorem closes_kind (ht : closes t = true) :
    t.kind ∈ [TokenKind.NUMBER, .STRING, .PARAMETER, .IDENTIFIER, .NULL, .RPAREN, .KEYWORD] := by
  simp only [closes, Bool.or_eq_true, decide_eq_true_eq, is_keyword_iff] at ht
  simp only [mem_cons, not_mem_nil, or_false]
  tauto

theorem closes_of_kind
    (hkind : t.kind ∈ [TokenKind.NUMBER, .STRING, .PARAMETER, .IDENTIFIER, .NULL, .RPAREN]) :
    closes t = true := by
  simp only [mem_cons, not_mem_nil, or_false] at hkind
  simp only [closes, Bool.or_eq_true, decide_eq_true_eq]
  tauto

theorem closes_plain (ht : closes t = true) :
    t.kind ≠ .OPERATOR ∧ t.kind ≠ .EOF ∧ t.kind ≠ .SEMICOLON := by
  have hmem := closes_kind ht
  refine ⟨?_, ?_, ?_⟩ <;>
    · intro hkind
      rw [hkind] at hmem
      exact absurd hmem (by decide)

theorem not_distance_of_closes (ht : closes t = true) : isKeyword t "DISTANCE" = false := by
  cases hcall : isKeyword t "DISTANCE" with
  | false => rfl
  | true =>
      obtain ⟨hkind, hvalue⟩ := is_keyword_iff.mp hcall
      simp [closes, isKeyword, hkind, hvalue] at ht

theorem inner_of_kind (hkind : t.kind ∈ [TokenKind.OPERATOR, .STAR, .COMMA, .LPAREN]) : Inner t :=
    by
  have hne : ∀ kind, kind ∉ [TokenKind.OPERATOR, .STAR, .COMMA, .LPAREN] → t.kind ≠ kind :=
    fun kind hnot heq => hnot (heq ▸ hkind)
  have hkeyword : t.kind ≠ .KEYWORD := hne _ (by decide)
  refine ⟨?_, ?_, hne _ (by decide), hne _ (by decide)⟩
  · simp only [closes, isKeyword, hne .NUMBER (by decide), hne .STRING (by decide),
      hne .PARAMETER (by decide), hne .IDENTIFIER (by decide), hne .NULL (by decide),
      hne .RPAREN (by decide), hkeyword, false_and, decide_false, Bool.or_false]
  · simp only [isKeyword, hkeyword, false_and, decide_false]

theorem inner_of_keyword {keyword : String} (hword : isKeyword t keyword = true)
    (hnone : keyword ∉ ["TRUE", "FALSE", "DISTANCE"]) : Inner t := by
  obtain ⟨hkind, rfl⟩ := is_keyword_iff.mp hword
  simp only [mem_cons, not_mem_nil, or_false, not_or] at hnone
  refine ⟨?_, ?_, ?_, ?_⟩ <;> simp [closes, isKeyword, hkind, hnone]

theorem Inner.kind_not_mem (ht : Inner t) (hlparen : t.kind ≠ .LPAREN) :
    t.kind ∉ [TokenKind.NUMBER, .STRING, .LPAREN] := by
  have hcloses : ∀ kind ∈ [TokenKind.NUMBER, .STRING], t.kind ≠ kind := by
    intro kind hkind heq
    have hmem : ∀ kind ∈ [TokenKind.NUMBER, .STRING], kind ∈
        [TokenKind.NUMBER, .STRING, .PARAMETER, .IDENTIFIER, .NULL, .RPAREN] := by decide
    have htrue : Parser.closes t = true := closes_of_kind (heq ▸ hmem kind hkind)
    rw [ht.closes] at htrue
    cases htrue
  simp only [mem_cons, not_mem_nil, or_false, not_or]
  exact ⟨hcloses _ (by decide), hcloses _ (by decide), hlparen⟩

theorem Inner.beside (ha : Inner a) (hb : b.kind ≠ .OPERATOR) : Beside h a b where
  operand _ := ha.closes
  operator _ := hb
  minus hkind := absurd hkind hb
  name hkind := by
    have hcloses := closes_of_kind (t := a) (by rw [hkind]; decide)
    rw [ha.closes] at hcloses
    cases hcloses
  call hkind := by
    rw [ha.distance] at hkind
    cases hkind

theorem beside_closes (ha : closes a = true)
    (hb : b.kind ∉ [TokenKind.NUMBER, .STRING, .LPAREN]) : Beside h a b where
  operand hkind := by
    rcases hkind with hkind | hkind <;>
      · rw [hkind] at hb
        exact absurd (by decide) hb
  operator hkind := absurd hkind (closes_plain ha).1
  minus _ _ := ha
  name _ _ hkind := by
    rw [hkind] at hb
    exact hb (by decide)
  call hkind := by
    rw [not_distance_of_closes ha] at hkind
    cases hkind

namespace Orderly

theorem single (ht : closes t = true) : Orderly h [t] where
  chain := isChain_singleton t
  nonempty := cons_ne_nil _ _
  first := by
    rintro _ ⟨⟩
    exact (closes_plain ht).1
  last := by
    rintro _ ⟨⟩
    exact ht
  plain := by
    intro t' ht'
    rw [mem_singleton.mp ht']
    exact (closes_plain ht).2

theorem beside (ht : t.kind ≠ .OPERATOR) (hplain : t.kind ≠ .EOF ∧ t.kind ≠ .SEMICOLON)
    (hnext : ∀ b ∈ ts.head?, Beside h t b) (hts : Orderly h ts) : Orderly h (t :: ts) where
  chain := isChain_cons.mpr ⟨hnext, hts.chain⟩
  nonempty := cons_ne_nil _ _
  first := by
    rintro _ ⟨⟩
    exact ht
  last := by
    rw [getLast?_cons_of_ne_nil hts.nonempty]
    exact hts.last
  plain := forall_mem_cons.mpr ⟨hplain, hts.plain⟩

theorem cons (ha : Inner a) (hoperator : a.kind ≠ .OPERATOR) (hts : Orderly h ts) :
    Orderly h (a :: ts) :=
  hts.beside hoperator ha.plain (fun b hb => ha.beside (hts.first b hb))

theorem join (hts₁ : Orderly h ts₁) (ho : Inner o) (hlparen : o.kind ≠ .LPAREN)
    (hts₂ : Orderly h ts₂) : Orderly h (ts₁ ++ o :: ts₂) where
  chain := by
    rw [isChain_append]
    refine ⟨hts₁.chain, isChain_cons.mpr ⟨?_, hts₂.chain⟩, ?_⟩
    · exact fun b hb => ho.beside (hts₂.first b hb)
    · rintro x hx _ ⟨⟩
      exact beside_closes (hts₁.last x hx) (ho.kind_not_mem hlparen)
  nonempty := by simp
  first := by
    rw [head?_append_of_ne_nil _ hts₁.nonempty]
    exact hts₁.first
  last := by
    rw [getLast?_append_of_ne_nil _ (cons_ne_nil _ _),
      getLast?_cons_of_ne_nil hts₂.nonempty]
    exact hts₂.last
  plain := by
    rw [forall_mem_append, forall_mem_cons]
    exact ⟨hts₁.plain, ho.plain, hts₂.plain⟩

theorem close (hts : Orderly h ts) (ht : t.kind = .RPAREN) : Orderly h (ts ++ [t]) where
  chain := by
    rw [isChain_append]
    refine ⟨hts.chain, isChain_singleton t, ?_⟩
    rintro x hx _ ⟨⟩
    refine beside_closes (hts.last x hx) ?_
    rw [ht]
    decide
  nonempty := by simp
  first := by
    rw [head?_append_of_ne_nil _ hts.nonempty]
    exact hts.first
  last := by
    have hcloses : closes t = true := closes_of_kind (by rw [ht]; decide)
    rw [getLast?_append_of_ne_nil _ (cons_ne_nil _ _)]
    rintro _ ⟨⟩
    exact hcloses
  plain := by
    rw [forall_mem_append, forall_mem_singleton, ht]
    exact ⟨hts.plain, by decide, by decide⟩

/-- A name before the parenthesis of its arguments. -/
theorem call (hkind : t.kind = .IDENTIFIER ∨ t.kind = .KEYWORD)
    (hname : h.upper t.value ≠ "DISTANCIA") (hts : Orderly h ts)
    (hfirst : ∀ b ∈ ts.head?, b.kind = .LPAREN) : Orderly h (t :: ts) := by
  have hne : ∀ kind, kind ≠ .IDENTIFIER → kind ≠ .KEYWORD → t.kind ≠ kind := by
    rintro kind hi hk rfl
    exact hkind.elim hi hk
  refine hts.beside (hne _ (by decide) (by decide)) ⟨hne _ (by decide) (by decide),
    hne _ (by decide) (by decide)⟩ ?_
  intro b hb
  have hlparen := hfirst b hb
  refine ⟨?_, ?_, ?_, ?_, ?_⟩
  · rw [hlparen]
    rintro (hkind | hkind) <;> cases hkind
  · exact fun hoperator => absurd hoperator (hne _ (by decide) (by decide))
  · rw [hlparen]
    intro hoperator
    cases hoperator
  · exact fun _ hupper => absurd hupper hname
  · exact fun _ => hlparen

theorem word_call {word : String} (hword : isWord h t word = true) (hne : word ≠ "DISTANCIA")
    (hts : Orderly h ts) (hfirst : ∀ b ∈ ts.head?, b.kind = .LPAREN) : Orderly h (t :: ts) := by
  obtain ⟨hkind, hupper⟩ := is_word_iff.mp hword
  exact hts.call hkind (hupper ▸ hne) hfirst

theorem keyword_call (hkind : t.kind = .KEYWORD) (hmem : t.value ∈ Lexer.KEYWORDS)
    (hts : Orderly h ts) (hfirst : ∀ b ∈ ts.head?, b.kind = .LPAREN) : Orderly h (t :: ts) := by
  refine hts.call (Or.inr hkind) ?_ hfirst
  rw [upper_keyword hmem]
  intro heq
  rw [heq] at hmem
  exact absurd hmem (by decide)

end Orderly

end Tokens

def PhraseOrder (h : Host) (p : Phrase) (ts : List Token) : Prop :=
  Orderly h ts ∧ ∀ first second, p = .pair first second → ∀ t ∈ ts.head?, t.kind = .LPAREN

section Order

variable {h : Host} {p : Phrase} {ts : List Token}

theorem operator_inner {o : Token} {op : String} (hop : multiplicativeOperator o = some op) :
    Inner o ∧ o.kind ≠ .LPAREN := by
  have hkind : o.kind = .OPERATOR ∨ o.kind = .STAR := by
    rw [multiplicativeOperator] at hop
    split at hop
    · next hoperator => exact Or.inl hoperator.1
    · split at hop
      · next hstar => exact Or.inr hstar
      · cases hop
  rcases hkind with hkind | hkind <;>
    exact ⟨inner_of_kind (by rw [hkind]; decide), by rw [hkind]; decide⟩

theorem additive_inner {o : Token} {op : String} (hop : additiveOperator o = some op) :
    Inner o ∧ o.kind ≠ .LPAREN := by
  rw [additiveOperator] at hop
  split at hop
  · next hoperator =>
      have hkind := hoperator.1
      exact ⟨inner_of_kind (by rw [hkind]; decide), by rw [hkind]; decide⟩
  · cases hop

theorem comma_inner {c : Token} (hkind : c.kind = .COMMA) : Inner c ∧ c.kind ≠ .LPAREN :=
  ⟨inner_of_kind (by rw [hkind]; decide), by rw [hkind]; decide⟩

theorem lparen_inner {l : Token} (hkind : l.kind = .LPAREN) : Inner l ∧ l.kind ≠ .OPERATOR :=
  ⟨inner_of_kind (by rw [hkind]; decide), by rw [hkind]; decide⟩

theorem keyword_inner {t : Token} {keyword : String} (hword : isKeyword t keyword = true)
    (hnone : keyword ∉ ["TRUE", "FALSE", "DISTANCE"]) :
    Inner t ∧ t.kind ≠ .LPAREN ∧ t.kind ≠ .OPERATOR := by
  refine ⟨inner_of_keyword hword hnone, ?_, ?_⟩ <;>
    · rw [(is_keyword_iff.mp hword).1]
      decide

/-- `( ... )`. -/
theorem Orderly.parentheses {l r : Token} (hl : l.kind = .LPAREN) (hts : Orderly h ts)
    (hr : r.kind = .RPAREN) : Orderly h (l :: ts ++ [r]) :=
  (hts.cons (lparen_inner hl).1 (lparen_inner hl).2).close hr

variable {level : Level} {e : Expr}

theorem orderExpr (hts : Orderly h ts) :
    PhraseOrder h (.expr level e) ts := ⟨hts, fun _ _ heq => nomatch heq⟩

theorem order_single {t : Token}
    (hkind : t.kind ∈ [TokenKind.NUMBER, .STRING, .PARAMETER, .IDENTIFIER, .NULL, .RPAREN]) :
    PhraseOrder h (.expr level e) [t] := orderExpr (.single (closes_of_kind hkind))

/-- `name()`. -/
theorem order_no_arguments {word : String} {t l r : Token} (hword : isWord h t word = true)
    (hne : word ≠ "DISTANCIA") (hl : l.kind = .LPAREN) (hr : r.kind = .RPAREN) :
    PhraseOrder h (.expr .primary e) [t, l, r] := by
  have hclose : Orderly h [r] := .single (closes_of_kind (by rw [hr]; decide))
  refine orderExpr (((hclose.cons (lparen_inner hl).1 (lparen_inner hl).2)).word_call hword hne ?_)
  rintro _ ⟨⟩
  exact hl

theorem aggregate_keyword {name : String} (hmem : name ∈ AGGREGATES) : name ∈ Lexer.KEYWORDS := by
  have hall : ∀ name ∈ AGGREGATES, name ∈ Lexer.KEYWORDS := by decide
  exact hall name hmem

theorem order_named {k eq n r : Token} (hk : isWord h k "K" = true)
    (heq : eq.kind = .OPERATOR ∧ eq.value = "=") (hn : n.kind = .NUMBER) (hr : r.kind = .RPAREN) :
    Orderly h [k, eq, n, r] := by
  obtain ⟨hkind, hupper⟩ := is_word_iff.mp hk
  have hne : ∀ kind, kind ≠ .IDENTIFIER → kind ≠ .KEYWORD → k.kind ≠ kind := by
    rintro kind hi hk' rfl
    exact hkind.elim hi hk'
  have hnumber : Orderly h [n] := .single (closes_of_kind (by rw [hn]; decide))
  have hclosed := hnumber.close hr
  have hequals : Inner eq := inner_of_kind (by rw [heq.1]; decide)
  have hname : Beside h k eq := by
    refine ⟨?_, ?_, ?_, ?_, ?_⟩
    · rw [heq.1]
      rintro (hkind | hkind) <;> cases hkind
    · exact fun hoperator => absurd hoperator (hne _ (by decide) (by decide))
    · intro _ hvalue
      rw [heq.2] at hvalue
      exact absurd hvalue (by decide)
    · intro _ hdistancia
      rw [hupper] at hdistancia
      exact absurd hdistancia (by decide)
    · intro hdistance
      rw [not_keyword_of_word hk (by decide) (by decide)] at hdistance
      cases hdistance
  refine ⟨?_, cons_ne_nil _ _, ?_, hclosed.last, ?_⟩
  · refine isChain_cons.mpr ⟨?_, isChain_cons.mpr ⟨?_, hclosed.chain⟩⟩
    · rintro _ ⟨⟩
      exact hname
    · rintro _ ⟨⟩
      exact hequals.beside (by rw [hn]; decide)
  · rintro _ ⟨⟩
    exact hne _ (by decide) (by decide)
  · refine forall_mem_cons.mpr ⟨⟨hne _ (by decide) (by decide),
      hne _ (by decide) (by decide)⟩, forall_mem_cons.mpr ⟨hequals.plain, hclosed.plain⟩⟩

theorem writes_order (hwrites : Writes h p ts) : PhraseOrder h p ts := by
  induction hwrites with
  | number kind _ | string kind | parameter kind _ _ | null kind | column kind =>
      exact order_single (by rw [kind]; decide)
  | trueLiteral word | falseLiteral word =>
      exact orderExpr (.single (by simp [closes, word]))
  | group left _ right ih => exact orderExpr (ih.1.parentheses left right)
  | @pair l c r _ _ ts₁ ts₂ left _ sep _ right ih₁ ih₂ =>
      refine ⟨?_, ?_⟩
      · have hinner := ih₁.1.join (comma_inner sep).1 (comma_inner sep).2 ih₂.1
        have hts : l :: ts₁ ++ c :: ts₂ ++ [r] = l :: (ts₁ ++ c :: ts₂) ++ [r] := by simp
        rw [hts]
        exact hinner.parentheses left right
      · rintro _ _ _ _ ⟨⟩
        exact left
  | score word left right | similarityScore word left right =>
      exact order_no_arguments word (by decide) left right
  | @similarTo t l c k eq n r _ _ ts word left _ sep hk heq hn _ right ih =>
      have hinner := ih.1.join (comma_inner sep).1 (comma_inner sep).2
        (order_named hk heq hn.1 right)
      refine orderExpr (Orderly.word_call word (by decide)
        (hinner.cons (lparen_inner left).1 (lparen_inner left).2) ?_)
      rintro _ ⟨⟩
      exact left
  | search word _ ih | matchQuery word _ ih =>
      exact orderExpr (ih.1.word_call word (by decide) (ih.2 _ _ rfl))
  | @countStar t l s r word left star right =>
      have hclose : Orderly h [r] := .single (closes_of_kind (by rw [right]; decide))
      have hstar : Inner s := inner_of_kind (by rw [star]; decide)
      obtain ⟨hkind, hvalue⟩ := is_keyword_iff.mp word
      refine orderExpr (Orderly.keyword_call hkind (by rw [hvalue]; decide)
        ((hclose.cons hstar (by rw [star]; decide)).cons (lparen_inner left).1
          (lparen_inner left).2) ?_)
      rintro _ ⟨⟩
      exact left
  | function word left _ right ih =>
      refine orderExpr (Orderly.keyword_call word.1 (aggregate_keyword word.2)
        (ih.1.parentheses left right) ?_)
      rintro _ ⟨⟩
      exact left
  | distinctFunction word left distinct _ right ih =>
      have hdistinct := keyword_inner distinct (by decide)
      refine orderExpr (Orderly.keyword_call word.1 (aggregate_keyword word.2)
        ((ih.1.cons hdistinct.1 hdistinct.2.2).parentheses left right) ?_)
      rintro _ ⟨⟩
      exact left
  | point word _ ih | distance word _ ih | intersects word _ ih =>
      obtain ⟨hkind, hvalue⟩ := is_keyword_iff.mp word
      exact orderExpr (ih.1.keyword_call hkind (by rw [hvalue]; decide) (ih.2 _ _ rfl))
  | @distanceMetric t l c c' m r _ _ _ ts₁ ts₂ word hl _ sep _ sep' hm _ hr ih₁ ih₂ =>
      obtain ⟨hkind, hvalue⟩ := is_keyword_iff.mp word
      have hmetric : Orderly h [m] := .single (closes_of_kind (by rw [hm]; decide))
      have harguments := ((ih₁.1.join (comma_inner sep).1 (comma_inner sep).2 ih₂.1).join
        (comma_inner sep').1 (comma_inner sep').2 hmetric).parentheses hl hr
      have hts : t :: l :: ts₁ ++ c :: ts₂ ++ [c', m, r] =
          t :: (l :: (ts₁ ++ c :: ts₂ ++ c' :: [m]) ++ [r]) := by simp
      rw [hts]
      refine orderExpr (harguments.keyword_call hkind (by rw [hvalue]; decide) ?_)
      rintro _ ⟨⟩
      exact hl
  | polygon word left _ right ih =>
      obtain ⟨hkind, hvalue⟩ := is_keyword_iff.mp word
      refine orderExpr (Orderly.keyword_call hkind (by rw [hvalue]; decide)
        (ih.1.parentheses left right) ?_)
      rintro _ ⟨⟩
      exact left
  | firstVertex _ ih | firstItem _ ih => exact ⟨ih.1, fun _ _ heq => nomatch heq⟩
  | nextVertex _ sep _ ih₁ ih₂ | nextItem _ sep _ ih₁ ih₂ =>
      exact ⟨ih₁.1.join (comma_inner sep).1 (comma_inner sep).2 ih₂.1, fun _ _ heq => nomatch heq⟩
  | term _ ih | arithmetic _ ih | predicate _ ih | negation _ ih | conjunction _ ih
  | disjunction _ ih => exact orderExpr ih.1
  | multiplicative _ operator _ ih₁ ih₂ =>
      exact orderExpr (ih₁.1.join (operator_inner operator).1 (operator_inner operator).2 ih₂.1)
  | additive _ operator _ ih₁ ih₂ =>
      exact orderExpr (ih₁.1.join (additive_inner operator).1 (additive_inner operator).2 ih₂.1)
  | isNull _ word kind ih =>
      have his := keyword_inner word (by decide)
      exact orderExpr (ih.1.join his.1 his.2.1 (.single (closes_of_kind (by rw [kind]; decide))))
  | isNotNull _ word negated kind ih =>
      have his := keyword_inner word (by decide)
      have hnot := keyword_inner negated (by decide)
      have hnull : Orderly h [_] := .single (closes_of_kind (by rw [kind]; decide))
      exact orderExpr (ih.1.join his.1 his.2.1 (hnull.cons hnot.1 hnot.2.2))
  | compare _ operator _ ih₁ ih₂ =>
      exact orderExpr (ih₁.1.join (inner_of_kind (by rw [operator.1]; decide))
        (by rw [operator.1]; decide) ih₂.1)
  | between _ word _ word' _ ih₁ ih₂ ih₃ =>
      have hbetween := keyword_inner word (by decide)
      have hand := keyword_inner word' (by decide)
      exact orderExpr ((ih₁.1.join hbetween.1 hbetween.2.1 ih₂.1).join hand.1 hand.2.1 ih₃.1)
  | @inList i l r _ _ ts₁ ts₂ _ word left _ right ih₁ ih₂ =>
      have hin := keyword_inner word (by decide)
      have hts : ts₁ ++ i :: l :: ts₂ ++ [r] = ts₁ ++ i :: (l :: ts₂ ++ [r]) := by simp
      rw [hts]
      exact orderExpr (ih₁.1.join hin.1 hin.2.1 (ih₂.1.parentheses left right))
  | like _ word _ ih₁ ih₂ | and _ word _ ih₁ ih₂ | or _ word _ ih₁ ih₂ =>
      have hword := keyword_inner word (by decide)
      exact orderExpr (ih₁.1.join hword.1 hword.2.1 ih₂.1)
  | not word _ ih =>
      have hnot := keyword_inner word (by decide)
      exact orderExpr (ih.1.cons hnot.1 hnot.2.2)

theorem orderly_of_writes (hwrites : WritesAt h level e ts) :
    Orderly h ts := (writes_order hwrites).1

end Order

/-! ## Integers within the limit -/

/-- The digits of an integer. -/
def digitsOf : List Char → List Char
  | '-' :: digits => digits
  | digits => digits

/-- `int(raw)` takes so many digits. -/
def Within (h : Host) (raw : String) : Prop := ∀ limit ∈ h.maxDigits, (digitsOf raw.toList).length
    ≤ limit

/-- The integers of a token are within the limit. -/
structure Short (h : Host) (t : Token) : Prop where
  number : t.kind = .NUMBER → '.' ∉ t.value.toList → Within h t.value
  parameter : t.kind = .PARAMETER → Within h t.value

section Limits

variable {h : Host} {raw : String} {t : Token}

theorem decimal_eq_ok {digits : List Char} {value : Int} : decimal h digits = .ok value ↔
    (∀ limit ∈ h.maxDigits, digits.length ≤ limit) ∧ decimal h.unlimited digits = .ok value := by
  have hunlimited : decimal h.unlimited digits = .ok (Nat.ofDigitChars 10 digits 0) := rfl
  rw [hunlimited, decimal]
  cases h.maxDigits with
  | none => simp
  | some limit =>
      by_cases hlimit : limit < digits.length
      · simp [hlimit]
      · simp [hlimit, Nat.le_of_not_lt hlimit]

theorem int_value_eq_ok {value : Int} : intValue h raw = .ok value ↔
    Within h raw ∧ intValue h.unlimited raw = .ok value := by
  rw [Within, intValue, intValue]
  generalize raw.toList = text
  split
  · next digits =>
      rw [bind_eq_ok, bind_eq_ok]
      constructor
      · rintro ⟨magnitude, hdecimal, hvalue⟩
        obtain ⟨hlimit, hdecimal⟩ := decimal_eq_ok.mp hdecimal
        exact ⟨hlimit, magnitude, hdecimal, hvalue⟩
      · rintro ⟨hlimit, magnitude, hdecimal, hvalue⟩
        exact ⟨magnitude, decimal_eq_ok.mpr ⟨hlimit, hdecimal⟩, hvalue⟩
  · next hsign =>
      rw [digitsOf.eq_2 text hsign]
      exact decimal_eq_ok

theorem number_value_eq_ok {value : Value} : numberValue h raw = .ok value ↔
    ('.' ∉ raw.toList → Within h raw) ∧ numberValue h.unlimited raw = .ok value := by
  rw [numberValue, numberValue]
  split
  · next hpoint =>
      refine ⟨fun hvalue => ⟨fun hnot => absurd hpoint hnot, hvalue⟩, fun hvalue => hvalue.2⟩
  · next hpoint =>
      rw [bind_eq_ok, bind_eq_ok]
      constructor
      · rintro ⟨value', hint, hvalue⟩
        obtain ⟨hwithin, hint⟩ := int_value_eq_ok.mp hint
        exact ⟨fun _ => hwithin, value', hint, hvalue⟩
      · rintro ⟨hwithin, value', hint, hvalue⟩
        exact ⟨value', int_value_eq_ok.mpr ⟨hwithin hpoint, hint⟩, hvalue⟩

theorem short_of_kind (hnumber : t.kind ≠ .NUMBER) (hparameter : t.kind ≠ .PARAMETER) : Short h t :=
  ⟨fun hkind => absurd hkind hnumber, fun hkind => absurd hkind hparameter⟩

theorem short_of_keyword {keyword : String} (hword : isKeyword t keyword = true) : Short h t := by
  have hkind := (is_keyword_iff.mp hword).1
  exact short_of_kind (by rw [hkind]; decide) (by rw [hkind]; decide)

theorem short_of_word {word : String} (hword : isWord h t word = true) : Short h t := by
  rcases (is_word_iff.mp hword).1 with hkind | hkind <;>
    exact short_of_kind (by rw [hkind]; decide) (by rw [hkind]; decide)

theorem not_point_of_digits (hdigits : isDigits raw = true) : '.' ∉ raw.toList := by
  rw [isDigits, Bool.and_eq_true, all_eq_true] at hdigits
  intro hmem
  exact absurd (hdigits.2 _ hmem) (by decide)

end Limits

section Limits

variable {h : Host} {p : Phrase} {ts : List Token}

theorem short_of_eq {t : Token} {kind : TokenKind} (hkind : t.kind = kind)
    (hne : kind ∉ [TokenKind.NUMBER, .PARAMETER]) : Short h t := by
  rw [← hkind] at hne
  simp only [mem_cons, not_mem_nil, or_false, not_or] at hne
  exact short_of_kind hne.1 hne.2

theorem short_of_multiplicative {o : Token} {op : String}
    (hop : multiplicativeOperator o = some op) : Short h o := by
  rw [multiplicativeOperator] at hop
  split at hop
  · next hoperator => exact short_of_eq hoperator.1 (by decide)
  · split at hop
    · next hstar => exact short_of_eq hstar (by decide)
    · cases hop

theorem short_of_additive {o : Token} {op : String} (hop : additiveOperator o = some op) :
    Short h o := by
  rw [additiveOperator] at hop
  split at hop
  · next hoperator => exact short_of_eq hoperator.1 (by decide)
  · cases hop

/-- The integers that the parser takes are within the limit. -/
theorem short_of_writes (hwrites : Writes h p ts) : ∀ t ∈ ts, Short h t := by
  induction hwrites with
  | @number t _ kind hvalue =>
      refine forall_mem_singleton.mpr ⟨fun _ => (number_value_eq_ok.mp hvalue).1, fun hkind =>
        ?_⟩
      rw [kind] at hkind
      cases hkind
  | @parameter t _ kind hvalue _ =>
      refine forall_mem_singleton.mpr ⟨fun hkind => ?_, fun _ => (int_value_eq_ok.mp hvalue).1⟩
      rw [kind] at hkind
      cases hkind
  | string kind | null kind | column kind =>
      exact forall_mem_singleton.mpr (short_of_eq kind (by decide))
  | trueLiteral word | falseLiteral word =>
      exact forall_mem_singleton.mpr (short_of_keyword word)
  | group left _ right ih =>
      simp only [forall_mem_append, forall_mem_cons, not_mem_nil, false_implies,
        implies_true, and_true]
      exact ⟨⟨short_of_eq left (by decide), ih⟩, short_of_eq right (by decide)⟩
  | pair left _ sep _ right ih₁ ih₂ =>
      simp only [forall_mem_append, forall_mem_cons, not_mem_nil, false_implies,
        implies_true, and_true]
      exact ⟨⟨⟨short_of_eq left (by decide), ih₁⟩, short_of_eq sep (by decide), ih₂⟩,
        short_of_eq right (by decide)⟩
  | score word left right | similarityScore word left right =>
      simp only [forall_mem_cons, not_mem_nil, false_implies, implies_true, and_true]
      exact ⟨short_of_word word, short_of_eq left (by decide), short_of_eq right (by decide)⟩
  | similarTo word left _ sep hk heq hn hcount right ih =>
      have hnumber : Short h _ := ⟨fun _ _ => (int_value_eq_ok.mp hcount).1,
        fun _ => (int_value_eq_ok.mp hcount).1⟩
      simp only [forall_mem_append, forall_mem_cons, not_mem_nil, false_implies,
        implies_true, and_true]
      exact ⟨⟨short_of_word word, short_of_eq left (by decide), ih⟩, short_of_eq sep (by decide),
        short_of_word hk, short_of_eq heq.1 (by decide), hnumber, short_of_eq right (by decide)⟩
  | search word _ ih | matchQuery word _ ih =>
      exact forall_mem_cons.mpr ⟨short_of_word word, ih⟩
  | countStar word left star right =>
      simp only [forall_mem_cons, not_mem_nil, false_implies, implies_true, and_true]
      exact ⟨short_of_keyword word, short_of_eq left (by decide), short_of_eq star (by decide),
        short_of_eq right (by decide)⟩
  | function word left _ right ih =>
      simp only [forall_mem_append, forall_mem_cons, not_mem_nil, false_implies,
        implies_true, and_true]
      exact ⟨⟨short_of_eq word.1 (by decide), short_of_eq left (by decide), ih⟩,
        short_of_eq right (by decide)⟩
  | distinctFunction word left distinct _ right ih =>
      simp only [forall_mem_append, forall_mem_cons, not_mem_nil, false_implies,
        implies_true, and_true]
      exact ⟨⟨short_of_eq word.1 (by decide), short_of_eq left (by decide),
        short_of_keyword distinct, ih⟩, short_of_eq right (by decide)⟩
  | point word _ ih | distance word _ ih | intersects word _ ih =>
      exact forall_mem_cons.mpr ⟨short_of_keyword word, ih⟩
  | distanceMetric word hl _ sep _ sep' hm _ hr ih₁ ih₂ =>
      simp only [forall_mem_append, forall_mem_cons, not_mem_nil, false_implies,
        implies_true, and_true]
      exact ⟨⟨⟨short_of_keyword word, short_of_eq hl (by decide), ih₁⟩, short_of_eq sep (by decide),
        ih₂⟩, short_of_eq sep' (by decide), short_of_eq hm (by decide), short_of_eq hr (by decide)⟩
  | polygon word left _ right ih =>
      simp only [forall_mem_append, forall_mem_cons, not_mem_nil, false_implies,
        implies_true, and_true]
      exact ⟨⟨short_of_keyword word, short_of_eq left (by decide), ih⟩,
        short_of_eq right (by decide)⟩
  | firstVertex _ ih | firstItem _ ih | term _ ih | arithmetic _ ih | predicate _ ih
  | negation _ ih | conjunction _ ih | disjunction _ ih => exact ih
  | nextVertex _ sep _ ih₁ ih₂ | nextItem _ sep _ ih₁ ih₂ =>
      rw [forall_mem_append, forall_mem_cons]
      exact ⟨ih₁, short_of_eq sep (by decide), ih₂⟩
  | multiplicative _ operator _ ih₁ ih₂ =>
      rw [forall_mem_append, forall_mem_cons]
      exact ⟨ih₁, short_of_multiplicative operator, ih₂⟩
  | additive _ operator _ ih₁ ih₂ =>
      rw [forall_mem_append, forall_mem_cons]
      exact ⟨ih₁, short_of_additive operator, ih₂⟩
  | isNull _ word kind ih =>
      simp only [forall_mem_append, forall_mem_cons, not_mem_nil, false_implies,
        implies_true, and_true]
      exact ⟨ih, short_of_keyword word, short_of_eq kind (by decide)⟩
  | isNotNull _ word negated kind ih =>
      simp only [forall_mem_append, forall_mem_cons, not_mem_nil, false_implies,
        implies_true, and_true]
      exact ⟨ih, short_of_keyword word, short_of_keyword negated, short_of_eq kind (by decide)⟩
  | compare _ operator _ ih₁ ih₂ =>
      rw [forall_mem_append, forall_mem_cons]
      exact ⟨ih₁, short_of_eq operator.1 (by decide), ih₂⟩
  | between _ word _ word' _ ih₁ ih₂ ih₃ =>
      simp only [forall_mem_append, forall_mem_cons]
      exact ⟨⟨ih₁, short_of_keyword word, ih₂⟩, short_of_keyword word', ih₃⟩
  | inList _ word left _ right ih₁ ih₂ =>
      simp only [forall_mem_append, forall_mem_cons, not_mem_nil, false_implies,
        implies_true, and_true]
      exact ⟨⟨ih₁, short_of_keyword word, short_of_eq left (by decide), ih₂⟩,
        short_of_eq right (by decide)⟩
  | like _ word _ ih₁ ih₂ | and _ word _ ih₁ ih₂ | or _ word _ ih₁ ih₂ =>
      rw [forall_mem_append, forall_mem_cons]
      exact ⟨ih₁, short_of_keyword word, ih₂⟩
  | not word _ ih => exact forall_mem_cons.mpr ⟨short_of_keyword word, ih⟩

theorem Orderly.limited (horder : Orderly h.unlimited ts) : Orderly h ts where
  chain := horder.chain.imp fun _ _ hbeside =>
    ⟨hbeside.operand, hbeside.operator, hbeside.minus, hbeside.name, hbeside.call⟩
  nonempty := horder.nonempty
  first := horder.first
  last := horder.last
  plain := horder.plain

/-- What is written without a limit is written within it when its integers are. -/
theorem writes_of_short (hwrites : Writes h.unlimited p ts) (hshort : ∀ t ∈ ts, Short h t) :
    Writes h p ts := by
  induction hwrites with
  | number kind hvalue =>
      have hnumber := (hshort _ mem_cons_self).number kind
      exact .number kind (number_value_eq_ok.mpr ⟨hnumber, hvalue⟩)
  | parameter kind hvalue hindex =>
      have hparameter := (hshort _ mem_cons_self).parameter kind
      exact .parameter kind (int_value_eq_ok.mpr ⟨hparameter, hvalue⟩) hindex
  | similarTo word left _ sep hk heq hn hcount right ih =>
      simp only [forall_mem_append, forall_mem_cons] at hshort
      obtain ⟨⟨_, _, hts⟩, _, _, _, hnumber, _⟩ := hshort
      have hwithin := hnumber.number hn.1 (not_point_of_digits hn.2)
      exact .similarTo word left (ih hts) sep hk heq hn (int_value_eq_ok.mpr ⟨hwithin, hcount⟩)
        right
  | string kind => exact .string kind
  | null kind => exact .null kind
  | column kind => exact .column kind
  | trueLiteral word => exact .trueLiteral word
  | falseLiteral word => exact .falseLiteral word
  | score word left right => exact .score word left right
  | similarityScore word left right => exact .similarityScore word left right
  | countStar word left star right => exact .countStar word left star right
  | search word _ ih => exact .search word (ih (forall_mem_cons.mp hshort).2)
  | matchQuery word _ ih => exact .matchQuery word (ih (forall_mem_cons.mp hshort).2)
  | point word _ ih => exact .point word (ih (forall_mem_cons.mp hshort).2)
  | distance word _ ih => exact .distance word (ih (forall_mem_cons.mp hshort).2)
  | intersects word _ ih => exact .intersects word (ih (forall_mem_cons.mp hshort).2)
  | not word _ ih => exact .not word (ih (forall_mem_cons.mp hshort).2)
  | firstVertex _ ih => exact .firstVertex (ih hshort)
  | firstItem _ ih => exact .firstItem (ih hshort)
  | term _ ih => exact .term (ih hshort)
  | arithmetic _ ih => exact .arithmetic (ih hshort)
  | predicate _ ih => exact .predicate (ih hshort)
  | negation _ ih => exact .negation (ih hshort)
  | conjunction _ ih => exact .conjunction (ih hshort)
  | disjunction _ ih => exact .disjunction (ih hshort)
  | isNull _ word kind ih => exact .isNull (ih (forall_mem_append.mp hshort).1) word kind
  | isNotNull _ word negated kind ih =>
      exact .isNotNull (ih (forall_mem_append.mp hshort).1) word negated kind
  | group left _ right ih =>
      simp only [forall_mem_append, forall_mem_cons] at hshort
      exact .group left (ih hshort.1.2) right
  | function word left _ right ih =>
      simp only [forall_mem_append, forall_mem_cons] at hshort
      exact .function word left (ih hshort.1.2.2) right
  | distinctFunction word left distinct _ right ih =>
      simp only [forall_mem_append, forall_mem_cons] at hshort
      exact .distinctFunction word left distinct (ih hshort.1.2.2.2) right
  | polygon word left _ right ih =>
      simp only [forall_mem_append, forall_mem_cons] at hshort
      exact .polygon word left (ih hshort.1.2.2) right
  | pair left _ sep _ right ih₁ ih₂ =>
      simp only [forall_mem_append, forall_mem_cons] at hshort
      exact .pair left (ih₁ hshort.1.1.2) sep (ih₂ hshort.1.2.2) right
  | distanceMetric word hl _ sep _ sep' hm hmetric hr ih₁ ih₂ =>
      simp only [forall_mem_append, forall_mem_cons] at hshort
      exact .distanceMetric word hl (ih₁ hshort.1.1.2.2) sep (ih₂ hshort.1.2.2) sep' hm hmetric hr
  | between _ word _ word' _ ih₁ ih₂ ih₃ =>
      simp only [forall_mem_append, forall_mem_cons] at hshort
      exact .between (ih₁ hshort.1.1) word (ih₂ hshort.1.2.2) word' (ih₃ hshort.2.2)
  | inList _ word left _ right ih₁ ih₂ =>
      simp only [forall_mem_append, forall_mem_cons] at hshort
      exact .inList (ih₁ hshort.1.1) word left (ih₂ hshort.1.2.2.2) right
  | nextVertex _ sep _ ih₁ ih₂ =>
      rw [forall_mem_append, forall_mem_cons] at hshort
      exact .nextVertex (ih₁ hshort.1) sep (ih₂ hshort.2.2)
  | nextItem _ sep _ ih₁ ih₂ =>
      rw [forall_mem_append, forall_mem_cons] at hshort
      exact .nextItem (ih₁ hshort.1) sep (ih₂ hshort.2.2)
  | multiplicative _ operator _ ih₁ ih₂ =>
      rw [forall_mem_append, forall_mem_cons] at hshort
      exact .multiplicative (ih₁ hshort.1) operator (ih₂ hshort.2.2)
  | additive _ operator _ ih₁ ih₂ =>
      rw [forall_mem_append, forall_mem_cons] at hshort
      exact .additive (ih₁ hshort.1) operator (ih₂ hshort.2.2)
  | compare _ operator _ ih₁ ih₂ =>
      rw [forall_mem_append, forall_mem_cons] at hshort
      exact .compare (ih₁ hshort.1) operator (ih₂ hshort.2.2)
  | like _ word _ ih₁ ih₂ =>
      rw [forall_mem_append, forall_mem_cons] at hshort
      exact .like (ih₁ hshort.1) word (ih₂ hshort.2.2)
  | and _ word _ ih₁ ih₂ =>
      rw [forall_mem_append, forall_mem_cons] at hshort
      exact .and (ih₁ hshort.1) word (ih₂ hshort.2.2)
  | or _ word _ ih₁ ih₂ =>
      rw [forall_mem_append, forall_mem_cons] at hshort
      exact .or (ih₁ hshort.1) word (ih₂ hshort.2.2)

end Limits

/-! ## Whole token lists -/

section Whole

variable {h : Host} {e : Expr} {ts rest used : List Token} {t : Token}

theorem error_if_not_eof_eq_ok {result : Unit × List Token}
    (hresult : errorIfNotEof rest = .ok result) :
    ∃ t ts, rest = t :: ts ∧ (t.kind = .EOF ∨ t.kind = .SEMICOLON) := by
  cases rest with
  | nil => cases hresult
  | cons t ts =>
      refine ⟨t, ts, rfl, ?_⟩
      by_cases hsemicolon : t.kind = .SEMICOLON
      · exact Or.inr hsemicolon
      · left
        have hcheck : matchKind .SEMICOLON (t :: ts) = .ok (false, t :: ts) := by
          rw [matchKind, Parsing.run_bind run_check_kind, decide_eq_false hsemicolon]
          rfl
        rw [errorIfNotEof, Parsing.run_bind hcheck, Parsing.run_bind run_peek] at hresult
        by_contra heof
        rw [if_pos heof] at hresult
        cases hresult

theorem follow_eof {level : Level} (ht : t.kind = .EOF) : Follow level (t :: rest) := by
  refine ⟨t, rest, rfl, ?_⟩
  cases level <;>
    simp [continues, continuesPredicate, multiplicativeOperator, additiveOperator, isKeyword,
      ht]

/-- The grammar of expressions is unambiguous and the parser takes what it says: before a token
that does not go on with an expression, a token list is taken to an expression exactly when it
writes that expression, and whatever is taken stands at the front of the tokens. -/
theorem expression_parser_exact (h : Host) :
    (∀ used e rest, Follow .disjunction rest →
      (expression h (used ++ rest) = .ok (e, rest) ↔ WritesAt h .disjunction e used)) ∧
    (∀ ts e rest, expression h ts = .ok (e, rest) →
      ∃ used, ts = used ++ rest ∧ WritesAt h .disjunction e used) ∧
    ∀ used e e', WritesAt h .disjunction e used → WritesAt h .disjunction e' used → e = e' := by
  refine ⟨fun used e rest hfollow => ⟨fun hrun => ?_, fun hused => ?_⟩, sound_expression h, ?_⟩
  · obtain ⟨used', hts, hused⟩ := sound_expression h _ _ _ hrun
    rwa [append_cancel_right hts]
  · exact complete_expression h used e rest hused hfollow
  · intro used e e' hused hused'
    have hfollow : Follow .disjunction [⟨.EOF, "", 0⟩] := follow_eof rfl
    have hrun := complete_expression h used e _ hused hfollow
    have hrun' := complete_expression h used e' _ hused' hfollow
    rw [hrun] at hrun'
    cases hrun'
    rfl

end Whole

end SoupDB.Parser
