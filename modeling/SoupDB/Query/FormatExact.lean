import SoupDB.Query.FormatFaithful

/-!
# SoupDB: when a rendered expression is read back

The tokens of the rendering of a faithful expression write it, at the level of its rendering.

Main fact: `format_expr_exact`.
-/

namespace SoupDB.Parser

open List

open Lexer (Item Spelled Unsigned)

variable {h : Host}

/-! ## Integers -/

section Integers

variable {raw : String} {lexeme digits : List Char} {i : Int} {value : Value}

theorem ofDigitChars_lt (hdigits : ∀ c ∈ digits, c.isDigit = true) :
    Nat.ofDigitChars 10 digits 0 < 10 ^ digits.length := by
  induction digits using reverseRecOn with
  | nil => exact Nat.zero_lt_one
  | append_singleton digits c ih =>
      rw [forall_mem_append, forall_mem_singleton] at hdigits
      have hlt := ih hdigits.1
      have hc : c.toNat - '0'.toNat ≤ 9 := by
        have hrange := hdigits.2
        simp only [Char.isDigit, Bool.and_eq_true, decide_eq_true_eq, UInt32.le_iff_toNat_le]
          at hrange
        have hnat : c.toNat = c.val.toNat := rfl
        have hzero : '0'.toNat = 48 := rfl
        have hnine : '9'.val.toNat = 57 := rfl
        omega
      rw [Nat.ofDigitChars_append, Nat.ofDigitChars_cons, Nat.ofDigitChars_nil, length_append,
        length_singleton, Nat.pow_succ]
      omega

theorem int_value_digits (hne : digits ≠ []) (hdigits : ∀ c ∈ digits, c.isDigit = true)
    (hraw : raw.toList = digits ∨ raw.toList = '-' :: digits) (hvalue : intValue h raw = .ok i) :
    i.natAbs = Nat.ofDigitChars 10 digits 0 ∧ (raw.toList = digits → 0 ≤ i) ∧
      ∀ limit ∈ h.maxDigits, digits.length ≤ limit := by
  obtain ⟨hwithin, hvalue⟩ := int_value_eq_ok.mp hvalue
  have hsign : ∀ more, digits ≠ '-' :: more := by
    rintro more rfl
    exact absurd (hdigits '-' mem_cons_self) (by decide)
  rcases hraw with hraw | hraw
  · rw [Within, hraw, digitsOf.eq_2 digits hsign] at hwithin
    rw [intValue, hraw] at hvalue
    split at hvalue
    · next more => exact absurd rfl (hsign more)
    · cases hvalue
      exact ⟨Int.natAbs_natCast _, fun _ => Int.natCast_nonneg _, hwithin⟩
  · rw [Within, hraw, digitsOf] at hwithin
    rw [intValue, hraw] at hvalue
    cases hvalue
    refine ⟨(Int.natAbs_neg _).trans (Int.natAbs_natCast _), fun heq => ?_, hwithin⟩
    exact absurd (hraw.symm.trans heq).symm (hsign digits)

theorem int_value_int_text
    (hlimit : ∀ limit ∈ h.maxDigits, (Nat.toDigits 10 i.natAbs).length ≤ limit) :
    intValue h (String.ofList (intText i)) = .ok i := by
  have hdecimal : decimal h (Nat.toDigits 10 i.natAbs) = .ok (i.natAbs : Int) := by
    refine decimal_eq_ok.mpr ⟨hlimit, ?_⟩
    have hrun : decimal h.unlimited (Nat.toDigits 10 i.natAbs) =
        .ok (Nat.ofDigitChars 10 (Nat.toDigits 10 i.natAbs) 0) := rfl
    rw [hrun, Nat.ofDigitChars_ten_toDigits]
  rw [intValue, String.toList_ofList, intText]
  split
  · next digits hsplit =>
      split at hsplit
      · next hneg =>
          cases hsplit
          rw [hdecimal, ok_bind]
          exact congrArg Except.ok (by omega)
      · have hdigit := Nat.isDigit_of_mem_toDigits (b := 10) (n := i.natAbs) (c := '-') (by decide)
          (by decide) (hsplit ▸ mem_cons_self)
        cases hdigit
  · next hsplit =>
      split at hsplit
      · exact absurd rfl (hsplit _)
      · next hneg =>
          rw [if_neg hneg, hdecimal]
          exact congrArg Except.ok (by omega)

/-- An integer that was read is read again from its text. -/
theorem int_value_text (hne : digits ≠ []) (hdigits : ∀ c ∈ digits, c.isDigit = true)
    (hraw : raw.toList = digits ∨ raw.toList = '-' :: digits) (hvalue : intValue h raw = .ok i) :
    intValue h (String.ofList (intText i)) = .ok i := by
  obtain ⟨habs, _, hlimit⟩ := int_value_digits hne hdigits hraw hvalue
  refine int_value_int_text fun limit hmem => le_trans ?_ (hlimit limit hmem)
  rw [habs, Nat.length_toDigits_le_iff (by decide) (length_pos_iff.mpr hne)]
  exact ofDigitChars_lt hdigits

theorem digits_of_unsigned (hnumber : Unsigned lexeme) (hpoint : '.' ∉ lexeme) :
    lexeme ≠ [] ∧ ∀ c ∈ lexeme, c.isDigit = true := by
  cases hnumber with
  | whole hne hdigits => exact ⟨hne, hdigits⟩
  | decimal => exact absurd (mem_append_right _ mem_cons_self) hpoint

theorem digits_of_spelled (hspelled : Spelled h .NUMBER raw lexeme) (hpoint : '.' ∉ raw.toList) :
    ∃ digits, digits ≠ [] ∧ (∀ c ∈ digits, c.isDigit = true) ∧
      (raw.toList = digits ∨ raw.toList = '-' :: digits) := by
  cases hspelled with
  | number hnumber =>
      rw [String.toList_ofList] at hpoint ⊢
      obtain ⟨hne, hdigits⟩ := digits_of_unsigned hnumber hpoint
      exact ⟨lexeme, hne, hdigits, Or.inl rfl⟩
  | @negative lexeme hnumber =>
      rw [String.toList_ofList] at hpoint ⊢
      obtain ⟨hne, hdigits⟩ := digits_of_unsigned hnumber (not_mem_of_not_mem_cons hpoint)
      exact ⟨lexeme, hne, hdigits, Or.inr rfl⟩
  | punctuation hc => exact absurd (Lexer.punctuation_kind hc) (by decide)

end Integers

/-! ## Tokens of a rendering -/

section Tokens

variable {s : Shape} {ss us vs : List Shape} {ts : List Token} {t : Token} {level level' : Level}
  {e first second : Expr} {items left right : List Item}

theorem tokens_cons (hts : ts.map Token.shape = s :: ss) :
    ∃ t rest, ts = t :: rest ∧ Token.shape t = s ∧ rest.map Token.shape = ss := by
  obtain ⟨t, rest, rfl, ht, hrest⟩ := map_eq_cons_iff.mp hts
  exact ⟨t, rest, rfl, ht, hrest⟩

theorem tokens_single (hts : ts.map Token.shape = [s]) : ∃ t, ts = [t] ∧ Token.shape t = s := by
  obtain ⟨t, rest, rfl, ht, hrest⟩ := tokens_cons hts
  rw [map_eq_nil_iff] at hrest
  exact ⟨t, by rw [hrest], ht⟩

theorem tokens_infix (hts : ts.map Token.shape = us ++ s :: vs) :
    ∃ ts₁ o ts₂, ts = ts₁ ++ o :: ts₂ ∧ ts₁.map Token.shape = us ∧ Token.shape o = s ∧
      ts₂.map Token.shape = vs := by
  obtain ⟨ts₁, rest, rfl, h₁, hrest⟩ := map_eq_append_iff.mp hts
  obtain ⟨o, ts₂, rfl, ho, h₂⟩ := tokens_cons hrest
  exact ⟨ts₁, o, ts₂, rfl, h₁, ho, h₂⟩

theorem tokens_enclosed (hts : ts.map Token.shape = shapes (enclosed items)) :
    ∃ l inner r, ts = l :: inner ++ [r] ∧ l.kind = .LPAREN ∧ inner.map Token.shape = shapes items ∧
      r.kind = .RPAREN := by
  rw [shapes_enclosed, cons_append] at hts
  obtain ⟨l, rest, rfl, hl, hrest⟩ := tokens_cons hts
  obtain ⟨inner, r, _, rfl, hinner, hr, hnil⟩ := tokens_infix hrest
  rw [map_eq_nil_iff] at hnil
  subst hnil
  exact ⟨l, inner, r, rfl, congrArg Prod.fst hl, hinner, congrArg Prod.fst hr⟩

variable {kind : TokenKind} {value : String}

theorem kind_of_shape (ht : Token.shape t = (kind, value)) :
    t.kind = kind := congrArg Prod.fst ht

theorem value_of_shape (ht : Token.shape t = (kind, value)) :
    t.value = value := congrArg Prod.snd ht

theorem keyword_of_shape {keyword : String} (ht : Token.shape t = (.KEYWORD, keyword)) :
    isKeyword t keyword = true :=
  is_keyword_iff.mpr ⟨kind_of_shape ht, value_of_shape ht⟩

theorem word_of_shape {name : String} (ht : Token.shape t = (.IDENTIFIER, name)) {upper : String}
    (hplain : plainWord name.toList = true)
    (hupper : String.ofList (name.toList.map Char.toUpper) = upper) : isWord h t upper = true := by
  refine is_word_iff.mpr ⟨Or.inl (kind_of_shape ht), ?_⟩
  have hname := upper_plain (h := h) hplain
  rw [String.ofList_toList] at hname
  rw [value_of_shape ht, hname, hupper]

/-! ### Levels -/

theorem raise_term (hlevel : level.index ≤ 1) (hwrites : WritesAt h level e ts) :
    WritesAt h .term e ts := by
  cases level with
  | primary => exact .term hwrites
  | term => exact hwrites
  | _ => exact absurd hlevel (by decide)

theorem raise_arithmetic (hlevel : level.index ≤ 2) (hwrites : WritesAt h level e ts) :
    WritesAt h .arithmetic e ts := by
  cases level with
  | primary | term => exact .arithmetic (raise_term (by decide) hwrites)
  | arithmetic => exact hwrites
  | _ => exact absurd hlevel (by decide)

theorem raise_negation (hlevel : level.index ≤ 4) (hwrites : WritesAt h level e ts) :
    WritesAt h .negation e ts := by
  cases level with
  | primary | term | arithmetic =>
      exact .negation (.predicate (raise_arithmetic (by decide) hwrites))
  | predicate => exact .negation hwrites
  | negation => exact hwrites
  | _ => exact absurd hlevel (by decide)

theorem rank_negation (e : Expr) : (rank e).index ≤ 4 := by
  cases e with
  | BinaryExpr left op right =>
      rw [rank]
      split <;> decide
  | _ => exact of_decide_eq_true rfl

/-- The tokens of the parts write the expression. -/
def Writable (h : Host) (level : Level) (e : Expr) (items : List Item) : Prop :=
  ∀ ts : List Token, ts.map Token.shape = shapes items → WritesAt h level e ts

section

variable (hwritable : Writable h (rank e) e items)
include hwritable

theorem Writable.term (hfits : Fits .term e) :
    Writable h .term e items := fun ts hts => raise_term hfits (hwritable ts hts)

theorem Writable.arithmetic (hfits : Fits .arithmetic e) :
    Writable h .arithmetic e items := fun ts hts => raise_arithmetic hfits (hwritable ts hts)

theorem Writable.primary (hfits : Fits .primary e) : Writable h .primary e items := by
  have hrank : rank e = .primary := by
    rw [Fits] at hfits
    generalize rank e = level at hfits
    cases level with
    | primary => rfl
    | _ => exact absurd hfits (by decide)
  rwa [hrank] at hwritable

theorem Writable.negation :
    Writable h .negation e items := fun ts hts => raise_negation (rank_negation e) (hwritable ts
      hts)

theorem Writable.conjunction :
    Writable h .conjunction e items := fun ts hts => .conjunction (hwritable.negation ts hts)

theorem Writable.disjunction :
    Writable h .disjunction e items := fun ts hts => .disjunction (hwritable.conjunction ts hts)

end

/-! ### Phrases -/

theorem writable_single {lexeme : List Char}
    (hwrites : ∀ t : Token, t.kind = kind → t.value = value → WritesAt h level e [t]) :
    Writable h level e [.token kind value lexeme] := by
  intro ts hts
  obtain ⟨t, rfl, ht⟩ := tokens_single hts
  exact hwrites t (kind_of_shape ht) (value_of_shape ht)

theorem writes_pair (hfirst : Writable h .disjunction first left)
    (hsecond : Writable h .disjunction second right)
    (hts : ts.map Token.shape = shapes (enclosed (joined [left, right]))) :
    Writes h (.pair first second) ts := by
  obtain ⟨l, inner, r, rfl, hl, hinner, hr⟩ := tokens_enclosed hts
  rw [joined_cons (cons_ne_nil _ _), joined, shapes_append, shapes_word, shapes_gap] at hinner
  obtain ⟨ts₁, c, ts₂, rfl, h₁, hc, h₂⟩ := tokens_infix hinner
  have hpair := Writes.pair hl (hfirst ts₁ h₁) (kind_of_shape hc) (hsecond ts₂ h₂) hr
  simpa using hpair

theorem writes_items {str : Value → String} {es : List Expr} (hne : es ≠ [])
    (hitems : ∀ e ∈ es, Writable h .arithmetic e (parts str e))
    (hts : ts.map Token.shape = shapes (joined (partsList str es))) :
    Writes h (.items es) ts := by
  induction es using reverseRecOn generalizing ts with
  | nil => exact absurd rfl hne
  | append_singleton es e ih =>
      rw [forall_mem_append, forall_mem_singleton] at hitems
      by_cases hnil : es = []
      · subst hnil
        exact .firstItem (hitems.2 ts hts)
      · rw [shapes_joined_concat hnil] at hts
        obtain ⟨ts₁, c, ts₂, rfl, h₁, hc, h₂⟩ := tokens_infix hts
        exact .nextItem (ih hnil hitems.1 h₁) (kind_of_shape hc) (hitems.2 ts₂ h₂)

/-- `left op right`, where the operator is a word or a sign. -/
theorem tokens_spaced (hts : ts.map Token.shape = shapes (spaced left (word kind value) right)) :
    ∃ ts₁ o ts₂, ts = ts₁ ++ o :: ts₂ ∧ ts₁.map Token.shape = shapes left ∧
      Token.shape o = (kind, value) ∧ ts₂.map Token.shape = shapes right := by
  rw [shapes_spaced] at hts
  exact tokens_infix hts

theorem tokens_call {lexeme : List Char} {arguments : List (List Item)}
    (hts : ts.map Token.shape = shapes (call (.token kind value lexeme) arguments)) :
    ∃ t rest, ts = t :: rest ∧ Token.shape t = (kind, value) ∧
      rest.map Token.shape = shapes (enclosed (joined arguments)) := tokens_cons hts

end Tokens

/-! ## Faithful expressions are written by their rendering -/

section Written

variable {raw name op : String} {lexeme : List Char} {left right value : Expr} {items : List Expr}

theorem writable_number (str : Str h) {value : Value} (hraw : Spelled h .NUMBER raw lexeme)
    (hvalue : numberValue h raw = .ok value) (hfaithful : Faithful str.text (.Literal value)) :
    Writable h .primary (.Literal value) (literalParts str.text value) := by
  rcases number_value_cases hvalue with ⟨hpoint, rfl⟩ | ⟨i, hint, rfl⟩
  · have hpositional : Positional (str.text (.float (h.float raw))) := hfaithful
    have hparts : literalParts str.text (.float (h.float raw)) =
        floatParts (str.text (.float (h.float raw))) := rfl
    rw [hparts, float_parts_of_positional hpositional]
    refine writable_single fun t hkind ht => .number hkind ?_
    rw [ht]
    rcases str.float raw lexeme hraw hpoint with ⟨_, hdot, hfloat⟩ | hexponent | hinf | hinf
    · rw [numberValue, if_pos hdot, hfloat]
    · exact absurd hpositional (exponent_not_positional hexponent)
    · rw [hinf] at hpositional
      exact absurd hpositional inf_not_positional.1
    · rw [hinf] at hpositional
      exact absurd hpositional inf_not_positional.2
  · have hpoint : '.' ∉ raw.toList := by
      intro hpoint
      rw [numberValue, if_pos hpoint] at hvalue
      cases hvalue
    obtain ⟨digits, hne, hdigits, htext⟩ := digits_of_spelled hraw hpoint
    have hagain := int_value_text hne hdigits htext hint
    have hnone : '.' ∉ (String.ofList (intText i)).toList := by
      rw [String.toList_ofList, intText]
      have hdigit : ∀ c ∈ Nat.toDigits 10 i.natAbs, c.isDigit = true := fun c hc =>
        Nat.isDigit_of_mem_toDigits (by decide) (by decide) hc
      have hdot : '.' ∉ Nat.toDigits 10 i.natAbs := fun hmem => absurd (hdigit '.' hmem) (by decide)
      split
      · simp [hdot]
      · exact hdot
    refine writable_single fun t hkind ht => .number hkind ?_
    rw [ht, str.int, numberValue, if_neg hnone, hagain]
    rfl

theorem writable_similar_to (str : Str h) (reference : String) {count : Int}
    (hdigits : isDigits raw = true) (hcount : intValue h raw = .ok count) :
    Writable h .primary (.SimilarToExpr (.Literal (.str reference)) (.int count))
      (parts str.text (.SimilarToExpr (.Literal (.str reference)) (.int count))) := by
  rw [isDigits, Bool.and_eq_true, decide_eq_true_eq, all_eq_true] at hdigits
  have hne : raw.toList ≠ [] := fun hnil => hdigits.1 (String.toList_eq_nil_iff.mp hnil)
  obtain ⟨_, hsign, _⟩ := int_value_digits hne hdigits.2 (Or.inl rfl) hcount
  have hagain := int_value_text hne hdigits.2 (Or.inl rfl) hcount
  have htext : intText count = Nat.toDigits 10 count.natAbs := if_neg (not_lt.mpr (hsign rfl))
  have hall : isDigits (String.ofList (intText count)) = true := by
    rw [isDigits, Bool.and_eq_true, decide_eq_true_eq, all_eq_true, String.toList_ofList,
      htext]
    refine ⟨fun hnil => ?_, fun c hc => Nat.isDigit_of_mem_toDigits (by decide) (by decide) hc⟩
    have hlist := congrArg String.toList hnil
    rw [String.toList_ofList] at hlist
    exact Nat.toDigits_ne_nil hlist
  intro ts hts
  simp only [parts, literalParts] at hts
  obtain ⟨t, rest, rfl, ht, hrest⟩ := tokens_call hts
  obtain ⟨l, inner, r, rfl, hl, hinner, hr⟩ := tokens_enclosed hrest
  obtain ⟨s, rest, rfl, hs, hrest⟩ := tokens_cons hinner
  obtain ⟨c, rest, rfl, hc, hrest⟩ := tokens_cons hrest
  obtain ⟨k, rest, rfl, hk, hrest⟩ := tokens_cons hrest
  obtain ⟨eq, rest, rfl, heq, hrest⟩ := tokens_cons hrest
  obtain ⟨n, rfl, hn⟩ := tokens_single hrest
  have hvalue : n.value = String.ofList (intText count) := (value_of_shape hn).trans (str.int
    count)
  have hsource : WritesAt h .primary (.Literal (.str s.value)) [s] := .string (kind_of_shape hs)
  rw [value_of_shape hs] at hsource
  exact .similarTo (word_of_shape ht (by decide) (by decide)) hl
    (.disjunction (.conjunction (raise_negation (by decide) hsource))) (kind_of_shape hc)
    (word_of_shape hk (by decide) (by decide)) ⟨kind_of_shape heq, value_of_shape heq⟩
    ⟨kind_of_shape hn, by rw [hvalue]; exact hall⟩ (by rw [hvalue]; exact hagain) hr

theorem writes_query {column query : String} {ts : List Token}
    (hts : ts.map Token.shape =
      shapes (enclosed (joined [[word .IDENTIFIER column], [stringPart query]]))) :
    Writes h (.pair (.ColumnRef column) (.Literal (.str query))) ts := by
  refine writes_pair ?_ ?_ hts
  · have hcolumn : Writable h (rank (.ColumnRef column)) (.ColumnRef column)
        [word .IDENTIFIER column] := writable_single fun t hkind ht => by
      subst ht
      exact .column hkind
    exact hcolumn.disjunction
  · have hquery : Writable h (rank (.Literal (.str query))) (.Literal (.str query))
        [stringPart query] := writable_single fun t hkind ht => by
      subst ht
      exact .string hkind
    exact hquery.disjunction

theorem normalize_metric_name {metric : String} (hmetric : metric ∈ METRIC_NAMES) :
    normalizeMetric h metric = .ok metric := by
  have hall : ∀ metric ∈ METRIC_NAMES, (metric.toList.all fun c => c.toNat < 128 ∧
      (c.toNat == 32 || 9 ≤ c.toNat && c.toNat ≤ 13 || 28 ≤ c.toNat && c.toNat ≤ 31) = false) ∧
      String.ofList (metric.toList.map Char.toLower) = metric := by decide
  obtain ⟨hascii, hlower⟩ := hall metric hmetric
  have hchars := all_iff_forall_prop.mp hascii
  have hspace : ∀ c ∈ metric.toList, h.isspace c = false := fun c hc => by
    rw [h.isspace_ascii c (hchars c hc).1, (hchars c hc).2]
  have hdrop : ∀ chars : List Char, (∀ c ∈ chars, h.isspace c = false) →
      chars.dropWhile h.isspace = chars := by
    intro chars hchars
    cases chars with
    | nil => rfl
    | cons c chars =>
        exact dropWhile_cons_of_neg (by rw [hchars c mem_cons_self]; decide)
  have hstrip : strip h metric = metric := by
    rw [strip, hdrop _ hspace, hdrop _ fun c hc => hspace c (mem_reverse.mp hc),
      reverse_reverse, String.ofList_toList]
  have hcanonical : h.lower (strip h metric) = metric := by
    rw [hstrip, h.lower_ascii metric fun c hc => (hchars c hc).1, hlower]
  rw [normalizeMetric, hcanonical]
  exact if_neg (not_not_intro hmetric)

theorem writable_binary {str : Value → String} (hop : op ∈ ARITHMETIC_OPS)
    (hleft : Writable h (rank left) left (parts str left))
    (hright : Writable h (rank right) right (parts str right))
    (hfits : if op ∈ ["+", "-"] then Fits .arithmetic left ∧ Fits .term right
      else Fits .term left ∧ Fits .primary right) :
    Writable h (rank (.BinaryExpr left op right)) (.BinaryExpr left op right)
      (parts str (.BinaryExpr left op right)) := by
  intro ts hts
  simp only [parts] at hts
  obtain ⟨ts₁, o, ts₂, rfl, h₁, ho, h₂⟩ := tokens_spaced hts
  by_cases hadditive : op ∈ ["+", "-"]
  · rw [if_pos hadditive] at hfits
    have hstar : op ≠ "*" := by
      rintro rfl
      exact absurd hadditive (by decide)
    rw [if_neg hstar] at ho
    have hoperator : additiveOperator o = some op := by
      rw [additiveOperator, kind_of_shape ho, value_of_shape ho]
      exact if_pos ⟨rfl, hadditive⟩
    rw [rank_additive hadditive]
    exact .additive (hleft.arithmetic hfits.1 ts₁ h₁) hoperator (hright.term hfits.2 ts₂ h₂)
  · rw [if_neg hadditive] at hfits
    have hoperator : multiplicativeOperator o = some op := by
      rw [multiplicativeOperator]
      by_cases hstar : op = "*"
      · rw [if_pos hstar] at ho
        have hkind := kind_of_shape ho
        have hnone : ¬ (o.kind = .OPERATOR ∧ o.value ∈ ["*", "/", "%"]) := by
          rintro ⟨hoperator, _⟩
          rw [hkind] at hoperator
          cases hoperator
        rw [if_neg hnone, if_pos hkind, hstar]
      · rw [if_neg hstar] at ho
        have hmem : ∀ op ∈ ARITHMETIC_OPS, op ∉ ["+", "-"] → op ∈ ["*", "/", "%"] := by decide
        rw [kind_of_shape ho, value_of_shape ho]
        exact if_pos ⟨rfl, hmem op hop hadditive⟩
    rw [rank_multiplicative hadditive]
    exact .multiplicative (hleft.term hfits.1 ts₁ h₁) hoperator (hright.primary hfits.2 ts₂ h₂)

theorem writable_parts (str : Str h) {e : Expr} (he : Produced h e)
    (hfaithful : Faithful str.text e) : Writable h (rank e) e (parts str.text e) := by
  induction he with
  | number hraw hvalue =>
      simp only [parts]
      exact writable_number str hraw hvalue hfaithful
  | string value =>
      simp only [parts, literalParts]
      refine writable_single fun t hkind ht => ?_
      subst ht
      exact .string hkind
  | bool value =>
      simp only [parts, literalParts]
      cases value with
      | false => exact writable_single fun t hkind ht => .falseLiteral (is_keyword_iff.mpr ⟨hkind,
          ht⟩)
      | true => exact writable_single fun t hkind ht => .trueLiteral (is_keyword_iff.mpr ⟨hkind,
          ht⟩)
  | null =>
      simp only [parts, literalParts]
      exact writable_single fun t hkind _ => .null hkind
  | parameter hindex => exact hfaithful.elim
  | column hname =>
      simp only [parts]
      refine writable_single fun t hkind ht => ?_
      subst ht
      exact .column hkind
  | @score kind hkind =>
      intro ts hts
      simp only [parts] at hts
      obtain ⟨t, rest, rfl, ht, hrest⟩ := tokens_call hts
      obtain ⟨l, inner, r, rfl, hl, hinner, hr⟩ := tokens_enclosed hrest
      rw [joined, shapes_nil, map_eq_nil_iff] at hinner
      subst hinner
      rcases hkind with rfl | rfl
      · rw [if_neg (by decide)] at ht
        exact .score (word_of_shape ht (by decide) (by decide)) hl hr
      · rw [if_pos rfl] at ht
        exact .similarityScore (word_of_shape ht (by decide) (by decide)) hl hr
  | similarTo reference hraw hdigits hcount =>
      exact writable_similar_to str reference hdigits hcount
  | search hcolumn query =>
      intro ts hts
      simp only [parts, literalParts] at hts
      obtain ⟨t, rest, rfl, ht, hrest⟩ := tokens_call hts
      exact .search (word_of_shape ht (by decide) (by decide)) (writes_query hrest)
  | matchQuery hcolumn query =>
      intro ts hts
      simp only [parts, literalParts] at hts
      obtain ⟨t, rest, rfl, ht, hrest⟩ := tokens_call hts
      exact .matchQuery (word_of_shape ht (by decide) (by decide)) (writes_query hrest)
  | countStar =>
      intro ts hts
      simp only [parts] at hts
      obtain ⟨t, rest, rfl, ht, hrest⟩ := tokens_call hts
      obtain ⟨l, inner, r, rfl, hl, hinner, hr⟩ := tokens_enclosed hrest
      obtain ⟨s, rfl, hs⟩ := tokens_single hinner
      exact .countStar (keyword_of_shape ht) hl (kind_of_shape hs) hr
  | @function name arg hname harg distinct ih =>
      intro ts hts
      simp only [parts] at hts
      obtain ⟨t, rest, rfl, ht, hrest⟩ := tokens_call hts
      obtain ⟨l, inner, r, rfl, hl, hinner, hr⟩ := tokens_enclosed hrest
      have hargument : Writable h .disjunction arg (parts str.text arg) := (ih
        hfaithful).disjunction
      rw [joined] at hinner
      obtain rfl := value_of_shape ht
      cases distinct with
      | false => exact .function ⟨kind_of_shape ht, hname⟩ hl (hargument inner hinner) hr
      | true =>
          obtain ⟨d, inner, rfl, hd, hinner⟩ := tokens_cons hinner
          exact .distinctFunction ⟨kind_of_shape ht, hname⟩ hl (keyword_of_shape hd)
            (hargument inner hinner) hr
  | point hx hy ihx ihy =>
      intro ts hts
      simp only [parts] at hts
      obtain ⟨t, rest, rfl, ht, hrest⟩ := tokens_call hts
      exact .point (keyword_of_shape ht)
        (writes_pair (ihy hfaithful.2).disjunction (ihx hfaithful.1).disjunction hrest)
  | @distance left right metric hleft hright hmetric ihl ihr =>
      intro ts hts
      have hne : metric ≠ "" := by
        rintro rfl
        exact absurd hmetric (by decide)
      simp only [parts] at hts
      rw [if_pos hne] at hts
      obtain ⟨t, rest, rfl, ht, hrest⟩ := tokens_call hts
      obtain ⟨l, inner, r, rfl, hl, hinner, hr⟩ := tokens_enclosed hrest
      rw [cons_append, cons_append, nil_append, joined_cons (cons_ne_nil _ _),
        shapes_append, shapes_word, shapes_gap] at hinner
      obtain ⟨ts₁, c, more, rfl, h₁, hc, hmore⟩ := tokens_infix hinner
      rw [joined_cons (cons_ne_nil _ _), shapes_append, shapes_word, shapes_gap] at hmore
      obtain ⟨ts₂, c', more, rfl, h₂, hc', hmore⟩ := tokens_infix hmore
      obtain ⟨m, rfl, hm⟩ := tokens_single hmore
      have hname : normalizeMetric h m.value = .ok metric := by
        rw [value_of_shape hm, normalize_metric_name hmetric]
      have hdistance := Writes.distanceMetric (keyword_of_shape ht) hl
        ((ihl hfaithful.1).disjunction ts₁ h₁) (kind_of_shape hc)
        ((ihr hfaithful.2).disjunction ts₂ h₂) (kind_of_shape hc') (kind_of_shape hm) hname hr
      simpa [WritesAt, rank] using hdistance
  | polygon hvertices hpoints hne ih => exact hfaithful.elim
  | intersects hleft hright ihl ihr =>
      intro ts hts
      simp only [parts] at hts
      obtain ⟨t, rest, rfl, ht, hrest⟩ := tokens_call hts
      exact .intersects (keyword_of_shape ht)
        (writes_pair (ihl hfaithful.1).disjunction (ihr hfaithful.2).disjunction hrest)
  | binary hop hleft hright ihl ihr =>
      exact writable_binary hop (ihl hfaithful.2.1) (ihr hfaithful.2.2) hfaithful.1
  | @compare left right op hop hleft hright ihl ihr =>
      intro ts hts
      obtain ⟨hfits₁, hfits₂, hfaithful₁, hfaithful₂⟩ := hfaithful
      have hstar : op ≠ "*" := by
        rintro rfl
        exact absurd hop (by decide)
      simp only [parts, operator] at hts
      rw [if_neg hstar] at hts
      obtain ⟨ts₁, o, ts₂, rfl, h₁, ho, h₂⟩ := tokens_spaced hts
      obtain rfl := value_of_shape ho
      exact .compare ((ihl hfaithful₁).arithmetic hfits₁ ts₁ h₁) ⟨kind_of_shape ho, hop⟩
        ((ihr hfaithful₂).arithmetic hfits₂ ts₂ h₂)
  | isNull hvalue negated ih =>
      intro ts hts
      obtain ⟨hfits, hfaithful⟩ := hfaithful
      simp only [parts] at hts
      obtain ⟨ts₁, i, more, rfl, h₁, hi, hmore⟩ := tokens_spaced hts
      have hwrites := (ih hfaithful).arithmetic hfits ts₁ h₁
      cases negated with
      | false =>
          obtain ⟨n, rfl, hn⟩ := tokens_single hmore
          exact .isNull hwrites (keyword_of_shape hi) (kind_of_shape hn)
      | true =>
          obtain ⟨o, more, rfl, ho, hmore⟩ := tokens_cons hmore
          obtain ⟨n, rfl, hn⟩ := tokens_single hmore
          exact .isNotNull hwrites (keyword_of_shape hi) (keyword_of_shape ho) (kind_of_shape hn)
  | between hvalue hlo hhi ih₁ ih₂ ih₃ =>
      intro ts hts
      obtain ⟨hfits₁, hfits₂, hfits₃, hfaithful₁, hfaithful₂, hfaithful₃⟩ := hfaithful
      simp only [parts] at hts
      obtain ⟨front, a, ts₃, rfl, hfront, ha, h₃⟩ := tokens_spaced hts
      obtain ⟨ts₁, b, ts₂, rfl, h₁, hb, h₂⟩ := tokens_spaced hfront
      exact .between ((ih₁ hfaithful₁).arithmetic hfits₁ ts₁ h₁) (keyword_of_shape hb)
        ((ih₂ hfaithful₂).arithmetic hfits₂ ts₂ h₂) (keyword_of_shape ha)
        ((ih₃ hfaithful₃).arithmetic hfits₃ ts₃ h₃)
  | @inList value items hvalue hitems hne ih ihs =>
      intro ts hts
      obtain ⟨hfits, hfaithful, hall⟩ := hfaithful
      rw [faithfulItems_iff] at hall
      simp only [parts] at hts
      obtain ⟨ts₁, i, more, rfl, h₁, hi, hmore⟩ := tokens_spaced hts
      obtain ⟨l, inner, r, rfl, hl, hinner, hr⟩ := tokens_enclosed hmore
      have hlist := writes_items (h := h) hne
        (fun e he => (ihs e he (hall e he).2).arithmetic (hall e he).1) hinner
      have hin := Writes.inList ((ih hfaithful).arithmetic hfits ts₁ h₁) (keyword_of_shape hi) hl
        hlist hr
      simpa [WritesAt, rank] using hin
  | like hvalue hpattern ih₁ ih₂ =>
      intro ts hts
      obtain ⟨hfits₁, hfits₂, hfaithful₁, hfaithful₂⟩ := hfaithful
      simp only [parts] at hts
      obtain ⟨ts₁, l, ts₂, rfl, h₁, hl, h₂⟩ := tokens_spaced hts
      exact .like ((ih₁ hfaithful₁).arithmetic hfits₁ ts₁ h₁) (keyword_of_shape hl)
        ((ih₂ hfaithful₂).arithmetic hfits₂ ts₂ h₂)
  | not hoperand ih =>
      intro ts hts
      simp only [parts] at hts
      obtain ⟨n, rest, rfl, hn, hrest⟩ := tokens_cons hts
      exact .not (keyword_of_shape hn) ((ih hfaithful).negation rest hrest)
  | logical hop hleft hright ihl ihr =>
      intro ts hts
      simp only [parts] at hts
      obtain ⟨l, inner, r, rfl, hl, hinner, hr⟩ := tokens_enclosed hts
      obtain ⟨ts₁, o, ts₂, rfl, h₁, ho, h₂⟩ := tokens_spaced hinner
      refine .group hl ?_ hr
      rcases hop with rfl | rfl
      · exact .disjunction (.and ((ihl hfaithful.1).conjunction ts₁ h₁) (keyword_of_shape ho)
          ((ihr hfaithful.2).negation ts₂ h₂))
      · exact .or ((ihl hfaithful.1).disjunction ts₁ h₁) (keyword_of_shape ho)
          ((ihr hfaithful.2).conjunction ts₂ h₂)

end Written

/-! ## Numbers of a faithful expression -/

section Numbers

variable {us vs : List Shape} {s : Shape} {kind : TokenKind} {value op : String}
  {lexeme : List Char} {items left right : List Item} {arguments : List (List Item)}

def Numbered (items : List Item) : Prop := ∀ s ∈ shapes items, s.1 = .NUMBER → Positional s.2

theorem numbered_append (hleft : Numbered left) (hright : Numbered right) :
    Numbered (left ++ right) := by
  rw [Numbered, shapes_append]
  exact forall_mem_append.mpr ⟨hleft, hright⟩

theorem numbered_cons (hkind : kind ≠ .NUMBER) (hitems : Numbered items) :
    Numbered (.token kind value lexeme :: items) :=
  forall_mem_cons.mpr ⟨fun hnumber => absurd hnumber hkind, hitems⟩

theorem numbered_nil : Numbered [] := fun _ hmem => nomatch hmem

theorem numbered_single (hkind : kind ≠ .NUMBER) : Numbered [.token kind value lexeme] :=
  numbered_cons hkind numbered_nil

theorem numbered_spaced (hleft : Numbered left) (hkind : kind ≠ .NUMBER) (hright : Numbered right) :
    Numbered (spaced left (word kind value) right) :=
  numbered_append hleft (show Numbered (.token kind value value.toList :: gap :: right) from
    numbered_cons hkind hright)

theorem numbered_operator (hleft : Numbered left) (hright : Numbered right) :
    Numbered (spaced left (operator op) right) := by
  rw [operator]
  split <;> exact numbered_spaced hleft (by decide) hright

theorem numbered_enclosed (hitems : Numbered items) : Numbered (enclosed items) :=
  numbered_append (numbered_cons (by decide) hitems) (numbered_single (by decide))

theorem numbered_joined (hall : ∀ items ∈ arguments, Numbered items) : Numbered (joined arguments)
    := by
  fun_induction joined arguments with
  | case1 => exact numbered_nil
  | case2 items => exact hall items mem_cons_self
  | case3 items more hne ih =>
      rw [forall_mem_cons] at hall
      exact numbered_append hall.1 (numbered_cons (by decide) (ih hall.2))

theorem numbered_call (hkind : kind ≠ .NUMBER) (hall : ∀ items ∈ arguments, Numbered items) :
    Numbered (call (.token kind value lexeme) arguments) :=
  numbered_cons hkind (numbered_enclosed (numbered_joined hall))

theorem numbered_distinct (distinct : Bool) (hitems : Numbered items) :
    Numbered ((if distinct then [word .KEYWORD "DISTINCT", gap] else []) ++ items) := by
  cases distinct with
  | false => exact hitems
  | true => exact numbered_cons (by decide) hitems

theorem numbered_number (hvalue : Positional value) : Numbered [numberPart value] :=
  forall_mem_singleton.mpr fun _ => hvalue

theorem numbered_int (str : Str h) (i : Int) : Numbered (literalParts str.text (.int i)) := by
  refine numbered_number ?_
  rw [str.int]
  exact (spelled_number (spelled_int (h := h) i)).2

theorem numbers_parts (str : Str h) {e : Expr} (he : Produced h e)
    (hfaithful : Faithful str.text e) : Numbered (parts str.text e) := by
  induction he with
  | number hraw hvalue =>
      simp only [parts]
      rcases number_value_cases hvalue with ⟨_, rfl⟩ | ⟨i, _, rfl⟩
      · have hpositional : Positional (str.text (.float (h.float _))) := hfaithful
        rw [literalParts, float_parts_of_positional hpositional]
        · exact numbered_number hpositional
        all_goals simp
      · exact numbered_int str i
  | string value | null | column hname =>
      simp only [parts]
      exact numbered_single (by decide)
  | bool value =>
      simp only [parts]
      exact numbered_single (by decide)
  | parameter hindex | polygon => exact hfaithful.elim
  | score hkind =>
      simp only [parts]
      exact numbered_call (by decide) (fun _ hmem => by cases hmem)
  | similarTo reference hraw hdigits hcount =>
      simp only [parts]
      refine numbered_call (by decide) (forall_mem_cons.mpr ⟨numbered_single (by decide),
        forall_mem_singleton.mpr ?_⟩)
      exact numbered_cons (by decide) (numbered_cons (by decide) (numbered_int str _))
  | search hcolumn query | matchQuery hcolumn query =>
      simp only [parts]
      exact numbered_call (by decide) (forall_mem_cons.mpr ⟨numbered_single (by decide),
        forall_mem_singleton.mpr (numbered_single (by decide))⟩)
  | countStar =>
      simp only [parts]
      exact numbered_call (by decide) (forall_mem_singleton.mpr (numbered_single (by decide)))
  | function hname harg distinct ih =>
      simp only [parts]
      exact numbered_call (by decide)
        (forall_mem_singleton.mpr (numbered_distinct distinct (ih hfaithful)))
  | point hx hy ihx ihy =>
      simp only [parts]
      exact numbered_call (by decide) (forall_mem_cons.mpr ⟨ihy hfaithful.2,
        forall_mem_singleton.mpr (ihx hfaithful.1)⟩)
  | distance hleft hright hmetric ihl ihr =>
      simp only [parts]
      refine numbered_call (by decide) (forall_mem_append.mpr
        ⟨forall_mem_cons.mpr ⟨ihl hfaithful.1, forall_mem_singleton.mpr (ihr
          hfaithful.2)⟩,
          ?_⟩)
      split
      · exact forall_mem_singleton.mpr (numbered_single (by decide))
      · exact fun _ hmem => by cases hmem
  | intersects hleft hright ihl ihr =>
      simp only [parts]
      exact numbered_call (by decide) (forall_mem_cons.mpr ⟨ihl hfaithful.1,
        forall_mem_singleton.mpr (ihr hfaithful.2)⟩)
  | binary hop hleft hright ihl ihr =>
      simp only [parts]
      exact numbered_operator (ihl hfaithful.2.1) (ihr hfaithful.2.2)
  | compare hop hleft hright ihl ihr =>
      simp only [parts]
      exact numbered_operator (ihl hfaithful.2.2.1) (ihr hfaithful.2.2.2)
  | isNull hvalue negated ih =>
      simp only [parts]
      have hnull : Numbered [word .NULL "NULL"] := numbered_single (by decide)
      refine numbered_spaced (ih hfaithful.2) (by decide) ?_
      cases negated with
      | false => exact hnull
      | true => exact numbered_cons (by decide) hnull
  | between hvalue hlo hhi ih₁ ih₂ ih₃ =>
      obtain ⟨_, _, _, hfaithful₁, hfaithful₂, hfaithful₃⟩ := hfaithful
      simp only [parts]
      exact numbered_spaced (numbered_spaced (ih₁ hfaithful₁) (by decide) (ih₂ hfaithful₂))
        (by decide) (ih₃ hfaithful₃)
  | inList hvalue hitems hne ih ihs =>
      obtain ⟨_, hfaithful, hall⟩ := hfaithful
      rw [faithfulItems_iff] at hall
      simp only [parts]
      refine numbered_spaced (ih hfaithful) (by decide) (numbered_enclosed (numbered_joined ?_))
      intro items hmem
      obtain ⟨e, he, rfl⟩ := mem_parts_list hmem
      exact ihs e he (hall e he).2
  | like hvalue hpattern ih₁ ih₂ =>
      simp only [parts]
      exact numbered_spaced (ih₁ hfaithful.2.2.1) (by decide) (ih₂ hfaithful.2.2.2)
  | not hoperand ih =>
      simp only [parts]
      exact numbered_cons (by decide) (ih hfaithful)
  | logical hop hleft hright ihl ihr =>
      simp only [parts]
      exact numbered_enclosed (numbered_spaced (ihl hfaithful.1) (by decide) (ihr hfaithful.2))

end Numbers

/-! ## Reading a rendering -/

/-- An expression that the parser takes from the tokens of a text, or the star of a SELECT
list. -/
def Parsed (h : Host) (e : Expr) : Prop :=
  ∃ sql before tokens rest, Lexer.tokenize h sql = .ok (before ++ tokens) ∧
    (expression h tokens = .ok (e, rest) ∨
      e = .StarExpr ∧ ∃ star, star.kind = .STAR ∧ tokens = star :: rest)

section Reading

variable {str : Str h} {e : Expr}

theorem produced_of_expression {sql : List Char} {before tokens rest : List Token}
    (htokens : Lexer.tokenize h sql = .ok (before ++ tokens))
    (hexpr : expression h tokens = .ok (e, rest)) : Produced h e := by
  obtain ⟨used, rfl, hused⟩ := sound_expression h _ _ _ hexpr
  obtain ⟨front, hfront, hlexical⟩ := lexical_of_tokens_from htokens
  refine produced_of_writes hused fun t ht => ?_
  have hmem : t ∈ front ++ [⟨.EOF, "", sql.length⟩] := by
    rw [← hfront]
    simp [ht]
  rcases mem_append.mp hmem with hmem | hmem
  · exact hlexical t hmem
  · rw [mem_singleton] at hmem
    exact absurd (by rw [hmem]) ((orderly_of_writes hused).plain t ht).1

theorem tokenize_rendering (hreads : Lexer.Reads h (parts str.text e) []) :
    Lexer.tokenize h (formatExpr str.text e).toList =
      .ok (Lexer.itemTokens 0 (parts str.text e) ++
        [⟨.EOF, "", (formatExpr str.text e).toList.length⟩]) := by
  have htokens := tokenize_items hreads
  rwa [append_nil, Lexer.lex_nil, ok_bind, text_parts] at htokens

theorem reads_of_legible {items : List Item} {rest : List Char} (hlegible : Legible h items rest)
    (hnumbers : ∀ s ∈ shapes items, s.1 = .NUMBER → Positional s.2) :
    Lexer.Reads h items rest := by
  induction items with
  | nil => trivial
  | cons item items ih =>
      cases item with
      | space c => exact ⟨hlegible.1, ih hlegible.2 hnumbers⟩
      | token kind value lexeme =>
          rw [shapes_token, forall_mem_cons] at hnumbers
          obtain ⟨⟨hspelled, hends⟩ | ⟨hkind, rfl, hexponent⟩, hlegible⟩ := hlegible
          · exact ⟨hspelled, hends, ih hlegible hnumbers.2⟩
          · exact absurd (hnumbers.1 hkind) (exponent_not_positional hexponent)

theorem lexical_of_reads {items : List Item} {rest : List Char} {i : Nat}
    (hreads : Lexer.Reads h items rest) : ∀ t ∈ Lexer.itemTokens i items, Lexical h t := by
  induction items generalizing i with
  | nil => exact fun _ hmem => nomatch hmem
  | cons item items ih =>
      cases item with
      | space c => exact ih hreads.2
      | token kind value lexeme =>
          exact forall_mem_cons.mpr ⟨⟨lexeme, hreads.1⟩, ih hreads.2.2⟩

theorem parse_rendering (he : Produced h e) :
    parseText h (formatExpr str.text e).toList = .ok e ↔ Faithful str.text e := by
  have hshapes := @shapes_item_tokens (parts str.text e) 0
  have hlegible := placeable_parts str he [] stop_nil
  constructor
  · intro hparse
    rcases reads_or_rejected hlegible with hreads | hrejected
    · have hplain : ∀ t ∈ Lexer.itemTokens 0 (parts str.text e),
          t.kind ≠ .EOF ∧ t.kind ≠ .SEMICOLON := fun t ht =>
        no_end_parts e (Token.shape t) (hshapes ▸ mem_map_of_mem ht)
      have hwrites := writes_of_parse_text (tokenize_rendering hreads) hplain hparse
      exact ((rendered_of_writes hwrites (lexical_of_reads hreads)).1 hshapes).1
    · obtain ⟨error, herror⟩ := hrejected (formatExpr str.text e).toList.length
      rw [append_nil, text_parts] at herror
      rw [parseText, Lexer.tokenize_eq, herror] at hparse
      cases hparse
  · intro hfaithful
    have hwrites := (writable_parts str he hfaithful).disjunction _ hshapes
    have hreads := reads_of_legible hlegible (numbers_parts str he hfaithful)
    exact parse_text_of_tokens (tokenize_rendering hreads) rfl hwrites

theorem Parsed.cases (he : Parsed h e) : e = .StarExpr ∨ e ≠ .StarExpr ∧ Produced h e := by
  obtain ⟨sql, before, tokens, rest, htokens, hexpr | ⟨hstar, _⟩⟩ := he
  · have hproduced := produced_of_expression htokens hexpr
    refine Or.inr ⟨?_, hproduced⟩
    rintro rfl
    cases hproduced
  · exact Or.inl hstar

theorem parse_selected_iff {sql : List Char} (hne : e ≠ .StarExpr) :
    parseSelected h sql = .ok e ↔ parseText h sql = .ok e := by
  rw [parseSelected]
  constructor
  · intro hparse
    obtain ⟨tokens, _, hparse⟩ := bind_eq_ok.mp hparse
    split at hparse
    · split at hparse
      · cases hparse
        exact absurd rfl hne
      · exact hparse
    · exact hparse
  · intro hparse
    obtain ⟨tokens, used, t, rest, htokens, rfl, hused, _⟩ := parse_text_eq_ok hparse
    obtain ⟨first, more, rfl, _, hfirst⟩ := first_of_writes hused
    rw [htokens, ok_bind]
    split
    · next star _ hlist =>
        obtain ⟨rfl, _⟩ := List.cons.inj hlist
        rwa [if_neg hfirst]
    · exact hparse

theorem parse_star : parseSelected h (formatExpr str.text .StarExpr).toList = .ok .StarExpr := by
  have hreads : Lexer.Reads h (parts str.text .StarExpr) [] :=
    ⟨Lexer.Spelled.punctuation (c := '*') rfl, trivial, trivial⟩
  rw [parseSelected, tokenize_rendering hreads]
  rfl

theorem parse_selected_rendering (he : Parsed h e) :
    parseSelected h (formatExpr str.text e).toList = .ok e ↔ Faithful str.text e := by
  rcases he.cases with rfl | ⟨hne, hproduced⟩
  · exact iff_of_true parse_star trivial
  · rw [parse_selected_iff hne, parse_rendering hproduced]

/-- Parsing the rendering of an expression gives it back exactly when the expression is faithful,
and no two faithful expressions have one rendering. -/
theorem format_expr_exact (h : Host) (str : Str h) (e : Expr) (he : Parsed h e) :
    (parseSelected h (formatExpr str.text e).toList = .ok e ↔ Faithful str.text e) ∧
      ∀ e', Parsed h e' → Faithful str.text e → Faithful str.text e' →
        formatExpr str.text e' = formatExpr str.text e → e' = e := by
  refine ⟨parse_selected_rendering he, fun e' he' hfaithful hfaithful' hsame => ?_⟩
  have hparse := (parse_selected_rendering he).mpr hfaithful
  have hparse' := (parse_selected_rendering he').mpr hfaithful'
  rw [hsame, hparse] at hparse'
  cases hparse'
  rfl

end Reading

/-! ## A product of a sum -/

/-- A rational with this many decimals. -/
def decimals (q : ℚ) (places : Nat) : List Char :=
  let scaled := Double.roundHalfEven (q * 10 ^ places)
  let fraction := Nat.toDigits 10 (scaled % 10 ^ places)
  Nat.toDigits 10 (scaled / 10 ^ places) ++
    '.' :: (replicate (places - fraction.length) '0' ++ fraction)

theorem unsigned_decimals (q : ℚ) (places : Nat) : Unsigned (decimals q places) := by
  refine Unsigned.decimal Nat.toDigits_ne_nil
    (fun _ hc => Nat.isDigit_of_mem_toDigits (by decide) (by decide) hc) ?_
  intro c hc
  rcases mem_append.mp hc with hc | hc
  · rw [eq_of_mem_replicate hc]
    rfl
  · exact Nat.isDigit_of_mem_toDigits (by decide) (by decide) hc

def signed (bits : UInt64) (text : List Char) : List Char :=
  if Double.negative bits then '-' :: text else text

/-- The fewest decimals that give a float back, from 0.0001 up to 16 digits before the point. -/
def shortest (bits : UInt64) : Option (List Char) :=
  let size : ℚ := mkRat (Double.magnitude bits) (2 ^ 1074)
  if size = 0 ∨ 1 ≤ size * 10 ^ 4 ∧ size < 10 ^ 16 then
    ((range 21).map (fun places => decimals size (places + 1))).find?
      (fun text => Host.ascii.float (String.ofList (signed bits text)) = bits)
  else none

/-- `str` of a float: decimals, or an exponent, or an infinity. -/
def floatText (bits : UInt64) : List Char :=
  if Double.isFinite bits then
    match shortest bits with
    | some text => signed bits text
    | none => signed bits (Nat.toDigits 10 (Double.magnitude bits) ++ ['e'])
  else signed bits ['i', 'n', 'f']

theorem float_of_shortest {bits : UInt64} {text : List Char} (h : shortest bits = some text) :
    Unsigned text ∧ '.' ∈ text ∧ Host.ascii.float (String.ofList (signed bits text)) = bits := by
  rw [shortest] at h
  split at h
  · have hfloat := find?_some h
    obtain ⟨places, _, rfl⟩ := mem_map.mp (mem_of_find?_eq_some h)
    exact ⟨unsigned_decimals _ _, mem_append_right _ mem_cons_self,
      of_decide_eq_true hfloat⟩
  · cases h

theorem float_text_cases (bits : UInt64) :
    (Spelled .ascii .NUMBER (String.ofList (floatText bits)) (floatText bits) ∧
        '.' ∈ floatText bits ∧ Host.ascii.float (String.ofList (floatText bits)) = bits) ∨
      Exponent (floatText bits) ∨ floatText bits = ['i', 'n', 'f'] ∨
      floatText bits = ['-', 'i', 'n', 'f'] := by
  rw [floatText]
  split
  · split
    · next text htext =>
        obtain ⟨hunsigned, hpoint, hfloat⟩ := float_of_shortest htext
        refine Or.inl ⟨?_, ?_, hfloat⟩
        · rw [signed]
          split
          · exact Spelled.negative hunsigned
          · exact Spelled.number hunsigned
        · rw [signed]
          split
          · exact mem_cons_of_mem _ hpoint
          · exact hpoint
    · refine Or.inr (Or.inl ⟨_, [], unsigned_toDigits (Double.magnitude bits), ?_⟩)
      rw [signed]
      split
      · exact Or.inr rfl
      · exact Or.inl rfl
  · rw [signed]
    split
    · exact Or.inr (Or.inr (Or.inr rfl))
    · exact Or.inr (Or.inr (Or.inl rfl))

/-- `str` in the host language. -/
def Str.ascii : Str Host.ascii where
  text
    | .int i => String.ofList (intText i)
    | .float bits => String.ofList (floatText bits)
    | _ => ""
  int _ := rfl
  float raw _ _ _ := by
    rcases float_text_cases (Host.ascii.float raw) with ⟨hspelled, hpoint, hfloat⟩ | h | h | h
    · exact Or.inl ⟨by rwa [String.toList_ofList], by rwa [String.toList_ofList], hfloat⟩
    · exact Or.inr (Or.inl (by rwa [String.toList_ofList]))
    · exact Or.inr (Or.inr (Or.inl (congrArg String.ofList h)))
    · exact Or.inr (Or.inr (Or.inr (congrArg String.ofList h)))

/-- `(a + b) * c`. -/
def productOfSum : Expr :=
  .BinaryExpr (.BinaryExpr (.ColumnRef "a") "+" (.ColumnRef "b")) "*" (.ColumnRef "c")

/-- `a + b * c`. -/
def sumOfProduct : Expr :=
  .BinaryExpr (.ColumnRef "a") "+" (.BinaryExpr (.ColumnRef "b") "*" (.ColumnRef "c"))

theorem parsed_of_text (sql : List Char) {tokens rest : List Token} {e : Expr}
    (htokens : Lexer.tokenize h sql = .ok tokens) (hexpr : expression h tokens = .ok (e, rest)) :
    Parsed h e := ⟨sql, [], tokens, rest, htokens, Or.inl hexpr⟩

theorem parsed_sum_of_product : Parsed .ascii sumOfProduct :=
  parsed_of_text ['a', '+', 'b', '*', 'c'] rfl rfl

theorem parsed_product_of_sum : Parsed .ascii productOfSum :=
  parsed_of_text ['(', 'a', '+', 'b', ')', '*', 'c'] rfl rfl

/-- `a + 0.5 * b`. -/
def halfAdded : Expr :=
  .BinaryExpr (.ColumnRef "a") "+"
    (.BinaryExpr (.Literal (.float (Host.ascii.float "0.5"))) "*" (.ColumnRef "b"))

theorem format_expr_exact_half_added :
    (parseSelected .ascii (formatExpr Str.ascii.text halfAdded).toList = .ok halfAdded ↔
        Faithful Str.ascii.text halfAdded) ∧
      ∀ e', Parsed .ascii e' → Faithful Str.ascii.text halfAdded → Faithful Str.ascii.text e' →
        formatExpr Str.ascii.text e' = formatExpr Str.ascii.text halfAdded → e' = halfAdded :=
  format_expr_exact .ascii .ascii halfAdded
    (parsed_of_text ['a', '+', '0', '.', '5', '*', 'b'] rfl rfl)

/-- `(a + b) * c` is rendered as `a + b * c`, which is another expression. -/
theorem product_of_sum_not_read_back :
    Parsed .ascii productOfSum ∧ Parsed .ascii sumOfProduct ∧ productOfSum ≠ sumOfProduct ∧
      formatExpr Str.ascii.text productOfSum =
        formatExpr Str.ascii.text sumOfProduct ∧
      parseSelected .ascii (formatExpr Str.ascii.text productOfSum).toList =
        .ok sumOfProduct := by
  have hparts : Lexer.text (parts Str.ascii.text productOfSum) =
      ['a', ' ', '+', ' ', 'b', ' ', '*', ' ', 'c'] := rfl
  refine ⟨parsed_product_of_sum, parsed_sum_of_product, ?_, ?_, ?_⟩
  · intro heq
    cases heq
  · rw [← String.toList_inj, ← text_parts, ← text_parts]
    rfl
  · rw [← text_parts, hparts]
    rfl

end SoupDB.Parser
