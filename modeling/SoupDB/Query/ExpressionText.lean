import SoupDB.Query.Spelling
import SoupDB.Query.TokenOrder

/-!
# SoupDB: texts of expressions

A text writes an expression with the parentheses that the documented precedence requires, or
more, with white space or without.  It is parsed to that expression unless a minus between two
operands stands directly before a digit, which the tokenizer takes for a sign.

Main fact: `expression_text_exact`.
-/

namespace SoupDB.Parser

open Lexer

variable (h : Host)

/-- Each part of the text is white space or spells its token. -/
def Written (items : List Item) : Prop :=
  ∀ item ∈ items, match item with
    | .space c => c ∈ Lexer.WHITESPACE
    | .token kind value lexeme => Spelled h kind value lexeme

def wordlike : List TokenKind := [.KEYWORD, .NULL, .IDENTIFIER, .NUMBER, .PARAMETER]

/-- No character of a word stands directly after a word, a number or a parameter. -/
def Apart : List Item → Prop
  | [] => True
  | .space _ :: items => Apart items
  | .token kind _ _ :: items =>
      (kind ∈ wordlike → ∀ c ∈ (text items).head?, isIdentifierPart h c = false) ∧
        Apart items

/-- No minus operator stands directly before a digit. -/
def Unglued : List Item → Prop
  | [] => True
  | .space _ :: items => Unglued items
  | .token _ _ lexeme :: items =>
      (lexeme = ['-'] → ∀ c ∈ (text items).head?, c.isDigit = false) ∧ Unglued items

/-- A property of the first character, where there is one. -/
def decidableHead (p : Char → Prop) [DecidablePred p] :
    (head : Option Char) → Decidable (∀ c ∈ head, p c)
  | none => isTrue (fun _ hc => nomatch hc)
  | some c => decidable_of_iff (p c) (by simp)

instance decidableApart : (items : List Item) → Decidable (Apart h items)
  | [] => isTrue trivial
  | .space _ :: items => decidableApart items
  | .token kind _ _ :: items =>
      have := decidableApart items
      have := decidableHead (fun c => isIdentifierPart h c = false) (text items).head?
      inferInstanceAs (Decidable ((kind ∈ wordlike → ∀ c ∈ (text items).head?,
        isIdentifierPart h c = false) ∧ Apart h items))

/-! ## The first character of a lexeme -/

section Lexemes

variable {h} {c : Char} {kind : TokenKind} {value : String} {lexeme : List Char}

theorem isspace_of_part (hc : isIdentifierPart h c = true) : h.isspace c = false := by
  rw [isIdentifierPart, Bool.or_eq_true, decide_eq_true_iff] at hc
  rcases hc with rfl | halnum
  · rw [h.isspace_ascii '_' (by decide)]
    decide
  · exact h.isspace_of_isalnum c halnum

theorem isspace_of_sign
    (hc : c ∈ ['>', '<', '!', '=', '+', '-', '/', '%', '*', '(', ')', ',', ';', '\'', '$']) :
    h.isspace c = false := by
  have hall : ∀ c ∈ ['>', '<', '!', '=', '+', '-', '/', '%', '*', '(', ')', ',', ';', '\'', '$'],
      c.toNat < 128 ∧ (c.toNat == 32 || 9 ≤ c.toNat && c.toNat ≤ 13 ||
        28 ≤ c.toNat && c.toNat ≤ 31) = false :=
    List.all_iff_forall_prop.mp (by decide)
  obtain ⟨hascii, hspace⟩ := hall c hc
  rw [h.isspace_ascii c hascii, hspace]

theorem isspace_of_whitespace (hc : c ∈ Lexer.WHITESPACE) : h.isspace c = true := by
  have hall : ∀ c ∈ Lexer.WHITESPACE, c.toNat < 128 ∧ (c.toNat == 32 || 9 ≤ c.toNat &&
      c.toNat ≤ 13 || 28 ≤ c.toNat && c.toNat ≤ 31) = true :=
    List.all_iff_forall_prop.mp (by decide)
  obtain ⟨hascii, hspace⟩ := hall c hc
  rw [h.isspace_ascii c hascii, hspace]

/-- What the first character of a lexeme says about its token. -/
structure Heads (h : Host) (kind : TokenKind) (first : Char) : Prop where
  point : first ≠ '.'
  quote : first = '\'' → kind = .STRING
  operator : first ∈ ['=', '>'] → kind = .OPERATOR
  lparen : first = '(' ↔ kind = .LPAREN
  space : h.isspace first = false

theorem heads_word (hword : Lexer.IsWord h lexeme) (hkind : kind ≠ .LPAREN) :
    ∃ first more, lexeme = first :: more ∧ Heads h kind first := by
  obtain ⟨first, more, rfl, hfirst, _⟩ := hword
  have hne : ∀ d ∈ ['.', '\'', '=', '>', '('], first ≠ d := by
    have hplain : ∀ d ∈ ['.', '\'', '=', '>', '('], d.toNat < 128 ∧ d.isAlpha = false ∧
        d ≠ '_' :=
      List.all_iff_forall_prop.mp (by decide)
    intro d hd
    obtain ⟨hascii, halpha, hunder⟩ := hplain d hd
    exact start_ne hfirst hascii halpha hunder
  simp only [List.forall_mem_cons] at hne
  refine ⟨first, more, rfl, hne.1, fun heq => absurd heq hne.2.1, ?_, ?_, ?_⟩
  · intro hmem
    simp [hne] at hmem
  · exact iff_of_false hne.2.2.2.2.1 hkind
  · exact isspace_of_part (part_of_start hfirst)

theorem heads_number (hnumber : Unsigned lexeme) :
    ∃ first more, lexeme = first :: more ∧ Heads h .NUMBER first := by
  obtain ⟨first, more, rfl, hfirst⟩ := hnumber.head
  have hne : ∀ d, d.isDigit = false → first ≠ d := by
    rintro d hd rfl
    rw [hfirst] at hd
    cases hd
  refine ⟨first, more, rfl, hne _ (by decide), fun heq => absurd heq (hne _ (by decide)), ?_, ?_,
    ?_⟩
  · intro hmem
    simp [hne '=' (by decide), hne '>' (by decide)] at hmem
  · exact iff_of_false (hne _ (by decide)) (by decide)
  · exact isspace_of_part (part_of_digit hfirst)

theorem spelled_heads (hspelled : Spelled h kind value lexeme) :
    ∃ first more, lexeme = first :: more ∧ Heads h kind first := by
  cases hspelled with
  | keyword hword | aliasName hword | null hword | identifier hword =>
      exact heads_word hword (by decide)
  | number hnumber => exact heads_number hnumber
  | negative _ | string _ | parameter _ _ =>
      exact ⟨_, _, rfl, by decide, by decide, by decide, by decide, isspace_of_sign (by decide)⟩
  | operator hmem =>
      obtain ⟨first, more, rfl, _⟩ := operator_shape hmem
      have hplain : ∀ c ∈ ['>', '<', '!', '=', '+', '-', '/', '%'], c ≠ '.' ∧ c ≠ '\'' ∧ c ≠ '(' ∧
          c ∈ ['>', '<', '!', '=', '+', '-', '/', '%', '*', '(', ')', ',', ';', '\'', '$'] :=
        List.all_iff_forall_prop.mp (by decide)
      obtain ⟨hpoint, hquote, hlparen, hsign⟩ := hplain first (operator_head hmem)
      exact ⟨first, more, rfl, hpoint, fun heq => absurd heq hquote, fun _ => rfl,
        iff_of_false hlparen (by decide), isspace_of_sign hsign⟩
  | @punctuation c kind hkind =>
      have hplain : ∀ c ∈ ['*', '(', ')', ',', ';'], c ≠ '.' ∧ c ≠ '\'' ∧ c ∉ ['=', '>'] ∧
          c ∈ ['>', '<', '!', '=', '+', '-', '/', '%', '*', '(', ')', ',', ';', '\'', '$'] ∧
          (c = '(' ↔ Lexer.punctuation c = some .LPAREN) :=
        List.all_iff_forall_prop.mp (by decide)
      obtain ⟨hpoint, hquote, hoperator, hsign, hlparen⟩ := hplain c (punctuation_mem hkind)
      rw [hkind, Option.some.injEq] at hlparen
      exact ⟨c, [], rfl, hpoint, fun heq => absurd heq hquote, fun hmem => absurd hmem hoperator,
        hlparen, isspace_of_sign hsign⟩

end Lexemes

/-! ## What follows a lexeme -/

section Following

variable {h} {items : List Item} {c : Char} {i : Nat} {kind : TokenKind} {value : String}
  {lexeme : List Char}

/-- The next character is white space or starts the next token. -/
theorem head_text (hwritten : Written h items) (hc : c ∈ (text items).head?) :
    c ∈ Lexer.WHITESPACE ∨ ∀ i, ∃ t ∈ (itemTokens i items).head?, Heads h t.kind c := by
  cases items with
  | nil => cases hc
  | cons item items =>
      have hitem := hwritten item List.mem_cons_self
      cases item with
      | space d =>
          cases hc
          exact Or.inl hitem
      | token kind value lexeme =>
          obtain ⟨first, more, rfl, hheads⟩ := spelled_heads hitem
          cases hc
          exact Or.inr fun i => ⟨_, rfl, hheads⟩

theorem opens_call_text (hwritten : Written h items) :
    opensCall h (text items) = true ↔ ∃ t ∈ (itemTokens i items).head?, t.kind = .LPAREN := by
  induction items generalizing i with
  | nil => simp [opensCall, itemTokens]
  | cons item items ih =>
      have hitem := hwritten item List.mem_cons_self
      cases item with
      | space d =>
          have hd : h.isspace d = true := isspace_of_whitespace hitem
          have hskip : opensCall h (text (.space d :: items)) = opensCall h (text items) := by
            rw [text_cons, Item.text, List.singleton_append, opensCall,
              List.dropWhile_cons_of_pos hd, opensCall]
          rw [hskip, itemTokens]
          exact ih fun item hmem => hwritten item (List.mem_cons_of_mem _ hmem)
      | token kind value lexeme =>
          obtain ⟨first, more, rfl, hheads⟩ := spelled_heads hitem
          have hfirst : ¬ h.isspace first = true := by
            rw [hheads.space]
            exact Bool.false_ne_true
          have hstop : opensCall h (text (.token kind value (first :: more) :: items)) =
              decide (first = '(') := by
            rw [text_cons, Item.text, List.cons_append, opensCall,
              List.dropWhile_cons_of_neg hfirst, List.head?_cons]
            simp
          rw [hstop, decide_eq_true_iff, hheads.lparen, itemTokens]
          simp

theorem digit_of_not_part (hc : isIdentifierPart h c = false) : c.isDigit = false := by
  cases hdigit : c.isDigit with
  | false => rfl
  | true =>
      rw [part_of_digit hdigit] at hc
      cases hc

theorem start_of_not_part (hc : isIdentifierPart h c = false) :
    isIdentifierStart h c = false := by
  cases hstart : isIdentifierStart h c with
  | false => rfl
  | true =>
      rw [part_of_start hstart] at hc
      cases hc

theorem ends_number (hwritten : Written h items)
    (hapart : ∀ c ∈ (text items).head?, isIdentifierPart h c = false) :
    Ends h .NUMBER lexeme (text items) := by
  intro c hc
  refine ⟨digit_of_not_part (hapart c hc), ?_, start_of_not_part (hapart c hc)⟩
  rintro rfl
  rcases head_text hwritten hc with hspace | hhead
  · exact absurd hspace (by decide)
  · obtain ⟨t, _, hheads⟩ := hhead 0
    exact hheads.point rfl

theorem operator_second (hmem : lexeme ++ [c] ∈ Lexer.OPERATORS) (hne : lexeme ≠ []) :
    c ∈ ['=', '>'] := by
  obtain ⟨first, more, hshape, hmore⟩ := operator_shape hmem
  have hsecond : ∀ cs ∈ Lexer.OPERATORS, cs.drop 1 = [] ∨ cs.drop 1 = ['='] ∨ cs.drop 1 = ['>'] :=
    by
    decide
  obtain ⟨d, ds, rfl⟩ := List.exists_cons_of_ne_nil hne
  have hdrop := hsecond _ hmem
  rw [List.cons_append, List.drop_one, List.tail_cons] at hdrop
  rcases hdrop with hdrop | hdrop | hdrop
  · simp at hdrop
  · have hc := congrArg List.getLast? hdrop
    simp at hc
    simp [hc]
  · have hc := congrArg List.getLast? hdrop
    simp at hc
    simp [hc]

/-- What stands after a lexeme does not go on with it, unless it is a minus before a digit. -/
theorem ends_text {j : Nat} (hspelled : Spelled h kind value lexeme) (hwritten : Written h items)
    (hapart : kind ∈ wordlike → ∀ c ∈ (text items).head?, isIdentifierPart h c = false)
    (hminus : lexeme = ['-'] → ∀ c ∈ (text items).head?, c.isDigit = false)
    (hnext : ∀ t ∈ (itemTokens j items).head?, Beside h ⟨kind, value, i⟩ t)
    (hlast : itemTokens j items = [] → closes ⟨kind, value, i⟩ = true) :
    Ends h kind lexeme (text items) := by
  cases hspelled with
  | keyword hword hmem hnull =>
      refine ⟨hapart (by decide), fun hupper => ?_⟩
      rw [hupper] at hmem
      exact absurd hmem (by decide)
  | aliasName hword hupper =>
      refine ⟨hapart (by decide), fun _ => iff_of_true ?_ rfl⟩
      rw [opens_call_text hwritten (i := j)]
      cases htokens : itemTokens j items with
      | nil =>
          have hcloses := hlast htokens
          simp [closes, isKeyword] at hcloses
      | cons t ts =>
          rw [htokens] at hnext
          exact ⟨t, rfl, (hnext t rfl).call rfl⟩
  | null hword hupper =>
      refine ⟨hapart (by decide), fun hdistancia => ?_⟩
      rw [hupper] at hdistancia
      exact absurd hdistancia (by decide)
  | identifier hword hnone =>
      refine ⟨hapart (by decide), fun hupper => iff_of_false ?_ (by decide)⟩
      rw [opens_call_text hwritten (i := j)]
      rintro ⟨t, ht, hlparen⟩
      exact (hnext t ht).name rfl hupper hlparen
  | number _ | negative _ => exact ends_number hwritten (hapart (by decide))
  | string content =>
      rintro c hc rfl
      rcases head_text hwritten hc with hspace | hhead
      · exact absurd hspace (by decide)
      · obtain ⟨t, ht, hheads⟩ := hhead j
        have hfalse := (hnext t ht).operand (Or.inr (hheads.quote rfl))
        rw [closes_of_kind (by simp)] at hfalse
        cases hfalse
  | parameter _ _ => exact fun c hc => digit_of_not_part (hapart (by decide) c hc)
  | operator hmem =>
      intro c hc
      refine ⟨?_, fun heq => hminus heq c hc⟩
      intro hlong
      obtain ⟨first, more, rfl, _⟩ := operator_shape hmem
      have hsecond := operator_second hlong (List.cons_ne_nil _ _)
      rcases head_text hwritten hc with hspace | hhead
      · have hnot : ∀ c ∈ ['=', '>'], c ∉ Lexer.WHITESPACE :=
          List.all_iff_forall_prop.mp (by decide)
        exact hnot c hsecond hspace
      · obtain ⟨t, ht, hheads⟩ := hhead j
        exact (hnext t ht).operator rfl (hheads.operator hsecond)
  | @punctuation c kind hkind =>
      have hmem := punctuation_kind hkind
      simp only [List.mem_cons, List.not_mem_nil, or_false] at hmem
      rcases hmem with rfl | rfl | rfl | rfl | rfl <;> trivial

/-- A minus operator stands directly before a digit, and the text is read up to there. -/
structure GluedAt (h : Host) (i : Nat) (items before : List Item) (digit : Char)
    (more : List Char) : Prop where
  parts : text items = text before ++ '-' :: digit :: more
  isDigit : digit.isDigit = true
  reads : Reads h before ('-' :: digit :: more)
  tokens : ∃ minus after, minus.kind = .OPERATOR ∧ minus.value = "-" ∧
    itemTokens i items = itemTokens i before ++ minus :: after

theorem minus_token (hspelled : Spelled h kind value ['-']) :
    kind = .OPERATOR ∧ value = String.ofList ['-'] := by
  have hword : ¬ Lexer.IsWord h ['-'] := by
    rintro ⟨first, more, heq, hfirst, _⟩
    cases heq
    exact (start_plain hfirst).2.2.2.1 rfl
  cases hspelled with
  | keyword hw | aliasName hw | null hw | identifier hw => exact absurd hw hword
  | number hnumber =>
      obtain ⟨first, more, heq, hfirst⟩ := hnumber.head
      cases heq
      exact absurd hfirst (by decide)
  | negative hnumber =>
      obtain ⟨first, more, heq, _⟩ := hnumber.head
      cases heq
  | operator hmem => exact ⟨rfl, rfl⟩
  | punctuation hkind => cases hkind

/-- A text is read lexeme by lexeme, up to the first minus that is taken for a sign. -/
theorem reads_or_glued (hwritten : Written h items) (hapart : Apart h items)
    (hchain : (itemTokens i items).IsChain (Beside h))
    (hlast : ∀ t ∈ (itemTokens i items).getLast?, closes t = true) :
    (Unglued items ∧ Reads h items []) ∨
      (¬ Unglued items ∧ ∃ before digit more, GluedAt h i items before digit more) := by
  induction items generalizing i with
  | nil => exact Or.inl ⟨trivial, trivial⟩
  | cons item items ih =>
      have hitem := hwritten item List.mem_cons_self
      have hwritten' : Written h items :=
        fun item hmem => hwritten item (List.mem_cons_of_mem _ hmem)
      cases item with
      | space c =>
          rcases ih hwritten' hapart hchain hlast with
            ⟨hunglued, hreads⟩ | ⟨hglued, before, digit, more, hat⟩
          · exact Or.inl ⟨hunglued, hitem, hreads⟩
          · refine Or.inr ⟨hglued, .space c :: before, digit, more, ?_, hat.isDigit,
              ⟨hitem, hat.reads⟩, hat.tokens⟩
            rw [text_cons, text_cons, hat.parts, List.append_assoc]
      | token kind value lexeme =>
          rw [itemTokens, List.isChain_cons] at hchain
          by_cases hglue : lexeme = ['-'] → ∀ c ∈ (text items).head?, c.isDigit = false
          · have hlast' : itemTokens (i + lexeme.length) items = [] →
                closes ⟨kind, value, i⟩ = true := by
              intro hnil
              exact hlast _ (by rw [itemTokens, hnil]; rfl)
            have hends := ends_text hitem hwritten' hapart.1 hglue hchain.1 hlast'
            have htail : ∀ t ∈ (itemTokens (i + lexeme.length) items).getLast?,
                closes t = true := by
              intro t ht
              refine hlast t ?_
              rw [itemTokens]
              cases htokens : itemTokens (i + lexeme.length) items with
              | nil =>
                  rw [htokens] at ht
                  cases ht
              | cons head tail =>
                  rw [htokens] at ht
                  rw [List.getLast?_cons_cons]
                  exact ht
            rcases ih hwritten' hapart.2 hchain.2 htail with
              ⟨hunglued, hreads⟩ | ⟨hglued, before, digit, more, hat⟩
            · refine Or.inl ⟨⟨hglue, hunglued⟩, hitem, ?_, hreads⟩
              rwa [List.append_nil]
            · refine Or.inr ⟨fun hall => hglued hall.2, .token kind value lexeme :: before, digit,
                more, ?_, hat.isDigit, ⟨hitem, ?_, hat.reads⟩, ?_⟩
              · rw [text_cons, text_cons, hat.parts, List.append_assoc]
              · rwa [← hat.parts]
              · obtain ⟨minus, after, hkind, hvalue, htokens⟩ := hat.tokens
                refine ⟨minus, after, hkind, hvalue, ?_⟩
                rw [itemTokens, htokens, itemTokens, List.cons_append]
          · refine Or.inr ⟨fun hall => hglue hall.1, [], ?_⟩
            simp only [Classical.not_imp, not_forall] at hglue
            obtain ⟨rfl, digit, hdigit, hisdigit⟩ := hglue
            obtain ⟨rfl, rfl⟩ := minus_token hitem
            cases htext : text items with
            | nil =>
                rw [htext] at hdigit
                cases hdigit
            | cons first more =>
                rw [htext] at hdigit
                cases hdigit
                refine ⟨digit, more, ?_, Bool.eq_true_of_not_eq_false hisdigit, trivial,
                  ⟨.OPERATOR, String.ofList ['-'], i⟩, itemTokens (i + 1) items, rfl, rfl, rfl⟩
                rw [text_cons, htext]
                rfl

end Following

/-! ## Parsing a text -/

section Texts

variable {h} {items : List Item} {e : Expr}

variable {sql : List Char} {used : List Token}

theorem parse_text_eq_ok (hparse : parseText h sql = .ok e) :
    ∃ tokens used t rest, tokenize h sql = .ok tokens ∧ tokens = used ++ t :: rest ∧
      WritesAt h .disjunction e used ∧ (t.kind = .EOF ∨ t.kind = .SEMICOLON) := by
  obtain ⟨tokens, htokens, hparse⟩ := bind_eq_ok.mp hparse
  obtain ⟨⟨expr, rest⟩, hexpr, hparse⟩ := bind_eq_ok.mp hparse
  obtain ⟨result, hend, hparse⟩ := bind_eq_ok.mp hparse
  cases hparse
  obtain ⟨t, rest, rfl, ht⟩ := error_if_not_eof_eq_ok hend
  obtain ⟨used, rfl, hused⟩ := sound_expression h _ _ _ hexpr
  exact ⟨_, used, t, rest, htokens, rfl, hused, ht⟩

theorem parse_text_of_tokens {eof : Token} (htokens : tokenize h sql = .ok (used ++ [eof]))
    (heof : eof.kind = .EOF) (hused : WritesAt h .disjunction e used) :
    parseText h sql = .ok e := by
  have hexpr := complete_expression h used e [eof] hused (follow_eof heof)
  have hend : errorIfNotEof [eof] = .ok ((), [eof]) := by
    obtain ⟨kind, value, position⟩ := eof
    cases heof
    rfl
  rw [parseText, htokens, ok_bind, hexpr, ok_bind]
  dsimp only
  rw [hend, ok_bind]

theorem tokenize_items {rest : List Char} (hreads : Reads h items rest) :
    tokenize h (text items ++ rest) =
      (lex h (text items ++ rest).length rest >>= fun tokens =>
        .ok (itemTokens 0 items ++ tokens)) := by
  have hitems := lex_items hreads (le_refl (text items ++ rest).length)
  rwa [Nat.sub_self] at hitems

/-- An operand directly before a number is no expression. -/
theorem not_writes_beside {before after rest : List Token} {last number t : Token}
    (hlast : closes last = true) (hnumber : number.kind = .NUMBER)
    (hplain : ∀ t ∈ before ++ [last], t.kind ≠ .EOF ∧ t.kind ≠ .SEMICOLON)
    (htokens : before ++ [last] ++ number :: after = used ++ t :: rest) (hused : Orderly h used) :
    ¬ (t.kind = .EOF ∨ t.kind = .SEMICOLON) := by
  intro ht
  have hne : t ≠ number := by
    rintro rfl
    rw [hnumber] at ht
    rcases ht with ht | ht <;> cases ht
  rcases List.append_eq_append_iff.mp htokens with ⟨more, hmore, hrest⟩ | ⟨more, hmore, hrest⟩
  · cases more with
    | nil => exact hne (List.cons.inj hrest).1.symm
    | cons head tail =>
        obtain ⟨rfl, _⟩ := List.cons.inj hrest
        have hchain := hused.chain
        rw [hmore, List.append_assoc, List.singleton_append, List.isChain_append_cons_cons]
          at hchain
        have hfalse := hchain.2.1.operand (Or.inl hnumber)
        rw [hlast] at hfalse
        cases hfalse
  · cases more with
    | nil => exact hne (List.cons.inj hrest).1
    | cons head tail =>
        have hhead := (List.cons.inj hrest).1
        have hmem : t ∈ before ++ [last] := by
          rw [hmore, hhead]
          exact List.mem_append_right _ List.mem_cons_self
        exact ht.elim (hplain t hmem).1 (hplain t hmem).2

theorem lex_sign {size : Nat} {digit : Char} {more : List Char} {tokens : List Token}
    (hdigit : digit.isDigit = true) (hlex : lex h size ('-' :: digit :: more) = .ok tokens) :
    ∃ number after, tokens = number :: after ∧ number.kind = .NUMBER := by
  have hnext : digitNext (digit :: more) = true := hdigit
  rw [lex_cons] at hlex
  obtain ⟨result, hscan, hlex⟩ := bind_eq_ok.mp hlex
  obtain ⟨after, _, hlex⟩ := bind_eq_ok.mp hlex
  rw [scanToken, if_neg (by decide), if_neg (by decide), if_neg (by decide),
    if_pos ⟨rfl, hnext⟩] at hscan
  obtain ⟨⟨number, rest⟩, _, hscan⟩ := bind_eq_ok.mp hscan
  cases hscan
  cases hlex
  exact ⟨_, _, rfl, rfl⟩

theorem not_parsed_of_glued {before : List Item} {digit : Char} {more : List Char} (e' : Expr)
    (hat : GluedAt h 0 items before digit more) (hwrites : Orderly h (itemTokens 0 items)) :
    parseText h (text items) ≠ .ok e' := by
  intro hparse
  obtain ⟨tokens, used, t, rest, htokens, hsplit, hused, ht⟩ := parse_text_eq_ok hparse
  rw [hat.parts, tokenize_items hat.reads] at htokens
  obtain ⟨tail, htail, htokens⟩ := bind_eq_ok.mp htokens
  cases htokens
  obtain ⟨number, after, rfl, hnumber⟩ := lex_sign hat.isDigit htail
  obtain ⟨minus, after', hkind, hvalue, hitems⟩ := hat.tokens
  have hne : itemTokens 0 before ≠ [] := by
    intro hnil
    rw [hnil, List.nil_append] at hitems
    exact hwrites.first minus (by rw [hitems]; rfl) hkind
  obtain ⟨front, last, hfront⟩ := (List.eq_nil_or_concat' _).resolve_left hne
  have hchain := hwrites.chain
  have hplain := hwrites.plain
  rw [hitems, hfront] at hchain hplain
  rw [List.append_assoc, List.singleton_append, List.isChain_append_cons_cons] at hchain
  rw [hfront] at hsplit
  exact not_writes_beside (hchain.2.1.minus hkind hvalue) hnumber
    (fun t hmem => hplain t (List.mem_append_left _ hmem)) hsplit (orderly_of_writes hused) ht

theorem writes_of_parse_text {eof : Token} {e' : Expr}
    (htokens : tokenize h sql = .ok (used ++ [eof]))
    (hplain : ∀ t ∈ used, t.kind ≠ .EOF ∧ t.kind ≠ .SEMICOLON) (hparse : parseText h sql = .ok e') :
    WritesAt h .disjunction e' used := by
  obtain ⟨tokens, used', t, rest, htokens', hsplit, hused, ht⟩ := parse_text_eq_ok hparse
  rw [htokens] at htokens'
  cases htokens'
  rcases List.append_eq_append_iff.mp hsplit with ⟨more, hmore, hrest⟩ | ⟨more, hmore, hrest⟩
  · cases more with
    | nil =>
        rw [List.append_nil] at hmore
        rwa [← hmore]
    | cons head tail =>
        have hlength := congrArg List.length hrest
        simp at hlength
  · cases more with
    | nil =>
        rw [List.append_nil] at hmore
        rwa [hmore]
    | cons head tail =>
        have hhead := (List.cons.inj hrest).1
        have hmem : t ∈ used := by
          rw [hmore, hhead]
          exact List.mem_append_right _ List.mem_cons_self
        exact absurd ht (not_or.mpr (hplain t hmem))

/-- A text that writes an expression is parsed to it exactly when no minus operator stands directly
before a digit and its integers are within the limit of the host language.  It is never parsed to
another expression. -/
theorem expression_text_exact (hwritten : Written h items) (hapart : Apart h items)
    (hwrites : WritesAt h.unlimited .disjunction e (itemTokens 0 items)) :
    (parseText h (text items) = .ok e ↔
      Unglued items ∧ ∀ t ∈ itemTokens 0 items, Short h t) ∧
      ∀ e', parseText h (text items) = .ok e' → e' = e := by
  have horder := (orderly_of_writes hwrites).limited
  rcases reads_or_glued hwritten hapart horder.chain horder.last with
    ⟨hunglued, hreads⟩ | ⟨hglued, before, digit, more, hat⟩
  · have htokens := tokenize_items hreads
    rw [List.append_nil, lex_nil, ok_bind] at htokens
    by_cases hshort : ∀ t ∈ itemTokens 0 items, Short h t
    · have hparse := parse_text_of_tokens htokens rfl (writes_of_short hwrites hshort)
      refine ⟨iff_of_true hparse ⟨hunglued, hshort⟩, ?_⟩
      intro e' hparse'
      rw [hparse] at hparse'
      exact (Except.ok.inj hparse').symm
    · have hnot : ∀ e', parseText h (text items) ≠ .ok e' := fun e' hparse =>
        hshort (short_of_writes (writes_of_parse_text htokens horder.plain hparse))
      exact ⟨iff_of_false (hnot e) (fun hand => hshort hand.2),
        fun e' hparse => absurd hparse (hnot e')⟩
  · have hnot := fun e' => not_parsed_of_glued e' hat horder
    exact ⟨iff_of_false (hnot e) (fun hand => hglued hand.1),
      fun e' hparse => absurd hparse (hnot e')⟩

end Texts

/-! ## A difference -/

/-- `a - 1`. -/
def difference : Expr := .BinaryExpr (.ColumnRef "a") "-" (.Literal (.int 1))

/-- The parts of `a-1`, or of `a - 1`. -/
def differenceItems (spaces : List Item) : List Item :=
  [.token .IDENTIFIER "a" ['a']] ++ spaces ++ [.token .OPERATOR "-" ['-']] ++ spaces ++
    [.token .NUMBER "1" ['1']]

theorem written_difference (spaces : List Item) (hspaces : ∀ item ∈ spaces, item = .space ' ') :
    Written .ascii (differenceItems spaces) := by
  have hname : Spelled .ascii .IDENTIFIER "a" ['a'] :=
    Spelled.identifier (h := .ascii) ⟨'a', [], rfl, by decide, List.forall_mem_nil _⟩
      (by decide)
  have hminus : Spelled .ascii .OPERATOR "-" ['-'] := Spelled.operator (by decide)
  have hone : Spelled .ascii .NUMBER "1" ['1'] :=
    Spelled.number (Unsigned.whole (by decide) (List.all_iff_forall_prop.mp (by decide)))
  have hspace : ∀ item ∈ spaces, match item with
      | .space c => c ∈ Lexer.WHITESPACE
      | .token kind value lexeme => Spelled .ascii kind value lexeme := by
    intro item hmem
    rw [hspaces item hmem]
    decide
  simp only [Written, differenceItems, List.forall_mem_append, List.forall_mem_singleton]
  exact ⟨⟨⟨⟨hname, hspace⟩, hminus⟩, hspace⟩, hone⟩

theorem writes_difference {name minus number : Token}
    (hname : name.kind = .IDENTIFIER ∧ name.value = "a")
    (hminus : minus.kind = .OPERATOR ∧ minus.value = "-")
    (hnumber : number.kind = .NUMBER ∧ number.value = "1") :
    WritesAt Host.ascii.unlimited .disjunction difference [name, minus, number] := by
  have hleft : Writes Host.ascii.unlimited (.expr .primary (.ColumnRef "a")) [name] := by
    rw [← hname.2]
    exact .column hname.1
  have hright : Writes Host.ascii.unlimited (.expr .primary (.Literal (.int 1))) [number] :=
    .number hnumber.1 (by rw [hnumber.2]; rfl)
  have hoperator : additiveOperator minus = some "-" := by
    rw [additiveOperator, hminus.1, hminus.2]
    rfl
  exact .disjunction (.conjunction (.negation (.predicate
    (.additive (.arithmetic (.term hleft)) hoperator (.term hright)))))

theorem expression_text_exact_difference :
    (parseText .ascii (text (differenceItems [.space ' '])) = .ok difference ↔
      Unglued (differenceItems [.space ' ']) ∧
        ∀ t ∈ itemTokens 0 (differenceItems [.space ' ']), Short .ascii t) ∧
      ∀ e', parseText .ascii (text (differenceItems [.space ' '])) = .ok e' → e' = difference :=
  expression_text_exact (written_difference _ (by simp)) (by decide)
    (writes_difference ⟨rfl, rfl⟩ ⟨rfl, rfl⟩ ⟨rfl, rfl⟩)

/-- `a-1` writes a difference and is no expression for the parser; `a+1` and `a - 1` are. -/
theorem glued_difference_not_parsed :
    Written .ascii (differenceItems []) ∧ Apart .ascii (differenceItems []) ∧
      WritesAt Host.ascii.unlimited .disjunction difference
        (itemTokens 0 (differenceItems [])) ∧
      text (differenceItems []) = ['a', '-', '1'] ∧
      (∃ message, parseText .ascii ['a', '-', '1'] = .error (.QueryParseError message)) ∧
      parseText .ascii ['a', ' ', '-', ' ', '1'] = .ok difference ∧
      parseText .ascii ['a', '+', '1'] =
        .ok (.BinaryExpr (.ColumnRef "a") "+" (.Literal (.int 1))) :=
  ⟨written_difference [] (by simp), by decide,
    writes_difference ⟨rfl, rfl⟩ ⟨rfl, rfl⟩ ⟨rfl, rfl⟩, rfl, ⟨_, rfl⟩, rfl, rfl⟩

end SoupDB.Parser
