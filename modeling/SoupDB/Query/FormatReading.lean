import SoupDB.Query.FormatExpr
import SoupDB.Query.Produced

/-!
# SoupDB: the tokenizer reads rendered expressions

The text of an expression that the parser produces is read part by part, unless it holds a number
with an exponent, which the tokenizer rejects.

Main facts: `placeable_parts` and `reads_or_rejected`.
-/

namespace SoupDB.Parser

open Lexer

variable (h : Host)

/-- Each part is white space, a lexeme that ends where it is meant to, or a number with an
exponent. -/
def Legible : List Item → List Char → Prop
  | [], _ => True
  | .space c :: items, rest => c ∈ Lexer.WHITESPACE ∧ Legible items rest
  | .token kind value lexeme :: items, rest =>
      (Spelled h kind value lexeme ∧ Ends h kind lexeme (text items ++ rest) ∨
        kind = .NUMBER ∧ lexeme = value.toList ∧ Exponent lexeme) ∧ Legible items rest

/-- What can follow an expression in a rendered text. -/
structure Stop (rest : List Char) : Prop where
  head : ∀ c ∈ rest.head?, c ∈ [' ', ',', ')']
  call : opensCall h rest = false

/-- The parts are legible wherever an expression stands. -/
def Placeable (items : List Item) : Prop := ∀ rest, Stop h rest → Legible h items rest

section Legible

variable {h} {items more : List Item} {rest : List Char}

theorem legible_append :
    Legible h (items ++ more) rest ↔ Legible h items (text more ++ rest) ∧ Legible h more rest := by
  induction items with
  | nil => simp [Legible]
  | cons item items ih =>
      cases item with
      | space c => rw [List.cons_append, Legible, Legible, ih, and_assoc]
      | token kind value lexeme =>
          rw [List.cons_append, Legible, Legible, ih, and_assoc, text_append,
            List.append_assoc]

/-- The tokenizer rejects a number with an exponent. -/
theorem lex_exponent {size : Nat} {lexeme : List Char} (hexponent : Exponent lexeme) :
    ∃ error, lex h size (lexeme ++ rest) = .error error := by
  have hnumber : ∀ (start : Nat) (number more : List Char), Unsigned number →
      ∃ error, scanNumber h start (number ++ 'e' :: more) = .error error := by
    intro start number more hunsigned
    have hsplit : splitNumber (number ++ 'e' :: more) = (number, 'e' :: more) :=
      split_number_unsigned hunsigned (by rintro c ⟨⟩; decide)
    have hstart : isIdentifierStart h 'e' = true := by
      rw [isIdentifierStart, h.isalpha_ascii 'e' (by decide)]
      decide
    rw [scanNumber, hsplit]
    dsimp only
    rw [hstart, Bool.or_true, if_pos rfl]
    exact ⟨_, rfl⟩
  obtain ⟨number, more, hunsigned, rfl | rfl⟩ := hexponent
  · obtain ⟨first, digits, rfl, hfirst⟩ := hunsigned.head
    obtain ⟨error, hscan⟩ := hnumber (size - ((digits ++ 'e' :: more ++ rest).length + 1)) _
      (more ++ rest) hunsigned
    refine ⟨error, ?_⟩
    have htext : first :: digits ++ 'e' :: more ++ rest =
        first :: (digits ++ 'e' :: more ++ rest) := rfl
    have hscan' : scanNumber h (size - ((digits ++ 'e' :: more ++ rest).length + 1))
        (first :: (digits ++ 'e' :: more ++ rest)) = .error error := by
      rw [← hscan]
      simp
    rw [htext, lex_cons, scanToken, if_neg (digit_plain hfirst).1,
      if_neg (digit_plain hfirst).2, if_pos hfirst, hscan']
    rfl
  · obtain ⟨first, digits, rfl, hfirst⟩ := hunsigned.head
    obtain ⟨error, hscan⟩ := hnumber
      (size - ((first :: digits ++ 'e' :: more ++ rest).length + 1) + 1) _ (more ++ rest) hunsigned
    refine ⟨error, ?_⟩
    have htext : '-' :: (first :: digits ++ 'e' :: more) ++ rest =
        '-' :: (first :: digits ++ 'e' :: more ++ rest) := rfl
    have hscan' : scanNumber h
        (size - ((first :: digits ++ 'e' :: more ++ rest).length + 1) + 1)
        (first :: digits ++ 'e' :: more ++ rest) = .error error := by
      rw [← hscan]
      simp
    have hnext : digitNext (first :: digits ++ 'e' :: more ++ rest) = true := by
      simp [digitNext, hfirst]
    rw [htext, lex_cons, scanToken, if_neg (by decide), if_neg (by decide),
      if_neg (by decide), if_pos ⟨rfl, hnext⟩, hscan']
    rfl

theorem reads_or_rejected (hlegible : Legible h items rest) : Reads h items rest ∨
    ∀ size, ∃ error, lex h size (text items ++ rest) = .error error := by
  induction items with
  | nil => exact Or.inl trivial
  | cons item items ih =>
      cases item with
      | space c =>
          obtain ⟨hspace, hlegible⟩ := hlegible
          rcases ih hlegible with hreads | hrejected
          · exact Or.inl ⟨hspace, hreads⟩
          · refine Or.inr fun size => ?_
            rw [text_cons, Item.text, List.append_assoc, List.singleton_append,
              lex_space hspace]
            exact hrejected size
      | token kind value lexeme =>
          obtain ⟨⟨hspelled, hends⟩ | ⟨_, _, hexponent⟩, hlegible⟩ := hlegible
          · rcases ih hlegible with hreads | hrejected
            · exact Or.inl ⟨hspelled, hends, hreads⟩
            · refine Or.inr fun size => ?_
              obtain ⟨error, herror⟩ := hrejected size
              refine ⟨error, ?_⟩
              rw [text_cons, Item.text, List.append_assoc, lex_token hspelled hends,
                herror]
              rfl
          · refine Or.inr fun size => ?_
            rw [text_cons, Item.text, List.append_assoc]
            exact lex_exponent hexponent

end Legible

/-! ## Words -/

section Words

variable {h} {kind : TokenKind} {value : String} {lexeme rest : List Char}

/-- The letters, digits and underscores of ASCII. -/
def plain (c : Char) : Bool := c = '_' || c.isAlphanum

/-- A word of ASCII letters, digits and underscores. -/
def plainWord : List Char → Bool
  | [] => false
  | first :: more => first.isAlpha && more.all plain && (first :: more).all (·.toNat < 128)

section

variable (hplain : plainWord lexeme = true)
include hplain

theorem ascii_of_plain : ∀ c ∈ lexeme, c.toNat < 128 := by
  cases lexeme with
  | nil => exact fun _ hmem => nomatch hmem
  | cons first more =>
      rw [plainWord, Bool.and_eq_true, List.all_eq_true] at hplain
      exact fun c hc => of_decide_eq_true (hplain.2 c hc)

theorem isWord_of_plain : IsWord h lexeme := by
  have hascii := ascii_of_plain hplain
  cases lexeme with
  | nil => cases hplain
  | cons first more =>
      rw [plainWord, Bool.and_eq_true, Bool.and_eq_true, List.all_eq_true] at hplain
      obtain ⟨⟨hfirst, hmore⟩, _⟩ := hplain
      refine ⟨first, more, rfl, ?_, ?_⟩
      · rw [isIdentifierStart, h.isalpha_ascii first (hascii _ List.mem_cons_self), hfirst,
          Bool.or_true]
      · intro c hc
        rw [isIdentifierPart, h.isalnum_ascii c (hascii _ (List.mem_cons_of_mem _ hc))]
        exact hmore c hc

theorem upper_plain : h.upper (String.ofList lexeme) = String.ofList (lexeme.map Char.toUpper) := by
  have hascii := ascii_of_plain hplain
  rw [h.upper_ascii _ (by rwa [String.toList_ofList]), String.toList_ofList]

theorem spelled_plain_keyword (hvalue : String.ofList (lexeme.map Char.toUpper) = value)
    (hmem : value ∈ Lexer.KEYWORDS) (hnull : value ≠ "NULL") : Spelled h .KEYWORD value lexeme := by
  have hupper : h.upper (String.ofList lexeme) = value := (upper_plain hplain).trans hvalue
  have hspelled := Spelled.keyword (isWord_of_plain hplain) (hupper ▸ hmem) (hupper ▸ hnull)
  rwa [hupper] at hspelled

theorem spelled_plain_identifier
    (hnone : String.ofList (lexeme.map Char.toUpper) ∉ Lexer.KEYWORDS) :
    Spelled h .IDENTIFIER (String.ofList lexeme) lexeme :=
  .identifier (isWord_of_plain hplain) (by rwa [upper_plain hplain])

end

theorem not_part_of_mark {c : Char} (hc : c ∈ [' ', ',', ')', '(', '=']) :
    isIdentifierPart h c = false := by
  have hall : ∀ c ∈ [' ', ',', ')', '(', '='], c.toNat < 128 ∧ c.isAlphanum = false ∧ c ≠ '_' :=
    List.all_iff_forall_prop.mp (by decide)
  obtain ⟨hascii, halnum, hunder⟩ := hall c hc
  rw [isIdentifierPart, h.isalnum_ascii c hascii, halnum, decide_eq_false hunder,
    Bool.or_false]

/-- The only name that is read in another way before a parenthesis. -/
theorem not_distancia {value : String} (hspelled : Spelled h kind value lexeme)
    (hkind : kind = .KEYWORD ∨ kind = .NULL) (hvalue : value ≠ "DISTANCE") :
    h.upper (String.ofList lexeme) ≠ "DISTANCIA" := by
  have hdistancia : "DISTANCIA" ∉ Lexer.KEYWORDS := by decide
  cases hspelled with
  | keyword hword hmem hnull =>
      intro hupper
      rw [hupper] at hmem
      exact hdistancia hmem
  | aliasName hword hupper => exact absurd rfl hvalue
  | null hword hupper =>
      rw [hupper]
      decide
  | identifier | number | negative | string | parameter | operator => simp at hkind
  | punctuation hc =>
      have hmem := punctuation_kind hc
      rcases hkind with rfl | rfl <;> exact absurd hmem (by decide)

/-- A lexeme ends before white space, a comma or a parenthesis. -/
theorem ends_before_mark (hspelled : Spelled h kind value lexeme)
    (hhead : ∀ c ∈ rest.head?, c ∈ [' ', ',', ')', '('])
    (hname : kind = .IDENTIFIER → h.upper (String.ofList lexeme) = "DISTANCIA" →
      opensCall h rest = false)
    (hvalue : kind = .KEYWORD → value ≠ "DISTANCE") : Ends h kind lexeme rest := by
  have hmark : ∀ c ∈ [' ', ',', ')', '('], c ∈ [' ', ',', ')', '(', '='] ∧ c ≠ '.' ∧ c ≠ '\'' ∧
      c ∉ ['=', '>'] ∧ c.isDigit = false :=
    List.all_iff_forall_prop.mp (by decide)
  have hpart : ∀ c ∈ rest.head?, isIdentifierPart h c = false :=
    fun c hc => not_part_of_mark (hmark c (hhead c hc)).1
  cases kind with
  | KEYWORD =>
      exact ⟨hpart, fun hupper => absurd hupper (not_distancia hspelled (Or.inl rfl) (hvalue rfl))⟩
  | NULL =>
      refine ⟨hpart, fun hupper => absurd hupper (not_distancia hspelled (Or.inr rfl) ?_)⟩
      cases hspelled with
      | null hword hupper => decide
      | punctuation hc => exact absurd (punctuation_kind hc) (by decide)
  | IDENTIFIER =>
      refine ⟨hpart, fun hupper => iff_of_false ?_ (by decide)⟩
      rw [hname rfl hupper]
      exact Bool.false_ne_true
  | NUMBER =>
      exact fun c hc => ⟨(hmark c (hhead c hc)).2.2.2.2, (hmark c (hhead c hc)).2.1,
        start_of_not_part (hpart c hc)⟩
  | STRING => exact fun c hc => (hmark c (hhead c hc)).2.2.1
  | PARAMETER => exact fun c hc => (hmark c (hhead c hc)).2.2.2.2
  | OPERATOR =>
      intro c hc
      refine ⟨fun hmem => (hmark c (hhead c hc)).2.2.2.1 (operator_second hmem ?_),
        fun _ => (hmark c (hhead c hc)).2.2.2.2⟩
      exact hspelled.ne_nil
  | STAR | LPAREN | RPAREN | COMMA | SEMICOLON | EOF => trivial

end Words

/-! ## Places -/

section Places

variable {h} {kind : TokenKind} {value : String} {lexeme rest : List Char}
  {items left right : List Item}

theorem stop_nil : Stop h [] where
  head _ hc := nomatch hc
  call := rfl

theorem stop_mark {c : Char} (hc : c ∈ [',', ')']) : Stop h (c :: rest) := by
  have hall : ∀ c ∈ [',', ')'], c ∈ [' ', ',', ')'] ∧ c ≠ '(' ∧
      c ∈ ['>', '<', '!', '=', '+', '-', '/', '%', '*', '(', ')', ',', ';', '\'', '$'] :=
    List.all_iff_forall_prop.mp (by decide)
  obtain ⟨hhead, hlparen, hsign⟩ := hall c hc
  have hspace : ¬ h.isspace c = true := by
    rw [isspace_of_sign hsign]
    exact Bool.false_ne_true
  refine ⟨?_, ?_⟩
  · rintro _ ⟨⟩
    exact hhead
  · rw [opensCall, List.dropWhile_cons_of_neg hspace]
    simp [hlparen]

/-- Before white space and a token that is no opening parenthesis. -/
theorem stop_gap (hspelled : Spelled h kind value lexeme) (hkind : kind ≠ .LPAREN) :
    Stop h (' ' :: (lexeme ++ rest)) := by
  obtain ⟨first, more, rfl, hheads⟩ := spelled_heads hspelled
  have hgap : h.isspace ' ' = true := isspace_of_whitespace (by decide)
  have hfirst : ¬ h.isspace first = true := by
    rw [hheads.space]
    exact Bool.false_ne_true
  refine ⟨?_, ?_⟩
  · rintro _ ⟨⟩
    decide
  · rw [opensCall, List.dropWhile_cons_of_pos hgap, List.cons_append,
      List.dropWhile_cons_of_neg hfirst, List.head?_cons]
    simp [mt hheads.lparen.mp hkind]

theorem placeable_token (hspelled : Spelled h kind value lexeme)
    (hvalue : kind = .KEYWORD → value ≠ "DISTANCE") :
    Placeable h [.token kind value lexeme] := by
  intro rest hstop
  have hmark : ∀ c ∈ [' ', ',', ')'], c ∈ [' ', ',', ')', '('] :=
    List.all_iff_forall_prop.mp (by decide)
  refine ⟨Or.inl ⟨hspelled, ?_⟩, trivial⟩
  exact ends_before_mark hspelled (fun c hc => hmark c (hstop.head c hc))
    (fun _ _ => hstop.call) hvalue

theorem placeable_spaced (hleft : Placeable h left) (hspelled : Spelled h kind value lexeme)
    (hkind : kind ≠ .LPAREN ∧ kind ≠ .IDENTIFIER) (hvalue : kind = .KEYWORD → value ≠ "DISTANCE")
    (hright : Placeable h right) :
    Placeable h (spaced left (.token kind value lexeme) right) := by
  intro rest hstop
  have hnext : text (gap :: .token kind value lexeme :: gap :: right) ++ rest =
      ' ' :: (lexeme ++ (text (gap :: right) ++ rest)) := by
    simp [gap, Item.text]
  rw [spaced, legible_append, hnext]
  refine ⟨hleft _ (stop_gap hspelled hkind.1), (by decide : ' ' ∈ Lexer.WHITESPACE),
    Or.inl ⟨hspelled, ?_⟩, (by decide : ' ' ∈ Lexer.WHITESPACE), hright rest hstop⟩
  refine ends_before_mark hspelled ?_ (fun hname => absurd hname hkind.2) hvalue
  rintro _ ⟨⟩
  decide

theorem placeable_enclosed (hitems : Placeable h items) : Placeable h (enclosed items) := by
  intro rest hstop
  have hlparen : Spelled h .LPAREN "(" "(".toList := .punctuation (c := '(') rfl
  have hrparen : Spelled h .RPAREN ")" ")".toList := .punctuation (c := ')') rfl
  rw [enclosed, List.cons_append]
  refine ⟨Or.inl ⟨hlparen, trivial⟩, legible_append.mpr ⟨hitems _ (stop_mark (by decide)), ?_⟩⟩
  exact ⟨Or.inl ⟨hrparen, trivial⟩, trivial⟩

variable {arguments : List (List Item)}

theorem placeable_joined (harguments : ∀ items ∈ arguments, Placeable h items) :
    Placeable h (joined arguments) := by
  have hcomma : Spelled h .COMMA "," ",".toList := .punctuation (c := ',') rfl
  induction arguments with
  | nil => exact fun _ _ => trivial
  | cons items more ih =>
      have hitems := harguments items List.mem_cons_self
      have hmore := ih fun items hmem => harguments items (List.mem_cons_of_mem _ hmem)
      by_cases hnil : more = []
      · subst hnil
        exact hitems
      · intro rest hstop
        rw [joined_cons hnil, legible_append]
        exact ⟨hitems _ (stop_mark (by decide)), Or.inl ⟨hcomma, trivial⟩,
          (by decide : ' ' ∈ Lexer.WHITESPACE), hmore rest hstop⟩

theorem placeable_call (hspelled : Spelled h kind value lexeme)
    (hends : ∀ rest, Ends h kind lexeme ('(' :: rest))
    (harguments : ∀ items ∈ arguments, Placeable h items) :
    Placeable h (call (.token kind value lexeme) arguments) := by
  intro rest hstop
  exact ⟨Or.inl ⟨hspelled, hends _⟩, placeable_enclosed (placeable_joined harguments) rest hstop⟩

end Places

/-! ## Literals -/

section Literals

variable {h} {raw value : String} {lexeme : List Char}

theorem number_value_cases {result : Value} (hvalue : numberValue h raw = .ok result) :
    ('.' ∈ raw.toList ∧ result = .float (h.float raw)) ∨
      ∃ i, intValue h raw = .ok i ∧ result = .int i := by
  rw [numberValue] at hvalue
  split at hvalue
  · next hpoint =>
      cases hvalue
      exact Or.inl ⟨hpoint, rfl⟩
  · obtain ⟨i, hint, hvalue⟩ := bind_eq_ok.mp hvalue
    cases hvalue
    exact Or.inr ⟨i, hint, rfl⟩

theorem unsigned_toDigits (n : Nat) : Unsigned (Nat.toDigits 10 n) :=
  Unsigned.whole Nat.toDigits_ne_nil
    fun _ hc => Nat.isDigit_of_mem_toDigits (by decide) (by decide) hc

theorem spelled_int (i : Int) : Spelled h .NUMBER (String.ofList (intText i)) (intText i) := by
  rw [intText]
  split
  · exact .negative (unsigned_toDigits _)
  · exact .number (unsigned_toDigits _)

theorem unsigned_positional (hnumber : Unsigned lexeme) :
    ∀ c ∈ lexeme, c.isDigit = true ∨ c = '.' ∨ c = '-' := by
  cases hnumber with
  | whole _ hdigits => exact fun c hc => Or.inl (hdigits c hc)
  | decimal _ hdigits hmore =>
      rw [List.forall_mem_append, List.forall_mem_cons]
      exact ⟨fun c hc => Or.inl (hdigits c hc), Or.inr (Or.inl rfl),
        fun c hc => Or.inl (hmore c hc)⟩

theorem spelled_number (hspelled : Spelled h .NUMBER value lexeme) :
    value.toList = lexeme ∧ Positional value := by
  cases hspelled with
  | number hnumber =>
      rw [Positional, String.toList_ofList]
      exact ⟨rfl, unsigned_positional hnumber⟩
  | negative hnumber =>
      rw [Positional, String.toList_ofList]
      exact ⟨rfl, List.forall_mem_cons.mpr ⟨Or.inr (Or.inr rfl), unsigned_positional hnumber⟩⟩
  | punctuation hc => exact absurd (punctuation_kind hc) (by decide)

theorem exponent_not_positional (hexponent : Exponent value.toList) : ¬ Positional value := by
  intro hpositional
  obtain ⟨number, rest, _, htext⟩ := hexponent
  have hmem : 'e' ∈ value.toList := by
    rcases htext with htext | htext <;> simp [htext]
  exact absurd (hpositional 'e' hmem) (by decide)

theorem inf_not_positional : ¬ Positional "inf" ∧ ¬ Positional "-inf" := by
  refine ⟨?_, ?_⟩ <;>
    · intro hpositional
      exact absurd (hpositional 'i' (by decide)) (by decide)

theorem exponent_ne_inf (hexponent : Exponent value.toList) : value ≠ "inf" ∧ value ≠ "-inf" := by
  obtain ⟨number, rest, hunsigned, htext⟩ := hexponent
  obtain ⟨first, more, rfl, hfirst⟩ := hunsigned.head
  have hplus : "inf".toList = ['i', 'n', 'f'] := by decide
  have hminus : "-inf".toList = ['-', 'i', 'n', 'f'] := by decide
  refine ⟨?_, ?_⟩
  · rintro rfl
    rw [hplus] at htext
    rcases htext with htext | htext
    · obtain ⟨rfl, _⟩ := List.cons.inj htext
      exact absurd hfirst (by decide)
    · exact absurd (List.cons.inj htext).1 (by decide)
  · rintro rfl
    rw [hminus] at htext
    rcases htext with htext | htext
    · obtain ⟨rfl, _⟩ := List.cons.inj htext
      exact absurd hfirst (by decide)
    · obtain ⟨rfl, _⟩ := List.cons.inj (List.cons.inj htext).2
      exact absurd hfirst (by decide)

theorem float_parts_of_ne (h₁ : value ≠ "inf") (h₂ : value ≠ "-inf") :
    floatParts value = [numberPart value] := by
  rw [floatParts, if_neg h₁, if_neg h₂]

theorem float_parts_of_positional (hpositional : Positional value) :
    floatParts value = [numberPart value] := by
  refine float_parts_of_ne ?_ ?_
  · rintro rfl
    exact inf_not_positional.1 hpositional
  · rintro rfl
    exact inf_not_positional.2 hpositional

theorem placeable_number_part (hspelled : Spelled h .NUMBER value lexeme) :
    Placeable h [numberPart value] := by
  obtain ⟨rfl, _⟩ := spelled_number hspelled
  exact placeable_token hspelled (fun hkind => nomatch hkind)

theorem placeable_exponent (hexponent : Exponent value.toList) :
    Placeable h [numberPart value] := fun _ _ => ⟨Or.inr ⟨rfl, rfl, hexponent⟩, trivial⟩

theorem spelled_inf : Spelled h .IDENTIFIER "inf" "inf".toList :=
  .identifier (isWord_of_plain (by decide)) (by rw [upper_plain (by decide)]; decide)

theorem placeable_infinity : Placeable h [word .OPERATOR "-", word .IDENTIFIER "inf"] := by
  intro rest hstop
  have hminus : Spelled h .OPERATOR "-" "-".toList := .operator (by decide)
  refine ⟨Or.inl ⟨hminus, ?_⟩, placeable_token spelled_inf (fun hkind => nomatch hkind) rest hstop⟩
  rintro c hc
  have hi : c = 'i' := by simpa [word, Item.text] using hc.symm
  subst hi
  decide

theorem placeable_number (str : Str h) (hraw : Spelled h .NUMBER raw lexeme) {result : Value}
    (hvalue : numberValue h raw = .ok result) : Placeable h (literalParts str.text result) := by
  rcases number_value_cases hvalue with ⟨hpoint, rfl⟩ | ⟨i, _, rfl⟩
  · have hparts : literalParts str.text (.float (h.float raw)) =
        floatParts (str.text (.float (h.float raw))) := rfl
    rw [hparts]
    rcases str.float raw lexeme hraw hpoint with
      ⟨hspelled, _, _⟩ | hexponent | hinf | hinf
    · rw [float_parts_of_positional (spelled_number hspelled).2]
      exact placeable_number_part hspelled
    · obtain ⟨h₁, h₂⟩ := exponent_ne_inf hexponent
      rw [float_parts_of_ne h₁ h₂]
      exact placeable_exponent hexponent
    · rw [hinf]
      exact placeable_token spelled_inf (fun hkind => nomatch hkind)
    · rw [hinf]
      exact placeable_infinity
  · rw [literalParts, str.int]
    exact placeable_number_part (spelled_int i)

end Literals

/-! ## Expressions -/

section Expressions

variable {h} {kind : TokenKind} {value : String} {lexeme : List Char} {items : List Item}

theorem spelled_keyword (hmem : value ∈ Lexer.KEYWORDS) (hnull : value ≠ "NULL") :
    Spelled h .KEYWORD value value.toList := by
  have hplain : ∀ keyword ∈ Lexer.KEYWORDS, plainWord keyword.toList = true := by decide
  exact spelled_plain_keyword (hplain value hmem) (keywords_ascii value hmem).2 hmem hnull

theorem spelled_identifier (hplain : plainWord value.toList = true)
    (hnone : String.ofList (value.toList.map Char.toUpper) ∉ Lexer.KEYWORDS) :
    Spelled h .IDENTIFIER value value.toList := by
  have hspelled := spelled_plain_identifier (h := h) hplain hnone
  rwa [String.ofList_toList] at hspelled

theorem spelled_string (value : String) :
    Spelled h .STRING value (['\''] ++ doubled value.toList ++ ['\'']) := by
  have hspelled := Spelled.string (h := h) value.toList
  rwa [String.ofList_toList] at hspelled

theorem spelled_operator (hop : value.toList ∈ Lexer.OPERATORS) :
    Spelled h .OPERATOR value value.toList := by
  have hspelled := Spelled.operator (h := h) hop
  rwa [String.ofList_toList] at hspelled

theorem placeable_word (hspelled : Spelled h kind value value.toList)
    (hvalue : kind = .KEYWORD → value ≠ "DISTANCE") : Placeable h [word kind value] :=
  placeable_token hspelled hvalue

theorem placeable_prefix (hspelled : Spelled h .KEYWORD value value.toList)
    (hvalue : value ≠ "DISTANCE") (hitems : Placeable h items) :
    Placeable h (word .KEYWORD value :: gap :: items) := by
  intro rest hstop
  refine ⟨Or.inl ⟨hspelled, ?_⟩, (by decide : ' ' ∈ Lexer.WHITESPACE), hitems rest hstop⟩
  refine ends_before_mark hspelled ?_ (fun hname => nomatch hname) (fun _ => hvalue)
  rintro _ ⟨⟩
  decide

variable {arguments : List (List Item)}

theorem placeable_keyword_call (hmem : value ∈ Lexer.KEYWORDS)
    (hnone : value ∉ ["NULL", "DISTANCE"]) (harguments : ∀ items ∈ arguments, Placeable h items) :
    Placeable h (call (word .KEYWORD value) arguments) := by
  simp only [List.mem_cons, List.not_mem_nil, or_false, not_or] at hnone
  have hspelled := spelled_keyword (h := h) hmem hnone.1
  refine placeable_call hspelled (fun rest => ?_) harguments
  refine ends_before_mark hspelled ?_ (fun hname => nomatch hname) (fun _ => hnone.2)
  rintro _ ⟨⟩
  decide

theorem placeable_name_call (hplain : plainWord value.toList = true)
    (hnone : String.ofList (value.toList.map Char.toUpper) ∉ "DISTANCIA" :: Lexer.KEYWORDS)
    (harguments : ∀ items ∈ arguments, Placeable h items) :
    Placeable h (call (word .IDENTIFIER value) arguments) := by
  rw [List.mem_cons, not_or] at hnone
  have hspelled := spelled_identifier (h := h) hplain hnone.2
  refine placeable_call hspelled (fun rest => ?_) harguments
  refine ends_before_mark hspelled ?_ (fun _ hupper => ?_) (fun hkind => nomatch hkind)
  · rintro _ ⟨⟩
    decide
  · rw [upper_plain hplain] at hupper
    exact absurd hupper hnone.1

theorem placeable_distance (harguments : ∀ items ∈ arguments, Placeable h items) :
    Placeable h (call (.token .KEYWORD "DISTANCE" "distancia".toList) arguments) := by
  have hplain : plainWord "distancia".toList = true := by decide
  have hspelled : Spelled h .KEYWORD "DISTANCE" "distancia".toList :=
    .aliasName (isWord_of_plain hplain) (by rw [upper_plain hplain]; decide)
  have hlparen : ¬ h.isspace '(' = true := by
    rw [isspace_of_sign (by decide)]
    exact Bool.false_ne_true
  refine placeable_call hspelled (fun rest => ⟨?_, fun _ => iff_of_true ?_ rfl⟩) harguments
  · rintro _ ⟨⟩
    exact not_part_of_mark (by decide)
  · rw [opensCall, List.dropWhile_cons_of_neg hlparen]
    rfl

theorem placeable_intersects (harguments : ∀ items ∈ arguments, Placeable h items) :
    Placeable h (call (.token .KEYWORD "INTERSECTS" "intersects".toList) arguments) := by
  have hspelled : Spelled h .KEYWORD "INTERSECTS" "intersects".toList :=
    spelled_plain_keyword (by decide) (by decide) (by decide) (by decide)
  refine placeable_call hspelled (fun rest => ?_) harguments
  refine ends_before_mark hspelled ?_ (fun hname => nomatch hname) (fun _ => by decide)
  rintro _ ⟨⟩
  decide

/-- `name=number`. -/
theorem placeable_named {number : String} {digits : List Char}
    (hspelled : Spelled h kind value lexeme) (hkind : kind = .IDENTIFIER ∨ kind = .KEYWORD)
    (hupper : h.upper (String.ofList lexeme) ≠ "DISTANCIA")
    (hnumber : Spelled h .NUMBER number digits) :
    Placeable h [.token kind value lexeme, word .OPERATOR "=", numberPart number] := by
  intro rest hstop
  have hequals : Spelled h .OPERATOR "=" "=".toList := .operator (by decide)
  refine ⟨Or.inl ⟨hspelled, ?_⟩, Or.inl ⟨hequals, ?_⟩, placeable_number_part hnumber rest hstop⟩
  · have hhead : ∀ c ∈ (text [word .OPERATOR "=", numberPart number] ++ rest).head?,
        isIdentifierPart h c = false := by
      rintro _ ⟨⟩
      exact not_part_of_mark (by decide)
    rcases hkind with rfl | rfl <;> exact ⟨hhead, fun hdistancia => absurd hdistancia hupper⟩
  · intro c hc
    obtain ⟨hdigits, hpositional⟩ := spelled_number hnumber
    obtain ⟨first, more, hshape⟩ := List.exists_cons_of_ne_nil hnumber.ne_nil
    have hfirst : c = first := by
      have hchars : number.toList = first :: more := hdigits.trans hshape
      simpa [numberPart, word, Item.text, hchars] using hc.symm
    have hmem : c ∈ number.toList := by
      rw [hdigits, hshape, hfirst]
      exact List.mem_cons_self
    refine ⟨fun hop => ?_, fun hminus => absurd hminus (by decide)⟩
    have hsecond := operator_second hop (by decide)
    have hnot : ∀ c ∈ ['=', '>'], ¬ (c.isDigit = true ∨ c = '.' ∨ c = '-') :=
      List.all_iff_forall_prop.mp (by decide)
    exact hnot c hsecond (hpositional c hmem)

theorem placeable_literal_string (str : Value → String) (value : String) :
    Placeable h (literalParts str (.str value)) :=
  placeable_token (spelled_string value) (fun hkind => nomatch hkind)

theorem placeable_binary {left right : List Item} (hleft : Placeable h left)
    (hmem : value ∈ Lexer.KEYWORDS) (hnone : value ∉ ["NULL", "DISTANCE"])
    (hright : Placeable h right) : Placeable h (spaced left (word .KEYWORD value) right) := by
  simp only [List.mem_cons, List.not_mem_nil, or_false, not_or] at hnone
  exact placeable_spaced hleft (spelled_keyword hmem hnone.1) (by decide) (fun _ => hnone.2) hright

theorem placeable_operator {left right : List Item} (hleft : Placeable h left)
    (hop : value ∈ ARITHMETIC_OPS ∨ value ∈ COMPARISON_OPS) (hright : Placeable h right) :
    Placeable h (spaced left (operator value) right) := by
  have hall : ∀ value ∈ ARITHMETIC_OPS ++ COMPARISON_OPS, value = "*" ∨
      value ≠ "*" ∧ value.toList ∈ Lexer.OPERATORS := by decide
  rcases hall value (List.mem_append.mpr hop) with rfl | ⟨hstar, hmem⟩
  · have hspelled : Spelled h .STAR "*" "*".toList := .punctuation (c := '*') rfl
    exact placeable_spaced hleft hspelled (by decide) (fun hkind => nomatch hkind) hright
  · rw [operator, if_neg hstar]
    exact placeable_spaced hleft (spelled_operator hmem) (by decide) (fun hkind => nomatch hkind)
      hright

theorem mem_parts_list {str : Value → String} {es : List Expr} (hmem : items ∈ partsList str es) :
    ∃ e ∈ es, items = parts str e := by
  induction es with
  | nil => cases hmem
  | cons e es ih =>
      rcases List.mem_cons.mp hmem with rfl | hmem
      · exact ⟨e, List.mem_cons_self, rfl⟩
      · obtain ⟨e', he', hitems⟩ := ih hmem
        exact ⟨e', List.mem_cons_of_mem _ he', hitems⟩

theorem placeable_star : Placeable h [word .STAR "*"] :=
  placeable_token (.punctuation (c := '*') rfl) (fun hkind => nomatch hkind)

theorem placeable_distinct (distinct : Bool) (hitems : Placeable h items) :
    Placeable h ((if distinct then [word .KEYWORD "DISTINCT", gap] else []) ++ items) := by
  cases distinct with
  | false => exact hitems
  | true => exact placeable_prefix (spelled_keyword (by decide) (by decide)) (by decide) hitems

theorem placeable_column {name : String} (hname : Spelled h .IDENTIFIER name lexeme) :
    Placeable h [word .IDENTIFIER name] := by
  have hlexeme : name.toList = lexeme := by
    cases hname with
    | identifier hword hnone => exact String.toList_ofList
    | punctuation hc => exact absurd (punctuation_kind hc) (by decide)
  refine placeable_word ?_ (fun hkind => nomatch hkind)
  rwa [hlexeme]

theorem placeable_metric {metric : String} (hmetric : metric ∈ METRIC_NAMES) :
    Placeable h [metricPart metric] := by
  have hall : ∀ metric ∈ METRIC_NAMES, doubled metric.toList = metric.toList := by decide
  have hspelled := spelled_string (h := h) metric
  rw [hall metric hmetric] at hspelled
  exact placeable_token hspelled (fun hkind => nomatch hkind)

theorem placeable_null : Placeable h [word .NULL "NULL"] := by
  have hplain : plainWord "NULL".toList = true := by decide
  have hspelled : Spelled h .NULL "NULL" "NULL".toList :=
    .null (isWord_of_plain hplain) (by rw [upper_plain hplain]; decide)
  exact placeable_word hspelled (fun hkind => nomatch hkind)

theorem placeable_parts (str : Str h) {e : Expr} (he : Produced h e) :
    Placeable h (parts str.text e) := by
  induction he with
  | number hraw hvalue =>
      rw [parts]
      exact placeable_number str hraw hvalue
  | string value =>
      rw [parts]
      exact placeable_literal_string _ value
  | bool value =>
      rw [parts, literalParts]
      cases value with
      | false => exact placeable_word (spelled_keyword (by decide) (by decide)) (fun _ => by decide)
      | true => exact placeable_word (spelled_keyword (by decide) (by decide)) (fun _ => by decide)
  | null =>
      rw [parts, literalParts]
      exact placeable_null
  | @parameter index hindex =>
      have hindex : Spelled h .KEYWORD "INDEX" "index".toList :=
        spelled_plain_keyword (by decide) (by decide) (by decide) (by decide)
      rw [parts, str.int]
      refine placeable_name_call (by decide) (by decide) (List.forall_mem_singleton.mpr ?_)
      exact placeable_named hindex (Or.inr rfl)
        (not_distancia hindex (Or.inl rfl) (by decide)) (spelled_int index)
  | column hname =>
      rw [parts]
      exact placeable_column hname
  | score hkind =>
      rw [parts]
      rcases hkind with rfl | rfl <;>
        exact placeable_name_call (by decide) (by decide) (fun _ hmem => by cases hmem)
  | @similarTo raw lexeme reference count hraw hdigits hcount =>
      have hk : plainWord "k".toList = true := by decide
      have hname : Spelled h .IDENTIFIER "k" "k".toList := spelled_identifier hk (by decide)
      have hupper : h.upper (String.ofList "k".toList) ≠ "DISTANCIA" := by
        rw [upper_plain hk]
        decide
      have hnumber : literalParts str.text (.int count) =
          [numberPart (String.ofList (intText count))] := by
        rw [literalParts, str.int]
      rw [parts, parts, hnumber]
      refine placeable_name_call (by decide) (by decide) (List.forall_mem_cons.mpr ⟨?_,
        List.forall_mem_singleton.mpr ?_⟩)
      · exact placeable_literal_string _ reference
      · exact placeable_named hname (Or.inl rfl) hupper (spelled_int count)
  | search hcolumn query | matchQuery hcolumn query =>
      rw [parts, parts]
      exact placeable_name_call (by decide) (by decide) (List.forall_mem_cons.mpr
        ⟨placeable_column hcolumn, List.forall_mem_singleton.mpr (placeable_literal_string _
          query)⟩)
  | countStar =>
      rw [parts]
      exact placeable_keyword_call (by decide) (by decide) (List.forall_mem_singleton.mpr
        (placeable_distinct _ placeable_star))
  | @function name arg hname _ distinct ih =>
      have hall : ∀ name ∈ AGGREGATES, name ∈ Lexer.KEYWORDS ∧ name ∉ ["NULL", "DISTANCE"] := by
        decide
      rw [parts]
      exact placeable_keyword_call (hall name hname).1 (hall name hname).2
        (List.forall_mem_singleton.mpr (placeable_distinct distinct ih))
  | point _ _ ihx ihy =>
      rw [parts]
      exact placeable_keyword_call (by decide) (by decide)
        (List.forall_mem_cons.mpr ⟨ihy, List.forall_mem_singleton.mpr ihx⟩)
  | @distance left right metric _ _ hmetric ihl ihr =>
      have hne : metric ≠ "" := by
        rintro rfl
        exact absurd hmetric (by decide)
      rw [parts, if_pos hne]
      exact placeable_distance (List.forall_mem_cons.mpr ⟨ihl, List.forall_mem_cons.mpr ⟨ihr,
        List.forall_mem_singleton.mpr (placeable_metric hmetric)⟩⟩)
  | polygon _ _ _ ih =>
      rw [parts]
      refine placeable_keyword_call (by decide) (by decide) (fun items hmem => ?_)
      obtain ⟨e, he, rfl⟩ := mem_parts_list hmem
      exact ih e he
  | intersects _ _ ihl ihr =>
      rw [parts]
      exact placeable_intersects (List.forall_mem_cons.mpr ⟨ihl, List.forall_mem_singleton.mpr ihr⟩)
  | binary hop _ _ ihl ihr =>
      rw [parts]
      exact placeable_operator ihl (Or.inl hop) ihr
  | compare hop _ _ ihl ihr =>
      rw [parts]
      exact placeable_operator ihl (Or.inr hop) ihr
  | isNull _ negated ih =>
      rw [parts]
      refine placeable_binary ih (by decide) (by decide) ?_
      cases negated with
      | false => exact placeable_null
      | true =>
          exact placeable_prefix (spelled_keyword (by decide) (by decide)) (by decide)
            placeable_null
  | between _ _ _ ihv ihl ihh =>
      rw [parts]
      exact placeable_binary (placeable_binary ihv (by decide) (by decide) ihl) (by decide)
        (by decide) ihh
  | inList _ _ _ ihv ih =>
      rw [parts]
      refine placeable_binary ihv (by decide) (by decide)
        (placeable_enclosed (placeable_joined fun items hmem => ?_))
      obtain ⟨e, he, rfl⟩ := mem_parts_list hmem
      exact ih e he
  | like _ _ ihv ihp =>
      rw [parts]
      exact placeable_binary ihv (by decide) (by decide) ihp
  | not _ ih =>
      rw [parts]
      exact placeable_prefix (spelled_keyword (by decide) (by decide)) (by decide) ih
  | logical hop _ _ ihl ihr =>
      rw [parts]
      rcases hop with rfl | rfl <;>
        exact placeable_enclosed (placeable_binary ihl (by decide) (by decide) ihr)

end Expressions

end SoupDB.Parser
