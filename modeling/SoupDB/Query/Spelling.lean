import SoupDB.Query.Lexer
import Mathlib.Data.Bool.AllAny
import Mathlib.Data.List.TakeWhile

/-!
# SoupDB: the spelling of tokens

Each token is spelled by a lexeme, the characters that the tokenizer takes for it, and is read
back from the lexeme when what follows does not go on with it.

Main facts: `spelled_of_scan` and `scan_spelled`.
-/

namespace SoupDB.Lexer

open List

variable (h : Host)

def IsWord (lexeme : List Char) : Prop :=
  ∃ first more, lexeme = first :: more ∧ isIdentifierStart h first = true ∧
    ∀ c ∈ more, isIdentifierPart h c = true

/-- The characters of a number without a sign. -/
inductive Unsigned : List Char → Prop
  | whole {digits : List Char} (hne : digits ≠ []) (hdigits : ∀ c ∈ digits, c.isDigit = true) :
      Unsigned digits
  | decimal {digits more : List Char} (hne : digits ≠ []) (hdigits : ∀ c ∈ digits, c.isDigit = true)
      (hmore : ∀ c ∈ more, c.isDigit = true) : Unsigned (digits ++ '.' :: more)

/-- The content of a string with its apostrophes doubled. -/
def doubled : List Char → List Char
  | [] => []
  | c :: content => if c = '\'' then '\'' :: '\'' :: doubled content else c :: doubled content

inductive Spelled : TokenKind → String → List Char → Prop
  | keyword {lexeme : List Char} (hword : IsWord h lexeme)
      (hmem : h.upper (String.ofList lexeme) ∈ KEYWORDS)
      (hnull : h.upper (String.ofList lexeme) ≠ "NULL") :
      Spelled .KEYWORD (h.upper (String.ofList lexeme)) lexeme
  | aliasName {lexeme : List Char} (hword : IsWord h lexeme)
      (hupper : h.upper (String.ofList lexeme) = "DISTANCIA") : Spelled .KEYWORD "DISTANCE" lexeme
  | null {lexeme : List Char} (hword : IsWord h lexeme)
      (hupper : h.upper (String.ofList lexeme) = "NULL") : Spelled .NULL "NULL" lexeme
  | identifier {lexeme : List Char} (hword : IsWord h lexeme)
      (hnone : h.upper (String.ofList lexeme) ∉ KEYWORDS) :
      Spelled .IDENTIFIER (String.ofList lexeme) lexeme
  | number {lexeme : List Char} (hnumber : Unsigned lexeme) :
      Spelled .NUMBER (String.ofList lexeme) lexeme
  | negative {lexeme : List Char} (hnumber : Unsigned lexeme) :
      Spelled .NUMBER (String.ofList ('-' :: lexeme)) ('-' :: lexeme)
  | string (content : List Char) :
      Spelled .STRING (String.ofList content) ('\'' :: (doubled content ++ ['\'']))
  | parameter {digits : List Char} (hne : digits ≠ []) (hdigits : ∀ c ∈ digits, c.isDigit = true) :
      Spelled .PARAMETER (String.ofList digits) ('$' :: digits)
  | operator {lexeme : List Char} (hmem : lexeme ∈ OPERATORS) :
      Spelled .OPERATOR (String.ofList lexeme) lexeme
  | punctuation {c : Char} {kind : TokenKind} (hkind : punctuation c = some kind) :
      Spelled kind (String.ofList [c]) [c]

/-- What follows a lexeme does not go on with it. -/
def Ends (kind : TokenKind) (lexeme rest : List Char) : Prop :=
  match kind with
  | .KEYWORD | .NULL | .IDENTIFIER =>
      (∀ c ∈ rest.head?, isIdentifierPart h c = false) ∧
        (h.upper (String.ofList lexeme) = "DISTANCIA" →
          (opensCall h rest = true ↔ kind = .KEYWORD))
  | .NUMBER => ∀ c ∈ rest.head?, c.isDigit = false ∧ c ≠ '.' ∧ isIdentifierStart h c = false
  | .STRING => ∀ c ∈ rest.head?, c ≠ '\''
  | .PARAMETER => ∀ c ∈ rest.head?, c.isDigit = false
  | .OPERATOR =>
      ∀ c ∈ rest.head?, lexeme ++ [c] ∉ OPERATORS ∧ (lexeme = ['-'] → c.isDigit = false)
  | _ => True

/-! ## Characters -/

section Characters

variable {h} {c d : Char} {cs rest : List Char}

theorem isDigit_toNat (hc : c.isDigit = true) : c.toNat < 128 := by
  simp only [Char.isDigit, Bool.and_eq_true, decide_eq_true_eq] at hc
  have h₂ : c.toNat ≤ 57 := hc.2
  omega

theorem start_ne (hc : isIdentifierStart h c = true) (hd : d.toNat < 128)
    (halpha : d.isAlpha = false) (hunder : d ≠ '_') : c ≠ d := by
  rintro rfl
  rw [isIdentifierStart, h.isalpha_ascii c hd, halpha, Bool.or_false, decide_eq_true_iff] at hc
  exact hunder hc

theorem isAlpha_of_isDigit (hc : c.isDigit = true) : c.isAlpha = false := by
  simp only [Char.isDigit, Bool.and_eq_true, decide_eq_true_eq] at hc
  have h₁ : 48 ≤ c.toNat := hc.1
  have h₂ : c.toNat ≤ 57 := hc.2
  have hupper : ¬ (65 ≤ c.toNat ∧ c.toNat ≤ 90) := by omega
  have hlower : ¬ (97 ≤ c.toNat ∧ c.toNat ≤ 122) := by omega
  have hu : c.isUpper = false := decide_eq_false fun hand => hupper ⟨hand.1, hand.2⟩
  have hl : c.isLower = false := by
    cases hcase : c.isLower with
    | false => rfl
    | true =>
        have hand := Bool.and_eq_true_iff.mp hcase
        exact absurd ⟨of_decide_eq_true hand.1, of_decide_eq_true hand.2⟩ hlower
  show (c.isUpper || c.isLower) = false
  rw [hu, hl]
  rfl

theorem start_of_digit (hc : c.isDigit = true) : isIdentifierStart h c = false := by
  rw [isIdentifierStart, h.isalpha_ascii c (isDigit_toNat hc), isAlpha_of_isDigit hc,
    Bool.or_false, decide_eq_false_iff_not]
  rintro rfl
  cases hc

theorem digit_of_start (hc : isIdentifierStart h c = true) : c.isDigit = false := by
  cases hdigit : c.isDigit with
  | false => rfl
  | true =>
      rw [start_of_digit hdigit] at hc
      cases hc

theorem part_of_digit (hc : c.isDigit = true) : isIdentifierPart h c = true := by
  rw [isIdentifierPart, h.isalnum_ascii c (isDigit_toNat hc), Char.isAlphanum, hc, Bool.or_true,
    Bool.or_true]

theorem part_of_start (hc : isIdentifierStart h c = true) : isIdentifierPart h c = true := by
  rw [isIdentifierStart, Bool.or_eq_true] at hc
  rw [isIdentifierPart, Bool.or_eq_true]
  exact hc.imp id (h.isalnum_of_isalpha c)

theorem operator_head (hmem : c :: cs ∈ OPERATORS) :
    c ∈ ['>', '<', '!', '=', '+', '-', '/', '%'] := by
  simp only [OPERATORS, mem_cons, List.cons.injEq, not_mem_nil, or_false] at hmem ⊢
  grind

theorem operator_shape (hmem : cs ∈ OPERATORS) :
    ∃ first more, cs = first :: more ∧ (more = [] ∨ ∃ second, more = [second]) := by
  have hshape : ∀ cs ∈ OPERATORS, cs.length = 1 ∨ cs.length = 2 := by decide
  match cs, hshape cs hmem with
  | [first], _ => exact ⟨first, [], rfl, Or.inl rfl⟩
  | [first, second], _ => exact ⟨first, [second], rfl, Or.inr ⟨second, rfl⟩⟩
  | [], hlength => simp at hlength
  | _ :: _ :: _ :: _, hlength => simp at hlength

/-- The first character of an operator starts no other token, apart from a sign. -/
theorem operator_plain (hmem : c :: cs ∈ OPERATORS) :
    c ∉ WHITESPACE ∧ c ≠ '\'' ∧ ¬ c.isDigit = true ∧ c ≠ '$' ∧ Lexer.punctuation c = none := by
  have hplain : ∀ c ∈ ['>', '<', '!', '=', '+', '-', '/', '%'], c ∉ WHITESPACE ∧ c ≠ '\'' ∧
      ¬ c.isDigit = true ∧ c ≠ '$' ∧ Lexer.punctuation c = none :=
    all_iff_forall_prop.mp (by decide)
  exact hplain c (operator_head hmem)

variable {kind : TokenKind}

theorem punctuation_mem (hkind : Lexer.punctuation c = some kind) :
    c ∈ ['*', '(', ')', ',', ';'] := by
  unfold Lexer.punctuation at hkind
  simp only [mem_cons, not_mem_nil, or_false]
  grind

theorem punctuation_kind (hkind : Lexer.punctuation c = some kind) :
    kind ∈ [TokenKind.STAR, .LPAREN, .RPAREN, .COMMA, .SEMICOLON] := by
  have hall : ∀ c ∈ ['*', '(', ')', ',', ';'], ∀ kind, Lexer.punctuation c = some kind →
      kind ∈ [TokenKind.STAR, .LPAREN, .RPAREN, .COMMA, .SEMICOLON] := by
    simp [Lexer.punctuation]
  exact hall c (punctuation_mem hkind) kind hkind

/-- A punctuation character starts no other token. -/
theorem punctuation_plain (hkind : Lexer.punctuation c = some kind) :
    c ∉ WHITESPACE ∧ c ≠ '\'' ∧ ¬ c.isDigit = true ∧ c ≠ '-' ∧ c ≠ '$' ∧
      (∀ cs, c :: cs ∉ OPERATORS) ∧ c.isAlphanum = false := by
  have hplain : ∀ c ∈ ['*', '(', ')', ',', ';'], c ∉ WHITESPACE ∧ c ≠ '\'' ∧
      ¬ c.isDigit = true ∧ c ≠ '-' ∧ c ≠ '$' ∧ c ∉ ['>', '<', '!', '=', '+', '-', '/', '%'] ∧
      c.isAlphanum = false :=
    all_iff_forall_prop.mp (by decide)
  obtain ⟨hspace, hquote, hdigit, hminus, hdollar, hoperator, halnum⟩ :=
    hplain c (punctuation_mem hkind)
  exact ⟨hspace, hquote, hdigit, hminus, hdollar, fun cs hmem => hoperator (operator_head hmem),
    halnum⟩

theorem digit_plain (hc : c.isDigit = true) : c ∉ WHITESPACE ∧ c ≠ '\'' := by
  refine ⟨?_, ?_⟩
  · intro hmem
    have hnone : ∀ c ∈ WHITESPACE, c.isDigit = false :=
      all_iff_forall_prop.mp (by decide)
    rw [hnone c hmem] at hc
    cases hc
  · rintro rfl
    cases hc

theorem Unsigned.head {number : List Char} (hnumber : Unsigned number) :
    ∃ first more, number = first :: more ∧ first.isDigit = true := by
  cases hnumber with
  | whole hne hdigits =>
      obtain ⟨first, more, rfl⟩ := exists_cons_of_ne_nil hne
      exact ⟨first, more, rfl, hdigits first mem_cons_self⟩
  | @decimal digits more hne hdigits hmore =>
      obtain ⟨first, digits, rfl⟩ := exists_cons_of_ne_nil hne
      exact ⟨first, digits ++ '.' :: more, rfl, hdigits first mem_cons_self⟩

/-- The first character of a word starts no other token. -/
theorem start_plain (hc : isIdentifierStart h c = true) :
    c ∉ WHITESPACE ∧ c ≠ '\'' ∧ c.isDigit = false ∧ c ≠ '-' ∧ c ≠ '$' ∧
      (∀ cs, c :: cs ∉ OPERATORS) ∧ Lexer.punctuation c = none := by
  have hne : ∀ d ∈ [' ', '\t', '\r', '\n', '\'', '-', '$', '>', '<', '!', '=', '+', '/', '%', '*',
      '(', ')', ',', ';'], c ≠ d := by
    have hplain : ∀ d ∈ [' ', '\t', '\r', '\n', '\'', '-', '$', '>', '<', '!', '=', '+', '/', '%',
        '*', '(', ')', ',', ';'], d.toNat < 128 ∧ d.isAlpha = false ∧ d ≠ '_' :=
      all_iff_forall_prop.mp (by decide)
    intro d hd
    obtain ⟨hascii, halpha, hunder⟩ := hplain d hd
    exact start_ne hc hascii halpha hunder
  simp only [forall_mem_cons] at hne
  refine ⟨?_, hne.2.2.2.2.1, digit_of_start hc, hne.2.2.2.2.2.1, hne.2.2.2.2.2.2.1, ?_, ?_⟩
  · simp [WHITESPACE, hne]
  · intro cs hmem
    have hhead := operator_head hmem
    simp [hne] at hhead
  · simp [Lexer.punctuation, hne]

end Characters

/-! ## Strings and numbers -/

section Scans

variable {h} {size start : Nat} {content number rest text : List Char}

theorem scan_string_char {c : Char} (hc : c ≠ '\'') :
    scanString size (c :: text) = (scanString size text >>= fun r => .ok (c :: r.1, r.2)) := by
  rw [scanString.eq_def]
  exact if_neg hc

theorem scan_string_close (hrest : ∀ c ∈ rest.head?, c ≠ '\'') :
    scanString size ('\'' :: rest) = .ok ([], rest) := by
  rw [scanString.eq_3, if_pos rfl]
  rintro rest' rfl
  exact hrest '\'' rfl rfl

theorem scan_string_doubled (size : Nat) (content : List Char)
    (hrest : ∀ c ∈ rest.head?, c ≠ '\'') :
    scanString size (doubled content ++ '\'' :: rest) = .ok (content, rest) := by
  induction content with
  | nil => exact scan_string_close hrest
  | cons c content ih =>
      rw [doubled]
      split
      · next hc =>
          rw [cons_append, cons_append, scanString, if_pos rfl, ih, ok_bind, hc]
      · next hc => rw [cons_append, scan_string_char hc, ih, ok_bind]

theorem scan_string_sound : scanString size text = .ok (content, rest) →
    text = doubled content ++ '\'' :: rest ∧ ∀ c ∈ rest.head?, c ≠ '\'' := by
  fun_induction scanString size text generalizing content rest with
  | case1 =>
      intro hscan
      cases hscan
  | case2 rest' ih =>
      intro hscan
      obtain ⟨⟨content', rest''⟩, hrest, hscan⟩ := bind_eq_ok.mp hscan
      cases hscan
      obtain ⟨rfl, hhead⟩ := ih hrest
      exact ⟨by simp [doubled], hhead⟩
  | case3 rest' hnot =>
      intro hscan
      cases hscan
      refine ⟨rfl, ?_⟩
      intro c hc
      cases rest' with
      | nil => cases hc
      | cons first rest' =>
          cases hc
          rintro rfl
          exact hnot rest' rfl
  | case4 c rest' hc ih =>
      intro hscan
      obtain ⟨⟨content', rest''⟩, hrest, hscan⟩ := bind_eq_ok.mp hscan
      cases hscan
      obtain ⟨rfl, hhead⟩ := ih hrest
      exact ⟨by simp [doubled, hc], hhead⟩

/-- The digits in front of a text that does not go on with them. -/
theorem takeWhile_digits {digits : List Char} (hdigits : ∀ c ∈ digits, c.isDigit = true)
    (hrest : ∀ c ∈ rest.head?, c.isDigit = false) :
    (digits ++ rest).takeWhile Char.isDigit = digits ∧
      (digits ++ rest).dropWhile Char.isDigit = rest := by
  rw [takeWhile_append_of_pos hdigits, dropWhile_append_of_pos hdigits]
  cases rest with
  | nil => simp
  | cons c rest =>
      have hc : ¬ c.isDigit = true := by
        rw [hrest c rfl]
        exact Bool.false_ne_true
      rw [takeWhile_cons_of_neg hc, dropWhile_cons_of_neg hc, append_nil]
      exact ⟨rfl, rfl⟩

theorem split_number_unsigned (hnumber : Unsigned number)
    (hrest : ∀ c ∈ rest.head?, c.isDigit = false ∧ c ≠ '.') :
    splitNumber (number ++ rest) = (number, rest) := by
  have hdigit : ∀ c ∈ rest.head?, c.isDigit = false := fun c hc => (hrest c hc).1
  cases hnumber with
  | whole _ hdigits =>
      obtain ⟨htake, hdrop⟩ := takeWhile_digits hdigits hdigit
      rw [splitNumber, htake, hdrop]
      cases rest with
      | nil => rfl
      | cons c rest =>
          have hc : c ≠ '.' := (hrest c rfl).2
          split
          · next heq => exact absurd (List.cons.inj heq).1 hc
          · rfl
  | @decimal digits more _ hdigits hmore =>
      have hpoint : ∀ c ∈ ('.' :: more ++ rest).head?, c.isDigit = false := by
        intro c hc
        cases hc
        decide
      obtain ⟨htake, hdrop⟩ := takeWhile_digits hdigits hpoint
      obtain ⟨htake', hdrop'⟩ := takeWhile_digits hmore hdigit
      rw [append_assoc, splitNumber, htake, hdrop, cons_append]
      exact congrArg₂ (fun digit rest => (digits ++ '.' :: digit, rest)) htake' hdrop'

theorem digits_takeWhile (text : List Char) :
    ∀ c ∈ text.takeWhile Char.isDigit, c.isDigit = true :=
  fun _ hc => mem_takeWhile_imp hc

theorem split_number_sound {first : Char} {more : List Char} (hfirst : first.isDigit = true)
    (hsplit : splitNumber (first :: more) = (number, rest)) :
    first :: more = number ++ rest ∧ Unsigned number := by
  have htake : (first :: more).takeWhile Char.isDigit ≠ [] := by
    rw [takeWhile_cons_of_pos hfirst]
    exact cons_ne_nil _ _
  have hdigits := digits_takeWhile (first :: more)
  have hwhole := takeWhile_append_dropWhile (p := Char.isDigit) (l := first :: more)
  rw [splitNumber] at hsplit
  split at hsplit
  · next rest' hdrop =>
      cases hsplit
      refine ⟨?_, Unsigned.decimal htake hdigits (digits_takeWhile rest')⟩
      rw [append_assoc, cons_append, takeWhile_append_dropWhile, ← hdrop, hwhole]
  · cases hsplit
    exact ⟨hwhole.symm, Unsigned.whole htake hdigits⟩

theorem scan_number_unsigned (start : Nat) (hnumber : Unsigned number)
    (hrest : ∀ c ∈ rest.head?, c.isDigit = false ∧ c ≠ '.' ∧ isIdentifierStart h c = false) :
    scanNumber h start (number ++ rest) = .ok (number, rest) := by
  rw [scanNumber, split_number_unsigned hnumber (fun c hc => ⟨(hrest c hc).1, (hrest c hc).2.1⟩)]
  cases rest with
  | nil => rfl
  | cons c rest =>
      obtain ⟨_, hpoint, hstart⟩ := hrest c rfl
      simp [hpoint, hstart]

theorem scan_number_sound {first : Char} {more : List Char} (hfirst : first.isDigit = true)
    (hscan : scanNumber h start (first :: more) = .ok (number, rest)) :
    first :: more = number ++ rest ∧ Unsigned number := by
  rw [scanNumber] at hscan
  cases hsplit : splitNumber (first :: more) with
  | mk number' rest' =>
      rw [hsplit] at hscan
      have hsound := split_number_sound hfirst hsplit
      dsimp only at hscan
      cases rest' with
      | nil =>
          cases hscan
          exact hsound
      | cons c rest' =>
          dsimp only at hscan
          split at hscan
          · cases hscan
          · cases hscan
            exact hsound

end Scans

/-! ## One token -/

section Tokens

variable {h} {size i : Nat} {kind : TokenKind} {value : String} {lexeme rest : List Char}

section

variable {more : List Char} {first : Char} (hfirst : isIdentifierStart h first = true)
    (hmore : ∀ c ∈ more, isIdentifierPart h c = true)
    (hrest : ∀ c ∈ rest.head?, isIdentifierPart h c = false)
include hfirst hmore hrest

theorem takeWhile_word :
    (first :: more ++ rest).takeWhile (isIdentifierPart h) = first :: more ∧
      (first :: more ++ rest).dropWhile (isIdentifierPart h) = rest := by
  have hall : ∀ c ∈ first :: more, isIdentifierPart h c = true :=
    forall_mem_cons.mpr ⟨part_of_start hfirst, hmore⟩
  rw [takeWhile_append_of_pos hall, dropWhile_append_of_pos hall]
  cases rest with
  | nil => simp
  | cons c rest =>
      have hc : ¬ isIdentifierPart h c = true := by
        rw [hrest c rfl]
        exact Bool.false_ne_true
      rw [takeWhile_cons_of_neg hc, dropWhile_cons_of_neg hc, append_nil]
      exact ⟨rfl, rfl⟩

theorem scan_word :
    scanToken h size i first (more ++ rest) =
      .ok (some (wordToken h (String.ofList (first :: more)) rest i), rest) := by
  obtain ⟨hspace, hquote, hdigit, hminus, hdollar, hoperator, hpunct⟩ := start_plain hfirst
  obtain ⟨htake, hdrop⟩ := takeWhile_word hfirst hmore hrest
  rw [cons_append] at htake hdrop
  rw [scanToken, if_neg hspace, if_neg hquote, hdigit, if_neg Bool.false_ne_true,
    if_neg (fun hand => hminus hand.1), if_neg (fun hand => hdollar hand.1),
    if_neg (hoperator _), if_neg (hoperator _), hpunct]
  dsimp only
  rw [if_pos hfirst, htake, hdrop]

end

theorem word_token_eq {word : String} {upper : String} (hupper : h.upper word = upper)
    (halias : upper = "DISTANCIA" → opensCall h rest = false) :
    wordToken h word rest i =
      if upper = "NULL" then ⟨.NULL, upper, i⟩
      else if upper ∈ KEYWORDS then ⟨.KEYWORD, upper, i⟩
      else ⟨.IDENTIFIER, word, i⟩ := by
  have hname :
      (if opensCall h rest then (functionAlias upper).getD upper else upper) = upper := by
    rw [functionAlias]
    split
    · next hopens =>
        split
        · next hdistancia =>
            rw [halias hdistancia] at hopens
            cases hopens
        · rfl
    · rfl
  rw [wordToken, hupper, hname]

theorem word_token_position {word : String} : (wordToken h word rest i).position = i := by
  rw [wordToken]
  generalize (if opensCall h rest then _ else _) = upper
  split
  · rfl
  · split
    · rfl
    · rfl

theorem scan_keyword_word (size i : Nat) {lexeme : List Char} (hword : IsWord h lexeme)
    {upper : String} (hupper : h.upper (String.ofList lexeme) = upper)
    (hrest : ∀ c ∈ rest.head?, isIdentifierPart h c = false)
    (halias : upper = "DISTANCIA" → opensCall h rest = false) :
    ∃ first more, lexeme = first :: more ∧ scanToken h size i first (more ++ rest) =
      .ok (some (if upper = "NULL" then ⟨.NULL, upper, i⟩
        else if upper ∈ KEYWORDS then ⟨.KEYWORD, upper, i⟩
        else ⟨.IDENTIFIER, String.ofList lexeme, i⟩), rest) := by
  obtain ⟨first, more, rfl, hfirst, hmore⟩ := hword
  refine ⟨first, more, rfl, ?_⟩
  rw [scan_word hfirst hmore hrest, word_token_eq hupper halias]

theorem scan_operator {lexeme : List Char} (hmem : lexeme ∈ OPERATORS)
    (hends : Ends h .OPERATOR lexeme rest) :
    ∃ first more, lexeme = first :: more ∧ scanToken h size i first (more ++ rest) =
      .ok (some ⟨.OPERATOR, String.ofList lexeme, i⟩, rest) := by
  obtain ⟨first, more, rfl, hmore⟩ := operator_shape hmem
  obtain ⟨hspace, hquote, hdigit, hdollar, _⟩ := operator_plain hmem
  refine ⟨first, more, rfl, ?_⟩
  have hminus : ¬ (first = '-' ∧ digitNext (more ++ rest) = true) := by
    rintro ⟨rfl, hnext⟩
    rcases hmore with rfl | ⟨second, rfl⟩
    · cases rest with
      | nil => cases hnext
      | cons c rest =>
          have hc := (hends c rfl).2 rfl
          rw [nil_append, digitNext, head?_cons, Option.any_some, hc] at hnext
          cases hnext
    · exact absurd hmem (by simp [OPERATORS])
  rw [scanToken, if_neg hspace, if_neg hquote, if_neg hdigit, if_neg hminus,
    if_neg (fun hand => hdollar hand.1)]
  rcases hmore with rfl | ⟨second, rfl⟩
  · have hlong : first :: ([] ++ rest).take 1 ∉ OPERATORS ∨ rest = [] := by
      cases rest with
      | nil => exact Or.inr rfl
      | cons c rest => exact Or.inl (hends c rfl).1
    rcases hlong with hlong | rfl
    · rw [if_neg hlong, if_pos hmem]
      rfl
    · exact if_pos hmem
  · exact if_pos hmem

theorem scan_spelled (size i : Nat) (hspelled : Spelled h kind value lexeme)
    (hends : Ends h kind lexeme rest) :
    ∃ first more, lexeme = first :: more ∧
      scanToken h size i first (more ++ rest) = .ok (some ⟨kind, value, i⟩, rest) := by
  cases hspelled with
  | keyword hword hmem hnull =>
      have hdistancia : h.upper (String.ofList lexeme) ≠ "DISTANCIA" := by
        intro heq
        rw [heq] at hmem
        exact absurd hmem (by decide)
      obtain ⟨first, more, hlexeme, hscan⟩ := scan_keyword_word size i hword rfl
        hends.1 (fun heq => absurd heq hdistancia)
      rw [if_neg hnull, if_pos hmem] at hscan
      exact ⟨first, more, hlexeme, hscan⟩
  | aliasName hword hupper =>
      obtain ⟨first, more, rfl, hfirst, hmore⟩ := hword
      refine ⟨first, more, rfl, ?_⟩
      rw [scan_word hfirst hmore hends.1, wordToken, hupper, (hends.2 hupper).mpr rfl]
      rfl
  | null hword hupper =>
      obtain ⟨first, more, hlexeme, hscan⟩ := scan_keyword_word size i hword hupper
        hends.1 (fun heq => absurd heq (by decide))
      exact ⟨first, more, hlexeme, hscan⟩
  | identifier hword hnone =>
      have hnull : h.upper (String.ofList lexeme) ≠ "NULL" := by
        intro heq
        rw [heq] at hnone
        exact hnone (by decide)
      have halias : h.upper (String.ofList lexeme) = "DISTANCIA" → opensCall h rest = false := by
        intro heq
        cases hopens : opensCall h rest with
        | false => rfl
        | true => cases (hends.2 heq).mp hopens
      obtain ⟨first, more, hlexeme, hscan⟩ := scan_keyword_word size i hword rfl
        hends.1 halias
      rw [if_neg hnull, if_neg hnone] at hscan
      exact ⟨first, more, hlexeme, hscan⟩
  | number hnumber =>
      obtain ⟨first, more, rfl, hfirst⟩ := hnumber.head
      have hscan := scan_number_unsigned i hnumber hends
      refine ⟨first, more, rfl, ?_⟩
      rw [scanToken, if_neg (digit_plain hfirst).1, if_neg (digit_plain hfirst).2, if_pos hfirst,
        ← cons_append, hscan, ok_bind]
  | @negative lexeme hnumber =>
      obtain ⟨first, more, rfl, hfirst⟩ := hnumber.head
      have hscan := scan_number_unsigned (i + 1) hnumber hends
      refine ⟨'-', first :: more, rfl, ?_⟩
      rw [scanToken, if_neg (by decide), if_neg (by decide), if_neg (by decide),
        if_pos ⟨rfl, by simp [digitNext, hfirst]⟩, hscan, ok_bind]
  | string content =>
      refine ⟨'\'', doubled content ++ ['\''], rfl, ?_⟩
      have hscan := scan_string_doubled size content hends
      rw [scanToken, if_neg (by decide), if_pos rfl, append_assoc, singleton_append,
        hscan, ok_bind]
  | @parameter digits hne hdigits =>
      obtain ⟨first, more, rfl⟩ := exists_cons_of_ne_nil hne
      have hfirst : first.isDigit = true := hdigits first mem_cons_self
      obtain ⟨htake, hdrop⟩ := takeWhile_digits hdigits hends
      refine ⟨'$', first :: more, rfl, ?_⟩
      rw [scanToken, if_neg (by decide), if_neg (by decide), if_neg (by decide),
        if_neg (fun hand => absurd hand.1 (by decide)),
        if_pos ⟨rfl, by simp [digitNext, hfirst]⟩, htake, hdrop]
  | operator hmem => exact scan_operator hmem hends
  | @punctuation c kind hkind =>
      obtain ⟨hspace, hquote, hdigit, hminus, hdollar, hoperator, _⟩ := punctuation_plain hkind
      refine ⟨c, [], rfl, ?_⟩
      rw [nil_append, scanToken, if_neg hspace, if_neg hquote, if_neg hdigit,
        if_neg (fun hand => hminus hand.1), if_neg (fun hand => hdollar hand.1),
        if_neg (hoperator _), if_neg (hoperator _), hkind]

theorem Spelled.ne_nil (hspelled : Spelled h kind value lexeme) : lexeme ≠ [] := by
  cases hspelled with
  | keyword hword | aliasName hword | null hword | identifier hword =>
      obtain ⟨first, more, rfl, _⟩ := hword
      exact cons_ne_nil _ _
  | number hnumber =>
      obtain ⟨first, more, rfl, _⟩ := hnumber.head
      exact cons_ne_nil _ _
  | negative | string | parameter | punctuation => exact cons_ne_nil _ _
  | operator hmem =>
      obtain ⟨first, more, rfl, _⟩ := operator_shape hmem
      exact cons_ne_nil _ _

theorem spelled_word {word : List Char} (hword : IsWord h word) :
    Spelled h (wordToken h (String.ofList word) rest i).kind
      (wordToken h (String.ofList word) rest i).value word := by
  have hplain : ∀ upper, upper = h.upper (String.ofList word) →
      ∀ token : Token, token = (if upper = "NULL" then ⟨.NULL, upper, i⟩
        else if upper ∈ KEYWORDS then ⟨.KEYWORD, upper, i⟩
        else ⟨.IDENTIFIER, String.ofList word, i⟩) → Spelled h token.kind token.value word := by
    rintro upper rfl token rfl
    split
    · next hnull =>
        have hspelled := Spelled.null hword hnull
        rwa [← hnull] at hspelled
    · next hnull =>
        split
        · next hmem => exact .keyword hword hmem hnull
        · next hmem => exact .identifier hword hmem
  by_cases hcall : h.upper (String.ofList word) = "DISTANCIA" ∧ opensCall h rest = true
  · obtain ⟨hupper, hopens⟩ := hcall
    have htoken : wordToken h (String.ofList word) rest i = ⟨.KEYWORD, "DISTANCE", i⟩ := by
      rw [wordToken, hupper, hopens]
      rfl
    rw [htoken]
    exact .aliasName hword hupper
  · have halias : h.upper (String.ofList word) = "DISTANCIA" → opensCall h rest = false :=
      fun hupper => Bool.eq_false_iff.mpr fun hopens => hcall ⟨hupper, hopens⟩
    exact hplain _ rfl _ (word_token_eq rfl halias)

variable {token : Option Token}

theorem scan_token_sound {char : Char} {text : List Char}
    (hscan : scanToken h size i char text = .ok (token, rest)) :
    (token = none ∧ char ∈ WHITESPACE ∧ rest = text) ∨
      ∃ t lexeme, token = some t ∧ t.position = i ∧ Spelled h t.kind t.value lexeme ∧
        char :: text = lexeme ++ rest := by
  rw [scanToken] at hscan
  split at hscan
  · next hspace =>
      cases hscan
      exact Or.inl ⟨rfl, hspace, rfl⟩
  right
  split at hscan
  · next hquote =>
      obtain ⟨⟨content, rest'⟩, hcontent, hscan⟩ := bind_eq_ok.mp hscan
      cases hscan
      obtain ⟨htext, _⟩ := scan_string_sound hcontent
      refine ⟨_, _, rfl, rfl, .string content, ?_⟩
      rw [hquote, htext]
      simp
  split at hscan
  · next hdigit =>
      obtain ⟨⟨number, rest'⟩, hnumber, hscan⟩ := bind_eq_ok.mp hscan
      cases hscan
      obtain ⟨htext, hunsigned⟩ := scan_number_sound hdigit hnumber
      exact ⟨_, _, rfl, rfl, .number hunsigned, htext⟩
  split at hscan
  · next hminus =>
      obtain ⟨rfl, hnext⟩ := hminus
      obtain ⟨⟨number, rest'⟩, hnumber, hscan⟩ := bind_eq_ok.mp hscan
      cases hscan
      cases text with
      | nil => cases hnext
      | cons digit text =>
          obtain ⟨htext, hunsigned⟩ := scan_number_sound hnext hnumber
          refine ⟨_, _, rfl, rfl, .negative hunsigned, ?_⟩
          rw [htext, cons_append]
  split at hscan
  · next hdollar =>
      obtain ⟨rfl, hnext⟩ := hdollar
      cases hscan
      have hne : text.takeWhile Char.isDigit ≠ [] := by
        cases text with
        | nil => cases hnext
        | cons digit text =>
            have hdigit : digit.isDigit = true := hnext
            rw [takeWhile_cons_of_pos hdigit]
            exact cons_ne_nil _ _
      refine ⟨_, _, rfl, rfl, .parameter hne (digits_takeWhile text), ?_⟩
      rw [cons_append, takeWhile_append_dropWhile]
  split at hscan
  · next hoperator =>
      cases hscan
      refine ⟨_, _, rfl, rfl, .operator hoperator, ?_⟩
      rw [cons_append, take_append_drop]
  split at hscan
  · next hoperator =>
      cases hscan
      exact ⟨_, _, rfl, rfl, .operator hoperator, rfl⟩
  split at hscan
  · next kind hkind =>
      cases hscan
      exact ⟨_, _, rfl, rfl, .punctuation hkind, rfl⟩
  · split at hscan
    · next hstart =>
        have hpart := part_of_start hstart
        cases hscan
        have hword : IsWord h ((char :: text).takeWhile (isIdentifierPart h)) := by
          rw [takeWhile_cons_of_pos hpart]
          exact ⟨char, _, rfl, hstart, fun c hc => mem_takeWhile_imp hc⟩
        exact ⟨_, _, rfl, word_token_position, spelled_word hword,
          takeWhile_append_dropWhile.symm⟩
    · cases hscan

theorem scan_token_length {char : Char} {text : List Char}
    (hscan : scanToken h size i char text = .ok (token, rest)) : rest.length ≤ text.length := by
  rcases scan_token_sound hscan with ⟨_, _, rfl⟩ | ⟨t, lexeme, _, _, hspelled, htext⟩
  · exact le_refl _
  · have hpositive := length_pos_of_ne_nil hspelled.ne_nil
    have hlength := congrArg length htext
    rw [length_cons, length_append] at hlength
    omega

end Tokens

/-! ## The tokens of a text -/

def lex (size : Nat) (text : List Char) : Except PyError (List Token) :=
  tokensFrom h size text.length text

section Texts

variable {h} {size : Nat} {rest : List Char}

theorem tokens_from_fuel {fuel : Nat} : ∀ {fuel' : Nat} {text : List Char}, text.length ≤ fuel →
    text.length ≤ fuel' → tokensFrom h size fuel text = tokensFrom h size fuel' text := by
  induction fuel with
  | zero =>
      intro fuel' text hfuel _
      rw [length_eq_zero_iff.mp (Nat.le_zero.mp hfuel), tokensFrom, tokensFrom]
  | succ fuel ih =>
      intro fuel' text hfuel hfuel'
      cases text with
      | nil => rw [tokensFrom, tokensFrom]
      | cons char text =>
          cases fuel' with
          | zero => simp at hfuel'
          | succ fuel' =>
              rw [length_cons] at hfuel hfuel'
              rw [tokensFrom, tokensFrom]
              cases hscan : scanToken h size (size - (text.length + 1)) char text with
              | error error => rfl
              | ok result =>
                  obtain ⟨token, rest⟩ := result
                  have hlength := scan_token_length hscan
                  rw [ok_bind, ok_bind]
                  dsimp only
                  rw [ih (by omega) (by omega : rest.length ≤ fuel')]

theorem lex_nil : lex h size [] = .ok [⟨.EOF, "", size⟩] := rfl

theorem lex_cons (char : Char) (text : List Char) :
    lex h size (char :: text) = (scanToken h size (size - (text.length + 1)) char text >>=
      fun result => lex h size result.2 >>= fun tokens => .ok (result.1.toList ++ tokens)) := by
  rw [lex, length_cons, tokensFrom]
  cases hscan : scanToken h size (size - (text.length + 1)) char text with
  | error error => rfl
  | ok result =>
      obtain ⟨token, rest⟩ := result
      rw [ok_bind, ok_bind]
      dsimp only
      rw [lex, tokens_from_fuel (scan_token_length hscan) (le_refl _)]

theorem tokenize_eq (sql : List Char) : tokenize h sql = lex h sql.length sql := rfl

end Texts

/-! ## Texts made of lexemes -/

/-- A part of a text: a white space character, or the lexeme of a token. -/
inductive Item
  | space (c : Char)
  | token (kind : TokenKind) (value : String) (lexeme : List Char)

def Item.text : Item → List Char
  | .space c => [c]
  | .token _ _ lexeme => lexeme

def text (items : List Item) : List Char := items.flatMap Item.text

/-- The tokens of the items, with their positions from `i` on. -/
def itemTokens : Nat → List Item → List Token
  | _, [] => []
  | i, .space _ :: items => itemTokens (i + 1) items
  | i, .token kind value lexeme :: items =>
      ⟨kind, value, i⟩ :: itemTokens (i + lexeme.length) items

/-- Each lexeme spells its token and ends where it is meant to, when `rest` follows. -/
def Reads : List Item → List Char → Prop
  | [], _ => True
  | .space c :: items, rest => c ∈ WHITESPACE ∧ Reads items rest
  | .token kind value lexeme :: items, rest =>
      Spelled h kind value lexeme ∧ Ends h kind lexeme (text items ++ rest) ∧ Reads items rest

section Items

variable {h} {size : Nat} {items : List Item} {rest : List Char}

@[simp]
theorem text_nil : text [] = [] := rfl

@[simp]
theorem text_cons (item : Item) (items : List Item) :
    text (item :: items) = item.text ++ text items := rfl

@[simp]
theorem text_append (items more : List Item) : text (items ++ more) = text items ++ text more :=
  flatMap_append

theorem lex_space {c : Char} (hspace : c ∈ WHITESPACE) (text : List Char) :
    lex h size (c :: text) = lex h size text := by
  rw [lex_cons, scanToken, if_pos hspace, ok_bind]
  cases lex h size text with
  | error error => rfl
  | ok tokens => rfl

theorem lex_token {kind : TokenKind} {value : String} {lexeme : List Char}
    (hspelled : Spelled h kind value lexeme) (hends : Ends h kind lexeme rest) :
    lex h size (lexeme ++ rest) = (lex h size rest >>= fun tokens =>
      .ok (⟨kind, value, size - (lexeme ++ rest).length⟩ :: tokens)) := by
  have hscan := fun i => scan_spelled size i hspelled hends
  obtain ⟨first, more, rfl, hfirst⟩ := hscan (size - (lexeme ++ rest).length)
  rw [cons_append] at hfirst ⊢
  rw [lex_cons]
  rw [length_cons] at hfirst ⊢
  rw [hfirst, ok_bind]
  rfl

theorem lex_items : ∀ {items : List Item}, Reads h items rest →
    (text items ++ rest).length ≤ size → lex h size (text items ++ rest) =
      (lex h size rest >>= fun tokens =>
        .ok (itemTokens (size - (text items ++ rest).length) items ++ tokens))
  | [], _, _ => by
      rw [text_nil, nil_append]
      cases lex h size rest with
      | error error => rfl
      | ok tokens => rfl
  | .space c :: items, ⟨hspace, hreads⟩, hsize => by
      rw [text_cons, Item.text, append_assoc, singleton_append] at hsize ⊢
      rw [length_cons] at hsize ⊢
      have ih := lex_items hreads (by omega : (text items ++ rest).length ≤ size)
      have hposition : size - ((text items ++ rest).length + 1) + 1 =
          size - (text items ++ rest).length := by omega
      rw [lex_space hspace, ih, itemTokens, hposition]
  | .token kind value lexeme :: items, ⟨hspelled, hends, hreads⟩, hsize => by
      rw [text_cons, Item.text, append_assoc] at hsize ⊢
      have hlength : (text items ++ rest).length ≤ size := by
        rw [length_append] at hsize
        omega
      have ih := lex_items hreads hlength
      rw [lex_token hspelled hends, ih, itemTokens]
      cases lex h size rest with
      | error error => rfl
      | ok tokens =>
          have hposition : size - (lexeme ++ (text items ++ rest)).length + lexeme.length =
              size - (text items ++ rest).length := by
            rw [length_append] at hsize ⊢
            omega
          rw [ok_bind, ok_bind, ok_bind, hposition, cons_append]

end Items

end SoupDB.Lexer
