import SoupDB.Common.Schema

/-!
# SoupDB: the SQL tokenizer

`tokenize` splits a text into tokens that end with an EOF token.  A sign that stands directly
before a digit belongs to the number.  What the host language says about characters beyond
ASCII is a parameter.
-/

namespace SoupDB

/-- Functions of the host language on characters, strings and decimal texts. -/
structure Host where
  isalpha : Char → Bool
  isalnum : Char → Bool
  isspace : Char → Bool
  /-- `text.upper()`. -/
  upper : String → String
  /-- `text.lower()`. -/
  lower : String → String
  /-- `float(text)` of a decimal text. -/
  float : String → UInt64
  /-- The most digits that `int(text)` takes, if there is a limit. -/
  maxDigits : Option Nat
  isalpha_ascii : ∀ c : Char, c.toNat < 128 → isalpha c = c.isAlpha
  isalnum_ascii : ∀ c : Char, c.toNat < 128 → isalnum c = c.isAlphanum
  isspace_ascii : ∀ c : Char, c.toNat < 128 →
    isspace c = (c.toNat == 32 || 9 ≤ c.toNat && c.toNat ≤ 13 || 28 ≤ c.toNat && c.toNat ≤ 31)
  isalnum_of_isalpha : ∀ c, isalpha c = true → isalnum c = true
  isspace_of_isalnum : ∀ c, isalnum c = true → isspace c = false
  upper_ascii : ∀ text : String, (∀ c ∈ text.toList, c.toNat < 128) →
    upper text = String.ofList (text.toList.map Char.toUpper)
  lower_ascii : ∀ text : String, (∀ c ∈ text.toList, c.toNat < 128) →
    lower text = String.ofList (text.toList.map Char.toLower)

def decimalDigits (text : List Char) : ℚ :=
  let whole := text.takeWhile Char.isDigit
  let fraction := (text.dropWhile Char.isDigit).drop 1
  (Nat.ofDigitChars 10 (whole ++ fraction) 0 : ℚ) / 10 ^ fraction.length

theorem le_of_isAlphanum {c : Char} (h : c.isAlphanum = true) : 48 ≤ c.toNat := by
  have hcases : ((65 ≤ c.toNat ∧ c.toNat ≤ 90) ∨ (97 ≤ c.toNat ∧ c.toNat ≤ 122)) ∨
      (48 ≤ c.toNat ∧ c.toNat ≤ 57) := by
    rcases Bool.or_eq_true_iff.mp h with hletter | hdigit
    · rcases Bool.or_eq_true_iff.mp hletter with hupper | hlower
      · exact .inl (.inl (of_decide_eq_true hupper))
      · have hand := Bool.and_eq_true_iff.mp hlower
        exact .inl (.inr ⟨of_decide_eq_true hand.1, of_decide_eq_true hand.2⟩)
    · have hand := Bool.and_eq_true_iff.mp hdigit
      exact .inr ⟨of_decide_eq_true hand.1, of_decide_eq_true hand.2⟩
  omega

/-- The host language on ASCII texts. -/
def Host.ascii : Host where
  isalpha := Char.isAlpha
  isalnum := Char.isAlphanum
  isspace c := c.toNat == 32 || 9 ≤ c.toNat && c.toNat ≤ 13 || 28 ≤ c.toNat && c.toNat ≤ 31
  upper text := String.ofList (text.toList.map Char.toUpper)
  lower text := String.ofList (text.toList.map Char.toLower)
  float text :=
    match text.toList with
    | '-' :: digits => .ofNat (2 ^ 63 + (Double.nearest (decimalDigits digits)).toNat)
    | digits => Double.nearest (decimalDigits digits)
  maxDigits := some 4300
  isalpha_ascii _ _ := rfl
  isalnum_ascii _ _ := rfl
  isspace_ascii _ _ := rfl
  isalnum_of_isalpha c hc := by simp [Char.isAlphanum, hc]
  isspace_of_isalnum c hc := by
    have hrange := le_of_isAlphanum hc
    simp only [Bool.or_eq_false_iff, Bool.and_eq_false_iff, beq_eq_false_iff_ne,
      decide_eq_false_iff_not]
    omega
  upper_ascii _ _ := rfl
  lower_ascii _ _ := rfl

/-- The same language without a limit on the digits of integers. -/
def Host.unlimited (h : Host) : Host := { h with maxDigits := none }

/-- Classification of a single SQL token. -/
inductive TokenKind
  | KEYWORD | IDENTIFIER | NUMBER | STRING | PARAMETER | OPERATOR | STAR | NULL | LPAREN | RPAREN
  | COMMA | SEMICOLON | EOF
deriving DecidableEq

/-- `kind.value`. -/
def TokenKind.value : TokenKind → String
  | .KEYWORD => "keyword"
  | .IDENTIFIER => "identifier"
  | .NUMBER => "number"
  | .STRING => "string"
  | .PARAMETER => "parameter"
  | .OPERATOR => "operator"
  | .STAR => "star"
  | .NULL => "null"
  | .LPAREN => "lparen"
  | .RPAREN => "rparen"
  | .COMMA => "comma"
  | .SEMICOLON => "semicolon"
  | .EOF => "eof"

/-- A lexical unit with its position in the source string. -/
structure Token where
  kind : TokenKind
  value : String
  position : Nat
deriving DecidableEq

namespace Lexer

def KEYWORDS : List String :=
  ["SELECT", "AS", "FROM", "WHERE", "AND", "OR", "NOT", "BETWEEN", "IN", "LIKE", "ORDER", "BY",
    "GROUP", "ASC", "DESC", "DISTINCT", "TRUE", "FALSE", "INSERT", "INTO", "VALUES", "DELETE",
    "CREATE", "DROP", "TABLE", "INDEX", "EXTENSION", "PLUGIN", "ON", "ENGINE", "TYPE", "HEAP",
    "SEQUENTIAL", "BTREE", "HASH", "COUNT", "SUM", "AVG", "MIN", "MAX", "FORMAT", "JSON",
    "PRIMARY", "KEY", "POINT", "DISTANCE", "UPDATE", "SET", "JOIN", "INNER", "HAVING", "LIMIT",
    "OFFSET", "IS", "NULL", "EXPLAIN", "ANALYZE", "BEGIN", "END", "TRANSACTION", "POLYGON",
    "INTERSECTS"]

/-- The internal name of a function that has an alias. -/
def functionAlias (name : String) : Option String :=
  if name = "DISTANCIA" then some "DISTANCE" else none

def OPERATORS : List (List Char) :=
  [['>', '='], ['<', '='], ['<', '>'], ['!', '='], ['>'], ['<'], ['='], ['+'], ['-'], ['/'], ['%']]

def WHITESPACE : List Char := [' ', '\t', '\r', '\n']

def punctuation (char : Char) : Option TokenKind :=
  if char = '*' then some .STAR
  else if char = '(' then some .LPAREN
  else if char = ')' then some .RPAREN
  else if char = ',' then some .COMMA
  else if char = ';' then some .SEMICOLON
  else none

variable (h : Host)

def isIdentifierStart (char : Char) : Bool := char = '_' || h.isalpha char

def isIdentifierPart (char : Char) : Bool := char = '_' || h.isalnum char

/-- The content of a string, after its opening quote, and the rest of the text. -/
def scanString (size : Nat) : List Char → Except PyError (List Char × List Char)
  | [] => .error (.QueryParseError s!"unterminated string literal at position {size}")
  | char :: rest =>
      if char = '\'' then
        match rest with
        -- a doubled apostrophe is one apostrophe of the content
        | '\'' :: rest => do
            let (content, rest) ← scanString size rest
            .ok ('\'' :: content, rest)
        | rest => .ok ([], rest)
      else do
        let (content, rest) ← scanString size rest
        .ok (char :: content, rest)

/-- Whether an opening parenthesis follows, after any white space. -/
def opensCall (rest : List Char) : Bool :=
  (rest.dropWhile h.isspace).head? = some '('

/-- The digits of a number, with a decimal point or without, and the rest of the text. -/
def splitNumber (text : List Char) : List Char × List Char :=
  match text.dropWhile Char.isDigit with
  | '.' :: rest =>
      (text.takeWhile Char.isDigit ++ '.' :: rest.takeWhile Char.isDigit,
        rest.dropWhile Char.isDigit)
  | rest => (text.takeWhile Char.isDigit, rest)

def scanNumber (start : Nat) (text : List Char) : Except PyError (List Char × List Char) :=
  let (number, rest) := splitNumber text
  match rest with
  | char :: _ =>
      if char = '.' || isIdentifierStart h char then
        .error (.QueryParseError s!"invalid number literal at position {start}")
      else .ok (number, rest)
  | [] => .ok (number, rest)

def wordToken (word : String) (rest : List Char) (start : Nat) : Token :=
  let upper := h.upper word
  let upper := if opensCall h rest then (functionAlias upper).getD upper else upper
  if upper = "NULL" then ⟨.NULL, upper, start⟩
  else if upper ∈ KEYWORDS then ⟨.KEYWORD, upper, start⟩
  else ⟨.IDENTIFIER, word, start⟩

/-- `sql[i + 1] in _DIGITS`. -/
def digitNext (rest : List Char) : Bool := rest.head?.any Char.isDigit

/-- The token that starts with a character, if any, and the rest of the text. -/
def scanToken (size i : Nat) (char : Char) (rest : List Char) :
    Except PyError (Option Token × List Char) :=
  if char ∈ WHITESPACE then .ok (none, rest)
  else if char = '\'' then do
    let (content, rest) ← scanString size rest
    .ok (some ⟨.STRING, String.ofList content, i⟩, rest)
  else if char.isDigit then do
    let (number, rest) ← scanNumber h i (char :: rest)
    .ok (some ⟨.NUMBER, String.ofList number, i⟩, rest)
  else if char = '-' ∧ digitNext rest then do
    let (number, rest) ← scanNumber h (i + 1) rest
    .ok (some ⟨.NUMBER, String.ofList ('-' :: number), i⟩, rest)
  else if char = '$' ∧ digitNext rest then
    .ok (some ⟨.PARAMETER, String.ofList (rest.takeWhile Char.isDigit), i⟩,
      rest.dropWhile Char.isDigit)
  else if char :: rest.take 1 ∈ OPERATORS then
    .ok (some ⟨.OPERATOR, String.ofList (char :: rest.take 1), i⟩, rest.drop 1)
  else if [char] ∈ OPERATORS then .ok (some ⟨.OPERATOR, String.ofList [char], i⟩, rest)
  else
    match punctuation char with
    | some kind => .ok (some ⟨kind, String.ofList [char], i⟩, rest)
    | none =>
        if isIdentifierStart h char then
          let word := (char :: rest).takeWhile (isIdentifierPart h)
          let rest := (char :: rest).dropWhile (isIdentifierPart h)
          .ok (some (wordToken h (String.ofList word) rest i), rest)
        else
          .error (.QueryParseError
            s!"unexpected character {reprStr (String.ofList [char])} at position {i}")

/-- The tokens from a position on. -/
def tokensFrom (size : Nat) : Nat → List Char → Except PyError (List Token)
  | _, [] => .ok [⟨.EOF, "", size⟩]
  | 0, _ :: _ => .error .NonTermination
  | fuel + 1, char :: rest => do
      let (token, rest) ← scanToken h size (size - (rest.length + 1)) char rest
      let tokens ← tokensFrom size fuel rest
      .ok (token.toList ++ tokens)

/-- Split a text into tokens ending with an EOF token. -/
def tokenize (sql : List Char) : Except PyError (List Token) :=
  tokensFrom h sql.length sql.length sql

end Lexer
end SoupDB
