import SoupDB.Lib.Parsing
import SoupDB.Query.Ast
import SoupDB.Query.Lexer

/-!
# SoupDB: the expressions of the SQL parser

Recursive descent over the token stream, with one function for each level of precedence.  The
state is the list of the tokens that are left.  `expression` stands for the expressions in
parentheses and in arguments; `parseExpression` closes the recursion with a counter, and
`expression` starts it with as much as the tokens can need.
-/

namespace SoupDB.Parser

open Parsing (leftChain)

/-- The state of the parser is the list of the tokens from its position on. -/
abbrev Parse (α : Type) : Type := Parsing.Parser Token PyError α

/-- `self._tokens[self._pos]` after the last token. -/
def outOfRange : PyError := .IndexError "list index out of range"

def raise {α : Type} (error : PyError) : Parse α := fun _ => .error error

/-! ## Tokens -/

def peek : Parse Token
  | [] => .error outOfRange
  | token :: rest => .ok (token, token :: rest)

def advance : Parse Token
  | [] => .error outOfRange
  | token :: rest => .ok (token, rest)

def checkKeyword (keyword : String) : Parse Bool := do
  let token ← peek
  pure (token.kind = .KEYWORD ∧ token.value = keyword)

def checkKind (kind : TokenKind) : Parse Bool := do
  let token ← peek
  pure (token.kind = kind)

def matchKeyword (keyword : String) : Parse Bool := do
  if ← checkKeyword keyword then
    let _ ← advance
    pure true
  else pure false

def matchKind (kind : TokenKind) : Parse Bool := do
  if ← checkKind kind then
    let _ ← advance
    pure true
  else pure false

def expectKeyword (keyword : String) : Parse Unit := do
  if ← matchKeyword keyword then pure ()
  else
    let token ← peek
    raise (.QueryParseError
      s!"expected {keyword} at position {token.position}, got {reprStr token.value}")

def expectKind (kind : TokenKind) : Parse Token := do
  let token ← peek
  if token.kind ≠ kind then
    raise (.QueryParseError
      s!"expected {kind.value} at position {token.position}, got {reprStr token.value}")
  else advance

def errorIfNotEof : Parse Unit := do
  let _ ← matchKind .SEMICOLON
  let token ← peek
  if token.kind ≠ .EOF then
    raise (.QueryParseError s!"unexpected token {reprStr token.value} at position {token.position}")
  else pure ()

/-- Whether a parenthesis follows the next token. -/
def checksLparenNext : Parse Bool := fun tokens =>
  match tokens with
  | _ :: next :: _ => .ok (decide (next.kind = .LPAREN), tokens)
  | _ => .ok (false, tokens)

/-- An optional separator: a token that is an operator, with its symbol. -/
def keywordOperator (keyword : String) (token : Token) : Option String :=
  if token.kind = .KEYWORD ∧ token.value = keyword then some keyword else none

def additiveOperator (token : Token) : Option String :=
  if token.kind = .OPERATOR ∧ token.value ∈ ["+", "-"] then some token.value else none

def multiplicativeOperator (token : Token) : Option String :=
  if token.kind = .OPERATOR ∧ token.value ∈ ["*", "/", "%"] then some token.value
  else if token.kind = .STAR then some "*"
  else none

def comma (token : Token) : Option Unit := if token.kind = .COMMA then some () else none

/-- An item, and more of them while there is a comma. -/
def commaList {α : Type} (item : Parse α) : Parse (List α) :=
  leftChain outOfRange .NonTermination comma (item >>= fun x => pure [x])
    (fun items _ more => items ++ more)

variable (h : Host)

/-- Consume a contextual SQL word without globally reserving it. -/
def matchWord (word : String) : Parse Bool := do
  let token ← peek
  if (token.kind = .IDENTIFIER ∨ token.kind = .KEYWORD) ∧ h.upper token.value = word then
    let _ ← advance
    pure true
  else pure false

/-! ## Numbers and metrics -/

/-- `int(text)` of decimal digits. -/
def decimal (digits : List Char) : Except PyError Int :=
  if h.maxDigits.any (· < digits.length) then
    .error (.ValueError
      (s!"Exceeds the limit ({h.maxDigits.getD 0} digits) for integer string conversion: " ++
        s!"value has {digits.length} digits; use sys.set_int_max_str_digits() to increase the " ++
        "limit"))
  else .ok (Nat.ofDigitChars 10 digits 0)

/-- `int(raw)`. -/
def intValue (raw : String) : Except PyError Int :=
  match raw.toList with
  | '-' :: digits => do
      let value ← decimal h digits
      .ok (-value)
  | digits => decimal h digits

/-- A NUMBER token is an int when possible, else a float. -/
def numberValue (raw : String) : Except PyError Value :=
  if '.' ∈ raw.toList then .ok (.float (h.float raw))
  else do
    let value ← intValue h raw
    .ok (.int value)

/-- `text.isdigit()` of a number. -/
def isDigits (text : String) : Bool := text ≠ "" && text.toList.all Char.isDigit

/-- `text.strip()`. -/
def strip (text : String) : String :=
  String.ofList ((text.toList.dropWhile h.isspace).reverse.dropWhile h.isspace).reverse

def METRIC_NAMES : List String := ["euclidean", "haversine"]

/-- The canonical name of a metric, or the text of the `ValueError`. -/
def normalizeMetric (name : String) : Except String String :=
  let canonical := h.lower (strip h name)
  if canonical ∉ METRIC_NAMES then
    .error (s!"unknown distance metric {reprStr name}, expected one of: " ++
      "'euclidean', 'haversine'")
  else .ok canonical

/-! ## Primaries -/

def COMPARISON_OPS : List String := ["=", "<>", "!=", "<", "<=", ">", ">="]

def AGGREGATES : List String := ["COUNT", "SUM", "AVG", "MIN", "MAX"]

section Productions

variable (expression : Parse Expr)

/-- `(first, second)`. -/
def parsePair : Parse (Expr × Expr) := do
  let _ ← expectKind .LPAREN
  let first ← expression
  let _ ← expectKind .COMMA
  let second ← expression
  let _ ← expectKind .RPAREN
  pure (first, second)

def parseFunctionCall : Parse Expr := do
  let name ← advance
  let _ ← expectKind .LPAREN
  let distinct ← matchKeyword "DISTINCT"
  if ← checkKind .STAR then
    let starToken ← advance
    if name.value ≠ "COUNT" ∨ distinct then
      raise (.QueryParseError s!"only COUNT(*) is supported at position {starToken.position}")
    else
      let _ ← expectKind .RPAREN
      pure (.FunctionExpr name.value none distinct)
  else
    let arg ← expression
    let _ ← expectKind .RPAREN
    pure (.FunctionExpr name.value (some arg) distinct)

def parseSimilarToExpr : Parse Expr := do
  let _ ← advance
  let _ ← expectKind .LPAREN
  let reference ← expression
  match reference with
  | .Literal (.str _) =>
      let _ ← expectKind .COMMA
      if ← matchWord h "K" then
        let eq ← expectKind .OPERATOR
        if eq.value ≠ "=" then raise (.QueryParseError "SIMILAR_TO k requires '='")
        else
          let token ← expectKind .NUMBER
          if isDigits token.value then
            let _ ← expectKind .RPAREN
            let k ← (intValue h token.value : Except PyError Int)
            pure (.SimilarToExpr reference (.int k))
          else raise (.QueryParseError "SIMILAR_TO k must be a non-negative integer")
      else raise (.QueryParseError "SIMILAR_TO requires named k=integer")
  | _ => raise (.QueryParseError "SIMILAR_TO requires a string reference")

/-- The score functions take no arguments. -/
def parseNoArguments (expr : Expr) : Parse Expr := do
  let _ ← advance
  let _ ← expectKind .LPAREN
  let _ ← expectKind .RPAREN
  pure expr

def parseSimilarityScoreExpr : Parse Expr := parseNoArguments (.ScoreExpr "vector")

def parseScoreExpr : Parse Expr := parseNoArguments (.ScoreExpr "auto")

/-- `name(column, 'query')`. -/
def parseColumnQuery (name : String) (node : String → Expr → Expr) : Parse Expr := do
  let token ← advance
  let (column, query) ← parsePair expression
  match column with
  | .ColumnRef column =>
      match query with
      | .Literal (.str _) => pure (node column query)
      | _ =>
          raise (.QueryParseError
            s!"{name} requires a string literal at position {token.position}")
  | _ =>
      raise (.QueryParseError s!"{name} requires a column reference at position {token.position}")

def parseMatchExpr : Parse Expr := parseColumnQuery expression "MATCH" .MatchExpr

def parseSearchExpr : Parse Expr := parseColumnQuery expression "SEARCH" .SearchExpr

/-- `POINT(latitude, longitude)`: the order is exchanged here. -/
def parsePointExpr : Parse Expr := do
  let _ ← advance
  let (latitude, longitude) ← parsePair expression
  pure (.PointExpr longitude latitude)

/-- Third argument of `distance`: a string literal naming the metric. -/
def parseDistanceMetric : Parse String := do
  let token ← peek
  if token.kind ≠ .STRING then
    raise (.QueryParseError ("distance() metric must be a string literal at position " ++
      s!"{token.position}, got {reprStr token.value}"))
  else
    let _ ← advance
    match normalizeMetric h token.value with
    | .ok metric => pure metric
    | .error message => raise (.QueryParseError s!"{message} at position {token.position}")

def parseDistanceExpr : Parse Expr := do
  let _ ← advance
  let _ ← expectKind .LPAREN
  let left ← expression
  let _ ← expectKind .COMMA
  let right ← expression
  if ← matchKind .COMMA then
    let metric ← parseDistanceMetric h
    let _ ← expectKind .RPAREN
    pure (.DistanceExpr left right metric)
  else
    let _ ← expectKind .RPAREN
    pure (.DistanceExpr left right "euclidean")

/-- A vertex, with the latitude first. -/
def parseVertex : Parse Expr := do
  let (y, x) ← parsePair expression
  pure (.PointExpr x y)

def parsePolygonExpr : Parse Expr := do
  let _ ← advance
  let _ ← expectKind .LPAREN
  let vertices ← commaList (parseVertex expression)
  let _ ← expectKind .RPAREN
  pure (.PolygonExpr vertices)

def parseIntersectsExpr : Parse Expr := do
  let _ ← advance
  let (left, right) ← parsePair expression
  pure (.IntersectsExpr left right)

/-- Whether a token is a contextual word. -/
def isWord (token : Token) (word : String) : Bool :=
  (token.kind = .IDENTIFIER ∨ token.kind = .KEYWORD) ∧ h.upper token.value = word

def isKeyword (token : Token) (keyword : String) : Bool :=
  token.kind = .KEYWORD ∧ token.value = keyword

/-- The names, calls and parentheses among the primaries. -/
def parseName (token : Token) (call : Bool) : Parse Expr := do
  if isWord h token "SIMILAR_TO" && call then parseSimilarToExpr h expression
  else if isWord h token "SIMILARITY_SCORE" && call then parseSimilarityScoreExpr
  else if isWord h token "SEARCH" && call then parseSearchExpr expression
  else if isWord h token "MATCH" && call then parseMatchExpr expression
  else if isWord h token "SCORE" && call then parseScoreExpr
  else if token.kind = .KEYWORD ∧ token.value ∈ AGGREGATES ∧ call then
    parseFunctionCall expression
  else if isKeyword token "POINT" && call then parsePointExpr expression
  else if isKeyword token "DISTANCE" && call then parseDistanceExpr h expression
  else if isKeyword token "POLYGON" && call then parsePolygonExpr expression
  else if isKeyword token "INTERSECTS" && call then parseIntersectsExpr expression
  else if ← matchKind .IDENTIFIER then pure (.ColumnRef token.value)
  else if ← matchKind .LPAREN then
    let expr ← expression
    let _ ← expectKind .RPAREN
    pure expr
  else
    raise (.QueryParseError
      s!"expected expression at position {token.position}, got {reprStr token.value}")

def parsePrimary : Parse Expr := do
  let token ← peek
  let call ← checksLparenNext
  if ← matchKind .NUMBER then
    let value ← (numberValue h token.value : Except PyError Value)
    pure (.Literal value)
  else if ← matchKind .STRING then pure (.Literal (.str token.value))
  else if token.kind = .PARAMETER then
    let _ ← advance
    let index ← (intValue h token.value : Except PyError Int)
    if index < 1 then
      raise (.QueryParseError
        s!"prepared parameters are 1-based (got ${index}) at position {token.position}")
    else pure (.Parameter index)
  else if ← matchKeyword "TRUE" then pure (.Literal (.bool true))
  else if ← matchKeyword "FALSE" then pure (.Literal (.bool false))
  else if ← matchKind .NULL then pure (.Literal .null)
  else parseName h expression token call

/-! ## Operators -/

def parseTerm : Parse Expr :=
  leftChain outOfRange .NonTermination multiplicativeOperator (parsePrimary h expression)
    .BinaryExpr

def parseArithmetic : Parse Expr :=
  leftChain outOfRange .NonTermination additiveOperator (parseTerm h expression) .BinaryExpr

def parsePredicate : Parse Expr := do
  let value ← parseArithmetic h expression
  let token ← peek
  if ← matchKeyword "IS" then
    let negated ← matchKeyword "NOT"
    let _ ← expectKind .NULL
    pure (.IsNullExpr value negated)
  else if token.kind = .OPERATOR ∧ token.value ∈ COMPARISON_OPS then
    let _ ← advance
    let right ← parseArithmetic h expression
    pure (.CompareExpr value token.value right)
  else if ← matchKeyword "BETWEEN" then
    let lo ← parseArithmetic h expression
    expectKeyword "AND"
    let hi ← parseArithmetic h expression
    pure (.BetweenExpr value lo hi)
  else if ← matchKeyword "IN" then
    let _ ← expectKind .LPAREN
    let items ← commaList (parseArithmetic h expression)
    let _ ← expectKind .RPAREN
    pure (.InExpr value items)
  else if ← matchKeyword "LIKE" then
    let pattern ← parseArithmetic h expression
    pure (.LikeExpr value pattern)
  else pure value

def parseNot : Parse Expr
  | [] => .error outOfRange
  | token :: rest =>
      if isKeyword token "NOT" then do
        let (operand, rest) ← parseNot rest
        .ok (.NotExpr operand, rest)
      else parsePredicate h expression (token :: rest)

def parseAnd : Parse Expr :=
  leftChain outOfRange .NonTermination (keywordOperator "AND") (parseNot h expression)
    .LogicalExpr

def parseOr : Parse Expr :=
  leftChain outOfRange .NonTermination (keywordOperator "OR") (parseAnd h expression)
    .LogicalExpr

end Productions

/-- Expressions with at most so many levels of parentheses. -/
def parseExpression : Nat → Parse Expr
  | 0 => raise .NonTermination
  | fuel + 1 => parseOr h (parseExpression fuel)

/-- `self._parse_expression()`. -/
def expression : Parse Expr := fun tokens => parseExpression h (tokens.length + 1) tokens

def parseText (sql : List Char) : Except PyError Expr := do
  let tokens ← Lexer.tokenize h sql
  let (expr, rest) ← expression h tokens
  let (_, _) ← errorIfNotEof rest
  .ok expr

/-- What a text alone in a SELECT list stands for: the star, or an expression. -/
def parseSelected (sql : List Char) : Except PyError Expr := do
  let tokens ← Lexer.tokenize h sql
  match tokens with
  | [star, _] => if star.kind = .STAR then .ok .StarExpr else parseText h sql
  | _ => parseText h sql

end SoupDB.Parser
