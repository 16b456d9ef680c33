import SoupDB.Lib.Brackets
import SoupDB.Query.ExpressionText

/-!
# SoupDB: rendering of expressions as SQL

`formatExpr` is the text of an expression in a plan.  Only logical expressions are parenthesised.
`Faithful` says that the operands stand where the precedence of the grammar puts them, and that
every part has a text that can be read.

Main facts: `text_parts` and `balanced_parts`.
-/

namespace SoupDB.Parser

open List

open Lexer (Item Spelled Unsigned doubled text itemTokens)
open Brackets (Balanced)

/-- `str(i)`. -/
def intText (i : Int) : List Char :=
  if i < 0 then '-' :: Nat.toDigits 10 i.natAbs else Nat.toDigits 10 i.natAbs

def Exponent (text : List Char) : Prop :=
  ∃ number rest, Unsigned number ∧
    (text = number ++ 'e' :: rest ∨ text = '-' :: (number ++ 'e' :: rest))

/-- `str` of numbers in the host language. -/
structure Str (h : Host) where
  text : Value → String
  int : ∀ i, text (.int i) = String.ofList (intText i)
  /-- The text of a float that was read is a decimal text of it, or has an exponent, or is that
  of an infinity. -/
  float : ∀ raw lexeme, Spelled h .NUMBER raw lexeme → '.' ∈ raw.toList →
    (Spelled h .NUMBER (text (.float (h.float raw))) (text (.float (h.float raw))).toList ∧
        '.' ∈ (text (.float (h.float raw))).toList ∧
        h.float (text (.float (h.float raw))) = h.float raw) ∨
      Exponent (text (.float (h.float raw))).toList ∨
      text (.float (h.float raw)) = "inf" ∨ text (.float (h.float raw)) = "-inf"

/-! ## The text -/

section Text

variable (str : Value → String)

def literal : Value → String
  | .null => "NULL"
  | .bool value => if value then "TRUE" else "FALSE"
  | .str value => "'" ++ String.ofList (doubled value.toList) ++ "'"
  | value => str value

/-- The pieces of a text one after the other. -/
@[irreducible]
def concat (pieces : List String) : String := String.join pieces

mutual

/-- The expression as it is written in SQL. -/
def formatExpr : Expr → String
  | .Literal value => literal str value
  | .ColumnRef name => name
  | .StarExpr => "*"
  | .SimilarToExpr source k =>
      concat ["SIMILAR_TO(", formatExpr source, ", k=", literal str k, ")"]
  | .SearchExpr column query => concat ["SEARCH(", column, ", ", formatExpr query, ")"]
  | .MatchExpr column query => concat ["MATCH(", column, ", ", formatExpr query, ")"]
  | .ScoreExpr kind | .BoundScoreExpr _ kind =>
      if kind = "vector" then "SIMILARITY_SCORE()" else "SCORE()"
  | .CompareExpr left op right | .BinaryExpr left op right =>
      concat [formatExpr left, " ", op, " ", formatExpr right]
  | .LogicalExpr left op right =>
      concat ["(", formatExpr left, " ", op, " ", formatExpr right, ")"]
  | .NotExpr operand => concat ["NOT ", formatExpr operand]
  | .IsNullExpr value negated =>
      concat [formatExpr value, " IS ", if negated then "NOT " else "", "NULL"]
  | .BetweenExpr value lo hi =>
      concat [formatExpr value, " BETWEEN ", formatExpr lo, " AND ", formatExpr hi]
  | .InExpr value items =>
      concat [formatExpr value, " IN (", ", ".intercalate (formatItems items), ")"]
  | .LikeExpr value pattern => concat [formatExpr value, " LIKE ", formatExpr pattern]
  | .FunctionExpr name none distinct =>
      concat [name, "(", if distinct then "DISTINCT " else "", "*", ")"]
  | .FunctionExpr name (some arg) distinct =>
      concat [name, "(", if distinct then "DISTINCT " else "", formatExpr arg, ")"]
  | .PointExpr x y => concat ["POINT(", formatExpr y, ", ", formatExpr x, ")"]
  | .DistanceExpr left right metric =>
      concat ["distancia(", formatExpr left, ", ", formatExpr right,
        if metric ≠ "" then concat [", '", metric, "'"] else "", ")"]
  | .PolygonExpr vertices =>
      concat ["POLYGON(", ", ".intercalate (formatItems vertices), ")"]
  | .IntersectsExpr left right =>
      concat ["intersects(", formatExpr left, ", ", formatExpr right, ")"]
  -- a node without a case of its own is shown as its `repr`
  | .Parameter index => concat ["Parameter(index=", str (.int index), ")"]

def formatItems : List Expr → List String
  | [] => []
  | item :: items => formatExpr item :: formatItems items

end

end Text

/-! ## The parts of the text -/

/-- A word or a sign that spells itself. -/
def word (kind : TokenKind) (value : String) : Item := .token kind value value.toList

def lparen : Item := word .LPAREN "("

def rparen : Item := word .RPAREN ")"

def gap : Item := .space ' '

/-- `left op right`. -/
def spaced (left : List Item) (op : Item) (right : List Item) : List Item :=
  left ++ gap :: op :: gap :: right

def enclosed (items : List Item) : List Item := lparen :: items ++ [rparen]

/-- The arguments with commas between them. -/
def joined : List (List Item) → List Item
  | [] => []
  | [items] => items
  | items :: more => items ++ word .COMMA "," :: gap :: joined more

/-- `name(arguments)`. -/
def call (name : Item) (arguments : List (List Item)) : List Item :=
  name :: enclosed (joined arguments)

def operator (op : String) : Item := word (if op = "*" then .STAR else .OPERATOR) op

def stringPart (value : String) : Item :=
  .token .STRING value (['\''] ++ doubled value.toList ++ ['\''])

def metricPart (metric : String) : Item :=
  .token .STRING metric ("'".toList ++ metric.toList ++ "'".toList)

def numberPart (value : String) : Item := word .NUMBER value

section Parts

variable (str : Value → String)

/-- The text of a float, where an infinity looks like a column. -/
def floatParts (value : String) : List Item :=
  if value = "inf" then [word .IDENTIFIER "inf"]
  else if value = "-inf" then [word .OPERATOR "-", word .IDENTIFIER "inf"]
  else [numberPart value]

def literalParts : Value → List Item
  | .null => [word .NULL "NULL"]
  | .bool value => [word .KEYWORD (if value then "TRUE" else "FALSE")]
  | .str value => [stringPart value]
  | .int value => [numberPart (str (.int value))]
  | value => floatParts (str value)

mutual

def parts : Expr → List Item
  | .Literal value => literalParts str value
  | .ColumnRef name => [word .IDENTIFIER name]
  | .StarExpr => [word .STAR "*"]
  | .SimilarToExpr source k =>
      call (word .IDENTIFIER "SIMILAR_TO") [parts source,
        [word .IDENTIFIER "k", word .OPERATOR "="] ++ literalParts str k]
  | .SearchExpr column query =>
      call (word .IDENTIFIER "SEARCH") [[word .IDENTIFIER column], parts query]
  | .MatchExpr column query =>
      call (word .IDENTIFIER "MATCH") [[word .IDENTIFIER column], parts query]
  | .ScoreExpr kind | .BoundScoreExpr _ kind =>
      call (word .IDENTIFIER (if kind = "vector" then "SIMILARITY_SCORE" else "SCORE")) []
  | .CompareExpr left op right | .BinaryExpr left op right =>
      spaced (parts left) (operator op) (parts right)
  | .LogicalExpr left op right => enclosed (spaced (parts left) (word .KEYWORD op) (parts right))
  | .NotExpr operand => word .KEYWORD "NOT" :: gap :: parts operand
  | .IsNullExpr value negated =>
      spaced (parts value) (word .KEYWORD "IS")
        ((if negated then [word .KEYWORD "NOT", gap] else []) ++ [word .NULL "NULL"])
  | .BetweenExpr value lo hi =>
      spaced (spaced (parts value) (word .KEYWORD "BETWEEN") (parts lo)) (word .KEYWORD "AND")
        (parts hi)
  | .InExpr value items =>
      spaced (parts value) (word .KEYWORD "IN") (enclosed (joined (partsList items)))
  | .LikeExpr value pattern => spaced (parts value) (word .KEYWORD "LIKE") (parts pattern)
  | .FunctionExpr name none distinct =>
      call (word .KEYWORD name)
        [(if distinct then [word .KEYWORD "DISTINCT", gap] else []) ++ [word .STAR "*"]]
  | .FunctionExpr name (some arg) distinct =>
      call (word .KEYWORD name)
        [(if distinct then [word .KEYWORD "DISTINCT", gap] else []) ++ parts arg]
  | .PointExpr x y => call (word .KEYWORD "POINT") [parts y, parts x]
  | .DistanceExpr left right metric =>
      call (.token .KEYWORD "DISTANCE" "distancia".toList)
        ([parts left, parts right] ++ if metric ≠ "" then [[metricPart metric]] else [])
  | .PolygonExpr vertices => call (word .KEYWORD "POLYGON") (partsList vertices)
  | .IntersectsExpr left right =>
      call (.token .KEYWORD "INTERSECTS" "intersects".toList) [parts left, parts right]
  | .Parameter index =>
      call (word .IDENTIFIER "Parameter") [[.token .KEYWORD "INDEX" "index".toList,
        word .OPERATOR "=", numberPart (str (.int index))]]

def partsList : List Expr → List (List Item)
  | [] => []
  | item :: items => parts item :: partsList items

end

/-! ### They make up the text -/

variable {str}

theorem text_word (kind : TokenKind) (value : String) (items : List Item) :
    text (word kind value :: items) = value.toList ++ text items := rfl

theorem text_spaced (left : List Item) (op : Item) (right : List Item) :
    text (spaced left op right) = text left ++ [' '] ++ op.text ++ [' '] ++ text right := by
  simp [spaced, gap, Item.text]

theorem text_enclosed (items : List Item) : text (enclosed items) = ['('] ++ text items ++ [')'] :=
    by
  simp [enclosed, lparen, rparen, word, Item.text]

theorem text_joined (items : List (List Item)) :
    text (joined items) = ", ".toList.intercalate (items.map text) := by
  fun_induction joined items with
  | case1 => rfl
  | case2 items => simp [intercalate]
  | case3 items more hne ih =>
      obtain ⟨next, more, rfl⟩ := exists_cons_of_ne_nil hne
      rw [Lexer.text_append, text_word, Lexer.text_cons, ih]
      simp [intercalate, gap, Item.text]

theorem text_call (name : Item) (arguments : List (List Item)) :
    text (call name arguments) =
      name.text ++ ['('] ++ ", ".toList.intercalate (arguments.map text) ++ [')'] := by
  rw [call, Lexer.text_cons, text_enclosed, text_joined]
  simp

theorem text_float_parts (value : String) : text (floatParts value) = value.toList := by
  rw [floatParts]
  split
  · next h =>
      rw [h]
      rfl
  · split
    · next h =>
        rw [h]
        rfl
    · simp [numberPart, word, Item.text]

theorem text_literal (value : Value) :
    text (literalParts str value) = (literal str value).toList := by
  cases value with
  | null => simp [literalParts, literal, word, Item.text]
  | bool value =>
      cases value with
      | false => simp [literalParts, literal, word, Item.text]
      | true => simp [literalParts, literal, word, Item.text]
  | str value => simp [literalParts, literal, stringPart, Item.text]
  | int value => simp [literalParts, literal, numberPart, word, Item.text]
  | float value => exact text_float_parts _
  | tuple items => exact text_float_parts _

theorem toList_concat (pieces : List String) :
    (concat pieces).toList = pieces.flatMap String.toList := by
  rw [concat, String.toList_join]

mutual

theorem text_parts : ∀ e : Expr, text (parts str e) = (formatExpr str e).toList
  | .Literal value => by simp only [parts, formatExpr, text_literal]
  | .ColumnRef name => by simp [parts, formatExpr, word, Item.text]
  | .StarExpr => by simp [parts, formatExpr, word, Item.text]
  | .SimilarToExpr source k => by
      simp [parts, formatExpr, toList_concat, text_call, text_parts source, text_literal, word,
        Item.text,
        intercalate]
  | .SearchExpr column query => by
      simp [parts, formatExpr, toList_concat, text_call, text_parts query, word, Item.text,
        intercalate]
  | .MatchExpr column query => by
      simp [parts, formatExpr, toList_concat, text_call, text_parts query, word, Item.text,
        intercalate]
  | .ScoreExpr kind => by
      simp only [parts, formatExpr, text_call, word, Item.text]
      split <;> rfl
  | .BoundScoreExpr position kind => by
      simp only [parts, formatExpr, text_call, word, Item.text]
      split <;> rfl
  | .CompareExpr left op right => by
      simp [parts, formatExpr, toList_concat, text_spaced, text_parts left, text_parts right,
        operator, word,
        Item.text]
  | .BinaryExpr left op right => by
      simp [parts, formatExpr, toList_concat, text_spaced, text_parts left, text_parts right,
        operator, word,
        Item.text]
  | .LogicalExpr left op right => by
      simp [parts, formatExpr, toList_concat, text_enclosed, text_spaced, text_parts left,
        text_parts right,
        word, Item.text]
  | .NotExpr operand => by
      simp [parts, formatExpr, toList_concat, text_parts operand, word, gap, Item.text]
  | .IsNullExpr value negated => by
      cases negated <;>
        simp [parts, formatExpr, toList_concat, text_spaced, text_parts value, word, gap,
          Item.text]
  | .BetweenExpr value lo hi => by
      simp [parts, formatExpr, toList_concat, text_spaced, text_parts value, text_parts lo,
        text_parts hi, word,
        Item.text]
  | .InExpr value items => by
      simp [parts, formatExpr, toList_concat, text_spaced, text_enclosed, text_joined, text_parts
        value,
        text_parts_list items, word, Item.text]
  | .LikeExpr value pattern => by
      simp [parts, formatExpr, toList_concat, text_spaced, text_parts value, text_parts pattern,
        word, Item.text]
  | .FunctionExpr name none distinct => by
      cases distinct <;>
        simp [parts, formatExpr, toList_concat, text_call, word, gap, Item.text, intercalate]
  | .FunctionExpr name (some arg) distinct => by
      cases distinct <;>
        simp [parts, formatExpr, toList_concat, text_call, text_parts arg, word, gap, Item.text,
          intercalate]
  | .PointExpr x y => by
      simp [parts, formatExpr, toList_concat, text_call, text_parts x, text_parts y, word,
        Item.text,
        intercalate]
  | .DistanceExpr left right metric => by
      by_cases hmetric : metric = "" <;>
        simp [parts, formatExpr, toList_concat, text_call, text_parts left, text_parts right,
          hmetric,
          metricPart, Item.text, intercalate]
  | .PolygonExpr vertices => by
      simp [parts, formatExpr, toList_concat, text_call, text_parts_list vertices, word, Item.text]
  | .IntersectsExpr left right => by
      simp [parts, formatExpr, toList_concat, text_call, text_parts left, text_parts right,
        Item.text,
        intercalate]
  | .Parameter index => by
      simp [parts, formatExpr, toList_concat, text_call, word, numberPart, Item.text,
        intercalate]

theorem text_parts_list : ∀ items : List Expr,
    (partsList str items).map text = (formatItems str items).map String.toList
  | [] => rfl
  | item :: items => by
      rw [partsList, map_cons, text_parts item, text_parts_list items, formatItems,
        map_cons]

end

end Parts

/-! ## Faithful expressions -/

/-- The levels from the one that binds tightest. -/
def Level.index : Level → Nat
  | .primary => 0
  | .term => 1
  | .arithmetic => 2
  | .predicate => 3
  | .negation => 4
  | .conjunction => 5
  | .disjunction => 6

def rank : Expr → Level
  | .BinaryExpr _ op _ => if op ∈ ["+", "-"] then .arithmetic else .term
  | .CompareExpr _ _ _ | .IsNullExpr _ _ | .BetweenExpr _ _ _ | .InExpr _ _ | .LikeExpr _ _ =>
      .predicate
  | .NotExpr _ => .negation
  | _ => .primary

/-- The text needs no parentheses at the level. -/
def Fits (level : Level) (e : Expr) : Prop := (rank e).index ≤ level.index

/-- A number in positional notation. -/
def Positional (value : String) : Prop :=
  ∀ c ∈ value.toList, c.isDigit = true ∨ c = '.' ∨ c = '-'

section Faithful

variable (str : Value → String)

mutual

/-- Each operand fits where it stands without parentheses, and each part can be read back: no
parameter, no polygon, and no float with an exponent or an infinity. -/
def Faithful : Expr → Prop
  | .Literal (.float q) => Positional (str (.float q))
  | .Literal _ | .ColumnRef _ | .StarExpr | .ScoreExpr _ | .FunctionExpr _ none _ => True
  | .Parameter _ | .BoundScoreExpr _ _ | .PolygonExpr _ => False
  | .CompareExpr left _ right | .LikeExpr left right =>
      Fits .arithmetic left ∧ Fits .arithmetic right ∧ Faithful left ∧ Faithful right
  | .BinaryExpr left op right =>
      (if op ∈ ["+", "-"] then Fits .arithmetic left ∧ Fits .term right
        else Fits .term left ∧ Fits .primary right) ∧ Faithful left ∧ Faithful right
  | .IsNullExpr value _ => Fits .arithmetic value ∧ Faithful value
  | .NotExpr operand => Faithful operand
  | .BetweenExpr value lo hi =>
      Fits .arithmetic value ∧ Fits .arithmetic lo ∧ Fits .arithmetic hi ∧ Faithful value ∧
        Faithful lo ∧ Faithful hi
  | .InExpr value items => Fits .arithmetic value ∧ Faithful value ∧ FaithfulItems items
  | .MatchExpr _ query | .SearchExpr _ query => Faithful query
  | .SimilarToExpr source _ => Faithful source
  | .FunctionExpr _ (some arg) _ => Faithful arg
  | .LogicalExpr left _ right | .PointExpr left right | .DistanceExpr left right _
  | .IntersectsExpr left right => Faithful left ∧ Faithful right

def FaithfulItems : List Expr → Prop
  | [] => True
  | item :: items => (Fits .arithmetic item ∧ Faithful item) ∧ FaithfulItems items

end

theorem faithfulItems_iff {items : List Expr} :
    FaithfulItems str items ↔ ∀ item ∈ items, Fits .arithmetic item ∧ Faithful str item := by
  induction items with
  | nil => simp [FaithfulItems]
  | cons item items ih => rw [FaithfulItems, ih, forall_mem_cons]

end Faithful

/-! ## The tokens of the text -/

abbrev Shape : Type := TokenKind × String

def Item.shape : Item → Option Shape
  | .space _ => none
  | .token kind value _ => some (kind, value)

def Token.shape (t : Token) : Shape := (t.kind, t.value)

/-- The kinds and values of the tokens. -/
def shapes (items : List Item) : List Shape := items.filterMap Item.shape

/-- A parenthesis opens or closes a bracket. -/
def bracket (s : Shape) : Option Bool :=
  if s.1 = .LPAREN then some true else if s.1 = .RPAREN then some false else none

/-- No parenthesis. -/
def solid (s : Shape) : Bool := (bracket s).isNone

/-- The number of tokens that are no parentheses. -/
def weight (ss : List Shape) : Nat := ss.countP solid

section Shapes

variable {str : Value → String} {items left right : List Item} {op : Item} {i : Nat}

@[simp]
theorem shapes_nil : shapes [] = [] := rfl

@[simp]
theorem shapes_append (items more : List Item) : shapes (items ++ more) = shapes items ++ shapes
    more :=
  filterMap_append

@[simp]
theorem shapes_word (kind : TokenKind) (value : String) (items : List Item) :
    shapes (word kind value :: items) = (kind, value) :: shapes items := rfl

@[simp]
theorem shapes_token (kind : TokenKind) (value : String) (lexeme : List Char) (items : List Item) :
    shapes (.token kind value lexeme :: items) = (kind, value) :: shapes items := rfl

@[simp]
theorem shapes_gap (items : List Item) : shapes (gap :: items) = shapes items := rfl

theorem shapes_item_tokens : (itemTokens i items).map Token.shape = shapes items := by
  induction items generalizing i with
  | nil => rfl
  | cons item items ih =>
      cases item with
      | space c => exact ih
      | token kind value lexeme => exact congrArg ((kind, value) :: ·) ih

@[simp]
theorem shapes_spaced (kind : TokenKind) (value : String) :
    shapes (spaced left (word kind value) right) = shapes left ++ (kind, value) :: shapes right :=
      by
  rw [spaced, shapes_append, shapes_gap, shapes_word, shapes_gap]

@[simp]
theorem shapes_enclosed :
    shapes (enclosed items) = (.LPAREN, "(") :: shapes items ++ [(.RPAREN, ")")] := by
  rw [enclosed, shapes_append]
  rfl

@[simp]
theorem shapes_call (kind : TokenKind) (value : String) (lexeme : List Char)
    (arguments : List (List Item)) :
    shapes (call (.token kind value lexeme) arguments) =
      (kind, value) :: (.LPAREN, "(") :: shapes (joined arguments) ++ [(.RPAREN, ")")] := by
  rw [call, shapes_token, shapes_enclosed]
  rfl

variable {arguments : List (List Item)}

theorem joined_cons (h : arguments ≠ []) :
    joined (items :: arguments) = items ++ word .COMMA "," :: gap :: joined arguments := by
  obtain ⟨next, more, rfl⟩ := exists_cons_of_ne_nil h
  rfl

theorem joined_concat (h : arguments ≠ []) :
    shapes (joined (arguments ++ [items])) =
      shapes (joined arguments) ++ (.COMMA, ",") :: shapes items := by
  induction arguments with
  | nil => exact absurd rfl h
  | cons argument arguments ih =>
      by_cases hnil : arguments = []
      · subst hnil
        simp [joined]
      · rw [cons_append, joined_cons (by simp), joined_cons hnil]
        simp [ih hnil]

/-! ### What holds of every rendering -/

/-- The kinds of the tokens that stand between parentheses and before the end. -/
def plainKind (kind : TokenKind) : Bool := kind ∉ [.LPAREN, .RPAREN, .SEMICOLON, .EOF]

/-- A property that goes on from the parts of a rendering to the whole. -/
structure Composed (P : List Shape → Prop) : Prop where
  nil : P []
  cons {s : Shape} {ss : List Shape} (hs : plainKind s.1 = true) (hss : P ss) : P (s :: ss)
  append {us vs : List Shape} (hus : P us) (hvs : P vs) : P (us ++ vs)
  enclose {ss : List Shape} (hss : P ss) : P ((.LPAREN, "(") :: ss ++ [(.RPAREN, ")")])

namespace Composed

variable {P : List Shape → Prop} {kind : TokenKind} {value : String} {lexeme : List Char}
  {arguments : List (List Item)} (hP : Composed P)

include hP

theorem spaced (hleft : P (shapes left)) (hop : plainKind kind = true) (hright : P (shapes right))
    :
    P (shapes (spaced left (word kind value) right)) := by
  rw [shapes_spaced]
  exact hP.append hleft (hP.cons hop hright)

theorem enclosed (hitems : P (shapes items)) : P (shapes (enclosed items)) := by
  rw [shapes_enclosed]
  exact hP.enclose hitems

theorem joined (h : ∀ items ∈ arguments, P (shapes items)) : P (shapes (joined arguments)) := by
  induction arguments with
  | nil => exact hP.nil
  | cons items more ih =>
      have hmore := ih fun items hmem => h items (mem_cons_of_mem _ hmem)
      have hitems := h items mem_cons_self
      by_cases hnil : more = []
      · subst hnil
        exact hitems
      · rw [joined_cons hnil, shapes_append, shapes_word, shapes_gap]
        exact hP.append hitems (hP.cons rfl hmore)

theorem call (hname : plainKind kind = true) (h : ∀ items ∈ arguments, P (shapes items)) :
    P (shapes (call (.token kind value lexeme) arguments)) := by
  rw [Parser.call, shapes_token]
  exact hP.cons hname (hP.enclosed (hP.joined h))

theorem single (hkind : plainKind kind = true) : P (shapes [.token kind value lexeme]) :=
  hP.cons hkind hP.nil

theorem literal (value : Value) : P (shapes (literalParts str value)) := by
  have hfloat : ∀ text, P (shapes (floatParts text)) := by
    intro text
    rw [floatParts]
    split
    · exact hP.single rfl
    · split
      · exact hP.cons rfl (hP.single rfl)
      · exact hP.single rfl
  cases value with
  | null | bool | str | int => exact hP.single rfl
  | float value => exact hfloat _
  | tuple items => exact hfloat _

theorem operator {op : String} (hleft : P (shapes left)) (hright : P (shapes right)) :
    P (shapes (Parser.spaced left (operator op) right)) := by
  rw [Parser.operator]
  split <;> exact hP.spaced hleft rfl hright

theorem distinct (distinct : Bool) (hitems : P (shapes items)) :
    P (shapes ((if distinct then [word .KEYWORD "DISTINCT", gap] else []) ++ items)) := by
  cases distinct with
  | false => exact hitems
  | true => exact hP.cons rfl hitems

set_option linter.unusedSectionVars false in
mutual

/-- The property holds of the rendering of every expression. -/
theorem parts : ∀ e : Expr, P (shapes (parts str e))
  | .Literal value => by
      simp only [Parser.parts]
      exact hP.literal value
  | .ColumnRef name => by
      simp only [Parser.parts]
      exact hP.single rfl
  | .StarExpr => by
      simp only [Parser.parts]
      exact hP.single rfl
  | .SimilarToExpr source k => by
      simp only [Parser.parts]
      refine hP.call rfl (forall_mem_cons.mpr ⟨parts source,
        forall_mem_singleton.mpr ?_⟩)
      exact hP.cons rfl (hP.cons rfl (hP.literal k))
  | .SearchExpr column query | .MatchExpr column query => by
      simp only [Parser.parts]
      exact hP.call rfl (forall_mem_cons.mpr ⟨hP.single rfl,
        forall_mem_singleton.mpr (parts query)⟩)
  | .ScoreExpr kind | .BoundScoreExpr _ kind => by
      simp only [Parser.parts]
      exact hP.call rfl (fun _ hmem => nomatch hmem)
  | .CompareExpr left op right | .BinaryExpr left op right => by
      simp only [Parser.parts]
      exact hP.operator (parts left) (parts right)
  | .LogicalExpr left op right => by
      simp only [Parser.parts]
      exact hP.enclosed (hP.spaced (parts left) rfl (parts right))
  | .NotExpr operand => by
      simp only [Parser.parts]
      exact hP.cons rfl (parts operand)
  | .IsNullExpr value negated => by
      simp only [Parser.parts]
      refine hP.spaced (parts value) rfl ?_
      cases negated with
      | false => exact hP.single rfl
      | true => exact hP.cons rfl (hP.cons rfl hP.nil)
  | .BetweenExpr value lo hi => by
      simp only [Parser.parts]
      exact hP.spaced (hP.spaced (parts value) rfl (parts lo)) rfl
        (parts hi)
  | .InExpr value items => by
      simp only [Parser.parts]
      exact hP.spaced (parts value) rfl
        (hP.enclosed (hP.joined (partsList items)))
  | .LikeExpr value pattern => by
      simp only [Parser.parts]
      exact hP.spaced (parts value) rfl (parts pattern)
  | .FunctionExpr name none distinct => by
      simp only [Parser.parts]
      exact hP.call rfl
        (forall_mem_singleton.mpr (hP.distinct distinct (hP.single rfl)))
  | .FunctionExpr name (some arg) distinct => by
      simp only [Parser.parts]
      exact hP.call rfl
        (forall_mem_singleton.mpr (hP.distinct distinct (parts arg)))
  | .PointExpr x y => by
      simp only [Parser.parts]
      exact hP.call rfl (forall_mem_cons.mpr ⟨parts y,
        forall_mem_singleton.mpr (parts x)⟩)
  | .DistanceExpr left right metric => by
      simp only [Parser.parts]
      refine hP.call rfl ?_
      rw [forall_mem_append]
      refine ⟨forall_mem_cons.mpr ⟨parts left,
        forall_mem_singleton.mpr (parts right)⟩, ?_⟩
      split
      · exact forall_mem_singleton.mpr (hP.single rfl)
      · exact fun _ hmem => nomatch hmem
  | .PolygonExpr vertices => by
      simp only [Parser.parts]
      exact hP.call rfl (partsList vertices)
  | .IntersectsExpr left right => by
      simp only [Parser.parts]
      exact hP.call rfl (forall_mem_cons.mpr ⟨parts left,
        forall_mem_singleton.mpr (parts right)⟩)
  | .Parameter index => by
      simp only [Parser.parts]
      exact hP.call rfl
        (forall_mem_singleton.mpr (hP.cons rfl (hP.cons rfl (hP.single rfl))))

theorem partsList : ∀ es : List Expr, ∀ items ∈ partsList str es, P (shapes items)
  | [] => fun _ hmem => nomatch hmem
  | e :: es => forall_mem_cons.mpr ⟨parts e, partsList es⟩

end

end Composed

theorem composed_balanced : Composed (Balanced bracket) where
  nil := Brackets.balanced_nil
  cons hs hss := by
    refine hss.cons ?_
    rw [plainKind, decide_eq_true_eq, mem_cons, not_or, mem_cons, not_or] at hs
    rw [bracket, if_neg hs.1, if_neg hs.2.1]
  append hus hvs := hus.append hvs
  enclose hss := hss.enclose rfl rfl

theorem balanced_parts (e : Expr) : Balanced bracket (shapes (parts str e)) :=
  composed_balanced.parts e

theorem no_end_parts (e : Expr) :
    ∀ s ∈ shapes (parts str e), s.1 ≠ .EOF ∧ s.1 ≠ .SEMICOLON := by
  have hcomposed : Composed fun ss => ∀ s ∈ ss, s.1 ≠ TokenKind.EOF ∧ s.1 ≠ .SEMICOLON := {
    nil := fun _ hmem => nomatch hmem
    cons := fun hs hss => by
      rw [plainKind, decide_eq_true_eq] at hs
      refine forall_mem_cons.mpr ⟨⟨?_, ?_⟩, hss⟩
      · exact fun heq => hs (by simp [heq])
      · exact fun heq => hs (by simp [heq])
    append := fun hus hvs => forall_mem_append.mpr ⟨hus, hvs⟩
    enclose := fun hss => by
      rw [forall_mem_append, forall_mem_cons, forall_mem_singleton]
      exact ⟨⟨by decide, hss⟩, by decide⟩ }
  exact hcomposed.parts e

end Shapes

end SoupDB.Parser
