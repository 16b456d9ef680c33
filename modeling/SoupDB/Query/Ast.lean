import SoupDB.Common.Value

/-!
# SoupDB: SQL abstract syntax

The nodes of expressions, as the parser builds them.
-/

namespace SoupDB

/-- SQL expressions: they appear in projections, WHERE clauses, GROUP BY and ORDER BY items. -/
inductive Expr
  /-- A literal value: number, string or boolean. -/
  | Literal (value : Value)
  /-- Positional prepared-statement parameter. -/
  | Parameter (index : Int)
  | ColumnRef (name : String)
  | StarExpr
  /-- Comparison `left OP right`. -/
  | CompareExpr (left : Expr) (op : String) (right : Expr)
  /-- Arithmetic operation `left OP right`. -/
  | BinaryExpr (left : Expr) (op : String) (right : Expr)
  | IsNullExpr (value : Expr) (negated : Bool)
  | LogicalExpr (left : Expr) (op : String) (right : Expr)
  | NotExpr (operand : Expr)
  | BetweenExpr (value lo hi : Expr)
  | InExpr (value : Expr) (items : List Expr)
  | LikeExpr (value pattern : Expr)
  /-- Ranked full-text predicate `MATCH(column, query)`. -/
  | MatchExpr (column : String) (query : Expr)
  | SimilarToExpr (source : Expr) (k : Value)
  | SearchExpr (column : String) (query : Expr)
  | ScoreExpr (kind : String)
  /-- Score reference resolved to a temporary FLOAT column slot. -/
  | BoundScoreExpr (position : Int) (kind : String)
  /-- `arg` is absent when the function takes no argument. -/
  | FunctionExpr (name : String) (arg : Option Expr) (distinct : Bool)
  | PointExpr (x y : Expr)
  | DistanceExpr (left right : Expr) (metric : String)
  | PolygonExpr (vertices : List Expr)
  | IntersectsExpr (left right : Expr)

namespace Expr

/-- `type(expr).__name__`. -/
def typeName : Expr → String
  | .Literal _ => "Literal"
  | .Parameter _ => "Parameter"
  | .ColumnRef _ => "ColumnRef"
  | .StarExpr => "StarExpr"
  | .CompareExpr _ _ _ => "CompareExpr"
  | .BinaryExpr _ _ _ => "BinaryExpr"
  | .IsNullExpr _ _ => "IsNullExpr"
  | .LogicalExpr _ _ _ => "LogicalExpr"
  | .NotExpr _ => "NotExpr"
  | .BetweenExpr _ _ _ => "BetweenExpr"
  | .InExpr _ _ => "InExpr"
  | .LikeExpr _ _ => "LikeExpr"
  | .MatchExpr _ _ => "MatchExpr"
  | .SimilarToExpr _ _ => "SimilarToExpr"
  | .SearchExpr _ _ => "SearchExpr"
  | .ScoreExpr _ => "ScoreExpr"
  | .BoundScoreExpr _ _ => "BoundScoreExpr"
  | .FunctionExpr _ _ _ => "FunctionExpr"
  | .PointExpr _ _ => "PointExpr"
  | .DistanceExpr _ _ _ => "DistanceExpr"
  | .PolygonExpr _ => "PolygonExpr"
  | .IntersectsExpr _ _ => "IntersectsExpr"

end Expr

/-- An aggregate of a SELECT list: the fields of a `FunctionExpr`. -/
structure Aggregation where
  name : String
  arg : Option Expr
  distinct : Bool

end SoupDB
