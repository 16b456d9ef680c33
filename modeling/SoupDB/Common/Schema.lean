import SoupDB.Indexes.KeyCodec

/-!
# SoupDB: column types and the values of a row

The definition of a column, and the objects a row holds.  A FLOAT is its 64-bit pattern
here, since the codecs of records and of results only move it; the comparisons of `Value`
are not needed.  `floatOfInt` is the conversion of the host language, to the nearest
double and to the even one of two.
-/

namespace SoupDB

/-- Supported column types in a table definition. -/
inductive ColumnType
  | INT
  | FLOAT
  | VARCHAR
  | TEXT
  | BOOL
  | POINT
deriving DecidableEq, Repr

/-- The value of the enumeration. -/
def ColumnType.value : ColumnType → String
  | .INT => "INT"
  | .FLOAT => "FLOAT"
  | .VARCHAR => "VARCHAR"
  | .TEXT => "TEXT"
  | .BOOL => "BOOL"
  | .POINT => "POINT"

/-- One column definition inside a CREATE TABLE statement. -/
structure ColumnDef where
  name : String
  typeName : ColumnType
  length : Option Int
deriving DecidableEq, Repr

/-- What a cell of a row holds.  A POINT is a tuple of two numbers; byte strings are only
parameters of statements. -/
inductive Datum
  | null
  | bool (b : Bool)
  | int (i : Int)
  | float (bits : UInt64)
  | str (s : String)
  | bytes (data : Bytes)
  | tuple (items : List Datum)
deriving Repr, Inhabited

namespace Datum

/-- `type(value).__name__`. -/
def typeName : Datum → String
  | .null => "NoneType"
  | .bool _ => "bool"
  | .int _ => "int"
  | .float _ => "float"
  | .str _ => "str"
  | .bytes _ => "bytes"
  | .tuple _ => "tuple"

/-- `value is None`. -/
def isNull : Datum → Bool
  | .null => true
  | _ => false

/-- `bool(value)`. -/
def truth : Datum → Bool
  | .null => false
  | .bool b => b
  | .int i => decide (i ≠ 0)
  | .float bits => decide (bits.toNat % 2 ^ 63 ≠ 0)
  | .str s => decide (s ≠ "")
  | .bytes data => decide (data ≠ [])
  | .tuple items => !items.isEmpty

end Datum

/-! ## Texts of the host language -/

/-- How many characters in a row are not printable, then how many are, by Unicode 14.0. -/
def printableRuns : List Nat :=
  [32, 95, 34, 12, 1, 714, 2, 6, 4, 7, 1, 1, 1, 20, 1, 397, 1, 38, 2, 50, 2, 3, 1, 55, 8, 27, 4,
    6, 17, 22, 1, 192, 1, 48, 2, 59, 2, 101, 14, 59, 2, 49, 2, 15, 1, 28, 2, 1, 1, 11, 5, 31, 9,
    74, 1, 161, 1, 8, 2, 2, 2, 22, 1, 7, 1, 1, 3, 4, 2, 9, 2, 2, 2, 4, 8, 1, 4, 2, 1, 5, 2, 25, 2,
    3, 1, 6, 4, 2, 2, 22, 1, 7, 1, 2, 1, 2, 1, 2, 2, 1, 1, 5, 4, 2, 2, 3, 3, 1, 7, 4, 1, 1, 7, 17,
    10, 3, 1, 9, 1, 3, 1, 22, 1, 7, 1, 2, 1, 5, 2, 10, 1, 3, 1, 3, 2, 1, 15, 4, 2, 12, 7, 7, 1, 3,
    1, 8, 2, 2, 2, 22, 1, 7, 1, 2, 1, 5, 2, 9, 2, 2, 2, 3, 7, 3, 4, 2, 1, 5, 2, 18, 10, 2, 1, 6,
    3, 3, 1, 4, 3, 2, 1, 1, 1, 2, 3, 2, 3, 3, 3, 12, 4, 5, 3, 3, 1, 4, 2, 1, 6, 1, 14, 21, 5, 13,
    1, 3, 1, 23, 1, 16, 2, 9, 1, 3, 1, 4, 7, 2, 1, 3, 2, 1, 2, 4, 2, 10, 7, 22, 1, 3, 1, 23, 1,
    10, 1, 5, 2, 9, 1, 3, 1, 4, 7, 2, 6, 2, 1, 4, 2, 10, 1, 2, 13, 13, 1, 3, 1, 51, 1, 3, 1, 6, 4,
    16, 2, 26, 1, 3, 1, 18, 3, 24, 1, 9, 1, 1, 2, 7, 3, 1, 4, 6, 1, 1, 1, 8, 6, 10, 2, 3, 12, 58,
    4, 29, 37, 2, 1, 1, 1, 5, 1, 24, 1, 1, 1, 23, 2, 5, 1, 1, 1, 6, 2, 10, 2, 4, 32, 72, 1, 36, 4,
    39, 1, 36, 1, 15, 1, 13, 37, 198, 1, 1, 5, 1, 2, 377, 1, 4, 2, 7, 1, 1, 1, 4, 2, 41, 1, 4, 2,
    33, 1, 4, 2, 7, 1, 1, 1, 4, 2, 15, 1, 57, 1, 4, 2, 67, 2, 32, 3, 26, 6, 86, 2, 6, 2, 640, 1,
    28, 3, 89, 7, 22, 9, 24, 9, 20, 12, 13, 1, 3, 1, 2, 12, 94, 2, 10, 6, 10, 6, 14, 1, 11, 6, 89,
    7, 43, 5, 70, 10, 31, 1, 12, 4, 12, 4, 1, 3, 42, 2, 5, 11, 44, 4, 26, 6, 11, 3, 62, 2, 65, 1,
    29, 2, 11, 6, 10, 6, 14, 2, 31, 49, 77, 3, 47, 1, 116, 8, 60, 3, 15, 3, 60, 7, 43, 2, 11, 8,
    43, 5, 534, 2, 6, 2, 38, 2, 6, 2, 8, 1, 1, 1, 1, 1, 1, 1, 31, 2, 53, 1, 15, 1, 14, 2, 6, 1,
    19, 2, 3, 1, 9, 17, 24, 8, 47, 17, 2, 2, 27, 1, 13, 3, 33, 15, 33, 15, 140, 4, 663, 25, 11,
    21, 1812, 2, 32, 1, 349, 5, 45, 1, 1, 5, 1, 2, 56, 7, 2, 14, 24, 9, 7, 1, 7, 1, 7, 1, 7, 1, 7,
    1, 7, 1, 7, 1, 7, 1, 126, 34, 26, 1, 89, 12, 214, 26, 12, 5, 63, 1, 86, 2, 103, 5, 43, 1, 94,
    1, 84, 12, 47, 1, 29293, 3, 55, 9, 348, 20, 184, 8, 203, 5, 2, 1, 1, 1, 5, 24, 59, 3, 10, 6,
    56, 8, 70, 8, 12, 6, 116, 11, 30, 3, 78, 1, 11, 4, 33, 1, 55, 9, 14, 2, 10, 2, 103, 24, 28,
    10, 6, 2, 6, 2, 6, 9, 7, 1, 7, 1, 60, 4, 126, 2, 10, 6, 11172, 12, 23, 4, 49, 8452, 366, 2,
    106, 38, 7, 12, 5, 5, 26, 1, 5, 1, 1, 1, 2, 1, 2, 1, 125, 16, 445, 2, 54, 7, 1, 32, 42, 6, 51,
    1, 19, 1, 4, 4, 5, 1, 135, 4, 190, 3, 6, 2, 6, 2, 6, 2, 3, 3, 7, 1, 7, 13, 2, 2, 12, 1, 26, 1,
    19, 1, 2, 1, 15, 2, 14, 34, 123, 5, 3, 4, 45, 3, 88, 1, 13, 3, 1, 47, 46, 130, 29, 3, 49, 15,
    28, 4, 36, 9, 30, 5, 43, 5, 30, 1, 37, 4, 14, 42, 158, 2, 10, 6, 36, 4, 36, 4, 40, 8, 52, 11,
    12, 1, 15, 1, 7, 1, 2, 1, 11, 1, 15, 1, 7, 1, 2, 67, 311, 9, 22, 10, 8, 24, 6, 1, 42, 1, 9,
    69, 6, 2, 1, 1, 44, 1, 2, 3, 1, 2, 23, 1, 72, 8, 9, 48, 19, 1, 2, 5, 33, 3, 27, 5, 1, 64, 56,
    4, 20, 2, 50, 1, 2, 5, 8, 1, 3, 1, 29, 2, 3, 4, 10, 7, 9, 7, 64, 32, 39, 4, 12, 9, 54, 3, 29,
    2, 27, 5, 26, 7, 4, 12, 7, 80, 73, 55, 51, 13, 51, 7, 46, 8, 10, 294, 31, 1, 42, 1, 3, 2, 2,
    78, 40, 8, 42, 22, 26, 38, 28, 20, 23, 9, 78, 4, 36, 9, 62, 1, 5, 13, 25, 7, 10, 6, 53, 1, 18,
    8, 39, 9, 96, 1, 20, 11, 18, 1, 44, 65, 7, 1, 1, 1, 4, 1, 15, 1, 11, 6, 59, 5, 10, 6, 4, 1, 8,
    2, 2, 2, 22, 1, 7, 1, 2, 1, 5, 1, 10, 2, 2, 2, 3, 2, 1, 6, 1, 5, 7, 2, 7, 3, 5, 139, 92, 1, 5,
    30, 72, 8, 10, 166, 54, 2, 38, 34, 69, 11, 10, 6, 13, 19, 58, 6, 10, 54, 27, 2, 15, 4, 23,
    185, 60, 100, 83, 12, 8, 2, 1, 2, 8, 1, 2, 1, 30, 1, 2, 2, 12, 9, 10, 70, 8, 2, 46, 2, 11, 27,
    72, 8, 83, 13, 73, 263, 9, 1, 45, 1, 14, 10, 29, 3, 32, 2, 22, 1, 14, 73, 7, 1, 2, 1, 44, 3,
    1, 1, 2, 1, 9, 8, 10, 6, 6, 1, 2, 1, 37, 1, 2, 1, 6, 7, 10, 310, 25, 183, 1, 15, 50, 13, 923,
    102, 111, 1, 5, 11, 196, 2636, 99, 13, 1071, 4049, 583, 8633, 569, 7, 31, 1, 10, 4, 81, 1, 10,
    6, 30, 2, 6, 10, 70, 10, 10, 1, 7, 1, 21, 5, 19, 688, 91, 101, 75, 4, 57, 7, 17, 64, 5, 11, 2,
    14, 6136, 8, 1238, 42, 9, 8935, 4, 1, 7, 1, 2, 1, 291, 45, 3, 17, 4, 8, 396, 2308, 107, 5, 13,
    3, 9, 7, 10, 2, 4, 4704, 46, 2, 23, 9, 116, 60, 246, 10, 39, 2, 74, 8, 112, 21, 70, 154, 20,
    12, 87, 9, 25, 135, 85, 1, 71, 1, 2, 2, 1, 2, 2, 2, 4, 1, 12, 1, 1, 1, 7, 1, 65, 1, 4, 2, 8,
    1, 7, 1, 28, 1, 4, 1, 5, 1, 1, 3, 7, 1, 340, 2, 292, 2, 702, 15, 5, 1, 15, 1104, 31, 225, 7,
    1, 17, 2, 7, 1, 2, 1, 5, 213, 45, 3, 14, 2, 10, 4, 2, 320, 31, 17, 58, 5, 1, 1248, 7, 1, 4, 1,
    2, 1, 15, 1, 197, 2, 16, 41, 76, 4, 10, 4, 2, 785, 68, 76, 61, 194, 4, 1, 27, 1, 2, 1, 1, 2,
    1, 1, 10, 1, 4, 1, 1, 1, 1, 6, 1, 4, 1, 1, 1, 1, 1, 1, 3, 1, 2, 1, 1, 2, 1, 1, 1, 1, 1, 1, 1,
    1, 1, 1, 2, 1, 1, 2, 4, 1, 7, 1, 4, 1, 4, 1, 1, 1, 10, 1, 17, 5, 3, 1, 5, 1, 17, 52, 2, 270,
    44, 4, 100, 12, 15, 2, 15, 1, 15, 1, 37, 10, 174, 56, 29, 13, 44, 4, 9, 7, 2, 14, 6, 154, 984,
    5, 16, 3, 13, 3, 116, 12, 89, 7, 12, 4, 1, 15, 12, 4, 56, 8, 10, 6, 40, 8, 30, 2, 2, 78, 340,
    12, 14, 2, 5, 3, 5, 3, 7, 9, 29, 3, 11, 5, 6, 10, 10, 6, 8, 8, 7, 9, 147, 1, 55, 37, 10, 1030,
    42720, 32, 4153, 7, 222, 2, 5762, 14, 7473, 3103, 542, 1506, 4939, 716213, 240]

/-- `chr(c).isprintable()`, by the runs from some character on. -/
def isPrintable : List Nat → Nat → Bool
  | escaped :: printable :: runs, c =>
      if c < escaped then false
      else if c < escaped + printable then true
      else isPrintable runs (c - (escaped + printable))
  | _, _ => false

/-- A character code of so many hexadecimal digits. -/
def hexDigits (width c : Nat) : List Char :=
  (List.range width).reverse.map (fun i => Nat.digitChar (c / 16 ^ i % 16))

/-- One character of a `repr` between quotes, escaped if it has to be. -/
def reprChar (quote : Nat) (printable : Nat → Bool) (c : Nat) : List Char :=
  if c = 92 ∨ c = quote then [Char.ofNat 92, Char.ofNat c]
  else if c = 9 then [Char.ofNat 92, 't']
  else if c = 10 then [Char.ofNat 92, 'n']
  else if c = 13 then [Char.ofNat 92, 'r']
  else if printable c then [Char.ofNat c]
  else if c < 2 ^ 8 then Char.ofNat 92 :: 'x' :: hexDigits 2 c
  else if c < 2 ^ 16 then Char.ofNat 92 :: 'u' :: hexDigits 4 c
  else Char.ofNat 92 :: 'U' :: hexDigits 8 c

/-- Single quotes, or double quotes around a text with single quotes only. -/
def reprQuoted (printable : Nat → Bool) (codes : List Nat) : List Char :=
  let quote := if codes.contains 39 && !codes.contains 34 then 34 else 39
  Char.ofNat quote :: (codes.flatMap (reprChar quote printable) ++ [Char.ofNat quote])

/-- `repr` of a string. -/
def reprStr (s : String) : String :=
  String.ofList (reprQuoted
    (fun c => if c < 128 then decide (32 ≤ c ∧ c ≠ 127) else isPrintable printableRuns c)
    (s.toList.map Char.toNat))

/-- `repr` of a byte string. -/
def reprBytes (bs : Bytes) : String :=
  String.ofList ('b' :: reprQuoted (fun c => decide (32 ≤ c ∧ c < 127)) (bs.map UInt8.toNat))

example : reprStr "it's" = "\"it's\"" ∧ reprStr "\u200bñ" = "'\\u200bñ'" ∧
    reprBytes [1, 65, 255] = "b'\\x01A\\xff'" := by decide +kernel

/-! ## Numbers -/

/-- The pattern of the double with this sign, this exponent of two and these 53 bits. -/
def floatBits (negative : Bool) (exponent significand : Nat) : UInt64 :=
  UInt64.ofNat ((if negative then 2 ^ 63 else 0) + (exponent + 1023) * 2 ^ 52 +
    (significand - 2 ^ 52))

/-- `float(value)` of an integer: the nearest double, and the even one of two. -/
def floatOfInt (i : Int) : Except PyError UInt64 :=
  if i = 0 then .ok 0
  else
    let n := i.natAbs
    let exponent := n.log2
    if exponent ≤ 52 then .ok (floatBits (decide (i < 0)) exponent (n * 2 ^ (52 - exponent)))
    else
      let unit := 2 ^ (exponent - 52)
      let rounded :=
        if unit < 2 * (n % unit) ∨ (unit = 2 * (n % unit) ∧ n / unit % 2 = 1) then n / unit + 1
        else n / unit
      -- rounding up may reach the next power of two
      let (exponent, significand) :=
        if rounded = 2 ^ 53 then (exponent + 1, 2 ^ 52) else (exponent, rounded)
      if exponent ≤ 1023 then .ok (floatBits (decide (i < 0)) exponent significand)
      else .error (.OverflowError "int too large to convert to float")

example : floatOfInt 3 = .ok 0x4008000000000000 ∧ floatOfInt (-1) = .ok 0xBFF0000000000000 ∧
    floatOfInt (2 ^ 53 + 1) = .ok 0x4340000000000000 := by decide

namespace Datum

/-- `float(value)` of a coordinate, if the value can be one. -/
def coordinate? : Datum → Option (Except PyError UInt64)
  | .int i => some (floatOfInt i)
  | .float bits => some (.ok bits)
  | _ => none

/-- The coordinates of a point, as doubles: a tuple of two numbers, none of them a `bool`. -/
def point? : Datum → Option (Except PyError UInt64 × Except PyError UInt64)
  | .tuple [x, y] =>
      match x.coordinate?, y.coordinate? with
      | some x, some y => some (x, y)
      | _, _ => none
  | _ => none

/-- The value as a row stores it: the coordinates of a point are floats. -/
def stored (d : Datum) : Datum :=
  match d.point? with
  | some (.ok x, .ok y) => .tuple [.float x, .float y]
  | _ => d

end Datum
end SoupDB
