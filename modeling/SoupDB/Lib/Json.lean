import Mathlib.Data.List.Basic

/-!
# JSON texts of flat objects

`dumps` writes an object whose values are strings, integers, booleans and null, in ASCII;
`loads` reads such a text.  Characters above ASCII are written as UTF-16 escapes.
-/

namespace SoupDB.Json

/-- The values of a flat object. -/
inductive Scalar
  | null
  | bool (b : Bool)
  | int (i : Int)
  | str (s : String)
deriving DecidableEq, Repr

abbrev Object : Type := List (String × Scalar)

/-- The codes of the characters of a text. -/
abbrev Codes : Type := List Nat

def codes (s : String) : Codes := s.toList.map Char.toNat

/-! ## Writing -/

/-- A digit of a number in base 16. -/
def hexDigit (n : Nat) : Nat := if n < 10 then 48 + n else 87 + n

def hex4 (n : Nat) : Codes :=
  [hexDigit (n / 4096 % 16), hexDigit (n / 256 % 16), hexDigit (n / 16 % 16), hexDigit (n % 16)]

/-- A UTF-16 unit, escaped: a backslash, `u` and four digits. -/
def escapeUnit (n : Nat) : Codes := 92 :: 117 :: hex4 n

def escapeCode (c : Nat) : Codes :=
  if c = 34 then [92, 34]
  else if c = 92 then [92, 92]
  else if c = 10 then [92, 110]
  else if c = 13 then [92, 114]
  else if c = 9 then [92, 116]
  else if c = 12 then [92, 102]
  else if c = 8 then [92, 98]
  else if 32 ≤ c ∧ c ≤ 126 then [c]
  else if c < 65536 then escapeUnit c
  else escapeUnit (55296 + (c - 65536) / 1024) ++ escapeUnit (56320 + (c - 65536) % 1024)

def dumpString (s : String) : Codes := 34 :: ((codes s).flatMap escapeCode ++ [34])

/-- The decimal digits of a number. -/
def dumpNat (n : Nat) : Codes := (Nat.toDigits 10 n).map Char.toNat

def dumpScalar : Scalar → Codes
  | .null => codes "null"
  | .bool true => codes "true"
  | .bool false => codes "false"
  | .int i => if i < 0 then 45 :: dumpNat i.natAbs else dumpNat i.natAbs
  | .str s => dumpString s

def dumpPair (entry : String × Scalar) : Codes :=
  dumpString entry.1 ++ [58, 32] ++ dumpScalar entry.2

/-- The pairs after the first one, each after a comma and a blank. -/
def dumpRest (object : Object) : Codes := object.flatMap (fun entry => 44 :: 32 :: dumpPair entry)

def dumpPairs : Object → Codes
  | [] => []
  | entry :: rest => dumpPair entry ++ dumpRest rest

/-- `json.dumps(object)`; the keys of the object come in their order. -/
def dumps (object : Object) : String :=
  String.ofList ((123 :: (dumpPairs object ++ [125])).map Char.ofNat)

/-! ## Reading -/

def hexValue (c : Nat) : Option Nat :=
  if 48 ≤ c ∧ c ≤ 57 then some (c - 48)
  else if 97 ≤ c ∧ c ≤ 102 then some (c - 87)
  else if 65 ≤ c ∧ c ≤ 70 then some (c - 55)
  else none

def hexValue4 (a b c d : Nat) : Option Nat := do
  let a ← hexValue a
  let b ← hexValue b
  let c ← hexValue c
  let d ← hexValue d
  some (4096 * a + 256 * b + 16 * c + d)

/-- The character an escape of one letter stands for. -/
def simpleEscape (c : Nat) : Option Nat :=
  if c = 34 ∨ c = 92 ∨ c = 47 then some c
  else if c = 110 then some 10
  else if c = 114 then some 13
  else if c = 116 then some 9
  else if c = 102 then some 12
  else if c = 98 then some 8
  else none

/-- The units of a string up to its closing quote, and what follows. -/
def scanString : Codes → Option (Codes × Codes)
  | [] => none
  | 34 :: rest => some ([], rest)
  | 92 :: 117 :: a :: b :: c :: d :: rest => do
      let unit ← hexValue4 a b c d
      let (units, rest) ← scanString rest
      some (unit :: units, rest)
  | 92 :: e :: rest => do
      let unit ← simpleEscape e
      let (units, rest) ← scanString rest
      some (unit :: units, rest)
  | c :: rest =>
      if c < 32 ∨ c = 92 then none
      else do
        let (units, rest) ← scanString rest
        some (c :: units, rest)

/-- Two escaped units that form a pair are one character. -/
def joinSurrogates : Codes → Codes
  | high :: low :: rest =>
      if 55296 ≤ high ∧ high < 56320 ∧ 56320 ≤ low ∧ low < 57344 then
        (65536 + 1024 * (high - 55296) + (low - 56320)) :: joinSurrogates rest
      else high :: joinSurrogates (low :: rest)
  | units => units

/-- The text of character codes, if all of them are characters. -/
def textOf (cs : Codes) : Option String :=
  if cs.all (fun c => decide c.isValidChar) then some (String.ofList (cs.map Char.ofNat)) else none

def loadString (text : Codes) : Option (String × Codes) := do
  let (units, rest) ← scanString text
  let s ← textOf (joinSurrogates units)
  some (s, rest)

/-- The digits at the start of a text, as a number, and what follows. -/
def loadDigits (value : Nat) : Codes → Nat × Codes
  | [] => (value, [])
  | c :: rest => if 48 ≤ c ∧ c ≤ 57 then loadDigits (10 * value + (c - 48)) rest
      else (value, c :: rest)

def loadScalar : Codes → Option (Scalar × Codes)
  | 34 :: rest => do
      let (s, rest) ← loadString rest
      some (.str s, rest)
  | 110 :: 117 :: 108 :: 108 :: rest => some (.null, rest)
  | 116 :: 114 :: 117 :: 101 :: rest => some (.bool true, rest)
  | 102 :: 97 :: 108 :: 115 :: 101 :: rest => some (.bool false, rest)
  | 45 :: c :: rest =>
      if 48 ≤ c ∧ c ≤ 57 then
        let (n, rest) := loadDigits 0 (c :: rest)
        some (.int (-(n : Int)), rest)
      else none
  | c :: rest =>
      if 48 ≤ c ∧ c ≤ 57 then
        let (n, rest) := loadDigits 0 (c :: rest)
        some (.int n, rest)
      else none
  | [] => none

/-- `"key": value`. -/
def loadPair : Codes → Option ((String × Scalar) × Codes)
  | 34 :: rest => do
      let (key, rest) ← loadString rest
      match rest with
      | 58 :: 32 :: rest => do
          let (value, rest) ← loadScalar rest
          some ((key, value), rest)
      | _ => none
  | _ => none

/-- The pairs after one, up to the closing brace. -/
def loadRest : Nat → Codes → Option (Object × Codes)
  | _, 125 :: rest => some ([], rest)
  | fuel + 1, 44 :: 32 :: rest => do
      let (entry, rest) ← loadPair rest
      let (entries, rest) ← loadRest fuel rest
      some (entry :: entries, rest)
  | _, _ => none

/-- `json.loads(text)`, on the texts of flat objects as `dumps` writes them. -/
def loads (text : String) : Option Object :=
  match codes text with
  | [123, 125] => some []
  | 123 :: rest =>
      match loadPair rest with
      | none => none
      | some (entry, rest) =>
          match loadRest rest.length rest with
          | some (entries, []) => some (entry :: entries)
          | _ => none
  | _ => none

example : loads (dumps [("dimension", .int (-3)), ("metric", .str "l\u00e9\"2")]) =
    some [("dimension", .int (-3)), ("metric", .str "l\u00e9\"2")] := by decide +kernel

end SoupDB.Json
