import SoupDB.Common.Schema
import SoupDB.Indexes.ExtendibleHash

/-!
# SoupDB: indexes as their users see them

The catalog, the executor and the undo of a transaction use every structure through one
contract: an index holds entries `(key, RID)`.  BTREE and HASH compare the encodings of
their keys, RTREE compares points, coordinate by coordinate as floats.
-/

namespace SoupDB

/-! ## Keys -/

/-- What a structure keeps of a key. -/
inductive IndexKey
  | encoded (bytes : Bytes)
  | point (x y : UInt64)
deriving DecidableEq

namespace IndexKey

/-- `a == b`. -/
def eq : IndexKey → IndexKey → Bool
  | .encoded a, .encoded b => a = b
  | .point x y, .point x' y' => (Value.float x).eq (.float x') && (Value.float y).eq (.float y')
  | _, _ => false

end IndexKey

mutual

/-- The value of a cell as a scalar key; byte strings are no cells. -/
def Datum.key : Datum → Value
  | .null => .null
  | .bool b => .bool b
  | .int i => .int i
  | .float bits => .float bits
  | .str s => .str s
  | .bytes _ => .null
  | .tuple items => .tuple (Datum.keys items)

def Datum.keys : List Datum → List Value
  | [] => []
  | d :: ds => d.key :: Datum.keys ds

end

/-- `Point.fromKey`.  `digest` gives the point of a string. -/
def fromKey (digest : String → UInt64 × UInt64) (key : Datum) : Except PyError IndexKey :=
  match key with
  | .bool _ => .error (.ValueError "bool is not a valid R-Tree key")
  | .int i => do
      let x ← floatOfInt i
      .ok (.point x 0)
  | .float x => .ok (.point x 0)
  | .str s => .ok (.point (digest s).1 (digest s).2)
  | other =>
      match other.point? with
      | some (x, y) => do
          let x ← x
          let y ← y
          .ok (.point x y)
      | none => .error (.ValueError s!"unsupported R-Tree key {other.typeName}")

/-! ## Indexes -/

structure Index where
  indexType : String
  entries : List (IndexKey × RID)
deriving DecidableEq

namespace Index

/-- What the structure makes of a key. -/
def keyOf (digest : String → UInt64 × UInt64) (indexType : String) (key : Datum) :
    Except PyError IndexKey :=
  if indexType = "RTREE" then fromKey digest key
  else if indexType = "HASH" then do
    let bytes ← ExtendibleHash.encodeKey key.key
    .ok (.encoded bytes)
  else do
    let bytes ← KeyCodec.encodeKey key.key
    .ok (.encoded bytes)

def insert (i : Index) (key : IndexKey) (rid : RID) : Index :=
  { i with entries := i.entries ++ [(key, rid)] }

/-- The entries of a pair are gone. -/
def remove (i : Index) (key : IndexKey) (rid : RID) : Index :=
  { i with entries := i.entries.filter (fun e => !(IndexKey.eq e.1 key && e.2 == rid)) }

end Index
end SoupDB
