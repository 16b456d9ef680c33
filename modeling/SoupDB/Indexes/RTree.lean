import SoupDB.Common.Value
import SoupDB.Lib.Choosing
import SoupDB.Lib.Except
import Mathlib.Algebra.Order.Field.Basic

/-!
# SoupDB: the R-tree

Points stand in leaves, and every node keeps the smallest box around what it holds, so that
a search enters only the nodes whose boxes it meets.  Nodes are objects that change in place:
each has an identity, which `==` does not see.  Coordinates are numbers of an ordered field.

An overfull node is split in two.  The split takes the two entries that waste most area
together as seeds, and deals the others out one by one.
-/

namespace SoupDB

variable {K : Type} [Field K] [LinearOrder K]

/-! ## Points and boxes -/

structure Point (K : Type) where
  x : K
  y : K
deriving DecidableEq

/-- A rectangle, borders included. -/
structure MBR (K : Type) where
  minX : K
  minY : K
  maxX : K
  maxY : K
deriving DecidableEq

namespace MBR

omit [Field K] [LinearOrder K] in
/-- The box of one point. -/
def fromPoint (point : Point K) : MBR K := ⟨point.x, point.y, point.x, point.y⟩

omit [Field K] in
/-- The box around two boxes. -/
def union (a b : MBR K) : MBR K :=
  ⟨min a.minX b.minX, min a.minY b.minY, max a.maxX b.maxX, max a.maxY b.maxY⟩

def area (a : MBR K) : K := max 0 (a.maxX - a.minX) * max 0 (a.maxY - a.minY)

/-- How much area is added to cover the other box. -/
def enlargement (a b : MBR K) : K := (a.union b).area - a.area

omit [Field K] in
def contains (a : MBR K) (point : Point K) : Bool :=
  a.minX ≤ point.x && point.x ≤ a.maxX && a.minY ≤ point.y && point.y ≤ a.maxY

omit [Field K] in
def intersects (a b : MBR K) : Bool :=
  !(b.maxX < a.minX || a.maxX < b.minX || b.maxY < a.minY || a.maxY < b.minY)

end MBR

/-- What reading a box that is `None` raises. -/
def noBox : PyError := .AttributeError "'NoneType' object has no attribute 'union'"

def boxOf {E : Type} (entryMbr : E → Option (MBR K)) (entry : E) : Except PyError (MBR K) :=
  match entryMbr entry with
  | some box => .ok box
  | none => .error noBox

/-- The box around the boxes of the entries of a node, `None` for no entries. -/
def computeMbr {E : Type} (entryMbr : E → Option (MBR K)) :
    List E → Except PyError (Option (MBR K))
  | [] => .ok none
  | [entry] => .ok (entryMbr entry)
  | entries => do
      let boxes ← entries.mapM (boxOf entryMbr)
      .ok (boxes.tail.foldl (fun mbr box => mbr.map (fun m => m.union box)) boxes.head?)

/-! ## The quadratic split -/

/-- The entries dealt out so far, and the boxes around them. -/
structure Halves (E K : Type) where
  leftEntries : List E
  leftBox : MBR K
  rightEntries : List E
  rightBox : MBR K

namespace Halves

variable {E : Type}

omit [Field K] in
def addLeft (h : Halves E K) (e : E × MBR K) : Halves E K :=
  { h with leftEntries := h.leftEntries ++ [e.1], leftBox := h.leftBox.union e.2 }

omit [Field K] in
def addRight (h : Halves E K) (e : E × MBR K) : Halves E K :=
  { h with rightEntries := h.rightEntries ++ [e.1], rightBox := h.rightBox.union e.2 }

/-- How much the choice of the half matters for an entry. -/
def difference (h : Halves E K) (e : E × MBR K) : K :=
  |h.leftBox.enlargement e.2 - h.rightBox.enlargement e.2|

/-- The entry goes to the half that grows less, on a tie to the smaller one, then to the left. -/
def deal (h : Halves E K) (e : E × MBR K) : Halves E K :=
  let deltaLeft := h.leftBox.enlargement e.2
  let deltaRight := h.rightBox.enlargement e.2
  if deltaLeft < deltaRight ∨
      deltaLeft = deltaRight ∧ h.leftBox.area ≤ h.rightBox.area then
    h.addLeft e
  else h.addRight e

end Halves

section Split

variable {E : Type}

/-- `list.remove`: the first element that equals the given one goes. -/
def listRemove (eq : E → E → Bool) (entry : E) (remaining : List (E × MBR K)) :
    Except PyError (List (E × MBR K)) :=
  if remaining.any (fun e => eq entry e.1) then
    .ok (remaining.eraseP (fun e => eq entry e.1))
  else .error (.ValueError "list.remove(x): x not in list")

/-- The loop of the split over the entries that are left.  Each turn takes one of them, so
their number is enough fuel. -/
def distribute (eq : E → E → Bool) (minEntries : Nat) :
    Nat → Halves E K → List (E × MBR K) → Except PyError (Halves E K)
  | _, h, [] => .ok h
  | 0, _, _ :: _ => .error .NonTermination
  | fuel + 1, h, remaining =>
      if h.leftEntries.length + remaining.length = minEntries then
        .ok (remaining.foldl Halves.addLeft h)
      else if h.rightEntries.length + remaining.length = minEntries then
        .ok (remaining.foldl Halves.addRight h)
      else
        match remaining.argmax h.difference with
        | none => .ok h
        | some best => do
            let rest ← listRemove eq best.1 remaining
            distribute eq minEntries fuel (h.deal best) rest

/-- The area that a box around two boxes wastes. -/
def wasted (a b : MBR K) : K := (a.union b).area - a.area - b.area

/-- The two entries that waste most area together.  The entries of a node are numbered: the
number says which object an entry is. -/
def pickSeeds (entries : List ((E × MBR K) × Nat)) :
    Except PyError (((E × MBR K) × Nat) × ((E × MBR K) × Nat)) :=
  match (pairs entries).argmax (fun p => wasted p.1.1.2 p.2.1.2) with
  | some seeds => .ok seeds
  | none => .error (.RuntimeError "cannot pick seeds from empty node")

/-- Quadratic split of the entries of a node. -/
def split (entryMbr : E → Option (MBR K)) (eq : E → E → Bool) (maxEntries : Nat)
    (entries : List E) : Except PyError (Halves E K) := do
  let boxes ← entries.mapM (boxOf entryMbr)
  let numbered := (entries.zip boxes).zipIdx
  let (first, second) ← pickSeeds numbered
  let remaining := numbered.filter (fun e => e.2 ≠ first.2 && e.2 ≠ second.2)
  distribute eq (max 1 (maxEntries / 2)) remaining.length
    ⟨[first.1.1], first.1.2, [second.1.1], second.1.2⟩ (remaining.map Prod.fst)

end Split

/-! ## Nodes -/

/-- A leaf holds points with their RIDs, an internal node children, each with the box it had
when it was put there. -/
inductive RTreeNode (K : Type)
  | leaf (id : Nat) (entries : List (Point K × RID)) (mbr : Option (MBR K))
  | internal (id : Nat) (entries : List (Option (MBR K) × RTreeNode K)) (mbr : Option (MBR K))

namespace RTreeNode

omit [Field K] [LinearOrder K] in
def mbr : RTreeNode K → Option (MBR K)
  | .leaf _ _ mbr => mbr
  | .internal _ _ mbr => mbr

def isEmpty : RTreeNode K → Bool
  | .leaf _ entries _ => entries.isEmpty
  | .internal _ entries _ => entries.isEmpty

/-- `entry_mbr` of a leaf. -/
def pointMbr (entry : Point K × RID) : Option (MBR K) := some (MBR.fromPoint entry.1)

/-- `entry_mbr` of an internal node: the box of the child as it is now. -/
def childMbr (entry : Option (MBR K) × RTreeNode K) : Option (MBR K) := entry.2.mbr

mutual

/-- `a == b` on nodes: all fields, whichever objects they are. -/
def eq : RTreeNode K → RTreeNode K → Bool
  | .leaf _ entries mbr, .leaf _ entries' mbr' => entries = entries' && mbr = mbr'
  | .internal _ entries mbr, .internal _ entries' mbr' =>
      eqEntries entries entries' && mbr = mbr'
  | _, _ => false

def eqEntries :
    List (Option (MBR K) × RTreeNode K) → List (Option (MBR K) × RTreeNode K) → Bool
  | [], [] => true
  | (box, child) :: entries, (box', child') :: entries' =>
      box = box' && eq child child' && eqEntries entries entries'
  | _, _ => false

end

/-- `a == b` on the entries of an internal node. -/
def entryEq (a b : Option (MBR K) × RTreeNode K) : Bool := a.1 = b.1 && eq a.2 b.2

/-! ### Insertion -/

/-- The position of the child that grows least for the point, on a tie of the smallest. -/
def chooseChild (entries : List (Option (MBR K) × RTreeNode K)) (point : Point K) :
    Except PyError Nat := do
  let boxes ← entries.mapM (boxOf childMbr)
  match boxes.zipIdx.argmin
    (fun e => toLex (e.1.enlargement (MBR.fromPoint point), e.1.area)) with
  | some (_, i) => .ok i
  | none => .error (.RuntimeError "internal node without children")

section Insert

variable (maxEntries : Nat) (point : Point K) (rid : RID)

mutual

/-- The node with the entry, a second node where it was split, and the next identity. -/
def insertInto :
    RTreeNode K → Nat → Except PyError (RTreeNode K × Option (RTreeNode K) × Nat)
  | .leaf id entries _, next => do
      let entries := entries ++ [(point, rid)]
      let mbr ← computeMbr pointMbr entries
      if maxEntries < entries.length then do
        let h ← split pointMbr (fun a b => a = b) maxEntries entries
        .ok (.leaf id h.leftEntries (some h.leftBox),
          some (.leaf next h.rightEntries (some h.rightBox)), next + 1)
      else .ok (.leaf id entries mbr, none, next)
  | .internal id entries _, next => do
      let i ← chooseChild entries point
      let (entries, promoted, next) ← insertAt i entries next
      let mbr ← computeMbr childMbr entries
      match promoted with
      | none => .ok (.internal id entries mbr, none, next)
      | some promoted => do
          let entries := entries ++ [(promoted.mbr, promoted)]
          let mbr ← computeMbr childMbr entries
          if maxEntries < entries.length then do
            let h ← split childMbr entryEq maxEntries entries
            .ok (.internal id h.leftEntries (some h.leftBox),
              some (.internal next h.rightEntries (some h.rightBox)), next + 1)
          else .ok (.internal id entries mbr, none, next)

def insertAt : Nat → List (Option (MBR K) × RTreeNode K) → Nat →
    Except PyError (List (Option (MBR K) × RTreeNode K) × Option (RTreeNode K) × Nat)
  | _, [], _ => .error (.RuntimeError "internal node without children")
  | 0, (box, child) :: entries, next => do
      let (child, promoted, next) ← insertInto child next
      .ok ((box, child) :: entries, promoted, next)
  | i + 1, entry :: entries, next => do
      let (entries, promoted, next) ← insertAt i entries next
      .ok (entry :: entries, promoted, next)

end

end Insert

/-! ### Search -/

section Collect

variable (keep : Point K → Bool) (enter : MBR K → Bool)

mutual

/-- The RIDs of the points to keep, out of the nodes whose boxes are entered. -/
def collect : RTreeNode K → Except PyError (List RID)
  | .leaf _ entries _ => .ok ((entries.filter (fun e => keep e.1)).map Prod.snd)
  | .internal _ entries _ => collectEntries entries

def collectEntries : List (Option (MBR K) × RTreeNode K) → Except PyError (List RID)
  | [] => .ok []
  | (_, child) :: entries => do
      let box ← boxOf mbr child
      let found ← (if enter box then collect child else .ok [] : Except PyError (List RID))
      let rest ← collectEntries entries
      .ok (found ++ rest)

end

end Collect

def search (node : RTreeNode K) (point : Point K) : Except PyError (List RID) :=
  collect (fun stored => stored = point) (fun box => box.contains point) node

/-- The RIDs of the points inside a box. -/
def range (node : RTreeNode K) (box : MBR K) : Except PyError (List RID) :=
  collect (fun stored => box.contains stored) (fun child => child.intersects box) node

/-! ### Removal -/

section Remove

variable (point : Point K) (rid : Option RID)

/-- The loop of the removal over the entries of a leaf. -/
def removeEntries : Bool → List (Point K × RID) → Nat × List (Point K × RID)
  | _, [] => (0, [])
  | removedOne, (stored, storedRid) :: entries =>
      if stored = point ∧ (rid = none ∨ removedOne = false ∧ rid = some storedRid) then
        let (removed, keep) := removeEntries true entries
        (removed + 1, keep)
      else
        let (removed, keep) := removeEntries removedOne entries
        (removed, (stored, storedRid) :: keep)

mutual

/-- How many entries went, and the node without them. -/
def remove : RTreeNode K → Except PyError (Nat × RTreeNode K)
  | .leaf id entries _ => do
      let (removed, keep) := removeEntries point rid false entries
      let mbr ← computeMbr pointMbr keep
      .ok (removed, .leaf id keep mbr)
  | .internal id entries _ => do
      let (removed, keep) ← removeChildren entries
      let mbr ← computeMbr childMbr keep
      .ok (removed, .internal id keep mbr)

/-- The children without the entries; a child that has none left goes. -/
def removeChildren : List (Option (MBR K) × RTreeNode K) →
    Except PyError (Nat × List (Option (MBR K) × RTreeNode K))
  | [] => .ok (0, [])
  | (box, child) :: entries => do
      let (removed, child) ←
        (if child.mbr.any (fun mbr => mbr.contains point) then remove child
          else .ok (0, child) : Except PyError (Nat × RTreeNode K))
      let (more, keep) ← removeChildren entries
      .ok (removed + more, if child.isEmpty then keep else (box, child) :: keep)

end

end Remove

end RTreeNode

/-! ## Trees -/

/-- A tree, and the identity that the next node gets. -/
structure RTree (K : Type) where
  order : Nat
  root : Option (RTreeNode K)
  next : Nat

namespace RTree

/-- `RTree(order)`. -/
def construct (order : Nat) : Except PyError (RTree K) :=
  if order < 2 then .error (.ValueError s!"order must be >= 2, got {order}")
  else .ok ⟨order, none, 0⟩

def insert (t : RTree K) (point : Point K) (rid : RID) : Except PyError (RTree K) :=
  match t.root with
  | none => do
      let mbr ← computeMbr RTreeNode.pointMbr [(point, rid)]
      .ok { t with root := some (.leaf t.next [(point, rid)] mbr), next := t.next + 1 }
  | some root => do
      let (root, promoted, next) ← RTreeNode.insertInto t.order point rid root t.next
      match promoted with
      | none => .ok { t with root := some root, next := next }
      | some promoted => do
          let entries := [(root.mbr, root), (promoted.mbr, promoted)]
          let mbr ← computeMbr RTreeNode.childMbr entries
          .ok { t with root := some (.internal next entries mbr), next := next + 1 }

def search (t : RTree K) (point : Point K) : Except PyError (List RID) :=
  match t.root with
  | none => .ok []
  | some root => root.search point

def rangeSearch (t : RTree K) (lo hi : Point K) : Except PyError (List RID) :=
  match t.root with
  | none => .ok []
  | some root => root.range ⟨min lo.x hi.x, min lo.y hi.y, max lo.x hi.x, max lo.y hi.y⟩

def remove (t : RTree K) (point : Point K) (rid : Option RID) :
    Except PyError (Nat × RTree K) :=
  match t.root with
  | none => .ok (0, t)
  | some root => do
      let (removed, root) ← root.remove point rid
      .ok (removed, { t with root := if root.isEmpty then none else some root })

end RTree
end SoupDB
