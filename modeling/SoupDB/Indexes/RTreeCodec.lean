import SoupDB.Common.Struct
import SoupDB.Indexes.RTreeCopy

/-!
# SoupDB: the binary format of an R-tree

`encodeTree` writes the magic number, the version and the order of a tree, and then its nodes,
each followed by what is below it; `decodeTree` reads them back and computes the boxes of the
nodes again.  All fields are big-endian.  A coordinate is a field of eight bytes, which is a
parameter.

Main facts: `decode_encode_tree` and `encode_tree_returns_iff`.
-/

namespace SoupDB

open Struct List

variable {K : Type}

/-! ## Fields -/

namespace RTreeField

/-- `H`. -/
def u16 : Struct Nat := (unsigned 2).reversed

/-- `I`. -/
def u32 : Struct Nat := (unsigned 4).reversed

/-- `Q`. -/
def u64 : Struct Nat := (unsigned 8).reversed

/-- `q`. -/
def i64 : Struct Int := (signed 8 (by decide)).reversed

/-- `dd`. -/
def point (d : Struct K) : Struct (Point K) :=
  (d.pair d).record (fun p => ⟨p.1, p.2⟩) (fun point => (point.x, point.y)) (fun _ => rfl)

/-- `qq`. -/
def rid : Struct RID :=
  (i64.pair i64).record (fun p => ⟨p.1, p.2⟩) (fun rid => (rid.pageId, rid.slot)) (fun _ => rfl)

/-- `dddd`. -/
def mbr (d : Struct K) : Struct (MBR K) :=
  (d.pair (d.pair (d.pair d))).record (fun p => ⟨p.1, p.2.1, p.2.2.1, p.2.2.2⟩)
    (fun box => (box.minX, box.minY, box.maxX, box.maxY)) (fun _ => rfl)

/-- What reading a corner of a box that is `None` raises. -/
def noCorner : PyError := .AttributeError "'NoneType' object has no attribute 'min_x'"

def packBox (d : Struct K) : Option (MBR K) → Except PyError Bytes
  | some box => (mbr d).pack box
  | none => .error noCorner

/-- `data[offset]`. -/
def byteAt (data : Bytes) (offset : Nat) : Except PyError UInt8 :=
  match data[offset]? with
  | some byte => .ok byte
  | none => .error (.IndexError "index out of range")

section Fits

variable {d : Struct K}

@[simp] theorem fits_u16 {n : Nat} : u16.Fits n ↔ n < 2 ^ 16 := by
  rw [u16, fits_reversed, fits_unsigned]
  exact Iff.rfl

@[simp] theorem fits_u32 {n : Nat} : u32.Fits n ↔ n < 2 ^ 32 := by
  rw [u32, fits_reversed, fits_unsigned]
  exact Iff.rfl

@[simp] theorem fits_u64 {n : Nat} : u64.Fits n ↔ n < 2 ^ 64 := by
  rw [u64, fits_reversed, fits_unsigned]
  exact Iff.rfl

@[simp] theorem fits_i64 {z : Int} : i64.Fits z ↔ -2 ^ 63 ≤ z ∧ z < 2 ^ 63 := by
  have hhalf : ((256 ^ 8 / 2 : Nat) : Int) = 2 ^ 63 := by decide
  rw [i64, fits_reversed, fits_signed, hhalf]

@[simp] theorem fits_point {p : Point K} : (point d).Fits p ↔ p.Of d.Fits := by
  rw [point, fits_record, fits_pair, Point.Of]

@[simp] theorem fits_mbr {box : MBR K} : (mbr d).Fits box ↔ box.Of d.Fits := by
  rw [mbr, fits_record, fits_pair, fits_pair, fits_pair, MBR.Of]

theorem byte_at_append {before after : Bytes} {offset : Nat} {byte : UInt8}
    (hoffset : offset = before.length) : byteAt (before ++ byte :: after) offset = .ok byte := by
  rw [byteAt, hoffset, getElem?_append_right (le_refl _), Nat.sub_self,
    getElem?_cons_zero]

end Fits

end RTreeField

/-! ## The format -/

namespace RTreeCodec

open RTreeField RTreeNode

def MAGIC : Bytes := [82, 84]

def VERSION : UInt8 := 1

def HEADER_SIZE : Nat := 6

section Encode

variable (d : Struct K)

def encodePoints : List (Point K × RID) → Except PyError Bytes
  | [] => .ok []
  | (stored, storedRid) :: entries => do
      let first ← (point d).pack stored
      let second ← rid.pack storedRid
      let rest ← encodePoints entries
      .ok (first ++ (second ++ rest))

mutual

def encodeNode : RTreeNode K → Except PyError Bytes
  | .leaf _ entries _ => do
      let count ← u32.pack entries.length
      let body ← encodePoints d entries
      .ok (1 :: (count ++ body))
  | .internal _ entries _ => do
      let count ← u32.pack entries.length
      let body ← encodeChildren entries
      .ok (0 :: (count ++ body))

def encodeChildren : List (Option (MBR K) × RTreeNode K) → Except PyError Bytes
  | [] => .ok []
  | (childMbr, child) :: entries => do
      let first ← packBox d childMbr
      let below ← encodeNode child
      let rest ← encodeChildren entries
      .ok (first ++ (below ++ rest))

end

/-- The whole tree. -/
def encodeTree (order : Nat) (root : Option (RTreeNode K)) : Except PyError Bytes := do
  let head ← u16.pack order
  match root with
  | none => .ok (MAGIC ++ (VERSION :: (head ++ [0])))
  | some root => do
      let body ← encodeNode d root
      .ok (MAGIC ++ (VERSION :: (head ++ (1 :: body))))

end Encode

section Decode

variable [LinearOrder K] (d : Struct K) (data : Bytes)

/-- So many entries of a leaf, and the offset behind them. -/
def decodePoints : Nat → Nat → Except PyError (List (Point K × RID) × Nat)
  | 0, offset => .ok ([], offset)
  | count + 1, offset => do
      let stored ← (point d).unpackFrom offset data
      let storedRid ← rid.unpackFrom (offset + (point d).size) data
      let (entries, offset) ← decodePoints count (offset + (point d).size + rid.size)
      .ok ((stored, storedRid) :: entries, offset)

/-- So many entries of an internal node.  The reader of nodes takes an offset and the identity of
the next object. -/
def decodeChildren (decodeNode : Nat → Nat → Except PyError (RTreeNode K × Nat × Nat)) :
    Nat → Nat → Nat → Except PyError (List (Option (MBR K) × RTreeNode K) × Nat × Nat)
  | 0, offset, next => .ok ([], offset, next)
  | count + 1, offset, next => do
      let childMbr ← (mbr d).unpackFrom offset data
      let (child, offset, next) ← decodeNode (offset + (mbr d).size) next
      let (entries, offset, next) ← decodeChildren decodeNode count offset next
      .ok ((some childMbr, child) :: entries, offset, next)

/-- A node and all below it.  Every node takes bytes, so their number is enough fuel. -/
def decodeNode : Nat → Nat → Nat → Except PyError (RTreeNode K × Nat × Nat)
  | 0, _, _ => .error .NonTermination
  | fuel + 1, offset, next => do
      let isLeaf ← byteAt data offset
      let count ← u32.unpackFrom (offset + 1) data
      if isLeaf = 1 then do
        let (entries, offset) ← decodePoints d data count (offset + 5)
        let mbr ← computeMbr pointMbr entries
        .ok (.leaf next entries mbr, offset, next + 1)
      else do
        let (entries, offset, next) ←
          decodeChildren d data (decodeNode fuel) count (offset + 5) next
        let mbr ← computeMbr childMbr entries
        .ok (.internal next entries mbr, offset, next + 1)

/-- The order and the root, whose objects are numbered from zero, and the next number. -/
def decodeTree : Except PyError (Nat × Option (RTreeNode K) × Nat) :=
  if data.length < HEADER_SIZE ∨ data.take 2 ≠ MAGIC then
    .error (.ValueError "invalid R-Tree file")
  else do
    let version ← byteAt data 2
    if version ≠ VERSION then
      .error (.ValueError s!"unsupported R-Tree version {version}")
    else do
      let order ← u16.unpackFrom 3 data
      let hasRoot ← byteAt data 5
      if hasRoot = 0 then .ok (order, none, 0)
      else do
        let (root, _, next) ← decodeNode d data data.length 6 0
        .ok (order, some root, next)

end Decode

/-! ## What can be encoded -/

section Fits

variable {d : Struct K} {entries : List (Point K × RID)}

theorem encode_points_returns_iff (hpoints : ∀ e ∈ entries, e.1.Of d.Fits) :
    (∃ bytes, encodePoints d entries = .ok bytes) ↔ ∀ e ∈ entries, rid.Fits e.2 := by
  induction entries with
  | nil => exact iff_of_true ⟨[], rfl⟩ (fun e he => absurd he not_mem_nil)
  | cons e entries ih =>
      obtain ⟨hpoint, hrest⟩ := forall_mem_cons.mp hpoints
      obtain ⟨first, hfirst⟩ := fits_point.mpr hpoint
      rw [forall_mem_cons, ← ih hrest]
      constructor
      · rintro ⟨bytes, h⟩
        obtain ⟨_, -, h⟩ := bind_eq_ok.mp h
        obtain ⟨second, hsecond, h⟩ := bind_eq_ok.mp h
        obtain ⟨rest, hrest, -⟩ := bind_eq_ok.mp h
        exact ⟨⟨second, hsecond⟩, ⟨rest, hrest⟩⟩
      · rintro ⟨⟨second, hsecond⟩, ⟨rest, hrest⟩⟩
        exact ⟨_, bind_eq_ok.mpr ⟨first, hfirst, bind_eq_ok.mpr ⟨second, hsecond,
          bind_eq_ok.mpr ⟨rest, hrest, rfl⟩⟩⟩⟩

variable [LinearOrder K]

theorem encode_node_returns_iff {maxEntries depth : Nat} {node : RTreeNode K}
    (h : Valid maxEntries depth node) (hmax : maxEntries < 2 ^ 32)
    (hdrawn : Drawn d.Fits node) :
    (∃ bytes, encodeNode d node = .ok bytes) ↔ ∀ e ∈ node.contents, rid.Fits e.2 := by
  induction h with
  | @leaf id entries box _ hfits _ =>
      obtain ⟨count, hcount⟩ := fits_u32.mpr (lt_of_le_of_lt hfits hmax)
      rw [contents_leaf, ← encode_points_returns_iff (drawn_leaf.mp hdrawn), encodeNode, hcount,
        ok_bind]
      exact exists_bind_ok
  | @internal depth id entries box _ hfits _ _ ih =>
      obtain ⟨count, hcount⟩ := fits_u32.mpr (lt_of_le_of_lt hfits hmax)
      have hbody : (∃ body, encodeChildren d entries = .ok body) ↔
          ∀ e ∈ contentsOf entries, rid.Fits e.2 := by
        have hentries := drawn_internal.mp hdrawn
        clear * - ih hentries
        induction entries with
        | nil =>
            exact iff_of_true ⟨[], by rw [encodeChildren]⟩ (fun e he => absurd he not_mem_nil)
        | cons e entries ih' =>
            obtain ⟨⟨⟨box, hbox, hof⟩, hdrawn⟩, hrest⟩ := forall_mem_cons.mp hentries
            obtain ⟨first, hfirst⟩ := fits_mbr.mpr hof
            have hpack : packBox d e.1 = .ok first := by
              rw [hbox]
              exact hfirst
            have hiff : (∃ body, encodeChildren d entries = .ok body) ↔
                ∀ e ∈ contentsOf entries, rid.Fits e.2 :=
              ih' (fun e he => ih e (mem_cons_of_mem _ he)) hrest
            rw [contents_of_cons, forall_mem_append, ← ih e mem_cons_self hdrawn, ← hiff]
            constructor
            · rintro ⟨bytes, h⟩
              rw [encodeChildren] at h
              obtain ⟨_, -, h⟩ := bind_eq_ok.mp h
              obtain ⟨below, hbelow, h⟩ := bind_eq_ok.mp h
              obtain ⟨rest, hrest, -⟩ := bind_eq_ok.mp h
              exact ⟨⟨below, hbelow⟩, ⟨rest, hrest⟩⟩
            · rintro ⟨⟨below, hbelow⟩, ⟨rest, hrest⟩⟩
              rw [encodeChildren]
              exact ⟨_, bind_eq_ok.mpr ⟨first, hpack, bind_eq_ok.mpr ⟨below, hbelow,
                bind_eq_ok.mpr ⟨rest, hrest, rfl⟩⟩⟩⟩
      rw [contents_internal, ← hbody, encodeNode, hcount, ok_bind]
      exact exists_bind_ok

end Fits

/-! ## Reading back what was written -/

section Roundtrip

variable {d : Struct K} {data before after bytes : Bytes} {offset : Nat}

def BytesAt (data : Bytes) (offset : Nat) (bytes : Bytes) : Prop :=
  ∃ before after, data = before ++ (bytes ++ after) ∧ offset = before.length

theorem BytesAt.left {bytes' : Bytes} (h : BytesAt data offset (bytes ++ bytes')) :
    BytesAt data offset bytes := by
  obtain ⟨before, after, rfl, rfl⟩ := h
  exact ⟨before, bytes' ++ after, by rw [append_assoc], rfl⟩

theorem BytesAt.right {bytes' : Bytes} (h : BytesAt data offset (bytes ++ bytes')) :
    BytesAt data (offset + bytes.length) bytes' := by
  obtain ⟨before, after, rfl, rfl⟩ := h
  exact ⟨before ++ bytes, after, by simp only [append_assoc], by rw [length_append]⟩

theorem BytesAt.unpack {α : Type} {S : Struct α} {a : α} (h : BytesAt data offset bytes)
    (hpack : S.pack a = .ok bytes) : S.unpackFrom offset data = .ok a := by
  obtain ⟨before, after, rfl, hoffset⟩ := h
  exact unpack_from_append hoffset hpack

theorem BytesAt.byte {byte : UInt8} (h : BytesAt data offset (byte :: bytes)) :
    byteAt data offset = .ok byte := by
  obtain ⟨before, after, rfl, hoffset⟩ := h
  exact byte_at_append hoffset

theorem decode_points_encode {entries : List (Point K × RID)}
    (h : encodePoints d entries = .ok bytes) (hstands : BytesAt data offset bytes) :
    decodePoints d data entries.length offset = .ok (entries, offset + bytes.length) := by
  induction entries generalizing bytes offset with
  | nil =>
      cases h
      rfl
  | cons e entries ih =>
      rw [encodePoints] at h
      obtain ⟨first, hfirst, h⟩ := bind_eq_ok.mp h
      obtain ⟨second, hsecond, h⟩ := bind_eq_ok.mp h
      obtain ⟨rest, hrest, h⟩ := bind_eq_ok.mp h
      cases h
      have hsize := (packed _ hfirst).2.1
      have hsize' := (packed _ hsecond).2.1
      have hlater := hstands.right
      rw [hsize] at hlater
      have hlast := hlater.right
      rw [hsize'] at hlast
      rw [length_cons, decodePoints, hstands.left.unpack hfirst, ok_bind,
        hlater.left.unpack hsecond, ok_bind, ih hrest hlast, ok_bind]
      simp only [length_append, hsize, hsize', Nat.add_assoc]

variable [LinearOrder K]

variable {maxEntries : Nat}

theorem depth_lt_length {depth : Nat} {node : RTreeNode K} (h : Valid maxEntries depth node)
    (hencode : encodeNode d node = .ok bytes) :
    depth < bytes.length := by
  induction h generalizing bytes with
  | leaf _ _ _ =>
      rw [encodeNode] at hencode
      obtain ⟨count, -, hencode⟩ := bind_eq_ok.mp hencode
      obtain ⟨body, -, hencode⟩ := bind_eq_ok.mp hencode
      cases hencode
      rw [length_cons]
      omega
  | @internal depth id entries box hne _ _ _ ih =>
      rw [encodeNode] at hencode
      obtain ⟨count, -, hencode⟩ := bind_eq_ok.mp hencode
      obtain ⟨body, hbody, hencode⟩ := bind_eq_ok.mp hencode
      cases hencode
      cases entries with
      | nil => exact absurd rfl hne
      | cons e entries =>
          rw [encodeChildren] at hbody
          obtain ⟨first, -, hbody⟩ := bind_eq_ok.mp hbody
          obtain ⟨below, hbelow, hbody⟩ := bind_eq_ok.mp hbody
          obtain ⟨rest, -, hbody⟩ := bind_eq_ok.mp hbody
          cases hbody
          have hlt := ih e mem_cons_self hbelow
          simp only [length_cons, length_append]
          omega

theorem decode_children_encode {read : Nat → Nat → Except PyError (RTreeNode K × Nat × Nat)}
    {entries : List (Option (MBR K) × RTreeNode K)}
    (hread : ∀ e ∈ entries, ∀ {bytes : Bytes} {offset : Nat}, encodeNode d e.2 = .ok bytes →
      BytesAt data offset bytes → ∀ next, ∃ node' next',
        read offset next = .ok (node', offset + bytes.length, next') ∧
          Copied e.2 next node' next')
    (h : encodeChildren d entries = .ok bytes) (hstands : BytesAt data offset bytes) (next : Nat) :
    ∃ entries' next', decodeChildren d data read entries.length offset next =
        .ok (entries', offset + bytes.length, next') ∧ CopiedAll entries next entries' next' := by
  induction entries generalizing bytes offset next with
  | nil =>
      rw [encodeChildren] at h
      cases h
      exact ⟨[], next, rfl, .nil⟩
  | cons e entries ih =>
      rw [encodeChildren] at h
      obtain ⟨first, hfirst, h⟩ := bind_eq_ok.mp h
      obtain ⟨below, hbelow, h⟩ := bind_eq_ok.mp h
      obtain ⟨rest, hrest, h⟩ := bind_eq_ok.mp h
      cases h
      obtain ⟨inner, child⟩ := e
      obtain ⟨box, rfl, hpack⟩ : ∃ box, inner = some box ∧ (mbr d).pack box = .ok first := by
        cases inner with
        | none => cases hfirst
        | some box => exact ⟨box, rfl, hfirst⟩
      have hsize := (packed _ hpack).2.1
      have hlater := hstands.right
      rw [hsize] at hlater
      obtain ⟨node', next₁, hnode, hcopied⟩ :=
        hread (some box, child) mem_cons_self hbelow hlater.left next
      obtain ⟨entries', next', hentries, hall⟩ :=
        ih (fun e he => hread e (mem_cons_of_mem _ he)) hrest hlater.right next₁
      refine ⟨(some box, node') :: entries', next', ?_, .cons hcopied hall⟩
      rw [length_cons, decodeChildren, hstands.left.unpack hpack, ok_bind, hnode, ok_bind]
      dsimp only
      rw [hentries, ok_bind]
      simp only [length_append, hsize, Nat.add_assoc]

/-- A node that was written is read as a copy. -/
theorem decode_node_encode {depth : Nat} {node : RTreeNode K} (h : Valid maxEntries depth node)
    (hencode : encodeNode d node = .ok bytes) (hstands : BytesAt data offset bytes) {fuel : Nat}
    (hfuel : depth < fuel) (next : Nat) :
    ∃ node' next', decodeNode d data fuel offset next =
        .ok (node', offset + bytes.length, next') ∧ Copied node next node' next' := by
  induction h generalizing bytes offset fuel next with
  | @leaf id entries box hne hfits hbounds =>
      obtain ⟨fuel, rfl⟩ := Nat.exists_eq_add_of_lt hfuel
      rw [encodeNode] at hencode
      obtain ⟨count, hcount, hencode⟩ := bind_eq_ok.mp hencode
      obtain ⟨body, hbody, hencode⟩ := bind_eq_ok.mp hencode
      cases hencode
      have hsize : count.length = 4 := (packed _ hcount).2.1
      have hlater : BytesAt data (offset + 1) (count ++ body) :=
        @BytesAt.right data [1] offset (count ++ body) hstands
      have hlast := hlater.right
      rw [hsize] at hlast
      refine ⟨_, _, ?_, .leaf⟩
      rw [decodeNode, hstands.byte, ok_bind, hlater.left.unpack hcount, ok_bind, if_pos rfl,
        decode_points_encode hbody hlast, ok_bind]
      dsimp only
      rw [(Valid.leaf hne hfits hbounds : Valid maxEntries 0 (.leaf id entries _)).compute_leaf,
        ok_bind, length_cons, length_append, hsize]
      congr 3
      omega
  | @internal depth id entries box hne hfits hbounds hchildren ih =>
      obtain ⟨fuel, rfl⟩ := Nat.exists_eq_succ_of_ne_zero (Nat.ne_zero_of_lt hfuel)
      rw [encodeNode] at hencode
      obtain ⟨count, hcount, hencode⟩ := bind_eq_ok.mp hencode
      obtain ⟨body, hbody, hencode⟩ := bind_eq_ok.mp hencode
      cases hencode
      have hsize : count.length = 4 := (packed _ hcount).2.1
      have hlater : BytesAt data (offset + 1) (count ++ body) :=
        @BytesAt.right data [0] offset (count ++ body) hstands
      have hlast := hlater.right
      rw [hsize] at hlast
      have hread : ∀ e ∈ entries, ∀ {bytes : Bytes} {offset : Nat},
          encodeNode d e.2 = .ok bytes → BytesAt data offset bytes → ∀ next, ∃ node' next',
            decodeNode d data fuel offset next = .ok (node', offset + bytes.length, next') ∧
              Copied e.2 next node' next' :=
        fun e he _ _ hbelow hat next => ih e he hbelow hat (by omega) next
      obtain ⟨entries', next', hentries, hall⟩ := decode_children_encode hread hbody hlast next
      have hbox : computeMbr childMbr entries' = .ok (some box) := by
        rw [← compute_mbr_congr (map_child_mbr_of_eq hall.same)]
        exact (Valid.internal hne hfits hbounds hchildren :
          Valid maxEntries (depth + 1) (.internal id entries _)).compute_internal
      refine ⟨_, _, ?_, .internal hall⟩
      rw [decodeNode, hstands.byte, ok_bind, hlater.left.unpack hcount, ok_bind,
        if_neg (by decide), hentries, ok_bind]
      dsimp only
      rw [hbox, ok_bind, length_cons, length_append, hsize]
      congr 3
      omega

/-- The tree is read with the same order and an equal root. -/
def SameRoot : Option (RTreeNode K) → Option (RTreeNode K) → Prop
  | none, none => True
  | some root, some root' => eq root root' = true
  | _, _ => False

theorem decode_encode_tree {order : Nat} {root : Option (RTreeNode K)}
    (hvalid : ∀ node ∈ root, ∃ depth, Valid maxEntries depth node)
    (h : encodeTree d order root = .ok bytes) :
    ∃ root' next, decodeTree d bytes = .ok (order, root', next) ∧ SameRoot root root' := by
  rw [encodeTree] at h
  obtain ⟨head, hhead, h⟩ := bind_eq_ok.mp h
  have hsize : head.length = 2 := (packed _ hhead).2.1
  have hread : ∀ flag rest, bytes = MAGIC ++ (VERSION :: (head ++ flag :: rest)) →
      ¬ (bytes.length < HEADER_SIZE ∨ bytes.take 2 ≠ MAGIC) ∧ byteAt bytes 2 = .ok VERSION ∧
        u16.unpackFrom 3 bytes = .ok order ∧ byteAt bytes 5 = .ok flag := by
    rintro flag rest rfl
    refine ⟨?_, byte_at_append rfl, ?_, ?_⟩
    · have hlength : (MAGIC ++ (VERSION :: (head ++ flag :: rest))).length = 6 + rest.length := by
        simp only [MAGIC, length_append, length_cons, length_nil, hsize]
        omega
      rintro (hshort | hmagic)
      · rw [hlength, HEADER_SIZE] at hshort
        omega
      · exact hmagic rfl
    · exact BytesAt.unpack ⟨MAGIC ++ [VERSION], flag :: rest, by simp, rfl⟩ hhead
    · have hfive : BytesAt (MAGIC ++ (VERSION :: (head ++ flag :: rest))) 5 (flag :: rest) :=
        ⟨MAGIC ++ (VERSION :: head), [], by simp, by simp [MAGIC, hsize]⟩
      exact hfive.byte
  cases root with
  | none =>
      cases h
      obtain ⟨hheader, hversion, horder, hflag⟩ := hread 0 [] rfl
      refine ⟨none, 0, ?_, trivial⟩
      rw [decodeTree, if_neg hheader, hversion, ok_bind, if_neg (by simp), horder, ok_bind, hflag,
        ok_bind, if_pos rfl]
  | some root =>
      obtain ⟨body, hbody, h⟩ := bind_eq_ok.mp h
      cases h
      obtain ⟨depth, hroot⟩ := hvalid root rfl
      obtain ⟨hheader, hversion, horder, hflag⟩ := hread 1 body rfl
      have hlong := depth_lt_length hroot hbody
      have hstands : BytesAt (MAGIC ++ (VERSION :: (head ++ 1 :: body))) 6 body :=
        ⟨MAGIC ++ (VERSION :: (head ++ [1])), [], by simp, by simp [MAGIC, hsize]⟩
      have hfuel : depth < (MAGIC ++ (VERSION :: (head ++ 1 :: body))).length := by
        simp only [length_append, length_cons]
        omega
      obtain ⟨root', next, hnode, hcopied⟩ := decode_node_encode hroot hbody hstands hfuel 0
      refine ⟨some root', next, ?_, hcopied.same⟩
      rw [decodeTree, if_neg hheader, hversion, ok_bind, if_neg (by simp), horder, ok_bind, hflag,
        ok_bind, if_neg (by decide), hnode, ok_bind]

end Roundtrip

end RTreeCodec
end SoupDB
