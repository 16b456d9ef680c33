import SoupDB.Indexes.RTreeCodec

/-!
# SoupDB: one R-tree node in one page

`encodePage` lays a node out as a header, its entries one after the other, and zeros up to the
size of a page; an internal node names the pages of its children.  `decodePage` checks the
header before it reads the entries.

Main facts: `decode_encode_page` and `encode_page_returns`.
-/

namespace SoupDB

open Struct

variable {K : Type}

/-- A node as it stands in a page: an internal one has the pages of its children. -/
inductive DecodedRTreePage (K : Type)
  | leaf (maxEntries : Nat) (entries : List (Point K × RID))
  | internal (maxEntries : Nat) (entries : List (Option (MBR K) × Int))

namespace DecodedRTreePage

def maxEntries : DecodedRTreePage K → Nat
  | .leaf maxEntries _ => maxEntries
  | .internal maxEntries _ => maxEntries

def count : DecodedRTreePage K → Nat
  | .leaf _ entries => entries.length
  | .internal _ entries => entries.length

end DecodedRTreePage

namespace RTreePage

open RTreeField RTreeCodec

def MAGIC : Bytes := [82, 78]

def VERSION : Nat := 1

def NODE_TYPE_INTERNAL : Nat := 0

def NODE_TYPE_LEAF : Nat := 1

/-- Magic number, version, node type, entry count, `maxEntries`, and a reserved field. -/
def HEADER : Struct (Bytes × Nat × Nat × Nat × Nat × Nat) :=
  (raw 2).pair ((unsigned 1).pair ((unsigned 1).pair
    (u16.pair (u16.pair u64))))

def LEAF_ENTRY (d : Struct K) : Struct (Point K × RID) := (point d).pair rid

def INTERNAL_ENTRY (d : Struct K) : Struct (MBR K × Int) := (mbr d).pair i64

def HEADER_SIZE : Nat := 16

def LEAF_ENTRY_SIZE : Nat := 32

def INTERNAL_ENTRY_SIZE : Nat := 40

/-- A node with fewer entries cannot be split. -/
def MIN_MAX_ENTRIES : Nat := 2

def leafCapacity (pageSize : Nat) : Nat := (pageSize - HEADER_SIZE) / LEAF_ENTRY_SIZE

def internalCapacity (pageSize : Nat) : Nat := (pageSize - HEADER_SIZE) / INTERNAL_ENTRY_SIZE

def checkPageSize (pageSize : Nat) : Except PyError Unit :=
  if internalCapacity pageSize < MIN_MAX_ENTRIES then
    .error (.ValueError s!"page_size {pageSize} cannot hold an R-Tree node")
  else .ok ()

/-- All nodes share one order, so the smaller capacity bounds it. -/
def checkCounts (pageSize count maxEntries : Nat) : Except PyError Unit :=
  let capacity := min (leafCapacity pageSize) (internalCapacity pageSize)
  if ¬ (MIN_MAX_ENTRIES ≤ maxEntries ∧ maxEntries ≤ capacity) then
    .error (.ValueError
      s!"max_entries {maxEntries} out of range [{MIN_MAX_ENTRIES}, {capacity}]")
  else if maxEntries < count then
    .error (.ValueError s!"entry count {count} exceeds max_entries {maxEntries}")
  else .ok ()

def checkChildPageId (childPageId : Int) : Except PyError Unit :=
  if childPageId < 0 then
    .error (.ValueError s!"child_page_id must be non-negative, got {childPageId}")
  else .ok ()

/-! ## Entries one after the other -/

section Entries

variable {E : Type}

def packEntries (pack : E → Except PyError Bytes) : List E → Except PyError Bytes
  | [] => .ok []
  | entry :: entries => do
      let first ← pack entry
      let rest ← packEntries pack entries
      .ok (first ++ rest)

/-- Read so many entries of a size from an offset on. -/
def unpackEntries (unpack : Nat → Except PyError E) (size : Nat) :
    Nat → Nat → Except PyError (List E)
  | 0, _ => .ok []
  | count + 1, offset => do
      let entry ← unpack offset
      let entries ← unpackEntries unpack size count (offset + size)
      .ok (entry :: entries)

variable {pack : E → Except PyError Bytes} {unpack : Nat → Except PyError E} {size : Nat}
  {entries : List E} {data bytes : Bytes} {offset : Nat}

theorem length_pack_entries (hsize : ∀ e bytes, pack e = .ok bytes → bytes.length = size)
    (h : packEntries pack entries = .ok bytes) : bytes.length = entries.length * size := by
  induction entries generalizing bytes with
  | nil =>
      cases h
      rw [List.length_nil, List.length_nil, Nat.zero_mul]
  | cons e entries ih =>
      obtain ⟨first, hfirst, h⟩ := bind_eq_ok.mp h
      obtain ⟨rest, hrest, h⟩ := bind_eq_ok.mp h
      cases h
      rw [List.length_append, hsize e first hfirst, ih hrest, List.length_cons, Nat.succ_mul,
        Nat.add_comm]

theorem pack_entries_returns (h : ∀ e ∈ entries, ∃ bytes, pack e = .ok bytes) :
    ∃ bytes, packEntries pack entries = .ok bytes := by
  induction entries with
  | nil => exact ⟨[], rfl⟩
  | cons e entries ih =>
      obtain ⟨⟨first, hfirst⟩, hrest⟩ := List.forall_mem_cons.mp h
      obtain ⟨rest, hrest⟩ := ih hrest
      exact ⟨_, bind_eq_ok.mpr ⟨first, hfirst, bind_eq_ok.mpr ⟨rest, hrest, rfl⟩⟩⟩

theorem unpack_pack_entries (hsize : ∀ e bytes, pack e = .ok bytes → bytes.length = size)
    (hunpack : ∀ {e bytes offset}, pack e = .ok bytes → BytesAt data offset bytes →
      unpack offset = .ok e)
    (h : packEntries pack entries = .ok bytes) (hstands : BytesAt data offset bytes) :
    unpackEntries unpack size entries.length offset = .ok entries := by
  induction entries generalizing bytes offset with
  | nil => rfl
  | cons e entries ih =>
      obtain ⟨first, hfirst, h⟩ := bind_eq_ok.mp h
      obtain ⟨rest, hrest, h⟩ := bind_eq_ok.mp h
      cases h
      have hlater := hstands.right
      rw [hsize e first hfirst] at hlater
      rw [List.length_cons, unpackEntries, hunpack hfirst hstands.left, ok_bind, ih hrest hlater,
        ok_bind]

end Entries

/-! ## Pages -/

section Page

variable (d : Struct K)

def packInternalEntry (entry : Option (MBR K) × Int) : Except PyError Bytes := do
  checkChildPageId entry.2
  match entry.1 with
  | some box => (INTERNAL_ENTRY d).pack (box, entry.2)
  | none => .error noCorner

def unpackInternalEntry (data : Bytes) (offset : Nat) :
    Except PyError (Option (MBR K) × Int) := do
  let (box, childPageId) ← (INTERNAL_ENTRY d).unpackFrom offset data
  checkChildPageId childPageId
  .ok (some box, childPageId)

def encodeEntries : DecodedRTreePage K → Nat × Except PyError Bytes
  | .leaf _ entries => (NODE_TYPE_LEAF, packEntries (LEAF_ENTRY d).pack entries)
  | .internal _ entries => (NODE_TYPE_INTERNAL, packEntries (packInternalEntry d) entries)

def encodePage (pageSize : Nat) (page : DecodedRTreePage K) : Except PyError Bytes := do
  checkPageSize pageSize
  checkCounts pageSize page.count page.maxEntries
  let header ← HEADER.pack
    (MAGIC, VERSION, (encodeEntries d page).1, page.count, page.maxEntries, 0)
  let body ← (encodeEntries d page).2
  .ok (header ++ (body ++ List.replicate (pageSize - (header.length + body.length)) 0))

def decodePage (data : Bytes) (pageSize : Nat) : Except PyError (DecodedRTreePage K) := do
  checkPageSize pageSize
  if data.length ≠ pageSize then
    .error (.ValueError
      s!"invalid page size: expected {pageSize} bytes, got {data.length}")
  else do
    let (magic, version, nodeType, count, maxEntries, reserved) ← HEADER.unpackFrom 0 data
    if magic ≠ MAGIC then
      .error (.ValueError s!"invalid R-Tree page magic {repr magic}")
    else if version ≠ VERSION then
      .error (.ValueError s!"unsupported R-Tree page version {version}")
    else if nodeType ≠ NODE_TYPE_INTERNAL ∧ nodeType ≠ NODE_TYPE_LEAF then
      .error (.ValueError s!"invalid R-Tree node type {nodeType}")
    else if reserved ≠ 0 then
      .error (.ValueError "reserved header field must be zero")
    else do
      checkCounts pageSize count maxEntries
      if nodeType = NODE_TYPE_LEAF then do
        let entries ← unpackEntries (fun offset => (LEAF_ENTRY d).unpackFrom offset data)
          LEAF_ENTRY_SIZE count HEADER_SIZE
        .ok (.leaf maxEntries entries)
      else do
        let entries ← unpackEntries (unpackInternalEntry d data) INTERNAL_ENTRY_SIZE count
          HEADER_SIZE
        .ok (.internal maxEntries entries)

end Page

/-! ## What is encoded is decoded -/

section Roundtrip

variable {d : Struct K} {pageSize : Nat} {page : DecodedRTreePage K} {bytes : Bytes}

theorem size_leaf_entry (hd : d.size = 8) : (LEAF_ENTRY d).size = LEAF_ENTRY_SIZE := by
  have hsize : (LEAF_ENTRY d).size = d.size + d.size + (8 + 8) := rfl
  rw [hsize, hd]
  rfl

theorem size_internal_entry (hd : d.size = 8) :
    (INTERNAL_ENTRY d).size = INTERNAL_ENTRY_SIZE := by
  have hsize : (INTERNAL_ENTRY d).size = d.size + (d.size + (d.size + d.size)) + 8 := rfl
  rw [hsize, hd]
  rfl

theorem check_page_size_ok (h : checkPageSize pageSize = .ok ()) :
    2 ≤ internalCapacity pageSize := by
  unfold checkPageSize at h
  split at h
  · cases h
  · next hle => exact Nat.le_of_not_lt hle

theorem check_counts_eq_ok {count maxEntries : Nat} :
    checkCounts pageSize count maxEntries = .ok () ↔ 2 ≤ maxEntries ∧
      maxEntries ≤ min (leafCapacity pageSize) (internalCapacity pageSize) ∧
      count ≤ maxEntries := by
  rw [checkCounts]
  split
  · next h =>
      refine iff_of_false (fun h' => nomatch h') fun h' => h ⟨h'.1, h'.2.1⟩
  · next h =>
      have h := not_not.mp h
      split
      · next hlt => exact iff_of_false (fun h' => nomatch h') fun h' => absurd h'.2.2 (by omega)
      · next hle => exact iff_of_true rfl ⟨h.1, h.2, Nat.le_of_not_lt hle⟩

theorem check_child_page_id_eq_ok {childPageId : Int} :
    checkChildPageId childPageId = .ok () ↔ 0 ≤ childPageId := by
  rw [checkChildPageId]
  split
  · next h => exact iff_of_false (fun h' => nomatch h') (by omega)
  · next h => exact iff_of_true rfl (by omega)

theorem pack_internal_entry_eq_ok {entry : Option (MBR K) × Int} :
    packInternalEntry d entry = .ok bytes ↔ 0 ≤ entry.2 ∧ ∃ box, entry.1 = some box ∧
      (INTERNAL_ENTRY d).pack (box, entry.2) = .ok bytes := by
  rw [packInternalEntry]
  constructor
  · intro h
    obtain ⟨_, hcheck, h⟩ := bind_eq_ok.mp h
    obtain ⟨box, childPageId⟩ := entry
    cases box with
    | none => cases h
    | some box => exact ⟨check_child_page_id_eq_ok.mp hcheck, box, rfl, h⟩
  · rintro ⟨hchild, box, hbox, hpack⟩
    rw [check_child_page_id_eq_ok.mpr hchild, ok_bind, hbox]
    exact hpack

theorem length_leaf_entry (hd : d.size = 8) (e : Point K × RID) (bytes : Bytes)
    (h : (LEAF_ENTRY d).pack e = .ok bytes) : bytes.length = LEAF_ENTRY_SIZE := by
  rw [((LEAF_ENTRY d).packed h).2.1, size_leaf_entry hd]

theorem length_internal_entry (hd : d.size = 8) (e : Option (MBR K) × Int) (bytes : Bytes)
    (h : packInternalEntry d e = .ok bytes) : bytes.length = INTERNAL_ENTRY_SIZE := by
  obtain ⟨-, box, -, hpack⟩ := pack_internal_entry_eq_ok.mp h
  rw [((INTERNAL_ENTRY d).packed hpack).2.1, size_internal_entry hd]

theorem length_encode_entries (hd : d.size = 8) (hsize : 2 ≤ internalCapacity pageSize)
    (hcount : page.count ≤ min (leafCapacity pageSize) (internalCapacity pageSize))
    (h : (encodeEntries d page).2 = .ok bytes) : HEADER_SIZE + bytes.length ≤ pageSize := by
  obtain ⟨hleaf, hinternal⟩ := le_min_iff.mp hcount
  have hleaf := (Nat.le_div_iff_mul_le (by decide)).mp hleaf
  have hinternal := (Nat.le_div_iff_mul_le (by decide)).mp hinternal
  have hsize := (Nat.le_div_iff_mul_le (by decide)).mp hsize
  rw [INTERNAL_ENTRY_SIZE] at hsize
  cases page with
  | leaf maxEntries entries =>
      have hlength := length_pack_entries (length_leaf_entry hd) h
      rw [DecodedRTreePage.count] at hleaf
      omega
  | internal maxEntries entries =>
      have hlength := length_pack_entries (length_internal_entry hd) h
      rw [DecodedRTreePage.count] at hinternal
      omega

theorem decode_encode_page (hd : d.size = 8) (h : encodePage d pageSize page = .ok bytes) :
    bytes.length = pageSize ∧ decodePage d bytes pageSize = .ok page := by
  rw [encodePage] at h
  obtain ⟨_, hpageSize, h⟩ := bind_eq_ok.mp h
  obtain ⟨_, hcounts, h⟩ := bind_eq_ok.mp h
  obtain ⟨header, hheader, h⟩ := bind_eq_ok.mp h
  obtain ⟨body, hbody, h⟩ := bind_eq_ok.mp h
  cases h
  have hsize : header.length = HEADER_SIZE := (packed _ hheader).2.1
  obtain ⟨-, hmax, hcount⟩ := check_counts_eq_ok.mp hcounts
  have hroom := length_encode_entries hd (check_page_size_ok hpageSize) (hcount.trans hmax) hbody
  have hlength : (header ++ (body ++ List.replicate (pageSize - (header.length + body.length))
      (0 : UInt8))).length = pageSize := by
    rw [List.length_append, List.length_append, List.length_replicate, hsize]
    omega
  refine ⟨hlength, ?_⟩
  generalize List.replicate (pageSize - (header.length + body.length)) (0 : UInt8) = zeros at *
  have hstands : BytesAt (header ++ (body ++ zeros)) 0 (header ++ (body ++ zeros)) :=
    ⟨[], [], by rw [List.append_nil, List.nil_append], rfl⟩
  have hentries := hstands.right.left
  rw [Nat.zero_add, hsize] at hentries
  rw [decodePage, hpageSize, ok_bind, if_neg (not_not.mpr hlength), hstands.left.unpack hheader,
    ok_bind]
  dsimp only
  rw [if_neg (not_not.mpr rfl), if_neg (not_not.mpr rfl)]
  cases page with
  | leaf maxEntries entries =>
      have hread := unpack_pack_entries (length_leaf_entry hd)
        (fun hpack hat => hat.unpack hpack) hbody hentries
      have hcounts : checkCounts pageSize entries.length maxEntries = .ok () := hcounts
      have hread : unpackEntries (fun offset => (LEAF_ENTRY d).unpackFrom offset
          (header ++ (body ++ zeros))) LEAF_ENTRY_SIZE entries.length HEADER_SIZE = .ok entries :=
        hread
      rw [encodeEntries, DecodedRTreePage.count, DecodedRTreePage.maxEntries,
        if_neg (fun h => h.2 rfl), if_neg (not_not.mpr rfl), hcounts, ok_bind, if_pos rfl, hread,
        ok_bind]
  | internal maxEntries entries =>
      have hunpack : ∀ {e : Option (MBR K) × Int} {bytes : Bytes} {offset : Nat},
          packInternalEntry d e = .ok bytes → BytesAt (header ++ (body ++ zeros)) offset bytes →
            unpackInternalEntry d (header ++ (body ++ zeros)) offset = .ok e := by
        rintro ⟨box, childPageId⟩ bytes offset hpack hat
        obtain ⟨hchild, box, rfl, hpack⟩ := pack_internal_entry_eq_ok.mp hpack
        rw [unpackInternalEntry, hat.unpack hpack, ok_bind]
        dsimp only
        rw [check_child_page_id_eq_ok.mpr hchild, ok_bind]
      have hread := unpack_pack_entries (length_internal_entry hd) hunpack hbody hentries
      have hcounts : checkCounts pageSize entries.length maxEntries = .ok () := hcounts
      rw [encodeEntries, DecodedRTreePage.count, DecodedRTreePage.maxEntries,
        if_neg (fun h => h.1 rfl), if_neg (not_not.mpr rfl), hcounts, ok_bind,
        if_neg (by exact Nat.zero_ne_one), hread, ok_bind]

/-- A node within its order is encoded when its entries fit their fields. -/
theorem encode_page_returns (hsize : 2 ≤ internalCapacity pageSize)
    (hcounts : checkCounts pageSize page.count page.maxEntries = .ok ())
    (horder : page.maxEntries < 2 ^ 16)
    (hentries : ∃ body, (encodeEntries d page).2 = .ok body) :
    ∃ bytes, encodePage d pageSize page = .ok bytes := by
  have hpageSize : checkPageSize pageSize = .ok () := if_neg (Nat.not_lt.mpr hsize)
  obtain ⟨-, -, hcount⟩ := check_counts_eq_ok.mp hcounts
  obtain ⟨header, hheader⟩ : HEADER.Fits
      (MAGIC, VERSION, (encodeEntries d page).1, page.count, page.maxEntries, 0) := by
    rw [HEADER, fits_pair, fits_pair, fits_pair, fits_pair,
      fits_pair, fits_u16, fits_u16, fits_u64, fits_raw, fits_unsigned,
      fits_unsigned]
    refine ⟨rfl, by decide, ?_, by omega, horder, by decide⟩
    cases page with
    | leaf maxEntries entries => exact (by decide : (1 : Nat) < 256 ^ 1)
    | internal maxEntries entries => exact (by decide : (0 : Nat) < 256 ^ 1)
  obtain ⟨body, hbody⟩ := hentries
  exact ⟨_, bind_eq_ok.mpr ⟨(), hpageSize, bind_eq_ok.mpr ⟨(), hcounts,
    bind_eq_ok.mpr ⟨header, hheader, bind_eq_ok.mpr ⟨body, hbody, rfl⟩⟩⟩⟩⟩

end Roundtrip

end RTreePage
end SoupDB
