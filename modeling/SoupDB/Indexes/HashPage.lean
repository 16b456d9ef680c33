import SoupDB.Common.Pack
import SoupDB.Lib.Effect
import SoupDB.Lib.Region
import Mathlib.Data.List.Flatten

/-!
# SoupDB: pages of extendible hash files

Three kinds of pages share a file: the metadata page (page 0), directory pages of bucket
page ids, and bucket pages of entries.  A bucket page is a header (local depth, number of
entries, offset of the free bytes, overflow page), the entries one after the other, and free
bytes.

`HoldsBucket page b` says that the page is the encoding of a bucket.  The operations on the
page then do to the bucket what they are there for: `HoldsBucket.iterEntries`,
`HoldsBucket.wp_add_entry`, `HoldsBucket.wp_write_entries`, `HoldsBucket.wp_remove_entries`.
-/

namespace SoupDB.HashPage

open Pack Effect

/-- `b"SHSH"`. -/
def MAGIC : Bytes := [83, 72, 83, 72]
def VERSION : Nat := 1
def META_HEADER_SIZE : Nat := 9
def BUCKET_HEADER_SIZE : Nat := 9
def ENTRY_HEADER_SIZE : Nat := 2
def RID_SIZE : Nat := 6
def PAGE_ID_SIZE : Nat := 4
/-- Page 0 is the metadata page, so it is never a bucket. -/
def NO_OVERFLOW : Int := 0

/-- An encoded key and its RID. -/
abbrev Entry : Type := Bytes × RID

/-- A program on the bytes of a page. -/
abbrev Frame (α : Type) : Type := Effect PyError Bytes α

/-- `struct.unpackFrom`: the bytes of the fields. -/
def unpackFrom (size offset : Nat) (page : Bytes) : Except PyError Bytes :=
  if offset + size ≤ page.length then .ok (slice page offset (offset + size))
  else .error (.StructError "unpack_from requires a larger buffer")

/-- `struct.packInto`: the fields are packed before the first byte is written. -/
def packInto (fields : Except PyError Bytes) (offset : Nat) (page : Bytes) :
    Except PyError Bytes := do
  let data ← fields
  if offset + data.length ≤ page.length then .ok (splice page offset data)
  else .error (.StructError "pack_into requires a larger buffer")

/-- An unsigned field given as an integer. -/
def packInt (k : Nat) (i : Int) : Except PyError Bytes :=
  if 0 ≤ i then packU k i.toNat else .error (.StructError "argument out of range")

/-! ## The metadata page -/

def packPageIds : List Int → Nat → Frame Unit
  | [], _ => pure ()
  | pageId :: pageIds, offset => do
      update (packInto (packInt PAGE_ID_SIZE pageId) offset)
      packPageIds pageIds (offset + PAGE_ID_SIZE)

def packMetadataHeader (globalDepth maxDepth count : Nat) : Except PyError Bytes := do
  let version ← packU 1 VERSION
  let globalDepth ← packU 1 globalDepth
  let maxDepth ← packU 1 maxDepth
  let count ← packU 2 count
  .ok (MAGIC ++ version ++ globalDepth ++ maxDepth ++ count)

def writeMetadata (globalDepth maxDepth : Nat) (directoryPages : List Int) : Frame Unit := do
  update (packInto (packMetadataHeader globalDepth maxDepth directoryPages.length) 0)
  packPageIds directoryPages META_HEADER_SIZE

def newMetadata (pageSize maxDepth : Nat) : Except PyError Bytes :=
  match writeMetadata 0 maxDepth [] (List.replicate pageSize 0) with
  | (.ok _, page) => .ok page
  | (.error e, _) => .error e

def readPageIds (page : Bytes) : Nat → Nat → Except PyError (List Int)
  | 0, _ => .ok []
  | count + 1, offset => do
      let pageId ← unpackFrom PAGE_ID_SIZE offset page
      let pageIds ← readPageIds page count (offset + PAGE_ID_SIZE)
      .ok ((unpackLE pageId : Int) :: pageIds)

/-- Global depth, maximal depth and directory pages.  The text of the first error leaves out
the bytes that were found. -/
def readMetadata (page : Bytes) : Except PyError (Nat × Nat × List Int) := do
  let header ← unpackFrom META_HEADER_SIZE 0 page
  if slice header 0 4 ≠ MAGIC then
    .error (.ValueError "not an extendible hash file")
  else if unpackLE (slice header 4 5) ≠ VERSION then
    .error (.ValueError
      s!"unsupported extendible hash version {unpackLE (slice header 4 5)}")
  else do
    let directoryPages ← readPageIds page (unpackLE (slice header 7 9)) META_HEADER_SIZE
    .ok (unpackLE (slice header 5 6), unpackLE (slice header 6 7), directoryPages)

/-- How many directory page ids fit in the metadata page. -/
def maxDirectoryPages (pageSize : Nat) : Int :=
  ((pageSize : Int) - META_HEADER_SIZE) / PAGE_ID_SIZE

/-! ## Directory pages -/

/-- How many slots fit in a directory page. -/
def directorySlotsPerPage (pageSize : Nat) : Nat := pageSize / PAGE_ID_SIZE

def readDirectorySlot (page : Bytes) (slot : Nat) : Except PyError Int := do
  let pageId ← unpackFrom PAGE_ID_SIZE (slot * PAGE_ID_SIZE) page
  .ok (unpackLE pageId)

def writeDirectorySlot (slot : Nat) (pageId : Int) : Frame Unit :=
  update (packInto (packInt PAGE_ID_SIZE pageId) (slot * PAGE_ID_SIZE))

/-! ## Bucket pages -/

/-- Bytes an entry takes in a bucket page. -/
def entrySize (key : Bytes) : Nat := ENTRY_HEADER_SIZE + key.length + RID_SIZE

/-- The largest encoded key that fits in an empty bucket page. -/
def maxKeySize (pageSize : Nat) : Int :=
  pageSize - BUCKET_HEADER_SIZE - ENTRY_HEADER_SIZE - RID_SIZE

def writeBucketHeader (localDepth count free_offset : Nat) (overflow : Int) (page : Bytes) :
    Except PyError Bytes :=
  let header : Except PyError Bytes := do
    let localDepth ← packU 1 localDepth
    let count ← packU 2 count
    let free_offset ← packU 2 free_offset
    let overflow ← packInt 4 overflow
    .ok (localDepth ++ count ++ free_offset ++ overflow)
  packInto header 0 page

def readBucketHeader (page : Bytes) : Except PyError (Nat × Nat × Nat × Int) := do
  let header ← unpackFrom BUCKET_HEADER_SIZE 0 page
  .ok (unpackLE (slice header 0 1), unpackLE (slice header 1 3), unpackLE (slice header 3 5),
    (unpackLE (slice header 5 9) : Int))

def newBucket (pageSize localDepth : Nat) : Except PyError Bytes :=
  writeBucketHeader localDepth 0 BUCKET_HEADER_SIZE NO_OVERFLOW (List.replicate pageSize 0)

def localDepth (page : Bytes) : Except PyError Nat := do
  let (depth, _, _, _) ← readBucketHeader page
  .ok depth

def setLocalDepth (depth : Nat) : Frame Unit := do
  let page ← get
  let (_, count, free_offset, overflow) ← lift (readBucketHeader page)
  update (writeBucketHeader depth count free_offset overflow)

def overflowPageId (page : Bytes) : Except PyError Int := do
  let (_, _, _, overflow) ← readBucketHeader page
  .ok overflow

def setOverflowPageId (pageId : Int) : Frame Unit := do
  let page ← get
  let (depth, count, free_offset, _) ← lift (readBucketHeader page)
  update (writeBucketHeader depth count free_offset pageId)

def packRid (rid : RID) : Except PyError Bytes := do
  let pageId ← packInt 4 rid.pageId
  let slot ← packInt 2 rid.slot
  .ok (pageId ++ slot)

def entriesFrom (page : Bytes) : Nat → Nat → Except PyError (List Entry)
  | 0, _ => .ok []
  | count + 1, offset => do
      let keySize ← unpackFrom ENTRY_HEADER_SIZE offset page
      let start := offset + ENTRY_HEADER_SIZE
      let stop := start + unpackLE keySize
      let rid ← unpackFrom RID_SIZE stop page
      let entries ← entriesFrom page count (stop + RID_SIZE)
      .ok ((slice page start stop,
        ⟨(unpackLE (slice rid 0 4) : Int), (unpackLE (slice rid 4 6) : Int)⟩) :: entries)

/-- The entries of the page, in the order of insertion. -/
def iterEntries (page : Bytes) : Except PyError (List Entry) := do
  let (_, count, _, _) ← readBucketHeader page
  entriesFrom page count BUCKET_HEADER_SIZE

/-- Append an entry; false when the page has no room left. -/
def addEntry (key : Bytes) (rid : RID) : Frame Bool := do
  let page ← get
  let (depth, count, free_offset, overflow) ← lift (readBucketHeader page)
  if (entrySize key : Int) > page.length - free_offset then pure false
  else do
    let start := free_offset + ENTRY_HEADER_SIZE
    let stop := start + key.length
    update (packInto (packU ENTRY_HEADER_SIZE key.length) free_offset)
    modify (fun page => splice page start key)
    update (packInto (packRid rid) stop)
    update (writeBucketHeader depth (count + 1) (stop + RID_SIZE) overflow)
    pure true

def addEntries : List Entry → Frame Unit
  | [] => pure ()
  | (key, rid) :: entries => do
      let _ ← addEntry key rid
      addEntries entries

/-- Rewrite the page with these entries, keeping depth and overflow. -/
def writeEntries (entries : List Entry) : Frame Unit := do
  let page ← get
  let (depth, _, _, overflow) ← lift (readBucketHeader page)
  update (writeBucketHeader depth 0 BUCKET_HEADER_SIZE overflow)
  addEntries entries

/-- Whether `removeEntries` drops an entry. -/
def matchesEntry (key : Bytes) (rid : Option RID) (entry : Entry) : Bool :=
  entry.1 == key && (rid.isNone || rid == some entry.2)

/-- Drop the matching entries; how many were removed. -/
def removeEntries (key : Bytes) (rid : Option RID) : Frame Nat := do
  let page ← get
  let entries ← lift (iterEntries page)
  let kept := entries.filter (fun entry => !matchesEntry key rid entry)
  let removed := entries.countP (matchesEntry key rid)
  if removed ≠ 0 then do
    writeEntries kept
    pure removed
  else pure removed

/-! ## Fields -/

/-- The error of a field that is out of range or does not fit in the page. -/
def IsStructError (e : PyError) : Prop := ∃ message, e = .StructError message

section Fields

variable {page page' data a b c : Bytes} {fields : Except PyError Bytes} {offset size k : Nat}
  {e : PyError}

theorem pack_into_eq_ok : packInto fields offset page = .ok page' ↔
    ∃ data, fields = .ok data ∧ offset + data.length ≤ page.length ∧
      page' = splice page offset data := by
  rw [packInto, bind_eq_ok]
  constructor
  · rintro ⟨data, hdata, h⟩
    split at h
    · next hle => exact ⟨data, hdata, hle, (Except.ok.inj h).symm⟩
    · cases h
  · rintro ⟨data, hdata, hle, rfl⟩
    exact ⟨data, hdata, if_pos hle⟩

/-- Packing raises because of a field or because of the page. -/
theorem pack_into_error (h : packInto fields offset page = .error e) :
    fields = .error e ∨ IsStructError e ∧ ∀ data, fields = .ok data →
      page.length < offset + data.length := by
  cases hfields : fields with
  | error e' =>
      rw [hfields] at h
      exact Or.inl h
  | ok data =>
      right
      rw [hfields, packInto, ok_bind] at h
      split at h
      · cases h
      · next hnot =>
          cases h
          refine ⟨⟨_, rfl⟩, ?_⟩
          intro data' hdata
          cases hdata
          exact not_le.mp hnot

theorem packU_error {n : Nat} (h : packU k n = .error e) : IsStructError e ∧ 256 ^ k ≤ n := by
  rw [packU] at h
  split at h
  · cases h
  · next hnot =>
      cases h
      exact ⟨⟨_, rfl⟩, not_lt.mp hnot⟩

theorem packInt_eq_ok {i : Int} : packInt k i = .ok data ↔
    0 ≤ i ∧ i < (256 ^ k : Nat) ∧ data = packLE k i.toNat := by
  rw [packInt]
  split
  · next hpos =>
      rw [packU_eq_ok]
      constructor
      · rintro ⟨hlt, hdata⟩
        exact ⟨hpos, by omega, hdata⟩
      · rintro ⟨_, hlt, hdata⟩
        exact ⟨by omega, hdata⟩
  · next hneg =>
      constructor
      · intro h
        cases h
      · rintro ⟨hpos, _⟩
        exact absurd hpos hneg

theorem packInt_error {i : Int} (h : packInt k i = .error e) :
    IsStructError e ∧ ¬ (0 ≤ i ∧ i < (256 ^ k : Nat)) := by
  rw [packInt] at h
  split at h
  · next hpos =>
      obtain ⟨herror, hge⟩ := packU_error h
      exact ⟨herror, by omega⟩
  · next hneg =>
      cases h
      exact ⟨⟨_, rfl⟩, fun h => hneg h.1⟩

theorem unpack_append (hoffset : offset = a.length) (hsize : size = b.length) :
    unpackFrom size offset (a ++ b ++ c) = .ok b := by
  have hle : offset + size ≤ (a ++ b ++ c).length := by
    rw [List.length_append, List.length_append]
    omega
  rw [unpackFrom, if_pos hle, slice_append hoffset (by rw [hsize])]

end Fields

/-! ## Headers of buckets -/

/-- The fields of a bucket header are in range. -/
structure HeaderFits (depth count free_offset : Nat) (overflow : Int) : Prop where
  depth : depth < 256
  count : count < 65536
  free_offset : free_offset < 65536
  overflow : 0 ≤ overflow ∧ overflow < 4294967296

def headerBytes (depth count free_offset : Nat) (overflow : Int) : Bytes :=
  packLE 1 depth ++ packLE 2 count ++ packLE 2 free_offset ++ packLE 4 overflow.toNat

section Headers

variable {page page' rest : Bytes} {depth count free_offset : Nat} {overflow : Int} {e : PyError}

@[simp] theorem length_headerBytes :
    (headerBytes depth count free_offset overflow).length = BUCKET_HEADER_SIZE := by
  simp [headerBytes, BUCKET_HEADER_SIZE]

theorem read_bucket_header_append (h : HeaderFits depth count free_offset overflow) :
    readBucketHeader (headerBytes depth count free_offset overflow ++ rest) =
      .ok (depth, count, free_offset, overflow) := by
  have hunpack : unpackFrom BUCKET_HEADER_SIZE 0
      (headerBytes depth count free_offset overflow ++ rest) =
        .ok (headerBytes depth count free_offset overflow) := by
    have happend := @unpack_append [] (headerBytes depth count free_offset overflow) rest 0
      BUCKET_HEADER_SIZE rfl length_headerBytes.symm
    simpa only [List.nil_append] using happend
  have hdepth : slice (headerBytes depth count free_offset overflow) 0 1 = packLE 1 depth := by
    have happend := @slice_append _ 0 1 []
      (packLE 1 depth) (packLE 2 count ++ packLE 2 free_offset ++ packLE 4 overflow.toNat) rfl
      (by simp)
    simpa only [headerBytes, List.nil_append, List.append_assoc] using happend
  have hcount : slice (headerBytes depth count free_offset overflow) 1 3 = packLE 2 count := by
    have happend := @slice_append _ 1 3 (packLE 1 depth)
      (packLE 2 count) (packLE 2 free_offset ++ packLE 4 overflow.toNat) (by simp) (by simp)
    simpa only [headerBytes, List.append_assoc] using happend
  have hfree : slice (headerBytes depth count free_offset overflow) 3 5 =
      packLE 2 free_offset := by
    have happend := @slice_append _ 3 5 (packLE 1 depth ++ packLE 2 count)
      (packLE 2 free_offset) (packLE 4 overflow.toNat) (by simp) (by simp)
    simpa only [headerBytes, List.append_assoc] using happend
  have hoverflow : slice (headerBytes depth count free_offset overflow) 5 9 =
      packLE 4 overflow.toNat := by
    have happend := @slice_append _ 5 9 (packLE 1 depth ++ packLE 2 count ++ packLE 2 free_offset)
      (packLE 4 overflow.toNat) [] (by simp) (by simp)
    simpa only [headerBytes, List.append_assoc, List.append_nil] using happend
  have hrange := h.overflow
  rw [readBucketHeader, hunpack, ok_bind, hdepth, hcount, hfree, hoverflow,
    unpackLE_packLE 1 depth h.depth, unpackLE_packLE 2 count h.count,
    unpackLE_packLE 2 free_offset h.free_offset, unpackLE_packLE 4 overflow.toNat (by omega),
    Int.toNat_of_nonneg hrange.1]

theorem write_bucket_header_eq_ok :
    writeBucketHeader depth count free_offset overflow page = .ok page' ↔
      HeaderFits depth count free_offset overflow ∧ BUCKET_HEADER_SIZE ≤ page.length ∧
        page' = headerBytes depth count free_offset overflow ++ page.drop BUCKET_HEADER_SIZE := by
  have hsplice : splice page 0 (headerBytes depth count free_offset overflow) =
      headerBytes depth count free_offset overflow ++ page.drop BUCKET_HEADER_SIZE := by
    rw [splice, List.take_zero, List.nil_append, length_headerBytes, Nat.zero_add]
  simp only [writeBucketHeader, pack_into_eq_ok, bind_eq_ok, packU_eq_ok, packInt_eq_ok,
    Except.ok.injEq]
  constructor
  · rintro ⟨_, ⟨_, ⟨hdepth, rfl⟩, _, ⟨hcount, rfl⟩, _, ⟨hfree, rfl⟩, _, ⟨hpos, hlt, rfl⟩, rfl⟩,
      hle, hpage⟩
    refine ⟨⟨hdepth, hcount, hfree, hpos, hlt⟩, ?_, hpage.trans hsplice⟩
    simpa [BUCKET_HEADER_SIZE] using hle
  · rintro ⟨⟨hdepth, hcount, hfree, hpos, hlt⟩, hle, rfl⟩
    refine ⟨_, ⟨_, ⟨hdepth, rfl⟩, _, ⟨hcount, rfl⟩, _, ⟨hfree, rfl⟩, _, ⟨hpos, hlt, rfl⟩, rfl⟩,
      ?_, hsplice.symm⟩
    simpa [BUCKET_HEADER_SIZE] using hle

theorem write_bucket_header_error
    (h : writeBucketHeader depth count free_offset overflow page = .error e) :
    IsStructError e := by
  rw [writeBucketHeader] at h
  rcases pack_into_error h with h | ⟨h, _⟩
  · cases hdepth : packU 1 depth with
    | error e' =>
        rw [hdepth] at h
        cases h
        exact (packU_error hdepth).1
    | ok _ =>
        cases hcount : packU 2 count with
        | error e' =>
            rw [hdepth, hcount] at h
            cases h
            exact (packU_error hcount).1
        | ok _ =>
            cases hfree : packU 2 free_offset with
            | error e' =>
                rw [hdepth, hcount, hfree] at h
                cases h
                exact (packU_error hfree).1
            | ok _ =>
                cases hoverflow : packInt 4 overflow with
                | error e' =>
                    rw [hdepth, hcount, hfree, hoverflow] at h
                    cases h
                    exact (packInt_error hoverflow).1
                | ok _ =>
                    rw [hdepth, hcount, hfree, hoverflow] at h
                    cases h
  · exact h

end Headers

/-! ## Buckets -/

/-- What a bucket page holds. -/
structure Bucket where
  localDepth : Nat
  overflow : Int
  entries : List Entry

/-- The fields of an entry are in range. -/
structure EntryFits (entry : Entry) : Prop where
  key : entry.1.length < 65536
  pageId : 0 ≤ entry.2.pageId ∧ entry.2.pageId < 4294967296
  slot : 0 ≤ entry.2.slot ∧ entry.2.slot < 65536

/-- The fields of a RID are in range. -/
structure RidFits (rid : RID) : Prop where
  pageId : 0 ≤ rid.pageId ∧ rid.pageId < 4294967296
  slot : 0 ≤ rid.slot ∧ rid.slot < 65536

def ridBytes (rid : RID) : Bytes := packLE 4 rid.pageId.toNat ++ packLE 2 rid.slot.toNat

def entryBytes (entry : Entry) : Bytes :=
  packLE 2 entry.1.length ++ entry.1 ++ ridBytes entry.2

def payload (entries : List Entry) : Bytes := entries.flatMap entryBytes

/-- The offset of the free bytes behind some entries. -/
def freeOffset (entries : List Entry) : Nat := BUCKET_HEADER_SIZE + (payload entries).length

/-- The page is the encoding of the bucket, and free bytes. -/
structure HoldsBucket (page : Bytes) (b : Bucket) : Prop where
  header : HeaderFits b.localDepth b.entries.length (freeOffset b.entries) b.overflow
  fits : ∀ entry ∈ b.entries, EntryFits entry
  bytes : ∃ free, page =
    headerBytes b.localDepth b.entries.length (freeOffset b.entries) b.overflow ++
      payload b.entries ++ free

section Payload

variable {entry : Entry} {entries : List Entry}

@[simp] theorem length_ridBytes (rid : RID) : (ridBytes rid).length = RID_SIZE := by
  simp [ridBytes, RID_SIZE]

theorem packRid_eq_ok {rid : RID} {data : Bytes} : packRid rid = .ok data ↔
    (0 ≤ rid.pageId ∧ rid.pageId < 4294967296) ∧ (0 ≤ rid.slot ∧ rid.slot < 65536) ∧
      data = ridBytes rid := by
  simp only [packRid, bind_eq_ok, packInt_eq_ok, Except.ok.injEq]
  constructor
  · rintro ⟨_, ⟨hpage, hpageLt, rfl⟩, _, ⟨hslot, hslotLt, rfl⟩, rfl⟩
    exact ⟨⟨hpage, hpageLt⟩, ⟨hslot, hslotLt⟩, rfl⟩
  · rintro ⟨⟨hpage, hpageLt⟩, ⟨hslot, hslotLt⟩, rfl⟩
    exact ⟨_, ⟨hpage, hpageLt, rfl⟩, _, ⟨hslot, hslotLt, rfl⟩, rfl⟩

theorem packRid_error {rid : RID} {e : PyError} (h : packRid rid = .error e) :
    IsStructError e := by
  cases hpage : packInt 4 rid.pageId with
  | error e' =>
      rw [packRid, hpage] at h
      cases h
      exact (packInt_error hpage).1
  | ok pageId =>
      cases hslot : packInt 2 rid.slot with
      | error e' =>
          rw [packRid, hpage, hslot] at h
          cases h
          exact (packInt_error hslot).1
      | ok slot =>
          rw [packRid, hpage, hslot] at h
          cases h

@[simp] theorem length_entryBytes : (entryBytes entry).length = entrySize entry.1 := by
  simp [entryBytes, entrySize, ENTRY_HEADER_SIZE, Nat.add_assoc]

@[simp] theorem payload_cons :
    payload (entry :: entries) = entryBytes entry ++ payload entries := by
  simp [payload]

variable {others : List Entry}

theorem payload_append : payload (entries ++ others) = payload entries ++ payload others := by
  simp [payload]

theorem freeOffset_append :
    freeOffset (entries ++ others) = freeOffset entries + (payload others).length := by
  rw [freeOffset, payload_append, List.length_append, freeOffset, Nat.add_assoc]

@[simp] theorem length_payload_singleton : (payload [entry]).length = entrySize entry.1 := by
  simp [payload]

theorem payload_sublist (h : entries.Sublist others) :
    (payload entries).length ≤ (payload others).length :=
  (h.flatMap entryBytes).length_le

theorem length_le_payload (entries : List Entry) : entries.length ≤ (payload entries).length := by
  induction entries with
  | nil => exact Nat.zero_le _
  | cons entry entries ih =>
      rw [payload_cons, List.length_append, length_entryBytes, List.length_cons, entrySize,
        RID_SIZE]
      omega

theorem rid_of_bytes (h : EntryFits entry) :
    (⟨(unpackLE (slice (ridBytes entry.2) 0 4) : Int),
      (unpackLE (slice (ridBytes entry.2) 4 6) : Int)⟩ : RID) = entry.2 := by
  have hpage : slice (ridBytes entry.2) 0 4 = packLE 4 entry.2.pageId.toNat := by
    have happend := @slice_append _ 0 4 [] (packLE 4 entry.2.pageId.toNat)
      (packLE 2 entry.2.slot.toNat) rfl (by simp)
    simpa only [ridBytes, List.nil_append] using happend
  have hslot : slice (ridBytes entry.2) 4 6 = packLE 2 entry.2.slot.toNat := by
    have happend := @slice_append _ 4 6 (packLE 4 entry.2.pageId.toNat)
      (packLE 2 entry.2.slot.toNat) [] (by simp) (by simp)
    simpa only [ridBytes, List.append_nil] using happend
  have hpageRange := h.pageId
  have hslotRange := h.slot
  rw [hpage, hslot, unpackLE_packLE 4 _ (by omega), unpackLE_packLE 2 _ (by omega),
    Int.toNat_of_nonneg hpageRange.1, Int.toNat_of_nonneg hslotRange.1]

theorem entriesFrom_payload : ∀ {entries : List Entry} {before after : Bytes},
    (∀ entry ∈ entries, EntryFits entry) →
      entriesFrom (before ++ payload entries ++ after) entries.length before.length =
        .ok entries := by
  intro entries
  induction entries with
  | nil =>
      intro before after _
      rfl
  | cons entry entries ih =>
      intro before after hfits
      have hentry := hfits entry (by simp)
      have hrest := @ih (before ++ entryBytes entry) after
        (fun e he => hfits e (List.mem_cons_of_mem _ he))
      have hpage : before ++ payload (entry :: entries) ++ after =
          before ++ entryBytes entry ++ payload entries ++ after := by
        rw [payload_cons, List.append_assoc before (entryBytes entry)]
      have hsize : unpackFrom ENTRY_HEADER_SIZE before.length
          (before ++ entryBytes entry ++ payload entries ++ after) =
            .ok (packLE 2 entry.1.length) := by
        have happend := @unpack_append before (packLE 2 entry.1.length)
          (entry.1 ++ ridBytes entry.2 ++ payload entries ++ after) before.length
          ENTRY_HEADER_SIZE rfl (by simp [ENTRY_HEADER_SIZE])
        simpa only [entryBytes, List.append_assoc] using happend
      have hkey : slice (before ++ entryBytes entry ++ payload entries ++ after)
          (before.length + ENTRY_HEADER_SIZE)
          (before.length + ENTRY_HEADER_SIZE + entry.1.length) = entry.1 := by
        have happend := @slice_append _ (before.length + ENTRY_HEADER_SIZE)
          (before.length + ENTRY_HEADER_SIZE + entry.1.length)
          (before ++ packLE 2 entry.1.length) entry.1
          (ridBytes entry.2 ++ payload entries ++ after) (by simp [ENTRY_HEADER_SIZE]) rfl
        simpa only [entryBytes, List.append_assoc] using happend
      have hrid : unpackFrom RID_SIZE (before.length + ENTRY_HEADER_SIZE + entry.1.length)
          (before ++ entryBytes entry ++ payload entries ++ after) = .ok (ridBytes entry.2) := by
        have happend := @unpack_append (before ++ packLE 2 entry.1.length ++ entry.1)
          (ridBytes entry.2) (payload entries ++ after)
          (before.length + ENTRY_HEADER_SIZE + entry.1.length) RID_SIZE
          (by simp [ENTRY_HEADER_SIZE, Nat.add_assoc]) (by simp)
        simpa only [entryBytes, List.append_assoc] using happend
      have hnext : before.length + ENTRY_HEADER_SIZE + entry.1.length + RID_SIZE =
          (before ++ entryBytes entry).length := by
        rw [List.length_append, length_entryBytes, entrySize]
        omega
      rw [hpage, List.length_cons, entriesFrom, hsize, ok_bind,
        unpackLE_packLE 2 entry.1.length hentry.key]
      simp only [hrid, ok_bind, hnext, hrest, hkey, rid_of_bytes hentry]

end Payload

namespace HoldsBucket

variable {page : Bytes} {b : Bucket} {key : Bytes} {rid : RID}

section

variable (h : HoldsBucket page b)
include h

theorem readHeader : readBucketHeader page =
    .ok (b.localDepth, b.entries.length, freeOffset b.entries, b.overflow) := by
  obtain ⟨free, rfl⟩ := h.bytes
  rw [List.append_assoc, read_bucket_header_append h.header]

theorem length_page : freeOffset b.entries ≤ page.length := by
  obtain ⟨free, rfl⟩ := h.bytes
  rw [List.length_append, List.length_append, length_headerBytes, freeOffset]
  omega

theorem localDepth : localDepth page = .ok b.localDepth := by
  rw [HashPage.localDepth, h.readHeader, ok_bind]

theorem overflowPageId : overflowPageId page = .ok b.overflow := by
  rw [HashPage.overflowPageId, h.readHeader, ok_bind]

theorem iterEntries : iterEntries page = .ok b.entries := by
  rw [HashPage.iterEntries, h.readHeader, ok_bind]
  obtain ⟨free, rfl⟩ := h.bytes
  have hread := @entriesFrom_payload b.entries
    (headerBytes b.localDepth b.entries.length (freeOffset b.entries) b.overflow) free h.fits
  rwa [length_headerBytes] at hread

theorem with_header {depth : Nat} {overflow : Int}
    (hfits : HeaderFits depth b.entries.length (freeOffset b.entries) overflow) :
    ∃ page', writeBucketHeader depth b.entries.length (freeOffset b.entries) overflow page =
      .ok page' ∧ page'.length = page.length ∧ HoldsBucket page' ⟨depth, overflow, b.entries⟩ := by
  obtain ⟨free, rfl⟩ := h.bytes
  refine ⟨_, write_bucket_header_eq_ok.mpr ⟨hfits, ?_, rfl⟩, ?_, hfits, h.fits, free, ?_⟩
  · rw [List.length_append, List.length_append, length_headerBytes]
    omega
  · rw [List.append_assoc, List.drop_left' length_headerBytes]
    simp only [List.length_append, length_headerBytes]
  · rw [List.append_assoc, List.drop_left' length_headerBytes, List.append_assoc]

theorem wp_set_local_depth {depth : Nat} (hdepth : depth < 256) :
    wp (setLocalDepth depth) (fun _ page' => page'.length = page.length ∧
      HoldsBucket page' { b with localDepth := depth }) (fun _ _ => False) page := by
  have hfits : HeaderFits depth b.entries.length (freeOffset b.entries) b.overflow :=
    ⟨hdepth, h.header.count, h.header.free_offset, h.header.overflow⟩
  obtain ⟨page', hrun, hlength, hholds⟩ := h.with_header hfits
  simp only [setLocalDepth, wp_bind, wp_get, h.readHeader, wp_lift_ok, wp_update, hrun]
  constructor
  · rintro _ hpage
    cases hpage
    exact ⟨hlength, hholds⟩
  · intro e herror
    cases herror

theorem wp_set_overflow_page_id (pageId : Int) :
    wp (setOverflowPageId pageId) (fun _ page' => page'.length = page.length ∧
      HoldsBucket page' { b with overflow := pageId })
      (fun e _ => IsStructError e ∧ ¬ (0 ≤ pageId ∧ pageId < 4294967296)) page := by
  have hfits : 0 ≤ pageId ∧ pageId < 4294967296 →
      HeaderFits b.localDepth b.entries.length (freeOffset b.entries) pageId :=
    fun hpage => ⟨h.header.depth, h.header.count, h.header.free_offset, hpage⟩
  simp only [setOverflowPageId, wp_bind, wp_get, h.readHeader, wp_lift_ok, wp_update]
  constructor
  · intro page₁ hwrite
    obtain ⟨page', hrun, hlength, hholds⟩ :=
      h.with_header (write_bucket_header_eq_ok.mp hwrite).1
    rw [hwrite] at hrun
    cases hrun
    exact ⟨hlength, hholds⟩
  · intro e herror
    refine ⟨write_bucket_header_error herror, fun hpage => ?_⟩
    obtain ⟨page', hrun, _⟩ := h.with_header (hfits hpage)
    rw [hrun] at herror
    cases herror

end

/-- The entry and the header fit. -/
structure CanAdd (page : Bytes) (b : Bucket) (key : Bytes) (rid : RID) : Prop where
  room : freeOffset b.entries + entrySize key ≤ page.length
  entry : EntryFits (key, rid)
  header : HeaderFits b.localDepth (b.entries.length + 1) (freeOffset b.entries + entrySize key)
    b.overflow

theorem canAdd_of_room (h : HoldsBucket page b) (hrid : RidFits rid)
    (hsize : freeOffset b.entries + entrySize key < 65536)
    (hroom : freeOffset b.entries + entrySize key ≤ page.length) : CanAdd page b key rid := by
  have hcount := length_le_payload b.entries
  have hentry : entrySize key = ENTRY_HEADER_SIZE + key.length + RID_SIZE := rfl
  simp only [freeOffset, BUCKET_HEADER_SIZE, ENTRY_HEADER_SIZE, RID_SIZE] at hsize hroom hentry
  refine ⟨?_, ⟨?_, hrid.pageId, hrid.slot⟩, h.header.depth, ?_, ?_, h.header.overflow⟩
  · simp only [freeOffset, BUCKET_HEADER_SIZE]
    exact hroom
  · show key.length < 65536
    omega
  · omega
  · simp only [freeOffset, BUCKET_HEADER_SIZE]
    omega

theorem appended (h : HoldsBucket page b) {page' : Bytes} (hadd : CanAdd page b key rid)
    (hwrite : writeBucketHeader b.localDepth (b.entries.length + 1)
      (freeOffset b.entries + entrySize key) b.overflow
      (splice page (freeOffset b.entries) (entryBytes (key, rid))) = .ok page') :
    page'.length = page.length ∧
      HoldsBucket page' { b with entries := b.entries ++ [(key, rid)] } := by
  obtain ⟨free, hpage⟩ := h.bytes
  have hfront : (headerBytes b.localDepth b.entries.length (freeOffset b.entries) b.overflow ++
      payload b.entries).length = freeOffset b.entries := by
    rw [List.length_append, length_headerBytes, freeOffset]
  have hroom : entrySize key ≤ free.length := by
    have hlength := congrArg List.length hpage
    have hle := hadd.room
    rw [List.length_append, hfront] at hlength
    omega
  have hsplice : splice page (freeOffset b.entries) (entryBytes (key, rid)) =
      headerBytes b.localDepth b.entries.length (freeOffset b.entries) b.overflow ++
        payload b.entries ++ entryBytes (key, rid) ++ free.drop (entrySize key) := by
    have htake : (entryBytes (key, rid)).length = (free.take (entrySize key)).length := by
      rw [length_entryBytes, List.length_take, Nat.min_eq_left hroom]
    have happend := @splice_append _ (entryBytes (key, rid)) (freeOffset b.entries) _
      (free.take (entrySize key)) (free.drop (entrySize key)) hfront.symm htake
    rwa [List.append_assoc _ (free.take _), List.take_append_drop, ← hpage] at happend
  obtain ⟨hfits, _, rfl⟩ := write_bucket_header_eq_ok.mp hwrite
  constructor
  · have hlength := congrArg List.length hpage
    rw [List.length_append, hfront] at hlength
    rw [hsplice]
    simp only [List.append_assoc, List.drop_left' length_headerBytes]
    simp only [List.length_append, length_headerBytes, length_entryBytes, List.length_drop]
    rw [freeOffset] at hlength
    omega
  · have hlengthEntries : (b.entries ++ [(key, rid)]).length = b.entries.length + 1 := by
      rw [List.length_append, List.length_singleton]
    refine ⟨?_, ?_, free.drop (entrySize key), ?_⟩
    · rw [hlengthEntries, freeOffset_append, length_payload_singleton]
      exact hfits
    · intro entry hentry
      rcases List.mem_append.mp hentry with hold | hnew
      · exact h.fits entry hold
      · rw [List.mem_singleton.mp hnew]
        exact hadd.entry
    · rw [hlengthEntries, freeOffset_append, length_payload_singleton, payload_append, hsplice]
      simp only [List.append_assoc, List.drop_left' length_headerBytes, payload_cons]
      simp [payload]

/-- An entry is appended, or the page is full and stays; fields out of range raise. -/
theorem wp_add_entry (h : HoldsBucket page b) (key : Bytes) (rid : RID) :
    wp (addEntry key rid)
      (fun added page' => page'.length = page.length ∧
        (added = false ∧ page' = page ∧ page.length < freeOffset b.entries + entrySize key ∨
          added = true ∧ CanAdd page b key rid ∧
            HoldsBucket page' { b with entries := b.entries ++ [(key, rid)] }))
      (fun e _ => IsStructError e ∧ freeOffset b.entries + entrySize key ≤ page.length ∧
        ¬ CanAdd page b key rid) page := by
  have hfree := h.length_page
  have hentry : entrySize key = ENTRY_HEADER_SIZE + key.length + RID_SIZE := rfl
  simp only [addEntry, wp_bind, wp_get, h.readHeader, wp_lift_ok]
  by_cases hroom : freeOffset b.entries + entrySize key ≤ page.length
  · rw [if_neg (by omega)]
    simp only [wp_bind, wp_update, wp_modify, wp_pure]
    have hheader : BUCKET_HEADER_SIZE ≤ page.length := by
      rw [freeOffset] at hfree
      omega
    constructor
    · intro page₁ hpage₁
      obtain ⟨size, hsize, hle₁, rfl⟩ := pack_into_eq_ok.mp hpage₁
      obtain ⟨hkey, rfl⟩ := packU_eq_ok.mp hsize
      have hsizeLength : (packLE ENTRY_HEADER_SIZE key.length).length = ENTRY_HEADER_SIZE :=
        length_packLE _ _
      have hlength₁ := length_splice hle₁
      have hposition : freeOffset b.entries + ENTRY_HEADER_SIZE + key.length =
          freeOffset b.entries + (packLE ENTRY_HEADER_SIZE key.length ++ key).length := by
        rw [List.length_append, hsizeLength, Nat.add_assoc]
      have hsecond : splice (splice page (freeOffset b.entries)
          (packLE ENTRY_HEADER_SIZE key.length)) (freeOffset b.entries + ENTRY_HEADER_SIZE) key =
            splice page (freeOffset b.entries) (packLE ENTRY_HEADER_SIZE key.length ++ key) := by
        have htwo := @splice_splice _ _ _ _ key hle₁
        rwa [hsizeLength] at htwo
      have hlength₂ : (splice page (freeOffset b.entries)
          (packLE ENTRY_HEADER_SIZE key.length ++ key)).length = page.length :=
        length_splice (by rw [← hposition]; omega)
      rw [hsecond]
      constructor
      · intro page₃ hpage₃
        obtain ⟨fields, hfields, hle₃, rfl⟩ := pack_into_eq_ok.mp hpage₃
        obtain ⟨hpageId, hslot, rfl⟩ := packRid_eq_ok.mp hfields
        have hthird : splice (splice page (freeOffset b.entries)
            (packLE ENTRY_HEADER_SIZE key.length ++ key))
            (freeOffset b.entries + ENTRY_HEADER_SIZE + key.length) (ridBytes rid) =
              splice page (freeOffset b.entries) (entryBytes (key, rid)) := by
          rw [hposition, splice_splice (by rw [← hposition]; omega)]
          rfl
        rw [hthird, show freeOffset b.entries + ENTRY_HEADER_SIZE + key.length + RID_SIZE =
          freeOffset b.entries + entrySize key by omega]
        constructor
        · intro page₄ hpage₄
          have hadd : CanAdd page b key rid :=
            ⟨hroom, ⟨hkey, hpageId, hslot⟩, (write_bucket_header_eq_ok.mp hpage₄).1⟩
          obtain ⟨hlength, hholds⟩ := h.appended hadd hpage₄
          exact ⟨hlength, Or.inr ⟨trivial, hadd, hholds⟩⟩
        · intro e herror
          refine ⟨write_bucket_header_error herror, hroom, ?_⟩
          intro hadd
          have hlength : (splice page (freeOffset b.entries) (entryBytes (key, rid))).length =
              page.length := length_splice (by rw [length_entryBytes]; exact hroom)
          rw [write_bucket_header_eq_ok.mpr ⟨hadd.header, by rw [hlength]; exact hheader, rfl⟩]
            at herror
          cases herror
      · intro e herror
        rcases pack_into_error herror with herror | ⟨hstruct, hshort⟩
        · refine ⟨packRid_error herror, hroom, ?_⟩
          intro hadd
          rw [packRid_eq_ok.mpr ⟨hadd.entry.pageId, hadd.entry.slot, rfl⟩] at herror
          cases herror
        · refine ⟨hstruct, hroom, ?_⟩
          intro hadd
          have hlt := hshort _ (packRid_eq_ok.mpr ⟨hadd.entry.pageId, hadd.entry.slot, rfl⟩)
          rw [hlength₂, length_ridBytes] at hlt
          omega
    · intro e herror
      rcases pack_into_error herror with herror | ⟨hstruct, hshort⟩
      · obtain ⟨hstruct, hge⟩ := packU_error herror
        exact ⟨hstruct, hroom, fun hadd => absurd hadd.entry.key (not_lt.mpr hge)⟩
      · refine ⟨hstruct, hroom, ?_⟩
        intro hadd
        have hlt := hshort _ (packU_eq_ok.mpr ⟨hadd.entry.key, rfl⟩)
        rw [length_packLE] at hlt
        omega
  · rw [if_pos (by omega)]
    refine ⟨rfl, Or.inl ⟨rfl, rfl, not_le.mp hroom⟩⟩

end HoldsBucket

theorem holds_empty {page page' : Bytes} {depth : Nat} {overflow : Int}
    (h : writeBucketHeader depth 0 BUCKET_HEADER_SIZE overflow page = .ok page') :
    page'.length = page.length ∧ HoldsBucket page' ⟨depth, overflow, []⟩ := by
  obtain ⟨hfits, hle, rfl⟩ := write_bucket_header_eq_ok.mp h
  refine ⟨?_, hfits, ?_, page.drop BUCKET_HEADER_SIZE, ?_⟩
  · rw [List.length_append, length_headerBytes, List.length_drop]
    omega
  · intro entry hentry
    cases hentry
  · simp [payload, freeOffset]

theorem new_bucket_ok {pageSize depth : Nat} {page : Bytes}
    (h : newBucket pageSize depth = .ok page) :
    page.length = pageSize ∧ HoldsBucket page ⟨depth, NO_OVERFLOW, []⟩ := by
  obtain ⟨hlength, hholds⟩ := holds_empty h
  exact ⟨hlength.trans List.length_replicate, hholds⟩

theorem wp_add_entries : ∀ {es : List Entry} {b : Bucket} {page : Bytes}, HoldsBucket page b →
    (∀ e ∈ es, EntryFits e) → freeOffset (b.entries ++ es) ≤ page.length →
    HeaderFits b.localDepth (b.entries ++ es).length (freeOffset (b.entries ++ es)) b.overflow →
    wp (addEntries es) (fun _ page' => page'.length = page.length ∧
      HoldsBucket page' { b with entries := b.entries ++ es }) (fun _ _ => False) page := by
  intro es
  induction es with
  | nil =>
      intro b page h _ _ _
      rw [List.append_nil]
      exact ⟨rfl, h⟩
  | cons entry es ih =>
      intro b page h hfits hroom hheader
      obtain ⟨key, rid⟩ := entry
      have hpayload : (payload ((key, rid) :: es)).length =
          entrySize key + (payload es).length := by
        rw [payload_cons, List.length_append, length_entryBytes]
      have hcount : (b.entries ++ (key, rid) :: es).length = b.entries.length + 1 + es.length := by
        rw [List.length_append, List.length_cons]
        omega
      rw [freeOffset_append, hpayload] at hroom
      have hadd : HoldsBucket.CanAdd page b key rid := by
        have hcountLt := hheader.count
        have hfreeLt := hheader.free_offset
        rw [hcount] at hcountLt
        rw [freeOffset_append, hpayload] at hfreeLt
        refine ⟨by omega, hfits _ (by simp), hheader.depth, by omega, by omega, hheader.overflow⟩
      rw [addEntries, wp_bind]
      refine wp_mono (h.wp_add_entry key rid) ?_ (fun _ _ hE => hE.2.2 hadd)
      rintro added page' ⟨hlength, ⟨_, _, hfull⟩ | ⟨_, _, hholds⟩⟩
      · exact absurd hadd.room (not_le.mpr hfull)
      · have hshift : b.entries ++ (key, rid) :: es = b.entries ++ [(key, rid)] ++ es := by
          rw [List.append_assoc, List.singleton_append]
        rw [hshift] at hheader ⊢
        refine wp_mono (ih hholds (fun e he => hfits e (List.mem_cons_of_mem _ he)) ?_ hheader) ?_
          (fun _ _ hE => hE)
        · rw [← hshift, freeOffset_append, hpayload, hlength]
          exact hroom
        · rintro _ page'' ⟨hlength', hholds'⟩
          exact ⟨hlength'.trans hlength, hholds'⟩

namespace HoldsBucket

variable {page : Bytes} {b : Bucket} {es : List Entry}

theorem wp_write_entries (h : HoldsBucket page b) (hfits : ∀ e ∈ es, EntryFits e)
    (hroom : freeOffset es ≤ page.length)
    (hheader : HeaderFits b.localDepth es.length (freeOffset es) b.overflow) :
    wp (writeEntries es) (fun _ page' => page'.length = page.length ∧
      HoldsBucket page' { b with entries := es }) (fun _ _ => False) page := by
  have hempty : HeaderFits b.localDepth 0 BUCKET_HEADER_SIZE b.overflow :=
    ⟨hheader.depth, by omega, by decide, hheader.overflow⟩
  have hsize : BUCKET_HEADER_SIZE ≤ page.length := by
    have hle := h.length_page
    rw [freeOffset] at hle
    omega
  have hwrite := write_bucket_header_eq_ok.mpr ⟨hempty, hsize, rfl⟩
  obtain ⟨hlength, hholds⟩ := holds_empty hwrite
  simp only [writeEntries, wp_bind, wp_get, h.readHeader, wp_lift_ok, wp_update, hwrite]
  constructor
  · rintro _ hpage
    cases hpage
    refine wp_mono (wp_add_entries hholds hfits (by rw [hlength]; exact hroom) hheader) ?_
      (fun _ _ hE => hE)
    rintro _ page' ⟨hlength', hholds'⟩
    exact ⟨hlength'.trans hlength, hholds'⟩
  · intro e herror
    cases herror

theorem sublist (h : HoldsBucket page b) (hsub : es.Sublist b.entries) :
    (∀ e ∈ es, EntryFits e) ∧ freeOffset es ≤ page.length ∧
      HeaderFits b.localDepth es.length (freeOffset es) b.overflow := by
  have hpayload := payload_sublist hsub
  have hfree : freeOffset es ≤ freeOffset b.entries := by
    rw [freeOffset, freeOffset]
    omega
  refine ⟨fun e he => h.fits e (hsub.subset he), hfree.trans h.length_page, h.header.depth,
    hsub.length_le.trans_lt h.header.count, hfree.trans_lt h.header.free_offset,
    h.header.overflow⟩

theorem wp_remove_entries (h : HoldsBucket page b) (key : Bytes) (rid : Option RID) :
    wp (removeEntries key rid) (fun removed page' => page'.length = page.length ∧
      removed = b.entries.countP (matchesEntry key rid) ∧ HoldsBucket page'
        { b with entries := b.entries.filter (fun entry => !matchesEntry key rid entry) })
      (fun _ _ => False) page := by
  simp only [removeEntries, wp_bind, wp_get, h.iterEntries, wp_lift_ok]
  split
  · obtain ⟨hfits, hroom, hheader⟩ := h.sublist
      (@List.filter_sublist _ (fun entry => !matchesEntry key rid entry) b.entries)
    rw [wp_bind]
    refine wp_mono (h.wp_write_entries hfits hroom hheader) ?_ (fun _ _ hE => hE)
    rintro _ page' ⟨hlength, hholds⟩
    exact ⟨hlength, rfl, hholds⟩
  · next hzero =>
    have hnone : b.entries.filter (fun entry => !matchesEntry key rid entry) = b.entries := by
      rw [List.filter_eq_self]
      intro entry hentry
      have hcount := List.countP_eq_zero.mp (not_not.mp hzero) entry hentry
      rw [Bool.not_eq_true] at hcount
      rw [hcount, Bool.not_false]
    rw [hnone]
    exact ⟨rfl, rfl, h⟩

end HoldsBucket

/-! ## Directories -/

section Slots

variable {page page' : Bytes} {slot : Nat} {pageId : Int}

theorem wp_write_directory_slot (page : Bytes) (slot : Nat) (pageId : Int) :
    wp (writeDirectorySlot slot pageId) (fun _ page' => page'.length = page.length ∧
      ∀ i, readDirectorySlot page' i = if i = slot then .ok pageId else
        readDirectorySlot page i)
      (fun e _ => IsStructError e ∧ ¬ ((0 ≤ pageId ∧ pageId < 4294967296) ∧
        slot * PAGE_ID_SIZE + PAGE_ID_SIZE ≤ page.length)) page := by
  rw [writeDirectorySlot, wp_update]
  constructor
  · intro page' hpage
    obtain ⟨data, hdata, hle, rfl⟩ := pack_into_eq_ok.mp hpage
    obtain ⟨hpos, hlt, rfl⟩ := packInt_eq_ok.mp hdata
    have hlength := length_splice hle
    refine ⟨hlength, ?_⟩
    intro i
    rw [length_packLE] at hle
    by_cases hi : i = slot
    · subst hi
      have hself := @slice_splice_self _ page (packLE PAGE_ID_SIZE pageId.toNat)
        (i * PAGE_ID_SIZE) (by rw [length_packLE]; exact hle)
      rw [length_packLE] at hself
      have hrange : pageId.toNat < 256 ^ PAGE_ID_SIZE := by omega
      rw [if_pos rfl, readDirectorySlot, unpackFrom, if_pos (by rw [hlength]; exact hle), hself,
        ok_bind, unpackLE_packLE _ _ hrange, Int.toNat_of_nonneg hpos]
    · have hdisjoint : i * PAGE_ID_SIZE + PAGE_ID_SIZE ≤ slot * PAGE_ID_SIZE ∨
          slot * PAGE_ID_SIZE + PAGE_ID_SIZE ≤ i * PAGE_ID_SIZE := by
        simp only [PAGE_ID_SIZE]
        omega
      have hother := @slice_splice_of_disjoint _ page (packLE PAGE_ID_SIZE pageId.toNat)
        (slot * PAGE_ID_SIZE) (i * PAGE_ID_SIZE) (i * PAGE_ID_SIZE + PAGE_ID_SIZE)
        (by rw [length_packLE]; exact hle) (by rw [length_packLE]; exact hdisjoint)
      rw [if_neg hi, readDirectorySlot, readDirectorySlot, unpackFrom, unpackFrom, hlength,
        hother]
  · intro e herror
    rcases pack_into_error herror with herror | ⟨hstruct, hshort⟩
    · obtain ⟨hstruct, hrange⟩ := packInt_error herror
      exact ⟨hstruct, fun h => hrange h.1⟩
    · refine ⟨hstruct, ?_⟩
      rintro ⟨hrange, hroom⟩
      have hlt := hshort _ (packInt_eq_ok.mpr ⟨hrange.1, hrange.2, rfl⟩)
      rw [length_packLE] at hlt
      omega

theorem read_directory_slot_ok (h : slot * PAGE_ID_SIZE + PAGE_ID_SIZE ≤ page.length) :
    ∃ pageId, readDirectorySlot page slot = .ok pageId :=
  ⟨_, by rw [readDirectorySlot, unpackFrom, if_pos h, ok_bind]⟩

theorem read_directory_slot_range (h : readDirectorySlot page slot = .ok pageId) :
    0 ≤ pageId ∧ pageId < 4294967296 := by
  rw [readDirectorySlot, unpackFrom] at h
  split at h
  · next hle =>
      rw [ok_bind, Except.ok.injEq] at h
      have hlength : (slice page (slot * PAGE_ID_SIZE)
          (slot * PAGE_ID_SIZE + PAGE_ID_SIZE)).length = 4 := by
        rw [length_slice hle]
        simp [PAGE_ID_SIZE]
      have hlt := unpackLE_lt (slice page (slot * PAGE_ID_SIZE)
        (slot * PAGE_ID_SIZE + PAGE_ID_SIZE))
      rw [hlength] at hlt
      omega
  · cases h

end Slots

/-! ## Metadata -/

section Metadata

variable {globalDepth maxDepth count : Nat} {data : Bytes}

theorem packMetadataHeader_error {e : PyError}
    (h : packMetadataHeader globalDepth maxDepth count = .error e) :
    IsStructError e ∧ ¬ (globalDepth < 256 ∧ maxDepth < 256 ∧ count < 65536) := by
  cases hglobal : packU 1 globalDepth with
  | error e' =>
      rw [packMetadataHeader, hglobal] at h
      cases h
      obtain ⟨hstruct, hge⟩ := packU_error hglobal
      exact ⟨hstruct, fun hfits => absurd hfits.1 (not_lt.mpr hge)⟩
  | ok _ =>
      cases hmax : packU 1 maxDepth with
      | error e' =>
          rw [packMetadataHeader, hglobal, hmax] at h
          cases h
          obtain ⟨hstruct, hge⟩ := packU_error hmax
          exact ⟨hstruct, fun hfits => absurd hfits.2.1 (not_lt.mpr hge)⟩
      | ok _ =>
          cases hcount : packU 2 count with
          | error e' =>
              rw [packMetadataHeader, hglobal, hmax, hcount] at h
              cases h
              obtain ⟨hstruct, hge⟩ := packU_error hcount
              exact ⟨hstruct, fun hfits => absurd hfits.2.2 (not_lt.mpr hge)⟩
          | ok _ =>
              rw [packMetadataHeader, hglobal, hmax, hcount] at h
              cases h

/-- The fields of the header, read back. -/
theorem packMetadataHeader_ok (h : packMetadataHeader globalDepth maxDepth count = .ok data) :
    data.length = META_HEADER_SIZE ∧ slice data 0 4 = MAGIC ∧ unpackLE (slice data 4 5) = VERSION ∧
      unpackLE (slice data 5 6) = globalDepth ∧ unpackLE (slice data 6 7) = maxDepth ∧
      unpackLE (slice data 7 9) = count := by
  simp only [packMetadataHeader, bind_eq_ok, packU_eq_ok, Except.ok.injEq] at h
  obtain ⟨_, ⟨_, rfl⟩, _, ⟨hglobal, rfl⟩, _, ⟨hmax, rfl⟩, _, ⟨hcount, rfl⟩, rfl⟩ := h
  have hmagic : MAGIC.length = 4 := rfl
  refine ⟨by simp [hmagic, META_HEADER_SIZE], ?_, ?_, ?_, ?_, ?_⟩
  · have happend := @slice_append _ 0 4 [] MAGIC (packLE 1 VERSION ++ packLE 1 globalDepth ++
      packLE 1 maxDepth ++ packLE 2 count) rfl rfl
    simpa only [List.nil_append, List.append_assoc] using happend
  · have happend := @slice_append _ 4 5 MAGIC (packLE 1 VERSION) (packLE 1 globalDepth ++
      packLE 1 maxDepth ++ packLE 2 count) rfl (by simp)
    rw [show slice (MAGIC ++ packLE 1 VERSION ++ packLE 1 globalDepth ++ packLE 1 maxDepth ++
      packLE 2 count) 4 5 = packLE 1 VERSION by simpa only [List.append_assoc] using happend]
    rfl
  · have happend := @slice_append _ 5 6 (MAGIC ++ packLE 1 VERSION) (packLE 1 globalDepth)
      (packLE 1 maxDepth ++ packLE 2 count) (by simp [hmagic]) (by simp)
    rw [show slice (MAGIC ++ packLE 1 VERSION ++ packLE 1 globalDepth ++ packLE 1 maxDepth ++
      packLE 2 count) 5 6 = packLE 1 globalDepth by
        simpa only [List.append_assoc] using happend]
    exact unpackLE_packLE 1 globalDepth hglobal
  · have happend := @slice_append _ 6 7 (MAGIC ++ packLE 1 VERSION ++ packLE 1 globalDepth)
      (packLE 1 maxDepth) (packLE 2 count) (by simp [hmagic]) (by simp)
    rw [show slice (MAGIC ++ packLE 1 VERSION ++ packLE 1 globalDepth ++ packLE 1 maxDepth ++
      packLE 2 count) 6 7 = packLE 1 maxDepth by simpa only [List.append_assoc] using happend]
    exact unpackLE_packLE 1 maxDepth hmax
  · have happend := @slice_append _ 7 9 (MAGIC ++ packLE 1 VERSION ++ packLE 1 globalDepth ++
      packLE 1 maxDepth) (packLE 2 count) [] (by simp [hmagic]) (by simp)
    rw [show slice (MAGIC ++ packLE 1 VERSION ++ packLE 1 globalDepth ++ packLE 1 maxDepth ++
      packLE 2 count) 7 9 = packLE 2 count by
        simpa only [List.append_assoc, List.append_nil] using happend]
    exact unpackLE_packLE 2 count hcount

theorem wp_pack_page_ids : ∀ {pageIds : List Int} {offset : Nat} {page : Bytes},
    wp (packPageIds pageIds offset) (fun _ page' => page'.length = page.length ∧
      page'.take offset = page.take offset ∧
      readPageIds page' pageIds.length offset = .ok pageIds)
      (fun e _ => IsStructError e ∧ ¬ ((∀ p ∈ pageIds, 0 ≤ p ∧ p < 4294967296) ∧
        offset + pageIds.length * PAGE_ID_SIZE ≤ page.length)) page := by
  intro pageIds
  induction pageIds with
  | nil =>
      intro offset page
      exact ⟨rfl, rfl, rfl⟩
  | cons pageId pageIds ih =>
      intro offset page
      simp only [packPageIds, wp_bind, wp_update]
      constructor
      · intro page₁ hpage₁
        obtain ⟨data, hdata, hle, rfl⟩ := pack_into_eq_ok.mp hpage₁
        obtain ⟨hpos, hlt, rfl⟩ := packInt_eq_ok.mp hdata
        refine wp_mono ih ?_ ?_
        rotate_left
        · rintro e page' ⟨hstruct, hnot⟩
          refine ⟨hstruct, ?_⟩
          rintro ⟨hids, hroom⟩
          refine hnot ⟨fun p hp => hids p (List.mem_cons_of_mem _ hp), ?_⟩
          rw [List.length_cons, Nat.add_mul, Nat.one_mul] at hroom
          rw [length_splice hle]
          omega
        rintro _ page' ⟨hlength, hbefore, hread⟩
        rw [length_splice hle] at hlength
        refine ⟨hlength, ?_, ?_⟩
        · have htake := congrArg (List.take offset) hbefore
          rw [List.take_take, List.take_take, Nat.min_eq_left (Nat.le_add_right _ _)] at htake
          rw [htake, splice, List.append_assoc, List.take_left']
          · rw [List.length_take]
            omega
        · have hself := @slice_splice_self _ page (packLE PAGE_ID_SIZE pageId.toNat) offset hle
          rw [length_packLE] at hself hle
          have hslice : slice page' offset (offset + PAGE_ID_SIZE) =
              packLE PAGE_ID_SIZE pageId.toNat := by
            rw [slice_eq_of_take hbefore, hself]
          have hrange : pageId.toNat < 256 ^ PAGE_ID_SIZE := by omega
          rw [List.length_cons, readPageIds, unpackFrom, if_pos (by omega), hslice, ok_bind,
            hread, ok_bind, unpackLE_packLE _ _ hrange, Int.toNat_of_nonneg hpos]
      · intro e herror
        rcases pack_into_error herror with herror | ⟨hstruct, hshort⟩
        · obtain ⟨hstruct, hrange⟩ := packInt_error herror
          exact ⟨hstruct, fun h => hrange (h.1 pageId (by simp))⟩
        · refine ⟨hstruct, ?_⟩
          rintro ⟨hids, hroom⟩
          have hid := hids pageId (by simp)
          have hlt := hshort _ (packInt_eq_ok.mpr ⟨hid.1, hid.2, rfl⟩)
          rw [List.length_cons, Nat.add_mul, Nat.one_mul] at hroom
          rw [length_packLE] at hlt
          omega

/-- The fields of the metadata are in range and fit in the page. -/
structure MetadataFits (globalDepth maxDepth : Nat) (directoryPages : List Int) (size : Nat) :
    Prop where
  globalDepth : globalDepth < 256
  maxDepth : maxDepth < 256
  count : directoryPages.length < 65536
  pageIds : ∀ p ∈ directoryPages, 0 ≤ p ∧ p < 4294967296
  room : META_HEADER_SIZE + directoryPages.length * PAGE_ID_SIZE ≤ size

theorem wp_write_metadata (globalDepth maxDepth : Nat) (directoryPages : List Int)
    (page : Bytes) :
    wp (writeMetadata globalDepth maxDepth directoryPages) (fun _ page' =>
      page'.length = page.length ∧
        readMetadata page' = .ok (globalDepth, maxDepth, directoryPages))
      (fun e _ => IsStructError e ∧
        ¬ MetadataFits globalDepth maxDepth directoryPages page.length) page := by
  simp only [writeMetadata, wp_bind, wp_update]
  constructor
  · intro page₁ hpage₁
    obtain ⟨header, hheader, hle, rfl⟩ := pack_into_eq_ok.mp hpage₁
    obtain ⟨hlength, hmagic, hversion, hglobal, hmax, hcount⟩ := packMetadataHeader_ok hheader
    refine wp_mono wp_pack_page_ids ?_ ?_
    rotate_left
    · rintro e page' ⟨hstruct, hnot⟩
      refine ⟨hstruct, fun hfits => hnot ⟨hfits.pageIds, ?_⟩⟩
      rw [length_splice hle]
      exact hfits.room
    rintro _ page' ⟨hlength', hbefore, hread⟩
    rw [length_splice hle] at hlength'
    refine ⟨hlength', ?_⟩
    have hself := slice_splice_self hle
    rw [Nat.zero_add, hlength] at hself hle
    have hslice : slice page' 0 (0 + META_HEADER_SIZE) = header := by
      rw [Nat.zero_add, slice_eq_of_take hbefore, hself]
    rw [readMetadata, unpackFrom, if_pos (by omega), hslice, ok_bind, hmagic, hversion, hglobal,
      hmax, hcount, hread]
    rfl
  · intro e herror
    rcases pack_into_error herror with herror | ⟨hstruct, hshort⟩
    · obtain ⟨hstruct, hnot⟩ := packMetadataHeader_error herror
      exact ⟨hstruct, fun hfits => hnot ⟨hfits.globalDepth, hfits.maxDepth, hfits.count⟩⟩
    · refine ⟨hstruct, fun hfits => ?_⟩
      cases hheader : packMetadataHeader globalDepth maxDepth directoryPages.length with
      | error e' =>
          exact (packMetadataHeader_error hheader).2
            ⟨hfits.globalDepth, hfits.maxDepth, hfits.count⟩
      | ok header =>
          have hlt := hshort header hheader
          have hroom := hfits.room
          rw [(packMetadataHeader_ok hheader).1] at hlt
          omega

theorem read_page_ids_length : ∀ {count offset : Nat} {page : Bytes} {pageIds : List Int},
    readPageIds page count offset = .ok pageIds → pageIds.length = count ∧
      (count = 0 ∨ offset + count * PAGE_ID_SIZE ≤ page.length) := by
  intro count
  induction count with
  | zero =>
      intro offset page pageIds h
      cases h
      exact ⟨rfl, Or.inl rfl⟩
  | succ count ih =>
      intro offset page pageIds h
      rw [readPageIds, bind_eq_ok] at h
      obtain ⟨first, hfirst, h⟩ := h
      obtain ⟨rest, hrest, h⟩ := bind_eq_ok.mp h
      cases h
      obtain ⟨hlength, hroom⟩ := ih hrest
      have hin : offset + PAGE_ID_SIZE ≤ page.length := by
        rw [unpackFrom] at hfirst
        split at hfirst
        · assumption
        · cases hfirst
      refine ⟨by rw [List.length_cons, hlength], Or.inr ?_⟩
      rcases hroom with rfl | hroom
      · rw [Nat.zero_add, Nat.one_mul]
        exact hin
      · rw [Nat.add_mul, Nat.one_mul]
        omega

theorem read_metadata_range {page : Bytes} {global max : Nat} {pageIds : List Int}
    (h : readMetadata page = .ok (global, max, pageIds)) : max < 256 ∧
      META_HEADER_SIZE ≤ page.length ∧ (pageIds.length = 0 ∨
        META_HEADER_SIZE + pageIds.length * PAGE_ID_SIZE ≤ page.length) := by
  rw [readMetadata, bind_eq_ok] at h
  obtain ⟨header, hheader, h⟩ := h
  split at h
  · cases h
  · split at h
    · cases h
    · obtain ⟨ids, hids, h⟩ := bind_eq_ok.mp h
      cases h
      rw [unpackFrom] at hheader
      split at hheader
      · next hin =>
        cases hheader
        have hlt := unpackLE_lt (slice (slice page 0 (0 + META_HEADER_SIZE)) 6 7)
        have hlength : (slice (slice page 0 (0 + META_HEADER_SIZE)) 6 7).length = 1 := by
          refine length_slice ?_
          rw [length_slice hin]
          decide
        rw [hlength] at hlt
        obtain ⟨hcount, hroom⟩ := read_page_ids_length hids
        rw [← hcount] at hroom
        refine ⟨hlt, by omega, hroom⟩
      · cases hheader

theorem new_metadata_ok {pageSize : Nat} {page : Bytes}
    (h : newMetadata pageSize maxDepth = .ok page) : page.length = pageSize ∧
      META_HEADER_SIZE ≤ pageSize := by
  have hspec := wp_write_metadata 0 maxDepth [] (List.replicate pageSize 0)
  rw [newMetadata] at h
  rcases hrun : writeMetadata 0 maxDepth [] (List.replicate pageSize 0) with ⟨e | _, page'⟩
  · rw [hrun] at h
    cases h
  · rw [hrun] at h
    cases h
    obtain ⟨hlength, hread⟩ := wp_ok hspec hrun
    rw [List.length_replicate] at hlength
    exact ⟨hlength, hlength ▸ (read_metadata_range hread).2.1⟩

theorem new_metadata_error {pageSize : Nat} {e : PyError}
    (h : newMetadata pageSize maxDepth = .error e) :
    ¬ (maxDepth < 256 ∧ META_HEADER_SIZE ≤ pageSize) := by
  rintro ⟨hmax, hpage⟩
  have hspec := wp_write_metadata 0 maxDepth [] (List.replicate pageSize 0)
  rw [newMetadata] at h
  rcases hrun : writeMetadata 0 maxDepth [] (List.replicate pageSize 0) with ⟨e' | _, page'⟩
  · refine (wp_error hspec hrun).2 ⟨by decide, hmax, by decide, ?_, ?_⟩
    · exact fun p hp => absurd hp List.not_mem_nil
    · rw [List.length_replicate]
      exact hpage
  · rw [hrun] at h
    cases h

end Metadata

end SoupDB.HashPage
