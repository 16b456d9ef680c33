import SoupDB.Common.Pack
import SoupDB.Lib.Region
import Mathlib.Data.List.Sort

/-!
# SoupDB: slotted pages

The codec of pages that hold records of any size.  A page starts with a header (number
of slots, free space offset), followed by the slot directory, one `(offset, length)` a
slot; the records grow backward from the page end, and offset 0 marks a tombstone.

The operations take a page and give the page they leave.  `Slotted page slots offset`
says that the page carries that directory and that its records lie between the directory
and the page end without overlapping; every operation keeps it and does to the records
(`records`) what it is there for: `insert_record_ok`, `insert_record_full`,
`read_record_eq`, `delete_record_eq`, `compact_ok`.
-/

namespace SoupDB.SlottedPage

open Pack List

def HEADER_SIZE : Nat := 4
def SLOT_SIZE : Nat := 4
def TOMBSTONE_OFFSET : Nat := 0

/-- `struct.unpackFrom` of two unsigned 16-bit fields. -/
def unpackFrom (page : Bytes) (position : Nat) : Except PyError (Nat × Nat) :=
  if position + 4 ≤ page.length then
    .ok (unpackLE (slice page position (position + 2)),
      unpackLE (slice page (position + 2) (position + 4)))
  else .error (.StructError "unpack_from requires a larger buffer")

/-- `struct.packInto` of two unsigned 16-bit fields. -/
def packInto (page : Bytes) (position a b : Nat) : Except PyError Bytes := do
  let first ← packU 2 a
  let second ← packU 2 b
  if position + 4 ≤ page.length then .ok (splice page position (first ++ second))
  else .error (.StructError "pack_into requires a larger buffer")

def readHeader (page : Bytes) : Except PyError (Nat × Nat) := unpackFrom page 0

def writeHeader (page : Bytes) (numSlots freeSpaceOffset : Nat) : Except PyError Bytes :=
  packInto page 0 numSlots freeSpaceOffset

def slotPosition (slot : Nat) : Nat := HEADER_SIZE + slot * SLOT_SIZE

def readSlot (page : Bytes) (slot : Nat) : Except PyError (Nat × Nat) :=
  unpackFrom page (slotPosition slot)

def writeSlot (page : Bytes) (slot offset length : Nat) : Except PyError Bytes :=
  packInto page (slotPosition slot) offset length

/-- Largest record that could ever fit in a fresh page. -/
def maxRecordSize (pageSize : Int) : Int := pageSize - HEADER_SIZE - SLOT_SIZE

def newPage (pageSize : Int) : Except PyError Bytes :=
  if pageSize < 0 then .error (.ValueError "negative count")
  else writeHeader (replicate pageSize.toNat 0) 0 pageSize.toNat

def slotCount (page : Bytes) : Except PyError Nat := do
  let (numSlots, _) ← readHeader page
  .ok numSlots

/-- Bytes available for a new slot and its data. -/
def freeSpace (page : Bytes) : Except PyError Int := do
  let (numSlots, freeSpaceOffset) ← readHeader page
  let directoryEnd : Int := HEADER_SIZE + numSlots * SLOT_SIZE
  .ok (freeSpaceOffset - directoryEnd)

/-- Place the data and give its slot, or none if it does not fit. -/
def insertRecord (page data : Bytes) : Except PyError (Option Nat × Bytes) := do
  let room ← freeSpace page
  if (data.length : Int) + SLOT_SIZE > room then .ok (none, page)
  else
    let (numSlots, freeSpaceOffset) ← readHeader page
    let newOffset := freeSpaceOffset - data.length
    let page := splice page newOffset data
    let page ← writeSlot page numSlots newOffset data.length
    let page ← writeHeader page (numSlots + 1) newOffset
    .ok (some numSlots, page)

/-- The bytes at a slot, none if there is no such slot or it is a tombstone. -/
def readRecord (page : Bytes) (slot : Int) : Except PyError (Option Bytes) := do
  let (numSlots, _) ← readHeader page
  if slot < 0 ∨ slot ≥ numSlots then .ok none
  else
    let (offset, length) ← readSlot page slot.toNat
    if offset = TOMBSTONE_OFFSET then .ok none
    else .ok (some (slice page offset (offset + length)))

def readSlots (page : Bytes) : Except PyError (List (Nat × Nat)) := do
  let (numSlots, _) ← readHeader page
  (range numSlots).mapM (readSlot page)

def liveBytes (page : Bytes) : Except PyError Nat := do
  let slots ← readSlots page
  .ok ((slots.filter (fun s => s.1 ≠ TOMBSTONE_OFFSET)).map Prod.snd).sum

/-- Dead bytes that compaction would recover. -/
def reclaimableSpace (page : Bytes) : Except PyError Int := do
  let (_, freeSpaceOffset) ← readHeader page
  let live ← liveBytes page
  .ok (page.length - freeSpaceOffset - live)

/-- Move one record, an entry of slot, offset and length, to the end of the free part. -/
def repack (snapshot : Bytes) (state : Bytes × Nat) (entry : Nat × Nat × Nat) :
    Except PyError (Bytes × Nat) := do
  let cursor := state.2 - entry.2.2
  let page := splice state.1 cursor (slice snapshot entry.2.1 (entry.2.1 + entry.2.2))
  let page ← writeSlot page entry.1 cursor entry.2.2
  .ok (page, cursor)

/-- The live entries, the highest offset first. -/
def liveEntries (slots : List (Nat × Nat)) : List (Nat × Nat × Nat) :=
  ((slots.mapIdx (fun slot s => (slot, s.1, s.2))).filter
    (fun entry => entry.2.1 ≠ TOMBSTONE_OFFSET)).mergeSort (fun a b => b.2.1 ≤ a.2.1)

/-- Repack the live records contiguously, keeping their slots. -/
def compact (page : Bytes) : Except PyError Bytes := do
  let (numSlots, _) ← readHeader page
  let slots ← readSlots page
  let (repacked, cursor) ← (liveEntries slots).foldlM (repack page) (page, page.length)
  writeHeader repacked numSlots cursor

/-- Mark the slot as a tombstone; whether there was a record. -/
def deleteRecord (page : Bytes) (slot : Int) : Except PyError (Bool × Bytes) := do
  let (numSlots, _) ← readHeader page
  if slot < 0 ∨ slot ≥ numSlots then .ok (false, page)
  else
    let (offset, length) ← readSlot page slot.toNat
    if offset = TOMBSTONE_OFFSET then .ok (false, page)
    else
      let page ← writeSlot page slot.toNat TOMBSTONE_OFFSET length
      .ok (true, page)

/-! ## Fields -/

section Fields

variable {page page' : Bytes} {position position' a b c d : Nat}

theorem pack_into_ok (ha : a < 65536) (hb : b < 65536) (h : position + 4 ≤ page.length) :
    packInto page position a b = .ok (splice page position (packLE 2 a ++ packLE 2 b)) := by
  have hrange : (256 : Nat) ^ 2 = 65536 := rfl
  rw [packInto, packU, hrange, if_pos ha, packU, hrange, if_pos hb, ok_bind, ok_bind, if_pos h]

theorem length_fields : (packLE 2 a ++ packLE 2 b).length = 4 := by
  rw [length_append, length_packLE, length_packLE]

/-- A pair of fields is read as it was written. -/
theorem unpack_pack (ha : a < 65536) (hb : b < 65536) (h : position + 4 ≤ page.length) :
    unpackFrom (splice page position (packLE 2 a ++ packLE 2 b)) position = .ok (a, b) := by
  have hlen : (splice page position (packLE 2 a ++ packLE 2 b)).length = page.length :=
    length_splice (by rw [length_fields]; exact h)
  have hself := @slice_splice_self _ page (packLE 2 a ++ packLE 2 b) position
    (by rw [length_fields]; exact h)
  rw [length_fields] at hself
  have hfirst : slice (splice page position (packLE 2 a ++ packLE 2 b)) position (position + 2)
      = packLE 2 a := by
    have htake := congrArg (List.take 2) hself
    rw [slice, take_take, take_left' (length_packLE 2 a)] at htake
    rw [slice]
    rwa [show min 2 (position + 4 - position) = position + 2 - position by omega] at htake
  have hsecond : slice (splice page position (packLE 2 a ++ packLE 2 b)) (position + 2)
      (position + 4) = packLE 2 b := by
    have hdrop := congrArg (drop 2) hself
    rw [slice, drop_take, drop_drop, drop_left' (length_packLE 2 a)] at hdrop
    rw [slice]
    rwa [show position + 4 - position - 2 = position + 4 - (position + 2) by omega] at hdrop
  rw [unpackFrom, if_pos (by omega), hfirst, hsecond, unpackLE_packLE 2 a ha,
    unpackLE_packLE 2 b hb]

/-- Fields beside an overwritten region stay. -/
theorem unpack_splice {data : Bytes} (h : position + data.length ≤ page.length)
    (hdisjoint : position' + 4 ≤ position ∨ position + data.length ≤ position') :
    unpackFrom (splice page position data) position' = unpackFrom page position' := by
  rw [unpackFrom, unpackFrom, length_splice h, slice_splice_of_disjoint h (by omega),
    slice_splice_of_disjoint h (by omega)]

end Fields

/-! ## Pages in order -/

/-- The record of a directory entry, none for a tombstone. -/
def record (page : Bytes) (s : Nat × Nat) : Option Bytes :=
  if s.1 = TOMBSTONE_OFFSET then none else some (slice page s.1 (s.1 + s.2))

/-- The bytes the record of a directory entry takes. -/
def liveLength (s : Nat × Nat) : Nat := if s.1 = TOMBSTONE_OFFSET then 0 else s.2

def records (page : Bytes) (slots : List (Nat × Nat)) : List (Option Bytes) :=
  slots.map (record page)

/-- The bytes of two records do not overlap. -/
def Disjoint (s t : Nat × Nat) : Prop :=
  s.1 ≠ TOMBSTONE_OFFSET → t.1 ≠ TOMBSTONE_OFFSET → s.1 + s.2 ≤ t.1 ∨ t.1 + t.2 ≤ s.1

structure Directory (page : Bytes) (slots : List (Nat × Nat)) (freeSpaceOffset : Nat) :
    Prop where
  size : page.length < 65536
  header : readHeader page = .ok (slots.length, freeSpaceOffset)
  slot : ∀ i (h : i < slots.length), readSlot page i = .ok slots[i]
  position_le : slotPosition slots.length ≤ page.length

/-- The page carries this directory, and its records lie between the directory and the
page end without overlapping. -/
structure Slotted (page : Bytes) (slots : List (Nat × Nat)) (freeSpaceOffset : Nat) : Prop
    extends Directory page slots freeSpaceOffset where
  room : slotPosition slots.length ≤ freeSpaceOffset
  bound : freeSpaceOffset ≤ page.length
  inside : ∀ s ∈ slots, s.1 ≠ TOMBSTONE_OFFSET →
    freeSpaceOffset ≤ s.1 ∧ s.1 + s.2 ≤ page.length
  disjoint : slots.Pairwise Disjoint
  short : ∀ s ∈ slots, s.2 < 65536

theorem slot_position_le {i n : Nat} (h : i < n) : slotPosition i + 4 ≤ slotPosition n := by
  simp only [slotPosition, HEADER_SIZE, SLOT_SIZE]
  omega

theorem four_le_slot_position (n : Nat) : 4 ≤ slotPosition n := by
  simp only [slotPosition, HEADER_SIZE, SLOT_SIZE]
  omega

theorem slot_position_succ (n : Nat) : slotPosition (n + 1) = slotPosition n + 4 := by
  simp only [slotPosition, HEADER_SIZE, SLOT_SIZE]
  omega

section Pages

variable {page : Bytes} {slots : List (Nat × Nat)} {freeSpaceOffset : Nat}

theorem new_page_ok {pageSize : Nat} (hlow : 4 ≤ pageSize) (hhigh : pageSize < 65536) :
    ∃ page, newPage pageSize = .ok page ∧ Slotted page [] pageSize ∧
      page.length = pageSize := by
  have hlen : (replicate pageSize (0 : UInt8)).length = pageSize := length_replicate
  have hsize := @length_splice _ (replicate pageSize (0 : UInt8))
    (packLE 2 0 ++ packLE 2 pageSize) 0 (by rw [length_fields]; omega)
  refine ⟨splice (replicate pageSize 0) 0 (packLE 2 0 ++ packLE 2 pageSize), ?_, ?_, ?_⟩
  · rw [newPage, if_neg (by omega), Int.toNat_natCast, writeHeader,
      pack_into_ok (by omega) hhigh (by omega)]
  · refine ⟨⟨by omega, ?_, by simp, ?_⟩, ?_, by omega, by simp, List.Pairwise.nil, by simp⟩
    · exact unpack_pack (by omega) hhigh (by omega)
    · rw [hsize, hlen]
      exact hlow
    · exact hlow
  · rw [hsize, hlen]

theorem new_page_bounds {pageSize : Int} {page : Bytes} (h : newPage pageSize = .ok page) :
    4 ≤ pageSize ∧ pageSize < 65536 := by
  rw [newPage] at h
  split at h
  · cases h
  · rw [writeHeader, packInto, bind_eq_ok] at h
    obtain ⟨_, _, h⟩ := h
    rw [bind_eq_ok] at h
    obtain ⟨field, hfield, h⟩ := h
    have hhigh : pageSize.toNat < 65536 := by
      rw [packU] at hfield
      split at hfield
      · next hlt => exact hlt
      · cases hfield
    split at h
    · next hlow =>
        rw [length_replicate] at hlow
        omega
    · cases h

namespace Directory

variable (h : Directory page slots freeSpaceOffset)
include h

/-- Writing behind the directory leaves it. -/
theorem splice_data {position : Nat} {data : Bytes} (hlow : slotPosition slots.length ≤ position)
    (hin : position + data.length ≤ page.length) :
    Directory (splice page position data) slots freeSpaceOffset := by
  have hfour := four_le_slot_position slots.length
  refine ⟨?_, ?_, ?_, ?_⟩
  · rw [length_splice hin]
    exact h.size
  · rw [readHeader, unpack_splice hin (by omega)]
    exact h.header
  · intro i hi
    have hpos := slot_position_le hi
    rw [readSlot, unpack_splice hin (by omega)]
    exact h.slot i hi
  · rw [length_splice hin]
    exact h.position_le

theorem write_slot_ok {i offset length : Nat} (hi : i < slots.length) (hoffset : offset < 65536)
    (hlength : length < 65536) :
    ∃ page', writeSlot page i offset length = .ok page' ∧
      Directory page' (slots.set i (offset, length)) freeSpaceOffset ∧
      page'.length = page.length ∧
      ∀ start stop, slotPosition slots.length ≤ start →
        slice page' start stop = slice page start stop := by
  have hpos := slot_position_le hi
  have hfour := four_le_slot_position i
  have hin : slotPosition i + (packLE 2 offset ++ packLE 2 length).length ≤ page.length := by
    have := h.position_le
    rw [length_fields]
    omega
  have hend : slotPosition i + (packLE 2 offset ++ packLE 2 length).length
      = slotPosition i + 4 := by rw [length_fields]
  refine ⟨splice page (slotPosition i) (packLE 2 offset ++ packLE 2 length), ?_, ?_,
    length_splice hin, ?_⟩
  · rw [writeSlot, pack_into_ok hoffset hlength (by omega)]
  · refine ⟨?_, ?_, ?_, ?_⟩
    · rw [length_splice hin]
      exact h.size
    · rw [readHeader, unpack_splice hin (by omega), length_set]
      exact h.header
    · intro j hj
      rw [length_set] at hj
      by_cases hij : i = j
      · subst hij
        rw [getElem_set_self, readSlot, unpack_pack hoffset hlength (by omega)]
      · rw [getElem_set_ne hij, readSlot, unpack_splice hin]
        · exact h.slot j hj
        · rw [hend]
          simp only [slotPosition, HEADER_SIZE, SLOT_SIZE]
          omega
    · rw [length_splice hin, length_set]
      exact h.position_le
  · intro start stop hstart
    exact slice_splice_of_disjoint hin (by omega)

theorem write_header_ok {offset : Nat} (hoffset : offset < 65536) :
    ∃ page', writeHeader page slots.length offset = .ok page' ∧
      Directory page' slots offset ∧ page'.length = page.length ∧
      ∀ start stop, 4 ≤ start → slice page' start stop = slice page start stop := by
  have hfour := four_le_slot_position slots.length
  have hle := h.position_le
  have hsize := h.size
  have hslots : slots.length < 65536 := by
    simp only [slotPosition, HEADER_SIZE, SLOT_SIZE] at hle
    omega
  have hin : 0 + (packLE 2 slots.length ++ packLE 2 offset).length ≤ page.length := by
    rw [length_fields]
    omega
  refine ⟨splice page 0 (packLE 2 slots.length ++ packLE 2 offset), ?_, ?_, length_splice hin, ?_⟩
  · rw [writeHeader, pack_into_ok hslots hoffset (by omega)]
  · refine ⟨?_, ?_, ?_, ?_⟩
    · rw [length_splice hin]
      exact h.size
    · exact unpack_pack hslots hoffset (by omega)
    · intro i hi
      have hpos := four_le_slot_position i
      rw [readSlot, unpack_splice hin (by rw [length_fields]; omega)]
      exact h.slot i hi
    · rw [length_splice hin]
      exact h.position_le
  · intro start stop hstart
    exact slice_splice_of_disjoint hin (by rw [length_fields]; omega)

theorem grow_ok (offset length : Nat) (hroom : slotPosition (slots.length + 1) ≤ page.length)
    (hoffset : offset < 65536) (hlength : length < 65536) :
    ∃ page' page'', writeSlot page slots.length offset length = .ok page' ∧
      writeHeader page' (slots.length + 1) offset = .ok page'' ∧
      Directory page'' (slots ++ [(offset, length)]) offset ∧ page''.length = page.length ∧
      ∀ start stop, slotPosition (slots.length + 1) ≤ start →
        slice page'' start stop = slice page start stop := by
  have hsucc := slot_position_succ slots.length
  have hfour := four_le_slot_position slots.length
  have hsize := h.size
  have hslots : slots.length + 1 < 65536 := by
    simp only [slotPosition, HEADER_SIZE, SLOT_SIZE] at hroom
    omega
  have hin : slotPosition slots.length + (packLE 2 offset ++ packLE 2 length).length
      ≤ page.length := by
    rw [length_fields]
    omega
  have hlen : (splice page (slotPosition slots.length)
      (packLE 2 offset ++ packLE 2 length)).length = page.length := length_splice hin
  have hin' : 0 + (packLE 2 (slots.length + 1) ++ packLE 2 offset).length ≤
      (splice page (slotPosition slots.length) (packLE 2 offset ++ packLE 2 length)).length := by
    rw [length_fields]
    omega
  refine ⟨splice page (slotPosition slots.length) (packLE 2 offset ++ packLE 2 length),
    splice (splice page (slotPosition slots.length) (packLE 2 offset ++ packLE 2 length)) 0
      (packLE 2 (slots.length + 1) ++ packLE 2 offset), ?_, ?_, ?_, ?_, ?_⟩
  · rw [writeSlot, pack_into_ok hoffset hlength (by omega)]
  · rw [writeHeader, pack_into_ok hslots hoffset (by omega)]
  · refine ⟨?_, ?_, ?_, ?_⟩
    · rw [length_splice hin', hlen]
      exact hsize
    · rw [length_append, length_singleton]
      exact unpack_pack hslots hoffset (by omega)
    · intro i hi
      rw [length_append, length_singleton] at hi
      have hpos := four_le_slot_position i
      rw [readSlot, unpack_splice hin' (by rw [length_fields]; omega)]
      by_cases hlast : i < slots.length
      · have hbefore := slot_position_le hlast
        rw [unpack_splice hin (by omega), getElem_append_left hlast]
        exact h.slot i hlast
      · obtain rfl : i = slots.length := by omega
        rw [unpack_pack hoffset hlength (by omega)]
        simp
    · rw [length_splice hin', hlen, length_append, length_singleton]
      exact hroom
  · rw [length_splice hin', hlen]
  · intro start stop hstart
    rw [slice_splice_of_disjoint hin' (by rw [length_fields]; omega),
      slice_splice_of_disjoint hin (by rw [length_fields]; omega)]

theorem slot_count_eq : slotCount page = .ok slots.length := by
  rw [slotCount, h.header, ok_bind]

theorem free_space_eq :
    freeSpace page = .ok (freeSpaceOffset - slotPosition slots.length : Int) := by
  rw [freeSpace, h.header, ok_bind]
  simp [slotPosition]

theorem read_slots_eq : readSlots page = .ok slots := by
  have hmap : ∀ ks : List Nat, (∀ k ∈ ks, k < slots.length) →
      ks.mapM (readSlot page) = .ok (ks.map (fun k => slots.getD k (0, 0))) := by
    intro ks
    induction ks with
    | nil => intro _; rfl
    | cons k ks ih =>
        intro hks
        have hk := hks k (by simp)
        rw [mapM_cons, h.slot k hk, ok_bind, ih (fun j hj => hks j (by simp [hj])), ok_bind]
        simp [getD_eq_getElem?_getD, hk]
        rfl
  rw [readSlots, h.header, ok_bind]
  show (range slots.length).mapM (readSlot page) = .ok slots
  rw [hmap _ (fun k hk => mem_range.mp hk)]
  refine congrArg _ (ext_getElem? ?_)
  intro i
  by_cases hi : i < slots.length
  · simp [hi, getD_eq_getElem?_getD]
  · simp [hi]

end Directory

/-! ## Operations on a page in order -/

namespace Slotted

variable (h : Slotted page slots freeSpaceOffset)
include h

/-- The bytes of a live record lie behind the directory. -/
theorem position_le_offset {s : Nat × Nat} (hs : s ∈ slots) (hlive : s.1 ≠ TOMBSTONE_OFFSET) :
    slotPosition slots.length ≤ s.1 :=
  h.room.trans (h.inside s hs hlive).1

theorem insert_record_ok (data : Bytes)
    (hfit : slotPosition slots.length + 4 + data.length ≤ freeSpaceOffset) :
    ∃ page', insertRecord page data = .ok (some slots.length, page') ∧
      Slotted page' (slots ++ [(freeSpaceOffset - data.length, data.length)])
        (freeSpaceOffset - data.length) ∧
      records page' (slots ++ [(freeSpaceOffset - data.length, data.length)]) =
        records page slots ++ [some data] ∧
      page'.length = page.length := by
  have hbound := h.bound
  have hsize := h.size
  have hfour := four_le_slot_position slots.length
  have hsucc := slot_position_succ slots.length
  have hin : freeSpaceOffset - data.length + data.length ≤ page.length := by omega
  have hlen := length_splice hin
  obtain ⟨page₁, page', hslot, hheader, hdirectory, hlength, hslice⟩ :=
    (h.toDirectory.splice_data (by omega) hin).grow_ok (freeSpaceOffset - data.length)
      data.length (by omega) (by omega) (by omega)
  have hold : ∀ s ∈ slots, s.1 ≠ TOMBSTONE_OFFSET →
      slice page' s.1 (s.1 + s.2) = slice page s.1 (s.1 + s.2) := by
    intro s hs hlive
    have hinside := h.inside s hs hlive
    rw [hslice _ _ (by omega), slice_splice_of_disjoint hin (by omega)]
  have hnew : slice page' (freeSpaceOffset - data.length)
      (freeSpaceOffset - data.length + data.length) = data := by
    rw [hslice _ _ (by omega), slice_splice_self hin]
  refine ⟨page', ?_, ⟨hdirectory, ?_, ?_, ?_, ?_, ?_⟩, ?_, by omega⟩
  · have hroom : ¬ (data.length : Int) + SLOT_SIZE >
        freeSpaceOffset - slotPosition slots.length := by
      simp only [SLOT_SIZE]
      omega
    rw [insertRecord, h.free_space_eq, ok_bind, if_neg hroom, h.header, ok_bind]
    simp only [hslot, hheader, ok_bind]
  · rw [length_append, length_singleton]
    omega
  · omega
  · intro s hs hlive
    rw [mem_append, mem_singleton] at hs
    rcases hs with hs | rfl
    · have hinside := h.inside s hs hlive
      omega
    · simp only
      omega
  · refine pairwise_append.mpr ⟨h.disjoint, pairwise_singleton _ _, ?_⟩
    intro s hs t ht hlive _
    rw [mem_singleton] at ht
    subst ht
    have hinside := h.inside s hs hlive
    right
    simp only
    omega
  · intro s hs
    rw [mem_append, mem_singleton] at hs
    rcases hs with hs | rfl
    · exact h.short s hs
    · simp only
      omega
  · rw [records, records, map_append, map_singleton]
    refine congrArg₂ (· ++ ·) (map_congr_left ?_) ?_
    · intro s hs
      rw [record, record]
      split
      · rfl
      · next hlive => rw [hold s hs hlive]
    · rw [record, if_neg, hnew]
      simp only [TOMBSTONE_OFFSET]
      omega

/-- A record that does not fit changes nothing. -/
theorem insert_record_full {data : Bytes}
    (hfull : freeSpaceOffset < slotPosition slots.length + 4 + data.length) :
    insertRecord page data = .ok (none, page) := by
  rw [insertRecord, h.free_space_eq, ok_bind, if_pos]
  simp only [SLOT_SIZE]
  omega

theorem read_record_eq (slot : Int) :
    readRecord page slot =
      .ok (if slot < 0 then none else (records page slots)[slot.toNat]?.join) := by
  rw [readRecord, h.header, ok_bind]
  show (if slot < 0 ∨ slot ≥ (slots.length : Int) then Except.ok none else _) = _
  by_cases hneg : slot < 0
  · rw [if_pos (Or.inl hneg), if_pos hneg]
  · rw [if_neg hneg]
    by_cases hin : slot.toNat < slots.length
    · rw [if_neg (by omega), h.slot _ hin, ok_bind, records, getElem?_map,
        getElem?_eq_getElem hin]
      simp only [Option.map_some, Option.join_some, record]
      split <;> rfl
    · rw [if_pos (by omega), records, getElem?_map, getElem?_eq_none (by omega)]
      rfl

theorem delete_record_ok {i : Nat} (hi : i < slots.length)
    (hlive : (slots[i]).1 ≠ TOMBSTONE_OFFSET) :
    ∃ page', deleteRecord page i = .ok (true, page') ∧
      Slotted page' (slots.set i (TOMBSTONE_OFFSET, (slots[i]).2)) freeSpaceOffset ∧
      records page' (slots.set i (TOMBSTONE_OFFSET, (slots[i]).2)) =
        (records page slots).set i none ∧
      page'.length = page.length := by
  obtain ⟨page', hslot, hdirectory, hlength, hslice⟩ :=
    h.toDirectory.write_slot_ok hi (show TOMBSTONE_OFFSET < 65536 by decide)
      (h.short _ (getElem_mem hi))
  have hmem : ∀ s ∈ slots.set i (TOMBSTONE_OFFSET, (slots[i]).2),
      s = (TOMBSTONE_OFFSET, (slots[i]).2) ∨ s ∈ slots :=
    fun s hs => (mem_or_eq_of_mem_set hs).symm
  refine ⟨page', ?_, ⟨hdirectory, ?_, ?_, ?_, ?_, ?_⟩, ?_, hlength⟩
  · rw [deleteRecord, h.header, ok_bind]
    show (if (i : Int) < 0 ∨ (i : Int) ≥ (slots.length : Int) then _ else _) = _
    rw [if_neg (by omega), Int.toNat_natCast, h.slot i hi, ok_bind]
    simp only [if_neg hlive, hslot, ok_bind]
  · rw [length_set]
    exact h.room
  · rw [hlength]
    exact h.bound
  · intro s hs hs'
    rw [hlength]
    rcases hmem s hs with rfl | hs
    · exact absurd rfl hs'
    · exact h.inside s hs hs'
  · rw [pairwise_iff_getElem]
    intro a b ha hb hab
    rw [length_set] at ha hb
    rw [getElem_set, getElem_set]
    split
    · exact fun hdead => absurd rfl hdead
    · split
      · exact fun _ hdead => absurd rfl hdead
      · exact pairwise_iff_getElem.mp h.disjoint a b ha hb hab
  · intro s hs
    rcases hmem s hs with rfl | hs
    · exact h.short slots[i] (getElem_mem hi)
    · exact h.short s hs
  · have hdead : record page' (TOMBSTONE_OFFSET, (slots[i]).2) = none := by
      rw [record, if_pos rfl]
    rw [records, records, map_set, hdead]
    refine congrArg (fun rs => set rs i none) (map_congr_left ?_)
    intro s hs
    rw [record, record]
    split
    · rfl
    · next hs' => rw [hslice _ _ (h.position_le_offset hs hs')]

theorem delete_record_none {slot : Int}
    (hnone : slot < 0 ∨ (records page slots)[slot.toNat]?.join = none) :
    deleteRecord page slot = .ok (false, page) := by
  rw [deleteRecord, h.header, ok_bind]
  show (if slot < 0 ∨ slot ≥ (slots.length : Int) then _ else _) = _
  by_cases hout : slot < 0 ∨ slot ≥ (slots.length : Int)
  · rw [if_pos hout]
  · have hin : slot.toNat < slots.length := by omega
    rw [if_neg hout, h.slot _ hin, ok_bind]
    rcases hnone with hneg | hnone
    · omega
    · rw [records, getElem?_map, getElem?_eq_getElem hin] at hnone
      simp only [Option.map_some, Option.join_some, record] at hnone
      split at hnone
      · next hdead => simp only [if_pos hdead]
      · cases hnone

end Slotted

/-! ## Compaction -/

/-- What repacking the entries leaves: the directory with the entries moved below the
cursor, each record as it was in the snapshot. -/
structure Repacked (snapshot page : Bytes) (cursor : Nat) (slots : List (Nat × Nat))
    (freeSpaceOffset : Nat) (entries : List (Nat × Nat × Nat)) (page' : Bytes)
    (cursor' : Nat) (slots' : List (Nat × Nat)) : Prop where
  directory : Directory page' slots' freeSpaceOffset
  length_page : page'.length = page.length
  length_slots : slots'.length = slots.length
  kept : ∀ i, i ∉ entries.map Prod.fst → slots'[i]? = slots[i]?
  moved : ∀ e ∈ entries, ∃ offset, slots'[e.1]? = some (offset, e.2.2) ∧ cursor' ≤ offset ∧
    offset + e.2.2 ≤ cursor ∧
    slice page' offset (offset + e.2.2) = slice snapshot e.2.1 (e.2.1 + e.2.2)
  apart : ∀ e ∈ entries, ∀ f ∈ entries, e.1 ≠ f.1 → ∀ s t, slots'[e.1]? = some s →
    slots'[f.1]? = some t → s.1 + s.2 ≤ t.1 ∨ t.1 + t.2 ≤ s.1
  frame : ∀ start stop, cursor ≤ start → slice page' start stop = slice page start stop

/-- The records are repacked one after the other: each moves up, so that those still to
come stay below the cursor. -/
theorem repack_all (snapshot : Bytes) {base : Nat} :
    ∀ (entries : List (Nat × Nat × Nat)) {page : Bytes} {cursor : Nat}
      {slots : List (Nat × Nat)},
      Directory page slots freeSpaceOffset → slotPosition slots.length ≤ base →
      page.length = snapshot.length → cursor ≤ page.length → base ≤ cursor →
      (∀ e ∈ entries, e.1 < slots.length) → (entries.map Prod.fst).Nodup →
      entries.Pairwise (fun a b => b.2.1 ≤ a.2.1) →
      entries.Pairwise (fun a b => a.2.1 + a.2.2 ≤ b.2.1 ∨ b.2.1 + b.2.2 ≤ a.2.1) →
      (∀ e ∈ entries, base ≤ e.2.1 ∧ e.2.1 + e.2.2 ≤ cursor) →
      ∃ page' slots',
        entries.foldlM (repack snapshot) (page, cursor) =
          .ok (page', cursor - (entries.map (fun e => e.2.2)).sum) ∧
        base + (entries.map (fun e => e.2.2)).sum ≤ cursor ∧
        Repacked snapshot page cursor slots freeSpaceOffset entries page'
          (cursor - (entries.map (fun e => e.2.2)).sum) slots' := by
  intro entries
  induction entries with
  | nil =>
      intro page cursor slots hdirectory _ _ _ hbase _ _ _ _ _
      refine ⟨page, slots, rfl, by simpa using hbase, hdirectory, rfl, rfl, ?_, ?_, ?_, ?_⟩
      · exact fun _ _ => rfl
      · exact fun e he => absurd he not_mem_nil
      · exact fun e he => absurd he not_mem_nil
      · exact fun _ _ _ => rfl
  | cons e entries ih =>
      intro page cursor slots hdirectory hpos hlen hcursor hbase hslots hnodup hsorted happart
        hinside
      obtain ⟨hefirst, hesorted⟩ := pairwise_cons.mp hsorted
      obtain ⟨heapart, hapart⟩ := pairwise_cons.mp happart
      rw [map_cons, nodup_cons] at hnodup
      obtain ⟨hefresh, hnodup⟩ := hnodup
      obtain ⟨hebase, heend⟩ := hinside e (by simp)
      have hsize := hdirectory.size
      have hdata : (slice snapshot e.2.1 (e.2.1 + e.2.2)).length = e.2.2 := by
        rw [length_slice (by omega)]
        omega
      have hin : cursor - e.2.2 + (slice snapshot e.2.1 (e.2.1 + e.2.2)).length
          ≤ page.length := by
        rw [hdata]
        omega
      have hspliced := length_splice hin
      obtain ⟨page₁, hslot, hdirectory₁, hlength₁, hslice₁⟩ :=
        (hdirectory.splice_data (show _ ≤ cursor - e.2.2 by omega) hin).write_slot_ok
          (hslots e (by simp)) (show cursor - e.2.2 < 65536 by omega)
          (show e.2.2 < 65536 by omega)
      -- The entries still to come end below the bytes that were just written.
      have hbelow : ∀ f ∈ entries, base ≤ f.2.1 ∧ f.2.1 + f.2.2 ≤ cursor - e.2.2 := by
        intro f hf
        have hfirst := hefirst f hf
        have hapartf := heapart f hf
        have hinsidef := hinside f (by simp [hf])
        omega
      obtain ⟨page', slots', hrun, hsum, hrest⟩ := ih hdirectory₁ (by rwa [length_set])
        (by omega) (show cursor - e.2.2 ≤ page₁.length by omega) (by omega)
        (fun f hf => by rw [length_set]; exact hslots f (by simp [hf])) hnodup hesorted
        hapart hbelow
      have hstep : repack snapshot (page, cursor) e = .ok (page₁, cursor - e.2.2) := by
        rw [repack]
        simp only [hslot, ok_bind]
      have hslot' : slots'[e.1]? = some (cursor - e.2.2, e.2.2) := by
        rw [hrest.kept e.1 hefresh, getElem?_set_self (hslots e (by simp))]
      have htotal : ((e :: entries).map (fun e => e.2.2)).sum
          = e.2.2 + (entries.map (fun e => e.2.2)).sum := by
        rw [map_cons, sum_cons]
      refine ⟨page', slots', ?_, by omega, hrest.directory, ?_, ?_, ?_, ?_, ?_, ?_⟩
      · rw [foldlM_cons, hstep, ok_bind, hrun, htotal, Nat.sub_sub]
      · rw [hrest.length_page]
        omega
      · rw [hrest.length_slots, length_set]
      · intro i hi
        rw [map_cons, mem_cons, not_or] at hi
        rw [hrest.kept i hi.2, getElem?_set_ne (fun h => hi.1 h.symm)]
      · intro f hf
        rcases mem_cons.mp hf with rfl | hf
        · refine ⟨cursor - f.2.2, hslot', by omega, by omega, ?_⟩
          rw [hrest.frame _ _ (by omega), hslice₁ _ _ (by omega)]
          have hself := slice_splice_self hin
          rwa [hdata] at hself
        · obtain ⟨offset, hf', hlow, hhigh, hbytes⟩ := hrest.moved f hf
          exact ⟨offset, hf', by omega, by omega, hbytes⟩
      · intro f hf g hg hfg s t hs ht
        rcases mem_cons.mp hf with hfe | hf'
        · rcases mem_cons.mp hg with hge | hg'
          · exact absurd (hfe.trans hge.symm ▸ rfl) hfg
          · obtain ⟨offset, hgslot, _, hhigh, _⟩ := hrest.moved g hg'
            rw [hfe, hslot', Option.some.injEq] at hs
            rw [hgslot, Option.some.injEq] at ht
            subst hs
            subst ht
            right
            exact hhigh
        · rcases mem_cons.mp hg with hge | hg'
          · obtain ⟨offset, hfslot, _, hhigh, _⟩ := hrest.moved f hf'
            rw [hge, hslot', Option.some.injEq] at ht
            rw [hfslot, Option.some.injEq] at hs
            subst hs
            subst ht
            left
            exact hhigh
          · exact hrest.apart f hf' g hg' hfg s t hs ht
      · intro start stop hstart
        rw [hrest.frame start stop (by omega), hslice₁ start stop (by omega),
          slice_splice_of_disjoint hin (by omega)]

namespace Slotted

theorem mem_live_entries {e : Nat × Nat × Nat} :
    e ∈ liveEntries slots ↔ slots[e.1]? = some e.2 ∧ e.2.1 ≠ TOMBSTONE_OFFSET := by
  rw [liveEntries, mem_mergeSort, mem_filter, mem_mapIdx]
  constructor
  · rintro ⟨⟨i, hi, rfl⟩, hlive⟩
    exact ⟨getElem?_eq_getElem hi, by simpa using hlive⟩
  · rintro ⟨hslot, hlive⟩
    obtain ⟨hi, hslot⟩ := List.getElem?_eq_some_iff.mp hslot
    exact ⟨⟨e.1, hi, by rw [hslot]⟩, by simpa using hlive⟩

theorem nodup_live_entries : ((liveEntries slots).map Prod.fst).Nodup := by
  have hperm := (mergeSort_perm ((slots.mapIdx (fun slot s => (slot, s.1, s.2))).filter
    (fun entry => entry.2.1 ≠ TOMBSTONE_OFFSET)) (fun a b => b.2.1 ≤ a.2.1)).map Prod.fst
  rw [liveEntries, hperm.nodup_iff]
  refine List.Nodup.sublist (filter_sublist.map Prod.fst) ?_
  have hrange : (slots.mapIdx (fun slot s => (slot, s.1, s.2))).map Prod.fst =
      range slots.length := by
    refine ext_getElem? ?_
    intro i
    by_cases hi : i < slots.length
    · simp [hi]
    · simp [hi]
  rw [hrange]
  exact nodup_range

/-- Entries with the higher offset come first. -/
theorem sorted_live_entries : (liveEntries slots).Pairwise (fun a b => b.2.1 ≤ a.2.1) := by
  have h := @List.pairwise_mergeSort _ (fun a b : Nat × Nat × Nat => decide (b.2.1 ≤ a.2.1))
    (fun a b c hab hbc => by
      simp only [decide_eq_true_eq] at hab hbc ⊢
      omega)
    (fun a b => by
      simp only [Bool.or_eq_true, decide_eq_true_eq]
      omega)
    ((slots.mapIdx (fun slot s => (slot, s.1, s.2))).filter
      (fun entry => entry.2.1 ≠ TOMBSTONE_OFFSET))
  exact h.imp (fun hab => by simpa using hab)

theorem live_bytes_eq (h : Slotted page slots freeSpaceOffset) :
    liveBytes page = .ok (slots.map liveLength).sum := by
  have hsum : ∀ ss : List (Nat × Nat),
      ((ss.filter (fun s => s.1 ≠ TOMBSTONE_OFFSET)).map Prod.snd).sum
        = (ss.map liveLength).sum := by
    intro ss
    induction ss with
    | nil => rfl
    | cons s ss ih =>
        rw [filter_cons, map_cons, sum_cons, ← ih, liveLength]
        by_cases hs : s.1 = TOMBSTONE_OFFSET <;> simp [hs]
  rw [liveBytes, h.read_slots_eq, ok_bind, hsum]

theorem sum_live_entries :
    ((liveEntries slots).map (fun e => e.2.2)).sum = (slots.map liveLength).sum := by
  have hperm := (mergeSort_perm ((slots.mapIdx (fun slot s => (slot, s.1, s.2))).filter
    (fun entry => entry.2.1 ≠ TOMBSTONE_OFFSET)) (fun a b => b.2.1 ≤ a.2.1)).map (fun e => e.2.2)
  have hmap : ∀ es : List (Nat × Nat × Nat),
      ((es.filter (fun e => e.2.1 ≠ TOMBSTONE_OFFSET)).map (fun e => e.2.2)).sum
        = ((es.map Prod.snd).map liveLength).sum := by
    intro es
    induction es with
    | nil => rfl
    | cons e es ih =>
        rw [filter_cons, map_cons, map_cons, sum_cons, ← ih, liveLength]
        by_cases he : e.2.1 = TOMBSTONE_OFFSET <;> simp [he]
  have hsnd : (slots.mapIdx (fun slot s => (slot, s.1, s.2))).map Prod.snd = slots := by
    refine ext_getElem? ?_
    intro i
    by_cases hi : i < slots.length
    · simp [hi]
    · simp [hi]
  rw [liveEntries, hperm.sum_nat, hmap, hsnd]

theorem compact_ok (h : Slotted page slots freeSpaceOffset) :
    ∃ page' slots', compact page = .ok page' ∧
      Slotted page' slots' (page.length - (slots.map liveLength).sum) ∧
      records page' slots' = records page slots ∧
      slots'.map liveLength = slots.map liveLength ∧ page'.length = page.length ∧
      freeSpaceOffset + (slots.map liveLength).sum ≤ page.length := by
  have hentry : ∀ e ∈ liveEntries slots,
      slots[e.1]? = some e.2 ∧ e.2.1 ≠ TOMBSTONE_OFFSET ∧ e.2 ∈ slots := by
    intro e he
    obtain ⟨hslot, hlive⟩ := mem_live_entries.mp he
    exact ⟨hslot, hlive, mem_of_getElem? hslot⟩
  have happart : (liveEntries slots).Pairwise
      (fun a b => a.2.1 + a.2.2 ≤ b.2.1 ∨ b.2.1 + b.2.2 ≤ a.2.1) := by
    refine List.Pairwise.imp_of_mem ?_ (pairwise_map.mp nodup_live_entries)
    intro a b ha hb hab
    obtain ⟨haslot, halive, _⟩ := hentry a ha
    obtain ⟨hbslot, hblive, _⟩ := hentry b hb
    obtain ⟨hai, haeq⟩ := List.getElem?_eq_some_iff.mp haslot
    obtain ⟨hbi, hbeq⟩ := List.getElem?_eq_some_iff.mp hbslot
    rcases Nat.lt_or_gt_of_ne hab with hlt | hlt
    · have hdisjoint := pairwise_iff_getElem.mp h.disjoint a.1 b.1 hai hbi hlt
      rw [haeq, hbeq] at hdisjoint
      exact hdisjoint halive hblive
    · have hdisjoint := pairwise_iff_getElem.mp h.disjoint b.1 a.1 hbi hai hlt
      rw [haeq, hbeq] at hdisjoint
      exact (hdisjoint hblive halive).symm
  obtain ⟨page₁, slots', hrun, hsum, hrepacked⟩ := repack_all page (liveEntries slots)
    h.toDirectory h.room rfl le_rfl h.bound
    (fun e he => (List.getElem?_eq_some_iff.mp (hentry e he).1).1) nodup_live_entries
    sorted_live_entries happart
    (fun e he => h.inside e.2 (hentry e he).2.2 (hentry e he).2.1)
  rw [sum_live_entries] at hrun hsum hrepacked
  have hsize := h.size
  have hroom := h.room
  obtain ⟨page', hheader, hdirectory, hlength, hslice⟩ := hrepacked.directory.write_header_ok
    (show page.length - (slots.map liveLength).sum < 65536 by omega)
  -- Every slot is either a tombstone that stayed or the new place of a live record.
  have hcases : ∀ i (hi : i < slots.length),
      (slots[i]).1 = TOMBSTONE_OFFSET ∧ slots'[i]? = some slots[i] ∨
      (slots[i]).1 ≠ TOMBSTONE_OFFSET ∧ ∃ offset, slots'[i]? = some (offset, (slots[i]).2) ∧
        page.length - (slots.map liveLength).sum ≤ offset ∧
        offset + (slots[i]).2 ≤ page.length ∧
        slice page' offset (offset + (slots[i]).2) =
          slice page (slots[i]).1 ((slots[i]).1 + (slots[i]).2) := by
    intro i hi
    by_cases hlive : (slots[i]).1 = TOMBSTONE_OFFSET
    · left
      refine ⟨hlive, ?_⟩
      rw [hrepacked.kept i, getElem?_eq_getElem hi]
      intro hmem
      obtain ⟨e, he, rfl⟩ := mem_map.mp hmem
      obtain ⟨heslot, helive, _⟩ := hentry e he
      rw [getElem?_eq_getElem hi, Option.some.injEq] at heslot
      exact helive (heslot ▸ hlive)
    · right
      obtain ⟨offset, hslot, hlow, hhigh, hbytes⟩ := hrepacked.moved (i, slots[i])
        (mem_live_entries.mpr ⟨getElem?_eq_getElem hi, hlive⟩)
      have hfour := four_le_slot_position slots.length
      refine ⟨hlive, offset, hslot, hlow, hhigh, ?_⟩
      rw [hslice _ _ (by omega)]
      exact hbytes
  have hcount := hrepacked.length_slots
  have hlen : page'.length = page.length := by rw [hlength, hrepacked.length_page]
  have hget : ∀ i (hi : i < slots'.length), ∀ s, slots'[i]? = some s → slots'[i] = s := by
    intro i hi s hs
    rw [getElem?_eq_getElem hi, Option.some.injEq] at hs
    exact hs
  refine ⟨page', slots', ?_, ⟨hdirectory, ?_, ?_, ?_, ?_, ?_⟩, ?_, ?_, hlen, hsum⟩
  · rw [compact, h.header, ok_bind]
    simp only [h.read_slots_eq, ok_bind, hrun]
    rw [← hcount]
    exact hheader
  · rw [hcount]
    omega
  · omega
  · intro s hs hlive
    obtain ⟨i, hi, rfl⟩ := getElem_of_mem hs
    rcases hcases i (by omega) with ⟨hdead, hslot⟩ | ⟨_, offset, hslot, hlow, hhigh, _⟩
    · rw [hget i hi _ hslot] at hlive
      exact absurd hdead hlive
    · rw [hget i hi _ hslot, hlen]
      exact ⟨hlow, hhigh⟩
  · rw [pairwise_iff_getElem]
    intro i j hi hj hij hilive hjlive
    rcases hcases i (by omega) with ⟨hdead, hislot⟩ | ⟨hi', offset, hislot, _⟩
    · rw [hget i hi _ hislot] at hilive
      exact absurd hdead hilive
    · rcases hcases j (by omega) with ⟨hdead, hjslot⟩ | ⟨hj', offset', hjslot, _⟩
      · rw [hget j hj _ hjslot] at hjlive
        exact absurd hdead hjlive
      · rw [hget i hi _ hislot, hget j hj _ hjslot]
        exact hrepacked.apart (i, slots[i])
          (mem_live_entries.mpr ⟨getElem?_eq_getElem (by omega), hi'⟩) (j, slots[j])
          (mem_live_entries.mpr ⟨getElem?_eq_getElem (by omega), hj'⟩)
          (fun heq => by omega) _ _ hislot hjslot
  · intro s hs
    obtain ⟨i, hi, rfl⟩ := getElem_of_mem hs
    have hshort := h.short slots[i] (getElem_mem (by omega))
    rcases hcases i (by omega) with ⟨_, hslot⟩ | ⟨_, offset, hslot, _⟩
    · rw [hget i hi _ hslot]
      exact hshort
    · rw [hget i hi _ hslot]
      exact hshort
  · refine ext_getElem (by simp [records, hcount]) ?_
    intro i hi hi'
    rw [records, length_map] at hi hi'
    simp only [records, getElem_map]
    rcases hcases i hi' with ⟨hdead, hslot⟩ | ⟨hlive, offset, hslot, hlow, _, hbytes⟩
    · rw [hget i hi _ hslot, record, record, if_pos hdead, if_pos hdead]
    · have hfour := four_le_slot_position slots.length
      rw [hget i hi _ hslot, record, record, if_neg hlive, if_neg, hbytes]
      simp only [TOMBSTONE_OFFSET]
      omega
  · refine ext_getElem (by simp [hcount]) ?_
    intro i hi hi'
    rw [length_map] at hi hi'
    simp only [getElem_map]
    rcases hcases i hi' with ⟨_, hslot⟩ | ⟨hlive, offset, hslot, hlow, _, _⟩
    · rw [hget i hi _ hslot]
    · have hfour := four_le_slot_position slots.length
      rw [hget i hi _ hslot, liveLength, liveLength, if_neg hlive, if_neg]
      simp only [TOMBSTONE_OFFSET]
      omega

end Slotted
end Pages

/-! ## The records of a page -/

/-- The page holds these records, slot by slot; none stands for a tombstone. -/
def Holds (page : Bytes) (rs : List (Option Bytes)) : Prop :=
  ∃ slots freeSpaceOffset, Slotted page slots freeSpaceOffset ∧ records page slots = rs

def recordAt (rs : List (Option Bytes)) (slot : Int) : Option Bytes :=
  if slot < 0 then none else rs[slot.toNat]?.join

/-- The records without the one at a slot. -/
def tombstone (rs : List (Option Bytes)) (slot : Int) : List (Option Bytes) :=
  if slot < 0 then rs else rs.set slot.toNat none

/-- The bytes of the records. -/
def payload (rs : List (Option Bytes)) : Nat := (rs.map (fun r => (r.getD []).length)).sum

variable {rs : List (Option Bytes)}

theorem recordAt_of_length_le {slot : Int} (h : rs.length ≤ slot) : recordAt rs slot = none := by
  rw [recordAt]
  split
  · rfl
  · rw [getElem?_eq_none (by omega)]
    rfl

theorem tombstone_of_none {slot : Int} (h : recordAt rs slot = none) : tombstone rs slot = rs := by
  rw [recordAt] at h
  rw [tombstone]
  split at h
  · next hneg => rw [if_pos hneg]
  · next hneg =>
      rw [if_neg hneg]
      by_cases hin : slot.toNat < rs.length
      · rw [getElem?_eq_getElem hin, Option.join_some] at h
        rw [← h]
        exact set_getElem_self hin
      · exact set_eq_of_length_le (by omega)

namespace Slotted

variable {page : Bytes} {slots : List (Nat × Nat)} {freeSpaceOffset : Nat}

theorem payload_records (h : Slotted page slots freeSpaceOffset) :
    payload (records page slots) = (slots.map liveLength).sum := by
  rw [payload, records, map_map]
  refine congrArg sum (map_congr_left ?_)
  intro s hs
  rw [Function.comp_apply, record, liveLength]
  split
  · rfl
  · next hlive =>
      rw [Option.getD_some, length_slice (h.inside s hs hlive).2]
      omega

end Slotted

namespace Holds

variable {page : Bytes} {rs : List (Option Bytes)}

theorem newPage {pageSize : Int} (h : newPage pageSize = .ok page) :
    Holds page [] ∧ (page.length : Int) = pageSize := by
  obtain ⟨hlow, hhigh⟩ := new_page_bounds h
  obtain ⟨n, rfl⟩ : ∃ n : Nat, pageSize = n := ⟨pageSize.toNat, by omega⟩
  obtain ⟨page', hpage', hslotted, hlen⟩ :=
    @new_page_ok n (by omega) (by omega)
  obtain rfl : page = page' := by
    rw [h] at hpage'
    exact Except.ok.inj hpage'
  exact ⟨⟨[], n, hslotted, rfl⟩, by rw [hlen]⟩

theorem slotCount (h : Holds page rs) : slotCount page = .ok rs.length := by
  obtain ⟨slots, offset, hslotted, rfl⟩ := h
  rw [hslotted.slot_count_eq, records, length_map]

theorem readRecord (h : Holds page rs) (slot : Int) :
    readRecord page slot = .ok (recordAt rs slot) := by
  obtain ⟨slots, offset, hslotted, rfl⟩ := h
  exact hslotted.read_record_eq slot

theorem deleteRecord (h : Holds page rs) (slot : Int) :
    ∃ page', deleteRecord page slot = .ok ((recordAt rs slot).isSome, page') ∧
      Holds page' (tombstone rs slot) ∧ page'.length = page.length := by
  obtain ⟨slots, offset, hslotted, rfl⟩ := h
  by_cases hnone : recordAt (records page slots) slot = none
  · refine ⟨page, ?_, ?_, rfl⟩
    · rw [hnone]
      refine hslotted.delete_record_none ?_
      rw [recordAt] at hnone
      split at hnone
      · next hneg => exact Or.inl hneg
      · exact Or.inr hnone
    · rw [tombstone_of_none hnone]
      exact ⟨slots, offset, hslotted, rfl⟩
  · obtain ⟨n, rfl⟩ : ∃ n : Nat, slot = n := by
      refine ⟨slot.toNat, ?_⟩
      by_contra hne
      exact hnone (by rw [recordAt, if_pos (by omega)])
    have hneg : ¬ (n : Int) < 0 := by omega
    rw [recordAt, if_neg hneg, Int.toNat_natCast, records, getElem?_map] at hnone
    have hn : n < slots.length := by
      by_contra hge
      rw [getElem?_eq_none (by omega)] at hnone
      exact hnone rfl
    rw [getElem?_eq_getElem hn, Option.map_some, Option.join_some] at hnone
    have hlive : (slots[n]).1 ≠ TOMBSTONE_OFFSET := by
      intro hdead
      rw [record, if_pos hdead] at hnone
      exact hnone rfl
    obtain ⟨page', hdelete, hslotted', hrecords, hlen⟩ := hslotted.delete_record_ok hn hlive
    refine ⟨page', ?_, ?_, hlen⟩
    · rw [hdelete, recordAt, if_neg hneg, Int.toNat_natCast, records, getElem?_map,
        getElem?_eq_getElem hn, Option.map_some, Option.join_some,
        Option.isSome_iff_ne_none.mpr hnone]
    · rw [tombstone, if_neg hneg, Int.toNat_natCast, ← hrecords]
      exact ⟨_, _, hslotted', rfl⟩

/-- What is free and what a compaction would free, and the insert that fits exactly where
the free bytes suffice. -/
theorem insertRecord (h : Holds page rs) :
    ∃ free reclaimable : Nat, freeSpace page = .ok free ∧
      reclaimableSpace page = .ok reclaimable ∧
      free + reclaimable + slotPosition rs.length + payload rs = page.length ∧
      (∀ data, free < data.length + SLOT_SIZE → insertRecord page data = .ok (none, page)) ∧
      ∀ data, data.length + SLOT_SIZE ≤ free →
        ∃ page', insertRecord page data = .ok (some rs.length, page') ∧
          Holds page' (rs ++ [some data]) ∧ page'.length = page.length := by
  obtain ⟨slots, offset, hslotted, rfl⟩ := h
  have hroom := hslotted.room
  have hbound := hslotted.bound
  have hcount : (records page slots).length = slots.length := by rw [records, length_map]
  obtain ⟨_, _, _, _, _, _, _, hlive⟩ := hslotted.compact_ok
  refine ⟨offset - slotPosition slots.length,
    page.length - offset - (slots.map liveLength).sum, ?_, ?_, ?_, ?_, ?_⟩
  · rw [hslotted.free_space_eq]
    congr 1
    omega
  · rw [reclaimableSpace, hslotted.header, ok_bind]
    simp only [hslotted.live_bytes_eq, ok_bind]
    congr 1
    omega
  · rw [hslotted.payload_records, hcount]
    omega
  · intro data hfull
    refine hslotted.insert_record_full ?_
    simp only [SLOT_SIZE] at hfull
    omega
  · intro data hfit
    simp only [SLOT_SIZE] at hfit
    obtain ⟨page', hinsert, hslotted', hrecords, hlen⟩ :=
      hslotted.insert_record_ok data (by omega)
    rw [hcount]
    refine ⟨page', hinsert, ?_, hlen⟩
    rw [← hrecords]
    exact ⟨_, _, hslotted', rfl⟩

theorem compact (h : Holds page rs) :
    ∃ page', compact page = .ok page' ∧ Holds page' rs ∧ page'.length = page.length ∧
      reclaimableSpace page' = .ok 0 := by
  obtain ⟨slots, offset, hslotted, rfl⟩ := h
  obtain ⟨page', slots', hcompact, hslotted', hrecords, hlengths, hlen, hlive⟩ :=
    hslotted.compact_ok
  refine ⟨page', hcompact, ⟨slots', _, hslotted', hrecords⟩, hlen, ?_⟩
  rw [reclaimableSpace, hslotted'.header, ok_bind]
  simp only [hslotted'.live_bytes_eq, ok_bind]
  rw [hlengths, hlen]
  congr 1
  omega

end Holds

end SoupDB.SlottedPage
