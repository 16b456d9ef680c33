import SoupDB.Common.Struct
import SoupDB.Plugins.Postings

/-!
# SoupDB: the file of postings lists

A postings list is a count and as many pairs of a document and a frequency.  Lists are appended
to the file; where a list stands is kept elsewhere.

`ListStands file offset postings` says that the list stands at an offset of the file.  A list that
is appended stands at the end (`append_ok`), lists stay where they stand (`ListStands.append`), and
they are read there as they were written (`ListStands.read`).
-/

namespace SoupDB

open List

/-- Append-only binary lists; offsets and lengths belong to the term dictionary. -/
structure PostingsFile where
  file : Bytes
  writable : Bool

namespace PostingsFile

def HEADER : Struct (Bytes × Nat) := (Struct.raw 4).pair (Struct.unsigned 4)
def COUNT : Struct Nat := Struct.unsigned 8
def PAIR : Struct Posting := (Struct.unsigned 8).pair (Struct.unsigned 8)

/-- `b"SPST"`. -/
def MAGIC : Bytes := [83, 80, 83, 84]
def VERSION : Nat := 1

def validateFrom (previous : Int) : List Posting → Except PyError Unit
  | [] => .ok ()
  | (docId, tf) :: postings =>
      if ¬ (previous < docId ∧ docId < 2 ^ 64) then
        .error (.ValueError "posting document IDs must be ordered unique uint64 values")
      else if ¬ (0 < tf ∧ tf < 2 ^ 64) then
        .error (.ValueError "posting frequencies must be positive uint64 values")
      else validateFrom docId postings

def validate (postings : List Posting) : Except PyError Unit := validateFrom (-1) postings

def create : Except PyError PostingsFile := do
  let header ← HEADER.pack (MAGIC, VERSION)
  .ok ⟨header, true⟩

def load (file : Bytes) : Except PyError PostingsFile := do
  let header ← HEADER.pack (MAGIC, VERSION)
  if slice file 0 HEADER.size ≠ header then
    .error (.ValueError "invalid postings magic or version")
  else .ok ⟨file, false⟩

/-- Append a list; its offset and its length are returned. -/
def append (p : PostingsFile) (postings : List Posting) :
    Except PyError (PostingsFile × Nat × Nat) :=
  if p.writable = false then .error (.ValueError "postings file is not writable")
  else do
    validate postings
    let count ← COUNT.pack postings.length
    let pairs ← PAIR.packs postings.length postings
    .ok (⟨p.file ++ (count ++ pairs), p.writable⟩, p.file.length,
      COUNT.size + postings.length * PAIR.size)

def read (p : PostingsFile) (offset length df : Nat) : Except PyError (List Posting) :=
  if offset < HEADER.size ∨ length ≠ COUNT.size + df * PAIR.size then
    .error (.ValueError "invalid postings offset, length or document frequency")
  else if p.file.length < offset + length then
    .error (.ValueError "postings list exceeds file bounds")
  else if COUNT.unpack (slice p.file offset (offset + COUNT.size)) ≠ df then
    .error (.ValueError "postings count differs from dictionary frequency")
  else
    let start := offset + COUNT.size
    let data := slice p.file start (start + df * PAIR.size)
    if data.length ≠ df * PAIR.size then .error (.ValueError "truncated postings list")
    else do
      let postings := PAIR.unpacks df data
      validate postings
      .ok postings

/-! ## Lists that stand in the file -/

/-- The documents ascend, and all numbers have eight bytes. -/
structure Valid (postings : List Posting) : Prop where
  ascending : (postings.map Prod.fst).Pairwise (· < ·)
  fields : ∀ p ∈ postings, p.1 < 2 ^ 64 ∧ 0 < p.2 ∧ p.2 < 2 ^ 64
  count : postings.length < 2 ^ 64

section Lists

variable {postings : List Posting} {file more : Bytes} {offset : Nat}

theorem validateFrom_ok {previous : Int} (hfirst : ∀ p ∈ postings, previous < p.1)
    (hascending : (postings.map Prod.fst).Pairwise (· < ·))
    (hfields : ∀ p ∈ postings, p.1 < 2 ^ 64 ∧ 0 < p.2 ∧ p.2 < 2 ^ 64) :
    validateFrom previous postings = .ok () := by
  induction postings generalizing previous with
  | nil => rfl
  | cons p postings ih =>
      obtain ⟨docId, tf⟩ := p
      rw [map_cons, pairwise_cons] at hascending
      obtain ⟨hdoc, hpos, htf⟩ := hfields (docId, tf) mem_cons_self
      have hprevious : previous < docId := hfirst (docId, tf) mem_cons_self
      rw [validateFrom, if_neg (not_not.mpr ⟨hprevious, hdoc⟩),
        if_neg (not_not.mpr ⟨hpos, htf⟩)]
      refine ih ?_ hascending.2 (fun p hp => hfields p (mem_cons_of_mem _ hp))
      intro p hp
      exact Int.ofNat_lt.mpr (hascending.1 p.1 (mem_map_of_mem hp))

theorem Valid.validate (h : Valid postings) : PostingsFile.validate postings = .ok () := by
  refine validateFrom_ok ?_ h.ascending h.fields
  intro p _
  omega

def Encodes (postings : List Posting) (data : Bytes) : Prop :=
  ∃ count pairs, COUNT.pack postings.length = .ok count ∧
    PAIR.packs postings.length postings = .ok pairs ∧ data = count ++ pairs

structure ListStands (file : Bytes) (offset : Nat) (postings : List Posting) : Prop where
  valid : Valid postings
  behind : HEADER.size ≤ offset
  bytes : ∃ before data after, file = before ++ (data ++ after) ∧ before.length = offset ∧
    Encodes postings data

theorem Valid.encodes (h : Valid postings) : ∃ data, Encodes postings data := by
  have hcount : COUNT.Fits postings.length := by
    rw [COUNT, Struct.fits_unsigned]
    exact h.count
  have hpairs : (PAIR.times postings.length).Fits postings := by
    rw [Struct.fits_times]
    refine ⟨rfl, fun p hp => ?_⟩
    obtain ⟨hdoc, -, htf⟩ := h.fields p hp
    have hpair : PAIR.Fits (p.1, p.2) := by
      rw [PAIR, Struct.fits_pair, Struct.fits_unsigned, Struct.fits_unsigned]
      exact ⟨hdoc, htf⟩
    exact hpair
  obtain ⟨count, hcount⟩ := hcount
  obtain ⟨pairs, hpairs⟩ := hpairs
  exact ⟨_, count, pairs, hcount, hpairs, rfl⟩

theorem Encodes.length {data : Bytes} (h : Encodes postings data) :
    data.length = COUNT.size + postings.length * PAIR.size := by
  obtain ⟨count, pairs, hcount, hpairs, rfl⟩ := h
  rw [length_append, (COUNT.packed hcount).2.1, (PAIR.packs_ok hpairs).2.1]

theorem append_ok (hvalid : Valid postings) (hbehind : HEADER.size ≤ file.length) :
    ∃ data, append ⟨file, true⟩ postings =
        .ok (⟨file ++ data, true⟩, file.length, COUNT.size + postings.length * PAIR.size) ∧
      data.length = COUNT.size + postings.length * PAIR.size ∧
      ListStands (file ++ data) file.length postings := by
  obtain ⟨data, hdata⟩ := hvalid.encodes
  refine ⟨data, ?_, hdata.length, hvalid, hbehind, file, data, [], ?_, rfl, hdata⟩
  · obtain ⟨count, pairs, hcount, hpairs, rfl⟩ := hdata
    rw [append, if_neg (by simp)]
    dsimp only
    rw [hvalid.validate, ok_bind, hcount, ok_bind, hpairs, ok_bind]
  · rw [append_nil]

theorem ListStands.append (h : ListStands file offset postings) (more : Bytes) :
    ListStands (file ++ more) offset postings := by
  obtain ⟨before, data, after, rfl, hlength, hdata⟩ := h.bytes
  exact ⟨h.valid, h.behind, before, data, after ++ more, by simp only [append_assoc], hlength,
    hdata⟩

theorem ListStands.read {writable : Bool} (h : ListStands file offset postings) :
    PostingsFile.read ⟨file, writable⟩ offset (COUNT.size + postings.length * PAIR.size)
      postings.length = .ok postings := by
  obtain ⟨before, data, after, rfl, hoffset, hdata⟩ := h.bytes
  have hlength := hdata.length
  obtain ⟨count, pairs, hcount, hpairs, rfl⟩ := hdata
  obtain ⟨-, hcountLength, hcountUnpack⟩ := COUNT.packed hcount
  obtain ⟨-, hpairsLength, hpairsUnpack⟩ := PAIR.packs_ok hpairs
  have hcountSlice : slice (before ++ (count ++ pairs ++ after)) offset (offset + COUNT.size) =
      count := by
    rw [append_assoc, ← append_assoc before]
    exact slice_append hoffset.symm (by rw [hcountLength])
  have hpairsSlice : slice (before ++ (count ++ pairs ++ after)) (offset + COUNT.size)
      (offset + COUNT.size + postings.length * PAIR.size) = pairs := by
    rw [append_assoc, ← append_assoc before, ← append_assoc (before ++ count)]
    refine slice_append ?_ (by rw [hpairsLength])
    rw [length_append, hoffset, hcountLength]
  rw [PostingsFile.read, if_neg, if_neg, if_neg]
  · dsimp only
    rw [hpairsSlice, if_neg (not_not.mpr hpairsLength), hpairsUnpack, h.valid.validate, ok_bind]
  · rw [hcountSlice, hcountUnpack]
    exact fun hne => hne rfl
  · rw [not_lt, length_append, length_append, hlength, hoffset]
    omega
  · rintro (hlt | hne)
    · exact absurd h.behind (not_le.mpr hlt)
    · exact hne rfl

end Lists

theorem create_ok : ∃ header, create = .ok ⟨header, true⟩ ∧ header.length = HEADER.size ∧
    ∀ more, load (header ++ more) = .ok ⟨header ++ more, false⟩ := by
  have hfits : HEADER.Fits (MAGIC, VERSION) := by decide
  obtain ⟨header, hheader⟩ := hfits
  have hlength := (HEADER.packed hheader).2.1
  refine ⟨header, ?_, hlength, ?_⟩
  · rw [create, hheader, ok_bind]
  · intro more
    have hslice : slice (header ++ more) 0 HEADER.size = header := by
      rw [slice, drop_zero, Nat.sub_zero, take_left' hlength]
    rw [load, hheader, ok_bind, hslice, if_neg (not_not.mpr rfl)]

end PostingsFile
end SoupDB
