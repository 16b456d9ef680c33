import SoupDB.Common.Pack

/-!
# SoupDB: temporary files of records

The external algorithms keep records in temporary files, each record after its length, and
cut what they read into chunks of bounded size.  Reading a file gives the records it was
written with, and the chunks of a list are the list.
-/

namespace SoupDB.RecordFile

open List

/-- A record is a byte string. -/
abbrev Record := Bytes

def serializedSize (record : Record) : Nat := 4 + record.length

def writeRecord (format : String) (record : Record) : Except PyError Bytes :=
  if record.length > 0xFFFFFFFF then
    .error (.ValueError s!"record is too large for {format} format")
  else .ok (Pack.packLE 4 record.length ++ record)

/-- The next record of a file and the bytes after it; nothing at the end. -/
def readRecord (what : String) (file : Bytes) : Except PyError (Option (Record × Bytes)) :=
  if file = [] then .ok none
  else if file.length < 4 then .error (.ValueError s!"truncated {what} record length")
  else
    let length := Pack.unpackLE (file.take 4)
    let data := (file.drop 4).take length
    if data.length ≠ length then .error (.ValueError s!"truncated {what} record")
    else .ok (some (data, (file.drop 4).drop length))

theorem length_rest {what : String} {file rest : Bytes} {record : Record}
    (h : readRecord what file = .ok (some (record, rest))) : rest.length < file.length := by
  rw [readRecord] at h
  split at h
  · cases h
  · split at h
    · cases h
    · dsimp only at h
      split at h
      · cases h
      · cases h
        rw [drop_drop, length_drop]
        omega

def readRecords (what : String) (file : Bytes) : Except PyError (List Record) :=
  match _h : readRecord what file with
  | .error e => .error e
  | .ok none => .ok []
  | .ok (some (record, rest)) => do
      let records ← readRecords what rest
      .ok (record :: records)
termination_by file.length
decreasing_by exact length_rest _h

/-- The records that are appended until a chunk is full, one chunk after the other. -/
def chunksFrom (memoryLimitBytes : Nat) :
    List Record → List Record → Nat → List (List Record)
  | [], chunk, _ => if chunk = [] then [] else [chunk]
  | record :: records, chunk, usedBytes =>
      let size := serializedSize record
      let full := chunk ≠ [] ∧ usedBytes + size > memoryLimitBytes
      let finished := if full then [chunk] else []
      let chunk := (if full then [] else chunk) ++ [record]
      let usedBytes := (if full then 0 else usedBytes) + size
      if usedBytes ≥ memoryLimitBytes then
        finished ++ chunk :: chunksFrom memoryLimitBytes records [] 0
      else finished ++ chunksFrom memoryLimitBytes records chunk usedBytes

/-- Chunks of at most `memoryLimitBytes`, or of one record. -/
def recordChunks (memoryLimitBytes : Nat) (records : List Record) : List (List Record) :=
  chunksFrom memoryLimitBytes records [] 0

/-! ## Files that were written -/

/-- The record has a length of four bytes. -/
def Sized (record : Record) : Prop := record.length < 2 ^ 32

/-- The bytes of a file with these records. -/
def frames (records : List Record) : Bytes :=
  records.flatMap (fun record => Pack.packLE 4 record.length ++ record)

variable {what : String} {record : Record} {records : List Record}

theorem write_record_ok {format : String} (h : Sized record) :
    writeRecord format record = .ok (frames [record]) := by
  unfold Sized at h
  rw [writeRecord, if_neg (by omega), frames, flatMap_cons, flatMap_nil, append_nil]

theorem frames_append (records records' : List Record) :
    frames (records ++ records') = frames records ++ frames records' :=
  flatMap_append ..

theorem frames_cons (record : Record) (records : List Record) :
    frames (record :: records) = Pack.packLE 4 record.length ++ (record ++ frames records) := by
  rw [frames, flatMap_cons, append_assoc]
  rfl

theorem frames_eq_nil : frames records = [] ↔ records = [] := by
  cases records with
  | nil => exact iff_of_true rfl rfl
  | cons record records =>
      refine iff_of_false ?_ (cons_ne_nil _ _)
      intro h
      have hlength := congrArg List.length h
      rw [frames_cons, length_append, Pack.length_packLE] at hlength
      simp only [length_nil] at hlength
      omega

theorem read_record_frames_nil : readRecord what (frames []) = .ok none := by
  rw [readRecord]
  exact if_pos rfl

theorem read_record_frames (h : Sized record) :
    readRecord what (frames (record :: records)) = .ok (some (record, frames records)) := by
  have hne : frames (record :: records) ≠ [] := fun hnil => by
    have := frames_eq_nil.mp hnil
    cases this
  have hfour : (Pack.packLE 4 record.length).length = 4 := Pack.length_packLE 4 _
  have hlength : Pack.unpackLE (Pack.packLE 4 record.length) = record.length :=
    Pack.unpackLE_packLE 4 _ h
  rw [readRecord, if_neg hne, frames_cons, if_neg (by rw [length_append, hfour]; omega)]
  simp only [take_left' hfour, drop_left' hfour, hlength, take_left,
    drop_left, ne_eq, not_true_eq_false, if_false]

theorem read_records_frames (h : ∀ record ∈ records, Sized record) :
    readRecords what (frames records) = .ok records := by
  induction records with
  | nil =>
      rw [readRecords]
      split
      · next e he =>
          rw [read_record_frames_nil] at he
          cases he
      · rfl
      · next r rest he =>
          rw [read_record_frames_nil] at he
          cases he
  | cons record records ih =>
      have hread := @read_record_frames what record records (h record (by simp))
      rw [readRecords]
      split
      · next e he =>
          rw [hread] at he
          cases he
      · next he =>
          rw [hread] at he
          cases he
      · next r rest he =>
          rw [hread] at he
          cases he
          rw [ih (fun other hother => h other (mem_cons_of_mem _ hother))]
          rfl

/-! ## Chunks -/

theorem chunksFrom_flatten (memoryLimitBytes : Nat) :
    ∀ (records chunk : List Record) (usedBytes : Nat),
      (chunksFrom memoryLimitBytes records chunk usedBytes).flatten = chunk ++ records := by
  intro records
  induction records with
  | nil =>
      intro chunk usedBytes
      rw [chunksFrom]
      by_cases h : chunk = []
      · rw [if_pos h, h]
        rfl
      · rw [if_neg h, flatten_singleton, append_nil]
  | cons record records ih =>
      intro chunk usedBytes
      rw [chunksFrom]
      by_cases hfull : chunk ≠ [] ∧ usedBytes + serializedSize record > memoryLimitBytes
      · simp only [if_pos hfull]
        split
        · simp only [flatten_append, flatten_cons, ih]
          simp
        · simp only [flatten_append, ih]
          simp
      · simp only [if_neg hfull]
        split
        · simp only [flatten_append, flatten_cons, ih]
          simp
        · simp only [flatten_append, ih]
          simp

theorem chunksFrom_room {memoryLimitBytes usedBytes : Nat} (records chunk : List Record)
    (h : usedBytes + serializedSize record < memoryLimitBytes) :
    chunksFrom memoryLimitBytes (record :: records) chunk usedBytes =
      chunksFrom memoryLimitBytes records (chunk ++ [record])
        (usedBytes + serializedSize record) := by
  have hfits : ¬ (chunk ≠ [] ∧ usedBytes + serializedSize record > memoryLimitBytes) := by
    omega
  rw [chunksFrom]
  simp only [if_neg hfits]
  rw [if_neg (by omega)]
  rfl

theorem chunksFrom_fills {memoryLimitBytes usedBytes : Nat} (records chunk : List Record)
    (h : usedBytes + serializedSize record = memoryLimitBytes) :
    chunksFrom memoryLimitBytes (record :: records) chunk usedBytes =
      (chunk ++ [record]) :: chunksFrom memoryLimitBytes records [] 0 := by
  have hfits : ¬ (chunk ≠ [] ∧ usedBytes + serializedSize record > memoryLimitBytes) := by
    omega
  rw [chunksFrom]
  simp only [if_neg hfits]
  rw [if_pos (by omega)]
  rfl

theorem record_chunks_flatten (memoryLimitBytes : Nat) (records : List Record) :
    (recordChunks memoryLimitBytes records).flatten = records :=
  chunksFrom_flatten memoryLimitBytes records [] 0

end SoupDB.RecordFile
