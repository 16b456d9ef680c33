import SoupDB.Common.Struct
import SoupDB.Indexes.HashRun

/-!
# SoupDB: the dictionary of terms

The records of the terms stand one after the other in a file: the size of the term, how many
postings it has, where they stand, and the term.  An extendible hash maps every term to its
number, as the auxiliary RID of the number; the offsets of the records are kept in memory.

This module has the functions; `DictionaryRecords` says what they do to a dictionary that
holds a list of terms.
-/

namespace SoupDB

open KeyCodec (encodeUtf8 decodeUtf8)

/-- How many postings a term has, and where they stand. -/
structure DictionaryEntry where
  df : Nat
  offset : Nat
  length : Nat
deriving DecidableEq, Repr

/-- The file of the records, the hash of the terms, and the offsets of the records. -/
structure TermDictionary where
  file : Bytes
  index : ExtendibleHash
  pageSize : Nat
  writable : Bool
  offsets : List Nat

namespace TermDictionary

def HEADER : Struct (Bytes × Nat) := (Struct.raw 4).pair (Struct.unsigned 4)
def RECORD : Struct (Nat × Nat × Nat × Nat) :=
  (Struct.unsigned 4).pair ((Struct.unsigned 8).pair ((Struct.unsigned 8).pair (Struct.unsigned 8)))

/-- `b"SDCT"`. -/
def MAGIC : Bytes := [83, 68, 67, 84]
def VERSION : Nat := 1

def HASH_GLOBAL_DEPTH_MAX : Nat := 16

def auxiliary (ordinal : Nat) : RID := ⟨(ordinal / 65536 : Nat), (ordinal % 65536 : Nat)⟩

def pageSizeError : PyError := .ValueError "dictionary page_size must be an integer >=128"

def create (pageSize : Int) : Except PyError TermDictionary :=
  if pageSize < 128 then .error pageSizeError
  else do
    let header ← HEADER.pack (MAGIC, VERSION)
    let index ← ExtendibleHash.init HASH_GLOBAL_DEPTH_MAX ⟨pageSize.toNat, []⟩
    .ok ⟨header, index, pageSize.toNat, true, []⟩

/-- The record at an offset, and where the next record starts. -/
def read (d : TermDictionary) (offset : Nat) : Except PyError (String × DictionaryEntry × Nat) :=
  let header := slice d.file offset (offset + RECORD.size)
  if header.length ≠ RECORD.size then .error (.ValueError "truncated dictionary record")
  else
    let (size, df, location, length) := RECORD.unpack header
    if ¬ (0 < size ∧ (size : Int) ≤ d.pageSize - 18) then
      .error (.ValueError "invalid dictionary term size")
    else
      let start := offset + RECORD.size
      let raw := slice d.file start (start + size)
      if raw.length ≠ size then .error (.ValueError "truncated dictionary term")
      else if df = 0 ∨ location < 8 ∨ length ≠ 8 + df * 16 then
        .error (.ValueError "invalid dictionary postings metadata")
      else
        match decodeUtf8 raw with
        | none => .error .UnicodeDecodeError
        | some term => .ok (term, ⟨df, location, length⟩, start + size)

section Hash

variable (blake2b : Bytes → Bytes)

def search (d : TermDictionary) (term : String) : Except PyError (List RID) :=
  (ExtendibleHash.search blake2b (.str term) d.index).1

/-- The loop of `_scan`: every record is found under its number.  A loop of more rounds than
the file has bytes does not end. -/
def scanFrom (d : TermDictionary) : Nat → Nat → List Nat → Except PyError (List Nat)
  | 0, offset, offsets => if offset < d.file.length then .error .NonTermination else .ok offsets
  | fuel + 1, offset, offsets =>
      if offset < d.file.length then do
        let (term, _, next) ← d.read offset
        let found ← d.search blake2b term
        if found ≠ [auxiliary offsets.length] then
          .error (.ValueError "dictionary hash and sidecar disagree")
        else scanFrom d fuel next (offsets ++ [offset])
      else .ok offsets

/-- Open the files.  The pages of the hash file are those of the page size they were written
with; another page size is an error. -/
def load (file : Bytes) (disk : DiskManager) (pageSize : Int) : Except PyError TermDictionary :=
  if pageSize < 128 then .error pageSizeError
  else if disk.pageCount = 0 then .error (.ValueError "empty dictionary hash file")
  else do
    let header ← HEADER.pack (MAGIC, VERSION)
    if slice file 0 HEADER.size ≠ header then
      .error (.ValueError "invalid dictionary magic or version")
    else if disk.pageSize ≠ pageSize.toNat then
      .error (.ValueError "file size is not a multiple of page_size")
    else do
      let index ← ExtendibleHash.init HASH_GLOBAL_DEPTH_MAX disk
      let d : TermDictionary := ⟨file, index, pageSize.toNat, false, []⟩
      let offsets ← d.scanFrom blake2b file.length HEADER.size []
      .ok { d with offsets }

/-- Append the record of a new term. -/
def add (d : TermDictionary) (term : String) (entry : DictionaryEntry) :
    Except PyError TermDictionary :=
  if d.writable = false then .error (.ValueError "dictionary is read-only")
  else if term = "" then .error (.ValueError "dictionary terms must be non-empty strings")
  else
    let encoded := encodeUtf8 term
    if (encoded.length : Int) > d.pageSize - 18 then
      .error (.ValueError "term does not fit in an ExtendibleHash bucket")
    else if ¬ (entry.df < 2 ^ 64 ∧ entry.offset < 2 ^ 64 ∧ entry.length < 2 ^ 64) ∨
        entry.df = 0 ∨ entry.offset < 8 ∨ entry.length ≠ 8 + entry.df * 16 then
      .error (.ValueError "invalid dictionary entry")
    else do
      let found ← d.search blake2b term
      if found ≠ [] then .error (.ValueError "duplicate dictionary term")
      else
        let ordinal := d.offsets.length
        if 2 ^ 48 ≤ ordinal then
          .error (.ValueError "dictionary auxiliary RID capacity exceeded")
        else do
          let record ← RECORD.pack (encoded.length, entry.df, entry.offset, entry.length)
          match ExtendibleHash.insert blake2b (.str term) (auxiliary ordinal) d.index with
          | (.error e, _) => .error e
          | (.ok _, index) =>
              .ok { d with
                file := d.file ++ (record ++ encoded)
                index
                offsets := d.offsets ++ [d.file.length] }

def find (d : TermDictionary) (term : String) : Except PyError (Option DictionaryEntry) := do
  let references ← d.search blake2b term
  match references with
  | [] => .ok none
  | [rid] =>
      let ordinal := rid.pageId * 65536 + rid.slot
      if ordinal ≥ d.offsets.length then
        .error (.ValueError "dictionary reference exceeds sidecar bounds")
      else
        match d.offsets[ordinal.toNat]? with
        | none => .error (.IndexError "list index out of range")
        | some offset => do
            let (stored, entry, _) ← d.read offset
            if stored ≠ term then
              .error (.ValueError "dictionary reference points to another term")
            else .ok (some entry)
  | _ => .error (.ValueError "dictionary term has multiple auxiliary references")

end Hash

/-- The terms and their entries, in the order of their numbers. -/
def items (d : TermDictionary) : Except PyError (List (String × DictionaryEntry)) :=
  d.offsets.mapM (fun offset => do
    let (term, entry, _) ← d.read offset
    .ok (term, entry))

end TermDictionary
end SoupDB
