import SoupDB.Algorithms.SortedRuns
import SoupDB.Indexes.KeyCodec
import SoupDB.Lib.JsonArray
import SoupDB.Plugins.Postings

/-!
# SoupDB: building an inverted index by blocks

The postings of the documents are collected in a block until it is estimated to fill the
memory limit, which can happen between two terms of one document.  A block is written as a
sorted run, the runs are merged, and the postings of each term are read off the merged run.

This module has the functions; `SpimiMerge` proves that the limit and the fan-in do not matter.
-/

namespace SoupDB

open RecordFile (Record Sized frames readRecords writeRecord)

namespace Spimi

open KeyCodec (encodeUtf8 decodeUtf8 decodeUtf8_encodeUtf8)

/-! ## Postings as records -/

/-- A term, a document and the frequency of the term in it. -/
abbrev Triple : Type := String × Nat × Nat

/-- The order of the pairs of a term and a document. -/
def Before (a b : Triple) : Prop := a.1 < b.1 ∨ a.1 = b.1 ∧ a.2.1 < b.2.1

instance (a b : Triple) : Decidable (Before a b) := by
  unfold Before
  infer_instance

/-- Numbers of more digits than this are not converted. -/
def maxStrDigits : Nat := 4300

def tooLong (n : Nat) : Bool := 10 ^ maxStrDigits ≤ n

def digitsError : PyError :=
  .ValueError "Exceeds the limit (4300 digits) for integer string conversion"

def encodePosting (p : Triple) : Except PyError Record :=
  if tooLong p.2.1 || tooLong p.2.2 then .error digitsError
  else .ok (encodeUtf8 (Json.dumpArray [.str p.1, .int p.2.1, .int p.2.2]))

def termError : PyError := .ValueError "invalid SPIMI term or document ID"

def frequencyError : PyError := .ValueError "SPIMI frequency must be a positive integer"

def decodePosting (record : Record) : Except PyError Triple :=
  match decodeUtf8 record with
  | none => .error .UnicodeDecodeError
  | some text =>
      match Json.loadArray text with
      | some [.str term, .int docId, tf] =>
          if tooLong docId.natAbs then .error digitsError
          else if term = "" ∨ docId < 0 then .error termError
          else
            match tf with
            | .int tf =>
                if tooLong tf.natAbs then .error digitsError
                else if tf ≤ 0 then .error frequencyError
                else .ok (term, docId.toNat, tf.toNat)
            | _ => .error frequencyError
      | some [_, _, _] => .error termError
      | _ => .error (.ValueError "a posting has three fields")

def comparePostings (left right : Record) : Except PyError Int := do
  let a ← decodePosting left
  let b ← decodePosting right
  .ok ((if Before b a then 1 else 0) - (if Before a b then 1 else 0))

/-! ## Blocks -/

/-- The postings of a block, by term and document. -/
abbrev Block : Type := OrderedDict String (OrderedDict Nat Nat)

/-- The postings in the order in which they are written. -/
def sortedPostings (block : Block) : List Triple :=
  (block.entries.insertionSort (fun a b => a.1 ≤ b.1)).flatMap (fun e =>
    (e.2.entries.insertionSort (fun a b => a.1 ≤ b.1)).map (fun p => (e.1, p)))

/-- The runs written so far, and the block that is being filled. -/
structure Spill where
  runs : List Bytes
  block : Block
  usedBytes : Nat

def flush (s : Spill) : Except PyError Spill :=
  if s.block.entries = [] then .ok s
  else do
    let run ← ExternalSort.writeCheckedRun comparePostings none
      ((sortedPostings s.block).map encodePosting)
    .ok ⟨s.runs ++ [run], OrderedDict.empty, 0⟩

/-- `block.setdefault(term, {})[doc_id] = tf`. -/
def put (block : Block) (p : Triple) : Block :=
  block.set p.1 (((block.get? p.1).getD OrderedDict.empty).set p.2.1 p.2.2)

/-- The loop over the terms of a document. -/
def addPosting (memoryLimitBytes : Nat) (s : Spill) (p : Triple) : Except PyError Spill := do
  let size := (encodeUtf8 p.1).length
  let cost := 96 + (if s.block.contains p.1 then 0 else size + 64)
  let full : Bool := s.block.entries ≠ [] && memoryLimitBytes < s.usedBytes + cost
  let s ← (if full then flush s else .ok s : Except PyError Spill)
  let cost := if full then 160 + size else cost
  let s : Spill := ⟨s.runs, put s.block p, s.usedBytes + cost⟩
  if memoryLimitBytes ≤ s.usedBytes then flush s else .ok s

/-- What the documents read so far have left. -/
structure Progress where
  spill : Spill
  lengths : List Nat
  rids : List RID

def addDocument (tokenizer : String → List String) (memoryLimitBytes : Nat) (b : Progress)
    (item : String × RID) : Except PyError Progress :=
  if item.2.pageId < 0 ∨ item.2.slot < 0 then
    .error (.ValueError "documents require valid storage RIDs")
  else if item.2 ∈ b.rids then
    .error (.ValueError
      s!"duplicate document RID RID(page_id={item.2.pageId}, slot={item.2.slot})")
  else do
    let counts := counter (tokenizer item.1)
    let docId := b.rids.length
    let spill ← (counts.map (fun e => (e.1, docId, e.2))).foldlM
      (addPosting memoryLimitBytes) b.spill
    .ok ⟨spill, b.lengths ++ [(counts.map Prod.snd).sum], b.rids ++ [item.2]⟩

/-- The runs, and the lengths and the RIDs of the documents by their numbers. -/
structure Build where
  runs : List Bytes
  docLengths : List Nat
  rids : List RID

/-- Assign dense numbers to documents and spill their postings block by block. -/
def spimiRuns (tokenizer : String → List String) (memoryLimitBytes : Int)
    (items : List (String × RID)) : Except PyError Build :=
  if memoryLimitBytes ≤ 0 then
    .error (.ValueError "memory_limit_bytes must be a positive integer")
  else do
    let b ← items.foldlM (addDocument tokenizer memoryLimitBytes.toNat)
      ⟨⟨[], OrderedDict.empty, 0⟩, [], []⟩
    let spill ← flush b.spill
    .ok ⟨spill.runs, b.lengths, b.rids⟩

/-! ## Merging the runs -/

/-- `groupby`: the postings of neighbours with the same term. -/
def groupby : List Triple → List (String × List Posting)
  | [] => []
  | (term, p) :: rest =>
      match groupby rest with
      | [] => [(term, [p])]
      | (term', postings) :: groups =>
          if term = term' then (term, p :: postings) :: groups
          else (term, [p]) :: (term', postings) :: groups

/-- The postings of a group; frequencies of one document are added up. -/
def combine (postings : List Posting) (p : Posting) : List Posting :=
  match postings.getLast? with
  | some last =>
      if last.1 = p.1 then postings.dropLast ++ [(p.1, last.2 + p.2)] else postings ++ [p]
  | none => [p]

/-- The terms and their postings, read off the merged runs. -/
def mergedTerms (fanIn : Int) (runs : List Bytes) :
    Except PyError (List (String × List Posting)) := do
  let records ← ExternalSort.mergeSortedRuns comparePostings fanIn runs
  let decoded ← records.mapM decodePosting
  .ok ((groupby decoded).map (fun e => (e.1, e.2.foldl combine [])))

end Spimi
end SoupDB
