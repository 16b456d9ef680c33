import SoupDB.Plugins.DictionaryRecords
import SoupDB.Plugins.PostingsFile
import SoupDB.Plugins.SpimiMerge
import SoupDB.Plugins.Tokenizer

/-!
# SoupDB: the files of an inverted index

`build` indexes the documents block by block, merges the runs, and writes the postings of the
terms, the dictionary of the terms, and a manifest with the documents; then it opens what it
wrote.  `load` opens such files and checks that they agree.

The manifest is the value that its JSON text stands for.  The average length of the documents is
a rational number.
-/

namespace SoupDB.DurableStore

def VERSION : Int := 1
def TOKENIZER_VERSION : Int := 1

structure Manifest where
  version : Int
  pageSize : Int
  tokenizerVersion : Int
  stopwords : List String
  stemming : Bool
  /-- Page, slot and length of each document. -/
  documents : List (Int × Int × Int)
  N : Int
  avgdl : ℚ

/-- The files of an index: the manifest, the postings, the records of the terms, and the pages
of their hash. -/
structure Artifacts where
  manifest : Manifest
  postings : Bytes
  termsMeta : Bytes
  termsHash : DiskManager

structure Store where
  dictionary : TermDictionary
  postings : PostingsFile
  tokenizer : Tokenizer
  rids : List RID
  docLengths : List Nat

/-- `sum(lengths) / count if count else 0.0`. -/
def average (lengths : List Nat) : ℚ :=
  if lengths.length = 0 then 0 else (lengths.sum : ℚ) / lengths.length

/-- The manifest of the documents. -/
def manifestOf (tokenizer : Tokenizer) (pageSize : Int) (built : Spimi.Build) : Manifest :=
  { version := VERSION
    pageSize
    tokenizerVersion := TOKENIZER_VERSION
    stopwords := tokenizer.stopwords
    stemming := tokenizer.stemming
    documents := (built.rids.zip built.docLengths).map
      (fun d => (d.1.pageId, d.1.slot, (d.2 : Int)))
    N := built.rids.length
    avgdl := average built.docLengths }

/-- `math.isclose(a, b, rel_tol=1e-12, abs_tol=1e-12)`. -/
def isclose (a b : ℚ) : Bool := |a - b| ≤ max (1 / 10 ^ 12 * max |a| |b|) (1 / 10 ^ 12)

/-- Add the frequencies of a list to the observed lengths of its documents. -/
def observe (observed : List Nat) : List Posting → Except PyError (List Nat)
  | [] => .ok observed
  | (docId, tf) :: postings =>
      match observed[docId]? with
      | none => .error (.ValueError "posting references an unknown document")
      | some length => observe (observed.set docId (length + tf)) postings

/-- The loop of `load` over the terms. -/
def checkTerms (postings : PostingsFile) (count : Nat) :
    String → List Nat → List (String × DictionaryEntry) → Except PyError (List Nat)
  | _, observed, [] => .ok observed
  | previous, observed, (term, entry) :: terms =>
      if ¬ previous < term ∨ count < entry.df then
        .error (.ValueError "invalid term ordering or document frequency")
      else do
        let list ← postings.read entry.offset entry.length entry.df
        let observed ← observe observed list
        checkTerms postings count term observed terms

section Build

variable (blake2b : Bytes → Bytes) (words : Words)

/-- Open the files, and check that they agree. -/
def load (root : Artifacts) : Except PyError Store :=
  let manifest := root.manifest
  if manifest.version ≠ VERSION then .error (.ValueError "invalid inverted store version")
  else if manifest.pageSize < 128 then .error (.ValueError "invalid inverted store page size")
  else if manifest.tokenizerVersion ≠ TOKENIZER_VERSION then
    .error (.ValueError "invalid persisted tokenizer configuration")
  else
    match Tokenizer.init words manifest.stopwords manifest.stemming with
    | .error _ => .error (.ValueError "invalid persisted stopwords")
    | .ok tokenizer =>
        if manifest.N < 0 ∨ manifest.N ≠ manifest.documents.length then
          .error (.ValueError "inconsistent document count")
        else if manifest.documents.any (fun d => d.1 < 0 || d.2.1 < 0 || d.2.2 < 0) then
          .error (.ValueError "invalid persisted document metadata")
        else
          let rids : List RID := manifest.documents.map (fun d => ⟨d.1, d.2.1⟩)
          let lengths := manifest.documents.map (fun d => d.2.2.toNat)
          if ¬ rids.Nodup then .error (.ValueError "duplicate persisted document RID")
          else if isclose manifest.avgdl (average lengths) = false then
            .error (.ValueError "inconsistent average document length")
          else do
            let dictionary ←
              TermDictionary.load blake2b root.termsMeta root.termsHash manifest.pageSize
            let postings ← PostingsFile.load root.postings
            let terms ← dictionary.items
            let observed ← checkTerms postings manifest.N.toNat ""
              (List.replicate rids.length 0) terms
            if observed ≠ lengths then
              .error (.ValueError "postings frequencies differ from document lengths")
            else .ok ⟨dictionary, postings, tokenizer, rids, lengths⟩

/-- Append the postings of the terms, and add the terms. -/
def writeTerms (postings : PostingsFile) (dictionary : TermDictionary) :
    List (String × List Posting) → Except PyError (PostingsFile × TermDictionary)
  | [] => .ok (postings, dictionary)
  | (term, entries) :: terms => do
      let (postings, offset, length) ← postings.append entries
      let dictionary ← dictionary.add blake2b term ⟨entries.length, offset, length⟩
      writeTerms postings dictionary terms

/-- Write the files of the documents, and open them; once for the check and once for use. -/
def build (tokenizer : Tokenizer) (memoryLimitBytes pageSize fanIn : Int)
    (items : List (String × RID)) : Except PyError (Artifacts × Store) := do
  let built ← Spimi.spimiRuns (tokenizer.tokens words) memoryLimitBytes items
  let dictionary ← TermDictionary.create pageSize
  let postings ← PostingsFile.create
  let terms ← Spimi.mergedTerms fanIn built.runs
  let (postings, dictionary) ← writeTerms blake2b postings dictionary terms
  let stage : Artifacts := ⟨manifestOf tokenizer pageSize built, postings.file, dictionary.file,
    dictionary.index.diskManager⟩
  let _checked ← load blake2b words stage
  let store ← load blake2b words stage
  .ok (stage, store)

end Build

namespace Store

def terms (store : Store) : Except PyError (List (String × DictionaryEntry)) :=
  store.dictionary.items

def postingsOfTerm (blake2b : Bytes → Bytes) (store : Store) (term : String) :
    Except PyError (List Posting) := do
  let entry ← store.dictionary.find blake2b term
  match entry with
  | none => .ok []
  | some entry => store.postings.read entry.offset entry.length entry.df

end Store
end SoupDB.DurableStore
