import SoupDB.Lib.OrderedDict
import Mathlib.Data.String.Basic
import Mathlib.Data.List.Sort

/-!
# SoupDB: the inverted index of a list of documents

Documents are lists of terms and are known by their positions.  The reference index lists
every term that occurs, in ascending order, with the documents it occurs in and how often.
-/

namespace SoupDB

/-- `Counter(terms)`: each term once, in the order of first occurrence, and its count. -/
def counter (terms : List String) : List (String × Nat) :=
  terms.eraseDups.map (fun term => (term, terms.count term))

/-- A posting is a document and the frequency of a term in it. -/
abbrev Posting : Type := Nat × Nat

/-- The postings of a term in documents that are counted from a number on. -/
def postingsFrom (term : String) : Nat → List (List String) → List Posting
  | _, [] => []
  | docId, terms :: docs =>
      if term ∈ terms then (docId, terms.count term) :: postingsFrom term (docId + 1) docs
      else postingsFrom term (docId + 1) docs

def postingsOf (docs : List (List String)) (term : String) : List Posting :=
  postingsFrom term 0 docs

/-- The terms that occur, in ascending order. -/
def vocabulary (docs : List (List String)) : List String :=
  docs.flatten.eraseDups.insertionSort (fun a b => a ≤ b)

def referenceIndex (docs : List (List String)) : List (String × List Posting) :=
  (vocabulary docs).map (fun term => (term, postingsOf docs term))

theorem nodup_eraseDups (terms : List String) : terms.eraseDups.Nodup := by
  induction hn : terms.length using Nat.strong_induction_on generalizing terms with
  | _ n ih =>
      cases terms with
      | nil => exact List.nodup_nil
      | cons term terms =>
          have hlt : (terms.filter (fun b => !b == term)).length < n := by
            have hle := List.length_filter_le (fun b => !b == term) terms
            rw [List.length_cons] at hn
            omega
          rw [List.eraseDups_cons, List.nodup_cons]
          refine ⟨fun hmem => ?_, ih _ hlt _ rfl⟩
          have hfilter := List.mem_filter.mp (List.mem_eraseDups.mp hmem)
          simp at hfilter

variable {docs : List (List String)} {term : String}

theorem mem_vocabulary : term ∈ vocabulary docs ↔ ∃ terms ∈ docs, term ∈ terms := by
  rw [vocabulary, List.mem_insertionSort, List.mem_eraseDups, List.mem_flatten]

theorem mem_postings_from {first docId tf : Nat} :
    (docId, tf) ∈ postingsFrom term first docs ↔
      first ≤ docId ∧ ∃ terms, docs[docId - first]? = some terms ∧ term ∈ terms ∧
        tf = terms.count term := by
  induction docs generalizing first with
  | nil => simp [postingsFrom]
  | cons terms docs ih =>
      have hrest : (docId, tf) ∈ postingsFrom term (first + 1) docs ↔
          first < docId ∧ ∃ terms', (terms :: docs)[docId - first]? = some terms' ∧
            term ∈ terms' ∧ tf = terms'.count term := by
        rw [ih, Nat.succ_le_iff]
        refine and_congr_right (fun hlt => ?_)
        obtain ⟨n, hn⟩ : ∃ n, docId - first = n + 1 := ⟨docId - first - 1, by omega⟩
        have hn' : docId - (first + 1) = n := by omega
        rw [hn, hn', List.getElem?_cons_succ]
      rw [postingsFrom]
      by_cases hterm : term ∈ terms
      · rw [if_pos hterm, List.mem_cons, hrest, Prod.mk.injEq]
        constructor
        · rintro (⟨rfl, rfl⟩ | ⟨hlt, h⟩)
          · exact ⟨Nat.le_refl _, terms, by simp, hterm, rfl⟩
          · exact ⟨hlt.le, h⟩
        · rintro ⟨hle, terms', hget, hmem, htf⟩
          rcases Nat.eq_or_lt_of_le hle with rfl | hlt
          · simp only [Nat.sub_self, List.getElem?_cons_zero, Option.some.injEq] at hget
            rw [hget]
            exact Or.inl ⟨rfl, htf⟩
          · exact Or.inr ⟨hlt, terms', hget, hmem, htf⟩
      · rw [if_neg hterm, hrest]
        constructor
        · rintro ⟨hlt, h⟩
          exact ⟨hlt.le, h⟩
        · rintro ⟨hle, terms', hget, hmem, htf⟩
          rcases Nat.eq_or_lt_of_le hle with rfl | hlt
          · simp only [Nat.sub_self, List.getElem?_cons_zero, Option.some.injEq] at hget
            rw [← hget] at hmem
            exact absurd hmem hterm
          · exact ⟨hlt, terms', hget, hmem, htf⟩

theorem mem_postings_of {docId tf : Nat} :
    (docId, tf) ∈ postingsOf docs term ↔
      ∃ terms, docs[docId]? = some terms ∧ term ∈ terms ∧ tf = terms.count term := by
  rw [postingsOf, mem_postings_from]
  simp

/-- The number of documents a term occurs in. -/
theorem length_postings_from (term : String) (first : Nat) (docs : List (List String)) :
    (postingsFrom term first docs).length = docs.countP (fun terms => term ∈ terms) := by
  induction docs generalizing first with
  | nil => rfl
  | cons terms docs ih =>
      rw [postingsFrom]
      by_cases hterm : term ∈ terms
      · rw [if_pos hterm, List.length_cons, ih, List.countP_cons_of_pos (by simpa using hterm)]
      · rw [if_neg hterm, ih, List.countP_cons_of_neg (by simpa using hterm)]

theorem length_postings_of (term : String) (docs : List (List String)) :
    (postingsOf docs term).length = docs.countP (fun terms => term ∈ terms) :=
  length_postings_from term 0 docs

end SoupDB
