import SoupDB.Lib.Transition
import SoupDB.Plugins.InvertedIndex

/-!
# SoupDB: text indexes under INSERT and DELETE

An inverted index that does not change, with the documents that were added since and the RIDs
that were removed kept aside.  Added documents are scored when a query comes, with the counts
of the index and of the added documents together; the scores of the index stay as they are.

Main fact: `match_top_k_exact_iff`.  It says in which states a MATCH finds exactly the live
documents that share a term with the query, and the length is their number.
-/

namespace SoupDB

open OrderedDict InvertedIndex

variable {K : Type} [Field K] [LinearOrder K]

structure MutableInvertedIndex (K : Type) where
  base : InvertedIndex K
  added : OrderedDict RID String
  removed : Finset RID

namespace MutableInvertedIndex

/-- An index that was just built. -/
def ofBase (base : InvertedIndex K) : MutableInvertedIndex K := ⟨base, empty, ∅⟩

/-- `len(index)`: a negative length is an error. -/
def len (s : MutableInvertedIndex K) : Except PyError Nat :=
  if s.base.len + s.added.size < s.removed.card then
    .error (.ValueError "__len__() should return >= 0")
  else .ok (s.base.len + s.added.size - s.removed.card)

/-- A value of the indexed column: a text, or NULL. -/
def insertDocument (rid : RID) (value : Option String) (s : MutableInvertedIndex K) :
    MutableInvertedIndex K :=
  match value with
  | none => s
  | some text => { s with added := s.added.set rid text, removed := s.removed.erase rid }

def removeDocument (rid : RID) (s : MutableInvertedIndex K) : MutableInvertedIndex K :=
  { s with added := s.added.erase rid, removed := insert rid s.removed }

/-! ## Scores of the added documents -/

section Scores

variable (R : Reals K) (tokenizer : String → List String) (s : MutableInvertedIndex K)

/-- The documents with a term, in the index and among the added ones. -/
def documentFrequency (term : String) : Nat :=
  (s.base.store.postings term).length +
    s.added.entries.countP (fun e => term ∈ tokenizer e.2)

def effectiveN : Nat := s.base.store.N + s.added.size

def effectiveAvgdl : K :=
  if s.effectiveN = 0 then 0
  else
    (s.base.store.avgdl * s.base.store.N +
      ((s.added.entries.map (fun e => (tokenizer e.2).length)).sum : Nat)) / s.effectiveN

/-- What a term of the query adds to the score of a document. -/
def scoreStep (method : String) (tokens : List String) (score : K) (term : String) :
    Except PyError K :=
  let tf := tokens.count term
  if tf = 0 then .ok score
  else if method = "bm25" then
    .ok (score + bm25Term R tf s.effectiveN (s.documentFrequency tokenizer term)
      tokens.length (s.effectiveAvgdl tokenizer) defaultK1 defaultB)
  else do
    let weight ← idf R s.effectiveN (s.documentFrequency tokenizer term)
    .ok (score + tf * weight)

def scoreDocument (query method text : String) : Except PyError K := do
  let tokens := tokenizer text
  let score ← (tokenizer query).foldlM (scoreStep R tokenizer s method tokens) 0
  .ok (if method ≠ "bm25" ∧ tokens.length ≠ 0 then score / R.sqrt tokens.length else score)

def scoreAdded (query method : String) : Except PyError (OrderedDict RID K) :=
  if s.added.entries = [] ∨ tokenizer query = [] then .ok empty
  else do
    let scored ← s.added.entries.mapM (fun e => do
      let score ← scoreDocument R tokenizer s query method e.2
      .ok (e.1, score))
    .ok (ofPairs scored)

/-- The hits of the index that are not removed. -/
def unremoved (hits : Hits K) : OrderedDict RID K :=
  ofPairs (hits.filter (fun e => e.1 ∉ s.removed))

def topK (query : String) (k : Nat) (o : Options K) : Except PyError (Hits K) := do
  let needed := k + s.removed.card + s.added.size
  let hits ← s.base.topK R tokenizer query needed o
  let scores ← scoreAdded R tokenizer s query o.methodName
  let merged := s.added.keys.foldl (fun merged key =>
    if key ∈ s.removed then merged
    else merged.set key (max ((merged.get? key).getD 0) ((scores.get? key).getD 0)))
    (s.unremoved hits)
  .ok ((ranked merged.entries).take k)

/-- Only documents that share a term with the query. -/
def matchTopK (query : String) (k : Nat) (o : Options K) : Except PyError (Hits K) := do
  let needed := k + s.removed.card + s.added.size
  let hits ← s.base.matchTopK R tokenizer query needed o
  let scores ← scoreAdded R tokenizer s query o.methodName
  let merged := scores.entries.foldl (fun merged e =>
    if e.1 ∈ s.removed ∨ e.2 ≤ 0 then merged
    else merged.set e.1 (max ((merged.get? e.1).getD 0) e.2)) (s.unremoved hits)
  .ok ((ranked merged.entries).take k)

end Scores

/-! ## Runs -/

/-- A call that maintains the index. -/
inductive Call
  | insertDocument (rid : RID) (value : Option String)
  | removeDocument (rid : RID) (value : Option String)

def step (s : MutableInvertedIndex K) : Call → MutableInvertedIndex K
  | .insertDocument rid value => insertDocument rid value s
  | .removeDocument rid _ => removeDocument rid s

def update (live : OrderedDict RID String) : Call → OrderedDict RID String
  | .insertDocument _ none => live
  | .insertDocument rid (some text) => live.set rid text
  | .removeDocument rid _ => live.erase rid

/-- The live documents are those of the collection that are not removed, and the added ones;
what is removed is not added. -/
structure Represents (corpus : OrderedDict RID String) (s : MutableInvertedIndex K)
    (live : OrderedDict RID String) : Prop where
  live : ∀ rid, live.get? rid =
    (s.added.get? rid).or (if rid ∈ s.removed then none else corpus.get? rid)
  apart : ∀ rid ∈ s.removed, s.added.get? rid = none

section Runs

variable {corpus : OrderedDict RID String} {s : MutableInvertedIndex K}
  {live : OrderedDict RID String}

omit [Field K] [LinearOrder K]

theorem represents_of_base (base : InvertedIndex K) :
    Represents corpus (ofBase base) corpus := by
  constructor
  · intro rid
    rfl
  · intro rid hrid
    cases hrid

theorem Represents.step (h : Represents corpus s live) (call : Call) :
    Represents corpus (s.step call) (update live call) := by
  cases call with
  | insertDocument rid value =>
      cases value with
      | none => exact h
      | some text =>
          constructor
          · intro rid'
            simp only [MutableInvertedIndex.step, insertDocument, update, get?_set,
              Finset.mem_erase]
            by_cases heq : rid' = rid
            · simp [heq]
            · simp only [heq, if_false, ne_eq, not_false_eq_true, true_and]
              exact h.live rid'
          · intro rid' hrid'
            simp only [MutableInvertedIndex.step, insertDocument, Finset.mem_erase] at hrid'
            simp only [MutableInvertedIndex.step, insertDocument, get?_set,
              if_neg hrid'.1]
            exact h.apart rid' hrid'.2
  | removeDocument rid value =>
      constructor
      · intro rid'
        simp only [MutableInvertedIndex.step, removeDocument, update, get?_erase,
          Finset.mem_insert]
        by_cases heq : rid' = rid
        · simp [heq]
        · simp only [heq, if_false, false_or]
          exact h.live rid'
      · intro rid' hrid'
        simp only [MutableInvertedIndex.step, removeDocument, Finset.mem_insert] at hrid'
        simp only [MutableInvertedIndex.step, removeDocument, get?_erase]
        split
        · rfl
        · next hne => exact h.apart rid' (hrid'.resolve_left hne)

@[simp] theorem base_step (s : MutableInvertedIndex K) (call : Call) :
    (s.step call).base = s.base := by
  cases call with
  | insertDocument rid value =>
      cases value with
      | none => rfl
      | some text => rfl
  | removeDocument rid value => rfl

/-- A run keeps the index it started with and follows the live documents. -/
theorem represents_exec (h : Represents corpus s live) (calls : List Call) :
    Represents corpus (exec step s calls) (exec update live calls) ∧
      (exec step s calls).base = s.base := by
  induction calls generalizing s live with
  | nil => exact ⟨h, rfl⟩
  | cons call calls ih =>
      obtain ⟨hrep, hbase⟩ := ih (h.step call)
      exact ⟨hrep, hbase.trans (base_step s call)⟩

end Runs

/-! ## Documents that score -/

section Weights

variable {R : Reals K} {tokenizer : String → List String} {s : MutableInvertedIndex K}
  (query method : String)

/-- A term of a document counts in its score. -/
def Weighs (tokenizer : String → List String) (s : MutableInvertedIndex K) (method : String)
    (tokens : List String) (term : String) : Prop :=
  term ∈ tokens ∧ (method = "bm25" ∨ s.documentFrequency tokenizer term < s.effectiveN)

omit [Field K] [LinearOrder K] in
theorem document_frequency_le
    (hbase : ∀ term, (s.base.store.postings term).length ≤ s.base.store.N) (term : String) :
    s.documentFrequency tokenizer term ≤ s.effectiveN :=
  Nat.add_le_add (hbase term) List.countP_le_length

variable {e : RID × String}

omit [Field K] [LinearOrder K] in
theorem document_frequency_pos (he : e ∈ s.added.entries) {term : String}
    (hterm : term ∈ tokenizer e.2) : 0 < s.documentFrequency tokenizer term := by
  have hpos : 0 < s.added.entries.countP (fun e => term ∈ tokenizer e.2) :=
    List.countP_pos_iff.mpr ⟨e, he, by simpa using hterm⟩
  rw [documentFrequency]
  omega

variable [IsStrictOrderedRing K]

theorem effective_avgdl_pos (he : e ∈ s.added.entries) {term : String}
    (hterm : term ∈ tokenizer e.2) : 0 < s.effectiveAvgdl tokenizer := by
  have hn : 0 < s.effectiveN := by
    have hsize : 0 < s.added.size := List.length_pos_of_mem he
    rw [effectiveN]
    omega
  have hsum : 0 < (s.added.entries.map (fun e => (tokenizer e.2).length)).sum := by
    have hle : (tokenizer e.2).length ≤ (s.added.entries.map
        (fun e => (tokenizer e.2).length)).sum := List.single_le_sum (by simp) _
      (List.mem_map_of_mem he)
    have hlength : 0 < (tokenizer e.2).length := List.length_pos_of_mem hterm
    omega
  have hbase : (0 : K) ≤ s.base.store.avgdl := by
    rw [InvertedStore.avgdl]
    split
    · exact le_rfl
    · positivity
  have hsum' : (0 : K) < ((s.added.entries.map (fun e => (tokenizer e.2).length)).sum : Nat) := by
    exact_mod_cast hsum
  have hn' : (0 : K) < s.effectiveN := by exact_mod_cast hn
  rw [effectiveAvgdl, if_neg hn.ne']
  have hcount : (0 : K) ≤ s.base.store.N := Nat.cast_nonneg _
  positivity

/-- A term adds nothing negative, and something when it counts. -/
theorem score_step_returns (hbase : ∀ term, (s.base.store.postings term).length ≤ s.base.store.N)
    (he : e ∈ s.added.entries) (score : K) (term : String) :
    ∃ c, scoreStep R tokenizer s method (tokenizer e.2) score term = .ok (score + c) ∧ 0 ≤ c ∧
      (0 < c ↔ Weighs tokenizer s method (tokenizer e.2) term) := by
  by_cases hterm : term ∈ tokenizer e.2
  · have htf : 0 < (tokenizer e.2).count term := List.count_pos_iff.mpr hterm
    have hdf := document_frequency_pos he hterm
    have hle : s.documentFrequency tokenizer term ≤ s.effectiveN :=
      document_frequency_le hbase term
    rw [scoreStep, if_neg htf.ne']
    by_cases hmethod : method = "bm25"
    · rw [if_pos hmethod]
      have hpos : 0 < bm25Term R ((tokenizer e.2).count term) s.effectiveN
          (s.documentFrequency tokenizer term) (tokenizer e.2).length
          (s.effectiveAvgdl tokenizer) defaultK1 defaultB :=
        bm25_term_pos htf hle (effective_avgdl_pos he hterm) (by norm_num [defaultK1])
          (by norm_num [defaultB]) (by norm_num [defaultB])
      exact ⟨_, rfl, hpos.le, iff_of_true hpos ⟨hterm, Or.inl hmethod⟩⟩
    · obtain ⟨weight, hidf, hnonneg, hpos⟩ := idf_weight (R := R) hdf hle
      have htf' : (0 : K) < (tokenizer e.2).count term := by exact_mod_cast htf
      rw [if_neg hmethod, hidf, ok_bind]
      refine ⟨_, rfl, mul_nonneg htf'.le hnonneg, ?_⟩
      rw [mul_pos_iff_of_pos_left htf', hpos, Weighs]
      simp [hterm, hmethod]
  · rw [scoreStep, List.count_eq_zero.mpr hterm, if_pos rfl]
    exact ⟨0, by rw [add_zero], le_rfl, by simp [Weighs, hterm]⟩

theorem foldlM_score_step
    (hbase : ∀ term, (s.base.store.postings term).length ≤ s.base.store.N)
    {e : RID × String} (he : e ∈ s.added.entries) (terms : List String) (start : K) :
    ∃ score, terms.foldlM (scoreStep R tokenizer s method (tokenizer e.2)) start = .ok score ∧
      start ≤ score ∧
      (start < score ↔ ∃ term ∈ terms, Weighs tokenizer s method (tokenizer e.2) term) := by
  induction terms generalizing start with
  | nil => exact ⟨start, rfl, le_rfl, by simp⟩
  | cons term terms ih =>
      obtain ⟨c, hstep, hc, hweighs⟩ := score_step_returns (R := R) method hbase he start term
      obtain ⟨score, hfold, hle, hlt⟩ := ih (start + c)
      refine ⟨score, ?_, (le_add_of_nonneg_right hc).trans hle, ?_⟩
      · rw [List.foldlM_cons, hstep, ok_bind, hfold]
      · rw [List.exists_mem_cons_iff, ← hweighs, ← hlt]
        constructor
        · intro h
          rcases hc.lt_or_eq with hpos | rfl
          · exact Or.inl hpos
          · exact Or.inr (by simpa using h)
        · rintro (hpos | h)
          · exact (lt_add_of_pos_right start hpos).trans_le hle
          · exact (le_add_of_nonneg_right hc).trans_lt h

theorem score_document_returns
    (hbase : ∀ term, (s.base.store.postings term).length ≤ s.base.store.N)
    (he : e ∈ s.added.entries) :
    ∃ score, scoreDocument R tokenizer s query method e.2 = .ok score ∧
      (0 < score ↔
        ∃ term ∈ tokenizer query, Weighs tokenizer s method (tokenizer e.2) term) := by
  obtain ⟨score, hfold, hle, hlt⟩ := foldlM_score_step (R := R) method hbase he
    (tokenizer query) 0
  refine ⟨_, by rw [scoreDocument, hfold, ok_bind], ?_⟩
  rw [← hlt]
  split
  · next h =>
      have hlength : (0 : K) < (tokenizer e.2).length := by
        exact_mod_cast Nat.pos_of_ne_zero h.2
      exact div_pos_iff_of_pos_right (R.sqrt_pos hlength)
  · exact Iff.rfl

theorem score_added_returns
    (hbase : ∀ term, (s.base.store.postings term).length ≤ s.base.store.N) :
    ∃ scores, scoreAdded R tokenizer s query method = .ok scores ∧
      ∀ rid, (∃ e ∈ scores.entries, 0 < e.2 ∧ e.1 = rid) ↔
        ∃ text, s.added.get? rid = some text ∧
          ∃ term ∈ tokenizer query, Weighs tokenizer s method (tokenizer text) term := by
  rw [scoreAdded]
  by_cases hempty : s.added.entries = [] ∨ tokenizer query = []
  · rw [if_pos hempty]
    refine ⟨_, rfl, fun rid => iff_of_false (by simp [empty]) ?_⟩
    rintro ⟨text, htext, term, hterm, -⟩
    rcases hempty with hadded | hterms
    · have hmem := mem_of_get? htext
      rw [hadded] at hmem
      cases hmem
    · rw [hterms] at hterm
      cases hterm
  · rw [if_neg hempty]
    have hreturns : ∀ e ∈ s.added.entries, ∃ scored : RID × K, (do
        let score ← scoreDocument R tokenizer s query method e.2
        Except.ok (e.1, score)) = .ok scored := by
      intro e he
      obtain ⟨score, hscore, -⟩ := score_document_returns (R := R) query method hbase he
      exact ⟨(e.1, score), by rw [hscore, ok_bind]⟩
    obtain ⟨scored, hscored⟩ := mapM_of_returns hreturns
    have hkeys : scored.map Prod.fst = s.added.keys := by
      refine map_of_mapM hscored (fun e y h => ?_)
      obtain ⟨score, -, h⟩ := bind_eq_ok.mp h
      rw [← Except.ok.inj h]
    have hentries : (ofPairs scored).entries = scored :=
      entries_ofPairs (hkeys ▸ s.added.nodup)
    refine ⟨_, by rw [hscored, ok_bind], fun rid => ?_⟩
    rw [hentries]
    constructor
    · rintro ⟨⟨rid', score⟩, hmem, hpos, rfl⟩
      obtain ⟨e, he, h⟩ := mem_mapM hscored hmem
      obtain ⟨score', hscore, h⟩ := bind_eq_ok.mp h
      obtain ⟨rfl, rfl⟩ := Prod.mk.inj (Except.ok.inj h)
      obtain ⟨score'', hscore', hiff⟩ := score_document_returns (R := R) query method hbase he
      obtain rfl : score'' = score' := Except.ok.inj (hscore'.symm.trans hscore)
      exact ⟨e.2, get?_of_mem he, hiff.mp hpos⟩
    · rintro ⟨text, htext, hweighs⟩
      have he := mem_of_get? htext
      obtain ⟨score, hscore, hiff⟩ := score_document_returns (R := R) query method hbase he
      obtain ⟨y, hy, h⟩ := exists_of_mapM hscored he
      rw [hscore, ok_bind] at h
      obtain rfl := Except.ok.inj h
      exact ⟨_, hy, hiff.mpr hweighs, rfl⟩

end Weights

/-! ## What a MATCH finds -/

section Matching

variable [IsStrictOrderedRing K] {R : Reals K} {tokenizer : String → List String}
  {corpus live : OrderedDict RID String} {s : MutableInvertedIndex K} {query : String}

/-- The index still holds a text of the document that shares a term with the query. -/
def MatchedBase (tokenizer : String → List String) (corpus : OrderedDict RID String)
    (s : MutableInvertedIndex K) (query : String) (rid : RID) : Prop :=
  rid ∉ s.removed ∧ ∃ text, corpus.get? rid = some text ∧ Shares tokenizer query text

/-- The document was added with a text in which a term of the query counts. -/
def MatchedAdded (tokenizer : String → List String) (s : MutableInvertedIndex K)
    (query method : String) (rid : RID) : Prop :=
  ∃ text, s.added.get? rid = some text ∧
    ∃ term ∈ tokenizer query, Weighs tokenizer s method (tokenizer text) term

/-- A MATCH with room for every document of the index ranks these documents and no others. -/
theorem match_top_k_merged (hbase : build R tokenizer corpus = .ok s.base)
    (hrep : Represents corpus s live) {k : Nat} {o : Options K} (hcheck : o.check = .ok ())
    (hneeded : corpus.size ≤ k + s.removed.card + s.added.size) :
    ∃ merged : OrderedDict RID K,
      matchTopK R tokenizer s query k o = .ok ((ranked merged.entries).take k) ∧
      ∀ rid, rid ∈ merged.keys ↔ MatchedBase tokenizer corpus s query rid ∨
        MatchedAdded tokenizer s query o.methodName rid := by
  obtain ⟨hits, hmatch, hmatched⟩ :=
    @InvertedIndex.match_top_k_all K _ _ R tokenizer corpus s.base hbase query _ o hcheck hneeded
  have hdf : ∀ term, (s.base.store.postings term).length ≤ s.base.store.N := by
    intro term
    rw [store_of_build hbase]
    exact InvertedStore.length_postings_le tokenizer corpus term
  obtain ⟨scores, hscores, hpositive⟩ :=
    @score_added_returns K _ _ R tokenizer s query o.methodName _ hdf
  refine ⟨_, by rw [matchTopK, hmatch, ok_bind, hscores, ok_bind], fun rid => ?_⟩
  rw [mem_keys_foldl_set_of (fun e : RID × K => e.1 ∈ s.removed ∨ e.2 ≤ 0) Prod.fst
    (fun merged e => max ((merged.get? e.1).getD 0) e.2), unremoved, mem_keys_ofPairs]
  refine or_congr ?_ ?_
  · rw [MatchedBase, ← hmatched.mem rid, List.mem_map, List.mem_map]
    constructor
    · rintro ⟨e, he, rfl⟩
      obtain ⟨he, hremoved⟩ := List.mem_filter.mp he
      exact ⟨by simpa using hremoved, e, he, rfl⟩
    · rintro ⟨hremoved, e, he, rfl⟩
      exact ⟨e, List.mem_filter.mpr ⟨he, by simpa using hremoved⟩, rfl⟩
  · rw [MatchedAdded, ← hpositive rid]
    constructor
    · rintro ⟨e, he, hnot, rfl⟩
      exact ⟨e, he, not_le.mp (fun h => hnot (Or.inr h)), rfl⟩
    · rintro ⟨e, he, hpos, rfl⟩
      refine ⟨e, he, ?_, rfl⟩
      rintro (hremoved | hle)
      · obtain ⟨text, htext, -⟩ := (hpositive e.1).mp ⟨e, he, hpos, rfl⟩
        rw [hrep.apart e.1 hremoved] at htext
        cases htext
      · exact absurd hpos (not_lt.mpr hle)

section

omit [Field K] [LinearOrder K] [IsStrictOrderedRing K]

theorem live_of_matched (hrep : Represents corpus s live) {method : String} {rid : RID}
    (h : MatchedBase tokenizer corpus s query rid ∨ MatchedAdded tokenizer s query method rid) :
    rid ∈ live.keys := by
  rw [← get?_isSome, hrep.live rid]
  rcases h with ⟨hremoved, text, htext, -⟩ | ⟨text, htext, -⟩
  · rw [if_neg hremoved, htext]
    cases s.added.get? rid with
    | none => rfl
    | some text' => rfl
  · rw [htext]
    rfl

/-! ## The number of documents -/

/-- The live documents are the added ones and those of the collection that are not removed. -/
theorem mem_live_keys (hrep : Represents corpus s live) (rid : RID) :
    rid ∈ live.keys ↔ rid ∈ s.added.keys ∨ (rid ∉ s.removed ∧ rid ∈ corpus.keys) := by
  rw [← get?_isSome, ← get?_isSome, ← get?_isSome,
    hrep.live rid]
  by_cases hremoved : rid ∈ s.removed
  · simp [hremoved]
  · simp [hremoved, Option.isSome_or]

theorem card_keys {V : Type} (d : OrderedDict RID V) : d.keys.toFinset.card = d.size := by
  have hnodup : d.keys.Nodup := d.nodup
  rw [List.toFinset_card_of_nodup hnodup, size, keys, List.length_map]

theorem live_keys_eq (hrep : Represents corpus s live) :
    live.keys.toFinset = s.added.keys.toFinset ∪ (corpus.keys.toFinset \ s.removed) := by
  ext rid
  rw [List.mem_toFinset, mem_live_keys hrep]
  simp [and_comm]

theorem size_corpus_le (hrep : Represents corpus s live) :
    corpus.size ≤ live.size + s.removed.card := by
  rw [← card_keys corpus, ← card_keys live, live_keys_eq hrep]
  have hsub : corpus.keys.toFinset ⊆
      (s.added.keys.toFinset ∪ (corpus.keys.toFinset \ s.removed)) ∪ s.removed := by
    intro rid hrid
    by_cases hremoved : rid ∈ s.removed
    · exact Finset.mem_union_right _ hremoved
    · exact Finset.mem_union_left _
        (Finset.mem_union_right _ (Finset.mem_sdiff.mpr ⟨hrid, hremoved⟩))
  exact (Finset.card_le_card hsub).trans (Finset.card_union_le _ _)

end

/-- The removed RIDs that the collection lacks, and the added ones that it has. -/
def stray (corpus : OrderedDict RID String) (s : MutableInvertedIndex K) : Nat :=
  (s.removed \ corpus.keys.toFinset).card

def replaced (corpus : OrderedDict RID String) (s : MutableInvertedIndex K) : Nat :=
  (s.added.keys.toFinset ∩ corpus.keys.toFinset).card

omit [IsStrictOrderedRing K] in
/-- The length is the number of live documents when as many removals missed the collection as
additions fell on it. -/
theorem len_eq_iff (hbase : build R tokenizer corpus = .ok s.base)
    (hrep : Represents corpus s live) :
    s.len = .ok live.size ↔ stray corpus s = replaced corpus s := by
  have hapart : s.added.keys.toFinset ∩ (corpus.keys.toFinset \ s.removed) =
      s.added.keys.toFinset ∩ corpus.keys.toFinset := by
    ext rid
    simp only [Finset.mem_inter, Finset.mem_sdiff, List.mem_toFinset]
    refine and_congr_right (fun hadded => and_iff_left (fun hremoved => ?_))
    rw [← get?_isSome, hrep.apart rid hremoved] at hadded
    cases hadded
  have hunion := Finset.card_union_add_card_inter s.added.keys.toFinset
    (corpus.keys.toFinset \ s.removed)
  have hcorpus := Finset.card_sdiff_add_card_inter corpus.keys.toFinset s.removed
  have hremoved := Finset.card_sdiff_add_card_inter s.removed corpus.keys.toFinset
  rw [← live_keys_eq hrep, hapart, card_keys, card_keys] at hunion
  rw [card_keys] at hcorpus
  rw [Finset.inter_comm] at hremoved
  have hlen : s.base.len = corpus.size := len_of_build hbase
  rw [len, hlen, stray, replaced]
  split
  · next hlt =>
      refine iff_of_false (fun h => by cases h) ?_
      omega
  · next hle =>
      rw [Except.ok.injEq]
      omega

/-! ## MATCH and the live documents -/

/-- The state in which the index answers for the live documents. -/
structure Exact (tokenizer : String → List String) (corpus : OrderedDict RID String)
    (s : MutableInvertedIndex K) (query method : String) : Prop where
  /-- No text that was replaced shares a term with the query where its successor shares none. -/
  superseded : ∀ rid old new, corpus.get? rid = some old → s.added.get? rid = some new →
    Shares tokenizer query old → Shares tokenizer query new
  /-- An added document with a term of the query has one that some document lacks, or the
  method is BM25, or the index holds an older text of it with a term of the query. -/
  weighty : ∀ rid text, s.added.get? rid = some text → Shares tokenizer query text →
    (∃ term ∈ tokenizer query, Weighs tokenizer s method (tokenizer text) term) ∨
      ∃ old, corpus.get? rid = some old ∧ Shares tokenizer query old
  counted : stray corpus s = replaced corpus s

omit [Field K] [LinearOrder K] [IsStrictOrderedRing K] in
theorem matched_iff (hrep : Represents corpus s live) {method : String} :
    (∀ rid, (MatchedBase tokenizer corpus s query rid ∨
        MatchedAdded tokenizer s query method rid) ↔
      ∃ text, live.get? rid = some text ∧ Shares tokenizer query text) ↔
    (∀ rid old new, corpus.get? rid = some old → s.added.get? rid = some new →
      Shares tokenizer query old → Shares tokenizer query new) ∧
    (∀ rid text, s.added.get? rid = some text → Shares tokenizer query text →
      (∃ term ∈ tokenizer query, Weighs tokenizer s method (tokenizer text) term) ∨
        ∃ old, corpus.get? rid = some old ∧ Shares tokenizer query old) := by
  have hadded : ∀ {rid text}, s.added.get? rid = some text →
      live.get? rid = some text ∧ rid ∉ s.removed := by
    intro rid text htext
    refine ⟨by rw [hrep.live, htext]; rfl, fun hremoved => ?_⟩
    rw [hrep.apart rid hremoved] at htext
    cases htext
  constructor
  · intro h
    refine ⟨fun rid old new hold hnew hshares => ?_, fun rid text htext hshares => ?_⟩
    · obtain ⟨text, htext, hshares'⟩ :=
        (h rid).mp (Or.inl ⟨(hadded hnew).2, old, hold, hshares⟩)
      obtain rfl := Option.some.inj ((hadded hnew).1.symm.trans htext)
      exact hshares'
    · rcases (h rid).mpr ⟨text, (hadded htext).1, hshares⟩ with
        ⟨-, old, hold, hshares'⟩ | ⟨text', htext', hweighs⟩
      · exact Or.inr ⟨old, hold, hshares'⟩
      · obtain rfl := Option.some.inj (htext.symm.trans htext')
        exact Or.inl hweighs
  · rintro ⟨hsuperseded, hweighty⟩ rid
    constructor
    · rintro (⟨hremoved, old, hold, hshares⟩ | ⟨text, htext, term, hterm, hweighs⟩)
      · cases hnew : s.added.get? rid with
        | none =>
            refine ⟨old, ?_, hshares⟩
            rw [hrep.live, hnew, if_neg hremoved, hold]
            rfl
        | some new => exact ⟨new, (hadded hnew).1, hsuperseded rid old new hold hnew hshares⟩
      · exact ⟨text, (hadded htext).1, term, hterm, hweighs.1⟩
    · rintro ⟨text, htext, hshares⟩
      cases hnew : s.added.get? rid with
      | none =>
          rw [hrep.live, hnew, Option.none_or] at htext
          split at htext
          · cases htext
          · next hremoved => exact Or.inl ⟨hremoved, text, htext, hshares⟩
      | some new =>
          obtain rfl := Option.some.inj ((hadded hnew).1.symm.trans htext)
          rcases hweighty rid new hnew hshares with hweighs | ⟨old, hold, hshares'⟩
          · exact Or.inr ⟨new, hnew, hweighs⟩
          · exact Or.inl ⟨(hadded hnew).2, old, hold, hshares'⟩

end Matching

section Exactness

variable [IsStrictOrderedRing K] {R : Reals K} {tokenizer : String → List String}

/-- After any run, a MATCH that asks for at least as many documents as are live finds exactly
the live documents that share a term with the query, and the length is their number, if and
only if the state is `Exact`. -/
theorem match_top_k_exact_iff {corpus : OrderedDict RID String} {base : InvertedIndex K}
    (hbase : build R tokenizer corpus = .ok base) (calls : List Call)
    (query : String) {k : Nat} {o : Options K} (hcheck : o.check = .ok ())
    (hk : (exec update corpus calls).size ≤ k) :
    ((∃ hits, matchTopK R tokenizer (exec step (ofBase base) calls) query k o = .ok hits ∧
        InvertedIndex.Matched tokenizer (exec update corpus calls) query hits) ∧
      (exec step (ofBase base) calls).len = .ok (exec update corpus calls).size) ↔
    Exact tokenizer corpus (exec step (ofBase base) calls) query o.methodName := by
  obtain ⟨hrep, hsame⟩ := represents_exec (represents_of_base base) calls
  generalize exec step (ofBase base) calls = s at hrep hsame ⊢
  generalize exec update corpus calls = live at hrep hk ⊢
  have hbuild : build R tokenizer corpus = .ok s.base := by
    rw [hsame]
    exact hbase
  have hneeded : corpus.size ≤ k + s.removed.card + s.added.size := by
    have hle := size_corpus_le hrep
    omega
  obtain ⟨merged, hmatch, hkeys⟩ :=
    @match_top_k_merged K _ _ _ R tokenizer corpus live s query hbuild hrep k o hcheck hneeded
  have hperm := ranked_perm merged.entries
  have hsize : merged.entries.length ≤ k := by
    have hsub : merged.keys ⊆ live.keys :=
      fun rid hrid => live_of_matched hrep ((hkeys rid).mp hrid)
    have hle := (merged.nodup.subperm hsub).length_le
    rw [List.length_map, keys, List.length_map] at hle
    exact hle.trans hk
  rw [List.take_of_length_le (hperm.length_eq.trans_le hsize)] at hmatch
  have hmem : ∀ rid, rid ∈ (ranked merged.entries).map Prod.fst ↔
      MatchedBase tokenizer corpus s query rid ∨
        MatchedAdded tokenizer s query o.methodName rid := by
    intro rid
    rw [(hperm.map Prod.fst).mem_iff]
    exact hkeys rid
  have hfound : (∃ hits, matchTopK R tokenizer s query k o = .ok hits ∧
      InvertedIndex.Matched tokenizer live query hits) ↔
      ∀ rid, (MatchedBase tokenizer corpus s query rid ∨
        MatchedAdded tokenizer s query o.methodName rid) ↔
          ∃ text, live.get? rid = some text ∧ Shares tokenizer query text := by
    constructor
    · rintro ⟨hits, hhits, hmatched⟩ rid
      obtain rfl := Except.ok.inj (hmatch.symm.trans hhits)
      rw [← hmem rid, hmatched.mem rid]
    · intro h
      refine ⟨_, hmatch, (hperm.map Prod.fst).nodup_iff.mpr merged.nodup, fun rid => ?_⟩
      rw [hmem rid, h rid]
  rw [hfound, matched_iff hrep, len_eq_iff hbuild hrep]
  exact ⟨fun h => ⟨h.1.1, h.1.2, h.2⟩, fun h => ⟨⟨h.superseded, h.weighty⟩, h.counted⟩⟩

end Exactness

/-! ## A word that every document has -/

/-- Each character is a term. -/
def characters (text : String) : List String := text.toList.map (fun c => String.ofList [c])

/-- A collection of one document, and its index. -/
def oneDocument : OrderedDict RID String := ⟨[(⟨0, 0⟩, "a")], List.nodup_singleton _⟩

def indexOfOne : InvertedIndex ℚ := ⟨InvertedStore.build characters oneDocument, [0]⟩

theorem build_one_document :
    build Reals.rational characters oneDocument = .ok indexOfOne := by
  decide +kernel

/-- A document with another word comes, and one with both goes. -/
def callsExact : List Call :=
  [.insertDocument ⟨0, 1⟩ (some "b"), .insertDocument ⟨0, 2⟩ (some "ab"),
    .removeDocument ⟨0, 0⟩ (some "a")]

theorem match_top_k_exact_iff_of_calls :
    ((∃ hits, matchTopK Reals.rational characters (exec step (ofBase indexOfOne) callsExact)
        "b" 2 Options.default = .ok hits ∧
        InvertedIndex.Matched characters (exec update oneDocument callsExact) "b" hits) ∧
      (exec step (ofBase indexOfOne) callsExact).len =
        .ok (exec update oneDocument callsExact).size) ↔
    Exact characters oneDocument (exec step (ofBase indexOfOne) callsExact) "b" "tf_idf" :=
  match_top_k_exact_iff build_one_document callsExact "b" rfl (by decide)

/-- A second document with the same word is live, and a MATCH for the word misses it. -/
theorem added_document_missed :
    (matchTopK Reals.rational characters
        (exec step (ofBase indexOfOne) [.insertDocument ⟨0, 1⟩ (some "a")]) "a" 2
        Options.default).map (fun hits => hits.map Prod.fst) = .ok [⟨0, 0⟩] ∧
      (exec update oneDocument [.insertDocument ⟨0, 1⟩ (some "a")]).get? ⟨0, 1⟩ = some "a" ∧
      ¬ ∃ hits, matchTopK Reals.rational characters
          (exec step (ofBase indexOfOne) [.insertDocument ⟨0, 1⟩ (some "a")]) "a" 2
          Options.default = .ok hits ∧
        InvertedIndex.Matched characters
          (exec update oneDocument [.insertDocument ⟨0, 1⟩ (some "a")]) "a" hits := by
  have hfound : (matchTopK Reals.rational characters
      (exec step (ofBase indexOfOne) [.insertDocument ⟨0, 1⟩ (some "a")]) "a" 2
      Options.default).map (fun hits => hits.map Prod.fst) = .ok [⟨0, 0⟩] := by
    decide +kernel
  refine ⟨hfound, by decide, ?_⟩
  rintro ⟨hits, hmatch, hmatched⟩
  rw [hmatch] at hfound
  have hmem := (hmatched.mem ⟨0, 1⟩).mpr ⟨"a", by decide, by decide⟩
  have hrids : hits.map Prod.fst = [⟨0, 0⟩] := Except.ok.inj hfound
  rw [hrids] at hmem
  revert hmem
  decide

end MutableInvertedIndex
end SoupDB
