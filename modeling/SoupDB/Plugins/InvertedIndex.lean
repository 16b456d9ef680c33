import SoupDB.Common.Schema
import SoupDB.Plugins.Postings
import SoupDB.Plugins.Scoring

/-!
# SoupDB: the inverted index

Text ranking over a collection of documents that does not change.  A store has the RIDs and
lengths of its documents, by document number, and the postings of every term; the index adds
the norms of the documents.

The tokenizer is a parameter.  Main facts: an index can be built of every collection
(`build_returns`), and a MATCH that asks for enough finds the documents that share a term with
the query, each once (`match_top_k_all`).
-/

namespace SoupDB

open OrderedDict

/-- The order of RIDs as pairs. -/
def ridLe (a b : RID) : Prop :=
  a.pageId < b.pageId ∨ (a.pageId = b.pageId ∧ a.slot ≤ b.slot)

instance decidableRidLe (a b : RID) : Decidable (ridLe a b) :=
  inferInstanceAs (Decidable (_ ∨ _))

theorem rid_le_antisymm {a b : RID} (hab : ridLe a b) (hba : ridLe b a) : a = b := by
  unfold ridLe at hab hba
  cases a with
  | mk page slot =>
      cases b with
      | mk page' slot' =>
          simp only at hab hba
          rw [RID.mk.injEq]
          omega

structure InvertedStore where
  rids : List RID
  docLengths : List Nat
  terms : List (String × List Posting)
deriving DecidableEq

/-- A ranked answer: RIDs and their scores. -/
abbrev Hits (K : Type) : Type := List (RID × K)

variable {K : Type} [Field K] [LinearOrder K]

/-- Descending score, and ascending RID where scores are equal. -/
def ranked (hits : Hits K) : Hits K :=
  hits.insertionSort (fun a b => b.2 < a.2 ∨ (a.2 = b.2 ∧ ridLe a.1 b.1))

omit [Field K] in
theorem ranked_perm (hits : Hits K) : (ranked hits).Perm hits := List.perm_insertionSort _ hits

/-- The order of hits: descending score, then ascending RID. -/
def hitLe (a b : RID × K) : Prop := b.2 < a.2 ∨ (a.2 = b.2 ∧ ridLe a.1 b.1)

instance decidableHitLe (a b : RID × K) : Decidable (hitLe a b) :=
  inferInstanceAs (Decidable (_ ∨ _))

instance totalHitLe : Std.Total (hitLe (K := K)) where
  total a b := by
    rcases lt_trichotomy a.2 b.2 with h | h | h
    · exact Or.inr (Or.inl h)
    · have hrid : ridLe a.1 b.1 ∨ ridLe b.1 a.1 := by
        unfold ridLe
        omega
      exact hrid.imp (fun hab => Or.inr ⟨h, hab⟩) (fun hba => Or.inr ⟨h.symm, hba⟩)
    · exact Or.inl (Or.inl h)

instance transHitLe : IsTrans (RID × K) hitLe where
  trans a b c hab hbc := by
    rcases hab with hab | ⟨hab, hrid⟩
    · rcases hbc with hbc | ⟨hbc, -⟩
      · exact Or.inl (hbc.trans hab)
      · exact Or.inl (hbc ▸ hab)
    · rcases hbc with hbc | ⟨hbc, hrid'⟩
      · exact Or.inl (hab ▸ hbc)
      · refine Or.inr ⟨hab.trans hbc, ?_⟩
        unfold ridLe at *
        omega

instance antisymmHitLe : Std.Antisymm (hitLe (K := K)) where
  antisymm a b hab hba := by
    rcases hab with hab | ⟨hab, hrid⟩
    · rcases hba with hba | ⟨hba, -⟩
      · exact absurd hab hba.asymm
      · exact absurd hba hab.ne
    · rcases hba with hba | ⟨-, hrid'⟩
      · exact absurd hab hba.ne
      · exact Prod.ext (rid_le_antisymm hrid hrid') hab

omit [Field K] in
theorem ranked_eq (hits : Hits K) : ranked hits = hits.insertionSort hitLe := rfl

omit [Field K] in
/-- The hits come by descending score. -/
theorem ranked_sorted (hits : Hits K) :
    (ranked hits).Pairwise (fun a b => b.2 ≤ a.2) := by
  rw [ranked_eq]
  refine (List.pairwise_insertionSort hitLe hits).imp (fun {a b} h => ?_)
  rcases h with h | ⟨h, -⟩
  · exact h.le
  · exact h.symm.le

/-- The documents share an analyzed term. -/
def Shares (tokenizer : String → List String) (query text : String) : Prop :=
  ∃ term ∈ tokenizer query, term ∈ tokenizer text

instance decidableShares (tokenizer : String → List String) (query text : String) :
    Decidable (Shares tokenizer query text) :=
  inferInstanceAs (Decidable (∃ _ ∈ _, _))

namespace InvertedStore

/-- The number of documents. -/
def N (store : InvertedStore) : Nat := store.rids.length

def avgdl (store : InvertedStore) : K :=
  if store.N = 0 then 0 else (store.docLengths.sum : K) / store.N

def postings (store : InvertedStore) (term : String) : List Posting :=
  ((store.terms.find? (fun e => e.1 = term)).map Prod.snd).getD []

variable (tokenizer : String → List String)

/-- The store of a collection; documents are numbered in its order. -/
def build (corpus : OrderedDict RID String) : InvertedStore :=
  let docs := corpus.entries.map (fun e => tokenizer e.2)
  { rids := corpus.keys
    docLengths := docs.map List.length
    terms := referenceIndex docs }

theorem N_build (corpus : OrderedDict RID String) : (build tokenizer corpus).N = corpus.size := by
  rw [N, build, keys, List.length_map, size]

/-- The postings that are looked up are those of the reference. -/
theorem postings_build (corpus : OrderedDict RID String) (term : String) :
    (build tokenizer corpus).postings term =
      postingsOf (corpus.entries.map (fun e => tokenizer e.2)) term := by
  have hfind : ∀ (docs : List (List String)) (terms : List String),
      ((terms.map (fun term => (term, postingsOf docs term))).find? (fun e => e.1 = term)).map
        Prod.snd = if term ∈ terms then some (postingsOf docs term) else none := by
    intro docs terms
    induction terms with
    | nil => rfl
    | cons term' terms ih =>
        by_cases hterm : term' = term
        · subst hterm
          simp
        · rw [List.map_cons, List.find?_cons_of_neg (by simpa using hterm), ih]
          simp [Ne.symm hterm]
  rw [postings, build, referenceIndex, hfind]
  split
  · rfl
  · next hterm =>
      refine (List.eq_nil_iff_forall_not_mem.mpr ?_).symm
      rintro ⟨docId, tf⟩ hmem
      obtain ⟨terms, hget, hin, -⟩ := mem_postings_of.mp hmem
      exact hterm (mem_vocabulary.mpr ⟨terms, List.mem_of_getElem? hget, hin⟩)

variable {corpus : OrderedDict RID String}

theorem mem_postings_build {term : String} {rid : RID} :
    (∃ p ∈ (build tokenizer corpus).postings term, corpus.keys[p.1]? = some rid) ↔
      ∃ text, corpus.get? rid = some text ∧ term ∈ tokenizer text := by
  constructor
  · rintro ⟨⟨docId, tf⟩, hp, hrid⟩
    rw [postings_build] at hp
    obtain ⟨terms, hget, hin, -⟩ := mem_postings_of.mp hp
    rw [List.getElem?_map, Option.map_eq_some_iff] at hget
    obtain ⟨e, he, rfl⟩ := hget
    rw [keys, List.getElem?_map, he, Option.map_some, Option.some.injEq] at hrid
    rw [← hrid]
    exact ⟨e.2, get?_of_mem (List.mem_of_getElem? he), hin⟩
  · rintro ⟨text, htext, hin⟩
    obtain ⟨docId, hlt, hget⟩ := List.getElem_of_mem (mem_of_get? htext)
    have hget' : corpus.entries[docId]? = some (rid, text) := by
      rw [List.getElem?_eq_getElem hlt, hget]
    refine ⟨(docId, (tokenizer text).count term), ?_, ?_⟩
    · rw [postings_build, mem_postings_of]
      exact ⟨tokenizer text, by rw [List.getElem?_map, hget']; rfl, hin, rfl⟩
    · rw [keys, List.getElem?_map, hget']
      rfl

theorem lt_of_mem_postings {term : String} {p : Posting}
    (hp : p ∈ (build tokenizer corpus).postings term) : p.1 < corpus.keys.length := by
  rw [postings_build] at hp
  obtain ⟨terms, hget, -⟩ := mem_postings_of.mp hp
  rw [keys, List.length_map, ← List.length_map (fun e => tokenizer e.2)]
  exact (List.getElem?_eq_some_iff.mp hget).1

theorem length_postings_build (corpus : OrderedDict RID String) (term : String) :
    ((build tokenizer corpus).postings term).length =
      corpus.entries.countP (fun e => term ∈ tokenizer e.2) := by
  rw [postings_build, length_postings_of, List.countP_map]
  rfl

theorem length_postings_le (corpus : OrderedDict RID String) (term : String) :
    ((build tokenizer corpus).postings term).length ≤ (build tokenizer corpus).N := by
  rw [length_postings_build, N_build]
  exact List.countP_le_length

end InvertedStore

structure InvertedIndex (K : Type) where
  store : InvertedStore
  norms : List K
deriving DecidableEq

/-- The options of a search. -/
structure Options (K : Type) where
  unknown : List String
  method : Option String
  matchesOnly : Bool
  k1 : Option K
  b : Option K

namespace Options

/-- No option is given. -/
def default : Options K := ⟨[], none, false, none, none⟩

def methodName (o : Options K) : String := o.method.getD "tf_idf"

def check (o : Options K) : Except PyError Unit :=
  if o.unknown ≠ [] then
    let names := (o.unknown.mergeSort (fun a b => a ≤ b)).map reprStr
    .error (.ValueError ("unknown search options: [" ++ ", ".intercalate names ++ "]"))
  else if o.methodName ≠ "tf_idf" ∧ o.methodName ≠ "bm25" then
    .error (.ValueError "method must be tf_idf or bm25")
  else if o.methodName = "bm25" then
    validateBm25 (o.k1.getD defaultK1) (o.b.getD defaultB)
  else if o.k1.isSome ∨ o.b.isSome then
    .error (.ValueError "k1 and b require method=bm25")
  else .ok ()

def matching (o : Options K) : Options K := { o with matchesOnly := true }

theorem check_matching (o : Options K) : o.matching.check = o.check := rfl

end Options

namespace InvertedIndex

variable (R : Reals K) (tokenizer : String → List String)

/-- The squares of the norms, term by term. -/
def squaredNorms (store : InvertedStore) : Except PyError (List K) :=
  store.terms.foldlM (fun squared e => do
    let inverseFrequency ← idf R store.N e.2.length
    .ok (e.2.foldl
      (fun squared p => squared.modify p.1 (fun x => x + ((p.2 : K) * inverseFrequency) ^ 2))
      squared)) (List.replicate store.N 0)

/-- `InvertedIndex(store)`. -/
def init (store : InvertedStore) : Except PyError (InvertedIndex K) := do
  let squared ← squaredNorms R store
  .ok ⟨store, squared.map R.sqrt⟩

def build (corpus : OrderedDict RID String) : Except PyError (InvertedIndex K) :=
  init R (InvertedStore.build tokenizer corpus)

/-- `len(index)`. -/
def len (index : InvertedIndex K) : Nat := index.store.N

/-- `scores[doc_id] = scores.get(doc_id, 0.0) + contribution`. -/
def addScore (scores : OrderedDict Nat K) (docId : Nat) (contribution : K) :
    OrderedDict Nat K :=
  scores.set docId ((scores.get? docId).getD 0 + contribution)

/-- What a term of the query contributes to the scores and to the squared norm of the query. -/
def scoreTerm (store : InvertedStore) (o : Options K)
    (state : OrderedDict Nat K × K) (term : String × Nat) :
    Except PyError (OrderedDict Nat K × K) :=
  let postings := store.postings term.1
  if postings = [] then .ok state
  else if o.methodName = "tf_idf" then do
    let inverseFrequency ← idf R store.N postings.length
    let queryWeight := term.2 * inverseFrequency
    .ok (postings.foldl (fun scores p =>
        addScore scores p.1 (queryWeight * p.2 * inverseFrequency)) state.1,
      state.2 + queryWeight ^ 2)
  else
    .ok (postings.foldl (fun scores p =>
        addScore scores p.1 (term.2 * bm25Term R p.2 store.N postings.length
          (store.docLengths.getD p.1 0) store.avgdl (o.k1.getD defaultK1)
          (o.b.getD defaultB))) state.1, state.2)

/-- The scores of the documents that share a term with the query. -/
def scores (index : InvertedIndex K) (query : String) (o : Options K) :
    Except PyError (OrderedDict Nat K) := do
  let (scores, querySquaredNorm) ←
    (counter (tokenizer query)).foldlM (scoreTerm R index.store o) (empty, 0)
  if o.methodName = "tf_idf" then
    let queryNorm := R.sqrt querySquaredNorm
    .ok (scores.mapValues (fun docId dot => cosine dot queryNorm (index.norms.getD docId 0)))
  else .ok scores

def hit (index : InvertedIndex K) (scores : OrderedDict Nat K) (docId : Nat) : RID × K :=
  (index.store.rids.getD docId ⟨0, 0⟩, (scores.get? docId).getD 0)

def topK (index : InvertedIndex K) (query : String) (k : Nat) (o : Options K) :
    Except PyError (Hits K) := do
  o.check
  if k = 0 then .ok []
  else do
    let scores ← scores R tokenizer index query o
    let candidates := if o.matchesOnly then scores.keys else List.range index.store.N
    .ok ((ranked (candidates.map (hit index scores))).take k)

/-- MATCH: only documents that share a term with the query. -/
def matchTopK (index : InvertedIndex K) (query : String) (k : Nat) (o : Options K) :
    Except PyError (Hits K) := topK R tokenizer index query k o.matching

/-! ## What a search returns -/

section Search

variable {R tokenizer}

variable {store : InvertedStore} {o : Options K}

theorem score_term_returns {state : OrderedDict Nat K × K} {term : String × Nat}
    (hdf : (store.postings term.1).length ≤ store.N) :
    ∃ state', scoreTerm R store o state term = .ok state' ∧
      ∀ docId, docId ∈ state'.1.keys ↔
        docId ∈ state.1.keys ∨ ∃ p ∈ store.postings term.1, p.1 = docId := by
  have hkeys : ∀ contribution : Posting → K, ∀ docId,
      docId ∈ ((store.postings term.1).foldl
        (fun scores p => addScore scores p.1 (contribution p)) state.1).keys ↔
        docId ∈ state.1.keys ∨ ∃ p ∈ store.postings term.1, p.1 = docId :=
    fun contribution docId => mem_keys_foldl_set Prod.fst
      (fun scores p => (scores.get? p.1).getD 0 + contribution p) _ _
  rw [scoreTerm]
  by_cases hnil : store.postings term.1 = []
  · rw [if_pos hnil]
    exact ⟨state, rfl, by simp [hnil]⟩
  · rw [if_neg hnil]
    split
    · rw [idf_ok hdf]
      exact ⟨_, rfl, hkeys _⟩
    · exact ⟨_, rfl, hkeys _⟩

theorem foldlM_score_term (hdf : ∀ term, (store.postings term).length ≤ store.N)
    (terms : List (String × Nat)) (state : OrderedDict Nat K × K) :
    ∃ state', terms.foldlM (scoreTerm R store o) state = .ok state' ∧
      ∀ docId, docId ∈ state'.1.keys ↔
        docId ∈ state.1.keys ∨ ∃ e ∈ terms, ∃ p ∈ store.postings e.1, p.1 = docId := by
  induction terms generalizing state with
  | nil => exact ⟨state, rfl, by simp⟩
  | cons e terms ih =>
      obtain ⟨state', hstep, hkeys⟩ := score_term_returns (R := R) (o := o) (hdf e.1)
      obtain ⟨state'', hrest, hkeys'⟩ := ih state'
      refine ⟨state'', ?_, fun docId => ?_⟩
      · rw [List.foldlM_cons, hstep, ok_bind, hrest]
      · rw [hkeys', hkeys]
        simp [or_assoc]

theorem scores_returns {index : InvertedIndex K} {query : String} {o : Options K}
    (hdf : ∀ term, (index.store.postings term).length ≤ index.store.N) :
    ∃ scored, scores R tokenizer index query o = .ok scored ∧
      ∀ docId, docId ∈ scored.keys ↔
        ∃ term ∈ tokenizer query, ∃ p ∈ index.store.postings term, p.1 = docId := by
  obtain ⟨⟨scored, norm⟩, hfold, hkeys⟩ := foldlM_score_term (R := R) (o := o) hdf
    (counter (tokenizer query)) (empty, 0)
  have hdocs : ∀ docId, docId ∈ scored.keys ↔
      ∃ term ∈ tokenizer query, ∃ p ∈ index.store.postings term, p.1 = docId := by
    intro docId
    rw [hkeys docId]
    simp [empty, keys, counter, List.mem_eraseDups]
  rw [scores, hfold, ok_bind]
  dsimp only
  split
  · refine ⟨_, rfl, fun docId => ?_⟩
    rw [keys_map_values]
    exact hdocs docId
  · exact ⟨scored, rfl, hdocs⟩

/-- A search with options that are in order takes the best of its candidates. -/
theorem top_k_of_scores {index : InvertedIndex K} {query : String} {k : Nat}
    {scored : OrderedDict Nat K} (hcheck : o.check = .ok ()) (hk : k ≠ 0)
    (hscores : scores R tokenizer index query o = .ok scored) :
    topK R tokenizer index query k o = .ok ((ranked ((if o.matchesOnly then scored.keys
      else List.range index.store.N).map (hit index scored))).take k) := by
  rw [topK, hcheck, ok_bind, if_neg hk, hscores, ok_bind]

end Search

/-! ## Indexes of a collection -/

section Built

variable {R tokenizer} {corpus : OrderedDict RID String} {index : InvertedIndex K}

theorem build_returns (corpus : OrderedDict RID String) :
    ∃ index, build R tokenizer corpus = .ok index := by
  have hfold : ∀ (terms : List (String × List Posting)) (n : Nat) (squared : List K),
      (∀ e ∈ terms, e.2.length ≤ n) → ∃ squared', terms.foldlM (fun squared e => do
        let inverseFrequency ← idf R n e.2.length
        .ok (e.2.foldl (fun squared p =>
          squared.modify p.1 (fun x => x + ((p.2 : K) * inverseFrequency) ^ 2)) squared))
        squared = (.ok squared' : Except PyError (List K)) := by
    intro terms n
    induction terms with
    | nil => exact fun squared _ => ⟨squared, rfl⟩
    | cons e terms ih =>
        intro squared hdf
        obtain ⟨squared', h⟩ := ih (e.2.foldl (fun squared p => squared.modify p.1
          (fun x => x + ((p.2 : K) *
            (if e.2.length = 0 then 0 else R.log ((n : K) / e.2.length))) ^ 2)) squared)
            (fun e' he' => hdf e' (by simp [he']))
        refine ⟨squared', ?_⟩
        rw [List.foldlM_cons, idf_ok (hdf e (by simp)), ok_bind, ok_bind, h]
  have hdf : ∀ e ∈ (InvertedStore.build tokenizer corpus).terms,
      e.2.length ≤ (InvertedStore.build tokenizer corpus).N := by
    intro e he
    obtain ⟨term, -, rfl⟩ := List.mem_map.mp he
    have hle := InvertedStore.length_postings_le tokenizer corpus term
    rwa [InvertedStore.postings_build] at hle
  obtain ⟨squared, h⟩ := hfold _ _ (List.replicate (InvertedStore.build tokenizer corpus).N 0) hdf
  exact ⟨⟨_, squared.map R.sqrt⟩, bind_eq_ok.mpr ⟨squared, h, rfl⟩⟩

theorem store_of_build (h : build R tokenizer corpus = .ok index) :
    index.store = InvertedStore.build tokenizer corpus := by
  obtain ⟨squared, -, h⟩ := bind_eq_ok.mp h
  exact (congrArg InvertedIndex.store (Except.ok.inj h)).symm

theorem len_of_build (h : build R tokenizer corpus = .ok index) : index.len = corpus.size := by
  rw [len, store_of_build h, InvertedStore.N_build]

/-- The documents a MATCH finds, before any are left out. -/
structure Matched (tokenizer : String → List String) (corpus : OrderedDict RID String)
    (query : String) (hits : Hits K) : Prop where
  nodup : (hits.map Prod.fst).Nodup
  mem : ∀ rid, rid ∈ hits.map Prod.fst ↔
    ∃ text, corpus.get? rid = some text ∧ Shares tokenizer query text

omit [Field K] [LinearOrder K] in
theorem Matched.length_le {query : String} {hits : Hits K}
    (h : Matched tokenizer corpus query hits) : hits.length ≤ corpus.size := by
  have hsub : hits.map Prod.fst ⊆ corpus.keys := by
    intro rid hrid
    obtain ⟨text, htext, -⟩ := (h.mem rid).mp hrid
    exact get?_isSome.mp (by rw [htext]; rfl)
  have hle := (h.nodup.subperm hsub).length_le
  rwa [List.length_map, keys, List.length_map] at hle

/-- A MATCH returns the best of the documents that share a term with the query. -/
theorem match_top_k_build (h : build R tokenizer corpus = .ok index) {query : String} {k : Nat}
    {o : Options K} (hcheck : o.check = .ok ()) (hk : k ≠ 0) :
    ∃ hits, matchTopK R tokenizer index query k o = .ok ((ranked hits).take k) ∧
      Matched tokenizer corpus query hits := by
  have hstore := store_of_build h
  have hdf : ∀ term, (index.store.postings term).length ≤ index.store.N := by
    intro term
    rw [hstore]
    exact InvertedStore.length_postings_le tokenizer corpus term
  obtain ⟨scored, hscores, hdocs⟩ :=
    @scores_returns K _ _ R tokenizer index query o.matching hdf
  have htop := top_k_of_scores (k := k) (o := o.matching) hcheck hk hscores
  have hrid : ∀ {docId}, docId ∈ scored.keys →
      corpus.keys[docId]? = some (hit index scored docId).1 := by
    intro docId hdoc
    obtain ⟨term, -, p, hp, rfl⟩ := (hdocs docId).mp hdoc
    rw [hstore] at hp
    have hlt := InvertedStore.lt_of_mem_postings tokenizer hp
    rw [hit, hstore, InvertedStore.build, List.getD_eq_getElem?_getD,
      List.getElem?_eq_getElem hlt, Option.getD_some]
  refine ⟨scored.keys.map (hit index scored), htop, ?_, fun rid => ?_⟩
  · rw [List.map_map]
    refine List.Nodup.map_on (fun a ha b hb heq => ?_) scored.nodup
    have hkeys : corpus.keys[a]? = corpus.keys[b]? := by
      rw [hrid ha, hrid hb]
      exact congrArg some heq
    exact (List.getElem?_inj (List.getElem?_eq_some_iff.mp (hrid ha)).1 corpus.nodup).mp hkeys
  · rw [List.map_map, List.mem_map]
    constructor
    · rintro ⟨docId, hdoc, rfl⟩
      obtain ⟨term, hterm, p, hp, rfl⟩ := (hdocs docId).mp hdoc
      rw [hstore] at hp
      obtain ⟨text, htext, hin⟩ :=
        (InvertedStore.mem_postings_build tokenizer).mp ⟨p, hp, hrid hdoc⟩
      exact ⟨text, htext, term, hterm, hin⟩
    · rintro ⟨text, htext, term, hterm, hin⟩
      obtain ⟨p, hp, hget⟩ :=
        (InvertedStore.mem_postings_build tokenizer).mpr ⟨text, htext, hin⟩
      have hdoc : p.1 ∈ scored.keys := (hdocs p.1).mpr ⟨term, hterm, p, by rwa [hstore], rfl⟩
      refine ⟨p.1, hdoc, ?_⟩
      have heq := (hrid hdoc).symm.trans hget
      exact Option.some.inj heq

/-- A MATCH that asks for as many documents as there are finds all that share a term. -/
theorem match_top_k_all (h : build R tokenizer corpus = .ok index) {query : String} {k : Nat}
    {o : Options K} (hcheck : o.check = .ok ()) (hk : corpus.size ≤ k) :
    ∃ hits, matchTopK R tokenizer index query k o = .ok hits ∧
      Matched tokenizer corpus query hits := by
  rcases Nat.eq_zero_or_pos k with rfl | hpos
  · refine ⟨[], ?_, List.nodup_nil, fun rid => ?_⟩
    · rw [matchTopK, topK, Options.check_matching, hcheck, ok_bind, if_pos rfl]
    · refine iff_of_false List.not_mem_nil ?_
      rintro ⟨text, htext, -⟩
      have hmem := mem_of_get? htext
      rw [List.eq_nil_of_length_eq_zero (Nat.le_zero.mp hk)] at hmem
      cases hmem
  · obtain ⟨hits, hmatch, hmatched⟩ :=
      @match_top_k_build K _ _ R tokenizer corpus index h query k o hcheck hpos.ne'
    have hperm := ranked_perm hits
    refine ⟨ranked hits, ?_, ?_, fun rid => ?_⟩
    · rw [hmatch, List.take_of_length_le (hperm.length_eq.trans_le (hmatched.length_le.trans hk))]
    · exact (hperm.map Prod.fst).nodup_iff.mpr hmatched.nodup
    · rw [(hperm.map Prod.fst).mem_iff]
      exact hmatched.mem rid

end Built

end InvertedIndex
end SoupDB
