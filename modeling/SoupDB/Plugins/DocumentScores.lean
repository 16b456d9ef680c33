import SoupDB.Plugins.InvertedIndex

/-!
# SoupDB: the scores of an index that was built

What a search adds up, document by document: the score of a text is a function of the text and
of the counts of the collection (`documentScore`).  A text none of whose terms counts scores zero,
and texts have one score in two collections where their terms weigh the same.

Main facts: `top_k_build`, which hits a search ranks, and `document_score_of_same`.
-/

namespace SoupDB

open InvertedStore OrderedDict

theorem filter_postings_from {term : String} {docs : List (List String)} {terms : List String}
    {first i : Nat} (h : docs[i]? = some terms) :
    (postingsFrom term first docs).filter (fun p => p.1 = first + i) =
      if term ∈ terms then [(first + i, terms.count term)] else [] := by
  induction docs generalizing first i with
  | nil => cases h
  | cons terms' docs ih =>
      cases i with
      | zero =>
          obtain rfl : terms' = terms := Option.some.inj h
          have hrest : (postingsFrom term (first + 1) docs).filter (fun p => p.1 = first) =
              [] := by
            rw [List.filter_eq_nil_iff]
            rintro ⟨docId, tf⟩ hp
            have hle := (mem_postings_from.mp hp).1
            simp only [decide_eq_true_eq]
            omega
          rw [postingsFrom, Nat.add_zero]
          split
          · rw [List.filter_cons_of_pos (by simp), hrest]
          · exact hrest
      | succ i =>
          have hrest := @ih (first + 1) i h
          rw [Nat.succ_add_eq_add_succ] at hrest
          rw [postingsFrom]
          split
          · rw [List.filter_cons_of_neg (by simp), hrest]
          · exact hrest

variable {K : Type} [Field K]

/-- Adding up over the terms of a query, each as often as it occurs. -/
theorem sum_map_counter (terms : List String) (f : String → K) :
    ((counter terms).map (fun e => (e.2 : K) * f e.1)).sum = (terms.map f).sum := by
  have hset : terms.eraseDups.toFinset = terms.toFinset := by
    ext term
    rw [List.mem_toFinset, List.mem_toFinset, List.mem_eraseDups]
  rw [counter, List.map_map, Finset.sum_list_map_count terms, ← hset,
    List.sum_toFinset _ (nodup_eraseDups terms)]
  refine congrArg List.sum (List.map_congr_left (fun term _ => ?_))
  rw [nsmul_eq_mul]
  rfl

/-! ## Counts of a collection -/

section Counts

variable (tokenizer : String → List String) (docs : List (RID × String))

/-- The number of documents that have a term. -/
def frequency (term : String) : Nat := docs.countP (fun e => term ∈ tokenizer e.2)

def totalLength : Nat := (docs.map (fun e => (tokenizer e.2).length)).sum

def averageLength : K :=
  if docs.length = 0 then 0 else (totalLength tokenizer docs : K) / docs.length

/-- No term of the query that the text has tells documents apart. -/
def Weightless (method : String) (query text : String) : Prop :=
  ∀ term ∈ tokenizer query, term ∈ tokenizer text → method = "tf_idf" ∧
    ∀ e ∈ docs, term ∈ tokenizer e.2

instance decidableWeightless (method query text : String) :
    Decidable (Weightless tokenizer docs method query text) :=
  inferInstanceAs (Decidable (∀ _ ∈ _, _ → _ ∧ ∀ _ ∈ _, _))

/-- A term weighs the same in two collections: `log (N / df)` in TF-IDF, and
`log ((N + 1) / (df + 1 / 2))` in BM25. -/
def SameWeight (docs' : List (RID × String)) (method term : String) : Prop :=
  if method = "tf_idf" then
    docs.length * frequency tokenizer docs' term = docs'.length * frequency tokenizer docs term
  else
    (docs.length + 1) * (2 * frequency tokenizer docs' term + 1) =
      (docs'.length + 1) * (2 * frequency tokenizer docs term + 1)

instance decidableSameWeight (docs' : List (RID × String)) (method term : String) :
    Decidable (SameWeight tokenizer docs docs' method term) :=
  inferInstanceAs (Decidable (ite _ (_ = _) (_ = _)))

/-- The documents of two collections have one average length. -/
def SameLength (docs' : List (RID × String)) : Prop :=
  totalLength tokenizer docs * docs'.length = totalLength tokenizer docs' * docs.length

instance decidableSameLength (docs' : List (RID × String)) :
    Decidable (SameLength tokenizer docs docs') :=
  inferInstanceAs (Decidable (_ = _))

variable [LinearOrder K] (R : Reals K)

/-- The weight of a term in TF-IDF. -/
def weight (term : String) : K :=
  if frequency tokenizer docs term = 0 then 0
  else R.log ((docs.length : K) / frequency tokenizer docs term)

def bm25Score (k1 b : K) (query text : String) : K :=
  ((tokenizer query).map (fun term =>
    bm25Term R ((tokenizer text).count term) docs.length (frequency tokenizer docs term)
      (tokenizer text).length (averageLength tokenizer docs) k1 b)).sum

def squaredNorm (terms : List String) : K :=
  ((counter terms).map (fun e => ((e.2 : K) * weight tokenizer docs R e.1) ^ 2)).sum

/-- The score of a text in TF-IDF. -/
def cosineScore (query text : String) : K :=
  cosine ((counter (tokenizer query)).map (fun e => (e.2 : K) * weight tokenizer docs R e.1 *
      (tokenizer text).count e.1 * weight tokenizer docs R e.1)).sum
    (R.sqrt (squaredNorm tokenizer docs R (tokenizer query)))
    (R.sqrt (squaredNorm tokenizer docs R (tokenizer text)))

/-- The score of a text, by the counts of the documents. -/
def documentScore (o : Options K) (query text : String) : K :=
  if o.methodName = "tf_idf" then cosineScore tokenizer docs R query text
  else bm25Score tokenizer docs R (o.k1.getD defaultK1) (o.b.getD defaultB) query text

/-- The terms that make up the score of a text weigh the same in two collections. -/
def SameTerms (docs' : List (RID × String)) (o : Options K) (query text : String) : Prop :=
  if o.methodName = "tf_idf" then
    ∀ term ∈ tokenizer query ++ tokenizer text,
      SameWeight tokenizer docs docs' o.methodName term
  else
    (∀ term ∈ tokenizer query, term ∈ tokenizer text →
      SameWeight tokenizer docs docs' o.methodName term) ∧
    (o.b.getD defaultB = 0 ∨ SameLength tokenizer docs docs')

/-- A text scores nothing by the counts of either collection, or its terms weigh the same. -/
def SameScore (docs' : List (RID × String)) (o : Options K) (query text : String) : Prop :=
  (Weightless tokenizer docs o.methodName query text ∧
    Weightless tokenizer docs' o.methodName query text) ∨
  SameTerms tokenizer docs docs' o query text

instance decidableSameTerms (docs' : List (RID × String)) (o : Options K)
    (query text : String) : Decidable (SameTerms tokenizer docs docs' o query text) :=
  inferInstanceAs (Decidable (ite _ (∀ _ ∈ _, _) ((∀ _ ∈ _, _ → _) ∧ (_ = _ ∨ _))))

instance decidableSameScore (docs' : List (RID × String)) (o : Options K)
    (query text : String) : Decidable (SameScore tokenizer docs docs' o query text) :=
  inferInstanceAs (Decidable ((_ ∧ _) ∨ _))

end Counts

section CountsOf

variable {tokenizer : String → List String} {docs docs' : List (RID × String)}
  {method query text : String}

variable {term : String} {o : Options K}

theorem total_length_pos {e : RID × String} (he : e ∈ docs) (hterm : term ∈ tokenizer e.2) :
    0 < totalLength tokenizer docs := by
  have hle : (tokenizer e.2).length ≤ totalLength tokenizer docs :=
    List.single_le_sum (by simp) _ (List.mem_map_of_mem he)
  have hlength : 0 < (tokenizer e.2).length := List.length_pos_of_mem hterm
  omega

variable [LinearOrder K] [IsStrictOrderedRing K] {R : Reals K}

theorem average_length_ne {e : RID × String} (he : e ∈ docs) (hterm : term ∈ tokenizer e.2) :
    averageLength tokenizer docs ≠ (0 : K) := by
  have hlength : docs.length ≠ 0 := (List.length_pos_of_mem he).ne'
  rw [averageLength, if_neg hlength]
  exact div_ne_zero (Nat.cast_ne_zero.mpr (total_length_pos he hterm).ne')
    (Nat.cast_ne_zero.mpr hlength)

omit [LinearOrder K] [IsStrictOrderedRing K] in
theorem average_length_congr [CharZero K] (hdocs : docs ≠ []) (hdocs' : docs' ≠ [])
    (h : SameLength tokenizer docs docs') :
    (averageLength tokenizer docs : K) = averageLength tokenizer docs' := by
  have hlength : docs.length ≠ 0 := fun hzero => hdocs (List.eq_nil_of_length_eq_zero hzero)
  have hlength' : docs'.length ≠ 0 := fun hzero => hdocs' (List.eq_nil_of_length_eq_zero hzero)
  rw [averageLength, averageLength, if_neg hlength, if_neg hlength',
    div_eq_div_iff (Nat.cast_ne_zero.mpr hlength) (Nat.cast_ne_zero.mpr hlength')]
  exact_mod_cast h

theorem weight_congr (hdocs : docs ≠ []) (hdocs' : docs' ≠ [])
    (h : docs.length * frequency tokenizer docs' term =
      docs'.length * frequency tokenizer docs term) :
    weight tokenizer docs R term = weight tokenizer docs' R term := by
  have hlength : docs.length ≠ 0 := fun hzero => hdocs (List.eq_nil_of_length_eq_zero hzero)
  have hlength' : docs'.length ≠ 0 := fun hzero => hdocs' (List.eq_nil_of_length_eq_zero hzero)
  rw [weight, weight]
  by_cases hzero : frequency tokenizer docs term = 0
  · rw [hzero, mul_zero, mul_eq_zero] at h
    rw [if_pos hzero, if_pos (h.resolve_left hlength)]
  · have hzero' : frequency tokenizer docs' term ≠ 0 := by
      intro hzero'
      rw [hzero', mul_zero, eq_comm, mul_eq_zero] at h
      exact hzero (h.resolve_left hlength')
    have hratio : (docs.length : K) / frequency tokenizer docs term =
        docs'.length / frequency tokenizer docs' term := by
      rw [div_eq_div_iff (Nat.cast_ne_zero.mpr hzero) (Nat.cast_ne_zero.mpr hzero')]
      exact_mod_cast h
    rw [if_neg hzero, if_neg hzero', hratio]

theorem bm25_term_congr {k1 b : K} {rid rid' : RID} (hdoc : (rid, text) ∈ docs)
    (hdoc' : (rid', text) ∈ docs') (hin : term ∈ tokenizer text)
    (hweight : (docs.length + 1) * (2 * frequency tokenizer docs' term + 1) =
      (docs'.length + 1) * (2 * frequency tokenizer docs term + 1))
    (hlength : b = 0 ∨ SameLength tokenizer docs docs') :
    bm25Term R ((tokenizer text).count term) docs.length (frequency tokenizer docs term)
        (tokenizer text).length (averageLength tokenizer docs) k1 b =
      bm25Term R ((tokenizer text).count term) docs'.length (frequency tokenizer docs' term)
        (tokenizer text).length (averageLength tokenizer docs') k1 b := by
  have hcast : ((docs.length : K) + 1) * (2 * frequency tokenizer docs' term + 1) =
      (docs'.length + 1) * (2 * frequency tokenizer docs term + 1) := by
    exact_mod_cast hweight
  have hdf : (0 : K) < frequency tokenizer docs term + 1 / 2 := by positivity
  have hdf' : (0 : K) < frequency tokenizer docs' term + 1 / 2 := by positivity
  have hratio : ((docs.length : K) - frequency tokenizer docs term + 1 / 2) /
        (frequency tokenizer docs term + 1 / 2) =
      (docs'.length - frequency tokenizer docs' term + 1 / 2) /
        (frequency tokenizer docs' term + 1 / 2) := by
    rw [div_eq_div_iff hdf.ne' hdf'.ne']
    linear_combination hcast / 2
  have hnormal : 1 - b + b * ((tokenizer text).length : K) / averageLength tokenizer docs =
      1 - b + b * (tokenizer text).length / averageLength tokenizer docs' := by
    rcases hlength with rfl | hlength
    · rw [zero_mul, zero_div, zero_div]
    · rw [average_length_congr (List.ne_nil_of_mem hdoc) (List.ne_nil_of_mem hdoc') hlength]
  have hcount : (tokenizer text).count term ≠ 0 := (List.count_pos_iff.mpr hin).ne'
  rw [bm25Term, bm25Term, if_neg (not_or.mpr ⟨hcount, average_length_ne hdoc hin⟩),
    if_neg (not_or.mpr ⟨hcount, average_length_ne hdoc' hin⟩), Nat.cast_ofNat, hratio, hnormal]

theorem document_score_congr {rid rid' : RID} (hdoc : (rid, text) ∈ docs)
    (hdoc' : (rid', text) ∈ docs') (h : SameTerms tokenizer docs docs' o query text) :
    documentScore tokenizer docs R o query text = documentScore tokenizer docs' R o query text := by
  rw [SameTerms] at h
  rw [documentScore, documentScore]
  split at h
  · next hmethod =>
      rw [if_pos hmethod, if_pos hmethod]
      have hweight : ∀ term ∈ tokenizer query ++ tokenizer text,
          weight tokenizer docs R term = weight tokenizer docs' R term := by
        intro term hterm
        have hsame := h term hterm
        rw [SameWeight, if_pos hmethod] at hsame
        exact weight_congr (List.ne_nil_of_mem hdoc) (List.ne_nil_of_mem hdoc') hsame
      have hcounter : ∀ {terms : List String}, terms ⊆ tokenizer query ++ tokenizer text →
          ∀ e ∈ counter terms, weight tokenizer docs R e.1 = weight tokenizer docs' R e.1 := by
        intro terms hsub e he
        obtain ⟨term, hterm, rfl⟩ := List.mem_map.mp he
        exact hweight term (hsub (List.mem_eraseDups.mp hterm))
      have hquery := @hcounter (tokenizer query) (List.subset_append_left _ _)
      have htext := @hcounter (tokenizer text) (List.subset_append_right _ _)
      have hnorm : ∀ {terms : List String},
          (∀ e ∈ counter terms, weight tokenizer docs R e.1 = weight tokenizer docs' R e.1) →
            squaredNorm tokenizer docs R terms = squaredNorm tokenizer docs' R terms := by
        intro terms h
        exact congrArg List.sum (List.map_congr_left (fun e he => by rw [h e he]))
      rw [cosineScore, cosineScore, hnorm hquery, hnorm htext]
      refine congrArg (fun dot => cosine dot _ _) ?_
      exact congrArg List.sum (List.map_congr_left (fun e he => by rw [hquery e he]))
  · next hmethod =>
      obtain ⟨hsame, hlength⟩ := h
      rw [if_neg hmethod, if_neg hmethod]
      refine congrArg List.sum (List.map_congr_left (fun term hterm => ?_))
      by_cases hin : term ∈ tokenizer text
      · have hweight := hsame term hterm hin
        rw [SameWeight, if_neg hmethod] at hweight
        exact bm25_term_congr hdoc hdoc' hin hweight hlength
      · rw [List.count_eq_zero.mpr hin, bm25Term, bm25Term, if_pos (.inl rfl), if_pos (.inl rfl)]

theorem cosine_zero (queryNorm documentNorm : K) : cosine 0 queryNorm documentNorm = 0 := by
  rw [cosine]
  split
  · rfl
  · rw [zero_div, zero_div, max_self, min_eq_right zero_le_one]

theorem weight_of_all (h : ∀ e ∈ docs, term ∈ tokenizer e.2) :
    weight tokenizer docs R term = 0 := by
  have hall : frequency tokenizer docs term = docs.length :=
    List.countP_eq_length.mpr (by simpa using h)
  rw [weight, hall]
  split
  · rfl
  · next hne => rw [div_self (Nat.cast_ne_zero.mpr hne), R.log_one]

theorem document_score_of_weightless (h : Weightless tokenizer docs o.methodName query text) :
    documentScore tokenizer docs R o query text = 0 := by
  rw [documentScore]
  split
  · have hdot : ((counter (tokenizer query)).map (fun e => (e.2 : K) *
        weight tokenizer docs R e.1 * (tokenizer text).count e.1 *
          weight tokenizer docs R e.1)).sum = 0 := by
      refine List.sum_eq_zero (fun x hx => ?_)
      obtain ⟨e, he, rfl⟩ := List.mem_map.mp hx
      obtain ⟨term, hterm, rfl⟩ := List.mem_map.mp he
      dsimp only
      by_cases hin : term ∈ tokenizer text
      · rw [weight_of_all (h term (List.mem_eraseDups.mp hterm) hin).2, mul_zero]
      · rw [List.count_eq_zero.mpr hin, Nat.cast_zero, mul_zero, zero_mul]
    rw [cosineScore, hdot, cosine_zero]
  · next hmethod =>
      refine List.sum_eq_zero (fun x hx => ?_)
      obtain ⟨term, hterm, rfl⟩ := List.mem_map.mp hx
      have hin : term ∉ tokenizer text := fun hin => hmethod (h term hterm hin).1
      rw [List.count_eq_zero.mpr hin, bm25Term, if_pos (.inl rfl)]

theorem document_score_of_same {rid rid' : RID} (hdoc : (rid, text) ∈ docs)
    (hdoc' : (rid', text) ∈ docs') (h : SameScore tokenizer docs docs' o query text) :
    documentScore tokenizer docs R o query text = documentScore tokenizer docs' R o query text := by
  rcases h with ⟨hdocs, hdocs'⟩ | h
  · rw [document_score_of_weightless hdocs, document_score_of_weightless hdocs']
  · exact document_score_congr hdoc hdoc' h

end CountsOf

namespace InvertedIndex

variable [LinearOrder K] {R : Reals K} {tokenizer : String → List String}

/-! ## What a search adds up -/

section Store

variable {store : InvertedStore} {o : Options K}

/-- What a posting of a term of the query adds to the score of its document. -/
def postingScore (R : Reals K) (store : InvertedStore) (o : Options K) (e : String × Nat)
    (p : Posting) : K :=
  let df := (store.postings e.1).length
  if o.methodName = "tf_idf" then
    let inverseFrequency := if df = 0 then 0 else R.log ((store.N : K) / df)
    e.2 * inverseFrequency * p.2 * inverseFrequency
  else
    e.2 * bm25Term R p.2 store.N df (store.docLengths.getD p.1 0) store.avgdl
      (o.k1.getD defaultK1) (o.b.getD defaultB)

/-- The sum over the terms of the query. -/
def total (R : Reals K) (store : InvertedStore) (o : Options K) (terms : List (String × Nat))
    (docId : Nat) : K :=
  (terms.map (fun e => (((store.postings e.1).filter (fun p => p.1 = docId)).map
    (postingScore R store o e)).sum)).sum

omit [LinearOrder K] in
theorem getD_foldl_add_score (f : Posting → K) (ps : List Posting) (scores : OrderedDict Nat K)
    (docId : Nat) :
    ((ps.foldl (fun scores p => addScore scores p.1 (f p)) scores).get? docId).getD 0 =
      (scores.get? docId).getD 0 + ((ps.filter (fun p => p.1 = docId)).map f).sum := by
  induction ps generalizing scores with
  | nil => simp
  | cons p ps ih =>
      rw [List.foldl_cons, ih, addScore, get?_set]
      by_cases hp : p.1 = docId
      · subst hp
        rw [if_pos rfl, Option.getD_some, List.filter_cons_of_pos (by simp), List.map_cons,
          List.sum_cons, add_assoc]
      · rw [if_neg (Ne.symm hp), List.filter_cons_of_neg (by simpa using hp)]

variable {state state' : OrderedDict Nat K × K} {terms : List (String × Nat)}

theorem getD_score_term {e : String × Nat} (hdf : (store.postings e.1).length ≤ store.N)
    (h : scoreTerm R store o state e = .ok state') (docId : Nat) :
    (state'.1.get? docId).getD 0 = (state.1.get? docId).getD 0 +
      (((store.postings e.1).filter (fun p => p.1 = docId)).map
        (postingScore R store o e)).sum := by
  rw [scoreTerm] at h
  by_cases hnil : store.postings e.1 = []
  · rw [if_pos hnil] at h
    obtain rfl := Except.ok.inj h
    simp [hnil]
  · rw [if_neg hnil] at h
    by_cases hmethod : o.methodName = "tf_idf"
    · rw [if_pos hmethod, idf_ok hdf, ok_bind] at h
      obtain rfl := Except.ok.inj h
      rw [getD_foldl_add_score]
      unfold postingScore
      simp only [if_pos hmethod]
    · rw [if_neg hmethod] at h
      obtain rfl := Except.ok.inj h
      rw [getD_foldl_add_score]
      unfold postingScore
      simp only [if_neg hmethod]

theorem getD_foldlM_score_term (hdf : ∀ term, (store.postings term).length ≤ store.N)
    (h : terms.foldlM (scoreTerm R store o) state = .ok state') (docId : Nat) :
    (state'.1.get? docId).getD 0 =
      (state.1.get? docId).getD 0 + total R store o terms docId := by
  induction terms generalizing state with
  | nil =>
      obtain rfl := Except.ok.inj h
      simp [total]
  | cons e terms ih =>
      rw [List.foldlM_cons] at h
      obtain ⟨next, hstep, h⟩ := bind_eq_ok.mp h
      rw [ih h, getD_score_term (hdf e.1) hstep, total, total, List.map_cons, List.sum_cons,
        add_assoc]

/-- The squared norm of the query. -/
theorem snd_foldlM_score_term (hmethod : o.methodName = "tf_idf")
    (hdf : ∀ term, (store.postings term).length ≤ store.N)
    (h : terms.foldlM (scoreTerm R store o) state = .ok state') :
    state'.2 = state.2 + (terms.map (fun e => ((e.2 : K) *
      if (store.postings e.1).length = 0 then 0
      else R.log ((store.N : K) / (store.postings e.1).length)) ^ 2)).sum := by
  induction terms generalizing state with
  | nil =>
      obtain rfl := Except.ok.inj h
      simp
  | cons e terms ih =>
      rw [List.foldlM_cons] at h
      obtain ⟨next, hstep, h⟩ := bind_eq_ok.mp h
      rw [ih h, List.map_cons, List.sum_cons, ← add_assoc]
      refine congrArg (· + _) ?_
      rw [scoreTerm] at hstep
      by_cases hnil : store.postings e.1 = []
      · rw [if_pos hnil] at hstep
        obtain rfl := Except.ok.inj hstep
        simp [hnil]
      · rw [if_neg hnil, if_pos hmethod, idf_ok (hdf e.1), ok_bind] at hstep
        obtain rfl := Except.ok.inj hstep
        rfl

theorem getD_squared_norms {squared : List K}
    (hdf : ∀ e ∈ store.terms, e.2.length ≤ store.N)
    (h : squaredNorms R store = .ok squared) {docId : Nat} (hdoc : docId < store.N) :
    squared.length = store.N ∧ squared.getD docId 0 =
      (store.terms.map (fun e => ((e.2.filter (fun p => p.1 = docId)).map (fun p => ((p.2 : K) *
        if e.2.length = 0 then 0 else R.log ((store.N : K) / e.2.length)) ^ 2)).sum)).sum := by
  have hpostings : ∀ (w : K) (ps : List Posting) (start : List K), start.length = store.N →
      (ps.foldl (fun squared p => squared.modify p.1 (fun x => x + ((p.2 : K) * w) ^ 2))
        start).length = store.N ∧
      (ps.foldl (fun squared p => squared.modify p.1 (fun x => x + ((p.2 : K) * w) ^ 2))
        start).getD docId 0 = start.getD docId 0 +
          ((ps.filter (fun p => p.1 = docId)).map (fun p => ((p.2 : K) * w) ^ 2)).sum := by
    intro w ps
    induction ps with
    | nil => exact fun start hstart => ⟨hstart, by simp⟩
    | cons p ps ih =>
        intro start hstart
        obtain ⟨hlength, hget⟩ := ih (start.modify p.1 (fun x => x + ((p.2 : K) * w) ^ 2))
          (by rw [List.length_modify, hstart])
        refine ⟨hlength, hget.trans ?_⟩
        rw [List.getD_eq_getElem?_getD, List.getElem?_modify,
          List.getElem?_eq_getElem (hstart ▸ hdoc), List.getD_eq_getElem?_getD,
          List.getElem?_eq_getElem (hstart ▸ hdoc)]
        by_cases hp : p.1 = docId
        · rw [List.filter_cons_of_pos (by simpa using hp)]
          simp [hp, add_assoc]
        · rw [List.filter_cons_of_neg (by simpa using hp)]
          simp [hp]
  have hterms : ∀ (terms : List (String × List Posting)) (start : List K),
      (∀ e ∈ terms, e.2.length ≤ store.N) → start.length = store.N → ∀ squared,
        terms.foldlM (fun squared e => do
          let inverseFrequency ← idf R store.N e.2.length
          .ok (e.2.foldl (fun squared p =>
            squared.modify p.1 (fun x => x + ((p.2 : K) * inverseFrequency) ^ 2)) squared))
          start = (.ok squared : Except PyError (List K)) →
        squared.length = store.N ∧ squared.getD docId 0 = start.getD docId 0 +
          (terms.map (fun e => ((e.2.filter (fun p => p.1 = docId)).map (fun p => ((p.2 : K) *
            if e.2.length = 0 then 0
            else R.log ((store.N : K) / e.2.length)) ^ 2)).sum)).sum := by
    intro terms
    induction terms with
    | nil =>
        intro start _ hstart squared h
        obtain rfl := Except.ok.inj h
        exact ⟨hstart, by simp⟩
    | cons e terms ih =>
        intro start hdf hstart squared h
        rw [List.foldlM_cons, idf_ok (hdf e (by simp)), ok_bind, ok_bind] at h
        obtain ⟨hlength, hget⟩ := hpostings _ e.2 start hstart
        obtain ⟨hlength', hget'⟩ := ih _ (fun e' he' => hdf e' (by simp [he'])) hlength squared h
        refine ⟨hlength', ?_⟩
        rw [hget', hget, List.map_cons, List.sum_cons, add_assoc]
  obtain ⟨hlength, hget⟩ := hterms store.terms _ hdf List.length_replicate squared h
  refine ⟨hlength, hget.trans ?_⟩
  rw [List.getD_eq_getElem?_getD, List.getElem?_replicate, if_pos hdoc, Option.getD_some, zero_add]

end Store

theorem getD_scores [IsStrictOrderedRing K] {index : InvertedIndex K} {query : String}
    {o : Options K} {scored : OrderedDict Nat K}
    (hdf : ∀ term, (index.store.postings term).length ≤ index.store.N)
    (h : scores R tokenizer index query o = .ok scored) (docId : Nat) :
    (scored.get? docId).getD 0 = if o.methodName = "tf_idf" then
        cosine (total R index.store o (counter (tokenizer query)) docId)
          (R.sqrt ((counter (tokenizer query)).map (fun e => ((e.2 : K) *
            if (index.store.postings e.1).length = 0 then 0
            else R.log ((index.store.N : K) / (index.store.postings e.1).length)) ^ 2)).sum)
          (index.norms.getD docId 0)
      else total R index.store o (counter (tokenizer query)) docId := by
  rw [scores] at h
  obtain ⟨⟨sums, norm⟩, hfold, h⟩ := bind_eq_ok.mp h
  have hsum := getD_foldlM_score_term hdf hfold docId
  rw [get?_empty, Option.getD_none, zero_add] at hsum
  dsimp only at h hsum
  split at h
  · next hmethod =>
      have hnorm := snd_foldlM_score_term hmethod hdf hfold
      rw [zero_add] at hnorm
      dsimp only at hnorm
      obtain rfl := Except.ok.inj h
      rw [if_pos hmethod, get?_map_values, ← hsum, ← hnorm]
      cases hget : sums.get? docId with
      | none => exact (cosine_zero _ _).symm
      | some dot => rfl
  · next hmethod =>
      obtain rfl := Except.ok.inj h
      rw [if_neg hmethod, hsum]

/-! ## Documents of a collection -/

section Built

variable {corpus : OrderedDict RID String} {index : InvertedIndex K}

variable {o : Options K} {query text : String} {rid : RID} {docId : Nat}

/-- What the terms of the query add to a document. -/
theorem total_build (hdoc : corpus.entries[docId]? = some (rid, text)) :
    total R (InvertedStore.build tokenizer corpus) o (counter (tokenizer query)) docId =
      ((counter (tokenizer query)).map (fun e => if e.1 ∈ tokenizer text then
        postingScore R (InvertedStore.build tokenizer corpus) o e
          (docId, (tokenizer text).count e.1) else 0)).sum := by
  refine congrArg List.sum (List.map_congr_left (fun e _ => ?_))
  have hget : (corpus.entries.map (fun e => tokenizer e.2))[docId]? = some (tokenizer text) := by
    rw [List.getElem?_map, hdoc]
    rfl
  have hfilter := @filter_postings_from e.1 _ _ 0 docId hget
  rw [Nat.zero_add] at hfilter
  rw [postings_build, postingsOf, hfilter]
  split
  · rw [List.map_cons, List.map_nil, List.sum_singleton]
  · rfl

omit [Field K] [LinearOrder K] in
theorem frequency_build (term : String) :
    ((InvertedStore.build tokenizer corpus).postings term).length =
      frequency tokenizer corpus.entries term :=
  length_postings_build tokenizer corpus term

omit [LinearOrder K] in
theorem avgdl_build : ((InvertedStore.build tokenizer corpus).avgdl : K) =
    averageLength tokenizer corpus.entries := by
  have hsum : (InvertedStore.build tokenizer corpus).docLengths.sum =
      totalLength tokenizer corpus.entries := by
    rw [InvertedStore.build, totalLength, List.map_map]
    rfl
  rw [avgdl, averageLength, InvertedStore.N_build, hsum]
  rfl

theorem total_of_bm25 (hdoc : corpus.entries[docId]? = some (rid, text))
    (hmethod : o.methodName ≠ "tf_idf") :
    total R (InvertedStore.build tokenizer corpus) o (counter (tokenizer query)) docId =
      bm25Score tokenizer corpus.entries R (o.k1.getD defaultK1) (o.b.getD defaultB) query
        text := by
  have hlength : (InvertedStore.build tokenizer corpus).docLengths.getD docId 0 =
      (tokenizer text).length := by
    rw [InvertedStore.build, List.getD_eq_getElem?_getD, List.getElem?_map, List.getElem?_map,
      hdoc]
    rfl
  rw [total_build hdoc, bm25Score, ← sum_map_counter]
  refine congrArg List.sum (List.map_congr_left (fun e he => ?_))
  obtain ⟨term, -, rfl⟩ := List.mem_map.mp he
  dsimp only
  split
  · rw [postingScore, if_neg hmethod, hlength, InvertedStore.N_build, frequency_build, avgdl_build]
    rfl
  · next hin => rw [List.count_eq_zero.mpr hin, bm25Term, if_pos (Or.inl rfl), mul_zero]

theorem total_of_tf_idf (hdoc : corpus.entries[docId]? = some (rid, text))
    (hmethod : o.methodName = "tf_idf") :
    total R (InvertedStore.build tokenizer corpus) o (counter (tokenizer query)) docId =
      ((counter (tokenizer query)).map (fun e => (e.2 : K) *
        weight tokenizer corpus.entries R e.1 * (tokenizer text).count e.1 *
          weight tokenizer corpus.entries R e.1)).sum := by
  rw [total_build hdoc]
  refine congrArg List.sum (List.map_congr_left (fun e _ => ?_))
  split
  · rw [postingScore, if_pos hmethod, InvertedStore.N_build, frequency_build]
    rfl
  · next hin => rw [List.count_eq_zero.mpr hin, Nat.cast_zero, mul_zero, zero_mul]

theorem norm_build (h : build R tokenizer corpus = .ok index)
    (hdoc : corpus.entries[docId]? = some (rid, text)) :
    index.norms.getD docId 0 =
      R.sqrt (squaredNorm tokenizer corpus.entries R (tokenizer text)) := by
  obtain ⟨squared, hsquared, h⟩ := bind_eq_ok.mp h
  obtain rfl := Except.ok.inj h
  have hlt : docId < (InvertedStore.build tokenizer corpus).N := by
    rw [InvertedStore.N_build]
    exact (List.getElem?_eq_some_iff.mp hdoc).1
  have hdf : ∀ e ∈ (InvertedStore.build tokenizer corpus).terms,
      e.2.length ≤ (InvertedStore.build tokenizer corpus).N := by
    intro e he
    obtain ⟨term, -, rfl⟩ := List.mem_map.mp he
    have hle := length_postings_le tokenizer corpus term
    rwa [postings_build] at hle
  obtain ⟨hlength, hnorm⟩ := getD_squared_norms hdf hsquared hlt
  have hget : (corpus.entries.map (fun e => tokenizer e.2))[docId]? = some (tokenizer text) := by
    rw [List.getElem?_map, hdoc]
    rfl
  have hterm : ∀ term, (((postingsOf (corpus.entries.map (fun e => tokenizer e.2)) term).filter
      (fun p => p.1 = docId)).map (fun p => ((p.2 : K) *
        if (postingsOf (corpus.entries.map (fun e => tokenizer e.2)) term).length = 0 then 0
        else R.log (((InvertedStore.build tokenizer corpus).N : K) /
          (postingsOf (corpus.entries.map (fun e => tokenizer e.2)) term).length)) ^ 2)).sum =
      if term ∈ tokenizer text then
        (((tokenizer text).count term : K) * weight tokenizer corpus.entries R term) ^ 2
      else 0 := by
    intro term
    have hfilter := @filter_postings_from term _ _ 0 docId hget
    rw [Nat.zero_add] at hfilter
    rw [postingsOf, hfilter, ← postingsOf, ← postings_build, frequency_build,
      InvertedStore.N_build]
    by_cases hin : term ∈ tokenizer text
    · rw [if_pos hin, if_pos hin, List.map_cons, List.map_nil, List.sum_singleton]
      rfl
    · rw [if_neg hin, if_neg hin, List.map_nil, List.sum_nil]
  rw [List.getD_eq_getElem?_getD, List.getElem?_map, List.getElem?_eq_getElem (hlength ▸ hlt),
    Option.map_some, Option.getD_some]
  rw [List.getD_eq_getElem?_getD, List.getElem?_eq_getElem (hlength ▸ hlt),
    Option.getD_some] at hnorm
  rw [hnorm, squaredNorm, InvertedStore.build, referenceIndex, List.map_map]
  refine congrArg R.sqrt ?_
  have hperm : ((vocabulary (corpus.entries.map (fun e => tokenizer e.2))).filter
      (fun term => term ∈ tokenizer text)).Perm (tokenizer text).eraseDups := by
    refine (List.perm_ext_iff_of_nodup (List.Nodup.filter _ ?_)
      (nodup_eraseDups (tokenizer text))).mpr (fun term => ?_)
    · exact ((List.perm_insertionSort _ _).nodup_iff).mpr (nodup_eraseDups _)
    · rw [List.mem_filter, mem_vocabulary, List.mem_eraseDups, decide_eq_true_eq]
      exact and_iff_right_of_imp (fun hin => ⟨_, List.mem_of_getElem? hget, hin⟩)
  calc ((vocabulary (corpus.entries.map (fun e => tokenizer e.2))).map _).sum
      = ((vocabulary (corpus.entries.map (fun e => tokenizer e.2))).map (fun term =>
          if term ∈ tokenizer text then
            (((tokenizer text).count term : K) * weight tokenizer corpus.entries R term) ^ 2
          else 0)).sum := congrArg List.sum (List.map_congr_left (fun term _ => hterm term))
    _ = (((vocabulary (corpus.entries.map (fun e => tokenizer e.2))).filter
          (fun term => term ∈ tokenizer text)).map (fun term =>
            (((tokenizer text).count term : K) *
              weight tokenizer corpus.entries R term) ^ 2)).sum := by
        rw [List.sum_map_ite, List.sum_map_zero, add_zero]
    _ = _ := by
        rw [(hperm.map _).sum_eq, counter, List.map_map]
        rfl

omit [Field K] [LinearOrder K] in
theorem exists_of_postings :
    (∃ term ∈ tokenizer query, ∃ p ∈ (InvertedStore.build tokenizer corpus).postings term,
      p.1 = docId) ↔
    ∃ rid text, corpus.entries[docId]? = some (rid, text) ∧ Shares tokenizer query text := by
  constructor
  · rintro ⟨term, hterm, ⟨docId, tf⟩, hp, rfl⟩
    rw [postings_build] at hp
    obtain ⟨terms, hget, hin, -⟩ := mem_postings_of.mp hp
    rw [List.getElem?_map, Option.map_eq_some_iff] at hget
    obtain ⟨⟨rid, text⟩, hentry, rfl⟩ := hget
    exact ⟨rid, text, hentry, term, hterm, hin⟩
  · rintro ⟨rid, text, hentry, term, hterm, hin⟩
    refine ⟨term, hterm, (docId, (tokenizer text).count term), ?_, rfl⟩
    rw [postings_build, mem_postings_of]
    exact ⟨tokenizer text, by rw [List.getElem?_map, hentry]; rfl, hin, rfl⟩

/-- The hits that a search of a collection ranks. -/
structure Ranks (R : Reals K) (tokenizer : String → List String) (corpus : OrderedDict RID String)
    (o : Options K) (query : String) (hits : Hits K) : Prop where
  nodup : (hits.map Prod.fst).Nodup
  mem : ∀ rid, rid ∈ hits.map Prod.fst ↔ ∃ text, corpus.get? rid = some text ∧
    (o.matchesOnly = true → Shares tokenizer query text)
  score : ∀ e ∈ hits, ∀ text, corpus.get? e.1 = some text →
    e.2 = documentScore tokenizer corpus.entries R o query text

/-- Every document is ranked, or every document that shares a term with the query. -/
theorem top_k_build [IsStrictOrderedRing K] (h : build R tokenizer corpus = .ok index)
    {query : String} {o : Options K} (hcheck : o.check = .ok ()) :
    ∃ hits, Ranks R tokenizer corpus o query hits ∧
      ∀ k ≠ 0, topK R tokenizer index query k o = .ok ((ranked hits).take k) := by
  have hstore := store_of_build h
  have hdf : ∀ term, (index.store.postings term).length ≤ index.store.N := by
    intro term
    rw [hstore]
    exact length_postings_le tokenizer corpus term
  obtain ⟨scored, hscores, hdocs⟩ := @scores_returns K _ _ R tokenizer index query o hdf
  have hrid : ∀ {docId rid text}, corpus.entries[docId]? = some (rid, text) →
      (hit index scored docId).1 = rid := by
    intro docId rid text hdoc
    rw [hit, hstore, InvertedStore.build, keys, List.getD_eq_getElem?_getD,
      List.getElem?_map, hdoc]
    rfl
  have hcandidates : ∀ docId, docId ∈ (if o.matchesOnly then scored.keys
      else List.range index.store.N) ↔ ∃ rid text, corpus.entries[docId]? = some (rid, text) ∧
        (o.matchesOnly = true → Shares tokenizer query text) := by
    intro docId
    cases hmatches : o.matchesOnly with
    | true =>
        rw [if_pos rfl, hdocs docId, hstore, exists_of_postings]
        simp
    | false =>
        rw [if_neg (by simp), List.mem_range, hstore, InvertedStore.N_build, size]
        constructor
        · intro hlt
          exact ⟨_, _, List.getElem?_eq_getElem hlt, fun hfalse => by cases hfalse⟩
        · rintro ⟨rid, text, hdoc, -⟩
          exact (List.getElem?_eq_some_iff.mp hdoc).1
  have hnodup : (if o.matchesOnly then scored.keys else List.range index.store.N).Nodup := by
    split
    · exact scored.nodup
    · exact List.nodup_range
  have hscore : ∀ e ∈ (if o.matchesOnly then scored.keys else List.range index.store.N).map
      (hit index scored), ∀ text, corpus.get? e.1 = some text →
        e.2 = documentScore tokenizer corpus.entries R o query text := by
    intro e he text htext
    obtain ⟨docId, hdoc, rfl⟩ := List.mem_map.mp he
    obtain ⟨rid, text', hentry, -⟩ := (hcandidates docId).mp hdoc
    rw [hrid hentry] at htext
    obtain rfl : text' = text := Option.some.inj
      ((get?_of_mem (List.mem_of_getElem? hentry)).symm.trans htext)
    rw [hit, getD_scores hdf hscores, documentScore, hstore]
    split
    · next hmethod =>
        rw [total_of_tf_idf hentry hmethod, norm_build h hentry, cosineScore, squaredNorm,
          InvertedStore.N_build]
        simp only [frequency_build]
        rfl
    · next hmethod => exact total_of_bm25 hentry hmethod
  refine ⟨_, ⟨?_, fun rid => ?_, hscore⟩, fun k hk => top_k_of_scores hcheck hk hscores⟩
  · rw [List.map_map]
    refine List.Nodup.map_on (fun a ha b hb heq => ?_) hnodup
    obtain ⟨rid, text, hentry, -⟩ := (hcandidates a).mp ha
    obtain ⟨rid', text', hentry', -⟩ := (hcandidates b).mp hb
    have hkeys : corpus.keys[a]? = corpus.keys[b]? := by
      rw [Function.comp_apply, Function.comp_apply, hrid hentry, hrid hentry'] at heq
      rw [keys, List.getElem?_map, List.getElem?_map, hentry, hentry', heq]
      rfl
    have hlt : a < corpus.keys.length := by
      rw [keys, List.length_map]
      exact (List.getElem?_eq_some_iff.mp hentry).1
    exact (List.getElem?_inj hlt corpus.nodup).mp hkeys
  · rw [List.map_map, List.mem_map]
    constructor
    · rintro ⟨docId, hdoc, rfl⟩
      obtain ⟨rid, text, hentry, hshares⟩ := (hcandidates docId).mp hdoc
      rw [Function.comp_apply, hrid hentry]
      exact ⟨text, get?_of_mem (List.mem_of_getElem? hentry), hshares⟩
    · rintro ⟨text, htext, hshares⟩
      obtain ⟨docId, hentry⟩ := List.mem_iff_getElem?.mp (mem_of_get? htext)
      exact ⟨docId, (hcandidates docId).mpr ⟨rid, text, hentry, hshares⟩, hrid hentry⟩

end Built

end InvertedIndex
end SoupDB
