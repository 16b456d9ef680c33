import SoupDB.Lib.Ranking
import SoupDB.Plugins.DocumentScores
import SoupDB.Plugins.MutableInverted

/-!
# SoupDB: the delta layer and a rebuilt index

A search of an index under INSERT and DELETE, against a search of an index that is built of the
live documents.  The scores of the base index keep the counts of the collection it was built
of, and only BM25 scores an added document by the formula of the base.

Main fact: `top_k_exact`.  The two searches agree where the terms of each live document weigh
the same in the collections its two scores are computed from (`Agrees`).  `stale_counts_reorder`
is a run after which they put documents in different orders.
-/

namespace SoupDB

open InvertedIndex OrderedDict Reals List

variable {K : Type} [Field K] [LinearOrder K]

namespace MutableInvertedIndex

/-! ## What a search ranks -/

section Merging

variable {s : MutableInvertedIndex K} {hits : Hits K} {scores : OrderedDict RID K}

/-- The hits of the index that are neither removed nor added, and the added documents. -/
def mergedHits (s : MutableInvertedIndex K) (hits : Hits K) (scores : OrderedDict RID K) :
    Hits K :=
  hits.filter (fun e => e.1 ∉ s.removed ∧ e.1 ∉ s.added.keys) ++
    s.added.keys.map (fun rid => (rid, max 0 ((scores.get? rid).getD 0)))

theorem nodup_merged_hits (hnodup : (hits.map Prod.fst).Nodup) :
    ((mergedHits s hits scores).map Prod.fst).Nodup := by
  rw [mergedHits, map_append, map_map, nodup_append]
  refine ⟨(filter_sublist.map Prod.fst).nodup hnodup, ?_, ?_⟩
  · exact (map_id s.added.keys).symm ▸ s.added.nodup
  · rintro rid hrid _ hadded rfl
    obtain ⟨e, he, rfl⟩ := mem_map.mp hrid
    obtain ⟨rid', hrid', heq⟩ := mem_map.mp hadded
    have hpair := (mem_filter.mp he).2
    rw [← show rid' = e.1 from heq] at hpair
    simp [hrid'] at hpair

theorem merged_perm (hnodup : (hits.map Prod.fst).Nodup)
    (hapart : ∀ rid ∈ s.removed, s.added.get? rid = none)
    (hzero : ∀ e ∈ hits, e.1 ∈ s.added.keys → e.2 = 0) :
    (s.added.keys.foldl (fun merged key =>
      if key ∈ s.removed then merged
      else merged.set key (max ((merged.get? key).getD 0) ((scores.get? key).getD 0)))
      (s.unremoved hits)).entries.Perm (mergedHits s hits scores) := by
  have hloop : s.added.keys.foldl (fun merged key =>
      if key ∈ s.removed then merged
      else merged.set key (max ((merged.get? key).getD 0) ((scores.get? key).getD 0)))
      (s.unremoved hits) = s.added.keys.foldl (fun merged key =>
        merged.set key ((fun key old => max (old.getD 0) ((scores.get? key).getD 0)) key
          (merged.get? key))) (s.unremoved hits) := by
    refine foldl_ext _ _ _ (fun merged key hkey => ?_)
    have hnot : key ∉ s.removed := by
      intro hremoved
      rw [← get?_isSome, hapart key hremoved] at hkey
      cases hkey
    rw [if_neg hnot]
  have hfirst : (hits.filter (fun e => e.1 ∉ s.removed)).map Prod.fst |>.Nodup :=
    (filter_sublist.map Prod.fst).nodup hnodup
  have hentries : (s.unremoved hits).entries = hits.filter (fun e => e.1 ∉ s.removed) :=
    entries_ofPairs hfirst
  have hkeys : s.added.keys.Nodup := s.added.nodup
  rw [hloop]
  refine (perm_ext_iff_of_nodup (nodup _).of_map
    (nodup_merged_hits hnodup).of_map).mpr ?_
  rintro ⟨rid, score⟩
  rw [← get?_eq_some, get?_foldl_set (fun key old =>
    max (Option.getD old 0) ((scores.get? key).getD 0)) hkeys, mergedHits, mem_append,
    mem_filter, mem_map]
  by_cases hadded : rid ∈ s.added.keys
  · have hold : ((s.unremoved hits).get? rid).getD 0 = 0 := by
      cases hget : (s.unremoved hits).get? rid with
      | none => rfl
      | some old =>
          have hmem := mem_of_get? hget
          rw [hentries] at hmem
          exact hzero _ (mem_of_mem_filter hmem) hadded
    rw [if_pos hadded, hold]
    simp [hadded]
  · rw [if_neg hadded, get?_eq_some, hentries, mem_filter]
    simp [hadded]

theorem top_k_merged {R : Reals K} {tokenizer : String → List String} {query : String} {k : Nat}
    {o : Options K} (hnodup : (hits.map Prod.fst).Nodup)
    (hapart : ∀ rid ∈ s.removed, s.added.get? rid = none)
    (hzero : ∀ e ∈ hits, e.1 ∈ s.added.keys → e.2 = 0)
    (hbase : InvertedIndex.topK R tokenizer s.base query (k + s.removed.card + s.added.size) o =
      .ok ((ranked hits).take (k + s.removed.card + s.added.size)))
    (hscores : scoreAdded R tokenizer s query o.methodName = .ok scores) :
    topK R tokenizer s query k o = .ok ((ranked (mergedHits s hits scores)).take k) := by
  have hfail : hits.countP (fun e => !decide (e.1 ∉ s.removed ∧ e.1 ∉ s.added.keys)) ≤
      s.removed.card + s.added.size := by
    have hcard : (s.removed ∪ s.added.keys.toFinset).card ≤ s.removed.card + s.added.size := by
      rw [← card_keys]
      exact Finset.card_union_le _ _
    refine le_trans ?_ hcard
    have hnodup' : ((hits.filter (fun e =>
        !decide (e.1 ∉ s.removed ∧ e.1 ∉ s.added.keys))).map Prod.fst).Nodup :=
      (filter_sublist.map Prod.fst).nodup hnodup
    rw [countP_eq_length_filter, ← length_map Prod.fst,
      ← toFinset_card_of_nodup hnodup']
    refine Finset.card_le_card (fun rid hrid => ?_)
    obtain ⟨e, he, rfl⟩ := mem_map.mp (mem_toFinset.mp hrid)
    have hpair := (mem_filter.mp he).2
    rw [Finset.mem_union, mem_toFinset]
    by_contra hnot
    rw [not_or] at hnot
    simp [hnot.1, hnot.2] at hpair
  have hsub : ((ranked hits).take (k + s.removed.card + s.added.size)).Sublist (ranked hits) :=
    take_sublist _ _
  have hmem : ∀ e ∈ (ranked hits).take (k + s.removed.card + s.added.size), e ∈ hits :=
    fun e he => (ranked_perm hits).mem_iff.mp (hsub.subset he)
  have hpart : (((ranked hits).take (k + s.removed.card + s.added.size)).map Prod.fst).Nodup :=
    (hsub.map Prod.fst).nodup (((ranked_perm hits).map Prod.fst).nodup_iff.mpr hnodup)
  have hperm := @merged_perm K _ _ s _ scores hpart hapart (fun e he => hzero e (hmem e he))
  have hcut := @take_insertionSort_cut _ hitLe _ _ _ _ _ hits (s.added.keys.map (fun rid =>
    (rid, max 0 ((scores.get? rid).getD 0)))) k _ hfail
  rw [topK, hbase, ok_bind, hscores, ok_bind]
  dsimp only
  rw [ranked_eq, insertionSort_perm hperm, mergedHits, Nat.add_assoc]
  exact congrArg Except.ok hcut

end Merging

/-! ## Where the two searches agree -/

section Condition

variable (tokenizer : String → List String) (corpus live : OrderedDict RID String)
  (s : MutableInvertedIndex K) (query : String) (k : Nat) (o : Options K)

/-- The documents whose counts score an added one: those of the collection, also where they
were removed or replaced, and the added ones. -/
def counted : List (RID × String) := corpus.entries ++ s.added.entries

/-- The formula that scores an added document is that of the index: BM25 with its defaults. -/
def ScoresAlike : Prop :=
  o.methodName = "bm25" ∧ o.k1.getD defaultK1 = defaultK1 ∧ o.b.getD defaultB = defaultB

/-- A live document has the score it has in an index of the live documents. -/
def ScoreKept (e : RID × String) : Prop :=
  if e.1 ∈ s.added.keys then
    (∀ old ∈ corpus.get? e.1, Weightless tokenizer corpus.entries o.methodName query old) ∧
    (Weightless tokenizer (counted corpus s) o.methodName query e.2 ∨ ScoresAlike o) ∧
    SameScore tokenizer (counted corpus s) live.entries o query e.2
  else SameScore tokenizer corpus.entries live.entries o query e.2

/-- The options are rejected, or nothing is asked for; or no document is ranked that shares no
term where only those that do are asked for, and no live document has another score than in an
index of the live documents. -/
def Agrees : Prop :=
  o.check ≠ .ok () ∨ k = 0 ∨
    ((o.matchesOnly = true → ∀ e ∈ s.added.entries, Shares tokenizer query e.2) ∧
    ∀ e ∈ live.entries, ScoreKept tokenizer corpus live s query o e)

instance decidableScoresAlike : Decidable (ScoresAlike o) :=
  inferInstanceAs (Decidable (_ = _ ∧ _ = _ ∧ _ = _))

instance decidableScoreKept (e : RID × String) :
    Decidable (ScoreKept tokenizer corpus live s query o e) :=
  inferInstanceAs (Decidable (ite _ ((∀ _ ∈ _, _) ∧ (_ ∨ _) ∧ _) _))

instance decidableAgrees : Decidable (Agrees tokenizer corpus live s query k o) :=
  inferInstanceAs (Decidable (_ ∨ _ ∨ ((_ → ∀ _ ∈ _, _) ∧ ∀ _ ∈ _, _)))

end Condition

section Agreement

variable {R : Reals K} {tokenizer : String → List String} {corpus live : OrderedDict RID String}
  {s : MutableInvertedIndex K} {query : String} {o : Options K} {hits hits' : Hits K}
  {scores : OrderedDict RID K}

omit [Field K] [LinearOrder K] in
theorem perm_of_scores (hnodup : (hits.map Prod.fst).Nodup) (hnodup' : (hits'.map Prod.fst).Nodup)
    (hrids : ∀ rid, rid ∈ hits.map Prod.fst ↔ rid ∈ hits'.map Prod.fst)
    (hscores : ∀ e ∈ hits, ∀ e' ∈ hits', e.1 = e'.1 → e.2 = e'.2) : hits.Perm hits' := by
  refine (perm_ext_iff_of_nodup hnodup.of_map hnodup'.of_map).mpr (fun e => ?_)
  constructor
  · intro he
    obtain ⟨e', he', heq⟩ := mem_map.mp ((hrids e.1).mp (mem_map_of_mem he))
    rwa [Prod.ext heq.symm (hscores e he e' he' heq.symm)]
  · intro he
    obtain ⟨e', he', heq⟩ := mem_map.mp ((hrids e.1).mpr (mem_map_of_mem he))
    rwa [← Prod.ext heq (hscores e' he' e he heq)]

theorem mem_merged_hits (hrep : Represents corpus s live)
    (hranks : InvertedIndex.Ranks R tokenizer corpus o query hits)
    (hmatches : o.matchesOnly = true → ∀ e ∈ s.added.entries, Shares tokenizer query e.2)
    (rid : RID) :
    rid ∈ (mergedHits s hits scores).map Prod.fst ↔
      ∃ text, live.get? rid = some text ∧
        (o.matchesOnly = true → Shares tokenizer query text) := by
  have hparts : rid ∈ (mergedHits s hits scores).map Prod.fst ↔
      (rid ∉ s.removed ∧ rid ∉ s.added.keys ∧ rid ∈ hits.map Prod.fst) ∨ rid ∈ s.added.keys := by
    rw [mergedHits, map_append, mem_append]
    refine or_congr ?_ ?_
    · simp only [mem_map, mem_filter, decide_eq_true_eq]
      constructor
      · rintro ⟨e, ⟨he, hremoved, hadded⟩, rfl⟩
        exact ⟨hremoved, hadded, e, he, rfl⟩
      · rintro ⟨hremoved, hadded, e, he, rfl⟩
        exact ⟨e, ⟨he, hremoved, hadded⟩, rfl⟩
    · rw [map_map]
      exact (map_id s.added.keys).symm ▸ Iff.rfl
  rw [hparts, hranks.mem, hrep.live]
  by_cases hadded : rid ∈ s.added.keys
  · obtain ⟨text, htext⟩ := Option.isSome_iff_exists.mp (get?_isSome.mpr hadded)
    refine iff_of_true (Or.inr hadded) ⟨text, by rw [htext]; rfl, fun h => ?_⟩
    exact hmatches h _ (mem_of_get? htext)
  · rw [get?_eq_none.mpr hadded, Option.none_or]
    by_cases hremoved : rid ∈ s.removed
    · simp [hadded, hremoved]
    · simp [hadded, hremoved]

theorem of_mem_merged_hits (hrep : Represents corpus s live) {e : RID × K}
    (he : e ∈ mergedHits s hits scores) {text : String} (htext : live.get? e.1 = some text) :
    (e ∈ hits ∧ e.1 ∉ s.added.keys ∧ corpus.get? e.1 = some text) ∨
      (s.added.get? e.1 = some text ∧ e.2 = max 0 ((scores.get? e.1).getD 0)) := by
  rw [hrep.live] at htext
  rw [mergedHits, mem_append, mem_filter, mem_map] at he
  rcases he with ⟨he, hnot⟩ | ⟨rid, hrid, rfl⟩
  · simp only [decide_eq_true_eq] at hnot
    rw [get?_eq_none.mpr hnot.2, Option.none_or, if_neg hnot.1] at htext
    exact Or.inl ⟨he, hnot.2, htext⟩
  · obtain ⟨text', htext'⟩ := Option.isSome_iff_exists.mp (get?_isSome.mpr hrid)
    rw [htext', Option.some_or] at htext
    exact Or.inr ⟨htext'.trans htext, rfl⟩

/-! ## The scores of added documents -/

section Counted

variable (hbuild : build R tokenizer corpus = .ok s.base)
include hbuild

theorem length_counted : (counted corpus s).length = s.effectiveN := by
  rw [counted, length_append, effectiveN, store_of_build hbuild,
    InvertedStore.N_build]
  rfl

theorem frequency_counted (term : String) :
    frequency tokenizer (counted corpus s) term = s.documentFrequency tokenizer term := by
  rw [frequency, counted, countP_append, documentFrequency,
    store_of_build hbuild, frequency_build]
  rfl

/-- The average length that the index and the added documents have together. -/
theorem average_length_counted [CharZero K] :
    averageLength tokenizer (counted corpus s) = s.effectiveAvgdl tokenizer := by
  have hsum : (s.base.store.avgdl : K) * s.base.store.N =
      (totalLength tokenizer corpus.entries : Nat) := by
    rw [store_of_build hbuild, avgdl_build, averageLength,
      InvertedStore.N_build]
    split
    · next hzero =>
        rw [zero_mul, totalLength, eq_nil_of_length_eq_zero hzero]
        simp
    · next hne => exact div_mul_cancel₀ _ (Nat.cast_ne_zero.mpr hne)
  rw [averageLength, effectiveAvgdl, length_counted hbuild, hsum, totalLength, counted,
    map_append, sum_append, Nat.cast_add]
  rfl

end Counted

theorem foldlM_score_step_bm25 (tokens terms : List String) (start : K) :
    terms.foldlM (scoreStep R tokenizer s "bm25" tokens) start =
      .ok (start + (terms.map (fun term => bm25Term R (tokens.count term) s.effectiveN
        (s.documentFrequency tokenizer term) tokens.length (s.effectiveAvgdl tokenizer)
        defaultK1 defaultB)).sum) := by
  induction terms generalizing start with
  | nil => rw [map_nil, sum_nil, add_zero]; rfl
  | cons term terms ih =>
      have hstep : scoreStep R tokenizer s "bm25" tokens start term =
          .ok (start + bm25Term R (tokens.count term) s.effectiveN
            (s.documentFrequency tokenizer term) tokens.length (s.effectiveAvgdl tokenizer)
            defaultK1 defaultB) := by
        rw [scoreStep]
        by_cases htf : tokens.count term = 0
        · rw [if_pos htf, htf, bm25Term, if_pos (Or.inl rfl), add_zero]
        · rw [if_neg htf, if_pos rfl]
      rw [foldlM_cons, hstep, ok_bind, ih, map_cons, sum_cons, add_assoc]

variable [IsStrictOrderedRing K]

theorem added_score (hbuild : build R tokenizer corpus = .ok s.base)
    (hscores : scoreAdded R tokenizer s query o.methodName = .ok scores) {rid : RID}
    {text : String} (htext : s.added.get? rid = some text)
    (h : Weightless tokenizer (counted corpus s) o.methodName query text ∨ ScoresAlike o) :
    max 0 ((scores.get? rid).getD 0) =
      documentScore tokenizer (counted corpus s) R o query text := by
  have hbase : ∀ term, (s.base.store.postings term).length ≤ s.base.store.N := by
    intro term
    rw [store_of_build hbuild]
    exact InvertedStore.length_postings_le tokenizer corpus term
  have he := mem_of_get? htext
  rcases h with h | ⟨hmethod, hk1, hb⟩
  · obtain ⟨scores', hscores', hpositive⟩ :=
      @score_added_returns K _ _ R tokenizer s query o.methodName _ hbase
    obtain rfl := Except.ok.inj (hscores'.symm.trans hscores)
    rw [document_score_of_weightless h]
    refine max_eq_left (not_lt.mp (fun hpos => ?_))
    cases hget : scores'.get? rid with
    | none =>
        rw [hget, Option.getD_none] at hpos
        exact absurd hpos (lt_irrefl 0)
    | some score =>
        rw [hget, Option.getD_some] at hpos
        obtain ⟨text', htext', term, hterm, hin, hweighs⟩ :=
          (hpositive rid).mp ⟨_, mem_of_get? hget, hpos, rfl⟩
        obtain rfl : text = text' := Option.some.inj (htext.symm.trans htext')
        obtain ⟨hmethod, hall⟩ := h term hterm hin
        rcases hweighs with hbm25 | hlt
        · rw [hbm25] at hmethod
          revert hmethod
          decide
        · rw [← frequency_counted hbuild, ← length_counted hbuild, frequency,
            countP_eq_length.mpr (by simpa using hall)] at hlt
          exact absurd hlt (lt_irrefl _)
  · have hfold := @foldlM_score_step_bm25 K _ _ R tokenizer s (tokenizer text)
      (tokenizer query) 0
    have hscore : documentScore tokenizer (counted corpus s) R o query text =
        ((tokenizer query).map (fun term => bm25Term R ((tokenizer text).count term)
          s.effectiveN (s.documentFrequency tokenizer term) (tokenizer text).length
          (s.effectiveAvgdl tokenizer) defaultK1 defaultB)).sum := by
      rw [documentScore, if_neg (by rw [hmethod]; decide), bm25Score, hk1, hb,
        length_counted hbuild, average_length_counted hbuild]
      simp only [frequency_counted hbuild]
    rw [← hscore, zero_add] at hfold
    obtain ⟨score, hfold', hle, -⟩ := @foldlM_score_step K _ _ R tokenizer s "bm25" _ hbase _ he
      (tokenizer query) 0
    obtain rfl := Except.ok.inj (hfold'.symm.trans hfold)
    have hdocument : scoreDocument R tokenizer s query "bm25" text =
        .ok (documentScore tokenizer (counted corpus s) R o query text) := by
      rw [scoreDocument, hfold, ok_bind, if_neg (by simp)]
    rw [hmethod, scoreAdded] at hscores
    split at hscores
    · next hempty =>
        obtain rfl := Except.ok.inj hscores
        have hterms : tokenizer query = [] := by
          refine hempty.resolve_left (fun hnil => ?_)
          rw [hnil] at he
          cases he
        rw [get?_empty, Option.getD_none, max_self, hscore, hterms]
        rfl
    · obtain ⟨scored, hscored, hscores⟩ := bind_eq_ok.mp hscores
      obtain rfl := Except.ok.inj hscores
      obtain ⟨y, hy, hdo⟩ := exists_of_mapM hscored he
      rw [hdocument, ok_bind] at hdo
      obtain rfl := Except.ok.inj hdo
      have hkeys : scored.map Prod.fst = s.added.keys := by
        refine map_of_mapM hscored (fun e y h => ?_)
        obtain ⟨score, -, h⟩ := bind_eq_ok.mp h
        rw [← Except.ok.inj h]
      have hget : (ofPairs scored).get? rid =
          some (documentScore tokenizer (counted corpus s) R o query text) := by
        refine get?_of_mem ?_
        rw [entries_ofPairs (hkeys ▸ s.added.nodup)]
        exact hy
      rw [hget, Option.getD_some, max_eq_right hle]

theorem scores_agree (hbuild : build R tokenizer corpus = .ok s.base)
    (hrep : Represents corpus s live)
    (hranks : InvertedIndex.Ranks R tokenizer corpus o query hits)
    (hranks' : InvertedIndex.Ranks R tokenizer live o query hits')
    (hscores : scoreAdded R tokenizer s query o.methodName = .ok scores)
    (h : ∀ e ∈ live.entries, ScoreKept tokenizer corpus live s query o e) :
    ∀ e ∈ mergedHits s hits scores, ∀ e' ∈ hits', e.1 = e'.1 → e.2 = e'.2 := by
  rintro ⟨rid, score⟩ he ⟨rid', score'⟩ he' heq
  obtain rfl : rid = rid' := heq
  obtain ⟨text, htext, -⟩ := (hranks'.mem rid).mp (mem_map_of_mem he')
  have hlive := mem_of_get? htext
  have hkept := h _ hlive
  rw [ScoreKept] at hkept
  rw [hranks'.score _ he' text htext]
  rcases of_mem_merged_hits hrep he htext with ⟨hmem, hadded, hget⟩ | ⟨hget, hscore⟩
  · rw [if_neg hadded] at hkept
    rw [hranks.score _ hmem text hget]
    exact document_score_of_same (mem_of_get? hget) hlive hkept
  · have hadded : rid ∈ s.added.keys := get?_isSome.mp (by rw [hget]; rfl)
    have hcounted : (rid, text) ∈ counted corpus s :=
      mem_append_right _ (mem_of_get? hget)
    rw [if_pos hadded] at hkept
    obtain ⟨-, halike, hsame⟩ := hkept
    exact (hscore.trans (added_score hbuild hscores hget halike)).trans
      (document_score_of_same hcounted hlive hsame)

theorem added_hits_zero (hrep : Represents corpus s live)
    (hranks : InvertedIndex.Ranks R tokenizer corpus o query hits)
    (h : ∀ e ∈ live.entries, ScoreKept tokenizer corpus live s query o e) :
    ∀ e ∈ hits, e.1 ∈ s.added.keys → e.2 = 0 := by
  intro e he hadded
  obtain ⟨old, hold, -⟩ := (hranks.mem e.1).mp (mem_map_of_mem he)
  obtain ⟨text, htext⟩ := Option.isSome_iff_exists.mp (get?_isSome.mpr hadded)
  have hlive : live.get? e.1 = some text := by rw [hrep.live, htext, Option.some_or]
  have hkept := h _ (mem_of_get? hlive)
  rw [ScoreKept, if_pos hadded] at hkept
  rw [hranks.score e he old hold]
  exact document_score_of_weightless (hkept.1 old hold)

end Agreement

section Exactness

variable [IsStrictOrderedRing K] {R : Reals K} {tokenizer : String → List String}
  {corpus : OrderedDict RID String} {base : InvertedIndex K}

/-- After any run, where the state, the query and the options meet `Agrees`, a search answers
as a search of an index that is built of the live documents: with the same documents in the
same order, with the same scores, or with the same error. -/
theorem top_k_exact (hbase : build R tokenizer corpus = .ok base)
    (calls : List Call) (query : String) (k : Nat) (o : Options K)
    (h : Agrees tokenizer corpus (exec update corpus calls) (exec step (ofBase base) calls)
      query k o) :
    ∃ rebuilt, build R tokenizer (exec update corpus calls) = .ok rebuilt ∧
      topK R tokenizer (exec step (ofBase base) calls) query k o =
        InvertedIndex.topK R tokenizer rebuilt query k o := by
  obtain ⟨hrep, hsame⟩ := represents_exec (@represents_of_base K corpus base) calls
  generalize exec step (ofBase base) calls = s at h hrep hsame ⊢
  generalize exec update corpus calls = live at h hrep ⊢
  have hbuild : build R tokenizer corpus = .ok s.base := by
    rw [hsame]
    exact hbase
  obtain ⟨rebuilt, hrebuilt⟩ := @InvertedIndex.build_returns K _ _ R tokenizer live
  refine ⟨rebuilt, hrebuilt, ?_⟩
  cases hcheck : o.check with
  | error e =>
      rw [topK, InvertedIndex.topK, InvertedIndex.topK, hcheck]
      rfl
  | ok _ =>
      have hdf : ∀ term, (s.base.store.postings term).length ≤ s.base.store.N := by
        intro term
        rw [store_of_build hbuild]
        exact InvertedStore.length_postings_le tokenizer corpus term
      obtain ⟨scores, hscores, -⟩ :=
        @score_added_returns K _ _ R tokenizer s query o.methodName _ hdf
      obtain ⟨hits, hranks, hhits⟩ :=
        @InvertedIndex.top_k_build K _ _ R tokenizer corpus s.base _ hbuild query o hcheck
      obtain ⟨hits', hranks', hhits'⟩ :=
        @InvertedIndex.top_k_build K _ _ R tokenizer live rebuilt _ hrebuilt query o hcheck
      rcases Nat.eq_zero_or_pos k with rfl | hpos
      · obtain ⟨found, hfound⟩ : ∃ found, InvertedIndex.topK R tokenizer s.base query
            (0 + s.removed.card + s.added.size) o = .ok found := by
          by_cases hneeded : 0 + s.removed.card + s.added.size = 0
          · exact ⟨[], by rw [InvertedIndex.topK, hcheck, ok_bind, if_pos hneeded]⟩
          · exact ⟨_, hhits _ hneeded⟩
        rw [topK, hfound, ok_bind, hscores, ok_bind, InvertedIndex.topK, hcheck, ok_bind,
          if_pos rfl]
        exact congrArg Except.ok take_zero
      · have hbase' := hhits (k + s.removed.card + s.added.size) (by omega)
        obtain ⟨hmatches, h⟩ := (h.resolve_left (not_not_intro hcheck)).resolve_left hpos.ne'
        have hmerged := top_k_merged hranks.nodup hrep.apart (added_hits_zero hrep hranks h)
          hbase' hscores
        have hperm : (mergedHits s hits scores).Perm hits' :=
          perm_of_scores (nodup_merged_hits hranks.nodup) hranks'.nodup
            (fun rid => (mem_merged_hits hrep hranks hmatches rid).trans (hranks'.mem rid).symm)
            (scores_agree hbuild hrep hranks hranks' hscores h)
        rw [hhits' k hpos.ne', hmerged, ranked_eq, ranked_eq, insertionSort_perm hperm]

end Exactness

/-! ## Two documents and a third -/

/-- A collection of two documents with a word each, and its index. -/
def twoDocuments : OrderedDict RID String := ⟨[(⟨0, 0⟩, "a"), (⟨0, 1⟩, "b")], by decide⟩

def indexOfTwo : InvertedIndex ℚ := ⟨InvertedStore.build characters twoDocuments, [1, 1]⟩

theorem build_two_documents :
    build rational characters twoDocuments = .ok indexOfTwo := by
  decide +kernel

def bm25Options : Options ℚ := ⟨[], some "bm25", false, none, none⟩

/-- Among eight documents a word of four weighs what a word of one does among two. -/
def callsAppended : List Call :=
  [.insertDocument ⟨0, 2⟩ (some "a"), .insertDocument ⟨0, 3⟩ (some "c"),
    .insertDocument ⟨0, 4⟩ (some "aa"), .removeDocument ⟨0, 4⟩ (some "aa"),
    .insertDocument ⟨0, 5⟩ (some "a"), .insertDocument ⟨0, 6⟩ (some "c"),
    .insertDocument ⟨0, 7⟩ (some "a"), .insertDocument ⟨0, 8⟩ (some "d")]

theorem top_k_exact_of_calls_appended :
    ∃ rebuilt, build rational characters
        (exec update twoDocuments callsAppended) = .ok rebuilt ∧
      topK rational characters (exec step (ofBase indexOfTwo) callsAppended) "ac" 5
          bm25Options =
        InvertedIndex.topK rational characters rebuilt "ac" 5 bm25Options :=
  top_k_exact build_two_documents callsAppended "ac" 5 bm25Options (by decide +kernel)

/-- A document that moved changes no count. -/
def callsMoved : List Call :=
  [.removeDocument ⟨0, 1⟩ (some "b"), .insertDocument ⟨0, 2⟩ (some "b")]

example : Agrees characters twoDocuments (exec update twoDocuments callsMoved)
    (exec step (ofBase indexOfTwo) callsMoved) "a" 2 bm25Options := by
  decide +kernel

/-- A text that has the word of the first document twice is the best for it in a rebuilt index;
the first document, with the weight its word had among two, stays ahead of it. -/
theorem stale_counts_reorder :
    (topK rational characters
        (exec step (ofBase indexOfTwo) [.insertDocument ⟨0, 2⟩ (some "aa")]) "a" 1
        bm25Options).map (fun hits => hits.map Prod.fst) = .ok [⟨0, 0⟩] ∧
      (do
        let rebuilt ← build rational characters
          (exec update twoDocuments [.insertDocument ⟨0, 2⟩ (some "aa")])
        let hits ← InvertedIndex.topK rational characters rebuilt "a" 1 bm25Options
        .ok (hits.map Prod.fst)) = (.ok [⟨0, 2⟩] : Except PyError (List RID)) ∧
      ¬ ∃ rebuilt, build rational characters
          (exec update twoDocuments [.insertDocument ⟨0, 2⟩ (some "aa")]) = .ok rebuilt ∧
        topK rational characters
            (exec step (ofBase indexOfTwo) [.insertDocument ⟨0, 2⟩ (some "aa")]) "a" 1
            bm25Options =
          InvertedIndex.topK rational characters rebuilt "a" 1 bm25Options := by
  have hdelta : (topK rational characters
      (exec step (ofBase indexOfTwo) [.insertDocument ⟨0, 2⟩ (some "aa")]) "a" 1
      bm25Options).map (fun hits => hits.map Prod.fst) = .ok [⟨0, 0⟩] := by
    decide +kernel
  have hrebuilt : (do
      let rebuilt ← build rational characters
        (exec update twoDocuments [.insertDocument ⟨0, 2⟩ (some "aa")])
      let hits ← InvertedIndex.topK rational characters rebuilt "a" 1 bm25Options
      .ok (hits.map Prod.fst)) = (.ok [⟨0, 2⟩] : Except PyError (List RID)) := by
    decide +kernel
  refine ⟨hdelta, hrebuilt, ?_⟩
  rintro ⟨rebuilt, hbuild, heq⟩
  rw [hbuild, ok_bind, ← heq] at hrebuilt
  revert hdelta hrebuilt
  cases topK rational characters
    (exec step (ofBase indexOfTwo) [.insertDocument ⟨0, 2⟩ (some "aa")]) "a" 1
    bm25Options with
  | error e => exact fun hdelta => by cases hdelta
  | ok hits =>
      intro hdelta hrebuilt
      have hrids : hits.map Prod.fst = [⟨0, 0⟩] := Except.ok.inj hdelta
      rw [ok_bind, hrids] at hrebuilt
      revert hrebuilt
      decide

end MutableInvertedIndex
end SoupDB
