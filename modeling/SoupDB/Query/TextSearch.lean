import SoupDB.Common.RankedCatalog
import SoupDB.Plugins.MutableInverted
import SoupDB.Storage.FileOrganization

/-!
# SoupDB: text search in SELECT

A SELECT with MATCH asks the index of the column for candidates, fetches their rows and filters
them.  How many candidates it asks for is decided when it is planned; where it needs all of
them, it asks for the number of documents that the binding of the index declares, which is
that of the day the index was built.

Main fact: `text_search_complete`.  The rows come back complete as long as no more of them
match than the table had when the index was built, and every added one has a term that counts.
-/

namespace SoupDB

open MutableInvertedIndex FileOrganization List

variable {K Row : Type} [Field K] [LinearOrder K]

/-! ## Candidates -/

/-- How many candidates to ask the index for, and why. -/
def chooseCandidates (binding : RankedMetadata) (limit : Option Int) (offset : Int)
    (filtered distinct reordered : Bool) : Except PyError (Int × String) :=
  if limit.any (fun n => n < 0) then
    .error (.QueryExecutionError "ranked LIMIT must be a non-negative integer")
  else if offset < 0 then
    .error (.QueryExecutionError "ranked OFFSET must be a non-negative integer")
  else
    let all : Except PyError (Int × String) :=
      match binding.exact && binding.exhaustive, binding.itemCount with
      | true, some count => .ok (count, "exhaustive")
      | _, _ =>
          .error (.QueryExecutionError
            ("ranked search requires exact exhaustive candidates and a known " ++
              "item_count for no LIMIT, residual filters, DISTINCT or reordering"))
    match limit with
    | none => all
    | some n =>
        if n = 0 then .ok (0, "empty")
        else if filtered || distinct || reordered then all
        else .ok (n + offset, "bounded_top_k")

/-- A SELECT with MATCH, as far as its rows go. -/
structure TextSearch (Row : Type) where
  query : String
  method : String
  residual : Option (Row → Bool)
  limit : Option Int
  offset : Int
  distinct : Bool
  reordered : Bool

namespace TextSearch

/-- The options of the index scan. -/
def options (q : TextSearch Row) : Options K := ⟨[], some q.method, false, none, none⟩

/-- Every candidate is needed. -/
def unbounded (q : TextSearch Row) : Bool :=
  decide (0 ≤ q.offset) &&
    match q.limit with
    | none => true
    | some n => decide (0 < n) && (q.residual.isSome || q.distinct || q.reordered)

def ridText (rid : RID) : String := s!"RID(page_id={rid.pageId}, slot={rid.slot})"

/-- The scan checks of the hits that each RID comes once and that scores descend. -/
def checkOrder : List RID → Option K → Hits K → Except PyError Unit
  | _, _, [] => .ok ()
  | seen, lastScore, (rid, score) :: hits =>
      if rid ∈ seen then
        .error (.QueryExecutionError s!"ranked index returned duplicate RID {ridText rid}")
      else if lastScore.any (fun last => last < score) then
        .error (.QueryExecutionError "ranked index returned unsorted scores")
      else checkOrder (rid :: seen) (some score) hits

variable (R : Reals K) (tokenizer : String → List String)

/-- `InvertedIndexScan.open`. -/
def openScan (index : MutableInvertedIndex K) (q : TextSearch Row) (request : Nat) :
    Except PyError (Hits K) :=
  if q.method ≠ "tf_idf" ∧ q.method ≠ "bm25" then
    .error (.QueryExecutionError "text ranked method must be tf_idf or bm25")
  else if request = 0 then .ok []
  else do
    let hits ← index.matchTopK R tokenizer q.query request q.options
    if request < hits.length then
      .error (.QueryExecutionError "ranked index returned more hits than requested")
    else do
      checkOrder [] none hits
      .ok hits

def fetchHit (indexName : String) (file : FileOrganization Row) (e : RID × K) :
    Except PyError (RID × Row) :=
  match file.fetch e.1 with
  | some row => .ok (e.1, row)
  | none =>
      .error (.QueryExecutionError
        s!"stale RID {ridText e.1} in ranked index {reprStr indexName}")

/-- The row satisfies the residual filter. -/
def keeps (q : TextSearch Row) (row : Row) : Bool := q.residual.all (fun p => p row)

/-- The rows of the search, before they are sorted, projected and cut to the LIMIT. -/
def rows (binding : RankedMetadata) (index : MutableInvertedIndex K)
    (file : FileOrganization Row) (q : TextSearch Row) : Except PyError (List (RID × Row)) := do
  let (request, _) ← chooseCandidates binding q.limit q.offset q.residual.isSome q.distinct
    q.reordered
  let hits ← openScan R tokenizer index q request.toNat
  let fetched ← hits.mapM (fetchHit binding.name file)
  .ok (fetched.filter (fun e => q.keeps e.2))

end TextSearch

/-! ## A table with a text index -/

/-- A table and the index of one of its text columns. -/
structure IndexedTable (K Row : Type) where
  file : FileOrganization Row
  index : MutableInvertedIndex K
  binding : RankedMetadata

namespace IndexedTable

variable (text : Row → Option String)

/-- The documents of a table: its rows with a text that is not NULL. -/
def documents (file : FileOrganization Row) : OrderedDict RID String where
  entries := file.rows.filterMap (fun e => (text e.2).map (fun value => (e.1, value)))
  nodup := by
    have hsub : ((file.rows.filterMap (fun e => (text e.2).map (fun value => (e.1, value)))).map
        Prod.fst).Sublist (file.rows.map Prod.fst) := by
      induction file.rows with
      | nil => exact List.Sublist.refl _
      | cons e rows ih =>
          cases htext : text e.2 with
          | none =>
              rw [filterMap_cons_none (by rw [htext]; rfl)]
              exact ih.cons _
          | some value =>
              rw [filterMap_cons_some (by rw [htext]; rfl)]
              exact ih.cons_cons _
    exact hsub.nodup file.nodup

/-- `OnDiskInvertedFactory.build`: the index of the rows of a table, and its binding. -/
def create (R : Reals K) (tokenizer : String → List String) (m : RankedMetadata)
    (file : FileOrganization Row) : Except PyError (IndexedTable K Row) := do
  let base ← InvertedIndex.build R tokenizer (documents text file)
  .ok {
    file := file
    index := ofBase base
    binding :=
      { m with itemCount := some base.len, exact := true, exhaustive := true, mutable := true } }

/-- A committed INSERT or DELETE of one row. -/
inductive Change (Row : Type)
  | insert (rid : RID) (row : Row)
  | delete (rid : RID)

/-- The row goes into the file under a RID that was not given out before, and its text, if it
has one, into the index. -/
def step (t : IndexedTable K Row) : Change Row → IndexedTable K Row
  | .insert rid row =>
      if rid ∈ t.file.used then t
      else
        { t with
          file := t.file.insert rid row
          index :=
            match text row with
            | none => t.index
            | some value => t.index.insertDocument rid (some value) }
  | .delete rid =>
      match t.file.fetch rid with
      | none => t
      | some row =>
          { t with
            file := t.file.remove rid
            index :=
              match text row with
              | none => t.index
              | some _ => t.index.removeDocument rid }

/-! ## What the index knows of the table -/

section Tracking

variable {text : Row → Option String} {R : Reals K} {tokenizer : String → List String}
  {corpus : OrderedDict RID String} {t : IndexedTable K Row}

omit [Field K] [LinearOrder K] in
theorem get?_documents (file : FileOrganization Row) (rid : RID) :
    (documents text file).get? rid = (file.fetch rid).bind text := by
  refine Option.ext (fun value => ?_)
  rw [OrderedDict.get?_eq_some, documents, mem_filterMap, Option.bind_eq_some_iff]
  constructor
  · rintro ⟨⟨rid', row⟩, he, hvalue⟩
    obtain ⟨value', htext, heq⟩ := Option.map_eq_some_iff.mp hvalue
    obtain ⟨rfl, rfl⟩ := Prod.mk.inj heq
    exact ⟨row, mem_rows_iff.mp he, htext⟩
  · rintro ⟨row, hrow, htext⟩
    exact ⟨(rid, row), mem_rows_iff.mpr hrow, by rw [htext]; rfl⟩

/-- The index is that of the rows there were and of the changes since.  A RID of the rows there
were is not given to another row. -/
structure Tracks (text : Row → Option String) (R : Reals K) (tokenizer : String → List String)
    (corpus : OrderedDict RID String) (t : IndexedTable K Row) : Prop where
  base : InvertedIndex.build R tokenizer corpus = .ok t.index.base
  live : MutableInvertedIndex.Represents corpus t.index (documents text t.file)
  kept : ∀ rid ∈ corpus.keys, rid ∈ t.file.used ∧ t.index.added.get? rid = none
  declared : t.binding.exact = true ∧ t.binding.exhaustive = true ∧
    t.binding.itemCount = some (corpus.size : Int)

variable {file : FileOrganization Row} {rid : RID}

theorem fetch_of_unused (h : rid ∉ file.used) : file.fetch rid = none :=
  fetch_eq_none.mpr (fun e he heq => h (heq ▸ file.used_of_mem e he))

theorem tracks_create {m : RankedMetadata} (h : create text R tokenizer m file = .ok t) :
    Tracks text R tokenizer (documents text file) t := by
  obtain ⟨base, hbase, h⟩ := bind_eq_ok.mp h
  obtain rfl := Except.ok.inj h
  refine ⟨hbase, represents_of_base base, fun rid hrid => ?_, rfl, rfl, ?_⟩
  · obtain ⟨e, he, rfl⟩ := mem_map.mp hrid
    obtain ⟨row, hrow, -⟩ := mem_filterMap.mp he
    refine ⟨?_, rfl⟩
    have hfetch := (get?_documents file e.1).symm.trans (OrderedDict.get?_of_mem he)
    obtain ⟨row', hrow', -⟩ := Option.bind_eq_some_iff.mp hfetch
    exact file.used_of_mem _ (mem_of_fetch hrow')
  · rw [InvertedIndex.len_of_build hbase]

omit [Field K] [LinearOrder K] in
/-- Only what the documents are matters. -/
theorem represents_congr {s : MutableInvertedIndex K} {live live' : OrderedDict RID String}
    (h : MutableInvertedIndex.Represents corpus s live) (hsame : ∀ rid, live'.get? rid =
      live.get? rid) : MutableInvertedIndex.Represents corpus s live' :=
  ⟨fun rid => (hsame rid).trans (h.live rid), h.apart⟩

theorem tracks_insert (h : Tracks text R tokenizer corpus t) {row : Row}
    (hrid : rid ∉ t.file.used) :
    Tracks text R tokenizer corpus (t.step text (.insert rid row)) := by
  have hcorpus : rid ∉ corpus.keys := fun hmem => hrid (h.kept rid hmem).1
  have hused : ∀ rid', rid' ∈ t.file.used → rid' ∈ (t.file.insert rid row).used := by
    intro rid' hrid'
    rw [used_insert hrid]
    exact mem_cons_of_mem _ hrid'
  have hdocuments : ∀ rid', (documents text (t.file.insert rid row)).get? rid' =
      if rid' = rid then text row else (documents text t.file).get? rid' := by
    intro rid'
    rw [get?_documents, fetch_insert hrid, get?_documents]
    split
    · rfl
    · rfl
  rw [step, if_neg hrid]
  cases htext : text row with
  | none =>
      refine ⟨h.base, represents_congr h.live (fun rid' => ?_), fun rid' hrid' => ?_, h.declared⟩
      · rw [hdocuments rid', htext]
        split
        · next heq => rw [heq, get?_documents, fetch_of_unused hrid]; rfl
        · rfl
      · exact ⟨hused rid' (h.kept rid' hrid').1, (h.kept rid' hrid').2⟩
  | some value =>
      have hstep := MutableInvertedIndex.Represents.step h.live (.insertDocument rid (some value))
      refine ⟨h.base, represents_congr hstep (fun rid' => ?_), fun rid' hrid' => ?_, h.declared⟩
      · rw [hdocuments rid', htext, update, OrderedDict.get?_set]
      · have hne : rid' ≠ rid := fun heq => hcorpus (heq ▸ hrid')
        refine ⟨hused rid' (h.kept rid' hrid').1, ?_⟩
        simp only [insertDocument, OrderedDict.get?_set, if_neg hne]
        exact (h.kept rid' hrid').2

theorem tracks_delete (h : Tracks text R tokenizer corpus t) {row : Row}
    (hrow : t.file.fetch rid = some row) :
    Tracks text R tokenizer corpus (t.step text (.delete rid)) := by
  have hdocuments : ∀ rid', (documents text (t.file.remove rid)).get? rid' =
      if rid' = rid then none else (documents text t.file).get? rid' := by
    intro rid'
    rw [get?_documents, fetch_remove, get?_documents]
    split
    · rfl
    · rfl
  rw [step, hrow]
  dsimp only
  cases htext : text row with
  | none =>
      refine ⟨h.base, represents_congr h.live (fun rid' => ?_), h.kept, h.declared⟩
      rw [hdocuments rid']
      split
      · next heq => rw [heq, get?_documents, hrow, Option.bind_some, htext]
      · rfl
  | some value =>
      have hstep := MutableInvertedIndex.Represents.step h.live (.removeDocument rid (some value))
      refine ⟨h.base, represents_congr hstep (fun rid' => ?_), fun rid' hrid' => ?_, h.declared⟩
      · rw [hdocuments rid', update, OrderedDict.get?_erase]
      · refine ⟨(h.kept rid' hrid').1, ?_⟩
        simp only [removeDocument, OrderedDict.get?_erase]
        split
        · rfl
        · exact (h.kept rid' hrid').2

theorem tracks_step (h : Tracks text R tokenizer corpus t) (change : Change Row) :
    Tracks text R tokenizer corpus (t.step text change) := by
  cases change with
  | insert rid row =>
      by_cases hrid : rid ∈ t.file.used
      · rw [step, if_pos hrid]
        exact h
      · exact tracks_insert h hrid
  | delete rid =>
      cases hrow : t.file.fetch rid with
      | none =>
          rw [step, hrow]
          exact h
      | some row => exact tracks_delete h hrow

end Tracking

/-! ## Completeness -/

section Complete

variable {text : Row → Option String} {tokenizer : String → List String}

/-- The row has a text that shares a term with the query. -/
def wanted (text : Row → Option String) (tokenizer : String → List String) (query : String)
    (row : Row) : Bool :=
  (text row).any (fun value => decide (Shares tokenizer query value))

def answer (text : Row → Option String) (tokenizer : String → List String) (q : TextSearch Row)
    (file : FileOrganization Row) : List (RID × Row) :=
  file.rows.filter (fun e => wanted text tokenizer q.query e.2 && q.keeps e.2)

/-- No more rows match than there were documents when the index was built, and an added
document that matches has a term of the query that some document lacks, or the method is
BM25. -/
structure Covers (text : Row → Option String) (tokenizer : String → List String)
    (t : IndexedTable K Row) (q : TextSearch Row) : Prop where
  few : t.file.rows.countP (fun e => wanted text tokenizer q.query e.2) ≤ t.index.base.len
  weighty : ∀ rid value, t.index.added.get? rid = some value →
    Shares tokenizer q.query value →
      ∃ term ∈ tokenizer q.query,
        MutableInvertedIndex.Weighs tokenizer t.index q.method (tokenizer value) term

theorem choose_all {binding : RankedMetadata} {q : TextSearch Row} {count : Int}
    (hexact : binding.exact = true) (hexhaustive : binding.exhaustive = true)
    (hcount : binding.itemCount = some count) (hq : q.unbounded = true) :
    chooseCandidates binding q.limit q.offset q.residual.isSome q.distinct q.reordered =
      .ok (count, "exhaustive") := by
  rw [TextSearch.unbounded, Bool.and_eq_true, decide_eq_true_iff] at hq
  rw [chooseCandidates, hexact, hexhaustive, hcount, if_neg (by omega : ¬ q.offset < 0)]
  cases hlimit : q.limit with
  | none => rfl
  | some n =>
      have hlimited := hq.2
      rw [hlimit] at hlimited
      simp only [Bool.and_eq_true, decide_eq_true_iff, Bool.or_eq_true] at hlimited
      have hpos := hlimited.1
      have hforced : (q.residual.isSome || q.distinct || q.reordered) = true := by
        simpa using hlimited.2
      have hnonneg : ¬ (some n).any (fun n => decide (n < 0)) = true := by
        simpa using hpos.le
      rw [if_neg hnonneg]
      dsimp only
      rw [if_neg hpos.ne', if_pos hforced]
      rfl

omit [Field K] in
theorem check_order_ok {hits : Hits K} {seen : List RID} {last : Option K}
    (hnodup : (hits.map Prod.fst).Nodup) (hseen : ∀ e ∈ hits, e.1 ∉ seen)
    (hsorted : hits.Pairwise (fun a b => b.2 ≤ a.2))
    (hlast : ∀ score, last = some score → ∀ e ∈ hits, e.2 ≤ score) :
    TextSearch.checkOrder seen last hits = .ok () := by
  induction hits generalizing seen last with
  | nil => rfl
  | cons e hits ih =>
      rw [map_cons, nodup_cons] at hnodup
      rw [pairwise_cons] at hsorted
      have hdescends : last.any (fun score => score < e.2) = false := by
        cases last with
        | none => rfl
        | some score => simpa using hlast score rfl e (by simp)
      rw [TextSearch.checkOrder, if_neg (hseen e (by simp)), if_neg (by simp [hdescends])]
      refine ih hnodup.2 (fun e' he' hmem => ?_) hsorted.2 (fun score hscore e' he' => ?_)
      · rcases mem_cons.mp hmem with heq | hmem
        · exact hnodup.1 (heq ▸ mem_map_of_mem he')
        · exact hseen e' (by simp [he']) hmem
      · obtain rfl := Option.some.inj hscore
        exact hsorted.1 e' he'

section Found

variable {R : Reals K} {corpus : OrderedDict RID String} {t : IndexedTable K Row}

variable {query : String} {rid : RID}

theorem wanted_iff {row : Row} :
    wanted text tokenizer query row = true ↔
      ∃ value, text row = some value ∧ Shares tokenizer query value := by
  rw [wanted]
  cases text row with
  | none => simp
  | some value => simp

/-- Only a document of the rows there were or an added one with a term that counts is found;
what is found is live and shares a term. -/
theorem found_live (h : Tracks text R tokenizer corpus t) {method : String}
    (hfound : MutableInvertedIndex.MatchedBase tokenizer corpus t.index query rid ∨
      MutableInvertedIndex.MatchedAdded tokenizer t.index query method rid) :
    ∃ row, t.file.fetch rid = some row ∧ wanted text tokenizer query row = true := by
  have hlive : ∃ value, (documents text t.file).get? rid = some value ∧
      Shares tokenizer query value := by
    rcases hfound with ⟨hremoved, old, hold, hshares⟩ | ⟨value, hvalue, term, hterm, hweighs⟩
    · refine ⟨old, ?_, hshares⟩
      have hkept := (h.kept rid (OrderedDict.get?_isSome.mp (by rw [hold]; rfl))).2
      rw [h.live.live, hkept, if_neg hremoved, hold]
      rfl
    · refine ⟨value, ?_, term, hterm, hweighs.1⟩
      rw [h.live.live, hvalue]
      rfl
  obtain ⟨value, hvalue, hshares⟩ := hlive
  rw [get?_documents, Option.bind_eq_some_iff] at hvalue
  obtain ⟨row, hrow, htext⟩ := hvalue
  exact ⟨row, hrow, wanted_iff.mpr ⟨value, htext, hshares⟩⟩

theorem found_of_wanted (h : Tracks text R tokenizer corpus t) {method : String} {row : Row}
    (hrow : t.file.fetch rid = some row) (hwanted : wanted text tokenizer query row = true)
    (hweighs : ∀ value, t.index.added.get? rid = some value → Shares tokenizer query value →
      ∃ term ∈ tokenizer query,
        MutableInvertedIndex.Weighs tokenizer t.index method (tokenizer value) term) :
    MutableInvertedIndex.MatchedBase tokenizer corpus t.index query rid ∨
      MutableInvertedIndex.MatchedAdded tokenizer t.index query method rid := by
  obtain ⟨value, htext, hshares⟩ := wanted_iff.mp hwanted
  have hlive : (documents text t.file).get? rid = some value := by
    rw [get?_documents, hrow, Option.bind_some, htext]
  cases hadded : t.index.added.get? rid with
  | none =>
      rw [h.live.live, hadded, Option.none_or] at hlive
      split at hlive
      · cases hlive
      · next hremoved => exact Or.inl ⟨hremoved, value, hlive, hshares⟩
  | some value' =>
      rw [h.live.live, hadded, Option.some_or] at hlive
      obtain rfl := Option.some.inj hlive
      exact Or.inr ⟨value', hadded, hweighs value' hadded hshares⟩

theorem not_matchedBase_of_added (h : Tracks text R tokenizer corpus t) {value : String}
    (hadded : t.index.added.get? rid = some value) :
    ¬ MutableInvertedIndex.MatchedBase tokenizer corpus t.index query rid := by
  rintro ⟨-, old, hold, -⟩
  have hkept := (h.kept rid (OrderedDict.get?_isSome.mp (by rw [hold]; rfl))).2
  rw [hadded] at hkept
  cases hkept

end Found

/-! ## The rows of a search -/

section Rows

variable [IsStrictOrderedRing K] {R : Reals K} {corpus : OrderedDict RID String}
  {t : IndexedTable K Row} {q : TextSearch Row}

/-- The search fetches the rows of the best documents found, as many as there were documents
when the index was built, and filters them. -/
theorem rows_of_tracks (h : Tracks text R tokenizer corpus t)
    (hmethod : q.method = "tf_idf" ∨ q.method = "bm25") (hq : q.unbounded = true) :
    ∃ (merged : OrderedDict RID K) (fetched : List (RID × Row)),
      (∀ rid, rid ∈ merged.keys ↔
        MutableInvertedIndex.MatchedBase tokenizer corpus t.index q.query rid ∨
          MutableInvertedIndex.MatchedAdded tokenizer t.index q.query q.method rid) ∧
      fetched.map Prod.fst = ((ranked merged.entries).take corpus.size).map Prod.fst ∧
      (∀ e ∈ fetched, t.file.fetch e.1 = some e.2) ∧
      q.rows R tokenizer t.binding t.index t.file =
        .ok (fetched.filter (fun e => q.keeps e.2)) := by
  have hchoose := choose_all h.declared.1 h.declared.2.1 h.declared.2.2 hq
  have hcheck : (q.options : Options K).check = .ok () := by
    rcases hmethod with hmethod | hmethod
    · simp [TextSearch.options, Options.check, Options.methodName, hmethod]
    · simp only [TextSearch.options, Options.check, Options.methodName, hmethod,
        Option.getD_some, Option.getD_none, ne_eq, not_true_eq_false, if_false, and_false,
        if_true]
      rw [validateBm25, if_neg]
      norm_num [defaultK1, defaultB]
  obtain ⟨merged, hmatch, hkeys⟩ :=
    @MutableInvertedIndex.match_top_k_merged K _ _ _ R tokenizer corpus _ t.index q.query h.base
      h.live corpus.size q.options hcheck (by omega)
  have hoptions : (q.options : Options K).methodName = q.method := rfl
  rw [hoptions] at hkeys
  have hperm := ranked_perm merged.entries
  have hsub : ((ranked merged.entries).take corpus.size).Sublist (ranked merged.entries) :=
    take_sublist _ _
  have hnodup : (((ranked merged.entries).take corpus.size).map Prod.fst).Nodup :=
    (hsub.map Prod.fst).nodup ((hperm.map Prod.fst).nodup_iff.mpr merged.nodup)
  have hopen : TextSearch.openScan R tokenizer t.index q corpus.size =
      .ok ((ranked merged.entries).take corpus.size) := by
    have hlength : ¬ corpus.size < ((ranked merged.entries).take corpus.size).length := by
      rw [length_take]
      omega
    have horder : TextSearch.checkOrder [] none ((ranked merged.entries).take corpus.size) =
        .ok () := by
      refine check_order_ok hnodup (fun _ _ => not_mem_nil)
        ((ranked_sorted merged.entries).sublist hsub) ?_
      rintro _ ⟨⟩
    rw [TextSearch.openScan, if_neg (by tauto)]
    by_cases hzero : corpus.size = 0
    · rw [if_pos hzero, hzero, take_zero]
    · rw [if_neg hzero, hmatch, ok_bind, if_neg hlength, horder, ok_bind]
  have hreturns : ∀ e ∈ (ranked merged.entries).take corpus.size,
      ∃ fetched, TextSearch.fetchHit t.binding.name t.file e = .ok fetched := by
    intro e he
    have hmem : e.1 ∈ merged.keys :=
      mem_map_of_mem (hperm.mem_iff.mp (hsub.subset he))
    obtain ⟨row, hrow, -⟩ := found_live h ((hkeys e.1).mp hmem)
    exact ⟨(e.1, row), by rw [TextSearch.fetchHit, hrow]⟩
  have hfetch : ∀ (e : RID × K) (y : RID × Row),
      TextSearch.fetchHit t.binding.name t.file e = .ok y →
        y.1 = e.1 ∧ t.file.fetch y.1 = some y.2 := by
    intro e y hy
    rw [TextSearch.fetchHit] at hy
    cases hrow : t.file.fetch e.1 with
    | none =>
        rw [hrow] at hy
        cases hy
    | some row =>
        rw [hrow] at hy
        obtain rfl := Except.ok.inj hy
        exact ⟨rfl, hrow⟩
  obtain ⟨fetched, hfetched⟩ := mapM_of_returns hreturns
  refine ⟨merged, fetched, hkeys, map_of_mapM hfetched (fun e y hy => (hfetch e y hy).1),
    fun y hy => ?_, ?_⟩
  · obtain ⟨e, -, hy⟩ := mem_mapM hfetched hy
    exact (hfetch e y hy).2
  · rw [TextSearch.rows, hchoose, ok_bind]
    simp only [Int.toNat_natCast]
    rw [hopen, ok_bind, hfetched, ok_bind]

omit [Field K] [LinearOrder K] [IsStrictOrderedRing K] in
theorem perm_answer {rows : List (RID × Row)} (hnodup : (rows.map Prod.fst).Nodup)
    (hmem : ∀ rid row, (rid, row) ∈ rows ↔ t.file.fetch rid = some row ∧
      wanted text tokenizer q.query row = true ∧ q.keeps row = true) :
    rows.Perm (answer text tokenizer q t.file) := by
  refine (perm_ext_iff_of_nodup (List.Nodup.of_map Prod.fst hnodup) ?_).mpr ?_
  · exact (List.Nodup.of_map Prod.fst t.file.nodup).filter _
  · rintro ⟨rid, row⟩
    rw [hmem, answer, mem_filter, mem_rows_iff, Bool.and_eq_true]

/-- A search that needs all candidates returns every row that matches and passes the filter,
once, when the index covers them; without a filter, only then. -/
theorem text_search_complete {m : RankedMetadata} {file : FileOrganization Row}
    {start : IndexedTable K Row} (hcreate : create text R tokenizer m file = .ok start)
    (changes : List (Change Row)) (q : TextSearch Row)
    (hmethod : q.method = "tf_idf" ∨ q.method = "bm25") (hq : q.unbounded = true) :
    (Covers text tokenizer (exec (step text) start changes) q →
      ∃ rows, q.rows R tokenizer (exec (step text) start changes).binding
        (exec (step text) start changes).index (exec (step text) start changes).file = .ok rows ∧
          rows.Perm (answer text tokenizer q (exec (step text) start changes).file)) ∧
    (q.residual = none →
      (∃ rows, q.rows R tokenizer (exec (step text) start changes).binding
        (exec (step text) start changes).index (exec (step text) start changes).file = .ok rows ∧
          rows.Perm (answer text tokenizer q (exec (step text) start changes).file)) →
      Covers text tokenizer (exec (step text) start changes) q) := by
  have hstep : ∀ t change, Tracks text R tokenizer (documents text file) t →
      Tracks text R tokenizer (documents text file) (step text t change) :=
    fun _ change h => tracks_step h change
  have htracks := (always_of_every_step hstep changes (tracks_create hcreate)).last
  generalize exec (step text) start changes = t at htracks ⊢
  generalize documents text file = corpus at htracks
  have hlen : t.index.base.len = corpus.size := InvertedIndex.len_of_build htracks.base
  obtain ⟨merged, fetched, hkeys, hrids, hfetched, hrows⟩ := rows_of_tracks htracks hmethod hq
  have hperm := ranked_perm merged.entries
  have hnodup : (fetched.map Prod.fst).Nodup := by
    rw [hrids]
    exact ((take_sublist _ _).map Prod.fst).nodup
      ((hperm.map Prod.fst).nodup_iff.mpr merged.nodup)
  have hmem : ∀ {rid row}, (rid, row) ∈ fetched ↔
      rid ∈ ((ranked merged.entries).take corpus.size).map Prod.fst ∧
        t.file.fetch rid = some row := by
    intro rid row
    rw [← hrids]
    constructor
    · exact fun he => ⟨mem_map_of_mem he, hfetched _ he⟩
    · rintro ⟨hrid, hrow⟩
      obtain ⟨e, he, rfl⟩ := mem_map.mp hrid
      have heq : some e.2 = some row := (hfetched e he).symm.trans hrow
      rwa [← Option.some.inj heq]
  constructor
  · intro hcovers
    have hsize : merged.entries.length ≤ corpus.size := by
      have hsub : merged.keys ⊆
          (t.file.rows.filter (fun e => wanted text tokenizer q.query e.2)).map Prod.fst := by
        intro rid hrid
        obtain ⟨row, hrow, hwanted⟩ := found_live htracks ((hkeys rid).mp hrid)
        exact mem_map.mpr
          ⟨(rid, row), mem_filter.mpr ⟨mem_of_fetch hrow, hwanted⟩, rfl⟩
      have hle := (merged.nodup.subperm hsub).length_le
      have hfew := hcovers.few
      rw [length_map, length_map, ← countP_eq_length_filter] at hle
      omega
    rw [take_of_length_le (hperm.length_eq.trans_le hsize)] at hmem
    refine ⟨_, hrows, perm_answer ?_ (fun rid row => ?_)⟩
    · exact (filter_sublist.map Prod.fst).nodup hnodup
    · rw [mem_filter, hmem, (hperm.map Prod.fst).mem_iff]
      constructor
      · rintro ⟨⟨hrid, hrow⟩, hkeeps⟩
        obtain ⟨row', hrow', hwanted⟩ := found_live htracks ((hkeys rid).mp hrid)
        obtain rfl := Option.some.inj (hrow'.symm.trans hrow)
        exact ⟨hrow, hwanted, hkeeps⟩
      · rintro ⟨hrow, hwanted, hkeeps⟩
        refine ⟨⟨(hkeys rid).mpr ?_, hrow⟩, hkeeps⟩
        exact found_of_wanted htracks hrow hwanted (hcovers.weighty rid)
  · rintro hresidual ⟨rows, hreturned, hanswer⟩
    obtain rfl := Except.ok.inj (hrows.symm.trans hreturned)
    have hkeeps : ∀ row, q.keeps row = true := by
      intro row
      rw [TextSearch.keeps, hresidual]
      rfl
    constructor
    · have hlength := hanswer.length_eq
      have hle : fetched.length ≤ corpus.size := by
        have h := congrArg length hrids
        rw [length_map, length_map, length_take] at h
        omega
      rw [answer] at hlength
      simp only [hkeeps, filter_true, Bool.and_true] at hlength
      rw [hlen, countP_eq_length_filter, ← hlength]
      exact hle
    · intro rid value hadded hshares
      have hlive : (documents text t.file).get? rid = some value := by
        rw [htracks.live.live, hadded]
        rfl
      rw [get?_documents, Option.bind_eq_some_iff] at hlive
      obtain ⟨row, hrow, htext⟩ := hlive
      have hwanted : wanted text tokenizer q.query row = true :=
        wanted_iff.mpr ⟨value, htext, hshares⟩
      have hrid : (rid, row) ∈ fetched.filter (fun e => q.keeps e.2) := by
        refine hanswer.mem_iff.mpr (mem_filter.mpr ⟨mem_of_fetch hrow, ?_⟩)
        simp [hwanted, hkeeps]
      obtain ⟨e, he, heq⟩ := mem_map.mp (hmem.mp (mem_filter.mp hrid).1).1
      have hkey : rid ∈ merged.keys :=
        heq ▸ mem_map_of_mem (hperm.mem_iff.mp (mem_of_mem_take he))
      rcases (hkeys rid).mp hkey with hbase | ⟨value', hadded', hweighs⟩
      · exact absurd hbase (not_matchedBase_of_added htracks hadded)
      · obtain rfl := Option.some.inj (hadded.symm.trans hadded')
        exact hweighs

end Rows

end Complete

/-! ## Tables of one text column -/

def rowText (row : Option String) : Option String := row

/-- The metadata of a CREATE INDEX ... USING INVERTED. -/
def inverted : RankedMetadata :=
  ⟨"i", "t", "a", "INVERTED", none, none, none, none, false, false, false⟩

/-- `SELECT ... WHERE MATCH(a, 'b')` without LIMIT. -/
def matchB : TextSearch (Option String) := ⟨"b", "bm25", none, none, 0, false, false⟩

def replacedRow : List (Change (Option String)) :=
  [.delete ⟨0, 0⟩, .insert ⟨0, 1⟩ (some "bb")]

def oneRow : FileOrganization (Option String) :=
  empty.insert ⟨0, 0⟩ (some "b")

def indexOfRow : InvertedIndex ℚ :=
  ⟨InvertedStore.build characters (documents rowText oneRow), [0]⟩

/-- What CREATE INDEX makes of a table of one row. -/
def onOne : IndexedTable ℚ (Option String) where
  file := oneRow
  index := ofBase indexOfRow
  binding :=
    { inverted with itemCount := some 1, exact := true, exhaustive := true, mutable := true }

theorem create_on_one :
    create rowText Reals.rational characters inverted oneRow =
      .ok onOne := by
  have hbuild : InvertedIndex.build Reals.rational characters
      (documents rowText oneRow) = .ok indexOfRow := by
    decide +kernel
  rw [create, hbuild, ok_bind]
  rfl

theorem text_search_complete_of_replaced_row :
    ∃ rows, matchB.rows Reals.rational characters
        (exec (step rowText) onOne replacedRow).binding
        (exec (step rowText) onOne replacedRow).index
        (exec (step rowText) onOne replacedRow).file = .ok rows ∧
      rows.Perm [(⟨0, 1⟩, some "bb")] := by
  refine (text_search_complete create_on_one replacedRow matchB (Or.inr rfl) (by decide)).1
    ⟨by decide +kernel, fun rid value _ hshares => ?_⟩
  obtain ⟨term, hterm, hvalue⟩ := hshares
  exact ⟨term, hterm, hvalue, Or.inl rfl⟩

def onEmpty : IndexedTable ℚ (Option String) where
  file := empty
  index := ofBase
    ⟨InvertedStore.build characters OrderedDict.empty, []⟩
  binding :=
    { inverted with itemCount := some 0, exact := true, exhaustive := true, mutable := true }

def firstRow : List (Change (Option String)) := [.insert ⟨0, 0⟩ (some "b")]

/-- On an empty table the index is told to find nothing: a row inserted afterwards is missed. -/
theorem row_of_new_table_missed :
    create rowText Reals.rational characters inverted
        empty = .ok onEmpty ∧
      matchB.unbounded = true ∧
      matchB.rows Reals.rational characters
        (exec (step rowText) onEmpty firstRow).binding
        (exec (step rowText) onEmpty firstRow).index
        (exec (step rowText) onEmpty firstRow).file = .ok [] ∧
      answer rowText characters matchB
        (exec (step rowText) onEmpty firstRow).file = [(⟨0, 0⟩, some "b")] :=
  ⟨rfl, by decide, by decide +kernel, by decide +kernel⟩

end IndexedTable
end SoupDB
