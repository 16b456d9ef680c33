import SoupDB.Plugins.StoreFiles
import Mathlib.Algebra.BigOperators.Group.Finset.Basic

/-!
# SoupDB: an inverted index is opened as it was built

`load` accepts what `build` has written: the terms ascend, their lists stand where the dictionary
says, and the frequencies add up to the lengths of the documents (`check_terms_ok`, `load_ok`).
The store answers with the postings of the documents (`Faithful`).

Main result: `store_round_trip_iff`.
-/

namespace SoupDB.DurableStore

open Tokenizer List

open PostingsFile (ListStands)
open TermDictionary (Holds Item TermsFit termBytes length_lt_of_short termsFit_of_size)
open ExtendibleHash (Short)
open HashPage (BUCKET_HEADER_SIZE)

variable {blake2b : Bytes → Bytes} {words : Words} {docs : List (List String)} {term : String}

/-! ## Frequencies add up -/

theorem observe_postings_from :
    ∀ {docs : List (List String)} {before observed : List Nat},
      observed.length = docs.length →
      observe (before ++ observed) (postingsFrom term before.length docs) =
        .ok (before ++ zipWith (fun n terms => n + terms.count term) observed docs)
  | [], before, observed, h => by
      rw [length_eq_zero_iff.mp h]
      rfl
  | terms :: docs, before, observed, h => by
      cases observed with
      | nil => cases h
      | cons n observed =>
          have hrest : observed.length = docs.length := Nat.succ.inj h
          have hnext := @observe_postings_from docs (before ++ [n + terms.count term]) observed
            hrest
          rw [length_append, length_singleton, append_assoc, append_assoc,
            singleton_append, singleton_append] at hnext
          rw [postingsFrom, zipWith_cons_cons]
          by_cases hterm : term ∈ terms
          · have hget : (before ++ n :: observed)[before.length]? = some n := by
              rw [getElem?_append_right le_rfl, Nat.sub_self, getElem?_cons_zero]
            have hset : (before ++ n :: observed).set before.length (n + terms.count term) =
                before ++ (n + terms.count term) :: observed := by
              rw [set_append_right _ _ le_rfl, Nat.sub_self, set_cons_zero]
            rw [if_pos hterm, observe, hget]
            dsimp only
            rw [hset, hnext]
          · have hzero : terms.count term = 0 := count_eq_zero_of_not_mem hterm
            rw [hzero, Nat.add_zero] at hnext
            rw [if_neg hterm, hzero, Nat.add_zero]
            exact hnext

theorem sum_count_vocabulary {terms : List String} (hterms : terms ∈ docs) :
    ((vocabulary docs).map (fun term => terms.count term)).sum = terms.length := by
  have hnodup : (vocabulary docs).Nodup :=
    (Spimi.pairwise_vocabulary docs).imp (fun h => ne_of_lt h)
  have hmem : ∀ term ∈ (terms : Multiset String), term ∈ (vocabulary docs).toFinset := by
    intro term hterm
    rw [mem_toFinset, mem_vocabulary]
    exact ⟨terms, hterms, hterm⟩
  have hsum := Multiset.sum_count_eq_card hmem
  rw [sum_toFinset _ hnodup, Multiset.coe_card] at hsum
  simpa only [Multiset.coe_count] using hsum

theorem zipWith_fst : ∀ {observed : List Nat} {docs : List (List String)},
    observed.length = docs.length → zipWith (fun n _ => n) observed docs = observed
  | [], _, _ => rfl
  | n :: observed, [], h => by cases h
  | n :: observed, doc :: docs, h => by
      rw [zipWith_cons_cons, zipWith_fst (Nat.succ.inj h)]

theorem zipWith_zipWith (f g : List String → Nat) :
    ∀ (observed : List Nat) (docs : List (List String)),
      zipWith (fun n doc => n + g doc)
        (zipWith (fun n doc => n + f doc) observed docs) docs =
          zipWith (fun n doc => n + (f doc + g doc)) observed docs
  | [], _ => rfl
  | _ :: _, [] => rfl
  | n :: observed, doc :: docs => by
      rw [zipWith_cons_cons, zipWith_cons_cons, zipWith_cons_cons,
        zipWith_zipWith f g observed docs, Nat.add_assoc]

theorem check_terms_ok {postings : PostingsFile} :
    ∀ {terms : List String} {previous : String} {observed : List Nat} {items : List Item},
      List.Forall₂ (Linked postings.file) (terms.map (fun term => (term, postingsOf docs term)))
        items →
      (previous :: terms).Pairwise (· < ·) → observed.length = docs.length →
      checkTerms postings docs.length previous observed items =
        .ok (zipWith (fun n doc => n + (terms.map (fun term => doc.count term)).sum) observed
          docs)
  | [], previous, observed, items, hlinked, _, hlength => by
      cases hlinked
      have hsame : (fun (n : Nat) (_ : List String) => n + 0) = fun n _ => n := rfl
      rw [checkTerms]
      simp only [map_nil, sum_nil, hsame]
      rw [zipWith_fst hlength]
  | term :: terms, previous, observed, items, hlinked, hascending, hlength => by
      rw [map_cons] at hlinked
      cases hlinked with
      | cons hfirst hrest =>
          rename_i item items
          obtain ⟨stored, entry⟩ := item
          obtain rfl : stored = term := hfirst.term
          obtain ⟨hprevious, hrestAscending⟩ := pairwise_cons.mp hascending
          have hdf : entry.df = (postingsOf docs stored).length := hfirst.df
          have hread := @ListStands.read _ _ _ postings.writable hfirst.stands
          have hoffset : entry.length = PostingsFile.COUNT.size +
            (postingsOf docs stored).length * PostingsFile.PAIR.size := hfirst.length
          have hobserve := @observe_postings_from stored docs [] observed hlength
          have hcount := length_postings_of_le docs stored
          have hsecond : (zipWith (fun n doc => n + doc.count stored) observed docs).length =
              docs.length := by
            rw [length_zipWith, hlength, Nat.min_self]
          rw [checkTerms, if_neg, hoffset, hdf, hread, ok_bind]
          · rw [nil_append, length_nil] at hobserve
            rw [postingsOf, hobserve, ok_bind, nil_append,
              check_terms_ok hrest hrestAscending hsecond]
            simp only [map_cons, sum_cons]
            rw [zipWith_zipWith]
          · rintro (hlt | hlt)
            · exact hlt (hprevious stored mem_cons_self)
            · omega

/-- The frequencies of all terms add up to the lengths of the documents. -/
theorem observed_lengths (docs : List (List String)) :
    zipWith (fun n doc => n + ((vocabulary docs).map (fun term => doc.count term)).sum)
      (replicate docs.length 0) docs = docs.map List.length := by
  have hdocs : ∀ {part : List (List String)}, (∀ doc ∈ part, doc ∈ docs) →
      zipWith (fun n doc => n + ((vocabulary docs).map (fun term => doc.count term)).sum)
        (replicate part.length 0) part = part.map List.length := by
    intro part
    induction part with
    | nil =>
        intro _
        rfl
    | cons doc part ih =>
        intro hmem
        rw [length_cons, replicate_succ, zipWith_cons_cons,
          ih (fun doc hdoc => hmem doc (mem_cons_of_mem _ hdoc)), Nat.zero_add,
          sum_count_vocabulary (hmem doc mem_cons_self), map_cons]
  exact hdocs (fun _ hdoc => hdoc)

/-! ## Opening what was written -/

theorem isclose_self (a : ℚ) : isclose a a = true := by
  rw [isclose, decide_eq_true_iff, sub_self, abs_zero]
  exact le_max_of_le_right (div_nonneg zero_le_one (pow_nonneg (by decide) 12))

/-- What a manifest says about the documents that were indexed. -/
structure Describes (tokenizer : Tokenizer) (pageSize : Int) (built : Spimi.Build)
    (manifest : Manifest) : Prop where
  version : manifest.version = VERSION
  pageSize : manifest.pageSize = pageSize
  tokenizerVersion : manifest.tokenizerVersion = TOKENIZER_VERSION
  stopwords : manifest.stopwords = tokenizer.stopwords
  stemming : manifest.stemming = tokenizer.stemming
  count : manifest.N = built.rids.length
  documents : manifest.documents.length = built.rids.length
  nonnegative : manifest.documents.any (fun d => d.1 < 0 || d.2.1 < 0 || d.2.2 < 0) = false
  rids : manifest.documents.map (fun d => (⟨d.1, d.2.1⟩ : RID)) = built.rids
  docLengths : manifest.documents.map (fun d => d.2.2.toNat) = built.docLengths
  avgdl : manifest.avgdl = average built.docLengths

variable {built : Spimi.Build} {dictionary : TermDictionary} {tokenizer : Tokenizer}
    {items : List (String × RID)}

theorem describes_manifest_of (tokenizer : Tokenizer) (pageSize : Int)
    (hsame : built.rids.length = built.docLengths.length)
    (hvalid : ∀ rid ∈ built.rids, 0 ≤ rid.pageId ∧ 0 ≤ rid.slot) :
    Describes tokenizer pageSize built (manifestOf tokenizer pageSize built) := by
  refine ⟨rfl, rfl, rfl, rfl, rfl, rfl, ?_, ?_, ?_, ?_, rfl⟩
  · rw [manifestOf, length_map, length_zip, ← hsame, Nat.min_self]
  · rw [any_eq_false]
    intro d hd
    obtain ⟨⟨rid, length⟩, hmem, rfl⟩ := mem_map.mp hd
    obtain ⟨hpageId, hslot⟩ := hvalid rid (of_mem_zip hmem).1
    simp only [Bool.or_eq_true, decide_eq_true_eq]
    omega
  · rw [manifestOf, map_map]
    exact map_fst_zip hsame.le
  · rw [manifestOf, map_map]
    exact map_snd_zip hsame.ge

theorem empty_lt (hterm : term ≠ "") : "" < term := by
  rw [String.lt_iff_toList_lt]
  cases hchars : term.toList with
  | nil => exact absurd (String.toList_eq_nil_iff.mp hchars) hterm
  | cons c cs => exact List.Lex.nil

theorem readOnly {items : List Item} (h : Holds blake2b dictionary items) :
    Holds blake2b { dictionary with writable := false } items :=
  ⟨⟨h.file, h.good, h.nodup, h.index, h.pageSize, h.maxDepth, h.pages⟩, h.offsets⟩

theorem load_ok {header : Bytes} {postings : PostingsFile} {items : List Item} {manifest : Manifest}
    (h : Written blake2b header dictionary.pageSize docs.length postings dictionary
      (referenceIndex docs) items) (hpage : 128 ≤ dictionary.pageSize)
    (hheader : ∀ more, PostingsFile.load (header ++ more) = .ok ⟨header ++ more, false⟩)
    (hempty : ∀ terms ∈ docs, "" ∉ terms)
    (hmanifest : Describes tokenizer dictionary.pageSize built manifest)
    (htokenizer : init words tokenizer.stopwords tokenizer.stemming = .ok tokenizer)
    (hlengths : built.docLengths = docs.map List.length) (hrids : built.rids.length = docs.length)
    (hnodup : built.rids.Nodup) :
    load blake2b words ⟨manifest, postings.file, dictionary.file, dictionary.index.diskManager⟩ =
      .ok ⟨{ dictionary with writable := false }, ⟨postings.file, false⟩, tokenizer, built.rids,
        built.docLengths⟩ := by
  obtain ⟨more, hfile⟩ := h.file
  have hdictionary := h.holds.load_ok hpage
  have hpostings : PostingsFile.load postings.file = .ok ⟨postings.file, false⟩ := by
    rw [hfile]
    exact hheader more
  have hitems := (readOnly h.holds).items_ok
  have hascending : ("" :: vocabulary docs).Pairwise (· < ·) := by
    refine pairwise_cons.mpr ⟨?_, Spimi.pairwise_vocabulary docs⟩
    intro term hterm
    obtain ⟨terms, hterms, hmem⟩ := mem_vocabulary.mp hterm
    refine empty_lt ?_
    rintro rfl
    exact hempty terms hterms hmem
  have hchecked : checkTerms ⟨postings.file, false⟩ docs.length ""
      (replicate docs.length 0) items = .ok (docs.map List.length) := by
    rw [← observed_lengths]
    exact @check_terms_ok docs ⟨postings.file, false⟩ _ _ _ _ h.linked hascending
      (length_replicate ..)
  have hcount := hmanifest.count
  have hdocuments := hmanifest.documents
  rw [load]
  dsimp only
  rw [hmanifest.version, if_neg (not_not.mpr rfl), hmanifest.pageSize, if_neg (by omega),
    hmanifest.tokenizerVersion, if_neg (not_not.mpr rfl), hmanifest.stopwords,
    hmanifest.stemming, htokenizer]
  dsimp only
  rw [if_neg (by omega), hmanifest.nonnegative, if_neg Bool.false_ne_true, hmanifest.rids,
    hmanifest.docLengths, if_neg (not_not.mpr hnodup), hmanifest.avgdl, isclose_self,
    if_neg (by decide), hdictionary, ok_bind, hpostings, ok_bind, hitems, ok_bind, hcount,
    Int.toNat_natCast, hrids, hchecked, ok_bind, hlengths, if_neg (not_not.mpr rfl)]

/-! ## What the store answers -/

/-- The store answers for these documents, under these RIDs. -/
structure Faithful (blake2b : Bytes → Bytes) (docs : List (List String)) (rids : List RID)
    (tokenizer : Tokenizer) (store : Store) : Prop where
  tokenizer : store.tokenizer = tokenizer
  rids : store.rids = rids
  docLengths : store.docLengths = docs.map List.length
  /-- The terms ascend, each with the number of documents it occurs in. -/
  terms : ∃ entries, store.terms = .ok entries ∧
    (entries.map Prod.fst).Pairwise (· < ·) ∧
    entries.map (fun e => (e.1, e.2.df)) =
      (vocabulary docs).map (fun term => (term, docs.countP (fun terms => term ∈ terms)))
  postings : ∀ term ∈ vocabulary docs,
    store.postingsOfTerm blake2b term = .ok (postingsOf docs term)
  others : ∀ term ∉ vocabulary docs, store.postingsOfTerm blake2b term = .ok []

theorem map_df_of_linked {file : Bytes} :
    ∀ {terms : List String} {items : List Item},
      List.Forall₂ (Linked file) (terms.map (fun term => (term, postingsOf docs term))) items →
      items.map (fun e => (e.1, e.2.df)) =
        terms.map (fun term => (term, docs.countP (fun doc => term ∈ doc)))
  | [], items, h => by
      cases h
      rfl
  | term :: terms, items, h => by
      rw [map_cons] at h
      cases h with
      | cons hfirst hrest =>
          rw [map_cons, map_cons, map_df_of_linked hrest, hfirst.term, hfirst.df,
            length_postings_of]

theorem faithful_of_written {header : Bytes} {pageSize count : Nat} {postings : PostingsFile}
    {dictionary : TermDictionary} {items : List Item} {tokenizer : Tokenizer} {rids : List RID}
    (h : Written blake2b header pageSize count postings dictionary (referenceIndex docs) items) :
    Faithful blake2b docs rids tokenizer
      ⟨{ dictionary with writable := false }, ⟨postings.file, false⟩, tokenizer, rids,
        docs.map List.length⟩ := by
  have hholds := readOnly h.holds
  have hkeys : items.map Prod.fst = vocabulary docs := by
    rw [h.fst_eq, Spimi.fst_reference_index]
  refine ⟨rfl, rfl, rfl, ⟨items, hholds.items_ok, ?_, map_df_of_linked h.linked⟩, ?_, ?_⟩
  · rw [hkeys]
    exact Spimi.pairwise_vocabulary docs
  · intro term hterm
    have hentry : (term, postingsOf docs term) ∈ referenceIndex docs :=
      mem_map_of_mem hterm
    obtain ⟨i, hi, hget⟩ := mem_iff_getElem.mp hentry
    have hi' : i < items.length := h.linked.length_eq ▸ hi
    have hlinked := forall₂_iff_get.mp h.linked
    have hlink := hlinked.2 i hi hi'
    rw [get_eq_getElem, get_eq_getElem, hget] at hlink
    have hfind := hholds.find_ok (getElem?_eq_getElem hi')
    rw [hlink.term] at hfind
    have hread := @ListStands.read _ _ _ false hlink.stands
    rw [Store.postingsOfTerm, hfind, ok_bind]
    dsimp only
    rw [hlink.length, hlink.df]
    exact hread
  · intro term hterm
    have hfind := hholds.find_none (hkeys ▸ hterm)
    rw [Store.postingsOfTerm, hfind, ok_bind]

/-! ## Building -/

/-- The terms of the texts. -/
def docsOf (words : Words) (tokenizer : Tokenizer) (items : List (String × RID)) :
    List (List String) :=
  items.map (fun i => tokenizer.tokens words i.1)

/-- Texts that can be indexed: their RIDs are valid and distinct, no term is too long for a page
of the dictionary, and counts have the sizes of their fields. -/
structure Indexable (words : Words) (tokenizer : Tokenizer) (pageSize : Int)
    (items : List (String × RID)) : Prop where
  valid : ∀ i ∈ items, 0 ≤ i.2.pageId ∧ 0 ≤ i.2.slot
  distinct : (items.map Prod.snd).Nodup
  terms : ∀ term ∈ vocabulary (docsOf words tokenizer items),
    (KeyCodec.encodeUtf8 term).length + 18 ≤ pageSize
  documents : items.length < 2 ^ 32
  lengths : ∀ terms ∈ docsOf words tokenizer items, terms.length < 2 ^ 64
  vocabulary : (vocabulary (docsOf words tokenizer items)).length ≤ 2 ^ 27

/-- A build returns a store that answers for the texts, and whose files are opened as this store,
if the hash has room for the terms; otherwise it raises the error of the hash. -/
theorem build_outcome (blake2b : Bytes → Bytes) (hwords : words.Lawful)
    (htokenizer : init words tokenizer.stopwords tokenizer.stemming = .ok tokenizer)
    {memoryLimitBytes fanIn : Int} {pageSize : Nat} (hlimit : 0 < memoryLimitBytes)
    (hfanIn : 2 ≤ fanIn) (hpage : 128 ≤ pageSize)
    (hshort : Short pageSize
      (BUCKET_HEADER_SIZE + termBytes (vocabulary (docsOf words tokenizer items))))
    (hitems : Indexable words tokenizer pageSize items) :
    (TermsFit blake2b pageSize (vocabulary (docsOf words tokenizer items)) →
      ∃ artifacts store,
        build blake2b words tokenizer memoryLimitBytes pageSize fanIn items =
          .ok (artifacts, store) ∧
        load blake2b words artifacts = .ok store ∧
        Faithful blake2b (docsOf words tokenizer items) (items.map Prod.snd) tokenizer store) ∧
    (¬ TermsFit blake2b pageSize (vocabulary (docsOf words tokenizer items)) →
      build blake2b words tokenizer memoryLimitBytes pageSize fanIn items =
        .error ExtendibleHash.directoryError) := by
  have hempty : ∀ terms ∈ docsOf words tokenizer items, "" ∉ terms := by
    intro terms hterms
    obtain ⟨item, -, rfl⟩ := mem_map.mp hterms
    exact not_mem_tokens hwords tokenizer item.1
  have hcount : (docsOf words tokenizer items).length < 2 ^ 32 := by
    rw [docsOf, length_map]
    exact hitems.documents
  have hsize : ∀ term ∈ vocabulary (docsOf words tokenizer items),
      (KeyCodec.encodeUtf8 term).length + 18 ≤ pageSize := by
    intro term hterm
    have hterm' := hitems.terms term hterm
    omega
  have hfits : ∀ p ∈ Spimi.postingsOfDocs 0 (docsOf words tokenizer items), Spimi.Fits p := by
    rintro ⟨term, docId, tf⟩ hp
    have hposting : (docId, tf) ∈ postingsOf (docsOf words tokenizer items) term :=
      Spimi.mem_postings_of_docs.mp hp
    have hterm : term ∈ vocabulary (docsOf words tokenizer items) := by
      by_contra hnot
      rw [postings_of_eq_nil hnot] at hposting
      cases hposting
    have hfields := (valid_postings_of (hcount.trans (by decide)) hitems.lengths term).fields
      _ hposting
    have hlength := length_lt_of_short hshort hterm (hsize term hterm)
    refine Spimi.Fits.of_short ?_ hfields.1 hfields.2.2
    dsimp only
    omega
  obtain ⟨built, hspimi, hmerged, hlengths, hrids⟩ :=
    Spimi.merged_terms_of_spimi_runs (tokenizer.tokens words)
      (not_mem_tokens hwords tokenizer) items memoryLimitBytes fanIn hlimit hfanIn
      hitems.valid hitems.distinct hfits
  obtain ⟨header, dictionary, hcreate, hdictionary, hheader, hheader', hwritten⟩ :=
    written_nil blake2b (docsOf words tokenizer items).length hpage
  have houtcome := Written.write_terms_outcome hheader hcount hwritten
    (listed_reference_index hempty hsize hcount hitems.lengths)
    (by
      rw [nil_append, Spimi.fst_reference_index]
      exact (Spimi.pairwise_vocabulary _).imp (fun h => ne_of_lt h))
    (by
      rw [nil_append, referenceIndex, length_map]
      exact hitems.vocabulary)
    (by
      rw [nil_append, Spimi.fst_reference_index]
      exact hshort)
    (termsFit_nil blake2b hpage)
  rw [nil_append, Spimi.fst_reference_index] at houtcome
  rw [build, hspimi, ok_bind, hdictionary, ok_bind, hcreate, ok_bind, hmerged, ok_bind]
  constructor
  · intro hfit
    obtain ⟨postings', dictionary', entries, hwrite, hwritten'⟩ := houtcome.1 hfit
    obtain rfl := hwritten'.pageSize
    have hdocLengths : built.docLengths = (docsOf words tokenizer items).map List.length := by
      rw [hlengths, docsOf, map_map]
      rfl
    have hdocCount : built.rids.length = (docsOf words tokenizer items).length := by
      rw [hrids, docsOf, length_map, length_map]
    have hvalid : ∀ rid ∈ built.rids, 0 ≤ rid.pageId ∧ 0 ≤ rid.slot := by
      intro rid hrid
      rw [hrids] at hrid
      obtain ⟨item, hitem, rfl⟩ := mem_map.mp hrid
      exact hitems.valid item hitem
    have hdescribes := describes_manifest_of tokenizer dictionary'.pageSize
      (by rw [hdocLengths, length_map, hdocCount]) hvalid
    have hopen := load_ok hwritten' hpage hheader' hempty hdescribes htokenizer hdocLengths
      hdocCount (by rw [hrids]; exact hitems.distinct)
    have hfaithful := @faithful_of_written _ _ _ _ _ _ _ _ tokenizer built.rids hwritten'
    rw [docsOf] at hwrite
    rw [hwrite, ok_bind]
    dsimp only
    rw [hopen, ok_bind, ok_bind]
    refine ⟨_, _, rfl, hopen, ?_⟩
    rw [hdocLengths, ← hrids]
    exact hfaithful
  · intro hfull
    have hwrite := houtcome.2 hfull
    rw [docsOf] at hwrite
    rw [hwrite]
    rfl

/-- Whatever the terms and the sizes of the memory and of the merges, an inverted index that is
built answers for its texts, and so does every store that is opened from its files; it is built
if and only if the hash has room for the terms, as it has on pages of 1032 bytes and more.  The
pages are of less than 64 KiB, or all terms together take less. -/
theorem store_round_trip_iff (blake2b : Bytes → Bytes) {words : Words} (hwords : words.Lawful)
    {stopwords : List String} {stemming : Bool}
    (htokenizer : init words stopwords stemming = .ok tokenizer)
    {memoryLimitBytes pageSize fanIn : Int} (hlimit : 0 < memoryLimitBytes) (hfanIn : 2 ≤ fanIn)
    (hpage : 128 ≤ pageSize)
    (hshort : Short pageSize.toNat
      (BUCKET_HEADER_SIZE + termBytes (vocabulary (docsOf words tokenizer items))))
    (hitems : Indexable words tokenizer pageSize items) :
    ((∃ artifacts store,
      build blake2b words tokenizer memoryLimitBytes pageSize fanIn items =
        .ok (artifacts, store) ∧
      load blake2b words artifacts = .ok store ∧
      Faithful blake2b (docsOf words tokenizer items) (items.map Prod.snd) tokenizer store) ↔
      TermsFit blake2b pageSize.toNat (vocabulary (docsOf words tokenizer items))) ∧
    (1032 ≤ pageSize →
      TermsFit blake2b pageSize.toNat (vocabulary (docsOf words tokenizer items))) := by
  obtain ⟨pageSize, rfl⟩ := Int.eq_ofNat_of_zero_le ((by decide : (0 : Int) ≤ 128).trans hpage)
  rw [Int.toNat_natCast] at hshort ⊢
  have houtcome := build_outcome blake2b hwords (init_again hwords htokenizer) hlimit
    hfanIn (by omega) hshort hitems
  refine ⟨⟨?_, houtcome.1⟩, fun hlarge => termsFit_of_size (by omega)⟩
  · rintro ⟨artifacts, store, hbuild, -, -⟩
    by_contra hfull
    rw [houtcome.2 hfull] at hbuild
    cases hbuild

/-! ### Letters -/

/-- Texts of single letters between blanks. -/
def letterWords : Words where
  findall text := (text.toList.filter Char.isAlphanum).map (fun c => String.ofList [c])
  normalize word := if word = "" then none else some word
  isalpha word := word.toList.all Char.isAlpha

theorem letter_words_lawful : letterWords.Lawful where
  nonempty text hmem := by
    obtain ⟨c, -, hc⟩ := mem_map.mp hmem
    have hlist := congrArg String.toList hc
    rw [String.toList_ofList] at hlist
    cases hlist
  stable word form h := by
    have hform : (if word = "" then none else some word) = some form := h
    split_ifs at hform with hword
    cases hform
    exact if_neg hword

def twentyLetters : List String :=
  ["a", "b", "c", "d", "e", "f", "g", "h", "i", "j", "k", "l", "m", "n", "o", "p", "q", "r", "s",
    "t"]

/-- Every term has the same hash. -/
def noHash (_ : Bytes) : Bytes := replicate 8 0

theorem store_round_trip_two_texts :
    ∃ artifacts store,
      build noHash letterWords ⟨[], false⟩ 1 128 2 [("b a b", ⟨0, 0⟩), ("a", ⟨0, 1⟩)] =
        .ok (artifacts, store) ∧
      load noHash letterWords artifacts = .ok store ∧
      Faithful noHash [["b", "a", "b"], ["a"]] [⟨0, 0⟩, ⟨0, 1⟩] ⟨[], false⟩ store := by
  have hdocs : docsOf letterWords ⟨[], false⟩ [("b a b", ⟨0, 0⟩), ("a", ⟨0, 1⟩)] =
      [["b", "a", "b"], ["a"]] := by
    decide +kernel
  have hvocabulary : vocabulary [["b", "a", "b"], ["a"]] = ["a", "b"] := by decide +kernel
  have hitems : Indexable letterWords ⟨[], false⟩ 128 [("b a b", ⟨0, 0⟩), ("a", ⟨0, 1⟩)] := by
    refine ⟨by decide, by decide, ?_, by decide, ?_, ?_⟩
    · rw [hdocs, hvocabulary]
      decide +kernel
    · rw [hdocs]
      decide
    · rw [hdocs, hvocabulary]
      decide
  have hfit : TermsFit noHash (128 : Int).toNat ["a", "b"] :=
    TermDictionary.termsFit_of_bytes (by decide +kernel)
  have htokenizer : init letterWords [] false = .ok ⟨[], false⟩ := rfl
  have hiff := store_round_trip_iff noHash letter_words_lawful htokenizer
    (by decide : (0 : Int) < 1) (by decide : (2 : Int) ≤ 2) (by decide : (128 : Int) ≤ 128)
    (Or.inl (by decide)) hitems
  rw [hdocs, hvocabulary] at hiff
  exact hiff.1.mpr hfit

/-- Twenty letters, none too long for a page of the dictionary, are not indexed. -/
theorem letters_not_built :
    Indexable letterWords ⟨[], false⟩ 128 [("a b c d e f g h i j k l m n o p q r s t", ⟨0, 0⟩)] ∧
    build noHash letterWords ⟨[], false⟩ 1 128 2
        [("a b c d e f g h i j k l m n o p q r s t", ⟨0, 0⟩)] =
      .error ExtendibleHash.directoryError := by
  have hdocs : docsOf letterWords ⟨[], false⟩
      [("a b c d e f g h i j k l m n o p q r s t", ⟨0, 0⟩)] = [twentyLetters] := by
    decide +kernel
  have hvocabulary : vocabulary [twentyLetters] = twentyLetters := by decide +kernel
  have hitems : Indexable letterWords ⟨[], false⟩ 128
      [("a b c d e f g h i j k l m n o p q r s t", ⟨0, 0⟩)] := by
    refine ⟨by decide, by decide, ?_, by decide, ?_, ?_⟩
    · rw [hdocs, hvocabulary]
      decide +kernel
    · rw [hdocs]
      decide
    · rw [hdocs, hvocabulary]
      decide
  have hfull : ¬ TermsFit noHash 128 twentyLetters := by
    intro hfit
    have hcrowded : 128 < HashPage.BUCKET_HEADER_SIZE +
        TermDictionary.classBytes noHash twentyLetters 15 0 := by
      decide +kernel
    have hdirectory : ¬ TermDictionary.DirectoryFits 128 15 := by
      rw [TermDictionary.DirectoryFits]
      decide
    exact hdirectory (hfit 15 (by decide) 0 hcrowded)
  refine ⟨hitems, ?_⟩
  have htokenizer : init letterWords [] false = .ok ⟨[], false⟩ := rfl
  have houtcome := build_outcome noHash letter_words_lawful htokenizer
    (by decide : (0 : Int) < 1) (by decide : (2 : Int) ≤ 2) (by decide : 128 ≤ 128)
    (Or.inl (by decide)) hitems
  rw [hdocs, hvocabulary] at houtcome
  exact houtcome.2 hfull

end SoupDB.DurableStore
