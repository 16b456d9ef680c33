import SoupDB.Plugins.DurableStore

/-!
# SoupDB: writing the files of an inverted index

The postings of short terms have records that a run can hold (`Spimi.Fits.of_short`).  What is
written after some terms is a `Written`: the list of every term stands in the file of postings
where the dictionary says.  One term keeps this or is refused by the hash (`Written.step`), and
so do all terms (`Written.writeTerms`).
-/

namespace SoupDB

open Json List

open KeyCodec (encodeUtf8 length_encodeUtf8_le length_le_encodeUtf8)

/-! ## Records of short terms -/

namespace Spimi

theorem length_escapeUnicode_le (c : Nat) : (escapeUnicode c).length ≤ 6 := by
  rw [escapeUnicode]
  split_ifs
  all_goals exact Nat.le_of_ble_eq_true rfl

theorem length_dumpChars_le (s : String) :
    (dumpChars s).length ≤ 6 * s.toList.length + 1 := by
  have hchars : ∀ cs : List Nat, (cs.flatMap escapeUnicode).length ≤ 6 * cs.length := by
    intro cs
    induction cs with
    | nil => exact Nat.le_refl _
    | cons c cs ih =>
        have hescape := length_escapeUnicode_le c
        rw [flatMap_cons, length_append, length_cons]
        omega
  have hcodes := hchars (codes s)
  rw [codes, length_map] at hcodes
  rw [dumpChars, length_append, length_singleton, codes]
  omega

theorem length_dumpNat_le {n : Nat} (h : n < 2 ^ 64) : (dumpNat n).length ≤ 20 := by
  rw [dumpNat, length_map, Nat.length_toDigits_le_iff (by decide) (by decide)]
  exact h.trans (by decide)

theorem too_long_of_lt {n : Nat} (h : n < 2 ^ 64) : tooLong n = false := by
  rw [tooLong, decide_eq_false_iff_not, not_le]
  exact h.trans_le ((by decide : 2 ^ 64 ≤ 10 ^ 20).trans
    (Nat.pow_le_pow_right (by decide) (by decide)))

/-- A term of less than 2^16 bytes and numbers of eight bytes fit in a record. -/
theorem Fits.of_short {p : Triple} (hterm : (encodeUtf8 p.1).length < 65536)
    (hdoc : p.2.1 < 2 ^ 64) (htf : p.2.2 < 2 ^ 64) : Fits p := by
  refine ⟨recordOf p, ?_, ?_⟩
  · rw [encodePosting, too_long_of_lt hdoc, too_long_of_lt htf]
    rfl
  · have hletters := length_le_encodeUtf8 p.1
    have hchars := length_dumpChars_le p.1
    have hdocDigits := length_dumpNat_le hdoc
    have htfDigits := length_dumpNat_le htf
    have htext := length_encodeUtf8_le (dumpArray [.str p.1, .int p.2.1, .int p.2.2])
    have hint : ∀ n : Nat, dumpItem (.int n) = dumpNat n := by
      intro n
      have hscalar : dumpItem (.int n) = dumpScalar (.int n) := rfl
      rw [hscalar, dumpScalar, if_neg (by omega), Int.natAbs_natCast]
    have hcodes : (arrayCodes [.str p.1, .int p.2.1, .int p.2.2]).length ≤
        6 * p.1.toList.length + 48 := by
      rw [arrayCodes, dumpItem, dumpItems, flatMap_cons, flatMap_cons,
        flatMap_nil, hint, hint]
      simp only [length_cons, length_append, length_nil]
      omega
    rw [dumpArray, ← String.length_toList, String.toList_ofList, length_map] at htext
    show (encodeUtf8 (dumpArray [.str p.1, .int p.2.1, .int p.2.2])).length < 2 ^ 32
    rw [dumpArray]
    omega

end Spimi

/-! ## The postings of the documents -/

namespace DurableStore

open PostingsFile (ListStands Valid)
open TermDictionary (Good Holds Item TermsFit termBytes termBytes_append length_lt_of_short)
open ExtendibleHash (Short)
open HashPage (BUCKET_HEADER_SIZE)

variable {docs : List (List String)} {term : String}

theorem length_postings_of_le (docs : List (List String)) (term : String) :
    (postingsOf docs term).length ≤ docs.length := by
  rw [length_postings_of]
  exact countP_le_length

theorem valid_postings_of (hdocs : docs.length < 2 ^ 64)
    (hlengths : ∀ terms ∈ docs, terms.length < 2 ^ 64) (term : String) :
    Valid (postingsOf docs term) := by
  refine ⟨Spimi.pairwise_postings_from term 0 docs, ?_,
    (length_postings_of_le docs term).trans_lt hdocs⟩
  rintro ⟨docId, tf⟩ hp
  obtain ⟨terms, hget, hterm, rfl⟩ := mem_postings_of.mp hp
  have hdoc : docId < docs.length := (List.getElem?_eq_some_iff.mp hget).1
  have hcount := count_le_length (a := term) (l := terms)
  have hlength := hlengths terms (mem_of_getElem? hget)
  exact ⟨hdoc.trans hdocs, count_pos_iff.mpr hterm, hcount.trans_lt hlength⟩

theorem postings_of_ne_nil (hterm : term ∈ vocabulary docs) : postingsOf docs term ≠ [] := by
  obtain ⟨terms, hterms, hmem⟩ := mem_vocabulary.mp hterm
  obtain ⟨i, hget⟩ := mem_iff_getElem?.mp hterms
  have hposting : (i, terms.count term) ∈ postingsOf docs term :=
    mem_postings_of.mpr ⟨terms, hget, hmem, rfl⟩
  exact ne_nil_of_mem hposting

theorem postings_of_eq_nil (hterm : term ∉ vocabulary docs) : postingsOf docs term = [] := by
  refine eq_nil_iff_forall_not_mem.mpr ?_
  rintro ⟨docId, tf⟩ hp
  obtain ⟨terms, hget, hmem, -⟩ := mem_postings_of.mp hp
  exact hterm (mem_vocabulary.mpr ⟨terms, mem_of_getElem? hget, hmem⟩)

/-! ## Writing terms -/

/-- The entry of a term says where its list stands. -/
structure Linked (file : Bytes) (e : String × List Posting) (item : Item) : Prop where
  term : item.1 = e.1
  df : item.2.df = e.2.length
  length : item.2.length = PostingsFile.COUNT.size + e.2.length * PostingsFile.PAIR.size
  stands : ListStands file item.2.offset e.2

/-- The terms of `index` are written; a list has at most `count` postings. -/
structure Written (blake2b : Bytes → Bytes) (header : Bytes) (pageSize count : Nat)
    (postings : PostingsFile) (dictionary : TermDictionary)
    (index : List (String × List Posting)) (items : List Item) : Prop where
  file : ∃ more, postings.file = header ++ more
  writable : postings.writable = true
  size : postings.file.length ≤ header.length + index.length * (8 + 16 * count)
  adds : dictionary.writable = true
  pageSize : dictionary.pageSize = pageSize
  holds : Holds blake2b dictionary items
  linked : List.Forall₂ (Linked postings.file) index items

/-- The term can be written with its list. -/
structure Listed (pageSize count : Nat) (e : String × List Posting) : Prop where
  term : e.1 ≠ ""
  size : (encodeUtf8 e.1).length + 18 ≤ pageSize
  valid : Valid e.2
  nonempty : e.2 ≠ []
  count : e.2.length ≤ count

theorem fst_eq_of_linked {file : Bytes} {index : List (String × List Posting)}
    {items : List Item} (h : List.Forall₂ (Linked file) index items) :
    items.map Prod.fst = index.map Prod.fst := by
  induction h with
  | nil => rfl
  | cons hfirst _ ih => rw [map_cons, map_cons, ih, hfirst.term]

namespace Written

variable {blake2b : Bytes → Bytes} {header : Bytes} {pageSize count : Nat}
  {postings : PostingsFile} {dictionary : TermDictionary} {index : List (String × List Posting)}
  {items : List Item} {e : String × List Posting}

theorem fst_eq (h : Written blake2b header pageSize count postings dictionary index items) :
    items.map Prod.fst = index.map Prod.fst := by
  exact fst_eq_of_linked h.linked

theorem step (h : Written blake2b header pageSize count postings dictionary index items)
    (hheader : header.length = PostingsFile.HEADER.size)
    (hpage : Short pageSize (BUCKET_HEADER_SIZE + termBytes ((index ++ [e]).map Prod.fst)))
    (he : Listed pageSize count e) (hnew : e.1 ∉ index.map Prod.fst)
    (hcount : count < 2 ^ 32) (hterms : index.length < 2 ^ 27)
    (hfit : TermsFit blake2b pageSize (index.map Prod.fst)) :
    ∃ postings' offset length, postings.append e.2 = .ok (postings', offset, length) ∧
      (TermsFit blake2b pageSize ((index ++ [e]).map Prod.fst) →
        ∃ dictionary' item,
          dictionary.add blake2b e.1 ⟨e.2.length, offset, length⟩ = .ok dictionary' ∧
          Written blake2b header pageSize count postings' dictionary' (index ++ [e])
            (items ++ [item])) ∧
      (¬ TermsFit blake2b pageSize ((index ++ [e]).map Prod.fst) →
        dictionary.add blake2b e.1 ⟨e.2.length, offset, length⟩ =
          .error ExtendibleHash.directoryError) := by
  have hkeys := h.fst_eq
  have hlength : items.length = index.length := h.linked.length_eq.symm
  obtain ⟨file, writable⟩ := postings
  obtain rfl : writable = true := h.writable
  obtain ⟨more, hfile⟩ := h.file
  dsimp only at hfile
  have hheaderSize : PostingsFile.HEADER.size = 8 := rfl
  have hbehind : PostingsFile.HEADER.size ≤ file.length := by
    rw [hfile, length_append]
    omega
  obtain ⟨data, happend, hdata, hstands⟩ := PostingsFile.append_ok he.valid hbehind
  have hlist : PostingsFile.COUNT.size + e.2.length * PostingsFile.PAIR.size =
      8 + e.2.length * 16 := rfl
  have hposition : file.length < 2 ^ 64 := by
    have hsize : file.length ≤ header.length + index.length * (8 + 16 * count) := h.size
    have hproduct : index.length * (8 + 16 * count) ≤ 2 ^ 27 * (8 + 16 * 2 ^ 32) :=
      Nat.mul_le_mul hterms.le (by omega)
    omega
  have hpostings := he.count
  have hgood : Good dictionary.pageSize (e.1, ⟨e.2.length, file.length,
      PostingsFile.COUNT.size + e.2.length * PostingsFile.PAIR.size⟩) := by
    have hsize := he.size
    have hshort := length_lt_of_short hpage
      (mem_map_of_mem (mem_append_right index (mem_singleton_self e))) hsize
    refine ⟨he.term, by rw [h.pageSize]; exact hsize, ?_, ?_, hbehind, hlist, ?_, hposition, ?_⟩
    · dsimp only
      omega
    · exact fun hzero => he.nonempty (length_eq_zero_iff.mp hzero)
    · dsimp only
      omega
    · dsimp only
      omega
  have houtcome := h.holds.add_outcome h.adds hgood (by rw [hkeys]; exact hnew)
    (by rw [h.pageSize, hkeys, ← map_singleton, ← map_append]; exact hpage)
    (by rw [hlength]; exact hterms)
    (by rw [h.pageSize, hkeys]; exact hfit)
  rw [h.pageSize, hkeys] at houtcome
  refine ⟨_, _, _, happend, ?_, ?_⟩
  · intro hroom
    rw [map_append, map_singleton] at hroom
    obtain ⟨dictionary', hadd, hadds, hpage', hholds⟩ := houtcome.1 hroom
    refine ⟨dictionary', _, hadd, ⟨more ++ data, ?_⟩, rfl, ?_, hadds, hpage', hholds, ?_⟩
    · dsimp only
      rw [hfile, append_assoc]
    · have hsize : file.length ≤ header.length + index.length * (8 + 16 * count) := h.size
      dsimp only
      rw [length_append, length_append, length_singleton, Nat.succ_mul, hdata]
      omega
    · refine rel_append ?_ ?_
      · exact h.linked.imp (fun _ _ hlink => ⟨hlink.term, hlink.df, hlink.length,
          hlink.stands.append data⟩)
      · exact List.Forall₂.cons ⟨rfl, rfl, rfl, hstands⟩ List.Forall₂.nil
  · intro hfull
    rw [map_append, map_singleton] at hfull
    exact houtcome.2 hfull

theorem termBytes_le (index rest : List (String × List Posting)) :
    termBytes (index.map Prod.fst) ≤ termBytes ((index ++ rest).map Prod.fst) := by
  rw [map_append, termBytes_append]
  exact Nat.le_add_right _ _

theorem write_terms_outcome (hheader : header.length = PostingsFile.HEADER.size)
    (hcount : count < 2 ^ 32) :
    ∀ {rest index : List (String × List Posting)} {items : List Item}
      {postings : PostingsFile} {dictionary : TermDictionary},
      Written blake2b header pageSize count postings dictionary index items →
      (∀ e ∈ rest, Listed pageSize count e) → ((index ++ rest).map Prod.fst).Nodup →
      (index ++ rest).length ≤ 2 ^ 27 →
      Short pageSize (BUCKET_HEADER_SIZE + termBytes ((index ++ rest).map Prod.fst)) →
      TermsFit blake2b pageSize (index.map Prod.fst) →
      (TermsFit blake2b pageSize ((index ++ rest).map Prod.fst) →
        ∃ postings' dictionary' items',
          writeTerms blake2b postings dictionary rest = .ok (postings', dictionary') ∧
          Written blake2b header pageSize count postings' dictionary' (index ++ rest) items') ∧
      (¬ TermsFit blake2b pageSize ((index ++ rest).map Prod.fst) →
        writeTerms blake2b postings dictionary rest = .error ExtendibleHash.directoryError)
  | [], index, items, postings, dictionary, h, _, _, _, _, hfit => by
      rw [append_nil]
      exact ⟨fun _ => ⟨postings, dictionary, items, rfl, h⟩, fun hfull => absurd hfit hfull⟩
  | e :: rest, index, items, postings, dictionary, h, hlisted, hnodup, hterms, hpage, hfit => by
      have hassoc : index ++ e :: rest = index ++ [e] ++ rest := by
        rw [append_assoc, singleton_append]
      have hnew : e.1 ∉ index.map Prod.fst := by
        rw [map_append, map_cons] at hnodup
        exact fun hmem => (nodup_append.mp hnodup).2.2 e.1 hmem e.1 mem_cons_self rfl
      have hroom : index.length < 2 ^ 27 := by
        rw [length_append, length_cons] at hterms
        omega
      obtain ⟨term, entries⟩ := e
      rw [hassoc] at hpage
      have hnext := hpage.mono (Nat.add_le_add_left
        (termBytes_le (index ++ [(term, entries)]) rest) _)
      obtain ⟨postings', offset, length, happend, hadded, hrefused⟩ :=
        h.step hheader hnext (hlisted _ mem_cons_self) hnew hcount hroom hfit
      dsimp only at happend hadded hrefused
      rw [writeTerms, happend, ok_bind]
      dsimp only
      rw [hassoc] at hnodup hterms ⊢
      by_cases hfit' : TermsFit blake2b pageSize ((index ++ [(term, entries)]).map Prod.fst)
      · obtain ⟨dictionary', item, hadd, hwritten⟩ := hadded hfit'
        rw [hadd, ok_bind]
        exact write_terms_outcome hheader hcount hwritten
          (fun e he => hlisted e (mem_cons_of_mem _ he)) hnodup hterms hpage hfit'
      · rw [hrefused hfit']
        refine ⟨fun hall => absurd ?_ hfit', fun _ => rfl⟩
        rw [map_append] at hall
        exact hall.of_append

end Written

variable {pageSize : Nat}

/-- New files hold no terms. -/
theorem written_nil (blake2b : Bytes → Bytes) (count : Nat) (hpage : 128 ≤ pageSize) :
    ∃ header dictionary, PostingsFile.create = .ok ⟨header, true⟩ ∧
      TermDictionary.create pageSize = .ok dictionary ∧
      header.length = PostingsFile.HEADER.size ∧
      (∀ more, PostingsFile.load (header ++ more) = .ok ⟨header ++ more, false⟩) ∧
      Written blake2b header pageSize count ⟨header, true⟩ dictionary [] [] := by
  obtain ⟨header, hcreate, hlength, hload⟩ := PostingsFile.create_ok
  obtain ⟨dictionary, hdictionary, hadds, hsize, hholds⟩ :=
    TermDictionary.create_ok blake2b hpage
  refine ⟨header, dictionary, hcreate, hdictionary, hlength, hload, ⟨[], ?_⟩, rfl, ?_, hadds, hsize,
    hholds, List.Forall₂.nil⟩
  · dsimp only
    rw [append_nil]
  · exact Nat.le_add_right _ _

theorem termsFit_nil (blake2b : Bytes → Bytes) (hpage : 128 ≤ pageSize) :
    TermsFit blake2b pageSize [] := by
  intro depth _ r hfull
  have hzero : TermDictionary.classBytes blake2b [] depth r = 0 := rfl
  have hheader : HashPage.BUCKET_HEADER_SIZE ≤ 128 := by decide
  omega

/-- The terms of the documents can be written with their postings. -/
theorem listed_reference_index (hempty : ∀ terms ∈ docs, "" ∉ terms)
    (hsize : ∀ term ∈ vocabulary docs, (encodeUtf8 term).length + 18 ≤ pageSize)
    (hdocs : docs.length < 2 ^ 32) (hlengths : ∀ terms ∈ docs, terms.length < 2 ^ 64) :
    ∀ e ∈ referenceIndex docs, Listed pageSize docs.length e := by
  intro e he
  obtain ⟨term, hterm, rfl⟩ := mem_map.mp he
  refine ⟨?_, hsize term hterm, valid_postings_of (hdocs.trans (by decide)) hlengths term,
    postings_of_ne_nil hterm, length_postings_of_le docs term⟩
  rintro rfl
  obtain ⟨terms, hterms, hmem⟩ := mem_vocabulary.mp hterm
  exact hempty terms hterms hmem

end DurableStore
end SoupDB
