import SoupDB.Plugins.Spimi
import Mathlib.Algebra.BigOperators.Group.List.Lemmas

/-!
# SoupDB: the merged blocks are the inverted index

`Spilled` is the invariant of the construction: the postings of the written runs and of the
block are those of the documents read so far, and every run ascends.  The merge of the runs
is then the one ascending list of all postings, whatever the runs were, and its groups are
the reference index.

Main fact: `merged_terms_of_spimi_runs`.
-/

namespace SoupDB.Spimi

open OrderedDict ExternalSort List

open RecordFile (Record Sized frames readRecords writeRecord)
open KeyCodec (encodeUtf8 decodeUtf8 decodeUtf8_encodeUtf8 length_le_encodeUtf8)

/-! ## Records -/

/-- The record of a posting whose numbers can be written. -/
def recordOf (p : Triple) : Record :=
  encodeUtf8 (Json.dumpArray [.str p.1, .int p.2.1, .int p.2.2])

/-- The posting can be written to a run: its term is a term, its numbers are not too long and
its record fits. -/
structure Writable (p : Triple) : Prop where
  term : p.1 ≠ ""
  frequency : 0 < p.2.2
  encodes : encodePosting p = .ok (recordOf p)
  sized : Sized (recordOf p)

variable {p : Triple} {postings : List Triple} {runs : List (List Triple)}
    {docs : List (List String)}

theorem encode_posting_eq {record : Record} (h : encodePosting p = .ok record) :
    tooLong p.2.1 = false ∧ tooLong p.2.2 = false ∧ record = recordOf p := by
  rw [encodePosting] at h
  split at h
  · cases h
  · next hlong =>
      rw [Bool.not_eq_true, Bool.or_eq_false_iff] at hlong
      exact ⟨hlong.1, hlong.2, (Except.ok.inj h).symm⟩

theorem decode_record_of (h : Writable p) : decodePosting (recordOf p) = .ok p := by
  obtain ⟨hdoc, htf, -⟩ := encode_posting_eq h.encodes
  rw [decodePosting, recordOf, decodeUtf8_encodeUtf8]
  dsimp only
  rw [Json.loadArray_dumpArray]
  dsimp only
  have hterm : ¬ (p.1 = "" ∨ (p.2.1 : Int) < 0) := by
    rintro (hterm | hneg)
    · exact h.term hterm
    · omega
  have hpos := h.frequency
  rw [Int.natAbs_natCast, hdoc, if_neg Bool.false_ne_true, if_neg hterm, Int.natAbs_natCast, htf,
    if_neg Bool.false_ne_true, if_neg (by omega)]
  rfl

/-! ## The order of postings -/

/-- A term and a document. -/
def key (p : Triple) : String ×ₗ Nat := toLex (p.1, p.2.1)

theorem before_iff {a b : Triple} : Before a b ↔ key a < key b := by
  rw [key, key, Prod.Lex.toLex_lt_toLex]
  exact Iff.rfl

theorem compare_record_of {a b : Triple} (ha : Writable a) (hb : Writable b) :
    comparePostings (recordOf a) (recordOf b) =
      .ok ((if Before b a then 1 else 0) - (if Before a b then 1 else 0)) := by
  rw [comparePostings, decode_record_of ha, ok_bind, decode_record_of hb, ok_bind]

theorem leBy_record_of {a b : Triple} (ha : Writable a) (hb : Writable b) :
    leBy comparePostings (recordOf a) (recordOf b) = true ↔ key a ≤ key b := by
  have hkey : key a ≤ key b ↔ ¬ Before b a := by
    rw [before_iff, not_lt]
  rw [leBy, compare_record_of ha hb, decide_eq_true_iff, hkey]
  by_cases hba : Before b a
  · have hab : ¬ Before a b := by
      rw [before_iff] at hba ⊢
      exact hba.asymm
    rw [if_pos hba, if_neg hab]
    exact iff_of_false (by decide) (fun h => h hba)
  · rw [if_neg hba]
    refine iff_of_true ?_ hba
    split
    · decide
    · decide

/-- The records of runs. -/
def IsPosting (record : Record) : Prop := ∃ p, Writable p ∧ record = recordOf p

theorem total_preorder : TotalPreorder comparePostings IsPosting where
  compared := by
    rintro _ _ ⟨a, ha, rfl⟩ ⟨b, hb, rfl⟩
    refine ⟨_, _, compare_record_of ha hb, compare_record_of hb ha, ?_⟩
    by_cases hab : Before a b
    · by_cases hba : Before b a
      · rw [before_iff] at hab hba
        exact absurd hab hba.asymm
      · rw [if_pos hab, if_neg hba]
        decide
    · by_cases hba : Before b a
      · rw [if_neg hab, if_pos hba]
        decide
      · rw [if_neg hab, if_neg hba]
        decide
  trans := by
    rintro _ _ _ ⟨a, ha, rfl⟩ ⟨b, hb, rfl⟩ ⟨c, hc, rfl⟩ hab hbc
    rw [leBy_record_of ha hb] at hab
    rw [leBy_record_of hb hc] at hbc
    rw [leBy_record_of ha hc]
    exact hab.trans hbc

theorem write_checked_run_ok :
    ∀ {postings : List Triple} {previous : Option Triple}, (∀ p ∈ postings, Writable p) →
      (∀ q, previous = some q → Writable q ∧ ∀ p ∈ postings, key q < key p) →
      postings.Pairwise (fun a b => key a < key b) →
      writeCheckedRun comparePostings (previous.map recordOf)
        (postings.map encodePosting) = .ok (frames (postings.map recordOf))
  | [], _, _, _, _ => rfl
  | p :: postings, previous, hwritable, hprevious, hsorted => by
      have hp := hwritable p mem_cons_self
      obtain ⟨hhead, htail⟩ := pairwise_cons.mp hsorted
      have hrest : writeCheckedRun comparePostings (some (recordOf p))
          (postings.map encodePosting) = .ok (frames (postings.map recordOf)) := by
        have hbefore : ∀ q, some p = some q → Writable q ∧ ∀ p' ∈ postings, key q < key p' := by
          intro q hq
          obtain rfl := Option.some.inj hq
          exact ⟨hp, hhead⟩
        exact write_checked_run_ok (fun q hq => hwritable q (mem_cons_of_mem p hq)) hbefore
          htail
      have hbytes : writeRecord "external-sort run" (recordOf p) =
          .ok (frames [recordOf p]) := RecordFile.write_record_ok hp.sized
      rw [map_cons, map_cons, writeCheckedRun, hp.encodes, ok_bind]
      cases previous with
      | none =>
          rw [Option.map_none]
          dsimp only
          rw [ok_bind, if_neg Bool.false_ne_true, hbytes, ok_bind, hrest, ok_bind,
            ← RecordFile.frames_append]
          rfl
      | some q =>
          obtain ⟨hq, hbefore⟩ := hprevious q rfl
          have hlt : Before q p := before_iff.mpr (hbefore p mem_cons_self)
          have hnot : ¬ Before p q := fun h => (before_iff.mp hlt).asymm (before_iff.mp h)
          rw [Option.map_some]
          dsimp only
          rw [compare_record_of hq hp, ok_bind, if_neg hnot, if_pos hlt, ok_bind,
            if_neg (by decide), hbytes, ok_bind, hrest, ok_bind, ← RecordFile.frames_append]
          rfl

/-! ## Blocks -/

def blockPostings (block : Block) : List Triple :=
  block.entries.flatMap (fun e => e.2.entries.map (fun p => (e.1, p)))

theorem mem_block_postings {block : Block} {term : String} {docId tf : Nat} :
    (term, docId, tf) ∈ blockPostings block ↔
      ∃ postings, block.get? term = some postings ∧ postings.get? docId = some tf := by
  rw [blockPostings, mem_flatMap]
  constructor
  · rintro ⟨⟨term', postings⟩, he, hp⟩
    obtain ⟨p, hp, heq⟩ := mem_map.mp hp
    obtain ⟨rfl, rfl⟩ := Prod.mk.inj heq
    exact ⟨postings, get?_of_mem he, get?_of_mem hp⟩
  · rintro ⟨postings, hpostings, htf⟩
    exact ⟨(term, postings), mem_of_get? hpostings,
      mem_map.mpr ⟨(docId, tf), mem_of_get? htf, rfl⟩⟩

theorem nodup_block_postings (block : Block) : ((blockPostings block).map key).Nodup := by
  rw [blockPostings, map_flatMap]
  refine nodup_flatMap.mpr ⟨fun e he => ?_, ?_⟩
  · rw [map_map]
    have hinj : (key ∘ fun p : Nat × Nat => (e.1, p)) = (fun d => toLex (e.1, d)) ∘ Prod.fst := rfl
    rw [hinj, ← map_map]
    refine e.2.nodup.map (fun d d' h => ?_)
    exact (Prod.mk.inj (toLex.injective h)).2
  · have hnodup := pairwise_map.mp block.nodup
    refine hnodup.imp (fun {e e'} hne => ?_)
    intro k hk hk'
    obtain ⟨p, hp, rfl⟩ := mem_map.mp hk
    obtain ⟨p', hp', heq⟩ := mem_map.mp hk'
    obtain ⟨q, -, rfl⟩ := mem_map.mp hp
    obtain ⟨q', -, rfl⟩ := mem_map.mp hp'
    exact hne (Prod.mk.inj (toLex.injective heq)).1.symm

theorem sorted_postings_perm (block : Block) :
    (sortedPostings block).Perm (blockPostings block) := by
  have hterms := (perm_insertionSort
    (fun a b : String × OrderedDict Nat Nat => a.1 ≤ b.1) block.entries).flatMap_right
      (fun e => e.2.entries.map (fun p => (e.1, p)))
  refine List.Perm.trans ?_ hterms
  exact List.Perm.flatMap_left _ (fun e _ => (perm_insertionSort _ _).map _)

theorem sorted_postings_pairwise (block : Block) :
    (sortedPostings block).Pairwise (fun a b => key a < key b) := by
  have hperm : ((sortedPostings block).map key).Nodup :=
    ((sorted_postings_perm block).map key).nodup_iff.mpr (nodup_block_postings block)
  have hle : (sortedPostings block).Pairwise (fun a b => key a ≤ key b) := by
    rw [sortedPostings]
    refine pairwise_flatMap.mpr ⟨fun e _ => ?_, ?_⟩
    · refine pairwise_map.mpr ?_
      have hsorted := pairwise_insertionSort (fun a b : Nat × Nat => a.1 ≤ b.1) e.2.entries
      refine hsorted.imp (fun {a b} hab => ?_)
      exact Prod.Lex.toLex_le_toLex.mpr (Or.inr ⟨rfl, hab⟩)
    · have hsorted := pairwise_insertionSort
        (fun a b : String × OrderedDict Nat Nat => a.1 ≤ b.1) block.entries
      have hnodup : ((block.entries.insertionSort (fun a b => a.1 ≤ b.1)).map Prod.fst).Nodup :=
        ((perm_insertionSort _ _).map Prod.fst).nodup_iff.mpr block.nodup
      refine (hsorted.and (pairwise_map.mp hnodup)).imp (fun {e e'} hee' => ?_)
      intro p hp p' hp'
      obtain ⟨q, -, rfl⟩ := mem_map.mp hp
      obtain ⟨q', -, rfl⟩ := mem_map.mp hp'
      exact Prod.Lex.toLex_le_toLex.mpr (Or.inl (lt_of_le_of_ne hee'.1 hee'.2))
  exact (hle.and (pairwise_map.mp hperm)).imp (fun h => lt_of_le_of_ne h.1 h.2)

/-- A posting of a new pair is added to those of the block. -/
theorem block_postings_put {block : Block} (hnew : ∀ q ∈ blockPostings block, key q ≠ key p) :
    (blockPostings (put block p)).Perm (blockPostings block ++ [p]) := by
  obtain ⟨term, docId, tf⟩ := p
  have hkeys : ((blockPostings block ++ [(term, docId, tf)]).map key).Nodup := by
    rw [map_append]
    refine nodup_append.mpr ⟨nodup_block_postings block, nodup_singleton _, ?_⟩
    intro k hk k' hk'
    obtain ⟨q, hq, rfl⟩ := mem_map.mp hk
    rw [mem_singleton.mp hk']
    exact hnew q hq
  refine (perm_ext_iff_of_nodup (List.Nodup.of_map key (nodup_block_postings _))
    (List.Nodup.of_map key hkeys)).mpr ?_
  rintro ⟨term', docId', tf'⟩
  have hfresh : ∀ postings, block.get? term = some postings → postings.get? docId = none := by
    intro postings hpostings
    cases hget : postings.get? docId with
    | none => rfl
    | some old =>
        exact absurd rfl (hnew (term, docId, old) (mem_block_postings.mpr
          ⟨postings, hpostings, hget⟩))
  rw [mem_append, mem_singleton, mem_block_postings, mem_block_postings, put]
  dsimp only
  rw [get?_set]
  by_cases hterm : term' = term
  · subst hterm
    rw [if_pos rfl]
    simp only [Option.some.injEq, exists_eq_left', get?_set, Prod.mk.injEq, true_and]
    by_cases hdoc : docId' = docId
    · subst hdoc
      rw [if_pos rfl]
      constructor
      · exact fun h => Or.inr ⟨rfl, (Option.some.inj h).symm⟩
      · rintro (⟨postings, hpostings, hget⟩ | ⟨-, rfl⟩)
        · rw [hfresh postings hpostings] at hget
          cases hget
        · rfl
    · rw [if_neg hdoc]
      cases hblock : block.get? term' with
      | none => simp [hdoc, get?_empty]
      | some postings => simp [hdoc]
  · rw [if_neg hterm]
    simp [hterm]

/-! ## The construction -/

/-- The runs ascend, and with the block they hold the postings. -/
structure Spilled (s : Spill) (postings : List Triple) (runs : List (List Triple)) : Prop where
  files : s.runs = runs.map (fun run => frames (run.map recordOf))
  ascending : ∀ run ∈ runs, run.Pairwise (fun a b => key a < key b)
  perm : (runs.flatten ++ blockPostings s.block).Perm postings

theorem Spilled.block_subset {s : Spill} (h : Spilled s postings runs) :
    ∀ p ∈ blockPostings s.block, p ∈ postings :=
  fun _ hp => h.perm.mem_iff.mp (mem_append_right _ hp)

theorem flush_spec {s : Spill} (h : Spilled s postings runs)
    (hwritable : ∀ p ∈ postings, Writable p) :
    ∃ s' runs', flush s = .ok s' ∧ Spilled s' postings runs' ∧ s'.block.entries = [] := by
  rw [flush]
  by_cases hempty : s.block.entries = []
  · rw [if_pos hempty]
    exact ⟨s, runs, rfl, h, hempty⟩
  · have hsorted := sorted_postings_perm s.block
    have hwrite : writeCheckedRun comparePostings none
        ((sortedPostings s.block).map encodePosting) =
          .ok (frames ((sortedPostings s.block).map recordOf)) := by
      have hnone : ∀ q : Triple, (none : Option Triple) = some q →
          Writable q ∧ ∀ p ∈ sortedPostings s.block, key q < key p := by
        rintro q ⟨⟩
      exact write_checked_run_ok
        (fun p hp => hwritable p (h.block_subset p (hsorted.mem_iff.mp hp))) hnone
        (sorted_postings_pairwise s.block)
    rw [if_neg hempty, hwrite, ok_bind]
    refine ⟨_, runs ++ [sortedPostings s.block], rfl, ⟨?_, ?_, ?_⟩, rfl⟩
    · rw [map_append, h.files]
      rfl
    · intro run hrun
      rcases mem_append.mp hrun with hrun | hrun
      · exact h.ascending run hrun
      · rw [mem_singleton.mp hrun]
        exact sorted_postings_pairwise s.block
    · have hflat : (runs ++ [sortedPostings s.block]).flatten ++
          blockPostings empty = runs.flatten ++ sortedPostings s.block := by
        rw [flatten_append, flatten_singleton]
        exact append_nil _
      rw [hflat]
      exact (hsorted.append_left _).trans h.perm

theorem add_posting_spec {limit : Nat} {s : Spill} {p : Triple} {postings : List Triple}
    {runs : List (List Triple)} (h : Spilled s postings runs)
    (hwritable : ∀ q ∈ postings ++ [p], Writable q) (hnew : ∀ q ∈ postings, key q ≠ key p) :
    ∃ s' runs', addPosting limit s p = .ok s' ∧ Spilled s' (postings ++ [p]) runs' := by
  have hbefore : ∀ q ∈ postings, Writable q :=
    fun q hq => hwritable q (mem_append_left _ hq)
  -- the block is flushed first where the posting would not fit
  have hfirst : ∀ full : Bool, ∃ s₁ runs₁,
      (if full = true then flush s else .ok s) = .ok s₁ ∧ Spilled s₁ postings runs₁ := by
    intro full
    cases full with
    | true =>
        obtain ⟨s₁, runs₁, hflush, hspilled, -⟩ := flush_spec h hbefore
        exact ⟨s₁, runs₁, by rw [if_pos rfl, hflush], hspilled⟩
    | false => exact ⟨s, runs, by rw [if_neg Bool.false_ne_true], h⟩
  rw [addPosting]
  dsimp only
  obtain ⟨s₁, runs₁, hs₁, hspilled₁⟩ := hfirst
    (s.block.entries ≠ [] && limit < s.usedBytes +
      (96 + if s.block.contains p.1 = true then 0 else (encodeUtf8 p.1).length + 64))
  rw [hs₁, ok_bind]
  generalize (if (s.block.entries ≠ [] && decide (limit < s.usedBytes +
      (96 + if s.block.contains p.1 = true then 0 else (encodeUtf8 p.1).length + 64))) = true then
    160 + (encodeUtf8 p.1).length else
      96 + if s.block.contains p.1 = true then 0 else (encodeUtf8 p.1).length + 64) = cost
  have hput : Spilled ⟨s₁.runs, put s₁.block p, s₁.usedBytes + cost⟩ (postings ++ [p]) runs₁ := by
    refine ⟨hspilled₁.files, hspilled₁.ascending, ?_⟩
    have hadded := block_postings_put (fun q hq => hnew q (hspilled₁.block_subset q hq))
    have hperm := (hadded.append_left runs₁.flatten).trans (List.Perm.of_eq
      (append_assoc _ _ _).symm)
    exact hperm.trans (hspilled₁.perm.append_right [p])
  split
  · obtain ⟨s', runs', hflush, hspilled, -⟩ := flush_spec hput hwritable
    exact ⟨s', runs', hflush, hspilled⟩
  · exact ⟨_, runs₁, rfl, hput⟩

theorem add_postings_spec {limit : Nat} :
    ∀ {new postings : List Triple} {s : Spill} {runs : List (List Triple)},
      Spilled s postings runs → (∀ q ∈ postings ++ new, Writable q) →
      ((postings ++ new).map key).Nodup →
      ∃ s' runs', new.foldlM (addPosting limit) s = .ok s' ∧
        Spilled s' (postings ++ new) runs'
  | [], postings, s, runs, h, _, _ => ⟨s, runs, rfl, by rwa [append_nil]⟩
  | p :: new, postings, s, runs, h, hwritable, hnodup => by
      have happend : postings ++ p :: new = postings ++ [p] ++ new := by
        rw [append_assoc]
        rfl
      rw [happend] at hwritable hnodup
      have hnew : ∀ q ∈ postings, key q ≠ key p := by
        intro q hq
        rw [map_append, map_append] at hnodup
        have hpair := (nodup_append.mp (nodup_append.mp hnodup).1).2.2
        exact hpair (key q) (mem_map_of_mem hq) (key p) (by simp)
      obtain ⟨s₁, runs₁, hadd, hspilled⟩ :=
        @add_posting_spec limit s p postings runs h
          (fun q hq => hwritable q (mem_append_left _ hq)) hnew
      obtain ⟨s', runs', hrest, hspilled'⟩ := add_postings_spec hspilled hwritable hnodup
      refine ⟨s', runs', ?_, ?_⟩
      · rw [foldlM_cons, hadd, ok_bind, hrest]
      · rw [happend]
        exact hspilled'

/-- The postings of documents that are counted from a number on. -/
def postingsOfDocs : Nat → List (List String) → List Triple
  | _, [] => []
  | docId, terms :: docs =>
      (counter terms).map (fun e => (e.1, docId, e.2)) ++ postingsOfDocs (docId + 1) docs

theorem mem_postings_of_docs {term : String} {first docId tf : Nat} :
    (term, docId, tf) ∈ postingsOfDocs first docs ↔
      (docId, tf) ∈ postingsFrom term first docs := by
  induction docs generalizing first with
  | nil => exact iff_of_false not_mem_nil not_mem_nil
  | cons terms docs ih =>
      have hcounter : (term, docId, tf) ∈ (counter terms).map (fun e => (e.1, first, e.2)) ↔
          term ∈ terms ∧ docId = first ∧ tf = terms.count term := by
        rw [counter, map_map, mem_map]
        constructor
        · rintro ⟨term', hterm, heq⟩
          obtain ⟨heq, hrest⟩ := Prod.mk.inj heq
          have hname : term' = term := heq
          subst hname
          obtain ⟨hdoc, htf⟩ := Prod.mk.inj hrest
          exact ⟨mem_eraseDups.mp hterm, hdoc.symm, htf.symm⟩
        · rintro ⟨hterm, rfl, rfl⟩
          exact ⟨term, mem_eraseDups.mpr hterm, rfl⟩
      rw [postingsOfDocs, mem_append, hcounter, ih, postingsFrom]
      by_cases hterm : term ∈ terms
      · rw [if_pos hterm, mem_cons, Prod.mk.injEq]
        exact or_congr_left (and_iff_right hterm)
      · rw [if_neg hterm]
        exact or_iff_right (fun h => hterm h.1)

theorem le_of_mem_postings_of_docs {first : Nat} (h : p ∈ postingsOfDocs first docs) :
    first ≤ p.2.1 := by
  obtain ⟨term, docId, tf⟩ := p
  exact (mem_postings_from.mp (mem_postings_of_docs.mp h)).1

theorem nodup_postings_of_docs (first : Nat) (docs : List (List String)) :
    ((postingsOfDocs first docs).map key).Nodup := by
  induction docs generalizing first with
  | nil => exact nodup_nil
  | cons terms docs ih =>
      rw [postingsOfDocs, map_append]
      refine nodup_append.mpr ⟨?_, ih (first + 1), ?_⟩
      · rw [counter, map_map, map_map]
        refine (nodup_eraseDups terms).map (fun term term' h => ?_)
        exact (Prod.mk.inj (toLex.injective h)).1
      · intro k hk k' hk' heq
        obtain ⟨p, hp, rfl⟩ := mem_map.mp hk
        obtain ⟨p', hp', rfl⟩ := mem_map.mp hk'
        obtain ⟨e, -, rfl⟩ := mem_map.mp hp
        have hle := le_of_mem_postings_of_docs hp'
        have hdoc := (Prod.mk.inj (toLex.injective heq)).2
        dsimp only at hdoc
        omega

theorem sum_counter (terms : List String) : ((counter terms).map Prod.snd).sum = terms.length := by
  have hperm : terms.eraseDups.Perm terms.dedup := by
    refine (perm_ext_iff_of_nodup (nodup_eraseDups terms) (nodup_dedup terms)).mpr ?_
    intro term
    rw [mem_eraseDups, mem_dedup]
  have hcounts : (counter terms).map Prod.snd =
      terms.eraseDups.map (fun term => terms.count term) := by
    rw [counter, map_map]
    rfl
  rw [hcounts, (hperm.map _).sum_eq]
  exact sum_map_count_dedup_eq_length terms

theorem add_documents_spec {tokenizer : String → List String} {limit : Nat} :
    ∀ {items : List (String × RID)} {b : Progress} {postings : List Triple}
      {runs : List (List Triple)}, Spilled b.spill postings runs →
      (∀ p ∈ postings ++ postingsOfDocs b.rids.length (items.map (fun i => tokenizer i.1)),
        Writable p) →
      ((postings ++ postingsOfDocs b.rids.length
        (items.map (fun i => tokenizer i.1))).map key).Nodup →
      (∀ i ∈ items, 0 ≤ i.2.pageId ∧ 0 ≤ i.2.slot) →
      (b.rids ++ items.map Prod.snd).Nodup →
      ∃ spill runs', items.foldlM (addDocument tokenizer limit) b =
          .ok ⟨spill, b.lengths ++ items.map (fun i => (tokenizer i.1).length),
            b.rids ++ items.map Prod.snd⟩ ∧
        Spilled spill (postings ++ postingsOfDocs b.rids.length
          (items.map (fun i => tokenizer i.1))) runs'
  | [], b, postings, runs, h, _, _, _, _ => by
      refine ⟨b.spill, runs, ?_, ?_⟩
      · rw [foldlM_nil, map_nil, map_nil, append_nil, append_nil]
        rfl
      · rw [map_nil, postingsOfDocs, append_nil]
        exact h
  | item :: items, b, postings, runs, h, hwritable, hkeys, hvalid, hdistinct => by
      rw [map_cons, postingsOfDocs, ← append_assoc] at hwritable hkeys
      have hrid := hvalid item mem_cons_self
      have hnew : item.2 ∉ b.rids := by
        intro hmem
        exact (nodup_append.mp hdistinct).2.2 item.2 hmem item.2 (by simp) rfl
      have hkeys' : ((postings ++ (counter (tokenizer item.1)).map
          (fun e => (e.1, b.rids.length, e.2))).map key).Nodup := by
        rw [map_append] at hkeys
        exact (nodup_append.mp hkeys).1
      obtain ⟨spill, runs₁, hadd, hspilled⟩ := @add_postings_spec limit _ postings _ _ h
        (fun q hq => hwritable q (mem_append_left _ hq)) hkeys'
      have hdocument : addDocument tokenizer limit b item = .ok ⟨spill,
          b.lengths ++ [(tokenizer item.1).length], b.rids ++ [item.2]⟩ := by
        rw [addDocument, if_neg (by omega), if_neg hnew]
        dsimp only
        rw [hadd, ok_bind, sum_counter]
      have hlength : (b.rids ++ [item.2]).length = b.rids.length + 1 := by simp
      have hdistinct' : (b.rids ++ [item.2] ++ items.map Prod.snd).Nodup := by
        rwa [append_assoc]
      rw [← hlength] at hwritable hkeys
      obtain ⟨spill', runs', hrest, hspilled'⟩ :=
        @add_documents_spec tokenizer limit items
          ⟨spill, b.lengths ++ [(tokenizer item.1).length], b.rids ++ [item.2]⟩ _ _ hspilled
          hwritable hkeys (fun i hi => hvalid i (mem_cons_of_mem item hi)) hdistinct'
      refine ⟨spill', runs', ?_, ?_⟩
      · rw [foldlM_cons, hdocument, ok_bind, hrest]
        simp only [map_cons, append_assoc, cons_append, nil_append]
      · rw [map_cons, postingsOfDocs, ← append_assoc]
        dsimp only at hspilled'
        rw [hlength] at hspilled'
        exact hspilled'

/-! ## Groups -/

/-- The postings of an index, term by term. -/
def triples (index : List (String × List Posting)) : List Triple :=
  index.flatMap (fun e => e.2.map (fun p => (e.1, p)))

theorem groupby_triples :
    ∀ {index : List (String × List Posting)}, (index.map Prod.fst).Pairwise (· < ·) →
      (∀ e ∈ index, e.2 ≠ []) → groupby (triples index) = index
  | [], _, _ => rfl
  | (term, postings) :: index, hterms, hne => by
      have hrest := groupby_triples (pairwise_cons.mp hterms).2
        (fun e he => hne e (mem_cons_of_mem _ he))
      have hsome : ∀ (p : Posting) (postings : List Posting),
          groupby ((p :: postings).map (fun p => (term, p)) ++ triples index) =
            (term, p :: postings) :: index := by
        intro p postings
        induction postings generalizing p with
        | nil =>
            rw [map_cons, map_nil, cons_append, nil_append, groupby, hrest]
            cases index with
            | nil => rfl
            | cons e index =>
                have hlt : term < e.1 := (pairwise_cons.mp hterms).1 e.1 (by simp)
                dsimp only
                rw [if_neg hlt.ne]
        | cons p' postings ih =>
            rw [map_cons, cons_append, groupby, ih p']
            dsimp only
            rw [if_pos rfl]
      cases hpostings : postings with
      | nil => exact absurd hpostings (hne (term, postings) mem_cons_self)
      | cons p postings' => exact hsome p postings'

theorem foldl_combine :
    ∀ {postings before : List Posting},
      ((before ++ postings).map Prod.fst).Pairwise (· < ·) →
        postings.foldl combine before = before ++ postings
  | [], before, _ => by rw [foldl_nil, append_nil]
  | p :: postings, before, h => by
      have happend : before ++ p :: postings = before ++ [p] ++ postings := by
        rw [append_assoc]
        rfl
      have hcombine : combine before p = before ++ [p] := by
        rw [combine]
        cases hlast : before.getLast? with
        | none =>
            rw [getLast?_eq_none_iff.mp hlast]
            rfl
        | some last =>
            have hmem : last ∈ before := mem_of_getLast? hlast
            rw [map_append, pairwise_append] at h
            have hlt := h.2.2 last.1 (mem_map_of_mem hmem) p.1 (by simp)
            dsimp only
            rw [if_neg hlt.ne]
      rw [happend] at h
      rw [foldl_cons, hcombine, foldl_combine h, happend]

/-! ## The reference index -/

theorem pairwise_postings_from (term : String) (first : Nat) (docs : List (List String)) :
    ((postingsFrom term first docs).map Prod.fst).Pairwise (· < ·) := by
  induction docs generalizing first with
  | nil => exact List.Pairwise.nil
  | cons terms docs ih =>
      rw [postingsFrom]
      split
      · rw [map_cons, pairwise_cons]
        refine ⟨fun docId hdoc => ?_, ih (first + 1)⟩
        obtain ⟨p, hp, rfl⟩ := mem_map.mp hdoc
        exact (mem_postings_from.mp hp).1
      · exact ih (first + 1)

theorem pairwise_vocabulary (docs : List (List String)) :
    (vocabulary docs).Pairwise (· < ·) := by
  have hsorted := pairwise_insertionSort (fun a b : String => a ≤ b) docs.flatten.eraseDups
  have hnodup : (vocabulary docs).Nodup :=
    (perm_insertionSort _ _).nodup_iff.mpr (nodup_eraseDups _)
  exact (hsorted.and hnodup).imp (fun h => lt_of_le_of_ne h.1 h.2)

theorem fst_reference_index (docs : List (List String)) :
    (referenceIndex docs).map Prod.fst = vocabulary docs := by
  rw [referenceIndex, map_map]
  exact map_id _

theorem mem_triples_reference_index :
    p ∈ triples (referenceIndex docs) ↔ p ∈ postingsOfDocs 0 docs := by
  obtain ⟨term, docId, tf⟩ := p
  rw [mem_postings_of_docs, triples, referenceIndex, mem_flatMap]
  constructor
  · rintro ⟨e, he, hp⟩
    obtain ⟨term', -, rfl⟩ := mem_map.mp he
    obtain ⟨q, hq, heq⟩ := mem_map.mp hp
    obtain ⟨rfl, rfl⟩ := Prod.mk.inj heq
    exact hq
  · intro hp
    obtain ⟨-, terms, hget, hterm, -⟩ := mem_postings_from.mp hp
    refine ⟨(term, postingsOf docs term), mem_map.mpr ⟨term, ?_, rfl⟩,
      mem_map.mpr ⟨(docId, tf), hp, rfl⟩⟩
    exact mem_vocabulary.mpr ⟨terms, mem_of_getElem? hget, hterm⟩

theorem pairwise_triples_reference_index (docs : List (List String)) :
    (triples (referenceIndex docs)).Pairwise (fun a b => key a < key b) := by
  refine pairwise_flatMap.mpr ⟨fun e he => ?_, ?_⟩
  · obtain ⟨term, -, rfl⟩ := mem_map.mp he
    refine pairwise_map.mpr ?_
    refine (pairwise_map.mp (pairwise_postings_from term 0 docs)).imp (fun {p p'} h => ?_)
    exact Prod.Lex.toLex_lt_toLex.mpr (Or.inr ⟨rfl, h⟩)
  · have hterms := pairwise_vocabulary docs
    rw [← fst_reference_index] at hterms
    refine (pairwise_map.mp hterms).imp (fun {e e'} h => ?_)
    intro p hp p' hp'
    obtain ⟨q, -, rfl⟩ := mem_map.mp hp
    obtain ⟨q', -, rfl⟩ := mem_map.mp hp'
    exact Prod.Lex.toLex_lt_toLex.mpr (Or.inl h)

theorem grouped_postings (hperm : postings.Perm (postingsOfDocs 0 docs))
    (hsorted : postings.Pairwise (fun a b => key a ≤ key b)) :
    (groupby postings).map (fun e => (e.1, e.2.foldl combine [])) = referenceIndex docs := by
  have hnodup : (postings.map key).Nodup :=
    (hperm.map key).nodup_iff.mpr (nodup_postings_of_docs 0 docs)
  have hstrict : postings.Pairwise (fun a b => key a < key b) :=
    (hsorted.and (pairwise_map.mp hnodup)).imp (fun h => lt_of_le_of_ne h.1 h.2)
  have hreference := pairwise_triples_reference_index docs
  have hdistinct : (triples (referenceIndex docs)).Nodup := by
    refine hreference.imp (fun {a b} hlt => ?_)
    rintro rfl
    exact lt_irrefl _ hlt
  have hsame : (triples (referenceIndex docs)).Perm (postingsOfDocs 0 docs) :=
    (perm_ext_iff_of_nodup hdistinct
      (List.Nodup.of_map key (nodup_postings_of_docs 0 docs))).mpr
        (fun _ => mem_triples_reference_index)
  have heq : postings = triples (referenceIndex docs) := by
    refine (hperm.trans hsame.symm).eq_of_pairwise ?_ hstrict hreference
    exact fun a b _ _ hab hba => absurd hba hab.asymm
  have hterms := pairwise_vocabulary docs
  rw [← fst_reference_index] at hterms
  have hnonempty : ∀ e ∈ referenceIndex docs, e.2 ≠ [] := by
    intro e he
    obtain ⟨term, hterm, rfl⟩ := mem_map.mp he
    obtain ⟨terms, hterms, hmem⟩ := mem_vocabulary.mp hterm
    obtain ⟨i, hi, hget⟩ := mem_iff_getElem.mp hterms
    have hposting : (i, terms.count term) ∈ postingsOf docs term :=
      mem_postings_of.mpr ⟨terms, by rw [getElem?_eq_getElem hi, hget], hmem, rfl⟩
    exact ne_nil_of_mem hposting
  rw [heq, groupby_triples hterms hnonempty]
  refine (map_congr_left (fun e he => ?_)).trans (map_id _)
  obtain ⟨term, -, rfl⟩ := mem_map.mp he
  rw [foldl_combine (pairwise_postings_from term 0 docs)]
  rfl

/-! ## The merge of the runs -/

/-- The merge of ascending runs gives their postings, in ascending order. -/
theorem merged_postings {fanIn : Int} (hfanIn : 2 ≤ fanIn)
    (hascending : ∀ run ∈ runs, run.Pairwise (fun a b => key a < key b))
    (hwritable : ∀ run ∈ runs, ∀ p ∈ run, Writable p) :
    ∃ records postings, mergeSortedRuns comparePostings fanIn
        (runs.map (fun run => frames (run.map recordOf))) = .ok records ∧
      records.mapM decodePosting = .ok postings ∧ postings.Perm runs.flatten ∧
      postings.Pairwise (fun a b => key a ≤ key b) := by
  rw [mergeSortedRuns, dif_neg (by omega)]
  by_cases hnone : runs = []
  · subst hnone
    exact ⟨[], [], rfl, rfl, List.Perm.refl _, List.Pairwise.nil⟩
  · rw [if_neg (fun h => hnone (map_eq_nil_iff.mp h))]
    have hruns : ∀ run ∈ runs.map (fun run => run.map recordOf),
        IsRun (leBy comparePostings) IsPosting run := by
      intro records hrecords
      obtain ⟨run, hrun, rfl⟩ := mem_map.mp hrecords
      constructor
      · intro record hrecord
        obtain ⟨p, hp, rfl⟩ := mem_map.mp hrecord
        exact ⟨p, hwritable run hrun p hp, rfl⟩
      · refine pairwise_map.mpr ?_
        refine (hascending run hrun).imp_of_mem (fun {a b} ha hb hlt => ?_)
        exact (leBy_record_of (hwritable run hrun a ha) (hwritable run hrun b hb)).mpr hlt.le
    have hsized : ∀ run ∈ runs.map (fun run => run.map recordOf), ∀ record ∈ run,
        Sized record := by
      intro records hrecords record hrecord
      obtain ⟨run, hrun, rfl⟩ := mem_map.mp hrecords
      obtain ⟨p, hp, rfl⟩ := mem_map.mp hrecord
      exact (hwritable run hrun p hp).sized
    have hpos : 0 < (runs.map (fun run => run.map recordOf)).length := by
      rw [length_map]
      exact length_pos_of_ne_nil hnone
    obtain ⟨out, hpasses, hmerged⟩ :=
      merge_passes_ok total_preorder (by omega : 2 ≤ fanIn.toNat) _ rfl hpos hruns
        hsized
    rw [map_map] at hpasses
    have hout : ∀ record ∈ out, Sized record := by
      intro record hrecord
      obtain ⟨run, hrun, hrecord⟩ := mem_flatten.mp (hmerged.perm.mem_iff.mp hrecord)
      exact hsized run hrun record hrecord
    have hflatten : (runs.map (fun run => run.map recordOf)).flatten =
        runs.flatten.map recordOf := map_flatten.symm
    have hdecode : ((runs.map (fun run => run.map recordOf)).flatten).mapM decodePosting =
        .ok runs.flatten := by
      have hall : ∀ p ∈ runs.flatten, (decodePosting ∘ recordOf) p = .ok (id p) := by
        intro p hp
        obtain ⟨run, hrun, hp⟩ := mem_flatten.mp hp
        exact decode_record_of (hwritable run hrun p hp)
      rw [hflatten, mapM_map, mapM_ok hall, map_id]
    obtain ⟨postings, hpostings, hperm⟩ := mapM_perm hmerged.perm.symm hdecode
    refine ⟨out, postings, ?_, hpostings, hperm, ?_⟩
    · simp only [Function.comp_def] at hpasses
      rw [hpasses, ok_bind, RecordFile.read_records_frames hout]
    · have hrecords : out = postings.map recordOf := by
        have hforall := mapM_eq_ok.mp hpostings
        have hmem := hmerged.run.mem
        clear * - hforall hmem
        induction hforall with
        | nil => rfl
        | @cons record p _ _ hp _ ih =>
            obtain ⟨q, hq, rfl⟩ := hmem record mem_cons_self
            have hpq : q = p := Except.ok.inj ((decode_record_of hq).symm.trans hp)
            rw [map_cons, hpq, ← ih (fun r hr => hmem r (mem_cons_of_mem _ hr))]
      have hall : ∀ p ∈ postings, Writable p := by
        intro p hp
        obtain ⟨run, hrun, hp⟩ := mem_flatten.mp (hperm.mem_iff.mp hp)
        exact hwritable run hrun p hp
      have hordered := hmerged.run.ascending
      rw [hrecords] at hordered
      refine (pairwise_map.mp hordered).imp_of_mem (fun {a b} ha hb hle => ?_)
      exact (leBy_record_of (hall a ha) (hall b hb)).mp hle

/-- The posting can be written to a run. -/
def Fits (p : Triple) : Prop := ∃ record, encodePosting p = .ok record ∧ Sized record

theorem Fits.writable (hwords : ∀ terms ∈ docs, "" ∉ terms) (hp : p ∈ postingsOfDocs 0 docs)
    (h : Fits p) : Writable p := by
  obtain ⟨term, docId, tf⟩ := p
  obtain ⟨record, hencode, hsized⟩ := h
  obtain ⟨-, terms, hget, hterm, rfl⟩ := mem_postings_from.mp (mem_postings_of_docs.mp hp)
  obtain ⟨-, -, rfl⟩ := encode_posting_eq hencode
  refine ⟨?_, count_pos_iff.mpr hterm, hencode, hsized⟩
  rintro rfl
  exact hwords terms (mem_of_getElem? hget) hterm

/-- The merge of the runs of documents is the reference index of the documents, whatever the
memory limit and the fan-in. -/
theorem merged_terms_of_spimi_runs (tokenizer : String → List String)
    (hwords : ∀ text, "" ∉ tokenizer text) (items : List (String × RID))
    (memoryLimitBytes fanIn : Int) (hlimit : 0 < memoryLimitBytes) (hfanIn : 2 ≤ fanIn)
    (hvalid : ∀ i ∈ items, 0 ≤ i.2.pageId ∧ 0 ≤ i.2.slot) (hdistinct : (items.map Prod.snd).Nodup)
    (hfits : ∀ p ∈ postingsOfDocs 0 (items.map (fun i => tokenizer i.1)), Fits p) :
    ∃ build, spimiRuns tokenizer memoryLimitBytes items = .ok build ∧
      mergedTerms fanIn build.runs =
        .ok (referenceIndex (items.map (fun i => tokenizer i.1))) ∧
      build.docLengths = items.map (fun i => (tokenizer i.1).length) ∧
      build.rids = items.map Prod.snd := by
  have hstart : Spilled ⟨[], empty, 0⟩ [] [] :=
    ⟨rfl, fun run hrun => absurd hrun not_mem_nil, List.Perm.refl _⟩
  have hnodup := nodup_postings_of_docs 0 (items.map (fun i => tokenizer i.1))
  have hterms : ∀ terms ∈ items.map (fun i => tokenizer i.1), "" ∉ terms := by
    intro terms hterms
    obtain ⟨item, -, rfl⟩ := mem_map.mp hterms
    exact hwords item.1
  have hwritable : ∀ p ∈ postingsOfDocs 0 (items.map (fun i => tokenizer i.1)), Writable p :=
    fun p hp => (hfits p hp).writable hterms hp
  obtain ⟨spill, runs, hitems, hspilled⟩ :=
    @add_documents_spec tokenizer memoryLimitBytes.toNat items
      ⟨⟨[], empty, 0⟩, [], []⟩ [] [] hstart hwritable hnodup hvalid hdistinct
  obtain ⟨spill', runs', hflush, hspilled', hempty⟩ := flush_spec hspilled hwritable
  have hblock : blockPostings spill'.block = [] := by
    rw [blockPostings, hempty, flatMap_nil]
  have hperm := hspilled'.perm
  rw [hblock, append_nil] at hperm
  obtain ⟨records, postings, hmerge, hdecode, hpostings, hsorted⟩ :=
    merged_postings hfanIn hspilled'.ascending (fun run hrun p hp =>
      hwritable p (hperm.mem_iff.mp (mem_flatten.mpr ⟨run, hrun, hp⟩)))
  refine ⟨⟨spill'.runs, items.map (fun i => (tokenizer i.1).length), items.map Prod.snd⟩,
    ?_, ?_, rfl, rfl⟩
  · rw [spimiRuns, if_neg (by omega), hitems, ok_bind]
    dsimp only
    rw [hflush, ok_bind]
    rfl
  · dsimp only
    rw [mergedTerms, hspilled'.files, hmerge, ok_bind, hdecode, ok_bind]
    exact congrArg Except.ok (grouped_postings (hpostings.trans hperm) hsorted)

/-! ### Two documents, one posting a run -/

theorem too_long_eq_false {n : Nat} (h : n < 10) : tooLong n = false := by
  rw [tooLong, decide_eq_false_iff_not, not_le]
  exact h.trans_le (Nat.le_self_pow (by decide) 10)

/-- Every letter is a word. -/
def letters (text : String) : List String := text.toList.map (fun c => String.ofList [c])

def twoTexts : List (String × RID) := [("bab", ⟨0, 0⟩), ("a", ⟨0, 1⟩)]

theorem merged_terms_of_two_texts :
    ∃ build, spimiRuns letters 1 twoTexts = .ok build ∧
      mergedTerms 2 build.runs = .ok [("a", [(0, 1), (1, 1)]), ("b", [(0, 2)])] ∧
      build.docLengths = [3, 1] ∧ build.rids = [⟨0, 0⟩, ⟨0, 1⟩] := by
  have hpostings : postingsOfDocs 0 (twoTexts.map (fun i => letters i.1)) =
      [("b", 0, 2), ("a", 0, 1), ("a", 1, 1)] := by
    decide +kernel
  have hindex : referenceIndex (twoTexts.map (fun i => letters i.1)) =
      [("a", [(0, 1), (1, 1)]), ("b", [(0, 2)])] := by
    decide +kernel
  have hfits : ∀ p ∈ postingsOfDocs 0 (twoTexts.map (fun i => letters i.1)), Fits p := by
    intro p hp
    rw [hpostings] at hp
    have hsmall : p.2.1 < 10 ∧ p.2.2 < 10 ∧ (recordOf p).length < 2 ^ 32 := by
      revert p
      decide +kernel
    refine ⟨recordOf p, ?_, hsmall.2.2⟩
    rw [encodePosting, too_long_eq_false hsmall.1, too_long_eq_false hsmall.2.1]
    rfl
  rw [← hindex]
  exact merged_terms_of_spimi_runs letters (fun text => by simp [letters]) twoTexts 1 2
    (by decide) (by decide) (by decide) (by decide) hfits

/-! ### A word that no run can hold -/

/-- The record of a posting is not shorter than its term. -/
theorem length_le_record_of (p : Triple) : p.1.toList.length ≤ (recordOf p).length := by
  have hescape : ∀ c, 0 < (Json.escapeUnicode c).length := by
    intro c
    rw [Json.escapeUnicode]
    split_ifs
    all_goals exact Nat.succ_pos _
  have hchars : ∀ cs : List Nat, cs.length ≤ (cs.flatMap Json.escapeUnicode).length := by
    intro cs
    induction cs with
    | nil => exact Nat.le_refl _
    | cons c cs ih =>
        have hpos := hescape c
        rw [length_cons, flatMap_cons, length_append]
        omega
  have hterm := hchars (Json.codes p.1)
  have htext := length_le_encodeUtf8 (Json.dumpArray [.str p.1, .int p.2.1, .int p.2.2])
  rw [Json.codes, length_map] at hterm
  rw [Json.dumpArray, String.toList_ofList, length_map] at htext
  refine hterm.trans (le_trans ?_ htext)
  rw [Json.arrayCodes, Json.dumpItem, Json.dumpChars, length_cons, length_append,
    length_cons, length_append]
  rw [Json.codes]
  omega

/-- A word of 2^32 letters is not written to a run. -/
theorem long_word_not_spilled :
    ¬ ∀ (tokenizer : String → List String) (items : List (String × RID)),
      (∀ text, "" ∉ tokenizer text) → (∀ i ∈ items, 0 ≤ i.2.pageId ∧ 0 ≤ i.2.slot) →
      (items.map Prod.snd).Nodup → ∃ build, spimiRuns tokenizer 1 items = .ok build := by
  intro hspills
  have hlong : ∃ word : String, word.toList.length = 2 ^ 32 :=
    ⟨String.ofList (replicate (2 ^ 32) 'a'), by
      rw [String.toList_ofList, length_replicate]⟩
  obtain ⟨word, hword⟩ := hlong
  have hne : word ≠ "" := by
    rintro rfl
    cases hword
  have hrecord := length_le_record_of (word, 0, 1)
  rw [hword] at hrecord
  have hencode : encodePosting (word, 0, 1) = .ok (recordOf (word, 0, 1)) := by
    have hzero : tooLong 0 = false := too_long_eq_false (by decide)
    have hone : tooLong 1 = false := too_long_eq_false (by decide)
    rw [encodePosting, hzero, hone]
    rfl
  have hwrite : writeRecord "external-sort run" (recordOf (word, 0, 1)) =
      .error (.ValueError "record is too large for external-sort run format") := by
    rw [writeRecord, if_pos (by omega)]
    rfl
  have hcounts : counter [word] = [(word, 1)] := by
    simp [counter, eraseDups_cons]
  have hflush : ∀ used : Nat, flush ⟨[], put empty (word, 0, 1), used⟩ =
      .error (.ValueError "record is too large for external-sort run format") := by
    intro used
    have hblock : (put empty (word, 0, 1)).entries =
        [(word, empty.set 0 1)] := rfl
    have hsorted : sortedPostings (put empty (word, 0, 1)) = [(word, 0, 1)] := rfl
    rw [flush, if_neg (by rw [hblock]; exact cons_ne_nil _ _), hsorted, map_singleton,
      writeCheckedRun, hencode, ok_bind]
    dsimp only
    rw [ok_bind, if_neg Bool.false_ne_true, hwrite]
    rfl
  obtain ⟨build, hbuild⟩ := hspills (fun _ => [word]) [("", ⟨0, 0⟩)]
    (fun _ hmem => hne (mem_singleton.mp hmem).symm) (by decide) (nodup_singleton _)
  have hitem : addDocument (fun _ => [word]) 1 ⟨⟨[], empty, 0⟩, [], []⟩
      ("", ⟨0, 0⟩) =
        .error (.ValueError "record is too large for external-sort run format") := by
    have hadd : addPosting 1 ⟨[], empty, 0⟩ (word, 0, 1) =
        .error (.ValueError "record is too large for external-sort run format") := by
      rw [addPosting]
      dsimp only
      have hcost : ∀ (full : Bool) (size : Nat), 1 ≤ 0 + if full = true then 160 + size else
          96 + if (empty : Block).contains word = true then 0 else size + 64 := by
        intro full size
        split
        · omega
        · omega
      rw [if_neg (by simp [empty]), ok_bind, if_pos (hcost _ _)]
      exact hflush _
    rw [addDocument, if_neg (by decide), if_neg not_mem_nil]
    dsimp only
    rw [hcounts, map_singleton, foldlM_cons]
    dsimp only [length_nil]
    rw [hadd]
    rfl
  rw [spimiRuns, if_neg (by decide), foldlM_cons] at hbuild
  have hone : (1 : Int).toNat = 1 := rfl
  rw [hone, hitem] at hbuild
  cases hbuild

end SoupDB.Spimi
