import SoupDB.Indexes.BPlusAtomic
import SoupDB.Indexes.BPlusStructure
import SoupDB.Storage.SequentialKeys

/-!
# SoupDB: the clustered B+ tree

A B+ tree over the records of a sequential file.  An insert writes the record and then its
entry, and takes the record back when the entry cannot be inserted; a removal takes the
entry out and then the record.

`consistent_always` says that the entries of the tree are the live records with their keys
in every state of a run, as long as no insert strands a leaf of the tree.  An insert that
does takes its record back and leaves its entry, and searches for its key raise from then
on (`insert_record_not_consistent`).
-/

namespace SoupDB

open Effect BPlusTree SequentialFile

structure ClusteredBPlusTree where
  dataFile : SequentialFile
  tree : BPlusTree

namespace ClusteredBPlusTree

abbrev Method (α : Type) : Type := Effect PyError ClusteredBPlusTree α

/-- Run a program on the data file. -/
def onFile {α : Type} (x : Effect PyError SequentialFile α) : Method α :=
  focus dataFile (fun file c => { c with dataFile := file }) x

/-- Run a program on the tree. -/
def onTree {α : Type} (x : BPlusTree.Method α) : Method α :=
  focus tree (fun tree c => { c with tree := tree }) x

def init (keyFn : KeyFn) (dataDisk indexDisk : DiskManager) :
    Except PyError ClusteredBPlusTree := do
  let dataFile ← SequentialFile.init keyFn dataDisk
  match construct indexDisk with
  | (.error e, _) => .error e
  | (.ok _, tree) => .ok ⟨dataFile, tree⟩

/-- Store a record and index its RID. -/
def insertRecord (keyFn : KeyFn) (data : Bytes) : Method RID := do
  let key ← lift (keyFn data)
  let rid ← onFile (SequentialFile.insert keyFn data)
  tryCatch (onTree (insert key rid)) (fun e => do
    let _ ← onFile (SequentialFile.remove keyFn rid)
    raise e)
  pure rid

def fetchRecord (rid : RID) : Method (Option Bytes) := onFile (fetch rid)

/-- The records of some RIDs. -/
def fetchRids : List RID → Method (List Bytes)
  | [] => pure []
  | rid :: rids => do
      let record ← onFile (fetch rid)
      match record with
      | none => raise (.ValueError ("clustered B+ contains stale RID " ++
          s!"RID(page_id={rid.pageId}, slot={rid.slot})"))
      | some data => do
          let records ← fetchRids rids
          pure (data :: records)

def searchRecords (key : Value) : Method (List Bytes) := do
  let c ← get
  let rids ← lift (c.tree.search key)
  fetchRids rids

def rangeRecords (lo hi : Value) : Method (List Bytes) := do
  let c ← get
  let rids ← lift (c.tree.rangeSearch lo hi)
  fetchRids rids

/-- Remove a record from the tree and from the data file. -/
def removeRecord (keyFn : KeyFn) (key : Value) (rid : RID) : Method Bool := do
  let record ← onFile (fetch rid)
  match record with
  | none => pure false
  | some data => do
      let recordKey ← lift (keyFn data)
      if !recordKey.eq key then pure false
      else do
        let removed ← onTree (remove key (some rid))
        if removed ≠ 1 then pure false
        else do
          let gone ← onFile (SequentialFile.remove keyFn rid)
          if gone then pure true
          else do
            onTree (insert key rid)
            pure false

inductive Call
  | insertRecord (data : Bytes)
  | removeRecord (key : Value) (rid : RID)

/-- The state after a call, one that raised included. -/
def act (keyFn : KeyFn) (c : ClusteredBPlusTree) : Call → ClusteredBPlusTree
  | .insertRecord data => (insertRecord keyFn data c).2
  | .removeRecord key rid => (removeRecord keyFn key rid c).2

/-! ## The invariant -/

/-- The entries of the tree are the live records with their keys. -/
structure Indexes (keyFn : KeyFn) (c : ClusteredBPlusTree) (T : BPlusTree.Tree)
    (rs : RecordPages) (bs : List SequentialFile.Bucket) : Prop where
  tree : BPlusTree.Sound c.tree T
  opened : c.tree.closed = false
  file : Chained c.dataFile rs bs
  keyed : AllKeyed keyFn rs
  nodup : ((contents c.tree T).map Prod.snd).Nodup
  entry : ∀ key rid, (key, rid) ∈ contents c.tree T ↔
    ∃ data, slotOf rs rid = some (some data) ∧ keyFn data = .ok key

/-- The invariant, with whatever tree, records and buckets. -/
def Indexed (keyFn : KeyFn) (c : ClusteredBPlusTree) : Prop :=
  ∃ T rs bs, Indexes keyFn c T rs bs

section Kept

variable {keyFn : KeyFn} {c : ClusteredBPlusTree} {T : BPlusTree.Tree} {rs rs' : RecordPages}
  {bs bs' : List SequentialFile.Bucket} {key : Value} {rid : RID} {data : Bytes}
  {file : SequentialFile}

theorem Indexes.of_file (h : Indexes keyFn c T rs bs) (hchained : Chained file rs' bs')
    (hlive : ∀ r d, slotOf rs' r = some (some d) ↔ slotOf rs r = some (some d)) :
    Indexes keyFn { c with dataFile := file } T rs' bs' := by
  refine ⟨h.tree, h.opened, hchained, ?_, h.nodup, ?_⟩
  · intro r d hslot
    exact h.keyed ((hlive r d).mp hslot)
  · intro k r
    rw [h.entry k r]
    simp only [hlive]

/-- A record and its entry are added. -/
theorem Indexes.inserted (h : Indexes keyFn c T rs bs) (hchained : Chained file rs' bs')
    (hfree : slotOf rs rid = none)
    (hslots : ∀ r, slotOf rs' r = if r = rid then some (some data) else slotOf rs r)
    (hkey : keyFn data = .ok key) {tree : BPlusTree}
    (hrun : insert key rid c.tree = (.ok (), tree)) :
    Indexed keyFn ⟨file, tree⟩ := by
  obtain ⟨T', hsound, hclosed, hperm⟩ := h.tree.insert_contents hrun
  have hnot : rid ∉ (contents c.tree T).map Prod.snd := by
    intro hmem
    obtain ⟨⟨k, r⟩, he, rfl⟩ := List.mem_map.mp hmem
    obtain ⟨d, hslot, _⟩ := (h.entry k r).mp he
    rw [hfree] at hslot
    cases hslot
  refine ⟨T', rs', bs', hsound, hclosed.trans h.opened, hchained, ?_, ?_, ?_⟩
  · intro r d hslot
    rw [hslots] at hslot
    split at hslot
    · cases hslot
      exact ⟨key, hkey⟩
    · exact h.keyed hslot
  · rw [(hperm.map Prod.snd).nodup_iff]
    exact List.nodup_cons.mpr ⟨hnot, h.nodup⟩
  · intro k r
    rw [hperm.mem_iff, List.mem_cons, h.entry k r, Prod.mk.injEq, hslots]
    by_cases hr : r = rid
    · subst hr
      rw [if_pos rfl, hfree]
      constructor
      · rintro (⟨rfl, _⟩ | ⟨d, hslot, _⟩)
        · exact ⟨data, rfl, hkey⟩
        · cases hslot
      · rintro ⟨d, hslot, hk⟩
        cases hslot
        exact Or.inl ⟨Except.ok.inj (hk.symm.trans hkey), rfl⟩
    · rw [if_neg hr]
      constructor
      · rintro (⟨_, heq⟩ | hlive)
        · exact absurd heq hr
        · exact hlive
      · exact Or.inr

theorem Indexes.removed (h : Indexes keyFn c T rs bs) (hchained : Chained file rs' bs')
    (herased : SequentialFile.Erased rs rid rs') {tree : BPlusTree}
    (hsound : BPlusTree.Sound tree T) (hopen : tree.closed = false)
    {front back : List BPlusPage.Entry} {e : BPlusPage.Entry} (hrid : e.2 = rid)
    (hbefore : contents c.tree T = front ++ e :: back)
    (hafter : contents tree T = front ++ back) :
    Indexes keyFn ⟨file, tree⟩ T rs' bs' := by
  have hperm : (contents c.tree T).Perm (e :: contents tree T) := by
    rw [hbefore, hafter]
    exact List.perm_middle
  have hnodup := (hperm.map Prod.snd).nodup_iff.mp h.nodup
  rw [List.map_cons, List.nodup_cons, hrid] at hnodup
  refine ⟨hsound, hopen, hchained, herased.keyed h.keyed, hnodup.2, ?_⟩
  intro k r
  have hold := h.entry k r
  rw [hperm.mem_iff, List.mem_cons] at hold
  constructor
  · intro hmem
    obtain ⟨d, hslot, hk⟩ := hold.mp (Or.inr hmem)
    refine ⟨d, ?_, hk⟩
    rw [herased r, if_neg, hslot]
    rintro rfl
    exact hnodup.1 (List.mem_map.mpr ⟨(k, r), hmem, rfl⟩)
  · rintro ⟨d, hslot, hk⟩
    obtain ⟨hne, hslot⟩ := herased.of_live hslot
    rcases hold.mpr ⟨d, hslot, hk⟩ with rfl | hmem
    · exact absurd hrid hne
    · exact hmem

/-- Once a record was stored, taking it back leaves the records there were. -/
theorem live_of_taken_back {rs'' : RecordPages} (hfree : slotOf rs rid = none)
    (hslots : ∀ r, slotOf rs' r = if r = rid then some (some data) else slotOf rs r)
    (herased : SequentialFile.Erased rs' rid rs'') (r : RID) (d : Bytes) :
    slotOf rs'' r = some (some d) ↔ slotOf rs r = some (some d) := by
  rw [herased r, hslots]
  by_cases hr : r = rid
  · rw [if_pos hr, if_pos hr, hr, hfree]
    constructor
    · intro hslot
      cases hslot
    · intro hslot
      cases hslot
  · rw [if_neg hr, if_neg hr]

/-- An insert that strands no leaf keeps the invariant, whether it returns or raises. -/
theorem Indexed.insertRecord (h : Indexed keyFn c)
    (hguard : ∀ key rid file, keyFn data = .ok key →
      SequentialFile.insert keyFn data c.dataFile = (.ok rid, file) →
      strandsLeaf c.tree key rid = false) :
    wp (insertRecord keyFn data) (fun _ c' => Indexed keyFn c')
      (fun _ c' => Indexed keyFn c') c := by
  obtain ⟨T, rs, bs, h⟩ := h
  have hspec := SequentialFile.insert_spec h.file keyFn data
  simp only [ClusteredBPlusTree.insertRecord, wp_bind, onFile, onTree, wp_focus, wp_tryCatch]
  cases hkey : keyFn data with
  | error e => exact ⟨T, rs, bs, h⟩
  | ok key =>
      rw [wp_lift_ok]
      rcases hrun : SequentialFile.insert keyFn data c.dataFile with ⟨e | rid, file⟩
      · refine wp_of_error hrun ?_
        obtain ⟨rs', hchained, hslots⟩ := (wp_error hspec hrun).chained
        exact ⟨T, rs', bs, h.of_file hchained (fun r d => by rw [hslots])⟩
      · refine wp_of_ok hrun ?_
        have hinserted := wp_ok hspec hrun
        obtain ⟨_, _, _, rs', _, bs', hlanded, hchained⟩ := hinserted.landed
        have hfree := hlanded.free
        have hslots := hlanded.slots
        rcases htree : insert key rid c.tree with ⟨e | _, tree⟩
        · refine wp_of_error htree ?_
          rcases (wp_error (insert_spec h.tree.ordered.linked key rid) htree).2 with
            ⟨_, rfl⟩ | ⟨hstrands, _⟩
          · have hlive : slotOf rs' rid = some (some data) := by rw [hslots, if_pos rfl]
            refine wp_mono (wp_remove_live hchained keyFn hlive) ?_ ?_
            · rintro _ file' ⟨_, rs'', _, _, _, _, _, herased, _, _, _, hchained', _⟩
              exact ⟨T, rs'', bs', h.of_file hchained' (live_of_taken_back hfree hslots herased)⟩
            · rintro _ file' ⟨rs'', _, _, _, herased, hchained', _⟩
              exact ⟨T, rs'', bs', h.of_file hchained' (live_of_taken_back hfree hslots herased)⟩
          · rw [hguard key rid file hkey hrun] at hstrands
            cases hstrands
        · refine wp_of_ok htree ?_
          exact h.inserted hchained hfree hslots hkey htree

theorem Indexes.remove_entry (h : Indexes keyFn c T rs bs) {k : Value}
    (hmem : (k, rid) ∈ contents c.tree T) (heq : k.eq key = true) :
    ∃ tree front e back, remove key (some rid) c.tree = (.ok 1, tree) ∧
      BPlusTree.Sound tree T ∧ tree.closed = false ∧ e.2 = rid ∧
      contents c.tree T = front ++ e :: back ∧
      contents tree T = front ++ back := by
  have hspec := @BPlusTree.Ordered.remove_ok _ _ _ key (some rid) h.tree.ordered_keys h.opened
    (h.tree.comparable_entry hmem heq)
  have hshrunk := @BPlusTree.remove_shrunk key (some rid) _ _ _ h.tree.ordered.linked
  rcases hrun : remove key (some rid) c.tree with ⟨e | n, tree⟩
  · exact (wp_error hspec hrun).elim
  · obtain ⟨_, hopen, hn, hcontents⟩ := wp_ok hspec hrun
    have hleft := wp_ok hshrunk hrun
    have hsound := h.tree.of_shrunk hleft
    rcases removeList_some key rid (contents c.tree T) with
      ⟨_, habsent⟩ | ⟨front, e, back, hsplit, _, hrid, hremoved⟩
    · rw [habsent (k, rid) hmem rfl] at heq
      cases heq
    · rw [hremoved] at hn hcontents
      exact ⟨tree, front, e, back, by rw [hn], hsound, hopen, hrid, hsplit, hcontents⟩

/-- A removal keeps the invariant, whether it returns or raises. -/
theorem Indexed.removeRecord (h : Indexed keyFn c) (key : Value) (rid : RID) :
    wp (removeRecord keyFn key rid) (fun _ c' => Indexed keyFn c')
      (fun _ c' => Indexed keyFn c') c := by
  obtain ⟨T, rs, bs, h⟩ := h
  rw [ClusteredBPlusTree.removeRecord, wp_bind, onFile, wp_focus]
  refine wp_of_ok (fetch_spec h.file rid) ?_
  cases hrecord : (slotOf rs rid).join with
  | none => exact ⟨T, rs, bs, h⟩
  | some data =>
      have hlive := Option.join_eq_some_iff.mp hrecord
      obtain ⟨k, hk⟩ := h.keyed hlive
      simp only [hk, wp_bind, wp_lift_ok]
      cases heq : k.eq key with
      | false => exact ⟨T, rs, bs, h⟩
      | true =>
          have hmem := (h.entry k rid).mpr ⟨data, hlive, hk⟩
          obtain ⟨tree, front, e, back, hremove, hsound, hopen, hrid, hsplit, hcontents⟩ :=
            h.remove_entry hmem heq
          simp only [Bool.not_true, Bool.false_eq_true, if_false, wp_bind, onTree, wp_focus]
          refine wp_of_ok hremove ?_
          simp only [ne_eq, not_true_eq_false, if_false, onFile, wp_bind, wp_focus]
          refine wp_mono (wp_remove_live h.file keyFn hlive) ?_ ?_
          · rintro gone file ⟨rfl, rs', _, _, _, _, _, herased, _, _, _, hchained, _⟩
            exact ⟨T, rs', bs, h.removed hchained herased hsound hopen hrid hsplit hcontents⟩
          · rintro _ file ⟨rs', _, _, _, herased, hchained, _⟩
            exact ⟨T, rs', bs, h.removed hchained herased hsound hopen hrid hsplit hcontents⟩

/-! ## Consistency -/

def HasRecord (c : ClusteredBPlusTree) (rid : RID) (data : Bytes) : Prop :=
  (fetchRecord rid c).1 = .ok (some data)

/-- Exactly the live records whose key satisfies a predicate, each once. -/
def Answers (keyFn : KeyFn) (c : ClusteredBPlusTree) (p : Value → Bool) (found : List Bytes) :
    Prop :=
  ∃ rids : List RID, rids.Nodup ∧ List.Forall₂ (HasRecord c) rids found ∧
    ∀ rid, rid ∈ rids ↔ ∃ data key, HasRecord c rid data ∧ keyFn data = .ok key ∧ p key = true

/-- The entries of the tree are the live records, each once, and searches find exactly the
records they are for.  A bound `==` to itself is one without a NaN. -/
structure Consistent (keyFn : KeyFn) (c : ClusteredBPlusTree) : Prop where
  entries : ∃ es, c.tree.scan = .ok es ∧ (es.map Prod.snd).Nodup ∧
    ∀ key rid, (key, rid) ∈ es ↔ ∃ data, HasRecord c rid data ∧ keyFn data = .ok key
  keyed : ∀ rid data, HasRecord c rid data → ∃ key, keyFn data = .ok key
  searched : ∀ key,
    (∃ found, (searchRecords key c).1 = .ok found ∧ Answers keyFn c (fun k => k.eq key) found) ∨
    ∃ e, (searchRecords key c).1 = .error e ∧ c.tree.search key = .error e ∧
      ∀ rid data k, HasRecord c rid data → keyFn data = .ok k → k.eq key = false
  ranged : ∀ lo hi, lo.eq lo = true → hi.eq hi = true →
    (∃ found, (rangeRecords lo hi c).1 = .ok found ∧
      Answers keyFn c (fun k => lo.le k && k.le hi) found) ∨
    ∃ e, (rangeRecords lo hi c).1 = .error e ∧ c.tree.rangeSearch lo hi = .error e

variable (h : Indexes keyFn c T rs bs)
include h

theorem Indexes.hasRecord_iff : HasRecord c rid data ↔ slotOf rs rid = some (some data) := by
  rw [HasRecord, fetchRecord, onFile, focus, fetch_spec h.file, Except.ok.injEq,
    Option.join_eq_some_iff]

theorem Indexes.fetched : ∀ {rids : List RID},
    (∀ rid ∈ rids, ∃ data, HasRecord c rid data) →
    ∃ found, fetchRids rids c = (.ok found, c) ∧ List.Forall₂ (HasRecord c) rids found := by
  intro rids
  induction rids with
  | nil =>
      intro _
      exact ⟨[], rfl, List.Forall₂.nil⟩
  | cons rid rids ih =>
      intro hlive
      obtain ⟨data, hdata⟩ := hlive rid (by simp)
      obtain ⟨found, hrun, hfound⟩ := ih (fun r hr => hlive r (List.mem_cons_of_mem _ hr))
      have hfetch : onFile (fetch rid) c = (.ok (some data), c) := by
        have hjoin := Option.join_eq_some_iff.mpr (h.hasRecord_iff.mp hdata)
        rw [onFile, focus, fetch_spec h.file, hjoin]
      refine ⟨data :: found, ?_, List.Forall₂.cons hdata hfound⟩
      rw [ClusteredBPlusTree.fetchRids, run_bind_ok _ hfetch]
      simp only [run_bind_ok _ hrun, run_pure]

/-- The records behind the entries of some keys are the live records with these keys. -/
theorem Indexes.answers (p : Value → Bool) :
    ∃ found, fetchRids (((contents c.tree T).filter (fun e => p e.1)).map Prod.snd) c =
      (.ok found, c) ∧ Answers keyFn c p found := by
  have hmem : ∀ rid, rid ∈ ((contents c.tree T).filter (fun e => p e.1)).map Prod.snd ↔
      ∃ data key, HasRecord c rid data ∧ keyFn data = .ok key ∧ p key = true := by
    intro rid
    simp only [List.mem_map, List.mem_filter]
    constructor
    · rintro ⟨⟨key, r⟩, ⟨he, hp⟩, rfl⟩
      obtain ⟨data, hslot, hkey⟩ := (h.entry key r).mp he
      exact ⟨data, key, h.hasRecord_iff.mpr hslot, hkey, hp⟩
    · rintro ⟨data, key, hrecord, hkey, hp⟩
      exact ⟨(key, rid), ⟨(h.entry key rid).mpr ⟨data, h.hasRecord_iff.mp hrecord, hkey⟩, hp⟩, rfl⟩
  obtain ⟨found, hrun, hfound⟩ := h.fetched (fun rid hrid => by
    obtain ⟨data, _, hrecord, _⟩ := (hmem rid).mp hrid
    exact ⟨data, hrecord⟩)
  refine ⟨found, hrun, _, ?_, hfound, hmem⟩
  exact h.nodup.sublist (List.filter_sublist.map _)

theorem Indexes.consistent : Consistent keyFn c := by
  constructor
  · refine ⟨_, h.tree.ordered.linked.scan, h.nodup, ?_⟩
    intro key rid
    simp only [h.hasRecord_iff]
    exact h.entry key rid
  · intro rid data hrecord
    exact h.keyed (h.hasRecord_iff.mp hrecord)
  · intro key
    rcases hsearch : c.tree.search key with e | rids
    · right
      refine ⟨e, ?_, rfl, ?_⟩
      · simp only [searchRecords, run_bind, run_get, hsearch, run_lift]
      · intro rid data k hrecord hk
        by_contra heq
        have hmem := (h.entry k rid).mpr ⟨data, h.hasRecord_iff.mp hrecord, hk⟩
        rw [h.tree.search_entry h.opened hmem (Bool.not_eq_false _ ▸ heq)] at hsearch
        cases hsearch
    · left
      obtain ⟨found, hrun, hanswers⟩ := h.answers (fun k => k.eq key)
      refine ⟨found, ?_, hanswers⟩
      rw [← h.tree.search_exact hsearch] at hrun
      simp only [searchRecords, run_bind, run_get, hsearch, run_lift, hrun]
  · intro lo hi hlo hhi
    rcases hsearch : c.tree.rangeSearch lo hi with e | rids
    · right
      exact ⟨e, by simp only [rangeRecords, run_bind, run_get, hsearch, run_lift], rfl⟩
    · left
      obtain ⟨found, hrun, hanswers⟩ := h.answers (fun k => lo.le k && k.le hi)
      refine ⟨found, ?_, hanswers⟩
      rw [← h.tree.range_search_exact hlo hhi hsearch] at hrun
      simp only [rangeRecords, run_bind, run_get, hsearch, run_lift, hrun]

end Kept

/-! ## Runs -/

section Runs

variable {keyFn : KeyFn} {c : ClusteredBPlusTree}

/-- A call that strands no leaf of the tree. -/
def Admissible (keyFn : KeyFn) (c : ClusteredBPlusTree) : Call → Prop
  | .insertRecord data => ∀ key rid file, keyFn data = .ok key →
      SequentialFile.insert keyFn data c.dataFile = (.ok rid, file) →
      strandsLeaf c.tree key rid = false
  | .removeRecord _ _ => True

theorem Indexed.init {dataPageSize indexPageSize : Nat}
    (hinit : init keyFn ⟨dataPageSize, []⟩ ⟨indexPageSize, []⟩ = .ok c) :
    Indexed keyFn c := by
  rw [ClusteredBPlusTree.init, bind_eq_ok] at hinit
  obtain ⟨file, hfile, hinit⟩ := hinit
  rcases hconstruct : construct ⟨indexPageSize, []⟩ with ⟨e | _, tree⟩
  · rw [hconstruct] at hinit
    cases hinit
  · rw [hconstruct] at hinit
    cases hinit
    obtain ⟨hchained, _, _⟩ := init_new hfile
    obtain ⟨root, hfresh⟩ := construct_empty rfl (by rw [hconstruct])
    rw [hconstruct] at hfresh
    have hnone : contents tree (.leaf root) = [] := by
      simp [contents, leavesOf, BPlusTree.Tree.items, entriesOf,
        hfresh.entries]
    have hfree : ∀ rid data, slotOf [[]] rid ≠ some (some data) := by
      intro rid data hslot
      rw [slotOf_new rid] at hslot
      cases hslot
    refine ⟨.leaf root, _, _, BPlusTree.Sound.of_fresh hfresh, hfresh.opened, hchained, ?_, ?_, ?_⟩
    · intro rid data hslot
      exact absurd hslot (hfree rid data)
    · rw [hnone]
      exact List.nodup_nil
    · intro key rid
      rw [hnone]
      constructor
      · intro hmem
        cases hmem
      · rintro ⟨data, hslot, _⟩
        exact absurd hslot (hfree rid data)

theorem Indexed.act (h : Indexed keyFn c) {call : Call} (hguard : Admissible keyFn c call) :
    Indexed keyFn (act keyFn c call) := by
  cases call with
  | insertRecord data => exact state_of_wp (h.insertRecord hguard)
  | removeRecord key rid => exact state_of_wp (h.removeRecord key rid)

/-- In every run on new files whose inserts strand no leaf, also when calls raise, the tree
and the records are consistent in every state. -/
theorem consistent_always {dataPageSize indexPageSize : Nat}
    (hinit : init keyFn ⟨dataPageSize, []⟩ ⟨indexPageSize, []⟩ = .ok c) (calls : List Call)
    (hsteps : Steps (Admissible keyFn) (act keyFn) c calls) :
    Always (Consistent keyFn) (act keyFn) c calls := by
  refine (always_of_steps (fun s call h hguard => h.act hguard) (Indexed.init hinit) hsteps).mono ?_
  rintro s ⟨T, rs, bs, h⟩
  exact h.consistent

/-- A first column that is an integer key. -/
def intKey : KeyFn := fun data => .ok (.int (Pack.unpackI 4 (data.take 4)))

/-- New files, with index pages of 40 bytes, which hold one entry or one separator. -/
def smallPages : ClusteredBPlusTree :=
  match init intKey ⟨64, []⟩ ⟨40, []⟩ with
  | .ok c => c
  | .error _ => ⟨⟨⟨0, []⟩, ∅, ∅, ∅⟩, (construct ⟨0, []⟩).2⟩

theorem init_smallPages : init intKey ⟨64, []⟩ ⟨40, []⟩ = .ok smallPages := by
  rfl

/-- Inserts of the keys 1, 2 and 3. -/
def threeInserts : List Call :=
  [.insertRecord [1, 0, 0, 0, 0, 0, 0, 0], .insertRecord [2, 0, 0, 0, 0, 0, 0, 0],
    .insertRecord [3, 0, 0, 0]]

theorem consistent_always_two_keys : Always (Consistent intKey) (act intKey) smallPages
    [.insertRecord [1, 0, 0, 0], .removeRecord (.int 1) ⟨0, 0⟩, .insertRecord [2, 0, 0, 0]] := by
  refine consistent_always init_smallPages _ ⟨?_, trivial, ?_, trivial⟩
  · intro key rid file hkey hrun
    obtain rfl : Value.int 1 = key := Except.ok.inj hkey
    have hrid : (SequentialFile.insert intKey [1, 0, 0, 0] smallPages.dataFile).1 =
        .ok ⟨0, 0⟩ := by
      decide +kernel
    rw [hrun] at hrid
    cases hrid
    decide +kernel
  · intro key rid file hkey hrun
    obtain rfl : Value.int 2 = key := Except.ok.inj hkey
    have hrid : (SequentialFile.insert intKey [2, 0, 0, 0] (exec (act intKey) smallPages
        [.insertRecord [1, 0, 0, 0], .removeRecord (.int 1) ⟨0, 0⟩]).dataFile).1 =
        .ok ⟨0, 1⟩ := by
      decide +kernel
    rw [exec, List.foldl_cons, List.foldl_cons, List.foldl_nil, hrun] at hrid
    cases hrid
    decide +kernel

/-- The third insert takes its record back and leaves its entry, so that a search meets a
stale RID. -/
theorem insert_record_not_consistent : init intKey ⟨64, []⟩ ⟨40, []⟩ = .ok smallPages ∧
    (searchRecords (.int 3) (exec (act intKey) smallPages threeInserts)).1 =
      .error (.ValueError "clustered B+ contains stale RID RID(page_id=0, slot=2)") ∧
    ¬ Always (Consistent intKey) (act intKey) smallPages threeInserts := by
  have hrun : (searchRecords (.int 3) (exec (act intKey) smallPages threeInserts)).1 =
      .error (.ValueError "clustered B+ contains stale RID RID(page_id=0, slot=2)") := by
    decide +kernel
  refine ⟨init_smallPages, hrun, ?_⟩
  intro halways
  rcases halways.last.searched (.int 3) with ⟨found, hfound, _⟩ | ⟨e, he, hsearch, _⟩
  · rw [hrun] at hfound
    cases hfound
  · have hok : (exec (act intKey) smallPages threeInserts).tree.search (.int 3) =
        .ok [⟨0, 2⟩] := by
      decide +kernel
    rw [hok] at hsearch
    cases hsearch

end Runs

end ClusteredBPlusTree
end SoupDB
