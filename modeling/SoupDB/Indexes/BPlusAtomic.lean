import SoupDB.Indexes.BPlusRun

/-!
# SoupDB: inserts into a B+ tree that raise

Whatever happened to a tree before, its file represents a tree and a chain of leaves
that holds the leaves of the tree (`Reachable.linked`): an insert that raises either has
written nothing, or it has split a leaf whose new half the parents do not take in.  In
the second case the new entry is in the chain although the insert raised.

`insert_atomic_iff` says that an insert is atomic exactly when it does not strand a leaf.
-/

namespace SoupDB.BPlusTree

open BPlusPage Effect

/-! ## Reachable trees -/

/-- The trees that calls on a new tree lead to, whether the calls return or raise. -/
inductive Reachable : BPlusTree → Prop
  | construct (disk : DiskManager) : disk.pageCount = 0 → (construct disk).1 = .ok () →
      Reachable (construct disk).2
  | perform {t : BPlusTree} (op : Op) : Reachable t → Reachable (perform op t).2
  | close {t : BPlusTree} : Reachable t → Reachable (close t).2

/-! ## What an insert does to the chain -/

section Insert

variable {t t' : BPlusTree} {T : Tree} {chain : List Int} {key : Value} {rid : RID}
  {fs : List Frame} {p : Int} {leaf : LeafNode} {entries : List Entry}

theorem Target.linked_of_split {left right : LeafNode} {sep : Value} {T' : Tree}
    (htarget : Target t T key rid fs p leaf entries) (h : Linked t T chain)
    (hfirst : t'.firstLeafPageId = t.firstLeafPageId)
    (hentries : SplitEntries t leaf entries left right sep)
    (hsplit : SplitLeaf t.disk t'.disk p t.disk.pageCount left right) (hshape : Shape t' T')
    (hleaves : ∀ q, .inr q ∈ T'.items → q ∈ chain ∨ q = t.disk.pageCount) :
    ∃ chain', Linked t' T' chain' ∧
      (entriesOf t'.disk chain').Perm ((key, rid) :: entriesOf t.disk chain) := by
  have hitems := htarget.frames.items_leaf htarget.shape
  have hp : p ∈ chain := h.leaves p (by rw [hitems]; simp)
  obtain ⟨before, after, rfl⟩ := List.append_of_mem hp
  obtain ⟨hlinked, hcontents⟩ :=
    h.of_split htarget.isLeaf rfl hfirst hentries hsplit hshape hleaves
  refine ⟨_, hlinked, ?_⟩
  rw [hcontents, entriesOf_append, entriesOf_cons, htarget.isLeaf.entriesAt]
  have hswap : (entries ++ entriesOf t.disk after).Perm
      ((key, rid) :: (leaf.entries ++ entriesOf t.disk after)) := by
    rw [← List.cons_append]
    exact ((sortEntries_ok htarget.sorted).1.trans List.perm_append_comm).append_right _
  rw [List.append_assoc]
  exact (hswap.append_left _).trans List.perm_middle

theorem LeafWritten.linked (hwritten : LeafWritten t p leaf entries t') (h : Linked t T chain)
    (htarget : Target t T key rid fs p leaf entries) : Linked t' T chain := by
  obtain ⟨page, disk, henc, hwrite, rfl⟩ := hwritten
  exact (h.of_write_leaf htarget.isLeaf henc hwrite).1

theorem LeafEntered.linked (hentered : LeafEntered t fs p leaf entries t')
    (h : Linked t T chain) (htarget : Target t T key rid fs p leaf entries) :
    ∃ T' chain', Linked t' T' chain' := by
  obtain ⟨_, hfirst, _, left, right, sep, T', hentries, hsplit, hshape, hitems', _⟩ := hentered
  have hitems := htarget.frames.items_leaf htarget.shape
  obtain ⟨chain', hlinked, _⟩ := htarget.linked_of_split h hfirst hentries hsplit hshape (by
    intro q hq
    rw [hitems'] at hq
    by_cases heq : q = t.disk.pageCount
    · exact Or.inr heq
    · refine Or.inl (h.leaves q ?_)
      rw [hitems]
      simp only [List.mem_append, List.mem_cons, Sum.inr.injEq, reduceCtorEq, heq,
        List.not_mem_nil, or_false] at hq ⊢
      tauto)
  exact ⟨T', chain', hlinked⟩

theorem LeafStranded.linked (hstranded : LeafStranded t fs p leaf entries t')
    (h : Linked t T chain) (htarget : Target t T key rid fs p leaf entries) :
    ∃ T' chain', Linked t' T' chain' ∧
      (entriesOf t'.disk chain').Perm ((key, rid) :: entriesOf t.disk chain) := by
  obtain ⟨_, hfirst, _, left, right, sep, T', hentries, hsplit, hshape, hleaves⟩ := hstranded
  obtain ⟨chain', hlinked, hperm⟩ := htarget.linked_of_split h hfirst hentries hsplit hshape (by
    intro q hq
    rcases hleaves q hq with hold | hnew
    · rw [htarget.shape] at hold
      exact Or.inl (h.leaves q hold)
    · exact Or.inr hnew)
  exact ⟨T', chain', hlinked, hperm⟩

/-- An insert keeps a tree and its chain, whether it returns or raises. -/
theorem insert_linked (h : Linked t T chain) (key : Value) (rid : RID) :
    wp (insert key rid) (fun _ t' => ∃ T' chain', Linked t' T' chain')
      (fun _ t' => ∃ T' chain', Linked t' T' chain') t := by
  refine wp_mono (insert_spec h key rid) ?_ ?_
  · rintro _ t' ⟨_, _, _, fs, p, leaf, entries, htarget, hwritten | hentered⟩
    · exact ⟨T, chain, hwritten.linked h htarget⟩
    · exact hentered.linked h htarget
  · rintro _ t' ⟨_, ⟨_, rfl⟩ | ⟨_, fs, p, leaf, entries, htarget, hstranded⟩⟩
    · exact ⟨T, chain, h⟩
    · obtain ⟨T', chain', hlinked, _⟩ := hstranded.linked h htarget
      exact ⟨T', chain', hlinked⟩

end Insert

/-! ## Every reachable tree is linked -/

variable {t : BPlusTree} {chain : List Int}

theorem perform_linked {T : Tree} (h : Linked t T chain) (op : Op) :
    ∃ T' chain', Linked (perform op t).2 T' chain' := by
  cases op with
  | insert key rid =>
      have hspec := insert_linked h key rid
      rcases hrun : insert key rid t with ⟨e | _, t'⟩
      · simpa only [perform, run_bind, hrun] using wp_error hspec hrun
      · simpa only [perform, run_bind, hrun, run_pure] using wp_ok hspec hrun
  | search key =>
      refine ⟨T, chain, ?_⟩
      cases hfound : t.search key <;> simpa [perform, run_bind, hfound] using h
  | rangeSearch lo hi =>
      refine ⟨T, chain, ?_⟩
      cases hfound : t.rangeSearch lo hi <;> simpa [perform, run_bind, hfound] using h
  | remove key rid =>
      refine ⟨T, chain, ?_⟩
      have hspec := @remove_linked key rid _ _ _ h
      rcases hrun : remove key rid t with ⟨e | _, t'⟩
      · simpa only [perform, run_bind, hrun] using wp_error hspec hrun
      · simpa only [perform, run_bind, hrun, run_pure] using wp_ok hspec hrun
  | reopen =>
      rw [perform_reopen h.shape]
      exact ⟨T, chain, h.with_closed false⟩

theorem Reachable.linked (h : Reachable t) : ∃ T chain, Linked t T chain := by
  induction h with
  | construct disk hempty hok =>
      obtain ⟨root, hfresh⟩ := construct_empty hempty hok
      exact ⟨_, _, hfresh.linked⟩
  | perform op _ ih =>
      obtain ⟨T, chain, hlinked⟩ := ih
      exact perform_linked hlinked op
  | close _ ih =>
      obtain ⟨T, chain, hlinked⟩ := ih
      exact ⟨T, chain, hlinked.with_closed true⟩

/-! ## Atomicity -/

/-- The entries of the leaf chain from a page on. -/
def scanFrom (t : BPlusTree) : Nat → Option Int → Except PyError (List Entry)
  | _, none => .ok []
  | 0, some _ => .error .NonTermination
  | rounds + 1, some pageId => do
      let leaf ← t.readLeaf pageId
      let rest ← scanFrom t rounds leaf.nextLeafPageId
      .ok (leaf.entries ++ rest)

/-- The entries of the whole leaf chain, which the searches and range scans walk. -/
def scan (t : BPlusTree) : Except PyError (List Entry) :=
  t.scanFrom t.rounds (some t.firstLeafPageId)

theorem scanFrom_ok {t : BPlusTree} : ∀ {ps : List Int} {next : Option Int} {rounds : Nat},
    Path t.disk next ps none → ps.length ≤ rounds →
      t.scanFrom rounds next = .ok (entriesOf t.disk ps)
  | [], next, rounds, hpath, _ => by
      cases hpath
      cases rounds <;> rfl
  | p :: ps, next, rounds, ⟨hnext, node, hl, hrest⟩, hrounds => by
      obtain ⟨rounds, rfl⟩ : ∃ n, rounds = n + 1 := ⟨rounds - 1, by simp at hrounds; omega⟩
      subst hnext
      have ih := scanFrom_ok hrest (Nat.le_of_succ_le_succ hrounds)
      rw [scanFrom, hl.readLeaf, ok_bind, ih, ok_bind, entriesOf_cons, hl.entriesAt]

theorem Linked.scan {T : Tree} (h : Linked t T chain) : t.scan = .ok (entriesOf t.disk chain) :=
  scanFrom_ok h.path h.length_chain.le

/-- As if a call had not been made: the same entries, the same tree (its separators,
parent pointers and leaf chain), and the same answers to all later calls. -/
structure Unchanged (t t' : BPlusTree) : Prop where
  entries : ∃ es es', t.scan = .ok es ∧ t'.scan = .ok es' ∧ es'.Perm es
  tree : ∀ T chain, Linked t' T chain ↔ Linked t T chain
  answers : ∀ ops, trace ops t' = trace ops t

/-- An insert that raises is as if it had not been called. -/
def InsertAtomic (t : BPlusTree) (key : Value) (rid : RID) : Prop :=
  ∀ e t', insert key rid t = (.error e, t') → Unchanged t t'

theorem insert_of_strandsLeaf {T : Tree} {key : Value} {rid : RID} (h : Linked t T chain)
    (hstrands : strandsLeaf t key rid = true) :
    ∃ e t' es, insert key rid t = (.error e, t') ∧ t'.scan = .ok es ∧
      es.Perm ((key, rid) :: entriesOf t.disk chain) := by
  have hspec := insert_spec h key rid
  rcases hrun : insert key rid t with ⟨e | _, t'⟩
  · rcases (wp_error hspec hrun).2 with ⟨hnot, _⟩ | ⟨_, fs, p, leaf, entries, htarget, hstranded⟩
    · rw [hstrands] at hnot
      cases hnot
    · obtain ⟨T', chain', hlinked, hperm⟩ := hstranded.linked h htarget
      exact ⟨e, t', _, rfl, hlinked.scan, hperm⟩
  · obtain ⟨_, _, hnot, _⟩ := wp_ok hspec hrun
    rw [hstrands] at hnot
    cases hnot

/-- An insert into a reachable tree is atomic exactly when it strands no leaf. -/
theorem insert_atomic_iff (h : Reachable t) (key : Value) (rid : RID) :
    InsertAtomic t key rid ↔ strandsLeaf t key rid = false := by
  obtain ⟨T, chain, hlinked⟩ := h.linked
  constructor
  · intro hatomic
    by_contra hnot
    have hstrands : strandsLeaf t key rid = true := by simpa using hnot
    obtain ⟨e, t', es', hrun, hscan, hperm⟩ := insert_of_strandsLeaf hlinked hstrands
    obtain ⟨es, es'', hes, hes'', hsame⟩ := (hatomic e t' hrun).entries
    rw [hlinked.scan, Except.ok.injEq] at hes
    rw [hscan, Except.ok.injEq] at hes''
    subst hes hes''
    have hlength := (hperm.symm.trans hsame).length_eq
    rw [List.length_cons] at hlength
    omega
  · intro hstrands e t' hrun
    have hspec := insert_spec hlinked key rid
    rcases (wp_error hspec hrun).2 with ⟨_, rfl⟩ | ⟨hyes, _⟩
    · exact ⟨⟨_, _, hlinked.scan, hlinked.scan, List.Perm.refl _⟩, fun _ _ => Iff.rfl,
        fun _ => rfl⟩
    · rw [hstrands] at hyes
      cases hyes

/-- Two integer keys on pages of 40 bytes, which hold one entry or one separator. -/
def twoKeys : BPlusTree :=
  (perform (.insert (.int 2) ⟨0, 1⟩)
    (perform (.insert (.int 1) ⟨0, 0⟩) (construct { pageSize := 40, pages := [] }).2).2).2

theorem reachable_twoKeys : Reachable twoKeys :=
  .perform _ (.perform _ (.construct _ rfl (by decide +kernel)))

theorem insert_atomic_iff_twoKeys :
    InsertAtomic twoKeys (.int 3) ⟨0, 2⟩ ↔ strandsLeaf twoKeys (.int 3) ⟨0, 2⟩ = false :=
  insert_atomic_iff reachable_twoKeys (.int 3) ⟨0, 2⟩

/-- The third insert raises, and a search finds its entry afterwards. -/
theorem insert_not_atomic : Reachable twoKeys ∧
    (insert (.int 3) ⟨0, 2⟩ twoKeys).1 =
      .error (.ValueError "B+ internal node cannot be split into valid pages") ∧
    twoKeys.search (.int 3) = .ok [] ∧
    (insert (.int 3) ⟨0, 2⟩ twoKeys).2.search (.int 3) = .ok [⟨0, 2⟩] ∧
    ¬ ∀ t, Reachable t → ∀ key rid, InsertAtomic t key rid := by
  have hrun : (insert (.int 3) ⟨0, 2⟩ twoKeys).1 =
      .error (.ValueError "B+ internal node cannot be split into valid pages") := by
    decide +kernel
  have hbefore : twoKeys.search (.int 3) = .ok [] := by decide +kernel
  have hafter : (insert (.int 3) ⟨0, 2⟩ twoKeys).2.search (.int 3) = .ok [⟨0, 2⟩] := by
    decide +kernel
  refine ⟨reachable_twoKeys, hrun, hbefore, hafter, ?_⟩
  intro hall
  have hunchanged := hall twoKeys reachable_twoKeys (.int 3) ⟨0, 2⟩ _ _ (Prod.ext hrun rfl)
  have hsame : trace [.search (.int 3)] (insert (.int 3) ⟨0, 2⟩ twoKeys).2 =
      trace [.search (.int 3)] twoKeys := hunchanged.answers _
  simp [trace, perform, run_bind, hbefore, hafter] at hsame

end SoupDB.BPlusTree
