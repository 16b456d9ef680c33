import SoupDB.Indexes.BPlusLeaf

/-!
# SoupDB: scans of the leaf chain of a B+ tree

`search`, `rangeSearch` and `remove` walk the chain from a leaf on.  Over entries whose
keys are ascending and can be compared with the arguments, what they find or remove on
the walk is a filter of the entries (`searchFrom_ok`, `rangeFrom_ok`,
`removeFrom_spec`).  On any file, a removal keeps the tree and its chain
(`remove_linked`).
-/

namespace SoupDB.BPlusTree

open BPlusPage Effect List

def entryKeys (entries : List Entry) : List Value := entries.map Prod.fst

@[simp] theorem entryKeys_append (as bs : List Entry) :
    entryKeys (as ++ bs) = entryKeys as ++ entryKeys bs := by
  simp [entryKeys]

@[simp] theorem entryKeys_cons (e : Entry) (es : List Entry) :
    entryKeys (e :: es) = e.1 :: entryKeys es := rfl

@[simp] theorem entriesOf_append (d : DiskManager) (as bs : List Int) :
    entriesOf d (as ++ bs) = entriesOf d as ++ entriesOf d bs := by
  simp [entriesOf]

theorem entriesOf_cons (d : DiskManager) (p : Int) (ps : List Int) :
    entriesOf d (p :: ps) = entriesAt d p ++ entriesOf d ps := by
  simp [entriesOf]

variable {e : Entry} {es : List Entry}

theorem mem_entryKeys {entries : List Entry} (h : e ∈ entries) : e.1 ∈ entryKeys entries :=
  mem_map.mpr ⟨e, h, rfl⟩

theorem Ascending.head_le (h : Ascending (entryKeys (e :: es))) :
    ∀ e' ∈ es, e.1.ord ≤ e'.1.ord := by
  intro e' he'
  exact (pairwise_cons.mp h).1 e'.1 (mem_entryKeys he')

theorem Ascending.tail (h : Ascending (entryKeys (e :: es))) : Ascending (entryKeys es) :=
  (pairwise_cons.mp h).2

/-! ## Sorting -/

instance : IsTrans Entry entryLE := ⟨fun _ _ _ hab hbc => le_trans hab hbc⟩

instance : Std.Total entryLE := ⟨fun _ _ => le_total _ _⟩

theorem sortEntries_ok {entries : List Entry} (h : sortEntries es = .ok entries) :
    entries.Perm es ∧ Ascending (entryKeys entries) := by
  refine ⟨sortEntries_perm h, ?_⟩
  unfold sortEntries at h
  split at h
  · obtain rfl := Except.ok.inj h
    unfold Ascending entryKeys
    rw [pairwise_map]
    refine (pairwise_insertionSort entryLE es).imp (fun {a b} hab => ?_)
    rcases Prod.Lex.le_iff.mp hab with hlt | ⟨heq, _⟩
    · exact hlt.le
    · exact heq.le
  · cases h

/-! ## Range searching -/

/-- `lo <= key <= hi`, on keys that can be compared. -/
def inRange (lo hi key : Value) : Bool := decide (lo.ord ≤ key.ord ∧ key.ord ≤ hi.ord)

section Range

variable {lo hi : Value}

theorem filter_range_eq_nil {es : List Entry} (h : ∀ e ∈ es, hi.ord < e.1.ord) :
    es.filter (fun e => inRange lo hi e.1) = [] := by
  rw [filter_eq_nil_iff]
  intro e he hin
  exact absurd (of_decide_eq_true hin).2 (not_le.mpr (h e he))

theorem rangeEntries_ok : ∀ {es : List Entry}, Ascending (entryKeys es) →
    (∀ e ∈ es, Value.Comparable e.1 lo ∧ Value.Comparable e.1 hi) →
    ∃ done, rangeEntries lo hi es =
        .ok ((es.filter (fun e => inRange lo hi e.1)).map Prod.snd, done) ∧
      (done = true → ∃ e ∈ es, hi.ord < e.1.ord)
  | [], _, _ => ⟨false, rfl, by simp⟩
  | (k, rid) :: es, hasc, hcomp => by
      obtain ⟨hklo, hkhi⟩ := hcomp (k, rid) (by simp)
      obtain ⟨done, hrest, hdone⟩ := rangeEntries_ok hasc.tail
        (fun e he => hcomp e (mem_cons_of_mem _ he))
      unfold rangeEntries
      rw [Value.lt_of_comparable hklo, ok_bind]
      by_cases hlt : k.ord < lo.ord
      · have hout : inRange lo hi k = false :=
          decide_eq_false (fun h => absurd h.1 (not_le.mpr hlt))
        refine ⟨done, ?_, fun hd => ?_⟩
        · simp only [hlt, decide_true, if_true, hrest, filter_cons, hout,
            Bool.false_eq_true, if_false]
        · obtain ⟨e, he, hgt⟩ := hdone hd
          exact ⟨e, mem_cons_of_mem _ he, hgt⟩
      · rw [Value.lt_of_comparable hkhi.symm, ok_bind]
        by_cases hgt : hi.ord < k.ord
        · have hnil : ((k, rid) :: es).filter (fun e => inRange lo hi e.1) = [] := by
            refine filter_range_eq_nil ?_
            intro e he
            rcases mem_cons.mp he with rfl | he
            · exact hgt
            · exact hgt.trans_le (hasc.head_le e he)
          refine ⟨true, ?_, fun _ => ⟨(k, rid), by simp, hgt⟩⟩
          rw [hnil]
          simp only [hlt, decide_false, Bool.false_eq_true, if_false, hgt, decide_true, if_true,
            map_nil]
        · have hin : inRange lo hi k = true := decide_eq_true ⟨not_lt.mp hlt, not_lt.mp hgt⟩
          refine ⟨done, ?_, fun hd => ?_⟩
          · simp only [hlt, hgt, decide_false, Bool.false_eq_true, if_false, hrest, ok_bind,
              filter_cons, hin, if_true, map_cons]
          · obtain ⟨e, he, hgt⟩ := hdone hd
            exact ⟨e, mem_cons_of_mem _ he, hgt⟩

/-- What a range search finds on a walk along the chain. -/
theorem rangeFrom_ok {t : BPlusTree} : ∀ {ps : List Int} {next : Option Int} {rounds : Nat},
    Path t.disk next ps none → ps.length ≤ rounds → Ascending (entryKeys (entriesOf t.disk ps)) →
    (∀ e ∈ entriesOf t.disk ps, Value.Comparable e.1 lo ∧ Value.Comparable e.1 hi) →
    t.rangeFrom lo hi rounds next =
      .ok (((entriesOf t.disk ps).filter (fun e => inRange lo hi e.1)).map Prod.snd)
  | [], next, rounds, hpath, _, _, _ => by
      cases hpath
      cases rounds <;> rfl
  | p :: ps, next, rounds, ⟨hnext, node, hl, hrest⟩, hrounds, hasc, hcomp => by
      obtain ⟨rounds, rfl⟩ : ∃ n, rounds = n + 1 := ⟨rounds - 1, by simp at hrounds; omega⟩
      subst hnext
      rw [entriesOf_cons, hl.entriesAt] at hasc hcomp ⊢
      rw [entryKeys_append] at hasc
      obtain ⟨hasc1, hasc2, hcross⟩ := pairwise_append.mp hasc
      obtain ⟨done, hscan, hdone⟩ := rangeEntries_ok hasc1
        (fun e he => hcomp e (mem_append_left _ he))
      unfold rangeFrom
      rw [hl.readLeaf, ok_bind, hscan, ok_bind, filter_append, map_append]
      cases done with
      | true =>
          obtain ⟨e, he, hgt⟩ := hdone rfl
          have hnil : (entriesOf t.disk ps).filter (fun e => inRange lo hi e.1) = [] :=
            filter_range_eq_nil (fun e' he' =>
              hgt.trans_le (hcross _ (mem_entryKeys he) _ (mem_entryKeys he')))
          simp [hnil]
      | false =>
          have ih := @rangeFrom_ok t ps _ rounds hrest (by simp at hrounds; omega) hasc2
            (fun e he => hcomp e (mem_append_right _ he))
          simp only [Bool.false_eq_true, if_false, ih, ok_bind]

end Range

/-! ## Searching -/

section Search

variable {key : Value}

theorem searchEntries_eq : ∀ {es : List Entry}, (∀ e ∈ es, Value.Comparable e.1 key) →
    searchEntries key es = rangeEntries key key es
  | [], _ => rfl
  | (k, rid) :: es, hcomp => by
      have hk : Value.Comparable k key := hcomp (k, rid) (by simp)
      have ih := searchEntries_eq (fun e he => hcomp e (mem_cons_of_mem _ he))
      unfold searchEntries rangeEntries
      rw [Value.lt_of_comparable hk, Value.lt_of_comparable hk.symm, ok_bind, ok_bind, ih]
      by_cases hlt : k.ord < key.ord
      · simp only [hlt, decide_true, if_true]
      · simp only [hlt, decide_false, Bool.false_eq_true, if_false]
        by_cases heq : k.eq key = true
        · have hord := hk.eq_iff.mp heq
          simp only [heq, hord, lt_irrefl, decide_false, ok_bind, Bool.false_eq_true, if_true,
            if_false]
        · have hgt : key.ord < k.ord :=
            lt_of_le_of_ne (not_lt.mp hlt) (fun h => heq (hk.eq_iff.mpr h.symm))
          simp only [heq, hgt, decide_true, ok_bind, Bool.false_eq_true, if_true, if_false]

/-- Among keys that can be compared, a search is the search of a range of one key. -/
theorem searchFrom_eq {t : BPlusTree} : ∀ {ps : List Int} {next : Option Int} {rounds : Nat},
    Path t.disk next ps none → (∀ e ∈ entriesOf t.disk ps, Value.Comparable e.1 key) →
    t.searchFrom key rounds next = t.rangeFrom key key rounds next
  | [], next, rounds, hpath, _ => by
      cases hpath
      cases rounds <;> rfl
  | p :: ps, next, 0, ⟨hnext, _⟩, _ => by
      subst hnext
      rfl
  | p :: ps, next, rounds + 1, ⟨hnext, node, hl, hrest⟩, hcomp => by
      subst hnext
      rw [entriesOf_cons, hl.entriesAt] at hcomp
      have ih := @searchFrom_eq t ps _ rounds hrest
        (fun e he => hcomp e (mem_append_right _ he))
      unfold searchFrom rangeFrom
      rw [hl.readLeaf, ok_bind, ok_bind, ih,
        searchEntries_eq (fun e he => hcomp e (mem_append_left _ he))]

theorem searchFrom_ok {t : BPlusTree} {ps : List Int} {next : Option Int} {rounds : Nat}
    (hpath : Path t.disk next ps none) (hrounds : ps.length ≤ rounds)
    (hasc : Ascending (entryKeys (entriesOf t.disk ps)))
    (hcomp : ∀ e ∈ entriesOf t.disk ps, Value.Comparable e.1 key) :
    t.searchFrom key rounds next =
      .ok (((entriesOf t.disk ps).filter (fun e => e.1.eq key)).map Prod.snd) := by
  have hkeys : ∀ e ∈ entriesOf t.disk ps, inRange key key e.1 = e.1.eq key := by
    intro e he
    rw [inRange, Bool.eq_iff_iff, decide_eq_true_iff, (hcomp e he).eq_iff]
    exact ⟨fun h => le_antisymm h.2 h.1, fun h => ⟨h.ge, h.le⟩⟩
  rw [searchFrom_eq hpath hcomp,
    rangeFrom_ok hpath hrounds hasc (fun e he => ⟨hcomp e he, hcomp e he⟩),
    filter_congr hkeys]

end Search

/-! ## Removing -/

/-- The entries that stay and the number removed, when nothing raises. -/
def removeList (key : Value) (rid : Option RID) : List Entry → Nat → List Entry × Nat
  | [], removed => ([], removed)
  | entry :: entries, removed =>
      if shouldRemove key rid removed entry then removeList key rid entries (removed + 1)
      else
        (entry :: (removeList key rid entries removed).1, (removeList key rid entries removed).2)

section Remove

variable {key : Value} {rid : Option RID}

theorem removeList_append : ∀ (as bs : List Entry) (n : Nat),
    removeList key rid (as ++ bs) n =
      ((removeList key rid as n).1 ++ (removeList key rid bs (removeList key rid as n).2).1,
        (removeList key rid bs (removeList key rid as n).2).2)
  | [], bs, n => rfl
  | a :: as, bs, n => by
      rw [cons_append, removeList, removeList]
      split
      · exact removeList_append as bs (n + 1)
      · simp only [removeList_append as bs n, cons_append]

theorem removeList_sublist : ∀ (es : List Entry) (n : Nat), (removeList key rid es n).1.Sublist es
  | [], _ => List.Sublist.refl _
  | e :: es, n => by
      rw [removeList]
      split
      · exact (removeList_sublist es (n + 1)).cons e
      · exact (removeList_sublist es n).cons_cons e

theorem removeList_le : ∀ (es : List Entry) (n : Nat), n ≤ (removeList key rid es n).2
  | [], _ => le_rfl
  | e :: es, n => by
      rw [removeList]
      split
      · have h := removeList_le es (n + 1)
        omega
      · exact removeList_le es n

theorem removeList_eq_self : ∀ {es : List Entry} {n : Nat},
    (∀ e ∈ es, shouldRemove key rid n e = false) → removeList key rid es n = (es, n)
  | [], _, _ => rfl
  | e :: es, n, h => by
      rw [removeList, h e (by simp), if_neg (by simp),
        removeList_eq_self (fun e' he' => h e' (mem_cons_of_mem _ he'))]

theorem removeList_of_count : ∀ {es : List Entry} {n : Nat},
    (removeList key rid es n).2 = n → (removeList key rid es n).1 = es
  | [], _, _ => rfl
  | e :: es, n, h => by
      rw [removeList] at h ⊢
      split at h
      · have hle := @removeList_le key rid es (n + 1)
        omega
      · next hkeep =>
          rw [if_neg hkeep]
          simp only [removeList_of_count h]

theorem removeEntries_ok : ∀ {es : List Entry} {n : Nat},
    (∀ e ∈ es, Value.Comparable e.1 key) →
    ∃ changed passedKey, removeEntries key rid es n =
        .ok ((removeList key rid es n).1, (removeList key rid es n).2, changed, passedKey) ∧
      (changed = true ↔ (removeList key rid es n).2 ≠ n) ∧
      (passedKey = true → ∃ e ∈ es, key.ord < e.1.ord)
  | [], n, _ => ⟨false, false, rfl, by simp [removeList], by simp⟩
  | e :: es, n, hcomp => by
      have hk := hcomp e (by simp)
      have hcomp' : ∀ e' ∈ es, Value.Comparable e'.1 key :=
        fun e' he' => hcomp e' (mem_cons_of_mem _ he')
      unfold removeEntries
      rw [Value.lt_of_comparable hk.symm, ok_bind]
      by_cases hrem : shouldRemove key rid n e = true
      · obtain ⟨changed, passed, hrest, _, hpassed⟩ := @removeEntries_ok es (n + 1) hcomp'
        refine ⟨true, decide (key.ord < e.1.ord) || passed, ?_, ?_, ?_⟩
        · simp only [hrem, if_true, hrest, ok_bind, removeList]
        · have hle := @removeList_le key rid es (n + 1)
          rw [removeList, if_pos hrem]
          simp only [true_iff]
          omega
        · intro h
          rw [Bool.or_eq_true, decide_eq_true_eq] at h
          rcases h with h | h
          · exact ⟨e, by simp, h⟩
          · obtain ⟨e', he', hgt⟩ := hpassed h
            exact ⟨e', mem_cons_of_mem _ he', hgt⟩
      · obtain ⟨changed, passed, hrest, hchanged, hpassed⟩ := @removeEntries_ok es n hcomp'
        refine ⟨changed, decide (key.ord < e.1.ord) || passed, ?_, ?_, ?_⟩
        · simp only [hrem, Bool.false_eq_true, if_false, hrest, ok_bind, removeList]
        · rw [removeList, if_neg hrem]
          exact hchanged
        · intro h
          rw [Bool.or_eq_true, decide_eq_true_eq] at h
          rcases h with h | h
          · exact ⟨e, by simp, h⟩
          · obtain ⟨e', he', hgt⟩ := hpassed h
            exact ⟨e', mem_cons_of_mem _ he', hgt⟩

theorem removeEntries_sublist : ∀ {es remaining : List Entry} {n removed : Nat}
    {changed passed : Bool},
    removeEntries key rid es n = .ok (remaining, removed, changed, passed) → remaining.Sublist es
  | [], _, _, _, _, _, h => by
      simp only [removeEntries, Except.ok.injEq, Prod.mk.injEq] at h
      rw [← h.1]
  | e :: es, remaining, n, removed, changed, passed, h => by
      rw [removeEntries] at h
      simp only [bind_eq_ok] at h
      obtain ⟨passed', _, h⟩ := h
      split at h
      · obtain ⟨⟨remaining', removed', changed', passed''⟩, hrest, h⟩ := bind_eq_ok.mp h
        simp only [Except.ok.injEq, Prod.mk.injEq] at h
        rw [← h.1]
        exact (removeEntries_sublist hrest).cons e
      · obtain ⟨⟨remaining', removed', changed', passed''⟩, hrest, h⟩ := bind_eq_ok.mp h
        simp only [Except.ok.injEq, Prod.mk.injEq] at h
        rw [← h.1]
        exact (removeEntries_sublist hrest).cons_cons e

/-- The tree and its chain are there, and no leaf has a new entry. -/
structure Shrunk (t : BPlusTree) (T : Tree) (chain : List Int) (t' : BPlusTree) : Prop where
  linked : Linked t' T chain
  closed : t'.closed = t.closed
  pageCount : t'.disk.pageCount = t.disk.pageCount
  entries : ∀ p ∈ chain, (entriesAt t'.disk p).Sublist (entriesAt t.disk p)

namespace Shrunk

variable {t t' t'' : BPlusTree} {T : Tree} {chain : List Int}

theorem refl (h : Linked t T chain) : Shrunk t T chain t :=
  ⟨h, rfl, rfl, fun _ _ => List.Sublist.refl _⟩

theorem trans (h : Shrunk t T chain t') (h' : Shrunk t' T chain t'') : Shrunk t T chain t'' :=
  ⟨h'.linked, h'.closed.trans h.closed, h'.pageCount.trans h.pageCount,
    fun p hp => (h'.entries p hp).trans (h.entries p hp)⟩

theorem of_write_leaf {p : Int} {leaf : LeafNode} {remaining : List Entry} {page : Bytes}
    {disk : DiskManager} (h : Linked t T chain) (hl : IsLeaf t.disk p leaf)
    (hsub : remaining.Sublist leaf.entries)
    (henc : encodeLeaf t.pageSize { leaf with entries := remaining } = .ok page)
    (hw : t.disk.writePage p page = .ok disk) : Shrunk t T chain { t with disk } := by
  obtain ⟨hlinked, hhere, hother⟩ := h.of_write_leaf hl henc hw
  refine ⟨hlinked, rfl, DiskManager.page_count_write_page hw, ?_⟩
  intro q hq
  by_cases hqp : q = p
  · subst hqp
    rw [hl.entriesAt]
    exact hhere.symm ▸ hsub
  · rw [hother q hq hqp]

end Shrunk

variable {chain : List Int}

theorem find_mem_chain {t : BPlusTree} {T : Tree} {leftBias : Bool} {p : Int} (h : Linked t T chain)
    (hfind : t.findLeafPageId key leftBias = .ok p) : p ∈ chain := by
  have hroot : t.findLeafFrom key leftBias t.rounds T.pid = .ok p := by
    rw [h.shape.root]
    exact hfind
  obtain ⟨fs, hframes, _, hplug, _⟩ :=
    @findLeafFrom_ok t key leftBias _ _ [] p trivial h.shape.rep hroot
  refine h.leaves p ?_
  have hitems : T.items = itemsBefore fs ++ .inr p :: itemsAfter fs :=
    hframes.items_leaf hplug
  rw [hitems]
  simp

/-- On any file a removal, also one that raises, keeps the tree and its chain. -/
theorem removeFrom_shrunk {T : Tree} : ∀ {rounds : Nat} {t : BPlusTree}
    {next : Option Int} {n : Nat}, Linked t T chain → (∀ p, next = some p → p ∈ chain) →
      wp (removeFrom key rid rounds next n) (fun _ t' => Shrunk t T chain t')
        (fun _ t' => Shrunk t T chain t') t := by
  intro rounds
  induction rounds with
  | zero =>
      intro t next n h hnext
      cases next with
      | none => exact Shrunk.refl h
      | some p => exact Shrunk.refl h
  | succ rounds ih =>
      intro t next n h hnext
      cases next with
      | none => exact Shrunk.refl h
      | some p =>
          have hp := hnext p rfl
          obtain ⟨leaf, hl⟩ := h.path.mem_leaf p hp
          have hgo : ∀ q, leaf.nextLeafPageId = some q → q ∈ chain :=
            h.path.next_mem p hp leaf hl
          unfold removeFrom
          simp only [wp_bind, wp_get, hl.readLeaf, wp_lift_ok]
          cases hscan : removeEntries key rid leaf.entries n with
          | error e => exact Shrunk.refl h
          | ok scan =>
              obtain ⟨remaining, removed, changed, passed⟩ := scan
              simp only [wp_lift_ok]
              cases changed with
              | false =>
                  cases passed with
                  | true => exact Shrunk.refl h
                  | false => exact ih h hgo
              | true =>
                  simp only [if_true, wp_bind]
                  cases henc : encodeLeaf t.pageSize { leaf with entries := remaining } with
                  | error e => exact Shrunk.refl h
                  | ok page =>
                      refine wp_write_page hl.valid ?_
                      intro disk hw
                      have h' := Shrunk.of_write_leaf h hl (removeEntries_sublist hscan) henc hw
                      split
                      · exact h'
                      · exact wp_mono (ih h'.linked hgo) (fun _ _ hQ => h'.trans hQ)
                          (fun _ _ hE => h'.trans hE)

theorem remove_shrunk {T : Tree} {chain : List Int} {t : BPlusTree} (h : Linked t T chain) :
    wp (remove key rid) (fun _ t' => Shrunk t T chain t') (fun _ t' => Shrunk t T chain t') t := by
  unfold remove
  rw [wp_bind]
  cases hclosed : t.closed with
  | true =>
      have hraise : ensureOpen t = (.error (.RuntimeError "B+ tree is closed"), t) := by
        unfold ensureOpen
        rw [if_pos hclosed]
      exact wp_of_error hraise (Shrunk.refl h)
  | false =>
      have hopen : ensureOpen t = (.ok (), t) := by
        unfold ensureOpen
        rw [if_neg (by simp [hclosed])]
      refine wp_of_ok hopen ?_
      simp only [wp_bind, wp_get]
      cases hfind : t.findLeafPageId key true with
      | error e => exact Shrunk.refl h
      | ok p =>
          refine removeFrom_shrunk h ?_
          intro q hq
          obtain rfl := Option.some.inj hq
          exact find_mem_chain h hfind

theorem remove_linked {T : Tree} {chain : List Int} {t : BPlusTree} (h : Linked t T chain) :
    wp (remove key rid) (fun _ t' => Linked t' T chain) (fun _ t' => Linked t' T chain) t :=
  wp_mono (remove_shrunk h) (fun _ _ hQ => hQ.linked) (fun _ _ hE => hE.linked)

theorem removeFrom_spec {T : Tree} : ∀ {ps : List Int} {rounds : Nat}
    {t : BPlusTree} {next : Option Int} {n : Nat}, Linked t T chain → Path t.disk next ps none →
      ps ⊆ chain → ps.Nodup → ps.length ≤ rounds → Ascending (entryKeys (entriesOf t.disk ps)) →
      (∀ e ∈ entriesOf t.disk ps, Value.Comparable e.1 key) →
      wp (removeFrom key rid rounds next n)
        (fun m t' => Linked t' T chain ∧ t'.closed = t.closed ∧
          (∀ q ∈ chain, q ∉ ps → entriesAt t'.disk q = entriesAt t.disk q) ∧
          (∀ q ∈ chain, (entriesAt t'.disk q).Sublist (entriesAt t.disk q)) ∧
          m = (removeList key rid (entriesOf t.disk ps) n).2 ∧
          entriesOf t'.disk ps = (removeList key rid (entriesOf t.disk ps) n).1)
        (fun _ _ => False) t := by
  intro ps
  induction ps with
  | nil =>
      intro rounds t next n h hpath _ _ _ _ _
      cases hpath
      cases rounds <;>
        exact ⟨h, rfl, fun _ _ _ => rfl, fun _ _ => List.Sublist.refl _, rfl, rfl⟩
  | cons p ps ih =>
      intro rounds t next n h hpath hsub hnodup hrounds hasc hcomp
      obtain ⟨rounds, rfl⟩ : ∃ r, rounds = r + 1 := ⟨rounds - 1, by simp at hrounds; omega⟩
      obtain ⟨rfl, leaf, hl, hrest⟩ := hpath
      obtain ⟨hnotin, hnodup'⟩ := nodup_cons.mp hnodup
      obtain ⟨hp, hsub'⟩ := cons_subset.mp hsub
      rw [entriesOf_cons, hl.entriesAt] at hasc hcomp ⊢
      rw [entryKeys_append] at hasc
      obtain ⟨_, hasc2, hcross⟩ := pairwise_append.mp hasc
      have hcomp2 : ∀ e ∈ entriesOf t.disk ps, Value.Comparable e.1 key :=
        fun e he => hcomp e (mem_append_right _ he)
      obtain ⟨changed, passed, hscan, hchanged, hpassed⟩ :=
        @removeEntries_ok key rid leaf.entries n
          (fun e he => hcomp e (mem_append_left _ he))
      -- past the key nothing is left to remove
      have hstop : passed = true → ∀ m, removeList key rid (entriesOf t.disk ps) m
          = (entriesOf t.disk ps, m) := by
        intro hpass m
        obtain ⟨e, he, hgt⟩ := hpassed hpass
        refine removeList_eq_self (fun e' he' => ?_)
        have hne : e'.1.eq key = false := by
          rw [Bool.eq_false_iff, ne_eq, (hcomp2 e' he').eq_iff]
          exact (hgt.trans_le (hcross _ (mem_entryKeys he) _ (mem_entryKeys he'))).ne'
        simp [shouldRemove, hne]
      -- a removal of one RID stops at the first leaf it changes
      have hone : rid.isSome = true → changed = true →
          removeList key rid (entriesOf t.disk ps) (removeList key rid leaf.entries n).2
            = (entriesOf t.disk ps, (removeList key rid leaf.entries n).2) := by
        intro hsome hch
        obtain ⟨r, hr⟩ := Option.isSome_iff_exists.mp hsome
        have hle := @removeList_le key rid leaf.entries n
        have hne := hchanged.mp hch
        refine removeList_eq_self (fun e' _ => ?_)
        have hpos : ((removeList key rid leaf.entries n).2 == 0) = false := by
          rw [beq_eq_false_iff_ne]
          omega
        simp [shouldRemove, hr, hr ▸ hpos]
      rw [removeList_append]
      unfold removeFrom
      simp only [wp_bind, wp_get, hl.readLeaf, wp_lift_ok, hscan]
      cases changed with
      | true =>
          have hleaf := hl
          obtain ⟨oldPage, _, hold⟩ := hl
          obtain ⟨page, henc⟩ := encode_leaf_sublist (removeList_sublist leaf.entries n) hold
          have henc' : encodeLeaf t.pageSize
              { leaf with entries := (removeList key rid leaf.entries n).1 } = .ok page := henc
          simp only [if_true, wp_bind, henc', wp_lift_ok]
          refine wp_write_page hleaf.valid ?_
          intro disk hw
          obtain ⟨h', hhere, hother⟩ := h.of_write_leaf hleaf henc hw
          have hsublist : ∀ q ∈ chain, (entriesAt disk q).Sublist (entriesAt t.disk q) := by
            intro q hq
            by_cases hqp : q = p
            · subst hqp
              rw [hhere, hleaf.entriesAt]
              exact removeList_sublist leaf.entries n
            · rw [hother q hq hqp]
          have hsame : entriesOf disk ps = entriesOf t.disk ps := by
            refine flatMap_congr (fun q hq => hother q (hsub' hq) ?_)
            rintro rfl
            exact hnotin hq
          have hgo : Path disk leaf.nextLeafPageId ps none := by
            refine hrest.of_next (fun q hq node hnode => ⟨node, ?_, rfl⟩)
            refine (Touches.of_write_page hw).isLeaf ?_ hnode
            intro hm
            rw [mem_singleton] at hm
            subst hm
            exact hnotin hq
          by_cases hend : (rid.isSome || passed) = true
          · rw [if_pos hend]
            have hrestNil : removeList key rid (entriesOf t.disk ps)
                (removeList key rid leaf.entries n).2
                = (entriesOf t.disk ps, (removeList key rid leaf.entries n).2) := by
              rcases Bool.or_eq_true _ _ |>.mp hend with hsome | hpass
              · exact hone hsome rfl
              · exact hstop hpass _
            refine ⟨h', rfl, ?_, hsublist, ?_, ?_⟩
            · intro q hq hqm
              exact hother q hq (fun hqp => hqm (by simp [hqp]))
            · rw [hrestNil]
            · rw [hrestNil, entriesOf_cons, hhere, hsame]
          · rw [if_neg hend]
            have hrec := @ih rounds { t with disk } leaf.nextLeafPageId
              (removeList key rid leaf.entries n).2 h' hgo hsub' hnodup'
              (by simp at hrounds; omega) (by rw [hsame]; exact hasc2)
              (by rw [hsame]; exact hcomp2)
            refine wp_mono hrec ?_ (fun _ _ hE => hE)
            rintro m t' ⟨hlinked, hclosed, hkeep, hsubl, hm, hents⟩
            rw [hsame] at hm hents
            refine ⟨hlinked, hclosed, ?_, fun q hq => (hsubl q hq).trans (hsublist q hq), hm, ?_⟩
            · intro q hq hqm
              rw [mem_cons, not_or] at hqm
              rw [hkeep q hq hqm.2, hother q hq hqm.1]
            · rw [entriesOf_cons, hents, hkeep p hp hnotin, hhere]
      | false =>
          have hcount : (removeList key rid leaf.entries n).2 = n := by
            by_contra hne
            exact absurd (hchanged.mpr hne) (by simp)
          have hkept := removeList_of_count hcount
          rw [hcount, hkept]
          simp only [Bool.false_eq_true, if_false]
          by_cases hpass : passed = true
          · rw [if_pos hpass, hstop hpass n]
            refine ⟨h, rfl, fun q _ _ => rfl, fun q _ => List.Sublist.refl _, rfl, ?_⟩
            rw [entriesOf_cons, hl.entriesAt]
          · rw [if_neg hpass]
            have hrec := @ih rounds t leaf.nextLeafPageId n h hrest hsub' hnodup'
              (by simp at hrounds; omega) hasc2 hcomp2
            refine wp_mono hrec ?_ (fun _ _ hE => hE)
            rintro m t' ⟨hlinked, hclosed, hkeep, hsubl, hm, hents⟩
            refine ⟨hlinked, hclosed, ?_, hsubl, hm, ?_⟩
            · intro q hq hqm
              rw [mem_cons, not_or] at hqm
              exact hkeep q hq hqm.2
            · rw [entriesOf_cons, hents, hkeep p hp hnotin, hl.entriesAt]

end Remove

/-! ## Keys of any kind -/

section Found

variable {t : BPlusTree} {T : Tree} {chain : List Int} {key lo hi : Value}

theorem searchEntries_mem : ∀ {es : List Entry} {found : List RID} {done : Bool},
    searchEntries key es = .ok (found, done) →
    ∀ rid ∈ found, ∃ e ∈ es, e.1.eq key = true ∧ e.2 = rid := by
  intro es
  induction es with
  | nil =>
      intro found done h
      cases h
      simp
  | cons e es ih =>
      intro found done h rid hrid
      rw [searchEntries, bind_eq_ok] at h
      obtain ⟨smaller, _, h⟩ := h
      cases smaller with
      | true =>
          obtain ⟨e', he', hfound⟩ := ih h rid hrid
          exact ⟨e', mem_cons_of_mem _ he', hfound⟩
      | false =>
          simp only [Bool.false_eq_true, if_false] at h
          split at h
          · next heq =>
              rw [bind_eq_ok] at h
              obtain ⟨⟨rest, done'⟩, hrest, h⟩ := h
              cases h
              rcases mem_cons.mp hrid with rfl | hrid
              · exact ⟨e, by simp, heq, rfl⟩
              · obtain ⟨e', he', hfound⟩ := ih hrest rid hrid
                exact ⟨e', mem_cons_of_mem _ he', hfound⟩
          · cases h
            cases hrid

theorem searchFrom_mem (h : Linked t T chain) : ∀ {rounds : Nat} {next : Option Int}
    {found : List RID}, (∀ p, next = some p → p ∈ chain) →
    t.searchFrom key rounds next = .ok found →
    ∀ rid ∈ found, ∃ e ∈ entriesOf t.disk chain, e.1.eq key = true ∧ e.2 = rid := by
  intro rounds
  induction rounds with
  | zero =>
      intro next found _ hrun
      cases next with
      | none =>
          cases hrun
          simp
      | some p => cases hrun
  | succ rounds ih =>
      intro next found hnext hrun rid hrid
      cases next with
      | none =>
          cases hrun
          cases hrid
      | some p =>
          have hp := hnext p rfl
          obtain ⟨leaf, hl⟩ := h.path.mem_leaf p hp
          rw [searchFrom, hl.readLeaf, ok_bind, bind_eq_ok] at hrun
          obtain ⟨⟨here, done⟩, hscan, hrun⟩ := hrun
          have hhere : ∀ rid ∈ here, ∃ e ∈ entriesOf t.disk chain,
              e.1.eq key = true ∧ e.2 = rid := by
            intro r hr
            obtain ⟨e, he, hfound⟩ := searchEntries_mem hscan r hr
            exact ⟨e, mem_flatMap.mpr ⟨p, hp, hl.entriesAt.symm ▸ he⟩, hfound⟩
          cases done with
          | true =>
              cases hrun
              exact hhere rid hrid
          | false =>
              simp only [Bool.false_eq_true, if_false, bind_eq_ok] at hrun
              obtain ⟨rest, hrest, hrun⟩ := hrun
              cases hrun
              rcases mem_append.mp hrid with hrid | hrid
              · exact hhere rid hrid
              · exact ih (h.path.next_mem p hp leaf hl) hrest rid hrid

theorem search_mem (h : Linked t T chain) {found : List RID} (hrun : t.search key = .ok found) :
    ∀ rid ∈ found, ∃ e ∈ entriesOf t.disk chain, e.1.eq key = true ∧ e.2 = rid := by
  rw [search] at hrun
  split at hrun
  · cases hrun
  · rw [bind_eq_ok] at hrun
    obtain ⟨p, hfind, hrun⟩ := hrun
    refine searchFrom_mem h ?_ hrun
    intro q hq
    obtain rfl := Option.some.inj hq
    exact find_mem_chain h hfind

/-- A range scan of a leaf that returns has compared its bounds with all keys there. -/
theorem rangeEntries_compared (hbounds : Value.Comparable lo hi) (hle : lo.ord ≤ hi.ord)
    (hlo : lo.eq lo = true) (hhi : hi.eq hi = true) :
    ∀ {es : List Entry} {found : List RID} {done : Bool},
    rangeEntries lo hi es = .ok (found, done) → Ascending (entryKeys es) →
    (∀ a ∈ entryKeys es, ∀ b ∈ entryKeys es, Value.Comparable a b) →
    (∀ k ∈ entryKeys es, Value.Comparable k lo ∧ Value.Comparable k hi) ∧
      (done = true → ∃ k ∈ entryKeys es, Value.Comparable hi k ∧ hi.ord ≤ k.ord) := by
  intro es
  induction es with
  | nil =>
      intro found done h _ _
      cases h
      simp [entryKeys]
  | cons e es ih =>
      intro found done h hasc hself
      have hself' : ∀ a ∈ entryKeys es, ∀ b ∈ entryKeys es, Value.Comparable a b :=
        fun a ha b hb => hself a (mem_cons_of_mem _ ha) b (mem_cons_of_mem _ hb)
      rw [rangeEntries, bind_eq_ok] at h
      obtain ⟨below, hbelow, h⟩ := h
      have heself := (hself e.1 (by simp) e.1 (by simp)).eq_self
      have hlo := Value.comparable_of_compared heself hlo hbelow
      rw [Value.lt_of_comparable hlo, Except.ok.injEq] at hbelow
      cases below with
      | true =>
          obtain ⟨hrest, hdone⟩ := ih h hasc.tail hself'
          have hlt := (of_decide_eq_true hbelow).le
          constructor
          · intro k hk
            rcases mem_cons.mp hk with rfl | hk
            · exact ⟨hlo, Value.Comparable.between hlo hbounds hlt hle⟩
            · exact hrest k hk
          · intro hd
            obtain ⟨k, hk, hbeyond⟩ := hdone hd
            exact ⟨k, mem_cons_of_mem _ hk, hbeyond⟩
      | false =>
          simp only [Bool.false_eq_true, if_false, bind_eq_ok] at h
          obtain ⟨above, habove, h⟩ := h
          have hhi := Value.comparable_of_compared hhi heself habove
          rw [Value.lt_of_comparable hhi, Except.ok.injEq] at habove
          cases above with
          | true =>
              have hgt := (of_decide_eq_true habove).le
              refine ⟨?_, fun _ => ⟨e.1, by simp, hhi, hgt⟩⟩
              intro k hk
              have hek : Value.Comparable e.1 k ∧ e.1.ord ≤ k.ord := by
                have hcomp := hself e.1 (by simp) k hk
                rcases mem_cons.mp hk with rfl | hk
                · exact ⟨hcomp, le_rfl⟩
                · exact ⟨hcomp, (pairwise_cons.mp hasc).1 k hk⟩
              have hhik := Value.Comparable.between hhi hek.1 hgt hek.2
              exact ⟨(Value.Comparable.between hbounds hhik hle (hgt.trans hek.2)).symm,
                hhik.symm⟩
          | false =>
              simp only [Bool.false_eq_true, if_false, bind_eq_ok] at h
              obtain ⟨⟨rest, done'⟩, hscan, h⟩ := h
              cases h
              obtain ⟨hrest, hdone⟩ := ih hscan hasc.tail hself'
              constructor
              · intro k hk
                rcases mem_cons.mp hk with rfl | hk
                · exact ⟨hlo, hhi.symm⟩
                · exact hrest k hk
              · intro hd
                obtain ⟨k, hk, hbeyond⟩ := hdone hd
                exact ⟨k, mem_cons_of_mem _ hk, hbeyond⟩

/-- A range scan of the chain that returns has compared its bounds with all keys there. -/
theorem rangeFrom_compared (hbounds : Value.Comparable lo hi) (hle : lo.ord ≤ hi.ord)
    (hlo : lo.eq lo = true) (hhi : hi.eq hi = true) :
    ∀ {ps : List Int} {next : Option Int} {rounds : Nat} {found : List RID},
    Path t.disk next ps none → t.rangeFrom lo hi rounds next = .ok found →
    Ascending (entryKeys (entriesOf t.disk ps)) →
    (∀ a ∈ entryKeys (entriesOf t.disk ps), ∀ b ∈ entryKeys (entriesOf t.disk ps),
      Value.Comparable a b) →
    ∀ k ∈ entryKeys (entriesOf t.disk ps), Value.Comparable k lo ∧ Value.Comparable k hi := by
  intro ps
  induction ps with
  | nil =>
      intro next rounds found _ _ _ _ k hk
      cases hk
  | cons p ps ih =>
      rintro next rounds found ⟨rfl, leaf, hl, hrest⟩ hrun hasc hself
      cases rounds with
      | zero => cases hrun
      | succ rounds =>
          rw [entriesOf_cons, hl.entriesAt, entryKeys_append] at hasc hself ⊢
          obtain ⟨hasc1, hasc2, hcross⟩ := pairwise_append.mp hasc
          rw [rangeFrom, hl.readLeaf, ok_bind, bind_eq_ok] at hrun
          obtain ⟨⟨here, done⟩, hscan, hrun⟩ := hrun
          obtain ⟨hhere, hdone⟩ := rangeEntries_compared hbounds hle hlo hhi hscan hasc1
            (fun a ha b hb => hself a (mem_append_left _ ha) b (mem_append_left _ hb))
          have hafter : ∀ k ∈ entryKeys (entriesOf t.disk ps),
              Value.Comparable k lo ∧ Value.Comparable k hi := by
            cases done with
            | true =>
                -- the keys behind the upper bound are those behind a key that was compared
                obtain ⟨s, hs, hhis, hgt⟩ := hdone rfl
                intro k hk
                have hsk := hself s (mem_append_left _ hs) k (mem_append_right _ hk)
                have hord := hcross s hs k hk
                have hhik := Value.Comparable.between hhis hsk hgt hord
                exact ⟨(Value.Comparable.between hbounds hhik hle (hgt.trans hord)).symm,
                  hhik.symm⟩
            | false =>
                simp only [Bool.false_eq_true, if_false, bind_eq_ok] at hrun
                obtain ⟨rest, hscans, _⟩ := hrun
                exact ih hrest hscans hasc2 (fun a ha b hb =>
                  hself a (mem_append_right _ ha) b (mem_append_right _ hb))
          intro k hk
          rcases mem_append.mp hk with hk | hk
          · exact hhere k hk
          · exact hafter k hk

end Found

end SoupDB.BPlusTree
