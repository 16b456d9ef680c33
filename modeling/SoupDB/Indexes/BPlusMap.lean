import SoupDB.Indexes.BPlusRun

/-!
# SoupDB: the B+ tree is a sorted multimap

`Ordered` is the invariant of a tree none of whose inserts raised: the chain is exactly
the leaves of the tree, left to right, and the keys of the leaves and the separators
between them are ascending.  Under it every method returns and does to the entries what
the operation on a multimap does.

`Allowed` is the multimap: which answers an operation may give on a multiset of entries,
and the entries after it.  `follows_multimap` says that every run of the tree, closing
and reopening it included, follows the multimap.
-/

namespace SoupDB.BPlusTree

open BPlusPage Effect List

/-! ## The invariant -/

/-- The chain is the leaves of the tree and all keys are ascending. -/
structure Ordered (t : BPlusTree) (T : Tree) (K : Value → Prop) : Prop where
  linked : Linked t T (leavesOf T.items)
  ascending : Ascending (keysOf t.disk T.items)
  keys : ∀ k ∈ keysOf t.disk T.items, K k

/-- All leaves stand on one level, and every page but the first is a node. -/
structure Balanced (t : BPlusTree) (T : Tree) : Prop where
  level : ∃ m, Level m T
  pages : t.disk.pageCount = T.pids.length + 1

def contents (t : BPlusTree) (T : Tree) : List Entry := entriesOf t.disk (leavesOf T.items)

theorem entryKeys_sublist (d : DiskManager) (items : List Item) :
    (entryKeys (entriesOf d (leavesOf items))).Sublist (keysOf d items) := by
  induction items with
  | nil => exact List.Sublist.refl _
  | cons item items ih =>
      cases item with
      | inl key =>
          have hkeys : keysOf d (.inl key :: items) = key :: keysOf d items := by simp [keysOf]
          have hleaves : leavesOf (.inl key :: items) = leavesOf items := rfl
          rw [hkeys, hleaves]
          exact ih.cons key
      | inr p =>
          have hkeys : keysOf d (.inr p :: items) =
              entryKeys (entriesAt d p) ++ keysOf d items := by
            simp [keysOf, entryKeys]
          have hleaves : leavesOf (.inr p :: items) = p :: leavesOf items := by simp [leavesOf]
          rw [hkeys, hleaves, entriesOf_cons, entryKeys_append]
          exact List.Sublist.append (List.Sublist.refl _) ih

/-- Leaves that lose entries lose keys, whatever the separators. -/
theorem keysOf_sublist {d d' : DiskManager} {items : List Item}
    (h : ∀ q, .inr q ∈ items → (entriesAt d' q).Sublist (entriesAt d q)) :
    (keysOf d' items).Sublist (keysOf d items) := by
  induction items with
  | nil => exact List.Sublist.refl _
  | cons item items ih =>
      have hrest := ih (fun q hq => h q (mem_cons_of_mem _ hq))
      simp only [keysOf, flatMap_cons] at hrest ⊢
      cases item with
      | inl key => exact (List.Sublist.refl _).append hrest
      | inr q => exact ((h q (by simp)).map Prod.fst).append hrest

namespace Ordered

variable {t : BPlusTree} {T : Tree} {K : Value → Prop} {key : Value}

theorem ascending_contents (h : Ordered t T K) : Ascending (entryKeys (contents t T)) :=
  h.ascending.sublist (entryKeys_sublist _ _)

theorem key_mem (h : Ordered t T K) : ∀ e ∈ contents t T, K e.1 := fun e he =>
  h.keys e.1 ((entryKeys_sublist _ _).subset (mem_entryKeys he))

theorem find (h : Ordered t T K) (hcomp : ∀ k, K k → Value.Comparable k key) (leftBias : Bool) :
    ∃ p fs, t.findLeafPageId key leftBias = .ok p ∧ FramesRep t.disk fs p ∧
      plug fs (.leaf p) = T ∧ Placed t.disk leftBias key fs := by
  have hcomp' : ∀ k ∈ keysOf t.disk T.items, Value.Comparable k key :=
    fun k hk => hcomp k (h.keys k hk)
  have hrounds : T.pids.length ≤ t.rounds := by
    have hle := DiskManager.length_le_page_count h.linked.shape.nodup h.linked.shape.rep.valid
    unfold rounds
    omega
  obtain ⟨p, hfind⟩ := findLeafFrom_total h.linked.shape.rep h.ascending hcomp' hrounds
  obtain ⟨fs, hframes, _, hplug, hplaced⟩ :=
    @findLeafFrom_ok t key leftBias _ _ [] p trivial h.linked.shape.rep hfind
  refine ⟨p, fs, ?_, hframes, hplug, hplaced h.ascending hcomp' (placed_nil _ _ _)⟩
  rw [findLeafPageId, ← h.linked.shape.root]
  exact hfind

theorem chain_split {fs : List Frame} {p : Int} (h : Ordered t T K)
    (hframes : FramesRep t.disk fs p) (hplug : plug fs (.leaf p) = T) :
    leavesOf T.items = leavesOf (itemsBefore fs) ++ p :: leavesOf (itemsAfter fs) ∧
      Path t.disk (some p) (p :: leavesOf (itemsAfter fs)) none := by
  have hchain : leavesOf T.items
      = leavesOf (itemsBefore fs) ++ p :: leavesOf (itemsAfter fs) := by
    rw [hframes.items_leaf hplug, leavesOf_append]
    simp [leavesOf]
  have hpath := h.linked.path
  rw [hchain] at hpath
  obtain ⟨mid, _, hmid, hrest⟩ := path_append.mp hpath
  exact ⟨hchain, rfl, hrest⟩

/-- The entries before and from the leaf a left-biased descent ends in. -/
theorem walk (h : Ordered t T K) (hcomp : ∀ k, K k → Value.Comparable k key) :
    ∃ p before ps, t.findLeafPageId key true = .ok p ∧ Path t.disk (some p) ps none ∧
      leavesOf T.items = before ++ ps ∧ contents t T = entriesOf t.disk before ++
        entriesOf t.disk ps ∧ ∀ e ∈ entriesOf t.disk before, e.1.ord < key.ord := by
  obtain ⟨p, fs, hfind, hframes, hplug, hplaced⟩ := h.find hcomp true
  obtain ⟨hchain, hpath⟩ := h.chain_split hframes hplug
  refine ⟨p, _, _, hfind, hpath, hchain, ?_, ?_⟩
  · rw [contents, hchain, entriesOf_append]
  · intro e he
    have hmem := (entryKeys_sublist t.disk (itemsBefore fs)).subset (mem_entryKeys he)
    simpa [Before] using hplaced.before e.1 hmem

theorem search_ok (h : Ordered t T K) (hopen : t.closed = false)
    (hcomp : ∀ k, K k → Value.Comparable k key) :
    t.search key = .ok (((contents t T).filter (fun e => e.1.eq key)).map Prod.snd) := by
  obtain ⟨p, before, ps, hfind, hpath, hchain, hcontents, hbefore⟩ := h.walk hcomp
  have hasc := h.ascending_contents
  have hkeys := h.key_mem
  have hlen := h.linked.length_chain
  rw [hcontents] at hasc hkeys ⊢
  rw [hchain, length_append] at hlen
  rw [entryKeys_append] at hasc
  have hnil : (entriesOf t.disk before).filter (fun e => e.1.eq key) = [] := by
    rw [filter_eq_nil_iff]
    intro e he heq
    have hcmp := hcomp e.1 (hkeys e (mem_append_left _ he))
    exact absurd (hcmp.eq_iff.mp heq) (hbefore e he).ne
  have hwalk := @searchFrom_ok key t ps _ t.rounds hpath (by omega)
    (pairwise_append.mp hasc).2.1
    (fun e he => hcomp e.1 (hkeys e (mem_append_right _ he)))
  unfold search
  rw [hopen, if_neg (by simp), hfind, ok_bind, hwalk, filter_append, hnil,
    nil_append]

theorem range_search_ok {lo hi : Value} (h : Ordered t T K) (hopen : t.closed = false)
    (hlo : ∀ k, K k → Value.Comparable k lo)
    (hhi : ∀ e ∈ contents t T, Value.Comparable e.1 hi) (hlohi : Value.Comparable hi lo) :
    t.rangeSearch lo hi =
      .ok (((contents t T).filter (fun e => inRange lo hi e.1)).map Prod.snd) := by
  obtain ⟨p, before, ps, hfind, hpath, hchain, hcontents, hbefore⟩ := h.walk hlo
  have hasc := h.ascending_contents
  have hkeys := h.key_mem
  have hlen := h.linked.length_chain
  unfold rangeSearch
  rw [hopen, if_neg (by simp), Value.lt_of_comparable hlohi, ok_bind]
  by_cases hcross : hi.ord < lo.ord
  · have hnil : (contents t T).filter (fun e => inRange lo hi e.1) = [] := by
      rw [filter_eq_nil_iff]
      intro e _ hin
      have hboth := of_decide_eq_true hin
      exact absurd (hboth.1.trans hboth.2) (not_le.mpr hcross)
    rw [hnil]
    simp [hcross]
  · rw [hcontents] at hasc hkeys hhi ⊢
    rw [hchain, length_append] at hlen
    rw [entryKeys_append] at hasc
    have hnil : (entriesOf t.disk before).filter (fun e => inRange lo hi e.1) = [] := by
      rw [filter_eq_nil_iff]
      intro e he hin
      exact absurd (of_decide_eq_true hin).1 (not_le.mpr (hbefore e he))
    have hwalk := @rangeFrom_ok lo hi t ps _ t.rounds hpath (by omega)
      (pairwise_append.mp hasc).2.1
      (fun e he => ⟨hlo e.1 (hkeys e (mem_append_right _ he)),
        hhi e (mem_append_right _ he)⟩)
    simp only [hcross, decide_false, Bool.false_eq_true, if_false, hfind, ok_bind, hwalk,
      filter_append, hnil, nil_append]

/-- A removal keeps the invariant and removes from the entries what it says. -/
theorem remove_ok {rid : Option RID} (h : Ordered t T K) (hopen : t.closed = false)
    (hcomp : ∀ k, K k → Value.Comparable k key) :
    wp (remove key rid)
      (fun m t' => Ordered t' T K ∧ t'.closed = false ∧
        m = (removeList key rid (contents t T) 0).2 ∧
        contents t' T = (removeList key rid (contents t T) 0).1) (fun _ _ => False) t := by
  obtain ⟨p, before, ps, hfind, hpath, hchain, hcontents, hbefore⟩ := h.walk hcomp
  have hasc := h.ascending_contents
  have hkeys := h.key_mem
  have hlen := h.linked.length_chain
  have hnodup := h.linked.nodup
  rw [hcontents] at hasc hkeys
  rw [hchain, length_append] at hlen
  rw [hchain] at hnodup
  rw [entryKeys_append] at hasc
  have hkeep : removeList key rid (entriesOf t.disk before) 0 = (entriesOf t.disk before, 0) := by
    refine removeList_eq_self (fun e he => ?_)
    have hcmp := hcomp e.1 (hkeys e (mem_append_left _ he))
    have hne : e.1.eq key = false := by
      rw [Bool.eq_false_iff, ne_eq, hcmp.eq_iff]
      exact (hbefore e he).ne
    simp [shouldRemove, hne]
  have hsub : ps ⊆ leavesOf T.items := by
    rw [hchain]
    exact subset_append_right _ _
  have hrun : ensureOpen t = (.ok (), t) := by
    unfold ensureOpen
    rw [if_neg (by simp [hopen])]
  unfold remove
  rw [wp_bind]
  refine wp_of_ok hrun ?_
  simp only [wp_bind, wp_get, hfind, wp_lift_ok]
  refine wp_mono (removeFrom_spec h.linked hpath hsub (nodup_append.mp hnodup).2.1 (by omega)
    (pairwise_append.mp hasc).2.1
    (fun e he => hcomp e.1 (hkeys e (mem_append_right _ he)))) ?_ (fun _ _ hE => hE)
  rintro m t' ⟨hlinked, hclosed, hsame, hsubl, hm, hents⟩
  have hkeysSub : (keysOf t'.disk T.items).Sublist (keysOf t.disk T.items) :=
    keysOf_sublist (fun q hq => hsubl q (h.linked.leaves q hq))
  have hfront : entriesOf t'.disk before = entriesOf t.disk before := by
    refine flatMap_congr (fun q hq => hsame q ?_ ?_)
    · rw [hchain]
      exact mem_append_left _ hq
    · intro hqps
      exact (nodup_append.mp hnodup).2.2 q hq q hqps rfl
  refine ⟨⟨hlinked, h.ascending.sublist hkeysSub, fun k hk => h.keys k (hkeysSub.subset hk)⟩,
    hclosed.trans hopen, ?_, ?_⟩
  · rw [hcontents, removeList_append, hkeep]
    exact hm
  · rw [contents, hchain, entriesOf_append, hfront, hents, hcontents, removeList_append, hkeep]

end Ordered

/-! ## Inserting -/

theorem keysOf_congr {d d' : DiskManager} {items : List Item}
    (h : ∀ q, .inr q ∈ items → entriesAt d' q = entriesAt d q) :
    keysOf d' items = keysOf d items := by
  refine flatMap_congr (fun item hitem => ?_)
  cases item with
  | inl key => rfl
  | inr q => simp only [h q hitem]

/-- Replacing some keys by them and one that fits between their neighbours keeps the order. -/
theorem ascending_replace {a old b mid : List Value} {key : Value} (h : Ascending (a ++ old ++ b))
    (hmid : Ascending mid) (hsub : ∀ k ∈ mid, k ∈ old ∨ k = key)
    (ha : ∀ k ∈ a, k.ord ≤ key.ord) (hb : ∀ k ∈ b, key.ord ≤ k.ord) :
    Ascending (a ++ mid ++ b) := by
  obtain ⟨hfront, hascb, hcross⟩ := pairwise_append.mp h
  obtain ⟨hasca, _, hcross'⟩ := pairwise_append.mp hfront
  refine pairwise_append.mpr ⟨pairwise_append.mpr ⟨hasca, hmid, ?_⟩, hascb, ?_⟩
  · intro x hx y hy
    rcases hsub y hy with hold | rfl
    · exact hcross' x hx y hold
    · exact ha x hx
  · intro x hx y hy
    rcases mem_append.mp hx with hx | hx
    · exact hcross x (mem_append_left _ hx) y hy
    · rcases hsub x hx with hold | rfl
      · exact hcross x (mem_append_right _ hold) y hy
      · exact hb y hy

namespace Ordered

variable {t : BPlusTree} {T : Tree} {K : Value → Prop} {key : Value} {rid : RID}
  {fs : List Frame} {p : Int} {leaf : LeafNode} {entries : List Entry}

/-- What is known at the leaf an insert goes to. -/
theorem target_facts (h : Ordered t T K) (hcomp : ∀ k, K k → Value.Comparable k key)
    (htarget : Target t T key rid fs p leaf entries) :
    T.items = itemsBefore fs ++ .inr p :: itemsAfter fs ∧
      leavesOf T.items = leavesOf (itemsBefore fs) ++ p :: leavesOf (itemsAfter fs) ∧
      Ascending (keysOf t.disk (itemsBefore fs) ++ entryKeys leaf.entries ++
        keysOf t.disk (itemsAfter fs)) ∧
      (∀ k ∈ keysOf t.disk (itemsBefore fs), k.ord ≤ key.ord) ∧
      (∀ k ∈ keysOf t.disk (itemsAfter fs), key.ord ≤ k.ord) ∧
      (∀ q, .inr q ∈ itemsBefore fs ++ itemsAfter fs → q ≠ p) := by
  have hitems := htarget.frames.items_leaf htarget.shape
  have hchain := (h.chain_split htarget.frames htarget.shape).1
  have hplaced := htarget.placed h.ascending (fun k hk => hcomp k (h.keys k hk))
  have hasc := h.ascending
  have hkeys : keysOf t.disk T.items = keysOf t.disk (itemsBefore fs) ++ entryKeys leaf.entries ++
      keysOf t.disk (itemsAfter fs) := by
    rw [hitems, keysOf_append]
    simp [keysOf, htarget.isLeaf.entriesAt, entryKeys]
  rw [hkeys] at hasc
  refine ⟨hitems, hchain, hasc, ?_, ?_, ?_⟩
  · intro k hk
    simpa [Before] using hplaced.before k hk
  · intro k hk
    have hafter := hplaced.after k hk
    simp only [Before, Bool.false_eq_true, if_false, not_le] at hafter
    exact hafter.le
  · intro q hq
    have hnodup := h.linked.nodup
    rw [hchain] at hnodup
    have hperm : (leavesOf (itemsBefore fs) ++ p :: leavesOf (itemsAfter fs)).Perm
        (p :: (leavesOf (itemsBefore fs) ++ leavesOf (itemsAfter fs))) := perm_middle
    have hnot := (nodup_cons.mp (hperm.nodup_iff.mp hnodup)).1
    rintro rfl
    rw [← leavesOf_append, mem_leavesOf] at hnot
    exact hnot hq

theorem keys_of_sorted (h : Ordered t T K) (hkey : K key)
    (htarget : Target t T key rid fs p leaf entries) :
    ∀ k ∈ entryKeys entries, (k ∈ entryKeys leaf.entries ∨ k = key) ∧ K k := by
  intro k hk
  have hperm := (sortEntries_ok htarget.sorted).1
  have hmem : k ∈ entryKeys (leaf.entries ++ [(key, rid)]) := (hperm.map Prod.fst).mem_iff.mp hk
  rw [entryKeys_append, mem_append] at hmem
  rcases hmem with hmem | hmem
  · refine ⟨Or.inl hmem, h.keys k ?_⟩
    have hitems := htarget.frames.items_leaf htarget.shape
    rw [hitems, keysOf_append]
    refine mem_append_right _ ?_
    simp only [keysOf, flatMap_cons, htarget.isLeaf.entriesAt, mem_append]
    exact Or.inl hmem
  · have heq : k = key := by simpa [entryKeys] using hmem
    exact ⟨Or.inr heq, heq ▸ hkey⟩

variable {t' : BPlusTree}

section

variable (h : Ordered t T K) (hcomp : ∀ k, K k → Value.Comparable k key)
    (htarget : Target t T key rid fs p leaf entries)
include h hcomp htarget

/-- New keys in the place of those of the leaf keep the invariant. -/
theorem of_replaced {T' : Tree} {mid : List Value} (hlinked : Linked t' T' (leavesOf T'.items))
    (hkeys : keysOf t'.disk T'.items =
      keysOf t.disk (itemsBefore fs) ++ mid ++ keysOf t.disk (itemsAfter fs)) (hmid : Ascending mid)
    (hmem : ∀ k ∈ mid, (k ∈ entryKeys leaf.entries ∨ k = key) ∧ K k) :
    Ordered t' T' K := by
  obtain ⟨hitems, _, hasc, hbefore, hafter, _⟩ := h.target_facts hcomp htarget
  refine ⟨hlinked, ?_, ?_⟩
  · rw [hkeys]
    exact ascending_replace hasc hmid (fun k hk => (hmem k hk).1) hbefore hafter
  · intro k hk
    rw [hkeys, mem_append, mem_append] at hk
    have hold : k ∈ keysOf t.disk (itemsBefore fs) ∨ k ∈ keysOf t.disk (itemsAfter fs) →
        K k := by
      intro hk
      refine h.keys k ?_
      rw [hitems, keysOf_append, mem_append]
      rcases hk with hk | hk
      · exact Or.inl hk
      · right
        simp only [keysOf, flatMap_cons, mem_append] at hk ⊢
        exact Or.inr hk
    rcases hk with (hk | hk) | hk
    · exact hold (Or.inl hk)
    · exact (hmem k hk).2
    · exact hold (Or.inr hk)

/-- The entries with those of the leaf replaced by the sorted ones. -/
theorem contents_perm :
    (entriesOf t.disk (leavesOf (itemsBefore fs)) ++ entries ++
      entriesOf t.disk (leavesOf (itemsAfter fs))).Perm ((key, rid) :: contents t T) := by
  obtain ⟨_, hchain, _⟩ := h.target_facts hcomp htarget
  have hperm := (sortEntries_ok htarget.sorted).1
  rw [contents, hchain, entriesOf_append, entriesOf_cons, htarget.isLeaf.entriesAt]
  have hswap : (entries ++ entriesOf t.disk (leavesOf (itemsAfter fs))).Perm
      ((key, rid) :: (leaf.entries ++ entriesOf t.disk (leavesOf (itemsAfter fs)))) := by
    rw [← cons_append]
    exact (hperm.trans perm_append_comm).append_right _
  rw [append_assoc]
  exact (hswap.append_left _).trans perm_middle

end

/-- An insert that rewrites its leaf keeps the invariant. -/
theorem leafWritten (h : Ordered t T K) (hkey : K key) (hcomp : ∀ k, K k → Value.Comparable k key)
    (htarget : Target t T key rid fs p leaf entries) (hw : LeafWritten t p leaf entries t') :
    Ordered t' T K ∧ t'.closed = t.closed ∧ (contents t' T).Perm ((key, rid) :: contents t T) ∧
      (Balanced t T → Balanced t' T) := by
  obtain ⟨page, disk, henc, hwrite, rfl⟩ := hw
  obtain ⟨hitems, hchain, _, _, _, hne⟩ := h.target_facts hcomp htarget
  obtain ⟨hlinked, hhere, hother⟩ := h.linked.of_write_leaf htarget.isLeaf henc hwrite
  have hsame : ∀ q, .inr q ∈ itemsBefore fs ++ itemsAfter fs →
      entriesAt disk q = entriesAt t.disk q := by
    intro q hq
    refine hother q (h.linked.leaves q ?_) (hne q hq)
    rw [hitems]
    simp only [mem_append, mem_cons] at hq ⊢
    tauto
  have hkeysBefore : keysOf disk (itemsBefore fs) = keysOf t.disk (itemsBefore fs) :=
    keysOf_congr (fun q hq => hsame q (mem_append_left _ hq))
  have hkeysAfter : keysOf disk (itemsAfter fs) = keysOf t.disk (itemsAfter fs) :=
    keysOf_congr (fun q hq => hsame q (mem_append_right _ hq))
  have hkeys : keysOf disk T.items = keysOf t.disk (itemsBefore fs) ++ entryKeys entries ++
      keysOf t.disk (itemsAfter fs) := by
    rw [hitems, keysOf_append, hkeysBefore]
    simp only [keysOf, flatMap_cons, hhere, entryKeys, append_assoc] at hkeysAfter ⊢
    rw [hkeysAfter]
  refine ⟨h.of_replaced hcomp htarget hlinked hkeys (sortEntries_ok htarget.sorted).2
    (h.keys_of_sorted hkey htarget), rfl, ?_,
    fun hb => ⟨hb.level, (DiskManager.page_count_write_page hwrite).trans hb.pages⟩⟩
  have hentries : ∀ items : List Item, (∀ q, .inr q ∈ items →
      .inr q ∈ itemsBefore fs ++ itemsAfter fs) →
      entriesOf disk (leavesOf items) = entriesOf t.disk (leavesOf items) := fun items hsub =>
    flatMap_congr (fun q hq => hsame q (hsub q (mem_leavesOf.mp hq)))
  have hcontents : contents { t with disk } T = entriesOf t.disk (leavesOf (itemsBefore fs)) ++
      entries ++ entriesOf t.disk (leavesOf (itemsAfter fs)) := by
    rw [contents, hchain, entriesOf_append, entriesOf_cons, hhere,
      hentries _ (fun q hq => mem_append_left _ hq),
      hentries _ (fun q hq => mem_append_right _ hq), append_assoc]
  rw [hcontents]
  exact h.contents_perm hcomp htarget

/-- An insert that splits its leaf and enters the new one keeps the invariant. -/
theorem leafEntered (h : Ordered t T K) (hkey : K key) (hcomp : ∀ k, K k → Value.Comparable k key)
    (htarget : Target t T key rid fs p leaf entries) (he : LeafEntered t fs p leaf entries t') :
    ∃ T', Ordered t' T' K ∧ t'.closed = t.closed ∧
      (contents t' T').Perm ((key, rid) :: contents t T) ∧ (Balanced t T → Balanced t' T') := by
  obtain ⟨_, hfirst, hclosed, left, right, sep, T', hentries, hsplit, hshape, hitems', hlevel,
    hpages⟩ := he
  obtain ⟨hitems, hchain, _, _, _, hne⟩ := h.target_facts hcomp htarget
  have hchain' : leavesOf T'.items = leavesOf (itemsBefore fs) ++
      p :: (t.disk.pageCount : Int) :: leavesOf (itemsAfter fs) := by
    rw [hitems', leavesOf_append, leavesOf_append, append_assoc]
    rfl
  obtain ⟨hlinked, hcontents⟩ := h.linked.of_split htarget.isLeaf hchain hfirst hentries hsplit
    hshape (fun q hq => by
      rw [← mem_leavesOf, hchain'] at hq
      rw [hchain]
      simp only [mem_append, mem_cons] at hq ⊢
      tauto)
  rw [← hchain'] at hlinked hcontents
  refine ⟨T', ?_, hclosed, ?_, ?_⟩
  · obtain ⟨pl, hL⟩ := hsplit.left
    obtain ⟨pr, hR⟩ := hsplit.right
    obtain ⟨i, _, hi, hl, hr⟩ := hentries.position
    have hsame : ∀ q, .inr q ∈ itemsBefore fs ++ itemsAfter fs →
        entriesAt t'.disk q = entriesAt t.disk q := by
      intro q hq
      have hmem : q ∈ leavesOf T.items := by
        rw [mem_leavesOf, hitems]
        simp only [mem_append, mem_cons] at hq ⊢
        tauto
      obtain ⟨node, hnode⟩ := h.linked.path.mem_leaf q hmem
      obtain ⟨parent, hnode'⟩ := hsplit.other q node (hne q hq) hnode
      rw [hnode.entriesAt, hnode'.entriesAt]
    have hkeysBefore : keysOf t'.disk (itemsBefore fs) = keysOf t.disk (itemsBefore fs) :=
      keysOf_congr (fun q hq => hsame q (mem_append_left _ hq))
    have hkeysAfter : keysOf t'.disk (itemsAfter fs) = keysOf t.disk (itemsAfter fs) :=
      keysOf_congr (fun q hq => hsame q (mem_append_right _ hq))
    have hkeys : keysOf t'.disk T'.items = keysOf t.disk (itemsBefore fs) ++
        (entryKeys (entries.take i) ++ sep :: entryKeys (entries.drop i)) ++
        keysOf t.disk (itemsAfter fs) := by
      have hmidKeys : keysOf t'.disk [.inr p, .inl sep, .inr (t.disk.pageCount : Int)] =
          entryKeys (entries.take i) ++ sep :: entryKeys (entries.drop i) := by
        simp [keysOf, hL.entriesAt, hR.entriesAt, hl, hr, entryKeys]
      rw [hitems', keysOf_append, keysOf_append, hkeysBefore, hkeysAfter, hmidKeys]
    -- the separator is the first key on its right
    obtain ⟨e, rest, hdrop, rfl⟩ : ∃ e rest, entries.drop i = e :: rest ∧ e.1 = sep := by
      have hsep := hentries.separator
      unfold separatorOf at hsep
      rw [hr] at hsep
      cases hdrop : entries.drop i with
      | nil => simp [hdrop] at hsep
      | cons e rest =>
          rw [hdrop] at hsep
          exact ⟨e, rest, rfl, Except.ok.inj hsep⟩
    have hsorted := (sortEntries_ok htarget.sorted).2
    have hmid := h.keys_of_sorted hkey htarget
    have happ : entryKeys entries = entryKeys (entries.take i) ++ e.1 :: entryKeys rest := by
      rw [← entryKeys_cons, ← hdrop, ← entryKeys_append, take_append_drop]
    rw [happ] at hsorted hmid
    refine h.of_replaced hcomp htarget hlinked hkeys ?_ ?_
    · obtain ⟨hfront, hback, hcross⟩ := pairwise_append.mp hsorted
      rw [hdrop, entryKeys_cons]
      refine pairwise_append.mpr ⟨hfront, pairwise_cons.mpr ⟨?_, hback⟩, ?_⟩
      · intro k hk
        rcases mem_cons.mp hk with rfl | hk
        · exact le_rfl
        · exact (pairwise_cons.mp hback).1 k hk
      · intro x hx y hy
        refine hcross x hx y ?_
        simp only [mem_cons] at hy ⊢
        tauto
    · intro k hk
      refine hmid k ?_
      rw [hdrop, entryKeys_cons] at hk
      simp only [mem_append, mem_cons] at hk ⊢
      tauto
  · rw [contents, hcontents]
    exact h.contents_perm hcomp htarget
  · rintro ⟨⟨m, hm⟩, hpages'⟩
    rw [← htarget.shape] at hm hpages'
    obtain ⟨n, hleaf, hframes⟩ := hm.frames
    cases hleaf
    exact ⟨hlevel hframes, by omega⟩

/-- An insert that returns keeps the invariant and adds its entry. -/
theorem insert_ok (h : Ordered t T K) (hkey : K key)
    (hcomp : ∀ k, K k → Value.Comparable k key) :
    wp (insert key rid)
      (fun _ t' => ∃ T', Ordered t' T' K ∧ t'.closed = t.closed ∧
        (contents t' T').Perm ((key, rid) :: contents t T) ∧ (Balanced t T → Balanced t' T'))
      (fun _ _ => True) t := by
  refine wp_mono (insert_spec h.linked key rid) ?_ (fun _ _ _ => trivial)
  rintro _ t' ⟨_, _, _, fs, p, leaf, entries, htarget, hwritten | hentered⟩
  · exact ⟨T, h.leafWritten hkey hcomp htarget hwritten⟩
  · exact h.leafEntered hkey hcomp htarget hentered

end Ordered

/-! ## The multimap -/

/-- A multimap: the entries with their multiplicity, in no order. -/
abbrev Multimap : Type := Multiset Entry

/-- What a call may answer on a multimap, and the multimap after it. -/
inductive Allowed : Op → Answer → Multimap → Multimap → Prop
  | insert (key : Value) (rid : RID) (m : Multimap) :
      Allowed (.insert key rid) .done m ((key, rid) ::ₘ m)
  | search (key : Value) (found : List RID) (m : Multimap) :
      (found : Multiset RID) = (m.filter (fun e => e.1.eq key = true)).map Prod.snd →
      Allowed (.search key) (.rids found) m m
  | rangeSearch (lo hi : Value) (found : List Entry) (m : Multimap) :
      (found : Multimap) = m.filter (fun e => lo.le e.1 = true ∧ e.1.le hi = true) →
      found.Pairwise (fun a b => a.1.le b.1 = true) →
      Allowed (.rangeSearch lo hi) (.rids (found.map Prod.snd)) m m
  | removeAll (key : Value) (m : Multimap) :
      Allowed (.remove key none) (.count (m.filter (fun e => e.1.eq key = true)).card) m
        (m.filter (fun e => ¬ e.1.eq key = true))
  | removeOne (key : Value) (e : Entry) (m : Multimap) :
      e.1.eq key = true → Allowed (.remove key (some e.2)) (.count 1) (e ::ₘ m) m
  | removeAbsent (key : Value) (rid : RID) (m : Multimap) :
      (∀ e ∈ m, e.2 = rid → e.1.eq key = false) →
      Allowed (.remove key (some rid)) (.count 0) m m
  | reopen (m : Multimap) : Allowed .reopen .done m m

/-- Every call of a run answers as the multimap does. -/
inductive Follows : Multimap → List (Op × Except PyError Answer) → Prop
  | nil (m : Multimap) : Follows m []
  | cons {op : Op} {answer : Answer} {m m' : Multimap}
      {rest : List (Op × Except PyError Answer)} :
      Allowed op answer m m' → Follows m' rest → Follows m ((op, .ok answer) :: rest)

theorem removeList_none (key : Value) : ∀ (es : List Entry) (n : Nat),
    removeList key none es n = (es.filter (fun e => !e.1.eq key),
      n + (es.filter (fun e => e.1.eq key)).length)
  | [], _ => rfl
  | e :: es, n => by
      rw [removeList, removeList_none key es, removeList_none key es]
      by_cases heq : e.1.eq key = true
      · simp only [shouldRemove, heq, Bool.and_self, if_true, filter_cons, Bool.not_true,
          Bool.false_eq_true, if_false, length_cons]
        congr 1
        omega
      · simp [shouldRemove, heq]

theorem removeList_some_succ (key : Value) (r : RID) (es : List Entry) (n : Nat) :
    removeList key (some r) es (n + 1) = (es, n + 1) :=
  removeList_eq_self (fun e _ => by simp [shouldRemove])

theorem removeList_some (key : Value) (r : RID) : ∀ es : List Entry,
    (removeList key (some r) es 0 = (es, 0) ∧ ∀ e ∈ es, e.2 = r → e.1.eq key = false) ∨
      ∃ as e bs, es = as ++ e :: bs ∧ e.1.eq key = true ∧ e.2 = r ∧
        removeList key (some r) es 0 = (as ++ bs, 1)
  | [] => Or.inl ⟨rfl, by simp⟩
  | e :: es => by
      by_cases hmatch : shouldRemove key (some r) 0 e = true
      · have hboth : e.1.eq key = true ∧ e.2 = r := by
          simpa [shouldRemove] using hmatch
        refine Or.inr ⟨[], e, es, rfl, hboth.1, hboth.2, ?_⟩
        rw [removeList, if_pos hmatch, removeList_some_succ]
        rfl
      · have hkeep : removeList key (some r) (e :: es) 0 =
            (e :: (removeList key (some r) es 0).1, (removeList key (some r) es 0).2) := by
          rw [removeList, if_neg hmatch]
        rcases removeList_some key r es with ⟨hsame, habsent⟩ | ⟨as, e', bs, rfl, hkey, hrid, hrem⟩
        · refine Or.inl ⟨by rw [hkeep, hsame], ?_⟩
          intro e' he' hrid
          rcases mem_cons.mp he' with rfl | he'
          · simpa [shouldRemove, hrid] using hmatch
          · exact habsent e' he' hrid
        · exact Or.inr ⟨e :: as, e', bs, rfl, hkey, hrid, by rw [hkeep, hrem]; rfl⟩

/-! ## The tree follows the multimap -/

/-- The open tree holds the entries of the multimap, with keys in `K`. -/
def Serves (t : BPlusTree) (m : Multimap) (K : Value → Prop) : Prop :=
  ∃ T, Ordered t T K ∧ t.closed = false ∧ (contents t T : Multimap) = m

/-- A new tree holds nothing. -/
theorem Fresh.serves {t : BPlusTree} {root : Int} (h : Fresh t root) (K : Value → Prop) :
    Serves t 0 K := by
  have hkeys : keysOf t.disk (Tree.leaf root).items = [] := by
    simp [Tree.items, keysOf, h.entries]
  have hleaves : leavesOf (Tree.leaf root).items = [root] := by
    simp [Tree.items, leavesOf]
  refine ⟨.leaf root, ⟨by rw [hleaves]; exact h.linked, ?_, ?_⟩, h.opened, ?_⟩
  · rw [hkeys]
    exact List.Pairwise.nil
  · rw [hkeys]
    simp
  · simp [contents, Tree.items, leavesOf, entriesOf, h.entries]

namespace Serves

variable {t : BPlusTree} {m : Multimap} {K : Value → Prop}

theorem search (h : Serves t m K) {key : Value} (hcomp : ∀ k, K k → Value.Comparable k key) :
    ∃ found, t.search key = .ok found ∧ Allowed (.search key) (.rids found) m m := by
  obtain ⟨T, hordered, hopen, rfl⟩ := h
  exact ⟨_, hordered.search_ok hopen hcomp, .search _ _ _ (by simp)⟩

theorem rangeSearch (h : Serves t m K) {lo hi : Value}
    (hlo : ∀ k, K k → Value.Comparable k lo) (hhi : ∀ k, K k → Value.Comparable k hi)
    (hlohi : Value.Comparable hi lo) (hself : ∀ a b, K a → K b → Value.Comparable a b) :
    ∃ found, t.rangeSearch lo hi = .ok found ∧
      Allowed (.rangeSearch lo hi) (.rids found) m m := by
  obtain ⟨T, hordered, hopen, rfl⟩ := h
  have hmem := hordered.key_mem
  refine ⟨_, hordered.range_search_ok hopen hlo
    (fun e he => hhi e.1 (hordered.key_mem e he)) hlohi, .rangeSearch _ _ _ _ ?_ ?_⟩
  · rw [Multiset.filter_coe, Multiset.coe_eq_coe]
    refine List.Perm.of_eq (filter_congr (fun e he => ?_))
    rw [inRange, decide_eq_decide, (hlo e.1 (hmem e he)).symm.le_iff,
      (hhi e.1 (hmem e he)).le_iff]
  · have hasc := hordered.ascending_contents
    unfold Ascending entryKeys at hasc
    rw [pairwise_map] at hasc
    have hsub : ((contents t T).filter (fun e => inRange lo hi e.1)).Sublist (contents t T) :=
      filter_sublist
    refine (hasc.sublist hsub).imp_of_mem (fun {a b} ha hb hab => ?_)
    exact (hself a.1 b.1 (hmem a (hsub.subset ha)) (hmem b (hsub.subset hb))).le_iff.mpr hab

theorem remove (h : Serves t m K) {key : Value} (hcomp : ∀ k, K k → Value.Comparable k key)
    (rid : Option RID) :
    ∃ n t' m', BPlusTree.remove key rid t = (.ok n, t') ∧
      Allowed (.remove key rid) (.count n) m m' ∧ Serves t' m' K := by
  obtain ⟨T, hordered, hopen, rfl⟩ := h
  have hspec := @Ordered.remove_ok _ _ _ _ rid hordered hopen hcomp
  rcases hrun : BPlusTree.remove key rid t with ⟨e | n, t'⟩
  · exact (wp_error hspec hrun).elim
  · obtain ⟨hordered', hopen', hn, hcontents⟩ := wp_ok hspec hrun
    refine ⟨n, t', _, rfl, ?_, T, hordered', hopen', rfl⟩
    rw [hcontents, hn]
    cases rid with
    | none =>
        rw [removeList_none]
        have hallowed := Allowed.removeAll key (contents t T : Multimap)
        simp only [Multiset.filter_coe, Multiset.coe_card] at hallowed
        simpa using hallowed
    | some r =>
        rcases removeList_some key r (contents t T) with
          ⟨hsame, habsent⟩ | ⟨as, e, bs, hes, hkey, rfl, hrem⟩
        · rw [hsame]
          exact .removeAbsent _ _ _ (by simpa using habsent)
        · rw [hrem, hes]
          have hperm : ((as ++ e :: bs : List Entry) : Multimap) =
              e ::ₘ ((as ++ bs : List Entry)) :=
            Multiset.coe_eq_coe.mpr perm_middle
          rw [hperm]
          exact .removeOne _ _ _ hkey

theorem insert (h : Serves t m K) {key : Value} {rid : RID} (hkey : K key)
    (hcomp : ∀ k, K k → Value.Comparable k key) {t' : BPlusTree}
    (hrun : BPlusTree.insert key rid t = (.ok (), t')) : Serves t' ((key, rid) ::ₘ m) K := by
  obtain ⟨T, hordered, hopen, rfl⟩ := h
  obtain ⟨T', hordered', hclosed, hperm, _⟩ := wp_ok (hordered.insert_ok hkey hcomp) hrun
  exact ⟨T', hordered', hclosed.trans hopen, Multiset.coe_eq_coe.mpr hperm⟩

theorem reopen (h : Serves t m K) : perform .reopen t = (.ok .done, t) := by
  obtain ⟨T, hordered, hopen, _⟩ := h
  rw [perform_reopen hordered.linked.shape, ← hopen]

/-- One call: an insert that returns, or any other call, answers as the multimap does. -/
theorem step (h : Serves t m K) (hself : ∀ a b, K a → K b → Value.Comparable a b) {op : Op}
    (hkeys : ∀ k ∈ op.keys, K k)
    (hinsert : insertRaised (op, (perform op t).1) = false) :
    ∃ answer m', (perform op t).1 = .ok answer ∧ Allowed op answer m m' ∧
      Serves (perform op t).2 m' K := by
  cases op with
  | insert key rid =>
      have hkey := hkeys key (by simp [Op.keys])
      rcases hrun : BPlusTree.insert key rid t with ⟨e | _, t'⟩
      · simp [perform, run_bind, hrun, insertRaised] at hinsert
      · simp only [perform, run_bind, hrun, run_pure]
        refine ⟨.done, _, rfl, .insert key rid m, ?_⟩
        exact h.insert hkey (fun k hk => hself k key hk hkey) hrun
  | search key =>
      have hkey := hkeys key (by simp [Op.keys])
      obtain ⟨found, hfound, hallowed⟩ := h.search (fun k hk => hself k key hk hkey)
      have hrun : perform (.search key) t = (.ok (.rids found), t) := by
        simp [perform, run_bind, hfound]
      rw [hrun]
      exact ⟨_, m, rfl, hallowed, h⟩
  | rangeSearch lo hi =>
      have hlo := hkeys lo (by simp [Op.keys])
      have hhi := hkeys hi (by simp [Op.keys])
      obtain ⟨found, hfound, hallowed⟩ := h.rangeSearch (fun k hk => hself k lo hk hlo)
        (fun k hk => hself k hi hk hhi) (hself hi lo hhi hlo) hself
      have hrun : perform (.rangeSearch lo hi) t = (.ok (.rids found), t) := by
        simp [perform, run_bind, hfound]
      rw [hrun]
      exact ⟨_, m, rfl, hallowed, h⟩
  | remove key rid =>
      have hkey := hkeys key (by simp [Op.keys])
      obtain ⟨n, t', m', hremove, hallowed, hserves⟩ :=
        h.remove (fun k hk => hself k key hk hkey) rid
      have hrun : perform (.remove key rid) t = (.ok (.count n), t') := by
        simp [perform, run_bind, hremove]
      rw [hrun]
      exact ⟨_, m', rfl, hallowed, hserves⟩
  | reopen =>
      rw [h.reopen]
      exact ⟨.done, m, rfl, .reopen m, h⟩

/-- A sequence of calls whose inserts return. -/
theorem follows : ∀ {ops : List Op} {t : BPlusTree} {m : Multimap}, Serves t m K →
    (∀ a b, K a → K b → Value.Comparable a b) → (∀ op ∈ ops, ∀ k ∈ op.keys, K k) →
    (trace ops t).any insertRaised = false → Follows m (trace ops t)
  | [], _, m, _, _, _, _ => .nil m
  | op :: ops, t, m, h, hself, hkeys, hinserts => by
      rw [trace, any_cons, Bool.or_eq_false_iff] at hinserts
      obtain ⟨answer, m', hanswer, hallowed, hserves⟩ :=
        h.step hself (hkeys op (by simp)) hinserts.1
      rw [trace, hanswer]
      exact .cons hallowed (follows hserves hself
        (fun op' hop' => hkeys op' (mem_cons_of_mem _ hop')) hinserts.2)

end Serves

/-- On every page size the constructor admits, a sequence of calls with comparable keys
whose inserts all return is answered as the sorted multimap answers it. -/
theorem follows_multimap (pageSize : Nat) (ops : List Op)
    (hconstruct : (construct { pageSize, pages := [] }).1 = .ok ())
    (hcomp : ∀ a ∈ ops.flatMap Op.keys, ∀ b ∈ ops.flatMap Op.keys, Value.Comparable a b)
    (hinserts :
      (trace ops (construct { pageSize, pages := [] }).2).any insertRaised = false) :
    Follows 0 (trace ops (construct { pageSize, pages := [] }).2) := by
  obtain ⟨root, hfresh⟩ := construct_empty rfl hconstruct
  refine (hfresh.serves (fun k => k ∈ ops.flatMap Op.keys)).follows
    (fun a b ha hb => hcomp a ha b hb) ?_ hinserts
  intro op hop k hk
  exact mem_flatMap.mpr ⟨op, hop, hk⟩

/-- Duplicates on both sides of a separator, on pages of 64 bytes. -/
def duplicatesRun : List Op :=
  [.insert (.int 2) ⟨0, 0⟩, .insert (.int 2) ⟨0, 1⟩, .insert (.int 1) ⟨0, 2⟩,
    .insert (.int 2) ⟨0, 3⟩, .reopen, .search (.int 2), .remove (.int 2) (some ⟨0, 1⟩),
    .rangeSearch (.int 1) (.int 2), .remove (.int 2) none, .search (.int 2)]

theorem follows_multimap_duplicates :
    Follows 0 (trace duplicatesRun (construct { pageSize := 64, pages := [] }).2) :=
  follows_multimap 64 duplicatesRun (by decide +kernel) (by decide +kernel) (by decide +kernel)

end SoupDB.BPlusTree
