import SoupDB.Indexes.BPlusMap

/-!
# SoupDB: the structure of a B+ tree

`Structured` is what a B+ tree file looks like: the pages of the nodes and their parent
pointers, the level of the leaves, the order around the separators, the leaf chain, and
what every page decodes to.

Nothing is assumed about the keys.  An insert that returns has compared its key with its
neighbours among the keys of the tree, and what can be ordered with a key between two
others makes these two comparable (`Value.Comparable.between`); so the keys of a tree none
of whose inserts raised can always be ordered with one another (`Sound`).
-/

namespace SoupDB.BPlusTree

open BPlusPage Effect Value List

/-! ## The keys an insert compares -/

section Compared

variable {t : BPlusTree} {key : Value} {leftBias : Bool}

/-- A bisection that returns has compared the key with the separators beside its position. -/
theorem bisect_side_compared {keys : List Value} {i : Nat} (hkey : key.eq key = true)
    (hkeys : ∀ k ∈ keys, k.eq k = true)
    (h : (if leftBias then bisectLeft keys key else bisectRight keys key) = .ok i) :
    (∀ j k, i = j + 1 → keys[j]? = some k → Value.Comparable k key ∧ k.ord ≤ key.ord) ∧
      ∀ k, keys[i]? = some k → Value.Comparable k key ∧ key.ord ≤ k.ord := by
  cases leftBias with
  | true =>
      obtain ⟨hbelow, habove⟩ := bisect_tested h
      constructor
      · intro j k hj hk
        have hlt := hbelow j k hj hk
        have hcomp := comparable_of_compared (hkeys k (mem_of_getElem? hk)) hkey hlt
        rw [lt_of_comparable hcomp, Except.ok.injEq, decide_eq_true_eq] at hlt
        exact ⟨hcomp, hlt.le⟩
      · intro k hk
        have hlt := habove k hk
        have hcomp := comparable_of_compared (hkeys k (mem_of_getElem? hk)) hkey hlt
        rw [lt_of_comparable hcomp, Except.ok.injEq, decide_eq_false_iff_not, not_lt] at hlt
        exact ⟨hcomp, hlt⟩
  | false =>
      obtain ⟨hbelow, habove⟩ := bisect_tested h
      constructor
      · intro j k hj hk
        obtain ⟨below, hlt, hnot⟩ := bind_eq_ok.mp (hbelow j k hj hk)
        have hcomp := comparable_of_compared hkey (hkeys k (mem_of_getElem? hk)) hlt
        rw [lt_of_comparable hcomp, Except.ok.injEq] at hlt
        rw [Except.ok.injEq, Bool.not_eq_true', ← hlt, decide_eq_false_iff_not, not_lt] at hnot
        exact ⟨hcomp.symm, hnot⟩
      · intro k hk
        obtain ⟨below, hlt, hnot⟩ := bind_eq_ok.mp (habove k hk)
        have hcomp := comparable_of_compared hkey (hkeys k (mem_of_getElem? hk)) hlt
        rw [lt_of_comparable hcomp, Except.ok.injEq] at hlt
        rw [Except.ok.injEq, Bool.not_eq_false', ← hlt, decide_eq_true_eq] at hnot
        exact ⟨hcomp.symm, hnot.le⟩

theorem comparable_of_descent (hkey : key.eq key = true) :
    ∀ {rounds : Nat} {T : Tree} {parent : Option Int} {p : Int},
    Rep t.disk parent T → Ascending (keysOf t.disk T.items) →
      (∀ a ∈ keysOf t.disk T.items, ∀ b ∈ keysOf t.disk T.items, Value.Comparable a b) →
      findLeafFrom t key leftBias rounds T.pid = .ok p →
      (∀ k ∈ entryKeys (entriesAt t.disk p), Value.Comparable k key) →
      ∀ k ∈ keysOf t.disk T.items, Value.Comparable k key := by
  intro rounds
  induction rounds with
  | zero =>
      intro T parent p _ _ _ h
      simp [findLeafFrom] at h
  | succ rounds ih =>
      intro T parent p hrep hasc hself h hleaf
      cases hrep with
      | @leaf _ pageId next entries hl =>
          rw [Tree.pid, findLeafFrom_leaf hl, Except.ok.injEq] at h
          subst h
          intro k hk
          refine hleaf k ?_
          simpa [Tree.items, keysOf, entryKeys] using hk
      | @node _ pageId keys children hi hlen hc =>
          rw [Tree.pid, findLeafFrom_node rfl hi, bind_eq_ok] at h
          obtain ⟨i, hbisect, h⟩ := h
          have hile := bisect_side_le hbisect
          have hilt : i < children.length := by omega
          simp only [getElem?_map, getElem?_eq_getElem hilt, Option.map_some] at h
          have hseps := sublist_keys_of_node (d := t.disk) (p := pageId) hlen
          obtain ⟨hleft, hright⟩ := bisect_side_compared hkey
            (fun k hk => (hself k (hseps.subset hk) k (hseps.subset hk)).eq_self) hbisect
          have hascSeps : Ascending keys := hasc.sublist hseps
          have hchild := @keysOf_child_subset t.disk pageId _ _ _ hlen hilt
          have hbelow := ih (hc _ (getElem_mem hilt)) (ascending_child hlen hilt hasc)
            (fun a ha b hb => hself a (hchild ha) b (hchild hb)) h hleaf
          have hsplit := @keysOf_child t.disk pageId _ _ _ hlen hilt
          have hparts := hasc
          rw [hsplit] at hparts
          obtain ⟨hfront, hascAfter, _⟩ := pairwise_append.mp hparts
          have hascBefore := (pairwise_append.mp hfront).1
          intro k hk
          have hmem := hk
          rw [hsplit, mem_append, mem_append] at hmem
          rcases hmem with (hmem | hmem) | hmem
          · cases i with
            | zero => simp [blocksBefore] at hmem
            | succ j =>
                have hj : j < keys.length := by omega
                obtain ⟨hcomp, hle⟩ := hleft j keys[j] rfl (getElem?_eq_getElem hj)
                have hkle : k.ord ≤ (keys[j]).ord := by
                  refine @below_blocksBefore (fun tokens => tokens ≤ (keys[j]).ord)
                    (fun _ _ hab hb => hab.trans hb) _ _ hascBefore ?_ k hmem
                  intro s hs
                  obtain ⟨n, hn, rfl⟩ := mem_take_iff_getElem.mp hs
                  rcases Nat.lt_or_eq_of_le (show n ≤ j by omega) with hnj | rfl
                  · exact pairwise_iff_getElem.mp hascSeps n j (by omega) hj hnj
                  · exact le_rfl
                exact Value.Comparable.between
                  (hself k hk _ (hseps.subset (getElem_mem hj))) hcomp hkle hle
          · exact hbelow k hmem
          · rcases Nat.lt_or_ge i keys.length with hik | hik
            · obtain ⟨hcomp, hle⟩ := hright keys[i] (getElem?_eq_getElem hik)
              have hkle : (keys[i]).ord ≤ k.ord := by
                refine @above_blocksAfter (fun tokens => (keys[i]).ord ≤ tokens)
                  (fun _ _ hab ha => ha.trans hab) _ _ hascAfter ?_ k hmem
                intro s hs
                obtain ⟨n, hn, rfl⟩ := mem_drop_iff_getElem.mp hs
                rcases Nat.eq_zero_or_pos n with rfl | hpos
                · exact le_rfl
                · exact pairwise_iff_getElem.mp hascSeps i (i + n) hik (by omega) (by omega)
              exact (Value.Comparable.between hcomp.symm
                (hself _ (hseps.subset (getElem_mem hik)) k hk) hle hkle).symm
            · rw [drop_of_length_le hik] at hmem
              simp [blocksAfter] at hmem

end Compared

/-! ## The invariant -/

/-- The keys are ascending and can be ordered, and the tree is balanced. -/
structure Sound (t : BPlusTree) (T : Tree) : Prop where
  ordered : Ordered t T (fun _ => True)
  comparable : ∀ a ∈ keysOf t.disk T.items, ∀ b ∈ keysOf t.disk T.items, Value.Comparable a b
  balanced : Balanced t T

namespace Sound

variable {t t' : BPlusTree} {T : Tree} {key : Value} {rid : RID} {fs : List Frame} {p : Int}
  {leaf : LeafNode} {entries : List Entry}

theorem of_fresh {root : Int} (h : Fresh t root) : Sound t (.leaf root) := by
  have hleaves : leavesOf (Tree.leaf root).items = [root] := by
    simp [leavesOf, Tree.items]
  have hnone : keysOf t.disk (Tree.leaf root).items = [] := by
    simp [Tree.items, keysOf, h.entries]
  refine ⟨⟨?_, ?_, fun _ _ => trivial⟩, ?_, ⟨0, .leaf root⟩, ?_⟩
  · rw [hleaves]
    exact h.linked
  · rw [hnone]
    exact List.Pairwise.nil
  · rw [hnone]
    intro a ha
    cases ha
  · rw [h.pageCount, Tree.pids]
    rfl

theorem comparable_leaf (h : Sound t T) (hkey : key.eq key = true)
    (htarget : Target t T key rid fs p leaf entries) :
    ∀ k ∈ entryKeys (entriesAt t.disk p), Value.Comparable k key := by
  rw [htarget.isLeaf.entriesAt]
  intro k hk
  obtain ⟨e, he, rfl⟩ := mem_map.mp hk
  have hmem : e.1 ∈ keysOf t.disk T.items := by
    rw [htarget.frames.items_leaf htarget.shape, keysOf_append]
    refine mem_append_right _ ?_
    simp only [keysOf, flatMap_cons, htarget.isLeaf.entriesAt, mem_append]
    exact Or.inl hk
  have hsorted := htarget.sorted
  rw [sortEntries] at hsorted
  split at hsorted
  · next hpairs =>
      have hself := h.comparable _ hmem _ hmem
      have hsortable := (pairwise_append.mp hpairs).2.2 e he (key, rid) (by simp)
      rw [sortable, unordered_eq_false hself.eq_self hkey, Bool.or_false,
        Bool.or_eq_true] at hsortable
      rcases hsortable with heq | hcomp
      · exact comparable_of_eq heq hself.ne_null
      · exact hcomp
  · cases hsorted

/-- The key of an insert that returned can be ordered with every key of the tree. -/
theorem comparable_key (h : Sound t T) (hkey : key.eq key = true)
    (htarget : Target t T key rid fs p leaf entries) :
    ∀ k ∈ keysOf t.disk T.items, Value.Comparable k key := by
  have hfind : t.findLeafFrom key false t.rounds T.pid = .ok p := by
    rw [h.ordered.linked.shape.root]
    exact htarget.find
  exact comparable_of_descent hkey h.ordered.linked.shape.rep h.ordered.ascending h.comparable
    hfind (h.comparable_leaf hkey htarget)

theorem key_written (htarget : Target t T key rid fs p leaf entries)
    (hdone : LeafWritten t p leaf entries t' ∨ LeafEntered t fs p leaf entries t') :
    key.eq key = true ∧ key ≠ .null := by
  have hkey : (key, rid) ∈ entries :=
    (sortEntries_ok htarget.sorted).1.mem_iff.mpr (by simp)
  have hfits : ∃ size, KeyFits size key := by
    rcases hdone with ⟨page, disk, henc, _⟩ | ⟨_, _, _, left, right, _, _, hentries, hsplit, _⟩
    · exact ⟨_, keyFits_of_encode_leaf henc (key, rid) hkey⟩
    · obtain ⟨i, _, _, hl, hr⟩ := hentries.position
      rw [← take_append_drop i entries, mem_append, ← hl, ← hr] at hkey
      obtain ⟨pl, _, _, hencL⟩ := hsplit.left
      obtain ⟨pr, _, _, hencR⟩ := hsplit.right
      rcases hkey with hkey | hkey
      · exact ⟨_, keyFits_of_encode_leaf hencL (key, rid) hkey⟩
      · exact ⟨_, keyFits_of_encode_leaf hencR (key, rid) hkey⟩
  obtain ⟨size, field, hfield, _⟩ := hfits
  obtain ⟨encodedKey, hencoded, _⟩ := bind_eq_ok.mp hfield
  refine ⟨KeyCodec.eq_self_of_encode_key hencoded, ?_⟩
  rintro rfl
  cases hencoded

/-- An insert that returns keeps the invariant and adds its entry. -/
theorem insert_contents (h : Sound t T) (hrun : insert key rid t = (.ok (), t')) :
    ∃ T', Sound t' T' ∧ t'.closed = t.closed ∧
      (contents t' T').Perm ((key, rid) :: contents t T) := by
  obtain ⟨_, _, _, fs, p, leaf, entries, htarget, hdone⟩ :=
    wp_ok (insert_spec h.ordered.linked key rid) hrun
  obtain ⟨hkey, hne⟩ := key_written htarget hdone
  have hcomp := h.comparable_key hkey htarget
  have hself := Value.Comparable.self hkey hne
  -- the keys of the tree and the new one can be ordered with one another
  have hcomp' : ∀ a, a ∈ keysOf t.disk T.items ∨ a = key → Value.Comparable a key := by
    rintro a (ha | rfl)
    · exact hcomp a ha
    · exact hself
  have hordered : Ordered t T (fun k => k ∈ keysOf t.disk T.items ∨ k = key) :=
    ⟨h.ordered.linked, h.ordered.ascending, fun k hk => Or.inl hk⟩
  obtain ⟨T', hordered', hclosed, hperm, hbalanced⟩ :=
    wp_ok (@Ordered.insert_ok _ _ _ _ rid hordered (Or.inr rfl) hcomp') hrun
  refine ⟨T', ⟨⟨hordered'.linked, hordered'.ascending, fun _ _ => trivial⟩, ?_,
    hbalanced h.balanced⟩, hclosed, hperm⟩
  intro a ha b hb
  rcases hordered'.keys a ha with ha | rfl
  · rcases hordered'.keys b hb with hb | rfl
    · exact h.comparable a ha b hb
    · exact hcomp a ha
  · exact (hcomp' b (hordered'.keys b hb)).symm

/-- An insert that returns keeps the invariant. -/
theorem insert_ok (h : Sound t T) (hrun : insert key rid t = (.ok (), t')) :
    ∃ T', Sound t' T' :=
  (h.insert_contents hrun).imp (fun _ h' => h'.1)

/-- A removal, also one that raises, keeps the invariant. -/
theorem of_shrunk (h : Sound t T) (hshrunk : Shrunk t T (leavesOf T.items) t') : Sound t' T := by
  have hsub : (keysOf t'.disk T.items).Sublist (keysOf t.disk T.items) :=
    keysOf_sublist (fun q hq => hshrunk.entries q (mem_leavesOf.mpr hq))
  refine ⟨⟨hshrunk.linked, h.ordered.ascending.sublist hsub, fun _ _ => trivial⟩, ?_,
    h.balanced.level, hshrunk.pageCount.trans h.balanced.pages⟩
  intro a ha b hb
  exact h.comparable a (hsub.subset ha) b (hsub.subset hb)

theorem with_closed (h : Sound t T) (closed : Bool) : Sound { t with closed } T :=
  ⟨⟨h.ordered.linked.with_closed closed, h.ordered.ascending, h.ordered.keys⟩, h.comparable,
    h.balanced.level, h.balanced.pages⟩

/-- Every call that is not an insert that raised keeps the invariant. -/
theorem step (h : Sound t T) {op : Op} (hinsert : insertRaised (op, (perform op t).1) = false) :
    ∃ T', Sound (perform op t).2 T' := by
  cases op with
  | insert key rid =>
      rcases hrun : insert key rid t with ⟨e | _, t'⟩
      · simp [perform, run_bind, hrun, insertRaised] at hinsert
      · simp only [perform, run_bind, hrun, run_pure]
        exact h.insert_ok hrun
  | search key =>
      refine ⟨T, ?_⟩
      cases hfound : t.search key <;> simpa [perform, run_bind, hfound] using h
  | rangeSearch lo hi =>
      refine ⟨T, ?_⟩
      cases hfound : t.rangeSearch lo hi <;> simpa [perform, run_bind, hfound] using h
  | remove key rid =>
      refine ⟨T, ?_⟩
      have hspec := @remove_shrunk key rid _ _ _ h.ordered.linked
      rcases hrun : remove key rid t with ⟨e | _, t'⟩
      · have hshrunk := wp_error hspec hrun
        simpa only [perform, run_bind, hrun] using h.of_shrunk hshrunk
      · have hshrunk := wp_ok hspec hrun
        simpa only [perform, run_bind, hrun, run_pure] using h.of_shrunk hshrunk
  | reopen =>
      rw [perform_reopen h.ordered.linked.shape]
      exact ⟨T, h.with_closed false⟩

/-! ### Searches that return -/

theorem comparable_entry (h : Sound t T) {e : Entry} (he : e ∈ contents t T)
    (heq : e.1.eq key = true) : ∀ k ∈ keysOf t.disk T.items, Value.Comparable k key := by
  intro k hk
  have hmem := (entryKeys_sublist t.disk T.items).subset (mem_entryKeys he)
  have hcomp := h.comparable k hk e.1 hmem
  rw [Value.Comparable, cmp_congr_right k heq] at hcomp
  exact hcomp

/-- The keys of the tree as the set of keys of the invariant. -/
theorem ordered_keys (h : Sound t T) : Ordered t T (fun k => k ∈ keysOf t.disk T.items) :=
  ⟨h.ordered.linked, h.ordered.ascending, fun _ hk => hk⟩

theorem search_entry (h : Sound t T) (hopen : t.closed = false) {e : Entry}
    (he : e ∈ contents t T) (heq : e.1.eq key = true) :
    t.search key = .ok (((contents t T).filter (fun e => e.1.eq key)).map Prod.snd) :=
  h.ordered_keys.search_ok hopen (h.comparable_entry he heq)

variable {found : List RID}

theorem search_exact (h : Sound t T) (hrun : t.search key = .ok found) :
    found = ((contents t T).filter (fun e => e.1.eq key)).map Prod.snd := by
  have hopen : t.closed = false := by
    by_contra hclosed
    rw [Bool.not_eq_false] at hclosed
    rw [search, hclosed] at hrun
    cases hrun
  by_cases hsome : ∃ e ∈ contents t T, e.1.eq key = true
  · obtain ⟨e, he, heq⟩ := hsome
    rw [h.search_entry hopen he heq] at hrun
    exact (Except.ok.inj hrun).symm
  · have hnone : (contents t T).filter (fun e => e.1.eq key) = [] := by
      rw [filter_eq_nil_iff]
      intro e he heq
      exact hsome ⟨e, he, heq⟩
    rw [hnone, map_nil, eq_nil_iff_forall_not_mem]
    intro rid hrid
    obtain ⟨e, he, heq, _⟩ := search_mem h.ordered.linked hrun rid hrid
    exact hsome ⟨e, he, heq⟩

/-- A range search that returns has bounds that can be ordered with one another and, unless
they are crossed, with all keys it is about. -/
theorem range_compared (h : Sound t T) {lo hi : Value} (hlo : lo.eq lo = true)
    (hhi : hi.eq hi = true) (hrun : t.rangeSearch lo hi = .ok found) :
    t.closed = false ∧ Value.Comparable hi lo ∧ (hi.ord < lo.ord ∧ found = [] ∨
      (∀ k ∈ keysOf t.disk T.items, Value.Comparable k lo) ∧
        ∀ e ∈ contents t T, Value.Comparable e.1 hi) := by
  rw [rangeSearch] at hrun
  split at hrun
  · cases hrun
  · next hopen =>
    refine ⟨Bool.eq_false_iff.mpr hopen, ?_⟩
    rw [bind_eq_ok] at hrun
    obtain ⟨crossed, hcrossed, hrun⟩ := hrun
    have hbounds := comparable_of_compared hhi hlo hcrossed
    rw [lt_of_comparable hbounds, Except.ok.injEq] at hcrossed
    refine ⟨hbounds, ?_⟩
    cases crossed with
    | true =>
        cases hrun
        exact Or.inl ⟨of_decide_eq_true hcrossed, rfl⟩
    | false =>
        right
        have hle := not_lt.mp (of_decide_eq_false hcrossed)
        simp only [Bool.false_eq_true, if_false, bind_eq_ok] at hrun
        obtain ⟨p, hfind, hrun⟩ := hrun
        rw [findLeafPageId, ← h.ordered.linked.shape.root] at hfind
        obtain ⟨fs, hframes, _, hplug, hplaced⟩ :=
          @findLeafFrom_ok t lo true _ _ [] p trivial h.ordered.linked.shape.rep hfind
        have htree : plug fs (.leaf p) = T := hplug
        obtain ⟨hchain, hpath⟩ := h.ordered.chain_split hframes htree
        have hsub : ∀ k ∈ entryKeys (contents t T), k ∈ keysOf t.disk T.items :=
          fun k hk => (entryKeys_sublist t.disk T.items).subset hk
        have hasc := h.ordered.ascending_contents
        rw [contents, hchain, entriesOf_append, entryKeys_append] at hasc hsub
        have hwalk := rangeFrom_compared hbounds.symm hle hlo hhi hpath hrun
          (pairwise_append.mp hasc).2.1
          (fun a ha b hb => h.comparable a (hsub a (mem_append_right _ ha)) b
            (hsub b (mem_append_right _ hb)))
        have hlo := comparable_of_descent hlo h.ordered.linked.shape.rep h.ordered.ascending
          h.comparable hfind (fun k hk => (hwalk k (by
            rw [entriesOf_cons, entryKeys_append]
            exact mem_append_left _ hk)).1)
        refine ⟨hlo, ?_⟩
        intro e he
        rw [contents, hchain, entriesOf_append, mem_append] at he
        rcases he with he | he
        · -- before the leaf of the lower bound the keys are below it
          have hmem := (entryKeys_sublist t.disk (itemsBefore fs)).subset (mem_entryKeys he)
          have hlt : e.1.ord < lo.ord := by
            have hplace := hplaced h.ordered.ascending hlo (placed_nil _ _ _)
            simpa [Before] using hplace.before e.1 hmem
          have hkey : e.1 ∈ keysOf t.disk T.items := by
            rw [hframes.items_leaf htree, keysOf_append]
            exact mem_append_left _ hmem
          exact Value.Comparable.between (hlo e.1 hkey) hbounds.symm hlt.le hle
        · exact (hwalk e.1 (mem_entryKeys he)).2

theorem range_search_exact (h : Sound t T) {lo hi : Value} (hlo : lo.eq lo = true)
    (hhi : hi.eq hi = true) (hrun : t.rangeSearch lo hi = .ok found) :
    found = ((contents t T).filter (fun e => lo.le e.1 && e.1.le hi)).map Prod.snd := by
  obtain ⟨hopen, hbounds, hcase⟩ := h.range_compared hlo hhi hrun
  rcases hcase with ⟨hcrossed, rfl⟩ | ⟨hlo, hhi⟩
  · have hnone : (contents t T).filter (fun e => lo.le e.1 && e.1.le hi) = [] := by
      rw [filter_eq_nil_iff]
      intro e _ hin
      rw [Bool.and_eq_true] at hin
      have hle := (ord_le_of_le hin.1).trans (ord_le_of_le hin.2)
      exact absurd hle (not_le.mpr hcrossed)
    rw [hnone, map_nil]
  · rw [h.ordered_keys.range_search_ok hopen hlo hhi hbounds, Except.ok.injEq] at hrun
    rw [← hrun]
    refine congrArg _ (filter_congr ?_)
    intro e he
    have hmem := (entryKeys_sublist t.disk T.items).subset (mem_entryKeys he)
    rw [inRange, Bool.eq_iff_iff, decide_eq_true_eq, Bool.and_eq_true,
      (hlo e.1 hmem).symm.le_iff, (hhi e he).le_iff]

end Sound

/-! ## The structure -/

/-- Around each separator: no key on its left is above it, no key on its right below. -/
inductive Separated (d : DiskManager) : Tree → Prop
  | leaf (pageId : Int) : Separated d (.leaf pageId)
  | node {pageId keys children} :
      (∀ i sep left right, keys[i]? = some sep → children[i]? = some left →
        children[i + 1]? = some right →
        (∀ k ∈ keysOf d left.items, k.le sep = true) ∧
          ∀ k ∈ keysOf d right.items, sep.le k = true) →
      (∀ c ∈ children, Separated d c) →
      Separated d (.node pageId keys children)

variable {d : DiskManager} {parent : Option Int}

theorem Rep.separated {T : Tree} (h : Rep d parent T) :
    Ascending (keysOf d T.items) →
      (∀ a ∈ keysOf d T.items, ∀ b ∈ keysOf d T.items, Value.Comparable a b) →
      Separated d T := by
  induction h with
  | leaf next entries hl => exact fun _ _ => .leaf _
  | @node parent pageId keys children hi hlen hc ih =>
      intro hasc hself
      refine .node ?_ ?_
      · intro i sep left right hsep hleft hright
        obtain ⟨hi, rfl⟩ := List.getElem?_eq_some_iff.mp hsep
        obtain ⟨hl, rfl⟩ := List.getElem?_eq_some_iff.mp hleft
        obtain ⟨hr, rfl⟩ := List.getElem?_eq_some_iff.mp hright
        have hsplit := @keysOf_child d pageId _ _ _ hlen hl
        rw [drop_eq_getElem_cons hi, drop_eq_getElem_cons hr, map_cons,
          blocksAfter] at hsplit
        rw [hsplit] at hasc hself
        obtain ⟨_, hafter, hcross⟩ := pairwise_append.mp hasc
        have habove := (pairwise_cons.mp hafter).1
        constructor
        · intro k hk
          refine (hself k ?_ _ ?_).le_iff.mpr (hcross k ?_ _ ?_)
          · simp [hk]
          · simp
          · simp [hk]
          · simp
        · intro k hk
          refine (hself _ ?_ k ?_).le_iff.mpr (habove k ?_)
          · simp
          · simp [hk]
          · simp [hk]
      · intro c hcm
        obtain ⟨i, hi, rfl⟩ := getElem_of_mem hcm
        have hsub := @keysOf_child_subset d pageId _ _ _ hlen hi
        exact ih _ hcm (ascending_child hlen hi hasc)
          (fun a ha b hb => hself a (hsub ha) b (hsub hb))

/-- The page is full length, and reading it gives the node that was written. -/
def HoldsNode (d : DiskManager) (pageId : Int) : Prop :=
  (∃ page node, d.readPage pageId = .ok page ∧ page.length = d.pageSize ∧
    encodeLeaf d.pageSize node = .ok page ∧ pageType page = .ok PAGE_TYPE_LEAF ∧
    decodeLeaf page = .ok node) ∨
  ∃ page node, d.readPage pageId = .ok page ∧ page.length = d.pageSize ∧
    encodeInternal d.pageSize node = .ok page ∧ pageType page = .ok PAGE_TYPE_INTERNAL ∧
    decodeInternal page = .ok node

/-- The page is full length, and reading it gives the metadata that was written. -/
def HoldsMetadata (d : DiskManager) (metadata : Metadata) : Prop :=
  ∃ page, d.readPage METADATA_PAGE_ID = .ok page ∧ page.length = d.pageSize ∧
    encodeMetadata d.pageSize metadata.rootPageId metadata.firstLeafPageId = .ok page ∧
    pageType page = .ok PAGE_TYPE_METADATA ∧ decodeMetadata page = .ok metadata

theorem Rep.holdsNode {T : Tree} (h : Rep d parent T) : ∀ p ∈ T.pids, HoldsNode d p := by
  intro p hp
  rcases h.page_kind p hp with ⟨node, page, hread, henc⟩ | ⟨node, page, hread, henc⟩
  · obtain ⟨htype, hdecode⟩ := decode_leaf_encode_leaf henc
    exact Or.inl ⟨page, node, hread, length_encode_leaf henc, henc, htype, hdecode⟩
  · obtain ⟨htype, hdecode⟩ := decode_internal_encode_internal henc
    exact Or.inr ⟨page, node, hread, length_encode_internal henc, henc, htype, hdecode⟩

theorem IsMetadata.holdsMetadata {root first : Int} (h : IsMetadata d root first) :
    HoldsMetadata d { rootPageId := some root, firstLeafPageId := some first } := by
  obtain ⟨page, hread, henc⟩ := h
  obtain ⟨htype, hdecode⟩ := decode_metadata_encode_metadata henc
  exact ⟨page, hread, length_encode_metadata henc, henc, htype, hdecode⟩

/-- The file is this B+ tree. -/
structure Structured (t : BPlusTree) (T : Tree) : Prop where
  /-- All leaves are at the same depth. -/
  level : ∃ n, Level n T
  /-- The parent pointer of every node is the page that lists it as a child. -/
  rep : Rep t.disk none T
  root : T.pid = t.rootPageId
  distinct : T.pids.Nodup
  /-- Keys on the left of a separator are at most it, keys on its right at least. -/
  separated : Separated t.disk T
  /-- The chain from the first leaf visits the leaves, left to right, and ends. -/
  chain : Path t.disk (some t.firstLeafPageId) (leavesOf T.items) none
  once : (leavesOf T.items).Nodup
  ordered : ((contents t T).map Prod.fst).Pairwise (fun a b => a.le b = true)
  /-- Every page of the file is the metadata page or a node. -/
  pages : ∀ p, t.disk.validPageId p ↔ p = METADATA_PAGE_ID ∨ p ∈ T.pids
  metadata : HoldsMetadata t.disk
    { rootPageId := some t.rootPageId, firstLeafPageId := some t.firstLeafPageId }
  nodes : ∀ p ∈ T.pids, HoldsNode t.disk p

/-- As many distinct pages as the file has are all its pages. -/
theorem mem_of_length_eq {ps : List Int} (hnodup : ps.Nodup) (hvalid : ∀ p ∈ ps, d.validPageId p)
    (hlength : d.pageCount = ps.length) {p : Int} (hp : d.validPageId p) : p ∈ ps := by
  by_contra hnot
  have hle := @DiskManager.length_le_page_count d _ (nodup_cons.mpr ⟨hnot, hnodup⟩) (by
    intro q hq
    rcases mem_cons.mp hq with rfl | hq
    · exact hp
    · exact hvalid q hq)
  rw [length_cons] at hle
  omega

theorem Sound.structured {t : BPlusTree} {T : Tree} (h : Sound t T) : Structured t T := by
  have hshape := h.ordered.linked.shape
  have hmeta := hshape.rep.metadata_not_mem hshape.metadata
  have hvalid : ∀ p ∈ METADATA_PAGE_ID :: T.pids, t.disk.validPageId p := by
    intro p hp
    rcases mem_cons.mp hp with rfl | hp
    · exact hshape.metadata.valid
    · exact hshape.rep.valid p hp
  refine ⟨h.balanced.level, hshape.rep, hshape.root, hshape.nodup,
    hshape.rep.separated h.ordered.ascending h.comparable, h.ordered.linked.path,
    h.ordered.linked.nodup, ?_, ?_, hshape.metadata.holdsMetadata, hshape.rep.holdsNode⟩
  · have hsub := entryKeys_sublist t.disk T.items
    refine h.ordered.ascending_contents.imp_of_mem ?_
    intro a b ha hb hab
    exact (h.comparable a (hsub.subset ha) b (hsub.subset hb)).le_iff.mpr hab
  · intro p
    rw [← mem_cons]
    constructor
    · intro hp
      refine mem_of_length_eq (nodup_cons.mpr ⟨hmeta, hshape.nodup⟩) hvalid ?_ hp
      rw [h.balanced.pages, length_cons]
    · exact hvalid p

/-- The tree after a sequence of calls. -/
def after (ops : List Op) (t : BPlusTree) : BPlusTree :=
  ops.foldl (fun t op => (perform op t).2) t

theorem Sound.run : ∀ {ops : List Op} {t : BPlusTree} {T : Tree}, Sound t T →
    (trace ops t).any insertRaised = false → ∃ T', Sound (after ops t) T'
  | [], _, T, h, _ => ⟨T, h⟩
  | op :: ops, t, _, h, hinserts => by
      rw [trace, any_cons, Bool.or_eq_false_iff] at hinserts
      obtain ⟨T', h'⟩ := h.step hinserts.1
      exact @Sound.run ops _ T' h' hinserts.2

/-- On every page size the constructor admits, every sequence of calls whose inserts all
return, whatever the keys and whether or not other calls raise, leaves a B+ tree. -/
theorem structured_after (pageSize : Nat) (ops : List Op)
    (hconstruct : (construct { pageSize, pages := [] }).1 = .ok ())
    (hinserts : (trace ops (construct { pageSize, pages := [] }).2).any insertRaised = false) :
    ∃ T, Structured (after ops (construct { pageSize, pages := [] }).2) T := by
  obtain ⟨root, hfresh⟩ := construct_empty rfl hconstruct
  obtain ⟨T, hsound⟩ := (Sound.of_fresh hfresh).run hinserts
  exact ⟨T, hsound.structured⟩

/-- Splits up to the root on pages of 64 bytes, and removals that empty leaves. -/
def splitsRun : List Op :=
  [.insert (.int 1) ⟨0, 0⟩, .insert (.int 5) ⟨0, 1⟩, .insert (.int 3) ⟨0, 2⟩,
    .insert (.int 3) ⟨0, 3⟩, .insert (.int 4) ⟨0, 4⟩, .insert (.int 2) ⟨0, 5⟩,
    .remove (.int 3) none, .search (.str "x"), .reopen, .insert (.int 9) ⟨0, 6⟩]

theorem structured_after_splits :
    ∃ T, Structured (after splitsRun (construct { pageSize := 64, pages := [] }).2) T :=
  structured_after 64 splitsRun (by decide +kernel) (by decide +kernel)

end SoupDB.BPlusTree
