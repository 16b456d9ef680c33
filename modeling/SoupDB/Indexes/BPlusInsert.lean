import SoupDB.Indexes.BPlusShape
import SoupDB.Indexes.BPlusSplit

/-!
# SoupDB: propagating a split up a B+ tree

After a leaf was split, `insertIntoParent` enters the new leaf in its parent and
splits the parents that are full, up to the root.

Main fact: `insert_into_parent_spec`.  If the method returns, the tree has the new
leaf next to the old one with the separator between them and otherwise the same items.
If it raises, the pages still represent a tree, the leaves it reaches were there
before, and no leaf lost an entry.  `absorbs`, a predicate on the pages before the
step, says which of the two it is.
-/

namespace SoupDB.BPlusTree

open BPlusPage Effect DiskManager List

/-! ## Steps on pages -/

section Steps

variable {t : BPlusTree} {p : Int} {data : Bytes}

variable {Q : Unit → BPlusTree → Prop} {E : PyError → BPlusTree → Prop}

theorem wp_write_page (hp : t.disk.validPageId p)
    (hQ : ∀ disk, t.disk.writePage p data = .ok disk → Q () { t with disk }) :
    wp (writePage p data) Q E t := by
  have hw := write_page_of_valid hp data
  unfold wp writePage
  rw [hw]
  exact hQ _ hw

@[simp] theorem wp_allocate_page {Q : Int → BPlusTree → Prop} :
    wp allocatePage Q E t ↔ Q t.disk.pageCount { t with disk := t.disk.allocatePage.2 } :=
  Iff.rfl

theorem wp_ensureAllocated {asExpected : Bool} (h : asExpected = true) (hQ : Q () t) :
    wp (ensureAllocated asExpected) Q E t := by
  unfold ensureAllocated
  rw [if_pos h]
  exact hQ

theorem wp_write_metadata {root first : Int} (hmeta : IsMetadata t.disk root first)
    (hfirst : t.firstLeafPageId = first) (hroot : IdFits (some t.rootPageId))
    (hQ : ∀ disk, IsMetadata disk t.rootPageId first →
      Writes t.disk disk [METADATA_PAGE_ID] → Q () { t with disk }) :
    wp writeMetadata Q E t := by
  obtain ⟨page, hr, he⟩ := hmeta
  obtain ⟨hsize, _, hfits⟩ := encode_metadata_ok_iff.mp ⟨page, he⟩
  subst hfirst
  obtain ⟨page', he'⟩ := encode_metadata_ok_iff.mpr ⟨hsize, hroot, hfits⟩
  have hpage : encodeMetadata t.pageSize (some t.rootPageId) (some t.firstLeafPageId)
      = .ok page' := he'
  unfold writeMetadata
  simp only [wp_bind, wp_get, hpage, wp_lift_ok]
  refine wp_write_page (validPageId_of_read_page hr) ?_
  intro disk hw
  refine hQ disk ⟨page', ?_, ?_⟩ (Writes.of_write_page hw)
  · rw [read_page_write_page hw, if_pos rfl]
  · rw [page_size_write_page hw]
    exact he'

end Steps

/-! ## Parents of the moved children -/

section Parents

variable {t : BPlusTree} {old new : Int}

variable {parent : Option Int}

theorem Rep.page_kind {d : DiskManager} {T : Tree} (h : Rep d parent T) :
    ∀ p ∈ T.pids, (∃ node, IsLeaf d p node) ∨ (∃ node, IsInternal d p node) := by
  induction h with
  | leaf next entries hl =>
      intro p hp
      simp only [Tree.pids, mem_singleton] at hp
      subst hp
      exact Or.inl ⟨_, hl⟩
  | node hi hlen hc ih =>
      intro p hp
      simp only [Tree.pids, mem_cons, mem_flatMap] at hp
      rcases hp with rfl | ⟨c, hcm, hp⟩
      · exact Or.inr ⟨_, hi⟩
      · exact ih c hcm p hp

/-- Setting the parent a child has changes nothing. -/
theorem set_parent_page_id_same {T : Tree} (h : Rep t.disk (some old) T) :
    setParentPageId old T.pid t = (.ok (), t) := by
  cases h with
  | leaf next entries hl =>
      obtain ⟨page, hr, he⟩ := hl
      obtain ⟨ht, hd⟩ := decode_leaf_encode_leaf he
      have hsame := write_page_same hr
      simp only [Tree.pid, setParentPageId, readPage, run_bind, run_get, run_lift, hr, ht, hd,
        if_true, pageSize, he, writePage, hsame]
  | node hi hlen hc =>
      obtain ⟨page, hr, he⟩ := hi
      obtain ⟨ht, hd⟩ := decode_internal_encode_internal he
      have hsame := write_page_same hr
      have hne : PAGE_TYPE_INTERNAL ≠ PAGE_TYPE_LEAF := by decide
      simp only [Tree.pid, setParentPageId, readPage, run_bind, run_get, run_lift, hr, ht, hd,
        hne, if_false, if_true, pageSize, he, writePage, hsame]

theorem update_children_parent_same {cs : List Tree} (h : ∀ c ∈ cs, Rep t.disk (some old) c) :
    updateChildrenParent (cs.map Tree.pid) old t = (.ok (), t) := by
  unfold updateChildrenParent
  induction cs with
  | nil => rfl
  | cons c cs ih =>
      rw [map_cons, forEach, run_bind_ok _ (set_parent_page_id_same (h c (by simp)))]
      exact ih (fun c' hc' => h c' (mem_cons_of_mem _ hc'))

theorem KeepsLeaves.of_parent {d d' : DiskManager} {p : Int} {node : LeafNode}
    (htouch : Touches d d' [p]) (hl : IsLeaf d p node)
    (hl' : IsLeaf d' p { node with parentPageId := parent }) : KeepsLeaves d d' := by
  intro q node' hq
  by_cases hqp : q = p
  · subst hqp
    rw [hq.unique hl]
    exact ⟨parent, hl'⟩
  · exact ⟨node'.parentPageId, htouch.isLeaf (by simpa using hqp) hq⟩

/-- A child moves under another parent exactly when a header can hold that page id. -/
theorem wp_set_parent_page_id {T : Tree} (h : Rep t.disk (some old) T) (hnodup : T.pids.Nodup) :
    wp (setParentPageId new T.pid)
      (fun _ t' => IdFits (some new) ∧ ∃ disk, t' = { t with disk } ∧
        Writes t.disk disk [T.pid] ∧ KeepsLeaves t.disk disk ∧ Rep disk (some new) T)
      (fun _ t' => ¬ IdFits (some new) ∧ t' = t) t := by
  cases h with
  | @leaf _ pageId next entries hl =>
      have hleaf := hl
      obtain ⟨page, hr, he⟩ := hl
      obtain ⟨ht, hd⟩ := decode_leaf_encode_leaf he
      have hfits := encode_leaf_parent he (some new)
      simp only [Tree.pid, setParentPageId, readPage, wp_bind, wp_get, hr, wp_lift_ok, ht,
        if_true, hd, pageSize]
      cases henc : encodeLeaf t.disk.pageSize
          { parentPageId := some new, nextLeafPageId := next, entries := entries } with
      | error e =>
          simp only [wp_lift_error]
          refine ⟨fun hnew => ?_, trivial⟩
          obtain ⟨page', he'⟩ := hfits.mpr hnew
          rw [henc] at he'
          cases he'
      | ok page' =>
          simp only [wp_lift_ok]
          refine wp_write_page hleaf.valid ?_
          intro disk hw
          have hleaf' := isLeaf_of_write_page henc hw
          have htouch := Touches.of_write_page hw
          exact ⟨hfits.mp ⟨page', henc⟩, disk, rfl, Writes.of_write_page hw,
            KeepsLeaves.of_parent htouch hleaf hleaf', .leaf next entries hleaf'⟩
  | @node _ pageId keys children hi hlen hc =>
      have hinternal := hi
      obtain ⟨page, hr, he⟩ := hi
      obtain ⟨ht, hd⟩ := decode_internal_encode_internal he
      have hne : PAGE_TYPE_INTERNAL ≠ PAGE_TYPE_LEAF := by decide
      have hfits := encode_internal_parent he (some new)
      simp only [Tree.pid, setParentPageId, readPage, wp_bind, wp_get, hr, wp_lift_ok, ht,
        hne, if_false, if_true, hd, pageSize]
      cases henc : encodeInternal t.disk.pageSize
          { parentPageId := some new, keys := keys, children := children.map Tree.pid } with
      | error e =>
          simp only [wp_lift_error]
          refine ⟨fun hnew => ?_, trivial⟩
          obtain ⟨page', he'⟩ := hfits.mpr hnew
          rw [henc] at he'
          cases he'
      | ok page' =>
          simp only [wp_lift_ok]
          refine wp_write_page hinternal.valid ?_
          intro disk hw
          have htouch := Touches.of_write_page hw
          refine ⟨hfits.mp ⟨page', henc⟩, disk, rfl, Writes.of_write_page hw, ?_, ?_⟩
          · refine KeepsLeaves.of_touches htouch ?_
            intro p hp node hl
            rw [mem_singleton] at hp
            subst hp
            exact hl.not_internal hinternal
          · refine .node (isInternal_of_write_page henc hw) hlen ?_
            intro c hcm
            refine (hc c hcm).frame htouch ?_
            intro p hp hpm
            rw [mem_singleton] at hpm
            subst hpm
            simp only [Tree.pids, nodup_cons, mem_flatMap, not_exists, not_and] at hnodup
            exact hnodup.1 c hcm hp

/-- The children move under another parent exactly when a header can hold that page id. -/
theorem wp_update_children_parent {cs : List Tree} :
    ∀ {t : BPlusTree}, (∀ c ∈ cs, Rep t.disk (some old) c) → (cs.flatMap Tree.pids).Nodup →
      wp (updateChildrenParent (cs.map Tree.pid) new)
        (fun _ t' => (cs = [] ∨ IdFits (some new)) ∧ ∃ disk, t' = { t with disk } ∧
          Writes t.disk disk (cs.flatMap Tree.pids) ∧ KeepsLeaves t.disk disk ∧
          ∀ c ∈ cs, Rep disk (some new) c)
        (fun _ t' => ¬ IdFits (some new) ∧ t' = t) t := by
  induction cs with
  | nil =>
      intro t _ _
      exact ⟨Or.inl rfl, t.disk, rfl, Writes.refl _ _, KeepsLeaves.refl _, by simp⟩
  | cons c cs ih =>
      intro t h hnodup
      rw [flatMap_cons] at hnodup
      obtain ⟨hc, hcs, hdisj⟩ := nodup_append.mp hnodup
      unfold updateChildrenParent
      rw [map_cons, forEach, wp_bind]
      refine wp_mono (wp_set_parent_page_id (h c (by simp)) hc) ?_ (fun _ _ hE => hE)
      rintro _ _ ⟨hnew, disk, rfl, htouch, hkeep, hrep⟩
      have hfar : ∀ c' ∈ cs, ∀ p ∈ c'.pids, p ∉ [c.pid] := by
        intro c' hc' p hp hpm
        rw [mem_singleton] at hpm
        subst hpm
        exact hdisj _ c.pid_mem_pids _ (mem_flatMap.mpr ⟨c', hc', hp⟩) rfl
      have hrest : ∀ c' ∈ cs, Rep disk (some old) c' := fun c' hc' =>
        (h c' (mem_cons_of_mem _ hc')).frame htouch.toTouches (hfar c' hc')
      refine wp_mono (ih (t := { t with disk }) hrest hcs) ?_
        (fun _ _ hE => absurd hnew hE.1)
      rintro _ _ ⟨_, disk', rfl, htouch', hkeep', hrep'⟩
      refine ⟨Or.inr hnew, disk', rfl, ?_, hkeep.trans hkeep', ?_⟩
      · refine (htouch.trans htouch').mono ?_
        intro p hp
        rw [flatMap_cons]
        rcases mem_append.mp hp with hp | hp
        · rw [mem_singleton] at hp
          subst hp
          exact mem_append_left _ c.pid_mem_pids
        · exact mem_append_right _ hp
      · intro c' hc'
        rcases mem_cons.mp hc' with rfl | hc'
        · exact hrep.frame htouch'.toTouches (fun p hp hpm => hdisj p hp p hpm rfl)
        · exact hrep' c' hc'

end Parents

/-! ## The two halves of an internal node -/

/-- The left node of a split at `position`. -/
def leftHalf (pageId : Int) (keys : List Value) (children : List Tree) (position : Nat) : Tree :=
  .node pageId (keys.take position) (children.take (position + 1))

/-- The right node of a split at `position`. -/
def rightHalf (pageId : Int) (keys : List Value) (children : List Tree) (position : Nat) : Tree :=
  .node pageId (keys.drop (position + 1)) (children.drop (position + 1))

section Halves

variable {keys : List Value} {children : List Tree} {position : Nat} {pageId rightPageId : Int}

/-- The pages of the halves are the pages of the node and the new page. -/
theorem pids_halves : ((leftHalf pageId keys children position).pids ++
      (rightHalf rightPageId keys children position).pids).Perm
    (pageId :: rightPageId :: children.flatMap Tree.pids) := by
  have hsplit : children.flatMap Tree.pids = (children.take (position + 1)).flatMap Tree.pids ++
      (children.drop (position + 1)).flatMap Tree.pids := by
    rw [← flatMap_append, take_append_drop]
  rw [hsplit]
  refine perm_iff_count.mpr ?_
  intro a
  simp only [leftHalf, rightHalf, Tree.pids, count_append, count_cons]
  omega

theorem level_halves {n : Nat} (h : Level (n + 1) (.node pageId keys children)) :
    Level (n + 1) (leftHalf pageId keys children position) ∧
      Level (n + 1) (rightHalf rightPageId keys children position) := by
  cases h with
  | node hc =>
      exact ⟨.node (fun c hcm => hc c (mem_of_mem_take hcm)),
        .node (fun c hcm => hc c (mem_of_mem_drop hcm))⟩

/-- The promoted separator stands between the items of the halves. -/
theorem items_halves (hlen : children.length = keys.length + 1) (hpos : position < keys.length) :
    (Tree.node pageId keys children).items =
      (leftHalf pageId keys children position).items ++
        .inl (keys.getD position .null) ::
          (rightHalf rightPageId keys children position).items := by
  have hkeys : keys = keys.take position ++ keys[position] :: keys.drop (position + 1) := by
    rw [← drop_eq_getElem_cons hpos, take_append_drop]
  have hget : keys.getD position .null = keys[position] := by
    simp [getD_eq_getElem?_getD, hpos]
  obtain ⟨first, rest, hrest⟩ : ∃ first rest, children.drop (position + 1) = first :: rest := by
    cases hd : children.drop (position + 1) with
    | nil =>
        have hl := congrArg length hd
        simp only [length_drop, length_nil] at hl
        omega
    | cons first rest => exact ⟨first, rest, rfl⟩
  obtain ⟨head, tail, htake⟩ : ∃ head tail, children.take (position + 1) = head :: tail := by
    cases ht : children.take (position + 1) with
    | nil =>
        have hl := congrArg length ht
        simp only [length_take, length_nil] at hl
        omega
    | cons head tail => exact ⟨head, tail, rfl⟩
  have hchildren : children = head :: (tail ++ first :: rest) := by
    rw [← cons_append, ← htake, ← hrest, take_append_drop]
  have htail : ((keys.take position).map (Sum.inl : Value → Item)).length
      = (tail.map Tree.items).length := by
    have hl := congrArg length htake
    simp only [length_take, length_cons] at hl
    simp only [length_map, length_take]
    omega
  rw [hget]
  unfold leftHalf rightHalf
  rw [Tree.items, Tree.items, Tree.items, htake, hrest]
  conv_lhs => rw [hkeys, hchildren]
  simp only [map_cons, map_append, interleave, blocksAfter_append _ _ htail,
    blocksAfter, append_assoc]

theorem wp_write_halves {t : BPlusTree} {d : DiskManager} {node old : InternalNode} {P : Int}
    (htouch : Touches d t.disk []) (hold : IsInternal d pageId old)
    (hvalid : t.disk.validPageId rightPageId) (hfresh : ¬ d.validPageId rightPageId)
    (hrep : ∀ c ∈ children, Rep d (some pageId) c)
    (hnodup : (pageId :: children.flatMap Tree.pids).Nodup)
    (hkeys : node.keys = keys) (hchildren : node.children = children.map Tree.pid)
    (hlen : children.length = keys.length + 1) (hpos : position < keys.length)
    (hleft : ∃ page, encodeInternal t.pageSize (internalSplitAt node P P position).1 = .ok page)
    (hright : ∃ page,
      encodeInternal t.pageSize (internalSplitAt node P P position).2.2 = .ok page) :
    wp (writeHalves pageId rightPageId (internalSplitAt node P P position).1
        (internalSplitAt node P P position).2.2)
      (fun _ t' => IdFits (some rightPageId) ∧ ∃ disk, t' = { t with disk } ∧
        Writes t.disk disk (pageId :: rightPageId :: children.flatMap Tree.pids) ∧
        KeepsLeaves d disk ∧ Rep disk (some P) (leftHalf pageId keys children position) ∧
        Rep disk (some P) (rightHalf rightPageId keys children position))
      (fun _ t' => ¬ IdFits (some rightPageId) ∧ ∃ disk, t' = { t with disk } ∧
        Writes t.disk disk (pageId :: rightPageId :: children.flatMap Tree.pids) ∧
        KeepsLeaves d disk ∧ Rep disk (some P) (leftHalf pageId keys children position)) t := by
  obtain ⟨lp, hlp⟩ := hleft
  obtain ⟨rp, hrp⟩ := hright
  obtain ⟨hpid, hcs⟩ := nodup_cons.mp hnodup
  have hne : pageId ≠ rightPageId := by
    rintro rfl
    exact hfresh hold.valid
  have hnotin : ∀ c ∈ children, ∀ p ∈ c.pids, p ≠ pageId ∧ p ≠ rightPageId := by
    intro c hc p hp
    constructor
    · rintro rfl
      exact hpid (mem_flatMap.mpr ⟨c, hc, hp⟩)
    · rintro rfl
      exact hfresh ((hrep c hc).valid _ hp)
  unfold writeHalves
  simp only [wp_bind, wp_get, hlp, wp_lift_ok]
  refine wp_write_page (htouch.valid hold.valid) ?_
  intro disk1 hw1
  simp only [hrp, wp_lift_ok]
  have htouch1 := Touches.of_write_page hw1
  refine wp_write_page (htouch1.valid hvalid) ?_
  intro disk2 hw2
  have hwrites : Writes t.disk disk2 [pageId, rightPageId] :=
    (Writes.of_write_page hw1).trans (Writes.of_write_page hw2)
  have htouch2 : Touches d disk2 [pageId, rightPageId] := htouch.trans hwrites.toTouches
  have hL2 : IsInternal disk2 pageId (internalSplitAt node P P position).1 :=
    (Touches.of_write_page hw2).isInternal (by simpa using hne) (isInternal_of_write_page hlp hw1)
  have hsize : disk1.pageSize = t.pageSize := page_size_write_page hw1
  have hR2 : IsInternal disk2 rightPageId (internalSplitAt node P P position).2.2 :=
    isInternal_of_write_page (by rw [hsize]; exact hrp) hw2
  have hrep2 : ∀ c ∈ children, Rep disk2 (some pageId) c := by
    intro c hc
    refine (hrep c hc).frame htouch2 ?_
    intro p hp hpm
    obtain ⟨h1, h2⟩ := hnotin c hc p hp
    simp [h1, h2] at hpm
  have hkeep2 : KeepsLeaves d disk2 := by
    refine KeepsLeaves.of_touches htouch2 ?_
    intro p hp node' hl
    rcases mem_cons.mp hp with rfl | hp
    · exact hl.not_internal hold
    · rw [mem_singleton] at hp
      subst hp
      exact hfresh hl.valid
  -- the children on the left already have this parent
  have hleftChildren : (internalSplitAt node P P position).1.children
      = (children.take (position + 1)).map Tree.pid := by
    simp [internalSplitAt, hchildren]
  have hrightChildren : (internalSplitAt node P P position).2.2.children
      = (children.drop (position + 1)).map Tree.pid := by
    simp [internalSplitAt, hchildren]
  rw [hleftChildren, hrightChildren]
  refine wp_of_ok (update_children_parent_same (t := { t with disk := disk2 })
    (fun c hc => hrep2 c (mem_of_mem_take hc))) ?_
  have hdropNodup : ((children.drop (position + 1)).flatMap Tree.pids).Nodup := by
    refine List.Nodup.sublist ?_ hcs
    exact (drop_sublist _ _).flatMap _
  have hdropSub : (children.drop (position + 1)).flatMap Tree.pids ⊆
      pageId :: rightPageId :: children.flatMap Tree.pids := by
    intro p hp
    obtain ⟨c, hc, hp⟩ := mem_flatMap.mp hp
    exact mem_cons_of_mem _ (mem_cons_of_mem _
      (mem_flatMap.mpr ⟨c, mem_of_mem_drop hc, hp⟩))
  have hdisjoint : ∀ c ∈ children.take (position + 1), ∀ p ∈ c.pids,
      p ∉ (children.drop (position + 1)).flatMap Tree.pids := by
    intro c hc p hp hpm
    rw [← take_append_drop (position + 1) children, flatMap_append] at hcs
    exact (nodup_append.mp hcs).2.2 p (mem_flatMap.mpr ⟨c, hc, hp⟩) p hpm rfl
  have hleftLen : (children.take (position + 1)).length = (keys.take position).length + 1 := by
    simp only [length_take]
    omega
  refine wp_mono (wp_update_children_parent (t := { t with disk := disk2 })
    (fun c hc => hrep2 c (mem_of_mem_drop hc)) hdropNodup) ?_ ?_
  · rintro _ _ ⟨hfits, disk, rfl, hwrites3, hkeep3, hrep3⟩
    have htouch3 := hwrites3.toTouches
    have hfits' : IdFits (some rightPageId) := by
      rcases hfits with hnil | hfits
      · have hl := congrArg length hnil
        simp only [length_drop, length_nil] at hl
        omega
      · exact hfits
    refine ⟨hfits', disk, rfl, ?_, hkeep2.trans hkeep3, ?_, ?_⟩
    · exact (hwrites.trans hwrites3).mono (append_subset.mpr ⟨by simp, hdropSub⟩)
    · refine .node (htouch3.isInternal ?_ ?_) hleftLen ?_
      · intro hm
        obtain ⟨c, hc, hp⟩ := mem_flatMap.mp hm
        exact (hnotin c (mem_of_mem_drop hc) _ hp).1 rfl
      · simpa [internalSplitAt, hkeys, hchildren] using hL2
      · intro c hc
        exact (hrep2 c (mem_of_mem_take hc)).frame htouch3 (hdisjoint c hc)
    · refine .node (htouch3.isInternal ?_ ?_) ?_ hrep3
      · intro hm
        obtain ⟨c, hc, hp⟩ := mem_flatMap.mp hm
        exact (hnotin c (mem_of_mem_drop hc) _ hp).2 rfl
      · simpa [internalSplitAt, hkeys, hchildren] using hR2
      · simp only [length_drop]
        omega
  · rintro _ _ ⟨hfits, rfl⟩
    refine ⟨hfits, disk2, rfl, hwrites.mono (by simp), hkeep2, ?_⟩
    refine .node ?_ hleftLen (fun c hc => hrep2 c (mem_of_mem_take hc))
    simpa [internalSplitAt, hkeys, hchildren] using hL2

end Halves

/-! ## Entering a child in its parent -/

theorem insertIdx_append {α : Type} (as bs : List α) (x : α) :
    (as ++ bs).insertIdx as.length x = as ++ x :: bs := by
  induction as with
  | nil => simp
  | cons a as ih => simp [ih]

theorem idxOf?_append_cons (as bs : List Int) (x : Int) (h : x ∉ as) :
    (as ++ x :: bs).idxOf? x = some as.length := by
  induction as with
  | nil => simp [idxOf?_cons]
  | cons a as ih =>
      rw [mem_cons, not_or] at h
      rw [cons_append, idxOf?_cons, ih h.2]
      simp [Ne.symm h.1]

theorem insertChild_append (parent : Option Int) {keysL : List Value} (keysR : List Value)
    {childrenL : List Int} (childrenR : List Int) (left right : Int) (sep : Value)
    (h : childrenL.length = keysL.length) :
    insertChild { parentPageId := parent, keys := keysL ++ keysR,
                  children := childrenL ++ left :: childrenR } childrenL.length sep right =
      { parentPageId := parent, keys := keysL ++ sep :: keysR,
        children := childrenL ++ left :: right :: childrenR } := by
  have hkeys : (keysL ++ keysR).insertIdx childrenL.length sep = keysL ++ sep :: keysR := by
    rw [h, insertIdx_append]
  have hchildren : (childrenL ++ left :: childrenR).insertIdx (childrenL.length + 1) right
      = childrenL ++ left :: right :: childrenR := by
    have happ := insertIdx_append (childrenL ++ [left]) childrenR right
    simpa using happ
  simp only [insertChild, hkeys, hchildren]

/-- Whether the parents take the separator of a new page: each has room for it, or has a
boundary at which it can be split, and the separator of the split is taken one level up. -/
def absorbs (t : BPlusTree) : Nat → Int → Int → Value → Int → Bool
  | 0, _, _, _, _ => false
  | rounds + 1, parentPageId, leftPageId, separator, rightPageId =>
      match t.readInternal parentPageId with
      | .error _ => false
      | .ok parent =>
          match parent.children.idxOf? leftPageId with
          | none => false
          | some childPosition =>
              let updated := insertChild parent childPosition separator rightPageId
              match encodeInternal t.pageSize updated with
              | .ok _ => true
              | .error (.ValueError _) =>
                  match updated.parentPageId with
                  | none =>
                      (internalSplit t.pageSize updated (rightPageId + 2)
                        (rightPageId + 2)).isSome
                  | some grandparentPageId =>
                      match internalSplit t.pageSize updated grandparentPageId
                          grandparentPageId with
                      | none => false
                      | some (_, promoted, _) =>
                          decide (rightPageId + 1 < 2 ^ 31) &&
                            absorbs t rounds grandparentPageId parentPageId promoted
                              (rightPageId + 1)
              | .error _ => false

/-- What every step of the propagation keeps. -/
structure Kept (t t' : BPlusTree) : Prop where
  pageSize : t'.pageSize = t.pageSize
  firstLeafPageId : t'.firstLeafPageId = t.firstLeafPageId
  closed : t'.closed = t.closed
  leaves : KeepsLeaves t.disk t'.disk

namespace Kept

variable {t t' t'' : BPlusTree}

theorem refl (t : BPlusTree) : Kept t t := ⟨rfl, rfl, rfl, KeepsLeaves.refl _⟩

theorem trans (h : Kept t t') (h' : Kept t' t'') : Kept t t'' :=
  ⟨h'.pageSize.trans h.pageSize, h'.firstLeafPageId.trans h.firstLeafPageId,
    h'.closed.trans h.closed, h.leaves.trans h'.leaves⟩

end Kept

/-- The file is a tree: the root is the root of its shape and the metadata page says so. -/
structure Shape (t : BPlusTree) (T : Tree) : Prop where
  rep : Rep t.disk none T
  root : T.pid = t.rootPageId
  nodup : T.pids.Nodup
  metadata : IsMetadata t.disk t.rootPageId t.firstLeafPageId

theorem Rep.metadata_not_mem {d : DiskManager} {parent : Option Int} {T : Tree} {root first : Int}
    (h : Rep d parent T) (hmeta : IsMetadata d root first) : METADATA_PAGE_ID ∉ T.pids := by
  intro hmem
  obtain ⟨page, hr, he⟩ := hmeta
  have ht := (decode_metadata_encode_metadata he).1
  rcases h.page_kind _ hmem with ⟨node, page', hr', he'⟩ | ⟨node, page', hr', he'⟩
  · rw [hr, Except.ok.injEq] at hr'
    subst hr'
    rw [(decode_leaf_encode_leaf he').1] at ht
    cases ht
  · rw [hr, Except.ok.injEq] at hr'
    subst hr'
    rw [(decode_internal_encode_internal he').1] at ht
    cases ht

/-- The node `insertIntoParent` makes of the innermost frame. -/
def Frame.grow (f : Frame) (left : Tree) (sep : Value) (right : Tree) : Tree :=
  .node f.pageId (f.keysL ++ sep :: f.keysR) (f.left ++ left :: right :: f.right)

section Grow

variable {d d' : DiskManager} {fs : List Frame} {f : Frame} {left right : Tree} {sep : Value}

theorem FramesRep.items_grow (h : FramesRep d (f :: fs) left.pid) :
    itemsBefore fs ++ (f.grow left sep right).items ++ itemsAfter fs =
      itemsBefore (f :: fs) ++ left.items ++ .inl sep :: right.items ++ itemsAfter (f :: fs) := by
  have hlen : (f.keysL.map (Sum.inl : Value → Item)).length = (f.left.map Tree.items).length := by
    simp [h.1]
  rw [Frame.grow, Tree.items, map_append, map_append, map_cons, map_cons,
    map_cons, interleave_append_cons _ _ _ hlen]
  simp [itemsBefore, itemsAfter, blocksAfter]

theorem pids_grow : ((f.grow left sep right).pids ++ framePids fs).Perm
    ((plug (f :: fs) left).pids ++ right.pids) := by
  have hplug := (pids_plug (f :: fs) left).append_right right.pids
  refine List.Perm.trans ?_ hplug.symm
  refine perm_iff_count.mpr ?_
  intro a
  simp only [Frame.grow, Tree.pids, flatMap_append, flatMap_cons, framePids,
    Frame.pids, count_append, count_cons]
  omega

theorem level_grow {n : Nat} (hleft : Level n left) (hright : Level n right)
    (hf : ∀ c ∈ f.left ++ f.right, Level n c) : Level (n + 1) (f.grow left sep right) := by
  refine .node ?_
  intro c hc
  rw [mem_append, mem_cons, mem_cons] at hc
  rcases hc with hc | rfl | rfl | hc
  · exact hf c (mem_append_left _ hc)
  · exact hleft
  · exact hright
  · exact hf c (mem_append_right _ hc)

/-- `absorbs` reads the pages of the frames only. -/
theorem absorbs_congr {t t' : BPlusTree} (hsize : t'.pageSize = t.pageSize) :
    ∀ {fs : List Frame} {f : Frame} {hole : Int}, FramesRep t.disk (f :: fs) hole →
      FramesRep t'.disk (f :: fs) hole → ∀ (rounds : Nat) (left : Int) (sep : Value)
      (right : Int), absorbs t' rounds f.pageId left sep right =
        absorbs t rounds f.pageId left sep right := by
  intro fs
  induction fs with
  | nil =>
      intro f hole h h' rounds left sep right
      cases rounds with
      | zero => rfl
      | succ rounds =>
          unfold absorbs
          rw [h.2.2.1.readInternal, h'.2.2.1.readInternal, hsize]
          simp only [insertChild, parentOf]
  | cons g fs ih =>
      intro f hole h h' rounds left sep right
      cases rounds with
      | zero => rfl
      | succ rounds =>
          unfold absorbs
          rw [h.2.2.1.readInternal, h'.2.2.1.readInternal, hsize]
          simp only [insertChild, parentOf]
          simp only [ih h.2.2.2.2 h'.2.2.2.2]

end Grow

/-! ## The propagation -/

/-- A new page `right` beside `left` that its parent does not know yet. -/
structure Pending (t : BPlusTree) (fs : List Frame) (left right : Tree) (sep : Value) : Prop where
  frames : FramesRep t.disk fs left.pid
  repLeft : Rep t.disk (parentOf fs) left
  repRight : Rep t.disk (parentOf fs) right
  nodup : ((plug fs left).pids ++ right.pids).Nodup
  root : (plug fs left).pid = t.rootPageId
  metadata : IsMetadata t.disk t.rootPageId t.firstLeafPageId
  fits : KeyFits t.pageSize sep
  last : right.pid + 1 = t.disk.pageCount

/-- The tree grew on one level, and by the pages that were allocated. -/
structure Grown (t : BPlusTree) (fs : List Frame) (left right : Tree) (t' : BPlusTree)
    (T : Tree) : Prop where
  level : ∀ n, Level n left → Level n right → FramesLevel n fs → ∃ m, Level m T
  pages : T.pids.length + t.disk.pageCount =
    (plug fs left).pids.length + right.pids.length + t'.disk.pageCount

/-- The new page was entered: the items have it after the old one. -/
def Entered (t : BPlusTree) (fs : List Frame) (left right : Tree) (sep : Value)
    (t' : BPlusTree) : Prop :=
  Kept t t' ∧ ∃ T, Shape t' T ∧
    T.items = itemsBefore fs ++ left.items ++ .inl sep :: right.items ++ itemsAfter fs ∧
    Grown t fs left right t' T

/-- The propagation gave up: what the root still reaches was there before. -/
def Dropped (t : BPlusTree) (fs : List Frame) (left right : Tree) (t' : BPlusTree) : Prop :=
  Kept t t' ∧ ∃ T, Shape t' T ∧
    ∀ p, .inr p ∈ T.items → .inr p ∈ (plug fs left).items ∨ .inr p ∈ right.items

section Propagation

variable {t : BPlusTree} {fs : List Frame} {f : Frame} {left right : Tree} {sep : Value}

namespace Pending

/-- Without a further write the tree is the one without the new page. -/
theorem dropped (h : Pending t fs left right sep) : Dropped t fs left right t := by
  refine ⟨Kept.refl t, plug fs left, ⟨h.frames.rep_plug h.repLeft, h.root, ?_, h.metadata⟩, ?_⟩
  · exact (nodup_append.mp h.nodup).1
  · intro p hp
    exact Or.inl hp

section

variable (h : Pending t (f :: fs) left right sep)
include h

theorem children : ∀ c ∈ f.left ++ left :: right :: f.right, Rep t.disk (some f.pageId) c := by
  intro c hc
  simp only [mem_append, mem_cons] at hc
  rcases hc with hc | rfl | rfl | hc
  · exact h.frames.2.2.2.1 c (mem_append_left _ hc)
  · exact h.repLeft
  · exact h.repRight
  · exact h.frames.2.2.2.1 c (mem_append_right _ hc)

theorem length_children :
    (f.left ++ left :: right :: f.right).length = (f.keysL ++ sep :: f.keysR).length + 1 := by
  have hl := h.frames.1
  have hr := h.frames.2.1
  simp only [length_append, length_cons]
  omega

theorem nodup_grow : ((f.grow left sep right).pids ++ framePids fs).Nodup :=
  pids_grow.nodup_iff.mpr h.nodup

theorem keyFits : ∀ key ∈ f.keysL ++ sep :: f.keysR, KeyFits t.pageSize key := by
  obtain ⟨page, _, he⟩ := h.frames.2.2.1
  intro key hkey
  simp only [mem_append, mem_cons] at hkey
  rcases hkey with hkey | rfl | hkey
  · exact keyFits_of_encode_internal he key (mem_append_left _ hkey)
  · exact h.fits
  · exact keyFits_of_encode_internal he key (mem_append_right _ hkey)

/-- The pages in use are below the next page to be allocated. -/
theorem valid : ∀ p ∈ (f.grow left sep right).pids ++ framePids fs, t.disk.validPageId p := by
  intro p hp
  rcases mem_append.mp hp with hp | hp
  · simp only [Frame.grow, Tree.pids, mem_cons, mem_flatMap] at hp
    rcases hp with rfl | ⟨c, hc, hp⟩
    · exact h.frames.2.2.1.valid
    · exact (h.children c (by simpa using hc)).valid p hp
  · exact h.frames.2.2.2.2.valid p hp

end

theorem metadata_not_mem (h : Pending t fs left right sep) :
    METADATA_PAGE_ID ∉ (plug fs left).pids ++ right.pids := by
  rw [mem_append, not_or]
  exact ⟨(h.frames.rep_plug h.repLeft).metadata_not_mem h.metadata,
    h.repRight.metadata_not_mem h.metadata⟩

theorem entered_of_encode (h : Pending t (f :: fs) left right sep) {page : Bytes}
    (he : encodeInternal t.pageSize
      { parentPageId := parentOf fs, keys := f.keysL ++ sep :: f.keysR,
        children := (f.left ++ left :: right :: f.right).map Tree.pid } = .ok page) :
    wp (writePage f.pageId page) (fun _ t' => Entered t (f :: fs) left right sep t')
      (fun _ _ => False) t := by
  refine wp_write_page h.frames.2.2.1.valid ?_
  intro disk hw
  have htouch := Touches.of_write_page hw
  have hnodup := h.nodup_grow
  have hnot : ∀ p ∈ (f.left ++ left :: right :: f.right).flatMap Tree.pids ++ framePids fs,
      p ∉ [f.pageId] := by
    intro p hp hpm
    rw [mem_singleton] at hpm
    subst hpm
    rw [Frame.grow, Tree.pids, cons_append] at hnodup
    exact (nodup_cons.mp hnodup).1 hp
  have hnode : Rep disk (parentOf fs) (f.grow left sep right) := by
    refine .node (isInternal_of_write_page he hw) h.length_children ?_
    intro c hc
    refine (h.children c hc).frame htouch (fun p hp => hnot p (mem_append_left _ ?_))
    exact mem_flatMap.mpr ⟨c, hc, hp⟩
  have hframes : FramesRep disk fs (f.grow left sep right).pid :=
    h.frames.2.2.2.2.frame htouch (fun p hp => hnot p (mem_append_right _ hp))
  have hmeta : METADATA_PAGE_ID ∉ [f.pageId] := by
    intro hm
    have hmem : METADATA_PAGE_ID ∈ (f.grow left sep right).pids ++ framePids fs := by
      rw [mem_singleton] at hm
      rw [hm]
      simp [Frame.grow, Tree.pids]
    exact h.metadata_not_mem (pids_grow.mem_iff.mp hmem)
  refine ⟨⟨page_size_write_page hw, rfl, rfl, ?_⟩, plug fs (f.grow left sep right),
    ⟨hframes.rep_plug hnode, ?_, ?_, htouch.isMetadata hmeta h.metadata⟩, ?_, ?_, ?_⟩
  · refine KeepsLeaves.of_touches htouch ?_
    intro p hp node hl
    rw [mem_singleton] at hp
    subst hp
    exact hl.not_internal h.frames.2.2.1
  · have hpid : (plug fs (f.grow left sep right)).pid = (plug fs (f.fill left)).pid :=
      pid_plug fs rfl
    exact hpid.trans h.root
  · exact (pids_plug fs _).nodup_iff.mpr hnodup
  · rw [hframes.items_plug, h.frames.items_grow]
  · intro n hleft hright hlevel
    exact ⟨_, (level_grow hleft hright hlevel.1).plug hlevel.2⟩
  · rw [(pids_plug fs _).length_eq, ← length_append, ← pids_grow.length_eq,
      page_count_write_page hw]

/-- The page ids in use fit in a header when the next one does. -/
theorem idFits_of_valid {d : DiskManager} {p : Int} (hp : d.validPageId p)
    (hn : IdFits (some (d.pageCount : Int))) : IdFits (some p) := by
  unfold validPageId at hp
  unfold IdFits at hn ⊢
  omega

end Pending

theorem wp_write_new_root {newRoot : Int} (hleft : Rep t.disk (some newRoot) left)
    (hright : Rep t.disk (some newRoot) right) (hvalid : t.disk.validPageId newRoot)
    (hmeta : IsMetadata t.disk t.rootPageId t.firstLeafPageId)
    (hkey : KeyFits t.pageSize sep) (hfleft : IdFits (some left.pid))
    (hfright : IdFits (some right.pid)) (hfroot : IdFits (some newRoot))
    (hnodup : (METADATA_PAGE_ID :: newRoot :: (left.pids ++ right.pids)).Nodup) :
    wp (writeNewRoot newRoot
        { parentPageId := none, keys := [sep], children := [left.pid, right.pid] })
      (fun _ t' => ∃ disk, t' = { t with disk, rootPageId := newRoot } ∧
        Writes t.disk disk [newRoot, METADATA_PAGE_ID] ∧
        Shape t' (.node newRoot [sep] [left, right]))
      (fun _ _ => False) t := by
  obtain ⟨page, hpage⟩ := encode_internal_single hkey hfleft hfright
  unfold writeNewRoot
  simp only [wp_bind, wp_get, hpage, wp_lift_ok]
  refine wp_write_page hvalid ?_
  intro disk1 hw1
  have htouch1 := Touches.of_write_page hw1
  obtain ⟨hnotMeta, hrest⟩ := nodup_cons.mp hnodup
  obtain ⟨hnotRoot, htrees⟩ := nodup_cons.mp hrest
  have hmeta1 : IsMetadata disk1 t.rootPageId t.firstLeafPageId := by
    refine htouch1.isMetadata ?_ hmeta
    intro hm
    rw [mem_singleton] at hm
    exact hnotMeta (by simp [hm])
  simp only [wp_modify]
  refine wp_write_metadata (t := { t with disk := disk1, rootPageId := newRoot }) hmeta1 rfl
    hfroot ?_
  intro disk2 hmeta2 hwrites2
  have htouch2 := hwrites2.toTouches
  have hwrites : Writes t.disk disk2 [newRoot, METADATA_PAGE_ID] :=
    (Writes.of_write_page hw1).trans hwrites2
  have htouch := hwrites.toTouches
  have hnot : ∀ p ∈ left.pids ++ right.pids, p ∉ [newRoot, METADATA_PAGE_ID] := by
    intro p hp hpm
    simp only [mem_cons, not_mem_nil, or_false] at hpm
    rcases hpm with rfl | rfl
    · exact hnotRoot hp
    · exact hnotMeta (mem_cons_of_mem _ hp)
  refine ⟨disk2, rfl, hwrites, ⟨?_, rfl, ?_, hmeta2⟩⟩
  · refine .node ?_ rfl ?_
    · refine htouch2.isInternal ?_ (isInternal_of_write_page hpage hw1)
      intro hm
      rw [mem_singleton] at hm
      exact hnotMeta (by simp [hm])
    · intro c hc
      simp only [mem_cons, not_mem_nil, or_false] at hc
      rcases hc with rfl | rfl
      · exact hleft.frame htouch (fun p hp => hnot p (mem_append_left _ hp))
      · exact hright.frame htouch (fun p hp => hnot p (mem_append_right _ hp))
  · simpa [Tree.pids] using hrest

namespace Pending

theorem next_fresh (h : Pending t (f :: fs) left right sep) :
    (t.disk.pageCount : Int) ∉ (f.grow left sep right).pids ++ framePids fs := by
  intro hm
  have hvalid := (h.valid _ hm).2
  omega

theorem nodup_halves (h : Pending t (f :: fs) left right sep) (position : Nat) :
    (METADATA_PAGE_ID ::
      ((leftHalf f.pageId (f.keysL ++ sep :: f.keysR) (f.left ++ left :: right :: f.right)
          position).pids ++
        (rightHalf t.disk.pageCount (f.keysL ++ sep :: f.keysR)
          (f.left ++ left :: right :: f.right) position).pids ++ framePids fs)).Nodup := by
  have hperm : ((leftHalf f.pageId (f.keysL ++ sep :: f.keysR)
      (f.left ++ left :: right :: f.right) position).pids ++
        (rightHalf t.disk.pageCount (f.keysL ++ sep :: f.keysR)
          (f.left ++ left :: right :: f.right) position).pids ++ framePids fs).Perm
      (t.disk.pageCount :: ((f.grow left sep right).pids ++ framePids fs)) := by
    refine (pids_halves.append_right _).trans ?_
    rw [Frame.grow, Tree.pids, cons_append, cons_append, cons_append]
    exact List.Perm.swap _ _ _
  have hmeta : METADATA_PAGE_ID ∉ (f.grow left sep right).pids ++ framePids fs := fun hm =>
    h.metadata_not_mem (pids_grow.mem_iff.mp hm)
  refine (hperm.cons _).nodup_iff.mpr (nodup_cons.mpr ⟨?_, nodup_cons.mpr
    ⟨h.next_fresh, h.nodup_grow⟩⟩)
  rw [mem_cons, not_or]
  refine ⟨?_, hmeta⟩
  have hvalid := h.metadata.valid
  unfold METADATA_PAGE_ID validPageId at *
  omega

theorem nodup_children (h : Pending t (f :: fs) left right sep) :
    (f.pageId :: (f.left ++ left :: right :: f.right).flatMap Tree.pids).Nodup := by
  have hnodup := (nodup_append.mp h.nodup_grow).1
  rwa [Frame.grow, Tree.pids] at hnodup

variable {position : Nat} {p : Int}

section

variable (h : Pending t (f :: fs) left right sep)
include h

theorem keyFits_getD (hpos : position < (f.keysL ++ sep :: f.keysR).length) :
    KeyFits t.pageSize ((f.keysL ++ sep :: f.keysR).getD position .null) := by
  apply h.keyFits
  rw [getD_eq_getElem?_getD, getElem?_eq_getElem hpos, Option.getD_some]
  exact getElem_mem hpos

theorem encodes {node : InternalNode} {parent : Option Int}
    (hnode : node = { parentPageId := parent, keys := f.keysL ++ sep :: f.keysR,
                      children := (f.left ++ left :: right :: f.right).map Tree.pid }) :
    ∀ key ∈ node.keys, ∃ field, encodeKeyField key = .ok field := by
  subst hnode
  exact fun key hkey => (h.keyFits key hkey).imp (fun _ hfits => hfits.1)

/-- The leaves of the grown tree are those of the tree and of the new page. -/
theorem leaf_of_grow
    (hp : .inr p ∈ itemsBefore fs ++ (f.grow left sep right).items ++ itemsAfter fs) :
    .inr p ∈ (plug (f :: fs) left).items ∨ .inr p ∈ right.items := by
  rw [h.frames.items_grow] at hp
  rw [h.frames.items_plug]
  simp only [mem_append, mem_cons, reduceCtorEq, false_or] at hp ⊢
  tauto

/-- The items of the halves, with the promoted separator, are those of the grown node. -/
theorem items_split (r : Int) (hpos : position < (f.keysL ++ sep :: f.keysR).length) :
    (f.grow left sep right).items =
      (leftHalf f.pageId (f.keysL ++ sep :: f.keysR) (f.left ++ left :: right :: f.right)
          position).items ++
        .inl ((f.keysL ++ sep :: f.keysR).getD position .null) ::
          (rightHalf r (f.keysL ++ sep :: f.keysR) (f.left ++ left :: right :: f.right)
            position).items :=
  items_halves h.length_children hpos

theorem leaf_of_leftHalf (hpos : position < (f.keysL ++ sep :: f.keysR).length)
    (hp : .inr p ∈ (plug fs (leftHalf f.pageId (f.keysL ++ sep :: f.keysR)
      (f.left ++ left :: right :: f.right) position)).items) :
    .inr p ∈ (plug (f :: fs) left).items ∨ .inr p ∈ right.items := by
  apply h.leaf_of_grow
  rw [FramesRep.items_plug h.frames.2.2.2.2] at hp
  rw [h.items_split right.pid hpos]
  simp only [mem_append] at hp ⊢
  tauto

theorem leaf_of_rightHalf (hpos : position < (f.keysL ++ sep :: f.keysR).length) {r : Int}
    (hp : .inr p ∈ (rightHalf r (f.keysL ++ sep :: f.keysR)
      (f.left ++ left :: right :: f.right) position).items) :
    .inr p ∈ (plug (f :: fs) left).items ∨ .inr p ∈ right.items := by
  apply h.leaf_of_grow
  rw [h.items_split r hpos]
  simp only [mem_append, mem_cons]
  tauto

theorem le_of_mem_halves
    (hp : p ∈ (leftHalf f.pageId (f.keysL ++ sep :: f.keysR)
        (f.left ++ left :: right :: f.right) position).pids ++
      (rightHalf t.disk.pageCount (f.keysL ++ sep :: f.keysR)
        (f.left ++ left :: right :: f.right) position).pids) : p ≤ t.disk.pageCount := by
  have hmem := pids_halves.mem_iff.mp hp
  rw [mem_cons, mem_cons] at hmem
  rcases hmem with rfl | rfl | hmem
  · exact h.frames.2.2.1.valid.2.le
  · exact le_rfl
  · obtain ⟨c, hc, hpc⟩ := mem_flatMap.mp hmem
    exact ((h.children c hc).valid p hpc).2.le

end

theorem items_new_root (h : Pending t [f] left right sep) (newRoot r : Int)
    (hpos : position < (f.keysL ++ sep :: f.keysR).length) :
    (Tree.node newRoot [(f.keysL ++ sep :: f.keysR).getD position .null]
      [leftHalf f.pageId (f.keysL ++ sep :: f.keysR) (f.left ++ left :: right :: f.right) position,
        rightHalf r (f.keysL ++ sep :: f.keysR) (f.left ++ left :: right :: f.right)
          position]).items =
      itemsBefore [f] ++ left.items ++ .inl sep :: right.items ++ itemsAfter [f] := by
  rw [← h.frames.items_grow, h.items_split r hpos, Tree.items]
  simp [interleave, blocksAfter, itemsBefore, itemsAfter]

theorem length_halves (_ : Pending t (f :: fs) left right sep) (position : Nat) (r : Int) :
    (leftHalf f.pageId (f.keysL ++ sep :: f.keysR) (f.left ++ left :: right :: f.right)
        position).pids.length +
      (rightHalf r (f.keysL ++ sep :: f.keysR) (f.left ++ left :: right :: f.right)
        position).pids.length + (framePids fs).length =
      (plug (f :: fs) left).pids.length + right.pids.length + 1 := by
  have hhalves := (@pids_halves (f.keysL ++ sep :: f.keysR)
    (f.left ++ left :: right :: f.right) position f.pageId r).length_eq
  have hgrow := (@pids_grow fs f left right sep).length_eq
  rw [Frame.grow, Tree.pids] at hgrow
  simp only [length_append, length_cons] at hhalves hgrow
  omega

theorem grown_new_root (h : Pending t [f] left right sep) {t' : BPlusTree} (newRoot : Int)
    (hcount : t'.disk.pageCount = t.disk.allocatePage.2.allocatePage.2.pageCount) :
    Grown t [f] left right t' (Tree.node newRoot [(f.keysL ++ sep :: f.keysR).getD position .null]
      [leftHalf f.pageId (f.keysL ++ sep :: f.keysR) (f.left ++ left :: right :: f.right) position,
        rightHalf t.disk.pageCount (f.keysL ++ sep :: f.keysR)
          (f.left ++ left :: right :: f.right) position]) := by
  constructor
  · intro n hleft hright hlevel
    obtain ⟨hL, hR⟩ := @level_halves _ _ position _ t.disk.pageCount _
      (level_grow hleft hright hlevel.1)
    refine ⟨n + 2, .node ?_⟩
    intro c hc
    simp only [mem_cons, not_mem_nil, or_false] at hc
    rcases hc with rfl | rfl
    · exact hL
    · exact hR
  · have hlength := h.length_halves position t.disk.pageCount
    rw [hcount]
    simp only [page_count_allocate_page]
    simp only [Tree.pids, flatMap_cons, flatMap_nil, append_nil,
      length_cons, length_append, framePids, length_nil] at hlength ⊢
    omega

theorem metadata_not_halves (h : Pending t (f :: fs) left right sep) :
    METADATA_PAGE_ID ∉ f.pageId :: (t.disk.pageCount : Int) ::
      (f.left ++ left :: right :: f.right).flatMap Tree.pids := by
  have hnodup := h.nodup_halves 0
  intro hm
  refine (nodup_cons.mp hnodup).1 (mem_append_left _ ?_)
  exact pids_halves.mem_iff.mpr hm

theorem frames_not_halves (h : Pending t (f :: fs) left right sep) :
    ∀ p ∈ framePids fs, p ∉ f.pageId :: (t.disk.pageCount : Int) ::
      (f.left ++ left :: right :: f.right).flatMap Tree.pids := by
  intro p hp hm
  have hnodup := (nodup_cons.mp (h.nodup_halves 0)).2
  exact (nodup_append.mp hnodup).2.2 p (pids_halves.mem_iff.mpr hm) p hp rfl

end Pending

/-- The left half was written over the full node, under the parent `P`. -/
structure HalvedLeft (t : BPlusTree) (f : Frame) (left right : Tree) (sep : Value) (P : Int)
    (position : Nat) (disk : DiskManager) : Prop where
  touches : Touches t.disk disk (f.pageId :: (t.disk.pageCount : Int) ::
    (f.left ++ left :: right :: f.right).flatMap Tree.pids)
  keeps : KeepsLeaves t.disk disk
  repLeft : Rep disk (some P) (leftHalf f.pageId (f.keysL ++ sep :: f.keysR)
    (f.left ++ left :: right :: f.right) position)

/-- Both halves were written, and their children know it. -/
structure Halved (t : BPlusTree) (f : Frame) (left right : Tree) (sep : Value) (P : Int)
    (position : Nat) (disk : DiskManager) : Prop
    extends HalvedLeft t f left right sep P position disk where
  repRight : Rep disk (some P) (rightHalf t.disk.pageCount (f.keysL ++ sep :: f.keysR)
    (f.left ++ left :: right :: f.right) position)

namespace Pending

variable {node : InternalNode} {position : Nat} {g : Frame} {disk : DiskManager}

theorem wp_write_halves (h : Pending t (f :: fs) left right sep) {t1 : BPlusTree}
    {L R : InternalNode} {promoted : Value} {P : Int} (htouch : Touches t.disk t1.disk [])
    (hcount : t.disk.pageCount < t1.disk.pageCount)
    (hnode : node = { parentPageId := parentOf fs, keys := f.keysL ++ sep :: f.keysR,
                      children := (f.left ++ left :: right :: f.right).map Tree.pid })
    (hpos : position < (f.keysL ++ sep :: f.keysR).length)
    (hat : internalSplitAt node P P position = (L, promoted, R))
    (hL : ∃ page, encodeInternal t.pageSize L = .ok page)
    (hR : ∃ page, encodeInternal t.pageSize R = .ok page) :
    wp (writeHalves f.pageId t.disk.pageCount L R)
      (fun _ t' => IdFits (some (t.disk.pageCount : Int)) ∧ ∃ disk, t' = { t1 with disk } ∧
        disk.pageCount = t1.disk.pageCount ∧ Halved t f left right sep P position disk)
      (fun _ t' => ¬ IdFits (some (t.disk.pageCount : Int)) ∧ ∃ disk, t' = { t1 with disk } ∧
        HalvedLeft t f left right sep P position disk) t1 := by
  have hLnode : L = (internalSplitAt node P P position).1 := by rw [hat]
  have hRnode : R = (internalSplitAt node P P position).2.2 := by rw [hat]
  have hsize : t1.pageSize = t.pageSize := htouch.pageSize
  have hvalid : t1.disk.validPageId t.disk.pageCount := by
    unfold validPageId
    omega
  have hfresh : ¬ t.disk.validPageId t.disk.pageCount := by
    unfold validPageId
    omega
  have hkeys : node.keys = f.keysL ++ sep :: f.keysR := by rw [hnode]
  have hchildren : node.children = (f.left ++ left :: right :: f.right).map Tree.pid := by
    rw [hnode]
  have hwp := BPlusTree.wp_write_halves (P := P) htouch h.frames.2.2.1 hvalid hfresh h.children
    h.nodup_children hkeys hchildren h.length_children hpos
    (by rw [← hLnode, hsize]; exact hL) (by rw [← hRnode, hsize]; exact hR)
  rw [hLnode, hRnode]
  refine wp_mono hwp ?_ ?_
  · rintro _ _ ⟨hfits, disk, rfl, hwrites, hkeep, hrepL, hrepR⟩
    exact ⟨hfits, disk, rfl, hwrites.same_count,
      ⟨⟨htouch.trans hwrites.toTouches, hkeep, hrepL⟩, hrepR⟩⟩
  · rintro _ _ ⟨hfits, disk, rfl, hwrites, hkeep, hrepL⟩
    exact ⟨hfits, disk, rfl, ⟨htouch.trans hwrites.toTouches, hkeep, hrepL⟩⟩

theorem split_facts {L R : InternalNode} {promoted : Value} {P : Int} {parent : Option Int}
    (hnode : node = { parentPageId := parent, keys := f.keysL ++ sep :: f.keysR,
                      children := (f.left ++ left :: right :: f.right).map Tree.pid })
    (hat : internalSplitAt node P P position = (L, promoted, R))
    (hL : ∃ page, encodeInternal t.pageSize L = .ok page) :
    promoted = (f.keysL ++ sep :: f.keysR).getD position .null ∧ IdFits (some P) := by
  constructor
  · have hkey := congrArg (fun x => x.2.1) hat
    simpa [internalSplitAt, hnode] using hkey.symm
  · obtain ⟨_, _, _, _, _, _, _, _, _, _, hfits⟩ := encode_internal_ok_iff.mp hL
    have hLnode : L = (internalSplitAt node P P position).1 := by rw [hat]
    rw [hLnode] at hfits
    exact hfits

/-- The root is full: it is split under a new root, unless no split is valid. -/
theorem split_root_internal_spec (h : Pending t [f] left right sep)
    (hnode : node = { parentPageId := none, keys := f.keysL ++ sep :: f.keysR,
                      children := (f.left ++ left :: right :: f.right).map Tree.pid }) :
    wp (splitRootInternal f.pageId node)
      (fun _ t' => (internalSplit t.pageSize node (right.pid + 2)
        (right.pid + 2)).isSome = true ∧ Entered t [f] left right sep t')
      (fun _ t' => (internalSplit t.pageSize node (right.pid + 2)
        (right.pid + 2)).isSome = false ∧ Dropped t [f] left right t') t := by
  have hlast : (t.disk.pageCount : Int) + 1 = right.pid + 2 := by
    have hl := h.last
    omega
  unfold splitRootInternal
  simp only [wp_bind, wp_get, hlast, choose_internal_split_eq (h.encodes hnode)]
  cases hsplit : internalSplit t.pageSize node (right.pid + 2) (right.pid + 2) with
  | none => exact ⟨rfl, h.dropped⟩
  | some split =>
      obtain ⟨L, promoted, R⟩ := split
      obtain ⟨position, hpos, hat, hL, hR⟩ := internalSplit_some hsplit
      have hpos' : position < (f.keysL ++ sep :: f.keysR).length := by simpa [hnode] using hpos
      obtain ⟨rfl, hrootFits⟩ := split_facts hnode hat hL
      have hrightFits : IdFits (some (t.disk.pageCount : Int)) := by
        unfold IdFits at hrootFits ⊢
        omega
      have hpageFits := idFits_of_valid h.frames.2.2.1.valid hrightFits
      simp only [Option.elim_some, wp_lift_ok, wp_allocate_page]
      refine wp_ensureAllocated (by simp [hlast]) ?_
      have htouch : Touches t.disk t.disk.allocatePage.2.allocatePage.2 [] :=
        (Touches.of_allocate_page t.disk).trans (Touches.of_allocate_page _)
      have hright : t.disk.pageCount + 1 ≤ t.disk.allocatePage.2.allocatePage.2.pageCount := by
        simp only [page_count_allocate_page]
        omega
      refine wp_mono (h.wp_write_halves htouch hright hnode hpos' hat hL hR) ?_ ?_
      · rintro _ _ ⟨_, disk, rfl, hcount, hhalved⟩
        have hmeta := hhalved.touches.isMetadata h.metadata_not_halves h.metadata
        have hvalid : disk.validPageId (right.pid + 2) := by
          simp only [page_count_allocate_page] at hcount
          unfold validPageId
          omega
        have hsize : disk.pageSize = t.disk.pageSize := hhalved.touches.pageSize
        have hkey : KeyFits disk.pageSize ((f.keysL ++ sep :: f.keysR).getD position .null) := by
          rw [hsize]
          exact h.keyFits_getD hpos'
        have hnodup := h.nodup_halves position
        have hnew : (METADATA_PAGE_ID :: (right.pid + 2) ::
            ((leftHalf f.pageId (f.keysL ++ sep :: f.keysR)
              (f.left ++ left :: right :: f.right) position).pids ++
            (rightHalf t.disk.pageCount (f.keysL ++ sep :: f.keysR)
              (f.left ++ left :: right :: f.right) position).pids)).Nodup := by
          simp only [framePids, flatMap_nil, append_nil] at hnodup
          obtain ⟨hnotMeta, hrest⟩ := nodup_cons.mp hnodup
          have hv := h.metadata.valid.2
          refine nodup_cons.mpr ⟨?_, nodup_cons.mpr ⟨?_, hrest⟩⟩
          · rw [mem_cons, not_or]
            exact ⟨by omega, hnotMeta⟩
          · intro hm
            have hle := h.le_of_mem_halves hm
            omega
        have hwp := wp_write_new_root (t := { t with disk }) hhalved.repLeft hhalved.repRight
          hvalid hmeta hkey hpageFits hrightFits hrootFits hnew
        refine wp_mono hwp ?_ (fun _ _ hE => hE.elim)
        rintro _ _ ⟨disk', rfl, hwrites', hshape⟩
        have htouch' := hwrites'.toTouches
        refine ⟨rfl, ⟨htouch'.pageSize.trans hsize, rfl, rfl, ?_⟩, _, hshape, ?_, ?_⟩
        · refine hhalved.keeps.then_touches htouch' ?_
          intro p hp node' hl
          have hv := hl.valid.2
          simp only [mem_cons, not_mem_nil, or_false] at hp
          rcases hp with rfl | rfl
          · omega
          · exact (Rep.leaf _ _ hl).metadata_not_mem h.metadata (by simp [Tree.pids])
        · exact h.items_new_root _ _ hpos'
        · refine h.grown_new_root _ (hwrites'.same_count.trans hcount)
      · rintro _ _ ⟨hnot, _⟩
        exact absurd hrightFits hnot

theorem read_parent (h : Pending t (f :: fs) left right sep) :
    ∃ parent, t.readInternal f.pageId = .ok parent ∧
      parent.children.idxOf? left.pid = some f.left.length ∧
      insertChild parent f.left.length sep right.pid =
        { parentPageId := parentOf fs, keys := f.keysL ++ sep :: f.keysR,
          children := (f.left ++ left :: right :: f.right).map Tree.pid } := by
  refine ⟨_, h.frames.2.2.1.readInternal, ?_, ?_⟩
  · have hlen : f.left.length = (f.left.map Tree.pid).length := by simp
    rw [hlen]
    refine idxOf?_append_cons _ _ _ ?_
    intro hm
    obtain ⟨c, hc, hpid⟩ := mem_map.mp hm
    have hcs := (nodup_cons.mp h.nodup_children).2
    rw [flatMap_append, flatMap_cons] at hcs
    refine (nodup_append.mp hcs).2.2 left.pid (mem_flatMap.mpr ⟨c, hc, ?_⟩) left.pid
      (mem_append_left _ left.pid_mem_pids) rfl
    rw [← hpid]
    exact c.pid_mem_pids
  · have hlen : (f.left.map Tree.pid).length = f.keysL.length := by simp [h.frames.1]
    have hins := insertChild_append (parentOf fs) f.keysR (f.right.map Tree.pid) left.pid right.pid
      sep hlen
    simpa using hins

variable (h : Pending t (f :: g :: fs) left right sep)
include h

theorem pid_plug_leftHalf (position : Nat) :
    (plug (g :: fs) (leftHalf f.pageId (f.keysL ++ sep :: f.keysR)
      (f.left ++ left :: right :: f.right) position)).pid = t.rootPageId := by
  have hpid : (plug (g :: fs) (leftHalf f.pageId (f.keysL ++ sep :: f.keysR)
      (f.left ++ left :: right :: f.right) position)).pid
      = (plug (g :: fs) (f.fill left)).pid := pid_plug _ rfl
  exact hpid.trans h.root

theorem dropped_leftHalf (hpos : position < (f.keysL ++ sep :: f.keysR).length)
    (hhalved : HalvedLeft t f left right sep g.pageId position disk) :
    Dropped t (f :: g :: fs) left right { t with disk } := by
  have hframes := h.frames.2.2.2.2.frame hhalved.touches h.frames_not_halves
  refine ⟨⟨hhalved.touches.pageSize, rfl, rfl, hhalved.keeps⟩, plug (g :: fs) (leftHalf f.pageId
    (f.keysL ++ sep :: f.keysR) (f.left ++ left :: right :: f.right) position),
    ⟨FramesRep.rep_plug hframes hhalved.repLeft, h.pid_plug_leftHalf position, ?_,
      hhalved.touches.isMetadata h.metadata_not_halves h.metadata⟩, ?_⟩
  · have hnodup := (nodup_cons.mp (h.nodup_halves position)).2
    refine (pids_plug (g :: fs) _).nodup_iff.mpr (List.Nodup.sublist ?_ hnodup)
    exact (sublist_append_left _ _).append_right _
  · intro p hp
    exact h.leaf_of_leftHalf hpos hp

/-- After a split below the root, the right half is the page the next parent does not know. -/
theorem next (hpos : position < (f.keysL ++ sep :: f.keysR).length)
    (hcount : disk.pageCount = t.disk.allocatePage.2.pageCount)
    (hhalved : Halved t f left right sep g.pageId position disk) :
    Pending { t with disk } (g :: fs)
      (leftHalf f.pageId (f.keysL ++ sep :: f.keysR) (f.left ++ left :: right :: f.right) position)
      (rightHalf t.disk.pageCount (f.keysL ++ sep :: f.keysR)
        (f.left ++ left :: right :: f.right) position)
      ((f.keysL ++ sep :: f.keysR).getD position .null) where
  frames := h.frames.2.2.2.2.frame hhalved.touches h.frames_not_halves
  repLeft := hhalved.repLeft
  repRight := hhalved.repRight
  nodup := by
    have hnodup := (nodup_cons.mp (h.nodup_halves position)).2
    refine ((pids_plug (g :: fs) _).append_right _).nodup_iff.mpr ?_
    refine (List.Perm.nodup_iff ?_).mp hnodup
    rw [append_assoc, append_assoc]
    exact List.Perm.append_left _ perm_append_comm
  root := h.pid_plug_leftHalf position
  metadata := hhalved.touches.isMetadata h.metadata_not_halves h.metadata
  fits := by
    have hsize : disk.pageSize = t.disk.pageSize := hhalved.touches.pageSize
    change KeyFits disk.pageSize _
    rw [hsize]
    exact h.keyFits_getD hpos
  last := by
    simp only [page_count_allocate_page] at hcount
    change (t.disk.pageCount : Int) + 1 = disk.pageCount
    omega

/-- What the tree grew by above the halves is what it grew by with them. -/
theorem grown_next {t' : BPlusTree} {T : Tree}
    (hcount : disk.pageCount = t.disk.allocatePage.2.pageCount)
    (hgrown : Grown { t with disk } (g :: fs)
      (leftHalf f.pageId (f.keysL ++ sep :: f.keysR) (f.left ++ left :: right :: f.right) position)
      (rightHalf t.disk.pageCount (f.keysL ++ sep :: f.keysR)
        (f.left ++ left :: right :: f.right) position) t' T) :
    Grown t (f :: g :: fs) left right t' T := by
  constructor
  · intro n hleft hright hlevel
    obtain ⟨hL, hR⟩ := @level_halves _ _ position _ t.disk.pageCount _
      (level_grow hleft hright hlevel.1)
    exact hgrown.level (n + 1) hL hR hlevel.2
  · have hpages := hgrown.pages
    have hlength := h.length_halves position t.disk.pageCount
    rw [(pids_plug (g :: fs) _).length_eq, length_append] at hpages
    simp only [page_count_allocate_page] at hcount
    have hpages' : T.pids.length + disk.pageCount = _ := hpages
    omega

end Pending

theorem insert_into_parent_spec : ∀ {fs : List Frame} {f : Frame} {rounds : Nat} {t : BPlusTree}
    {left right : Tree} {sep : Value}, Pending t (f :: fs) left right sep → fs.length < rounds →
      wp (insertIntoParent rounds f.pageId left.pid sep right.pid)
        (fun _ t' => absorbs t rounds f.pageId left.pid sep right.pid = true ∧
          Entered t (f :: fs) left right sep t')
        (fun _ t' => absorbs t rounds f.pageId left.pid sep right.pid = false ∧
          Dropped t (f :: fs) left right t') t := by
  intro fs
  induction fs with
  | nil =>
      intro f rounds t left right sep h hrounds
      obtain ⟨rounds, rfl⟩ : ∃ n, rounds = n + 1 := ⟨rounds - 1, by omega⟩
      obtain ⟨parent, hread, hidx, hupd⟩ := h.read_parent
      unfold insertIntoParent absorbs
      simp only [wp_bind, wp_get, hread, wp_lift_ok, hidx, hupd, parentOf]
      cases henc : encodeInternal t.pageSize
          { parentPageId := none, keys := f.keysL ++ sep :: f.keysR,
            children := (f.left ++ left :: right :: f.right).map Tree.pid } with
      | ok page =>
          exact wp_mono (h.entered_of_encode henc) (fun _ _ hQ => ⟨rfl, hQ⟩)
            (fun _ _ hE => hE.elim)
      | error e =>
          cases e with
          | ValueError message => exact h.split_root_internal_spec rfl
          | _ => exact ⟨rfl, h.dropped⟩
  | cons g fs ih =>
      intro f rounds t left right sep h hrounds
      obtain ⟨rounds, rfl⟩ : ∃ n, rounds = n + 1 := ⟨rounds - 1, by omega⟩
      obtain ⟨parent, hread, hidx, hupd⟩ := h.read_parent
      unfold insertIntoParent absorbs
      simp only [wp_bind, wp_get, hread, wp_lift_ok, hidx, hupd, parentOf]
      cases henc : encodeInternal t.pageSize
          { parentPageId := some g.pageId, keys := f.keysL ++ sep :: f.keysR,
            children := (f.left ++ left :: right :: f.right).map Tree.pid } with
      | ok page =>
          exact wp_mono (h.entered_of_encode henc) (fun _ _ hQ => ⟨rfl, hQ⟩)
            (fun _ _ hE => hE.elim)
      | error e =>
          cases e with
          | ValueError message =>
              unfold splitInternal
              simp only [wp_bind, wp_get, choose_internal_split_eq (h.encodes rfl)]
              cases hsplit : internalSplit t.pageSize
                  { parentPageId := some g.pageId, keys := f.keysL ++ sep :: f.keysR,
                    children := (f.left ++ left :: right :: f.right).map Tree.pid }
                  g.pageId g.pageId with
              | none => exact ⟨rfl, h.dropped⟩
              | some split =>
                  obtain ⟨L, promoted, R⟩ := split
                  obtain ⟨position, hpos, hat, hL, hR⟩ := internalSplit_some hsplit
                  obtain ⟨rfl, _⟩ := Pending.split_facts rfl hat hL
                  simp only [Option.elim_some, wp_lift_ok, wp_allocate_page]
                  refine wp_ensureAllocated (by simp) ?_
                  refine wp_mono (h.wp_write_halves (Touches.of_allocate_page _) (by simp) rfl
                    hpos hat hL hR) ?_ ?_
                  · rintro _ _ ⟨hfits, disk, rfl, hcount, hhalved⟩
                    have hnext := h.next hpos hcount hhalved
                    have hright : right.pid + 1 = t.disk.pageCount := h.last
                    have hlt : (t.disk.pageCount : Int) < 2 ^ 31 := hfits.2
                    have hrec := @ih g rounds _ _ _ _ hnext (by simpa using hrounds)
                    have hsize : ({ t with disk } : BPlusTree).pageSize = t.pageSize :=
                      hhalved.touches.pageSize
                    have habs := absorbs_congr hsize h.frames.2.2.2.2 hnext.frames rounds f.pageId
                      ((f.keysL ++ sep :: f.keysR).getD position .null) t.disk.pageCount
                    have hkept : Kept t { t with disk } :=
                      ⟨hhalved.touches.pageSize, rfl, rfl, hhalved.keeps⟩
                    rw [hright, decide_eq_true hlt, Bool.true_and, ← habs]
                    refine wp_mono hrec ?_ ?_
                    · rintro _ t' ⟨habsorbs, hkept', T, hT, hitems, hgrown⟩
                      refine ⟨habsorbs, hkept.trans hkept', T, hT, ?_, h.grown_next hcount hgrown⟩
                      rw [hitems, ← h.frames.items_grow, h.items_split t.disk.pageCount hpos]
                      simp
                    · rintro _ t' ⟨habsorbs, hkept', T, hT, hleaves⟩
                      refine ⟨habsorbs, hkept.trans hkept', T, hT, ?_⟩
                      intro p hp
                      rcases hleaves p hp with hp | hp
                      · exact h.leaf_of_leftHalf hpos hp
                      · exact h.leaf_of_rightHalf hpos hp
                  · rintro _ _ ⟨hnot, disk, rfl, hhalved⟩
                    refine ⟨?_, h.dropped_leftHalf hpos hhalved⟩
                    have hge : ¬ right.pid + 1 < 2 ^ 31 := by
                      have hl := h.last
                      unfold IdFits at hnot
                      omega
                    rw [decide_eq_false hge, Bool.false_and]
          | _ => exact ⟨rfl, h.dropped⟩

end Propagation

end SoupDB.BPlusTree
