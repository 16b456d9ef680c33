import SoupDB.Indexes.BPlusInsert
import SoupDB.Indexes.BPlusDescent

/-!
# SoupDB: the leaf chain and the insertion of an entry

The leaves of a B+ tree are linked left to right.  `Path` follows the links; `Linked`
says that the file is a tree whose leaves are on the chain that starts at the first
leaf.  That much holds of every file the methods can leave, also after inserts that
raised.

Main fact: `insert_spec`.  An insert that returns puts the entry in the leaf its key
leads to, or in the two leaves this leaf was split into; it returns exactly when `takesIn`
holds of the state before it.  An insert that raises either changed no page or, exactly when
`strandsLeaf` holds of the state before it, has split the leaf on the chain and not entered
the new leaf in the tree.
-/

namespace SoupDB.BPlusTree

open BPlusPage Effect DiskManager List

/-! ## The chain -/

/-- Following the links from `next` visits these leaves and ends at `last`. -/
def Path (d : DiskManager) : Option Int → List Int → Option Int → Prop
  | next, [], last => next = last
  | next, p :: ps, last =>
      next = some p ∧ ∃ node, IsLeaf d p node ∧ Path d node.nextLeafPageId ps last

/-- The entries of some leaves, in order. -/
def entriesOf (d : DiskManager) (ps : List Int) : List Entry := ps.flatMap (entriesAt d)

section Path

variable {d d' : DiskManager}

theorem Path.mem_leaf : ∀ {ps : List Int} {next last : Option Int}, Path d next ps last →
    ∀ p ∈ ps, ∃ node, IsLeaf d p node
  | [], _, _, _, p, hp => by simp at hp
  | q :: ps, _, _, ⟨_, node, hl, hrest⟩, p, hp => by
      rcases mem_cons.mp hp with rfl | hp
      · exact ⟨node, hl⟩
      · exact hrest.mem_leaf p hp

theorem path_append : ∀ {as bs : List Int} {next last : Option Int},
    Path d next (as ++ bs) last ↔ ∃ mid, Path d next as mid ∧ Path d mid bs last
  | [], bs, next, last => by
      constructor
      · intro h
        exact ⟨next, rfl, h⟩
      · rintro ⟨mid, rfl, h⟩
        exact h
  | a :: as, bs, next, last => by
      simp only [cons_append, Path, @path_append as]
      constructor
      · rintro ⟨hnext, node, hl, mid, has, hbs⟩
        exact ⟨mid, ⟨hnext, node, hl, has⟩, hbs⟩
      · rintro ⟨mid, ⟨hnext, node, hl, has⟩, hbs⟩
        exact ⟨hnext, node, hl, mid, has, hbs⟩

/-- Leaves that keep their successors keep the path. -/
theorem Path.of_next : ∀ {ps : List Int} {next last : Option Int}, Path d next ps last →
    (∀ p ∈ ps, ∀ node, IsLeaf d p node →
      ∃ node', IsLeaf d' p node' ∧ node'.nextLeafPageId = node.nextLeafPageId) →
    Path d' next ps last
  | [], _, _, h, _ => h
  | p :: ps, _, _, ⟨hnext, node, hl, hrest⟩, hkeep => by
      obtain ⟨node', hl', hsame⟩ := hkeep p (by simp) node hl
      refine ⟨hnext, node', hl', ?_⟩
      rw [hsame]
      exact hrest.of_next (fun q hq => hkeep q (mem_cons_of_mem _ hq))

theorem Path.next_mem : ∀ {ps : List Int} {next : Option Int}, Path d next ps none →
    ∀ p ∈ ps, ∀ node, IsLeaf d p node → ∀ q, node.nextLeafPageId = some q → q ∈ ps
  | [], _, _, p, hp, _, _, _, _ => by simp at hp
  | p' :: ps, _, ⟨_, node', hl', hrest⟩, p, hp, node, hl, q, hq => by
      rcases mem_cons.mp hp with rfl | hp
      · rw [hl.unique hl'] at hq
        cases ps with
        | nil =>
            have hnone : node'.nextLeafPageId = none := hrest
            rw [hnone] at hq
            cases hq
        | cons r ps =>
            have hsome : node'.nextLeafPageId = some r := hrest.1
            rw [hsome] at hq
            cases hq
            simp
      · exact mem_cons_of_mem _ (hrest.next_mem p hp node hl q hq)

theorem Path.split {as bs : List Int} {p : Int} {next last : Option Int} {node : LeafNode}
    (h : Path d next (as ++ p :: bs) last) (hl : IsLeaf d p node) :
    Path d next as (some p) ∧ Path d node.nextLeafPageId bs last := by
  obtain ⟨mid, has, hmid, node', hl', hbs⟩ := path_append.mp h
  rw [hmid] at has
  rw [hl.unique hl']
  exact ⟨has, hbs⟩

end Path

/-- The file is a tree whose leaves are on the chain. -/
structure Linked (t : BPlusTree) (T : Tree) (chain : List Int) : Prop where
  shape : Shape t T
  path : Path t.disk (some t.firstLeafPageId) chain none
  nodup : chain.Nodup
  leaves : ∀ p, .inr p ∈ T.items → p ∈ chain

namespace Linked

variable {t : BPlusTree} {T : Tree} {chain : List Int}

theorem length_chain (h : Linked t T chain) : chain.length < t.rounds := by
  have hle := length_le_page_count h.nodup (fun p hp => by
    obtain ⟨node, hl⟩ := h.path.mem_leaf p hp
    exact hl.valid)
  unfold rounds
  omega

end Linked

/-! ## Writing one leaf -/

section WriteLeaf

variable {t : BPlusTree} {T : Tree} {chain : List Int} {p : Int} {node : LeafNode}
  {entries : List Entry} {page : Bytes} {disk : DiskManager}

theorem Rep.of_write_leaf {parent : Option Int} {d d' : DiskManager} (h : Rep d parent T)
    (hl : IsLeaf d p node) (htouch : Touches d d' [p])
    (hl' : IsLeaf d' p { node with entries }) : Rep d' parent T := by
  induction h with
  | @leaf parent pageId next es hleaf =>
      by_cases hp : pageId = p
      · subst hp
        have hnode := hleaf.unique hl
        subst hnode
        exact .leaf next entries hl'
      · exact .leaf next es (htouch.isLeaf (by simpa using hp) hleaf)
  | @node parent pageId keys children hi hlen hc ih =>
      refine .node (htouch.isInternal ?_ hi) hlen ih
      intro hm
      rw [mem_singleton] at hm
      subst hm
      exact hl.not_internal hi

/-- Rewriting a leaf with other entries keeps the file a linked tree. -/
theorem Linked.of_write_leaf (h : Linked t T chain) (hl : IsLeaf t.disk p node)
    (he : encodeLeaf t.pageSize { node with entries } = .ok page)
    (hw : t.disk.writePage p page = .ok disk) :
    Linked { t with disk } T chain ∧ entriesAt disk p = entries ∧
      ∀ q ∈ chain, q ≠ p → entriesAt disk q = entriesAt t.disk q := by
  have htouch := Touches.of_write_page hw
  have hl' : IsLeaf disk p { node with entries } := isLeaf_of_write_page he hw
  have hother : ∀ q ∈ chain, q ≠ p → ∀ node', IsLeaf t.disk q node' → IsLeaf disk q node' :=
    fun q _ hq node' hleaf => htouch.isLeaf (by simpa using hq) hleaf
  refine ⟨⟨⟨h.shape.rep.of_write_leaf hl htouch hl', h.shape.root, h.shape.nodup, ?_⟩, ?_,
    h.nodup, h.leaves⟩, hl'.entriesAt, ?_⟩
  · refine htouch.isMetadata ?_ h.shape.metadata
    intro hm
    rw [mem_singleton] at hm
    subst hm
    exact (Rep.leaf _ _ hl).metadata_not_mem h.shape.metadata (by simp [Tree.pids])
  · refine h.path.of_next ?_
    intro q hq node' hleaf
    by_cases hqp : q = p
    · subst hqp
      rw [hleaf.unique hl]
      exact ⟨_, hl', rfl⟩
    · exact ⟨node', hother q hq hqp node' hleaf, rfl⟩
  · intro q hq hqp
    obtain ⟨node', hleaf⟩ := h.path.mem_leaf q hq
    rw [hleaf.entriesAt, (hother q hq hqp node' hleaf).entriesAt]

end WriteLeaf

/-! ## Splitting a leaf -/

/-- A leaf was split in two: what the leaf pages hold afterwards, up to their parents. -/
structure SplitLeaf (d d' : DiskManager) (p r : Int) (left right : LeafNode) : Prop where
  left : ∃ parent, IsLeaf d' p { left with parentPageId := parent }
  right : ∃ parent, IsLeaf d' r { right with parentPageId := parent }
  other : ∀ q node, q ≠ p → IsLeaf d q node →
    ∃ parent, IsLeaf d' q { node with parentPageId := parent }
  fresh : ∀ node, ¬ IsLeaf d r node

/-- The two leaves hold the entries in order and are linked one after the other. -/
structure SplitEntries (t : BPlusTree) (leaf : LeafNode) (entries : List Entry)
    (left right : LeafNode) (sep : Value) : Prop where
  position : ∃ i, 0 < i ∧ i < entries.length ∧ left.entries = entries.take i ∧
    right.entries = entries.drop i
  nextLeft : left.nextLeafPageId = some (t.disk.pageCount : Int)
  nextRight : right.nextLeafPageId = leaf.nextLeafPageId
  separator : separatorOf right = .ok sep

/-- Whether the split of a leaf leaves the new leaf out of the tree. -/
def splitStrands (t : BPlusTree) (leafPageId : Int) (leaf : LeafNode) (entries : List Entry) :
    Bool :=
  match leaf.parentPageId with
  | none => false
  | some parentPageId =>
      match leafSplit t.pageSize entries parentPageId t.disk.pageCount leaf.nextLeafPageId with
      | none => false
      | some (_, right) =>
          match separatorOf right with
          | .error _ => false
          | .ok separator =>
              !absorbs t t.rounds parentPageId leafPageId separator t.disk.pageCount

/-- Whether a leaf has a boundary at which it can be split and the parents take in its new
half. -/
def splitTakesIn (t : BPlusTree) (leafPageId : Int) (leaf : LeafNode) (entries : List Entry) :
    Bool :=
  match leaf.parentPageId with
  | none =>
      (leafSplit t.pageSize entries ((t.disk.pageCount : Int) + 1) t.disk.pageCount
        leaf.nextLeafPageId).isSome
  | some parentPageId =>
      match leafSplit t.pageSize entries parentPageId t.disk.pageCount leaf.nextLeafPageId with
      | none => false
      | some (_, right) =>
          match separatorOf right with
          | .error _ => false
          | .ok separator =>
              absorbs t t.rounds parentPageId leafPageId separator t.disk.pageCount

theorem separatorOf_leafSplitAt {entries : List Entry} {position : Nat} (P r : Int)
    (next : Option Int) (hlt : position < entries.length) :
    ∃ sep, separatorOf (leafSplitAt entries P r next position).2 = .ok sep := by
  rw [leafSplitAt, separatorOf, drop_eq_getElem_cons hlt]
  exact ⟨_, rfl⟩

theorem keyFits_separatorOf {size : Nat} {right : LeafNode} {page : Bytes} {sep : Value}
    (he : encodeLeaf size right = .ok page) (hsep : separatorOf right = .ok sep) :
    KeyFits size sep := by
  unfold separatorOf at hsep
  split at hsep
  · next key rid rest hentries =>
      obtain rfl := Except.ok.inj hsep
      exact keyFits_of_encode_leaf he (key, rid) (by rw [hentries]; simp)
  · cases hsep

section SplitLeaf

variable {t : BPlusTree} {fs : List Frame} {p : Int} {leaf : LeafNode} {entries : List Entry}

variable {left right : LeafNode}

theorem splitLeaf_of_writes {d disk1 disk2 disk3 : DiskManager} {r : Int} {lp rp : Bytes}
    (hleaf : IsLeaf d p leaf) (hr : ¬ d.validPageId r) (htouch : Touches d disk1 [])
    (hlp : encodeLeaf d.pageSize left = .ok lp) (hrp : encodeLeaf d.pageSize right = .ok rp)
    (hw1 : disk1.writePage p lp = .ok disk2) (hw2 : disk2.writePage r rp = .ok disk3) :
    SplitLeaf d disk3 p r left right ∧ IsLeaf disk3 p left ∧ IsLeaf disk3 r right ∧
      Touches d disk3 [p, r] ∧ disk3.pageCount = disk1.pageCount := by
  have htouch1 := Touches.of_write_page hw1
  have htouch2 := Touches.of_write_page hw2
  have hne : p ≠ r := by
    rintro rfl
    exact hr hleaf.valid
  have hsize1 : disk1.pageSize = d.pageSize := htouch.pageSize
  have hsize2 : disk2.pageSize = d.pageSize := htouch1.pageSize.trans hsize1
  have hL : IsLeaf disk3 p left :=
    htouch2.isLeaf (by simpa using hne) (isLeaf_of_write_page (by rw [hsize1]; exact hlp) hw1)
  have hR : IsLeaf disk3 r right := isLeaf_of_write_page (by rw [hsize2]; exact hrp) hw2
  have htouches : Touches d disk3 [p, r] := (htouch.trans htouch1).trans htouch2
  refine ⟨⟨⟨_, hL⟩, ⟨_, hR⟩, ?_, fun node hl => hr hl.valid⟩, hL, hR, htouches, ?_⟩
  · intro q node hq hl
    refine ⟨node.parentPageId, htouches.isLeaf ?_ hl⟩
    intro hm
    simp only [mem_cons, not_mem_nil, or_false] at hm
    rcases hm with rfl | rfl
    · exact hq rfl
    · exact hr hl.valid
  · rw [page_count_write_page hw2, page_count_write_page hw1]

theorem SplitLeaf.keep {d d' d'' : DiskManager} {r : Int} (h : SplitLeaf d d' p r left right)
    (hkeep : KeepsLeaves d' d'') :
    SplitLeaf d d'' p r left right := by
  obtain ⟨⟨pl, hl⟩, ⟨pr, hr⟩, hother, hfresh⟩ := h
  obtain ⟨pl', hl'⟩ := hkeep _ _ hl
  obtain ⟨pr', hr'⟩ := hkeep _ _ hr
  refine ⟨⟨pl', hl'⟩, ⟨pr', hr'⟩, ?_, hfresh⟩
  intro q node hq hn
  obtain ⟨pn, hn'⟩ := hother q node hq hn
  obtain ⟨pn', hn''⟩ := hkeep _ _ hn'
  exact ⟨pn', hn''⟩

theorem SplitLeaf.touch {d d' d'' : DiskManager} {r : Int} {ps : List Int}
    (h : SplitLeaf d d' p r left right) (htouch : Touches d' d'' ps) (hp : p ∉ ps) (hr : r ∉ ps)
    (hps : ∀ q ∈ ps, ∀ node, ¬ IsLeaf d q node) : SplitLeaf d d'' p r left right := by
  obtain ⟨⟨pl, hl⟩, ⟨pr, hr'⟩, hother, hfresh⟩ := h
  refine ⟨⟨pl, htouch.isLeaf hp hl⟩, ⟨pr, htouch.isLeaf hr hr'⟩, ?_, hfresh⟩
  intro q node hq hn
  obtain ⟨pn, hn'⟩ := hother q node hq hn
  exact ⟨pn, htouch.isLeaf (fun hm => hps q hm node hn) hn'⟩

/-- What a leaf split leaves when the new leaf is entered in the tree. -/
def LeafEntered (t : BPlusTree) (fs : List Frame) (p : Int) (leaf : LeafNode)
    (entries : List Entry) (t' : BPlusTree) : Prop :=
  t'.pageSize = t.pageSize ∧ t'.firstLeafPageId = t.firstLeafPageId ∧
    t'.closed = t.closed ∧ ∃ left right sep T,
      SplitEntries t leaf entries left right sep ∧
      SplitLeaf t.disk t'.disk p t.disk.pageCount left right ∧ Shape t' T ∧
      T.items = itemsBefore fs ++ [.inr p, .inl sep, .inr (t.disk.pageCount : Int)] ++
        itemsAfter fs ∧
      (FramesLevel 0 fs → ∃ m, Level m T) ∧
      T.pids.length + t.disk.pageCount = (plug fs (.leaf p)).pids.length + t'.disk.pageCount

/-- What a leaf split leaves when the new leaf stays out of the tree. -/
def LeafStranded (t : BPlusTree) (fs : List Frame) (p : Int) (leaf : LeafNode)
    (entries : List Entry) (t' : BPlusTree) : Prop :=
  t'.pageSize = t.pageSize ∧ t'.firstLeafPageId = t.firstLeafPageId ∧
    t'.closed = t.closed ∧ ∃ left right sep T,
      SplitEntries t leaf entries left right sep ∧
      SplitLeaf t.disk t'.disk p t.disk.pageCount left right ∧ Shape t' T ∧
      ∀ q : Int, .inr q ∈ T.items → .inr q ∈ (plug fs (.leaf p)).items ∨ q = t.disk.pageCount

theorem split_root_leaf_spec (hshape : Shape t (.leaf p)) (hleaf : IsLeaf t.disk p leaf)
    (hentries : ∀ e ∈ entries, Refusable e) :
    wp (splitRootLeaf p leaf entries)
      (fun _ t' => (leafSplit t.pageSize entries ((t.disk.pageCount : Int) + 1)
        t.disk.pageCount leaf.nextLeafPageId).isSome = true ∧ LeafEntered t [] p leaf entries t')
      (fun _ t' => (leafSplit t.pageSize entries ((t.disk.pageCount : Int) + 1)
        t.disk.pageCount leaf.nextLeafPageId).isSome = false ∧ t' = t) t := by
  unfold splitRootLeaf
  simp only [wp_bind, wp_get, choose_leaf_split_eq hentries]
  cases hsplit : leafSplit t.pageSize entries ((t.disk.pageCount : Int) + 1)
      t.disk.pageCount leaf.nextLeafPageId with
  | none => exact ⟨rfl, rfl⟩
  | some split =>
      obtain ⟨left, right⟩ := split
      obtain ⟨position, hpos, hlt, hat, hL, hR⟩ := leafSplit_some hsplit
      simp only [Option.elim_some, wp_lift_ok]
      cases hsep : separatorOf right with
      | error e =>
          obtain ⟨sep, hok⟩ := separatorOf_leafSplitAt ((t.disk.pageCount : Int) + 1)
            t.disk.pageCount leaf.nextLeafPageId hlt
          rw [hat, hsep] at hok
          cases hok
      | ok sep =>
          obtain ⟨lp, hlp⟩ := hL
          obtain ⟨rp, hrp⟩ := hR
          simp only [wp_lift_ok, wp_allocate_page]
          refine wp_ensureAllocated (by simp) ?_
          have htouch0 : Touches t.disk t.disk.allocatePage.2.allocatePage.2 [] :=
            (Touches.of_allocate_page t.disk).trans (Touches.of_allocate_page _)
          have hr : ¬ t.disk.validPageId t.disk.pageCount := by
            unfold validPageId
            omega
          simp only [hlp, wp_lift_ok]
          refine wp_write_page (htouch0.valid hleaf.valid) ?_
          intro disk2 hw1
          simp only [hrp, wp_lift_ok]
          refine wp_write_page ((Touches.of_write_page hw1).valid
            (validPageId_allocate_page_of_valid
              validPageId_allocate_page)) ?_
          intro disk3 hw2
          obtain ⟨hdone, hL3, hR3, htouch, hcount⟩ :=
            splitLeaf_of_writes hleaf hr htouch0 hlp hrp hw1 hw2
          have hleft : left = (leafSplitAt entries (t.disk.pageCount + 1) t.disk.pageCount
              leaf.nextLeafPageId position).1 := by rw [hat]
          have hright : right = (leafSplitAt entries (t.disk.pageCount + 1) t.disk.pageCount
              leaf.nextLeafPageId position).2 := by rw [hat]
          have hfits := (encode_leaf_ok_iff.mp ⟨lp, hlp⟩).choose_spec.2.2.2.1
          have hnew : IdFits (some ((t.disk.pageCount : Int) + 1)) := by
            rw [hleft] at hfits
            exact hfits
          have hmeta : METADATA_PAGE_ID ∉ [p, (t.disk.pageCount : Int)] := by
            have hp := hshape.rep.metadata_not_mem hshape.metadata
            have hv := hshape.metadata.valid.2
            simp only [Tree.pids, mem_singleton] at hp
            simp only [mem_cons, not_mem_nil, or_false, not_or]
            exact ⟨hp, by omega⟩
          have hkey : KeyFits disk3.pageSize sep := by
            rw [show disk3.pageSize = t.pageSize from htouch.pageSize]
            exact keyFits_separatorOf hrp hsep
          have hpv := hleaf.valid
          have hmv := hshape.metadata.valid.2
          have hp0 := hshape.rep.metadata_not_mem hshape.metadata
          simp only [Tree.pids, mem_singleton] at hp0
          unfold validPageId at hpv
          have hrepL : Rep disk3 (some ((t.disk.pageCount : Int) + 1)) (.leaf p) :=
            .leaf left.nextLeafPageId left.entries (by rw [hleft] at hL3 ⊢; exact hL3)
          have hrepR : Rep disk3 (some ((t.disk.pageCount : Int) + 1))
              (.leaf (t.disk.pageCount : Int)) :=
            .leaf right.nextLeafPageId right.entries (by rw [hright] at hR3 ⊢; exact hR3)
          have hroot := wp_write_new_root (t := { t with disk := disk3 }) hrepL hrepR
            (by
              simp only [page_count_allocate_page] at hcount
              change 0 ≤ _ ∧ _ < (disk3.pageCount : Int)
              omega)
            (htouch.isMetadata hmeta hshape.metadata) hkey
            (by unfold IdFits at hnew ⊢; simp only [Tree.pid]; omega)
            (by unfold IdFits at hnew ⊢; simp only [Tree.pid]; omega) hnew
            (by
              simp only [Tree.pids, nodup_cons, mem_cons,
                not_mem_nil, not_or, or_false, cons_append, nil_append]
              refine ⟨⟨by omega, hp0, by omega⟩, ⟨by omega, by omega⟩, by omega, by simp⟩)
          refine wp_mono hroot ?_ (fun _ _ hE => hE.elim)
          rintro _ _ ⟨disk4, rfl, hwrites4, hshape4⟩
          have htouch4 := hwrites4.toTouches
          have hkeep : SplitLeaf t.disk disk4 p t.disk.pageCount left right := by
            have hmetaLeaf : ∀ node, ¬ IsLeaf t.disk METADATA_PAGE_ID node := fun node hl =>
              (Rep.leaf _ _ hl).metadata_not_mem hshape.metadata (by simp [Tree.pids])
            refine hdone.touch htouch4 ?_ ?_ ?_
            · simp only [mem_cons, not_mem_nil, or_false, not_or]
              omega
            · simp only [mem_cons, not_mem_nil, or_false, not_or]
              omega
            · intro q hq node hl
              have hv := hl.valid.2
              simp only [mem_cons, not_mem_nil, or_false] at hq
              rcases hq with rfl | rfl
              · omega
              · exact hmetaLeaf node hl
          refine ⟨rfl, htouch4.pageSize.trans htouch.pageSize, rfl, rfl, left, right, sep, _,
            ⟨⟨position, hpos, hlt, ?_, ?_⟩, ?_, ?_, hsep⟩, hkeep, hshape4, ?_, ?_, ?_⟩
          · rw [hleft, leafSplitAt]
          · rw [hright, leafSplitAt]
          · rw [hleft, leafSplitAt]
          · rw [hright, leafSplitAt]
          · simp [Tree.items, interleave, blocksAfter, itemsBefore, itemsAfter]
          · intro _
            refine ⟨1, .node ?_⟩
            intro c hc
            simp only [mem_cons, not_mem_nil, or_false] at hc
            rcases hc with rfl | rfl
            · exact .leaf _
            · exact .leaf _
          · have hcount4 : disk4.pageCount = t.disk.pageCount + 2 := by
              rw [hwrites4.same_count, hcount]
              simp
            simp [Tree.pids, plug, hcount4]
            omega

/-- The state between the writes of the leaves and the propagation. -/
theorem pending_of_split {g : Frame} {disk : DiskManager} {sep : Value}
    (hshape : Shape t (plug (g :: fs) (.leaf p))) (hframes : FramesRep t.disk (g :: fs) p)
    (hL : IsLeaf disk p left) (hR : IsLeaf disk t.disk.pageCount right)
    (htouch : Touches t.disk disk [p, (t.disk.pageCount : Int)])
    (hcount : disk.pageCount = t.disk.pageCount + 1) (hparentL : left.parentPageId = some g.pageId)
    (hparentR : right.parentPageId = some g.pageId) (hkey : KeyFits t.pageSize sep) :
    Pending { t with disk } (g :: fs) (.leaf p) (.leaf (t.disk.pageCount : Int)) sep := by
  have hnodup := (pids_plug (g :: fs) (.leaf p)).nodup_iff.mp hshape.nodup
  have hmem : ∀ q, q ∈ (plug (g :: fs) (.leaf p)).pids ↔ q = p ∨ q ∈ framePids (g :: fs) := by
    intro q
    rw [(pids_plug (g :: fs) (.leaf p)).mem_iff]
    simp [Tree.pids]
  have hmeta := hshape.rep.metadata_not_mem hshape.metadata
  have hmv := hshape.metadata.valid.2
  have hfresh : ∀ q ∈ (plug (g :: fs) (.leaf p)).pids, q ≠ t.disk.pageCount := by
    intro q hq heq
    have hv := (hshape.rep.valid q hq).2
    omega
  refine ⟨hframes.frame htouch ?_, ?_, ?_, ?_, ?_, htouch.isMetadata ?_ hshape.metadata, ?_, ?_⟩
  · intro q hq hqm
    simp only [mem_cons, not_mem_nil, or_false] at hqm
    rcases hqm with rfl | rfl
    · rw [Tree.pids, singleton_append] at hnodup
      exact (nodup_cons.mp hnodup).1 hq
    · exact hfresh _ ((hmem _).mpr (Or.inr hq)) rfl
  · refine .leaf left.nextLeafPageId left.entries ?_
    rw [parentOf, ← hparentL]
    exact hL
  · refine .leaf right.nextLeafPageId right.entries ?_
    rw [parentOf, ← hparentR]
    exact hR
  · rw [Tree.pids, nodup_append]
    refine ⟨hshape.nodup, by simp, ?_⟩
    intro q hq r hr
    rw [mem_singleton] at hr
    subst hr
    exact hfresh q hq
  · exact hshape.root
  · simp only [mem_cons, not_mem_nil, or_false, not_or]
    refine ⟨?_, by omega⟩
    rintro rfl
    exact hmeta ((hmem _).mpr (Or.inl rfl))
  · change KeyFits disk.pageSize sep
    rw [htouch.pageSize]
    exact hkey
  · change (t.disk.pageCount : Int) + 1 = disk.pageCount
    omega

/-- A leaf split either raises before any write or writes both leaves; whether the tree
then has the new leaf is what `splitTakesIn` and `splitStrands` say. -/
theorem split_leaf_spec (hshape : Shape t (plug fs (.leaf p))) (hframes : FramesRep t.disk fs p)
    (hleaf : IsLeaf t.disk p leaf) (hparent : leaf.parentPageId = parentOf fs)
    (hentries : ∀ e ∈ entries, Refusable e) :
    wp (splitLeaf p leaf entries)
      (fun _ t' => splitTakesIn t p leaf entries = true ∧
        splitStrands t p leaf entries = false ∧ LeafEntered t fs p leaf entries t')
      (fun _ t' => splitTakesIn t p leaf entries = false ∧
        ((splitStrands t p leaf entries = false ∧ t' = t) ∨
          (splitStrands t p leaf entries = true ∧ LeafStranded t fs p leaf entries t'))) t := by
  cases fs with
  | nil =>
      have hnone : leaf.parentPageId = none := hparent
      unfold splitLeaf splitStrands splitTakesIn
      rw [hnone]
      exact wp_mono (split_root_leaf_spec hshape hleaf hentries) (fun _ _ hQ => ⟨hQ.1, rfl, hQ.2⟩)
        (fun _ _ hE => ⟨hE.1, Or.inl ⟨rfl, hE.2⟩⟩)
  | cons g fs =>
      have hsome : leaf.parentPageId = some g.pageId := hparent
      unfold splitLeaf splitStrands splitTakesIn
      rw [hsome]
      simp only [wp_bind, wp_get, choose_leaf_split_eq hentries]
      cases hsplit : leafSplit t.pageSize entries g.pageId t.disk.pageCount
          leaf.nextLeafPageId with
      | none => exact ⟨rfl, Or.inl ⟨rfl, rfl⟩⟩
      | some split =>
          obtain ⟨left, right⟩ := split
          obtain ⟨position, hpos, hlt, hat, hL, hR⟩ := leafSplit_some hsplit
          simp only [Option.elim_some, wp_lift_ok]
          cases hsep : separatorOf right with
          | error e => exact ⟨rfl, Or.inl ⟨rfl, rfl⟩⟩
          | ok sep =>
              obtain ⟨lp, hlp⟩ := hL
              obtain ⟨rp, hrp⟩ := hR
              have hleft : left = (leafSplitAt entries g.pageId t.disk.pageCount
                  leaf.nextLeafPageId position).1 := by rw [hat]
              have hright : right = (leafSplitAt entries g.pageId t.disk.pageCount
                  leaf.nextLeafPageId position).2 := by rw [hat]
              have htouch0 := Touches.of_allocate_page t.disk
              have hr : ¬ t.disk.validPageId t.disk.pageCount := by
                unfold validPageId
                omega
              simp only [wp_lift_ok, wp_allocate_page, hlp]
              refine wp_write_page (htouch0.valid hleaf.valid) ?_
              intro disk2 hw1
              simp only [hrp, wp_lift_ok]
              refine wp_write_page ((Touches.of_write_page hw1).valid
                validPageId_allocate_page) ?_
              intro disk3 hw2
              obtain ⟨hdone, hL3, hR3, htouch, hcount⟩ :=
                splitLeaf_of_writes hleaf hr htouch0 hlp hrp hw1 hw2
              have hpending := pending_of_split hshape hframes hL3 hR3 htouch
                (by simpa using hcount)
                (by rw [hleft, leafSplitAt]) (by rw [hright, leafSplitAt])
                (keyFits_separatorOf hrp hsep)
              have hhalves : SplitEntries t leaf entries left right sep := by
                refine ⟨⟨position, hpos, hlt, ?_, ?_⟩, ?_, ?_, hsep⟩
                · rw [hleft, leafSplitAt]
                · rw [hright, leafSplitAt]
                · rw [hleft, leafSplitAt]
                · rw [hright, leafSplitAt]
              have hrounds : fs.length < t.rounds := by
                have hle := length_le_page_count hshape.nodup hshape.rep.valid
                rw [(pids_plug (g :: fs) (.leaf p)).length_eq, length_append] at hle
                have hfr := length_le_framePids (g :: fs)
                rw [length_cons] at hfr
                unfold rounds
                omega
              have hsize : ({ t with disk := disk3 } : BPlusTree).pageSize = t.pageSize :=
                htouch.pageSize
              have habs := absorbs_congr hsize hframes hpending.frames t.rounds p sep
                t.disk.pageCount
              have hprop := insert_into_parent_spec hpending hrounds
              refine wp_mono hprop ?_ ?_
              · rintro _ t' ⟨habsorbs, hkept, T, hT, hitems, hgrown⟩
                simp only [Tree.pid, habs] at habsorbs
                refine ⟨habsorbs, by simp [habsorbs], hkept.pageSize.trans hsize,
                  hkept.firstLeafPageId,
                  hkept.closed, left, right, sep, T, hhalves, hdone.keep hkept.leaves, hT, ?_,
                  fun hlevel => hgrown.level 0 (.leaf p) (.leaf _) hlevel, ?_⟩
                · rw [hitems]
                  simp [Tree.items]
                · have hpages := hgrown.pages
                  simp only [Tree.pids, length_cons, length_nil] at hpages hcount
                  simp only [page_count_allocate_page] at hcount
                  omega
              · rintro _ t' ⟨habsorbs, hkept, T, hT, hleaves⟩
                simp only [Tree.pid, habs] at habsorbs
                refine ⟨habsorbs, Or.inr ⟨by simp [habsorbs], hkept.pageSize.trans hsize,
                  hkept.firstLeafPageId, hkept.closed, left, right, sep, T, hhalves,
                  hdone.keep hkept.leaves, hT, ?_⟩⟩
                intro q hq
                rcases hleaves q hq with hq | hq
                · exact Or.inl hq
                · right
                  simpa [Tree.items] using hq

/-- The chain after a split: the new leaf stands after the old one, and the entries of the
old leaf are those of the two. -/
theorem Linked.of_split {T T' : Tree} {chain : List Int} {t' : BPlusTree} {sep : Value}
    {before after : List Int} (h : Linked t T chain) (hleaf : IsLeaf t.disk p leaf)
    (hchain : chain = before ++ p :: after) (hfirst : t'.firstLeafPageId = t.firstLeafPageId)
    (hentries : SplitEntries t leaf entries left right sep)
    (hsplit : SplitLeaf t.disk t'.disk p t.disk.pageCount left right) (hshape : Shape t' T')
    (hleaves : ∀ q, .inr q ∈ T'.items → q ∈ chain ∨ q = t.disk.pageCount) :
    Linked t' T' (before ++ p :: t.disk.pageCount :: after) ∧
      entriesOf t'.disk (before ++ p :: t.disk.pageCount :: after) =
        entriesOf t.disk before ++ entries ++ entriesOf t.disk after := by
  have hnodup := h.nodup
  rw [hchain] at hnodup
  have hother : ∀ q ∈ before ++ after, q ≠ p := by
    intro q hq
    have hperm : (before ++ p :: after).Perm (p :: (before ++ after)) := perm_middle
    have hnot := (nodup_cons.mp (hperm.nodup_iff.mp hnodup)).1
    rintro rfl
    exact hnot hq
  have hkeep : ∀ q ∈ before ++ after, ∀ node, IsLeaf t.disk q node →
      ∃ node', IsLeaf t'.disk q node' ∧ node'.nextLeafPageId = node.nextLeafPageId ∧
        node'.entries = node.entries := by
    intro q hq node hl
    obtain ⟨parent, hl'⟩ := hsplit.other q node (hother q hq) hl
    exact ⟨_, hl', rfl, rfl⟩
  have hpath := h.path
  rw [hchain] at hpath
  obtain ⟨hpre, hpost⟩ := hpath.split hleaf
  have hmem : ∀ q ∈ before ++ after, ∃ node, IsLeaf t.disk q node := by
    intro q hq
    rw [← hchain] at hpath
    refine hpath.mem_leaf q ?_
    rw [hchain]
    simp only [mem_append, mem_cons] at hq ⊢
    tauto
  obtain ⟨pl, hL⟩ := hsplit.left
  obtain ⟨pr, hR⟩ := hsplit.right
  have hfresh : (t.disk.pageCount : Int) ∉ chain := by
    intro hm
    obtain ⟨node, hl⟩ := h.path.mem_leaf _ hm
    exact hsplit.fresh node hl
  rw [hchain] at hfresh
  refine ⟨⟨hshape, ?_, ?_, ?_⟩, ?_⟩
  · rw [hfirst]
    refine path_append.mpr ⟨some p, ?_, rfl, _, hL, hentries.nextLeft, _, hR, ?_⟩
    · refine hpre.of_next (fun q hq node hl => ?_)
      obtain ⟨node', hl', hnext, _⟩ := hkeep q (mem_append_left _ hq) node hl
      exact ⟨node', hl', hnext⟩
    · simp only [hentries.nextRight]
      refine hpost.of_next (fun q hq node hl => ?_)
      obtain ⟨node', hl', hnext, _⟩ := hkeep q (mem_append_right _ hq) node hl
      exact ⟨node', hl', hnext⟩
  · have hperm : (before ++ p :: (t.disk.pageCount : Int) :: after).Perm
        ((t.disk.pageCount : Int) :: (before ++ p :: after)) := by
      refine perm_iff_count.mpr (fun a => ?_)
      simp only [count_append, count_cons]
      omega
    exact hperm.nodup_iff.mpr (nodup_cons.mpr ⟨hfresh, hnodup⟩)
  · intro q hq
    have hq' := hleaves q hq
    rw [hchain] at hq'
    simp only [mem_append, mem_cons] at hq' ⊢
    tauto
  · obtain ⟨i, _, _, hl, hr⟩ := hentries.position
    have hsame : ∀ ps : List Int, ps ⊆ before ++ after →
        entriesOf t'.disk ps = entriesOf t.disk ps := by
      intro ps hps
      unfold entriesOf
      refine flatMap_congr (fun q hq => ?_)
      obtain ⟨node, hnode⟩ := hmem q (hps hq)
      obtain ⟨node', hnode', _, hent⟩ := hkeep q (hps hq) node hnode
      rw [hnode.entriesAt, hnode'.entriesAt, hent]
    have hmid : entriesAt t'.disk p ++ entriesAt t'.disk t.disk.pageCount = entries := by
      rw [hL.entriesAt, hR.entriesAt]
      simp only [hl, hr, take_append_drop]
    have happ : ∀ (as bs : List Int) (d : DiskManager),
        entriesOf d (as ++ bs) = entriesOf d as ++ entriesOf d bs := by
      intro as bs d
      simp [entriesOf]
    rw [happ, hsame before (by simp)]
    have hcons : entriesOf t'.disk (p :: (t.disk.pageCount : Int) :: after) =
        entriesAt t'.disk p ++ entriesAt t'.disk t.disk.pageCount ++ entriesOf t'.disk after := by
      simp [entriesOf]
    rw [hcons, hmid, hsame after (by simp), append_assoc]

end SplitLeaf

/-! ## Inserting -/

theorem sortEntries_perm {es entries : List Entry} (h : sortEntries es = .ok entries) :
    entries.Perm es := by
  unfold sortEntries at h
  split at h
  · rw [← Except.ok.inj h]
    exact perm_insertionSort entryLE es
  · cases h

/-- Whether inserting splits a leaf whose new half the parents do not take in. -/
def strandsLeaf (t : BPlusTree) (key : Value) (rid : RID) : Bool :=
  if t.closed then false
  else
    match t.findLeafPageId key false with
    | .error _ => false
    | .ok leafPageId =>
        match t.readLeaf leafPageId with
        | .error _ => false
        | .ok leaf =>
            match sortEntries (leaf.entries ++ [(key, rid)]) with
            | .error _ => false
            | .ok entries =>
                match encodeLeaf t.pageSize { leaf with entries } with
                | .error (.ValueError _) => splitStrands t leafPageId leaf entries
                | _ => false

/-- Whether the leaf an insert goes to has room for the entry, or can be split, and the
parents that are full with it. -/
def takesIn (t : BPlusTree) (key : Value) (rid : RID) : Bool :=
  if t.closed then false
  else
    match t.findLeafPageId key false with
    | .error _ => false
    | .ok leafPageId =>
        match t.readLeaf leafPageId with
        | .error _ => false
        | .ok leaf =>
            match sortEntries (leaf.entries ++ [(key, rid)]) with
            | .error _ => false
            | .ok entries =>
                match encodeLeaf t.pageSize { leaf with entries } with
                | .ok _ => true
                | .error (.ValueError _) => splitTakesIn t leafPageId leaf entries
                | .error _ => false

/-- The leaf an insert goes to, its place in the tree, and its entries with the new one. -/
structure Target (t : BPlusTree) (T : Tree) (key : Value) (rid : RID) (fs : List Frame) (p : Int)
    (leaf : LeafNode) (entries : List Entry) : Prop where
  find : t.findLeafPageId key false = .ok p
  frames : FramesRep t.disk fs p
  shape : plug fs (.leaf p) = T
  isLeaf : IsLeaf t.disk p leaf
  parent : leaf.parentPageId = parentOf fs
  sorted : sortEntries (leaf.entries ++ [(key, rid)]) = .ok entries
  placed : Ascending (keysOf t.disk T.items) →
    (∀ k ∈ keysOf t.disk T.items, Value.Comparable k key) → Placed t.disk false key fs

/-- The leaf was rewritten in its page. -/
def LeafWritten (t : BPlusTree) (p : Int) (leaf : LeafNode) (entries : List Entry)
    (t' : BPlusTree) : Prop :=
  ∃ page disk, encodeLeaf t.pageSize { leaf with entries } = .ok page ∧
    t.disk.writePage p page = .ok disk ∧ t' = { t with disk }

theorem insert_spec {t : BPlusTree} {T : Tree} {chain : List Int} (h : Linked t T chain)
    (key : Value) (rid : RID) :
    wp (insert key rid)
      (fun _ t' => takesIn t key rid = true ∧ t.closed = false ∧ strandsLeaf t key rid = false ∧
        ∃ fs p leaf entries,
          Target t T key rid fs p leaf entries ∧
            (LeafWritten t p leaf entries t' ∨ LeafEntered t fs p leaf entries t'))
      (fun _ t' => takesIn t key rid = false ∧ ((strandsLeaf t key rid = false ∧ t' = t) ∨
        (strandsLeaf t key rid = true ∧ ∃ fs p leaf entries,
          Target t T key rid fs p leaf entries ∧ LeafStranded t fs p leaf entries t'))) t := by
  unfold insert strandsLeaf takesIn
  cases hclosed : t.closed with
  | true =>
      have hraise : ensureOpen t = (.error (.RuntimeError "B+ tree is closed"), t) := by
        unfold ensureOpen
        rw [if_pos hclosed]
      exact wp_of_error (run_bind_error _ hraise) ⟨rfl, Or.inl ⟨rfl, rfl⟩⟩
  | false =>
      rw [wp_bind]
      have hopen : ensureOpen t = (.ok (), t) := by
        unfold ensureOpen
        rw [if_neg (by simp [hclosed])]
      refine wp_of_ok hopen ?_
      simp only [wp_bind, wp_get, Bool.false_eq_true, if_false]
      cases hfind : t.findLeafPageId key false with
      | error e => exact ⟨rfl, Or.inl ⟨rfl, rfl⟩⟩
      | ok p =>
          have hroot : t.findLeafFrom key false t.rounds T.pid = .ok p := by
            rw [h.shape.root]
            exact hfind
          obtain ⟨fs, hframes, hrep, hplug, hplaced⟩ :=
            @findLeafFrom_ok t key false _ _ [] p trivial h.shape.rep hroot
          cases hrep with
          | leaf next es hleaf =>
              simp only [wp_lift_ok, hleaf.readLeaf]
              cases hsort : sortEntries (es ++ [(key, rid)]) with
              | error e => exact ⟨rfl, Or.inl ⟨rfl, rfl⟩⟩
              | ok entries =>
                  have htarget : Target t T key rid fs p
                      { parentPageId := parentOf fs, nextLeafPageId := next, entries := es }
                      entries := ⟨hfind, hframes, hplug, hleaf, rfl, hsort, fun hasc hcomp =>
                        hplaced hasc hcomp (placed_nil _ _ _)⟩
                  simp only [wp_lift_ok]
                  cases henc : encodeLeaf t.pageSize
                      { parentPageId := parentOf fs, nextLeafPageId := next,
                        entries := entries } with
                  | ok page =>
                      refine wp_write_page hleaf.valid ?_
                      intro disk hw
                      exact ⟨rfl, trivial, rfl, fs, p, _, entries, htarget,
                        Or.inl ⟨page, disk, henc, hw, rfl⟩⟩
                  | error e =>
                      cases e with
                      | ValueError message =>
                          have hshape : Shape t (plug fs (.leaf p)) := by
                            rw [hplug]
                            exact h.shape
                          obtain ⟨page, -, hpage⟩ := id hleaf
                          have hentries := refusable_of_leaf (sortEntries_perm hsort) hpage henc
                          refine wp_mono (split_leaf_spec hshape hframes hleaf rfl hentries) ?_ ?_
                          · rintro _ t' ⟨htakes, hstrands, hentered⟩
                            exact ⟨htakes, trivial, hstrands, fs, p, _, entries, htarget,
                              Or.inr hentered⟩
                          · rintro _ t' ⟨htakes, ⟨hstrands, hsame⟩ | ⟨hstrands, hstranded⟩⟩
                            · exact ⟨htakes, Or.inl ⟨hstrands, hsame⟩⟩
                            · exact ⟨htakes, Or.inr
                                ⟨hstrands, fs, p, _, entries, htarget, hstranded⟩⟩
                      | _ => exact ⟨rfl, Or.inl ⟨rfl, rfl⟩⟩

end SoupDB.BPlusTree
