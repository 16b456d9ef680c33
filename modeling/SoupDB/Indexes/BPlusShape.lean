import SoupDB.Indexes.BPlusTree

/-!
# SoupDB: the shape of a B+ tree

The pages of a tree file as a tree of page ids and separators.  `Tree` is the shape,
`Rep` says that the pages represent it (each page of its kind, with the parent its
place in the tree gives it), and a list of `Frame`s is a tree with a hole: the nodes
from the parent of the hole up to the root.

`Tree.items` flattens a tree to its leaves and the separators between them, left to
right.  A split of an internal node changes the shape and keeps the items; this is
what lets the proofs about searching and ordering ignore the shape.
-/

namespace SoupDB.BPlusTree

open BPlusPage DiskManager List

/-! ## Blocks and separators -/

section Blocks

variable {α : Type}

/-- Each block after its separator. -/
def blocksAfter : List α → List (List α) → List α
  | sep :: seps, block :: blocks => sep :: (block ++ blocksAfter seps blocks)
  | _, _ => []

/-- Each block before its separator. -/
def blocksBefore : List α → List (List α) → List α
  | sep :: seps, block :: blocks => block ++ sep :: blocksBefore seps blocks
  | _, _ => []

/-- The blocks with the separators between them. -/
def interleave (seps : List α) : List (List α) → List α
  | [] => []
  | block :: blocks => block ++ blocksAfter seps blocks

variable {blocks : List (List α)}

theorem blocksAfter_append {seps : List α} (seps' : List α) (blocks' : List (List α))
    (h : seps.length = blocks.length) :
    blocksAfter (seps ++ seps') (blocks ++ blocks') =
      blocksAfter seps blocks ++ blocksAfter seps' blocks' := by
  induction seps generalizing blocks with
  | nil =>
      cases blocks with
      | nil => rfl
      | cons block blocks => simp at h
  | cons sep seps ih =>
      cases blocks with
      | nil => simp at h
      | cons block blocks =>
          have h' : seps.length = blocks.length := by simpa using h
          simp [blocksAfter, ih h']

theorem interleave_append_cons {seps : List α} (block : List α) (seps' : List α)
    (blocks' : List (List α)) (h : seps.length = blocks.length) :
    interleave (seps ++ seps') (blocks ++ block :: blocks') =
      blocksBefore seps blocks ++ block ++ blocksAfter seps' blocks' := by
  induction seps generalizing blocks with
  | nil =>
      cases blocks with
      | nil => rfl
      | cons b blocks => simp at h
  | cons sep seps ih =>
      cases blocks with
      | nil => simp at h
      | cons b blocks =>
          have h' : seps.length = blocks.length := by simpa using h
          have hrest := ih h'
          cases blocks with
          | nil =>
              cases seps with
              | nil => simp [interleave, blocksAfter, blocksBefore]
              | cons _ _ => simp at h'
          | cons b' blocks =>
              simp only [interleave, cons_append] at hrest ⊢
              simp only [blocksAfter, blocksBefore, hrest, append_assoc, cons_append]

end Blocks

/-! ## Pages of a kind -/

def IsLeaf (d : DiskManager) (pageId : Int) (node : LeafNode) : Prop :=
  ∃ page, d.readPage pageId = .ok page ∧ encodeLeaf d.pageSize node = .ok page

def IsInternal (d : DiskManager) (pageId : Int) (node : InternalNode) : Prop :=
  ∃ page, d.readPage pageId = .ok page ∧ encodeInternal d.pageSize node = .ok page

def IsMetadata (d : DiskManager) (rootPageId firstLeafPageId : Int) : Prop :=
  ∃ page, d.readPage METADATA_PAGE_ID = .ok page ∧
    encodeMetadata d.pageSize (some rootPageId) (some firstLeafPageId) = .ok page

section Pages

variable {d d' : DiskManager} {p : Int}

variable {node : LeafNode}

theorem IsLeaf.readLeaf {t : BPlusTree} (h : IsLeaf t.disk p node) : t.readLeaf p = .ok node := by
  obtain ⟨page, hr, he⟩ := h
  obtain ⟨ht, hd⟩ := decode_leaf_encode_leaf he
  unfold BPlusTree.readLeaf readPage
  simp [hr, ht, hd]

theorem IsInternal.readInternal {t : BPlusTree} {node : InternalNode}
    (h : IsInternal t.disk p node) : t.readInternal p = .ok node := by
  obtain ⟨page, hr, he⟩ := h
  obtain ⟨ht, hd⟩ := decode_internal_encode_internal he
  unfold BPlusTree.readInternal readPage
  simp [hr, ht, hd]

theorem IsLeaf.unique {node' : LeafNode} (h : IsLeaf d p node) (h' : IsLeaf d p node') :
    node = node' := by
  obtain ⟨page, hr, he⟩ := h
  obtain ⟨page', hr', he'⟩ := h'
  rw [hr, Except.ok.injEq] at hr'
  subst hr'
  have hd := (decode_leaf_encode_leaf he).2
  rw [(decode_leaf_encode_leaf he').2] at hd
  exact (Except.ok.inj hd).symm

theorem IsLeaf.not_internal {node' : InternalNode} (h : IsLeaf d p node)
    (h' : IsInternal d p node') : False := by
  obtain ⟨page, hr, he⟩ := h
  obtain ⟨page', hr', he'⟩ := h'
  rw [hr, Except.ok.injEq] at hr'
  subst hr'
  have ht := (decode_leaf_encode_leaf he).1
  rw [(decode_internal_encode_internal he').1] at ht
  cases ht

theorem IsLeaf.valid (h : IsLeaf d p node) : d.validPageId p := by
  obtain ⟨page, hr, _⟩ := h
  exact validPageId_of_read_page hr

theorem IsInternal.valid {node : InternalNode} (h : IsInternal d p node) : d.validPageId p := by
  obtain ⟨page, hr, _⟩ := h
  exact validPageId_of_read_page hr

theorem IsMetadata.valid {root first : Int} (h : IsMetadata d root first) :
    d.validPageId METADATA_PAGE_ID := by
  obtain ⟨page, hr, _⟩ := h
  exact validPageId_of_read_page hr

def entriesAt (d : DiskManager) (pageId : Int) : List Entry :=
  match d.readPage pageId with
  | .error _ => []
  | .ok page =>
      match decodeLeaf page with
      | .error _ => []
      | .ok node => node.entries

theorem IsLeaf.entriesAt (h : IsLeaf d p node) : entriesAt d p = node.entries := by
  obtain ⟨page, hr, he⟩ := h
  unfold BPlusTree.entriesAt
  simp only [hr, (decode_leaf_encode_leaf he).2]

end Pages

/-! ## What a step leaves alone -/

/-- Pages outside `ps` keep their bytes, and none is lost. -/
structure Touches (d d' : DiskManager) (ps : List Int) : Prop where
  pageSize : d'.pageSize = d.pageSize
  pageCount : d.pageCount ≤ d'.pageCount
  read : ∀ {p : Int} {page : Bytes}, p ∉ ps → d.readPage p = .ok page →
    d'.readPage p = .ok page

namespace Touches

variable {d d' d'' : DiskManager} {ps qs : List Int} {p : Int}

theorem refl (d : DiskManager) (ps : List Int) : Touches d d ps :=
  ⟨rfl, le_rfl, fun _ h => h⟩

theorem mono (h : Touches d d' ps) (hsub : ps ⊆ qs) : Touches d d' qs :=
  ⟨h.pageSize, h.pageCount, fun hp hr => h.read (fun hm => hp (hsub hm)) hr⟩

theorem trans (h : Touches d d' ps) (h' : Touches d' d'' qs) : Touches d d'' (ps ++ qs) :=
  ⟨h'.pageSize.trans h.pageSize, h.pageCount.trans h'.pageCount, fun hp hr =>
    h'.read (fun hm => hp (mem_append_right _ hm))
      (h.read (fun hm => hp (mem_append_left _ hm)) hr)⟩

theorem of_write_page {data : Bytes} (h : d.writePage p data = .ok d') : Touches d d' [p] := by
  refine ⟨page_size_write_page h, (page_count_write_page h).ge, ?_⟩
  intro q page hq hr
  rw [read_page_write_page h, if_neg (by simpa using hq), hr]

theorem of_allocate_page (d : DiskManager) : Touches d d.allocatePage.2 [] :=
  ⟨rfl, by simp, fun _ hr => read_page_allocate_page hr⟩

theorem valid (h : Touches d d' ps) (hp : d.validPageId p) : d'.validPageId p := by
  have hle := h.pageCount
  unfold validPageId at hp ⊢
  omega

theorem isLeaf {node : LeafNode} (h : Touches d d' ps) (hp : p ∉ ps) (hl : IsLeaf d p node) :
    IsLeaf d' p node := by
  obtain ⟨page, hr, he⟩ := hl
  exact ⟨page, h.read hp hr, by rw [h.pageSize]; exact he⟩

theorem isInternal {node : InternalNode} (h : Touches d d' ps) (hp : p ∉ ps)
    (hi : IsInternal d p node) : IsInternal d' p node := by
  obtain ⟨page, hr, he⟩ := hi
  exact ⟨page, h.read hp hr, by rw [h.pageSize]; exact he⟩

theorem isMetadata {root first : Int} (h : Touches d d' ps) (hp : METADATA_PAGE_ID ∉ ps)
    (hm : IsMetadata d root first) : IsMetadata d' root first := by
  obtain ⟨page, hr, he⟩ := hm
  exact ⟨page, h.read hp hr, by rw [h.pageSize]; exact he⟩

end Touches

/-- A step that writes some of the pages `ps` and allocates none. -/
structure Writes (d d' : DiskManager) (ps : List Int) : Prop extends Touches d d' ps where
  same_count : d'.pageCount = d.pageCount

namespace Writes

variable {d d' d'' : DiskManager} {ps qs : List Int} {p : Int}

theorem refl (d : DiskManager) (ps : List Int) : Writes d d ps := ⟨Touches.refl d ps, rfl⟩

theorem mono (h : Writes d d' ps) (hsub : ps ⊆ qs) : Writes d d' qs :=
  ⟨h.toTouches.mono hsub, h.same_count⟩

theorem trans (h : Writes d d' ps) (h' : Writes d' d'' qs) : Writes d d'' (ps ++ qs) :=
  ⟨h.toTouches.trans h'.toTouches, h'.same_count.trans h.same_count⟩

theorem of_write_page {data : Bytes} (h : d.writePage p data = .ok d') : Writes d d' [p] :=
  ⟨Touches.of_write_page h, page_count_write_page h⟩

end Writes

theorem isLeaf_of_write_page {d d' : DiskManager} {p : Int} {node : LeafNode} {page : Bytes}
    (he : encodeLeaf d.pageSize node = .ok page) (h : d.writePage p page = .ok d') :
    IsLeaf d' p node :=
  ⟨page, by rw [read_page_write_page h, if_pos rfl],
    by rw [page_size_write_page h]; exact he⟩

theorem isInternal_of_write_page {d d' : DiskManager} {p : Int} {node : InternalNode}
    {page : Bytes} (he : encodeInternal d.pageSize node = .ok page)
    (h : d.writePage p page = .ok d') : IsInternal d' p node :=
  ⟨page, by rw [read_page_write_page h, if_pos rfl],
    by rw [page_size_write_page h]; exact he⟩

/-- Leaves keep their entries and their successor; their parent may change. -/
def KeepsLeaves (d d' : DiskManager) : Prop :=
  ∀ p node, IsLeaf d p node → ∃ parent, IsLeaf d' p { node with parentPageId := parent }

namespace KeepsLeaves

variable {d d' d'' : DiskManager}

theorem refl (d : DiskManager) : KeepsLeaves d d := fun _ node h => ⟨node.parentPageId, h⟩

theorem trans (h : KeepsLeaves d d') (h' : KeepsLeaves d' d'') : KeepsLeaves d d'' := by
  intro p node hl
  obtain ⟨parent, hl'⟩ := h p node hl
  obtain ⟨parent', hl''⟩ := h' p _ hl'
  exact ⟨parent', hl''⟩

theorem of_touches {ps : List Int} (h : Touches d d' ps)
    (hps : ∀ p ∈ ps, ∀ node, ¬ IsLeaf d p node) : KeepsLeaves d d' := by
  intro p node hl
  have hp : p ∉ ps := fun hm => hps p hm node hl
  exact ⟨node.parentPageId, h.isLeaf hp hl⟩

theorem then_touches {ps : List Int} (h : KeepsLeaves d d') (htouch : Touches d' d'' ps)
    (hps : ∀ p ∈ ps, ∀ node, ¬ IsLeaf d p node) : KeepsLeaves d d'' := by
  intro p node hl
  have hp : p ∉ ps := fun hm => hps p hm node hl
  obtain ⟨parent, hl'⟩ := h p node hl
  exact ⟨parent, htouch.isLeaf hp hl'⟩

end KeepsLeaves

/-! ## Trees -/

/-- The shape of a tree: page ids and separators. -/
inductive Tree
  | leaf (pageId : Int)
  | node (pageId : Int) (keys : List Value) (children : List Tree)

/-- A separator or a leaf. -/
abbrev Item := Value ⊕ Int

namespace Tree

def pid : Tree → Int
  | .leaf pageId => pageId
  | .node pageId _ _ => pageId

/-- All page ids. -/
def pids : Tree → List Int
  | .leaf pageId => [pageId]
  | .node pageId _ children => pageId :: children.flatMap pids

/-- The leaves and the separators between them, left to right. -/
def items : Tree → List Item
  | .leaf pageId => [.inr pageId]
  | .node _ keys children => interleave (keys.map .inl) (children.map items)

theorem pid_mem_pids (t : Tree) : t.pid ∈ t.pids := by
  cases t <;> simp [pid, pids]

end Tree

def leavesOf (items : List Item) : List Int := items.filterMap Sum.getRight?

/-- The separators among the items and the keys of the leaves, in order. -/
def keysOf (d : DiskManager) (items : List Item) : List Value :=
  items.flatMap (fun item => match item with
    | .inl key => [key]
    | .inr pageId => (entriesAt d pageId).map Prod.fst)

/-- The pages represent the tree under this parent. -/
inductive Rep (d : DiskManager) : Option Int → Tree → Prop
  | leaf {parent : Option Int} {pageId : Int} (next : Option Int) (entries : List Entry) :
      IsLeaf d pageId
        { parentPageId := parent, nextLeafPageId := next, entries := entries } →
      Rep d parent (.leaf pageId)
  | node {parent : Option Int} {pageId : Int} {keys : List Value} {children : List Tree} :
      IsInternal d pageId
        { parentPageId := parent, keys := keys, children := children.map Tree.pid } →
      children.length = keys.length + 1 →
      (∀ c ∈ children, Rep d (some pageId) c) →
      Rep d parent (.node pageId keys children)

section Rep

variable {d d' : DiskManager} {parent : Option Int} {t : Tree}

theorem Rep.valid (h : Rep d parent t) : ∀ p ∈ t.pids, d.validPageId p := by
  induction h with
  | leaf next entries hl =>
      intro p hp
      simp only [Tree.pids, mem_singleton] at hp
      subst hp
      exact hl.valid
  | node hi hlen hc ih =>
      intro p hp
      simp only [Tree.pids, mem_cons, mem_flatMap] at hp
      rcases hp with rfl | ⟨c, hcm, hp⟩
      · exact hi.valid
      · exact ih c hcm p hp

/-- A step that touches no page of the tree keeps the tree. -/
theorem Rep.frame {ps : List Int} (htouch : Touches d d' ps) (h : Rep d parent t)
    (hdisj : ∀ p ∈ t.pids, p ∉ ps) : Rep d' parent t := by
  induction h with
  | leaf next entries hl =>
      exact .leaf next entries (htouch.isLeaf (hdisj _ (by simp [Tree.pids])) hl)
  | node hi hlen hc ih =>
      refine .node (htouch.isInternal (hdisj _ (by simp [Tree.pids])) hi) hlen ?_
      intro c hcm
      apply ih c hcm
      intro p hp
      apply hdisj
      simp only [Tree.pids, mem_cons, mem_flatMap]
      exact Or.inr ⟨c, hcm, hp⟩

end Rep

/-! ## Membership in the items -/

theorem mem_leavesOf {items : List Item} {p : Int} :
    p ∈ leavesOf items ↔ .inr p ∈ items := by
  simp [leavesOf]

@[simp] theorem leavesOf_append (as bs : List Item) :
    leavesOf (as ++ bs) = leavesOf as ++ leavesOf bs := by
  simp [leavesOf]

@[simp] theorem keysOf_append (d : DiskManager) (as bs : List Item) :
    keysOf d (as ++ bs) = keysOf d as ++ keysOf d bs := by
  simp [keysOf]

/-! ## Trees with a hole -/

/-- A node with a hole among its children. -/
structure Frame where
  pageId : Int
  keysL : List Value
  left : List Tree
  keysR : List Value
  right : List Tree

namespace Frame

/-- The node with a tree in the hole. -/
def fill (f : Frame) (t : Tree) : Tree :=
  .node f.pageId (f.keysL ++ f.keysR) (f.left ++ t :: f.right)

def pids (f : Frame) : List Int := f.pageId :: (f.left ++ f.right).flatMap Tree.pids

end Frame

/-- The tree with `t` in the hole; the frames go from the parent of the hole upwards. -/
def plug : List Frame → Tree → Tree
  | [], t => t
  | f :: fs, t => plug fs (f.fill t)

/-- The page id of the parent of the hole. -/
def parentOf : List Frame → Option Int
  | [] => none
  | f :: _ => some f.pageId

def framePids (fs : List Frame) : List Int := fs.flatMap Frame.pids

def itemsBefore : List Frame → List Item
  | [] => []
  | f :: fs => itemsBefore fs ++ blocksBefore (f.keysL.map .inl) (f.left.map Tree.items)

def itemsAfter : List Frame → List Item
  | [] => []
  | f :: fs => blocksAfter (f.keysR.map .inl) (f.right.map Tree.items) ++ itemsAfter fs

/-- The pages represent the frames, around a tree whose page id is `hole`. -/
def FramesRep (d : DiskManager) : List Frame → Int → Prop
  | [], _ => True
  | f :: fs, hole =>
      f.left.length = f.keysL.length ∧ f.right.length = f.keysR.length ∧
        IsInternal d f.pageId
          { parentPageId := parentOf fs
            keys := f.keysL ++ f.keysR
            children := f.left.map Tree.pid ++ hole :: f.right.map Tree.pid } ∧
        (∀ c ∈ f.left ++ f.right, Rep d (some f.pageId) c) ∧
        FramesRep d fs f.pageId

section Frames

variable {d d' : DiskManager} {fs : List Frame} {f : Frame} {t : Tree} {hole : Int}

/-- A frame around a represented tree is a represented tree. -/
theorem FramesRep.fill (h : FramesRep d (f :: fs) t.pid) (ht : Rep d (some f.pageId) t) :
    Rep d (parentOf fs) (f.fill t) := by
  obtain ⟨hl, hr, hi, hc, _⟩ := h
  refine .node (by simpa using hi) ?_ ?_
  · simp only [length_append, length_cons, hl, hr]
    omega
  · intro c hcm
    rw [mem_append, mem_cons] at hcm
    rcases hcm with hcm | rfl | hcm
    · exact hc c (mem_append_left _ hcm)
    · exact ht
    · exact hc c (mem_append_right _ hcm)

theorem FramesRep.rep_plug : ∀ {fs : List Frame} {t : Tree}, FramesRep d fs t.pid →
    Rep d (parentOf fs) t → Rep d none (plug fs t)
  | [], _, _, ht => ht
  | _ :: fs, _, h, ht => @FramesRep.rep_plug fs _ h.2.2.2.2 (h.fill ht)

theorem FramesRep.items_plug : ∀ {fs : List Frame} {hole : Int} {t : Tree}, FramesRep d fs hole →
    (plug fs t).items = itemsBefore fs ++ t.items ++ itemsAfter fs
  | [], _, t, _ => by simp [plug, itemsBefore, itemsAfter]
  | f :: fs, _, t, h => by
      obtain ⟨hl, _, _, _, hfs⟩ := h
      have hlen : (f.keysL.map (Sum.inl : Value → Item)).length
          = (f.left.map Tree.items).length := by
        simp [hl]
      rw [plug, FramesRep.items_plug hfs, Frame.fill, Tree.items, map_append,
        map_append, map_cons, interleave_append_cons _ _ _ hlen]
      simp [itemsBefore, itemsAfter]

theorem FramesRep.items_leaf {T : Tree} {p : Int} (h : FramesRep d fs p)
    (hT : plug fs (.leaf p) = T) : T.items = itemsBefore fs ++ .inr p :: itemsAfter fs := by
  rw [← hT, h.items_plug, Tree.items, append_assoc, singleton_append]

theorem pids_plug : ∀ (fs : List Frame) (t : Tree),
    (plug fs t).pids.Perm (t.pids ++ framePids fs)
  | [], t => by simp [plug, framePids]
  | f :: fs, t => by
      refine (pids_plug fs (f.fill t)).trans (perm_iff_count.mpr ?_)
      intro a
      simp only [Frame.fill, Tree.pids, flatMap_append, flatMap_cons, framePids,
        Frame.pids, count_append, count_cons]
      omega

theorem pid_plug : ∀ (fs : List Frame) {t t' : Tree}, t.pid = t'.pid →
    (plug fs t).pid = (plug fs t').pid
  | [], _, _, h => h
  | _ :: fs, _, _, _ => pid_plug fs rfl

theorem FramesRep.frame {ps : List Int} (htouch : Touches d d' ps) :
    ∀ {fs : List Frame} {hole : Int}, FramesRep d fs hole → (∀ p ∈ framePids fs, p ∉ ps) →
      FramesRep d' fs hole
  | [], _, _, _ => trivial
  | f :: fs, hole, h, hdisj => by
      obtain ⟨hl, hr, hi, hc, hfs⟩ := h
      have hframe : ∀ p ∈ f.pids, p ∉ ps := by
        intro p hp
        exact hdisj p (by simp [framePids, hp])
      refine ⟨hl, hr, htouch.isInternal (hframe _ (by simp [Frame.pids])) hi, ?_, ?_⟩
      · intro c hcm
        refine (hc c hcm).frame htouch ?_
        intro p hp
        apply hframe
        simp only [Frame.pids, mem_cons, mem_flatMap]
        exact Or.inr ⟨c, hcm, hp⟩
      · refine FramesRep.frame htouch hfs ?_
        intro p hp
        apply hdisj
        simp only [framePids, flatMap_cons, mem_append] at hp ⊢
        exact Or.inr hp

/-- No page of the frames is a leaf outside the subtrees beside the hole. -/
theorem FramesRep.valid : ∀ {fs : List Frame} {hole : Int}, FramesRep d fs hole →
    ∀ p ∈ framePids fs, d.validPageId p
  | [], _, _, _, hp => by simp [framePids] at hp
  | f :: fs, hole, h, p, hp => by
      obtain ⟨_, _, hi, hc, hfs⟩ := h
      rw [framePids, flatMap_cons, mem_append] at hp
      rcases hp with hp | hp
      · simp only [Frame.pids, mem_cons, mem_flatMap] at hp
        rcases hp with rfl | ⟨c, hcm, hp⟩
        · exact hi.valid
        · exact (hc c hcm).valid p hp
      · exact FramesRep.valid hfs p hp

theorem length_le_framePids (fs : List Frame) : fs.length ≤ (framePids fs).length := by
  induction fs with
  | nil => simp
  | cons f fs ih =>
      simp only [framePids, flatMap_cons, length_append, length_cons,
        Frame.pids] at ih ⊢
      omega

end Frames

/-! ## Levels -/

/-- All leaves of the tree are `n` levels below its root. -/
inductive Level : Nat → Tree → Prop
  | leaf (pageId : Int) : Level 0 (.leaf pageId)
  | node {n pageId keys children} : (∀ c ∈ children, Level n c) →
      Level (n + 1) (.node pageId keys children)

/-- The trees beside the hole have their leaves `n` levels below them, and so on upwards. -/
def FramesLevel : Nat → List Frame → Prop
  | _, [] => True
  | n, f :: fs => (∀ c ∈ f.left ++ f.right, Level n c) ∧ FramesLevel (n + 1) fs

theorem Level.fill {n : Nat} {f : Frame} {t : Tree} (h : Level n t)
    (hf : ∀ c ∈ f.left ++ f.right, Level n c) : Level (n + 1) (f.fill t) := by
  refine .node ?_
  intro c hc
  rw [mem_append, mem_cons] at hc
  rcases hc with hc | rfl | hc
  · exact hf c (mem_append_left _ hc)
  · exact h
  · exact hf c (mem_append_right _ hc)

/-- A hole filled on its level gives a tree with all leaves on one level. -/
theorem Level.plug : ∀ {fs : List Frame} {n : Nat} {t : Tree}, Level n t → FramesLevel n fs →
    Level (n + fs.length) (plug fs t)
  | [], _, _, h, _ => h
  | f :: fs, n, t, h, hfs => by
      have hrest := Level.plug (h.fill hfs.1) hfs.2
      rwa [Nat.add_right_comm] at hrest

theorem Level.frames : ∀ {fs : List Frame} {m : Nat} {t : Tree}, Level m (BPlusTree.plug fs t) →
    ∃ n, Level n t ∧ FramesLevel n fs
  | [], m, _, h => ⟨m, h, trivial⟩
  | f :: fs, _, t, h => by
      obtain ⟨n, hfill, hfs⟩ := @Level.frames fs _ (f.fill t) h
      cases hfill with
      | @node n _ _ _ hc =>
          refine ⟨n, hc t (by simp), ?_, hfs⟩
          intro c hcm
          apply hc
          rw [mem_append] at hcm
          rw [mem_append, mem_cons]
          tauto

end SoupDB.BPlusTree
