import SoupDB.Indexes.RTreePage
import SoupDB.Lib.Dict
import SoupDB.Storage.Cells

/-!
# SoupDB: the pages of an R-tree

A store writes every node of a tree into a page of its own, and the order and the page of the
root into page zero.  It remembers the page of each object, so that a later save overwrites it;
a node that is new gets a new page, and the pages of nodes that are gone stay behind.  What is
loaded is checked: a page is not visited twice, and the boxes beside the children are theirs.

Main facts: `save_node_spec` and `load_node_spec`.
-/

namespace SoupDB

open DiskManager

variable {K : Type}

open RTreeField RTreeCodec

/-! ## Metadata -/

structure RTreeMetadata where
  order : Nat
  rootPageId : Int
deriving DecidableEq

namespace RTreeNode

/-- Which object a node is. -/
def identity : RTreeNode K → Nat
  | .leaf id _ _ => id
  | .internal id _ _ => id

mutual

def nodes : RTreeNode K → List (RTreeNode K)
  | .leaf id entries mbr => [.leaf id entries mbr]
  | .internal id entries mbr => .internal id entries mbr :: nodesOf entries

def nodesOf : List (Option (MBR K) × RTreeNode K) → List (RTreeNode K)
  | [] => []
  | (_, child) :: entries => nodes child ++ nodesOf entries

end

theorem identity_mem_ids (node : RTreeNode K) : node.identity ∈ node.ids := by
  cases node with
  | leaf id entries mbr =>
      rw [ids_leaf]
      exact List.mem_cons_self
  | internal id entries mbr =>
      rw [ids_internal]
      exact List.mem_cons_self

variable {entries : List (Option (MBR K) × RTreeNode K)}

theorem mem_nodes_of {n : RTreeNode K} : n ∈ nodesOf entries ↔ ∃ e ∈ entries, n ∈ e.2.nodes := by
  induction entries with
  | nil => simp [nodesOf]
  | cons e entries ih => simp [nodesOf, ih]

theorem mem_ids_of {i : Nat} : i ∈ idsOf entries ↔ ∃ e ∈ entries, i ∈ e.2.ids := by
  rw [ids_of_eq, List.mem_flatMap]

mutual

/-- The objects below a node that is below another. -/
theorem ids_subset_of_mem_nodes : ∀ {node n : RTreeNode K}, n ∈ node.nodes → n.ids ⊆ node.ids
  | .leaf id entries mbr, n, h => by
      rw [nodes, List.mem_singleton] at h
      rw [h]
      exact List.Subset.refl _
  | .internal id entries mbr, n, h => by
      rw [nodes] at h
      rcases List.mem_cons.mp h with rfl | h
      · exact List.Subset.refl _
      · rw [ids_internal]
        exact List.Subset.trans (ids_subset_of_mem_nodes_of h) (List.subset_cons_self _ _)

theorem ids_subset_of_mem_nodes_of : ∀ {entries : List (Option (MBR K) × RTreeNode K)}
    {n : RTreeNode K}, n ∈ nodesOf entries → n.ids ⊆ idsOf entries
  | [], n, h => by
      rw [nodesOf] at h
      exact absurd h List.not_mem_nil
  | (_, child) :: entries, n, h => by
      rw [nodesOf] at h
      rw [idsOf]
      rcases List.mem_append.mp h with h | h
      · exact List.Subset.trans (ids_subset_of_mem_nodes h) (List.subset_append_left _ _)
      · exact List.Subset.trans (ids_subset_of_mem_nodes_of h) (List.subset_append_right _ _)

end

mutual

theorem exists_node_of_mem_ids : ∀ {node : RTreeNode K} {i : Nat}, i ∈ node.ids →
    ∃ n ∈ node.nodes, n.identity = i
  | .leaf id entries mbr, i, h => by
      rw [ids_leaf, List.mem_singleton] at h
      refine ⟨.leaf id entries mbr, ?_, h.symm⟩
      rw [nodes]
      exact List.mem_cons_self
  | .internal id entries mbr, i, h => by
      rw [nodes]
      rw [ids_internal] at h
      rcases List.mem_cons.mp h with h | h
      · exact ⟨_, List.mem_cons_self, h.symm⟩
      · obtain ⟨n, hn, hi⟩ := exists_node_of_mem_ids_of h
        exact ⟨n, List.mem_cons_of_mem _ hn, hi⟩

theorem exists_node_of_mem_ids_of : ∀ {entries : List (Option (MBR K) × RTreeNode K)} {i : Nat},
    i ∈ idsOf entries → ∃ n ∈ nodesOf entries, n.identity = i
  | [], i, h => by
      rw [idsOf] at h
      exact absurd h List.not_mem_nil
  | (_, child) :: entries, i, h => by
      rw [nodesOf]
      rw [idsOf] at h
      rcases List.mem_append.mp h with h | h
      · obtain ⟨n, hn, hi⟩ := exists_node_of_mem_ids h
        exact ⟨n, List.mem_append_left _ hn, hi⟩
      · obtain ⟨n, hn, hi⟩ := exists_node_of_mem_ids_of h
        exact ⟨n, List.mem_append_right _ hn, hi⟩

end

theorem Valid.depth_lt_length_ids [LinearOrder K] {maxEntries depth : Nat} {node : RTreeNode K}
    (h : Valid maxEntries depth node) : depth < node.ids.length := by
  induction h with
  | leaf _ _ _ =>
      rw [ids_leaf]
      exact Nat.one_pos
  | @internal depth id entries box hne _ _ _ ih =>
      cases entries with
      | nil => exact absurd rfl hne
      | cons e entries =>
          have hlt := ih e List.mem_cons_self
          rw [ids_internal, idsOf, List.length_cons, List.length_append]
          omega

end RTreeNode

/-- The disk manager, and the page of each object of the tree that was last saved or loaded. -/
structure RTreePageStore where
  diskManager : DiskManager
  pageIds : Dict Nat Int

namespace RTreePageStore

open Effect RTreeNode

def METADATA_PAGE_ID : Int := 0

def EMPTY_ROOT_PAGE_ID : Int := -1

def MAGIC : Bytes := [82, 84, 77, 49]

def VERSION : Nat := 1

def MIN_ORDER : Nat := 2

/-- Magic number, version, a reserved field, the order and the page of the root. -/
def METADATA : Struct (Bytes × Nat × Nat × Nat × Int) :=
  (Struct.raw 4).pair ((Struct.unsigned 1).pair ((Struct.unsigned 1).pair (u16.pair i64)))

def encodeMetadata (pageSize : Nat) (metadata : RTreeMetadata) : Except PyError Bytes :=
  METADATA.packInto 0 (MAGIC, VERSION, 0, metadata.order, metadata.rootPageId)
    (List.replicate pageSize 0)

def decodeMetadata (page : Bytes) : Except PyError RTreeMetadata :=
  if page.length < METADATA.size then
    .error (.ValueError "truncated R-Tree metadata page")
  else do
    let (magic, version, reserved, order, rootPageId) ← METADATA.unpackFrom 0 page
    if magic ≠ MAGIC then
      .error (.ValueError s!"invalid R-Tree metadata magic {repr magic}")
    else if version ≠ VERSION then
      .error (.ValueError s!"unsupported R-Tree metadata version {version}")
    else if reserved ≠ 0 then
      .error (.ValueError "reserved metadata field must be zero")
    else .ok ⟨order, rootPageId⟩

/-- The largest order whose nodes all fit a page. -/
def orderLimit (pageSize : Nat) : Nat :=
  min (RTreePage.leafCapacity pageSize) (RTreePage.internalCapacity pageSize)

def checkOrder (pageSize order : Nat) : Except PyError Unit :=
  if ¬ (MIN_ORDER ≤ order ∧ order ≤ orderLimit pageSize) then
    .error (.ValueError s!"order {order} incompatible with page_size {pageSize} (allowed [{MIN_ORDER}, {orderLimit pageSize}])")
  else .ok ()

/-! ## Saving -/

section Save

variable (d : Struct K) (known : Dict Nat Int) (order : Nat)

/-- The page that the object had, or a new one. -/
def pageIdFor (id : Nat) : Effect PyError DiskManager Int :=
  match known.lookup id with
  | some pageId => pure pageId
  | none => allocate

def writeNode (pageId : Int) (page : DecodedRTreePage K) : Effect PyError DiskManager Unit := do
  let disk ← get
  let data ← lift (RTreePage.encodePage d disk.pageSize page)
  update (fun disk => disk.writePage pageId data)

mutual

/-- The page of a node, and the pages of all objects so far.  Every node of a tree has its order
for `maxEntries`. -/
def saveNode :
    RTreeNode K → Dict Nat Int → Effect PyError DiskManager (Int × Dict Nat Int)
  | .leaf id entries _, pageIds => do
      let pageId ← pageIdFor known id
      writeNode d pageId (.leaf order entries)
      pure (pageId, pageIds.insert id pageId)
  | .internal id entries _, pageIds => do
      let pageId ← pageIdFor known id
      let (children, pageIds) ← saveChildren entries (pageIds.insert id pageId)
      writeNode d pageId (.internal order children)
      pure (pageId, pageIds)

/-- The boxes and the pages of the children. -/
def saveChildren : List (Option (MBR K) × RTreeNode K) → Dict Nat Int →
    Effect PyError DiskManager (List (Option (MBR K) × Int) × Dict Nat Int)
  | [], pageIds => pure ([], pageIds)
  | (_, child) :: entries, pageIds => do
      let (pageId, pageIds) ← saveNode child pageIds
      let (children, pageIds) ← saveChildren entries pageIds
      pure ((child.mbr, pageId) :: children, pageIds)

end

/-- The page of the root, and the pages of all objects. -/
def saveRoot : Option (RTreeNode K) → Effect PyError DiskManager (Int × Dict Nat Int)
  | none => pure (EMPTY_ROOT_PAGE_ID, ∅)
  | some root => saveNode d known order root ∅

end Save

/-- Run a program on the disk manager. -/
def onDisk {α : Type} (x : Effect PyError DiskManager α) : Effect PyError RTreePageStore α :=
  focus diskManager (fun disk s => { s with diskManager := disk }) x

/-- An empty file gets its first page. -/
def makeMetadataPage : Effect PyError RTreePageStore Unit := do
  let s ← get
  if s.diskManager.pageCount = 0 then do
    let pageId ← onDisk allocate
    if pageId ≠ METADATA_PAGE_ID then
      raise (.ValueError "R-Tree metadata page must be page 0")
    else pure ()
  else pure ()

/-- `save(order, root)`.  The pages that are known are those of the last save or load. -/
def save (d : Struct K) (order : Nat) (root : Option (RTreeNode K)) :
    Effect PyError RTreePageStore Unit := do
  let s ← get
  lift (checkOrder s.diskManager.pageSize order)
  makeMetadataPage
  let (rootPageId, pageIds) ← onDisk (saveRoot d s.pageIds order root)
  modify (fun s => { s with pageIds := pageIds })
  let metadata ← lift (encodeMetadata s.diskManager.pageSize ⟨order, rootPageId⟩)
  onDisk (update (fun disk => disk.writePage METADATA_PAGE_ID metadata))

def saveTree (d : Struct K) (tree : RTree K) : Effect PyError RTreePageStore Unit :=
  save d tree.order tree.root

/-! ## Loading -/

/-- The pages that were visited, the pages of the objects that were made, and the identity of the
next object. -/
structure Loading where
  visited : List Int
  pageIds : Dict Nat Int
  next : Nat

section Load

variable [LinearOrder K] (d : Struct K) (disk : DiskManager) (order : Nat)

def isNodePageId (pageId : Int) : Prop :=
  METADATA_PAGE_ID < pageId ∧ pageId < disk.pageCount

instance (pageId : Int) : Decidable (isNodePageId disk pageId) :=
  inferInstanceAs (Decidable (_ ∧ _))

/-- The object of a page that was read. -/
def Loading.made (l : Loading) (pageId : Int) : Loading :=
  { l with pageIds := l.pageIds.insert l.next pageId, next := l.next + 1 }

/-- The children of the node in a page, by a reader of nodes. -/
def loadChildren (loadNode : Int → Loading → Except PyError (RTreeNode K × Loading))
    (pageId : Int) : List (Option (MBR K) × Int) → Loading →
      Except PyError (List (Option (MBR K) × RTreeNode K) × Loading)
  | [], l => .ok ([], l)
  | (storedMbr, childPageId) :: entries, l =>
      if ¬ isNodePageId disk childPageId ∨ childPageId ∈ l.visited then
        .error (.ValueError s!"invalid child_page_id {childPageId} in page {pageId}")
      else do
        let (child, l) ← loadNode childPageId l
        if child.isEmpty then
          .error (.ValueError s!"child page {childPageId} has no entries")
        else if storedMbr ≠ child.mbr then
          .error (.ValueError s!"stale MBR for child page {childPageId}")
        else do
          let (children, l) ← loadChildren loadNode pageId entries l
          .ok ((child.mbr, child) :: children, l)

/-- The node in a page, with new objects for all below it.  No page is visited twice, so the
number of pages is enough fuel. -/
def loadNode : Nat → Int → Loading → Except PyError (RTreeNode K × Loading)
  | 0, _, _ => .error .NonTermination
  | fuel + 1, pageId, l => do
      let data ← disk.readPage pageId
      let page ← RTreePage.decodePage d data disk.pageSize
      if page.maxEntries ≠ order then
        .error (.ValueError s!"page {pageId} max_entries {page.maxEntries} does not match order {order}")
      else
        match page with
        | .leaf _ entries => do
            let mbr ← computeMbr pointMbr entries
            .ok (.leaf l.next entries mbr,
              { l with visited := pageId :: l.visited }.made pageId)
        | .internal _ entries => do
            let (entries, l) ← loadChildren disk (loadNode fuel) pageId entries
              { l with visited := pageId :: l.visited }
            let mbr ← computeMbr childMbr entries
            .ok (.internal l.next entries mbr, l.made pageId)

end Load

section LoadTree

variable [LinearOrder K] (d : Struct K)

/-- The order, the root and the identity of the next object; the first new object is `next`. -/
def load (next : Nat) :
    Effect PyError RTreePageStore (Nat × Option (RTreeNode K) × Nat) := do
  let s ← get
  if s.diskManager.pageCount = 0 then
    raise (.ValueError "R-Tree file has no metadata page")
  else do
    let page ← lift (s.diskManager.readPage METADATA_PAGE_ID)
    let metadata ← lift (decodeMetadata page)
    lift (checkOrder s.diskManager.pageSize metadata.order)
    if metadata.rootPageId = EMPTY_ROOT_PAGE_ID then do
      modify (fun s => { s with pageIds := ∅ })
      pure (metadata.order, none, next)
    else if ¬ isNodePageId s.diskManager metadata.rootPageId then
      raise (.ValueError s!"invalid root_page_id {metadata.rootPageId}")
    else do
      let (root, l) ← lift (loadNode d s.diskManager metadata.order
        s.diskManager.pageCount metadata.rootPageId ⟨[], ∅, next⟩)
      modify (fun s => { s with pageIds := l.pageIds })
      pure (metadata.order, some root, l.next)

def loadTree (next : Nat) : Effect PyError RTreePageStore (RTree K) := do
  let (order, root, next) ← load d next
  let tree ← lift (RTree.construct order : Except PyError (RTree K))
  pure { tree with root := root, next := next }

end LoadTree

/-! ## Where the nodes stand -/

section Stored

variable (d : Struct K) (order : Nat)

/-- The page of an object. -/
def pageOf (pageIds : Dict Nat Int) (id : Nat) : Int := (pageIds.lookup id).getD 0

def pageFor (pageIds : Dict Nat Int) : RTreeNode K → DecodedRTreePage K
  | .leaf _ entries _ => .leaf order entries
  | .internal _ entries _ =>
      .internal order (entries.map fun e => (e.2.mbr, pageOf pageIds e.2.identity))

/-- The node stands in the page of its object. -/
def Holds (disk : DiskManager) (pageIds : Dict Nat Int) (node : RTreeNode K) : Prop :=
  ∃ pageId bytes, pageIds.lookup node.identity = some pageId ∧
    disk.readPage pageId = .ok bytes ∧
      RTreePage.decodePage d bytes disk.pageSize = .ok (pageFor order pageIds node)

/-- The node and all nodes below it stand in the pages of their objects. -/
def Stored (disk : DiskManager) (pageIds : Dict Nat Int) (node : RTreeNode K) : Prop :=
  ∀ n ∈ node.nodes, Holds d order disk pageIds n

/-- The pages of a file that belong to objects, each to one. -/
structure Known (known : Dict Nat Int) (disk : DiskManager) : Prop where
  range : ∀ {i : Nat} {q : Int}, known.lookup i = some q → 0 < q ∧ q < disk.pageCount
  injective : ∀ {i j : Nat} {q : Int}, known.lookup i = some q → known.lookup j = some q → i = j

/-- The objects got pages, those they had or new ones, and nothing was written elsewhere. -/
structure Placed (known pageIds pageIds' : Dict Nat Int) (disk disk' : DiskManager)
    (ids : List Nat) : Prop where
  pageSize : disk'.pageSize = disk.pageSize
  count_le : disk.pageCount ≤ disk'.pageCount
  count_ge : disk'.pageCount ≤ disk.pageCount + ids.length
  others : ∀ i, i ∉ ids → pageIds'.lookup i = pageIds.lookup i
  pages : ∀ i ∈ ids, ∃ q : Int, pageIds'.lookup i = some q ∧ 0 < q ∧ q < disk'.pageCount ∧
    (known.lookup i = some q ∨ known.lookup i = none ∧ disk.pageCount ≤ q)
  distinct : ∀ i ∈ ids, ∀ j ∈ ids, pageIds'.lookup i = pageIds'.lookup j → i = j
  kept : ∀ q, disk.validPageId q → (∀ i ∈ ids, pageIds'.lookup i ≠ some q) →
    disk'.readPage q = disk.readPage q

variable {d order} {known pageIds pageIds₁ pageIds₂ : Dict Nat Int}
  {disk disk₁ disk₂ : DiskManager} {ids ids' : List Nat} {node : RTreeNode K}

theorem Known.mono (h : Known known disk) (hle : disk.pageCount ≤ disk₁.pageCount) :
    Known known disk₁ :=
  ⟨fun hq => ⟨(h.range hq).1, (h.range hq).2.trans_le (by exact_mod_cast hle)⟩, h.injective⟩

theorem known_empty (disk : DiskManager) : Known ∅ disk := by
  refine ⟨fun hq => ?_, fun hq => ?_⟩
  · rw [AList.lookup_empty] at hq
    cases hq
  · rw [AList.lookup_empty] at hq
    cases hq

theorem Placed.valid (h : Placed known pageIds pageIds₁ disk disk₁ ids) {q : Int}
    (hq : disk.validPageId q) : disk₁.validPageId q :=
  ⟨hq.1, hq.2.trans_le (by exact_mod_cast h.count_le)⟩

/-- Pages given before and after do not meet. -/
theorem Placed.apart (h : Placed known pageIds pageIds₁ disk disk₁ ids)
    (h' : Placed known pageIds₁ pageIds₂ disk₁ disk₂ ids') (hknown : Known known disk)
    (hdisjoint : ∀ i ∈ ids, i ∉ ids') :
    ∀ i ∈ ids, ∀ j ∈ ids', pageIds₂.lookup i ≠ pageIds₂.lookup j := by
  intro i hi j hj heq
  obtain ⟨q, hq, -, hlt, hfrom⟩ := h.pages i hi
  obtain ⟨q', hq', -, -, hfrom'⟩ := h'.pages j hj
  rw [h'.others i (hdisjoint i hi), hq, hq', Option.some.injEq] at heq
  subst heq
  have hle := h.count_le
  rcases hfrom' with hfrom' | ⟨-, hnew⟩
  · have hrange := hknown.range hfrom'
    rcases hfrom with hfrom | ⟨-, hnew⟩
    · exact hdisjoint i hi (hknown.injective hfrom hfrom' ▸ hj)
    · omega
  · omega

theorem Placed.append (h : Placed known pageIds pageIds₁ disk disk₁ ids)
    (h' : Placed known pageIds₁ pageIds₂ disk₁ disk₂ ids') (hknown : Known known disk)
    (hdisjoint : ∀ i ∈ ids, i ∉ ids') :
    Placed known pageIds pageIds₂ disk disk₂ (ids ++ ids') := by
  have hapart := h.apart h' hknown hdisjoint
  have hle := h.count_le
  have hle' := h'.count_le
  refine ⟨h'.pageSize.trans h.pageSize, hle.trans hle', ?_, ?_, ?_, ?_, ?_⟩
  · have hge := h.count_ge
    have hge' := h'.count_ge
    rw [List.length_append]
    omega
  · intro i hi
    rw [List.mem_append, not_or] at hi
    rw [h'.others i hi.2, h.others i hi.1]
  · intro i hi
    rcases List.mem_append.mp hi with hi | hi
    · obtain ⟨q, hq, hpos, hlt, hfrom⟩ := h.pages i hi
      exact ⟨q, by rw [h'.others i (hdisjoint i hi), hq], hpos, by omega, hfrom⟩
    · obtain ⟨q, hq, hpos, hlt, hfrom⟩ := h'.pages i hi
      refine ⟨q, hq, hpos, hlt, hfrom.imp_right fun hnew => ⟨hnew.1, ?_⟩⟩
      have hnew := hnew.2
      omega
  · intro i hi j hj heq
    rcases List.mem_append.mp hi with hi | hi
    · rcases List.mem_append.mp hj with hj | hj
      · rw [h'.others i (hdisjoint i hi), h'.others j (hdisjoint j hj)] at heq
        exact h.distinct i hi j hj heq
      · exact absurd heq (hapart i hi j hj)
    · rcases List.mem_append.mp hj with hj | hj
      · exact absurd heq.symm (hapart j hj i hi)
      · exact h'.distinct i hi j hj heq
  · intro q hq hfree
    rw [h'.kept q (h.valid hq) fun i hi => hfree i (List.mem_append_right _ hi)]
    refine h.kept q hq fun i hi => ?_
    rw [← h'.others i (hdisjoint i hi)]
    exact hfree i (List.mem_append_left _ hi)

variable {bytes : Bytes}

theorem Placed.write (h : Placed known pageIds pageIds₁ disk disk₁ ids) {i : Nat} {q : Int}
    (hi : i ∈ ids) (hq : pageIds₁.lookup i = some q)
    (hwrite : disk₁.writePage q bytes = .ok disk₂) :
    Placed known pageIds pageIds₁ disk disk₂ ids := by
  have hcount := page_count_write_page hwrite
  refine ⟨(page_size_write_page hwrite).trans h.pageSize,
    by rw [hcount]; exact h.count_le,
    by rw [hcount]; exact h.count_ge, h.others, ?_, h.distinct, ?_⟩
  · rw [hcount]
    exact h.pages
  · intro q' hq' hfree
    have hne : q' ≠ q := fun heq => hfree i hi (by rw [hq, heq])
    rw [read_page_write_page hwrite, if_neg hne]
    exact h.kept q' hq' hfree

theorem page_for_congr {node : RTreeNode K}
    (h : ∀ i ∈ node.ids, pageIds₂.lookup i = pageIds₁.lookup i) :
    pageFor order pageIds₂ node = pageFor order pageIds₁ node := by
  cases node with
  | leaf id entries mbr => rfl
  | internal id entries mbr =>
      rw [pageFor, pageFor]
      congr 1
      refine List.map_congr_left fun e he => ?_
      have hmem : e.2.identity ∈ (RTreeNode.internal id entries mbr).ids := by
        rw [ids_internal]
        exact List.mem_cons_of_mem _ (mem_ids_of.mpr ⟨e, he, identity_mem_ids e.2⟩)
      rw [pageOf, pageOf, h _ hmem]

/-- What stands stays while the pages of other objects are written. -/
theorem Stored.later (hstored : Stored d order disk₁ pageIds₁ node)
    (h : Placed known pageIds pageIds₁ disk disk₁ node.ids)
    (h' : Placed known pageIds₁ pageIds₂ disk₁ disk₂ ids') (hknown : Known known disk)
    (hdisjoint : ∀ i ∈ node.ids, i ∉ ids') : Stored d order disk₂ pageIds₂ node := by
  intro n hn
  have hsub := ids_subset_of_mem_nodes hn
  have hid := hsub (identity_mem_ids n)
  obtain ⟨p, bytes, hp, hread, hdecode⟩ := hstored n hn
  have hp' : pageIds₂.lookup n.identity = some p := by
    rw [h'.others _ (hdisjoint _ hid), hp]
  refine ⟨p, bytes, hp', ?_, ?_⟩
  · rw [h'.kept p (validPageId_of_read_page hread), hread]
    intro j hj heq
    exact h.apart h' hknown hdisjoint _ hid j hj (hp'.trans heq.symm)
  · rw [h'.pageSize, hdecode,
      page_for_congr fun i hi => h'.others i (hdisjoint i (hsub hi))]

/-- What stands stays while the page of another object is written. -/
theorem Stored.write {q : Int} (hstored : Stored d order disk pageIds node)
    (hwrite : disk.writePage q bytes = .ok disk₁)
    (hother : ∀ i ∈ node.ids, pageIds.lookup i ≠ some q) :
    Stored d order disk₁ pageIds node := by
  intro n hn
  have hid := ids_subset_of_mem_nodes hn (identity_mem_ids n)
  obtain ⟨p, data, hp, hread, hdecode⟩ := hstored n hn
  have hne : p ≠ q := fun heq => hother _ hid (by rw [hp, heq])
  refine ⟨p, data, hp, ?_, ?_⟩
  · rw [read_page_write_page hwrite, if_neg hne, hread]
  · rw [page_size_write_page hwrite, hdecode]

/-- An object gets the page it had, or a new one. -/
theorem page_id_for_spec (hknown : Known known disk) (hpos : 0 < disk.pageCount)
    (hroom : (disk.pageCount + 1) * disk.pageSize < 2 ^ 63) (id : Nat)
    (pageIds : Dict Nat Int) : ∃ p disk', pageIdFor known id disk = (.ok p, disk') ∧
      Placed known pageIds (pageIds.insert id p) disk disk' [id] := by
  have hother : ∀ p : Int, ∀ i, i ∉ [id] → (pageIds.insert id p).lookup i = pageIds.lookup i := by
    intro p i hi
    rw [Dict.lookup_insert_eq, if_neg (fun h => hi (List.mem_singleton.mpr h))]
  have hdistinct : ∀ p : Int, ∀ i ∈ [id], ∀ j ∈ [id],
      (pageIds.insert id p).lookup i = (pageIds.insert id p).lookup j → i = j := by
    intro p i hi j hj _
    rw [List.mem_singleton.mp hi, List.mem_singleton.mp hj]
  rw [pageIdFor]
  cases hlookup : known.lookup id with
  | some p =>
      refine ⟨p, disk, rfl, rfl, le_refl _, Nat.le_add_right _ _, hother p, ?_, hdistinct p,
        fun _ _ _ => rfl⟩
      intro i hi
      obtain rfl := List.mem_singleton.mp hi
      obtain ⟨hlo, hhi⟩ := hknown.range hlookup
      exact ⟨p, by rw [Dict.lookup_insert_eq, if_pos rfl], hlo, hhi, .inl hlookup⟩
  | none =>
      refine ⟨disk.pageCount, disk.allocatePage.2, if_pos hroom, rfl, ?_, ?_, hother _, ?_,
        hdistinct _, ?_⟩
      · rw [page_count_allocate_page]
        exact Nat.le_succ _
      · rw [page_count_allocate_page, List.length_singleton]
      · intro i hi
        obtain rfl := List.mem_singleton.mp hi
        refine ⟨disk.pageCount, by rw [Dict.lookup_insert_eq, if_pos rfl], by omega, ?_,
          .inr ⟨hlookup, le_refl _⟩⟩
        rw [page_count_allocate_page]
        omega
      · intro q hq _
        have hread : disk.readPage q = .ok (disk.pages.getD q.toNat []) := if_pos hq
        rw [read_page_allocate_page hread, hread]

theorem write_node_spec {p : Int} {page : DecodedRTreePage K} (hd : d.size = 8)
    (hp : disk.validPageId p) (hencode : RTreePage.encodePage d disk.pageSize page = .ok bytes) :
    ∃ disk', writeNode d p page disk = (.ok (), disk') ∧ disk.writePage p bytes = .ok disk' ∧
      disk'.readPage p = .ok bytes ∧
      RTreePage.decodePage d bytes disk'.pageSize = .ok page := by
  have hwrite := write_page_of_valid hp bytes
  refine ⟨_, ?_, hwrite, ?_, ?_⟩
  · have hupdate : update (fun disk => disk.writePage p bytes) disk =
        (.ok (), { disk with pages := disk.pages.set p.toNat bytes }) := by
      rw [update, hwrite]
    rw [writeNode, run_bind_ok _ (run_get disk), hencode]
    exact hupdate
  · rw [read_page_write_page hwrite, if_pos rfl]
  · rw [page_size_write_page hwrite]
    exact (RTreePage.decode_encode_page hd hencode).2

end Stored

/-! ## What a save does -/

section SaveNode

variable [LinearOrder K] {d : Struct K} {known : Dict Nat Int} {order pageSize : Nat}

/-- The nodes of the order fit the pages and the fields, and so do the RIDs of this one. -/
structure Storable (d : Struct K) (order pageSize : Nat) (node : RTreeNode K) : Prop where
  drawn : Drawn d.Fits node
  rids : ∀ e ∈ node.contents, rid.Fits e.2
  distinct : node.ids.Nodup

/-- The orders that the pages hold and whose field holds them. -/
structure Admitted (pageSize order : Nat) : Prop where
  two_le : 2 ≤ order
  le_limit : order ≤ orderLimit pageSize
  lt : order < 2 ^ 16

theorem Admitted.page_pos (h : Admitted pageSize order) : 0 < pageSize := by
  by_contra hzero
  obtain rfl : pageSize = 0 := by omega
  have hlimit := h.le_limit
  have htwo := h.two_le
  rw [show orderLimit 0 = 0 from rfl] at hlimit
  omega

omit [LinearOrder K] in
/-- A node below the limit is encoded when its entries fit their fields. -/
theorem Admitted.encode (h : Admitted pageSize order) {page : DecodedRTreePage K}
    (hmax : page.maxEntries = order) (hcount : page.count ≤ order)
    (hentries : ∃ body, (RTreePage.encodeEntries d page).2 = .ok body) :
    ∃ bytes, RTreePage.encodePage d pageSize page = .ok bytes := by
  have hsize := h.two_le.trans (h.le_limit.trans (min_le_right _ _))
  refine RTreePage.encode_page_returns hsize (RTreePage.check_counts_eq_ok.mpr ?_) ?_ hentries
  · rw [hmax]
    exact ⟨h.two_le, h.le_limit, hcount⟩
  · rw [hmax]
    exact h.lt

/-- What saving a node does, whatever was saved before. -/
def Saves (d : Struct K) (known : Dict Nat Int) (order pageSize : Nat) (node : RTreeNode K) :
    Prop :=
  ∀ (pageIds : Dict Nat Int) (disk : DiskManager), Known known disk → 0 < disk.pageCount →
    disk.pageSize = pageSize →
    (disk.pageCount + node.ids.length) * pageSize < 2 ^ 63 →
    ∃ p pageIds' disk', saveNode d known order node pageIds disk = (.ok (p, pageIds'), disk') ∧
      Placed known pageIds pageIds' disk disk' node.ids ∧
      pageIds'.lookup node.identity = some p ∧ Stored d order disk' pageIds' node

omit [LinearOrder K] in
theorem save_children_spec {entries : List (Option (MBR K) × RTreeNode K)}
    (hsaves : ∀ e ∈ entries, Saves d known order pageSize e.2) (hnodup : (idsOf entries).Nodup)
    (pageIds : Dict Nat Int) (disk : DiskManager) (hknown : Known known disk)
    (hpos : 0 < disk.pageCount) (hsize : disk.pageSize = pageSize)
    (hroom : (disk.pageCount + (idsOf entries).length) * pageSize < 2 ^ 63) :
    ∃ pageIds' disk', saveChildren d known order entries pageIds disk =
        (.ok (entries.map (fun e => (e.2.mbr, pageOf pageIds' e.2.identity)), pageIds'),
          disk') ∧
      Placed known pageIds pageIds' disk disk' (idsOf entries) ∧
      ∀ e ∈ entries, Stored d order disk' pageIds' e.2 := by
  induction entries generalizing pageIds disk with
  | nil =>
      refine ⟨pageIds, disk, by rw [saveChildren]; rfl, ?_,
        fun e he => absurd he List.not_mem_nil⟩
      rw [idsOf]
      exact ⟨rfl, le_refl _, le_refl _, fun _ _ => rfl, fun i hi => absurd hi List.not_mem_nil,
        fun i hi => absurd hi List.not_mem_nil, fun _ _ _ => rfl⟩
  | cons e entries ih =>
      obtain ⟨box, child⟩ := e
      obtain ⟨hchild, hrest⟩ := List.forall_mem_cons.mp hsaves
      rw [idsOf] at hnodup hroom ⊢
      obtain ⟨-, hnodup', hdisjoint⟩ := List.nodup_append'.mp hnodup
      rw [List.length_append] at hroom
      have hroom₁ : (disk.pageCount + child.ids.length) * pageSize < 2 ^ 63 :=
        (Nat.mul_le_mul_right _ (by omega)).trans_lt hroom
      obtain ⟨p, pageIds₁, disk₁, hsave, hplaced, hp, hstored⟩ :=
        hchild pageIds disk hknown hpos hsize hroom₁
      have hcount : disk₁.pageCount ≤ disk.pageCount + child.ids.length := hplaced.count_ge
      have hroom₂ : (disk₁.pageCount + (idsOf entries).length) * pageSize < 2 ^ 63 :=
        (Nat.mul_le_mul_right _ (by omega)).trans_lt hroom
      obtain ⟨pageIds₂, disk₂, hsave', hplaced', hstored'⟩ :=
        ih hrest hnodup' pageIds₁ disk₁ (hknown.mono hplaced.count_le)
          (hpos.trans_le hplaced.count_le) (hplaced.pageSize.trans hsize) hroom₂
      have hapart : ∀ i ∈ child.ids, i ∉ idsOf entries := fun i hi hi' => hdisjoint hi hi'
      refine ⟨pageIds₂, disk₂, ?_, hplaced.append hplaced' hknown hapart, ?_⟩
      · have hpage : pageOf pageIds₂ child.identity = p := by
          rw [pageOf, hplaced'.others _ (hapart _ (identity_mem_ids child)), hp, Option.getD_some]
        rw [saveChildren, run_bind_ok _ hsave]
        dsimp only
        rw [run_bind_ok _ hsave', List.map_cons, hpage]
        rfl
      · exact List.forall_mem_cons.mpr
          ⟨hstored.later hplaced hplaced' hknown hapart, hstored'⟩

/-- A node within the limits is saved: each object gets one page, and stands there. -/
theorem save_node_spec {depth : Nat} {node : RTreeNode K} (hd : d.size = 8)
    (hadmitted : Admitted pageSize order) (h : Valid order depth node)
    (hstorable : Storable d order pageSize node) : Saves d known order pageSize node := by
  have hpagePos := hadmitted.page_pos
  induction h with
  | @leaf id entries box hne hfits hbounds =>
      intro pageIds disk hknown hpos hsize hroom
      rw [ids_leaf, List.length_singleton, ← hsize] at hroom
      obtain ⟨p, disk₁, hid, hplaced⟩ := page_id_for_spec hknown hpos hroom id pageIds
      have hp : (pageIds.insert id p).lookup id = some p := by
        rw [Dict.lookup_insert_eq, if_pos rfl]
      have hvalid : disk₁.validPageId p := by
        obtain ⟨q, hq, hlo, hhi, -⟩ := hplaced.pages id List.mem_cons_self
        rw [hp, Option.some.injEq] at hq
        subst hq
        exact ⟨hlo.le, hhi⟩
      have hbody : ∃ body, (RTreePage.encodeEntries d (.leaf order entries)).2 = .ok body := by
        refine RTreePage.pack_entries_returns fun e he => ?_
        have hpoint := drawn_leaf.mp hstorable.drawn e he
        have hrid := hstorable.rids e (by rwa [contents_leaf])
        exact Struct.fits_pair.mpr ⟨RTreeField.fits_point.mpr hpoint, hrid⟩
      obtain ⟨bytes, hencode⟩ := hadmitted.encode
        (rfl : DecodedRTreePage.maxEntries (.leaf order entries) = order) hfits hbody
      rw [← hsize, ← hplaced.pageSize] at hencode
      obtain ⟨disk', hrun, hwrite, hread, hdecode⟩ := write_node_spec hd hvalid hencode
      refine ⟨p, pageIds.insert id p, disk', ?_, ?_, hp, ?_⟩
      · rw [saveNode, run_bind_ok _ hid, run_bind_ok _ hrun]
        rfl
      · rw [ids_leaf]
        exact hplaced.write List.mem_cons_self hp hwrite
      · intro n hn
        rw [nodes, List.mem_singleton] at hn
        subst hn
        exact ⟨p, bytes, hp, hread, hdecode⟩
  | @internal depth id entries box hne hfits hbounds hchildren ih =>
      intro pageIds disk hknown hpos hsize hroom
      rw [ids_internal, List.length_cons] at hroom
      have hnodup := hstorable.distinct
      rw [ids_internal, List.nodup_cons] at hnodup
      have hroom₁ : (disk.pageCount + 1) * disk.pageSize < 2 ^ 63 := by
        rw [hsize]
        exact (Nat.mul_le_mul_right _ (by omega)).trans_lt hroom
      obtain ⟨p, disk₁, hid, hown⟩ := page_id_for_spec hknown hpos hroom₁ id pageIds
      have hownCount : disk₁.pageCount ≤ disk.pageCount + 1 := hown.count_ge
      have hroom₂ : (disk₁.pageCount + (idsOf entries).length) * pageSize < 2 ^ 63 :=
        (Nat.mul_le_mul_right _ (by omega)).trans_lt hroom
      have hentries := drawn_internal.mp hstorable.drawn
      have hsaves : ∀ e ∈ entries, Saves d known order pageSize e.2 := by
        intro e he
        refine ih e he ⟨(hentries e he).2, fun a ha => hstorable.rids a ?_, ?_⟩
        · rw [contents_internal]
          exact List.mem_flatMap.mpr ⟨e, he, ha⟩
        · rw [ids_of_eq] at hnodup
          exact (List.nodup_flatMap.mp hnodup.2).1 e he
      obtain ⟨pageIds₂, disk₂, hsave, hplaced, hstored⟩ := save_children_spec hsaves hnodup.2
        (pageIds.insert id p) disk₁ (hknown.mono hown.count_le) (hpos.trans_le hown.count_le)
        (hown.pageSize.trans hsize) hroom₂
      have hapart : ∀ i ∈ [id], i ∉ idsOf entries := by
        intro i hi
        rw [List.mem_singleton.mp hi]
        exact hnodup.1
      have hall := hown.append hplaced hknown hapart
      have hp : pageIds₂.lookup id = some p := by
        rw [hplaced.others id hnodup.1, Dict.lookup_insert_eq, if_pos rfl]
      have hvalid : disk₂.validPageId p := by
        obtain ⟨q, hq, hlo, hhi, -⟩ := hall.pages id (by simp)
        rw [hp, Option.some.injEq] at hq
        subst hq
        exact ⟨hlo.le, hhi⟩
      have hsize₂ : disk₂.pageSize = pageSize := hall.pageSize.trans hsize
      -- every child has a box and a page whose number fits the field
      have hbody : ∃ body, (RTreePage.encodeEntries d (.internal order
          (entries.map fun e => (e.2.mbr, pageOf pageIds₂ e.2.identity)))).2 = .ok body := by
        refine RTreePage.pack_entries_returns (List.forall_mem_map.mpr fun e he => ?_)
        obtain ⟨inner, hinner⟩ := (hchildren e he).mbr
        have hof := (hchildren e he).of_mbr (hentries e he).2.points inner hinner
        have hmem : e.2.identity ∈ idsOf entries := mem_ids_of.mpr ⟨e, he, identity_mem_ids e.2⟩
        obtain ⟨q, hq, hlo, hhi, -⟩ := hplaced.pages _ hmem
        have hcount : disk₂.pageCount ≤ disk₁.pageCount + (idsOf entries).length :=
          hplaced.count_ge
        have hbound : disk₂.pageCount < 2 ^ 63 :=
          lt_of_le_of_lt ((Nat.le_mul_of_pos_right _ hpagePos).trans
            (Nat.mul_le_mul_right _ hcount)) hroom₂
        have hfit : i64.Fits q := fits_i64.mpr ⟨by omega, by omega⟩
        have hpage : pageOf pageIds₂ e.2.identity = q := by rw [pageOf, hq, Option.getD_some]
        obtain ⟨bytes, hbytes⟩ : (RTreePage.INTERNAL_ENTRY d).Fits (inner, q) :=
          Struct.fits_pair.mpr ⟨fits_mbr.mpr hof, hfit⟩
        refine ⟨bytes, RTreePage.pack_internal_entry_eq_ok.mpr ⟨?_, inner, hinner, ?_⟩⟩
        · rw [hpage]
          exact hlo.le
        · rw [hpage]
          exact hbytes
      obtain ⟨bytes, hencode⟩ := hadmitted.encode
        (rfl : DecodedRTreePage.maxEntries (.internal order
          (entries.map fun e => (e.2.mbr, pageOf pageIds₂ e.2.identity))) = order)
        (by rw [DecodedRTreePage.count, List.length_map]; exact hfits) hbody
      rw [← hsize₂] at hencode
      obtain ⟨disk', hrun, hwrite, hread, hdecode⟩ := write_node_spec hd hvalid hencode
      refine ⟨p, pageIds₂, disk', ?_, ?_, hp, ?_⟩
      · rw [saveNode, run_bind_ok _ hid, run_bind_ok _ hsave]
        dsimp only
        rw [run_bind_ok _ hrun]
        rfl
      · rw [ids_internal]
        exact hall.write List.mem_cons_self hp hwrite
      · intro n hn
        rw [nodes] at hn
        rcases List.mem_cons.mp hn with rfl | hn
        · exact ⟨p, bytes, hp, hread, hdecode⟩
        · obtain ⟨e, he, hn⟩ := mem_nodes_of.mp hn
          refine (hstored e he).write hwrite (fun i hi heq => ?_) n hn
          have hi' : i ∈ idsOf entries := mem_ids_of.mpr ⟨e, he, hi⟩
          have hsame := hall.distinct i (by simp [hi']) id (by simp) (heq.trans hp.symm)
          exact hnodup.1 (hsame ▸ hi')

end SaveNode

/-! ## What a load does -/

section LoadNode

variable [LinearOrder K] {d : Struct K} {disk : DiskManager} {pageIds : Dict Nat Int}
  {order : Nat}

/-- Pages of these objects, and no others, were visited besides. -/
def Visits (pageIds : Dict Nat Int) (ids : List Nat) (l l' : Loading) : Prop :=
  ∀ q ∈ l'.visited, q ∈ l.visited ∨ ∃ i ∈ ids, pageIds.lookup i = some q

/-- The pages of these objects are still to be visited. -/
def Unvisited (pageIds : Dict Nat Int) (ids : List Nat) (l : Loading) : Prop :=
  ∀ i ∈ ids, ∀ q, pageIds.lookup i = some q → q ∉ l.visited

theorem Unvisited.later {ids ids' : List Nat} {l l' : Loading} (h : Unvisited pageIds ids' l)
    (hvisits : Visits pageIds ids l l') (hknown : Known pageIds disk)
    (hdisjoint : ∀ i ∈ ids, i ∉ ids') : Unvisited pageIds ids' l' := by
  intro i hi q hq hmem
  rcases hvisits q hmem with hmem | ⟨j, hj, hq'⟩
  · exact h i hi q hq hmem
  · exact hdisjoint j hj (hknown.injective hq hq' ▸ hi)

def Loads (d : Struct K) (disk : DiskManager) (order : Nat) (pageIds : Dict Nat Int) (fuel : Nat)
    (node : RTreeNode K) : Prop :=
  ∀ (l : Loading) (p : Int), pageIds.lookup node.identity = some p →
    Unvisited pageIds node.ids l →
    ∃ node' l', loadNode d disk order fuel p l = .ok (node', l') ∧
      Copied node.refreshed l.next node' l'.next ∧ Visits pageIds node.ids l l'

theorem load_children_spec {maxEntries depth fuel : Nat} {pageId : Int}
    {entries : List (Option (MBR K) × RTreeNode K)} (hknown : Known pageIds disk)
    (hchildren : ∀ e ∈ entries, Valid maxEntries depth e.2)
    (hplaced : ∀ e ∈ entries, ∃ q, pageIds.lookup e.2.identity = some q)
    (hloads : ∀ e ∈ entries, Loads d disk order pageIds fuel e.2)
    (hnodup : (idsOf entries).Nodup) (l : Loading)
    (hunvisited : Unvisited pageIds (idsOf entries) l) :
    ∃ entries' l', loadChildren disk (loadNode d disk order fuel) pageId
        (entries.map (fun e => (e.2.mbr, pageOf pageIds e.2.identity))) l =
          .ok (entries', l') ∧
      CopiedAll (refreshedOf entries) l.next entries' l'.next ∧
      Visits pageIds (idsOf entries) l l' := by
  induction entries generalizing l with
  | nil =>
      refine ⟨[], l, rfl, ?_, fun q hq => .inl hq⟩
      rw [refreshedOf]
      exact .nil
  | cons e entries ih =>
      obtain ⟨box, child⟩ := e
      obtain ⟨hchild, hrest⟩ := List.forall_mem_cons.mp hchildren
      obtain ⟨⟨q, hq⟩, hplaced⟩ := List.forall_mem_cons.mp hplaced
      obtain ⟨hload, hloads⟩ := List.forall_mem_cons.mp hloads
      rw [idsOf] at hnodup hunvisited ⊢
      obtain ⟨-, hnodup', hdisjoint⟩ := List.nodup_append'.mp hnodup
      have hmine : Unvisited pageIds child.ids l :=
        fun i hi => hunvisited i (List.mem_append_left _ hi)
      have htheirs : Unvisited pageIds (idsOf entries) l :=
        fun i hi => hunvisited i (List.mem_append_right _ hi)
      obtain ⟨child', l₁, hrun, hcopied, hvisits⟩ := hload l q hq hmine
      obtain ⟨entries', l₂, hrun', hcopied', hvisits'⟩ := ih hrest hplaced hloads hnodup' l₁
        (htheirs.later hvisits hknown fun i hi hi' => hdisjoint hi hi')
      have hpage : pageOf pageIds child.identity = q := by rw [pageOf, hq, Option.getD_some]
      have hnode : ¬ (¬ isNodePageId disk q ∨ q ∈ l.visited) := by
        rintro (hnot | hmem)
        · exact hnot (hknown.range hq)
        · exact hmine _ (identity_mem_ids child) q hq hmem
      have hempty : child'.isEmpty = false := (hchild.refreshed.of_eq hcopied.same).isEmpty
      have hmbr : child.mbr = child'.mbr := by
        rw [← mbr_of_eq hcopied.same, mbr_refreshed]
      refine ⟨(child'.mbr, child') :: entries', l₂, ?_, ?_, ?_⟩
      · rw [List.map_cons, hpage, loadChildren, if_neg hnode, hrun, ok_bind]
        dsimp only
        rw [hempty, if_neg Bool.false_ne_true, if_neg (not_not.mpr hmbr), hrun', ok_bind]
      · rw [refreshedOf, hmbr]
        exact .cons hcopied hcopied'
      · intro q' hq'
        rcases hvisits' q' hq' with hq' | ⟨i, hi, hlookup⟩
        · rcases hvisits q' hq' with hq' | ⟨i, hi, hlookup⟩
          · exact .inl hq'
          · exact .inr ⟨i, List.mem_append_left _ hi, hlookup⟩
        · exact .inr ⟨i, List.mem_append_right _ hi, hlookup⟩

/-- A node that stands in its pages is loaded as a copy, with the boxes of its children as they
are now. -/
theorem load_node_spec {depth fuel : Nat} {node : RTreeNode K} (h : Valid order depth node)
    (hknown : Known pageIds disk) (hstored : Stored d order disk pageIds node)
    (hnodup : node.ids.Nodup) (hfuel : depth < fuel) :
    Loads d disk order pageIds fuel node := by
  induction h generalizing fuel with
  | @leaf id entries box hne hfits hbounds =>
      intro l p hp hunvisited
      obtain ⟨fuel, rfl⟩ := Nat.exists_eq_succ_of_ne_zero (Nat.ne_zero_of_lt hfuel)
      obtain ⟨p', bytes, hp', hread, hdecode⟩ := hstored (.leaf id entries (some box))
        (by rw [nodes]; exact List.mem_cons_self)
      obtain rfl := Option.some.inj (hp.symm.trans hp')
      have hmbr := (Valid.leaf hne hfits hbounds :
        Valid order 0 (.leaf id entries (some box))).compute_leaf
      refine ⟨.leaf l.next entries (some box),
        ({ l with visited := p :: l.visited } : Loading).made p, ?_, ?_, ?_⟩
      · have hmax : (DecodedRTreePage.leaf order entries).maxEntries = order := rfl
        rw [loadNode, hread, ok_bind, hdecode, ok_bind, pageFor, if_neg (not_not.mpr hmax)]
        dsimp only
        rw [hmbr, ok_bind]
      · rw [RTreeNode.refreshed]
        exact .leaf
      · intro q hq
        rcases List.mem_cons.mp hq with rfl | hq
        · exact .inr ⟨id, by rw [ids_leaf]; exact List.mem_cons_self, hp⟩
        · exact .inl hq
  | @internal depth id entries box hne hfits hbounds hchildren ih =>
      intro l p hp hunvisited
      obtain ⟨fuel, rfl⟩ := Nat.exists_eq_succ_of_ne_zero (Nat.ne_zero_of_lt hfuel)
      obtain ⟨p', bytes, hp', hread, hdecode⟩ := hstored (.internal id entries (some box))
        (by rw [nodes]; exact List.mem_cons_self)
      obtain rfl := Option.some.inj (hp.symm.trans hp')
      rw [ids_internal, List.nodup_cons] at hnodup
      have hbelow : ∀ e ∈ entries, Stored d order disk pageIds e.2 := by
        intro e he n hn
        refine hstored n ?_
        rw [nodes]
        exact List.mem_cons_of_mem _ (mem_nodes_of.mpr ⟨e, he, hn⟩)
      have hplaced : ∀ e ∈ entries, ∃ q, pageIds.lookup e.2.identity = some q := by
        intro e he
        have hself : e.2 ∈ e.2.nodes := by
          cases e.2 <;> rw [nodes] <;> exact List.mem_cons_self
        obtain ⟨q, _, hq, -⟩ := hbelow e he e.2 hself
        exact ⟨q, hq⟩
      have hloads : ∀ e ∈ entries, Loads d disk order pageIds fuel e.2 := by
        intro e he
        refine ih e he (hbelow e he) ?_ (by omega)
        rw [ids_of_eq] at hnodup
        exact (List.nodup_flatMap.mp hnodup.2).1 e he
      have hunvisited' : Unvisited pageIds (idsOf entries)
          { l with visited := p :: l.visited } := by
        intro i hi q hq hmem
        rcases List.mem_cons.mp hmem with rfl | hmem
        · have hsame : i = id := hknown.injective hq hp
          exact hnodup.1 (hsame ▸ hi)
        · refine hunvisited i ?_ q hq hmem
          rw [ids_internal]
          exact List.mem_cons_of_mem _ hi
      obtain ⟨entries', l', hrun, hcopied, hvisits⟩ := load_children_spec hknown hchildren hplaced
        hloads hnodup.2 _ hunvisited'
      have hmbr : computeMbr childMbr entries' = .ok (some box) := by
        rw [← compute_mbr_congr (map_child_mbr_of_eq hcopied.same),
          compute_mbr_congr (map_child_mbr_refreshed_of entries)]
        exact (Valid.internal hne hfits hbounds hchildren :
          Valid order (depth + 1) (.internal id entries (some box))).compute_internal
      refine ⟨.internal l'.next entries' (some box), l'.made p, ?_, ?_, ?_⟩
      · have hmax : (DecodedRTreePage.internal order (entries.map fun e =>
            (e.2.mbr, pageOf pageIds e.2.identity))).maxEntries = order := rfl
        rw [loadNode, hread, ok_bind, hdecode, ok_bind, pageFor, if_neg (not_not.mpr hmax)]
        dsimp only
        rw [hrun, ok_bind]
        dsimp only
        rw [hmbr, ok_bind]
      · rw [RTreeNode.refreshed]
        exact .internal hcopied
      · intro q hq
        rcases hvisits q hq with hq | ⟨i, hi, hlookup⟩
        · rcases List.mem_cons.mp hq with rfl | hq
          · exact .inr ⟨id, by rw [ids_internal]; exact List.mem_cons_self, hp⟩
          · exact .inl hq
        · refine .inr ⟨i, ?_, hlookup⟩
          rw [ids_internal]
          exact List.mem_cons_of_mem _ hi

omit [LinearOrder K] in
/-- The nodes below a node are at most as many as the pages of the file. -/
theorem length_ids_le {node : RTreeNode K} (hknown : Known pageIds disk)
    (hstored : Stored d order disk pageIds node) (hnodup : node.ids.Nodup) :
    node.ids.length ≤ disk.pageCount := by
  have hpage : ∀ i ∈ node.ids, pageIds.lookup i = some (pageOf pageIds i) := by
    intro i hi
    obtain ⟨n, hn, rfl⟩ := exists_node_of_mem_ids hi
    obtain ⟨p, _, hp, -⟩ := hstored n hn
    rw [pageOf, hp, Option.getD_some]
  have hdistinct : (node.ids.map (pageOf pageIds)).Nodup := by
    refine hnodup.map_on fun i hi j hj heq => ?_
    have hi' := hpage i hi
    rw [heq] at hi'
    exact hknown.injective hi' (hpage j hj)
  have hvalid : ∀ p ∈ node.ids.map (pageOf pageIds), disk.validPageId p := by
    refine List.forall_mem_map.mpr fun i hi => ?_
    obtain ⟨hlo, hhi⟩ := hknown.range (hpage i hi)
    exact ⟨hlo.le, hhi⟩
  have hle := length_le_page_count hdistinct hvalid
  rwa [List.length_map] at hle

end LoadNode

end RTreePageStore
end SoupDB
