import SoupDB.Algorithms.Spatial.Knn
import SoupDB.Indexes.RTreePageStore

/-!
# SoupDB: persistence of R-trees

A session changes a tree by insertions and removals, and saves it again and again in one store.
`Persisted` is what a save leaves: page zero names the page of the root, and every node stands in
the page of its object.  Whatever is inserted and removed afterwards, the tree that was saved is
loaded, with the same entries and the same answers.

The orders that need more than two bytes are the exception: the constructor and the page store
accept them, and nothing can be written.

Main fact: `persistence_exact`.
-/

namespace SoupDB

open RTreeField DiskManager

/-! ## The coordinates of a tree -/

namespace RTree

open RTreeNode

section Drawn

variable {K : Type} [Field K] [LinearOrder K] {P : K → Prop} {order : Nat} {t t' : RTree K}

omit [Field K] [LinearOrder K] in
/-- The coordinates of the tree are of this kind, and no box is missing. -/
def Drawn (P : K → Prop) (t : RTree K) : Prop :=
  ∀ root, t.root = some root → RTreeNode.Drawn P root

omit [Field K] [LinearOrder K] in
def Call.Of (P : K → Prop) : Call K → Prop
  | .insert point _ => point.Of P
  | _ => True

theorem Drawn.insert (h : Sound order t) (horder : 2 ≤ order) (hdrawn : t.Drawn P)
    {point : Point K} (hpoint : point.Of P) {rid : RID} (hinsert : t.insert point rid = .ok t') :
    t'.Drawn P := by
  obtain ⟨o, root, next⟩ := t
  obtain rfl : o = order := h.order_eq
  cases root with
  | none =>
      cases hinsert
      rintro _ ⟨⟩
      refine drawn_leaf.mpr fun e he => ?_
      rw [List.mem_singleton.mp he]
      exact hpoint
  | some root =>
      obtain ⟨depth, hvalid⟩ := h.valid root rfl
      rw [RTree.insert] at hinsert
      obtain ⟨⟨root', promoted, next'⟩, hinto, hinsert⟩ := bind_eq_ok.mp hinsert
      have hgrown := insert_into_grown (by omega) hvalid hinto
      have hparts := RTreeNode.Drawn.insertInto (by omega) hvalid (hdrawn root rfl) hpoint hinto
      cases promoted with
      | none =>
          cases hinsert
          rintro _ ⟨⟩
          exact hparts root' (by simp)
      | some promoted =>
          obtain ⟨mbr, -, hinsert⟩ := bind_eq_ok.mp hinsert
          cases hinsert
          rintro _ ⟨⟩
          have hpart : ∀ part ∈ [root', promoted], (∃ box, part.mbr = some box ∧ box.Of P) ∧
              RTreeNode.Drawn P part := by
            intro part hpart
            obtain ⟨box, hbox⟩ := (hgrown.valid part hpart).mbr
            have hdrawn := hparts part hpart
            exact ⟨⟨box, hbox, (hgrown.valid part hpart).of_mbr hdrawn.points box hbox⟩, hdrawn⟩
          exact drawn_internal.mpr
            (List.forall_mem_map.mpr hpart : ∀ e ∈ [root', promoted].map fun n => (n.mbr, n), _)

omit [Field K] in
theorem Drawn.remove (hdrawn : t.Drawn P) {point : Point K} {rid : Option RID} {removed : Nat}
    (hremove : t.remove point rid = .ok (removed, t')) : t'.Drawn P := by
  obtain ⟨o, root, next⟩ := t
  cases root with
  | none =>
      cases hremove
      exact hdrawn
  | some root =>
      rw [RTree.remove] at hremove
      obtain ⟨⟨count, root'⟩, hroot, hremove⟩ := bind_eq_ok.mp hremove
      cases hremove
      intro root₁ hroot₁
      dsimp only at hroot₁
      split at hroot₁
      · cases hroot₁
      · obtain rfl := Option.some.inj hroot₁
        exact RTreeNode.Drawn.remove (hdrawn root rfl) hroot

/-- Every call keeps the tree sound, and its coordinates of their kind. -/
theorem Drawn.step (h : Sound order t) (horder : 2 ≤ order) (hdrawn : t.Drawn P) {c : Call K}
    (hc : c.Of P) : (RTree.step t c).Drawn P := by
  obtain ⟨a, t', hperform, -⟩ := perform_spec h horder c
  have hstep : RTree.step t c = t' := by rw [RTree.step, hperform]
  rw [hstep]
  cases c with
  | insert point rid =>
      obtain ⟨t₁, hinsert, hperform⟩ := bind_eq_ok.mp hperform
      cases hperform
      exact Drawn.insert h horder hdrawn hc hinsert
  | search point =>
      obtain ⟨found, -, hperform⟩ := bind_eq_ok.mp hperform
      cases hperform
      exact hdrawn
  | rangeSearch lo hi =>
      obtain ⟨found, -, hperform⟩ := bind_eq_ok.mp hperform
      cases hperform
      exact hdrawn
  | remove point rid =>
      obtain ⟨⟨removed, t₁⟩, hremove, hperform⟩ := bind_eq_ok.mp hperform
      cases hperform
      exact Drawn.remove hdrawn hremove

omit [Field K] [LinearOrder K] in
theorem drawn_empty (order : Nat) : (empty order : RTree K).Drawn P := by
  rintro _ ⟨⟩

theorem reached (horder : 2 ≤ order) {calls : List (Call K)} (hcalls : ∀ c ∈ calls, c.Of P) :
    Sound order (exec RTree.step (empty order) calls) ∧
      (exec RTree.step (empty order) calls).Drawn P := by
  have hkeep : ∀ (t : RTree K) (c : Call K), (Sound order t ∧ t.Drawn P) → c.Of P →
      Sound order (RTree.step t c) ∧ (RTree.step t c).Drawn P :=
    fun t c ht hc => ⟨(step_spec ht.1 horder c).1, Drawn.step ht.1 horder ht.2 hc⟩
  exact exec_of_steps hkeep ⟨sound_empty order, drawn_empty order⟩ (steps_of_forall _ hcalls)

end Drawn

end RTree

/-! ## One save and one load -/

namespace RTreePageStore

open Effect RTreeNode

variable {K : Type}

section Metadata

theorem decode_encode_metadata {pageSize order : Nat} {rootPageId : Int}
    (hsize : 16 ≤ pageSize) (horder : order < 2 ^ 16) (hroot : i64.Fits rootPageId) :
    ∃ bytes, encodeMetadata pageSize ⟨order, rootPageId⟩ = .ok bytes ∧
      decodeMetadata bytes = .ok ⟨order, rootPageId⟩ := by
  obtain ⟨data, hpack⟩ : METADATA.Fits (MAGIC, VERSION, 0, order, rootPageId) := by
    rw [METADATA, Struct.fits_pair, Struct.fits_pair, Struct.fits_pair, Struct.fits_pair, fits_u16,
      Struct.fits_raw, Struct.fits_unsigned, Struct.fits_unsigned]
    exact ⟨rfl, by decide, by decide, horder, hroot⟩
  have hbuffer : 0 + METADATA.size ≤ (List.replicate pageSize (0 : UInt8)).length := by
    rw [List.length_replicate]
    exact hsize
  have hrun := Struct.pack_into_of_fits hbuffer hpack
  have hread := Struct.unpack_pack_into hbuffer hpack
  refine ⟨splice (List.replicate pageSize 0) 0 data, ?_, ?_⟩
  · rw [encodeMetadata, hrun]
  · have hlength : ¬ (splice (List.replicate pageSize (0 : UInt8)) 0 data).length <
        METADATA.size := by
      have hdata : data.length = METADATA.size := (Struct.packed _ hpack).2.1
      rw [length_splice (by rw [hdata]; exact hbuffer)]
      omega
    rw [decodeMetadata, if_neg hlength, hread, ok_bind]
    dsimp only
    rw [if_neg (not_not.mpr rfl), if_neg (not_not.mpr rfl), if_neg (not_not.mpr rfl)]

end Metadata

section Tree

variable [LinearOrder K] {d : Struct K} {pageSize : Nat} {t : RTree K} {s : RTreePageStore}

omit [LinearOrder K] in
/-- How many nodes a tree has. -/
def size (t : RTree K) : Nat := (t.root.map fun root => root.ids.length).getD 0

omit [LinearOrder K] in
def RootAt (d : Struct K) (s : RTreePageStore) (t : RTree K) (rootPageId : Int) : Prop :=
  match t.root with
  | none => rootPageId = EMPTY_ROOT_PAGE_ID
  | some root => s.pageIds.lookup root.identity = some rootPageId ∧
      Stored d t.order s.diskManager s.pageIds root

omit [LinearOrder K] in
/-- Page zero names the page of the root, and all nodes stand in pages of their own. -/
structure Persisted (d : Struct K) (s : RTreePageStore) (t : RTree K) : Prop where
  known : Known s.pageIds s.diskManager
  metadata : ∃ bytes rootPageId, s.diskManager.readPage METADATA_PAGE_ID = .ok bytes ∧
    decodeMetadata bytes = .ok ⟨t.order, rootPageId⟩ ∧ RootAt d s t rootPageId

/-- The RIDs fit their fields, and there is room for a page for every node. -/
structure Fitting (d : Struct K) (s : RTreePageStore) (t : RTree K) : Prop where
  rids : ∀ e ∈ t.contents, rid.Fits e.2
  room : (s.diskManager.pageCount + size t + 1) * s.diskManager.pageSize < 2 ^ 63

theorem run_on_disk {α : Type} {x : Effect PyError DiskManager α} {a : α} {disk : DiskManager}
    (h : x s.diskManager = (.ok a, disk)) :
    onDisk x s = (.ok a, { s with diskManager := disk }) := by
  rw [onDisk, focus, h]

variable {order : Nat}

theorem check_order_of_admitted (h : Admitted pageSize order) :
    checkOrder pageSize order = .ok () :=
  if_neg (not_not.mpr ⟨h.two_le, h.le_limit⟩)

/-- The file has at least its first page afterwards. -/
theorem make_metadata_page_spec (h : Known s.pageIds s.diskManager) {count : Nat}
    (hroom : (s.diskManager.pageCount + count + 1) * s.diskManager.pageSize < 2 ^ 63) :
    ∃ disk, makeMetadataPage s = (.ok (), { s with diskManager := disk }) ∧
      Known s.pageIds disk ∧ 0 < disk.pageCount ∧
      disk.pageSize = s.diskManager.pageSize ∧
      (disk.pageCount + count) * disk.pageSize < 2 ^ 63 := by
  rw [makeMetadataPage, run_bind_ok _ (run_get s)]
  by_cases hzero : s.diskManager.pageCount = 0
  · have hlimit : (s.diskManager.pageCount + 1) * s.diskManager.pageSize < 2 ^ 63 :=
      (Nat.mul_le_mul_right _ (by omega)).trans_lt hroom
    have hallocate : allocate s.diskManager =
        (.ok s.diskManager.allocatePage.1, s.diskManager.allocatePage.2) := if_pos hlimit
    have hfirst : s.diskManager.allocatePage.1 = METADATA_PAGE_ID := by
      rw [allocatePage, hzero]
      rfl
    have hcount : s.diskManager.allocatePage.2.pageCount = 1 := by
      rw [page_count_allocate_page, hzero]
    refine ⟨s.diskManager.allocatePage.2, ?_, ?_, ?_, rfl, ?_⟩
    · rw [if_pos hzero, run_bind_ok _ (run_on_disk hallocate), if_neg (not_not.mpr hfirst)]
      rfl
    · refine h.mono ?_
      omega
    · omega
    · rw [hcount, page_size_allocate_page]
      exact (Nat.mul_le_mul_right _ (by omega)).trans_lt hroom
  · refine ⟨s.diskManager, ?_, h, Nat.pos_of_ne_zero hzero, rfl,
      (Nat.mul_le_mul_right _ (by omega)).trans_lt hroom⟩
    rw [if_neg hzero]
    rfl

/-- The pages of the objects of one tree are pages of the file, each of one object. -/
theorem Placed.known {known pageIds : Dict Nat Int} {disk disk' : DiskManager} {ids : List Nat}
    (h : Placed known ∅ pageIds disk disk' ids) : Known pageIds disk' := by
  have hmem : ∀ {i : Nat} {q : Int}, pageIds.lookup i = some q → i ∈ ids := by
    intro i q hq
    by_contra hi
    rw [h.others i hi, AList.lookup_empty] at hq
    cases hq
  refine ⟨fun {i q} hq => ?_, fun {i j q} hi hj => ?_⟩
  · obtain ⟨q', hq', hlo, hhi, -⟩ := h.pages i (hmem hq)
    obtain rfl := Option.some.inj (hq.symm.trans hq')
    exact ⟨hlo, hhi⟩
  · exact h.distinct i (hmem hi) j (hmem hj) (hi.trans hj.symm)

theorem save_tree_spec (hd : d.size = 8) (hadmitted : Admitted pageSize order)
    (hsound : RTree.Sound order t) (hdrawn : t.Drawn d.Fits) (hfits : Fitting d s t)
    (hknown : Known s.pageIds s.diskManager) (hsize : s.diskManager.pageSize = pageSize) :
    ∃ s', saveTree d t s = (.ok (), s') ∧ Persisted d s' t ∧
      s'.diskManager.pageSize = pageSize := by
  obtain ⟨o, root, next⟩ := t
  obtain rfl : o = order := hsound.order_eq
  obtain ⟨disk, hmake, hknown', hpos, hsize', hroom⟩ := make_metadata_page_spec hknown hfits.room
  rw [hsize] at hsize'
  have hmargin : 16 ≤ pageSize := by
    have htwo := hadmitted.two_le.trans (hadmitted.le_limit.trans (min_le_right _ _))
    have hle := (Nat.le_div_iff_mul_le (by decide)).mp htwo
    rw [RTreePage.INTERNAL_ENTRY_SIZE] at hle
    omega
  have hbegin : ∀ {disk' : DiskManager} {rootPageId : Int} {pageIds : Dict Nat Int},
      saveRoot d s.pageIds o root disk = (.ok (rootPageId, pageIds), disk') →
      disk'.pageSize = pageSize → 0 < disk'.pageCount → i64.Fits rootPageId →
      ∃ bytes disk₂, saveTree d ⟨o, root, next⟩ s =
          (.ok (), { diskManager := disk₂, pageIds := pageIds }) ∧
        disk'.writePage METADATA_PAGE_ID bytes = .ok disk₂ ∧
        decodeMetadata bytes = .ok ⟨o, rootPageId⟩ := by
    intro disk' rootPageId pageIds hroot hpageSize hcount hfit
    obtain ⟨bytes, hencode, hdecode⟩ := decode_encode_metadata hmargin hadmitted.lt hfit
    have hvalid : disk'.validPageId METADATA_PAGE_ID :=
      ⟨le_refl _, (by omega : (0 : Int) < disk'.pageCount)⟩
    have hwrite := write_page_of_valid hvalid bytes
    refine ⟨bytes, _, ?_, hwrite, hdecode⟩
    have hupdate : update (fun disk : DiskManager => disk.writePage METADATA_PAGE_ID bytes) disk' =
        (.ok (), { disk' with pages := disk'.pages.set METADATA_PAGE_ID.toNat bytes }) := by
      rw [update, hwrite]
    have hmodify : modify (fun s : RTreePageStore => { s with pageIds := pageIds })
        { s with diskManager := disk' } =
        ((.ok (), { diskManager := disk', pageIds := pageIds }) :
          Except PyError Unit × RTreePageStore) := rfl
    rw [saveTree, save, run_bind_ok _ (run_get s), hsize, check_order_of_admitted hadmitted,
      run_bind_ok _ (run_lift _ s), run_bind_ok _ hmake, run_bind_ok _ (run_on_disk hroot)]
    dsimp only
    rw [run_bind_ok _ hmodify, hencode, run_bind_ok _ (run_lift _ _)]
    exact run_on_disk hupdate
  cases root with
  | none =>
      obtain ⟨bytes, disk₂, hrun, hwrite, hdecode⟩ :=
        hbegin rfl hsize' hpos (fits_i64.mpr (by decide))
      refine ⟨_, hrun, ⟨known_empty disk₂, bytes, EMPTY_ROOT_PAGE_ID, ?_, hdecode, rfl⟩,
        (page_size_write_page hwrite).trans hsize'⟩
      rw [read_page_write_page hwrite, if_pos rfl]
  | some root =>
      obtain ⟨depth, hvalid⟩ := hsound.valid root rfl
      have hstorable : Storable d o pageSize root := by
        refine ⟨hdrawn root rfl, fun e he => hfits.rids e ?_, hsound.distinct root rfl⟩
        exact he
      rw [hsize'] at hroom
      obtain ⟨p, pageIds, disk', hsave, hplaced, hp, hstored⟩ :=
        save_node_spec hd hadmitted hvalid hstorable ∅ disk hknown' hpos hsize' hroom
      have hknown₂ := hplaced.known
      obtain ⟨hlo, hhi⟩ := hknown₂.range hp
      have hcount : disk'.pageCount ≤ disk.pageCount + root.ids.length := hplaced.count_ge
      have hbound : disk'.pageCount < 2 ^ 63 :=
        lt_of_le_of_lt ((Nat.le_mul_of_pos_right _ hadmitted.page_pos).trans
          (Nat.mul_le_mul_right _ hcount)) hroom
      obtain ⟨bytes, disk₂, hrun, hwrite, hdecode⟩ := hbegin hsave
        (hplaced.pageSize.trans hsize') (hpos.trans_le hplaced.count_le)
        (fits_i64.mpr ⟨by omega, by omega⟩)
      have hcount₂ := page_count_write_page hwrite
      refine ⟨_, hrun, ⟨hknown₂.mono hcount₂.ge, bytes, p, ?_, hdecode, hp, ?_⟩,
        (page_size_write_page hwrite).trans (hplaced.pageSize.trans hsize')⟩
      · rw [read_page_write_page hwrite, if_pos rfl]
      · refine hstored.write hwrite fun i _ hzero => ?_
        have hpositive := (hknown₂.range hzero).1
        exact absurd hpositive (by decide)

/-! ### Loading -/

/-- The tree that was loaded: an equal root, with the boxes of the children as they are. -/
structure Restored (t t' : RTree K) : Prop where
  root : RTreeCodec.SameRoot (t.root.map RTreeNode.refreshed) t'.root
  leafNodes : t'.leafNodes = t.leafNodes
  sound : RTree.Sound t.order t'

theorem load_tree_spec (hadmitted : Admitted s.diskManager.pageSize order)
    (hsound : RTree.Sound order t) (h : Persisted d s t) (next : Nat) :
    ∃ t' s', loadTree d next s = (.ok t', s') ∧ Restored t t' := by
  obtain ⟨o, root, fresh⟩ := t
  obtain rfl : o = order := hsound.order_eq
  obtain ⟨bytes, rootPageId, hread, hdecode, hroot⟩ := h.metadata
  have hcount : s.diskManager.pageCount ≠ 0 := by
    have hvalid := validPageId_of_read_page hread
    have hlt := hvalid.2
    intro hzero
    rw [hzero] at hlt
    exact absurd hlt (by decide)
  have hconstruct : (RTree.construct o : Except PyError (RTree K)) = .ok ⟨o, none, 0⟩ := by
    rw [RTree.construct, if_neg (Nat.not_lt.mpr hadmitted.two_le)]
  have hload : ∀ {result : Option (RTreeNode K) × Nat} {s' : RTreePageStore},
      load d next s = (.ok (o, result), s') →
        loadTree d next s = (.ok ⟨o, result.1, result.2⟩, s') := by
    intro result s' hrun
    rw [loadTree, run_bind_ok _ hrun]
    dsimp only
    rw [hconstruct]
    rfl
  cases root with
  | none =>
      have hempty : rootPageId = EMPTY_ROOT_PAGE_ID := hroot
      have hrun : load (K := K) d next s = (.ok (o, none, next), { s with pageIds := ∅ }) := by
        rw [load, run_bind_ok _ (run_get s), if_neg hcount, hread, run_bind_ok _ (run_lift _ s),
          hdecode, run_bind_ok _ (run_lift _ s), check_order_of_admitted hadmitted,
          run_bind_ok _ (run_lift _ s), if_pos hempty]
        rfl
      refine ⟨_, _, hload hrun, trivial, rfl, rfl, ?_, ?_, ?_⟩
      · rintro _ ⟨⟩
      · rintro _ ⟨⟩
      · rintro _ ⟨⟩
  | some root =>
      obtain ⟨depth, hvalid⟩ := hsound.valid root rfl
      obtain ⟨hp, hstored⟩ := hroot
      have hnode : isNodePageId s.diskManager rootPageId := h.known.range hp
      have hne : rootPageId ≠ EMPTY_ROOT_PAGE_ID := by
        rintro rfl
        exact absurd hnode.1 (by decide)
      have hfuel : depth < s.diskManager.pageCount :=
        hvalid.depth_lt_length_ids.trans_le
          (length_ids_le h.known hstored (hsound.distinct root rfl))
      have hunvisited : Unvisited s.pageIds root.ids ⟨[], ∅, next⟩ :=
        fun i _ q _ hmem => absurd hmem List.not_mem_nil
      obtain ⟨root', l, hrun, hcopied, -⟩ := load_node_spec hvalid h.known hstored
        (hsound.distinct root rfl) hfuel ⟨[], ∅, next⟩ rootPageId hp hunvisited
      have hrun' : load d next s =
          (.ok (o, some root', l.next), { s with pageIds := l.pageIds }) := by
        rw [load, run_bind_ok _ (run_get s), if_neg hcount, hread, run_bind_ok _ (run_lift _ s),
          hdecode, run_bind_ok _ (run_lift _ s), check_order_of_admitted hadmitted,
          run_bind_ok _ (run_lift _ s), if_neg hne, if_neg (not_not.mpr hnode), hrun,
          run_bind_ok _ (run_lift _ s)]
        rfl
      have hvalid' := hvalid.refreshed.of_eq hcopied.same
      refine ⟨_, _, hload hrun', hcopied.same, ?_, rfl, ?_, ?_, ?_⟩
      · show root'.leafNodes = root.leafNodes
        rw [leaf_nodes_of_equal hvalid.refreshed hcopied.same, leaf_nodes_refreshed hvalid]
      · rintro _ ⟨⟩
        exact ⟨depth, hvalid'⟩
      · rintro _ ⟨⟩
        exact hcopied.nodup
      · rintro _ ⟨⟩ i hi
        exact (hcopied.mem_ids.mp hi).2

end Tree

end RTreePageStore

/-! ## The same answers -/

section Answers

variable {K D : Type} [Field K] [LinearOrder K] [AddCommGroup D] [LinearOrder D]

/-- Two trees give the same entries and the same answer to every query. -/
structure SameAnswers (D : Type) [AddCommGroup D] [LinearOrder D] (t t' : RTree K) : Prop where
  entries : t'.contents = t.contents
  search : ∀ point, t'.search point = t.search point
  rangeSearch : ∀ lo hi, t'.rangeSearch lo hi = t.rangeSearch lo hi
  box : ∀ box, SoupDB.rangeSearch t'.root box = SoupDB.rangeSearch t.root box
  radius : ∀ metric : SpatialMetric K D, metric.Sound → ∀ center radius,
    radiusSearch t'.root center radius metric = radiusSearch t.root center radius metric
  polygon : ∀ polygon, polygonSearch t'.root polygon = polygonSearch t.root polygon
  knn : ∀ metric : SpatialMetric K D, metric.Sound → ∀ center k,
    knnHits t'.root center k metric = knnHits t.root center k metric

omit [Field K] in
theorem wellFormed_of_sound {order : Nat} {t : RTree K} (h : RTree.Sound order t) :
    ∀ node ∈ t.root, RTreeNode.WellFormed node := by
  intro node hnode
  obtain ⟨depth, hvalid⟩ := h.valid node hnode
  exact hvalid.wellFormed

omit [Field K] [LinearOrder K] in
theorem stored_root (t : RTree K) : RTreeNode.stored t.root = t.contents := by
  obtain ⟨order, root, next⟩ := t
  cases root <;> rfl

theorem sameAnswers_of_leaf_nodes [IsStrictOrderedRing K] [IsOrderedAddMonoid D]
    {order order' : Nat} {t t' : RTree K} (h : RTree.Sound order t) (h' : RTree.Sound order' t')
    (hleaves : t'.leafNodes = t.leafNodes) : SameAnswers D t t' := by
  have hwell := wellFormed_of_sound h
  have hwell' := wellFormed_of_sound h'
  have hcontents : t'.contents = t.contents := by rw [RTree.contents, RTree.contents, hleaves]
  have hstored : RTreeNode.stored t'.root = RTreeNode.stored t.root := by
    rw [stored_root, stored_root, hcontents]
  refine ⟨hcontents, ?_, ?_, ?_, ?_, ?_, ?_⟩
  · intro point
    rw [RTree.search_spec h', RTree.search_spec h, hcontents]
  · intro lo hi
    rw [RTree.range_search_spec h', RTree.range_search_spec h, hcontents]
  · intro box
    rw [range_search_eq hwell', range_search_eq hwell, hstored]
  · intro metric hsound center radius
    rw [radius_search_eq hwell' hsound, radius_search_eq hwell hsound, hstored]
  · intro polygon
    rw [polygon_search_eq hwell', polygon_search_eq hwell, hstored]
  · intro metric hsound center k
    by_cases hk : 1 ≤ k
    · rw [knn_hits_exact hwell' hsound center hk, knn_hits_exact hwell hsound center hk, hstored]
    · unfold knnHits
      rw [if_pos (by omega), if_pos (by omega)]

end Answers

/-! ## Sessions -/

/-- A tree, the store it is saved in, and the tree as it was when it was last saved. -/
structure RTreeSession (K : Type) where
  tree : RTree K
  store : RTreePageStore
  saved : Option (RTree K)

namespace RTreeSession

open Effect RTree

variable {K : Type} [Field K] [LinearOrder K]

inductive Request (K : Type)
  | call (c : Call K)
  | save

section Steps

variable (d : Struct K)

omit [Field K] [LinearOrder K] in
/-- An empty tree of this order and a store on this file. -/
def start (order : Nat) (disk : DiskManager) : RTreeSession K :=
  ⟨empty order, ⟨disk, ∅⟩, none⟩

/-- A save that raises is not the last one. -/
def step (s : RTreeSession K) : Request K → RTreeSession K
  | .call c => { s with tree := RTree.step s.tree c }
  | .save =>
      match RTreePageStore.saveTree d s.tree s.store with
      | (.ok (), store) => { s with store := store, saved := some s.tree }
      | (.error _, store) => { s with store := store }

omit [Field K] [LinearOrder K] in
/-- The coordinates of a point that is inserted fit their fields.  A tree that is saved fits its
pages. -/
def Fits (s : RTreeSession K) : Request K → Prop
  | .call c => c.Of d.Fits
  | .save => RTreePageStore.Fitting d s.store s.tree

omit [Field K] [LinearOrder K] in
/-- Every node of the tree stands in a page of its own. -/
structure OwnPages (store : RTreePageStore) (t : RTree K) : Prop where
  holds : ∀ root, t.root = some root → ∀ node ∈ root.nodes,
    RTreePageStore.Holds d t.order store.diskManager store.pageIds node
  distinct : ∀ root, t.root = some root → ∀ i ∈ root.ids, ∀ j ∈ root.ids,
    store.pageIds.lookup i = store.pageIds.lookup j → i = j
  not_metadata : ∀ i pageId, store.pageIds.lookup i = some pageId →
    pageId ≠ RTreePageStore.METADATA_PAGE_ID

/-- The tree that was saved last is loaded, and answers as it did. -/
def Durable (D : Type) [AddCommGroup D] [LinearOrder D] (s : RTreeSession K) : Prop :=
  ∀ t, s.saved = some t → OwnPages d s.store t ∧ ∀ next, ∃ t' store,
    RTreePageStore.loadTree d next s.store = (.ok t', store) ∧
      RTreePageStore.Restored t t' ∧ SameAnswers D t t'

omit [Field K] in
/-- What a session keeps. -/
structure Kept (order pageSize : Nat) (s : RTreeSession K) : Prop where
  sound : Sound order s.tree
  drawn : s.tree.Drawn d.Fits
  pageSize : s.store.diskManager.pageSize = pageSize
  known : RTreePageStore.Known s.store.pageIds s.store.diskManager
  saved : ∀ t, s.saved = some t → Sound order t ∧ RTreePageStore.Persisted d s.store t

end Steps

section Runs

variable {d : Struct K} {order pageSize : Nat} {s : RTreeSession K}

omit [Field K] in
theorem kept_start {disk : DiskManager} (hsize : disk.pageSize = pageSize) :
    Kept d order pageSize (start order disk : RTreeSession K) := by
  refine ⟨sound_empty order, drawn_empty order, hsize, RTreePageStore.known_empty disk, ?_⟩
  rintro _ ⟨⟩

theorem Kept.step (hd : d.size = 8) (hadmitted : RTreePageStore.Admitted pageSize order)
    (h : Kept d order pageSize s) {r : Request K} (hfits : Fits d s r) :
    (r = .save → ∃ store, RTreePageStore.saveTree d s.tree s.store = (.ok (), store)) ∧
      Kept d order pageSize (s.step d r) := by
  cases r with
  | call c =>
      refine ⟨fun hr => (by cases hr), ?_⟩
      exact ⟨(step_spec h.sound hadmitted.two_le c).1,
        Drawn.step h.sound hadmitted.two_le h.drawn hfits, h.pageSize, h.known, h.saved⟩
  | save =>
      obtain ⟨store, hrun, hpersisted, hsize⟩ := RTreePageStore.save_tree_spec hd hadmitted
        h.sound h.drawn hfits h.known h.pageSize
      refine ⟨fun _ => ⟨store, hrun⟩, ?_⟩
      have hstep : s.step d .save = { s with store := store, saved := some s.tree } := by
        rw [RTreeSession.step, hrun]
      rw [hstep]
      refine ⟨h.sound, h.drawn, hsize, hpersisted.known, ?_⟩
      rintro _ ⟨⟩
      exact ⟨h.sound, hpersisted⟩

omit [LinearOrder K] [Field K] in
theorem ownPages_of_persisted {store : RTreePageStore} {t : RTree K}
    (h : RTreePageStore.Persisted d store t) : OwnPages d store t := by
  obtain ⟨bytes, rootPageId, -, -, hroot⟩ := h.metadata
  obtain ⟨o, root, next⟩ := t
  refine ⟨?_, ?_, fun i pageId hp => ?_⟩
  · rintro root' ⟨⟩
    exact hroot.2
  · rintro root' ⟨⟩ i hi j hj heq
    obtain ⟨n, hn, rfl⟩ := RTreeNode.exists_node_of_mem_ids hi
    obtain ⟨p, _, hp, -⟩ := hroot.2 n hn
    exact h.known.injective hp (heq ▸ hp)
  · exact (h.known.range hp).1.ne'

/-- What a session keeps makes the saved tree durable. -/
theorem Kept.durable {D : Type} [AddCommGroup D] [LinearOrder D] [IsStrictOrderedRing K]
    [IsOrderedAddMonoid D] (hadmitted : RTreePageStore.Admitted pageSize order)
    (h : Kept d order pageSize s) : Durable d D s := by
  intro t ht
  obtain ⟨hsound, hpersisted⟩ := h.saved t ht
  refine ⟨ownPages_of_persisted hpersisted, fun next => ?_⟩
  have hadmitted' : RTreePageStore.Admitted s.store.diskManager.pageSize order := by
    rwa [h.pageSize]
  obtain ⟨t', store, hload, hrestored⟩ :=
    RTreePageStore.load_tree_spec hadmitted' hsound hpersisted next
  exact ⟨t', store, hload, hrestored,
    sameAnswers_of_leaf_nodes hsound hrestored.sound hrestored.leafNodes⟩

end Runs

/-! ## The claim about both formats -/

section Exact

variable (d : Struct K)

/-- Decoding what was encoded gives the order and an equal root. -/
def RoundTrips (t : RTree K) : Prop :=
  ∃ bytes root' next, RTreeCodec.encodeTree d t.order t.root = .ok bytes ∧
    RTreeCodec.decodeTree d bytes = .ok (t.order, root', next) ∧
      RTreeCodec.SameRoot t.root root'

variable {d}

omit [Field K] in
/-- A tree is encoded exactly when its order and its RIDs fit their fields. -/
theorem roundTrips_iff {order : Nat} {t : RTree K} (hsound : Sound order t)
    (hdrawn : t.Drawn d.Fits) :
    RoundTrips d t ↔ order < 2 ^ 16 ∧ ∀ e ∈ t.contents, rid.Fits e.2 := by
  obtain ⟨o, root, next⟩ := t
  obtain rfl : o = order := hsound.order_eq
  have hreturns : (∃ bytes, RTreeCodec.encodeTree d o root = .ok bytes) ↔
      o < 2 ^ 16 ∧ ∀ e ∈ (⟨o, root, next⟩ : RTree K).contents, rid.Fits e.2 := by
    rw [← fits_u16]
    cases root with
    | none =>
        refine ⟨fun ⟨bytes, h⟩ => ?_, fun ⟨⟨head, hhead⟩, _⟩ => ?_⟩
        · obtain ⟨head, hhead, -⟩ := bind_eq_ok.mp h
          exact ⟨⟨head, hhead⟩, fun e he => absurd he List.not_mem_nil⟩
        · exact ⟨_, bind_eq_ok.mpr ⟨head, hhead, rfl⟩⟩
    | some root =>
        obtain ⟨depth, hvalid⟩ := hsound.valid root rfl
        have hroot : o < 2 ^ 32 → ((∃ body, RTreeCodec.encodeNode d root = .ok body) ↔
            ∀ e ∈ root.contents, rid.Fits e.2) :=
          fun hmax => RTreeCodec.encode_node_returns_iff hvalid hmax (hdrawn root rfl)
        refine ⟨fun ⟨bytes, h⟩ => ?_, fun ⟨⟨head, hhead⟩, hrids⟩ => ?_⟩
        · obtain ⟨head, hhead, h⟩ := bind_eq_ok.mp h
          obtain ⟨body, hbody, -⟩ := bind_eq_ok.mp h
          have horder := fits_u16.mp ⟨head, hhead⟩
          exact ⟨⟨head, hhead⟩, (hroot (by omega)).mp ⟨body, hbody⟩⟩
        · have horder := fits_u16.mp ⟨head, hhead⟩
          obtain ⟨body, hbody⟩ := (hroot (by omega)).mpr hrids
          exact ⟨_, bind_eq_ok.mpr ⟨head, hhead, bind_eq_ok.mpr ⟨body, hbody, rfl⟩⟩⟩
  rw [← hreturns]
  constructor
  · rintro ⟨bytes, root', next', hencode, -⟩
    exact ⟨bytes, hencode⟩
  · rintro ⟨bytes, hencode⟩
    obtain ⟨root', next', hdecode, hsame⟩ :=
      RTreeCodec.decode_encode_tree hsound.valid hencode
    exact ⟨bytes, root', next', hencode, hdecode, hsame⟩

/-- A tree that insertions and removals reach survives its binary format exactly when its order
fits two bytes and its RIDs fit their fields.  In every session over a file whose pages hold the
order, with an order of two bytes and trees that fit when they are saved, every save returns and
the tree saved last is loaded after every step, with the same answers, each node from a page of
its own. -/
theorem persistence_exact {D : Type} [AddCommGroup D] [LinearOrder D] [IsStrictOrderedRing K]
    [IsOrderedAddMonoid D] (hd : d.size = 8) (order : Nat) (horder : 2 ≤ order) :
    (∀ calls : List (Call K), (∀ c ∈ calls, c.Of d.Fits) →
      (RoundTrips d (exec RTree.step (empty order) calls) ↔ order < 2 ^ 16 ∧
        ∀ e ∈ (exec RTree.step (empty order) calls).contents, rid.Fits e.2)) ∧
    (order < 2 ^ 16 → ∀ disk : DiskManager,
      order ≤ RTreePageStore.orderLimit disk.pageSize →
      ∀ requests : List (Request K), Steps (Fits d) (step d) (start order disk) requests →
        Always (Durable d D) (step d) (start order disk) requests ∧
        Steps (fun s r => r = .save →
          ∃ store, RTreePageStore.saveTree d s.tree s.store = (.ok (), store)) (step d)
          (start order disk) requests) := by
  constructor
  · intro calls hcalls
    obtain ⟨hsound, hdrawn⟩ := reached horder hcalls
    exact roundTrips_iff hsound hdrawn
  · intro hlt disk hlimit requests hfits
    have hadmitted : RTreePageStore.Admitted disk.pageSize order := ⟨horder, hlimit, hlt⟩
    have hstart : Kept d order disk.pageSize (start order disk : RTreeSession K) :=
      kept_start rfl
    constructor
    · have hkept := always_of_steps
        (fun s r (hs : Kept d order disk.pageSize s) hr => (hs.step hd hadmitted hr).2)
        hstart hfits
      exact hkept.mono fun s hs => hs.durable hadmitted
    · exact steps_of_steps (fun s r (hs : Kept d order disk.pageSize s) hr =>
        hs.step hd hadmitted hr) hstart hfits

end Exact

/-! ### A small session, and an order that is too large -/

/-- The numbers 0, 3 and 4 as floats of eight bytes. -/
def fewDoubles : Struct ℚ where
  size := 8
  counts _ := true
  pack q :=
    if q = 0 then .ok [0, 0, 0, 0, 0, 0, 0, 0]
    else if q = 3 then .ok [64, 8, 0, 0, 0, 0, 0, 0]
    else if q = 4 then .ok [64, 16, 0, 0, 0, 0, 0, 0]
    else .error (.StructError "required argument is not a float")
  unpack data :=
    if data = [64, 8, 0, 0, 0, 0, 0, 0] then 3
    else if data = [64, 16, 0, 0, 0, 0, 0, 0] then 4
    else 0
  packed := by
    intro q data h
    split at h
    · next hq =>
        cases h
        exact ⟨rfl, rfl, hq.symm⟩
    · split at h
      · next hq =>
          cases h
          exact ⟨rfl, rfl, hq.symm⟩
      · split at h
        · next hq =>
            cases h
            exact ⟨rfl, rfl, hq.symm⟩
        · cases h

instance {K : Type} (d : Struct K) (c : Call K) : Decidable (c.Of d.Fits) :=
  match c with
  | .insert point _ => inferInstanceAs (Decidable (d.Fits point.x ∧ d.Fits point.y))
  | .search _ => .isTrue trivial
  | .rangeSearch _ _ => .isTrue trivial
  | .remove _ _ => .isTrue trivial

instance {K : Type} (d : Struct K) (s : RTreeSession K) (r : Request K) :
    Decidable (Fits d s r) :=
  match r with
  | .call c => inferInstanceAs (Decidable (c.Of d.Fits))
  | .save =>
      decidable_of_iff ((∀ e ∈ s.tree.contents, rid.Fits e.2) ∧
        (s.store.diskManager.pageCount + RTreePageStore.size s.tree + 1) *
          s.store.diskManager.pageSize < 2 ^ 63)
        ⟨fun h => ⟨h.1, h.2⟩, fun h => ⟨h.rids, h.room⟩⟩

/-- The root is split between two saves, and pruned before the third. -/
def fewSaves : List (Request ℚ) :=
  [.call (.insert origin ⟨0, 0⟩), .save, .call (.insert ⟨3, 4⟩ ⟨0, 1⟩),
    .call (.insert origin ⟨0, 2⟩), .save, .call (.remove origin none), .save,
    .call (.insert origin ⟨0, 3⟩)]

theorem persistence_exact_few_saves :
    (exec (step fewDoubles) (start 2 ⟨96, []⟩) fewSaves).saved.map RTree.contents =
        some [(⟨3, 4⟩, ⟨0, 1⟩)] ∧
      Always (Durable fewDoubles ℚ) (step fewDoubles) (start 2 ⟨96, []⟩) fewSaves ∧
      (RoundTrips fewDoubles (exec RTree.step (empty 2) fewCalls) ↔ 2 < 2 ^ 16 ∧
        ∀ e ∈ (exec RTree.step (empty 2) fewCalls).contents, rid.Fits e.2) :=
  ⟨by decide +kernel,
    ((persistence_exact rfl 2 (le_refl 2)).2 (by decide) ⟨96, []⟩ (by decide) fewSaves
      (by decide +kernel)).1,
    (@persistence_exact ℚ _ _ fewDoubles ℚ _ _ _ _ rfl 2 (le_refl 2)).1 fewCalls
      (by decide +kernel)⟩

/-- The constructor and the page store accept an order of 65536.  Neither format holds it. -/
theorem large_order_not_saved :
    RTree.construct 65536 = .ok (empty 65536 : RTree ℚ) ∧
      65536 ≤ RTreePageStore.orderLimit 2621456 ∧
      ¬ RoundTrips fewDoubles (empty 65536) ∧
      ∃ e, (RTreePageStore.saveTree fewDoubles (empty 65536) ⟨⟨2621456, []⟩, ∅⟩).1 = .error e :=
        by
  refine ⟨by rw [RTree.construct, if_neg (by decide)]; rfl, by decide, fun h => ?_, ?_⟩
  · have hfits := ((roundTrips_iff (sound_empty 65536) (drawn_empty 65536)).mp h).1
    exact absurd hfits (by decide)
  · obtain ⟨e, hpack⟩ : ∃ e, RTreePageStore.METADATA.pack
        (RTreePageStore.MAGIC, RTreePageStore.VERSION, 0, 65536, -1) = .error e :=
      ⟨_, rfl⟩
    have hencode : ∀ pageSize, 16 ≤ pageSize →
        RTreePageStore.encodeMetadata pageSize ⟨65536, -1⟩ = .error e := by
      intro pageSize hroom
      have hlength : ¬ (List.replicate pageSize (0 : UInt8)).length <
          0 + RTreePageStore.METADATA.size := by
        rw [List.length_replicate]
        exact not_lt.mpr hroom
      rw [RTreePageStore.encodeMetadata, Struct.packInto, if_neg (by decide), if_neg hlength,
        hpack, error_bind]
    obtain ⟨disk, hmake, -⟩ := @RTreePageStore.make_metadata_page_spec
      ⟨⟨2621456, []⟩, ∅⟩ (RTreePageStore.known_empty _) 0 (by decide)
    have horder : RTreePageStore.checkOrder 2621456 65536 = .ok () := if_neg (by decide)
    have hroot : RTreePageStore.saveRoot fewDoubles ∅ 65536 none disk =
        (.ok (RTreePageStore.EMPTY_ROOT_PAGE_ID, ∅), disk) := rfl
    have hlift : ∀ s : RTreePageStore, lift (RTreePageStore.encodeMetadata 2621456
        ⟨65536, RTreePageStore.EMPTY_ROOT_PAGE_ID⟩) s = (.error e, s) := by
      intro s
      rw [RTreePageStore.EMPTY_ROOT_PAGE_ID, hencode 2621456 (by decide), run_lift]
    refine ⟨e, ?_⟩
    rw [RTreePageStore.saveTree, RTreePageStore.save, run_bind_ok _ (run_get _), empty, horder,
      run_bind_ok _ (run_lift _ _), run_bind_ok _ hmake,
      run_bind_ok _ (RTreePageStore.run_on_disk hroot)]
    dsimp only
    rw [run_bind_ok _ (run_modify _ _), run_bind_error _ (hlift _)]

end RTreeSession
end SoupDB
