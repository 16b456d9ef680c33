import SoupDB.Indexes.RTreeRun

/-!
# SoupDB: copies of R-tree nodes

What is stored of a tree is read back as other objects: `Copied` says that a node equals the one
it was made from and that its objects are new.  Equal nodes hold the same entries, and a valid
node is a copy of a valid one.

An internal node keeps with each child the box it had when it was put there.  `boxes` lists
these boxes, and `Drawn` says that each of them is there with coordinates of some kind; insertions
and removals keep that.
-/

namespace SoupDB

open List

variable {K : Type}

namespace RTreeNode

/-! ## Equal nodes -/

section Equal

variable [LinearOrder K]

variable {mbr : Option (MBR K)}

theorem eq_leaf {id id' : Nat} {entries entries' : List (Point K × RID)} {mbr' : Option (MBR K)} :
    eq (.leaf id entries mbr) (.leaf id' entries' mbr') = true ↔
      entries = entries' ∧ mbr = mbr' := by
  rw [eq, Bool.and_eq_true, decide_eq_true_iff, decide_eq_true_iff]

variable {entries entries' : List (Option (MBR K) × RTreeNode K)} {maxEntries depth : Nat}

theorem eq_internal {id id' : Nat} {mbr' : Option (MBR K)} :
    eq (.internal id entries mbr) (.internal id' entries' mbr') = true ↔
      eqEntries entries entries' = true ∧ mbr = mbr' := by
  rw [eq, Bool.and_eq_true, decide_eq_true_iff]

theorem eq_entries_iff :
    eqEntries entries entries' = true ↔
      List.Forall₂ (fun e e' => e.1 = e'.1 ∧ eq e.2 e'.2 = true) entries entries' := by
  induction entries generalizing entries' with
  | nil =>
      cases entries' with
      | nil => exact iff_of_true (by rw [eqEntries]) .nil
      | cons e' entries' =>
          refine iff_of_false (fun h => ?_) (fun h => nomatch h)
          simp [eqEntries] at h
  | cons e entries ih =>
      cases entries' with
      | nil =>
          refine iff_of_false (fun h => ?_) (fun h => nomatch h)
          simp [eqEntries] at h
      | cons e' entries' =>
          rw [eqEntries, Bool.and_eq_true, Bool.and_eq_true, decide_eq_true_iff, ih,
            forall₂_cons]

theorem map_child_mbr_of_eq (h : eqEntries entries entries' = true) :
    entries.map childMbr = entries'.map childMbr := by
  have hall := eq_entries_iff.mp h
  clear h
  induction hall with
  | nil => rfl
  | cons h _ ih =>
      rw [map_cons, map_cons, ih]
      exact congrArg₂ List.cons (mbr_of_eq h.2) rfl

theorem leaf_nodes_of_equal {a b : RTreeNode K} (hvalid : Valid maxEntries depth a)
    (h : eq a b = true) : b.leafNodes = a.leafNodes := by
  induction hvalid generalizing b with
  | @leaf id entries box _ _ _ =>
      cases b with
      | leaf id' entries' mbr' => rw [leafNodes, leafNodes, (eq_leaf.mp h).1]
      | internal id' entries' mbr' => simp [eq] at h
  | @internal depth id entries box _ _ _ _ ih =>
      cases b with
      | leaf id' entries' mbr' => simp [eq] at h
      | internal id' entries' mbr' =>
          have hall := eq_entries_iff.mp (eq_internal.mp h).1
          rw [leafNodes, leafNodes, leaf_nodes_of_eq, leaf_nodes_of_eq]
          clear * - hall ih
          induction hall with
          | nil => rfl
          | cons he _ ih' =>
              rw [flatMap_cons, flatMap_cons, ih _ mem_cons_self he.2,
                ih' (fun e he' => ih e (mem_cons_of_mem _ he'))]

theorem bounds_of_map {E E' : Type} {entryMbr : E → Option (MBR K)}
    {entryMbr' : E' → Option (MBR K)} {entries : List E} {entries' : List E'} {box : MBR K}
    (h : Bounds entryMbr entries box)
    (hmap : entries.map entryMbr = entries'.map entryMbr') :
    Bounds entryMbr' entries' box := by
  have hset : {b | ∃ e ∈ entries', entryMbr' e = some b} =
      {b | ∃ e ∈ entries, entryMbr e = some b} := by
    ext b
    have hmem : some b ∈ entries'.map entryMbr' ↔ some b ∈ entries.map entryMbr := by
      rw [hmap]
    rw [mem_map, mem_map] at hmem
    exact hmem
  rw [Bounds, hset]
  exact h

theorem Valid.of_eq {a b : RTreeNode K} (hvalid : Valid maxEntries depth a) (h : eq a b = true) :
    Valid maxEntries depth b := by
  induction hvalid generalizing b with
  | @leaf id entries box hne hfits hbounds =>
      cases b with
      | leaf id' entries' mbr' =>
          obtain ⟨rfl, rfl⟩ := eq_leaf.mp h
          exact .leaf hne hfits hbounds
      | internal id' entries' mbr' => simp [eq] at h
  | @internal depth id entries box hne hfits hbounds _ ih =>
      cases b with
      | leaf id' entries' mbr' => simp [eq] at h
      | internal id' entries' mbr' =>
          obtain ⟨hentries, rfl⟩ := eq_internal.mp h
          have hall := eq_entries_iff.mp hentries
          have hlength := hall.length_eq
          refine .internal ?_ (by omega) (bounds_of_map hbounds (map_child_mbr_of_eq hentries)) ?_
          · rintro rfl
            exact hne (length_eq_zero_iff.mp hlength)
          · clear * - hall ih
            induction hall with
            | nil => exact fun e he => absurd he not_mem_nil
            | cons he _ ih' =>
                refine forall_mem_cons.mpr ⟨ih _ mem_cons_self he.2, ?_⟩
                exact ih' (fun e he' => ih e (mem_cons_of_mem _ he'))

/-! ## Boxes that are computed again -/

/-- `computeMbr` sees the boxes of the entries only. -/
theorem compute_mbr_congr {E E' : Type} {entryMbr : E → Option (MBR K)}
    {entryMbr' : E' → Option (MBR K)} {entries : List E} {entries' : List E'}
    (hmap : entries.map entryMbr = entries'.map entryMbr') :
    computeMbr entryMbr entries = computeMbr entryMbr' entries' := by
  have hboxes : entries.mapM (boxOf entryMbr) = entries'.mapM (boxOf entryMbr') := by
    have hof : ∀ {E : Type} (f : E → Option (MBR K)) (es : List E),
        es.mapM (boxOf f) = (es.map f).mapM (boxOf id) := by
      intro E f es
      rw [mapM_map]
      rfl
    rw [hof entryMbr, hof entryMbr', hmap]
  cases entries with
  | nil =>
      obtain rfl := map_eq_nil_iff.mp hmap.symm
      rfl
  | cons e entries =>
      cases entries' with
      | nil => cases hmap
      | cons e' entries' =>
          rw [map_cons, map_cons, List.cons.injEq] at hmap
          cases entries with
          | nil =>
              obtain rfl := map_eq_nil_iff.mp hmap.2.symm
              exact congrArg Except.ok hmap.1
          | cons e₂ entries =>
              cases entries' with
              | nil => cases hmap.2
              | cons e₂' entries' =>
                  rw [computeMbr, computeMbr, hboxes]
                  all_goals simp

theorem Valid.compute_leaf {id : Nat} {entries : List (Point K × RID)}
    (h : Valid maxEntries depth (.leaf id entries mbr)) :
    computeMbr pointMbr entries = .ok mbr := by
  cases h with
  | leaf hne _ hbounds =>
      obtain ⟨box, hbox, hbounds'⟩ := compute_mbr_spec hne (boxed_points entries)
      rw [hbox, hbounds.unique hbounds']

theorem Valid.compute_internal {id : Nat} (h : Valid maxEntries depth (.internal id entries mbr)) :
    computeMbr childMbr entries = .ok mbr := by
  cases h with
  | internal hne _ hbounds hchildren =>
      obtain ⟨box, hbox, hbounds'⟩ := compute_mbr_spec hne (boxed_children hchildren)
      rw [hbox, hbounds.unique hbounds']

/-! ## Copies -/

/-- The node equals the other one; its objects, numbered from `next`, are new. -/
structure Copied (node : RTreeNode K) (next : Nat) (node' : RTreeNode K) (next' : Nat) : Prop where
  same : eq node node' = true
  ids : node'.ids.Perm (range' next (next' - next))
  next_le : next ≤ next'

/-- The same of the children of a node. -/
structure CopiedAll (entries : List (Option (MBR K) × RTreeNode K)) (next : Nat)
    (entries' : List (Option (MBR K) × RTreeNode K)) (next' : Nat) : Prop where
  same : eqEntries entries entries' = true
  ids : (idsOf entries').Perm (range' next (next' - next))
  next_le : next ≤ next'

section Copied

variable {next next' next'' : Nat} {node node' : RTreeNode K}
  {entries entries' : List (Option (MBR K) × RTreeNode K)}

theorem range'_split (h : next ≤ next') (h' : next' ≤ next'') :
    range' next (next'' - next) =
      range' next (next' - next) ++ range' next' (next'' - next') := by
  obtain ⟨k, rfl⟩ := Nat.exists_eq_add_of_le h
  obtain ⟨l, rfl⟩ := Nat.exists_eq_add_of_le h'
  rw [Nat.add_sub_cancel_left, Nat.add_sub_cancel_left, Nat.add_assoc, Nat.add_sub_cancel_left,
    range'_append_1]

theorem CopiedAll.nil : CopiedAll ([] : List (Option (MBR K) × RTreeNode K)) next [] next :=
  ⟨by rw [eqEntries], by rw [idsOf, Nat.sub_self]; exact .refl _, le_refl next⟩

theorem CopiedAll.cons {box : Option (MBR K)} (h : Copied node next node' next')
    (hrest : CopiedAll entries next' entries' next'') :
    CopiedAll ((box, node) :: entries) next ((box, node') :: entries') next'' := by
  refine ⟨?_, ?_, h.next_le.trans hrest.next_le⟩
  · rw [eqEntries, h.same, hrest.same]
    simp
  · rw [idsOf, range'_split h.next_le hrest.next_le]
    exact h.ids.append hrest.ids

theorem Copied.leaf {id : Nat} {entries : List (Point K × RID)} {mbr : Option (MBR K)} :
    Copied (.leaf id entries mbr) next (.leaf next entries mbr) (next + 1) :=
  ⟨eq_leaf.mpr ⟨rfl, rfl⟩, by rw [ids_leaf, Nat.add_sub_cancel_left]; exact .refl _,
    Nat.le_succ next⟩

theorem Copied.internal {id : Nat} {mbr : Option (MBR K)}
    (h : CopiedAll entries next entries' next') :
    Copied (.internal id entries mbr) next (.internal next' entries' mbr) (next' + 1) := by
  refine ⟨eq_internal.mpr ⟨h.same, rfl⟩, ?_, h.next_le.trans (Nat.le_succ next')⟩
  rw [ids_internal, range'_split h.next_le (Nat.le_succ next'), Nat.succ_sub (le_refl next'),
    Nat.sub_self]
  exact (h.ids.cons next').trans (perm_append_singleton next' _).symm

/-- The objects of a copy are different. -/
theorem Copied.nodup (h : Copied node next node' next') : node'.ids.Nodup :=
  h.ids.nodup_iff.mpr nodup_range'

theorem Copied.mem_ids (h : Copied node next node' next') {i : Nat} :
    i ∈ node'.ids ↔ next ≤ i ∧ i < next' := by
  have hle := h.next_le
  rw [h.ids.mem_iff, mem_range'_1]
  omega

end Copied

/-! ## Boxes brought up to date -/

mutual

/-- The node with the boxes that its children have now. -/
def refreshed : RTreeNode K → RTreeNode K
  | .leaf id entries mbr => .leaf id entries mbr
  | .internal id entries mbr => .internal id (refreshedOf entries) mbr

def refreshedOf :
    List (Option (MBR K) × RTreeNode K) → List (Option (MBR K) × RTreeNode K)
  | [] => []
  | (_, child) :: entries => (child.mbr, refreshed child) :: refreshedOf entries

end

section

omit [LinearOrder K]

@[simp] theorem mbr_refreshed (node : RTreeNode K) : node.refreshed.mbr = node.mbr := by
  cases node with
  | leaf id entries mbr => rw [refreshed]
  | internal id entries mbr =>
      rw [refreshed]
      rfl

theorem refreshed_of_eq (entries : List (Option (MBR K) × RTreeNode K)) :
    refreshedOf entries = entries.map (fun e => (e.2.mbr, e.2.refreshed)) := by
  induction entries with
  | nil => rw [refreshedOf, map_nil]
  | cons e entries ih => rw [refreshedOf, map_cons, ih]

theorem map_child_mbr_refreshed_of (entries : List (Option (MBR K) × RTreeNode K)) :
    (refreshedOf entries).map childMbr = entries.map childMbr := by
  rw [refreshed_of_eq, map_map]
  refine map_congr_left fun e _ => ?_
  exact mbr_refreshed e.2

end

theorem Valid.refreshed {node : RTreeNode K} (h : Valid maxEntries depth node) :
    Valid maxEntries depth node.refreshed := by
  induction h with
  | leaf hne hfits hbounds =>
      rw [RTreeNode.refreshed]
      exact .leaf hne hfits hbounds
  | @internal depth id entries box hne hfits hbounds _ ih =>
      rw [RTreeNode.refreshed]
      refine .internal ?_ ?_ (bounds_of_map hbounds (map_child_mbr_refreshed_of entries).symm) ?_
      · rw [refreshed_of_eq]
        exact fun hnil => hne (map_eq_nil_iff.mp hnil)
      · rwa [refreshed_of_eq, length_map]
      · rw [refreshed_of_eq]
        exact forall_mem_map.mpr ih

theorem leaf_nodes_refreshed {node : RTreeNode K} (h : Valid maxEntries depth node) :
    node.refreshed.leafNodes = node.leafNodes := by
  induction h with
  | leaf _ _ _ => rw [RTreeNode.refreshed]
  | @internal depth id entries box _ _ _ _ ih =>
      rw [RTreeNode.refreshed, leafNodes, leafNodes, leaf_nodes_of_eq, leaf_nodes_of_eq,
        refreshed_of_eq, flatMap_map]
      exact flatMap_congr fun e he => ih e he

end Equal

/-! ## The boxes that stand beside the children -/

mutual

/-- The boxes of the entries of the internal nodes. -/
def boxes : RTreeNode K → List (Option (MBR K))
  | .leaf _ _ _ => []
  | .internal _ entries _ => boxesOf entries

def boxesOf : List (Option (MBR K) × RTreeNode K) → List (Option (MBR K))
  | [] => []
  | (box, child) :: entries => box :: boxes child ++ boxesOf entries

end

@[simp] theorem boxes_leaf (id : Nat) (entries : List (Point K × RID)) (mbr : Option (MBR K)) :
    boxes (.leaf id entries mbr) = [] := by
  rw [boxes]

theorem boxes_of_eq (entries : List (Option (MBR K) × RTreeNode K)) :
    boxesOf entries = entries.flatMap (fun e => e.1 :: boxes e.2) := by
  induction entries with
  | nil => rw [boxesOf, flatMap_nil]
  | cons e entries ih => rw [boxesOf, flatMap_cons, ih]

theorem mem_boxes_of {entries : List (Option (MBR K) × RTreeNode K)} {b : Option (MBR K)} :
    b ∈ boxesOf entries ↔ ∃ e ∈ entries, b = e.1 ∨ b ∈ boxes e.2 := by
  rw [boxes_of_eq, mem_flatMap]
  simp only [mem_cons]

end RTreeNode

/-- The coordinates are of this kind. -/
def Point.Of (P : K → Prop) (point : Point K) : Prop := P point.x ∧ P point.y

def MBR.Of (P : K → Prop) (box : MBR K) : Prop :=
  P box.minX ∧ P box.minY ∧ P box.maxX ∧ P box.maxY

namespace RTreeNode

variable {P : K → Prop}

/-- The coordinates of a node are of this kind, and no box beside a child is missing. -/
structure Drawn (P : K → Prop) (node : RTreeNode K) : Prop where
  points : ∀ e ∈ node.contents, e.1.Of P
  boxes : ∀ b ∈ node.boxes, ∃ box, b = some box ∧ box.Of P

section Drawn

variable [LinearOrder K]

theorem of_min {a b : K} (ha : P a) (hb : P b) : P (min a b) := by
  rcases min_choice a b with h | h <;> rwa [h]

theorem of_max {a b : K} (ha : P a) (hb : P b) : P (max a b) := by
  rcases max_choice a b with h | h <;> rwa [h]

theorem of_union {a b : MBR K} (ha : a.Of P) (hb : b.Of P) : (a.union b).Of P :=
  ⟨of_min ha.1 hb.1, of_min ha.2.1 hb.2.1, of_max ha.2.2.1 hb.2.2.1, of_max ha.2.2.2 hb.2.2.2⟩

theorem of_bounds {E : Type} {entryMbr : E → Option (MBR K)} {entries : List E} {box : MBR K}
    (hne : entries ≠ []) (hboxed : Boxed entryMbr entries) (h : Bounds entryMbr entries box)
    (hof : ∀ e ∈ entries, ∀ b, entryMbr e = some b → b.Of P) : box.Of P := by
  suffices hsome : ∃ box', Bounds entryMbr entries box' ∧ box'.Of P by
    obtain ⟨box', hbounds, hbox⟩ := hsome
    rwa [h.unique hbounds]
  clear h
  induction entries using reverseRecOn with
  | nil => exact absurd rfl hne
  | append_singleton entries e ih =>
      obtain ⟨b, hb⟩ := hboxed e (by simp)
      have hbof := hof e (by simp) b hb
      by_cases hnil : entries = []
      · subst hnil
        exact ⟨b, bounds_singleton hb, hbof⟩
      · obtain ⟨box', hbounds, hbox⟩ := ih hnil (fun e he => hboxed e (by simp [he]))
          (fun e he => hof e (by simp [he]))
        exact ⟨_, hbounds.concat hb, of_union hbox hbof⟩

theorem Valid.of_mbr {maxEntries depth : Nat} {node : RTreeNode K}
    (h : Valid maxEntries depth node) (hpoints : ∀ e ∈ node.contents, e.1.Of P) :
    ∀ box, node.mbr = some box → box.Of P := by
  induction h with
  | leaf hne _ hbounds =>
      rintro _ ⟨⟩
      rw [contents_leaf] at hpoints
      refine of_bounds hne (boxed_points _) hbounds ?_
      rintro e he _ ⟨⟩
      have hpoint := hpoints e he
      exact ⟨hpoint.1, hpoint.2, hpoint.1, hpoint.2⟩
  | internal hne _ hbounds hchildren ih =>
      rintro _ ⟨⟩
      rw [contents_internal] at hpoints
      refine of_bounds hne (boxed_children hchildren) hbounds fun e he => ?_
      exact ih e he fun a ha => hpoints a (mem_flatMap.mpr ⟨e, he, ha⟩)

variable {mbr : Option (MBR K)}

omit [LinearOrder K]

theorem drawn_internal {id : Nat} {entries : List (Option (MBR K) × RTreeNode K)} :
    Drawn P (.internal id entries mbr) ↔
      ∀ e ∈ entries, (∃ box, e.1 = some box ∧ box.Of P) ∧ Drawn P e.2 := by
  constructor
  · intro h e he
    have hboxes : ∀ b, b = e.1 ∨ b ∈ e.2.boxes → ∃ box, b = some box ∧ box.Of P := by
      intro b hb
      refine h.boxes b ?_
      rw [RTreeNode.boxes]
      exact mem_boxes_of.mpr ⟨e, he, hb⟩
    refine ⟨hboxes e.1 (.inl rfl), fun a ha => h.points a ?_, fun b hb => hboxes b (.inr hb)⟩
    rw [contents_internal]
    exact mem_flatMap.mpr ⟨e, he, ha⟩
  · intro h
    constructor
    · intro a ha
      rw [contents_internal] at ha
      obtain ⟨e, he, ha⟩ := mem_flatMap.mp ha
      exact (h e he).2.points a ha
    · intro b hb
      rw [RTreeNode.boxes] at hb
      obtain ⟨e, he, rfl | hb⟩ := mem_boxes_of.mp hb
      · exact (h e he).1
      · exact (h e he).2.boxes b hb

theorem drawn_leaf {id : Nat} {entries : List (Point K × RID)} :
    Drawn P (.leaf id entries mbr) ↔ ∀ e ∈ entries, e.1.Of P := by
  refine ⟨fun h => ?_, fun h => ⟨?_, ?_⟩⟩
  · have hpoints := h.points
    rwa [contents_leaf] at hpoints
  · rwa [contents_leaf]
  · rw [boxes_leaf]
    exact fun b hb => absurd hb not_mem_nil

end Drawn

section Keeps

variable [Field K] [LinearOrder K] {maxEntries depth : Nat} {point : Point K}

omit [Field K] in
theorem sublist_remove_entries {rid : Option RID} (entries : List (Point K × RID))
    (removedOne : Bool) : (removeEntries point rid removedOne entries).2.Sublist entries := by
  induction entries generalizing removedOne with
  | nil => rw [removeEntries]
  | cons e entries ih =>
      rw [removeEntries]
      split
      · exact (ih true).cons e
      · exact (ih removedOne).cons_cons e

variable {rid : RID} {node node' : RTreeNode K} {promoted : Option (RTreeNode K)}

theorem insert_into_grown (hmax : 1 ≤ maxEntries) (h : Valid maxEntries depth node)
    {next next' : Nat}
    (hinsert : insertInto maxEntries point rid node next = .ok (node', promoted, next')) :
    Grown maxEntries depth node (point, rid) next next' (node' :: promoted.toList) := by
  obtain ⟨node₁, promoted₁, next₁, hinsert₁, hgrown⟩ :=
    @insert_into_spec K _ _ maxEntries depth point rid node hmax h next
  rw [hinsert] at hinsert₁
  cases hinsert₁
  exact hgrown

omit [Field K] in
theorem Drawn.points_insert {parts : List (RTreeNode K)} {next next' : Nat}
    (hpoints : ∀ e ∈ node.contents, e.1.Of P) (hpoint : point.Of P)
    (hgrown : Grown maxEntries depth node (point, rid) next next' parts) :
    ∀ part ∈ parts, ∀ e ∈ part.contents, e.1.Of P := by
  intro part hpart e he
  have hmem := hgrown.contents.mem_iff.mp (mem_flatMap.mpr ⟨part, hpart, he⟩)
  rcases mem_append.mp hmem with hmem | hmem
  · exact hpoints e hmem
  · rw [mem_singleton.mp hmem]
    exact hpoint

theorem Drawn.insertInto (hmax : 1 ≤ maxEntries) (h : Valid maxEntries depth node)
    (hdrawn : Drawn P node) (hpoint : point.Of P) {next next' : Nat}
    (hinsert : insertInto maxEntries point rid node next = .ok (node', promoted, next')) :
    ∀ part ∈ node' :: promoted.toList, Drawn P part := by
  have hpoints := Drawn.points_insert hdrawn.points hpoint (insert_into_grown hmax h hinsert)
  induction h generalizing next next' node' promoted with
  | @leaf id entries box _ _ _ =>
      have hleaf : ∀ part ∈ node' :: promoted.toList, part.boxes = [] := by
        rw [RTreeNode.insertInto] at hinsert
        obtain ⟨mbr, -, hinsert⟩ := bind_eq_ok.mp hinsert
        split at hinsert
        · obtain ⟨halves, -, hinsert⟩ := bind_eq_ok.mp hinsert
          cases hinsert
          simp
        · cases hinsert
          simp
      intro part hpart
      refine ⟨hpoints part hpart, fun b hb => ?_⟩
      rw [hleaf part hpart] at hb
      exact absurd hb not_mem_nil
  | @internal depth id entries box hne _ _ hchildren ih =>
      have hentries := drawn_internal.mp hdrawn
      obtain ⟨before, inner, child, after, rfl, hchoice⟩ :=
        choose_child_spec hne (boxed_children hchildren) point
      have hmem : (inner, child) ∈ before ++ (inner, child) :: after := by simp
      obtain ⟨child', promoted', next₁, hinto, hgrown⟩ :=
        @insert_into_spec K _ _ maxEntries depth point rid child hmax (hchildren _ hmem) next
      have hparts := Drawn.points_insert (hentries _ hmem).2.points hpoint hgrown
      have hbelow := ih _ hmem (hentries _ hmem).2 hinto hparts
      -- the entries with the child that grew, and one for the part split from it
      have hkept : ∀ e ∈ before ++ (inner, child') :: after,
          (∃ box, e.1 = some box ∧ box.Of P) ∧ Drawn P e.2 := by
        intro e he
        rcases mem_append.mp he with he | he
        · exact hentries e (by simp [he])
        · rcases mem_cons.mp he with rfl | he
          · exact ⟨(hentries _ hmem).1, hbelow child' (by simp)⟩
          · exact hentries e (by simp [he])
      rw [RTreeNode.insertInto, hchoice, ok_bind, insert_at_eq hinto before after, ok_bind]
        at hinsert
      dsimp only at hinsert
      obtain ⟨mbr, -, hinsert⟩ := bind_eq_ok.mp hinsert
      cases promoted' with
      | none =>
          cases hinsert
          intro part hpart
          obtain rfl := mem_singleton.mp hpart
          exact drawn_internal.mpr hkept
      | some new =>
          have hall : ∀ e ∈ before ++ (inner, child') :: after ++ [(new.mbr, new)],
              (∃ box, e.1 = some box ∧ box.Of P) ∧ Drawn P e.2 := by
            intro e he
            rcases mem_append.mp he with he | he
            · exact hkept e he
            · obtain rfl := mem_singleton.mp he
              have hvalid := hgrown.valid new (by simp)
              obtain ⟨box, hbox⟩ := hvalid.mbr
              exact ⟨⟨box, hbox, hvalid.of_mbr (hparts new (by simp)) box hbox⟩,
                hbelow new (by simp)⟩
          have hboxed : Boxed childMbr (before ++ (inner, child') :: after ++ [(new.mbr, new)]) :=
            by
            intro e he
            rcases mem_append.mp he with he | he
            · rcases mem_append.mp he with he | he
              · exact (hchildren e (by simp [he])).mbr
              · rcases mem_cons.mp he with rfl | he
                · exact (hgrown.valid child' (by simp)).mbr
                · exact (hchildren e (by simp [he])).mbr
            · obtain rfl := mem_singleton.mp he
              exact (hgrown.valid new (by simp)).mbr
          dsimp only at hinsert
          obtain ⟨mbr₂, -, hinsert⟩ := bind_eq_ok.mp hinsert
          split at hinsert
          · obtain ⟨halves, hsplit, hinsert⟩ := bind_eq_ok.mp hinsert
            obtain ⟨halves', hsplit', hd⟩ := split_spec entry_eq_self
              (fun _ _ => child_mbr_of_eq) maxEntries (by omega) hboxed
            rw [hsplit] at hsplit'
            cases hsplit'
            cases hinsert
            intro part hpart
            rcases mem_cons.mp hpart with rfl | hpart
            · exact drawn_internal.mpr fun e he =>
                hall e (hd.perm.mem_iff.mp (mem_append_left _ he))
            · obtain rfl := mem_singleton.mp hpart
              exact drawn_internal.mpr fun e he =>
                hall e (hd.perm.mem_iff.mp (mem_append_right _ he))
          · cases hinsert
            intro part hpart
            obtain rfl := mem_singleton.mp hpart
            exact drawn_internal.mpr hall

omit [Field K] in
mutual

theorem Drawn.remove {rid : Option RID} : ∀ {node node' : RTreeNode K} {removed : Nat},
    Drawn P node → RTreeNode.remove point rid node = .ok (removed, node') → Drawn P node'
  | .leaf id entries mbr, node', removed, hdrawn, h => by
      rw [RTreeNode.remove] at h
      obtain ⟨mbr', -, h⟩ := bind_eq_ok.mp h
      cases h
      refine drawn_leaf.mpr fun e he => drawn_leaf.mp hdrawn e ?_
      exact (sublist_remove_entries entries false).subset he
  | .internal id entries mbr, node', removed, hdrawn, h => by
      rw [RTreeNode.remove] at h
      obtain ⟨⟨count, keep⟩, hkeep, h⟩ := bind_eq_ok.mp h
      obtain ⟨mbr', -, h⟩ := bind_eq_ok.mp h
      cases h
      exact drawn_internal.mpr (drawn_remove_children (drawn_internal.mp hdrawn) hkeep)

theorem drawn_remove_children {rid : Option RID} :
    ∀ {entries keep : List (Option (MBR K) × RTreeNode K)} {removed : Nat},
      (∀ e ∈ entries, (∃ box, e.1 = some box ∧ box.Of P) ∧ Drawn P e.2) →
      removeChildren point rid entries = .ok (removed, keep) →
      ∀ e ∈ keep, (∃ box, e.1 = some box ∧ box.Of P) ∧ Drawn P e.2
  | [], keep, removed, _, h => by
      rw [removeChildren] at h
      cases h
      exact fun e he => absurd he not_mem_nil
  | (box, child) :: entries, keep, removed, hentries, h => by
      obtain ⟨hfirst, hrest⟩ := forall_mem_cons.mp hentries
      rw [removeChildren] at h
      obtain ⟨⟨count, child'⟩, hchild, h⟩ := bind_eq_ok.mp h
      obtain ⟨⟨more, kept⟩, hkept, h⟩ := bind_eq_ok.mp h
      have hkeep := drawn_remove_children hrest hkept
      have hdrawn : Drawn P child' := by
        split at hchild
        · exact Drawn.remove hfirst.2 hchild
        · cases hchild
          exact hfirst.2
      cases h
      intro e he
      split at he
      · exact hkeep e he
      · rcases mem_cons.mp he with rfl | he
        · exact ⟨hfirst.1, hdrawn⟩
        · exact hkeep e he

end

end Keeps

end RTreeNode
end SoupDB
