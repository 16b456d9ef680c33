import SoupDB.Indexes.RTreeSplit
import SoupDB.Lib.Transition
import Mathlib.Data.Multiset.Filter

/-!
# SoupDB: the R-tree is a multiset of points

`Valid` is the invariant of a node: it has entries, no more than fit, its box is exactly the
union of theirs, and all leaves below it stand on one level.  Every method keeps it, and
what the leaves hold changes as the method says, with one exception: a removal of one pair
takes one entry out of every leaf that holds it.

Main facts: `insert_into_spec` and `remove_spec`, what one insert and one removal do to the
contents of a node.
-/

namespace SoupDB

open List

variable {K : Type} [Field K] [LinearOrder K]

namespace RTreeNode

/-! ## What a node holds -/

section Contents

omit [Field K] [LinearOrder K]

mutual

/-- The entries of each leaf, left to right. -/
def leafNodes : RTreeNode K → List (List (Point K × RID))
  | .leaf _ entries _ => [entries]
  | .internal _ entries _ => leafNodesOf entries

def leafNodesOf : List (Option (MBR K) × RTreeNode K) → List (List (Point K × RID))
  | [] => []
  | (_, child) :: entries => leafNodes child ++ leafNodesOf entries

end

mutual

/-- The identities of the nodes, as often as they are reached. -/
def ids : RTreeNode K → List Nat
  | .leaf id _ _ => [id]
  | .internal id entries _ => id :: idsOf entries

def idsOf : List (Option (MBR K) × RTreeNode K) → List Nat
  | [] => []
  | (_, child) :: entries => ids child ++ idsOf entries

end

/-- The entries of the leaves. -/
def contents (node : RTreeNode K) : List (Point K × RID) := (leafNodes node).flatten

/-- The entries below the children of a node. -/
def contentsOf (entries : List (Option (MBR K) × RTreeNode K)) : List (Point K × RID) :=
  entries.flatMap (fun e => contents e.2)

theorem leaf_nodes_of_eq (entries : List (Option (MBR K) × RTreeNode K)) :
    leafNodesOf entries = entries.flatMap (fun e => leafNodes e.2) := by
  induction entries with
  | nil => rw [leafNodesOf, flatMap_nil]
  | cons e entries ih => rw [leafNodesOf, flatMap_cons, ih]

theorem ids_of_eq (entries : List (Option (MBR K) × RTreeNode K)) :
    idsOf entries = entries.flatMap (fun e => ids e.2) := by
  induction entries with
  | nil => rw [idsOf, flatMap_nil]
  | cons e entries ih => rw [idsOf, flatMap_cons, ih]

@[simp] theorem contents_leaf (id : Nat) (entries : List (Point K × RID))
    (mbr : Option (MBR K)) : contents (.leaf id entries mbr) = entries := by
  rw [contents, leafNodes, flatten_singleton]

@[simp] theorem contents_internal (id : Nat) (entries : List (Option (MBR K) × RTreeNode K))
    (mbr : Option (MBR K)) : contents (.internal id entries mbr) = contentsOf entries := by
  rw [contents, leafNodes, leaf_nodes_of_eq, contentsOf, flatMap_def, flatMap_def,
    flatten_flatten, map_map]
  rfl

@[simp] theorem ids_leaf (id : Nat) (entries : List (Point K × RID)) (mbr : Option (MBR K)) :
    ids (.leaf id entries mbr) = [id] := by
  rw [ids]

@[simp] theorem ids_internal (id : Nat) (entries : List (Option (MBR K) × RTreeNode K))
    (mbr : Option (MBR K)) : ids (.internal id entries mbr) = id :: idsOf entries := by
  rw [ids]

end Contents

/-! ## Nodes that are equal -/

section Equal

omit [Field K]

theorem mbr_of_eq {a b : RTreeNode K} (h : eq a b = true) : a.mbr = b.mbr := by
  cases a with
  | leaf id entries mbr =>
      cases b with
      | leaf id' entries' mbr' =>
          rw [eq, Bool.and_eq_true, decide_eq_true_iff, decide_eq_true_iff] at h
          exact h.2
      | internal id' entries' mbr' => simp [eq] at h
  | internal id entries mbr =>
      cases b with
      | leaf id' entries' mbr' => simp [eq] at h
      | internal id' entries' mbr' =>
          rw [eq, Bool.and_eq_true, decide_eq_true_iff] at h
          exact h.2

mutual

theorem eq_self : ∀ node : RTreeNode K, eq node node = true
  | .leaf id entries mbr => by simp [eq]
  | .internal id entries mbr => by simp [eq, eq_entries_self entries]

theorem eq_entries_self : ∀ entries : List (Option (MBR K) × RTreeNode K),
    eqEntries entries entries = true
  | [] => by rw [eqEntries]
  | (box, child) :: entries => by simp [eqEntries, eq_self child, eq_entries_self entries]

end

theorem entry_eq_self (e : Option (MBR K) × RTreeNode K) : entryEq e e = true := by
  rw [entryEq, eq_self]
  simp

theorem child_mbr_of_eq {a b : Option (MBR K) × RTreeNode K} (h : entryEq a b = true) :
    childMbr a = childMbr b := by
  rw [entryEq, Bool.and_eq_true] at h
  exact mbr_of_eq h.2

end Equal

/-! ## The invariant -/

omit [Field K] in
/-- The node has entries, no more than fit, under an exact box, and its leaves all stand
`depth` levels below it. -/
inductive Valid (maxEntries : Nat) : Nat → RTreeNode K → Prop
  | leaf {id : Nat} {entries : List (Point K × RID)} {box : MBR K} (nonempty : entries ≠ [])
      (fits : entries.length ≤ maxEntries) (bounds : Bounds pointMbr entries box) :
      Valid maxEntries 0 (.leaf id entries (some box))
  | internal {depth id : Nat} {entries : List (Option (MBR K) × RTreeNode K)} {box : MBR K}
      (nonempty : entries ≠ []) (fits : entries.length ≤ maxEntries)
      (bounds : Bounds childMbr entries box)
      (children : ∀ e ∈ entries, Valid maxEntries depth e.2) :
      Valid maxEntries (depth + 1) (.internal id entries (some box))

section Valid

variable {maxEntries depth : Nat} {node : RTreeNode K}

omit [Field K]

theorem Valid.mbr (h : Valid maxEntries depth node) : ∃ box, node.mbr = some box := by
  cases h with
  | leaf _ _ _ => exact ⟨_, rfl⟩
  | internal _ _ _ _ => exact ⟨_, rfl⟩

theorem Valid.isEmpty (h : Valid maxEntries depth node) : node.isEmpty = false := by
  cases h with
  | leaf hne _ _ => exact isEmpty_eq_false_iff.mpr hne
  | internal hne _ _ _ => exact isEmpty_eq_false_iff.mpr hne

omit [LinearOrder K] in
theorem boxed_points (entries : List (Point K × RID)) : Boxed pointMbr entries :=
  fun _ _ => ⟨_, rfl⟩

theorem boxed_children {entries : List (Option (MBR K) × RTreeNode K)}
    (h : ∀ e ∈ entries, Valid maxEntries depth e.2) : Boxed childMbr entries :=
  fun e he => (h e he).mbr

theorem Valid.contains (h : Valid maxEntries depth node) {box : MBR K}
    (hbox : node.mbr = some box) : ∀ e ∈ node.contents, box.contains e.1 = true := by
  induction h generalizing box with
  | leaf _ _ hbounds =>
      intro e he
      obtain rfl := Option.some.inj hbox
      rw [contents_leaf] at he
      exact MBR.contains_iff.mpr (hbounds.le he rfl)
  | internal _ _ hbounds hchildren ih =>
      intro e he
      obtain rfl := Option.some.inj hbox
      rw [contents_internal, contentsOf, mem_flatMap] at he
      obtain ⟨child, hchild, he⟩ := he
      obtain ⟨box', hbox'⟩ := (hchildren child hchild).mbr
      have hinside := MBR.contains_iff.mp (ih child hchild hbox' e he)
      exact MBR.contains_iff.mpr (hinside.trans (hbounds.le hchild hbox'))

end Valid

/-! ## Search -/

section Collect

variable {maxEntries depth : Nat} {keep : Point K → Bool} {enter : MBR K → Bool}

omit [Field K]

variable {node : RTreeNode K}

theorem collect_spec (h : Valid maxEntries depth node)
    (henter : ∀ box point, box.contains point = true → keep point = true → enter box = true) :
    collect keep enter node = .ok ((node.contents.filter (fun e => keep e.1)).map Prod.snd) := by
  induction h with
  | leaf _ _ _ => rw [collect, contents_leaf]
  | @internal depth id entries box _ _ _ hchildren ih =>
      rw [collect, contents_internal]
      clear * - hchildren ih henter
      induction entries with
      | nil => rw [collectEntries, contentsOf, flatMap_nil, filter_nil, map_nil]
      | cons e entries ih' =>
          obtain ⟨box, hbox⟩ := (hchildren e mem_cons_self).mbr
          have hrest := ih' (fun e' he' => hchildren e' (mem_cons_of_mem e he'))
            (fun e' he' => ih e' (mem_cons_of_mem e he'))
          have hfound : (if enter box = true then collect keep enter e.2 else .ok []) =
              .ok ((e.2.contents.filter (fun e => keep e.1)).map Prod.snd) := by
            by_cases hbox' : enter box = true
            · rw [if_pos hbox', ih e mem_cons_self]
            · have hnone : e.2.contents.filter (fun e => keep e.1) = [] := by
                refine filter_eq_nil_iff.mpr (fun a ha hkeep => hbox' ?_)
                exact henter box a.1
                  ((hchildren e mem_cons_self).contains hbox a ha) hkeep
              rw [if_neg hbox', hnone, map_nil]
          rw [collectEntries, boxOf, hbox]
          dsimp only
          rw [ok_bind, hfound, ok_bind, hrest, ok_bind, contentsOf, contentsOf,
            flatMap_cons, filter_append, map_append]

theorem search_spec (h : Valid maxEntries depth node) (point : Point K) :
    node.search point =
      .ok ((node.contents.filter (fun e => e.1 = point)).map Prod.snd) := by
  rw [search, collect_spec h]
  intro box stored hcontains hkeep
  rw [← of_decide_eq_true hkeep]
  exact hcontains

theorem range_spec (h : Valid maxEntries depth node) (box : MBR K) :
    node.range box =
      .ok ((node.contents.filter (fun e => box.contains e.1)).map Prod.snd) := by
  rw [range, collect_spec h]
  exact fun _ _ hcontains hkeep => MBR.intersects_of_contains hcontains hkeep

end Collect

/-! ## Insertion -/

section Insert

variable {maxEntries depth : Nat} {point : Point K} {rid : RID}

/-- A node, and the one split from it, hold the entry besides what the node held; identities
between `next` and `next'` are new. -/
structure Grown (maxEntries depth : Nat) (node : RTreeNode K) (entry : Point K × RID)
    (next next' : Nat) (parts : List (RTreeNode K)) : Prop where
  valid : ∀ part ∈ parts, Valid maxEntries depth part
  contents : (parts.flatMap contents).Perm (node.contents ++ [entry])
  ids : (parts.flatMap ids).Perm (node.ids ++ range' next (next' - next))
  next_le : next ≤ next'

omit [Field K] in
theorem Dealt.lengths {E : Type} {entryMbr : E → Option (MBR K)} {h : Halves E K}
    {entries : List E} (hd : Dealt entryMbr h entries)
    (hlength : entries.length ≤ maxEntries + 1) :
    h.leftEntries.length ≤ maxEntries ∧ h.rightEntries.length ≤ maxEntries := by
  have htotal := hd.perm.length_eq
  rw [length_append] at htotal
  have hleft := length_pos_of_ne_nil hd.left
  have hright := length_pos_of_ne_nil hd.right
  omega

variable {mbr : Option (MBR K)} {entries : List (Option (MBR K) × RTreeNode K)}

theorem insert_leaf {id next : Nat} {entries : List (Point K × RID)} (hmax : 1 ≤ maxEntries)
    (hfits : entries.length ≤ maxEntries) :
    ∃ node' promoted next',
      insertInto maxEntries point rid (.leaf id entries mbr) next =
        .ok (node', promoted, next') ∧
      Grown maxEntries 0 (.leaf id entries mbr) (point, rid) next next'
        (node' :: promoted.toList) := by
  have hne : entries ++ [(point, rid)] ≠ [] := by simp
  obtain ⟨box, hbox, hbounds⟩ := compute_mbr_spec hne (boxed_points _)
  rw [insertInto, hbox, ok_bind]
  by_cases hover : maxEntries < (entries ++ [(point, rid)]).length
  · have hlength : (entries ++ [(point, rid)]).length ≤ maxEntries + 1 := by
      rw [length_append, length_singleton]
      omega
    have hrefl : ∀ a : Point K × RID, (fun a b => decide (a = b)) a a = true :=
      fun _ => decide_eq_true rfl
    have hequal : ∀ a b : Point K × RID, (fun a b => decide (a = b)) a b = true →
        pointMbr a = pointMbr b :=
      fun a b hab => by rw [of_decide_eq_true hab]
    obtain ⟨h, hsplit, hd⟩ := split_spec hrefl hequal maxEntries (by omega)
      (boxed_points (entries ++ [(point, rid)]))
    obtain ⟨hleft, hright⟩ := Dealt.lengths hd hlength
    rw [if_pos hover, hsplit, ok_bind]
    refine ⟨_, _, _, rfl, ?_, ?_, ?_, Nat.le_succ next⟩
    · intro part hpart
      rcases mem_cons.mp hpart with rfl | hpart
      · exact .leaf hd.left hleft hd.leftBox
      · obtain rfl := mem_singleton.mp hpart
        exact .leaf hd.right hright hd.rightBox
    · simpa using hd.perm
    · simp
  · rw [if_neg hover]
    refine ⟨_, _, _, rfl, ?_, ?_, ?_, le_refl next⟩
    · intro part hpart
      obtain rfl := mem_singleton.mp hpart
      exact .leaf hne (Nat.le_of_not_lt hover) hbounds
    · simp
    · simp

section

omit [Field K] [LinearOrder K]

theorem contents_of_cons (e : Option (MBR K) × RTreeNode K)
    (entries : List (Option (MBR K) × RTreeNode K)) :
    contentsOf (e :: entries) = e.2.contents ++ contentsOf entries := flatMap_cons

theorem contents_of_append (entries entries' : List (Option (MBR K) × RTreeNode K)) :
    contentsOf (entries ++ entries') = contentsOf entries ++ contentsOf entries' := by
  rw [contentsOf, flatMap_append]
  rfl

theorem ids_of_append (entries entries' : List (Option (MBR K) × RTreeNode K)) :
    idsOf (entries ++ entries') = idsOf entries ++ idsOf entries' := by
  rw [ids_of_eq, ids_of_eq, ids_of_eq, flatMap_append]

theorem contents_of_perm {entries' : List (Option (MBR K) × RTreeNode K)}
    (h : entries.Perm entries') : (contentsOf entries).Perm (contentsOf entries') :=
  h.flatMap_right _

theorem ids_of_perm {entries' : List (Option (MBR K) × RTreeNode K)} (h : entries.Perm entries') :
    (idsOf entries).Perm (idsOf entries') := by
  rw [ids_of_eq, ids_of_eq]
  exact h.flatMap_right _

end

/-- The choice is a position of the node. -/
theorem choose_child_spec (hne : entries ≠ []) (hboxed : Boxed childMbr entries) (point : Point K) :
    ∃ before box child after, entries = before ++ (box, child) :: after ∧
      chooseChild entries point = .ok before.length := by
  obtain ⟨boxes, hboxes, hmap⟩ := boxes_of_boxed hboxed
  have hlength : boxes.length = entries.length := by
    have h := congrArg length hmap
    rwa [length_map, length_map] at h
  have hnumbered : boxes.zipIdx ≠ [] := by
    refine ne_nil_of_length_pos ?_
    rw [length_zipIdx, hlength]
    exact length_pos_of_ne_nil hne
  obtain ⟨⟨box, i⟩, hchoice⟩ : ∃ e, boxes.zipIdx.argmin (fun e : MBR K × Nat =>
      toLex (e.1.enlargement (MBR.fromPoint point), e.1.area)) = some e := by
    cases h : boxes.zipIdx.argmin (fun e : MBR K × Nat =>
        toLex (e.1.enlargement (MBR.fromPoint point), e.1.area)) with
    | none => exact absurd (argmin_eq_none.mp h) hnumbered
    | some e => exact ⟨e, rfl⟩
  have hi : i < entries.length := by
    have h := snd_lt_of_mem_zipIdx (argmin_mem hchoice)
    omega
  refine ⟨entries.take i, entries[i].1, entries[i].2, entries.drop (i + 1), ?_, ?_⟩
  · rw [Prod.mk.eta, getElem_cons_drop, take_append_drop]
  · rw [chooseChild, hboxes, ok_bind, hchoice]
    dsimp only
    rw [length_take_of_le hi.le]

theorem insert_at_eq {box : Option (MBR K)} {child child' : RTreeNode K}
    {promoted : Option (RTreeNode K)} {next next' : Nat}
    (h : insertInto maxEntries point rid child next = .ok (child', promoted, next'))
    (before after : List (Option (MBR K) × RTreeNode K)) :
    insertAt maxEntries point rid before.length (before ++ (box, child) :: after) next =
      .ok (before ++ (box, child') :: after, promoted, next') := by
  induction before with
  | nil =>
      rw [nil_append, length_nil, insertAt, h]
      rfl
  | cons e before ih =>
      rw [cons_append, length_cons, insertAt, ih]
      rfl

theorem insert_internal {id next : Nat} (hmax : 1 ≤ maxEntries) (hne : entries ≠ [])
    (hfits : entries.length ≤ maxEntries) (hchildren : ∀ e ∈ entries, Valid maxEntries depth e.2)
    (hinsert : ∀ e ∈ entries, ∃ node' promoted next',
      insertInto maxEntries point rid e.2 next = .ok (node', promoted, next') ∧
      Grown maxEntries depth e.2 (point, rid) next next' (node' :: promoted.toList)) :
    ∃ node' promoted next',
      insertInto maxEntries point rid (.internal id entries mbr) next =
        .ok (node', promoted, next') ∧
      Grown maxEntries (depth + 1) (.internal id entries mbr) (point, rid) next next'
        (node' :: promoted.toList) := by
  obtain ⟨before, box, child, after, rfl, hchoice⟩ :=
    choose_child_spec hne (boxed_children hchildren) point
  obtain ⟨child', promoted, next', hinto, hgrown⟩ := hinsert (box, child) (by simp)
  have hvalid : ∀ e ∈ before ++ (box, child') :: after, Valid maxEntries depth e.2 := by
    intro e he
    rcases mem_append.mp he with he | he
    · exact hchildren e (by simp [he])
    · rcases mem_cons.mp he with rfl | he
      · exact hgrown.valid child' (by simp)
      · exact hchildren e (by simp [he])
  have hcontents : ∀ parts : List (Option (MBR K) × RTreeNode K),
      contentsOf parts = (promoted.toList).flatMap contents →
      (contentsOf (before ++ (box, child') :: after ++ parts)).Perm
        (contentsOf (before ++ (box, child) :: after) ++ [(point, rid)]) := by
    intro parts hparts
    have hgrow := hgrown.contents
    rw [flatMap_cons, ← hparts] at hgrow
    rw [contents_of_append, contents_of_append, contents_of_append, contents_of_cons,
      contents_of_cons]
    exact perm_replace hgrow
  have hids : ∀ parts : List (Option (MBR K) × RTreeNode K),
      idsOf parts = (promoted.toList).flatMap ids →
      (idsOf (before ++ (box, child') :: after ++ parts)).Perm
        (idsOf (before ++ (box, child) :: after) ++ range' next (next' - next)) := by
    intro parts hparts
    have hgrow := hgrown.ids
    rw [flatMap_cons, ← hparts] at hgrow
    rw [ids_of_append, ids_of_append, ids_of_append, idsOf, idsOf]
    exact perm_replace hgrow
  obtain ⟨box₁, hbox₁, hbounds₁⟩ := compute_mbr_spec (by simp) (boxed_children hvalid)
  rw [insertInto, hchoice, ok_bind, insert_at_eq hinto before after, ok_bind]
  dsimp only
  rw [hbox₁, ok_bind]
  have hlength : (before ++ (box, child') :: after).length ≤ maxEntries := by
    simpa using hfits
  cases promoted with
  | none =>
      refine ⟨_, _, _, rfl, ?_, ?_, ?_, hgrown.next_le⟩
      · intro part hpart
        obtain rfl := mem_singleton.mp hpart
        exact .internal (by simp) hlength hbounds₁ hvalid
      · simpa using hcontents [] rfl
      · have h := hids [] (by rw [idsOf]; rfl)
        rw [append_nil] at h
        simpa using h.cons id
  | some promoted =>
      have hvalid₂ : ∀ e ∈ before ++ (box, child') :: after ++ [(promoted.mbr, promoted)],
          Valid maxEntries depth e.2 := by
        intro e he
        rcases mem_append.mp he with he | he
        · exact hvalid e he
        · obtain rfl := mem_singleton.mp he
          exact hgrown.valid promoted (by simp)
      have hcontents₂ := hcontents [(promoted.mbr, promoted)] (by simp [contentsOf])
      have hids₂ := hids [(promoted.mbr, promoted)] (by simp [ids_of_eq])
      obtain ⟨box₂, hbox₂, hbounds₂⟩ := compute_mbr_spec (by simp) (boxed_children hvalid₂)
      dsimp only
      rw [hbox₂, ok_bind]
      by_cases hover : maxEntries <
          (before ++ (box, child') :: after ++ [(promoted.mbr, promoted)]).length
      · obtain ⟨h, hsplit, hd⟩ := split_spec entry_eq_self (fun _ _ => child_mbr_of_eq)
          maxEntries (by omega) (boxed_children hvalid₂)
        obtain ⟨hleft, hright⟩ := @Dealt.lengths K _ maxEntries _ _ _ _ hd (by
          rw [length_append, length_singleton]
          omega)
        have hhalves : ∀ e ∈ h.leftEntries ++ h.rightEntries,
            Valid maxEntries depth e.2 :=
          fun e he => hvalid₂ e (hd.perm.mem_iff.mp he)
        rw [if_pos hover, hsplit, ok_bind]
        refine ⟨_, _, _, rfl, ?_, ?_, ?_, hgrown.next_le.trans (Nat.le_succ next')⟩
        · intro part hpart
          rcases mem_cons.mp hpart with rfl | hpart
          · exact .internal hd.left hleft hd.leftBox
              (fun e he => hhalves e (mem_append_left _ he))
          · obtain rfl := mem_singleton.mp hpart
            exact .internal hd.right hright hd.rightBox
              (fun e he => hhalves e (mem_append_right _ he))
        · have hperm := (contents_of_perm hd.perm).trans hcontents₂
          rw [contents_of_append] at hperm
          simpa using hperm
        · have hperm := (ids_of_perm hd.perm).trans hids₂
          rw [ids_of_append] at hperm
          have hnew : range' next (next' + 1 - next) =
              range' next (next' - next) ++ [next'] := by
            rw [Nat.succ_sub hgrown.next_le, range'_concat]
            have hle := hgrown.next_le
            congr 2
            omega
          simp only [Option.toList_some, flatMap_cons, flatMap_nil, ids_internal,
            append_nil, cons_append]
          rw [hnew]
          refine List.Perm.cons id ?_
          have hmid : (idsOf h.leftEntries ++ next' :: idsOf h.rightEntries).Perm
              (next' :: (idsOf h.leftEntries ++ idsOf h.rightEntries)) := perm_middle
          refine hmid.trans ((hperm.cons next').trans ?_)
          rw [← append_assoc]
          exact (perm_append_singleton next' _).symm
      · rw [if_neg hover]
        refine ⟨_, _, _, rfl, ?_, ?_, ?_, hgrown.next_le⟩
        · intro part hpart
          obtain rfl := mem_singleton.mp hpart
          exact .internal (by simp) (Nat.le_of_not_lt hover) hbounds₂ hvalid₂
        · simpa using hcontents₂
        · simpa using hids₂.cons id

theorem insert_into_spec {node : RTreeNode K} (hmax : 1 ≤ maxEntries)
    (h : Valid maxEntries depth node) (next : Nat) :
    ∃ node' promoted next',
      insertInto maxEntries point rid node next = .ok (node', promoted, next') ∧
      Grown maxEntries depth node (point, rid) next next' (node' :: promoted.toList) := by
  induction h with
  | leaf _ hfits _ => exact insert_leaf hmax hfits
  | internal hne hfits _ hchildren ih => exact insert_internal hmax hne hfits hchildren ih

end Insert

/-! ## Removal -/

section Remove

variable {maxEntries depth : Nat} {point : Point K} {rid : Option RID}

section

omit [Field K]

/-- A leaf without the point stays as it is. -/
theorem remove_entries_of_absent {entries : List (Point K × RID)} {removedOne : Bool}
    (h : ∀ e ∈ entries, e.1 ≠ point) :
    removeEntries point rid removedOne entries = (0, entries) := by
  induction entries with
  | nil => rw [removeEntries]
  | cons e entries ih =>
      obtain ⟨stored, storedRid⟩ := e
      have hne : ¬ (stored = point ∧
          (rid = none ∨ removedOne = false ∧ rid = some storedRid)) :=
        fun heq => h _ mem_cons_self heq.1
      rw [removeEntries, if_neg hne, ih (fun e he => h e (mem_cons_of_mem _ he))]

theorem remove_entries_all (entries : List (Point K × RID)) (removedOne : Bool) :
    removeEntries point none removedOne entries =
      (entries.countP (fun e => e.1 = point), entries.filter (fun e => e.1 ≠ point)) := by
  induction entries generalizing removedOne with
  | nil => rw [removeEntries, countP_nil, filter_nil]
  | cons e entries ih =>
      obtain ⟨stored, storedRid⟩ := e
      rw [removeEntries]
      by_cases heq : stored = point
      · rw [if_pos ⟨heq, Or.inl rfl⟩, ih, countP_cons_of_pos (by simpa using heq),
          filter_cons_of_neg (by simpa using heq)]
      · rw [if_neg (fun h => heq h.1), ih, countP_cons_of_neg (by simpa using heq),
          filter_cons_of_pos (by simpa using heq)]

theorem remove_entries_done {r : RID} (entries : List (Point K × RID)) :
    removeEntries point (some r) true entries = (0, entries) := by
  induction entries with
  | nil => rw [removeEntries]
  | cons e entries ih =>
      obtain ⟨stored, storedRid⟩ := e
      have hdone : ¬ (stored = point ∧
          (some r = none ∨ true = false ∧ some r = some storedRid)) := by
        simp
      rw [removeEntries, if_neg hdone, ih]

theorem remove_entries_one {r : RID} (entries : List (Point K × RID)) :
    removeEntries point (some r) false entries =
      (if (point, r) ∈ entries then 1 else 0, entries.erase (point, r)) := by
  induction entries with
  | nil => rw [removeEntries, erase_nil, if_neg not_mem_nil]
  | cons e entries ih =>
      obtain ⟨stored, storedRid⟩ := e
      rw [removeEntries]
      by_cases heq : (stored, storedRid) = (point, r)
      · obtain ⟨rfl, rfl⟩ := Prod.mk.inj heq
        rw [if_pos ⟨rfl, Or.inr ⟨rfl, rfl⟩⟩, remove_entries_done, erase_cons_head,
          if_pos mem_cons_self]
      · have hne : ¬ (stored = point ∧
            (some r = none ∨ false = false ∧ some r = some storedRid)) := by
          rintro ⟨rfl, h | ⟨-, h⟩⟩
          · cases h
          · exact heq (by rw [Option.some.inj h])
        have hmem : (point, r) ∈ (stored, storedRid) :: entries ↔ (point, r) ∈ entries := by
          rw [mem_cons, or_iff_right (fun h => heq h.symm)]
        rw [if_neg hne, ih, erase_cons_tail (by simpa using heq)]
        simp only [hmem]

end

/-- A node whose leaves lost what the removal takes from each of them. -/
structure Shrunk (maxEntries depth : Nat) (point : Point K) (rid : Option RID)
    (node : RTreeNode K) (removed : Nat) (node' : RTreeNode K) : Prop where
  valid : node'.isEmpty = false → Valid maxEntries depth node'
  contents : node'.contents =
    node.leafNodes.flatMap (fun entries => (removeEntries point rid false entries).2)
  ids : node'.ids.Sublist node.ids
  removed : removed =
    (node.leafNodes.map (fun entries => (removeEntries point rid false entries).1)).sum

omit [Field K]

omit [LinearOrder K] in
theorem contents_of_is_empty {node : RTreeNode K} (h : node.isEmpty = true) :
    node.contents = [] := by
  cases node with
  | leaf id entries mbr => rw [contents_leaf, List.isEmpty_iff.mp h]
  | internal id entries mbr =>
      rw [contents_internal, List.isEmpty_iff.mp h]
      rfl

theorem shrunk_of_outside {node : RTreeNode K} (h : Valid maxEntries depth node)
    (houtside : node.mbr.any (fun mbr => mbr.contains point) = false) :
    Shrunk maxEntries depth point rid node 0 node := by
  obtain ⟨box, hbox⟩ := h.mbr
  have habsent : ∀ entries ∈ node.leafNodes,
      removeEntries point rid false entries = (0, entries) := by
    intro entries hentries
    refine remove_entries_of_absent (fun e he heq => ?_)
    have hinside := h.contains hbox e (mem_flatten.mpr ⟨entries, hentries, he⟩)
    rw [hbox, Option.any_some, ← heq, hinside] at houtside
    cases houtside
  refine ⟨fun _ => h, ?_, List.Sublist.refl _, ?_⟩
  · have hcongr : node.leafNodes.flatMap
        (fun entries => (removeEntries point rid false entries).2) =
          node.leafNodes.flatMap id := by
      rw [flatMap_def, flatMap_def]
      refine congrArg flatten (map_congr_left (fun entries he => ?_))
      rw [habsent entries he]
      rfl
    rw [hcongr, flatMap_id]
    rfl
  · have hzero : node.leafNodes.map
        (fun entries => (removeEntries point rid false entries).1) =
          node.leafNodes.map (fun _ => 0) :=
      map_congr_left (fun entries he => by rw [habsent entries he])
    rw [hzero]
    simp

theorem remove_children_spec {entries : List (Option (MBR K) × RTreeNode K)}
    (hchildren : ∀ e ∈ entries, Valid maxEntries depth e.2)
    (ih : ∀ e ∈ entries, ∃ removed node', remove point rid e.2 = .ok (removed, node') ∧
      Shrunk maxEntries depth point rid e.2 removed node') :
    ∃ removed keep, removeChildren point rid entries = .ok (removed, keep) ∧
      (∀ e ∈ keep, Valid maxEntries depth e.2) ∧
      contentsOf keep = (leafNodesOf entries).flatMap
        (fun entries => (removeEntries point rid false entries).2) ∧
      (idsOf keep).Sublist (idsOf entries) ∧ keep.length ≤ entries.length ∧
      removed = ((leafNodesOf entries).map
        (fun entries => (removeEntries point rid false entries).1)).sum := by
  induction entries with
  | nil =>
      refine ⟨0, [], by rw [removeChildren], fun _ he => absurd he not_mem_nil, ?_,
        List.Sublist.refl _, le_refl _, ?_⟩
      · rw [leafNodesOf, flatMap_nil]
        rfl
      · rw [leafNodesOf, map_nil, sum_nil]
  | cons e entries ih' =>
      obtain ⟨box, child⟩ := e
      obtain ⟨more, keep, hrest, hvalid, hcontents, hids, hlength, hmore⟩ :=
        ih' (fun e he => hchildren e (mem_cons_of_mem _ he))
          (fun e he => ih e (mem_cons_of_mem _ he))
      have hchild : Valid maxEntries depth child := hchildren (box, child) mem_cons_self
      obtain ⟨removed, child', hremove, hshrunk⟩ : ∃ removed node',
          (if child.mbr.any (fun mbr => mbr.contains point) = true then remove point rid child
            else .ok (0, child)) = .ok (removed, node') ∧
          Shrunk maxEntries depth point rid child removed node' := by
        by_cases hinside : child.mbr.any (fun mbr => mbr.contains point) = true
        · rw [if_pos hinside]
          exact ih (box, child) mem_cons_self
        · rw [if_neg hinside]
          exact ⟨0, child, rfl, shrunk_of_outside hchild (Bool.eq_false_iff.mpr hinside)⟩
      rw [removeChildren, hremove, ok_bind]
      dsimp only
      rw [hrest, ok_bind]
      refine ⟨_, _, rfl, ?_, ?_, ?_, ?_, ?_⟩
      · intro e he
        split at he
        · exact hvalid e he
        · next hempty =>
            rcases mem_cons.mp he with rfl | he
            · exact hshrunk.valid (Bool.eq_false_iff.mpr hempty)
            · exact hvalid e he
      · rw [leafNodesOf, flatMap_append, ← hshrunk.contents, ← hcontents]
        split
        · next hempty => rw [contents_of_is_empty hempty, nil_append]
        · rw [contents_of_cons]
      · rw [idsOf]
        split
        · exact hids.trans (sublist_append_right _ _)
        · rw [idsOf]
          exact hshrunk.ids.append hids
      · split
        · exact hlength.trans (Nat.le_succ _)
        · exact Nat.succ_le_succ hlength
      · rw [leafNodesOf, map_append, sum_append, ← hshrunk.removed, ← hmore]

/-- Removal below a node returns, and takes from each leaf what the loop over it takes. -/
theorem remove_spec {node : RTreeNode K} (h : Valid maxEntries depth node) :
    ∃ removed node', remove point rid node = .ok (removed, node') ∧
      Shrunk maxEntries depth point rid node removed node' := by
  induction h with
  | @leaf id entries box hne hfits hbounds =>
      rw [remove]
      dsimp only
      have hlength : (removeEntries point rid false entries).2.length ≤ entries.length := by
        cases rid with
        | none =>
            rw [remove_entries_all]
            exact length_filter_le _ _
        | some r =>
            rw [remove_entries_one]
            exact length_erase_le
      have hmbr : ∃ mbr, computeMbr pointMbr (removeEntries point rid false entries).2 =
          .ok mbr ∧ ((removeEntries point rid false entries).2 ≠ [] → ∃ box, mbr = some box ∧
            Bounds pointMbr (removeEntries point rid false entries).2 box) := by
        by_cases hnil : (removeEntries point rid false entries).2 = []
        · exact ⟨none, by rw [hnil, computeMbr], fun h => absurd hnil h⟩
        · obtain ⟨box, hbox, hbounds⟩ := compute_mbr_spec hnil (boxed_points _)
          exact ⟨some box, hbox, fun _ => ⟨box, rfl, hbounds⟩⟩
      obtain ⟨mbr, hmbr, hbox⟩ := hmbr
      rw [hmbr, ok_bind]
      refine ⟨_, _, rfl, ?_, ?_, ?_, ?_⟩
      · intro hempty
        have hnil := isEmpty_eq_false_iff.mp hempty
        obtain ⟨box, rfl, hbounds⟩ := hbox hnil
        exact .leaf hnil (hlength.trans hfits) hbounds
      · rw [contents_leaf, leafNodes, flatMap_singleton]
      · rw [ids_leaf, ids_leaf]
      · rw [leafNodes, map_singleton, sum_singleton]
  | @internal depth id entries box hne hfits hbounds hchildren ih =>
      obtain ⟨removed, keep, hkeep, hvalid, hcontents, hids, hlength, hremoved⟩ :=
        remove_children_spec hchildren ih
      rw [remove, hkeep, ok_bind]
      dsimp only
      have hmbr : ∃ mbr, computeMbr childMbr keep = .ok mbr ∧
          (keep ≠ [] → ∃ box, mbr = some box ∧ Bounds childMbr keep box) := by
        by_cases hnil : keep = []
        · exact ⟨none, by rw [hnil, computeMbr], fun h => absurd hnil h⟩
        · obtain ⟨box, hbox, hbounds⟩ := compute_mbr_spec hnil (boxed_children hvalid)
          exact ⟨some box, hbox, fun _ => ⟨box, rfl, hbounds⟩⟩
      obtain ⟨mbr, hmbr, hbox⟩ := hmbr
      rw [hmbr, ok_bind]
      refine ⟨_, _, rfl, ?_, ?_, ?_, ?_⟩
      · intro hempty
        have hnil := isEmpty_eq_false_iff.mp hempty
        obtain ⟨box, rfl, hbounds⟩ := hbox hnil
        exact .internal hnil (hlength.trans hfits) hbounds hvalid
      · rw [contents_internal, hcontents, leafNodes]
      · rw [ids_internal, ids_internal]
        exact hids.cons_cons id
      · rw [hremoved, leafNodes]

end Remove

end RTreeNode
end SoupDB
