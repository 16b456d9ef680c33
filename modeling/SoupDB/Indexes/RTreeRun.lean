import SoupDB.Indexes.RTreeInvariant

/-!
# SoupDB: runs of the R-tree

`Sound` is the invariant of a tree, and `update` what a call does to a multiset of pairs: an
insertion adds one, a removal takes one pair or all pairs of a point.

Main fact: `holds_inserted_minus_removed`.  In every run every call returns, the tree stays
sound and searches answer what its leaves hold; and the leaves hold the inserted minus the
removed pairs exactly as long as no removal of a pair finds it in two leaves.
-/

namespace SoupDB.RTree

open List

variable {K : Type} [Field K] [LinearOrder K]

open RTreeNode

/-! ## Trees as multisets -/

section Contents

omit [Field K] [LinearOrder K]

/-- The entries of each leaf. -/
def leafNodes (t : RTree K) : List (List (Point K × RID)) :=
  match t.root with
  | none => []
  | some root => root.leafNodes

/-- The entries of the leaves. -/
def contents (t : RTree K) : List (Point K × RID) := t.leafNodes.flatten

end Contents

omit [Field K] in
/-- The root is valid, and no node is reached twice. -/
structure Sound (order : Nat) (t : RTree K) : Prop where
  order_eq : t.order = order
  valid : ∀ root, t.root = some root → ∃ depth, Valid order depth root
  distinct : ∀ root, t.root = some root → root.ids.Nodup
  fresh : ∀ root, t.root = some root → ∀ i ∈ root.ids, i < t.next

/-! ## Calls -/

inductive Call (K : Type)
  | insert (point : Point K) (rid : RID)
  | search (point : Point K)
  | rangeSearch (lo hi : Point K)
  | remove (point : Point K) (rid : Option RID)

/-- What a call returns. -/
inductive Answer
  | done
  | rids (found : List RID)
  | count (removed : Nat)
deriving DecidableEq

def perform (t : RTree K) : Call K → Except PyError (Answer × RTree K)
  | .insert point rid => do
      let t ← t.insert point rid
      .ok (.done, t)
  | .search point => do
      let found ← t.search point
      .ok (.rids found, t)
  | .rangeSearch lo hi => do
      let found ← t.rangeSearch lo hi
      .ok (.rids found, t)
  | .remove point rid => do
      let (removed, t) ← t.remove point rid
      .ok (.count removed, t)

/-- The tree after a call; one that raises is not followed. -/
def step (t : RTree K) (c : Call K) : RTree K :=
  match t.perform c with
  | .ok (_, t') => t'
  | .error _ => t

section Spec

omit [Field K]

/-- The point lies in the rectangle with the two corners. -/
def inside (lo hi point : Point K) : Bool :=
  min lo.x hi.x ≤ point.x && point.x ≤ max lo.x hi.x &&
    min lo.y hi.y ≤ point.y && point.y ≤ max lo.y hi.y

/-- The answer is that of the entries of the leaves.  A removal of a pair counts the leaves
that hold it. -/
def Answers (t : RTree K) : Call K → Answer → Prop
  | .insert _ _, .done => True
  | .search point, .rids found =>
      found = (t.contents.filter (fun e => e.1 = point)).map Prod.snd
  | .rangeSearch lo hi, .rids found =>
      found = (t.contents.filter (fun e => inside lo hi e.1)).map Prod.snd
  | .remove point none, .count removed =>
      removed = t.contents.countP (fun e => e.1 = point)
  | .remove point (some rid), .count removed =>
      removed = t.leafNodes.countP (fun entries => (point, rid) ∈ entries)
  | _, _ => False

/-- A removal of a pair finds it in one leaf at most. -/
def OneLeaf (t : RTree K) : Call K → Prop
  | .remove point (some rid) => t.leafNodes.countP (fun entries => (point, rid) ∈ entries) ≤ 1
  | _ => True

instance (t : RTree K) (c : Call K) : Decidable (t.OneLeaf c) := by
  unfold OneLeaf
  split <;> infer_instance

/-- What a call does to the pairs. -/
def update (m : Multiset (Point K × RID)) : Call K → Multiset (Point K × RID)
  | .insert point rid => (point, rid) ::ₘ m
  | .remove point none => m.filter (fun e => e.1 ≠ point)
  | .remove point (some rid) => m.erase (point, rid)
  | _ => m

end Spec

/-! ## One call -/

section Step

variable {order : Nat} {t : RTree K}

theorem insert_spec (h : Sound order t) (horder : 2 ≤ order) (point : Point K) (rid : RID) :
    ∃ t', t.insert point rid = .ok t' ∧ Sound order t' ∧
      t'.contents.Perm (t.contents ++ [(point, rid)]) := by
  obtain ⟨o, root, next⟩ := t
  obtain rfl : o = order := h.order_eq
  cases root with
  | none =>
      refine ⟨_, rfl, ⟨rfl, ?_, ?_, ?_⟩, ?_⟩
      · rintro _ ⟨⟩
        exact ⟨0, .leaf (cons_ne_nil _ _) (by simpa using le_of_lt horder)
          (bounds_singleton rfl)⟩
      · rintro _ ⟨⟩
        rw [ids_leaf]
        exact nodup_singleton _
      · rintro _ ⟨⟩ i hi
        rw [ids_leaf, mem_singleton] at hi
        rw [hi]
        exact Nat.lt_succ_self _
      · exact List.Perm.refl [(point, rid)]
  | some root =>
      obtain ⟨depth, hvalid⟩ := h.valid root rfl
      obtain ⟨node', promoted, next', hinto, hgrown⟩ :=
        @insert_into_spec K _ _ o depth point rid root (by omega) hvalid next
      have hnodup : ((node' :: promoted.toList).flatMap ids).Nodup := by
        refine hgrown.ids.nodup_iff.mpr (nodup_append.mpr ⟨h.distinct root rfl,
          nodup_range', fun i hi j hj => ?_⟩)
        have hlt := h.fresh root rfl i hi
        have hle := (mem_range'_1.mp hj).1
        dsimp only at hlt
        omega
      have hfresh : ∀ i ∈ (node' :: promoted.toList).flatMap ids, i < next' := by
        intro i hi
        have hle := hgrown.next_le
        rcases mem_append.mp (hgrown.ids.mem_iff.mp hi) with hi | hi
        · have hlt := h.fresh root rfl i hi
          dsimp only at hlt
          omega
        · have hlt := (mem_range'_1.mp hi).2
          omega
      rw [insert]
      dsimp only
      rw [hinto, ok_bind]
      cases promoted with
      | none =>
          rw [Option.toList_none, flatMap_singleton] at hnodup hfresh
          have hperm := hgrown.contents
          rw [Option.toList_none, flatMap_singleton] at hperm
          refine ⟨_, rfl, ⟨rfl, ?_, ?_, ?_⟩, hperm⟩
          · rintro _ ⟨⟩
            exact ⟨depth, hgrown.valid node' (by simp)⟩
          · rintro _ ⟨⟩
            exact hnodup
          · rintro _ ⟨⟩
            exact hfresh
      | some promoted =>
          have hchildren : ∀ e ∈ [(node'.mbr, node'), (promoted.mbr, promoted)],
              Valid o depth e.2 := by
            intro e he
            rcases mem_cons.mp he with rfl | he
            · exact hgrown.valid node' (by simp)
            · obtain rfl := mem_singleton.mp he
              exact hgrown.valid promoted (by simp)
          obtain ⟨box, hbox, hbounds⟩ := compute_mbr_spec (cons_ne_nil _ _)
            (boxed_children hchildren)
          have hids : idsOf [(node'.mbr, node'), (promoted.mbr, promoted)] =
              (node' :: (some promoted).toList).flatMap ids := by
            rw [ids_of_eq]
            rfl
          have hperm := hgrown.contents
          dsimp only
          rw [hbox, ok_bind]
          refine ⟨_, rfl, ⟨rfl, ?_, ?_, ?_⟩, ?_⟩
          · rintro _ ⟨⟩
            exact ⟨depth + 1, .internal (cons_ne_nil _ _) horder hbounds hchildren⟩
          · rintro _ ⟨⟩
            rw [ids_internal, hids]
            exact nodup_cons.mpr ⟨fun hmem => absurd (hfresh _ hmem) (Nat.lt_irrefl _), hnodup⟩
          · rintro _ ⟨⟩ i hi
            rw [ids_internal, hids] at hi
            rcases mem_cons.mp hi with rfl | hi
            · exact Nat.lt_succ_self _
            · exact Nat.lt_succ_of_lt (hfresh i hi)
          · rw [contents, leafNodes]
            have hcontents := contents_internal next'
              [(node'.mbr, node'), (promoted.mbr, promoted)] (some box)
            rw [RTreeNode.contents] at hcontents
            dsimp only
            rw [hcontents]
            exact hperm

section

omit [Field K]

theorem search_spec (h : Sound order t) (point : Point K) :
    t.search point = .ok ((t.contents.filter (fun e => e.1 = point)).map Prod.snd) := by
  rw [search, contents, leafNodes]
  cases hroot : t.root with
  | none => rfl
  | some root =>
      obtain ⟨depth, hvalid⟩ := h.valid root hroot
      exact RTreeNode.search_spec hvalid point

theorem range_search_spec (h : Sound order t) (lo hi : Point K) :
    t.rangeSearch lo hi =
      .ok ((t.contents.filter (fun e => inside lo hi e.1)).map Prod.snd) := by
  rw [rangeSearch, contents, leafNodes]
  cases hroot : t.root with
  | none => rfl
  | some root =>
      obtain ⟨depth, hvalid⟩ := h.valid root hroot
      exact RTreeNode.range_spec hvalid _

theorem remove_spec (h : Sound order t) (point : Point K) (rid : Option RID) :
    ∃ removed t', t.remove point rid = .ok (removed, t') ∧ Sound order t' ∧
      t'.contents =
        t.leafNodes.flatMap (fun entries => (removeEntries point rid false entries).2) ∧
      removed =
        (t.leafNodes.map (fun entries => (removeEntries point rid false entries).1)).sum := by
  obtain ⟨o, root, next⟩ := t
  obtain rfl : o = order := h.order_eq
  cases root with
  | none => exact ⟨0, _, rfl, h, rfl, rfl⟩
  | some root =>
      obtain ⟨depth, hvalid⟩ := h.valid root rfl
      obtain ⟨removed, node', hremove, hshrunk⟩ :=
        @RTreeNode.remove_spec K _ o depth point rid root hvalid
      rw [remove]
      dsimp only
      rw [hremove, ok_bind]
      refine ⟨_, _, rfl, ⟨rfl, ?_, ?_, ?_⟩, ?_, hshrunk.removed⟩
      · intro root' hroot'
        dsimp only at hroot'
        split at hroot'
        · cases hroot'
        · next hempty =>
            obtain rfl := Option.some.inj hroot'
            exact ⟨depth, hshrunk.valid (Bool.eq_false_iff.mpr hempty)⟩
      · intro root' hroot'
        dsimp only at hroot'
        split at hroot'
        · cases hroot'
        · obtain rfl := Option.some.inj hroot'
          exact hshrunk.ids.nodup (h.distinct root rfl)
      · intro root' hroot' i hi
        dsimp only at hroot'
        split at hroot'
        · cases hroot'
        · obtain rfl := Option.some.inj hroot'
          exact h.fresh root rfl i (hshrunk.ids.subset hi)
      · rw [leafNodes]
        dsimp only
        rw [← hshrunk.contents, contents, leafNodes]
        dsimp only
        by_cases hempty : node'.isEmpty = true
        · rw [if_pos hempty, contents_of_is_empty hempty]
          rfl
        · rw [if_neg hempty]
          rfl

end

/-- Every call returns, keeps the tree sound and answers for its entries; and it does to the
entries what it does to the pairs when it finds a pair to remove in one leaf at most. -/
theorem perform_spec (h : Sound order t) (horder : 2 ≤ order) (c : Call K) :
    ∃ a t', t.perform c = .ok (a, t') ∧ Sound order t' ∧ Answers t c a ∧
      ((t'.contents : Multiset (Point K × RID)) = update t.contents c ↔ t.OneLeaf c) := by
  cases c with
  | insert point rid =>
      obtain ⟨t', hinsert, hsound, hperm⟩ := insert_spec h horder point rid
      refine ⟨.done, t', by rw [perform, hinsert, ok_bind], hsound, trivial,
        iff_of_true ?_ trivial⟩
      rw [update, Multiset.cons_coe, Multiset.coe_eq_coe]
      exact hperm.trans (perm_append_singleton _ _)
  | search point =>
      refine ⟨_, t, by rw [perform, search_spec h, ok_bind], h, ?_, iff_of_true rfl trivial⟩
      rw [Answers]
  | rangeSearch lo hi =>
      refine ⟨_, t, by rw [perform, range_search_spec h, ok_bind], h, ?_,
        iff_of_true rfl trivial⟩
      rw [Answers]
  | remove point rid =>
      obtain ⟨removed, t', hremove, hsound, hcontents, hremoved⟩ := remove_spec h point rid
      refine ⟨.count removed, t', by rw [perform, hremove, ok_bind], hsound, ?_⟩
      rw [hcontents]
      cases rid with
      | none =>
          have hfilter : t.leafNodes.flatMap
              (fun entries => (removeEntries point none false entries).2) =
                t.contents.filter (fun e => e.1 ≠ point) := by
            rw [contents, filter_flatten, flatMap_def]
            simp only [remove_entries_all]
          refine ⟨?_, iff_of_true ?_ trivial⟩
          · rw [Answers, hremoved, contents, countP_flatten]
            simp only [remove_entries_all]
          · rw [hfilter, update, Multiset.filter_coe]
      | some r =>
          refine ⟨?_, ?_⟩
          · rw [Answers, hremoved]
            simp only [remove_entries_one]
            induction t.leafNodes with
            | nil => rfl
            | cons entries leaves ih =>
                rw [map_cons, sum_cons, countP_cons, ih, Nat.add_comm]
                simp only [decide_eq_true_iff]
          · have herase : ∀ entries : List (Point K × RID), entries.erase (point, r) =
                @List.erase _ instBEqOfDecidableEq entries (point, r) := by
              intro entries
              congr 1
              exact lawful_beq_subsingleton _ _
            simp only [remove_entries_one, herase]
            rw [update, Multiset.coe_erase, Multiset.coe_eq_coe]
            exact erase_parts_iff (fun entries => decide_eq_true_iff) t.leafNodes

end Step

/-! ## Runs -/

section Runs

variable {order : Nat} {t : RTree K}

theorem step_spec (h : Sound order t) (horder : 2 ≤ order) (c : Call K) :
    Sound order (step t c) ∧
      (((step t c).contents : Multiset (Point K × RID)) = update t.contents c ↔
        t.OneLeaf c) := by
  obtain ⟨a, t', hperform, hsound, -, hcontents⟩ := perform_spec h horder c
  have hstep : step t c = t' := by rw [step, hperform]
  rw [hstep]
  exact ⟨hsound, hcontents⟩

/-- The leaves hold what the calls make of the pairs, after every call of a run, exactly when
every call finds a pair to remove in one leaf at most. -/
theorem contents_exec_iff (horder : 2 ≤ order) :
    ∀ {calls : List (Call K)} {t : RTree K}, Sound order t →
      ((∀ pre, pre <+: calls → ((exec step t pre).contents : Multiset (Point K × RID)) =
        exec update (t.contents : Multiset (Point K × RID)) pre) ↔ Steps OneLeaf step t calls)
  | [], t, _ => by
      refine iff_of_true (fun pre hpre => ?_) trivial
      rw [prefix_nil.mp hpre]
      rfl
  | c :: calls, t, h => by
      obtain ⟨hsound, hstep⟩ := step_spec h horder c
      have hrest : (∀ pre, pre <+: calls →
          ((exec step (step t c) pre).contents : Multiset (Point K × RID)) =
            exec update ((step t c).contents : Multiset (Point K × RID)) pre) ↔
          Steps OneLeaf step (step t c) calls := contents_exec_iff horder hsound
      rw [Steps, ← hstep, ← hrest]
      constructor
      · intro hpre
        have hfirst : ((step t c).contents : Multiset (Point K × RID)) = update t.contents c :=
          hpre [c] ⟨calls, rfl⟩
        refine ⟨hfirst, fun pre hprefix => ?_⟩
        rw [hfirst]
        exact hpre (c :: pre) (cons_prefix_cons.mpr ⟨rfl, hprefix⟩)
      · rintro ⟨hfirst, hpre⟩ pre hprefix
        cases pre with
        | nil => rfl
        | cons c' pre =>
            obtain ⟨rfl, htail⟩ := cons_prefix_cons.mp hprefix
            have hlast := hpre pre htail
            rw [hfirst] at hlast
            exact hlast

/-- The tree of no entries. -/
def empty (order : Nat) : RTree K := ⟨order, none, 0⟩

omit [Field K] in
theorem sound_empty (order : Nat) : Sound order (empty order : RTree K) := by
  refine ⟨rfl, ?_, ?_, ?_⟩
  · rintro _ ⟨⟩
  · rintro _ ⟨⟩
  · rintro _ ⟨⟩

/-- In every run every call returns and is answered from the leaves, and the tree stays sound;
the leaves hold the inserted minus the removed pairs after every call exactly when no removal
of a pair finds it in two leaves. -/
theorem holds_inserted_minus_removed (order : Nat) (horder : 2 ≤ order) (calls : List (Call K)) :
    construct order = .ok (empty order : RTree K) ∧
      Always (Sound order) step (empty order) calls ∧
      Steps (fun t c => ∃ a t', t.perform c = .ok (a, t') ∧ Answers t c a) step (empty order)
        calls ∧
      ((∀ pre, pre <+: calls →
        ((exec step (empty order) pre).contents : Multiset (Point K × RID)) =
          exec update 0 pre) ↔ Steps OneLeaf step (empty order) calls) := by
  have hsound : Sound order (empty order : RTree K) := sound_empty order
  refine ⟨?_, ?_, ?_, ?_⟩
  · rw [construct, if_neg (by omega)]
    rfl
  · exact always_of_every_step (fun t c h => (step_spec h horder c).1) calls hsound
  · have hstep : ∀ (t : RTree K) (c : Call K), Sound order t → True →
        (∃ a t', t.perform c = .ok (a, t') ∧ Answers t c a) ∧ Sound order (step t c) := by
      intro t c h _
      obtain ⟨a, t', hperform, -, hanswers, -⟩ := perform_spec h horder c
      exact ⟨⟨a, t', hperform, hanswers⟩, (step_spec h horder c).1⟩
    exact steps_of_steps hstep hsound (steps_of_forall _ (fun _ _ => trivial))
  · exact contents_exec_iff horder hsound

/-! ### One pair in two leaves -/

def origin : Point ℚ := ⟨0, 0⟩

/-- Two points, one of them with two RIDs, and a pair inserted again after it was removed. -/
def fewCalls : List (Call ℚ) :=
  [.insert origin ⟨0, 0⟩, .insert ⟨3, 4⟩ ⟨0, 1⟩, .insert origin ⟨0, 2⟩, .search origin,
    .remove origin (some ⟨0, 0⟩), .rangeSearch ⟨3, 4⟩ origin, .insert origin ⟨0, 0⟩,
    .remove origin none]

theorem holds_inserted_minus_removed_of_few_calls :
    2 ≤ 2 ∧ (exec step (empty 2) fewCalls).contents = [(⟨3, 4⟩, ⟨0, 1⟩)] ∧
      ((∀ pre, pre <+: fewCalls →
        ((exec step (empty 2) pre).contents : Multiset (Point ℚ × RID)) =
          exec update 0 pre) ↔ Steps OneLeaf step (empty 2) fewCalls) :=
  ⟨le_refl 2, by decide +kernel,
    (holds_inserted_minus_removed 2 (le_refl 2) fewCalls).2.2.2⟩

/-- A pair that was inserted three times. -/
def repeatedPair : List (Call ℚ) :=
  [.insert origin ⟨0, 0⟩, .insert origin ⟨0, 0⟩, .insert origin ⟨0, 0⟩]

/-- Removing one pair takes two, one from each leaf. -/
theorem pair_removed_twice :
    ((exec step (empty 2) repeatedPair).remove origin (some ⟨0, 0⟩)).map Prod.fst = .ok 2 ∧
      (exec step (empty 2) (repeatedPair ++ [.remove origin (some ⟨0, 0⟩)])).contents =
        [(origin, ⟨0, 0⟩)] ∧
      exec update 0 (repeatedPair ++ [.remove origin (some ⟨0, 0⟩)]) =
        {(origin, ⟨0, 0⟩), (origin, ⟨0, 0⟩)} := by
  refine ⟨by decide +kernel, by decide +kernel, by decide +kernel⟩

end Runs

end SoupDB.RTree
