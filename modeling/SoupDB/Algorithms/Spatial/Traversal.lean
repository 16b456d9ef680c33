import SoupDB.Indexes.RTreeInvariant
import Mathlib.Algebra.Order.BigOperators.Group.List

/-!
# SoupDB: traversal of R-trees

The searches over an R-tree keep a stack of nodes and enter the children whose boxes pass a test.
In a well-formed tree every box contains what is below it, so a search that enters the boxes of
all points it keeps finds all of them, in the order of the leaves.

Main facts: `contains_of_wellFormed` and `search_from_eq`.
-/

namespace SoupDB

open List

variable {K : Type} [LinearOrder K]

namespace RTreeNode

/-- Every box contains what is below it.  Only a node without entries has no box. -/
inductive WellFormed : RTreeNode K → Prop
  | leaf {id : Nat} {entries : List (Point K × RID)} {mbr : Option (MBR K)}
      (points : ∀ e ∈ entries, ∃ box, mbr = some box ∧ box.contains e.1 = true) :
      WellFormed (.leaf id entries mbr)
  | internal {id : Nat} {entries : List (Option (MBR K) × RTreeNode K)} {mbr : Option (MBR K)}
      (boxed : entries ≠ [] → mbr ≠ none)
      (boxes : ∀ e ∈ entries, ∀ inner, e.2.mbr = some inner →
        ∃ box, mbr = some box ∧ inner ≤ box)
      (children : ∀ e ∈ entries, WellFormed e.2) : WellFormed (.internal id entries mbr)

/-- The trees that insertions and removals keep are well-formed. -/
theorem Valid.wellFormed {maxEntries depth : Nat} {node : RTreeNode K}
    (h : Valid maxEntries depth node) : WellFormed node := by
  induction h with
  | leaf _ _ hbounds =>
      refine .leaf fun e he => ⟨_, rfl, MBR.contains_iff.mpr (hbounds.le he rfl)⟩
  | internal _ _ hbounds hchildren ih =>
      refine .internal (fun _ => Option.some_ne_none _) (fun e he inner hinner => ?_) ih
      exact ⟨_, rfl, hbounds.le he hinner⟩

section WellFormed

variable {node : RTreeNode K} {box : MBR K}

theorem WellFormed.is_empty_of_no_box (h : WellFormed node) (hmbr : node.mbr = none) :
    node.isEmpty = true := by
  cases h with
  | @leaf id entries mbr points =>
      cases entries with
      | nil => rfl
      | cons e entries =>
          obtain ⟨box, hbox, _⟩ := points e mem_cons_self
          rw [RTreeNode.mbr, hbox] at hmbr
          cases hmbr
  | @internal id entries mbr boxed _ _ =>
      cases entries with
      | nil => rfl
      | cons e entries => exact absurd hmbr (boxed (cons_ne_nil _ _))

theorem contents_of_no_box (h : WellFormed node) (hmbr : node.mbr = none) :
    node.contents = [] :=
  contents_of_is_empty (h.is_empty_of_no_box hmbr)

theorem contains_of_wellFormed (h : WellFormed node) :
    ∀ e ∈ node.contents, ∃ box, node.mbr = some box ∧ box.contains e.1 = true := by
  induction h with
  | leaf points =>
      rw [contents_leaf]
      exact points
  | @internal id entries mbr _ boxes _ ih =>
      rw [contents_internal, contentsOf]
      intro e he
      obtain ⟨child, hchild, he⟩ := mem_flatMap.mp he
      obtain ⟨inner, hinner, hcontains⟩ := ih child hchild e he
      obtain ⟨box, hbox, hle⟩ := boxes child hchild inner hinner
      exact ⟨box, hbox, MBR.contains_iff.mpr ((MBR.contains_iff.mp hcontains).trans hle)⟩

end WellFormed

/-! ## The traversal -/

/-- `iterChildNodes`: the children that have a box. -/
def iterChildNodes : List (Option (MBR K) × RTreeNode K) →
    Except PyError (List (MBR K × RTreeNode K))
  | [] => .ok []
  | (_, child) :: entries =>
      match child.mbr with
      | none =>
          if child.isEmpty then iterChildNodes entries
          else .error (.RuntimeError "non-empty R-Tree child without MBR")
      | some box => do
          let children ← iterChildNodes entries
          .ok ((box, child) :: children)

section Traverse

variable (enter : MBR K → Bool) (keep : Point K → Bool)

/-- The loop over the stack of nodes, its top first.  Each turn takes one node, so the number of
nodes is enough fuel. -/
def traverse : Nat → List (RTreeNode K) → Except PyError (List (Point K × RID))
  | _, [] => .ok []
  | 0, _ :: _ => .error .NonTermination
  | fuel + 1, .leaf _ entries _ :: stack => do
      let rest ← traverse fuel stack
      .ok (entries.filter (fun e => keep e.1) ++ rest)
  | fuel + 1, .internal _ entries _ :: stack => do
      let children ← iterChildNodes entries
      traverse fuel ((children.filter (fun c => enter c.1)).map Prod.snd ++ stack)

/-- The search from the root, which must pass the test as well. -/
def searchFrom (root : Option (RTreeNode K)) : Except PyError (List (Point K × RID)) :=
  match root with
  | none => .ok []
  | some root =>
      match root.mbr with
      | none => .ok []
      | some box => if !enter box then .ok [] else traverse enter keep root.ids.length [root]

end Traverse

section Found

variable {enter : MBR K → Bool} {keep : Point K → Bool}
  {entries : List (Option (MBR K) × RTreeNode K)} {stack : List (RTreeNode K)} {fuel : Nat}

/-- The children that have a box, and nothing is left out. -/
theorem iter_child_nodes_eq (h : ∀ e ∈ entries, WellFormed e.2) :
    ∃ children, iterChildNodes entries = .ok children ∧
      contentsOf entries = children.flatMap (fun c => c.2.contents) ∧
      (children.map Prod.snd).Sublist (entries.map Prod.snd) ∧
      ∀ c ∈ children, c.2.mbr = some c.1 := by
  induction entries with
  | nil => exact ⟨[], rfl, rfl, List.Sublist.refl _, fun _ hc => nomatch hc⟩
  | cons e entries ih =>
      obtain ⟨he, hentries⟩ := forall_mem_cons.mp h
      obtain ⟨children, hchildren, hcontents, hsub, hboxes⟩ := ih hentries
      rw [iterChildNodes]
      cases hmbr : e.2.mbr with
      | none =>
          refine ⟨children, ?_, ?_, hsub.cons _, hboxes⟩
          · dsimp only
            rw [if_pos (he.is_empty_of_no_box hmbr), hchildren]
          · rw [contents_of_cons, contents_of_no_box he hmbr, nil_append, hcontents]
      | some box =>
          refine ⟨(box, e.2) :: children, ?_, ?_, hsub.cons_cons _, ?_⟩
          · dsimp only
            rw [hchildren, ok_bind]
          · rw [contents_of_cons, hcontents, flatMap_cons]
          · exact forall_mem_cons.mpr ⟨hmbr, hboxes⟩

/-- The nodes below the stack. -/
def stackSize (stack : List (RTreeNode K)) : Nat := (stack.map (fun n => n.ids.length)).sum

omit [LinearOrder K] in
theorem length_ids_pos (node : RTreeNode K) : 1 ≤ node.ids.length := by
  cases node with
  | leaf => simp
  | internal => simp

omit [LinearOrder K] in
theorem stack_size_le {nodes : List (RTreeNode K)} (hsub : nodes.Sublist (entries.map Prod.snd)) :
    stackSize nodes ≤ (idsOf entries).length := by
  have hlength : (idsOf entries).length = stackSize (entries.map Prod.snd) := by
    rw [ids_of_eq, length_flatMap, stackSize, map_map]
    rfl
  rw [hlength]
  exact (hsub.map _).sum_le_sum fun _ _ => Nat.zero_le _

theorem filter_entered {children : List (MBR K × RTreeNode K)}
    (hsound : ∀ box point, box.contains point = true → keep point = true → enter box = true)
    (hwell : ∀ c ∈ children, WellFormed c.2) (hboxes : ∀ c ∈ children, c.2.mbr = some c.1) :
    (children.flatMap (fun c => c.2.contents)).filter (fun e => keep e.1) =
      (((children.filter (fun c => enter c.1)).map Prod.snd).flatMap contents).filter
        (fun e => keep e.1) := by
  induction children with
  | nil => rfl
  | cons c children ih =>
      obtain ⟨hc, hwell⟩ := forall_mem_cons.mp hwell
      obtain ⟨hbox, hboxes⟩ := forall_mem_cons.mp hboxes
      rw [flatMap_cons, filter_append, ih hwell hboxes]
      by_cases henter : enter c.1 = true
      · rw [filter_cons_of_pos (by simpa using henter), map_cons, flatMap_cons,
          filter_append]
      · have hnone : c.2.contents.filter (fun e => keep e.1) = [] := by
          rw [filter_eq_nil_iff]
          intro e he hkeep
          obtain ⟨box, hmbr, hcontains⟩ := contains_of_wellFormed hc e he
          rw [hbox] at hmbr
          cases hmbr
          exact henter (hsound _ _ hcontains hkeep)
        rw [hnone, nil_append, filter_cons_of_neg (by simpa using henter)]

theorem traverse_eq (hsound : ∀ box point, box.contains point = true → keep point = true →
    enter box = true) (hstack : ∀ node ∈ stack, WellFormed node) (hfuel : stackSize stack ≤ fuel) :
    traverse enter keep fuel stack =
      .ok ((stack.flatMap contents).filter (fun e => keep e.1)) := by
  induction fuel generalizing stack with
  | zero =>
      cases stack with
      | nil => rfl
      | cons node stack =>
          have hpos := length_ids_pos node
          rw [stackSize, map_cons, sum_cons] at hfuel
          omega
  | succ fuel ih =>
      cases stack with
      | nil => rfl
      | cons node stack =>
          obtain ⟨hnode, hrest⟩ := forall_mem_cons.mp hstack
          rw [stackSize, map_cons, sum_cons] at hfuel
          rw [flatMap_cons, filter_append]
          cases hnode with
          | @leaf id entries mbr _ =>
              rw [ids_leaf, length_singleton] at hfuel
              rw [traverse, ih hrest (by rw [stackSize]; omega), ok_bind, contents_leaf]
          | @internal id entries mbr _ _ hchildren =>
              obtain ⟨children, hiter, hcontents, hsub, hboxes⟩ := iter_child_nodes_eq hchildren
              rw [ids_internal, length_cons] at hfuel
              rw [traverse, hiter, ok_bind, contents_internal, hcontents]
              have hmem : ∀ c ∈ children, WellFormed c.2 := by
                intro c hc
                obtain ⟨e, he, heq⟩ := mem_map.mp (hsub.subset (mem_map_of_mem hc))
                rw [← heq]
                exact hchildren e he
              rw [ih ?_ ?_]
              · rw [flatMap_append, filter_append, filter_entered hsound hmem hboxes]
              · intro n hn
                rcases mem_append.mp hn with hn | hn
                · obtain ⟨c, hc, rfl⟩ := mem_map.mp hn
                  exact hmem c (mem_of_mem_filter hc)
                · exact hrest n hn
              · have hlen := stack_size_le
                  (((filter_sublist (p := fun c => enter c.1)).map Prod.snd).trans hsub)
                rw [stackSize, map_append, sum_append]
                rw [stackSize] at hlen
                omega

/-- What a well-formed tree holds. -/
def stored (root : Option (RTreeNode K)) : List (Point K × RID) :=
  match root with
  | none => []
  | some root => root.contents

theorem search_from_eq (hsound : ∀ box point, box.contains point = true → keep point = true →
    enter box = true) {root : Option (RTreeNode K)} (hroot : ∀ node ∈ root, WellFormed node) :
    searchFrom enter keep root = .ok ((stored root).filter (fun e => keep e.1)) := by
  cases root with
  | none => rfl
  | some root =>
      have hwell := hroot root rfl
      rw [searchFrom, stored]
      cases hmbr : root.mbr with
      | none => rw [contents_of_no_box hwell hmbr, filter_nil]
      | some box =>
          dsimp only
          by_cases henter : enter box = true
          · rw [henter, Bool.not_true, if_neg Bool.false_ne_true, traverse_eq hsound
              (forall_mem_singleton.mpr hwell) (by simp [stackSize]), flatMap_singleton]
          · have hnone : root.contents.filter (fun e => keep e.1) = [] := by
              rw [filter_eq_nil_iff]
              intro e he hkeep
              obtain ⟨box', hmbr', hcontains⟩ := contains_of_wellFormed hwell e he
              rw [hmbr] at hmbr'
              cases hmbr'
              exact henter (hsound _ _ hcontains hkeep)
            rw [Bool.not_eq_true] at henter
            rw [henter, Bool.not_false, if_pos rfl, hnone]

end Found

end RTreeNode

end SoupDB
