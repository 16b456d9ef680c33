import SoupDB.Indexes.BPlusTree
import Mathlib.Data.List.MinMax

/-!
# SoupDB: the boundary at which a node is split

A node that is too full is split in two at a boundary where both halves fit in pages
(`leafBoundaries`, `internalBoundaries`), of several at the one nearest to the middle.

Main facts: `choose_leaf_split_eq` and `choose_internal_split_eq`.  The methods try the positions
one by one and find this boundary; they raise exactly when there is none.
-/

namespace SoupDB

open List

/-! ## The first of a sorted list that passes a test -/

section Nearest

variable {α : Type} {f : α → Nat} {p : α → Bool}

theorem find?_orderedInsert (a : α) {ys : List α} (hsorted : ys.Pairwise (fun x y => f x ≤ f y)) :
    (ys.orderedInsert (fun x y => f x ≤ f y) a).find? p =
      if p a then some ((ys.find? p).elim a (fun c => if f c < f a then c else a))
      else ys.find? p := by
  induction ys with
  | nil =>
      rw [orderedInsert, find?_singleton]
      rfl
  | cons y ys ih =>
      obtain ⟨hle, hsorted⟩ := pairwise_cons.mp hsorted
      rw [orderedInsert]
      split
      · next hay =>
          rw [find?_cons]
          cases hp : p a with
          | false => rfl
          | true =>
              rw [if_pos rfl]
              refine congrArg some ?_
              cases hfind : (y :: ys).find? p with
              | none => rfl
              | some c =>
                  have hya : f a ≤ f c := by
                    rcases mem_cons.mp (mem_of_find?_eq_some hfind) with rfl | hc
                    · exact hay
                    · exact hay.trans (hle c hc)
                  exact (if_neg (by omega)).symm
      · next hya =>
          rw [find?_cons, find?_cons, ih hsorted]
          cases hy : p y with
          | false => rfl
          | true =>
              dsimp only
              rw [Option.elim_some, if_pos (not_le.mp hya)]
              exact (ite_self _).symm

/-- Sorted by a number, the first element that passes is the least that passes. -/
theorem find?_insertionSort (xs : List α) :
    (xs.insertionSort (fun x y => f x ≤ f y)).find? p = (xs.filter p).argmin f := by
  have : Std.Total (fun x y : α => f x ≤ f y) := ⟨fun x y => le_total _ _⟩
  have : IsTrans α (fun x y => f x ≤ f y) := ⟨fun x y z hxy hyz => hxy.trans hyz⟩
  induction xs with
  | nil => rfl
  | cons x xs ih =>
      rw [insertionSort_cons, find?_orderedInsert x (pairwise_insertionSort _ xs), ih]
      cases hp : p x with
      | false => rw [if_neg (by simp), filter_cons_of_neg (by simp [hp])]
      | true =>
          rw [if_pos rfl, filter_cons_of_pos hp, argmin_cons]
          cases (xs.filter p).argmin f with
          | none => rfl
          | some c => exact apply_ite some _ _ _

end Nearest

namespace BPlusTree

open BPlusPage

theorem firstValid_eq {α : Type} {build : Nat → α} {check : α → Except PyError Unit}
    {failure : String} {positions : List Nat}
    (hrefuse : ∀ position ∈ positions, ∀ e, check (build position) = .error e →
      ∃ m, e = .ValueError m) :
    firstValid build check failure positions =
      (positions.find? (fun position => (check (build position)).isOk)).elim
        (.error (.ValueError failure)) (fun position => .ok (build position)) := by
  induction positions with
  | nil => rfl
  | cons position positions ih =>
      unfold firstValid
      rw [find?_cons]
      cases hcheck : check (build position) with
      | ok u => rfl
      | error e =>
          obtain ⟨m, rfl⟩ := hrefuse position (by simp) e hcheck
          exact ih (fun q hq => hrefuse q (mem_cons_of_mem _ hq))

/-! ## Leaves -/

section Leaves

variable (pageSize : Nat) (entries : List Entry) (parentPageId rightPageId : Int)
  (oldNextLeafPageId : Option Int)

/-- The positions at which both leaves of a split have entries and fit in pages. -/
def leafBoundaries : List Nat :=
  (range' 1 (entries.length - 1)).filter (fun position =>
    let nodes := leafSplitAt entries parentPageId rightPageId oldNextLeafPageId position
    (encodeLeaf pageSize nodes.1).isOk && (encodeLeaf pageSize nodes.2).isOk)

/-- The split of a leaf at the boundary nearest to the middle, the first of two. -/
def leafSplit : Option (LeafNode × LeafNode) :=
  ((leafBoundaries pageSize entries parentPageId rightPageId oldNextLeafPageId).argmin
    (fun position : Nat => ((entries.length : Int) - 2 * position).natAbs)).map
      (leafSplitAt entries parentPageId rightPageId oldNextLeafPageId)

variable {pageSize entries parentPageId rightPageId oldNextLeafPageId}

theorem mem_leafBoundaries {position : Nat} :
    position ∈ leafBoundaries pageSize entries parentPageId rightPageId oldNextLeafPageId ↔
      (0 < position ∧ position < entries.length) ∧
      (∃ page, encodeLeaf pageSize (leafSplitAt entries parentPageId rightPageId
        oldNextLeafPageId position).1 = .ok page) ∧
      ∃ page, encodeLeaf pageSize (leafSplitAt entries parentPageId rightPageId
        oldNextLeafPageId position).2 = .ok page := by
  rw [leafBoundaries, mem_filter, mem_range'_1, Bool.and_eq_true, isOk_iff, isOk_iff]
  refine and_congr_left (fun _ => ?_)
  omega

theorem leafSplit_some {left right : LeafNode}
    (h : leafSplit pageSize entries parentPageId rightPageId oldNextLeafPageId =
      some (left, right)) :
    ∃ position, 0 < position ∧ position < entries.length ∧
      leafSplitAt entries parentPageId rightPageId oldNextLeafPageId position = (left, right) ∧
      (∃ page, encodeLeaf pageSize left = .ok page) ∧
      ∃ page, encodeLeaf pageSize right = .ok page := by
  obtain ⟨position, hargmin, hat⟩ := Option.map_eq_some_iff.mp h
  obtain ⟨⟨hpos, hlt⟩, hleft, hright⟩ := mem_leafBoundaries.mp (argmin_mem hargmin)
  rw [hat] at hleft hright
  exact ⟨position, hpos, hlt, hat, hleft, hright⟩

theorem leafSplit_isSome_iff :
    (leafSplit pageSize entries parentPageId rightPageId oldNextLeafPageId).isSome = true ↔
      ∃ position,
        position ∈ leafBoundaries pageSize entries parentPageId rightPageId oldNextLeafPageId := by
  rw [leafSplit, Option.isSome_map, ← Option.ne_none_iff_isSome, Ne, argmin_eq_none]
  exact ⟨exists_mem_of_ne_nil _, fun ⟨_, hmem⟩ => ne_nil_of_mem hmem⟩

/-- The method returns the split at the boundary nearest to the middle, and raises where no
boundary leaves two leaves that fit. -/
theorem choose_leaf_split_eq (hentries : ∀ e ∈ entries, Refusable e) :
    chooseLeafSplit pageSize entries parentPageId rightPageId oldNextLeafPageId =
      (leafSplit pageSize entries parentPageId rightPageId oldNextLeafPageId).elim
        (.error (.ValueError "B+ leaf entries cannot be split into valid pages")) .ok := by
  rw [chooseLeafSplit, firstValid_eq, candidates, find?_insertionSort, leafSplit, Option.elim_map]
  · exact congrArg (fun boundaries => (argmin _ boundaries).elim _ _)
      (filter_congr (fun position _ => isOk_checks _ _))
  · intro position _ e h
    rcases bind_eq_error.mp h with h | ⟨_, -, h⟩
    · exact encode_leaf_error (fun e he => hentries e (mem_of_mem_take he)) h
    · rcases bind_eq_error.mp h with h | ⟨_, -, h⟩
      · exact encode_leaf_error (fun e he => hentries e (mem_of_mem_drop he)) h
      · cases h

end Leaves

/-! ## Internal nodes -/

section InternalNodes

variable (pageSize : Nat) (node : InternalNode) (leftParentPageId rightParentPageId : Int)

/-- The positions at which both nodes of a split keep a key and fit in pages. -/
def internalBoundaries : List Nat :=
  (range node.keys.length).filter (fun position =>
    let nodes := internalSplitAt node leftParentPageId rightParentPageId position
    decide (0 < position ∧ position + 1 < node.keys.length) &&
      (encodeInternal pageSize nodes.1).isOk && (encodeInternal pageSize nodes.2.2).isOk)

/-- The split of an internal node at the boundary nearest to the middle, the first of two. -/
def internalSplit : Option (InternalNode × Value × InternalNode) :=
  ((internalBoundaries pageSize node leftParentPageId rightParentPageId).argmin
    (fun position : Nat => ((node.keys.length : Int) - 1 - 2 * position).natAbs)).map
      (internalSplitAt node leftParentPageId rightParentPageId)

variable {pageSize node leftParentPageId rightParentPageId}

theorem mem_internalBoundaries {position : Nat} :
    position ∈ internalBoundaries pageSize node leftParentPageId rightParentPageId ↔
      (0 < position ∧ position + 1 < node.keys.length) ∧
      (∃ page, encodeInternal pageSize (internalSplitAt node leftParentPageId rightParentPageId
        position).1 = .ok page) ∧
      ∃ page, encodeInternal pageSize (internalSplitAt node leftParentPageId rightParentPageId
        position).2.2 = .ok page := by
  rw [internalBoundaries, mem_filter, mem_range, Bool.and_eq_true, Bool.and_eq_true,
    isOk_iff, isOk_iff, decide_eq_true_eq, and_assoc]
  exact and_iff_right_of_imp (fun h => by omega)

theorem internalSplit_some {left right : InternalNode} {promoted : Value}
    (h : internalSplit pageSize node leftParentPageId rightParentPageId =
      some (left, promoted, right)) :
    ∃ position < node.keys.length,
      internalSplitAt node leftParentPageId rightParentPageId position =
        (left, promoted, right) ∧
      (∃ page, encodeInternal pageSize left = .ok page) ∧
      ∃ page, encodeInternal pageSize right = .ok page := by
  obtain ⟨position, hargmin, hat⟩ := Option.map_eq_some_iff.mp h
  obtain ⟨⟨-, hlt⟩, hleft, hright⟩ := mem_internalBoundaries.mp (argmin_mem hargmin)
  rw [hat] at hleft hright
  exact ⟨position, by omega, hat, hleft, hright⟩

theorem internalSplit_isSome_iff :
    (internalSplit pageSize node leftParentPageId rightParentPageId).isSome = true ↔
      ∃ position,
        position ∈ internalBoundaries pageSize node leftParentPageId rightParentPageId := by
  rw [internalSplit, Option.isSome_map, ← Option.ne_none_iff_isSome, Ne, argmin_eq_none]
  exact ⟨exists_mem_of_ne_nil _, fun ⟨_, hmem⟩ => ne_nil_of_mem hmem⟩

/-- The method returns the split at the boundary nearest to the middle, and raises where no
boundary leaves two nodes that fit. -/
theorem choose_internal_split_eq
    (hkeys : ∀ key ∈ node.keys, ∃ field, encodeKeyField key = .ok field) :
    chooseInternalSplit pageSize node leftParentPageId rightParentPageId =
      (internalSplit pageSize node leftParentPageId rightParentPageId).elim
        (.error (.ValueError "B+ internal node cannot be split into valid pages")) .ok := by
  rw [chooseInternalSplit, firstValid_eq, candidates, find?_insertionSort, internalSplit,
    Option.elim_map]
  · refine congrArg (fun boundaries => (argmin _ boundaries).elim _ _)
      (filter_congr (fun position hmem => ?_))
    have hkept : (((internalSplitAt node leftParentPageId rightParentPageId position).1.keys.isEmpty
        || (internalSplitAt node leftParentPageId rightParentPageId
          position).2.2.keys.isEmpty) = true) ↔
        ¬ (0 < position ∧ position + 1 < node.keys.length) := by
      rw [mem_range] at hmem
      simp only [internalSplitAt, Bool.or_eq_true, isEmpty_iff_length_eq_zero,
        length_take, length_drop]
      omega
    dsimp only
    by_cases hinside : 0 < position ∧ position + 1 < node.keys.length
    · rw [if_neg (fun h => hkept.mp h hinside), decide_eq_true hinside, Bool.true_and]
      exact isOk_checks _ _
    · rw [if_pos (hkept.mpr hinside), decide_eq_false hinside]
      rfl
  · intro position _ e h
    dsimp only at h
    split at h
    · exact ⟨_, (Except.error.inj h).symm⟩
    · rcases bind_eq_error.mp h with h | ⟨_, -, h⟩
      · exact encode_internal_error (fun key hkey => hkeys key (mem_of_mem_take hkey)) h
      · rcases bind_eq_error.mp h with h | ⟨_, -, h⟩
        · exact encode_internal_error (fun key hkey => hkeys key (mem_of_mem_drop hkey)) h
        · cases h

end InternalNodes

end BPlusTree
end SoupDB
