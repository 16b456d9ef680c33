import SoupDB.Lib.Except
import Mathlib.Order.Lattice

/-!
# Sorting with a comparison that may raise

A stable sort whose comparison may raise.  `sortBy lt xs` compares elements at different
positions only.  Where each of these comparisons returns the order of a key, the sort
returns (`sortBy_ok`): a permutation of the list with ascending keys.
-/

namespace SoupDB

section SortBy

variable {ε α κ : Type}

/-- Insert an element into a sorted list, before the elements equal to it. -/
def insertBy (lt : α → α → Except ε Bool) (x : α) : List α → Except ε (List α)
  | [] => .ok [x]
  | y :: ys => do
      let smaller ← lt y x
      if smaller then do
        let rest ← insertBy lt x ys
        .ok (y :: rest)
      else .ok (x :: y :: ys)

def sortBy (lt : α → α → Except ε Bool) : List α → Except ε (List α)
  | [] => .ok []
  | x :: xs => do
      let sorted ← sortBy lt xs
      insertBy lt x sorted

/-- Sorting the images of a list by the comparison of the images. -/
theorem insertBy_map {β : Type} (lt : β → β → Except ε Bool) (f : α → β) (x : α) (xs : List α) :
    insertBy lt (f x) (xs.map f) =
      insertBy (fun a b => lt (f a) (f b)) x xs >>= fun ys => .ok (ys.map f) := by
  induction xs with
  | nil => rfl
  | cons y ys ih =>
      rw [List.map_cons, insertBy, insertBy]
      cases lt (f y) (f x) with
      | error e => rfl
      | ok smaller =>
          cases smaller with
          | false => rfl
          | true =>
              rw [ok_bind, ok_bind, if_pos rfl, if_pos rfl, ih]
              cases insertBy (fun a b => lt (f a) (f b)) x ys with
              | error e => rfl
              | ok zs => rfl

theorem sortBy_map {β : Type} (lt : β → β → Except ε Bool) (f : α → β) (xs : List α) :
    sortBy lt (xs.map f) =
      sortBy (fun a b => lt (f a) (f b)) xs >>= fun ys => .ok (ys.map f) := by
  induction xs with
  | nil => rfl
  | cons x xs ih =>
      rw [List.map_cons, sortBy, sortBy, ih]
      cases sortBy (fun a b => lt (f a) (f b)) xs with
      | error e => rfl
      | ok ys => exact insertBy_map lt f x ys

variable [LinearOrder κ] {lt : α → α → Except ε Bool} {key : α → κ}

/-- Both comparisons of two elements return the order of their keys. -/
def ComparedBy (lt : α → α → Except ε Bool) (key : α → κ) (a b : α) : Prop :=
  lt a b = .ok (decide (key a < key b)) ∧ lt b a = .ok (decide (key b < key a))

theorem insertBy_ok {x : α} : ∀ {xs : List α}, (∀ y ∈ xs, ComparedBy lt key x y) →
    xs.Pairwise (fun a b => key a ≤ key b) →
    ∃ ys, insertBy lt x xs = .ok ys ∧ ys.Perm (x :: xs) ∧
      ys.Pairwise (fun a b => key a ≤ key b) := by
  intro xs
  induction xs with
  | nil =>
      intro _ _
      exact ⟨[x], rfl, List.Perm.refl _, List.pairwise_singleton _ _⟩
  | cons y ys ih =>
      intro hcompared hsorted
      obtain ⟨hfirst, hrest⟩ := List.pairwise_cons.mp hsorted
      rw [insertBy, (hcompared y (by simp)).2, ok_bind]
      by_cases hlt : key y < key x
      · obtain ⟨zs, hinsert, hperm, hzs⟩ := ih (fun z hz => hcompared z (by simp [hz])) hrest
        refine ⟨y :: zs, ?_, ?_, ?_⟩
        · rw [if_pos (by simpa using hlt), hinsert]
          rfl
        · exact (List.Perm.cons y hperm).trans (List.Perm.swap x y ys)
        · refine List.pairwise_cons.mpr ⟨?_, hzs⟩
          intro z hz
          rcases List.mem_cons.mp (hperm.mem_iff.mp hz) with rfl | hz
          · exact hlt.le
          · exact hfirst z hz
      · refine ⟨x :: y :: ys, ?_, List.Perm.refl _, ?_⟩
        · rw [if_neg (by simpa using hlt)]
        · refine List.pairwise_cons.mpr ⟨?_, hsorted⟩
          intro z hz
          rcases List.mem_cons.mp hz with rfl | hz
          · exact not_lt.mp hlt
          · exact (not_lt.mp hlt).trans (hfirst z hz)

/-- A list in which nothing is before what precedes it stays as it is. -/
theorem sortBy_of_ordered {xs : List α} (h : xs.Pairwise (fun a b => lt b a = .ok false)) :
    sortBy lt xs = .ok xs := by
  induction h with
  | nil => rfl
  | @cons x xs hx _ ih =>
      rw [sortBy, ih, ok_bind]
      cases xs with
      | nil => rfl
      | cons y ys =>
          rw [insertBy, hx y List.mem_cons_self, ok_bind]
          rfl

/-- The sort returns a permutation of the list with ascending keys. -/
theorem length_insertBy {x : α} {xs ys : List α} (h : insertBy lt x xs = .ok ys) :
    ys.length = xs.length + 1 := by
  induction xs generalizing ys with
  | nil =>
      cases h
      rfl
  | cons y xs ih =>
      rw [insertBy] at h
      obtain ⟨after, _, h⟩ := bind_eq_ok.mp h
      cases after with
      | true =>
          obtain ⟨rest, hrest, h⟩ := bind_eq_ok.mp h
          cases h
          rw [List.length_cons, ih hrest, List.length_cons]
      | false =>
          cases h
          rfl

/-- Sorting keeps the number of the elements. -/
theorem length_sortBy {xs ys : List α} (h : sortBy lt xs = .ok ys) : ys.length = xs.length := by
  induction xs generalizing ys with
  | nil =>
      cases h
      rfl
  | cons x xs ih =>
      obtain ⟨sorted, hsorted, h⟩ := bind_eq_ok.mp h
      rw [length_insertBy h, ih hsorted, List.length_cons]

theorem sortBy_ok : ∀ {xs : List α}, xs.Pairwise (ComparedBy lt key) →
    ∃ ys, sortBy lt xs = .ok ys ∧ ys.Perm xs ∧ ys.Pairwise (fun a b => key a ≤ key b) := by
  intro xs
  induction xs with
  | nil =>
      intro _
      exact ⟨[], rfl, List.Perm.refl _, List.Pairwise.nil⟩
  | cons x xs ih =>
      intro hcompared
      obtain ⟨hfirst, hrest⟩ := List.pairwise_cons.mp hcompared
      obtain ⟨ys, hsort, hperm, hys⟩ := ih hrest
      obtain ⟨zs, hinsert, hperm', hzs⟩ := insertBy_ok
        (fun y hy => hfirst y (hperm.mem_iff.mp hy)) hys
      refine ⟨zs, ?_, hperm'.trans (List.Perm.cons x hperm), hzs⟩
      rw [sortBy, hsort, ok_bind, hinsert]

end SortBy

end SoupDB
