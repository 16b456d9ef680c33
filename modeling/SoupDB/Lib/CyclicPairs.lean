import Mathlib.Data.List.Rotate
import Mathlib.Algebra.BigOperators.Group.List.Basic
import Mathlib.Algebra.Group.Nat.Even

/-!
# The pairs of neighbours around a cycle

A list is read as a closed walk: `cyclicPairs` are its steps, the last of which leads back to
the first element.  Turning or reversing the list gives the same steps up to their order and
direction, what is gained on the way is lost again, and every walk leaves a set as often as it
enters it.
-/

namespace SoupDB

open List

variable {α β : Type}

/-- The steps of the closed walk. -/
def cyclicPairs (l : List α) : List (α × α) := l.zip (l.rotate 1)

@[simp] theorem length_cyclic_pairs (l : List α) : (cyclicPairs l).length = l.length := by
  rw [cyclicPairs, length_zip, length_rotate, Nat.min_self]

theorem getElem_cyclic_pairs (l : List α) {i : Nat} (hpair : i < (cyclicPairs l).length)
    (hi : i < l.length) (hnext : (i + 1) % l.length < l.length) :
    (cyclicPairs l)[i] = (l[i], l[(i + 1) % l.length]) := by
  simp only [cyclicPairs, getElem_zip, getElem_rotate]

theorem map_fst_cyclic_pairs (l : List α) : (cyclicPairs l).map Prod.fst = l :=
  map_fst_zip (by rw [length_rotate])

theorem map_snd_cyclic_pairs (l : List α) : (cyclicPairs l).map Prod.snd = l.rotate 1 :=
  map_snd_zip (by rw [length_rotate])

theorem fst_mem_of_cyclic_pairs {l : List α} {e : α × α} (h : e ∈ cyclicPairs l) : e.1 ∈ l :=
  (of_mem_zip h).1

theorem snd_mem_of_cyclic_pairs {l : List α} {e : α × α} (h : e ∈ cyclicPairs l) : e.2 ∈ l :=
  mem_rotate.mp (of_mem_zip h).2

theorem cyclic_pairs_map (f : α → β) (l : List α) :
    cyclicPairs (l.map f) = (cyclicPairs l).map (Prod.map f f) := by
  rw [cyclicPairs, cyclicPairs, ← map_rotate, zip_map]

theorem cyclic_pairs_rotate (l : List α) (k : Nat) :
    cyclicPairs (l.rotate k) = (cyclicPairs l).rotate k := by
  rw [cyclicPairs, cyclicPairs, rotate_rotate, Nat.add_comm k 1, ← rotate_rotate]
  exact (zipWith_rotate_distrib Prod.mk l (l.rotate 1) k (by rw [length_rotate])).symm

theorem cyclic_pairs_rotate_perm (l : List α) (k : Nat) :
    (cyclicPairs (l.rotate k)).Perm (cyclicPairs l) := by
  rw [cyclic_pairs_rotate]
  exact rotate_perm _ _

/-- The walk backwards. -/
theorem cyclic_pairs_reverse_perm (l : List α) :
    (cyclicPairs l.reverse).Perm ((cyclicPairs l).map Prod.swap) := by
  have hback : (l.rotate 1).reverse.rotate 1 = l.reverse := by
    cases l with
    | nil => rfl
    | cons a l => rw [rotate_cons_succ, rotate_zero, reverse_append,
        reverse_singleton, singleton_append, rotate_cons_succ, rotate_zero,
        reverse_cons]
  have hturn : ((cyclicPairs l).map Prod.swap).reverse.rotate 1 = cyclicPairs l.reverse := by
    rw [cyclicPairs, zip, map_zipWith, reverse_zipWith (by rw [length_rotate]),
      zipWith_rotate_distrib _ _ _ _ (by simp), hback, zipWith_comm]
    rfl
  rw [← hturn]
  exact (rotate_perm _ _).trans (reverse_perm _)

section Telescope

variable {M : Type} [AddCommGroup M]

/-- What is gained on the way is lost again. -/
theorem sum_cyclic_pairs_sub (g : α → M) (l : List α) :
    ((cyclicPairs l).map (fun e => g e.2 - g e.1)).sum = 0 := by
  have hsnd : ((cyclicPairs l).map (fun e => g e.2)).sum = (l.map g).sum := by
    have hmap : (cyclicPairs l).map (fun e => g e.2) = (l.rotate 1).map g := by
      rw [← map_snd_cyclic_pairs, map_map]
      rfl
    rw [hmap]
    exact ((rotate_perm l 1).map g).sum_eq
  have hfst : ((cyclicPairs l).map (fun e => g e.1)).sum = (l.map g).sum := by
    conv_rhs => rw [← map_fst_cyclic_pairs l, map_map]
    rfl
  have hsub : ∀ es : List (α × α), (es.map (fun e => g e.2 - g e.1)).sum =
      (es.map (fun e => g e.2)).sum - (es.map (fun e => g e.1)).sum := by
    intro es
    induction es with
    | nil => simp
    | cons e es ih =>
        simp only [map_cons, sum_cons, ih]
        exact add_sub_add_comm _ _ _ _ |>.symm
  rw [hsub, hsnd, hfst, sub_self]

end Telescope

section Changes

variable (p : α → Bool) (l : List α)

theorem countP_leave_eq_enter :
    (cyclicPairs l).countP (fun e => p e.1 && !p e.2) =
      (cyclicPairs l).countP (fun e => !p e.1 && p e.2) := by
  have hsplit : ∀ es : List (α × α),
      es.countP (fun e => p e.1) + es.countP (fun e => !p e.1 && p e.2) =
        es.countP (fun e => p e.2) + es.countP (fun e => p e.1 && !p e.2) := by
    intro es
    induction es with
    | nil => rfl
    | cons e es ih =>
        simp only [countP_cons]
        cases p e.1 <;> cases p e.2 <;> simp <;> omega
  have hends : (cyclicPairs l).countP (fun e => p e.1) =
      (cyclicPairs l).countP (fun e => p e.2) := by
    have hfst : (cyclicPairs l).countP (fun e => p e.1) = l.countP p := by
      conv_rhs => rw [← map_fst_cyclic_pairs l, countP_map]
      rfl
    have hsnd : (cyclicPairs l).countP (fun e => p e.2) = (l.rotate 1).countP p := by
      rw [← map_snd_cyclic_pairs, countP_map]
      rfl
    rw [hfst, hsnd, (rotate_perm l 1).countP_eq]
  have h := hsplit (cyclicPairs l)
  omega

/-- The walk crosses the border of the set an even number of times. -/
theorem even_countP_changes : Even ((cyclicPairs l).countP (fun e => p e.1 != p e.2)) := by
  have hsplit : ∀ es : List (α × α), es.countP (fun e => p e.1 != p e.2) =
      es.countP (fun e => p e.1 && !p e.2) + es.countP (fun e => !p e.1 && p e.2) := by
    intro es
    induction es with
    | nil => rfl
    | cons e es ih =>
        simp only [countP_cons]
        cases p e.1 <;> cases p e.2 <;> simp <;> omega
  rw [hsplit, countP_leave_eq_enter]
  exact Even.add_self _

end Changes

end SoupDB
