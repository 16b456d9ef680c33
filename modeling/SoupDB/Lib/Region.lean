import Mathlib.Data.List.Basic

/-!
# Regions of a list

A list used as a buffer: `slice` reads the elements between two positions, `splice`
overwrites elements from a position on.

Main facts: a splice that stays inside keeps the length (`length_splice`), the slice over
the spliced positions shows what was written (`slice_splice_self`), and a slice on either
side of them shows what was there (`slice_splice_of_disjoint`).
-/

namespace SoupDB

open List

variable {α : Type}

/-- The elements from `start` up to `stop`. -/
def slice (xs : List α) (start stop : Nat) : List α := (xs.drop start).take (stop - start)

/-- The elements from `position` on are overwritten by `ys`. -/
def splice (xs : List α) (position : Nat) (ys : List α) : List α :=
  xs.take position ++ ys ++ xs.drop (position + ys.length)

variable {xs ys : List α} {position start stop i : Nat}

theorem length_slice (h : stop ≤ xs.length) : (slice xs start stop).length = stop - start := by
  rw [slice, length_take, length_drop]
  omega

theorem getElem?_slice :
    (slice xs start stop)[i]? = if i < stop - start then xs[start + i]? else none := by
  rw [slice, getElem?_take, getElem?_drop]

/-- A slice only depends on the elements up to its end. -/
theorem slice_eq_of_take {zs : List α} (h : xs.take stop = zs.take stop) :
    slice xs start stop = slice zs start stop := by
  rw [slice, slice, ← drop_take, ← drop_take, h]

theorem length_splice (h : position + ys.length ≤ xs.length) :
    (splice xs position ys).length = xs.length := by
  simp only [splice, length_append, length_take, length_drop]
  omega

theorem getElem?_splice (h : position + ys.length ≤ xs.length) :
    (splice xs position ys)[i]? =
      if position ≤ i ∧ i < position + ys.length then ys[i - position]? else xs[i]? := by
  have htake : (xs.take position).length = position := by
    rw [length_take]
    omega
  have hfront : (xs.take position ++ ys).length = position + ys.length := by
    rw [length_append, htake]
  rw [splice]
  by_cases hback : i < position + ys.length
  · rw [getElem?_append_left (by omega)]
    by_cases hin : position ≤ i
    · rw [getElem?_append_right (by omega), htake, if_pos ⟨hin, hback⟩]
    · rw [getElem?_append_left (by omega), getElem?_take, if_pos (by omega),
        if_neg (fun hi => hin hi.1)]
  · rw [getElem?_append_right (by omega), hfront, getElem?_drop,
      if_neg (fun hi => hback hi.2)]
    congr 1
    omega

/-- What was written is read back. -/
theorem slice_splice_self (h : position + ys.length ≤ xs.length) :
    slice (splice xs position ys) position (position + ys.length) = ys := by
  refine ext_getElem? ?_
  intro i
  rw [getElem?_slice]
  by_cases hi : i < ys.length
  · rw [if_pos (by omega), getElem?_splice h, if_pos (by omega), Nat.add_sub_cancel_left]
  · rw [if_neg (by omega), getElem?_eq_none (by omega)]

/-- A region beside the one that was overwritten stays. -/
theorem slice_splice_of_disjoint (h : position + ys.length ≤ xs.length)
    (hdisjoint : stop ≤ position ∨ position + ys.length ≤ start) :
    slice (splice xs position ys) start stop = slice xs start stop := by
  refine ext_getElem? ?_
  intro i
  rw [getElem?_slice, getElem?_slice]
  by_cases hi : i < stop - start
  · rw [if_pos hi, if_pos hi, getElem?_splice h, if_neg (by omega)]
  · rw [if_neg hi, if_neg hi]

/-- Two splices, the second behind the first, are one. -/
theorem splice_splice {zs : List α} (h : position + ys.length ≤ xs.length) :
    splice (splice xs position ys) (position + ys.length) zs = splice xs position (ys ++ zs) := by
  have hfront : (xs.take position ++ ys).length = position + ys.length := by
    rw [length_append, length_take]
    omega
  have htake : (splice xs position ys).take (position + ys.length) = xs.take position ++ ys := by
    rw [splice, take_left' hfront]
  have hdrop : (splice xs position ys).drop (position + ys.length + zs.length) =
      xs.drop (position + (ys ++ zs).length) := by
    rw [← drop_drop, splice, drop_left' hfront, drop_drop, length_append,
      Nat.add_assoc]
  rw [splice, htake, hdrop, splice, append_assoc (xs.take position)]

/-- The middle of three parts is read. -/
theorem slice_append {a b c : List α} (hstart : start = a.length)
    (hstop : stop = start + b.length) : slice (a ++ b ++ c) start stop = b := by
  rw [slice, append_assoc, drop_left' hstart.symm,
    take_left' (by rw [hstop, Nat.add_sub_cancel_left])]

/-- The middle of three parts is overwritten. -/
theorem splice_append {a b c : List α} (hposition : position = a.length)
    (hlength : ys.length = b.length) : splice (a ++ b ++ c) position ys = a ++ ys ++ c := by
  have htake : (a ++ b ++ c).take position = a := by
    rw [append_assoc, take_left' hposition.symm]
  have hdrop : (a ++ b ++ c).drop (position + ys.length) = c :=
    drop_left' (by rw [length_append, hposition, hlength])
  rw [splice, htake, hdrop]

end SoupDB
