import Mathlib.Data.List.Sort

/-!
# The best entries of a list

`IsTopK score k entries hits` says that the hits are the first `k` entries in some order by
descending score: entries that tie may come in any order.  What is asked with room for the
entries that a filter drops has the best of those that pass it (`IsTopK.filter`).  Where no two
entries tie, other entries may be merged in as well (`take_insertionSort_cut`).
-/

namespace SoupDB

open List

variable {α κ : Type}

/-- The first elements that pass a test are among the first of the list, if few fail it. -/
theorem take_filter_take {p : α → Bool} {xs : List α} {k r : Nat}
    (hfail : xs.countP (fun x => !p x) ≤ r) :
    ((xs.take (k + r)).filter p).take k = (xs.filter p).take k := by
  induction xs generalizing k r with
  | nil => simp
  | cons x xs ih =>
      cases hx : p x with
      | true =>
          rw [countP_cons_of_neg (by simp [hx])] at hfail
          cases k with
          | zero => simp
          | succ k =>
              rw [Nat.succ_add, take_succ_cons, filter_cons_of_pos hx,
                filter_cons_of_pos hx, take_succ_cons, take_succ_cons, ih hfail]
      | false =>
          rw [countP_cons_of_pos (by simp [hx])] at hfail
          obtain ⟨r, rfl⟩ : ∃ r', r = r' + 1 := ⟨r - 1, by omega⟩
          rw [← Nat.add_assoc, take_succ_cons, filter_cons_of_neg (by simp [hx]),
            filter_cons_of_neg (by simp [hx]), ih (by omega)]

section TopK

variable [LinearOrder κ] {score : α → κ} {k r : Nat} {entries hits : List α}

/-- The hits are `k` best entries, the best first. -/
def IsTopK (score : α → κ) (k : Nat) (entries hits : List α) : Prop :=
  ∃ order : List α, order.Perm entries ∧ order.Pairwise (fun a b => score b ≤ score a) ∧
    hits = order.take k

theorem IsTopK.of_perm {entries' : List α} (h : IsTopK score k entries hits)
    (hperm : entries.Perm entries') : IsTopK score k entries' hits := by
  obtain ⟨order, horder, hsorted, hhits⟩ := h
  exact ⟨order, horder.trans hperm, hsorted, hhits⟩

theorem IsTopK.congr {score' : α → κ} (h : IsTopK score k entries hits)
    (hscore : ∀ e ∈ entries, score e = score' e) : IsTopK score' k entries hits := by
  obtain ⟨order, horder, hsorted, hhits⟩ := h
  refine ⟨order, horder, hsorted.imp_of_mem (fun ha hb hle => ?_), hhits⟩
  rwa [← hscore _ (horder.mem_iff.mp ha), ← hscore _ (horder.mem_iff.mp hb)]

/-- Asked for as many more entries as may fail a test, the best that pass it. -/
theorem IsTopK.filter {p : α → Bool} (h : IsTopK score (k + r) entries hits)
    (hfail : entries.countP (fun x => !p x) ≤ r) :
    IsTopK score k (entries.filter p) ((hits.filter p).take k) := by
  obtain ⟨order, horder, hsorted, rfl⟩ := h
  refine ⟨order.filter p, horder.filter p, hsorted.filter p, ?_⟩
  exact take_filter_take (by rwa [horder.countP_eq])

def byScore (score : α → κ) (entries : List α) : List α :=
  entries.insertionSort (fun a b => score b ≤ score a)

theorem isTopK_byScore (score : α → κ) (k : Nat) (entries : List α) :
    IsTopK score k entries ((byScore score entries).take k) := by
  have : Std.Total (fun a b : α => score b ≤ score a) := ⟨fun a b => le_total _ _⟩
  have : IsTrans α (fun a b => score b ≤ score a) := ⟨fun a b c hab hbc => hbc.trans hab⟩
  exact ⟨_, perm_insertionSort _ entries, pairwise_insertionSort _ entries, rfl⟩

end TopK

/-! ## The first of a sorted list -/

section Cut

variable {α : Type} {r : α → α → Prop} [DecidableRel r] [Std.Total r] [IsTrans α r]
  [Std.Antisymm r]

variable {xs : List α}

theorem insertionSort_eq {ys : List α} (hperm : ys.Perm xs) (hsorted : ys.Pairwise r) :
    xs.insertionSort r = ys :=
  ((perm_insertionSort r xs).trans hperm.symm).eq_of_pairwise'
    (pairwise_insertionSort r xs) hsorted

theorem insertionSort_perm {ys : List α} (hperm : xs.Perm ys) :
    xs.insertionSort r = ys.insertionSort r :=
  insertionSort_eq ((perm_insertionSort r ys).trans hperm.symm)
    (pairwise_insertionSort r ys)

omit [DecidableRel r] [Std.Total r] [Std.Antisymm r] in
/-- In a sorted list, what comes before an element comes among the first. -/
theorem of_mem_take_of_countP {b : α} [DecidablePred (fun x => r x b)] {k : Nat}
    (hsorted : xs.Pairwise r) (hcount : k ≤ xs.countP (fun x => r x b)) :
    ∀ x ∈ xs.take k, r x b := by
  induction xs generalizing k with
  | nil => simp
  | cons y xs ih =>
      cases k with
      | zero => simp
      | succ k =>
          obtain ⟨hle, hsorted⟩ := pairwise_cons.mp hsorted
          have hy : r y b := by
            by_contra hnot
            have hpos : 0 < (y :: xs).countP (fun x => r x b) := by omega
            obtain ⟨x, hx, hxb⟩ := countP_pos_iff.mp hpos
            rcases mem_cons.mp hx with rfl | hx
            · exact hnot (by simpa using hxb)
            · exact hnot (IsTrans.trans _ _ _ (hle x hx) (by simpa using hxb))
          intro x hx
          rcases mem_cons.mp hx with rfl | hx
          · exact hy
          · refine ih hsorted ?_ x hx
            rw [countP_cons_of_pos (by simpa using hy)] at hcount
            omega

/-- Elements with as many others before them as are asked for may be left out. -/
theorem take_insertionSort_append {ys : List α} {k : Nat} (hk : k ≤ xs.length)
    (hbefore : ∀ b ∈ ys, k ≤ xs.countP (fun x => r x b)) :
    ((xs ++ ys).insertionSort r).take k = (xs.insertionSort r).take k := by
  have hperm := perm_insertionSort r xs
  have hsorted := pairwise_insertionSort r xs
  have hfirst : ∀ b ∈ ys, ∀ x ∈ (xs.insertionSort r).take k, r x b := by
    intro b hb
    refine of_mem_take_of_countP hsorted ?_
    rw [hperm.countP_eq]
    exact hbefore b hb
  rw [← take_append_drop k (xs.insertionSort r)] at hperm hsorted
  obtain ⟨htake, -, hcross⟩ := pairwise_append.mp hsorted
  have hrest := perm_insertionSort r ((xs.insertionSort r).drop k ++ ys)
  have hall : (xs ++ ys).insertionSort r = (xs.insertionSort r).take k ++
      ((xs.insertionSort r).drop k ++ ys).insertionSort r := by
    refine insertionSort_eq ?_ ?_
    · refine (hrest.append_left _).trans ?_
      rw [← append_assoc]
      exact hperm.append_right ys
    · rw [pairwise_append]
      refine ⟨htake, pairwise_insertionSort r _, fun x hx b hb => ?_⟩
      rcases mem_append.mp (hrest.mem_iff.mp hb) with hb | hb
      · exact hcross x hx b hb
      · exact hfirst b hb x hx
  have hlength : ((xs.insertionSort r).take k).length = k := by
    rw [length_take, length_insertionSort, Nat.min_eq_left hk]
  rw [hall, take_append_of_le_length hlength.ge, take_take, Nat.min_self]

/-- The best of a first part that has room for the elements that fail a test, together with
other elements, are the best of all that pass it and the others. -/
theorem take_insertionSort_cut {p : α → Bool} {xs ys : List α} {k m : Nat}
    (hfail : xs.countP (fun x => !p x) ≤ m) :
    ((((xs.insertionSort r).take (k + m)).filter p ++ ys).insertionSort r).take k =
      ((xs.filter p ++ ys).insertionSort r).take k := by
  have hperm := perm_insertionSort r xs
  have hsorted := pairwise_insertionSort r xs
  generalize hs : xs.insertionSort r = sorted at hperm hsorted ⊢
  have hsplit : (sorted.take (k + m)).filter p ++ (sorted.drop (k + m)).filter p =
      sorted.filter p := by
    rw [← filter_append, take_append_drop]
  have hsame : (xs.filter p ++ ys).insertionSort r =
      (((sorted.take (k + m)).filter p ++ ys) ++ (sorted.drop (k + m)).filter p).insertionSort
        r := by
    refine insertionSort_perm ?_
    refine ((hperm.filter p).symm.append_right ys).trans ?_
    rw [← hsplit, append_assoc, append_assoc]
    exact perm_append_comm.append_left _
  rcases Nat.lt_or_ge (k + m) sorted.length with hlt | hge
  · have hcount : k ≤ ((sorted.take (k + m)).filter p).length := by
      have htotal := length_eq_countP_add_countP p (l := sorted.take (k + m))
      have hle := (take_sublist (k + m) sorted).countP_le (p := fun x => !p x)
      have heq := hperm.countP_eq (fun x => !p x)
      rw [length_take, Nat.min_eq_left hlt.le] at htotal
      rw [← countP_eq_length_filter]
      simp only [Bool.not_eq_true, Bool.decide_eq_false] at htotal
      omega
    have hbefore : ∀ b ∈ (sorted.drop (k + m)).filter p,
        k ≤ ((sorted.take (k + m)).filter p ++ ys).countP (fun x => r x b) := by
      intro b hb
      rw [← take_append_drop (k + m) sorted, pairwise_append] at hsorted
      have hall : ((sorted.take (k + m)).filter p).countP (fun x => r x b) =
          ((sorted.take (k + m)).filter p).length := by
        rw [countP_eq_length]
        intro x hx
        simpa using hsorted.2.2 x (mem_of_mem_filter hx) b (mem_of_mem_filter hb)
      rw [countP_append, hall]
      omega
    have hlength : k ≤ ((sorted.take (k + m)).filter p ++ ys).length := by
      rw [length_append]
      omega
    rw [hsame, take_insertionSort_append hlength hbefore]
  · rw [hsame, drop_eq_nil_of_le hge, filter_nil, append_nil]

end Cut
end SoupDB
