import SoupDB.Lib.Except

/-!
# Bisection

Binary search with a test that may raise.  `bisect goRight xs` keeps an interval of
positions and halves it: where the test holds of the middle element the search goes
on to its right, else to its left.

Main facts: a search that returns gives a position of the list or its end
(`bisect_le_length`) and has tested the elements beside it (`bisect_tested`); where the
test returns `p x` on each element and `p` holds of a prefix of the list only, the search
returns and the position splits the list into the elements that satisfy `p` and those
that do not (`bisect_spec`).
-/

namespace SoupDB

section Bisect

variable {ε α : Type}

/-- The loop on the interval from `lo` to `hi`; the first argument bounds the rounds. -/
def bisectFrom (goRight : α → Except ε Bool) (xs : List α) : Nat → Nat → Nat → Except ε Nat
  | 0, lo, _ => .ok lo
  | rounds + 1, lo, hi =>
      if lo < hi then
        match xs[(lo + hi) / 2]? with
        | none => .ok lo
        | some x => do
            let right ← goRight x
            if right then bisectFrom goRight xs rounds ((lo + hi) / 2 + 1) hi
            else bisectFrom goRight xs rounds lo ((lo + hi) / 2)
      else .ok lo

/-- The position where the search ends. -/
def bisect (goRight : α → Except ε Bool) (xs : List α) : Except ε Nat :=
  bisectFrom goRight xs xs.length 0 xs.length

variable {goRight : α → Except ε Bool} {xs : List α}

theorem bisectFrom_le :
    ∀ {rounds lo hi i : Nat}, lo ≤ hi → bisectFrom goRight xs rounds lo hi = .ok i → i ≤ hi := by
  intro rounds
  induction rounds with
  | zero =>
      intro lo hi i hle h
      simp only [bisectFrom, Except.ok.injEq] at h
      omega
  | succ rounds ih =>
      intro lo hi i hle h
      unfold bisectFrom at h
      split at h
      · next hlt =>
          cases hx : xs[(lo + hi) / 2]? with
          | none =>
              simp only [hx, Except.ok.injEq] at h
              omega
          | some x =>
              simp only [hx, bind_eq_ok] at h
              obtain ⟨right, _, h⟩ := h
              split at h
              · exact ih (by omega) h
              · have := ih (by omega) h
                omega
      · simp only [Except.ok.injEq] at h
        omega

/-- A search that returns gives a position of the list or its end. -/
theorem bisect_le_length {i : Nat} (h : bisect goRight xs = .ok i) : i ≤ xs.length :=
  bisectFrom_le (Nat.zero_le _) h

theorem bisectFrom_spec {p : α → Prop} [DecidablePred p]
    (htest : ∀ x ∈ xs, goRight x = .ok (decide (p x)))
    (hmono : xs.Pairwise (fun x y => p y → p x)) :
    ∀ (rounds lo hi : Nat), lo ≤ hi → hi ≤ xs.length → hi - lo ≤ rounds →
      (∀ x ∈ xs.take lo, p x) → (∀ x ∈ xs.drop hi, ¬ p x) →
      ∃ i, bisectFrom goRight xs rounds lo hi = .ok i ∧ i ≤ xs.length ∧
        (∀ x ∈ xs.take i, p x) ∧ (∀ x ∈ xs.drop i, ¬ p x) := by
  intro rounds
  induction rounds with
  | zero =>
      intro lo hi hle hhi hrounds hlow hhigh
      obtain rfl : lo = hi := by omega
      exact ⟨lo, rfl, hhi, hlow, hhigh⟩
  | succ rounds ih =>
      intro lo hi hle hhi hrounds hlow hhigh
      unfold bisectFrom
      split
      · next hlt =>
          have hmid : (lo + hi) / 2 < xs.length := by omega
          have hx : xs[(lo + hi) / 2]? = some xs[(lo + hi) / 2] := List.getElem?_eq_getElem hmid
          simp only [hx, htest _ (List.getElem_mem hmid), ok_bind]
          by_cases hp : p xs[(lo + hi) / 2]
          · simp only [hp, decide_true, if_true]
            refine ih _ hi (by omega) hhi (by omega) ?_ hhigh
            intro x hxm
            rw [List.take_succ_eq_append_getElem hmid, List.mem_append, List.mem_singleton] at hxm
            rcases hxm with hxm | rfl
            · obtain ⟨j, hj, rfl⟩ := List.mem_take_iff_getElem.mp hxm
              exact List.pairwise_iff_getElem.mp hmono j _ (by omega) hmid (by omega) hp
            · exact hp
          · simp only [hp, decide_false, Bool.false_eq_true, if_false]
            refine ih lo _ (by omega) (by omega) (by omega) hlow ?_
            intro x hxm
            obtain ⟨j, hj, rfl⟩ := List.mem_drop_iff_getElem.mp hxm
            rcases Nat.eq_zero_or_pos j with rfl | hpos
            · simpa using hp
            · intro hpx
              exact hp (List.pairwise_iff_getElem.mp hmono _ _ hmid (by omega) (by omega) hpx)
      · next hlt =>
          obtain rfl : lo = hi := by omega
          exact ⟨lo, rfl, hhi, hlow, hhigh⟩

/-- Where the test is `p` and `p` holds of a prefix, the search finds its end. -/
theorem bisect_spec {p : α → Prop} [DecidablePred p]
    (htest : ∀ x ∈ xs, goRight x = .ok (decide (p x)))
    (hmono : xs.Pairwise (fun x y => p y → p x)) :
    ∃ i, bisect goRight xs = .ok i ∧ i ≤ xs.length ∧
      (∀ x ∈ xs.take i, p x) ∧ (∀ x ∈ xs.drop i, ¬ p x) :=
  bisectFrom_spec htest hmono _ 0 xs.length (Nat.zero_le _) (Nat.le_refl _) (by omega) (by simp)
    (by simp)

theorem bisectFrom_tested :
    ∀ {rounds lo hi i : Nat}, bisectFrom goRight xs rounds lo hi = .ok i → lo ≤ hi →
      hi - lo ≤ rounds → hi ≤ xs.length →
      (∀ j x, lo = j + 1 → xs[j]? = some x → goRight x = .ok true) →
      (∀ x, xs[hi]? = some x → goRight x = .ok false) →
      (∀ j x, i = j + 1 → xs[j]? = some x → goRight x = .ok true) ∧
        ∀ x, xs[i]? = some x → goRight x = .ok false := by
  intro rounds
  induction rounds with
  | zero =>
      intro lo hi i h hle hrounds _ hlow hhigh
      obtain rfl : lo = i := Except.ok.inj h
      obtain rfl : lo = hi := by omega
      exact ⟨hlow, hhigh⟩
  | succ rounds ih =>
      intro lo hi i h hle hrounds hlen hlow hhigh
      rw [bisectFrom] at h
      split at h
      · next hlt =>
          have hmid : (lo + hi) / 2 < xs.length := by omega
          have hx : xs[(lo + hi) / 2]? = some xs[(lo + hi) / 2] := List.getElem?_eq_getElem hmid
          simp only [hx, bind_eq_ok] at h
          obtain ⟨right, htest, h⟩ := h
          cases right with
          | true =>
              refine ih h (by omega) (by omega) hlen ?_ hhigh
              intro j x hj hxj
              obtain rfl : (lo + hi) / 2 = j := by omega
              rw [hx, Option.some.injEq] at hxj
              rw [← hxj]
              exact htest
          | false =>
              refine ih h (by omega) (by omega) (by omega) hlow ?_
              intro x hxm
              rw [hx, Option.some.injEq] at hxm
              rw [← hxm]
              exact htest
      · obtain rfl : lo = i := Except.ok.inj h
        obtain rfl : lo = hi := by omega
        exact ⟨hlow, hhigh⟩

/-- A search that returns has tested the elements on both sides of the position. -/
theorem bisect_tested {i : Nat} (h : bisect goRight xs = .ok i) :
    (∀ j x, i = j + 1 → xs[j]? = some x → goRight x = .ok true) ∧
      ∀ x, xs[i]? = some x → goRight x = .ok false := by
  refine bisectFrom_tested h (Nat.zero_le _) (Nat.le_refl _) (Nat.le_refl _) ?_ ?_
  · intro j x hj
    cases hj
  · intro x hx
    rw [List.getElem?_eq_none (Nat.le_refl _)] at hx
    cases hx

end Bisect
end SoupDB
