import Mathlib.Data.List.MinMax
import Mathlib.Data.List.Nodup

/-!
# Choosing in lists

Loops that go through a list and keep the best element so far find the first of the best.
Loops over the pairs of a list see each element with those that follow it.
-/

namespace SoupDB

open List

variable {α β : Type}

/-! ## The first of the greatest -/

/-- What comes before the element that `argmax` finds is less. -/
theorem exists_append_of_argmax [LinearOrder β] {f : α → β} {x : α} :
    ∀ {l : List α}, l.argmax f = some x →
      ∃ before after, l = before ++ x :: after ∧ ∀ y ∈ before, f y < f x
  | [], h => by cases h
  | a :: l, h => by
      rw [argmax_cons] at h
      cases hl : l.argmax f with
      | none =>
          rw [hl] at h
          obtain rfl := Option.some.inj h
          exact ⟨[], l, rfl, fun _ hy => absurd hy not_mem_nil⟩
      | some c =>
          rw [hl] at h
          dsimp only at h
          split at h
          · next hlt =>
              obtain rfl := Option.some.inj h
              obtain ⟨before, after, rfl, hbefore⟩ := exists_append_of_argmax hl
              refine ⟨a :: before, after, rfl, fun y hy => ?_⟩
              rcases mem_cons.mp hy with rfl | hy
              · exact hlt
              · exact hbefore y hy
          · obtain rfl := Option.some.inj h
            exact ⟨[], l, rfl, fun _ hy => absurd hy not_mem_nil⟩

variable {l : List α}

theorem exists_argmax [Preorder β] [DecidableLT β] (f : α → β) (h : l ≠ []) :
    ∃ x, l.argmax f = some x := by
  cases hx : l.argmax f with
  | none => exact absurd (argmax_eq_none.mp hx) h
  | some x => exact ⟨x, rfl⟩

/-! ## Pairs -/

/-- The pairs of a list, each element with those that follow it. -/
def pairs : List α → List (α × α)
  | [] => []
  | a :: l => l.map (fun b => (a, b)) ++ pairs l

theorem sublist_of_mem_pairs {a b : α} :
    ∀ {l : List α}, (a, b) ∈ pairs l → [a, b].Sublist l
  | [], h => by cases h
  | c :: l, h => by
      rcases mem_append.mp h with h | h
      · obtain ⟨b', hb, heq⟩ := mem_map.mp h
        obtain ⟨rfl, rfl⟩ := Prod.mk.inj heq
        exact (singleton_sublist.mpr hb).cons_cons _
      · exact (sublist_of_mem_pairs h).cons _

theorem pairs_ne_nil (h : 2 ≤ l.length) : pairs l ≠ [] := by
  match l, h with
  | a :: b :: l, _ => exact cons_ne_nil _ _

/-! ## Two elements taken out -/

/-- A list whose elements are numbered apart is two of them and the others. -/
theorem perm_of_two [DecidableEq β] {f : α → β} {a b : α} (hsub : [a, b].Sublist l)
    (hnodup : (l.map f).Nodup) :
    l.Perm (a :: b :: l.filter (fun x => f x ≠ f a && f x ≠ f b)) := by
  have hne : f a ≠ f b := by
    have h := (hsub.map f).nodup hnodup
    simpa using h
  have hinj : ∀ {x y : α}, x ∈ l → y ∈ l → f x = f y → x = y :=
    fun hx hy h => inj_on_of_nodup_map hnodup hx hy h
  have ha : a ∈ l := hsub.subset (by simp)
  have hb : b ∈ l := hsub.subset (by simp)
  refine (perm_ext_iff_of_nodup (List.Nodup.of_map f hnodup) ?_).mpr (fun x => ?_)
  · have hfilter : (l.filter (fun x => f x ≠ f a && f x ≠ f b)).Nodup :=
      (List.Nodup.of_map f hnodup).filter _
    refine nodup_cons.mpr ⟨?_, nodup_cons.mpr ⟨?_, hfilter⟩⟩
    · rw [mem_cons, mem_filter]
      rintro (rfl | ⟨-, h⟩)
      · exact hne rfl
      · simp at h
    · rw [mem_filter]
      rintro ⟨-, h⟩
      simp at h
  · simp only [mem_cons, mem_filter, Bool.and_eq_true, decide_eq_true_iff]
    constructor
    · intro hx
      by_cases hxa : f x = f a
      · exact Or.inl (hinj hx ha hxa)
      · by_cases hxb : f x = f b
        · exact Or.inr (Or.inl (hinj hx hb hxb))
        · exact Or.inr (Or.inr ⟨hx, hxa, hxb⟩)
    · rintro (rfl | rfl | ⟨hx, -⟩)
      · exact ha
      · exact hb
      · exact hx

theorem perm_replace {before part part' after more new : List α}
    (h : (part' ++ more).Perm (part ++ new)) :
    (before ++ (part' ++ after) ++ more).Perm (before ++ (part ++ after) ++ new) := by
  have hto : (part' ++ after ++ more).Perm (part' ++ more ++ after) := by
    rw [append_assoc, append_assoc]
    exact perm_append_comm.append_left _
  have hfrom : (part ++ new ++ after).Perm (part ++ after ++ new) := by
    rw [append_assoc, append_assoc]
    exact perm_append_comm.append_left _
  rw [append_assoc before, append_assoc before]
  exact (hto.trans ((h.append_right _).trans hfrom)).append_left _

/-! ## An element taken out of each part -/

section EraseParts

variable [DecidableEq α] {a b : α} {p : List α → Bool}

theorem count_erase_parts (hp : ∀ l, p l = true ↔ a ∈ l) (ls : List (List α)) :
    (ls.flatMap (fun l => l.erase a)).count a + ls.countP p = ls.flatten.count a := by
  induction ls with
  | nil => rfl
  | cons l ls ih =>
      rw [flatMap_cons, count_append, flatten_cons, count_append,
        count_erase_self, ← ih]
      by_cases ha : a ∈ l
      · have hpos := count_pos_iff.mpr ha
        rw [countP_cons_of_pos ((hp l).mpr ha)]
        omega
      · have hzero := count_eq_zero.mpr ha
        rw [countP_cons_of_neg (fun h => ha ((hp l).mp h))]
        omega

theorem count_erase_parts_of_ne (h : b ≠ a) (ls : List (List α)) :
    (ls.flatMap (fun l => l.erase a)).count b = ls.flatten.count b := by
  induction ls with
  | nil => rfl
  | cons l ls ih =>
      rw [flatMap_cons, count_append, flatten_cons, count_append, ih,
        count_erase_of_ne h]

/-- One element taken out of each part that has it is one taken out of the whole exactly when
at most one part has it. -/
theorem erase_parts_iff (hp : ∀ l, p l = true ↔ a ∈ l) (ls : List (List α)) :
    (ls.flatMap (fun l => l.erase a)).Perm (ls.flatten.erase a) ↔ ls.countP p ≤ 1 := by
  have hcount := count_erase_parts hp ls
  constructor
  · intro h
    have ha := h.count_eq a
    rw [count_erase_self] at ha
    omega
  · intro h
    refine perm_iff_count.mpr (fun b => ?_)
    by_cases hb : b = a
    · subst hb
      have hpos : ls.countP p = 0 → ls.flatten.count b = 0 := by
        intro hzero
        refine count_eq_zero.mpr (fun hmem => ?_)
        obtain ⟨l, hl, hbl⟩ := mem_flatten.mp hmem
        exact countP_eq_zero.mp hzero l hl ((hp l).mpr hbl)
      rw [count_erase_self]
      omega
    · rw [count_erase_parts_of_ne hb, count_erase_of_ne hb]

/-- Of an element that is there at most once, the parts that have it are as many as it. -/
theorem countP_parts (hp : ∀ l, p l = true ↔ a ∈ l) {ls : List (List α)}
    (h : ls.flatten.count a ≤ 1) : ls.countP p = ls.flatten.count a := by
  have hcount := count_erase_parts hp ls
  have herased := ((erase_parts_iff hp ls).mpr (by omega)).count_eq a
  rw [count_erase_self] at herased
  omega

end EraseParts

end SoupDB
