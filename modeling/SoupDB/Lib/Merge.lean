import SoupDB.Lib.Sort
import Mathlib.Data.List.Perm.Basic

/-!
# Stable sorting and merging of sorted runs

A comparison that is a total preorder on a domain.  A stable sort of a list keeps the order
of the elements that tie, and it is the only list with the order and these ties.  A merge
takes a least head at each step, of any run; it gives a sorted permutation of the runs, and
the stable sort where elements of different runs that tie are equal.
-/

namespace SoupDB

open List

variable {ε α β : Type}

/-- On the elements of the domain the comparison is a total preorder. -/
structure TotalPreorderOn (le : α → α → Bool) (D : α → Prop) : Prop where
  total : ∀ {a b : α}, D a → D b → le a b = true ∨ le b a = true
  trans : ∀ {a b c : α}, D a → D b → D c → le a b = true → le b c = true → le a c = true

def tied (le : α → α → Bool) (a b : α) : Bool := le a b && le b a

theorem tied_iff {le : α → α → Bool} {a b : α} :
    tied le a b = true ↔ le a b = true ∧ le b a = true := by
  rw [tied, Bool.and_eq_true]

theorem tied_comm (le : α → α → Bool) (a b : α) : tied le a b = tied le b a :=
  Bool.and_comm _ _

section Preorder

variable {le : α → α → Bool} {D : α → Prop}

namespace TotalPreorderOn

variable {a : α} (h : TotalPreorderOn le D) (ha : D a)
include h ha

theorem refl : le a a = true :=
  (h.total ha ha).elim id id

theorem tied_self : tied le a a = true :=
  tied_iff.mpr ⟨h.refl ha, h.refl ha⟩

theorem tied_trans {b c : α} (hb : D b) (hc : D c) (hab : tied le a b = true)
    (hbc : tied le b c = true) : tied le a c = true := by
  obtain ⟨hab, hba⟩ := tied_iff.mp hab
  obtain ⟨hbc, hcb⟩ := tied_iff.mp hbc
  exact tied_iff.mpr ⟨h.trans ha hb hc hab hbc, h.trans hc hb ha hcb hba⟩

end TotalPreorderOn

/-- Ascending in the comparison. -/
def Ascending (le : α → α → Bool) (xs : List α) : Prop :=
  xs.Pairwise (fun a b => le a b = true)

/-- The same elements, and those that tie in the same order. -/
structure SameTies (le : α → α → Bool) (D : α → Prop) (xs ys : List α) : Prop where
  perm : ys.Perm xs
  ties : ∀ a, D a → ys.filter (tied le a) = xs.filter (tied le a)

namespace SameTies

theorem refl (xs : List α) : SameTies le D xs xs :=
  ⟨List.Perm.refl xs, fun _ _ => rfl⟩

theorem trans {xs ys zs : List α} (h : SameTies le D xs ys) (h' : SameTies le D ys zs) :
    SameTies le D xs zs :=
  ⟨h'.perm.trans h.perm, fun a ha => (h'.ties a ha).trans (h.ties a ha)⟩

theorem append {xs xs' ys ys' : List α} (h : SameTies le D xs ys) (h' : SameTies le D xs' ys') :
    SameTies le D (xs ++ xs') (ys ++ ys') where
  perm := h.perm.append h'.perm
  ties := by
    intro a ha
    rw [filter_append, filter_append, h.ties a ha, h'.ties a ha]

theorem flatten {f g : β → List α} {xs : List β} (h : ∀ x ∈ xs, SameTies le D (f x) (g x)) :
    SameTies le D (xs.map f).flatten (xs.map g).flatten := by
  induction xs with
  | nil => exact SameTies.refl []
  | cons x xs ih => exact (h x (by simp)).append (ih (fun y hy => h y (by simp [hy])))

end SameTies

theorem eq_of_ties (hle : TotalPreorderOn le D) :
    ∀ {ys zs : List α}, (∀ y ∈ ys, D y) → (∀ z ∈ zs, D z) →
      Ascending le ys → Ascending le zs →
      (∀ a, D a → ys.filter (tied le a) = zs.filter (tied le a)) → ys = zs := by
  intro ys
  induction ys with
  | nil =>
      intro zs _ hzs _ _ hties
      refine (eq_nil_iff_forall_not_mem.mpr ?_).symm
      intro z hz
      have hmem : z ∈ zs.filter (tied le z) :=
        mem_filter.mpr ⟨hz, hle.tied_self (hzs z hz)⟩
      rw [← hties z (hzs z hz)] at hmem
      cases hmem
  | cons y ys ih =>
      intro zs hys hzs hsorted hsorted' hties
      have hy : D y := hys y (by simp)
      have hmem : ∀ a, D a → (a ∈ y :: ys ↔ a ∈ zs) := by
        intro a ha
        have hself := hle.tied_self ha
        have hiff : a ∈ (y :: ys).filter (tied le a) ↔ a ∈ zs.filter (tied le a) := by
          rw [hties a ha]
        rw [mem_filter, mem_filter] at hiff
        exact ⟨fun h => (hiff.mp ⟨h, hself⟩).1, fun h => (hiff.mpr ⟨h, hself⟩).1⟩
      cases zs with
      | nil => cases (hmem y hy).mp (by simp)
      | cons z zs =>
          have hz : D z := hzs z (by simp)
          have hleHead : ∀ {a b : α} {rest : List α}, D a → Ascending le (a :: rest) →
              b ∈ a :: rest → le a b = true := by
            intro a b rest ha hsorted hb
            rcases mem_cons.mp hb with rfl | hb
            · exact hle.refl ha
            · exact (pairwise_cons.mp hsorted).1 b hb
          have htied : tied le y z = true :=
            tied_iff.mpr ⟨hleHead hy hsorted ((hmem z hz).mpr (by simp)),
              hleHead hz hsorted' ((hmem y hy).mp (by simp))⟩
          have hheads := hties y hy
          rw [filter_cons, filter_cons, if_pos (hle.tied_self hy), if_pos htied] at hheads
          obtain ⟨rfl, _⟩ := List.cons.inj hheads
          refine congrArg _ (ih (fun b hb => hys b (by simp [hb]))
            (fun b hb => hzs b (by simp [hb]))
            (pairwise_cons.mp hsorted).2 (pairwise_cons.mp hsorted').2 ?_)
          intro a ha
          have hfilter := hties a ha
          rw [filter_cons, filter_cons] at hfilter
          split at hfilter
          · exact (List.cons.inj hfilter).2
          · exact hfilter

/-! ## The stable sort -/

/-- The comparison of a sort is the strict part of the preorder. -/
def ComparesBy (lt : α → α → Except ε Bool) (le : α → α → Bool) (D : α → Prop) : Prop :=
  ∀ a b, D a → D b → lt a b = .ok (!le b a)

variable {lt : α → α → Except ε Bool}

theorem insertBy_stable (hle : TotalPreorderOn le D) (hlt : ComparesBy lt le D) {x : α} (hx : D x) :
    ∀ {xs : List α}, (∀ y ∈ xs, D y) → Ascending le xs →
      ∃ ys, insertBy lt x xs = .ok ys ∧ Ascending le ys ∧ SameTies le D (x :: xs) ys := by
  intro xs
  induction xs with
  | nil =>
      intro _ _
      exact ⟨[x], rfl, pairwise_singleton _ _, SameTies.refl [x]⟩
  | cons y ys ih =>
      intro hxs hsorted
      have hy : D y := hxs y (by simp)
      obtain ⟨hfirst, hrest⟩ := pairwise_cons.mp hsorted
      rw [insertBy, hlt y x hy hx, ok_bind]
      cases hxy : le x y with
      | true =>
          refine ⟨x :: y :: ys, rfl, ?_, SameTies.refl _⟩
          refine pairwise_cons.mpr ⟨?_, hsorted⟩
          intro z hz
          rcases mem_cons.mp hz with rfl | hz
          · exact hxy
          · exact hle.trans hx hy (hxs z (by simp [hz])) hxy (hfirst z hz)
      | false =>
          obtain ⟨zs, hinsert, hzs, hsame⟩ := ih (fun z hz => hxs z (by simp [hz])) hrest
          have hyx : le y x = true := by
            rcases hle.total hx hy with h | h
            · rw [hxy] at h
              cases h
            · exact h
          refine ⟨y :: zs, ?_, ?_, ?_, ?_⟩
          · rw [hinsert]
            rfl
          · refine pairwise_cons.mpr ⟨?_, hzs⟩
            intro z hz
            rcases mem_cons.mp (hsame.perm.mem_iff.mp hz) with rfl | hz
            · exact hyx
            · exact hfirst z hz
          · exact (List.Perm.cons y hsame.perm).trans (List.Perm.swap x y ys)
          · intro a ha
            have hkeep := hsame.ties a ha
            rw [filter_cons, hkeep, filter_cons, filter_cons, filter_cons]
            by_cases hax : tied le a x = true
            · have hay : tied le a y = false := by
                by_contra h
                rw [Bool.not_eq_false] at h
                have hxa : tied le x a = true := by
                  rw [tied_comm]
                  exact hax
                have htied := tied_iff.mp (hle.tied_trans hx ha hy hxa h)
                rw [hxy] at htied
                cases htied.1
              rw [hay]
              rfl
            · rw [if_neg hax]
              simp only [hax]
              rfl

theorem sortBy_stable (hle : TotalPreorderOn le D) (hlt : ComparesBy lt le D) :
    ∀ {xs : List α}, (∀ x ∈ xs, D x) →
      ∃ ys, sortBy lt xs = .ok ys ∧ Ascending le ys ∧ SameTies le D xs ys := by
  intro xs
  induction xs with
  | nil =>
      intro _
      exact ⟨[], rfl, List.Pairwise.nil, SameTies.refl []⟩
  | cons x xs ih =>
      intro hxs
      have hx : D x := hxs x (by simp)
      obtain ⟨ys, hsort, hys, hsame⟩ := ih (fun y hy => hxs y (by simp [hy]))
      have hD : ∀ y ∈ ys, D y := fun y hy => hxs y (by simp [hsame.perm.mem_iff.mp hy])
      obtain ⟨zs, hinsert, hzs, hsame'⟩ := insertBy_stable hle hlt hx hD hys
      refine ⟨zs, ?_, hzs, ?_⟩
      · rw [sortBy, hsort, ok_bind, hinsert]
      · exact (SameTies.append (SameTies.refl [x]) hsame).trans hsame'

/-! ## Merging -/

/-- Elements of different runs that tie are equal. -/
def Apart (le : α → α → Bool) (runs : List (List α)) : Prop :=
  runs.Pairwise (fun run run' => ∀ x ∈ run, ∀ y ∈ run', tied le x y = true → x = y)

/-- An ascending list of the domain. -/
structure IsRun (le : α → α → Bool) (D : α → Prop) (run : List α) : Prop where
  mem : ∀ x ∈ run, D x
  ascending : Ascending le run

theorem IsRun.tail {x : α} {rest : List α} (h : IsRun le D (x :: rest)) : IsRun le D rest where
  mem := fun y hy => h.mem y (by simp [hy])
  ascending := (pairwise_cons.mp h.ascending).2

theorem IsRun.le_of_head {x z : α} {run : List α} (hle : TotalPreorderOn le D) (hx : D x)
    (h : IsRun le D run) (hleast : ∀ y ∈ run.head?, le x y = true) (hz : z ∈ run) :
    le x z = true := by
  cases run with
  | nil => cases hz
  | cons y ys =>
      have hy := hleast y rfl
      rcases mem_cons.mp hz with rfl | hz
      · exact hy
      · exact hle.trans hx (h.mem y (by simp)) (h.mem z (by simp [hz])) hy
          ((pairwise_cons.mp h.ascending).1 z hz)

/-- At each step one run gives its head, which is at most the other heads. -/
inductive Merges (le : α → α → Bool) : List (List α) → List α → Prop
  | done {runs : List (List α)}
      (hempty : ∀ run ∈ runs, run = []) :
      Merges le runs []
  | take {before after : List (List α)} {x : α} {rest out : List α}
      (hleast : ∀ run ∈ before ++ after, ∀ y ∈ run.head?, le x y = true)
      (hrest : Merges le (before ++ rest :: after) out) :
      Merges le (before ++ (x :: rest) :: after) (x :: out)

theorem forall_mem_middle {before after : List β} {x : β} {P : β → Prop} :
    (∀ y ∈ before ++ x :: after, P y) ↔ P x ∧ ∀ y ∈ before ++ after, P y := by
  rw [← forall_mem_cons]
  exact forall_congr' (fun y => by rw [perm_middle.mem_iff])

namespace Merges

variable {runs : List (List α)} {out : List α}

theorem perm (h : Merges le runs out) : out.Perm runs.flatten := by
  induction h with
  | done hempty =>
      rw [flatten_eq_nil_iff.mpr hempty]
  | take hleast hrest ih =>
      rw [flatten_append, flatten_cons] at ih ⊢
      exact (List.Perm.cons _ ih).trans perm_middle.symm

theorem ascending (hle : TotalPreorderOn le D) (h : Merges le runs out)
    (hruns : ∀ run ∈ runs, IsRun le D run) : Ascending le out := by
  induction h with
  | done hempty => exact List.Pairwise.nil
  | @take before after x rest out hleast hrest ih =>
      obtain ⟨hrun, hothers⟩ := forall_mem_middle.mp hruns
      refine pairwise_cons.mpr ⟨?_, ih (forall_mem_middle.mpr ⟨hrun.tail, hothers⟩)⟩
      have hbound : ∀ run ∈ before ++ rest :: after, ∀ z ∈ run, le x z = true := by
        refine forall_mem_middle.mpr ⟨(pairwise_cons.mp hrun.ascending).1, ?_⟩
        intro run hmem z hz
        exact (hothers run hmem).le_of_head hle (hrun.mem x (by simp)) (hleast run hmem) hz
      intro z hz
      obtain ⟨run, hmem, hz⟩ := mem_flatten.mp (hrest.perm.mem_iff.mp hz)
      exact hbound run hmem z hz

/-- Where elements of different runs that tie are equal, a merge moves no element over
another of its ties. -/
theorem ties (hle : TotalPreorderOn le D) (h : Merges le runs out)
    (hD : ∀ run ∈ runs, ∀ x ∈ run, D x) (hapart : Apart le runs) {a : α} (ha : D a) :
    out.filter (tied le a) = runs.flatten.filter (tied le a) := by
  induction h with
  | done hempty =>
      rw [flatten_eq_nil_iff.mpr hempty]
  | @take before after x rest out hleast hrest ih =>
      obtain ⟨hrun, hothers⟩ := forall_mem_middle.mp hD
      obtain ⟨hrestMem, hx⟩ : (∀ z ∈ rest, D z) ∧ D x :=
        ⟨fun z hz => hrun z (by simp [hz]), hrun x (by simp)⟩
      obtain ⟨hbefore, hmiddle, hcross⟩ := pairwise_append.mp hapart
      obtain ⟨hafter, hlast⟩ := pairwise_cons.mp hmiddle
      have hapart' : Apart le (before ++ rest :: after) := by
        refine pairwise_append.mpr ⟨hbefore, pairwise_cons.mpr ⟨?_, hlast⟩, ?_⟩
        · exact fun run hmem z hz => hafter run hmem z (by simp [hz])
        · intro run hmem run' hmem' y hy z hz
          rcases mem_cons.mp hmem' with rfl | hmem'
          · exact hcross run hmem (x :: run') (by simp) y hy z (by simp [hz])
          · exact hcross run hmem run' (by simp [hmem']) y hy z hz
      have hih := ih (forall_mem_middle.mpr ⟨hrestMem, hothers⟩) hapart'
      rw [flatten_append, flatten_cons, filter_append, filter_append] at hih
      rw [filter_cons, hih, flatten_append, flatten_cons, filter_append,
        filter_append, filter_cons]
      by_cases hax : tied le a x = true
      · -- the earlier runs hold only copies of `x` among its ties
        have hcopies : ∀ y ∈ before.flatten.filter (tied le a), y = x := by
          intro y hy
          obtain ⟨hy, hay⟩ := mem_filter.mp hy
          obtain ⟨run, hmem, hy⟩ := mem_flatten.mp hy
          have hya : tied le y a = true := by
            rw [tied_comm]
            exact hay
          exact hcross run hmem (x :: rest) (by simp) y hy x (by simp)
            (hle.tied_trans (hothers run (by simp [hmem]) y hy) ha hx hya hax)
        rw [if_pos hax, if_pos hax, eq_replicate_of_mem hcopies, ← cons_append,
          ← replicate_succ, replicate_succ', append_assoc]
        rfl
      · rw [if_neg hax, if_neg hax]

theorem sameTies (hle : TotalPreorderOn le D) (h : Merges le runs out)
    (hD : ∀ run ∈ runs, ∀ x ∈ run, D x) (hapart : Apart le runs) :
    SameTies le D runs.flatten out :=
  ⟨h.perm, fun _ ha => h.ties hle hD hapart ha⟩

end Merges

end Preorder

end SoupDB
