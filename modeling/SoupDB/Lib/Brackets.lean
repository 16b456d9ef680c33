import Mathlib.Data.List.Basic
import Mathlib.Data.List.Count

/-!
# Brackets

Lists in which some elements open a bracket and some close one.  A balanced list never closes more
brackets than it has opened, and closes all of them.

Main facts: `Balanced.append`, `Balanced.enclose`, `not_balanced_inside` and `append_inj_of_count`.
-/

namespace SoupDB.Brackets

variable {α : Type} (bracket : α → Option Bool)

/-- The number of open brackets after one element.  `some true` opens a bracket and `some false`
closes one. -/
def step : Option Bool → Nat → Option Nat
  | some true, n => some (n + 1)
  | some false, 0 => none
  | some false, n + 1 => some n
  | none, n => some n

/-- The number of open brackets after the list, if no bracket is closed too early. -/
def depth : Nat → List α → Option Nat
  | n, [] => some n
  | n, a :: as => (step (bracket a) n).bind (fun n => depth n as)

/-- Every bracket is closed, and not before it is opened. -/
def Balanced (as : List α) : Prop := depth bracket 0 as = some 0

variable {bracket} {as bs : List α} {a b : α} {m n k : Nat}

theorem depth_append : depth bracket n (as ++ bs) =
    (depth bracket n as).bind (fun m => depth bracket m bs) := by
  induction as generalizing n with
  | nil => rfl
  | cons a as ih =>
      rw [List.cons_append, depth, depth, Option.bind_assoc]
      exact congrArg _ (funext fun _ => ih)

theorem step_add {kind : Option Bool} (h : step kind n = some m) :
    step kind (n + k) = some (m + k) := by
  match kind, n with
  | some true, n =>
      cases h
      rw [step, Nat.add_right_comm]
  | some false, 0 => cases h
  | some false, n + 1 =>
      cases h
      rw [Nat.add_right_comm, step]
  | none, n =>
      cases h
      rfl

/-- More brackets that are open before the list are open after it. -/
theorem depth_add (h : depth bracket n as = some m) : depth bracket (n + k) as = some (m + k) := by
  induction as generalizing n with
  | nil =>
      cases h
      rfl
  | cons a as ih =>
      rw [depth] at h
      obtain ⟨n', hstep, hrest⟩ := Option.bind_eq_some_iff.mp h
      rw [depth, step_add hstep, Option.bind_some, ih hrest]

theorem balanced_nil : Balanced bracket [] := rfl

theorem Balanced.depth (h : Balanced bracket as) : depth bracket n as = some n := by
  have hdepth := depth_add (k := n) h
  rwa [Nat.zero_add] at hdepth

theorem Balanced.append (has : Balanced bracket as) (hbs : Balanced bracket bs) :
    Balanced bracket (as ++ bs) := by
  rw [Balanced, depth_append, has, Option.bind_some, hbs]

theorem Balanced.cons (ha : bracket a = none) (has : Balanced bracket as) :
    Balanced bracket (a :: as) := by
  rw [Balanced, Brackets.depth, ha, step, Option.bind_some, has]

theorem Balanced.enclose (ha : bracket a = some true) (hb : bracket b = some false)
    (has : Balanced bracket as) : Balanced bracket (a :: as ++ [b]) := by
  rw [Balanced, List.cons_append, Brackets.depth, ha, step, Option.bind_some, depth_append,
    has.depth, Option.bind_some, Brackets.depth, hb]
  rfl

/-- What stands between two brackets is not balanced when a proper part before it ends is. -/
theorem not_balanced_inside {xs ys inner : List α} (ha : bracket a = some true)
    (hxs : Balanced bracket xs) (hxs' : xs ≠ []) (hys : ys ≠ [])
    (hsplit : a :: inner ++ [b] = xs ++ ys) : ¬ Balanced bracket inner := by
  intro hinner
  obtain ⟨x, front, rfl⟩ := List.exists_cons_of_ne_nil hxs'
  obtain ⟨back, y, rfl⟩ := (List.eq_nil_or_concat' ys).resolve_left hys
  rw [List.cons_append, List.cons_append, List.cons.injEq, ← List.append_assoc] at hsplit
  obtain ⟨rfl, hsplit⟩ := hsplit
  obtain ⟨rfl, _⟩ := List.append_inj' hsplit rfl
  rw [Balanced, depth_append] at hinner
  obtain ⟨m, hfront, _⟩ := Option.bind_eq_some_iff.mp hinner
  rw [Balanced, Brackets.depth, ha, step, Option.bind_some, depth_add hfront] at hxs
  cases hxs

/-! ## Splitting at a counted element -/

/-- Two splits of a list at elements of a kind agree when as many of the kind stand before them. -/
theorem append_inj_of_count {p : α → Bool} {xs xs' ys ys' : List α} (ha : p a = true)
    (hb : p b = true) (hsplit : xs ++ a :: ys = xs' ++ b :: ys')
    (hcount : xs.countP p = xs'.countP p) : xs = xs' ∧ a = b ∧ ys = ys' := by
  have hparts : xs = xs' := by
    rcases List.append_eq_append_iff.mp hsplit with ⟨more, hmore, hrest⟩ | ⟨more, hmore, hrest⟩
    · cases more with
      | nil => rw [hmore, List.append_nil]
      | cons c more =>
          obtain ⟨rfl, _⟩ := List.cons.inj hrest
          rw [hmore, List.countP_append, List.countP_cons_of_pos ha] at hcount
          omega
    · cases more with
      | nil => rw [hmore, List.append_nil]
      | cons c more =>
          obtain ⟨rfl, _⟩ := List.cons.inj hrest
          rw [hmore, List.countP_append, List.countP_cons_of_pos hb] at hcount
          omega
  subst hparts
  obtain ⟨rfl, rfl⟩ := List.cons.inj (List.append_cancel_left hsplit)
  exact ⟨rfl, rfl, rfl⟩

end SoupDB.Brackets
