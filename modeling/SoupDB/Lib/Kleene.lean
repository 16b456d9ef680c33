import Mathlib.Data.Fintype.Option

/-!
# Formulas with three truth values

A formula over atoms, its value under the strong Kleene connectives, and its two-valued
truth where each atom is read by the sign of its occurrence.

Main facts: `Formula.value_eq_true` and `Formula.collapsed_exact` (when reading the unknown
atoms as false decides whether the value is true).
-/

namespace Kleene

variable {α : Type}

/-- The value of a conjunction. -/
def conj : Option Bool → Option Bool → Option Bool
  | some false, _ => some false
  | _, some false => some false
  | some true, some true => some true
  | _, _ => none

/-- The value of a disjunction. -/
def disj : Option Bool → Option Bool → Option Bool
  | some true, _ => some true
  | _, some true => some true
  | some false, some false => some false
  | _, _ => none

/-- The value of a negation. -/
def neg : Option Bool → Option Bool
  | some b => some !b
  | none => none

theorem conj_eq_true (a b : Option Bool) :
    conj a b = some true ↔ a = some true ∧ b = some true := by
  revert a b
  decide

theorem conj_eq_false (a b : Option Bool) :
    conj a b = some false ↔ a = some false ∨ b = some false := by
  revert a b
  decide

theorem disj_eq_true (a b : Option Bool) :
    disj a b = some true ↔ a = some true ∨ b = some true := by
  revert a b
  decide

theorem disj_eq_false (a b : Option Bool) :
    disj a b = some false ↔ a = some false ∧ b = some false := by
  revert a b
  decide

theorem neg_eq_some (a : Option Bool) (b : Bool) : neg a = some b ↔ a = some !b := by
  revert a b
  decide

/-- Propositional formulas. -/
inductive Formula (α : Type)
  | atom (a : α)
  | conj (f g : Formula α)
  | disj (f g : Formula α)
  | neg (f : Formula α)

/-- The least completion of a valuation: what is unknown is false. -/
def least (v : α → Option Bool) : α → Bool := fun a => (v a).getD false

/-- The greatest completion of a valuation: what is unknown is true. -/
def greatest (v : α → Option Bool) : α → Bool := fun a => (v a).getD true

/-- The reading agrees with the valuation on the known atoms. -/
def Completes (v : α → Option Bool) (w : α → Bool) : Prop :=
  ∀ a b, v a = some b → w a = b

theorem least_completes (v : α → Option Bool) : Completes v (least v) := by
  intro a b h
  rw [least, h, Option.getD_some]

theorem greatest_completes (v : α → Option Bool) : Completes v (greatest v) := by
  intro a b h
  rw [greatest, h, Option.getD_some]

variable {v : α → Option Bool}

theorem Completes.least_le {w : α → Bool} (h : Completes v w) (a : α) : least v a ≤ w a := by
  cases ha : v a with
  | none =>
      rw [least, ha, Option.getD_none]
      exact Bool.false_le _
  | some b => rw [least, ha, Option.getD_some, h a b ha]

theorem Completes.le_greatest {w : α → Bool} (h : Completes v w) (a : α) : w a ≤ greatest v a := by
  cases ha : v a with
  | none =>
      rw [greatest, ha, Option.getD_none]
      exact Bool.le_true _
  | some b => rw [greatest, ha, Option.getD_some, h a b ha]

namespace Formula

def value (v : α → Option Bool) : Formula α → Option Bool
  | .atom a => v a
  | .conj f g => Kleene.conj (f.value v) (g.value v)
  | .disj f g => Kleene.disj (f.value v) (g.value v)
  | .neg f => Kleene.neg (f.value v)

/-- The truth of a formula whose atoms are read by `even` below an even number of negations
and by `odd` below an odd number. -/
def holds (even odd : α → Bool) : Formula α → Bool
  | .atom a => even a
  | .conj f g => f.holds even odd && g.holds even odd
  | .disj f g => f.holds even odd || g.holds even odd
  | .neg f => !f.holds odd even

theorem holds_mono {even even' odd odd' : α → Bool} (heven : ∀ a, even a ≤ even' a)
    (hodd : ∀ a, odd' a ≤ odd a) (f : Formula α) :
    f.holds even odd = true → f.holds even' odd' = true := by
  induction f generalizing even even' odd odd' with
  | atom a => exact heven a
  | conj f g ihf ihg =>
      simp only [holds, Bool.and_eq_true]
      exact And.imp (ihf heven hodd) (ihg heven hodd)
  | disj f g ihf ihg =>
      simp only [holds, Bool.or_eq_true]
      exact Or.imp (ihf heven hodd) (ihg heven hodd)
  | neg f ih =>
      simp only [holds, Bool.not_eq_true', ← Bool.not_eq_true]
      exact mt (ih hodd heven)

/-- The value is true, or false, where no reading of the unknown atoms tells otherwise. -/
theorem value_eq (v : α → Option Bool) (f : Formula α) :
    (f.value v = some true ↔ f.holds (least v) (greatest v) = true) ∧
      (f.value v = some false ↔ f.holds (greatest v) (least v) = false) := by
  induction f with
  | atom a =>
      simp only [value, holds, least, greatest]
      cases v a with
      | none => simp
      | some b => simp
  | conj f g ihf ihg =>
      simp only [value, holds, conj_eq_true, conj_eq_false, ihf, ihg, Bool.and_eq_true,
        Bool.and_eq_false_iff, and_self]
  | disj f g ihf ihg =>
      simp only [value, holds, disj_eq_true, disj_eq_false, ihf, ihg, Bool.or_eq_true,
        Bool.or_eq_false_iff, and_self]
  | neg f ih =>
      simp only [value, holds, neg_eq_some, Bool.not_true, Bool.not_false, ih, Bool.not_eq_true',
        Bool.not_eq_false', and_self]

theorem value_eq_true {v : α → Option Bool} {f : Formula α} :
    f.value v = some true ↔ f.holds (least v) (greatest v) = true :=
  (value_eq v f).1

/-- How the unknown atoms below an odd number of negations are read does not matter, where
the others are false. -/
def Indifferent (v : α → Option Bool) (f : Formula α) : Prop :=
  ∀ w w', Completes v w → Completes v w' → f.holds (least v) w = f.holds (least v) w'

/-- Reading every unknown atom as false decides whether the value is true exactly where the
unknown atoms below an odd number of negations do not matter. -/
theorem collapsed_exact (v : α → Option Bool) (f : Formula α) :
    (f.holds (least v) (least v) = true ↔ f.value v = some true) ↔ f.Indifferent v := by
  rw [value_eq_true]
  constructor
  · intro h w w' hw hw'
    have hall : ∀ w, Completes v w →
        f.holds (least v) w = f.holds (least v) (least v) := by
      intro w hw
      rw [Bool.eq_iff_iff]
      constructor
      · exact holds_mono (fun a => le_refl _) hw.least_le f
      · intro hleast
        exact holds_mono (fun a => le_refl _) hw.le_greatest f (h.mp hleast)
    rw [hall w hw, hall w' hw']
  · intro h
    rw [h _ _ (least_completes v) (greatest_completes v)]

end Formula
end Kleene
