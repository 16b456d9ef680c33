import Mathlib.Data.List.Basic

/-!
# Linked sequences

`LinkedTo P as stop` says that every element of a sequence is related to its successor,
the last one to `stop`: the links of a chain of cells, whatever they are stored in.

`linkedTo_append` splits a chain, `LinkedTo.mono` changes the links of every cell, and
`LinkedTo.extend` appends a cell, for which only the link of the last one has to change.
-/

namespace SoupDB

variable {α β : Type}

/-- Every element is linked to the next, the last one to `stop`. -/
def LinkedTo (P : α → Option α → Prop) : List α → Option α → Prop
  | [], _ => True
  | a :: as, stop => P a (as.head?.or stop) ∧ LinkedTo P as stop

section Linked

variable {P Q : α → Option α → Prop} {as bs : List α} {stop stop' : Option α}

theorem linkedTo_append :
    LinkedTo P (as ++ bs) stop ↔ LinkedTo P as (bs.head?.or stop) ∧ LinkedTo P bs stop := by
  induction as with
  | nil => simp [LinkedTo]
  | cons a as ih =>
      have hhead : (as ++ bs).head?.or stop = as.head?.or (bs.head?.or stop) := by
        cases as <;> simp
      rw [List.cons_append, LinkedTo, LinkedTo, ih, hhead, and_assoc]

theorem LinkedTo.mono (h : LinkedTo P as stop) (hPQ : ∀ a ∈ as, ∀ next, P a next → Q a next) :
    LinkedTo Q as stop := by
  induction as with
  | nil => trivial
  | cons a as ih =>
      exact ⟨hPQ a (by simp) _ h.1, ih h.2 (fun b hb => hPQ b (by simp [hb]))⟩

/-- A cell in the middle of a chain. -/
theorem LinkedTo.mem {a : α} (h : LinkedTo P as stop) (ha : a ∈ as) : ∃ next, P a next := by
  induction as with
  | nil => cases ha
  | cons b as ih =>
      rcases List.mem_cons.mp ha with rfl | ha
      · exact ⟨_, h.1⟩
      · exact ih h.2 ha

/-- Two links of the same chain give every cell the same successor. -/
theorem LinkedTo.both (hP : LinkedTo P as stop) (hQ : LinkedTo Q as stop) {a : α} (ha : a ∈ as) :
    ∃ next, P a next ∧ Q a next := by
  induction as with
  | nil => cases ha
  | cons b as ih =>
      rcases List.mem_cons.mp ha with rfl | ha
      · exact ⟨_, hP.1, hQ.1⟩
      · exact ih hP.2 hQ.2 ha

/-- A chain goes on with a new cell: the last cell is linked to it, the others keep their
links. -/
theorem LinkedTo.extend {last new : α} (h : LinkedTo P (as ++ [last]) none)
    (hkeep : ∀ a ∈ as, ∀ next, P a next → Q a next) (hlast : P last none → Q last (some new))
    (hnew : Q new none) : LinkedTo Q (as ++ [last] ++ [new]) none := by
  obtain ⟨hfront, hback⟩ := linkedTo_append.mp h
  refine linkedTo_append.mpr ⟨linkedTo_append.mpr ⟨?_, ?_, trivial⟩, hnew, trivial⟩
  · exact hfront.mono hkeep
  · exact hlast hback.1

end Linked

end SoupDB
