import Mathlib.Data.List.Nodup
import Mathlib.Data.List.Perm.Subperm

/-!
# Searching a cycle

`revisits succ rounds node path` is the depth-first search that returns true as soon as a walk
comes back to a node of its path.  Started with an empty path it finds out whether a cycle can
be reached from the node (`revisits_iff`), which is weaker than the node being on a cycle, and
more rounds than there are nodes with a successor change nothing.
-/

namespace SoupDB

open Relation

variable {α : Type} [DecidableEq α]

/-- Whether a walk from the node comes back to the path or to itself. -/
def revisits (succ : α → List α) : Nat → α → List α → Bool
  | 0, _, _ => false
  | rounds + 1, node, path =>
      node ∈ path || (succ node).any (fun nxt => revisits succ rounds nxt (node :: path))

/-- The node is on a cycle. -/
def OnCycle (r : α → α → Prop) (a : α) : Prop := TransGen r a a

def ReachesCycle (r : α → α → Prop) (a : α) : Prop := ∃ b, ReflTransGen r a b ∧ OnCycle r b

section Search

variable {succ : α → List α} {r s : α → α → Prop} {a b : α}

section

omit [DecidableEq α]

theorem OnCycle.reaches (h : OnCycle r a) : ReachesCycle r a := ⟨a, .refl, h⟩

theorem OnCycle.mono (h : OnCycle r a) (hrs : ∀ a b, r a b → s a b) : OnCycle s a :=
  TransGen.mono hrs a a h

theorem ReachesCycle.head (hab : r a b) (h : ReachesCycle r b) : ReachesCycle r a := by
  obtain ⟨c, hbc, hcycle⟩ := h
  exact ⟨c, hbc.head hab, hcycle⟩

theorem ReachesCycle.next (h : ReachesCycle r a) : ∃ b, r a b ∧ ReachesCycle r b := by
  obtain ⟨c, hac, hcycle⟩ := h
  rcases ReflTransGen.cases_head hac with rfl | ⟨b, hab, hbc⟩
  · obtain ⟨b, hab, hba⟩ := TransGen.head'_iff.mp hcycle
    exact ⟨b, hab, a, hba, hcycle⟩
  · exact ⟨b, hab, c, hbc, hcycle⟩

end

/-- What the search finds is a way back to the path or a cycle. -/
theorem revisits_sound (hr : ∀ a b, b ∈ succ a → r a b) : ∀ {rounds : Nat} {node : α}
    {path : List α}, revisits succ rounds node path = true →
      (∃ b ∈ path, ReflTransGen r node b) ∨ ReachesCycle r node := by
  intro rounds
  induction rounds with
  | zero =>
      intro node path h
      cases h
  | succ rounds ih =>
      intro node path h
      rw [revisits, Bool.or_eq_true, decide_eq_true_eq, List.any_eq_true] at h
      rcases h with hmem | ⟨nxt, hnxt, hfound⟩
      · exact Or.inl ⟨node, hmem, .refl⟩
      · have hedge := hr node nxt hnxt
        rcases ih hfound with ⟨b, hb, hreach⟩ | hcycle
        · rcases List.mem_cons.mp hb with rfl | hb
          · exact Or.inr ⟨b, .refl, TransGen.head'_iff.mpr ⟨nxt, hedge, hreach⟩⟩
          · exact Or.inl ⟨b, hb, hreach.head hedge⟩
        · exact Or.inr (hcycle.head hedge)

theorem revisits_complete {nodes : List α} (hr : ∀ a b, r a b → b ∈ succ a)
    (hnodes : ∀ a b, r a b → a ∈ nodes) : ∀ {rounds : Nat} {node : α} {path : List α},
    ReachesCycle r node → path.Nodup → path ⊆ nodes →
      nodes.length + 1 < path.length + rounds → revisits succ rounds node path = true := by
  intro rounds
  induction rounds with
  | zero =>
      intro node path _ hnodup hsub hrounds
      have hlength := (List.subperm_of_subset hnodup hsub).length_le
      omega
  | succ rounds ih =>
      intro node path hcycle hnodup hsub hrounds
      rw [revisits, Bool.or_eq_true, decide_eq_true_eq, List.any_eq_true]
      by_cases hmem : node ∈ path
      · exact Or.inl hmem
      · obtain ⟨nxt, hedge, hnxt⟩ := hcycle.next
        have hpath : (node :: path) ⊆ nodes := by
          intro b hb
          rcases List.mem_cons.mp hb with rfl | hb
          · exact hnodes b nxt hedge
          · exact hsub hb
        refine Or.inr ⟨nxt, hr node nxt hedge, ?_⟩
        refine ih hnxt (List.nodup_cons.mpr ⟨hmem, hnodup⟩) hpath ?_
        rw [List.length_cons]
        omega

/-- With enough rounds, the search finds out whether a cycle can be reached. -/
theorem revisits_iff {nodes : List α} (hr : ∀ a b, b ∈ succ a ↔ r a b)
    (hnodes : ∀ a b, r a b → a ∈ nodes) {rounds : Nat} (hrounds : nodes.length + 2 ≤ rounds) :
    revisits succ rounds a [] = true ↔ ReachesCycle r a := by
  constructor
  · intro h
    rcases revisits_sound (fun a b => (hr a b).mp) h with ⟨b, hb, _⟩ | hcycle
    · cases hb
    · exact hcycle
  · intro h
    refine revisits_complete (fun a b => (hr a b).mpr) hnodes h List.nodup_nil
      (List.nil_subset _) ?_
    rw [List.length_nil]
    omega

end Search

end SoupDB
