import Mathlib.Data.List.AList

/-!
# Dictionaries

A dictionary is an association list without duplicate keys.  The lemmas below say what a
key is mapped to after an update of any key, so that proofs about updates split on
whether two keys are equal and nothing else.
-/

namespace SoupDB

/-- `dict[K, V]`. -/
abbrev Dict (K V : Type) : Type := AList (fun _ : K => V)

namespace Dict

variable {K V : Type} [DecidableEq K] {d : Dict K V} {k k' : K} {v : V}

theorem lookup_insert_eq (d : Dict K V) (k k' : K) (v : V) :
    (AList.insert k v d).lookup k' = if k' = k then some v else d.lookup k' := by
  by_cases h : k' = k
  · subst h
    rw [if_pos rfl]
    exact AList.lookup_insert d
  · rw [if_neg h]
    exact AList.lookup_insert_ne h

theorem lookup_erase_eq (d : Dict K V) (k k' : K) :
    (AList.erase k d).lookup k' = if k' = k then none else d.lookup k' := by
  by_cases h : k' = k
  · subst h
    rw [if_pos rfl]
    exact AList.lookup_erase k' d
  · rw [if_neg h]
    exact AList.lookup_erase_ne h

/-- `all(p(key, value) for key, value in d.items())`. -/
def all (d : Dict K V) (p : K → V → Bool) : Bool := d.entries.all (fun e => p e.1 e.2)

theorem all_iff {p : K → V → Bool} :
    d.all p = true ↔ ∀ k v, d.lookup k = some v → p k v = true := by
  unfold all
  rw [List.all_eq_true]
  constructor
  · intro h k v hkv
    exact h ⟨k, v⟩ (AList.mem_lookup_iff.mp hkv)
  · rintro h ⟨k, v⟩ hkv
    exact h k v (AList.mem_lookup_iff.mpr hkv)

end Dict
end SoupDB
