import Mathlib.Data.List.Nodup

/-!
# Dictionaries that remember the order of insertion

The keys of an `OrderedDict` do not repeat.  Assigning to a key that is present keeps its
place, assigning to a new key puts it at the end, and `moveToEnd` makes a key the last
one.

The lemmas say what a key is mapped to after each operation and how the number of keys
changes.
-/

namespace SoupDB

open List

/-- `OrderedDict[K, V]`, in the order of insertion. -/
structure OrderedDict (K V : Type) where
  entries : List (K × V)
  nodup : (entries.map Prod.fst).Nodup

namespace OrderedDict

variable {K V : Type}

def empty : OrderedDict K V := ⟨[], nodup_nil⟩

def keys (d : OrderedDict K V) : List K := d.entries.map Prod.fst

/-- `len(d)`. -/
def size (d : OrderedDict K V) : Nat := d.entries.length

variable [DecidableEq K]

/-- `d.get(k)`. -/
def get? (d : OrderedDict K V) (k : K) : Option V :=
  (d.entries.find? (fun e => e.1 = k)).map Prod.snd

/-- `k in d`. -/
def contains (d : OrderedDict K V) (k : K) : Bool := (d.get? k).isSome

/-- Give the value to the key where it stands. -/
def replaceIn (k : K) (v : V) (entries : List (K × V)) : List (K × V) :=
  entries.map (fun e => if e.1 = k then (k, v) else e)

theorem map_fst_replaceIn (k : K) (v : V) (entries : List (K × V)) :
    (replaceIn k v entries).map Prod.fst = entries.map Prod.fst := by
  rw [replaceIn, map_map]
  refine map_congr_left (fun e _ => ?_)
  by_cases h : e.1 = k
  · simp [h]
  · simp [h]

theorem notMem_filter (k : K) (entries : List (K × V)) :
    k ∉ (entries.filter (fun e => e.1 ≠ k)).map Prod.fst := by
  simp

/-- The keys other than one, and that one at the end. -/
theorem nodup_filter_append {entries : List (K × V)} (h : (entries.map Prod.fst).Nodup) (k : K)
    (v : V) : ((entries.filter (fun e => e.1 ≠ k) ++ [(k, v)]).map Prod.fst).Nodup := by
  rw [map_append, nodup_append]
  refine ⟨(filter_sublist.map Prod.fst).nodup h, by simp, ?_⟩
  intro a ha b hb
  rw [map_cons, map_nil, mem_singleton] at hb
  rintro rfl
  rw [hb] at ha
  exact notMem_filter k entries ha

/-- `del d[k]`, where the key is present. -/
def erase (d : OrderedDict K V) (k : K) : OrderedDict K V :=
  ⟨d.entries.filter (fun e => e.1 ≠ k), (filter_sublist.map Prod.fst).nodup d.nodup⟩

/-- The key with this value at the end. -/
def setLast (d : OrderedDict K V) (k : K) (v : V) : OrderedDict K V :=
  ⟨d.entries.filter (fun e => e.1 ≠ k) ++ [(k, v)], nodup_filter_append d.nodup k v⟩

/-- `d[k] = v`. -/
def set (d : OrderedDict K V) (k : K) (v : V) : OrderedDict K V :=
  if d.contains k then
    ⟨replaceIn k v d.entries, by
      rw [map_fst_replaceIn]
      exact d.nodup⟩
  else d.setLast k v

/-- `d.move_to_end(k)`, where the key is present. -/
def moveToEnd (d : OrderedDict K V) (k : K) : OrderedDict K V :=
  match d.get? k with
  | some v => d.setLast k v
  | none => d

/-- `{k: v for k, v in pairs}`. -/
def ofPairs (pairs : List (K × V)) : OrderedDict K V :=
  pairs.foldl (fun d e => d.set e.1 e.2) empty

omit [DecidableEq K] in
theorem map_fst_map_values {W : Type} (f : K → V → W) (entries : List (K × V)) :
    (entries.map (fun e => (e.1, f e.1 e.2))).map Prod.fst = entries.map Prod.fst := by
  rw [map_map]
  rfl

/-- `{k: f(k, v) for k, v in d.items()}`. -/
def mapValues {W : Type} (f : K → V → W) (d : OrderedDict K V) : OrderedDict K W :=
  ⟨d.entries.map (fun e => (e.1, f e.1 e.2)), by
    rw [map_fst_map_values]
    exact d.nodup⟩

section Lemmas

variable {d : OrderedDict K V} {k k' : K} {v : V}

theorem get?_empty (k : K) : (empty : OrderedDict K V).get? k = none := rfl

theorem mem_of_get? (h : d.get? k = some v) : (k, v) ∈ d.entries := by
  rw [get?, Option.map_eq_some_iff] at h
  obtain ⟨e, he, rfl⟩ := h
  have hkey : e.1 = k := by simpa using find?_some he
  rw [← hkey]
  exact mem_of_find?_eq_some he

theorem get?_eq_none : d.get? k = none ↔ k ∉ d.keys := by
  rw [get?, Option.map_eq_none_iff, find?_eq_none, keys, mem_map]
  constructor
  · rintro h ⟨e, he, rfl⟩
    exact h e he (by simp)
  · intro h e he hk
    exact h ⟨e, he, by simpa using hk⟩

theorem get?_isSome : (d.get? k).isSome = true ↔ k ∈ d.keys := by
  rw [← not_iff_not, Bool.not_eq_true, Option.isSome_eq_false_iff, Option.isNone_iff_eq_none,
    get?_eq_none]

/-- A key has the value it stands with. -/
theorem get?_of_mem (h : (k, v) ∈ d.entries) : d.get? k = some v := by
  have hsome : (d.get? k).isSome = true := get?_isSome.mpr (mem_map.mpr ⟨_, h, rfl⟩)
  obtain ⟨w, hw⟩ := Option.isSome_iff_exists.mp hsome
  have hpair : (k, w) = (k, v) := inj_on_of_nodup_map d.nodup (mem_of_get? hw) h rfl
  rw [hw, (Prod.mk.inj hpair).2]

theorem get?_eq_some : d.get? k = some v ↔ (k, v) ∈ d.entries :=
  ⟨mem_of_get?, get?_of_mem⟩

theorem find?_filter_ne (entries : List (K × V)) (h : k' ≠ k) :
    (entries.filter (fun e => e.1 ≠ k)).find? (fun e => e.1 = k') =
      entries.find? (fun e => e.1 = k') := by
  induction entries with
  | nil => rfl
  | cons e entries ih =>
      by_cases he : e.1 = k
      · have hne : ¬ e.1 = k' := fun hk => h (hk.symm.trans he)
        rw [filter_cons_of_neg (by simp [he]), ih, find?_cons_of_neg (by simp [hne])]
      · rw [filter_cons_of_pos (by simp [he])]
        by_cases hk : e.1 = k'
        · rw [find?_cons_of_pos (by simp [hk]), find?_cons_of_pos (by simp [hk])]
        · rw [find?_cons_of_neg (by simp [hk]), find?_cons_of_neg (by simp [hk]), ih]

theorem get?_erase (d : OrderedDict K V) (k k' : K) :
    (d.erase k).get? k' = if k' = k then none else d.get? k' := by
  by_cases h : k' = k
  · subst h
    rw [if_pos rfl, get?_eq_none]
    exact notMem_filter k' d.entries
  · rw [if_neg h, get?, erase, find?_filter_ne d.entries h, get?]

theorem get?_setLast (d : OrderedDict K V) (k k' : K) (v : V) :
    (d.setLast k v).get? k' = if k' = k then some v else d.get? k' := by
  by_cases h : k' = k
  · subst h
    rw [if_pos rfl]
    exact get?_of_mem (by simp [setLast])
  · rw [if_neg h, get?, setLast, find?_append, find?_filter_ne d.entries h,
      find?_cons_of_neg (by simpa using Ne.symm h), find?_nil, Option.or_none, get?]

theorem get?_set (d : OrderedDict K V) (k k' : K) (v : V) :
    (d.set k v).get? k' = if k' = k then some v else d.get? k' := by
  cases hc : d.contains k with
  | false =>
      rw [set, hc, if_neg (by simp), get?_setLast]
  | true =>
      by_cases h : k' = k
      · subst h
        obtain ⟨w, hw⟩ := Option.isSome_iff_exists.mp hc
        rw [if_pos rfl]
        refine get?_of_mem ?_
        rw [set, if_pos hc]
        exact mem_map.mpr ⟨(k', w), mem_of_get? hw, by simp⟩
      · rw [if_neg h]
        cases hg : d.get? k' with
        | none =>
            rw [get?_eq_none] at hg ⊢
            rw [set, if_pos hc, keys, map_fst_replaceIn]
            exact hg
        | some w =>
            refine get?_of_mem ?_
            rw [set, if_pos hc]
            exact mem_map.mpr ⟨(k', w), mem_of_get? hg, by simp [h]⟩

theorem mem_keys_set : k' ∈ (d.set k v).keys ↔ k' = k ∨ k' ∈ d.keys := by
  rw [← get?_isSome, ← get?_isSome, get?_set]
  by_cases h : k' = k
  · simp [h]
  · simp [h]

/-- What a key is mapped to after a loop that sets keys of distinct elements. -/
theorem mem_keys_foldl_set {α : Type} (key : α → K) (value : OrderedDict K V → α → V)
    (xs : List α) (d : OrderedDict K V) :
    k ∈ (xs.foldl (fun d x => d.set (key x) (value d x)) d).keys ↔
      k ∈ d.keys ∨ ∃ x ∈ xs, key x = k := by
  induction xs generalizing d with
  | nil => simp
  | cons x xs ih =>
      rw [foldl_cons, ih, mem_keys_set]
      constructor
      · rintro ((rfl | h) | ⟨y, hy, rfl⟩)
        · exact Or.inr ⟨x, by simp, rfl⟩
        · exact Or.inl h
        · exact Or.inr ⟨y, by simp [hy], rfl⟩
      · rintro (h | ⟨y, hy, rfl⟩)
        · exact Or.inl (Or.inr h)
        · rcases mem_cons.mp hy with rfl | hy
          · exact Or.inl (Or.inl rfl)
          · exact Or.inr ⟨y, hy, rfl⟩

theorem mem_keys_foldl_set_of {α : Type} (p : α → Prop) [DecidablePred p] (key : α → K)
    (value : OrderedDict K V → α → V) (xs : List α) (d : OrderedDict K V) :
    k ∈ (xs.foldl (fun d x => if p x then d else d.set (key x) (value d x)) d).keys ↔
      k ∈ d.keys ∨ ∃ x ∈ xs, ¬ p x ∧ key x = k := by
  have hfilter : xs.foldl (fun d x => if p x then d else d.set (key x) (value d x)) d =
      (xs.filter (fun x => ¬ p x)).foldl (fun d x => d.set (key x) (value d x)) d := by
    rw [foldl_filter]
    refine foldl_ext _ _ d (fun d x _ => ?_)
    by_cases hx : p x
    · simp [hx]
    · simp [hx]
  rw [hfilter, mem_keys_foldl_set]
  simp [and_assoc]

/-- What distinct keys are mapped to after a loop that sets each from its value before. -/
theorem get?_foldl_set (value : K → Option V → V) {ks : List K} (h : ks.Nodup)
    (d : OrderedDict K V) :
    (ks.foldl (fun d k => d.set k (value k (d.get? k))) d).get? k =
      if k ∈ ks then some (value k (d.get? k)) else d.get? k := by
  induction ks generalizing d with
  | nil => simp
  | cons k' ks ih =>
      obtain ⟨hnot, hnodup⟩ := nodup_cons.mp h
      rw [foldl_cons, ih hnodup, get?_set]
      by_cases heq : k = k'
      · subst heq
        simp [hnot]
      · simp [heq]

variable {pairs : List (K × V)}

theorem mem_keys_ofPairs : k ∈ (ofPairs pairs).keys ↔ k ∈ pairs.map Prod.fst := by
  rw [ofPairs, mem_keys_foldl_set Prod.fst (fun _ e => e.2)]
  simp [empty, keys]

omit [DecidableEq K] in
theorem keys_map_values {W : Type} (f : K → V → W) (d : OrderedDict K V) :
    (d.mapValues f).keys = d.keys := map_fst_map_values f d.entries

theorem get?_map_values {W : Type} (f : K → V → W) (d : OrderedDict K V) (k : K) :
    (d.mapValues f).get? k = (d.get? k).map (f k) := by
  cases hget : d.get? k with
  | none =>
      rw [get?_eq_none] at hget
      rw [Option.map_none, get?_eq_none, keys_map_values]
      exact hget
  | some v => exact get?_of_mem (mem_map.mpr ⟨(k, v), mem_of_get? hget, rfl⟩)

theorem get?_move_to_end (d : OrderedDict K V) (k k' : K) :
    (d.moveToEnd k).get? k' = d.get? k' := by
  rw [moveToEnd]
  cases hg : d.get? k with
  | none => rfl
  | some v =>
      simp only
      rw [get?_setLast]
      by_cases h : k' = k
      · rw [if_pos h, h, hg]
      · rw [if_neg h]

theorem size_erase (h : (d.get? k).isSome = true) : (d.erase k).size + 1 = d.size := by
  obtain ⟨v, hv⟩ := Option.isSome_iff_exists.mp h
  obtain ⟨before, after, hsplit⟩ := append_of_mem (mem_of_get? hv)
  have hnodup := d.nodup
  rw [hsplit, map_append, map_cons] at hnodup
  have hperm : (before.map Prod.fst ++ k :: after.map Prod.fst).Perm
      (k :: (before.map Prod.fst ++ after.map Prod.fst)) := perm_middle
  have hnot := (nodup_cons.mp (hperm.nodup_iff.mp hnodup)).1
  rw [← map_append] at hnot
  have hkeep : (before ++ after).filter (fun e => e.1 ≠ k) = before ++ after := by
    rw [filter_eq_self]
    intro e he
    have hne : e.1 ≠ k := fun hk => hnot (hk ▸ mem_map.mpr ⟨e, he, rfl⟩)
    simpa using hne
  rw [filter_append] at hkeep
  have herased : (d.erase k).entries = before ++ after := by
    change d.entries.filter (fun e => e.1 ≠ k) = before ++ after
    rw [hsplit, filter_append, filter_cons_of_neg (by simp), hkeep]
  rw [size, herased, size, hsplit]
  simp only [length_append, length_cons]
  omega

theorem size_setLast (d : OrderedDict K V) (k : K) (v : V) :
    (d.setLast k v).size = (d.erase k).size + 1 := by
  simp [setLast, erase, size]

theorem erase_of_get?_eq_none (h : d.get? k = none) : d.erase k = d := by
  rw [get?_eq_none, keys] at h
  have hkeep : d.entries.filter (fun e => e.1 ≠ k) = d.entries := by
    rw [filter_eq_self]
    intro e he
    have hne : e.1 ≠ k := fun hk => h (hk ▸ mem_map.mpr ⟨e, he, rfl⟩)
    simpa using hne
  cases d
  simp only [erase, hkeep]

/-- A new key comes at the end. -/
theorem entries_set_of_new (h : d.get? k = none) :
    (d.set k v).entries = d.entries ++ [(k, v)] := by
  have herase := congrArg OrderedDict.entries (erase_of_get?_eq_none h)
  rw [set, contains, h]
  exact congrArg (· ++ [(k, v)]) herase

/-- Distinct keys come in the order they are set in. -/
theorem entries_ofPairs (h : (pairs.map Prod.fst).Nodup) : (ofPairs pairs).entries = pairs := by
  have hfold : ∀ (pairs : List (K × V)) (d : OrderedDict K V),
      (d.keys ++ pairs.map Prod.fst).Nodup →
        (pairs.foldl (fun d e => d.set e.1 e.2) d).entries = d.entries ++ pairs := by
    intro pairs
    induction pairs with
    | nil => simp
    | cons e pairs ih =>
        intro d hnodup
        rw [map_cons] at hnodup
        have hnew : d.get? e.1 = none := by
          rw [get?_eq_none]
          exact fun hmem => (nodup_append.mp hnodup).2.2 _ hmem _ (by simp) rfl
        have hkeys : (d.set e.1 e.2).keys = d.keys ++ [e.1] := by
          rw [keys, entries_set_of_new hnew, map_append]
          rfl
        rw [foldl_cons, ih (d.set e.1 e.2) (by simpa [hkeys] using hnodup),
          entries_set_of_new hnew, append_assoc]
        rfl
  rw [ofPairs, hfold pairs empty (by simpa [empty, keys] using h)]
  rfl

theorem size_set (d : OrderedDict K V) (k : K) (v : V) :
    (d.set k v).size = if (d.get? k).isSome then d.size else d.size + 1 := by
  cases hc : (d.get? k).isSome with
  | true =>
      rw [set, contains, hc, if_pos rfl, if_pos rfl]
      simp [size, replaceIn]
  | false =>
      have hnone : d.get? k = none := by simpa using hc
      rw [set, contains, hc, if_neg (by simp), if_neg (by simp), size_setLast,
        erase_of_get?_eq_none hnone]

theorem size_move_to_end (d : OrderedDict K V) (k : K) : (d.moveToEnd k).size = d.size := by
  rw [moveToEnd]
  cases hg : d.get? k with
  | none => rfl
  | some v =>
      simp only
      rw [size_setLast, size_erase (by simp [hg])]

end Lemmas

end OrderedDict
end SoupDB
