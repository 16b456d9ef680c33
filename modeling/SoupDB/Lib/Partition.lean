import SoupDB.Lib.Except
import Mathlib.Data.List.Perm.Basic
import Mathlib.Data.List.Nodup

/-!
# Joins and groups over partitions

Elements have keys, which are compared by an equivalence `same`.  A function into the
numbers below `n` that is constant on each class of keys cuts a list into buckets.  The
nested-loop join of two lists is the join of their buckets, and the groups of a list are
the groups of its buckets.
-/

namespace SoupDB

open List

variable {ε α β κ σ : Type}

/-- A comparison that is an equivalence on the keys that are the same as themselves. -/
structure SameKey (same : κ → κ → Bool) : Prop where
  symm : ∀ {a b}, same a b = true → same b a = true
  trans : ∀ {a b c}, same a b = true → same b c = true → same a c = true

namespace SameKey

variable {same : κ → κ → Bool}

theorem comm (h : SameKey same) (a b : κ) : same a b = same b a :=
  Bool.eq_iff_iff.mpr ⟨h.symm, h.symm⟩

theorem congr (h : SameKey same) {a b : κ} (hab : same a b = true) (c : κ) :
    same a c = same b c :=
  Bool.eq_iff_iff.mpr ⟨h.trans (h.symm hab), h.trans hab⟩

end SameKey

/-! ## Buckets -/

/-- The elements of a bucket. -/
def bucket (index : α → Nat) (i : Nat) (xs : List α) : List α :=
  xs.filter (fun x => decide (index x = i))

/-- The buckets hold every element once. -/
theorem flatMap_bucket_perm (index : α → Nat) {n : Nat} {xs : List α}
    (h : ∀ x ∈ xs, index x < n) :
    ((range n).flatMap (fun i => bucket index i xs)).Perm xs := by
  induction xs with
  | nil =>
      have hempty : (range n).flatMap (fun i => bucket index i ([] : List α)) = [] :=
        flatMap_eq_nil_iff.mpr (fun _ _ => rfl)
      rw [hempty]
  | cons x xs ih =>
      have hcons : ∀ i, bucket index i (x :: xs) =
          (if i = index x then [x] else []) ++ bucket index i xs := by
        intro i
        unfold bucket
        rw [filter_cons]
        by_cases hi : index x = i
        · rw [if_pos (by simpa using hi), if_pos hi.symm]
          rfl
        · rw [if_neg (by simpa using hi), if_neg (fun h => hi h.symm)]
          rfl
      have hone : ((range n).flatMap (fun i => if i = index x then [x] else [])).Perm [x] := by
        have hmem : index x ∈ range n := mem_range.mpr (h x (by simp))
        exact perm_singleton_of_range nodup_range hmem
      calc (range n).flatMap (fun i => bucket index i (x :: xs))
          = (range n).flatMap (fun i =>
              (if i = index x then [x] else []) ++ bucket index i xs) := by simp only [hcons]
        _ |>.Perm ((range n).flatMap (fun i => if i = index x then [x] else []) ++
              (range n).flatMap (fun i => bucket index i xs)) :=
            (flatMap_append_perm _ _ _).symm
        _ |>.Perm ([x] ++ xs) := hone.append (ih (fun y hy => h y (mem_cons_of_mem x hy)))
where
  perm_singleton_of_range {x : α} {k : Nat} {is : List Nat} (hnodup : is.Nodup) (hk : k ∈ is) :
      (is.flatMap (fun i => if i = k then [x] else [])).Perm [x] := by
    induction is with
    | nil => cases hk
    | cons i is ih =>
        obtain ⟨hi, hrest⟩ := nodup_cons.mp hnodup
        rw [flatMap_cons]
        by_cases heq : i = k
        · have hnil : is.flatMap (fun i => if i = k then [x] else []) = [] := by
            refine flatMap_eq_nil_iff.mpr ?_
            intro j hj
            rw [if_neg]
            rintro rfl
            exact hi (heq ▸ hj)
          rw [if_pos heq, hnil]
          exact List.Perm.refl _
        · rw [if_neg heq, nil_append]
          rcases mem_cons.mp hk with rfl | hk
          · exact absurd rfl heq
          · exact ih hrest hk

/-! ## Joins -/

section Join

variable {same : κ → κ → Bool} {leftKey : α → κ} {rightKey : β → κ}

/-- The pairs with the same key, by two loops. -/
def nestedLoop (same : κ → κ → Bool) (leftKey : α → κ) (rightKey : β → κ) (ls : List α)
    (rs : List β) : List (α × β) :=
  ls.flatMap (fun l => (rs.filter (fun r => same (leftKey l) (rightKey r))).map (fun r => (l, r)))

theorem nestedLoop_nil_right (ls : List α) :
    nestedLoop same leftKey rightKey ls ([] : List β) = [] :=
  flatMap_eq_nil_iff.mpr (fun _ _ => rfl)

theorem nestedLoop_exchange (ls : List α) (rs : List β) :
    (rs.flatMap (fun r =>
      (ls.filter (fun l => same (leftKey l) (rightKey r))).map (fun l => (l, r)))).Perm
      (nestedLoop same leftKey rightKey ls rs) := by
  induction ls with
  | nil =>
      have hnil : rs.flatMap (fun r => (([] : List α).filter (fun l =>
          same (leftKey l) (rightKey r))).map (fun l => (l, r))) = [] :=
        flatMap_eq_nil_iff.mpr (fun _ _ => rfl)
      rw [hnil]
      exact List.Perm.refl _
  | cons l ls ih =>
      have hcons : ∀ r, ((l :: ls).filter (fun l => same (leftKey l) (rightKey r))).map
          (fun l => (l, r)) =
          (if same (leftKey l) (rightKey r) then [(l, r)] else []) ++
            (ls.filter (fun l => same (leftKey l) (rightKey r))).map (fun l => (l, r)) := by
        intro r
        rw [filter_cons]
        split
        · rfl
        · rfl
      have hrow : rs.flatMap (fun r => if same (leftKey l) (rightKey r) then [(l, r)] else []) =
          (rs.filter (fun r => same (leftKey l) (rightKey r))).map (fun r => (l, r)) := by
        clear ih
        induction rs with
        | nil => rfl
        | cons r rs ih =>
            rw [flatMap_cons, filter_cons, ih]
            split
            · rfl
            · rfl
      simp only [hcons]
      refine (flatMap_append_perm _ _ _).symm.trans ?_
      rw [hrow]
      exact List.Perm.append_left _ ih

theorem nestedLoop_perm {ls ls' : List α} {rs rs' : List β} (hl : ls.Perm ls') (hr : rs.Perm rs') :
    (nestedLoop same leftKey rightKey ls rs).Perm
      (nestedLoop same leftKey rightKey ls' rs') := by
  refine (hl.flatMap_right _).trans ?_
  exact List.Perm.flatMap_left _ (fun l _ => (hr.filter _).map _)

theorem nestedLoop_buckets {leftIndex : α → Nat} {rightIndex : β → Nat} {n : Nat} {ls : List α}
    {rs : List β} (hlt : ∀ l ∈ ls, leftIndex l < n)
    (hindex : ∀ l ∈ ls, ∀ r ∈ rs, same (leftKey l) (rightKey r) = true →
      leftIndex l = rightIndex r) :
    ((range n).flatMap (fun i =>
      nestedLoop same leftKey rightKey (bucket leftIndex i ls) (bucket rightIndex i rs))).Perm
      (nestedLoop same leftKey rightKey ls rs) := by
  have hbucket : ∀ i, nestedLoop same leftKey rightKey (bucket leftIndex i ls)
      (bucket rightIndex i rs) =
      nestedLoop same leftKey rightKey (bucket leftIndex i ls) rs := by
    intro i
    refine flatMap_congr (fun l hl => ?_)
    obtain ⟨hmem, hi⟩ := mem_filter.mp hl
    rw [decide_eq_true_eq] at hi
    unfold bucket
    rw [filter_filter]
    refine congrArg _ (filter_congr (fun r hr => ?_))
    cases hsame : same (leftKey l) (rightKey r) with
    | false => rfl
    | true =>
        rw [Bool.true_and, decide_eq_true_eq, ← hindex l hmem r hr hsame, hi]
  simp only [hbucket]
  have hflat : (range n).flatMap (fun i =>
      nestedLoop same leftKey rightKey (bucket leftIndex i ls) rs) =
      nestedLoop same leftKey rightKey ((range n).flatMap (fun i =>
        bucket leftIndex i ls)) rs := by
    unfold nestedLoop
    rw [flatMap_assoc]
  rw [hflat]
  exact nestedLoop_perm (flatMap_bucket_perm leftIndex hlt) (List.Perm.refl rs)

end Join

/-! ## Groups -/

section Group

variable {same : κ → κ → Bool} {key : α → κ} {step : Option σ → α → Except ε σ}

def foldGroup (step : Option σ → α → Except ε σ) : Option σ → List α → Except ε (Option σ)
  | state, [] => .ok state
  | state, x :: xs => do
      let next ← step state x
      foldGroup step (some next) xs

theorem foldGroup_append (state : Option σ) (xs ys : List α) :
    foldGroup step state (xs ++ ys) =
      foldGroup step state xs >>= fun state => foldGroup step state ys := by
  induction xs generalizing state with
  | nil => rfl
  | cons x xs ih =>
      rw [cons_append, foldGroup, foldGroup]
      cases step state x with
      | error e => rfl
      | ok next => exact ih (some next)

theorem foldGroup_pure (step : Option σ → α → σ) (state : Option σ) (xs : List α) :
    foldGroup (fun state x => (.ok (step state x) : Except ε σ)) state xs =
      .ok (xs.foldl (fun state x => some (step state x)) state) := by
  induction xs generalizing state with
  | nil => rfl
  | cons x xs ih =>
      rw [foldGroup, ok_bind, ih, foldl_cons]

/-- The elements with a key. -/
def withKey (same : κ → κ → Bool) (key : α → κ) (k : κ) (xs : List α) : List α :=
  xs.filter (fun x => same (key x) k)

/-- Each key of the list once, with the fold of its elements in their order. -/
structure Grouped (same : κ → κ → Bool) (key : α → κ) (step : Option σ → α → Except ε σ)
    (xs : List α) (groups : List (κ × σ)) : Prop where
  distinct : groups.Pairwise (fun g g' => same g.1 g'.1 = false)
  fold : ∀ g ∈ groups, foldGroup step none (withKey same key g.1 xs) = .ok (some g.2)
  complete : ∀ x ∈ xs, ∃ g ∈ groups, same (key x) g.1 = true
  sound : ∀ g ∈ groups, ∃ x ∈ xs, same (key x) g.1 = true

theorem Grouped.nil : Grouped same key step ([] : List α) ([] : List (κ × σ)) where
  distinct := List.Pairwise.nil
  fold := fun _ h => by cases h
  complete := fun _ h => by cases h
  sound := fun _ h => by cases h

/-- The computation gives the groups of the list, or raises what the fold of a group raises. -/
def Groups (same : κ → κ → Bool) (key : α → κ) (step : Option σ → α → Except ε σ) (xs : List α)
    (result : Except ε (List (κ × σ))) : Prop :=
  (∃ groups, result = .ok groups ∧ Grouped same key step xs groups) ∨
    ∃ e, result = .error e ∧
      ∃ x ∈ xs, foldGroup step none (withKey same key (key x) xs) = .error e

variable {xs : List α} {k : κ} {groups : List (κ × σ)} {v : σ} {g : κ × σ}

theorem withKey_bucket (hsame : SameKey same) {index : α → Nat} {i : Nat}
    (hindex : ∀ x ∈ xs, ∀ y ∈ xs, same (key x) (key y) = true → index x = index y) {x : α}
    (hx : x ∈ bucket index i xs) (hk : same (key x) k = true) :
    withKey same key k (bucket index i xs) = withKey same key k xs := by
  obtain ⟨hmem, hi⟩ := mem_filter.mp hx
  rw [decide_eq_true_eq] at hi
  unfold withKey bucket
  rw [filter_filter]
  refine filter_congr (fun y hy => ?_)
  cases hySame : same (key y) k with
  | false => rfl
  | true =>
      have hxy : same (key x) (key y) = true := hsame.trans hk (hsame.symm hySame)
      rw [Bool.true_and, decide_eq_true_eq, ← hindex x hmem y hy hxy, hi]

theorem groups_buckets (hsame : SameKey same) {index : α → Nat} {n : Nat}
    (hself : ∀ x ∈ xs, same (key x) (key x) = true) (hlt : ∀ x ∈ xs, index x < n)
    (hindex : ∀ x ∈ xs, ∀ y ∈ xs, same (key x) (key y) = true → index x = index y)
    {results : Nat → Except ε (List (κ × σ))}
    (hresults : ∀ i, i < n → Groups same key step (bucket index i xs) (results i)) :
    Groups same key step xs (concatM results (range n)) := by
  cases hconcat : concatM results (range n) with
  | error e =>
      right
      obtain ⟨i, hi, herror⟩ := concatM_error hconcat
      rcases hresults i (mem_range.mp hi) with ⟨groups, hok, _⟩ | ⟨e', herror', x, hx, hfold⟩
      · rw [hok] at herror
        cases herror
      · rw [herror'] at herror
        cases herror
        have hmem := (mem_filter.mp hx).1
        refine ⟨e, rfl, x, hmem, ?_⟩
        rw [← withKey_bucket hsame hindex hx (hself x hmem)]
        exact hfold
  | ok groups =>
      left
      have hall : ∀ i, ∃ gs, i < n → results i = .ok gs ∧
          Grouped same key step (bucket index i xs) gs := by
        intro i
        by_cases hi : i < n
        · obtain ⟨gs, hgs⟩ := concatM_returns.mp ⟨groups, hconcat⟩ i (mem_range.mpr hi)
          rcases hresults i hi with ⟨gs', hok, hgrouped⟩ | ⟨e, herror, _⟩
          · exact ⟨gs', fun _ => ⟨hok, hgrouped⟩⟩
          · rw [herror] at hgs
            cases hgs
        · exact ⟨[], fun h => absurd h hi⟩
      choose gs hgs using hall
      have hflat : groups = (range n).flatMap gs := by
        rw [concatM_ok (fun i hi => (hgs i (mem_range.mp hi)).1)] at hconcat
        exact (Except.ok.inj hconcat).symm
      rw [hflat]
      refine ⟨_, rfl, ?_⟩
      have hmem : ∀ g ∈ (range n).flatMap gs, ∃ i, i < n ∧ g ∈ gs i := by
        intro g hg
        obtain ⟨i, hi, hg⟩ := mem_flatMap.mp hg
        exact ⟨i, mem_range.mp hi, hg⟩
      refine ⟨?_, ?_, ?_, ?_⟩
      · refine pairwise_flatMap.mpr ⟨fun i hi => (hgs i (mem_range.mp hi)).2.distinct, ?_⟩
        refine List.Pairwise.imp_of_mem ?_ nodup_range
        intro i j hi hj hne g hg g' hg'
        obtain ⟨x, hx, hxg⟩ := (hgs i (mem_range.mp hi)).2.sound g hg
        obtain ⟨y, hy, hyg⟩ := (hgs j (mem_range.mp hj)).2.sound g' hg'
        obtain ⟨hx, hxi⟩ := mem_filter.mp hx
        obtain ⟨hy, hyj⟩ := mem_filter.mp hy
        rw [decide_eq_true_eq] at hxi hyj
        by_contra hsameKeys
        rw [Bool.not_eq_false] at hsameKeys
        have hxy := hsame.trans hxg (hsame.trans hsameKeys (hsame.symm hyg))
        exact hne (by rw [← hxi, ← hyj, hindex x hx y hy hxy])
      · intro g hg
        obtain ⟨i, hi, hg⟩ := hmem g hg
        obtain ⟨x, hx, hxg⟩ := (hgs i hi).2.sound g hg
        rw [← withKey_bucket hsame hindex hx hxg]
        exact (hgs i hi).2.fold g hg
      · intro x hx
        have hbucket : x ∈ bucket index (index x) xs := mem_filter.mpr ⟨hx, by simp⟩
        obtain ⟨g, hg, hsameKey⟩ := (hgs (index x) (hlt x hx)).2.complete x hbucket
        exact ⟨g, mem_flatMap.mpr ⟨index x, mem_range.mpr (hlt x hx), hg⟩, hsameKey⟩
      · intro g hg
        obtain ⟨i, hi, hg⟩ := hmem g hg
        obtain ⟨x, hx, hxg⟩ := (hgs i hi).2.sound g hg
        exact ⟨x, (mem_filter.mp hx).1, hxg⟩

/-! ## Dictionaries of groups -/

/-- `groups.get(k)`. -/
def getGroup (same : κ → κ → Bool) (k : κ) (groups : List (κ × σ)) : Option σ :=
  (groups.find? (fun g => same g.1 k)).map Prod.snd

/-- `groups[k] = v`: an entry keeps its key and its place. -/
def setGroup (same : κ → κ → Bool) (k : κ) (v : σ) : List (κ × σ) → List (κ × σ)
  | [] => [(k, v)]
  | g :: groups =>
      if same g.1 k then (g.1, v) :: groups else g :: setGroup same k v groups

theorem Grouped.get (hsame : SameKey same) (h : Grouped same key step xs groups) (k : κ) :
    foldGroup step none (withKey same key k xs) = .ok (getGroup same k groups) := by
  unfold getGroup
  cases hfind : groups.find? (fun g => same g.1 k) with
  | some g =>
      have hg := mem_of_find?_eq_some hfind
      have hk : same g.1 k = true := by
        have hsome := find?_some hfind
        exact hsome
      have hsameElements : withKey same key k xs = withKey same key g.1 xs := by
        refine filter_congr (fun x _ => ?_)
        rw [hsame.comm (key x) k, hsame.comm (key x) g.1, hsame.congr hk]
      rw [hsameElements, h.fold g hg]
      rfl
  | none =>
      have hempty : withKey same key k xs = [] := by
        refine filter_eq_nil_iff.mpr ?_
        intro x hx hk
        obtain ⟨g, hg, hxg⟩ := h.complete x hx
        have hnone := find?_eq_none.mp hfind g hg
        exact hnone (hsame.trans (hsame.symm hxg) hk)
      rw [hempty]
      rfl

/-- The entry of the key has the new value; the others are those of other keys. -/
theorem mem_setGroup (hsame : SameKey same)
    (hdistinct : groups.Pairwise (fun g g' => same g.1 g'.1 = false))
    (h : g ∈ setGroup same k v groups) :
    (g.2 = v ∧ (g.1 = k ∨ ∃ g' ∈ groups, g'.1 = g.1 ∧ same g.1 k = true)) ∨
      (g ∈ groups ∧ same g.1 k = false) := by
  induction groups with
  | nil =>
      rw [setGroup, mem_singleton] at h
      subst h
      exact Or.inl ⟨rfl, Or.inl rfl⟩
  | cons g' groups ih =>
      obtain ⟨hfirst, hrest⟩ := pairwise_cons.mp hdistinct
      rw [setGroup] at h
      by_cases hk : same g'.1 k = true
      · rw [if_pos hk] at h
        rcases mem_cons.mp h with rfl | h
        · exact Or.inl ⟨rfl, Or.inr ⟨g', by simp, rfl, hk⟩⟩
        · refine Or.inr ⟨mem_cons_of_mem g' h, ?_⟩
          rw [hsame.comm g.1 k, ← hsame.congr hk]
          exact hfirst g h
      · rw [if_neg hk] at h
        rcases mem_cons.mp h with rfl | h
        · exact Or.inr ⟨by simp, Bool.eq_false_iff.mpr hk⟩
        · rcases ih hrest h with ⟨hv, hkey | ⟨g'', hmem, heq, hk'⟩⟩ | ⟨h, hk'⟩
          · exact Or.inl ⟨hv, Or.inl hkey⟩
          · exact Or.inl ⟨hv, Or.inr ⟨g'', mem_cons_of_mem g' hmem, heq, hk'⟩⟩
          · exact Or.inr ⟨mem_cons_of_mem g' h, hk'⟩

/-- Keys are those of the entries, and the new one. -/
theorem key_of_mem_setGroup (h : g ∈ setGroup same k v groups) :
    g.1 = k ∨ ∃ g' ∈ groups, g'.1 = g.1 := by
  induction groups with
  | nil =>
      rw [setGroup, mem_singleton] at h
      exact Or.inl (congrArg Prod.fst h)
  | cons g' groups ih =>
      rw [setGroup] at h
      split at h
      · rcases mem_cons.mp h with rfl | h
        · exact Or.inr ⟨g', by simp, rfl⟩
        · exact Or.inr ⟨g, by simp [h], rfl⟩
      · rcases mem_cons.mp h with rfl | h
        · exact Or.inr ⟨g, by simp, rfl⟩
        · rcases ih h with hkey | ⟨g'', hmem, heq⟩
          · exact Or.inl hkey
          · exact Or.inr ⟨g'', by simp [hmem], heq⟩

/-- Every entry is still there under its key. -/
theorem setGroup_keeps (same : κ → κ → Bool) (k : κ) (v : σ) (h : g ∈ groups) :
    ∃ g' ∈ setGroup same k v groups, g'.1 = g.1 := by
  induction groups with
  | nil => cases h
  | cons g' groups ih =>
      rw [setGroup]
      by_cases hk : same g'.1 k = true
      · rw [if_pos hk]
        rcases mem_cons.mp h with rfl | h
        · exact ⟨_, mem_cons_self .., rfl⟩
        · exact ⟨g, mem_cons_of_mem _ h, rfl⟩
      · rw [if_neg hk]
        rcases mem_cons.mp h with rfl | h
        · exact ⟨g, mem_cons_self .., rfl⟩
        · obtain ⟨g'', hmem, heq⟩ := ih h
          exact ⟨g'', mem_cons_of_mem _ hmem, heq⟩

theorem setGroup_has (hself : same k k = true) (v : σ) (groups : List (κ × σ)) :
    ∃ g ∈ setGroup same k v groups, same g.1 k = true := by
  induction groups with
  | nil => exact ⟨(k, v), mem_singleton.mpr rfl, hself⟩
  | cons g groups ih =>
      rw [setGroup]
      by_cases hk : same g.1 k = true
      · rw [if_pos hk]
        exact ⟨(g.1, v), mem_cons_self .., hk⟩
      · rw [if_neg hk]
        obtain ⟨g', hmem, hk'⟩ := ih
        exact ⟨g', mem_cons_of_mem _ hmem, hk'⟩

theorem setGroup_distinct (hsame : SameKey same)
    (h : groups.Pairwise (fun g g' => same g.1 g'.1 = false)) :
    (setGroup same k v groups).Pairwise (fun g g' => same g.1 g'.1 = false) := by
  induction groups with
  | nil => exact pairwise_singleton _ _
  | cons g groups ih =>
      obtain ⟨hfirst, hrest⟩ := pairwise_cons.mp h
      rw [setGroup]
      by_cases hk : same g.1 k = true
      · rw [if_pos hk]
        exact pairwise_cons.mpr ⟨hfirst, hrest⟩
      · rw [if_neg hk]
        refine pairwise_cons.mpr ⟨?_, ih hrest⟩
        intro g' hg'
        rcases mem_setGroup hsame hrest hg' with ⟨_, hkey | ⟨g'', hmem, heq, _⟩⟩ | ⟨hmem, _⟩
        · rw [hkey]
          exact Bool.eq_false_iff.mpr hk
        · rw [← heq]
          exact hfirst g'' hmem
        · exact hfirst g' hmem

theorem Grouped.set (hsame : SameKey same) {x : α} (hself : same (key x) (key x) = true)
    (h : Grouped same key step xs groups) (hstep : step (getGroup same (key x) groups) x = .ok v) :
    Grouped same key step (xs ++ [x]) (setGroup same (key x) v groups) := by
  have hextend : ∀ k, withKey same key k (xs ++ [x]) =
      withKey same key k xs ++ if same (key x) k then [x] else [] := by
    intro k
    unfold withKey
    rw [filter_append, filter_cons, filter_nil]
  have hnew : ∀ k, same (key x) k = true →
      foldGroup step none (withKey same key k (xs ++ [x])) = .ok (some v) := by
    intro k hk
    have hget : getGroup same k groups = getGroup same (key x) groups := by
      unfold getGroup
      refine congrArg _ (congrArg (fun p => groups.find? p) ?_)
      funext g
      rw [hsame.comm g.1 k, hsame.comm g.1 (key x), hsame.congr hk]
    rw [hextend, if_pos hk, foldGroup_append, h.get hsame k, ok_bind, hget, foldGroup, hstep]
    rfl
  refine ⟨setGroup_distinct hsame h.distinct, ?_, ?_, ?_⟩
  · intro g hg
    rcases mem_setGroup hsame h.distinct hg with ⟨hv, hkey | ⟨_, _, _, hk⟩⟩ | ⟨hmem, hk⟩
    · rw [hkey, hv]
      exact hnew (key x) hself
    · rw [hv]
      exact hnew g.1 (hsame.symm hk)
    · rw [hsame.comm] at hk
      rw [hextend, if_neg (Bool.eq_false_iff.mp hk), append_nil]
      exact h.fold g hmem
  · intro y hy
    rcases mem_append.mp hy with hy | hy
    · obtain ⟨g, hg, hyg⟩ := h.complete y hy
      obtain ⟨g', hg', heq⟩ := setGroup_keeps same (key x) v hg
      exact ⟨g', hg', by rw [heq]; exact hyg⟩
    · rw [mem_singleton] at hy
      subst hy
      obtain ⟨g, hg, hk⟩ := setGroup_has hself v groups
      exact ⟨g, hg, hsame.symm hk⟩
  · intro g hg
    rcases mem_setGroup hsame h.distinct hg with ⟨_, hkey | ⟨g', hmem, heq, _⟩⟩ | ⟨hmem, _⟩
    · exact ⟨x, by simp, by rw [hkey]; exact hself⟩
    · obtain ⟨y, hy, hyg⟩ := h.sound g' hmem
      exact ⟨y, by simp [hy], by rw [← heq]; exact hyg⟩
    · obtain ⟨y, hy, hyg⟩ := h.sound g hmem
      exact ⟨y, by simp [hy], hyg⟩

end Group

end SoupDB
