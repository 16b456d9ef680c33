import Mathlib.Data.List.Forall2

/-!
# Computations that may raise

The equations of sequencing in `Except`, in the form the proofs about sequential
code use them.
-/

namespace SoupDB

open List

variable {ε α β : Type}

@[simp] theorem ok_bind (a : α) (f : α → Except ε β) : (Except.ok a >>= f) = f a := rfl

@[simp] theorem error_bind (e : ε) (f : α → Except ε β) :
    (Except.error e >>= f) = Except.error e := rfl

variable {x : Except ε α} {f : α → Except ε β} {xs : List α} {ys : List β}

/-- A sequence returns exactly when both parts do. -/
theorem bind_eq_ok {b : β} : (x >>= f) = .ok b ↔ ∃ a, x = .ok a ∧ f a = .ok b := by
  cases x with
  | error e => simp
  | ok a => simp

/-- A sequence raises when its first part does, or its second on the first's result. -/
theorem bind_eq_error {e : ε} :
    (x >>= f) = .error e ↔ x = .error e ∨ ∃ a, x = .ok a ∧ f a = .error e := by
  cases x with
  | error e => simp
  | ok a => simp

/-- What follows a computation and returns does not decide whether the whole returns. -/
theorem exists_bind_ok {g : α → β} :
    (∃ b, (x >>= fun a => .ok (g a)) = .ok b) ↔ ∃ a, x = .ok a := by
  cases x with
  | error e => simp
  | ok a => simp

theorem isOk_iff : x.isOk = true ↔ ∃ a, x = .ok a := by
  cases x with
  | ok a => simp [Except.isOk, Except.toBool]
  | error e => simp [Except.isOk, Except.toBool]

/-- A computation that is evaluated: it returns, and what it returns has the property. -/
theorem exists_ok_of_check {P : α → Prop} [DecidablePred P]
    (h : (match x with
      | .ok a => decide (P a)
      | .error _ => false) = true) : ∃ a, x = .ok a ∧ P a := by
  cases x with
  | ok a => exact ⟨a, rfl, of_decide_eq_true h⟩
  | error e => cases h

/-- Two checks, one after the other, return when both do. -/
theorem isOk_checks (x : Except ε α) (y : Except ε β) :
    (do let _ ← x; let _ ← y; Except.ok ()).isOk = (x.isOk && y.isOk) := by
  cases x with
  | error e => rfl
  | ok a =>
      cases y with
      | error e => rfl
      | ok b => rfl

/-- A loop whose rounds all return. -/
theorem mapM_ok {g : α → β} (h : ∀ x ∈ xs, f x = .ok (g x)) : xs.mapM f = .ok (xs.map g) := by
  induction xs with
  | nil => rfl
  | cons x xs ih =>
      rw [mapM_cons, h x (by simp), ok_bind, ih (fun y hy => h y (by simp [hy])), ok_bind]
      rfl

/-- A loop over positions that gives the elements of a list. -/
theorem mapM_range_ok {f : Nat → Except ε α} {n : Nat} (hn : n ≤ xs.length)
    (h : ∀ i x, xs[i]? = some x → f i = .ok x) : (range n).mapM f = .ok (xs.take n) := by
  induction xs generalizing n f with
  | nil =>
      obtain rfl : n = 0 := by simpa using hn
      rfl
  | cons x xs ih =>
      cases n with
      | zero => rfl
      | succ n =>
          have hrest : (range n).mapM (fun i => f (i + 1)) = .ok (xs.take n) :=
            ih (by simpa using hn) (fun i y hy => h (i + 1) y (by simpa using hy))
          rw [range_succ_eq_map, mapM_cons, h 0 x rfl, ok_bind, mapM_map]
          show (range n).mapM (fun i => f (i + 1)) >>= _ = _
          rw [hrest, ok_bind, take_succ_cons]
          rfl

/-- The lists that a computation gives for each element, one after the other. -/
def concatM (f : α → Except ε (List β)) : List α → Except ε (List β)
  | [] => .ok []
  | x :: xs => do
      let ys ← f x
      let rest ← concatM f xs
      .ok (ys ++ rest)

/-- The whole returns exactly when each part does. -/
theorem concatM_returns {f : α → Except ε (List β)} :
    (∃ ys, concatM f xs = .ok ys) ↔ ∀ x ∈ xs, ∃ ys, f x = .ok ys := by
  induction xs with
  | nil => simp [concatM]
  | cons x xs ih =>
      rw [forall_mem_cons, ← ih, concatM]
      cases f x with
      | error e => simp
      | ok ys =>
          cases concatM f xs with
          | error e => simp
          | ok rest => simp

theorem concatM_ok {f : α → Except ε (List β)} {g : α → List β} (h : ∀ x ∈ xs, f x = .ok (g x)) :
    concatM f xs = .ok (xs.flatMap g) := by
  induction xs with
  | nil => rfl
  | cons x xs ih =>
      rw [concatM, h x (by simp), ok_bind, ih (fun y hy => h y (by simp [hy])), ok_bind,
        flatMap_cons]

theorem concatM_map {γ : Type} (f : β → Except ε (List γ)) (g : α → β) (xs : List α) :
    concatM f (xs.map g) = concatM (fun x => f (g x)) xs := by
  induction xs with
  | nil => rfl
  | cons x xs ih => rw [map_cons, concatM, concatM, ih]

theorem concatM_append {f : α → Except ε (List β)} (xs ys : List α) :
    concatM f (xs ++ ys) =
      concatM f xs >>= fun first => concatM f ys >>= fun rest => .ok (first ++ rest) := by
  induction xs with
  | nil =>
      cases h : concatM f ys with
      | ok rest => simp [concatM, h]
      | error e => simp [concatM, h]
  | cons x xs ih =>
      rw [cons_append, concatM, ih, concatM]
      cases f x with
      | error e => rfl
      | ok zs =>
          cases concatM f xs with
          | error e => rfl
          | ok first =>
              cases concatM f ys with
              | error e => rfl
              | ok rest => simp

/-- A loop in a loop is one over all the elements. -/
theorem concatM_concatM {f : α → Except ε (List β)} (xss : List (List α)) :
    concatM (concatM f) xss = concatM f xss.flatten := by
  induction xss with
  | nil => rfl
  | cons xs xss ih => rw [flatten_cons, concatM_append, concatM, ih]

/-- What is raised is raised by a part. -/
theorem concatM_error {f : α → Except ε (List β)} {e : ε} (h : concatM f xs = .error e) :
    ∃ x ∈ xs, f x = .error e := by
  induction xs with
  | nil => cases h
  | cons x xs ih =>
      rcases bind_eq_error.mp h with h | ⟨ys, _, h⟩
      · exact ⟨x, by simp, h⟩
      · rcases bind_eq_error.mp h with h | ⟨rest, _, h⟩
        · obtain ⟨y, hy, herror⟩ := ih h
          exact ⟨y, by simp [hy], herror⟩
        · cases h

/-- Every element of the whole is of a part. -/
theorem mem_concatM {f : α → Except ε (List β)} (h : concatM f xs = .ok ys) {y : β} (hy : y ∈ ys) :
    ∃ x ∈ xs, ∃ zs, f x = .ok zs ∧ y ∈ zs := by
  induction xs generalizing ys with
  | nil =>
      cases h
      cases hy
  | cons x xs ih =>
      obtain ⟨zs, hzs, h⟩ := bind_eq_ok.mp h
      obtain ⟨rest, hrest, h⟩ := bind_eq_ok.mp h
      cases h
      rcases mem_append.mp hy with hy | hy
      · exact ⟨x, by simp, zs, hzs, hy⟩
      · obtain ⟨x', hx', zs', hzs', hy⟩ := ih hrest hy
        exact ⟨x', by simp [hx'], zs', hzs', hy⟩

theorem mapM_congr {g : α → Except ε β} (h : ∀ x ∈ xs, f x = g x) : xs.mapM f = xs.mapM g := by
  induction xs with
  | nil => rfl
  | cons x xs ih =>
      rw [mapM_cons, mapM_cons, h x (by simp), ih (fun y hy => h y (by simp [hy]))]

/-- A loop returns exactly when each of its rounds does, with these results. -/
theorem mapM_eq_ok : xs.mapM f = .ok ys ↔ List.Forall₂ (fun x y => f x = .ok y) xs ys := by
  induction xs generalizing ys with
  | nil =>
      rw [mapM_nil, forall₂_nil_left_iff]
      exact ⟨fun h => (Except.ok.inj h).symm, fun h => h ▸ rfl⟩
  | cons x xs ih =>
      rw [mapM_cons, bind_eq_ok, forall₂_cons_left_iff]
      constructor
      · rintro ⟨y, hy, h⟩
        obtain ⟨rest, hrest, h⟩ := bind_eq_ok.mp h
        exact ⟨y, rest, hy, ih.mp hrest, (Except.ok.inj h).symm⟩
      · rintro ⟨y, rest, hy, hrest, rfl⟩
        refine ⟨y, hy, ?_⟩
        rw [ih.mpr hrest]
        rfl

theorem mapM_of_returns (h : ∀ x ∈ xs, ∃ y, f x = .ok y) : ∃ ys, xs.mapM f = .ok ys := by
  induction xs with
  | nil => exact ⟨[], rfl⟩
  | cons x xs ih =>
      obtain ⟨y, hy⟩ := h x (by simp)
      obtain ⟨ys, hys⟩ := ih (fun x' hx' => h x' (by simp [hx']))
      refine ⟨y :: ys, ?_⟩
      rw [mapM_cons, hy, ok_bind, hys]
      rfl

theorem mapM_returns (h : xs.mapM f = .ok ys) : ∀ x ∈ xs, ∃ y, f x = .ok y := by
  have hall := mapM_eq_ok.mp h
  clear h
  induction hall with
  | nil => exact fun x hx => by cases hx
  | cons hx _ ih => exact forall_mem_cons.mpr ⟨⟨_, hx⟩, ih⟩

/-- Every result is that of a round. -/
theorem mem_mapM (h : xs.mapM f = .ok ys) {y : β} (hy : y ∈ ys) : ∃ x ∈ xs, f x = .ok y := by
  have hall := mapM_eq_ok.mp h
  clear h
  induction hall with
  | nil => cases hy
  | @cons x y' xs ys hx _ ih =>
      rcases mem_cons.mp hy with rfl | hy
      · exact ⟨x, by simp, hx⟩
      · obtain ⟨x', hx', hvalue⟩ := ih hy
        exact ⟨x', by simp [hx'], hvalue⟩

/-- Every round gives one of the results. -/
theorem exists_of_mapM (h : xs.mapM f = .ok ys) {x : α} (hx : x ∈ xs) : ∃ y ∈ ys, f x = .ok y := by
  have hall := mapM_eq_ok.mp h
  clear h
  induction hall with
  | nil => cases hx
  | @cons x' y xs ys hvalue _ ih =>
      rcases mem_cons.mp hx with rfl | hx
      · exact ⟨y, by simp, hvalue⟩
      · obtain ⟨y', hy', hvalue'⟩ := ih hx
        exact ⟨y', by simp [hy'], hvalue'⟩

/-- What each result keeps of its element, the results keep of the list. -/
theorem map_of_mapM {γ : Type} {g : β → γ} {g' : α → γ} (h : xs.mapM f = .ok ys)
    (hkeep : ∀ x y, f x = .ok y → g y = g' x) :
    ys.map g = xs.map g' := by
  have hall := mapM_eq_ok.mp h
  clear h
  induction hall with
  | nil => rfl
  | cons hvalue _ ih => rw [map_cons, map_cons, ih, hkeep _ _ hvalue]

/-- A loop over a permutation gives a permutation of the results, or raises as well. -/
theorem mapM_perm {xs' : List α} (hperm : xs.Perm xs') (h : xs.mapM f = .ok ys) :
    ∃ ys', xs'.mapM f = .ok ys' ∧ ys'.Perm ys := by
  induction hperm generalizing ys with
  | nil => exact ⟨ys, h, List.Perm.refl ys⟩
  | cons x _ ih =>
      obtain ⟨y, rest, hy, hrest, rfl⟩ := forall₂_cons_left_iff.mp (mapM_eq_ok.mp h)
      obtain ⟨rest', hrest', hperm⟩ := ih (mapM_eq_ok.mpr hrest)
      exact ⟨y :: rest', mapM_eq_ok.mpr (List.Forall₂.cons hy (mapM_eq_ok.mp hrest')),
        List.Perm.cons y hperm⟩
  | swap x x' l =>
      obtain ⟨y', rest, hy', hrest, rfl⟩ := forall₂_cons_left_iff.mp (mapM_eq_ok.mp h)
      obtain ⟨y, rest', hy, hrest', rfl⟩ := forall₂_cons_left_iff.mp hrest
      exact ⟨y :: y' :: rest',
        mapM_eq_ok.mpr (List.Forall₂.cons hy (List.Forall₂.cons hy' hrest')),
        List.Perm.swap y' y rest'⟩
  | trans _ _ ih ih' =>
      obtain ⟨ys', h', hperm⟩ := ih h
      obtain ⟨ys'', h'', hperm'⟩ := ih' h'
      exact ⟨ys'', h'', hperm'.trans hperm⟩

/-! ## The same result -/

/-- Both return the same, or both raise. -/
def SameResult (x y : Except ε α) : Prop := ∀ a, x = .ok a ↔ y = .ok a

namespace SameResult

theorem refl (x : Except ε α) : SameResult x x := fun _ => Iff.rfl

theorem trans {x y z : Except ε α} (h : SameResult x y) (h' : SameResult y z) :
    SameResult x z := fun a => (h a).trans (h' a)

theorem errors (e e' : ε) : SameResult (Except.error e : Except ε α) (.error e') :=
  fun _ => iff_of_false (fun h => by cases h) (fun h => by cases h)

theorem bind {x y : Except ε α} {f g : α → Except ε β} (h : SameResult x y)
    (hnext : ∀ a, y = .ok a → SameResult (f a) (g a)) : SameResult (x >>= f) (y >>= g) := by
  intro b
  rw [bind_eq_ok, bind_eq_ok]
  constructor
  · rintro ⟨a, ha, hb⟩
    have hy := (h a).mp ha
    exact ⟨a, hy, (hnext a hy b).mp hb⟩
  · rintro ⟨a, ha, hb⟩
    exact ⟨a, (h a).mpr ha, (hnext a ha b).mpr hb⟩

theorem mapM {f g : α → Except ε β} {xs : List α} (h : ∀ x ∈ xs, SameResult (f x) (g x)) :
    SameResult (xs.mapM f) (xs.mapM g) := by
  induction xs with
  | nil => exact refl _
  | cons x xs ih =>
      rw [mapM_cons, mapM_cons]
      refine (h x (by simp)).bind (fun y _ => ?_)
      exact (ih (fun z hz => h z (by simp [hz]))).bind (fun ys _ => refl _)

end SameResult

end SoupDB
