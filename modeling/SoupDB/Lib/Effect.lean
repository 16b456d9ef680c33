import Mathlib.Data.List.Basic

/-!
# Programs with a state and exceptions

A program of type `Effect ε σ α` reads and changes a state of type `σ` and either
returns an `α` or raises an `ε`.  The state it leaves is kept in both cases: an
exception does not undo the writes made before it.

`wp x Q E s` says that the program `x` started in `s` either returns a value and a
state related by `Q` or raises an exception in a state related by `E`.  The rules
below reduce it along the structure of the program; `Keeps` is the special case of
an invariant of the state that every outcome keeps.  `Respects R x` says that `x` does
not distinguish states related by `R`.
-/

namespace SoupDB

/-- A program: from a state, its outcome and the state it leaves. -/
def Effect (ε σ α : Type) : Type := σ → Except ε α × σ

namespace Effect

variable {ε σ τ α β : Type}

/-- Run the second program on the result and the state of the first. -/
def bind (x : Effect ε σ α) (f : α → Effect ε σ β) : Effect ε σ β := fun s =>
  match x s with
  | (.ok a, s') => f a s'
  | (.error e, s') => (.error e, s')

instance : Monad (Effect ε σ) where
  pure a := fun s => (.ok a, s)
  bind := Effect.bind

/-- The current state. -/
def get : Effect ε σ σ := fun s => (.ok s, s)

/-- Change the state. -/
def modify (f : σ → σ) : Effect ε σ Unit := fun s => (.ok (), f s)

/-- Replace the state by what `f` makes of it, or raise and keep it. -/
def update (f : σ → Except ε σ) : Effect ε σ Unit := fun s =>
  match f s with
  | .ok s' => (.ok (), s')
  | .error e => (.error e, s)

/-- Raise an exception. -/
def raise (e : ε) : Effect ε σ α := fun s => (.error e, s)

/-- A computation that neither reads nor changes the state. -/
def lift (x : Except ε α) : Effect ε σ α := fun s => (x, s)

/-- Run the handler on the exception, in the state the exception was raised in. -/
def tryCatch (x : Effect ε σ α) (handler : ε → Effect ε σ α) : Effect ε σ α := fun s =>
  match x s with
  | (.ok a, s') => (.ok a, s')
  | (.error e, s') => handler e s'

/-- Run a program on a part of the state. -/
def focus (view : σ → τ) (update : τ → σ → σ) (x : Effect ε τ α) : Effect ε σ α := fun s =>
  ((x (view s)).1, update (x (view s)).2 s)

/-- Run a program for each element, in order; the first exception ends the loop. -/
def forEach (f : α → Effect ε σ Unit) : List α → Effect ε σ Unit
  | [] => pure ()
  | a :: as => do
      f a
      forEach f as

@[simp] theorem run_pure (a : α) (s : σ) : (pure a : Effect ε σ α) s = (.ok a, s) := rfl

@[simp] theorem run_get (s : σ) : (get : Effect ε σ σ) s = (.ok s, s) := rfl

@[simp] theorem run_modify (f : σ → σ) (s : σ) :
    (modify f : Effect ε σ Unit) s = (.ok (), f s) := rfl

@[simp] theorem run_raise (e : ε) (s : σ) : (raise e : Effect ε σ α) s = (.error e, s) := rfl

@[simp] theorem run_lift (x : Except ε α) (s : σ) : (lift x : Effect ε σ α) s = (x, s) := rfl

theorem run_bind (x : Effect ε σ α) (f : α → Effect ε σ β) (s : σ) :
    (x >>= f) s = match x s with
      | (.ok a, s') => f a s'
      | (.error e, s') => (.error e, s') := rfl

variable {x : Effect ε σ α} {Q : α → σ → Prop}

/-- The rest of a program after a part that returns. -/
theorem run_bind_ok {s s' : σ} {a : α} (f : α → Effect ε σ β) (h : x s = (.ok a, s')) :
    (x >>= f) s = f a s' := by
  rw [run_bind, h]

/-- A part that raises ends the program. -/
theorem run_bind_error {s s' : σ} {e : ε} (f : α → Effect ε σ β) (h : x s = (.error e, s')) :
    (x >>= f) s = (.error e, s') := by
  rw [run_bind, h]

/-! ## Outcomes -/

/-- Every outcome of `x` from `s` satisfies `Q` if it returns and `E` if it raises. -/
def wp (x : Effect ε σ α) (Q : α → σ → Prop) (E : ε → σ → Prop) (s : σ) : Prop :=
  match x s with
  | (.ok a, s') => Q a s'
  | (.error e, s') => E e s'

section Rules

variable {Q : α → σ → Prop} {E : ε → σ → Prop} {s : σ}

variable {x : Effect ε σ α} {a : α} {s' : σ} {e : ε} {R : Unit → σ → Prop} {Q' : α → σ → Prop}
    {E' : ε → σ → Prop}

theorem wp_ok (hwp : wp x Q E s) (h : x s = (.ok a, s')) : Q a s' := by
  unfold wp at hwp
  rw [h] at hwp
  exact hwp

theorem wp_error (hwp : wp x Q E s) (h : x s = (.error e, s')) : E e s' := by
  unfold wp at hwp
  rw [h] at hwp
  exact hwp

theorem wp_of_ok (h : x s = (.ok a, s')) (hQ : Q a s') : wp x Q E s := by
  unfold wp
  rw [h]
  exact hQ

theorem wp_of_error (h : x s = (.error e, s')) (hE : E e s') : wp x Q E s := by
  unfold wp
  rw [h]
  exact hE

@[simp] theorem wp_pure : wp (pure a : Effect ε σ α) Q E s ↔ Q a s := Iff.rfl

@[simp] theorem wp_raise : wp (raise e : Effect ε σ α) Q E s ↔ E e s := Iff.rfl

@[simp] theorem wp_get {R : σ → σ → Prop} : wp (get : Effect ε σ σ) R E s ↔ R s s := Iff.rfl

@[simp] theorem wp_modify {f : σ → σ} :
    wp (modify f : Effect ε σ Unit) R E s ↔ R () (f s) := Iff.rfl

theorem wp_update {f : σ → Except ε σ} :
    wp (update f) R E s ↔ (∀ s', f s = .ok s' → R () s') ∧ ∀ e, f s = .error e → E e s := by
  unfold wp update
  cases f s <;> simp

@[simp] theorem wp_lift_ok : wp (lift (.ok a) : Effect ε σ α) Q E s ↔ Q a s := Iff.rfl

@[simp] theorem wp_lift_error :
    wp (lift (.error e) : Effect ε σ α) Q E s ↔ E e s := Iff.rfl

theorem wp_lift {x : Except ε α} :
    wp (lift x : Effect ε σ α) Q E s ↔
      (∀ a, x = .ok a → Q a s) ∧ (∀ e, x = .error e → E e s) := by
  cases x <;> simp

/-- Sequencing. -/
@[simp] theorem wp_bind {f : α → Effect ε σ β} {R : β → σ → Prop} :
    wp (x >>= f) R E s ↔ wp x (fun a s' => wp (f a) R E s') E s := by
  unfold wp
  rw [run_bind]
  rcases x s with ⟨e | a, s'⟩ <;> rfl

/-- A part that runs only under a condition, and what follows it. -/
theorem wp_when {p : Prop} [Decidable p] {x : Effect ε σ Unit} {y : Effect ε σ β}
    {R : β → σ → Prop} :
    wp (if p then x >>= fun _ => y else y) R E s ↔
      wp (if p then x else pure ()) (fun _ s' => wp y R E s') E s := by
  split
  · exact wp_bind
  · exact Iff.rfl

@[simp] theorem wp_tryCatch {handler : ε → Effect ε σ α} :
    wp (tryCatch x handler) Q E s ↔ wp x Q (fun e s' => wp (handler e) Q E s') s := by
  unfold wp tryCatch
  rcases x s with ⟨e | a, s'⟩ <;> rfl

/-- A program on a part of the state changes nothing else. -/
@[simp] theorem wp_focus {view : σ → τ} {update : τ → σ → σ} {x : Effect ε τ α} :
    wp (focus view update x) Q E s ↔
      wp x (fun a t => Q a (update t s)) (fun e t => E e (update t s)) (view s) := by
  unfold wp focus
  rcases x (view s) with ⟨e | a, t⟩ <;> rfl

/-- Consequence. -/
theorem wp_mono (h : wp x Q E s) (hQ : ∀ a s', Q a s' → Q' a s') (hE : ∀ e s', E e s' → E' e s') :
    wp x Q' E' s := by
  unfold wp at h ⊢
  rcases hx : x s with ⟨e | a, s'⟩
  · rw [hx] at h
    exact hE e s' h
  · rw [hx] at h
    exact hQ a s' h

/-- Two things known of the outcome are known together. -/
theorem wp_and (h : wp x Q E s) (h' : wp x Q' E' s) :
    wp x (fun a s' => Q a s' ∧ Q' a s') (fun e s' => E e s' ∧ E' e s') s := by
  unfold wp at h h' ⊢
  rcases hx : x s with ⟨e | a, s'⟩
  · rw [hx] at h h'
    exact ⟨h, h'⟩
  · rw [hx] at h h'
    exact ⟨h, h'⟩

/-- Nothing is asked of the outcome. -/
theorem wp_true (x : Effect ε σ α) : wp x (fun _ _ => True) (fun _ _ => True) s := by
  unfold wp
  rcases x s with ⟨e | a, s'⟩ <;> trivial

/-- What holds in every outcome holds in the state that is left. -/
theorem state_of_wp {P : σ → Prop} (h : wp x (fun _ s' => P s') (fun _ s' => P s') s) :
    P (x s).2 := by
  unfold wp at h
  rcases hx : x s with ⟨e | a, s'⟩ <;> rwa [hx] at h

end Rules

/-- The program raises when it is started in `s`. -/
def Raises (x : Effect ε σ α) (s : σ) : Prop := wp x (fun _ _ => False) (fun _ _ => True) s

section Raising

variable {x : Effect ε σ α} {f : α → Effect ε σ β} {s : σ}

theorem raises_iff : Raises x s ↔ ∃ e, (x s).1 = .error e := by
  unfold Raises wp
  rcases x s with ⟨e | a, s'⟩ <;> simp

theorem Raises.bind (h : Raises x s) : Raises (x >>= f) s :=
  wp_bind.mpr (wp_mono h (fun _ _ => False.elim) (fun _ _ h => h))

/-- The second part raises on whatever the first part returns. -/
theorem Raises.bind_of (h : wp x (fun a s' => Raises (f a) s') (fun _ _ => True) s) :
    Raises (x >>= f) s := wp_bind.mpr h

theorem Raises.bind_right (h : ∀ a s', Raises (f a) s') : Raises (x >>= f) s :=
  Raises.bind_of (wp_mono (wp_true x) (fun a s' _ => h a s') (fun _ _ h => h))

theorem Raises.ite {p : Prop} [Decidable p] {x y : Effect ε σ α} (hx : p → Raises x s)
    (hy : ¬ p → Raises y s) : Raises (if p then x else y) s := by
  split
  · next h => exact hx h
  · next h => exact hy h

theorem Raises.state (h : Raises x s) : ((x >>= f) s).2 = (x s).2 := by
  obtain ⟨e, he⟩ := raises_iff.mp h
  rw [run_bind]
  rcases hx : x s with ⟨e' | a, s'⟩
  · rfl
  · rw [hx] at he
    cases he

theorem Raises.tryCatch {handler : ε → Effect ε σ α} (h : Raises x s)
    (hhandler : ∀ e s', Raises (handler e) s') : Raises (x.tryCatch handler) s :=
  wp_tryCatch.mpr (wp_mono h (fun _ _ => False.elim) (fun e s' _ => hhandler e s'))

end Raising

/-- The state a program leaves when it returns. -/
def final (x : Effect ε σ α) (s : σ) : Except ε σ :=
  match x s with
  | (.ok _, s') => .ok s'
  | (.error e, _) => .error e

theorem of_final {s s' : σ} {E : ε → σ → Prop} (h : final x s = .ok s') (hwp : wp x Q E s) :
    ∃ a, Q a s' := by
  unfold final at h
  unfold wp at hwp
  rcases hx : x s with ⟨e | a, t⟩
  · rw [hx] at h
    cases h
  · rw [hx] at h hwp
    cases h
    exact ⟨a, hwp⟩

/-- A program that cannot raise leaves a state. -/
theorem final_ok {s : σ} (hwp : wp x Q (fun _ _ => False) s) :
    ∃ a s', final x s = .ok s' ∧ Q a s' := by
  unfold wp at hwp
  unfold final
  rcases hx : x s with ⟨e | a, t⟩
  · rw [hx] at hwp
    exact hwp.elim
  · rw [hx] at hwp
    exact ⟨a, t, rfl, hwp⟩

/-- Every outcome of `x` keeps the invariant `I`. -/
def Keeps (I : σ → Prop) (x : Effect ε σ α) : Prop := ∀ s, I s → I (x s).2

namespace Keeps

variable {I : σ → Prop}

variable {x : Effect ε σ α} {f : α → Effect ε σ β}

/-- Every outcome has the invariant. -/
theorem wp (hx : Keeps I x) {s : σ} (h : I s) : wp x (fun _ s' => I s') (fun _ s' => I s') s := by
  have hx := hx s h
  unfold Effect.wp
  rcases hxs : x s with ⟨e | a, s'⟩ <;> rwa [hxs] at hx

theorem pure (a : α) : Keeps I (Pure.pure a : Effect ε σ α) := fun _ h => h

theorem raise (e : ε) : Keeps I (Effect.raise e : Effect ε σ α) := fun _ h => h

theorem get : Keeps I (Effect.get : Effect ε σ σ) := fun _ h => h

theorem lift (x : Except ε α) : Keeps I (Effect.lift x : Effect ε σ α) := fun _ h => h

theorem modify {f : σ → σ} (hf : ∀ s, I s → I (f s)) :
    Keeps I (Effect.modify f : Effect ε σ Unit) := hf

theorem bind (hx : Keeps I x) (hf : ∀ a, Keeps I (f a)) : Keeps I (x >>= f) := by
  intro s hs
  have h := hx s hs
  rw [run_bind]
  rcases hxs : x s with ⟨e | a, s'⟩
  · rw [hxs] at h
    exact h
  · rw [hxs] at h
    exact hf a s' h

/-- The same, with what is known of the result of the first part. -/
theorem bind_of {R : α → Prop}
    (hx : ∀ s, I s → Effect.wp x (fun a s' => R a ∧ I s') (fun _ s' => I s') s)
    (hf : ∀ a, R a → Keeps I (f a)) : Keeps I (x >>= f) := by
  intro s hs
  refine state_of_wp (wp_bind.mpr (wp_mono (hx s hs) ?_ (fun _ _ h => h)))
  rintro a s' ⟨ha, hs'⟩
  exact (hf a ha).wp hs'

theorem ite {p : Prop} [Decidable p] {y : Effect ε σ α} (hx : Keeps I x) (hy : Keeps I y) :
    Keeps I (if p then x else y) := by
  split
  · exact hx
  · exact hy

theorem tryCatch {handler : ε → Effect ε σ α} (hx : Keeps I x) (hh : ∀ e, Keeps I (handler e)) :
    Keeps I (x.tryCatch handler) := by
  intro s hs
  have h := hx s hs
  unfold Effect.tryCatch
  rcases hxs : x s with ⟨e | a, s'⟩
  · rw [hxs] at h
    exact hh e s' h
  · rw [hxs] at h
    exact h

theorem forEach {f : α → Effect ε σ Unit} (hf : ∀ a, Keeps I (f a)) :
    ∀ as : List α, Keeps I (Effect.forEach f as)
  | [] => .pure ()
  | a :: as => .bind (hf a) (fun _ => forEach hf as)

theorem forEach_mem {f : α → Effect ε σ Unit} :
    ∀ as : List α, (∀ a ∈ as, Keeps I (f a)) → Keeps I (Effect.forEach f as)
  | [], _ => .pure ()
  | a :: as, hf =>
      .bind (hf a List.mem_cons_self)
        (fun _ => forEach_mem as (fun b hb => hf b (List.mem_cons_of_mem a hb)))

end Keeps

/-- From related states the program has equal results and leaves related states. -/
def Respects (R : σ → σ → Prop) (x : Effect ε σ α) : Prop :=
  ∀ s t, R s t → (x s).1 = (x t).1 ∧ R (x s).2 (x t).2

namespace Respects

variable {R : σ → σ → Prop}

theorem pure (a : α) : Respects R (Pure.pure a : Effect ε σ α) := fun _ _ h => ⟨rfl, h⟩

theorem raise (e : ε) : Respects R (Effect.raise e : Effect ε σ α) := fun _ _ h => ⟨rfl, h⟩

theorem lift (x : Except ε α) : Respects R (Effect.lift x : Effect ε σ α) :=
  fun _ _ h => ⟨rfl, h⟩

theorem modify {f : σ → σ} (hf : ∀ s t, R s t → R (f s) (f t)) :
    Respects R (Effect.modify f : Effect ε σ Unit) := fun s t h => ⟨rfl, hf s t h⟩

theorem bind {x : Effect ε σ α} {f : α → Effect ε σ β} (hx : Respects R x)
    (hf : ∀ a, Respects R (f a)) : Respects R (x >>= f) := by
  intro s t hst
  obtain ⟨hresult, hleft⟩ := hx s t hst
  rw [run_bind, run_bind]
  rcases hs : x s with ⟨e | a, s'⟩
  · rcases ht : x t with ⟨e' | a', t'⟩
    · rw [hs, ht] at hresult hleft
      exact ⟨congrArg Except.error (Except.error.inj hresult), hleft⟩
    · rw [hs, ht] at hresult
      cases hresult
  · rcases ht : x t with ⟨e' | a', t'⟩
    · rw [hs, ht] at hresult
      cases hresult
    · rw [hs, ht] at hresult hleft
      obtain rfl : a = a' := Except.ok.inj hresult
      exact hf a s' t' hleft

/-- What a program reads of the state is equal in related states. -/
theorem get_bind {f : σ → Effect ε σ α} (hread : ∀ s t, R s t → f s = f t)
    (hf : ∀ s, Respects R (f s)) : Respects R (Effect.get >>= f) := by
  intro s t hst
  rw [run_bind_ok _ (run_get s), run_bind_ok _ (run_get t), hread s t hst]
  exact hf t s t hst

theorem focus {view : σ → τ} {update : τ → σ → σ} {x : Effect ε τ α}
    (hview : ∀ s t, R s t → view s = view t)
    (hupdate : ∀ a s t, R s t → R (update a s) (update a t)) :
    Respects R (Effect.focus view update x) := by
  intro s t hst
  simp only [Effect.focus, hview s t hst]
  exact ⟨trivial, hupdate _ s t hst⟩

theorem forEach {f : α → Effect ε σ Unit} (hf : ∀ a, Respects R (f a)) :
    ∀ as : List α, Respects R (Effect.forEach f as)
  | [] => Respects.pure ()
  | a :: as => Respects.bind (hf a) (fun _ => forEach hf as)

end Respects

end Effect
end SoupDB
