import Mathlib.Data.List.Basic

/-!
# Runs of a transition system

A system takes a step for each action of a list.  `Steps` says that every step of a run
meets a condition on the state before it, `Always` that every state of the run has a
property, and `exec` is the state a run ends in.  `always_of_steps` is the induction over
runs: what one step that meets the condition keeps, every such run keeps.
-/

namespace SoupDB

variable {σ α : Type}

/-- Every step of the run meets the condition, in the state it is taken in. -/
def Steps (guard : σ → α → Prop) (step : σ → α → σ) : σ → List α → Prop
  | _, [] => True
  | s, a :: as => guard s a ∧ Steps guard step (step s a) as

/-- A run can be checked step by step. -/
instance decidableSteps (guard : σ → α → Prop) [∀ s a, Decidable (guard s a)] (step : σ → α → σ) :
    ∀ (s : σ) (as : List α), Decidable (Steps guard step s as)
  | _, [] => .isTrue trivial
  | s, a :: as =>
      match (inferInstance : Decidable (guard s a)), decidableSteps guard step (step s a) as with
      | .isTrue h, .isTrue h' => .isTrue ⟨h, h'⟩
      | .isFalse h, _ => .isFalse (fun hs => h hs.1)
      | _, .isFalse h' => .isFalse (fun hs => h' hs.2)

/-- Every state of the run, the first and the last included, has the property. -/
def Always (P : σ → Prop) (step : σ → α → σ) : σ → List α → Prop
  | s, [] => P s
  | s, a :: as => P s ∧ Always P step (step s a) as

/-- The state a run ends in. -/
def exec (step : σ → α → σ) (s : σ) (as : List α) : σ := as.foldl step s

section Runs

variable {P Q : σ → Prop} {guard guard' : σ → α → Prop} {step : σ → α → σ}

theorem Always.head {s : σ} {as : List α} (h : Always P step s as) : P s := by
  cases as with
  | nil => exact h
  | cons a as => exact h.1

theorem Always.mono (hPQ : ∀ s, P s → Q s) :
    ∀ {as : List α} {s : σ}, Always P step s as → Always Q step s as
  | [], _, h => hPQ _ h
  | _ :: _, _, h => ⟨hPQ _ h.1, h.2.mono hPQ⟩

theorem Always.and :
    ∀ {as : List α} {s : σ}, Always P step s as → Always Q step s as →
      Always (fun s => P s ∧ Q s) step s as
  | [], _, h, h' => ⟨h, h'⟩
  | _ :: _, _, h, h' => ⟨⟨h.1, h'.1⟩, h.2.and h'.2⟩

theorem Always.last : ∀ {as : List α} {s : σ}, Always P step s as → P (exec step s as)
  | [], _, h => h
  | _ :: _, _, h => h.2.last

/-- What every step keeps holds in every state of the run. -/
theorem always_of_steps (hstep : ∀ s a, P s → guard s a → P (step s a)) :
    ∀ {as : List α} {s : σ}, P s → Steps guard step s as → Always P step s as
  | [], _, hs, _ => hs
  | a :: _, s, hs, h => ⟨hs, always_of_steps hstep (hstep s a hs h.1) h.2⟩

/-- The run ends in a state with what every step keeps. -/
theorem exec_of_steps (hstep : ∀ s a, P s → guard s a → P (step s a)) {as : List α} {s : σ}
    (hs : P s) (h : Steps guard step s as) : P (exec step s as) :=
  (always_of_steps hstep hs h).last

/-- What every step that meets the condition keeps, and what it does besides. -/
theorem steps_of_steps (hstep : ∀ s a, P s → guard s a → guard' s a ∧ P (step s a)) :
    ∀ {as : List α} {s : σ}, P s → Steps guard step s as → Steps guard' step s as
  | [], _, _, _ => trivial
  | a :: _, s, hs, h =>
      ⟨(hstep s a hs h.1).1, steps_of_steps hstep (hstep s a hs h.1).2 h.2⟩

/-- A condition on the actions alone. -/
theorem steps_of_forall {P : α → Prop} : ∀ {as : List α} (s : σ), (∀ a ∈ as, P a) →
    Steps (fun _ a => P a) step s as
  | [], _, _ => trivial
  | a :: _, _, h =>
      ⟨h a (List.mem_cons_self ..), steps_of_forall _ (fun b hb => h b (List.mem_cons_of_mem a hb))⟩

/-- What every step keeps, whatever state it is taken in, holds in every state of every run. -/
theorem always_of_every_step (hstep : ∀ s a, P s → P (step s a)) :
    ∀ (as : List α) {s : σ}, P s → Always P step s as
  | [], _, hs => hs
  | a :: as, s, hs => ⟨hs, always_of_every_step hstep as (hstep s a hs)⟩

end Runs

end SoupDB
