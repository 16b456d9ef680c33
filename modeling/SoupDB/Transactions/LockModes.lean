import SoupDB.Lib.Transition
import SoupDB.Transactions.Strict2PL

/-!
# SoupDB: lock modes over runs of the strategy

Requests of any transactions, one after the other.  In every state that is reached the
modes held on a resource are pairwise compatible, a step leaves each transaction that keeps
a resource with a mode at least as strong as before, and `releaseAll` leaves its
transaction nothing (`lock_table_invariant`).
-/

namespace SoupDB.StrictTwoPhaseLocking

variable {R : Type} [DecidableEq R] {p : StrictTwoPhaseLocking R} {tx t : TxId} {r r' : R}
  {m : LockMode}

/-- One step of a transaction; a request that is not granted leaves it waiting. -/
inductive Request (R : Type)
  | acquire (txId : TxId) (resource : R) (mode : LockMode)
  | stopWaiting (txId : TxId)
  | release (txId : TxId) (resource : R)
  | releaseAll (txId : TxId)

def act (p : StrictTwoPhaseLocking R) : Request R → StrictTwoPhaseLocking R
  | .acquire txId resource mode => (acquire txId resource mode p).2
  | .stopWaiting txId => stopWaiting txId p
  | .release txId resource => release txId resource p
  | .releaseAll txId => releaseAll txId p

/-! ## What each step does to the modes held -/

/-- A release of a counted lock keeps the mode, the last release gives it up. -/
theorem held_release : (release tx r p).held r' t = p.held r' t ∨
    (r' = r ∧ t = tx ∧ (release tx r p).held r' t = none) := by
  rw [release]
  cases hlookup : (p.holders r).lookup tx with
  | none => exact Or.inl rfl
  | some entry =>
      obtain ⟨mode, count⟩ := entry
      by_cases hcount : count > 1
      · left
        simp only [hcount, if_true, held, holders, Dict.lookup_insert_eq]
        by_cases hr : r' = r
        · subst hr
          by_cases ht : t = tx
          · subst ht
            rw [holders] at hlookup
            simp [hlookup]
          · simp [ht]
        · simp [hr]
      · have hdrop := @lookup_foldl_drop_holder R _ tx r' [r] p.grants t
        simp only [List.foldl_cons, List.foldl_nil, List.mem_singleton] at hdrop
        simp only [hcount, if_false, held, holders, hdrop]
        by_cases hboth : t = tx ∧ r' = r
        · right
          rw [if_pos hboth]
          exact ⟨hboth.2, hboth.1, rfl⟩
        · left
          rw [if_neg hboth]

theorem held_acquire (hgrant : p.tryGrant tx r m = true) :
    (acquire tx r m p).2.held r tx =
      some (match p.held r tx with
        | some mode => LockMode.stronger mode m
        | none => m) := by
  rw [acquire, if_pos hgrant, held_grant, if_pos ⟨rfl, rfl⟩, grantedEntry, held]
  cases (p.holders r).lookup tx with
  | none => rfl
  | some entry => rfl

/-- A step never makes weaker a mode that is kept. -/
theorem held_le_act (a : Request R) {mode mode' : LockMode} (hheld : p.held r t = some mode)
    (hheld' : (p.act a).held r t = some mode') : mode.priority ≤ mode'.priority := by
  have hsame : (p.act a).held r t = p.held r t → mode.priority ≤ mode'.priority := by
    intro heq
    rw [heq, hheld, Option.some.injEq] at hheld'
    rw [hheld']
  cases a with
  | acquire txId resource requested =>
      rw [act, acquire] at hheld' hsame
      by_cases hgrant : p.tryGrant txId resource requested = true
      · rw [if_pos hgrant, held_grant] at hheld'
        by_cases hboth : r = resource ∧ t = txId
        · obtain ⟨rfl, rfl⟩ := hboth
          rw [if_pos ⟨rfl, rfl⟩, Option.some.injEq] at hheld'
          rw [← hheld']
          exact held_le_granted_entry hheld
        · rw [if_neg hboth, hheld, Option.some.injEq] at hheld'
          rw [hheld']
      · rw [if_neg hgrant] at hsame
        exact hsame rfl
  | stopWaiting txId => exact hsame rfl
  | release txId resource =>
      rcases @held_release R _ p txId t resource r with heq | ⟨_, _, hnone⟩
      · exact hsame heq
      · rw [act, hnone] at hheld'
        cases hheld'
  | releaseAll txId =>
      rw [act, held_release_all] at hheld' hsame
      by_cases ht : t = txId
      · rw [if_pos ht] at hheld'
        cases hheld'
      · rw [if_neg ht] at hsame
        exact hsame rfl

/-- A step takes modes away or grants a request. -/
theorem Compatible.act (h : p.Compatible) (a : Request R) : (p.act a).Compatible := by
  cases a with
  | acquire txId resource requested =>
      rw [StrictTwoPhaseLocking.act, acquire]
      by_cases hgrant : p.tryGrant txId resource requested = true
      · rw [if_pos hgrant]
        exact h.grant hgrant
      · rw [if_neg hgrant]
        exact h
  | stopWaiting txId => exact h
  | release txId resource =>
      have hsub : ∀ r' t mode, (release txId resource p).held r' t = some mode →
          p.held r' t = some mode := by
        intro r' t mode hheld
        rcases @held_release R _ p txId t resource r' with heq | ⟨_, _, hnone⟩
        · rw [← heq]
          exact hheld
        · rw [hnone] at hheld
          cases hheld
      intro r' t₁ t₂ m₁ m₂ hne h₁ h₂
      exact h r' t₁ t₂ m₁ m₂ hne (hsub r' t₁ m₁ h₁) (hsub r' t₂ m₂ h₂)
  | releaseAll txId => exact h.releaseAll

theorem mem_locks_held : r ∈ p.locksHeld tx ↔ r ∈ p.grants.keys ∧ (p.held r tx).isSome := by
  rw [locksHeld, List.mem_filter, decide_eq_true_eq, held, Option.isSome_map,
    AList.lookup_isSome]

/-! ## Runs -/

/-- In every state that is reached by requests of any transactions: the modes held on a
resource by different transactions are compatible; whatever the next step is, a mode that is
kept does not become weaker; a request that is granted gives the stronger of the mode held
and the one asked for; and `releaseAll` leaves its transaction no lock. -/
theorem lock_table_invariant (R : Type) [DecidableEq R] (requests : List (Request R)) :
    (exec act new requests).Compatible ∧
      (∀ a r t mode mode', (exec act new requests).held r t = some mode →
        ((exec act new requests).act a).held r t = some mode' →
          mode.priority ≤ mode'.priority) ∧
      (∀ tx r mode, (exec act new requests).tryGrant tx r mode = true →
        ((exec act new requests).act (.acquire tx r mode)).held r tx =
          some (match (exec act new requests).held r tx with
            | some held => LockMode.stronger held mode
            | none => mode)) ∧
      ∀ tx, (∀ r, ((exec act new requests).act (.releaseAll tx)).held r tx = none) ∧
        ((exec act new requests).act (.releaseAll tx)).locksHeld tx = [] := by
  have hnone : ∀ (p : StrictTwoPhaseLocking R) tx r, (releaseAll tx p).held r tx = none := by
    intro p tx r
    rw [held_release_all, if_pos rfl]
  refine ⟨?_, ?_, ?_, ?_⟩
  · have hstep : ∀ (p : StrictTwoPhaseLocking R) (a : Request R), p.Compatible →
        (p.act a).Compatible := fun _ a h => h.act a
    exact (always_of_every_step hstep requests Compatible.new).last
  · intro a r t mode mode' hheld hheld'
    exact held_le_act a hheld hheld'
  · intro tx r mode hgrant
    exact held_acquire hgrant
  · intro tx
    refine ⟨hnone _ tx, ?_⟩
    rw [List.eq_nil_iff_forall_not_mem]
    intro r hr
    have hsome := (mem_locks_held.mp hr).2
    rw [act, hnone] at hsome
    cases hsome

end SoupDB.StrictTwoPhaseLocking
