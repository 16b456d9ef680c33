import SoupDB.Lib.Dict
import SoupDB.Common.Value

/-!
# SoupDB: the strict two-phase locking strategy

The grant table maps each resource to the transactions that hold it, each with a mode
and a count.  A request is granted when its mode (or, for a holder of the resource, the
stronger of its two modes) is compatible with the modes of all other holders.

`held` is the mode a transaction holds a resource in.  Every method has a lemma that says
what is held after it; `Compatible` is the invariant they keep.
-/

namespace SoupDB

/-- Lock modes for pessimistic control. -/
inductive LockMode
  | SHARED
  | UPDATE
  | EXCLUSIVE
deriving DecidableEq, Repr

namespace LockMode

/-- `_LOCK_PRIORITY`. -/
def priority : LockMode → Nat
  | .SHARED => 0
  | .UPDATE => 1
  | .EXCLUSIVE => 2

/-- `_COMPAT[held][mode]`. -/
def compat : LockMode → LockMode → Bool
  | .SHARED, .SHARED => true
  | .SHARED, .UPDATE => true
  | .UPDATE, .SHARED => true
  | _, _ => false

/-- `_stronger(held, requested)`. -/
def stronger (held requested : LockMode) : LockMode :=
  if requested.priority > held.priority then requested else held

theorem compat_symm (a b : LockMode) : compat a b = compat b a := by
  cases a <;> cases b <;> rfl

theorem compat_of_le {a a' b b' : LockMode} (ha : a.priority ≤ a'.priority)
    (hb : b.priority ≤ b'.priority) (h : compat a' b' = true) : compat a b = true := by
  revert ha hb h
  cases a <;> cases a' <;> cases b <;> cases b' <;> decide

theorem le_stronger_left (held requested : LockMode) :
    held.priority ≤ (stronger held requested).priority := by
  cases held <;> cases requested <;> decide

theorem le_stronger_right (held requested : LockMode) :
    requested.priority ≤ (stronger held requested).priority := by
  cases held <;> cases requested <;> decide

end LockMode

/-- Transaction identifiers. -/
abbrev TxId : Type := Nat

/-- The strategy over resources of any type. -/
structure StrictTwoPhaseLocking (R : Type) where
  /-- resource -> {tx_id: (mode, count)} -/
  grants : Dict R (Dict TxId (LockMode × Nat))
  /-- tx_id -> resource a transaction is currently blocked on -/
  waiting : Dict TxId R

namespace StrictTwoPhaseLocking

variable {R : Type} [DecidableEq R]

/-- `StrictTwoPhaseLocking()`. -/
def new : StrictTwoPhaseLocking R := { grants := ∅, waiting := ∅ }

def holders (p : StrictTwoPhaseLocking R) (resource : R) : Dict TxId (LockMode × Nat) :=
  (p.grants.lookup resource).getD ∅

/-- The mode in which a transaction holds a resource. -/
def held (p : StrictTwoPhaseLocking R) (resource : R) (txId : TxId) : Option LockMode :=
  ((p.holders resource).lookup txId).map Prod.fst

/-! ## The methods -/

/-- The transactions a waiting transaction waits for. -/
def waitsFor (p : StrictTwoPhaseLocking R) (txId : TxId) : List TxId :=
  match p.waiting.lookup txId with
  | none => []
  | some resource => (p.holders resource).keys.filter (· ≠ txId)

/-- `in_cycle(node, path)`; a path without repetition is no longer than `rounds`. -/
def inCycle (p : StrictTwoPhaseLocking R) : Nat → TxId → List TxId → Bool
  | 0, _, _ => false
  | rounds + 1, node, path =>
      node ∈ path || (p.waitsFor node).any (fun nxt => p.inCycle rounds nxt (node :: path))

def deadlockDetected (p : StrictTwoPhaseLocking R) (txId : TxId) : Bool :=
  decide (txId ∈ p.waiting) && p.inCycle (p.waiting.keys.length + 2) txId []

/-- Whether the request can be granted now. -/
def tryGrant (p : StrictTwoPhaseLocking R) (txId : TxId) (resource : R) (mode : LockMode) :
    Bool :=
  match (p.holders resource).lookup txId with
  | some (held, _) =>
      let desired := LockMode.stronger held mode
      (p.holders resource).all
        (fun other entry => decide (other = txId) || LockMode.compat entry.1 desired)
  | none => (p.holders resource).all (fun _ entry => LockMode.compat entry.1 mode)

/-- The mode and count of a transaction whose request is granted. -/
def grantedEntry (p : StrictTwoPhaseLocking R) (txId : TxId) (resource : R) (mode : LockMode) :
    LockMode × Nat :=
  match (p.holders resource).lookup txId with
  | some (held, count) => (LockMode.stronger held mode, count + 1)
  | none => (mode, 1)

def grant (p : StrictTwoPhaseLocking R) (txId : TxId) (resource : R) (mode : LockMode) :
    StrictTwoPhaseLocking R :=
  { grants := p.grants.insert resource
      ((p.holders resource).insert txId (p.grantedEntry txId resource mode))
    waiting := p.waiting.erase txId }

/-- One round of the loop of `acquire` under the mutex: the request is granted, or the
transaction is marked as waiting. -/
def acquire (txId : TxId) (resource : R) (mode : LockMode) (p : StrictTwoPhaseLocking R) :
    Bool × StrictTwoPhaseLocking R :=
  if p.tryGrant txId resource mode then (true, p.grant txId resource mode)
  else (false, { p with waiting := p.waiting.insert txId resource })

/-- What `acquire` does before it raises. -/
def stopWaiting (txId : TxId) (p : StrictTwoPhaseLocking R) : StrictTwoPhaseLocking R :=
  { p with waiting := p.waiting.erase txId }

/-- Take the transaction from the holders of a resource, and the resource from the table
when no holder is left. -/
def dropHolder (txId : TxId) (grants : Dict R (Dict TxId (LockMode × Nat))) (resource : R) :
    Dict R (Dict TxId (LockMode × Nat)) :=
  let remaining := ((grants.lookup resource).getD ∅).erase txId
  if remaining.keys = [] then grants.erase resource else grants.insert resource remaining

def release (txId : TxId) (resource : R) (p : StrictTwoPhaseLocking R) :
    StrictTwoPhaseLocking R :=
  match (p.holders resource).lookup txId with
  | none => p
  | some (mode, count) =>
      if count > 1 then
        let grants := (p.holders resource).insert txId (mode, count - 1)
        { p with grants := p.grants.insert resource grants }
      else { p with grants := dropHolder txId p.grants resource }

def releaseAll (txId : TxId) (p : StrictTwoPhaseLocking R) : StrictTwoPhaseLocking R :=
  { grants := p.grants.keys.foldl (dropHolder txId) p.grants
    waiting := p.waiting.erase txId }

def locksHeld (p : StrictTwoPhaseLocking R) (txId : TxId) : List R :=
  p.grants.keys.filter (fun resource => decide (txId ∈ p.holders resource))

def close (_ : StrictTwoPhaseLocking R) : StrictTwoPhaseLocking R := { grants := ∅, waiting := ∅ }

/-! ## What is held after each method -/

variable {p : StrictTwoPhaseLocking R} {tx : TxId} {r : R} {m : LockMode}

@[simp] theorem held_new (r : R) (tx : TxId) : (new : StrictTwoPhaseLocking R).held r tx = none :=
  rfl

@[simp] theorem held_close (r : R) (tx : TxId) : p.close.held r tx = none := rfl

/-- The mode after a grant is at least as strong as the one asked for and the one held. -/
theorem held_grant (t : TxId) (r' : R) : (p.grant tx r m).held r' t =
    if r' = r ∧ t = tx then some (p.grantedEntry tx r m).1 else p.held r' t := by
  simp only [held, holders, grant, Dict.lookup_insert_eq]
  by_cases hr : r' = r
  · subst hr
    by_cases ht : t = tx
    · subst ht
      simp
    · simp [ht]
  · simp [hr]

theorem le_granted_entry : m.priority ≤ (p.grantedEntry tx r m).1.priority := by
  rw [grantedEntry]
  split
  · exact LockMode.le_stronger_right _ _
  · exact le_rfl

theorem held_le_granted_entry {m' : LockMode} (h : p.held r tx = some m') :
    m'.priority ≤ (p.grantedEntry tx r m).1.priority := by
  rw [held, Option.map_eq_some_iff] at h
  obtain ⟨⟨held, count⟩, hlookup, rfl⟩ := h
  simp only [grantedEntry, hlookup]
  exact LockMode.le_stronger_left _ _

/-- A granted request is compatible with what all other transactions hold. -/
theorem compat_of_try_grant (h : p.tryGrant tx r m = true) {t : TxId} (ht : t ≠ tx)
    {m' : LockMode} (hheld : p.held r t = some m') :
    LockMode.compat m' (p.grantedEntry tx r m).1 = true := by
  rw [held, Option.map_eq_some_iff] at hheld
  obtain ⟨⟨mode, count⟩, hlookup, rfl⟩ := hheld
  rw [tryGrant] at h
  rw [grantedEntry]
  cases hown : (p.holders r).lookup tx with
  | none =>
      simp only [hown, Dict.all_iff] at h
      exact h t (mode, count) hlookup
  | some entry =>
      obtain ⟨own, n⟩ := entry
      simp only [hown, Dict.all_iff, Bool.or_eq_true, decide_eq_true_eq] at h
      exact (h t (mode, count) hlookup).resolve_left ht

/-- What is held in a grant table after a transaction is taken from some resources. -/
theorem lookup_foldl_drop_holder (rs : List R) (grants : Dict R (Dict TxId (LockMode × Nat)))
    (t : TxId) : (((rs.foldl (dropHolder tx) grants).lookup r).getD ∅).lookup t =
      if t = tx ∧ r ∈ rs then none else ((grants.lookup r).getD ∅).lookup t := by
  induction rs generalizing grants with
  | nil => simp
  | cons r' rs ih =>
      rw [List.foldl_cons, ih]
      have hdrop : (((dropHolder tx grants r').lookup r).getD ∅).lookup t =
          if t = tx ∧ r = r' then none else ((grants.lookup r).getD ∅).lookup t := by
        have herase := Dict.lookup_erase_eq ((grants.lookup r').getD ∅) tx t
        rw [dropHolder]
        by_cases hr : r = r'
        · subst hr
          by_cases hempty : (((grants.lookup r).getD ∅).erase tx).keys = []
          · have hnone : (((grants.lookup r).getD ∅).erase tx).lookup t = none := by
              rw [AList.lookup_eq_none, AList.mem_keys, hempty]
              exact List.not_mem_nil
            rw [hnone] at herase
            simp only [hempty, if_true, Dict.lookup_erase_eq, Option.getD_none, and_true]
            by_cases ht : t = tx
            · simp [ht]
            · simp only [ht, if_false] at herase ⊢
              simpa using herase
          · simp only [hempty, if_false, Dict.lookup_insert_eq, if_true, Option.getD_some, herase,
              and_true]
        · simp only [hr, and_false, if_false]
          split
          · rw [Dict.lookup_erase_eq, if_neg hr]
          · rw [Dict.lookup_insert_eq, if_neg hr]
      rw [hdrop]
      by_cases ht : t = tx
      · by_cases hr : r = r'
        · simp [ht, hr]
        · simp [ht, hr]
      · simp [ht]

theorem held_release_all (t : TxId) :
    (releaseAll tx p).held r t = if t = tx then none else p.held r t := by
  have h := @lookup_foldl_drop_holder R _ tx r p.grants.keys p.grants t
  simp only [held, holders, releaseAll, h]
  by_cases ht : t = tx
  · by_cases hr : r ∈ p.grants.keys
    · simp [ht, hr]
    · have hnone : p.grants.lookup r = none := by
        rw [AList.lookup_eq_none, AList.mem_keys]
        exact hr
      simp [ht, hnone]
  · simp [ht]

/-! ## Compatible holders -/

/-- No two transactions hold a resource in incompatible modes. -/
def Compatible (p : StrictTwoPhaseLocking R) : Prop :=
  ∀ r t₁ t₂ m₁ m₂, t₁ ≠ t₂ → p.held r t₁ = some m₁ → p.held r t₂ = some m₂ →
    LockMode.compat m₁ m₂ = true

namespace Compatible

theorem new : Compatible (new : StrictTwoPhaseLocking R) := by
  intro r t₁ t₂ m₁ m₂ _ h₁ _
  rw [held_new] at h₁
  cases h₁

theorem close : Compatible p.close := by
  intro r t₁ t₂ m₁ m₂ _ h₁ _
  rw [held_close] at h₁
  cases h₁

theorem grant (h : p.Compatible) (hgrant : p.tryGrant tx r m = true) :
    (p.grant tx r m).Compatible := by
  intro r' t₁ t₂ m₁ m₂ hne h₁ h₂
  rw [held_grant] at h₁ h₂
  by_cases hr : r' = r
  · subst hr
    by_cases ht₁ : t₁ = tx
    · have ht₂ : t₂ ≠ tx := fun ht₂ => hne (ht₁.trans ht₂.symm)
      rw [if_pos ⟨rfl, ht₁⟩, Option.some.injEq] at h₁
      rw [if_neg (fun hc => ht₂ hc.2)] at h₂
      rw [← h₁, LockMode.compat_symm]
      exact compat_of_try_grant hgrant ht₂ h₂
    · rw [if_neg (fun hc => ht₁ hc.2)] at h₁
      by_cases ht₂ : t₂ = tx
      · rw [if_pos ⟨rfl, ht₂⟩, Option.some.injEq] at h₂
        rw [← h₂]
        exact compat_of_try_grant hgrant ht₁ h₁
      · rw [if_neg (fun hc => ht₂ hc.2)] at h₂
        exact h r' t₁ t₂ m₁ m₂ hne h₁ h₂
  · rw [if_neg (fun hc => hr hc.1)] at h₁ h₂
    exact h r' t₁ t₂ m₁ m₂ hne h₁ h₂

theorem releaseAll (h : p.Compatible) : (releaseAll tx p).Compatible := by
  intro r' t₁ t₂ m₁ m₂ hne h₁ h₂
  rw [held_release_all] at h₁ h₂
  by_cases ht₁ : t₁ = tx
  · rw [if_pos ht₁] at h₁
    cases h₁
  · rw [if_neg ht₁] at h₁
    by_cases ht₂ : t₂ = tx
    · rw [if_pos ht₂] at h₂
      cases h₂
    · rw [if_neg ht₂] at h₂
      exact h r' t₁ t₂ m₁ m₂ hne h₁ h₂

end Compatible

end StrictTwoPhaseLocking
end SoupDB
