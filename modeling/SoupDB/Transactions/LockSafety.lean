import SoupDB.Transactions.Server

/-!
# SoupDB: lock safety of the shared server

A transaction relies on the locks it was granted until it ends.  `LockSafe` says that no
two active transactions rely on incompatible locks and that every lock an active
transaction relies on is in the grant table, at least as strong.

`lock_cases` lists what an action can do to the locks.  All but one keep `LockSafe`: the
end of any connection closes the lock manager that the connections share.
`lock_safe_iff_quiet_ends` says that the states of a run are lock safe exactly when no
connection ends while an active transaction relies on a lock.
-/

namespace SoupDB.Server

open StrictTwoPhaseLocking

variable {Row Key : Type}

/-- The transaction has been granted the lock and has not ended. -/
def Relies (s : Server Row Key) (tx : TxId) (resource : Resource) (mode : LockMode) : Prop :=
  (s.objects tx).state = .ACTIVE ∧ (resource, mode) ∈ (s.objects tx).granted

/-- The locks that active transactions rely on are compatible, and in the grant table. -/
structure LockSafe (s : Server Row Key) : Prop where
  compatible : ∀ tx₁ tx₂ resource mode₁ mode₂, tx₁ ≠ tx₂ → Relies s tx₁ resource mode₁ →
    Relies s tx₂ resource mode₂ → LockMode.compat mode₁ mode₂ = true
  kept : ∀ tx resource mode, Relies s tx resource mode →
    ∃ mode', s.lockManager.held resource tx = some mode' ∧ mode.priority ≤ mode'.priority

/-- A connection ends only when no active transaction relies on a lock. -/
def QuietEnd (s : Server Row Key) : Action Row Key → Prop
  | .disconnect _ _ => ∀ tx resource mode, ¬ Relies s tx resource mode
  | _ => True

/-! ## What an action does to the locks -/

inductive LockStep (s s' : Server Row Key) : Prop
  /-- No lock changes, and no transaction begins or ends. -/
  | same (manager : ∀ resource tx,
        s'.lockManager.held resource tx = s.lockManager.held resource tx)
      (compatible : s.lockManager.Compatible → s'.lockManager.Compatible)
      (state : ∀ tx, (s'.objects tx).state = (s.objects tx).state)
      (granted : ∀ tx, (s'.objects tx).granted = (s.objects tx).granted)
  /-- A lock is granted. -/
  | grant (c : Nat) (tx : TxId) (resource : Resource) (mode : LockMode)
      (opened : s.openTx c = some tx) (grantable : s.lockManager.tryGrant tx resource mode = true)
      (manager : s'.lockManager = s.lockManager.grant tx resource mode)
      (state : ∀ tx', (s'.objects tx').state = (s.objects tx').state)
      (granted : ∀ tx', (s'.objects tx').granted =
        (s.objects tx').granted ++ if tx' = tx then [(resource, mode)] else [])
  /-- A transaction begins. -/
  | start (tx : TxId) (fresh : tx = s.nextId) (manager : s'.lockManager = s.lockManager)
      (new : (s'.objects tx).granted = [])
      (state : ∀ tx', tx' ≠ tx → (s'.objects tx').state = (s.objects tx').state)
      (granted : ∀ tx', tx' ≠ tx → (s'.objects tx').granted = (s.objects tx').granted)
  /-- A transaction ends. -/
  | finish (tx : TxId)
      (manager : s'.lockManager = releaseAll tx s.lockManager)
      (ended : (s'.objects tx).state ≠ .ACTIVE)
      (state : ∀ tx', tx' ≠ tx → (s'.objects tx').state = (s.objects tx').state)
      (granted : ∀ tx', tx' ≠ tx → (s'.objects tx').granted = (s.objects tx').granted)

namespace LockStep

variable {s : Server Row Key}

variable {s' : Server Row Key} {tx : TxId} {resource : Resource}

theorem of_eq (hmanager : s'.lockManager = s.lockManager) (hobjects : s'.objects = s.objects) :
    LockStep s s' := by
  refine .same ?_ ?_ ?_ ?_
  · intro resource tx
    rw [hmanager]
  · intro h
    rw [hmanager]
    exact h
  · intro tx
    rw [hobjects]
  · intro tx
    rw [hobjects]

theorem of_waiting {waiting : Dict TxId Resource}
    (hmanager : s'.lockManager = { s.lockManager with waiting })
    (hobjects : s'.objects = s.objects) : LockStep s s' := by
  have hheld : ∀ resource tx,
      s'.lockManager.held resource tx = s.lockManager.held resource tx := by
    intro resource tx
    rw [hmanager]
    rfl
  refine .same hheld ?_ ?_ ?_
  · intro h r t₁ t₂ m₁ m₂ hne h₁ h₂
    rw [hheld] at h₁ h₂
    exact h r t₁ t₂ m₁ m₂ hne h₁ h₂
  · intro tx
    rw [hobjects]
  · intro tx
    rw [hobjects]

theorem of_with_lock {c : Nat} {mode : LockMode} (hopen : s.openTx c = some tx)
    (h : s.lockManager.tryGrant tx resource mode = true) :
    LockStep s (s.withLock tx resource mode) := by
  refine .grant c tx resource mode hopen h rfl ?_ ?_
  · intro tx'
    by_cases htx : tx' = tx
    · subst htx
      simp [withLock]
    · simp [withLock, htx]
  · intro tx'
    by_cases htx : tx' = tx
    · subst htx
      simp [withLock]
    · simp [withLock, htx]

theorem of_with_call {c : Nat} {call : Call Row Key} {mode : LockMode}
    (hopen : s.openTx c = some tx) (h : s.lockManager.tryGrant tx resource mode = true) :
    LockStep s ((s.withLock tx resource mode).withCall tx call) := by
  refine .grant c tx resource mode hopen h rfl ?_ ?_
  · intro tx'
    by_cases htx : tx' = tx
    · subst htx
      simp [withCall, withLock]
    · simp [withCall, withLock, htx]
  · intro tx'
    by_cases htx : tx' = tx
    · subst htx
      simp [withCall, withLock]
    · simp [withCall, withLock, htx]

theorem of_with_end {c : Nat} {final : TransactionState} (hfinal : final ≠ .ACTIVE)
    (hmanager : s'.lockManager = (s.withEnd c tx final).lockManager)
    (hobjects : s'.objects = (s.withEnd c tx final).objects) : LockStep s s' := by
  refine .finish tx hmanager ?_ ?_ ?_
  · rw [hobjects]
    simpa [withEnd] using hfinal
  · intro tx' htx
    rw [hobjects]
    simp [withEnd, htx]
  · intro tx' htx
    rw [hobjects]
    simp [withEnd, htx]

end LockStep

theorem lock_cases (s : Server Row Key) (a : Action Row Key) :
    (∃ c exit, a = .disconnect c exit) ∨ LockStep s (step s a) := by
  have hmove := moves s a
  generalize step s a = s' at hmove ⊢
  cases hmove with
  | disconnect c exit => exact Or.inl ⟨c, exit, rfl⟩
  | stay | connect => exact Or.inr (.of_eq rfl rfl)
  | undo => exact Or.inr (.of_eq rfl rfl)
  | wait | undoing => exact Or.inr (.of_waiting rfl rfl)
  | call c tx call hopen hgrant => exact Or.inr (.of_with_call hopen hgrant)
  | lock c tx resource hopen hgrant => exact Or.inr (.of_with_lock hopen hgrant)
  | finish _ c tx final committed hconnection hended =>
      exact Or.inr (.of_with_end (c := c) hended rfl rfl)
  | start c =>
      refine Or.inr (.start s.nextId rfl rfl (by simp) ?_ ?_)
      · intro tx' htx
        simp [htx]
      · intro tx' htx
        simp [htx]

/-! ## What keeps lock safety -/

/-- The invariant behind `LockSafe`. -/
structure LockInv (s : Server Row Key) : Prop where
  compatible : s.lockManager.Compatible
  kept : ∀ tx resource mode, Relies s tx resource mode →
    ∃ mode', s.lockManager.held resource tx = some mode' ∧ mode.priority ≤ mode'.priority

namespace LockInv

variable {s s' : Server Row Key}

/-- What transactions rely on is compatible because what they hold is. -/
theorem lockSafe (h : LockInv s) : LockSafe s := by
  refine ⟨?_, h.kept⟩
  intro tx₁ tx₂ resource mode₁ mode₂ hne h₁ h₂
  obtain ⟨held₁, hheld₁, hle₁⟩ := h.kept tx₁ resource mode₁ h₁
  obtain ⟨held₂, hheld₂, hle₂⟩ := h.kept tx₂ resource mode₂ h₂
  exact LockMode.compat_of_le hle₁ hle₂
    (h.compatible resource tx₁ tx₂ held₁ held₂ hne hheld₁ hheld₂)

theorem start (tables : String → FileOrganization Row) :
    LockInv (start tables : Server Row Key) := by
  refine ⟨StrictTwoPhaseLocking.Compatible.new, ?_⟩
  intro tx resource mode h
  have hstate : TransactionState.ABORTED = .ACTIVE := h.1
  cases hstate

theorem granted_step {tx : TxId} {resource : Resource} {mode : LockMode} (h : LockInv s)
    (hgrant : s.lockManager.tryGrant tx resource mode = true)
    (hmanager : s'.lockManager = s.lockManager.grant tx resource mode)
    (hstate : ∀ tx', (s'.objects tx').state = (s.objects tx').state)
    (hgranted : ∀ tx', (s'.objects tx').granted =
      (s.objects tx').granted ++ if tx' = tx then [(resource, mode)] else []) :
    LockInv s' := by
  constructor
  · rw [hmanager]
    exact h.compatible.grant hgrant
  · rintro tx' resource' mode' ⟨hactive, hmem⟩
    rw [hstate] at hactive
    rw [hgranted, List.mem_append] at hmem
    rw [hmanager]
    simp only [held_grant]
    rcases hmem with hold | hnew
    · obtain ⟨held, hheld, hle⟩ := h.kept tx' resource' mode' ⟨hactive, hold⟩
      by_cases hsame : resource' = resource ∧ tx' = tx
      · obtain ⟨rfl, rfl⟩ := hsame
        refine ⟨_, if_pos ⟨rfl, rfl⟩, hle.trans ?_⟩
        exact held_le_granted_entry hheld
      · exact ⟨held, by rw [if_neg hsame, hheld], hle⟩
    · by_cases htx : tx' = tx
      · rw [if_pos htx, List.mem_singleton, Prod.mk.injEq] at hnew
        obtain ⟨rfl, rfl⟩ := hnew
        exact ⟨_, if_pos ⟨rfl, htx⟩, le_granted_entry⟩
      · rw [if_neg htx] at hnew
        cases hnew

theorem finished_step {tx : TxId} (h : LockInv s)
    (hmanager : s'.lockManager = releaseAll tx s.lockManager)
    (hended : (s'.objects tx).state ≠ .ACTIVE)
    (hstate : ∀ tx', tx' ≠ tx → (s'.objects tx').state = (s.objects tx').state)
    (hgranted : ∀ tx', tx' ≠ tx → (s'.objects tx').granted = (s.objects tx').granted) :
    LockInv s' := by
  constructor
  · rw [hmanager]
    exact h.compatible.releaseAll
  · rintro tx' resource mode ⟨hactive, hmem⟩
    have hne : tx' ≠ tx := by
      rintro rfl
      exact hended hactive
    rw [hstate tx' hne] at hactive
    rw [hgranted tx' hne] at hmem
    obtain ⟨held, hheld, hle⟩ := h.kept tx' resource mode ⟨hactive, hmem⟩
    refine ⟨held, ?_, hle⟩
    rw [hmanager, held_release_all, if_neg hne, hheld]

/-- When no transaction relies on a lock, closing the lock manager loses none. -/
theorem closed_step {c : Nat} {exit : Exit} (h : QuietEnd s (.disconnect c exit)) :
    LockInv (Server.step s (.disconnect c exit)) := by
  rw [step_disconnect]
  refine ⟨StrictTwoPhaseLocking.Compatible.close (p := s.lockManager), ?_⟩
  intro tx resource mode hrelies
  exact absurd hrelies (h tx resource mode)

/-- Every action but the end of a connection keeps the invariant, and a quiet end does. -/
theorem step (h : LockInv s) {a : Action Row Key} (hquiet : QuietEnd s a) :
    LockInv (step s a) := by
  rcases lock_cases s a with ⟨c, exit, rfl⟩ | hstep
  · exact closed_step hquiet
  cases hstep with
  | same hmanager hcompat hstate hgranted =>
      refine ⟨hcompat h.compatible, ?_⟩
      rintro tx resource mode ⟨hactive, hmem⟩
      rw [hstate] at hactive
      rw [hgranted] at hmem
      rw [hmanager]
      exact h.kept tx resource mode ⟨hactive, hmem⟩
  | grant c tx resource mode hopen hgrant hmanager hstate hgranted =>
      exact h.granted_step hgrant hmanager hstate hgranted
  | start tx hfresh hmanager hnew hstate hgranted =>
      constructor
      · rw [hmanager]
        exact h.compatible
      · rintro tx' resource mode ⟨hactive, hmem⟩
        by_cases htx : tx' = tx
        · rw [htx, hnew] at hmem
          cases hmem
        · rw [hstate tx' htx] at hactive
          rw [hgranted tx' htx] at hmem
          rw [hmanager]
          exact h.kept tx' resource mode ⟨hactive, hmem⟩
  | finish tx hmanager hended hstate hgranted =>
      exact h.finished_step hmanager hended hstate hgranted

end LockInv

/-- A connection that ends while a transaction relies on a lock takes the lock away. -/
theorem not_lockSafe_of_end {s : Server Row Key} {a : Action Row Key} (h : ¬ QuietEnd s a) :
    ¬ LockSafe (step s a) := by
  intro hsafe
  cases a with
  | disconnect c exit =>
      simp only [QuietEnd, not_forall, not_not] at h
      obtain ⟨tx, resource, mode, hrelies⟩ := h
      obtain ⟨mode', hheld, _⟩ := hsafe.kept tx resource mode hrelies
      rw [step_disconnect] at hheld
      cases hheld
  | _ => exact h trivial

/-- From a lock safe start, the states of a run are lock safe exactly when its connections
end while no active transaction relies on a lock. -/
theorem always_lockSafe_iff : ∀ {actions : List (Action Row Key)} {s : Server Row Key},
    LockInv s → (Always LockSafe step s actions ↔ Steps QuietEnd step s actions)
  | [], s, h => ⟨fun _ => trivial, fun _ => h.lockSafe⟩
  | a :: actions, s, h => by
      constructor
      · rintro ⟨_, hrest⟩
        have hquiet : QuietEnd s a := by
          by_contra hnot
          exact not_lockSafe_of_end hnot hrest.head
        exact ⟨hquiet, (always_lockSafe_iff (h.step hquiet)).mp hrest⟩
      · rintro ⟨hquiet, hrest⟩
        exact ⟨h.lockSafe, (always_lockSafe_iff (h.step hquiet)).mpr hrest⟩

/-- Every run of a new server, over any tables and any number of connections, is lock safe
in all its states exactly when no connection ends while an active transaction relies on
a lock. -/
theorem lock_safe_iff_quiet_ends (tables : String → FileOrganization Row)
    (actions : List (Action Row Key)) :
    Always LockSafe step (start tables) actions ↔ Steps QuietEnd step (start tables) actions :=
  always_lockSafe_iff (LockInv.start tables)

/-- Two clients: the first inserts a row, the second connects and leaves, and a third
gets the lock that the first still relies on. -/
def leavingClient : List (Action Nat Nat) :=
  [.connect, .connect, .connect, .beginTransaction 0, .call 0 (.insert "t" 7 ⟨0, 0⟩),
    .disconnect 1 .connectionError, .beginTransaction 2, .call 2 (.insert "t" 8 ⟨0, 1⟩)]

/-- Both transactions are active and rely on the EXCLUSIVE lock of the table. -/
theorem lock_safety_fails :
    Steps Enabled step (start (fun _ => .empty)) leavingClient ∧
      ¬ Always LockSafe step (start (fun _ => .empty)) leavingClient := by
  refine ⟨by decide +kernel, ?_⟩
  intro h
  have hlast := h.last
  have hfirst : Relies (exec step (start (fun _ => .empty)) leavingClient) 1 (.table "t")
      .EXCLUSIVE := ⟨by decide +kernel, by decide +kernel⟩
  have hsecond : Relies (exec step (start (fun _ => .empty)) leavingClient) 2 (.table "t")
      .EXCLUSIVE := ⟨by decide +kernel, by decide +kernel⟩
  have hcompat := hlast.compatible 1 2 _ _ _ (by decide) hfirst hsecond
  cases hcompat

end SoupDB.Server
