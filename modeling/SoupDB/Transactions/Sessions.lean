import SoupDB.Transactions.Undo

/-!
# SoupDB: sessions and their transactions

`SessionInv` ties the sessions to the transaction manager: every active transaction is
registered, the open transaction of a session is active, and every active transaction of a
connection that is served is the open one of its session.

The end of a connection does not touch the open transaction.  `aborted_on_end_iff` says
that a connection leaves nothing of its transactions behind exactly when its session has
no open transaction.
-/

namespace SoupDB.Server

open Function

variable {Row Key : Type}

/-! ## What an action does to sessions and transactions -/

inductive SessionStep (s s' : Server Row Key) : Prop
  /-- No session or transaction begins or ends. -/
  | same (openTx : ∀ c, s'.openTx c = s.openTx c)
      (served : ∀ c, (s'.sessions c).isSome = (s.sessions c).isSome)
      (state : ∀ tx, (s'.objects tx).state = (s.objects tx).state)
      (session : ∀ tx, (s'.objects tx).session = (s.objects tx).session)
      (transactions : s'.transactions = s.transactions) (nextId : s'.nextId = s.nextId)
      (accepted : s'.accepted = s.accepted)
  /-- A connection is accepted. -/
  | connect
      (sessions : s'.sessions =
        update s.sessions s.accepted (some { tx := none, undoing := none }))
      (objects : s'.objects = s.objects) (transactions : s'.transactions = s.transactions)
      (nextId : s'.nextId = s.nextId) (accepted : s'.accepted = s.accepted + 1)
  /-- A session begins a transaction. -/
  | start (c : Nat) (served : (s.sessions c).isSome = true) (free : s.openTx c = none)
      (sessions : s'.sessions =
        update s.sessions c (some { tx := some s.nextId, undoing := none }))
      (objects : s'.objects = update s.objects s.nextId
        { session := c, state := .ACTIVE, journal := [], granted := [], log := [] })
      (transactions : s'.transactions = s.transactions ++ [s.nextId])
      (nextId : s'.nextId = s.nextId + 1) (accepted : s'.accepted = s.accepted)
  /-- A session ends its transaction. -/
  | finish (c : Nat) (tx : TxId) (final : TransactionState) (ended : final ≠ .ACTIVE)
      (opened : s.openTx c = some tx)
      (sessions : s'.sessions =
        update s.sessions c (some { tx := none, undoing := none }))
      (objects : s'.objects = update s.objects tx { s.objects tx with state := final })
      (transactions : s'.transactions = s.transactions.erase tx)
      (nextId : s'.nextId = s.nextId) (accepted : s'.accepted = s.accepted)
  /-- A connection ends. -/
  | close (c : Nat) (sessions : s'.sessions = update s.sessions c none)
      (objects : s'.objects = s.objects) (transactions : s'.transactions = s.transactions)
      (nextId : s'.nextId = s.nextId) (accepted : s'.accepted = s.accepted)

variable {s : Server Row Key} {c : Nat} {session : Option (Session Row)}

theorem open_tx_update {s' : Server Row Key}
    (h : s'.sessions = update s.sessions c session) (c' : Nat) :
    s'.openTx c' = if c' = c then session.bind Session.tx else s.openTx c' := by
  rw [openTx, h]
  by_cases hc : c' = c
  · subst hc
    simp
  · simp [hc, openTx]

theorem served_update {s' : Server Row Key} (h : s'.sessions = update s.sessions c session)
    (c' : Nat) :
    (s'.sessions c').isSome = if c' = c then session.isSome else (s.sessions c').isSome := by
  rw [h]
  by_cases hc : c' = c
  · subst hc
    simp
  · simp [hc]

theorem served_of_open {tx : TxId} (h : s.openTx c = some tx) : (s.sessions c).isSome = true := by
  rw [openTx, Option.bind_eq_some_iff] at h
  obtain ⟨session, hsession, _⟩ := h
  rw [hsession]
  rfl

namespace SessionStep

variable {s s' : Server Row Key}

/-- A step that touches neither the sessions nor the transaction manager. -/
theorem of_objects (hsessions : s'.sessions = s.sessions)
    (hstate : ∀ tx, (s'.objects tx).state = (s.objects tx).state)
    (hsession : ∀ tx, (s'.objects tx).session = (s.objects tx).session)
    (htransactions : s'.transactions = s.transactions) (hnext : s'.nextId = s.nextId)
    (haccepted : s'.accepted = s.accepted) : SessionStep s s' := by
  refine .same ?_ ?_ hstate hsession htransactions hnext haccepted
  · intro c
    rw [openTx, openTx, hsessions]
  · intro c
    rw [hsessions]

theorem refl (s : Server Row Key) : SessionStep s s :=
  of_objects rfl (fun _ => rfl) (fun _ => rfl) rfl rfl rfl

/-- A step that changes only what is left of a rollback. -/
theorem of_undoing {c : Nat} {tx : TxId} {undoing : Option (List (JournalEntry Row))}
    (h : s.openTx c = some tx)
    (hsessions : s'.sessions = update s.sessions c (some { tx := some tx, undoing }))
    (hobjects : s'.objects = s.objects) (htransactions : s'.transactions = s.transactions)
    (hnext : s'.nextId = s.nextId) (haccepted : s'.accepted = s.accepted) :
    SessionStep s s' := by
  refine .same ?_ ?_ ?_ ?_ htransactions hnext haccepted
  · intro c'
    rw [open_tx_update hsessions]
    by_cases hc : c' = c
    · subst hc
      rw [if_pos rfl, h]
      rfl
    · rw [if_neg hc]
  · intro c'
    rw [served_update hsessions]
    by_cases hc : c' = c
    · subst hc
      rw [if_pos rfl, served_of_open h]
      rfl
    · rw [if_neg hc]
  · intro tx'
    rw [hobjects]
  · intro tx'
    rw [hobjects]

theorem of_with_lock (tx : TxId) (resource : Resource) (mode : LockMode) :
    SessionStep s (s.withLock tx resource mode) := by
  refine of_objects rfl ?_ ?_ rfl rfl rfl
  · intro tx'
    by_cases htx : tx' = tx
    · subst htx
      simp [withLock]
    · simp [withLock, htx]
  · intro tx'
    by_cases htx : tx' = tx
    · subst htx
      simp [withLock]
    · simp [withLock, htx]

theorem of_with_call (tx : TxId) (resource : Resource) (mode : LockMode) (call : Call Row Key) :
    SessionStep s ((s.withLock tx resource mode).withCall tx call) := by
  refine of_objects rfl ?_ ?_ rfl rfl rfl
  · intro tx'
    by_cases htx : tx' = tx
    · subst htx
      simp [withCall, withLock]
    · simp [withCall, withLock, htx]
  · intro tx'
    by_cases htx : tx' = tx
    · subst htx
      simp [withCall, withLock]
    · simp [withCall, withLock, htx]

end SessionStep

/-- A connection on which a rollback runs. -/
theorem undoing_of_enabled {p : List (JournalEntry Row) → Bool} (h : Undoing s c p) :
    ∃ tx entries, s.sessions c = some { tx := some tx, undoing := some entries } ∧
      p entries = true := by
  rw [Undoing, Option.any_eq_true] at h
  obtain ⟨⟨tx, undoing⟩, hsession, hboth⟩ := h
  rw [Bool.and_eq_true, Option.isSome_iff_exists, Option.any_eq_true] at hboth
  obtain ⟨⟨tx, rfl⟩, entries, rfl, hp⟩ := hboth
  exact ⟨tx, entries, hsession, hp⟩

theorem served_of_idle (h : Idle s c) : (s.sessions c).isSome = true := by
  rw [Idle, Option.any_eq_true] at h
  obtain ⟨session, hsession, _⟩ := h
  rw [hsession]
  rfl

theorem session_cases {a : Action Row Key} (henabled : Enabled s a) : SessionStep s (step s a) := by
  have hmove := moves s a
  generalize step s a = s' at hmove ⊢
  cases hmove with
  | stay => exact .refl s
  | connect => exact .connect rfl rfl rfl rfl rfl
  | start c free => exact .start c (served_of_idle henabled) free rfl rfl rfl rfl rfl
  | call c tx call => exact .of_with_call tx call.lock.1 call.lock.2 call
  | lock c tx resource => exact .of_with_lock tx resource .EXCLUSIVE
  | wait => exact .of_objects rfl (fun _ => rfl) (fun _ => rfl) rfl rfl rfl
  | undoing _ c tx waiting undoing hconnection hopen => exact .of_undoing hopen rfl rfl rfl rfl rfl
  | undo c tx newRid entry rest hopen => exact .of_undoing hopen rfl rfl rfl rfl rfl
  | finish _ c tx final committed hconnection hended hopen =>
      exact .finish c tx final hended hopen rfl rfl rfl rfl rfl
  | disconnect c exit => exact .close c rfl rfl rfl rfl rfl

/-! ## The invariant -/

/-- Sessions and transactions agree. -/
structure SessionInv (s : Server Row Key) : Prop where
  opened : ∀ c tx, s.openTx c = some tx →
    (s.objects tx).state = .ACTIVE ∧ (s.objects tx).session = c ∧ tx ∈ s.transactions
  active : ∀ tx, (s.objects tx).state = .ACTIVE →
    (s.sessions (s.objects tx).session).isSome = true →
      s.openTx (s.objects tx).session = some tx
  bounds : ∀ tx, (s.objects tx).state = .ACTIVE →
    (s.objects tx).session < s.accepted ∧ tx < s.nextId
  served : ∀ c, (s.sessions c).isSome = true → c < s.accepted
  registered : s.transactions.Nodup ∧ ∀ tx ∈ s.transactions, tx < s.nextId
  kept : ∀ tx, (s.objects tx).state = .ACTIVE → tx ∈ s.transactions

namespace SessionInv

variable {s s' : Server Row Key}

theorem start (tables : String → FileOrganization Row) :
    SessionInv (start tables : Server Row Key) := by
  refine ⟨?_, ?_, ?_, ?_, ⟨List.nodup_nil, by simp [Server.start]⟩, ?_⟩
  · intro c tx h
    cases h
  · intro tx h
    cases h
  · intro tx h
    cases h
  · intro c h
    cases h
  · intro tx h
    cases h

variable {c : Nat}

/-- Two connections have different transactions. -/
theorem session_unique (h : SessionInv s) {c' : Nat} {tx : TxId} (hc : s.openTx c = some tx)
    (hc' : s.openTx c' = some tx) : c = c' :=
  (h.opened c tx hc).2.1.symm.trans (h.opened c' tx hc').2.1

/-- A connection without a transaction is accepted, or a connection ends. -/
theorem vacant_step (h : SessionInv s)
    (hsessions : s'.sessions = update s.sessions c session)
    (hvacant : session.bind Session.tx = none)
    (hnew : session.isSome = true → c = s.accepted ∧ s.accepted < s'.accepted)
    (hobjects : s'.objects = s.objects) (htransactions : s'.transactions = s.transactions)
    (hnext : s'.nextId = s.nextId) (haccepted : s.accepted ≤ s'.accepted) : SessionInv s' := by
  have hopen := open_tx_update hsessions
  have hserved := served_update hsessions
  constructor
  · intro c' tx hc'
    rw [hopen] at hc'
    by_cases heq : c' = c
    · rw [if_pos heq, hvacant] at hc'
      cases hc'
    · rw [if_neg heq] at hc'
      rw [hobjects, htransactions]
      exact h.opened c' tx hc'
  · intro tx hactive hs
    rw [hobjects] at hactive hs ⊢
    by_cases heq : (s.objects tx).session = c
    · rw [hserved, if_pos heq] at hs
      have hlt := (h.bounds tx hactive).1
      exact absurd (heq.trans (hnew hs).1) hlt.ne
    · rw [hserved, if_neg heq] at hs
      rw [hopen, if_neg heq]
      exact h.active tx hactive hs
  · intro tx hactive
    rw [hobjects] at hactive ⊢
    rw [hnext]
    have hb := h.bounds tx hactive
    exact ⟨hb.1.trans_le haccepted, hb.2⟩
  · intro c' hs
    rw [hserved] at hs
    by_cases heq : c' = c
    · rw [if_pos heq] at hs
      rw [heq, (hnew hs).1]
      exact (hnew hs).2
    · rw [if_neg heq] at hs
      exact (h.served c' hs).trans_le haccepted
  · rw [htransactions, hnext]
    exact h.registered
  · rw [hobjects, htransactions]
    exact h.kept

theorem start_step (h : SessionInv s) (hc : (s.sessions c).isSome = true)
    (hfree : s.openTx c = none)
    (hsessions : s'.sessions =
      update s.sessions c (some { tx := some s.nextId, undoing := none }))
    (hobjects : s'.objects = update s.objects s.nextId
      { session := c, state := .ACTIVE, journal := [], granted := [], log := [] })
    (htransactions : s'.transactions = s.transactions ++ [s.nextId])
    (hnext : s'.nextId = s.nextId + 1) (haccepted : s'.accepted = s.accepted) :
    SessionInv s' := by
  have hopen := open_tx_update hsessions
  have hserved := served_update hsessions
  have hold : ∀ tx, tx ≠ s.nextId → s'.objects tx = s.objects tx := by
    intro tx htx
    rw [hobjects, update_of_ne htx]
  have hnew : s'.objects s.nextId =
      { session := c, state := .ACTIVE, journal := [], granted := [], log := [] } := by
    rw [hobjects, update_self]
  constructor
  · intro c' tx hc'
    rw [hopen] at hc'
    rw [htransactions]
    by_cases heq : c' = c
    · rw [if_pos heq] at hc'
      obtain rfl : s.nextId = tx := Option.some.inj hc'
      rw [hnew]
      exact ⟨rfl, heq.symm, by simp⟩
    · rw [if_neg heq] at hc'
      obtain ⟨hactive, hsession, hmem⟩ := h.opened c' tx hc'
      have hlt := (h.bounds tx hactive).2
      rw [hold tx (Nat.ne_of_lt hlt)]
      exact ⟨hactive, hsession, List.mem_append_left _ hmem⟩
  · intro tx hactive hs
    by_cases htx : tx = s.nextId
    · rw [htx, hnew, hopen, if_pos rfl]
      rfl
    · rw [hold tx htx] at hactive hs ⊢
      by_cases heq : (s.objects tx).session = c
      · have hopened := h.active tx hactive (by rw [heq]; exact hc)
        rw [heq, hfree] at hopened
        cases hopened
      · rw [hserved, if_neg heq] at hs
        rw [hopen, if_neg heq]
        exact h.active tx hactive hs
  · intro tx hactive
    rw [hnext, haccepted]
    by_cases htx : tx = s.nextId
    · rw [htx, hnew]
      exact ⟨h.served c hc, Nat.lt_succ_self _⟩
    · rw [hold tx htx] at hactive ⊢
      have hb := h.bounds tx hactive
      exact ⟨hb.1, Nat.lt_succ_of_lt hb.2⟩
  · intro c' hs
    rw [hserved] at hs
    rw [haccepted]
    by_cases heq : c' = c
    · rw [heq]
      exact h.served c hc
    · rw [if_neg heq] at hs
      exact h.served c' hs
  · obtain ⟨hnodup, hlt⟩ := h.registered
    rw [htransactions, hnext]
    refine ⟨List.nodup_append.mpr ⟨hnodup, List.nodup_singleton _, ?_⟩, ?_⟩
    · intro a ha b hb
      rw [List.mem_singleton] at hb
      rw [hb]
      exact Nat.ne_of_lt (hlt a ha)
    · intro tx htx
      rcases List.mem_append.mp htx with htx | htx
      · exact Nat.lt_succ_of_lt (hlt tx htx)
      · rw [List.mem_singleton.mp htx]
        exact Nat.lt_succ_self _
  · intro tx hactive
    rw [htransactions]
    by_cases htx : tx = s.nextId
    · rw [htx]
      exact List.mem_append_right _ (List.mem_singleton_self _)
    · rw [hold tx htx] at hactive
      exact List.mem_append_left _ (h.kept tx hactive)

theorem finish_step (h : SessionInv s) {tx : TxId} {final : TransactionState}
    (hfinal : final ≠ .ACTIVE) (hc : s.openTx c = some tx)
    (hsessions : s'.sessions = update s.sessions c (some { tx := none, undoing := none }))
    (hobjects : s'.objects = update s.objects tx { s.objects tx with state := final })
    (htransactions : s'.transactions = s.transactions.erase tx) (hnext : s'.nextId = s.nextId)
    (haccepted : s'.accepted = s.accepted) : SessionInv s' := by
  have hopen := open_tx_update hsessions
  have hserved := served_update hsessions
  have hown := h.opened c tx hc
  have hold : ∀ tx', tx' ≠ tx → s'.objects tx' = s.objects tx' := by
    intro tx' htx
    rw [hobjects, update_of_ne htx]
  have hended : (s'.objects tx).state ≠ .ACTIVE := by
    rw [hobjects, update_self]
    exact hfinal
  constructor
  · intro c' tx' hc'
    rw [hopen] at hc'
    by_cases heq : c' = c
    · rw [if_pos heq] at hc'
      cases hc'
    · rw [if_neg heq] at hc'
      have htx : tx' ≠ tx := by
        rintro rfl
        exact heq (h.session_unique hc' hc)
      obtain ⟨hactive, hsession, hmem⟩ := h.opened c' tx' hc'
      rw [hold tx' htx, htransactions]
      exact ⟨hactive, hsession, (List.mem_erase_of_ne htx).mpr hmem⟩
  · intro tx' hactive hs
    have htx : tx' ≠ tx := by
      rintro rfl
      exact hended hactive
    rw [hold tx' htx] at hactive hs ⊢
    have hne : (s.objects tx').session ≠ c := by
      intro heq
      have hopened := h.active tx' hactive (by rw [heq]; exact served_of_open hc)
      rw [heq, hc] at hopened
      exact htx (Option.some.inj hopened).symm
    rw [hserved, if_neg hne] at hs
    rw [hopen, if_neg hne]
    exact h.active tx' hactive hs
  · intro tx' hactive
    have htx : tx' ≠ tx := by
      rintro rfl
      exact hended hactive
    rw [hold tx' htx] at hactive ⊢
    rw [hnext, haccepted]
    exact h.bounds tx' hactive
  · intro c' hs
    rw [hserved] at hs
    rw [haccepted]
    by_cases heq : c' = c
    · rw [heq]
      exact h.served c (served_of_open hc)
    · rw [if_neg heq] at hs
      exact h.served c' hs
  · rw [htransactions, hnext]
    exact ⟨h.registered.1.erase tx, fun tx' htx =>
      h.registered.2 tx' (List.mem_of_mem_erase htx)⟩
  · intro tx' hactive
    have htx : tx' ≠ tx := by
      rintro rfl
      exact hended hactive
    rw [hold tx' htx] at hactive
    rw [htransactions]
    exact (List.mem_erase_of_ne htx).mpr (h.kept tx' hactive)

/-- Every action keeps the invariant. -/
theorem step (h : SessionInv s) {a : Action Row Key} (henabled : Enabled s a) :
    SessionInv (step s a) := by
  cases session_cases henabled with
  | same hopen hserved hstate hsession htransactions hnext haccepted =>
      constructor
      · intro c tx hc
        rw [hopen] at hc
        rw [hstate, hsession, htransactions]
        exact h.opened c tx hc
      · intro tx hactive hs
        rw [hstate] at hactive
        rw [hsession, hserved] at hs
        rw [hsession, hopen]
        exact h.active tx hactive hs
      · intro tx hactive
        rw [hstate] at hactive
        rw [hsession, hnext, haccepted]
        exact h.bounds tx hactive
      · intro c hs
        rw [hserved] at hs
        rw [haccepted]
        exact h.served c hs
      · rw [htransactions, hnext]
        exact h.registered
      · intro tx hactive
        rw [hstate] at hactive
        rw [htransactions]
        exact h.kept tx hactive
  | connect hsessions hobjects htransactions hnext haccepted =>
      exact h.vacant_step hsessions rfl (fun _ => ⟨rfl, by omega⟩) hobjects htransactions hnext
        (by omega)
  | start c hc hfree hsessions hobjects htransactions hnext haccepted =>
      exact h.start_step hc hfree hsessions hobjects htransactions hnext haccepted
  | finish c tx final hfinal hc hsessions hobjects htransactions hnext haccepted =>
      exact h.finish_step hfinal hc hsessions hobjects htransactions hnext haccepted
  | close c hsessions hobjects htransactions hnext haccepted =>
      exact h.vacant_step hsessions rfl (fun hnew => absurd hnew (by simp)) hobjects htransactions
        hnext haccepted.ge

end SessionInv

/-! ## The end of a connection -/

/-- Nothing is left of the transactions that the connection had not ended: they are
aborted, not registered any more and without locks, and every table has the rows it had
before them, next to those that other transactions wrote. -/
def AbortedOnEnd (s s' : Server Row Key) (c : Nat) : Prop :=
  ∀ tx, (s.objects tx).state = .ACTIVE → (s.objects tx).session = c →
    (s'.objects tx).state = .ABORTED ∧ tx ∉ s'.transactions ∧
      (∀ resource, s'.lockManager.held resource tx = none) ∧
      ∀ table, ((s'.tables table).rows.map Prod.snd).Perm
        (rowsBefore (JournalEntry.onTable table (s.objects tx).journal)
          (JournalEntry.inserted (s.objects tx).journal table) (s.tables table))

/-- In every state of the server, a connection that ends leaves nothing of its transactions
exactly when its session has no open transaction. -/
theorem aborted_on_end_iff (tables : String → FileOrganization Row)
    (actions : List (Action Row Key)) (hrun : Steps Enabled step (start tables) actions)
    (c : Nat) (exit : Exit)
    (hserved : Enabled (exec step (start tables) actions) (.disconnect c exit)) :
    AbortedOnEnd (exec step (start tables) actions)
        (step (exec step (start tables) actions) (.disconnect c exit)) c ↔
      (exec step (start tables) actions).openTx c = none := by
  have hinv : SessionInv (exec step (start tables) actions) :=
    exec_of_steps (fun _ _ h he => h.step he) (SessionInv.start tables) hrun
  constructor
  · intro h
    cases hopen : (exec step (start tables) actions).openTx c with
    | none => rfl
    | some tx =>
        obtain ⟨hactive, hsession, hmem⟩ := hinv.opened c tx hopen
        exact absurd hmem (h tx hactive hsession).2.1
  · intro hnone tx hactive hsession
    have hopen := hinv.active tx hactive (by rw [hsession]; exact served_of_idle hserved)
    rw [hsession, hnone] at hopen
    cases hopen

/-- A client inserts a row and finds it again; another one leaves, which clears the lock table;
the first removes the row and commits. -/
def removedUnlocked : List (Action Nat Nat) :=
  [.connect, .connect, .beginTransaction 0, .call 0 (.insert "t" 7 ⟨0, 0⟩), .call 0 (.scan "t"),
    .disconnect 1 .connectionError, .call 0 (.remove "t" ⟨0, 0⟩), .commit 0]

theorem aborted_on_end_iff_removedUnlocked :
    AbortedOnEnd (exec step (start (fun _ => .empty)) removedUnlocked)
        (step (exec step (start (fun _ => .empty)) removedUnlocked)
          (.disconnect 0 .protocolError)) 0 ↔
      (exec step (start (fun _ => .empty)) removedUnlocked).openTx 0 = none :=
  aborted_on_end_iff (fun _ => .empty) removedUnlocked (by decide +kernel) 0 .protocolError
    (by decide +kernel)

/-- A client that inserts a row and closes its connection. -/
def abandonedInsert : List (Action Nat Nat) :=
  [.connect, .beginTransaction 0, .call 0 (.insert "t" 7 ⟨0, 0⟩)]

/-- Its row stays in the table and its transaction stays registered. -/
theorem abort_on_end_fails :
    Steps Enabled step (start (fun _ => .empty)) abandonedInsert ∧
      (step (exec step (start (fun _ => .empty)) abandonedInsert)
        (.disconnect 0 .connectionError)).transactions = [1] ∧
      ((step (exec step (start (fun _ => .empty)) abandonedInsert)
        (.disconnect 0 .connectionError)).tables "t").rows = [(⟨0, 0⟩, 7)] ∧
      ¬ AbortedOnEnd (exec step (start (fun _ => .empty)) abandonedInsert)
        (step (exec step (start (fun _ => .empty)) abandonedInsert)
          (.disconnect 0 .connectionError)) 0 := by
  refine ⟨by decide +kernel, by decide +kernel, by decide +kernel, ?_⟩
  intro h
  have haborted := (h 1 (by decide +kernel) (by decide +kernel)).2.1
  exact haborted (by decide +kernel)

end SoupDB.Server
