import SoupDB.Transactions.LockSafety
import SoupDB.Transactions.Sessions

/-!
# SoupDB: rollback

`LocksAgree` ties the lock table to the transactions.

A transaction that is rolled back leaves a table the rows it had when the transaction began, under
these or other RIDs, whatever the transaction did to the table and however the actions of other
connections come between its own, as long as these leave the table as it is.

Main facts: `sessions_agree` and `rollback_restores_rows`.
-/

namespace SoupDB

open Function StrictTwoPhaseLocking List

instance {Row : Type} [DecidableEq Row] : DecidableEq (FileOrganization Row) := fun f g =>
  decidable_of_iff (f.rows = g.rows ∧ f.used = g.used)
    ⟨fun h => FileOrganization.ext h.1 h.2, fun h => by rw [h]; exact ⟨rfl, rfl⟩⟩

namespace Server

open JournalEntry

variable {Row Key : Type}

/-! ## Sessions -/

/-- Every lock in the table was granted to its transaction, which is active and registered, and no
two transactions hold a resource in incompatible modes.  A granted lock need not be in the table:
the end of any connection clears it. -/
structure LocksAgree (s : Server Row Key) : Prop where
  granted : ∀ resource tx mode, s.lockManager.held resource tx = some mode →
    Relies s tx resource mode ∧ tx ∈ s.transactions
  compatible : s.lockManager.Compatible

theorem granted_entry_mode (p : StrictTwoPhaseLocking Resource) (tx : TxId) (resource : Resource)
    (mode : LockMode) : (p.grantedEntry tx resource mode).1 = mode ∨
      p.held resource tx = some (p.grantedEntry tx resource mode).1 := by
  rw [grantedEntry, held]
  cases (p.holders resource).lookup tx with
  | none => exact .inl rfl
  | some entry =>
      dsimp only [Option.map_some]
      rw [LockMode.stronger]
      split
      · exact .inl rfl
      · exact .inr rfl

namespace LocksAgree

variable {s : Server Row Key}

theorem start (tables : String → FileOrganization Row) :
    LocksAgree (start tables : Server Row Key) := by
  refine ⟨?_, StrictTwoPhaseLocking.Compatible.new⟩
  intro resource tx mode h
  cases h

/-- The modes in the table after a step, if the active transactions were granted them. -/
theorem of_relies {s : Server Row Key} (hinv : SessionInv s)
    (hrelies : ∀ resource tx mode, s.lockManager.held resource tx = some mode →
      Relies s tx resource mode) (hcompatible : s.lockManager.Compatible) : LocksAgree s :=
  ⟨fun resource tx mode h => ⟨hrelies resource tx mode h,
    hinv.kept tx (hrelies resource tx mode h).1⟩, hcompatible⟩

theorem step (h : LocksAgree s) (hinv : SessionInv s) {a : Action Row Key}
    (henabled : Enabled s a) : LocksAgree (step s a) := by
  have hinv' := hinv.step henabled
  rcases lock_cases s a with ⟨c, exit, rfl⟩ | hstep
  · refine ⟨?_, StrictTwoPhaseLocking.Compatible.close (p := s.lockManager)⟩
    intro resource tx mode hheld
    cases hheld
  cases hstep with
  | same hmanager hcompat hstate hgranted =>
      refine .of_relies hinv' (fun resource tx mode hheld => ?_) (hcompat h.compatible)
      rw [hmanager] at hheld
      rw [Relies, hstate, hgranted]
      exact (h.granted resource tx mode hheld).1
  | grant c tx resource mode hopen hgrant hmanager hstate hgranted =>
      refine .of_relies hinv' ?_ (hmanager ▸ h.compatible.grant hgrant)
      intro resource' tx' mode' hheld
      rw [hmanager, held_grant] at hheld
      rw [Relies, hstate, hgranted]
      split at hheld
      · next heq =>
          obtain ⟨rfl, rfl⟩ := heq
          cases hheld
          refine ⟨(hinv.opened c tx' hopen).1, ?_⟩
          rw [if_pos rfl, mem_append, mem_singleton, Prod.mk.injEq]
          rcases granted_entry_mode s.lockManager tx' resource' mode with hmode | hold
          · exact .inr ⟨rfl, hmode⟩
          · exact .inl (h.granted _ _ _ hold).1.2
      · obtain ⟨hactive, hmem⟩ := (h.granted resource' tx' mode' hheld).1
        exact ⟨hactive, mem_append_left _ hmem⟩
  | start tx hfresh hmanager hnew hstate hgranted =>
      refine .of_relies hinv' ?_ (hmanager ▸ h.compatible)
      intro resource tx' mode hheld
      rw [hmanager] at hheld
      obtain ⟨hrelies, _⟩ := h.granted resource tx' mode hheld
      have hne : tx' ≠ tx := by
        rw [hfresh]
        exact Nat.ne_of_lt (hinv.bounds tx' hrelies.1).2
      rw [Relies, hstate tx' hne, hgranted tx' hne]
      exact hrelies
  | finish tx hmanager hended hstate hgranted =>
      refine .of_relies hinv' ?_ (hmanager ▸ h.compatible.releaseAll)
      intro resource tx' mode hheld
      rw [hmanager, held_release_all] at hheld
      split at hheld
      · cases hheld
      · next hne =>
          rw [Relies, hstate tx' hne, hgranted tx' hne]
          exact (h.granted resource tx' mode hheld).1

end LocksAgree

variable {actions : List (Action Row Key)}

/-- In every state of every run, sessions, transactions and the lock table agree, and no two
connections share a transaction. -/
theorem sessions_agree (tables : String → FileOrganization Row)
    (hrun : Steps Enabled step (start tables) actions) :
    Always (fun s => SessionInv s ∧ LocksAgree s ∧ ∀ c c' tx, s.openTx c = some tx →
      s.openTx c' = some tx → c = c') step (start tables) actions := by
  have hboth : Always (fun s => SessionInv s ∧ LocksAgree s) step (start tables) actions :=
    always_of_steps (fun _ _ h henabled => ⟨h.1.step henabled, h.2.step h.1 henabled⟩)
      ⟨SessionInv.start tables, LocksAgree.start tables⟩ hrun
  exact hboth.mono (fun _ h => ⟨h.1, h.2, fun _ _ _ hc hc' => h.1.session_unique hc hc'⟩)

/-- Three connections: one commits, one leaves while another reads, and that one goes on without
the lock of its scan and rolls back. -/
def threeConnections : List (Action Nat Nat) :=
  [.connect, .connect, .connect, .beginTransaction 0, .beginTransaction 1,
    .call 0 (.insert "t" 7 ⟨0, 0⟩), .call 1 (.insert "u" 8 ⟨1, 0⟩), .commit 1,
    .call 0 (.scan "t"), .disconnect 2 .connectionError, .call 0 (.remove "t" ⟨0, 0⟩),
    .rollback 0, .undoEntry 0 ⟨0, 1⟩, .undoEntry 0 ⟨0, 1⟩, .rollbackEnd 0]

theorem sessions_agree_three_connections :
    Always (fun s => SessionInv s ∧ LocksAgree s ∧ ∀ c c' tx, s.openTx c = some tx →
      s.openTx c' = some tx → c = c') step (start (fun _ => .empty)) threeConnections :=
  sessions_agree (fun _ => .empty) (by decide +kernel)

/-! ## An open transaction -/

/-- Whether an action commits a transaction or ends its undo or its connection. -/
def Action.ends : Action Row Key → Bool
  | .commit _ | .undoError _ _ | .rollbackEnd _ | .disconnect _ _ => true
  | _ => false

/-- The connection goes on with its transaction, and the others leave the table as it is. -/
def Undisturbed (c : Nat) (table : String) (s : Server Row Key) (a : Action Row Key) : Prop :=
  Enabled s a ∧ (a.connection = some c → a.ends = false) ∧
    (a.connection ≠ some c → (step s a).tables table = s.tables table)

instance [DecidableEq Row] (c : Nat) (table : String) (s : Server Row Key) (a : Action Row Key) :
    Decidable (Undisturbed c table s a) := inferInstanceAs (Decidable (_ ∧ _ ∧ _))

/-- What is left of the journal of the open transaction, oldest entry first. -/
def pending (s : Server Row Key) (c : Nat) (tx : TxId) : List (JournalEntry Row) :=
  match (s.sessions c).bind Session.undoing with
  | some entries => entries.reverse
  | none => (s.objects tx).journal

/-- The transaction is open, and once what is left of its journal is undone the table has these
rows. -/
structure Restorable (c : Nat) (tx : TxId) (table : String) (rows : List Row)
    (s : Server Row Key) : Prop where
  sessions : SessionInv s
  opened : s.openTx c = some tx
  journal : JournalOf (onTable table (s.objects tx).journal) (s.tables table)
  pending : s.pending c tx <+: (s.objects tx).journal
  rows : (rowsBefore (onTable table (s.pending c tx)) (inserted (s.objects tx).journal table)
    (s.tables table)).Perm rows

variable {s s' : Server Row Key} {a : Action Row Key} {c : Nat} {tx : TxId} {table : String}
  {rows : List Row}

theorem onTable_append (table : String) (xs ys : List (JournalEntry Row)) :
    onTable table (xs ++ ys) = onTable table xs ++ onTable table ys :=
  filter_append _ _

theorem table_of_mem_journal {call : Call Row Key} {f : FileOrganization Row}
    {entry : JournalEntry Row} (h : entry ∈ call.journal f) : entry.table = call.table := by
  cases call with
  | insert table row rid =>
      obtain rfl := mem_singleton.mp h
      rfl
  | remove table rid =>
      rw [Call.journal] at h
      split at h
      · cases h
      · obtain rfl := mem_singleton.mp h
        rfl
  | scan table => cases h
  | indexRead table key sel => cases h
  | fetch table rid => cases h

theorem onTable_journal (call : Call Row Key) (f : FileOrganization Row) (table : String) :
    onTable table (call.journal f) = if call.table = table then call.journal f else [] := by
  split
  · next htable =>
      refine filter_eq_self.mpr (fun entry hentry => ?_)
      rw [table_of_mem_journal hentry]
      exact decide_eq_true htable
  · next htable =>
      refine filter_eq_nil_iff.mpr (fun entry hentry => ?_)
      rw [table_of_mem_journal hentry]
      exact fun heq => htable (of_decide_eq_true heq)

theorem pending_of_idle (h : Idle s c) : s.pending c tx = (s.objects tx).journal := by
  rw [Idle, Option.any_eq_true] at h
  obtain ⟨session, hsession, hnone⟩ := h
  rw [pending, hsession, Option.bind_some, Option.isNone_iff_eq_none.mp hnone]

theorem pending_of_undoing {t : Option TxId} {entries : List (JournalEntry Row)}
    (h : s.sessions c = some { tx := t, undoing := some entries }) :
    s.pending c tx = entries.reverse := by
  rw [pending, h]
  rfl

theorem other_step (hinv : SessionInv s) (hopen : s.openTx c = some tx)
    (hother : a.connection ≠ some c) :
    (step s a).sessions c = s.sessions c ∧
      ((step s a).objects tx).journal = (s.objects tx).journal := by
  have hapart : ∀ {c' tx'}, some c' ≠ some c → s.openTx c' = some tx' → tx ≠ tx' := by
    rintro c' tx' hc hopen' rfl
    exact hc (congrArg some (hinv.session_unique hopen' hopen))
  have hne : ∀ {c'}, some c' ≠ some c → c ≠ c' := fun hc heq => hc (congrArg some heq.symm)
  have hmove := moves s a
  generalize step s a = s' at hmove ⊢
  cases hmove with
  | stay | wait => exact ⟨rfl, rfl⟩
  | connect =>
      have hlt := hinv.served c (served_of_open hopen)
      exact ⟨update_of_ne hlt.ne _ _, rfl⟩
  | start c' =>
      have hlt := (hinv.bounds tx (hinv.opened c tx hopen).1).2
      exact ⟨update_of_ne (hne hother) _ _,
        congrArg Transaction.journal (update_of_ne hlt.ne _ _)⟩
  | call c' tx' call hopen' =>
      exact ⟨rfl, congrArg Transaction.journal
        ((update_of_ne (hapart hother hopen') _ _).trans
          (update_of_ne (hapart hother hopen') _ _))⟩
  | lock c' tx' resource hopen' =>
      exact ⟨rfl, congrArg Transaction.journal (update_of_ne (hapart hother hopen') _ _)⟩
  | undoing _ c' tx' waiting undoing hconnection =>
      rw [hconnection] at hother
      exact ⟨update_of_ne (hne hother) _ _, rfl⟩
  | undo c' => exact ⟨update_of_ne (hne hother) _ _, rfl⟩
  | finish _ c' tx' final committed hconnection hended hopen' =>
      rw [hconnection] at hother
      exact ⟨update_of_ne (hne hother) _ _,
        congrArg Transaction.journal (update_of_ne (hapart hother hopen') _ _)⟩
  | disconnect c' exit => exact ⟨update_of_ne (hne hother) _ _, rfl⟩

namespace Restorable

section

variable (h : Restorable c tx table rows s)
include h

theorem of_same (hinv : SessionInv s') (hopen : s'.openTx c = some tx)
    (hpending : s'.pending c tx = s.pending c tx)
    (hjournal : (s'.objects tx).journal = (s.objects tx).journal)
    (htable : s'.tables table = s.tables table) : Restorable c tx table rows s' := by
  refine ⟨hinv, hopen, ?_, ?_, ?_⟩
  · rw [hjournal, htable]
    exact h.journal
  · rw [hpending, hjournal]
    exact h.pending
  · rw [hpending, hjournal, htable]
    exact h.rows

theorem of_other (henabled : Enabled s a) (hother : a.connection ≠ some c)
    (htable : (step s a).tables table = s.tables table) :
    Restorable c tx table rows (step s a) := by
  obtain ⟨hsession, hjournal⟩ := other_step h.sessions h.opened hother
  refine h.of_same (h.sessions.step henabled) ?_ ?_ hjournal htable
  · rw [openTx, hsession]
    exact h.opened
  · rw [Server.pending, Server.pending, hsession, hjournal]

/-- The entries that are left name only RIDs that the table gave out. -/
theorem journal_pending : JournalOf (onTable table (s.pending c tx)) (s.tables table) :=
  fun entry hentry => h.journal entry
    ((h.pending.sublist.filter (fun entry => entry.table = table)).subset hentry)

theorem call_step {call : Call Row Key} (henabled : Enabled s (.call c call)) :
    Restorable c tx table rows (step s (.call c call)) := by
  have hinv := h.sessions.step henabled
  obtain ⟨hidle, hcall⟩ := henabled
  have hpending : s.pending c tx = (s.objects tx).journal := pending_of_idle hidle
  cases hgrant : s.lockManager.tryGrant tx call.lock.1 call.lock.2 with
  | false =>
      rw [step_call_refused h.opened hgrant] at hinv ⊢
      exact h.of_same hinv h.opened rfl rfl rfl
  | true =>
      rw [step_call_granted h.opened hgrant] at hinv ⊢
      have hfresh : ∀ table row rid, call = .insert table row rid →
          rid ∉ (s.tables call.table).used := by
        rintro table row rid rfl
        exact hcall
      have hjournal : (((s.withLock tx call.lock.1 call.lock.2).withCall tx call).objects
          tx).journal = (s.objects tx).journal ++ call.journal (s.tables call.table) := by
        simp [withCall, withLock]
      have hpending' : ((s.withLock tx call.lock.1 call.lock.2).withCall tx call).pending c tx =
          (s.objects tx).journal ++ call.journal (s.tables call.table) :=
        (pending_of_idle (s := (s.withLock tx call.lock.1 call.lock.2).withCall tx call)
          hidle).trans hjournal
      have hrows := h.rows
      rw [hpending] at hrows
      refine ⟨hinv, h.opened, ?_, ?_, ?_⟩
      all_goals rw [hjournal]
      · rw [onTable_append, onTable_journal]
        show JournalOf _ (update s.tables call.table _ table)
        by_cases htable : call.table = table
        · subst htable
          rw [if_pos rfl, update_self]
          exact h.journal.call call hfresh
        · rw [if_neg htable, append_nil, update_of_ne (Ne.symm htable)]
          exact h.journal
      · exact ⟨[], (append_nil _).trans hpending'⟩
      · rw [hpending', inserted_eq, onTable_append, onTable_journal]
        show (rowsBefore _ _ (update s.tables call.table _ table)).Perm rows
        by_cases htable : call.table = table
        · subst htable
          rw [if_pos rfl, update_self]
          exact (rowsBefore_call h.journal call hfresh).trans hrows
        · rw [if_neg htable, append_nil, update_of_ne (Ne.symm htable)]
          exact hrows

theorem undo_step {newRid : RID} (henabled : Enabled s (.undoEntry c newRid)) :
    Restorable c tx table rows (step s (.undoEntry c newRid)) := by
  have hinv := h.sessions.step henabled
  obtain ⟨t, entries, hsession, hfresh⟩ := undoing_of_enabled henabled
  obtain rfl : t = tx := by
    have hopen := h.opened
    rw [openTx, hsession] at hopen
    exact Option.some.inj hopen
  cases entries with
  | nil => cases hfresh
  | cons entry rest =>
      have hfresh : newRid ∉ (s.tables entry.table).used := of_decide_eq_true hfresh
      have hpending : s.pending c t = rest.reverse ++ [entry] := by
        rw [pending_of_undoing hsession, reverse_cons]
      have hleft := h.journal_pending
      have hrows := h.rows
      rw [hpending, onTable_append] at hleft hrows
      rw [step_undo_entry hsession] at hinv ⊢
      have hopen : Server.openTx { s with
          tables := update s.tables entry.table
            (entry.undo (inserted (s.objects t).journal entry.table) newRid
              (s.tables entry.table))
          sessions := update s.sessions c
            (some { tx := some t, undoing := some rest }) } c = some t := by
        rw [open_tx_update (c := c) rfl, if_pos rfl]
        rfl
      have hpending' : Server.pending { s with
          tables := update s.tables entry.table
            (entry.undo (inserted (s.objects t).journal entry.table) newRid
              (s.tables entry.table))
          sessions := update s.sessions c
            (some { tx := some t, undoing := some rest }) } c t = rest.reverse :=
        pending_of_undoing (update_self _ _ _)
      refine ⟨hinv, hopen, ?_, ?_, ?_⟩
      · show JournalOf _ (update s.tables entry.table _ table)
        by_cases htable : entry.table = table
        · subst htable
          rw [update_self]
          exact h.journal.undo
        · rw [update_of_ne (Ne.symm htable)]
          exact h.journal
      · rw [hpending']
        exact (prefix_append _ _).trans (hpending ▸ h.pending)
      · rw [hpending']
        show (rowsBefore _ _ (update s.tables entry.table _ table)).Perm rows
        by_cases htable : entry.table = table
        · subst htable
          have hone : onTable entry.table [entry] = [entry] :=
            filter_eq_self.mpr (fun e he => by
              rw [mem_singleton.mp he]
              exact decide_eq_true rfl)
          rw [hone] at hleft hrows
          rw [update_self]
          exact (rowsBefore_undo hleft hfresh).trans hrows
        · have hnone : onTable table [entry] = [] :=
            filter_eq_nil_iff.mpr (fun e he => by
              rw [mem_singleton.mp he]
              exact fun heq => htable (of_decide_eq_true heq))
          rw [hnone, append_nil] at hrows
          rw [update_of_ne (Ne.symm htable)]
          exact hrows

end

theorem of_begin (hinv : SessionInv s) (hbegin : Enabled s (.beginTransaction c))
    (hfree : s.openTx c = none) (table : String) :
    Restorable c s.nextId table ((s.tables table).rows.map Prod.snd)
      (Server.step s (.beginTransaction c)) := by
  have hstep := step_begin hfree
  have hsession : (Server.step s (.beginTransaction c)).sessions c =
      some { tx := some s.nextId, undoing := none } := by
    rw [hstep]
    exact update_self _ _ _
  have hjournal : ((Server.step s (.beginTransaction c)).objects s.nextId).journal = [] := by
    rw [hstep]
    show (update s.objects s.nextId _ s.nextId).journal = []
    rw [update_self]
  have hpending : (Server.step s (.beginTransaction c)).pending c s.nextId = [] := by
    rw [Server.pending, hsession]
    exact hjournal
  have htables : (Server.step s (.beginTransaction c)).tables = s.tables := by
    rw [hstep]
  refine ⟨hinv.step hbegin, ?_, ?_, ?_, ?_⟩
  · rw [openTx, hsession]
    rfl
  · rw [hjournal]
    intro entry hentry
    cases hentry
  · rw [hpending]
    exact nil_prefix
  · rw [hpending, htables]
    exact List.Perm.of_eq (rowsBefore_nil _ _)

theorem of_rollback (h : Restorable c tx table rows s) (hidle : Idle s c) (hinv : SessionInv s')
    (hsessions : s'.sessions = update s.sessions c
      (some { tx := some tx, undoing := some (s.objects tx).journal.reverse }))
    (hobjects : s'.objects = s.objects) (htables : s'.tables = s.tables) :
    Restorable c tx table rows s' := by
  refine h.of_same hinv ?_ ?_ (by rw [hobjects]) (by rw [htables])
  · rw [open_tx_update hsessions, if_pos rfl]
    rfl
  · rw [pending_of_idle hidle, pending_of_undoing (by rw [hsessions, update_self]),
      reverse_reverse]

theorem step (h : Restorable c tx table rows s) (ha : Undisturbed c table s a) :
    Restorable c tx table rows (step s a) := by
  obtain ⟨henabled, hown, hother⟩ := ha
  by_cases hc : a.connection = some c
  · have hends := hown hc
    have hinv := h.sessions.step henabled
    cases a with
    | connect => cases hc
    | beginTransaction c' =>
        cases hc
        rw [step_begin_open h.opened]
        exact h
    | call c' call =>
        cases hc
        exact h.call_step henabled
    | ddl c' resource =>
        cases hc
        cases hgrant : s.lockManager.tryGrant tx resource .EXCLUSIVE with
        | true =>
            rw [step_ddl_granted h.opened hgrant] at hinv ⊢
            have hjournal : ((s.withLock tx resource .EXCLUSIVE).objects tx).journal =
                (s.objects tx).journal := by
              simp [withLock]
            refine h.of_same hinv h.opened ?_ hjournal rfl
            rw [pending_of_idle henabled, pending_of_idle (s := s.withLock tx resource .EXCLUSIVE)
              henabled, hjournal]
        | false =>
            rw [step_ddl_refused h.opened hgrant] at hinv ⊢
            exact h.of_same hinv h.opened rfl rfl rfl
    | acquireError c' =>
        cases hc
        rw [step_acquire_error h.opened] at hinv ⊢
        exact h.of_rollback henabled hinv rfl rfl rfl
    | rollback c' =>
        cases hc
        rw [step_rollback h.opened] at hinv ⊢
        exact h.of_rollback henabled hinv rfl rfl rfl
    | undoEntry c' newRid =>
        cases hc
        exact h.undo_step henabled
    | commit c' | undoError c' e | rollbackEnd c' | disconnect c' exit => cases hends
  · exact h.of_other henabled hc (hother hc)

end Restorable

/-! ## The end of a rollback -/

/-- The table has the rows it had, and the transaction is over. -/
structure RolledBack (c : Nat) (tx : TxId) (table : String) (s s' : Server Row Key) : Prop where
  rows : ((s'.tables table).rows.map Prod.snd).Perm ((s.tables table).rows.map Prod.snd)
  state : (s'.objects tx).state = .ABORTED
  registered : tx ∉ s'.transactions
  locks : ∀ resource, s'.lockManager.held resource tx = none
  free : s'.openTx c = none

/-- In every run, a transaction that is rolled back to the end leaves a table the rows it had
when the transaction began, if the other connections left the table as it was meanwhile; it holds
no lock, and its connection can begin another one. -/
theorem rollback_restores_rows {tables : String → FileOrganization Row}
    {more : List (Action Row Key)} (hrun : Steps Enabled step (start tables) actions)
    (hbegin : Enabled (exec step (start tables) actions) (.beginTransaction c))
    (hfree : (exec step (start tables) actions).openTx c = none)
    (hmore : Steps (Undisturbed c table) step
      (step (exec step (start tables) actions) (.beginTransaction c)) more)
    (hend : Enabled (exec step (step (exec step (start tables) actions) (.beginTransaction c))
      more) (.rollbackEnd c)) :
    RolledBack c (exec step (start tables) actions).nextId table
      (exec step (start tables) actions)
      (step (exec step (step (exec step (start tables) actions) (.beginTransaction c)) more)
        (.rollbackEnd c)) := by
  have hstart : SessionInv (exec step (start tables) actions) :=
    exec_of_steps (fun _ _ h he => h.step he) (SessionInv.start tables) hrun
  generalize exec step (start tables) actions = s at hbegin hfree hmore hend hstart ⊢
  have hlast : Restorable c s.nextId table ((s.tables table).rows.map Prod.snd)
      (exec step (step s (.beginTransaction c)) more) :=
    exec_of_steps (fun _ _ h ha => h.step ha) (.of_begin hstart hbegin hfree table) hmore
  generalize exec step (step s (.beginTransaction c)) more = s' at hend hlast ⊢
  obtain ⟨t, entries, hsession, hdone⟩ := undoing_of_enabled hend
  obtain rfl : entries = [] := List.isEmpty_iff.mp hdone
  have hactive := (hlast.sessions.opened c _ hlast.opened).1
  have hpending : s'.pending c s.nextId = [] := pending_of_undoing hsession
  have hrows := hlast.rows
  rw [hpending] at hrows
  rw [step_rollback_end hlast.opened hactive]
  refine ⟨?_, ?_, ?_, ?_, ?_⟩
  · exact (List.Perm.of_eq (rowsBefore_nil _ _).symm).trans hrows
  · show (update s'.objects s.nextId _ s.nextId).state = .ABORTED
    rw [update_self]
  · exact fun hmem => ((hlast.sessions.registered.1.mem_erase_iff).mp hmem).1 rfl
  · intro resource
    exact (held_release_all _).trans (if_pos rfl)
  · rw [open_tx_update (c := c) rfl, if_pos rfl]
    rfl

/-- A table with a row. -/
def filled : List (Action Nat Nat) :=
  [.connect, .connect, .connect, .beginTransaction 0, .call 0 (.insert "t" 7 ⟨0, 0⟩), .commit 0]

/-- The row is replaced and put back while one connection leaves, which clears the lock table, and
another one fills another table. -/
def replaced : List (Action Nat Nat) :=
  [.call 0 (.scan "t"), .disconnect 2 .connectionError, .call 0 (.remove "t" ⟨0, 0⟩),
    .beginTransaction 1,
    .call 0 (.insert "t" 8 ⟨0, 1⟩), .call 1 (.insert "u" 9 ⟨1, 0⟩), .rollback 0,
    .undoEntry 0 ⟨0, 2⟩, .commit 1, .undoEntry 0 ⟨0, 3⟩]

theorem rollback_restores_rows_replaced :
    RolledBack 0 (exec step (start (fun _ => .empty)) filled).nextId "t"
      (exec step (start (fun _ => .empty)) filled)
      (step (exec step (step (exec step (start (fun _ => .empty)) filled) (.beginTransaction 0))
        replaced) (.rollbackEnd 0)) :=
  rollback_restores_rows (by decide +kernel) (by decide +kernel) (by decide +kernel)
    (by decide +kernel) (by decide +kernel)

end Server
end SoupDB
