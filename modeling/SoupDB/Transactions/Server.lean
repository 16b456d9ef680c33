import SoupDB.Lib.Effect
import SoupDB.Lib.Transition
import SoupDB.Storage.FileOrganization
import SoupDB.Transactions.Strict2PL

/-!
# SoupDB: the shared server

The connections of one server share a catalog and a transaction manager with its lock
manager.  Each connection has a session, and each session at most one open transaction.
`Action` is what one thread does between two points where others may run: one storage
operation with the round of `acquire` that grants its lock, a transaction boundary, one
journal entry of a rollback, or the end of a connection.  `perform` is the code that runs.

A table's indexes hold the keys of its rows, so an index read is a search among the keys
of the live rows.  An INSERT, a DELETE or an undo maintains them together with the row.

Two fields of a transaction and one of the server record what happened and are read by no
method: `granted`, `log` and `committed`.
-/

namespace SoupDB

open Effect StrictTwoPhaseLocking

/-- `("table", name)`, `("record", rid)` and `("catalog", name)`. -/
inductive Resource
  | table (name : String)
  | record (rid : RID)
  | catalog (name : String)
deriving DecidableEq

inductive TransactionState
  | ACTIVE
  | PARTIALLY_COMMITTED
  | COMMITTED
  | FAILED
  | ABORTED
deriving DecidableEq, Repr

inductive JournalEntry (Row : Type)
  | UndoInsert (table : String) (rid : RID)
  | UndoRemove (table : String) (rid : RID) (record : Row)

namespace JournalEntry

variable {Row : Type}

def table : JournalEntry Row → String
  | .UndoInsert table _ => table
  | .UndoRemove table _ _ => table

def inserted? : JournalEntry Row → Option RID
  | .UndoInsert _ rid => some rid
  | .UndoRemove _ _ _ => none

/-- `inserted` of `_apply_undo`, for one table. -/
def inserted (journal : List (JournalEntry Row)) (table : String) : List RID :=
  (journal.filter (fun entry => entry.table = table)).filterMap inserted?

/-- What `_apply_undo` does to the table of an entry; `new_rid` is the RID a row that is
put back gets. -/
def undo (inserted : List RID) (newRid : RID) :
    JournalEntry Row → FileOrganization Row → FileOrganization Row
  | .UndoInsert _ rid, f => f.remove rid
  | .UndoRemove _ rid record, f => if rid ∈ inserted then f else f.insert newRid record

end JournalEntry

/-- A storage operation of a statement, on the locking proxy of a table. -/
inductive Call (Row Key : Type)
  | insert (table : String) (row : Row) (rid : RID)
  | remove (table : String) (rid : RID)
  | scan (table : String)
  /-- `lock_shared` and a search of an index for the keys that `sel` accepts. -/
  | indexRead (table : String) (key : Row → Option Key) (sel : Key → Bool)
  | fetch (table : String) (rid : RID)

/-- What a call returns. -/
inductive Answer (Row : Type)
  | done
  | rid (rid : RID)
  | removed (found : Bool)
  | rows (rows : List (RID × Row))
  | rids (rids : List RID)
  | record (record : Option Row)
  /-- The lock was not granted; the thread sleeps and tries again. -/
  | waits
deriving DecidableEq

namespace Call

variable {Row Key : Type}

def table : Call Row Key → String
  | .insert table _ _ => table
  | .remove table _ => table
  | .scan table => table
  | .indexRead table _ _ => table
  | .fetch table _ => table

/-- The lock the proxy takes before it touches the storage. -/
def lock : Call Row Key → Resource × LockMode
  | .insert table _ _ => (.table table, .EXCLUSIVE)
  | .remove _ rid => (.record rid, .EXCLUSIVE)
  | .scan table => (.table table, .SHARED)
  | .indexRead table _ _ => (.table table, .SHARED)
  | .fetch _ rid => (.record rid, .SHARED)

/-- The storage operation itself. -/
def run : Call Row Key → FileOrganization Row → Answer Row × FileOrganization Row
  | .insert _ row rid, f => (.rid rid, f.insert rid row)
  | .remove _ rid, f =>
      match f.fetch rid with
      | none => (.removed false, f)
      | some _ => (.removed true, f.remove rid)
  | .scan _, f => (.rows f.scan, f)
  | .indexRead _ key sel, f =>
      (.rids ((f.rows.filter (fun e => (key e.2).any sel)).map Prod.fst), f)
  | .fetch _ rid, f => (.record (f.fetch rid), f)

def journal : Call Row Key → FileOrganization Row → List (JournalEntry Row)
  | .insert table _ rid, _ => [.UndoInsert table rid]
  | .remove table rid, f =>
      match f.fetch rid with
      | none => []
      | some record => [.UndoRemove table rid record]
  | .scan _, _ => []
  | .indexRead _ _ _, _ => []
  | .fetch _ _, _ => []

end Call

/-- A transaction object. -/
structure Transaction (Row Key : Type) where
  /-- The session whose `_apply_undo` is the undo callback. -/
  session : Nat
  state : TransactionState
  journal : List (JournalEntry Row)
  /-- The locks it was granted. -/
  granted : List (Resource × LockMode)
  /-- The calls it made, with their answers. -/
  log : List (Call Row Key × Answer Row)

/-- A session of a connection. -/
structure Session (Row : Type) where
  /-- The open transaction. -/
  tx : Option TxId
  /-- What is left of the journal while a rollback runs, newest entry first. -/
  undoing : Option (List (JournalEntry Row))

/-- The server: tables, transaction manager, lock manager and connections. -/
structure Server (Row Key : Type) where
  tables : String → FileOrganization Row
  lockManager : StrictTwoPhaseLocking Resource
  /-- `TransactionManager._transactions`. -/
  transactions : List TxId
  /-- `TransactionManager._next_id`. -/
  nextId : TxId
  /-- The transaction objects. -/
  objects : TxId → Transaction Row Key
  sessions : Nat → Option (Session Row)
  /-- The number of connections accepted so far. -/
  accepted : Nat
  /-- The calls of the committed transactions, in the order of the commits. -/
  committed : List (TxId × List (Call Row Key × Answer Row))

namespace Server

variable {Row Key : Type}

/-- A method that runs on a worker thread. -/
abbrev Method (Row Key α : Type) : Type := Effect PyError (Server Row Key) α

/-- A server over tables that were filled before. -/
def start (tables : String → FileOrganization Row) : Server Row Key where
  tables := tables
  lockManager := new
  transactions := []
  nextId := 1
  objects := fun _ => { session := 0, state := .ABORTED, journal := [], granted := [], log := [] }
  sessions := fun _ => none
  accepted := 0
  committed := []

/-- `TransactionalSession._current()`. -/
def current (c : Nat) : Method Row Key TxId := fun s =>
  match (s.sessions c).bind Session.tx with
  | some tx => (.ok tx, s)
  | none => (.error (.TransactionError "no active transaction on this thread"), s)

/-! ## The transaction manager -/

/-- `TransactionManager.begin()`. -/
def tmBegin (session : Nat) : Method Row Key TxId := fun s =>
  (.ok s.nextId,
    { s with
      transactions := s.transactions ++ [s.nextId]
      nextId := s.nextId + 1
      objects := Function.update s.objects s.nextId
        { session, state := .ACTIVE, journal := [], granted := [], log := [] } })

/-- `TransactionManager._finish(tx, final)`. -/
def tmFinish (tx : TxId) (final : TransactionState) : Method Row Key Unit := fun s =>
  if (s.objects tx).state ≠ .ACTIVE then
    (.error (.TransactionError s!"transaction {tx} is not active"), s)
  else
    (.ok (),
      { s with
        lockManager := releaseAll tx s.lockManager
        transactions := s.transactions.erase tx
        objects := Function.update s.objects tx { s.objects tx with state := final } })

/-- `TransactionManager.close()`. -/
def tmClose : Method Row Key Unit :=
  Effect.modify (fun s => { s with lockManager := s.lockManager.close })

/-! ## The session -/

def setSession (c : Nat) (session : Session Row) : Method Row Key Unit :=
  Effect.modify (fun s => { s with sessions := Function.update s.sessions c (some session) })

/-- `TransactionalSession.begin()`. -/
def beginTransaction (c : Nat) : Method Row Key (Answer Row) := do
  let s ← get
  match (s.sessions c).bind Session.tx with
  | some _ => raise (.TransactionError "a transaction is already active on this thread")
  | none => do
      let tx ← tmBegin c
      setSession c { tx := some tx, undoing := none }
      pure .done

/-- `TransactionalSession.commit()`. -/
def commit (c : Nat) : Method Row Key (Answer Row) := do
  let tx ← current c
  tmFinish tx .COMMITTED
  Effect.modify (fun s => { s with committed := s.committed ++ [(tx, (s.objects tx).log)] })
  setSession c { tx := none, undoing := none }
  pure .done

/-- `TransactionalSession._lock(resource, mode)`, one round of it. -/
def lock (c : Nat) (resource : Resource) (mode : LockMode) : Method Row Key Bool := do
  let tx ← current c
  let s ← get
  let (granted, lockManager) := acquire tx resource mode s.lockManager
  Effect.modify (fun s => { s with lockManager })
  if granted then do
    Effect.modify (fun s => { s with
      objects := Function.update s.objects tx
        { s.objects tx with granted := (s.objects tx).granted ++ [(resource, mode)] } })
    pure true
  else pure false

/-- A storage operation of the locking proxy: the lock, the operation and the journal. -/
def lockedCall (c : Nat) (call : Call Row Key) : Method Row Key (Answer Row) := do
  let granted ← lock c call.lock.1 call.lock.2
  if granted then do
    let tx ← current c
    let s ← get
    let f := s.tables call.table
    Effect.modify (fun s => { s with
      tables := Function.update s.tables call.table (call.run f).2
      objects := Function.update s.objects tx
        { s.objects tx with
          journal := (s.objects tx).journal ++ call.journal f
          log := (s.objects tx).log ++ [(call, (call.run f).1)] } })
    pure (call.run f).1
  else pure .waits

/-- The lock a DDL statement takes. -/
def ddl (c : Nat) (resource : Resource) : Method Row Key (Answer Row) := do
  let granted ← lock c resource .EXCLUSIVE
  pure (if granted then .done else .waits)

/-- The start of `TransactionalSession.rollback()`. -/
def rollback (c : Nat) : Method Row Key (Answer Row) := do
  let tx ← current c
  let s ← get
  setSession c { tx := some tx, undoing := some (s.objects tx).journal.reverse }
  pure .done

/-- One entry of `_apply_undo`. -/
def undoEntry (c : Nat) (newRid : RID) : Method Row Key (Answer Row) := do
  let tx ← current c
  let s ← get
  match (s.sessions c).bind Session.undoing with
  | some (entry :: rest) => do
      let inserted := JournalEntry.inserted (s.objects tx).journal entry.table
      Effect.modify (fun s => { s with
        tables := Function.update s.tables entry.table
          (entry.undo inserted newRid (s.tables entry.table)) })
      setSession c { tx := some tx, undoing := some rest }
      pure .done
  | _ => pure .done

/-- The end of `TransactionalSession.rollback()`, once the journal is undone. -/
def rollbackEnd (c : Nat) : Method Row Key (Answer Row) := do
  let tx ← current c
  tmFinish tx .ABORTED
  setSession c { tx := none, undoing := none }
  pure .done

/-- An undo that raises: the transaction stays as it is. -/
def undoError (c : Nat) (e : PyError) : Method Row Key (Answer Row) := do
  let tx ← current c
  setSession c { tx := some tx, undoing := none }
  raise e

/-- `acquire` raises `LockNotGranted` or `DeadlockDetected`, and `_run` rolls back. -/
def acquireError (c : Nat) : Method Row Key (Answer Row) := do
  let tx ← current c
  Effect.modify (fun s =>
    { s with lockManager := stopWaiting tx s.lockManager })
  rollback c

/-! ## The connection handler -/

/-- How the loop of `_handle` ends. -/
inductive Exit
  /-- A malformed frame. -/
  | protocolError
  /-- The peer closed or reset the connection, or a socket operation failed. -/
  | connectionError
  /-- Any other exception that a request raised. -/
  | uncaught (e : PyError)

/-- The start of `_handle`: a new session. -/
def connect : Method Row Key (Answer Row) := do
  let s ← get
  setSession s.accepted { tx := none, undoing := none }
  Effect.modify (fun s => { s with accepted := s.accepted + 1 })
  pure .done

/-- The end of `_handle`.  Every exit runs the same `finally`: `session.close()` closes the
transaction manager. -/
def disconnect (c : Nat) (_ : Exit) : Method Row Key (Answer Row) := do
  tmClose
  Effect.modify (fun s => { s with sessions := Function.update s.sessions c none })
  pure .done

/-! ## Actions -/

/-- What one thread does while the others stand still. -/
inductive Action (Row Key : Type)
  | connect
  | beginTransaction (c : Nat)
  | call (c : Nat) (call : Call Row Key)
  | ddl (c : Nat) (resource : Resource)
  | acquireError (c : Nat)
  | commit (c : Nat)
  | rollback (c : Nat)
  | undoEntry (c : Nat) (newRid : RID)
  | undoError (c : Nat) (e : PyError)
  | rollbackEnd (c : Nat)
  | disconnect (c : Nat) (exit : Exit)

def perform : Action Row Key → Method Row Key (Answer Row)
  | .connect => connect
  | .beginTransaction c => beginTransaction c
  | .call c call => lockedCall c call
  | .ddl c resource => ddl c resource
  | .acquireError c => acquireError c
  | .commit c => commit c
  | .rollback c => rollback c
  | .undoEntry c newRid => undoEntry c newRid
  | .undoError c e => undoError c e
  | .rollbackEnd c => rollbackEnd c
  | .disconnect c exit => disconnect c exit

/-- The server after an action, whether it returned or raised. -/
def step (s : Server Row Key) (a : Action Row Key) : Server Row Key := (perform a s).2

/-- The open transaction of a connection. -/
def openTx (s : Server Row Key) (c : Nat) : Option TxId := (s.sessions c).bind Session.tx

/-- Whether the connection is being served and no rollback runs on it. -/
def Idle (s : Server Row Key) (c : Nat) : Prop :=
  (s.sessions c).any (fun session => session.undoing.isNone) = true

/-- Whether a rollback runs on the connection that has still to undo what `p` accepts. -/
def Undoing (s : Server Row Key) (c : Nat) (p : List (JournalEntry Row) → Bool) : Prop :=
  (s.sessions c).any (fun session => session.tx.isSome && session.undoing.any p) = true

/-- The RID that a row which is put back gets was not given out before. -/
def freshFor (s : Server Row Key) (newRid : RID) : List (JournalEntry Row) → Bool
  | [] => false
  | entry :: _ => decide (newRid ∉ (s.tables entry.table).used)

/-- The calls a statement can come to: a RID that is given out was not given out before.  A row
is removed or fetched by any RID, and nothing asks whether the lock of the table under which the
RID was found is still held: the end of another connection may have cleared it. -/
def CallEnabled (s : Server Row Key) : Call Row Key → Prop
  | .insert table _ rid => rid ∉ (s.tables table).used
  | .remove _ _ | .scan _ | .indexRead _ _ _ | .fetch _ _ => True

/-- The actions a thread can come to; while a rollback runs its thread does nothing else. -/
def Enabled (s : Server Row Key) : Action Row Key → Prop
  | .connect => True
  | .beginTransaction c => Idle s c
  | .call c call => Idle s c ∧ CallEnabled s call
  | .ddl c _ => Idle s c
  | .acquireError c => Idle s c
  | .commit c => Idle s c
  | .rollback c => Idle s c
  | .undoEntry c newRid => Undoing s c (s.freshFor newRid)
  | .undoError c _ => Undoing s c (fun _ => true)
  | .rollbackEnd c => Undoing s c List.isEmpty
  | .disconnect c _ => Idle s c

instance (s : Server Row Key) (c : Nat) : Decidable (Idle s c) :=
  inferInstanceAs (Decidable (_ = true))

instance (s : Server Row Key) (c : Nat) (p : List (JournalEntry Row) → Bool) :
    Decidable (Undoing s c p) :=
  inferInstanceAs (Decidable (_ = true))

instance (s : Server Row Key) : (call : Call Row Key) → Decidable (CallEnabled s call)
  | .insert table _ rid => inferInstanceAs (Decidable (rid ∉ (s.tables table).used))
  | .remove _ _ | .scan _ | .indexRead _ _ _ | .fetch _ _ => .isTrue trivial

instance (s : Server Row Key) : (a : Action Row Key) → Decidable (Enabled s a)
  | .connect => .isTrue trivial
  | .beginTransaction c => inferInstanceAs (Decidable (Idle s c))
  | .call c call => inferInstanceAs (Decidable (Idle s c ∧ CallEnabled s call))
  | .ddl c _ => inferInstanceAs (Decidable (Idle s c))
  | .acquireError c => inferInstanceAs (Decidable (Idle s c))
  | .commit c => inferInstanceAs (Decidable (Idle s c))
  | .rollback c => inferInstanceAs (Decidable (Idle s c))
  | .undoEntry c newRid => inferInstanceAs (Decidable (Undoing s c (s.freshFor newRid)))
  | .undoError c _ => inferInstanceAs (Decidable (Undoing s c (fun _ => true)))
  | .rollbackEnd c => inferInstanceAs (Decidable (Undoing s c List.isEmpty))
  | .disconnect c _ => inferInstanceAs (Decidable (Idle s c))

/-! ## What each action does -/

section Step

variable {s : Server Row Key} {c : Nat} {tx : TxId}

theorem current_ok (h : s.openTx c = some tx) : current c s = (.ok tx, s) := by
  rw [openTx] at h
  simp only [current, h]

theorem current_error (h : s.openTx c = none) :
    current c s = (.error (.TransactionError "no active transaction on this thread"), s) := by
  rw [openTx] at h
  simp only [current, h]

theorem step_begin (h : s.openTx c = none) : step s (.beginTransaction c) =
    { s with
      transactions := s.transactions ++ [s.nextId]
      nextId := s.nextId + 1
      objects := Function.update s.objects s.nextId
        { session := c, state := .ACTIVE, journal := [], granted := [], log := [] }
      sessions := Function.update s.sessions c
        (some { tx := some s.nextId, undoing := none }) } := by
  rw [openTx] at h
  simp only [step, perform, beginTransaction, run_bind, run_get, h]
  rfl

theorem step_begin_open (h : s.openTx c = some tx) : step s (.beginTransaction c) = s := by
  rw [openTx] at h
  simp only [step, perform, beginTransaction, run_bind, run_get, h,
    run_raise]

def withLock (s : Server Row Key) (tx : TxId) (resource : Resource) (mode : LockMode) :
    Server Row Key :=
  { s with
    lockManager := s.lockManager.grant tx resource mode
    objects := Function.update s.objects tx
      { s.objects tx with granted := (s.objects tx).granted ++ [(resource, mode)] } }

/-- The server after a lock is refused. -/
def withWaiting (s : Server Row Key) (tx : TxId) (resource : Resource) : Server Row Key :=
  { s with
    lockManager := { s.lockManager with
      waiting := s.lockManager.waiting.insert tx resource } }

variable {resource : Resource} {mode : LockMode} {call : Call Row Key}

theorem lock_granted (h : s.openTx c = some tx)
    (hgrant : s.lockManager.tryGrant tx resource mode = true) :
    lock c resource mode s = (.ok true, s.withLock tx resource mode) := by
  simp only [lock, run_bind, current_ok h, run_get, acquire,
    hgrant, if_true, run_modify, run_pure]
  rfl

theorem lock_refused (h : s.openTx c = some tx)
    (hgrant : s.lockManager.tryGrant tx resource mode = false) :
    lock c resource mode s = (.ok false, s.withWaiting tx resource) := by
  simp only [lock, run_bind, current_ok h, run_get, acquire,
    hgrant, Bool.false_eq_true, if_false, run_modify, run_pure]
  rfl

theorem lock_error (h : s.openTx c = none) :
    lock c resource mode s =
      (.error (.TransactionError "no active transaction on this thread"), s) := by
  simp only [lock, run_bind, current_error h]

/-- The server after a storage operation of a transaction. -/
def withCall (s : Server Row Key) (tx : TxId) (call : Call Row Key) : Server Row Key :=
  { s with
    tables := Function.update s.tables call.table (call.run (s.tables call.table)).2
    objects := Function.update s.objects tx
      { s.objects tx with
        journal := (s.objects tx).journal ++ call.journal (s.tables call.table)
        log := (s.objects tx).log ++ [(call, (call.run (s.tables call.table)).1)] } }

theorem step_call_granted (h : s.openTx c = some tx)
    (hgrant : s.lockManager.tryGrant tx call.lock.1 call.lock.2 = true) :
    step s (.call c call) = (s.withLock tx call.lock.1 call.lock.2).withCall tx call := by
  have hopen : (s.withLock tx call.lock.1 call.lock.2).openTx c = some tx := h
  simp only [step, perform, lockedCall, run_bind, lock_granted h hgrant, if_true,
    current_ok hopen, run_get, run_modify, run_pure]
  rfl

theorem step_call_refused (h : s.openTx c = some tx)
    (hgrant : s.lockManager.tryGrant tx call.lock.1 call.lock.2 = false) :
    step s (.call c call) = s.withWaiting tx call.lock.1 := by
  simp only [step, perform, lockedCall, run_bind, lock_refused h hgrant,
    Bool.false_eq_true, if_false, run_pure]

theorem step_call_error (h : s.openTx c = none) : step s (.call c call) = s := by
  simp only [step, perform, lockedCall, run_bind, lock_error h]

theorem step_ddl_granted (h : s.openTx c = some tx)
    (hgrant : s.lockManager.tryGrant tx resource .EXCLUSIVE = true) :
    step s (.ddl c resource) = s.withLock tx resource .EXCLUSIVE := by
  simp only [step, perform, ddl, run_bind, lock_granted h hgrant, run_pure]

theorem step_ddl_refused (h : s.openTx c = some tx)
    (hgrant : s.lockManager.tryGrant tx resource .EXCLUSIVE = false) :
    step s (.ddl c resource) = s.withWaiting tx resource := by
  simp only [step, perform, ddl, run_bind, lock_refused h hgrant, run_pure]

theorem step_ddl_error (h : s.openTx c = none) : step s (.ddl c resource) = s := by
  simp only [step, perform, ddl, run_bind, lock_error h]

def withEnd (s : Server Row Key) (c : Nat) (tx : TxId) (final : TransactionState) :
    Server Row Key :=
  { s with
    lockManager := releaseAll tx s.lockManager
    transactions := s.transactions.erase tx
    objects := Function.update s.objects tx { s.objects tx with state := final }
    sessions := Function.update s.sessions c (some { tx := none, undoing := none }) }

theorem step_commit (h : s.openTx c = some tx) (hactive : (s.objects tx).state = .ACTIVE) :
    step s (.commit c) =
      { s.withEnd c tx .COMMITTED with
        committed := s.committed ++ [(tx, (s.objects tx).log)] } := by
  simp only [step, perform, commit, run_bind, current_ok h, tmFinish, hactive, ne_eq,
    not_true_eq_false, if_false, run_modify, setSession, run_pure, withEnd,
    Function.update_self]

theorem step_commit_inactive (h : s.openTx c = some tx)
    (hactive : (s.objects tx).state ≠ .ACTIVE) : step s (.commit c) = s := by
  simp only [step, perform, commit, run_bind, current_ok h, tmFinish, ne_eq, hactive,
    not_false_eq_true, if_true]

theorem step_commit_error (h : s.openTx c = none) : step s (.commit c) = s := by
  simp only [step, perform, commit, run_bind, current_error h]

theorem step_rollback (h : s.openTx c = some tx) : step s (.rollback c) =
    { s with
      sessions := Function.update s.sessions c
        (some { tx := some tx, undoing := some (s.objects tx).journal.reverse }) } := by
  simp only [step, perform, rollback, run_bind, current_ok h, run_get, setSession,
    run_modify, run_pure]

theorem step_rollback_error (h : s.openTx c = none) : step s (.rollback c) = s := by
  simp only [step, perform, rollback, run_bind, current_error h]

theorem step_acquire_error (h : s.openTx c = some tx) : step s (.acquireError c) =
    { s with
      lockManager := stopWaiting tx s.lockManager
      sessions := Function.update s.sessions c
        (some { tx := some tx, undoing := some (s.objects tx).journal.reverse }) } := by
  have hopen : openTx { s with
      lockManager := stopWaiting tx s.lockManager } c = some tx := h
  simp only [step, perform, acquireError, run_bind, current_ok h, run_modify,
    rollback, current_ok hopen, run_get, setSession, run_pure]

theorem step_acquire_error_none (h : s.openTx c = none) : step s (.acquireError c) = s := by
  simp only [step, perform, acquireError, run_bind, current_error h]

theorem step_undo_entry {newRid : RID} {entry : JournalEntry Row}
    {rest : List (JournalEntry Row)}
    (h : s.sessions c = some { tx := some tx, undoing := some (entry :: rest) }) :
    step s (.undoEntry c newRid) =
      { s with
        tables := Function.update s.tables entry.table
          (entry.undo (JournalEntry.inserted (s.objects tx).journal entry.table) newRid
            (s.tables entry.table))
        sessions := Function.update s.sessions c
          (some { tx := some tx, undoing := some rest }) } := by
  have hopen : s.openTx c = some tx := by rw [openTx, h]; rfl
  simp only [step, perform, undoEntry, run_bind, current_ok hopen, run_get, h,
    Option.bind_some, run_modify, setSession, run_pure]

theorem step_undo_entry_idle {newRid : RID} (hopen : s.openTx c = some tx)
    (h : ∀ entry rest, (s.sessions c).bind Session.undoing ≠ some (entry :: rest)) :
    step s (.undoEntry c newRid) = s := by
  simp only [step, perform, undoEntry, run_bind, current_ok hopen, run_get]
  rfl

theorem step_undo_entry_error {newRid : RID} (h : s.openTx c = none) :
    step s (.undoEntry c newRid) = s := by
  simp only [step, perform, undoEntry, run_bind, current_error h]

theorem step_undo_error {e : PyError} (h : s.openTx c = some tx) :
    step s (.undoError c e) =
      { s with
        sessions := Function.update s.sessions c
          (some { tx := some tx, undoing := none }) } := by
  simp only [step, perform, undoError, run_bind, current_ok h, setSession,
    run_modify, run_raise]

theorem step_undo_error_none {e : PyError} (h : s.openTx c = none) :
    step s (.undoError c e) = s := by
  simp only [step, perform, undoError, run_bind, current_error h]

theorem step_rollback_end (h : s.openTx c = some tx) (hactive : (s.objects tx).state = .ACTIVE) :
    step s (.rollbackEnd c) = s.withEnd c tx .ABORTED := by
  simp only [step, perform, rollbackEnd, run_bind, current_ok h, tmFinish, hactive,
    ne_eq, not_true_eq_false, if_false, run_modify, setSession, run_pure, withEnd]

theorem step_rollback_end_inactive (h : s.openTx c = some tx)
    (hactive : (s.objects tx).state ≠ .ACTIVE) : step s (.rollbackEnd c) = s := by
  simp only [step, perform, rollbackEnd, run_bind, current_ok h, tmFinish, ne_eq,
    hactive, not_false_eq_true, if_true]

theorem step_rollback_end_error (h : s.openTx c = none) : step s (.rollbackEnd c) = s := by
  simp only [step, perform, rollbackEnd, run_bind, current_error h]

theorem step_disconnect {exit : Exit} : step s (.disconnect c exit) =
    { s with
      lockManager := s.lockManager.close
      sessions := Function.update s.sessions c none } := rfl

end Step

/-! ## What a step can do -/

/-- The connection whose thread takes an action. -/
def Action.connection : Action Row Key → Option Nat
  | .connect => none
  | .beginTransaction c | .call c _ | .ddl c _ | .acquireError c | .commit c | .rollback c
  | .undoEntry c _ | .undoError c _ | .rollbackEnd c | .disconnect c _ => some c

/-- The server after an action. -/
inductive Move (s : Server Row Key) : Action Row Key → Server Row Key → Prop
  /-- The action raises at once, or has nothing to do. -/
  | stay (a : Action Row Key) : Move s a s
  | connect : Move s .connect { s with
      sessions := Function.update s.sessions s.accepted (some { tx := none, undoing := none })
      accepted := s.accepted + 1 }
  | start (c : Nat) (free : s.openTx c = none) : Move s (.beginTransaction c) { s with
      transactions := s.transactions ++ [s.nextId]
      nextId := s.nextId + 1
      objects := Function.update s.objects s.nextId
        { session := c, state := .ACTIVE, journal := [], granted := [], log := [] }
      sessions := Function.update s.sessions c (some { tx := some s.nextId, undoing := none }) }
  | call (c : Nat) (tx : TxId) (call : Call Row Key) (opened : s.openTx c = some tx)
      (grantable : s.lockManager.tryGrant tx call.lock.1 call.lock.2 = true) :
      Move s (.call c call) ((s.withLock tx call.lock.1 call.lock.2).withCall tx call)
  | lock (c : Nat) (tx : TxId) (resource : Resource) (opened : s.openTx c = some tx)
      (grantable : s.lockManager.tryGrant tx resource .EXCLUSIVE = true) :
      Move s (.ddl c resource) (s.withLock tx resource .EXCLUSIVE)
  | wait (a : Action Row Key) (tx : TxId) (resource : Resource) :
      Move s a (s.withWaiting tx resource)
  /-- A rollback begins or fails. -/
  | undoing (a : Action Row Key) (c : Nat) (tx : TxId) (waiting : Dict TxId Resource)
      (undoing : Option (List (JournalEntry Row))) (connection : a.connection = some c)
      (opened : s.openTx c = some tx) : Move s a { s with
        lockManager := { s.lockManager with waiting }
        sessions := Function.update s.sessions c (some { tx := some tx, undoing }) }
  | undo (c : Nat) (tx : TxId) (newRid : RID) (entry : JournalEntry Row)
      (rest : List (JournalEntry Row)) (opened : s.openTx c = some tx) :
      Move s (.undoEntry c newRid) { s with
        tables := Function.update s.tables entry.table
          (entry.undo (JournalEntry.inserted (s.objects tx).journal entry.table) newRid
            (s.tables entry.table))
        sessions := Function.update s.sessions c (some { tx := some tx, undoing := some rest }) }
  | finish (a : Action Row Key) (c : Nat) (tx : TxId) (final : TransactionState)
      (committed : List (TxId × List (Call Row Key × Answer Row)))
      (connection : a.connection = some c) (ended : final ≠ .ACTIVE)
      (opened : s.openTx c = some tx) : Move s a { s.withEnd c tx final with committed }
  | disconnect (c : Nat) (exit : Exit) :
      Move s (.disconnect c exit) (step s (.disconnect c exit))

theorem Move.of_eq {s s' : Server Row Key} {a : Action Row Key} (h : s' = s) : Move s a s' := by
  subst h
  exact .stay a

theorem moves (s : Server Row Key) (a : Action Row Key) : Move s a (step s a) := by
  cases a with
  | connect => exact .connect
  | beginTransaction c =>
      cases h : s.openTx c with
      | some tx => exact .of_eq (step_begin_open h)
      | none => exact step_begin h ▸ .start c h
  | call c call =>
      cases h : s.openTx c with
      | none => exact .of_eq (step_call_error h)
      | some tx =>
          cases hgrant : s.lockManager.tryGrant tx call.lock.1 call.lock.2 with
          | true => exact step_call_granted h hgrant ▸ .call c tx call h hgrant
          | false => exact step_call_refused h hgrant ▸ .wait _ tx _
  | ddl c resource =>
      cases h : s.openTx c with
      | none => exact .of_eq (step_ddl_error h)
      | some tx =>
          cases hgrant : s.lockManager.tryGrant tx resource .EXCLUSIVE with
          | true => exact step_ddl_granted h hgrant ▸ .lock c tx resource h hgrant
          | false => exact step_ddl_refused h hgrant ▸ .wait _ tx _
  | acquireError c =>
      cases h : s.openTx c with
      | none => exact .of_eq (step_acquire_error_none h)
      | some tx => exact step_acquire_error h ▸ .undoing _ c tx _ _ rfl h
  | commit c =>
      cases h : s.openTx c with
      | none => exact .of_eq (step_commit_error h)
      | some tx =>
          by_cases hactive : (s.objects tx).state = .ACTIVE
          · exact step_commit h hactive ▸ .finish _ c tx _ _ rfl (by decide) h
          · exact .of_eq (step_commit_inactive h hactive)
  | rollback c =>
      cases h : s.openTx c with
      | none => exact .of_eq (step_rollback_error h)
      | some tx => exact step_rollback h ▸ .undoing _ c tx s.lockManager.waiting _ rfl h
  | undoEntry c newRid =>
      cases h : s.openTx c with
      | none => exact .of_eq (step_undo_entry_error h)
      | some tx =>
          obtain ⟨⟨tx', undoing⟩, hsession, rfl⟩ := Option.bind_eq_some_iff.mp h
          cases undoing with
          | none =>
              refine .of_eq (step_undo_entry_idle h (fun _ _ => ?_))
              simp [hsession]
          | some entries =>
              cases entries with
              | nil =>
                  refine .of_eq (step_undo_entry_idle h (fun _ _ => ?_))
                  simp [hsession]
              | cons entry rest => exact step_undo_entry hsession ▸ .undo c tx newRid entry rest h
  | undoError c e =>
      cases h : s.openTx c with
      | none => exact .of_eq (step_undo_error_none h)
      | some tx => exact step_undo_error h ▸ .undoing _ c tx s.lockManager.waiting _ rfl h
  | rollbackEnd c =>
      cases h : s.openTx c with
      | none => exact .of_eq (step_rollback_end_error h)
      | some tx =>
          by_cases hactive : (s.objects tx).state = .ACTIVE
          · exact step_rollback_end h hactive ▸ .finish _ c tx _ s.committed rfl (by decide) h
          · exact .of_eq (step_rollback_end_inactive h hactive)
  | disconnect c exit => exact .disconnect c exit

end Server
end SoupDB
