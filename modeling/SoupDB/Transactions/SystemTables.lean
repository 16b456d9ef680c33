import SoupDB.Common.SystemRows
import SoupDB.Transactions.SessionFrame

/-!
# SoupDB: system tables through a session

The executor refuses INSERT and DELETE on a system table by asking the catalog whether the
table is one.  The catalog itself answers; the proxy that a session puts in its place has no
such method, so through a session only the planner stands before these statements.

Main fact: `system_tables_read_only`.  In a run whose INSERT and DELETE statements on system
tables are all refused by the planner, only CREATE and DROP change rows of system tables.
-/

namespace SoupDB

open Effect

/-! ## Statements that write rows -/

namespace Executor

variable {E S σ : Type} {api : CatalogApi σ} {plugins : Plugins} {q : Evaluation E S}

/-- An INSERT that the planner refuses on a table of these columns. -/
def refusesInsert (schema : List ColumnDef) (columns : List String) (values : List (List E)) :
    Bool :=
  let names := schema.map ColumnDef.name
  let width := if columns ≠ [] then columns.length else schema.length
  decide (columns ≠ [] ∧ (columns.length ≠ schema.length ∨
      ¬ ((∀ name ∈ columns, name ∈ names) ∧ ∀ name ∈ names, name ∈ columns))) ||
    values.any (fun row => row.length ≠ width)

/-- An INSERT or DELETE that the planner refuses on a table of these columns. -/
def refuses (q : Evaluation E S) (schema : List ColumnDef) : Statement E S → Bool
  | .InsertStatement _ columns values => refusesInsert schema columns values
  | .DeleteStatement _ (some condition) => !(q.validateColumns condition schema).isOk
  | .ExplainStatement statement _ _ => refuses q schema statement
  | _ => false

variable {table : String} {statement : Statement E S}

theorem raises_plan_insert {s : σ} {columns : List String} {values : List (List E)}
    (h : wp (api.schema table) (fun schema _ => refusesInsert schema columns values = true)
      (fun _ _ => True) s) : Raises (planInsert api plugins table columns values) s := by
  refine Raises.bind_of (wp_mono h (fun schema s' hrefuses => ?_) (fun _ _ h => h))
  refine Raises.bind_right (fun _ s'' => ?_)
  rw [refusesInsert, Bool.or_eq_true, decide_eq_true_iff] at hrefuses
  refine Raises.ite (fun _ => trivial) (fun hnames => Raises.ite (fun _ => trivial) ?_)
  exact fun hwidth => absurd (hrefuses.resolve_left hnames) hwidth

theorem raises_plan_delete {s : σ} {condition : Option E}
    (h : wp (api.schema table)
      (fun schema _ => refuses q schema (.DeleteStatement table condition) = true)
      (fun _ _ => True) s) : Raises (planDelete api plugins q table condition) s := by
  refine Raises.bind_of (wp_mono h (fun schema s' hrefuses => ?_) (fun _ _ h => h))
  refine Raises.bind_right (fun _ _ => Raises.bind_right (fun _ _ => ?_))
  cases condition with
  | none => cases hrefuses
  | some condition =>
      refine wp_lift.mpr ⟨fun _ hok => ?_, fun _ _ => trivial⟩
      rw [refuses, hok] at hrefuses
      cases hrefuses

theorem raises_plan {s : σ} (hdml : dmlTable statement = some table)
    (h : wp (api.schema table) (fun schema _ => refuses q schema statement = true)
      (fun _ _ => True) s) : Raises (plan api plugins q statement) s := by
  induction statement with
  | InsertStatement name columns values =>
      obtain rfl := Option.some.inj hdml
      exact raises_plan_insert h
  | DeleteStatement name condition =>
      obtain rfl := Option.some.inj hdml
      exact raises_plan_delete h
  | ExplainStatement statement analyze jsonFormat ih =>
      cases analyze with
      | false => cases hdml
      | true => exact ih hdml h
  | _ => cases hdml

theorem root_of_dml (hdml : dmlTable statement = some table) : root statement = none := by
  induction statement with
  | SelectStatement select => cases hdml
  | ExplainStatement statement analyze jsonFormat ih =>
      cases analyze with
      | false => cases hdml
      | true => exact ih hdml
  | _ => rfl

theorem is_ddl_of_dml (hdml : dmlTable statement = some table) : isDdl statement = false := by
  induction statement with
  | ExplainStatement statement analyze jsonFormat ih =>
      cases analyze with
      | false => rfl
      | true => exact ih hdml
  | InsertStatement name columns values => rfl
  | DeleteStatement name condition => rfl
  | _ => cases hdml

/-- On the catalog itself, an INSERT or DELETE on a system table raises and changes nothing. -/
theorem execute_read_only (w : World) (hdml : dmlTable statement = some table)
    (hname : reserved table = true) (c : Catalog) :
    execute (Catalog.api w) plugins q statement c = (.error (Catalog.readOnly table), c) := by
  have hwritable : ensureWritable (Catalog.api w) table c =
      (.error (Catalog.readOnly table), c) := by
    rw [ensureWritable, if_pos]
    · rfl
    · exact hname
  induction statement with
  | InsertStatement name columns values =>
      obtain rfl := Option.some.inj hdml
      exact run_bind_error _ hwritable
  | DeleteStatement name condition =>
      obtain rfl := Option.some.inj hdml
      exact run_bind_error _ hwritable
  | ExplainStatement statement analyze jsonFormat ih =>
      cases analyze with
      | false => cases hdml
      | true =>
          have hroot : root statement = none := root_of_dml hdml
          rw [execute, if_pos rfl, hroot]
          exact run_bind_error _ (ih hdml)
  | _ => cases hdml

end Executor

/-! ## Steps of a session -/

namespace Catalog

/-- The records of a table, if there is one. -/
def rowsOf (c : Catalog) (name : String) : Option (FileOrganization Bytes) :=
  (c.tables.get? name).map (fun t => c.files.records t.fileId)

def SameSystemRows (c c' : Catalog) : Prop :=
  ∀ name, reserved name = true → c'.rowsOf name = c.rowsOf name

theorem Untouched.sameSystemRows {c c' : Catalog} (h : Untouched c c') (hown : OwnFiles c) :
    SameSystemRows c c' := by
  intro name hname
  have hlayout := h.layouts name
  rw [rowsOf, rowsOf]
  cases ht : c.tables.get? name with
  | none =>
      rw [ht, Option.map_none, Option.map_eq_none_iff] at hlayout
      rw [hlayout]
      rfl
  | some t =>
      rw [ht, Option.map_some, Option.map_eq_some_iff] at hlayout
      obtain ⟨t', ht', heq⟩ := hlayout
      have hid : reserved t.fileId = true := (hown name t ht).trans hname
      rw [ht', Option.map_some, Option.map_some, (Prod.mk.inj heq).2, h.records t.fileId hid]

end Catalog

namespace TransactionalSession

open Catalog Executor

variable {E S : Type} (w : World) (grants : Grants) (q : Evaluation E S)

/-- An INSERT or DELETE on a system table, also under EXPLAIN ANALYZE, is one that the planner
refuses. -/
def refused (s : TransactionalSession) : Action E S → Bool
  | .execute statement =>
      match dmlTable statement with
      | some table =>
          !reserved table ||
            (s.catalog.tables.get? table).all (fun t => refuses q t.schema statement)
      | none => true
  | _ => true

/-- What reading only means for one step. -/
structure ReadOnly (s : TransactionalSession) (action : Action E S) : Prop where
  /-- Rows of system tables change by CREATE and DROP only. -/
  rows : (∀ statement, action = .execute statement → isDdl statement = false) →
    action ≠ .reopen → SameSystemRows s.catalog (step w grants q s action).catalog
  /-- INSERT and DELETE on a system table are rejected, as they are on the catalog itself. -/
  rejected : ∀ statement table, action = .execute statement →
    dmlTable statement = some table → reserved table = true →
      (∃ e, (perform w grants q action s).1 = .error e) ∧
      (∃ e, (Executor.run (api w) w.plugins q statement s.catalog).1 = .error e) ∧
      SameSystemRows s.catalog (Executor.run (api w) w.plugins q statement s.catalog).2

variable {c : Catalog} {statement : Statement E S} {s : TransactionalSession} {action : Action E S}

theorem rejected_directly (hc : Separated c) {table : String}
    (hdml : dmlTable statement = some table) (hname : reserved table = true) :
    (∃ e, (Executor.run (api w) w.plugins q statement c).1 = .error e) ∧
      SameSystemRows c (Executor.run (api w) w.plugins q statement c).2 := by
  have hexecute : ∀ c', execute (api w) w.plugins q statement c' =
      (.error (readOnly table), c') := execute_read_only w hdml hname
  constructor
  · refine raises_iff.mp (Raises.bind_right (fun _ c' => raises_iff.mpr ?_))
    exact ⟨_, congrArg Prod.fst (hexecute c')⟩
  · refine Untouched.sameSystemRows ?_ hc.tables
    refine Keeps.bind ((reads w (Untouched.byRecords c)).plan statement) (fun _ => ?_) c
      (Untouched.refl c)
    intro c' hc'
    rw [hexecute c']
    exact hc'

/-- A statement that is refused in a transaction of its own and in that of the session. -/
theorem raises_in_transaction {x y : Method ResultSet} (hx : Raises x s) (hy : Raises y s) :
    Raises (do
      let s ← Effect.get
      match s.tx with
      | none => finallyReset x
      | some _ => y) s := by
  refine Raises.bind_of (wp_get.mpr ?_)
  split
  · have herror : ∃ e, (x s).1 = .error e := raises_iff.mp hx
    exact raises_iff.mpr herror
  · exact hy

section Refused

variable {before : Catalog} {statement : Statement E S} {table : String}
  (hdml : dmlTable statement = some table)
  (hrefused : ∀ t, before.tables.get? table = some t → refuses q t.schema statement = true)
include hdml hrefused

variable {s : TransactionalSession}

theorem raises_plan_of_refused (hs : Held (Untouched before) s) :
    Raises (Executor.plan (lockingCatalog w grants) w.plugins q statement) s := by
  refine raises_plan hdml ?_
  change wp (onCatalog (Catalog.schema table)) _ _ s
  rw [onCatalog, wp_focus, Catalog.schema, wp_bind, Catalog.table, wp_bind, wp_get]
  cases ht : s.catalog.tables.get? table with
  | none => exact trivial
  | some t =>
      obtain ⟨t', ht', hschema, -⟩ := hs.catalog.table_before ht
      change refuses q t.schema statement = true
      rw [← hschema]
      exact hrefused t' ht'

theorem keeps_run_of_refused : Keeps (Held (Untouched before))
    (Executor.run (lockingCatalog w grants) w.plugins q statement) := by
  intro s hs
  have hplan := raises_plan_of_refused w grants q hdml hrefused hs
  rw [Executor.run, Raises.state hplan]
  exact (reads_locking w grants (Untouched.byRecords before)).plan statement s hs

omit hdml hrefused in
theorem raises_lock_failure (message : String) (s : TransactionalSession) :
    Raises (lockFailure w message) s := by
  refine Raises.bind_right (fun s' _ => ?_)
  exact Raises.bind_right (fun _ _ => trivial)

theorem raises_run_of_refused (hs : Held (Untouched before) s) :
    Raises (run w grants q statement) s := by
  have hplan := raises_plan_of_refused w grants q hdml hrefused hs
  refine Raises.tryCatch (Raises.bind hplan) (fun e s' => ?_)
  split
  · exact raises_lock_failure w _ s'
  · exact raises_lock_failure w _ s'
  · exact trivial

theorem raises_execute_statement (hs : Held (Untouched before) s) :
    Raises (executeStatement w grants q statement) s := by
  have hauto : ∀ s, Held (Untouched before) s → Raises (runAuto w grants q statement) s := by
    intro s hs
    refine Raises.bind_of (wp_mono (keeps_begin.wp hs) (fun _ s' hs' => ?_) (fun _ _ _ => trivial))
    refine Raises.bind_of (wp_modify.mpr (Raises.bind (Raises.tryCatch ?_ (fun e s'' => ?_))))
    swap
    · exact Raises.bind_right (fun _ _ => trivial)
    exact raises_run_of_refused w grants q hdml hrefused ⟨hs'.catalog, hs'.journal⟩
  have hboth := raises_in_transaction (hauto s hs)
    (raises_run_of_refused w grants q hdml hrefused hs)
  cases statement with
  | InsertStatement name columns values => exact hboth
  | DeleteStatement name condition => exact hboth
  | ExplainStatement statement analyze jsonFormat => exact hboth
  | _ => cases hdml

end Refused

/-! ## Runs -/

theorem refuses_of_refused {table : String} (hrefused : refused q s (.execute statement) = true)
    (hdml : dmlTable statement = some table) (hname : reserved table = true) {t : Table}
    (ht : s.catalog.tables.get? table = some t) : refuses q t.schema statement = true := by
  simpa [refused, hdml, hname, ht] using hrefused

theorem keeps_step {P : Catalog → Prop} (hI : ByRecords P)
    (hwrites : ∀ name, reserved name = false → Executor.Writes (api w) P name)
    (hreopen : action ≠ .reopen)
    (hrun : ∀ statement, action = .execute statement →
      Keeps (Held P) (Executor.run (lockingCatalog w grants) w.plugins q statement)) :
    ∀ s, Held P s → Held P (step w grants q s action) := by
  intro s hs
  cases action with
  | execute statement =>
      exact keeps_execute_statement w grants hI hwrites (hrun statement rfl) s hs
  | begin => exact keeps_begin s hs
  | commit => exact keeps_commit s hs
  | rollback => exact keeps_rollback w hI hwrites s hs
  | reopen => exact absurd rfl hreopen

/-- A statement other than CREATE and DROP leaves the catalog untouched, if what it does to a
system table is refused. -/
theorem keeps_run_untouched {before : Catalog} (hown : OwnFiles before)
    (hddl : isDdl statement = false)
    (hrefused : ∀ table, dmlTable statement = some table → reserved table = true →
      ∀ t, before.tables.get? table = some t → refuses q t.schema statement = true) :
    Keeps (Held (Untouched before))
      (Executor.run (lockingCatalog w grants) w.plugins q statement) := by
  by_cases hname : ∃ table, dmlTable statement = some table ∧ reserved table = true
  · obtain ⟨table, hdml, hname⟩ := hname
    exact keeps_run_of_refused w grants q hdml (hrefused table hdml hname)
  · have hreads := reads_locking w grants (Untouched.byRecords before)
    refine keeps_run hreads statement (fun table hdml => ?_) (fun h => ?_)
    · refine writes_locking w grants (Untouched.byRecords before)
        (fun _ => Untouched.writes w hown) (eq_false_of_ne_true (fun h => hname ?_))
      exact ⟨table, hdml, h⟩
    · rw [hddl] at h
      cases h

/-- A CREATE or a DROP keeps the tables in files of their own. -/
theorem keeps_run_separated (hddl : isDdl statement = true) :
    Keeps (Held Separated) (Executor.run (lockingCatalog w grants) w.plugins q statement) := by
  have hreads := reads_locking w grants Separated.byRecords
  refine keeps_run hreads statement (fun table hdml => ?_) (fun _ => ?_)
  · rw [is_ddl_of_dml hdml] at hddl
    cases hddl
  · exact defines_locking w grants Separated.byRecords (Separated.defines w)

theorem untouched_step (hs : Held Separated s) (hrefused : refused q s action = true)
    (hreopen : action ≠ .reopen)
    (hddl : ∀ statement, action = .execute statement → isDdl statement = false) :
    Held (Untouched s.catalog) (step w grants q s action) := by
  refine keeps_step w grants q (Untouched.byRecords _)
    (fun _ => Untouched.writes w hs.catalog.tables) hreopen ?_ s ⟨Untouched.refl _, hs.journal⟩
  rintro statement rfl
  exact keeps_run_untouched w grants q hs.catalog.tables (hddl statement rfl)
    (fun table hdml hname t ht => refuses_of_refused q hrefused hdml hname ht)

theorem held_on (hc : Separated c) : Held Separated (on c) := by
  refine ⟨hc, ?_⟩
  rintro tx ⟨⟩

/-- Every step keeps the tables in files of their own. -/
theorem separated_step (hs : Held Separated s) (hrefused : refused q s action = true) :
    Held Separated (step w grants q s action) := by
  by_cases hreopen : action = .reopen
  · subst hreopen
    have hopened := Separated.of_reopen w hs.catalog
    rw [step, perform]
    rcases h : reopen w s.catalog with ⟨e | u, c⟩
    · exact hs
    · rw [h] at hopened
      exact held_on hopened
  · by_cases hddl : ∀ statement, action = .execute statement → isDdl statement = false
    · have h := untouched_step w grants q hs hrefused hreopen hddl
      exact ⟨Separated.of_untouched hs.catalog h.catalog, h.journal⟩
    · refine keeps_step w grants q Separated.byRecords (fun _ => Separated.writes w) hreopen ?_
        s hs
      rintro statement rfl
      refine keeps_run_separated w grants q (eq_true_of_ne_false (fun h => hddl ?_))
      rintro _ ⟨⟩
      exact h

theorem readOnly_step (hs : Held Separated s) (hrefused : refused q s action = true) :
    ReadOnly w grants q s action where
  rows hddl hreopen :=
    (untouched_step w grants q hs hrefused hreopen hddl).catalog.sameSystemRows hs.catalog.tables
  rejected := by
    rintro statement table rfl hdml hname
    refine ⟨?_, rejected_directly w q hs.catalog hdml hname⟩
    have hheld : Held (Untouched s.catalog) s := ⟨Untouched.refl _, hs.journal⟩
    refine raises_iff.mp (raises_execute_statement w grants q hdml ?_ hheld)
    exact fun t ht => refuses_of_refused q hrefused hdml hname ht

/-- Through a session on a database, system tables are read-only as long as the planner refuses
every INSERT and DELETE on them. -/
theorem system_tables_read_only (hopen : (init w (blank FileManager.empty)).2 = c)
    {actions : List (Action E S)}
    (hsteps : Steps (fun s action => refused q s action = true) (step w grants q) (on c) actions) :
    Steps (ReadOnly w grants q) (step w grants q) (on c) actions := by
  have hstep : ∀ s action, Held Separated s → refused q s action = true →
      ReadOnly w grants q s action ∧ Held Separated (step w grants q s action) :=
    fun s action hs hrefused =>
      ⟨readOnly_step w grants q hs hrefused, separated_step w grants q hs hrefused⟩
  exact steps_of_steps hstep (held_on (Separated.of_init_empty w hopen)) hsteps

/-! ## A new database -/

/-- Every lock is granted. -/
def granted : Grants := fun _ _ _ => .ok ()

/-- Expressions that are literals; no SELECT. -/
def literals : Evaluation Datum Empty where
  evaluate e _ _ := .ok e
  validateColumns _ _ := .ok ()
  planSelect _ select := nomatch select
  runSelect _ select := nomatch select
  render _ := []

/-- A new database, without plugins. -/
def fresh : Catalog := (init World.plain (blank FileManager.empty)).2

/-- A table is created, a row of `SysTables` that has one value is refused, and a row of the
table is inserted. -/
def insertions : List (Action Datum Empty) :=
  [.execute (.CreateTableStatement "t" [⟨"a", .INT, none⟩] "HEAP" none),
    .execute (.InsertStatement "SysTables" [] [[.str "t"]]),
    .execute (.InsertStatement "t" [] [[.int 1]])]

theorem system_tables_read_only_of_insertions :
    Steps (ReadOnly World.plain granted literals) (step World.plain granted literals) (on fresh)
      insertions :=
  system_tables_read_only World.plain granted literals rfl (by decide +kernel)

/-- `DELETE FROM SysTables` on a new database, through a session: it returns, and the rows are
gone. -/
theorem session_deletes_system_rows :
    (init World.plain (blank FileManager.empty)).1.isOk = true ∧
      ((fresh.rowsOf "SysTables").map (fun f => f.rows.length)) = some 6 ∧
      (((step World.plain granted literals (on fresh)
        (.execute (.DeleteStatement "SysTables" none))).catalog.rowsOf "SysTables").map
          (fun f => f.rows.length)) = some 0 ∧
      ¬ ReadOnly World.plain granted literals (on fresh)
        (.execute (.DeleteStatement "SysTables" none)) := by
  have hreturns : (perform World.plain granted literals
      (.execute (.DeleteStatement "SysTables" none)) (on fresh)).1.isOk = true := by
    decide +kernel
  refine ⟨by decide +kernel, by decide +kernel, by decide +kernel, fun h => ?_⟩
  obtain ⟨e, he⟩ := (h.rejected (.DeleteStatement "SysTables" none) "SysTables" rfl rfl
    (by decide)).1
  rw [he] at hreturns
  cases hreturns

end TransactionalSession
end SoupDB
