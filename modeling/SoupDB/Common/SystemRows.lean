import SoupDB.Common.CatalogFrame

/-!
# SoupDB: where the rows of system tables are

Tables whose names are reserved are in files of reserved names, and no other table is.  The
catalog says so in memory and again in the rows of `SysTables`, from which it is loaded.
`Separated` is kept by whatever is done to a catalog, and holds of every database that was
created by opening an empty directory (`keeps_init`).
-/

namespace SoupDB

open Effect FileManager

namespace Catalog

open Record (encodeRow decodeRow decode_row_encode_row)

/-- The rows of `SysTables` put only system tables into files of system tables. -/
def OwnRows (f : FileOrganization Bytes) : Prop :=
  ∀ e ∈ f.rows, ∀ row r, decodeRow e.2 SYS_TABLES_SCHEMA = .ok row →
    readTableRow row = .ok r → reserved r.fileId = reserved r.tableName

/-- In memory and in the stored rows, system tables and no others are in files of system
tables. -/
structure Separated (c : Catalog) : Prop where
  tables : OwnFiles c
  rows : OwnRows (c.files.records "SysTables")

variable (w : World)

namespace Separated

theorem byRecords : ByRecords Separated := by
  intro c files h hfiles
  refine ⟨h.tables, ?_⟩
  rw [hfiles]
  exact h.rows

variable {c : Catalog} {name : String} {f : FileOrganization Bytes}

theorem of_untouched {before : Catalog} (hbefore : Separated before) (h : Untouched before c) :
    Separated c := by
  refine ⟨h.ownFiles hbefore.tables, ?_⟩
  rw [h.records "SysTables" (by decide)]
  exact hbefore.rows

theorem keeps_of_untouched {α : Type} {x : Method α}
    (hx : ∀ before, Separated before → Keeps (Untouched before) x) : Keeps Separated x :=
  fun c hc => hc.of_untouched (hx c hc c (Untouched.refl c))

theorem writes (hname : reserved name = false) :
    Executor.Writes (api w) Separated name where
  insert data := keeps_of_untouched
    (fun _ h => (Untouched.writes w h.tables hname).insert data)
  remove rid := keeps_of_untouched
    (fun _ h => (Untouched.writes w h.tables hname).remove rid)
  scan := keeps_of_untouched (fun _ h => (Untouched.writes w h.tables hname).scan)
  insertKey entry value rid := keeps_of_untouched
    (fun _ h => (Untouched.writes w h.tables hname).insertKey entry value rid)
  removeKey entry value rid := keeps_of_untouched
    (fun _ h => (Untouched.writes w h.tables hname).removeKey entry value rid)

/-! ## Rows -/

theorem ownRows_remove (h : OwnRows f) (rid : RID) : OwnRows (f.remove rid) :=
  fun _ he => h _ (List.mem_of_mem_filter he)

theorem ownRows_empty : OwnRows FileOrganization.empty :=
  fun _ he => absurd he List.not_mem_nil

theorem ownRows_insert (h : OwnRows f) (rid : RID) {data : Bytes} {fileId strategy : String}
    {position : Nat}
    (hdata : encodeRow (tableRow name fileId strategy position) SYS_TABLES_SCHEMA = .ok data)
    (hown : reserved fileId = reserved name) : OwnRows (f.insert rid data) := by
  rw [FileOrganization.insert]
  split
  · exact h
  · intro e he row r hrow hr
    rcases List.mem_append.mp he with he | he
    · exact h e he row r hrow hr
    · rw [List.mem_singleton.mp he, decode_row_encode_row hdata] at hrow
      obtain rfl := Except.ok.inj hrow
      obtain rfl := Except.ok.inj hr
      exact hown

theorem keeps_records {α : Type} {x : FileManager.Method α} {fileId : String}
    {Q : FileOrganization Bytes → Prop}
    (hx : ∀ P : (String → FileOrganization Bytes) → Prop,
      (∀ records f, P records → (Q (records fileId) → Q f) →
        P (Function.update records fileId f)) →
        Keeps (FileManager.OnRecords P) x)
    (hfile : fileId = "SysTables" → Q = OwnRows) : Keeps Separated (onFiles x) := by
  refine keeps_on_files (fun c hc => hx _ ?_) byRecords
  intro records f hrecords hQ files hfiles
  have h := hrecords { c.files with records := records } rfl
  refine ⟨h.tables, ?_⟩
  simp only
  rw [hfiles]
  by_cases hid : fileId = "SysTables"
  · have hQ' := hQ
    rw [hfile hid, hid] at hQ'
    rw [hid, Function.update_self]
    exact hQ' h.rows
  · rw [Function.update_of_ne (Ne.symm hid)]
    exact h.rows

theorem keeps_remove (fileId : String) (rid : RID) :
    Keeps Separated (onFiles (FileManager.remove fileId rid)) := by
  refine @keeps_records _ _ fileId OwnRows (fun P hP => ?_) (fun _ => rfl)
  exact FileManager.keeps_remove fileId rid
    (fun records h => hP records _ h (fun hown => ownRows_remove hown rid))

theorem keeps_drop (fileId : String) :
    Keeps Separated (onFiles (drop fileId)) := by
  refine @keeps_records _ _ fileId OwnRows (fun P hP => ?_) (fun _ => rfl)
  exact FileManager.keeps_drop fileId (fun records h => hP records _ h (fun _ => ownRows_empty))

theorem keeps_storage (fileId : String) :
    Keeps Separated (onFiles (storage fileId)) :=
  keeps_files (fun _ => FileManager.keeps_storage fileId) byRecords

theorem keeps_insert_sys_row (hname : name ≠ "SysTables") (schema : List ColumnDef)
    (row : List Datum) :
    Keeps Separated (insertSysRow w name schema row) := by
  refine .bind (keeps_storage name) (fun _ => ?_)
  refine .bind (.lift _) (fun data => ?_)
  refine .bind ?_ (fun _ => .pure _)
  refine @keeps_records _ _ name (fun _ => True) (fun P hP => ?_) (fun h => absurd h hname)
  exact keeps_insert w.storage name data
    (fun records rid h => hP records _ h (fun _ => trivial))

theorem keeps_insert_table_row {fileId strategy : String} {position : Nat}
    (hown : reserved fileId = reserved name) :
    Keeps Separated (insertSysRow w "SysTables" SYS_TABLES_SCHEMA
      (tableRow name fileId strategy position)) := by
  refine .bind (keeps_storage _) (fun _ => ?_)
  cases hdata : encodeRow (tableRow name fileId strategy position) SYS_TABLES_SCHEMA with
  | error e => exact .lift _
  | ok data =>
      have hinsert : Keeps Separated
          (onFiles (FileManager.insert w.storage "SysTables" data)) := by
        refine @keeps_records _ _ "SysTables" OwnRows (fun P hP => ?_) (fun _ => rfl)
        exact keeps_insert w.storage "SysTables" data
          (fun records rid h => hP records _ h (fun hrows => ownRows_insert hrows rid hdata hown))
      have hrest : Keeps Separated (do
          let _ ← onFiles (FileManager.insert w.storage "SysTables" data)
          pure ()) := .bind hinsert (fun _ => .pure _)
      exact fun c hc => hrest c hc

theorem keeps_delete_sys_rows (name : String) (schema : List ColumnDef)
    (predicate : List Datum → Bool) :
    Keeps Separated (deleteSysRows w name schema predicate) := by
  refine .bind (keeps_storage name) (fun _ => ?_)
  refine .bind (keeps_scan_rows w byRecords name schema) (fun rows => ?_)
  exact .forEach (fun rid => .bind (keeps_remove name rid) (fun _ => .pure _)) _

theorem keeps_upsert_sys_row (hname : name ≠ "SysTables") (schema : List ColumnDef)
    (row : List Datum) (key : List Datum → Bool) :
    Keeps Separated (upsertSysRow w name schema row key) :=
  .bind (keeps_delete_sys_rows w name schema key)
    (fun _ => keeps_insert_sys_row w hname schema row)

theorem keeps_insert_columns (name : String) (columns : List ColumnDef) :
    Keeps Separated (insertColumns w name columns) :=
  .forEach (fun _ => keeps_insert_sys_row w (by decide) _ _) _

/-! ## Tables -/

theorem keeps_set_table {t : Table} (h : reserved t.fileId = reserved name) :
    Keeps Separated (setTable name t) := by
  refine .modify (fun c hc => ⟨?_, hc.rows⟩)
  intro name' t' ht'
  simp only at ht'
  rw [OrderedDict.get?_set] at ht'
  split at ht'
  · next heq =>
      obtain rfl := Option.some.inj ht'
      rw [heq]
      exact h
  · exact hc.tables name' t' ht'

theorem keeps_erase_table (name : String) :
    Keeps Separated (Effect.modify (fun c => { c with tables := c.tables.erase name }) :
      Method Unit) := by
  refine .modify (fun c hc => ⟨?_, hc.rows⟩)
  intro name' t' ht'
  simp only at ht'
  rw [OrderedDict.get?_erase] at ht'
  split at ht'
  · cases ht'
  · exact hc.tables name' t' ht'

theorem keeps_set_entry (tableName : String) (entry : IndexEntry) :
    Keeps Separated (setEntry tableName entry) :=
  keeps_of_untouched (fun _ _ => Untouched.keeps_set_entry tableName entry)

theorem keeps_add_key (entry : IndexEntry) (value : Datum) (rid : RID) :
    Keeps Separated (addKey w entry value rid) :=
  keeps_of_untouched (fun _ _ => Untouched.keeps_add_key w entry value rid)

theorem keeps_open_file (fileId strategy : String) :
    Keeps Separated (openFile w fileId strategy) := by
  refine .bind (keeps_storage fileId) (fun _ => ?_)
  refine .ite (.pure _) (.ite ?_ (.raise _))
  exact keeps_files (fun _ => keeps_open_sequential w.storage fileId) byRecords

theorem keeps_open_index (indexName indexType : String) :
    Keeps Separated (openIndex w indexName indexType) := by
  refine .ite (.pure _) (.bind (keeps_storage _) (fun _ => ?_))
  refine .ite ?_ (.raise _)
  exact keeps_files (fun _ => FileManager.keeps_open_index w.storage _ indexType) byRecords

theorem keeps_fill_records (schema : List ColumnDef) (position : Nat)
    (records : List (RID × Bytes)) (entry : IndexEntry) :
    Keeps Separated (fillRecords w schema position records entry) := by
  induction records generalizing entry with
  | nil => exact .pure _
  | cons e records ih =>
      refine .bind (.lift _) (fun row => ?_)
      exact .bind (keeps_add_key w entry _ e.1) (fun entry => ih entry)

theorem keeps_fill_index (t : Table) (entry : IndexEntry) :
    Keeps Separated (fillIndex w t entry) := by
  refine .bind (.lift _) (fun position => ?_)
  refine .bind (keeps_files (fun _ => keeps_scan w.storage _) byRecords)
    (fun records => ?_)
  exact keeps_fill_records w _ position records entry

/-! ## DDL -/

theorem keeps_create_table (name : String) (columns : List ColumnDef) (engine : String) :
    Keeps Separated (createTable w name columns engine) := by
  refine .bind .get (fun c => .ite (.raise _) ?_)
  by_cases hname : reserved name = true
  · rw [if_pos hname]
    exact .raise _
  · have hown : reserved ("t_" ++ name) = reserved name := by
      rw [reserved_of_t]
      exact (eq_false_of_ne_true hname).symm
    rw [if_neg hname]
    refine .ite (.raise _) (.bind (.lift _) (fun _ => ?_))
    refine .bind (keeps_open_file w _ engine) (fun _ => ?_)
    refine .bind (keeps_set_table hown) (fun _ => ?_)
    exact .bind (keeps_insert_table_row w hown) (fun _ => keeps_insert_columns w name columns)

theorem keeps_create_index (indexName tableName column indexType : String) :
    Keeps Separated (createIndex w indexName tableName column indexType) := by
  refine .bind .get (fun c => .ite (.raise _) (.ite (.raise _) ?_))
  refine .bind (keeps_table tableName) (fun t => ?_)
  refine .ite (.raise _) (.ite (.raise _) ?_)
  refine .bind (.lift _) (fun _ => ?_)
  refine .bind (keeps_open_index w indexName indexType) (fun _ => ?_)
  refine .bind (keeps_fill_index w t _) (fun entry => ?_)
  refine .bind (keeps_set_entry tableName entry) (fun _ => ?_)
  exact keeps_insert_sys_row w (by decide) _ _

theorem keeps_ranked {f : Catalog → Catalog}
    (hf : ∀ c, (f c).tables = c.tables ∧ (f c).files = c.files) :
    Keeps Separated (Effect.modify f : Method Unit) := by
  refine .modify (fun c hc => ⟨?_, ?_⟩)
  · rw [OwnFiles, (hf c).1]
    exact hc.tables
  · rw [(hf c).2]
    exact hc.rows

theorem keeps_forget_ranked (indexName : String) :
    Keeps Separated (forgetRanked w indexName) := by
  refine .bind .get (fun c => ?_)
  split
  · exact .raise _
  · refine .bind (keeps_ranked (fun _ => ⟨rfl, rfl⟩)) (fun _ => ?_)
    refine .bind (keeps_delete_sys_rows w _ _ _) (fun _ => ?_)
    exact .bind (keeps_ranked (fun _ => ⟨rfl, rfl⟩)) (fun _ => keeps_ask byRecords _)

theorem keeps_drop_entry (entry : IndexEntry) : Keeps Separated (dropEntry w entry) :=
  .bind (keeps_drop _) (fun _ => keeps_delete_sys_rows w _ _ _)

theorem keeps_drop_table (name : String) : Keeps Separated (dropTable w name) := by
  refine .ite (.raise _) (.bind (keeps_table name) (fun t => ?_))
  refine .bind ((reads w byRecords).rankedMetadataFor name) (fun ranked => ?_)
  refine .bind (.forEach (fun m => keeps_forget_ranked w _) ranked) (fun _ => ?_)
  refine .bind (.forEach (keeps_drop_entry w) _) (fun _ => ?_)
  refine .bind (keeps_delete_sys_rows w _ _ _) (fun _ => ?_)
  refine .bind (keeps_delete_sys_rows w _ _ _) (fun _ => ?_)
  exact .bind (keeps_erase_table name) (fun _ => keeps_drop _)

theorem keeps_drop_index (indexName : String) : Keeps Separated (dropIndex w indexName) := by
  intro c hc
  rw [dropIndex, run_bind_ok _ (run_get c)]
  split
  · exact keeps_forget_ranked w indexName c hc
  · cases hfind : c.tables.entries.find? (fun e => e.2.indexes.contains indexName) with
    | none => exact hc
    | some e =>
        obtain ⟨name, t⟩ := e
        have ht := OrderedDict.get?_of_mem (List.mem_of_find?_eq_some hfind)
        have hrest : Keeps Separated (do
            setTable name { t with indexes := t.indexes.erase indexName }
            deleteSysRows w "SysIndexes" SYS_INDEXES_SCHEMA (names indexName)
            onFiles (drop (indexFile indexName))) :=
          .bind (keeps_set_table (hc.tables name t ht))
            (fun _ => .bind (keeps_delete_sys_rows w _ _ _) (fun _ => keeps_drop _))
        exact hrest c hc

theorem keeps_persist_plugin_config (algorithm : String) :
    Keeps Separated (persistPluginConfig w algorithm) := by
  refine .bind (keeps_ask byRecords _) (fun row => ?_)
  split
  · exact .pure _
  · exact keeps_upsert_sys_row w (by decide) _ _ _

theorem keeps_register_ranked_index (binding : RankedMetadata) :
    Keeps Separated (registerRankedIndex w binding) := by
  refine .bind (keeps_schema _) (fun columns => .bind (.lift _) (fun _ => ?_))
  refine .bind .get (fun c => .ite (.raise _) ?_)
  refine .bind (.lift _) (fun _ => ?_)
  refine .bind (keeps_upsert_sys_row w (by decide) _ _ _) (fun _ => ?_)
  exact .bind (keeps_persist_plugin_config w _)
    (fun _ => keeps_ranked (fun _ => ⟨rfl, rfl⟩))

theorem keeps_create_ranked_index (m : RankedMetadata) :
    Keeps Separated (createRankedIndex w m) := by
  refine .ite (.raise _) (.bind (keeps_schema _) (fun columns => ?_))
  refine .bind (.lift _) (fun _ => .bind .get (fun c => ?_))
  refine .ite (.raise _) (.bind (keeps_ask byRecords _) (fun configured => ?_))
  refine .ite (.raise _) (.bind (keeps_ask byRecords _) (fun binding => ?_))
  exact .ite (.raise _) (keeps_register_ranked_index w binding)

theorem defines : Executor.Defines (api w) Separated where
  createTable := keeps_create_table w
  createIndex := keeps_create_index w
  createRankedIndex := keeps_create_ranked_index w
  createExtension name options :=
    .bind (keeps_ask byRecords _) (fun _ => keeps_upsert_sys_row w (by decide) _ _ _)
  dropTable := keeps_drop_table w
  dropIndex := keeps_drop_index w
  dropExtension name := by
    refine .bind (keeps_read_sys_rows w byRecords _ _) (fun rows => ?_)
    refine .ite (.raise _) (.bind (keeps_delete_sys_rows w _ _ _) (fun _ => ?_))
    exact keeps_ask byRecords _

/-! ## Opening a database -/

theorem wp_read_table_rows (hc : Separated c) :
    wp (readSysRows w "SysTables" SYS_TABLES_SCHEMA)
      (fun rows c' => (∀ row ∈ rows, ∀ r, readTableRow row = .ok r →
        reserved r.fileId = reserved r.tableName) ∧ Separated c')
      (fun _ c' => Separated c') c := by
  rw [readSysRows, wp_bind]
  refine wp_mono ((keeps_storage "SysTables").wp hc) (fun _ c' hc' => ?_) (fun _ _ h => h)
  simp only [scanRows, onFiles, FileManager.scan, wp_bind, wp_focus, wp_get]
  refine wp_lift.mpr ⟨fun rows hrows => ⟨?_, ?_⟩, fun e _ => ?_⟩
  · intro row hrow r hr
    obtain ⟨e, he, rfl⟩ := List.mem_map.mp hrow
    obtain ⟨e', he', hdecode⟩ := mem_mapM hrows he
    obtain ⟨row', hrow', heq⟩ := bind_eq_ok.mp hdecode
    obtain rfl := Except.ok.inj heq
    have hmem := (w.storage.order_perm _ _).mem_iff.mp he'
    exact hc'.rows e' hmem row' r hrow' hr
  · exact byRecords c' _ hc' rfl
  · exact byRecords c' _ hc' rfl

theorem keeps_register_sys_table (sysName : String) (sysSchema : List ColumnDef)
    (position : Nat) : Keeps Separated (registerSysTable w sysName sysSchema position) :=
  .bind (keeps_insert_table_row w rfl) (fun _ => keeps_insert_columns w _ _)

theorem keeps_seed_sys_metadata : Keeps Separated (seedSysMetadata w) := by
  refine .bind (keeps_open_file w _ _) (fun _ => ?_)
  refine .bind (keeps_files (fun _ => keeps_scan w.storage _) byRecords)
    (fun records => ?_)
  refine .ite (.pure _) (.forEach (fun e => ?_) _)
  exact keeps_register_sys_table w _ _ _

theorem keeps_load_table (cRows : List (List Datum)) {row : TableRow}
    (hown : reserved row.fileId = reserved row.tableName) :
    Keeps Separated (loadTable w cRows row) := by
  refine .bind (.lift _) (fun columns => ?_)
  exact .bind (keeps_open_file w _ _) (fun _ => keeps_set_table hown)

theorem keeps_load_index (row : List Datum) : Keeps Separated (loadIndex w row) := by
  have hbuild : ∀ t indexName column indexType,
      Keeps Separated (buildIndex w t indexName column indexType) := fun _ _ _ _ =>
    .bind (keeps_open_index w _ _)
      (fun _ => .ite (keeps_fill_index w _ _) (.pure _))
  unfold loadIndex
  split
  · refine .bind .get (fun c => ?_)
    split
    · exact .pure _
    · exact .bind (hbuild _ _ _ _) (fun entry => keeps_set_entry _ entry)
  · exact .raise _

theorem keeps_load : Keeps Separated (load w) := by
  refine .bind_of (fun c hc => wp_read_table_rows w hc) (fun tRows hrows => ?_)
  refine .bind (keeps_read_sys_rows w byRecords _ _) (fun cRows => ?_)
  refine .bind (keeps_read_sys_rows w byRecords _ _) (fun iRows => ?_)
  have hread : ∀ c, Separated c → wp (lift (tRows.mapM readTableRow))
      (fun rows c' => (∀ row ∈ rows, reserved row.fileId = reserved row.tableName) ∧
        Separated c') (fun _ c' => Separated c') c := by
    refine fun c hc => wp_lift.mpr ⟨fun rows h => ⟨fun r hr => ?_, hc⟩, fun _ _ => hc⟩
    obtain ⟨row, hrow, hread⟩ := mem_mapM h hr
    exact hrows row hrow r hread
  refine .bind_of hread (fun rows hown => ?_)
  refine .bind (.forEach_mem _ (fun row hrow => ?_)) (fun _ => ?_)
  · exact keeps_load_table w cRows (hown row (by simpa using hrow))
  · exact .forEach (keeps_load_index w) iRows

theorem keeps_ensure_sys_table (sysName : String) (sysSchema : List ColumnDef) :
    Keeps Separated (ensureSysTable w sysName sysSchema) := by
  refine .bind .get (fun c => .ite (.pure _) ?_)
  refine .bind (keeps_register_sys_table w _ _ _) (fun _ => ?_)
  exact .bind (keeps_open_file w _ _) (fun _ => keeps_set_table rfl)

theorem keeps_seed_types : Keeps Separated (seedTypes w) := by
  refine .bind (keeps_read_sys_rows w byRecords _ _) (fun rows => ?_)
  exact .ite (.pure _)
    (.forEach (fun row => keeps_insert_sys_row w (by decide) _ row) _)

theorem keeps_migrate_ranked_metadata : Keeps Separated (migrateRankedMetadata w) := by
  refine .bind (keeps_read_sys_rows w byRecords _ _) (fun rows => ?_)
  refine .ite (.pure _) ?_
  refine .bind (keeps_read_sys_rows w byRecords _ _) (fun legacy => ?_)
  refine .forEach (fun row => .bind (.lift _) (fun m => ?_)) legacy
  exact keeps_insert_sys_row w (by decide) _ _

theorem keeps_load_ranked (row : List Datum) : Keeps Separated (loadRanked w row) := by
  refine .bind (.lift _) (fun m => .bind (keeps_schema _) (fun columns => ?_))
  refine .bind (.lift _) (fun _ => .bind .get (fun c => ?_))
  refine .ite (.raise _) ?_
  refine .bind (keeps_ranked (fun _ => ⟨rfl, rfl⟩)) (fun _ => ?_)
  refine .bind (keeps_ask byRecords _) (fun configured => .ite (.pure _) ?_)
  refine .bind (keeps_ask byRecords _) (fun binding => .bind (.lift _) (fun _ => ?_))
  exact .ite (.raise _) (keeps_ranked (fun _ => ⟨rfl, rfl⟩))

/-- Opening a database keeps its tables in files of their own. -/
theorem keeps_init : Keeps Separated (init w) := by
  refine .bind (keeps_seed_sys_metadata w) (fun _ => ?_)
  refine .bind (keeps_load w) (fun _ => ?_)
  refine .bind (.forEach (fun e => keeps_ensure_sys_table w _ _) _) (fun _ => ?_)
  refine .bind (keeps_seed_types w) (fun _ => ?_)
  refine .bind ?_ (fun _ => ?_)
  · exact .bind (keeps_read_sys_rows w byRecords _ _) (fun _ => keeps_ask byRecords _)
  · refine .bind (keeps_migrate_ranked_metadata w) (fun _ => ?_)
    refine .bind (keeps_read_sys_rows w byRecords _ _) (fun rows => ?_)
    exact .forEach (keeps_load_ranked w) rows

theorem of_blank {files : FileManager} (h : OwnRows (files.records "SysTables")) :
    Separated (blank files) := by
  refine ⟨?_, h⟩
  rintro name t ⟨⟩

theorem of_init_empty (h : (init w (blank empty)).2 = c) : Separated c := by
  rw [← h]
  exact keeps_init w _ (of_blank ownRows_empty)

theorem of_reopen (hc : Separated c) : Separated (reopen w c).2 :=
  keeps_init w _ (of_blank hc.rows)

end Separated
end Catalog
end SoupDB
