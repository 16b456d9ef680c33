import SoupDB.Query.ExecutorFrame

/-!
# SoupDB: what the methods of a catalog leave alone

`Untouched` relates two states of a catalog with the same layouts of tables and the same
records in the files of system tables.  Reading a catalog leaves it untouched, and so does
writing rows of a table whose name is not reserved, in a catalog whose tables are in files of
their own (`OwnFiles`).
-/

namespace SoupDB

open Effect

/-! ## Names of files -/

theorem reserved_of_t (name : String) : reserved ("t_" ++ name) = false := by
  have hlist : ("t_" ++ name).toList = 't' :: '_' :: name.toList := by
    rw [String.toList_append]
    rfl
  rw [reserved, hlist]
  rfl

theorem ne_of_reserved {id id' : String} (h : reserved id = true) (h' : reserved id' = false) :
    id ≠ id' := by
  rintro rfl
  rw [h] at h'
  cases h'

/-! ## Files -/

namespace FileManager

variable (w : Storage) {P : (String → FileOrganization Bytes) → Prop}

def OnRecords (P : (String → FileOrganization Bytes) → Prop) (m : FileManager) : Prop :=
  P m.records

theorem keeps_ask {α : Type} (answer : Nat → Except PyError α) :
    Keeps (OnRecords P) (ask answer) := fun _ h => h

theorem keeps_storage (fileId : String) : Keeps (OnRecords P) (storage fileId) := by
  refine .modify (fun m h => ?_)
  split
  · exact h
  · exact h

theorem keeps_scan (fileId : String) : Keeps (OnRecords P) (scan w fileId) :=
  .bind .get (fun _ => keeps_ask _)

theorem keeps_fetch (fileId : String) (rid : RID) : Keeps (OnRecords P) (fetch fileId rid) :=
  .bind .get (fun _ => .pure _)

theorem keeps_open_sequential (fileId : String) :
    Keeps (OnRecords P) (openSequential w fileId) :=
  .bind .get (fun _ => keeps_ask _)

theorem keeps_set_index (fileId : String) (i : Index) :
    Keeps (OnRecords P) (setIndex fileId i) := .modify (fun _ h => h)

theorem keeps_open_index (fileId indexType : String) :
    Keeps (OnRecords P) (openIndex w fileId indexType) := by
  refine .bind .get (fun m => ?_)
  split
  · exact .modify (fun _ h => h)
  · exact .ite (.pure _) (.raise _)

theorem keeps_index_insert (i : Index) (key : Datum) (rid : RID) :
    Keeps (OnRecords P) (indexInsert w i key rid) := by
  refine .bind (.lift _) (fun k => ?_)
  exact .ite (.pure _) (.bind (keeps_ask _) (fun _ => .pure _))

theorem keeps_index_remove (i : Index) (key : Datum) (rid : RID) :
    Keeps (OnRecords P) (indexRemove w i key rid) :=
  .bind (.lift _) (fun _ => .pure _)

theorem keeps_insert (fileId : String) (data : Bytes)
    (hadd : ∀ records rid, P records →
      P (Function.update records fileId ((records fileId).insert rid data))) :
    Keeps (OnRecords P) (insert w fileId data) := by
  refine .bind .get (fun m => ?_)
  refine .bind (keeps_ask _) (fun rid => ?_)
  exact .bind (.modify (fun m h => hadd m.records rid h)) (fun _ => .pure _)

theorem keeps_remove (fileId : String) (rid : RID)
    (hdel : ∀ records, P records →
      P (Function.update records fileId ((records fileId).remove rid))) :
    Keeps (OnRecords P) (remove fileId rid) := by
  refine .bind .get (fun m => ?_)
  exact .bind (.modify (fun m h => hdel m.records h)) (fun _ => .pure _)

theorem keeps_drop (fileId : String)
    (hdrop : ∀ records, P records →
      P (Function.update records fileId FileOrganization.empty)) :
    Keeps (OnRecords P) (drop fileId) := by
  refine .modify (fun m h => ?_)
  split
  · exact hdrop m.records h
  · exact h

end FileManager

namespace Catalog

variable (w : World) {I : Catalog → Prop}

/-- A property that depends on the files only through their records. -/
def ByRecords (I : Catalog → Prop) : Prop :=
  ∀ c files, I c → files.records = c.files.records → I { c with files }

theorem keeps_on_files {α : Type} {x : FileManager.Method α}
    (hx : ∀ c, I c → Keeps (FileManager.OnRecords (fun records =>
      ∀ files, files.records = records → I { c with files })) x)
    (hI : ByRecords I) : Keeps I (onFiles x) := by
  intro c hc
  exact hx c hc c.files (fun files hfiles => hI c files hc hfiles) _ rfl

/-- The files are asked, opened or scanned. -/
theorem keeps_files {α : Type} {x : FileManager.Method α}
    (hx : ∀ P, Keeps (FileManager.OnRecords P) x) (hI : ByRecords I) : Keeps I (onFiles x) :=
  keeps_on_files (fun _ _ => hx _) hI

section Reads

variable (hI : ByRecords I)
include hI

theorem keeps_ask {α : Type} (answer : Nat → Except PyError α) : Keeps I (ask answer) :=
  keeps_files (fun _ => FileManager.keeps_ask answer) hI

omit hI in
theorem keeps_table (name : String) : Keeps I (table name) := by
  refine .bind .get (fun c => ?_)
  split
  · exact .pure _
  · exact .raise _

omit hI in
theorem keeps_schema (name : String) : Keeps I (schema name) :=
  .bind (keeps_table name) (fun _ => .pure _)

theorem keeps_scan_rows (fileId : String) (schema : List ColumnDef) :
    Keeps I (scanRows w fileId schema) :=
  .bind (keeps_files (fun _ => FileManager.keeps_scan w.storage fileId) hI)
    (fun _ => .lift _)

theorem keeps_read_sys_rows (name : String) (schema : List ColumnDef) :
    Keeps I (readSysRows w name schema) := by
  refine .bind (keeps_files (fun _ => FileManager.keeps_storage name) hI) (fun _ => ?_)
  exact .bind (keeps_scan_rows w hI name schema) (fun _ => .pure _)

/-- Reading a catalog keeps every property of its tables and the records of its files. -/
theorem reads : Executor.Reads (api w) I where
  ask := keeps_ask hI
  schema := keeps_schema
  fileOrg name := .bind (keeps_table name) (fun _ => .pure _)
  indexesFor name _ := .bind (keeps_table name) (fun _ => .pure _)
  rankedMetadataFor name :=
    .bind (keeps_table name) (fun _ => .bind .get (fun _ => .pure _))
  rankedIndexesFor name :=
    .bind (keeps_table name) (fun _ => .bind .get (fun _ => .pure _))
  indexLocation indexName := by
    refine .bind .get (fun c => ?_)
    split
    · exact .pure _
    · exact .pure _
  pluginCapabilities name := keeps_ask hI _
  validatePluginOptions := by
    rintro validate hvalidate name options
    obtain rfl := Option.some.inj hvalidate
    exact keeps_ask hI _
  rankedFactory := keeps_ask hI _
  extensionConfigured name :=
    .bind (keeps_read_sys_rows w hI _ _) (fun _ => .pure _)

end Reads

/-! ## Rows of a table -/

/-- Where the rows of a table are and how they read. -/
def layout (t : Table) : List ColumnDef × String := (t.schema, t.fileId)

/-- The layouts of the tables and the records of the system tables are as before. -/
structure Untouched (before c : Catalog) : Prop where
  layouts : ∀ name, (c.tables.get? name).map layout = (before.tables.get? name).map layout
  records : ∀ id, reserved id = true → c.files.records id = before.files.records id

/-- The tables in files of system tables are the system tables. -/
def OwnFiles (c : Catalog) : Prop :=
  ∀ name t, c.tables.get? name = some t → reserved t.fileId = reserved name

namespace Untouched

variable {before c : Catalog}

theorem refl (c : Catalog) : Untouched c c := ⟨fun _ => rfl, fun _ _ => rfl⟩

theorem byRecords (before : Catalog) : ByRecords (Untouched before) := by
  intro c files h hfiles
  refine ⟨h.layouts, fun id hid => ?_⟩
  rw [hfiles]
  exact h.records id hid

variable {name : String}

theorem table_before (h : Untouched before c) {t : Table} (ht : c.tables.get? name = some t) :
    ∃ t', before.tables.get? name = some t' ∧ t'.schema = t.schema ∧ t'.fileId = t.fileId := by
  have hlayout := h.layouts name
  rw [ht, Option.map_some, eq_comm, Option.map_eq_some_iff] at hlayout
  obtain ⟨t', ht', heq⟩ := hlayout
  exact ⟨t', ht', (Prod.mk.inj heq).1, (Prod.mk.inj heq).2⟩

theorem ownFiles (h : Untouched before c) (hown : OwnFiles before) : OwnFiles c := by
  intro name t ht
  obtain ⟨t', ht', -, hid⟩ := h.table_before ht
  rw [← hid]
  exact hown name t' ht'

/-- Records of a file that is not of a system table may change. -/
theorem keeps_write {α : Type} {x : FileManager.Method α} {fileId : String}
    (hid : reserved fileId = false)
    (hx : ∀ P : (String → FileOrganization Bytes) → Prop,
      (∀ records f, P records → P (Function.update records fileId f)) →
        Keeps (FileManager.OnRecords P) x) :
    Keeps (Untouched before) (onFiles x) := by
  refine keeps_on_files (fun c hc => hx _ ?_) (byRecords before)
  intro records f hrecords files hfiles
  have h := hrecords { c.files with records := records } rfl
  refine ⟨h.layouts, fun id hres => ?_⟩
  have hrec := h.records id hres
  simp only at hrec ⊢
  rw [hfiles, Function.update_of_ne (ne_of_reserved hres hid), hrec]

theorem keeps_with_table {α : Type} {f : Table → Method α} (hown : OwnFiles before)
    (hname : reserved name = false)
    (hf : ∀ t, reserved t.fileId = false → Keeps (Untouched before) (f t)) :
    Keeps (Untouched before) (table name >>= f) := by
  intro c hc
  rw [table, run_bind, run_bind_ok _ (run_get c)]
  cases ht : c.tables.get? name with
  | none => exact hc
  | some t =>
      refine hf t ?_ c hc
      rw [hc.ownFiles hown name t ht]
      exact hname

theorem keeps_set_entry (tableName : String) (entry : IndexEntry) :
    Keeps (Untouched before) (setEntry tableName entry) := by
  refine .modify (fun c hc => ?_)
  cases ht : c.tables.get? tableName with
  | none => exact hc
  | some t =>
      refine ⟨fun name => ?_, hc.records⟩
      rw [← hc.layouts name]
      simp only
      rw [OrderedDict.get?_set]
      split
      · next hname =>
          subst hname
          rw [ht]
          rfl
      · rfl

theorem keeps_set_index (entry : IndexEntry) (i : Index) :
    Keeps (Untouched before) (setIndex entry i) := by
  refine .ite (.pure _) (.bind ?_ (fun _ => .pure _))
  exact keeps_files (fun _ => FileManager.keeps_set_index _ i) (byRecords before)

theorem keeps_add_key (entry : IndexEntry) (value : Datum) (rid : RID) :
    Keeps (Untouched before) (addKey w entry value rid) := by
  refine .ite (.pure _) (.bind .get (fun c => ?_))
  refine .bind ?_ (fun i => keeps_set_index entry i)
  exact keeps_files (fun _ => FileManager.keeps_index_insert w.storage _ value rid)
    (byRecords before)

theorem keeps_remove_key (entry : IndexEntry) (value : Datum) (rid : RID) :
    Keeps (Untouched before) (removeKey w entry value rid) := by
  refine .ite (.pure _) (.bind .get (fun c => ?_))
  refine .bind ?_ (fun i => keeps_set_index entry i)
  exact keeps_files (fun _ => FileManager.keeps_index_remove w.storage _ value rid)
    (byRecords before)

/-- Writing rows of a table whose name is not reserved touches no system table. -/
theorem writes (hown : OwnFiles before) (hname : reserved name = false) :
    Executor.Writes (api w) (Untouched before) name where
  insert data := keeps_with_table hown hname (fun t ht => keeps_write ht (fun _ hP =>
    FileManager.keeps_insert w.storage t.fileId data (fun records _ h => hP records _ h)))
  remove rid := keeps_with_table hown hname (fun t ht => keeps_write ht (fun _ hP =>
    FileManager.keeps_remove t.fileId rid (fun records h => hP records _ h)))
  scan := keeps_with_table hown hname (fun t _ =>
    keeps_files (fun _ => FileManager.keeps_scan w.storage t.fileId) (byRecords before))
  insertKey entry value rid :=
    .bind (keeps_add_key w entry value rid) (fun entry => keeps_set_entry name entry)
  removeKey entry value rid :=
    .bind (keeps_remove_key w entry value rid) (fun entry => keeps_set_entry name entry)

end Untouched

end Catalog
end SoupDB
