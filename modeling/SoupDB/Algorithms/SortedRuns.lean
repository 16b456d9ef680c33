import SoupDB.Algorithms.ExternalSort
import SoupDB.Lib.Effect

/-!
# SoupDB: merging sorted runs of a caller

`mergeSortedRuns` on what the runs hold, and on the files themselves: a merge opens the
files of a group and writes another in a temporary directory, and a pass removes the files
of that directory that it merged.

Main facts: `merge_sorted_run_files_eq` (the files of the caller are left as they were, and
the result is that of the runs they hold) and `external_sort_exact`.
-/

namespace SoupDB.ExternalSort

open Effect RecordFile List

/-! ## Runs as byte strings -/

/-- `writeSortedRun`: the file of records that come one by one, each checked not to come
before the one before it. -/
def writeCheckedRun (comparator : Comparator) :
    Option Record → List (Except PyError Record) → Except PyError Bytes
  | _, [] => .ok []
  | previous, next :: records => do
      let record ← next
      let disorder ← match previous with
        | none => .ok false
        | some p => do
            let c ← comparator p record
            .ok (decide (0 < c))
      if disorder then .error (.ValueError "run records must be sorted")
      else do
        let bytes ← writeRecord "external-sort run" record
        let rest ← writeCheckedRun comparator (some record) records
        .ok (bytes ++ rest)

/-- Merge sorted runs without changing inputs. -/
def mergeSortedRuns (comparator : Comparator) (fanIn : Int) (runs : List Bytes) :
    Except PyError (List Record) :=
  if hfanIn : fanIn < 2 then
    .error (.ValueError "fan_in must be an integer of at least 2")
  else if runs = [] then .ok []
  else do
    let run ← mergePasses comparator fanIn.toNat (fan_in_ok hfanIn) runs
    readRecords "external-sort" run

/-! ## Runs as files -/

/-- The path of a file: its directory and its name. -/
structure Path where
  parent : String
  name : String
deriving DecidableEq

/-- What each path holds, if there is a file. -/
abbrev Files := Path → Option Bytes

/-- What is raised over files: an exception of the merge, or a `FileNotFoundError`. -/
inductive FileError
  | raised (e : PyError)
  | notFound (path : Path)

def computed {α : Type} : Except PyError α → Effect FileError Files α
  | .ok a => pure a
  | .error e => raise (.raised e)

def openRun (path : Path) : Effect FileError Files Bytes := fun files =>
  match files path with
  | some bytes => (.ok bytes, files)
  | none => (.error (.notFound path), files)

def writeFile (path : Path) (bytes : Bytes) : Effect FileError Files Unit :=
  Effect.modify (fun files => Function.update files path (some bytes))

/-- `path.unlink()`. -/
def unlink (path : Path) : Effect FileError Files Unit := fun files =>
  match files path with
  | some _ => (.ok (), Function.update files path none)
  | none => (.error (.notFound path), files)

def openRuns : List Path → Effect FileError Files (List Bytes)
  | [] => pure []
  | path :: paths => do
      let bytes ← openRun path
      let rest ← openRuns paths
      pure (bytes :: rest)

section Passes

variable (comparator : Comparator) (workdir : String)

/-- `_merge_runs(inputs, output)`. -/
def mergeFiles (inputs : List Path) (output : Path) : Effect FileError Files Unit := do
  let files ← openRuns inputs
  let bytes ← computed (mergeRuns comparator files)
  writeFile output bytes

def outputPath (passNumber groupNumber : Nat) : Path :=
  ⟨workdir, s!"pass-{passNumber}-run-{groupNumber}.bin"⟩

def groupOutput (passNumber groupNumber : Nat) : List Path → Path
  | [run] => run
  | _ => outputPath workdir passNumber groupNumber

/-- Merge a group; a group of one run is left as it is. -/
def mergeFileGroup (passNumber groupNumber : Nat) : List Path → Effect FileError Files Unit
  | [_] => pure ()
  | group => mergeFiles comparator group (outputPath workdir passNumber groupNumber)

/-- The files of the groups from a number on, after the pass. -/
def outputs (passNumber : Nat) : Nat → List (List Path) → List Path
  | _, [] => []
  | groupNumber, group :: groups =>
      groupOutput workdir passNumber groupNumber group ::
        outputs passNumber (groupNumber + 1) groups

def mergeGroups (passNumber : Nat) : Nat → List (List Path) → Effect FileError Files Unit
  | _, [] => pure ()
  | groupNumber, group :: groups => do
      mergeFileGroup comparator workdir passNumber groupNumber group
      mergeGroups passNumber (groupNumber + 1) groups

/-- Remove the files of the temporary directory that were merged. -/
def removeMerged (kept runs : List Path) : Effect FileError Files Unit :=
  forEach
    (fun path => if path.parent = workdir ∧ path ∉ kept then unlink path else pure ()) runs

variable {workdir} in
theorem length_outputs (passNumber : Nat) (groupNumber : Nat) (groups : List (List Path)) :
    (outputs workdir passNumber groupNumber groups).length = groups.length := by
  induction groups generalizing groupNumber with
  | nil => rfl
  | cons group groups ih => rw [outputs, length_cons, length_cons, ih]

/-- Passes over the files until one is left. -/
def mergeFilePasses (fanIn : Nat) (hfanIn : 2 ≤ fanIn) (passNumber : Nat)
    (runs : List Path) : Effect FileError Files (List Path) :=
  if _hmany : runs.length > 1 then do
    let groups := slices fanIn runs
    mergeGroups comparator workdir passNumber 0 groups
    let merged := outputs workdir passNumber 0 groups
    removeMerged workdir merged runs
    mergeFilePasses fanIn hfanIn (passNumber + 1) merged
  else pure runs
termination_by runs.length
decreasing_by
  rw [length_outputs]
  exact length_slices_lt hfanIn _hmany

/-- The body of the `with`: the records of the last run. -/
def mergedRecords (fanIn : Nat) (hfanIn : 2 ≤ fanIn) (paths : List Path) :
    Effect FileError Files (List Record) := do
  let runs ← mergeFilePasses comparator workdir fanIn hfanIn 0 paths
  match runs with
  | [] => pure []
  | run :: _ => do
      let bytes ← openRun run
      computed (readRecords "external-sort" bytes)

/-- The temporary directory is removed with its files, whatever the outcome. -/
def withDirectory {α : Type} (x : Effect FileError Files α) : Effect FileError Files α :=
  fun files => ((x files).1, fun path => if path.parent = workdir then none else (x files).2 path)

/-- `mergeSortedRuns` on files; `workdir` is the temporary directory it makes. -/
def mergeSortedRunFiles (fanIn : Int) (paths : List Path) :
    Effect FileError Files (List Record) :=
  if hfanIn : fanIn < 2 then
    raise (.raised (.ValueError "fan_in must be an integer of at least 2"))
  else withDirectory workdir (mergedRecords comparator workdir fanIn.toNat (fan_in_ok hfanIn) paths)

end Passes

/-! ## The files of the caller -/

variable {comparator : Comparator} {workdir : String}

/-- Outside the temporary directory the files are these. -/
def Outside (workdir : String) (before files : Files) : Prop :=
  ∀ path, path.parent ≠ workdir → files path = before path

theorem computed_keeps {α : Type} (before : Files) (x : Except PyError α) :
    Effect.Keeps (Outside workdir before) (computed x) := by
  cases x with
  | error e => exact Effect.Keeps.raise _
  | ok a => exact Effect.Keeps.pure a

theorem open_run_keeps (before : Files) (path : Path) :
    Effect.Keeps (Outside workdir before) (openRun path) := by
  intro files h
  rw [openRun]
  split
  · exact h
  · exact h

theorem open_runs_keeps (before : Files) (paths : List Path) :
    Effect.Keeps (Outside workdir before) (openRuns paths) := by
  induction paths with
  | nil => exact Effect.Keeps.pure _
  | cons path paths ih =>
      exact (open_run_keeps before path).bind (fun _ => ih.bind (fun _ => Effect.Keeps.pure _))

variable {files : Files} {fanIn passNumber : Nat} {paths : List Path} {contents : List Bytes}
    {groups : List (List Path)} {what : String} {D : Record → Prop}

theorem outside_update {before : Files} (h : Outside workdir before files) {path : Path}
    (hpath : path.parent = workdir) (bytes : Option Bytes) :
    Outside workdir before (Function.update files path bytes) := by
  intro other hother
  have hne : other ≠ path := by
    rintro rfl
    exact hother hpath
  rw [Function.update_of_ne hne]
  exact h other hother

theorem merge_groups_keeps (before : Files) (passNumber groupNumber : Nat)
    (groups : List (List Path)) :
    Effect.Keeps (Outside workdir before)
      (mergeGroups comparator workdir passNumber groupNumber groups) := by
  induction groups generalizing groupNumber with
  | nil => exact Effect.Keeps.pure ()
  | cons group groups ih =>
      refine Effect.Keeps.bind ?_ (fun _ => ih (groupNumber + 1))
      have hmerge : ∀ group, Effect.Keeps (Outside workdir before)
          (mergeFiles comparator group (outputPath workdir passNumber groupNumber)) := by
        intro group
        refine (open_runs_keeps before _).bind (fun _ =>
          (computed_keeps before _).bind (fun _ => ?_))
        exact Effect.Keeps.modify (fun files h => outside_update h rfl _)
      match group with
      | [] => exact hmerge []
      | [_] => exact Effect.Keeps.pure ()
      | a :: b :: rest => exact hmerge (a :: b :: rest)

theorem remove_merged_keeps (before : Files) (kept runs : List Path) :
    Effect.Keeps (Outside workdir before) (removeMerged workdir kept runs) := by
  refine Effect.Keeps.forEach (fun path => ?_) runs
  intro files h
  split
  · next hmerged =>
      rw [unlink]
      split
      · exact outside_update h hmerged.1 none
      · exact h
  · exact h

theorem merge_file_passes_keeps (before : Files) (hfanIn : 2 ≤ fanIn) (passNumber : Nat)
    (runs : List Path) :
    Effect.Keeps (Outside workdir before)
      (mergeFilePasses comparator workdir fanIn hfanIn passNumber runs) := by
  induction passNumber, runs using mergeFilePasses.induct workdir fanIn hfanIn with
  | case1 passNumber runs hmany groups ih =>
      rw [mergeFilePasses, dif_pos hmany]
      exact (merge_groups_keeps before _ _ _).bind
        (fun _ => (remove_merged_keeps before _ _).bind (fun _ => ih))
  | case2 passNumber runs hone =>
      rw [mergeFilePasses, dif_neg hone]
      exact Effect.Keeps.pure runs

theorem merged_records_keeps (before : Files) {fanIn : Nat} (hfanIn : 2 ≤ fanIn)
    (paths : List Path) :
    Effect.Keeps (Outside workdir before)
      (mergedRecords comparator workdir fanIn hfanIn paths) := by
  refine (merge_file_passes_keeps before hfanIn 0 paths).bind (fun runs => ?_)
  cases runs with
  | nil => exact Effect.Keeps.pure []
  | cons run runs => exact (open_run_keeps before run).bind (fun _ => computed_keeps before _)

/-- Whatever the outcome, the files are what they were before the temporary directory. -/
theorem merge_sorted_run_files_kept (comparator : Comparator) {workdir : String} (fanIn : Int)
    (paths : List Path) (hfresh : ∀ path, path.parent = workdir → files path = none) :
    (mergeSortedRunFiles comparator workdir fanIn paths files).2 = files := by
  rw [mergeSortedRunFiles]
  split
  · rfl
  · next hfanIn =>
      have hkept := @merged_records_keeps comparator workdir files _
        (by omega : 2 ≤ fanIn.toNat) paths files (fun _ _ => rfl)
      funext path
      simp only [withDirectory]
      split
      · next hpath => rw [hfresh path hpath]
      · next hpath => exact hkept path hpath

/-! ## The names of the outputs -/

theorem digits_inj {n m : Nat} {c d : Char} {s t : List Char} (hc : c.isDigit = false)
    (hd : d.isDigit = false) (h : Nat.toDigits 10 n ++ c :: s = Nat.toDigits 10 m ++ d :: t) :
    n = m ∧ s = t := by
  have hdigits : ∀ k, ∀ e ∈ Nat.toDigits 10 k, e.isDigit = true :=
    fun k e he => Nat.isDigit_of_mem_toDigits (by decide) (by decide) he
  have htake := congrArg (takeWhile Char.isDigit) h
  rw [takeWhile_append_of_pos (hdigits n), takeWhile_append_of_pos (hdigits m),
    takeWhile_cons_of_neg (by rw [hc]; decide), takeWhile_cons_of_neg (by rw [hd]; decide),
    append_nil, append_nil] at htake
  have hnm := congrArg (fun digits => Nat.ofDigitChars 10 digits 0) htake
  simp only [Nat.ofDigitChars_ten_toDigits] at hnm
  rw [htake, append_cancel_left_eq, List.cons.injEq] at h
  exact ⟨hnm, h.2⟩

theorem toList_output_name (k g : Nat) : (outputPath workdir k g).name.toList =
    "pass-".toList ++ (Nat.toDigits 10 k ++
      '-' :: ("run-".toList ++ (Nat.toDigits 10 g ++ '.' :: "bin".toList))) := by
  simp [outputPath, toString, String.toList_append, Nat.toList_repr]

/-- Outputs of different passes, or different groups, are different files. -/
theorem output_path_inj {k k' g g' : Nat}
    (h : outputPath workdir k g = outputPath workdir k' g') : k = k' ∧ g = g' := by
  have hname := congrArg (fun path => path.name.toList) h
  simp only [toList_output_name, append_cancel_left_eq] at hname
  obtain ⟨hk, hrest⟩ := digits_inj (by decide) (by decide) hname
  rw [append_cancel_left_eq] at hrest
  exact ⟨hk, (digits_inj (by decide) (by decide) hrest).1⟩

/-! ## One pass -/

/-- The files of the paths hold these byte strings. -/
def Hold (files : Files) (paths : List Path) (contents : List Bytes) : Prop :=
  List.Forall₂ (fun path bytes => files path = some bytes) paths contents

theorem Hold.congr {files' : Files} (h : Hold files paths contents)
    (hsame : ∀ path ∈ paths, files' path = files path) :
    Hold files' paths contents := by
  induction h with
  | nil => exact List.Forall₂.nil
  | cons hpath _ ih =>
      obtain ⟨hhead, htail⟩ := forall_mem_cons.mp hsame
      exact List.Forall₂.cons (hhead.trans hpath) (ih htail)

theorem open_runs_ok (h : Hold files paths contents) :
    openRuns paths files = (.ok contents, files) := by
  induction h with
  | nil => rfl
  | @cons path bytes paths contents hpath _ ih =>
      have hopen : openRun path files = (.ok bytes, files) := by
        rw [openRun, hpath]
      rw [openRuns, run_bind_ok _ hopen, run_bind_ok _ ih]
      rfl

theorem merge_files_eq {files : Files} {inputs : List Path} {contents : List Bytes}
    (h : Hold files inputs contents) (output : Path) :
    mergeFiles comparator inputs output files =
      match mergeRuns comparator contents with
      | .ok bytes => (.ok (), Function.update files output (some bytes))
      | .error e => (.error (.raised e), files) := by
  rw [mergeFiles, run_bind_ok _ (open_runs_ok h)]
  cases mergeRuns comparator contents with
  | error e => rfl
  | ok bytes => rfl

theorem merge_file_group_eq {group : List Path} (h : Hold files group contents)
    (passNumber groupNumber : Nat) :
    wp (mergeFileGroup comparator workdir passNumber groupNumber group)
      (fun _ files' => ∃ out, mergeGroup comparator contents = .ok out ∧
        files' (groupOutput workdir passNumber groupNumber group) = some out ∧
        ∀ path, path ≠ outputPath workdir passNumber groupNumber → files' path = files path)
      (fun e _ => ∃ e', e = .raised e' ∧ mergeGroup comparator contents = .error e')
      files := by
  have hmerged : wp
      (mergeFiles comparator group (outputPath workdir passNumber groupNumber))
      (fun _ files' => ∃ out, mergeRuns comparator contents = .ok out ∧
        files' (outputPath workdir passNumber groupNumber) = some out ∧
        ∀ path, path ≠ outputPath workdir passNumber groupNumber → files' path = files path)
      (fun e files' => ∃ e', e = .raised e' ∧ mergeRuns comparator contents = .error e')
      files := by
    have heq := @merge_files_eq comparator files group contents h
      (outputPath workdir passNumber groupNumber)
    cases hruns : mergeRuns comparator contents with
    | error e =>
        rw [hruns] at heq
        exact wp_of_error heq ⟨e, rfl, rfl⟩
    | ok bytes =>
        rw [hruns] at heq
        refine wp_of_ok heq ⟨bytes, rfl, Function.update_self .., ?_⟩
        intro path hpath
        exact Function.update_of_ne hpath _ _
  match group, contents, h with
  | [], [], _ => exact hmerged
  | [run], [bytes], .cons hrun .nil => exact ⟨bytes, rfl, hrun, fun _ _ => rfl⟩
  | _ :: _ :: _, _ :: _ :: _, _ => exact hmerged

theorem merge_groups_eq :
    ∀ {files : Files} {contents : List (List Bytes)} (groupNumber : Nat),
      List.Forall₂ (Hold files) groups contents →
      (∀ group ∈ groups, ∀ path ∈ group, ∀ g, path ≠ outputPath workdir passNumber g) →
      wp (mergeGroups comparator workdir passNumber groupNumber groups)
        (fun _ files' => ∃ outs, contents.mapM (mergeGroup comparator) = .ok outs ∧
          Hold files' (outputs workdir passNumber groupNumber groups) outs ∧
          ∀ path, (∀ g, groupNumber ≤ g → path ≠ outputPath workdir passNumber g) →
            files' path = files path)
        (fun e _ => ∃ e', e = .raised e' ∧ contents.mapM (mergeGroup comparator) = .error e')
        files := by
  induction groups with
  | nil =>
      intro files contents groupNumber h _
      cases h
      exact ⟨[], rfl, List.Forall₂.nil, fun _ _ => rfl⟩
  | cons group groups ih =>
      intro files contents groupNumber h hfresh
      obtain ⟨bytes, rest, hgroup, hgroups, rfl⟩ := forall₂_cons_left_iff.mp h
      obtain ⟨hfresh, hrest⟩ := forall_mem_cons.mp hfresh
      rw [mergeGroups, wp_bind]
      refine wp_mono (merge_file_group_eq hgroup passNumber groupNumber) ?_ ?_
      · rintro _ files₁ ⟨out, hout, hholds, hsame⟩
        -- the other groups still hold what they did
        have hgroups₁ : List.Forall₂ (Hold files₁) groups rest := by
          refine forall₂_iff_get.mpr ⟨hgroups.length_eq, fun i hi hi' => ?_⟩
          refine Hold.congr ((forall₂_iff_get.mp hgroups).2 i hi hi') ?_
          intro path hpath
          exact hsame path (hrest _ (get_mem _ _) path hpath groupNumber)
        refine wp_mono (ih (groupNumber + 1) hgroups₁ hrest) ?_ ?_
        · rintro _ files₂ ⟨outs, houts, hholds₂, hsame₂⟩
          refine ⟨out :: outs, ?_, List.Forall₂.cons ?_ hholds₂, ?_⟩
          · rw [mapM_cons, hout, ok_bind, houts, ok_bind]
            rfl
          · rw [hsame₂, hholds]
            intro g hg
            match group with
            | [run] => exact hfresh run mem_cons_self g
            | [] =>
                intro heq
                have := (output_path_inj heq).2
                omega
            | _ :: _ :: _ =>
                intro heq
                have := (output_path_inj heq).2
                omega
          · intro path hpath
            rw [hsame₂ path (fun g hg => hpath g (by omega)),
              hsame path (hpath groupNumber (le_refl _))]
        · rintro e _ ⟨e', rfl, herror⟩
          exact ⟨e', rfl, by rw [mapM_cons, hout, ok_bind, herror, error_bind]⟩
      · rintro e _ ⟨e', rfl, herror⟩
        exact ⟨e', rfl, by rw [mapM_cons, herror, error_bind]⟩

/-- The kept files are left when the others of the temporary directory are removed. -/
theorem remove_merged_eq {kept runs : List Path} :
    ∀ {files : Files}, (∀ path ∈ runs, files path ≠ none) →
      (runs.filter (fun path => path.parent = workdir)).Nodup →
      wp (removeMerged workdir kept runs)
        (fun _ files' => ∀ path ∈ kept, files' path = files path) (fun _ _ => False) files := by
  induction runs with
  | nil =>
      intro files _ _
      exact fun _ _ => rfl
  | cons run runs ih =>
      intro files hexist hdistinct
      obtain ⟨hrun, hrest⟩ := forall_mem_cons.mp hexist
      rw [removeMerged, forEach, wp_bind]
      have hdistinct' : (runs.filter (fun path => path.parent = workdir)).Nodup :=
        hdistinct.sublist ((sublist_cons_self run runs).filter _)
      split
      · next hremoved =>
          obtain ⟨bytes, hbytes⟩ := Option.ne_none_iff_exists'.mp hrun
          have hunlink : unlink run files = (.ok (), Function.update files run none) := by
            rw [unlink, hbytes]
          refine wp_of_ok hunlink ?_
          have hnot : run ∉ runs := by
            rw [filter_cons_of_pos (by simpa using hremoved.1)] at hdistinct
            intro hmem
            exact (nodup_cons.mp hdistinct).1
              (mem_filter.mpr ⟨hmem, by simpa using hremoved.1⟩)
          refine wp_mono (ih ?_ hdistinct') ?_ (fun _ _ => id)
          · intro path hpath
            rw [Function.update_of_ne (ne_of_mem_of_not_mem hpath hnot)]
            exact hrest path hpath
          · intro _ files' hsame path hpath
            rw [hsame path hpath, Function.update_of_ne (ne_of_mem_of_not_mem hpath hremoved.2)]
      · exact ih hrest hdistinct'

/-! ## The passes -/

theorem mem_outputs {path : Path} :
    ∀ {groupNumber : Nat}, path ∈ outputs workdir passNumber groupNumber groups →
      [path] ∈ groups ∨ ∃ g, groupNumber ≤ g ∧ path = outputPath workdir passNumber g := by
  induction groups with
  | nil =>
      intro groupNumber h
      cases h
  | cons group groups ih =>
      intro groupNumber h
      rcases mem_cons.mp h with rfl | h
      · match group with
        | [run] => exact Or.inl mem_cons_self
        | [] => exact Or.inr ⟨groupNumber, le_refl _, rfl⟩
        | _ :: _ :: _ => exact Or.inr ⟨groupNumber, le_refl _, rfl⟩
      · rcases ih h with hmem | ⟨g, hg, rfl⟩
        · exact Or.inl (mem_cons_of_mem _ hmem)
        · exact Or.inr ⟨g, by omega, rfl⟩

/-- What the passes rely on: the files hold the runs, those of the temporary directory are
outputs of passes before, and no file of it is there twice. -/
structure Held (workdir : String) (passNumber : Nat) (files : Files) (paths : List Path)
    (contents : List Bytes) : Prop where
  holds : Hold files paths contents
  older : ∀ path ∈ paths, ∀ k g, path = outputPath workdir k g → k < passNumber
  distinct : (paths.filter (fun path => path.parent = workdir)).Nodup

theorem nodup_outputs :
    ∀ {groupNumber : Nat},
      (groups.flatten.filter (fun path => path.parent = workdir)).Nodup →
      (∀ path ∈ groups.flatten, ∀ g, path ≠ outputPath workdir passNumber g) →
      ((outputs workdir passNumber groupNumber groups).filter
        (fun path => path.parent = workdir)).Nodup := by
  induction groups with
  | nil => exact fun _ _ => nodup_nil
  | cons group groups ih =>
      intro groupNumber hdistinct hfresh
      rw [flatten_cons, filter_append] at hdistinct
      have hrest := @ih (groupNumber + 1) (nodup_append.mp hdistinct).2.1
        (fun path hpath => hfresh path (mem_append_right _ hpath))
      rw [outputs]
      by_cases hparent : (groupOutput workdir passNumber groupNumber group).parent = workdir
      · rw [filter_cons_of_pos (by simpa using hparent)]
        refine nodup_cons.mpr ⟨?_, hrest⟩
        intro hmem
        rcases mem_outputs (mem_filter.mp hmem).1 with hsingle | ⟨g, hg, heq⟩
        · -- it is the one run of another group
          match group with
          | [run] =>
              refine (nodup_append.mp hdistinct).2.2 run ?_ run ?_ rfl
              · exact mem_filter.mpr ⟨mem_cons_self, decide_eq_true hparent⟩
              · refine mem_filter.mpr ⟨?_, decide_eq_true hparent⟩
                exact mem_flatten.mpr ⟨[run], hsingle, mem_cons_self⟩
          | [] =>
              exact hfresh _ (mem_flatten.mpr
                ⟨_, mem_cons_of_mem _ hsingle, mem_cons_self⟩) groupNumber rfl
          | _ :: _ :: _ =>
              exact hfresh _ (mem_flatten.mpr
                ⟨_, mem_cons_of_mem _ hsingle, mem_cons_self⟩) groupNumber rfl
        · match group with
          | [run] => exact hfresh run mem_cons_self g heq
          | [] =>
              have := (output_path_inj heq).2
              omega
          | _ :: _ :: _ =>
              have := (output_path_inj heq).2
              omega
      · rw [filter_cons_of_neg (by simpa using hparent)]
        exact hrest

theorem slices_forall₂ {α β : Type} {R : α → β → Prop} (n : Nat) (xs : List α) :
    ∀ {ys : List β}, List.Forall₂ R xs ys →
      List.Forall₂ (List.Forall₂ R) (slices n xs) (slices n ys) := by
  induction xs using slices.induct n with
  | case1 =>
      intro ys h
      cases h
      rw [slices, slices]
      exact List.Forall₂.nil
  | case2 x xs ih =>
      intro ys h
      obtain ⟨y, rest, hxy, hrest, rfl⟩ := forall₂_cons_left_iff.mp h
      rw [slices, slices]
      exact List.Forall₂.cons (List.Forall₂.cons hxy (forall₂_take _ hrest))
        (ih (forall₂_drop _ hrest))

theorem Held.pass {fanIn : Nat} {passNumber : Nat} {files : Files} {paths : List Path}
    {contents : List Bytes} (h : Held workdir passNumber files paths contents) :
    wp (mergeGroups comparator workdir passNumber 0 (slices fanIn paths) >>= fun _ =>
        removeMerged workdir (outputs workdir passNumber 0 (slices fanIn paths)) paths)
      (fun _ files' => ∃ outs, mergePass comparator fanIn contents = .ok outs ∧
        Held workdir (passNumber + 1) files' (outputs workdir passNumber 0 (slices fanIn paths))
          outs)
      (fun e _ => ∃ e', e = .raised e' ∧ mergePass comparator fanIn contents = .error e')
      files := by
  have hfresh : ∀ path ∈ paths, ∀ g, path ≠ outputPath workdir passNumber g := by
    intro path hpath g heq
    exact lt_irrefl _ (h.older path hpath passNumber g heq)
  have hgroups : ∀ group ∈ slices fanIn paths, ∀ path ∈ group, path ∈ paths := by
    intro group hgroup path hpath
    rw [← flatten_slices fanIn paths]
    exact mem_flatten.mpr ⟨group, hgroup, hpath⟩
  rw [wp_bind]
  refine wp_mono (merge_groups_eq 0 (slices_forall₂ fanIn paths h.holds)
    (fun group hgroup path hpath => hfresh path (hgroups group hgroup path hpath))) ?_
    (fun _ _ h => h)
  rintro _ files₁ ⟨outs, houts, hholds, hsame⟩
  have hexist : ∀ path ∈ paths, files₁ path ≠ none := by
    intro path hpath
    rw [hsame path (fun g _ => hfresh path hpath g)]
    obtain ⟨i, hi, rfl⟩ := mem_iff_getElem.mp hpath
    have hi' : i < contents.length := h.holds.length_eq ▸ hi
    have hbytes : files paths[i] = some contents[i] :=
      (forall₂_iff_get.mp h.holds).2 i hi hi'
    rw [hbytes]
    exact Option.some_ne_none _
  refine wp_mono (remove_merged_eq hexist h.distinct) ?_ (fun _ _ => False.elim)
  intro _ files₂ hkept
  refine ⟨outs, houts, hholds.congr hkept, ?_, ?_⟩
  · intro path hpath k g heq
    rcases mem_outputs hpath with hsingle | ⟨g', _, heq'⟩
    · exact Nat.lt_succ_of_lt (h.older path (hgroups _ hsingle path mem_cons_self) k g heq)
    · have := (output_path_inj (heq'.symm.trans heq)).1
      omega
  · refine nodup_outputs ?_ ?_
    · rw [flatten_slices]
      exact h.distinct
    · rw [flatten_slices]
      exact hfresh

theorem merge_passes_of_pass (hfanIn : 2 ≤ fanIn) {runs outs : List Bytes} (hmany : runs.length > 1)
    (h : mergePass comparator fanIn runs = .ok outs) :
    mergePasses comparator fanIn hfanIn runs = mergePasses comparator fanIn hfanIn outs := by
  rw [mergePasses, dif_pos hmany]
  split
  · next e he =>
      rw [h] at he
      cases he
  · next merged hmerged =>
      rw [h] at hmerged
      cases hmerged
      rfl

theorem merge_passes_of_error (hfanIn : 2 ≤ fanIn) {runs : List Bytes} {e : PyError}
    (hmany : runs.length > 1) (h : mergePass comparator fanIn runs = .error e) :
    mergePasses comparator fanIn hfanIn runs = .error e := by
  rw [mergePasses, dif_pos hmany]
  split
  · next e' he =>
      rw [h] at he
      cases he
      rfl
  · next merged hmerged =>
      rw [h] at hmerged
      cases hmerged

/-- The passes leave one file, which holds what the passes over the byte strings leave. -/
theorem Held.passes {fanIn : Nat} (hfanIn : 2 ≤ fanIn) {passNumber : Nat}
    {paths : List Path} :
    ∀ {files : Files} {contents : List Bytes}, Held workdir passNumber files paths contents →
      paths ≠ [] →
      wp (mergeFilePasses comparator workdir fanIn hfanIn passNumber paths)
        (fun runs files' => ∃ run bytes, runs = [run] ∧ files' run = some bytes ∧
          mergePasses comparator fanIn hfanIn contents = .ok bytes)
        (fun e _ => ∃ e', e = .raised e' ∧
          mergePasses comparator fanIn hfanIn contents = .error e') files := by
  induction passNumber, paths using mergeFilePasses.induct workdir fanIn hfanIn with
  | case1 passNumber paths hmany groups =>
      rename_i ih
      intro files contents h _
      have hlength : contents.length > 1 := h.holds.length_eq ▸ hmany
      have hpass := @Held.pass comparator workdir fanIn passNumber files paths contents h
      rw [wp_bind] at hpass
      rw [mergeFilePasses, dif_pos hmany]
      simp only [wp_bind]
      refine wp_mono hpass ?_ ?_
      · intro _ files₁ hremoved
        refine wp_mono hremoved ?_ ?_
        · rintro _ files₂ ⟨outs, houts, hheld⟩
          have hne : outputs workdir passNumber 0 (slices fanIn paths) ≠ [] := by
            rw [← length_pos_iff, length_outputs]
            exact length_slices_pos (by omega)
          rw [merge_passes_of_pass hfanIn hlength houts]
          exact ih hheld hne
        · rintro e _ ⟨e', rfl, herror⟩
          exact ⟨e', rfl, merge_passes_of_error hfanIn hlength herror⟩
      · rintro e _ ⟨e', rfl, herror⟩
        exact ⟨e', rfl, merge_passes_of_error hfanIn hlength herror⟩
  | case2 passNumber paths hone =>
      intro files contents h hne
      rw [mergeFilePasses, dif_neg hone]
      match paths, contents, h.holds with
      | [], _, _ => exact absurd rfl hne
      | [run], [bytes], .cons hrun .nil =>
          refine ⟨run, bytes, rfl, hrun, ?_⟩
          rw [mergePasses, dif_neg (by simp)]
          rfl
      | _ :: _ :: _, _, _ => exact absurd (by simp) hone

/-! ## The merge -/

theorem merge_sorted_run_files_eq (comparator : Comparator) (fanIn : Int)
    (hfresh : ∀ path, path.parent = workdir → files path = none)
    (hfiles : Hold files paths contents) :
    mergeSortedRunFiles comparator workdir fanIn paths files =
      ((mergeSortedRuns comparator fanIn contents).mapError FileError.raised, files) := by
  refine Prod.ext ?_ (merge_sorted_run_files_kept comparator fanIn paths hfresh)
  rw [mergeSortedRunFiles, mergeSortedRuns]
  split
  · rfl
  · next hfanIn =>
      have houtside : ∀ path ∈ paths, path.parent ≠ workdir := by
        intro path hpath hparent
        obtain ⟨i, hi, rfl⟩ := mem_iff_getElem.mp hpath
        have hi' : i < contents.length := hfiles.length_eq ▸ hi
        have hbytes : files paths[i] = some contents[i] :=
          (forall₂_iff_get.mp hfiles).2 i hi hi'
        rw [hfresh _ hparent] at hbytes
        cases hbytes
      have hheld : Held workdir 0 files paths contents := by
        refine ⟨hfiles, ?_, ?_⟩
        · intro path hpath k g heq
          exact absurd (congrArg Path.parent heq) (houtside path hpath)
        · rw [filter_eq_nil_iff.mpr]
          · exact nodup_nil
          · intro path hpath
            simpa using houtside path hpath
      have hfanIn' : 2 ≤ fanIn.toNat := by omega
      simp only [withDirectory, mergedRecords]
      by_cases hnone : contents = []
      · subst hnone
        cases hfiles
        rw [if_pos rfl, mergeFilePasses, dif_neg (by simp)]
        rfl
      · rw [if_neg hnone]
        have hne : paths ≠ [] := by
          rintro rfl
          cases hfiles
          exact hnone rfl
        have hpasses := @Held.passes comparator workdir _ hfanIn' 0 paths files contents hheld hne
        unfold wp at hpasses
        rw [run_bind]
        rcases hrun : mergeFilePasses comparator workdir fanIn.toNat hfanIn' 0 paths files with
          ⟨e | runs, files'⟩
        · rw [hrun] at hpasses
          obtain ⟨e', rfl, herror⟩ := hpasses
          rw [herror]
          rfl
        · rw [hrun] at hpasses
          obtain ⟨run, bytes, rfl, hbytes, hmerged⟩ := hpasses
          have hopen : openRun run files' = (.ok bytes, files') := by
            rw [openRun, hbytes]
          rw [hmerged, ok_bind]
          simp only [run_bind_ok _ hopen]
          cases readRecords "external-sort" bytes with
          | error e => rfl
          | ok records => rfl

/-! ## Sorting and merging -/

theorem frames_of_read_record {file rest : Bytes} {record : Record}
    (h : readRecord what file = .ok (some (record, rest))) :
    file = frames [record] ++ rest ∧ Sized record := by
  rw [readRecord] at h
  split at h
  · cases h
  · split at h
    · cases h
    · next hlength =>
        dsimp only at h
        split at h
        · cases h
        · next hdata =>
            rw [not_not] at hdata
            cases h
            have htake : (file.take 4).length = 4 := by
              rw [length_take]
              omega
            have hlt := Pack.unpackLE_lt (file.take 4)
            have hpack := Pack.packLE_unpackLE (file.take 4)
            rw [htake] at hlt hpack
            refine ⟨?_, ?_⟩
            · rw [frames, flatMap_cons, flatMap_nil, append_nil, hdata, hpack,
                append_assoc, take_append_drop, take_append_drop]
            · rw [Sized, hdata]
              exact hlt

theorem eq_nil_of_read_record {file : Bytes} (h : readRecord what file = .ok none) :
    file = [] := by
  rw [readRecord] at h
  split at h
  · next hnil => exact hnil
  · split at h
    · cases h
    · dsimp only at h
      split at h
      · cases h
      · cases h

theorem frames_of_read_records (n : Nat) :
    ∀ {file : Bytes} {records : List Record}, file.length = n →
      readRecords what file = .ok records →
      file = frames records ∧ ∀ record ∈ records, Sized record := by
  induction n using Nat.strong_induction_on with
  | _ n ih =>
      intro file records hn h
      rw [readRecords] at h
      split at h
      · cases h
      · next hnone =>
          cases h
          rw [eq_nil_of_read_record hnone]
          refine ⟨rfl, fun record hrecord => ?_⟩
          cases hrecord
      · next record rest hsome =>
          obtain ⟨others, hothers, h⟩ := bind_eq_ok.mp h
          cases h
          have hlength := length_rest hsome
          obtain ⟨hfile, hsized⟩ := frames_of_read_record hsome
          obtain ⟨hrest, hall⟩ := ih rest.length (by omega) rfl hothers
          refine ⟨?_, forall_mem_cons.mpr ⟨hsized, hall⟩⟩
          rw [hfile, hrest, ← frames_append, singleton_append]

/-- The records of a file. -/
def ReadsAs (files : Files) (path : Path) (run : List Record) : Prop :=
  ∃ bytes, files path = some bytes ∧ readRecords "external-sort" bytes = .ok run

theorem merge_sorted_runs_ok (h : TotalPreorder comparator D) {fanIn : Int} (hfanIn : 2 ≤ fanIn)
    {runs : List (List Record)} (hruns : ∀ run ∈ runs, IsRun (leBy comparator) D run)
    (hsized : ∀ run ∈ runs, ∀ record ∈ run, Sized record) :
    ∃ out, mergeSortedRuns comparator fanIn (runs.map frames) = .ok out ∧
      out.Perm runs.flatten ∧ Ascending (leBy comparator) out := by
  rw [mergeSortedRuns, dif_neg (by omega)]
  by_cases hnone : runs = []
  · subst hnone
    exact ⟨[], rfl, List.Perm.refl _, List.Pairwise.nil⟩
  · rw [if_neg (fun hnil => hnone (map_eq_nil_iff.mp hnil))]
    obtain ⟨out, hpasses, hmerged⟩ := merge_passes_ok h (by omega : 2 ≤ fanIn.toNat) _ rfl
      (length_pos_of_ne_nil hnone) hruns hsized
    have hout : ∀ record ∈ out, Sized record := by
      intro record hrecord
      obtain ⟨run, hrun, hrecord⟩ := mem_flatten.mp (hmerged.perm.mem_iff.mp hrecord)
      exact hsized run hrun record hrecord
    refine ⟨out, ?_, hmerged.perm, hmerged.run.ascending⟩
    rw [hpasses, ok_bind, read_records_frames hout]

/-- `externalSort` returns a sorted permutation of records whose lengths fit four bytes, and
`mergeSortedRuns` one of the records of the runs, with the files as they were. -/
theorem external_sort_exact (h : TotalPreorder comparator D) {fanIn : Int} (hfanIn : 2 ≤ fanIn) :
    (∀ (memoryLimitBytes : Int) (records : List Record), 0 < memoryLimitBytes →
      (∀ record ∈ records, D record) → (∀ record ∈ records, Sized record) →
      ∃ out, externalSort comparator memoryLimitBytes fanIn records = .ok out ∧
        out.Perm records ∧ Ascending (leBy comparator) out) ∧
    ∀ (workdir : String) (files : Files) (paths : List Path) (runs : List (List Record)),
      (∀ path, path.parent = workdir → files path = none) →
      List.Forall₂ (ReadsAs files) paths runs →
      (∀ run ∈ runs, IsRun (leBy comparator) D run) →
      ∃ out, mergeSortedRunFiles comparator workdir fanIn paths files = (.ok out, files) ∧
        out.Perm runs.flatten ∧ Ascending (leBy comparator) out := by
  constructor
  · intro memoryLimitBytes records hlimit hD hsized
    obtain ⟨out, hsort, hmerged⟩ := external_sort_ok h hlimit hfanIn hD hsized
    refine ⟨out, hsort, ?_, hmerged.run.ascending⟩
    rw [← record_chunks_flatten memoryLimitBytes.toNat records]
    exact hmerged.perm
  · intro workdir files paths runs hfresh hreads hruns
    have hfiles : Hold files paths (runs.map frames) := by
      refine forall₂_map_right_iff.mpr (hreads.imp ?_)
      rintro path run ⟨bytes, hbytes, hread⟩
      rw [hbytes, (frames_of_read_records _ rfl hread).1]
    have hsized : ∀ run ∈ runs, ∀ record ∈ run, Sized record := by
      intro run hrun
      obtain ⟨i, hi, rfl⟩ := mem_iff_getElem.mp hrun
      have hi' : i < paths.length := hreads.length_eq ▸ hi
      obtain ⟨bytes, _, hread⟩ := (forall₂_iff_get.mp hreads).2 i hi' hi
      exact (frames_of_read_records _ rfl hread).2
    obtain ⟨out, hmerge, hperm, hascending⟩ := merge_sorted_runs_ok h hfanIn hruns hsized
    refine ⟨out, ?_, hperm, hascending⟩
    rw [merge_sorted_run_files_eq comparator fanIn hfresh hfiles, hmerge]
    rfl

/-- Shorter records first. -/
def byLength : Comparator := fun a b => .ok (a.length - b.length)

theorem by_length_preorder : TotalPreorder byLength (fun _ => True) where
  compared := fun _ _ => ⟨_, _, rfl, rfl, by omega⟩
  trans := by
    intro a b c _ _ _ hab hbc
    have hle : ∀ x y, leBy byLength x y = true ↔ x.length ≤ y.length := by
      intro x y
      rw [leBy, byLength, decide_eq_true_iff]
      omega
    rw [hle] at hab hbc ⊢
    exact hab.trans hbc

/-- A file with one run, and another with a run of two. -/
def twoRuns : Files := fun path =>
  if path = ⟨"/data", "a"⟩ then some (frames [[7]])
  else if path = ⟨"/data", "b"⟩ then some (frames [[], [7, 7]])
  else none

theorem two_runs_sized : ∀ record ∈ [[7, 7], [7], []], Sized record := by
  intro record hrecord
  have hlength : record.length ≤ 2 := by
    simp only [mem_cons, not_mem_nil, or_false] at hrecord
    rcases hrecord with rfl | rfl | rfl
    all_goals decide
  exact lt_of_le_of_lt hlength (by decide)

theorem external_sort_exact_by_length :
    (∃ out, externalSort byLength 5 2 [[7, 7], [7], []] = .ok out ∧
      out.Perm [[7, 7], [7], []] ∧ Ascending (leBy byLength) out) ∧
    ∃ out, mergeSortedRunFiles byLength "/tmp/merge" 2 [⟨"/data", "a"⟩, ⟨"/data", "b"⟩]
        twoRuns = (.ok out, twoRuns) ∧
      out.Perm [[[7]], [[], [7, 7]]].flatten ∧ Ascending (leBy byLength) out := by
  obtain ⟨hsort, hmerge⟩ := external_sort_exact by_length_preorder (by decide : (2 : Int) ≤ 2)
  refine ⟨hsort 5 _ (by decide) (fun _ _ => trivial) two_runs_sized, hmerge _ _ _ _ ?_ ?_ ?_⟩
  · intro path hparent
    have hdirectory : ∀ name, path ≠ ⟨"/data", name⟩ := by
      rintro name rfl
      exact absurd hparent (by decide : "/data" ≠ "/tmp/merge")
    rw [twoRuns, if_neg (hdirectory _), if_neg (hdirectory _)]
  · refine List.Forall₂.cons ⟨_, rfl, ?_⟩ (List.Forall₂.cons ⟨_, rfl, ?_⟩ List.Forall₂.nil)
    · refine read_records_frames (fun record hrecord => two_runs_sized record ?_)
      rw [mem_singleton.mp hrecord]
      decide
    · refine read_records_frames (fun record hrecord => two_runs_sized record ?_)
      simp only [mem_cons, not_mem_nil, or_false] at hrecord
      rcases hrecord with rfl | rfl
      all_goals decide
  · intro run hrun
    refine ⟨fun _ _ => trivial, ?_⟩
    simp only [mem_cons, not_mem_nil, or_false] at hrun
    rcases hrun with rfl | rfl
    · exact pairwise_singleton _ _
    · exact pairwise_pair.mpr rfl

/-- A record of four gigabytes is not sorted. -/
theorem long_record_not_sorted :
    ¬ ∀ (comparator : Comparator), TotalPreorder comparator (fun _ => True) →
      ∀ (memoryLimitBytes fanIn : Int) (records : List Record), 0 < memoryLimitBytes →
        2 ≤ fanIn → ∃ out, externalSort comparator memoryLimitBytes fanIn records = .ok out ∧
          out.Perm records ∧ Ascending (leBy comparator) out := by
  intro hall
  obtain ⟨out, hsort, _, _⟩ := hall byLength by_length_preorder 1 8
    [replicate (2 ^ 32) 0] (by decide) (by decide)
  rw [external_sort_unsized (by rw [Sized, length_replicate]; omega)] at hsort
  cases hsort

end SoupDB.ExternalSort
