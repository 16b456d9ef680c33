import SoupDB.Transactions.Server
import Mathlib.Data.List.Perm.Basic

/-!
# SoupDB: what a journal says about a table

`rowsBefore journal inserted f` are the rows the table `f` had before the operations that
`journal` records: the live rows those operations did not insert, and the rows they
removed, except rows they had inserted themselves.

`rowsBefore_call` says that an operation and its journal entry leave them alone, and
`rowsBefore_undo` that undoing the newest entry does.  So a table whose journal is undone
to the end has the rows it had before, possibly under other RIDs.
-/

namespace SoupDB

open FileOrganization List

variable {Row Key : Type}

namespace JournalEntry

def insertedRids (journal : List (JournalEntry Row)) : List RID := journal.filterMap inserted?

def putBack? (inserted : List RID) : JournalEntry Row → Option Row
  | .UndoInsert _ _ => none
  | .UndoRemove _ rid record => if rid ∈ inserted then none else some record

def rid : JournalEntry Row → RID
  | .UndoInsert _ rid => rid
  | .UndoRemove _ rid _ => rid

def onTable (table : String) (journal : List (JournalEntry Row)) : List (JournalEntry Row) :=
  journal.filter (fun entry => entry.table = table)

theorem inserted_eq (journal : List (JournalEntry Row)) (table : String) :
    inserted journal table = insertedRids (onTable table journal) := rfl

end JournalEntry

open JournalEntry

/-- The rows of a table before the operations of a journal. -/
def rowsBefore (journal : List (JournalEntry Row)) (inserted : List RID)
    (f : FileOrganization Row) : List Row :=
  (f.rows.filter (fun e => e.1 ∉ insertedRids journal)).map Prod.snd ++
    journal.filterMap (putBack? inserted)

/-- The journal names only RIDs that the table gave out. -/
def JournalOf (journal : List (JournalEntry Row)) (f : FileOrganization Row) : Prop :=
  ∀ entry ∈ journal, entry.rid ∈ f.used

@[simp] theorem insertedRids_append (as bs : List (JournalEntry Row)) :
    insertedRids (as ++ bs) = insertedRids as ++ insertedRids bs := by
  simp [insertedRids]

@[simp] theorem rowsBefore_nil (inserted : List RID) (f : FileOrganization Row) :
    rowsBefore [] inserted f = f.rows.map Prod.snd := by
  simp [rowsBefore, insertedRids]

variable {journal : List (JournalEntry Row)}

theorem JournalOf.mem_used {f : FileOrganization Row} (h : JournalOf journal f) {rid : RID}
    (hrid : rid ∈ insertedRids journal) : rid ∈ f.used := by
  obtain ⟨entry, hentry, hinserted⟩ := mem_filterMap.mp hrid
  cases entry with
  | UndoInsert table r =>
      obtain rfl : r = rid := Option.some.inj hinserted
      exact h _ hentry
  | UndoRemove table r record => cases hinserted

theorem putBack_congr {as bs : List RID} (h : ∀ entry ∈ journal, entry.rid ∈ as ↔ entry.rid ∈ bs) :
    journal.filterMap (putBack? as) = journal.filterMap (putBack? bs) := by
  refine filterMap_congr (fun entry hentry => ?_)
  cases entry with
  | UndoInsert table rid => rfl
  | UndoRemove table rid record =>
      have hiff : rid ∈ as ↔ rid ∈ bs := h _ hentry
      simp only [putBack?, hiff]

section Operations

variable {journal : List (JournalEntry Row)} {f : FileOrganization Row}

theorem rowsBefore_insert (h : JournalOf journal f) {table : String} {rid : RID} {row : Row}
    (hfresh : rid ∉ f.used) :
    rowsBefore (journal ++ [.UndoInsert table rid])
        (insertedRids (journal ++ [.UndoInsert table rid])) (f.insert rid row) =
      rowsBefore journal (insertedRids journal) f := by
  have hrids : insertedRids (journal ++ [.UndoInsert table rid]) =
      insertedRids journal ++ [rid] := by
    simp [insertedRids, inserted?]
  have hrows : (f.insert rid row).rows.filter (fun e => e.1 ∉ insertedRids journal ++ [rid]) =
      f.rows.filter (fun e => e.1 ∉ insertedRids journal) := by
    rw [rows_insert hfresh, filter_append, filter_cons,
      if_neg (by simp), filter_nil, append_nil]
    refine filter_congr (fun e he => ?_)
    have hne : e.1 ≠ rid := fun heq => hfresh (heq ▸ f.used_of_mem e he)
    simp [hne]
  have hback : (journal ++ [JournalEntry.UndoInsert table rid]).filterMap
      (putBack? (insertedRids journal ++ [rid])) =
        journal.filterMap (putBack? (insertedRids journal)) := by
    rw [filterMap_append, filterMap_cons_none (by rfl), filterMap_nil,
      append_nil]
    refine putBack_congr (fun entry hentry => ?_)
    have hne : entry.rid ≠ rid := fun heq => hfresh (heq ▸ h entry hentry)
    simp [hne]
  rw [rowsBefore, hrids, hrows, hback]
  rfl

theorem rowsBefore_remove {table : String} {rid : RID} {row : Row}
    (hrow : f.fetch rid = some row) :
    (rowsBefore (journal ++ [.UndoRemove table rid row])
        (insertedRids (journal ++ [.UndoRemove table rid row])) (f.remove rid)).Perm
      (rowsBefore journal (insertedRids journal) f) := by
  have hrids : insertedRids (journal ++ [.UndoRemove table rid row]) = insertedRids journal := by
    simp [insertedRids, inserted?]
  have hrows := (perm_remove hrow).filter (fun e => e.1 ∉ insertedRids journal)
  rw [rowsBefore, hrids, rowsBefore, filterMap_append]
  by_cases hmem : rid ∈ insertedRids journal
  · have hback : [JournalEntry.UndoRemove table rid row].filterMap
        (putBack? (insertedRids journal)) = [] := by
      simp [putBack?, hmem]
    rw [filter_cons, if_neg (by simpa using hmem)] at hrows
    rw [hback, append_nil]
    exact (hrows.map Prod.snd).symm.append_right _
  · have hback : [JournalEntry.UndoRemove table rid row].filterMap
        (putBack? (insertedRids journal)) = [row] := by
      simp [putBack?, hmem]
    rw [filter_cons, if_pos (by simpa using hmem)] at hrows
    rw [hback]
    have hperm := (hrows.map Prod.snd).symm
    rw [map_cons] at hperm
    refine List.Perm.trans ?_ (hperm.append_right _)
    rw [cons_append, ← append_assoc]
    exact perm_append_singleton _ _

theorem rowsBefore_call (h : JournalOf journal f) (call : Call Row Key)
    (hfresh : ∀ table row rid, call = .insert table row rid → rid ∉ f.used) :
    (rowsBefore (journal ++ call.journal f) (insertedRids (journal ++ call.journal f))
      (call.run f).2).Perm (rowsBefore journal (insertedRids journal) f) := by
  cases call with
  | insert table row rid =>
      exact List.Perm.of_eq (rowsBefore_insert h (hfresh table row rid rfl))
  | remove table rid =>
      cases hfetch : f.fetch rid with
      | none =>
          simp only [Call.journal, Call.run, hfetch, append_nil]
          exact List.Perm.refl _
      | some row =>
          simp only [Call.journal, Call.run, hfetch]
          exact rowsBefore_remove hfetch
  | scan table =>
      rw [Call.journal, append_nil]
      exact List.Perm.refl _
  | indexRead table key sel =>
      rw [Call.journal, append_nil]
      exact List.Perm.refl _
  | fetch table rid =>
      rw [Call.journal, append_nil]
      exact List.Perm.refl _

theorem JournalOf.call (h : JournalOf journal f) (call : Call Row Key)
    (hfresh : ∀ table row rid, call = .insert table row rid → rid ∉ f.used) :
    JournalOf (journal ++ call.journal f) (call.run f).2 := by
  have hsub : f.used ⊆ (call.run f).2.used := by
    cases call with
    | insert table row rid =>
        rw [Call.run, used_insert (hfresh table row rid rfl)]
        exact subset_cons_self _ _
    | remove table rid =>
        rw [Call.run]
        split <;> exact List.Subset.refl _
    | scan table => exact List.Subset.refl _
    | indexRead table key sel => exact List.Subset.refl _
    | fetch table rid => exact List.Subset.refl _
  intro entry hentry
  rcases mem_append.mp hentry with hold | hnew
  · exact hsub (h entry hold)
  · cases call with
    | insert table row rid =>
        obtain rfl := mem_singleton.mp hnew
        rw [Call.run, used_insert (hfresh table row rid rfl)]
        exact mem_cons_self
    | remove table rid =>
        cases hfetch : f.fetch rid with
        | none =>
            simp only [Call.journal, hfetch] at hnew
            cases hnew
        | some row =>
            simp only [Call.journal, hfetch, mem_singleton] at hnew
            rw [hnew]
            exact hsub (f.used_of_mem _ (mem_of_fetch hfetch))
    | scan table => cases hnew
    | indexRead table key sel => cases hnew
    | fetch table rid => cases hnew

variable {entry : JournalEntry Row} {inserted : List RID}

theorem rowsBefore_undo {newRid : RID} (h : JournalOf (journal ++ [entry]) f)
    (hfresh : newRid ∉ f.used) :
    (rowsBefore journal inserted (entry.undo inserted newRid f)).Perm
      (rowsBefore (journal ++ [entry]) inserted f) := by
  have hsub : ∀ rid ∈ insertedRids journal, rid ∈ f.used := fun rid hrid =>
    h.mem_used (by rw [insertedRids_append]; exact mem_append_left _ hrid)
  cases entry with
  | UndoInsert table rid =>
      have hrids : insertedRids (journal ++ [.UndoInsert table rid]) =
          insertedRids journal ++ [rid] := by
        simp [insertedRids, inserted?]
      have hrows : (f.remove rid).rows.filter (fun e => e.1 ∉ insertedRids journal) =
          f.rows.filter (fun e => e.1 ∉ insertedRids journal ++ [rid]) := by
        rw [rows_remove, filter_filter]
        refine filter_congr (fun e _ => ?_)
        simp
      rw [rowsBefore, rowsBefore, hrids, JournalEntry.undo, hrows, filterMap_append,
        filterMap_cons_none (by rfl), filterMap_nil, append_nil]
  | UndoRemove table rid record =>
      have hrids : insertedRids (journal ++ [.UndoRemove table rid record]) =
          insertedRids journal := by
        simp [insertedRids, inserted?]
      rw [rowsBefore, rowsBefore, hrids, JournalEntry.undo, filterMap_append]
      by_cases hmem : rid ∈ inserted
      · have hback : [JournalEntry.UndoRemove table rid record].filterMap
            (putBack? inserted) = [] := by
          simp [putBack?, hmem]
        rw [if_pos hmem, hback, append_nil]
      · have hback : [JournalEntry.UndoRemove table rid record].filterMap
            (putBack? inserted) = [record] := by
          simp [putBack?, hmem]
        have hnew : newRid ∉ insertedRids journal := fun hrid => hfresh (hsub _ hrid)
        rw [if_neg hmem, hback, rows_insert hfresh, filter_append,
          filter_cons, if_pos (by simpa using hnew), filter_nil, map_append]
        rw [append_assoc]
        exact (perm_append_comm).append_left _

theorem JournalOf.undo {newRid : RID} (h : JournalOf journal f) :
    JournalOf journal (entry.undo inserted newRid f) := by
  intro e he
  have hused := h e he
  cases entry with
  | UndoInsert table rid => exact hused
  | UndoRemove table rid record =>
      rw [JournalEntry.undo]
      split
      · exact hused
      · rw [FileOrganization.insert]
        split
        · exact hused
        · exact mem_cons_of_mem _ hused

end Operations

end SoupDB
