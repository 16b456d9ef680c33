import SoupDB.Common.Value
import Mathlib.Data.List.Nodup

/-!
# SoupDB: file organizations

What a table's storage is to the layers above it, whichever file organization it is: the
live records with their RIDs.  A RID is given out once; the record of a RID stays what it
was inserted as until the RID is removed.

Which free RID an insert gets is up to the organization, so it is an argument here.  An
insert under a RID that was given out before changes nothing; the callers of `insert`
never ask for one.
-/

namespace SoupDB

open List

/-- The live records of a table, and the RIDs given out so far. -/
@[ext] structure FileOrganization (Row : Type) where
  rows : List (RID × Row)
  used : List RID
  nodup : (rows.map Prod.fst).Nodup
  used_of_mem : ∀ e ∈ rows, e.1 ∈ used

namespace FileOrganization

variable {Row : Type}

/-- A table without records. -/
def empty : FileOrganization Row where
  rows := []
  used := []
  nodup := nodup_nil
  used_of_mem := by simp

def insert (rid : RID) (row : Row) (f : FileOrganization Row) : FileOrganization Row :=
  if h : rid ∈ f.used then f
  else
    { rows := f.rows ++ [(rid, row)]
      used := rid :: f.used
      nodup := by
        rw [map_append, map_cons, map_nil]
        refine nodup_append.mpr ⟨f.nodup, nodup_singleton rid, ?_⟩
        intro r hr s hs
        obtain ⟨e, he, rfl⟩ := mem_map.mp hr
        rintro rfl
        have hrid : e.1 = rid := mem_singleton.mp hs
        exact h (hrid ▸ f.used_of_mem e he)
      used_of_mem := by
        intro e he
        rcases mem_append.mp he with he | he
        · exact mem_cons_of_mem _ (f.used_of_mem e he)
        · rw [mem_singleton] at he
          rw [he]
          exact mem_cons_self }

/-- The record at a RID. -/
def fetch (rid : RID) (f : FileOrganization Row) : Option Row :=
  (f.rows.find? (fun e => e.1 = rid)).map Prod.snd

def remove (rid : RID) (f : FileOrganization Row) : FileOrganization Row where
  rows := f.rows.filter (fun e => e.1 ≠ rid)
  used := f.used
  nodup := f.nodup.sublist (filter_sublist.map Prod.fst)
  used_of_mem := fun e he => f.used_of_mem e (mem_of_mem_filter he)

def scan (f : FileOrganization Row) : List (RID × Row) := f.rows

variable {f : FileOrganization Row} {rid : RID} {row : Row}

theorem rows_insert (h : rid ∉ f.used) : (f.insert rid row).rows = f.rows ++ [(rid, row)] := by
  rw [insert, dif_neg h]

theorem used_insert (h : rid ∉ f.used) : (f.insert rid row).used = rid :: f.used := by
  rw [insert, dif_neg h]

@[simp] theorem rows_remove : (f.remove rid).rows = f.rows.filter (fun e => e.1 ≠ rid) := rfl

theorem mem_of_fetch (h : f.fetch rid = some row) : (rid, row) ∈ f.rows := by
  rw [fetch, Option.map_eq_some_iff] at h
  obtain ⟨⟨r, v⟩, hfind, rfl⟩ := h
  have hr : r = rid := by simpa using find?_some hfind
  exact hr ▸ mem_of_find?_eq_some hfind

theorem fetch_eq_none : f.fetch rid = none ↔ ∀ e ∈ f.rows, e.1 ≠ rid := by
  rw [fetch, Option.map_eq_none_iff, find?_eq_none]
  simp

theorem mem_rows_iff : (rid, row) ∈ f.rows ↔ f.fetch rid = some row := by
  refine ⟨?_, mem_of_fetch⟩
  intro hmem
  cases hfetch : f.fetch rid with
  | none => exact absurd rfl (fetch_eq_none.mp hfetch _ hmem)
  | some row' =>
      have hinj := inj_on_of_nodup_map f.nodup hmem (mem_of_fetch hfetch) rfl
      exact congrArg some (Prod.mk.inj hinj).2.symm

theorem fetch_insert (h : rid ∉ f.used) (r : RID) :
    (f.insert rid row).fetch r = if r = rid then some row else f.fetch r := by
  rw [fetch, rows_insert h, find?_append, fetch]
  by_cases hr : r = rid
  · subst hr
    have hnone : f.rows.find? (fun e => e.1 = r) = none := by
      rw [find?_eq_none]
      intro e he
      have hne : e.1 ≠ r := fun heq => h (heq ▸ f.used_of_mem e he)
      simpa using hne
    rw [hnone]
    simp
  · have hne : ¬ rid = r := fun heq => hr heq.symm
    rw [if_neg hr]
    simp [hne]

theorem fetch_remove (f : FileOrganization Row) (rid r : RID) :
    (f.remove rid).fetch r = if r = rid then none else f.fetch r := by
  rw [fetch, rows_remove, find?_filter, fetch]
  by_cases hr : r = rid
  · subst hr
    rw [if_pos rfl, Option.map_eq_none_iff, find?_eq_none]
    simp
  · rw [if_neg hr]
    refine congrArg (fun p => (find? p f.rows).map Prod.snd) (funext ?_)
    intro e
    by_cases he : e.1 = r
    · have hne : ¬ e.1 = rid := fun heq => hr (he.symm.trans heq)
      simp [he, hr]
    · simp [he]

/-- The live records are the one at a live RID and those that stay when it is removed. -/
theorem perm_remove (h : f.fetch rid = some row) :
    f.rows.Perm ((rid, row) :: (f.remove rid).rows) := by
  have hmem := mem_of_fetch h
  obtain ⟨before, after, hsplit⟩ := append_of_mem hmem
  have hnodup := f.nodup
  rw [hsplit, map_append, map_cons] at hnodup
  have hnot := (nodup_cons.mp (nodup_middle.mp hnodup)).1
  have hrest : (f.remove rid).rows = before ++ after := by
    rw [rows_remove, hsplit, filter_append, filter_cons, if_neg (by simp)]
    refine congrArg₂ (· ++ ·) (filter_eq_self.mpr ?_) (filter_eq_self.mpr ?_)
    · intro e he
      have hne : e.1 ≠ rid := fun heq => hnot (heq ▸
        mem_append_left _ (mem_map.mpr ⟨e, he, rfl⟩))
      simpa using hne
    · intro e he
      have hne : e.1 ≠ rid := fun heq => hnot (heq ▸
        mem_append_right _ (mem_map.mpr ⟨e, he, rfl⟩))
      simpa using hne
  rw [hrest, hsplit]
  exact perm_middle

end FileOrganization
end SoupDB
