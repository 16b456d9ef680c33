import SoupDB.Storage.DiskManager
import SoupDB.Storage.FileOrganization
import SoupDB.Storage.SlottedPage
import SoupDB.Lib.Effect
import SoupDB.Lib.Transition

/-!
# SoupDB: the pages of a file organization

Both paged file organizations keep their records in slotted pages, behind a header of
their own.  `Stored header d rs` says that every page of a file carries the records `rs`
lists for it, and `slotOf rs rid` what a RID stands for there: nothing that was ever given
out, a removed record, or a live one.

`Organization` collects the operations of a file organization, `History` a file with the
records it should hold, and `KeepsRids` what the layers above rely on.  `Slots` reduces it
to one statement on `slotOf` for each operation.
-/

namespace SoupDB

open Effect SlottedPage DiskManager FileOrganization

/-! ## Frames -/

/-- Run an operation on the frame of a pinned page. -/
def withFrame {α : Type} (pageId : Int) (f : Bytes → Except PyError (α × Bytes)) :
    Effect PyError DiskManager α := do
  let d ← get
  let page ← lift (d.readPage pageId)
  let (a, page) ← lift (f page)
  let d ← lift (d.writePage pageId page)
  modify (fun _ => d)
  pure a

def readFrame {α : Type} (pageId : Int) (f : Bytes → Except PyError α) :
    Effect PyError DiskManager α := do
  let d ← get
  let page ← lift (d.readPage pageId)
  lift (f page)

section Frames

variable {α : Type} {d d' : DiskManager} {pageId : Int} {page page' : Bytes} {a : α}
  {f : Bytes → Except PyError (α × Bytes)} {Q : α → DiskManager → Prop}
  {E : PyError → DiskManager → Prop}

theorem wp_with_frame (hread : d.readPage pageId = .ok page) (hf : f page = .ok (a, page'))
    (hQ : ∀ d', d.writePage pageId page' = .ok d' → Q a d') :
    wp (withFrame pageId f) Q E d := by
  have hwrite := write_page_of_valid (validPageId_of_read_page hread) page'
  simp only [withFrame, wp_bind, wp_get, hread, wp_lift_ok, hf, hwrite, wp_modify, wp_pure]
  exact hQ _ hwrite

theorem wp_with_frame_error {e : PyError} (hread : d.readPage pageId = .ok page)
    (hf : f page = .error e) (hE : E e d) : wp (withFrame pageId f) Q E d := by
  simp only [withFrame, wp_bind, wp_get, hread, wp_lift_ok, hf, wp_lift_error]
  exact hE

/-- A page that was not allocated cannot be pinned. -/
theorem wp_with_frame_invalid (h : ¬ d.validPageId pageId) (hE : ∀ e, E e d) :
    wp (withFrame pageId f) Q E d := by
  have hread : d.readPage pageId = .error (unallocated pageId) := by
    rw [readPage, if_neg h]
  simp only [withFrame, wp_bind, wp_get, hread, wp_lift_error]
  exact hE _

theorem read_frame_eq (pageId : Int) (f : Bytes → Except PyError α) (d : DiskManager) :
    readFrame pageId f d = ((d.readPage pageId).bind f, d) := by
  rw [readFrame, run_bind_ok _ (run_get d), run_bind, run_lift]
  cases d.readPage pageId <;> rfl

end Frames

/-! ## Records by page and slot -/

/-- The records of a file, page by page and slot by slot. -/
abbrev RecordPages := List (List (Option Bytes))

/-- What a RID stands for: none if it was never given out, a tombstone if the record was
removed. -/
def slotOf (rs : RecordPages) (rid : RID) : Option (Option Bytes) :=
  if rid.pageId < 0 ∨ rid.slot < 0 then none
  else rs[rid.pageId.toNat]?.bind (fun page => page[rid.slot.toNat]?)

section Slots

variable {rs : RecordPages} {p : Nat} {page : List (Option Bytes)}

theorem slotOf_of_page (h : rs[p]? = some page) (slot : Int) :
    slotOf rs ⟨p, slot⟩ = if slot < 0 then none else page[slot.toNat]? := by
  have hpage : ¬ (p : Int) < 0 := by omega
  simp only [slotOf, hpage, false_or, Int.toNat_natCast, h, Option.bind_some]

theorem slotOf_append_page (rs : RecordPages) (rid : RID) :
    slotOf (rs ++ [[]]) rid = slotOf rs rid := by
  simp only [slotOf]
  split
  · rfl
  · rcases Nat.lt_trichotomy rid.pageId.toNat rs.length with hlt | heq | hgt
    · rw [List.getElem?_append_left hlt]
    · rw [heq, List.getElem?_append_right le_rfl, Nat.sub_self, List.getElem?_eq_none le_rfl]
      rfl
    · rw [List.getElem?_eq_none (by simp; omega), List.getElem?_eq_none (by omega)]

theorem slotOf_new (rid : RID) : slotOf [[]] rid = none := by
  refine (slotOf_append_page [] rid).trans ?_
  rw [slotOf]
  split <;> rfl

section

variable (h : rs[p]? = some page)
include h

/-- Writing the records a page has changes no records. -/
theorem set_same : rs.set p page = rs := by
  obtain ⟨hlt, hget⟩ := List.getElem?_eq_some_iff.mp h
  rw [← hget]
  exact List.set_getElem_self hlt

theorem slotOf_next : slotOf rs ⟨p, page.length⟩ = none := by
  rw [slotOf_of_page h, if_neg (by omega), Int.toNat_natCast]
  exact List.getElem?_eq_none le_rfl

theorem slotOf_set (page' : List (Option Bytes)) (rid : RID) :
    slotOf (rs.set p page') rid =
      if rid.pageId = p then (if rid.slot < 0 then none else page'[rid.slot.toNat]?)
      else slotOf rs rid := by
  simp only [slotOf]
  obtain ⟨hp, _⟩ := List.getElem?_eq_some_iff.mp h
  by_cases hpage : rid.pageId = p
  · rw [if_pos hpage, hpage]
    by_cases hslot : rid.slot < 0
    · rw [if_pos (Or.inr hslot), if_pos hslot]
    · rw [if_neg (by omega), if_neg hslot, Int.toNat_natCast, List.getElem?_set_self hp,
        Option.bind_some]
  · rw [if_neg hpage]
    split
    · rfl
    · next hneg => rw [List.getElem?_set_ne (by omega)]

theorem slotOf_insert (data : Bytes) (rid : RID) :
    slotOf (rs.set p (page ++ [some data])) rid =
      if rid = ⟨p, page.length⟩ then some (some data) else slotOf rs rid := by
  rw [slotOf_set h]
  obtain ⟨pageId, slot⟩ := rid
  simp only
  by_cases hpage : pageId = p
  · subst hpage
    by_cases hslot : slot < 0
    · have hne : (⟨(p : Int), slot⟩ : RID) ≠ ⟨p, page.length⟩ := by
        intro heq
        rw [RID.mk.injEq] at heq
        omega
      rw [if_pos rfl, if_pos hslot, if_neg hne, slotOf_of_page h, if_pos hslot]
    · rw [if_pos rfl, if_neg hslot]
      by_cases hlast : slot = page.length
      · subst hlast
        rw [if_pos rfl, Int.toNat_natCast, List.getElem?_append_right le_rfl, Nat.sub_self]
        rfl
      · have hne : (⟨(p : Int), slot⟩ : RID) ≠ ⟨p, page.length⟩ := by
          intro heq
          exact hlast (RID.mk.injEq _ _ _ _ ▸ heq).2
        rw [if_neg hne, slotOf_of_page h, if_neg hslot]
        by_cases hin : slot.toNat < page.length
        · rw [List.getElem?_append_left hin]
        · have hlen : (page ++ [some data]).length = page.length + 1 := by simp
          rw [List.getElem?_eq_none (by omega), List.getElem?_eq_none (by omega)]
  · have hne : (⟨pageId, slot⟩ : RID) ≠ ⟨p, page.length⟩ := by
      intro heq
      exact hpage (RID.mk.injEq _ _ _ _ ▸ heq).1
    rw [if_neg hpage, if_neg hne]

theorem slotOf_tombstone (slot : Int) (rid : RID) :
    slotOf (rs.set p (tombstone page slot)) rid =
      if rid = ⟨p, slot⟩ then (slotOf rs rid).map (fun _ => none) else slotOf rs rid := by
  rw [slotOf_set h]
  obtain ⟨pageId, slot'⟩ := rid
  simp only
  by_cases hpage : pageId = p
  · subst hpage
    rw [if_pos rfl]
    by_cases hneg : slot' < 0
    · rw [if_pos hneg, slotOf_of_page h, if_pos hneg]
      split <;> rfl
    · rw [if_neg hneg, slotOf_of_page h, if_neg hneg, tombstone]
      by_cases hslot : slot' = slot
      · subst hslot
        rw [if_neg hneg, if_pos rfl, List.getElem?_set]
        by_cases hin : slot'.toNat < page.length
        · rw [if_pos rfl, if_pos hin, List.getElem?_eq_getElem hin, Option.map_some]
        · rw [if_pos rfl, if_neg hin, List.getElem?_eq_none (by omega), Option.map_none]
      · have hne : (⟨(p : Int), slot'⟩ : RID) ≠ ⟨p, slot⟩ := by
          intro heq
          exact hslot (RID.mk.injEq _ _ _ _ ▸ heq).2
        rw [if_neg hne]
        split
        · rfl
        · rw [List.getElem?_set_ne (by omega)]
  · have hne : (⟨pageId, slot'⟩ : RID) ≠ ⟨p, slot⟩ := by
      intro heq
      exact hpage (RID.mk.injEq _ _ _ _ ▸ heq).1
    rw [if_neg hpage, if_neg hne]

theorem join_slotOf (slot : Int) : (slotOf rs ⟨p, slot⟩).join = recordAt page slot := by
  rw [slotOf_of_page h, recordAt]
  split <;> rfl

end

theorem slotOf_eq_none_of_page (rid : RID)
    (h : ¬ (0 ≤ rid.pageId ∧ rid.pageId < rs.length)) : slotOf rs rid = none := by
  rw [slotOf]
  split
  · rfl
  · rw [List.getElem?_eq_none (by omega)]
    rfl

end Slots

/-! ## Pages that carry records -/

/-- Every page of the file carries its records behind a header of this size. -/
structure Stored (header : Nat) (d : DiskManager) (rs : RecordPages) : Prop where
  page_size_low : header + 4 ≤ d.pageSize
  page_size_high : d.pageSize < header + 65536
  count : d.pageCount = rs.length
  page : ∀ {p : Nat} {records : List (Option Bytes)}, rs[p]? = some records →
    ∃ data, d.readPage p = .ok data ∧ data.length = d.pageSize ∧
      Holds (data.drop header) records

namespace Stored

variable {header : Nat} {d d' : DiskManager} {rs : RecordPages} {p : Nat}
  {records : List (Option Bytes)} {data : Bytes}

theorem exists_of_valid (h : Stored header d rs) {pageId : Int}
    (hvalid : d.validPageId pageId) :
    ∃ (p : Nat) (records : List (Option Bytes)), pageId = p ∧ rs[p]? = some records := by
  have hcount := h.count
  obtain ⟨hneg, hlt⟩ := hvalid
  have hp : pageId.toNat < rs.length := by omega
  exact ⟨pageId.toNat, rs[pageId.toNat], by omega, List.getElem?_eq_getElem hp⟩

theorem set (h : Stored header d rs) (hwrite : d.writePage p data = .ok d')
    (hlen : data.length = d.pageSize) (hholds : Holds (data.drop header) records) :
    Stored header d' (rs.set p records) := by
  have hsize := page_size_write_page hwrite
  refine ⟨?_, ?_, ?_, ?_⟩
  · rw [hsize]
    exact h.page_size_low
  · rw [hsize]
    exact h.page_size_high
  · rw [page_count_write_page hwrite, List.length_set]
    exact h.count
  · intro q records' hq
    rw [read_page_write_page hwrite, hsize]
    rw [List.getElem?_set] at hq
    by_cases hpq : p = q
    · subst hpq
      rw [if_pos rfl] at hq
      rw [if_pos rfl]
      split at hq
      · rw [Option.some.injEq] at hq
        subst hq
        exact ⟨data, rfl, hlen, hholds⟩
      · cases hq
    · rw [if_neg hpq] at hq
      rw [if_neg (by omega)]
      exact h.page hq

/-- A new page without records. -/
theorem grow (h : Stored header d rs)
    (hwrite : d.allocatePage.2.writePage d.pageCount data = .ok d')
    (hlen : data.length = d.pageSize) (hholds : Holds (data.drop header) []) :
    Stored header d' (rs ++ [[]]) := by
  have hsize := page_size_write_page hwrite
  rw [page_size_allocate_page] at hsize
  refine ⟨?_, ?_, ?_, ?_⟩
  · rw [hsize]
    exact h.page_size_low
  · rw [hsize]
    exact h.page_size_high
  · rw [page_count_write_page hwrite, page_count_allocate_page, h.count,
      List.length_append, List.length_singleton]
  · intro q records' hq
    have hcount := h.count
    rw [read_page_write_page hwrite, hsize]
    by_cases hlast : q = rs.length
    · subst hlast
      rw [List.getElem?_append_right le_rfl, Nat.sub_self, List.getElem?_cons_zero,
        Option.some.injEq] at hq
      subst hq
      rw [if_pos (by omega)]
      exact ⟨data, rfl, hlen, hholds⟩
    · have hlt : q < rs.length := by
        obtain ⟨hq', _⟩ := List.getElem?_eq_some_iff.mp hq
        rw [List.length_append, List.length_singleton] at hq'
        omega
      rw [List.getElem?_append_left hlt] at hq
      obtain ⟨data', hread, hlen', hholds'⟩ := h.page hq
      rw [if_neg (by omega)]
      exact ⟨data', read_page_allocate_page hread, hlen', hholds'⟩

end Stored

/-! ## File organizations -/

/-- The operations of a file organization, on files of a type. -/
structure Organization (S : Type) where
  insert : Bytes → Effect PyError S RID
  fetch : RID → Effect PyError S (Option Bytes)
  remove : RID → Effect PyError S Bool
  /-- Close the file and open its pages again. -/
  reopen : Effect PyError S Unit

/-- What is done to a file; compactions and reorganizations come with it. -/
inductive Action
  | insert (data : Bytes)
  | remove (rid : RID)
  | reopen
deriving DecidableEq, Repr

/-- What an action gives. -/
inductive Outcome
  | inserted (result : Except PyError RID)
  | removed (result : Except PyError Bool)
  | reopened (result : Except PyError Unit)

/-- A file with the records it should hold. -/
structure History (S : Type) where
  file : S
  records : FileOrganization Bytes

namespace Organization

variable {S : Type}

/-- The file takes a step; the records follow the results it gives. -/
def step (o : Organization S) (h : History S) : Action → History S
  | .insert data =>
      match o.insert data h.file with
      | (.ok rid, s) => ⟨s, h.records.insert rid data⟩
      | (.error _, s) => ⟨s, h.records⟩
  | .remove rid => ⟨(o.remove rid h.file).2, h.records.remove rid⟩
  | .reopen => ⟨(o.reopen h.file).2, h.records⟩

/-- Take an action on a file. -/
def perform (o : Organization S) (s : S) : Action → Outcome × S
  | .insert data => (.inserted (o.insert data s).1, (o.insert data s).2)
  | .remove rid => (.removed (o.remove rid s).1, (o.remove rid s).2)
  | .reopen => (.reopened (o.reopen s).1, (o.reopen s).2)

/-- The state of the file after an action. -/
def act (o : Organization S) (s : S) (action : Action) : S := (o.perform s action).2

theorem step_file (o : Organization S) (h : History S) (action : Action) :
    (o.step h action).file = o.act h.file action := by
  cases action with
  | insert data =>
      rw [step, act, perform]
      rcases o.insert data h.file with ⟨e | rid, s⟩ <;> rfl
  | remove rid => rfl
  | reopen => rfl

/-- A RID shows the record it was given out for until that record is removed, and the next
insert gives out a new one. -/
structure KeepsRids (o : Organization S) (h : History S) : Prop where
  fetched : ∀ rid, (o.fetch rid h.file).1 = .ok (h.records.fetch rid)
  fresh : ∀ data rid, (o.insert data h.file).1 = .ok rid → rid ∉ h.records.used

/-- What each operation does to the slots of the file. -/
structure KeepsSlots (o : Organization S) (Inv : S → RecordPages → Prop) : Prop where
  fetch : ∀ {s rs}, Inv s rs → ∀ rid, o.fetch rid s = (.ok (slotOf rs rid).join, s)
  insert : ∀ {s rs}, Inv s rs → ∀ data,
    wp (o.insert data)
      (fun rid s' => slotOf rs rid = none ∧ ∃ rs', Inv s' rs' ∧
        ∀ r, slotOf rs' r = if r = rid then some (some data) else slotOf rs r)
      (fun _ s' => ∃ rs', Inv s' rs' ∧ ∀ r, slotOf rs' r = slotOf rs r) s
  remove : ∀ {s rs}, Inv s rs → ∀ rid, ∃ rs', Inv (o.remove rid s).2 rs' ∧
    ∀ r, slotOf rs' r = if r = rid then (slotOf rs r).map (fun _ => none) else slotOf rs r
  reopen : ∀ {s rs}, Inv s rs → ∃ rs', Inv (o.reopen s).2 rs' ∧ ∀ r, slotOf rs' r = slotOf rs r

variable {o : Organization S} {Inv : S → RecordPages → Prop}

/-- The slots of the file show the records, and no slot that was given out is free. -/
def Follows (Inv : S → RecordPages → Prop) (h : History S) : Prop :=
  ∃ rs, Inv h.file rs ∧ (∀ rid, (slotOf rs rid).join = h.records.fetch rid) ∧
    ∀ rid ∈ h.records.used, (slotOf rs rid).isSome

namespace KeepsSlots

theorem step (hkeeps : KeepsSlots o Inv) {h : History S} (hfollows : Follows Inv h)
    (action : Action) : Follows Inv (o.step h action) := by
  obtain ⟨rs, hinv, hshow, hused⟩ := hfollows
  cases action with
  | insert data =>
      have hwp := hkeeps.insert hinv data
      rw [Organization.step]
      rcases hrun : o.insert data h.file with ⟨e | rid, s⟩
      · obtain ⟨rs', hinv', hslots⟩ := wp_error hwp hrun
        refine ⟨rs', hinv', ?_, ?_⟩
        · intro r
          rw [hslots]
          exact hshow r
        · intro r hr
          rw [hslots]
          exact hused r hr
      · obtain ⟨hfree, rs', hinv', hslots⟩ := wp_ok hwp hrun
        have hfresh : rid ∉ h.records.used := by
          intro hmem
          have hsome := hused rid hmem
          rw [hfree] at hsome
          cases hsome
        refine ⟨rs', hinv', ?_, ?_⟩
        · intro r
          rw [hslots, fetch_insert hfresh]
          split
          · rfl
          · exact hshow r
        · intro r hr
          rw [hslots]
          split
          · rfl
          · next hne =>
              rw [used_insert hfresh, List.mem_cons] at hr
              exact hused r (hr.resolve_left hne)
  | remove rid =>
      obtain ⟨rs', hinv', hslots⟩ := hkeeps.remove hinv rid
      refine ⟨rs', hinv', ?_, ?_⟩
      · intro r
        simp only [Organization.step]
        rw [hslots, fetch_remove]
        split
        · cases slotOf rs r <;> rfl
        · exact hshow r
      · intro r hr
        rw [hslots]
        have hsome := hused r hr
        split
        · rw [Option.isSome_map]
          exact hsome
        · exact hsome
  | reopen =>
      obtain ⟨rs', hinv', hslots⟩ := hkeeps.reopen hinv
      refine ⟨rs', hinv', ?_, ?_⟩
      · intro r
        rw [hslots]
        exact hshow r
      · intro r hr
        rw [hslots]
        exact hused r hr

theorem keepsRids (hkeeps : KeepsSlots o Inv) {h : History S} (hfollows : Follows Inv h) :
    KeepsRids o h := by
  obtain ⟨rs, hinv, hshow, hused⟩ := hfollows
  constructor
  · intro rid
    rw [hkeeps.fetch hinv rid, hshow]
  · intro data rid hrun hmem
    have hwp := hkeeps.insert hinv data
    rcases hres : o.insert data h.file with ⟨e | r, s⟩
    · rw [hres] at hrun
      cases hrun
    · obtain ⟨hfree, _⟩ := wp_ok hwp hres
      rw [hres] at hrun
      cases hrun
      have hsome := hused rid hmem
      rw [hfree] at hsome
      cases hsome

/-- In every state of every run RIDs are kept. -/
theorem always (hkeeps : KeepsSlots o Inv) {s : S} {rs : RecordPages} (hinv : Inv s rs)
    (hempty : ∀ rid, slotOf rs rid = none) (actions : List Action) :
    Always (KeepsRids o) (o.step) ⟨s, empty⟩ actions := by
  refine Always.mono (fun h hf => hkeeps.keepsRids hf) ?_
  have hstart : Follows Inv (⟨s, empty⟩ : History S) := by
    refine ⟨rs, hinv, ?_, ?_⟩
    · intro rid
      rw [hempty]
      rfl
    · intro rid hrid
      exact absurd hrid List.not_mem_nil
  exact always_of_every_step (fun h a hf => hkeeps.step hf a) actions hstart

end KeepsSlots
end Organization

end SoupDB
