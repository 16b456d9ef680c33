import SoupDB.Storage.SequentialFile

/-!
# SoupDB: what a sequential file writes

A sequential file writes in three ways: it changes the records of a page and leaves its
header (`Rebodied`), changes the header and leaves the records (`Relinked`), or appends a
fresh page (`Appended`).  Each program that writes a page is reduced to one of them.
-/

namespace SoupDB.SequentialFile

open Effect SlottedPage SequentialPage

/-- A page that carries these records behind a header. -/
structure Frame (d : DiskManager) (pageId : Int) (frame : Bytes)
    (records : List (Option Bytes)) : Prop where
  read : d.readPage pageId = .ok frame
  length : frame.length = d.pageSize
  header : SequentialPage.HEADER_SIZE ≤ frame.length
  holds : Holds (body frame) records

/-- The records of a page change, its header stays. -/
structure Rebodied (d : DiskManager) (pageId : Int) (frame : Bytes)
    (records : List (Option Bytes)) (d' : DiskManager) : Prop where
  written : ∃ b, d.writePage pageId (withBody frame b) = .ok d' ∧
    b.length = (body frame).length ∧ Holds b records

/-- The header of a page changes, its records stay. -/
structure Relinked (d : DiskManager) (pageId : Int) (frame frame' : Bytes)
    (d' : DiskManager) : Prop where
  written : d.writePage pageId frame' = .ok d'
  length : frame'.length = frame.length
  same_body : body frame' = body frame

/-- A fresh page at the end of the file. -/
structure Appended (d : DiskManager) (kind : Nat) (frame : Bytes) (d' : DiskManager) : Prop where
  written : d.allocatePage.2.writePage d.pageCount frame = .ok d'
  length : frame.length = d.pageSize
  header : HasHeader frame kind NONE_PAGE NONE_PAGE
  empty : Slotted (body frame) [] (body frame).length

theorem Appended.holds {d d' : DiskManager} {kind : Nat} {frame : Bytes}
    (h : Appended d kind frame d') : Holds (body frame) [] :=
  ⟨[], _, h.empty, rfl⟩

section Pages

variable {d d' : DiskManager} {rs : RecordPages} {p : Nat} {pageId : Int} {frame frame' : Bytes}
  {records records' : List (Option Bytes)} {kind : Nat}

theorem frame_of_stored (h : Stored SequentialPage.HEADER_SIZE d rs) (hp : rs[p]? = some records) :
    ∃ frame, Frame d p frame records := by
  obtain ⟨frame, hread, hlen, hholds⟩ := h.page hp
  have hlow := h.page_size_low
  exact ⟨frame, hread, hlen, by omega, hholds⟩

theorem Rebodied.stored (h : Rebodied d p frame records' d')
    (hstored : Stored SequentialPage.HEADER_SIZE d rs) (hframe : Frame d p frame records) :
    Stored SequentialPage.HEADER_SIZE d' (rs.set p records') := by
  obtain ⟨b, hwrite, hlen, hholds⟩ := h.written
  have hheader := hframe.header
  have hlength := hframe.length
  refine hstored.set hwrite ?_ ?_
  · rw [length_with_body hheader, hlen, body, List.length_drop]
    omega
  · show Holds (body (withBody frame b)) records'
    rw [body_with_body hheader]
    exact hholds

theorem Relinked.stored (h : Relinked d p frame frame' d')
    (hstored : Stored SequentialPage.HEADER_SIZE d rs) (hframe : Frame d p frame records)
    (hp : rs[p]? = some records) : Stored SequentialPage.HEADER_SIZE d' rs := by
  rw [← set_same hp]
  refine hstored.set h.written ?_ ?_
  · rw [h.length, hframe.length]
  · show Holds (body frame') records
    rw [h.same_body]
    exact hframe.holds

theorem Appended.stored (h : Appended d kind frame d')
    (hstored : Stored SequentialPage.HEADER_SIZE d rs) :
    Stored SequentialPage.HEADER_SIZE d' (rs ++ [[]]) :=
  hstored.grow h.written h.length h.holds

end Pages

/-! ## Placing and deleting records -/

section Writes

variable {s : SequentialFile} {pageId : Int} {frame : Bytes} {records : List (Option Bytes)}
  {data : Bytes}

/-- Whether a page has room for the data, dead bytes included. -/
def Fits (records : List (Option Bytes)) (data : Bytes) (size : Nat) : Prop :=
  slotPosition records.length + payload records + data.length + SLOT_SIZE ≤ size

theorem with_body_self (frame : Bytes) : withBody frame (body frame) = frame := by
  rw [withBody, body, List.take_append_drop]

theorem place_spec (h : Holds (body frame) records) (data : Bytes) :
    (Fits records data (body frame).length →
      ∃ b, place data frame = .ok (some records.length, withBody frame b) ∧
        b.length = (body frame).length ∧ Holds b (records ++ [some data])) ∧
      (¬ Fits records data (body frame).length →
        ∃ b, place data frame = .ok (none, withBody frame b) ∧
          b.length = (body frame).length ∧ Holds b records) := by
  obtain ⟨free, reclaimable, _, hreclaimable, htotal, hfull, hfit⟩ := h.insertRecord
  rw [place]
  simp only [Fits]
  by_cases hroom : data.length + SLOT_SIZE ≤ free
  · obtain ⟨b, hinsert, hholds, hlen⟩ := hfit data hroom
    rw [hinsert, ok_bind]
    exact ⟨fun _ => ⟨b, rfl, hlen, hholds⟩, fun hno => absurd (by omega) hno⟩
  · rw [hfull data (by omega), ok_bind]
    simp only [hreclaimable, ok_bind]
    by_cases hdead : reclaimable = 0
    · rw [if_neg (by omega)]
      refine ⟨fun hyes => absurd hyes (by omega), fun _ => ⟨body frame, ?_, rfl, h⟩⟩
      rw [with_body_self]
    · rw [if_pos (by omega)]
      obtain ⟨packed, hcompact, hpacked, hlen, hzero⟩ := h.compact
      obtain ⟨free', reclaimable', _, hreclaimable', htotal', hfull', hfit'⟩ :=
        hpacked.insertRecord
      rw [hzero, Except.ok.injEq] at hreclaimable'
      rw [hcompact, ok_bind]
      by_cases hroom' : data.length + SLOT_SIZE ≤ free'
      · obtain ⟨b, hinsert, hholds, hlen'⟩ := hfit' data hroom'
        rw [hinsert, ok_bind]
        exact ⟨fun _ => ⟨b, rfl, by omega, hholds⟩, fun hno => absurd (by omega) hno⟩
      · rw [hfull' data (by omega), ok_bind]
        exact ⟨fun hyes => absurd hyes (by omega), fun _ => ⟨packed, rfl, hlen, hpacked⟩⟩

variable {α : Type} {Q : α → SequentialFile → Prop} {E : PyError → SequentialFile → Prop}

variable {f : Bytes → Except PyError (α × Bytes)}

section

variable (hread : s.diskManager.readPage pageId = .ok frame)
include hread

/-- The pages change, the metadata stays. -/
theorem wp_disk_frame {a : α} {frame' : Bytes} (hf : f frame = .ok (a, frame'))
    (hQ : ∀ d', s.diskManager.writePage pageId frame' = .ok d' → Q a { s with diskManager := d' }) :
    wp (disk (withFrame pageId f)) Q E s := by
  rw [disk, wp_focus]
  exact wp_with_frame hread hf hQ

theorem wp_disk_frame_error {e : PyError} (hf : f frame = .error e) (hE : E e s) :
    wp (disk (withFrame pageId f)) Q E s := by
  rw [disk, wp_focus]
  exact wp_with_frame_error hread hf hE

theorem wp_disk_read {f : Bytes → Except PyError α} (hQ : ∀ a, f frame = .ok a → Q a s)
    (hE : ∀ e, f frame = .error e → E e s) :
    wp (disk (readFrame pageId f)) Q E s := by
  rw [disk, wp_focus]
  unfold wp
  have hbind : (Except.ok frame : Except PyError Bytes).bind f = f frame := rfl
  rw [read_frame_eq, hread, hbind]
  cases hf : f frame with
  | ok a => exact hQ a hf
  | error e => exact hE e hf

end

theorem wp_place {Q : Option Nat → SequentialFile → Prop}
    (hframe : Frame s.diskManager pageId frame records) (data : Bytes)
    (hfits : Fits records data (body frame).length → ∀ d',
      Rebodied s.diskManager pageId frame (records ++ [some data]) d' →
      Q (some records.length) { s with diskManager := d' })
    (hfull : ¬ Fits records data (body frame).length → ∀ d',
      Rebodied s.diskManager pageId frame records d' → Q none { s with diskManager := d' }) :
    wp (disk (withFrame pageId (place data))) Q E s := by
  obtain ⟨hyes, hno⟩ := place_spec hframe.holds data
  by_cases h : Fits records data (body frame).length
  · obtain ⟨b, hplace, hlen, hholds⟩ := hyes h
    exact wp_disk_frame hframe.read hplace
      (fun d' hwrite => hfits h d' ⟨b, hwrite, hlen, hholds⟩)
  · obtain ⟨b, hplace, hlen, hholds⟩ := hno h
    exact wp_disk_frame hframe.read hplace
      (fun d' hwrite => hfull h d' ⟨b, hwrite, hlen, hholds⟩)

end Writes

/-! ## Fresh pages -/

section Fresh

variable {s : SequentialFile} {rs : RecordPages} {kind : Nat}

theorem new_page_frame {pageSize : Nat} (hlow : SequentialPage.HEADER_SIZE + 4 ≤ pageSize)
    (hhigh : pageSize < SequentialPage.HEADER_SIZE + 65536) (hkind : kind < 256) :
    ∃ frame, SequentialPage.newPage pageSize kind = .ok frame ∧ frame.length = pageSize ∧
      HasHeader frame kind NONE_PAGE NONE_PAGE ∧
      Slotted (body frame) [] (body frame).length := by
  obtain ⟨page, hheader, hhas, hlen, _⟩ := write_header_ok
    (show SequentialPage.HEADER_SIZE ≤ (List.replicate pageSize (0 : UInt8)).length by
      rw [List.length_replicate]; omega) hkind
    (show -2147483648 ≤ NONE_PAGE ∧ NONE_PAGE < 2147483648 by decide)
    (show -2147483648 ≤ NONE_PAGE ∧ NONE_PAGE < 2147483648 by decide)
  rw [List.length_replicate] at hlen
  obtain ⟨b, hb, hslotted, hblen⟩ := @new_page_ok (pageSize - SequentialPage.HEADER_SIZE)
    (by omega) (by omega)
  have hsize : bodySize pageSize = ((pageSize - SequentialPage.HEADER_SIZE : Nat) : Int) := by
    rw [bodySize]
    omega
  refine ⟨withBody page b, ?_, ?_, hhas.withBody b, ?_⟩
  · rw [SequentialPage.newPage, hheader, ok_bind, hsize, hb, ok_bind]
  · rw [length_with_body hhas.length, hblen]
    omega
  · rw [body_with_body hhas.length, hblen]
    exact hslotted

theorem wp_new_page {Q : Int → SequentialFile → Prop} {E : PyError → SequentialFile → Prop}
    (hstored : Stored SequentialPage.HEADER_SIZE s.diskManager rs) (hkind : kind < 256)
    (hQ : ∀ frame d', Appended s.diskManager kind frame d' →
      Q s.diskManager.pageCount
        (if kind = MAIN then
          { diskManager := d'
            pageMaxKey := s.pageMaxKey.insert s.diskManager.pageCount .null
            mainNext := s.mainNext.insert s.diskManager.pageCount none
            pageOwnerMain := s.pageOwnerMain.insert s.diskManager.pageCount
              s.diskManager.pageCount }
        else { s with diskManager := d' })) :
    wp (newPage kind) Q E s := by
  obtain ⟨frame, hnew, hlen, hheader, hempty⟩ :=
    new_page_frame hstored.page_size_low hstored.page_size_high hkind
  have hread := s.diskManager.read_page_allocate_page_new
  simp only [newPage, wp_bind, wp_get, disk, wp_focus, wp_modify]
  refine wp_with_frame hread (show _ = Except.ok ((), frame) from ?_) ?_
  · rw [hnew]
    rfl
  · intro d' hwrite
    have h := hQ frame d' ⟨hwrite, hlen, hheader, hempty⟩
    by_cases hmain : kind = MAIN
    · rw [if_pos hmain] at h ⊢
      exact h
    · rw [if_neg hmain] at h ⊢
      exact h

end Fresh

end SoupDB.SequentialFile
