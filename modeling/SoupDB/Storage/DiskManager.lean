import SoupDB.Common.Pack
import Mathlib.Data.Int.Interval

/-!
# SoupDB: the pages of a file

A file is a list of pages of one size, numbered from zero.  Every page is read and
written through the buffer manager, a write-back cache in front of the disk manager:
a page that is pinned shows the last bytes written to it, whether or not they were
flushed.  The model keeps for each page those bytes.

`read_page_write_page` and `read_page_allocate_page` say what a page holds after a
write and after an allocation.
-/

namespace SoupDB

/-- One file, page by page. -/
structure DiskManager where
  pageSize : Nat
  pages : List Bytes
deriving DecidableEq, Repr

namespace DiskManager

def pageCount (d : DiskManager) : Nat := d.pages.length

/-- The texts of the errors name the page. -/
def unallocated (pageId : Int) : PyError :=
  .ValueError s!"page_id {pageId} does not reference an allocated page"

def validPageId (d : DiskManager) (pageId : Int) : Prop :=
  0 ≤ pageId ∧ pageId < d.pageCount

instance (d : DiskManager) (pageId : Int) : Decidable (d.validPageId pageId) :=
  inferInstanceAs (Decidable (_ ∧ _))

def readPage (d : DiskManager) (pageId : Int) : Except PyError Bytes :=
  if d.validPageId pageId then .ok (d.pages.getD pageId.toNat [])
  else .error (unallocated pageId)

/-- Overwrite an allocated page. -/
def writePage (d : DiskManager) (pageId : Int) (data : Bytes) : Except PyError DiskManager :=
  if d.validPageId pageId then .ok { d with pages := d.pages.set pageId.toNat data }
  else .error (unallocated pageId)

/-- Extend the file by one zero-filled page. -/
def allocatePage (d : DiskManager) : Int × DiskManager :=
  (d.pageCount, { d with pages := d.pages ++ [List.replicate d.pageSize 0] })

variable {d d' : DiskManager} {p q : Int} {data : Bytes}

theorem validPageId_of_read_page (h : d.readPage p = .ok data) : d.validPageId p := by
  unfold readPage at h
  split at h
  · next hp => exact hp
  · cases h

theorem write_page_of_valid (h : d.validPageId p) (data : Bytes) :
    d.writePage p data = .ok { d with pages := d.pages.set p.toNat data } := by
  unfold writePage
  rw [if_pos h]

section

variable (h : d.writePage p data = .ok d')
include h

theorem write_page_ok : d.validPageId p ∧ d' = { d with pages := d.pages.set p.toNat data } := by
  unfold writePage at h
  split at h
  · next hp => exact ⟨hp, (Except.ok.inj h).symm⟩
  · cases h

@[simp] theorem page_size_write_page : d'.pageSize = d.pageSize := by
  obtain ⟨_, rfl⟩ := write_page_ok h
  rfl

theorem page_count_write_page : d'.pageCount = d.pageCount := by
  obtain ⟨_, rfl⟩ := write_page_ok h
  simp [pageCount]

/-- The page that was written holds the bytes, every other page what it held. -/
theorem read_page_write_page (q : Int) :
    d'.readPage q = if q = p then .ok data else d.readPage q := by
  obtain ⟨hp, rfl⟩ := write_page_ok h
  unfold readPage validPageId pageCount
  unfold validPageId pageCount at hp
  simp only [List.length_set]
  by_cases hq : q = p
  · subst hq
    have hlt : q.toNat < d.pages.length := by omega
    simp [hp, hlt]
  · rw [if_neg hq]
    by_cases hvalid : 0 ≤ q ∧ q < (d.pages.length : Int)
    · have hne : p.toNat ≠ q.toNat := by omega
      simp only [hvalid, and_self, if_true, List.getD_eq_getElem?_getD,
        List.getElem?_set_ne hne]
    · simp [hvalid]

end

theorem write_page_same (h : d.readPage p = .ok data) : d.writePage p data = .ok d := by
  have hp := validPageId_of_read_page h
  rw [write_page_of_valid hp]
  unfold readPage at h
  rw [if_pos hp] at h
  have hlt : p.toNat < d.pages.length := by
    unfold validPageId pageCount at hp
    omega
  have hdata : d.pages[p.toNat] = data := by
    simpa [List.getD_eq_getElem?_getD, hlt] using h
  have hset : d.pages.set p.toNat data = d.pages := by
    rw [← hdata]
    exact List.set_getElem_self hlt
  rw [hset]

@[simp] theorem page_size_allocate_page : d.allocatePage.2.pageSize = d.pageSize := rfl

@[simp] theorem page_count_allocate_page :
    d.allocatePage.2.pageCount = d.pageCount + 1 := by
  simp [allocatePage, pageCount]

theorem read_page_allocate_page (h : d.readPage p = .ok data) :
    d.allocatePage.2.readPage p = .ok data := by
  have hp := validPageId_of_read_page h
  unfold readPage at h ⊢
  rw [if_pos hp] at h
  unfold validPageId pageCount at hp
  have hlt : p.toNat < d.pages.length := by omega
  have hvalid : d.allocatePage.2.validPageId p := by
    unfold validPageId
    rw [page_count_allocate_page]
    unfold pageCount
    omega
  rw [if_pos hvalid, ← h]
  simp [allocatePage, List.getD_eq_getElem?_getD, List.getElem?_append_left hlt]

theorem validPageId_allocate_page : d.allocatePage.2.validPageId d.pageCount := by
  unfold validPageId
  rw [page_count_allocate_page]
  omega

theorem read_page_allocate_page_new :
    d.allocatePage.2.readPage d.pageCount = .ok (List.replicate d.pageSize 0) := by
  rw [readPage, if_pos validPageId_allocate_page]
  simp [allocatePage, pageCount, List.getD_eq_getElem?_getD]

theorem validPageId_allocate_page_of_valid (h : d.validPageId p) :
    d.allocatePage.2.validPageId p := by
  unfold validPageId at h ⊢
  rw [page_count_allocate_page]
  omega

/-- Page ids of one file that do not repeat are at most as many as its pages. -/
theorem length_le_page_count {ps : List Int} (hnodup : ps.Nodup)
    (hvalid : ∀ p ∈ ps, d.validPageId p) : ps.length ≤ d.pageCount := by
  have hsub : ps.toFinset ⊆ Finset.Ico 0 (d.pageCount : Int) := by
    intro p hp
    have h := hvalid p (List.mem_toFinset.mp hp)
    exact Finset.mem_Ico.mpr h
  have hcard := Finset.card_le_card hsub
  rw [List.toFinset_card_of_nodup hnodup, Int.card_Ico] at hcard
  omega

end DiskManager
end SoupDB
