import SoupDB.Storage.SlottedPage

/-!
# SoupDB: slotted pages after any calls

`Reached page_size page rs` says that calls of `insertRecord`, `deleteRecord` and `compact` on
a fresh page have left this page, with the bytes that were inserted slot by slot.  Every page
reached is `Sound`: its live ranges are apart and between the directory and the page end, every
slot reads what was inserted, and its bytes are accounted for, before and after a compaction.
-/

namespace SoupDB.SlottedPage

/-- The page after calls on a fresh one, and the bytes inserted: none where they were deleted. -/
inductive Reached (pageSize : Int) : Bytes → List (Option Bytes) → Prop
  | fresh {page : Bytes} : newPage pageSize = .ok page → Reached pageSize page []
  | inserted {page page' data : Bytes} {rs : List (Option Bytes)} {slot : Nat} :
      Reached pageSize page rs → insertRecord page data = .ok (some slot, page') →
      Reached pageSize page' (rs ++ [some data])
  | full {page page' data : Bytes} {rs : List (Option Bytes)} :
      Reached pageSize page rs → insertRecord page data = .ok (none, page') →
      Reached pageSize page' rs
  | deleted {page page' : Bytes} {rs : List (Option Bytes)} {slot : Int} :
      Reached pageSize page rs → deleteRecord page slot = .ok (true, page') →
      Reached pageSize page' (tombstone rs slot)
  | absent {page page' : Bytes} {rs : List (Option Bytes)} {slot : Int} :
      Reached pageSize page rs → deleteRecord page slot = .ok (false, page') →
      Reached pageSize page' rs
  | compacted {page page' : Bytes} {rs : List (Option Bytes)} :
      Reached pageSize page rs → compact page = .ok page' → Reached pageSize page' rs

/-- The live ranges of the directory. -/
structure Apart (page : Bytes) (rs : List (Option Bytes)) (slots : List (Nat × Nat)) : Prop where
  length : slots.length = rs.length
  live : ∀ (i : Nat) (s : Nat × Nat), slots[i]? = some s →
    (s.1 = TOMBSTONE_OFFSET ↔ rs[i]? = some none)
  inside : ∀ s ∈ slots, s.1 ≠ TOMBSTONE_OFFSET →
    slotPosition slots.length ≤ s.1 ∧ s.1 + s.2 ≤ page.length
  disjoint : slots.Pairwise Disjoint

/-- The bytes of a page: free, reclaimable, of live records, of the header and the directory. -/
structure Account (page : Bytes) (rs : List (Option Bytes)) (free reclaimable live : Nat) :
    Prop where
  freeSpace : freeSpace page = .ok free
  reclaimableSpace : reclaimableSpace page = .ok reclaimable
  liveBytes : liveBytes page = .ok live
  total : free + reclaimable + live + HEADER_SIZE + rs.length * SLOT_SIZE = page.length

/-- The page is in order. -/
structure Sound (pageSize : Int) (page : Bytes) (rs : List (Option Bytes)) : Prop where
  size : (page.length : Int) = pageSize
  slots : ∃ slots, readSlots page = .ok slots ∧ Apart page rs slots
  slotCount : slotCount page = .ok rs.length
  readRecord : ∀ slot, readRecord page slot = .ok (recordAt rs slot)
  insertRecord : ∀ data, insertRecord page data = .ok (none, page) ∨
    ∃ page', insertRecord page data = .ok (some rs.length, page')
  deleteRecord : ∀ slot, ∃ page', deleteRecord page slot = .ok ((recordAt rs slot).isSome, page')
  compact : ∃ page' free reclaimable live, Account page rs free reclaimable live ∧
    compact page = .ok page' ∧ page'.length = page.length ∧
    SlottedPage.slotCount page' = .ok rs.length ∧
    (∀ slot, SlottedPage.readRecord page' slot = .ok (recordAt rs slot)) ∧
    Account page' rs (free + reclaimable) 0 live

section Steps

variable {page : Bytes} {rs : List (Option Bytes)}

/-- What the directory of a page says of its records. -/
theorem Holds.apart (h : Holds page rs) :
    ∃ slots, readSlots page = .ok slots ∧ Apart page rs slots := by
  obtain ⟨slots, offset, hslotted, rfl⟩ := h
  refine ⟨slots, hslotted.read_slots_eq, by rw [records, List.length_map], ?_, ?_,
    hslotted.disjoint⟩
  · intro i s hi
    rw [records, List.getElem?_map, hi, Option.map_some, Option.some_inj, record]
    split <;> simp_all
  · intro s hs hlive
    obtain ⟨hlow, hhigh⟩ := hslotted.inside s hs hlive
    exact ⟨hslotted.room.trans hlow, hhigh⟩

theorem Holds.liveBytes (h : Holds page rs) : liveBytes page = .ok (payload rs) := by
  obtain ⟨slots, offset, hslotted, rfl⟩ := h
  rw [hslotted.live_bytes_eq, hslotted.payload_records]

theorem Holds.account (h : Holds page rs) :
    ∃ free reclaimable, Account page rs free reclaimable (payload rs) := by
  obtain ⟨free, reclaimable, hfree, hreclaimable, htotal, -, -⟩ := h.insertRecord
  refine ⟨free, reclaimable, hfree, hreclaimable, h.liveBytes, ?_⟩
  rw [slotPosition] at htotal
  omega

theorem Holds.sound (h : Holds page rs) : Sound page.length page rs where
  size := rfl
  slots := h.apart
  slotCount := h.slotCount
  readRecord := h.readRecord
  insertRecord data := by
    obtain ⟨free, -, -, -, -, hfull, hfit⟩ := h.insertRecord
    rcases Nat.lt_or_ge free (data.length + SLOT_SIZE) with hlt | hge
    · exact .inl (hfull data hlt)
    · obtain ⟨page', hinsert, -, -⟩ := hfit data hge
      exact .inr ⟨page', hinsert⟩
  deleteRecord slot := by
    obtain ⟨page', hdelete, -, -⟩ := h.deleteRecord slot
    exact ⟨page', hdelete⟩
  compact := by
    obtain ⟨free, reclaimable, haccount⟩ := h.account
    obtain ⟨page', hcompact, hholds, hlength, hzero⟩ := h.compact
    obtain ⟨free', reclaimable', haccount'⟩ := hholds.account
    have hnone : reclaimable' = 0 := by
      have hsame := haccount'.reclaimableSpace.symm.trans hzero
      exact_mod_cast Except.ok.inj hsame
    have htotal := haccount.total
    have htotal' := haccount'.total
    obtain rfl : free' = free + reclaimable := by omega
    subst hnone
    exact ⟨page', free, reclaimable, payload rs, haccount, hcompact, hlength, hholds.slotCount,
      hholds.readRecord, haccount'⟩

/-- Every call keeps the records of the page. -/
theorem Reached.holds {pageSize : Int} (h : Reached pageSize page rs) :
    Holds page rs ∧ (page.length : Int) = pageSize := by
  induction h with
  | fresh hnew => exact Holds.newPage hnew
  | @inserted page page' data rs slot _ hinsert ih =>
      obtain ⟨hholds, hlength⟩ := ih
      obtain ⟨free, -, -, -, -, hfull, hfit⟩ := hholds.insertRecord
      rcases Nat.lt_or_ge free (data.length + SLOT_SIZE) with hlt | hge
      · rw [hfull data hlt] at hinsert
        cases hinsert
      · obtain ⟨page'', hinsert', hholds', hlength'⟩ := hfit data hge
        rw [hinsert'] at hinsert
        cases hinsert
        exact ⟨hholds', by rw [hlength', hlength]⟩
  | @full page page' data rs _ hinsert ih =>
      obtain ⟨hholds, hlength⟩ := ih
      obtain ⟨free, -, -, -, -, hfull, hfit⟩ := hholds.insertRecord
      rcases Nat.lt_or_ge free (data.length + SLOT_SIZE) with hlt | hge
      · rw [hfull data hlt] at hinsert
        cases hinsert
        exact ⟨hholds, hlength⟩
      · obtain ⟨page'', hinsert', -, -⟩ := hfit data hge
        rw [hinsert'] at hinsert
        cases hinsert
  | @deleted page page' rs slot _ hdelete ih =>
      obtain ⟨hholds, hlength⟩ := ih
      obtain ⟨page'', hdelete', hholds', hlength'⟩ := hholds.deleteRecord slot
      rw [hdelete'] at hdelete
      obtain ⟨-, rfl⟩ : (recordAt rs slot).isSome = true ∧ page'' = page' := by
        simpa using hdelete
      exact ⟨hholds', by rw [hlength', hlength]⟩
  | @absent page page' rs slot _ hdelete ih =>
      obtain ⟨hholds, hlength⟩ := ih
      obtain ⟨page'', hdelete', hholds', hlength'⟩ := hholds.deleteRecord slot
      rw [hdelete'] at hdelete
      obtain ⟨hnone, rfl⟩ : (recordAt rs slot).isSome = false ∧ page'' = page' := by
        simpa using hdelete
      rw [tombstone_of_none (by simpa using hnone)] at hholds'
      exact ⟨hholds', by rw [hlength', hlength]⟩
  | @compacted page page' rs _ hcompact ih =>
      obtain ⟨hholds, hlength⟩ := ih
      obtain ⟨page'', hcompact', hholds', hlength', -⟩ := hholds.compact
      rw [hcompact'] at hcompact
      cases hcompact
      exact ⟨hholds', by rw [hlength', hlength]⟩

end Steps

/-- Every page of an admitted size is in order after any calls. -/
theorem slotted_page_sound {pageSize : Int} :
    (4 ≤ pageSize ∧ pageSize ≤ 65535 → ∃ page, newPage pageSize = .ok page) ∧
      ∀ page rs, Reached pageSize page rs → Sound pageSize page rs := by
  constructor
  · rintro ⟨hlow, hhigh⟩
    obtain ⟨n, rfl⟩ : ∃ n : Nat, pageSize = n := ⟨pageSize.toNat, by omega⟩
    obtain ⟨page, hpage, -, -⟩ := @new_page_ok n (by omega) (by omega)
    exact ⟨page, hpage⟩
  · intro page rs h
    obtain ⟨hholds, rfl⟩ := h.holds
    exact hholds.sound

/-- A page of 20 bytes: of two records the first is deleted, a third one has no room before the
page is compacted, and after it stands below the second. -/
theorem slotted_page_sound_compacted :
    (∃ page, newPage 20 = .ok page) ∧
      Sound 20 [3, 0, 16, 0, 0, 0, 3, 0, 18, 0, 2, 0, 16, 0, 2, 0, 6, 6, 4, 5]
        [none, some [4, 5], some [6, 6]] := by
  refine ⟨slotted_page_sound.1 ⟨by decide, by decide⟩, slotted_page_sound.2 _ _ ?_⟩
  have hfresh : Reached 20 [0, 0, 20, 0, 0, 0, 0, 0, 0, 0, 0, 0, 0, 0, 0, 0, 0, 0, 0, 0] [] :=
    .fresh (by decide)
  have hfirst : Reached 20 [1, 0, 17, 0, 17, 0, 3, 0, 0, 0, 0, 0, 0, 0, 0, 0, 0, 7, 8, 9]
      ([] ++ [some [7, 8, 9]]) := @.inserted 20 _ _ [7, 8, 9] _ 0 hfresh (by decide)
  have hsecond : Reached 20 [2, 0, 15, 0, 17, 0, 3, 0, 15, 0, 2, 0, 0, 0, 0, 4, 5, 7, 8, 9]
      ([some [7, 8, 9]] ++ [some [4, 5]]) :=
    @.inserted 20 _ _ [4, 5] _ 1 hfirst (by decide)
  have hdeleted : Reached 20 [2, 0, 15, 0, 0, 0, 3, 0, 15, 0, 2, 0, 0, 0, 0, 4, 5, 7, 8, 9]
      [none, some [4, 5]] := @.deleted 20 _ _ _ 0 hsecond (by decide)
  have hfull : Reached 20 [2, 0, 15, 0, 0, 0, 3, 0, 15, 0, 2, 0, 0, 0, 0, 4, 5, 7, 8, 9]
      [none, some [4, 5]] := @.full 20 _ _ [6, 6] _ hdeleted (by decide)
  have hcompacted : Reached 20 [2, 0, 18, 0, 0, 0, 3, 0, 18, 0, 2, 0, 0, 0, 0, 4, 5, 7, 4, 5]
      [none, some [4, 5]] :=
    .compacted hfull (by decide +kernel)
  exact @.inserted 20 _ _ [6, 6] _ 2 hcompacted (by decide)

end SoupDB.SlottedPage
