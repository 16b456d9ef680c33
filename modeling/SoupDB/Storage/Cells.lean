import SoupDB.Common.Struct
import SoupDB.Storage.DiskManager

/-!
# SoupDB: cells of a file

A cell is a place in a page that a value of a struct stands in.  The files of the vector indexes
are made of cells that do not overlap: what a write does to one cell it does to no other
(`wp_pack_into`), and a new page has no cells yet (`wp_allocate`).

A page that is pinned shows the last bytes written to it, so a write to a cell is one step here.
-/

namespace SoupDB.DiskManager

open Effect

variable {α β : Type}

def readStruct (d : DiskManager) (S : Struct α) (pageId : Int) (offset : Nat) :
    Except PyError α :=
  d.readPage pageId >>= S.unpackFrom offset

/-- Pin a page and pack a struct into it.  A `pack_into` that raises leaves the page pinned, and
what it wrote into the frame unmarked; pins are not part of the state here, so the runs of a
file are those in which what is packed fits. -/
def packInto (S : Struct α) (pageId : Int) (offset : Nat) (a : α) :
    Effect PyError DiskManager Unit := fun d =>
  match d.readPage pageId >>= S.packInto offset a with
  | .error e => (.error e, d)
  | .ok frame => (.ok (), { d with pages := d.pages.set pageId.toNat frame })

/-- `disk_manager.allocate_page()`.  The system has no file of 2 ^ 63 bytes; its OSError has no
class of its own here. -/
def allocate : Effect PyError DiskManager Int := fun d =>
  if (d.pageCount + 1) * d.pageSize < 2 ^ 63 then (.ok d.allocatePage.1, d.allocatePage.2)
  else (.error (.RuntimeError "File too large"), d)

/-- The value stands at this place. -/
def Cell (d : DiskManager) (S : Struct α) (p : Int) (offset : Nat) (a : α) : Prop :=
  d.readStruct S p offset = .ok a

/-- The page reaches to this offset. -/
def Room (d : DiskManager) (p : Int) (stop : Nat) : Prop :=
  ∃ page, d.readPage p = .ok page ∧ stop ≤ page.length

/-- Every page has the size of a page, and the file that of a file. -/
structure Sized (d : DiskManager) : Prop where
  rooms : ∀ p, d.validPageId p → Room d p d.pageSize
  limit : d.pageCount * d.pageSize < 2 ^ 63

/-- The places do not overlap. -/
def Apart (p q : Int) (offset size offset' size' : Nat) : Prop :=
  p ≠ q ∨ offset + size ≤ offset' ∨ offset' + size' ≤ offset

/-- Nothing but this place changed. -/
structure Wrote (d d' : DiskManager) (p : Int) (offset size : Nat) : Prop where
  pageSize : d'.pageSize = d.pageSize
  pageCount : d'.pageCount = d.pageCount
  cells : ∀ {β : Type} {T : Struct β} {q : Int} {offset' : Nat} {b : β}, Cell d T q offset' b →
    Apart q p offset' T.size offset size → Cell d' T q offset' b
  rooms : ∀ {q : Int} {stop : Nat}, Room d q stop → Room d' q stop

/-- The file has one more page. -/
structure Extended (d d' : DiskManager) : Prop where
  pageSize : d'.pageSize = d.pageSize
  pageCount : d'.pageCount = d.pageCount + 1
  cells : ∀ {β : Type} {T : Struct β} {q : Int} {offset : Nat} {b : β}, Cell d T q offset b →
    Cell d' T q offset b
  rooms : ∀ {q : Int} {stop : Nat}, Room d q stop → Room d' q stop
  room : Room d' d.pageCount d.pageSize
  limit : d'.pageCount * d'.pageSize < 2 ^ 63

section Cells

variable {d d' : DiskManager} {S : Struct α} {T : Struct β} {p q : Int} {offset stop size : Nat}
  {a : α}

theorem cell_iff : Cell d S p offset a ↔
    ∃ page, d.readPage p = .ok page ∧ S.unpackFrom offset page = .ok a := bind_eq_ok

theorem Room.mono {stop' : Nat} (h : Room d p stop) (hle : stop' ≤ stop) : Room d p stop' := by
  obtain ⟨page, hpage, hstop⟩ := h
  exact ⟨page, hpage, hle.trans hstop⟩

/-- Where there is room a value stands, whatever it is. -/
theorem Room.cell (S : Struct α) (h : Room d p (offset + S.size)) : ∃ a, Cell d S p offset a := by
  obtain ⟨page, hpage, hstop⟩ := h
  exact ⟨_, cell_iff.mpr ⟨page, hpage, if_neg (by omega)⟩⟩

theorem Cell.room (h : Cell d S p offset a) : Room d p (offset + S.size) := by
  obtain ⟨page, hpage, hunpack⟩ := cell_iff.mp h
  refine ⟨page, hpage, ?_⟩
  unfold Struct.unpackFrom at hunpack
  split at hunpack
  · cases hunpack
  · next hroom => omega

theorem Cell.first {ab : α × β} (h : Cell d (S.pair T) p offset ab) : Cell d S p offset ab.1 := by
  obtain ⟨page, hpage, hunpack⟩ := cell_iff.mp h
  exact cell_iff.mpr ⟨page, hpage, Struct.unpack_first hunpack⟩

theorem Cell.unique {b : α} (h : Cell d S p offset a) (h' : Cell d S p offset b) : a = b :=
  Except.ok.inj (h.symm.trans h')

theorem Wrote.valid (h : Wrote d d' p offset size) : d'.validPageId q ↔ d.validPageId q := by
  rw [validPageId, validPageId, h.pageCount]

theorem Wrote.sized (h : Wrote d d' p offset size) (hsized : Sized d) : Sized d' := by
  refine ⟨fun q hq => ?_, ?_⟩
  · rw [h.pageSize]
    exact h.rooms (hsized.rooms q (h.valid.mp hq))
  · rw [h.pageCount, h.pageSize]
    exact hsized.limit

theorem Extended.sized (h : Extended d d') (hsized : Sized d) : Sized d' := by
  refine ⟨fun q hq => ?_, h.limit⟩
  rw [h.pageSize]
  rcases lt_or_ge q (d.pageCount : Int) with hlt | hge
  · exact h.rooms (hsized.rooms q ⟨hq.1, hlt⟩)
  · have hcount := hq.2
    rw [h.pageCount] at hcount
    obtain rfl : q = d.pageCount := by omega
    exact h.room

end Cells

/-! ## What the operations do -/

section Rules

variable {d : DiskManager} {S : Struct α} {p : Int} {offset : Nat} {a : α}

theorem run_pack_into {page buffer : Bytes} (hpage : d.readPage p = .ok page)
    (h : S.packInto offset a page = .ok buffer) :
    packInto S p offset a d = (.ok (), { d with pages := d.pages.set p.toNat buffer }) := by
  rw [packInto, hpage, ok_bind, h]

theorem wrote_splice {page data : Bytes} (hpage : d.readPage p = .ok page)
    (hroom : offset + data.length ≤ page.length) :
    Wrote d { d with pages := d.pages.set p.toNat (splice page offset data) } p offset
      data.length := by
  have hwrite := write_page_of_valid (validPageId_of_read_page hpage) (splice page offset data)
  have hread := read_page_write_page hwrite
  refine ⟨page_size_write_page hwrite, page_count_write_page hwrite, ?_, ?_⟩
  · rintro β T q offset' b hcell hapart
    obtain ⟨page', hpage', hunpack⟩ := cell_iff.mp hcell
    by_cases hq : q = p
    · subst hq
      rw [hpage] at hpage'
      cases hpage'
      refine cell_iff.mpr ⟨_, by rw [hread, if_pos rfl], ?_⟩
      exact Struct.unpack_splice_of_disjoint hroom hunpack (hapart.resolve_left (fun h => h rfl))
    · exact cell_iff.mpr ⟨page', by rw [hread, if_neg hq, hpage'], hunpack⟩
  · rintro q stop ⟨page', hpage', hstop⟩
    by_cases hq : q = p
    · subst hq
      rw [hpage] at hpage'
      cases hpage'
      exact ⟨_, by rw [hread, if_pos rfl], by rwa [length_splice hroom]⟩
    · exact ⟨page', by rw [hread, if_neg hq, hpage'], hstop⟩

theorem cell_splice {page data : Bytes} (hpage : d.readPage p = .ok page)
    (hroom : offset + S.size ≤ page.length) (hpack : S.pack a = .ok data) :
    Cell { d with pages := d.pages.set p.toNat (splice page offset data) } S p offset a := by
  have hwrite := write_page_of_valid (validPageId_of_read_page hpage) (splice page offset data)
  exact cell_iff.mpr ⟨_, by rw [read_page_write_page hwrite, if_pos rfl],
    Struct.unpack_pack_into hroom hpack⟩

variable {Q : Unit → DiskManager → Prop} {E : PyError → DiskManager → Prop}

theorem wp_pack_into (hfits : S.Fits a) (hroom : Room d p (offset + S.size))
    (hQ : ∀ d', Wrote d d' p offset S.size → Cell d' S p offset a → Q () d') :
    wp (packInto S p offset a) Q E d := by
  obtain ⟨data, hpack⟩ := hfits
  obtain ⟨page, hpage, hstop⟩ := hroom
  have hlength := (S.packed hpack).2.1
  have hin : offset + data.length ≤ page.length := by omega
  have hwrote := wrote_splice hpage hin
  rw [hlength] at hwrote
  exact wp_of_ok (run_pack_into hpage (Struct.pack_into_of_fits hstop hpack))
    (hQ _ hwrote (cell_splice hpage hstop hpack))

/-- A `packInto` that returns had the room it needs, for a value that fits. -/
theorem wp_pack_into_of_returns
    (hQ : ∀ d', Room d p (offset + S.size) → Wrote d d' p offset S.size → Cell d' S p offset a →
      S.Fits a → Q () d') (hE : ∀ e d', E e d') : wp (packInto S p offset a) Q E d := by
  rcases hrun : packInto S p offset a d with ⟨e | u, d'⟩
  · exact wp_of_error hrun (hE e d')
  · have hreturns := hrun
    unfold packInto at hreturns
    split at hreturns
    · cases hreturns
    · next frame hframe =>
        obtain ⟨page, hpage, hpack⟩ := bind_eq_ok.mp hframe
        unfold Struct.packInto at hpack
        split at hpack
        · cases hpack
        · split at hpack
          · cases hpack
          · next hroom =>
              obtain ⟨data, hdata, -⟩ := bind_eq_ok.mp hpack
              have hroom' : Room d p (offset + S.size) := ⟨page, hpage, by omega⟩
              exact wp_pack_into ⟨data, hdata⟩ hroom'
                (fun d' hwrote hcell => hQ d' hroom' hwrote hcell ⟨data, hdata⟩)

theorem wp_allocate {Q : Int → DiskManager → Prop} (hQ : ∀ d', Extended d d' → Q d.pageCount d')
    (hE : ∀ e, 2 ^ 63 ≤ (d.pageCount + 1) * d.pageSize → E e d) : wp allocate Q E d := by
  by_cases hlimit : (d.pageCount + 1) * d.pageSize < 2 ^ 63
  · refine wp_of_ok (if_pos hlimit) (hQ _ ⟨rfl, page_count_allocate_page, ?_, ?_, ?_, ?_⟩)
    · rintro β T q offset b hcell
      obtain ⟨page, hpage, hunpack⟩ := cell_iff.mp hcell
      exact cell_iff.mpr ⟨page, read_page_allocate_page hpage, hunpack⟩
    · rintro q stop ⟨page, hpage, hstop⟩
      exact ⟨page, read_page_allocate_page hpage, hstop⟩
    · exact ⟨_, read_page_allocate_page_new, by simp⟩
    · rw [page_count_allocate_page]
      exact hlimit
  · exact wp_of_error (if_neg hlimit) (hE _ (Nat.le_of_not_lt hlimit))

end Rules

end SoupDB.DiskManager
