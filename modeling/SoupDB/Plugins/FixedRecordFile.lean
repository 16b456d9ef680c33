import SoupDB.Storage.Cells

/-!
# SoupDB: arrays of records of fixed size

Page 0 of the file is a header with the number of records and room for the owner's metadata;
record `i` stands in page `1 + i / per_page`.  `Holds f layout records` says that the file is
such an array.  A record is appended (`Holds.wp_append`), packed in place, whole or at some of
its bytes (`Holds.wp_pack`), read (`Holds.unpack`), and all are read in order (`Holds.scan`).
Opened again the file is the same array (`Holds.opened`).
-/

namespace SoupDB

open Effect DiskManager

/-- Append-only array of fixed-size records, read and written in place. -/
structure FixedRecordFile where
  disk : DiskManager
  recordSize : Nat
  magic : Bytes
  count : Nat

namespace FixedRecordFile

variable {α β γ : Type}

/-- `_HEADER`: magic, version, record size, count. -/
def HEADER : Struct (Bytes × Nat × Nat × Nat) :=
  (Struct.raw 4).pair ((Struct.unsigned 2).pair ((Struct.unsigned 4).pair (Struct.unsigned 8)))

def VERSION : Nat := 1

def onDisk (x : Effect PyError DiskManager α) : Effect PyError FixedRecordFile α :=
  focus disk (fun disk f => { f with disk := disk }) x

def perPage (f : FixedRecordFile) : Nat := f.disk.pageSize / f.recordSize

def writeHeader : Effect PyError FixedRecordFile Unit := do
  let f ← get
  onDisk (packInto HEADER 0 0 (f.magic, VERSION, f.recordSize, f.count))

/-- `FixedRecordFile(disk_manager, buffer_manager, record_size, magic)`. -/
def opened (disk : DiskManager) (recordSize : Nat) (magic : Bytes) :
    Except PyError FixedRecordFile := do
  if recordSize = 0 ∨ disk.pageSize < recordSize then
    .error (.ValueError
      s!"record of {recordSize} bytes does not fit in a {disk.pageSize}-byte page")
  else if magic.length ≠ 4 then
    .error (.ValueError "magic must be exactly 4 bytes")
  else if disk.pageCount = 0 then
    final (do
      let _ ← onDisk allocate
      writeHeader) { disk := disk, recordSize := recordSize, magic := magic, count := 0 }
  else do
    let (storedMagic, version, storedSize, count) ← disk.readStruct HEADER 0 0
    if storedMagic ≠ magic ∨ version ≠ VERSION then
      .error (.ValueError s!"not a {repr magic} file")
    else if storedSize ≠ recordSize then
      .error (.ValueError s!"record size on disk is {storedSize}, expected {recordSize}")
    else .ok { disk := disk, recordSize := recordSize, magic := magic, count := count }

/-- `peekMeta`: the owner's metadata of an existing file. -/
def peekMeta (disk : DiskManager) (magic : Bytes) (layout : Struct β) : Except PyError β := do
  let (storedMagic, _) ← disk.readStruct HEADER 0 0
  let values ← disk.readStruct layout 0 HEADER.size
  if storedMagic ≠ magic then .error (.ValueError s!"not a {repr magic} file")
  else .ok values

def writeMeta (layout : Struct β) (values : β) : Effect PyError FixedRecordFile Unit := do
  let f ← get
  if f.disk.pageSize < HEADER.size + layout.size then
    raise (.ValueError "metadata does not fit in the header page")
  else onDisk (packInto layout 0 HEADER.size values)

def locate (f : FixedRecordFile) (index : Nat) : Int × Nat :=
  (((1 + index / f.perPage : Nat) : Int), index % f.perPage * f.recordSize)

def check (f : FixedRecordFile) (index : Int) : Except PyError Nat :=
  if 0 ≤ index ∧ index < f.count then .ok index.toNat
  else .error (.IndexError s!"record {index} out of range (count {f.count})")

def append (layout : Struct α) (values : α) : Effect PyError FixedRecordFile Nat := do
  let f ← get
  let (pageId, offset) := f.locate f.count
  if pageId = f.disk.pageCount then do
    let _ ← onDisk allocate
    onDisk (packInto layout pageId offset values)
  else onDisk (packInto layout pageId offset values)
  modify (fun f => { f with count := f.count + 1 })
  writeHeader
  pure f.count

/-- Unpack at byte `extra` of a record. -/
def unpack (f : FixedRecordFile) (index : Int) (layout : Struct α) (extra : Nat) :
    Except PyError α := do
  let index ← f.check index
  f.disk.readStruct layout (f.locate index).1 ((f.locate index).2 + extra)

/-- Pack at byte `extra` of a record. -/
def pack (index : Int) (layout : Struct α) (values : α) (extra : Nat) :
    Effect PyError FixedRecordFile Unit := do
  let f ← get
  let index ← lift (f.check index)
  onDisk (packInto layout (f.locate index).1 ((f.locate index).2 + extra) values)

/-- The pages of `scan` from this one on. -/
def scanPages (f : FixedRecordFile) (layout : Struct α) :
    Nat → Nat → Int → Except PyError (List (Nat × α))
  | 0, index, _ => if index < f.count then .error .NonTermination else .ok []
  | fuel + 1, index, pageId =>
      if index < f.count then do
        let inPage := min f.perPage (f.count - index)
        let values ← (List.range inPage).mapM (fun slot => do
          let values ← f.disk.readStruct layout pageId (slot * f.recordSize)
          .ok (index + slot, values))
        let rest ← scanPages f layout fuel (index + inPage) (pageId + 1)
        .ok (values ++ rest)
      else .ok []

/-- Every record with its index.  A loop of more rounds than records does not end. -/
def scan (f : FixedRecordFile) (layout : Struct α) : Except PyError (List (Nat × α)) :=
  f.scanPages layout f.count 0 1

/-! ## The array -/

/-- The value stands at byte `extra` of the record. -/
def Reads (f : FixedRecordFile) (i : Nat) (layout : Struct α) (extra : Nat) (a : α) : Prop :=
  f.disk.Cell layout (f.locate i).1 ((f.locate i).2 + extra) a

/-- These bytes are not among those bytes of that record. -/
def Beside (i lo size j extra size' : Nat) : Prop :=
  j ≠ i ∨ extra + size' ≤ lo ∨ lo + size ≤ extra

structure Holds (f : FixedRecordFile) (layout : Struct α) (records : List α) : Prop where
  size : layout.size = f.recordSize
  positive : 0 < f.recordSize
  fits : f.recordSize ≤ f.disk.pageSize
  packs : f.recordSize < 256 ^ 4
  magic : f.magic.length = 4
  count : f.count = records.length
  sized : f.disk.Sized
  header : f.disk.Cell HEADER 0 0 (f.magic, VERSION, f.recordSize, f.count)
  pages : 1 ≤ f.disk.pageCount
  enough : records.length ≤ (f.disk.pageCount - 1) * f.perPage
  cells : ∀ i r, records[i]? = some r → f.Reads i layout 0 r

/-- The layout of the file and its metadata stay. -/
structure Kept (f f' : FixedRecordFile) : Prop where
  pageSize : f'.disk.pageSize = f.disk.pageSize
  recordSize : f'.recordSize = f.recordSize
  magic : f'.magic = f.magic
  metadata : ∀ {β : Type} {T : Struct β} {offset : Nat} {b : β}, HEADER.size ≤ offset →
    f.disk.Cell T 0 offset b → f'.disk.Cell T 0 offset b

/-- What stands in the records stays, apart from these bytes of one of them. -/
structure KeptBeside (f f' : FixedRecordFile) (i lo size : Nat) : Prop where
  reads : ∀ {β : Type} {T : Struct β} {j extra : Nat} {b : β}, extra + T.size ≤ f.recordSize →
    Beside i lo size j extra T.size → f.Reads j T extra b → f'.Reads j T extra b

namespace Kept

variable {f g h : FixedRecordFile}

theorem refl (f : FixedRecordFile) : Kept f f := ⟨rfl, rfl, rfl, fun _ h => h⟩

theorem trans (h₁ : Kept f g) (h₂ : Kept g h) : Kept f h where
  pageSize := h₂.pageSize.trans h₁.pageSize
  recordSize := h₂.recordSize.trans h₁.recordSize
  magic := h₂.magic.trans h₁.magic
  metadata hoff hcell := h₂.metadata hoff (h₁.metadata hoff hcell)

end Kept

section Array

variable {f f' : FixedRecordFile} {layout : Struct α} {records : List α} {a : α}
  {disk : DiskManager}

@[simp] theorem wp_onDisk {x : Effect PyError DiskManager β} {Q : β → FixedRecordFile → Prop}
    {E : PyError → FixedRecordFile → Prop} :
    wp (onDisk x) Q E f ↔ wp x (fun b disk => Q b { f with disk := disk })
      (fun e disk => E e { f with disk := disk }) f.disk := wp_focus

theorem locate_of_kept (h : Kept f f') (i : Nat) : f'.locate i = f.locate i := by
  unfold locate perPage
  rw [h.pageSize, h.recordSize]

theorem Holds.per_page_pos (h : Holds f layout records) : 0 < f.perPage :=
  Nat.div_pos h.fits h.positive

theorem Holds.room (h : Holds f layout records) (i : Nat) :
    (f.locate i).2 + f.recordSize ≤ f.disk.pageSize := by
  have hslot : i % f.perPage < f.perPage := Nat.mod_lt _ h.per_page_pos
  have hmul := Nat.mul_le_mul_right f.recordSize hslot
  have hall := Nat.div_mul_le_self f.disk.pageSize f.recordSize
  rw [Nat.succ_mul] at hmul
  show i % f.perPage * f.recordSize + f.recordSize ≤ f.disk.pageSize
  unfold perPage at hmul ⊢
  omega

theorem locate_apart {i j : Nat} (hij : i ≠ j) :
    DiskManager.Apart (f.locate i).1 (f.locate j).1 (f.locate i).2 f.recordSize
      (f.locate j).2 f.recordSize := by
  by_cases hpage : i / f.perPage = j / f.perPage
  · right
    have hslot : i % f.perPage ≠ j % f.perPage := by
      intro hslot
      refine hij ?_
      rw [← Nat.div_add_mod i f.perPage, ← Nat.div_add_mod j f.perPage, hpage, hslot]
    show _ ≤ j % f.perPage * f.recordSize ∨ _ ≤ i % f.perPage * f.recordSize
    rcases Nat.lt_or_gt_of_ne hslot with hlt | hlt
    · left
      have hmul := Nat.mul_le_mul_right f.recordSize hlt
      rwa [Nat.succ_mul] at hmul
    · right
      have hmul := Nat.mul_le_mul_right f.recordSize hlt
      rwa [Nat.succ_mul] at hmul
  · left
    intro hsame
    refine hpage ?_
    have hsame : 1 + i / f.perPage = 1 + j / f.perPage := Int.ofNat.inj hsame
    omega

/-- The records are after the header page. -/
theorem locate_pos (i : Nat) : (f.locate i).1 ≠ 0 :=
  Int.natCast_ne_zero.mpr (Nat.add_pos_left Nat.one_pos _).ne'

theorem Holds.valid (h : Holds f layout records) {i : Nat} (hi : i < records.length) :
    f.disk.validPageId (f.locate i).1 := by
  have hpos := h.per_page_pos
  have hlt : i / f.perPage < f.disk.pageCount - 1 :=
    Nat.div_lt_of_lt_mul (by rw [Nat.mul_comm]; exact hi.trans_le h.enough)
  have hpages := h.pages
  refine ⟨Int.natCast_nonneg _, Int.ofNat_lt.mpr ?_⟩
  omega

/-- The number of records fits in the header. -/
theorem Holds.length_lt (h : Holds f layout records) : records.length < 2 ^ 63 := by
  have hper : f.perPage ≤ f.disk.pageSize := Nat.div_le_self _ _
  have hle := h.enough.trans (Nat.mul_le_mul (Nat.sub_le f.disk.pageCount 1) hper)
  exact hle.trans_lt h.sized.limit

theorem Holds.record_room (h : Holds f layout records) {i extra size : Nat}
    (hi : i < records.length) (hin : extra + size ≤ f.recordSize) :
    f.disk.Room (f.locate i).1 ((f.locate i).2 + extra + size) := by
  have hroom := h.room i
  exact (h.sized.rooms _ (h.valid hi)).mono (by omega)

theorem keptBeside_of_wrote {i lo size : Nat} (hin : lo + size ≤ f.recordSize)
    (hwrote : f.disk.Wrote disk (f.locate i).1 ((f.locate i).2 + lo) size) :
    KeptBeside f { f with disk := disk } i lo size := by
  constructor
  intro β T j extra b hin' hbeside hreads
  have hlocate : locate { f with disk := disk } j = f.locate j := by
    unfold locate perPage
    rw [hwrote.pageSize]
  unfold Reads at hreads ⊢
  rw [hlocate]
  refine hwrote.cells hreads ?_
  by_cases hij : j = i
  · subst hij
    right
    rcases hbeside with hne | hbefore | hafter
    · exact absurd rfl hne
    · omega
    · omega
  · rcases locate_apart (f := f) hij with hpage | hbefore | hafter
    · exact .inl hpage
    · exact .inr (.inl (by omega))
    · exact .inr (.inr (by omega))

/-- A write behind the header page keeps the layout. -/
theorem kept_of_wrote {i lo size : Nat}
    (hwrote : f.disk.Wrote disk (f.locate i).1 lo size) : Kept f { f with disk := disk } :=
  ⟨hwrote.pageSize, rfl, rfl, fun _ hcell => hwrote.cells hcell (.inl (locate_pos _).symm)⟩

/-- The records after a write into one of them, or behind them. -/
theorem Holds.of_wrote {records' : List α} {i lo size : Nat} (h : Holds f layout records)
    (hwrote : f.disk.Wrote disk (f.locate i).1 lo size)
    (hlength : records'.length = records.length)
    (hcells : ∀ j r, records'[j]? = some r → Reads { f with disk := disk } j layout 0 r) :
    Holds { f with disk := disk } layout records' := by
  refine ⟨h.size, h.positive, ?_, h.packs, h.magic, h.count.trans hlength.symm,
    hwrote.sized h.sized, hwrote.cells h.header (.inl (locate_pos _).symm), ?_, ?_, hcells⟩
  · show f.recordSize ≤ disk.pageSize
    rw [hwrote.pageSize]
    exact h.fits
  · show 1 ≤ disk.pageCount
    rw [hwrote.pageCount]
    exact h.pages
  · show _ ≤ (disk.pageCount - 1) * (disk.pageSize / f.recordSize)
    rw [hwrote.pageCount, hwrote.pageSize, hlength]
    exact h.enough

/-- A new page keeps the records. -/
theorem Holds.of_extended (h : Holds f layout records) (hextended : f.disk.Extended disk) :
    Holds { f with disk := disk } layout records ∧ Kept f { f with disk := disk } ∧
      ∀ i lo size, KeptBeside f { f with disk := disk } i lo size := by
  have hkept : Kept f { f with disk := disk } :=
    ⟨hextended.pageSize, rfl, rfl, fun _ hcell => hextended.cells hcell⟩
  have hreads : ∀ {β : Type} {T : Struct β} {j extra : Nat} {b : β}, f.Reads j T extra b →
      Reads { f with disk := disk } j T extra b := by
    intro β T j extra b hreads
    unfold Reads at hreads ⊢
    rw [locate_of_kept hkept]
    exact hextended.cells hreads
  refine ⟨⟨h.size, h.positive, ?_, h.packs, h.magic, h.count, hextended.sized h.sized,
    hextended.cells h.header, ?_, ?_, fun i r hi => hreads (h.cells i r hi)⟩, hkept,
    fun i lo size => ⟨fun _ _ hread => hreads hread⟩⟩
  · show f.recordSize ≤ disk.pageSize
    rw [hextended.pageSize]
    exact h.fits
  · show 1 ≤ disk.pageCount
    rw [hextended.pageCount]
    omega
  · show _ ≤ (disk.pageCount - 1) * (disk.pageSize / f.recordSize)
    rw [hextended.pageCount, hextended.pageSize]
    exact h.enough.trans (Nat.mul_le_mul_right _ (by omega))

end Array

/-! ## The operations -/

section Operations

variable {f f' : FixedRecordFile} {layout : Struct α} {T : Struct β} {records : List α} {a : α}
  {b : β}

variable {Q : Unit → FixedRecordFile → Prop} {E : PyError → FixedRecordFile → Prop}

section

variable (h : Holds f layout records)
include h

theorem Holds.wp_write_header (hread : f.Reads records.length layout 0 a)
    (hpage : records.length + 1 ≤ (f.disk.pageCount - 1) * f.perPage)
    (hQ : ∀ f', Holds f' layout (records ++ [a]) → Kept f f' →
      (∀ i lo size, KeptBeside f f' i lo size) →
      (∀ {β : Type} {T : Struct β} {j extra : Nat} {b : β}, f.Reads j T extra b →
        f'.Reads j T extra b) → Q () f') :
    wp writeHeader Q E { f with count := f.count + 1 } := by
  rw [writeHeader, wp_bind, wp_get, wp_onDisk]
  have hcount : f.count + 1 < 256 ^ 8 := by
    have hlt := h.length_lt
    rw [h.count]
    omega
  refine wp_pack_into ?_ h.header.room ?_
  · simp only [HEADER, Struct.fits_pair, Struct.fits_raw, Struct.fits_unsigned]
    exact ⟨h.magic, by decide, h.packs, hcount⟩
  · intro disk hwrote hheader
    have hkept : Kept f { f with disk := disk, count := f.count + 1 } :=
      ⟨hwrote.pageSize, rfl, rfl,
        fun hoff hcell => hwrote.cells hcell (.inr (.inr (by omega)))⟩
    have hreads : ∀ {β : Type} {T : Struct β} {j extra : Nat} {b : β}, f.Reads j T extra b →
        Reads { f with disk := disk, count := f.count + 1 } j T extra b := by
      intro β T j extra b hreads
      unfold Reads at hreads ⊢
      rw [locate_of_kept hkept]
      exact hwrote.cells hreads (.inl (locate_pos j))
    refine hQ _ ⟨h.size, h.positive, ?_, h.packs, h.magic, ?_, hwrote.sized h.sized, hheader,
      ?_, ?_, ?_⟩ hkept (fun i lo size => ⟨fun _ _ hread => hreads hread⟩) hreads
    · show f.recordSize ≤ disk.pageSize
      rw [hwrote.pageSize]
      exact h.fits
    · show f.count + 1 = _
      rw [h.count, List.length_append, List.length_singleton]
    · show 1 ≤ disk.pageCount
      rw [hwrote.pageCount]
      exact h.pages
    · show _ ≤ (disk.pageCount - 1) * (disk.pageSize / f.recordSize)
      rw [hwrote.pageCount, hwrote.pageSize, List.length_append, List.length_singleton]
      exact hpage
    · intro i r hi
      rcases Nat.lt_or_ge i records.length with hlt | hge
      · rw [List.getElem?_append_left hlt] at hi
        exact hreads (h.cells i r hi)
      · rw [List.getElem?_append_right hge] at hi
        obtain ⟨hbound, hr⟩ := List.getElem?_eq_some_iff.mp hi
        rw [List.length_singleton] at hbound
        obtain rfl : i = records.length := by omega
        simp only [List.getElem_singleton] at hr
        rw [← hr]
        exact hreads hread

theorem Holds.wp_append {Q : Nat → FixedRecordFile → Prop} (hT : T.size ≤ f.recordSize)
    (hfits : T.Fits b)
    (hQ : ∀ f' r, Holds f' layout (records ++ [r]) → f'.Reads records.length T 0 b →
      Kept f f' → KeptBeside f f' records.length 0 f.recordSize → Q records.length f')
    (hE : ∀ e, E e f) :
    wp (append T b) Q E f := by
  have hpos := h.per_page_pos
  have hpage : records.length / f.perPage ≤ f.disk.pageCount - 1 :=
    Nat.div_le_of_le_mul (by rw [Nat.mul_comm]; exact h.enough)
  have hpages := h.pages
  -- The record goes to the last page, or to a new one that has only this record.
  have hstep : ∀ g : FixedRecordFile, Holds g layout records → Kept f g →
      KeptBeside f g records.length 0 f.recordSize →
      records.length / g.perPage < g.disk.pageCount - 1 →
      wp (do
        onDisk (packInto T (f.locate f.count).1 (f.locate f.count).2 b)
        modify (fun f => { f with count := f.count + 1 })
        writeHeader
        pure f.count) Q E g := by
    intro g hg hkept hbeside hlt
    have hlocate : f.locate f.count = g.locate records.length := by
      rw [locate_of_kept hkept, h.count]
    have hvalid : g.disk.validPageId (g.locate records.length).1 := by
      refine ⟨Int.natCast_nonneg _, Int.ofNat_lt.mpr ?_⟩
      rw [Nat.add_comm]
      exact Nat.add_lt_of_lt_sub hlt
    have hsize : g.recordSize = f.recordSize := hkept.recordSize
    have hrecord := (hg.sized.rooms _ hvalid).mono (hg.room records.length)
    rw [hlocate]
    simp only [wp_bind, wp_onDisk, wp_modify, wp_pure]
    refine wp_pack_into hfits (hrecord.mono (by omega)) ?_
    · intro disk hwrote hcell
      have hkept' : Kept g { g with disk := disk } := kept_of_wrote hwrote
      have hbeside' := @keptBeside_of_wrote _ _ _ 0 _ (by omega) hwrote
      have hholds : Holds { g with disk := disk } layout records :=
        hg.of_wrote hwrote rfl (fun j r hj =>
          hbeside'.reads (by rw [hg.size]; omega) (.inl ((List.getElem?_eq_some_iff.mp hj).1).ne)
            (hg.cells j r hj))
      have hread : Reads { g with disk := disk } records.length T 0 b := by
        unfold Reads
        rw [locate_of_kept hkept']
        exact hcell
      have hroom : disk.Room (g.locate records.length).1
          ((g.locate records.length).2 + 0 + layout.size) :=
        hwrote.rooms (by rw [hg.size]; exact hrecord)
      obtain ⟨r, hr⟩ := DiskManager.Room.cell layout hroom
      have hr : Reads { g with disk := disk } records.length layout 0 r := by
        unfold Reads
        rw [locate_of_kept hkept']
        exact hr
      refine hholds.wp_write_header hr ?_ ?_
      · have hmul := (Nat.div_lt_iff_lt_mul hg.per_page_pos).mp hlt
        show _ ≤ (disk.pageCount - 1) * (disk.pageSize / g.recordSize)
        rw [hwrote.pageCount, hwrote.pageSize]
        exact hmul
      · intro f' hf' hkept'' hall hreads
        rw [h.count]
        refine hQ f' r hf' (hreads hread) (hkept.trans (hkept'.trans hkept'')) ?_
        refine ⟨fun hin hnext hc => ?_⟩
        refine hreads (hbeside'.reads (by rw [hsize]; exact hin) ?_ (hbeside.reads hin hnext hc))
        rcases hnext with hne | hbefore | hafter
        · exact .inl hne
        · exact .inr (.inl hbefore)
        · exact .inr (.inr (by omega))
  rw [append, wp_bind, wp_get]
  by_cases hnew : (f.locate f.count).1 = f.disk.pageCount
  · simp only [hnew, if_true]
    rw [wp_bind, wp_onDisk]
    refine wp_allocate ?_ ?_
    · intro disk hextended
      obtain ⟨hholds, hkept, hbeside⟩ := h.of_extended hextended
      have hsame : 1 + f.count / f.perPage = f.disk.pageCount := Int.ofNat.inj hnew
      rw [← hnew]
      refine hstep _ hholds hkept (hbeside _ _ _) ?_
      show records.length / (disk.pageSize / f.recordSize) < disk.pageCount - 1
      rw [hextended.pageCount, hextended.pageSize, ← h.count]
      unfold perPage at hsame
      omega
    · intro e _
      exact hE e
  · simp only [hnew, if_false]
    refine hstep f h (Kept.refl f) ⟨fun _ _ hread => hread⟩ ?_
    have hne : 1 + f.count / f.perPage ≠ f.disk.pageCount := fun heq =>
      hnew (congrArg Int.ofNat heq)
    rw [h.count] at hne
    omega

theorem Holds.unpack {i extra : Nat} (hi : i < records.length) (hread : f.Reads i T extra b) :
    f.unpack i T extra = .ok b := by
  rw [FixedRecordFile.unpack, check, if_pos (by rw [h.count]; omega), ok_bind, Int.toNat_natCast]
  exact hread

theorem Holds.wp_pack {i : Int} {extra : Nat} (hT : extra + T.size ≤ f.recordSize)
    (hfits : T.Fits b)
    (hQ : ∀ (n : Nat) f' r, i = n → n < records.length → Holds f' layout (records.set n r) →
      f'.Reads n T extra b → Kept f f' → KeptBeside f f' n extra T.size → Q () f')
    (hE : ∀ e, E e f) :
    wp (pack i T b extra) Q E f := by
  rw [pack, wp_bind, wp_get, wp_bind, check, h.count]
  by_cases hin : 0 ≤ i ∧ i < records.length
  · obtain ⟨n, rfl⟩ : ∃ n : Nat, i = n := ⟨i.toNat, by omega⟩
    have hn : n < records.length := by omega
    rw [if_pos hin, wp_lift_ok, Int.toNat_natCast, wp_onDisk]
    refine wp_pack_into hfits (h.record_room hn hT) ?_
    intro disk hwrote hcell
    have hkept : Kept f { f with disk := disk } := kept_of_wrote hwrote
    have hbeside := keptBeside_of_wrote hT hwrote
    have hroom := @Holds.record_room _ _ _ _ h n 0 layout.size hn (by rw [h.size]; omega)
    obtain ⟨r, hr⟩ := DiskManager.Room.cell layout (hwrote.rooms hroom)
    have hread : Reads { f with disk := disk } n layout 0 r := by
      unfold Reads
      rw [locate_of_kept hkept]
      exact hr
    refine hQ n _ r rfl hn (h.of_wrote hwrote List.length_set ?_) ?_ hkept hbeside
    · intro j q hj
      by_cases hjn : n = j
      · subst hjn
        rw [List.getElem?_set_self hn] at hj
        cases hj
        exact hread
      · rw [List.getElem?_set_ne hjn] at hj
        exact hbeside.reads (by rw [h.size]; omega) (.inl (Ne.symm hjn)) (h.cells j q hj)
    · unfold Reads
      rw [locate_of_kept hkept]
      exact hcell
  · rw [if_neg hin]
    exact hE _

theorem Holds.wp_write_meta (hfits : T.Fits b)
    (hQ : ∀ f', Holds f' layout records → f'.disk.Cell T 0 HEADER.size b →
      f'.disk.pageSize = f.disk.pageSize → f'.recordSize = f.recordSize → f'.magic = f.magic →
      (∀ i lo size, KeptBeside f f' i lo size) → Q () f')
    (hE : ∀ e, f.disk.pageSize < HEADER.size + T.size → E e f) :
    wp (writeMeta T b) Q E f := by
  rw [writeMeta, wp_bind, wp_get]
  by_cases hsmall : f.disk.pageSize < HEADER.size + T.size
  · rw [if_pos hsmall]
    exact hE _ hsmall
  · rw [if_neg hsmall, wp_onDisk]
    have hpages := h.pages
    have hroom : f.disk.Room 0 (HEADER.size + T.size) :=
      (h.sized.rooms 0 ⟨le_rfl, by omega⟩).mono (by omega)
    refine wp_pack_into hfits hroom ?_
    intro disk hwrote hcell
    have hreads : ∀ {γ : Type} {U : Struct γ} {j extra : Nat} {c : γ}, f.Reads j U extra c →
        Reads { f with disk := disk } j U extra c := by
      intro γ U j extra c hreads
      have hlocate : locate { f with disk := disk } j = f.locate j := by
        unfold locate perPage
        rw [hwrote.pageSize]
      unfold Reads at hreads ⊢
      rw [hlocate]
      exact hwrote.cells hreads (.inl (locate_pos j))
    refine hQ _ ⟨h.size, h.positive, ?_, h.packs, h.magic, h.count, hwrote.sized h.sized,
      hwrote.cells h.header (.inr (.inl (by omega))), ?_, ?_,
      fun i r hi => hreads (h.cells i r hi)⟩ hcell hwrote.pageSize rfl rfl
      (fun i lo size => ⟨fun _ _ hread => hreads hread⟩)
    · show f.recordSize ≤ disk.pageSize
      rw [hwrote.pageSize]
      exact h.fits
    · show 1 ≤ disk.pageCount
      rw [hwrote.pageCount]
      exact hpages
    · show _ ≤ (disk.pageCount - 1) * (disk.pageSize / f.recordSize)
      rw [hwrote.pageCount, hwrote.pageSize]
      exact h.enough

theorem Holds.peekMeta (hcell : f.disk.Cell T 0 HEADER.size b) :
    peekMeta f.disk f.magic T = .ok b := by
  rw [FixedRecordFile.peekMeta, h.header, ok_bind, hcell]
  exact if_neg (fun hne => hne rfl)

/-- Opened again the file is the same array. -/
theorem Holds.opened : opened f.disk f.recordSize f.magic = .ok f := by
  have hpositive := h.positive
  have hfits := h.fits
  have hpages := h.pages
  rw [FixedRecordFile.opened, if_neg (by omega), if_neg (by rw [h.magic]; simp),
    if_neg (by omega), h.header, ok_bind]
  simp

end

/-- A new file is the empty array. -/
theorem holds_of_opened {disk : DiskManager} {recordSize : Nat} {magic : Bytes}
    (hempty : disk.pageCount = 0) (h : FixedRecordFile.opened disk recordSize magic = .ok f)
    (hsize : layout.size = recordSize) : Holds f layout [] ∧
      f.disk.pageSize = disk.pageSize ∧ f.recordSize = recordSize ∧ f.magic = magic ∧
      f.disk.pageCount = 1 := by
  unfold FixedRecordFile.opened at h
  split at h
  · cases h
  · next hrecord =>
      split at h
      · cases h
      · next hmagic =>
          have hnone : disk.Sized := by
            refine ⟨fun p hp => ?_, by rw [hempty]; simp⟩
            have := hp.1
            have := hp.2
            omega
          refine (of_final h (E := fun _ _ => True) (Q := fun _ f => Holds f layout [] ∧
            f.disk.pageSize = disk.pageSize ∧ f.recordSize = recordSize ∧
            f.magic = magic ∧ f.disk.pageCount = 1) ?_).elim (fun _ h => h)
          rw [wp_bind, wp_onDisk]
          refine wp_allocate ?_ (fun _ _ => trivial)
          intro d hextended
          rw [writeHeader, wp_bind, wp_get, wp_onDisk]
          refine wp_pack_into_of_returns ?_ (fun _ _ => trivial)
          intro d' hroom hwrote hcell hfits
          simp only [HEADER, Struct.fits_pair, Struct.fits_unsigned] at hfits
          have hpageSize : d'.pageSize = disk.pageSize :=
            hwrote.pageSize.trans hextended.pageSize
          have hcount : d'.pageCount = disk.pageCount + 1 :=
            hwrote.pageCount.trans hextended.pageCount
          rw [hempty] at hcount
          refine ⟨⟨hsize, by show 0 < recordSize; omega, ?_, hfits.2.2.1, by simpa using hmagic,
            rfl, hwrote.sized (hextended.sized hnone), hcell, ?_, by simp, by simp⟩,
            hpageSize, rfl, rfl, hcount⟩
          · show recordSize ≤ d'.pageSize
            omega
          · show 1 ≤ d'.pageCount
            omega

variable {xs : List β} (h : Holds f layout records) (hlength : xs.length = f.count)
    (hreads : ∀ i x, xs[i]? = some x → f.Reads i T 0 x)
include h hlength hreads

theorem Holds.scanPages {fuel index page : Nat}
    (hindex : index = page * f.perPage ∨ f.count ≤ index) (hfuel : f.count ≤ fuel + index) :
    f.scanPages T fuel index ((1 + page : Nat) : Int) =
      .ok ((xs.zipIdx.map Prod.swap).drop index) := by
  have hall : (xs.zipIdx.map Prod.swap).length = f.count := by simp [hlength]
  have hend : f.count ≤ index → (xs.zipIdx.map Prod.swap).drop index = [] :=
    fun hle => List.drop_eq_nil_of_le (by rwa [hall])
  induction fuel generalizing index page with
  | zero =>
      rw [FixedRecordFile.scanPages, if_neg (by omega), hend (by omega)]
  | succ fuel ih =>
      rw [FixedRecordFile.scanPages]
      by_cases hmore : index < f.count
      · have hper := h.per_page_pos
        rw [if_pos hmore]
        have hpage : index = page * f.perPage := hindex.resolve_right (by omega)
        generalize hin : min f.perPage (f.count - index) = inPage
        have hpositive : 0 < inPage := by omega
        have hvalues : (List.range inPage).mapM (fun slot => do
            let values ← f.disk.readStruct T ((1 + page : Nat) : Int) (slot * f.recordSize)
            Except.ok (index + slot, values)) =
              .ok (((xs.zipIdx.map Prod.swap).drop index).take inPage) := by
          have hrow : ∀ slot row,
              (((xs.zipIdx.map Prod.swap).drop index).take inPage)[slot]? = some row → (do
                let values ← f.disk.readStruct T ((1 + page : Nat) : Int)
                  (slot * f.recordSize)
                Except.ok (index + slot, values) : Except PyError _) = .ok row := by
            intro slot row hrow
            rw [List.getElem?_take] at hrow
            split at hrow
            · next hslot =>
                rw [List.getElem?_drop, List.getElem?_map, List.getElem?_zipIdx] at hrow
                obtain ⟨x, hx, rfl⟩ : ∃ x, xs[index + slot]? = some x ∧
                    (index + slot, x) = row := by
                  cases hx : xs[index + slot]? with
                  | none => simp [hx] at hrow
                  | some x =>
                      refine ⟨x, rfl, ?_⟩
                      simpa [hx] using hrow
                have hdiv : (index + slot) / f.perPage = page := by
                  rw [hpage, Nat.mul_comm, Nat.mul_add_div hper,
                    Nat.div_eq_of_lt (by omega), Nat.add_zero]
                have hmod : (index + slot) % f.perPage = slot := by
                  rw [hpage, Nat.mul_comm, Nat.mul_add_mod, Nat.mod_eq_of_lt (by omega)]
                have hread : f.disk.Cell T ((1 + (index + slot) / f.perPage : Nat) : Int)
                    ((index + slot) % f.perPage * f.recordSize) x := hreads _ _ hx
                rw [hdiv, hmod] at hread
                unfold DiskManager.Cell at hread
                rw [hread, ok_bind]
            · cases hrow
          have hlong : inPage ≤ (((xs.zipIdx.map Prod.swap).drop index).take inPage).length := by
            rw [List.length_take, List.length_drop, hall]
            omega
          have hloop := mapM_range_ok hlong hrow
          rwa [List.take_take, Nat.min_self] at hloop
        have hnext : f.scanPages T fuel (index + inPage) (((1 + page : Nat) : Int) + 1) =
            .ok ((xs.zipIdx.map Prod.swap).drop (index + inPage)) := by
          have hcast : ((1 + page : Nat) : Int) + 1 = ((1 + (page + 1) : Nat) : Int) := by omega
          rw [hcast]
          refine ih ?_ (by omega) (fun hle => List.drop_eq_nil_of_le (by rwa [hall]))
          rcases Nat.le_total f.perPage (f.count - index) with hfull | hlast
          · left
            rw [hpage, Nat.succ_mul]
            omega
          · right
            omega
        simp only [hvalues, ok_bind, hnext]
        rw [← List.drop_drop, List.take_append_drop]
      · rw [if_neg hmore, hend (by omega)]

theorem Holds.scan : f.scan T = .ok (xs.zipIdx.map Prod.swap) := by
  have hscan : f.scanPages T f.count 0 ((1 + 0 : Nat) : Int) =
      .ok ((xs.zipIdx.map Prod.swap).drop 0) :=
    h.scanPages hlength hreads (.inl (by simp)) (by omega)
  exact hscan

end Operations

end FixedRecordFile
end SoupDB
