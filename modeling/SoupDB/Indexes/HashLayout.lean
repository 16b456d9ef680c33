import SoupDB.Indexes.ExtendibleHash

/-!
# SoupDB: the layout of an extendible hash file

`Layout h B slot` says what the pages of the file are: the metadata page, the directory
pages, which hold the slots `slot`, and bucket pages, which hold the buckets `B`.  Each
primitive of the index does to `B` and `slot` what it does to one page
(`Layout.wp_pin_bucket`, `Layout.wp_new_bucket`, `Layout.directorySlot`,
`Layout.wp_write_directory_slot`, `Layout.wp_extend_directory`).

`Synced h` says that the metadata page holds what is in memory, so that opening the file
gives the index back (`Synced.load`).
-/

namespace SoupDB.ExtendibleHash

open Effect DiskManager HashPage List

/-! ## Frames -/

section Frames

variable {α : Type} {h : ExtendibleHash} {p : Int} {frame : Bytes}

theorem run_peek {f : Bytes → Except PyError α} (hread : h.diskManager.readPage p = .ok frame) :
    peek p f h = (f frame, h) := by
  rw [peek, run_bind_ok _ (run_get h)]
  simp only [hread, run_bind, run_lift]

theorem wp_pin {x : Frame α} {Q : α → Bytes → Prop} {E : PyError → Bytes → Prop}
    (hread : h.diskManager.readPage p = .ok frame) (hx : wp x Q E frame) :
    wp (pin p x)
      (fun a h' => ∃ frame' d', Q a frame' ∧ h.diskManager.writePage p frame' = .ok d' ∧
        h' = { h with diskManager := d' })
      (fun e h' => ∃ frame' d', E e frame' ∧ h.diskManager.writePage p frame' = .ok d' ∧
        h' = { h with diskManager := d' }) h := by
  have hwrite := write_page_of_valid
    (validPageId_of_read_page hread) (x frame).2
  rcases hrun : x frame with ⟨e | a, frame'⟩
  · refine wp_of_error ?_ ⟨frame', _, wp_error hx hrun, hrun ▸ hwrite, rfl⟩
    simp only [pin, hread, hrun, hrun ▸ hwrite]
  · refine wp_of_ok ?_ ⟨frame', _, wp_ok hx hrun, hrun ▸ hwrite, rfl⟩
    simp only [pin, hread, hrun, hrun ▸ hwrite]

end Frames

/-! ## The layout -/

/-- How many slots the directory pages have room for. -/
def capacity (h : ExtendibleHash) : Nat := h.slotsPerPage * h.directoryPages.length

/-- The pages of the file: the buckets `B` and the slots `slot`. -/
structure Layout (h : ExtendibleHash) (B : Int → Option Bucket) (slot : Nat → Int) : Prop where
  size : HashPage.PAGE_ID_SIZE ≤ h.pageSize
  buckets : ∀ p b, B p = some b → ∃ frame, h.diskManager.readPage p = .ok frame ∧
    frame.length = h.pageSize ∧ HoldsBucket frame b
  metadata : B 0 = none ∧ (0 : Int) ∉ h.directoryPages ∧ ∃ frame,
    h.diskManager.readPage 0 = .ok frame ∧ frame.length = h.pageSize
  nodup : h.directoryPages.Nodup
  directory : ∀ i p, h.directoryPages[i]? = some p → B p = none ∧ ∃ frame,
    h.diskManager.readPage p = .ok frame ∧ frame.length = h.pageSize ∧
      ∀ j < h.slotsPerPage,
        readDirectorySlot frame j = .ok (slot (i * h.slotsPerPage + j))

/-- The metadata page holds what is in memory. -/
def Synced (h : ExtendibleHash) : Prop :=
  ∃ frame, h.diskManager.readPage 0 = .ok frame ∧
    readMetadata frame = .ok (h.globalDepth, h.maxDepth, h.directoryPages)

/-- The file of a synced index opens as the index. -/
theorem Synced.load {h : ExtendibleHash} (hsynced : Synced h) :
    ExtendibleHash.load h.diskManager = .ok h := by
  obtain ⟨frame, hread, hmetadata⟩ := hsynced
  rw [ExtendibleHash.load, hread, ok_bind, hmetadata, ok_bind]

namespace Layout

variable {h : ExtendibleHash} {B : Int → Option Bucket} {slot : Nat → Int} {p : Int} {b : Bucket}

section

variable (hlayout : Layout h B slot)
include hlayout

theorem slots_pos : 0 < h.slotsPerPage := by
  have hsize := hlayout.size
  simp only [slotsPerPage, directorySlotsPerPage, HashPage.PAGE_ID_SIZE] at hsize ⊢
  omega

/-- A bucket page is no other page. -/
theorem bucket_ne (hb : B p = some b) : p ≠ 0 ∧ p ∉ h.directoryPages := by
  constructor
  · rintro rfl
    rw [hlayout.metadata.1] at hb
    cases hb
  · intro hmem
    obtain ⟨i, hi⟩ := mem_iff_getElem?.mp hmem
    rw [(hlayout.directory i p hi).1] at hb
    cases hb

theorem valid_bucket (hb : B p = some b) : h.diskManager.validPageId p := by
  obtain ⟨frame, hread, _⟩ := hlayout.buckets p b hb
  exact validPageId_of_read_page hread

theorem valid_directory (hp : p ∈ h.directoryPages) : h.diskManager.validPageId p := by
  obtain ⟨i, hi⟩ := mem_iff_getElem?.mp hp
  obtain ⟨_, frame, hread, _⟩ := hlayout.directory i p hi
  exact validPageId_of_read_page hread

theorem peek_bucket {α : Type} {f : Bytes → Except PyError α} {r : Except PyError α}
    (hb : B p = some b) (hf : ∀ frame, HoldsBucket frame b → f frame = r) :
    peek p f h = (r, h) := by
  obtain ⟨frame, hread, _, hholds⟩ := hlayout.buckets p b hb
  rw [run_peek hread, hf frame hholds]

end

/-! ### Writing pages -/

variable {d' : DiskManager} {frame' : Bytes}

theorem slots_per_page_write (hwrite : h.diskManager.writePage p frame' = .ok d') :
    ({ h with diskManager := d' } : ExtendibleHash).slotsPerPage = h.slotsPerPage := by
  rw [slotsPerPage, ExtendibleHash.pageSize, page_size_write_page hwrite, slotsPerPage,
    ExtendibleHash.pageSize]

variable (hlayout : Layout h B slot)
include hlayout

theorem write_bucket {b' : Bucket} (hwrite : h.diskManager.writePage p frame' = .ok d')
    (hp : p ≠ 0 ∧ p ∉ h.directoryPages) (hlength : frame'.length = h.pageSize)
    (hholds : HoldsBucket frame' b') :
    Layout { h with diskManager := d' } (Function.update B p (some b')) slot := by
  have hsize : ({ h with diskManager := d' } : ExtendibleHash).pageSize = h.pageSize :=
    page_size_write_page hwrite
  have hslots := slots_per_page_write hwrite
  constructor
  · rw [hsize]
    exact hlayout.size
  · intro q b hq
    rw [hsize, read_page_write_page hwrite]
    by_cases hqp : q = p
    · subst hqp
      rw [Function.update_self, Option.some.injEq] at hq
      subst hq
      exact ⟨frame', if_pos rfl, hlength, hholds⟩
    · rw [Function.update_of_ne hqp] at hq
      rw [if_neg hqp]
      exact hlayout.buckets q b hq
  · obtain ⟨hnone, hnot, frame, hread, hframe⟩ := hlayout.metadata
    refine ⟨?_, hnot, frame, ?_, hframe.trans hsize.symm⟩
    · rw [Function.update_of_ne hp.1.symm]
      exact hnone
    · rw [read_page_write_page hwrite, if_neg hp.1.symm]
      exact hread
  · exact hlayout.nodup
  · intro i q hq
    obtain ⟨hnone, frame, hread, hframe, hreadSlots⟩ := hlayout.directory i q hq
    have hqp : q ≠ p := by
      rintro rfl
      exact hp.2 (mem_of_getElem? hq)
    refine ⟨?_, frame, ?_, hframe.trans hsize.symm, ?_⟩
    · rw [Function.update_of_ne hqp]
      exact hnone
    · rw [read_page_write_page hwrite, if_neg hqp]
      exact hread
    · rw [hslots]
      exact hreadSlots

theorem writeMetadata (hwrite : h.diskManager.writePage 0 frame' = .ok d')
    (hlength : frame'.length = h.pageSize) :
    Layout { h with diskManager := d' } B slot := by
  have hsize : ({ h with diskManager := d' } : ExtendibleHash).pageSize = h.pageSize :=
    page_size_write_page hwrite
  have hslots := slots_per_page_write hwrite
  obtain ⟨hnone, hnot, _⟩ := hlayout.metadata
  constructor
  · rw [hsize]
    exact hlayout.size
  · intro q b hq
    have hne : q ≠ 0 := (hlayout.bucket_ne hq).1
    rw [hsize, read_page_write_page hwrite, if_neg hne]
    exact hlayout.buckets q b hq
  · refine ⟨hnone, hnot, frame', ?_, hlength.trans hsize.symm⟩
    rw [read_page_write_page hwrite, if_pos rfl]
  · exact hlayout.nodup
  · intro i q hq
    obtain ⟨hbucket, frame, hread, hframe, hreadSlots⟩ := hlayout.directory i q hq
    have hne : q ≠ 0 := by
      rintro rfl
      exact hnot (mem_of_getElem? hq)
    refine ⟨hbucket, frame, ?_, hframe.trans hsize.symm, ?_⟩
    · rw [read_page_write_page hwrite, if_neg hne]
      exact hread
    · rw [hslots]
      exact hreadSlots

theorem writeSlot {i j : Nat} {frame : Bytes} {bucketId : Int} (hp : h.directoryPages[i]? = some p)
    (hj : j < h.slotsPerPage) (hread : h.diskManager.readPage p = .ok frame)
    (hwrite : h.diskManager.writePage p frame' = .ok d') (hlength : frame'.length = frame.length)
    (hslot : ∀ k, readDirectorySlot frame' k =
      if k = j then .ok bucketId else readDirectorySlot frame k) :
    Layout { h with diskManager := d' } B
      (Function.update slot (i * h.slotsPerPage + j) bucketId) := by
  have hsize : ({ h with diskManager := d' } : ExtendibleHash).pageSize = h.pageSize :=
    page_size_write_page hwrite
  have hslots := slots_per_page_write hwrite
  have hpos := hlayout.slots_pos
  have hmem : p ∈ h.directoryPages := mem_of_getElem? hp
  obtain ⟨hnone, hnot, mframe, hmread, hmframe⟩ := hlayout.metadata
  have hpzero : (0 : Int) ≠ p := by
    rintro rfl
    exact hnot hmem
  constructor
  · rw [hsize]
    exact hlayout.size
  · intro q b hq
    have hne : q ≠ p := by
      rintro rfl
      exact (hlayout.bucket_ne hq).2 hmem
    rw [hsize, read_page_write_page hwrite, if_neg hne]
    exact hlayout.buckets q b hq
  · refine ⟨hnone, hnot, mframe, ?_, hmframe.trans hsize.symm⟩
    rw [read_page_write_page hwrite, if_neg hpzero]
    exact hmread
  · exact hlayout.nodup
  · intro k q hq
    obtain ⟨hbucket, frame₀, hread₀, hframe₀, hreadSlots⟩ := hlayout.directory k q hq
    refine ⟨hbucket, ?_⟩
    rw [hsize, hslots, read_page_write_page hwrite]
    by_cases hki : k = i
    · subst hki
      obtain rfl : q = p := by
        rw [hp] at hq
        exact (Option.some.inj hq).symm
      obtain rfl : frame = frame₀ := by
        rw [hread] at hread₀
        exact Except.ok.inj hread₀
      refine ⟨frame', if_pos rfl, hlength.trans hframe₀, ?_⟩
      intro l hl
      rw [hslot]
      by_cases hlj : l = j
      · rw [if_pos hlj, hlj, Function.update_self]
      · rw [if_neg hlj, Function.update_of_ne (by omega)]
        exact hreadSlots l hl
    · have hqp : q ≠ p := by
        rintro rfl
        obtain ⟨hklt, hkget⟩ := List.getElem?_eq_some_iff.mp hq
        obtain ⟨hilt, higet⟩ := List.getElem?_eq_some_iff.mp hp
        exact hki ((List.Nodup.getElem_inj_iff hlayout.nodup).mp (hkget.trans higet.symm))
      refine ⟨frame₀, by rw [if_neg hqp]; exact hread₀, hframe₀, ?_⟩
      intro l hl
      have hdiv : ∀ a c : Nat, c < h.slotsPerPage →
          (a * h.slotsPerPage + c) / h.slotsPerPage = a := by
        intro a c hc
        rw [Nat.mul_comm, Nat.mul_add_div hpos, Nat.div_eq_of_lt hc, Nat.add_zero]
      rw [Function.update_of_ne]
      · exact hreadSlots l hl
      · intro heq
        have hquot := congrArg (fun n => n / h.slotsPerPage) heq
        simp only [hdiv k l hl, hdiv i j hj] at hquot
        exact hki hquot

theorem allocate : Layout { h with diskManager := h.diskManager.allocatePage.2 } B slot := by
  obtain ⟨hnone, hnot, mframe, hmread, hmframe⟩ := hlayout.metadata
  refine ⟨hlayout.size, ?_, ⟨hnone, hnot, mframe,
    read_page_allocate_page hmread, hmframe⟩, hlayout.nodup, ?_⟩
  · intro q b hq
    obtain ⟨frame, hread, hframe, hholds⟩ := hlayout.buckets q b hq
    exact ⟨frame, read_page_allocate_page hread, hframe, hholds⟩
  · intro i q hq
    obtain ⟨hbucket, frame, hread, hframe, hreadSlots⟩ := hlayout.directory i q hq
    exact ⟨hbucket, frame, read_page_allocate_page hread, hframe, hreadSlots⟩

/-- The id of the next page is not in use. -/
theorem fresh : B h.diskManager.pageCount = none ∧
    (h.diskManager.pageCount : Int) ≠ 0 ∧
      (h.diskManager.pageCount : Int) ∉ h.directoryPages := by
  have hinvalid : ¬ h.diskManager.validPageId h.diskManager.pageCount := by
    intro hvalid
    exact absurd hvalid.2 (lt_irrefl _)
  refine ⟨?_, ?_, ?_⟩
  · cases hb : B h.diskManager.pageCount with
    | none => rfl
    | some b => exact absurd (hlayout.valid_bucket hb) hinvalid
  · intro hzero
    obtain ⟨_, _, frame, hread, _⟩ := hlayout.metadata
    have hvalid := validPageId_of_read_page hread
    rw [← hzero] at hvalid
    exact hinvalid hvalid
  · intro hmem
    exact hinvalid (hlayout.valid_directory hmem)

end Layout

/-! ## The primitives -/

section Primitives

variable {h : ExtendibleHash} {B : Int → Option Bucket} {slot : Nat → Int} {p : Int} {b : Bucket}

theorem Synced.write {d' : DiskManager} {frame' : Bytes} (hsynced : Synced h)
    (hwrite : h.diskManager.writePage p frame' = .ok d') (hp : p ≠ 0) :
    Synced { h with diskManager := d' } := by
  obtain ⟨frame, hread, hmetadata⟩ := hsynced
  refine ⟨frame, ?_, hmetadata⟩
  rw [read_page_write_page hwrite, if_neg hp.symm]
  exact hread

theorem Synced.allocate (hsynced : Synced h) :
    Synced { h with diskManager := h.diskManager.allocatePage.2 } := by
  obtain ⟨frame, hread, hmetadata⟩ := hsynced
  exact ⟨frame, read_page_allocate_page hread, hmetadata⟩

/-- What the primitives leave as it is. -/
structure Kept (h h' : ExtendibleHash) : Prop where
  globalDepth : h'.globalDepth = h.globalDepth
  maxDepth : h'.maxDepth = h.maxDepth
  pageSize : h'.pageSize = h.pageSize
  directoryPages : h'.directoryPages = h.directoryPages
  synced : Synced h → Synced h'

/-- What the primitives leave as it is that allocate no page. -/
structure Same (h h' : ExtendibleHash) : Prop extends Kept h h' where
  pageCount : h'.diskManager.pageCount = h.diskManager.pageCount

theorem Same.refl (h : ExtendibleHash) : Same h h := ⟨⟨rfl, rfl, rfl, rfl, id⟩, rfl⟩

theorem Kept.trans {h₁ h₂ h₃ : ExtendibleHash} (h₁₂ : Kept h₁ h₂) (h₂₃ : Kept h₂ h₃) :
    Kept h₁ h₃ :=
  ⟨h₂₃.globalDepth.trans h₁₂.globalDepth, h₂₃.maxDepth.trans h₁₂.maxDepth,
    h₂₃.pageSize.trans h₁₂.pageSize, h₂₃.directoryPages.trans h₁₂.directoryPages,
    h₂₃.synced ∘ h₁₂.synced⟩

theorem Same.trans {h₁ h₂ h₃ : ExtendibleHash} (h₁₂ : Same h₁ h₂) (h₂₃ : Same h₂ h₃) :
    Same h₁ h₃ :=
  ⟨h₁₂.toKept.trans h₂₃.toKept, h₂₃.pageCount.trans h₁₂.pageCount⟩

theorem Kept.capacity {h' : ExtendibleHash} (hkept : Kept h h') : capacity h' = capacity h := by
  rw [ExtendibleHash.capacity, slotsPerPage, hkept.pageSize, hkept.directoryPages]
  rfl

theorem same_write {d' : DiskManager} {frame' : Bytes}
    (hwrite : h.diskManager.writePage p frame' = .ok d') (hp : p ≠ 0) :
    Same h { h with diskManager := d' } :=
  ⟨⟨rfl, rfl, page_size_write_page hwrite, rfl,
    fun hsynced => hsynced.write hwrite hp⟩, page_count_write_page hwrite⟩

theorem Layout.wp_pin_bucket {α : Type} {x : Frame α} {Q : α → Bucket → Prop} {E : PyError → Prop}
    (hlayout : Layout h B slot) (hb : B p = some b)
    (hx : ∀ frame, frame.length = h.pageSize → HoldsBucket frame b →
      wp x (fun a frame' => frame'.length = frame.length ∧ ∃ b', HoldsBucket frame' b' ∧ Q a b')
        (fun e _ => E e) frame) :
    wp (pin p x)
      (fun a h' => ∃ b', Q a b' ∧ Same h h' ∧ Layout h' (Function.update B p (some b')) slot)
      (fun e _ => E e) h := by
  obtain ⟨frame, hread, hlength, hholds⟩ := hlayout.buckets p b hb
  refine wp_mono (wp_pin hread (hx frame hlength hholds)) ?_ ?_
  · rintro a h' ⟨frame', d', ⟨hlength', b', hholds', hQ⟩, hwrite, rfl⟩
    have hp := hlayout.bucket_ne hb
    exact ⟨b', hQ, same_write hwrite hp.1,
      hlayout.write_bucket hwrite hp (hlength'.trans hlength) hholds'⟩
  · rintro e h' ⟨frame', d', hE, _⟩
    exact hE

theorem wp_pin_new {page : Except PyError Bytes} {Q : Unit → ExtendibleHash → Prop}
    {E : PyError → ExtendibleHash → Prop}
    (hQ : ∀ frame d', page = .ok frame →
      h.diskManager.allocatePage.2.writePage h.diskManager.pageCount frame = .ok d' →
        Q () { h with diskManager := d' })
    (hE : ∀ e h', page = .error e → E e h') :
    wp (pin h.diskManager.pageCount (update (fun _ => page))) Q E
      { h with diskManager := h.diskManager.allocatePage.2 } := by
  have hx : wp (update (fun _ => page) : Frame Unit) (fun _ frame' => page = .ok frame')
      (fun e _ => page = .error e) (replicate h.diskManager.pageSize 0) := by
    rw [wp_update]
    exact ⟨fun _ hpage => hpage, fun _ hpage => hpage⟩
  refine wp_mono (wp_pin read_page_allocate_page_new hx) ?_ ?_
  · rintro _ h' ⟨frame', d', hpage, hwrite, rfl⟩
    exact hQ frame' d' hpage hwrite
  · rintro e h' ⟨frame', d', hpage, _⟩
    exact hE e h' hpage

theorem Layout.wp_new_bucket (hlayout : Layout h B slot) (depth : Nat) :
    wp (newBucket depth)
      (fun new h' => new = h.diskManager.pageCount ∧ Kept h h' ∧
        h'.diskManager.pageCount = h.diskManager.pageCount + 1 ∧
        Layout h' (Function.update B new (some ⟨depth, HashPage.NO_OVERFLOW, []⟩)) slot)
      (fun e _ => IsStructError e ∧ ¬ (depth < 256 ∧ HashPage.BUCKET_HEADER_SIZE ≤ h.pageSize))
      h := by
  have hfresh := hlayout.fresh
  simp only [newBucket, allocatePage, wp_bind, wp_get, wp_modify, wp_pure]
  refine wp_pin_new ?_ ?_
  · intro frame d' hframe hwrite
    obtain ⟨hlength, hholds⟩ := new_bucket_ok hframe
    have hlayout' := hlayout.allocate.write_bucket hwrite hfresh.2 hlength hholds
    have hsize : d'.pageSize = h.diskManager.allocatePage.2.pageSize :=
      page_size_write_page hwrite
    refine ⟨rfl, ⟨rfl, rfl, hsize, rfl, ?_⟩, ?_, hlayout'⟩
    · intro hsynced
      exact hsynced.allocate.write hwrite hfresh.2.1
    · exact (page_count_write_page hwrite).trans page_count_allocate_page
  · intro e _ herror
    refine ⟨write_bucket_header_error herror, ?_⟩
    rintro ⟨hdepth, hsize⟩
    have hfits : HashPage.HeaderFits depth 0 HashPage.BUCKET_HEADER_SIZE HashPage.NO_OVERFLOW :=
      ⟨hdepth, by decide, by decide, by decide⟩
    have hroom : HashPage.BUCKET_HEADER_SIZE ≤ (replicate h.pageSize (0 : UInt8)).length := by
      rw [length_replicate]
      exact hsize
    rw [HashPage.newBucket,
      write_bucket_header_eq_ok.mpr ⟨hfits, hroom, rfl⟩] at herror
    cases herror

variable {s : Nat}

theorem directory_page_ok (hs : s < capacity h) :
    ∃ p, h.directoryPages[s / h.slotsPerPage]? = some p ∧ h.directoryPage s = .ok p := by
  have hlt : s / h.slotsPerPage < h.directoryPages.length :=
    Nat.div_lt_of_lt_mul hs
  have hget := getElem?_eq_getElem hlt
  exact ⟨_, hget, by rw [directoryPage, hget]⟩

theorem Layout.directorySlot (hlayout : Layout h B slot) (hs : s < capacity h) :
    directorySlot s h = (.ok (slot s), h) := by
  obtain ⟨p, hget, hpage⟩ := directory_page_ok hs
  obtain ⟨_, frame, hread, _, hslots⟩ := hlayout.directory _ p hget
  have hmod := hslots (s % h.slotsPerPage) (Nat.mod_lt _ hlayout.slots_pos)
  rw [Nat.div_add_mod'] at hmod
  rw [ExtendibleHash.directorySlot, run_bind_ok _ (run_get h)]
  simp only [hpage, run_bind, run_lift, run_peek hread, hmod]

/-- The slots can be written to a directory page. -/
theorem Layout.slot_range (hlayout : Layout h B slot) (hs : s < capacity h) :
    0 ≤ slot s ∧ slot s < 4294967296 := by
  obtain ⟨p, hget, _⟩ := directory_page_ok hs
  obtain ⟨_, frame, _, _, hslots⟩ := hlayout.directory _ p hget
  have hmod := hslots (s % h.slotsPerPage) (Nat.mod_lt _ hlayout.slots_pos)
  rw [Nat.div_add_mod'] at hmod
  exact read_directory_slot_range hmod

theorem slot_in_page {j : Nat} (hj : j < h.slotsPerPage) :
    j * HashPage.PAGE_ID_SIZE + HashPage.PAGE_ID_SIZE ≤ h.pageSize := by
  have hdiv := Nat.div_mul_le_self h.pageSize HashPage.PAGE_ID_SIZE
  have hmul : (j + 1) * HashPage.PAGE_ID_SIZE ≤ h.slotsPerPage * HashPage.PAGE_ID_SIZE :=
    Nat.mul_le_mul_right _ hj
  rw [Nat.add_mul, Nat.one_mul] at hmul
  exact hmul.trans hdiv

theorem Layout.wp_write_directory_slot (hlayout : Layout h B slot) (hs : s < capacity h)
    (bucketId : Int) :
    wp (writeDirectorySlot s bucketId)
      (fun _ h' => Same h h' ∧ Layout h' B (Function.update slot s bucketId))
      (fun e _ => IsStructError e ∧ ¬ (0 ≤ bucketId ∧ bucketId < 4294967296)) h := by
  obtain ⟨p, hget, hpage⟩ := directory_page_ok hs
  obtain ⟨_, frame, hread, hlength₀, _⟩ := hlayout.directory _ p hget
  have hmod := Nat.mod_lt s hlayout.slots_pos
  simp only [writeDirectorySlot, wp_bind, wp_get, hpage, wp_lift_ok]
  refine wp_mono (wp_pin hread (HashPage.wp_write_directory_slot frame _ bucketId)) ?_ ?_
  · rintro _ h' ⟨frame', d', ⟨hlength, hslot⟩, hwrite, rfl⟩
    have hp : p ≠ 0 := by
      rintro rfl
      exact hlayout.metadata.2.1 (mem_of_getElem? hget)
    have hlayout' := hlayout.writeSlot hget hmod hread hwrite hlength hslot
    rw [Nat.div_add_mod'] at hlayout'
    exact ⟨same_write hwrite hp, hlayout'⟩
  · rintro e h' ⟨_, _, ⟨hstruct, hnot⟩, _⟩
    refine ⟨hstruct, fun hrange => hnot ⟨hrange, ?_⟩⟩
    rw [hlength₀]
    exact slot_in_page hmod

theorem Layout.wp_flush_metadata (hlayout : Layout h B slot) :
    wp flushMetadata
      (fun _ h' => ∃ d', h' = { h with diskManager := d' } ∧ h'.pageSize = h.pageSize ∧
        d'.pageCount = h.diskManager.pageCount ∧ Synced h' ∧ Layout h' B slot)
      (fun e _ => IsStructError e ∧ ¬ HashPage.MetadataFits h.globalDepth h.maxDepth
        h.directoryPages h.pageSize) h := by
  obtain ⟨_, _, frame, hread, hlength⟩ := hlayout.metadata
  simp only [flushMetadata, wp_bind, wp_get]
  refine wp_mono (wp_pin hread (wp_write_metadata _ _ _ frame)) ?_ ?_
  · rintro _ h' ⟨frame', d', ⟨hlength', hmetadata⟩, hwrite, rfl⟩
    refine ⟨d', rfl, page_size_write_page hwrite,
      page_count_write_page hwrite, ⟨frame', ?_, hmetadata⟩,
      hlayout.writeMetadata hwrite (hlength'.trans hlength)⟩
    rw [read_page_write_page hwrite, if_pos rfl]
  · rintro e h' ⟨_, _, herror, _⟩
    rw [← hlength]
    exact herror

end Primitives

/-! ## Growing the directory -/

section Growing

variable {h : ExtendibleHash} {B : Int → Option Bucket} {slot : Nat → Int}

/-- The slots of an empty directory page after the others. -/
def slotsBehind (h : ExtendibleHash) (slot : Nat → Int) (s : Nat) : Int :=
  if s < capacity h then slot s
  else
    match readDirectorySlot (replicate h.pageSize 0) (s % h.slotsPerPage) with
    | .ok pageId => pageId
    | .error _ => 0

/-- An empty page at the end of the file becomes the last directory page. -/
theorem Layout.append_directory {d' : DiskManager} (hlayout : Layout h B slot)
    (hwrite : h.diskManager.allocatePage.2.writePage h.diskManager.pageCount
      (replicate h.pageSize 0) = .ok d') :
    Layout { h with
      diskManager := d'
      directoryPages := h.directoryPages ++ [(h.diskManager.pageCount : Int)] } B
      (slotsBehind h slot) := by
  have hsize : d'.pageSize = h.pageSize :=
    (page_size_write_page hwrite).trans page_size_allocate_page
  obtain ⟨hnone, hzero, hnot⟩ := hlayout.fresh
  have hpos := hlayout.slots_pos
  have hread : ∀ q frame, q ≠ (h.diskManager.pageCount : Int) →
      h.diskManager.readPage q = .ok frame → d'.readPage q = .ok frame := by
    intro q frame hq hframe
    rw [read_page_write_page hwrite, if_neg hq]
    exact read_page_allocate_page hframe
  have hslots : directorySlotsPerPage d'.pageSize = h.slotsPerPage := by
    rw [hsize]
    rfl
  refine ⟨?_, ?_, ?_, ?_, ?_⟩
  · exact hlayout.size.trans_eq hsize.symm
  · intro q b hq
    obtain ⟨frame, hframe, hlength, hholds⟩ := hlayout.buckets q b hq
    have hne : q ≠ (h.diskManager.pageCount : Int) := by
      rintro rfl
      rw [hnone] at hq
      cases hq
    exact ⟨frame, hread q frame hne hframe, hlength.trans hsize.symm, hholds⟩
  · obtain ⟨hbucket, hmeta, frame, hframe, hlength⟩ := hlayout.metadata
    refine ⟨hbucket, ?_, frame, hread 0 frame hzero.symm hframe, hlength.trans hsize.symm⟩
    rw [mem_append, mem_singleton, not_or]
    exact ⟨hmeta, hzero.symm⟩
  · exact hlayout.nodup.append (nodup_singleton _)
      (disjoint_singleton.mpr hnot)
  · intro i q hq
    rw [getElem?_append, ite_eq_iff] at hq
    rcases hq with ⟨hi, hold⟩ | ⟨hi, hnew⟩
    · obtain ⟨hbucket, frame, hframe, hlength, hframeSlots⟩ := hlayout.directory i q hold
      have hne : q ≠ (h.diskManager.pageCount : Int) := by
        rintro rfl
        exact hnot (mem_of_getElem? hold)
      refine ⟨hbucket, frame, hread q frame hne hframe, hlength.trans hsize.symm, ?_⟩
      intro j hj
      have hj' : j < h.slotsPerPage := hslots ▸ hj
      have hin : i * h.slotsPerPage + j < capacity h := by
        have hmul : (i + 1) * h.slotsPerPage ≤ h.directoryPages.length * h.slotsPerPage :=
          Nat.mul_le_mul_right _ hi
        rw [Nat.add_mul, Nat.one_mul] at hmul
        rw [capacity, Nat.mul_comm h.slotsPerPage]
        omega
      show _ = Except.ok (slotsBehind h slot
        (i * directorySlotsPerPage d'.pageSize + j))
      rw [hslots, slotsBehind, if_pos hin]
      exact hframeSlots j hj'
    · obtain ⟨hlast, rfl⟩ : i - h.directoryPages.length = 0 ∧
          (h.diskManager.pageCount : Int) = q := by
        cases hk : i - h.directoryPages.length with
        | zero =>
            rw [hk] at hnew
            exact ⟨rfl, Option.some.inj hnew⟩
        | succ k =>
            rw [hk] at hnew
            cases hnew
      have hi' : i = h.directoryPages.length := by omega
      refine ⟨hnone, replicate h.pageSize 0, ?_,
        length_replicate.trans hsize.symm, ?_⟩
      · show d'.readPage _ = _
        rw [read_page_write_page hwrite, if_pos rfl]
      · intro j hj
        have hj' : j < h.slotsPerPage := hslots ▸ hj
        show _ = Except.ok (slotsBehind h slot
          (i * directorySlotsPerPage d'.pageSize + j))
        have hout : ¬ i * h.slotsPerPage + j < capacity h := by
          rw [hi', capacity, Nat.mul_comm h.slotsPerPage]
          omega
        have hmod : (i * h.slotsPerPage + j) % h.slotsPerPage = j := by
          rw [Nat.mul_add_mod', Nat.mod_eq_of_lt hj']
        have hfits : j * HashPage.PAGE_ID_SIZE + HashPage.PAGE_ID_SIZE ≤
            (replicate h.pageSize (0 : UInt8)).length := by
          rw [length_replicate]
          exact slot_in_page hj'
        obtain ⟨pageId, hpage⟩ := read_directory_slot_ok hfits
        rw [hslots, slotsBehind, if_neg hout, hmod, hpage]

theorem Layout.wp_extend_directory : ∀ {n : Nat} {h : ExtendibleHash} {slot : Nat → Int},
    Layout h B slot →
    wp (extendDirectory n)
      (fun _ h' => (∃ slot', Layout h' B slot' ∧ ∀ s < capacity h, slot' s = slot s) ∧
        h'.globalDepth = h.globalDepth ∧ h'.maxDepth = h.maxDepth ∧
        h'.pageSize = h.pageSize ∧
        h'.directoryPages.length = h.directoryPages.length + n ∧
        h'.diskManager.pageCount = h.diskManager.pageCount + n)
      (fun _ _ => False) h := by
  intro n
  induction n with
  | zero =>
      intro h slot hlayout
      exact ⟨⟨slot, hlayout, fun _ _ => rfl⟩, rfl, rfl, rfl, rfl, rfl⟩
  | succ n ih =>
      intro h slot hlayout
      simp only [extendDirectory, newDirectoryPage, allocatePage, wp_bind, wp_get, wp_modify,
        wp_pure]
      refine wp_pin_new ?_ ?_
      · intro frame d' hframe hwrite
        cases hframe
        have hsize : d'.pageSize = h.pageSize :=
          (page_size_write_page hwrite).trans page_size_allocate_page
        refine wp_mono (ih (hlayout.append_directory hwrite)) ?_ (fun _ _ hE => hE)
        rintro _ h' ⟨⟨slot', hlayout', hkeep⟩, hglobal, hmax, hpage, hlength, hcount⟩
        refine ⟨⟨slot', hlayout', ?_⟩, hglobal, hmax, hpage.trans hsize, ?_, ?_⟩
        · intro s hs
          rw [hkeep s, slotsBehind, if_pos hs]
          refine hs.trans_le ?_
          show _ ≤ directorySlotsPerPage d'.pageSize *
            (h.directoryPages ++ [_]).length
          rw [hsize, length_append]
          exact Nat.mul_le_mul_left _ (Nat.le_add_right _ _)
        · rw [hlength]
          simp only [length_append, length_singleton]
          omega
        · have hwritten := page_count_write_page hwrite
          rw [page_count_allocate_page] at hwritten
          rw [hcount, hwritten]
          omega
      · intro e h' herror
        cases herror

/-- Every copied slot shows the bucket of its twin. -/
theorem Layout.wp_copy_slots {oldSize : Nat} : ∀ {slots : List Nat} {h : ExtendibleHash}
    {slot : Nat → Int}, Layout h B slot → (∀ s ∈ slots, s < oldSize) →
    oldSize * 2 ≤ capacity h →
    wp (forEach (copySlot oldSize) slots)
      (fun _ h' => Same h h' ∧ ∃ slot', Layout h' B slot' ∧ (∀ s < oldSize, slot' s = slot s) ∧
        ∀ s, slot' (s + oldSize) = if s ∈ slots then slot s else slot (s + oldSize))
      (fun _ _ => False) h := by
  intro slots
  induction slots with
  | nil =>
      intro h slot hlayout _ _
      refine ⟨Same.refl h, slot, hlayout, fun _ _ => rfl, ?_⟩
      intro s
      rw [if_neg (not_mem_nil)]
  | cons s₀ slots ih =>
      intro h slot hlayout hslots hroom
      have hs₀ := hslots s₀ (by simp)
      have hread := hlayout.directorySlot (show s₀ < capacity h by omega)
      have hwrite := hlayout.wp_write_directory_slot (show s₀ + oldSize < capacity h by omega)
        (slot s₀)
      simp only [forEach, wp_bind, copySlot]
      refine wp_of_ok hread ?_
      refine wp_mono hwrite ?_ (fun _ _ hE => hE.2 (hlayout.slot_range (by omega)))
      rintro _ h₁ ⟨hsame₁, hlayout₁⟩
      refine wp_mono (ih hlayout₁ (fun s hs => hslots s (mem_cons_of_mem _ hs))
        (by rw [hsame₁.capacity]; exact hroom)) ?_ (fun _ _ hE => hE)
      rintro _ h' ⟨hsame, slot', hlayout', hkeep, hcopied⟩
      refine ⟨hsame₁.trans hsame, slot', hlayout', ?_, ?_⟩
      · intro s hs
        rw [hkeep s hs, Function.update_of_ne (by omega)]
      · intro s
        rw [hcopied s]
        by_cases hmem : s ∈ slots
        · have hlt := hslots s (mem_cons_of_mem _ hmem)
          rw [if_pos hmem, if_pos (mem_cons_of_mem _ hmem), Function.update_of_ne (by omega)]
        · by_cases hs : s = s₀
          · rw [if_neg hmem, if_pos (by simp [hs]), hs, Function.update_self]
          · rw [if_neg hmem, if_neg (by simp [hs, hmem]), Function.update_of_ne (by omega)]

theorem Layout.with_depth (hlayout : Layout h B slot) (globalDepth : Nat) :
    Layout { h with globalDepth } B slot :=
  ⟨hlayout.size, hlayout.buckets, hlayout.metadata, hlayout.nodup, hlayout.directory⟩

theorem le_needed_pages {slots perPage : Nat} (hpos : 0 < perPage) :
    slots ≤ perPage * ((slots + perPage - 1) / perPage) := by
  have hdiv := Nat.div_add_mod (slots + perPage - 1) perPage
  have hmod := Nat.mod_lt (slots + perPage - 1) hpos
  omega

/-- How many directory pages twice the slots take. -/
def neededPages (h : ExtendibleHash) : Nat :=
  (2 ^ h.globalDepth * 2 + h.slotsPerPage - 1) / h.slotsPerPage

/-- The error of a directory that is too large. -/
def directoryError : PyError := .ValueError "directory does not fit in the metadata page"

/-- The doubled directory fits in the metadata page, and its fields are in range. -/
structure CanDouble (h : ExtendibleHash) : Prop where
  fits : (neededPages h : Int) ≤ maxDirectoryPages h.pageSize
  pageSize : h.pageSize < 65536
  globalDepth : h.globalDepth + 1 < 256
  maxDepth : h.maxDepth < 256
  directory : (h.directoryPages.length : Int) ≤ maxDirectoryPages h.pageSize
  pageIds : h.diskManager.pageCount + (neededPages h - h.directoryPages.length) ≤ 4294967296

theorem directory_room {n pageSize : Nat}
    (h : (n : Int) ≤ maxDirectoryPages pageSize) :
    HashPage.META_HEADER_SIZE + n * HashPage.PAGE_ID_SIZE ≤ pageSize ∨ n = 0 := by
  rw [maxDirectoryPages, Int.le_ediv_iff_mul_le (by decide)] at h
  rcases Nat.eq_zero_or_pos n with hzero | hpos
  · exact Or.inr hzero
  · left
    simp only [HashPage.META_HEADER_SIZE, HashPage.PAGE_ID_SIZE] at h ⊢
    omega

/-- After doubling, the slots of both halves show the buckets of the old slots. -/
theorem Layout.wp_double_directory (hlayout : Layout h B slot)
    (hroom : 2 ^ h.globalDepth ≤ capacity h) :
    wp doubleDirectory
      (fun _ h' => h'.globalDepth = h.globalDepth + 1 ∧ h'.maxDepth = h.maxDepth ∧
        h'.pageSize = h.pageSize ∧ Synced h' ∧ 2 ^ (h.globalDepth + 1) ≤ capacity h' ∧
        (neededPages h : Int) ≤ maxDirectoryPages h.pageSize ∧
        h'.directoryPages.length = max h.directoryPages.length (neededPages h) ∧
        h'.diskManager.pageCount =
          h.diskManager.pageCount + (neededPages h - h.directoryPages.length) ∧
        ∃ slot', Layout h' B slot' ∧ ∀ s < 2 ^ h.globalDepth,
          slot' s = slot s ∧ slot' (s + 2 ^ h.globalDepth) = slot s)
      (fun e h' => e = directoryError ∧ h' = h ∧
          ¬ (neededPages h : Int) ≤ maxDirectoryPages h.pageSize ∨
        IsStructError e ∧ (neededPages h : Int) ≤ maxDirectoryPages h.pageSize ∧
          ¬ CanDouble h) h := by
  have hneeded : 2 ^ h.globalDepth * 2 ≤ h.slotsPerPage * neededPages h :=
    le_needed_pages hlayout.slots_pos
  have hpages : (2 ^ h.globalDepth * 2 + h.slotsPerPage - 1) / h.slotsPerPage =
      neededPages h := rfl
  simp only [doubleDirectory, wp_bind, wp_get, hpages]
  split
  · next hlarge => exact Or.inl ⟨rfl, rfl, not_le.mpr hlarge⟩
  · next hsmall =>
    rw [wp_bind]
    refine wp_mono hlayout.wp_extend_directory ?_ (fun _ _ hE => hE.elim)
    rintro _ h₁ ⟨⟨slot₁, hlayout₁, hkeep₁⟩, hglobal₁, hmax₁, hsize₁, hlength₁, hcount₁⟩
    have hcapacity₁ : 2 ^ h.globalDepth * 2 ≤ capacity h₁ := by
      refine hneeded.trans ?_
      have hper : h₁.slotsPerPage = h.slotsPerPage := by
        rw [slotsPerPage, hsize₁, slotsPerPage]
      rw [capacity, hper]
      refine Nat.mul_le_mul_left _ ?_
      omega
    simp only [wp_bind, wp_modify]
    refine wp_mono (hlayout₁.wp_copy_slots (fun s hs => mem_range.mp hs) hcapacity₁) ?_
      (fun _ _ hE => hE.elim)
    rintro _ h₂ ⟨hsame₂, slot₂, hlayout₂, hkeep₂, hcopied₂⟩
    have hglobal₂ : h₂.globalDepth = h.globalDepth := hsame₂.globalDepth.trans hglobal₁
    have hmax₂ : h₂.maxDepth = h.maxDepth := hsame₂.maxDepth.trans hmax₁
    have hsize₂ : h₂.pageSize = h.pageSize := hsame₂.pageSize.trans hsize₁
    have hcount₂ : h₂.diskManager.pageCount =
        h.diskManager.pageCount + (neededPages h - h.directoryPages.length) :=
      hsame₂.pageCount.trans hcount₁
    have hlength₂ : h₂.directoryPages.length =
        max h.directoryPages.length (neededPages h) := by
      rw [hsame₂.directoryPages, hlength₁]
      omega
    refine wp_mono (hlayout₂.with_depth (h₂.globalDepth + 1)).wp_flush_metadata ?_ ?_
    · rintro _ h' ⟨d', rfl, hsize', hcount', hsynced, hlayout'⟩
      refine ⟨?_, hmax₂, hsize'.trans hsize₂, hsynced, ?_, not_lt.mp hsmall, hlength₂,
        hcount'.trans hcount₂, slot₂, hlayout', ?_⟩
      · show h₂.globalDepth + 1 = h.globalDepth + 1
        rw [hglobal₂]
      · rw [pow_succ]
        refine hcapacity₁.trans_eq ?_
        rw [← hsame₂.capacity, capacity, capacity, slotsPerPage, slotsPerPage, hsize']
        rfl
      · intro s hs
        have hold : slot₁ s = slot s := hkeep₁ s (hs.trans_le hroom)
        refine ⟨(hkeep₂ s hs).trans hold, ?_⟩
        rw [hcopied₂ s, if_pos (mem_range.mpr hs), hold]
    · rintro e _ ⟨hstruct, hnot⟩
      refine Or.inr ⟨hstruct, not_lt.mp hsmall, fun hdouble => hnot ?_⟩
      have hlengthLe : (h₂.directoryPages.length : Int) ≤
          maxDirectoryPages h.pageSize := by
        have hfits := hdouble.fits
        have hdirectory := hdouble.directory
        rw [hlength₂]
        omega
      have hsizeLt := hdouble.pageSize
      have hpos : 0 < h₂.directoryPages.length := by
        have htwo := Nat.two_pow_pos h.globalDepth
        rw [hlength₂]
        rcases Nat.eq_zero_or_pos (neededPages h) with hzero | hneeds
        · rw [hzero, Nat.mul_zero] at hneeded
          omega
        · omega
      have hroomLe : HashPage.META_HEADER_SIZE +
          h₂.directoryPages.length * HashPage.PAGE_ID_SIZE ≤ h₂.pageSize := by
        rw [hsize₂]
        rcases directory_room hlengthLe with hle | hzero
        · exact hle
        · omega
      refine ⟨?_, ?_, ?_, ?_, hroomLe⟩
      · show h₂.globalDepth + 1 < 256
        rw [hglobal₂]
        exact hdouble.globalDepth
      · exact hmax₂.trans_lt hdouble.maxDepth
      · rw [hsize₂] at hroomLe
        simp only [HashPage.META_HEADER_SIZE, HashPage.PAGE_ID_SIZE] at hroomLe
        show h₂.directoryPages.length < 65536
        omega
      · intro p hp
        have hvalid := hlayout₂.valid_directory hp
        have hids := hdouble.pageIds
        unfold validPageId at hvalid
        rw [hcount₂] at hvalid
        omega

end Growing

end SoupDB.ExtendibleHash
