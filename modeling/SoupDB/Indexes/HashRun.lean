import SoupDB.Indexes.HashInsert
import SoupDB.Lib.Transition

/-!
# SoupDB: runs of an extendible hash

`Represents blake2b h M` says that the index is a table with the entries of the multimap `M`
of keys and RIDs.  A new index represents the empty multimap (`represents_init`), and every
call changes the multimap as `after` says (`Represents.step`).  `Reached` is a run of calls,
also with the file closed and opened again, in which no insert raised `struct.error`.

`hash_refines_multimap` is what the directory, the chains, searches and removals of an index
are after any run.  `insert_succeeds_iff_room` says which inserts of admissible keys
succeed.
-/

namespace SoupDB.ExtendibleHash

open Effect Multiset HashPage DiskManager

/-! ## Keys -/

def bytesOf (key : Value) : Bytes :=
  match encodeKey key with
  | .ok encoded => encoded
  | .error _ => []

section Keys

variable {key key' : Value} {encoded : Bytes}

theorem bytesOf_ok (h : encodeKey key = .ok encoded) : bytesOf key = encoded := by
  rw [bytesOf, h]

theorem encode_key_injective (h : encodeKey key = .ok encoded)
    (h' : encodeKey key' = .ok encoded) : key = key' := by
  cases key with
  | int i =>
      obtain ⟨payload, hpayload, hbytes⟩ := bind_eq_ok.mp h
      cases hbytes
      cases key' with
      | int j =>
          obtain ⟨payload', hpayload', hbytes'⟩ := bind_eq_ok.mp h'
          obtain rfl : payload' = payload := by
            simpa using Except.ok.inj hbytes'
          rw [← Pack.unpackI_of_packI (by decide) hpayload,
            Pack.unpackI_of_packI (by decide) hpayload']
      | str s =>
          have htag := congrArg List.head? (Except.ok.inj h')
          cases htag
      | _ => cases h'
  | str s =>
      cases h
      cases key' with
      | int j =>
          obtain ⟨payload', hpayload', hbytes'⟩ := bind_eq_ok.mp h'
          have htag := congrArg List.head? (Except.ok.inj hbytes')
          cases htag
      | str t =>
          have hbytes : KeyCodec.encodeUtf8 t = KeyCodec.encodeUtf8 s :=
            List.tail_eq_of_cons_eq (Except.ok.inj h')
          have hdecoded := KeyCodec.decodeUtf8_encodeUtf8 t
          rw [hbytes, KeyCodec.decodeUtf8_encodeUtf8] at hdecoded
          rw [Option.some.inj hdecoded]
      | _ => cases h'
  | _ => cases h

end Keys

/-! ## The multimap -/

/-- The pairs that `remove` takes out. -/
def Removes (key : Value) (rid : Option RID) (pair : Value × RID) : Prop :=
  pair.1 = key ∧ ∀ r, rid = some r → pair.2 = r

open Classical in
/-- The multimap after a call. -/
noncomputable def after (M : Multiset (Value × RID)) :
    Op → Except PyError Answer → Multiset (Value × RID)
  | .insert key rid, .ok _ => (key, rid) ::ₘ M
  | .remove key rid, .ok _ => M.filter (fun pair => ¬ Removes key rid pair)
  | _, _ => M

def entriesFor (M : Multiset (Value × RID)) : Multiset Entry :=
  M.map (fun pair => (bytesOf pair.1, pair.2))

structure Represents (blake2b : Bytes → Bytes) (h : ExtendibleHash)
    (M : Multiset (Value × RID)) : Prop where
  keys : ∀ pair ∈ M, ∃ encoded, encodeKey pair.1 = .ok encoded
  table : ∃ B slot tail, Table blake2b h B slot tail (entriesFor M)

section Multimap

variable {M : Multiset (Value × RID)} {key : Value} {encoded : Bytes} {rid : Option RID}

theorem entriesFor_filter {keep : Entry → Prop} {keep' : Value × RID → Prop}
    [DecidablePred keep] [DecidablePred keep']
    (h : ∀ pair ∈ M, keep (bytesOf pair.1, pair.2) ↔ keep' pair) :
    (entriesFor M).filter keep = entriesFor (M.filter keep') := by
  rw [entriesFor, entriesFor, filter_map]
  exact congrArg _ (filter_congr h)

variable {pair : Value × RID}

variable (hkeys : ∀ pair ∈ M, ∃ encoded, encodeKey pair.1 = .ok encoded)
    (hkey : encodeKey key = .ok encoded) (hpair : pair ∈ M)
include hkeys hkey hpair

theorem bytesOf_eq_iff : bytesOf pair.1 = encoded ↔ pair.1 = key := by
  obtain ⟨encoded', hencoded'⟩ := hkeys pair hpair
  rw [bytesOf_ok hencoded']
  constructor
  · rintro rfl
    exact encode_key_injective hencoded' hkey
  · rintro heq
    rw [heq, hkey] at hencoded'
    exact (Except.ok.inj hencoded').symm

theorem matches_iff :
    matchesEntry encoded rid (bytesOf pair.1, pair.2) = true ↔ Removes key rid pair := by
  have hbytes := bytesOf_eq_iff hkeys hkey hpair
  rw [matchesEntry, Bool.and_eq_true, beq_iff_eq, hbytes, Removes]
  refine and_congr_right (fun _ => ?_)
  cases rid with
  | none => simp
  | some r =>
      simp only [Option.isNone_some, Bool.false_or, beq_iff_eq, Option.some.injEq]
      exact ⟨fun heq r' hr => heq ▸ hr, fun hall => (hall r rfl).symm⟩

end Multimap

/-! ## Opening -/

section Opening

variable {blake2b : Bytes → Bytes}

variable {h : ExtendibleHash} {B : Int → Option Bucket}

theorem table_of_one_bucket {slot : Nat → Int} {new : Int} (hlayout : Layout h B slot)
    (hsynced : Synced h) (hglobal : h.globalDepth = 0) (hroom : 2 ^ h.globalDepth ≤ capacity h)
    (hdirectory : (h.directoryPages.length : Int) ≤ maxDirectoryPages h.pageSize)
    (hmax : h.maxDepth < 256) (hslot : slot 0 = new)
    (hnew : B new = some ⟨0, HashPage.NO_OVERFLOW, []⟩) :
    Table blake2b h B slot (fun _ => []) 0 := by
  have hone : ∀ s < 2 ^ h.globalDepth, s = 0 := by
    intro s hs
    rw [hglobal, pow_zero] at hs
    omega
  have hpages : pagesAt (fun _ => []) (slot 0) = [new] := by
    rw [hslot]
    rfl
  have hdepth : depthAt B (slot 0) = 0 := by
    rw [hslot, depthAt_of_some hnew]
  refine ⟨hlayout, hsynced, hroom, hdirectory, by omega, hmax, ?_, ?_, ?_, ?_, ⟨?_, ?_⟩, ?_⟩
  · intro s hs
    rw [hone s hs, hpages]
    exact ⟨⟨_, hnew, rfl⟩, trivial⟩
  · intro s hs
    rw [hone s hs, hpages]
    exact List.nodup_singleton new
  · intro s hs t ht hne
    rw [hone s hs, hone t ht] at hne
    exact absurd rfl hne
  · exact fun _ _ _ => rfl
  · intro s hs
    rw [hone s hs, hdepth]
    exact Nat.zero_le _
  · intro s hs t ht
    rw [hone s hs, hone t ht]
    exact iff_of_true rfl rfl
  · intro s hs
    rw [hone s hs, filter_zero]
    show (entriesOf B (pagesAt (fun _ => []) (slot 0)) : Multiset Entry) = 0
    rw [hpages, entriesOf_cons, entriesAt_of_some hnew]
    rfl

/-- A new index is an empty table with one bucket. -/
theorem wp_create {disk : DiskManager} (hempty : disk.pageCount = 0) (maxDepth : Nat) :
    wp create (fun _ h' => h'.pageSize = disk.pageSize ∧ h'.maxDepth = maxDepth ∧
        h'.diskManager.pageCount = 3 ∧ h'.directoryPages.length = 1 ∧
        ∃ B slot, Table blake2b h' B slot (fun _ => []) 0)
      (fun _ _ => ¬ (13 ≤ disk.pageSize ∧ maxDepth < 256)) ⟨disk, 0, maxDepth, []⟩ := by
  have hzero : ((disk.pageCount : Nat) : Int) = 0 := by rw [hempty]; rfl
  simp only [create, newDirectoryPage, allocatePage, wp_bind, wp_get, wp_modify, wp_pure]
  refine @wp_pin_new ⟨disk, 0, maxDepth, []⟩ _ _ _ ?_ ?_
  rotate_left
  · rintro e _ herror ⟨hpage, hmax⟩
    refine new_metadata_error herror ⟨hmax, ?_⟩
    exact (show HashPage.META_HEADER_SIZE ≤ 13 by decide).trans hpage
  intro frame₁ d₁ hframe₁ hwrite₁
  obtain ⟨hlength₁, hheader⟩ := new_metadata_ok hframe₁
  have hsize₁ : d₁.pageSize = disk.pageSize :=
    (page_size_write_page hwrite₁).trans page_size_allocate_page
  have hcount₁ : d₁.pageCount = 1 := by
    rw [page_count_write_page hwrite₁, page_count_allocate_page, hempty]
  have hlayout₁ : Layout ⟨d₁, 0, maxDepth, []⟩ (fun _ => none) (fun _ => 0) := by
    refine ⟨?_, ?_, ⟨rfl, List.not_mem_nil, frame₁, ?_, hlength₁.trans hsize₁.symm⟩,
      List.nodup_nil, ?_⟩
    · have hpage : HashPage.PAGE_ID_SIZE ≤ disk.pageSize :=
        (show HashPage.PAGE_ID_SIZE ≤ HashPage.META_HEADER_SIZE by decide).trans hheader
      exact hpage.trans_eq hsize₁.symm
    · intro p b hb
      cases hb
    · rw [← hzero, read_page_write_page hwrite₁, if_pos rfl]
    · intro i p hp
      cases hp
  -- the directory page
  refine @wp_pin_new ⟨d₁, 0, maxDepth, []⟩ _ _ _ ?_ (fun _ _ herror => by cases herror)
  intro frame₂ d₂ hframe₂ hwrite₂
  cases hframe₂
  have hsize₂ : d₂.pageSize = disk.pageSize :=
    ((page_size_write_page hwrite₂).trans
      page_size_allocate_page).trans hsize₁
  have hcount₂ : d₂.pageCount = 2 := by
    rw [page_count_write_page hwrite₂, page_count_allocate_page]
    exact congrArg (· + 1) hcount₁
  have hlayout₂ := hlayout₁.append_directory hwrite₂
  -- the bucket
  refine wp_mono (hlayout₂.wp_new_bucket 0) ?_ ?_
  rotate_left
  · rintro e _ ⟨-, hnot⟩ ⟨hpage, -⟩
    refine hnot ⟨by decide, ?_⟩
    show HashPage.BUCKET_HEADER_SIZE ≤ d₂.pageSize
    rw [hsize₂]
    exact (show HashPage.BUCKET_HEADER_SIZE ≤ 13 by decide).trans hpage
  rintro new h₃ ⟨hnew, hkept₃, hcount₃, hlayout₃⟩
  have hcapacity : 0 < capacity h₃ := by
    rw [hkept₃.capacity]
    exact Nat.mul_pos hlayout₂.slots_pos Nat.zero_lt_one
  refine wp_mono (hlayout₃.wp_write_directory_slot hcapacity new) ?_ ?_
  rotate_left
  · rintro e _ ⟨-, hnot⟩ -
    refine hnot ?_
    rw [hnew]
    show 0 ≤ (d₂.pageCount : Int) ∧ (d₂.pageCount : Int) < 4294967296
    rw [hcount₂]
    decide
  rintro _ h₄ ⟨hsame₄, hlayout₄⟩
  have hkept := hkept₃.trans hsame₄.toKept
  have hpage : h₄.pageSize = disk.pageSize := hkept.pageSize.trans hsize₂
  refine wp_mono hlayout₄.wp_flush_metadata ?_ ?_
  rotate_left
  · rintro e _ ⟨-, hnot⟩ ⟨hlarge, hmax⟩
    have hlist : h₄.directoryPages = [(d₁.pageCount : Int)] := hkept.directoryPages
    refine hnot ⟨?_, ?_, ?_, ?_, ?_⟩
    · rw [hkept.globalDepth]
      exact Nat.zero_lt_succ _
    · rw [hkept.maxDepth]
      exact hmax
    · rw [hlist]
      exact Nat.le_of_ble_eq_true rfl
    · rw [hlist, hcount₁]
      intro p hp
      rw [List.mem_singleton.mp hp]
      decide
    · rw [hlist, hpage]
      exact hlarge
  rintro _ h' ⟨d', rfl, hsize', hcount', hsynced, hlayout'⟩
  have hglobal : h₄.globalDepth = 0 := hkept.globalDepth
  have hpages : h₄.directoryPages.length = 1 := by
    rw [hkept.directoryPages]
    rfl
  obtain ⟨frame, hread, hmetadata⟩ := hsynced
  obtain ⟨hmax, -, hroom⟩ := read_metadata_range hmetadata
  have hframe : frame.length = h₄.pageSize := by
    obtain ⟨-, -, frame', hread', hlength'⟩ := hlayout'.metadata
    rw [hread] at hread'
    cases hread'
    exact hlength'.trans hsize'
  refine ⟨hsize'.trans hpage, hkept.maxDepth, ?_, hpages, _, _, table_of_one_bucket hlayout'
    ⟨frame, hread, hmetadata⟩ hglobal ?_ ?_ hmax (Function.update_self _ _ _)
    (Function.update_self _ _ _)⟩
  · show d'.pageCount = 3
    rw [hcount', hsame₄.pageCount, hcount₃]
    exact congrArg (· + 1) hcount₂
  · calc 2 ^ h₄.globalDepth = 1 := by rw [hglobal, pow_zero]
      _ ≤ capacity h₃ := hcapacity
      _ = capacity h₄ := hsame₄.capacity.symm
      _ = capacity { h₄ with diskManager := d' } := by
          rw [capacity, capacity, slotsPerPage, slotsPerPage, hsize']
  · rw [hsize', ← hframe]
    show (h₄.directoryPages.length : Int) ≤ _
    rw [hpages] at hroom ⊢
    simp only [maxDirectoryPages, HashPage.META_HEADER_SIZE,
      HashPage.PAGE_ID_SIZE] at hroom ⊢
    omega

theorem represents_init {disk : DiskManager} {maxGlobalDepth : Int} (hempty : disk.pageCount = 0)
    (hinit : init maxGlobalDepth disk = .ok h) :
    Represents blake2b h 0 := by
  rw [init, if_pos hempty] at hinit
  split at hinit
  · cases hinit
  · have hcreate := @wp_create blake2b disk hempty maxGlobalDepth.toNat
    rcases hrun : create ⟨disk, 0, maxGlobalDepth.toNat, []⟩ with ⟨e | _, h'⟩
    · rw [hrun] at hinit
      cases hinit
    · rw [hrun] at hinit
      cases hinit
      obtain ⟨-, -, -, -, B, slot, htable⟩ := wp_ok hcreate hrun
      exact ⟨fun pair hpair => absurd hpair (notMem_zero pair), B, slot, _, htable⟩

/-- An index is made in a new file whose pages have room for the list of one directory page. -/
theorem init_ok {disk : DiskManager} (hempty : disk.pageCount = 0) (hpage : 13 ≤ disk.pageSize)
    {maxDepth : Nat} (hmax : maxDepth < 256) :
    ∃ h, init maxDepth disk = .ok h ∧ h.pageSize = disk.pageSize ∧ h.maxDepth = maxDepth ∧
      h.diskManager.pageCount = 3 ∧ h.directoryPages.length = 1 := by
  have hcreate := @wp_create (fun _ => []) disk hempty maxDepth
  rcases hrun : create ⟨disk, 0, maxDepth, []⟩ with ⟨e | _, h⟩
  · exact absurd ⟨hpage, hmax⟩ (wp_error hcreate hrun)
  · obtain ⟨hsize, hdepth, hcount, hpages, -⟩ := wp_ok hcreate hrun
    refine ⟨h, ?_, hsize, hdepth, hcount, hpages⟩
    rw [init, if_pos hempty, if_neg (by omega), Int.toNat_natCast, hrun]

/-- Opening the file of an index gives the index. -/
theorem init_of_table {slot : Nat → Int} {tail : Int → List Int} {all : Multiset Entry}
    (ht : Table blake2b h B slot tail all) (maxGlobalDepth : Int) :
    init maxGlobalDepth h.diskManager = .ok h := by
  obtain ⟨-, -, frame, hread, -⟩ := ht.layout.metadata
  have hvalid := validPageId_of_read_page hread
  have hcount : h.diskManager.pageCount ≠ 0 := by
    intro hzero
    have hlt := hvalid.2
    rw [hzero] at hlt
    exact absurd hlt (lt_irrefl _)
  rw [init, if_neg hcount]
  exact ht.synced.load

end Opening

/-! ## Calls -/

namespace Represents

variable {blake2b : Bytes → Bytes} {h : ExtendibleHash} {M : Multiset (Value × RID)} {key : Value}
  {encoded : Bytes}

theorem inserted {h' : ExtendibleHash} {rid : RID} (hrep : Represents blake2b h M)
    (hkey : encodeKey key = .ok encoded)
    (htable : ∃ B slot tail, Table blake2b h' B slot tail ((encoded, rid) ::ₘ entriesFor M)) :
    Represents blake2b h' ((key, rid) ::ₘ M) := by
  refine ⟨?_, ?_⟩
  · intro pair hpair
    rcases mem_cons.mp hpair with rfl | hpair
    · exact ⟨encoded, hkey⟩
    · exact hrep.keys pair hpair
  · rw [entriesFor, map_cons, bytesOf_ok hkey]
    exact htable

/-- An insert adds its pair, or raises and adds nothing. -/
theorem wp_insert (hrep : Represents blake2b h M) (key : Value) (rid : RID) :
    wp (ExtendibleHash.insert blake2b key rid)
      (fun _ h' => Represents blake2b h' ((key, rid) ::ₘ M))
      (fun e h' => Represents blake2b h' M ∨
        IsStructError e ∧ ∃ encoded, encodeKey key = .ok encoded) h := by
  cases hkey : encodeKey key with
  | error e =>
      simp only [ExtendibleHash.insert, wp_bind, hkey, wp_lift_error]
      exact Or.inl hrep
  | ok encoded =>
      by_cases hsize : (encoded.length : Int) ≤ maxKeySize h.pageSize
      · obtain ⟨B, slot, tail, ht⟩ := hrep.table
        refine wp_mono (ht.wp_insert hkey hsize) ?_ ?_
        · rintro _ h' ⟨-, -, htable⟩
          exact hrep.inserted hkey htable
        · rintro e h' (⟨-, -, -, htable⟩ | ⟨hstruct, -⟩)
          · exact Or.inl ⟨hrep.keys, htable⟩
          · exact Or.inr ⟨hstruct, encoded, rfl⟩
      · simp only [ExtendibleHash.insert, wp_bind, hkey, wp_lift_ok, wp_get]
        rw [if_pos (not_le.mp hsize)]
        exact Or.inl hrep

open Classical in
theorem search_ok (hrep : Represents blake2b h M) (hkey : encodeKey key = .ok encoded) :
    ∃ found, search blake2b key h = (.ok found, h) ∧
      (found : Multiset RID) = (M.filter (fun pair => pair.1 = key)).map Prod.snd := by
  obtain ⟨hkeys, B, slot, tail, ht⟩ := hrep
  obtain ⟨found, hfound, heq⟩ := ht.search_ok hkey
  refine ⟨found, hfound, heq.trans ?_⟩
  have hfilter : (entriesFor M).filter (fun e => e.1 = encoded) =
      entriesFor (M.filter (fun pair => pair.1 = key)) :=
    entriesFor_filter (fun pair hpair => bytesOf_eq_iff hkeys hkey hpair)
  rw [hfilter, entriesFor, map_map]
  rfl

open Classical in
theorem wp_remove (hrep : Represents blake2b h M) (hkey : encodeKey key = .ok encoded)
    (rid : Option RID) :
    wp (remove blake2b key rid)
      (fun removed h' => removed = (M.filter (Removes key rid)).card ∧
        Represents blake2b h' (M.filter (fun pair => ¬ Removes key rid pair)))
      (fun _ _ => False) h := by
  obtain ⟨hkeys, B, slot, tail, ht⟩ := hrep
  refine wp_mono (ht.wp_remove hkey rid) ?_ (fun _ _ hE => hE)
  rintro removed h' ⟨rfl, B', ht'⟩
  have hmatch : ∀ pair ∈ M, matchesEntry encoded rid (bytesOf pair.1, pair.2) = true ↔
      Removes key rid pair := fun pair hpair => matches_iff hkeys hkey hpair
  refine ⟨?_, ?_, B', slot, tail, ?_⟩
  · have hgone : (entriesFor M).filter (fun e => matchesEntry encoded rid e = true) =
        entriesFor (M.filter (Removes key rid)) := entriesFor_filter hmatch
    rw [hgone, entriesFor, card_map]
  · exact fun pair hpair => hkeys pair (mem_of_mem_filter hpair)
  · have hkept : (entriesFor M).filter (fun e => ¬ matchesEntry encoded rid e = true) =
        entriesFor (M.filter (fun pair => ¬ Removes key rid pair)) :=
      entriesFor_filter (fun pair hpair => not_congr (hmatch pair hpair))
    rw [← hkept]
    exact ht'

end Represents

/-! ## Runs -/

/-- An insert that raised `struct.error`. -/
def Broken (op : Op) (outcome : Except PyError Answer) : Prop :=
  ∃ key rid encoded e, op = .insert key rid ∧ encodeKey key = .ok encoded ∧
    outcome = .error e ∧ IsStructError e

variable {blake2b : Bytes → Bytes} {h : ExtendibleHash} {M : Multiset (Value × RID)}

/-- The multimap that every call leaves. -/
theorem Represents.step (hrep : Represents blake2b h M) (op : Op)
    (hfine : ¬ Broken op (perform blake2b op h).1) :
    Represents blake2b (perform blake2b op h).2 (after M op (perform blake2b op h).1) := by
  cases op with
  | insert key rid =>
      have hinsert := hrep.wp_insert key rid
      rcases hrun : ExtendibleHash.insert blake2b key rid h with ⟨e | _, h'⟩
      · have hperform : perform blake2b (.insert key rid) h = (.error e, h') :=
          run_bind_error _ hrun
        rw [hperform] at hfine ⊢
        rcases wp_error hinsert hrun with hrep' | ⟨hstruct, encoded, hkey⟩
        · exact hrep'
        · exact absurd ⟨key, rid, encoded, e, rfl, hkey, rfl, hstruct⟩ hfine
      · have hperform : perform blake2b (.insert key rid) h = (.ok .done, h') :=
          run_bind_ok _ hrun
        have hrep' := wp_ok hinsert hrun
        rw [hperform]
        exact hrep'
  | search key =>
      cases hkey : encodeKey key with
      | error e =>
          have hrun : search blake2b key h = (.error e, h) := by
            rw [search, run_bind_error]
            rw [run_lift, hkey]
          have hperform : perform blake2b (.search key) h = (.error e, h) := run_bind_error _ hrun
          rw [hperform]
          exact hrep
      | ok encoded =>
          obtain ⟨found, hrun, -⟩ := hrep.search_ok hkey
          have hperform : perform blake2b (.search key) h = (.ok (.rids found), h) :=
            run_bind_ok _ hrun
          rw [hperform]
          exact hrep
  | remove key rid =>
      cases hkey : encodeKey key with
      | error e =>
          have hrun : remove blake2b key rid h = (.error e, h) := by
            rw [remove, run_bind_error]
            rw [run_lift, hkey]
          have hperform : perform blake2b (.remove key rid) h = (.error e, h) :=
            run_bind_error _ hrun
          rw [hperform]
          exact hrep
      | ok encoded =>
          have hremove := hrep.wp_remove hkey rid
          rcases hrun : remove blake2b key rid h with ⟨e | removed, h'⟩
          · exact (wp_error hremove hrun).elim
          · have hperform : perform blake2b (.remove key rid) h = (.ok (.count removed), h') :=
              run_bind_ok _ hrun
            rw [hperform]
            exact (wp_ok hremove hrun).2
  | reopen maxGlobalDepth =>
      obtain ⟨B, slot, tail, ht⟩ := hrep.table
      have hperform : perform blake2b (.reopen maxGlobalDepth) h = (.ok .done, h) := by
        have hlift : lift (init maxGlobalDepth h.diskManager) h = (.ok h, h) := by
          rw [run_lift, init_of_table ht]
        have hreopen : reopen maxGlobalDepth h = (.ok (), h) := by
          rw [reopen, run_bind_ok _ (run_get h), run_bind_ok _ hlift]
          rfl
        rw [perform, run_bind_ok _ hreopen]
        rfl
      rw [hperform]
      exact hrep

/-- The indexes that calls lead to from a new file, with the pairs that were inserted and
not removed. -/
inductive Reached (blake2b : Bytes → Bytes) : ExtendibleHash → Multiset (Value × RID) → Prop
  | created {disk : DiskManager} {maxGlobalDepth : Int} {h : ExtendibleHash}
      (hempty : disk.pageCount = 0) (hinit : init maxGlobalDepth disk = .ok h) :
      Reached blake2b h 0
  | step {h : ExtendibleHash} {M : Multiset (Value × RID)} (hreached : Reached blake2b h M)
      (op : Op) (hfine : ¬ Broken op (perform blake2b op h).1) :
      Reached blake2b (perform blake2b op h).2 (after M op (perform blake2b op h).1)

theorem Reached.represents (hreached : Reached blake2b h M) : Represents blake2b h M := by
  induction hreached with
  | created hempty hinit => exact represents_init hempty hinit
  | step _ op hfine ih => exact ih.step op hfine

/-- The index after a call, whether it returned or raised. -/
def next (blake2b : Bytes → Bytes) (h : ExtendibleHash) (op : Op) : ExtendibleHash :=
  (perform blake2b op h).2

/-- The call returns. -/
def Answered (blake2b : Bytes → Bytes) (h : ExtendibleHash) (op : Op) : Prop :=
  (perform blake2b op h).1.toBool = true

instance (blake2b : Bytes → Bytes) (h : ExtendibleHash) (op : Op) :
    Decidable (Answered blake2b h op) := inferInstanceAs (Decidable (_ = true))

/-- A run of calls that return leads to an index that is reached. -/
theorem Reached.run {blake2b : Bytes → Bytes} : ∀ {ops : List Op} {h : ExtendibleHash}
    {M : Multiset (Value × RID)}, Reached blake2b h M →
    Steps (Answered blake2b) (next blake2b) h ops →
      Reached blake2b (exec (next blake2b) h ops) (ops.foldl (fun M op => after M op (.ok .done)) M)
  | [], _, _, hreached, _ => hreached
  | op :: ops, h, M, hreached, ⟨hanswered, hrest⟩ => by
      rw [Answered] at hanswered
      have hstep := hreached.step op
      have hafter : ∀ answer, after M op (.ok answer) = after M op (.ok .done) := by
        intro answer
        cases op <;> rfl
      cases houtcome : (perform blake2b op h).1 with
      | error e =>
          rw [houtcome] at hanswered
          cases hanswered
      | ok answer =>
          rw [houtcome, hafter] at hstep
          have hrun := Reached.run
            (hstep (fun ⟨_, _, _, _, _, _, herror, _⟩ => by cases herror)) hrest
          exact hrun

/-! ## The directory and the entries -/

/-- The directory is sound, the chains of its buckets end and share no page, and every entry
has the low bits of the slots of its bucket. -/
structure SoundDirectory (blake2b : Bytes → Bytes) (h : ExtendibleHash) (slot : Nat → Int)
    (depth : Int → Nat) (pages : Int → List Int) (entries : Int → List Entry) : Prop where
  shown : ∀ s < 2 ^ h.globalDepth, directorySlot s h = (.ok (slot s), h)
  localDepth : ∀ s < 2 ^ h.globalDepth,
    peek (slot s) HashPage.localDepth h = (.ok (depth (slot s)), h) ∧
      depth (slot s) ≤ h.globalDepth
  same : ∀ s < 2 ^ h.globalDepth, ∀ t < 2 ^ h.globalDepth,
    slot s = slot t ↔ s % 2 ^ depth (slot s) = t % 2 ^ depth (slot s)
  chain : ∀ s < 2 ^ h.globalDepth, chain (slot s) h = (.ok (pages (slot s)), h) ∧
    (pages (slot s)).Nodup
  apart : ∀ s < 2 ^ h.globalDepth, ∀ t < 2 ^ h.globalDepth, slot s ≠ slot t →
    (pages (slot s)).Disjoint (pages (slot t))
  entries : ∀ s < 2 ^ h.globalDepth, ∀ p ∈ pages (slot s),
    peek p iterEntries h = (.ok (entries p), h) ∧ ∀ e ∈ entries p,
      hashEncoded blake2b e.1 % 2 ^ depth (slot s) = s % 2 ^ depth (slot s)

theorem Table.soundDirectory {B : Int → Option Bucket} {slot : Nat → Int} {tail : Int → List Int}
    {all : Multiset Entry} (ht : Table blake2b h B slot tail all) :
    SoundDirectory blake2b h slot (depthAt B) (pagesAt tail) (entriesAt B) := by
  refine ⟨fun s hs => ht.slot_ok hs, ?_, ht.sound.same, fun s hs => ⟨ht.chain_ok hs, ht.nodup s hs⟩,
    ht.disjoint, ?_⟩
  · intro s hs
    obtain ⟨b, hb⟩ := ht.bucket hs
    refine ⟨?_, ht.sound.depth_le s hs⟩
    rw [depthAt_of_some hb]
    exact ht.layout.peek_bucket hb (fun _ hholds => hholds.localDepth)
  · intro s hs p hp
    obtain ⟨b, hb⟩ := bucket_of_linked (ht.linked s hs) hp
    constructor
    · rw [entriesAt_of_some hb]
      exact ht.layout.peek_bucket hb (fun _ hholds => hholds.iterEntries)
    · intro e he
      have hmem : e ∈ (entriesOf B (pagesAt tail (slot s)) : Multiset Entry) :=
        mem_coe.mpr (List.mem_flatMap.mpr ⟨p, hp, he⟩)
      have hitems := ht.holds s hs
      rw [show (entriesOf B (pagesAt tail (slot s)) : Multiset Entry) = _ from hitems,
        mem_filter] at hmem
      exact hmem.2

open Classical in
/-- What an index is that stands for a multimap of keys and RIDs. -/
structure Multimap (blake2b : Bytes → Bytes) (h : ExtendibleHash)
    (M : Multiset (Value × RID)) : Prop where
  directory : ∃ slot depth pages entries, SoundDirectory blake2b h slot depth pages entries
  search : ∀ key encoded, encodeKey key = .ok encoded →
    ∃ found, search blake2b key h = (.ok found, h) ∧
      (found : Multiset RID) = (M.filter (fun pair => pair.1 = key)).map Prod.snd
  remove : ∀ key rid encoded, encodeKey key = .ok encoded →
    (remove blake2b key rid h).1 = .ok (M.filter (Removes key rid)).card

/-- After any calls the directory is sound, and searches and removals find the pairs that were
inserted and not removed. -/
theorem hash_refines_multimap (hreached : Reached blake2b h M) : Multimap blake2b h M := by
  have hrep := hreached.represents
  obtain ⟨B, slot, tail, ht⟩ := hrep.table
  refine ⟨⟨slot, depthAt B, pagesAt tail, entriesAt B, ht.soundDirectory⟩, ?_, ?_⟩
  · exact fun key encoded hkey => hrep.search_ok hkey
  · intro key rid encoded hkey
    have hremove := hrep.wp_remove hkey rid
    rcases hrun : remove blake2b key rid h with ⟨e | removed, h'⟩
    · exact (wp_error hremove hrun).elim
    · rw [(wp_ok hremove hrun).1]

/-! ## Inserts that succeed -/

/-- While the ids of new pages are in range, an insert raises only if the directory cannot be
doubled as often as the entry needs it. -/
theorem Represents.insert_outcome (hrep : Represents blake2b h M) {key : Value} {encoded : Bytes}
    {rid : RID} (hkey : encodeKey key = .ok encoded)
    (hsize : (encoded.length : Int) ≤ maxKeySize h.pageSize)
    (hpage : Short h.pageSize (Table.bytesWith (entriesFor M) encoded))
    (hids : h.pageSize < Table.bytesWith (entriesFor M) encoded →
      h.diskManager.pageCount + 32768 ≤ 4294967296) (hrid : RidFits rid) :
    (Table.HasRoom blake2b h (entriesFor M) encoded →
      ∃ h', ExtendibleHash.insert blake2b key rid h = (.ok (), h') ∧
        Represents blake2b h' ((key, rid) ::ₘ M) ∧ ∃ n ≤ h.maxDepth + 1, Table.Grown n h h') ∧
    (¬ Table.HasRoom blake2b h (entriesFor M) encoded →
      ∃ h', ExtendibleHash.insert blake2b key rid h = (.error directoryError, h') ∧
        Represents blake2b h' M) := by
  obtain ⟨B, slot, tail, ht⟩ := hrep.table
  have hmax := ht.maxDepth
  have hroomy : Table.Roomy h (Table.bytesWith (entriesFor M) encoded) (h.maxDepth + 1) := by
    refine ⟨hpage, fun hbytes => ?_⟩
    have hsize : h.pageSize < 65536 := (hpage.mono hbytes.le).lt le_rfl
    have hpages := hids hbytes
    have hlist : (maxDirectoryPages h.pageSize).toNat ≤ 16384 := by
      simp only [maxDirectoryPages, HashPage.META_HEADER_SIZE, HashPage.PAGE_ID_SIZE]
      omega
    omega
  have hinsert := @Table.wp_insert _ _ _ _ _ _ encoded rid key ht hkey hsize
  rcases hrun : ExtendibleHash.insert blake2b key rid h with ⟨e | _, h'⟩
  · rcases wp_error hinsert hrun with hrefused | ⟨-, hnot⟩
    · refine ⟨fun hroom => absurd hroom hrefused.full, fun _ => ⟨h', ?_, hrep.keys,
        hrefused.table⟩⟩
      rw [hrefused.error]
    · exact absurd ⟨hroomy, hrid⟩ hnot
  · have hinserted := wp_ok hinsert hrun
    exact ⟨fun _ => ⟨h', rfl, hrep.inserted hkey hinserted.table, hinserted.grown⟩,
      fun hfull => absurd hinserted.room hfull⟩

/-- An insert of an admissible key succeeds if and only if the directory can be doubled as often
as the entry needs it. -/
theorem insert_succeeds_iff_room (hreached : Reached blake2b h M) {key : Value} {encoded : Bytes}
    {rid : RID} (hkey : encodeKey key = .ok encoded)
    (hsize : (encoded.length : Int) ≤ maxKeySize h.pageSize) (hpage : h.pageSize < 65536)
    (hids : h.diskManager.pageCount + 32768 ≤ 4294967296) (hrid : RidFits rid) :
    ((ExtendibleHash.insert blake2b key rid h).1 = .ok () ↔
      Table.HasRoom blake2b h (entriesFor M) encoded) ∧
    ∀ e, (ExtendibleHash.insert blake2b key rid h).1 = .error e → e = directoryError := by
  obtain ⟨hsucceeds, hfails⟩ :=
    hreached.represents.insert_outcome hkey hsize (Or.inl hpage) (fun _ => hids) hrid
  by_cases hroom : Table.HasRoom blake2b h (entriesFor M) encoded
  · obtain ⟨h', hrun, -⟩ := hsucceeds hroom
    rw [hrun]
    exact ⟨iff_of_true rfl hroom, fun e he => by cases he⟩
  · obtain ⟨h', hrun, -⟩ := hfails hroom
    rw [hrun]
    exact ⟨iff_of_false (fun hok => by cases hok) hroom, fun e he => (Except.error.inj he).symm⟩

/-! ### An index with pages of 26 bytes

A page has room for one integer key, and the metadata page for four directory pages of six
slots.
-/

/-- Under a directory of at most one bit: 2 collides with 0, which splits the bucket and chains an
overflow page, another RID under 2 one more, 1 is alone.  Then 0 is removed and the file opened
again. -/
def colliding : List Op :=
  [.insert (.int 0) ⟨1, 0⟩, .insert (.int 2) ⟨1, 1⟩, .insert (.int 2) ⟨1, 2⟩,
    .insert (.int 1) ⟨2, 0⟩, .search (.int 2), .remove (.int 0) none, .reopen 16]

theorem hash_refines_multimap_colliding : ∃ h, init 1 ⟨26, []⟩ = .ok h ∧
    (exec (next (fun _ => [])) h colliding).globalDepth = 1 ∧
    (exec (next (fun _ => [])) h colliding).diskManager.pageCount = 6 ∧
    Multimap (fun _ => []) (exec (next (fun _ => [])) h colliding)
      {(.int 1, ⟨2, 0⟩), (.int 2, ⟨1, 2⟩), (.int 2, ⟨1, 1⟩)} := by
  obtain ⟨h, hinit, hsteps, hdepth, hcount⟩ : ∃ h, init 1 ⟨26, []⟩ = .ok h ∧
      Steps (Answered (fun _ => [])) (next (fun _ => [])) h colliding ∧
      (exec (next (fun _ => [])) h colliding).globalDepth = 1 ∧
      (exec (next (fun _ => [])) h colliding).diskManager.pageCount = 6 :=
    exists_ok_of_check (by decide +kernel)
  have hpairs : colliding.foldl (fun M op => after M op (.ok .done)) 0 =
      {(.int 1, ⟨2, 0⟩), (.int 2, ⟨1, 2⟩), (.int 2, ⟨1, 1⟩)} := by
    classical
    show filter (fun pair => ¬ Removes (.int 0) none pair) ((.int 1, ⟨2, 0⟩) ::ₘ
      (.int 2, ⟨1, 2⟩) ::ₘ (.int 2, ⟨1, 1⟩) ::ₘ (.int 0, ⟨1, 0⟩) ::ₘ 0) = _
    rw [filter_cons_of_pos _ (by simp [Removes]),
      filter_cons_of_pos _ (by simp [Removes]),
      filter_cons_of_pos _ (by simp [Removes]),
      filter_cons_of_neg _ (by simp [Removes]), filter_zero]
    rfl
  have hreached := (Reached.created rfl hinit).run hsteps
  rw [hpairs] at hreached
  exact ⟨h, hinit, hdepth, hcount, hash_refines_multimap hreached⟩

def oneKey : List Op := [.insert (.int 0) ⟨1, 0⟩]

/-- The keys 0 and 2 share one bit: the second insert splits two times and doubles the directory
each time. -/
theorem insert_succeeds_iff_room_doubling : ∃ h, init 16 ⟨26, []⟩ = .ok h ∧
    (exec (next (fun _ => [])) h oneKey).globalDepth = 0 ∧
    (ExtendibleHash.insert (fun _ => []) (.int 2) ⟨1, 1⟩
      (exec (next (fun _ => [])) h oneKey)).1 = .ok () ∧
    (ExtendibleHash.insert (fun _ => []) (.int 2) ⟨1, 1⟩
      (exec (next (fun _ => [])) h oneKey)).2.globalDepth = 2 := by
  obtain ⟨h, hinit, hsteps, hdepth, hpage, hcount, hdoubled⟩ : ∃ h, init 16 ⟨26, []⟩ = .ok h ∧
      Steps (Answered (fun _ => [])) (next (fun _ => [])) h oneKey ∧
      (exec (next (fun _ => [])) h oneKey).globalDepth = 0 ∧
      (exec (next (fun _ => [])) h oneKey).pageSize = 26 ∧
      (exec (next (fun _ => [])) h oneKey).diskManager.pageCount = 3 ∧
      (ExtendibleHash.insert (fun _ => []) (.int 2) ⟨1, 1⟩
        (exec (next (fun _ => [])) h oneKey)).2.globalDepth = 2 :=
    exists_ok_of_check (by decide +kernel)
  have hreached := (Reached.created rfl hinit).run hsteps
  refine ⟨h, hinit, ?_⟩
  generalize exec (next (fun _ => [])) h oneKey = h' at hdepth hpage hcount hdoubled hreached ⊢
  have hkey : encodeKey (.int 2) = .ok [0, 2, 0, 0, 0, 0, 0, 0, 0] := by rfl
  refine ⟨hdepth, ?_, hdoubled⟩
  refine (insert_succeeds_iff_room hreached hkey ?_ ?_ ?_ ⟨by decide, by decide⟩).1.mpr ?_
  · rw [hpage]
    decide
  · rw [hpage]
    decide
  · rw [hcount]
    decide
  · intro depth _ _ hcrowded
    rw [hpage] at hcrowded
    have hfew : depth < 2 := by
      by_contra hnot
      have htwo : Table.Crowded (fun _ => []) 26 {([0, 0, 0, 0, 0, 0, 0, 0, 0], ⟨1, 0⟩)}
          [0, 2, 0, 0, 0, 0, 0, 0, 0] 2 := hcrowded.of_le (Nat.le_of_not_lt hnot)
      revert htwo
      unfold Table.Crowded
      decide +kernel
    rw [Table.Fits, slotsPerPage, hpage]
    obtain rfl | rfl : depth = 0 ∨ depth = 1 := by omega
    · decide
    · decide

/-- The keys 0 and 16 share four bits; the directory for a fifth does not fit. -/
theorem second_insert_raises : ∃ h₀ h, init 16 ⟨26, []⟩ = .ok h₀ ∧
    ExtendibleHash.insert (fun _ => []) (.int 0) ⟨1, 0⟩ h₀ = (.ok (), h) ∧
    Reached (fun _ => []) h {(.int 0, ⟨1, 0⟩)} ∧
    ((bytesOf (.int 16)).length : Int) ≤ maxKeySize h.pageSize ∧
    (ExtendibleHash.insert (fun _ => []) (.int 16) ⟨1, 1⟩ h).1 = .error directoryError := by
  obtain ⟨h, hinit, hinsert, hpage, hraises⟩ : ∃ h, init 16 ⟨26, []⟩ = .ok h ∧
      (ExtendibleHash.insert (fun _ => []) (.int 0) ⟨1, 0⟩ h).1 = .ok () ∧
      (ExtendibleHash.insert (fun _ => []) (.int 0) ⟨1, 0⟩ h).2.pageSize = 26 ∧
      (ExtendibleHash.insert (fun _ => []) (.int 16) ⟨1, 1⟩
        (ExtendibleHash.insert (fun _ => []) (.int 0) ⟨1, 0⟩ h).2).1 = .error directoryError :=
    exists_ok_of_check (by decide +kernel)
  obtain ⟨r, h', hrun⟩ : ∃ r h', ExtendibleHash.insert (fun _ => []) (.int 0) ⟨1, 0⟩ h = (r, h') :=
    ⟨_, _, rfl⟩
  rw [hrun] at hinsert hpage hraises
  obtain rfl : r = .ok () := hinsert
  have hperform : perform (fun _ => []) (.insert (.int 0) ⟨1, 0⟩) h = (.ok .done, h') :=
    run_bind_ok _ hrun
  have hreached := (Reached.created rfl hinit).step (.insert (.int 0) ⟨1, 0⟩) (by
    rintro ⟨_, _, _, e, _, _, herror, _⟩
    rw [hperform] at herror
    cases herror)
  rw [hperform] at hreached
  refine ⟨h, h', hinit, hrun, hreached, ?_, hraises⟩
  rw [hpage]
  decide

end SoupDB.ExtendibleHash
