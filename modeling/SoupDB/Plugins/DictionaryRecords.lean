import SoupDB.Plugins.TermDictionary
import Mathlib.Algebra.Order.BigOperators.Group.List

/-!
# SoupDB: a dictionary of terms holds its records

`Holds blake2b d items` says that the file of a dictionary has the records of these terms, and
that the hash maps every term to its number.  Such a dictionary finds its terms and no others
(`Holds.find_ok`, `Holds.find_none`), lists them (`Holds.items_ok`), and is opened again as it
is (`Holds.load_ok`).

A term can be added if the hash has room for it (`Holds.add_outcome`).  `TermsFit` is the
condition on the terms under which all of them can.
-/

namespace SoupDB.TermDictionary

open HashPage Multiset Pack

open KeyCodec (encodeUtf8 decodeUtf8 decodeUtf8_encodeUtf8)
open ExtendibleHash (Represents Table bytesOf entriesFor hashEncoded hashOf encodeKey
  directoryError)

/-- A term and its entry. -/
abbrev Item : Type := String × DictionaryEntry

/-- The record of a term can be written and read. -/
structure Good (pageSize : Nat) (item : Item) : Prop where
  term : item.1 ≠ ""
  size : (encodeUtf8 item.1).length + 18 ≤ pageSize
  short : (encodeUtf8 item.1).length < 2 ^ 32
  df : item.2.df ≠ 0
  offset : 8 ≤ item.2.offset
  length : item.2.length = 8 + item.2.df * 16
  fields : item.2.df < 2 ^ 64 ∧ item.2.offset < 2 ^ 64 ∧ item.2.length < 2 ^ 64

def fieldBytes (item : Item) : Bytes :=
  packLE 4 (encodeUtf8 item.1).length ++ (packLE 8 item.2.df ++
    (packLE 8 item.2.offset ++ packLE 8 item.2.length))

def recordBytes (item : Item) : Bytes := fieldBytes item ++ encodeUtf8 item.1

/-- Where the records start that stand one after the other. -/
def offsetsFrom : Nat → List Item → List Nat
  | _, [] => []
  | start, item :: items => start :: offsetsFrom (start + (recordBytes item).length) items

/-- The keys of the hash and their RIDs, with the terms numbered from a number on. -/
def pairsFrom : Nat → List Item → List (Value × RID)
  | _, [] => []
  | ordinal, item :: items => (.str item.1, auxiliary ordinal) :: pairsFrom (ordinal + 1) items

/-- The file and the hash hold these terms. -/
structure Contents (blake2b : Bytes → Bytes) (d : TermDictionary) (items : List Item) : Prop where
  file : ∃ header, HEADER.pack (MAGIC, VERSION) = .ok header ∧
    d.file = header ++ items.flatMap recordBytes
  good : ∀ item ∈ items, Good d.pageSize item
  nodup : (items.map Prod.fst).Nodup
  index : Represents blake2b d.index (pairsFrom 0 items : List (Value × RID))
  pageSize : d.index.pageSize = d.pageSize
  maxDepth : d.index.maxDepth = HASH_GLOBAL_DEPTH_MAX
  pages : d.index.diskManager.pageCount ≤
    2 + d.index.directoryPages.length + 17 * items.length

structure Holds (blake2b : Bytes → Bytes) (d : TermDictionary) (items : List Item) : Prop
    extends Contents blake2b d items where
  offsets : d.offsets = offsetsFrom HEADER.size items

/-! ## Records -/

section Records

variable {d : TermDictionary} {item : Item} {items : List Item}

theorem record_pack_ok (h : Good d.pageSize item) :
    RECORD.pack ((encodeUtf8 item.1).length, item.2.df, item.2.offset, item.2.length) =
      .ok (fieldBytes item) := by
  obtain ⟨hdf, hoffset, hlength⟩ := h.fields
  have hsize : packU 4 (encodeUtf8 item.1).length = .ok (packLE 4 _) :=
    packU_eq_ok.mpr ⟨h.short, rfl⟩
  have hdf' : packU 8 item.2.df = .ok (packLE 8 _) := packU_eq_ok.mpr ⟨hdf, rfl⟩
  have hoffset' : packU 8 item.2.offset = .ok (packLE 8 _) :=
    packU_eq_ok.mpr ⟨hoffset, rfl⟩
  have hlength' : packU 8 item.2.length = .ok (packLE 8 _) :=
    packU_eq_ok.mpr ⟨hlength, rfl⟩
  simp only [RECORD, Struct.pair, Struct.unsigned, hsize, hdf', hoffset', hlength', ok_bind]
  rfl

theorem length_fieldBytes (item : Item) : (fieldBytes item).length = RECORD.size := by
  simp only [fieldBytes, List.length_append, length_packLE]
  rfl

theorem encodeUtf8_pos {term : String} (h : term ≠ "") : 0 < (encodeUtf8 term).length := by
  refine List.length_pos_of_ne_nil ?_
  intro hempty
  have hdecoded := decodeUtf8_encodeUtf8 term
  rw [hempty] at hdecoded
  have hnone : decodeUtf8 [] = some "" := decodeUtf8_encodeUtf8 ""
  rw [hnone] at hdecoded
  exact h (Option.some.inj hdecoded).symm

theorem readRecord {before after : Bytes} (h : Good d.pageSize item)
    (hfile : d.file = before ++ (recordBytes item ++ after)) :
    d.read before.length =
      .ok (item.1, item.2, before.length + (recordBytes item).length) := by
  have hlength := length_fieldBytes item
  have hheader : slice d.file before.length (before.length + RECORD.size) = fieldBytes item := by
    rw [hfile, recordBytes, List.append_assoc, ← List.append_assoc before]
    exact slice_append rfl (by rw [hlength])
  have hterm : slice d.file (before.length + RECORD.size)
      (before.length + RECORD.size + (encodeUtf8 item.1).length) = encodeUtf8 item.1 := by
    rw [hfile, recordBytes, List.append_assoc, ← List.append_assoc before,
      ← List.append_assoc (before ++ fieldBytes item)]
    exact slice_append (by rw [List.length_append, hlength]) rfl
  have hunpack := (RECORD.packed (record_pack_ok h)).2.2
  have hpos := encodeUtf8_pos h.term
  have hsize := h.size
  have hnext : before.length + (recordBytes item).length =
      before.length + RECORD.size + (encodeUtf8 item.1).length := by
    rw [recordBytes, List.length_append, hlength, Nat.add_assoc]
  simp only [read, hheader, hunpack, hterm, decodeUtf8_encodeUtf8]
  rw [if_neg (not_not.mpr hlength), if_neg (not_not.mpr ⟨hpos, by omega⟩),
    if_neg (not_not.mpr rfl), if_neg, hnext]
  rintro (hdf | hoffset | hlen)
  · exact h.df hdf
  · exact absurd h.offset (not_le.mpr hoffset)
  · exact hlen h.length

theorem offsetsFrom_append (start : Nat) (items rest : List Item) :
    offsetsFrom start (items ++ rest) = offsetsFrom start items ++
      offsetsFrom (start + (items.flatMap recordBytes).length) rest := by
  induction items generalizing start with
  | nil => rfl
  | cons item items ih =>
      rw [List.cons_append, offsetsFrom, ih, offsetsFrom, List.cons_append, List.flatMap_cons,
        List.length_append, Nat.add_assoc]

@[simp] theorem length_offsetsFrom (start : Nat) (items : List Item) :
    (offsetsFrom start items).length = items.length := by
  induction items generalizing start with
  | nil => rfl
  | cons item items ih => rw [offsetsFrom, List.length_cons, ih, List.length_cons]

theorem length_le_records (items : List Item) :
    items.length ≤ (items.flatMap recordBytes).length := by
  induction items with
  | nil => exact le_rfl
  | cons item items ih =>
      have hpos : 0 < (recordBytes item).length := by
        rw [recordBytes, List.length_append, length_fieldBytes]
        exact Nat.add_pos_left (by decide) _
      rw [List.length_cons, List.flatMap_cons, List.length_append]
      omega

end Records

/-! ## The hash -/

section Pairs

variable {items : List Item} {item : Item} {term : String} {i : Nat}

theorem pairsFrom_append (ordinal : Nat) (items rest : List Item) :
    pairsFrom ordinal (items ++ rest) =
      pairsFrom ordinal items ++ pairsFrom (ordinal + items.length) rest := by
  induction items generalizing ordinal with
  | nil => rfl
  | cons item items ih =>
      rw [List.cons_append, pairsFrom, ih, pairsFrom, List.cons_append, List.length_cons,
        Nat.add_assoc, Nat.add_comm 1]

theorem keys_pairsFrom (ordinal : Nat) (items : List Item) :
    (pairsFrom ordinal items).map Prod.fst = items.map (fun item => .str item.1) := by
  induction items generalizing ordinal with
  | nil => rfl
  | cons item items ih => rw [pairsFrom, List.map_cons, ih, List.map_cons]

open Classical in
theorem filter_pairsFrom_of_not_mem (ordinal : Nat) (hterm : term ∉ items.map Prod.fst) :
    (pairsFrom ordinal items).filter (fun pair => pair.1 = .str term) = [] := by
  rw [List.filter_eq_nil_iff]
  intro pair hpair
  have hkey : pair.1 ∈ (pairsFrom ordinal items).map Prod.fst := List.mem_map_of_mem hpair
  rw [keys_pairsFrom] at hkey
  obtain ⟨item, hitem, heq⟩ := List.mem_map.mp hkey
  rw [decide_eq_true_eq, ← heq, Value.str.injEq]
  rintro rfl
  exact hterm (List.mem_map_of_mem hitem)

open Classical in
theorem filter_pairsFrom (ordinal : Nat) (hnodup : (items.map Prod.fst).Nodup)
    (hitem : items[i]? = some item) :
    (pairsFrom ordinal items).filter (fun pair => pair.1 = .str item.1) =
      [(.str item.1, auxiliary (ordinal + i))] := by
  induction items generalizing ordinal i with
  | nil => cases hitem
  | cons first items ih =>
      rw [List.map_cons, List.nodup_cons] at hnodup
      cases i with
      | zero =>
          rw [List.getElem?_cons_zero, Option.some.injEq] at hitem
          subst hitem
          rw [pairsFrom, List.filter_cons_of_pos (by simp),
            filter_pairsFrom_of_not_mem _ hnodup.1, Nat.add_zero]
      | succ i =>
          rw [List.getElem?_cons_succ] at hitem
          have hne : first.1 ≠ item.1 := by
            intro heq
            refine hnodup.1 ?_
            rw [heq]
            exact List.mem_map_of_mem (List.mem_of_getElem? hitem)
          rw [pairsFrom, List.filter_cons_of_neg (by simpa using hne), ih _ hnodup.2 hitem,
            Nat.add_assoc, Nat.add_comm 1]

end Pairs

namespace Contents

variable {blake2b : Bytes → Bytes} {d : TermDictionary} {items : List Item} {item : Item}
  {term : String} {i : Nat}

open Classical in
theorem search_filter (h : Contents blake2b d items) (term : String) :
    ∃ found, d.search blake2b term = .ok found ∧ (found : Multiset RID) =
      (((pairsFrom 0 items).filter (fun pair => pair.1 = .str term)).map Prod.snd : List RID) := by
  obtain ⟨found, hfound, heq⟩ := @Represents.search_ok _ _ _ (.str term) _ h.index rfl
  refine ⟨found, ?_, ?_⟩
  · rw [search, hfound]
  · rw [heq, filter_coe, map_coe]

/-- A term is found under its number. -/
theorem search_ok (h : Contents blake2b d items) (hitem : items[i]? = some item) :
    d.search blake2b item.1 = .ok [auxiliary i] := by
  obtain ⟨found, hfound, heq⟩ := h.search_filter item.1
  rw [filter_pairsFrom 0 h.nodup hitem, Nat.zero_add, List.map_singleton] at heq
  rw [hfound, List.perm_singleton.mp (coe_eq_coe.mp heq)]

theorem search_none (h : Contents blake2b d items) (hterm : term ∉ items.map Prod.fst) :
    d.search blake2b term = .ok [] := by
  obtain ⟨found, hfound, heq⟩ := h.search_filter term
  rw [filter_pairsFrom_of_not_mem 0 hterm, List.map_nil] at heq
  rw [hfound, List.perm_nil.mp (coe_eq_coe.mp heq)]

theorem read_ok {before after : List Item} (h : Contents blake2b d (before ++ item :: after)) :
    d.read (HEADER.size + (before.flatMap recordBytes).length) =
      .ok (item.1, item.2, HEADER.size + ((before ++ [item]).flatMap recordBytes).length) := by
  obtain ⟨header, hheader, hfile⟩ := h.file
  have hlength := (HEADER.packed hheader).2.1
  have hstands : d.file = (header ++ before.flatMap recordBytes) ++
      (recordBytes item ++ after.flatMap recordBytes) := by
    rw [hfile, List.flatMap_append, List.flatMap_cons, List.append_assoc]
  have hread := readRecord (h.good item (by simp)) hstands
  rw [List.length_append, hlength] at hread
  rw [hread, List.flatMap_append, List.flatMap_singleton, List.length_append, Nat.add_assoc]

theorem scanFrom_ok (h : Contents blake2b d items) : ∀ {rest before : List Item} {fuel : Nat},
    items = before ++ rest → rest.length ≤ fuel →
    d.scanFrom blake2b fuel (HEADER.size + (before.flatMap recordBytes).length)
      (offsetsFrom HEADER.size before) = .ok (offsetsFrom HEADER.size items) := by
  obtain ⟨header, hheader, hfile⟩ := h.file
  have hlength : d.file.length = HEADER.size + (items.flatMap recordBytes).length := by
    rw [hfile, List.length_append, (HEADER.packed hheader).2.1]
  intro rest
  induction rest with
  | nil =>
      intro before fuel hitems _
      rw [List.append_nil] at hitems
      subst hitems
      have hend : ¬ HEADER.size + (items.flatMap recordBytes).length < d.file.length := by
        rw [hlength]
        exact lt_irrefl _
      cases fuel with
      | zero => rw [scanFrom, if_neg hend]
      | succ fuel => rw [scanFrom, if_neg hend]
  | cons item rest ih =>
      intro before fuel hitems hfuel
      obtain ⟨fuel, rfl⟩ := Nat.exists_eq_succ_of_ne_zero (Nat.ne_zero_of_lt hfuel)
      have hmore : HEADER.size + (before.flatMap recordBytes).length < d.file.length := by
        have hrest := length_le_records (item :: rest)
        rw [List.length_cons] at hrest
        rw [hlength, hitems, List.flatMap_append, List.length_append]
        omega
      have hitem : items[before.length]? = some item := by
        rw [hitems, List.getElem?_append_right le_rfl, Nat.sub_self, List.getElem?_cons_zero]
      have hitems' : items = before ++ [item] ++ rest := by rw [hitems, List.append_assoc]; rfl
      have hread := (show Contents blake2b d (before ++ item :: rest) from hitems ▸ h).read_ok
      have hoffsets : offsetsFrom HEADER.size before ++
          [HEADER.size + (before.flatMap recordBytes).length] =
            offsetsFrom HEADER.size (before ++ [item]) := by
        rw [offsetsFrom_append]
        rfl
      rw [scanFrom, if_pos hmore, hread, ok_bind]
      dsimp only
      rw [h.search_ok hitem, ok_bind, length_offsetsFrom, if_neg (not_not.mpr rfl), hoffsets]
      exact ih hitems' (Nat.le_of_succ_le_succ hfuel)

end Contents

/-! ## What a dictionary answers -/

namespace Holds

variable {blake2b : Bytes → Bytes} {d : TermDictionary} {items : List Item} {item : Item}
  {term : String} {i : Nat}

theorem offset_ok {before after : List Item} (h : Holds blake2b d (before ++ item :: after)) :
    d.offsets[before.length]? = some (HEADER.size + (before.flatMap recordBytes).length) := by
  rw [h.offsets, offsetsFrom_append, List.getElem?_append_right (by rw [length_offsetsFrom]),
    length_offsetsFrom, Nat.sub_self]
  rfl

/-- The number that an auxiliary RID stands for. -/
theorem ordinal_auxiliary (i : Nat) :
    (auxiliary i).pageId * 65536 + (auxiliary i).slot = (i : Int) := by
  have hdiv := Nat.div_add_mod i 65536
  rw [auxiliary]
  dsimp only
  omega

variable (h : Holds blake2b d items)
include h

/-- A term of the dictionary is found. -/
theorem find_ok (hitem : items[i]? = some item) : d.find blake2b item.1 = .ok (some item.2) := by
  obtain ⟨hi, hget⟩ := List.getElem?_eq_some_iff.mp hitem
  have hitems : items = items.take i ++ item :: items.drop (i + 1) := by
    rw [← hget, List.getElem_cons_drop, List.take_append_drop]
  have hlength : (items.take i).length = i := by
    rw [List.length_take, Nat.min_eq_left hi.le]
  have h' : Holds blake2b d (items.take i ++ item :: items.drop (i + 1)) := hitems ▸ h
  have hoffset := h'.offset_ok
  rw [hlength] at hoffset
  have hbound : ¬ (i : Int) ≥ (d.offsets.length : Int) := by
    rw [h.offsets, length_offsetsFrom]
    omega
  rw [find, h.search_ok hitem, ok_bind]
  dsimp only
  rw [ordinal_auxiliary, if_neg hbound, Int.toNat_natCast, hoffset]
  dsimp only
  rw [h'.toContents.read_ok, ok_bind]
  dsimp only
  rw [if_neg (not_not.mpr rfl)]

theorem find_none (hterm : term ∉ items.map Prod.fst) : d.find blake2b term = .ok none := by
  rw [find, h.search_none hterm, ok_bind]

/-- The terms are listed in their order. -/
theorem items_ok : d.items = .ok items := by
  have hrest : ∀ {rest before : List Item}, items = before ++ rest →
      (offsetsFrom (HEADER.size + (before.flatMap recordBytes).length) rest).mapM
        (fun offset => d.read offset >>= fun record => .ok (record.1, record.2.1)) =
          (.ok rest : Except PyError (List Item)) := by
    intro rest
    induction rest with
    | nil =>
        intro before _
        rfl
    | cons item rest ih =>
        intro before hitems
        have hread := (show Contents blake2b d (before ++ item :: rest) from
          hitems ▸ h.toContents).read_ok
        have hnext := @ih (before ++ [item]) (by rw [hitems, List.append_assoc]; rfl)
        rw [List.flatMap_append, List.flatMap_singleton, List.length_append,
          ← Nat.add_assoc] at hnext
        rw [offsetsFrom, List.mapM_cons, hread, ok_bind]
        dsimp only
        rw [ok_bind, hnext, ok_bind]
        rfl
  rw [TermDictionary.items, h.offsets]
  exact @hrest items [] rfl

/-- Opening the files of a dictionary gives the dictionary. -/
theorem load_ok (hpage : 128 ≤ d.pageSize) :
    load blake2b d.file d.index.diskManager d.pageSize = .ok { d with writable := false } := by
  obtain ⟨header, hheader, hfile⟩ := h.file
  obtain ⟨B, slot, tail, ht⟩ := h.index.table
  have hlength := (HEADER.packed hheader).2.1
  have hslice : slice d.file 0 HEADER.size = header := by
    rw [hfile, slice, List.drop_zero, Nat.sub_zero, List.take_left' hlength]
  have hcount : d.index.diskManager.pageCount ≠ 0 := by
    obtain ⟨-, -, frame, hread, -⟩ := ht.layout.metadata
    have hvalid := (DiskManager.validPageId_of_read_page hread).2
    omega
  have hcontents : Contents blake2b { d with writable := false, offsets := [] } items :=
    ⟨h.file, h.good, h.nodup, h.index, h.pageSize, h.maxDepth, h.pages⟩
  have hfuel : items.length ≤ d.file.length := by
    rw [hfile, List.length_append]
    exact (length_le_records items).trans (Nat.le_add_left _ _)
  have hscan := @Contents.scanFrom_ok _ _ _ hcontents items [] d.file.length rfl hfuel
  have hopen : ExtendibleHash.init HASH_GLOBAL_DEPTH_MAX d.index.diskManager = .ok d.index :=
    ExtendibleHash.init_of_table ht _
  have hsize : d.index.diskManager.pageSize = d.pageSize := h.pageSize
  rw [load, if_neg (by omega), if_neg hcount, hheader, ok_bind, hslice,
    if_neg (not_not.mpr rfl), Int.toNat_natCast, if_neg (not_not.mpr hsize), hopen, ok_bind]
  rw [List.flatMap_nil, List.length_nil, Nat.add_zero] at hscan
  refine bind_eq_ok.mpr ⟨_, hscan, ?_⟩
  rw [← h.offsets]

end Holds

/-! ## Adding terms -/

/-- The directory of the next depth fits in the metadata page. -/
def DirectoryFits (pageSize depth : Nat) : Prop :=
  (((2 ^ depth * 2 + directorySlotsPerPage pageSize - 1) /
    directorySlotsPerPage pageSize : Nat) : Int) ≤
      maxDirectoryPages pageSize

def termHash (blake2b : Bytes → Bytes) (term : String) : Nat :=
  hashEncoded blake2b (bytesOf (.str term))

def termBytes (terms : List String) : Nat :=
  (terms.map (fun term => entrySize (bytesOf (.str term)))).sum

/-- Bytes of the entries of the terms with these low bits. -/
def classBytes (blake2b : Bytes → Bytes) (terms : List String) (depth r : Nat) : Nat :=
  ((terms.filter (fun term => termHash blake2b term % 2 ^ depth = r)).map
    (fun term => entrySize (bytesOf (.str term)))).sum

/-- Wherever the terms with some low bits have no room in one bucket, the directory can be
doubled. -/
def TermsFit (blake2b : Bytes → Bytes) (pageSize : Nat) (terms : List String) : Prop :=
  ∀ depth < HASH_GLOBAL_DEPTH_MAX, ∀ r,
    pageSize < HashPage.BUCKET_HEADER_SIZE + classBytes blake2b terms depth r →
      DirectoryFits pageSize depth

section Room

variable {blake2b : Bytes → Bytes} {terms rest : List String} {term : String}
  {pageSize depth r : Nat}

theorem classBytes_append :
    classBytes blake2b (terms ++ rest) depth r =
      classBytes blake2b terms depth r + classBytes blake2b rest depth r := by
  rw [classBytes, List.filter_append, List.map_append, List.sum_append]
  rfl

theorem classBytes_self : classBytes blake2b [term] depth (termHash blake2b term % 2 ^ depth) =
    entrySize (bytesOf (.str term)) := by
  rw [classBytes, List.filter_cons_of_pos (by simp), List.filter_nil, List.map_singleton,
    List.sum_singleton]

theorem classBytes_other (h : termHash blake2b term % 2 ^ depth ≠ r) :
    classBytes blake2b [term] depth r = 0 := by
  rw [classBytes, List.filter_cons_of_neg (by simpa using h), List.filter_nil]
  rfl

theorem TermsFit.of_append (h : TermsFit blake2b pageSize (terms ++ rest)) :
    TermsFit blake2b pageSize terms := by
  intro depth hdepth r hfull
  refine h depth hdepth r ?_
  rw [classBytes_append]
  omega

theorem termsFit_of_bytes (h : HashPage.BUCKET_HEADER_SIZE + termBytes terms ≤ pageSize) :
    TermsFit blake2b pageSize terms := by
  intro depth _ r hfull
  have hclass : classBytes blake2b terms depth r ≤ termBytes terms :=
    (List.filter_sublist.map _).sum_le_sum (fun _ _ => Nat.zero_le _)
  omega

/-- On pages of 1032 bytes and more, a directory of the maximal depth fits. -/
theorem termsFit_of_size (h : 1032 ≤ pageSize) : TermsFit blake2b pageSize terms := by
  intro depth hdepth _ _
  have hslots : 2 ^ depth * 2 ≤ 255 * directorySlotsPerPage pageSize := by
    have hpow : 2 ^ depth ≤ 2 ^ 15 := Nat.pow_le_pow_right (by decide) (by
      rw [HASH_GLOBAL_DEPTH_MAX] at hdepth
      omega)
    rw [directorySlotsPerPage, HashPage.PAGE_ID_SIZE]
    omega
  have hpages : (2 ^ depth * 2 + directorySlotsPerPage pageSize - 1) /
      directorySlotsPerPage pageSize ≤ 255 := by
    have hpos : 0 < directorySlotsPerPage pageSize := by
      rw [directorySlotsPerPage, HashPage.PAGE_ID_SIZE]
      omega
    refine Nat.lt_succ_iff.mp ((Nat.div_lt_iff_lt_mul hpos).mpr ?_)
    omega
  rw [DirectoryFits, maxDirectoryPages, HashPage.META_HEADER_SIZE, HashPage.PAGE_ID_SIZE]
  omega

theorem termBytes_append : termBytes (terms ++ rest) = termBytes terms + termBytes rest := by
  rw [termBytes, List.map_append, List.sum_append]
  rfl

theorem entriesFor_pairsFrom (ordinal : Nat) (item : Item) (items : List Item) :
    entriesFor (pairsFrom ordinal (item :: items) : List (Value × RID)) =
      (bytesOf (.str item.1), auxiliary ordinal) ::ₘ
        entriesFor (pairsFrom (ordinal + 1) items : List (Value × RID)) := rfl

theorem weight_pairsFrom (ordinal : Nat) (items : List Item) :
    ExtendibleHash.weight ((entriesFor (pairsFrom ordinal items : List (Value × RID))).filter
      (fun e => hashOf blake2b e % 2 ^ depth = r)) =
        classBytes blake2b (items.map Prod.fst) depth r := by
  induction items generalizing ordinal with
  | nil => rfl
  | cons item items ih =>
      rw [entriesFor_pairsFrom, List.map_cons, ← List.singleton_append, classBytes_append,
        ← ih (ordinal + 1)]
      by_cases hclass : termHash blake2b item.1 % 2 ^ depth = r
      · have hself := filter_cons_of_pos (p := fun e => hashOf blake2b e % 2 ^ depth = r)
          (a := (bytesOf (.str item.1), auxiliary ordinal))
          (entriesFor (pairsFrom (ordinal + 1) items : List (Value × RID))) hclass
        rw [hself, ← hclass, classBytes_self, ExtendibleHash.weight, map_cons, sum_cons]
        rfl
      · have hother := filter_cons_of_neg (p := fun e => hashOf blake2b e % 2 ^ depth = r)
          (a := (bytesOf (.str item.1), auxiliary ordinal))
          (entriesFor (pairsFrom (ordinal + 1) items : List (Value × RID))) hclass
        rw [hother, classBytes_other hclass, Nat.zero_add]

theorem length_lt_of_short
    (hshort : ExtendibleHash.Short pageSize (HashPage.BUCKET_HEADER_SIZE + termBytes terms))
    (hterm : term ∈ terms) (hsize : (encodeUtf8 term).length + 18 ≤ pageSize) :
    (encodeUtf8 term).length + 18 < 65536 := by
  have hentry : entrySize (bytesOf (.str term)) ≤ termBytes terms :=
    List.single_le_sum (fun _ _ => Nat.zero_le _) _ (List.mem_map_of_mem hterm)
  have hlength : HashPage.BUCKET_HEADER_SIZE + entrySize (bytesOf (.str term)) =
      (encodeUtf8 term).length + 18 := by
    have hbytes : (bytesOf (.str term)).length = (encodeUtf8 term).length + 1 := rfl
    rw [entrySize, hbytes, HashPage.BUCKET_HEADER_SIZE, HashPage.ENTRY_HEADER_SIZE,
      HashPage.RID_SIZE]
    omega
  exact (hshort.mono (by omega)).lt hsize

theorem bytesWith_pairsFrom (ordinal : Nat) (items : List Item) :
    Table.bytesWith (entriesFor (pairsFrom ordinal items : List (Value × RID)))
        (bytesOf (.str term)) =
      HashPage.BUCKET_HEADER_SIZE + termBytes (items.map Prod.fst ++ [term]) := by
  have hweight : ExtendibleHash.weight
      (entriesFor (pairsFrom ordinal items : List (Value × RID))) =
      termBytes (items.map Prod.fst) := by
    induction items generalizing ordinal with
    | nil => rfl
    | cons item items ih =>
        rw [entriesFor_pairsFrom, ExtendibleHash.weight, map_cons, sum_cons,
          ← ExtendibleHash.weight, ih (ordinal + 1)]
        rfl
  rw [Table.bytesWith, hweight, termBytes_append, ← Nat.add_assoc]
  rfl

theorem crowded_iff (ordinal : Nat) (items : List Item) :
    Table.Crowded blake2b pageSize (entriesFor (pairsFrom ordinal items : List (Value × RID)))
        (bytesOf (.str term)) depth ↔
      pageSize < HashPage.BUCKET_HEADER_SIZE + classBytes blake2b
        (items.map Prod.fst ++ [term]) depth (termHash blake2b term % 2 ^ depth) := by
  rw [Table.Crowded, classBytes_append, classBytes_self, ← Nat.add_assoc]
  have hweight := @weight_pairsFrom blake2b depth (termHash blake2b term % 2 ^ depth) ordinal items
  rw [← hweight]
  rfl

end Room

namespace Holds

variable {blake2b : Bytes → Bytes} {d : TermDictionary} {items : List Item} {term : String}
  {entry : DictionaryEntry}

theorem hasRoom_iff (h : Holds blake2b d items)
    (hfit : TermsFit blake2b d.pageSize (items.map Prod.fst)) :
    Table.HasRoom blake2b d.index (entriesFor (pairsFrom 0 items : List (Value × RID)))
        (bytesOf (.str term)) ↔
      TermsFit blake2b d.pageSize (items.map Prod.fst ++ [term]) := by
  obtain ⟨B, slot, tail, ht⟩ := h.index.table
  have hfits : ∀ depth, Table.Fits d.index depth ↔ DirectoryFits d.pageSize depth := by
    intro depth
    rw [Table.Fits, ExtendibleHash.slotsPerPage, h.pageSize]
    rfl
  constructor
  · intro hroom depth hdepth r hfull
    by_cases hclass : termHash blake2b term % 2 ^ depth = r
    · subst hclass
      by_contra hnot
      have hglobal := ht.global_depth_le (fun hdouble => hnot ((hfits depth).mp hdouble))
      refine hnot ((hfits depth).mp (hroom depth hglobal ?_ ?_))
      · rw [h.maxDepth]
        exact hdepth
      · rw [h.pageSize]
        exact (crowded_iff 0 items).mpr hfull
    · refine hfit depth hdepth r ?_
      rwa [classBytes_append, classBytes_other hclass, Nat.add_zero] at hfull
  · intro hterms depth _ hdepth hcrowded
    rw [h.maxDepth] at hdepth
    rw [h.pageSize] at hcrowded
    exact (hfits depth).mpr (hterms depth hdepth _ ((crowded_iff 0 items).mp hcrowded))

theorem appended (h : Holds blake2b d items) (hgood : Good d.pageSize (term, entry))
    (hnew : term ∉ items.map Prod.fst) {index : ExtendibleHash}
    (hindex : Represents blake2b index
      ((.str term, auxiliary items.length) ::ₘ (pairsFrom 0 items : List (Value × RID))))
    (hgrown : ∃ n ≤ d.index.maxDepth + 1, Table.Grown n d.index index) :
    Holds blake2b { d with
      file := d.file ++ recordBytes (term, entry)
      index
      offsets := d.offsets ++ [d.file.length] } (items ++ [(term, entry)]) := by
  obtain ⟨header, hheader, hfile⟩ := h.file
  obtain ⟨n, hn, hgrown⟩ := hgrown
  have hmax : d.index.maxDepth = 16 := h.maxDepth
  refine ⟨⟨⟨header, hheader, ?_⟩, ?_, ?_, ?_, hgrown.pageSize.trans h.pageSize,
    hgrown.maxDepth.trans h.maxDepth, ?_⟩, ?_⟩
  · rw [hfile, List.flatMap_append, List.flatMap_singleton, List.append_assoc]
  · intro item hitem
    rcases List.mem_append.mp hitem with hold | hlast
    · exact h.good item hold
    · rw [List.mem_singleton.mp hlast]
      exact hgood
  · rw [List.map_append, List.map_singleton]
    refine h.nodup.append (List.nodup_singleton term) ?_
    exact List.disjoint_singleton.mpr hnew
  · have hpairs : ((pairsFrom 0 (items ++ [(term, entry)]) : List (Value × RID)) :
        Multiset (Value × RID)) =
          (.str term, auxiliary items.length) ::ₘ (pairsFrom 0 items : List (Value × RID)) := by
      rw [pairsFrom_append, Nat.zero_add, cons_coe, coe_eq_coe]
      exact List.perm_append_comm
    rw [hpairs]
    exact hindex
  · have hpages := h.pages
    have hcount := hgrown.pages
    rw [List.length_append, List.length_singleton]
    show index.diskManager.pageCount ≤ 2 + index.directoryPages.length + _
    omega
  · show d.offsets ++ [d.file.length] = _
    rw [h.offsets, offsetsFrom_append, hfile, List.length_append, (HEADER.packed hheader).2.1]
    rfl

theorem add_outcome (h : Holds blake2b d items) (hwritable : d.writable = true)
    (hgood : Good d.pageSize (term, entry)) (hnew : term ∉ items.map Prod.fst)
    (hpage : ExtendibleHash.Short d.pageSize
      (HashPage.BUCKET_HEADER_SIZE + termBytes (items.map Prod.fst ++ [term])))
    (hcount : items.length < 2 ^ 27)
    (hfit : TermsFit blake2b d.pageSize (items.map Prod.fst)) :
    (TermsFit blake2b d.pageSize (items.map Prod.fst ++ [term]) →
      ∃ d', add blake2b d term entry = .ok d' ∧ d'.writable = true ∧
        d'.pageSize = d.pageSize ∧ Holds blake2b d' (items ++ [(term, entry)])) ∧
    (¬ TermsFit blake2b d.pageSize (items.map Prod.fst ++ [term]) →
      add blake2b d term entry = .error directoryError) := by
  have hkey : encodeKey (.str term) = .ok (bytesOf (.str term)) := rfl
  have hsize : ((bytesOf (.str term)).length : Int) ≤
      maxKeySize d.index.pageSize := by
    have hroom : (encodeUtf8 term).length + 18 ≤ d.pageSize := hgood.size
    have hlength : (bytesOf (.str term)).length = (encodeUtf8 term).length + 1 := rfl
    rw [h.pageSize, hlength]
    simp only [maxKeySize, HashPage.BUCKET_HEADER_SIZE, HashPage.ENTRY_HEADER_SIZE,
      HashPage.RID_SIZE]
    omega
  have hids : d.pageSize < HashPage.BUCKET_HEADER_SIZE +
      termBytes (items.map Prod.fst ++ [term]) →
        d.index.diskManager.pageCount + 32768 ≤ 4294967296 := by
    intro hbytes
    have hshort : d.pageSize < 65536 := (hpage.mono hbytes.le).lt le_rfl
    obtain ⟨B, slot, tail, ht⟩ := h.index.table
    have hpages := h.pages
    have hlist := ht.directory
    rw [h.pageSize] at hlist
    simp only [maxDirectoryPages, HashPage.META_HEADER_SIZE,
      HashPage.PAGE_ID_SIZE] at hlist
    omega
  have hrid : HashPage.RidFits (auxiliary items.length) := by
    have hdiv := Nat.div_add_mod items.length 65536
    have hmod := Nat.mod_lt items.length (show 65536 > 0 by decide)
    refine ⟨⟨Int.natCast_nonneg _, ?_⟩, Int.natCast_nonneg _, ?_⟩
    · show ((items.length / 65536 : Nat) : Int) < 4294967296
      omega
    · show ((items.length % 65536 : Nat) : Int) < 65536
      omega
  have hinsert := h.index.insert_outcome hkey hsize
    (by rw [h.pageSize, bytesWith_pairsFrom]; exact hpage)
    (by rw [h.pageSize, bytesWith_pairsFrom]; exact hids) hrid
  have hlength : d.offsets.length = items.length := by rw [h.offsets, length_offsetsFrom]
  have hadd : ∀ {result : Except PyError Unit} {index : ExtendibleHash},
      ExtendibleHash.insert blake2b (.str term) (auxiliary items.length) d.index =
        (result, index) →
      add blake2b d term entry = result.map (fun _ => { d with
        file := d.file ++ (fieldBytes (term, entry) ++ encodeUtf8 term)
        index := index
        offsets := d.offsets ++ [d.file.length] }) := by
    intro result index hrun
    have hentry : ¬ (¬ (entry.df < 2 ^ 64 ∧ entry.offset < 2 ^ 64 ∧ entry.length < 2 ^ 64) ∨
        entry.df = 0 ∨ entry.offset < 8 ∨ entry.length ≠ 8 + entry.df * 16) := by
      rintro (hfields | hdf | hoffset | hlen)
      · exact hfields hgood.fields
      · exact hgood.df hdf
      · exact absurd hgood.offset (not_le.mpr hoffset)
      · exact hlen hgood.length
    have hencoded : ¬ ((encodeUtf8 term).length : Int) > d.pageSize - 18 := by
      have hroom : (encodeUtf8 term).length + 18 ≤ d.pageSize := hgood.size
      omega
    rw [add, if_neg (by rw [hwritable]; decide), if_neg hgood.term]
    dsimp only
    rw [if_neg hencoded, if_neg hentry, h.search_none hnew, ok_bind, if_neg (not_not.mpr rfl),
      hlength, if_neg (by omega), record_pack_ok hgood, ok_bind, hrun]
    cases result <;> rfl
  rw [← h.hasRoom_iff hfit]
  constructor
  · intro hroom
    obtain ⟨index, hrun, hindex, hgrown⟩ := hinsert.1 hroom
    exact ⟨_, hadd hrun, hwritable, rfl, h.appended hgood hnew hindex hgrown⟩
  · intro hfull
    obtain ⟨index, hrun, -⟩ := hinsert.2 hfull
    exact hadd hrun

end Holds

/-- A new dictionary holds no terms. -/
theorem create_ok (blake2b : Bytes → Bytes) {pageSize : Nat} (hpage : 128 ≤ pageSize) :
    ∃ d, create pageSize = .ok d ∧ d.writable = true ∧ d.pageSize = pageSize ∧
      Holds blake2b d [] := by
  have hfits : HEADER.Fits (MAGIC, VERSION) := by decide
  obtain ⟨header, hheader⟩ := hfits
  have hdepth : HASH_GLOBAL_DEPTH_MAX < 256 := by decide
  have hpage' : 13 ≤ (⟨pageSize, []⟩ : DiskManager).pageSize := (by decide : 13 ≤ 128).trans hpage
  obtain ⟨index, hinit, hsize, hmax, hcount, hlist⟩ :=
    @ExtendibleHash.init_ok ⟨pageSize, []⟩ rfl hpage' _ hdepth
  refine ⟨⟨header, index, pageSize, true, []⟩, ?_, rfl, rfl, ⟨⟨header, hheader, ?_⟩, ?_,
    List.nodup_nil, ExtendibleHash.represents_init rfl hinit, hsize, hmax, ?_⟩, rfl⟩
  · rw [create, if_neg (by omega), hheader, ok_bind, Int.toNat_natCast, hinit, ok_bind]
  · rw [List.flatMap_nil, List.append_nil]
  · exact fun item hitem => absurd hitem List.not_mem_nil
  · show index.diskManager.pageCount ≤ _
    rw [hcount, hlist]
    exact le_rfl

end SoupDB.TermDictionary
