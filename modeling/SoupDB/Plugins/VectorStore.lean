import SoupDB.Common.Schema
import SoupDB.Lib.Ranking
import SoupDB.Lib.Transition
import SoupDB.Plugins.FixedRecordFile
import SoupDB.Plugins.Kmeans

/-!
# SoupDB: stored vectors

`VectorStore` is an array of vectors of FLOATs of four bytes, each with the RID it points to and
its norm, and `BruteForceIndex` answers with the best of all of them.  `Holds F s items` says that
the store has these items, in this order.

Main fact: `vector_store_faithful`.  After any calls with RIDs that fit in a record, with the store
closed and opened again between them, it has the vectors whose `append` returned, rounded, and
where no score is NaN the scan of all of them gives the best.
-/

namespace SoupDB

open Effect FixedRecordFile

namespace Floats

/-- `Struct(f"<{dim}f").pack(*vector)`. -/
def pack (F : Floats) (vector : FloatVector) : Except PyError (List UInt32) :=
  vector.mapM F.single

/-- `Struct(f"<{dim}f").unpack(data)`. -/
def unpack (F : Floats) (singles : List UInt32) : FloatVector := singles.map F.widen

variable {F : Floats} {vector : FloatVector} {singles : List UInt32}

theorem pack_unpack (h : F.pack vector = .ok singles) :
    F.pack (F.unpack singles) = .ok singles := by
  rw [pack, mapM_eq_ok, unpack, List.forall₂_map_left_iff]
  have hall := mapM_eq_ok.mp h
  clear h
  induction hall with
  | nil => exact List.Forall₂.nil
  | cons hsingle _ ih => exact List.Forall₂.cons (F.single_widen hsingle) ih

end Floats

/-! ## Metrics -/

/-- A score for each metric, of a query and its norm and a vector and its norm. -/
abbrev Scores : Type := String → FloatVector → UInt64 → FloatVector → UInt64 → UInt64

namespace Scores

def METRICS : List String := ["euclidean", "cosine", "inner_product"]

def scoreFn (score : Scores) (metric : String) :
    Except PyError (FloatVector → UInt64 → FloatVector → UInt64 → UInt64) :=
  if metric ∈ METRICS then .ok (score metric)
  else .error (.ValueError s!"unknown metric {reprStr metric}; expected one of {METRICS}")

/-- The closer the better, for vectors of 0.0 or 1.0: minus the distance. -/
def ofBit : Scores := fun _ query _ vector _ => 0x8000000000000000 + Floats.ofBit.dist query vector

/-- The place of a score that is not NaN among the others. -/
def rank (bits : UInt64) : Double.Number := (Double.number bits).getD ⊥

end Scores

/-- `heapq.nlargest(k, entries, key)`, for keys that are not NaN. -/
def nlargest {α : Type} (key : α → UInt64) (k : Nat) (entries : List α) : List α :=
  (byScore (fun e => Scores.rank (key e)) entries).take k

/-! ## The store -/

structure VectorStore where
  file : FixedRecordFile
  dim : Nat

abbrev VectorItem : Type := RID × List UInt32

namespace VectorStore

variable {α : Type}

def MAGIC : Bytes := [83, 86, 69, 67]

/-- `_HEAD`: the RID and the norm. -/
def HEAD : Struct (Int × Int × UInt64) :=
  (Struct.signed 8 (Nat.succ_pos 7)).pair ((Struct.signed 8 (Nat.succ_pos 7)).pair Struct.float64)

def META : Struct Nat := Struct.unsigned 4

/-- `<qqd{dim}f`. -/
def RECORD (dim : Nat) : Struct ((Int × Int × UInt64) × List UInt32) :=
  HEAD.pair (Struct.float32.times dim)

def recordSize (dim : Nat) : Nat := HEAD.size + 4 * dim

/-- Largest dimension whose record fits in one page. -/
def maxDim (pageSize : Nat) : Int := ((pageSize : Int) - HEAD.size) / 4

def storedDim (disk : DiskManager) (requested : Option Int) : Except PyError Nat := do
  let stored ← peekMeta disk MAGIC META
  match requested with
  | some dim =>
      if dim ≠ stored then
        .error (.ValueError s!"store has dim {stored}, requested {dim}")
      else .ok stored
  | none => .ok stored

/-- The dimension of a new store or of that in the file. -/
def openedDim (disk : DiskManager) (dim : Option Int) : Except PyError Nat :=
  if disk.pageCount = 0 then
    match dim with
    | some dim =>
        if dim ≤ 0 then .error (.ValueError "a new vector store needs a positive dim")
        else .ok dim.toNat
    | none => .error (.ValueError "a new vector store needs a positive dim")
  else storedDim disk dim

/-- `VectorStore(disk_manager, buffer_manager, dim)`. -/
def opened (disk : DiskManager) (dim : Option Int) : Except PyError VectorStore := do
  let dim ← openedDim disk dim
  if maxDim disk.pageSize < dim then
    .error (.ValueError s!"dim {dim} does not fit in a {disk.pageSize}-byte page (max {
      maxDim disk.pageSize})")
  else do
    let file ← FixedRecordFile.opened disk (recordSize dim) MAGIC
    let file ← final (writeMeta META dim) file
    .ok { file := file, dim := dim }

def onFile (x : Effect PyError FixedRecordFile α) : Effect PyError VectorStore α :=
  focus file (fun file s => { s with file := file }) x

def checkDim (s : VectorStore) (vector : FloatVector) : Except PyError Unit :=
  if vector.length ≠ s.dim then
    .error (.ValueError s!"expected a vector of dim {s.dim}, got {vector.length}")
  else .ok ()

/-- Store a vector and return its vid. -/
def append (F : Floats) (vector : FloatVector) (rid : RID) : Effect PyError VectorStore Nat := do
  let s ← get
  let _ ← lift (s.checkDim vector)
  let singles ← lift (F.pack vector)
  let rounded := F.unpack singles
  let fields ← lift (F.pack rounded)
  onFile (FixedRecordFile.append (RECORD s.dim) ((rid.pageId, rid.slot, F.norm rounded), fields))

def rid (s : VectorStore) (vid : Int) : Except PyError RID := do
  let (pageId, slot, _) ← s.file.unpack vid HEAD 0
  .ok ⟨pageId, slot⟩

def vector (F : Floats) (s : VectorStore) (vid : Int) : Except PyError (FloatVector × UInt64) := do
  let ((_, _, norm), singles) ← s.file.unpack vid (RECORD s.dim) 0
  .ok (F.unpack singles, norm)

def item (F : Floats) (s : VectorStore) (vid : Int) :
    Except PyError (RID × FloatVector × UInt64) := do
  let ((pageId, slot, norm), singles) ← s.file.unpack vid (RECORD s.dim) 0
  .ok (⟨pageId, slot⟩, F.unpack singles, norm)

def scan (F : Floats) (s : VectorStore) :
    Except PyError (List (Nat × RID × FloatVector × UInt64)) := do
  let rows ← s.file.scan (RECORD s.dim)
  .ok (rows.map (fun (vid, (pageId, slot, norm), singles) =>
    (vid, ⟨pageId, slot⟩, F.unpack singles, norm)))

end VectorStore

/-- `BruteForceIndex.topK`.  A search for none does not read the store. -/
def VectorStore.topK (F : Floats) (score : Scores) (s : VectorStore) (query : FloatVector)
    (k : Int) (metric : String) : Except PyError (List (RID × UInt64)) :=
  if k < 0 then .error (.ValueError s!"k must be non-negative, got {k}")
  else do
    let _ ← s.checkDim query
    let scorer ← score.scoreFn metric
    let queryNorm := F.norm query
    let rows ← if k = 0 then .ok [] else s.scan F
    let scored := rows.map (fun (_, rid, vector, vectorNorm) =>
      (scorer query queryNorm vector vectorNorm, rid))
    let best := nlargest Prod.fst k.toNat scored
    .ok (best.map (fun (value, rid) => (rid, value)))

/-! ## The items of a store -/

namespace VectorItem

variable (F : Floats)

/-- What is stored of an item. -/
def fields (item : VectorItem) : (Int × Int × UInt64) × List UInt32 :=
  ((item.1.pageId, item.1.slot, F.norm (F.unpack item.2)), item.2)

/-- What is read of an item. -/
def row (item : VectorItem) : RID × FloatVector × UInt64 :=
  (item.1, F.unpack item.2, F.norm (F.unpack item.2))

/-- The item with its score, for a scorer that knows the query. -/
def scored (scorer : FloatVector → UInt64 → UInt64) (item : VectorItem) : UInt64 × RID :=
  (scorer (F.unpack item.2) (F.norm (F.unpack item.2)), item.1)

end VectorItem

namespace VectorStore

variable {F : Floats} {s s' : VectorStore} {items : List VectorItem}

structure Holds (F : Floats) (s : VectorStore) (items : List VectorItem) : Prop where
  file : s.file.Holds (RECORD s.dim) (items.map (VectorItem.fields F))
  magic : s.file.magic = MAGIC
  metadata : s.file.disk.Cell META 0 FixedRecordFile.HEADER.size s.dim
  room : FixedRecordFile.HEADER.size + META.size ≤ s.file.disk.pageSize

theorem size_record (dim : Nat) : (RECORD dim).size = recordSize dim := by
  show HEAD.size + dim * 4 = HEAD.size + 4 * dim
  rw [Nat.mul_comm]

@[simp] theorem wp_onFile {α : Type} {x : Effect PyError FixedRecordFile α}
    {Q : α → VectorStore → Prop} {E : PyError → VectorStore → Prop} :
    wp (onFile x) Q E s ↔ wp x (fun a file => Q a { s with file := file })
      (fun e file => E e { s with file := file }) s.file := wp_focus

theorem wp_opened_meta {file : FixedRecordFile} {dim : Nat}
    (hfile : file.Holds (RECORD dim) (items.map (VectorItem.fields F)))
    (hmagic : file.magic = MAGIC) :
    wp (writeMeta META dim)
      (fun _ file' => Holds F { file := file', dim := dim } items ∧
        file'.disk.pageSize = file.disk.pageSize)
      (fun _ _ => file.disk.pageSize < FixedRecordFile.HEADER.size + META.size) file := by
  have hfits : META.Fits dim := by
    have hpacks := hfile.packs
    rw [← hfile.size, size_record, recordSize] at hpacks
    rw [META, Struct.fits_unsigned]
    omega
  by_cases hroom : file.disk.pageSize < FixedRecordFile.HEADER.size + META.size
  · rw [writeMeta, wp_bind, wp_get, if_pos hroom, wp_raise]
    exact hroom
  · refine hfile.wp_write_meta hfits ?_ (fun _ hsmall => hsmall)
    intro file' hfile' hcell hpageSize _ hmagic' _
    refine ⟨⟨hfile', hmagic'.trans hmagic, hcell, ?_⟩, hpageSize⟩
    show _ ≤ file'.disk.pageSize
    rw [hpageSize]
    exact Nat.le_of_not_lt hroom

/-- A new store has no items. -/
theorem holds_of_opened {disk : DiskManager} {dim : Option Int} (hempty : disk.pageCount = 0)
    (h : opened disk dim = .ok s) : Holds F s [] ∧ dim = some (s.dim : Int) ∧ 0 < s.dim := by
  obtain ⟨d, hdim, h⟩ := bind_eq_ok.mp h
  split at h
  · cases h
  · obtain ⟨file, hfile, h⟩ := bind_eq_ok.mp h
    obtain ⟨file', hmeta, h⟩ := bind_eq_ok.mp h
    cases h
    obtain ⟨hholds, -, -, hmagic, -⟩ :=
      FixedRecordFile.holds_of_opened hempty hfile (size_record d)
    have hnone : file.Holds (RECORD d) (([] : List VectorItem).map (VectorItem.fields F)) := hholds
    obtain ⟨_, hs, -⟩ := of_final hmeta (wp_opened_meta hnone hmagic)
    refine ⟨hs, ?_⟩
    cases dim with
    | none =>
        rw [openedDim, if_pos hempty] at hdim
        cases hdim
    | some requested =>
        rw [openedDim, if_pos hempty] at hdim
        split at hdim
        · cases hdim
        · cases hdim
          show some requested = some ((requested.toNat : Nat) : Int) ∧ 0 < requested.toNat
          exact ⟨congrArg some (by omega), by omega⟩

theorem Holds.reopened (h : Holds F s items) :
    ∃ s', opened s.file.disk none = .ok s' ∧ s'.dim = s.dim ∧ Holds F s' items := by
  have hpages := h.file.pages
  have hpeek : peekMeta s.file.disk MAGIC META = .ok s.dim := by
    rw [← h.magic]
    exact h.file.peekMeta h.metadata
  have hdim : openedDim s.file.disk none = .ok s.dim := by
    rw [openedDim, if_neg (by omega), storedDim, hpeek]
    rfl
  have hsize : s.file.recordSize = recordSize s.dim := h.file.size.symm.trans (size_record _)
  have hmax : ¬ maxDim s.file.disk.pageSize < s.dim := by
    have hfits := h.file.fits
    rw [hsize] at hfits
    unfold recordSize at hfits
    unfold maxDim
    have hhead : HEAD.size = 24 := rfl
    omega
  have hopened : FixedRecordFile.opened s.file.disk (recordSize s.dim) MAGIC = .ok s.file := by
    rw [← hsize, ← h.magic]
    exact h.file.opened
  obtain ⟨_, file', hfinal, hholds, -⟩ := final_ok (wp_mono (wp_opened_meta h.file h.magic)
    (fun _ _ h => h) (fun _ _ hroom => absurd h.room (by omega)))
  refine ⟨{ file := file', dim := s.dim }, ?_, rfl, hholds⟩
  rw [opened, hdim, ok_bind, if_neg hmax, hopened, ok_bind, hfinal, ok_bind]

theorem check_dim_ok {vector : FloatVector} (h : vector.length = s.dim) :
    s.checkDim vector = .ok () := if_neg (not_not.mpr h)

/-- The numbers of a RID fit in the fields of a record. -/
def RidFits (rid : RID) : Prop :=
  (-2 ^ 63 ≤ rid.pageId ∧ rid.pageId < 2 ^ 63) ∧ (-2 ^ 63 ≤ rid.slot ∧ rid.slot < 2 ^ 63)

theorem fits_fields {rid : RID} {singles : List UInt32} (hrid : RidFits rid) :
    (RECORD singles.length).Fits (VectorItem.fields F (rid, singles)) := by
  rw [RECORD, HEAD, VectorItem.fields, Struct.fits_pair, Struct.fits_pair, Struct.fits_pair,
    Struct.fits_signed, Struct.fits_signed, Struct.fits_times]
  exact ⟨⟨hrid.1, hrid.2, _, rfl⟩, rfl, fun _ _ => ⟨_, rfl⟩⟩

/-- `append` adds the rounded vector, or leaves the items. -/
theorem Holds.wp_append (h : Holds F s items) (vector : FloatVector) {rid : RID}
    (hrid : RidFits rid) :
    wp (append F vector rid) (fun vid s' => vid = items.length ∧ s'.dim = s.dim ∧
        ∃ singles, F.pack vector = .ok singles ∧ Holds F s' (items ++ [(rid, singles)]))
      (fun _ s' => s'.dim = s.dim ∧ Holds F s' items) s := by
  rw [append, wp_bind, wp_get, wp_bind, wp_lift]
  refine ⟨fun _ hdim => ?_, fun _ _ => ⟨rfl, h⟩⟩
  rw [wp_bind, wp_lift]
  refine ⟨fun singles hsingles => ?_, fun _ _ => ⟨rfl, h⟩⟩
  dsimp only
  rw [Floats.pack_unpack hsingles, wp_bind, wp_lift_ok, wp_onFile]
  have hlength : singles.length = s.dim := by
    have hsame : vector.length = s.dim := by
      unfold checkDim at hdim
      split at hdim
      · cases hdim
      · next hsame => exact not_not.mp hsame
    exact (mapM_eq_ok.mp hsingles).length_eq.symm.trans hsame
  have hfits := @fits_fields F _ singles hrid
  rw [hlength] at hfits
  refine h.file.wp_append h.file.size.le hfits ?_ (fun _ => ⟨rfl, h⟩)
  · intro file' r hfile' hread hkept hbeside
    refine ⟨List.length_map _, rfl, singles, hsingles, ?_⟩
    have hlast := hfile'.cells (items.map (VectorItem.fields F)).length r (by simp)
    obtain rfl : r = VectorItem.fields F (rid, singles) := DiskManager.Cell.unique hlast hread
    have hlist : items.map (VectorItem.fields F) ++ [VectorItem.fields F (rid, singles)] =
        (items ++ [(rid, singles)]).map (VectorItem.fields F) := by
      rw [List.map_append, List.map_singleton]
    rw [hlist] at hfile'
    refine ⟨hfile', hkept.magic.trans h.magic, hkept.metadata le_rfl h.metadata, ?_⟩
    show _ ≤ file'.disk.pageSize
    rw [hkept.pageSize]
    exact h.room

theorem Holds.count (h : Holds F s items) : s.file.count = items.length :=
  h.file.count.trans (List.length_map _)

variable {vid : Nat} {e : VectorItem}

section

variable (h : Holds F s items) (he : items[vid]? = some e)
include h he

theorem Holds.unpack :
    s.file.unpack vid (RECORD s.dim) 0 = .ok (VectorItem.fields F e) ∧
      s.file.unpack vid HEAD 0 = .ok (VectorItem.fields F e).1 := by
  have hlt : vid < (items.map (VectorItem.fields F)).length := by
    rw [List.length_map]
    exact (List.getElem?_eq_some_iff.mp he).1
  have hread := h.file.cells vid (VectorItem.fields F e) (by rw [List.getElem?_map, he]; rfl)
  exact ⟨h.file.unpack hlt hread, h.file.unpack hlt (DiskManager.Cell.first hread)⟩

theorem Holds.item : s.item F vid = .ok (VectorItem.row F e) := by
  rw [VectorStore.item, (h.unpack he).1]
  rfl

theorem Holds.rid : s.rid vid = .ok e.1 := by
  rw [VectorStore.rid, (h.unpack he).2]
  rfl

theorem Holds.vector : s.vector F vid = .ok (VectorItem.row F e).2 := by
  rw [VectorStore.vector, (h.unpack he).1]
  rfl

end

theorem Holds.scan (h : Holds F s items) :
    s.scan F = .ok ((items.map (VectorItem.row F)).zipIdx.map Prod.swap) := by
  have hscan := h.file.scan h.file.count.symm (fun i x hi => h.file.cells i x hi)
  rw [VectorStore.scan, hscan, ok_bind, List.zipIdx_map, List.zipIdx_map, List.map_map,
    List.map_map, List.map_map]
  rfl

section TopK

variable {score : Scores}

theorem nlargest_scored (scorer : FloatVector → UInt64 → UInt64) (k : Nat)
    (items : List VectorItem) :
    nlargest Prod.fst k (items.map (VectorItem.scored F scorer)) =
      (nlargest (fun e => (VectorItem.scored F scorer e).1) k items).map
        (VectorItem.scored F scorer) := by
  rw [nlargest, nlargest, byScore, byScore, List.map_take]
  congr 1
  exact (List.map_insertionSort
    (fun a b => Scores.rank (VectorItem.scored F scorer b).1 ≤
      Scores.rank (VectorItem.scored F scorer a).1)
    (fun a b => Scores.rank b.1 ≤ Scores.rank a.1) (VectorItem.scored F scorer) items
    (fun _ _ _ _ => Iff.rfl)).symm

/-- `topK` gives the best of all items. -/
theorem Holds.topK (h : Holds F s items) {query : FloatVector} {k : Int} {metric : String}
    (hk : 0 ≤ k) (hdim : query.length = s.dim) (hmetric : metric ∈ Scores.METRICS) :
    s.topK F score query k metric = .ok ((nlargest Prod.fst k.toNat
      (items.map (VectorItem.scored F (score metric query (F.norm query))))).map Prod.swap) := by
  rw [VectorStore.topK, if_neg (by omega), check_dim_ok hdim, ok_bind, Scores.scoreFn,
    if_pos hmetric, ok_bind]
  by_cases hzero : k = 0
  · subst hzero
    rfl
  · rw [if_neg hzero, h.scan, ok_bind]
    have hscored : ((items.map (VectorItem.row F)).zipIdx.map Prod.swap).map
        (fun (_, rid, vector, vectorNorm) =>
          (score metric query (F.norm query) vector vectorNorm, rid)) =
        items.map (VectorItem.scored F (score metric query (F.norm query))) := by
      rw [List.zipIdx_map, List.map_map, List.map_map]
      refine (List.map_congr_left (fun e _ => rfl)).trans
        ((List.map_map (g := VectorItem.scored F (score metric query (F.norm query)))
          (f := Prod.fst) (l := items.zipIdx)).symm.trans ?_)
      rw [List.zipIdx_map_fst]
    dsimp only
    rw [hscored]
    rfl

end TopK

/-! ## Any calls -/

inductive Call
  | append (vector : FloatVector) (rid : RID)
  | reopen

/-- One call on the store, with the items whose `append` returned. -/
def step (F : Floats) (state : VectorStore × List VectorItem) :
    Call → VectorStore × List VectorItem
  | .append vector rid =>
      match append F vector rid state.1, F.pack vector with
      | (.ok _, s), .ok singles => (s, state.2 ++ [(rid, singles)])
      | (_, s), _ => (s, state.2)
  | .reopen =>
      match opened state.1.file.disk none with
      | .ok s => (s, state.2)
      | .error _ => state

structure Faithful (F : Floats) (score : Scores) (dim : Nat)
    (state : VectorStore × List VectorItem) : Prop where
  length : state.1.file.count = state.2.length
  item : ∀ (vid : Nat) e, state.2[vid]? = some e → state.1.item F vid = .ok (VectorItem.row F e)
  rid : ∀ (vid : Nat) e, state.2[vid]? = some e → state.1.rid vid = .ok e.1
  vector : ∀ (vid : Nat) e, state.2[vid]? = some e →
    state.1.vector F vid = .ok (VectorItem.row F e).2
  missing : ∀ vid : Int, vid < 0 ∨ state.2.length ≤ vid →
    ∃ message, state.1.item F vid = .error (.IndexError message)
  scan : state.1.scan F = .ok ((state.2.map (VectorItem.row F)).zipIdx.map Prod.swap)
  reopens : ∃ s, opened state.1.file.disk none = .ok s ∧ Holds F s state.2
  best : ∀ (query : FloatVector) (k : Int) metric, 0 ≤ k → query.length = dim →
    metric ∈ Scores.METRICS → ∀ scored : VectorItem → Double.Number,
    (∀ e ∈ state.2, Double.number (score metric query (F.norm query) (F.unpack e.2)
      (F.norm (F.unpack e.2))) = some (scored e)) →
    ∃ hits, IsTopK scored k.toNat state.2 hits ∧
      state.1.topK F score query k metric = .ok (hits.map (fun e =>
        (e.1, score metric query (F.norm query) (F.unpack e.2) (F.norm (F.unpack e.2)))))

theorem Holds.faithful {score : Scores} (h : Holds F s items) :
    Faithful F score s.dim (s, items) := by
  refine ⟨h.count, fun _ _ he => h.item he, fun _ _ he => h.rid he, fun _ _ he => h.vector he,
    ?_, h.scan, ?_, ?_⟩
  · intro vid hvid
    have hout : ¬ (0 ≤ vid ∧ vid < s.file.count) := by
      have hvid : vid < 0 ∨ (items.length : Int) ≤ vid := hvid
      rw [h.count]
      omega
    refine ⟨s!"record {vid} out of range (count {s.file.count})", ?_⟩
    rw [VectorStore.item, FixedRecordFile.unpack, check, if_neg hout, error_bind,
      error_bind]
  · obtain ⟨s', hopened, -, hholds⟩ := h.reopened
    exact ⟨s', hopened, hholds⟩
  · intro query k metric hk hdim hmetric scored hscored
    refine ⟨_, (isTopK_byScore (fun e => Scores.rank (score metric query (F.norm query)
      (F.unpack e.2) (F.norm (F.unpack e.2)))) k.toNat items).congr (fun e he => ?_), ?_⟩
    · rw [Scores.rank, hscored e he, Option.getD_some]
    · rw [h.topK hk hdim hmetric, nlargest_scored, List.map_map]
      rfl

/-- The state of a run keeps its items. -/
def Kept (F : Floats) (dim : Nat) (state : VectorStore × List VectorItem) : Prop :=
  state.1.dim = dim ∧ Holds F state.1 state.2

/-- The RID of an `append` fits. -/
def Call.Fits : Call → Prop
  | .append _ rid => RidFits rid
  | .reopen => True

theorem Kept.step {dim : Nat} {state : VectorStore × List VectorItem} (h : Kept F dim state)
    {call : Call} (hfits : call.Fits) : Kept F dim (step F state call) := by
  obtain ⟨hdim, hholds⟩ := h
  cases call with
  | append vector rid =>
      have hwp := hholds.wp_append vector hfits
      rw [VectorStore.step]
      rcases hrun : append F vector rid state.1 with ⟨e | vid, s'⟩
      · obtain ⟨hsame, hleft⟩ := wp_error hwp hrun
        exact ⟨hsame.trans hdim, hleft⟩
      · obtain ⟨-, hsame, singles, hsingles, hleft⟩ := wp_ok hwp hrun
        rw [hsingles]
        exact ⟨hsame.trans hdim, hleft⟩
  | reopen =>
      obtain ⟨s', hopened, hsame, hleft⟩ := hholds.reopened
      rw [VectorStore.step, hopened]
      exact ⟨hsame.trans hdim, hleft⟩

/-- In every state of every run from a new store with RIDs that fit, the store answers as the list
of the vectors that were appended: it has each at its vid, rounded, scans all of them in order,
finds the best where no score is NaN, and is the same when it is opened again. -/
theorem vector_store_faithful (F : Floats) (score : Scores) {disk : DiskManager}
    {dim : Option Int} (hempty : disk.pageCount = 0) {s : VectorStore}
    (hopened : opened disk dim = .ok s) {calls : List Call} (hfits : ∀ call ∈ calls, call.Fits) :
    Always (Faithful F score s.dim) (step F) (s, []) calls := by
  have hstart : Kept F s.dim (s, []) := ⟨rfl, (holds_of_opened hempty hopened).1⟩
  refine (always_of_steps (fun _ _ h hcall => h.step hcall) hstart
    (steps_of_forall _ hfits)).mono ?_
  rintro ⟨s', items⟩ ⟨hdim, hholds⟩
  have hfaithful : Faithful F score s'.dim (s', items) := hholds.faithful
  rwa [hdim] at hfaithful

theorem vector_store_faithful_two_vectors : ∃ s, opened ⟨64, []⟩ (some 1) = .ok s ∧
    Always (Faithful Floats.ofBit Scores.ofBit s.dim)
      (step Floats.ofBit) (s, [])
      [.append [0] ⟨0, 0⟩, .reopen, .append [2] ⟨0, 1⟩, .append [Floats.ONE] ⟨0, 2⟩] := by
  obtain ⟨s, hs⟩ : ∃ s, opened ⟨64, []⟩ (some 1) = .ok s := ⟨_, rfl⟩
  refine ⟨s, hs, vector_store_faithful Floats.ofBit _ rfl hs ?_⟩
  rw [List.forall_mem_cons, List.forall_mem_cons, List.forall_mem_cons, List.forall_mem_singleton]
  exact ⟨⟨⟨by decide, by decide⟩, ⟨by decide, by decide⟩⟩, trivial,
    ⟨⟨by decide, by decide⟩, ⟨by decide, by decide⟩⟩,
    ⟨⟨by decide, by decide⟩, ⟨by decide, by decide⟩⟩⟩

end VectorStore
end SoupDB
