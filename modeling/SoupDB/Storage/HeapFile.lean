import SoupDB.Storage.RecordPages
import SoupDB.Lib.Dict

/-!
# SoupDB: heap files

A file of slotted pages.  An insert looks for a page with room: the page of the last
insert, the page of most known capacity, then pages whose capacity was not measured since
the file was opened.  The candidates are kept in a heap that may hold outdated entries;
they are dropped when they come up.

`keepsRids` says that RIDs stay: whatever is inserted, removed and reopened, a RID shows
its record until that is removed, and is not given out again.
-/

namespace SoupDB

open Effect SlottedPage

/-- A heap file.  `capacityHeap` is kept in ascending order, so that its first entry is
the one `heapq` pops; an entry is `(-capacity, page_id)`. -/
structure HeapFile where
  diskManager : DiskManager
  pageCapacity : Dict Int Int
  capacityHeap : List (Int × Int)
  unmeasuredPages : List Int
  activePageId : Int

namespace HeapFile

/-- Run a program on the pages. -/
def disk {α : Type} (x : Effect PyError DiskManager α) : Effect PyError HeapFile α :=
  focus HeapFile.diskManager (fun d s => { s with diskManager := d }) x

def pageExists (s : HeapFile) (pageId : Int) : Bool :=
  decide (0 ≤ pageId ∧ pageId < s.diskManager.pageCount)

def frameCapacity (frame : Bytes) : Except PyError Int := do
  let free ← freeSpace frame
  let reclaimable ← reclaimableSpace frame
  .ok (free + reclaimable)

/-- The order of the pairs in the heap. -/
def le (a b : Int × Int) : Prop := a.1 < b.1 ∨ a.1 = b.1 ∧ a.2 ≤ b.2

instance : DecidableRel le := fun _ _ => inferInstanceAs (Decidable (_ ∨ _))

def heappush (heap : List (Int × Int)) (entry : Int × Int) : List (Int × Int) :=
  heap.orderedInsert le entry

def heapify (entries : List (Int × Int)) : List (Int × Int) :=
  entries.foldl heappush []

def compactCapacityHeapIfNeeded : Effect PyError HeapFile Unit :=
  modify (fun s =>
    if s.capacityHeap.length > 2 * s.pageCapacity.entries.length then
      { s with capacityHeap := heapify (s.pageCapacity.entries.map (fun e => (-e.2, e.1))) }
    else s)

def setCapacity (pageId capacity : Int) : Effect PyError HeapFile Unit := do
  modify (fun s =>
    { s with
      unmeasuredPages := s.unmeasuredPages.filter (fun p => p ≠ pageId)
      pageCapacity := s.pageCapacity.insert pageId capacity
      capacityHeap := heappush s.capacityHeap (-capacity, pageId) })
  compactCapacityHeapIfNeeded

def measurePage (pageId : Int) : Effect PyError HeapFile Int := do
  let capacity ← disk (readFrame pageId frameCapacity)
  setCapacity pageId capacity
  pure capacity

/-- The loop over the candidate heap: outdated entries are popped until the page of most
capacity comes up. -/
def knownPage (pageCapacity : Dict Int Int) (required : Int) :
    List (Int × Int) → Option Int × List (Int × Int)
  | [] => (none, [])
  | (negCapacity, pageId) :: heap =>
      if pageCapacity.lookup pageId ≠ some (-negCapacity) then
        knownPage pageCapacity required heap
      else if -negCapacity ≥ required then (some pageId, (negCapacity, pageId) :: heap)
      else (none, (negCapacity, pageId) :: heap)

/-- The loop over the pages that were not measured.  Which page `set.pop` takes is up to
`choose`. -/
def measurePages (choose : List Int → Nat) (required : Int) :
    Nat → Effect PyError HeapFile (Option Int)
  | 0 => pure none
  | rounds + 1 => do
      let s ← get
      match s.unmeasuredPages[choose s.unmeasuredPages % s.unmeasuredPages.length]? with
      | none => pure none
      | some pageId => do
          modify (fun s =>
            { s with unmeasuredPages := s.unmeasuredPages.filter (fun p => p ≠ pageId) })
          let capacity ← measurePage pageId
          if capacity ≥ required then pure (some pageId)
          else measurePages choose required rounds

/-- Whether the active page, measured now, has room. -/
def measureActive (required : Int) : Effect PyError HeapFile Bool := do
  let s ← get
  if s.activePageId ∈ s.unmeasuredPages then do
    let capacity ← measurePage s.activePageId
    pure (decide (capacity ≥ required))
  else pure false

/-- A page with room for the data: known capacity first, then lazily old pages. -/
def findPageWithRoomFor (choose : List Int → Nat) (data : Bytes) :
    Effect PyError HeapFile (Option Int) := do
  let required : Int := data.length + SLOT_SIZE
  let s ← get
  if (s.pageCapacity.lookup s.activePageId).any (fun capacity => capacity ≥ required) then
    pure (some s.activePageId)
  else
    let (found, heap) := knownPage s.pageCapacity required s.capacityHeap
    modify (fun s => { s with capacityHeap := heap })
    match found with
    | some pageId => pure (some pageId)
    | none => do
        let active ← measureActive required
        if active then pure (some s.activePageId)
        else do
          let s ← get
          measurePages choose required s.unmeasuredPages.length

def newPage : Effect PyError HeapFile Int := do
  let s ← get
  let pageId : Int := s.diskManager.pageCount
  disk (modify (fun d => d.allocatePage.2))
  let capacity ← disk (withFrame pageId (fun _ => do
    let frame ← SlottedPage.newPage s.diskManager.pageSize
    let capacity ← frameCapacity frame
    .ok (capacity, frame)))
  setCapacity pageId capacity
  pure pageId

/-- Place the data in the frame, compacting it where that is needed. -/
def place (data frame : Bytes) : Except PyError ((Nat × Int) × Bytes) := do
  let (slot, frame) ← insertRecord frame data
  let (slot, frame) ←
    match slot with
    | some slot => .ok (some slot, frame)
    | none => do
        let frame ← compact frame
        insertRecord frame data
  match slot with
  | none => .error .AssertionError
  | some slot => do
      let capacity ← frameCapacity frame
      .ok ((slot, capacity), frame)

/-- Place the data in the page, which is the active one from now on. -/
def insertAt (data : Bytes) (pageId : Int) : Effect PyError HeapFile RID := do
  modify (fun s => { s with activePageId := pageId })
  let (slot, capacity) ← disk (withFrame pageId (place data))
  setCapacity pageId capacity
  pure ⟨pageId, slot⟩

def insert (choose : List Int → Nat) (data : Bytes) : Effect PyError HeapFile RID := do
  let s ← get
  if (data.length : Int) > maxRecordSize s.diskManager.pageSize then
    raise (.ValueError
      s!"record of {data.length} bytes can never fit in a page of {s.diskManager.pageSize} bytes")
  else do
    let found ← findPageWithRoomFor choose data
    match found with
    | some pageId => insertAt data pageId
    | none => do
        let pageId ← newPage
        insertAt data pageId

def fetch (rid : RID) : Effect PyError HeapFile (Option Bytes) := do
  let s ← get
  if !s.pageExists rid.pageId then pure none
  else disk (readFrame rid.pageId (fun frame => readRecord frame rid.slot))

def remove (rid : RID) : Effect PyError HeapFile Bool := do
  let s ← get
  if !s.pageExists rid.pageId then pure false
  else do
    let (removed, capacity) ← disk (withFrame rid.pageId (fun frame => do
      let (removed, frame) ← deleteRecord frame rid.slot
      let capacity ← if removed then frameCapacity frame else .ok 0
      .ok ((removed, capacity), frame)))
    if removed then do
      setCapacity rid.pageId capacity
      pure true
    else pure false

/-- Open a file on its pages; a file without pages gets a first one. -/
def init (d : DiskManager) : Except PyError HeapFile :=
  let s : HeapFile := ⟨d, ∅, [], [], 0⟩
  if d.pageCount = 0 then
    match newPage s with
    | (.ok pageId, s) => .ok { s with activePageId := pageId }
    | (.error e, _) => .error e
  else
    .ok { s with
      unmeasuredPages := (List.range d.pageCount).map (fun p => (p : Int))
      activePageId := d.pageCount - 1 }

/-- Open the pages of the file again. -/
def reopen : Effect PyError HeapFile Unit := do
  let s ← get
  let s ← lift (init s.diskManager)
  modify (fun _ => s)

/-! ## Searching for room leaves the pages -/

section Search

variable {d : DiskManager} {choose : List Int → Nat} {required : Int}

theorem keeps_compact_capacity_heap :
    Keeps (fun s => s.diskManager = d) compactCapacityHeapIfNeeded := by
  refine .modify ?_
  intro s hs
  split <;> exact hs

theorem keeps_set_capacity (pageId capacity : Int) :
    Keeps (fun s => s.diskManager = d) (setCapacity pageId capacity) := by
  refine .bind (.modify ?_) (fun _ => keeps_compact_capacity_heap)
  exact fun s hs => hs

/-- Noting a capacity does not fail and leaves the pages. -/
theorem set_capacity_spec (s : HeapFile) (pageId capacity : Int) :
    wp (setCapacity pageId capacity) (fun _ s' => s'.diskManager = s.diskManager)
      (fun _ _ => False) s := by
  simp only [setCapacity, compactCapacityHeapIfNeeded, wp_bind, wp_modify]
  split <;> rfl

theorem keeps_measure_page (pageId : Int) :
    Keeps (fun s => s.diskManager = d) (measurePage pageId) := by
  refine .bind ?_ (fun capacity => .bind (keeps_set_capacity pageId capacity)
    (fun _ => .pure capacity))
  intro s hs
  rw [disk, focus, read_frame_eq]
  exact hs

theorem keeps_measure_pages (rounds : Nat) :
    Keeps (fun s => s.diskManager = d) (measurePages choose required rounds) := by
  induction rounds with
  | zero => exact .pure none
  | succ rounds ih =>
      refine .bind .get ?_
      intro s
      split
      · exact .pure none
      · refine .bind (.modify (fun _ hs => hs)) (fun _ => ?_)
        refine .bind (keeps_measure_page _) (fun capacity => ?_)
        split
        · exact .pure _
        · exact ih

theorem keeps_measure_active (required : Int) :
    Keeps (fun s => s.diskManager = d) (measureActive required) := by
  refine .bind .get ?_
  intro s
  split
  · exact .bind (keeps_measure_page _) (fun capacity => .pure _)
  · exact .pure _

theorem keeps_find_page_with_room_for (data : Bytes) :
    Keeps (fun s => s.diskManager = d) (findPageWithRoomFor choose data) := by
  refine .bind .get ?_
  intro s
  split
  · exact .pure _
  · refine .bind (.modify (fun _ hs => hs)) (fun _ => ?_)
    split
    · exact .pure _
    · refine .bind (keeps_measure_active _) (fun active => ?_)
      split
      · exact .pure _
      · exact .bind .get (fun s => keeps_measure_pages _)

end Search

/-! ## What the operations do to the slots -/

section Slots

variable {s : HeapFile} {rs : RecordPages}

/-- The pages of a heap file have no header of their own. -/
def Inv (s : HeapFile) (rs : RecordPages) : Prop := Stored 0 s.diskManager rs

theorem place_spec {frame : Bytes} {records : List (Option Bytes)} (h : Holds frame records)
    (data : Bytes) :
    (∃ e, place data frame = .error e) ∨
      ∃ capacity frame', place data frame = .ok ((records.length, capacity), frame') ∧
        Holds frame' (records ++ [some data]) ∧ frame'.length = frame.length := by
  rw [place]
  obtain ⟨free, _, _, _, _, hfull, hfit⟩ := h.insertRecord
  by_cases hroom : data.length + SLOT_SIZE ≤ free
  · obtain ⟨frame', hinsert, hholds, hlen⟩ := hfit data hroom
    rw [hinsert, ok_bind]
    simp only [ok_bind]
    cases hcapacity : frameCapacity frame' with
    | error e => exact Or.inl ⟨e, rfl⟩
    | ok capacity => exact Or.inr ⟨capacity, frame', rfl, hholds, hlen⟩
  · obtain ⟨packed, hcompact, hpacked, hlen, _⟩ := h.compact
    obtain ⟨free', _, _, _, _, hfull', hfit'⟩ := hpacked.insertRecord
    rw [hfull data (by omega), ok_bind]
    simp only [hcompact, ok_bind]
    by_cases hroom' : data.length + SLOT_SIZE ≤ free'
    · obtain ⟨frame', hinsert, hholds, hlen'⟩ := hfit' data hroom'
      rw [hinsert, ok_bind]
      simp only
      cases hcapacity : frameCapacity frame' with
      | error e => exact Or.inl ⟨e, rfl⟩
      | ok capacity => exact Or.inr ⟨capacity, frame', rfl, hholds, by omega⟩
    · rw [hfull' data (by omega), ok_bind]
      exact Or.inl ⟨_, rfl⟩

theorem new_page_spec (h : Inv s rs) :
    wp newPage (fun p s' => p = rs.length ∧ Inv s' (rs ++ [[]])) (fun _ _ => False) s := by
  obtain ⟨frame, hframe, hslotted, hlen⟩ := @new_page_ok s.diskManager.pageSize
    (by have := h.page_size_low; omega) (by have := h.page_size_high; omega)
  have hholds : Holds frame [] := ⟨[], _, hslotted, rfl⟩
  obtain ⟨free, reclaimable, hfree, hreclaimable, _⟩ := hholds.insertRecord
  have hread := s.diskManager.read_page_allocate_page_new
  simp only [newPage, wp_bind, wp_get, disk, wp_focus, wp_modify]
  refine wp_with_frame hread (show _ = Except.ok ((free : Int) + reclaimable, frame) from ?_) ?_
  · rw [hframe, ok_bind, frameCapacity, hfree, hreclaimable]
    rfl
  · intro d' hwrite
    refine wp_mono (set_capacity_spec _ _ _) ?_ (fun _ _ hE => hE)
    intro _ s' hs'
    refine ⟨by rw [h.count], ?_⟩
    rw [Inv, hs']
    exact h.grow hwrite hlen hholds

theorem insert_at_spec (h : Inv s rs) (data : Bytes) (pageId : Int) :
    wp (insertAt data pageId)
      (fun rid s' => slotOf rs rid = none ∧ ∃ rs', Inv s' rs' ∧
        ∀ r, slotOf rs' r = if r = rid then some (some data) else slotOf rs r)
      (fun _ s' => Inv s' rs) s := by
  simp only [insertAt, wp_bind, wp_modify, disk, wp_focus]
  by_cases hvalid : s.diskManager.validPageId pageId
  · obtain ⟨p, records, rfl, hp⟩ := h.exists_of_valid hvalid
    obtain ⟨frame, hread, hlen, hholds⟩ := h.page hp
    rcases place_spec hholds data with ⟨e, herror⟩ | ⟨capacity, frame', hplace, hholds', hlen'⟩
    · exact wp_with_frame_error hread herror h
    · refine wp_with_frame hread hplace ?_
      intro d' hwrite
      refine wp_mono (set_capacity_spec _ _ _) ?_ (fun _ _ hE => hE.elim)
      intro _ s' hs'
      refine ⟨slotOf_next hp, rs.set p (records ++ [some data]), ?_, slotOf_insert hp data⟩
      rw [Inv, hs']
      exact h.set hwrite (by rw [hlen', List.length_drop, Nat.sub_zero, hlen]) hholds'
  · exact wp_with_frame_invalid hvalid (fun _ => h)

theorem insert_spec (h : Inv s rs) (choose : List Int → Nat) (data : Bytes) :
    wp (insert choose data)
      (fun rid s' => slotOf rs rid = none ∧ ∃ rs', Inv s' rs' ∧
        ∀ r, slotOf rs' r = if r = rid then some (some data) else slotOf rs r)
      (fun _ s' => ∃ rs', Inv s' rs' ∧ ∀ r, slotOf rs' r = slotOf rs r) s := by
  rw [insert, wp_bind, wp_get]
  split
  · exact ⟨rs, h, fun _ => rfl⟩
  · rw [wp_bind]
    refine wp_mono (Keeps.wp (keeps_find_page_with_room_for data) rfl) ?_ ?_
    · intro found s' hs'
      have h' : Inv s' rs := by
        rw [Inv, hs']
        exact h
      cases found with
      | some pageId =>
          refine wp_mono (insert_at_spec h' data pageId) (fun _ _ hQ => hQ) ?_
          exact fun _ s'' hs'' => ⟨rs, hs'', fun _ => rfl⟩
      | none =>
          rw [wp_bind]
          refine wp_mono (new_page_spec h') ?_ (fun _ _ hE => hE.elim)
          rintro pageId s₁ ⟨_, h₁⟩
          refine wp_mono (insert_at_spec h₁ data pageId) ?_ ?_
          · rintro rid s'' ⟨hfree, rs', hinv, hslots⟩
            simp only [slotOf_append_page] at hfree hslots
            exact ⟨hfree, rs', hinv, hslots⟩
          · exact fun _ s'' hs'' => ⟨rs ++ [[]], hs'', slotOf_append_page rs⟩
    · intro _ s' hs'
      refine ⟨rs, ?_, fun _ => rfl⟩
      rw [Inv, hs']
      exact h

theorem page_exists_iff (h : Inv s rs) {pageId : Int} :
    s.pageExists pageId = true ↔ 0 ≤ pageId ∧ pageId < rs.length := by
  rw [pageExists, decide_eq_true_eq, h.count]

theorem fetch_spec (h : Inv s rs) (rid : RID) :
    fetch rid s = (.ok (slotOf rs rid).join, s) := by
  rw [fetch, run_bind_ok _ (run_get s)]
  by_cases hexists : s.pageExists rid.pageId = true
  · obtain ⟨p, records, hp, hpage⟩ := h.exists_of_valid (of_decide_eq_true hexists)
    obtain ⟨frame, hread, _, hholds⟩ := h.page hpage
    obtain ⟨pageId, slot⟩ := rid
    simp only at hp hexists
    subst hp
    have hdata := hholds.readRecord slot
    rw [List.drop_zero] at hdata
    simp only [hexists, Bool.not_true, Bool.false_eq_true, if_false, disk, focus, read_frame_eq,
      hread]
    rw [join_slotOf hpage]
    exact congrArg (fun x => (x, s)) hdata
  · have hnone := slotOf_eq_none_of_page rid (fun hin => hexists
      ((page_exists_iff h).mpr hin))
    rw [Bool.not_eq_true] at hexists
    rw [hnone, hexists]
    rfl

theorem remove_spec (h : Inv s rs) (rid : RID) :
    ∃ rs', Inv (remove rid s).2 rs' ∧
      ∀ r, slotOf rs' r = if r = rid then (slotOf rs r).map (fun _ => none) else slotOf rs r := by
  by_cases hexists : s.pageExists rid.pageId = true
  · obtain ⟨p, records, hp, hpage⟩ := h.exists_of_valid (of_decide_eq_true hexists)
    obtain ⟨frame, hread, hlen, hholds⟩ := h.page hpage
    obtain ⟨pageId, slot⟩ := rid
    simp only at hp hexists
    subst hp
    obtain ⟨frame', hdelete, hholds', hlen'⟩ := hholds.deleteRecord slot
    rw [List.drop_zero] at hdelete hlen'
    obtain ⟨free, reclaimable, hfree, hreclaimable, _⟩ := hholds'.insertRecord
    refine ⟨rs.set p (tombstone records slot), ?_, slotOf_tombstone hpage slot⟩
    refine state_of_wp (x := remove ⟨p, slot⟩) (P := fun s' => Inv s' _) ?_
    simp only [remove, wp_bind, wp_get, hexists, Bool.not_true, Bool.false_eq_true, if_false,
      disk, wp_focus]
    refine wp_with_frame hread (show _ = Except.ok (((recordAt records slot).isSome,
      if (recordAt records slot).isSome then (free : Int) + reclaimable else 0), frame') from ?_) ?_
    · rw [hdelete, ok_bind]
      simp only [frameCapacity, hfree, hreclaimable, ok_bind]
      split <;> rfl
    · intro d' hwrite
      have hinv : Stored 0 d' (rs.set p (tombstone records slot)) :=
        h.set hwrite (by rw [hlen', hlen]) hholds'
      simp only
      split
      · rw [wp_bind]
        refine wp_mono (set_capacity_spec _ _ _) ?_ (fun _ _ hE => hE.elim)
        intro _ s' hs'
        rw [wp_pure, Inv, hs']
        exact hinv
      · exact hinv
  · have hnone := slotOf_eq_none_of_page rid (fun hin => hexists
      ((page_exists_iff h).mpr hin))
    rw [Bool.not_eq_true] at hexists
    refine ⟨rs, ?_, ?_⟩
    · rw [remove, run_bind_ok _ (run_get s), hexists]
      exact h
    · intro r
      split
      · next heq => rw [heq, hnone, Option.map_none]
      · rfl

/-- A file that is opened has the records of its pages. -/
theorem init_spec {d : DiskManager} (h : Stored 0 d rs) {s : HeapFile} (hinit : init d = .ok s) :
    ∃ rs', Inv s rs' ∧ ∀ r, slotOf rs' r = slotOf rs r := by
  rw [init] at hinit
  split at hinit
  · have hwp := new_page_spec (s := ⟨d, ∅, [], [], 0⟩) h
    rcases hrun : newPage ⟨d, ∅, [], [], 0⟩ with ⟨e | p, s'⟩
    · exact (wp_error hwp hrun).elim
    · obtain ⟨_, hinv⟩ := wp_ok hwp hrun
      rw [hrun] at hinit
      cases hinit
      exact ⟨rs ++ [[]], hinv, slotOf_append_page rs⟩
  · cases hinit
    exact ⟨rs, h, fun _ => rfl⟩

theorem reopen_spec (h : Inv s rs) :
    ∃ rs', Inv (reopen s).2 rs' ∧ ∀ r, slotOf rs' r = slotOf rs r := by
  rw [reopen, run_bind_ok _ (run_get s), run_bind, run_lift]
  cases hinit : init s.diskManager with
  | error e => exact ⟨rs, h, fun _ => rfl⟩
  | ok s' => exact init_spec h hinit

/-- A file is only made of pages of a size their header can say. -/
theorem stored_new {pageSize : Nat} {s : HeapFile} (hinit : init ⟨pageSize, []⟩ = .ok s) :
    Stored 0 ⟨pageSize, []⟩ [] := by
  have hbounds : 4 ≤ pageSize ∧ pageSize < 65536 := by
    cases hframe : SlottedPage.newPage pageSize with
    | ok frame =>
        have hbounds := new_page_bounds hframe
        omega
    | error e =>
        have hwp : wp newPage (fun _ _ => False) (fun _ _ => True)
            ⟨⟨pageSize, []⟩, ∅, [], [], 0⟩ := by
          simp only [newPage, wp_bind, wp_get, disk, wp_focus, wp_modify]
          refine wp_with_frame_error
            (show _ = Except.ok (List.replicate pageSize (0 : UInt8)) from rfl)
            (show _ = Except.error e from ?_) trivial
          rw [hframe]
          rfl
        rw [init] at hinit
        rcases hrun : newPage ⟨⟨pageSize, []⟩, ∅, [], [], 0⟩ with ⟨e | p, s'⟩
        · rw [hrun] at hinit
          cases hinit
        · exact (wp_ok hwp hrun).elim
  exact ⟨by simpa using hbounds.1, by simpa using hbounds.2, rfl, by simp⟩

end Slots

def organization (choose : List Int → Nat) : Organization HeapFile where
  insert := insert choose
  fetch := fetch
  remove := remove
  reopen := reopen

theorem keepsSlots (choose : List Int → Nat) : (organization choose).KeepsSlots Inv where
  fetch := fetch_spec
  insert := fun h data => insert_spec h choose data
  remove := remove_spec
  reopen := reopen_spec

theorem always_keepsRids {pageSize : Nat} {s : HeapFile} (choose : List Int → Nat)
    (hinit : init ⟨pageSize, []⟩ = .ok s) (actions : List Action) :
    Always (organization choose).KeepsRids (organization choose).step
      ⟨s, FileOrganization.empty⟩ actions := by
  obtain ⟨rs, hinv, hslots⟩ := init_spec (stored_new hinit) hinit
  refine (keepsSlots choose).always hinv ?_ actions
  intro rid
  rw [hslots, slotOf]
  split <;> rfl

end HeapFile
end SoupDB
