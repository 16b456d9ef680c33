import SoupDB.Storage.HeapFile

/-!
# SoupDB: reuse of space in heap files

A heap file remembers the capacity of the pages it has seen: the bytes that are free and those
that a compaction would free.  `Space` says that what is remembered is true, that every
remembered page is a candidate in the heap, and that the pages nothing is remembered of wait to
be measured.  So a search that finds no page has seen that none has room, and a page that it
finds takes the record, after a compaction where that is needed.

Main fact: `always_reuses_space`.
-/

namespace SoupDB

open Effect SlottedPage DiskManager List

namespace HeapFile

/-! ## The capacity of a page -/

/-- The bytes of the page that are free or could be. -/
def HasCapacity (d : DiskManager) (pageId capacity : Int) : Prop :=
  ∃ frame, d.readPage pageId = .ok frame ∧ frameCapacity frame = .ok capacity

section Capacity

variable {d : DiskManager} {pageId capacity capacity' : Int} {frame : Bytes}
  {records : List (Option Bytes)}

theorem HasCapacity.unique (h : HasCapacity d pageId capacity)
    (h' : HasCapacity d pageId capacity') : capacity = capacity' := by
  obtain ⟨frame, hread, hcapacity⟩ := h
  obtain ⟨frame', hread', hcapacity'⟩ := h'
  rw [hread, Except.ok.injEq] at hread'
  subst hread'
  rw [hcapacity, Except.ok.injEq] at hcapacity'
  exact hcapacity'

/-- The directory and the records take the rest of the page. -/
theorem frame_capacity_eq (h : Holds frame records) :
    frameCapacity frame =
      .ok ((frame.length : Int) - slotPosition records.length - payload records) := by
  obtain ⟨free, reclaimable, hfree, hreclaimable, hsum, _⟩ := h.insertRecord
  rw [frameCapacity, hfree, hreclaimable, ok_bind, ok_bind]
  congr 1
  omega

theorem insert_compacted (h : Holds frame records) (hcapacity : frameCapacity frame = .ok capacity)
    :
    ∃ packed, compact frame = .ok packed ∧ Holds packed records ∧ packed.length = frame.length ∧
      (∀ data, capacity < data.length + SLOT_SIZE → insertRecord packed data = .ok (none, packed))
        ∧
      ∀ data, (data.length : Int) + SLOT_SIZE ≤ capacity →
        ∃ frame', insertRecord packed data = .ok (some records.length, frame') ∧
          Holds frame' (records ++ [some data]) := by
  obtain ⟨packed, hcompact, hpacked, hlen, hnone⟩ := h.compact
  obtain ⟨free, reclaimable, hfree, hreclaimable, hsum, hfull, hfit⟩ := hpacked.insertRecord
  rw [hnone, Except.ok.injEq] at hreclaimable
  rw [frame_capacity_eq h, Except.ok.injEq] at hcapacity
  refine ⟨packed, hcompact, hpacked, hlen, fun data hdata => hfull data (by omega),
    fun data hdata => ?_⟩
  obtain ⟨frame', hinsert, hholds, -⟩ := hfit data (by omega)
  exact ⟨frame', hinsert, hholds⟩

theorem place_ok (h : Holds frame records) (hcapacity : frameCapacity frame = .ok capacity)
    {data : Bytes} (hdata : (data.length : Int) + SLOT_SIZE ≤ capacity) :
    ∃ slot capacity' frame', place data frame = .ok ((slot, capacity'), frame') ∧
      frameCapacity frame' = .ok capacity' := by
  obtain ⟨free, _, _, _, _, hfull, hfit⟩ := h.insertRecord
  by_cases hroom : data.length + SLOT_SIZE ≤ free
  · obtain ⟨frame', hinsert, hholds, _⟩ := hfit data hroom
    refine ⟨records.length, _, frame', ?_, frame_capacity_eq hholds⟩
    rw [place, hinsert, ok_bind]
    simp only [ok_bind, frame_capacity_eq hholds]
  · obtain ⟨packed, hcompact, _, _, _, hfits⟩ := insert_compacted h hcapacity
    obtain ⟨frame', hinsert, hholds⟩ := hfits data hdata
    refine ⟨records.length, _, frame', ?_, frame_capacity_eq hholds⟩
    rw [place, hfull data (by omega), ok_bind]
    simp only [hcompact, ok_bind, hinsert, frame_capacity_eq hholds]

end Capacity

/-! ## The candidates -/

section Candidates

instance : Std.Total le where
  total a b := by
    simp only [le]
    omega

instance : IsTrans (Int × Int) le where
  trans a b c hab hbc := by
    simp only [le] at *
    omega

theorem heapify_spec (entries : List (Int × Int)) :
    (heapify entries).Perm entries ∧ (heapify entries).Pairwise le := by
  have hfold : ∀ (entries heap : List (Int × Int)), heap.Pairwise le →
      (entries.foldl heappush heap).Perm (entries ++ heap) ∧
        (entries.foldl heappush heap).Pairwise le := by
    intro entries
    induction entries with
    | nil => exact fun heap h => ⟨List.Perm.refl _, h⟩
    | cons entry entries ih =>
        intro heap h
        obtain ⟨hperm, hsorted⟩ := ih (heappush heap entry) (h.orderedInsert entry heap)
        refine ⟨hperm.trans ?_, hsorted⟩
        exact ((perm_orderedInsert le entry heap).append_left entries).trans perm_middle
  obtain ⟨hperm, hsorted⟩ := hfold entries [] List.Pairwise.nil
  rw [append_nil] at hperm
  exact ⟨hperm, hsorted⟩

variable {pageCapacity : Dict Int Int} {heap : List (Int × Int)}

/-- Only outdated entries are dropped, so what comes up is the page of most capacity. -/
theorem known_page_spec (required : Int) (hsorted : heap.Pairwise le)
    (hrepresented : ∀ p c, pageCapacity.lookup p = some c → (-c, p) ∈ heap) :
    (knownPage pageCapacity required heap).2.Pairwise le ∧
      (∀ p c, pageCapacity.lookup p = some c →
        (-c, p) ∈ (knownPage pageCapacity required heap).2) ∧
      (∀ p, (knownPage pageCapacity required heap).1 = some p →
        ∃ c, pageCapacity.lookup p = some c ∧ required ≤ c) ∧
      ((knownPage pageCapacity required heap).1 = none →
        ∀ p c, pageCapacity.lookup p = some c → c < required) := by
  induction heap with
  | nil =>
      refine ⟨hsorted, hrepresented, fun p h => ?_, fun _ p c h => ?_⟩
      · cases h
      · exact absurd (hrepresented p c h) not_mem_nil
  | cons entry heap ih =>
      obtain ⟨negCapacity, pageId⟩ := entry
      obtain ⟨hfirst, hrest⟩ := pairwise_cons.mp hsorted
      rw [knownPage]
      split_ifs with houtdated henough
      · refine ih hrest fun p c h => ?_
        rcases mem_cons.mp (hrepresented p c h) with heq | hmem
        · rw [Prod.mk.injEq] at heq
          rw [← heq.1, ← heq.2, neg_neg] at houtdated
          exact absurd h houtdated
        · exact hmem
      · rw [not_not] at houtdated
        refine ⟨hsorted, hrepresented, fun p h => ?_, fun h => ?_⟩
        · obtain rfl := Option.some.inj h
          exact ⟨-negCapacity, houtdated, henough⟩
        · cases h
      · refine ⟨hsorted, hrepresented, fun p h => ?_, fun _ p c h => ?_⟩
        · cases h
        · rcases mem_cons.mp (hrepresented p c h) with heq | hmem
          · rw [Prod.mk.injEq] at heq
            omega
          · have hle := hfirst _ hmem
            simp only [le] at hle
            omega

end Candidates

/-! ## What is remembered -/

/-- What is remembered of the pages but one. -/
structure SpaceBut (page : Option Int) (s : HeapFile) : Prop where
  capacity : ∀ p c, some p ≠ page → s.pageCapacity.lookup p = some c →
    HasCapacity s.diskManager p c
  represented : ∀ p c, some p ≠ page → s.pageCapacity.lookup p = some c →
    (-c, p) ∈ s.capacityHeap
  sorted : s.capacityHeap.Pairwise le
  known : ∀ p, some p ≠ page → s.diskManager.validPageId p → s.pageCapacity.lookup p = none →
    p ∈ s.unmeasuredPages
  unmeasured : ∀ p ∈ s.unmeasuredPages, s.diskManager.validPageId p

/-- The capacities are those of the pages, every page with one is a candidate, and the others
wait to be measured. -/
abbrev Space (s : HeapFile) : Prop := SpaceBut none s

section Remembered

variable {s : HeapFile} {rs : RecordPages} {pageId capacity required : Int}

theorem HasCapacity.valid {d : DiskManager} (h : HasCapacity d pageId capacity) :
    d.validPageId pageId := by
  obtain ⟨frame, hread, -⟩ := h
  exact validPageId_of_read_page hread

theorem exists_capacity (h : Inv s rs) (hvalid : s.diskManager.validPageId pageId) :
    ∃ c, HasCapacity s.diskManager pageId c := by
  obtain ⟨p, records, rfl, hp⟩ := h.exists_of_valid hvalid
  obtain ⟨frame, hread, -, hholds⟩ := h.page hp
  rw [drop_zero] at hholds
  exact ⟨_, frame, hread, frame_capacity_eq hholds⟩

theorem Space.but (h : Space s) (page : Option Int) : SpaceBut page s :=
  ⟨fun p c _ => h.capacity p c (Option.some_ne_none p),
    fun p c _ => h.represented p c (Option.some_ne_none p), h.sorted,
    fun p _ => h.known p (Option.some_ne_none p), h.unmeasured⟩

structure Noted (pageId capacity : Int) (s s' : HeapFile) : Prop where
  diskManager : s'.diskManager = s.diskManager
  pageCapacity : s'.pageCapacity = s.pageCapacity.insert pageId capacity
  unmeasuredPages : s'.unmeasuredPages = s.unmeasuredPages.filter (fun p => p ≠ pageId)
  activePageId : s'.activePageId = s.activePageId

theorem set_capacity_space (h : SpaceBut (some pageId) s)
    (hcapacity : HasCapacity s.diskManager pageId capacity) :
    wp (setCapacity pageId capacity) (fun _ s' => Space s' ∧ Noted pageId capacity s s')
      (fun _ _ => False) s := by
  have hlookup : ∀ p c, (s.pageCapacity.insert pageId capacity).lookup p = some c →
      p = pageId ∧ c = capacity ∨ p ≠ pageId ∧ s.pageCapacity.lookup p = some c := by
    intro p c hp
    rw [Dict.lookup_insert_eq] at hp
    split_ifs at hp with heq
    · exact Or.inl ⟨heq, (Option.some.inj hp).symm⟩
    · exact Or.inr ⟨heq, hp⟩
  have hother : ∀ {p : Int}, p ≠ pageId → some p ≠ some pageId :=
    fun hne heq => hne (Option.some.inj heq)
  -- all but the candidates, which depend on whether the heap was rebuilt
  have hspace : ∀ heap : List (Int × Int), heap.Pairwise le →
      (∀ p c, (s.pageCapacity.insert pageId capacity).lookup p = some c → (-c, p) ∈ heap) →
      Space ⟨s.diskManager, s.pageCapacity.insert pageId capacity, heap,
        s.unmeasuredPages.filter (fun p => p ≠ pageId), s.activePageId⟩ := by
    intro heap hsorted hrepresented
    refine ⟨fun p c _ hp => ?_, fun p c _ hp => hrepresented p c hp, hsorted,
      fun p _ hvalid hp => ?_, fun p hp => h.unmeasured p (mem_of_mem_filter hp)⟩
    · rcases hlookup p c hp with ⟨rfl, rfl⟩ | ⟨hne, hp⟩
      · exact hcapacity
      · exact h.capacity p c (hother hne) hp
    · rw [Dict.lookup_insert_eq] at hp
      split_ifs at hp with heq
      refine mem_filter.mpr ⟨h.known p (hother heq) hvalid hp, by simpa using heq⟩
  simp only [setCapacity, compactCapacityHeapIfNeeded, wp_bind, wp_modify]
  split_ifs
  · obtain ⟨hperm, hsorted⟩ := heapify_spec
      ((s.pageCapacity.insert pageId capacity).entries.map (fun e => (-e.2, e.1)))
    refine ⟨hspace _ hsorted fun p c hp => ?_, rfl, rfl, rfl, rfl⟩
    exact hperm.mem_iff.mpr (mem_map.mpr ⟨⟨p, c⟩, AList.mem_lookup_iff.mp hp, rfl⟩)
  · refine ⟨hspace _ (h.sorted.orderedInsert _ _) fun p c hp => ?_, rfl, rfl, rfl, rfl⟩
    refine (perm_orderedInsert le _ _).mem_iff.mpr ?_
    rcases hlookup p c hp with ⟨rfl, rfl⟩ | ⟨hne, hp⟩
    · exact mem_cons_self
    · exact mem_cons_of_mem _ (h.represented p c (hother hne) hp)

theorem measure_page_space (hinv : Inv s rs) (h : SpaceBut (some pageId) s)
    (hvalid : s.diskManager.validPageId pageId) :
    wp (measurePage pageId)
      (fun c s' => HasCapacity s.diskManager pageId c ∧ Space s' ∧ Noted pageId c s s')
      (fun _ _ => False) s := by
  obtain ⟨c, frame, hread, hcapacity⟩ := exists_capacity hinv hvalid
  have hframe : readFrame pageId frameCapacity s.diskManager = (.ok c, s.diskManager) := by
    rw [read_frame_eq, hread]
    exact congrArg (fun x => (x, s.diskManager)) hcapacity
  rw [measurePage, wp_bind, disk, wp_focus]
  refine wp_of_ok hframe ?_
  rw [wp_bind]
  refine wp_mono (set_capacity_space h ⟨frame, hread, hcapacity⟩) ?_ (fun _ _ hE => hE)
  rintro _ s' ⟨hspace, hnoted⟩
  exact ⟨⟨frame, hread, hcapacity⟩, hspace, hnoted⟩

end Remembered

/-! ## The search for room -/

/-- The page that is found has room, and where none is found none has. -/
structure Finds (d : DiskManager) (required : Int) (found : Option Int) : Prop where
  enough : ∀ p, found = some p → ∃ c, HasCapacity d p c ∧ required ≤ c
  full : found = none → ∀ p c, HasCapacity d p c → c < required

section Search

variable {s : HeapFile} {rs : RecordPages} {required : Int} {choose : List Int → Nat}

/-- No page that is remembered has room. -/
def NoneKnown (required : Int) (s : HeapFile) : Prop :=
  ∀ p c, s.pageCapacity.lookup p = some c → c < required

theorem finds_some {d : DiskManager} {p c : Int} (h : HasCapacity d p c) (hc : required ≤ c) :
    Finds d required (some p) := by
  refine ⟨fun q hq => ?_, fun hq => nomatch hq⟩
  obtain rfl := Option.some.inj hq
  exact ⟨c, h, hc⟩

theorem finds_none (h : Space s) (hknown : NoneKnown required s) (hall : s.unmeasuredPages = []) :
    Finds s.diskManager required none := by
  refine ⟨fun p hp => (nomatch hp), fun _ p c hcapacity => ?_⟩
  cases hlookup : s.pageCapacity.lookup p with
  | none =>
      have hwait := h.known p (Option.some_ne_none p) hcapacity.valid hlookup
      rw [hall] at hwait
      exact absurd hwait not_mem_nil
  | some c' =>
      rw [hcapacity.unique (h.capacity p c' (Option.some_ne_none p) hlookup)]
      exact hknown p c' hlookup

/-- A page that was measured in vain is one more without room. -/
theorem NoneKnown.noted {s' : HeapFile} {pageId c : Int} (h : NoneKnown required s)
    (hnoted : Noted pageId c s s') (hc : c < required) : NoneKnown required s' := by
  intro p c' hp
  rw [hnoted.pageCapacity, Dict.lookup_insert_eq] at hp
  split_ifs at hp
  · obtain rfl := Option.some.inj hp
    exact hc
  · exact h p c' hp

/-- What the searches leave. -/
structure Searched (s : HeapFile) (required : Int) (found : Option Int) (s' : HeapFile) : Prop where
  space : Space s'
  diskManager : s'.diskManager = s.diskManager
  finds : Finds s.diskManager required found

theorem measure_pages_space {rounds : Nat} (hinv : Inv s rs) (h : Space s)
    (hknown : NoneKnown required s) (hrounds : s.unmeasuredPages.length ≤ rounds) :
    wp (measurePages choose required rounds) (fun found s' => Searched s required found s')
      (fun _ _ => False) s := by
  induction rounds generalizing s with
  | zero =>
      have hall := length_eq_zero_iff.mp (Nat.le_zero.mp hrounds)
      exact ⟨h, rfl, finds_none h hknown hall⟩
  | succ rounds ih =>
      rw [measurePages, wp_bind, wp_get]
      cases hchosen : s.unmeasuredPages[choose s.unmeasuredPages % s.unmeasuredPages.length]?
        with
      | none =>
          have hall : s.unmeasuredPages = [] := by
            by_contra hne
            rw [List.getElem?_eq_none_iff] at hchosen
            have hpos := length_pos_iff.mpr hne
            have hlt := Nat.mod_lt (choose s.unmeasuredPages) hpos
            omega
          exact ⟨h, rfl, finds_none h hknown hall⟩
      | some pageId =>
          have hmem := mem_of_getElem? hchosen
          have hvalid := h.unmeasured pageId hmem
          -- the page is taken out before it is measured
          have hbut : SpaceBut (some pageId)
              { s with unmeasuredPages := s.unmeasuredPages.filter (fun p => p ≠ pageId) } := by
            refine ⟨(h.but _).capacity, (h.but _).represented, h.sorted,
              fun p hp hvalid hlookup => ?_,
              fun p hp => h.unmeasured p (mem_of_mem_filter hp)⟩
            refine mem_filter.mpr ⟨h.known p (Option.some_ne_none p) hvalid hlookup, ?_⟩
            exact decide_eq_true fun heq => hp (congrArg some heq)
          simp only [wp_bind, wp_modify]
          refine wp_mono (measure_page_space hinv hbut hvalid) ?_ (fun _ _ hE => hE)
          rintro c s' ⟨hcapacity, hspace, hnoted⟩
          have hdisk := hnoted.diskManager
          split_ifs with hroom
          · exact ⟨hspace, hdisk, finds_some hcapacity hroom⟩
          · have hnone : NoneKnown required s' :=
              NoneKnown.noted (s := { s with
                unmeasuredPages := s.unmeasuredPages.filter (fun p => p ≠ pageId) })
                hknown hnoted (not_le.mp hroom)
            have hfewer : s'.unmeasuredPages.length ≤ rounds := by
              have hlt := length_filter_lt_length_iff_exists (p := fun p => decide (p ≠
                pageId))
                |>.mpr ⟨pageId, hmem, by simp⟩
              have hle := length_filter_le (fun p => decide (p ≠ pageId))
                (s.unmeasuredPages.filter (fun p => decide (p ≠ pageId)))
              rw [hnoted.unmeasuredPages]
              dsimp only
              omega
            have hinv' : Inv s' rs := by
              rw [Inv, hdisk]
              exact hinv
            refine wp_mono (ih hinv' hspace hnone hfewer) ?_ (fun _ _ hE => hE)
            intro found s'' hsearched
            have hfinds := hsearched.finds
            rw [hdisk] at hfinds
            exact ⟨hsearched.space, hsearched.diskManager.trans hdisk, hfinds⟩

theorem measure_active_space (hinv : Inv s rs) (h : Space s) (hknown : NoneKnown required s) :
    wp (measureActive required)
      (fun active s' => Space s' ∧ s'.diskManager = s.diskManager ∧
        (active = true → ∃ c, HasCapacity s.diskManager s.activePageId c ∧ required ≤ c) ∧
        (active = false → NoneKnown required s'))
      (fun _ _ => False) s := by
  rw [measureActive, wp_bind, wp_get]
  split_ifs with hmem
  · rw [wp_bind]
    refine wp_mono (measure_page_space hinv (h.but _) (h.unmeasured _ hmem)) ?_ (fun _ _ hE => hE)
    rintro c s' ⟨hcapacity, hspace, hnoted⟩
    refine ⟨hspace, hnoted.diskManager, fun hroom => ?_, fun hroom => ?_⟩
    · exact ⟨c, hcapacity, of_decide_eq_true hroom⟩
    · exact hknown.noted hnoted (not_le.mp (of_decide_eq_false hroom))
  · exact ⟨h, rfl, fun hfalse => absurd hfalse Bool.false_ne_true, fun _ => hknown⟩

theorem find_page_space (hinv : Inv s rs) (h : Space s) (data : Bytes) :
    wp (findPageWithRoomFor choose data)
      (fun found s' => Searched s (data.length + SLOT_SIZE) found s') (fun _ _ => False) s := by
  rw [findPageWithRoomFor, wp_bind, wp_get]
  dsimp only
  split_ifs with hactive
  · obtain ⟨c, hlookup, hc⟩ := Option.any_eq_true _ _ |>.mp hactive
    rw [wp_pure]
    exact ⟨h, rfl, finds_some (h.capacity _ _ (Option.some_ne_none _) hlookup)
      (of_decide_eq_true hc)⟩
  · obtain ⟨hsorted, hrepresented, hfound, hnone⟩ :=
      known_page_spec (data.length + SLOT_SIZE) h.sorted
        (fun p c => h.represented p c (Option.some_ne_none p))
    have hspace : Space { s with capacityHeap :=
        (knownPage s.pageCapacity (data.length + SLOT_SIZE) s.capacityHeap).2 } :=
      ⟨h.capacity, fun p c _ => hrepresented p c, hsorted, h.known, h.unmeasured⟩
    rw [wp_bind, wp_modify]
    cases hpage : (knownPage s.pageCapacity (data.length + SLOT_SIZE) s.capacityHeap).1 with
    | some pageId =>
        obtain ⟨c, hlookup, hc⟩ := hfound pageId hpage
        exact ⟨hspace, rfl, finds_some (h.capacity _ _ (Option.some_ne_none _) hlookup) hc⟩
    | none =>
        dsimp only
        rw [wp_bind]
        refine wp_mono (measure_active_space hinv hspace (hnone hpage)) ?_
          (fun _ _ hE => hE)
        rintro active s₁ ⟨hspace₁, hdisk₁, hroom, hknown₁⟩
        cases active with
        | true =>
            obtain ⟨c, hcapacity, hc⟩ := hroom rfl
            exact ⟨hspace₁, hdisk₁, finds_some hcapacity hc⟩
        | false =>
            have hinv₁ : Inv s₁ rs := by
              rw [Inv, hdisk₁]
              exact hinv
            simp only [Bool.false_eq_true, if_false, wp_bind, wp_get]
            refine wp_mono (measure_pages_space hinv₁ hspace₁ (hknown₁ rfl) (le_refl _)) ?_
              (fun _ _ hE => hE)
            intro found s₂ hsearched
            have hfinds := hsearched.finds
            rw [hdisk₁] at hfinds
            exact ⟨hsearched.space, hsearched.diskManager.trans hdisk₁, hfinds⟩

end Search

/-! ## The operations -/

section Operations

variable {s : HeapFile} {rs : RecordPages}

variable {d' : DiskManager} {data : Bytes}

theorem HasCapacity.of_read {d : DiskManager} {p c : Int} (h : HasCapacity d p c)
    (hread : ∀ frame, d.readPage p = .ok frame → d'.readPage p = .ok frame) :
    HasCapacity d' p c := by
  obtain ⟨frame, hframe, hcapacity⟩ := h
  exact ⟨frame, hread frame hframe, hcapacity⟩

theorem SpaceBut.write {p : Int} (activePageId : Int) (h : SpaceBut (some p) s)
    (hwrite : s.diskManager.writePage p data = .ok d') :
    SpaceBut (some p) { s with diskManager := d', activePageId := activePageId } := by
  have hvalid : ∀ q, d'.validPageId q ↔ s.diskManager.validPageId q := by
    intro q
    rw [validPageId, validPageId, page_count_write_page hwrite]
  refine ⟨fun q c hq hlookup => ?_, h.represented, h.sorted,
    fun q hne hq => h.known q hne ((hvalid q).mp hq),
    fun q hq => (hvalid q).mpr (h.unmeasured q hq)⟩
  refine (h.capacity q c hq hlookup).of_read fun frame hframe => ?_
  rw [read_page_write_page hwrite, if_neg fun heq => hq (congrArg some heq)]
  exact hframe

theorem Space.rewrite {p : Int} (h : Space s) (hwrite : s.diskManager.writePage p data = .ok d')
    (hsame : ∀ c, HasCapacity s.diskManager p c → HasCapacity d' p c) :
    Space { s with diskManager := d' } := by
  have hbut : SpaceBut (some p) { s with diskManager := d' } :=
    SpaceBut.write s.activePageId (h.but _) hwrite
  have hvalid : s.diskManager.validPageId p := (write_page_ok hwrite).1
  refine ⟨fun q c _ hlookup => ?_, h.represented, h.sorted, fun q _ hq hlookup => ?_,
    hbut.unmeasured⟩
  · by_cases heq : q = p
    · subst heq
      exact hsame c (h.capacity q c (Option.some_ne_none q) hlookup)
    · exact hbut.capacity q c (fun h => heq (Option.some.inj h)) hlookup
  · by_cases heq : q = p
    · subst heq
      exact h.known q (Option.some_ne_none q) hvalid hlookup
    · exact hbut.known q (fun h => heq (Option.some.inj h)) hq hlookup

theorem Space.allocate (h : Space s) : SpaceBut (some s.diskManager.pageCount)
    { s with diskManager := s.diskManager.allocatePage.2 } := by
  refine ⟨fun q c _ hlookup => ?_, (h.but _).represented, h.sorted, fun q hne hq => ?_,
    fun q hq => validPageId_allocate_page_of_valid (h.unmeasured q hq)⟩
  · exact (h.capacity q c (Option.some_ne_none q) hlookup).of_read
      fun frame hframe => read_page_allocate_page hframe
  · refine h.known q (Option.some_ne_none q) ?_
    have hlast : q ≠ s.diskManager.pageCount := fun heq => hne (congrArg some heq)
    dsimp only at hq
    rw [validPageId, page_count_allocate_page] at hq
    rw [validPageId]
    omega

theorem new_page_space (hinv : Inv s rs) (h : Space s) :
    wp newPage (fun p s' => Space s' ∧ HasCapacity s'.diskManager p
      (s.diskManager.pageSize - slotPosition 0)) (fun _ _ => False) s := by
  obtain ⟨frame, hframe, hslotted, hlen⟩ := @new_page_ok s.diskManager.pageSize
    (by have := hinv.page_size_low; omega) (by have := hinv.page_size_high; omega)
  have hcapacity : frameCapacity frame = .ok (s.diskManager.pageSize - slotPosition 0) := by
    have hholds : Holds frame [] := ⟨[], _, hslotted, rfl⟩
    rw [frame_capacity_eq hholds, hlen]
    congr 1
    simp [payload]
  have hread : s.diskManager.allocatePage.2.readPage s.diskManager.pageCount =
      .ok (replicate s.diskManager.pageSize 0) := read_page_allocate_page_new
  simp only [newPage, wp_bind, wp_get, disk, wp_focus, wp_modify]
  refine wp_with_frame hread
    (show _ = Except.ok ((s.diskManager.pageSize : Int) - slotPosition 0, frame) from ?_) ?_
  · rw [hframe, ok_bind, hcapacity]
    rfl
  · intro d' hwrite
    have hnew : HasCapacity d' s.diskManager.pageCount
        (s.diskManager.pageSize - slotPosition 0) := by
      refine ⟨frame, ?_, hcapacity⟩
      rw [read_page_write_page hwrite, if_pos rfl]
    refine wp_mono (set_capacity_space (h.allocate.write _ hwrite) hnew) ?_ (fun _ _ hE => hE)
    rintro _ s' ⟨hspace, hnoted⟩
    rw [wp_pure, hnoted.diskManager]
    exact ⟨hspace, hnew⟩

theorem insert_at_space (hinv : Inv s rs) (h : Space s) {pageId c : Int}
    (hcapacity : HasCapacity s.diskManager pageId c) (hc : (data.length : Int) + SLOT_SIZE ≤ c) :
    wp (insertAt data pageId)
      (fun _ s' => Space s' ∧ s'.diskManager.pageCount = s.diskManager.pageCount)
      (fun _ _ => False) s := by
  obtain ⟨p, records, rfl, hp⟩ := hinv.exists_of_valid hcapacity.valid
  obtain ⟨frame, hread, hframe⟩ := hcapacity
  obtain ⟨frame', hread', -, hholds⟩ := hinv.page hp
  rw [hread, Except.ok.injEq] at hread'
  subst hread'
  rw [drop_zero] at hholds
  obtain ⟨slot, c', packed, hplace, hpacked⟩ := place_ok hholds hframe hc
  simp only [insertAt, wp_bind, wp_modify, disk, wp_focus]
  refine wp_with_frame hread hplace ?_
  intro d' hwrite
  have hnew : HasCapacity d' p c' := by
    refine ⟨packed, ?_, hpacked⟩
    rw [read_page_write_page hwrite, if_pos rfl]
  refine wp_mono (set_capacity_space ((h.but _).write _ hwrite) hnew) ?_ (fun _ _ hE => hE)
  rintro _ s' ⟨hspace, hnoted⟩
  rw [wp_pure, hnoted.diskManager]
  exact ⟨hspace, page_count_write_page hwrite⟩

theorem insert_space (choose : List Int → Nat) (hinv : Inv s rs) (h : Space s)
    (hlen : (data.length : Int) ≤ maxRecordSize s.diskManager.pageSize) :
    wp (insert choose data)
      (fun _ s' => Space s' ∧ (s'.diskManager.pageCount ≠ s.diskManager.pageCount →
        ∀ p c, HasCapacity s.diskManager p c → c < data.length + SLOT_SIZE))
      (fun _ _ => False) s := by
  rw [insert, wp_bind, wp_get, if_neg (not_lt.mpr hlen), wp_bind]
  refine wp_mono (find_page_space hinv h data) ?_ (fun _ _ hE => hE)
  intro found s₁ hsearched
  have hdisk := hsearched.diskManager
  have hinv₁ : Inv s₁ rs := by
    rw [Inv, hdisk]
    exact hinv
  cases found with
  | some pageId =>
      obtain ⟨c, hcapacity, hc⟩ := hsearched.finds.enough pageId rfl
      rw [← hdisk] at hcapacity
      refine wp_mono (insert_at_space hinv₁ hsearched.space hcapacity hc) ?_ (fun _ _ hE => hE)
      rintro _ s₂ ⟨hspace, hcount⟩
      rw [hdisk] at hcount
      exact ⟨hspace, fun hgrown => absurd hcount hgrown⟩
  | none =>
      rw [wp_bind]
      refine wp_mono (wp_and (new_page_space hinv₁ hsearched.space) (new_page_spec hinv₁)) ?_
        (fun _ _ hE => hE.1)
      rintro pageId s₂ ⟨⟨hspace₂, hcapacity⟩, _, hinv₂⟩
      have hroom : (data.length : Int) + SLOT_SIZE ≤
          s₁.diskManager.pageSize - slotPosition 0 := by
        rw [hdisk]
        simp only [maxRecordSize, slotPosition, HEADER_SIZE, SLOT_SIZE] at hlen ⊢
        omega
      refine wp_mono (insert_at_space hinv₂ hspace₂ hcapacity hroom) ?_ (fun _ _ hE => hE)
      rintro _ s₃ ⟨hspace₃, _⟩
      exact ⟨hspace₃, fun _ => hsearched.finds.full rfl⟩

/-- A removal frees the bytes of the record but not its slot. -/
theorem remove_space (hinv : Inv s rs) (h : Space s) (rid : RID) : Space (remove rid s).2 := by
  refine state_of_wp (x := remove rid) (P := Space) ?_
  rw [remove, wp_bind, wp_get]
  split_ifs with hexists
  · exact h
  · rw [Bool.not_eq_true, Bool.not_eq_false'] at hexists
    obtain ⟨p, records, hp, hpage⟩ := hinv.exists_of_valid (of_decide_eq_true hexists)
    obtain ⟨frame, hread, hlen, hholds⟩ := hinv.page hpage
    obtain ⟨pageId, slot⟩ := rid
    simp only at hp hexists
    subst hp
    rw [drop_zero] at hholds
    obtain ⟨frame', hdelete, hholds', hlen'⟩ := hholds.deleteRecord slot
    have hcapacity := frame_capacity_eq hholds'
    simp only [wp_bind, disk, wp_focus]
    refine wp_with_frame hread (show _ = Except.ok (((recordAt records slot).isSome,
      if (recordAt records slot).isSome then
        (frame'.length : Int) - slotPosition (tombstone records slot).length -
          payload (tombstone records slot)
      else 0), frame') from ?_) ?_
    · rw [hdelete, ok_bind]
      simp only [hcapacity]
      split <;> rfl
    · intro d' hwrite
      have hnew : HasCapacity d' p ((frame'.length : Int) -
          slotPosition (tombstone records slot).length - payload (tombstone records slot)) := by
        refine ⟨frame', ?_, hcapacity⟩
        rw [read_page_write_page hwrite, if_pos rfl]
      simp only
      split_ifs with hremoved
      · rw [wp_bind]
        refine wp_mono (set_capacity_space ((h.but _).write _ hwrite) hnew) ?_
          (fun _ _ hE => hE.elim)
        rintro _ s' ⟨hspace, _⟩
        exact hspace
      · -- nothing was removed, and the capacity is the same
        rw [Option.not_isSome_iff_eq_none] at hremoved
        rw [tombstone_of_none hremoved, hlen'] at hnew
        refine h.rewrite hwrite fun c hc => ?_
        rw [hc.unique ⟨frame, hread, frame_capacity_eq hholds⟩]
        exact hnew

/-- A file that is opened remembers nothing, or only its first page. -/
theorem init_space {d : DiskManager} (hstored : Stored 0 d rs) (hinit : init d = .ok s) :
    Space s := by
  rw [init] at hinit
  split at hinit
  · next hcount =>
      have hnone : ∀ p, ¬ d.validPageId p := by
        intro p hp
        rw [validPageId, hcount] at hp
        omega
      have hempty : Space ⟨d, ∅, [], [], 0⟩ := by
        refine ⟨fun p c _ hp => ?_, fun p c _ hp => ?_, List.Pairwise.nil,
          fun p _ hp => absurd hp (hnone p), fun p hp => absurd hp not_mem_nil⟩
        · rw [AList.lookup_empty] at hp
          cases hp
        · rw [AList.lookup_empty] at hp
          cases hp
      have hwp := new_page_space (s := ⟨d, ∅, [], [], 0⟩) hstored hempty
      rcases hrun : newPage ⟨d, ∅, [], [], 0⟩ with ⟨e | p, s'⟩
      · exact (wp_error hwp hrun).elim
      · have hspace := (wp_ok hwp hrun).1
        rw [hrun] at hinit
        cases hinit
        exact ⟨hspace.capacity, hspace.represented, hspace.sorted, hspace.known,
          hspace.unmeasured⟩
  · cases hinit
    refine ⟨fun p c _ hp => ?_, fun p c _ hp => ?_, List.Pairwise.nil, fun p _ hp _ => ?_,
      fun p hp => ?_⟩
    · rw [AList.lookup_empty] at hp
      cases hp
    · rw [AList.lookup_empty] at hp
      cases hp
    · obtain ⟨hlow, hlt⟩ := hp
      simp only [map_id', bind_eq_flatMap, pure_def, mem_flatMap,
        mem_range, mem_singleton]
      exact ⟨p.toNat, by dsimp only at hlt; omega, (Int.toNat_of_nonneg hlow).symm⟩
    · simp only [map_id', bind_eq_flatMap, pure_def, mem_flatMap,
        mem_range, mem_singleton] at hp
      obtain ⟨n, hlt, rfl⟩ := hp
      exact ⟨by omega, by exact_mod_cast hlt⟩

end Operations

/-! ## Runs -/

/-- An insert, which takes pages out of a set in some order, or a removal. -/
inductive Call
  | insert (choose : List Int → Nat) (data : Bytes)
  | remove (rid : RID)

def call (s : HeapFile) : Call → HeapFile
  | .insert choose data => (insert choose data s).2
  | .remove rid => (remove rid s).2

/-- The capacities that are remembered are true and are candidates; an insert never fails on a
page it has found, and takes a new page only when no page could take the record. -/
structure ReusesSpace (s : HeapFile) : Prop where
  capacity : ∀ p c, s.pageCapacity.lookup p = some c → ∃ frame free reclaimable,
    s.diskManager.readPage p = .ok frame ∧ freeSpace frame = .ok free ∧
      reclaimableSpace frame = .ok reclaimable ∧ c = free + reclaimable
  represented : ∀ p c, s.pageCapacity.lookup p = some c → (-c, p) ∈ s.capacityHeap
  inserts : ∀ choose data, (data.length : Int) ≤ maxRecordSize s.diskManager.pageSize →
    ∃ rid, (insert choose data s).1 = .ok rid
  asserts : ∀ choose data, (insert choose data s).1 ≠ .error .AssertionError
  grows : ∀ choose data,
    (insert choose data s).2.diskManager.pageCount ≠ s.diskManager.pageCount →
      ∀ p frame packed, s.diskManager.readPage p = .ok frame → compact frame = .ok packed →
        insertRecord packed data = .ok (none, packed)

section Runs

variable {s : HeapFile} {rs : RecordPages}

theorem insert_too_long (choose : List Int → Nat) {data : Bytes}
    (hlen : ¬ (data.length : Int) ≤ maxRecordSize s.diskManager.pageSize) :
    ∃ text, insert choose data s = (.error (.ValueError text), s) := by
  rw [insert, run_bind_ok _ (run_get s), if_pos (not_le.mp hlen), run_raise]
  exact ⟨_, rfl⟩

theorem reusesSpace (hinv : Inv s rs) (h : Space s) : ReusesSpace s := by
  have hrun : ∀ choose data, (data.length : Int) ≤ maxRecordSize s.diskManager.pageSize →
      ∃ rid s', insert choose data s = (.ok rid, s') ∧
        (s'.diskManager.pageCount ≠ s.diskManager.pageCount →
          ∀ p c, HasCapacity s.diskManager p c → c < data.length + SLOT_SIZE) := by
    intro choose data hlen
    have hwp := insert_space choose hinv h hlen
    rcases hinsert : insert choose data s with ⟨e | rid, s'⟩
    · exact (wp_error hwp hinsert).elim
    · exact ⟨rid, s', rfl, (wp_ok hwp hinsert).2⟩
  refine ⟨fun p c hlookup => ?_, fun p c => h.represented p c (Option.some_ne_none p),
    fun choose data hlen => ?_, fun choose data hfalse => ?_,
    fun choose data hgrown p frame packed hread hcompact => ?_⟩
  · obtain ⟨frame, hread, hframe⟩ := h.capacity p c (Option.some_ne_none p) hlookup
    rw [frameCapacity, bind_eq_ok] at hframe
    obtain ⟨free, hfree, hframe⟩ := hframe
    rw [bind_eq_ok] at hframe
    obtain ⟨reclaimable, hreclaimable, hframe⟩ := hframe
    exact ⟨frame, free, reclaimable, hread, hfree, hreclaimable, (Except.ok.inj hframe).symm⟩
  · obtain ⟨rid, s', hinsert, _⟩ := hrun choose data hlen
    exact ⟨rid, by rw [hinsert]⟩
  · by_cases hlen : (data.length : Int) ≤ maxRecordSize s.diskManager.pageSize
    · obtain ⟨rid, s', hinsert, _⟩ := hrun choose data hlen
      rw [hinsert] at hfalse
      cases hfalse
    · obtain ⟨text, hinsert⟩ := insert_too_long choose hlen
      rw [hinsert] at hfalse
      cases hfalse
  · by_cases hlen : (data.length : Int) ≤ maxRecordSize s.diskManager.pageSize
    · obtain ⟨rid, s', hinsert, hfull⟩ := hrun choose data hlen
      rw [hinsert] at hgrown
      have hvalid := validPageId_of_read_page hread
      obtain ⟨n, records, rfl, hp⟩ := hinv.exists_of_valid hvalid
      obtain ⟨frame', hread', -, hholds⟩ := hinv.page hp
      rw [hread, Except.ok.injEq] at hread'
      subst hread'
      rw [drop_zero] at hholds
      obtain ⟨packed', hcompact', _, _, hnone, _⟩ :=
        insert_compacted hholds (frame_capacity_eq hholds)
      rw [hcompact, Except.ok.injEq] at hcompact'
      subst hcompact'
      exact hnone data (hfull hgrown _ _ ⟨frame, hread, frame_capacity_eq hholds⟩)
    · obtain ⟨text, hinsert⟩ := insert_too_long choose hlen
      rw [hinsert] at hgrown
      exact absurd rfl hgrown

theorem call_space (h : ∃ rs, Inv s rs ∧ Space s) (c : Call) :
    ∃ rs, Inv (call s c) rs ∧ Space (call s c) := by
  obtain ⟨rs, hinv, hspace⟩ := h
  cases c with
  | remove rid =>
      obtain ⟨rs', hinv', -⟩ := remove_spec hinv rid
      exact ⟨rs', hinv', remove_space hinv hspace rid⟩
  | insert choose data =>
      by_cases hlen : (data.length : Int) ≤ maxRecordSize s.diskManager.pageSize
      · have hwp := wp_and (insert_spec hinv choose data)
          (insert_space choose hinv hspace hlen)
        rcases hinsert : insert choose data s with ⟨e | rid, s'⟩
        · exact (wp_error hwp hinsert).2.elim
        · obtain ⟨⟨_, rs', hinv', _⟩, hspace', _⟩ := wp_ok hwp hinsert
          rw [call, hinsert]
          exact ⟨rs', hinv', hspace'⟩
      · obtain ⟨text, hinsert⟩ := insert_too_long choose hlen
        rw [call, hinsert]
        exact ⟨rs, hinv, hspace⟩

/-- A file of slotted pages can be opened. -/
theorem init_ok {d : DiskManager} (hstored : Stored 0 d rs) : ∃ s, init d = .ok s := by
  rw [init]
  split
  · have hwp := new_page_spec (s := ⟨d, ∅, [], [], 0⟩) hstored
    rcases hrun : newPage ⟨d, ∅, [], [], 0⟩ with ⟨e | p, s'⟩
    · exact (wp_error hwp hrun).elim
    · exact ⟨_, rfl⟩
  · exact ⟨_, rfl⟩

/-- A new file, whose pages the header can address. -/
theorem stored_empty {pageSize : Nat} (hlow : 4 ≤ pageSize) (hhigh : pageSize ≤ 65535) :
    Stored 0 ⟨pageSize, []⟩ [] :=
  ⟨by simpa using hlow, by simpa using Nat.lt_succ_of_le hhigh, rfl, by simp⟩

/-- An instance opened on any file of slotted pages, new or old, reuses space after every call
of every run. -/
theorem always_reuses_space {d : DiskManager} (hstored : Stored 0 d rs) :
    ∃ s, init d = .ok s ∧ ∀ calls, Always ReusesSpace call s calls := by
  obtain ⟨s, hinit⟩ := init_ok hstored
  obtain ⟨rs', hinv, -⟩ := init_spec hstored hinit
  refine ⟨s, hinit, fun calls => ?_⟩
  refine Always.mono (P := fun s => ∃ rs, Inv s rs ∧ Space s) ?_
    (always_of_every_step (fun s c h => call_space h c) calls
      ⟨rs', hinv, init_space hstored hinit⟩)
  rintro s ⟨rs, hinv, hspace⟩
  exact reusesSpace hinv hspace

/-- Two records that fill a page, of which the first makes room for a third. -/
def fewCalls : List Call :=
  [.insert (fun _ => 0) (replicate 30 1), .insert (fun _ => 0) (replicate 20 2),
    .remove ⟨0, 0⟩, .insert (fun _ => 0) (replicate 24 3)]

theorem always_reuses_space_of_few_calls :
    4 ≤ 64 ∧ 64 ≤ 65535 ∧
      ∃ s, init ⟨64, []⟩ = .ok s ∧ Always ReusesSpace call s fewCalls := by
  obtain ⟨s, hinit, hruns⟩ :=
    always_reuses_space (@stored_empty 64 (by decide) (by decide))
  exact ⟨by decide, by decide, s, hinit, hruns fewCalls⟩

end Runs

end HeapFile
end SoupDB
