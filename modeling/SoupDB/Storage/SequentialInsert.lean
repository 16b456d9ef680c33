import SoupDB.Storage.SequentialChains

/-!
# SoupDB: where a sequential file puts a record

`insert_spec` says all an insert can do to a file with buckets: the record lands in the
bucket `targetMain` gives, in one of its pages or in a new overflow page, or in a new
bucket at the end of the chain; or the insert raises and the records stay.  The largest
key of the bucket is raised to the key.  Keys need not be comparable: `targetMain` has
compared the largest key of the bucket with the key before anything is written.
-/

namespace SoupDB.SequentialFile

open Effect SlottedPage SequentialPage DiskManager Chained List

/-- The largest key after a key is added. -/
def bumped (current key : Value) : Value :=
  match current with
  | .null => key
  | current => if Value.gt key current = .ok true then key else current

/-- The search for a bucket goes past this one: it has no largest key, or one below the key. -/
def Passed (s : SequentialFile) (key : Value) (b : Bucket) : Prop :=
  maxOf s b = .null ∨ Value.ge (maxOf s b) key = .ok false

/-- The largest key of the bucket is not below the key. -/
def InRange (s : SequentialFile) (key : Value) (b : Bucket) : Prop :=
  maxOf s b ≠ .null ∧ Value.ge (maxOf s b) key = .ok true

/-- The key can be compared with the largest key of the bucket, if there is one. -/
def Compared (current key : Value) : Prop :=
  current = .null ∨ ∃ above, Value.gt key current = .ok above

theorem Passed.compared {s : SequentialFile} {key : Value} {b : Bucket} (h : Passed s key b) :
    Compared (maxOf s b) key := h.imp id (fun hge => Value.compared_swap hge _ _)

theorem InRange.compared {s : SequentialFile} {key : Value} {b : Bucket} (h : InRange s key b) :
    Compared (maxOf s b) key := Or.inr (Value.compared_swap h.2 _ _)

/-- What a landed record changes: one slot of the bucket is given out, and the largest key
of the bucket is raised. -/
structure Landed (s : SequentialFile) (rs : RecordPages) (key : Value) (data : Bytes) (rid : RID)
    (b : Bucket) (current : Value) (s' : SequentialFile) (rs' : RecordPages) (b' : Bucket) :
    Prop where
  main : b'.main = b.main
  old_pages : ∀ p ∈ b.pages, p ∈ b'.pages
  new_pages : ∀ p ∈ b'.pages, p ∈ b.pages ∨ ∀ slot, slotOf rs ⟨p, slot⟩ = none
  mem : rid.pageId ∈ b'.pages
  free : slotOf rs rid = none
  slots : ∀ r, slotOf rs' r = if r = rid then some (some data) else slotOf rs r
  max : ∀ p, s'.pageMaxKey.lookup p =
    if p = b.main then some (bumped current key) else s.pageMaxKey.lookup p

/-- Every page lies in a bucket, and nothing else is kept in memory. -/
structure Tidy (s : SequentialFile) (bs : List Bucket) : Prop where
  pages : ∀ p : Nat, p < s.diskManager.pageCount → (p : Int) ∈ bs.flatMap Bucket.pages
  max : ∀ p, p ∉ bs.map Bucket.main → s.pageMaxKey.lookup p = none
  next : ∀ p, p ∉ bs.map Bucket.main → s.mainNext.lookup p = none
  owner : ∀ p, p ∉ bs.flatMap Bucket.pages → s.pageOwnerMain.lookup p = none

/-- What an insert that raises leaves: the records, and the metadata too unless a page
could not be linked because its page id is out of the range of the header. -/
structure Failed (s : SequentialFile) (rs : RecordPages) (bs : List Bucket)
    (s' : SequentialFile) : Prop where
  chained : ∃ rs', Chained s' rs' bs ∧ ∀ r, slotOf rs' r = slotOf rs r
  max : ∀ b ∈ bs, maxOf s' b = maxOf s b
  known : ∀ b ∈ bs, s'.pageMaxKey.lookup b.main = s.pageMaxKey.lookup b.main
  kept : s.diskManager.pageCount < 2147483648 →
    s'.pageMaxKey = s.pageMaxKey ∧ s'.mainNext = s.mainNext ∧
      s'.pageOwnerMain = s.pageOwnerMain ∧
      s'.diskManager.pageCount = s.diskManager.pageCount

section Target

variable {s : SequentialFile} {rs : RecordPages} {key current : Value} {b : Bucket}

theorem covers_true : covers current key = .ok true ↔
    current ≠ .null ∧ Value.ge current key = .ok true := by
  cases current <;> simp [covers]

theorem covers_false : covers current key = .ok false ↔
    current = .null ∨ Value.ge current key = .ok false := by
  cases current <;> simp [covers]

theorem larger_eq {c : Value} {above : Bool} (h : Value.gt key c = .ok above) :
    larger c key = .ok (if Value.gt key c = .ok true then key else c) := by
  simp only [larger, h, ok_bind, Except.ok.injEq]

/-- The largest key is raised without an exception when the two were compared before. -/
theorem bump_eq (h : Compared current key) : bump current key = .ok (bumped current key) := by
  rcases h with rfl | ⟨above, habove⟩
  · rfl
  · cases current with
    | null => rfl
    | _ => exact larger_eq habove

/-- The search ends at the first bucket in range, or else at the last one. -/
theorem target_main_ok : ∀ {bs : List Bucket} {b : Bucket} {rounds : Nat} {mainId : Int}
      {in_range : Bool},
    LinkedTo (fun p next => s.mainNext.lookup p = some next) ((b :: bs).map Bucket.main) none →
    targetMain s key rounds b.main = .ok (mainId, in_range) →
    ∃ before c after, b :: bs = before ++ c :: after ∧ mainId = c.main ∧
      (∀ e ∈ before, Passed s key e) ∧
      ((in_range = true ∧ InRange s key c) ∨
        (in_range = false ∧ Passed s key c ∧ after = [])) := by
  intro bs
  induction bs with
  | nil =>
      intro b rounds mainId in_range hlinked h
      cases rounds with
      | zero => cases h
      | succ rounds =>
          rw [targetMain, bind_eq_ok] at h
          obtain ⟨covered, hcovered, h⟩ := h
          cases covered with
          | true =>
              cases h
              exact ⟨[], b, [], rfl, rfl, by simp, Or.inl ⟨rfl, covers_true.mp hcovered⟩⟩
          | false =>
              rw [hlinked.1] at h
              cases h
              exact ⟨[], b, [], rfl, rfl, by simp,
                Or.inr ⟨rfl, covers_false.mp hcovered, rfl⟩⟩
  | cons e bs ih =>
      intro b rounds mainId in_range hlinked h
      cases rounds with
      | zero => cases h
      | succ rounds =>
          rw [targetMain, bind_eq_ok] at h
          obtain ⟨covered, hcovered, h⟩ := h
          cases covered with
          | true =>
              cases h
              exact ⟨[], b, e :: bs, rfl, rfl, by simp,
                Or.inl ⟨rfl, covers_true.mp hcovered⟩⟩
          | false =>
              rw [hlinked.1] at h
              obtain ⟨before, c, after, hsplit, hmain, hpassed, hcase⟩ := ih hlinked.2 h
              refine ⟨b :: before, c, after, by rw [hsplit]; rfl, hmain, ?_, hcase⟩
              intro x hx
              rcases mem_cons.mp hx with rfl | hx
              · exact covers_false.mp hcovered
              · exact hpassed x hx

theorem Chained.target {bs : List Bucket} (h : Chained s rs bs) {mainId : Int}
    {in_range : Bool} {rounds : Nat}
    (htarget : targetMain s key rounds MAIN_HEAD = .ok (mainId, in_range)) :
    ∃ before c after, bs = before ++ c :: after ∧ mainId = c.main ∧
      (∀ e ∈ before, Passed s key e) ∧
      ((in_range = true ∧ InRange s key c) ∨
        (in_range = false ∧ Passed s key c ∧ after = [])) := by
  have hhead := h.head
  cases bs with
  | nil => cases hhead
  | cons b bs =>
      have hb : b.main = MAIN_HEAD := by simpa using hhead
      rw [← hb] at htarget
      exact target_main_ok h.mainNext htarget

end Target

section Programs

variable {s : SequentialFile} {rs : RecordPages} {key : Value} {data frame : Bytes} {p : Int}
  {mainId : Int} {E : PyError → SequentialFile → Prop}

theorem wp_bump_max {Q : Unit → SequentialFile → Prop}
    (h : Compared ((s.pageMaxKey.lookup mainId).getD .null) key)
    (hQ : Q () { s with pageMaxKey :=
      s.pageMaxKey.insert mainId (bumped ((s.pageMaxKey.lookup mainId).getD .null) key) }) :
    wp (bumpMax mainId key) Q E s := by
  simp only [bumpMax, wp_bind, wp_get, bump_eq h, wp_lift_ok, wp_modify]
  exact hQ

theorem wp_insert_fresh {Q : RID → SequentialFile → Prop}
    (hread : s.diskManager.readPage p = .ok frame)
    (hempty : Slotted (body frame) [] (body frame).length)
    (hfits : Fits [] data (body frame).length)
    (h : Compared ((s.pageMaxKey.lookup mainId).getD .null) key)
    (hQ : ∀ d', Rebodied s.diskManager p frame [some data] d' →
      Q ⟨p, 0⟩ { s with
        diskManager := d'
        pageMaxKey := s.pageMaxKey.insert mainId
          (bumped ((s.pageMaxKey.lookup mainId).getD .null) key) }) :
    wp (insertFresh p mainId key data) Q E s := by
  simp only [Fits, payload, map_nil, sum_nil, length_nil, SLOT_SIZE] at hfits
  obtain ⟨b, hinsert, hslotted, hrecords, hlen⟩ := hempty.insert_record_ok data
    (by rw [length_nil]; omega)
  rw [insertFresh, wp_bind]
  refine wp_disk_frame hread (show _ = Except.ok (0, withBody frame b) from ?_) ?_
  · rw [hinsert]
    rfl
  · intro d' hwrite
    rw [wp_bind]
    refine wp_bump_max h ?_
    exact hQ d' ⟨b, hwrite, hlen, _, _, hslotted, hrecords⟩

end Programs

/-! ## Landing in a bucket -/

/-- The record lands in the bucket `b`. -/
def LandedIn (s : SequentialFile) (rs : RecordPages) (before : List Bucket) (b : Bucket)
    (after : List Bucket) (key : Value) (data : Bytes) (rid : RID) (s' : SequentialFile) : Prop :=
  ∃ rs' b', Landed s rs key data rid b (maxOf s b) s' rs' b' ∧
    Chained s' rs' (before ++ b' :: after) ∧
    (Tidy s (before ++ b :: after) → Tidy s' (before ++ b' :: after))

section Landing

variable {s : SequentialFile} {rs : RecordPages} {key : Value} {data frame : Bytes} {n : Nat}
  {records : List (Option Bytes)} {before after bs : List Bucket} {b : Bucket} {d' : DiskManager}
  {rid : RID} {s' : SequentialFile}

theorem Tidy.of_disk (h : Tidy s bs) (hcount : d'.pageCount = s.diskManager.pageCount) :
    Tidy { s with diskManager := d' } bs :=
  ⟨fun p hp => h.pages p (hcount ▸ hp), h.max, h.next, h.owner⟩

theorem LandedIn.of_disk (hcount : d'.pageCount = s.diskManager.pageCount)
    (h : LandedIn { s with diskManager := d' } rs before b after key data rid s') :
    LandedIn s rs before b after key data rid s' := by
  obtain ⟨rs', b', hlanded, hchained, htidy⟩ := h
  exact ⟨rs', b', ⟨hlanded.main, hlanded.old_pages, hlanded.new_pages, hlanded.mem, hlanded.free,
    hlanded.slots, hlanded.max⟩, hchained, fun ht => htidy (ht.of_disk hcount)⟩

theorem Failed.of_disk (hcount : d'.pageCount = s.diskManager.pageCount)
    (h : Failed { s with diskManager := d' } rs bs s') : Failed s rs bs s' := by
  refine ⟨h.chained, h.max, h.known, ?_⟩
  intro hrange
  have hkept := h.kept (by rw [hcount]; exact hrange)
  rwa [hcount] at hkept

/-- An exception before anything is written. -/
theorem Failed.refl (h : Chained s rs bs) : Failed s rs bs s :=
  ⟨⟨rs, h, fun _ => rfl⟩, fun _ _ => rfl, fun _ _ => rfl, fun _ => ⟨rfl, rfl, rfl, rfl⟩⟩

theorem Rebodied.pageCount {d : DiskManager} {p : Int} (h : Rebodied d p frame records d') :
    d'.pageCount = d.pageCount := by
  obtain ⟨_, hwrite, _⟩ := h.written
  exact page_count_write_page hwrite

theorem Rebodied.pageSize {d : DiskManager} {p : Int} (h : Rebodied d p frame records d') :
    d'.pageSize = d.pageSize := by
  obtain ⟨_, hwrite, _⟩ := h.written
  exact page_size_write_page hwrite

theorem landed_of_place (h : Chained s rs (before ++ b :: after)) (hmem : (n : Int) ∈ b.pages)
    (hn : rs[n]? = some records) (hframe : Frame s.diskManager n frame records)
    (hwrite : Rebodied s.diskManager n frame (records ++ [some data]) d') :
    LandedIn s rs before b after key data ⟨n, records.length⟩
      { s with
        diskManager := d'
        pageMaxKey := s.pageMaxKey.insert b.main (bumped (maxOf s b) key) } := by
  have hb : b ∈ before ++ b :: after := by simp
  have hchained := h.rebody hframe (mem_pages hb hmem) hwrite
  refine ⟨rs.set n (records ++ [some data]), b, ⟨rfl, fun _ hp => hp, fun _ hp => Or.inl hp, hmem,
    slotOf_next hn, slotOf_insert hn data, ?_⟩, ?_, ?_⟩
  · intro p
    exact Dict.lookup_insert_eq _ _ _ _
  · exact hchained.with_max _
  · intro htidy
    refine ⟨?_, ?_, htidy.next, htidy.owner⟩
    · intro p hp
      refine htidy.pages p ?_
      rw [← hwrite.pageCount]
      exact hp
    · intro p hp
      rw [Dict.lookup_insert_eq, if_neg, htidy.max p hp]
      rintro rfl
      exact hp (mem_map.mpr ⟨b, hb, rfl⟩)

theorem fits_fresh (h : Stored SequentialPage.HEADER_SIZE s.diskManager rs)
    (hlen : frame.length = s.diskManager.pageSize)
    (hsize : (data.length : Int) ≤ maxPayload s.diskManager.pageSize) :
    Fits [] data (body frame).length := by
  have hlow := h.page_size_low
  simp only [maxPayload, maxRecordSize, bodySize] at hsize
  simp only [Fits, payload, slotPosition, map_nil, sum_nil, length_nil, body,
    length_drop, SlottedPage.HEADER_SIZE, SLOT_SIZE, SequentialPage.HEADER_SIZE] at *
  omega

theorem landed_of_append (h : Chained s rs (before ++ b :: after))
    (hchained : Chained s' ((rs ++ [[]]).set rs.length [some data])
      (before ++ ⟨b.main, b.overflow ++ [(rs.length : Int)]⟩ :: after))
    (hcount : s'.diskManager.pageCount = s.diskManager.pageCount + 1)
    (hmax : s'.pageMaxKey = s.pageMaxKey.insert b.main (bumped (maxOf s b) key))
    (hnext : s'.mainNext = s.mainNext)
    (howner : s'.pageOwnerMain = s.pageOwnerMain.insert (rs.length : Int) b.main) :
    LandedIn s rs before b after key data ⟨rs.length, 0⟩ s' := by
  have hb : b ∈ before ++ b :: after := by simp
  have hn : (rs ++ [[]])[rs.length]? = some [] := by simp
  have hnew := h.stored.count
  refine ⟨_, ⟨b.main, b.overflow ++ [(rs.length : Int)]⟩, ⟨rfl, ?_, ?_, ?_, ?_, ?_, ?_⟩,
    hchained, ?_⟩
  · intro p hp
    simp only [Bucket.pages, mem_cons, mem_append] at hp ⊢
    tauto
  · intro p hp
    simp only [Bucket.pages, mem_cons, mem_append, not_mem_nil, or_false] at hp ⊢
    rcases hp with hp | hp | rfl
    · exact Or.inl (Or.inl hp)
    · exact Or.inl (Or.inr hp)
    · refine Or.inr (fun slot => slotOf_eq_none_of_page _ ?_)
      simp
  · simp [Bucket.pages]
  · have hfree := slotOf_next hn
    rw [slotOf_append_page] at hfree
    exact hfree
  · intro r
    have hslots := slotOf_insert hn data r
    rw [slotOf_append_page] at hslots
    exact hslots
  · intro p
    rw [hmax]
    exact Dict.lookup_insert_eq _ _ _ _
  · intro htidy
    have hmem : ∀ p, p ∈ (before ++ ⟨b.main, b.overflow ++ [(rs.length : Int)]⟩ ::
        after).flatMap Bucket.pages ↔
        p ∈ (before ++ b :: after).flatMap Bucket.pages ∨ p = rs.length := by
      intro p
      simp only [flatMap_append, flatMap_cons, mem_append, Bucket.pages,
        mem_cons, not_mem_nil, or_false]
      tauto
    have hmains : (before ++ ⟨b.main, b.overflow ++ [(rs.length : Int)]⟩ :: after).map
        Bucket.main = (before ++ b :: after).map Bucket.main := by simp
    refine ⟨?_, ?_, ?_, ?_⟩
    · intro p hp
      rw [hmem]
      by_cases hlast : p = rs.length
      · exact Or.inr (by rw [hlast])
      · exact Or.inl (htidy.pages p (by omega))
    · intro p hp
      rw [hmains] at hp
      rw [hmax, Dict.lookup_insert_eq, if_neg]
      · exact htidy.max p hp
      · rintro rfl
        exact hp (mem_map.mpr ⟨b, hb, rfl⟩)
    · rw [hmains, hnext]
      exact htidy.next
    · intro p hp
      rw [hmem, not_or] at hp
      rw [howner, Dict.lookup_insert_eq, if_neg hp.2]
      exact htidy.owner p hp.1

theorem append_overflow_spec (h : Chained s rs (before ++ b :: after))
    (hcomp : Compared (maxOf s b) key)
    (hsize : (data.length : Int) ≤ maxPayload s.diskManager.pageSize) {fromId : Int}
    (hfrom : fromId ∈ b.pages) {link : Bytes → Int → Except PyError Bytes}
    (hin : ∀ {frame kind next first value}, HasHeader frame kind next first →
      (-2147483648 ≤ value ∧ value < 2147483648) → ∃ frame', link frame value = .ok frame' ∧
        frame'.length = frame.length ∧ body frame' = body frame)
    (hout : ∀ {frame frame' value}, link frame value = .ok frame' → value < 2147483648)
    (hchain : ∀ {s₁ : SequentialFile} {rs₁ : RecordPages} {d₂ : DiskManager} {new : Int}
      {frame frame' : Bytes}, Chained s₁ rs₁ (before ++ b :: after) →
      Stored SequentialPage.HEADER_SIZE d₂ rs₁ →
      new ∉ (before ++ b :: after).flatMap Bucket.pages →
      s₁.pageOwnerMain.lookup new = some b.main → Link s₁.diskManager new none none →
      (0 ≤ new ∧ new < 2147483648) → s₁.diskManager.readPage fromId = .ok frame →
      link frame new = .ok frame' → Relinked s₁.diskManager fromId frame frame' d₂ →
      Chained { s₁ with diskManager := d₂ } rs₁
        (before ++ ⟨b.main, b.overflow ++ [new]⟩ :: after)) :
    wp (appendOverflow b.main fromId link key data) (LandedIn s rs before b after key data)
      (fun _ s' => Failed s rs (before ++ b :: after) s') s := by
  have hb : b ∈ before ++ b :: after := by simp
  have hfresh := h.fresh_not_mem
  have hfromNew : fromId ≠ (s.diskManager.pageCount : Int) := by
    rintro rfl
    exact hfresh (mem_pages hb hfrom)
  rw [appendOverflow, wp_bind]
  refine wp_new_page h.stored (by decide) ?_
  intro fresh d₁ happended
  rw [if_neg (by decide), wp_bind, wp_modify, wp_bind]
  have hcount := happended.pageCount
  have hchained₁ : Chained { s with
      diskManager := d₁
      pageOwnerMain := s.pageOwnerMain.insert s.diskManager.pageCount b.main }
      (rs ++ [[]]) (before ++ b :: after) := by
    refine h.append happended (fun _ _ => rfl) ?_
    intro p hp
    exact (Dict.lookup_insert_eq _ _ _ _).trans (if_neg hp)
  obtain ⟨next, first, hlinkFrom⟩ := hchained₁.link_of_mem (mem_pages hb hfrom)
  obtain ⟨_, _, frame, kind, hread, hheader⟩ := hlinkFrom
  have hnew : s.diskManager.pageCount = rs.length := h.stored.count
  by_cases hrange : (s.diskManager.pageCount : Int) < 2147483648
  · obtain ⟨frame', hset, hlen, hbody⟩ := hin hheader
      (show -2147483648 ≤ (s.diskManager.pageCount : Int) ∧ _ by omega)
    refine wp_disk_frame hread (show _ = Except.ok ((), frame') from ?_) ?_
    · rw [hset]
      rfl
    · intro d₂ hwrite
      have hrelinked : Relinked d₁ fromId frame frame' d₂ := ⟨hwrite, hlen, hbody⟩
      have hcount₂ : d₂.pageCount = d₁.pageCount := page_count_write_page hwrite
      have hstored₂ : Stored SequentialPage.HEADER_SIZE d₂ (rs ++ [[]]) :=
        hchained₁.stored_of_relinked (mem_pages hb hfrom) hread hrelinked
      have hchained₂ := hchain hchained₁ hstored₂ hfresh
        ((Dict.lookup_insert_eq _ _ _ _).trans (if_pos rfl)) happended.link_new
        (by omega) hread hset hrelinked
      have hframe := happended.frame_of_write hwrite hfromNew
      refine wp_insert_fresh hframe.read happended.empty
        (fits_fresh h.stored happended.length hsize) hcomp ?_
      intro d₃ hrebodied
      have hchained₃ := hchained₂.rebody hframe (by simp [Bucket.pages]) hrebodied
      have hcount₃ := hrebodied.pageCount
      rw [hnew] at hchained₃ ⊢
      exact landed_of_append h (hchained₃.with_max _) (by rw [hcount₃, hcount₂, hcount]) rfl rfl
        rfl
  · cases hset : link frame s.diskManager.pageCount with
    | ok frame' => exact absurd (hout hset) hrange
    | error e =>
        refine wp_disk_frame_error hread (show _ = Except.error e from ?_) ?_
        · rw [hset]
          rfl
        · exact ⟨⟨_, hchained₁, slotOf_append_page rs⟩, fun _ _ => rfl, fun _ _ => rfl,
            fun hlt => absurd (by omega) hrange⟩

theorem set_next_page_id_lt {frame' : Bytes} {value : Int}
    (h : setNextPageId frame value = .ok frame') : value < 2147483648 := by
  rw [setNextPageId, bind_eq_ok] at h
  obtain ⟨_, _, h⟩ := h
  exact (write_header_range h).1.2

theorem set_first_overflow_page_id_lt {frame' : Bytes} {value : Int}
    (h : setFirstOverflowPageId frame value = .ok frame') : value < 2147483648 := by
  rw [setFirstOverflowPageId, bind_eq_ok] at h
  obtain ⟨_, _, h⟩ := h
  exact (write_header_range h).2.2

/-- The overflow pages are tried one after the other; the last one gets a successor. -/
theorem insert_along_spec (rounds : Nat) : ∀ {s : SequentialFile} {front rest : List Int}
      {current : Int}, Chained s rs (before ++ b :: after) →
    b.overflow = front ++ current :: rest → Compared (maxOf s b) key →
    (data.length : Int) ≤ maxPayload s.diskManager.pageSize →
    wp (insertAlong b.main key data rounds current) (LandedIn s rs before b after key data)
      (fun _ s' => Failed s rs (before ++ b :: after) s') s := by
  induction rounds with
  | zero =>
      intro s front rest current h _ _ _
      exact Failed.refl h
  | succ rounds ih =>
      intro s front rest current h hoverflow hcomp hsize
      have hb : b ∈ before ++ b :: after := by simp
      have hcurrent : current ∈ b.pages := by simp [Bucket.pages, hoverflow]
      obtain ⟨n, records, frame, rfl, hn, hframe⟩ := h.frame_of_mem (mem_pages hb hcurrent)
      rw [insertAlong, wp_bind]
      refine wp_place hframe data ?_ ?_
      · intro _ d' hwrite
        rw [wp_bind]
        exact wp_bump_max hcomp (landed_of_place h hcurrent hn hframe hwrite)
      · intro _ d' hwrite
        have hcount := hwrite.pageCount
        have hchained := h.rebody_same hn hframe hwrite
        have hsize' := hwrite.pageSize
        have hchain := hchained.overflow b hb
        rw [hoverflow] at hchain
        obtain ⟨_, hlink, hrest⟩ := linkedTo_append.mp hchain
        obtain ⟨frame', hread, hnext⟩ := hlink.nextPageId
        rw [Option.or_none] at hnext
        rw [wp_bind]
        refine wp_disk_read hread ?_ ?_
        · intro next hok
          rw [hnext, Except.ok.injEq] at hok
          cases rest with
          | nil =>
              subst hok
              refine wp_mono (append_overflow_spec hchained hcomp (by rw [hsize']; exact hsize)
                hcurrent (fun hheader hrange => ?_) set_next_page_id_lt ?_)
                (fun _ _ hQ => hQ.of_disk hcount) (fun _ _ hE => hE.of_disk hcount)
              · obtain ⟨page', hset, _, hlen, hbody⟩ := hheader.setNextPageId hrange
                exact ⟨page', hset, hlen, hbody⟩
              · intro s₁ rs₁ d₂ new frame₁ frame₂ h₁ hstored hfresh howner hnew hrange hread₁ hset
                  hrelinked
                exact h₁.link_next hoverflow hstored hfresh howner hnew hrange hread₁ hset
                  hrelinked
          | cons next rest =>
              subst hok
              have hsplit : b.overflow = (front ++ [(n : Int)]) ++ next :: rest := by
                rw [hoverflow, append_assoc, singleton_append]
              exact wp_mono (ih hchained hsplit hcomp (by rw [hsize']; exact hsize))
                (fun _ _ hQ => hQ.of_disk hcount) (fun _ _ hE => hE.of_disk hcount)
        · intro e hE
          rw [hnext] at hE
          cases hE

/-- A record that does not fit the main page goes to the overflow pages. -/
theorem insert_into_overflow_spec (h : Chained s rs (before ++ b :: after))
    (hcomp : Compared (maxOf s b) key)
    (hsize : (data.length : Int) ≤ maxPayload s.diskManager.pageSize) :
    wp (insertIntoOverflow b.main key data) (LandedIn s rs before b after key data)
      (fun _ s' => Failed s rs (before ++ b :: after) s') s := by
  have hb : b ∈ before ++ b :: after := by simp
  obtain ⟨next, hlink⟩ := h.first b hb
  obtain ⟨frame, hread, hfirst⟩ := hlink.firstOverflowPageId
  rw [insertIntoOverflow, wp_bind]
  refine wp_disk_read hread ?_ ?_
  · intro first hok
    rw [hfirst, Except.ok.injEq] at hok
    cases hoverflow : b.overflow with
    | nil =>
        rw [hoverflow] at hok
        subst hok
        refine append_overflow_spec h hcomp hsize (by simp [Bucket.pages])
          (fun hheader hrange => ?_) set_first_overflow_page_id_lt ?_
        · obtain ⟨page', hset, _, hlen, hbody⟩ := hheader.setFirstOverflowPageId hrange
          exact ⟨page', hset, hlen, hbody⟩
        · intro s₁ rs₁ d₂ new frame₁ frame₂ h₁ hstored hfresh howner hnew hrange hread₁ hset
            hrelinked
          exact h₁.link_first hoverflow hstored hfresh howner hnew hrange hread₁ hset hrelinked
    | cons current rest =>
        rw [hoverflow] at hok
        subst hok
        rw [head?_cons]
        simp only [wp_bind, wp_get]
        exact insert_along_spec _ h (show b.overflow = [] ++ current :: rest from hoverflow) hcomp
          hsize
  · intro e hE
    rw [hfirst] at hE
    cases hE

/-- The record lands in a new bucket at the end of the chain. -/
def LandedNew (s : SequentialFile) (rs : RecordPages) (bs : List Bucket) (key : Value)
    (data : Bytes) (rid : RID) (s' : SequentialFile) : Prop :=
  ∃ rs' new, Landed s rs key data rid ⟨new, []⟩ .null s' rs' ⟨new, []⟩ ∧
    Chained s' rs' (bs ++ [⟨new, []⟩]) ∧ (Tidy s bs → Tidy s' (bs ++ [⟨new, []⟩]))

theorem LandedNew.of_disk (hcount : d'.pageCount = s.diskManager.pageCount)
    (h : LandedNew { s with diskManager := d' } rs bs key data rid s') :
    LandedNew s rs bs key data rid s' := by
  obtain ⟨rs', new, hlanded, hchained, htidy⟩ := h
  exact ⟨rs', new, ⟨hlanded.main, hlanded.old_pages, hlanded.new_pages, hlanded.mem, hlanded.free,
    hlanded.slots, hlanded.max⟩, hchained, fun ht => htidy (ht.of_disk hcount)⟩

theorem landed_of_append_main (h : Chained s rs bs)
    (hchained : Chained s' ((rs ++ [[]]).set rs.length [some data]) (bs ++ [⟨rs.length, []⟩]))
    (hcount : s'.diskManager.pageCount = s.diskManager.pageCount + 1)
    (hmax : ∀ p, s'.pageMaxKey.lookup p =
      if p = rs.length then some key else s.pageMaxKey.lookup p)
    (hnext : ∀ p, p ∉ bs.map Bucket.main → p ≠ rs.length →
      s'.mainNext.lookup p = s.mainNext.lookup p)
    (howner : s'.pageOwnerMain = s.pageOwnerMain.insert (rs.length : Int) (rs.length : Int)) :
    LandedNew s rs bs key data ⟨rs.length, 0⟩ s' := by
  have hn : (rs ++ [[]])[rs.length]? = some [] := by simp
  have hnew := h.stored.count
  refine ⟨_, rs.length, ⟨rfl, fun _ hp => hp, fun _ hp => Or.inl hp, ?_, ?_, ?_, hmax⟩,
    hchained, ?_⟩
  · simp [Bucket.pages]
  · have hfree := slotOf_next hn
    rw [slotOf_append_page] at hfree
    exact hfree
  · intro r
    have hslots := slotOf_insert hn data r
    rw [slotOf_append_page] at hslots
    exact hslots
  · intro htidy
    have hmem : ∀ p, p ∈ (bs ++ [(⟨(rs.length : Int), []⟩ : Bucket)]).flatMap Bucket.pages ↔
        p ∈ bs.flatMap Bucket.pages ∨ p = rs.length := by
      intro p
      simp [Bucket.pages]
    have hmains : ∀ p, p ∈ (bs ++ [(⟨(rs.length : Int), []⟩ : Bucket)]).map Bucket.main ↔
        p ∈ bs.map Bucket.main ∨ p = rs.length := by
      intro p
      simp
    refine ⟨?_, ?_, ?_, ?_⟩
    · intro p hp
      rw [hmem]
      by_cases hlast : p = rs.length
      · exact Or.inr (by rw [hlast])
      · exact Or.inl (htidy.pages p (by omega))
    · intro p hp
      rw [hmains, not_or] at hp
      rw [hmax, if_neg hp.2]
      exact htidy.max p hp.1
    · intro p hp
      rw [hmains, not_or] at hp
      rw [hnext p hp.1 hp.2]
      exact htidy.next p hp.1
    · intro p hp
      rw [hmem, not_or] at hp
      rw [howner, Dict.lookup_insert_eq, if_neg hp.2]
      exact htidy.owner p hp.1

theorem append_main_spec (h : Chained s rs (before ++ [b]))
    (hsize : (data.length : Int) ≤ maxPayload s.diskManager.pageSize) :
    wp (appendMain b.main key data) (LandedNew s rs (before ++ [b]) key data)
      (fun _ s' => Failed s rs (before ++ [b]) s') s := by
  have hb : b ∈ before ++ [b] := by simp
  have hfresh := h.fresh_not_mem
  have hnew : s.diskManager.pageCount = rs.length := h.stored.count
  have hmain : b.main ≠ (s.diskManager.pageCount : Int) := by
    intro heq
    exact hfresh (heq ▸ mem_pages hb (show b.main ∈ b.pages by simp [Bucket.pages]))
  rw [appendMain, wp_bind]
  refine wp_new_page h.stored (by decide) ?_
  intro fresh d₁ happended
  rw [if_pos rfl, wp_bind, linkMain, wp_bind]
  have hcount := happended.pageCount
  have hchained₁ : Chained
      { diskManager := d₁
        pageMaxKey := s.pageMaxKey.insert s.diskManager.pageCount .null
        mainNext := s.mainNext.insert s.diskManager.pageCount none
        pageOwnerMain := s.pageOwnerMain.insert s.diskManager.pageCount
          s.diskManager.pageCount } (rs ++ [[]]) (before ++ [b]) := by
    refine h.append happended ?_ ?_
    · intro p hp
      exact (Dict.lookup_insert_eq _ _ _ _).trans (if_neg hp)
    · intro p hp
      exact (Dict.lookup_insert_eq _ _ _ _).trans (if_neg hp)
  obtain ⟨next, first, hlinkFrom⟩ := hchained₁.link_of_mem (mem_pages hb
    (show b.main ∈ b.pages by simp [Bucket.pages]))
  obtain ⟨_, _, frame, kind, hread, hheader⟩ := hlinkFrom
  by_cases hrange : (s.diskManager.pageCount : Int) < 2147483648
  · obtain ⟨frame', hset, _, hlen, hbody⟩ := hheader.setNextPageId
      (show -2147483648 ≤ (s.diskManager.pageCount : Int) ∧ _ by omega)
    refine wp_disk_frame hread (show _ = Except.ok ((), frame') from ?_) ?_
    · rw [hset]
      rfl
    · intro d₂ hwrite
      rw [wp_modify]
      have hrelinked : Relinked d₁ b.main frame frame' d₂ := ⟨hwrite, hlen, hbody⟩
      have hcount₂ : d₂.pageCount = d₁.pageCount := page_count_write_page hwrite
      have hstored₂ : Stored SequentialPage.HEADER_SIZE d₂ (rs ++ [[]]) :=
        hchained₁.stored_of_relinked (mem_pages hb
          (show b.main ∈ b.pages by simp [Bucket.pages])) hread hrelinked
      have hframe := happended.frame_of_write hwrite hmain
      have hlookup : ((s.pageMaxKey.insert (s.diskManager.pageCount : Int) Value.null).lookup
          (s.diskManager.pageCount : Int)).getD .null = .null := by
        rw [Dict.lookup_insert_eq, if_pos rfl, Option.getD_some]
      refine wp_insert_fresh hframe.read happended.empty
        (fits_fresh h.stored happended.length hsize) (Or.inl hlookup) ?_
      intro d₃ hrebodied
      have hchained₂ : Chained
          { diskManager := d₂
            pageMaxKey := s.pageMaxKey.insert s.diskManager.pageCount .null
            mainNext := (s.mainNext.insert (s.diskManager.pageCount : Int) none).insert b.main
              (some (s.diskManager.pageCount : Int))
            pageOwnerMain := s.pageOwnerMain.insert s.diskManager.pageCount
              s.diskManager.pageCount }
          (rs ++ [[]]) (before ++ [b] ++ [⟨s.diskManager.pageCount, []⟩]) := by
        refine hchained₁.linkMain hstored₂ hfresh ?_ ?_ happended.link_new
          ⟨by omega, hrange⟩ hread hset hrelinked rfl rfl
        · exact (Dict.lookup_insert_eq _ _ _ _).trans (if_pos rfl)
        · exact (Dict.lookup_insert_eq _ _ _ _).trans (if_pos rfl)
      have hchained₃ := hchained₂.rebody hframe (by simp [Bucket.pages]) hrebodied
      have hcount₃ := hrebodied.pageCount
      rw [hnew] at hchained₃ hlookup ⊢
      refine landed_of_append_main h (hchained₃.with_max _) (by rw [hcount₃, hcount₂, hcount]) ?_
        ?_ rfl
      · intro p
        refine (Dict.lookup_insert_eq _ _ _ _).trans ?_
        by_cases hp : p = (rs.length : Int)
        · rw [if_pos hp, if_pos hp]
          simp only [hlookup]
          rfl
        · rw [if_neg hp, if_neg hp]
          exact (Dict.lookup_insert_eq _ _ _ _).trans (if_neg hp)
      · intro p hmains hp
        refine (Dict.lookup_insert_eq _ _ _ _).trans ?_
        rw [if_neg]
        · exact (Dict.lookup_insert_eq _ _ _ _).trans (if_neg hp)
        · rintro rfl
          exact hmains (by simp)
  · cases hset : setNextPageId frame s.diskManager.pageCount with
    | ok frame' => exact absurd (set_next_page_id_lt hset) hrange
    | error e =>
        refine wp_disk_frame_error hread (show _ = Except.error e from ?_) ?_
        · rw [hset]
          rfl
        · have hlookup : ∀ c ∈ before ++ [b],
              (s.pageMaxKey.insert (s.diskManager.pageCount : Int) Value.null).lookup c.main =
                s.pageMaxKey.lookup c.main := by
            intro c hc
            rw [Dict.lookup_insert_eq, if_neg]
            intro heq
            exact hfresh (heq ▸ mem_pages hc
              (show c.main ∈ c.pages by simp [Bucket.pages]))
          refine ⟨⟨_, hchained₁, slotOf_append_page rs⟩, ?_, hlookup,
            fun hlt => absurd (by omega) hrange⟩
          intro c hc
          rw [maxOf, hlookup c hc]
          rfl

/-! ## Inserting -/

/-- Whether the main page has room for the data, dead bytes included. -/
def Room (s : SequentialFile) (mainId : Int) (data : Bytes) : Prop :=
  ∃ frame free reclaimable, s.diskManager.readPage mainId = .ok frame ∧
    freeSpace (body frame) = .ok free ∧ reclaimableSpace (body frame) = .ok reclaimable ∧
    data.length + SLOT_SIZE ≤ free + reclaimable

theorem room_of_fits (hframe : Frame s.diskManager n frame records)
    (hfits : Fits records data (body frame).length) : Room s n data := by
  obtain ⟨free, reclaimable, hfree, hreclaimable, htotal, _, _⟩ := hframe.holds.insertRecord
  simp only [Fits] at hfits
  exact ⟨frame, free, reclaimable, hframe.read, hfree, hreclaimable, by omega⟩

/-- What an insert that returns has done. -/
def Inserted (keyFn : KeyFn) (s : SequentialFile) (rs : RecordPages) (bs : List Bucket)
    (data : Bytes) (rid : RID) (s' : SequentialFile) : Prop :=
  ∃ key before b after in_range, keyFn data = .ok key ∧
    targetMain s key (s.diskManager.pageCount + 1) MAIN_HEAD = .ok (b.main, in_range) ∧
    bs = before ++ b :: after ∧ (∀ c ∈ before, Passed s key c) ∧
    (data.length : Int) ≤ maxPayload s.diskManager.pageSize ∧
    ((in_range = true ∧ InRange s key b ∧ LandedIn s rs before b after key data rid s') ∨
      (in_range = false ∧ Passed s key b ∧ after = [] ∧
        (Room s b.main data ∧ LandedIn s rs before b [] key data rid s' ∨
          LandedNew s rs bs key data rid s')))

theorem insert_spec (h : Chained s rs bs) (keyFn : KeyFn) (data : Bytes) :
    wp (insert keyFn data) (Inserted keyFn s rs bs data) (fun _ s' => Failed s rs bs s') s := by
  rw [insert, wp_bind, wp_get]
  split
  · exact Failed.refl h
  · next hsize =>
      rw [not_lt] at hsize
      rw [wp_bind]
      cases hkey : keyFn data with
      | error e => exact Failed.refl h
      | ok key =>
          rw [wp_lift_ok, wp_bind]
          cases htarget : targetMain s key (s.diskManager.pageCount + 1) MAIN_HEAD with
          | error e => exact Failed.refl h
          | ok target =>
              obtain ⟨mainId, in_range⟩ := target
              obtain ⟨before, b, after, rfl, rfl, hpassed, hcase⟩ := h.target htarget
              have hb : b ∈ before ++ b :: after := by simp
              have hmem : b.main ∈ b.pages := by simp [Bucket.pages]
              have hcomp : Compared (maxOf s b) key := by
                rcases hcase with ⟨_, hin⟩ | ⟨_, hpass, _⟩
                · exact hin.compared
                · exact hpass.compared
              obtain ⟨n, records, frame, hn, hget, hframe⟩ :=
                h.frame_of_mem (mem_pages hb hmem)
              rw [wp_lift_ok]
              simp only [wp_bind]
              obtain ⟨main, overflow⟩ := b
              subst hn
              refine wp_place hframe data ?_ ?_
              · intro hfits d' hwrite
                have hlanded := @landed_of_place s rs key data frame n records before after
                  ⟨n, overflow⟩ d' h hmem hget hframe hwrite
                rw [wp_bind]
                refine wp_bump_max hcomp ?_
                refine ⟨key, before, ⟨n, overflow⟩, after, in_range, hkey, htarget, rfl, hpassed,
                  hsize, ?_⟩
                rcases hcase with ⟨hrange, hin⟩ | ⟨hrange, hpass, rfl⟩
                · exact Or.inl ⟨hrange, hin, hlanded⟩
                · exact Or.inr ⟨hrange, hpass, rfl, Or.inl ⟨room_of_fits hframe hfits, hlanded⟩⟩
              · intro _ d' hwrite
                have hchained := h.rebody_same hget hframe hwrite
                have hcount := hwrite.pageCount
                have hsize' := hsize
                rw [← hwrite.pageSize] at hsize'
                rcases hcase with ⟨rfl, hin⟩ | ⟨rfl, hpass, rfl⟩
                · refine wp_mono (insert_into_overflow_spec hchained hcomp hsize') ?_
                    (fun _ _ hE => hE.of_disk hcount)
                  intro rid s' hlanded
                  exact ⟨key, before, ⟨n, overflow⟩, after, true, hkey, htarget, rfl, hpassed,
                    hsize, Or.inl ⟨rfl, hin, hlanded.of_disk hcount⟩⟩
                · refine wp_mono (append_main_spec hchained hsize') ?_
                    (fun _ _ hE => hE.of_disk hcount)
                  intro rid s' hlanded
                  exact ⟨key, before, ⟨n, overflow⟩, [], false, hkey, htarget, rfl, hpassed,
                    hsize, Or.inr ⟨rfl, hpass, rfl, Or.inr (hlanded.of_disk hcount)⟩⟩

end Landing

end SoupDB.SequentialFile
