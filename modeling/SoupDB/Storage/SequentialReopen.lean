import SoupDB.Storage.SequentialRemove
import SoupDB.Storage.HeapFile

/-!
# SoupDB: opening a sequential file again

Opening the pages of a file computes the metadata bucket by bucket; it raises only where
the largest key of a bucket cannot be computed (`rebuild_ok`, `rebuild_returns`).  The
buckets are those the file had.  With this every operation is known, and RIDs are kept in
every run on a heap file or a sequential file (`rids_stable`).
-/

namespace SoupDB
namespace SequentialFile

open Effect SlottedPage SequentialPage

/-- The metadata describes the pages of the first buckets, and nothing else. -/
structure Built (keyFn : KeyFn) (d : DiskManager) (done : List Bucket) (t : SequentialFile) :
    Prop where
  disk : t.diskManager = d
  max : ∀ b ∈ done, ∃ largest, bucketMax keyFn d b.main = .ok largest ∧
    t.pageMaxKey.lookup b.main = some largest
  next : ∀ b ∈ done, ∀ next first, Link d b.main next first →
    t.mainNext.lookup b.main = some next
  owner : ∀ b ∈ done, ∀ p ∈ b.pages, t.pageOwnerMain.lookup p = some b.main
  max_none : ∀ p, p ∉ done.map Bucket.main → t.pageMaxKey.lookup p = none
  next_none : ∀ p, p ∉ done.map Bucket.main → t.mainNext.lookup p = none
  owner_none : ∀ p, p ∉ done.flatMap Bucket.pages → t.pageOwnerMain.lookup p = none

section Rebuild

variable {s t t' : SequentialFile} {rs : RecordPages} {bs done rest : List Bucket} {b : Bucket}
  {keyFn : KeyFn} {d : DiskManager}

theorem Link.next_unique {p : Int} {next next' first first' : Option Int}
    (h : Link d p next first) (h' : Link d p next' first') : next = next' := by
  obtain ⟨frame, hread, hnext⟩ := h.nextPageId
  obtain ⟨frame', hread', hnext'⟩ := h'.nextPageId
  obtain rfl : frame = frame' := Except.ok.inj (hread.symm.trans hread')
  exact Except.ok.inj (hnext.symm.trans hnext')

theorem lookup_owners (owner : Dict Int Int) (mainId q : Int) : ∀ pages : List Int,
    (pages.foldl (fun owner pageId => owner.insert pageId mainId) owner).lookup q =
      if q ∈ pages then some mainId else owner.lookup q := by
  intro pages
  induction pages generalizing owner with
  | nil => rfl
  | cons p pages ih =>
      rw [List.foldl_cons, ih, Dict.lookup_insert_eq]
      simp only [List.mem_cons]
      by_cases hq : q ∈ pages
      · rw [if_pos hq, if_pos (Or.inr hq)]
      · by_cases hp : q = p
        · rw [if_neg hq, if_pos hp, if_pos (Or.inl hp)]
        · rw [if_neg hq, if_neg hp, if_neg (by tauto)]

theorem rebuild_bucket_eq (h : Chained s rs bs) (keyFn : KeyFn) (hb : b ∈ bs)
    (hdisk : t.diskManager = s.diskManager) :
    ∃ next first, Link s.diskManager b.main next first ∧
      rebuildBucket keyFn t b.main =
        (bucketMax keyFn s.diskManager b.main).map (fun largest =>
          { t with
            pageOwnerMain := b.pages.foldl
              (fun owner pageId => owner.insert pageId b.main) t.pageOwnerMain
            pageMaxKey := t.pageMaxKey.insert b.main largest
            mainNext := t.mainNext.insert b.main next }) := by
  obtain ⟨next, hlink⟩ := h.first b hb
  obtain ⟨frame, hread, hnext⟩ := hlink.nextPageId
  refine ⟨next, _, hlink, ?_⟩
  rw [rebuildBucket, hdisk, h.bucket_pages_eq hb, ok_bind, hread, ok_bind, hnext, ok_bind]
  cases bucketMax keyFn s.diskManager b.main <;> rfl

theorem Built.step (h : Chained s rs (done ++ b :: rest))
    (hbuilt : Built keyFn s.diskManager done t)
    (hround : rebuildBucket keyFn t b.main = .ok t') :
    Built keyFn s.diskManager (done ++ [b]) t' := by
  obtain ⟨next, first, hlink, hrebuild⟩ :=
    rebuild_bucket_eq h keyFn (show b ∈ done ++ b :: rest by simp) hbuilt.disk
  rw [hrebuild] at hround
  cases hmax : bucketMax keyFn s.diskManager b.main with
  | error e =>
      rw [hmax] at hround
      cases hround
  | ok largest =>
      rw [hmax] at hround
      cases hround
      have hnodup := h.nodup
      rw [List.flatMap_append, List.flatMap_cons] at hnodup
      have hcross := (List.nodup_append.mp hnodup).2.2
      have hother : ∀ c ∈ done, ∀ p ∈ c.pages, p ∉ b.pages := by
        intro c hc p hp hpb
        exact hcross p (List.mem_flatMap.mpr ⟨c, hc, hp⟩) p (List.mem_append_left _ hpb) rfl
      have hmain : ∀ c ∈ done, c.main ≠ b.main := by
        intro c hc heq
        refine hother c hc c.main (by simp [Bucket.pages]) ?_
        rw [heq]
        simp [Bucket.pages]
      refine ⟨hbuilt.disk, ?_, ?_, ?_, ?_, ?_, ?_⟩
      · intro c hc
        simp only [Dict.lookup_insert_eq]
        rcases List.mem_append.mp hc with hc | hc
        · rw [if_neg (hmain c hc)]
          exact hbuilt.max c hc
        · rw [List.mem_singleton.mp hc, if_pos rfl]
          exact ⟨largest, hmax, rfl⟩
      · intro c hc next' first' hlink'
        simp only [Dict.lookup_insert_eq]
        rcases List.mem_append.mp hc with hc | hc
        · rw [if_neg (hmain c hc)]
          exact hbuilt.next c hc next' first' hlink'
        · rw [List.mem_singleton.mp hc] at hlink' ⊢
          rw [if_pos rfl, hlink.next_unique hlink']
      · intro c hc p hp
        simp only [lookup_owners]
        rcases List.mem_append.mp hc with hc | hc
        · rw [if_neg (hother c hc p hp)]
          exact hbuilt.owner c hc p hp
        · rw [List.mem_singleton.mp hc] at hp ⊢
          rw [if_pos hp]
      · intro p hp
        rw [List.map_append, List.mem_append, not_or] at hp
        simp only [Dict.lookup_insert_eq]
        rw [if_neg (by simpa using hp.2)]
        exact hbuilt.max_none p hp.1
      · intro p hp
        rw [List.map_append, List.mem_append, not_or] at hp
        simp only [Dict.lookup_insert_eq]
        rw [if_neg (by simpa using hp.2)]
        exact hbuilt.next_none p hp.1
      · intro p hp
        rw [List.flatMap_append, List.mem_append, not_or] at hp
        simp only [lookup_owners]
        rw [if_neg (by simpa using hp.2)]
        exact hbuilt.owner_none p hp.1

theorem Built.run : ∀ {rest done : List Bucket} {t t' : SequentialFile},
    Chained s rs (done ++ rest) → Built keyFn s.diskManager done t →
    (rest.map Bucket.main).foldlM (rebuildBucket keyFn) t = .ok t' →
    Built keyFn s.diskManager (done ++ rest) t' := by
  intro rest
  induction rest with
  | nil =>
      intro done t t' _ hbuilt hrun
      cases hrun
      rwa [List.append_nil]
  | cons b rest ih =>
      intro done t t' h hbuilt hrun
      rw [List.map_cons, List.foldlM_cons, bind_eq_ok] at hrun
      obtain ⟨t₁, hround, hrun⟩ := hrun
      have hbuilt₁ := Built.step h hbuilt hround
      rw [List.append_cons] at h ⊢
      exact ih h hbuilt₁ hrun

/-- A file whose metadata was computed has the same buckets. -/
theorem Built.chained (h : Chained s rs bs) (hbuilt : Built keyFn s.diskManager bs t) :
    Chained t rs bs := by
  have hdisk := hbuilt.disk
  refine ⟨?_, ?_, ?_, ?_, ?_, hbuilt.owner, h.nodup, h.head, h.orphan⟩
  · rw [hdisk]
    exact h.stored
  · rw [hdisk]
    exact h.mains
  · rw [hdisk]
    exact h.first
  · rw [hdisk]
    exact h.overflow
  · refine h.mains.mono (fun p hp next hlink => ?_)
    obtain ⟨b, hb, rfl⟩ := List.mem_map.mp hp
    obtain ⟨first, hlink⟩ := hlink
    exact hbuilt.next b hb next first hlink

theorem rebuild_ok (h : Chained s rs bs)
    (hrebuild : rebuildChainMetadata keyFn s.diskManager = .ok t) :
    Built keyFn s.diskManager bs t := by
  rw [rebuildChainMetadata, h.main_pages_eq, ok_bind] at hrebuild
  have hstart : Built keyFn s.diskManager [] ⟨s.diskManager, ∅, ∅, ∅⟩ := by
    refine ⟨rfl, ?_, ?_, ?_, fun _ _ => rfl, fun _ _ => rfl, fun _ _ => rfl⟩
    · intro b hb
      cases hb
    · intro b hb
      cases hb
    · intro b hb
      cases hb
  have hbuilt := Built.run (show Chained s rs ([] ++ bs) from h) hstart hrebuild
  rwa [List.nil_append] at hbuilt

theorem rebuild_returns (h : Chained s rs bs)
    (hmax : ∀ b ∈ bs, ∃ largest, bucketMax keyFn s.diskManager b.main = .ok largest) :
    ∃ t, rebuildChainMetadata keyFn s.diskManager = .ok t := by
  have hrun : ∀ (cs : List Bucket) (t : SequentialFile), (∀ b ∈ cs, b ∈ bs) →
      t.diskManager = s.diskManager →
      ∃ t', (cs.map Bucket.main).foldlM (rebuildBucket keyFn) t = .ok t' := by
    intro cs
    induction cs with
    | nil => exact fun t _ _ => ⟨t, rfl⟩
    | cons b cs ih =>
        intro t hcs hdisk
        obtain ⟨largest, hlargest⟩ := hmax b (hcs b (by simp))
        obtain ⟨next, first, _, hround⟩ :=
          rebuild_bucket_eq h keyFn (hcs b (by simp)) hdisk
        rw [hlargest] at hround
        rw [List.map_cons, List.foldlM_cons, hround]
        exact ih _ (fun c hc => hcs c (by simp [hc])) hdisk
  rw [rebuildChainMetadata, h.main_pages_eq, ok_bind]
  exact hrun bs _ (fun _ hb => hb) rfl

end Rebuild

/-! ## New files -/

section New

variable {pageSize : Nat} {s : SequentialFile} {keyFn : KeyFn}

/-- A file is only made of pages of a size their body can say. -/
theorem stored_new (hinit : init keyFn ⟨pageSize, []⟩ = .ok s) :
    Stored SequentialPage.HEADER_SIZE ⟨pageSize, []⟩ [] := by
  have hbounds : SequentialPage.HEADER_SIZE + 4 ≤ pageSize ∧
      pageSize < SequentialPage.HEADER_SIZE + 65536 := by
    cases hframe : SequentialPage.newPage pageSize MAIN with
    | ok frame =>
        rw [SequentialPage.newPage, bind_eq_ok] at hframe
        obtain ⟨_, _, hframe⟩ := hframe
        rw [bind_eq_ok] at hframe
        obtain ⟨_, hbody, _⟩ := hframe
        have hsize := new_page_bounds hbody
        rw [bodySize] at hsize
        omega
    | error e =>
        have hwp : wp (newPage MAIN) (fun _ _ => False) (fun _ _ => True)
            ⟨⟨pageSize, []⟩, ∅, ∅, ∅⟩ := by
          simp only [newPage, wp_bind, wp_get, disk, wp_focus, wp_modify]
          refine wp_with_frame_error
            (show _ = Except.ok (List.replicate pageSize (0 : UInt8)) from rfl)
            (show _ = Except.error e from ?_) trivial
          rw [hframe]
          rfl
        rw [init] at hinit
        rcases hrun : newPage MAIN ⟨⟨pageSize, []⟩, ∅, ∅, ∅⟩ with ⟨e | p, s'⟩
        · simp only [DiskManager.pageCount, List.length_nil, if_true, hrun] at hinit
          cases hinit
        · exact (wp_ok hwp hrun).elim
  exact ⟨hbounds.1, hbounds.2, rfl, by simp⟩

theorem init_new (hinit : init keyFn ⟨pageSize, []⟩ = .ok s) :
    Chained s [[]] [⟨MAIN_HEAD, []⟩] ∧ Tidy s [⟨MAIN_HEAD, []⟩] ∧
      s.pageMaxKey.lookup MAIN_HEAD = some .null := by
  have hstored := stored_new hinit
  have hwp : wp (newPage MAIN) (fun _ s => Chained s [[]] [⟨MAIN_HEAD, []⟩] ∧
      Tidy s [⟨MAIN_HEAD, []⟩] ∧ s.pageMaxKey.lookup MAIN_HEAD = some .null) (fun _ _ => True)
      ⟨⟨pageSize, []⟩, ∅, ∅, ∅⟩ := by
    refine wp_new_page hstored (by decide) ?_
    intro frame d' happended
    have hlink : Link d' MAIN_HEAD none none := happended.link_new
    have hlookup : ∀ {V : Type} (v : V) (p : Int),
        ((∅ : Dict Int V).insert (0 : Int) v).lookup p = if p = 0 then some v else none :=
      fun v p => Dict.lookup_insert_eq _ _ _ _
    rw [if_pos rfl]
    refine ⟨⟨happended.stored hstored, ⟨⟨none, hlink⟩, trivial⟩, ?_, ?_,
      ⟨(hlookup none 0).trans (if_pos rfl), trivial⟩, ?_,
      List.nodup_singleton _, rfl, ?_⟩, ⟨?_, ?_, ?_, ?_⟩,
      (hlookup Value.null 0).trans (if_pos rfl)⟩
    · intro b hb
      rw [List.mem_singleton.mp hb]
      exact ⟨none, hlink⟩
    · intro b hb
      rw [List.mem_singleton.mp hb]
      trivial
    · intro b hb p hp
      rw [List.mem_singleton.mp hb] at hp ⊢
      rw [List.mem_singleton.mp hp]
      exact (hlookup (0 : Int) 0).trans (if_pos rfl)
    · intro p records hp hnot
      cases p with
      | zero => exact absurd (List.mem_singleton.mpr rfl) hnot
      | succ p => cases hp
    · intro p hp
      rw [happended.pageCount] at hp
      have hzero : p = 0 := Nat.lt_one_iff.mp hp
      rw [hzero]
      exact List.mem_singleton.mpr rfl
    · intro p hp
      exact (hlookup Value.null p).trans (if_neg (fun heq => hp (by simp [heq, MAIN_HEAD])))
    · intro p hp
      exact (hlookup none p).trans (if_neg (fun heq => hp (by simp [heq, MAIN_HEAD])))
    · intro p hp
      exact (hlookup (0 : Int) p).trans
        (if_neg (fun heq => hp (by simp [heq, Bucket.pages, MAIN_HEAD])))
  rw [init] at hinit
  rcases hrun : newPage MAIN ⟨⟨pageSize, []⟩, ∅, ∅, ∅⟩ with ⟨e | p, s'⟩
  · simp only [DiskManager.pageCount, List.length_nil, if_true, hrun] at hinit
    cases hinit
  · simp only [DiskManager.pageCount, List.length_nil, if_true, hrun] at hinit
    cases hinit
    have hnew := wp_ok hwp hrun
    exact hnew

end New

/-! ## Every operation -/

section Slots

variable {s : SequentialFile} {rs : RecordPages} {bs : List Bucket}

theorem fetch_spec (h : Chained s rs bs) (rid : RID) :
    fetch rid s = (.ok (slotOf rs rid).join, s) := by
  rw [fetch, run_bind_ok _ (run_get s)]
  cases hexists : s.pageExists rid.pageId with
  | true =>
      obtain ⟨n, records, hn, hget⟩ := h.stored.exists_of_valid (of_decide_eq_true hexists)
      obtain ⟨frame, hframe⟩ := frame_of_stored h.stored hget
      obtain ⟨pageId, slot⟩ := rid
      simp only at hn hexists
      subst hn
      simp only [Bool.not_true, Bool.false_eq_true, if_false, disk, focus, read_frame_eq,
        hframe.read]
      rw [join_slotOf hget]
      exact congrArg (fun x => (x, s)) (hframe.holds.readRecord slot)
  | false =>
      have hnone := slotOf_eq_none_of_page rid (fun hin => by
        rw [(page_exists_iff h).mpr hin] at hexists
        cases hexists)
      rw [hnone]
      rfl

theorem Chained.rebuild_of_init (h : Chained s rs bs) {keyFn : KeyFn} {t : SequentialFile}
    (hinit : init keyFn s.diskManager = .ok t) :
    rebuildChainMetadata keyFn s.diskManager = .ok t := by
  rw [init, if_neg h.page_count_ne] at hinit
  exact hinit

theorem Inserted.landed {keyFn : KeyFn} {data : Bytes} {rid : RID} {s' : SequentialFile}
    (h : Inserted keyFn s rs bs data rid s') :
    ∃ key b current rs' b' bs', Landed s rs key data rid b current s' rs' b' ∧
      Chained s' rs' bs' := by
  obtain ⟨key, before, b, after, in_range, _, _, _, _, _, hcase⟩ := h
  rcases hcase with ⟨_, _, hlanded⟩ | ⟨_, _, _, ⟨_, hlanded⟩ | hlanded⟩
  · obtain ⟨rs', b', hlanded, hchained, _⟩ := hlanded
    exact ⟨key, b, _, rs', b', _, hlanded, hchained⟩
  · obtain ⟨rs', b', hlanded, hchained, _⟩ := hlanded
    exact ⟨key, b, _, rs', b', _, hlanded, hchained⟩
  · obtain ⟨rs', new, hlanded, hchained, _⟩ := hlanded
    exact ⟨key, _, _, rs', _, _, hlanded, hchained⟩

/-- The file has buckets that carry these records. -/
def Inv (s : SequentialFile) (rs : RecordPages) : Prop := ∃ bs, Chained s rs bs

theorem remove_spec (h : Inv s rs) (keyFn : KeyFn) (rid : RID) :
    ∃ rs', Inv (remove keyFn rid s).2 rs' ∧ Erased rs rid rs' := by
  obtain ⟨bs, h⟩ := h
  cases hlive : (slotOf rs rid).join with
  | none =>
      have hwp := wp_remove_dead h keyFn hlive
      rcases hrun : remove keyFn rid s with ⟨e | removed, s'⟩
      · exact (wp_error hwp hrun).elim
      · obtain ⟨_, _, rs', hchained, herased⟩ := wp_ok hwp hrun
        exact ⟨rs', ⟨bs, hchained⟩, herased⟩
  | some data =>
      have hwp := wp_remove_live h keyFn (Option.join_eq_some_iff.mp hlive)
      rcases hrun : remove keyFn rid s with ⟨e | removed, s'⟩
      · obtain ⟨rs', _, _, _, herased, hchained, _⟩ := wp_error hwp hrun
        exact ⟨rs', ⟨bs, hchained⟩, herased⟩
      · obtain ⟨_, rs', _, _, _, _, _, herased, _, _, _, hchained, _⟩ := wp_ok hwp hrun
        exact ⟨rs', ⟨bs, hchained⟩, herased⟩

theorem reopen_spec (h : Inv s rs) (keyFn : KeyFn) : Inv (reopen keyFn s).2 rs := by
  obtain ⟨bs, h⟩ := h
  rw [reopen, run_bind_ok _ (run_get s), run_bind, run_lift]
  cases hinit : init keyFn s.diskManager with
  | error e => exact ⟨bs, h⟩
  | ok t => exact ⟨bs, (rebuild_ok h (h.rebuild_of_init hinit)).chained h⟩

theorem keepsSlots (keyFn : KeyFn) : (organization keyFn).KeepsSlots Inv where
  fetch := by
    rintro s rs ⟨bs, h⟩ rid
    exact fetch_spec h rid
  insert := by
    rintro s rs ⟨bs, h⟩ data
    refine wp_mono (insert_spec h keyFn data) ?_ ?_
    · intro rid s' hinserted
      obtain ⟨_, _, _, rs', _, bs', hlanded, hchained⟩ := hinserted.landed
      exact ⟨hlanded.free, rs', ⟨bs', hchained⟩, hlanded.slots⟩
    · rintro _ s' hfailed
      obtain ⟨rs', hchained, hslots⟩ := hfailed.chained
      exact ⟨rs', ⟨bs, hchained⟩, hslots⟩
  remove := fun h rid => remove_spec h keyFn rid
  reopen := fun h => ⟨_, reopen_spec h keyFn, fun _ => rfl⟩

end Slots

theorem always_keepsRids {pageSize : Nat} {s : SequentialFile} (keyFn : KeyFn)
    (hinit : init keyFn ⟨pageSize, []⟩ = .ok s) (actions : List Action) :
    Always (organization keyFn).KeepsRids (organization keyFn).step
      ⟨s, FileOrganization.empty⟩ actions := by
  obtain ⟨hchained, _⟩ := init_new hinit
  exact (keepsSlots keyFn).always ⟨_, hchained⟩ slotOf_new actions

end SequentialFile

/-- In every state of every run on a new heap file or a new sequential file, every RID shows
the record it was given out for until that record is removed, and nothing from then on; and
the next insert gives out a RID that was never given out before. -/
theorem rids_stable :
    (∀ (pageSize : Nat) (choose : List Int → Nat) (heap : HeapFile),
      HeapFile.init ⟨pageSize, []⟩ = .ok heap → ∀ actions : List Action,
        Always (HeapFile.organization choose).KeepsRids (HeapFile.organization choose).step
          ⟨heap, FileOrganization.empty⟩ actions) ∧
    ∀ (pageSize : Nat) (keyFn : KeyFn) (file : SequentialFile),
      SequentialFile.init keyFn ⟨pageSize, []⟩ = .ok file → ∀ actions : List Action,
        Always (SequentialFile.organization keyFn).KeepsRids
          (SequentialFile.organization keyFn).step ⟨file, FileOrganization.empty⟩ actions := by
  constructor
  · intro pageSize choose heap hinit actions
    exact HeapFile.always_keepsRids choose hinit actions
  · intro pageSize keyFn file hinit actions
    exact SequentialFile.always_keepsRids keyFn hinit actions

theorem rids_stable_64 : ∃ heap file,
    HeapFile.init ⟨64, []⟩ = .ok heap ∧
    SequentialFile.init (fun data => .ok (.int data.length)) ⟨64, []⟩ = .ok file ∧
    Always (HeapFile.organization (fun _ => 0)).KeepsRids
      (HeapFile.organization (fun _ => 0)).step ⟨heap, FileOrganization.empty⟩
      [.insert [1, 2], .remove ⟨0, 0⟩, .insert [3], .reopen] ∧
    Always (SequentialFile.organization (fun data => .ok (.int data.length))).KeepsRids
      (SequentialFile.organization (fun data => .ok (.int data.length))).step
      ⟨file, FileOrganization.empty⟩ [.insert [1, 2], .remove ⟨0, 0⟩, .insert [3], .reopen] :=
  ⟨_, _, rfl, rfl, rids_stable.1 64 _ _ rfl _, rids_stable.2 64 _ _ rfl _⟩

end SoupDB
