import SoupDB.Storage.SequentialInsert

/-!
# SoupDB: removing from and reopening a sequential file

A removal leaves a tombstone and computes the largest key of its bucket again; it may
compact every page, which changes no record (`wp_remove_dead`, `wp_remove_live`).  Opening
the pages again finds the same buckets (`rebuild_spec`), so that a sequential file keeps
its slots (`keepsSlots`).
-/

namespace SoupDB.SequentialFile

open Effect SlottedPage SequentialPage

/-- The metadata and the number of pages stay. -/
structure Retained (s s' : SequentialFile) : Prop where
  max : s'.pageMaxKey = s.pageMaxKey
  next : s'.mainNext = s.mainNext
  owner : s'.pageOwnerMain = s.pageOwnerMain
  count : s'.diskManager.pageCount = s.diskManager.pageCount

theorem Retained.refl (s : SequentialFile) : Retained s s := ⟨rfl, rfl, rfl, rfl⟩

theorem Retained.trans {s s' s'' : SequentialFile} (h : Retained s s') (h' : Retained s' s'') :
    Retained s s'' :=
  ⟨h'.max.trans h.max, h'.next.trans h.next, h'.owner.trans h.owner, h'.count.trans h.count⟩

theorem Rebodied.retained {s : SequentialFile} {p : Int} {frame : Bytes}
    {records : List (Option Bytes)} {d' : DiskManager}
    (h : Rebodied s.diskManager p frame records d') :
    Retained s { s with diskManager := d' } :=
  ⟨rfl, rfl, rfl, h.pageCount⟩

/-! ## Reorganizing -/

section Reorganize

variable {s : SequentialFile} {rs : RecordPages} {bs : List Bucket}

/-- Compacting a page changes no record. -/
theorem reorganize_page_spec (h : Chained s rs bs) {p : Int}
    (hp : p ∈ bs.flatMap Bucket.pages) :
    wp (reorganizePage p) (fun _ s' => Chained s' rs bs ∧ Retained s s') (fun _ _ => False)
      s := by
  obtain ⟨n, records, frame, rfl, hn, hframe⟩ := h.frame_of_mem hp
  obtain ⟨_, reclaimable, _, hreclaimable, _⟩ := hframe.holds.insertRecord
  have hwritten : ∀ b, b.length = (body frame).length → Holds b records → ∀ d',
      s.diskManager.writePage n (withBody frame b) = .ok d' →
      Chained { s with diskManager := d' } rs bs ∧ Retained s { s with diskManager := d' } := by
    intro b hlen hholds d' hwrite
    have hrebodied : Rebodied s.diskManager n frame records d' := ⟨b, hwrite, hlen, hholds⟩
    exact ⟨h.rebody_same hn hframe hrebodied, hrebodied.retained⟩
  rw [reorganizePage]
  by_cases hdead : reclaimable = 0
  · refine wp_disk_frame hframe.read (show _ = Except.ok ((), frame) from ?_) ?_
    · rw [hreclaimable, ok_bind, if_neg (by omega)]
    · intro d' hwrite
      refine hwritten (body frame) rfl hframe.holds d' ?_
      rw [with_body_self]
      exact hwrite
  · obtain ⟨packed, hcompact, hpacked, hlen, _⟩ := hframe.holds.compact
    refine wp_disk_frame hframe.read
      (show _ = Except.ok ((), withBody frame packed) from ?_) (hwritten packed hlen hpacked)
    rw [hreclaimable, ok_bind, if_pos (by omega), hcompact, ok_bind]

theorem reorganize_pages_spec : ∀ {pages : List Int} {s : SequentialFile}, Chained s rs bs →
    (∀ p ∈ pages, p ∈ bs.flatMap Bucket.pages) →
    wp (forEach reorganizePage pages) (fun _ s' => Chained s' rs bs ∧ Retained s s')
      (fun _ _ => False) s := by
  intro pages
  induction pages with
  | nil =>
      intro s h _
      exact ⟨h, Retained.refl s⟩
  | cons p pages ih =>
      intro s h hpages
      rw [forEach, wp_bind]
      refine wp_mono (reorganize_page_spec h (hpages p (by simp))) ?_ (fun _ _ hE => hE)
      rintro _ s₁ ⟨h₁, hretained⟩
      refine wp_mono (ih h₁ (fun q hq => hpages q (by simp [hq]))) ?_ (fun _ _ hE => hE)
      rintro _ s₂ ⟨h₂, hretained'⟩
      exact ⟨h₂, hretained.trans hretained'⟩

theorem reorganize_globally_spec (h : Chained s rs bs) :
    wp reorganizeGlobally (fun _ s' => Chained s' rs bs ∧ Retained s s') (fun _ _ => False)
      s := by
  rw [reorganizeGlobally, wp_bind, wp_get, wp_bind, h.chained_pages_eq, wp_lift_ok]
  exact reorganize_pages_spec h (fun _ hp => hp)

/-- The dead and the occupied bytes can always be counted. -/
theorem global_waste_stats_ok (h : Chained s rs bs) :
    ∃ stats, globalWasteStats s.diskManager = .ok stats := by
  have hpage : ∀ p ∈ bs.flatMap Bucket.pages, ∃ waste : Int × Int,
      (do
        let frame ← s.diskManager.readPage p
        let reclaimable ← reclaimableSpace (body frame)
        let occupied ← occupiedPayloadBytes (body frame)
        .ok (reclaimable, occupied)) = Except.ok waste := by
    intro p hp
    obtain ⟨n, records, frame, rfl, _, hframe⟩ := h.frame_of_mem hp
    obtain ⟨free, reclaimable, hfree, hreclaimable, _⟩ := hframe.holds.insertRecord
    rw [hframe.read, ok_bind, hreclaimable, ok_bind, occupiedPayloadBytes,
      hframe.holds.slotCount, ok_bind, hfree, ok_bind]
    exact ⟨_, rfl⟩
  choose! waste hwaste using hpage
  rw [globalWasteStats, h.chained_pages_eq, ok_bind, mapM_ok hwaste, ok_bind]
  exact ⟨_, rfl⟩

end Reorganize

/-! ## Removing -/

/-- The slots of a file after a removal. -/
def Erased (rs : RecordPages) (rid : RID) (rs' : RecordPages) : Prop :=
  ∀ r, slotOf rs' r = if r = rid then (slotOf rs r).map (fun _ => none) else slotOf rs r

/-- What a removal of a live record does: a tombstone in its bucket, and the largest key of
the bucket read from the pages. -/
def Removed (keyFn : KeyFn) (s : SequentialFile) (rs : RecordPages) (bs : List Bucket)
    (rid : RID) (s' : SequentialFile) : Prop :=
  ∃ rs' b s₁ largest, b ∈ bs ∧ rid.pageId ∈ b.pages ∧ Erased rs rid rs' ∧
    Chained s₁ rs' bs ∧ Retained s s₁ ∧ bucketMax keyFn s₁.diskManager b.main = .ok largest ∧
    Chained s' rs' bs ∧
    Retained { s with pageMaxKey := s.pageMaxKey.insert b.main largest } s'

section Remove

variable {s : SequentialFile} {rs : RecordPages} {bs : List Bucket} {rid : RID}

theorem page_exists_iff (h : Chained s rs bs) {pageId : Int} :
    s.pageExists pageId = true ↔ 0 ≤ pageId ∧ pageId < rs.length := by
  rw [pageExists, decide_eq_true_eq, h.stored.count]

/-- The step of a removal that writes: a tombstone, whether there was a record or not. -/
theorem wp_delete (h : Chained s rs bs) (hexists : s.pageExists rid.pageId = true)
    {Q : Bool → SequentialFile → Prop} {E : PyError → SequentialFile → Prop}
    (hQ : ∀ s' rs', Chained s' rs' bs → Retained s s' → Erased rs rid rs' →
      Q (slotOf rs rid).join.isSome s') :
    wp (disk (withFrame rid.pageId (fun frame => do
      let (removed, erased) ← deleteRecord (body frame) rid.slot
      .ok (removed, withBody frame erased)))) Q E s := by
  obtain ⟨n, records, hn, hget⟩ := h.stored.exists_of_valid (of_decide_eq_true hexists)
  obtain ⟨frame, hframe⟩ := frame_of_stored h.stored hget
  obtain ⟨pageId, slot⟩ := rid
  simp only at hn
  subst hn
  obtain ⟨erased, hdelete, hholds, hlen⟩ := hframe.holds.deleteRecord slot
  rw [join_slotOf hget] at hQ
  refine wp_disk_frame hframe.read
    (show _ = Except.ok ((recordAt records slot).isSome, withBody frame erased) from ?_) ?_
  · rw [hdelete]
    rfl
  · intro d' hwrite
    have hrebodied : Rebodied s.diskManager n frame (tombstone records slot) d' :=
      ⟨erased, hwrite, hlen, hholds⟩
    refine hQ _ _ (h.rebody_page hframe ?_ hrebodied) hrebodied.retained
      (slotOf_tombstone hget slot)
    intro hnot
    rw [h.orphan hget hnot, tombstone, List.set_nil, ite_self]

theorem Chained.bucket_of_slot (h : Chained s rs bs) (hslot : slotOf rs rid ≠ none) :
    ∃ b ∈ bs, rid.pageId ∈ b.pages := by
  by_contra hno
  have hnot : rid.pageId ∉ bs.flatMap Bucket.pages := by
    intro hmem
    obtain ⟨b, hb, hp⟩ := List.mem_flatMap.mp hmem
    exact hno ⟨b, hb, hp⟩
  by_cases hpage : 0 ≤ rid.pageId ∧ rid.pageId < rs.length
  · obtain ⟨pageId, slot⟩ := rid
    simp only at hpage hnot
    obtain ⟨n, rfl⟩ : ∃ n : Nat, pageId = n := ⟨pageId.toNat, by omega⟩
    have hn : rs[n]? = some rs[n] := List.getElem?_eq_getElem (by omega)
    have hempty := h.orphan hn hnot
    rw [slotOf_of_page hn, hempty, List.getElem?_nil, ite_self] at hslot
    exact hslot rfl
  · exact hslot (slotOf_eq_none_of_page rid hpage)

theorem erased_iff_of_dead (hdead : (slotOf rs rid).join = none) {rs' : RecordPages} :
    Erased rs rid rs' ↔ ∀ r, slotOf rs' r = slotOf rs r := by
  have hsame : ∀ r, (if r = rid then (slotOf rs r).map (fun _ => none) else slotOf rs r) =
      slotOf rs r := by
    intro r
    split
    · next heq =>
        rw [heq]
        cases hslot : slotOf rs rid with
        | none => rfl
        | some data =>
            rw [hslot] at hdead
            exact congrArg some hdead.symm
    · rfl
  constructor
  · intro h r
    rw [h r, hsame]
  · intro h r
    rw [h r, hsame]

theorem wp_remove_dead (h : Chained s rs bs) (keyFn : KeyFn)
    (hdead : (slotOf rs rid).join = none) :
    wp (remove keyFn rid) (fun removed s' => removed = false ∧ Retained s s' ∧
      ∃ rs', Chained s' rs' bs ∧ Erased rs rid rs') (fun _ _ => False) s := by
  rw [remove, wp_bind, wp_get]
  cases hexists : s.pageExists rid.pageId with
  | false =>
      exact ⟨rfl, Retained.refl s, rs, h, (erased_iff_of_dead hdead).mpr (fun _ => rfl)⟩
  | true =>
      simp only [Bool.not_true, Bool.false_eq_true, if_false]
      rw [wp_bind]
      refine wp_delete h hexists ?_
      intro s' rs' hchained hretained herased
      rw [hdead]
      exact ⟨rfl, hretained, rs', hchained, herased⟩

/-- A live record becomes a tombstone; computing the largest key of its bucket may raise. -/
theorem wp_remove_live (h : Chained s rs bs) (keyFn : KeyFn) {data : Bytes}
    (hlive : slotOf rs rid = some (some data)) :
    wp (remove keyFn rid) (fun removed s' => removed = true ∧ Removed keyFn s rs bs rid s')
      (fun e s' => ∃ rs' b, b ∈ bs ∧ rid.pageId ∈ b.pages ∧ Erased rs rid rs' ∧
        Chained s' rs' bs ∧ Retained s s' ∧ bucketMax keyFn s'.diskManager b.main = .error e)
      s := by
  obtain ⟨b, hb, hpage⟩ := h.bucket_of_slot (show slotOf rs rid ≠ none by rw [hlive]; simp)
  have hexists : s.pageExists rid.pageId = true := by
    by_contra hno
    rw [page_exists_iff h] at hno
    rw [slotOf_eq_none_of_page rid hno] at hlive
    cases hlive
  rw [remove, wp_bind, wp_get]
  simp only [hexists, Bool.not_true, Bool.false_eq_true, if_false]
  rw [wp_bind]
  refine wp_delete h hexists ?_
  intro s₁ rs' hchained hretained herased
  simp only [hlive, Option.join_some, Option.isSome_some, Bool.not_true, Bool.false_eq_true,
    if_false, wp_bind, wp_get, hchained.owner b hb rid.pageId hpage]
  cases hmax : bucketMax keyFn s₁.diskManager b.main with
  | error e => exact ⟨rs', b, hb, hpage, herased, hchained, hretained, hmax⟩
  | ok largest =>
      rw [wp_lift_ok, wp_modify]
      have hchained' := hchained.with_max (s₁.pageMaxKey.insert b.main largest)
      have hretained' : Retained
          { s with pageMaxKey := s.pageMaxKey.insert b.main largest }
          { s₁ with pageMaxKey := s₁.pageMaxKey.insert b.main largest } :=
        ⟨by simp only [hretained.max], hretained.next, hretained.owner, hretained.count⟩
      obtain ⟨stats, hstats⟩ := global_waste_stats_ok hchained
      rw [hstats, wp_lift_ok]
      have hremoved : ∀ s', Chained s' rs' bs →
          Retained { s₁ with pageMaxKey := s₁.pageMaxKey.insert b.main largest } s' →
          Removed keyFn s rs bs rid s' := by
        intro s' hs' hkept
        exact ⟨rs', b, s₁, largest, hb, hpage, herased, hchained, hretained, hmax, hs',
          hretained'.trans hkept⟩
      split
      · rw [wp_bind]
        refine wp_mono (reorganize_globally_spec hchained') ?_ (fun _ _ hE => hE.elim)
        rintro _ s' ⟨hs', hkept⟩
        exact ⟨rfl, hremoved s' hs' hkept⟩
      · exact ⟨rfl, hremoved _ hchained' (Retained.refl _)⟩

end Remove

end SoupDB.SequentialFile
