import SoupDB.Storage.SequentialReopen

/-!
# SoupDB: the keys of a sequential file

The largest key of a bucket is a key of one of its records, and no key of the bucket is
above it (`KeyedBucket`).  That holds as long as the keys of a bucket can be compared with
each other: inserting a key that can be compared with those of its bucket keeps it
(`Keyed.inserted`), and so does removing (`Keyed.removed`).  Nothing is asked of keys in
different buckets.
-/

namespace SoupDB.SequentialFile

open Effect SlottedPage SequentialPage Value List

/-! ## Rows -/

/-- The live records of a page, with their slots. -/
def live (records : List (Option Bytes)) : List (Nat × Bytes) :=
  (range records.length).filterMap
    (fun (slot : Nat) => (recordAt records slot).map (fun data => (slot, data)))

def pageAt (rs : RecordPages) (p : Int) : List (Option Bytes) :=
  if p < 0 then [] else rs.getD p.toNat []

/-- The live records of some pages: page, slot and data. -/
def rowsOf (rs : RecordPages) (pages : List Int) : List (Int × Nat × Bytes) :=
  pages.flatMap (fun p => (live (pageAt rs p)).map (fun row => (p, row)))

section Rows

variable {rs : RecordPages} {records : List (Option Bytes)} {frame : Bytes} {pages : List Int}

theorem mem_live {slot : Nat} {data : Bytes} :
    (slot, data) ∈ live records ↔ recordAt records slot = some data := by
  simp only [live, mem_filterMap, mem_range, Option.map_eq_some_iff, Prod.mk.injEq]
  constructor
  · rintro ⟨slot', _, data', hdata, rfl, rfl⟩
    exact hdata
  · intro hdata
    refine ⟨slot, ?_, data, hdata, rfl, rfl⟩
    by_contra hlen
    rw [recordAt_of_length_le (by omega)] at hdata
    cases hdata

theorem nodup_live : (live records).Nodup := by
  refine List.Nodup.filterMap ?_ nodup_range
  intro slot slot' row hrow hrow'
  simp only [Option.mem_def, Option.map_eq_some_iff] at hrow hrow'
  obtain ⟨_, _, rfl⟩ := hrow
  obtain ⟨_, _, heq⟩ := hrow'
  exact (Prod.mk.inj heq).1.symm

theorem recordAt_pageAt (p : Int) (slot : Int) :
    recordAt (pageAt rs p) slot = (slotOf rs ⟨p, slot⟩).join := by
  rw [recordAt, pageAt, slotOf]
  by_cases hp : p < 0
  · rw [if_pos hp, if_pos (Or.inl hp)]
    split <;> rfl
  · by_cases hslot : slot < 0
    · rw [if_pos hslot, if_pos (Or.inr hslot)]
      rfl
    · rw [if_neg hslot, if_neg hp, if_neg (by tauto), getD_eq_getElem?_getD]
      cases rs[p.toNat]? <;> rfl

theorem slot_of_live {p slot : Int} {data : Option Bytes}
    (h : slotOf rs ⟨p, slot⟩ = some data) : ∃ n : Nat, slot = n := by
  refine ⟨slot.toNat, ?_⟩
  by_contra hneg
  rw [slotOf, if_pos (Or.inr (show slot < 0 by omega))] at h
  cases h

theorem mem_rowsOf {p : Int} {slot : Nat} {data : Bytes} :
    (p, slot, data) ∈ rowsOf rs pages ↔ p ∈ pages ∧ slotOf rs ⟨p, slot⟩ = some (some data) := by
  simp only [rowsOf, mem_flatMap, mem_map, Prod.mk.injEq]
  constructor
  · rintro ⟨p', hp', row, hrow, rfl, rfl⟩
    rw [mem_live, recordAt_pageAt, Option.join_eq_some_iff] at hrow
    exact ⟨hp', hrow⟩
  · rintro ⟨hp, hdata⟩
    refine ⟨p, hp, (slot, data), ?_, rfl, rfl⟩
    rw [mem_live, recordAt_pageAt, hdata, Option.join_some]

theorem nodup_rowsOf (h : pages.Nodup) : (rowsOf rs pages).Nodup := by
  refine nodup_flatMap.mpr ⟨?_, ?_⟩
  · intro p _
    exact nodup_live.map (fun a b heq => (Prod.mk.inj heq).2)
  · refine h.imp ?_
    intro p q hpq row hp hq
    obtain ⟨_, _, rfl⟩ := mem_map.mp hp
    obtain ⟨_, _, heq⟩ := mem_map.mp hq
    exact hpq (Prod.mk.inj heq).1.symm

theorem live_records_eq {b : Bytes} (h : Holds b records) :
    liveRecords b = .ok (live records) := by
  have hread : ∀ slot ∈ range records.length, (do
      let data ← readRecord b (slot : Nat)
      Except.ok (data.map (fun data => (slot, data)))) =
        .ok ((recordAt records slot).map (fun data => (slot, data))) := by
    intro slot _
    rw [h.readRecord, ok_bind]
  rw [liveRecords, h.slotCount, ok_bind, mapM_ok hread, ok_bind, live, filterMap_map]
  rfl

end Rows

/-! ## Keys -/

/-- The key of a record; NULL where the key cannot be computed. -/
def keyOf (keyFn : KeyFn) (data : Bytes) : Value :=
  match keyFn data with
  | .ok key => key
  | .error _ => .null

def HasKey (keyFn : KeyFn) (rs : RecordPages) (b : Bucket) (key : Value) : Prop :=
  ∃ rid data, rid.pageId ∈ b.pages ∧ slotOf rs rid = some (some data) ∧ keyFn data = .ok key

/-- The value is a largest key or `==` to one, or NULL where there are no keys. -/
def IsMax (P : Value → Prop) (largest : Value) : Prop :=
  ((∀ k, ¬ P k) ∧ largest = .null) ∨
    ∃ m, P m ∧ Value.Same m largest ∧ ∀ k, P k → ord k ≤ ord m

def AllKeyed (keyFn : KeyFn) (rs : RecordPages) : Prop :=
  ∀ ⦃rid : RID⦄ ⦃data : Bytes⦄, slotOf rs rid = some (some data) → ∃ key, keyFn data = .ok key

def ComparableKeys (keyFn : KeyFn) (rs : RecordPages) (b : Bucket) : Prop :=
  ∀ ⦃rid rid' : RID⦄ ⦃data data' : Bytes⦄ ⦃k k' : Value⦄, rid ≠ rid' →
    rid.pageId ∈ b.pages → slotOf rs rid = some (some data) → keyFn data = .ok k →
    rid'.pageId ∈ b.pages → slotOf rs rid' = some (some data') → keyFn data' = .ok k' →
    Value.Comparable k k'

/-- The keys of the bucket can be compared with each other, and this is the largest one. -/
structure KeyedBucket (keyFn : KeyFn) (rs : RecordPages) (b : Bucket) (largest : Value) :
    Prop where
  comparable : ComparableKeys keyFn rs b
  max : IsMax (HasKey keyFn rs b) largest

/-- Every record has a key, and the kept largest keys are those of the buckets. -/
structure Keyed (keyFn : KeyFn) (s : SequentialFile) (rs : RecordPages) (bs : List Bucket) :
    Prop where
  keyed : AllKeyed keyFn rs
  bucket : ∀ b ∈ bs, KeyedBucket keyFn rs b (maxOf s b)

section Max

variable {P Q : Value → Prop} {key largest : Value}

theorem IsMax.congr (h : IsMax P largest) (hPQ : ∀ k, Q k ↔ P k) : IsMax Q largest := by
  have heq : Q = P := funext (fun k => propext (hPQ k))
  rw [heq]
  exact h

theorem larger_of_comparable {c : Value} (h : Value.Comparable c key) :
    larger c key = .ok (if ord c < ord key then key else c) := by
  rw [larger_eq (gt_of_comparable h.symm), gt_of_comparable h.symm]
  simp only [Except.ok.injEq, decide_eq_true_eq]

theorem IsMax.bumped (h : IsMax P largest) (hcomp : ∀ k, P k → Value.Comparable key k) :
    IsMax (fun k => P k ∨ k = key) (bumped largest key) := by
  rcases h with ⟨hempty, rfl⟩ | ⟨m, hm, heq, hle⟩
  · refine Or.inr ⟨key, Or.inr rfl, Value.Same.refl key, ?_⟩
    rintro k (hk | rfl)
    · exact absurd hk (hempty k)
    · exact le_rfl
  · have hcm := hcomp m hm
    have hord := heq.ord_eq
    have hne : largest ≠ .null := fun hnull => hcm.symm.ne_null (heq.null_iff.mpr hnull)
    have hgt : gt key largest = .ok (decide (ord m < ord key)) :=
      (heq.compared _ _ key).2.symm.trans (gt_of_comparable hcm)
    have hbumped : SequentialFile.bumped largest key =
        if ord largest < ord key then key else largest := by
      cases largest with
      | null => exact absurd rfl hne
      | _ =>
          simp only [SequentialFile.bumped, hgt, Except.ok.injEq, decide_eq_true_eq, hord]
    rw [hbumped]
    by_cases hlt : ord largest < ord key
    · rw [if_pos hlt]
      refine Or.inr ⟨key, Or.inr rfl, Value.Same.refl key, ?_⟩
      rintro k (hk | rfl)
      · exact (hle k hk).trans (hord ▸ hlt.le)
      · exact le_rfl
    · rw [if_neg hlt]
      refine Or.inr ⟨m, Or.inl hm, heq, ?_⟩
      rintro k (hk | rfl)
      · exact hle k hk
      · rw [hord]
        exact not_lt.mp hlt

theorem max_key_ok {keys : List Value} (h : keys.Pairwise Value.Comparable) :
    ∃ largest, maxKey keys = .ok largest ∧ IsMax (fun k => k ∈ keys) largest := by
  have hfold : ∀ (ks : List Value) (c : Value), (c :: ks).Pairwise Value.Comparable →
      ∃ m, ks.foldlM larger c = .ok m ∧ m ∈ c :: ks ∧
        ∀ k ∈ c :: ks, ord k ≤ ord m := by
    intro ks
    induction ks with
    | nil =>
        intro c _
        exact ⟨c, rfl, by simp, by simp⟩
    | cons k ks ih =>
        intro c hpair
        obtain ⟨hc, hpair'⟩ := pairwise_cons.mp hpair
        obtain ⟨hk, hks⟩ := pairwise_cons.mp hpair'
        rw [foldlM_cons, larger_of_comparable (hc k (by simp)), ok_bind]
        by_cases hlt : ord c < ord k
        · rw [if_pos hlt]
          obtain ⟨m, hm, hmem, hle⟩ := ih k hpair'
          refine ⟨m, hm, mem_cons_of_mem _ hmem, ?_⟩
          intro k' hk'
          rcases mem_cons.mp hk' with rfl | hk'
          · exact hlt.le.trans (hle k (by simp))
          · exact hle k' hk'
        · rw [if_neg hlt]
          obtain ⟨m, hm, hmem, hle⟩ := ih c
            (pairwise_cons.mpr ⟨fun x hx => hc x (by simp [hx]), hks⟩)
          refine ⟨m, hm, ?_, ?_⟩
          · rcases mem_cons.mp hmem with rfl | hmem
            · simp
            · simp [hmem]
          · intro k' hk'
            rcases mem_cons.mp hk' with rfl | hk'
            · exact hle _ (by simp)
            · rcases mem_cons.mp hk' with rfl | hk'
              · exact (not_lt.mp hlt).trans (hle c (by simp))
              · exact hle k' (by simp [hk'])
  cases keys with
  | nil => exact ⟨.null, rfl, Or.inl ⟨by simp, rfl⟩⟩
  | cons c ks =>
      obtain ⟨m, hm, hmem, hle⟩ := hfold ks c h
      exact ⟨m, hm, Or.inr ⟨m, hmem, Value.Same.refl m, hle⟩⟩

end Max

section Reading

variable {s : SequentialFile} {rs : RecordPages} {bs : List Bucket} {b : Bucket}
  {keyFn : KeyFn} {largest : Value}

theorem keyOf_eq {data : Bytes} {key : Value} (h : keyFn data = .ok key) :
    keyOf keyFn data = key := by
  rw [keyOf, h]

theorem AllKeyed.key (h : AllKeyed keyFn rs) {rid : RID} {data : Bytes}
    (hdata : slotOf rs rid = some (some data)) : keyFn data = .ok (keyOf keyFn data) := by
  obtain ⟨key, hkey⟩ := h hdata
  rw [keyOf_eq hkey, hkey]

theorem Chained.body_at (h : Chained s rs bs) (hb : b ∈ bs) {p : Int} (hp : p ∈ b.pages) :
    ∃ frame, s.diskManager.readPage p = .ok frame ∧ Holds (body frame) (pageAt rs p) := by
  obtain ⟨n, records, frame, rfl, hn, hframe⟩ := h.frame_of_mem (Chained.mem_pages hb hp)
  refine ⟨frame, hframe.read, ?_⟩
  rw [pageAt, if_neg (by omega), Int.toNat_natCast, getD_eq_getElem?_getD, hn]
  exact hframe.holds

theorem Chained.bucket_keys_eq (h : Chained s rs bs) (hb : b ∈ bs) (hkeyed : AllKeyed keyFn rs) :
    bucketKeys keyFn s.diskManager b.main =
      .ok ((rowsOf rs b.pages).map (fun row => keyOf keyFn row.2.2)) := by
  have hpage : ∀ p ∈ b.pages, (do
      let frame ← s.diskManager.readPage p
      bodyKeys keyFn (body frame)) =
        .ok ((live (pageAt rs p)).map (fun row => keyOf keyFn row.2)) := by
    intro p hp
    obtain ⟨frame, hread, hholds⟩ := h.body_at hb hp
    rw [hread, ok_bind, bodyKeys, live_records_eq hholds, ok_bind]
    refine mapM_ok ?_
    rintro ⟨slot, data⟩ hrow
    rw [mem_live, recordAt_pageAt, Option.join_eq_some_iff] at hrow
    exact hkeyed.key hrow
  rw [bucketKeys, h.bucket_pages_eq hb, ok_bind, mapM_ok hpage, ok_bind, rowsOf,
    map_flatMap, flatMap_def]
  simp only [map_map]
  rfl

theorem mem_keys_iff (hkeyed : AllKeyed keyFn rs) {key : Value} :
    key ∈ (rowsOf rs b.pages).map (fun row => keyOf keyFn row.2.2) ↔ HasKey keyFn rs b key := by
  rw [mem_map]
  constructor
  · rintro ⟨⟨p, slot, data⟩, hrow, rfl⟩
    obtain ⟨hp, hdata⟩ := mem_rowsOf.mp hrow
    exact ⟨⟨p, slot⟩, data, hp, hdata, hkeyed.key hdata⟩
  · rintro ⟨⟨p, slot⟩, data, hp, hdata, hkey⟩
    obtain ⟨n, rfl⟩ := slot_of_live hdata
    exact ⟨(p, n, data), mem_rowsOf.mpr ⟨hp, hdata⟩, keyOf_eq hkey⟩

theorem Chained.bucket_max_ok (h : Chained s rs bs) (hb : b ∈ bs) (hkeyed : AllKeyed keyFn rs)
    (hcomp : ComparableKeys keyFn rs b) :
    ∃ m, bucketMax keyFn s.diskManager b.main = .ok m ∧ IsMax (HasKey keyFn rs b) m := by
  have hnodup : b.pages.Nodup := (nodup_flatMap.mp h.nodup).1 b hb
  have hpair : ((rowsOf rs b.pages).map (fun row => keyOf keyFn row.2.2)).Pairwise
      Value.Comparable := by
    rw [pairwise_map]
    refine (nodup_rowsOf hnodup).imp_of_mem ?_
    rintro ⟨p, slot, data⟩ ⟨p', slot', data'⟩ hrow hrow' hne
    obtain ⟨hp, hdata⟩ := mem_rowsOf.mp hrow
    obtain ⟨hp', hdata'⟩ := mem_rowsOf.mp hrow'
    refine hcomp ?_ hp hdata (hkeyed.key hdata) hp' hdata' (hkeyed.key hdata')
    intro heq
    obtain ⟨rfl, hslot⟩ := RID.mk.injEq _ _ _ _ ▸ heq
    obtain rfl : slot = slot' := by exact_mod_cast hslot
    rw [hdata] at hdata'
    cases hdata'
    exact hne rfl
  obtain ⟨m, hm, hmax⟩ := max_key_ok hpair
  refine ⟨m, ?_, hmax.congr (fun k => (mem_keys_iff hkeyed).symm)⟩
  rw [bucketMax, h.bucket_keys_eq hb hkeyed, ok_bind, hm]

end Reading

/-! ## What inserts and removals keep -/

section Kept

variable {s s' : SequentialFile} {rs rs' : RecordPages} {bs before after : List Bucket}
  {b b' c : Bucket} {keyFn : KeyFn} {key current largest : Value} {data : Bytes} {rid : RID}

theorem HasKey.congr (hpages : b'.pages = b.pages)
    (hslots : ∀ r, r.pageId ∈ b.pages → slotOf rs' r = slotOf rs r) (k : Value) :
    HasKey keyFn rs' b' k ↔ HasKey keyFn rs b k := by
  constructor
  · rintro ⟨r, d, hr, hslot, hkey⟩
    rw [hpages] at hr
    exact ⟨r, d, hr, (hslots r hr).symm.trans hslot, hkey⟩
  · rintro ⟨r, d, hr, hslot, hkey⟩
    exact ⟨r, d, hpages.symm ▸ hr, (hslots r hr).trans hslot, hkey⟩

theorem KeyedBucket.congr (h : KeyedBucket keyFn rs b largest)
    (hslots : ∀ r, r.pageId ∈ b.pages → slotOf rs' r = slotOf rs r) :
    KeyedBucket keyFn rs' b largest := by
  refine ⟨?_, h.max.congr (HasKey.congr rfl hslots)⟩
  intro r r' d d' k k' hne hr hslot hkey hr' hslot' hkey'
  rw [hslots r hr] at hslot
  rw [hslots r' hr'] at hslot'
  exact h.comparable hne hr hslot hkey hr' hslot' hkey'

theorem KeyedBucket.empty (hnone : ∀ r, r.pageId ∈ b.pages → slotOf rs r = none) :
    KeyedBucket keyFn rs b .null := by
  refine ⟨?_, Or.inl ⟨?_, rfl⟩⟩
  · intro r _ d _ k _ _ hr hslot
    rw [hnone r hr] at hslot
    cases hslot
  · rintro k ⟨r, d, hr, hslot, _⟩
    rw [hnone r hr] at hslot
    cases hslot

/-- The records of a bucket in which a record has landed. -/
theorem Landed.mem_iff (h : Landed s rs key data rid b current s' rs' b') {r : RID} {d : Bytes} :
    (r.pageId ∈ b'.pages ∧ slotOf rs' r = some (some d)) ↔
      (r.pageId ∈ b.pages ∧ slotOf rs r = some (some d)) ∨ (r = rid ∧ d = data) := by
  rw [h.slots]
  constructor
  · rintro ⟨hr, hslot⟩
    split at hslot
    · next heq => exact Or.inr ⟨heq, (Option.some.inj (Option.some.inj hslot)).symm⟩
    · rcases h.new_pages _ hr with hr | hnone
      · exact Or.inl ⟨hr, hslot⟩
      · have hfresh := hnone r.slot
        rw [show (⟨r.pageId, r.slot⟩ : RID) = r from rfl, hslot] at hfresh
        cases hfresh
  · rintro (⟨hr, hslot⟩ | ⟨rfl, rfl⟩)
    · refine ⟨h.old_pages _ hr, ?_⟩
      rw [if_neg, hslot]
      rintro rfl
      rw [h.free] at hslot
      cases hslot
    · exact ⟨h.mem, if_pos rfl⟩

theorem Landed.hasKey_iff (h : Landed s rs key data rid b current s' rs' b')
    (hkey : keyFn data = .ok key) (k : Value) :
    HasKey keyFn rs' b' k ↔ HasKey keyFn rs b k ∨ k = key := by
  constructor
  · rintro ⟨r, d, hr, hslot, hk⟩
    rcases h.mem_iff.mp ⟨hr, hslot⟩ with ⟨hr, hslot⟩ | ⟨rfl, rfl⟩
    · exact Or.inl ⟨r, d, hr, hslot, hk⟩
    · exact Or.inr (Except.ok.inj (hk.symm.trans hkey))
  · rintro (⟨r, d, hr, hslot, hk⟩ | rfl)
    · obtain ⟨hr', hslot'⟩ := h.mem_iff.mpr (Or.inl ⟨hr, hslot⟩)
      exact ⟨r, d, hr', hslot', hk⟩
    · obtain ⟨hr', hslot'⟩ := h.mem_iff.mpr (Or.inr ⟨rfl, rfl⟩)
      exact ⟨rid, data, hr', hslot', hkey⟩

theorem KeyedBucket.landed (hbucket : KeyedBucket keyFn rs b current)
    (h : Landed s rs key data rid b current s' rs' b') (hkey : keyFn data = .ok key)
    (hcomp : ∀ k, HasKey keyFn rs b k → Value.Comparable key k) :
    KeyedBucket keyFn rs' b' (bumped current key) := by
  constructor
  · intro r r' d d' k k' hne hr hslot hk hr' hslot' hk'
    rcases h.mem_iff.mp ⟨hr, hslot⟩ with ⟨hr, hslot⟩ | ⟨rfl, rfl⟩
    · rcases h.mem_iff.mp ⟨hr', hslot'⟩ with ⟨hr', hslot'⟩ | ⟨rfl, rfl⟩
      · exact hbucket.comparable hne hr hslot hk hr' hslot' hk'
      · obtain rfl : k' = key := Except.ok.inj (hk'.symm.trans hkey)
        exact (hcomp k ⟨r, d, hr, hslot, hk⟩).symm
    · obtain rfl : k = key := Except.ok.inj (hk.symm.trans hkey)
      rcases h.mem_iff.mp ⟨hr', hslot'⟩ with ⟨hr', hslot'⟩ | ⟨rfl, rfl⟩
      · exact hcomp k' ⟨r', d', hr', hslot', hk'⟩
      · exact absurd rfl hne
  · exact (hbucket.max.bumped hcomp).congr (h.hasKey_iff hkey)

/-- The pages of different buckets are different. -/
theorem Chained.disjoint (h : Chained s rs (before ++ b :: after)) (hc : c ∈ before ++ after)
    {p : Int} (hp : p ∈ b.pages) : p ∉ c.pages := by
  intro hpc
  have hperm : (before ++ b :: after).Perm (b :: (before ++ after)) := perm_middle
  have hnodup := (hperm.flatMap_right Bucket.pages).nodup_iff.mp h.nodup
  rw [flatMap_cons] at hnodup
  exact (nodup_append.mp hnodup).2.2 p hp p (mem_flatMap.mpr ⟨c, hc, hpc⟩) rfl

theorem Chained.eq_of_page (h : Chained s rs bs) (hb : b ∈ bs) (hc : c ∈ bs) {p : Int}
    (hpb : p ∈ b.pages) (hpc : p ∈ c.pages) : c = b := by
  obtain ⟨front, back, rfl⟩ := append_of_mem hb
  by_contra hne
  refine h.disjoint ?_ hpb hpc
  simp only [mem_append, mem_cons] at hc ⊢
  tauto

theorem Chained.eq_of_main (h : Chained s rs bs) (hb : b ∈ bs) (hc : c ∈ bs)
    (heq : c.main = b.main) : c = b :=
  h.eq_of_page hb hc (p := b.main) (by simp [Bucket.pages]) (by simp [Bucket.pages, heq])

theorem Landed.keyed (h : Landed s rs key data rid b current s' rs' b')
    (hchained : Chained s' rs' (before ++ b' :: after)) (hkeyed : AllKeyed keyFn rs)
    (hothers : ∀ c ∈ before ++ after, KeyedBucket keyFn rs c (maxOf s c))
    (hbucket : KeyedBucket keyFn rs b current) (hkey : keyFn data = .ok key)
    (hcomp : ∀ k, HasKey keyFn rs b k → Value.Comparable key k) :
    Keyed keyFn s' rs' (before ++ b' :: after) := by
  have hmain : b'.main ∈ b'.pages := by simp [Bucket.pages]
  constructor
  · intro r d hslot
    rw [h.slots] at hslot
    split at hslot
    · cases hslot
      exact ⟨key, hkey⟩
    · exact hkeyed hslot
  · intro c hc
    have hcase : c = b' ∨ c ∈ before ++ after := by
      simp only [mem_append, mem_cons] at hc ⊢
      tauto
    rcases hcase with rfl | hc
    · rw [maxOf, h.max, if_pos h.main, Option.getD_some]
      exact hbucket.landed h hkey hcomp
    · have hne : c.main ≠ b.main := by
        intro heq
        refine hchained.disjoint hc hmain ?_
        rw [h.main, ← heq]
        simp [Bucket.pages]
      rw [maxOf, h.max, if_neg hne]
      refine (hothers c hc).congr ?_
      intro r hr
      rw [h.slots, if_neg]
      rintro rfl
      exact hchained.disjoint hc h.mem hr

theorem Keyed.landed_in (hkeyed : Keyed keyFn s rs (before ++ b :: after))
    (h : LandedIn s rs before b after key data rid s') (hkey : keyFn data = .ok key)
    (hcomp : ∀ k, HasKey keyFn rs b k → Value.Comparable key k) :
    ∃ rs' b', Landed s rs key data rid b (maxOf s b) s' rs' b' ∧
      Chained s' rs' (before ++ b' :: after) ∧ Keyed keyFn s' rs' (before ++ b' :: after) ∧
      (Tidy s (before ++ b :: after) → Tidy s' (before ++ b' :: after)) := by
  obtain ⟨rs', b', hlanded, hchained, htidy⟩ := h
  refine ⟨rs', b', hlanded, hchained, ?_, htidy⟩
  refine hlanded.keyed hchained hkeyed.keyed ?_ (hkeyed.bucket b (by simp)) hkey hcomp
  intro c hc
  refine hkeyed.bucket c ?_
  simp only [mem_append, mem_cons] at hc ⊢
  tauto

theorem Keyed.landed_new (hchained : Chained s rs bs) (hkeyed : Keyed keyFn s rs bs)
    (h : LandedNew s rs bs key data rid s') (hkey : keyFn data = .ok key) :
    ∃ rs' new, Landed s rs key data rid ⟨new, []⟩ .null s' rs' ⟨new, []⟩ ∧
      Chained s' rs' (bs ++ [⟨new, []⟩]) ∧ Keyed keyFn s' rs' (bs ++ [⟨new, []⟩]) ∧
      (∀ k, ¬ HasKey keyFn rs ⟨new, []⟩ k) ∧ (Tidy s bs → Tidy s' (bs ++ [⟨new, []⟩])) := by
  obtain ⟨rs', new, hlanded, hchained', htidy⟩ := h
  have hnone : ∀ r : RID, r.pageId ∈ (⟨new, []⟩ : Bucket).pages → slotOf rs r = none := by
    intro r hr
    by_contra hslot
    obtain ⟨c, hc, hp⟩ := hchained.bucket_of_slot hslot
    exact hchained'.disjoint (by simpa using hc) hr hp
  have hempty : KeyedBucket keyFn rs ⟨new, []⟩ .null := KeyedBucket.empty hnone
  have hnokey : ∀ k, ¬ HasKey keyFn rs ⟨new, []⟩ k := by
    rintro k ⟨r, d, hr, hslot, _⟩
    rw [hnone r hr] at hslot
    cases hslot
  refine ⟨rs', new, hlanded, hchained', ?_, hnokey, htidy⟩
  refine hlanded.keyed hchained' hkeyed.keyed ?_ hempty hkey (fun k hk => absurd hk (hnokey k))
  intro c hc
  exact hkeyed.bucket c (by simpa using hc)

/-- The records of a file after a removal are among those before. -/
theorem Erased.of_live (h : Erased rs rid rs') {r : RID} {d : Bytes}
    (hslot : slotOf rs' r = some (some d)) : r ≠ rid ∧ slotOf rs r = some (some d) := by
  rw [h r] at hslot
  split at hslot
  · rw [Option.map_eq_some_iff] at hslot
    obtain ⟨_, _, hslot⟩ := hslot
    cases hslot
  · next hne => exact ⟨hne, hslot⟩

theorem Erased.keyed (h : Erased rs rid rs') (hkeyed : AllKeyed keyFn rs) :
    AllKeyed keyFn rs' :=
  fun _ _ hslot => hkeyed (h.of_live hslot).2

theorem Erased.comparable (h : Erased rs rid rs') (hcomp : ComparableKeys keyFn rs b) :
    ComparableKeys keyFn rs' b := by
  intro r r' d d' k k' hne hr hslot hk hr' hslot' hk'
  exact hcomp hne hr (h.of_live hslot).2 hk hr' (h.of_live hslot').2 hk'

/-- The metadata after a removal: the largest key of one bucket may have changed. -/
structure Lowered (s : SequentialFile) (bs : List Bucket) (s' : SequentialFile) : Prop where
  max : ∀ p, s'.pageMaxKey.lookup p = s.pageMaxKey.lookup p ∨
    p ∈ bs.map Bucket.main ∧ (s'.pageMaxKey.lookup p).isSome
  next : s'.mainNext = s.mainNext
  owner : s'.pageOwnerMain = s.pageOwnerMain
  count : s'.diskManager.pageCount = s.diskManager.pageCount

/-- A live record was removed, and the largest key of its bucket found again. -/
theorem Removed.keyed (h : Removed keyFn s rs bs rid s') (hold : Chained s rs bs)
    (hkeyed : Keyed keyFn s rs bs) :
    ∃ rs', Chained s' rs' bs ∧ Erased rs rid rs' ∧ Keyed keyFn s' rs' bs ∧ Lowered s bs s' := by
  obtain ⟨rs', b, s₁, largest, hb, hp, herased, hchained₁, hretained₁, hlargest, hchained,
    hretained⟩ := h
  have hmax : ∀ p, s'.pageMaxKey.lookup p =
      if p = b.main then some largest else s.pageMaxKey.lookup p := by
    intro p
    rw [hretained.max]
    exact Dict.lookup_insert_eq _ _ _ _
  have hkeyed' := herased.keyed hkeyed.keyed
  refine ⟨rs', hchained, herased, ⟨hkeyed', ?_⟩, ⟨?_, hretained.next, hretained.owner,
    hretained.count⟩⟩
  · intro c hc
    by_cases hcb : c.main = b.main
    · obtain rfl : c = b := hold.eq_of_main hb hc hcb
      have hcomp := herased.comparable (hkeyed.bucket c hc).comparable
      obtain ⟨m, hm, hismax⟩ := hchained₁.bucket_max_ok hb hkeyed' hcomp
      obtain rfl : m = largest := Except.ok.inj (hm.symm.trans hlargest)
      rw [maxOf, hmax, if_pos rfl, Option.getD_some]
      exact ⟨hcomp, hismax⟩
    · rw [maxOf, hmax, if_neg hcb]
      refine (hkeyed.bucket c hc).congr ?_
      intro r hr
      rw [herased r, if_neg]
      rintro rfl
      exact hcb (congrArg Bucket.main (hold.eq_of_page hb hc hp hr))
  · intro p
    rw [hmax]
    split
    · next heq => exact Or.inr ⟨mem_map.mpr ⟨b, hb, heq.symm⟩, rfl⟩
    · exact Or.inl rfl

theorem Keyed.remove (h : Chained s rs bs) (hkeyed : Keyed keyFn s rs bs) (rid : RID) :
    wp (remove keyFn rid)
      (fun _ s' => ∃ rs', Chained s' rs' bs ∧ Erased rs rid rs' ∧ Keyed keyFn s' rs' bs ∧
        Lowered s bs s')
      (fun _ _ => False) s := by
  cases hlive : (slotOf rs rid).join with
  | none =>
      refine wp_mono (wp_remove_dead h keyFn hlive) ?_ (fun _ _ hE => hE)
      rintro _ s' ⟨_, hretained, rs', hchained, herased⟩
      have hslots := (erased_iff_of_dead hlive).mp herased
      refine ⟨rs', hchained, herased, ⟨herased.keyed hkeyed.keyed, ?_⟩, ⟨?_, hretained.next,
        hretained.owner, hretained.count⟩⟩
      · intro c hc
        rw [maxOf, hretained.max]
        exact (hkeyed.bucket c hc).congr (fun r _ => hslots r)
      · intro p
        rw [hretained.max]
        exact Or.inl rfl
  | some data =>
      refine wp_mono (wp_remove_live h keyFn (Option.join_eq_some_iff.mp hlive)) ?_ ?_
      · rintro _ s' ⟨_, hremoved⟩
        exact hremoved.keyed h hkeyed
      · rintro e s' ⟨rs', b, hb, _, herased, hchained, _, herror⟩
        obtain ⟨m, hm, _⟩ := hchained.bucket_max_ok hb (herased.keyed hkeyed.keyed)
          (herased.comparable (hkeyed.bucket b hb).comparable)
        rw [hm] at herror
        cases herror

end Kept

/-! ## Opening again -/

section Open

variable {s t : SequentialFile} {rs rs' : RecordPages} {bs : List Bucket} {keyFn : KeyFn}

/-- The metadata of a file whose buckets have keys that can be compared is computed. -/
theorem Keyed.rebuild (h : Chained s rs bs) (hkeyed : Keyed keyFn s rs bs) :
    ∃ t, rebuildChainMetadata keyFn s.diskManager = .ok t ∧
      Built keyFn s.diskManager bs t ∧ Chained t rs bs ∧ Keyed keyFn t rs bs := by
  have hmax : ∀ b ∈ bs, ∃ m, bucketMax keyFn s.diskManager b.main = .ok m ∧
      IsMax (HasKey keyFn rs b) m :=
    fun b hb => h.bucket_max_ok hb hkeyed.keyed (hkeyed.bucket b hb).comparable
  obtain ⟨t, ht⟩ := rebuild_returns h (fun b hb => (hmax b hb).imp (fun _ hm => hm.1))
  have hbuilt := rebuild_ok h ht
  refine ⟨t, ht, hbuilt, hbuilt.chained h, hkeyed.keyed, ?_⟩
  intro b hb
  obtain ⟨m, hm, hismax⟩ := hmax b hb
  obtain ⟨largest, hlargest, hlookup⟩ := hbuilt.max b hb
  obtain rfl : m = largest := Except.ok.inj (hm.symm.trans hlargest)
  rw [maxOf, hlookup, Option.getD_some]
  exact ⟨(hkeyed.bucket b hb).comparable, hismax⟩

/-- An insert that raises leaves the keys. -/
theorem Failed.keyed (h : Failed s rs bs t) (hkeyed : Keyed keyFn s rs bs) :
    ∃ rs', Chained t rs' bs ∧ (∀ r, slotOf rs' r = slotOf rs r) ∧ Keyed keyFn t rs' bs := by
  obtain ⟨rs', hchained, hslots⟩ := h.chained
  refine ⟨rs', hchained, hslots, ?_, ?_⟩
  · intro r d hslot
    rw [hslots] at hslot
    exact hkeyed.keyed hslot
  · intro b hb
    rw [h.max b hb]
    exact (hkeyed.bucket b hb).congr (fun r _ => hslots r)

theorem keyed_new (hmax : s.pageMaxKey.lookup MAIN_HEAD = some .null) :
    Keyed keyFn s [[]] [⟨MAIN_HEAD, []⟩] := by
  refine ⟨?_, ?_⟩
  · intro r d hslot
    rw [slotOf_new] at hslot
    cases hslot
  · intro b hb
    rw [mem_singleton.mp hb, maxOf, hmax, Option.getD_some]
    exact KeyedBucket.empty (fun r _ => slotOf_new r)

end Open

end SoupDB.SequentialFile
