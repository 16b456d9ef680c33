import SoupDB.Storage.SequentialKeys

/-!
# SoupDB: the order of a sequential file

Where all keys can be compared with each other, the keys of a bucket are below those of
the later buckets (`InOrder`).  The largest keys kept in memory decide the bucket of an
insert: the buckets it passes have smaller keys, and the bucket it takes has one that is
not smaller, which no later key is below.  A scan sorts each bucket, so that it shows all
records in the order of their keys (`scan_in_order`).
-/

namespace SoupDB.SequentialFile

open Effect SlottedPage SequentialPage Value FileOrganization List

/-- No key of a bucket is above a key of a later one. -/
def Sorted (keyFn : KeyFn) (rs : RecordPages) (bs : List Bucket) : Prop :=
  bs.Pairwise (fun b c => ∀ k k', HasKey keyFn rs b k → HasKey keyFn rs c k' →
    ord k ≤ ord k')

/-- The buckets of the file are in the order of their keys, which all satisfy `K`. -/
structure InOrder (keyFn : KeyFn) (K : Value → Prop) (s : SequentialFile) (rs : RecordPages)
    (bs : List Bucket) : Prop where
  chained : Chained s rs bs
  keyed : Keyed keyFn s rs bs
  within : ∀ ⦃rid : RID⦄ ⦃data : Bytes⦄ ⦃k : Value⦄, slotOf rs rid = some (some data) →
    keyFn data = .ok k → K k
  sorted : Sorted keyFn rs bs

section Steps

variable {keyFn : KeyFn} {K : Value → Prop} {s s' : SequentialFile} {rs rs' : RecordPages}
  {bs before after : List Bucket} {b b' c : Bucket} {key current : Value} {data : Bytes}
  {rid : RID}

variable {k : Value}

theorem InOrder.hasKey (h : InOrder keyFn K s rs bs) (hk : HasKey keyFn rs b k) : K k := by
  obtain ⟨_, _, _, hslot, hkey⟩ := hk
  exact h.within hslot hkey

theorem Landed.hasKey_other (h : Landed s rs key data rid b current s' rs' b')
    (hchained : Chained s' rs' (before ++ b' :: after)) (hc : c ∈ before ++ after) (k : Value) :
    HasKey keyFn rs' c k ↔ HasKey keyFn rs c k := by
  refine HasKey.congr rfl ?_ k
  intro r hr
  rw [h.slots, if_neg]
  rintro rfl
  exact hchained.disjoint hc h.mem hr

/-- A key that is not below the earlier buckets and not above the later ones. -/
theorem Landed.sorted (h : Landed s rs key data rid b current s' rs' b')
    (hchained : Chained s' rs' (before ++ b' :: after)) (hkey : keyFn data = .ok key)
    (hsorted : Sorted keyFn rs (before ++ b :: after))
    (hlow : ∀ c ∈ before, ∀ k, HasKey keyFn rs c k → ord k ≤ ord key)
    (hhigh : ∀ c ∈ after, ∀ k, HasKey keyFn rs c k → ord key ≤ ord k) :
    Sorted keyFn rs' (before ++ b' :: after) := by
  obtain ⟨hbefore, hrest, hcross⟩ := pairwise_append.mp hsorted
  obtain ⟨hfirst, hafter⟩ := pairwise_cons.mp hrest
  have hother : ∀ c ∈ before ++ after, ∀ k, HasKey keyFn rs' c k → HasKey keyFn rs c k :=
    fun c hc k hk => (h.hasKey_other hchained hc k).mp hk
  refine pairwise_append.mpr ⟨?_, pairwise_cons.mpr ⟨?_, ?_⟩, ?_⟩
  · refine hbefore.imp_of_mem ?_
    intro c d hc hd hle k k' hk hk'
    exact hle k k' (hother c (by simp [hc]) k hk) (hother d (by simp [hd]) k' hk')
  · intro c hc k k' hk hk'
    have hk'' := hother c (by simp [hc]) k' hk'
    rcases (h.hasKey_iff hkey k).mp hk with hk | rfl
    · exact hfirst c hc k k' hk hk''
    · exact hhigh c hc k' hk''
  · refine hafter.imp_of_mem ?_
    intro c d hc hd hle k k' hk hk'
    exact hle k k' (hother c (by simp [hc]) k hk) (hother d (by simp [hd]) k' hk')
  · intro c hc d hd k k' hk hk'
    have hk := hother c (by simp [hc]) k hk
    rcases mem_cons.mp hd with rfl | hd
    · rcases (h.hasKey_iff hkey k').mp hk' with hk' | rfl
      · exact hcross c hc b (by simp) k k' hk hk'
      · exact hlow c hc k hk
    · exact hcross c hc d (by simp [hd]) k k' hk (hother d (by simp [hd]) k' hk')

theorem InOrder.passed (h : InOrder keyFn K s rs bs)
    (hK : ∀ ⦃k k'⦄, K k → K k' → Value.Comparable k k') (hb : b ∈ bs) (hpassed : Passed s key b)
    (hnew : K key) (hk : HasKey keyFn rs b k) :
    ord k ≤ ord key := by
  rcases (h.keyed.bucket b hb).max with ⟨hempty, _⟩ | ⟨m, hm, heq, hle⟩
  · exact absurd hk (hempty k)
  · rcases hpassed with hnull | hge
    · have hself := hK (h.hasKey hm) (h.hasKey hm)
      exact absurd (heq.null_iff.mpr hnull) hself.ne_null
    · have hcomp := hK (h.hasKey hm) hnew
      rw [ge, ← (heq.compared _ _ key).1, ← ge, ge_of_comparable hcomp,
        Except.ok.injEq, decide_eq_false_iff_not, not_le] at hge
      exact (hle k hk).trans hge.le

theorem InOrder.in_range (h : InOrder keyFn K s rs (before ++ b :: after))
    (hK : ∀ ⦃k k'⦄, K k → K k' → Value.Comparable k k') (hnew : K key) (hin : InRange s key b)
    (hc : c ∈ after) (hk : HasKey keyFn rs c k) :
    ord key ≤ ord k := by
  rcases (h.keyed.bucket b (by simp)).max with ⟨_, hnull⟩ | ⟨m, hm, heq, _⟩
  · exact absurd hnull hin.1
  · have hge := hin.2
    have hcomp := hK (h.hasKey hm) hnew
    rw [ge, ← (heq.compared _ _ key).1, ← ge, ge_of_comparable hcomp,
      Except.ok.injEq, decide_eq_true_eq] at hge
    obtain ⟨_, hrest, _⟩ := pairwise_append.mp h.sorted
    exact hge.trans ((pairwise_cons.mp hrest).1 c hc m k hm hk)

theorem Landed.within (h : Landed s rs key data rid b current s' rs' b')
    (hin : InOrder keyFn K s rs bs) (hkey : keyFn data = .ok key) (hnew : K key) :
    ∀ ⦃r : RID⦄ ⦃d : Bytes⦄ ⦃k : Value⦄, slotOf rs' r = some (some d) → keyFn d = .ok k →
      K k := by
  intro r d k hslot hk
  rw [h.slots] at hslot
  split at hslot
  · cases hslot
    rw [hkey, Except.ok.injEq] at hk
    exact hk ▸ hnew
  · exact hin.within hslot hk

theorem InOrder.insert (h : InOrder keyFn K s rs bs)
    (hK : ∀ ⦃k k'⦄, K k → K k' → Value.Comparable k k')
    (hnew : ∀ k, keyFn data = .ok k → K k) :
    wp (insert keyFn data) (fun _ s' => ∃ rs' bs', InOrder keyFn K s' rs' bs')
      (fun _ s' => ∃ rs' bs', InOrder keyFn K s' rs' bs') s := by
  refine wp_mono (insert_spec h.chained keyFn data) ?_ ?_
  · rintro rid s' ⟨key, before, b, after, in_range, hkey, _, rfl, hpassed, _, hcase⟩
    have hKey := hnew key hkey
    have hcomp : ∀ k, HasKey keyFn rs b k → Value.Comparable key k :=
      fun k hk => hK hKey (h.hasKey hk)
    have hlow : ∀ c ∈ before, ∀ k, HasKey keyFn rs c k → ord k ≤ ord key :=
      fun c hc k hk => h.passed hK (by simp [hc]) (hpassed c hc) hKey hk
    rcases hcase with ⟨_, hin, hlanded⟩ | ⟨_, hpass, rfl, ⟨_, hlanded⟩ | hlanded⟩
    · obtain ⟨rs', b', hlanded, hchained, hkeyed, _⟩ := h.keyed.landed_in hlanded hkey hcomp
      exact ⟨rs', _, hchained, hkeyed, hlanded.within h hkey hKey,
        hlanded.sorted hchained hkey h.sorted hlow (fun c hc k hk => h.in_range hK hKey hin hc hk)⟩
    · obtain ⟨rs', b', hlanded, hchained, hkeyed, _⟩ := h.keyed.landed_in hlanded hkey hcomp
      exact ⟨rs', _, hchained, hkeyed, hlanded.within h hkey hKey,
        hlanded.sorted hchained hkey h.sorted hlow (by simp)⟩
    · obtain ⟨rs', new, hlanded, hchained, hkeyed, hempty, _⟩ :=
        Keyed.landed_new h.chained h.keyed hlanded hkey
      refine ⟨rs', _, hchained, hkeyed, hlanded.within h hkey hKey,
        hlanded.sorted hchained hkey ?_ ?_ (by simp)⟩
      · refine pairwise_append.mpr ⟨h.sorted, pairwise_singleton _ _, ?_⟩
        intro c _ d hd k k' _ hk'
        rw [mem_singleton.mp hd] at hk'
        exact absurd hk' (hempty k')
      · intro c hc k hk
        rcases mem_append.mp hc with hc | hc
        · exact hlow c hc k hk
        · rw [mem_singleton.mp hc] at hk
          exact h.passed hK (by simp) hpass hKey hk
  · intro _ s' hfailed
    obtain ⟨rs', hchained, hslots, hkeyed⟩ := hfailed.keyed h.keyed
    refine ⟨rs', bs, hchained, hkeyed, ?_, ?_⟩
    · intro r d k hslot hk
      rw [hslots] at hslot
      exact h.within hslot hk
    · refine h.sorted.imp ?_
      intro c d hle k k' hk hk'
      exact hle k k' ((HasKey.congr rfl (fun r _ => hslots r) k).mp hk)
        ((HasKey.congr rfl (fun r _ => hslots r) k').mp hk')

theorem Erased.hasKey (h : Erased rs rid rs') (hk : HasKey keyFn rs' b k) :
    HasKey keyFn rs b k := by
  obtain ⟨r, d, hr, hslot, hkey⟩ := hk
  exact ⟨r, d, hr, (h.of_live hslot).2, hkey⟩

theorem InOrder.remove (h : InOrder keyFn K s rs bs) (rid : RID) :
    ∃ rs', InOrder keyFn K (remove keyFn rid s).2 rs' bs := by
  have hwp := Keyed.remove h.chained h.keyed rid
  rcases hrun : SequentialFile.remove keyFn rid s with ⟨e | removed, s'⟩
  · exact (wp_error hwp hrun).elim
  · obtain ⟨rs', hchained, herased, hkeyed, _⟩ := wp_ok hwp hrun
    refine ⟨rs', hchained, hkeyed, fun r d k hslot hk => h.within (herased.of_live hslot).2 hk, ?_⟩
    refine h.sorted.imp ?_
    intro c d hle k k' hk hk'
    exact hle k k' (herased.hasKey hk) (herased.hasKey hk')

theorem InOrder.reopen (h : InOrder keyFn K s rs bs) :
    InOrder keyFn K (reopen keyFn s).2 rs bs := by
  obtain ⟨t, ht, _, hchained, hkeyed⟩ := h.keyed.rebuild h.chained
  rw [SequentialFile.reopen, run_bind_ok _ (run_get s), run_bind, run_lift, init,
    if_neg h.chained.page_count_ne, ht]
  exact ⟨hchained, hkeyed, h.within, h.sorted⟩

end Steps

/-! ## Scans -/

section Scan

variable {keyFn : KeyFn} {K : Value → Prop} {s : SequentialFile} {rs : RecordPages}
  {bs : List Bucket} {b : Bucket}

def scanKey (entry : Entry) : List Value.Token :=
  ord (.tuple [entry.1, .int entry.2.1, .int entry.2.2.1])

def entryOf (keyFn : KeyFn) (row : Int × Nat × Bytes) : Entry := (keyOf keyFn row.2.2, row)

def recordOf (row : Int × Nat × Bytes) : RID × Bytes := (⟨row.1, row.2.1⟩, row.2.2)

theorem comparable_entries {k k' : Value} (h : Value.Comparable k k') (p p' : Int)
    (slot slot' : Int) :
    Value.Comparable (.tuple [k, .int p, .int slot]) (.tuple [k', .int p', .int slot']) := by
  have hint : ∀ i j : Int, (Value.cmp (.int i) (.int j)).isSome := fun _ _ => rfl
  rw [Value.Comparable, Value.cmp, cmpItems]
  split
  · rw [cmpItems]
    split
    · rw [cmpItems]
      split
      · rfl
      · exact hint _ _
    · exact hint _ _
  · exact h

theorem compared_entries {x y : Entry} (h : Value.Comparable x.1 y.1) :
    ComparedBy entryLt scanKey x y := by
  have hlt : ∀ {x y : Entry}, Value.Comparable x.1 y.1 →
      ∀ {lt : Decidable (scanKey x < scanKey y)}, entryLt x y = .ok (@decide _ lt) := by
    intro x y h lt
    exact (lt_of_comparable (comparable_entries h _ _ _ _)).trans
      (congrArg Except.ok (decide_eq_decide.mpr Iff.rfl))
  exact ⟨hlt h, hlt h.symm⟩

theorem ord_le_of_scanKey {a b : Entry} (hcomp : Value.Comparable a.1 b.1)
    (h : scanKey a ≤ scanKey b) : ord a.1 ≤ ord b.1 := by
  simp only [scanKey, ord, ordItems] at h
  exact ord_le_of_append hcomp
    (le_of_append_le (show [_] ++ (_ ++ _) ≤ [_] ++ (_ ++ _) from h))

theorem InOrder.scanBucket (h : InOrder keyFn K s rs bs)
    (hK : ∀ ⦃k k'⦄, K k → K k' → Value.Comparable k k') (hb : b ∈ bs) :
    ∃ entries, scanBucket keyFn s.diskManager b.main = .ok entries ∧
      entries.Perm ((rowsOf rs b.pages).map (entryOf keyFn)) ∧
      entries.Pairwise (fun x y => ord x.1 ≤ ord y.1) := by
  have hpage : ∀ p ∈ b.pages, (do
      let frame ← s.diskManager.readPage p
      entries keyFn (body frame) p) =
        .ok ((live (pageAt rs p)).map (fun row => entryOf keyFn (p, row))) := by
    intro p hp
    obtain ⟨frame, hread, hholds⟩ := h.chained.body_at hb hp
    rw [hread, ok_bind, entries, live_records_eq hholds, ok_bind]
    refine mapM_ok ?_
    rintro ⟨slot, data⟩ hrow
    rw [mem_live, recordAt_pageAt, Option.join_eq_some_iff] at hrow
    rw [h.keyed.keyed.key hrow, ok_bind]
    rfl
  have hK' : ∀ x ∈ (rowsOf rs b.pages).map (entryOf keyFn), K x.1 := by
    intro x hx
    obtain ⟨⟨p, slot, data⟩, hrow, rfl⟩ := mem_map.mp hx
    obtain ⟨_, hslot⟩ := mem_rowsOf.mp hrow
    exact h.within hslot (h.keyed.keyed.key hslot)
  have hcompared : ((rowsOf rs b.pages).map (entryOf keyFn)).Pairwise
      (ComparedBy entryLt scanKey) := by
    refine pairwise_of_forall_mem_list ?_
    intro x hx y hy
    exact compared_entries (hK (hK' x hx) (hK' y hy))
  obtain ⟨sorted, hsort, hperm, hle⟩ := sortBy_ok hcompared
  refine ⟨sorted, ?_, hperm, ?_⟩
  · rw [SequentialFile.scanBucket, h.chained.bucket_pages_eq hb, ok_bind, mapM_ok hpage, ok_bind,
      ← hsort, rowsOf, map_flatMap, flatMap_def]
    simp only [map_map]
    rfl
  · refine hle.imp_of_mem ?_
    intro x y hx hy hxy
    exact ord_le_of_scanKey (hK (hK' x (hperm.mem_iff.mp hx)) (hK' y (hperm.mem_iff.mp hy))) hxy

/-- The keys of two records stand in order. -/
def KeysLe (keyFn : KeyFn) (x y : RID × Bytes) : Prop :=
  ∃ k k', keyFn x.2 = .ok k ∧ keyFn y.2 = .ok k' ∧ le k k' = true

theorem InOrder.scan (h : InOrder keyFn K s rs bs)
    (hK : ∀ ⦃k k'⦄, K k → K k' → Value.Comparable k k') :
    ∃ found, scan keyFn s = (.ok found, s) ∧
      found.Perm ((rowsOf rs (bs.flatMap Bucket.pages)).map recordOf) ∧
      found.Pairwise (KeysLe keyFn) := by
  choose! sorted hsorted hperm hle using fun (b : Bucket) (hb : b ∈ bs) => h.scanBucket hK hb
  have hrow : ∀ b ∈ bs, ∀ x ∈ sorted b, ∃ row, row ∈ rowsOf rs b.pages ∧
      x = entryOf keyFn row := by
    intro b hb x hx
    obtain ⟨row, hrow, rfl⟩ := mem_map.mp ((hperm b hb).mem_iff.mp hx)
    exact ⟨row, hrow, rfl⟩
  have hkey : ∀ b ∈ bs, ∀ x ∈ sorted b, HasKey keyFn rs b x.1 ∧
      keyFn (recordOf x.2).2 = .ok x.1 := by
    intro b hb x hx
    obtain ⟨⟨p, slot, data⟩, hrow, rfl⟩ := hrow b hb x hx
    obtain ⟨hp, hslot⟩ := mem_rowsOf.mp hrow
    have hkey := h.keyed.keyed.key hslot
    exact ⟨⟨⟨p, slot⟩, data, hp, hslot, hkey⟩, hkey⟩
  have hle' : ∀ {x y : Entry}, (∃ b ∈ bs, x ∈ sorted b) → (∃ b ∈ bs, y ∈ sorted b) →
      ord x.1 ≤ ord y.1 → KeysLe keyFn (recordOf x.2) (recordOf y.2) := by
    rintro x y ⟨b, hb, hx⟩ ⟨c, hc, hy⟩ hxy
    obtain ⟨hbx, hkx⟩ := hkey b hb x hx
    obtain ⟨hcy, hky⟩ := hkey c hc y hy
    exact ⟨x.1, y.1, hkx, hky, (hK (h.hasKey hbx) (h.hasKey hcy)).le_iff.mpr hxy⟩
  have hbuckets : (bs.map Bucket.main).mapM (SequentialFile.scanBucket keyFn s.diskManager) =
      .ok (bs.map sorted) := by
    rw [mapM_map]
    exact mapM_ok hsorted
  refine ⟨(bs.flatMap sorted).map (fun x => recordOf x.2), ?_, ?_, ?_⟩
  · rw [SequentialFile.scan, run_bind_ok _ (run_get s), h.chained.main_pages_eq,
      run_bind_ok _ (run_lift _ _), hbuckets, run_bind_ok _ (run_lift _ _), flatMap_def]
    rfl
  · have hflat : (bs.flatMap sorted).Perm
        (bs.flatMap (fun b => (rowsOf rs b.pages).map (entryOf keyFn))) :=
      List.Perm.flatMap_left bs hperm
    refine (hflat.map _).trans (List.Perm.of_eq ?_)
    simp only [rowsOf, map_flatMap, map_map, flatMap_assoc]
    rfl
  · rw [pairwise_map, pairwise_flatMap]
    refine ⟨?_, h.sorted.imp_of_mem ?_⟩
    · intro b hb
      exact (hle b hb).imp_of_mem (fun hx hy hxy => hle' ⟨b, hb, hx⟩ ⟨b, hb, hy⟩ hxy)
    · intro b c hb hc hbc x hx y hy
      exact hle' ⟨b, hb, hx⟩ ⟨c, hc, hy⟩
        (hbc x.1 y.1 (hkey b hb x hx).1 (hkey c hc y hy).1)

end Scan

/-! ## Runs -/

section Runs

variable {keyFn : KeyFn} {K : Value → Prop}

/-- A scan shows the live records, each once and in the order of their keys, and no key of a
bucket is above a key of a later bucket. -/
structure ScansInOrder (keyFn : KeyFn) (h : History SequentialFile) : Prop where
  scanned : ∃ found, scan keyFn h.file = (.ok found, h.file) ∧ found.Perm h.records.rows ∧
    found.Pairwise (KeysLe keyFn)
  buckets : ∃ mains keys, mainPages h.file.diskManager = .ok mains ∧
    mains.mapM (bucketKeys keyFn h.file.diskManager) = .ok keys ∧
    keys.Pairwise (fun ks ks' => ∀ k ∈ ks, ∀ k' ∈ ks', le k k' = true)

variable {rs : RecordPages} {h : History SequentialFile}

theorem nodup_records {pages : List Int} (h : pages.Nodup) :
    ((rowsOf rs pages).map recordOf).Nodup := by
  refine (nodup_rowsOf h).map ?_
  rintro ⟨p, slot, data⟩ ⟨p', slot', data'⟩ heq
  simp only [recordOf, Prod.mk.injEq, RID.mk.injEq, Nat.cast_inj] at heq
  obtain ⟨⟨rfl, rfl⟩, rfl⟩ := heq
  rfl

theorem InOrder.records {bs : List Bucket} (hin : InOrder keyFn K h.file rs bs)
    (hkeeps : (organization keyFn).KeepsRids h) :
    ((rowsOf rs (bs.flatMap Bucket.pages)).map recordOf).Perm h.records.rows := by
  have hslot : ∀ rid, (slotOf rs rid).join = h.records.fetch rid := by
    intro rid
    have hfetched := hkeeps.fetched rid
    have hfetch : (organization keyFn).fetch rid h.file = (.ok (slotOf rs rid).join, h.file) :=
      fetch_spec hin.chained rid
    rw [hfetch, Except.ok.injEq] at hfetched
    exact hfetched
  refine (perm_ext_iff_of_nodup (nodup_records hin.chained.nodup)
    (List.Nodup.of_map _ h.records.nodup)).mpr ?_
  rintro ⟨rid, data⟩
  rw [mem_rows_iff, ← hslot, Option.join_eq_some_iff, mem_map]
  constructor
  · rintro ⟨⟨p, slot, d⟩, hrow, heq⟩
    obtain ⟨rfl, rfl⟩ := Prod.mk.inj heq
    exact (mem_rowsOf.mp hrow).2
  · intro hlive
    obtain ⟨b, hb, hp⟩ := hin.chained.bucket_of_slot (show slotOf rs rid ≠ none by
      rw [hlive]; simp)
    obtain ⟨p, slot⟩ := rid
    obtain ⟨n, rfl⟩ := slot_of_live hlive
    exact ⟨(p, n, data), mem_rowsOf.mpr ⟨Chained.mem_pages hb hp, hlive⟩, rfl⟩

theorem InOrder.scansInOrder {bs : List Bucket} (hin : InOrder keyFn K h.file rs bs)
    (hkeeps : (organization keyFn).KeepsRids h)
    (hK : ∀ ⦃k k'⦄, K k → K k' → Value.Comparable k k') : ScansInOrder keyFn h := by
  constructor
  · obtain ⟨found, hscan, hperm, hle⟩ := hin.scan hK
    exact ⟨found, hscan, hperm.trans (hin.records hkeeps), hle⟩
  · refine ⟨_, bs.map (fun b => (rowsOf rs b.pages).map (fun row => keyOf keyFn row.2.2)),
      hin.chained.main_pages_eq, ?_, ?_⟩
    · rw [mapM_map]
      exact mapM_ok (fun b hb => hin.chained.bucket_keys_eq hb hin.keyed.keyed)
    · rw [pairwise_map]
      refine hin.sorted.imp ?_
      intro b c hle k hk k' hk'
      rw [mem_keys_iff hin.keyed.keyed] at hk hk'
      exact (hK (hin.hasKey hk) (hin.hasKey hk')).le_iff.mpr (hle k k' hk hk')

/-- The keys of an insert satisfy `K`. -/
def KeyIn (keyFn : KeyFn) (K : Value → Prop) (action : Action) : Prop :=
  ∀ data, action = .insert data → ∀ k, keyFn data = .ok k → K k

theorem InOrder.step {s : SequentialFile} (hin : ∃ rs bs, InOrder keyFn K s rs bs)
    (hK : ∀ ⦃k k'⦄, K k → K k' → Value.Comparable k k') {action : Action}
    (hkey : KeyIn keyFn K action) :
    ∃ rs bs, InOrder keyFn K ((organization keyFn).act s action) rs bs := by
  obtain ⟨rs, bs, hin⟩ := hin
  cases action with
  | insert data => exact state_of_wp (hin.insert hK (hkey data rfl))
  | remove rid =>
      obtain ⟨rs', hin'⟩ := hin.remove rid
      exact ⟨rs', bs, hin'⟩
  | reopen => exact ⟨rs, bs, hin.reopen⟩

/-- Scans are in order in every state of every run on a new sequential file whose keys can
all be compared with each other. -/
theorem scan_in_order {pageSize : Nat} {file : SequentialFile}
    (hinit : init keyFn ⟨pageSize, []⟩ = .ok file)
    (hK : ∀ ⦃k k'⦄, K k → K k' → Value.Comparable k k') (actions : List Action)
    (hkeys : ∀ action ∈ actions, KeyIn keyFn K action) :
    Always (ScansInOrder keyFn) (organization keyFn).step ⟨file, empty⟩
      actions := by
  obtain ⟨hchained, _, hmax⟩ := init_new hinit
  have hstart : ∃ rs bs, InOrder keyFn K file rs bs := by
    refine ⟨_, _, hchained, keyed_new hmax, ?_, pairwise_singleton _ _⟩
    intro rid data k hslot
    rw [slotOf_new] at hslot
    cases hslot
  have hsteps : Steps (fun _ action => KeyIn keyFn K action) (organization keyFn).step
      ⟨file, empty⟩ actions := steps_of_forall _ hkeys
  have hin : Always (fun h => ∃ rs bs, InOrder keyFn K h.file rs bs)
      (organization keyFn).step ⟨file, empty⟩ actions :=
    always_of_steps (fun h action hin hkey => by
      rw [Organization.step_file]
      exact InOrder.step hin hK hkey) hstart hsteps
  refine Always.mono ?_ (hin.and (always_keepsRids keyFn hinit actions))
  rintro h ⟨⟨rs, bs, hin⟩, hkeeps⟩
  exact hin.scansInOrder hkeeps hK

/-- Records with a four-byte integer as their key. -/
theorem scan_in_order_ints : ∃ file,
    init (fun data => .ok (.int (Pack.unpackI 4 data))) ⟨64, []⟩ = .ok file ∧
    Always (ScansInOrder (fun data => .ok (.int (Pack.unpackI 4 data))))
      (organization (fun data => .ok (.int (Pack.unpackI 4 data)))).step
      ⟨file, empty⟩ [.insert [7, 0, 0, 0], .insert [7, 0, 0, 0], .reopen] :=
  ⟨_, rfl, @scan_in_order _ (fun v => ∃ i, v = .int i) 64 _ rfl
    (by rintro _ _ ⟨i, rfl⟩ ⟨j, rfl⟩; exact rfl) _
    (by rintro _ _ data _ k hk; exact ⟨_, (Except.ok.inj hk).symm⟩)⟩

end Runs

end SoupDB.SequentialFile
