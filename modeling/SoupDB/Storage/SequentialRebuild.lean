import SoupDB.Storage.SequentialKeys

/-!
# SoupDB: live and reopened sequential files

Two sequential files on the same pages whose metadata agree cannot be told apart
(`SameMetadata.alike`).  The metadata of a file agrees with what a rebuild computes from
its pages as long as every key that joins a bucket can be compared with the keys of the
bucket (`reopens_alike`).  A live file accepts a key that cannot: it is only compared with
the largest key of its bucket, which is NULL where there is none or the key is NULL.  A
rebuild compares all keys of a bucket and raises.
-/

namespace SoupDB.SequentialFile

open Effect SlottedPage SequentialPage

/-! ## Files that cannot be told apart -/

/-- The pages are the same, and so is the metadata, up to keys that no comparison tells apart. -/
structure SameMetadata (s t : SequentialFile) : Prop where
  pages : t.diskManager = s.diskManager
  max : ∀ p, Option.Rel Value.Same (s.pageMaxKey.lookup p) (t.pageMaxKey.lookup p)
  next : ∀ p, t.mainNext.lookup p = s.mainNext.lookup p
  owner : ∀ p, t.pageOwnerMain.lookup p = s.pageOwnerMain.lookup p

/-- What the actions of a run give, one after the other. -/
def outcomes (keyFn : KeyFn) : SequentialFile → List Action → List Outcome
  | _, [] => []
  | s, action :: actions =>
      ((organization keyFn).perform s action).1 ::
        outcomes keyFn ((organization keyFn).act s action) actions

/-- Every later run gives the same outcomes on both files, and so does a scan after it. -/
def Alike (keyFn : KeyFn) (s t : SequentialFile) : Prop :=
  ∀ actions, outcomes keyFn s actions = outcomes keyFn t actions ∧
    (scan keyFn (exec (organization keyFn).act s actions)).1 =
      (scan keyFn (exec (organization keyFn).act t actions)).1

namespace SameMetadata

variable {s t : SequentialFile} {keyFn : KeyFn} {key : Value} {V : Type}

theorem rel_refl {a : Option Value} : Option.Rel Value.Same a a := by
  cases a with
  | none => exact Option.Rel.none
  | some v => exact Option.Rel.some (Value.Same.refl v)

theorem refl (s : SequentialFile) : SameMetadata s s :=
  ⟨rfl, fun _ => rel_refl, fun _ => rfl, fun _ => rfl⟩

/-- No comparison tells the largest keys kept for a bucket apart. -/
theorem getD_max (h : SameMetadata s t) (p : Int) :
    Value.Same ((s.pageMaxKey.lookup p).getD .null) ((t.pageMaxKey.lookup p).getD .null) := by
  have hrel := h.max p
  generalize s.pageMaxKey.lookup p = a at hrel ⊢
  generalize t.pageMaxKey.lookup p = b at hrel ⊢
  cases hrel with
  | none => exact Value.Same.refl _
  | some heq => exact heq

theorem with_disk (h : SameMetadata s t) (d : DiskManager) :
    SameMetadata { s with diskManager := d } { t with diskManager := d } :=
  ⟨rfl, h.max, h.next, h.owner⟩

theorem lookup_insert {m m' : Dict Int V} (h : ∀ p, m'.lookup p = m.lookup p) (k : Int) (v : V)
    (p : Int) : (m'.insert k v).lookup p = (m.insert k v).lookup p := by
  rw [Dict.lookup_insert_eq, Dict.lookup_insert_eq, h p]

theorem insert_max (h : SameMetadata s t) (p : Int) {a b : Value} (hab : Value.Same a b) :
    SameMetadata { s with pageMaxKey := s.pageMaxKey.insert p a }
      { t with pageMaxKey := t.pageMaxKey.insert p b } := by
  refine ⟨h.pages, ?_, h.next, h.owner⟩
  intro q
  rw [Dict.lookup_insert_eq, Dict.lookup_insert_eq]
  split
  · exact Option.Rel.some hab
  · exact h.max q

theorem insert_next (h : SameMetadata s t) (p : Int) (next : Option Int) :
    SameMetadata { s with mainNext := s.mainNext.insert p next }
      { t with mainNext := t.mainNext.insert p next } :=
  ⟨h.pages, h.max, lookup_insert h.next p next, h.owner⟩

theorem insert_owner (h : SameMetadata s t) (p mainId : Int) :
    SameMetadata { s with pageOwnerMain := s.pageOwnerMain.insert p mainId }
      { t with pageOwnerMain := t.pageOwnerMain.insert p mainId } :=
  ⟨h.pages, h.max, h.next, lookup_insert h.owner p mainId⟩

/-! ### Programs -/

theorem respects_disk {α : Type} (x : Effect PyError DiskManager α) :
    Respects SameMetadata (disk x) :=
  .focus (fun _ _ h => h.pages.symm) (fun d _ _ h => h.with_disk d)

theorem covers_congr {a b : Value} (h : Value.Same a b) : covers a key = covers b key := by
  by_cases ha : a = .null
  · rw [ha, h.null_iff.mp ha]
  · have hb : b ≠ .null := fun hb => ha (h.null_iff.mpr hb)
    have hge : Value.ge a key = Value.ge b key := (h.compared _ _ key).1
    have hcovers : ∀ {v : Value}, v ≠ .null → covers v key = Value.ge v key := by
      intro v hv
      cases v with
      | null => exact absurd rfl hv
      | _ => rfl
    rw [hcovers ha, hcovers hb, hge]

theorem target_main_eq (h : SameMetadata s t) : ∀ (rounds : Nat) (mainId : Int),
    targetMain s key rounds mainId = targetMain t key rounds mainId := by
  intro rounds
  induction rounds with
  | zero => exact fun _ => rfl
  | succ rounds ih =>
      intro mainId
      rw [targetMain, targetMain, covers_congr (h.getD_max mainId), h.next mainId]
      cases covers ((t.pageMaxKey.lookup mainId).getD .null) key with
      | error e => rfl
      | ok in_range =>
          rw [ok_bind, ok_bind]
          cases (s.mainNext.lookup mainId).join with
          | none => rfl
          | some nextId => simp only [ih nextId]

/-- Keys that no comparison tells apart are raised alike. -/
theorem bump_congr {a b : Value} (h : Value.Same a b) :
    (∃ e, bump a key = .error e ∧ bump b key = .error e) ∨
      ∃ v w, bump a key = .ok v ∧ bump b key = .ok w ∧ Value.Same v w := by
  by_cases ha : a = .null
  · rw [ha, h.null_iff.mp ha]
    exact Or.inr ⟨key, key, rfl, rfl, Value.Same.refl key⟩
  · have hb : b ≠ .null := fun hb => ha (h.null_iff.mpr hb)
    have hgt : Value.gt key a = Value.gt key b := (h.compared _ _ key).2
    have hbump : ∀ {v : Value}, v ≠ .null → bump v key = larger v key := by
      intro v hv
      cases v with
      | null => exact absurd rfl hv
      | _ => rfl
    rw [hbump ha, hbump hb, larger, larger, hgt]
    cases Value.gt key b with
    | error e => exact Or.inl ⟨e, rfl, rfl⟩
    | ok above =>
        cases above with
        | true => exact Or.inr ⟨key, key, rfl, rfl, Value.Same.refl key⟩
        | false => exact Or.inr ⟨a, b, rfl, rfl, h⟩

theorem respects_bump_max (mainId : Int) (key : Value) :
    Respects SameMetadata (bumpMax mainId key) := by
  intro s t h
  rw [bumpMax, run_bind_ok _ (run_get s), run_bind_ok _ (run_get t), run_bind, run_bind,
    run_lift, run_lift]
  rcases @bump_congr key _ _ (h.getD_max mainId) with ⟨e, hs, ht⟩ | ⟨v, w, hs, ht, heq⟩
  · rw [hs, ht]
    exact ⟨rfl, h⟩
  · rw [hs, ht]
    exact ⟨rfl, h.insert_max mainId heq⟩

theorem respects_insert_fresh (pageId mainId : Int) (key : Value) (data : Bytes) :
    Respects SameMetadata (insertFresh pageId mainId key data) :=
  (respects_disk _).bind (fun _ => (respects_bump_max mainId key).bind
    (fun _ => .pure _))

theorem respects_new_page (kind : Nat) : Respects SameMetadata (newPage kind) := by
  refine Respects.get_bind ?_ ?_
  · intro s t h
    rw [h.pages]
  · intro s
    refine (respects_disk _).bind (fun _ => (respects_disk _).bind (fun _ => ?_))
    split
    · refine (Respects.modify (fun s t h => ?_)).bind (fun _ => Respects.pure _)
      exact ((h.insert_max _ (Value.Same.refl .null)).insert_next _ none).insert_owner _ _
    · exact .pure _

theorem respects_link_main (fromId toId : Int) :
    Respects SameMetadata (linkMain fromId toId) :=
  (respects_disk _).bind
    (fun _ => .modify (fun _ _ h => h.insert_next fromId (some toId)))

theorem respects_append_overflow (mainId fromId : Int)
    (link : Bytes → Int → Except PyError Bytes) (key : Value) (data : Bytes) :
    Respects SameMetadata (appendOverflow mainId fromId link key data) := by
  refine (respects_new_page OVERFLOW).bind (fun newOverflow => ?_)
  refine (Respects.modify (fun _ _ h => h.insert_owner newOverflow mainId)).bind (fun _ => ?_)
  exact (respects_disk _).bind (fun _ => respects_insert_fresh _ _ _ _)

theorem respects_insert_along (mainId : Int) (key : Value) (data : Bytes) :
    ∀ (rounds : Nat) (current : Int),
      Respects SameMetadata (insertAlong mainId key data rounds current) := by
  intro rounds
  induction rounds with
  | zero => exact fun _ => .raise _
  | succ rounds ih =>
      intro current
      refine (respects_disk _).bind (fun slot => ?_)
      cases slot with
      | some slot => exact (respects_bump_max mainId key).bind (fun _ => .pure _)
      | none =>
          refine (respects_disk _).bind (fun nextOverflow => ?_)
          cases nextOverflow with
          | none => exact respects_append_overflow _ _ _ _ _
          | some nextOverflow => exact ih nextOverflow

theorem respects_insert_into_overflow (mainId : Int) (key : Value) (data : Bytes) :
    Respects SameMetadata (insertIntoOverflow mainId key data) := by
  refine (respects_disk _).bind (fun current => ?_)
  cases current with
  | none => exact respects_append_overflow _ _ _ _ _
  | some current =>
      refine .get_bind ?_ (fun s => respects_insert_along _ _ _ _ _)
      intro s t h
      rw [h.pages]

theorem respects_insert (keyFn : KeyFn) (data : Bytes) :
    Respects SameMetadata (insert keyFn data) := by
  refine .get_bind ?_ ?_
  · intro s t h
    simp only [h.pages, h.target_main_eq]
  · intro s
    split
    · exact Respects.raise _
    · refine (Respects.lift _).bind (fun key => (Respects.lift _).bind (fun target => ?_))
      refine (respects_disk _).bind (fun slot => ?_)
      cases slot with
      | some slot => exact (respects_bump_max _ _).bind (fun _ => .pure _)
      | none =>
          simp only
          split
          · refine (respects_new_page MAIN).bind (fun newMain => ?_)
            exact (respects_link_main _ _).bind (fun _ => respects_insert_fresh _ _ _ _)
          · exact respects_insert_into_overflow _ _ _

theorem respects_remove (keyFn : KeyFn) (rid : RID) :
    Respects SameMetadata (remove keyFn rid) := by
  refine .get_bind ?_ ?_
  · intro s t h
    rw [pageExists, pageExists, h.pages]
  · intro s
    split
    · exact .pure _
    · refine (respects_disk _).bind (fun removed => ?_)
      split
      · exact .pure _
      · refine .get_bind ?_ ?_
        · intro s t h
          rw [h.pages, h.owner]
        · intro s
          split
          · exact Respects.raise _
          · next ownerMainId _ =>
              refine (Respects.lift _).bind (fun largest => ?_)
              refine (Respects.modify (fun _ _ h =>
                h.insert_max ownerMainId (Value.Same.refl largest))).bind (fun _ => ?_)
              refine (Respects.lift _).bind (fun stats => ?_)
              simp only
              split
              · refine .bind ?_ (fun _ => .pure _)
                refine .get_bind ?_ ?_
                · intro s t h
                  rw [h.pages]
                · intro s
                  exact (Respects.lift _).bind
                    (fun pages => .forEach (fun p => respects_disk _) pages)
              · exact .pure _

theorem respects_reopen (keyFn : KeyFn) : Respects SameMetadata (reopen keyFn) := by
  refine .get_bind ?_ ?_
  · intro s t h
    rw [h.pages]
  · intro s
    exact (Respects.lift _).bind (fun s => Respects.modify (fun _ _ _ => refl s))

theorem respects_scan (keyFn : KeyFn) : Respects SameMetadata (scan keyFn) := by
  refine .get_bind ?_ ?_
  · intro s t h
    rw [h.pages]
  · intro s
    exact (Respects.lift _).bind (fun _ => (Respects.lift _).bind (fun _ => Respects.pure _))

/-- An action gives the same on both files, and leaves files with the same metadata. -/
theorem perform (h : SameMetadata s t) (keyFn : KeyFn) (action : Action) :
    ((organization keyFn).perform s action).1 = ((organization keyFn).perform t action).1 ∧
      SameMetadata ((organization keyFn).act s action) ((organization keyFn).act t action) := by
  cases action with
  | insert data =>
      obtain ⟨hresult, hleft⟩ := respects_insert keyFn data s t h
      exact ⟨congrArg Outcome.inserted hresult, hleft⟩
  | remove rid =>
      obtain ⟨hresult, hleft⟩ := respects_remove keyFn rid s t h
      exact ⟨congrArg Outcome.removed hresult, hleft⟩
  | reopen =>
      obtain ⟨hresult, hleft⟩ := respects_reopen keyFn s t h
      exact ⟨congrArg Outcome.reopened hresult, hleft⟩

/-- Files with the same metadata cannot be told apart. -/
theorem alike (h : SameMetadata s t) (keyFn : KeyFn) : Alike keyFn s t := by
  intro actions
  induction actions generalizing s t with
  | nil => exact ⟨rfl, (respects_scan keyFn s t h).1⟩
  | cons action actions ih =>
      obtain ⟨hresult, hnext⟩ := h.perform keyFn action
      obtain ⟨hrest, hscan⟩ := ih hnext
      refine ⟨?_, hscan⟩
      rw [outcomes, outcomes, hresult, hrest]

end SameMetadata

/-! ## What is kept in memory and what is computed -/

section Exact

variable {s s' t : SequentialFile} {rs : RecordPages} {bs before after : List Bucket}
  {b : Bucket} {keyFn : KeyFn} {key : Value} {data : Bytes} {rid : RID} {P : Value → Prop}

/-- The metadata is that of the buckets: nothing is missing, and nothing else is kept. -/
structure Exact (s : SequentialFile) (bs : List Bucket) : Prop where
  tidy : Tidy s bs
  known : ∀ b ∈ bs, ∃ largest, s.pageMaxKey.lookup b.main = some largest

/-- No comparison tells two largest keys apart. -/
theorem IsMax.unique {a b : Value} (ha : IsMax P a) (hb : IsMax P b)
    (hcomp : ∀ k k', P k → P k' → k = k' ∨ Value.Comparable k k') : Value.Same a b := by
  rcases ha with ⟨hempty, rfl⟩ | ⟨m, hm, heq, hle⟩
  · rcases hb with ⟨_, rfl⟩ | ⟨m', hm', _, _⟩
    · exact Value.Same.refl _
    · exact absurd hm' (hempty m')
  · rcases hb with ⟨hempty, rfl⟩ | ⟨m', hm', heq', hle'⟩
    · exact absurd hm (hempty m)
    · have hsame : Value.Same m m' :=
        (hcomp m m' hm hm').imp id
          (fun hc => hc.eq_iff.mpr (le_antisymm (hle' m hm) (hle m' hm')))
      exact heq.symm.trans (hsame.trans heq')

theorem KeyedBucket.same_or_comparable {largest : Value}
    (h : KeyedBucket keyFn rs b largest) (k k' : Value) (hk : HasKey keyFn rs b k)
    (hk' : HasKey keyFn rs b k') : k = k' ∨ Value.Comparable k k' := by
  obtain ⟨r, d, hr, hslot, hkey⟩ := hk
  obtain ⟨r', d', hr', hslot', hkey'⟩ := hk'
  by_cases heq : r = r'
  · subst heq
    rw [hslot, Option.some.injEq, Option.some.injEq] at hslot'
    subst hslot'
    exact Or.inl (Except.ok.inj (hkey.symm.trans hkey'))
  · exact Or.inr (h.comparable heq hr hslot hkey hr' hslot' hkey')

/-- What a rebuild computes is what the file keeps. -/
theorem Exact.sameMetadata (hexact : Exact s bs) (h : Chained s rs bs)
    (hkeyed : Keyed keyFn s rs bs) (hbuilt : Built keyFn s.diskManager bs t)
    (ht : Keyed keyFn t rs bs) : SameMetadata s t := by
  have hchained := hbuilt.chained h
  refine ⟨hbuilt.disk, ?_, ?_, ?_⟩
  · intro p
    by_cases hp : p ∈ bs.map Bucket.main
    · obtain ⟨b, hb, rfl⟩ := List.mem_map.mp hp
      obtain ⟨largest, hlargest⟩ := hexact.known b hb
      obtain ⟨computed, _, hcomputed⟩ := hbuilt.max b hb
      have hmax := (hkeyed.bucket b hb).max
      have hmax' := (ht.bucket b hb).max
      rw [maxOf, hlargest] at hmax
      rw [maxOf, hcomputed] at hmax'
      rw [hlargest, hcomputed]
      exact Option.Rel.some
        (hmax.unique hmax' (hkeyed.bucket b hb).same_or_comparable)
    · rw [hexact.tidy.max p hp, hbuilt.max_none p hp]
      exact Option.Rel.none
  · intro p
    by_cases hp : p ∈ bs.map Bucket.main
    · obtain ⟨next, hs, ht⟩ := h.mainNext.both hchained.mainNext hp
      rw [hs, ht]
    · rw [hexact.tidy.next p hp, hbuilt.next_none p hp]
  · intro p
    by_cases hp : p ∈ bs.flatMap Bucket.pages
    · obtain ⟨b, hb, hpb⟩ := List.mem_flatMap.mp hp
      rw [h.owner b hb p hpb, hchained.owner b hb p hpb]
    · rw [hexact.tidy.owner p hp, hbuilt.owner_none p hp]

theorem Exact.landed_in {b' : Bucket} {rs' : RecordPages} {current : Value}
    (hexact : Exact s (before ++ b :: after))
    (hlanded : Landed s rs key data rid b current s' rs' b')
    (htidy : Tidy s (before ++ b :: after) → Tidy s' (before ++ b' :: after)) :
    Exact s' (before ++ b' :: after) := by
  refine ⟨htidy hexact.tidy, ?_⟩
  intro c hc
  rw [hlanded.max]
  split
  · exact ⟨_, rfl⟩
  · next hne =>
      have hcase : c = b' ∨ c ∈ before ++ b :: after := by
        simp only [List.mem_append, List.mem_cons] at hc ⊢
        tauto
      rcases hcase with rfl | hc
      · exact absurd hlanded.main hne
      · exact hexact.known c hc

theorem Exact.landed_new {new : Int} {rs' : RecordPages} (hexact : Exact s bs)
    (hlanded : Landed s rs key data rid ⟨new, []⟩ .null s' rs' ⟨new, []⟩)
    (htidy : Tidy s bs → Tidy s' (bs ++ [⟨new, []⟩])) : Exact s' (bs ++ [⟨new, []⟩]) := by
  refine ⟨htidy hexact.tidy, ?_⟩
  intro c hc
  rw [hlanded.max]
  split
  · exact ⟨_, rfl⟩
  · next hne =>
      rcases List.mem_append.mp hc with hc | hc
      · exact hexact.known c hc
      · rw [List.mem_singleton.mp hc] at hne
        exact absurd rfl hne

theorem Exact.failed (hexact : Exact s bs) (h : Failed s rs bs s')
    (hcount : s.diskManager.pageCount < 2147483648) : Exact s' bs := by
  obtain ⟨hmax, hnext, howner, hcount'⟩ := h.kept hcount
  refine ⟨⟨?_, ?_, ?_, ?_⟩, ?_⟩
  · rw [hcount']
    exact hexact.tidy.pages
  · rw [hmax]
    exact hexact.tidy.max
  · rw [hnext]
    exact hexact.tidy.next
  · rw [howner]
    exact hexact.tidy.owner
  · rw [hmax]
    exact hexact.known

theorem Exact.lowered (hexact : Exact s bs) (h : Lowered s bs s') : Exact s' bs := by
  refine ⟨⟨?_, ?_, ?_, ?_⟩, ?_⟩
  · rw [h.count]
    exact hexact.tidy.pages
  · intro p hp
    rcases h.max p with hsame | ⟨hmem, _⟩
    · rw [hsame]
      exact hexact.tidy.max p hp
    · exact absurd hmem hp
  · rw [h.next]
    exact hexact.tidy.next
  · rw [h.owner]
    exact hexact.tidy.owner
  · intro b hb
    rcases h.max b.main with hsame | ⟨_, hsome⟩
    · rw [hsame]
      exact hexact.known b hb
    · exact Option.isSome_iff_exists.mp hsome

theorem Exact.built (hexact : Exact s bs) (h : Built keyFn s.diskManager bs t) :
    Exact t bs := by
  refine ⟨⟨?_, h.max_none, h.next_none, h.owner_none⟩, ?_⟩
  · rw [h.disk]
    exact hexact.tidy.pages
  · intro b hb
    obtain ⟨largest, _, hlargest⟩ := h.max b hb
    exact ⟨largest, hlargest⟩

end Exact

/-! ## Runs -/

section Runs

variable {keyFn : KeyFn} {s : SequentialFile} {rs : RecordPages} {bs : List Bucket}
  {data : Bytes}

/-- A rebuild computes the metadata the file keeps, and a file with the computed metadata
behaves as this one. -/
def ReopensAlike (keyFn : KeyFn) (s : SequentialFile) : Prop :=
  ∃ t, rebuildChainMetadata keyFn s.diskManager = .ok t ∧ SameMetadata s t ∧
    Alike keyFn s t

/-- The key of an insert can be compared with every key of the bucket it joins, and the
page id of a new page can be written. -/
def Admissible (keyFn : KeyFn) (s : SequentialFile) : Action → Prop
  | .insert data =>
      s.diskManager.pageCount < 2147483648 ∧
        ∀ key mainId in_range keys, (data.length : Int) ≤ maxPayload s.diskManager.pageSize →
          keyFn data = .ok key →
          targetMain s key (s.diskManager.pageCount + 1) MAIN_HEAD = .ok (mainId, in_range) →
          in_range = true ∨ Room s mainId data →
          bucketKeys keyFn s.diskManager mainId = .ok keys →
          ∀ k ∈ keys, Value.Comparable key k
  | _ => True

/-- The metadata of the file is that of buckets whose keys can be compared. -/
def Sound (keyFn : KeyFn) (s : SequentialFile) : Prop :=
  ∃ rs bs, Chained s rs bs ∧ Keyed keyFn s rs bs ∧ Exact s bs

theorem Sound.reopensAlike (h : Sound keyFn s) : ReopensAlike keyFn s := by
  obtain ⟨rs, bs, hchained, hkeyed, hexact⟩ := h
  obtain ⟨t, ht, hbuilt, _, hkeyed'⟩ := hkeyed.rebuild hchained
  have hsame := hexact.sameMetadata hchained hkeyed hbuilt hkeyed'
  exact ⟨t, ht, hsame, hsame.alike keyFn⟩

theorem Sound.insert (h : Sound keyFn s) (hguard : Admissible keyFn s (.insert data)) :
    wp (insert keyFn data) (fun _ s' => Sound keyFn s') (fun _ s' => Sound keyFn s') s := by
  obtain ⟨rs, bs, hchained, hkeyed, hexact⟩ := h
  obtain ⟨hcount, hguard⟩ := hguard
  refine wp_mono (insert_spec hchained keyFn data) ?_ ?_
  · rintro rid s' ⟨key, before, b, after, in_range, hkey, htarget, rfl, _, hsize, hcase⟩
    have hcomp : in_range = true ∨ Room s b.main data →
        ∀ k, HasKey keyFn rs b k → Value.Comparable key k := by
      intro hjoins k hk
      exact hguard key b.main in_range _ hsize hkey htarget hjoins
        (hchained.bucket_keys_eq (by simp) hkeyed.keyed) k ((mem_keys_iff hkeyed.keyed).mpr hk)
    rcases hcase with ⟨hrange, _, hlanded⟩ | ⟨_, _, rfl, ⟨hroom, hlanded⟩ | hlanded⟩
    · obtain ⟨rs', b', hlanded, hchained', hkeyed', htidy⟩ :=
        hkeyed.landed_in hlanded hkey (hcomp (Or.inl hrange))
      exact ⟨rs', _, hchained', hkeyed', hexact.landed_in hlanded htidy⟩
    · obtain ⟨rs', b', hlanded, hchained', hkeyed', htidy⟩ :=
        hkeyed.landed_in hlanded hkey (hcomp (Or.inr hroom))
      exact ⟨rs', _, hchained', hkeyed', hexact.landed_in hlanded htidy⟩
    · obtain ⟨rs', new, hlanded, hchained', hkeyed', _, htidy⟩ :=
        Keyed.landed_new hchained hkeyed hlanded hkey
      exact ⟨rs', _, hchained', hkeyed', hexact.landed_new hlanded htidy⟩
  · intro _ s' hfailed
    obtain ⟨rs', hchained', _, hkeyed'⟩ := hfailed.keyed hkeyed
    exact ⟨rs', bs, hchained', hkeyed', hexact.failed hfailed hcount⟩

theorem Sound.act (h : Sound keyFn s) {action : Action} (hguard : Admissible keyFn s action) :
    Sound keyFn ((organization keyFn).act s action) := by
  cases action with
  | insert data => exact state_of_wp (h.insert hguard)
  | remove rid =>
      obtain ⟨rs, bs, hchained, hkeyed, hexact⟩ := h
      have hwp := Keyed.remove hchained hkeyed rid
      refine state_of_wp (wp_mono hwp ?_ (fun _ _ hE => hE.elim))
      rintro _ s' ⟨rs', hchained', _, hkeyed', hlowered⟩
      exact ⟨rs', bs, hchained', hkeyed', hexact.lowered hlowered⟩
  | reopen =>
      obtain ⟨rs, bs, hchained, hkeyed, hexact⟩ := h
      obtain ⟨t, ht, hbuilt, hchained', hkeyed'⟩ := hkeyed.rebuild hchained
      have hreopen : (organization keyFn).act s .reopen = t := by
        show (reopen keyFn s).2 = t
        rw [reopen, run_bind_ok _ (run_get s), run_bind, run_lift, init,
          if_neg hchained.page_count_ne, ht]
        rfl
      rw [hreopen]
      exact ⟨rs, bs, hchained', hkeyed', hexact.built hbuilt⟩

/-- In every run on a new file whose keys can be compared within their buckets, opening the
pages again gives a file that cannot be told apart from the live one. -/
theorem reopens_alike {pageSize : Nat} {file : SequentialFile}
    (hinit : init keyFn ⟨pageSize, []⟩ = .ok file) (actions : List Action)
    (hsteps : Steps (Admissible keyFn) (organization keyFn).act file actions) :
    Always (ReopensAlike keyFn) (organization keyFn).act file actions := by
  obtain ⟨hchained, htidy, hmax⟩ := init_new hinit
  have hstart : Sound keyFn file := by
    refine ⟨_, _, hchained, keyed_new hmax, htidy, ?_⟩
    intro b hb
    rw [List.mem_singleton.mp hb]
    exact ⟨_, hmax⟩
  exact (always_of_steps (fun s action h hguard => h.act hguard) hstart hsteps).mono
    (fun _ h => h.reopensAlike)

def nullableKey : KeyFn := fun data =>
  if data = [0] then .ok .null else .ok (.int (Pack.unpackI 4 (data.drop 1)))

theorem reopens_alike_two_keys : ∃ file, init nullableKey ⟨32, []⟩ = .ok file ∧
    Always (ReopensAlike nullableKey) (organization nullableKey).act file
      [.insert [1, 7, 0, 0, 0], .insert [1, 9, 0, 0, 0]] := by
  refine ⟨_, rfl, @reopens_alike _ 32 _ rfl _ ⟨⟨by decide, ?_⟩, ⟨by decide, ?_⟩, trivial⟩⟩
  · intro key mainId in_range keys _ hkey htarget _ hkeys k hk
    obtain rfl : Value.int 7 = key := Except.ok.inj hkey
    have hmain : Except.ok ((0 : Int), false) = Except.ok (mainId, in_range) := htarget
    obtain ⟨rfl, _⟩ := Prod.mk.inj (Except.ok.inj hmain)
    obtain rfl : [] = keys := Except.ok.inj hkeys
    cases hk
  · intro key mainId in_range keys _ hkey htarget _ hkeys k hk
    obtain rfl : Value.int 9 = key := Except.ok.inj hkey
    have hmain : Except.ok ((0 : Int), false) = Except.ok (mainId, in_range) := htarget
    obtain ⟨rfl, _⟩ := Prod.mk.inj (Except.ok.inj hmain)
    obtain rfl : [Value.int 7] = keys := Except.ok.inj hkeys
    rw [List.mem_singleton.mp hk]
    rfl

/-- A file with two NULL keys in a bucket cannot be opened again. -/
theorem reopen_raises : ∃ file, init nullableKey ⟨32, []⟩ = .ok file ∧
    ¬ Always (ReopensAlike nullableKey) (organization nullableKey).act file
      [.insert [0], .insert [0]] := by
  refine ⟨_, rfl, ?_⟩
  intro halways
  obtain ⟨t, ht, _⟩ := halways.last
  cases ht

end Runs

end SoupDB.SequentialFile
