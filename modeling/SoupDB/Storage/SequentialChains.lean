import SoupDB.Storage.SequentialSteps
import SoupDB.Lib.Linked

/-!
# SoupDB: the buckets of a sequential file

The page headers link the main pages to a chain, and every main page to the chain of its
overflow pages.  `Chained s rs bs` says that the headers, and the metadata kept beside
them, describe the buckets `bs`, and that every record lies in one of them.  It says
nothing about keys.

`main_pages_eq` and `bucket_pages_eq` read the buckets back, `target_main_ok` says which
bucket an insert looks at, and `Chained.rebody` that a page of a bucket can get other
records.
-/

namespace SoupDB.SequentialFile

open Effect SlottedPage SequentialPage DiskManager List

/-- A bucket: its main page and its overflow pages, in order. -/
structure Bucket where
  main : Int
  overflow : List Int

def Bucket.pages (b : Bucket) : List Int := b.main :: b.overflow

/-- The pages the header of a page is linked to. -/
def Link (d : DiskManager) (pageId : Int) (next first : Option Int) : Prop :=
  next ≠ some NONE_PAGE ∧ first ≠ some NONE_PAGE ∧
    ∃ frame kind, d.readPage pageId = .ok frame ∧
      HasHeader frame kind (next.getD NONE_PAGE) (first.getD NONE_PAGE)

/-- The headers and the metadata describe these buckets. -/
structure Chained (s : SequentialFile) (rs : RecordPages) (bs : List Bucket) : Prop where
  stored : Stored SequentialPage.HEADER_SIZE s.diskManager rs
  mains : LinkedTo (fun p next => ∃ first, Link s.diskManager p next first)
    (bs.map Bucket.main) none
  first : ∀ b ∈ bs, ∃ next, Link s.diskManager b.main next b.overflow.head?
  overflow : ∀ b ∈ bs, LinkedTo (fun p next => Link s.diskManager p next none) b.overflow none
  mainNext : LinkedTo (fun p next => s.mainNext.lookup p = some next) (bs.map Bucket.main) none
  owner : ∀ b ∈ bs, ∀ p ∈ b.pages, s.pageOwnerMain.lookup p = some b.main
  nodup : (bs.flatMap Bucket.pages).Nodup
  head : bs.head?.map Bucket.main = some MAIN_HEAD
  orphan : ∀ {p : Nat} {records : List (Option Bytes)}, rs[p]? = some records →
    (p : Int) ∉ bs.flatMap Bucket.pages → records = []

/-- The largest key that is kept for a bucket. -/
def maxOf (s : SequentialFile) (b : Bucket) : Value :=
  (s.pageMaxKey.lookup b.main).getD .null

section Links

variable {d d' : DiskManager} {pageId p : Int} {next first : Option Int} {frame frame' : Bytes}
  {records : List (Option Bytes)} {kind : Nat}

theorem getD_none_page {q : Option Int} (h : q ≠ some NONE_PAGE) :
    (if q.getD NONE_PAGE = NONE_PAGE then none else some (q.getD NONE_PAGE)) = q := by
  cases q with
  | none => rfl
  | some i =>
      have hi : i ≠ NONE_PAGE := fun heq => h (congrArg some heq)
      rw [Option.getD_some, if_neg hi]

theorem Link.nextPageId (h : Link d pageId next first) :
    ∃ frame, d.readPage pageId = .ok frame ∧ nextPageId frame = .ok next := by
  obtain ⟨hnext, _, frame, kind, hread, hheader⟩ := h
  exact ⟨frame, hread, by rw [hheader.nextPageId, getD_none_page hnext]⟩

theorem Link.firstOverflowPageId (h : Link d pageId next first) :
    ∃ frame, d.readPage pageId = .ok frame ∧ firstOverflowPageId frame = .ok first := by
  obtain ⟨_, hfirst, frame, kind, hread, hheader⟩ := h
  exact ⟨frame, hread, by rw [hheader.firstOverflowPageId, getD_none_page hfirst]⟩

theorem Link.valid (h : Link d pageId next first) : d.validPageId pageId := by
  obtain ⟨_, _, frame, kind, hread, _⟩ := h
  exact validPageId_of_read_page hread

theorem Rebodied.link (h : Rebodied d pageId frame records d')
    (hread : d.readPage pageId = .ok frame) (hlink : Link d p next first) :
    Link d' p next first := by
  obtain ⟨b, hwrite, _, _⟩ := h.written
  obtain ⟨hnext, hfirst, frame', kind, hread', hheader⟩ := hlink
  refine ⟨hnext, hfirst, ?_⟩
  rw [read_page_write_page hwrite]
  by_cases hp : p = pageId
  · subst hp
    obtain rfl : frame' = frame := by
      rw [hread] at hread'
      exact (Except.ok.inj hread').symm
    rw [if_pos rfl]
    exact ⟨_, kind, rfl, hheader.withBody b⟩
  · rw [if_neg hp]
    exact ⟨frame', kind, hread', hheader⟩

theorem Relinked.link_ne (h : Relinked d pageId frame frame' d') (hp : p ≠ pageId)
    (hlink : Link d p next first) : Link d' p next first := by
  obtain ⟨hnext, hfirst, frame'', kind, hread, hheader⟩ := hlink
  refine ⟨hnext, hfirst, frame'', kind, ?_, hheader⟩
  rw [read_page_write_page h.written, if_neg hp]
  exact hread

theorem Relinked.read (h : Relinked d pageId frame frame' d') :
    d'.readPage pageId = .ok frame' := by
  rw [read_page_write_page h.written, if_pos rfl]

theorem Relinked.link_next (h : Relinked d pageId frame frame' d') {value : Int}
    (hset : setNextPageId frame value = .ok frame') (hread : d.readPage pageId = .ok frame)
    (hvalue : 0 ≤ value ∧ value < 2147483648) (hlink : Link d pageId next first) :
    Link d' pageId (some value) first := by
  obtain ⟨_, hfirst, frame₀, kind, hread₀, hheader⟩ := hlink
  obtain rfl : frame₀ = frame := Except.ok.inj (hread₀.symm.trans hread)
  obtain ⟨page', hset', hheader', _, _⟩ := hheader.setNextPageId
    (show -2147483648 ≤ value ∧ value < 2147483648 by omega)
  obtain rfl : page' = frame' := Except.ok.inj (hset'.symm.trans hset)
  refine ⟨?_, hfirst, page', kind, h.read, hheader'⟩
  intro heq
  have hneg : value = -1 := Option.some.inj heq
  omega

theorem Relinked.link_first (h : Relinked d pageId frame frame' d') {value : Int}
    (hset : setFirstOverflowPageId frame value = .ok frame')
    (hread : d.readPage pageId = .ok frame)
    (hvalue : 0 ≤ value ∧ value < 2147483648) (hlink : Link d pageId next first) :
    Link d' pageId next (some value) := by
  obtain ⟨hnext, _, frame₀, kind, hread₀, hheader⟩ := hlink
  obtain rfl : frame₀ = frame := Except.ok.inj (hread₀.symm.trans hread)
  obtain ⟨page', hset', hheader', _, _⟩ := hheader.setFirstOverflowPageId
    (show -2147483648 ≤ value ∧ value < 2147483648 by omega)
  obtain rfl : page' = frame' := Except.ok.inj (hset'.symm.trans hset)
  refine ⟨hnext, ?_, page', kind, h.read, hheader'⟩
  intro heq
  have hneg : value = -1 := Option.some.inj heq
  omega

/-- The pages of a file keep their links when a page is appended. -/
theorem Appended.link (h : Appended d kind frame d') (hlink : Link d p next first) :
    Link d' p next first := by
  have hvalid := hlink.valid
  obtain ⟨hnext, hfirst, frame', kind', hread, hheader⟩ := hlink
  refine ⟨hnext, hfirst, frame', kind', ?_, hheader⟩
  rw [read_page_write_page h.written, if_neg]
  · exact read_page_allocate_page hread
  · intro heq
    have := hvalid.2
    omega

theorem Appended.read (h : Appended d kind frame d') :
    d'.readPage d.pageCount = .ok frame := by
  rw [read_page_write_page h.written, if_pos rfl]

theorem Appended.link_new (h : Appended d kind frame d') : Link d' d.pageCount none none :=
  ⟨by simp, by simp, frame, kind, h.read, h.header⟩

/-- An appended page stands as it is when another page is written. -/
theorem Appended.frame_of_write (h : Appended d kind frame d') {q : Int} {data : Bytes}
    {d₂ : DiskManager} (hwrite : d'.writePage q data = .ok d₂) (hq : q ≠ d.pageCount) :
    Frame d₂ d.pageCount frame [] := by
  refine ⟨?_, ?_, h.header.length, h.holds⟩
  · rw [read_page_write_page hwrite, if_neg hq.symm]
    exact h.read
  · rw [page_size_write_page hwrite, page_size_write_page h.written, page_size_allocate_page]
    exact h.length

theorem Appended.pageCount (h : Appended d kind frame d') :
    d'.pageCount = d.pageCount + 1 := by
  rw [page_count_write_page h.written, page_count_allocate_page]

theorem chain_eq : ∀ {ps : List Int} {rounds : Nat},
    LinkedTo (fun p next => ∃ first, Link d p next first) ps none → ps.length ≤ rounds →
    chain d rounds ps.head? = .ok ps := by
  intro ps
  induction ps with
  | nil =>
      intro rounds _ _
      cases rounds <;> rfl
  | cons p ps ih =>
      intro rounds hlinked hlen
      obtain ⟨rounds, rfl⟩ : ∃ n, rounds = n + 1 :=
        ⟨rounds - 1, by rw [length_cons] at hlen; omega⟩
      rw [length_cons] at hlen
      obtain ⟨⟨first, hlink⟩, hrest⟩ := hlinked
      obtain ⟨frame, hread, hnext⟩ := hlink.nextPageId
      rw [head?_cons, chain, hread, ok_bind, hnext, ok_bind, Option.or_none,
        ih hrest (by omega), ok_bind]

end Links

namespace Chained

variable {s : SequentialFile} {rs : RecordPages} {bs before after : List Bucket} {b : Bucket}

variable {p new : Int} {frame : Bytes} {records : List (Option Bytes)} {d' : DiskManager}

section

variable (h : Chained s rs bs)
include h

theorem page_of_mem (hp : p ∈ bs.flatMap Bucket.pages) :
    ∃ (n : Nat) (records : List (Option Bytes)), p = n ∧ rs[n]? = some records := by
  obtain ⟨b, hb, hp⟩ := mem_flatMap.mp hp
  refine h.stored.exists_of_valid ?_
  rcases mem_cons.mp hp with rfl | hp
  · obtain ⟨next, hlink⟩ := h.first b hb
    exact hlink.valid
  · obtain ⟨next, hlink⟩ := (h.overflow b hb).mem hp
    exact hlink.valid

theorem link_of_mem (hp : p ∈ bs.flatMap Bucket.pages) :
    ∃ next first, Link s.diskManager p next first := by
  obtain ⟨b, hb, hp⟩ := mem_flatMap.mp hp
  rcases mem_cons.mp hp with rfl | hp
  · obtain ⟨next, hlink⟩ := h.first b hb
    exact ⟨next, _, hlink⟩
  · obtain ⟨next, hlink⟩ := (h.overflow b hb).mem hp
    exact ⟨next, none, hlink⟩

theorem length_pages_le : (bs.flatMap Bucket.pages).length ≤ s.diskManager.pageCount := by
  have hsub : (bs.flatMap Bucket.pages) ⊆
      (range s.diskManager.pageCount).map (fun n : Nat => (n : Int)) := by
    intro p hp
    obtain ⟨n, records, rfl, hn⟩ := h.page_of_mem hp
    obtain ⟨hlt, _⟩ := List.getElem?_eq_some_iff.mp hn
    rw [h.stored.count]
    exact mem_map.mpr ⟨n, mem_range.mpr hlt, rfl⟩
  have hle := (subperm_of_subset h.nodup hsub).length_le
  rwa [length_map, length_range] at hle

theorem length_le : bs.length ≤ s.diskManager.pageCount := by
  have hmap : (bs.map Bucket.main).length ≤ (bs.flatMap Bucket.pages).length := by
    clear h
    induction bs with
    | nil => simp
    | cons b bs ih =>
        rw [map_cons, length_cons, flatMap_cons, length_append, Bucket.pages,
          length_cons]
        omega
  rw [length_map] at hmap
  exact hmap.trans h.length_pages_le

theorem length_overflow_le (hb : b ∈ bs) : b.overflow.length ≤ s.diskManager.pageCount := by
  obtain ⟨before, after, rfl⟩ := append_of_mem hb
  have hle := h.length_pages_le
  rw [flatMap_append, flatMap_cons, length_append, length_append,
    Bucket.pages, length_cons] at hle
  omega

theorem page_count_ne : s.diskManager.pageCount ≠ 0 := by
  intro hzero
  have hlen := h.length_le
  have hempty : bs = [] := length_eq_zero_iff.mp (by omega)
  have hhead := h.head
  rw [hempty] at hhead
  cases hhead

theorem main_pages_eq : mainPages s.diskManager = .ok (bs.map Bucket.main) := by
  rw [mainPages, ← h.head, ← head?_map]
  exact chain_eq h.mains (by rw [length_map]; exact h.length_le)

theorem bucket_pages_eq (hb : b ∈ bs) : bucketPages s.diskManager b.main = .ok b.pages := by
  obtain ⟨next, hlink⟩ := h.first b hb
  obtain ⟨frame, hread, hfirst⟩ := hlink.firstOverflowPageId
  have hchain : chain s.diskManager s.diskManager.pageCount b.overflow.head?
      = .ok b.overflow :=
    chain_eq ((h.overflow b hb).mono (fun _ _ _ hlink => ⟨none, hlink⟩)) (h.length_overflow_le hb)
  rw [bucketPages, hread, ok_bind, hfirst, ok_bind, hchain, ok_bind, Bucket.pages]

/-- The buckets do not depend on the largest keys. -/
theorem with_max (pageMaxKey : Dict Int Value) :
    Chained { s with pageMaxKey := pageMaxKey } rs bs :=
  ⟨h.stored, h.mains, h.first, h.overflow, h.mainNext, h.owner, h.nodup, h.head, h.orphan⟩

theorem chained_pages_eq : chainedPages s.diskManager = .ok (bs.flatMap Bucket.pages) := by
  have hpages : (bs.map Bucket.main).mapM (bucketPages s.diskManager) =
      .ok (bs.map Bucket.pages) := by
    rw [mapM_map]
    exact mapM_ok (fun b hb => h.bucket_pages_eq hb)
  rw [chainedPages, h.main_pages_eq, ok_bind, hpages, ok_bind, flatMap_def]

theorem frame_of_mem (hp : p ∈ bs.flatMap Bucket.pages) :
    ∃ (n : Nat) (records : List (Option Bytes)) (frame : Bytes), p = n ∧
      rs[n]? = some records ∧ Frame s.diskManager n frame records := by
  obtain ⟨n, records, rfl, hn⟩ := h.page_of_mem hp
  obtain ⟨frame, hframe⟩ := frame_of_stored h.stored hn
  exact ⟨n, records, frame, rfl, hn, hframe⟩

theorem stored_of_relinked (hp : p ∈ bs.flatMap Bucket.pages)
    (hread : s.diskManager.readPage p = .ok frame)
    (hwrite : Relinked s.diskManager p frame frame' d') :
    Stored SequentialPage.HEADER_SIZE d' rs := by
  obtain ⟨n, records, frame₀, rfl, hn, hframe⟩ := h.frame_of_mem hp
  obtain rfl : frame₀ = frame := Except.ok.inj (hframe.read.symm.trans hread)
  exact hwrite.stored h.stored hframe hn

theorem rebody_page {p : Nat} {records' : List (Option Bytes)}
    (hframe : Frame s.diskManager p frame records)
    (hempty : (p : Int) ∉ bs.flatMap Bucket.pages → records' = [])
    (hwrite : Rebodied s.diskManager p frame records' d') :
    Chained { s with diskManager := d' } (rs.set p records') bs := by
  refine ⟨hwrite.stored h.stored hframe, ?_, ?_, ?_, h.mainNext, h.owner, h.nodup, h.head, ?_⟩
  · exact h.mains.mono (fun q _ next hq => hq.imp (fun _ hlink => hwrite.link hframe.read hlink))
  · exact fun b hb => (h.first b hb).imp (fun _ hlink => hwrite.link hframe.read hlink)
  · exact fun b hb => (h.overflow b hb).mono (fun q _ next hlink => hwrite.link hframe.read hlink)
  · intro q records'' hq hnot
    by_cases hpq : p = q
    · subst hpq
      obtain ⟨hlt, _⟩ := List.getElem?_eq_some_iff.mp hq
      rw [getElem?_set_self (by simpa using hlt), Option.some.injEq] at hq
      rw [← hq]
      exact hempty hnot
    · rw [getElem?_set_ne hpq] at hq
      exact h.orphan hq hnot

theorem rebody {p : Nat} {records' : List (Option Bytes)}
    (hframe : Frame s.diskManager p frame records) (hmem : (p : Int) ∈ bs.flatMap Bucket.pages)
    (hwrite : Rebodied s.diskManager p frame records' d') :
    Chained { s with diskManager := d' } (rs.set p records') bs :=
  h.rebody_page hframe (fun hnot => absurd hmem hnot) hwrite

theorem rebody_same {p : Nat} (hp : rs[p]? = some records)
    (hframe : Frame s.diskManager p frame records)
    (hwrite : Rebodied s.diskManager p frame records d') :
    Chained { s with diskManager := d' } rs bs := by
  have hchained := h.rebody_page hframe (h.orphan hp) hwrite
  rwa [set_same hp] at hchained

/-- A page that was just appended belongs to no bucket yet. -/
theorem fresh_not_mem : (s.diskManager.pageCount : Int) ∉ bs.flatMap Bucket.pages := by
  intro hmem
  obtain ⟨n, records, heq, hn⟩ := h.page_of_mem hmem
  obtain ⟨hlt, _⟩ := List.getElem?_eq_some_iff.mp hn
  have hcount := h.stored.count
  omega

end

theorem mem_pages (hb : b ∈ bs) (hp : p ∈ b.pages) : p ∈ bs.flatMap Bucket.pages :=
  mem_flatMap.mpr ⟨b, hb, hp⟩

theorem append {s' : SequentialFile} (h : Chained s rs bs) {kind : Nat} {frame : Bytes}
    (happended : Appended s.diskManager kind frame s'.diskManager)
    (hnext : ∀ p, p ≠ (s.diskManager.pageCount : Int) →
      s'.mainNext.lookup p = s.mainNext.lookup p)
    (howner : ∀ p, p ≠ (s.diskManager.pageCount : Int) →
      s'.pageOwnerMain.lookup p = s.pageOwnerMain.lookup p) :
    Chained s' (rs ++ [[]]) bs := by
  have hfresh : ∀ b ∈ bs, ∀ p ∈ b.pages, p ≠ (s.diskManager.pageCount : Int) := by
    rintro b hb p hp rfl
    exact h.fresh_not_mem (mem_pages hb hp)
  refine ⟨happended.stored h.stored, ?_, ?_, ?_, ?_, ?_, h.nodup, h.head, ?_⟩
  · exact h.mains.mono (fun q _ next hq => hq.imp (fun _ hlink => happended.link hlink))
  · exact fun b hb => (h.first b hb).imp (fun _ hlink => happended.link hlink)
  · exact fun b hb => (h.overflow b hb).mono (fun q _ next hlink => happended.link hlink)
  · refine h.mainNext.mono (fun p hp next hlookup => ?_)
    obtain ⟨b, hb, rfl⟩ := mem_map.mp hp
    rw [hnext b.main (hfresh b hb b.main (by simp [Bucket.pages]))]
    exact hlookup
  · intro b hb p hp
    rw [howner p (hfresh b hb p hp)]
    exact h.owner b hb p hp
  · intro p records hp hnot
    by_cases hlast : p = rs.length
    · subst hlast
      rw [getElem?_append_right le_rfl, Nat.sub_self, getElem?_cons_zero,
        Option.some.injEq] at hp
      exact hp.symm
    · have hlt : p < rs.length := by
        obtain ⟨hp', _⟩ := List.getElem?_eq_some_iff.mp hp
        rw [length_append, length_singleton] at hp'
        omega
      rw [getElem?_append_left hlt] at hp
      exact h.orphan hp hnot

theorem extend_bucket (h : Chained s rs (before ++ b :: after))
    (hstored : Stored SequentialPage.HEADER_SIZE d' rs)
    (hfresh : new ∉ (before ++ b :: after).flatMap Bucket.pages)
    (howner : s.pageOwnerMain.lookup new = some b.main)
    (hother : ∀ p, p ∉ b.pages → ∀ next first, Link s.diskManager p next first →
      Link d' p next first)
    (hmain : ∀ next first, Link s.diskManager b.main next first →
      ∃ first', Link d' b.main next first' ∧
        (first = b.overflow.head? → first' = (b.overflow ++ [new]).head?))
    (hoverflow : LinkedTo (fun p next => Link d' p next none) (b.overflow ++ [new]) none) :
    Chained { s with diskManager := d' } rs
      (before ++ ⟨b.main, b.overflow ++ [new]⟩ :: after) := by
  have hmap : (before ++ ⟨b.main, b.overflow ++ [new]⟩ :: after).map Bucket.main =
      (before ++ b :: after).map Bucket.main := by simp
  have hpages : ((before ++ ⟨b.main, b.overflow ++ [new]⟩ :: after).flatMap Bucket.pages).Perm
      (new :: (before ++ b :: after).flatMap Bucket.pages) := by
    simp only [flatMap_append, flatMap_cons, Bucket.pages]
    refine perm_iff_count.mpr (fun q => ?_)
    simp only [count_append, count_cons, count_nil]
    omega
  have hnodup := h.nodup
  have hsplit : (before ++ b :: after).flatMap Bucket.pages =
      before.flatMap Bucket.pages ++ (b.pages ++ after.flatMap Bucket.pages) := by
    rw [flatMap_append, flatMap_cons]
  have houtside : ∀ c ∈ before ++ after, ∀ p ∈ c.pages, p ∉ b.pages := by
    rw [hsplit] at hnodup
    obtain ⟨_, hrest, hcross⟩ := nodup_append.mp hnodup
    obtain ⟨_, _, hcross'⟩ := nodup_append.mp hrest
    intro c hc p hp hpb
    rcases mem_append.mp hc with hc | hc
    · exact hcross p (mem_flatMap.mpr ⟨c, hc, hp⟩) p (mem_append_left _ hpb) rfl
    · exact hcross' p hpb p (mem_flatMap.mpr ⟨c, hc, hp⟩) rfl
  have hmem : ∀ c, c ∈ before ++ ⟨b.main, b.overflow ++ [new]⟩ :: after →
      c = ⟨b.main, b.overflow ++ [new]⟩ ∨ c ∈ before ++ after := by
    intro c hc
    simp only [mem_append, mem_cons] at hc ⊢
    tauto
  have hold : ∀ c ∈ before ++ after, c ∈ before ++ b :: after := by
    intro c hc
    simp only [mem_append, mem_cons] at hc ⊢
    tauto
  have hb : b ∈ before ++ b :: after := by simp
  refine ⟨hstored, ?_, ?_, ?_, ?_, ?_, ?_, ?_, ?_⟩
  · rw [hmap]
    refine h.mains.mono (fun p hp next hfirst => ?_)
    obtain ⟨first, hlink⟩ := hfirst
    obtain ⟨c, hc, rfl⟩ := mem_map.mp hp
    by_cases hcb : c.main = b.main
    · rw [hcb] at hlink ⊢
      obtain ⟨first', hlink', _⟩ := hmain next first hlink
      exact ⟨first', hlink'⟩
    · refine ⟨first, hother _ ?_ next first hlink⟩
      have hc' : c ∈ before ++ after := by
        simp only [mem_append, mem_cons] at hc ⊢
        rcases hc with hc | rfl | hc
        · exact Or.inl hc
        · exact absurd rfl hcb
        · exact Or.inr hc
      exact houtside c hc' c.main (by simp [Bucket.pages])
  · intro c hc
    rcases hmem c hc with rfl | hc
    · obtain ⟨next, hlink⟩ := h.first b hb
      obtain ⟨first', hlink', hfirst⟩ := hmain next _ hlink
      rw [hfirst rfl] at hlink'
      exact ⟨next, hlink'⟩
    · obtain ⟨next, hlink⟩ := h.first c (hold c hc)
      exact ⟨next, hother _ (houtside c hc c.main (by simp [Bucket.pages])) next _ hlink⟩
  · intro c hc
    rcases hmem c hc with rfl | hc
    · exact hoverflow
    · refine (h.overflow c (hold c hc)).mono (fun p hp next hlink => ?_)
      exact hother p (houtside c hc p (by simp [Bucket.pages, hp])) next none hlink
  · rw [hmap]
    exact h.mainNext
  · intro c hc p hp
    rcases hmem c hc with rfl | hc
    · simp only [Bucket.pages, mem_cons, mem_append, not_mem_nil, or_false] at hp
      rcases hp with rfl | hp | rfl
      · exact h.owner b hb b.main (by simp [Bucket.pages])
      · exact h.owner b hb p (by simp [Bucket.pages, hp])
      · exact howner
    · exact h.owner c (hold c hc) p hp
  · rw [hpages.nodup_iff, nodup_cons]
    exact ⟨hfresh, h.nodup⟩
  · have hhead := h.head
    cases before with
    | nil => simpa using hhead
    | cons c before => simpa using hhead
  · intro p records hp hnot
    refine h.orphan hp (fun hp' => hnot ?_)
    rw [hpages.mem_iff]
    exact mem_cons_of_mem _ hp'

theorem link_first (h : Chained s rs (before ++ b :: after)) (hempty : b.overflow = [])
    {frame' : Bytes} (hstored : Stored SequentialPage.HEADER_SIZE d' rs)
    (hfresh : new ∉ (before ++ b :: after).flatMap Bucket.pages)
    (howner : s.pageOwnerMain.lookup new = some b.main) (hnew : Link s.diskManager new none none)
    (hrange : 0 ≤ new ∧ new < 2147483648) (hread : s.diskManager.readPage b.main = .ok frame)
    (hset : setFirstOverflowPageId frame new = .ok frame')
    (hwrite : Relinked s.diskManager b.main frame frame' d') :
    Chained { s with diskManager := d' } rs
      (before ++ ⟨b.main, b.overflow ++ [new]⟩ :: after) := by
  have hne : new ≠ b.main := by
    rintro rfl
    exact hfresh (mem_pages (b := b) (by simp) (by simp [Bucket.pages]))
  refine h.extend_bucket hstored hfresh howner ?_ ?_ ?_
  · intro p hp next first hlink
    refine hwrite.link_ne ?_ hlink
    rintro rfl
    exact hp (by simp [Bucket.pages])
  · intro next first hlink
    refine ⟨some new, hwrite.link_first hset hread hrange hlink, ?_⟩
    rw [hempty]
    exact fun _ => rfl
  · rw [hempty]
    exact ⟨hwrite.link_ne hne hnew, trivial⟩

theorem link_next (h : Chained s rs (before ++ b :: after)) {front : List Int} {last : Int}
    (hlast : b.overflow = front ++ [last]) {frame' : Bytes}
    (hstored : Stored SequentialPage.HEADER_SIZE d' rs)
    (hfresh : new ∉ (before ++ b :: after).flatMap Bucket.pages)
    (howner : s.pageOwnerMain.lookup new = some b.main) (hnew : Link s.diskManager new none none)
    (hrange : 0 ≤ new ∧ new < 2147483648) (hread : s.diskManager.readPage last = .ok frame)
    (hset : setNextPageId frame new = .ok frame')
    (hwrite : Relinked s.diskManager last frame frame' d') :
    Chained { s with diskManager := d' } rs
      (before ++ ⟨b.main, b.overflow ++ [new]⟩ :: after) := by
  have hmem : b ∈ before ++ b :: after := by simp
  have hpages : b.pages.Nodup := by
    obtain ⟨_, hrest, _⟩ := nodup_append.mp (by
      have hnodup := h.nodup
      rwa [flatMap_append, flatMap_cons] at hnodup)
    exact (nodup_append.mp hrest).1
  rw [Bucket.pages, hlast, nodup_cons] at hpages
  have hne : new ≠ last := by
    rintro rfl
    exact hfresh (mem_pages hmem (by simp [Bucket.pages, hlast]))
  refine h.extend_bucket hstored hfresh howner ?_ ?_ ?_
  · intro p hp next first hlink
    refine hwrite.link_ne ?_ hlink
    rintro rfl
    exact hp (by simp [Bucket.pages, hlast])
  · intro next first hlink
    refine ⟨first, hwrite.link_ne ?_ hlink, ?_⟩
    · rintro heq
      exact hpages.1 (by simp [heq])
    · rintro rfl
      rw [hlast]
      cases front <;> rfl
  · have hchain := h.overflow b hmem
    rw [hlast] at hchain ⊢
    refine hchain.extend ?_ ?_ ?_
    · intro p hp next hlink
      refine hwrite.link_ne ?_ hlink
      rintro rfl
      have hdup := (nodup_append.mp hpages.2).2.2
      exact hdup p hp p (by simp) rfl
    · intro hlink
      exact hwrite.link_next hset hread hrange hlink
    · exact hwrite.link_ne hne hnew

theorem linkMain {s' : SequentialFile} (h : Chained s rs (before ++ [b])) {frame' : Bytes}
    (hstored : Stored SequentialPage.HEADER_SIZE s'.diskManager rs)
    (hfresh : new ∉ (before ++ [b]).flatMap Bucket.pages)
    (howner : s.pageOwnerMain.lookup new = some new) (hnext : s.mainNext.lookup new = some none)
    (hnew : Link s.diskManager new none none) (hrange : 0 ≤ new ∧ new < 2147483648)
    (hread : s.diskManager.readPage b.main = .ok frame)
    (hset : setNextPageId frame new = .ok frame')
    (hwrite : Relinked s.diskManager b.main frame frame' s'.diskManager)
    (hnext' : s'.mainNext = s.mainNext.insert b.main (some new))
    (howner' : s'.pageOwnerMain = s.pageOwnerMain) :
    Chained s' rs (before ++ [b] ++ [⟨new, []⟩]) := by
  have hmem : b ∈ before ++ [b] := by simp
  have hnodup := h.nodup
  rw [flatMap_append, flatMap_singleton] at hnodup
  obtain ⟨_, hpages, hcross⟩ := nodup_append.mp hnodup
  have hne : new ≠ b.main := by
    rintro rfl
    exact hfresh (mem_pages hmem (by simp [Bucket.pages]))
  have hbefore : ∀ c ∈ before, ∀ p ∈ c.pages, p ≠ b.main := by
    intro c hc p hp
    exact hcross p (mem_flatMap.mpr ⟨c, hc, hp⟩) b.main (by simp [Bucket.pages])
  have hoverflow : ∀ p ∈ b.overflow, p ≠ b.main := by
    rintro p hp rfl
    rw [Bucket.pages, nodup_cons] at hpages
    exact hpages.1 hp
  have hcases : ∀ c ∈ before ++ [b] ++ [⟨new, []⟩], c ∈ before ∨ c = b ∨ c = ⟨new, []⟩ := by
    intro c hc
    simpa only [mem_append, mem_singleton, or_assoc] using hc
  refine ⟨hstored, ?_, ?_, ?_, ?_, ?_, ?_, ?_, ?_⟩
  · have hmains := h.mains
    rw [map_append, map_singleton] at hmains
    rw [map_append, map_append, map_singleton, map_singleton]
    refine hmains.extend ?_ ?_ ?_
    · intro p hp next hfirst
      obtain ⟨c, hc, rfl⟩ := mem_map.mp hp
      exact hfirst.imp (fun _ hlink =>
        hwrite.link_ne (hbefore c hc c.main (by simp [Bucket.pages])) hlink)
    · rintro ⟨first, hlink⟩
      exact ⟨first, hwrite.link_next hset hread hrange hlink⟩
    · exact ⟨none, hwrite.link_ne hne hnew⟩
  · intro c hc
    rcases hcases c hc with hc | rfl | rfl
    · obtain ⟨next, hlink⟩ := h.first c (by simp [hc])
      exact ⟨next, hwrite.link_ne (hbefore c hc c.main (by simp [Bucket.pages])) hlink⟩
    · obtain ⟨next, hlink⟩ := h.first c hmem
      exact ⟨some new, hwrite.link_next hset hread hrange hlink⟩
    · exact ⟨none, hwrite.link_ne hne hnew⟩
  · intro c hc
    rcases hcases c hc with hc | rfl | rfl
    · exact (h.overflow c (by simp [hc])).mono (fun p hp _ hlink =>
        hwrite.link_ne (hbefore c hc p (by simp [Bucket.pages, hp])) hlink)
    · exact (h.overflow c hmem).mono (fun p hp _ hlink =>
        hwrite.link_ne (hoverflow p hp) hlink)
    · trivial
  · have hmains := h.mainNext
    rw [map_append, map_singleton] at hmains
    rw [map_append, map_append, map_singleton, map_singleton, hnext']
    refine hmains.extend ?_ ?_ ?_
    · intro p hp next hlookup
      obtain ⟨c, hc, rfl⟩ := mem_map.mp hp
      rw [Dict.lookup_insert_eq, if_neg (hbefore c hc c.main (by simp [Bucket.pages]))]
      exact hlookup
    · intro _
      rw [Dict.lookup_insert_eq, if_pos rfl]
    · rw [Dict.lookup_insert_eq, if_neg hne]
      exact hnext
  · rw [howner']
    intro c hc p hp
    rcases hcases c hc with hc | rfl | rfl
    · exact h.owner c (by simp [hc]) p hp
    · exact h.owner c hmem p hp
    · simp only [Bucket.pages, mem_singleton] at hp
      rw [hp]
      exact howner
  · rw [flatMap_append, flatMap_singleton, Bucket.pages]
    refine nodup_append.mpr ⟨h.nodup, nodup_singleton _, ?_⟩
    intro p hp q hq
    have hq' : q = new := mem_singleton.mp hq
    rintro rfl
    exact hfresh (hq' ▸ hp)
  · have hhead := h.head
    cases before <;> simpa using hhead
  · intro p records hp hnot
    refine h.orphan hp (fun hp' => hnot ?_)
    rw [flatMap_append]
    exact mem_append_left _ hp'

end Chained

end SoupDB.SequentialFile
