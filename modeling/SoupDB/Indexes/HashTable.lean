import SoupDB.Indexes.HashLayout
import SoupDB.Lib.Directory
import SoupDB.Lib.Linked

/-!
# SoupDB: an extendible hash as a table of entries

`Table blake2b h B slot tail all` is the invariant of an index none of whose inserts raised:
the directory is sound, the overflow links of every bucket lead through the pages `tail` and
end there, no page stands in two chains, and every chain holds the entries of `all` with the
low bits of its slots.

Under it a chain is read whole (`Table.chain_ok`), a search finds the entries of its key
(`Table.search_ok`), and a removal drops them (`Table.wp_remove`).
-/

namespace SoupDB.ExtendibleHash

open Effect
open HashPage (Bucket HoldsBucket Entry Frame matchesEntry)

/-! ## Chains of pages -/

/-- The overflow link of a bucket page. -/
def Links (B : Int → Option Bucket) (p : Int) (next : Option Int) : Prop :=
  ∃ b, B p = some b ∧ b.overflow = next.getD HashPage.NO_OVERFLOW

def depthAt (B : Int → Option Bucket) (p : Int) : Nat := (B p).elim 0 Bucket.localDepth

def entriesAt (B : Int → Option Bucket) (p : Int) : List Entry := (B p).elim [] Bucket.entries

/-- The entries on some pages. -/
def entriesOf (B : Int → Option Bucket) (ps : List Int) : List Entry := ps.flatMap (entriesAt B)

/-- The pages of a bucket. -/
def pagesAt (tail : Int → List Int) (p : Int) : List Int := p :: tail p

theorem coe_filter {α : Type} (keep : α → Bool) (l : List α) :
    ((l.filter keep : List α) : Multiset α) =
      (l : Multiset α).filter (fun a => keep a = true) := by
  rw [Multiset.filter_coe]
  simp

section Chains

variable {B B' : Int → Option Bucket} {p : Int} {b : Bucket} {ps qs : List Int}

theorem depthAt_of_some (hb : B p = some b) : depthAt B p = b.localDepth := by
  rw [depthAt, hb]
  rfl

theorem entriesAt_of_some (hb : B p = some b) : entriesAt B p = b.entries := by
  rw [entriesAt, hb]
  rfl

@[simp] theorem entriesOf_cons : entriesOf B (p :: ps) = entriesAt B p ++ entriesOf B ps := by
  rw [entriesOf, List.flatMap_cons]
  rfl

theorem entriesOf_append : entriesOf B (ps ++ qs) = entriesOf B ps ++ entriesOf B qs :=
  List.flatMap_append

theorem entriesOf_congr (h : ∀ p ∈ ps, B' p = B p) : entriesOf B' ps = entriesOf B ps := by
  refine List.flatMap_congr ?_
  intro p hp
  rw [entriesAt, h p hp, entriesAt]

theorem Links.congr (h : B' p = B p) {next : Option Int} (hlinks : Links B p next) :
    Links B' p next := by
  obtain ⟨b, hb, hoverflow⟩ := hlinks
  exact ⟨b, h.trans hb, hoverflow⟩

/-- Buckets with the same headers. -/
def Alike (B B' : Int → Option Bucket) : Prop :=
  ∀ q, (B' q).map (fun b => (b.localDepth, b.overflow)) =
    (B q).map (fun b => (b.localDepth, b.overflow))

theorem Alike.some (h : Alike B B') (hb : B p = some b) :
    ∃ b', B' p = Option.some b' ∧ b'.localDepth = b.localDepth ∧ b'.overflow = b.overflow := by
  have hp := h p
  rw [hb, Option.map_some, Option.map_eq_some_iff] at hp
  obtain ⟨b', hb', heq⟩ := hp
  exact ⟨b', hb', congrArg Prod.fst heq, congrArg Prod.snd heq⟩

theorem Alike.links (h : Alike B B') {next : Option Int} (hlinks : Links B p next) :
    Links B' p next := by
  obtain ⟨b, hb, hoverflow⟩ := hlinks
  obtain ⟨b', hb', _, hoverflow'⟩ := h.some hb
  exact ⟨b', hb', hoverflow'.trans hoverflow⟩

theorem Alike.depthAt (h : Alike B B') : ExtendibleHash.depthAt B' = ExtendibleHash.depthAt B := by
  funext p
  have hp := h p
  rw [ExtendibleHash.depthAt, ExtendibleHash.depthAt]
  cases hb : B p with
  | none =>
      rw [hb, Option.map_none, Option.map_eq_none_iff] at hp
      rw [hp]
  | some b =>
      obtain ⟨b', hb', hdepth, _⟩ := h.some hb
      rw [hb']
      exact hdepth

theorem alike_update (hb : B p = some b) (es : List Entry) :
    Alike B (Function.update B p (some { b with entries := es })) := by
  intro q
  by_cases hq : q = p
  · subst hq
    rw [Function.update_self, hb]
    rfl
  · rw [Function.update_of_ne hq]

/-- The pages of a chain are bucket pages. -/
theorem bucket_of_linked {stop : Option Int} (hlinked : LinkedTo (Links B) ps stop) (hp : p ∈ ps) :
    ∃ b, B p = some b := by
  obtain ⟨next, b, hb, _⟩ := hlinked.mem hp
  exact ⟨b, hb⟩

end Chains

/-! ## Reading a chain -/

section Reading

variable {h : ExtendibleHash} {B : Int → Option Bucket} {slot : Nat → Int} {ps : List Int}

theorem Layout.chainFrom_ok (hlayout : Layout h B slot) : ∀ {ps : List Int} {rounds : Nat},
    LinkedTo (Links B) ps none → ps.length < rounds →
      chainFrom rounds (ps.head?.getD HashPage.NO_OVERFLOW) h = (.ok ps, h) := by
  intro ps
  induction ps with
  | nil =>
      intro rounds _ hrounds
      obtain ⟨rounds, rfl⟩ := Nat.exists_eq_succ_of_ne_zero (Nat.ne_of_gt hrounds)
      rfl
  | cons p ps ih =>
      intro rounds hlinked hrounds
      obtain ⟨rounds, rfl⟩ := Nat.exists_eq_succ_of_ne_zero (Nat.ne_zero_of_lt hrounds)
      obtain ⟨⟨b, hb, hoverflow⟩, hrest⟩ := hlinked
      have hp : p ≠ HashPage.NO_OVERFLOW := (hlayout.bucket_ne hb).1
      have hnext : peek p HashPage.overflowPageId h = (.ok b.overflow, h) :=
        hlayout.peek_bucket hb (fun _ hholds => hholds.overflowPageId)
      have hchain := ih hrest (Nat.lt_of_succ_lt_succ hrounds)
      rw [Option.or_none] at hoverflow
      rw [← hoverflow] at hchain
      rw [List.head?_cons, Option.getD_some, chainFrom, if_neg hp, run_bind_ok _ hnext,
        run_bind_ok _ hchain, run_pure]

/-- The pages of a chain are fewer than the rounds of `chain`. -/
theorem Layout.chain_ok {p : Int} (hlayout : Layout h B slot)
    (hlinked : LinkedTo (Links B) (p :: ps) none) (hnodup : (p :: ps).Nodup) :
    chain p h = (.ok (p :: ps), h) := by
  have hlength : (p :: ps).length ≤ h.diskManager.pageCount := by
    refine DiskManager.length_le_page_count hnodup ?_
    intro q hq
    obtain ⟨b, hb⟩ := bucket_of_linked hlinked hq
    exact hlayout.valid_bucket hb
  rw [chain, run_bind_ok _ (run_get h)]
  exact hlayout.chainFrom_ok hlinked (Nat.lt_succ_of_le hlength)

theorem Layout.collect_ok (hlayout : Layout h B slot) (encoded : Bytes) : ∀ {ps : List Int},
    (∀ p ∈ ps, ∃ b, B p = some b) → collect encoded ps h =
      (.ok (((entriesOf B ps).filter (fun entry => entry.1 == encoded)).map Prod.snd), h) := by
  intro ps
  induction ps with
  | nil =>
      intro _
      rfl
  | cons p ps ih =>
      intro hbuckets
      obtain ⟨b, hb⟩ := hbuckets p (by simp)
      have hpeek : peek p HashPage.iterEntries h = (.ok b.entries, h) :=
        hlayout.peek_bucket hb (fun _ hholds => hholds.iterEntries)
      have hrest := ih (fun q hq => hbuckets q (List.mem_cons_of_mem _ hq))
      rw [collect, run_bind_ok _ hpeek, run_bind_ok _ hrest, run_pure, entriesOf_cons,
        entriesAt_of_some hb, List.filter_append, List.map_append]

theorem Layout.wp_removeFrom (encoded : Bytes) (rid : Option RID) : ∀ {ps : List Int}
    {h : ExtendibleHash} {B : Int → Option Bucket}, Layout h B slot → ps.Nodup →
    (∀ p ∈ ps, ∃ b, B p = some b) →
    wp (removeFrom encoded rid ps)
      (fun removed h' => Same h h' ∧ ∃ B', Layout h' B' slot ∧ Alike B B' ∧
        (∀ p ∈ ps, entriesAt B' p =
          (entriesAt B p).filter (fun entry => !matchesEntry encoded rid entry)) ∧
        (∀ p ∉ ps, B' p = B p) ∧
        removed = (entriesOf B ps).countP (matchesEntry encoded rid))
      (fun _ _ => False) h := by
  intro ps
  induction ps with
  | nil =>
      intro h B hlayout _ _
      exact ⟨Same.refl h, B, hlayout, fun _ => rfl, fun _ hp => absurd hp List.not_mem_nil,
        fun _ _ => rfl, rfl⟩
  | cons p ps ih =>
      intro h B hlayout hnodup hbuckets
      obtain ⟨hp, hps⟩ := List.nodup_cons.mp hnodup
      have hother : ∀ q ∈ ps, q ≠ p := by
        rintro q hq rfl
        exact hp hq
      obtain ⟨b, hb⟩ := hbuckets p (by simp)
      have hpin : wp (pin p (HashPage.removeEntries encoded rid))
          (fun removed h' => ∃ b', (removed = b.entries.countP (matchesEntry encoded rid) ∧
              b' = { b with
                entries := b.entries.filter (fun entry => !matchesEntry encoded rid entry) }) ∧
            Same h h' ∧ Layout h' (Function.update B p (some b')) slot)
          (fun _ _ => False) h := by
        refine hlayout.wp_pin_bucket hb ?_
        intro frame _ hholds
        refine wp_mono (hholds.wp_remove_entries encoded rid) ?_ (fun _ _ hE => hE)
        rintro removed frame' ⟨hlength, hremoved, hholds'⟩
        exact ⟨hlength, _, hholds', hremoved, rfl⟩
      rw [removeFrom, wp_bind]
      refine wp_mono hpin ?_ (fun _ _ hE => hE)
      rintro removed h₁ ⟨_, ⟨rfl, rfl⟩, hsame₁, hlayout₁⟩
      have hbuckets₁ : ∀ q ∈ ps, ∃ b', Function.update B p (some { b with
          entries := b.entries.filter (fun entry => !matchesEntry encoded rid entry) }) q =
            some b' := by
        intro q hq
        obtain ⟨b', hb'⟩ := hbuckets q (List.mem_cons_of_mem _ hq)
        refine ⟨b', ?_⟩
        rw [Function.update_of_ne (hother q hq), hb']
      rw [wp_bind]
      refine wp_mono (ih hlayout₁ hps hbuckets₁) ?_ (fun _ _ hE => hE)
      rintro count h' ⟨hsame, B', hlayout', halike, hdropped, hkeep, rfl⟩
      refine ⟨hsame₁.trans hsame, B', hlayout', ?_, ?_, ?_, ?_⟩
      · intro q
        rw [halike q]
        exact alike_update hb _ q
      · intro q hq
        rcases List.mem_cons.mp hq with rfl | hq
        · rw [entriesAt, hkeep q hp, Function.update_self, entriesAt_of_some hb]
          rfl
        · rw [hdropped q hq, entriesAt, Function.update_of_ne (hother q hq), entriesAt]
      · intro q hq
        rw [List.mem_cons, not_or] at hq
        rw [hkeep q hq.2, Function.update_of_ne hq.1]
      · have hrest : entriesOf (Function.update B p (some { b with
            entries := b.entries.filter (fun entry => !matchesEntry encoded rid entry) })) ps =
              entriesOf B ps := by
          refine entriesOf_congr ?_
          intro q hq
          rw [Function.update_of_ne (hother q hq)]
        rw [hrest, entriesOf_cons, List.countP_append, entriesAt_of_some hb]

end Reading

/-! ## The table -/

def hashOf (blake2b : Bytes → Bytes) (entry : Entry) : Nat := hashEncoded blake2b entry.1

structure Table (blake2b : Bytes → Bytes) (h : ExtendibleHash) (B : Int → Option Bucket)
    (slot : Nat → Int) (tail : Int → List Int) (all : Multiset Entry) : Prop where
  layout : Layout h B slot
  synced : Synced h
  room : 2 ^ h.globalDepth ≤ capacity h
  directory : (h.directoryPages.length : Int) ≤ HashPage.maxDirectoryPages h.pageSize
  globalDepth : h.globalDepth ≤ h.maxDepth
  maxDepth : h.maxDepth < 256
  linked : ∀ s < 2 ^ h.globalDepth, LinkedTo (Links B) (pagesAt tail (slot s)) none
  nodup : ∀ s < 2 ^ h.globalDepth, (pagesAt tail (slot s)).Nodup
  disjoint : ∀ s < 2 ^ h.globalDepth, ∀ t < 2 ^ h.globalDepth, slot s ≠ slot t →
    (pagesAt tail (slot s)).Disjoint (pagesAt tail (slot t))
  /-- Only a bucket of maximal depth has overflow pages. -/
  single : ∀ s < 2 ^ h.globalDepth, depthAt B (slot s) < h.maxDepth → tail (slot s) = []
  sound : Directory.Sound h.globalDepth slot (depthAt B)
  holds : Directory.Holds (hashOf blake2b) h.globalDepth slot (depthAt B)
    (fun p => (entriesOf B (pagesAt tail p) : Multiset Entry)) all

def slotOf (blake2b : Bytes → Bytes) (h : ExtendibleHash) (encoded : Bytes) : Nat :=
  hashEncoded blake2b encoded % 2 ^ h.globalDepth

theorem slotOf_lt (blake2b : Bytes → Bytes) (h : ExtendibleHash) (encoded : Bytes) :
    slotOf blake2b h encoded < 2 ^ h.globalDepth := Nat.mod_lt _ (Nat.two_pow_pos _)

theorem and_directory_mask (h : ExtendibleHash) (n : Nat) :
    n &&& h.directoryMask = n % 2 ^ h.globalDepth := Nat.and_two_pow_sub_one_eq_mod n _

namespace Table

variable {blake2b : Bytes → Bytes} {h : ExtendibleHash} {B : Int → Option Bucket}
  {slot : Nat → Int} {tail : Int → List Int} {all : Multiset Entry} {s : Nat} {encoded : Bytes}

section

variable (ht : Table blake2b h B slot tail all)
include ht

theorem slot_ok (hs : s < 2 ^ h.globalDepth) :
    directorySlot s h = (.ok (slot s), h) := ht.layout.directorySlot (hs.trans_le ht.room)

theorem bucket (hs : s < 2 ^ h.globalDepth) : ∃ b, B (slot s) = some b :=
  bucket_of_linked (ht.linked s hs) (by rw [pagesAt]; exact List.mem_cons_self)

theorem chain_ok (hs : s < 2 ^ h.globalDepth) :
    chain (slot s) h = (.ok (pagesAt tail (slot s)), h) :=
  ht.layout.chain_ok (ht.linked s hs) (ht.nodup s hs)

theorem bucket_for_ok (encoded : Bytes) :
    bucketFor blake2b encoded h = (.ok (slot (slotOf blake2b h encoded)), h) := by
  rw [bucketFor, run_bind_ok _ (run_get h), and_directory_mask]
  exact ht.slot_ok (slotOf_lt _ _ _)

theorem filter_entries (encoded : Bytes) (keep : Entry → Bool)
    (hkeep : ∀ e, keep e = true → e.1 = encoded) :
    (((entriesOf B (pagesAt tail (slot (slotOf blake2b h encoded)))).filter keep :
      List Entry) : Multiset Entry) = all.filter (fun e => keep e = true) := by
  have hslot := ht.holds.at_slot ht.sound (hashEncoded blake2b encoded)
  rw [coe_filter]
  refine (congrArg (Multiset.filter (fun e => keep e = true)) hslot).trans ?_
  rw [Multiset.filter_filter]
  refine Multiset.filter_congr ?_
  intro e _
  constructor
  · rintro ⟨hkept, _⟩
    exact hkept
  · intro hkept
    refine ⟨hkept, ?_⟩
    rw [hashOf, hkeep e hkept]

end

theorem search_ok {key : Value} (ht : Table blake2b h B slot tail all)
    (hkey : encodeKey key = .ok encoded) :
    ∃ found, search blake2b key h = (.ok found, h) ∧
      (found : Multiset RID) = (all.filter (fun e => e.1 = encoded)).map Prod.snd := by
  have hlt := slotOf_lt blake2b h encoded
  have hcollect := ht.layout.collect_ok encoded
    (fun p hp => bucket_of_linked (ht.linked _ hlt) hp)
  have hlift : lift (encodeKey key) h = (.ok encoded, h) := by rw [run_lift, hkey]
  refine ⟨((entriesOf B (pagesAt tail (slot (slotOf blake2b h encoded)))).filter
    (fun e => e.1 == encoded)).map Prod.snd, ?_, ?_⟩
  · rw [search, run_bind_ok _ hlift, run_bind_ok _ (ht.bucket_for_ok encoded),
      run_bind_ok _ (ht.chain_ok hlt)]
    exact hcollect
  · have hentries := ht.filter_entries encoded (fun e => e.1 == encoded)
      (fun e he => by simpa using he)
    rw [← Multiset.map_coe, hentries]
    simp only [beq_iff_eq]

variable {B' : Int → Option Bucket}

theorem with_entries {h' : ExtendibleHash} {all' : Multiset Entry}
    (ht : Table blake2b h B slot tail all) (hsame : Same h h') (hlayout : Layout h' B' slot)
    (halike : Alike B B')
    (hholds : Directory.Holds (hashOf blake2b) h.globalDepth slot (depthAt B)
      (fun p => (entriesOf B' (pagesAt tail p) : Multiset Entry)) all') :
    Table blake2b h' B' slot tail all' := by
  have hdepth := halike.depthAt
  refine ⟨hlayout, hsame.synced ht.synced, ?_, ?_, ?_, ?_, ?_, ?_, ?_, ?_, ?_, ?_⟩
  · rw [hsame.globalDepth, hsame.capacity]
    exact ht.room
  · rw [hsame.directoryPages, hsame.pageSize]
    exact ht.directory
  · rw [hsame.globalDepth, hsame.maxDepth]
    exact ht.globalDepth
  · rw [hsame.maxDepth]
    exact ht.maxDepth
  · rw [hsame.globalDepth]
    exact fun s hs => (ht.linked s hs).mono (fun _ _ _ hlinks => halike.links hlinks)
  · rw [hsame.globalDepth]
    exact ht.nodup
  · rw [hsame.globalDepth]
    exact ht.disjoint
  · rw [hsame.globalDepth, hsame.maxDepth, hdepth]
    exact ht.single
  · rw [hsame.globalDepth, hdepth]
    exact ht.sound
  · rw [hsame.globalDepth, hdepth]
    exact hholds

theorem entries_elsewhere {t : Nat} (ht : Table blake2b h B slot tail all)
    (hs : s < 2 ^ h.globalDepth) (hkeep : ∀ p ∉ pagesAt tail (slot s), B' p = B p)
    (htlt : t < 2 ^ h.globalDepth) (hne : slot t ≠ slot s) :
    entriesOf B' (pagesAt tail (slot t)) = entriesOf B (pagesAt tail (slot t)) := by
  refine entriesOf_congr ?_
  intro p hp
  exact hkeep p (fun hmem => ht.disjoint t htlt s hs hne hp hmem)

theorem wp_remove {key : Value} (ht : Table blake2b h B slot tail all)
    (hkey : encodeKey key = .ok encoded) (rid : Option RID) :
    wp (remove blake2b key rid)
      (fun removed h' => removed = (all.filter (fun e => matchesEntry encoded rid e = true)).card ∧
        ∃ B', Table blake2b h' B' slot tail
          (all.filter (fun e => ¬ matchesEntry encoded rid e = true)))
      (fun _ _ => False) h := by
  have hlt := slotOf_lt blake2b h encoded
  have hmatch : ∀ e, matchesEntry encoded rid e = true → e.1 = encoded := by
    intro e he
    rw [matchesEntry, Bool.and_eq_true, beq_iff_eq] at he
    exact he.1
  simp only [remove, wp_bind, hkey, wp_lift_ok]
  refine wp_of_ok (ht.bucket_for_ok encoded) ?_
  refine wp_of_ok (ht.chain_ok hlt) ?_
  refine wp_mono (Layout.wp_removeFrom encoded rid ht.layout (ht.nodup _ hlt)
    (fun p hp => bucket_of_linked (ht.linked _ hlt) hp)) ?_ (fun _ _ hE => hE)
  rintro removed h' ⟨hsame, B', hlayout, halike, hdropped, hkeep, rfl⟩
  refine ⟨?_, B', ht.with_entries hsame hlayout halike ?_⟩
  · rw [← ht.filter_entries encoded _ hmatch, Multiset.coe_card, List.countP_eq_length_filter]
  · have hcell : entriesOf B' (pagesAt tail (slot (slotOf blake2b h encoded))) =
        (entriesOf B (pagesAt tail (slot (slotOf blake2b h encoded)))).filter
          (fun e => !matchesEntry encoded rid e) := by
      rw [entriesOf, entriesOf, List.filter_flatMap]
      exact List.flatMap_congr hdropped
    refine ht.holds.filter (n := hashEncoded blake2b encoded) ht.sound ?_ ?_ ?_
    · intro e _ hgone
      rw [hashOf, hmatch e (not_not.mp hgone)]
    · show (entriesOf B' (pagesAt tail (slot (slotOf blake2b h encoded))) : Multiset Entry) = _
      rw [hcell, coe_filter]
      refine Multiset.filter_congr ?_
      intro e _
      simp
    · intro t htlt hne
      exact congrArg _ (ht.entries_elsewhere hlt hkeep htlt hne)

end Table

end SoupDB.ExtendibleHash
