import SoupDB.Indexes.HashTable

/-!
# SoupDB: inserting into an extendible hash

An insert adds its entry to the page of its bucket, or splits the bucket and tries again, or
adds the entry to the overflow chain.  Doubling the directory (`Table.wp_double_directory`),
splitting a bucket (`Table.wp_split_bucket`) and a new overflow page (`Table.wp_overflow`)
keep the table with the same entries or with the new one.

`Growable` says that the directory has room for every split that the new entry needs.  An
insert raises only when that fails or a field is out of range (`Table.wp_insert`).
-/

namespace SoupDB.ExtendibleHash

open Effect Function Multiset HashPage

/-! ## Writing slots -/

section Slots

variable {B : Int → Option Bucket}

theorem mem_rangeStep {start stop step n : Nat} (hstart : start < step) :
    n ∈ rangeStep start stop step ↔ n < stop ∧ n % step = start := by
  rw [rangeStep, List.mem_range']
  constructor
  · rintro ⟨i, hi, rfl⟩
    refine ⟨?_, by rw [Nat.add_mul_mod_self_left, Nat.mod_eq_of_lt hstart]⟩
    have hmul : step * (i + 1) ≤ stop - start + step - 1 := by
      have hle : step * (i + 1) ≤ step * ((stop - start + step - 1) / step) :=
        Nat.mul_le_mul_left _ hi
      exact hle.trans (Nat.mul_div_le _ _)
    rw [Nat.mul_add, Nat.mul_one] at hmul
    omega
  · rintro ⟨hstop, hmod⟩
    have hn := Nat.div_add_mod n step
    rw [hmod] at hn
    refine ⟨n / step, ?_, by omega⟩
    rw [Nat.lt_iff_add_one_le, Nat.le_div_iff_mul_le (by omega), Nat.add_mul, Nat.one_mul,
      Nat.mul_comm]
    omega

/-- Some slots show another bucket. -/
theorem Layout.wp_write_slots (new : Int) : ∀ {slots : List Nat} {h : ExtendibleHash}
    {slot : Nat → Int}, Layout h B slot → (∀ s ∈ slots, s < capacity h) →
    wp (forEach (fun s => writeDirectorySlot s new) slots)
      (fun _ h' => Same h h' ∧ ∃ slot', Layout h' B slot' ∧
        ∀ s, slot' s = if s ∈ slots then new else slot s)
      (fun e _ => IsStructError e ∧ ¬ (0 ≤ new ∧ new < 4294967296)) h := by
  intro slots
  induction slots with
  | nil =>
      intro h slot hlayout _
      exact ⟨Same.refl h, slot, hlayout, fun s => by rw [if_neg List.not_mem_nil]⟩
  | cons s₀ slots ih =>
      intro h slot hlayout hslots
      simp only [forEach, wp_bind]
      refine wp_mono (hlayout.wp_write_directory_slot (hslots s₀ (by simp)) new) ?_
        (fun _ _ hE => hE)
      rintro _ h₁ ⟨hsame₁, hlayout₁⟩
      refine wp_mono (ih hlayout₁ ?_) ?_ (fun _ _ hE => hE)
      · intro s hs
        rw [hsame₁.capacity]
        exact hslots s (List.mem_cons_of_mem _ hs)
      · rintro _ h' ⟨hsame, slot', hlayout', hslot'⟩
        refine ⟨hsame₁.trans hsame, slot', hlayout', ?_⟩
        intro s
        rw [hslot' s]
        by_cases hmem : s ∈ slots
        · rw [if_pos hmem, if_pos (List.mem_cons_of_mem _ hmem)]
        · by_cases hs : s = s₀
          · rw [if_neg hmem, if_pos (by simp [hs]), hs, update_self]
          · rw [if_neg hmem, if_neg (by simp [hs, hmem]), update_of_ne hs]

end Slots

/-! ## Pages of entries -/

section Pages

variable {blake2b : Bytes → Bytes} {page : Bytes} {b : Bucket} {encoded : Bytes} {rid : RID}

/-- Bytes that some entries take. -/
def weight (es : Multiset Entry) : Nat := (es.map (fun e => entrySize e.1)).sum

theorem freeOffset_eq (es : List Entry) :
    freeOffset es = HashPage.BUCKET_HEADER_SIZE + weight (es : Multiset Entry) := by
  rw [freeOffset, payload, List.length_flatMap, weight, map_coe,
    sum_coe]
  simp only [length_entryBytes]

theorem weight_mono {es fs : Multiset Entry} (h : es ≤ fs) : weight es ≤ weight fs := by
  obtain ⟨gs, rfl⟩ := Multiset.le_iff_exists_add.mp h
  rw [weight, weight, Multiset.map_add, sum_add]
  exact Nat.le_add_right _ _

/-- The bytes of a page stay below 64 KiB, as its size does or not. -/
def Short (pageSize bytes : Nat) : Prop := pageSize < 65536 ∨ bytes < 65536

theorem Short.lt {pageSize bytes : Nat} (hshort : Short pageSize bytes)
    (hroom : bytes ≤ pageSize) : bytes < 65536 := by
  rcases hshort with hsize | hbytes
  · exact hroom.trans_lt hsize
  · exact hbytes

theorem Short.mono {pageSize bytes bytes' : Nat} (hshort : Short pageSize bytes)
    (hle : bytes' ≤ bytes) : Short pageSize bytes' :=
  hshort.imp_right hle.trans_lt

theorem wp_add_to_bucket (hholds : HoldsBucket page b) (encoded : Bytes) (rid : RID) :
    wp (addToBucket encoded rid)
      (fun answer page' => page'.length = page.length ∧ ∃ b', HoldsBucket page' b' ∧
        answer.2 = b.localDepth ∧
          (answer.1 = false ∧ b' = b ∧ page.length < freeOffset b.entries + entrySize encoded ∨
            answer.1 = true ∧ b' = { b with entries := b.entries ++ [(encoded, rid)] } ∧
              freeOffset b.entries + entrySize encoded ≤ page.length))
      (fun e _ => IsStructError e ∧ ¬ (Short page.length (freeOffset b.entries +
        entrySize encoded) ∧ RidFits rid)) page := by
  simp only [addToBucket, wp_bind]
  refine wp_mono (hholds.wp_add_entry encoded rid) ?_ ?_
  · rintro added page' ⟨hlength, ⟨rfl, rfl, hfull⟩ | ⟨rfl, hadd, hholds'⟩⟩
    · simp only [wp_get, hholds.localDepth, wp_lift_ok, wp_pure]
      exact ⟨trivial, b, hholds, trivial, Or.inl ⟨trivial, rfl, hfull⟩⟩
    · simp only [wp_get, hholds'.localDepth, wp_lift_ok, wp_pure]
      exact ⟨hlength, _, hholds', trivial, Or.inr ⟨trivial, rfl, hadd.room⟩⟩
  · rintro e _ ⟨hstruct, hroom, hnot⟩
    exact ⟨hstruct, fun hfits => hnot (hholds.canAdd_of_room hfits.2 (hfits.1.lt hroom) hroom)⟩

/-- The entries of a page that stay, with one more bit; those that move are returned. -/
theorem wp_split_entries (hholds : HoldsBucket page b) {depth : Nat} (hdepth : depth + 1 < 256) :
    wp (splitEntries blake2b depth)
      (fun move page' => page'.length = page.length ∧
        move = b.entries.filter (moves blake2b depth) ∧
        HoldsBucket page' ⟨depth + 1, b.overflow,
          b.entries.filter (fun e => !moves blake2b depth e)⟩)
      (fun _ _ => False) page := by
  obtain ⟨hfits, hroom, hheader⟩ := hholds.sublist
    (@List.filter_sublist _ (fun e => !moves blake2b depth e) b.entries)
  simp only [splitEntries, wp_bind, wp_get, hholds.iterEntries, wp_lift_ok, wp_pure]
  refine wp_mono (hholds.wp_write_entries hfits hroom hheader) ?_ (fun _ _ hE => hE)
  rintro _ page₁ ⟨hlength₁, hholds₁⟩
  refine wp_mono (hholds₁.wp_set_local_depth hdepth) ?_ (fun _ _ hE => hE)
  rintro _ page' ⟨hlength, hholds'⟩
  exact ⟨hlength.trans hlength₁, trivial, hholds'⟩

theorem moves_iff {depth : Nat} {e : Entry} :
    moves blake2b depth e = true ↔ hashOf blake2b e / 2 ^ depth % 2 = 1 := by
  rw [moves, hashOf, Nat.and_one_is_mod, Nat.shiftRight_eq_div_pow, bne_iff_ne, ne_eq]
  omega

end Pages

/-! ## The table after a step -/

namespace Table

variable {blake2b : Bytes → Bytes} {h : ExtendibleHash} {B : Int → Option Bucket}
  {slot : Nat → Int} {tail : Int → List Int} {all : Multiset Entry} {s : Nat}
  {encoded : Bytes} {rid : RID}

variable {p : Int} {b : Bucket} {h' : ExtendibleHash} {depth pageSize : Nat}

theorem entries_added {ps : List Int} {e : Entry} (hnodup : ps.Nodup) (hp : p ∈ ps)
    (hb : B p = some b) :
    (entriesOf (Function.update B p (some { b with entries := b.entries ++ [e] })) ps :
      Multiset Entry) = e ::ₘ (entriesOf B ps : Multiset Entry) := by
  obtain ⟨before, after, rfl⟩ := List.append_of_mem hp
  obtain ⟨_, hcons, hcross⟩ := List.nodup_append.mp hnodup
  have hbefore : entriesOf (Function.update B p (some { b with entries := b.entries ++ [e] }))
      before = entriesOf B before := by
    refine entriesOf_congr ?_
    intro q hq
    rw [update_of_ne (hcross q hq p (by simp))]
  have hafter : entriesOf (Function.update B p (some { b with entries := b.entries ++ [e] }))
      after = entriesOf B after := by
    refine entriesOf_congr ?_
    rintro q hq
    rw [update_of_ne]
    rintro rfl
    exact (List.nodup_cons.mp hcons).1 hq
  have hself : entriesAt (Function.update B p (some { b with entries := b.entries ++ [e] })) p =
      b.entries ++ [e] := by
    rw [entriesAt, update_self]
    rfl
  rw [entriesOf_append, entriesOf_append, entriesOf_cons, entriesOf_cons, hbefore, hafter, hself,
    entriesAt_of_some hb, cons_coe, coe_eq_coe, List.append_assoc b.entries,
    List.singleton_append]
  calc entriesOf B before ++ (b.entries ++ e :: entriesOf B after)
      = (entriesOf B before ++ b.entries) ++ e :: entriesOf B after :=
        (List.append_assoc _ _ _).symm
    _ |>.Perm (e :: ((entriesOf B before ++ b.entries) ++ entriesOf B after)) :=
        List.perm_middle
    _ = e :: (entriesOf B before ++ (b.entries ++ entriesOf B after)) := by
        rw [List.append_assoc]

theorem added (ht : Table blake2b h B slot tail all)
    (hp : p ∈ pagesAt tail (slot (slotOf blake2b h encoded))) (hb : B p = some b)
    (hsame : Same h h')
    (hlayout : Layout h' (Function.update B p
      (some { b with entries := b.entries ++ [(encoded, rid)] })) slot) :
    Table blake2b h' (Function.update B p (some { b with
      entries := b.entries ++ [(encoded, rid)] })) slot tail ((encoded, rid) ::ₘ all) := by
  have hlt := slotOf_lt blake2b h encoded
  refine ht.with_entries hsame hlayout (alike_update hb _) ?_
  refine ht.holds.insert ht.sound (entries_added (ht.nodup _ hlt) hp hb) ?_
  intro t htlt hne
  refine congrArg _ (ht.entries_elsewhere hlt ?_ htlt hne)
  intro q hq
  rw [update_of_ne]
  rintro rfl
  exact hq hp

/-! ### Doubling -/

/-- What growing the index keeps, and that every new page is a directory page or one of
`n` buckets. -/
structure Grown (n : Nat) (h h' : ExtendibleHash) : Prop where
  maxDepth : h'.maxDepth = h.maxDepth
  pageSize : h'.pageSize = h.pageSize
  pages : h'.diskManager.pageCount + h.directoryPages.length =
    h.diskManager.pageCount + h'.directoryPages.length + n

theorem Grown.trans {m n : Nat} {h₁ h₂ h₃ : ExtendibleHash} (h₁₂ : Grown m h₁ h₂)
    (h₂₃ : Grown n h₂ h₃) : Grown (m + n) h₁ h₃ := by
  refine ⟨h₂₃.maxDepth.trans h₁₂.maxDepth, h₂₃.pageSize.trans h₁₂.pageSize, ?_⟩
  have hfirst := h₁₂.pages
  have hsecond := h₂₃.pages
  omega

theorem Grown.of_same {h : ExtendibleHash} (hsame : Same h h') : Grown 0 h h' := by
  refine ⟨hsame.maxDepth, hsame.pageSize, ?_⟩
  rw [hsame.pageCount, hsame.directoryPages, Nat.add_zero]

/-- The directory of the next depth fits in the metadata page. -/
def Fits (h : ExtendibleHash) (depth : Nat) : Prop :=
  (((2 ^ depth * 2 + h.slotsPerPage - 1) / h.slotsPerPage : Nat) : Int) ≤
    maxDirectoryPages h.pageSize

theorem global_depth_le (ht : Table blake2b h B slot tail all) (hfull : ¬ Fits h depth) :
    h.globalDepth ≤ depth := by
  by_contra hdeep
  refine hfull ?_
  have hslots : 2 ^ depth * 2 ≤ h.directoryPages.length * h.slotsPerPage := by
    rw [← pow_succ, Nat.mul_comm]
    exact (Nat.pow_le_pow_right (by decide) (by omega)).trans ht.room
  have hpos := ht.layout.slots_pos
  have hlist : (2 ^ depth * 2 + h.slotsPerPage - 1) / h.slotsPerPage ≤
      h.directoryPages.length := by
    refine Nat.le_of_lt_succ ((Nat.div_lt_iff_lt_mul hpos).mpr ?_)
    rw [Nat.succ_mul]
    omega
  exact (Int.ofNat_le.mpr hlist).trans ht.directory

theorem wp_double_directory (ht : Table blake2b h B slot tail all)
    (hlt : h.globalDepth < h.maxDepth) :
    wp doubleDirectory
      (fun _ h' => Grown 0 h h' ∧ h'.globalDepth = h.globalDepth + 1 ∧ Fits h h.globalDepth ∧
        ∃ slot', Table blake2b h' B slot' tail all ∧ ∀ s < 2 ^ h.globalDepth, slot' s = slot s)
      (fun e h' => e = directoryError ∧ h' = h ∧ ¬ Fits h h.globalDepth ∨
        IsStructError e ∧ Fits h h.globalDepth ∧ ¬ CanDouble h) h := by
  refine wp_mono (ht.layout.wp_double_directory ht.room) ?_ (fun _ _ hE => hE)
  rintro _ h' ⟨hglobal, hmax, hsize, hsynced, hroom, hfits, hlength, hcount, slot', hlayout, hslot⟩
  have hgrown : Grown 0 h h' := by
    refine ⟨hmax, hsize, ?_⟩
    rw [hcount, hlength]
    omega
  have hshown : ∀ s < 2 ^ (h.globalDepth + 1), slot' s = slot (s % 2 ^ h.globalDepth) :=
    Directory.slot_of_double (fun s hs => (hslot s hs).1) (fun s hs => (hslot s hs).2)
  have hback : ∀ s, s % 2 ^ h.globalDepth < 2 ^ h.globalDepth :=
    fun s => Nat.mod_lt _ (Nat.two_pow_pos _)
  refine ⟨hgrown, hglobal, hfits, slot', ⟨hlayout, hsynced, ?_, ?_, ?_, ?_, ?_, ?_, ?_, ?_, ?_, ?_⟩,
    fun s hs => (hslot s hs).1⟩
  · rw [hglobal]
    exact hroom
  · rw [hlength, hsize]
    have hdirectory := ht.directory
    omega
  · rw [hglobal, hmax]
    exact hlt
  · rw [hmax]
    exact ht.maxDepth
  · rw [hglobal]
    intro s hs
    rw [hshown s hs]
    exact ht.linked _ (hback s)
  · rw [hglobal]
    intro s hs
    rw [hshown s hs]
    exact ht.nodup _ (hback s)
  · rw [hglobal]
    intro s hs t htlt
    rw [hshown s hs, hshown t htlt]
    exact ht.disjoint _ (hback s) _ (hback t)
  · rw [hglobal, hmax]
    intro s hs
    rw [hshown s hs]
    exact ht.single _ (hback s)
  · rw [hglobal]
    exact ht.sound.double (fun s hs => (hslot s hs).1) (fun s hs => (hslot s hs).2)
  · rw [hglobal]
    exact ht.holds.double ht.sound (fun s hs => (hslot s hs).1) (fun s hs => (hslot s hs).2)

/-! ### Splitting -/

/-- The bucket of `s` was split: half of its entries are on a new page, which has the slots
with the next bit set. -/
structure Split (blake2b : Bytes → Bytes) (h : ExtendibleHash) (B : Int → Option Bucket)
    (slot : Nat → Int) (s : Nat) (b : Bucket) (new : Int) (B' : Int → Option Bucket)
    (slot' : Nat → Int) : Prop where
  bucket : B (slot s) = some b
  fresh : B new = none
  new_ne : new ≠ HashPage.NO_OVERFLOW
  moved : B' new = some ⟨b.localDepth + 1, HashPage.NO_OVERFLOW,
    b.entries.filter (moves blake2b b.localDepth)⟩
  stayed : B' (slot s) = some ⟨b.localDepth + 1, b.overflow,
    b.entries.filter (fun e => !moves blake2b b.localDepth e)⟩
  other : ∀ q, q ≠ new → q ≠ slot s → B' q = B q
  shown : ∀ t < 2 ^ h.globalDepth, slot' t =
    if t % 2 ^ (b.localDepth + 1) = s % 2 ^ b.localDepth + 2 ^ b.localDepth then new else slot t

section Splitting

variable {b : Bucket} {new : Int} {B' : Int → Option Bucket} {slot' : Nat → Int}
  {h' : ExtendibleHash}

theorem not_mem_pages (ht : Table blake2b h B slot tail all) (hfresh : B new = none) {t : Nat}
    (htlt : t < 2 ^ h.globalDepth) : new ∉ pagesAt tail (slot t) := by
  intro hmem
  obtain ⟨b, hb⟩ := bucket_of_linked (ht.linked t htlt) hmem
  rw [hfresh] at hb
  cases hb

theorem Split.shows (hsplit : Split blake2b h B slot s b new B' slot') {t : Nat}
    (htlt : t < 2 ^ h.globalDepth) : slot' t = new ∨ slot' t = slot t := by
  rw [hsplit.shown t htlt]
  split
  · exact Or.inl rfl
  · exact Or.inr rfl

theorem Split.links (hsplit : Split blake2b h B slot s b new B' slot') {p : Int}
    {next : Option Int} (hlinks : Links B p next) : Links B' p next := by
  obtain ⟨b₀, hb₀, hoverflow⟩ := hlinks
  have hne : p ≠ new := by
    rintro rfl
    rw [hsplit.fresh] at hb₀
    cases hb₀
  by_cases hp : p = slot s
  · subst hp
    rw [hsplit.bucket] at hb₀
    cases hb₀
    exact ⟨_, hsplit.stayed, hoverflow⟩
  · exact ⟨b₀, (hsplit.other p hne hp).trans hb₀, hoverflow⟩

theorem split (ht : Table blake2b h B slot tail all) (hs : s < 2 ^ h.globalDepth)
    (hsplit : Split blake2b h B slot s b new B' slot') (hglobal : b.localDepth < h.globalDepth)
    (hkept : Kept h h') (hlayout : Layout h' B' slot') :
    Table blake2b h' B' slot' (Function.update tail new []) all := by
  have hdepth : depthAt B (slot s) = b.localDepth := depthAt_of_some hsplit.bucket
  have htail : tail (slot s) = [] :=
    ht.single s hs (by rw [hdepth]; exact hglobal.trans_le ht.globalDepth)
  have hfresh : ∀ t < 2 ^ h.globalDepth, slot t ≠ new := by
    intro t htlt heq
    refine ht.not_mem_pages hsplit.fresh htlt ?_
    rw [pagesAt, heq]
    exact List.mem_cons_self
  have hnewPages : pagesAt (Function.update tail new []) new = [new] := by
    rw [pagesAt, update_self]
  have hpages : ∀ t < 2 ^ h.globalDepth,
      pagesAt (Function.update tail new []) (slot t) = pagesAt tail (slot t) := by
    intro t htlt
    rw [pagesAt, update_of_ne (hfresh t htlt), pagesAt]
  have hother : ∀ t < 2 ^ h.globalDepth, slot t ≠ slot s →
      ∀ p ∈ pagesAt tail (slot t), B' p = B p := by
    intro t htlt hne p hp
    refine hsplit.other p ?_ ?_
    · rintro rfl
      exact ht.not_mem_pages hsplit.fresh htlt hp
    · rintro rfl
      exact ht.disjoint t htlt s hs hne hp List.mem_cons_self
  have hself : ∀ t, slot t ∈ pagesAt tail (slot t) := fun t => List.mem_cons_self
  have hdepthNew : depthAt B' new = b.localDepth + 1 := depthAt_of_some hsplit.moved
  have hdepthStayed : depthAt B' (slot s) = b.localDepth + 1 := depthAt_of_some hsplit.stayed
  have hdepthOther : ∀ t < 2 ^ h.globalDepth, slot t ≠ slot s →
      depthAt B' (slot t) = depthAt B (slot t) := by
    intro t htlt hne
    rw [depthAt, hother t htlt hne _ (hself t), depthAt]
  have hsame : ∀ t < 2 ^ h.globalDepth, slot' t =
      if t % 2 ^ (depthAt B (slot s) + 1) =
        s % 2 ^ depthAt B (slot s) + 2 ^ depthAt B (slot s) then new else slot t := by
    rw [hdepth]
    exact hsplit.shown
  refine ⟨hlayout, hkept.synced ht.synced, ?_, ?_, ?_, ?_, ?_, ?_, ?_, ?_, ?_, ?_⟩
  · rw [hkept.globalDepth, hkept.capacity]
    exact ht.room
  · rw [hkept.directoryPages, hkept.pageSize]
    exact ht.directory
  · rw [hkept.globalDepth, hkept.maxDepth]
    exact ht.globalDepth
  · rw [hkept.maxDepth]
    exact ht.maxDepth
  · rw [hkept.globalDepth]
    intro t htlt
    rcases hsplit.shows htlt with hnew | hold
    · rw [hnew, hnewPages]
      exact ⟨⟨_, hsplit.moved, rfl⟩, trivial⟩
    · rw [hold, hpages t htlt]
      exact (ht.linked t htlt).mono (fun _ _ _ hlinks => hsplit.links hlinks)
  · rw [hkept.globalDepth]
    intro t htlt
    rcases hsplit.shows htlt with hnew | hold
    · rw [hnew, hnewPages]
      exact List.nodup_singleton _
    · rw [hold, hpages t htlt]
      exact ht.nodup t htlt
  · rw [hkept.globalDepth]
    intro t htlt u hult hne
    rcases hsplit.shows htlt with htnew | htold
    · rcases hsplit.shows hult with hunew | huold
      · exact absurd (htnew.trans hunew.symm) hne
      · rw [htnew, huold, hnewPages, hpages u hult]
        exact List.singleton_disjoint.mpr (ht.not_mem_pages hsplit.fresh hult)
    · rcases hsplit.shows hult with hunew | huold
      · rw [hunew, htold, hnewPages, hpages t htlt]
        exact List.disjoint_singleton.mpr (ht.not_mem_pages hsplit.fresh htlt)
      · rw [htold, huold] at hne
        rw [htold, huold, hpages t htlt, hpages u hult]
        exact ht.disjoint t htlt u hult hne
  · rw [hkept.globalDepth, hkept.maxDepth]
    intro t htlt hdepth'
    rcases hsplit.shows htlt with hnew | hold
    · rw [hnew, update_self]
    · rw [hold] at hdepth'
      rw [hold, update_of_ne (hfresh t htlt)]
      by_cases heq : slot t = slot s
      · rw [heq, htail]
      · rw [hdepthOther t htlt heq] at hdepth'
        exact ht.single t htlt hdepth'
  · rw [hkept.globalDepth]
    refine ht.sound.split hs ?_ hfresh hsame ?_ ?_ hdepthOther
    · rw [hdepth]
      exact hglobal
    · rw [hdepth]
      exact hdepthNew
    · rw [hdepth]
      exact hdepthStayed
  · rw [hkept.globalDepth]
    have hcell : entriesOf B (pagesAt tail (slot s)) = b.entries := by
      rw [pagesAt, htail, entriesOf_cons, entriesAt_of_some hsplit.bucket]
      exact List.append_nil _
    refine ht.holds.split ht.sound hs hsame ?_ ?_ hdepthOther ?_ ?_ ?_
    · rw [hdepth]
      exact hdepthNew
    · rw [hdepth]
      exact hdepthStayed
    · show (entriesOf B' (pagesAt (Function.update tail new []) new) : Multiset Entry) =
        filter _ (entriesOf B (pagesAt tail (slot s)) : Multiset Entry)
      rw [hnewPages, hcell, hdepth, entriesOf_cons, entriesAt_of_some hsplit.moved]
      refine (congrArg _ (List.append_nil _)).trans ?_
      rw [coe_filter]
      exact filter_congr (fun e _ => moves_iff)
    · show (entriesOf B' (pagesAt (Function.update tail new []) (slot s)) : Multiset Entry) =
        filter _ (entriesOf B (pagesAt tail (slot s)) : Multiset Entry)
      rw [hpages s hs, hcell, hdepth, pagesAt, htail, entriesOf_cons,
        entriesAt_of_some hsplit.stayed]
      refine (congrArg _ (List.append_nil _)).trans ?_
      rw [coe_filter]
      refine filter_congr ?_
      intro e _
      rw [Bool.not_eq_true', ← Bool.not_eq_true, moves_iff]
    · intro t htlt hne
      show (entriesOf B' (pagesAt (Function.update tail new []) (slot t)) : Multiset Entry) = _
      rw [hpages t htlt, entriesOf_congr (hother t htlt hne)]

end Splitting

/-- The bytes of a page are in range, and so are the page ids of so many more buckets where a
page has no room for these bytes. -/
structure Roomy (h : ExtendibleHash) (bytes buckets : Nat) : Prop where
  short : Short h.pageSize bytes
  pageIds : h.pageSize < bytes → h.diskManager.pageCount +
    ((maxDirectoryPages h.pageSize).toNat - h.directoryPages.length) + buckets <
      4294967296

theorem Roomy.grown {m n bytes : Nat} {h : ExtendibleHash} (hroomy : Roomy h bytes (m + n))
    (hgrown : Grown m h h')
    (hold : (h.directoryPages.length : Int) ≤ maxDirectoryPages h.pageSize)
    (hnew : (h'.directoryPages.length : Int) ≤ maxDirectoryPages h'.pageSize) :
    Roomy h' bytes n := by
  have hpages := hgrown.pages
  have hshort := hroomy.short
  rw [hgrown.pageSize] at hnew
  rw [← hgrown.pageSize] at hshort
  refine ⟨hshort, ?_⟩
  rw [hgrown.pageSize]
  intro hbytes
  have hids := hroomy.pageIds hbytes
  omega

theorem Roomy.mono {m n bytes : Nat} {h : ExtendibleHash} (hroomy : Roomy h bytes n)
    (hle : m ≤ n) : Roomy h bytes m := by
  refine ⟨hroomy.short, fun hbytes => ?_⟩
  have hids := hroomy.pageIds hbytes
  omega

theorem canDouble (ht : Table blake2b h B slot tail all) (hlt : h.globalDepth < h.maxDepth)
    (hroomy : Roomy h (h.pageSize + 1) 0) (hfits : Fits h h.globalDepth) : CanDouble h := by
  have hmax := ht.maxDepth
  have hids := hroomy.pageIds (Nat.lt_succ_self _)
  have hneeded : (neededPages h : Int) ≤ maxDirectoryPages h.pageSize := hfits
  refine ⟨hneeded, (hroomy.short.mono (Nat.le_succ _)).lt le_rfl, by omega, hmax, ht.directory,
    by omega⟩

/-- The directory is doubled if the bucket has as many bits as it. -/
theorem wp_make_room (ht : Table blake2b h B slot tail all) (hdepth : depth ≤ h.globalDepth)
    (hmax : depth < h.maxDepth) :
    wp (if depth = h.globalDepth then doubleDirectory else pure ())
      (fun _ h' => Grown 0 h h' ∧ h'.globalDepth = max h.globalDepth (depth + 1) ∧
        (depth = h.globalDepth → Fits h depth) ∧
        ∃ slot', Table blake2b h' B slot' tail all ∧ ∀ s < 2 ^ h.globalDepth, slot' s = slot s)
      (fun e h' => e = directoryError ∧ h' = h ∧ depth = h.globalDepth ∧ ¬ Fits h depth ∨
        IsStructError e ∧ ¬ Roomy h (h.pageSize + 1) 0) h := by
  split
  · next heq =>
    subst heq
    refine wp_mono (ht.wp_double_directory hmax) ?_ ?_
    · rintro _ h' ⟨hgrown, hglobal, hfits, hslot⟩
      exact ⟨hgrown, by omega, fun _ => hfits, hslot⟩
    · rintro e _ (⟨rfl, hsame, hfull⟩ | ⟨hstruct, hfits, hnot⟩)
      · exact Or.inl ⟨rfl, hsame, rfl, hfull⟩
      · exact Or.inr ⟨hstruct, fun hroomy => hnot (ht.canDouble hmax hroomy hfits)⟩
  · next hne =>
    exact ⟨Grown.of_same (Same.refl h), by omega, fun heq => absurd heq hne, slot, ht,
      fun _ _ => rfl⟩

theorem mem_split_slots {global n : Nat} :
    n ∈ rangeStep (s &&& (2 ^ depth - 1) ||| 2 ^ depth) (2 ^ global) (2 ^ (depth + 1)) ↔
      n < 2 ^ global ∧ n % 2 ^ (depth + 1) = s % 2 ^ depth + 2 ^ depth := by
  have hlow := Nat.mod_lt s (Nat.two_pow_pos depth)
  have hfirst : s &&& (2 ^ depth - 1) ||| 2 ^ depth = s % 2 ^ depth + 2 ^ depth := by
    have hor := Nat.two_pow_add_eq_or_of_lt hlow 1
    rw [Nat.mul_one] at hor
    rw [Nat.and_two_pow_sub_one_eq_mod, Nat.or_comm, ← hor, Nat.add_comm]
  rw [hfirst]
  refine mem_rangeStep ?_
  rw [pow_succ]
  omega

theorem wp_split_bucket (ht : Table blake2b h B slot tail all) (hs : s < 2 ^ h.globalDepth)
    (hb : B (slot s) = some b) (hmax : b.localDepth < h.maxDepth) :
    wp (splitBucket blake2b s (slot s) b.localDepth)
      (fun _ h' => Grown 1 h h' ∧ h'.globalDepth = max h.globalDepth (b.localDepth + 1) ∧
        (b.localDepth = h.globalDepth → Fits h b.localDepth) ∧
        ∃ B' slot' tail', Table blake2b h' B' slot' tail' all ∧ ∀ t < 2 ^ h'.globalDepth,
          t % 2 ^ b.localDepth = s % 2 ^ b.localDepth →
            depthAt B' (slot' t) = b.localDepth + 1)
      (fun e h' => e = directoryError ∧ h' = h ∧ b.localDepth = h.globalDepth ∧
          ¬ Fits h b.localDepth ∨
        IsStructError e ∧ ¬ Roomy h (h.pageSize + 1) 1) h := by
  have hdepth : b.localDepth ≤ h.globalDepth := by
    have hle := ht.sound.depth_le s hs
    rwa [depthAt_of_some hb] at hle
  have hmaxDepth := ht.maxDepth
  simp only [splitBucket, wp_bind, wp_get]
  rw [wp_when]
  simp only [wp_bind, wp_get]
  refine wp_mono (ht.wp_make_room hdepth hmax) ?_ ?_
  rotate_left
  · rintro e _ (hfull | ⟨hstruct, hnot⟩)
    · exact Or.inl hfull
    · exact Or.inr ⟨hstruct, fun hroomy => hnot (hroomy.mono (Nat.zero_le 1))⟩
  rintro _ h₁ ⟨hgrown₁, hglobal₁, hfits, slot₁, ht₁, hslot₁⟩
  have hs₁ : s < 2 ^ h₁.globalDepth :=
    hs.trans_le (Nat.pow_le_pow_right (by decide) (by omega))
  have hb₁ : B (slot₁ s) = some b := by rw [hslot₁ s hs, hb]
  obtain ⟨frame, _, hframe, hholds⟩ := ht₁.layout.buckets _ b hb₁
  have hheader : HashPage.BUCKET_HEADER_SIZE ≤ h₁.pageSize := by
    have hle := hholds.length_page
    rw [freeOffset] at hle
    omega
  -- an empty bucket
  refine wp_mono (ht₁.layout.wp_new_bucket (b.localDepth + 1)) ?_
    (fun e _ hE => absurd ⟨by omega, hheader⟩ hE.2)
  rintro new h₂ ⟨hnew, hkept₂, hcount₂, hlayout₂⟩
  have hfresh : B new = none := by
    rw [hnew]
    exact ht₁.layout.fresh.1
  have hne : slot₁ s ≠ new := by
    intro heq
    rw [heq, hfresh] at hb₁
    cases hb₁
  have hb₂ : Function.update B new (some ⟨b.localDepth + 1, HashPage.NO_OVERFLOW, []⟩)
      (slot₁ s) = some b := by
    rw [update_of_ne hne, hb₁]
  -- the entries that move are taken from the old bucket
  have hpin : wp (pin (slot₁ s) (splitEntries blake2b b.localDepth))
      (fun move h₃ => ∃ b', (move = b.entries.filter (moves blake2b b.localDepth) ∧
          b' = ⟨b.localDepth + 1, b.overflow,
            b.entries.filter (fun e => !moves blake2b b.localDepth e)⟩) ∧ Same h₂ h₃ ∧
        Layout h₃ (Function.update (Function.update B new
          (some ⟨b.localDepth + 1, HashPage.NO_OVERFLOW, []⟩)) (slot₁ s) (some b')) slot₁)
      (fun _ _ => False) h₂ := by
    refine hlayout₂.wp_pin_bucket hb₂ ?_
    intro frame _ hholds
    refine wp_mono (wp_split_entries hholds (by omega)) ?_ (fun _ _ hE => hE)
    rintro move frame' ⟨hlength, hmove, hholds'⟩
    exact ⟨hlength, _, hholds', hmove, rfl⟩
  rw [← hslot₁ s hs]
  refine wp_mono hpin ?_ (fun _ _ hE => hE.elim)
  rintro _ h₃ ⟨_, ⟨rfl, rfl⟩, hsame₃, hlayout₃⟩
  -- and written to the new one
  have hb₃ : Function.update (Function.update B new
      (some ⟨b.localDepth + 1, HashPage.NO_OVERFLOW, []⟩)) (slot₁ s)
        (some ⟨b.localDepth + 1, b.overflow,
          b.entries.filter (fun e => !moves blake2b b.localDepth e)⟩) new =
      some ⟨b.localDepth + 1, HashPage.NO_OVERFLOW, []⟩ := by
    rw [update_of_ne hne.symm, update_self]
  have hpage₃ : h₃.pageSize = h₁.pageSize := hsame₃.pageSize.trans hkept₂.pageSize
  have hwrite : wp (pin new (writeEntries
        (b.entries.filter (moves blake2b b.localDepth))))
      (fun _ h₄ => ∃ b', b' = ⟨b.localDepth + 1, HashPage.NO_OVERFLOW,
          b.entries.filter (moves blake2b b.localDepth)⟩ ∧ Same h₃ h₄ ∧
        Layout h₄ (Function.update (Function.update (Function.update B new
          (some ⟨b.localDepth + 1, HashPage.NO_OVERFLOW, []⟩)) (slot₁ s)
            (some ⟨b.localDepth + 1, b.overflow,
              b.entries.filter (fun e => !moves blake2b b.localDepth e)⟩)) new (some b')) slot₁)
      (fun _ _ => False) h₃ := by
    refine hlayout₃.wp_pin_bucket hb₃ ?_
    intro frame' hframe' hempty
    obtain ⟨hentries, hroom, hfields⟩ := hholds.sublist
      (@List.filter_sublist _ (moves blake2b b.localDepth) b.entries)
    refine wp_mono (hempty.wp_write_entries hentries ?_ ?_) ?_ (fun _ _ hE => hE)
    · rw [hframe', hpage₃, ← hframe]
      exact hroom
    · exact ⟨hempty.header.depth, hfields.count, hfields.free_offset, hempty.header.overflow⟩
    · rintro _ frame'' ⟨hlength, hholds''⟩
      exact ⟨hlength, _, hholds'', rfl⟩
  refine wp_mono hwrite ?_ (fun _ _ hE => hE.elim)
  rintro _ h₄ ⟨_, rfl, hsame₄, hlayout₄⟩
  have hkept₄ : Kept h₁ h₄ := hkept₂.trans (hsame₃.trans hsame₄).toKept
  -- the slots with the next bit set show the new bucket
  refine wp_mono (hlayout₄.wp_write_slots new ?_) ?_ ?_
  · intro t htmem
    rw [hkept₄.capacity]
    rw [hkept₄.globalDepth] at htmem
    exact (mem_split_slots.mp htmem).1.trans_le ht₁.room
  · rintro _ h' ⟨hsame', slot', hlayout', hslot'⟩
    have hkept' : Kept h₁ h' := hkept₄.trans hsame'.toKept
    have hgrown : Grown 1 h₁ h' := by
      refine ⟨hkept'.maxDepth, hkept'.pageSize, ?_⟩
      rw [hkept'.directoryPages, hsame'.pageCount, hsame₄.pageCount, hsame₃.pageCount,
        hcount₂]
      omega
    have hsplit : Split blake2b h₁ B slot₁ s b new (Function.update (Function.update
        (Function.update B new (some ⟨b.localDepth + 1, HashPage.NO_OVERFLOW, []⟩)) (slot₁ s)
          (some ⟨b.localDepth + 1, b.overflow,
            b.entries.filter (fun e => !moves blake2b b.localDepth e)⟩)) new
          (some ⟨b.localDepth + 1, HashPage.NO_OVERFLOW,
            b.entries.filter (moves blake2b b.localDepth)⟩)) slot' := by
      refine ⟨hb₁, hfresh, ?_, update_self _ _ _, ?_, ?_, ?_⟩
      · rw [hnew]
        exact ht₁.layout.fresh.2.1
      · rw [update_of_ne hne, update_self]
      · intro q hqnew hqslot
        rw [update_of_ne hqnew, update_of_ne hqslot,
          update_of_ne hqnew]
      · intro t htlt
        rw [hslot' t]
        refine if_congr ?_ rfl rfl
        rw [mem_split_slots, hkept₄.globalDepth]
        exact ⟨fun hmem => hmem.2, fun hbits => ⟨htlt, hbits⟩⟩
    have hlt₁ : b.localDepth < h₁.globalDepth := by omega
    have hglobal' : h'.globalDepth = h₁.globalDepth := hkept'.globalDepth
    have ht' := ht₁.split hs₁ hsplit hlt₁ hkept' hlayout'
    refine ⟨by simpa using hgrown₁.trans hgrown, hglobal'.trans hglobal₁, hfits, _, slot', _, ht',
      ?_⟩
    intro t htlt hbits
    rw [hglobal'] at htlt
    have hcell : slot₁ t = slot₁ s := by
      rw [eq_comm, ht₁.sound.same s hs₁ t htlt, depthAt_of_some hb₁]
      exact hbits.symm
    rcases hsplit.shows htlt with hshown | hshown
    · rw [hshown]
      exact depthAt_of_some hsplit.moved
    · rw [hshown, hcell]
      exact depthAt_of_some hsplit.stayed
  · rintro e _ ⟨hstruct, hnot⟩
    refine Or.inr ⟨hstruct, fun hroomy => hnot ?_⟩
    have hids := ((show Roomy h (h.pageSize + 1) (0 + 1) from hroomy).grown hgrown₁ ht.directory
      ht₁.directory).pageIds (by
        rw [hgrown₁.pageSize]
        exact Nat.lt_succ_self _)
    rw [hnew]
    omega

/-! ### Overflow -/

/-- A page with one entry stands behind the last page of a bucket. -/
structure Extended (B : Int → Option Bucket) (last : Int) (b : Bucket) (new : Int) (depth : Nat)
    (e : Entry) (B' : Int → Option Bucket) : Prop where
  bucket : B last = some b
  fresh : B new = none
  new_ne : new ≠ HashPage.NO_OVERFLOW
  appended : B' new = some ⟨depth, HashPage.NO_OVERFLOW, [e]⟩
  linked : B' last = some { b with overflow := new }
  other : ∀ q, q ≠ new → q ≠ last → B' q = B q

section Extending

variable {b : Bucket} {new last : Int} {depth : Nat} {e : Entry} {B' : Int → Option Bucket}
  {h' : ExtendibleHash}

variable {p : Int}

theorem Extended.entriesAt (hext : Extended B last b new depth e B') (hp : p ≠ new) :
    ExtendibleHash.entriesAt B' p = ExtendibleHash.entriesAt B p := by
  by_cases hlast : p = last
  · subst hlast
    rw [entriesAt_of_some hext.bucket, entriesAt_of_some hext.linked]
  · rw [ExtendibleHash.entriesAt, hext.other p hp hlast, ExtendibleHash.entriesAt]

theorem Extended.depthAt (hext : Extended B last b new depth e B') (hp : p ≠ new) :
    ExtendibleHash.depthAt B' p = ExtendibleHash.depthAt B p := by
  by_cases hlast : p = last
  · subst hlast
    rw [depthAt_of_some hext.bucket, depthAt_of_some hext.linked]
  · rw [ExtendibleHash.depthAt, hext.other p hp hlast, ExtendibleHash.depthAt]

/-- A chain that does not end in the last page keeps its links. -/
theorem Extended.links (hext : Extended B last b new depth e B') (hp : p ≠ last) {next : Option Int}
    (hlinks : Links B p next) : Links B' p next := by
  refine Links.congr (hext.other p ?_ hp) hlinks
  rintro rfl
  obtain ⟨b₀, hb₀, _⟩ := hlinks
  rw [hext.fresh] at hb₀
  cases hb₀

theorem pagesAt_extended :
    pagesAt (Function.update tail p (tail p ++ [new])) p = pagesAt tail p ++ [new] := by
  rw [pagesAt, update_self, pagesAt, List.cons_append]

/-- An overflow page with the entry keeps the table. -/
theorem extend (ht : Table blake2b h B slot tail all)
    (hdepth : h.maxDepth ≤ depthAt B (slot (slotOf blake2b h encoded))) {before : List Int}
    (hpages : pagesAt tail (slot (slotOf blake2b h encoded)) = before ++ [last])
    (hext : Extended B last b new depth (encoded, rid) B') (hkept : Kept h h')
    (hlayout : Layout h' B' slot) :
    Table blake2b h' B' slot (Function.update tail (slot (slotOf blake2b h encoded))
      (tail (slot (slotOf blake2b h encoded)) ++ [new])) ((encoded, rid) ::ₘ all) := by
  have hs := slotOf_lt blake2b h encoded
  generalize hslotOf : slotOf blake2b h encoded = s at *
  have hself : ∀ t, slot t ∈ pagesAt tail (slot t) := fun t => List.mem_cons_self
  have hlast : last ∈ pagesAt tail (slot s) := by
    rw [hpages]
    exact List.mem_append_right _ (List.mem_singleton_self last)
  have hnew : ∀ t < 2 ^ h.globalDepth, ∀ p ∈ pagesAt tail (slot t), p ≠ new := by
    rintro t htlt p hp rfl
    exact ht.not_mem_pages hext.fresh htlt hp
  have hothers : ∀ t, slot t ≠ slot s →
      pagesAt (Function.update tail (slot s) (tail (slot s) ++ [new])) (slot t) =
        pagesAt tail (slot t) := by
    intro t hne
    rw [pagesAt, update_of_ne hne, pagesAt]
  have hentries : ∀ t < 2 ^ h.globalDepth,
      entriesOf B' (pagesAt tail (slot t)) = entriesOf B (pagesAt tail (slot t)) :=
    fun t htlt => List.flatMap_congr (fun p hp => hext.entriesAt (hnew t htlt p hp))
  have hdepths : ∀ t < 2 ^ h.globalDepth, depthAt B' (slot t) = depthAt B (slot t) :=
    fun t htlt => hext.depthAt (hnew t htlt _ (hself t))
  have hnodup := ht.nodup s hs
  refine ⟨hlayout, hkept.synced ht.synced, ?_, ?_, ?_, ?_, ?_, ?_, ?_, ?_, ?_, ?_⟩
  · rw [hkept.globalDepth, hkept.capacity]
    exact ht.room
  · rw [hkept.directoryPages, hkept.pageSize]
    exact ht.directory
  · rw [hkept.globalDepth, hkept.maxDepth]
    exact ht.globalDepth
  · rw [hkept.maxDepth]
    exact ht.maxDepth
  · rw [hkept.globalDepth]
    intro t htlt
    have hlinked := ht.linked t htlt
    by_cases heq : slot t = slot s
    · rw [heq, hpages] at hlinked
      rw [hpages] at hnodup
      rw [heq, pagesAt_extended, hpages]
      refine hlinked.extend ?_ (fun _ => ⟨_, hext.linked, rfl⟩) ⟨_, hext.appended, rfl⟩
      intro p hp next hlinks
      refine hext.links ?_ hlinks
      rintro rfl
      exact (List.nodup_append.mp hnodup).2.2 p hp p (List.mem_singleton_self p) rfl
    · rw [hothers t heq]
      refine hlinked.mono ?_
      intro p hp next hlinks
      refine hext.links ?_ hlinks
      rintro rfl
      exact ht.disjoint t htlt s hs heq hp hlast
  · rw [hkept.globalDepth]
    intro t htlt
    by_cases heq : slot t = slot s
    · rw [heq, pagesAt_extended]
      exact hnodup.append (List.nodup_singleton new)
        (List.disjoint_singleton.mpr (ht.not_mem_pages hext.fresh hs))
    · rw [hothers t heq]
      exact ht.nodup t htlt
  · rw [hkept.globalDepth]
    intro t htlt u hult hne
    have hdisjoint := ht.disjoint t htlt u hult hne
    have htnot := ht.not_mem_pages hext.fresh htlt
    have hunot := ht.not_mem_pages hext.fresh hult
    by_cases hteq : slot t = slot s
    · have hune : slot u ≠ slot s := fun hueq => hne (hteq.trans hueq.symm)
      rw [hothers u hune, hteq, pagesAt_extended, ← hteq]
      exact List.disjoint_append_left.mpr ⟨hdisjoint, List.singleton_disjoint.mpr hunot⟩
    · by_cases hueq : slot u = slot s
      · rw [hothers t hteq, hueq, pagesAt_extended, ← hueq]
        exact List.disjoint_append_right.mpr ⟨hdisjoint, List.disjoint_singleton.mpr htnot⟩
      · rw [hothers t hteq, hothers u hueq]
        exact hdisjoint
  · rw [hkept.globalDepth, hkept.maxDepth]
    intro t htlt hsmall
    rw [hdepths t htlt] at hsmall
    by_cases heq : slot t = slot s
    · rw [heq] at hsmall
      exact absurd hsmall (not_lt.mpr hdepth)
    · rw [update_of_ne heq]
      exact ht.single t htlt hsmall
  · rw [hkept.globalDepth]
    exact ht.sound.congr_depth hdepths
  · rw [hkept.globalDepth]
    refine Directory.Holds.congr_depth (ht.holds.insert ht.sound ?_ ?_) hdepths
    · have hcell : slot (hashOf blake2b (encoded, rid) % 2 ^ h.globalDepth) = slot s := by
        rw [← hslotOf]
        rfl
      show (entriesOf B' (pagesAt _ (slot _)) : Multiset Entry) =
        (encoded, rid) ::ₘ (entriesOf B (pagesAt tail (slot _)) : Multiset Entry)
      rw [hcell, pagesAt_extended, entriesOf_append, hentries s hs, entriesOf_cons,
        entriesAt_of_some hext.appended, cons_coe, coe_eq_coe]
      exact List.perm_append_comm
    · intro t htlt hne
      have hne' : slot t ≠ slot s := by
        rw [← hslotOf]
        exact hne
      show (entriesOf B' (pagesAt _ (slot t)) : Multiset Entry) = _
      rw [hothers t hne', hentries t htlt]

end Extending

theorem room_of_key (hkey : (encoded.length : Int) ≤ maxKeySize pageSize) :
    HashPage.BUCKET_HEADER_SIZE + entrySize encoded ≤ pageSize := by
  simp only [maxKeySize, HashPage.BUCKET_HEADER_SIZE, HashPage.ENTRY_HEADER_SIZE,
    HashPage.RID_SIZE, entrySize] at hkey ⊢
  omega

theorem wp_pin_add (hlayout : Layout h B slot) (hb : B p = some b) (encoded : Bytes) (rid : RID) :
    wp (pin p (addEntry encoded rid))
      (fun added h' => ∃ b', (added = false ∧ b' = b ∧
          h.pageSize < freeOffset b.entries + entrySize encoded ∨
        added = true ∧ b' = { b with entries := b.entries ++ [(encoded, rid)] }) ∧ Same h h' ∧
        Layout h' (Function.update B p (some b')) slot)
      (fun e _ => IsStructError e ∧ ¬ (Short h.pageSize (freeOffset b.entries +
        entrySize encoded) ∧ RidFits rid)) h := by
  refine hlayout.wp_pin_bucket hb ?_
  intro frame hframe hholds
  refine wp_mono (hholds.wp_add_entry encoded rid) ?_ ?_
  · rintro added frame' ⟨hlength, ⟨rfl, rfl, hfull⟩ | ⟨rfl, _, hholds'⟩⟩
    · exact ⟨rfl, b, hholds, Or.inl ⟨rfl, rfl, hframe ▸ hfull⟩⟩
    · exact ⟨hlength, _, hholds', Or.inr ⟨rfl, rfl⟩⟩
  · rintro e _ ⟨hstruct, hroom, hnot⟩
    rw [← hframe]
    exact ⟨hstruct, fun hfits => hnot (hholds.canAdd_of_room hfits.2 (hfits.1.lt hroom) hroom)⟩

/-- The bytes of a page with some entries and one more. -/
def bytesWith (all : Multiset Entry) (encoded : Bytes) : Nat :=
  HashPage.BUCKET_HEADER_SIZE + weight all + entrySize encoded

theorem free_offset_le (ht : Table blake2b h B slot tail all)
    (hp : p ∈ pagesAt tail (slot (slotOf blake2b h encoded))) (hb : B p = some b) :
    freeOffset b.entries + entrySize encoded ≤ bytesWith all encoded := by
  have hpage : (b.entries : Multiset Entry) ≤
      (entriesOf B (pagesAt tail (slot (slotOf blake2b h encoded))) : Multiset Entry) := by
    rw [← entriesAt_of_some hb, coe_le]
    exact (List.sublist_flatten_of_mem (List.mem_map_of_mem hp)).subperm
  have hall := hpage.trans ((ht.holds.at_slot ht.sound
    (hashEncoded blake2b encoded)).trans_le (filter_le _ _))
  have hweight := weight_mono hall
  rw [freeOffset_eq, bytesWith]
  omega

/-- The entry is added to the last page of the chain, or to a new page behind it. -/
theorem wp_insert_into_overflow (ht : Table blake2b h B slot tail all)
    (hdepth : h.maxDepth ≤ depthAt B (slot (slotOf blake2b h encoded)))
    (hkey : (encoded.length : Int) ≤ maxKeySize h.pageSize) :
    wp (insertIntoOverflow (slot (slotOf blake2b h encoded)) encoded rid)
      (fun _ h' => (∃ n ≤ 1, Grown n h h') ∧
        ∃ B' tail', Table blake2b h' B' slot tail' ((encoded, rid) ::ₘ all))
      (fun e _ => IsStructError e ∧ ¬ (Roomy h (bytesWith all encoded) 1 ∧ RidFits rid)) h := by
  have hs := slotOf_lt blake2b h encoded
  have hroomKey := room_of_key hkey
  obtain ⟨before, last, hpages⟩ :
      ∃ before last, pagesAt tail (slot (slotOf blake2b h encoded)) = before ++ [last] :=
    ⟨_, _, (List.dropLast_append_getLast (List.cons_ne_nil _ _)).symm⟩
  have hlast : last ∈ pagesAt tail (slot (slotOf blake2b h encoded)) := by
    rw [hpages]
    exact List.mem_append_right _ (List.mem_singleton_self last)
  obtain ⟨b, hb⟩ := bucket_of_linked (ht.linked _ hs) hlast
  simp only [insertIntoOverflow, wp_bind]
  refine wp_of_ok (ht.chain_ok hs) ?_
  rw [hpages, List.getLast?_concat]
  simp only [wp_bind]
  refine wp_mono (wp_pin_add ht.layout hb encoded rid) ?_
    (fun e _ hE => ⟨hE.1, fun hfits =>
      hE.2 ⟨hfits.1.short.mono (ht.free_offset_le hlast hb), hfits.2⟩⟩)
  rintro added h₁ ⟨b', ⟨rfl, hb', hlarge⟩ | ⟨rfl, rfl⟩, hsame₁, hlayout₁⟩
  rotate_left
  · exact ⟨⟨0, Nat.zero_le 1, Grown.of_same hsame₁⟩, _, tail, ht.added hlast hb hsame₁ hlayout₁⟩
  rw [hb', ← hb, update_eq_self] at hlayout₁
  have hmax := ht.maxDepth
  rw [if_neg (by decide)]
  simp only [wp_bind, wp_get]
  -- a new page
  refine wp_mono (hlayout₁.wp_new_bucket h₁.maxDepth) ?_ ?_
  rotate_left
  · intro e _ hE
    refine absurd ⟨?_, ?_⟩ hE.2
    · rw [hsame₁.maxDepth]
      exact hmax
    · rw [hsame₁.pageSize]
      omega
  rintro new h₂ ⟨hnew, hkept₂, hcount₂, hlayout₂⟩
  have hfresh : B new = none := by
    rw [hnew]
    exact hlayout₁.fresh.1
  have hne : last ≠ new := by
    rintro rfl
    rw [hfresh] at hb
    cases hb
  have hsize₂ : h₂.pageSize = h.pageSize := hkept₂.pageSize.trans hsame₁.pageSize
  -- the entry is added to it
  have hempty : freeOffset [] + entrySize encoded ≤ bytesWith all encoded := by
    rw [freeOffset_eq, bytesWith]
    exact Nat.add_le_add_right (Nat.add_le_add_left (weight_mono (Multiset.zero_le all)) _) _
  refine wp_mono (wp_pin_add hlayout₂ (update_self _ _ _) encoded rid) ?_
    (fun e _ hE => ⟨hE.1, fun hfits => hE.2 ⟨?_, hfits.2⟩⟩)
  rotate_left
  · rw [hsize₂]
    exact hfits.1.short.mono hempty
  rintro added₃ h₃ ⟨_, ⟨rfl, _, hfull⟩ | ⟨rfl, rfl⟩, hsame₃, hlayout₃⟩
  · rw [hsize₂] at hfull
    exact absurd hroomKey (not_le.mpr hfull)
  rw [update_idem] at hlayout₃
  have hb₃ : Function.update B new (some ⟨h₁.maxDepth, HashPage.NO_OVERFLOW,
      [] ++ [(encoded, rid)]⟩) last = some b := by
    rw [update_of_ne hne, hb]
  have hkept₃ : Kept h h₃ := hsame₁.toKept.trans (hkept₂.trans hsame₃.toKept)
  -- and linked to the last page
  have hlink : wp (pin last (setOverflowPageId new))
      (fun _ h' => ∃ b', b' = { b with overflow := new } ∧ Same h₃ h' ∧ Layout h'
        (Function.update (Function.update B new (some ⟨h₁.maxDepth, HashPage.NO_OVERFLOW,
          [] ++ [(encoded, rid)]⟩)) last (some b')) slot)
      (fun e _ => IsStructError e ∧ ¬ (0 ≤ new ∧ new < 4294967296)) h₃ := by
    refine hlayout₃.wp_pin_bucket hb₃ ?_
    intro frame _ hholds
    refine wp_mono (hholds.wp_set_overflow_page_id new) ?_ (fun _ _ hE => hE)
    rintro _ frame' ⟨hlength, hholds'⟩
    exact ⟨hlength, _, hholds', rfl⟩
  refine wp_mono hlink ?_ ?_
  · rintro _ h' ⟨_, rfl, hsame', hlayout'⟩
    have hkept' : Kept h h' := hkept₃.trans hsame'.toKept
    have hext : Extended B last b new h₁.maxDepth (encoded, rid) (Function.update
        (Function.update B new (some ⟨h₁.maxDepth, HashPage.NO_OVERFLOW,
          [] ++ [(encoded, rid)]⟩)) last (some { b with overflow := new })) := by
      refine ⟨hb, hfresh, ?_, ?_, update_self _ _ _, ?_⟩
      · rw [hnew]
        exact hlayout₁.fresh.2.1
      · rw [update_of_ne hne.symm, update_self]
        rfl
      · intro q hqnew hqlast
        rw [update_of_ne hqlast, update_of_ne hqnew]
    refine ⟨⟨1, le_rfl, hkept'.maxDepth, hkept'.pageSize, ?_⟩, _, _,
      ht.extend hdepth hpages hext hkept' hlayout'⟩
    rw [hkept'.directoryPages, hsame'.pageCount, hsame₃.pageCount, hcount₂, hsame₁.pageCount]
    omega
  · rintro e _ ⟨hstruct, hnot⟩
    refine ⟨hstruct, fun hfits => hnot ?_⟩
    have hids := hfits.1.pageIds (hlarge.trans_le (ht.free_offset_le hlast hb))
    rw [hnew, hsame₁.pageCount]
    omega

/-! ### The loop -/

/-- The entries with some low bits of the hash of a key have no room on a page with it. -/
def Crowded (blake2b : Bytes → Bytes) (pageSize : Nat) (all : Multiset Entry) (encoded : Bytes)
    (depth : Nat) : Prop :=
  pageSize < HashPage.BUCKET_HEADER_SIZE + weight (all.filter (fun e =>
    hashOf blake2b e % 2 ^ depth = hashEncoded blake2b encoded % 2 ^ depth)) + entrySize encoded

/-- The directory can be doubled as often as a new entry needs it. -/
def HasRoom (blake2b : Bytes → Bytes) (h : ExtendibleHash) (all : Multiset Entry)
    (encoded : Bytes) : Prop :=
  ∀ depth, h.globalDepth ≤ depth → depth < h.maxDepth →
    Crowded blake2b h.pageSize all encoded depth → Fits h depth

/-- More bits, fewer entries. -/
theorem Crowded.of_le {d d' : Nat} (hcrowded : Crowded blake2b pageSize all encoded d')
    (hle : d ≤ d') : Crowded blake2b pageSize all encoded d := by
  unfold Crowded at hcrowded ⊢
  have hweight := weight_mono (monotone_filter_right all
    (p := fun e => hashOf blake2b e % 2 ^ d' = hashEncoded blake2b encoded % 2 ^ d')
    (q := fun e => hashOf blake2b e % 2 ^ d = hashEncoded blake2b encoded % 2 ^ d) ?_)
  · omega
  · intro e hbits
    have hmod := congrArg (fun n => n % 2 ^ d) hbits
    simpa only [Directory.mod_mod_pow hle] using hmod

theorem Crowded.lt_bytes {d : Nat} (hcrowded : Crowded blake2b pageSize all encoded d) :
    pageSize < bytesWith all encoded := by
  have hweight := weight_mono (filter_le (fun e =>
    hashOf blake2b e % 2 ^ d = hashEncoded blake2b encoded % 2 ^ d) all)
  unfold Crowded at hcrowded
  rw [bytesWith]
  omega

/-- A bucket without overflow pages is full if its entries are crowded. -/
theorem crowded_iff (ht : Table blake2b h B slot tail all)
    (hb : B (slot (slotOf blake2b h encoded)) = some b) (hmax : b.localDepth < h.maxDepth) :
    Crowded blake2b h.pageSize all encoded b.localDepth ↔
      h.pageSize < freeOffset b.entries + entrySize encoded := by
  have hs := slotOf_lt blake2b h encoded
  have hdepth := depthAt_of_some hb
  have htail : tail (slot (slotOf blake2b h encoded)) = [] :=
    ht.single _ hs (by rw [hdepth]; exact hmax)
  have hitems : (b.entries : Multiset Entry) = all.filter (fun e =>
      hashOf blake2b e % 2 ^ b.localDepth = hashEncoded blake2b encoded % 2 ^ b.localDepth) := by
    have hslot := ht.holds.at_slot ht.sound (hashEncoded blake2b encoded)
    have hcell : entriesOf B (pagesAt tail (slot (slotOf blake2b h encoded))) = b.entries := by
      rw [pagesAt, htail, entriesOf_cons, entriesAt_of_some hb]
      exact List.append_nil _
    rw [← hcell, ← hdepth]
    exact hslot
  rw [Crowded, ← hitems, ← freeOffset_eq]

/-- The entry was added, and the index grew. -/
structure Inserted (blake2b : Bytes → Bytes) (h : ExtendibleHash) (all : Multiset Entry)
    (encoded : Bytes) (rid : RID) (splits : Nat) (h' : ExtendibleHash) : Prop where
  grown : ∃ n ≤ splits + 1, Grown n h h'
  room : HasRoom blake2b h all encoded
  table : ∃ B' slot' tail', Table blake2b h' B' slot' tail' ((encoded, rid) ::ₘ all)

/-- The directory could not grow; the splits that were made keep the entries. -/
structure Refused (blake2b : Bytes → Bytes) (h : ExtendibleHash) (all : Multiset Entry)
    (encoded : Bytes) (splits : Nat) (e : PyError) (h' : ExtendibleHash) : Prop where
  error : e = directoryError
  grown : ∃ n ≤ splits, Grown n h h'
  full : ¬ HasRoom blake2b h all encoded
  table : ∃ B' slot' tail', Table blake2b h' B' slot' tail' all

/-- How an insert raises: the directory cannot grow, or a field is out of range. -/
def InsertError (blake2b : Bytes → Bytes) (h : ExtendibleHash) (all : Multiset Entry)
    (encoded : Bytes) (rid : RID) (splits : Nat) (e : PyError) (h' : ExtendibleHash) : Prop :=
  Refused blake2b h all encoded splits e h' ∨
    IsStructError e ∧ ¬ (Roomy h (bytesWith all encoded) (splits + 1) ∧ RidFits rid)

theorem wp_insertLoop : ∀ {rounds splits : Nat} {h : ExtendibleHash} {B : Int → Option Bucket}
    {slot : Nat → Int} {tail : Int → List Int}, Table blake2b h B slot tail all →
    (encoded.length : Int) ≤ maxKeySize h.pageSize → splits < rounds →
    h.maxDepth ≤ depthAt B (slot (slotOf blake2b h encoded)) + splits →
    wp (insertLoop blake2b encoded rid rounds)
      (fun _ h' => Inserted blake2b h all encoded rid splits h')
      (fun e h' => InsertError blake2b h all encoded rid splits e h') h := by
  intro rounds
  induction rounds with
  | zero =>
      intro splits h B slot tail _ _ hrounds
      exact absurd hrounds (Nat.not_lt_zero _)
  | succ rounds ih =>
      intro splits h B slot tail ht hkey hrounds hsplits
      have hs := slotOf_lt blake2b h encoded
      obtain ⟨b, hb⟩ := ht.bucket hs
      have hdepth := depthAt_of_some hb
      have hlocal : b.localDepth ≤ h.globalDepth := by
        have hle := ht.sound.depth_le _ hs
        rwa [hdepth] at hle
      have hglobal := ht.globalDepth
      have hself : slot (slotOf blake2b h encoded) ∈
          pagesAt tail (slot (slotOf blake2b h encoded)) := List.mem_cons_self
      have hpin : wp (pin (slot (slotOf blake2b h encoded)) (addToBucket encoded rid))
          (fun answer h₁ => ∃ b', (answer.2 = b.localDepth ∧
            (answer.1 = false ∧ b' = b ∧ h.pageSize < freeOffset b.entries + entrySize encoded ∨
              answer.1 = true ∧ b' = { b with entries := b.entries ++ [(encoded, rid)] } ∧
                freeOffset b.entries + entrySize encoded ≤ h.pageSize)) ∧ Same h h₁ ∧
            Layout h₁ (Function.update B (slot (slotOf blake2b h encoded)) (some b')) slot)
          (fun e _ => IsStructError e ∧ ¬ (Short h.pageSize (freeOffset b.entries +
            entrySize encoded) ∧ RidFits rid)) h := by
        refine ht.layout.wp_pin_bucket hb ?_
        intro frame hframe hholds
        rw [← hframe]
        exact wp_add_to_bucket hholds encoded rid
      have hmask : hashEncoded blake2b encoded &&& h.directoryMask = slotOf blake2b h encoded :=
        and_directory_mask h _
      simp only [insertLoop, wp_bind, wp_get, hmask]
      refine wp_of_ok (ht.slot_ok hs) ?_
      refine wp_mono hpin ?_
        (fun e _ hE => Or.inr ⟨hE.1, fun hfits =>
          hE.2 ⟨hfits.1.short.mono (ht.free_offset_le hself hb), hfits.2⟩⟩)
      rintro ⟨added, localDepth⟩ h₁ ⟨b', ⟨rfl, hadded⟩, hsame₁, hlayout₁⟩
      rcases hadded with ⟨rfl, hb', hfull⟩ | ⟨rfl, rfl, hroom⟩
      rotate_left
      · -- the page has room for the entry
        refine ⟨⟨0, Nat.zero_le _, Grown.of_same hsame₁⟩, ?_, _, slot, tail,
          ht.added hself hb hsame₁ hlayout₁⟩
        intro depth hle hlt hcrowded
        have hcrowded' := (ht.crowded_iff hb (by omega)).mp (hcrowded.of_le (hlocal.trans hle))
        exact absurd hroom (not_le.mpr hcrowded')
      rw [hb', ← hb, update_eq_self] at hlayout₁
      have ht₁ : Table blake2b h₁ B slot tail all :=
        ht.with_entries hsame₁ hlayout₁ (fun _ => rfl) ht.holds
      have hslot₁ : slotOf blake2b h₁ encoded = slotOf blake2b h encoded := by
        rw [slotOf, hsame₁.globalDepth, slotOf]
      have hgrown₁ : Grown 0 h h₁ := Grown.of_same hsame₁
      have hroomy₁ : ∀ {n bytes}, Roomy h bytes n → Roomy h₁ bytes n := fun hroomy =>
        Roomy.grown (m := 0) (by rwa [Nat.zero_add]) hgrown₁ ht.directory ht₁.directory
      simp only [Bool.false_eq_true, if_false]
      split
      · -- the bucket has maximal depth
        next hmax =>
        have hdepth₁ : h₁.maxDepth ≤ depthAt B (slot (slotOf blake2b h₁ encoded)) := by
          rw [hslot₁, hdepth, hsame₁.maxDepth]
          exact hmax
        have hkey₁ : (encoded.length : Int) ≤ maxKeySize h₁.pageSize := by
          rw [hsame₁.pageSize]
          exact hkey
        rw [← hslot₁]
        refine wp_mono (ht₁.wp_insert_into_overflow hdepth₁ hkey₁) ?_ ?_
        · rintro _ h' ⟨⟨n, hn, hgrown⟩, B', tail', ht'⟩
          refine ⟨⟨0 + n, by omega, hgrown₁.trans hgrown⟩, ?_, B', slot, tail', ht'⟩
          intro depth hle hlt _
          omega
        · rintro e _ ⟨hstruct, hnot⟩
          refine Or.inr ⟨hstruct, fun hfits => hnot ⟨hroomy₁ (hfits.1.mono ?_), hfits.2⟩⟩
          omega
      · next hsmall =>
        have hmax : b.localDepth < h₁.maxDepth := by
          rw [hsame₁.maxDepth]
          omega
        have hs₁ : slotOf blake2b h encoded < 2 ^ h₁.globalDepth := by
          rw [hsame₁.globalDepth]
          exact hs
        have hcrowded : Crowded blake2b h.pageSize all encoded b.localDepth :=
          (ht.crowded_iff hb (by omega)).mpr hfull
        have hfits₁ : ∀ {depth}, Fits h₁ depth ↔ Fits h depth := by
          intro depth
          rw [Fits, Fits, slotsPerPage, slotsPerPage, hsame₁.pageSize]
        rw [hdepth] at hsplits
        refine wp_bind.mpr (wp_mono (ht₁.wp_split_bucket hs₁ hb hmax) ?_ ?_)
        · rintro _ h₂ ⟨hgrown₂, hglobal₂, hdoubled, B₂, slot₂, tail₂, ht₂, hdepth₂⟩
          have hgrown : Grown 1 h h₂ := by simpa using hgrown₁.trans hgrown₂
          rw [hsame₁.globalDepth] at hglobal₂ hdoubled
          have hbits : slotOf blake2b h₂ encoded % 2 ^ b.localDepth =
              slotOf blake2b h encoded % 2 ^ b.localDepth := by
            rw [slotOf, slotOf, Directory.mod_mod_pow (by omega), Directory.mod_mod_pow hlocal]
          have hnext := hdepth₂ _ (slotOf_lt blake2b h₂ encoded) hbits
          obtain ⟨splits, rfl⟩ : ∃ n, splits = n + 1 := ⟨splits - 1, by omega⟩
          have hloop := @ih splits h₂ B₂ slot₂ tail₂ ht₂
            (by rw [hgrown.pageSize]; exact hkey) (by omega)
            (by rw [hnext, hgrown.maxDepth]; omega)
          have hroom : (b.localDepth = h.globalDepth → Fits h b.localDepth) →
              (HasRoom blake2b h₂ all encoded ↔ HasRoom blake2b h all encoded) := by
            intro hdoubled'
            have hfits₂ : ∀ {depth}, Fits h₂ depth ↔ Fits h depth := by
              intro depth
              rw [Fits, Fits, slotsPerPage, slotsPerPage, hgrown.pageSize]
            unfold HasRoom
            rw [hgrown.maxDepth, hgrown.pageSize, hglobal₂]
            constructor
            · intro hhas depth hle hlt hcr
              by_cases heq : depth = b.localDepth
              · rw [heq]
                exact hdoubled' (by omega)
              · exact hfits₂.mp (hhas depth (by omega) hlt hcr)
            · intro hhas depth hle hlt hcr
              exact hfits₂.mpr (hhas depth (by omega) hlt hcr)
          have hroom := hroom (fun heq => hfits₁.mp (hdoubled heq))
          refine wp_mono hloop ?_ ?_
          · rintro _ h' ⟨⟨n, hn, hgrown'⟩, hhas, htable⟩
            exact ⟨⟨1 + n, by omega, hgrown.trans hgrown'⟩, hroom.mp hhas, htable⟩
          · rintro e _ (⟨rfl, ⟨n, hn, hgrown'⟩, hnot, htable⟩ | ⟨hstruct, hnot⟩)
            · exact Or.inl ⟨rfl, ⟨1 + n, by omega, hgrown.trans hgrown'⟩,
                fun hhas => hnot (hroom.mpr hhas), htable⟩
            · refine Or.inr ⟨hstruct, fun hfits => hnot ⟨?_, hfits.2⟩⟩
              refine Roomy.grown (m := 1) ?_ hgrown ht.directory ht₂.directory
              exact hfits.1.mono (by omega)
        · rintro e _ (⟨rfl, rfl, heq, hnot⟩ | ⟨hstruct, hnot⟩)
          · refine Or.inl ⟨rfl, ⟨0, Nat.zero_le _, hgrown₁⟩, fun hhas => hnot (hfits₁.mpr ?_),
              B, slot, tail, ht₁⟩
            rw [hsame₁.globalDepth] at heq
            exact hhas _ (by omega) (by omega) hcrowded
          · refine Or.inr ⟨hstruct, fun hfits => hnot ?_⟩
            have hbytes := hcrowded.lt_bytes
            have hroomy := hroomy₁ (hfits.1.mono (Nat.le_add_left 1 splits))
            rw [← hsame₁.pageSize] at hbytes
            exact ⟨hroomy.short.mono hbytes, fun _ => hroomy.pageIds hbytes⟩

theorem wp_insert {key : Value} (ht : Table blake2b h B slot tail all)
    (hkey : encodeKey key = .ok encoded)
    (hsize : (encoded.length : Int) ≤ maxKeySize h.pageSize) :
    wp (insert blake2b key rid)
      (fun _ h' => Inserted blake2b h all encoded rid h.maxDepth h')
      (fun e h' => InsertError blake2b h all encoded rid h.maxDepth e h') h := by
  simp only [insert, wp_bind, hkey, wp_lift_ok, wp_get]
  rw [if_neg (not_lt.mpr hsize)]
  exact ht.wp_insertLoop hsize (Nat.lt_succ_self _) (Nat.le_add_left _ _)

end Table
end SoupDB.ExtendibleHash
