import SoupDB.Storage.BufferManager

/-!
# SoupDB: the buffer pool is transparent

`System` is a pool with its clients: the pins that are held, each with whether it was used
to write, and the pages as a plain `DiskManager` would have them, to which every write
goes at once.  `Respects` is the protocol of the clients.

`PoolInv` relates the pool to the plain pages; every step that respects the protocol keeps
it.  `transparent` draws from it, for every run, that what a pin shows is the plain page,
that a pinned page stays in the pool and the pool within its capacity, that a pin that
raises changes nothing, and what the file holds after `flushAll`.
-/

namespace SoupDB.BufferManager

open Effect OrderedDict DiskManager

/-! ## Clients -/

/-- A pool and its clients.  `pins page_id wrote` is the number of pins held on a page by
clients that have, or have not, written to it since they pinned it. -/
structure System where
  pool : BufferManager
  pins : Int → Bool → Nat
  uncached : DiskManager

/-- What a client does. -/
inductive Action
  | pin (pageId : Int)
  /-- A client that has (`wrote`) or has not written to the page since it pinned it writes. -/
  | write (pageId : Int) (wrote : Bool) (data : Bytes)
  | unpin (pageId : Int) (wrote dirty : Bool)
  | flushPage (pageId : Int)
  | flushAll

/-- The protocol: a client writes to a page it has pinned, without changing its length, and
reports the page dirty when it unpins it after a write. -/
def Respects (s : System) : Action → Prop
  | .pin _ => True
  | .write pageId wrote data =>
      0 < s.pins pageId wrote ∧ data.length = s.pool.diskManager.pageSize
  | .unpin pageId wrote dirty => 0 < s.pins pageId wrote ∧ (wrote = true → dirty = true)
  | .flushPage _ => True
  | .flushAll => True

instance : ∀ (s : System) (a : Action), Decidable (Respects s a)
  | _, .pin _ => inferInstanceAs (Decidable True)
  | _, .write .. => inferInstanceAs (Decidable (_ ∧ _))
  | _, .unpin .. => inferInstanceAs (Decidable (_ ∧ (_ → _)))
  | _, .flushPage _ => inferInstanceAs (Decidable True)
  | _, .flushAll => inferInstanceAs (Decidable True)

/-- One pin more or less of a kind. -/
def withPins (s : System) (pageId : Int) (wrote : Bool) (count : Nat) : Int → Bool → Nat :=
  Function.update s.pins pageId (Function.update (s.pins pageId) wrote count)

/-- A write to the plain pages. -/
def writeThrough (uncached : DiskManager) (pageId : Int) (data : Bytes) : DiskManager :=
  match uncached.writePage pageId data with
  | .ok uncached => uncached
  | .error _ => uncached

def step (s : System) : Action → System
  | .pin pageId =>
      match pin pageId s.pool with
      | (.ok _, pool) =>
          { s with pool, pins := withPins s pageId false (s.pins pageId false + 1) }
      | (.error _, pool) => { s with pool }
  | .write pageId wrote data =>
      { pool := write pageId data s.pool
        pins := Function.update s.pins pageId
          (fun w => if w then s.pins pageId true + (if wrote then 0 else 1)
            else s.pins pageId false - (if wrote then 0 else 1))
        uncached := writeThrough s.uncached pageId data }
  | .unpin pageId wrote dirty =>
      { s with
        pool := (unpin pageId dirty s.pool).2
        pins := withPins s pageId wrote (s.pins pageId wrote - 1) }
  | .flushPage pageId => { s with pool := (flushPage pageId s.pool).2 }
  | .flushAll => { s with pool := (flushAll s.pool).2 }

/-- An empty pool in front of a file, and no client. -/
def start (file : DatabaseFile) (capacity : Nat) : System where
  pool := ⟨file, capacity, .empty, ∅, []⟩
  pins := fun _ _ => 0
  uncached := file.contents

/-! ## The invariant -/

/-- A page is in the pool. -/
def Resident (b : BufferManager) (pageId : Int) : Prop := (b.frames.get? pageId).isSome = true

/-- What a pool holds, compared with the plain pages, where `written` are the pages that a
pinned client has written to. -/
structure Holds (b : BufferManager) (uncached : DiskManager) (written : Int → Prop) : Prop where
  pageSize : uncached.pageSize = b.diskManager.pageSize
  pageCount : uncached.pageCount = b.diskManager.contents.pageCount
  frames : ∀ p data, b.frames.get? p = some data → uncached.readPage p = .ok data
  full : ∀ p data, uncached.readPage p = .ok data → data.length = uncached.pageSize
  /-- A page of the file that is not the plain page is one that will be written back. -/
  file : ∀ p, b.diskManager.readPage p = uncached.readPage p ∨
    Resident b p ∧ (p ∈ b.dirty ∨ written p)
  dirty : ∀ p ∈ b.dirty, Resident b p
  size : b.frames.size ≤ b.capacity
  capacity : 0 < b.capacity

/-- The pool and its clients. -/
structure PoolInv (capacity : Nat) (s : System) : Prop where
  capacity : s.pool.capacity = capacity
  holds : Holds s.pool s.uncached (fun p => 0 < s.pins p true)
  counts : ∀ p, s.pool.pinCount p = s.pins p false + s.pins p true
  pinned : ∀ p, 0 < s.pool.pinCount p → Resident s.pool p

namespace Holds

variable {b b' : BufferManager} {uncached : DiskManager} {written : Int → Prop} {p q : Int}
  {data : Bytes}

theorem valid (h : Holds b uncached written) (hp : Resident b p) :
    b.diskManager.contents.validPageId p := by
  obtain ⟨data, hdata⟩ := Option.isSome_iff_exists.mp hp
  have hvalid := validPageId_of_read_page (h.frames p data hdata)
  rw [validPageId, h.pageCount] at hvalid
  exact hvalid

end Holds

/-! ## Flushing -/

/-- What a flush leaves: the frames and the pins, and the pages that are not dirty any more
are in the file as they are in the pool. -/
structure Flushed (b : BufferManager) (uncached : DiskManager) (b' : BufferManager) : Prop where
  capacity : b'.capacity = b.capacity
  frames : b'.frames = b.frames
  pinCounts : b'.pinCounts = b.pinCounts
  dirty : ∀ p ∈ b'.dirty, p ∈ b.dirty
  pageSize : b'.diskManager.pageSize = b.diskManager.pageSize
  pageCount : b'.diskManager.contents.pageCount = b.diskManager.contents.pageCount
  file : ∀ p, b'.diskManager.readPage p = uncached.readPage p ∨
    (b'.diskManager.readPage p = b.diskManager.readPage p ∧ (p ∈ b.dirty → p ∈ b'.dirty))

namespace Flushed

variable {b b' b'' : BufferManager} {uncached : DiskManager} {written : Int → Prop}

theorem refl (b : BufferManager) (uncached : DiskManager) : Flushed b uncached b :=
  ⟨rfl, rfl, rfl, fun _ hp => hp, rfl, rfl, fun _ => Or.inr ⟨rfl, fun hp => hp⟩⟩

variable (h : Flushed b uncached b')
include h

theorem trans (h' : Flushed b' uncached b'') : Flushed b uncached b'' := by
  refine ⟨h'.capacity.trans h.capacity, h'.frames.trans h.frames,
    h'.pinCounts.trans h.pinCounts, fun p hp => h.dirty p (h'.dirty p hp),
    h'.pageSize.trans h.pageSize, h'.pageCount.trans h.pageCount, ?_⟩
  intro p
  rcases h'.file p with hfile | ⟨hsame, hdirty⟩
  · exact Or.inl hfile
  · rcases h.file p with hfile | ⟨hsame', hdirty'⟩
    · exact Or.inl (hsame.trans hfile)
    · exact Or.inr ⟨hsame.trans hsame', fun hp => hdirty (hdirty' hp)⟩

theorem resident (p : Int) : Resident b' p ↔ Resident b p := by
  rw [Resident, Resident, h.frames]

theorem pinCount (p : Int) : b'.pinCount p = b.pinCount p := by
  rw [BufferManager.pinCount, BufferManager.pinCount, h.pinCounts]

/-- A flush keeps the invariant. -/
theorem holds (hb : Holds b uncached written) : Holds b' uncached written := by
  constructor
  · rw [h.pageSize]
    exact hb.pageSize
  · rw [h.pageCount]
    exact hb.pageCount
  · rw [h.frames]
    exact hb.frames
  · exact hb.full
  · intro p
    rcases h.file p with hfile | ⟨hsame, hdirty⟩
    · exact Or.inl hfile
    · rw [hsame, h.resident]
      rcases hb.file p with hfile | ⟨hresident, hpending⟩
      · exact Or.inl hfile
      · exact Or.inr ⟨hresident, hpending.imp_left hdirty⟩
  · intro p hp
    exact (h.resident p).mpr (hb.dirty p (h.dirty p hp))
  · rw [h.frames, h.capacity]
    exact hb.size
  · rw [h.capacity]
    exact hb.capacity

end Flushed

variable {uncached : DiskManager} {written : Int → Prop}

theorem flush_page_spec {b : BufferManager} (h : Holds b uncached written) (p : Int) :
    wp (flushPage p) (fun _ b' => Flushed b uncached b' ∧ p ∉ b'.dirty) (fun _ _ => False) b := by
  by_cases hp : p ∈ b.dirty
  · obtain ⟨data, hdata⟩ := Option.isSome_iff_exists.mp (h.dirty p hp)
    have hread := h.frames p data hdata
    have hlength : data.length = b.diskManager.pageSize :=
      (h.full p data hread).trans h.pageSize
    obtain ⟨file', hwrite, hcontents⟩ :=
      DatabaseFile.write_page_of_valid (h.valid (h.dirty p hp)) hlength
    have hrun : flushPage p b = (.ok (),
        { b with diskManager := file', dirty := b.dirty.filter (fun q => q ≠ p) }) := by
      simp only [flushPage, if_pos hp, frame, hdata, hwrite]
    refine wp_of_ok hrun ⟨⟨rfl, rfl, rfl, ?_, ?_, ?_, ?_⟩, by simp⟩
    · intro q hq
      exact List.mem_of_mem_filter hq
    · exact page_size_write_page hcontents
    · exact page_count_write_page hcontents
    · intro q
      have hq := read_page_write_page hcontents q
      by_cases hqp : q = p
      · rw [if_pos hqp] at hq
        left
        rw [hqp] at hq ⊢
        exact hq.trans hread.symm
      · rw [if_neg hqp] at hq
        exact Or.inr ⟨hq, fun hmem => List.mem_filter.mpr ⟨hmem, by simpa using hqp⟩⟩
  · have hrun : flushPage p b = (.ok (), b) := by
      simp only [flushPage, if_neg hp]
    exact wp_of_ok hrun ⟨Flushed.refl b uncached, hp⟩

theorem flush_pages_spec {uncached : DiskManager} {written : Int → Prop} :
    ∀ {ps : List Int} {b : BufferManager}, Holds b uncached written →
      wp (forEach flushPage ps)
        (fun _ b' => Flushed b uncached b' ∧ ∀ p ∈ ps, p ∉ b'.dirty) (fun _ _ => False) b
  | [], b, _ => ⟨Flushed.refl b uncached, by simp⟩
  | p :: ps, b, h => by
      rw [forEach, wp_bind]
      refine wp_mono (flush_page_spec h p) ?_ (fun _ _ hE => hE)
      rintro _ b' ⟨hflushed, hp⟩
      refine wp_mono (@flush_pages_spec _ _ ps _ (hflushed.holds h)) ?_ (fun _ _ hE => hE)
      rintro _ b'' ⟨hflushed', hps⟩
      refine ⟨hflushed.trans hflushed', ?_⟩
      intro q hq
      rcases List.mem_cons.mp hq with rfl | hq
      · exact fun hmem => hp (hflushed'.dirty q hmem)
      · exact hps q hq

theorem flush_all_spec {b : BufferManager} (h : Holds b uncached written) :
    wp flushAll (fun _ b' => Flushed b uncached b' ∧ b'.dirty = []) (fun _ _ => False) b := by
  refine wp_mono (@flush_pages_spec _ _ b.dirty _ h) ?_ (fun _ _ hE => hE)
  rintro _ b' ⟨hflushed, hclean⟩
  refine ⟨hflushed, List.eq_nil_iff_forall_not_mem.mpr ?_⟩
  intro p hp
  exact hclean p (hflushed.dirty p hp) hp

/-! ## Pinning -/

section Pin

variable {b : BufferManager} {uncached : DiskManager} {written : Int → Prop} {p : Int}

/-- What pinning a page leaves of the other pages: pinned pages stay in the pool. -/
structure KeepsPinned (b b' : BufferManager) : Prop where
  capacity : b'.capacity = b.capacity
  pinCounts : b'.pinCounts = b.pinCounts
  resident : ∀ q, 0 < b.pinCount q → Resident b q → Resident b' q

/-- The frame of a page that nobody has pinned can be dropped after a flush. -/
theorem evict_spec {v : Int} (h : Holds b uncached written) (hv : Resident b v)
    (hfree : b.pinCount v = 0) (hclean : ¬ written v) :
    wp (evict (some v))
      (fun _ b' => Holds b' uncached written ∧ KeepsPinned b b' ∧
        b'.frames = b.frames.erase v) (fun _ _ => False) b := by
  rw [evict, wp_bind]
  refine wp_mono (flush_page_spec h v) ?_ (fun _ _ hE => hE)
  rintro _ b' ⟨hflushed, hdirty⟩
  have hb' := hflushed.holds h
  have hget : ∀ q, (b'.frames.erase v).get? q = if q = v then none else b.frames.get? q := by
    intro q
    rw [hflushed.frames, get?_erase]
  rw [wp_modify]
  refine ⟨⟨hb'.pageSize, hb'.pageCount, ?_, hb'.full, ?_, ?_, ?_, hb'.capacity⟩,
    ⟨hflushed.capacity, hflushed.pinCounts, ?_⟩, by rw [hflushed.frames]⟩
  · intro q data hq
    rw [hget] at hq
    split at hq
    · cases hq
    · exact h.frames q data hq
  · intro q
    rcases hb'.file q with hfile | ⟨hresident, hpending⟩
    · exact Or.inl hfile
    · by_cases hqv : q = v
      · rw [hqv] at hpending
        rcases hpending with hmem | hwritten
        · exact absurd hmem hdirty
        · exact absurd hwritten hclean
      · refine Or.inr ⟨?_, hpending⟩
        rw [Resident, hget, if_neg hqv]
        exact (hflushed.resident q).mp hresident
  · intro q hq
    have hqv : q ≠ v := by
      rintro rfl
      exact hdirty hq
    rw [Resident, hget, if_neg hqv]
    exact (hflushed.resident q).mp (hb'.dirty q hq)
  · have hsize := size_erase (hflushed.frames ▸ hv : (b'.frames.get? v).isSome = true)
    have hle := hb'.size
    change (b'.frames.erase v).size ≤ b'.capacity
    omega
  · intro q hpinned hq
    have hqv : q ≠ v := by
      rintro rfl
      omega
    rw [Resident, hget, if_neg hqv]
    exact hq

/-- The victim is a page in the pool that nobody has pinned. -/
theorem select_victim_ok {v : Int} (h : b.selectVictim = .ok v) :
    Resident b v ∧ b.pinCount v = 0 := by
  rw [selectVictim] at h
  split at h
  · next candidate hfind =>
      obtain rfl := Except.ok.inj h
      refine ⟨get?_isSome.mpr (List.mem_of_find?_eq_some hfind), ?_⟩
      simpa using List.find?_some hfind
  · cases h

theorem Holds.load {data : Bytes} (h : Holds b uncached written) (hp : ¬ Resident b p)
    (hroom : b.frames.size < b.capacity) (hread : uncached.readPage p = .ok data) :
    Holds { b with frames := b.frames.set p data } uncached written := by
  have hget : ∀ q, (b.frames.set p data).get? q =
      if q = p then some data else b.frames.get? q := fun q => get?_set _ _ _ _
  have hgrows : ∀ q, Resident b q → Resident { b with frames := b.frames.set p data } q := by
    intro q hq
    rw [Resident, hget]
    by_cases hqp : q = p
    · rw [if_pos hqp]
      rfl
    · rw [if_neg hqp]
      exact hq
  refine ⟨h.pageSize, h.pageCount, ?_, h.full, ?_, ?_, ?_, h.capacity⟩
  · intro q data' hq
    rw [hget] at hq
    split at hq
    · next hqp =>
        rw [hqp, ← Option.some.inj hq]
        exact hread
    · exact h.frames q data' hq
  · intro q
    exact (h.file q).imp_right (fun hpending => ⟨hgrows q hpending.1, hpending.2⟩)
  · intro q hq
    exact hgrows q (h.dirty q hq)
  · change (b.frames.set p data).size ≤ b.capacity
    have hnone : (b.frames.get? p).isSome = false := by
      rw [Resident] at hp
      simpa using hp
    rw [size_set, hnone, if_neg (by simp)]
    omega

/-- Loading a page either fails before anything changed or puts the page in the pool. -/
theorem load_spec (h : Holds b uncached written) (hp : ¬ Resident b p)
    (hwritten : ∀ q, written q → 0 < b.pinCount q) :
    wp (load p)
      (fun _ b' => Holds b' uncached written ∧ KeepsPinned b b' ∧ Resident b' p)
      (fun _ b' => b' = b) b := by
  have hsame : b.diskManager.readPage p = uncached.readPage p :=
    (h.file p).resolve_right (fun hpending => hp hpending.1)
  have hloaded : ∀ (b' : BufferManager) (data : Bytes), KeepsPinned b b' →
      KeepsPinned b { b' with frames := b'.frames.set p data } ∧
        Resident { b' with frames := b'.frames.set p data } p := by
    intro b' data hkeeps
    have hget : ∀ q, (b'.frames.set p data).get? q =
        if q = p then some data else b'.frames.get? q := fun q => get?_set _ _ _ _
    refine ⟨⟨hkeeps.capacity, hkeeps.pinCounts, ?_⟩, ?_⟩
    · intro q hpinned hq
      rw [Resident, hget]
      by_cases hqp : q = p
      · rw [if_pos hqp]
        rfl
      · rw [if_neg hqp]
        exact hkeeps.resident q hpinned hq
    · rw [Resident, hget, if_pos rfl]
      rfl
  rw [BufferManager.load]
  simp only [wp_bind, wp_get]
  by_cases hfull : b.frames.size ≥ b.capacity
  · rw [if_pos hfull]
    cases hvictim : b.selectVictim with
    | error e => simp only [Except.map, wp_bind, wp_lift_error]
    | ok v =>
        obtain ⟨hv, hfree⟩ := select_victim_ok hvictim
        simp only [Except.map, wp_bind, wp_lift_ok]
        cases hread : b.diskManager.readPage p with
        | error e => rw [wp_lift_error]
        | ok data =>
            rw [wp_lift_ok]
            have hclean : ¬ written v := fun hw => absurd (hwritten v hw) (by omega)
            refine wp_mono (evict_spec h hv hfree hclean) ?_ (fun _ _ hE => hE.elim)
            rintro _ b' ⟨hb', hkeeps, hframes⟩
            have hp' : ¬ Resident b' p := by
              rw [Resident, hframes, get?_erase]
              by_cases hpv : p = v
              · rw [if_pos hpv]
                simp
              · rw [if_neg hpv]
                exact hp
            have hroom : b'.frames.size < b'.capacity := by
              have hsize := size_erase hv
              have hle := h.size
              rw [hframes, hkeeps.capacity]
              omega
            exact ⟨hb'.load hp' hroom (hsame.symm.trans hread), hloaded b' data hkeeps⟩
  · rw [if_neg hfull]
    simp only [wp_bind, wp_pure]
    cases hread : b.diskManager.readPage p with
    | error e => rw [wp_lift_error]
    | ok data =>
        rw [wp_lift_ok, evict, wp_pure, wp_modify]
        exact ⟨h.load hp (by omega) (hsame.symm.trans hread),
          hloaded b data ⟨rfl, rfl, fun _ _ hq => hq⟩⟩

/-- A hit makes the page the most recently used one. -/
theorem Holds.moveToEnd (h : Holds b uncached written) (p : Int) :
    Holds { b with frames := b.frames.moveToEnd p } uncached written := by
  have hget : ∀ q, (b.frames.moveToEnd p).get? q = b.frames.get? q := fun q =>
    get?_move_to_end _ _ _
  refine ⟨h.pageSize, h.pageCount, ?_, h.full, ?_, ?_, ?_, h.capacity⟩
  · intro q data hq
    rw [hget] at hq
    exact h.frames q data hq
  · intro q
    rw [Resident, hget]
    exact h.file q
  · intro q hq
    rw [Resident, hget]
    exact h.dirty q hq
  · change (b.frames.moveToEnd p).size ≤ b.capacity
    rw [size_move_to_end]
    exact h.size

theorem pin_count_insert (b : BufferManager) (counts : Dict Int Nat) (q : Int) (n : Nat) :
    pinCount { b with pinCounts := counts.insert p n } q =
      if q = p then n else (counts.lookup q).getD 0 := by
  rw [pinCount, Dict.lookup_insert_eq]
  by_cases hqp : q = p
  · rw [if_pos hqp, if_pos hqp]
    rfl
  · rw [if_neg hqp, if_neg hqp]

/-- A pin either fails and changes nothing, or shows the plain page. -/
theorem pin_spec (h : Holds b uncached written) (hwritten : ∀ q, written q → 0 < b.pinCount q) :
    wp (pin p)
      (fun data b' => uncached.readPage p = .ok data ∧ Holds b' uncached written ∧
        b'.capacity = b.capacity ∧
        (∀ q, b'.pinCount q = if q = p then b.pinCount p + 1 else b.pinCount q) ∧
        (∀ q, 0 < b.pinCount q → Resident b q → Resident b' q) ∧ Resident b' p)
      (fun _ b' => b' = b) b := by
  -- what remains once the page is in the pool
  have hpinned : ∀ b' : BufferManager, Holds b' uncached written → KeepsPinned b b' →
      Resident b' p →
      wp (do
          modify (fun b => { b with
            pinCounts := b.pinCounts.insert p (b.pinCount p + 1) })
          let b ← Effect.get
          Effect.lift (b.frame p))
        (fun data b' => uncached.readPage p = .ok data ∧ Holds b' uncached written ∧
          b'.capacity = b.capacity ∧
          (∀ q, b'.pinCount q = if q = p then b.pinCount p + 1 else b.pinCount q) ∧
          (∀ q, 0 < b.pinCount q → Resident b q → Resident b' q) ∧ Resident b' p)
        (fun _ b' => b' = b) b' := by
    intro b' hb' hkeeps hresident
    obtain ⟨data, hdata⟩ := Option.isSome_iff_exists.mp hresident
    simp only [wp_bind, wp_modify, wp_get, frame, hdata, wp_lift_ok]
    refine ⟨hb'.frames p data hdata, ⟨hb'.pageSize, hb'.pageCount, hb'.frames, hb'.full,
      hb'.file, hb'.dirty, hb'.size, hb'.capacity⟩, hkeeps.capacity, ?_, hkeeps.resident,
      hresident⟩
    intro q
    rw [pin_count_insert, pinCount, pinCount, pinCount, hkeeps.pinCounts]
  rw [BufferManager.pin]
  simp only [wp_bind, wp_get]
  cases hhit : b.frames.contains p with
  | true =>
      rw [if_pos rfl, wp_bind, wp_modify]
      refine hpinned _ (h.moveToEnd p) ⟨rfl, rfl, ?_⟩ ?_
      · intro q _ hq
        rw [Resident, get?_move_to_end]
        exact hq
      · rw [Resident, get?_move_to_end]
        exact hhit
  | false =>
      have hmiss : ¬ Resident b p := by
        rw [Resident]
        rw [contains] at hhit
        simp [hhit]
      rw [if_neg (by simp), wp_bind]
      refine wp_mono (load_spec h hmiss hwritten) ?_ (fun _ _ hE => hE)
      rintro _ b' ⟨hb', hkeeps, hresident⟩
      exact hpinned b' hb' hkeeps hresident

end Pin

/-! ## Every step keeps the invariant -/

namespace PoolInv

variable {s : System} {capacity : Nat}

theorem start (file : DatabaseFile) (hcapacity : 0 < capacity) :
    PoolInv capacity (start file capacity) := by
  refine ⟨rfl, ⟨rfl, rfl, ?_, ?_, ?_, ?_, Nat.zero_le _, hcapacity⟩, fun _ => rfl, ?_⟩
  · intro p data hp
    cases hp
  · intro p data hp
    exact file.length_read_page hp
  · intro p
    exact Or.inl rfl
  · intro p hp
    cases hp
  · intro p hp
    cases hp

variable {p : Int} {wrote : Bool}

section

variable (h : PoolInv capacity s)
include h

theorem pinned_of_written (hp : 0 < s.pins p true) : 0 < s.pool.pinCount p := by
  rw [h.counts]
  omega

theorem pinned_of_pin (hp : 0 < s.pins p wrote) : 0 < s.pool.pinCount p := by
  rw [h.counts]
  cases wrote with
  | true => omega
  | false => omega

theorem pin_step (p : Int) : PoolInv capacity (step s (.pin p)) := by
  have hspec := pin_spec (p := p) h.holds (fun q hq => h.pinned_of_written hq)
  rcases hrun : pin p s.pool with ⟨e | data, pool⟩
  · obtain rfl := wp_error hspec hrun
    simp only [step, hrun]
    exact h
  · obtain ⟨_, hholds, hcapacity, hcounts, hkept, hresident⟩ := wp_ok hspec hrun
    have hpins : ∀ q, withPins s p false (s.pins p false + 1) q true = s.pins q true := by
      intro q
      by_cases hqp : q = p
      · rw [hqp]
        simp [withPins]
      · simp [withPins, hqp]
    simp only [step, hrun]
    refine ⟨hcapacity.trans h.capacity, ?_, ?_, ?_⟩
    · simp only [hpins]
      exact hholds
    · intro q
      dsimp only
      rw [hcounts, hpins]
      by_cases hqp : q = p
      · rw [if_pos hqp, hqp, h.counts]
        simp [withPins]
        omega
      · rw [if_neg hqp, h.counts]
        simp [withPins, hqp]
    · intro q hq
      by_cases hqp : q = p
      · rw [hqp]
        exact hresident
      · rw [hcounts, if_neg hqp] at hq
        exact hkept q hq (h.pinned q hq)

theorem write_step {data : Bytes} (hpin : 0 < s.pins p wrote)
    (hlength : data.length = s.pool.diskManager.pageSize) :
    PoolInv capacity (step s (.write p wrote data)) := by
  have hresident := h.pinned p (h.pinned_of_pin hpin)
  have hvalid : s.uncached.validPageId p := by
    rw [validPageId, h.holds.pageCount]
    exact h.holds.valid hresident
  have hwrite := write_page_of_valid hvalid data
  have hread := read_page_write_page hwrite
  have hget : ∀ q, (s.pool.frames.set p data).get? q =
      if q = p then some data else s.pool.frames.get? q := fun q => get?_set _ _ _ _
  have hgrows : ∀ q, Resident s.pool q → Resident (write p data s.pool) q := by
    intro q hq
    rw [Resident, write, hget]
    by_cases hqp : q = p
    · rw [if_pos hqp]
      rfl
    · rw [if_neg hqp]
      exact hq
  simp only [step, writeThrough, hwrite]
  refine ⟨h.capacity, ⟨?_, ?_, ?_, ?_, ?_, ?_, ?_, h.holds.capacity⟩, ?_, ?_⟩
  · rw [page_size_write_page hwrite]
    exact h.holds.pageSize
  · rw [page_count_write_page hwrite]
    exact h.holds.pageCount
  · intro q data' hq
    rw [write, hget] at hq
    rw [hread]
    by_cases hqp : q = p
    · rw [if_pos hqp] at hq ⊢
      rw [Option.some.inj hq]
    · rw [if_neg hqp] at hq ⊢
      exact h.holds.frames q data' hq
  · intro q data' hq
    rw [hread] at hq
    rw [page_size_write_page hwrite]
    by_cases hqp : q = p
    · rw [if_pos hqp, Except.ok.injEq] at hq
      rw [← hq, hlength]
      exact h.holds.pageSize.symm
    · rw [if_neg hqp] at hq
      exact h.holds.full q data' hq
  · intro q
    rw [hread]
    by_cases hqp : q = p
    · refine Or.inr ⟨?_, Or.inr ?_⟩
      · rw [hqp]
        exact hgrows p hresident
      · dsimp only
        rw [hqp, Function.update_self, if_pos rfl]
        cases wrote with
        | true => simpa using hpin
        | false => simp
    · dsimp only
      rw [if_neg hqp, Function.update_of_ne hqp]
      rcases h.holds.file q with hfile | ⟨hq, hpending⟩
      · exact Or.inl hfile
      · exact Or.inr ⟨hgrows q hq, hpending⟩
  · intro q hq
    exact hgrows q (h.holds.dirty q hq)
  · rw [write]
    simp only
    rw [size_set]
    rw [Resident] at hresident
    rw [if_pos hresident]
    exact h.holds.size
  · intro q
    dsimp only
    have hcounts : (write p data s.pool).pinCount q = s.pool.pinCount q := rfl
    rw [hcounts, h.counts]
    by_cases hqp : q = p
    · rw [hqp, Function.update_self]
      cases wrote with
      | true => simp
      | false =>
          simp only [Bool.false_eq_true, if_false, if_true]
          omega
    · rw [Function.update_of_ne hqp]
  · intro q hq
    exact hgrows q (h.pinned q hq)

theorem unpin_step {dirty : Bool} (hpin : 0 < s.pins p wrote)
    (hreport : wrote = true → dirty = true) :
    PoolInv capacity (step s (.unpin p wrote dirty)) := by
  have hpinned := h.pinned_of_pin hpin
  have hresident := h.pinned p hpinned
  have hrun : (unpin p dirty s.pool).2 = { s.pool with
      dirty := if dirty then s.pool.dirty.insert p else s.pool.dirty
      pinCounts :=
        if s.pool.pinCount p = 1 then s.pool.pinCounts.erase p
        else s.pool.pinCounts.insert p (s.pool.pinCount p - 1) } := by
    rw [unpin, if_neg (Nat.pos_iff_ne_zero.mp hpinned)]
  have hcounts : ∀ q, (unpin p dirty s.pool).2.pinCount q =
      if q = p then s.pool.pinCount p - 1 else s.pool.pinCount q := by
    intro q
    rw [hrun, pinCount]
    by_cases hone : s.pool.pinCount p = 1
    · simp only [if_pos hone, Dict.lookup_erase_eq]
      by_cases hqp : q = p
      · rw [if_pos hqp, if_pos hqp, hone]
        rfl
      · rw [if_neg hqp, if_neg hqp, pinCount]
    · simp only [if_neg hone, Dict.lookup_insert_eq]
      by_cases hqp : q = p
      · rw [if_pos hqp, if_pos hqp]
        rfl
      · rw [if_neg hqp, if_neg hqp, pinCount]
  have hdirty : ∀ q, q ∈ (unpin p dirty s.pool).2.dirty ↔
      q ∈ s.pool.dirty ∨ (dirty = true ∧ q = p) := by
    intro q
    rw [hrun]
    cases dirty with
    | true => simp [or_comm]
    | false => simp
  have hpins : ∀ q w, withPins s p wrote (s.pins p wrote - 1) q w =
      if q = p ∧ w = wrote then s.pins p wrote - 1 else s.pins q w := by
    intro q w
    by_cases hqp : q = p
    · by_cases hw : w = wrote
      · rw [hqp, hw]
        simp [withPins]
      · rw [hqp]
        simp [withPins, hw]
    · simp [withPins, hqp]
  have hframes : (unpin p dirty s.pool).2.frames = s.pool.frames := by rw [hrun]
  have hfile : (unpin p dirty s.pool).2.diskManager = s.pool.diskManager := by rw [hrun]
  have hcapacity : (unpin p dirty s.pool).2.capacity = s.pool.capacity := by rw [hrun]
  have hsame : ∀ q, Resident (unpin p dirty s.pool).2 q ↔ Resident s.pool q := by
    intro q
    rw [Resident, Resident, hframes]
  simp only [step]
  refine ⟨hcapacity.trans h.capacity, ⟨?_, ?_, ?_, h.holds.full, ?_, ?_, ?_, ?_⟩, ?_, ?_⟩
  · rw [hfile]
    exact h.holds.pageSize
  · rw [hfile]
    exact h.holds.pageCount
  · rw [hframes]
    exact h.holds.frames
  · intro q
    dsimp only
    rw [hfile, hsame, hdirty, hpins]
    rcases h.holds.file q with hsafe | ⟨hq, hmem | hwritten⟩
    · exact Or.inl hsafe
    · exact Or.inr ⟨hq, Or.inl (Or.inl hmem)⟩
    · by_cases hqp : q = p ∧ true = wrote
      · exact Or.inr ⟨hq, Or.inl (Or.inr ⟨hreport hqp.2.symm, hqp.1⟩)⟩
      · rw [if_neg hqp]
        exact Or.inr ⟨hq, Or.inr hwritten⟩
  · intro q hq
    rw [hsame]
    rcases (hdirty q).mp hq with hmem | ⟨_, rfl⟩
    · exact h.holds.dirty q hmem
    · exact hresident
  · rw [hframes, hcapacity]
    exact h.holds.size
  · rw [hcapacity]
    exact h.holds.capacity
  · intro q
    dsimp only
    rw [hcounts, hpins, hpins]
    by_cases hqp : q = p
    · rw [if_pos hqp, hqp, h.counts]
      cases wrote with
      | true =>
          simp only [true_and, Bool.false_eq_true, if_false, if_true]
          omega
      | false =>
          simp only [true_and, Bool.true_eq_false, if_false, if_true]
          omega
    · simp only [hqp, false_and, if_false]
      exact h.counts q
  · intro q hq
    rw [hsame]
    refine h.pinned q ?_
    rw [hcounts] at hq
    by_cases hqp : q = p
    · rw [hqp]
      exact hpinned
    · rwa [if_neg hqp] at hq

theorem flush_step {b : BufferManager} (hflushed : Flushed s.pool s.uncached b) :
    PoolInv capacity { s with pool := b } := by
  refine ⟨hflushed.capacity.trans h.capacity, hflushed.holds h.holds, ?_, ?_⟩
  · intro p
    rw [hflushed.pinCount]
    exact h.counts p
  · intro p hp
    rw [hflushed.pinCount] at hp
    rw [hflushed.resident]
    exact h.pinned p hp

theorem flush_page_run (p : Int) :
    ∃ b, flushPage p s.pool = (.ok (), b) ∧ Flushed s.pool s.uncached b := by
  have hspec := flush_page_spec h.holds p
  rcases hrun : flushPage p s.pool with ⟨e | _, b⟩
  · exact (wp_error hspec hrun).elim
  · exact ⟨b, rfl, (wp_ok hspec hrun).1⟩

theorem flush_all_run :
    ∃ b, flushAll s.pool = (.ok (), b) ∧ Flushed s.pool s.uncached b ∧ b.dirty = [] := by
  have hspec := flush_all_spec h.holds
  rcases hrun : flushAll s.pool with ⟨e | _, b⟩
  · exact (wp_error hspec hrun).elim
  · obtain ⟨hflushed, hclean⟩ := wp_ok hspec hrun
    exact ⟨b, rfl, hflushed, hclean⟩

end

/-- Every step that respects the protocol keeps the invariant. -/
theorem step (h : PoolInv capacity s) {a : Action} (ha : Respects s a) :
    PoolInv capacity (step s a) := by
  cases a with
  | pin p => exact h.pin_step p
  | write p wrote data => exact h.write_step ha.1 ha.2
  | unpin p wrote dirty => exact h.unpin_step ha.1 ha.2
  | flushPage p =>
      obtain ⟨b, hrun, hflushed⟩ := h.flush_page_run p
      simp only [BufferManager.step, hrun]
      exact h.flush_step hflushed
  | flushAll =>
      obtain ⟨b, hrun, hflushed, _⟩ := h.flush_all_run
      simp only [BufferManager.step, hrun]
      exact h.flush_step hflushed

/-- No step evicts a pinned page. -/
theorem stays (h : PoolInv capacity s) {a : Action} (ha : Respects s a)
    (hp : 0 < s.pool.pinCount p) : Resident (BufferManager.step s a).pool p := by
  have hresident := h.pinned p hp
  cases a with
  | pin q =>
      have hspec := pin_spec (p := q) h.holds (fun q hq => h.pinned_of_written hq)
      rcases hrun : pin q s.pool with ⟨e | data, pool⟩
      · obtain rfl := wp_error hspec hrun
        simp only [BufferManager.step, hrun]
        exact hresident
      · obtain ⟨_, _, _, _, hkept, _⟩ := wp_ok hspec hrun
        simp only [BufferManager.step, hrun]
        exact hkept p hp hresident
  | write q wrote data =>
      simp only [BufferManager.step]
      rw [Resident, write, get?_set]
      by_cases hpq : p = q
      · rw [if_pos hpq]
        rfl
      · rw [if_neg hpq]
        exact hresident
  | unpin q wrote dirty =>
      simp only [BufferManager.step, unpin]
      split
      · exact hresident
      · exact hresident
  | flushPage q =>
      obtain ⟨b, hrun, hflushed⟩ := h.flush_page_run q
      simp only [BufferManager.step, hrun]
      exact (hflushed.resident p).mpr hresident
  | flushAll =>
      obtain ⟨b, hrun, hflushed, _⟩ := h.flush_all_run
      simp only [BufferManager.step, hrun]
      exact (hflushed.resident p).mpr hresident

end PoolInv

/-! ## Transparency -/

/-- What the clients of a pool can rely on. -/
structure Transparent (capacity : Nat) (s : System) : Prop where
  /-- A pin shows the plain page. -/
  seen : ∀ p data pool, pin p s.pool = (.ok data, pool) → s.uncached.readPage p = .ok data
  /-- What a client has pinned is pinned, in the pool and the plain page. -/
  pinned : ∀ p wrote, 0 < s.pins p wrote → s.pool.isPinned p = true ∧
    ∃ data, s.pool.frames.get? p = some data ∧ s.uncached.readPage p = .ok data
  /-- No step evicts a pinned page. -/
  stays : ∀ a p, Respects s a → s.pool.isPinned p = true → Resident (step s a).pool p
  size : s.pool.frames.size ≤ capacity
  /-- A pin that raises changes neither the pool nor the file. -/
  failed : ∀ p e pool, pin p s.pool = (.error e, pool) → pool = s.pool
  /-- A flush of all pages writes every page without a write that is yet to be reported. -/
  flushed : ∃ pool, flushAll s.pool = (.ok (), pool) ∧
    ∀ p, s.pins p true = 0 → pool.diskManager.readPage p = s.uncached.readPage p

theorem PoolInv.transparent_of_inv {s : System} {capacity : Nat} (h : PoolInv capacity s) :
    Transparent capacity s := by
  have hpin := fun p => pin_spec (p := p) h.holds (fun q hq => h.pinned_of_written hq)
  constructor
  · intro p data pool hrun
    exact (wp_ok (hpin p) hrun).1
  · intro p wrote hp
    have hpinned := h.pinned_of_pin hp
    obtain ⟨data, hdata⟩ := Option.isSome_iff_exists.mp (h.pinned p hpinned)
    exact ⟨by simpa [isPinned] using hpinned, data, hdata, h.holds.frames p data hdata⟩
  · intro a p ha hp
    exact h.stays ha (by simpa [isPinned] using hp)
  · rw [← h.capacity]
    exact h.holds.size
  · intro p e pool hrun
    have hsame := wp_error (hpin p) hrun
    exact hsame
  · obtain ⟨b, hrun, hflushed, hclean⟩ := h.flush_all_run
    refine ⟨b, hrun, ?_⟩
    intro p hp
    rcases (hflushed.holds h.holds).file p with hfile | ⟨_, hdirty | hwritten⟩
    · exact hfile
    · rw [hclean] at hdirty
      cases hdirty
    · omega

/-- In every run that respects the protocol the pool is transparent. -/
theorem transparent (file : DatabaseFile) (capacity : Nat) (hcapacity : 1 ≤ capacity)
    (actions : List Action) (hrun : Steps Respects step (start file capacity) actions) :
    Transparent capacity (exec step (start file capacity) actions) :=
  (exec_of_steps (fun _ _ h ha => h.step ha) (PoolInv.start file hcapacity) hrun).transparent_of_inv

def twoPages : DatabaseFile := ⟨1, [[0], [0]], by decide⟩

/-- A page is written, unpinned and evicted by the next pin. -/
def evictRun : List Action :=
  [.pin 0, .write 0 false [7], .unpin 0 true true, .pin 1, .unpin 1 false false, .flushAll]

theorem transparent_evictRun : Transparent 1 (exec step (start twoPages 1) evictRun) :=
  transparent twoPages 1 (by decide) evictRun (by decide +kernel)

/-- A page that is written to and still pinned is not written back. -/
theorem flush_all_misses_pinned :
    Steps Respects step (start twoPages 1) [.pin 0, .write 0 false [7]] ∧
      (flushAll (exec step (start twoPages 1)
        [.pin 0, .write 0 false [7]]).pool).2.diskManager.pages = [[0], [0]] ∧
      (exec step (start twoPages 1) [.pin 0, .write 0 false [7]]).uncached.pages = [[7], [0]] ∧
      ¬ ∀ (file : DatabaseFile) (capacity : Nat) (actions : List Action), 1 ≤ capacity →
        Steps Respects step (start file capacity) actions →
        ∀ p, (flushAll (exec step (start file capacity) actions).pool).2.diskManager.readPage p =
          (exec step (start file capacity) actions).uncached.readPage p := by
  refine ⟨by decide +kernel, by decide +kernel, by decide +kernel, ?_⟩
  intro hall
  have hzero := hall twoPages 1 [.pin 0, .write 0 false [7]] (by decide) (by decide +kernel) 0
  have hfile : (flushAll (exec step (start twoPages 1)
      [.pin 0, .write 0 false [7]]).pool).2.diskManager.readPage 0 = .ok [0] := by
    decide +kernel
  have huncached : (exec step (start twoPages 1)
      [.pin 0, .write 0 false [7]]).uncached.readPage 0 = .ok [7] := by
    decide +kernel
  rw [hfile, huncached] at hzero
  cases hzero

end SoupDB.BufferManager
