import SoupDB.Algorithms.RecordFile
import SoupDB.Lib.Merge

/-!
# SoupDB: external sorting

Records are cut into chunks that fit the memory limit, and each chunk is sorted and written
as a run.  Passes then merge the runs, at most `fan_in` at a time, until there is one.  A
merge takes the least entry of a heap with the next record of each run; entries whose keys
are equal are taken in the order they were pushed.

Main fact: `external_sort_ok`.  The sort returns a sorted permutation of the records, and
the stable sort where records of different initial runs that tie are equal.
-/

namespace SoupDB.ExternalSort

open RecordFile List

abbrev Comparator := Record → Record → Except PyError Int

variable (comparator : Comparator)

/-- `order_key(a) < order_key(b)`. -/
def keyLt (a b : Record) : Except PyError Bool := do
  let c ← comparator a b
  .ok (decide (c < 0))

/-- `order_key(a) == order_key(b)`. -/
def keyEq (a b : Record) : Except PyError Bool := do
  let c ← comparator a b
  .ok (decide (c = 0))

def writeRecords (records : List Record) : Except PyError Bytes :=
  concatM (fun record => writeRecord "external-sort run" record) records

/-- The file of a sorted chunk. -/
def writeSortedRun (records : List Record) : Except PyError Bytes := do
  let sorted ← sortBy (keyLt comparator) records
  writeRecords sorted

def createInitialRuns (memoryLimitBytes : Nat) (records : List Record) :
    Except PyError (List Bytes) :=
  (recordChunks memoryLimitBytes records).mapM (writeSortedRun comparator)

/-! ## Merging runs -/

/-- An entry of the heap: the record, the run it is from, and when it was pushed. -/
structure Entry where
  sequence : Nat
  runIndex : Nat
  record : Record

/-- The order of the tuples: by key, then by sequence. -/
def entryLt (a b : Entry) : Except PyError Bool := do
  let equal ← keyEq comparator a.record b.record
  if equal then .ok (decide (a.sequence < b.sequence))
  else keyLt comparator a.record b.record

def leastEntry : Entry → List Entry → Except PyError (Entry × List Entry)
  | least, [] => .ok (least, [])
  | least, entry :: heap => do
      let smaller ← entryLt comparator entry least
      let (popped, rest) ← leastEntry (if smaller then entry else least) heap
      .ok (popped, (if smaller then least else entry) :: rest)

def heappop : List Entry → Except PyError (Option (Entry × List Entry))
  | [] => .ok none
  | entry :: heap => do
      let popped ← leastEntry comparator entry heap
      .ok (some popped)

/-- What a merge works on: the heap, the next sequence, and the rest of each file. -/
structure Merging where
  heap : List Entry
  sequence : Nat
  files : List Bytes

namespace Merging

/-- Push the next record of a run, if there is one. -/
def pull (m : Merging) (runIndex : Nat) : Except PyError Merging := do
  match ← readRecord "external-sort" (m.files.getD runIndex []) with
  | none => .ok m
  | some (record, rest) =>
      .ok {
        heap := m.heap ++ [⟨m.sequence, runIndex, record⟩]
        sequence := m.sequence + 1
        files := m.files.set runIndex rest }

/-- The entries and the bytes that are left. -/
def size (m : Merging) : Nat := m.heap.length + (m.files.map length).sum

end Merging

variable {comparator}

variable {heap : List Entry} {α : Type} {runs : List (List Record)} {records : List Record}
    {xs : List α}

theorem length_least_entry {least popped : Entry} {rest : List Entry}
    (h : leastEntry comparator least heap = .ok (popped, rest)) : rest.length = heap.length := by
  induction heap generalizing least rest with
  | nil =>
      cases h
      rfl
  | cons entry heap ih =>
      rw [leastEntry] at h
      obtain ⟨smaller, _, h⟩ := bind_eq_ok.mp h
      obtain ⟨⟨popped', rest'⟩, hrest, h⟩ := bind_eq_ok.mp h
      cases h
      rw [length_cons, length_cons, ih hrest]

theorem length_heappop {popped : Entry} {rest : List Entry}
    (h : heappop comparator heap = .ok (some (popped, rest))) : heap.length = rest.length + 1 := by
  cases heap with
  | nil => cases h
  | cons entry heap =>
      rw [heappop] at h
      obtain ⟨⟨popped', rest'⟩, hleast, h⟩ := bind_eq_ok.mp h
      cases h
      rw [length_cons, length_least_entry hleast]

theorem sum_set {files : List Bytes} {i : Nat} {rest : Bytes}
    (h : rest.length < (files.getD i []).length) :
    ((files.set i rest).map length).sum + 1 ≤ (files.map length).sum := by
  induction files generalizing i with
  | nil =>
      simp at h
  | cons file files ih =>
      cases i with
      | zero =>
          simp only [getD_cons_zero] at h
          simp only [set_cons_zero, map_cons, sum_cons]
          omega
      | succ i =>
          simp only [getD_cons_succ] at h
          have := ih h
          simp only [set_cons_succ, map_cons, sum_cons]
          omega

/-- A record that is pushed leaves its file. -/
theorem size_pull {m m' : Merging} {runIndex : Nat} (h : m.pull runIndex = .ok m') :
    m'.size ≤ m.size := by
  rw [Merging.pull] at h
  obtain ⟨read, hread, h⟩ := bind_eq_ok.mp h
  cases read with
  | none =>
      cases h
      exact Nat.le_refl _
  | some pair =>
      obtain ⟨record, rest⟩ := pair
      cases h
      have := sum_set (length_rest hread)
      simp only [Merging.size, length_append, length_singleton]
      omega

variable (comparator)

/-- The file of the entries, as they are popped. -/
def mergeLoop (m : Merging) : Except PyError Bytes :=
  match _hpop : heappop comparator m.heap with
  | .error e => .error e
  | .ok none => .ok []
  | .ok (some (entry, heap)) => do
      let bytes ← writeRecord "external-sort run" entry.record
      match _hpull : Merging.pull { m with heap := heap } entry.runIndex with
      | .error e => .error e
      | .ok m' => do
          let output ← mergeLoop m'
          .ok (bytes ++ output)
termination_by m.size
decreasing_by
  have hheap := length_heappop _hpop
  have hsize := size_pull _hpull
  simp only [Merging.size] at hsize ⊢
  omega

def mergeRuns (files : List Bytes) : Except PyError Bytes := do
  let m ← (range files.length).foldlM Merging.pull ⟨[], 0, files⟩
  mergeLoop comparator m

/-! ## Passes -/

/-- Slices of `n` elements, and the rest; `n` is positive. -/
def slices {α : Type} (n : Nat) : List α → List (List α)
  | [] => []
  | x :: xs => (x :: xs.take (n - 1)) :: slices n (xs.drop (n - 1))
termination_by xs => xs.length
decreasing_by
  rw [length_drop, length_cons]
  omega

/-- The run of a group; a group of one run is left as it is. -/
def mergeGroup (group : List Bytes) : Except PyError Bytes :=
  match group with
  | [run] => .ok run
  | group => mergeRuns comparator group

def mergePass (fanIn : Nat) (runs : List Bytes) : Except PyError (List Bytes) :=
  (slices fanIn runs).mapM (mergeGroup comparator)

variable {comparator}

theorem length_of_mapM {β : Type} {f : α → Except PyError β} {ys : List β}
    (h : xs.mapM f = .ok ys) : ys.length = xs.length := by
  induction xs generalizing ys with
  | nil =>
      cases h
      rfl
  | cons x xs ih =>
      rw [mapM_cons] at h
      obtain ⟨y, _, h⟩ := bind_eq_ok.mp h
      obtain ⟨rest, hrest, h⟩ := bind_eq_ok.mp h
      cases h
      rw [length_cons, length_cons, ih hrest]

theorem length_slices_le (n : Nat) (xs : List α) : (slices n xs).length ≤ xs.length := by
  induction xs using slices.induct n with
  | case1 =>
      rw [slices]
      exact Nat.le_refl _
  | case2 x xs ih =>
      rw [length_drop] at ih
      rw [slices, length_cons, length_cons]
      omega

theorem length_slices_pos {n : Nat} (hxs : 0 < xs.length) : 0 < (slices n xs).length := by
  cases xs with
  | nil => cases hxs
  | cons x xs =>
      rw [slices, length_cons]
      omega

theorem length_slices_lt {n : Nat} (hn : 2 ≤ n) (hxs : 1 < xs.length) :
    (slices n xs).length < xs.length := by
  cases xs with
  | nil => simp at hxs
  | cons x xs =>
      have hle := length_slices_le n (xs.drop (n - 1))
      rw [length_drop] at hle
      rw [length_cons] at hxs
      rw [slices, length_cons, length_cons]
      omega

variable (comparator)

/-- Passes over the runs until one is left. -/
def mergePasses (fanIn : Nat) (hfanIn : 2 ≤ fanIn) (runs : List Bytes) :
    Except PyError Bytes :=
  if _hmany : runs.length > 1 then
    match _hpass : mergePass comparator fanIn runs with
    | .error e => .error e
    | .ok merged => mergePasses fanIn hfanIn merged
  else .ok (runs.headD [])
termination_by runs.length
decreasing_by
  rw [length_of_mapM _hpass]
  exact length_slices_lt hfanIn _hmany

theorem fan_in_ok {fanIn : Int} (h : ¬ fanIn < 2) : 2 ≤ fanIn.toNat := by omega

/-- Sort records using bounded runs and k-way merge. -/
def externalSort (memoryLimitBytes fanIn : Int) (records : List Record) :
    Except PyError (List Record) :=
  if memoryLimitBytes ≤ 0 then
    .error (.ValueError "memory_limit_bytes must be positive")
  else if hfanIn : fanIn < 2 then
    .error (.ValueError "fan_in must be at least 2")
  else do
    let runs ← createInitialRuns comparator memoryLimitBytes.toNat records
    if runs = [] then .ok []
    else do
      let run ← mergePasses comparator fanIn.toNat (fan_in_ok hfanIn) runs
      readRecords "external-sort" run

/-! ## Comparators that are total preorders -/

/-- `comparator(a, b) <= 0`. -/
def leBy (a b : Record) : Bool :=
  match comparator a b with
  | .ok c => decide (c ≤ 0)
  | .error _ => false

/-- On the domain the comparator returns, with opposite signs, and its order is transitive. -/
structure TotalPreorder (D : Record → Prop) : Prop where
  compared : ∀ {a b}, D a → D b → ∃ c c',
    comparator a b = .ok c ∧ comparator b a = .ok c' ∧ (c < 0 ↔ 0 < c')
  trans : ∀ {a b c}, D a → D b → D c →
    leBy comparator a b = true → leBy comparator b c = true → leBy comparator a c = true

variable {comparator} {D : Record → Prop}

namespace TotalPreorder

variable (h : TotalPreorder comparator D)
include h

/-- The sign of a comparison says which of the two are at most the other. -/
theorem sign {a b : Record} (ha : D a) (hb : D b) :
    ∃ c, comparator a b = .ok c ∧ (leBy comparator a b = true ↔ c ≤ 0) ∧
      (leBy comparator b a = true ↔ 0 ≤ c) := by
  obtain ⟨c, c', hc, hc', hsign⟩ := h.compared ha hb
  obtain ⟨d', d, hd', hd, hsign'⟩ := h.compared hb ha
  rw [hc] at hd
  rw [hc'] at hd'
  cases hd
  cases hd'
  refine ⟨c, hc, ?_, ?_⟩
  · rw [leBy, hc, decide_eq_true_eq]
  · rw [leBy, hc', decide_eq_true_eq]
    omega

theorem preorder : TotalPreorderOn (leBy comparator) D where
  total := by
    intro a b ha hb
    obtain ⟨c, _, hab, hba⟩ := h.sign ha hb
    rw [hab, hba]
    exact le_total c 0
  trans := h.trans

theorem key_lt_eq {a b : Record} (ha : D a) (hb : D b) :
    keyLt comparator a b = .ok (!leBy comparator b a) := by
  obtain ⟨c, hc, _, hba⟩ := h.sign ha hb
  rw [keyLt, hc, ok_bind]
  refine congrArg _ (Bool.eq_iff_iff.mpr ?_)
  rw [decide_eq_true_eq, Bool.not_eq_true', ← Bool.not_eq_true, hba, not_le]

theorem key_eq_eq {a b : Record} (ha : D a) (hb : D b) :
    keyEq comparator a b = .ok (tied (leBy comparator) a b) := by
  obtain ⟨c, hc, hab, hba⟩ := h.sign ha hb
  rw [keyEq, hc, ok_bind]
  refine congrArg _ (Bool.eq_iff_iff.mpr ?_)
  rw [decide_eq_true_eq, tied_iff, hab, hba]
  exact le_antisymm_iff

theorem comparesBy : ComparesBy (keyLt comparator) (leBy comparator) D :=
  fun _ _ ha hb => h.key_lt_eq ha hb

end TotalPreorder

/-! ## The heap -/

theorem entry_lt_ok (h : TotalPreorder comparator D) {a b : Entry} (ha : D a.record)
    (hb : D b.record) : ∃ smaller, entryLt comparator a b = .ok smaller ∧
      (smaller = true → leBy comparator a.record b.record = true) ∧
      (smaller = false → leBy comparator b.record a.record = true) := by
  rw [entryLt, h.key_eq_eq ha hb, ok_bind]
  by_cases htied : tied (leBy comparator) a.record b.record = true
  · rw [if_pos htied]
    exact ⟨_, rfl, fun _ => (tied_iff.mp htied).1, fun _ => (tied_iff.mp htied).2⟩
  · rw [if_neg htied, h.key_lt_eq ha hb]
    refine ⟨_, rfl, ?_, ?_⟩
    · intro hsmaller
      rw [Bool.not_eq_true'] at hsmaller
      rcases h.preorder.total ha hb with hle | hle
      · exact hle
      · rw [hsmaller] at hle
        cases hle
    · intro hsmaller
      rwa [Bool.not_eq_false'] at hsmaller

theorem least_entry_ok (h : TotalPreorder comparator D) :
    ∀ {heap : List Entry} {least : Entry}, (∀ e ∈ least :: heap, D e.record) →
      ∃ popped rest, leastEntry comparator least heap = .ok (popped, rest) ∧
        (popped :: rest).Perm (least :: heap) ∧
        ∀ e ∈ least :: heap, leBy comparator popped.record e.record = true := by
  intro heap
  induction heap with
  | nil =>
      intro least hD
      refine ⟨least, [], rfl, List.Perm.refl _, ?_⟩
      intro e he
      rw [mem_singleton] at he
      rw [he]
      exact h.preorder.refl (hD least (by simp))
  | cons entry heap ih =>
      intro least hD
      have hleast : D least.record := hD least (by simp)
      have hentry : D entry.record := hD entry (by simp)
      obtain ⟨smaller, hlt, htrue, hfalse⟩ := entry_lt_ok h hentry hleast
      have hkept : ∃ kept other, (if smaller then entry else least) = kept ∧
          (if smaller then least else entry) = other ∧ [kept, other].Perm [least, entry] ∧
          leBy comparator kept.record other.record = true := by
        cases smaller with
        | true => exact ⟨entry, least, rfl, rfl, List.Perm.swap _ _ _, htrue rfl⟩
        | false => exact ⟨least, entry, rfl, rfl, List.Perm.refl _, hfalse rfl⟩
      obtain ⟨kept, other, hk, ho, hswap, hle⟩ := hkept
      have hmem : ∀ e, e ∈ least :: entry :: heap ↔ e ∈ kept :: other :: heap := fun e =>
        (hswap.append_right heap).symm.mem_iff
      obtain ⟨popped, rest, hrest, hperm, hbound⟩ := @ih kept (fun e he => by
        refine hD e ((hmem e).mpr ?_)
        rcases mem_cons.mp he with rfl | he
        · exact mem_cons_self ..
        · exact mem_cons_of_mem _ (mem_cons_of_mem _ he))
      have hpopped : D popped.record := by
        refine hD popped ((hmem popped).mpr ?_)
        rcases mem_cons.mp (hperm.mem_iff.mp (mem_cons_self ..)) with rfl | he
        · exact mem_cons_self ..
        · exact mem_cons_of_mem _ (mem_cons_of_mem _ he)
      refine ⟨popped, other :: rest, ?_, ?_, ?_⟩
      · rw [leastEntry, hlt, ok_bind, hk, hrest, ok_bind, ho]
      · refine (List.Perm.swap other popped rest).trans ?_
        refine (List.Perm.cons other hperm).trans ?_
        exact (List.Perm.swap kept other heap).trans (hswap.append_right heap)
      · intro e he
        rcases mem_cons.mp ((hmem e).mp he) with rfl | he
        · exact hbound e (by simp)
        · rcases mem_cons.mp he with rfl | he
          · have hkMem : D kept.record := hD kept ((hmem kept).mpr (by simp))
            exact h.trans hpopped hkMem (hD e ((hmem e).mpr (by simp))) (hbound kept (by simp)) hle
          · exact hbound e (by simp [he])

/-! ## One merge -/

/-- The merge works on these runs: of a run that was pulled the first record is in the heap
and its file has the rest; the file of any other run has all of it. -/
structure Loaded (m : Merging) (runs : List (List Record)) (pulled : Nat → Prop) : Prop where
  pending : ∀ e ∈ m.heap, pulled e.runIndex ∧ ∃ rest,
    m.files[e.runIndex]? = some (frames rest) ∧
    runs[e.runIndex]? = some (e.record :: rest)
  distinct : m.heap.Pairwise (fun e e' => e.runIndex ≠ e'.runIndex)
  complete : ∀ i record rest, pulled i → runs[i]? = some (record :: rest) →
    ∃ e ∈ m.heap, e.runIndex = i
  waiting : ∀ i run, ¬ pulled i → runs[i]? = some run → m.files[i]? = some (frames run)
  sized : ∀ run ∈ runs, ∀ record ∈ run, Sized record

namespace Loaded

variable {m : Merging} {runs : List (List Record)} {pulled : Nat → Prop}

theorem congr {pulled' : Nat → Prop} (h : Loaded m runs pulled)
    (hiff : ∀ i, pulled i ↔ pulled' i) : Loaded m runs pulled' := by
  have heq : pulled = pulled' := funext (fun i => propext (hiff i))
  rw [← heq]
  exact h

/-- The next record of a run that waits. -/
theorem pull (h : Loaded m runs pulled) {i : Nat} (hi : i < runs.length) (hwaits : ¬ pulled i) :
    ∃ m', m.pull i = .ok m' ∧ Loaded m' runs (fun j => pulled j ∨ j = i) := by
  have hrun : runs[i]? = some runs[i] := getElem?_eq_getElem hi
  have hfile := h.waiting i _ hwaits hrun
  have hget : m.files.getD i [] = frames runs[i] := by
    rw [getD_eq_getElem?_getD, hfile]
    rfl
  have hne : ∀ e ∈ m.heap, e.runIndex ≠ i := by
    intro e he heq
    exact hwaits (heq ▸ (h.pending e he).1)
  cases hcase : runs[i] with
  | nil =>
      rw [hcase] at hget hrun
      refine ⟨m, ?_, ?_, h.distinct, ?_, ?_, h.sized⟩
      · rw [Merging.pull, hget, read_record_frames_nil]
        rfl
      · exact fun e he => ⟨Or.inl (h.pending e he).1, (h.pending e he).2⟩
      · intro j record rest hj hsome
        rcases hj with hj | rfl
        · exact h.complete j record rest hj hsome
        · rw [hrun] at hsome
          cases hsome
      · exact fun j run hj hsome => h.waiting j run (fun hpulled => hj (Or.inl hpulled)) hsome
  | cons record rest =>
      rw [hcase] at hget hrun
      have hsized : Sized record := by
        refine h.sized runs[i] (getElem_mem hi) record ?_
        rw [hcase]
        exact mem_cons_self ..
      have hlt : i < m.files.length := (List.getElem?_eq_some_iff.mp hfile).1
      refine ⟨_, by rw [Merging.pull, hget, read_record_frames hsized]; rfl,
        ?_, ?_, ?_, ?_, h.sized⟩
      · intro e he
        rcases mem_append.mp he with he | he
        · obtain ⟨hpulled, rest', hfile', hrun'⟩ := h.pending e he
          refine ⟨Or.inl hpulled, rest', ?_, hrun'⟩
          rw [getElem?_set_ne (hne e he).symm]
          exact hfile'
        · rw [mem_singleton] at he
          subst he
          exact ⟨Or.inr rfl, rest, getElem?_set_self hlt, hrun⟩
      · refine pairwise_append.mpr ⟨h.distinct, pairwise_singleton _ _, ?_⟩
        intro e he e' he'
        rw [mem_singleton] at he'
        subst he'
        exact hne e he
      · intro j record' rest' hj hsome
        rcases hj with hj | rfl
        · obtain ⟨e, he, heq⟩ := h.complete j record' rest' hj hsome
          exact ⟨e, mem_append_left _ he, heq⟩
        · exact ⟨_, mem_append_right _ (mem_singleton.mpr rfl), rfl⟩
      · intro j run hj hsome
        have hij : i ≠ j := fun heq => hj (Or.inr heq.symm)
        rw [getElem?_set_ne hij]
        exact h.waiting j run (fun hpulled => hj (Or.inl hpulled)) hsome

theorem pulls {is : List Nat} :
    ∀ {m : Merging} {pulled : Nat → Prop}, Loaded m runs pulled → is.Nodup →
      (∀ i ∈ is, i < runs.length ∧ ¬ pulled i) →
      ∃ m', is.foldlM Merging.pull m = .ok m' ∧ Loaded m' runs (fun j => pulled j ∨ j ∈ is) := by
  induction is with
  | nil =>
      intro m pulled h _ _
      exact ⟨m, rfl, h.congr (fun i => by simp)⟩
  | cons i is ih =>
      intro m pulled h hnodup hwaits
      obtain ⟨hnot, hnodup⟩ := nodup_cons.mp hnodup
      obtain ⟨hi, hnotPulled⟩ := hwaits i (by simp)
      obtain ⟨m', hpull, hloaded⟩ := h.pull hi hnotPulled
      obtain ⟨m'', hpulls, hloaded'⟩ := ih hloaded hnodup (by
        intro j hj
        obtain ⟨hlt, hnotJ⟩ := hwaits j (by simp [hj])
        refine ⟨hlt, ?_⟩
        rintro (hpulled | rfl)
        · exact hnotJ hpulled
        · exact hnot hj)
      refine ⟨m'', ?_, hloaded'.congr (fun j => ?_)⟩
      · rw [foldlM_cons, hpull, ok_bind, hpulls]
      · rw [mem_cons, or_assoc]

theorem pop {e : Entry} {heap : List Entry} (h : Loaded m runs (fun _ => True))
    (hperm : m.heap.Perm (e :: heap)) : ∃ rest, runs[e.runIndex]? = some (e.record :: rest) ∧
      Loaded { m with heap := heap } (runs.set e.runIndex rest) (fun i => i ≠ e.runIndex) := by
  obtain ⟨_, rest, hfile, hrun⟩ := h.pending e (hperm.mem_iff.mpr (by simp))
  obtain ⟨hlt, hget⟩ := List.getElem?_eq_some_iff.mp hrun
  have hdistinct : (e :: heap).Pairwise (fun e e' => e.runIndex ≠ e'.runIndex) :=
    h.distinct.perm hperm (fun hne heq => hne heq.symm)
  obtain ⟨hfirst, hothers⟩ := pairwise_cons.mp hdistinct
  refine ⟨rest, hrun, ?_, hothers, ?_, ?_, ?_⟩
  · intro e' he'
    obtain ⟨_, rest', hfile', hrun'⟩ := h.pending e' (hperm.mem_iff.mpr (by simp [he']))
    refine ⟨(hfirst e' he').symm, rest', hfile', ?_⟩
    rw [getElem?_set_ne (hfirst e' he')]
    exact hrun'
  · intro i record rest' hi hsome
    rw [getElem?_set_ne (Ne.symm hi)] at hsome
    obtain ⟨e', he', rfl⟩ := h.complete i record rest' trivial hsome
    rcases mem_cons.mp (hperm.mem_iff.mp he') with rfl | he'
    · exact absurd rfl hi
    · exact ⟨e', he', rfl⟩
  · intro i run hi hsome
    rw [not_not] at hi
    rw [hi, getElem?_set_self hlt] at hsome
    cases hsome
    rw [hi]
    exact hfile
  · intro run hmem record hrecord
    rcases mem_or_eq_of_mem_set hmem with hmem | rfl
    · exact h.sized run hmem record hrecord
    · refine h.sized _ (getElem_mem hlt) record ?_
      rw [hget]
      exact mem_cons_of_mem _ hrecord

end Loaded

theorem heappop_ok (h : TotalPreorder comparator D) (hne : heap ≠ [])
    (hD : ∀ e ∈ heap, D e.record) :
    ∃ popped rest, heappop comparator heap = .ok (some (popped, rest)) ∧
      heap.Perm (popped :: rest) ∧ ∀ e ∈ heap, leBy comparator popped.record e.record = true := by
  cases heap with
  | nil => exact absurd rfl hne
  | cons entry heap =>
      obtain ⟨popped, rest, hleast, hperm, hbound⟩ := least_entry_ok h hD
      refine ⟨popped, rest, ?_, hperm.symm, hbound⟩
      rw [heappop, hleast]
      rfl

theorem merge_loop_nil {m : Merging} (hpop : heappop comparator m.heap = .ok none) :
    mergeLoop comparator m = .ok [] := by
  rw [mergeLoop]
  split
  · next e herror =>
      rw [hpop] at herror
      cases herror
  · rfl
  · next entry heap hsome =>
      rw [hpop] at hsome
      cases hsome

/-- The loop writes the record that is popped, and goes on with the next of its run. -/
theorem merge_loop_step {m' : Merging} {entry : Entry} {rest : List Entry} {sequence : Nat}
    {files : List Bytes} (hpop : heappop comparator heap = .ok (some (entry, rest)))
    (hsized : Sized entry.record)
    (hpull : Merging.pull ⟨rest, sequence, files⟩ entry.runIndex = .ok m') :
    mergeLoop comparator ⟨heap, sequence, files⟩ =
      mergeLoop comparator m' >>= fun output => .ok (frames [entry.record] ++ output) := by
  rw [mergeLoop]
  split
  · next error herror =>
      rw [hpop] at herror
      cases herror
  · next hnone =>
      rw [hpop] at hnone
      cases hnone
  · next entry' heap' hsome =>
      rw [hpop] at hsome
      cases hsome
      rw [write_record_ok hsized, ok_bind]
      split
      · next error herror =>
          rw [hpull] at herror
          cases herror
      · next m'' hsome' =>
          rw [hpull] at hsome'
          cases hsome'
          rfl

theorem merge_loop_ok (h : TotalPreorder comparator D) :
    ∀ (n : Nat) {m : Merging} {runs : List (List Record)}, runs.flatten.length = n →
      (∀ run ∈ runs, ∀ record ∈ run, D record) → Loaded m runs (fun _ => True) →
      ∃ out, mergeLoop comparator m = .ok (frames out) ∧ Merges (leBy comparator) runs out := by
  intro n
  induction n with
  | zero =>
      intro m runs hn _ hloaded
      have hempty : ∀ run ∈ runs, run = [] :=
        flatten_eq_nil_iff.mp (length_eq_zero_iff.mp hn)
      have hheap : m.heap = [] := by
        refine eq_nil_iff_forall_not_mem.mpr ?_
        intro e he
        obtain ⟨_, rest, _, hrun⟩ := hloaded.pending e he
        have hnil := hempty _ (mem_of_getElem? hrun)
        cases hnil
      exact ⟨[], merge_loop_nil (by rw [hheap]; rfl), Merges.done hempty⟩
  | succ n ih =>
      intro m runs hn hD hloaded
      have hne : m.heap ≠ [] := by
        intro hheap
        have hempty : runs.flatten = [] := by
          refine flatten_eq_nil_iff.mpr ?_
          intro run hmem
          obtain ⟨i, hi, hget⟩ := getElem_of_mem hmem
          cases run with
          | nil => rfl
          | cons record rest =>
              obtain ⟨e, he, _⟩ := hloaded.complete i record rest trivial
                (List.getElem?_eq_some_iff.mpr ⟨hi, hget⟩)
              rw [hheap] at he
              cases he
        rw [hempty] at hn
        cases hn
      have hheap : ∀ e ∈ m.heap, D e.record := by
        intro e he
        obtain ⟨_, rest, _, hrun⟩ := hloaded.pending e he
        exact hD _ (mem_of_getElem? hrun) e.record (by simp)
      obtain ⟨e, heap, hpop, hperm, hleast⟩ := heappop_ok h hne hheap
      obtain ⟨rest, hrun, hpopped⟩ := hloaded.pop hperm
      obtain ⟨hlt, hget⟩ := List.getElem?_eq_some_iff.mp hrun
      have hlt' : e.runIndex < (runs.set e.runIndex rest).length := by
        rw [length_set]
        exact hlt
      obtain ⟨m', hpull, hpulled⟩ := hpopped.pull hlt' (not_not.mpr rfl)
      have hsplit : runs =
          runs.take e.runIndex ++ (e.record :: rest) :: runs.drop (e.runIndex + 1) := by
        rw [← hget, ← drop_eq_getElem_cons hlt, take_append_drop]
      have hset : runs.set e.runIndex rest =
          runs.take e.runIndex ++ rest :: runs.drop (e.runIndex + 1) :=
        by rw [set_eq_take_append_cons_drop, if_pos hlt]
      have hmem : ∀ run ∈ runs.take e.runIndex ++ runs.drop (e.runIndex + 1), run ∈ runs := by
        intro run hrun
        rcases mem_append.mp hrun with hrun | hrun
        · exact mem_of_mem_take hrun
        · exact mem_of_mem_drop hrun
      have hcount : (runs.set e.runIndex rest).flatten.length = n := by
        have hlength := congrArg (fun runs => runs.flatten.length) hsplit
        simp only [flatten_append, flatten_cons, length_append, length_cons,
          hn] at hlength
        rw [hset]
        simp only [flatten_append, flatten_cons, length_append]
        omega
      have hD' : ∀ run ∈ runs.set e.runIndex rest, ∀ record ∈ run, D record := by
        rw [hset]
        refine forall_mem_middle.mpr ⟨?_, fun run hrun => hD run (hmem run hrun)⟩
        exact fun record hrecord => hD _ (mem_of_getElem? hrun) record (by simp [hrecord])
      obtain ⟨out, hloop, hmerges⟩ := ih hcount hD' (hpulled.congr (fun j => by tauto))
      have hsized : Sized e.record :=
        hloaded.sized _ (mem_of_getElem? hrun) e.record (by simp)
      refine ⟨e.record :: out, ?_, ?_⟩
      · rw [merge_loop_step hpop hsized hpull, hloop, ok_bind, ← frames_append]
        rfl
      · rw [hsplit]
        refine Merges.take ?_ (hset ▸ hmerges)
        intro run hrun y hy
        obtain ⟨i, hi, hgeti⟩ := getElem_of_mem (hmem run hrun)
        cases run with
        | nil => cases hy
        | cons x xs =>
            cases hy
            obtain ⟨e', he', rfl⟩ := hloaded.complete i y xs trivial
              (List.getElem?_eq_some_iff.mpr ⟨hi, hgeti⟩)
            obtain ⟨_, rest', _, hrun'⟩ := hloaded.pending e' he'
            rw [List.getElem?_eq_some_iff.mpr ⟨hi, hgeti⟩] at hrun'
            cases hrun'
            exact hleast e' he'

theorem merge_runs_ok (h : TotalPreorder comparator D) (hD : ∀ run ∈ runs, ∀ record ∈ run, D record)
    (hsized : ∀ run ∈ runs, ∀ record ∈ run, Sized record) :
    ∃ out, mergeRuns comparator (runs.map frames) = .ok (frames out) ∧
      Merges (leBy comparator) runs out := by
  have hstart : Loaded ⟨[], 0, runs.map frames⟩ runs (fun _ => False) := by
    refine ⟨?_, List.Pairwise.nil, ?_, ?_, hsized⟩
    · intro e he
      cases he
    · intro i record rest hi
      cases hi
    · intro i run _ hrun
      rw [getElem?_map, hrun]
      rfl
  obtain ⟨m, hpulls, hloaded⟩ := hstart.pulls (@List.nodup_range runs.length)
    (fun i hi => ⟨mem_range.mp hi, id⟩)
  have hall : Loaded m runs (fun _ => True) := by
    refine ⟨?_, hloaded.distinct, ?_, ?_, hsized⟩
    · exact fun e he => ⟨trivial, (hloaded.pending e he).2⟩
    · intro i record rest _ hrun
      refine hloaded.complete i record rest (Or.inr ?_) hrun
      exact mem_range.mpr (List.getElem?_eq_some_iff.mp hrun).1
    · intro i run hnot
      exact absurd trivial hnot
  obtain ⟨out, hloop, hmerges⟩ := merge_loop_ok h _ rfl hD hall
  refine ⟨out, ?_, hmerges⟩
  rw [mergeRuns, length_map, hpulls, ok_bind, hloop]

/-! ## Passes -/

theorem flatten_slices (n : Nat) (xs : List α) : (slices n xs).flatten = xs := by
  induction xs using slices.induct n with
  | case1 =>
      rw [slices]
      rfl
  | case2 x xs ih =>
      rw [slices, flatten_cons, ih, cons_append, take_append_drop]

theorem slices_map {β : Type} (n : Nat) (f : α → β) (xs : List α) :
    slices n (xs.map f) = (slices n xs).map (map f) := by
  induction xs using slices.induct n with
  | case1 =>
      rw [map_nil, slices, slices]
      rfl
  | case2 x xs ih =>
      rw [map_cons, slices, slices, ← map_take, ← map_drop, ih]
      rfl

/-- What a step makes of runs of the domain: one run of the same records, and the stable
sort where records of different runs that tie are equal. -/
structure MergedInto (comparator : Comparator) (D : Record → Prop) (runs : List (List Record))
    (out : List Record) : Prop where
  perm : out.Perm runs.flatten
  run : IsRun (leBy comparator) D out
  ties : Apart (leBy comparator) runs → SameTies (leBy comparator) D runs.flatten out

theorem merge_group_ok (h : TotalPreorder comparator D) {group : List (List Record)}
    (hruns : ∀ run ∈ group, IsRun (leBy comparator) D run)
    (hsized : ∀ run ∈ group, ∀ record ∈ run, Sized record) :
    ∃ out, mergeGroup comparator (group.map frames) = .ok (frames out) ∧
      MergedInto comparator D group out := by
  have hD : ∀ run ∈ group, ∀ record ∈ run, D record := fun run hmem => (hruns run hmem).mem
  have hmerge : ∃ out, mergeRuns comparator (group.map frames) = .ok (frames out) ∧
      MergedInto comparator D group out := by
    obtain ⟨out, hfile, hmerges⟩ := merge_runs_ok h hD hsized
    refine ⟨out, hfile, hmerges.perm, ⟨?_, hmerges.ascending h.preorder hruns⟩,
      hmerges.sameTies h.preorder hD⟩
    intro record hrecord
    obtain ⟨run, hmem, hrecord⟩ := mem_flatten.mp (hmerges.perm.mem_iff.mp hrecord)
    exact hD run hmem record hrecord
  match group with
  | [] => exact hmerge
  | [run] =>
      refine ⟨run, rfl, ?_, hruns run (by simp), ?_⟩
      · rw [flatten_singleton]
      · intro _
        rw [flatten_singleton]
        exact SameTies.refl run
  | _ :: _ :: _ => exact hmerge

theorem merge_pass_ok (h : TotalPreorder comparator D) (fanIn : Nat)
    (hruns : ∀ run ∈ runs, IsRun (leBy comparator) D run)
    (hsized : ∀ run ∈ runs, ∀ record ∈ run, Sized record) :
    ∃ outs : List (List Record), mergePass comparator fanIn (runs.map frames) =
        .ok (outs.map frames) ∧
      outs.flatten.Perm runs.flatten ∧
      (∀ out ∈ outs, IsRun (leBy comparator) D out) ∧
      (Apart (leBy comparator) runs →
        Apart (leBy comparator) outs ∧
        SameTies (leBy comparator) D runs.flatten outs.flatten) := by
  have hgroups : ∀ group ∈ slices fanIn runs, ∀ run ∈ group, run ∈ runs := by
    intro group hgroup run hrun
    rw [← flatten_slices fanIn runs]
    exact mem_flatten.mpr ⟨group, hgroup, hrun⟩
  have hchoice : ∀ group, ∃ out, group ∈ slices fanIn runs →
      mergeGroup comparator (group.map frames) = .ok (frames out) ∧
      MergedInto comparator D group out := by
    intro group
    by_cases hgroup : group ∈ slices fanIn runs
    · obtain ⟨out, hout⟩ := merge_group_ok h
        (fun run hrun => hruns run (hgroups group hgroup run hrun))
        (fun run hrun => hsized run (hgroups group hgroup run hrun))
      exact ⟨out, fun _ => hout⟩
    · exact ⟨[], fun hmem => absurd hmem hgroup⟩
  choose merged hmerged using hchoice
  refine ⟨(slices fanIn runs).map merged, ?_, ?_, ?_, ?_⟩
  · rw [mergePass, slices_map, mapM_map, map_map]
    exact mapM_ok (fun group hgroup => (hmerged group hgroup).1)
  · have hperm : ((slices fanIn runs).map merged).flatten.Perm
        ((slices fanIn runs).map flatten).flatten :=
      List.Perm.flatten_congr (forall₂_map_left_iff.mpr (forall₂_map_right_iff.mpr
        (forall₂_same.mpr (fun group hgroup => (hmerged group hgroup).2.perm))))
    rwa [← flatten_flatten, flatten_slices] at hperm
  · intro out hout
    obtain ⟨group, hgroup, rfl⟩ := mem_map.mp hout
    exact (hmerged group hgroup).2.run
  · intro hapart
    have hslices := hapart
    rw [← flatten_slices fanIn runs] at hslices
    obtain ⟨hwithin, hacross⟩ := pairwise_flatten.mp hslices
    have hsame : ∀ group ∈ slices fanIn runs,
        SameTies (leBy comparator) D group.flatten (merged group) :=
      fun group hgroup => (hmerged group hgroup).2.ties (hwithin group hgroup)
    constructor
    · refine pairwise_map.mpr (List.Pairwise.imp_of_mem ?_ hacross)
      intro group group' hgroup hgroup' happart x hx y hy
      obtain ⟨run, hrun, hx⟩ := mem_flatten.mp ((hsame group hgroup).perm.mem_iff.mp hx)
      obtain ⟨run', hrun', hy⟩ := mem_flatten.mp ((hsame group' hgroup').perm.mem_iff.mp hy)
      exact happart run hrun run' hrun' x hx y hy
    · have hflatten : runs.flatten = ((slices fanIn runs).map flatten).flatten := by
        rw [← flatten_flatten, flatten_slices]
      rw [hflatten]
      exact SameTies.flatten hsame

theorem merge_passes_ok (h : TotalPreorder comparator D) {fanIn : Nat} (hfanIn : 2 ≤ fanIn) :
    ∀ (n : Nat) {runs : List (List Record)}, runs.length = n → 0 < n →
      (∀ run ∈ runs, IsRun (leBy comparator) D run) →
      (∀ run ∈ runs, ∀ record ∈ run, Sized record) →
      ∃ out, mergePasses comparator fanIn hfanIn (runs.map frames) = .ok (frames out) ∧
        MergedInto comparator D runs out := by
  intro n
  induction n using Nat.strong_induction_on with
  | _ n ih =>
      intro runs hn hpos hruns hsized
      by_cases hmany : runs.length > 1
      · obtain ⟨outs, hpass, hperm, houts, hties⟩ := merge_pass_ok h fanIn hruns hsized
        have hlength : 0 < outs.length ∧ outs.length < runs.length := by
          have hmap := length_of_mapM hpass
          rw [length_map, slices_map, length_map] at hmap
          rw [hmap]
          exact ⟨length_slices_pos (by omega), length_slices_lt hfanIn hmany⟩
        have hmem : ∀ out ∈ outs, ∀ record ∈ out, ∃ run ∈ runs, record ∈ run := by
          intro out hout record hrecord
          exact mem_flatten.mp
            (hperm.mem_iff.mp (mem_flatten.mpr ⟨out, hout, hrecord⟩))
        obtain ⟨out, hpasses, hmerged⟩ := ih outs.length (by omega) rfl hlength.1 houts (by
          intro out hout record hrecord
          obtain ⟨run, hrun, hrecord⟩ := hmem out hout record hrecord
          exact hsized run hrun record hrecord)
        refine ⟨out, ?_, hmerged.perm.trans hperm, hmerged.run, ?_⟩
        · rw [mergePasses, dif_pos (by rw [length_map]; exact hmany)]
          split
          · next e herror =>
              rw [hpass] at herror
              cases herror
          · next merged hsome =>
              rw [hpass] at hsome
              cases hsome
              exact hpasses
        · intro hapart
          obtain ⟨hapart', hsame⟩ := hties hapart
          exact hsame.trans (hmerged.ties hapart')
      · obtain ⟨run, rfl⟩ := length_eq_one_iff.mp (by omega : runs.length = 1)
        refine ⟨run, ?_, ?_, hruns run (by simp), ?_⟩
        · rw [mergePasses, dif_neg (by rw [length_map]; exact hmany)]
          rfl
        · rw [flatten_singleton]
        · intro _
          rw [flatten_singleton]
          exact SameTies.refl run

/-! ## The sort -/

theorem write_records_ok (h : ∀ record ∈ records, Sized record) :
    writeRecords records = .ok (frames records) := by
  rw [writeRecords,
    concatM_ok (fun record hrecord => write_record_ok (h record hrecord))]
  refine congrArg _ (flatMap_congr (fun record _ => ?_))
  rw [frames, flatMap_cons, flatMap_nil, append_nil]

section

variable (h : TotalPreorder comparator D)
include h

theorem create_initial_runs_ok (memoryLimitBytes : Nat) (hD : ∀ record ∈ records, D record)
    (hsized : ∀ record ∈ records, Sized record) :
    ∃ sorted : List Record → List Record,
      createInitialRuns comparator memoryLimitBytes records =
        .ok ((recordChunks memoryLimitBytes records).map (fun chunk => frames (sorted chunk))) ∧
      ∀ chunk ∈ recordChunks memoryLimitBytes records,
        Ascending (leBy comparator) (sorted chunk) ∧
        SameTies (leBy comparator) D chunk (sorted chunk) := by
  have hchunks : ∀ chunk ∈ recordChunks memoryLimitBytes records,
      ∀ record ∈ chunk, record ∈ records := by
    intro chunk hchunk record hrecord
    rw [← record_chunks_flatten memoryLimitBytes records]
    exact mem_flatten.mpr ⟨chunk, hchunk, hrecord⟩
  have hchoice : ∀ chunk, ∃ sorted, chunk ∈ recordChunks memoryLimitBytes records →
      sortBy (keyLt comparator) chunk = .ok sorted ∧
      Ascending (leBy comparator) sorted ∧ SameTies (leBy comparator) D chunk sorted := by
    intro chunk
    by_cases hchunk : chunk ∈ recordChunks memoryLimitBytes records
    · obtain ⟨sorted, hsorted⟩ := sortBy_stable h.preorder h.comparesBy
        (fun record hrecord => hD record (hchunks chunk hchunk record hrecord))
      exact ⟨sorted, fun _ => hsorted⟩
    · exact ⟨[], fun hmem => absurd hmem hchunk⟩
  choose sorted hsorted using hchoice
  refine ⟨sorted, ?_, fun chunk hchunk => (hsorted chunk hchunk).2⟩
  refine mapM_ok (fun chunk hchunk => ?_)
  obtain ⟨hsort, _, hsame⟩ := hsorted chunk hchunk
  rw [writeSortedRun, hsort, ok_bind]
  refine write_records_ok (fun record hrecord => ?_)
  exact hsized record (hchunks chunk hchunk record (hsame.perm.mem_iff.mp hrecord))

/-- Sorted output, and the stable sort where records of different initial runs that tie are
equal. -/
theorem external_sort_ok {memoryLimitBytes fanIn : Int} (hlimit : 0 < memoryLimitBytes)
    (hfanIn : 2 ≤ fanIn) (hD : ∀ record ∈ records, D record)
    (hsized : ∀ record ∈ records, Sized record) :
    ∃ out, externalSort comparator memoryLimitBytes fanIn records = .ok out ∧
      MergedInto comparator D (recordChunks memoryLimitBytes.toNat records) out := by
  have hflatten := record_chunks_flatten memoryLimitBytes.toNat records
  obtain ⟨sorted, hruns, hsorted⟩ :=
    create_initial_runs_ok h memoryLimitBytes.toNat hD hsized
  have hmem : ∀ chunk ∈ recordChunks memoryLimitBytes.toNat records,
      ∀ record ∈ sorted chunk, record ∈ records := by
    intro chunk hchunk record hrecord
    rw [← hflatten]
    exact mem_flatten.mpr ⟨chunk, hchunk, (hsorted chunk hchunk).2.perm.mem_iff.mp hrecord⟩
  rw [externalSort, if_neg (by omega), dif_neg (by omega), hruns, ok_bind]
  by_cases hnone : recordChunks memoryLimitBytes.toNat records = []
  · rw [hnone, map_nil, if_pos rfl]
    refine ⟨[], rfl, List.Perm.refl _, ⟨?_, List.Pairwise.nil⟩, fun _ => SameTies.refl _⟩
    intro record hrecord
    cases hrecord
  · have hpos : 0 < ((recordChunks memoryLimitBytes.toNat records).map sorted).length := by
      rw [length_map]
      exact length_pos_iff.mpr hnone
    obtain ⟨out, hpasses, hmerged⟩ := merge_passes_ok h (by omega : 2 ≤ fanIn.toNat) _ rfl hpos (by
      intro run hrun
      obtain ⟨chunk, hchunk, rfl⟩ := mem_map.mp hrun
      exact ⟨fun record hrecord => hD record (hmem chunk hchunk record hrecord),
        (hsorted chunk hchunk).1⟩) (by
      intro run hrun record hrecord
      obtain ⟨chunk, hchunk, rfl⟩ := mem_map.mp hrun
      exact hsized record (hmem chunk hchunk record hrecord))
    rw [map_map] at hpasses
    have hsame : SameTies (leBy comparator) D
        (recordChunks memoryLimitBytes.toNat records).flatten
        ((recordChunks memoryLimitBytes.toNat records).map sorted).flatten := by
      have hflat := @SameTies.flatten Record (List Record) (leBy comparator) D id sorted _
        (fun chunk hchunk => (hsorted chunk hchunk).2)
      rwa [map_id] at hflat
    have hrecords : ∀ record ∈ out, record ∈ records := by
      intro record hrecord
      rw [← hflatten]
      exact hsame.perm.mem_iff.mp (hmerged.perm.mem_iff.mp hrecord)
    refine ⟨out, ?_, hmerged.perm.trans hsame.perm, hmerged.run, ?_⟩
    · rw [if_neg (by rwa [map_eq_nil_iff])]
      simp only [Function.comp_def] at hpasses
      rw [hpasses, ok_bind]
      exact read_records_frames
        (fun record hrecord => hsized record (hrecords record hrecord))
    · intro hapart
      refine hsame.trans (hmerged.ties ?_)
      refine pairwise_map.mpr (List.Pairwise.imp_of_mem ?_ hapart)
      intro chunk chunk' hchunk hchunk' happart x hx y hy
      exact happart x ((hsorted chunk hchunk).2.perm.mem_iff.mp hx) y
        ((hsorted chunk' hchunk').2.perm.mem_iff.mp hy)

/-! ## Ties across runs -/

theorem heappop_two {a b : Entry} (ha : D a.record) (hb : D b.record)
    (htied : tied (leBy comparator) b.record a.record = true)
    (hsequence : a.sequence < b.sequence) :
    heappop comparator [a, b] = .ok (some (a, [b])) := by
  have hlt : entryLt comparator b a = .ok false := by
    rw [entryLt, h.key_eq_eq hb ha, ok_bind, if_pos htied]
    exact congrArg _ (decide_eq_false (by omega))
  rw [heappop, leastEntry, hlt]
  rfl

theorem merge_runs_interleaved {a b : Record} (ha : D a) (hb : D b) (hsized : Sized a)
    (hsized' : Sized b) (htied : tied (leBy comparator) a b = true) :
    mergeRuns comparator [frames [a, b], frames [a]] = .ok (frames [a, a, b]) := by
  have hself := h.preorder.tied_self ha
  have hswap : tied (leBy comparator) b a = true := by
    rw [tied_comm]
    exact htied
  have hstart : (range 2).foldlM Merging.pull ⟨[], 0, [frames [a, b], frames [a]]⟩ =
      .ok ⟨[⟨0, 0, a⟩, ⟨1, 1, a⟩], 2, [frames [b], frames []]⟩ := by
    have hrange : range 2 = [0, 1] := rfl
    simp [hrange, Merging.pull, read_record_frames, hsized]
  have hfirst : Merging.pull ⟨[⟨1, 1, a⟩], 2, [frames [b], frames []]⟩ 0 =
      .ok ⟨[⟨1, 1, a⟩, ⟨2, 0, b⟩], 3, [frames [], frames []]⟩ := by
    simp [Merging.pull, read_record_frames, hsized']
  have hsecond : Merging.pull ⟨[⟨2, 0, b⟩], 3, [frames [], frames []]⟩ 1 =
      .ok ⟨[⟨2, 0, b⟩], 3, [frames [], frames []]⟩ := by
    simp [Merging.pull, read_record_frames_nil]
  have hthird : Merging.pull ⟨[], 3, [frames [], frames []]⟩ 0 =
      .ok ⟨[], 3, [frames [], frames []]⟩ := by
    simp [Merging.pull, read_record_frames_nil]
  have hpop : heappop comparator [⟨0, 0, a⟩, ⟨1, 1, a⟩] =
      .ok (some (⟨0, 0, a⟩, [⟨1, 1, a⟩])) :=
    heappop_two h ha ha hself Nat.one_pos
  have hpop' : heappop comparator [⟨1, 1, a⟩, ⟨2, 0, b⟩] =
      .ok (some (⟨1, 1, a⟩, [⟨2, 0, b⟩])) :=
    heappop_two h ha hb hswap Nat.one_lt_two
  have hpop'' : heappop comparator [⟨2, 0, b⟩] = .ok (some (⟨2, 0, b⟩, [])) := rfl
  have hnil : mergeLoop comparator ⟨[], 3, [frames [], frames []]⟩ = .ok [] :=
    merge_loop_nil rfl
  have hlast := merge_loop_step hpop'' hsized' hthird
  rw [hnil, ok_bind] at hlast
  have hmiddle := merge_loop_step hpop' hsized hsecond
  rw [hlast, ok_bind] at hmiddle
  have hall := merge_loop_step hpop hsized hfirst
  rw [hmiddle, ok_bind] at hall
  simp only [mergeRuns, length_cons, length_nil]
  rw [hstart, ok_bind, hall, append_nil, ← frames_append,
    ← frames_append]
  rfl

end

/-- With a memory limit of the sizes of `a` and `b`, the chunks of `a, b, a` are `a, b` and `a`. -/
theorem record_chunks_interleaved (a b : Record) :
    recordChunks (serializedSize a + serializedSize b) [a, b, a] =
      [[a, b], [a]] := by
  have ha : 0 < serializedSize a := by
    rw [serializedSize]
    omega
  have hb : 0 < serializedSize b := by
    rw [serializedSize]
    omega
  rw [recordChunks, chunksFrom_room _ _ (by omega),
    chunksFrom_fills _ _ (by omega), chunksFrom_room _ _ (by omega),
    chunksFrom, if_neg (by simp)]
  rfl

/-- The record that ties comes before its place in the stable sort. -/
theorem external_sort_interleaved (h : TotalPreorder comparator D) {a b : Record} (ha : D a)
    (hb : D b) (hsized : Sized a) (hsized' : Sized b)
    (htied : tied (leBy comparator) a b = true) :
    externalSort comparator (serializedSize a + serializedSize b : Nat) 8
      [a, b, a] = .ok [a, a, b] := by
  have hpair : ∀ record ∈ [a, b], D record := by
    intro record hrecord
    simp only [mem_cons, not_mem_nil, or_false] at hrecord
    rcases hrecord with rfl | rfl
    · exact ha
    · exact hb
  have hsort : sortBy (keyLt comparator) [a, b] = .ok [a, b] := by
    have hle : leBy comparator a b = true := (tied_iff.mp htied).1
    have hge : leBy comparator b a = true := (tied_iff.mp htied).2
    simp only [sortBy, insertBy, ok_bind, h.key_lt_eq hb ha, hle]
    rfl
  have hruns : createInitialRuns comparator
      (serializedSize a + serializedSize b) [a, b, a] =
      .ok [frames [a, b], frames [a]] := by
    have hsizedPair : ∀ record ∈ [a, b], Sized record := by
      intro record hrecord
      simp only [mem_cons, not_mem_nil, or_false] at hrecord
      rcases hrecord with rfl | rfl
      · exact hsized
      · exact hsized'
    have hfirst : writeSortedRun comparator [a, b] = .ok (frames [a, b]) := by
      rw [writeSortedRun, hsort, ok_bind, write_records_ok hsizedPair]
    have hsecond : writeSortedRun comparator [a] = .ok (frames [a]) := by
      rw [writeSortedRun, sortBy, sortBy, ok_bind, insertBy, ok_bind]
      exact write_records_ok (fun record hrecord => hsizedPair record (by
        rw [mem_singleton] at hrecord
        simp [hrecord]))
    rw [createInitialRuns, record_chunks_interleaved, mapM_cons, hfirst, ok_bind,
      mapM_cons, hsecond, ok_bind, mapM_nil]
    rfl
  have hpasses : mergePasses comparator 8 (by decide) [frames [a, b], frames [a]] =
      .ok (frames [a, a, b]) := by
    have hslices : slices 8 [frames [a, b], frames [a]] = [[frames [a, b], frames [a]]] := by
      simp [slices]
    have hpass : mergePass comparator 8 [frames [a, b], frames [a]] = .ok [frames [a, a, b]] := by
      have hgroup : mergeGroup comparator [frames [a, b], frames [a]] =
          .ok (frames [a, a, b]) := merge_runs_interleaved h ha hb hsized hsized' htied
      rw [mergePass, hslices, mapM_cons, hgroup, ok_bind, mapM_nil]
      rfl
    rw [mergePasses, dif_pos (by simp)]
    split
    · next e herror =>
        rw [hpass] at herror
        cases herror
    · next merged hsome =>
        rw [hpass] at hsome
        cases hsome
        rw [mergePasses, dif_neg (by simp)]
        rfl
  have hpos : 0 < serializedSize a := by
    rw [serializedSize]
    omega
  rw [externalSort, if_neg (by omega), dif_neg (by decide), Int.toNat_natCast, hruns, ok_bind,
    if_neg (by simp)]
  have hread : RecordFile.readRecords "external-sort" (frames [a, a, b]) = .ok [a, a, b] := by
    refine read_records_frames (fun record hrecord => ?_)
    simp only [mem_cons, not_mem_nil, or_false] at hrecord
    rcases hrecord with rfl | rfl | rfl
    · exact hsized
    · exact hsized
    · exact hsized'
  exact (congrArg (fun file => file >>= readRecords "external-sort") hpasses).trans hread

theorem external_sort_unsized {a : Record} (hsized : ¬ Sized a) :
    externalSort comparator 1 8 [a] =
      .error (.ValueError "record is too large for external-sort run format") := by
  have hchunks : recordChunks 1 [a] = [[a]] := by
    simp [recordChunks, chunksFrom, serializedSize]
  have hwrite : writeRecord "external-sort run" a =
      .error (.ValueError "record is too large for external-sort run format") := by
    rw [writeRecord, if_pos (by unfold Sized at hsized; omega)]
    rfl
  have hruns : createInitialRuns comparator 1 [a] =
      .error (.ValueError "record is too large for external-sort run format") := by
    rw [createInitialRuns, hchunks, mapM_cons, writeSortedRun, sortBy, sortBy, ok_bind,
      insertBy, ok_bind, writeRecords, concatM, hwrite]
    rfl
  rw [externalSort, if_neg (by decide), dif_neg (by decide)]
  exact congrArg (fun runs => runs >>= _) hruns

end SoupDB.ExternalSort
