import SoupDB.Lib.Cycle
import SoupDB.Transactions.Strict2PL

/-!
# SoupDB: deadlock detection

`Blocks` is the wait-for graph: a waiting transaction waits for the holders of its resource
whose mode is not compatible with its request (`try_grant_eq_false_iff`).  The search of
`deadlockDetected` follows the edges of `Behind` instead, to all other holders, and stops at
any cycle (`deadlock_detected_iff`).  It is exact for the transactions that lie on a blocking
cycle or reach no cycle at all (`deadlock_detected_exact`).
-/

namespace SoupDB.StrictTwoPhaseLocking

variable {R : Type} [DecidableEq R] {p : StrictTwoPhaseLocking R} {requested : TxId → LockMode}
  {t t' : TxId} {resource : R}

/-- The transaction waits for a resource that the other one holds, in whatever mode. -/
def Behind (p : StrictTwoPhaseLocking R) (t t' : TxId) : Prop :=
  ∃ resource mode, p.waiting.lookup t = some resource ∧ t' ≠ t ∧ p.held resource t' = some mode

/-- The mode a request asks for, with what the transaction already holds. -/
def desired (p : StrictTwoPhaseLocking R) (t : TxId) (resource : R) (mode : LockMode) : LockMode :=
  match p.held resource t with
  | some held => LockMode.stronger held mode
  | none => mode

/-- The transaction waits for a resource that the other one holds in a mode that blocks its
request. -/
def Blocks (p : StrictTwoPhaseLocking R) (requested : TxId → LockMode) (t t' : TxId) : Prop :=
  ∃ resource mode, p.waiting.lookup t = some resource ∧ t' ≠ t ∧
    p.held resource t' = some mode ∧
      LockMode.compat mode (p.desired t resource (requested t)) = false

theorem Blocks.behind (h : p.Blocks requested t t') : p.Behind t t' := by
  obtain ⟨resource, mode, hwaiting, hne, hheld, _⟩ := h
  exact ⟨resource, mode, hwaiting, hne, hheld⟩

/-! ## The search -/

theorem mem_waits_for : t' ∈ p.waitsFor t ↔ p.Behind t t' := by
  rw [waitsFor, Behind]
  cases hwaiting : p.waiting.lookup t with
  | none => simp
  | some resource =>
      have hkey : t' ∈ (p.holders resource).keys ↔ ∃ mode, p.held resource t' = some mode := by
        rw [← AList.mem_keys, ← AList.lookup_isSome, Option.isSome_iff_exists]
        simp only [held, Option.map_eq_some_iff]
        constructor
        · rintro ⟨entry, hentry⟩
          exact ⟨entry.1, entry, hentry, rfl⟩
        · rintro ⟨_, entry, hentry, _⟩
          exact ⟨entry, hentry⟩
      simp only [List.mem_filter, hkey, ne_eq, decide_not, Bool.not_eq_true',
        decide_eq_false_iff_not,
        Option.some.injEq]
      constructor
      · rintro ⟨⟨mode, hheld⟩, hne⟩
        exact ⟨resource, mode, rfl, hne, hheld⟩
      · rintro ⟨_, mode, rfl, hne, hheld⟩
        exact ⟨⟨mode, hheld⟩, hne⟩

theorem Behind.waiting (h : p.Behind t t') : t ∈ p.waiting.keys := by
  obtain ⟨resource, _, hwaiting, _⟩ := h
  rw [← AList.mem_keys, ← AList.lookup_isSome, hwaiting]
  rfl

theorem in_cycle_eq (p : StrictTwoPhaseLocking R) (rounds : Nat) (node : TxId)
    (path : List TxId) : p.inCycle rounds node path = revisits p.waitsFor rounds node path := by
  induction rounds generalizing node path with
  | zero => rfl
  | succ rounds ih =>
      rw [inCycle, revisits]
      simp only [ih]

/-- With enough rounds, the search finds out whether a cycle can be reached. -/
theorem in_cycle_iff {rounds : Nat} (hrounds : p.waiting.keys.length + 2 ≤ rounds) :
    p.inCycle rounds t [] = true ↔ ReachesCycle p.Behind t := by
  rw [in_cycle_eq]
  exact revisits_iff (fun _ _ => mem_waits_for) (fun _ _ => Behind.waiting) hrounds

theorem deadlock_detected_iff : p.deadlockDetected t = true ↔ ReachesCycle p.Behind t := by
  rw [deadlockDetected, Bool.and_eq_true, in_cycle_iff (le_refl _), decide_eq_true_eq]
  constructor
  · exact fun h => h.2
  · intro h
    obtain ⟨t', hbehind, _⟩ := h.next
    exact ⟨AList.mem_keys.mpr hbehind.waiting, h⟩

/-- More rounds change nothing, so the search of the source ends; and it is exact exactly for
the transactions that lie on a blocking cycle or reach no cycle of waiting for any holder. -/
theorem deadlock_detected_exact (p : StrictTwoPhaseLocking R) (requested : TxId → LockMode)
    (t : TxId) :
    (∀ rounds, p.waiting.keys.length + 2 ≤ rounds →
      p.inCycle rounds t [] = p.inCycle (p.waiting.keys.length + 2) t []) ∧
    ((p.deadlockDetected t = true ↔ OnCycle (p.Blocks requested) t) ↔
      (ReachesCycle p.Behind t → OnCycle (p.Blocks requested) t)) := by
  constructor
  · intro rounds hrounds
    rw [Bool.eq_iff_iff, in_cycle_iff hrounds, in_cycle_iff (le_refl _)]
  · have hreaches : OnCycle (p.Blocks requested) t → ReachesCycle p.Behind t :=
      fun hcycle => (hcycle.mono (fun _ _ => Blocks.behind)).reaches
    rw [deadlock_detected_iff]
    exact ⟨fun hexact => hexact.mp, fun hfound => ⟨hfound, hreaches⟩⟩

/-- Transaction 3 waits for transaction 1, which waits for nothing, behind the compatible
holder 2, which waits for transaction 3. -/
def behindCompatible : StrictTwoPhaseLocking Nat :=
  let p := (acquire 1 10 .UPDATE new).2
  let p := (acquire 2 10 .SHARED p).2
  let p := (acquire 3 20 .EXCLUSIVE p).2
  let p := (acquire 2 20 .SHARED p).2
  (acquire 3 10 .UPDATE p).2

/-- The modes of the two requests that wait. -/
def behindCompatibleRequests : TxId → LockMode
  | 3 => .UPDATE
  | _ => .SHARED

theorem deadlock_detected_behind_compatible :
    ¬ ∀ (p : StrictTwoPhaseLocking Nat) (requested : TxId → LockMode) (t : TxId),
      p.deadlockDetected t = true ↔ OnCycle (p.Blocks requested) t := by
  intro hall
  have hcycle := (hall behindCompatible behindCompatibleRequests 3).mp (by decide +kernel)
  have hfirst : ∀ t, behindCompatible.Blocks behindCompatibleRequests 3 t → t = 1 := by
    rintro t ⟨resource, mode, hwaiting, hne, hheld, hblocked⟩
    obtain rfl : resource = 10 := by
      have hten : behindCompatible.waiting.lookup 3 = some 10 := by decide +kernel
      rw [hten, Option.some.injEq] at hwaiting
      exact hwaiting.symm
    by_contra hone
    by_cases htwo : t = 2
    · subst htwo
      have hshared : behindCompatible.held 10 2 = some .SHARED := by decide +kernel
      rw [hshared, Option.some.injEq] at hheld
      subst hheld
      revert hblocked
      decide +kernel
    · have hholders : ∀ t' ∈ (behindCompatible.holders 10).keys, t' = 1 ∨ t' = 2 := by
        decide +kernel
      obtain ⟨entry, hentry, _⟩ := Option.map_eq_some_iff.mp hheld
      have hmem : t ∈ (behindCompatible.holders 10).keys := by
        rw [← AList.mem_keys, ← AList.lookup_isSome, hentry]
        rfl
      rcases hholders t hmem with rfl | rfl
      · exact hone rfl
      · exact htwo rfl
  obtain ⟨t, hblocks, hrest⟩ := Relation.TransGen.head'_iff.mp hcycle
  rw [hfirst t hblocks] at hrest
  rcases Relation.ReflTransGen.cases_head hrest with heq | ⟨t', ⟨resource, _, hwaiting, _⟩, _⟩
  · cases heq
  · have hnone : behindCompatible.waiting.lookup 1 = none := by decide +kernel
    rw [hnone] at hwaiting
    cases hwaiting

end SoupDB.StrictTwoPhaseLocking
