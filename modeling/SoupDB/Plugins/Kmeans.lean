import SoupDB.Common.Value
import SoupDB.Lib.Effect
import SoupDB.Lib.Except

/-!
# SoupDB: k-means and reservoir sampling

FLOATs are bit patterns and what the host computes with them is a parameter, as its random
numbers are.  Vectors that are compared or added have the same number of coordinates.

Main fact: `kmeans_returns`.  The centroids that are returned are as many as asked for, or one
for each vector of the sample if these are fewer, and each is a vector of the same dimension.
-/

namespace SoupDB

open List

abbrev FloatVector := List UInt64

/-- What the host computes with FLOATs. -/
structure Floats where
  /-- The FLOAT of four bytes that `f` packs, unless the number is too large for it. -/
  single : UInt64 → Except PyError UInt32
  /-- The FLOAT that is unpacked. -/
  widen : UInt32 → UInt64
  /-- What was rounded once is not rounded again. -/
  single_widen : ∀ {x : UInt64} {b : UInt32}, single x = .ok b → single (widen b) = .ok b
  /-- `math.hypot(*vector)`. -/
  norm : FloatVector → UInt64
  /-- `math.dist(a, b)`. -/
  dist : FloatVector → FloatVector → UInt64
  lt : UInt64 → UInt64 → Bool
  le : UInt64 → UInt64 → Bool
  zero : UInt64
  infinity : UInt64
  add : UInt64 → UInt64 → UInt64
  /-- `total / size`. -/
  divide : UInt64 → Nat → UInt64
  /-- `x ** 2`, an OverflowError if it is too large. -/
  square : UInt64 → Except PyError UInt64
  /-- `sum(values)`. -/
  sum : List UInt64 → UInt64
  /-- `x == 0`. -/
  isZero : UInt64 → Bool

def Floats.ONE : UInt64 := 0x3FF0000000000000

/-- The FLOATs 0.0 and 1.0, and vectors of one of them. -/
def Floats.ofBit : Floats where
  single x :=
    if x = 0 then .ok 0
    else if x = ONE then .ok 0x3F800000
    else .error (.OverflowError "float too large to pack with f format")
  widen b := if b = 0 then 0 else ONE
  single_widen := by
    intro x b h
    split at h
    · cases h
      decide
    · split at h
      · cases h
        decide
      · cases h
  norm v := if ONE ∈ v then ONE else 0
  dist a b := if a = b then 0 else ONE
  lt a b := decide (a < b)
  le a b := decide (a ≤ b)
  zero := 0
  infinity := 0x7FF0000000000000
  add x y := if x = 0 then y else if y = 0 then x else 0x4000000000000000
  divide x _ := x
  square x := .ok x
  sum xs := if ONE ∈ xs then ONE else 0
  isZero x := decide (x = 0)

/-- `random.Random` with its states. -/
structure Random (R : Type) where
  /-- `rng.randrange(n)`. -/
  randrange : Nat → R → Nat × R
  /-- `rng.uniform(0, total)`. -/
  uniform : UInt64 → R → UInt64 × R
  randrange_lt : ∀ {n : Nat} (r : R), 0 < n → (randrange n r).1 < n

/-- The least index and the greatest FLOAT, always. -/
def Random.extreme : Random Unit where
  randrange _ r := (0, r)
  uniform total r := (total, r)
  randrange_lt _ h := h

namespace Kmeans

open Effect

variable {V R : Type}

section Means

variable (F : Floats) (random : Random R)

def nearestFrom (vector : FloatVector) : Nat → Nat → UInt64 → List FloatVector → Nat
  | _, best, _, [] => best
  | position, best, bestDistance, centroid :: centroids =>
      let distance := F.dist vector centroid
      if F.lt distance bestDistance then
        nearestFrom vector (position + 1) position distance centroids
      else nearestFrom vector (position + 1) best bestDistance centroids

/-- `nearest(vector, centroids)`: the first of those at the least distance. -/
def nearest (vector : FloatVector) (centroids : List FloatVector) : Nat :=
  nearestFrom F vector 0 0 F.infinity centroids

def randrange (n : Nat) : Effect PyError R Nat := fun r =>
  (.ok (random.randrange n r).1, (random.randrange n r).2)

def uniform (total : UInt64) : Effect PyError R UInt64 := fun r =>
  (.ok (random.uniform total r).1, (random.uniform total r).2)

/-- `sample[position]`. -/
def item (sample : List V) (position : Nat) : Except PyError V :=
  match sample[position]? with
  | some vector => .ok vector
  | none => .error (.IndexError "list index out of range")

/-- `sample[rng.randrange(len(sample))]`. -/
def draw (sample : List V) : Effect PyError R V := do
  let slot ← randrange random sample.length
  lift (item sample slot)

/-- The first position at which the weights reach the target. -/
def chosenFrom (target : UInt64) (last : Nat) : Nat → UInt64 → List UInt64 → Nat
  | _, _, [] => last
  | position, cumulative, weight :: weights =>
      if F.le target (F.add cumulative weight) then position
      else chosenFrom target last (position + 1) (F.add cumulative weight) weights

/-- The squared distance to the closest centroid, a new one among them. -/
def closer (centroid : FloatVector) : List FloatVector → List UInt64 → Except PyError (List UInt64)
  | vector :: sample, closest :: rest => do
      let distance ← F.square (F.dist vector centroid)
      let rest ← closer centroid sample rest
      .ok ((if F.lt distance closest then distance else closest) :: rest)
  | _, _ => .ok []

/-- The loop of `_kmeans_plus_plus`: so many more centroids. -/
def seedFrom (sample : List FloatVector) :
    Nat → List FloatVector → List UInt64 → Effect PyError R (List FloatVector)
  | 0, centroids, _ => pure centroids
  | more + 1, centroids, closest =>
      if F.isZero (F.sum closest) then do
        let centroid ← draw random sample
        seedFrom sample more (centroids ++ [centroid]) closest
      else do
        let target ← uniform random (F.sum closest)
        let centroid ← lift
          (item sample (chosenFrom F target (sample.length - 1) 0 F.zero closest))
        let closest ← lift (closer F centroid sample closest)
        seedFrom sample more (centroids ++ [centroid]) closest

/-- `_kmeans_plus_plus(sample, k, rng)`. -/
def kmeansPlusPlus (sample : List FloatVector) (k : Nat) :
    Effect PyError R (List FloatVector) := do
  let centroid ← draw random sample
  let closest ← lift (sample.mapM (fun vector => F.square (F.dist vector centroid)))
  seedFrom F random sample (k - 1) [centroid] closest

/-- The sums and the sizes of the clusters. -/
def accumulate : List (FloatVector × Nat) → List (FloatVector × Nat) → List (FloatVector × Nat)
  | sums, [] => sums
  | sums, (vector, cluster) :: rest =>
      accumulate (sums.modify cluster
        (fun (sum, size) => (zipWith F.add sum vector, size + 1))) rest

/-- The mean of a cluster; an empty one gets a vector of the sample. -/
def center (sample : List FloatVector) (cluster : FloatVector × Nat) :
    Effect PyError R FloatVector :=
  if cluster.2 ≠ 0 then pure (cluster.1.map (fun total => F.divide total cluster.2))
  else draw random sample

/-- The centroids of the clusters. -/
def recenter (sample : List FloatVector) :
    List (FloatVector × Nat) → Effect PyError R (List FloatVector)
  | [] => pure []
  | cluster :: clusters => do
      let centroid ← center F random sample cluster
      let centroids ← recenter sample clusters
      pure (centroid :: centroids)

/-- The iterations of `kmeans`. -/
def lloyd (sample : List FloatVector) (dim : Nat) :
    Nat → List FloatVector → List (Option Nat) → Effect PyError R (List FloatVector)
  | 0, centroids, _ => pure centroids
  | iterations + 1, centroids, assignment => do
      let clusters := sample.map (fun vector => nearest F vector centroids)
      let sums := accumulate F
        (replicate centroids.length (replicate dim F.zero, 0)) (sample.zip clusters)
      let centroids ← recenter F random sample sums
      if clusters.map some = assignment then pure centroids
      else lloyd sample dim iterations centroids (clusters.map some)

/-- `kmeans(sample, k, iterations, rng)`. -/
def kmeans (sample : List FloatVector) (k : Int) (iterations : Nat) :
    Effect PyError R (List FloatVector) :=
  match sample with
  | [] => raise (.ValueError "cannot train k-means on an empty sample")
  | first :: _ =>
      if k ≤ 0 then raise (.ValueError s!"k must be positive, got {k}")
      else do
        let k := min k.toNat sample.length
        let centroids ← kmeansPlusPlus F random sample k
        lloyd F random sample first.length iterations centroids (sample.map (fun _ => none))

end Means

/-! ## The centroids -/

section Returns

variable {F : Floats} {random : Random R} {sample : List FloatVector} {dim : Nat} {r : R}

/-- Vectors of this dimension. -/
def Dim (dim : Nat) (vectors : List FloatVector) : Prop := ∀ v ∈ vectors, v.length = dim

theorem wp_draw {Q : FloatVector → R → Prop} {E : PyError → R → Prop} (hsample : 0 < sample.length)
    (hQ : ∀ v ∈ sample, ∀ r', Q v r') :
    wp (draw random sample) Q E r := by
  rw [draw, wp_bind]
  have hlt := random.randrange_lt r hsample
  refine wp_of_ok rfl ?_
  rw [item, getElem?_eq_getElem hlt, wp_lift_ok]
  exact hQ _ (getElem_mem hlt) _

theorem chosen_from_lt {target cumulative : UInt64} {last position n : Nat} {weights : List UInt64}
    (hlast : last < n) (hlength : position + weights.length ≤ n) :
    chosenFrom F target last position cumulative weights < n := by
  induction weights generalizing position cumulative with
  | nil => exact hlast
  | cons weight weights ih =>
      rw [length_cons] at hlength
      rw [chosenFrom]
      split
      · omega
      · exact ih (by omega)

theorem length_closer {centroid : FloatVector} {closest closest' : List UInt64}
    (h : closer F centroid sample closest = .ok closest') : closest'.length ≤ sample.length := by
  induction sample generalizing closest closest' with
  | nil =>
      rw [closer] at h
      · cases h
        exact le_rfl
      · rintro _ _ _ _ h _
        cases h
  | cons vector sample ih =>
      cases closest with
      | nil =>
          cases h
          exact Nat.zero_le _
      | cons weight closest =>
          obtain ⟨distance, -, h⟩ := bind_eq_ok.mp h
          obtain ⟨rest, hrest, h⟩ := bind_eq_ok.mp h
          cases h
          exact Nat.succ_le_succ (ih hrest)

variable {centroids : List FloatVector}

theorem wp_seed_from {more : Nat} {closest : List UInt64} (hsample : 0 < sample.length)
    (hclosest : closest.length ≤ sample.length) :
    wp (seedFrom F random sample more centroids closest) (fun result _ =>
      ∃ added, result = centroids ++ added ∧ added.length = more ∧ ∀ v ∈ added, v ∈ sample)
      (fun _ _ => True) r := by
  induction more generalizing centroids closest r with
  | zero => exact ⟨[], (append_nil _).symm, rfl, by simp⟩
  | succ more ih =>
      have hnext : ∀ v ∈ sample, ∀ closest : List UInt64, closest.length ≤ sample.length → ∀ r,
          wp (seedFrom F random sample more (centroids ++ [v]) closest) (fun result _ =>
            ∃ added, result = centroids ++ added ∧ added.length = more + 1 ∧
              ∀ v ∈ added, v ∈ sample) (fun _ _ => True) r := by
        intro v hv closest hclosest r
        refine wp_mono (ih hclosest) ?_ (fun _ _ _ => trivial)
        rintro result r' ⟨added, rfl, hlength, hadded⟩
        refine ⟨v :: added, by rw [append_assoc]; rfl, by rw [length_cons, hlength], ?_⟩
        exact forall_mem_cons.mpr ⟨hv, hadded⟩
      rw [seedFrom]
      split
      · rw [wp_bind]
        exact wp_draw hsample (fun v hv r' => hnext v hv closest hclosest r')
      · rw [wp_bind]
        refine wp_of_ok rfl ?_
        have hlt := @chosen_from_lt F (random.uniform (F.sum closest) r).1 F.zero
          (sample.length - 1) 0 sample.length closest (by omega) (by omega)
        rw [wp_bind, item, getElem?_eq_getElem hlt, wp_lift_ok, wp_bind, wp_lift]
        refine ⟨fun closest' h => ?_, fun _ _ => trivial⟩
        exact hnext _ (getElem_mem hlt) closest' (length_closer h) _

theorem wp_kmeans_plus_plus {k : Nat} (hsample : 0 < sample.length) (hk : 0 < k) :
    wp (kmeansPlusPlus F random sample k) (fun centroids _ =>
      centroids.length = k ∧ ∀ v ∈ centroids, v ∈ sample) (fun _ _ => True) r := by
  rw [kmeansPlusPlus, wp_bind]
  refine wp_draw hsample (fun v hv r' => ?_)
  rw [wp_bind, wp_lift]
  refine ⟨fun closest h => ?_, fun _ _ => trivial⟩
  have hlength : closest.length ≤ sample.length := (mapM_eq_ok.mp h).length_eq.ge
  refine wp_mono (wp_seed_from hsample hlength) ?_ (fun _ _ _ => trivial)
  rintro result r'' ⟨added, rfl, hadded, hmem⟩
  refine ⟨by rw [length_append, hadded, length_singleton]; omega, ?_⟩
  exact forall_mem_append.mpr ⟨by simpa using hv, hmem⟩

/-- The sums are as many as they were, of the same dimension. -/
theorem accumulate_dim {rows : List (FloatVector × Nat)} (hrows : ∀ e ∈ rows, e.1.length = dim)
    {sums : List (FloatVector × Nat)} (hsums : ∀ e ∈ sums, e.1.length = dim) :
    (accumulate F sums rows).length = sums.length ∧
      ∀ e ∈ accumulate F sums rows, e.1.length = dim := by
  induction rows generalizing sums with
  | nil => exact ⟨rfl, hsums⟩
  | cons row rows ih =>
      obtain ⟨hrow, hrows⟩ := forall_mem_cons.mp hrows
      have hmodified : ∀ e ∈ sums.modify row.2
          (fun e => (zipWith F.add e.1 row.1, e.2 + 1)), e.1.length = dim := by
        intro e he
        obtain ⟨i, hi⟩ := getElem?_of_mem he
        rw [getElem?_modify] at hi
        obtain ⟨e', he', hsame⟩ := Option.map_eq_some_iff.mp hi
        have hlength := hsums e' (mem_of_getElem? he')
        split at hsame
        · rw [← hsame, length_zipWith, hlength, hrow, Nat.min_self]
        · rw [← hsame]
          exact hlength
      obtain ⟨hlength, hall⟩ := ih hrows hmodified
      exact ⟨hlength.trans (length_modify _ _ _), hall⟩

theorem wp_recenter {clusters : List (FloatVector × Nat)} (hsample : 0 < sample.length)
    (hdim : Dim dim sample) (hclusters : ∀ e ∈ clusters, e.1.length = dim) :
    wp (recenter F random sample clusters)
      (fun centroids _ => centroids.length = clusters.length ∧ Dim dim centroids)
      (fun _ _ => True) r := by
  induction clusters generalizing r with
  | nil => exact ⟨rfl, fun v hv => by cases hv⟩
  | cons cluster clusters ih =>
      obtain ⟨hcluster, hclusters⟩ := forall_mem_cons.mp hclusters
      rw [recenter, wp_bind]
      have hfirst : wp (center F random sample cluster) (fun centroid _ => centroid.length = dim)
          (fun _ _ => True) r := by
        rw [center]
        split
        · rw [wp_pure, length_map]
          exact hcluster
        · exact wp_draw hsample (fun v hv _ => hdim v hv)
      refine wp_mono hfirst (fun centroid r' hcentroid => ?_) (fun _ _ _ => trivial)
      rw [wp_bind]
      refine wp_mono (ih hclusters) ?_ (fun _ _ _ => trivial)
      rintro centroids r'' ⟨hlength, hall⟩
      exact ⟨by rw [length_cons, length_cons, hlength],
        forall_mem_cons.mpr ⟨hcentroid, hall⟩⟩

theorem wp_lloyd {iterations : Nat} {assignment : List (Option Nat)} (hsample : 0 < sample.length)
    (hdim : Dim dim sample) (hcentroids : Dim dim centroids) :
    wp (lloyd F random sample dim iterations centroids assignment)
      (fun result _ => result.length = centroids.length ∧ Dim dim result)
      (fun _ _ => True) r := by
  induction iterations generalizing centroids assignment r with
  | zero => exact ⟨rfl, hcentroids⟩
  | succ iterations ih =>
      rw [lloyd, wp_bind]
      have hrows : ∀ e ∈ sample.zip (sample.map fun vector => nearest F vector centroids),
          e.1.length = dim := fun e he => hdim _ (of_mem_zip he).1
      have hzero : ∀ e ∈ replicate centroids.length (replicate dim F.zero, 0),
          e.1.length = dim := by
        intro e he
        rw [eq_of_mem_replicate he, length_replicate]
      obtain ⟨hlength, hall⟩ := accumulate_dim hrows hzero
      rw [length_replicate] at hlength
      refine wp_mono (wp_recenter hsample hdim hall) ?_ (fun _ _ _ => trivial)
      rintro next r' ⟨hnext, hnextdim⟩
      rw [hlength] at hnext
      split
      · exact ⟨hnext, hnextdim⟩
      · refine wp_mono (ih hnextdim) ?_ (fun _ _ _ => trivial)
        rintro result r'' ⟨hresult, hresultdim⟩
        exact ⟨hresult.trans hnext, hresultdim⟩

/-- `kmeans` returns `min(k, len(sample))` centroids of the dimension of the sample. -/
theorem kmeans_returns {k : Int} {iterations : Nat} (hdim : Dim dim sample) {r' : R}
    (h : kmeans F random sample k iterations r = (.ok centroids, r')) :
    0 < k ∧ 0 < sample.length ∧ centroids.length = min k.toNat sample.length ∧
      Dim dim centroids := by
  have hwp : wp (kmeans F random sample k iterations) (fun centroids _ => 0 < k ∧
      0 < sample.length ∧ centroids.length = min k.toNat sample.length ∧ Dim dim centroids)
      (fun _ _ => True) r := by
    cases sample with
    | nil => exact trivial
    | cons first rest =>
        rw [kmeans]
        split
        · exact trivial
        · next hk =>
            have hpositive : 0 < min k.toNat (first :: rest).length := by
              rw [length_cons]
              omega
            rw [wp_bind]
            refine wp_mono (wp_kmeans_plus_plus (by simp) hpositive) ?_ (fun _ _ _ => trivial)
            rintro seeds r'' ⟨hlength, hseeds⟩
            have hfirst : first.length = dim := hdim first (by simp)
            rw [hfirst]
            refine wp_mono (wp_lloyd (by simp) hdim (fun v hv => hdim v (hseeds v hv))) ?_
              (fun _ _ _ => trivial)
            rintro result r''' ⟨hresult, hresultdim⟩
            exact ⟨by omega, by simp, hresult.trans hlength, hresultdim⟩
  have hdone := wp_ok hwp h
  exact hdone

theorem kmeans_returns_two_points :
    kmeans Floats.ofBit Random.extreme [[0], [Floats.ONE]] 5 10 () =
        (.ok [[0], [Floats.ONE]], ()) ∧
      [[0], [Floats.ONE]].length = min 5 2 ∧ Dim 1 [[0], [Floats.ONE]] := by
  have hrun : kmeans Floats.ofBit Random.extreme [[0], [Floats.ONE]] 5 10 () =
      (.ok [[0], [Floats.ONE]], ()) := by decide
  obtain ⟨-, -, hlength, hdim⟩ := kmeans_returns (show Dim 1 _ by simp [Dim]) hrun
  exact ⟨hrun, hlength, hdim⟩

end Returns

end Kmeans
end SoupDB
