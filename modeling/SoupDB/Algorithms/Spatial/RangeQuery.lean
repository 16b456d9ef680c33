import SoupDB.Algorithms.Spatial.Predicates
import SoupDB.Algorithms.Spatial.Traversal
import SoupDB.Indexes.RTreeRun

/-!
# SoupDB: range, radius and polygon searches

The three searches walk the tree with a test on boxes and a test on points.  Each test on boxes
holds of every box with a point that passes the test on points: boxes that share a point
intersect, a metric does not bound the distances to a box too high, and the points of a polygon
lie in its box.  So nothing is missed, and the searches equal the test of every stored entry.

Main facts: `range_search_eq`, `radius_search_eq` and `polygon_search_eq`.
-/

namespace SoupDB

open RTreeNode

variable {K D : Type} [Field K] [LinearOrder K] [LinearOrder D]

/-! ## Metrics -/

/-- The distance of two points, and a bound on the distances to the points of a box. -/
structure SpatialMetric (K D : Type) where
  distance : Point K → Point K → D
  lowerBound : Point K → MBR K → D

omit [Field K] in
/-- The bound is at most the distance to any point in the box. -/
def SpatialMetric.Sound (metric : SpatialMetric K D) : Prop :=
  ∀ (center : Point K) (box : MBR K) (point : Point K), box.contains point = true →
    metric.lowerBound center box ≤ metric.distance center point

/-- The distance along one axis to the nearest point of an interval. -/
def axisGap (low high value : K) : K := max (max (low - value) 0) (value - high)

/-- The euclidean metric.  `hypot` takes the length of a vector with these components. -/
def euclideanMetric (hypot : K → K → D) : SpatialMetric K D where
  distance a b := hypot |a.x - b.x| |a.y - b.y|
  lowerBound center box :=
    hypot (axisGap box.minX box.maxX center.x) (axisGap box.minY box.maxY center.y)

/-- The euclidean metric does not bound distances too high, as longer sides give a longer
hypotenuse. -/
theorem euclidean_metric_sound [IsStrictOrderedRing K] {hypot : K → K → D}
    (hmono : ∀ x y x' y', 0 ≤ x → 0 ≤ y → x ≤ x' → y ≤ y' → hypot x y ≤ hypot x' y') :
    (euclideanMetric hypot).Sound := by
  have hgap : ∀ low high value atPoint : K, low ≤ atPoint → atPoint ≤ high →
      axisGap low high value ≤ |value - atPoint| := by
    intro low high value atPoint hlow hhigh
    rw [axisGap]
    refine max_le (max_le ?_ (abs_nonneg _)) ?_
    · rw [abs_sub_comm]
      exact le_trans (sub_le_sub_right hlow _) (le_abs_self _)
    · exact le_trans (sub_le_sub_left hhigh _) (le_abs_self _)
  have hnonneg : ∀ low high value : K, 0 ≤ axisGap low high value := fun low high value =>
    le_max_of_le_left (le_max_right _ _)
  intro center box point hcontains
  obtain ⟨hx, hy, hx', hy'⟩ := MBR.contains_iff.mp hcontains
  exact hmono _ _ _ _ (hnonneg _ _ _) (hnonneg _ _ _) (hgap _ _ _ _ hx hx') (hgap _ _ _ _ hy hy')

/-! ## The searches -/

omit [Field K] in
/-- The sides of a box must be the right way round. -/
def validateMbr (box : MBR K) : Except PyError (MBR K) :=
  if box.minX > box.maxX then
    .error (.ValueError "box.min_x must not exceed box.max_x")
  else if box.minY > box.maxY then
    .error (.ValueError "box.min_y must not exceed box.max_y")
  else .ok box

def validateRadius [Zero D] (radius : D) : Except PyError D :=
  if radius < 0 then .error (.ValueError "radius must be non-negative") else .ok radius

section Searches

variable (root : Option (RTreeNode K))

omit [Field K] in
def iterRangeEntries (box : MBR K) : Except PyError (List (Point K × RID)) := do
  let box ← validateMbr box
  searchFrom (fun child => child.intersects box) (fun point => box.contains point) root

omit [Field K] in
def iterRadiusEntries [Zero D] (center : Point K) (radius : D) (metric : SpatialMetric K D) :
    Except PyError (List (Point K × RID)) := do
  let radius ← validateRadius radius
  searchFrom (fun child => metric.lowerBound center child ≤ radius)
    (fun point => metric.distance center point ≤ radius) root

/-- The candidates are the points in the box of the polygon. -/
def iterPolygonEntries (polygon : Polygon2D K) : Except PyError (List (Point K × RID)) := do
  let candidates ← iterRangeEntries root polygon.bounds
  .ok (candidates.filter (fun e => pointInPolygon e.1 polygon true))

omit [Field K] in
def rangeSearch (box : MBR K) : Except PyError (List RID) := do
  let found ← iterRangeEntries root box
  .ok (found.map Prod.snd)

omit [Field K] in
def radiusSearch [Zero D] (center : Point K) (radius : D) (metric : SpatialMetric K D) :
    Except PyError (List RID) := do
  let found ← iterRadiusEntries root center radius metric
  .ok (found.map Prod.snd)

def polygonSearch (polygon : Polygon2D K) : Except PyError (List RID) := do
  let found ← iterPolygonEntries root polygon
  .ok (found.map Prod.snd)

end Searches

section Exact

variable {root : Option (RTreeNode K)}

omit [Field K] in
theorem iter_range_entries_eq (hroot : ∀ node ∈ root, RTreeNode.WellFormed node) (box : MBR K) :
    iterRangeEntries root box = (do
      let box ← validateMbr box
      .ok ((stored root).filter (fun e => box.contains e.1))) := by
  rw [iterRangeEntries]
  refine bind_congr fun box => ?_
  exact search_from_eq (fun child point hchild hbox =>
    MBR.intersects_of_contains hchild hbox) hroot

omit [Field K] in
theorem range_search_eq (hroot : ∀ node ∈ root, RTreeNode.WellFormed node) (box : MBR K) :
    rangeSearch root box = (do
      let box ← validateMbr box
      .ok (((stored root).filter (fun e => box.contains e.1)).map Prod.snd)) := by
  rw [rangeSearch, iter_range_entries_eq hroot, bind_assoc]
  rfl

variable {metric : SpatialMetric K D}

omit [Field K] in
theorem radius_search_eq [Zero D] (hroot : ∀ node ∈ root, RTreeNode.WellFormed node)
    (hsound : metric.Sound) (center : Point K) (radius : D) :
    radiusSearch root center radius metric = (do
      let radius ← validateRadius radius
      .ok (((stored root).filter
        (fun e => metric.distance center e.1 ≤ radius)).map Prod.snd)) := by
  have hentries : iterRadiusEntries root center radius metric = (do
      let radius ← validateRadius radius
      .ok ((stored root).filter (fun e => metric.distance center e.1 ≤ radius))) := by
    rw [iterRadiusEntries]
    refine bind_congr fun radius => ?_
    refine search_from_eq (fun child point hchild hkeep => ?_) hroot
    rw [decide_eq_true_iff] at hkeep ⊢
    exact (hsound center child point hchild).trans hkeep
  rw [radiusSearch, hentries, bind_assoc]
  rfl

/-- The box of a polygon is never refused. -/
theorem validate_bounds (polygon : Polygon2D K) :
    validateMbr polygon.bounds = .ok polygon.bounds := by
  rw [validateMbr, if_neg (not_lt.mpr polygon.bounds_le.1), if_neg (not_lt.mpr
    polygon.bounds_le.2)]

theorem polygon_search_eq (hroot : ∀ node ∈ root, RTreeNode.WellFormed node)
    (polygon : Polygon2D K) :
    polygonSearch root polygon =
      .ok (((stored root).filter
        (fun e => pointInPolygon e.1 polygon true)).map Prod.snd) := by
  have hinside : ∀ e : Point K × RID, (pointInPolygon e.1 polygon true &&
      polygon.bounds.contains e.1) = pointInPolygon e.1 polygon true := by
    intro e
    cases hcontains : polygon.bounds.contains e.1 with
    | true => rw [Bool.and_true]
    | false => rw [Bool.and_false, pointInPolygon, hcontains, Bool.not_false, if_pos rfl]
  rw [polygonSearch, iterPolygonEntries, iter_range_entries_eq hroot, validate_bounds]
  simp only [ok_bind, List.filter_filter, hinside]

/-- The searches over a well-formed tree are exact: each equals the test of every stored entry. -/
theorem spatial_searches_exact [Zero D] (hroot : ∀ node ∈ root, RTreeNode.WellFormed node)
    (hsound : metric.Sound) :
    (∀ box, rangeSearch root box = (do
      let box ← validateMbr box
      .ok (((stored root).filter (fun e => box.contains e.1)).map Prod.snd))) ∧
    (∀ center radius, radiusSearch root center radius metric = (do
      let radius ← validateRadius radius
      .ok (((stored root).filter
        (fun e => metric.distance center e.1 ≤ radius)).map Prod.snd))) ∧
    (∀ polygon, polygonSearch root polygon =
      .ok (((stored root).filter
        (fun e => pointInPolygon e.1 polygon true)).map Prod.snd)) :=
  ⟨range_search_eq hroot, radius_search_eq hroot hsound, polygon_search_eq hroot⟩

end Exact

/-! ### Four points -/

def fourInserts : List (RTree.Call ℚ) :=
  [.insert ⟨0, 0⟩ ⟨0, 0⟩, .insert ⟨3, 4⟩ ⟨0, 1⟩, .insert ⟨1, 2⟩ ⟨0, 2⟩, .insert ⟨4, 0⟩ ⟨1, 0⟩]

/-- A tree of two levels. -/
def fourPoints : RTree ℚ := exec RTree.step (RTree.empty 2) fourInserts

theorem wellFormed_four_points : ∀ node ∈ fourPoints.root, RTreeNode.WellFormed node := by
  have hsound : RTree.Sound 2 fourPoints :=
    (always_of_every_step (P := RTree.Sound 2)
      (fun t c h => (RTree.step_spec h (le_refl 2) c).1) fourInserts (RTree.sound_empty 2)).last
  intro node hnode
  obtain ⟨depth, hvalid⟩ := hsound.valid node hnode
  exact hvalid.wellFormed

/-- The length of a way along the axes. -/
def streets : SpatialMetric ℚ ℚ := euclideanMetric (fun x y => x + y)

theorem sound_streets : streets.Sound :=
  euclidean_metric_sound fun _ _ _ _ _ _ hx hy => add_le_add hx hy

theorem spatial_searches_exact_four_points :
    rangeSearch fourPoints.root ⟨0, 0, 1, 2⟩ = .ok [⟨0, 0⟩, ⟨0, 2⟩] ∧
      radiusSearch fourPoints.root ⟨1, 1⟩ 2 streets = .ok [⟨0, 0⟩, ⟨0, 2⟩] ∧
      polygonSearch fourPoints.root triangle = .ok [⟨0, 0⟩, ⟨0, 2⟩, ⟨1, 0⟩] := by
  obtain ⟨hrange, hradius, hpolygon⟩ := spatial_searches_exact wellFormed_four_points sound_streets
  exact ⟨(hrange _).trans (by decide +kernel), (hradius _ _).trans (by decide +kernel),
    (hpolygon _).trans (by decide +kernel)⟩

end SoupDB
