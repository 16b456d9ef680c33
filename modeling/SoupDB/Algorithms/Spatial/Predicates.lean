import SoupDB.Algorithms.Spatial.Polygon

/-!
# SoupDB: points in polygons

A point off the boundary lies inside a polygon when the ray from it to the right crosses the
boundary an odd number of times.  The code counts an edge where it passes from one side of the
ray to the other, a vertex on the ray being below it.  `Crosses` says the same of the edges as
sets of points: an edge lacks its upper end, so a horizontal one is empty.

Points outside the box of the polygon are turned away before the count.  This is no mistake, as
a closed walk crosses a line evenly often.

Main fact: `point_in_polygon_eq`.
-/

namespace SoupDB

variable {K : Type} [Field K] [LinearOrder K]

/-! ## The predicate -/

section Scan

variable (point : Point K) (includeBoundary : Bool)

/-- The edge passes from one side of the ray to the other. -/
def crossesRay (e : Point K × Point K) : Bool :=
  decide (e.1.y > point.y) != decide (e.2.y > point.y)

/-- Where the edge meets the line of the ray. -/
def intersectionX (e : Point K × Point K) : K :=
  e.1.x + (point.y - e.1.y) * (e.2.x - e.1.x) / (e.2.y - e.1.y)

/-- The loop over the edges. -/
def scanEdges : List (Point K × Point K) → Bool → Bool
  | [], inside => inside
  | e :: edges, inside =>
      if pointOnSegment point e.1 e.2 then includeBoundary
      else if !crossesRay point e then scanEdges edges inside
      else if point.x < intersectionX point e then scanEdges edges (!inside)
      else scanEdges edges inside

end Scan

/-- Points outside the box of the polygon are turned away at once. -/
def pointInPolygon (point : Point K) (polygon : Polygon2D K) (includeBoundary : Bool) : Bool :=
  if !polygon.bounds.contains point then false
  else scanEdges point includeBoundary (cyclicPairs polygon.vertices) false

/-! ## The crossings -/

/-- The ray from the point to the right meets the edge below its upper end. -/
def Crosses (point : Point K) (e : Point K × Point K) : Prop :=
  ∃ q, OnSegment q e.1 e.2 ∧ q.y < max e.1.y e.2.y ∧ q.y = point.y ∧ point.x < q.x

/-- The point lies on an edge or is a vertex. -/
def OnBoundary (point : Point K) (polygon : Polygon2D K) : Prop :=
  ∃ e ∈ cyclicPairs polygon.vertices, OnSegment point e.1 e.2

section Crossings

variable [IsStrictOrderedRing K] {point : Point K} {e : Point K × Point K}
  {edges : List (Point K × Point K)} {includeBoundary inside : Bool}

omit [Field K] [IsStrictOrderedRing K] in
theorem crosses_ray_iff : crossesRay point e = true ↔
    e.1.y ≤ point.y ∧ point.y < e.2.y ∨ e.2.y ≤ point.y ∧ point.y < e.1.y := by
  rw [crossesRay]
  by_cases h₁ : e.1.y > point.y
  · by_cases h₂ : e.2.y > point.y
    · simp [h₁, h₂, not_le.mpr h₁, not_le.mpr h₂]
    · simp [h₁, h₂, not_lt.mp h₂]
  · by_cases h₂ : e.2.y > point.y
    · simp [h₁, h₂, not_lt.mp h₁]
    · simp [h₁, h₂]

/-- The test on the edge says exactly whether it is crossed. -/
theorem crosses_iff : Crosses point e ↔
    (crossesRay point e && decide (point.x < intersectionX point e)) = true := by
  rw [Bool.and_eq_true, decide_eq_true_iff, crosses_ray_iff]
  constructor
  · rintro ⟨q, hq, hmax, hy, hx⟩
    have hmin := (in_box_iff.mp (in_box_of_onSegment hq)).2.1
    rw [hy] at hmax hmin
    obtain ⟨t, ht, ht', rfl⟩ := hq
    have hne : e.2.y - e.1.y ≠ 0 := by
      intro hzero
      rw [sub_eq_zero.mp hzero, min_self] at hmin
      rw [sub_eq_zero.mp hzero, max_self] at hmax
      exact absurd hmin (not_le.mpr hmax)
    refine ⟨?_, ?_⟩
    · rcases le_total e.1.y e.2.y with hle | hle
      · rw [min_eq_left hle] at hmin
        rw [max_eq_right hle] at hmax
        exact Or.inl ⟨hmin, hmax⟩
      · rw [min_eq_right hle] at hmin
        rw [max_eq_left hle] at hmax
        exact Or.inr ⟨hmin, hmax⟩
    · have hmeet : intersectionX point e = (along e.1 e.2 t).x := by
        rw [intersectionX, ← hy]
        simp only [along]
        field_simp
        ring
      rwa [hmeet]
  · rintro ⟨hside, hx⟩
    have hne : e.2.y - e.1.y ≠ 0 := by
      intro hzero
      rw [sub_eq_zero.mp hzero] at hside
      rcases hside with ⟨h, h'⟩ | ⟨h, h'⟩
      · exact absurd h (not_le.mpr h')
      · exact absurd h (not_le.mpr h')
    refine ⟨along e.1 e.2 ((point.y - e.1.y) / (e.2.y - e.1.y)), ⟨_, ?_, ?_, rfl⟩, ?_, ?_, ?_⟩
    · rcases hside with ⟨h, h'⟩ | ⟨h, h'⟩
      · exact div_nonneg (by linarith) (by linarith)
      · exact div_nonneg_of_nonpos (by linarith) (by linarith)
    · rcases hside with ⟨h, h'⟩ | ⟨h, h'⟩
      · exact (div_le_one (by linarith)).mpr (by linarith)
      · exact (div_le_one_of_neg (by linarith)).mpr (by linarith)
    · rw [along, div_mul_cancel₀ _ hne, add_sub_cancel]
      rcases hside with ⟨_, h'⟩ | ⟨_, h'⟩
      · exact lt_max_of_lt_right h'
      · exact lt_max_of_lt_left h'
    · rw [along, div_mul_cancel₀ _ hne, add_sub_cancel]
    · have hmeet : (along e.1 e.2 ((point.y - e.1.y) / (e.2.y - e.1.y))).x =
          intersectionX point e := by
        rw [along, intersectionX, div_mul_eq_mul_div]
      rwa [hmeet]

instance (point : Point K) (e : Point K × Point K) : Decidable (Crosses point e) :=
  decidable_of_iff _ crosses_iff.symm

/-- How often the boundary is crossed on the way to the right. -/
def crossings (point : Point K) (polygon : Polygon2D K) : Nat :=
  (cyclicPairs polygon.vertices).countP (fun e => Crosses point e)

/-- The loop stops at the first edge the point is on. -/
theorem scan_edges_of_on (h : ∃ e ∈ edges, OnSegment point e.1 e.2) :
    scanEdges point includeBoundary edges inside = includeBoundary := by
  induction edges generalizing inside with
  | nil => obtain ⟨e, he, _⟩ := h; cases he
  | cons e edges ih =>
      rw [scanEdges]
      split_ifs with hon hray hx
      · rfl
      all_goals
        obtain ⟨e', he', hon'⟩ := h
        rcases List.mem_cons.mp he' with rfl | he'
        · exact absurd (point_on_segment_iff.mpr hon') hon
        · exact ih ⟨e', he', hon'⟩

/-- And changes sides at every edge that is crossed. -/
theorem scan_edges_of_off (h : ∀ e ∈ edges, ¬ OnSegment point e.1 e.2) :
    scanEdges point includeBoundary edges inside =
      (inside ^^ decide (Odd (edges.countP (fun e => Crosses point e)))) := by
  induction edges generalizing inside with
  | nil => simp [scanEdges]
  | cons e edges ih =>
      obtain ⟨he, hedges⟩ := List.forall_mem_cons.mp h
      have hon : ¬ pointOnSegment point e.1 e.2 = true := fun hon =>
        he (point_on_segment_iff.mp hon)
      rw [scanEdges, if_neg hon]
      by_cases hcrosses : Crosses point e
      · have hboth := crosses_iff.mp hcrosses
        rw [Bool.and_eq_true, decide_eq_true_iff] at hboth
        rw [if_neg (by simp [hboth.1]), if_pos hboth.2, ih hedges,
          List.countP_cons_of_pos (by simpa using hcrosses)]
        have hodd : decide (Odd (edges.countP (fun e => decide (Crosses point e)) + 1)) =
            !decide (Odd (edges.countP (fun e => decide (Crosses point e)))) := by
          rw [← decide_not]
          exact decide_eq_decide.mpr Nat.odd_add_one
        rw [hodd, Bool.not_xor, Bool.xor_not]
      · rw [List.countP_cons_of_neg (by simpa using hcrosses)]
        rw [crosses_iff, Bool.and_eq_true, decide_eq_true_iff, not_and] at hcrosses
        by_cases hray : crossesRay point e = true
        · rw [if_neg (by simp [hray]), if_neg (hcrosses hray), ih hedges]
        · rw [if_pos (by simpa using hray), ih hedges]

variable {polygon : Polygon2D K}

theorem bounds_contains_of_onBoundary (h : OnBoundary point polygon) :
    polygon.bounds.contains point = true := by
  obtain ⟨e, he, hon⟩ := h
  obtain ⟨hx, hy⟩ := in_box_iff.mp (in_box_of_onSegment hon)
  have hends : ∀ v, v = e.1 ∨ v = e.2 → v ∈ polygon.vertices := by
    rintro v (rfl | rfl)
    · exact fst_mem_of_cyclic_pairs he
    · exact snd_mem_of_cyclic_pairs he
  have hleast : ∀ (f : Point K → K), min (f e.1) (f e.2) ≤ f point →
      ∃ v ∈ polygon.vertices, f v ≤ f point := by
    intro f hle
    rcases min_le_iff.mp hle with hle | hle
    · exact ⟨e.1, hends _ (Or.inl rfl), hle⟩
    · exact ⟨e.2, hends _ (Or.inr rfl), hle⟩
  have hmost : ∀ (f : Point K → K), f point ≤ max (f e.1) (f e.2) →
      ∃ v ∈ polygon.vertices, f point ≤ f v := by
    intro f hle
    rcases le_max_iff.mp hle with hle | hle
    · exact ⟨e.1, hends _ (Or.inl rfl), hle⟩
    · exact ⟨e.2, hends _ (Or.inr rfl), hle⟩
  exact Polygon2D.bounds_contains_iff.mpr
    ⟨⟨hleast _ hx.1, hmost _ hx.2⟩, hleast _ hy.1, hmost _ hy.2⟩

/-- The edges that are crossed lie to the right at some end and pass the ray. -/
theorem Crosses.ends (h : Crosses point e) :
    (point.x < e.1.x ∨ point.x < e.2.x) ∧ crossesRay point e = true := by
  have hray : crossesRay point e = true := (Bool.and_eq_true _ _ |>.mp (crosses_iff.mp h)).1
  obtain ⟨q, hq, _, _, hx⟩ := h
  have hmax := (in_box_iff.mp (in_box_of_onSegment hq)).1.2
  exact ⟨lt_max_iff.mp (hx.trans_le hmax), hray⟩

/-- An edge with both ends to the right is crossed when it passes the ray. -/
theorem crosses_of_right (h₁ : point.x < e.1.x) (h₂ : point.x < e.2.x)
    (hray : crossesRay point e = true) : Crosses point e := by
  rw [crosses_iff, hray, Bool.true_and, decide_eq_true_iff]
  by_contra hle
  have hne : e.2.y - e.1.y ≠ 0 := by
    intro hzero
    rcases crosses_ray_iff.mp hray with ⟨h, h'⟩ | ⟨h, h'⟩
    · rw [sub_eq_zero.mp hzero] at h'
      exact absurd h (not_le.mpr h')
    · rw [sub_eq_zero.mp hzero] at h
      exact absurd h (not_le.mpr h')
  -- the place on the edge at the height of the ray
  have hpart : 0 ≤ (point.y - e.1.y) / (e.2.y - e.1.y) ∧
      (point.y - e.1.y) / (e.2.y - e.1.y) ≤ 1 := by
    rcases crosses_ray_iff.mp hray with ⟨h, h'⟩ | ⟨h, h'⟩
    · exact ⟨div_nonneg (by linarith) (by linarith), (div_le_one (by linarith)).mpr (by linarith)⟩
    · exact ⟨div_nonneg_of_nonpos (by linarith) (by linarith),
        (div_le_one_of_neg (by linarith)).mpr (by linarith)⟩
  have hleast := (between_along (u := e.1.x) (v := e.2.x) hpart.1 hpart.2).1
  rw [div_mul_eq_mul_div] at hleast
  exact hle ((lt_min h₁ h₂).trans_le hleast)

theorem even_crossings_of_outside (h : ¬ polygon.bounds.contains point = true) :
    Even (crossings point polygon) := by
  rw [Polygon2D.bounds_contains_iff] at h
  have hnone : (∀ e ∈ cyclicPairs polygon.vertices, ¬ Crosses point e) →
      Even (crossings point polygon) := by
    intro hall
    have hzero : crossings point polygon = 0 :=
      List.countP_eq_zero.mpr fun e he => by simpa using hall e he
    rw [hzero]
    exact Even.zero
  by_cases hleft : ∃ v ∈ polygon.vertices, v.x ≤ point.x
  · by_cases hright : ∃ v ∈ polygon.vertices, point.x ≤ v.x
    · -- the ray is above or below all vertices
      refine hnone fun e he hcrosses => ?_
      have hfst := fst_mem_of_cyclic_pairs he
      have hsnd := snd_mem_of_cyclic_pairs he
      rcases crosses_ray_iff.mp hcrosses.ends.2 with ⟨hle, hlt⟩ | ⟨hle, hlt⟩
      · exact h ⟨⟨hleft, hright⟩, ⟨e.1, hfst, hle⟩, e.2, hsnd, hlt.le⟩
      · exact h ⟨⟨hleft, hright⟩, ⟨e.2, hsnd, hle⟩, e.1, hfst, hlt.le⟩
    · refine hnone fun e he hcrosses => ?_
      rcases hcrosses.ends.1 with hlt | hlt
      · exact hright ⟨e.1, fst_mem_of_cyclic_pairs he, hlt.le⟩
      · exact hright ⟨e.2, snd_mem_of_cyclic_pairs he, hlt.le⟩
  · -- every edge that passes the ray is crossed, and a closed walk passes it evenly often
    have hall : ∀ v ∈ polygon.vertices, point.x < v.x := by
      intro v hv
      by_contra hle
      exact hleft ⟨v, hv, not_lt.mp hle⟩
    have hcount : crossings point polygon =
        (cyclicPairs polygon.vertices).countP (fun e => crossesRay point e) := by
      refine List.countP_congr fun e he => ?_
      rw [decide_eq_true_iff]
      exact ⟨fun hcrosses => hcrosses.ends.2, crosses_of_right
        (hall _ (fst_mem_of_cyclic_pairs he)) (hall _ (snd_mem_of_cyclic_pairs he))⟩
    rw [hcount]
    exact even_countP_changes (fun v => decide (v.y > point.y)) polygon.vertices

theorem point_in_polygon_on (h : OnBoundary point polygon) :
    pointInPolygon point polygon includeBoundary = includeBoundary := by
  rw [pointInPolygon, bounds_contains_of_onBoundary h, Bool.not_true,
    if_neg Bool.false_ne_true, scan_edges_of_on h]

theorem point_in_polygon_off (h : ¬ OnBoundary point polygon) :
    pointInPolygon point polygon includeBoundary = true ↔ Odd (crossings point polygon) := by
  rw [pointInPolygon]
  by_cases hcontains : polygon.bounds.contains point = true
  · have hoff : ∀ e ∈ cyclicPairs polygon.vertices, ¬ OnSegment point e.1 e.2 :=
      fun e he hon => h ⟨e, he, hon⟩
    rw [hcontains, Bool.not_true, if_neg Bool.false_ne_true, scan_edges_of_off hoff,
      Bool.false_xor, decide_eq_true_iff, crossings]
  · rw [Bool.eq_false_of_not_eq_true hcontains, Bool.not_false, if_pos rfl]
    exact iff_of_false Bool.false_ne_true
      (Nat.not_odd_iff_even.mpr (even_crossings_of_outside hcontains))

/-! ## The same polygon in another way -/

theorem point_in_polygon_congr {polygon' : Polygon2D K} {point' : Point K}
    (hon : OnBoundary point' polygon' ↔ OnBoundary point polygon)
    (hcrossings : crossings point' polygon' = crossings point polygon) :
    pointInPolygon point' polygon' includeBoundary =
      pointInPolygon point polygon includeBoundary := by
  by_cases h : OnBoundary point polygon
  · rw [point_in_polygon_on h, point_in_polygon_on (hon.mpr h)]
  · rw [Bool.eq_iff_iff, point_in_polygon_off h, point_in_polygon_off (fun h' => h (hon.mp h')),
      hcrossings]

theorem point_in_polygon_rotate (k : Nat) :
    pointInPolygon point (polygon.rotate k) includeBoundary =
      pointInPolygon point polygon includeBoundary := by
  have hperm := cyclic_pairs_rotate_perm polygon.vertices k
  refine point_in_polygon_congr ?_ (hperm.countP_eq _)
  exact exists_congr fun e => and_congr_left' hperm.mem_iff

theorem crosses_swap : Crosses point e.swap ↔ Crosses point e := by
  simp only [Crosses, Prod.fst_swap, Prod.snd_swap, max_comm e.2.y e.1.y,
    onSegment_comm (a := e.2) (b := e.1)]

theorem point_in_polygon_reverse :
    pointInPolygon point polygon.reverse includeBoundary =
      pointInPolygon point polygon includeBoundary := by
  have hperm := cyclic_pairs_reverse_perm polygon.vertices
  refine point_in_polygon_congr ?_ ?_
  · constructor
    · rintro ⟨e, he, hon⟩
      obtain ⟨e, hmem, rfl⟩ := List.mem_map.mp (hperm.mem_iff.mp he)
      exact ⟨e, hmem, hon.symm⟩
    · rintro ⟨e, he, hon⟩
      exact ⟨e.swap, hperm.mem_iff.mpr (List.mem_map_of_mem he), hon.symm⟩
  · rw [crossings, Polygon2D.reverse, hperm.countP_eq, List.countP_map, crossings]
    refine List.countP_congr fun e _ => ?_
    rw [Function.comp_apply, decide_eq_true_iff, decide_eq_true_iff, crosses_swap]

theorem crosses_translate (byX byY : K) :
    Crosses (point.translate byX byY) (e.1.translate byX byY, e.2.translate byX byY) ↔
      Crosses point e := by
  have hray : crossesRay (point.translate byX byY)
      (e.1.translate byX byY, e.2.translate byX byY) = crossesRay point e := by
    simp only [crossesRay, Point.translate, gt_iff_lt, add_lt_add_iff_right]
  have hmeet : intersectionX (point.translate byX byY)
      (e.1.translate byX byY, e.2.translate byX byY) = intersectionX point e + byX := by
    simp only [intersectionX, Point.translate, add_sub_add_right_eq_sub]
    ring
  rw [crosses_iff, crosses_iff, Bool.and_eq_true, Bool.and_eq_true, decide_eq_true_iff,
    decide_eq_true_iff, hray, hmeet]
  exact and_congr_right' (add_lt_add_iff_right byX)

theorem point_in_polygon_translate (byX byY : K) :
    pointInPolygon (point.translate byX byY) (polygon.translate byX byY) includeBoundary =
      pointInPolygon point polygon includeBoundary := by
  refine point_in_polygon_congr ?_ ?_
  · rw [OnBoundary, Polygon2D.translate, cyclic_pairs_map]
    constructor
    · rintro ⟨e, he, hon⟩
      obtain ⟨e, hmem, rfl⟩ := List.mem_map.mp he
      exact ⟨e, hmem, (onSegment_translate byX byY).mp hon⟩
    · rintro ⟨e, he, hon⟩
      exact ⟨_, List.mem_map_of_mem he, (onSegment_translate byX byY).mpr hon⟩
  · rw [crossings, Polygon2D.translate, cyclic_pairs_map, List.countP_map, crossings]
    refine List.countP_congr fun e _ => ?_
    rw [Function.comp_apply, decide_eq_true_iff, decide_eq_true_iff]
    exact crosses_translate byX byY

/-- The answer does not depend on how the vertices are listed or where the polygon lies; it is
as asked on the boundary, and elsewhere true when the ray crosses it an odd number of times. -/
theorem point_in_polygon_exact (point : Point K) (polygon : Polygon2D K)
    (includeBoundary : Bool) :
    (∀ k, pointInPolygon point (polygon.rotate k) includeBoundary =
        pointInPolygon point polygon includeBoundary) ∧
      pointInPolygon point polygon.reverse includeBoundary =
        pointInPolygon point polygon includeBoundary ∧
      (∀ byX byY, pointInPolygon (point.translate byX byY)
          (polygon.translate byX byY) includeBoundary =
        pointInPolygon point polygon includeBoundary) ∧
      (OnBoundary point polygon →
        pointInPolygon point polygon includeBoundary = includeBoundary) ∧
      (¬ OnBoundary point polygon →
        (pointInPolygon point polygon includeBoundary = true ↔
          Odd (crossings point polygon))) :=
  ⟨point_in_polygon_rotate, point_in_polygon_reverse, point_in_polygon_translate,
    point_in_polygon_on, point_in_polygon_off⟩

end Crossings

/-- A triangle with a right angle at the origin. -/
def triangle : Polygon2D ℚ := ⟨[⟨0, 0⟩, ⟨4, 0⟩, ⟨0, 4⟩], by decide +kernel⟩

/-- A corner is on the boundary, and the ray from a point inside leaves through one side. -/
theorem point_in_polygon_exact_triangle :
    pointInPolygon ⟨0, 4⟩ triangle false = false ∧
      pointInPolygon ⟨1, 2⟩ triangle false = true := by
  have hcorner : OnBoundary ⟨0, 4⟩ triangle := by
    refine ⟨(⟨4, 0⟩, ⟨0, 4⟩), ?_, onSegment_right _ _⟩
    rw [triangle, cyclicPairs]
    decide +kernel
  have hoff : ¬ OnBoundary ⟨1, 2⟩ triangle := by
    have hall : ∀ e ∈ cyclicPairs triangle.vertices,
        pointOnSegment ⟨1, 2⟩ e.1 e.2 = false := by
      decide +kernel
    rintro ⟨e, he, hon⟩
    rw [← point_on_segment_iff, hall e he] at hon
    cases hon
  exact ⟨(point_in_polygon_exact _ triangle false).2.2.2.1 hcorner,
    ((point_in_polygon_exact _ triangle false).2.2.2.2 hoff).mpr (by decide +kernel)⟩

end SoupDB
