import SoupDB.Algorithms.Spatial.Geometry
import Mathlib.Data.List.Dedup
import Mathlib.Data.Int.ModEq

/-!
# SoupDB: polygons

A polygon is built from the list of its vertices, with or without the first one repeated at the
end, and carries the proof that its vertices have passed the checks.  The checks compare the
edges by their places; `accepted_iff` says the same by the ends of the edges, so that it is
plain that the list may be turned, reversed or moved.

Main facts: `accepted_iff`, `Accepted.rotate`, `Accepted.reverse` and `Accepted.translate`.
-/

namespace SoupDB

open List

variable {K : Type} [Field K] [LinearOrder K]

/-- The area the closed walk encloses, negative where it goes clockwise. -/
def signedArea (vertices : List (Point K)) : K :=
  (cyclicPairs vertices).foldl (fun area e => area + (e.1.x * e.2.y - e.2.x * e.1.y)) 0 / 2

/-- The edges that are not neighbours must not meet. -/
def validateSimple (vertices : List (Point K)) : Except PyError Unit :=
  let count := vertices.length
  let edges := (cyclicPairs vertices).zipIdx
  if edges.any (fun first => edges.any (fun second =>
      first.2 < second.2 && second.2 ≠ (first.2 + 1) % count &&
        first.2 ≠ (second.2 + 1) % count &&
        segmentsIntersect first.1.1 first.1.2 second.1.1 second.1.2)) then
    .error (.ValueError "polygon must not self-intersect")
  else .ok ()

/-- The checks on the vertices once the closing one is dropped. -/
def checkVertices (vertices : List (Point K)) : Except PyError Unit :=
  if vertices.length < 3 then
    .error (.ValueError "polygon must contain at least three vertices")
  else if vertices.dedup.length ≠ vertices.length then
    .error (.ValueError "polygon vertices must be distinct")
  else if signedArea vertices = 0 then
    .error (.ValueError "polygon area must be non-zero")
  else validateSimple vertices

omit [Field K] in
/-- An explicit copy of the first vertex at the end is dropped. -/
def dropClosing (vertices : List (Point K)) : List (Point K) :=
  if 2 ≤ vertices.length ∧ vertices.head? = vertices.getLast? then vertices.dropLast
  else vertices

def Accepted (vertices : List (Point K)) : Prop := checkVertices vertices = .ok ()

instance (vertices : List (Point K)) : Decidable (Accepted vertices) :=
  match h : checkVertices vertices with
  | .ok () => .isTrue h
  | .error _ => .isFalse fun hok => nomatch h.symm.trans hok

structure Polygon2D (K : Type) [Field K] [LinearOrder K] where
  vertices : List (Point K)
  accepted : Accepted vertices

/-- `Polygon2D(vertices)`. -/
def Polygon2D.construct (vertices : List (Point K)) : Except PyError (Polygon2D K) :=
  match h : checkVertices (dropClosing vertices) with
  | .ok () => .ok ⟨dropClosing vertices, h⟩
  | .error e => .error e

/-! ## The checks by the ends of the edges -/

/-- The edges have no end in common. -/
def EndsApart (e f : Point K × Point K) : Prop :=
  e.1 ≠ f.1 ∧ e.1 ≠ f.2 ∧ e.2 ≠ f.1 ∧ e.2 ≠ f.2

/-- Edges that have no end in common do not meet. -/
def ApartDisjoint (vertices : List (Point K)) : Prop :=
  ∀ e ∈ cyclicPairs vertices, ∀ f ∈ cyclicPairs vertices, EndsApart e f →
    ¬ ∃ point, OnSegment point e.1 e.2 ∧ OnSegment point f.1 f.2

section Accepted

variable [IsStrictOrderedRing K] {vertices : List (Point K)} {e f : Point K × Point K}

omit [Field K] [LinearOrder K] [IsStrictOrderedRing K] in
/-- Of distinct vertices, edges have no end in common exactly when they are not neighbours. -/
theorem apart_iff (hnodup : vertices.Nodup) {i j : Nat}
    (he : (cyclicPairs vertices)[i]? = some e) (hf : (cyclicPairs vertices)[j]? = some f) :
    EndsApart e f ↔ i ≠ j ∧ j ≠ (i + 1) % vertices.length ∧ i ≠ (j + 1) % vertices.length := by
  obtain ⟨hpi, he⟩ := List.getElem?_eq_some_iff.mp he
  obtain ⟨hpj, hf⟩ := List.getElem?_eq_some_iff.mp hf
  have hi : i < vertices.length := by rwa [length_cyclic_pairs] at hpi
  have hj : j < vertices.length := by rwa [length_cyclic_pairs] at hpj
  have hi' : (i + 1) % vertices.length < vertices.length := Nat.mod_lt _ (by omega)
  have hj' : (j + 1) % vertices.length < vertices.length := Nat.mod_lt _ (by omega)
  have hnext : (i + 1) % vertices.length = (j + 1) % vertices.length ↔ i = j := by
    constructor
    · intro h
      have hmod : i % vertices.length = j % vertices.length := Nat.ModEq.add_right_cancel' 1 h
      rwa [Nat.mod_eq_of_lt hi, Nat.mod_eq_of_lt hj] at hmod
    · rintro rfl
      rfl
  rw [← he, ← hf, getElem_cyclic_pairs vertices hpi hi hi', getElem_cyclic_pairs vertices hpj hj
    hj',
    EndsApart]
  simp only [ne_eq, hnodup.getElem_inj_iff, hnext]
  tauto

theorem validate_simple_iff (hnodup : vertices.Nodup) :
    validateSimple vertices = .ok () ↔ ApartDisjoint vertices := by
  have htest : validateSimple vertices = .ok () ↔ ∀ e i f j,
      (cyclicPairs vertices)[i]? = some e → (cyclicPairs vertices)[j]? = some f → i < j →
        j ≠ (i + 1) % vertices.length → i ≠ (j + 1) % vertices.length →
        ¬ ∃ point, OnSegment point e.1 e.2 ∧ OnSegment point f.1 f.2 := by
    rw [validateSimple]
    split_ifs with h
    · refine iff_of_false (by simp) (fun hall => ?_)
      obtain ⟨⟨e, i⟩, he, h⟩ := any_eq_true.mp h
      obtain ⟨⟨f, j⟩, hf, h⟩ := any_eq_true.mp h
      simp only [Bool.and_eq_true, decide_eq_true_iff, segments_intersect_iff] at h
      obtain ⟨⟨⟨hij, hji⟩, hji'⟩, hmeet⟩ := h
      exact hall e i f j (mem_zipIdx_iff_getElem?.mp he) (mem_zipIdx_iff_getElem?.mp hf)
        hij hji hji' hmeet
    · refine iff_of_true rfl (fun e i f j he hf hij hji hji' hmeet => h ?_)
      refine any_eq_true.mpr ⟨(e, i), mem_zipIdx_iff_getElem?.mpr he,
        any_eq_true.mpr ⟨(f, j), mem_zipIdx_iff_getElem?.mpr hf, ?_⟩⟩
      simp only [Bool.and_eq_true, decide_eq_true_iff, segments_intersect_iff]
      exact ⟨⟨⟨hij, hji⟩, hji'⟩, hmeet⟩
  rw [htest]
  constructor
  · intro h e he f hf hapart hmeet
    obtain ⟨i, hi⟩ := mem_iff_getElem?.mp he
    obtain ⟨j, hj⟩ := mem_iff_getElem?.mp hf
    obtain ⟨hne, hji, hij⟩ := (apart_iff hnodup hi hj).mp hapart
    rcases lt_or_gt_of_ne hne with hlt | hlt
    · exact h e i f j hi hj hlt hji hij hmeet
    · obtain ⟨point, he, hf⟩ := hmeet
      exact h f j e i hj hi hlt hij hji ⟨point, hf, he⟩
  · intro h e i f j hi hj hlt hji hij
    exact h e (mem_of_getElem? hi) f (mem_of_getElem? hj)
      ((apart_iff hnodup hi hj).mpr ⟨hlt.ne, hji, hij⟩)

theorem accepted_iff : Accepted vertices ↔ 3 ≤ vertices.length ∧ vertices.Nodup ∧
    signedArea vertices ≠ 0 ∧ ApartDisjoint vertices := by
  rw [Accepted, checkVertices]
  by_cases hlen : vertices.length < 3
  · rw [if_pos hlen]
    exact iff_of_false (by simp) (fun h => absurd h.1 (by omega))
  rw [if_neg hlen]
  by_cases hnodup : vertices.Nodup
  · rw [if_neg (by rw [hnodup.dedup]; exact fun h => h rfl)]
    by_cases harea : signedArea vertices = 0
    · rw [if_pos harea]
      exact iff_of_false (by simp) (fun h => h.2.2.1 harea)
    · rw [if_neg harea, validate_simple_iff hnodup]
      exact ⟨fun h => ⟨by omega, hnodup, harea, h⟩, fun h => h.2.2.2⟩
  · have hdedup : vertices.dedup.length ≠ vertices.length := by
      intro heq
      exact hnodup (dedup_eq_self.mp
        ((dedup_sublist vertices).eq_of_length heq))
    rw [if_pos hdedup]
    exact iff_of_false (by simp) (fun h => hnodup h.2.1)

/-! ## Turning, reversing and moving the list -/

section

omit [LinearOrder K] [IsStrictOrderedRing K]

theorem signed_area_eq (vertices : List (Point K)) : signedArea vertices =
    ((cyclicPairs vertices).map (fun e => e.1.x * e.2.y - e.2.x * e.1.y)).sum / 2 := by
  have hfold : ∀ (es : List (Point K × Point K)) (acc : K),
      es.foldl (fun area e => area + (e.1.x * e.2.y - e.2.x * e.1.y)) acc =
        acc + (es.map (fun e => e.1.x * e.2.y - e.2.x * e.1.y)).sum := by
    intro es
    induction es with
    | nil => simp
    | cons e es ih =>
        intro acc
        rw [foldl_cons, ih, map_cons, sum_cons, add_assoc]
  rw [signedArea, hfold, zero_add]

theorem signed_area_rotate (vertices : List (Point K)) (k : Nat) :
    signedArea (vertices.rotate k) = signedArea vertices := by
  rw [signed_area_eq, signed_area_eq,
    ((cyclic_pairs_rotate_perm vertices k).map _).sum_eq]

theorem signed_area_reverse (vertices : List (Point K)) :
    signedArea vertices.reverse = - signedArea vertices := by
  have hneg : ∀ es : List (Point K × Point K),
      ((es.map Prod.swap).map (fun e => e.1.x * e.2.y - e.2.x * e.1.y)).sum =
        - (es.map (fun e => e.1.x * e.2.y - e.2.x * e.1.y)).sum := by
    intro es
    induction es with
    | nil => simp
    | cons e es ih =>
        rw [map_cons, map_cons, sum_cons, ih, map_cons, sum_cons]
        simp only [Prod.fst_swap, Prod.snd_swap]
        ring
  rw [signed_area_eq, signed_area_eq, ((cyclic_pairs_reverse_perm vertices).map _).sum_eq, hneg,
    neg_div]

end

omit [LinearOrder K] in
/-- The point moved by a vector. -/
def Point.translate (byX byY : K) (point : Point K) : Point K :=
  ⟨point.x + byX, point.y + byY⟩

section

omit [LinearOrder K] [IsStrictOrderedRing K]

theorem Point.translate_injective (byX byY : K) :
    Function.Injective (Point.translate byX byY) := by
  intro p q h
  obtain ⟨hx, hy⟩ := Point.eq_iff.mp h
  exact Point.eq_iff.mpr ⟨add_right_cancel hx, add_right_cancel hy⟩

theorem signed_area_translate (byX byY : K) (vertices : List (Point K)) :
    signedArea (vertices.map (Point.translate byX byY)) = signedArea vertices := by
  have hterm : ∀ es : List (Point K × Point K),
      ((es.map (Prod.map (Point.translate byX byY) (Point.translate byX byY))).map
        (fun e => e.1.x * e.2.y - e.2.x * e.1.y)).sum =
        (es.map (fun e => e.1.x * e.2.y - e.2.x * e.1.y)).sum +
          (es.map (fun e => (byX * e.2.y - byY * e.2.x) - (byX * e.1.y - byY * e.1.x))).sum :=
            by
    intro es
    induction es with
    | nil => simp
    | cons e es ih =>
        simp only [map_cons, sum_cons] at ih ⊢
        rw [ih]
        simp only [Prod.map_fst, Prod.map_snd, Point.translate]
        ring
  rw [signed_area_eq, signed_area_eq, cyclic_pairs_map, hterm,
    sum_cyclic_pairs_sub (fun v : Point K => byX * v.y - byY * v.x), add_zero]

theorem onSegment_translate [LinearOrder K] {point a b : Point K} (byX byY : K) :
    OnSegment (point.translate byX byY) (a.translate byX byY) (b.translate byX byY) ↔
      OnSegment point a b := by
  have halong : ∀ t, along (a.translate byX byY) (b.translate byX byY) t =
      (along a b t).translate byX byY := by
    intro t
    refine Point.eq_iff.mpr ⟨?_, ?_⟩
    · simp only [along, Point.translate]
      ring
    · simp only [along, Point.translate]
      ring
  constructor
  · rintro ⟨t, ht, ht', h⟩
    rw [halong] at h
    exact ⟨t, ht, ht', Point.translate_injective byX byY h⟩
  · rintro ⟨t, ht, ht', rfl⟩
    exact ⟨t, ht, ht', (halong t).symm⟩

end

theorem Accepted.rotate (h : Accepted vertices) (k : Nat) : Accepted (vertices.rotate k) := by
  obtain ⟨hlen, hnodup, harea, hdisjoint⟩ := accepted_iff.mp h
  refine accepted_iff.mpr ⟨by rwa [length_rotate], nodup_rotate.mpr hnodup,
    by rwa [signed_area_rotate], fun e he f hf => ?_⟩
  have hperm := cyclic_pairs_rotate_perm vertices k
  exact hdisjoint e (hperm.mem_iff.mp he) f (hperm.mem_iff.mp hf)

theorem Accepted.reverse (h : Accepted vertices) : Accepted vertices.reverse := by
  obtain ⟨hlen, hnodup, harea, hdisjoint⟩ := accepted_iff.mp h
  refine accepted_iff.mpr ⟨by rwa [length_reverse], nodup_reverse.mpr hnodup,
    by rw [signed_area_reverse]; exact neg_ne_zero.mpr harea, fun e he f hf hapart hmeet => ?_⟩
  have hperm := cyclic_pairs_reverse_perm vertices
  obtain ⟨e, hmem, rfl⟩ := mem_map.mp (hperm.mem_iff.mp he)
  obtain ⟨f, hmem', rfl⟩ := mem_map.mp (hperm.mem_iff.mp hf)
  obtain ⟨point, hpe, hpf⟩ := hmeet
  obtain ⟨h₁, h₂, h₃, h₄⟩ := hapart
  exact hdisjoint e hmem f hmem' ⟨h₄, h₃, h₂, h₁⟩ ⟨point, hpe.symm, hpf.symm⟩

theorem Accepted.translate (h : Accepted vertices) (byX byY : K) :
    Accepted (vertices.map (Point.translate byX byY)) := by
  obtain ⟨hlen, hnodup, harea, hdisjoint⟩ := accepted_iff.mp h
  have hinj := Point.translate_injective byX byY
  refine accepted_iff.mpr ⟨by rwa [length_map], hnodup.map hinj,
    by rwa [signed_area_translate], fun e he f hf hapart hmeet => ?_⟩
  rw [cyclic_pairs_map] at he hf
  obtain ⟨e, hmem, rfl⟩ := mem_map.mp he
  obtain ⟨f, hmem', rfl⟩ := mem_map.mp hf
  obtain ⟨point, hpe, hpf⟩ := hmeet
  -- the point moved back
  have hback : point = (point.translate (-byX) (-byY)).translate byX byY := by
    refine Point.eq_iff.mpr ⟨?_, ?_⟩
    · simp only [Point.translate, neg_add_cancel_right]
    · simp only [Point.translate, neg_add_cancel_right]
  rw [hback] at hpe hpf
  have hmoved : ∀ {a b : Point K}, a.translate byX byY ≠ b.translate byX byY → a ≠ b :=
    fun hne heq => hne (congrArg (Point.translate byX byY) heq)
  exact hdisjoint e hmem f hmem'
    ⟨hmoved hapart.1, hmoved hapart.2.1, hmoved hapart.2.2.1, hmoved hapart.2.2.2⟩
    ⟨_, (onSegment_translate byX byY).mp hpe, (onSegment_translate byX byY).mp hpf⟩

end Accepted

/-! ## Polygons -/

namespace Polygon2D

theorem vertices_ne_nil (p : Polygon2D K) : p.vertices ≠ [] := by
  intro h
  have haccepted := p.accepted
  rw [h, Accepted, checkVertices, length_nil, if_pos (by omega)] at haccepted
  cases haccepted

/-- The smallest box around the vertices. -/
def bounds (p : Polygon2D K) : MBR K :=
  ⟨(p.vertices.map Point.x).min (by simp [p.vertices_ne_nil]),
    (p.vertices.map Point.y).min (by simp [p.vertices_ne_nil]),
    (p.vertices.map Point.x).max (by simp [p.vertices_ne_nil]),
    (p.vertices.map Point.y).max (by simp [p.vertices_ne_nil])⟩

theorem bounds_contains_iff {p : Polygon2D K} {point : Point K} :
    p.bounds.contains point = true ↔
      ((∃ v ∈ p.vertices, v.x ≤ point.x) ∧ ∃ v ∈ p.vertices, point.x ≤ v.x) ∧
        (∃ v ∈ p.vertices, v.y ≤ point.y) ∧ ∃ v ∈ p.vertices, point.y ≤ v.y := by
  have hmin : ∀ (f : Point K → K) (h : p.vertices.map f ≠ []) (c : K),
      (p.vertices.map f).min h ≤ c ↔ ∃ v ∈ p.vertices, f v ≤ c := by
    intro f h c
    constructor
    · intro hle
      obtain ⟨v, hv, heq⟩ := mem_map.mp (min_mem h)
      exact ⟨v, hv, heq ▸ hle⟩
    · rintro ⟨v, hv, hle⟩
      exact (min_le_of_mem (mem_map_of_mem hv)).trans hle
  have hmax : ∀ (f : Point K → K) (h : p.vertices.map f ≠ []) (c : K),
      c ≤ (p.vertices.map f).max h ↔ ∃ v ∈ p.vertices, c ≤ f v := by
    intro f h c
    constructor
    · intro hle
      obtain ⟨v, hv, heq⟩ := mem_map.mp (max_mem h)
      exact ⟨v, hv, heq ▸ hle⟩
    · rintro ⟨v, hv, hle⟩
      exact hle.trans (le_max_of_mem (mem_map_of_mem hv))
  simp only [bounds, MBR.contains, Bool.and_eq_true, decide_eq_true_iff, hmin, hmax]
  tauto

/-- The boxes of points and polygons with a vertex on each side are proper. -/
theorem bounds_le (p : Polygon2D K) :
    p.bounds.minX ≤ p.bounds.maxX ∧ p.bounds.minY ≤ p.bounds.maxY := by
  obtain ⟨v, hv⟩ := exists_mem_of_ne_nil _ p.vertices_ne_nil
  have hx : v.x ∈ p.vertices.map Point.x := mem_map_of_mem hv
  have hy : v.y ∈ p.vertices.map Point.y := mem_map_of_mem hv
  exact ⟨(min_le_of_mem hx).trans (le_max_of_mem hx),
    (min_le_of_mem hy).trans (le_max_of_mem hy)⟩

section Moves

variable [IsStrictOrderedRing K] (p : Polygon2D K)

/-- The same polygon with its vertices listed from another one on. -/
def rotate (k : Nat) : Polygon2D K := ⟨p.vertices.rotate k, p.accepted.rotate k⟩

/-- The same polygon in the other direction. -/
def reverse : Polygon2D K := ⟨p.vertices.reverse, p.accepted.reverse⟩

/-- The polygon moved by a vector. -/
def translate (byX byY : K) : Polygon2D K :=
  ⟨p.vertices.map (Point.translate byX byY), p.accepted.translate byX byY⟩

end Moves

end Polygon2D

end SoupDB
