import SoupDB.Indexes.RTree
import SoupDB.Lib.CyclicPairs
import Mathlib.Tactic.FieldSimp
import Mathlib.Tactic.Linarith
import Mathlib.Tactic.LinearCombination
import Mathlib.Tactic.Ring

/-!
# SoupDB: segments and polygons

Whether a point lies on a segment and whether two segments meet are read off the signs of
cross products and off the boxes of the segments.  `OnSegment` says what is meant: the point is
reached on the straight way from one end to the other.

A polygon is built from the list of its vertices, with or without the first one repeated at the
end.  It carries the proof that its vertices have passed the checks.

Main facts: `point_on_segment_iff` and `segments_intersect_iff`.
-/

namespace SoupDB

variable {K : Type} [Field K] [LinearOrder K]

/-! ## Segments -/

omit [LinearOrder K] in
/-- Twice the area of the triangle, positive where it turns left. -/
def cross (a b c : Point K) : K := (b.x - a.x) * (c.y - a.y) - (b.y - a.y) * (c.x - a.x)

/-- Whether the point lies in the smallest box around the two ends. -/
def inBox (point a b : Point K) : Bool :=
  min a.x b.x ≤ point.x && point.x ≤ max a.x b.x &&
    (min a.y b.y ≤ point.y && point.y ≤ max a.y b.y)

def pointOnSegment (point a b : Point K) : Bool := cross a b point = 0 && inBox point a b

def segmentsIntersect (a b c d : Point K) : Bool :=
  let ab_c := cross a b c
  let ab_d := cross a b d
  let cd_a := cross c d a
  let cd_b := cross c d b
  if (ab_c > 0 ∧ ab_d < 0 ∨ ab_c < 0 ∧ ab_d > 0) ∧ (cd_a > 0 ∧ cd_b < 0 ∨ cd_a < 0 ∧ cd_b > 0) then
    true
  else
    ab_c = 0 && pointOnSegment c a b || ab_d = 0 && pointOnSegment d a b ||
      cd_a = 0 && pointOnSegment a c d || cd_b = 0 && pointOnSegment b c d

/-- The point at a part of the way from `a` to `b`. -/
def along (a b : Point K) (t : K) : Point K := ⟨a.x + t * (b.x - a.x), a.y + t * (b.y - a.y)⟩

/-- The point lies on the segment, ends included. -/
def OnSegment (point a b : Point K) : Prop := ∃ t, 0 ≤ t ∧ t ≤ 1 ∧ point = along a b t

section Segments

variable [IsStrictOrderedRing K] {a b c d point : Point K}

section

omit [LinearOrder K] [IsStrictOrderedRing K]

omit [Field K] in
theorem Point.eq_iff {p q : Point K} : p = q ↔ p.x = q.x ∧ p.y = q.y := by
  cases p
  cases q
  rw [Point.mk.injEq]

theorem cross_along (a b c d : Point K) (t : K) :
    cross a b (along c d t) = (1 - t) * cross a b c + t * cross a b d := by
  rw [cross, cross, cross, along]
  ring

theorem cross_self_along (a b : Point K) (t : K) : cross a b (along a b t) = 0 := by
  rw [cross, along]
  ring

/-- What four points have in common when taken two by two. -/
theorem cross_sub_cross (a b c d : Point K) :
    cross c d a - cross c d b = cross a b d - cross a b c := by
  simp only [cross]
  ring

theorem exists_along_of_cross (hab : a ≠ b) (h : cross a b point = 0) : ∃ t, point = along a b t :=
    by
  rw [cross] at h
  by_cases hx : b.x - a.x = 0
  · have hy : b.y - a.y ≠ 0 := by
      intro hy
      exact hab (Point.eq_iff.mpr ⟨(sub_eq_zero.mp hx).symm, (sub_eq_zero.mp hy).symm⟩)
    refine ⟨(point.y - a.y) / (b.y - a.y), Point.eq_iff.mpr ⟨?_, ?_⟩⟩
    · rw [hx, zero_mul, zero_sub, neg_eq_zero, mul_eq_zero, or_iff_right hy, sub_eq_zero] at h
      rw [along, hx, mul_zero, add_zero, h]
    · rw [along, div_mul_cancel₀ _ hy, add_sub_cancel]
  · refine ⟨(point.x - a.x) / (b.x - a.x), Point.eq_iff.mpr ⟨?_, ?_⟩⟩
    · rw [along, div_mul_cancel₀ _ hx, add_sub_cancel]
    · rw [along]
      field_simp
      linear_combination h

end

/-- A value on the way between two values lies between them. -/
theorem between_along {u v t : K} (ht : 0 ≤ t) (ht' : t ≤ 1) :
    min u v ≤ u + t * (v - u) ∧ u + t * (v - u) ≤ max u v := by
  rcases le_total u v with h | h
  · rw [min_eq_left h, max_eq_right h]
    constructor <;> nlinarith
  · rw [min_eq_right h, max_eq_left h]
    constructor <;> nlinarith

theorem part_of_between {u v t : K} (huv : u ≠ v) (h : min u v ≤ u + t * (v - u))
    (h' : u + t * (v - u) ≤ max u v) : 0 ≤ t ∧ t ≤ 1 := by
  rcases lt_or_gt_of_ne huv with hlt | hlt
  · rw [min_eq_left hlt.le] at h
    rw [max_eq_right hlt.le] at h'
    constructor <;> by_contra hneg <;> nlinarith
  · rw [min_eq_right hlt.le] at h
    rw [max_eq_left hlt.le] at h'
    constructor <;> by_contra hneg <;> nlinarith

omit [Field K] [IsStrictOrderedRing K] in
theorem in_box_iff : inBox point a b = true ↔
    (min a.x b.x ≤ point.x ∧ point.x ≤ max a.x b.x) ∧
      (min a.y b.y ≤ point.y ∧ point.y ≤ max a.y b.y) := by
  simp only [inBox, Bool.and_eq_true, decide_eq_true_iff]

theorem in_box_of_onSegment (h : OnSegment point a b) : inBox point a b = true := by
  obtain ⟨t, ht, ht', rfl⟩ := h
  exact in_box_iff.mpr ⟨between_along ht ht', between_along ht ht'⟩

theorem point_on_segment_iff : pointOnSegment point a b = true ↔ OnSegment point a b := by
  rw [pointOnSegment, Bool.and_eq_true, decide_eq_true_iff]
  constructor
  · rintro ⟨hcross, hbetween⟩
    obtain ⟨hx, hy⟩ := in_box_iff.mp hbetween
    by_cases hab : a = b
    · subst hab
      rw [min_self, max_self] at hx hy
      refine ⟨0, le_refl _, zero_le_one, Point.eq_iff.mpr ⟨?_, ?_⟩⟩
      · rw [along, le_antisymm hx.2 hx.1]
        ring
      · rw [along, le_antisymm hy.2 hy.1]
        ring
    · obtain ⟨t, rfl⟩ := exists_along_of_cross hab hcross
      have hne : a.x ≠ b.x ∨ a.y ≠ b.y := by
        by_contra hcon
        rw [not_or, not_not, not_not] at hcon
        exact hab (Point.eq_iff.mpr hcon)
      rcases hne with hne | hne
      · obtain ⟨ht, ht'⟩ := part_of_between hne hx.1 hx.2
        exact ⟨t, ht, ht', rfl⟩
      · obtain ⟨ht, ht'⟩ := part_of_between hne hy.1 hy.2
        exact ⟨t, ht, ht', rfl⟩
  · intro h
    refine ⟨?_, in_box_of_onSegment h⟩
    obtain ⟨t, _, _, rfl⟩ := h
    exact cross_self_along a b t

theorem onSegment_left (a b : Point K) : OnSegment a a b :=
  ⟨0, le_refl _, zero_le_one, by rw [along, zero_mul, zero_mul, add_zero, add_zero]⟩

theorem OnSegment.symm (h : OnSegment point a b) : OnSegment point b a := by
  obtain ⟨t, ht, ht', rfl⟩ := h
  refine ⟨1 - t, by linarith, by linarith, Point.eq_iff.mpr ⟨?_, ?_⟩⟩
  · rw [along, along]
    ring
  · rw [along, along]
    ring

theorem onSegment_comm : OnSegment point a b ↔ OnSegment point b a :=
  ⟨OnSegment.symm, OnSegment.symm⟩

theorem onSegment_right (a b : Point K) : OnSegment b a b := (onSegment_left b a).symm

section

omit [LinearOrder K] [IsStrictOrderedRing K]

theorem along_zero (a b : Point K) : along a b 0 = a := by
  rw [along, zero_mul, zero_mul, add_zero, add_zero]

theorem along_one (a b : Point K) : along a b 1 = b := by
  rw [along, one_mul, one_mul, add_sub_cancel, add_sub_cancel]

end

/-- Strictly on different sides. -/
def opposite (u v : K) : Prop := u > 0 ∧ v < 0 ∨ u < 0 ∧ v > 0

/-- Where the ends lie on different sides, the line is met at a point of the segment. -/
theorem opposite.part {u v : K} (h : opposite u v) : 0 ≤ u / (u - v) ∧ u / (u - v) ≤ 1 := by
  rcases h with ⟨hu, hv⟩ | ⟨hu, hv⟩
  · have hpos : 0 < u - v := by linarith
    exact ⟨div_nonneg hu.le hpos.le, (div_le_one hpos).mpr (by linarith)⟩
  · have hneg : u - v < 0 := by linarith
    exact ⟨div_nonneg_of_nonpos hu.le hneg.le, (div_le_one_of_neg hneg).mpr (by linarith)⟩

/-- The values at the ends of a segment that meets the line, none of them on it. -/
theorem opposite_of_part {u v t : K} (ht : 0 ≤ t) (ht' : t ≤ 1) (h : (1 - t) * u + t * v = 0)
    (hu : u ≠ 0) (hv : v ≠ 0) : opposite u v := by
  have ht₀ : 0 < t := by
    rcases ht.lt_or_eq with hlt | heq
    · exact hlt
    · rw [← heq, sub_zero, one_mul, zero_mul, add_zero] at h
      exact absurd h hu
  have ht₁ : 0 < 1 - t := by
    rcases ht'.lt_or_eq with hlt | heq
    · exact sub_pos.mpr hlt
    · rw [heq, sub_self, zero_mul, zero_add, one_mul] at h
      exact absurd h hv
  rcases lt_or_gt_of_ne hu with hneg | hpos
  · refine Or.inr ⟨hneg, ?_⟩
    have := mul_neg_of_pos_of_neg ht₁ hneg
    exact (mul_pos_iff_of_pos_left ht₀).mp (by linarith)
  · refine Or.inl ⟨hpos, ?_⟩
    have := mul_pos ht₁ hpos
    exact neg_of_mul_neg_left (by linarith) ht₀.le

/-- Two segments on one line that share a point contain an end of one another. -/
theorem end_on_of_collinear (hc : cross a b c = 0) (hd : cross a b d = 0)
    (hab : OnSegment point a b) (hcd : OnSegment point c d) :
    OnSegment c a b ∨ OnSegment d a b ∨ OnSegment a c d ∨ OnSegment b c d := by
  by_cases heq : a = b
  · subst heq
    obtain ⟨s, _, _, rfl⟩ := hab
    have hself : along a a s = a := by
      rw [along, sub_self, sub_self, mul_zero, add_zero, add_zero]
    rw [hself] at hcd
    exact Or.inr (Or.inr (Or.inl hcd))
  obtain ⟨u, rfl⟩ := exists_along_of_cross heq hc
  obtain ⟨v, rfl⟩ := exists_along_of_cross heq hd
  obtain ⟨s, hs, hs', rfl⟩ := hab
  obtain ⟨t, ht, ht', hp⟩ := hcd
  -- the place of the common point on the line
  have hst : s = u + t * (v - u) := by
    rw [Point.eq_iff] at hp
    simp only [along] at hp
    by_cases hx : b.x - a.x = 0
    · have hy : b.y - a.y ≠ 0 := by
        intro hy
        exact heq (Point.eq_iff.mpr ⟨(sub_eq_zero.mp hx).symm, (sub_eq_zero.mp hy).symm⟩)
      exact mul_right_cancel₀ hy (by linear_combination hp.2)
    · exact mul_right_cancel₀ hx (by linear_combination hp.1)
  by_cases hu : 0 ≤ u ∧ u ≤ 1
  · exact Or.inl ⟨u, hu.1, hu.2, rfl⟩
  by_cases hv : 0 ≤ v ∧ v ≤ 1
  · exact Or.inr (Or.inl ⟨v, hv.1, hv.2, rfl⟩)
  -- the two ends lie on different sides of the first segment
  have hends : u < 0 ∧ 1 < v ∨ 1 < u ∧ v < 0 := by
    by_contra hcon
    rw [not_or] at hcon
    rcases lt_or_ge u 0 with hu₀ | hu₀
    · rcases lt_or_ge v 0 with hv₀ | hv₀
      · have := (between_along (u := u) (v := v) ht ht').2.trans_lt (max_lt hu₀ hv₀)
        linarith
      · exact hcon.1 ⟨hu₀, by by_contra hle; exact hv ⟨hv₀, by linarith⟩⟩
    · have hu₁ : 1 < u := by
        by_contra hle
        exact hu ⟨hu₀, by linarith⟩
      rcases lt_or_ge v 0 with hv₀ | hv₀
      · exact hcon.2 ⟨hu₁, hv₀⟩
      · have hv₁ : 1 < v := by
          by_contra hle
          exact hv ⟨hv₀, by linarith⟩
        have := (lt_min hu₁ hv₁).trans_le (between_along (u := u) (v := v) ht ht').1
        linarith
  have hplace : a = along (along a b u) (along a b v) (u / (u - v)) := by
    have hne : u - v ≠ 0 := by
      rcases hends with ⟨h₁, h₂⟩ | ⟨h₁, h₂⟩
      · exact (show u - v < 0 by linarith).ne
      · exact (show 0 < u - v by linarith).ne'
    refine Point.eq_iff.mpr ⟨?_, ?_⟩
    · simp only [along]
      field_simp
      ring
    · simp only [along]
      field_simp
      ring
  have hopposite : opposite u v := by
    rcases hends with ⟨h₁, h₂⟩ | ⟨h₁, h₂⟩
    · exact Or.inr ⟨h₁, by linarith⟩
    · exact Or.inl ⟨by linarith, h₂⟩
  exact Or.inr (Or.inr (Or.inl ⟨_, hopposite.part.1, hopposite.part.2, hplace⟩))

theorem touch_iff : (cross a b c = 0 ∧ pointOnSegment c a b = true) ↔ OnSegment c a b := by
  rw [← point_on_segment_iff, pointOnSegment, Bool.and_eq_true, decide_eq_true_iff]
  tauto

/-- The test says exactly which segments meet. -/
theorem segments_intersect_iff : segmentsIntersect a b c d = true ↔
    ∃ point, OnSegment point a b ∧ OnSegment point c d := by
  have htest : segmentsIntersect a b c d = true ↔
      (opposite (cross a b c) (cross a b d) ∧ opposite (cross c d a) (cross c d b)) ∨
        OnSegment c a b ∨ OnSegment d a b ∨ OnSegment a c d ∨ OnSegment b c d := by
    rw [segmentsIntersect]
    split_ifs with h
    · exact iff_of_true rfl (Or.inl h)
    · simp only [Bool.or_eq_true, Bool.and_eq_true, decide_eq_true_iff, touch_iff, or_assoc]
      exact ⟨Or.inr, fun hor => hor.resolve_left h⟩
  rw [htest]
  have hsub := cross_sub_cross a b c d
  constructor
  · rintro (⟨hab, hcd⟩ | h | h | h | h)
    · refine ⟨_, ⟨_, hcd.part.1, hcd.part.2, rfl⟩, ⟨_, hab.part.1, hab.part.2, ?_⟩⟩
      have hne : cross a b c - cross a b d ≠ 0 := by
        rcases hab with ⟨h₁, h₂⟩ | ⟨h₁, h₂⟩
        · exact (show 0 < cross a b c - cross a b d by linarith).ne'
        · exact (show cross a b c - cross a b d < 0 by linarith).ne
      have hne' : cross c d a - cross c d b ≠ 0 := by
        rw [hsub]
        intro hzero
        exact hne (by linarith)
      refine Point.eq_iff.mpr ⟨?_, ?_⟩
      · simp only [along]
        rw [hsub, ← neg_sub (cross a b c), div_neg]
        field_simp
        simp only [cross]
        ring
      · simp only [along]
        rw [hsub, ← neg_sub (cross a b c), div_neg]
        field_simp
        simp only [cross]
        ring
    · exact ⟨c, h, onSegment_left c d⟩
    · exact ⟨d, h, onSegment_right c d⟩
    · exact ⟨a, onSegment_left a b, h⟩
    · exact ⟨b, onSegment_right a b, h⟩
  · rintro ⟨point, ⟨s, hs, hs', hps⟩, ⟨t, ht, ht', hpt⟩⟩
    have habp : (1 - t) * cross a b c + t * cross a b d = 0 := by
      rw [← cross_along, ← hpt, hps, cross_self_along]
    have hcdp : (1 - s) * cross c d a + s * cross c d b = 0 := by
      rw [← cross_along, ← hps, hpt, cross_self_along]
    by_cases hc : cross a b c = 0
    · by_cases hd : cross a b d = 0
      · exact Or.inr (end_on_of_collinear hc hd ⟨s, hs, hs', hps⟩ ⟨t, ht, ht', hpt⟩)
      · -- only `c` is on the line of the first segment, so it is the common point
        rw [hc, mul_zero, zero_add, mul_eq_zero, or_iff_left hd] at habp
        rw [habp, along_zero] at hpt
        exact Or.inr (Or.inl ⟨s, hs, hs', hpt ▸ hps⟩)
    by_cases hd : cross a b d = 0
    · rw [hd, mul_zero, add_zero, mul_eq_zero, or_iff_left hc, sub_eq_zero] at habp
      rw [← habp, along_one] at hpt
      exact Or.inr (Or.inr (Or.inl ⟨s, hs, hs', hpt ▸ hps⟩))
    have hopposite := opposite_of_part ht ht' habp hc hd
    have hne : cross c d a - cross c d b ≠ 0 := by
      rw [hsub]
      rcases hopposite with ⟨h₁, h₂⟩ | ⟨h₁, h₂⟩
      · exact (show cross a b d - cross a b c < 0 by linarith).ne
      · exact (show 0 < cross a b d - cross a b c by linarith).ne'
    by_cases ha : cross c d a = 0
    · have hb : cross c d b ≠ 0 := fun hb => hne (by rw [ha, hb, sub_self])
      rw [ha, mul_zero, zero_add, mul_eq_zero, or_iff_left hb] at hcdp
      rw [hcdp, along_zero] at hps
      exact Or.inr (Or.inr (Or.inr (Or.inl ⟨t, ht, ht', hps ▸ hpt⟩)))
    by_cases hb : cross c d b = 0
    · rw [hb, mul_zero, add_zero, mul_eq_zero, or_iff_left ha, sub_eq_zero] at hcdp
      rw [← hcdp, along_one] at hps
      exact Or.inr (Or.inr (Or.inr (Or.inr ⟨t, ht, ht', hps ▸ hpt⟩)))
    exact Or.inl ⟨hopposite, opposite_of_part hs hs' hcdp ha hb⟩

end Segments

end SoupDB
