import SoupDB.Indexes.RTree

/-!
# SoupDB: boxes and the quadratic split

Boxes are ordered by inclusion, and the union of two boxes is their least upper bound.
`Bounds` says that a box is exactly the union of the boxes of some entries.

Main fact: `split_spec`.  Whatever the split decides on its way, every entry ends up in one
of the halves, once, none of them is empty, and their boxes are exact.
-/

namespace SoupDB

open List

variable {K : Type} [Field K] [LinearOrder K]

/-! ## The order of boxes -/

namespace MBR

omit [Field K]

/-- A box is at most another when it lies inside. -/
instance : PartialOrder (MBR K) where
  le a b := b.minX ≤ a.minX ∧ b.minY ≤ a.minY ∧ a.maxX ≤ b.maxX ∧ a.maxY ≤ b.maxY
  le_refl a := ⟨le_refl _, le_refl _, le_refl _, le_refl _⟩
  le_trans a b c h h' :=
    ⟨h'.1.trans h.1, h'.2.1.trans h.2.1, h.2.2.1.trans h'.2.2.1, h.2.2.2.trans h'.2.2.2⟩
  le_antisymm a b h h' := by
    cases a
    cases b
    rw [mk.injEq]
    exact ⟨le_antisymm h'.1 h.1, le_antisymm h'.2.1 h.2.1, le_antisymm h.2.2.1 h'.2.2.1,
      le_antisymm h.2.2.2 h'.2.2.2⟩

theorem le_iff {a b : MBR K} :
    a ≤ b ↔ b.minX ≤ a.minX ∧ b.minY ≤ a.minY ∧ a.maxX ≤ b.maxX ∧ a.maxY ≤ b.maxY :=
  Iff.rfl

instance : SemilatticeSup (MBR K) where
  sup := union
  le_sup_left _ _ :=
    ⟨min_le_left _ _, min_le_left _ _, le_max_left _ _, le_max_left _ _⟩
  le_sup_right _ _ :=
    ⟨min_le_right _ _, min_le_right _ _, le_max_right _ _, le_max_right _ _⟩
  sup_le _ _ _ h h' :=
    ⟨le_min h.1 h'.1, le_min h.2.1 h'.2.1, max_le h.2.2.1 h'.2.2.1, max_le h.2.2.2 h'.2.2.2⟩

theorem contains_iff {box : MBR K} {point : Point K} :
    box.contains point = true ↔ fromPoint point ≤ box := by
  rw [contains, le_iff]
  simp only [Bool.and_eq_true, decide_eq_true_iff, fromPoint]
  tauto

theorem intersects_of_contains {a b : MBR K} {point : Point K} (ha : a.contains point = true)
    (hb : b.contains point = true) : a.intersects b = true := by
  rw [contains_iff, le_iff] at ha hb
  obtain ⟨ha₁, ha₂, ha₃, ha₄⟩ := ha
  obtain ⟨hb₁, hb₂, hb₃, hb₄⟩ := hb
  rw [intersects]
  simp only [Bool.not_eq_true', Bool.or_eq_false_iff, decide_eq_false_iff_not, not_lt]
  exact ⟨⟨⟨ha₁.trans hb₃, hb₁.trans ha₃⟩, ha₂.trans hb₄⟩, hb₂.trans ha₄⟩

end MBR

/-! ## The box of some entries -/

section Bounds

variable {E : Type} {entryMbr : E → Option (MBR K)} {entries : List E}

omit [Field K]

/-- The box is the union of the boxes of the entries. -/
def Bounds (entryMbr : E → Option (MBR K)) (entries : List E) (box : MBR K) : Prop :=
  IsLUB {b | ∃ e ∈ entries, entryMbr e = some b} box

def Boxed (entryMbr : E → Option (MBR K)) (entries : List E) : Prop :=
  ∀ e ∈ entries, ∃ box, entryMbr e = some box

theorem bounds_singleton {e : E} {box : MBR K} (h : entryMbr e = some box) :
    Bounds entryMbr [e] box := by
  have hset : {b | ∃ e' ∈ [e], entryMbr e' = some b} = {box} := by
    ext b
    simp only [mem_singleton, exists_eq_left, h, Option.some.injEq, Set.mem_ofPred_eq,
      Set.mem_singleton_iff]
    exact eq_comm
  rw [Bounds, hset]
  exact isLUB_singleton

theorem Bounds.concat {e : E} {box box' : MBR K} (h : Bounds entryMbr entries box)
    (he : entryMbr e = some box') : Bounds entryMbr (entries ++ [e]) (box.union box') := by
  have hset : {b | ∃ e' ∈ entries ++ [e], entryMbr e' = some b} =
      {b | ∃ e' ∈ entries, entryMbr e' = some b} ∪ {box'} := by
    ext b
    simp only [mem_append, mem_singleton, or_and_right, exists_or, exists_eq_left, he,
      Option.some.injEq, Set.mem_ofPred_eq, Set.mem_union, Set.mem_singleton_iff]
    exact or_congr_right eq_comm
  rw [Bounds, hset]
  exact h.union isLUB_singleton

theorem Bounds.le {e : E} {box box' : MBR K} (h : Bounds entryMbr entries box)
    (he : e ∈ entries) (hbox : entryMbr e = some box') : box' ≤ box := h.1 ⟨e, he, hbox⟩

omit [LinearOrder K] in
theorem boxes_of_boxed (h : Boxed entryMbr entries) :
    ∃ boxes, entries.mapM (boxOf entryMbr) = .ok boxes ∧
      boxes.map some = entries.map entryMbr := by
  have hreturns : ∀ e ∈ entries, ∃ box, boxOf entryMbr e = .ok box := by
    intro e he
    obtain ⟨box, hbox⟩ := h e he
    exact ⟨box, by rw [boxOf, hbox]⟩
  obtain ⟨boxes, hboxes⟩ := mapM_of_returns hreturns
  refine ⟨boxes, hboxes, map_of_mapM hboxes (fun e box hbox => ?_)⟩
  rw [boxOf] at hbox
  cases he : entryMbr e with
  | none =>
      rw [he] at hbox
      cases hbox
  | some box' =>
      rw [he] at hbox
      rw [Except.ok.inj hbox]

/-- `computeMbr` gives the union of the boxes. -/
theorem compute_mbr_spec (hne : entries ≠ []) (h : Boxed entryMbr entries) :
    ∃ box, computeMbr entryMbr entries = .ok (some box) ∧ Bounds entryMbr entries box := by
  have hfold : ∀ (after : List E) (boxes : List (MBR K)) (before : List E) (box : MBR K),
      boxes.map some = after.map entryMbr → Bounds entryMbr before box →
        ∃ box', boxes.foldl (fun mbr b => mbr.map (fun m => m.union b)) (some box) = some box' ∧
          Bounds entryMbr (before ++ after) box' := by
    intro after
    induction after with
    | nil =>
        intro boxes before box hboxes hbefore
        obtain rfl := map_eq_nil_iff.mp hboxes
        exact ⟨box, rfl, by rwa [append_nil]⟩
    | cons e after ih =>
        intro boxes before box hboxes hbefore
        cases boxes with
        | nil => cases hboxes
        | cons b boxes =>
            rw [map_cons, map_cons, List.cons.injEq] at hboxes
            obtain ⟨box', hbox', hbounds⟩ :=
              ih boxes (before ++ [e]) (box.union b) hboxes.2 (hbefore.concat hboxes.1.symm)
            exact ⟨box', hbox', by rwa [append_assoc] at hbounds⟩
  cases entries with
  | nil => exact absurd rfl hne
  | cons e entries =>
      obtain ⟨box, hbox⟩ := h e mem_cons_self
      cases entries with
      | nil => exact ⟨box, by rw [computeMbr, hbox], bounds_singleton hbox⟩
      | cons e' entries =>
          obtain ⟨boxes, hboxes, hmap⟩ := boxes_of_boxed h
          cases boxes with
          | nil => cases hmap
          | cons b boxes =>
              rw [map_cons, map_cons, List.cons.injEq] at hmap
              obtain ⟨box', hbox', hbounds⟩ := hfold _ boxes [e] b hmap.2
                (bounds_singleton hmap.1.symm)
              refine ⟨box', ?_, hbounds⟩
              rw [computeMbr, hboxes, ok_bind]
              · exact congrArg Except.ok hbox'
              · exact cons_ne_nil _ _
              · rintro _ ⟨⟩

end Bounds

/-! ## The split -/

section Split

variable {E : Type} {entryMbr : E → Option (MBR K)} {entries : List E}

/-- The halves hold the entries, each of them some, under exact boxes. -/
structure Dealt (entryMbr : E → Option (MBR K)) (h : Halves E K) (entries : List E) : Prop where
  perm : (h.leftEntries ++ h.rightEntries).Perm entries
  left : h.leftEntries ≠ []
  right : h.rightEntries ≠ []
  leftBox : Bounds entryMbr h.leftEntries h.leftBox
  rightBox : Bounds entryMbr h.rightEntries h.rightBox

namespace Dealt

variable {h : Halves E K} {e : E × MBR K}

omit [Field K]

theorem of_perm {entries' : List E} (hd : Dealt entryMbr h entries) (hp : entries.Perm entries') :
    Dealt entryMbr h entries' :=
  { hd with perm := hd.perm.trans hp }

theorem addLeft (hd : Dealt entryMbr h entries) (he : entryMbr e.1 = some e.2) :
    Dealt entryMbr (h.addLeft e) (entries ++ [e.1]) where
  perm := by
    have hp : (h.leftEntries ++ [e.1] ++ h.rightEntries).Perm
        (h.leftEntries ++ h.rightEntries ++ [e.1]) := by
      rw [append_assoc, append_assoc]
      exact perm_append_comm.append_left _
    exact hp.trans (hd.perm.append_right _)
  left := by simp [Halves.addLeft]
  right := hd.right
  leftBox := hd.leftBox.concat he
  rightBox := hd.rightBox

theorem addRight (hd : Dealt entryMbr h entries) (he : entryMbr e.1 = some e.2) :
    Dealt entryMbr (h.addRight e) (entries ++ [e.1]) where
  perm := by
    have hp : h.leftEntries ++ (h.rightEntries ++ [e.1]) =
        h.leftEntries ++ h.rightEntries ++ [e.1] := (append_assoc ..).symm
    exact (List.Perm.of_eq hp).trans (hd.perm.append_right _)
  left := hd.left
  right := by simp [Halves.addRight]
  leftBox := hd.leftBox
  rightBox := hd.rightBox.concat he

/-- The entries that are left all go to one half. -/
theorem foldl {add : Halves E K → E × MBR K → Halves E K}
    (hadd : ∀ {h : Halves E K} {entries : List E} {e : E × MBR K}, Dealt entryMbr h entries →
      entryMbr e.1 = some e.2 → Dealt entryMbr (add h e) (entries ++ [e.1])) :
    ∀ {remaining : List (E × MBR K)} {h : Halves E K} {entries : List E},
      Dealt entryMbr h entries → (∀ e ∈ remaining, entryMbr e.1 = some e.2) →
        Dealt entryMbr (remaining.foldl add h) (entries ++ remaining.map Prod.fst)
  | [], _, _, hd, _ => by simpa using hd
  | e :: remaining, h, entries, hd, hboxes => by
      have hboxes' : ∀ e' ∈ remaining, entryMbr e'.1 = some e'.2 :=
        fun e' he' => hboxes e' (mem_cons_of_mem e he')
      have hrest := foldl hadd (hadd hd (hboxes e mem_cons_self)) hboxes'
      rwa [append_assoc] at hrest

end Dealt

theorem Dealt.deal {h : Halves E K} {e : E × MBR K} (hd : Dealt entryMbr h entries)
    (he : entryMbr e.1 = some e.2) : Dealt entryMbr (h.deal e) (entries ++ [e.1]) := by
  rw [Halves.deal]
  split
  · exact hd.addLeft he
  · exact hd.addRight he

variable {eq : E → E → Bool}

omit [Field K] in
/-- `list.remove` takes the very entry that was chosen: the first of the greatest, it comes
before all that equal it. -/
theorem list_remove_argmax {difference : E × MBR K → K} {remaining : List (E × MBR K)}
    {best : E × MBR K} (heq : ∀ e, eq e e = true)
    (hsame : ∀ e ∈ remaining, ∀ e' ∈ remaining, eq e.1 e'.1 = true → difference e = difference e')
    (hbest : remaining.argmax difference = some best) :
    ∃ rest, listRemove eq best.1 remaining = .ok rest ∧ remaining.Perm (best :: rest) := by
  obtain ⟨before, after, rfl, hbefore⟩ := exists_append_of_argmax hbest
  have hany : (before ++ best :: after).any (fun e => eq best.1 e.1) = true :=
    any_eq_true.mpr ⟨best, by simp, heq _⟩
  have hnot : ∀ e ∈ before, ¬ (fun e : E × MBR K => eq best.1 e.1) e = true := by
    intro e he hequal
    have hdiff := hsame best (by simp) e (by simp [he]) hequal
    exact absurd hdiff (hbefore e he).ne'
  refine ⟨before ++ after, ?_, perm_middle⟩
  rw [listRemove, if_pos hany, eraseP_append_right _ hnot]
  exact congrArg (fun l => Except.ok (before ++ l)) (eraseP_cons_of_pos (heq best.1))

theorem distribute_spec {eq : E → E → Bool} (heq : ∀ e, eq e e = true)
    (hbox : ∀ e e', eq e e' = true → entryMbr e = entryMbr e') (minEntries : Nat) :
    ∀ {fuel : Nat} {remaining : List (E × MBR K)} {h : Halves E K} {entries : List E},
      remaining.length ≤ fuel → Dealt entryMbr h entries →
        (∀ e ∈ remaining, entryMbr e.1 = some e.2) →
          ∃ h', distribute eq minEntries fuel h remaining = .ok h' ∧
            Dealt entryMbr h' (entries ++ remaining.map Prod.fst)
  | fuel, [], h, entries, _, hd, _ => by
      refine ⟨h, ?_, by simpa using hd⟩
      cases fuel with
      | zero => rfl
      | succ fuel => rfl
  | 0, e :: remaining, _, _, hfuel, _, _ => by
      rw [length_cons] at hfuel
      omega
  | fuel + 1, e :: remaining, h, entries, hfuel, hd, hboxes => by
      rw [distribute]
      · by_cases hleft : h.leftEntries.length + (e :: remaining).length = minEntries
        · rw [if_pos hleft]
          exact ⟨_, rfl, Dealt.foldl Dealt.addLeft hd hboxes⟩
        rw [if_neg hleft]
        by_cases hright : h.rightEntries.length + (e :: remaining).length = minEntries
        · rw [if_pos hright]
          exact ⟨_, rfl, Dealt.foldl Dealt.addRight hd hboxes⟩
        rw [if_neg hright]
        obtain ⟨best, hbest⟩ := exists_argmax h.difference (cons_ne_nil e remaining)
        have hsame : ∀ a ∈ e :: remaining, ∀ b ∈ e :: remaining, eq a.1 b.1 = true →
            h.difference a = h.difference b := by
          intro a ha b hb hab
          have hequal : some a.2 = some b.2 :=
            (hboxes a ha).symm.trans ((hbox _ _ hab).trans (hboxes b hb))
          rw [Halves.difference, Halves.difference, Option.some.inj hequal]
        obtain ⟨rest, hrest, hperm⟩ := list_remove_argmax heq hsame hbest
        rw [hbest]
        dsimp only
        rw [hrest, ok_bind]
        have hlength : rest.length ≤ fuel := by
          have h := hperm.length_eq
          simp only [length_cons] at h hfuel
          omega
        have hbestbox : entryMbr best.1 = some best.2 := hboxes best (argmax_mem hbest)
        obtain ⟨h', hh', hd'⟩ := distribute_spec heq hbox minEntries hlength
          (hd.deal hbestbox)
          (fun a ha => hboxes a (hperm.mem_iff.mpr (mem_cons_of_mem best ha)))
        refine ⟨h', hh', hd'.of_perm ?_⟩
        rw [append_assoc]
        exact (hperm.map Prod.fst).symm.append_left _
      · rintro ⟨⟩

theorem split_spec (heq : ∀ e, eq e e = true)
    (hbox : ∀ e e', eq e e' = true → entryMbr e = entryMbr e') (maxEntries : Nat)
    (hlength : 2 ≤ entries.length) (hboxed : Boxed entryMbr entries) :
    ∃ h, split entryMbr eq maxEntries entries = .ok h ∧ Dealt entryMbr h entries := by
  obtain ⟨boxes, hboxes, hmap⟩ := boxes_of_boxed hboxed
  have hlen : boxes.length = entries.length := by
    have h := congrArg length hmap
    rwa [length_map, length_map] at h
  have hzip : ∀ e ∈ entries.zip boxes, entryMbr e.1 = some e.2 := by
    intro e he
    obtain ⟨i, hi, rfl⟩ := mem_iff_getElem.mp he
    have hi' : i < boxes.length := by
      rw [length_zip] at hi
      omega
    have h := getElem_of_eq hmap (i := i) (by rw [length_map]; exact hi')
    rw [getElem_map, getElem_map] at h
    rw [getElem_zip]
    exact h.symm
  have hfst : (entries.zip boxes).map Prod.fst = entries :=
    map_fst_zip (by omega)
  have hpairs : pairs ((entries.zip boxes).zipIdx) ≠ [] := by
    refine pairs_ne_nil ?_
    rw [length_zipIdx, length_zip]
    omega
  obtain ⟨⟨first, second⟩, hseeds⟩ :=
    exists_argmax (fun p : ((E × MBR K) × Nat) × ((E × MBR K) × Nat) =>
      wasted p.1.1.2 p.2.1.2) hpairs
  have hsub := sublist_of_mem_pairs (argmax_mem hseeds)
  have hnodup : ((entries.zip boxes).zipIdx.map Prod.snd).Nodup := by
    rw [zipIdx_map_snd]
    exact nodup_range'
  have hperm := perm_of_two hsub hnodup
  have hmem : ∀ e ∈ (entries.zip boxes).zipIdx, e.1 ∈ entries.zip boxes :=
    fun e he => fst_mem_of_mem_zipIdx he
  have hfirst := hzip _ (hmem first (hsub.subset (by simp)))
  have hsecond := hzip _ (hmem second (hsub.subset (by simp)))
  have hd : Dealt entryMbr ⟨[first.1.1], first.1.2, [second.1.1], second.1.2⟩
      [first.1.1, second.1.1] :=
    ⟨List.Perm.refl _, cons_ne_nil _ _, cons_ne_nil _ _, bounds_singleton hfirst,
      bounds_singleton hsecond⟩
  have hremaining : ∀ e ∈ ((entries.zip boxes).zipIdx.filter
      (fun e => e.2 ≠ first.2 && e.2 ≠ second.2)).map Prod.fst, entryMbr e.1 = some e.2 := by
    intro e he
    obtain ⟨e', he', rfl⟩ := mem_map.mp he
    exact hzip _ (hmem e' (mem_filter.mp he').1)
  obtain ⟨h, hh, hd'⟩ := distribute_spec heq hbox (max 1 (maxEntries / 2))
    (length_map _).le hd hremaining
  refine ⟨h, ?_, hd'.of_perm ?_⟩
  · rw [split, hboxes, ok_bind]
    dsimp only
    rw [pickSeeds, hseeds, ok_bind]
    exact hh
  · have h := (hperm.map Prod.fst).map Prod.fst
    rw [zipIdx_map_fst, hfst] at h
    exact h.symm

end Split

end SoupDB
