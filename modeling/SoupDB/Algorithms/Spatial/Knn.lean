import SoupDB.Algorithms.Spatial.RangeQuery
import SoupDB.Lib.Heapq

/-!
# SoupDB: nearest neighbours

The search takes the node with the least lower bound from a heap, and keeps the best hits in a
second heap, the worst of them first.  Hits are ranked by distance, then by coordinates, then
by RID, and compare backwards in the heap.  `tau` is the distance of the worst hit once there
are `k`: nodes beyond it are left out.

The invariant counts what is left out as seen: all of it comes behind the `k` hits that are
kept.  What has not been seen is below the frontier.

Main fact: `knn_hits_exact`.
-/

namespace SoupDB

open RTreeNode Heapq

variable {K D : Type} [Field K] [LinearOrder K] [AddCommGroup D] [LinearOrder D]

structure SpatialHit (K D : Type) where
  point : Point K
  rid : RID
  distance : D
deriving DecidableEq

/-- Distance, coordinates, page and slot, compared in this order. -/
abbrev Rank (K D : Type) := D ×ₗ K ×ₗ K ×ₗ ℤ ×ₗ ℤ

omit [Field K] [LinearOrder K] [AddCommGroup D] [LinearOrder D] in
def hitRank (hit : SpatialHit K D) : Rank K D :=
  toLex (hit.distance, toLex (hit.point.x, toLex (hit.point.y,
    toLex (hit.rid.pageId, hit.rid.slot))))

omit [LinearOrder K] [LinearOrder D] in
/-- The rank that compares the other way round. -/
def negativeRank (rank : Rank K D) : Rank K D :=
  let (distance, rank) := ofLex rank
  let (x, rank) := ofLex rank
  let (y, rank) := ofLex rank
  let (pageId, slot) := ofLex rank
  toLex (-distance, toLex (-x, toLex (-y, toLex (-pageId, -slot))))

omit [LinearOrder K] [LinearOrder D] in
def positiveRank (negativeRank : Rank K D) : Rank K D :=
  let (distance, rank) := ofLex negativeRank
  let (x, rank) := ofLex rank
  let (y, rank) := ofLex rank
  let (pageId, slot) := ofLex rank
  toLex (-distance, toLex (-x, toLex (-y, toLex (-pageId, -slot))))

/-- The hits that are kept, by their negative rank, then in order of arrival. -/
structure Candidates (K D : Type) [LinearOrder K] [LinearOrder D] where
  best : Heapq (Rank K D ×ₗ ℕ) (SpatialHit K D)
  bestSequence : ℕ

/-- The nodes to visit, by their lower bound, then in order of arrival. -/
structure Frontier (K D : Type) [LinearOrder D] where
  heap : Heapq (D ×ₗ ℕ) (RTreeNode K)
  frontierSequence : ℕ

omit [Field K] [LinearOrder K] [AddCommGroup D] in
def Frontier.push (frontier : Frontier K D) (lowerBound : D) (node : RTreeNode K) :
    Frontier K D :=
  ⟨frontier.heap.heappush (toLex (lowerBound, frontier.frontierSequence), node),
    frontier.frontierSequence + 1⟩

/-! ## The search -/

section Search

variable (k : ℕ) (center : Point K) (metric : SpatialMetric K D)

omit [Field K] [LinearOrder K] [AddCommGroup D] [LinearOrder D] in
def hitOf (entry : Point K × RID) : SpatialHit K D :=
  ⟨entry.1, entry.2, metric.distance center entry.1⟩

def examine (c : Candidates K D) (entry : Point K × RID) : Except PyError (Candidates K D) :=
  let hit := hitOf center metric entry
  let rank := hitRank hit
  let heapItem := (toLex (negativeRank rank, c.bestSequence), hit)
  if c.best.length < k then .ok ⟨c.best.heappush heapItem, c.bestSequence + 1⟩
  else
    match c.best.heappop with
    | none => .error (.IndexError "list index out of range")
    | some (worst, others) =>
        if rank < positiveRank (ofLex worst.1).1 then
          .ok ⟨others.heappush heapItem, c.bestSequence + 1⟩
        else .ok ⟨c.best, c.bestSequence + 1⟩

/-- The distance of the worst hit, infinite while there is room. -/
def bound (tau : WithTop D) (c : Candidates K D) : Except PyError (WithTop D) :=
  if c.best.length = k then
    match c.best.items.head? with
    | none => .error (.IndexError "list index out of range")
    | some worst => .ok (ofLex (positiveRank (ofLex worst.1).1)).1
  else .ok tau

omit [Field K] [AddCommGroup D] in
/-- A child that may hold better hits joins the frontier. -/
def pushChild (full : Bool) (tau : WithTop D) (frontier : Frontier K D)
    (child : MBR K × RTreeNode K) : Frontier K D :=
  let childLowerBound := metric.lowerBound center child.1
  if full = false ∨ (childLowerBound : WithTop D) ≤ tau then
    frontier.push childLowerBound child.2
  else frontier

/-- The loop over the frontier.  Each turn takes one node, so the number of nodes is enough
fuel. -/
def visitFrontier : ℕ → Frontier K D → Candidates K D → WithTop D →
    Except PyError (Candidates K D)
  | 0, frontier, c, _ =>
      match frontier.heap.heappop with
      | none => .ok c
      | some _ => .error .NonTermination
  | fuel + 1, frontier, c, tau =>
      match frontier.heap.heappop with
      | none => .ok c
      | some ((key, node), heap) =>
          if c.best.length = k ∧ ((ofLex key).1 : WithTop D) > tau then .ok c
          else
            match node with
            | .leaf _ entries _ => do
                let c ← entries.foldlM (examine k center metric) c
                let tau ← bound k tau c
                visitFrontier fuel { frontier with heap := heap } c tau
            | .internal _ entries _ => do
                let children ← iterChildNodes entries
                let frontier := children.foldl (pushChild center metric (k ≤ c.best.length) tau)
                  { frontier with heap := heap }
                visitFrontier fuel frontier c tau

end Search

/-- The `k` hits nearest to the center, the nearest first. -/
def knnHits (root : Option (RTreeNode K)) (center : Point K) (k : ℤ)
    (metric : SpatialMetric K D) : Except PyError (List (SpatialHit K D)) :=
  if k ≤ 0 then .error (.ValueError "k must be positive")
  else
    match root with
    | none => .ok []
    | some root =>
        match root.mbr with
        | none => .ok []
        | some box => do
            let frontier := (⟨empty, 0⟩ : Frontier K D).push
              (metric.lowerBound center box) root
            let c ← visitFrontier k.toNat center metric root.ids.length frontier
              ⟨empty, 0⟩ ⊤
            .ok ((c.best.items.map Prod.snd).insertionSort
              (fun a b => hitRank a ≤ hitRank b))

/-! ## Ranks -/

section Ranks

section

omit [LinearOrder K] [LinearOrder D]

omit [Field K] [AddCommGroup D] in
theorem hit_rank_injective : Function.Injective (hitRank : SpatialHit K D → Rank K D) := by
  rintro ⟨⟨x, y⟩, ⟨pageId, slot⟩, distance⟩ ⟨⟨x', y'⟩, ⟨pageId', slot'⟩, distance'⟩ h
  simp only [hitRank, toLex_inj, Prod.mk.injEq] at h
  obtain ⟨rfl, rfl, rfl, rfl, rfl⟩ := h
  rfl

theorem positive_negative_rank (rank : Rank K D) : positiveRank (negativeRank rank) = rank := by
  simp only [positiveRank, negativeRank, ofLex_toLex, neg_neg]
  rfl

end

/-- Pairs whose parts compare the other way round do so themselves. -/
theorem lex_neg_le {α β : Type} [AddCommGroup α] [LinearOrder α] [IsOrderedAddMonoid α]
    [LinearOrder β] {a a' : α} {x x' y y' : β} (h : y ≤ y' ↔ x' ≤ x) :
    toLex (-a, y) ≤ toLex (-a', y') ↔ toLex (a', x') ≤ toLex (a, x) := by
  rw [Prod.Lex.toLex_le_toLex, Prod.Lex.toLex_le_toLex, neg_lt_neg_iff, neg_inj, h]
  exact or_congr_right (and_congr_left' eq_comm)

theorem negative_rank_le [IsStrictOrderedRing K] [IsOrderedAddMonoid D] {a b : Rank K D} :
    negativeRank a ≤ negativeRank b ↔ b ≤ a :=
  lex_neg_le (lex_neg_le (lex_neg_le (lex_neg_le neg_le_neg_iff)))

/-- The order of the hits. -/
def Nearer (a b : SpatialHit K D) : Prop := hitRank a ≤ hitRank b

instance : DecidableRel (Nearer : SpatialHit K D → SpatialHit K D → Prop) :=
  fun a b => inferInstanceAs (Decidable (hitRank a ≤ hitRank b))

instance : Std.Total (Nearer : SpatialHit K D → SpatialHit K D → Prop) :=
  ⟨fun _ _ => le_total _ _⟩

instance : IsTrans (SpatialHit K D) Nearer := ⟨fun _ _ _ hab hbc => le_trans hab hbc⟩

instance : Std.Antisymm (Nearer : SpatialHit K D → SpatialHit K D → Prop) :=
  ⟨fun _ _ hab hba => hit_rank_injective (le_antisymm hab hba)⟩

omit [Field K] [AddCommGroup D] in
/-- A smaller distance comes first. -/
theorem nearer_of_distance {a b : SpatialHit K D} (h : a.distance < b.distance) : Nearer a b :=
  (Prod.Lex.toLex_lt_toLex.mpr (Or.inl h)).le

end Ranks

/-! ## The candidates -/

section Candidates

variable {k : ℕ} {center : Point K} {metric : SpatialMetric K D} {c : Candidates K D}
  {seen : List (SpatialHit K D)} {tau : WithTop D}

/-- The hits that are kept. -/
def Candidates.hits (c : Candidates K D) : List (SpatialHit K D) := c.best.items.map Prod.snd

/-- The best hits seen so far are kept, each under its own rank. -/
structure Candidates.Holds (k : ℕ) (seen : List (SpatialHit K D)) (c : Candidates K D) : Prop where
  keyed : ∀ item ∈ c.best.items, (ofLex item.1).1 = negativeRank (hitRank item.2)
  best : KeepsBest Nearer k seen c.hits

section

omit [AddCommGroup D] [Field K]

theorem length_hits (c : Candidates K D) : c.hits.length = c.best.length := by
  rw [Candidates.hits, List.length_map, length]

theorem hits_heappush (heap : Heapq (Rank K D ×ₗ ℕ) (SpatialHit K D)) (key : Rank K D ×ₗ ℕ)
    (hit : SpatialHit K D) (bestSequence : ℕ) :
    (hit :: heap.items.map Prod.snd).Perm
      (Candidates.hits ⟨heap.heappush (key, hit), bestSequence⟩) :=
  ((heappush_perm heap (key, hit)).map Prod.snd).symm

end

theorem Candidates.Holds.perm {seen' : List (SpatialHit K D)} (h : c.Holds k seen)
    (hperm : seen.Perm seen') : c.Holds k seen' :=
  ⟨h.keyed, h.best.perm hperm (List.Perm.refl _)⟩

theorem holds_nil (k : ℕ) (bestSequence : ℕ) :
    Candidates.Holds k [] (⟨empty, bestSequence⟩ : Candidates K D) :=
  ⟨fun _ hitem => absurd hitem List.not_mem_nil, KeepsBest.nil _ _⟩

theorem positive_rank_of_keyed (h : c.Holds k seen) {item : (Rank K D ×ₗ ℕ) × SpatialHit K D}
    (hitem : item ∈ c.best.items) : positiveRank (ofLex item.1).1 = hitRank item.2 := by
  rw [h.keyed item hitem, positive_negative_rank]

variable [IsStrictOrderedRing K] [IsOrderedAddMonoid D]

theorem nearer_of_first (h : c.Holds k seen)
    {worst : (Rank K D ×ₗ ℕ) × SpatialHit K D} {others : List ((Rank K D ×ₗ ℕ) × SpatialHit K D)}
    (hitems : c.best.items = worst :: others) : ∀ item ∈ others, Nearer item.2 worst.2 := by
  have hsorted := c.best.sorted
  rw [hitems] at hsorted
  intro item hitem
  have hkey := Prod.Lex.monotone_fst _ _ ((List.pairwise_cons.mp hsorted).1 item hitem)
  rw [h.keyed worst (hitems ▸ List.mem_cons_self),
    h.keyed item (hitems ▸ List.mem_cons_of_mem _ hitem)] at hkey
  exact negative_rank_le.mp hkey

theorem examine_spec (center : Point K) (metric : SpatialMetric K D) (hk : 1 ≤ k) (h : c.Holds k
    seen) (entry : Point K × RID) :
    ∃ c', examine k center metric c entry = .ok c' ∧
      c'.Holds k (hitOf center metric entry :: seen) := by
  have hlength := length_hits c
  rw [examine]
  split_ifs with hroom
  · refine ⟨_, rfl, fun item hitem => ?_, ?_⟩
    · rcases List.mem_cons.mp ((heappush_perm _ _).mem_iff.mp hitem) with rfl | hitem
      · rfl
      · exact h.keyed item hitem
    · have hbest := h.best.room (x := hitOf center metric entry) (by omega)
      exact hbest.perm (List.Perm.refl _) (hits_heappush _ _ _ _)
  · have hfull : c.hits.length = k := by
      have hfits := h.best.fits
      omega
    cases hpop : c.best.heappop with
    | none =>
        rw [Candidates.hits, heappop_none hpop, List.map_nil, List.length_nil] at hfull
        omega
    | some popped =>
        obtain ⟨worst, others⟩ := popped
        have hitems := heappop_some hpop
        have hhits : c.hits = worst.2 :: others.items.map Prod.snd := by
          rw [Candidates.hits, hitems, List.map_cons]
        have hlast : ∀ a ∈ others.items.map Prod.snd, Nearer a worst.2 := by
          intro a ha
          obtain ⟨item, hitem, rfl⟩ := List.mem_map.mp ha
          exact nearer_of_first h hitems item hitem
        dsimp only
        rw [positive_rank_of_keyed h (hitems ▸ List.mem_cons_self)]
        split_ifs with hbefore
        · refine ⟨_, rfl, fun item hitem => ?_, ?_⟩
          · rcases List.mem_cons.mp ((heappush_perm _ _).mem_iff.mp hitem) with rfl | hitem
            · rfl
            · exact h.keyed item (hitems ▸ List.mem_cons_of_mem _ hitem)
          · have hbest := h.best
            rw [hhits] at hbest hfull
            have hnew := hbest.replace (x := hitOf center metric entry) hfull hlast hbefore.le
            exact hnew.perm (List.Perm.refl _) (hits_heappush _ _ _ _)
        · refine ⟨_, rfl, h.keyed, h.best.pass hfull fun a ha => ?_⟩
          have hworst : Nearer worst.2 (hitOf center metric entry) := not_lt.mp hbefore
          rw [hhits] at ha
          rcases List.mem_cons.mp ha with rfl | ha
          · exact hworst
          · exact le_trans (hlast a ha) hworst

theorem examine_all (center : Point K) (metric : SpatialMetric K D) (hk : 1 ≤ k)
    (entries : List (Point K × RID)) (h : c.Holds k seen) :
    ∃ c', entries.foldlM (examine k center metric) c = .ok c' ∧
      c'.Holds k (entries.map (hitOf center metric) ++ seen) := by
  induction entries generalizing c seen with
  | nil => exact ⟨c, rfl, h⟩
  | cons entry entries ih =>
      obtain ⟨c₁, hexamine, h₁⟩ := examine_spec center metric hk h entry
      obtain ⟨c₂, hrest, h₂⟩ := ih h₁
      refine ⟨c₂, ?_, h₂.perm ?_⟩
      · rw [List.foldlM_cons, hexamine, ok_bind, hrest]
      · rw [List.map_cons, List.cons_append]
        exact List.perm_middle

/-- No hit is farther than `tau` once there are `k`. -/
def Within (k : ℕ) (tau : WithTop D) (c : Candidates K D) : Prop :=
  c.best.length = k → ∀ hit ∈ c.hits, (hit.distance : WithTop D) ≤ tau

theorem bound_spec (hk : 1 ≤ k) (h : c.Holds k seen) (tau : WithTop D) :
    ∃ tau', bound k tau c = .ok tau' ∧ Within k tau' c := by
  rw [bound]
  split_ifs with hfull
  · cases hitems : c.best.items with
    | nil =>
        rw [length, hitems, List.length_nil] at hfull
        omega
    | cons worst others =>
        refine ⟨_, rfl, fun _ hit hhit => ?_⟩
        rw [positive_rank_of_keyed h (hitems ▸ List.mem_cons_self), WithTop.coe_le_coe]
        rw [Candidates.hits, hitems, List.map_cons] at hhit
        have hnearer : Nearer hit worst.2 := by
          rcases List.mem_cons.mp hhit with rfl | hhit
          · exact le_refl (hitRank worst.2)
          · obtain ⟨item, hitem, rfl⟩ := List.mem_map.mp hhit
            exact nearer_of_first h hitems item hitem
        exact Prod.Lex.monotone_fst _ _ hnearer
  · exact ⟨tau, rfl, fun hlen => absurd hlen hfull⟩

omit [IsStrictOrderedRing K] [IsOrderedAddMonoid D] in
/-- What lies below a node beyond `tau` comes behind all hits that are kept. -/
theorem Candidates.Holds.leave_out (h : c.Holds k seen) (hwithin : Within k tau c)
    (hfull : c.best.length = k) (hsound : metric.Sound) {node : RTreeNode K} {box : MBR K}
    (hnode : RTreeNode.WellFormed node) (hbox : node.mbr = some box)
    (hbeyond : tau < (metric.lowerBound center box : WithTop D)) :
    c.Holds k (node.contents.map (hitOf center metric) ++ seen) := by
  refine ⟨h.keyed, h.best.pass_all ((length_hits c).trans hfull) fun x hx hit hhit => ?_⟩
  obtain ⟨e, he, rfl⟩ := List.mem_map.mp hx
  obtain ⟨box', hbox', hcontains⟩ := contains_of_wellFormed hnode e he
  rw [hbox, Option.some.injEq] at hbox'
  subst hbox'
  have hdistance := hsound center box e.1 hcontains
  refine nearer_of_distance (WithTop.coe_lt_coe.mp ?_)
  exact ((hwithin hfull hit hhit).trans_lt hbeyond).trans_le (WithTop.coe_le_coe.mpr hdistance)

end Candidates

/-! ## The frontier -/

section Frontier

variable {k : ℕ} {center : Point K} {metric : SpatialMetric K D} {c : Candidates K D}
  {seen : List (SpatialHit K D)} {tau : WithTop D} {frontier : Frontier K D}

omit [Field K] [AddCommGroup D] in
/-- The nodes of the frontier are well-formed, and under the bounds of their boxes. -/
def Frontier.Keyed (center : Point K) (metric : SpatialMetric K D) (frontier : Frontier K D) :
    Prop :=
  ∀ item ∈ frontier.heap.items, RTreeNode.WellFormed item.2 ∧
    ∃ box, item.2.mbr = some box ∧ (ofLex item.1).1 = metric.lowerBound center box

omit [Field K] [LinearOrder K] [AddCommGroup D] in
/-- What lies below the frontier. -/
def Frontier.unseen (frontier : Frontier K D) : List (Point K × RID) :=
  frontier.heap.items.flatMap (fun item => item.2.contents)

omit [Field K] [LinearOrder K] [AddCommGroup D] in
/-- How many nodes stand at the frontier or below it. -/
def Frontier.size (frontier : Frontier K D) : ℕ :=
  stackSize (frontier.heap.items.map Prod.snd)

section

omit [Field K] [AddCommGroup D]

omit [LinearOrder K] in
theorem Frontier.unseen_push (frontier : Frontier K D) (lowerBound : D) (node : RTreeNode K) :
    (frontier.push lowerBound node).unseen.Perm (node.contents ++ frontier.unseen) :=
  (heappush_perm frontier.heap _).flatMap_right _

omit [LinearOrder K] in
theorem Frontier.size_push (frontier : Frontier K D) (lowerBound : D) (node : RTreeNode K) :
    (frontier.push lowerBound node).size = node.ids.length + frontier.size :=
  (((heappush_perm frontier.heap _).map Prod.snd).map _).sum_eq

theorem Frontier.Keyed.push (h : frontier.Keyed center metric) {node : RTreeNode K} {box : MBR K}
    (hnode : RTreeNode.WellFormed node) (hbox : node.mbr = some box) :
    (frontier.push (metric.lowerBound center box) node).Keyed center metric := by
  intro item hitem
  rcases List.mem_cons.mp ((heappush_perm _ _).mem_iff.mp hitem) with rfl | hitem
  · exact ⟨hnode, box, hbox, rfl⟩
  · exact h item hitem

end

theorem push_children_spec (hsound : metric.Sound) (hwithin : Within k tau c)
    {children : List (MBR K × RTreeNode K)}
    (hchildren : ∀ child ∈ children, RTreeNode.WellFormed child.2)
    (hboxes : ∀ child ∈ children, child.2.mbr = some child.1)
    (hkeyed : frontier.Keyed center metric) (h : c.Holds k seen) :
    ∃ leftOut frontier', children.foldl (pushChild center metric (k ≤ c.best.length) tau)
        frontier = frontier' ∧ frontier'.Keyed center metric ∧
      (frontier'.unseen ++ leftOut).Perm
        (children.flatMap (fun child => child.2.contents) ++ frontier.unseen) ∧
      frontier'.size ≤ stackSize (children.map Prod.snd) + frontier.size ∧
      c.Holds k (leftOut.map (hitOf center metric) ++ seen) := by
  induction children generalizing frontier seen with
  | nil =>
      refine ⟨[], frontier, rfl, hkeyed, ?_, ?_, h⟩
      · rw [List.append_nil, List.flatMap_nil, List.nil_append]
      · rw [List.map_nil, stackSize, List.map_nil, List.sum_nil, zero_add]
  | cons child children ih =>
      obtain ⟨hnode, hchildren⟩ := List.forall_mem_cons.mp hchildren
      obtain ⟨hbox, hboxes⟩ := List.forall_mem_cons.mp hboxes
      have hsize : stackSize ((child :: children).map Prod.snd) =
          child.2.ids.length + stackSize (children.map Prod.snd) := rfl
      rw [List.foldl_cons, List.flatMap_cons, hsize, pushChild]
      split_ifs with hpush
      · obtain ⟨leftOut, frontier', hfold, hkeyed', hperm, hle, hholds⟩ :=
          ih hchildren hboxes (hkeyed.push hnode hbox) h
        refine ⟨leftOut, frontier', hfold, hkeyed', hperm.trans ?_, ?_, hholds⟩
        · rw [List.append_assoc]
          refine ((frontier.unseen_push _ child.2).append_left _).trans ?_
          rw [← List.append_assoc, ← List.append_assoc]
          exact List.perm_append_comm.append_right _
        · rw [Frontier.size_push] at hle
          omega
      · rw [not_or, Bool.not_eq_false, decide_eq_true_iff, not_le] at hpush
        have hfull : c.best.length = k := by
          have hfits := h.best.fits
          rw [length_hits] at hfits
          omega
        obtain ⟨leftOut, frontier', hfold, hkeyed', hperm, hle, hholds⟩ :=
          ih hchildren hboxes hkeyed (h.leave_out hwithin hfull hsound hnode hbox hpush.2)
        refine ⟨leftOut ++ child.2.contents, frontier', hfold, hkeyed', ?_, by omega, ?_⟩
        · rw [← List.append_assoc, List.append_assoc child.2.contents]
          exact (hperm.append_right _).trans List.perm_append_comm
        · rw [List.map_append, List.append_assoc]
          exact hholds

/-- Nor does what lies below several of them. -/
theorem Candidates.Holds.leave_out_all (hwithin : Within k tau c) (hfull : c.best.length = k)
    (hsound : metric.Sound) {items : List ((D ×ₗ ℕ) × RTreeNode K)}
    (hitems : ∀ item ∈ items, RTreeNode.WellFormed item.2 ∧
      ∃ box, item.2.mbr = some box ∧ tau < (metric.lowerBound center box : WithTop D))
    (h : c.Holds k seen) :
    c.Holds k ((items.flatMap (fun item => item.2.contents)).map (hitOf center metric) ++ seen) :=
      by
  induction items with
  | nil => exact h
  | cons item items ih =>
      obtain ⟨⟨hnode, box, hbox, hbeyond⟩, hitems⟩ := List.forall_mem_cons.mp hitems
      rw [List.flatMap_cons, List.map_append, List.append_assoc]
      exact (ih hitems).leave_out hwithin hfull hsound hnode hbox hbeyond

/-- The search ends with the best of all hits. -/
theorem visit_frontier_spec [IsStrictOrderedRing K] [IsOrderedAddMonoid D] (hk : 1 ≤ k)
    (hsound : metric.Sound) {fuel : ℕ} (hfuel : frontier.size ≤ fuel)
    (hkeyed : frontier.Keyed center metric) (hwithin : Within k tau c) (h : c.Holds k seen) :
    ∃ c', visitFrontier k center metric fuel frontier c tau = .ok c' ∧
      c'.Holds k (frontier.unseen.map (hitOf center metric) ++ seen) := by
  induction fuel generalizing frontier c seen tau with
  | zero =>
      cases hpop : frontier.heap.heappop with
      | none =>
          refine ⟨c, ?_, ?_⟩
          · rw [visitFrontier, hpop]
          · rw [Frontier.unseen, heappop_none hpop]
            exact h
      | some popped =>
          have hpos := length_ids_pos popped.1.2
          rw [Frontier.size, heappop_some hpop, List.map_cons, stackSize,
            List.map_cons, List.sum_cons] at hfuel
          omega
  | succ fuel ih =>
      cases hpop : frontier.heap.heappop with
      | none =>
          refine ⟨c, ?_, ?_⟩
          · rw [visitFrontier, hpop]
          · rw [Frontier.unseen, heappop_none hpop]
            exact h
      | some popped =>
          obtain ⟨⟨key, node⟩, heap⟩ := popped
          have hitems := heappop_some hpop
          obtain ⟨hnode, box, hbox, hkey⟩ := hkeyed (key, node) (hitems ▸ List.mem_cons_self)
          have hkeyed' : Frontier.Keyed center metric ⟨heap, frontier.frontierSequence⟩ :=
            fun item hitem => hkeyed item (hitems ▸ List.mem_cons_of_mem _ hitem)
          have hunseen : frontier.unseen = node.contents ++
              Frontier.unseen ⟨heap, frontier.frontierSequence⟩ := by
            rw [Frontier.unseen, hitems, List.flatMap_cons, Frontier.unseen]
          have hsize : frontier.size = node.ids.length +
              Frontier.size ⟨heap, frontier.frontierSequence⟩ := by
            rw [Frontier.size, hitems]
            rfl
          rw [visitFrontier, hpop]
          dsimp only
          by_cases hbreak : c.best.length = k ∧ ((ofLex key).1 : WithTop D) > tau
          · -- all other nodes have greater bounds
            rw [if_pos hbreak]
            refine ⟨c, rfl, h.leave_out_all hwithin hbreak.1 hsound fun item hitem => ?_⟩
            obtain ⟨hnode', box', hbox', hkey'⟩ := hkeyed item hitem
            refine ⟨hnode', box', hbox', hbreak.2.trans_le ?_⟩
            rw [← hkey', WithTop.coe_le_coe]
            rw [hitems] at hitem
            rcases List.mem_cons.mp hitem with rfl | hitem
            · exact le_refl _
            · exact Prod.Lex.monotone_fst _ _ (le_of_heappop hpop item hitem)
          rw [if_neg hbreak]
          cases hnode with
          | @leaf id entries mbr _ =>
              obtain ⟨c₁, hexamine, h₁⟩ := examine_all center metric hk entries h
              obtain ⟨tau', hbound, hwithin'⟩ := bound_spec hk h₁ tau
              rw [ids_leaf, List.length_singleton] at hsize
              obtain ⟨c₂, hvisit, h₂⟩ := ih (by omega) hkeyed' hwithin' h₁
              refine ⟨c₂, ?_, h₂.perm ?_⟩
              · dsimp only
                rw [hexamine, ok_bind, hbound, ok_bind]
                exact hvisit
              · rw [hunseen, contents_leaf, List.map_append, ← List.append_assoc]
                exact List.perm_append_comm.append_right _
          | @internal id entries mbr _ _ hchildren =>
              obtain ⟨children, hiter, hcontents, hsub, hboxes⟩ :=
                iter_child_nodes_eq hchildren
              have hmem : ∀ child ∈ children, RTreeNode.WellFormed child.2 := by
                intro child hchild
                obtain ⟨e, he, heq⟩ := List.mem_map.mp (hsub.subset (List.mem_map_of_mem hchild))
                rw [← heq]
                exact hchildren e he
              obtain ⟨leftOut, frontier', hfold, hkeyed₁, hperm, hle, h₁⟩ :=
                push_children_spec hsound hwithin hmem hboxes hkeyed' h
              have hlen := stack_size_le hsub
              rw [ids_internal, List.length_cons] at hsize
              obtain ⟨c₂, hvisit, h₂⟩ := ih (by omega) hkeyed₁ hwithin h₁
              refine ⟨c₂, ?_, h₂.perm ?_⟩
              · dsimp only
                rw [hiter, ok_bind, hfold]
                exact hvisit
              · rw [hunseen, contents_internal, hcontents, ← List.append_assoc,
                  ← List.map_append]
                exact (hperm.map _).append_right _

end Frontier

/-! ## The result -/

/-- The nearest neighbours are the first of all stored entries by distance, coordinates and
RID, each of them once. -/
theorem knn_hits_exact [IsStrictOrderedRing K] [IsOrderedAddMonoid D]
    {root : Option (RTreeNode K)} (hroot : ∀ node ∈ root, RTreeNode.WellFormed node)
    {metric : SpatialMetric K D} (hsound : metric.Sound) (center : Point K) {k : ℤ} (hk : 1 ≤ k) :
    knnHits root center k metric =
      .ok ((((stored root).map (hitOf center metric)).insertionSort
        (fun a b => hitRank a ≤ hitRank b)).take k.toNat) := by
  have hpos : ¬ k ≤ 0 := by omega
  cases root with
  | none =>
      rw [knnHits, if_neg hpos, stored, List.map_nil, List.insertionSort_nil,
        List.take_nil]
  | some root =>
      have hwell := hroot root rfl
      rw [knnHits, if_neg hpos, stored]
      cases hbox : root.mbr with
      | none =>
          rw [contents_of_no_box hwell hbox, List.map_nil, List.insertionSort_nil,
            List.take_nil]
      | some box =>
          have hempty : Frontier.Keyed center metric (⟨empty, 0⟩ : Frontier K D) :=
            fun item hitem => absurd hitem List.not_mem_nil
          have hkeyed := hempty.push hwell hbox
          have hsize : ((⟨empty, 0⟩ : Frontier K D).push
              (metric.lowerBound center box) root).size = root.ids.length := by
            rw [Frontier.size_push]
            rfl
          have hwithin : Within k.toNat ⊤ (⟨empty, 0⟩ : Candidates K D) :=
            fun _ _ _ => le_top
          obtain ⟨c, hvisit, h⟩ := visit_frontier_spec (by omega) hsound hsize.le hkeyed hwithin
            (holds_nil k.toNat 0)
          have hperm := Frontier.unseen_push (⟨empty, 0⟩ : Frontier K D)
            (metric.lowerBound center box) root
          have hnone : (⟨empty, 0⟩ : Frontier K D).unseen = [] := rfl
          rw [hnone, List.append_nil] at hperm
          rw [List.append_nil] at h
          have hsorted := (h.perm (hperm.map (hitOf center metric))).best.insertionSort_eq
          dsimp only
          rw [hvisit, ok_bind]
          exact congrArg Except.ok hsorted

/-- Two entries at the same distance, of which the first by coordinates is taken. -/
theorem knn_hits_exact_four_points :
    knnHits fourPoints.root ⟨2, 1⟩ 2 streets =
      .ok [⟨⟨1, 2⟩, ⟨0, 2⟩, 2⟩, ⟨⟨0, 0⟩, ⟨0, 0⟩, 3⟩] :=
  (knn_hits_exact wellFormed_four_points sound_streets ⟨2, 1⟩ (k := 2) (by decide)).trans
    (by decide +kernel)

end SoupDB
