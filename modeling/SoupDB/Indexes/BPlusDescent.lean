import SoupDB.Indexes.BPlusShape

/-!
# SoupDB: the descent in a B+ tree

`findLeafPageId` goes down by the separators.  Whatever the keys, a descent that
returns ends in a leaf of the tree.  Where the keys of the tree are ascending and can be
compared with the key, it returns (`findLeafFrom_total`), and the leaf it ends in is
placed by the key (`findLeafFrom_ok`): with a left bias everything before the leaf is
below the key and nothing after it is; with a right bias everything before it is at most
the key and everything after it above the key.
-/

namespace SoupDB.BPlusTree

open BPlusPage List

variable {t : BPlusTree} {key : Value} {leftBias : Bool}

variable {d : DiskManager} {pageId : Int} {keys : List Value} {children : List Tree}

/-- One step down. -/
theorem findLeafFrom_node {parent : Option Int} (hd : t.disk = d)
    (hi : IsInternal d pageId
      { parentPageId := parent, keys := keys, children := children.map Tree.pid }) (rounds : Nat) :
    findLeafFrom t key leftBias (rounds + 1) pageId =
      ((if leftBias then bisectLeft keys key else bisectRight keys key) >>= fun childIndex =>
        match (children.map Tree.pid)[childIndex]? with
        | some childPageId => findLeafFrom t key leftBias rounds childPageId
        | none => .error (.IndexError "tuple index out of range")) := by
  obtain ⟨page, hr, he⟩ := hi
  obtain ⟨ht, hdec⟩ := decode_internal_encode_internal he
  have hne : PAGE_TYPE_INTERNAL ≠ PAGE_TYPE_LEAF := by decide
  rw [findLeafFrom]
  unfold readPage
  simp only [hd, hr, ok_bind, ht, hne, if_false, ne_eq, not_true_eq_false, hdec]
  cases leftBias <;> rfl

theorem findLeafFrom_leaf {node : LeafNode} (hl : IsLeaf t.disk pageId node) (rounds : Nat) :
    findLeafFrom t key leftBias (rounds + 1) pageId = .ok pageId := by
  obtain ⟨page, hr, he⟩ := hl
  obtain ⟨ht, _⟩ := decode_leaf_encode_leaf he
  rw [findLeafFrom]
  unfold readPage
  simp only [hr, ok_bind, ht, if_true]

/-- The frame around the child with an index. -/
def childFrame (pageId : Int) (keys : List Value) (children : List Tree) (i : Nat) : Frame where
  pageId := pageId
  keysL := keys.take i
  left := children.take i
  keysR := keys.drop i
  right := children.drop (i + 1)

section ChildFrame

variable {d : DiskManager} {fs : List Frame} {pageId : Int} {keys : List Value}
  {children : List Tree} {i : Nat}

theorem childFrame_fill (hi : i < children.length) :
    (childFrame pageId keys children i).fill children[i] = .node pageId keys children := by
  unfold childFrame Frame.fill
  simp only [take_append_drop, ← drop_eq_getElem_cons hi]

theorem framesRep_child (hframes : FramesRep d fs pageId)
    (hnode : IsInternal d pageId
      { parentPageId := parentOf fs, keys := keys, children := children.map Tree.pid })
    (hlen : children.length = keys.length + 1)
    (hc : ∀ c ∈ children, Rep d (some pageId) c) (hi : i < children.length) :
    FramesRep d (childFrame pageId keys children i :: fs) children[i].pid := by
  refine ⟨?_, ?_, ?_, ?_, hframes⟩
  · simp only [childFrame, length_take]
    omega
  · simp only [childFrame, length_drop]
    omega
  · have hpids : children.map Tree.pid = (children.take i).map Tree.pid ++
        children[i].pid :: (children.drop (i + 1)).map Tree.pid := by
      rw [← map_cons, ← map_append, ← drop_eq_getElem_cons hi,
        take_append_drop]
    simp only [childFrame, take_append_drop, ← hpids]
    exact hnode
  · intro c hcm
    rcases mem_append.mp hcm with hcm | hcm
    · exact hc c (mem_of_mem_take hcm)
    · exact hc c (mem_of_mem_drop hcm)

end ChildFrame

theorem bisect_side_le {i : Nat}
    (h : (if leftBias then bisectLeft keys key else bisectRight keys key) = .ok i) :
    i ≤ keys.length := by
  split at h
  · exact bisect_le_length h
  · exact bisect_le_length h

/-! ## Sorted keys -/

/-- The keys are in the order of their tokens. -/
def Ascending (keys : List Value) : Prop := keys.Pairwise (fun a b => a.ord ≤ b.ord)

section Blocks

variable {seps : List Value} {blocks : List (List Value)}

theorem keysOf_blocksBefore (d : DiskManager) : ∀ (seps : List Value) (blocks : List (List Item)),
    keysOf d (blocksBefore (seps.map .inl) blocks) = blocksBefore seps (blocks.map (keysOf d))
  | [], [] => rfl
  | [], _ :: _ => rfl
  | _ :: _, [] => rfl
  | sep :: seps, block :: blocks => by
      have ih := keysOf_blocksBefore d seps blocks
      simp only [map_cons, blocksBefore, keysOf_append]
      rw [← ih]
      simp [keysOf]

theorem keysOf_blocksAfter (d : DiskManager) : ∀ (seps : List Value) (blocks : List (List Item)),
    keysOf d (blocksAfter (seps.map .inl) blocks) = blocksAfter seps (blocks.map (keysOf d))
  | [], [] => rfl
  | [], _ :: _ => rfl
  | _ :: _, [] => rfl
  | sep :: seps, block :: blocks => by
      have ih := keysOf_blocksAfter d seps blocks
      simp only [map_cons, blocksAfter]
      rw [← ih]
      simp [keysOf]

/-- In ascending order, what stands before separators below a bound is below it. -/
theorem below_blocksBefore {below : List Value.Token → Prop}
    (hdown : ∀ a b, a ≤ b → below b → below a) : ∀ {seps : List Value} {blocks : List (List Value)},
      Ascending (blocksBefore seps blocks) → (∀ k ∈ seps, below k.ord) →
      ∀ k ∈ blocksBefore seps blocks, below k.ord
  | [], _, _, _, k, hk => by simp [blocksBefore] at hk
  | _ :: _, [], _, _, k, hk => by simp [blocksBefore] at hk
  | sep :: seps, block :: blocks, hasc, hseps, k, hk => by
      unfold Ascending at hasc
      simp only [blocksBefore] at hasc hk
      obtain ⟨_, hrest, hcross⟩ := pairwise_append.mp hasc
      rw [mem_append, mem_cons] at hk
      rcases hk with hk | rfl | hk
      · exact hdown _ _ (hcross k hk sep (by simp)) (hseps sep (by simp))
      · exact hseps k (by simp)
      · exact below_blocksBefore hdown (pairwise_cons.mp hrest).2
          (fun k' hk' => hseps k' (mem_cons_of_mem _ hk')) k hk

/-- In ascending order, what stands after separators above a bound is above it. -/
theorem above_blocksAfter {above : List Value.Token → Prop}
    (hup : ∀ a b, a ≤ b → above a → above b) : ∀ {seps : List Value} {blocks : List (List Value)},
      Ascending (blocksAfter seps blocks) → (∀ k ∈ seps, above k.ord) →
      ∀ k ∈ blocksAfter seps blocks, above k.ord
  | [], _, _, _, k, hk => by simp [blocksAfter] at hk
  | _ :: _, [], _, _, k, hk => by simp [blocksAfter] at hk
  | sep :: seps, block :: blocks, hasc, hseps, k, hk => by
      unfold Ascending at hasc
      simp only [blocksAfter] at hasc hk
      obtain ⟨hsep, _⟩ := pairwise_cons.mp hasc
      rcases mem_cons.mp hk with rfl | hk
      · exact hseps k (by simp)
      · exact hup _ _ (hsep k hk) (hseps sep (by simp))

/-- Separators between blocks keep their order among the keys. -/
theorem sublist_blocksAfter : ∀ {seps : List Value} {blocks : List (List Value)},
    seps.length = blocks.length → seps.Sublist (blocksAfter seps blocks)
  | [], _, _ => nil_sublist _
  | _ :: _, [], h => by simp at h
  | sep :: seps, block :: blocks, h => by
      have ih := @sublist_blocksAfter seps blocks (by simpa using h)
      simp only [blocksAfter]
      exact (ih.trans (sublist_append_right _ _)).cons_cons _

end Blocks

/-- The order the bias of a descent puts before the leaf it ends in. -/
def Before (leftBias : Bool) (key : Value) (tokens : List Value.Token) : Prop :=
  if leftBias then tokens < key.ord else tokens ≤ key.ord

instance : Decidable (Before leftBias key tokens) := by
  unfold Before
  infer_instance

theorem Before.down {a b : List Value.Token} (hab : a ≤ b) (hb : Before leftBias key b) :
    Before leftBias key a := by
  unfold Before at hb ⊢
  split
  · next hbias =>
      rw [if_pos hbias] at hb
      exact lt_of_le_of_lt hab hb
  · next hbias =>
      rw [if_neg hbias] at hb
      exact hab.trans hb

/-- On keys that can be compared with the key, the bisection of the separators finds the
end of those that come before. -/
theorem bisect_side_spec (leftBias : Bool) (hasc : Ascending keys)
    (hcomp : ∀ k ∈ keys, Value.Comparable k key) :
    ∃ i, (if leftBias then bisectLeft keys key else bisectRight keys key) = .ok i ∧
      i ≤ keys.length ∧ (∀ k ∈ keys.take i, Before leftBias key k.ord) ∧
      (∀ k ∈ keys.drop i, ¬ Before leftBias key k.ord) := by
  have hmono : keys.Pairwise (fun a b => Before leftBias key b.ord → Before leftBias key a.ord) :=
    hasc.imp (fun hab hb => hb.down hab)
  cases leftBias with
  | true =>
      refine bisect_spec ?_ hmono
      intro k hk
      rw [Value.lt_of_comparable (hcomp k hk)]
      rfl
  | false =>
      refine bisect_spec ?_ hmono
      intro k hk
      rw [Value.lt_of_comparable (hcomp k hk).symm, ok_bind, Except.ok.injEq, Bool.eq_iff_iff]
      simp [Before]

/-- The leaf a descent ends in is placed by the key. -/
structure Placed (d : DiskManager) (leftBias : Bool) (key : Value) (fs : List Frame) : Prop where
  before : ∀ k ∈ keysOf d (itemsBefore fs), Before leftBias key k.ord
  after : ∀ k ∈ keysOf d (itemsAfter fs), ¬ Before leftBias key k.ord

/-- Nothing stands before or after the root. -/
theorem placed_nil (d : DiskManager) (leftBias : Bool) (key : Value) :
    Placed d leftBias key [] :=
  ⟨by simp [itemsBefore, keysOf], by simp [itemsAfter, keysOf]⟩

/-- The separators on one level, in order among all keys. -/
theorem sublist_keys_of_node {p : Int} (hlen : children.length = keys.length + 1) :
    keys.Sublist (keysOf d (Tree.node p keys children).items) := by
  cases children with
  | nil => simp at hlen
  | cons c children =>
      rw [Tree.items, map_cons, interleave, keysOf_append, keysOf_blocksAfter]
      refine (sublist_blocksAfter ?_).trans (sublist_append_right _ _)
      simpa using hlen.symm

theorem keysOf_child {d : DiskManager} {pageId : Int} {keys : List Value} {children : List Tree}
    {i : Nat} (hlen : children.length = keys.length + 1) (hi : i < children.length) :
    keysOf d (Tree.node pageId keys children).items =
      blocksBefore (keys.take i) ((children.take i).map (fun c => keysOf d c.items)) ++
        keysOf d children[i].items ++
        blocksAfter (keys.drop i) ((children.drop (i + 1)).map (fun c => keysOf d c.items)) := by
  have hseps : ((keys.take i).map (Sum.inl : Value → Item)).length
      = ((children.take i).map Tree.items).length := by
    simp only [length_map, length_take]
    omega
  have hkeys : keys.map (Sum.inl : Value → Item)
      = (keys.take i).map .inl ++ (keys.drop i).map .inl := by
    rw [← map_append, take_append_drop]
  have hchildren : children.map Tree.items = (children.take i).map Tree.items ++
      children[i].items :: (children.drop (i + 1)).map Tree.items := by
    rw [← map_cons, ← map_append, ← drop_eq_getElem_cons hi, take_append_drop]
  rw [Tree.items, hkeys, hchildren, interleave_append_cons _ _ _ hseps]
  simp only [keysOf_append, keysOf_blocksBefore, keysOf_blocksAfter, map_map]
  rfl

theorem Placed.child {fs : List Frame} {i : Nat} (h : Placed d leftBias key fs)
    (hlen : children.length = keys.length + 1) (hi : i < children.length)
    (hasc : Ascending (keysOf d (Tree.node pageId keys children).items))
    (hbefore : ∀ k ∈ keys.take i, Before leftBias key k.ord)
    (hafter : ∀ k ∈ keys.drop i, ¬ Before leftBias key k.ord) :
    Placed d leftBias key (childFrame pageId keys children i :: fs) := by
  rw [keysOf_child hlen hi] at hasc
  obtain ⟨hfront, hascAfter, _⟩ := pairwise_append.mp hasc
  have hascBefore := (pairwise_append.mp hfront).1
  constructor
  · intro k hk
    simp only [itemsBefore, childFrame, keysOf_append, keysOf_blocksBefore, map_map,
      mem_append] at hk
    rcases hk with hk | hk
    · exact h.before k hk
    · exact below_blocksBefore (fun a b hab hb => Before.down hab hb) hascBefore hbefore k hk
  · intro k hk
    simp only [itemsAfter, childFrame, keysOf_append, keysOf_blocksAfter, map_map,
      mem_append] at hk
    rcases hk with hk | hk
    · have hup : ∀ a b, a ≤ b → ¬ Before leftBias key a → ¬ Before leftBias key b :=
        fun a b hab ha hb => ha (Before.down hab hb)
      exact above_blocksAfter hup hascAfter hafter k hk
    · exact h.after k hk

theorem ascending_child {i : Nat} (hlen : children.length = keys.length + 1)
    (hi : i < children.length)
    (hasc : Ascending (keysOf d (Tree.node pageId keys children).items)) :
    Ascending (keysOf d children[i].items) := by
  rw [keysOf_child hlen hi] at hasc
  exact (pairwise_append.mp (pairwise_append.mp hasc).1).2.1

theorem keysOf_child_subset {d : DiskManager} {pageId : Int} {keys : List Value}
    {children : List Tree} {i : Nat} (hlen : children.length = keys.length + 1)
    (hi : i < children.length) :
    keysOf d children[i].items ⊆ keysOf d (Tree.node pageId keys children).items := by
  rw [keysOf_child hlen hi]
  intro k hk
  simp [hk]

theorem findLeafFrom_ok : ∀ {rounds : Nat} {T : Tree} {fs : List Frame} {p : Int},
    FramesRep t.disk fs T.pid → Rep t.disk (parentOf fs) T →
      findLeafFrom t key leftBias rounds T.pid = .ok p →
      ∃ fs', FramesRep t.disk fs' p ∧ Rep t.disk (parentOf fs') (.leaf p) ∧
        plug fs' (.leaf p) = plug fs T ∧
        (Ascending (keysOf t.disk T.items) →
          (∀ k ∈ keysOf t.disk T.items, Value.Comparable k key) →
          Placed t.disk leftBias key fs → Placed t.disk leftBias key fs') := by
  intro rounds
  induction rounds with
  | zero =>
      intro T fs p _ _ h
      simp [findLeafFrom] at h
  | succ rounds ih =>
      intro T fs p hframes hrep h
      cases hrep with
      | @leaf _ pageId next entries hl =>
          rw [Tree.pid, findLeafFrom_leaf hl, Except.ok.injEq] at h
          subst h
          exact ⟨fs, hframes, .leaf next entries hl, rfl, fun _ _ hplaced => hplaced⟩
      | @node _ pageId keys children hi hlen hc =>
          rw [Tree.pid, findLeafFrom_node rfl hi, bind_eq_ok] at h
          obtain ⟨i, hbisect, h⟩ := h
          have hile := bisect_side_le hbisect
          have hilt : i < children.length := by omega
          simp only [getElem?_map, getElem?_eq_getElem hilt, Option.map_some] at h
          have hchild := framesRep_child hframes hi hlen hc hilt
          obtain ⟨fs', hfs', hleaf, hplug, hplaced⟩ :=
            ih hchild (hc _ (getElem_mem hilt)) h
          refine ⟨fs', hfs', hleaf, ?_, ?_⟩
          · rw [hplug, plug, childFrame_fill hilt]
            rfl
          · intro hasc hcomp hhere
            have hsub := sublist_keys_of_node (d := t.disk) (p := pageId) hlen
            obtain ⟨i', hbisect', _, hbefore, hafter⟩ :=
              bisect_side_spec leftBias (hasc.sublist hsub) (fun k hk => hcomp k (hsub.subset hk))
            rw [hbisect, Except.ok.injEq] at hbisect'
            subst hbisect'
            exact hplaced (ascending_child hlen hilt hasc)
              (fun k hk => hcomp k (keysOf_child_subset hlen hilt hk))
              (hhere.child hlen hilt hasc hbefore hafter)

theorem findLeafFrom_total : ∀ {rounds : Nat} {T : Tree} {parent : Option Int},
    Rep t.disk parent T → Ascending (keysOf t.disk T.items) →
      (∀ k ∈ keysOf t.disk T.items, Value.Comparable k key) → T.pids.length ≤ rounds →
      ∃ p, findLeafFrom t key leftBias rounds T.pid = .ok p := by
  intro rounds
  induction rounds with
  | zero =>
      intro T parent _ _ _ hrounds
      have hpos := length_pos_of_mem T.pid_mem_pids
      omega
  | succ rounds ih =>
      intro T parent hrep hasc hcomp hrounds
      cases hrep with
      | @leaf _ pageId next entries hl => exact ⟨pageId, findLeafFrom_leaf hl rounds⟩
      | @node _ pageId keys children hi hlen hc =>
          have hsub := sublist_keys_of_node (d := t.disk) (p := pageId) hlen
          obtain ⟨i, hbisect, hile, _⟩ :=
            bisect_side_spec leftBias (hasc.sublist hsub) (fun k hk => hcomp k (hsub.subset hk))
          have hilt : i < children.length := by omega
          have hpids : children[i].pids.length ≤ rounds := by
            have hle : children[i].pids.Sublist (children.flatMap Tree.pids) :=
              sublist_flatten_of_mem (mem_map.mpr ⟨_, getElem_mem hilt, rfl⟩)
            have hl := hle.length_le
            simp only [Tree.pids, length_cons] at hrounds
            omega
          obtain ⟨p, hfind⟩ := ih (hc _ (getElem_mem hilt)) (ascending_child hlen hilt hasc)
            (fun k hk => hcomp k (keysOf_child_subset hlen hilt hk)) hpids
          refine ⟨p, ?_⟩
          rw [Tree.pid, findLeafFrom_node rfl hi, hbisect, ok_bind]
          simp only [getElem?_map, getElem?_eq_getElem hilt, Option.map_some]
          exact hfind

end SoupDB.BPlusTree
