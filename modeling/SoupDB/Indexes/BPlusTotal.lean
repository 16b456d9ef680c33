import SoupDB.Indexes.BPlusAtomic
import Mathlib.Algebra.Order.BigOperators.Group.List

/-!
# SoupDB: when an insert into a B+ tree returns

An overfull node is split in two at an entry boundary, and entries vary in size: where no
boundary leaves two nodes that fit in pages, the insert raises.  `insert_returns` says that
an insert returns exactly when the leaf and every full parent on the way up have such a
boundary (`takesIn`), and that they have one when no entry takes more than half of a page.
-/

namespace SoupDB

open DiskManager List

/-! ## Cutting a list of sizes -/

section Cut

variable {sizes : List Nat} {D : Nat}

/-- The longest first part that is not too large. -/
theorem exists_prefix (hlt : D < sizes.sum) :
    ∃ i < sizes.length, (sizes.take i).sum ≤ D ∧ D < (sizes.take (i + 1)).sum := by
  induction sizes generalizing D with
  | nil => simp at hlt
  | cons x sizes ih =>
      rw [sum_cons] at hlt
      rcases Nat.lt_or_ge D x with hx | hx
      · exact ⟨0, by simp, by simp, by simpa using hx⟩
      · obtain ⟨i, hi, hle, hgt⟩ := ih (D := D - x) (by omega)
        refine ⟨i + 1, by simpa using hi, ?_, ?_⟩
        · rw [take_succ_cons, sum_cons]
          omega
        · rw [take_succ_cons, sum_cons]
          omega

theorem sum_take_add_sum_drop (sizes : List Nat) (i : Nat) :
    (sizes.take i).sum + (sizes.drop i).sum = sizes.sum := by
  rw [← sum_append, take_append_drop]

variable (hhalf : ∀ x ∈ sizes, 2 * x ≤ D) (hlt : D < sizes.sum) (hsum : 2 * sizes.sum ≤ 3 * D)
include hhalf hlt hsum

/-- Sizes of at most half of what fits, one more than fit, can be cut in two parts that fit. -/
theorem exists_cut :
    ∃ i, 0 < i ∧ i < sizes.length ∧ (sizes.take i).sum ≤ D ∧ (sizes.drop i).sum ≤ D := by
  obtain ⟨i, hi, hle, hgt⟩ := exists_prefix hlt
  have hx := hhalf sizes[i] (getElem_mem hi)
  have htotal := sum_take_add_sum_drop sizes i
  rw [take_succ_eq_append_getElem hi, sum_append, sum_singleton] at hgt
  refine ⟨i, Nat.pos_of_ne_zero ?_, hi, hle, by omega⟩
  rintro rfl
  rw [take_zero, sum_nil] at hgt
  omega

/-- The same with one size between the parts left out, and neither part empty. -/
theorem exists_cut_around :
    ∃ i, 0 < i ∧ i + 1 < sizes.length ∧ (sizes.take i).sum ≤ D ∧
      (sizes.drop (i + 1)).sum ≤ D := by
  obtain ⟨i, hpos, hi, hle, hrest⟩ := exists_cut hhalf hlt hsum
  rcases Nat.lt_or_ge (i + 1) sizes.length with hlast | hlast
  · have htotal := sum_take_add_sum_drop sizes i
    have htotal' := sum_take_add_sum_drop sizes (i + 1)
    rw [take_succ_eq_append_getElem hi, sum_append, sum_singleton] at htotal'
    exact ⟨i, hpos, hlast, hle, by omega⟩
  · -- the cut is before the last size: one place further to the front
    obtain ⟨j, rfl⟩ : ∃ j, i = j + 1 := ⟨i - 1, by omega⟩
    have hj : j < sizes.length := by omega
    have htotal := sum_take_add_sum_drop sizes (j + 1)
    rw [take_succ_eq_append_getElem hj, sum_append, sum_singleton] at hle htotal
    refine ⟨j, Nat.pos_of_ne_zero ?_, by omega, by omega, by omega⟩
    rintro rfl
    have hx := hhalf sizes[0] (getElem_mem hj)
    have hy := hhalf sizes[1] (getElem_mem hi)
    have hdrop : sizes.drop 1 = [sizes[1]] := by
      rw [drop_eq_getElem_cons hi, drop_eq_nil_of_le (by omega)]
    rw [hdrop, sum_singleton, take_zero, sum_nil] at htotal
    omega

end Cut

namespace BPlusTree

open BPlusPage Effect

/-! ## Sizes of entries -/

/-- The bytes a key takes with its length. -/
def fieldSize (key : Value) : Nat :=
  match encodeKeyField key with
  | .ok field => field.length
  | .error _ => 0

/-- An entry of the key takes at most half of the room of a page. -/
def Half (pageSize : Nat) (key : Value) : Prop :=
  ∃ field, encodeKeyField key = .ok field ∧ HEADER_SIZE + 2 * (field.length + 8) ≤ pageSize

/-- The numbers of a RID fit in their fields. -/
def RidFits (rid : RID) : Prop :=
  (-2 ^ 31 ≤ rid.pageId ∧ rid.pageId < 2 ^ 31) ∧ (-2 ^ 31 ≤ rid.slot ∧ rid.slot < 2 ^ 31)

instance decidableHalf (pageSize : Nat) (key : Value) : Decidable (Half pageSize key) :=
  match h : encodeKeyField key with
  | .ok field =>
      decidable_of_iff (HEADER_SIZE + 2 * (field.length + 8) ≤ pageSize)
        ⟨fun hle => ⟨field, h, hle⟩, fun ⟨_, hfield, hle⟩ =>
          Except.ok.inj (hfield.symm.trans h) ▸ hle⟩
  | .error _ => .isFalse (fun ⟨_, hfield, _⟩ => by rw [h] at hfield; cases hfield)

variable {pageSize : Nat} {entries : List Entry} {children : List Int} {t : BPlusTree}

theorem Half.fieldSize {key : Value} (h : Half pageSize key) :
    HEADER_SIZE + 2 * (fieldSize key + 8) ≤ pageSize := by
  obtain ⟨field, hfield, hle⟩ := h
  rw [BPlusTree.fieldSize, hfield]
  exact hle

theorem encodeEntries_ok_iff :
    (∃ payload, encodeEntries entries = .ok payload) ↔
      ∀ e ∈ entries, (∃ field, encodeKeyField e.1 = .ok field) ∧ RidFits e.2 := by
  induction entries with
  | nil => simp [encodeEntries]
  | cons e entries ih =>
      obtain ⟨key, rid⟩ := e
      rw [forall_mem_cons, ← ih]
      constructor
      · rintro ⟨payload, h⟩
        simp only [encodeEntries, bind_eq_ok] at h
        obtain ⟨field, hfield, p, hp, s, hs, body, hbody, -⟩ := h
        exact ⟨⟨⟨field, hfield⟩, (packInt32_ok_iff _ _).mp ⟨p, hp⟩,
          (packInt32_ok_iff _ _).mp ⟨s, hs⟩⟩, body, hbody⟩
      · rintro ⟨⟨⟨field, hfield⟩, hpage, hslot⟩, body, hbody⟩
        obtain ⟨p, hp⟩ := (packInt32_ok_iff _ "RID is outside signed 32-bit range").mpr hpage
        obtain ⟨s, hs⟩ := (packInt32_ok_iff _ "RID is outside signed 32-bit range").mpr hslot
        exact ⟨field ++ p ++ s ++ body, by
          simp only [encodeEntries, hfield, hp, hs, hbody, ok_bind]⟩

theorem length_encodeEntries {payload : Bytes} (h : encodeEntries entries = .ok payload) :
    payload.length = (entries.map (fun e => fieldSize e.1 + 8)).sum := by
  induction entries generalizing payload with
  | nil =>
      obtain rfl := Except.ok.inj h
      rfl
  | cons e entries ih =>
      simp only [encodeEntries, bind_eq_ok, Except.ok.injEq] at h
      obtain ⟨field, hfield, p, hp, s, hs, body, hbody, rfl⟩ := h
      have hlp := Pack.length_packI (packInt32_ok hp)
      have hls := Pack.length_packI (packInt32_ok hs)
      rw [map_cons, sum_cons, ← ih hbody, fieldSize, hfield]
      simp only [length_append]
      omega

theorem encodeChildren_ok_iff {keys : List Value} (hlength : children.length = keys.length) :
    (∃ payload, encodeChildren keys children = .ok payload) ↔
      (∀ key ∈ keys, ∃ field, encodeKeyField key = .ok field) ∧
        ∀ child ∈ children, -2 ^ 31 ≤ child ∧ child < 2 ^ 31 := by
  induction keys generalizing children with
  | nil =>
      rw [length_nil, length_eq_zero_iff] at hlength
      subst hlength
      simp [encodeChildren]
  | cons key keys ih =>
      cases children with
      | nil => simp at hlength
      | cons child children =>
          rw [forall_mem_cons, forall_mem_cons]
          have ih := @ih children (by simpa using hlength)
          constructor
          · rintro ⟨payload, h⟩
            simp only [encodeChildren, bind_eq_ok] at h
            obtain ⟨field, hfield, c, hc, body, hbody, -⟩ := h
            obtain ⟨hkeys, hchildren⟩ := ih.mp ⟨body, hbody⟩
            exact ⟨⟨⟨field, hfield⟩, hkeys⟩, (packInt32_ok_iff _ _).mp ⟨c, hc⟩, hchildren⟩
          · rintro ⟨⟨⟨field, hfield⟩, hkeys⟩, hchild, hchildren⟩
            obtain ⟨c, hc⟩ := (packInt32_ok_iff _
              "child page id is outside signed 32-bit range").mpr hchild
            obtain ⟨body, hbody⟩ := ih.mpr ⟨hkeys, hchildren⟩
            exact ⟨field ++ c ++ body, by simp only [encodeChildren, hfield, hc, hbody, ok_bind]⟩

theorem length_encodeChildren {keys : List Value} {payload : Bytes}
    (hlength : children.length = keys.length) (h : encodeChildren keys children = .ok payload) :
    payload.length = (keys.map (fun key => fieldSize key + 4)).sum := by
  induction keys generalizing children payload with
  | nil =>
      rw [length_nil, length_eq_zero_iff] at hlength
      subst hlength
      obtain rfl := Except.ok.inj h
      rfl
  | cons key keys ih =>
      cases children with
      | nil => simp at hlength
      | cons child children =>
          simp only [encodeChildren, bind_eq_ok, Except.ok.injEq] at h
          obtain ⟨field, hfield, c, hc, body, hbody, rfl⟩ := h
          have hlc := Pack.length_packI (packInt32_ok hc)
          rw [map_cons, sum_cons, ← ih (by simpa using hlength) hbody, fieldSize,
            hfield]
          simp only [length_append]
          omega

/-! ## Nodes whose parts can be encoded -/

theorem encode_internal_of_size {pageSize : Nat} {node : InternalNode}
    (hlength : node.children.length = node.keys.length + 1)
    (hkeys : ∀ key ∈ node.keys, ∃ field, encodeKeyField key = .ok field)
    (hchildren : ∀ child ∈ node.children, -2 ^ 31 ≤ child ∧ child < 2 ^ 31)
    (hcount : node.keys.length ≤ 0xFFFF)
    (hsize : HEADER_SIZE + 4 + (node.keys.map (fun key => fieldSize key + 4)).sum ≤ pageSize)
    (hparent : IdFits node.parentPageId) :
    ∃ page, encodeInternal pageSize node = .ok page := by
  obtain ⟨parent, keys, children⟩ := node
  simp only at hlength hkeys hchildren hcount hsize hparent
  cases children with
  | nil => simp at hlength
  | cons first children =>
      have hlength' : children.length = keys.length := by simpa using hlength
      obtain ⟨rest, hrest⟩ := (encodeChildren_ok_iff hlength').mpr
        ⟨hkeys, fun c hc => hchildren c (mem_cons_of_mem _ hc)⟩
      obtain ⟨ff, hff⟩ := (packInt32_ok_iff first
        "child page id is outside signed 32-bit range").mpr (hchildren first (by simp))
      have hlff := Pack.length_packI (packInt32_ok hff)
      have hlrest := length_encodeChildren hlength' hrest
      refine encode_internal_ok_iff.mpr ⟨first, children, ff, rest, rfl, hlength', hff, hrest,
        ?_, hcount, hparent⟩
      rw [length_append]
      omega

/-! ## Splits of nodes of small entries -/

theorem leafSplit_of_halves {P r : Int} {next : Option Int}
    (hhalf : ∀ e ∈ entries, Half pageSize e.1 ∧ RidFits e.2) (hlength : 1 < entries.length)
    (hcount : entries.length ≤ 0xFFFF + 1)
    (hsum : 2 * (entries.map (fun e => fieldSize e.1 + 8)).sum + 3 * HEADER_SIZE ≤ 3 * pageSize)
    (hP : IdFits (some P)) (hr : IdFits (some r)) (hnext : IdFits next) :
    (leafSplit pageSize entries P r next).isSome = true := by
  have hencodes : ∀ part, part.Sublist entries → ∃ payload, encodeEntries part = .ok payload := by
    intro part hsub
    refine encodeEntries_ok_iff.mpr (fun e he => ?_)
    obtain ⟨⟨field, hfield, -⟩, hrid⟩ := hhalf e (hsub.subset he)
    exact ⟨⟨field, hfield⟩, hrid⟩
  have hheader : HEADER_SIZE ≤ pageSize := by
    obtain ⟨e, he⟩ := exists_mem_of_length_pos (by omega : 0 < entries.length)
    have hle := (hhalf e he).1.fieldSize
    omega
  -- a place where both parts have room
  have hcut : ∃ i, 0 < i ∧ i < entries.length ∧
      ((entries.take i).map (fun e => fieldSize e.1 + 8)).sum ≤ pageSize - HEADER_SIZE ∧
      ((entries.drop i).map (fun e => fieldSize e.1 + 8)).sum ≤ pageSize - HEADER_SIZE := by
    rcases Nat.lt_or_ge (pageSize - HEADER_SIZE)
      (entries.map (fun e => fieldSize e.1 + 8)).sum with hlt | hge
    · have hhalves : ∀ x ∈ entries.map (fun e => fieldSize e.1 + 8),
          2 * x ≤ pageSize - HEADER_SIZE := by
        intro x hx
        obtain ⟨e, he, rfl⟩ := mem_map.mp hx
        have hle := (hhalf e he).1.fieldSize
        omega
      obtain ⟨i, hpos, hi, hleft, hright⟩ := exists_cut hhalves hlt (by omega)
      rw [← map_take] at hleft
      rw [← map_drop] at hright
      exact ⟨i, hpos, by simpa using hi, hleft, hright⟩
    · have htotal := sum_take_add_sum_drop (entries.map (fun e => fieldSize e.1 + 8)) 1
      rw [← map_take, ← map_drop] at htotal
      exact ⟨1, by omega, hlength, by omega, by omega⟩
  obtain ⟨i, hpos, hi, hleft, hright⟩ := hcut
  obtain ⟨lp, hlp⟩ := hencodes _ (take_sublist i entries)
  obtain ⟨rp, hrp⟩ := hencodes _ (drop_sublist i entries)
  rw [← length_encodeEntries hlp] at hleft
  rw [← length_encodeEntries hrp] at hright
  have hlen := length_take (l := entries) (i := i)
  have hlen' := length_drop (l := entries) (i := i)
  refine leafSplit_isSome_iff.mpr ⟨i, mem_leafBoundaries.mpr ⟨⟨hpos, hi⟩, ?_, ?_⟩⟩
  · refine encode_leaf_ok_iff.mpr ⟨lp, hlp, by omega, ?_, hP, hr⟩
    change (entries.take i).length ≤ 0xFFFF
    omega
  · refine encode_leaf_ok_iff.mpr ⟨rp, hrp, by omega, ?_, hP, hnext⟩
    change (entries.drop i).length ≤ 0xFFFF
    omega

theorem internalSplit_of_halves {node : InternalNode} {P : Int}
    (hlength : node.children.length = node.keys.length + 1)
    (hhalf : ∀ key ∈ node.keys, Half pageSize key)
    (hchildren : ∀ child ∈ node.children, -2 ^ 31 ≤ child ∧ child < 2 ^ 31)
    (hkeys : 2 < node.keys.length) (hcount : node.keys.length ≤ 0xFFFF + 1)
    (hsum : 2 * (node.keys.map (fun key => fieldSize key + 4)).sum + 3 * (HEADER_SIZE + 4) ≤
      3 * pageSize) (hP : IdFits (some P)) :
    (internalSplit pageSize node P P).isSome = true := by
  have hfields : ∀ key ∈ node.keys, ∃ field, encodeKeyField key = .ok field := by
    intro key hkey
    obtain ⟨field, hfield, -⟩ := hhalf key hkey
    exact ⟨field, hfield⟩
  have hheader : HEADER_SIZE + 16 ≤ pageSize := by
    obtain ⟨key, hkey⟩ := exists_mem_of_length_pos (by omega : 0 < node.keys.length)
    have hle := (hhalf key hkey).fieldSize
    omega
  have hcut : ∃ i, 0 < i ∧ i + 1 < node.keys.length ∧
      ((node.keys.take i).map (fun key => fieldSize key + 4)).sum ≤
        pageSize - (HEADER_SIZE + 4) ∧
      ((node.keys.drop (i + 1)).map (fun key => fieldSize key + 4)).sum ≤
        pageSize - (HEADER_SIZE + 4) := by
    rcases Nat.lt_or_ge (pageSize - (HEADER_SIZE + 4))
      (node.keys.map (fun key => fieldSize key + 4)).sum with hlt | hge
    · have hhalves : ∀ x ∈ node.keys.map (fun key => fieldSize key + 4),
          2 * x ≤ pageSize - (HEADER_SIZE + 4) := by
        intro x hx
        obtain ⟨key, hkey, rfl⟩ := mem_map.mp hx
        have hle := (hhalf key hkey).fieldSize
        omega
      obtain ⟨i, hpos, hi, hleft, hright⟩ := exists_cut_around hhalves hlt (by omega)
      rw [← map_take] at hleft
      rw [← map_drop] at hright
      exact ⟨i, hpos, by simpa using hi, hleft, hright⟩
    · have htotal := sum_take_add_sum_drop (node.keys.map (fun key => fieldSize key + 4)) 1
      have htotal' := sum_take_add_sum_drop (node.keys.map (fun key => fieldSize key + 4))
        (1 + 1)
      rw [← map_take, ← map_drop] at htotal htotal'
      exact ⟨1, by omega, by omega, by omega, by omega⟩
  obtain ⟨i, hpos, hi, hleft, hright⟩ := hcut
  have hlenL := length_take (l := node.keys) (i := i)
  have hlenR := length_drop (l := node.keys) (i := i + 1)
  have hpart : ∀ (keys : List Value) (children : List Int), keys.Sublist node.keys →
      children.Sublist node.children → children.length = keys.length + 1 →
      keys.length ≤ 0xFFFF → (keys.map (fun key => fieldSize key + 4)).sum ≤
        pageSize - (HEADER_SIZE + 4) → ∃ page, encodeInternal pageSize
          { parentPageId := some P, keys, children } = .ok page := by
    intro keys children hsubK hsubC hlen hle hsize
    refine encode_internal_of_size hlen (fun key hkey => hfields key (hsubK.subset hkey))
      (fun c hc => hchildren c (hsubC.subset hc)) hle ?_ hP
    simp only
    omega
  have hlenCL := length_take (l := node.children) (i := i + 1)
  have hlenCR := length_drop (l := node.children) (i := i + 1)
  refine internalSplit_isSome_iff.mpr ⟨i, mem_internalBoundaries.mpr ⟨⟨hpos, hi⟩, ?_, ?_⟩⟩
  · exact hpart (node.keys.take i) (node.children.take (i + 1)) (take_sublist _ _)
      (take_sublist _ _) (by omega) (by omega) hleft
  · exact hpart (node.keys.drop (i + 1)) (node.children.drop (i + 1)) (drop_sublist _ _)
      (drop_sublist _ _) (by omega) (by omega) hright

/-! ## The way up -/

section Frames

variable {t : BPlusTree}

/-- The node with a new separator and a new child. -/
theorem insertChild_frame {fs : List Frame} {f : Frame} {hole right : Int} {sep : Value}
    (h : FramesRep t.disk (f :: fs) hole) (hnodup : (hole :: framePids (f :: fs)).Nodup) :
    ∃ parent, t.readInternal f.pageId = .ok parent ∧
      parent.children.idxOf? hole = some f.left.length ∧
      insertChild parent f.left.length sep right =
        { parentPageId := parentOf fs, keys := f.keysL ++ sep :: f.keysR,
          children := f.left.map Tree.pid ++ hole :: right :: f.right.map Tree.pid } := by
  have hlength : f.left.length = (f.left.map Tree.pid).length := by simp
  refine ⟨_, h.2.2.1.readInternal, ?_, ?_⟩
  · rw [hlength]
    refine idxOf?_append_cons _ _ _ (fun hmem => (nodup_cons.mp hnodup).1 ?_)
    obtain ⟨c, hc, rfl⟩ := mem_map.mp hmem
    simp only [framePids, flatMap_cons, Frame.pids, mem_append, mem_cons,
      mem_flatMap]
    exact Or.inl (Or.inr ⟨c, Or.inl hc, c.pid_mem_pids⟩)
  · have hinsert := insertChild_append (parentOf fs) f.keysR (f.right.map Tree.pid) hole right
      sep (by rw [← hlength]; exact h.1)
    rw [hlength]
    exact hinsert

/-- A node that is full with a small separator can be split. -/
theorem split_of_frame {fs : List Frame} {f : Frame} {hole right P : Int} {sep : Value}
    (h : FramesRep t.disk (f :: fs) hole) (hhole : t.disk.validPageId hole)
    (hhalf : ∀ key ∈ f.keysL ++ f.keysR, Half t.pageSize key) (hsep : Half t.pageSize sep)
    (hright : (t.disk.pageCount : Int) ≤ right ∧ right < 2 ^ 31) (hP : IdFits (some P))
    (hparent : IdFits (parentOf fs)) {e : PyError}
    (hfull : encodeInternal t.pageSize
      { parentPageId := parentOf fs, keys := f.keysL ++ sep :: f.keysR,
        children := f.left.map Tree.pid ++ hole :: right :: f.right.map Tree.pid } = .error e) :
    (∃ m, e = .ValueError m) ∧ (internalSplit t.pageSize
      { parentPageId := parentOf fs, keys := f.keysL ++ sep :: f.keysR,
        children := f.left.map Tree.pid ++ hole :: right :: f.right.map Tree.pid } P P).isSome =
      true := by
  obtain ⟨hl, hr, hi, hc, -⟩ := h
  obtain ⟨page, -, he⟩ := hi
  have hlength : (f.left.map Tree.pid ++ hole :: right :: f.right.map Tree.pid).length =
      (f.keysL ++ sep :: f.keysR).length + 1 := by
    simp only [length_append, length_cons, length_map]
    omega
  have hhalf' : ∀ key ∈ f.keysL ++ sep :: f.keysR, Half t.pageSize key := by
    intro key hkey
    rcases mem_append.mp hkey with hkey | hkey
    · exact hhalf key (mem_append_left _ hkey)
    · rcases mem_cons.mp hkey with rfl | hkey
      · exact hsep
      · exact hhalf key (mem_append_right _ hkey)
  have hchildren : ∀ child ∈ f.left.map Tree.pid ++ hole :: right :: f.right.map Tree.pid,
      -2 ^ 31 ≤ child ∧ child < 2 ^ 31 := by
    have hvalid : ∀ child, t.disk.validPageId child → -2 ^ 31 ≤ child ∧ child < 2 ^ 31 := by
      intro child hv
      unfold validPageId at hv
      omega
    have htree : ∀ c ∈ f.left ++ f.right, t.disk.validPageId c.pid :=
      fun c hmem => (hc c hmem).valid c.pid c.pid_mem_pids
    intro child hmem
    simp only [mem_append, mem_cons, mem_map] at hmem
    rcases hmem with ⟨c, hmem, rfl⟩ | rfl | rfl | ⟨c, hmem, rfl⟩
    · exact hvalid _ (htree c (mem_append_left _ hmem))
    · exact hvalid _ hhole
    · omega
    · exact hvalid _ (htree c (mem_append_right _ hmem))
  have hfields : ∀ key ∈ f.keysL ++ sep :: f.keysR, ∃ field, encodeKeyField key = .ok field :=
    fun key hkey => (hhalf' key hkey).imp (fun _ h => h.1)
  refine ⟨encode_internal_error hfields hfull, ?_⟩
  -- the node without the separator is in a page
  obtain ⟨first, children, ff, rest, hcons, hlen, hff, hrest, hfit, hcount, -⟩ :=
    encode_internal_ok_iff.mp ⟨page, he⟩
  have hlff := Pack.length_packI (packInt32_ok hff)
  have hold := length_encodeChildren hlen hrest
  rw [length_append, hlff, hold] at hfit
  have hnew := hsep.fieldSize
  have hsum : ((f.keysL ++ sep :: f.keysR).map (fun key => fieldSize key + 4)).sum =
      ((f.keysL ++ f.keysR).map (fun key => fieldSize key + 4)).sum + (fieldSize sep + 4) := by
    simp only [map_append, map_cons, sum_append, sum_cons]
    omega
  have hkeys : (f.keysL ++ sep :: f.keysR).length = (f.keysL ++ f.keysR).length + 1 := by
    simp only [length_append, length_cons]
    omega
  have hsize : t.pageSize = t.disk.pageSize := rfl
  simp only at hfit hcount
  refine internalSplit_of_halves hlength hhalf' hchildren ?_ (by simp only; omega)
    (by simp only; omega) hP
  -- two small keys fit in a page
  by_contra hfew
  simp only at hfew
  have hsmall : ((f.keysL ++ sep :: f.keysR).map (fun key => fieldSize key + 4)).sum ≤
      2 * ((t.pageSize - (HEADER_SIZE + 8)) / 2) := by
    have hle := sum_le_card_nsmul ((f.keysL ++ sep :: f.keysR).map
      (fun key => fieldSize key + 4)) ((t.pageSize - (HEADER_SIZE + 8)) / 2) (by
        intro x hx
        obtain ⟨key, hkey, rfl⟩ := mem_map.mp hx
        have hkey := (hhalf' key hkey).fieldSize
        omega)
    rw [length_map, Nat.nsmul_eq_mul] at hle
    exact hle.trans (Nat.mul_le_mul_right _ (by omega))
  have hroom : HEADER_SIZE + 4 + ((f.keysL ++ sep :: f.keysR).map
      (fun key => fieldSize key + 4)).sum ≤ t.pageSize := by
    omega
  have hfew' : (f.keysL ++ sep :: f.keysR).length ≤ 0xFFFF := by omega
  obtain ⟨page', hok⟩ := @encode_internal_of_size t.pageSize
    { parentPageId := parentOf fs, keys := f.keysL ++ sep :: f.keysR,
      children := f.left.map Tree.pid ++ hole :: right :: f.right.map Tree.pid }
    hlength hfields hchildren hfew' hroom hparent
  rw [hok] at hfull
  cases hfull

theorem promoted_mem {size : Nat} {node left right : InternalNode} {P : Int} {promoted : Value}
    (h : internalSplit size node P P = some (left, promoted, right)) :
    promoted ∈ node.keys := by
  obtain ⟨position, hpos, hat, -, -⟩ := internalSplit_some h
  have hkey := congrArg (fun x => x.2.1) hat
  simp only [internalSplitAt, getD_eq_getElem?_getD, getElem?_eq_getElem hpos,
    Option.getD_some] at hkey
  rw [← hkey]
  exact getElem_mem hpos

/-- The parents of a leaf take in a small separator, and the small ones that go up for it. -/
theorem absorbs_of_halves : ∀ {fs : List Frame} {f : Frame} {rounds : Nat} {hole right : Int}
    {sep : Value}, FramesRep t.disk (f :: fs) hole → (hole :: framePids (f :: fs)).Nodup →
      t.disk.validPageId hole →
      (∀ g ∈ f :: fs, ∀ key ∈ g.keysL ++ g.keysR, Half t.pageSize key) →
      Half t.pageSize sep → (t.disk.pageCount : Int) ≤ right →
      right + fs.length + 2 < 2 ^ 31 → fs.length < rounds →
      absorbs t rounds f.pageId hole sep right = true := by
  intro fs
  induction fs with
  | nil =>
      intro f rounds hole right sep h hnodup hhole hhalf hsep hright hroom hrounds
      obtain ⟨rounds, rfl⟩ : ∃ n, rounds = n + 1 := ⟨rounds - 1, by omega⟩
      obtain ⟨parent, hread, hidx, hupd⟩ :=
        @insertChild_frame t [] f hole right sep h hnodup
      rw [length_nil] at hroom
      unfold absorbs
      simp only [hread, hidx, hupd, parentOf]
      split
      · rfl
      · next m henc =>
          exact (split_of_frame (P := right + 2) h hhole (hhalf f (by simp)) hsep
            ⟨hright, by omega⟩ ⟨by omega, by omega⟩ trivial henc).2
      · next e hne henc =>
          obtain ⟨m, rfl⟩ := (split_of_frame (P := right + 2) h hhole (hhalf f (by simp)) hsep
            ⟨hright, by omega⟩ ⟨by omega, by omega⟩ trivial henc).1
          exact absurd rfl (hne m)
  | cons g fs ih =>
      intro f rounds hole right sep h hnodup hhole hhalf hsep hright hroom hrounds
      obtain ⟨rounds, rfl⟩ : ∃ n, rounds = n + 1 := ⟨rounds - 1, by omega⟩
      obtain ⟨parent, hread, hidx, hupd⟩ :=
        @insertChild_frame t (g :: fs) f hole right sep h hnodup
      rw [length_cons, Nat.cast_add, Nat.cast_one] at hroom
      have hframe := h.2.2.1.valid
      have hframes : FramesRep t.disk (g :: fs) f.pageId := h.2.2.2.2
      have hgrand : IdFits (some g.pageId) := by
        have hv := hframes.2.2.1.valid
        unfold validPageId at hv
        exact ⟨hv.1, by omega⟩
      have hnodup' : (f.pageId :: framePids (g :: fs)).Nodup := by
        have hrest := (nodup_cons.mp hnodup).2
        rw [framePids, flatMap_cons, Frame.pids, cons_append] at hrest
        refine List.Nodup.sublist ?_ hrest
        exact (sublist_append_right _ _).cons_cons _
      unfold absorbs
      simp only [hread, hidx, hupd, parentOf]
      split
      · rfl
      · next m henc =>
          have hsplit := (split_of_frame (P := g.pageId) h hhole (hhalf f (by simp)) hsep
            ⟨hright, by omega⟩ hgrand hgrand henc).2
          rw [parentOf] at hsplit
          split
          · next e herr =>
              rw [herr] at hsplit
              cases hsplit
          · next left promoted right' hok =>
              have hmem := promoted_mem hok
              have hpromoted : Half t.pageSize promoted := by
                rcases mem_append.mp hmem with hmem | hmem
                · exact hhalf f (by simp) promoted (mem_append_left _ hmem)
                · rcases mem_cons.mp hmem with rfl | hmem
                  · exact hsep
                  · exact hhalf f (by simp) promoted (mem_append_right _ hmem)
              have hrec := @ih g rounds f.pageId (right + 1) promoted hframes hnodup' hframe
                (fun g' hg' => hhalf g' (mem_cons_of_mem _ hg')) hpromoted (by omega)
                (by omega) (by simpa using hrounds)
              rw [hrec, decide_eq_true (by omega : right + 1 < 2 ^ 31), Bool.true_and]
      · next e hne henc =>
          obtain ⟨m, rfl⟩ := (split_of_frame (P := g.pageId) h hhole (hhalf f (by simp)) hsep
            ⟨hright, by omega⟩ hgrand hgrand henc).1
          exact absurd rfl (hne m)

end Frames

/-! ## Inserts that return -/

/-- The key can be ordered with the keys it meets on its way down and in its leaf. -/
def Descends (t : BPlusTree) (key : Value) (rid : RID) : Prop :=
  ∃ pageId leaf entries, t.findLeafPageId key false = .ok pageId ∧
    t.readLeaf pageId = .ok leaf ∧ sortEntries (leaf.entries ++ [(key, rid)]) = .ok entries

/-- No entry of the file takes more than half of a page, and no separator would as a key. -/
structure Halves (t : BPlusTree) : Prop where
  leaves : ∀ p node, IsLeaf t.disk p node → ∀ e ∈ node.entries, Half t.pageSize e.1
  internals : ∀ p node, IsInternal t.disk p node → ∀ key ∈ node.keys, Half t.pageSize key

theorem halves_of_pages
    (hleaves : ∀ page ∈ t.disk.pages, ∀ e ∈ ((decodeLeaf page).toOption.map
      LeafNode.entries).getD [], Half t.pageSize e.1)
    (hinternals : ∀ page ∈ t.disk.pages, ∀ key ∈ ((decodeInternal page).toOption.map
      InternalNode.keys).getD [], Half t.pageSize key) : Halves t := by
  have hmem : ∀ {p : Int} {page : Bytes}, t.disk.readPage p = .ok page → page ∈ t.disk.pages := by
    intro p page hread
    have hvalid := validPageId_of_read_page hread
    rw [DiskManager.readPage, if_pos hvalid, Except.ok.injEq] at hread
    unfold validPageId pageCount at hvalid
    have hlt : p.toNat < t.disk.pages.length := by omega
    rw [← hread, getD_eq_getElem?_getD, getElem?_eq_getElem hlt]
    exact getElem_mem hlt
  constructor
  · rintro p node ⟨page, hread, hencode⟩ e he
    refine hleaves page (hmem hread) e ?_
    rw [(decode_leaf_encode_leaf hencode).2]
    exact he
  · rintro p node ⟨page, hread, hencode⟩ key hkey
    refine hinternals page (hmem hread) key ?_
    rw [(decode_internal_encode_internal hencode).2]
    exact hkey

theorem Halves.frames {t : BPlusTree} (h : Halves t) : ∀ {fs : List Frame} {hole : Int},
    FramesRep t.disk fs hole → ∀ f ∈ fs, ∀ key ∈ f.keysL ++ f.keysR, Half t.pageSize key
  | [], _, _, f, hf, _, _ => by cases hf
  | g :: fs, _, hframes, f, hf, key, hkey => by
      rcases mem_cons.mp hf with rfl | hf
      · exact h.internals _ _ hframes.2.2.1 key hkey
      · exact h.frames hframes.2.2.2.2 f hf key hkey

theorem separatorOf_mem {right : LeafNode} {sep : Value} (h : separatorOf right = .ok sep) :
    ∃ e ∈ right.entries, e.1 = sep := by
  unfold separatorOf at h
  split at h
  · next key rid rest hentries => exact ⟨(key, rid), by rw [hentries]; simp, Except.ok.inj h⟩
  · cases h

/-- A small entry is taken in by a tree of small entries. -/
theorem takesIn_of_halves {T : Tree} {chain : List Int} (h : Linked t T chain)
    (hopen : t.closed = false) {key : Value} {rid : RID} (hdescends : Descends t key rid)
    (hhalves : Halves t) (hkey : Half t.pageSize key) (hrid : RidFits rid)
    (hroom : 2 * t.disk.pageCount + 2 < 2 ^ 31) : takesIn t key rid = true := by
  obtain ⟨p, leaf, entries, hfind, hread, hsort⟩ := hdescends
  have hroot : t.findLeafFrom key false t.rounds T.pid = .ok p := by
    rw [h.shape.root]
    exact hfind
  obtain ⟨fs, hframes, hrep, hplug, -⟩ :=
    @findLeafFrom_ok t key false _ _ [] p trivial h.shape.rep hroot
  cases hrep with
  | leaf next es hleaf =>
      obtain rfl := Except.ok.inj (hread.symm.trans hleaf.readLeaf)
      have hperm := (sortEntries_ok hsort).1
      have hsize : t.pageSize = t.disk.pageSize := rfl
      obtain ⟨payload, hpayload, hfit, hcount, hparent, hnext⟩ :=
        encode_leaf_ok_iff.mp (hleaf.imp (fun _ h => h.2))
      simp only at hpayload hcount hparent hnext hperm
      have hhalf : ∀ e ∈ entries, Half t.pageSize e.1 ∧ RidFits e.2 := by
        intro e he
        rcases mem_append.mp (hperm.mem_iff.mp he) with he | he
        · exact ⟨hhalves.leaves p _ hleaf e he,
            (encodeEntries_ok_iff.mp ⟨payload, hpayload⟩ e he).2⟩
        · rw [mem_singleton] at he
          rw [he]
          exact ⟨hkey, hrid⟩
      have hencodes : ∃ payload, encodeEntries entries = .ok payload :=
        encodeEntries_ok_iff.mpr (fun e he =>
          ⟨(hhalf e he).1.imp (fun _ h => h.1), (hhalf e he).2⟩)
      have hlength := hperm.length_eq
      rw [length_append, length_singleton] at hlength
      have hsum : (entries.map (fun e => fieldSize e.1 + 8)).sum =
          payload.length + (fieldSize key + 8) := by
        rw [length_encodeEntries hpayload, (hperm.map _).sum_eq, map_append,
          sum_append]
        rfl
      have hnew := hkey.fieldSize
      have hsplits : ∀ P r : Int, IdFits (some P) → IdFits (some r) →
          1 < entries.length → (leafSplit t.pageSize entries P r next).isSome = true :=
        fun P r hP hr hlen => leafSplit_of_halves hhalf hlen (by omega) (by omega) hP hr
          hnext
      unfold takesIn
      rw [if_neg (by simp [hopen]), hfind]
      simp only [hread, hsort]
      split
      · rfl
      · next m hfull =>
          have hmany : 1 < entries.length := by
            by_contra hone
            have hnil : es = [] := eq_nil_of_length_eq_zero (by omega)
            subst hnil
            obtain rfl := Except.ok.inj hpayload
            obtain ⟨payload', hpayload'⟩ := hencodes
            have hlen := length_encodeEntries hpayload'
            rw [length_nil, Nat.zero_add] at hsum
            have hok : ∃ page, encodeLeaf t.pageSize
                { parentPageId := parentOf fs, nextLeafPageId := next, entries := entries } =
                  .ok page :=
              encode_leaf_ok_iff.mpr ⟨payload', hpayload', by omega, by simp only; omega, hparent,
                hnext⟩
            obtain ⟨page, hok⟩ := hok
            rw [hok] at hfull
            cases hfull
          unfold splitTakesIn
          cases fs with
          | nil =>
              exact hsplits _ _ ⟨by omega, by omega⟩ ⟨by omega, by omega⟩ hmany
          | cons g fs =>
              have hvalid := hframes.2.2.1.valid
              unfold validPageId at hvalid
              have hok := hsplits g.pageId t.disk.pageCount ⟨hvalid.1, by omega⟩
                ⟨by omega, by omega⟩ hmany
              simp only [parentOf]
              split
              · next e herror =>
                  rw [herror] at hok
                  cases hok
              · next left right hsplit =>
                  obtain ⟨position, -, hlt, hat, -, -⟩ := leafSplit_some hsplit
                  obtain ⟨sep, hsep⟩ :=
                    separatorOf_leafSplitAt g.pageId t.disk.pageCount next hlt
                  rw [hat] at hsep
                  simp only [hsep]
                  have hsepHalf : Half t.pageSize sep := by
                    obtain ⟨e, he, rfl⟩ := separatorOf_mem hsep
                    have hright : right.entries = entries.drop position := by
                      rw [← show (leafSplitAt entries g.pageId t.disk.pageCount next
                        position).2 = right by rw [hat], leafSplitAt]
                    exact (hhalf e (mem_of_mem_drop (hright ▸ he))).1
                  have hpids := pids_plug (g :: fs) (.leaf p)
                  rw [hplug, plug] at hpids
                  have hnodup := hpids.nodup_iff.mp h.shape.nodup
                  have hpages := length_le_page_count h.shape.nodup h.shape.rep.valid
                  rw [hpids.length_eq, length_append] at hpages
                  have hframePids := length_le_framePids (g :: fs)
                  rw [length_cons] at hframePids
                  rw [Tree.pids, singleton_append] at hnodup
                  exact absorbs_of_halves hframes hnodup hleaf.valid (hhalves.frames hframes)
                    hsepHalf (le_refl _) (by omega) (by unfold rounds; omega)
      · next e hne herror =>
          obtain ⟨payload', hpayload'⟩ := hencodes
          have hrefusable : ∀ entry ∈ entries, Refusable entry :=
            fun entry hmem _ he => absurd he (encodeEntries_ne_error hpayload' hmem)
          obtain ⟨m, rfl⟩ := encode_leaf_error hrefusable herror
          exact absurd rfl (hne m)

/-- An insert into a reachable tree returns exactly when the nodes on its way take it in, and
they do when the entries are small. -/
theorem insert_returns (h : Reachable t) (key : Value) (rid : RID) :
    ((insert key rid t).1 = .ok () ↔ takesIn t key rid = true) ∧
      (t.closed = false → Descends t key rid → Halves t → Half t.pageSize key → RidFits rid →
        2 * t.disk.pageCount + 2 < 2 ^ 31 → (insert key rid t).1 = .ok ()) := by
  obtain ⟨T, chain, hlinked⟩ := h.linked
  have hspec := insert_spec hlinked key rid
  have hiff : (insert key rid t).1 = .ok () ↔ takesIn t key rid = true := by
    rcases hrun : insert key rid t with ⟨e | _, t'⟩
    · have hnot := (wp_error hspec hrun).1
      rw [hnot]
      simp
    · exact iff_of_true rfl (wp_ok hspec hrun).1
  exact ⟨hiff, fun hopen hdescends hhalves hkey hrid hroom =>
    hiff.mpr (takesIn_of_halves hlinked hopen hdescends hhalves hkey hrid hroom)⟩

/-! ## A long key between two short ones -/

def letters (n : Nat) (c : Char) : Value := .str (String.ofList (replicate n c))

/-- Two keys of 20 bytes on a page of 100 bytes. -/
def shortKeys : BPlusTree :=
  (perform (.insert (letters 20 'c') ⟨0, 1⟩)
    (perform (.insert (letters 20 'a') ⟨0, 0⟩) (construct { pageSize := 100, pages := [] }).2).2).2

theorem reachable_shortKeys : Reachable shortKeys :=
  .perform _ (.perform _ (.construct _ rfl (by decide +kernel)))

theorem halves_shortKeys : Halves shortKeys :=
  halves_of_pages (by decide +kernel) (by decide +kernel)

theorem descends_shortKeys : Descends shortKeys (letters 20 'b') ⟨0, 2⟩ :=
  ⟨1, _, _, rfl, rfl, rfl⟩

theorem insert_returns_shortKeys : (insert (letters 20 'b') ⟨0, 2⟩ shortKeys).1 = .ok () :=
  (insert_returns reachable_shortKeys (letters 20 'b') ⟨0, 2⟩).2 (by decide +kernel)
    descends_shortKeys halves_shortKeys (by decide +kernel)
    ⟨⟨by decide, by decide⟩, ⟨by decide, by decide⟩⟩ (by decide +kernel)

/-- A key of 60 bytes fits in a leaf and in an internal node of its own; between the two others
it fits beside neither, and the insert raises. -/
theorem insert_not_total : Reachable shortKeys ∧
    (∃ page, encodeLeaf shortKeys.pageSize
      { parentPageId := none, nextLeafPageId := none,
        entries := [(letters 60 'b', ⟨0, 2⟩)] } = .ok page) ∧
    (∃ page, encodeInternal shortKeys.pageSize
      { parentPageId := none, keys := [letters 60 'b'], children := [1, 2] } = .ok page) ∧
    (insert (letters 60 'b') ⟨0, 2⟩ shortKeys).1 =
      .error (.ValueError "B+ leaf entries cannot be split into valid pages") ∧
    ¬ ∀ t, Reachable t → ∀ key rid, t.closed = false →
      (∃ page, encodeLeaf t.pageSize
        { parentPageId := none, nextLeafPageId := none, entries := [(key, rid)] } =
          .ok page) →
      (∃ page, encodeInternal t.pageSize
        { parentPageId := none, keys := [key], children := [1, 2] } = .ok page) →
      (insert key rid t).1 = .ok () := by
  have hleaf : (encodeLeaf shortKeys.pageSize
      { parentPageId := none, nextLeafPageId := none,
        entries := [(letters 60 'b', ⟨0, 2⟩)] }).isOk = true := by
    decide +kernel
  have hinternal : (encodeInternal shortKeys.pageSize
      { parentPageId := none, keys := [letters 60 'b'], children := [1, 2] }).isOk = true := by
    decide +kernel
  have hrun : (insert (letters 60 'b') ⟨0, 2⟩ shortKeys).1 =
      .error (.ValueError "B+ leaf entries cannot be split into valid pages") := by
    decide +kernel
  have hpage : ∀ {x : Except PyError Bytes}, x.isOk = true → ∃ page, x = .ok page := by
    intro x hx
    cases x with
    | ok page => exact ⟨page, rfl⟩
    | error e => cases hx
  refine ⟨reachable_shortKeys, hpage hleaf, hpage hinternal, hrun, fun hall => ?_⟩
  have hok := hall shortKeys reachable_shortKeys (letters 60 'b') ⟨0, 2⟩ (by decide +kernel)
    (hpage hleaf) (hpage hinternal)
  rw [hrun] at hok
  cases hok

end BPlusTree
end SoupDB
