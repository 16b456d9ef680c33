import Mathlib.Data.Int.CharZero
import SoupDB.Indexes.BPlusMap
import SoupDB.Indexes.HashRun
import SoupDB.Indexes.RTreeRun

/-!
# SoupDB: the contract of the indexes

A B+ tree, an extendible hash and an R-tree get the same calls, with integers as keys.

Main facts: `indexes_agree`.  As long as every insert returns and none inserts a pair that is
there, the first two answer every call alike, as the pairs that were inserted and not removed.
`three_indexes_agree`: so do the three when pairs are inserted again, as long as no removal of
a pair finds it twice.
-/

namespace SoupDB.IndexContract

open Effect ExtendibleHash Multiset

/-- One call on an index. -/
inductive Call
  | insert (key : Int) (rid : RID)
  | search (key : Int)
  | remove (key : Int) (rid : Option RID)

namespace Call

def key : Call → Int
  | .insert key _ | .search key | .remove key _ => key

def bplus : Call → BPlusTree.Op
  | .insert key rid => .insert (.int key) rid
  | .search key => .search (.int key)
  | .remove key rid => .remove (.int key) rid

def hash : Call → ExtendibleHash.Op
  | .insert key rid => .insert (.int key) rid
  | .search key => .search (.int key)
  | .remove key rid => .remove (.int key) rid

/-- `Point.from_key` of an integer that a float has: a point of the x axis. -/
def pointOf (key : Int) : Point ℚ := ⟨key, 0⟩

def rtree : Call → RTree.Call ℚ
  | .insert key rid => .insert (pointOf key) rid
  | .search key => .search (pointOf key)
  | .remove key rid => .remove (pointOf key) rid

end Call

/-- The two indexes, and the pairs that were inserted and not removed. -/
structure Indexes where
  bplus : BPlusTree
  hash : ExtendibleHash
  live : Multiset (Int × RID)

/-- What a call answers, with RIDs in no order. -/
inductive Answer
  | done
  | rids (found : Multiset RID)
  | count (removed : Nat)

namespace Answer

def ofBPlus : BPlusTree.Answer → Answer
  | .done => .done
  | .rids found => .rids found
  | .count removed => .count removed

def ofHash : ExtendibleHash.Answer → Answer
  | .done => .done
  | .rids found => .rids found
  | .count removed => .count removed

def ofRTree : RTree.Answer → Answer
  | .done => .done
  | .rids found => .rids found
  | .count removed => .count removed

end Answer

/-- What the pairs answer. -/
def expected (live : Multiset (Int × RID)) : Call → Answer
  | .insert _ _ => .done
  | .search key => .rids ((live.filter (fun e => e.1 = key)).map Prod.snd)
  | .remove key none => .count (live.filter (fun e => e.1 = key)).card
  | .remove key (some rid) => .count (live.count (key, rid))

/-- The pairs after a call. -/
def update (live : Multiset (Int × RID)) : Call → Multiset (Int × RID)
  | .insert key rid => (key, rid) ::ₘ live
  | .search _ => live
  | .remove key none => live.filter (fun e => e.1 ≠ key)
  | .remove key (some rid) => live.erase (key, rid)

/-- One call on each of the two. -/
def step (blake2b : Bytes → Bytes) (s : Indexes) (c : Call) : Indexes where
  bplus := (BPlusTree.perform c.bplus s.bplus).2
  hash := (perform blake2b c.hash s.hash).2
  live := update s.live c

/-- Each of the two returns what the pairs answer. -/
structure Alike (blake2b : Bytes → Bytes) (s : Indexes) (c : Call) : Prop where
  bplus : ∃ a, (BPlusTree.perform c.bplus s.bplus).1 = .ok a ∧
    Answer.ofBPlus a = expected s.live c
  hash : ∃ a, (perform blake2b c.hash s.hash).1 = .ok a ∧
    Answer.ofHash a = expected s.live c

/-- An insert returns and inserts a pair that is not there. -/
def NewPair (blake2b : Bytes → Bytes) (s : Indexes) : Call → Prop
  | .insert key rid => (key, rid) ∉ s.live ∧
      BPlusTree.insertRaised (.insert (.int key) rid,
        (BPlusTree.perform (.insert (.int key) rid) s.bplus).1) = false ∧
      (ExtendibleHash.insert blake2b (.int key) rid s.hash).1.isOk = true
  | _ => True

instance (blake2b : Bytes → Bytes) (s : Indexes) :
    (c : Call) → Decidable (NewPair blake2b s c)
  | .insert _ _ => inferInstanceAs (Decidable (_ ∧ _ ∧ _))
  | .search _ | .remove _ _ => .isTrue trivial

/-- The key is an integer of 64 bits, and an insert returns and inserts a new pair. -/
def Fine (blake2b : Bytes → Bytes) (s : Indexes) (c : Call) : Prop :=
  (-(2 ^ 63) ≤ c.key ∧ c.key < 2 ^ 63) ∧ NewPair blake2b s c

instance (blake2b : Bytes → Bytes) (s : Indexes) (c : Call) : Decidable (Fine blake2b s c) :=
  inferInstanceAs (Decidable ((_ ∧ _) ∧ _))

/-- A removal finds its pair at most once. -/
def FoundOnce (live : Multiset (Int × RID)) : Call → Prop
  | .remove key (some rid) => live.count (key, rid) ≤ 1
  | _ => True

instance (live : Multiset (Int × RID)) : (c : Call) → Decidable (FoundOnce live c)
  | .remove _ (some _) => inferInstanceAs (Decidable (_ ≤ 1))
  | .remove _ none | .insert _ _ | .search _ => .isTrue trivial

/-- An insert returns. -/
def Returns (blake2b : Bytes → Bytes) (s : Indexes) : Call → Prop
  | .insert key rid =>
      BPlusTree.insertRaised (.insert (.int key) rid,
        (BPlusTree.perform (.insert (.int key) rid) s.bplus).1) = false ∧
      (ExtendibleHash.insert blake2b (.int key) rid s.hash).1.isOk = true
  | _ => True

instance (blake2b : Bytes → Bytes) (s : Indexes) :
    (c : Call) → Decidable (Returns blake2b s c)
  | .insert _ _ => inferInstanceAs (Decidable (_ ∧ _))
  | .search _ | .remove _ _ => .isTrue trivial

/-! ## Pairs under the keys of an index -/

section Pairs

variable {α β : Type}

theorem filter_map_of (f : α → β) (p : β → Prop) (q : α → Prop) [DecidablePred p]
    [DecidablePred q] (h : ∀ a, p (f a) ↔ q a) (m : Multiset α) :
    (m.map f).filter p = (m.filter q).map f := by
  rw [filter_map]
  exact congrArg _ (filter_congr (fun a _ => h a))

/-- A pair as the entry of a B+ tree or a hash. -/
def entry (e : Int × RID) : Value × RID := (.int e.1, e.2)

theorem comparable_int (a b : Int) : Value.Comparable (.int a) (.int b) := by
  rw [Value.Comparable, Value.cmp_number rfl rfl]
  rfl

/-- The keys are integers. -/
def IsInt (v : Value) : Prop := ∃ k : Int, v = .int k

theorem encode_int {key : Int} (h : -(2 ^ 63) ≤ key ∧ key < 2 ^ 63) :
    ∃ encoded, encodeKey (.int key) = .ok encoded := by
  have hbound : ((256 ^ 8 / 2 : Nat) : Int) = 2 ^ 63 := by decide
  obtain ⟨payload, hpayload⟩ := Pack.packI_ok_iff.mpr
    (show -((256 ^ 8 / 2 : Nat) : Int) ≤ key ∧ key < ((256 ^ 8 / 2 : Nat) : Int) by
      rw [hbound]
      exact h)
  exact ⟨_, by rw [encodeKey, hpayload, ok_bind]⟩

theorem erase_eq_filter_of_once [DecidableEq β] {m : Multiset β} {b : β} (h : m.count b ≤ 1) :
    m.erase b = m.filter (fun e => e ≠ b) := by
  refine Multiset.ext' (fun e => ?_)
  rw [count_filter]
  by_cases he : e = b
  · subst he
    rw [count_erase_self, if_neg (not_not_intro rfl)]
    omega
  · rw [count_erase_of_ne he, if_pos he]

end Pairs

/-! ## Each index -/

section Each

variable {live : Multiset (Int × RID)} {c : Call}

theorem found_once_of_nodup (h : live.Nodup) (c : Call) : FoundOnce live c := by
  cases c with
  | insert key rid | search key => trivial
  | remove key rid =>
      cases rid with
      | none => trivial
      | some rid => exact nodup_iff_count_le_one.mp h (key, rid)

theorem expected_of_allowed {a : BPlusTree.Answer} {m' : BPlusTree.Multimap}
    (honce : FoundOnce live c)
    (hallowed : BPlusTree.Allowed c.bplus a (live.map entry) m') :
    Answer.ofBPlus a = expected live c ∧ m' = (update live c).map entry := by
  generalize hm : live.map entry = m at hallowed
  cases c with
  | insert key rid =>
      have hallowed : BPlusTree.Allowed (.insert (.int key) rid) a m m' := hallowed
      cases hallowed
      refine ⟨rfl, ?_⟩
      rw [update, map_cons, hm]
      rfl
  | search key =>
      have hallowed : BPlusTree.Allowed (.search (.int key)) a m m' := hallowed
      cases hallowed with
      | search _ found _ hfound =>
          subst hm
          rw [filter_map_of entry (fun e => e.1.eq (.int key) = true) (fun e => e.1 = key)
            (fun e => Value.eq_int), map_map] at hfound
          exact ⟨congrArg Answer.rids hfound, rfl⟩
  | remove key rid =>
      have hallowed : BPlusTree.Allowed (.remove (.int key) rid) a m m' := hallowed
      cases hallowed with
      | removeAll =>
          subst hm
          refine ⟨congrArg Answer.count ?_, ?_⟩
          · rw [filter_map_of entry (fun e => e.1.eq (.int key) = true) (fun e => e.1 = key)
              (fun e => Value.eq_int), card_map]
          · exact filter_map_of entry (fun e => ¬ e.1.eq (.int key) = true) (fun e => ¬ e.1 = key)
              (fun e => not_congr (Value.eq_int)) live
      | removeOne _ e _ heq =>
          obtain ⟨e', he', rfl⟩ := mem_map.mp (hm ▸ mem_cons_self e m')
          obtain rfl : e'.1 = key := Value.eq_int.mp heq
          refine ⟨congrArg Answer.count
            (le_antisymm (one_le_count_iff_mem.mpr he') honce), ?_⟩
          rw [← cons_erase he', map_cons] at hm
          exact (cons_inj_right _).mp hm.symm
      | removeAbsent _ rid _ habsent =>
          subst hm
          have hnone : (key, rid) ∉ live := by
            intro hmem
            have hne := habsent _ (mem_map_of_mem entry hmem) rfl
            rw [entry, Value.eq_int.mpr rfl] at hne
            cases hne
          refine ⟨congrArg Answer.count (count_eq_zero_of_notMem hnone).symm, ?_⟩
          rw [update, erase_of_notMem hnone]

theorem bplus_step {t : BPlusTree} (h : BPlusTree.Serves t (live.map entry) IsInt)
    (honce : FoundOnce live c)
    (hinsert : BPlusTree.insertRaised (c.bplus, (BPlusTree.perform c.bplus t).1) = false) :
    ∃ a, (BPlusTree.perform c.bplus t).1 = .ok a ∧ Answer.ofBPlus a = expected live c ∧
      BPlusTree.Serves (BPlusTree.perform c.bplus t).2 ((update live c).map entry) IsInt := by
  have hself : ∀ a b, IsInt a → IsInt b → Value.Comparable a b := by
    rintro _ _ ⟨a, rfl⟩ ⟨b, rfl⟩
    exact comparable_int a b
  have hkeys : ∀ k ∈ c.bplus.keys, IsInt k := by
    intro k hk
    cases c with
    | insert key rid | search key | remove key rid => exact ⟨key, List.mem_singleton.mp hk⟩
  obtain ⟨a, m', ha, hallowed, hserves⟩ := h.step hself hkeys hinsert
  obtain ⟨hanswer, rfl⟩ := expected_of_allowed honce hallowed
  exact ⟨a, ha, hanswer, hserves⟩

open Classical in
theorem hash_step {blake2b : Bytes → Bytes} {h : ExtendibleHash}
    (hrep : ExtendibleHash.Represents blake2b h (live.map entry)) (honce : FoundOnce live c)
    (hkey : -(2 ^ 63) ≤ c.key ∧ c.key < 2 ^ 63)
    (hinsert : ∀ key rid, c = .insert key rid →
      (ExtendibleHash.insert blake2b (.int key) rid h).1.isOk = true) :
    ∃ a, (perform blake2b c.hash h).1 = .ok a ∧
      Answer.ofHash a = expected live c ∧
      ExtendibleHash.Represents blake2b (perform blake2b c.hash h).2
        ((update live c).map entry) := by
  obtain ⟨encoded, hencoded⟩ := encode_int hkey
  have hint : ∀ e : Int × RID, ∀ key, (entry e).1 = .int key ↔ e.1 = key := by
    intro e key
    exact ⟨fun heq => Value.int.inj heq, fun heq => congrArg Value.int heq⟩
  cases c with
  | insert key rid =>
      have hok := hinsert key rid rfl
      have hspec := hrep.wp_insert (.int key) rid
      rcases hrun : ExtendibleHash.insert blake2b (.int key) rid h with ⟨e | u, h'⟩
      · rw [hrun] at hok
        cases hok
      · have hperform : perform blake2b (Call.hash (.insert key rid)) h =
            (.ok .done, h') := run_bind_ok _ hrun
        rw [hperform]
        refine ⟨_, rfl, rfl, ?_⟩
        rw [update, map_cons]
        have hstored := wp_ok hspec hrun
        exact hstored
  | search key =>
      replace hencoded : encodeKey (.int key) = .ok encoded := hencoded
      obtain ⟨found, hrun, hfound⟩ := hrep.search_ok hencoded
      have hperform : perform blake2b (Call.hash (.search key)) h =
          (.ok (.rids found), h) := run_bind_ok _ hrun
      rw [hperform]
      refine ⟨_, rfl, congrArg Answer.rids ?_, hrep⟩
      rw [hfound, filter_map_of entry (fun e => e.1 = .int key) (fun e => e.1 = key)
        (fun e => hint e key), map_map]
      rfl
  | remove key rid =>
      replace hencoded : encodeKey (.int key) = .ok encoded := hencoded
      have hspec := hrep.wp_remove hencoded rid
      rcases hrun : ExtendibleHash.remove blake2b (.int key) rid h with ⟨e | removed, h'⟩
      · exact (wp_error hspec hrun).elim
      · have hperform : perform blake2b (Call.hash (.remove key rid)) h =
            (.ok (.count removed), h') := run_bind_ok _ hrun
        obtain ⟨hremoved, hleft⟩ := wp_ok hspec hrun
        rw [hperform]
        cases rid with
        | none =>
            have hiff : ∀ e, ExtendibleHash.Removes (.int key) none (entry e) ↔ e.1 = key := by
              intro e
              rw [ExtendibleHash.Removes, hint]
              exact and_iff_left (fun r hr => by cases hr)
            refine ⟨_, rfl, congrArg Answer.count ?_, ?_⟩
            · rw [hremoved, filter_map_of entry _ _ hiff, card_map]
            · rw [filter_map_of entry _ _ (fun e => not_congr (hiff e))] at hleft
              exact hleft
        | some rid =>
            have hiff : ∀ e, ExtendibleHash.Removes (.int key) (some rid) (entry e) ↔
                e = (key, rid) := by
              intro e
              rw [ExtendibleHash.Removes, hint, Prod.ext_iff]
              refine and_congr_right (fun _ => ⟨fun hall => hall rid rfl, fun heq r hr => ?_⟩)
              cases hr
              exact heq
            refine ⟨_, rfl, congrArg Answer.count ?_, ?_⟩
            · rw [hremoved, filter_map_of entry _ _ hiff, card_map,
                ← countP_eq_card_filter, Multiset.count]
              exact countP_congr rfl (fun e _ => propext eq_comm)
            · rw [filter_map_of entry _ _ (fun e => not_congr (hiff e))] at hleft
              rw [update, erase_eq_filter_of_once honce]
              exact hleft

end Each

/-! ## Runs -/

section Runs

variable {blake2b : Bytes → Bytes} {s : Indexes} {c : Call}

/-- Each of the two has the pairs. -/
structure Agree (blake2b : Bytes → Bytes) (s : Indexes) : Prop where
  bplus : BPlusTree.Serves s.bplus (s.live.map entry) IsInt
  hash : ExtendibleHash.Represents blake2b s.hash (s.live.map entry)

theorem agree_new (blake2b : Bytes → Bytes) {pageSize : Nat}
    (hconstruct : (BPlusTree.construct { pageSize, pages := [] }).1 = .ok ())
    {disk : DiskManager} (hempty : disk.pageCount = 0) {maxGlobalDepth : Int}
    {h : ExtendibleHash} (hinit : init maxGlobalDepth disk = .ok h) :
    Agree blake2b ⟨(BPlusTree.construct { pageSize, pages := [] }).2, h, 0⟩ := by
  obtain ⟨root, hfresh⟩ := BPlusTree.construct_empty rfl hconstruct
  exact ⟨hfresh.serves IsInt, represents_init hempty hinit⟩

theorem nodup_update (h : s.live.Nodup) (hc : NewPair blake2b s c) : (update s.live c).Nodup := by
  cases c with
  | insert key rid => exact nodup_cons.mpr ⟨hc.1, h⟩
  | search key => exact h
  | remove key rid =>
      cases rid with
      | none => exact h.filter _
      | some rid => exact h.erase _

/-- One call is answered alike and leaves the same pairs. -/
theorem Agree.step (h : Agree blake2b s) (hkey : -(2 ^ 63) ≤ c.key ∧ c.key < 2 ^ 63)
    (hreturns : Returns blake2b s c) (honce : FoundOnce s.live c) :
    Alike blake2b s c ∧ Agree blake2b (step blake2b s c) := by
  have hraised : BPlusTree.insertRaised (c.bplus, (BPlusTree.perform c.bplus s.bplus).1) =
      false := by
    cases c with
    | insert key rid => exact hreturns.1
    | search key | remove key rid => rfl
  have hok : ∀ key rid, c = .insert key rid →
      (ExtendibleHash.insert blake2b (.int key) rid s.hash).1.isOk = true := by
    rintro key rid rfl
    exact hreturns.2
  obtain ⟨a, ha, hanswer, hserves⟩ := bplus_step h.bplus honce hraised
  obtain ⟨b, hb, hanswer', hrep⟩ := hash_step h.hash honce hkey hok
  exact ⟨⟨⟨a, ha, hanswer⟩, ⟨b, hb, hanswer'⟩⟩, hserves, hrep⟩

theorem returns_of_new_pair (h : NewPair blake2b s c) : Returns blake2b s c := by
  cases c with
  | insert key rid => exact h.2
  | search key | remove key rid => trivial

/-- In every run from new indexes whose inserts return and insert new pairs, the two indexes
answer every call alike: what the pairs that were inserted and not removed answer. -/
theorem indexes_agree (blake2b : Bytes → Bytes) {pageSize : Nat}
    (hconstruct : (BPlusTree.construct { pageSize, pages := [] }).1 = .ok ())
    {disk : DiskManager} (hempty : disk.pageCount = 0) {maxGlobalDepth : Int}
    {h : ExtendibleHash} (hinit : init maxGlobalDepth disk = .ok h)
    {calls : List Call}
    (hcalls : Steps (Fine blake2b) (step blake2b)
      ⟨(BPlusTree.construct { pageSize, pages := [] }).2, h, 0⟩ calls) :
    Steps (Alike blake2b) (step blake2b)
      ⟨(BPlusTree.construct { pageSize, pages := [] }).2, h, 0⟩ calls := by
  have hstep : ∀ s c, s.live.Nodup ∧ Agree blake2b s → Fine blake2b s c →
      Alike blake2b s c ∧ (step blake2b s c).live.Nodup ∧ Agree blake2b (step blake2b s c) := by
    rintro s c ⟨hnodup, hagree⟩ ⟨hkey, hnew⟩
    obtain ⟨halike, hagree'⟩ :=
      hagree.step hkey (returns_of_new_pair hnew) (found_once_of_nodup hnodup c)
    exact ⟨halike, nodup_update hnodup hnew, hagree'⟩
  exact steps_of_steps hstep ⟨nodup_zero, agree_new blake2b hconstruct hempty hinit⟩ hcalls

/-- Keys with several RIDs, one of them removed and inserted again. -/
def severalRids : List Call :=
  [.insert 2 ⟨0, 0⟩, .insert 2 ⟨0, 1⟩, .insert 1 ⟨0, 2⟩, .remove 2 (some ⟨0, 0⟩), .search 2,
    .insert 2 ⟨0, 0⟩, .remove 2 none, .search 1]

theorem indexes_agree_several_rids : ∃ h, init 16 ⟨64, []⟩ = .ok h ∧
    Steps (Alike (fun _ => [])) (step (fun _ => []))
      ⟨(BPlusTree.construct { pageSize := 64, pages := [] }).2, h, 0⟩ severalRids := by
  obtain ⟨h, hinit, hcalls⟩ : ∃ h, init 16 ⟨64, []⟩ = .ok h ∧
      Steps (Fine (fun _ => [])) (step (fun _ => []))
        ⟨(BPlusTree.construct { pageSize := 64, pages := [] }).2, h, 0⟩ severalRids :=
    exists_ok_of_check (by decide +kernel)
  exact ⟨h, hinit, indexes_agree (fun _ => []) (by decide +kernel) rfl hinit hcalls⟩

end Runs

/-! ## Three indexes -/

/-- The two indexes and an R-tree. -/
structure Three where
  two : Indexes
  rtree : RTree ℚ

/-- One call on each of the three. -/
def stepThree (blake2b : Bytes → Bytes) (s : Three) (c : Call) : Three :=
  ⟨step blake2b s.two c, s.rtree.step c.rtree⟩

/-- Each of the three returns what the pairs answer. -/
structure AllAlike (blake2b : Bytes → Bytes) (s : Three) (c : Call) : Prop where
  two : Alike blake2b s.two c
  rtree : ∃ a t, s.rtree.perform c.rtree = .ok (a, t) ∧
    Answer.ofRTree a = expected s.two.live c

/-- The key is an integer that a float has, an insert returns, and a removal finds its pair
at most once. -/
def OncePresent (blake2b : Bytes → Bytes) (s : Three) (c : Call) : Prop :=
  (-(2 ^ 53) < c.key ∧ c.key < 2 ^ 53) ∧ Returns blake2b s.two c ∧ FoundOnce s.two.live c

instance (blake2b : Bytes → Bytes) (s : Three) (c : Call) :
    Decidable (OncePresent blake2b s c) :=
  inferInstanceAs (Decidable ((_ ∧ _) ∧ _ ∧ _))

section Three

variable {live : Multiset (Int × RID)} {c : Call}

/-- A pair as the entry of an R-tree. -/
def point (e : Int × RID) : Point ℚ × RID := (Call.pointOf e.1, e.2)

theorem point_of_inj {a b : Int} : Call.pointOf a = Call.pointOf b ↔ a = b := by
  rw [Call.pointOf, Call.pointOf, Point.mk.injEq, Int.cast_inj]
  exact and_iff_left rfl

theorem point_injective : Function.Injective point := by
  rintro ⟨a, rid⟩ ⟨b, rid'⟩ h
  obtain ⟨hkey, rfl⟩ := Prod.mk.inj h
  exact Prod.ext (point_of_inj.mp hkey) rfl

theorem update_point (live : Multiset (Int × RID)) (c : Call) :
    RTree.update (live.map point) c.rtree = (update live c).map point := by
  cases c with
  | insert key rid => exact (map_cons point (key, rid) live).symm
  | search key => rfl
  | remove key rid =>
      cases rid with
      | none => exact filter_map_of point _ _ (fun e => not_congr point_of_inj) live
      | some rid => exact (map_erase point point_injective (key, rid) live).symm

theorem rtree_step {order : Nat} {t : RTree ℚ} (h : RTree.Sound order t) (horder : 2 ≤ order)
    (hcontents : (t.contents : Multiset (Point ℚ × RID)) = live.map point)
    (honce : FoundOnce live c) :
    ∃ a t', t.perform c.rtree = .ok (a, t') ∧ Answer.ofRTree a = expected live c ∧
      RTree.Sound order t' ∧
      (t'.contents : Multiset (Point ℚ × RID)) = (update live c).map point := by
  -- the leaves that have the pair are as many as the pair, so one at most
  have hleaves : ∀ key rid, live.count (key, rid) ≤ 1 →
      t.leafNodes.countP (fun entries => (Call.pointOf key, rid) ∈ entries) =
        live.count (key, rid) := by
    intro key rid hle
    have hcount : (t.contents : Multiset (Point ℚ × RID)).count (Call.pointOf key, rid) =
        live.count (key, rid) := by
      rw [hcontents]
      exact count_map_eq_count' point live point_injective (key, rid)
    rw [← hcount, coe_count] at hle ⊢
    exact countP_parts (fun entries => decide_eq_true_iff) hle
  have hfilter : ∀ key, (t.contents : Multiset (Point ℚ × RID)).filter
      (fun e => e.1 = Call.pointOf key) = (live.filter (fun e => e.1 = key)).map point := by
    intro key
    rw [hcontents]
    exact filter_map_of point _ _ (fun e => point_of_inj) live
  obtain ⟨a, t', hperform, hsound, hanswers, hleft⟩ := RTree.perform_spec h horder c.rtree
  have hone : t.OneLeaf c.rtree := by
    cases c with
    | insert key rid | search key => trivial
    | remove key rid =>
        cases rid with
        | none => trivial
        | some rid => exact (hleaves key rid honce).le.trans honce
  refine ⟨a, t', hperform, ?_, hsound, ?_⟩
  · cases c with
    | insert key rid =>
        cases a with
        | done => rfl
        | rids found | count removed => exact hanswers.elim
    | search key =>
        cases a with
        | rids found =>
            have hfound : (found : Multiset RID) =
                ((live.filter (fun e => e.1 = key)).map point).map Prod.snd := by
              rw [← hfilter]
              exact congrArg _ hanswers
            refine congrArg Answer.rids (hfound.trans ?_)
            rw [map_map]
            rfl
        | done | count removed => exact hanswers.elim
    | remove key rid =>
        cases a with
        | count removed =>
            cases rid with
            | none =>
                have hremoved : removed = (t.contents : Multiset (Point ℚ × RID)).countP
                    (fun e => e.1 = Call.pointOf key) := hanswers
                refine congrArg Answer.count (hremoved.trans ?_)
                rw [countP_eq_card_filter, hfilter, card_map]
            | some rid =>
                exact congrArg Answer.count (hanswers.trans (hleaves key rid honce))
        | done | rids found => exact (by cases rid <;> exact hanswers.elim)
  · rw [hleft.mpr hone, hcontents, update_point]

variable {blake2b : Bytes → Bytes} {order : Nat} {s : Three}

/-- Each of the three has the pairs. -/
structure AllAgree (blake2b : Bytes → Bytes) (order : Nat) (s : Three) : Prop where
  two : Agree blake2b s.two
  sound : RTree.Sound order s.rtree
  contents : (s.rtree.contents : Multiset (Point ℚ × RID)) = s.two.live.map point

theorem AllAgree.step (h : AllAgree blake2b order s) (horder : 2 ≤ order)
    (hc : OncePresent blake2b s c) :
    AllAlike blake2b s c ∧ AllAgree blake2b order (stepThree blake2b s c) := by
  obtain ⟨hkey, hreturns, honce⟩ := hc
  obtain ⟨halike, hagree⟩ := h.two.step (by omega) hreturns honce
  obtain ⟨a, t', hperform, hanswer, hsound, hcontents⟩ :=
    rtree_step h.sound horder h.contents honce
  have hstep : s.rtree.step c.rtree = t' := by rw [RTree.step, hperform]
  subst hstep
  exact ⟨⟨halike, a, _, hperform, hanswer⟩, hagree, hsound, hcontents⟩

/-- In every run from new indexes in which inserts return and removals find their pair at most
once, the three answer every call alike. -/
theorem three_indexes_agree (blake2b : Bytes → Bytes) {pageSize : Nat}
    (hconstruct : (BPlusTree.construct { pageSize, pages := [] }).1 = .ok ())
    {disk : DiskManager} (hempty : disk.pageCount = 0) {maxGlobalDepth : Int}
    {h : ExtendibleHash} (hinit : init maxGlobalDepth disk = .ok h) {t : RTree ℚ}
    (htree : RTree.construct order = .ok t) {calls : List Call}
    (hcalls : Steps (OncePresent blake2b) (stepThree blake2b)
      ⟨⟨(BPlusTree.construct { pageSize, pages := [] }).2, h, 0⟩, t⟩ calls) :
    Steps (AllAlike blake2b) (stepThree blake2b)
      ⟨⟨(BPlusTree.construct { pageSize, pages := [] }).2, h, 0⟩, t⟩ calls := by
  have horder : 2 ≤ order ∧ t = RTree.empty order := by
    rw [RTree.construct] at htree
    split at htree
    · cases htree
    · cases htree
      exact ⟨by omega, rfl⟩
  obtain ⟨horder, rfl⟩ := horder
  have hstart : AllAgree blake2b order
      ⟨⟨(BPlusTree.construct { pageSize, pages := [] }).2, h, 0⟩, RTree.empty order⟩ :=
    ⟨agree_new blake2b hconstruct hempty hinit, RTree.sound_empty order, rfl⟩
  exact steps_of_steps (fun _ _ hagree hc => hagree.step horder hc) hstart hcalls

/-- A pair that is there twice and goes with its key, and pairs that are removed alone. -/
def pairTwice : List Call :=
  [.insert 2 ⟨0, 0⟩, .insert 2 ⟨0, 0⟩, .insert 1 ⟨0, 2⟩, .insert 2 ⟨0, 1⟩,
    .remove 2 (some ⟨0, 1⟩), .search 2, .remove 2 none, .remove 1 (some ⟨0, 2⟩)]

theorem three_indexes_agree_pair_twice : ∃ h, init 16 ⟨64, []⟩ = .ok h ∧
    Steps (AllAlike (fun _ => [])) (stepThree (fun _ => []))
      ⟨⟨(BPlusTree.construct { pageSize := 64, pages := [] }).2, h, 0⟩, RTree.empty 2⟩
      pairTwice := by
  obtain ⟨h, hinit, hcalls⟩ : ∃ h, init 16 ⟨64, []⟩ = .ok h ∧
      Steps (OncePresent (fun _ => [])) (stepThree (fun _ => []))
        ⟨⟨(BPlusTree.construct { pageSize := 64, pages := [] }).2, h, 0⟩, RTree.empty 2⟩
        pairTwice :=
    exists_ok_of_check (by decide +kernel)
  have htree : RTree.construct 2 = .ok (RTree.empty 2 : RTree ℚ) := rfl
  exact ⟨h, hinit, three_indexes_agree (fun _ => []) (by decide +kernel) rfl hinit htree hcalls⟩

def insertTwice : List Call := [.insert 1 ⟨0, 0⟩, .insert 1 ⟨0, 0⟩]

/-- Of a pair that was inserted twice the B+ tree removes one, the hash both. -/
theorem pair_removed_once_and_twice : ∃ h, init 16 ⟨64, []⟩ = .ok h ∧
    let start : Three :=
      ⟨⟨(BPlusTree.construct { pageSize := 64, pages := [] }).2, h, 0⟩, RTree.empty 2⟩
    let s := exec (stepThree (fun _ => [])) start insertTwice
    Steps (OncePresent (fun _ => [])) (stepThree (fun _ => [])) start insertTwice ∧
      (BPlusTree.remove (.int 1) (some ⟨0, 0⟩) s.two.bplus).1 = .ok 1 ∧
      (ExtendibleHash.remove (fun _ => []) (.int 1) (some ⟨0, 0⟩) s.two.hash).1 = .ok 2 :=
  exists_ok_of_check (by decide +kernel)

end Three

end SoupDB.IndexContract
