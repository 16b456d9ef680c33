import SoupDB.Indexes.BPlusScan

/-!
# SoupDB: sequences of calls on a B+ tree

`Op` is one call on a tree, closing it and opening its file again included, and `trace`
is what a sequence of calls answers.  A tree that was just constructed on an empty file
is one empty leaf (`construct_empty`), and opening the file of a tree again gives the
tree back (`construct_reopen`).
-/

namespace SoupDB.BPlusTree

open BPlusPage Effect DiskManager

/-- One call on a tree. -/
inductive Op
  | insert (key : Value) (rid : RID)
  | search (key : Value)
  | rangeSearch (lo hi : Value)
  | remove (key : Value) (rid : Option RID)
  /-- Close the tree and open its file again. -/
  | reopen

/-- What a call returns. -/
inductive Answer
  | done
  | rids (found : List RID)
  | count (removed : Nat)
deriving DecidableEq

/-- The keys a call names. -/
def Op.keys : Op → List Value
  | .insert key _ => [key]
  | .search key => [key]
  | .rangeSearch lo hi => [lo, hi]
  | .remove key _ => [key]
  | .reopen => []

/-- `BPlusTree(disk_manager, buffer_manager)` on the file of the tree. -/
def reconstruct : Method Unit := fun t => construct t.disk

def perform : Op → Method Answer
  | .insert key rid => do
      insert key rid
      pure .done
  | .search key => do
      let t ← Effect.get
      let found ← Effect.lift (t.search key)
      pure (.rids found)
  | .rangeSearch lo hi => do
      let t ← Effect.get
      let found ← Effect.lift (t.rangeSearch lo hi)
      pure (.rids found)
  | .remove key rid => do
      let removed ← remove key rid
      pure (.count removed)
  | .reopen => do
      close
      reconstruct
      pure .done

/-- The answers to a sequence of calls, a call that raised included. -/
def trace : List Op → BPlusTree → List (Op × Except PyError Answer)
  | [], _ => []
  | op :: ops, t => (op, (perform op t).1) :: trace ops (perform op t).2

/-- Whether a call is an insert that raised. -/
def insertRaised : Op × Except PyError Answer → Bool
  | (.insert _ _, .error _) => true
  | _ => false

/-! ## A new tree -/

/-- The tree of one empty leaf. -/
structure Fresh (t : BPlusTree) (root : Int) : Prop where
  linked : Linked t (.leaf root) [root]
  entries : entriesAt t.disk root = []
  opened : t.closed = false
  pageCount : t.disk.pageCount = 2

variable {t : BPlusTree}

/-- The metadata page of a new file can be written once it is allocated. -/
theorem wp_write_first_metadata {Q : Unit → BPlusTree → Prop} {E : PyError → BPlusTree → Prop}
    (hvalid : t.disk.validPageId METADATA_PAGE_ID) (hsize : HEADER_SIZE ≤ t.pageSize)
    (hroot : IdFits (some t.rootPageId)) (hfirst : IdFits (some t.firstLeafPageId))
    (hQ : ∀ disk, IsMetadata disk t.rootPageId t.firstLeafPageId →
      Writes t.disk disk [METADATA_PAGE_ID] → Q () { t with disk }) :
    wp writeMetadata Q E t := by
  obtain ⟨page, hpage⟩ := encode_metadata_ok_iff.mpr ⟨hsize, hroot, hfirst⟩
  unfold writeMetadata
  simp only [wp_bind, wp_get, hpage, wp_lift_ok]
  refine wp_write_page hvalid ?_
  intro disk hw
  refine hQ disk ⟨page, ?_, ?_⟩ (Writes.of_write_page hw)
  · rw [read_page_write_page hw, if_pos rfl]
  · rw [page_size_write_page hw]
    exact hpage

theorem initialize_spec (hempty : t.disk.pageCount = 0) (hopen : t.closed = false) :
    wp initializeTree (fun _ t' => ∃ root, Fresh t' root) (fun _ _ => True) t := by
  have hcount : t.disk.allocatePage.2.allocatePage.2.pageCount = 2 := by simp [hempty]
  unfold initializeTree
  simp only [wp_bind, wp_allocate_page]
  rw [hempty]
  simp only [Nat.cast_zero, METADATA_PAGE_ID, ne_eq, not_true_eq_false, if_false, wp_bind,
    wp_allocate_page, wp_get, page_count_allocate_page, hempty]
  refine wp_lift.mpr ⟨?_, fun _ _ => trivial⟩
  intro page hpage
  refine wp_write_page ?_ ?_
  · unfold validPageId
    rw [hcount]
    decide
  intro disk hw
  have hsize := page_size_write_page hw
  obtain ⟨_, _, hheader, _⟩ := encode_leaf_ok_iff.mp ⟨page, hpage⟩
  have hleaf : IsLeaf disk 1
      { parentPageId := none, nextLeafPageId := none, entries := [] } :=
    isLeaf_of_write_page (by exact hpage) hw
  refine wp_write_first_metadata ?_ ?_ ?_ ?_ ?_
  · unfold validPageId
    rw [page_count_write_page hw, hcount]
    decide
  · change HEADER_SIZE ≤ disk.pageSize
    rw [hsize]
    exact le_trans (Nat.le_add_right _ _) hheader
  · change (0 : Int) ≤ 1 ∧ (1 : Int) < 2 ^ 31
    decide
  · change (0 : Int) ≤ 1 ∧ (1 : Int) < 2 ^ 31
    decide
  · intro disk2 hmeta hwrites
    have hleaf2 := hwrites.toTouches.isLeaf (by decide) hleaf
    have hcount2 : disk2.pageCount = 2 := by
      rw [hwrites.same_count]
      exact (page_count_write_page hw).trans hcount
    refine ⟨1, ⟨⟨?_, rfl, ?_, hmeta⟩, ?_, ?_, ?_⟩, hleaf2.entriesAt, hopen, hcount2⟩
    · exact .leaf _ _ hleaf2
    · simp [Tree.pids]
    · exact ⟨rfl, _, hleaf2, rfl⟩
    · simp
    · simp [Tree.items]

theorem construct_empty {disk : DiskManager} (hempty : disk.pageCount = 0)
    (h : (construct disk).1 = .ok ()) : ∃ root, Fresh (construct disk).2 root := by
  unfold construct at h ⊢
  simp only [hempty, if_true] at h ⊢
  exact wp_ok (initialize_spec (by exact hempty) rfl) (Prod.ext h rfl)

/-! ## Opening a file again -/

theorem construct_reopen {T : Tree} (h : Shape t T) :
    construct t.disk = (.ok (), { t with closed := false }) := by
  have hroot := h.rep.valid T.pid T.pid_mem_pids
  have hmeta := h.metadata.valid
  have hne : T.pid ≠ METADATA_PAGE_ID := fun heq =>
    h.rep.metadata_not_mem h.metadata (heq ▸ T.pid_mem_pids)
  obtain ⟨page, hread, hpage⟩ := h.metadata
  have hdecode := (decode_metadata_encode_metadata hpage).2
  have hcount : 2 ≤ t.disk.pageCount := by
    unfold validPageId METADATA_PAGE_ID at *
    omega
  unfold construct loadMetadata
  rw [if_neg (by omega)]
  simp only [run_bind, run_get, if_neg (show ¬ t.disk.pageCount < 2 by omega), run_lift,
    readPage, hread, hdecode, run_modify]

theorem Linked.with_closed {T : Tree} {chain : List Int} (h : Linked t T chain) (closed : Bool) :
    Linked { t with closed } T chain :=
  ⟨⟨h.shape.rep, h.shape.root, h.shape.nodup, h.shape.metadata⟩, h.path, h.nodup, h.leaves⟩

theorem perform_reopen {T : Tree} (h : Shape t T) :
    perform .reopen t = (.ok .done, { t with closed := false }) := by
  have hre : reconstruct { t with closed := true } = (.ok (), { t with closed := false }) := by
    change construct t.disk = _
    exact construct_reopen h
  simp only [perform, close, run_bind, run_modify, hre, run_pure]

end SoupDB.BPlusTree
