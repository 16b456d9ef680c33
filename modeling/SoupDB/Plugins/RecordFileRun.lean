import SoupDB.Plugins.FixedRecordFile

/-!
# SoupDB: record files after any calls

`Step f call f'` is one call on a record file, with values that fit their layout: an append, a
pack at some bytes of a record, a write of the metadata, or a close and reopen.  A call may be
refused, for an index out of range, for metadata that is too large or for a file that is.  In every
file reached from a new one the records are apart and inside allocated pages, a scan gives each of
them once, and what was packed last at some bytes of a record is what is unpacked there.
-/

namespace SoupDB.FixedRecordFile

open Effect

/-- A call, with the bytes of the records that it may change. -/
inductive Call
  | append
  | pack (index : Int) (extra size : Nat)
  | writeMeta
  | reopen

inductive Step : FixedRecordFile → Call → FixedRecordFile → Prop
  | append {α : Type} {layout : Struct α} {values : α} {f f' : FixedRecordFile}
      {result : Except PyError Nat} :
      layout.size ≤ f.recordSize → layout.Fits values →
      FixedRecordFile.append layout values f = (result, f') → Step f .append f'
  | pack {α : Type} {layout : Struct α} {values : α} {index : Int} {extra : Nat}
      {f f' : FixedRecordFile} {result : Except PyError Unit} :
      extra + layout.size ≤ f.recordSize → layout.Fits values →
      FixedRecordFile.pack index layout values extra f = (result, f') →
      Step f (.pack index extra layout.size) f'
  | writeMeta {α : Type} {layout : Struct α} {values : α} {f f' : FixedRecordFile}
      {result : Except PyError Unit} : layout.Fits values →
      FixedRecordFile.writeMeta layout values f = (result, f') → Step f .writeMeta f'
  | reopen {f f' : FixedRecordFile} :
      opened f.disk f.recordSize f.magic = .ok f' → Step f .reopen f'

/-- The files that calls on a new one leave. -/
inductive Reached : FixedRecordFile → Prop
  | created {disk : DiskManager} {recordSize : Nat} {magic : Bytes} {f : FixedRecordFile} :
      disk.pageCount = 0 → opened disk recordSize magic = .ok f → Reached f
  | step {f f' : FixedRecordFile} {call : Call} : Reached f → Step f call f' → Reached f'

/-- The call does not pack any of these bytes of this record. -/
def Call.Beside (call : Call) (j extra size : Nat) : Prop :=
  match call with
  | .pack index lo size' => (j : Int) ≠ index ∨ extra + size ≤ lo ∨ lo + size' ≤ extra
  | _ => True

/-- Calls that do not pack any of these bytes of this record. -/
inductive Later (j extra size : Nat) : FixedRecordFile → FixedRecordFile → Prop
  | refl {f : FixedRecordFile} : Later j extra size f f
  | step {f g h : FixedRecordFile} {call : Call} :
      Later j extra size f g → Step g call h → call.Beside j extra size → Later j extra size f h

/-- The call that packed these values at these bytes of this record has returned. -/
inductive Packed {α : Type} (layout : Struct α) (values : α) (j : Nat) :
    Nat → FixedRecordFile → FixedRecordFile → Prop
  | append {f f' : FixedRecordFile} : layout.size ≤ f.recordSize → layout.Fits values →
      FixedRecordFile.append layout values f = (.ok j, f') → Packed layout values j 0 f f'
  | pack {f f' : FixedRecordFile} {extra : Nat} : extra + layout.size ≤ f.recordSize →
      layout.Fits values → FixedRecordFile.pack j layout values extra f = (.ok (), f') →
      Packed layout values j extra f f'

/-- The file is in order. -/
structure Sound (f : FixedRecordFile) : Prop where
  apart : ∀ i j, i < f.count → j < f.count → i ≠ j →
    DiskManager.Apart (f.locate i).1 (f.locate j).1 (f.locate i).2 f.recordSize
      (f.locate j).2 f.recordSize
  inside : ∀ i, i < f.count → 0 < (f.locate i).1 ∧ (f.locate i).1 < f.disk.pageCount ∧
    (f.locate i).2 + f.recordSize ≤ f.disk.pageSize ∧
    f.disk.Room (f.locate i).1 ((f.locate i).2 + f.recordSize)
  scan : ∀ {α : Type} (layout : Struct α), layout.size ≤ f.recordSize →
    ∃ rows : List α, rows.length = f.count ∧
      FixedRecordFile.scan f layout = .ok (rows.zipIdx.map Prod.swap) ∧
      ∀ (i : Nat) (row : α), rows[i]? = some row → f.unpack i layout 0 = .ok row
  last : ∀ {α : Type} {layout : Struct α} {values : α} {j extra : Nat} {g h : FixedRecordFile},
    Packed layout values j extra f g → Later j extra layout.size g h →
    h.unpack j layout extra = .ok values
  appended : ∀ {α : Type} {layout : Struct α} {values : α} {j : Nat} {g : FixedRecordFile},
    layout.size ≤ f.recordSize → layout.Fits values → append layout values f = (.ok j, g) →
    j = f.count ∧ g.count = f.count + 1
  reopened : opened f.disk f.recordSize f.magic = .ok f

section Steps

variable {f g h : FixedRecordFile} {call : Call} {α : Type} {layout : Struct α} {values : α}
  {j extra : Nat} {records : List Bytes}

/-- The file as an array of byte strings. -/
def HoldsBytes (f : FixedRecordFile) (records : List Bytes) : Prop :=
  Holds f (Struct.raw f.recordSize) records

/-- Bytes of a record that no step packs stay. -/
structure Stays (f f' : FixedRecordFile) (call : Call) : Prop where
  size : f'.recordSize = f.recordSize
  longer : f.count ≤ f'.count
  reads : ∀ {α : Type} {layout : Struct α} {values : α} {j extra : Nat}, j < f.count →
    extra + layout.size ≤ f.recordSize → call.Beside j extra layout.size →
    f.Reads j layout extra values → f'.Reads j layout extra values

theorem Stays.of_beside {i lo size : Nat} (hkept : Kept f g) (hcount : f.count ≤ g.count)
    (hbeside : KeptBeside f g i lo size)
    (hcall : ∀ {j extra n : Nat}, j < f.count → call.Beside j extra n →
      Beside i lo size j extra n) :
    Stays f g call :=
  ⟨hkept.recordSize, hcount, fun hj hin hnot hread => hbeside.reads hin (hcall hj hnot) hread⟩

/-- One call keeps the array and what it does not pack. -/
theorem Step.holds (hstep : Step f call g) (hholds : HoldsBytes f records) :
    (∃ records', HoldsBytes g records') ∧ Stays f g call := by
  have hcount := hholds.count
  have hsame : (∃ records', HoldsBytes f records') ∧ Stays f f call :=
    ⟨⟨records, hholds⟩, rfl, le_rfl, fun _ _ _ hread => hread⟩
  cases hstep with
  | @append β T b _ _ result hsize hfits hrun =>
      have hwp : wp (FixedRecordFile.append T b)
          (fun _ g => (∃ records', HoldsBytes g records') ∧ Stays f g .append)
          (fun _ g => (∃ records', HoldsBytes g records') ∧ Stays f g .append) f := by
        refine Holds.wp_append hholds hsize hfits ?_ (fun _ => hsame)
        intro g r hg _ hkept hbeside
        refine ⟨⟨_, by rw [HoldsBytes, hkept.recordSize]; exact hg⟩,
          Stays.of_beside hkept ?_ hbeside (fun hj _ => .inl (by omega))⟩
        rw [hcount, hg.count, List.length_append]
        omega
      have hleft := state_of_wp hwp
      rwa [hrun] at hleft
  | @pack β T b index lo _ _ result hsize hfits hrun =>
      have hwp : wp (FixedRecordFile.pack index T b lo)
          (fun _ g => (∃ records', HoldsBytes g records') ∧ Stays f g (.pack index lo T.size))
          (fun _ g => (∃ records', HoldsBytes g records') ∧
            Stays f g (.pack index lo T.size)) f := by
        refine Holds.wp_pack hholds hsize hfits ?_ (fun _ => hsame)
        intro n g r hn hlt hg _ hkept hbeside
        subst hn
        refine ⟨⟨_, by rw [HoldsBytes, hkept.recordSize]; exact hg⟩,
          Stays.of_beside hkept ?_ hbeside ?_⟩
        · rw [hcount, hg.count, List.length_set]
        · rintro j extra size _ (hne | hnot)
          · exact .inl (by omega)
          · exact .inr hnot
      have hleft := state_of_wp hwp
      rwa [hrun] at hleft
  | @writeMeta β T b _ _ result hfits hrun =>
      have hwp : wp (FixedRecordFile.writeMeta T b)
          (fun _ g => (∃ records', HoldsBytes g records') ∧ Stays f g .writeMeta)
          (fun _ g => (∃ records', HoldsBytes g records') ∧ Stays f g .writeMeta) f := by
        refine Holds.wp_write_meta hholds hfits ?_ (fun _ _ => hsame)
        intro g hg _ _ hsize _ hbeside
        refine ⟨⟨_, by rw [HoldsBytes, hsize]; exact hg⟩, hsize, ?_, fun _ hin _ hread =>
          (hbeside 0 0 0).reads hin (.inr (.inr (Nat.zero_le _))) hread⟩
        rw [hcount, hg.count]
      have hleft := state_of_wp hwp
      rwa [hrun] at hleft
  | reopen hopen =>
      rw [Holds.opened hholds] at hopen
      cases hopen
      exact hsame

theorem Reached.holds (h : Reached f) : ∃ records, HoldsBytes f records := by
  induction h with
  | @created disk recordSize magic f hempty hopen =>
      obtain ⟨hholds, -, hsize, -, -⟩ :=
        @holds_of_opened _ _ (Struct.raw recordSize) _ _ _ hempty hopen rfl
      exact ⟨[], by rw [HoldsBytes, hsize]; exact hholds⟩
  | step _ hstep ih =>
      obtain ⟨records, hholds⟩ := ih
      exact (hstep.holds hholds).1

/-- Calls that do not pack any of these bytes keep what stands there. -/
theorem Later.reads {size : Nat} (h : Later j extra size f g) (hholds : HoldsBytes f records)
    (hsize : layout.size = size) (hj : j < f.count) (hin : extra + size ≤ f.recordSize)
    (hread : f.Reads j layout extra values) :
    ∃ records', HoldsBytes g records' ∧ j < g.count ∧ g.recordSize = f.recordSize ∧
      g.Reads j layout extra values := by
  induction h with
  | refl => exact ⟨records, hholds, hj, rfl, hread⟩
  | step _ hstep hbeside ih =>
      obtain ⟨records', hholds', hj', hsame, hread'⟩ := ih
      obtain ⟨⟨records'', hholds''⟩, hstays⟩ := hstep.holds hholds'
      have hlonger := hstays.longer
      refine ⟨records'', hholds'', by omega, hstays.size.trans hsame, ?_⟩
      exact hstays.reads hj' (by omega) (by rw [hsize]; exact hbeside) hread'

theorem Packed.reads (h : Packed layout values j extra f g) (hholds : HoldsBytes f records) :
    (∃ records', HoldsBytes g records') ∧ j < g.count ∧ extra + layout.size ≤ g.recordSize ∧
      g.Reads j layout extra values := by
  cases h with
  | append hsize hfits hrun =>
      have hwp : wp (FixedRecordFile.append layout values) (fun n g =>
          (∃ records', HoldsBytes g records') ∧ n < g.count ∧ 0 + layout.size ≤ g.recordSize ∧
            g.Reads n layout 0 values) (fun _ _ => True) f := by
        refine Holds.wp_append hholds hsize hfits ?_ (fun _ => trivial)
        intro g r hg hread hkept _
        refine ⟨⟨_, by rw [HoldsBytes, hkept.recordSize]; exact hg⟩, ?_, ?_, hread⟩
        · rw [hg.count, List.length_append, List.length_singleton]
          omega
        · rw [hkept.recordSize, Nat.zero_add]
          exact hsize
      have hdone := wp_ok hwp hrun
      exact hdone
  | pack hsize hfits hrun =>
      have hwp : wp (FixedRecordFile.pack j layout values extra) (fun _ g =>
          (∃ records', HoldsBytes g records') ∧ j < g.count ∧
            extra + layout.size ≤ g.recordSize ∧ g.Reads j layout extra values)
          (fun _ _ => True) f := by
        refine Holds.wp_pack hholds hsize hfits ?_ (fun _ => trivial)
        intro n g r hn hlt hg hread hkept _
        obtain rfl : j = n := by exact_mod_cast hn
        refine ⟨⟨_, by rw [HoldsBytes, hkept.recordSize]; exact hg⟩, ?_, ?_, hread⟩
        · rw [hg.count, List.length_set]
          exact hlt
        · rw [hkept.recordSize]
          exact hsize
      have hdone := wp_ok hwp hrun
      exact hdone

theorem HoldsBytes.rows (h : HoldsBytes f records) {T : Struct α} (hT : T.size ≤ f.recordSize) :
    ∃ rows : List α, rows.length = f.count ∧
      ∀ i row, rows[i]? = some row → f.Reads i T 0 row := by
  have hprefix : ∀ n, n ≤ f.count → ∃ rows : List α, rows.length = n ∧
      ∀ i row, rows[i]? = some row → f.Reads i T 0 row := by
    intro n
    induction n with
    | zero => exact fun _ => ⟨[], rfl, by simp⟩
    | succ n ih =>
        intro hn
        obtain ⟨rows, hlength, hrows⟩ := ih (by omega)
        have hlt : n < records.length := by
          have := h.count
          omega
        obtain ⟨row, hrow⟩ := DiskManager.Room.cell T
          (@Holds.record_room _ _ _ _ h n 0 T.size hlt (by omega))
        refine ⟨rows ++ [row], by rw [List.length_append, hlength]; rfl, ?_⟩
        intro i r hi
        rcases Nat.lt_or_ge i n with hlt | hge
        · rw [List.getElem?_append_left (by omega)] at hi
          exact hrows i r hi
        · rw [List.getElem?_append_right (by omega)] at hi
          obtain ⟨hbound, hr⟩ := List.getElem?_eq_some_iff.mp hi
          rw [List.length_singleton] at hbound
          obtain rfl : i = n := by omega
          simp only [List.getElem_singleton] at hr
          rw [← hr]
          exact hrow
  exact hprefix f.count le_rfl

end Steps

/-- Every file reached from a new one is in order. -/
theorem record_file_sound {f : FixedRecordFile} (h : Reached f) : Sound f := by
  obtain ⟨records, hholds⟩ := h.holds
  have hcount := hholds.count
  refine ⟨fun i j _ _ hij => locate_apart hij, ?_, ?_, ?_, ?_, Holds.opened hholds⟩
  · intro i hi
    obtain ⟨hlow, hhigh⟩ := Holds.valid hholds (i := i) (by omega)
    have hroom := @Holds.record_room _ _ _ _ hholds i 0 f.recordSize (by omega) (by omega)
    exact ⟨lt_of_le_of_ne hlow (locate_pos i).symm, hhigh, Holds.room hholds i, hroom⟩
  · intro α layout hlayout
    obtain ⟨rows, hlength, hrows⟩ := hholds.rows hlayout
    refine ⟨rows, hlength, Holds.scan hholds hlength hrows, ?_⟩
    intro i row hi
    have hlt := (List.getElem?_eq_some_iff.mp hi).1
    exact Holds.unpack hholds (by omega) (hrows i row hi)
  · intro α layout values j extra g k hpacked hlater
    obtain ⟨⟨records', hholds'⟩, hj, hin, hread⟩ := hpacked.reads hholds
    obtain ⟨records'', hholds'', hj', -, hread'⟩ := hlater.reads hholds' rfl hj hin hread
    exact Holds.unpack hholds'' (by rw [← Holds.count hholds'']; exact hj') hread'
  · intro α layout values j g hlayout hfits hrun
    have hwp : wp (append layout values) (fun n g => n = f.count ∧ g.count = f.count + 1)
        (fun _ _ => True) f := by
      refine Holds.wp_append hholds hlayout hfits ?_ (fun _ => trivial)
      intro g r hg _ _ _
      rw [hg.count, hcount, List.length_append, List.length_singleton]
      exact ⟨rfl, rfl⟩
    have hdone := wp_ok hwp hrun
    exact hdone

/-- A file of two records of eight bytes, the second packed again at its last four. -/
theorem record_file_sound_two : ∃ f : FixedRecordFile, f.count = 2 ∧
    f.unpack 1 (Struct.unsigned 4) 4 = .ok 9 ∧ Sound f := by
  have hrun : ∃ f g h k : FixedRecordFile, opened ⟨24, []⟩ 8 [83, 86, 69, 67] = .ok f ∧
      append (Struct.unsigned 8) 5 f = (.ok 0, g) ∧ append (Struct.unsigned 8) 6 g = (.ok 1, h) ∧
      pack 1 (Struct.unsigned 4) 9 4 h = (.ok (), k) ∧ f.recordSize = 8 ∧ g.recordSize = 8 ∧
      h.recordSize = 8 ∧ k.count = 2 ∧ k.unpack 1 (Struct.unsigned 4) 4 = .ok 9 :=
    ⟨_, _, _, _, rfl, rfl, rfl, rfl, rfl, rfl, rfl, rfl, rfl⟩
  obtain ⟨f, g, h, k, hopened, hfirst, hsecond, hpack, hf, hg, hh, hcount, hunpack⟩ := hrun
  have hreached : Reached h := .step (.step (.created rfl hopened)
    (.append (le_of_eq hf.symm) (by decide) hfirst))
    (.append (le_of_eq hg.symm) (by decide) hsecond)
  exact ⟨k, hcount, hunpack,
    record_file_sound (.step hreached (.pack (le_of_eq hh.symm) (by decide) hpack))⟩

end SoupDB.FixedRecordFile
