import SoupDB.Algorithms.ExternalSort
import SoupDB.Common.Record

/-!
# SoupDB: the Sort operator

Sort of the full input over one or more keys: in memory, or with `externalSort` when there
is a memory limit.  The expressions of the ORDER BY list and the objects they evaluate to
are parameters.

In memory the sort is stable.  The merge of the external sort takes tied entries in the
order they were pushed on the heap, so the two paths agree on every input exactly when no
two different rows tie.
-/

namespace SoupDB

open RecordFile (Record Sized serializedSize recordChunks)
open Record (encodeRow decodeRow)
open ExternalSort (TotalPreorder MergedInto leBy externalSort keyLt)

/-- What the operator asks of expressions and of the objects they evaluate to. -/
structure Objects (Expr Object : Type) where
  evaluate : Expr → List Datum → List ColumnDef → Except PyError Object
  /-- `left == right`. -/
  eq : Object → Object → Bool
  /-- `left < right`. -/
  lt : Object → Object → Except PyError Bool
  /-- `f"{expr}"`. -/
  text : Expr → String

structure OrderByItem (Expr : Type) where
  expr : Expr
  ascending : Bool

/-- The operator, apart from its child. -/
structure SortOperator (Expr Object : Type) where
  objects : Objects Expr Object
  orderBy : List (OrderByItem Expr)
  schema : List ColumnDef

namespace SortOperator

variable {Expr Object : Type} (s : SortOperator Expr Object)

/-- `left_key < right_key`, where objects that have no order are an execution error. -/
def ascending (item : OrderByItem Expr) (leftKey rightKey : Object) : Except PyError Bool :=
  match s.objects.lt leftKey rightKey with
  | .error (.TypeError _) =>
      .error (.QueryExecutionError
        s!"cannot order by {s.objects.text item.expr}: incompatible types")
  | result => result

def compareItems : List (OrderByItem Expr) → List Object → List Object → Except PyError Int
  | item :: items, leftKey :: leftKeys, rightKey :: rightKeys =>
      if s.objects.eq leftKey rightKey then compareItems items leftKeys rightKeys
      else do
        let ascending ← s.ascending item leftKey rightKey
        .ok (if ascending = item.ascending then -1 else 1)
  | _, _, _ => .ok 0

def compareKeys (leftKeys rightKeys : List Object) : Except PyError Int :=
  s.compareItems s.orderBy leftKeys rightKeys

def keys (row : List Datum) : Except PyError (List Object) :=
  s.orderBy.mapM (fun item => s.objects.evaluate item.expr row s.schema)

def compareRecords (left right : Record) : Except PyError Int := do
  let leftRow ← decodeRow left s.schema
  let rightRow ← decodeRow right s.schema
  let leftKeys ← s.keys leftRow
  let rightKeys ← s.keys rightRow
  s.compareKeys leftKeys rightKeys

def buffered (record : Record) : Except PyError (List Datum × List Object) := do
  let row ← decodeRow record s.schema
  let keys ← s.keys row
  .ok (row, keys)

/-- `left[1]` is before `right[1]`. -/
def bufferedLt (left right : List Datum × List Object) : Except PyError Bool := do
  let c ← s.compareKeys left.2 right.2
  .ok (decide (c < 0))

/-- The records of the operator without a memory limit. -/
def inMemory (records : List Record) : Except PyError (List Record) := do
  let buffer ← records.mapM s.buffered
  let sorted ← sortBy s.bufferedLt buffer
  sorted.mapM (fun pair => encodeRow pair.1 s.schema)

/-- The records the operator emits, from those of its child. -/
def emits (memoryLimitBytes : Option Int) (records : List Record) :
    Except PyError (List Record) :=
  match memoryLimitBytes with
  | none => s.inMemory records
  | some limit => externalSort s.compareRecords limit 8 records

/-- The record is the encoding of the row it is decoded to. -/
def IsRow (record : Record) : Prop :=
  ∃ row, decodeRow record s.schema = .ok row ∧ encodeRow row s.schema = .ok record

variable {s} {D : Record → Prop}

/-! ## The sort in memory -/

theorem compare_records_eq {a b : Record} {p q : List Datum × List Object}
    (ha : s.buffered a = .ok p) (hb : s.buffered b = .ok q) :
    s.compareRecords a b = s.compareKeys p.2 q.2 := by
  obtain ⟨leftRow, hleft, ha⟩ := bind_eq_ok.mp ha
  obtain ⟨leftKeys, hleftKeys, ha⟩ := bind_eq_ok.mp ha
  obtain ⟨rightRow, hright, hb⟩ := bind_eq_ok.mp hb
  obtain ⟨rightKeys, hrightKeys, hb⟩ := bind_eq_ok.mp hb
  cases ha
  cases hb
  rw [compareRecords, hleft, ok_bind, hright, ok_bind, hleftKeys, ok_bind, hrightKeys, ok_bind]

theorem buffered_of_compared {a b : Record} {c : Int} (h : s.compareRecords a b = .ok c) :
    ∃ row keys, s.buffered a = .ok (row, keys) ∧ decodeRow a s.schema = .ok row := by
  obtain ⟨leftRow, hleft, h⟩ := bind_eq_ok.mp h
  obtain ⟨rightRow, hright, h⟩ := bind_eq_ok.mp h
  obtain ⟨leftKeys, hleftKeys, h⟩ := bind_eq_ok.mp h
  refine ⟨leftRow, leftKeys, ?_, hleft⟩
  rw [buffered, hleft, ok_bind, hleftKeys]
  rfl

variable {records : List Record}

section

variable (hrows : ∀ record, D record → s.IsRow record) (hcompare : TotalPreorder s.compareRecords D)
include hrows hcompare

/-- The sort in memory emits the stable sort of the records. -/
theorem in_memory_ok (hD : ∀ record ∈ records, D record) :
    ∃ out, s.inMemory records = .ok out ∧ Ascending (leBy s.compareRecords) out ∧
      SameTies (leBy s.compareRecords) D records out := by
  have hbuffered : ∀ record, ∃ pair, D record →
      s.buffered record = .ok pair ∧ encodeRow pair.1 s.schema = .ok record := by
    intro record
    by_cases hrecord : D record
    · obtain ⟨c, c', hc, _, _⟩ := hcompare.compared hrecord hrecord
      obtain ⟨row, keys, hpair, hdecode⟩ := buffered_of_compared hc
      obtain ⟨row', hdecode', hencode⟩ := hrows record hrecord
      rw [hdecode] at hdecode'
      cases hdecode'
      exact ⟨(row, keys), fun _ => ⟨hpair, hencode⟩⟩
    · exact ⟨([], []), fun h => absurd h hrecord⟩
  choose pair hpair using hbuffered
  have hlt : ComparesBy (fun a b => s.bufferedLt (pair a) (pair b))
      (leBy s.compareRecords) D := by
    intro a b ha hb
    rw [← hcompare.key_lt_eq ha hb, keyLt, compare_records_eq (hpair a ha).1 (hpair b hb).1]
    rfl
  obtain ⟨out, hsort, hsorted, hsame⟩ := sortBy_stable hcompare.preorder hlt hD
  refine ⟨out, ?_, hsorted, hsame⟩
  rw [inMemory, mapM_ok (fun record hrecord => (hpair record (hD record hrecord)).1), ok_bind,
    sortBy_map, hsort, ok_bind, ok_bind, List.mapM_map]
  have hencode : ∀ record ∈ out, encodeRow (pair record).1 s.schema = .ok (id record) :=
    fun record hrecord => (hpair record (hD record (hsame.perm.mem_iff.mp hrecord))).2
  exact (mapM_ok hencode).trans (by rw [List.map_id])

/-! ## The external sort -/

/-- Where rows of different initial runs that tie are equal, both paths emit the same rows. -/
theorem emits_same {limit : Int} (hlimit : 0 < limit) (hD : ∀ record ∈ records, D record)
    (hsized : ∀ record ∈ records, Sized record)
    (hapart : Apart (leBy s.compareRecords) (recordChunks limit.toNat records)) :
    s.emits (some limit) records = s.emits none records := by
  obtain ⟨out, hmemory, hsorted, hsame⟩ := in_memory_ok hrows hcompare hD
  obtain ⟨spilled, hspilled, hmerged⟩ :=
    ExternalSort.external_sort_ok hcompare hlimit (by decide : (2 : Int) ≤ 8) hD hsized
  have hties := hmerged.ties hapart
  rw [RecordFile.record_chunks_flatten] at hties
  have heq : spilled = out := by
    refine eq_of_ties hcompare.preorder hmerged.run.mem ?_ hmerged.run.ascending hsorted ?_
    · exact fun record hrecord => hD record (hsame.perm.mem_iff.mp hrecord)
    · exact fun a ha => (hties.ties a ha).trans (hsame.ties a ha).symm
  simp only [emits]
  rw [hspilled, hmemory, heq]

theorem in_memory_tied (hD : ∀ record ∈ records, D record)
    (htied : ∀ a ∈ records, ∀ b ∈ records, tied (leBy s.compareRecords) a b = true) :
    s.emits none records = .ok records := by
  obtain ⟨out, hmemory, hsorted, hsame⟩ := in_memory_ok hrows hcompare hD
  have hascending : Ascending (leBy s.compareRecords) records :=
    List.pairwise_of_forall_mem_list (fun a ha b hb => (tied_iff.mp (htied a ha b hb)).1)
  have heq : out = records :=
    eq_of_ties hcompare.preorder
      (fun record hrecord => hD record (hsame.perm.mem_iff.mp hrecord)) hD hsorted hascending
      hsame.ties
  simp only [emits]
  rw [hmemory, heq]

end

theorem emits_interleaved (hcompare : TotalPreorder s.compareRecords D) {a b : Record}
    (ha : D a) (hb : D b) (hsized : Sized a) (hsized' : Sized b)
    (htied : tied (leBy s.compareRecords) a b = true) :
    s.emits (some (serializedSize a + serializedSize b : Nat)) [a, b, a] = .ok [a, a, b] :=
  ExternalSort.external_sort_interleaved hcompare ha hb hsized hsized' htied

theorem tied_of_compared (hcompare : TotalPreorder s.compareRecords D) {a b : Record}
    (ha : D a) (hb : D b) :
    tied (leBy s.compareRecords) a b = true ↔ s.compareRecords a b = .ok 0 := by
  obtain ⟨c, hc, hab, hba⟩ := hcompare.sign ha hb
  rw [tied_iff, hab, hba, hc, ← le_antisymm_iff, Except.ok.injEq]

/-- Sorting with a memory limit.  For the rows of a domain on which the comparison of the
ORDER BY list is a total preorder: an input is sorted as in memory if its rows of different
initial runs that tie are equal; every input is, with every positive limit, if and only if
the records have lengths of four bytes and no two different rows tie; and a limit that is
not positive is refused. -/
theorem sort_with_memory_limit (s : SortOperator Expr Object) {D : Record → Prop}
    (hrows : ∀ record, D record → s.IsRow record)
    (hcompare : TotalPreorder s.compareRecords D) :
    (∀ (limit : Int) (records : List Record), 0 < limit →
        (∀ record ∈ records, D record ∧ Sized record) →
        Apart (leBy s.compareRecords) (recordChunks limit.toNat records) →
        s.emits (some limit) records = s.emits none records) ∧
      ((∀ (limit : Int) (records : List Record), 0 < limit →
          (∀ record ∈ records, D record) →
          s.emits (some limit) records = s.emits none records) ↔
        (∀ record, D record → Sized record) ∧
          ∀ a b, D a → D b → s.compareRecords a b = .ok 0 → a = b) ∧
      ∀ (limit : Int) (records : List Record), limit ≤ 0 →
        (∀ record ∈ records, D record) →
        (∃ out, s.emits none records = .ok out) ∧
          s.emits (some limit) records =
            .error (.ValueError "memory_limit_bytes must be positive") := by
  refine ⟨?_, ⟨?_, ?_⟩, ?_⟩
  · intro limit records hlimit hrecords hapart
    exact emits_same hrows hcompare hlimit (fun record hrecord => (hrecords record hrecord).1)
      (fun record hrecord => (hrecords record hrecord).2) hapart
  · intro hall
    have hsized : ∀ record, D record → Sized record := by
      intro record hrecord
      by_contra hunsized
      have hD : ∀ other ∈ [record], D other := by
        intro other hother
        rw [List.mem_singleton] at hother
        rw [hother]
        exact hrecord
      obtain ⟨out, hmemory, _, _⟩ := in_memory_ok hrows hcompare hD
      have hsame := hall 1 [record] Int.one_pos hD
      simp only [emits] at hsame
      rw [hmemory, ExternalSort.external_sort_unsized hunsized] at hsame
      cases hsame
    refine ⟨hsized, ?_⟩
    intro a b ha hb hzero
    have htied := (tied_of_compared hcompare ha hb).mpr hzero
    have hpair : ∀ record ∈ [a, b, a], record = a ∨ record = b := by
      intro record hrecord
      simp only [List.mem_cons, List.not_mem_nil, or_false] at hrecord
      tauto
    have hD : ∀ record ∈ [a, b, a], D record := by
      intro record hrecord
      rcases hpair record hrecord with rfl | rfl
      · exact ha
      · exact hb
    have hties : ∀ x ∈ [a, b, a], ∀ y ∈ [a, b, a],
        tied (leBy s.compareRecords) x y = true := by
      intro x hx y hy
      have hswap : tied (leBy s.compareRecords) b a = true := by
        rw [tied_comm]
        exact htied
      rcases hpair x hx with rfl | rfl
      · rcases hpair y hy with rfl | rfl
        · exact hcompare.preorder.tied_self ha
        · exact htied
      · rcases hpair y hy with rfl | rfl
        · exact hswap
        · exact hcompare.preorder.tied_self hb
    have hpos : 0 < serializedSize a := by
      rw [serializedSize]
      omega
    have hsame := hall (serializedSize a + serializedSize b : Nat) [a, b, a] (by omega) hD
    rw [emits_interleaved hcompare ha hb (hsized a ha) (hsized b hb) htied,
      in_memory_tied hrows hcompare hD hties] at hsame
    simp only [Except.ok.injEq, List.cons.injEq, true_and] at hsame
    exact hsame.1
  · rintro ⟨hsized, hties⟩ limit records hlimit hD
    have hapart : Apart (leBy s.compareRecords) (recordChunks limit.toNat records) := by
      refine List.pairwise_of_forall_mem_list ?_
      intro run hrun run' hrun' x hx y hy htied
      have hmem : ∀ {run : List Record} {z : Record},
          run ∈ recordChunks limit.toNat records → z ∈ run → D z := by
        intro run z hrun hz
        refine hD z ?_
        rw [← RecordFile.record_chunks_flatten limit.toNat records]
        exact List.mem_flatten.mpr ⟨run, hrun, hz⟩
      have hx' := hmem hrun hx
      have hy' := hmem hrun' hy
      exact hties x y hx' hy' ((tied_of_compared hcompare hx' hy').mp htied)
    exact emits_same hrows hcompare hlimit hD
      (fun record hrecord => hsized record (hD record hrecord)) hapart
  · intro limit records hlimit hD
    obtain ⟨out, hmemory, _, _⟩ := in_memory_ok hrows hcompare hD
    refine ⟨⟨out, hmemory⟩, ?_⟩
    simp only [emits]
    rw [externalSort, if_pos hlimit]

/-! ## Papers by year -/

def columnValue (name : String) (row : List Datum) (schema : List ColumnDef) :
    Except PyError Datum :=
  match schema.findIdx? (fun column => column.name = name) with
  | some index =>
      match row[index]? with
      | some value => .ok value
      | none => .error (.QueryExecutionError s!"column {reprStr name} missing from row")
  | none => .error (.QueryExecutionError s!"unknown column {reprStr name}")

/-- Columns of integers. -/
def integers : Objects String Datum where
  evaluate := columnValue
  eq
    | .int i, .int j => i = j
    | _, _ => false
  lt
    | .int i, .int j => .ok (i < j)
    | _, _ => .error (.TypeError "'<' not supported")
  text := id

/-- `ORDER BY anio` over papers with an id and a year. -/
def byYear : SortOperator String Datum where
  objects := integers
  orderBy := [⟨"anio", true⟩]
  schema := [⟨"id", .INT, none⟩, ⟨"anio", .INT, none⟩]

/-- The papers `(1, 2021)` and `(2, 2021)`, and `(3, 2020)`. -/
def firstPaper : Record := [1, 1, 0, 0, 0, 1, 229, 7, 0, 0]

def secondPaper : Record := [1, 2, 0, 0, 0, 1, 229, 7, 0, 0]

def thirdPaper : Record := [1, 3, 0, 0, 0, 1, 228, 7, 0, 0]

theorem by_year_rows : ∀ record,
    record = firstPaper ∨ record = secondPaper ∨ record = thirdPaper →
      byYear.IsRow record := by
  rintro record (rfl | rfl | rfl)
  · exact ⟨[.int 1, .int 2021], rfl, rfl⟩
  · exact ⟨[.int 2, .int 2021], rfl, rfl⟩
  · exact ⟨[.int 3, .int 2020], rfl, rfl⟩

theorem by_year_sized : ∀ record,
    record = firstPaper ∨ record = secondPaper ∨ record = thirdPaper → Sized record := by
  rintro record (rfl | rfl | rfl)
  all_goals exact (by decide : 10 < 2 ^ 32)

theorem by_year_preorder : TotalPreorder byYear.compareRecords (fun record =>
    record = firstPaper ∨ record = secondPaper ∨ record = thirdPaper) where
  compared := by
    rintro a b (rfl | rfl | rfl) (rfl | rfl | rfl)
    all_goals exact ⟨_, _, rfl, rfl, by decide⟩
  trans := by
    rintro a b c (rfl | rfl | rfl) (rfl | rfl | rfl) (rfl | rfl | rfl)
    all_goals decide

theorem sort_with_memory_limit_papers :
    byYear.emits (some 14) [firstPaper, thirdPaper] =
      byYear.emits none [firstPaper, thirdPaper] := by
  refine (sort_with_memory_limit byYear by_year_rows by_year_preorder).1 14 _ (by decide) ?_ ?_
  · intro record hrecord
    simp only [List.mem_cons, List.not_mem_nil, or_false] at hrecord
    rcases hrecord with rfl | rfl
    · exact ⟨Or.inl rfl, by_year_sized _ (Or.inl rfl)⟩
    · exact ⟨Or.inr (Or.inr rfl), by_year_sized _ (Or.inr (Or.inr rfl))⟩
  · have hchunks : recordChunks 14 [firstPaper, thirdPaper] =
        [[firstPaper], [thirdPaper]] := rfl
    have hdistinct : tied (leBy byYear.compareRecords) firstPaper thirdPaper = false := by
      decide
    refine hchunks ▸ List.pairwise_pair.mpr ?_
    intro x hx y hy htied
    rw [List.mem_singleton] at hx hy
    rw [hx, hy, hdistinct] at htied
    cases htied

/-- Rows in the order `first, second, first`, which all tie, are emitted in another order with
a memory limit of two of them. -/
theorem tied_papers_out_of_order :
    ¬ ∀ (s : SortOperator String Datum) (D : Record → Prop),
      (∀ record, D record → s.IsRow record) → TotalPreorder s.compareRecords D →
      ∀ (limit : Int) (records : List Record), 0 < limit → (∀ record ∈ records, D record) →
        s.emits (some limit) records = s.emits none records := by
  intro hall
  have hsame := hall byYear _ by_year_rows by_year_preorder 28
    [firstPaper, secondPaper, firstPaper] (by decide) (by
      intro record hrecord
      simp only [List.mem_cons, List.not_mem_nil, or_false] at hrecord
      rcases hrecord with rfl | rfl | rfl
      · exact Or.inl rfl
      · exact Or.inr (Or.inl rfl)
      · exact Or.inl rfl)
  have hmemory : byYear.emits none [firstPaper, secondPaper, firstPaper] =
      .ok [firstPaper, secondPaper, firstPaper] := rfl
  have hspilled : byYear.emits (some 28) [firstPaper, secondPaper, firstPaper] =
      .ok [firstPaper, firstPaper, secondPaper] :=
    emits_interleaved by_year_preorder (Or.inl rfl) (Or.inr (Or.inl rfl))
      (by_year_sized _ (Or.inl rfl)) (by_year_sized _ (Or.inr (Or.inl rfl))) (by decide)
  rw [hmemory, hspilled] at hsame
  simp only [Except.ok.injEq, List.cons.injEq, true_and] at hsame
  exact absurd hsame.1 (by decide)

end SortOperator
end SoupDB
