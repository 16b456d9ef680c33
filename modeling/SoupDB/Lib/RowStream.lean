import SoupDB.Lib.Except

/-!
# Rows that are pulled

An operator that is asked for one row after the other emits rows until it has no more, or until
it fails.  An operator above it that stops asking does not see the failure.

The rules say how far a limit looks (`limit_map_take`) and what comes of the rows when no
operator fails.
-/

namespace SoupDB

/-- The rows an operator emits, and the error it fails with after them, if it does. -/
@[ext] structure RowStream (ε α : Type) where
  rows : List α
  failure : Option ε

namespace RowStream

variable {ε α β γ : Type}

def ofList (rows : List α) : RowStream ε α := ⟨rows, none⟩

/-- A row before the others. -/
def cons (row : α) (s : RowStream ε α) : RowStream ε α := ⟨row :: s.rows, s.failure⟩

/-- What is done with every row. -/
def mapRows (f : α → Except ε β) (failure : Option ε) : List α → RowStream ε β
  | [] => ⟨[], failure⟩
  | row :: rows =>
      match f row with
      | .error e => ⟨[], some e⟩
      | .ok value => cons value (mapRows f failure rows)

def map (f : α → Except ε β) (s : RowStream ε α) : RowStream ε β := mapRows f s.failure s.rows

def filterRows (accepts : α → Except ε Bool) (failure : Option ε) : List α → RowStream ε α
  | [] => ⟨[], failure⟩
  | row :: rows =>
      match accepts row with
      | .error e => ⟨[], some e⟩
      | .ok true => cons row (filterRows accepts failure rows)
      | .ok false => filterRows accepts failure rows

def filter (accepts : α → Except ε Bool) (s : RowStream ε α) : RowStream ε α :=
  filterRows accepts s.failure s.rows

/-- The rows whose key was not seen before. -/
def distinctRows (key : α → Except ε β) (same : β → β → Bool) (failure : Option ε) :
    List β → List α → RowStream ε α
  | _, [] => ⟨[], failure⟩
  | seen, row :: rows =>
      match key row with
      | .error e => ⟨[], some e⟩
      | .ok k =>
          if seen.any (same k) then distinctRows key same failure seen rows
          else cons row (distinctRows key same failure (k :: seen) rows)

def distinct (key : α → Except ε β) (same : β → β → Bool) (s : RowStream ε α) : RowStream ε α :=
  distinctRows key same s.failure [] s.rows

/-- The rows that are pulled for `limit` rows after the first `offset`. -/
def limit (limit offset : Nat) (s : RowStream ε α) : RowStream ε α :=
  ⟨(s.rows.drop offset).take limit, if offset + limit ≤ s.rows.length then none else s.failure⟩

/-- All the rows, or the error. -/
def collect (s : RowStream ε α) : Except ε (List α) :=
  match s.failure with
  | some e => .error e
  | none => .ok s.rows

/-! ## Limits -/

/-- What is seen of a stream when so many rows are pulled. -/
def pulled (count : Nat) (s : RowStream ε α) : RowStream ε α :=
  ⟨s.rows.take count, if count ≤ s.rows.length then none else s.failure⟩

theorem limit_eq (n offset : Nat) (s : RowStream ε α) :
    s.limit n offset =
      ⟨(s.pulled (offset + n)).rows.drop offset, (s.pulled (offset + n)).failure⟩ := by
  rw [limit, pulled]
  congr 1
  rw [List.drop_take, Nat.add_sub_cancel_left]

theorem pulled_cons (count : Nat) (row : α) (s : RowStream ε α) :
    (cons row s).pulled (count + 1) = cons row (s.pulled count) := by
  simp [pulled, cons]

theorem pulled_map_take (f : α → Except ε β) (count : Nat) (rows : List α) :
    (map f (ofList (rows.take count))).pulled count = (map f (ofList rows)).pulled count := by
  rw [map, map, ofList, ofList]
  induction rows generalizing count with
  | nil => simp
  | cons row rows ih =>
      cases count with
      | zero => simp [pulled]
      | succ count =>
          rw [List.take_succ_cons, mapRows, mapRows]
          cases f row with
          | error e => rfl
          | ok value =>
              rw [pulled_cons, pulled_cons]
              exact congrArg (cons value) (ih count)

/-- A limit over what is done with each row needs no more rows than it skips and emits. -/
theorem limit_map_take (f : α → Except ε β) (n offset : Nat) (rows : List α) :
    (map f (ofList (rows.take (offset + n)))).limit n offset =
      (map f (ofList rows)).limit n offset := by
  rw [limit_eq, limit_eq, pulled_map_take]

/-! ## Streams with no failure -/

variable {s : RowStream ε α} {rows : List α} {f : α → Except ε β} {accepts : α → Except ε Bool}

theorem collect_eq_ok : s.collect = .ok rows ↔ s = ofList rows := by
  rw [collect]
  cases s with
  | mk rows' failure =>
      cases failure with
      | none => simp [ofList]
      | some e => simp [ofList]

theorem map_of_mapM {values : List β} (h : rows.mapM f = .ok values) :
    map f (ofList rows) = ofList values := by
  have hall := mapM_eq_ok.mp h
  clear h
  rw [map, ofList]
  induction hall with
  | nil => rfl
  | cons hvalue _ ih =>
      rw [mapRows, hvalue]
      dsimp only
      rw [ih]
      rfl

@[simp] theorem collect_of_list (rows : List α) :
    (ofList rows : RowStream ε α).collect = .ok rows := rfl

/-- A stream whose images have no failure has none. -/
theorem mapM_of_map {values : List β} (h : map f s = ofList values) :
    ∃ rows, s = ofList rows ∧ rows.mapM f = .ok values := by
  obtain ⟨rows, failure⟩ := s
  rw [map] at h
  dsimp only at h
  suffices hrows : failure = none ∧ rows.mapM f = .ok values from
    ⟨rows, by rw [hrows.1]; rfl, hrows.2⟩
  induction rows generalizing values with
  | nil =>
      rw [mapRows, ofList] at h
      cases h
      exact ⟨rfl, rfl⟩
  | cons row rows ih =>
      rw [mapRows] at h
      cases hf : f row with
      | error e =>
          rw [hf] at h
          cases h
      | ok value =>
          rw [hf] at h
          injection h with hvalues hfailure
          subst hvalues
          obtain ⟨hnone, hmap⟩ := ih (RowStream.ext rfl hfailure)
          refine ⟨hnone, ?_⟩
          rw [List.mapM_cons, hf, hmap]
          rfl

theorem filter_of_ok {accepted : α → Bool} (h : ∀ row ∈ rows, accepts row = .ok (accepted row)) :
    filter accepts (ofList rows) = ofList (rows.filter accepted) := by
  rw [filter, ofList]
  induction rows with
  | nil => rfl
  | cons row rows ih =>
      rw [filterRows, h row List.mem_cons_self]
      have hrest := ih (fun r hr => h r (List.mem_cons_of_mem _ hr))
      cases haccepted : accepted row with
      | true =>
          rw [List.filter_cons_of_pos haccepted]
          dsimp only
          rw [hrest]
          rfl
      | false =>
          rw [List.filter_cons_of_neg (by rw [haccepted]; decide)]
          exact hrest

theorem ok_of_filter {kept : List α} (h : filter accepts (ofList rows) = ofList kept) :
    ∀ row ∈ rows, ∃ accepted, accepts row = .ok accepted := by
  rw [filter, ofList] at h
  dsimp only at h
  induction rows generalizing kept with
  | nil => exact List.forall_mem_nil _
  | cons row rows ih =>
      rw [filterRows] at h
      cases hrow : accepts row with
      | error e =>
          rw [hrow] at h
          cases h
      | ok accepted =>
          refine List.forall_mem_cons.mpr ⟨⟨accepted, hrow⟩, ?_⟩
          rw [hrow] at h
          cases accepted with
          | false => exact ih h
          | true =>
              injection h with hrows hfailure
              exact ih (RowStream.ext rfl hfailure)

theorem collect_limit_zero {offset : Nat} (h : (s.limit 0 offset).collect = .ok rows) :
    rows = [] := by
  have := congrArg RowStream.rows (collect_eq_ok.mp h)
  simpa [limit, ofList] using this.symm

end RowStream

end SoupDB
