import SoupDB.Query.Aggregate

/-!
# SoupDB: the Aggregate operator with a memory limit

Both paths find the groups of the same keys: the dictionary of rows, and the partitions of
the external hash.  The running state of a group gives the aggregates of its rows, so the
paths emit the same rows up to their order, or both raise.

Main fact: `aggregate_with_memory_limit`.
-/

namespace SoupDB.AggregateOperator

open Value List

open RecordFile (Record Sized)
open ExternalHash (Keyed externalHashGroupBy)
open KeyCodec (encodeKey)

/-! ## Equal keys -/

theorem obj_sameKey : SameKey Obj.eq where
  symm := by
    intro x y h
    cases x with
    | value v =>
        cases y with
        | value w => exact eq_swap v w h
        | polygon ws => cases h
    | polygon vs =>
        cases y with
        | value w => cases h
        | polygon ws => exact eqItems_swap _ _ h
  trans := by
    intro x y z h h'
    cases x with
    | value u =>
        cases y with
        | value v =>
            cases z with
            | value w => exact eq_trans h h'
            | polygon ws => cases h'
        | polygon vs => cases h
    | polygon us =>
        cases y with
        | value v => cases h
        | polygon vs =>
            cases z with
            | value w => cases h'
            | polygon ws => exact eqItems_trans h h'

theorem keys_sameKey : SameKey eqKeys where
  symm := by
    intro xs
    induction xs with
    | nil =>
        intro ys h
        cases ys with
        | nil => rfl
        | cons y ys => cases h
    | cons x xs ih =>
        intro ys h
        cases ys with
        | nil => cases h
        | cons y ys =>
            rw [eqKeys, Bool.and_eq_true] at h ⊢
            exact ⟨obj_sameKey.symm h.1, ih h.2⟩
  trans := by
    intro xs
    induction xs with
    | nil =>
        intro ys zs h h'
        cases ys with
        | nil => exact h'
        | cons y ys => cases h
    | cons x xs ih =>
        intro ys zs h h'
        cases ys with
        | nil => cases h
        | cons y ys =>
            cases zs with
            | nil => cases h'
            | cons z zs =>
                rw [eqKeys, Bool.and_eq_true] at h h' ⊢
                exact ⟨obj_sameKey.trans h.1 h'.1, ih h.2 h'.2⟩

theorem eqKeys_values (vs ws : List Value) :
    eqKeys (vs.map Obj.value) (ws.map Obj.value) = eqItems vs ws := by
  induction vs generalizing ws with
  | nil =>
      cases ws with
      | nil => simp [eqKeys, eqItems]
      | cons w ws => simp [eqKeys, eqItems]
  | cons v vs ih =>
      cases ws with
      | nil => simp [eqKeys, eqItems]
      | cons w ws => simp only [map_cons, eqKeys, eqItems, ih, Obj.eq]

variable {vs : List Value} {records : List Record}

theorem eq_unwrap {ws : List Value} (hlength : vs.length = ws.length) :
    eq (unwrap vs) (unwrap ws) = eqItems vs ws := by
  match vs, ws, hlength with
  | [], [], _ => simp [unwrap, eq]
  | [v], [w], _ => simp [unwrap, eqItems]
  | _ :: _ :: _, _ :: _ :: _, _ => simp [unwrap, eq]

variable {a : AggregateOperator}

theorem mapM_key_value {objs : List Obj} (h : objs.mapM keyValue = .ok vs) :
    objs = vs.map Obj.value := by
  have hall := mapM_eq_ok.mp h
  clear h
  induction hall with
  | nil => rfl
  | @cons obj v objs vs hv _ ih =>
      rw [map_cons, ← ih]
      cases obj with
      | value w =>
          cases hv
          rfl
      | polygon ws => cases hv

/-! ## The dictionary of rows -/

/-- One more row of a group. -/
def appendRow (row : Record → Row) (state : Option (List Row)) (record : Record) :
    Except PyError (List Row) :=
  .ok (state.getD [] ++ [row record])

theorem foldGroup_append_row (row : Record → Row) (state : Option (List Row)) (record : Record)
    (records : List Record) :
    foldGroup (appendRow row) state (record :: records) =
      .ok (some (state.getD [] ++ (record :: records).map row)) := by
  induction records generalizing state record with
  | nil => rfl
  | cons next records ih =>
      rw [foldGroup, appendRow, ok_bind, ih]
      simp

theorem group_rows_ok {row : Record → Row} {key : Record → List Obj}
    (hrows : ∀ r ∈ records, a.decodeRow r = .ok (row r) ∧ a.keys (row r) = .ok (key r))
    (hself : ∀ r ∈ records, eqKeys (key r) (key r) = true) :
    ∀ {done : List Record} {groups : List (List Obj × List Row)},
      Grouped eqKeys key (appendRow row) done groups →
      (∀ g ∈ groups, ∃ r ∈ done, key r = g.1) →
      ∃ groups', a.groupRows records groups = .ok groups' ∧
        Grouped eqKeys key (appendRow row) (done ++ records) groups' ∧
        ∀ g ∈ groups', ∃ r ∈ done ++ records, key r = g.1 := by
  induction records with
  | nil =>
      intro done groups hgrouped hkeys
      refine ⟨groups, rfl, ?_, ?_⟩
      · rw [append_nil]
        exact hgrouped
      · rw [append_nil]
        exact hkeys
  | cons record records ih =>
      intro done groups hgrouped hkeys
      obtain ⟨hrow, hkey⟩ := hrows record (by simp)
      have hassoc : done ++ record :: records = done ++ [record] ++ records := by
        rw [append_assoc]
        rfl
      have hset := hgrouped.set keys_sameKey (hself record (by simp))
        (show appendRow row (getGroup eqKeys (key record) groups) record =
          .ok ((getGroup eqKeys (key record) groups).getD [] ++ [row record]) from rfl)
      rw [groupRows, hrow, ok_bind, hkey, ok_bind, hassoc]
      refine ih (fun r hr => hrows r (by simp [hr])) (fun r hr => hself r (by simp [hr])) hset ?_
      intro g hg
      rcases key_of_mem_setGroup hg with hnew | ⟨g', hmem, heq⟩
      · exact ⟨record, by simp, hnew.symm⟩
      · obtain ⟨r, hr, hkey⟩ := hkeys g' hmem
        exact ⟨r, by simp [hr], hkey.trans heq⟩

/-- What was put in the dictionary was decoded, and its keys were evaluated. -/
theorem group_rows_returns {groups groups' : List (List Obj × List Row)}
    (h : a.groupRows records groups = .ok groups') :
    ∀ r ∈ records, ∃ row key, a.decodeRow r = .ok row ∧ a.keys row = .ok key := by
  induction records generalizing groups with
  | nil =>
      intro r hr
      cases hr
  | cons record records ih =>
      obtain ⟨row, hrow, h⟩ := bind_eq_ok.mp h
      obtain ⟨key, hkey, h⟩ := bind_eq_ok.mp h
      exact forall_mem_cons.mpr ⟨⟨row, key, hrow, hkey⟩, ih h⟩

/-! ## Groups of records whose keys can be encoded -/

/-- The rows of the records, and the values of their keys, which can be encoded. -/
structure Prepared (a : AggregateOperator) (row : Record → Row) (values : Record → List Value)
    (records : List Record) : Prop where
  rows : ∀ r ∈ records, a.decodeRow r = .ok (row r)
  keys : ∀ r ∈ records, a.keys (row r) = .ok ((values r).map Obj.value)
  encodes : ∀ r ∈ records, ∃ bytes, encodeKey (unwrap (values r)) = .ok bytes
  plain : ∀ r ∈ records, ∀ items, Value.tuple items ∉ values r
  sized : ∀ r ∈ records, Sized r

/-- The keys of the output row of a group. -/
def spread (key : Value) : List Obj :=
  match key with
  | .tuple items => items.map Obj.value
  | key => [.value key]

theorem spread_unwrap (hplain : ∀ items, Value.tuple items ∉ vs) :
    spread (unwrap vs) = vs.map Obj.value := by
  match vs with
  | [] => rfl
  | [v] =>
      cases v with
      | tuple items => exact absurd (mem_singleton.mpr rfl) (hplain items)
      | _ => rfl
  | _ :: _ :: _ => rfl

theorem emit_group_eq (key : Value) (state : List RunningAggregate) :
    a.emitGroup key state =
      a.finishGroup state >>= fun values => .ok (spread key ++ values) := by
  rw [emitGroup]
  cases key with
  | _ => rfl

def output (a : AggregateOperator) (row : Record → Row) (values : Record → List Value)
    (records : List Record) (key : List Obj) : Except PyError (List Obj) :=
  a.groupValues key
    ((withKey eqKeys (fun r => (values r).map Obj.value) key records).map row)

namespace Prepared

variable {row : Record → Row} {values : Record → List Value} {records : List Record}

variable {r : Record}

variable (h : Prepared a row values records)
include h

theorem length (hr : r ∈ records) : (values r).length = a.groupBy.length := by
  have hlength := (mapM_eq_ok.mp (h.keys r hr)).length_eq
  rw [length_map] at hlength
  exact hlength.symm

theorem groupKey (hr : r ∈ records) : a.groupKey r = .ok (unwrap (values r)) := by
  have hvalues : ((values r).map Obj.value).mapM keyValue = .ok (values r) := by
    rw [mapM_map]
    exact (mapM_ok (fun v _ => rfl)).trans (by rw [map_id'])
  rw [AggregateOperator.groupKey, h.rows r hr, ok_bind, h.keys r hr, ok_bind, hvalues]
  rfl

theorem keyed :
    Keyed a.groupKey (fun r => unwrap (values r)) records where
  returns := fun _ hr => h.groupKey hr
  encodes := h.encodes
  sized := h.sized

theorem same {r' : Record} (hr : r ∈ records) (hr' : r' ∈ records) :
    eqKeys ((values r).map Obj.value) ((values r').map Obj.value) =
      eq (unwrap (values r)) (unwrap (values r')) := by
  rw [eqKeys_values, eq_unwrap (by rw [h.length hr, h.length hr'])]

/-- Keys that can be encoded are `==` to themselves. -/
theorem eq_self (r : Record) (hr : r ∈ records) :
    eqKeys ((values r).map Obj.value) ((values r).map Obj.value) = true := by
  rw [h.same hr hr]
  exact h.keyed.eq_self r hr

theorem eq_of_same {r' : Record} (hr : r ∈ records) (hr' : r' ∈ records)
    (hsame : eq (unwrap (values r)) (unwrap (values r')) = true) :
    values r = values r' := by
  obtain ⟨bytes, hbytes⟩ := h.encodes r hr
  obtain ⟨bytes', hbytes'⟩ := h.encodes r' hr'
  have heq := KeyCodec.eq_of_encode_key hsame hbytes hbytes'
  have hlength : (values r).length = (values r').length := by
    rw [h.length hr, h.length hr']
  have hinjective : ∀ {vs ws : List Value}, vs.length = ws.length → unwrap vs = unwrap ws →
      vs = ws := by
    intro vs ws hlength heq
    match vs, ws, hlength with
    | [], [], _ => rfl
    | [v], [w], _ => exact congrArg (fun x => [x]) heq
    | _ :: _ :: _, _ :: _ :: _, _ => exact Value.tuple.inj heq
  exact hinjective hlength heq

theorem group (hr : r ∈ records) :
    withKey eq (fun r => unwrap (values r)) (unwrap (values r)) records =
      withKey eqKeys (fun r => (values r).map Obj.value) ((values r).map Obj.value) records :=
  filter_congr (fun _ hr' => (h.same hr' hr).symm)

theorem spread (hr : r ∈ records) :
    AggregateOperator.spread (unwrap (values r)) = (values r).map Obj.value :=
  spread_unwrap (h.plain r hr)

theorem groupRows (hr : r ∈ records) :
    ∃ first rest,
      withKey eqKeys (fun r => (values r).map Obj.value) ((values r).map Obj.value) records =
        first :: rest ∧
      (∀ r' ∈ first :: rest, r' ∈ records) ∧
      ∀ row' ∈ (first :: rest).map row, RowTyped row' a.inputSchema := by
  have hmem : r ∈ withKey eqKeys (fun r => (values r).map Obj.value)
      ((values r).map Obj.value) records :=
    mem_filter.mpr ⟨hr, h.eq_self r hr⟩
  cases hgroup : withKey eqKeys (fun r => (values r).map Obj.value)
      ((values r).map Obj.value) records with
  | nil =>
      rw [hgroup] at hmem
      cases hmem
  | cons first rest =>
      have hrecords : ∀ r' ∈ first :: rest, r' ∈ records := by
        intro r' hr'
        rw [← hgroup] at hr'
        exact (mem_filter.mp hr').1
      refine ⟨first, rest, rfl, hrecords, ?_⟩
      intro row' hrow'
      obtain ⟨r', hr', rfl⟩ := mem_map.mp hrow'
      exact decode_row_typed (h.rows r' (hrecords r' hr'))

theorem fold_group
    (haggregates : ∀ expression ∈ a.aggregates,
      expression.distinct = false ∧ HasArgument a expression) (hr : r ∈ records) :
    SameResult
      (foldGroup a.aggregateStep none
          (withKey eq (fun r => unwrap (values r)) (unwrap (values r)) records) >>=
        fun state => a.emitGroup (unwrap (values r)) (state.getD []))
      (output a row values records ((values r).map Obj.value)) := by
  obtain ⟨first, rest, hgroup, hrecords, htyped⟩ := h.groupRows hr
  rw [h.group hr, hgroup, foldGroup_states (fun r' hr' => h.rows r' (hrecords r' hr')), bind_assoc,
    output, hgroup, groupValues]
  simp only [ok_bind, Option.getD_some, emit_group_eq, h.spread hr]
  rw [← bind_assoc]
  exact (fold_states htyped haggregates).bind (fun values' _ => SameResult.refl _)

end Prepared

/-! ## The two paths -/

/-- Both give the same rows, in some order, or both raise. -/
def SameRows {α : Type} (x y : Except PyError (List α)) : Prop :=
  (∃ out out', x = .ok out ∧ y = .ok out' ∧ out.Perm out') ∨
    ∃ e e', x = .error e ∧ y = .error e'

namespace SameRows

variable {α β : Type}

theorem of_errors {x y : Except PyError (List α)} (hx : ∀ out, x ≠ .ok out)
    (hy : ∀ out, y ≠ .ok out) : SameRows x y := by
  cases x with
  | ok out => exact absurd rfl (hx out)
  | error e =>
      cases y with
      | ok out => exact absurd rfl (hy out)
      | error e' => exact Or.inr ⟨e, e', rfl, rfl⟩

theorem of_result {x y z : Except PyError (List α)} (h : SameResult x y) (h' : SameRows y z) :
    SameRows x z := by
  rcases h' with ⟨out, out', hy, hz, hperm⟩ | ⟨e, e', hy, hz⟩
  · exact Or.inl ⟨out, out', (h out).mpr hy, hz, hperm⟩
  · refine of_errors (fun out hx => ?_) (fun out hok => ?_)
    · have hok := (h out).mp hx
      rw [hy] at hok
      cases hok
    · rw [hz] at hok
      cases hok

/-- A loop over lists with the same elements. -/
theorem of_perm {f : α → Except PyError β} {xs xs' : List α} (h : xs.Perm xs') :
    SameRows (xs.mapM f) (xs'.mapM f) := by
  cases hxs : xs.mapM f with
  | ok out =>
      obtain ⟨out', hxs', hperm⟩ := mapM_perm h hxs
      exact Or.inl ⟨out, out', rfl, hxs', hperm.symm⟩
  | error e =>
      refine of_errors (fun out hok => by cases hok) (fun out' hxs' => ?_)
      obtain ⟨out, hok, _⟩ := mapM_perm h.symm hxs'
      rw [hxs] at hok
      cases hok

theorem mapM {x y : Except PyError (List α)} (h : SameRows x y) (f : α → Except PyError β) :
    SameRows (x >>= fun xs => xs.mapM f) (y >>= fun xs => xs.mapM f) := by
  rcases h with ⟨out, out', hx, hy, hperm⟩ | ⟨e, e', hx, hy⟩
  · rw [hx, hy]
    exact of_perm hperm
  · rw [hx, hy]
    exact Or.inr ⟨e, e', rfl, rfl⟩

end SameRows

namespace Prepared

variable {row : Record → Row} {values : Record → List Value} {records : List Record}

variable (h : Prepared a row values records)
include h

theorem inMemory (hgroupBy : a.groupBy ≠ []) :
    ∃ keys : List (List Obj), keys.Pairwise (fun key key' => eqKeys key key' = false) ∧
      (∀ key, key ∈ keys → ∃ r ∈ records, (values r).map Obj.value = key) ∧
      (∀ r ∈ records, (values r).map Obj.value ∈ keys) ∧
      a.inMemory records = keys.mapM (output a row values records) := by
  have hrows : ∀ r ∈ records, a.decodeRow r = .ok (row r) ∧
      a.keys (row r) = .ok ((values r).map Obj.value) :=
    fun r hr => ⟨h.rows r hr, h.keys r hr⟩
  obtain ⟨groups, hgroups, hgrouped, hkeys⟩ := group_rows_ok hrows h.eq_self Grouped.nil
    (fun g hg => by cases hg)
  rw [nil_append] at hgrouped hkeys
  refine ⟨groups.map Prod.fst, ?_, ?_, ?_, ?_⟩
  · exact pairwise_map.mpr hgrouped.distinct
  · intro key hkey
    obtain ⟨g, hg, rfl⟩ := mem_map.mp hkey
    exact hkeys g hg
  · intro r hr
    obtain ⟨g, hg, hsame⟩ := hgrouped.complete r hr
    obtain ⟨r', hr', hkey⟩ := hkeys g hg
    rw [← hkey, h.same hr hr'] at hsame
    rw [h.eq_of_same hr hr' hsame, hkey]
    exact mem_map.mpr ⟨g, hg, rfl⟩
  · have hempty : a.groupBy.isEmpty = false := by
      cases hcase : a.groupBy with
      | nil => exact absurd hcase hgroupBy
      | cons expr exprs => rfl
    rw [AggregateOperator.inMemory, hempty, mapM_map]
    simp only [Bool.false_eq_true, if_false, hgroups, ok_bind]
    refine mapM_congr (fun g hg => ?_)
    obtain ⟨r, hr, hkey⟩ := hkeys g hg
    obtain ⟨first, rest, hgroup, _, _⟩ := h.groupRows hr
    have hfold := hgrouped.fold g hg
    rw [← hkey, hgroup, foldGroup_append_row] at hfold
    have hrows : (first :: rest).map row = g.2 := by
      simpa using hfold
    rw [Function.comp_apply, output, ← hkey, hgroup, hrows, hkey]

theorem external {limit : Int} (hlimit : 0 < limit)
    (haggregates : ∀ expression ∈ a.aggregates,
      expression.distinct = false ∧ HasArgument a expression) :
    (∃ keys : List (List Obj), keys.Pairwise (fun key key' => eqKeys key key' = false) ∧
      (∀ key, key ∈ keys → ∃ r ∈ records, (values r).map Obj.value = key) ∧
      (∀ r ∈ records, (values r).map Obj.value ∈ keys) ∧
      SameResult (a.external limit records) (keys.mapM (output a row values records))) ∨
    ((∀ out, a.external limit records ≠ .ok out) ∧
      ∃ r ∈ records, ∀ out,
        output a row values records ((values r).map Obj.value) ≠ .ok out) := by
  have haccepted : ExternalHash.Accepted ⟨limit, 8, 4, a.blake2b⟩ :=
    ⟨hlimit, (by decide : (2 : Int) ≤ 8), (by decide : (0 : Int) ≤ 4)⟩
  have hopened : ExternalHash.Opened ⟨limit, 8, 4, a.blake2b⟩ "group" "group" :=
    ExternalHash.opened_of_depth (by decide : 8 ≤ 10) (by decide : 4 < 10)
      (by decide +kernel : "group".utf8ByteSize + 4 * ("group".utf8ByteSize + 23) + 24 ≤ 255)
  have hresult : Groups eq (fun r => unwrap (values r)) a.aggregateStep records
      (externalHashGroupBy ⟨limit, 8, 4, a.blake2b⟩ records a.groupKey a.aggregateStep) :=
    ExternalHash.external_hash_group_by_groups haccepted hopened h.keyed
  rcases hresult with ⟨groups, hgroups, hgrouped⟩ | ⟨e, herror, r, hr, hfold⟩
  · left
    have hkeys := ExternalHash.external_hash_group_by_keys haccepted hopened h.keyed hgroups
    refine ⟨groups.map (fun g => AggregateOperator.spread g.1), ?_, ?_, ?_, ?_⟩
    · refine pairwise_map.mpr (List.Pairwise.imp_of_mem ?_ hgrouped.distinct)
      intro g g' hg hg' hdistinct
      obtain ⟨r, hr, hkey⟩ := hkeys g hg
      obtain ⟨r', hr', hkey'⟩ := hkeys g' hg'
      rw [← hkey, ← hkey'] at hdistinct ⊢
      rw [h.spread hr, h.spread hr', h.same hr hr']
      exact hdistinct
    · intro key hkey
      obtain ⟨g, hg, rfl⟩ := mem_map.mp hkey
      obtain ⟨r, hr, hkey⟩ := hkeys g hg
      exact ⟨r, hr, by rw [← hkey, h.spread hr]⟩
    · intro r hr
      obtain ⟨g, hg, hsame⟩ := hgrouped.complete r hr
      obtain ⟨r', hr', hkey⟩ := hkeys g hg
      rw [← hkey] at hsame
      refine mem_map.mpr ⟨g, hg, ?_⟩
      rw [← hkey, h.spread hr', h.eq_of_same hr hr' hsame]
    · rw [AggregateOperator.external, hgroups, ok_bind, mapM_map]
      refine SameResult.mapM (fun g hg => ?_)
      obtain ⟨r, hr, hkey⟩ := hkeys g hg
      have hfold := hgrouped.fold g hg
      have hgroup := h.fold_group haggregates hr
      rw [← hkey] at hfold
      rw [hfold, ok_bind, Option.getD_some, hkey, ← h.spread hr, hkey] at hgroup
      exact hgroup
  · right
    refine ⟨?_, r, hr, ?_⟩
    · intro out hout
      rw [AggregateOperator.external, herror] at hout
      cases hout
    · intro out hout
      have hgroup := (h.fold_group haggregates hr out).mpr hout
      rw [hfold] at hgroup
      cases hgroup

theorem keys_perm {keys keys' : List (List Obj)}
    (hdistinct : keys.Pairwise (fun key key' => eqKeys key key' = false))
    (hdistinct' : keys'.Pairwise (fun key key' => eqKeys key key' = false))
    (hsound : ∀ key, key ∈ keys → ∃ r ∈ records, (values r).map Obj.value = key)
    (hsound' : ∀ key, key ∈ keys' → ∃ r ∈ records, (values r).map Obj.value = key)
    (hcomplete : ∀ r ∈ records, (values r).map Obj.value ∈ keys)
    (hcomplete' : ∀ r ∈ records, (values r).map Obj.value ∈ keys') : keys.Perm keys' := by
  have hnodup : ∀ {keys : List (List Obj)},
      keys.Pairwise (fun key key' => eqKeys key key' = false) →
        (∀ key, key ∈ keys → ∃ r ∈ records, (values r).map Obj.value = key) → keys.Nodup := by
    intro keys hpairwise hsound
    refine hpairwise.imp_of_mem (fun hkey _ hfalse heq => ?_)
    obtain ⟨r, hr, rfl⟩ := hsound _ hkey
    rw [← heq, h.eq_self r hr] at hfalse
    cases hfalse
  refine (perm_ext_iff_of_nodup (hnodup hdistinct hsound) (hnodup hdistinct' hsound')).mpr ?_
  intro key
  constructor
  · intro hkey
    obtain ⟨r, hr, rfl⟩ := hsound key hkey
    exact hcomplete' r hr
  · intro hkey
    obtain ⟨r, hr, rfl⟩ := hsound' key hkey
    exact hcomplete r hr

/-- Both paths give the same rows, or both raise. -/
theorem sameRows (hgroupBy : a.groupBy ≠ []) {limit : Int} (hlimit : 0 < limit)
    (haggregates : ∀ expression ∈ a.aggregates,
      expression.distinct = false ∧ HasArgument a expression) :
    SameRows (a.external limit records) (a.inMemory records) := by
  obtain ⟨keys, hdistinct, hsound, hcomplete, hmemory⟩ := h.inMemory hgroupBy
  rw [hmemory]
  rcases h.external hlimit haggregates with
    ⟨keys', hdistinct', hsound', hcomplete', hexternal⟩ | ⟨herror, r, hr, houtput⟩
  · exact SameRows.of_result hexternal (SameRows.of_perm
      (h.keys_perm hdistinct' hdistinct hsound' hsound hcomplete' hcomplete))
  · refine SameRows.of_errors herror (fun out hout => ?_)
    obtain ⟨value, hvalue⟩ := mapM_returns hout _ (hcomplete r hr)
    exact houtput value hvalue

end Prepared

/-! ## Keys that can be encoded -/

/-- The literal is no tuple, or a point. -/
def Scalar (expr : Expr) : Prop :=
  ∀ items, expr = .Literal (.tuple items) → ∃ x y, items = [.float x, .float y]

/-- Where the keys of the record can be evaluated, they can be encoded. -/
def Encodable (a : AggregateOperator) (record : Record) : Prop :=
  ∀ row objs, a.decodeRow record = .ok row → a.keys row = .ok objs →
    ∃ key bytes, a.groupKey record = .ok key ∧ encodeKey key = .ok bytes

theorem point_of_evaluate {expr : Expr} (hscalar : Scalar expr) {row : Row}
    (htyped : RowTyped row a.inputSchema) {items : List Value}
    (h : evaluate a.env row a.inputSchema expr = .ok (.value (.tuple items))) :
    ∃ x y, items = [.float x, .float y] := by
  rcases evaluate_cases _ h with ⟨value, rfl, heq⟩ | ⟨name, value, rfl, hvalue, heq⟩ | hbuilt
  · cases heq
    exact hscalar items rfl
  · obtain ⟨_, _, _, _, htype⟩ := column_value_typed htyped hvalue
    cases heq
    generalize ColumnDef.typeName _ = t at htype
    cases htype with
    | point x y => exact ⟨x, y, rfl⟩
  · cases expr with
    | PointExpr x y =>
        obtain ⟨x, y, heq⟩ := hbuilt
        cases heq
        exact ⟨x, y, rfl⟩
    | DistanceExpr left right metric =>
        rcases hbuilt with heq | ⟨_, heq⟩
        · cases heq
        · cases heq
    | _ =>
        obtain ⟨_, heq⟩ := hbuilt
        cases heq

theorem encode_items_mem {encoded : List Bytes} (h : KeyCodec.encodeItems vs = .ok encoded) :
    ∀ v ∈ vs, ∃ bytes, encodeKey v = .ok bytes := by
  induction vs generalizing encoded with
  | nil =>
      intro v hv
      cases hv
  | cons v vs ih =>
      rw [KeyCodec.encodeItems] at h
      obtain ⟨item, hitem, h⟩ := bind_eq_ok.mp h
      obtain ⟨rest, hrest, h⟩ := bind_eq_ok.mp h
      exact forall_mem_cons.mpr ⟨⟨item, hitem⟩, ih hrest⟩

theorem plain_of_encode {bytes : Bytes} (h : encodeKey (unwrap vs) = .ok bytes)
    (hpoints : ∀ items, Value.tuple items ∈ vs → ∃ x y, items = [.float x, .float y]) :
    ∀ items, Value.tuple items ∉ vs := by
  intro items hmem
  obtain ⟨x, y, rfl⟩ := hpoints items hmem
  have hpoint : ∀ bytes, encodeKey (.tuple [.float x, .float y]) ≠ .ok bytes := by
    intro bytes hencode
    rw [encodeKey] at hencode
    obtain ⟨encoded, hitems, _⟩ := bind_eq_ok.mp hencode
    obtain ⟨bytes', hfloat⟩ := encode_items_mem hitems (.float x) (by simp)
    cases hfloat
  have hitems : ∀ {bytes : Bytes}, encodeKey (.tuple vs) = .ok bytes → False := by
    intro bytes hencode
    rw [encodeKey] at hencode
    obtain ⟨encoded, hitems, _⟩ := bind_eq_ok.mp hencode
    obtain ⟨bytes', hbytes'⟩ := encode_items_mem hitems _ hmem
    exact hpoint bytes' hbytes'
  match vs, h with
  | [], h => exact hitems h
  | [v], h =>
      rw [mem_singleton] at hmem
      rw [unwrap, ← hmem] at h
      exact hpoint bytes h
  | _ :: _ :: _, h => exact hitems h

theorem external_returns {limit : Int} {out : List (List Obj)}
    (h : a.external limit records = .ok out) :
    0 < limit ∧ ∀ r ∈ records, Sized r ∧
      ∃ key bytes, a.groupKey r = .ok key ∧ encodeKey key = .ok bytes := by
  obtain ⟨groups, hgroups, _⟩ := bind_eq_ok.mp h
  obtain ⟨_, hvalid, hgroups⟩ := bind_eq_ok.mp hgroups
  obtain ⟨files, hfiles, _⟩ := bind_eq_ok.mp hgroups
  refine ⟨?_, ExternalHash.partition_records_returns hfiles⟩
  rw [ExternalHash.validateParameters] at hvalid
  split at hvalid
  · cases hvalid
  · next hlimit => exact not_le.mp hlimit

theorem group_key_returns {record : Record} {key : Value} (h : a.groupKey record = .ok key) :
    ∃ row vs, a.decodeRow record = .ok row ∧ a.keys row = .ok (vs.map Obj.value) ∧
      key = unwrap vs := by
  obtain ⟨row, hrow, h⟩ := bind_eq_ok.mp h
  obtain ⟨objs, hobjs, h⟩ := bind_eq_ok.mp h
  obtain ⟨vs, hvs, h⟩ := bind_eq_ok.mp h
  cases h
  refine ⟨row, vs, hrow, ?_, rfl⟩
  rw [hobjs, mapM_key_value hvs]

theorem prepared (hscalar : ∀ expr ∈ a.groupBy, Scalar expr)
    (hrecords : ∀ r ∈ records, Sized r ∧ Encodable a r)
    (hreturns : ∀ r ∈ records, ∃ row key, a.decodeRow r = .ok row ∧ a.keys row = .ok key) :
    ∃ row values, Prepared a row values records := by
  have hall : ∀ r, ∃ row vs, r ∈ records → a.decodeRow r = .ok row ∧
      a.keys row = .ok (vs.map Obj.value) ∧
      (∃ bytes, encodeKey (unwrap vs) = .ok bytes) ∧ ∀ items, Value.tuple items ∉ vs := by
    intro r
    by_cases hr : r ∈ records
    · obtain ⟨row, objs, hrow, hobjs⟩ := hreturns r hr
      obtain ⟨key, bytes, hkey, hbytes⟩ := (hrecords r hr).2 row objs hrow hobjs
      obtain ⟨row', vs, hrow', hvs, rfl⟩ := group_key_returns hkey
      refine ⟨row', vs, fun _ => ⟨hrow', hvs, ⟨bytes, hbytes⟩, ?_⟩⟩
      refine plain_of_encode hbytes (fun items hitems => ?_)
      obtain ⟨expr, hexpr, hvalue⟩ := mem_mapM hvs (mem_map.mpr ⟨_, hitems, rfl⟩)
      exact point_of_evaluate (hscalar expr hexpr) (decode_row_typed hrow') hvalue
    · exact ⟨[], [], fun h => absurd h hr⟩
  choose row values hprepared using hall
  exact ⟨row, values, fun r hr => (hprepared r hr).1, fun r hr => (hprepared r hr).2.1,
    fun r hr => (hprepared r hr).2.2.1, fun r hr => (hprepared r hr).2.2.2,
    fun r hr => (hrecords r hr).1⟩

theorem external_sameRows (hargument : ∀ expression ∈ a.aggregates, HasArgument a expression)
    (hdistinct : ∀ expression ∈ a.aggregates, expression.distinct = false)
    (hgroupBy : a.groupBy ≠ []) (hscalar : ∀ expr ∈ a.groupBy, Scalar expr) {limit : Int}
    (hlimit : 0 < limit) (hrecords : ∀ r ∈ records, Sized r ∧ Encodable a r) :
    SameRows (a.external limit records) (a.inMemory records) := by
  by_cases hreturns : ∀ r ∈ records, ∃ row key, a.decodeRow r = .ok row ∧ a.keys row = .ok key
  · obtain ⟨row, values, hprepared⟩ := prepared hscalar hrecords hreturns
    exact hprepared.sameRows hgroupBy hlimit
      (fun expression hmem => ⟨hdistinct expression hmem, hargument expression hmem⟩)
  · refine SameRows.of_errors (fun out hout => hreturns ?_) (fun out hout => hreturns ?_)
    · intro r hr
      obtain ⟨key, _, hkey, _⟩ := ((external_returns hout).2 r hr).2
      obtain ⟨row, vs, hrow, hvs, _⟩ := group_key_returns hkey
      exact ⟨row, _, hrow, hvs⟩
    · obtain ⟨groups, hgroups, _⟩ := bind_eq_ok.mp hout
      exact group_rows_returns hgroups

/-- Aggregation with a memory limit.  Without GROUP BY keys, or with a DISTINCT aggregate, it
is done in memory.  Otherwise: if the limit is positive, the records have lengths of four
bytes and the group keys can be encoded, the operator emits the rows it emits without the
limit, in some order, or both raise; and if not, it raises. -/
theorem aggregate_with_memory_limit (a : AggregateOperator)
    (hargument : ∀ expression ∈ a.aggregates, HasArgument a expression)
    (hscalar : ∀ expr ∈ a.groupBy, Scalar expr) (limit : Int) (records : List Record) :
    (a.spill (some limit) = none →
        a.emits (some limit) records = a.emits none records) ∧
      (a.spill (some limit) = some limit →
        (0 < limit ∧ (∀ r ∈ records, Sized r ∧ Encodable a r) →
            SameRows (a.emits (some limit) records) (a.emits none records)) ∧
          (¬ (0 < limit ∧ ∀ r ∈ records, Sized r ∧ Encodable a r) →
            ∃ e, a.emits (some limit) records = .error e)) := by
  have hmemory : a.spill none = none := by
    rw [spill]
    split
    · rfl
    · rfl
  constructor
  · intro hspill
    simp only [emits, hspill, hmemory]
  · intro hspill
    have hcond : (a.groupBy.isEmpty ||
        a.aggregates.any (fun expression => expression.distinct)) = false := by
      rw [spill] at hspill
      split at hspill
      · cases hspill
      · next hcond => exact Bool.not_eq_true _ ▸ hcond
    rw [Bool.or_eq_false_iff, any_eq_false] at hcond
    obtain ⟨hgroupBy, hdistinct⟩ := hcond
    simp only [emits, hspill, hmemory]
    constructor
    · rintro ⟨hlimit, hrecords⟩
      refine SameRows.mapM ?_ a.encodeOutput
      refine external_sameRows hargument ?_ ?_ hscalar hlimit hrecords
      · exact fun expression hmem => Bool.not_eq_true _ ▸ hdistinct expression hmem
      · intro hnil
        rw [hnil] at hgroupBy
        cases hgroupBy
    · intro hrefused
      cases hexternal : a.external limit records with
      | error e => exact ⟨e, rfl⟩
      | ok out =>
          obtain ⟨hlimit, hrecords⟩ := external_returns hexternal
          exact absurd ⟨hlimit, fun r hr =>
            ⟨(hrecords r hr).1, fun _ _ _ _ => (hrecords r hr).2⟩⟩ hrefused

/-! ## Counting by a column -/

/-- The cell of a value that is no FLOAT and no POINT. -/
def datumOf : Obj → Except PyError Datum
  | .value .null => .ok .null
  | .value (.bool b) => .ok (.bool b)
  | .value (.int i) => .ok (.int i)
  | .value (.str s) => .ok (.str s)
  | value => .error (.TypeError s!"unexpected {value.typeName}")

/-- `SELECT a, COUNT(*) … GROUP BY a` over a table with one column of integers. -/
def countByColumn : AggregateOperator where
  env := {
    upper := fun name => String.ofList (name.toList.map Char.toUpper)
    distinct := id
    nearest := fun _ => 0
    distance := fun _ _ _ => .error "no metric"
    polygon := .ok
    pointInPolygon := fun _ _ => .error "no polygon" }
  groupBy := [.ColumnRef "a"]
  aggregates := [⟨"COUNT", none, false⟩]
  inputSchema := [⟨"a", .INT, none⟩]
  encodeOutput := fun objs => do
    let row ← objs.mapM datumOf
    Record.encodeRow row [⟨"a", .INT, none⟩, ⟨"count_1", .INT, none⟩]
  blake2b := id

theorem count_by_column_arguments :
    ∀ expression ∈ countByColumn.aggregates, HasArgument countByColumn expression := by
  intro expression hmem
  obtain rfl := mem_singleton.mp hmem
  exact fun _ => by decide

theorem aggregate_with_memory_limit_two_rows :
    SameRows (countByColumn.emits (some 1) [[1, 7, 0, 0, 0], [1, 8, 0, 0, 0]])
      (countByColumn.emits none [[1, 7, 0, 0, 0], [1, 8, 0, 0, 0]]) := by
  have hscalar : ∀ expr ∈ countByColumn.groupBy, Scalar expr := by
    intro expr hmem items hliteral
    rw [mem_singleton.mp hmem] at hliteral
    cases hliteral
  refine ((aggregate_with_memory_limit countByColumn count_by_column_arguments hscalar 1
    [[1, 7, 0, 0, 0], [1, 8, 0, 0, 0]]).2 rfl).1 ⟨by decide, ?_⟩
  intro r hr
  simp only [mem_cons, not_mem_nil, or_false] at hr
  rcases hr with rfl | rfl
  · exact ⟨(by decide : 5 < 2 ^ 32), fun _ _ _ _ => ⟨.int 7, _, rfl, rfl⟩⟩
  · exact ⟨(by decide : 5 < 2 ^ 32), fun _ _ _ _ => ⟨.int 8, _, rfl, rfl⟩⟩

/-- A row whose group key is NULL is counted in memory, and raises with a memory limit. -/
theorem null_key_not_grouped :
    ¬ ∀ (a : AggregateOperator),
      (∀ expression ∈ a.aggregates, expression.distinct = false ∧ HasArgument a expression) →
      ∀ (limit : Int) (records : List Record), 0 < limit →
        SameRows (a.emits (some limit) records) (a.emits none records) := by
  intro hall
  have hsame := hall countByColumn (fun expression hmem =>
    ⟨by rw [mem_singleton.mp hmem], count_by_column_arguments expression hmem⟩)
    100 [[0]] (by decide)
  have hmemory : countByColumn.emits none [[0]] = .ok [[0, 1, 1, 0, 0, 0]] := rfl
  have hexternal : countByColumn.emits (some 100) [[0]] =
      .error (.TypeError "unsupported index key type: NoneType") := rfl
  rw [hmemory, hexternal] at hsame
  rcases hsame with ⟨out, out', herror, _, _⟩ | ⟨e, e', _, herror⟩
  · cases herror
  · cases herror

end SoupDB.AggregateOperator
