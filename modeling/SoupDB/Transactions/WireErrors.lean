import SoupDB.Transactions.RequestCodec
import Mathlib.Data.Nat.Digits.Defs

/-!
# SoupDB: what the wire raises

The handler of a connection catches the engine's own family of exceptions.  The decoders of
requests raise one of that family, for an unknown tag, and the encoder of results one, for a
cell that is no value of the engine; a field that is cut, bytes that are no UTF-8 and a number
that has no place in its field raise exceptions of the host language, which are not caught.

Main facts: `passes_decode_execute` and `passes_encode_resultset`, by the layout of the payload
and by the cells of the result.
-/

namespace SoupDB

namespace PyError

/-- `str(exc)`. -/
def message : PyError → String
  | .ValueError message | .TypeError message | .IndexError message | .RuntimeError message
  | .AttributeError message | .StructError message | .OverflowError message | .OSError message
  | .UnsupportedOperation message | .TransactionError message | .LockNotGranted message
  | .DeadlockDetected message | .ProtocolError message | .QueryParseError message
  | .QueryExecutionError message | .ContractViolation message | .RecordNotFound message => message
  | .KeyError key => reprStr key
  | .UnicodeDecodeError => "invalid UTF-8"
  | .AssertionError | .NonTermination => ""

/-- `isinstance(exc, SoupDBError)`. -/
def isSoupDBError : PyError → Bool
  | .UnsupportedOperation _ | .ContractViolation _ | .RecordNotFound _ | .TransactionError _
  | .LockNotGranted _ | .DeadlockDetected _ | .ProtocolError _ | .QueryParseError _
  | .QueryExecutionError _ => true
  | _ => false

end PyError

namespace Protocol

open KeyCodec (encodeUtf8 decodeUtf8 length_encodeUtf8_le)

/-! ## Caught, and not -/

/-- The handler catches the exception, and its text fits an error frame. -/
def Caught (e : PyError) : Prop := e.isSoupDBError = true ∧ TextFits e.message

/-- The computation returns, with what then can be handled, or raises what is caught. -/
def Passes {α : Type} (x : Except PyError α) (then_ : α → Prop) : Prop :=
  match x with
  | .ok a => then_ a
  | .error e => Caught e

/-- What is raised, if anything, is none of the engine's exceptions. -/
def RaisesHost {α : Type} (x : Except PyError α) : Prop :=
  ∀ e, x = .error e → e.isSoupDBError = false

section Caught

variable {α β : Type} {x : Except PyError α} {f : α → Except PyError β} {P Q : α → Prop}

theorem Passes.congr (h : ∀ a, P a ↔ Q a) : Passes x P ↔ Passes x Q := by
  cases x with
  | ok a => exact h a
  | error e => exact Iff.rfl

theorem passes_bind {P : β → Prop} :
    Passes (x >>= f) P ↔ Passes x (fun a => Passes (f a) P) := by
  cases x with
  | ok a => exact Iff.rfl
  | error e => exact Iff.rfl

theorem RaisesHost.ok (a : α) : RaisesHost (.ok a : Except PyError α) := by
  intro e h
  cases h

theorem RaisesHost.error {e : PyError} (h : e.isSoupDBError = false) :
    RaisesHost (.error e : Except PyError α) := by
  intro e' h'
  cases h'
  exact h

theorem RaisesHost.bind (hx : RaisesHost x) (hf : ∀ a, x = .ok a → RaisesHost (f a)) :
    RaisesHost (x >>= f) := by
  intro e h
  rcases bind_eq_error.mp h with h | ⟨a, ha, h⟩
  · exact hx e h
  · exact hf a ha e h

/-- Where no exception of the engine is raised, to pass is to return. -/
theorem RaisesHost.passes (h : RaisesHost x) : Passes x P ↔ ∃ a, x = .ok a ∧ P a := by
  cases x with
  | ok a => simp [Passes]
  | error e =>
      have hhost := h e rfl
      simp [Passes, Caught, hhost]

theorem raises_host_concatM {f : α → Except PyError (List β)} {xs : List α}
    (h : ∀ a ∈ xs, RaisesHost (f a)) : RaisesHost (concatM f xs) := by
  intro e he
  obtain ⟨a, ha, he⟩ := concatM_error he
  exact h a ha e he

theorem text_byte_fits (label : String) (hlabel : label.length ≤ 20) (byte : UInt8) :
    TextFits (label ++ toString byte.toNat) := by
  have hdigits : (toString byte.toNat).length ≤ 3 :=
    Nat.repr_length byte.toNat 3 (by decide) (lt_trans byte.toNat_lt (by decide))
  have hbytes := length_encodeUtf8_le (label ++ toString byte.toNat)
  rw [String.length_append] at hbytes
  unfold TextFits
  omega

end Caught

/-! ## The decoders of requests -/

/-- A text at an offset: the length field is inside the payload, and the bytes that it announces,
or those that are left of them, are UTF-8. -/
def ReadsText (size : Nat) (payload : Bytes) (offset : Nat) (s : String) : Prop :=
  offset + size ≤ payload.length ∧
    decodeUtf8 (slice payload (offset + size) (field size payload offset)) = some s

def TAGS : List UInt8 :=
  [TAG_NULL, TAG_INT, TAG_FLOAT, TAG_TEXT, TAG_BOOL, TAG_POINT, TAG_BYTES]

/-- At the offset stands a byte that is no tag. -/
def UnknownTag (payload : Bytes) (offset : Nat) : Prop :=
  ∃ tag, payload[offset]? = some tag ∧ tag ∉ TAGS

/-- The parameters of a request, each behind the one before; none where an unknown tag ends
them. -/
inductive ReadsParams (payload : Bytes) : Nat → Nat → Option (List Datum) → Prop
  | nil (offset : Nat) : ReadsParams payload 0 offset (some [])
  | cons {count offset next : Nat} {value : Datum} {params : Option (List Datum)} :
      ReadsValue payload offset value next → ReadsParams payload count next params →
        ReadsParams payload (count + 1) offset (params.map (value :: ·))
  | unknown {count offset : Nat} : UnknownTag payload offset →
      ReadsParams payload (count + 1) offset none

section Decoders

variable {payload : Bytes} {offset size count : Nat}

theorem raises_host_unpack_from : RaisesHost (unpackFrom size payload offset) := by
  rw [unpackFrom]
  split
  · exact .ok _
  · exact .error rfl

theorem raises_host_unpackNat : RaisesHost (unpackNat size payload offset) :=
  raises_host_unpack_from.bind (fun _ _ => .ok _)

theorem raises_host_utf8Text (raw : Bytes) : RaisesHost (utf8Text raw) := by
  rw [utf8Text]
  split
  · exact .ok _
  · exact .error rfl

theorem raises_host_decode_text : RaisesHost (decodeText size payload offset) := by
  refine raises_host_unpackNat.bind (fun _ _ => ?_)
  exact (raises_host_utf8Text _).bind (fun _ _ => .ok _)

theorem passes_decode_text {P : String × Nat → Prop} : Passes (decodeText size payload offset) P ↔
    ∃ s, ReadsText size payload offset s ∧ P (s, textEnd size payload offset) := by
  rw [raises_host_decode_text.passes]
  simp only [Prod.exists, decode_text_eq_ok, ReadsText]
  constructor
  · rintro ⟨s, _, ⟨hle, htext, rfl⟩, hP⟩
    exact ⟨s, ⟨hle, htext⟩, hP⟩
  · rintro ⟨s, ⟨hle, htext⟩, hP⟩
    exact ⟨s, _, ⟨hle, htext, rfl⟩, hP⟩

theorem passes_decode_query {P : String → Prop} : Passes (decodeQuery payload) P ↔
    ∃ sql, ReadsText 4 payload 0 sql ∧ P sql := by
  have hhost : RaisesHost (decodeQuery payload) :=
    raises_host_unpackNat.bind (fun _ _ => raises_host_utf8Text _)
  rw [hhost.passes]
  simp only [decode_query_eq_ok, decode_text_eq_ok, and_true, ReadsText]

theorem passes_decode_prepare {P : String × String → Prop} : Passes (decodePrepare payload) P ↔
    ∃ name sql, ReadsText 2 payload 0 name ∧ ReadsText 4 payload (textEnd 2 payload 0) sql ∧
      P (name, sql) := by
  have hhost : RaisesHost (decodePrepare payload) := by
    refine raises_host_decode_text.bind (fun _ _ => raises_host_unpackNat.bind (fun _ _ => ?_))
    exact (raises_host_utf8Text _).bind (fun _ _ => .ok _)
  rw [hhost.passes]
  simp only [Prod.exists, decode_prepare_eq_ok, decode_text_eq_ok, and_true, ReadsText, and_assoc]

theorem passes_decode_deallocate {P : String → Prop} : Passes (decodeDeallocate payload) P ↔
    ∃ name, ReadsText 2 payload 0 name ∧ P name := by
  rw [decodeDeallocate, decodeName, passes_bind, passes_decode_text]
  exact Iff.rfl

/-- A value is decoded, or its tag is not known: this exception is the engine's. -/
theorem passes_decode_value {P : Datum × Nat → Prop} : Passes (decodeValue payload offset) P ↔
    (∃ value next, ReadsValue payload offset value next ∧ P (value, next)) ∨
      UnknownTag payload offset := by
  cases htag : payload[offset]? with
  | none =>
      have hend : ¬ ∃ tag, unpackNat 1 payload offset = .ok tag := by
        simp [unpackNat_tag, htag]
      have hnone : ¬ ∃ read, decodeValue payload offset = .ok read := by
        rintro ⟨read, hread⟩
        obtain ⟨tag, htag, _⟩ := bind_eq_ok.mp hread
        exact hend ⟨tag, htag⟩
      have hhost : RaisesHost (decodeValue payload offset) :=
        raises_host_unpackNat.bind (fun tag htag => absurd ⟨tag, htag⟩ hend)
      rw [hhost.passes]
      refine iff_of_false ?_ ?_
      · rintro ⟨read, hread, _⟩
        exact hnone ⟨read, hread⟩
      · rintro (⟨value, next, hvalue, _⟩ | ⟨tag, hsome, _⟩)
        · exact hnone ⟨_, decode_value_eq_ok.mpr hvalue⟩
        · rw [htag] at hsome
          cases hsome
  | some tag =>
      have hread : unpackNat 1 payload offset = .ok tag.toNat := unpackNat_tag.mpr ⟨tag, htag, rfl⟩
      by_cases hknown : tag ∈ TAGS
      · have hhost : RaisesHost (decodeValue payload offset) := known hread hknown
        have hno : ¬ UnknownTag payload offset := by
          rintro ⟨other, hother, hunknown⟩
          rw [htag] at hother
          cases hother
          exact hunknown hknown
        rw [hhost.passes, or_iff_left hno]
        simp only [Prod.exists, decode_value_eq_ok]
      · refine iff_of_true ?_ (.inr ⟨tag, htag, hknown⟩)
        rw [unknown hread hknown]
        exact ⟨rfl, text_byte_fits "unknown value tag " (by decide) tag⟩
where
  known {tag : UInt8} (hread : unpackNat 1 payload offset = .ok tag.toNat) (hknown : tag ∈ TAGS) :
      RaisesHost (decodeValue payload offset) := by
    rw [decodeValue, hread]
    simp only [TAGS, List.mem_cons, List.not_mem_nil, or_false] at hknown
    rcases hknown with rfl | rfl | rfl | rfl | rfl | rfl | rfl
    · exact .ok _
    · exact raises_host_unpack_from.bind (fun _ _ => .ok _)
    · exact raises_host_unpack_from.bind (fun _ _ => .ok _)
    · exact raises_host_decode_text.bind (fun _ _ => .ok _)
    · rw [ok_bind, if_neg (by decide), if_neg (by decide), if_neg (by decide), if_neg (by decide),
        if_pos rfl]
      split
      · exact .ok _
      · exact .error rfl
    · exact raises_host_unpack_from.bind (fun _ _ => .ok _)
    · exact raises_host_unpackNat.bind (fun _ _ => .ok _)
  unknown {tag : UInt8} (hread : unpackNat 1 payload offset = .ok tag.toNat)
      (hunknown : tag ∉ TAGS) : decodeValue payload offset =
        .error (.ProtocolError s!"unknown value tag {tag.toNat}") := by
    simp only [TAGS, List.mem_cons, List.not_mem_nil, or_false, not_or,
      ← UInt8.toNat_inj] at hunknown
    obtain ⟨h0, h1, h2, h3, h4, h5, h6⟩ := hunknown
    rw [decodeValue, hread, ok_bind, if_neg h0, if_neg h1, if_neg h2, if_neg h3, if_neg h4,
      if_neg h5, if_neg h6]

theorem passes_times {P : List Datum → Prop} :
    Passes (Decoder.times decodeValue count payload offset) (fun read => P read.1) ↔
      ∃ params, ReadsParams payload count offset params ∧ ∀ values, params = some values →
        P values := by
  induction count generalizing offset P with
  | zero =>
      constructor
      · intro h
        exact ⟨some [], .nil offset, fun values hvalues => by cases hvalues; exact h⟩
      · rintro ⟨_, hparams, hP⟩
        cases hparams
        exact hP [] rfl
  | succ count ih =>
      rw [Decoder.times, passes_bind, passes_decode_value]
      have hrest : ∀ value next, Passes (Decoder.times decodeValue count payload next >>=
            fun read => .ok (value :: read.1, read.2)) (fun read => P read.1) ↔
          ∃ params, ReadsParams payload count next params ∧ ∀ values, params = some values →
            P (value :: values) := by
        intro value next
        rw [passes_bind]
        exact ih (P := fun values => P (value :: values))
      constructor
      · rintro (⟨value, next, hvalue, h⟩ | hunknown)
        · obtain ⟨params, hparams, hP⟩ := (hrest value next).mp h
          refine ⟨_, .cons hvalue hparams, ?_⟩
          intro _ hmap
          obtain ⟨values, hvalues, rfl⟩ := Option.map_eq_some_iff.mp hmap
          exact hP values hvalues
        · exact ⟨none, .unknown hunknown, fun values hvalues => by cases hvalues⟩
      · rintro ⟨_, hparams, hP⟩
        cases hparams with
        | @cons _ _ next value params hvalue hparams =>
            refine .inl ⟨value, next, hvalue, (hrest value next).mpr ⟨params, hparams, ?_⟩⟩
            rintro values rfl
            exact hP _ rfl
        | unknown hunknown => exact .inr hunknown

theorem passes_decode_execute {P : String × List Datum → Prop} :
    Passes (decodeExecute payload) P ↔
      ∃ name params, ReadsText 2 payload 0 name ∧ paramsStart payload ≤ payload.length ∧
        ReadsParams payload (paramsCount payload) (paramsStart payload) params ∧
          ∀ values, params = some values → P (name, values) := by
  rw [decodeExecute, decodeName, passes_bind, passes_decode_text]
  simp only [passes_bind, raises_host_unpackNat.passes, unpackNat_eq_ok]
  have hparams : ∀ name, Passes (Decoder.times decodeValue (paramsCount payload) payload
      (paramsStart payload)) (fun read => P (name, read.1)) ↔ _ := fun name =>
    passes_times (P := fun values => P (name, values))
  constructor
  · rintro ⟨name, hname, _, ⟨hle, rfl⟩, h⟩
    obtain ⟨params, hread, hP⟩ := (hparams name).mp h
    exact ⟨name, params, hname, hle, hread, hP⟩
  · rintro ⟨name, params, hname, hle, hread, hP⟩
    exact ⟨name, hname, _, ⟨hle, rfl⟩, (hparams name).mpr ⟨params, hread, hP⟩⟩

end Decoders

/-! ## The encoder of results -/

/-- The value has a place in its field. -/
def ValueFits : Datum → Prop
  | .int i => -2 ^ 31 ≤ i ∧ i < 2 ^ 31
  | .str s => TextFits s
  | .bytes data => data.length < 2 ^ 32
  | .tuple items => ∃ x y, (Datum.tuple items).point? = some (.ok x, .ok y)
  | _ => True

/-- The bytes of a value with its tag. -/
def valueSize : Datum → Nat
  | .null => 1
  | .bool _ => 2
  | .int _ => 5
  | .float _ => 9
  | .str s => 3 + (encodeUtf8 s).length
  | .bytes data => 5 + data.length
  | .tuple _ => 17

/-- A tuple that is no point. -/
def Unencodable (value : Datum) : Prop :=
  ∃ items, value = .tuple items ∧ value.point? = none

/-- The first of the cells that does not fit is no value of the engine, and the text of the error
fits. -/
inductive Refused (repr : Datum → String) : List Datum → Prop
  | here {value : Datum} {cells : List Datum} : Unencodable value →
      TextFits s!"cannot encode value {repr value}" → Refused repr (value :: cells)
  | later {value : Datum} {cells : List Datum} : ValueFits value → Refused repr cells →
      Refused repr (value :: cells)

/-- The bytes of a column in the header of a version. -/
def columnSize (version : Nat) (column : ColumnDef) : Nat :=
  if version = VERSION_V1 then 5 + (encodeUtf8 column.name).length
  else 9 + (encodeUtf8 column.name).length + (encodeUtf8 column.typeName.value).length

def resultSize (version : Nat) (result : ResultSet) : Nat :=
  6 + (result.columns.map (columnSize version)).sum + (result.rows.flatten.map valueSize).sum

/-- The counts and the columns of a result have a place in their fields. -/
structure HeaderFits (result : ResultSet) : Prop where
  columns : result.columns.length < 2 ^ 16
  header : ∀ column ∈ result.columns, ColumnFits column
  rows : result.rows.length < 2 ^ 32

section Encoder

variable {repr : Datum → String} {cells : List Datum} {size : Nat}

theorem raises_host_pack {n : Int} : RaisesHost (pack size n) := by
  by_cases h : 0 ≤ n ∧ n.toNat < 256 ^ size
  · obtain ⟨field, hfield⟩ := pack_returns.mpr h
    rw [hfield]
    exact .ok _
  · rw [pack_error h]
    exact .error rfl

theorem raises_host_encode_text {s : String} : RaisesHost (encodeText size s) :=
  raises_host_pack.bind (fun _ _ => .ok _)

variable {bytes : Bytes} {Q : Nat → Prop}

theorem length_encode_text {s : String} (h : encodeText size s = .ok bytes) :
    bytes.length = size + (encodeUtf8 s).length := by
  obtain ⟨length, hlength, rfl⟩ := encode_text_eq_ok.mp h
  rw [List.length_append, length_pack hlength]

theorem raises_host_coordinate {value : Datum} {x : Except PyError UInt64}
    (h : value.coordinate? = some x) : RaisesHost x := by
  cases value with
  | int i =>
      cases h
      rw [floatOfInt]
      dsimp only
      split_ifs
      all_goals first
        | exact .ok _
        | exact .error rfl
  | float bits =>
      cases h
      exact .ok _
  | null => cases h
  | bool b => cases h
  | str s => cases h
  | bytes data => cases h
  | tuple items => cases h

theorem raises_host_point {items : List Datum} {x y : Except PyError UInt64}
    (h : (Datum.tuple items).point? = some (x, y)) : RaisesHost x ∧ RaisesHost y := by
  unfold Datum.point? at h
  split at h
  · split at h
    · next hx hy =>
        cases h
        exact ⟨raises_host_coordinate hx, raises_host_coordinate hy⟩
    · cases h
  · cases h

theorem passes_encode_value {value : Datum} :
    Passes (encodeValue repr value) (fun bytes => Q bytes.length) ↔
      (ValueFits value ∧ Q (valueSize value)) ∨
        (Unencodable value ∧ TextFits s!"cannot encode value {repr value}") := by
  have hvalue : ∀ {v : Datum}, (∀ items, v ≠ .tuple items) → ¬ (Unencodable v ∧
      TextFits s!"cannot encode value {repr v}") :=
    fun hv ⟨⟨items, hitems, _⟩, _⟩ => hv items hitems
  cases value with
  | null =>
      rw [or_iff_left (hvalue (by simp))]
      exact ⟨fun h => ⟨trivial, h⟩, fun h => h.2⟩
  | bool b =>
      rw [or_iff_left (hvalue (by simp))]
      exact ⟨fun h => ⟨trivial, h⟩, fun h => h.2⟩
  | float bits =>
      rw [or_iff_left (hvalue (by simp))]
      have hlength : (TAG_FLOAT :: packDouble bits).length = 9 := by
        rw [List.length_cons, length_packDouble]
      simp only [encodeValue, Passes, hlength, ValueFits, valueSize, true_and]
  | int i =>
      rw [or_iff_left (hvalue (by simp)), encodeValue, packInt, Pack.packI]
      simp only [ValueFits, valueSize]
      have hrange : (-((256 ^ 4 / 2 : Nat) : Int) ≤ i ∧ i < ((256 ^ 4 / 2 : Nat) : Int)) ↔
          (-2 ^ 31 ≤ i ∧ i < 2 ^ 31) := by
        constructor
        · rintro ⟨hle, hlt⟩
          exact ⟨by omega, by omega⟩
        · rintro ⟨hle, hlt⟩
          exact ⟨by omega, by omega⟩
      by_cases hfits : -2 ^ 31 ≤ i ∧ i < 2 ^ 31
      · rw [if_pos (hrange.mpr hfits)]
        simp only [ok_bind, Passes, List.length_cons, List.length_reverse, Pack.length_packLE,
          and_iff_right hfits]
      · rw [if_neg (fun h => hfits (hrange.mp h))]
        refine iff_of_false ?_ (fun h => hfits h.1)
        rintro ⟨hcaught, _⟩
        cases hcaught
  | str s =>
      rw [or_iff_left (hvalue (by simp)), encodeValue, passes_bind, raises_host_encode_text.passes]
      simp only [Passes, ValueFits, valueSize, ← encode_text_returns]
      constructor
      · rintro ⟨text, htext, h⟩
        rw [List.length_cons, length_encode_text htext] at h
        exact ⟨⟨text, htext⟩, by rwa [show 3 + (encodeUtf8 s).length =
          2 + (encodeUtf8 s).length + 1 by omega]⟩
      · rintro ⟨⟨text, htext⟩, h⟩
        refine ⟨text, htext, ?_⟩
        rw [List.length_cons, length_encode_text htext]
        rwa [show 3 + (encodeUtf8 s).length = 2 + (encodeUtf8 s).length + 1 by omega] at h
  | bytes data =>
      have hreturns := @pack_returns 4 data.length
      rw [Int.toNat_natCast, and_iff_right (Int.natCast_nonneg _)] at hreturns
      have hsize : ∀ length, pack 4 (data.length : Int) = .ok length →
          (TAG_BYTES :: (length ++ data)).length = 5 + data.length := by
        intro length hlength
        rw [List.length_cons, List.length_append, length_pack hlength]
        omega
      rw [or_iff_left (hvalue (by simp)), encodeValue, passes_bind, raises_host_pack.passes]
      simp only [Passes, ValueFits, valueSize]
      constructor
      · rintro ⟨length, hlength, h⟩
        rw [hsize length hlength] at h
        exact ⟨hreturns.mp ⟨length, hlength⟩, h⟩
      · rintro ⟨hfits, h⟩
        obtain ⟨length, hlength⟩ := hreturns.mpr hfits
        refine ⟨length, hlength, ?_⟩
        rwa [hsize length hlength]
  | tuple items =>
      rw [encodeValue]
      cases hpoint : (Datum.tuple items).point? with
      | none =>
          have hnot : ¬ ValueFits (.tuple items) := by
            rintro ⟨x, y, h⟩
            rw [hpoint] at h
            cases h
          rw [or_iff_right (fun h => hnot h.1)]
          exact ⟨fun h => ⟨⟨items, rfl, hpoint⟩, h.2⟩, fun h => ⟨rfl, h.2⟩⟩
      | some point =>
          obtain ⟨x, y⟩ := point
          obtain ⟨hx, hy⟩ := raises_host_point hpoint
          have hpoint' : ¬ Unencodable (.tuple items) := by
            rintro ⟨_, _, hnone⟩
            rw [hpoint] at hnone
            cases hnone
          rw [or_iff_left (fun h => hpoint' h.1)]
          dsimp only
          rw [passes_bind, hx.passes]
          simp only [passes_bind, hy.passes, ValueFits, hpoint, Option.some.injEq, Prod.mk.injEq]
          have hlength : ∀ x y, (TAG_POINT :: (packDouble x ++ packDouble y)).length = 17 := by
            intro x y
            rw [List.length_cons, List.length_append, length_packDouble, length_packDouble]
          simp only [Passes, hlength, valueSize]
          constructor
          · rintro ⟨a, ha, b, hb, h⟩
            exact ⟨⟨a, b, ha, hb⟩, h⟩
          · rintro ⟨⟨a, b, ha, hb⟩, h⟩
            exact ⟨a, ha, b, hb, h⟩

theorem passes_encode_cells :
    Passes (concatM (encodeValue repr) cells) (fun bytes => Q bytes.length) ↔
      ((∀ value ∈ cells, ValueFits value) ∧ Q (cells.map valueSize).sum) ∨
        Refused repr cells := by
  induction cells generalizing Q with
  | nil =>
      have hnone : ¬ Refused repr [] := fun h => by cases h
      rw [or_iff_left hnone]
      simp [concatM, Passes]
  | cons value cells ih =>
      have hrest : ∀ first : Bytes, Passes (do
            let rest ← concatM (encodeValue repr) cells
            .ok (first ++ rest)) (fun bytes => Q bytes.length) ↔
          ((∀ value ∈ cells, ValueFits value) ∧ Q (first.length + (cells.map valueSize).sum)) ∨
            Refused repr cells := by
        intro first
        rw [passes_bind, ← ih (Q := fun n => Q (first.length + n))]
        exact Passes.congr (fun rest => by rw [Passes, List.length_append])
      rw [concatM, passes_bind, Passes.congr hrest, passes_encode_value (Q := fun n =>
        ((∀ value ∈ cells, ValueFits value) ∧ Q (n + (cells.map valueSize).sum)) ∨
          Refused repr cells), List.forall_mem_cons, List.map_cons, List.sum_cons]
      constructor
      · rintro (⟨hvalue, ⟨hcells, h⟩ | hrefused⟩ | ⟨hunencodable, htext⟩)
        · exact .inl ⟨⟨hvalue, hcells⟩, h⟩
        · exact .inr (.later hvalue hrefused)
        · exact .inr (.here hunencodable htext)
      · rintro (⟨⟨hvalue, hcells⟩, h⟩ | hrefused)
        · exact .inl ⟨hvalue, .inl ⟨hcells, h⟩⟩
        · cases hrefused with
          | here hunencodable htext => exact .inr ⟨hunencodable, htext⟩
          | later hvalue hrefused => exact .inl ⟨hvalue, .inr hrefused⟩

variable {encodeColumn : ColumnDef → Except PyError Bytes} {columnSize : ColumnDef → Nat}
  {result : ResultSet}

theorem passes_encode_result (hhost : ∀ column, RaisesHost (encodeColumn column))
    (hreturns : ∀ column, (∃ bytes, encodeColumn column = .ok bytes) ↔ ColumnFits column)
    (hsize : ∀ column bytes, encodeColumn column = .ok bytes → bytes.length = columnSize column) :
    Passes (encodeResult encodeColumn repr result) (fun bytes => Q bytes.length) ↔
      HeaderFits result ∧ (((∀ value ∈ result.rows.flatten, ValueFits value) ∧
        Q (6 + (result.columns.map columnSize).sum +
          (result.rows.flatten.map valueSize).sum)) ∨ Refused repr result.rows.flatten) := by
  have hcount : ∀ k n : Nat, (∃ field, pack k n = .ok field) ↔ n < 256 ^ k := by
    intro k n
    rw [pack_returns, Int.toNat_natCast, and_iff_right (Int.natCast_nonneg _)]
  have hheader : (∃ bytes, concatM encodeColumn result.columns = .ok bytes) ↔
      ∀ column ∈ result.columns, ColumnFits column := by
    simp only [concatM_returns, hreturns]
  have hlength : ∀ {columns : List ColumnDef} {bytes : Bytes},
      concatM encodeColumn columns = .ok bytes →
        bytes.length = (columns.map columnSize).sum := by
    intro columns
    induction columns with
    | nil =>
        intro bytes h
        cases h
        rfl
    | cons column columns ih =>
        intro bytes h
        obtain ⟨first, hfirst, h⟩ := bind_eq_ok.mp h
        obtain ⟨rest, hrest, h⟩ := bind_eq_ok.mp h
        cases h
        rw [List.length_append, hsize column first hfirst, ih hrest, List.map_cons, List.sum_cons]
  have hcells : ∀ columnCount columns rowCount : Bytes,
      pack 2 (result.columns.length : Int) = .ok columnCount →
      concatM encodeColumn result.columns = .ok columns →
      pack 4 (result.rows.length : Int) = .ok rowCount →
      (Passes (do
          let rows ← concatM (concatM (encodeValue repr)) result.rows
          .ok (columnCount ++ (columns ++ (rowCount ++ rows)))) (fun bytes => Q bytes.length) ↔
        ((∀ value ∈ result.rows.flatten, ValueFits value) ∧
          Q (6 + (result.columns.map columnSize).sum +
            (result.rows.flatten.map valueSize).sum)) ∨ Refused repr result.rows.flatten) := by
    intro columnCount columns rowCount hcolumnCount hcolumns hrowCount
    rw [passes_bind, concatM_concatM, ← passes_encode_cells (Q := fun n =>
      Q (6 + (result.columns.map columnSize).sum + n))]
    refine Passes.congr (fun rows => ?_)
    simp only [Passes, List.length_append, length_pack hcolumnCount, length_pack hrowCount,
      hlength hcolumns]
    rw [show 2 + ((result.columns.map columnSize).sum + (4 + rows.length)) =
      6 + (result.columns.map columnSize).sum + rows.length by omega]
  rw [encodeResult, passes_bind, raises_host_pack.passes]
  simp only [passes_bind (f := fun _ => _ >>= _), raises_host_pack.passes,
    (raises_host_concatM (fun column _ => hhost column)).passes]
  constructor
  · rintro ⟨columnCount, hcolumnCount, columns, hcolumns, rowCount, hrowCount, h⟩
    refine ⟨⟨(hcount 2 _).mp ⟨_, hcolumnCount⟩, hheader.mp ⟨_, hcolumns⟩,
      (hcount 4 _).mp ⟨_, hrowCount⟩⟩, ?_⟩
    exact (hcells _ _ _ hcolumnCount hcolumns hrowCount).mp h
  · rintro ⟨⟨hcolumns, hcolumn, hrows⟩, h⟩
    obtain ⟨columnCount, hcolumnCount⟩ := (hcount 2 _).mpr hcolumns
    obtain ⟨columns, hcolumns⟩ := hheader.mpr hcolumn
    obtain ⟨rowCount, hrowCount⟩ := (hcount 4 _).mpr hrows
    exact ⟨columnCount, hcolumnCount, columns, hcolumns, rowCount, hrowCount,
      (hcells _ _ _ hcolumnCount hcolumns hrowCount).mpr h⟩

theorem raises_host_encode_column_v1 (column : ColumnDef) :
    RaisesHost (encodeColumnV1 column) := by
  refine raises_host_encode_text.bind (fun _ _ => raises_host_pack.bind (fun _ _ => ?_))
  exact raises_host_pack.bind (fun _ _ => .ok _)

theorem raises_host_encode_column_v2 (column : ColumnDef) :
    RaisesHost (encodeColumnV2 column) := by
  refine raises_host_encode_text.bind (fun _ _ => raises_host_encode_text.bind (fun _ _ => ?_))
  refine raises_host_pack.bind (fun _ _ => raises_host_pack.bind (fun _ _ => ?_))
  exact raises_host_pack.bind (fun _ _ => .ok _)

theorem length_encode_column_v1 {column : ColumnDef} (h : encodeColumnV1 column = .ok bytes) :
    bytes.length = 5 + (encodeUtf8 column.name).length := by
  obtain ⟨name, hname, h⟩ := bind_eq_ok.mp h
  obtain ⟨code, hcode, h⟩ := bind_eq_ok.mp h
  obtain ⟨length, hlength, h⟩ := bind_eq_ok.mp h
  cases h
  simp only [List.length_append, length_encode_text hname, length_pack hcode, length_pack hlength]
  omega

theorem length_encode_column_v2 {column : ColumnDef} (h : encodeColumnV2 column = .ok bytes) :
    bytes.length = 9 + (encodeUtf8 column.name).length +
      (encodeUtf8 column.typeName.value).length := by
  obtain ⟨name, hname, h⟩ := bind_eq_ok.mp h
  obtain ⟨typeName, htype, h⟩ := bind_eq_ok.mp h
  obtain ⟨encoding, hencoding, h⟩ := bind_eq_ok.mp h
  obtain ⟨size, hsize, h⟩ := bind_eq_ok.mp h
  obtain ⟨length, hlength, h⟩ := bind_eq_ok.mp h
  cases h
  simp only [List.length_append, length_encode_text hname, length_encode_text htype,
    length_pack hencoding, length_pack hsize, length_pack hlength]
  omega

/-- A result is encoded in the bytes of its size where its header and its cells fit; where the
first cell that does not is no value, the exception is the engine's. -/
theorem passes_encode_resultset {version : Nat} (hversion : Supported version) :
    Passes (encodeResultset repr result version) (fun bytes => Q bytes.length) ↔
      HeaderFits result ∧ (((∀ value ∈ result.rows.flatten, ValueFits value) ∧
        Q (resultSize version result)) ∨ Refused repr result.rows.flatten) := by
  rcases hversion with rfl | rfl
  · exact passes_encode_result raises_host_encode_column_v1
      (fun _ => encode_column_v1_returns) (fun _ _ => length_encode_column_v1)
  · exact passes_encode_result raises_host_encode_column_v2
      (fun _ => encode_column_v2_returns) (fun _ _ => length_encode_column_v2)

end Encoder

end Protocol
end SoupDB
