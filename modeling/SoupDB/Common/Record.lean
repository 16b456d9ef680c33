import SoupDB.Common.Schema
import SoupDB.Lib.Codec

/-!
# SoupDB: the codec of records

A row is stored as the bytes of its columns, one after the other: a flag byte, which marks
NULL or carries a BOOL, and then the payload of the column's type.

Main facts: a row that fits its columns is read back (`decode_row_of_typed`), and what is
read is encoded by exactly the bytes it was read from (`encode_row_of_decode_row`), so that
no other byte string is accepted; `record_codec` puts them together.  The length of a text
has four bytes, which a longer text does not fit (`long_text_not_encoded`).
-/

namespace SoupDB.Record

open Pack List

open KeyCodec (encodeUtf8 decodeUtf8 decodeUtf8_encodeUtf8 encodeUtf8_of_decodeUtf8)

/-! ## Encoding -/

/-- The error for a value of another type. -/
def expects (column : ColumnDef) (expected : String) (value : Datum) : PyError :=
  .QueryExecutionError
    s!"column {reprStr column.name} expects {expected}, got {value.typeName}"

/-- A double, little-endian. -/
def packDouble (bits : UInt64) : Bytes := packLE 8 bits.toNat

def encodeText (value : Datum) (column : ColumnDef) : Except PyError Bytes :=
  match value with
  | .str s =>
      match column.typeName, column.length with
      | .VARCHAR, some length =>
          if (s.length : Int) > length then
            .error (.QueryExecutionError
              s!"column {reprStr column.name} exceeds VARCHAR({length})")
          else pack (encodeUtf8 s)
      | _, _ => pack (encodeUtf8 s)
  | other => .error (expects column "text" other)
where
  /-- The length of the raw bytes, then the bytes. -/
  pack (raw : Bytes) : Except PyError Bytes := do
    let length ← packU 4 raw.length
    .ok (length ++ raw)

/-- Encode a single column value: the bytes that are appended. -/
def encodeValue (value : Datum) (column : ColumnDef) : Except PyError Bytes :=
  match value with
  | .null => .ok [0x00]
  | value =>
      match column.typeName with
      | .INT =>
          match value with
          | .int i =>
              if -(2 ^ 31) ≤ i ∧ i < 2 ^ 31 then do
                let raw ← packI 4 i
                .ok (0x01 :: raw)
              else
                .error (.QueryExecutionError
                  s!"column {reprStr column.name} expects a signed 32-bit INT, got {i}")
          | other => .error (expects column "INT" other)
      | .FLOAT =>
          match value with
          | .float bits => .ok (0x01 :: packDouble bits)
          | other => .error (expects column "FLOAT" other)
      | .BOOL =>
          match value with
          | .bool b => .ok (if b then [0x01] else [0x02])
          | other => .error (expects column "BOOL" other)
      | .POINT =>
          match value.point? with
          | some (x, y) => do
              let x ← x
              let y ← y
              .ok (0x01 :: (packDouble x ++ packDouble y))
          | none => .error (expects column "POINT" value)
      | .VARCHAR | .TEXT => do
          let text ← encodeText value column
          .ok (0x01 :: text)

/-- The values of a row with their columns, one after the other. -/
def encodeValues : List Datum → List ColumnDef → Except PyError Bytes
  | value :: row, column :: columns => do
      let bytes ← encodeValue value column
      let rest ← encodeValues row columns
      .ok (bytes ++ rest)
  | _, _ => .ok []

/-- Serialize `row` into bytes using `columns` as the layout. -/
def encodeRow (row : List Datum) (columns : List ColumnDef) : Except PyError Bytes :=
  if row.length ≠ columns.length then
    .error (.QueryExecutionError
      s!"row has {row.length} values but schema expects {columns.length}")
  else encodeValues row columns

/-! ## Decoding -/

def takeBytes (data : Bytes) (offset size : Nat) : Except PyError (Bytes × Nat) :=
  if offset + size > data.length then
    .error (.QueryExecutionError
      s!"truncated record: need {size} bytes at offset {offset}, have {data.length}")
  else .ok ((data.drop offset).take size, offset + size)

/-- The double that eight bytes denote. -/
def unpackDouble (raw : Bytes) : UInt64 := UInt64.ofNat (unpackLE raw)

def decodeText (data : Bytes) (offset : Nat) : Except PyError (Datum × Nat) := do
  let (rawLength, offset) ← takeBytes data offset 4
  let (raw, offset) ← takeBytes data offset (unpackLE rawLength)
  match decodeUtf8 raw with
  | some s => .ok (.str s, offset)
  | none => .error (.QueryExecutionError "invalid UTF-8 in text column")

/-- The error for another flag byte. -/
def invalidFlag (what : String) (flag : Bytes) : PyError :=
  .QueryExecutionError s!"invalid {what} byte {reprBytes flag}"

/-- Decode one column value at `offset`; returns value and new offset. -/
def decodeValue (column : ColumnDef) (data : Bytes) (offset : Nat) :
    Except PyError (Datum × Nat) := do
  let (flag, offset) ← takeBytes data offset 1
  if flag = [0x00] then .ok (.null, offset)
  else
    match column.typeName with
    | .INT =>
        if flag ≠ [0x01] then .error (invalidFlag "INT flag" flag)
        else do
          let (value, offset) ← takeBytes data offset 4
          .ok (.int (unpackI 4 value), offset)
    | .FLOAT =>
        if flag ≠ [0x01] then .error (invalidFlag "FLOAT flag" flag)
        else do
          let (value, offset) ← takeBytes data offset 8
          .ok (.float (unpackDouble value), offset)
    | .BOOL =>
        if flag = [0x01] then .ok (.bool true, offset)
        else if flag = [0x02] then .ok (.bool false, offset)
        else .error (invalidFlag "BOOL" flag)
    | .POINT =>
        if flag ≠ [0x01] then .error (invalidFlag "POINT flag" flag)
        else do
          let (rawX, offset) ← takeBytes data offset 8
          let (rawY, offset) ← takeBytes data offset 8
          .ok (.tuple [.float (unpackDouble rawX), .float (unpackDouble rawY)], offset)
    | .VARCHAR | .TEXT =>
        if flag ≠ [0x01] then .error (invalidFlag "text flag" flag)
        else decodeText data offset

def decodeValues : List ColumnDef → Bytes → Nat → Except PyError (List Datum × Nat)
  | [], _, offset => .ok ([], offset)
  | column :: columns, data, offset => do
      let (value, offset) ← decodeValue column data offset
      let (values, offset) ← decodeValues columns data offset
      .ok (value :: values, offset)

/-- Deserialize `data` into a row following `columns`. -/
def decodeRow (data : Bytes) (columns : List ColumnDef) : Except PyError (List Datum) := do
  let (values, offset) ← decodeValues columns data 0
  if offset ≠ data.length then
    .error (.QueryExecutionError
      s!"trailing bytes after record: got {data.length - offset} extra")
  else .ok values

/-! ## Reading at an offset -/

variable {data : Bytes} {offset : Nat} {s : String} {value : Datum} {column : ColumnDef}
    {row : List Datum} {columns : List ColumnDef}

theorem take_bytes_at {bs rest : Bytes} {size : Nat} (h : At data offset (bs ++ rest))
    (hsize : bs.length = size) : takeBytes data offset size = .ok (bs, offset + size) := by
  have hlength := h.length
  rw [length_append] at hlength
  subst hsize
  rw [takeBytes, if_neg (by omega), h.take]

theorem stands_of_take_bytes {bs : Bytes} {offset' size : Nat}
    (h : takeBytes data offset size = .ok (bs, offset')) :
    Stands data offset bs offset' ∧ bs.length = size := by
  rw [takeBytes] at h
  split at h
  · cases h
  · next hle =>
      cases h
      refine ⟨Stands.slice (by omega), ?_⟩
      rw [length_take, length_drop]
      omega

theorem unpackDouble_packDouble (bits : UInt64) : unpackDouble (packDouble bits) = bits := by
  rw [unpackDouble, packDouble, unpackLE_packLE 8 _ bits.toNat_lt]
  exact UInt64.ofNat_toNat

theorem packDouble_unpackDouble {raw : Bytes} (h : raw.length = 8) :
    packDouble (unpackDouble raw) = raw := by
  have hlt := unpackLE_lt raw
  rw [h] at hlt
  have hnat : (UInt64.ofNat (unpackLE raw)).toNat = unpackLE raw :=
    UInt64.toNat_ofNat_of_lt' hlt
  rw [unpackDouble, packDouble, hnat, ← h, packLE_unpackLE]

@[simp] theorem length_packDouble (bits : UInt64) : (packDouble bits).length = 8 :=
  length_packLE 8 _

/-! ## A row is read back -/

/-- The value is of the type of the column, and a VARCHAR within its length. -/
inductive WellTyped : Datum → ColumnDef → Prop
  | null (column : ColumnDef) : WellTyped .null column
  | int {column : ColumnDef} (i : Int)
      (htype : column.typeName = .INT)
      (hrange : -(2 ^ 31) ≤ i ∧ i < 2 ^ 31) :
      WellTyped (.int i) column
  | float {column : ColumnDef} (bits : UInt64)
      (htype : column.typeName = .FLOAT) :
      WellTyped (.float bits) column
  | bool {column : ColumnDef} (b : Bool)
      (htype : column.typeName = .BOOL) :
      WellTyped (.bool b) column
  | point {column : ColumnDef} (x y : UInt64)
      (htype : column.typeName = .POINT) :
      WellTyped (.tuple [.float x, .float y]) column
  | varchar {column : ColumnDef} (s : String)
      (htype : column.typeName = .VARCHAR)
      (hlength : ∀ n, column.length = some n → (s.length : Int) ≤ n) :
      WellTyped (.str s) column
  | text {column : ColumnDef} (s : String)
      (htype : column.typeName = .TEXT) :
      WellTyped (.str s) column

/-- The length of the text has a place in its four bytes. -/
def TextFits (value : Datum) : Prop :=
  ∀ s, value = .str s → (encodeUtf8 s).length < 2 ^ 32

theorem decodes_text {length : Bytes} (hpack : packU 4 (encodeUtf8 s).length = .ok length) :
    Decodes decodeText (length ++ encodeUtf8 s) (.str s) := by
  intro data offset rest hat
  rw [append_assoc] at hat
  have hlength := length_packU hpack
  have hnext := hat.next
  rw [hlength] at hnext
  rw [decodeText, take_bytes_at hat hlength]
  simp only [bind, Except.bind, unpackLE_of_packU hpack]
  rw [take_bytes_at hnext rfl]
  simp only [decodeUtf8_encodeUtf8, length_append, hlength, Nat.add_assoc]

/-- The flag byte and then the payload. -/
theorem decodes_value (htyped : WellTyped value column) (hfits : TextFits value) :
    ∃ bytes, encodeValue value column = .ok bytes ∧
      Decodes (decodeValue column) bytes value := by
  have hflag : ∀ (flag : UInt8) (payload data rest : Bytes) (offset : Nat),
      At data offset ((flag :: payload) ++ rest) →
        takeBytes data offset 1 = .ok ([flag], offset + 1) ∧
          At data (offset + 1) (payload ++ rest) := by
    intro flag payload data rest offset hat
    have hat' : At data offset ([flag] ++ (payload ++ rest)) := hat
    exact ⟨take_bytes_at hat' rfl, hat'.next⟩
  have htext : ∀ s, value = .str s → column.typeName = .VARCHAR ∨ column.typeName = .TEXT →
      ∃ length, packU 4 (encodeUtf8 s).length = .ok length ∧
        Decodes (decodeValue column) (0x01 :: (length ++ encodeUtf8 s)) (.str s) := by
    intro s hs htype
    obtain ⟨length, hpack⟩ : ∃ length, packU 4 (encodeUtf8 s).length = .ok length :=
      ⟨_, packU_eq_ok.mpr ⟨hfits s hs, rfl⟩⟩
    refine ⟨length, hpack, fun data offset rest hat => ?_⟩
    obtain ⟨htake, hnext⟩ := hflag 0x01 _ data rest offset hat
    rw [decodeValue, htake]
    rcases htype with htype | htype
    all_goals
      simp only [bind, Except.bind, htype, decodes_text hpack data _ rest hnext]
      simp [Nat.add_assoc, Nat.add_comm 1]
  cases htyped with
  | null =>
      refine ⟨[0x00], rfl, ?_⟩
      intro data offset rest hat
      obtain ⟨htake, _⟩ := hflag 0x00 [] data rest offset hat
      rw [decodeValue, htake]
      rfl
  | int i htype hrange =>
      have hpack : ∃ raw, packI 4 i = .ok raw := packI_ok_iff.mpr hrange
      obtain ⟨raw, hraw⟩ := hpack
      refine ⟨0x01 :: raw, ?_, ?_⟩
      · simp only [encodeValue, htype, if_pos hrange, hraw]
        rfl
      · intro data offset rest hat
        obtain ⟨htake, hnext⟩ := hflag 0x01 raw data rest offset hat
        have hlength := length_packI hraw
        rw [decodeValue, htake]
        simp only [bind, Except.bind, htype, take_bytes_at hnext hlength,
          unpackI_of_packI (by omega) hraw]
        simp [hlength, Nat.add_assoc]
  | float bits htype =>
      refine ⟨0x01 :: packDouble bits, ?_, ?_⟩
      · simp only [encodeValue, htype]
      · intro data offset rest hat
        obtain ⟨htake, hnext⟩ := hflag 0x01 _ data rest offset hat
        rw [decodeValue, htake]
        simp only [bind, Except.bind, htype, take_bytes_at hnext (length_packDouble bits),
          unpackDouble_packDouble]
        simp [Nat.add_assoc]
  | bool b htype =>
      refine ⟨if b then [0x01] else [0x02], ?_, ?_⟩
      · simp only [encodeValue, htype]
      · intro data offset rest hat
        cases b with
        | true =>
            obtain ⟨htake, _⟩ := hflag 0x01 [] data rest offset hat
            rw [decodeValue, htake]
            simp [bind, Except.bind, htype]
        | false =>
            obtain ⟨htake, _⟩ := hflag 0x02 [] data rest offset hat
            rw [decodeValue, htake]
            simp [bind, Except.bind, htype]
  | point x y htype =>
      refine ⟨0x01 :: (packDouble x ++ packDouble y), ?_, ?_⟩
      · simp only [encodeValue, htype, Datum.point?, Datum.coordinate?]
        rfl
      · intro data offset rest hat
        obtain ⟨htake, hx⟩ := hflag 0x01 _ data rest offset hat
        rw [append_assoc] at hx
        have hy := hx.next
        rw [length_packDouble] at hy
        rw [decodeValue, htake]
        simp only [bind, Except.bind, htype, take_bytes_at hx (length_packDouble x),
          take_bytes_at hy (length_packDouble y), unpackDouble_packDouble]
        simp [Nat.add_assoc]
  | varchar s htype hlength =>
      obtain ⟨length, hpack, hdecodes⟩ := htext s rfl (Or.inl htype)
      refine ⟨0x01 :: (length ++ encodeUtf8 s), ?_, hdecodes⟩
      have hencode : encodeText (.str s) column = .ok (length ++ encodeUtf8 s) := by
        simp only [encodeText, htype]
        cases hcolumn : column.length with
        | none => simp only [encodeText.pack, hpack]; rfl
        | some n =>
            have hle := hlength n hcolumn
            simp only [if_neg (not_lt.mpr hle), gt_iff_lt, encodeText.pack, hpack]
            rfl
      simp only [encodeValue, htype, hencode]
      rfl
  | text s htype =>
      obtain ⟨length, hpack, hdecodes⟩ := htext s rfl (Or.inr htype)
      refine ⟨0x01 :: (length ++ encodeUtf8 s), ?_, hdecodes⟩
      have hencode : encodeText (.str s) column = .ok (length ++ encodeUtf8 s) := by
        simp only [encodeText, htype, encodeText.pack, hpack]
        rfl
      simp only [encodeValue, htype, hencode]
      rfl

theorem decodes_values (htyped : List.Forall₂ WellTyped row columns)
    (hfits : ∀ value ∈ row, TextFits value) :
    ∃ bytes, encodeValues row columns = .ok bytes ∧
      Decodes (decodeValues columns) bytes row := by
  induction htyped with
  | nil =>
      refine ⟨[], rfl, ?_⟩
      intro data offset rest hat
      rfl
  | @cons value column row columns hvalue hrow ih =>
      obtain ⟨bytes, hencode, hdecode⟩ := decodes_value hvalue (hfits value (by simp))
      obtain ⟨bytes', hencode', hdecode'⟩ :=
        ih (fun other hother => hfits other (mem_cons_of_mem _ hother))
      refine ⟨bytes ++ bytes', ?_, ?_⟩
      · simp only [encodeValues, hencode, hencode', ok_bind]
      · intro data offset rest hat
        rw [append_assoc] at hat
        rw [decodeValues, hdecode data offset _ hat]
        simp only [bind, Except.bind, hdecode' data _ rest hat.next, length_append,
          Nat.add_assoc]

/-! ## Nothing else is read -/

/-- A VARCHAR value of the row is within the length of its column. -/
def WithinLength (value : Datum) (column : ColumnDef) : Prop :=
  ∀ s n, value = .str s → column.typeName = .VARCHAR → column.length = some n →
    (s.length : Int) ≤ n

theorem encode_text_within (h : WithinLength (.str s) column) :
    encodeText (.str s) column = encodeText.pack (encodeUtf8 s) := by
  rw [encodeText]
  cases htype : column.typeName with
  | VARCHAR =>
      cases hlength : column.length with
      | none => rfl
      | some n => simp only [gt_iff_lt, if_neg (not_lt.mpr (h s n rfl htype hlength))]
  | _ => rfl

theorem stands_of_decode_text {offset' : Nat} (h : decodeText data offset = .ok (value, offset')) :
    ∃ s raw, value = .str s ∧ Stands data offset raw offset' ∧
      encodeText.pack (encodeUtf8 s) = .ok raw := by
  rw [decodeText] at h
  obtain ⟨⟨rawLength, offset₁⟩, htake₁, h⟩ := bind_eq_ok.mp h
  obtain ⟨⟨raw, offset₂⟩, htake₂, h⟩ := bind_eq_ok.mp h
  obtain ⟨hstands₁, hlength₁⟩ := stands_of_take_bytes htake₁
  obtain ⟨hstands₂, hlength₂⟩ := stands_of_take_bytes htake₂
  cases hdecode : decodeUtf8 raw with
  | none =>
      simp only [hdecode] at h
      cases h
  | some s =>
      simp only [hdecode] at h
      cases h
      refine ⟨s, rawLength ++ raw, rfl, hstands₁.append hstands₂, ?_⟩
      have hlt := unpackLE_lt rawLength
      rw [hlength₁] at hlt
      have hpack : packU 4 raw.length = .ok rawLength := by
        refine packU_eq_ok.mpr ⟨by rw [hlength₂]; exact hlt, ?_⟩
        rw [hlength₂, ← hlength₁, packLE_unpackLE]
      rw [encodeText.pack, encodeUtf8_of_decodeUtf8 hdecode, hpack]
      rfl

theorem stands_of_decode_value {offset' : Nat}
    (h : decodeValue column data offset = .ok (value, offset')) :
    ∃ bytes, Stands data offset bytes offset' ∧
      (WithinLength value column → encodeValue value column = .ok bytes) := by
  rw [decodeValue] at h
  obtain ⟨⟨flag, offset₁⟩, htake, h⟩ := bind_eq_ok.mp h
  obtain ⟨hflag, _⟩ := stands_of_take_bytes htake
  dsimp only at h
  by_cases hnull : flag = [0x00]
  · rw [if_pos hnull] at h
    cases h
    subst hnull
    exact ⟨[0x00], hflag, fun _ => rfl⟩
  rw [if_neg hnull] at h
  have htext : ∀ {x : Except PyError (Datum × Nat)},
      (if flag ≠ [0x01] then .error (invalidFlag "text flag" flag) else decodeText data offset₁) =
        .ok (value, offset') →
      ∃ s raw, value = .str s ∧ Stands data offset ([0x01] ++ raw) offset' ∧
        encodeText.pack (encodeUtf8 s) = .ok raw := by
    intro _ h
    split at h
    · cases h
    · next hone =>
        obtain ⟨s, raw, hvalue, hraw, hpack⟩ := stands_of_decode_text h
        rw [not_not.mp hone] at hflag
        exact ⟨s, raw, hvalue, hflag.append hraw, hpack⟩
  cases htype : column.typeName with
  | INT =>
      simp only [htype] at h
      split at h
      · cases h
      · next hone =>
          obtain ⟨⟨raw, offset₂⟩, htake₂, h⟩ := bind_eq_ok.mp h
          obtain ⟨hraw, hlength⟩ := stands_of_take_bytes htake₂
          cases h
          rw [not_not.mp hone] at hflag
          refine ⟨[0x01] ++ raw, hflag.append hraw, fun _ => ?_⟩
          have hrange : -(2 ^ 31) ≤ unpackI 4 raw ∧ unpackI 4 raw < 2 ^ 31 :=
            unpackI_range (by omega) hlength
          simp only [encodeValue, htype, if_pos hrange,
            packI_unpackI (by omega : 0 < 4) hlength]
          rfl
  | FLOAT =>
      simp only [htype] at h
      split at h
      · cases h
      · next hone =>
          obtain ⟨⟨raw, offset₂⟩, htake₂, h⟩ := bind_eq_ok.mp h
          obtain ⟨hraw, hlength⟩ := stands_of_take_bytes htake₂
          cases h
          rw [not_not.mp hone] at hflag
          refine ⟨[0x01] ++ raw, hflag.append hraw, fun _ => ?_⟩
          simp only [encodeValue, htype, packDouble_unpackDouble hlength]
          rfl
  | BOOL =>
      simp only [htype] at h
      split at h
      · next hone =>
          cases h
          rw [hone] at hflag
          refine ⟨[0x01], hflag, fun _ => ?_⟩
          simp only [encodeValue, htype, if_true]
      · split at h
        · next htwo =>
            cases h
            rw [htwo] at hflag
            refine ⟨[0x02], hflag, fun _ => ?_⟩
            simp only [encodeValue, htype]
            rfl
        · cases h
  | POINT =>
      simp only [htype] at h
      split at h
      · cases h
      · next hone =>
          obtain ⟨⟨rawX, offset₂⟩, htake₂, h⟩ := bind_eq_ok.mp h
          obtain ⟨⟨rawY, offset₃⟩, htake₃, h⟩ := bind_eq_ok.mp h
          obtain ⟨hx, hlengthX⟩ := stands_of_take_bytes htake₂
          obtain ⟨hy, hlengthY⟩ := stands_of_take_bytes htake₃
          cases h
          rw [not_not.mp hone] at hflag
          refine ⟨[0x01] ++ (rawX ++ rawY), hflag.append (hx.append hy), fun _ => ?_⟩
          simp only [encodeValue, htype, Datum.point?, Datum.coordinate?, ok_bind,
            packDouble_unpackDouble hlengthX, packDouble_unpackDouble hlengthY]
          rfl
  | VARCHAR | TEXT =>
      simp only [htype] at h
      obtain ⟨s, raw, rfl, hstands, hpack⟩ := htext (x := .ok (.null, 0)) h
      refine ⟨_, hstands, fun hwithin => ?_⟩
      simp only [encodeValue, htype, encode_text_within hwithin, hpack]
      rfl

theorem stands_of_decode_values :
    ∀ {offset offset' : Nat} {row : List Datum}, offset ≤ data.length →
      decodeValues columns data offset = .ok (row, offset') →
        row.length = columns.length ∧ ∃ bytes, Stands data offset bytes offset' ∧
          (List.Forall₂ WithinLength row columns → encodeValues row columns = .ok bytes) := by
  induction columns with
  | nil =>
      intro offset offset' row hle h
      cases h
      exact ⟨rfl, [], Stands.nil hle, fun _ => rfl⟩
  | cons column columns ih =>
      intro offset offset' row hle h
      rw [decodeValues] at h
      obtain ⟨⟨value, offset₁⟩, hvalue, h⟩ := bind_eq_ok.mp h
      obtain ⟨⟨values, offset₂⟩, hvalues, h⟩ := bind_eq_ok.mp h
      cases h
      obtain ⟨bytes, hstands, hencode⟩ := stands_of_decode_value hvalue
      obtain ⟨hlength, bytes', hstands', hencode'⟩ := ih hstands.le hvalues
      refine ⟨by rw [length_cons, hlength, length_cons], bytes ++ bytes',
        hstands.append hstands', ?_⟩
      intro hwithin
      cases hwithin with
      | cons hhead htail =>
          simp only [encodeValues, hencode hhead, hencode' htail, ok_bind]

/-! ## What is raised -/

/-- Whatever the computation raises is a `QueryExecutionError`. -/
def RaisesExecutionError {α : Type} (x : Except PyError α) : Prop :=
  ∀ e, x = .error e → ∃ message, e = .QueryExecutionError message

namespace RaisesExecutionError

variable {α β : Type}

theorem ok (a : α) : RaisesExecutionError (.ok a) := by
  intro e h
  cases h

theorem error (message : String) :
    RaisesExecutionError (.error (.QueryExecutionError message) : Except PyError α) := by
  intro e h
  cases h
  exact ⟨message, rfl⟩

theorem bind {x : Except PyError α} {f : α → Except PyError β} (hx : RaisesExecutionError x)
    (hf : ∀ a, RaisesExecutionError (f a)) : RaisesExecutionError (x >>= f) := by
  intro e h
  rcases bind_eq_error.mp h with h | ⟨a, _, h⟩
  · exact hx e h
  · exact hf a e h

theorem ite {p : Prop} [Decidable p] {x y : Except PyError α} (hx : RaisesExecutionError x)
    (hy : RaisesExecutionError y) : RaisesExecutionError (if p then x else y) := by
  split
  · exact hx
  · exact hy

end RaisesExecutionError

theorem raises_take_bytes (data : Bytes) (offset size : Nat) :
    RaisesExecutionError (takeBytes data offset size) :=
  .ite (.error _) (.ok _)

theorem raises_decode_text (data : Bytes) (offset : Nat) :
    RaisesExecutionError (decodeText data offset) := by
  refine .bind (raises_take_bytes data offset 4) (fun length => ?_)
  refine .bind (raises_take_bytes data _ _) (fun raw => ?_)
  dsimp only
  cases hdecode : decodeUtf8 raw.1 with
  | none => exact .error _
  | some s => exact .ok _

theorem raises_decode_value (column : ColumnDef) (data : Bytes) (offset : Nat) :
    RaisesExecutionError (decodeValue column data offset) := by
  refine .bind (raises_take_bytes data offset 1) (fun flag => ?_)
  refine .ite (.ok _) ?_
  cases htype : column.typeName with
  | INT =>
      refine .ite (.error _) ?_
      exact .bind (raises_take_bytes data _ 4)
        (fun _ => .ok _)
  | FLOAT =>
      refine .ite (.error _) ?_
      exact .bind (raises_take_bytes data _ 8)
        (fun _ => .ok _)
  | BOOL =>
      refine .ite (.ok _) ?_
      exact .ite (.ok _) (.error _)
  | POINT =>
      refine .ite (.error _) ?_
      refine .bind (raises_take_bytes data _ 8) (fun _ => ?_)
      exact .bind (raises_take_bytes data _ 8)
        (fun _ => .ok _)
  | VARCHAR =>
      exact .ite (.error _) (raises_decode_text data _)
  | TEXT =>
      exact .ite (.error _) (raises_decode_text data _)

theorem raises_decode_values (columns : List ColumnDef) (data : Bytes) (offset : Nat) :
    RaisesExecutionError (decodeValues columns data offset) := by
  induction columns generalizing offset with
  | nil => exact .ok _
  | cons column columns ih =>
      refine .bind (raises_decode_value column data offset) (fun value => ?_)
      exact .bind (ih value.2) (fun _ => .ok _)

/-! ## Rows -/

/-- A row of the columns' types, whose texts have lengths of four bytes, is read back. -/
theorem decode_row_of_typed (htyped : List.Forall₂ WellTyped row columns)
    (hfits : ∀ value ∈ row, TextFits value) :
    ∃ data, encodeRow row columns = .ok data ∧ decodeRow data columns = .ok row := by
  obtain ⟨data, hencode, hdecode⟩ := decodes_values htyped hfits
  refine ⟨data, ?_, ?_⟩
  · rw [encodeRow, if_neg (not_not.mpr htyped.length_eq), hencode]
  · rw [decodeRow, hdecode.whole]
    simp

theorem encode_row_of_decode_row (h : decodeRow data columns = .ok row)
    (hwithin : List.Forall₂ WithinLength row columns) :
    encodeRow row columns = .ok data := by
  rw [decodeRow] at h
  obtain ⟨⟨values, offset⟩, hvalues, h⟩ := bind_eq_ok.mp h
  dsimp only at h
  split at h
  · cases h
  · next hoffset =>
      cases h
      obtain ⟨hlength, bytes, hstands, hencode⟩ := stands_of_decode_values (Nat.zero_le _) hvalues
      rw [not_not.mp hoffset] at hstands
      rw [encodeRow, if_neg (not_not.mpr hlength), hencode hwithin, hstands.whole]

/-- The columns with no lengths: what is read does not depend on these. -/
def unlimited (columns : List ColumnDef) : List ColumnDef :=
  columns.map (fun column => { column with length := none })

theorem decode_row_unlimited (data : Bytes) (columns : List ColumnDef) :
    decodeRow data (unlimited columns) = decodeRow data columns := by
  have hvalues : ∀ offset,
      decodeValues (unlimited columns) data offset = decodeValues columns data offset := by
    induction columns with
    | nil => intro offset; rfl
    | cons column columns ih =>
        intro offset
        have hrest : ∀ o, decodeValues (columns.map (fun c => { c with length := none })) data o =
            decodeValues columns data o := ih
        simp only [unlimited, map_cons, decodeValues, decodeValue, hrest]
  rw [decodeRow, hvalues]
  rfl

theorem within_unlimited (h : row.length = columns.length) :
    List.Forall₂ WithinLength row (unlimited columns) := by
  induction columns generalizing row with
  | nil =>
      rw [length_eq_zero_iff.mp h]
      exact List.Forall₂.nil
  | cons column columns ih =>
      cases row with
      | nil => cases h
      | cons value row =>
          refine List.Forall₂.cons ?_ (ih (Nat.succ.inj h))
          intro s n _ _ hlength
          cases hlength

theorem length_of_decode_row (h : decodeRow data columns = .ok row) :
    row.length = columns.length := by
  rw [decodeRow] at h
  obtain ⟨⟨values, offset⟩, hvalues, h⟩ := bind_eq_ok.mp h
  dsimp only at h
  split at h
  · cases h
  · cases h
    exact (stands_of_decode_values (Nat.zero_le _) hvalues).1

/-- No two byte strings are read as the same row. -/
theorem eq_of_decode_row {data' : Bytes} (h : decodeRow data columns = .ok row)
    (h' : decodeRow data' columns = .ok row) :
    data = data' := by
  have hwithin := within_unlimited (length_of_decode_row h)
  rw [← decode_row_unlimited] at h h'
  have heq := encode_row_of_decode_row h hwithin
  rw [encode_row_of_decode_row h' hwithin] at heq
  exact (Except.ok.inj heq).symm

theorem raises_decode_row (data : Bytes) (columns : List ColumnDef) :
    RaisesExecutionError (decodeRow data columns) :=
  .bind (raises_decode_values columns data 0)
    (fun _ => .ite (.error _) (.ok _))

/-- For every schema: a row of its types, with no text of 2^32 bytes or more, is encoded and
read back; a byte string is either refused with a `QueryExecutionError` or read as a row
that is encoded by exactly these bytes, if its VARCHARs are within their lengths; and no two
byte strings are read as the same row. -/
theorem record_codec (columns : List ColumnDef) :
    (∀ row, List.Forall₂ WellTyped row columns → (∀ value ∈ row, TextFits value) →
        ∃ data, encodeRow row columns = .ok data ∧ decodeRow data columns = .ok row) ∧
      (∀ data,
        (∃ message, decodeRow data columns = .error (.QueryExecutionError message)) ∨
          ∃ row, decodeRow data columns = .ok row ∧
            (List.Forall₂ WithinLength row columns → encodeRow row columns = .ok data)) ∧
      ∀ data data' row, decodeRow data columns = .ok row → decodeRow data' columns = .ok row →
        data = data' := by
  refine ⟨?_, ?_, ?_⟩
  · intro row htyped hfits
    exact decode_row_of_typed htyped hfits
  · intro data
    cases hdecode : decodeRow data columns with
    | error e =>
        obtain ⟨message, he⟩ := raises_decode_row data columns e hdecode
        left
        rw [he]
        exact ⟨message, rfl⟩
    | ok row =>
        right
        exact ⟨row, rfl, encode_row_of_decode_row hdecode⟩
  · intro data data' row h h'
    exact eq_of_decode_row h h'

theorem record_codec_two_columns : ∃ data,
    encodeRow [.null, .str "a"] [⟨"id", .INT, none⟩, ⟨"name", .VARCHAR, some 4⟩] = .ok data ∧
      decodeRow data [⟨"id", .INT, none⟩, ⟨"name", .VARCHAR, some 4⟩] =
        .ok [.null, .str "a"] := by
  refine (record_codec [⟨"id", .INT, none⟩, ⟨"name", .VARCHAR, some 4⟩]).1 _ ?_ ?_
  · refine List.Forall₂.cons (.null _) (List.Forall₂.cons ?_ List.Forall₂.nil)
    refine .varchar "a" rfl ?_
    intro n hn
    cases hn
    decide
  · intro value hvalue s hs
    subst hs
    simp only [mem_cons, reduceCtorEq, Datum.str.injEq, not_mem_nil, or_false,
      false_or] at hvalue
    subst hvalue
    decide

/-! ## Whatever is encoded is read back -/

theorem typed_of_encode_text {bytes : Bytes}
    (htype : column.typeName = .VARCHAR ∨ column.typeName = .TEXT)
    (h : encodeText (.str s) column = .ok bytes) :
    WellTyped (.str s) column ∧ TextFits (.str s) := by
  have hpack : ∀ {raw : Bytes}, encodeText.pack (encodeUtf8 s) = .ok raw → TextFits (.str s) := by
    intro raw hraw t ht
    obtain rfl := Datum.str.inj ht
    obtain ⟨length, hlength, _⟩ := bind_eq_ok.mp hraw
    have hbound : (2 : Nat) ^ 32 = 256 ^ 4 := by decide
    by_contra hlarge
    rw [hbound] at hlarge
    rw [packU, if_neg hlarge] at hlength
    cases hlength
  rw [encodeText] at h
  rcases htype with htype | htype
  · rw [htype] at h
    cases hlength : column.length with
    | none =>
        rw [hlength] at h
        exact ⟨.varchar s htype (by simp [hlength]), hpack h⟩
    | some n =>
        rw [hlength] at h
        dsimp only at h
        split at h
        · cases h
        · next hfits =>
            refine ⟨.varchar s htype ?_, hpack h⟩
            intro m hm
            rw [hlength] at hm
            obtain rfl := Option.some.inj hm
            omega
  · rw [htype] at h
    exact ⟨.text s htype, hpack h⟩

theorem typed_of_encode_value {bytes : Bytes} (h : encodeValue value column = .ok bytes) :
    WellTyped value.stored column ∧ TextFits value.stored ∧
      encodeValue value.stored column = .ok bytes := by
  have hfits : ∀ {d : Datum}, (∀ s, d ≠ .str s) → TextFits d := fun hd s hs => absurd hs (hd s)
  cases value with
  | null => exact ⟨.null column, hfits (by simp [Datum.stored, Datum.point?]), h⟩
  | bool b =>
      cases htype : column.typeName <;> simp only [encodeValue, htype] at h
      case BOOL =>
        refine ⟨.bool b htype, hfits (by simp [Datum.stored, Datum.point?]), ?_⟩
        simp only [Datum.stored, Datum.point?, encodeValue, htype]
        exact h
      all_goals cases h
  | int i =>
      cases htype : column.typeName <;> simp only [encodeValue, htype] at h
      case INT =>
        split at h
        · next hrange =>
            refine ⟨.int i htype hrange, hfits (by simp [Datum.stored, Datum.point?]), ?_⟩
            simp only [Datum.stored, Datum.point?, encodeValue, htype]
            rw [if_pos hrange]
            exact h
        · cases h
      all_goals cases h
  | float bits =>
      cases htype : column.typeName <;> simp only [encodeValue, htype] at h
      case FLOAT =>
        refine ⟨.float bits htype, hfits (by simp [Datum.stored, Datum.point?]), ?_⟩
        simp only [Datum.stored, Datum.point?, encodeValue, htype]
        exact h
      all_goals cases h
  | str s =>
      have hstored : Datum.stored (.str s) = .str s := rfl
      rw [hstored]
      cases htype : column.typeName <;> simp only [encodeValue, htype] at h
      case VARCHAR =>
        obtain ⟨text, htext, _⟩ := bind_eq_ok.mp h
        obtain ⟨htyped, hfit⟩ := typed_of_encode_text (Or.inl htype) htext
        refine ⟨htyped, hfit, ?_⟩
        simp only [encodeValue, htype]
        exact h
      case TEXT =>
        obtain ⟨text, htext, _⟩ := bind_eq_ok.mp h
        obtain ⟨htyped, hfit⟩ := typed_of_encode_text (Or.inr htype) htext
        refine ⟨htyped, hfit, ?_⟩
        simp only [encodeValue, htype]
        exact h
      all_goals cases h
  | bytes data =>
      cases htype : column.typeName <;> simp only [encodeValue, htype] at h
      all_goals cases h
  | tuple items =>
      cases htype : column.typeName <;> simp only [encodeValue, htype] at h
      case POINT =>
        cases hpoint : (Datum.tuple items).point? with
        | none =>
            rw [hpoint] at h
            cases h
        | some p =>
            obtain ⟨x, y⟩ := p
            rw [hpoint] at h
            obtain ⟨x', hx, h⟩ := bind_eq_ok.mp h
            obtain ⟨y', hy, h⟩ := bind_eq_ok.mp h
            subst hx hy
            have hstored : (Datum.tuple items).stored = .tuple [.float x', .float y'] := by
              rw [Datum.stored, hpoint]
            rw [hstored]
            refine ⟨.point x' y' htype, hfits (by simp), ?_⟩
            simp only [encodeValue, htype, Datum.point?, Datum.coordinate?]
            exact h
      all_goals cases h

theorem typed_of_encode_values (hlength : row.length = columns.length)
    (h : encodeValues row columns = .ok data) :
    List.Forall₂ WellTyped (row.map Datum.stored) columns ∧
      (∀ value ∈ row.map Datum.stored, TextFits value) ∧
      encodeValues (row.map Datum.stored) columns = .ok data := by
  induction columns generalizing row data with
  | nil =>
      rw [length_eq_zero_iff.mp hlength] at h ⊢
      exact ⟨List.Forall₂.nil, by simp, h⟩
  | cons column columns ih =>
      cases row with
      | nil => cases hlength
      | cons value row =>
          obtain ⟨bytes, hbytes, h⟩ := bind_eq_ok.mp h
          obtain ⟨rest, hrest, h⟩ := bind_eq_ok.mp h
          obtain ⟨htyped, hfits, hencode⟩ := typed_of_encode_value hbytes
          obtain ⟨htyped', hfits', hencode'⟩ := ih (Nat.succ.inj hlength) hrest
          refine ⟨List.Forall₂.cons htyped htyped', ?_, ?_⟩
          · rw [map_cons]
            exact forall_mem_cons.mpr ⟨hfits, hfits'⟩
          · rw [map_cons, encodeValues, hencode, hencode']
            exact h

theorem decode_row_encode_row (h : encodeRow row columns = .ok data) :
    decodeRow data columns = .ok (row.map Datum.stored) := by
  rw [encodeRow] at h
  split at h
  · cases h
  · next hlength =>
      obtain ⟨htyped, hfits, hencode⟩ := typed_of_encode_values (not_not.mp hlength) h
      obtain ⟨data', hencode', hdecode⟩ := decode_row_of_typed htyped hfits
      rw [encodeRow, if_neg (by simpa using hlength), hencode] at hencode'
      rw [Except.ok.inj hencode']
      exact hdecode

/-! ## A text whose length does not fit -/

theorem length_encodeUtf8_replicate (n : Nat) :
    (encodeUtf8 (String.ofList (replicate n 'a'))).length = n := by
  have hchar : ∀ n, ((replicate n 'a').flatMap String.utf8EncodeChar).length = n := by
    intro n
    induction n with
    | zero => rfl
    | succ n ih =>
        rw [replicate_succ, flatMap_cons, length_append, ih]
        exact Nat.add_comm _ _
  simp [encodeUtf8, String.toUTF8, utf8Encode, hchar]

/-- A TEXT of 2^32 characters is of its column's type, and is not encoded. -/
theorem long_text_not_encoded :
    ¬ ∀ (columns : List ColumnDef) (row : List Datum), List.Forall₂ WellTyped row columns →
      ∃ data, encodeRow row columns = .ok data ∧ decodeRow data columns = .ok row := by
  intro hcodec
  have hlong := length_encodeUtf8_replicate (2 ^ 32)
  generalize String.ofList (replicate (2 ^ 32) 'a') = s at hlong
  have htyped : List.Forall₂ WellTyped [Datum.str s] [⟨"body", .TEXT, none⟩] :=
    List.Forall₂.cons (.text s rfl) List.Forall₂.nil
  obtain ⟨data, hencode, _⟩ := hcodec _ _ htyped
  have hpack : packU 4 (encodeUtf8 s).length =
      .error (.StructError "argument out of range") := by
    rw [hlong]
    rfl
  simp only [encodeRow, encodeValues, encodeValue, encodeText, encodeText.pack, hpack,
    length_singleton, ne_eq, not_true_eq_false, if_false, error_bind] at hencode
  cases hencode

end SoupDB.Record
