import SoupDB.Common.Record

/-!
# SoupDB: the wire protocol

Frames, the payloads of requests and the payloads of responses, big-endian, in the two
wire versions.  A header of a result describes its columns by numeric type codes (version 1)
or by type names (version 2); the cells are written the same way in both.

Main fact: `decode_resultset_encode_resultset`, which results come back from the wire as
they were sent.  Names, texts and the declared length of a VARCHAR have two bytes.
-/

namespace SoupDB

open Pack List

open KeyCodec (encodeUtf8 decodeUtf8 decodeUtf8_encodeUtf8)

/-- Columns and rows of a query result plus affected-row count. -/
structure ResultSet where
  columns : List ColumnDef
  rows : List (List Datum)
  affected : Int
deriving Repr

namespace Protocol

/-! ## Fields -/

/-- An unsigned field of `k` bytes, most significant byte first. -/
def pack (k : Nat) (n : Int) : Except PyError Bytes :=
  if n < 0 then .error (.StructError "argument out of range")
  else do
    let bytes ← packU k n.toNat
    .ok bytes.reverse

/-- A signed field of four bytes. -/
def packInt (i : Int) : Except PyError Bytes := do
  let bytes ← packI 4 i
  .ok bytes.reverse

def packDouble (bits : UInt64) : Bytes := (Record.packDouble bits).reverse

def unpackFrom (size : Nat) (data : Bytes) (offset : Nat) : Except PyError Bytes :=
  if offset + size ≤ data.length then .ok ((data.drop offset).take size)
  else
    .error (.StructError
      (s!"unpack_from requires a buffer of at least {offset + size} bytes for unpacking " ++
        s!"{size} bytes at offset {offset} (actual buffer size is {data.length})"))

/-- An unsigned field of `size` bytes at an offset. -/
def unpackNat (size : Nat) (data : Bytes) (offset : Nat) : Except PyError Nat := do
  let field ← unpackFrom size data offset
  .ok (unpackLE field.reverse)

/-- `data[offset : offset + length]`. -/
def slice (data : Bytes) (offset length : Nat) : Bytes := (data.drop offset).take length

/-- `raw.decode("utf-8")`. -/
def utf8Text (raw : Bytes) : Except PyError String :=
  match decodeUtf8 raw with
  | some s => .ok s
  | none => .error .UnicodeDecodeError

/-- A text after its length, which has `size` bytes. -/
def encodeText (size : Nat) (s : String) : Except PyError Bytes := do
  let length ← pack size (encodeUtf8 s).length
  .ok (length ++ encodeUtf8 s)

def decodeText (size : Nat) (data : Bytes) (offset : Nat) : Except PyError (String × Nat) := do
  let length ← unpackNat size data offset
  let s ← utf8Text (slice data (offset + size) length)
  .ok (s, offset + size + length)

/-! ## Frames -/

def MAGIC : Bytes := [83, 80]
def VERSION_V1 : Nat := 0x01
def VERSION : Nat := 0x02

/-- `version in SUPPORTED_VERSIONS`. -/
def Supported (version : Nat) : Prop := version = VERSION_V1 ∨ version = VERSION

instance (version : Nat) : Decidable (Supported version) :=
  inferInstanceAs (Decidable (_ ∨ _))

def unsupported (version : Nat) : PyError :=
  .ProtocolError s!"unsupported protocol version {version}"

/-- Encode a full frame: magic, version, opcode, length and payload. -/
def encodeFrame (opcode : Nat) (payload : Bytes) (version : Nat) : Except PyError Bytes :=
  if Supported version then do
    let version ← pack 1 version
    let opcode ← pack 1 opcode
    let length ← pack 4 payload.length
    .ok (MAGIC ++ version ++ opcode ++ length ++ payload)
  else .error (unsupported version)

/-! ## Values -/

def TAG_NULL : UInt8 := 0x00
def TAG_INT : UInt8 := 0x01
def TAG_FLOAT : UInt8 := 0x02
def TAG_TEXT : UInt8 := 0x03
def TAG_BOOL : UInt8 := 0x04
def TAG_POINT : UInt8 := 0x05
def TAG_BYTES : UInt8 := 0x06

/-- The bytes of a cell.  `repr` gives the text of a value in the error. -/
def encodeValue (repr : Datum → String) (value : Datum) : Except PyError Bytes :=
  match value with
  | .null => .ok [TAG_NULL]
  | .bool b => .ok [TAG_BOOL, if b then 1 else 0]
  | .int i => do
      let field ← packInt i
      .ok (TAG_INT :: field)
  | .float bits => .ok (TAG_FLOAT :: packDouble bits)
  | .str s => do
      let text ← encodeText 2 s
      .ok (TAG_TEXT :: text)
  | .bytes data => do
      let length ← pack 4 data.length
      .ok (TAG_BYTES :: (length ++ data))
  | .tuple items =>
      match (Datum.tuple items).point? with
      | some (x, y) => do
          let x ← x
          let y ← y
          .ok (TAG_POINT :: (packDouble x ++ packDouble y))
      | none => .error (.ProtocolError s!"cannot encode value {repr (.tuple items)}")

def unpackDouble (field : Bytes) : UInt64 := Record.unpackDouble field.reverse

def decodeValue (data : Bytes) (offset : Nat) : Except PyError (Datum × Nat) := do
  let tag ← unpackNat 1 data offset
  let offset := offset + 1
  if tag = TAG_NULL.toNat then .ok (.null, offset)
  else if tag = TAG_INT.toNat then do
    let field ← unpackFrom 4 data offset
    .ok (.int (unpackI 4 field.reverse), offset + 4)
  else if tag = TAG_FLOAT.toNat then do
    let field ← unpackFrom 8 data offset
    .ok (.float (unpackDouble field), offset + 8)
  else if tag = TAG_TEXT.toNat then do
    let (s, offset) ← decodeText 2 data offset
    .ok (.str s, offset)
  else if tag = TAG_BOOL.toNat then
    match data[offset]? with
    | some b => .ok (.bool (b ≠ 0), offset + 1)
    | none => .error (.IndexError "index out of range")
  else if tag = TAG_POINT.toNat then do
    let field ← unpackFrom 16 data offset
    .ok (.tuple [.float (unpackDouble (field.take 8)), .float (unpackDouble (field.drop 8))],
      offset + 16)
  else if tag = TAG_BYTES.toNat then do
    let length ← unpackNat 4 data offset
    .ok (.bytes (slice data (offset + 4) length), offset + 4 + length)
  else .error (.ProtocolError s!"unknown value tag {tag}")

/-! ## Requests -/

def encodeQuery (sql : String) : Except PyError Bytes := encodeText 4 sql

def decodeQuery (payload : Bytes) : Except PyError String := do
  let length ← unpackNat 4 payload 0
  utf8Text (slice payload 4 length)

def decodeName (payload : Bytes) (offset : Nat) : Except PyError (String × Nat) :=
  decodeText 2 payload offset

def decodePrepare (payload : Bytes) : Except PyError (String × String) := do
  let (name, offset) ← decodeName payload 0
  let length ← unpackNat 4 payload offset
  let sql ← utf8Text (slice payload (offset + 4) length)
  .ok (name, sql)

def decodeExecute (payload : Bytes) : Except PyError (String × List Datum) := do
  let (name, offset) ← decodeName payload 0
  let count ← unpackNat 2 payload offset
  let (params, _) ← Decoder.times decodeValue count payload (offset + 2)
  .ok (name, params)

def decodeDeallocate (payload : Bytes) : Except PyError String := do
  let (name, _) ← decodeName payload 0
  .ok name

/-! ## Responses -/

def encodeOk (affected : Int) : Except PyError Bytes := pack 4 affected

def encodeError (code : Nat) (message : String) : Except PyError Bytes := do
  let code ← pack 1 code
  let text ← encodeText 2 message
  .ok (code ++ text)

def typeCode : ColumnType → Nat
  | .INT => 0x01
  | .FLOAT => 0x02
  | .VARCHAR => 0x03
  | .TEXT => 0x04
  | .BOOL => 0x05
  | .POINT => 0x06

def columnType (code : Nat) : Except PyError ColumnType :=
  if code = 0x01 then .ok .INT
  else if code = 0x02 then .ok .FLOAT
  else if code = 0x03 then .ok .VARCHAR
  else if code = 0x04 then .ok .TEXT
  else if code = 0x05 then .ok .BOOL
  else if code = 0x06 then .ok .POINT
  else .error (.KeyError s!"{code}")

/-- The encoding and the size for the schema-driven result header. -/
def wireEncoding (typeName : ColumnType) : Nat × Nat :=
  (0, match typeName with
    | .INT => 4
    | .FLOAT => 8
    | .BOOL => 1
    | .POINT => 16
    | .VARCHAR => 0
    | .TEXT => 0)

/-- `ColumnType(value)`. -/
def typeOfName (value : String) : Except PyError ColumnType :=
  if value = "INT" then .ok .INT
  else if value = "FLOAT" then .ok .FLOAT
  else if value = "VARCHAR" then .ok .VARCHAR
  else if value = "TEXT" then .ok .TEXT
  else if value = "BOOL" then .ok .BOOL
  else if value = "POINT" then .ok .POINT
  else .error (.ValueError s!"{reprStr value} is not a valid ColumnType")

/-- `length or None`. -/
def declared (length : Nat) : Option Int := if length = 0 then none else some length

/-- The header of a column in version 1: a numeric type code. -/
def encodeColumnV1 (column : ColumnDef) : Except PyError Bytes := do
  let name ← encodeText 2 column.name
  let code ← pack 1 (typeCode column.typeName)
  let length ← pack 2 (column.length.getD 0)
  .ok (name ++ (code ++ length))

def decodeColumnV1 (payload : Bytes) (offset : Nat) : Except PyError (ColumnDef × Nat) := do
  let (name, offset) ← decodeText 2 payload offset
  let code ← unpackNat 1 payload offset
  let length ← unpackNat 2 payload (offset + 1)
  let typeName ← columnType code
  .ok (⟨name, typeName, declared length⟩, offset + 3)

/-- The header of a column in version 2: the name of the type, an encoding and a size. -/
def encodeColumnV2 (column : ColumnDef) : Except PyError Bytes := do
  let name ← encodeText 2 column.name
  let typeName ← encodeText 2 column.typeName.value
  let (encoding, size) := wireEncoding column.typeName
  let encoding ← pack 1 encoding
  let size ← pack 2 size
  let length ← pack 2 (column.length.getD 0)
  .ok (name ++ (typeName ++ (encoding ++ (size ++ length))))

def decodeColumnV2 (payload : Bytes) (offset : Nat) : Except PyError (ColumnDef × Nat) := do
  let (name, offset) ← decodeText 2 payload offset
  let (typeName, offset) ← decodeText 2 payload offset
  let field ← unpackFrom 5 payload offset
  let typeName ← typeOfName typeName
  .ok (⟨name, typeName, declared (unpackLE (field.drop 3).reverse)⟩, offset + 5)

/-- The columns after their count, then the rows after theirs. -/
def encodeResult (encodeColumn : ColumnDef → Except PyError Bytes) (repr : Datum → String)
    (result : ResultSet) : Except PyError Bytes := do
  let columnCount ← pack 2 result.columns.length
  let columns ← concatM encodeColumn result.columns
  let rowCount ← pack 4 result.rows.length
  let rows ← concatM (concatM (encodeValue repr)) result.rows
  .ok (columnCount ++ (columns ++ (rowCount ++ rows)))

def decodeResult (decodeColumn : Bytes → Nat → Except PyError (ColumnDef × Nat))
    (payload : Bytes) : Except PyError ResultSet := do
  let columnCount ← unpackNat 2 payload 0
  let (columns, offset) ← Decoder.times decodeColumn columnCount payload 2
  let rowCount ← unpackNat 4 payload offset
  let (rows, _) ←
    Decoder.times (Decoder.times decodeValue columns.length) rowCount payload (offset + 4)
  .ok ⟨columns, rows, 0⟩

/-- Serialize a result using the requested wire version. -/
def encodeResultset (repr : Datum → String) (result : ResultSet) (version : Nat) :
    Except PyError Bytes :=
  if version = VERSION_V1 then encodeResult encodeColumnV1 repr result
  else if version = VERSION then encodeResult encodeColumnV2 repr result
  else .error (unsupported version)

def decodeResultset (payload : Bytes) (version : Nat) : Except PyError ResultSet :=
  if version = VERSION_V1 then decodeResult decodeColumnV1 payload
  else if version = VERSION then decodeResult decodeColumnV2 payload
  else .error (unsupported version)

/-! ## Fields are read back -/

variable {data field rest : Bytes} {offset size : Nat}

variable {n : Int} {s : String} {bytes : Bytes} {repr : Datum → String} {column : ColumnDef}

theorem pack_eq_ok {k : Nat} :
    pack k n = .ok field ↔ 0 ≤ n ∧ n.toNat < 256 ^ k ∧ field = (packLE k n.toNat).reverse := by
  rw [pack]
  by_cases hn : n < 0
  · simp only [if_pos hn, reduceCtorEq, false_iff]
    omega
  · simp only [if_neg hn, bind_eq_ok, packU_eq_ok, Except.ok.injEq]
    constructor
    · rintro ⟨bytes, ⟨hlt, rfl⟩, rfl⟩
      exact ⟨by omega, hlt, rfl⟩
    · rintro ⟨_, hlt, rfl⟩
      exact ⟨_, ⟨hlt, rfl⟩, rfl⟩

theorem pack_returns {k : Nat} {n : Int} :
    (∃ field, pack k n = .ok field) ↔ 0 ≤ n ∧ n.toNat < 256 ^ k := by
  simp only [pack_eq_ok, exists_and_left, exists_eq, and_true]

theorem pack_error {k : Nat} (h : ¬ (0 ≤ n ∧ n.toNat < 256 ^ k)) :
    pack k n = .error (.StructError "argument out of range") := by
  rw [pack]
  by_cases hn : n < 0
  · rw [if_pos hn]
  · have hlong : ¬ n.toNat < 256 ^ k := fun hlt => h ⟨by omega, hlt⟩
    rw [if_neg hn, packU, if_neg hlong]
    rfl

theorem length_pack {k : Nat} (h : pack k n = .ok field) : field.length = k := by
  obtain ⟨_, _, rfl⟩ := pack_eq_ok.mp h
  rw [length_reverse, length_packLE]

theorem unpack_from_at (hat : At data offset (field ++ rest)) (hsize : field.length = size) :
    unpackFrom size data offset = .ok field := by
  have hlength := hat.length
  rw [length_append] at hlength
  subst hsize
  rw [unpackFrom, if_pos (by omega), hat.take]

theorem unpackNat_at (hpack : pack size n = .ok field) (hat : At data offset (field ++ rest)) :
    unpackNat size data offset = .ok n.toNat := by
  rw [unpackNat, unpack_from_at hat (length_pack hpack), ok_bind]
  obtain ⟨_, hlt, rfl⟩ := pack_eq_ok.mp hpack
  rw [reverse_reverse, unpackLE_packLE _ _ hlt]

theorem encode_text_eq_ok :
    encodeText size s = .ok bytes ↔
      ∃ length, pack size (encodeUtf8 s).length = .ok length ∧ bytes = length ++ encodeUtf8 s := by
  simp only [encodeText, bind_eq_ok, Except.ok.injEq]
  constructor
  · rintro ⟨length, hpack, rfl⟩
    exact ⟨length, hpack, rfl⟩
  · rintro ⟨length, hpack, rfl⟩
    exact ⟨length, hpack, rfl⟩

theorem decodes_text (h : encodeText size s = .ok bytes) : Decodes (decodeText size) bytes s := by
  intro data offset rest hat
  obtain ⟨length, hpack, rfl⟩ := encode_text_eq_ok.mp h
  rw [append_assoc] at hat
  have hnext := hat.next
  rw [length_pack hpack] at hnext
  rw [decodeText, unpackNat_at hpack hat, ok_bind, Int.toNat_natCast, slice, hnext.take,
    utf8Text, decodeUtf8_encodeUtf8]
  simp only [ok_bind, length_append, length_pack hpack, Nat.add_assoc]

/-! ## Values are read back -/

theorem unpackDouble_packDouble (bits : UInt64) : unpackDouble (packDouble bits) = bits := by
  rw [unpackDouble, packDouble, reverse_reverse, Record.unpackDouble_packDouble]

@[simp] theorem length_packDouble (bits : UInt64) : (packDouble bits).length = 8 := by
  rw [packDouble, length_reverse, Record.length_packDouble]

theorem unpack_tag {tag : UInt8} (hat : At data offset ((tag :: field) ++ rest)) :
    unpackNat 1 data offset = .ok tag.toNat ∧ At data (offset + 1) (field ++ rest) := by
  have hat' : At data offset ([tag] ++ (field ++ rest)) := hat
  refine ⟨?_, hat'.next⟩
  have hfield : unpackFrom 1 data offset = .ok [tag] := unpack_from_at hat' rfl
  rw [unpackNat, hfield, ok_bind]
  simp [unpackLE]

/-- A value of a row has this shape; the only length in it that may not fit is that of a
text. -/
theorem decodes_value {value : Datum} (htyped : Record.WellTyped value column)
    (hencode : encodeValue repr value = .ok bytes) :
    Decodes decodeValue bytes value := by
  intro data offset rest hat
  cases htyped with
  | null =>
      cases hencode
      obtain ⟨htag, _⟩ := unpack_tag hat
      rw [decodeValue, htag]
      rfl
  | int i _ hrange =>
      obtain ⟨field, hpack, hbytes⟩ := bind_eq_ok.mp hencode
      cases hbytes
      obtain ⟨bytes, hraw, hfield⟩ := bind_eq_ok.mp hpack
      cases hfield
      obtain ⟨htag, hnext⟩ := unpack_tag hat
      have hlength : bytes.reverse.length = 4 := by
        rw [length_reverse, length_packI hraw]
      rw [decodeValue, htag]
      simp only [ok_bind, unpack_from_at hnext hlength, reverse_reverse,
        unpackI_of_packI (by omega) hraw]
      simp [TAG_INT, TAG_NULL, length_packI hraw, Nat.add_assoc]
  | float bits =>
      cases hencode
      obtain ⟨htag, hnext⟩ := unpack_tag hat
      rw [decodeValue, htag]
      simp only [ok_bind, unpack_from_at hnext (length_packDouble bits), unpackDouble_packDouble]
      simp [TAG_FLOAT, TAG_NULL, TAG_INT, Nat.add_assoc]
  | bool b =>
      cases hencode
      obtain ⟨htag, hnext⟩ := unpack_tag hat
      have hget : data[offset + 1]? = some (if b then 1 else 0) := by
        rw [← head?_drop, hnext.drop]
        rfl
      rw [decodeValue, htag]
      simp only [ok_bind, hget]
      cases b with
      | true => simp [TAG_BOOL, TAG_NULL, TAG_INT, TAG_FLOAT, TAG_TEXT, Nat.add_assoc]
      | false => simp [TAG_BOOL, TAG_NULL, TAG_INT, TAG_FLOAT, TAG_TEXT, Nat.add_assoc]
  | point x y =>
      cases hencode
      obtain ⟨htag, hnext⟩ := unpack_tag hat
      have hlength : (packDouble x ++ packDouble y).length = 16 := by
        rw [length_append, length_packDouble, length_packDouble]
      have htake : (packDouble x ++ packDouble y).take 8 = packDouble x :=
        take_left' (length_packDouble x)
      have hdrop : (packDouble x ++ packDouble y).drop 8 = packDouble y :=
        drop_left' (length_packDouble x)
      rw [decodeValue, htag]
      simp only [ok_bind, unpack_from_at hnext hlength, htake, hdrop, unpackDouble_packDouble]
      simp [TAG_POINT, TAG_NULL, TAG_INT, TAG_FLOAT, TAG_TEXT, TAG_BOOL, Nat.add_assoc]
  | varchar s => exact text s hencode hat
  | text s => exact text s hencode hat
where
  text {repr : Datum → String} {data rest bytes : Bytes} {offset : Nat} (s : String)
      (hencode : encodeValue repr (.str s) = .ok bytes) (hat : At data offset (bytes ++ rest)) :
      decodeValue data offset = .ok (.str s, offset + bytes.length) := by
    obtain ⟨field, htext, hbytes⟩ := bind_eq_ok.mp hencode
    cases hbytes
    obtain ⟨htag, hnext⟩ := unpack_tag hat
    rw [decodeValue, htag]
    simp only [ok_bind, decodes_text htext data _ rest hnext]
    simp [TAG_TEXT, TAG_NULL, TAG_INT, TAG_FLOAT, Nat.add_assoc, Nat.add_comm 1]

/-- The length of a text has two bytes. -/
def TextFits (s : String) : Prop := (encodeUtf8 s).length < 2 ^ 16

theorem encode_text_returns : (∃ bytes, encodeText 2 s = .ok bytes) ↔ TextFits s := by
  have hpack := @pack_returns 2 (encodeUtf8 s).length
  rw [Int.toNat_natCast] at hpack
  constructor
  · rintro ⟨bytes, h⟩
    obtain ⟨length, hlength, _⟩ := encode_text_eq_ok.mp h
    exact (hpack.mp ⟨length, hlength⟩).2
  · intro h
    obtain ⟨length, hlength⟩ := hpack.mpr ⟨Int.natCast_nonneg _, h⟩
    exact ⟨_, encode_text_eq_ok.mpr ⟨length, hlength, rfl⟩⟩

theorem encode_value_returns {value : Datum} (htyped : Record.WellTyped value column) :
    (∃ bytes, encodeValue repr value = .ok bytes) ↔ ∀ s, value = .str s → TextFits s := by
  have htext : ∀ s, (∃ bytes, encodeValue repr (.str s) = .ok bytes) ↔
      ∀ s', Datum.str s = .str s' → TextFits s' := by
    intro s
    simp only [Datum.str.injEq, forall_eq', ← encode_text_returns, encodeValue, bind_eq_ok,
      Except.ok.injEq]
    constructor
    · rintro ⟨_, text, htext, _⟩
      exact ⟨text, htext⟩
    · rintro ⟨text, htext⟩
      exact ⟨_, text, htext, rfl⟩
  have hother : ∀ {v : Datum}, (∀ s, v ≠ .str s) → (∃ bytes, encodeValue repr v = .ok bytes) →
      ((∃ bytes, encodeValue repr v = .ok bytes) ↔ ∀ s, v = .str s → TextFits s) := by
    intro v hv hreturns
    exact ⟨fun _ s hs => absurd hs (hv s), fun _ => hreturns⟩
  cases htyped with
  | null => exact hother (fun s h => by cases h) ⟨_, rfl⟩
  | int i _ hrange =>
      obtain ⟨field, hpack⟩ : ∃ field, packI 4 i = .ok field := packI_ok_iff.mpr hrange
      refine hother (fun s h => by cases h) ⟨TAG_INT :: field.reverse, ?_⟩
      simp only [encodeValue, packInt, hpack, ok_bind]
  | float bits => exact hother (fun s h => by cases h) ⟨_, rfl⟩
  | bool b => exact hother (fun s h => by cases h) ⟨_, rfl⟩
  | point x y => exact hother (fun s h => by cases h) ⟨_, rfl⟩
  | varchar s => exact htext s
  | text s => exact htext s

/-! ## Columns are read back -/

/-- What comes back of a column: a declared length of 0 does not. -/
def received (column : ColumnDef) : ColumnDef :=
  { column with length := declared (column.length.getD 0).toNat }

theorem column_type_type_code (typeName : ColumnType) :
    columnType (typeCode typeName) = .ok typeName := by
  cases typeName <;> rfl

theorem typeOfName_value (typeName : ColumnType) : typeOfName typeName.value = .ok typeName := by
  cases typeName <;> rfl

theorem decodes_column_v1 (h : encodeColumnV1 column = .ok bytes) :
    Decodes decodeColumnV1 bytes (received column) := by
  intro data offset rest hat
  obtain ⟨name, hname, h⟩ := bind_eq_ok.mp h
  obtain ⟨code, hcode, h⟩ := bind_eq_ok.mp h
  obtain ⟨length, hlength, h⟩ := bind_eq_ok.mp h
  cases h
  simp only [append_assoc] at hat
  have hat₁ := hat.next
  have hat₂ := hat₁.next
  rw [length_pack hcode] at hat₂
  rw [decodeColumnV1, decodes_text hname data offset _ hat]
  simp only [ok_bind, unpackNat_at hcode hat₁, unpackNat_at hlength hat₂, Int.toNat_natCast,
    column_type_type_code]
  rw [length_append, length_append, length_pack hcode, length_pack hlength,
    ← Nat.add_assoc]
  rfl

theorem decodes_column_v2 (h : encodeColumnV2 column = .ok bytes) :
    Decodes decodeColumnV2 bytes (received column) := by
  intro data offset rest hat
  obtain ⟨name, hname, h⟩ := bind_eq_ok.mp h
  obtain ⟨typeName, htype, h⟩ := bind_eq_ok.mp h
  obtain ⟨encoding, hencoding, h⟩ := bind_eq_ok.mp h
  obtain ⟨size, hsize, h⟩ := bind_eq_ok.mp h
  obtain ⟨length, hlength, h⟩ := bind_eq_ok.mp h
  cases h
  have hfield : (encoding ++ (size ++ length)).length = 5 := by
    simp only [length_append, length_pack hencoding, length_pack hsize, length_pack hlength]
  have hdrop : (encoding ++ (size ++ length)).drop 3 = length := by
    rw [← append_assoc]
    refine drop_left' ?_
    rw [length_append, length_pack hencoding, length_pack hsize]
  have hunpack : unpackLE length.reverse = (column.length.getD 0).toNat := by
    obtain ⟨_, hlt, rfl⟩ := pack_eq_ok.mp hlength
    rw [reverse_reverse, unpackLE_packLE _ _ hlt]
  rw [append_assoc] at hat
  have hat₁ := hat.next
  rw [append_assoc] at hat₁
  have hat₂ := hat₁.next
  rw [decodeColumnV2, decodes_text hname data offset _ hat]
  simp only [ok_bind, decodes_text htype data _ _ hat₁, unpack_from_at hat₂ hfield,
    typeOfName_value, hdrop, hunpack]
  rw [length_append, length_append, hfield, Nat.add_assoc, Nat.add_assoc]
  rfl

/-- The name fits, and so does the declared length. -/
structure ColumnFits (column : ColumnDef) : Prop where
  name : TextFits column.name
  length : 0 ≤ column.length.getD 0 ∧ column.length.getD 0 < 2 ^ 16

theorem pack_length_returns : (∃ field, pack 2 n = .ok field) ↔ 0 ≤ n ∧ n < 2 ^ 16 := by
  rw [pack_returns]
  constructor
  · rintro ⟨hle, hlt⟩
    exact ⟨hle, by omega⟩
  · rintro ⟨hle, hlt⟩
    exact ⟨hle, by omega⟩

theorem encode_column_v1_returns :
    (∃ bytes, encodeColumnV1 column = .ok bytes) ↔ ColumnFits column := by
  obtain ⟨code, hcode⟩ : ∃ code, pack 1 (typeCode column.typeName) = .ok code := by
    rw [pack_returns]
    cases column.typeName <;> decide
  simp only [encodeColumnV1, bind_eq_ok, hcode, Except.ok.injEq]
  constructor
  · rintro ⟨_, name, hname, _, _, length, hlength, _⟩
    exact ⟨encode_text_returns.mp ⟨name, hname⟩, pack_length_returns.mp ⟨length, hlength⟩⟩
  · rintro ⟨hname, hlength⟩
    obtain ⟨name, hname⟩ := encode_text_returns.mpr hname
    obtain ⟨length, hlength⟩ := pack_length_returns.mpr hlength
    exact ⟨_, name, hname, code, rfl, length, hlength, rfl⟩

theorem encode_column_v2_returns :
    (∃ bytes, encodeColumnV2 column = .ok bytes) ↔ ColumnFits column := by
  obtain ⟨typeName, htype⟩ : ∃ typeName,
      encodeText 2 column.typeName.value = .ok typeName := by
    rw [encode_text_returns]
    cases column.typeName <;> (unfold TextFits; decide)
  obtain ⟨size, hsize⟩ : ∃ size, pack 2 (wireEncoding column.typeName).2 = .ok size := by
    rw [pack_returns]
    cases column.typeName <;> decide
  simp only [encodeColumnV2, bind_eq_ok, htype, Except.ok.injEq]
  constructor
  · rintro ⟨_, name, hname, _, _, _, _, _, _, length, hlength, _⟩
    exact ⟨encode_text_returns.mp ⟨name, hname⟩, pack_length_returns.mp ⟨length, hlength⟩⟩
  · rintro ⟨hname, hlength⟩
    obtain ⟨name, hname⟩ := encode_text_returns.mpr hname
    obtain ⟨length, hlength⟩ := pack_length_returns.mpr hlength
    exact ⟨_, name, hname, typeName, rfl, _, rfl, size, hsize, length, hlength, rfl⟩

/-! ## Results are read back -/

/-- A result of the executor: each of its rows is of the types of its columns. -/
def Typed (result : ResultSet) : Prop :=
  ∀ row ∈ result.rows, List.Forall₂ Record.WellTyped row result.columns

/-- Every count and every length has a place in its field, and no column is declared with
length 0. -/
structure Fits (result : ResultSet) : Prop where
  columns : result.columns.length < 2 ^ 16
  names : ∀ column ∈ result.columns, TextFits column.name
  lengths : ∀ column ∈ result.columns, ∀ n, column.length = some n → 0 < n ∧ n < 2 ^ 16
  rows : result.rows.length < 2 ^ 32
  texts : ∀ row ∈ result.rows, ∀ s, Datum.str s ∈ row → TextFits s

theorem received_eq (hfits : ColumnFits column) :
    received column = column ↔ ∀ n, column.length = some n → 0 < n := by
  obtain ⟨name, typeName, length⟩ := column
  have hlength := hfits.length
  cases length with
  | none => simp [received, declared]
  | some n =>
      simp only [Option.getD_some] at hlength
      simp only [received, declared, Option.getD_some, ColumnDef.mk.injEq, true_and,
        Option.some.injEq, forall_eq']
      by_cases hn : n.toNat = 0
      · rw [if_pos hn]
        simp only [reduceCtorEq, false_iff]
        omega
      · rw [if_neg hn]
        simp only [Option.some.injEq]
        omega

section Result

variable {encodeColumn : ColumnDef → Except PyError Bytes}
  {decodeColumn : Bytes → Nat → Except PyError (ColumnDef × Nat)} {repr : Datum → String}
  {result : ResultSet}

theorem decode_result_encode_result (htyped : Typed result)
    (hcolumn : ∀ column bytes, encodeColumn column = .ok bytes →
      Decodes decodeColumn bytes (received column))
    {payload : Bytes} (h : encodeResult encodeColumn repr result = .ok payload) :
    decodeResult decodeColumn payload =
      .ok ⟨result.columns.map received, result.rows, 0⟩ := by
  obtain ⟨columnCount, hcount, h⟩ := bind_eq_ok.mp h
  obtain ⟨columns, hcolumns, h⟩ := bind_eq_ok.mp h
  obtain ⟨rowCount, hrowCount, h⟩ := bind_eq_ok.mp h
  obtain ⟨rows, hrows, h⟩ := bind_eq_ok.mp h
  cases h
  have hat : At (columnCount ++ (columns ++ (rowCount ++ rows))) 0 _ := At.start _
  have hat₁ := hat.next
  rw [length_pack hcount] at hat₁
  have hat₂ := hat₁.next
  have hat₃ : At (columnCount ++ (columns ++ (rowCount ++ rows))) (0 + 2 + columns.length + 4)
      (rows ++ []) := by
    rw [append_nil, ← length_pack hrowCount]
    exact hat₂.next
  have hrow : ∀ row ∈ result.rows, ∀ bytes, concatM (encodeValue repr) row = .ok bytes →
      Decodes (Decoder.times decodeValue result.columns.length) bytes row := by
    intro row hrow bytes hencode
    have hcells := htyped row hrow
    rw [← hcells.length_eq]
    have hdecodes := decodes_times id
      (fun value hvalue bytes hencode => by
        obtain ⟨column, _, hcell⟩ := exists_typed hcells hvalue
        exact decodes_value hcell hencode) hencode
    rw [map_id] at hdecodes
    exact hdecodes
  have hdecodeColumns := decodes_times received
    (fun column _ bytes => hcolumn column bytes) hcolumns
  have hdecodeRows := decodes_times id hrow hrows
  rw [map_id] at hdecodeRows
  rw [Nat.zero_add] at hat₁ hat₂ hat₃
  rw [decodeResult, unpackNat_at hcount hat]
  simp only [ok_bind, Int.toNat_natCast, hdecodeColumns _ _ _ hat₁, unpackNat_at hrowCount hat₂,
    length_map, hdecodeRows _ _ _ hat₃]
where
  exists_typed {row : List Datum} {columns : List ColumnDef}
      (h : List.Forall₂ Record.WellTyped row columns) {value : Datum} (hvalue : value ∈ row) :
      ∃ column, column ∈ columns ∧ Record.WellTyped value column := by
    induction h with
    | nil => cases hvalue
    | @cons v column row columns hhead htail ih =>
        rcases mem_cons.mp hvalue with rfl | hvalue
        · exact ⟨column, by simp, hhead⟩
        · obtain ⟨column', hmem, hcell⟩ := ih hvalue
          exact ⟨column', by simp [hmem], hcell⟩

theorem encode_result_returns (htyped : Typed result)
    (hcolumn : ∀ column, (∃ bytes, encodeColumn column = .ok bytes) ↔ ColumnFits column) :
    (∃ payload, encodeResult encodeColumn repr result = .ok payload) ↔
      result.columns.length < 2 ^ 16 ∧ (∀ column ∈ result.columns, ColumnFits column) ∧
        result.rows.length < 2 ^ 32 ∧ ∀ row ∈ result.rows, ∀ s, Datum.str s ∈ row → TextFits s := by
  have hcount : ∀ k n : Nat, (∃ field, pack k n = .ok field) ↔ n < 256 ^ k := by
    intro k n
    simp only [pack_returns, Int.natCast_nonneg, true_and, Int.toNat_natCast]
  have hcolumns : (∃ bytes, concatM encodeColumn result.columns = .ok bytes) ↔
      ∀ column ∈ result.columns, ColumnFits column := by
    simp only [concatM_returns, hcolumn]
  have hrows : (∃ bytes, concatM (concatM (encodeValue repr)) result.rows = .ok bytes) ↔
      ∀ row ∈ result.rows, ∀ s, Datum.str s ∈ row → TextFits s := by
    simp only [concatM_returns]
    constructor
    · intro hreturns row hrow s hs
      obtain ⟨column, _, hcell⟩ := decode_result_encode_result.exists_typed (htyped row hrow) hs
      exact (encode_value_returns hcell).mp (hreturns row hrow _ hs) s rfl
    · intro htexts row hrow value hvalue
      obtain ⟨column, _, hcell⟩ := decode_result_encode_result.exists_typed (htyped row hrow) hvalue
      refine (encode_value_returns hcell).mpr ?_
      rintro s rfl
      exact htexts row hrow s hvalue
  have hcolumnCount : (∃ field, pack 2 result.columns.length = .ok field) ↔
      result.columns.length < 2 ^ 16 := hcount 2 _
  have hrowCount : (∃ field, pack 4 result.rows.length = .ok field) ↔
      result.rows.length < 2 ^ 32 := hcount 4 _
  rw [← hcolumns, ← hrows, ← hcolumnCount, ← hrowCount]
  constructor
  · rintro ⟨payload, h⟩
    obtain ⟨columnCount, hcolumnCount, h⟩ := bind_eq_ok.mp h
    obtain ⟨columns, hcolumns, h⟩ := bind_eq_ok.mp h
    obtain ⟨rowCount, hrowCount, h⟩ := bind_eq_ok.mp h
    obtain ⟨rows, hrows, h⟩ := bind_eq_ok.mp h
    exact ⟨⟨_, hcolumnCount⟩, ⟨_, hcolumns⟩, ⟨_, hrowCount⟩, ⟨_, hrows⟩⟩
  · rintro ⟨⟨columnCount, hcolumnCount⟩, ⟨columns, hcolumns⟩, ⟨rowCount, hrowCount⟩,
      rows, hrows⟩
    simp only [encodeResult, hcolumnCount, hcolumns, hrowCount, hrows, ok_bind, Except.ok.injEq,
      exists_eq']

/-- The result comes back as it was sent. -/
def Returns (encode : ResultSet → Except PyError Bytes) (decode : Bytes → Except PyError ResultSet)
    (result : ResultSet) : Prop :=
  ∃ payload decoded, encode result = .ok payload ∧ decode payload = .ok decoded ∧
    decoded.columns = result.columns ∧ decoded.rows = result.rows

theorem returns_iff (htyped : Typed result)
    (hreturns : ∀ column, (∃ bytes, encodeColumn column = .ok bytes) ↔ ColumnFits column)
    (hdecodes : ∀ column bytes, encodeColumn column = .ok bytes →
      Decodes decodeColumn bytes (received column)) :
    Returns (encodeResult encodeColumn repr) (decodeResult decodeColumn) result ↔
      Fits result := by
  have hencode := @encode_result_returns encodeColumn repr result htyped hreturns
  constructor
  · rintro ⟨payload, decoded, hpayload, hdecoded, hcolumns, _⟩
    obtain ⟨hcount, hfits, hrows, htexts⟩ := hencode.mp ⟨payload, hpayload⟩
    rw [decode_result_encode_result htyped hdecodes hpayload, Except.ok.injEq] at hdecoded
    rw [← hdecoded] at hcolumns
    refine ⟨hcount, fun column hcolumn => (hfits column hcolumn).name, ?_, hrows, htexts⟩
    intro column hcolumn n hn
    have hreceived : received column = column :=
      map_eq_map_iff.mp (hcolumns.trans (map_id _).symm) column hcolumn
    have hlength := (hfits column hcolumn).length
    rw [hn, Option.getD_some] at hlength
    exact ⟨(received_eq (hfits column hcolumn)).mp hreceived n hn, hlength.2⟩
  · intro hfits
    have hcolumns : ∀ column ∈ result.columns, ColumnFits column := by
      intro column hcolumn
      refine ⟨hfits.names column hcolumn, ?_⟩
      cases hlength : column.length with
      | none => exact ⟨le_refl 0, by decide⟩
      | some n =>
          have hn := hfits.lengths column hcolumn n hlength
          exact ⟨hn.1.le, hn.2⟩
    obtain ⟨payload, hpayload⟩ := hencode.mpr ⟨hfits.columns, hcolumns, hfits.rows, hfits.texts⟩
    refine ⟨payload, _, hpayload, decode_result_encode_result htyped hdecodes hpayload, ?_, rfl⟩
    calc result.columns.map received
        = result.columns.map id := by
          refine map_congr_left (fun column hcolumn => ?_)
          refine (received_eq (hcolumns column hcolumn)).mpr (fun n hn => ?_)
          exact (hfits.lengths column hcolumn n hn).1
      _ = result.columns := map_id _

end Result

/-- In both versions, a result of the executor comes back from the wire as it was sent exactly
when its counts and the lengths of its names and texts fit their fields, and the declared
lengths of its columns are from 1 to 65535. -/
theorem decode_resultset_encode_resultset (repr : Datum → String) (version : Nat)
    (hversion : Supported version) (result : ResultSet) (htyped : Typed result) :
    Returns (fun result => encodeResultset repr result version)
      (fun payload => decodeResultset payload version) result ↔ Fits result := by
  rcases hversion with rfl | rfl
  · exact returns_iff htyped (fun _ => encode_column_v1_returns) (fun _ _ => decodes_column_v1)
  · exact returns_iff htyped (fun _ => encode_column_v2_returns) (fun _ _ => decodes_column_v2)

/-- One column and one row, in the current version. -/
theorem decode_resultset_encode_resultset_one_row :
    Returns (fun result => encodeResultset (fun _ => "") result VERSION)
      (fun payload => decodeResultset payload VERSION)
      ⟨[⟨"name", .VARCHAR, some 20⟩], [[.str "VLDB"]], 0⟩ := by
  have htyped : Typed ⟨[⟨"name", .VARCHAR, some 20⟩], [[.str "VLDB"]], 0⟩ := by
    intro row hrow
    rw [mem_singleton.mp hrow]
    refine List.Forall₂.cons (Record.WellTyped.varchar _ rfl ?_) List.Forall₂.nil
    intro n hn
    cases hn
    decide
  refine (decode_resultset_encode_resultset (fun _ => "") VERSION (.inr rfl) _ htyped).mpr ?_
  refine ⟨by decide, ?_, ?_, by decide, ?_⟩
  · intro column hcolumn
    rw [mem_singleton.mp hcolumn]
    unfold TextFits
    decide
  · intro column hcolumn n hn
    rw [mem_singleton.mp hcolumn] at hn
    cases hn
    decide
  · intro row hrow s hs
    rw [mem_singleton.mp hrow, mem_singleton] at hs
    cases hs
    unfold TextFits
    decide

/-- An empty result with a column VARCHAR(65536) is not encoded. -/
theorem long_varchar_not_encoded :
    ¬ ∀ (repr : Datum → String) (version : Nat), Supported version → ∀ result, Typed result →
      Returns (fun result => encodeResultset repr result version)
        (fun payload => decodeResultset payload version) result := by
  intro hall
  have htyped : Typed ⟨[⟨"body", .VARCHAR, some 65536⟩], [], 0⟩ := by
    intro row hrow
    cases hrow
  obtain ⟨payload, _, hpayload, _⟩ := hall (fun _ => "") VERSION (.inr rfl) _ htyped
  have herror : encodeResultset (fun _ => "") ⟨[⟨"body", .VARCHAR, some 65536⟩], [], 0⟩ VERSION =
      .error (.StructError "argument out of range") := rfl
  dsimp only at hpayload
  rw [herror] at hpayload
  cases hpayload

end Protocol
end SoupDB
