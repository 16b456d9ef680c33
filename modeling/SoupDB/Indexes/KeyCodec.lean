import SoupDB.Common.Pack

/-!
# SoupDB: the codec of index keys

`encodeKey` writes a key as a type tag and a payload: 64-bit integers, UTF-8
strings with their length, and tuples with their count and the length of each
item.  NULL, booleans and floats are refused.  `decodeKey` reads such a key back
and checks that no byte is left.

Main fact: `decode_key_encode_key`, decoding an encoded key gives the key.
-/

namespace SoupDB.KeyCodec

open Pack

/-- `b"i"`. -/
def INT_TAG : UInt8 := 105
/-- `b"s"`. -/
def STR_TAG : UInt8 := 115
/-- `b"t"`. -/
def TUPLE_TAG : UInt8 := 116

def encodeUtf8 (s : String) : Bytes := s.toUTF8.data.toList

/-- The string that UTF-8 bytes denote, if they are valid. -/
def decodeUtf8 (data : Bytes) : Option String := String.fromUTF8? (ByteArray.mk data.toArray)

theorem decodeUtf8_encodeUtf8 (s : String) : decodeUtf8 (encodeUtf8 s) = some s := by
  unfold decodeUtf8 encodeUtf8 String.fromUTF8?
  simp [String.fromUTF8, String.toUTF8, s.isValidUTF8]

theorem encodeUtf8_eq_flatMap (s : String) :
    encodeUtf8 s = s.toList.flatMap String.utf8EncodeChar := by
  rw [encodeUtf8, String.toUTF8, ← String.utf8Encode_toList]
  simp [List.utf8Encode]

/-- A character is encoded in at most four bytes. -/
theorem length_encodeUtf8_le (s : String) : (encodeUtf8 s).length ≤ 4 * s.length := by
  rw [encodeUtf8_eq_flatMap, ← String.length_toList]
  induction s.toList with
  | nil => exact le_refl 0
  | cons c cs ih =>
      have hsize := c.utf8Size_le_four
      rw [List.flatMap_cons, List.length_append, String.length_utf8EncodeChar, List.length_cons]
      omega

/-- A character is encoded in at least one byte. -/
theorem length_le_encodeUtf8 (s : String) : s.toList.length ≤ (encodeUtf8 s).length := by
  rw [encodeUtf8_eq_flatMap]
  induction s.toList with
  | nil => exact le_refl 0
  | cons c cs ih =>
      have hpos := Char.utf8Size_pos c
      rw [List.flatMap_cons, List.length_append, String.length_utf8EncodeChar, List.length_cons]
      omega

theorem encodeUtf8_of_decodeUtf8 {data : Bytes} {s : String} (h : decodeUtf8 data = some s) :
    encodeUtf8 s = data := by
  unfold decodeUtf8 String.fromUTF8? at h
  split at h
  · cases h
    simp [encodeUtf8, String.toUTF8, String.fromUTF8]
  · cases h

/-- The part of a tuple's encoding that holds its items, each after its length. -/
def joinItems : List Bytes → Except PyError Bytes
  | [] => .ok []
  | item :: items => do
      let length ← packU 4 item.length
      let rest ← joinItems items
      .ok (length ++ item ++ rest)

mutual

/-- Encode a supported index key into a deterministic binary representation. -/
def encodeKey : Value → Except PyError Bytes
  | .bool _ => .error (.TypeError "bool keys are not supported")
  | .int i =>
      match packI 8 i with
      | .ok payload => .ok (INT_TAG :: payload)
      | .error _ => .error (.ValueError "integer key is outside signed 64-bit range")
  | .str s => do
      let payload := encodeUtf8 s
      let length ← packU 4 payload.length
      .ok (STR_TAG :: (length ++ payload))
  | .tuple items => do
      let encodedItems ← encodeItems items
      let count ← packU 4 encodedItems.length
      let body ← joinItems encodedItems
      .ok (TUPLE_TAG :: (count ++ body))
  | .null => .error (.TypeError "unsupported index key type: NoneType")
  | .float _ => .error (.TypeError "unsupported index key type: float")

def encodeItems : List Value → Except PyError (List Bytes)
  | [] => .ok []
  | v :: vs => do
      let item ← encodeKey v
      let rest ← encodeItems vs
      .ok (item :: rest)

end

def readLength (data : Bytes) : Except PyError (Nat × Bytes) := do
  let (field, rest) ← take 4 data "truncated key length"
  .ok (unpackLE field, rest)

/-- `count` items of a tuple, each decoded by `decode` from exactly its own bytes. -/
def decodeItems (decode : Bytes → Except PyError (Value × Bytes)) :
    Nat → Bytes → Except PyError (List Value × Bytes)
  | 0, data => .ok ([], data)
  | count + 1, data => do
      let (itemLength, data) ← readLength data
      let (field, data) ← take itemLength data "truncated composite key"
      let (item, unread) ← decode field
      if unread ≠ [] then .error (.ValueError "invalid composite key item")
      else do
        let (items, data) ← decodeItems decode count data
        .ok (item :: items, data)

/-- One key at the start of `data` and the bytes after it.  The first argument bounds
the nesting of tuples, the number of bytes being enough. -/
def decodeFrom : Nat → Bytes → Except PyError (Value × Bytes)
  | _, [] => .error (.ValueError "missing key type tag")
  | 0, _ :: _ => .error (.ValueError "missing key type tag")
  | depth + 1, tag :: data =>
      if tag = INT_TAG then do
        let (field, rest) ← take 8 data "truncated integer key"
        .ok (.int (unpackI 8 field), rest)
      else if tag = STR_TAG then do
        let (length, data) ← readLength data
        let (field, rest) ← take length data "truncated string key"
        match decodeUtf8 field with
        | some s => .ok (.str s, rest)
        | none => .error (.ValueError "invalid utf-8 string key")
      else if tag = TUPLE_TAG then do
        let (count, data) ← readLength data
        let (items, rest) ← decodeItems (decodeFrom depth) count data
        .ok (.tuple items, rest)
      else .error (.ValueError "unknown key type tag")

/-- Decode a key previously produced by `encodeKey`. -/
def decodeKey (data : Bytes) : Except PyError Value := do
  let (key, unread) ← decodeFrom data.length data
  if unread ≠ [] then .error (.ValueError "unexpected trailing bytes in encoded key")
  else .ok key

theorem readLength_append {n : Nat} {field : Bytes} (h : packU 4 n = .ok field)
    (rest : Bytes) : readLength (field ++ rest) = .ok (n, rest) := by
  unfold readLength
  simp only [take_append _ (length_packU h), ok_bind, unpackLE_of_packU h]

/-- What `encodeKey` returned for an integer. -/
theorem encode_key_int {i : Int} {bs : Bytes} (h : encodeKey (.int i) = .ok bs) :
    ∃ payload, packI 8 i = .ok payload ∧ bs = INT_TAG :: payload := by
  cases hp : packI 8 i with
  | error e => simp [encodeKey, hp] at h
  | ok payload =>
      simp only [encodeKey, hp, Except.ok.injEq] at h
      exact ⟨payload, rfl, h.symm⟩

mutual

theorem decodeFrom_encode_key : ∀ (v : Value) (bs rest : Bytes) (depth : Nat),
    encodeKey v = .ok bs → bs.length ≤ depth →
      decodeFrom depth (bs ++ rest) = .ok (v, rest)
  | .bool _, _, _, _, h, _ => by simp [encodeKey] at h
  | .null, _, _, _, h, _ => by simp [encodeKey] at h
  | .float _, _, _, _, h, _ => by simp [encodeKey] at h
  | .int i, bs, rest, depth, h, hd => by
      obtain ⟨payload, hp, rfl⟩ := encode_key_int h
      obtain ⟨n, rfl⟩ : ∃ n, depth = n + 1 := ⟨depth - 1, by simp at hd; omega⟩
      simp only [List.cons_append, decodeFrom, if_true]
      rw [take_append _ (length_packI hp), ok_bind,
        unpackI_of_packI (by omega) hp]
  | .str s, bs, rest, depth, h, hd => by
      simp only [encodeKey, bind_eq_ok, Except.ok.injEq] at h
      obtain ⟨length, hl, rfl⟩ := h
      obtain ⟨n, rfl⟩ : ∃ n, depth = n + 1 := ⟨depth - 1, by simp at hd; omega⟩
      have htag : STR_TAG ≠ INT_TAG := by decide
      simp only [List.cons_append, decodeFrom, htag, if_false, if_true, List.append_assoc]
      rw [readLength_append hl, ok_bind]
      simp only [take_append _ rfl, ok_bind, decodeUtf8_encodeUtf8]
  | .tuple items, bs, rest, depth, h, hd => by
      simp only [encodeKey, bind_eq_ok, Except.ok.injEq] at h
      obtain ⟨encoded, he, count, hc, body, hb, rfl⟩ := h
      obtain ⟨n, rfl⟩ : ∃ n, depth = n + 1 := ⟨depth - 1, by simp at hd; omega⟩
      have htag : TUPLE_TAG ≠ INT_TAG := by decide
      have htag' : TUPLE_TAG ≠ STR_TAG := by decide
      simp only [List.cons_append, decodeFrom, htag, htag', if_false, if_true, List.append_assoc]
      rw [readLength_append hc, ok_bind]
      have hbody : body.length ≤ n := by
        simp only [List.length_cons, List.length_append] at hd
        omega
      simp only [decodeItems_encode_items items encoded body rest n he hb hbody, ok_bind]

theorem decodeItems_encode_items : ∀ (vs : List Value) (encoded : List Bytes)
    (body rest : Bytes) (depth : Nat),
    encodeItems vs = .ok encoded → joinItems encoded = .ok body → body.length ≤ depth →
      decodeItems (decodeFrom depth) encoded.length (body ++ rest) = .ok (vs, rest)
  | [], encoded, body, rest, depth, he, hb, _ => by
      simp only [encodeItems, Except.ok.injEq] at he
      subst he
      simp only [joinItems, Except.ok.injEq] at hb
      subst hb
      rfl
  | v :: vs, encoded, body, rest, depth, he, hb, hd => by
      simp only [encodeItems, bind_eq_ok, Except.ok.injEq] at he
      obtain ⟨item, hi, items, hitems, rfl⟩ := he
      simp only [joinItems, bind_eq_ok, Except.ok.injEq] at hb
      obtain ⟨length, hl, body', hb', rfl⟩ := hb
      simp only [List.length_append] at hd
      have hitem := decodeFrom_encode_key v item [] depth hi (by omega)
      rw [List.append_nil] at hitem
      have hrest := decodeItems_encode_items vs items body' rest depth hitems hb' (by omega)
      simp only [List.length_cons, decodeItems, List.append_assoc]
      rw [readLength_append hl, ok_bind]
      simp only [take_append _ rfl, ok_bind, hitem, ne_eq, not_true_eq_false, if_false,
        hrest]

end

theorem decode_key_encode_key {v : Value} {bs : Bytes} (h : encodeKey v = .ok bs) :
    decodeKey bs = .ok v := by
  have hd := decodeFrom_encode_key v bs [] bs.length h le_rfl
  rw [List.append_nil] at hd
  simp [decodeKey, hd]

mutual

/-- There is no NaN in a key that can be encoded. -/
theorem eq_self_of_encode_key : ∀ {v : Value} {bs : Bytes}, encodeKey v = .ok bs →
    Value.eq v v = true
  | .null, _, h => by simp [encodeKey] at h
  | .bool _, _, h => by simp [encodeKey] at h
  | .float _, _, h => by simp [encodeKey] at h
  | .int _, _, _ => Value.eq_int.mpr rfl
  | .str _, _, _ => by simp [Value.eq]
  | .tuple items, _, h => by
      simp only [encodeKey, bind_eq_ok] at h
      obtain ⟨encoded, hencoded, _⟩ := h
      simpa only [Value.eq] using eq_self_of_encode_items hencoded

theorem eq_self_of_encode_items : ∀ {vs : List Value} {encoded : List Bytes},
    encodeItems vs = .ok encoded → Value.eqItems vs vs = true
  | [], _, _ => by simp [Value.eqItems]
  | v :: vs, _, h => by
      simp only [encodeItems, bind_eq_ok] at h
      obtain ⟨item, hitem, rest, hrest, _⟩ := h
      simp only [Value.eqItems, eq_self_of_encode_key hitem, eq_self_of_encode_items hrest,
        Bool.and_self]

end

mutual

theorem eq_of_encode_key : ∀ {a b : Value} {bs bs' : Bytes}, Value.eq a b = true →
    encodeKey a = .ok bs → encodeKey b = .ok bs' → a = b
  | .null, _, _, _, _, h, _ => by simp [encodeKey] at h
  | .bool _, _, _, _, _, h, _ => by simp [encodeKey] at h
  | .float _, _, _, _, _, h, _ => by simp [encodeKey] at h
  | .int i, b, _, _, heq, _, h' => by
      cases b with
      | int j => rw [Value.eq_int.mp heq]
      | null => simp [encodeKey] at h'
      | bool _ => simp [encodeKey] at h'
      | float _ => simp [encodeKey] at h'
      | str _ => simp [Value.eq, Value.number?, Value.numbersEq] at heq
      | tuple _ => simp [Value.eq, Value.number?, Value.numbersEq] at heq
  | .str s, b, _, _, heq, _, _ => by
      rcases Value.eq_cases heq with ⟨ha, _⟩ | ⟨_, ha, hb⟩ | ⟨_, _, ha, _⟩ | ⟨_, ha, _⟩
      · cases ha
      · rw [ha, hb]
      · cases ha
      · cases ha
  | .tuple as, b, _, _, heq, h, h' => by
      rcases Value.eq_cases heq with ⟨ha, _⟩ | ⟨_, ha, _⟩ | ⟨as', bs, ha, hb, hitems⟩ | ⟨_, ha, _⟩
      · cases ha
      · cases ha
      · cases ha
        subst hb
        simp only [encodeKey, bind_eq_ok] at h h'
        obtain ⟨encoded, hencoded, _⟩ := h
        obtain ⟨encoded', hencoded', _⟩ := h'
        exact congrArg Value.tuple (eq_of_encode_items hitems hencoded hencoded')
      · cases ha

theorem eq_of_encode_items : ∀ {as bs : List Value} {encoded encoded' : List Bytes},
    Value.eqItems as bs = true → encodeItems as = .ok encoded →
      encodeItems bs = .ok encoded' → as = bs
  | [], [], _, _, _, _, _ => rfl
  | [], _ :: _, _, _, heq, _, _ => by simp [Value.eqItems] at heq
  | _ :: _, [], _, _, heq, _, _ => by simp [Value.eqItems] at heq
  | a :: as, b :: bs, _, _, heq, h, h' => by
      simp only [Value.eqItems, Bool.and_eq_true] at heq
      simp only [encodeItems, bind_eq_ok] at h h'
      obtain ⟨item, hitem, rest, hrest, _⟩ := h
      obtain ⟨item', hitem', rest', hrest', _⟩ := h'
      rw [eq_of_encode_key heq.1 hitem hitem', eq_of_encode_items heq.2 hrest hrest']

end

end SoupDB.KeyCodec
