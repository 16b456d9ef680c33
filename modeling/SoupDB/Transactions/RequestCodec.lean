import SoupDB.Transactions.Protocol

/-!
# SoupDB: what the decoders of requests accept

A decoder reads its fields by slices, and a slice past the end of the payload is short without
an error.  `ReadsValue` says what `decodeValue` reads, tag by tag, `valueEnd` where the value
ends by its tag and its length field.  `ValueReadable` is what the decoder asks for, and
`ValueComplete` what it leaves unchecked: that the value ends inside the payload and a boolean
is written as 0 or 1.

Main fact: `request_decoders_exact`, what a decoder returns is encoded to the payload exactly
when every value is complete and the payload ends behind the last field.
-/

namespace SoupDB.Protocol

open List

open KeyCodec (encodeUtf8 decodeUtf8 decodeUtf8_encodeUtf8 encodeUtf8_of_decodeUtf8)

/-! ## The encoders of requests -/

def encodePrepare (name sql : String) : Except PyError Bytes := do
  let name ← encodeText 2 name
  let sql ← encodeText 4 sql
  .ok (name ++ sql)

def encodeExecute (repr : Datum → String) (name : String) (params : List Datum) :
    Except PyError Bytes := do
  let name ← encodeText 2 name
  let count ← pack 2 params.length
  let values ← concatM (encodeValue repr) params
  .ok (name ++ (count ++ values))

/-! ## Fields -/

/-- The number in a length field, or in what is left of it. -/
def field (size : Nat) (data : Bytes) (offset : Nat) : Nat :=
  Pack.unpackLE (slice data offset size).reverse

section Fields

variable {data bytes rest : Bytes} {offset size n next : Nat} {s : String}

theorem unpack_from_eq_ok : unpackFrom size data offset = .ok bytes ↔
    offset + size ≤ data.length ∧ bytes = slice data offset size := by
  rw [unpackFrom]
  split
  · next hle =>
      rw [Except.ok.injEq, slice]
      exact ⟨fun h => ⟨hle, h.symm⟩, fun h => h.2.symm⟩
  · next hnot =>
      constructor
      · intro h
        cases h
      · intro h
        exact absurd h.1 hnot

theorem unpackNat_eq_ok : unpackNat size data offset = .ok n ↔
    offset + size ≤ data.length ∧ n = field size data offset := by
  simp only [unpackNat, bind_eq_ok, unpack_from_eq_ok, Except.ok.injEq]
  constructor
  · rintro ⟨_, ⟨hle, rfl⟩, rfl⟩
    exact ⟨hle, rfl⟩
  · rintro ⟨hle, rfl⟩
    exact ⟨_, ⟨hle, rfl⟩, rfl⟩

theorem utf8Text_eq_ok : utf8Text bytes = .ok s ↔ decodeUtf8 bytes = some s := by
  rw [utf8Text]
  cases decodeUtf8 bytes with
  | none => simp
  | some s' => simp

theorem length_slice (h : offset + size ≤ data.length) :
    (slice data offset size).length = size := by
  rw [slice, length_take, length_drop, Nat.min_eq_left (by omega)]

theorem field_lt (h : offset + size ≤ data.length) : field size data offset < 256 ^ size := by
  have hlt := Pack.unpackLE_lt (slice data offset size).reverse
  rwa [length_reverse, length_slice h] at hlt

theorem pack_field (h : offset + size ≤ data.length) :
    pack size (field size data offset : Nat) = .ok (slice data offset size) := by
  have hback := Pack.packLE_unpackLE (slice data offset size).reverse
  rw [length_reverse, length_slice h] at hback
  refine pack_eq_ok.mpr ⟨Int.natCast_nonneg _, field_lt h, ?_⟩
  rw [Int.toNat_natCast, field, hback, reverse_reverse]

/-- A text that is read: the decoder does not ask for its bytes to be inside the data. -/
def TextReadable (size : Nat) (data : Bytes) (offset : Nat) : Prop :=
  offset + size ≤ data.length ∧
    (decodeUtf8 (slice data (offset + size) (field size data offset))).isSome = true

/-- Where a text ends by its length field. -/
def textEnd (size : Nat) (data : Bytes) (offset : Nat) : Nat :=
  offset + size + field size data offset

theorem decode_text_eq_ok : decodeText size data offset = .ok (s, next) ↔
    offset + size ≤ data.length ∧
      decodeUtf8 (slice data (offset + size) (field size data offset)) = some s ∧
        next = textEnd size data offset := by
  simp only [decodeText, bind_eq_ok, unpackNat_eq_ok, utf8Text_eq_ok, Except.ok.injEq,
    Prod.mk.injEq]
  constructor
  · rintro ⟨_, ⟨hle, rfl⟩, _, htext, rfl, rfl⟩
    exact ⟨hle, htext, rfl⟩
  · rintro ⟨hle, htext, rfl⟩
    exact ⟨_, ⟨hle, rfl⟩, s, htext, rfl, rfl⟩

theorem decode_text_returns : (∃ read, decodeText size data offset = .ok read) ↔
    TextReadable size data offset := by
  simp only [Prod.exists, decode_text_eq_ok, TextReadable, Option.isSome_iff_exists,
    exists_and_left, exists_eq, and_true]

theorem encode_text_stands (hle : offset + size ≤ data.length)
    (htext : decodeUtf8 (slice data (offset + size) (field size data offset)) = some s)
    (hend : textEnd size data offset ≤ data.length) :
    ∃ bytes, encodeText size s = .ok bytes ∧
      Stands data offset bytes (textEnd size data offset) := by
  have hbytes := encodeUtf8_of_decodeUtf8 htext
  have hlength : (encodeUtf8 s).length = field size data offset := by
    rw [hbytes]
    exact length_slice hend
  refine ⟨slice data offset size ++ encodeUtf8 s, ?_, ?_⟩
  · refine encode_text_eq_ok.mpr ⟨_, ?_, rfl⟩
    rw [hlength]
    exact pack_field hle
  · rw [hbytes]
    exact (Stands.slice hle).append (Stands.slice hend)

theorem text_end_of_encoded (hencode : encodeText size s = .ok bytes)
    (hat : At data offset (bytes ++ rest)) :
    decodeText size data offset = .ok (s, textEnd size data offset) ∧
      textEnd size data offset = offset + bytes.length := by
  have hdecode := decodes_text hencode data offset rest hat
  obtain ⟨_, _, hend⟩ := decode_text_eq_ok.mp hdecode
  rw [← hend]
  exact ⟨hdecode, rfl⟩

end Fields

/-! ## Values -/

inductive ReadsValue (data : Bytes) (offset : Nat) : Datum → Nat → Prop
  | null : data[offset]? = some TAG_NULL → ReadsValue data offset .null (offset + 1)
  | int : data[offset]? = some TAG_INT → offset + 1 + 4 ≤ data.length →
      ReadsValue data offset (.int (Pack.unpackI 4 (slice data (offset + 1) 4).reverse))
        (offset + 1 + 4)
  | float : data[offset]? = some TAG_FLOAT → offset + 1 + 8 ≤ data.length →
      ReadsValue data offset (.float (unpackDouble (slice data (offset + 1) 8))) (offset + 1 + 8)
  | text (s : String) : data[offset]? = some TAG_TEXT → offset + 1 + 2 ≤ data.length →
      decodeUtf8 (slice data (offset + 1 + 2) (field 2 data (offset + 1))) = some s →
      ReadsValue data offset (.str s) (textEnd 2 data (offset + 1))
  | bool (b : UInt8) : data[offset]? = some TAG_BOOL → data[offset + 1]? = some b →
      ReadsValue data offset (.bool (b ≠ 0)) (offset + 1 + 1)
  | point : data[offset]? = some TAG_POINT → offset + 1 + 16 ≤ data.length →
      ReadsValue data offset
        (.tuple [.float (unpackDouble ((slice data (offset + 1) 16).take 8)),
          .float (unpackDouble ((slice data (offset + 1) 16).drop 8))]) (offset + 1 + 16)
  | bytes : data[offset]? = some TAG_BYTES → offset + 1 + 4 ≤ data.length →
      ReadsValue data offset
        (.bytes (slice data (offset + 1 + 4) (field 4 data (offset + 1))))
        (textEnd 4 data (offset + 1))

/-- Where a value ends by its tag and its length field. -/
def valueEnd (data : Bytes) (offset : Nat) : Nat :=
  let tag := data.getD offset 0
  if tag = TAG_INT then offset + 1 + 4
  else if tag = TAG_FLOAT then offset + 1 + 8
  else if tag = TAG_TEXT then textEnd 2 data (offset + 1)
  else if tag = TAG_BOOL then offset + 1 + 1
  else if tag = TAG_POINT then offset + 1 + 16
  else if tag = TAG_BYTES then textEnd 4 data (offset + 1)
  else offset + 1

/-- What `decodeValue` asks for. -/
def ValueReadable (data : Bytes) (offset : Nat) : Prop :=
  ∃ value next, ReadsValue data offset value next

/-- The value ends inside the data, and a boolean is written as it is encoded. -/
structure ValueComplete (data : Bytes) (offset : Nat) : Prop where
  inside : valueEnd data offset ≤ data.length
  bool : data[offset]? = some TAG_BOOL → data[offset + 1]? = some 0 ∨ data[offset + 1]? = some 1

section Values

variable {data bytes rest : Bytes} {offset next : Nat} {value : Datum} {repr : Datum → String}

theorem unpackNat_tag {tag : Nat} : unpackNat 1 data offset = .ok tag ↔
    ∃ b, data[offset]? = some b ∧ tag = b.toNat := by
  rw [unpackNat_eq_ok]
  constructor
  · rintro ⟨hle, rfl⟩
    have hlt : offset < data.length := hle
    refine ⟨data[offset], getElem?_eq_getElem hlt, ?_⟩
    rw [field, slice, drop_eq_getElem_cons hlt, take_succ_cons, take_zero]
    simp [Pack.unpackLE]
  · rintro ⟨b, hb, rfl⟩
    obtain ⟨hlt, rfl⟩ := List.getElem?_eq_some_iff.mp hb
    refine ⟨hlt, ?_⟩
    rw [field, slice, drop_eq_getElem_cons hlt, take_succ_cons, take_zero]
    simp [Pack.unpackLE]

theorem decode_value_eq_ok :
    decodeValue data offset = .ok (value, next) ↔ ReadsValue data offset value next := by
  constructor
  · intro h
    obtain ⟨tag, htag, h⟩ := bind_eq_ok.mp h
    obtain ⟨b, hb, rfl⟩ := unpackNat_tag.mp htag
    dsimp only at h
    split at h
    · next heq =>
      cases h
      exact .null (by rw [hb, UInt8.toNat_inj.mp heq])
    split at h
    · next heq =>
      simp only [bind_eq_ok, unpack_from_eq_ok, Except.ok.injEq, Prod.mk.injEq] at h
      obtain ⟨_, ⟨hle, rfl⟩, rfl, rfl⟩ := h
      exact .int (by rw [hb, UInt8.toNat_inj.mp heq]) hle
    split at h
    · next heq =>
      simp only [bind_eq_ok, unpack_from_eq_ok, Except.ok.injEq, Prod.mk.injEq] at h
      obtain ⟨_, ⟨hle, rfl⟩, rfl, rfl⟩ := h
      exact .float (by rw [hb, UInt8.toNat_inj.mp heq]) hle
    split at h
    · next heq =>
      simp only [bind_eq_ok, Prod.exists, decode_text_eq_ok, Except.ok.injEq, Prod.mk.injEq] at h
      obtain ⟨s, _, ⟨hle, htext, rfl⟩, rfl, rfl⟩ := h
      exact .text s (by rw [hb, UInt8.toNat_inj.mp heq]) hle htext
    split at h
    · next heq =>
      cases hnext : data[offset + 1]? with
      | none =>
          rw [hnext] at h
          cases h
      | some c =>
          rw [hnext] at h
          cases h
          exact .bool c (by rw [hb, UInt8.toNat_inj.mp heq]) hnext
    split at h
    · next heq =>
      simp only [bind_eq_ok, unpack_from_eq_ok, Except.ok.injEq, Prod.mk.injEq] at h
      obtain ⟨_, ⟨hle, rfl⟩, rfl, rfl⟩ := h
      exact .point (by rw [hb, UInt8.toNat_inj.mp heq]) hle
    split at h
    · next heq =>
      simp only [bind_eq_ok, unpackNat_eq_ok, Except.ok.injEq, Prod.mk.injEq] at h
      obtain ⟨_, ⟨hle, rfl⟩, rfl, rfl⟩ := h
      exact .bytes (by rw [hb, UInt8.toNat_inj.mp heq]) hle
    · cases h
  · intro h
    have htag : ∀ {b : UInt8}, data[offset]? = some b →
        unpackNat 1 data offset = .ok b.toNat := fun hb => unpackNat_tag.mpr ⟨_, hb, rfl⟩
    cases h with
    | null hb =>
        rw [decodeValue, htag hb]
        rfl
    | int hb hle =>
        have hfield := unpack_from_eq_ok.mpr ⟨hle, rfl⟩
        rw [decodeValue, htag hb]
        simp [hfield, TAG_NULL, TAG_INT]
    | float hb hle =>
        have hfield := unpack_from_eq_ok.mpr ⟨hle, rfl⟩
        rw [decodeValue, htag hb]
        simp [hfield, TAG_NULL, TAG_INT, TAG_FLOAT]
    | text s hb hle htext =>
        have hfield := decode_text_eq_ok.mpr ⟨hle, htext, rfl⟩
        rw [decodeValue, htag hb]
        simp [hfield, TAG_NULL, TAG_INT, TAG_FLOAT, TAG_TEXT]
    | bool c hb hc =>
        rw [decodeValue, htag hb]
        simp [hc, TAG_NULL, TAG_INT, TAG_FLOAT, TAG_TEXT, TAG_BOOL]
    | point hb hle =>
        have hfield := unpack_from_eq_ok.mpr ⟨hle, rfl⟩
        rw [decodeValue, htag hb]
        simp [hfield, TAG_NULL, TAG_INT, TAG_FLOAT, TAG_TEXT, TAG_BOOL, TAG_POINT]
    | bytes hb hle =>
        have hfield := unpackNat_eq_ok.mpr ⟨hle, rfl⟩
        rw [decodeValue, htag hb]
        simp [hfield, textEnd, TAG_NULL, TAG_INT, TAG_FLOAT, TAG_TEXT, TAG_BOOL, TAG_POINT,
          TAG_BYTES]

theorem packDouble_unpackDouble {raw : Bytes} (h : raw.length = 8) :
    packDouble (unpackDouble raw) = raw := by
  have hreverse : raw.reverse.length = 8 := by rw [length_reverse, h]
  rw [packDouble, unpackDouble, Record.packDouble_unpackDouble hreverse, reverse_reverse]

theorem ReadsValue.next_eq (h : ReadsValue data offset value next) :
    next = valueEnd data offset := by
  cases h with
  | null hb =>
      simp [valueEnd, hb, TAG_NULL, TAG_INT, TAG_FLOAT, TAG_TEXT, TAG_BOOL, TAG_POINT, TAG_BYTES]
  | int hb _ => simp [valueEnd, hb]
  | float hb _ => simp [valueEnd, hb, TAG_INT, TAG_FLOAT]
  | text s hb _ _ => simp [valueEnd, hb, TAG_INT, TAG_FLOAT, TAG_TEXT]
  | bool c hb _ => simp [valueEnd, hb, TAG_INT, TAG_FLOAT, TAG_TEXT, TAG_BOOL]
  | point hb _ => simp [valueEnd, hb, TAG_INT, TAG_FLOAT, TAG_TEXT, TAG_BOOL, TAG_POINT]
  | bytes hb _ =>
      simp [valueEnd, hb, TAG_INT, TAG_FLOAT, TAG_TEXT, TAG_BOOL, TAG_POINT, TAG_BYTES]

theorem stands_tag {b : UInt8} (hb : data[offset]? = some b) :
    Stands data offset [b] (offset + 1) := by
  obtain ⟨hlt, rfl⟩ := List.getElem?_eq_some_iff.mp hb
  exact ⟨rfl, hlt, drop_eq_getElem_cons hlt⟩

theorem ReadsValue.stands (h : ReadsValue data offset value next)
    (hcomplete : ValueComplete data offset) :
    ∃ bytes, encodeValue repr value = .ok bytes ∧ Stands data offset bytes next := by
  have hinside : next ≤ data.length := by
    rw [h.next_eq]
    exact hcomplete.inside
  cases h with
  | null hb => exact ⟨_, rfl, stands_tag hb⟩
  | int hb hle =>
      have hlength : (slice data (offset + 1) 4).reverse.length = 4 := by
        rw [length_reverse, length_slice hle]
      refine ⟨TAG_INT :: slice data (offset + 1) 4, ?_, (stands_tag hb).append (Stands.slice hle)⟩
      simp only [encodeValue, packInt, Pack.packI_unpackI (by decide : 0 < 4) hlength, ok_bind,
        reverse_reverse]
  | float hb hle =>
      refine ⟨TAG_FLOAT :: slice data (offset + 1) 8, ?_,
        (stands_tag hb).append (Stands.slice hle)⟩
      rw [encodeValue, packDouble_unpackDouble (length_slice hle)]
  | text s hb hle htext =>
      obtain ⟨bytes, hbytes, hstands⟩ := encode_text_stands hle htext hinside
      refine ⟨TAG_TEXT :: bytes, ?_, (stands_tag hb).append hstands⟩
      simp only [encodeValue, hbytes, ok_bind]
  | bool c hb hc =>
      have hplain := hcomplete.bool hb
      rw [hc, Option.some.injEq, Option.some.injEq] at hplain
      have hbyte : (if decide (c ≠ 0) = true then 1 else 0 : UInt8) = c := by
        rcases hplain with rfl | rfl <;> rfl
      refine ⟨[TAG_BOOL, c], ?_, (stands_tag hb).append (stands_tag hc)⟩
      rw [encodeValue, hbyte]
  | point hb hle =>
      have hlength := length_slice hle
      have hx : ((slice data (offset + 1) 16).take 8).length = 8 := by
        rw [length_take, hlength]
        rfl
      have hy : ((slice data (offset + 1) 16).drop 8).length = 8 := by
        rw [length_drop, hlength]
      refine ⟨TAG_POINT :: slice data (offset + 1) 16, ?_,
        (stands_tag hb).append (Stands.slice hle)⟩
      simp only [encodeValue, Datum.point?, Datum.coordinate?, ok_bind,
        packDouble_unpackDouble hx, packDouble_unpackDouble hy, take_append_drop]
  | bytes hb hle =>
      have hlength := length_slice hinside
      refine ⟨TAG_BYTES :: (slice data (offset + 1) 4 ++
        slice data (offset + 1 + 4) (field 4 data (offset + 1))), ?_,
        (stands_tag hb).append ((Stands.slice hle).append (Stands.slice hinside))⟩
      simp only [encodeValue, hlength, pack_field hle, ok_bind]

theorem ReadsValue.complete (h : ReadsValue data offset value next)
    (hencode : encodeValue repr value = .ok bytes) (hstands : Stands data offset bytes next) :
    ValueComplete data offset := by
  refine ⟨h.next_eq ▸ hstands.le, ?_⟩
  intro htag
  cases h with
  | bool c hb hc =>
      cases hencode
      have hsecond : data[offset + 1]? = some (if decide (c ≠ 0) = true then 1 else 0) := by
        rw [← head?_drop, ← drop_drop, hstands.drop]
        rfl
      by_cases hzero : c = 0
      · left
        rw [hsecond, hzero]
        rfl
      · right
        rw [hsecond]
        simp [hzero]
  | null hb =>
      rw [hb] at htag
      exact absurd htag (by decide)
  | int hb _ =>
      rw [hb] at htag
      exact absurd htag (by decide)
  | float hb _ =>
      rw [hb] at htag
      exact absurd htag (by decide)
  | text s hb _ _ =>
      rw [hb] at htag
      exact absurd htag (by decide)
  | point hb _ =>
      rw [hb] at htag
      exact absurd htag (by decide)
  | bytes hb _ =>
      rw [hb] at htag
      exact absurd htag (by decide)

theorem ReadsValue.next_of_encoded (h : ReadsValue data offset value next)
    (hencode : encodeValue repr value = .ok bytes) (hat : At data offset (bytes ++ rest)) :
    Stands data offset bytes next := by
  have hnext : next = offset + bytes.length := by
    have htyped : ∀ column, Record.WellTyped value column → next = offset + bytes.length := by
      intro column hcolumn
      have hdecode := decodes_value hcolumn hencode data offset rest hat
      rw [decode_value_eq_ok.mpr h, Except.ok.injEq, Prod.mk.injEq] at hdecode
      exact hdecode.2
    cases h with
    | null _ => exact htyped ⟨"", .INT, none⟩ (.null _)
    | int _ hle =>
        have hlength : (slice data (offset + 1) 4).reverse.length = 4 := by
          rw [length_reverse, length_slice hle]
        exact htyped ⟨"", .INT, none⟩ (.int _ rfl (Pack.unpackI_range (by decide) hlength))
    | float _ _ => exact htyped ⟨"", .FLOAT, none⟩ (.float _ rfl)
    | text s _ _ _ => exact htyped ⟨"", .TEXT, none⟩ (.text s rfl)
    | bool c _ _ => exact htyped ⟨"", .BOOL, none⟩ (.bool _ rfl)
    | point _ _ => exact htyped ⟨"", .POINT, none⟩ (.point _ _ rfl)
    | bytes hb hle =>
        generalize slice data (offset + 1 + 4) (field 4 data (offset + 1)) = raw at hencode
        obtain ⟨length, hpack, hbytes⟩ := bind_eq_ok.mp hencode
        cases hbytes
        obtain ⟨_, hnext⟩ := unpack_tag hat
        rw [append_assoc] at hnext
        obtain ⟨_, hfield⟩ := unpackNat_eq_ok.mp (unpackNat_at hpack hnext)
        rw [textEnd, ← hfield, Int.toNat_natCast, length_cons, length_append,
          length_pack hpack]
        omega
  subst hnext
  refine ⟨rfl, hat.next.le, ?_⟩
  rw [hat.next.drop]
  exact hat.drop

end Values

/-! ## Parameters -/

/-- So many values can be read, each behind the end of the one before. -/
def ValuesReadable : Nat → Bytes → Nat → Prop
  | 0, _, _ => True
  | count + 1, data, offset =>
      ValueReadable data offset ∧ ValuesReadable count data (valueEnd data offset)

def ValuesComplete : Nat → Bytes → Nat → Prop
  | 0, _, _ => True
  | count + 1, data, offset =>
      ValueComplete data offset ∧ ValuesComplete count data (valueEnd data offset)

def valuesEnd : Nat → Bytes → Nat → Nat
  | 0, _, offset => offset
  | count + 1, data, offset => valuesEnd count data (valueEnd data offset)

section Parameters

variable {data : Bytes} {repr : Datum → String}

theorem times_succ_eq_ok {count offset next : Nat} {values : List Datum} :
    Decoder.times decodeValue (count + 1) data offset = .ok (values, next) ↔
      ∃ value rest, ReadsValue data offset value (valueEnd data offset) ∧
        Decoder.times decodeValue count data (valueEnd data offset) = .ok (rest, next) ∧
          values = value :: rest := by
  simp only [Decoder.times, bind_eq_ok, Prod.exists, decode_value_eq_ok, Except.ok.injEq,
    Prod.mk.injEq]
  constructor
  · rintro ⟨value, mid, hvalue, rest, _, hrest, rfl, rfl⟩
    have hmid := hvalue.next_eq
    subst hmid
    exact ⟨value, rest, hvalue, hrest, rfl⟩
  · rintro ⟨value, rest, hvalue, hrest, rfl⟩
    exact ⟨value, _, hvalue, rest, next, hrest, rfl, rfl⟩

theorem times_returns : ∀ {count offset : Nat},
    (∃ values, Decoder.times decodeValue count data offset =
      .ok (values, valuesEnd count data offset)) ↔ ValuesReadable count data offset := by
  intro count
  induction count with
  | zero => exact fun {offset} => ⟨fun _ => trivial, fun _ => ⟨[], rfl⟩⟩
  | succ count ih =>
      intro offset
      rw [ValuesReadable, ← ih]
      simp only [times_succ_eq_ok, valuesEnd]
      constructor
      · rintro ⟨_, value, rest, hvalue, hrest, _⟩
        exact ⟨⟨value, _, hvalue⟩, rest, hrest⟩
      · rintro ⟨⟨value, next, hvalue⟩, rest, hrest⟩
        have hnext := hvalue.next_eq
        subst hnext
        exact ⟨_, value, rest, hvalue, hrest, rfl⟩

theorem times_end : ∀ {count offset next : Nat} {values : List Datum},
    Decoder.times decodeValue count data offset = .ok (values, next) →
      values.length = count ∧ next = valuesEnd count data offset := by
  intro count
  induction count with
  | zero =>
      intro offset next values h
      cases h
      exact ⟨rfl, rfl⟩
  | succ count ih =>
      intro offset next values h
      obtain ⟨value, rest, _, hrest, rfl⟩ := times_succ_eq_ok.mp h
      obtain ⟨hlength, hnext⟩ := ih hrest
      exact ⟨by rw [length_cons, hlength], hnext⟩

theorem times_stands : ∀ {count offset next : Nat} {values : List Datum},
    Decoder.times decodeValue count data offset = .ok (values, next) → offset ≤ data.length →
      ValuesComplete count data offset →
        ∃ bytes, concatM (encodeValue repr) values = .ok bytes ∧
          Stands data offset bytes next := by
  intro count
  induction count with
  | zero =>
      intro offset next values h hle _
      cases h
      exact ⟨[], rfl, Stands.nil hle⟩
  | succ count ih =>
      intro offset next values h hle hcomplete
      obtain ⟨value, rest, hvalue, hrest, rfl⟩ := times_succ_eq_ok.mp h
      obtain ⟨first, hfirst, hstands⟩ := @ReadsValue.stands _ _ _ _ repr hvalue hcomplete.1
      obtain ⟨others, hothers, hstands'⟩ := ih hrest hstands.le hcomplete.2
      refine ⟨first ++ others, ?_, hstands.append hstands'⟩
      simp only [concatM, hfirst, hothers, ok_bind]

theorem times_complete : ∀ {count offset next : Nat} {values : List Datum} {bytes rest : Bytes},
    Decoder.times decodeValue count data offset = .ok (values, next) →
      concatM (encodeValue repr) values = .ok bytes → At data offset (bytes ++ rest) →
        ValuesComplete count data offset ∧ next = offset + bytes.length := by
  intro count
  induction count with
  | zero =>
      intro offset next values bytes rest h hencode _
      cases h
      cases hencode
      exact ⟨trivial, rfl⟩
  | succ count ih =>
      intro offset next values bytes rest h hencode hat
      obtain ⟨value, others, hvalue, hothers, rfl⟩ := times_succ_eq_ok.mp h
      simp only [concatM, bind_eq_ok, Except.ok.injEq] at hencode
      obtain ⟨first, hfirst, tail, htail, rfl⟩ := hencode
      rw [append_assoc] at hat
      have hstands := hvalue.next_of_encoded hfirst hat
      have hnext := hat.next
      rw [← hstands.next] at hnext
      obtain ⟨hcomplete, hend⟩ := ih hothers htail hnext
      refine ⟨⟨hvalue.complete hfirst hstands, hcomplete⟩, ?_⟩
      rw [hend, hstands.next, length_append, Nat.add_assoc]

end Parameters

/-! ## Requests -/

/-- The decoder raises, or what it returns is encoded to the payload. -/
def ExactAt {α : Type} (decode : Bytes → Except PyError α) (encode : α → Except PyError Bytes)
    (payload : Bytes) : Prop :=
  ∀ a, decode payload = .ok a → encode a = .ok payload

def QueryComplete (payload : Bytes) : Prop := textEnd 4 payload 0 = payload.length

def PrepareReadable (payload : Bytes) : Prop :=
  TextReadable 2 payload 0 ∧ TextReadable 4 payload (textEnd 2 payload 0)

def PrepareComplete (payload : Bytes) : Prop :=
  textEnd 4 payload (textEnd 2 payload 0) = payload.length

def paramsStart (payload : Bytes) : Nat := textEnd 2 payload 0 + 2

/-- The number of the parameters of a request. -/
def paramsCount (payload : Bytes) : Nat := field 2 payload (textEnd 2 payload 0)

structure ExecuteReadable (payload : Bytes) : Prop where
  name : TextReadable 2 payload 0
  count : paramsStart payload ≤ payload.length
  values : ValuesReadable (paramsCount payload) payload (paramsStart payload)

structure ExecuteComplete (payload : Bytes) : Prop where
  values : ValuesComplete (paramsCount payload) payload (paramsStart payload)
  ends : valuesEnd (paramsCount payload) payload (paramsStart payload) = payload.length

section Requests

variable {payload : Bytes} {repr : Datum → String}

theorem decode_query_eq_ok {sql : String} : decodeQuery payload = .ok sql ↔
    decodeText 4 payload 0 = .ok (sql, textEnd 4 payload 0) := by
  simp only [decodeQuery, bind_eq_ok, unpackNat_eq_ok, utf8Text_eq_ok, decode_text_eq_ok,
    Nat.zero_add, and_true]
  constructor
  · rintro ⟨_, ⟨hle, rfl⟩, htext⟩
    exact ⟨hle, htext⟩
  · rintro ⟨hle, htext⟩
    exact ⟨_, ⟨hle, rfl⟩, htext⟩

theorem query_exact : ExactAt decodeQuery encodeQuery payload ↔
    (TextReadable 4 payload 0 → QueryComplete payload) := by
  constructor
  · intro hexact hreadable
    obtain ⟨⟨sql, next⟩, hread⟩ := decode_text_returns.mpr hreadable
    obtain ⟨_, _, rfl⟩ := decode_text_eq_ok.mp hread
    have hencode := hexact sql (decode_query_eq_ok.mpr hread)
    have hat : At payload 0 (payload ++ []) := by
      rw [append_nil]
      exact At.start payload
    have hend := (text_end_of_encoded hencode hat).2
    rwa [Nat.zero_add] at hend
  · intro hcomplete sql hdecode
    have hread := decode_query_eq_ok.mp hdecode
    have hend := hcomplete (decode_text_returns.mp ⟨_, hread⟩)
    obtain ⟨hle, htext, _⟩ := decode_text_eq_ok.mp hread
    obtain ⟨bytes, hbytes, hstands⟩ := encode_text_stands hle htext (le_of_eq hend)
    rw [show textEnd 4 payload 0 = payload.length from hend] at hstands
    rw [encodeQuery, hbytes, hstands.whole]

theorem decode_prepare_eq_ok {name sql : String} : decodePrepare payload = .ok (name, sql) ↔
    decodeText 2 payload 0 = .ok (name, textEnd 2 payload 0) ∧
      decodeText 4 payload (textEnd 2 payload 0) =
        .ok (sql, textEnd 4 payload (textEnd 2 payload 0)) := by
  simp only [decodePrepare, decodeName, bind_eq_ok, Prod.exists, unpackNat_eq_ok,
    utf8Text_eq_ok, decode_text_eq_ok, Except.ok.injEq, Prod.mk.injEq, and_true]
  constructor
  · rintro ⟨_, _, ⟨hle, hname, rfl⟩, _, ⟨hle', rfl⟩, _, hsql, rfl, rfl⟩
    exact ⟨⟨hle, hname⟩, hle', hsql⟩
  · rintro ⟨⟨hle, hname⟩, hle', hsql⟩
    exact ⟨name, _, ⟨hle, hname, rfl⟩, _, ⟨hle', rfl⟩, sql, hsql, rfl, rfl⟩

theorem prepare_exact : ExactAt decodePrepare (fun read => encodePrepare read.1 read.2) payload ↔
    (PrepareReadable payload → PrepareComplete payload) := by
  constructor
  · rintro hexact ⟨hname, hsql⟩
    obtain ⟨⟨name, _⟩, hreadName⟩ := decode_text_returns.mpr hname
    obtain ⟨⟨sql, _⟩, hreadSql⟩ := decode_text_returns.mpr hsql
    obtain ⟨_, _, rfl⟩ := decode_text_eq_ok.mp hreadName
    obtain ⟨_, _, rfl⟩ := decode_text_eq_ok.mp hreadSql
    have hencode := hexact (name, sql) (decode_prepare_eq_ok.mpr ⟨hreadName, hreadSql⟩)
    simp only [encodePrepare, bind_eq_ok, Except.ok.injEq] at hencode
    obtain ⟨first, hfirst, second, hsecond, hpayload⟩ := hencode
    have hat : At payload 0 (first ++ second) := by
      rw [hpayload]
      exact At.start payload
    have hmid := (text_end_of_encoded hfirst hat).2
    have hnext := hat.next
    rw [← hmid, ← append_nil second] at hnext
    have hend := (text_end_of_encoded hsecond hnext).2
    have hlength := congrArg List.length hpayload
    rw [length_append] at hlength
    rw [PrepareComplete]
    omega
  · rintro hcomplete ⟨name, sql⟩ hdecode
    obtain ⟨hreadName, hreadSql⟩ := decode_prepare_eq_ok.mp hdecode
    have hend := hcomplete ⟨decode_text_returns.mp ⟨_, hreadName⟩,
      decode_text_returns.mp ⟨_, hreadSql⟩⟩
    rw [PrepareComplete] at hend
    obtain ⟨hle, hname, _⟩ := decode_text_eq_ok.mp hreadName
    obtain ⟨hle', hsql, _⟩ := decode_text_eq_ok.mp hreadSql
    obtain ⟨first, hfirst, hstands⟩ := encode_text_stands hle hname (by omega)
    obtain ⟨second, hsecond, hstands'⟩ := encode_text_stands hle' hsql (le_of_eq hend)
    have hwhole := hstands.append hstands'
    rw [hend] at hwhole
    simp only [encodePrepare, hfirst, hsecond, ok_bind, hwhole.whole]

theorem decode_execute_eq_ok {name : String} {params : List Datum} :
    decodeExecute payload = .ok (name, params) ↔
      decodeText 2 payload 0 = .ok (name, textEnd 2 payload 0) ∧
        paramsStart payload ≤ payload.length ∧
          ∃ next, Decoder.times decodeValue (paramsCount payload) payload (paramsStart payload) =
            .ok (params, next) := by
  simp only [decodeExecute, decodeName, bind_eq_ok, Prod.exists, unpackNat_eq_ok,
    decode_text_eq_ok, Except.ok.injEq, Prod.mk.injEq, and_true]
  constructor
  · rintro ⟨_, _, ⟨hle, hname, rfl⟩, _, ⟨hle', rfl⟩, _, next, hvalues, rfl, rfl⟩
    exact ⟨⟨hle, hname⟩, hle', next, hvalues⟩
  · rintro ⟨⟨hle, hname⟩, hle', next, hvalues⟩
    exact ⟨name, _, ⟨hle, hname, rfl⟩, _, ⟨hle', rfl⟩, params, next, hvalues, rfl, rfl⟩

theorem execute_exact :
    ExactAt decodeExecute (fun read => encodeExecute repr read.1 read.2) payload ↔
      (ExecuteReadable payload → ExecuteComplete payload) := by
  constructor
  · rintro hexact ⟨hname, hcount, hvalues⟩
    obtain ⟨⟨name, _⟩, hreadName⟩ := decode_text_returns.mpr hname
    obtain ⟨_, _, rfl⟩ := decode_text_eq_ok.mp hreadName
    obtain ⟨params, hparams⟩ := times_returns.mpr hvalues
    have hencode := hexact (name, params) (decode_execute_eq_ok.mpr ⟨hreadName, hcount, _, hparams⟩)
    simp only [encodeExecute, bind_eq_ok, Except.ok.injEq] at hencode
    obtain ⟨first, hfirst, count, hpack, values, hencoded, hpayload⟩ := hencode
    have hat : At payload 0 (first ++ (count ++ values)) := by
      rw [hpayload]
      exact At.start payload
    have hmid := (text_end_of_encoded hfirst hat).2
    have hnext := hat.next.next
    rw [← hmid, length_pack hpack, ← append_nil values] at hnext
    obtain ⟨hcomplete, hend⟩ := times_complete hparams hencoded hnext
    refine ⟨hcomplete, hend.trans ?_⟩
    have hlength := congrArg List.length hpayload
    rw [length_append, length_append, length_pack hpack] at hlength
    rw [paramsStart]
    omega
  · rintro hcomplete ⟨name, params⟩ hdecode
    obtain ⟨hreadName, hcount, next, hparams⟩ := decode_execute_eq_ok.mp hdecode
    obtain ⟨hlength, rfl⟩ := times_end hparams
    have hdone := hcomplete ⟨decode_text_returns.mp ⟨_, hreadName⟩, hcount,
      times_returns.mp ⟨params, hparams⟩⟩
    obtain ⟨hle, hname, _⟩ := decode_text_eq_ok.mp hreadName
    obtain ⟨first, hfirst, hstands⟩ := encode_text_stands hle hname
      (by rw [paramsStart] at hcount; omega)
    obtain ⟨values, hvalues, hstands'⟩ := @times_stands _ repr _ _ _ _ hparams hcount hdone.values
    have hpack := pack_field (show textEnd 2 payload 0 + 2 ≤ payload.length from hcount)
    have hcountStands := Stands.slice (show textEnd 2 payload 0 + 2 ≤ payload.length from hcount)
    have hwhole := hstands.append (hcountStands.append hstands')
    rw [hdone.ends] at hwhole
    have hfield : ((params.length : Nat) : Int) =
        (field 2 payload (textEnd 2 payload 0) : Nat) := by
      rw [hlength, paramsCount]
    simp only [encodeExecute, hfirst, hfield, hpack, hvalues, ok_bind]
    exact congrArg Except.ok hwhole.whole

end Requests

/-- What a decoder of requests or values returns is encoded to the bytes it was read from,
exactly when the message is complete: its values end inside the payload, booleans are written
as 0 or 1, and nothing stands behind the last field. -/
theorem request_decoders_exact (repr : Datum → String) :
    (∀ payload, ExactAt decodeQuery encodeQuery payload ↔
      (TextReadable 4 payload 0 → QueryComplete payload)) ∧
    (∀ payload, ExactAt decodePrepare (fun read => encodePrepare read.1 read.2) payload ↔
      (PrepareReadable payload → PrepareComplete payload)) ∧
    (∀ payload, ExactAt decodeExecute (fun read => encodeExecute repr read.1 read.2) payload ↔
      (ExecuteReadable payload → ExecuteComplete payload)) ∧
    ∀ data offset, (∀ value next, decodeValue data offset = .ok (value, next) →
      ∃ bytes, encodeValue repr value = .ok bytes ∧ Stands data offset bytes next) ↔
        (ValueReadable data offset → ValueComplete data offset) := by
  refine ⟨fun _ => query_exact, fun _ => prepare_exact, fun _ => execute_exact, ?_⟩
  intro data offset
  constructor
  · rintro hexact ⟨value, next, hvalue⟩
    obtain ⟨bytes, hbytes, hstands⟩ := hexact value next (decode_value_eq_ok.mpr hvalue)
    exact hvalue.complete hbytes hstands
  · intro hcomplete value next hdecode
    have hvalue := decode_value_eq_ok.mp hdecode
    exact hvalue.stands (hcomplete ⟨value, next, hvalue⟩)

/-- A query whose length field says 5 and of which one byte is left. -/
theorem truncated_query_accepted :
    ¬ ∀ payload, ExactAt decodeQuery encodeQuery payload := by
  intro hall
  have hdecode : decodeQuery [0, 0, 0, 5, 97] = .ok "a" := by decide +kernel
  have hencode := hall _ _ hdecode
  revert hencode
  decide +kernel

end SoupDB.Protocol
