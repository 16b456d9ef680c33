import SoupDB.Indexes.KeyCodec

/-!
# SoupDB: the codec of index keys is exact

`KeyTree` are the keys the codec is for: integers of 64 bits, strings, and tuples of keys.
`Encodable` are those whose lengths fit in their fields of four bytes, which are the keys that
`encodeKey` encodes (`encode_key_returns`).  What `decodeKey` accepts is the encoding of the
key it returns (`encode_key_of_decode_key`), and it raises nothing but a `ValueError`.
-/

namespace SoupDB.KeyCodec

open Pack

/-- A key built from 64-bit integers, strings and tuples. -/
inductive KeyTree : Value → Prop
  | int (i : Int) : -(2 : Int) ^ 63 ≤ i → i < (2 : Int) ^ 63 → KeyTree (.int i)
  | str (s : String) : KeyTree (.str s)
  | tuple (items : List Value) : (∀ v ∈ items, KeyTree v) → KeyTree (.tuple items)

mutual

/-- How many bytes the encoding of a key has. -/
def encodedLength : Value → Nat
  | .int _ => 9
  | .str s => 5 + (encodeUtf8 s).length
  | .tuple items => 5 + itemsLength items
  | .null => 0
  | .bool _ => 0
  | .float _ => 0

def itemsLength : List Value → Nat
  | [] => 0
  | v :: vs => 4 + encodedLength v + itemsLength vs

end

def LengthFits (n : Nat) : Prop := n < 2 ^ 32

/-- Every string, every tuple and every item of a tuple has a length that fits. -/
inductive Encodable : Value → Prop
  | int (i : Int) : Encodable (.int i)
  | str (s : String) : LengthFits (encodeUtf8 s).length → Encodable (.str s)
  | tuple (items : List Value) : LengthFits items.length → (∀ v ∈ items, Encodable v) →
      (∀ v ∈ items, LengthFits (encodedLength v)) → Encodable (.tuple items)

/-! ## Encoding -/

variable {n : Nat} {data : Bytes}

theorem packU_length_returns : (∃ field, packU 4 n = .ok field) ↔ LengthFits n := by
  simp only [packU_eq_ok, exists_and_left, exists_eq, and_true]
  rfl

theorem encode_items_length : ∀ {vs : List Value} {encoded : List Bytes},
    encodeItems vs = .ok encoded → encoded.length = vs.length := by
  intro vs
  induction vs with
  | nil =>
      intro encoded h
      cases h
      rfl
  | cons v vs ih =>
      intro encoded h
      simp only [encodeItems, bind_eq_ok, Except.ok.injEq] at h
      obtain ⟨item, _, rest, hrest, rfl⟩ := h
      rw [List.length_cons, List.length_cons, ih hrest]

theorem items_return {vs : List Value}
    (h : ∀ v ∈ vs, KeyTree v → ((∃ bs, encodeKey v = .ok bs) ↔ Encodable v) ∧
      ∀ bs, encodeKey v = .ok bs → bs.length = encodedLength v)
    (hkeys : ∀ v ∈ vs, KeyTree v) :
    ((∃ encoded body, encodeItems vs = .ok encoded ∧ joinItems encoded = .ok body) ↔
      ∀ v ∈ vs, Encodable v ∧ LengthFits (encodedLength v)) ∧
    ∀ encoded body, encodeItems vs = .ok encoded → joinItems encoded = .ok body →
      body.length = itemsLength vs := by
  induction vs with
  | nil =>
      refine ⟨⟨fun _ v hv => (List.not_mem_nil hv).elim, fun _ => ⟨[], [], rfl, rfl⟩⟩, ?_⟩
      intro encoded body hencoded hbody
      cases hencoded
      cases hbody
      rfl
  | cons v vs ih =>
      obtain ⟨hreturns, hlength⟩ := h v (by simp) (hkeys v (by simp))
      obtain ⟨hrest, hrestLength⟩ := ih (fun w hw => h w (List.mem_cons_of_mem _ hw))
        (fun w hw => hkeys w (List.mem_cons_of_mem _ hw))
      simp only [encodeItems, bind_eq_ok, Except.ok.injEq]
      constructor
      · rw [List.forall_mem_cons, ← hrest, ← hreturns]
        constructor
        · rintro ⟨_, body, ⟨item, hitem, items, hitems, rfl⟩, hbody⟩
          simp only [joinItems, bind_eq_ok, Except.ok.injEq] at hbody
          obtain ⟨field, hfield, rest, hjoined, rfl⟩ := hbody
          refine ⟨⟨⟨item, hitem⟩, ?_⟩, items, rest, hitems, hjoined⟩
          rw [← hlength item hitem]
          exact packU_length_returns.mp ⟨field, hfield⟩
        · rintro ⟨⟨⟨item, hitem⟩, hfits⟩, items, rest, hitems, hjoined⟩
          rw [← hlength item hitem] at hfits
          obtain ⟨field, hfield⟩ := packU_length_returns.mpr hfits
          refine ⟨_, field ++ item ++ rest, ⟨item, hitem, items, hitems, rfl⟩, ?_⟩
          simp only [joinItems, hfield, hjoined, ok_bind]
      · rintro _ body ⟨item, hitem, items, hitems, rfl⟩ hbody
        simp only [joinItems, bind_eq_ok, Except.ok.injEq] at hbody
        obtain ⟨field, hfield, rest, hjoined, rfl⟩ := hbody
        rw [List.length_append, List.length_append, length_packU hfield, hlength item hitem,
          hrestLength items rest hitems hjoined, itemsLength]

/-- A key is encoded exactly when its lengths fit, in as many bytes as they say. -/
theorem encode_key_returns {v : Value} (hkey : KeyTree v) :
    ((∃ bs, encodeKey v = .ok bs) ↔ Encodable v) ∧
      ∀ bs, encodeKey v = .ok bs → bs.length = encodedLength v := by
  induction hkey with
  | int i hlow hhigh =>
      obtain ⟨payload, hpayload⟩ : ∃ payload, packI 8 i = .ok payload :=
        packI_ok_iff.mpr ⟨hlow, hhigh⟩
      have hencode : encodeKey (.int i) = .ok (INT_TAG :: payload) := by
        rw [encodeKey, hpayload]
      refine ⟨⟨fun _ => .int i, fun _ => ⟨_, hencode⟩⟩, ?_⟩
      intro bs hbs
      rw [hencode, Except.ok.injEq] at hbs
      rw [← hbs, List.length_cons, length_packI hpayload, encodedLength]
  | str s =>
      simp only [encodeKey, bind_eq_ok, Except.ok.injEq]
      constructor
      · constructor
        · rintro ⟨_, field, hfield, _⟩
          exact .str s (packU_length_returns.mp ⟨field, hfield⟩)
        · rintro (_ | ⟨_, hfits⟩)
          obtain ⟨field, hfield⟩ := packU_length_returns.mpr hfits
          exact ⟨_, field, hfield, rfl⟩
      · rintro bs ⟨field, hfield, rfl⟩
        rw [List.length_cons, List.length_append, length_packU hfield, encodedLength]
        omega
  | tuple items hkeys ih =>
      obtain ⟨hreturns, hlength⟩ := items_return (fun v hv _ => ih v hv) hkeys
      simp only [encodeKey, bind_eq_ok, Except.ok.injEq]
      constructor
      · constructor
        · rintro ⟨_, encoded, hencoded, count, hcount, body, hbody, _⟩
          have hitems := hreturns.mp ⟨encoded, body, hencoded, hbody⟩
          refine .tuple items ?_ (fun v hv => (hitems v hv).1) (fun v hv => (hitems v hv).2)
          rw [← encode_items_length hencoded]
          exact packU_length_returns.mp ⟨count, hcount⟩
        · rintro (_ | _ | ⟨_, hfits, hitems, hlengths⟩)
          obtain ⟨encoded, body, hencoded, hbody⟩ :=
            hreturns.mpr (fun v hv => ⟨hitems v hv, hlengths v hv⟩)
          rw [← encode_items_length hencoded] at hfits
          obtain ⟨count, hcount⟩ := packU_length_returns.mpr hfits
          exact ⟨_, encoded, hencoded, count, hcount, body, hbody, rfl⟩
      · rintro bs ⟨encoded, hencoded, count, hcount, body, hbody, rfl⟩
        rw [List.length_cons, List.length_append, length_packU hcount,
          hlength encoded body hencoded hbody, encodedLength]
        omega

/-! ## Decoding -/

theorem take_eq_ok {field rest : Bytes} {message : String}
    (h : take n data message = .ok (field, rest)) :
    field.length = n ∧ data = field ++ rest := by
  rw [take] at h
  split at h
  · next hle =>
      cases h
      exact ⟨by rw [List.length_take, Nat.min_eq_left hle], (List.take_append_drop n data).symm⟩
  · cases h

theorem take_error {message : String} {e : PyError} (h : take n data message = .error e) :
    e = .ValueError message := by
  rw [take] at h
  split at h
  · cases h
  · exact (Except.error.inj h).symm

theorem readLength_eq_ok {rest : Bytes} (h : readLength data = .ok (n, rest)) :
    ∃ field, packU 4 n = .ok field ∧ data = field ++ rest := by
  simp only [readLength, bind_eq_ok, Except.ok.injEq] at h
  obtain ⟨⟨field, rest'⟩, htake, heq⟩ := h
  obtain ⟨hlength, rfl⟩ := take_eq_ok htake
  cases heq
  have hlt := unpackLE_lt field
  have hpack := packLE_unpackLE field
  rw [hlength] at hlt hpack
  exact ⟨field, packU_eq_ok.mpr ⟨hlt, hpack.symm⟩, rfl⟩

theorem readLength_error {e : PyError} (h : readLength data = .error e) :
    e = .ValueError "truncated key length" := by
  simp only [readLength, bind_eq_error, reduceCtorEq, and_false, exists_false, or_false] at h
  exact take_error h

/-- What a decoder of one key does: it reads an encoded key, or raises a `ValueError`. -/
def ReadsKeys (decode : Bytes → Except PyError (Value × Bytes)) : Prop :=
  (∀ data v rest, decode data = .ok (v, rest) →
    KeyTree v ∧ ∃ bs, encodeKey v = .ok bs ∧ data = bs ++ rest) ∧
  ∀ data e, decode data = .error e → ∃ message, e = .ValueError message

section Items

variable {decode : Bytes → Except PyError (Value × Bytes)}

theorem decodeItems_eq_ok (hdecode : ReadsKeys decode) : ∀ {count : Nat} {data rest : Bytes}
    {vs : List Value}, decodeItems decode count data = .ok (vs, rest) →
      (∀ v ∈ vs, KeyTree v) ∧ vs.length = count ∧
        ∃ encoded body, encodeItems vs = .ok encoded ∧ joinItems encoded = .ok body ∧
          data = body ++ rest := by
  intro count
  induction count with
  | zero =>
      intro data rest vs h
      cases h
      exact ⟨fun v hv => (List.not_mem_nil hv).elim, rfl, [], [], rfl, rfl, rfl⟩
  | succ count ih =>
      intro data rest vs h
      simp only [decodeItems, bind_eq_ok] at h
      obtain ⟨⟨itemLength, data₁⟩, hlength, ⟨field, data₂⟩, htake, ⟨item, unread⟩, hitem, h⟩ := h
      obtain ⟨lengthField, hpack, rfl⟩ := readLength_eq_ok hlength
      obtain ⟨hfield, rfl⟩ := take_eq_ok htake
      by_cases hunread : unread = []
      · rw [if_neg (not_not.mpr hunread)] at h
        obtain ⟨⟨items, data₃⟩, hitems, heq⟩ := bind_eq_ok.mp h
        cases heq
        obtain ⟨hkey, bs, hbs, hfieldEq⟩ := hdecode.1 _ _ _ hitem
        rw [hunread, List.append_nil] at hfieldEq
        subst hfieldEq
        obtain ⟨hkeys, hcount, encoded, body, hencoded, hbody, rfl⟩ := ih hitems
        have hfieldLength : field.length = itemLength := hfield
        rw [← hfieldLength] at hpack
        refine ⟨List.forall_mem_cons.mpr ⟨hkey, hkeys⟩, by rw [List.length_cons, hcount],
          field :: encoded, lengthField ++ field ++ body, ?_, ?_, ?_⟩
        · simp only [encodeItems, hbs, hencoded, ok_bind]
        · simp only [joinItems, hpack, hbody, ok_bind]
        · simp only [List.append_assoc]
      · rw [if_pos hunread] at h
        cases h

theorem decodeItems_error (hdecode : ReadsKeys decode) : ∀ {count : Nat} {data : Bytes}
    {e : PyError}, decodeItems decode count data = .error e →
      ∃ message, e = .ValueError message := by
  intro count
  induction count with
  | zero =>
      intro data e h
      cases h
  | succ count ih =>
      intro data e h
      rw [decodeItems, bind_eq_error] at h
      rcases h with h | ⟨⟨itemLength, data₁⟩, _, h⟩
      · exact ⟨_, readLength_error h⟩
      · rcases bind_eq_error.mp h with h | ⟨⟨field, data₂⟩, _, h⟩
        · exact ⟨_, take_error h⟩
        · rcases bind_eq_error.mp h with h | ⟨⟨item, unread⟩, _, h⟩
          · exact hdecode.2 _ _ h
          · dsimp only at h
            by_cases hunread : unread = []
            · rw [if_neg (not_not.mpr hunread)] at h
              rcases bind_eq_error.mp h with h | ⟨_, _, h⟩
              · exact ih h
              · cases h
            · rw [if_pos hunread] at h
              cases h
              exact ⟨_, rfl⟩

end Items

/-- At every depth, what is decoded is an encoded key off the front of the bytes. -/
theorem readsKeys_decodeFrom : ∀ depth : Nat, ReadsKeys (decodeFrom depth) := by
  intro depth
  induction depth with
  | zero =>
      constructor
      · intro data v rest h
        cases data <;> cases h
      · intro data e h
        cases data <;> exact ⟨_, (Except.error.inj h).symm⟩
  | succ depth ih =>
      constructor
      · intro data v rest h
        cases data with
        | nil => cases h
        | cons tag data =>
            rw [decodeFrom] at h
            split at h
            · next htag =>
                simp only [bind_eq_ok, Except.ok.injEq] at h
                obtain ⟨⟨field, rest'⟩, htake, heq⟩ := h
                cases heq
                obtain ⟨hlength, rfl⟩ := take_eq_ok htake
                have hrange := unpackI_range (by decide : 0 < 8) hlength
                refine ⟨.int _ hrange.1 hrange.2, tag :: field, ?_, rfl⟩
                rw [encodeKey, packI_unpackI (by decide) hlength, htag]
            · split at h
              · next _ htag =>
                  obtain ⟨⟨length, data₁⟩, hlength, hrest⟩ := bind_eq_ok.mp h
                  obtain ⟨⟨field, rest'⟩, htake, hfinal⟩ := bind_eq_ok.mp hrest
                  obtain ⟨lengthField, hpack, rfl⟩ := readLength_eq_ok hlength
                  obtain ⟨hfield, rfl⟩ := take_eq_ok htake
                  cases hutf8 : decodeUtf8 field with
                  | none =>
                      simp only [hutf8] at hfinal
                      cases hfinal
                  | some s =>
                      simp only [hutf8] at hfinal
                      cases hfinal
                      have hbytes := encodeUtf8_of_decodeUtf8 hutf8
                      refine ⟨.str s, STR_TAG :: (lengthField ++ field), ?_, ?_⟩
                      · simp only [encodeKey, hbytes, hfield, hpack, ok_bind]
                      · rw [htag, List.cons_append, List.append_assoc]
              · split at h
                · next _ _ htag =>
                    obtain ⟨⟨count, data₁⟩, hcount, h⟩ := bind_eq_ok.mp h
                    obtain ⟨⟨items, rest'⟩, hitems, h⟩ := bind_eq_ok.mp h
                    cases h
                    obtain ⟨countField, hpack, rfl⟩ := readLength_eq_ok hcount
                    obtain ⟨hkeys, hlength, encoded, body, hencoded, hbody, rfl⟩ :=
                      decodeItems_eq_ok ih hitems
                    have hencodedLength := (encode_items_length hencoded).trans hlength
                    refine ⟨.tuple items hkeys, TUPLE_TAG :: (countField ++ body), ?_, ?_⟩
                    · simp only [encodeKey, hencoded, hencodedLength, hpack, hbody, ok_bind]
                    · rw [htag, List.cons_append, List.append_assoc]
                · cases h
      · intro data e h
        cases data with
        | nil => exact ⟨_, (Except.error.inj h).symm⟩
        | cons tag data =>
            rw [decodeFrom] at h
            split at h
            · rcases bind_eq_error.mp h with h | ⟨_, _, h⟩
              · exact ⟨_, take_error h⟩
              · cases h
            · split at h
              · rcases bind_eq_error.mp h with h | ⟨⟨length, data₁⟩, _, h⟩
                · exact ⟨_, readLength_error h⟩
                · rcases bind_eq_error.mp h with h | ⟨⟨field, rest'⟩, _, h⟩
                  · exact ⟨_, take_error h⟩
                  · cases hutf8 : decodeUtf8 field with
                    | none =>
                        simp only [hutf8] at h
                        exact ⟨_, (Except.error.inj h).symm⟩
                    | some s =>
                        simp only [hutf8] at h
                        cases h
              · split at h
                · rcases bind_eq_error.mp h with h | ⟨⟨count, data₁⟩, _, h⟩
                  · exact ⟨_, readLength_error h⟩
                  · rcases bind_eq_error.mp h with h | ⟨_, _, h⟩
                    · exact decodeItems_error ih h
                    · cases h
                · exact ⟨_, (Except.error.inj h).symm⟩

theorem encode_key_of_decode_key (data : Bytes) :
    (∃ message, decodeKey data = .error (.ValueError message)) ∨
      ∃ v, KeyTree v ∧ decodeKey data = .ok v ∧ encodeKey v = .ok data := by
  obtain ⟨hok, herror⟩ := readsKeys_decodeFrom data.length
  rw [decodeKey]
  cases hrun : decodeFrom data.length data with
  | error e =>
      obtain ⟨message, rfl⟩ := herror data e hrun
      exact Or.inl ⟨message, rfl⟩
  | ok read =>
      obtain ⟨v, unread⟩ := read
      by_cases hunread : unread = []
      · obtain ⟨hkey, bs, hbs, hdata⟩ := hok data v unread hrun
        rw [hunread, List.append_nil] at hdata
        refine Or.inr ⟨v, hkey, ?_, by rw [hbs, hdata]⟩
        rw [ok_bind]
        exact if_neg (not_not.mpr hunread)
      · left
        refine ⟨"unexpected trailing bytes in encoded key", ?_⟩
        rw [ok_bind]
        exact if_pos hunread

/-- Every key whose lengths fit is encoded, decodes to itself and shares its encoding with no
other key; and bytes that decode to a key are its encoding. -/
theorem key_codec_exact :
    (∀ v, KeyTree v → Encodable v → ∃ bs, encodeKey v = .ok bs ∧ decodeKey bs = .ok v) ∧
    (∀ v w bs, KeyTree v → KeyTree w → encodeKey v = .ok bs → encodeKey w = .ok bs → v = w) ∧
    ∀ data, (∃ message, decodeKey data = .error (.ValueError message)) ∨
      ∃ v, KeyTree v ∧ decodeKey data = .ok v ∧ encodeKey v = .ok data := by
  refine ⟨?_, ?_, encode_key_of_decode_key⟩
  · intro v hkey hencodable
    obtain ⟨bs, hbs⟩ := (encode_key_returns hkey).1.mpr hencodable
    exact ⟨bs, hbs, decode_key_encode_key hbs⟩
  · intro v w bs _ _ hv hw
    have hdecode := decode_key_encode_key hv
    rw [decode_key_encode_key hw] at hdecode
    exact (Except.ok.inj hdecode).symm

/-- A tuple with 2 ^ 32 items is a key tree that is not encoded. -/
theorem long_tuple_not_encoded :
    ¬ ∀ v, KeyTree v → ∃ bs, encodeKey v = .ok bs ∧ decodeKey bs = .ok v := by
  intro hall
  have hkey : KeyTree (.tuple (List.replicate (2 ^ 32) (.int 0))) := by
    refine .tuple _ ?_
    intro v hv
    rw [(List.mem_replicate.mp hv).2]
    exact .int 0 (by decide) (by decide)
  obtain ⟨bs, hbs, _⟩ := hall _ hkey
  rcases (encode_key_returns hkey).1.mp ⟨bs, hbs⟩ with _ | _ | ⟨_, hfits, _, _⟩
  rw [LengthFits, List.length_replicate] at hfits
  exact lt_irrefl _ hfits

end SoupDB.KeyCodec
