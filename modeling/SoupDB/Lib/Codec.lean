import SoupDB.Lib.Except

/-!
# Decoders that carry an offset

A decoder reads a value of the data at an offset and gives the offset after it.
`At` says which symbols are left at an offset; `Decodes` that a decoder reads a value from
exactly some symbols, wherever they stand; `Stands` that symbols stand between two offsets.
All of them compose along the data, so a format is checked field by field, once in each
direction.
-/

namespace SoupDB

open List

variable {α ε β γ : Type}

/-! ## What is left at an offset -/

/-- The data has exactly these symbols from the offset on. -/
structure At (data : List α) (offset : Nat) (rest : List α) : Prop where
  le : offset ≤ data.length
  drop : data.drop offset = rest

namespace At

variable {data symbols rest : List α} {offset : Nat}

theorem start (data : List α) : At data 0 data :=
  ⟨Nat.zero_le _, drop_zero⟩

theorem length (h : At data offset rest) : offset + rest.length = data.length := by
  have hle := h.le
  rw [← h.drop, length_drop]
  omega

theorem next (h : At data offset (symbols ++ rest)) : At data (offset + symbols.length) rest := by
  have hlength := h.length
  rw [length_append] at hlength
  refine ⟨by omega, ?_⟩
  rw [← drop_drop, h.drop, drop_left]

theorem take (h : At data offset (symbols ++ rest)) :
    (data.drop offset).take symbols.length = symbols := by
  rw [h.drop, take_left]

end At

/-! ## From the symbols to the value -/

/-- Reads a value of the data at an offset; gives the value and the offset after it. -/
abbrev Decoder (α ε β : Type) := List α → Nat → Except ε (β × Nat)

/-- Wherever the symbols stand, the decoder reads the value from exactly them. -/
def Decodes (decode : Decoder α ε β) (symbols : List α) (b : β) : Prop :=
  ∀ data offset rest, At data offset (symbols ++ rest) →
    decode data offset = .ok (b, offset + symbols.length)

theorem Decodes.whole {decode : Decoder α ε β} {symbols : List α} {b : β}
    (h : Decodes decode symbols b) : decode symbols 0 = .ok (b, symbols.length) := by
  have hat : At symbols 0 (symbols ++ []) := by
    rw [append_nil]
    exact At.start symbols
  have hdecode := h symbols 0 [] hat
  rw [Nat.zero_add] at hdecode
  exact hdecode

/-- A number of values, one after the other. -/
def Decoder.times (decode : Decoder α ε β) : Nat → Decoder α ε (List β)
  | 0, _, offset => .ok ([], offset)
  | count + 1, data, offset => do
      let (b, offset) ← decode data offset
      let (bs, offset) ← decode.times count data offset
      .ok (b :: bs, offset)

/-- Values that are each read from their encoding are read from the whole. -/
theorem decodes_times {encode : β → Except ε (List α)} {decode : Decoder α ε γ} {bs : List β}
    (f : β → γ) (h : ∀ b ∈ bs, ∀ symbols, encode b = .ok symbols → Decodes decode symbols (f b)) :
    ∀ {symbols : List α}, concatM encode bs = .ok symbols →
      Decodes (decode.times bs.length) symbols (bs.map f) := by
  induction bs with
  | nil =>
      intro symbols hencode data offset rest hat
      cases hencode
      rfl
  | cons b bs ih =>
      intro symbols hencode data offset rest hat
      rw [concatM] at hencode
      obtain ⟨first, hfirst, hencode⟩ := bind_eq_ok.mp hencode
      obtain ⟨others, hothers, hencode⟩ := bind_eq_ok.mp hencode
      cases hencode
      have hrest := ih (fun c hc => h c (mem_cons_of_mem b hc)) hothers
      rw [append_assoc] at hat
      simp only [length_cons, Decoder.times, h b (by simp) first hfirst data offset _ hat,
        ok_bind, hrest data _ rest hat.next, map_cons, length_append, Nat.add_assoc]

/-! ## From the value back to the symbols -/

/-- The symbols stand in the data between the two offsets. -/
structure Stands (data : List α) (offset : Nat) (symbols : List α) (offset' : Nat) : Prop where
  next : offset' = offset + symbols.length
  le : offset' ≤ data.length
  drop : data.drop offset = symbols ++ data.drop offset'

namespace Stands

variable {data symbols symbols' : List α} {offset offset' offset'' : Nat}

theorem nil (h : offset ≤ data.length) : Stands data offset [] offset :=
  ⟨rfl, h, rfl⟩

theorem slice {size : Nat} (h : offset + size ≤ data.length) :
    Stands data offset ((data.drop offset).take size) (offset + size) := by
  refine ⟨?_, h, ?_⟩
  · rw [length_take, length_drop, Nat.min_eq_left (by omega)]
  · rw [← drop_drop, take_append_drop]

theorem append (h : Stands data offset symbols offset')
    (h' : Stands data offset' symbols' offset'') :
    Stands data offset (symbols ++ symbols') offset'' := by
  refine ⟨?_, h'.le, ?_⟩
  · rw [h'.next, h.next, length_append, Nat.add_assoc]
  · rw [h.drop, h'.drop, append_assoc]

theorem whole (h : Stands data 0 symbols data.length) : symbols = data := by
  have hdrop := h.drop
  rw [drop_zero, drop_length, append_nil] at hdrop
  exact hdrop.symm

end Stands

end SoupDB
