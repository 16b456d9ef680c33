import SoupDB.Lib.Json
import Mathlib.Data.Char

/-!
# JSON texts of arrays

`dumpArray` writes an array of strings, integers, booleans and nulls, with the characters
above ASCII as they are; `loadArray` reads such a text.

Main fact: `loadArray_dumpArray`, a written array is read back.
-/

namespace SoupDB.Json

open List

/-! ## Writing -/

/-- A character of a string; quotes, backslashes and control characters are escaped. -/
def escapeUnicode (c : Nat) : Codes :=
  if c = 34 then [92, 34]
  else if c = 92 then [92, 92]
  else if c = 10 then [92, 110]
  else if c = 13 then [92, 114]
  else if c = 9 then [92, 116]
  else if c = 12 then [92, 102]
  else if c = 8 then [92, 98]
  else if c < 32 then escapeUnit c
  else [c]

/-- A string up to its closing quote. -/
def dumpChars (s : String) : Codes := (codes s).flatMap escapeUnicode ++ [34]

def dumpItem : Scalar → Codes
  | .str s => 34 :: dumpChars s
  | item => dumpScalar item

/-- The items after the first one, each after a comma and a blank, and the closing bracket. -/
def dumpItems (items : List Scalar) : Codes :=
  items.flatMap (fun item => 44 :: 32 :: dumpItem item) ++ [93]

def arrayCodes : List Scalar → Codes
  | [] => [91, 93]
  | item :: items => 91 :: (dumpItem item ++ dumpItems items)

/-- `json.dumps(items, ensure_ascii=False)`. -/
def dumpArray (items : List Scalar) : String := String.ofList ((arrayCodes items).map Char.ofNat)

/-! ## Reading -/

/-- The items after one, up to the closing bracket. -/
def loadItems : Nat → Codes → Option (List Scalar × Codes)
  | _, 93 :: rest => some ([], rest)
  | fuel + 1, 44 :: 32 :: rest => do
      let (item, rest) ← loadScalar rest
      let (items, rest) ← loadItems fuel rest
      some (item :: items, rest)
  | _, _ => none

/-- `json.loads(text)`, on the texts of arrays as `dumpArray` writes them. -/
def loadArray (text : String) : Option (List Scalar) :=
  match codes text with
  | [91, 93] => some []
  | 91 :: rest =>
      match loadScalar rest with
      | none => none
      | some (item, rest) =>
          match loadItems rest.length rest with
          | some (items, []) => some (item :: items)
          | _ => none
  | _ => none

/-! ## Characters -/

theorem hexValue_hexDigit {n : Nat} (h : n < 16) : hexValue (hexDigit n) = some n := by
  rw [hexDigit, hexValue]
  by_cases hn : n < 10
  · rw [if_pos hn, if_pos (by omega)]
    congr 1
    omega
  · rw [if_neg hn, if_neg (by omega), if_pos (by omega)]
    congr 1
    omega

theorem scanString_escapeUnit {c : Nat} (h : c < 65536) (rest : Codes) :
    scanString (escapeUnit c ++ rest) =
      (scanString rest).map (fun e => (c :: e.1, e.2)) := by
  have hvalue : 4096 * (c / 4096 % 16) + 256 * (c / 256 % 16) + 16 * (c / 16 % 16) + c % 16 =
      c := by
    omega
  have hhex : hexValue4 (hexDigit (c / 4096 % 16)) (hexDigit (c / 256 % 16))
      (hexDigit (c / 16 % 16)) (hexDigit (c % 16)) = some c := by
    rw [hexValue4, hexValue_hexDigit (Nat.mod_lt _ (by omega)),
      hexValue_hexDigit (Nat.mod_lt _ (by omega)), hexValue_hexDigit (Nat.mod_lt _ (by omega)),
      hexValue_hexDigit (Nat.mod_lt _ (by omega))]
    exact congrArg some hvalue
  rw [escapeUnit, hex4, cons_append, cons_append, cons_append, cons_append,
    cons_append, cons_append, nil_append, scanString, hhex]
  cases scanString rest with
  | none => rfl
  | some e => rfl

theorem scanString_escapeUnicode (c : Nat) (rest : Codes) :
    scanString (escapeUnicode c ++ rest) =
      (scanString rest).map (fun e => (c :: e.1, e.2)) := by
  have hsimple : ∀ e : Nat, e ≠ 117 → simpleEscape e = some c →
      scanString ([92, e] ++ rest) = (scanString rest).map (fun e => (c :: e.1, e.2)) := by
    intro e he hescape
    rw [cons_append, cons_append, nil_append, scanString]
    · rw [hescape]
      cases scanString rest with
      | none => rfl
      | some e => rfl
    · exact fun _ _ _ _ _ h => absurd h he
  rw [escapeUnicode]
  split_ifs with h₁ h₂ h₃ h₄ h₅ h₆ h₇ h₈
  · exact hsimple 34 (by decide) (by rw [h₁]; rfl)
  · exact hsimple 92 (by decide) (by rw [h₂]; rfl)
  · exact hsimple 110 (by decide) (by rw [h₃]; rfl)
  · exact hsimple 114 (by decide) (by rw [h₄]; rfl)
  · exact hsimple 116 (by decide) (by rw [h₅]; rfl)
  · exact hsimple 102 (by decide) (by rw [h₆]; rfl)
  · exact hsimple 98 (by decide) (by rw [h₇]; rfl)
  · exact scanString_escapeUnit (by omega) rest
  · rw [cons_append, nil_append, scanString]
    · rw [if_neg (by omega)]
      cases scanString rest with
      | none => rfl
      | some e => rfl
    · exact h₁
    · exact fun _ _ _ _ _ h => absurd h h₂
    · exact fun _ _ h => absurd h h₂

theorem scanString_dumpChars (s : String) (rest : Codes) :
    scanString (dumpChars s ++ rest) = some (codes s, rest) := by
  rw [dumpChars]
  induction codes s with
  | nil => rfl
  | cons c cs ih =>
      rw [flatMap_cons, append_assoc, append_assoc, scanString_escapeUnicode,
        ← append_assoc, ih]
      rfl

/-- No character is half of a pair of units. -/
theorem joinSurrogates_codes (s : String) : joinSurrogates (codes s) = codes s := by
  have hvalid : ∀ c ∈ codes s, ¬ (55296 ≤ c ∧ c < 56320) := by
    intro c hc
    obtain ⟨ch, -, rfl⟩ := mem_map.mp hc
    have h := ch.valid
    rcases h with h | h
    · have hlt : ch.toNat < 0xd800 := h
      omega
    · have hlt : 0xdfff < ch.toNat := h.1
      omega
  generalize codes s = cs at hvalid
  induction cs with
  | nil => rfl
  | cons c cs ih =>
      have hrest := ih (fun c' hc' => hvalid c' (mem_cons_of_mem c hc'))
      cases cs with
      | nil => rfl
      | cons c' cs =>
          have hfirst := hvalid c mem_cons_self
          rw [joinSurrogates, if_neg (fun h => hfirst ⟨h.1, h.2.1⟩), hrest]

theorem textOf_codes (s : String) : textOf (codes s) = some s := by
  have hvalid : (codes s).all (fun c => decide c.isValidChar) = true := by
    refine all_eq_true.mpr (fun c hc => ?_)
    obtain ⟨ch, -, rfl⟩ := mem_map.mp hc
    exact decide_eq_true ch.valid
  rw [textOf, if_pos hvalid, codes, map_map]
  have hid : (Char.ofNat ∘ Char.toNat) = id := by
    funext c
    exact Char.ofNat_toNat c
  rw [hid, map_id, String.ofList_toList]

theorem loadString_dumpChars (s : String) (rest : Codes) :
    loadString (dumpChars s ++ rest) = some (s, rest) := by
  rw [loadString, scanString_dumpChars]
  simp only [Option.bind_eq_bind, Option.bind_some, joinSurrogates_codes, textOf_codes]

/-! ## Numbers -/

/-- What follows does not continue a number. -/
def Ends (rest : Codes) : Prop := ∀ c ∈ rest.head?, ¬ (48 ≤ c ∧ c ≤ 57)

variable {rest : Codes}

theorem loadDigits_of_ends (h : Ends rest) (value : Nat) :
    loadDigits value rest = (value, rest) := by
  cases rest with
  | nil => rfl
  | cons c rest => rw [loadDigits, if_neg (h c rfl)]

theorem loadDigits_digits {rest : Codes} (h : Ends rest) :
    ∀ (digits : List Char) (value : Nat), (∀ c ∈ digits, c.isDigit = true) →
      loadDigits value (digits.map Char.toNat ++ rest) =
        (Nat.ofDigitChars 10 digits value, rest)
  | [], value, _ => by
      rw [map_nil, nil_append, loadDigits_of_ends h, Nat.ofDigitChars_nil]
  | c :: digits, value, hdigits => by
      have hc : 48 ≤ c.toNat ∧ c.toNat ≤ 57 :=
        Char.isDigit_iff_toNat.mp (hdigits c mem_cons_self)
      rw [map_cons, cons_append, loadDigits, if_pos hc,
        loadDigits_digits h digits _ (fun c' hc' => hdigits c' (mem_cons_of_mem c hc')),
        Nat.ofDigitChars_cons]
      rfl

theorem isDigit_of_mem_digits {n : Nat} {c : Char} (h : c ∈ Nat.toDigits 10 n) :
    c.isDigit = true :=
  Nat.isDigit_of_mem_toDigits (by decide) (by decide) h

theorem loadDigits_dumpNat (h : Ends rest) (n : Nat) :
    loadDigits 0 (dumpNat n ++ rest) = (n, rest) := by
  rw [dumpNat, loadDigits_digits h _ _ (fun c hc => isDigit_of_mem_digits hc),
    Nat.ofDigitChars_ten_toDigits]

/-- The text of a number starts with a digit. -/
theorem dumpNat_eq_cons (n : Nat) :
    ∃ d ds, dumpNat n = d :: ds ∧ 48 ≤ d ∧ d ≤ 57 := by
  have hne : Nat.toDigits 10 n ≠ [] := Nat.toDigits_ne_nil
  rw [dumpNat]
  cases hdigits : Nat.toDigits 10 n with
  | nil => exact absurd hdigits hne
  | cons c cs =>
      have hc := isDigit_of_mem_digits (hdigits ▸ mem_cons_self : c ∈ Nat.toDigits 10 n)
      exact ⟨c.toNat, cs.map Char.toNat, rfl, Char.isDigit_iff_toNat.mp hc⟩

/-! ## Arrays -/

theorem loadScalar_dumpItem (item : Scalar) (h : Ends rest) :
    loadScalar (dumpItem item ++ rest) = some (item, rest) := by
  cases item with
  | null => rfl
  | bool b =>
      cases b with
      | true => rfl
      | false => rfl
  | str s =>
      rw [dumpItem, cons_append, loadScalar, loadString_dumpChars]
      rfl
  | int i =>
      obtain ⟨d, ds, hd, hlo, hhi⟩ := dumpNat_eq_cons i.natAbs
      have hdigits := loadDigits_dumpNat h i.natAbs
      rw [dumpItem, dumpScalar]
      · by_cases hneg : i < 0
        · rw [if_pos hneg, hd, cons_append, cons_append, loadScalar]
          rw [if_pos ⟨hlo, hhi⟩, ← cons_append, ← hd, hdigits]
          dsimp only
          congr 3
          omega
        · rw [if_neg hneg, hd, cons_append, loadScalar]
          · rw [if_pos ⟨hlo, hhi⟩, ← cons_append, ← hd, hdigits]
            dsimp only
            congr 3
            omega
          all_goals
            intros
            omega
      · exact fun _ h => Scalar.noConfusion h

theorem ends_dumpItems (items : List Scalar) (rest : Codes) : Ends (dumpItems items ++ rest) := by
  intro c hc
  cases items with
  | nil =>
      obtain rfl := Option.some.inj hc
      omega
  | cons item items =>
      obtain rfl := Option.some.inj hc
      omega

theorem loadItems_dumpItems :
    ∀ (items : List Scalar) {fuel : Nat}, items.length ≤ fuel →
      loadItems fuel (dumpItems items) = some (items, [])
  | [], fuel, _ => by
      rw [dumpItems, flatMap_nil, nil_append, loadItems]
  | item :: items, 0, h => by
      rw [length_cons] at h
      omega
  | item :: items, fuel + 1, h => by
      have hrest := loadItems_dumpItems items (Nat.le_of_succ_le_succ h)
      have hitem : loadScalar (dumpItem item ++ dumpItems items) =
          some (item, dumpItems items) := by
        have hends := ends_dumpItems items []
        rw [append_nil] at hends
        exact loadScalar_dumpItem item hends
      have hcodes : dumpItems (item :: items) = 44 :: 32 :: (dumpItem item ++ dumpItems items) := by
        rw [dumpItems, flatMap_cons, append_assoc]
        rfl
      rw [hcodes, loadItems, hitem]
      simp only [Option.bind_eq_bind, Option.bind_some, hrest]

theorem length_le_dumpItems (items : List Scalar) : items.length ≤ (dumpItems items).length := by
  rw [dumpItems]
  induction items with
  | nil => exact Nat.zero_le _
  | cons item items ih =>
      rw [flatMap_cons, length_cons, append_assoc, length_append]
      simp only [length_cons]
      omega

/-! ## Texts -/

theorem isValidChar_of_lt {c : Nat} (h : c < 128) : c.isValidChar := Or.inl (by omega)

/-- Escapes are ASCII, and other characters stand for themselves. -/
theorem mem_escapeUnicode {c c' : Nat} (h : c' ∈ escapeUnicode c) : c' < 128 ∨ c' = c := by
  have hpair : ∀ e, e < 128 → c' ∈ [92, e] → c' < 128 := by
    intro e he hmem
    rcases mem_cons.mp hmem with rfl | hmem
    · decide
    · rwa [mem_singleton.mp hmem]
  have hdigit : ∀ n, n < 16 → hexDigit n < 128 := by
    intro n hn
    rw [hexDigit]
    split
    · omega
    · omega
  have hunit : ∀ n, c' ∈ escapeUnit n → c' < 128 := by
    intro n hmem
    simp only [escapeUnit, hex4, mem_cons, not_mem_nil, or_false] at hmem
    rcases hmem with rfl | rfl | rfl | rfl | rfl | rfl
    · decide
    · decide
    · exact hdigit _ (Nat.mod_lt _ (by decide))
    · exact hdigit _ (Nat.mod_lt _ (by decide))
    · exact hdigit _ (Nat.mod_lt _ (by decide))
    · exact hdigit _ (Nat.mod_lt _ (by decide))
  rw [escapeUnicode] at h
  split_ifs at h
  · exact Or.inl (hpair 34 (by decide) h)
  · exact Or.inl (hpair 92 (by decide) h)
  · exact Or.inl (hpair 110 (by decide) h)
  · exact Or.inl (hpair 114 (by decide) h)
  · exact Or.inl (hpair 116 (by decide) h)
  · exact Or.inl (hpair 102 (by decide) h)
  · exact Or.inl (hpair 98 (by decide) h)
  · exact Or.inl (hunit c h)
  · exact Or.inr (mem_singleton.mp h)

theorem isValidChar_dumpChars (s : String) : ∀ c ∈ dumpChars s, c.isValidChar := by
  intro c hc
  rcases mem_append.mp hc with hc | hc
  · obtain ⟨c', hc', hmem⟩ := mem_flatMap.mp hc
    rcases mem_escapeUnicode hmem with hlt | rfl
    · exact isValidChar_of_lt hlt
    · obtain ⟨ch, -, rfl⟩ := mem_map.mp hc'
      exact ch.valid
  · rw [mem_singleton.mp hc]
    exact isValidChar_of_lt (by decide)

theorem isValidChar_dumpNat (n : Nat) : ∀ c ∈ dumpNat n, c.isValidChar := by
  intro c hc
  obtain ⟨ch, -, rfl⟩ := mem_map.mp hc
  exact ch.valid

theorem isValidChar_codes (s : String) : ∀ c ∈ codes s, c.isValidChar := by
  intro c hc
  obtain ⟨ch, -, rfl⟩ := mem_map.mp hc
  exact ch.valid

theorem isValidChar_dumpItem (item : Scalar) : ∀ c ∈ dumpItem item, c.isValidChar := by
  cases item with
  | null => exact isValidChar_codes "null"
  | bool b =>
      cases b with
      | true => exact isValidChar_codes "true"
      | false => exact isValidChar_codes "false"
  | str s =>
      intro c hc
      rcases mem_cons.mp hc with rfl | hc
      · exact isValidChar_of_lt (by decide)
      · exact isValidChar_dumpChars s c hc
  | int i =>
      intro c hc
      have hint : c ∈ if i < 0 then 45 :: dumpNat i.natAbs else dumpNat i.natAbs := hc
      split at hint
      · rcases mem_cons.mp hint with rfl | hint
        · exact isValidChar_of_lt (by decide)
        · exact isValidChar_dumpNat _ c hint
      · exact isValidChar_dumpNat _ c hint

theorem isValidChar_arrayCodes (items : List Scalar) :
    ∀ c ∈ arrayCodes items, c.isValidChar := by
  intro c hc
  cases items with
  | nil =>
      have hlt : c < 128 := by
        rcases mem_cons.mp hc with rfl | hc
        · decide
        · rw [mem_singleton.mp hc]
          decide
      exact isValidChar_of_lt hlt
  | cons item items =>
      rcases mem_cons.mp hc with rfl | hc
      · exact isValidChar_of_lt (by decide)
      rcases mem_append.mp hc with hc | hc
      · exact isValidChar_dumpItem item c hc
      rcases mem_append.mp hc with hc | hc
      · obtain ⟨item', -, hc⟩ := mem_flatMap.mp hc
        rcases mem_cons.mp hc with rfl | hc
        · exact isValidChar_of_lt (by decide)
        rcases mem_cons.mp hc with rfl | hc
        · exact isValidChar_of_lt (by decide)
        exact isValidChar_dumpItem item' c hc
      · rw [mem_singleton.mp hc]
        exact isValidChar_of_lt (by decide)

theorem codes_dumpArray (items : List Scalar) : codes (dumpArray items) = arrayCodes items := by
  rw [codes, dumpArray, String.toList_ofList, map_map]
  refine (map_congr_left (fun c hc => ?_)).trans (map_id _)
  have hvalid := isValidChar_arrayCodes items c hc
  have hof : Char.ofNat c = Char.ofNatAux c hvalid := dif_pos hvalid
  show (Char.ofNat c).toNat = c
  rw [hof]
  rfl

/-- A written array is read back. -/
theorem loadArray_dumpArray (items : List Scalar) : loadArray (dumpArray items) = some items := by
  rw [loadArray, codes_dumpArray]
  cases items with
  | nil => rfl
  | cons item items =>
      have hitem : loadScalar (dumpItem item ++ dumpItems items) =
          some (item, dumpItems items) := by
        have hends := ends_dumpItems items []
        rw [append_nil] at hends
        exact loadScalar_dumpItem item hends
      have hitems := loadItems_dumpItems items (length_le_dumpItems items)
      rw [arrayCodes]
      split
      · next h =>
          have h' := (List.cons.inj h).2
          rw [h'] at hitem
          cases item <;> cases hitem
      · next rest _ h =>
          obtain rfl := (List.cons.inj h).2
          rw [hitem]
          dsimp only
          rw [hitems]
      · next h => exact (h _ rfl).elim

end SoupDB.Json
