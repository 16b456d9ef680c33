import SoupDB.Lib.Double
import Mathlib.Data.Prod.Lex
import Mathlib.Data.List.Lex
import Mathlib.Data.Char

/-!
# SoupDB: values, errors and record identifiers

The values that rows, SQL literals and index keys are made of, with the
comparison rules of the host language: numbers compare by their exact value
whatever their type, strings by code points, tuples lexicographically, and
every other pair of types cannot be ordered.  A FLOAT is the 64 bits of a double;
with a NaN nothing holds but `!=`, and no comparison of numbers raises.

`Value.ord` maps a value to a list of tokens so that, on values that can be
ordered at all (`Comparable`), the comparison of the code is the lexicographic
order of the tokens.  All order reasoning about keys goes through it.
-/

namespace SoupDB

/-- The exceptions the modelled code raises, with the texts it gives them. -/
inductive PyError
  | ValueError (message : String)
  | TypeError (message : String)
  | IndexError (message : String)
  | RuntimeError (message : String)
  | AttributeError (message : String)
  | StructError (message : String)
  | OverflowError (message : String)
  | OSError (message : String)
  | UnicodeDecodeError
  | UnsupportedOperation (message : String)
  | TransactionError (message : String)
  | LockNotGranted (message : String)
  | DeadlockDetected (message : String)
  | ProtocolError (message : String)
  | QueryParseError (message : String)
  | QueryExecutionError (message : String)
  | ContractViolation (message : String)
  | RecordNotFound (message : String)
  | KeyError (key : String)
  | AssertionError
  /-- Stands for a loop that does not end. -/
  | NonTermination
deriving DecidableEq, Repr

/-- Record identifier: a page and a slot of that page. -/
structure RID where
  pageId : Int
  slot : Int
deriving DecidableEq, Repr

/-- A run-time value: a column value, a literal or an index key.  A POINT value is
a tuple of two floats. -/
inductive Value
  | null
  | bool (b : Bool)
  | int (i : Int)
  | float (bits : UInt64)
  | str (s : String)
  | tuple (items : List Value)
deriving Repr, Inhabited

namespace Value

/-- The numeric value of a number that is no NaN; `bool` is a subtype of `int`. -/
def number? : Value → Option Double.Number
  | .bool b => some (Double.finite (if b then 1 else 0))
  | .int i => some (Double.finite i)
  | .float bits => Double.number bits
  | _ => none

def isNumber : Value → Bool
  | .bool _ | .int _ | .float _ => true
  | _ => false

/-- `==` of two numbers; false for a NaN and for what is no number. -/
def numbersEq : Option Double.Number → Option Double.Number → Bool
  | some x, some y => x == y
  | _, _ => false

mutual

/-- `left == right`. -/
def eq : Value → Value → Bool
  | .null, .null => true
  | .str a, .str b => a == b
  | .tuple as, .tuple bs => eqItems as bs
  | a, b => numbersEq a.number? b.number?

/-- `==` on the items of two tuples. -/
def eqItems : List Value → List Value → Bool
  | [], [] => true
  | a :: as, b :: bs => eq a b && eqItems as bs
  | _, _ => false

end

/-- Three-way comparison of two elements of a decidable order. -/
def compareBy {α : Type} [LT α] [DecidableLT α] [DecidableEq α] (a b : α) : Ordering :=
  if a < b then .lt else if a = b then .eq else .gt

/-- The order of two numbers, if both are numbers and none is a NaN. -/
def numbersCmp : Option Double.Number → Option Double.Number → Option Ordering
  | some x, some y => some (compareBy x y)
  | _, _ => none

mutual

/-- The order of two values, `none` where they have none. -/
def cmp : Value → Value → Option Ordering
  | .str a, .str b => some (compareBy a.toList b.toList)
  | .tuple as, .tuple bs => cmpItems as bs
  | a, b => numbersCmp a.number? b.number?

/-- Tuples are ordered by their first items that are not `==`, then by length. -/
def cmpItems : List Value → List Value → Option Ordering
  | [], [] => some .eq
  | [], _ :: _ => some .lt
  | _ :: _, [] => some .gt
  | a :: as, b :: bs => if eq a b then cmpItems as bs else cmp a b

end

mutual

/-- The values have no order and yet their comparison does not raise: it is about a NaN. -/
def unordered : Value → Value → Bool
  | .tuple as, .tuple bs => unorderedItems as bs
  | a, b => a.isNumber && b.isNumber && (a.number?.isNone || b.number?.isNone)

def unorderedItems : List Value → List Value → Bool
  | a :: as, b :: bs => if eq a b then unorderedItems as bs else unordered a b
  | _, _ => false

end

/-- A comparison operator of the host language, by the orders it holds for. -/
def compared (symbol : String) (holds : Ordering → Bool) (a b : Value) : Except PyError Bool :=
  match cmp a b with
  | some o => .ok (holds o)
  | none =>
      if unordered a b then .ok false
      else .error (.TypeError s!"'{symbol}' not supported between these types")

/-! ## The order behind the comparisons -/

/-- Tokens compared lexicographically: a class of characters and its value. -/
abbrev Token := ℕ ×ₗ Double.Number

/-- Closes a tuple; below every other token. -/
def closeToken : Token := toLex (0, 0)

/-- Ends a string; below every character. -/
def endToken : Token := toLex (2, 0)

/-- The tokens of a string without its end. -/
def charTokens (cs : List Char) : List Token :=
  cs.map (fun c => toLex (3, Double.finite c.toNat))

mutual

/-- The tokens of a value.  Token lists of values that can be ordered are ordered
lexicographically as the values are. -/
def ord : Value → List Token
  | .null => [toLex (5, 0)]
  | .bool b => [toLex (1, Double.finite (if b then 1 else 0))]
  | .int i => [toLex (1, Double.finite i)]
  | .float bits => [toLex (1, (Double.number bits).getD ⊤)]
  | .str s => charTokens s.toList ++ [endToken]
  | .tuple items => toLex (4, 0) :: ordItems items

/-- The tokens of the items of a tuple and of its closing. -/
def ordItems : List Value → List Token
  | [] => [closeToken]
  | v :: vs => ord v ++ ordItems vs

end

theorem token_lt_iff (a b : Token) :
    a < b ↔ (ofLex a).1 < (ofLex b).1 ∨
      (ofLex a).1 = (ofLex b).1 ∧ (ofLex a).2 < (ofLex b).2 :=
  Prod.Lex.lt_iff

variable {x : Double.Number} {o : Ordering} {a b : Value} {holds : Ordering → Bool}

theorem ord_number {v : Value} (h : v.number? = some x) : v.ord = [toLex (1, x)] := by
  cases v <;> simp_all [number?, ord]

theorem ord_head (v : Value) :
    ∃ t ts, v.ord = t :: ts ∧ closeToken < t := by
  cases v with
  | null => exact ⟨_, _, rfl, by simp [token_lt_iff, closeToken]⟩
  | bool b => exact ⟨_, _, rfl, by simp [token_lt_iff, closeToken]⟩
  | int i => exact ⟨_, _, rfl, by simp [token_lt_iff, closeToken]⟩
  | float q => exact ⟨_, _, rfl, by simp [token_lt_iff, closeToken]⟩
  | str s =>
      cases hs : s.toList with
      | nil =>
          exact ⟨endToken, [], by simp [ord, hs, charTokens],
            by simp [token_lt_iff, closeToken, endToken]⟩
      | cons c cs =>
          exact ⟨toLex (3, Double.finite c.toNat), charTokens cs ++ [endToken],
            by simp [ord, hs, charTokens], by simp [token_lt_iff, closeToken]⟩
  | tuple items => exact ⟨_, _, rfl, by simp [token_lt_iff, closeToken]⟩

/-- A strictly smaller string has smaller tokens, whatever follows the ends. -/
theorem charTokens_lt {as bs : List Char} (h : as < bs) (s t : List Token) :
    charTokens as ++ endToken :: s < charTokens bs ++ endToken :: t := by
  induction as generalizing bs with
  | nil =>
      cases bs with
      | nil => simp at h
      | cons b bs =>
          apply List.Lex.rel
          simp [token_lt_iff, endToken]
  | cons a as ih =>
      cases bs with
      | nil => simp at h
      | cons b bs =>
          rcases List.cons_lt_cons_iff.mp h with hab | ⟨rfl, hrest⟩
          · apply List.Lex.rel
            have hn : a.toNat < b.toNat := hab
            simp [token_lt_iff, Double.finite_lt, hn]
          · exact List.Lex.cons (ih hrest)

@[simp] theorem numbersEq_none (y : Option Double.Number) : numbersEq none y = false := rfl

@[simp] theorem numbersCmp_none (y : Option Double.Number) : numbersCmp none y = none := rfl

theorem numbersEq_iff {x y : Option Double.Number} :
    numbersEq x y = true ↔ ∃ z, x = some z ∧ y = some z := by
  constructor
  · intro h
    unfold numbersEq at h
    split at h
    · next x y => exact ⟨x, rfl, by rw [eq_of_beq h]⟩
    · cases h
  · rintro ⟨z, rfl, rfl⟩
    exact beq_self_eq_true z

theorem numbersCmp_iff {x y : Option Double.Number} :
    numbersCmp x y = some o ↔ ∃ z, x = some z ∧ ∃ w, y = some w ∧ o = compareBy z w := by
  constructor
  · intro h
    unfold numbersCmp at h
    split at h
    · next x y => exact ⟨x, rfl, y, rfl, (Option.some.inj h).symm⟩
    · cases h
  · rintro ⟨z, rfl, w, rfl, rfl⟩
    rfl

theorem eq_number {y : Double.Number} (ha : a.number? = some x) (hb : b.number? = some y) :
    eq a b = (x == y) := by
  cases a <;> cases b <;> simp_all [number?, eq, numbersEq]

theorem cmp_number {y : Double.Number} (ha : a.number? = some x) (hb : b.number? = some y) :
    cmp a b = some (compareBy x y) := by
  cases a <;> cases b <;> simp_all [number?, cmp, numbersCmp]

theorem eq_int {i j : Int} : eq (.int i) (.int j) = true ↔ i = j := by
  rw [eq_number rfl rfl, beq_iff_eq, Double.finite_inj, Rat.intCast_inj]

theorem cmp_number_none (ha : a.number? = some x) (hb : b.number? = none) : cmp a b = none := by
  cases a <;> cases b <;> simp_all [number?, cmp, numbersCmp]

/-- Two values that are `==` are both NULL, both strings, both tuples or both numbers. -/
theorem eq_cases (h : eq a b = true) :
    (a = .null ∧ b = .null) ∨ (∃ s, a = .str s ∧ b = .str s) ∨
      (∃ as bs, a = .tuple as ∧ b = .tuple bs ∧ eqItems as bs = true) ∨
      (∃ x, a.number? = some x ∧ b.number? = some x) := by
  cases a <;> cases b <;> simp_all [eq, number?, numbersEq_iff]

/-- Two values that can be ordered are both strings, both tuples or both numbers. -/
theorem cmp_cases (h : cmp a b = some o) :
    (∃ s t, a = .str s ∧ b = .str t ∧ o = compareBy s.toList t.toList) ∨
      (∃ as bs, a = .tuple as ∧ b = .tuple bs ∧ cmpItems as bs = some o) ∨
      (∃ x y, a.number? = some x ∧ b.number? = some y ∧ o = compareBy x y) := by
  cases a <;> cases b <;> simp_all [cmp, number?, numbersCmp_iff]

section CompareBy

variable {α : Type} [LT α] [DecidableLT α] [DecidableEq α] {a b : α}

theorem compareBy_lt (h : compareBy a b = .lt) : a < b := by
  unfold compareBy at h
  split_ifs at h with h1 h2
  exact h1

theorem compareBy_eq (h : compareBy a b = .eq) : a = b := by
  unfold compareBy at h
  split_ifs at h with h1 h2
  exact h2

/-- Swapping the arguments swaps the result, in a total order. -/
theorem compareBy_swap (htri : ∀ x y : α, x < y ∨ x = y ∨ y < x)
    (hasymm : ∀ x y : α, x < y → ¬ y < x) (a b : α) :
    compareBy b a = (compareBy a b).swap := by
  unfold compareBy
  rcases htri a b with h | rfl | h
  · have hne : b ≠ a := fun hba => hasymm a b h (hba ▸ h)
    simp [h, hasymm a b h, hne]
  · by_cases h : a < a
    · exact absurd h (hasymm a a h)
    · simp [h]
  · have hne : a ≠ b := fun hab => hasymm b a h (hab ▸ h)
    simp [h, hasymm b a h, hne]

end CompareBy

mutual

/-- Values that are `==` have the same tokens. -/
theorem ord_eq_of_eq : ∀ a b : Value, eq a b = true → ord a = ord b
  | a, b, h => by
      rcases eq_cases h with ⟨rfl, rfl⟩ | ⟨s, rfl, rfl⟩ | ⟨as, bs, rfl, rfl, hs⟩ | ⟨x, ha, hb⟩
      · rfl
      · rfl
      · simp only [ord, ordItems_eq_of_eq as bs hs]
      · rw [ord_number ha, ord_number hb]

theorem ordItems_eq_of_eq : ∀ as bs : List Value,
    eqItems as bs = true → ordItems as = ordItems bs
  | [], [], _ => rfl
  | a :: as, b :: bs, h => by
      simp only [eqItems, Bool.and_eq_true] at h
      simp only [ordItems, ord_eq_of_eq a b h.1, ordItems_eq_of_eq as bs h.2]

end

mutual

/-- Only values that are `==` compare as equal. -/
theorem eq_of_cmp : ∀ a b : Value, cmp a b = some .eq → eq a b = true
  | a, b, h => by
      rcases cmp_cases h with ⟨s, t, rfl, rfl, ho⟩ | ⟨as, bs, rfl, rfl, hs⟩ | ⟨x, y, ha, hb, ho⟩
      · simp [eq, String.toList_injective (compareBy_eq ho.symm)]
      · simpa only [eq] using eqItems_of_cmpItems as bs hs
      · simp [eq_number ha hb, compareBy_eq ho.symm]

theorem eqItems_of_cmpItems : ∀ as bs : List Value,
    cmpItems as bs = some .eq → eqItems as bs = true
  | [], [], _ => rfl
  | [], _ :: _, h => by simp [cmpItems] at h
  | _ :: _, [], h => by simp [cmpItems] at h
  | a :: as, b :: bs, h => by
      by_cases hab : eq a b = true
      · simp only [cmpItems, hab, if_true] at h
        simp only [eqItems, hab, Bool.true_and]
        exact eqItems_of_cmpItems as bs h
      · simp only [cmpItems, hab, Bool.false_eq_true, if_false] at h
        exact absurd (eq_of_cmp a b h) hab

end

mutual

/-- A value that compares as smaller has smaller tokens, whatever follows them. -/
theorem ord_lt_of_cmp : ∀ (a b : Value) (s t : List Token),
    cmp a b = some .lt → ord a ++ s < ord b ++ t
  | a, b, s, t, h => by
      rcases cmp_cases h with ⟨u, v, rfl, rfl, ho⟩ | ⟨as, bs, rfl, rfl, hs⟩ | ⟨x, y, ha, hb, ho⟩
      · have huv : u.toList < v.toList := compareBy_lt ho.symm
        simpa [ord] using charTokens_lt huv s t
      · exact List.Lex.cons (ordItems_lt_of_cmpItems as bs s t hs)
      · rw [ord_number ha, ord_number hb]
        apply List.Lex.rel
        simp [token_lt_iff, compareBy_lt ho.symm]

theorem ordItems_lt_of_cmpItems : ∀ (as bs : List Value) (s t : List Token),
    cmpItems as bs = some .lt → ordItems as ++ s < ordItems bs ++ t
  | [], [], s, t, h => by simp [cmpItems] at h
  | [], b :: bs, s, t, _ => by
      obtain ⟨x, xs, hx, hlt⟩ := ord_head b
      simp only [ordItems, hx, List.cons_append, List.nil_append]
      exact List.Lex.rel hlt
  | _ :: _, [], s, t, h => by simp [cmpItems] at h
  | a :: as, b :: bs, s, t, h => by
      by_cases hab : eq a b = true
      · simp only [cmpItems, hab, if_true] at h
        simp only [ordItems, ord_eq_of_eq a b hab, List.append_assoc]
        exact List.append_left_lt (ordItems_lt_of_cmpItems as bs s t h)
      · simp only [cmpItems, hab, Bool.false_eq_true, if_false] at h
        simp only [ordItems, List.append_assoc]
        exact ord_lt_of_cmp a b _ _ h

end

mutual

theorem eq_swap : ∀ a b : Value, eq a b = true → eq b a = true
  | a, b, h => by
      rcases eq_cases h with ⟨rfl, rfl⟩ | ⟨s, rfl, rfl⟩ | ⟨as, bs, rfl, rfl, hs⟩ | ⟨x, ha, hb⟩
      · rfl
      · simp [eq]
      · simpa only [eq] using eqItems_swap as bs hs
      · simp [eq_number hb ha]

theorem eqItems_swap : ∀ as bs : List Value, eqItems as bs = true → eqItems bs as = true
  | [], [], _ => rfl
  | a :: as, b :: bs, h => by
      simp only [eqItems, Bool.and_eq_true] at h ⊢
      exact ⟨eq_swap a b h.1, eqItems_swap as bs h.2⟩

end

theorem eq_comm (a b : Value) : eq a b = eq b a :=
  Bool.eq_iff_iff.mpr ⟨eq_swap a b, eq_swap b a⟩

mutual

theorem cmp_swap : ∀ (a b : Value) (o : Ordering), cmp a b = some o → cmp b a = some o.swap
  | a, b, o, h => by
      rcases cmp_cases h with ⟨u, v, rfl, rfl, rfl⟩ | ⟨as, bs, rfl, rfl, hs⟩ | ⟨x, y, ha, hb, rfl⟩
      · simp only [cmp, compareBy_swap lt_trichotomy (fun x y => lt_asymm) u.toList v.toList]
      · simpa only [cmp] using cmpItems_swap as bs o hs
      · rw [cmp_number hb ha, compareBy_swap lt_trichotomy (fun x y => lt_asymm) x y]

theorem cmpItems_swap : ∀ (as bs : List Value) (o : Ordering),
    cmpItems as bs = some o → cmpItems bs as = some o.swap
  | [], [], o, h => by
      simp only [cmpItems, Option.some.injEq] at h
      simp [cmpItems, ← h]
  | [], _ :: _, o, h => by
      simp only [cmpItems, Option.some.injEq] at h
      simp [cmpItems, ← h]
  | _ :: _, [], o, h => by
      simp only [cmpItems, Option.some.injEq] at h
      simp [cmpItems, ← h]
  | a :: as, b :: bs, o, h => by
      by_cases hab : eq a b = true
      · simp only [cmpItems, hab, if_true] at h
        simp only [cmpItems, eq_comm b a, hab, if_true]
        exact cmpItems_swap as bs o h
      · simp only [cmpItems, hab, Bool.false_eq_true, if_false] at h
        simp only [cmpItems, eq_comm b a, hab, Bool.false_eq_true, if_false]
        exact cmp_swap a b o h

end

/-- Whether `<` between the two values returns instead of raising `TypeError`. -/
def Comparable (a b : Value) : Prop := (cmp a b).isSome = true

instance (a b : Value) : Decidable (Comparable a b) :=
  inferInstanceAs (Decidable ((cmp a b).isSome = true))

theorem Comparable.symm (h : Comparable a b) : Comparable b a := by
  obtain ⟨o, ho⟩ := Option.isSome_iff_exists.mp h
  exact Option.isSome_iff_exists.mpr ⟨_, cmp_swap a b o ho⟩

/-- A comparison that returns gives the order of the tokens. -/
theorem ord_of_cmp (h : cmp a b = some o) :
    (o = .lt ∧ ord a < ord b) ∨ (o = .eq ∧ ord a = ord b) ∨ (o = .gt ∧ ord b < ord a) := by
  cases o with
  | lt => exact Or.inl ⟨rfl, by simpa using ord_lt_of_cmp a b [] [] h⟩
  | eq => exact Or.inr (Or.inl ⟨rfl, ord_eq_of_eq a b (eq_of_cmp a b h)⟩)
  | gt => exact Or.inr (Or.inr ⟨rfl, by simpa using ord_lt_of_cmp b a [] [] (cmp_swap a b .gt h)⟩)

/-- On values that can be ordered, `==` is equality of the tokens. -/
theorem Comparable.eq_iff (h : Comparable a b) : eq a b = true ↔ ord a = ord b := by
  constructor
  · exact ord_eq_of_eq a b
  · intro hord
    obtain ⟨o, ho⟩ := Option.isSome_iff_exists.mp h
    rcases ord_of_cmp ho with ⟨rfl, hlt⟩ | ⟨rfl, _⟩ | ⟨rfl, hgt⟩
    · exact absurd hord hlt.ne
    · exact eq_of_cmp a b ho
    · exact absurd hord.symm hgt.ne

theorem cmpItems_of_eqItems : ∀ {as bs : List Value}, eqItems as bs = true →
    cmpItems as bs = some .eq
  | [], [], _ => rfl
  | [], _ :: _, h => by simp [eqItems] at h
  | _ :: _, [], h => by simp [eqItems] at h
  | a :: as, b :: bs, h => by
      simp only [eqItems, Bool.and_eq_true] at h
      simp only [cmpItems, h.1, if_true]
      exact cmpItems_of_eqItems h.2

/-- Values that are `==` can be ordered, NULL apart. -/
theorem comparable_of_eq (h : eq a b = true) (hne : a ≠ .null) : Comparable a b := by
  rcases eq_cases h with ⟨rfl, rfl⟩ | ⟨s, rfl, rfl⟩ | ⟨as, bs, rfl, rfl, hs⟩ | ⟨x, ha, hb⟩
  · exact absurd rfl hne
  · simp [Comparable, cmp]
  · simp [Comparable, cmp, cmpItems_of_eqItems hs]
  · simp [Comparable, cmp_number ha hb]

theorem Comparable.ne_null (h : Comparable a b) : a ≠ .null := by
  rintro rfl
  cases b <;> simp [Comparable, cmp, number?] at h

mutual

theorem eq_trans : ∀ {a b c : Value}, eq a b = true → eq b c = true → eq a c = true
  | a, b, c, hab, hbc => by
      rcases eq_cases hab with ⟨rfl, rfl⟩ | ⟨s, rfl, rfl⟩ | ⟨as, bs, rfl, rfl, hs⟩ | ⟨x, ha, hb⟩
      · exact hbc
      · exact hbc
      · rcases eq_cases hbc with ⟨hb, _⟩ | ⟨_, hb, _⟩ | ⟨_, cs, hb, rfl, hs'⟩ | ⟨_, hb, _⟩
        · cases hb
        · cases hb
        · obtain rfl : bs = _ := Value.tuple.inj hb
          simpa only [eq] using eqItems_trans hs hs'
        · cases hb
      · rcases eq_cases hbc with ⟨rfl, _⟩ | ⟨_, rfl, _⟩ | ⟨_, _, rfl, _⟩ | ⟨y, hb', hc⟩
        · cases hb
        · cases hb
        · cases hb
        · rw [hb, Option.some.injEq] at hb'
          simp [eq_number ha hc, hb']

theorem eqItems_trans : ∀ {as bs cs : List Value}, eqItems as bs = true →
    eqItems bs cs = true → eqItems as cs = true
  | [], [], _, _, h => h
  | [], _ :: _, _, h, _ => by simp [eqItems] at h
  | _ :: _, [], _, h, _ => by simp [eqItems] at h
  | _ :: _, _ :: _, [], _, h => by simp [eqItems] at h
  | a :: as, b :: bs, c :: cs, h, h' => by
      simp only [eqItems, Bool.and_eq_true] at h h' ⊢
      exact ⟨eq_trans h.1 h'.1, eqItems_trans h.2 h'.2⟩

end

theorem null_of_eq (h : eq .null b = true) : b = .null := by
  rcases eq_cases h with ⟨_, hb⟩ | ⟨_, ha, _⟩ | ⟨_, _, ha, _⟩ | ⟨_, ha, _⟩
  · exact hb
  · cases ha
  · cases ha
  · cases ha

/-- A value without a NaN that is not NULL can be ordered with itself. -/
theorem Comparable.self (h : eq a a = true) (hne : a ≠ .null) : Comparable a a :=
  comparable_of_eq h hne

/-- There is no NaN in a value that can be ordered with itself. -/
theorem Comparable.eq_self (h : Comparable a a) : eq a a = true :=
  h.eq_iff.mpr rfl

theorem le_of_append_le {s as bs : List Token} (h : s ++ as ≤ s ++ bs) : as ≤ bs := by
  by_contra hnot
  exact absurd h (not_le.mpr (List.append_left_lt (not_le.mp hnot)))

/-- Values that can be ordered are in the order of their tokens, whatever follows them. -/
theorem ord_le_of_append {s t : List Token} (hcomp : Comparable a b) (h : ord a ++ s ≤ ord b ++ t) :
    ord a ≤ ord b := by
  obtain ⟨o, ho⟩ := Option.isSome_iff_exists.mp hcomp
  rcases ord_of_cmp ho with ⟨_, hlt⟩ | ⟨_, heq⟩ | ⟨rfl, _⟩
  · exact hlt.le
  · exact heq.le
  · exact absurd h (not_le.mpr (ord_lt_of_cmp b a t s (cmp_swap a b .gt ho)))

/-- Two items of tuples that stand in order: they are `==`, or they can be ordered. -/
theorem items_cases {as bs : List Value} (h : cmpItems (a :: as) (b :: bs) = some o)
    (hle : ordItems (a :: as) ≤ ordItems (b :: bs)) :
    (eq a b = true ∧ cmpItems as bs = some o ∧ ordItems as ≤ ordItems bs) ∨
      (eq a b = false ∧ Comparable a b ∧ ord a < ord b) := by
  simp only [ordItems] at hle
  cases hab : eq a b with
  | true =>
      simp only [cmpItems, hab, if_true] at h
      rw [ord_eq_of_eq a b hab] at hle
      exact Or.inl ⟨rfl, h, le_of_append_le hle⟩
  | false =>
      simp only [cmpItems, hab, Bool.false_eq_true, if_false] at h
      have hcomp : Comparable a b := Option.isSome_iff_exists.mpr ⟨o, h⟩
      refine Or.inr ⟨rfl, hcomp, lt_of_le_of_ne (ord_le_of_append hcomp hle) ?_⟩
      intro heq
      rw [hcomp.eq_iff.mpr heq] at hab
      cases hab

mutual

/-- What can be ordered with a value between two others makes these two comparable. -/
theorem Comparable.between : ∀ {a b c : Value}, Comparable a b → Comparable b c →
    ord a ≤ ord b → ord b ≤ ord c → Comparable a c
  | a, b, c, hab, hbc, hle, hle' => by
      obtain ⟨o, ho⟩ := Option.isSome_iff_exists.mp hab
      obtain ⟨o', ho'⟩ := Option.isSome_iff_exists.mp hbc
      rcases cmp_cases ho with ⟨u, v, rfl, rfl, _⟩ | ⟨as, bs, rfl, rfl, hs⟩ | ⟨x, y, ha, hb, _⟩
      · rcases cmp_cases ho' with ⟨_, w, _, rfl, _⟩ | ⟨_, _, hb, _⟩ | ⟨_, _, hb, _⟩
        · simp [Comparable, cmp]
        · cases hb
        · cases hb
      · rcases cmp_cases ho' with ⟨_, _, hb, _⟩ | ⟨_, cs, hb, rfl, hs'⟩ | ⟨_, _, hb, _⟩
        · cases hb
        · obtain rfl : bs = _ := Value.tuple.inj hb
          have hitems := between_items hs hs' (le_of_append_le (s := [toLex (4, 0)]) hle)
            (le_of_append_le (s := [toLex (4, 0)]) hle')
          simpa [Comparable, cmp] using hitems
        · cases hb
      · rcases cmp_cases ho' with ⟨_, _, rfl, _⟩ | ⟨_, _, rfl, _⟩ | ⟨_, z, _, hc, _⟩
        · cases hb
        · cases hb
        · simp [Comparable, cmp_number ha hc]

theorem between_items : ∀ {as bs cs : List Value} {o o' : Ordering},
    cmpItems as bs = some o → cmpItems bs cs = some o' → ordItems as ≤ ordItems bs →
      ordItems bs ≤ ordItems cs → (cmpItems as cs).isSome = true
  | [], _, [], _, _, _, _, _, _ => by simp [cmpItems]
  | [], _, _ :: _, _, _, _, _, _, _ => by simp [cmpItems]
  | _ :: _, _, [], _, _, _, _, _, _ => by simp [cmpItems]
  | a :: as, [], _ :: _, _, _, _, _, hle, _ => by
      obtain ⟨t, ts, ht, hlt⟩ := ord_head a
      simp only [ordItems, ht, List.cons_append] at hle
      exact absurd hle (not_le.mpr (List.Lex.rel hlt))
  | a :: as, b :: bs, c :: cs, _, _, h, h', hle, hle' => by
      rcases items_cases h hle with ⟨hab, hs, hles⟩ | ⟨hab, hcomp, hlt⟩
      · rcases items_cases h' hle' with ⟨hbc, hs', hles'⟩ | ⟨hbc, hcomp', hlt'⟩
        · have hac : eq a c = true := eq_trans hab hbc
          simp only [cmpItems, hac, if_true]
          exact between_items hs hs' hles hles'
        · have hac : eq a c = false := by
            rw [Bool.eq_false_iff]
            intro heq
            rw [eq_trans (eq_swap a b hab) heq] at hbc
            cases hbc
          have hne : a ≠ .null := by
            rintro rfl
            exact hcomp'.ne_null (null_of_eq hab)
          simp only [cmpItems, hac, Bool.false_eq_true, if_false]
          exact Comparable.between (comparable_of_eq hab hne) hcomp' (ord_eq_of_eq a b hab).le
            hlt'.le
      · have hac : ord b ≤ ord c → eq a c = false := by
          intro hbc
          rw [Bool.eq_false_iff]
          intro heq
          exact absurd (ord_eq_of_eq a c heq) (hlt.trans_le hbc).ne
        rcases items_cases h' hle' with ⟨hbc, hs', hles'⟩ | ⟨hbc, hcomp', hlt'⟩
        · have hbc' := (ord_eq_of_eq b c hbc).le
          simp only [cmpItems, hac hbc', Bool.false_eq_true, if_false]
          exact Comparable.between hcomp (comparable_of_eq hbc hcomp.symm.ne_null) hlt.le hbc'
        · simp only [cmpItems, hac hlt'.le, Bool.false_eq_true, if_false]
          exact Comparable.between hcomp hcomp' hlt.le hlt'.le

end

/-- `left <= right`, false where the comparison raises. -/
def le (a b : Value) : Bool := cmp a b == some .lt || cmp a b == some .eq

/-- On values that can be ordered, `<=` is the order of the tokens. -/
theorem Comparable.le_iff (h : Comparable a b) : le a b = true ↔ ord a ≤ ord b := by
  obtain ⟨o, ho⟩ := Option.isSome_iff_exists.mp h
  unfold le
  rw [ho]
  rcases ord_of_cmp ho with ⟨rfl, hlt⟩ | ⟨rfl, heq⟩ | ⟨rfl, hgt⟩
  · simp [hlt.le]
  · simp [heq]
  · simp [hgt]

theorem ord_le_of_le (h : le a b = true) : ord a ≤ ord b := by
  have hcomp : Comparable a b := by
    rw [le, Bool.or_eq_true, beq_iff_eq, beq_iff_eq] at h
    rcases h with h | h <;> simp [Comparable, h]
  exact hcomp.le_iff.mp h

/-! ## The comparison operators -/

/-- `left < right`. -/
def lt : Value → Value → Except PyError Bool := compared "<" (· == .lt)

/-- `left >= right`. -/
def ge : Value → Value → Except PyError Bool := compared ">=" (· != .lt)

/-- `left > right`. -/
def gt : Value → Value → Except PyError Bool := compared ">" (· == .gt)

theorem lt_of_comparable (h : Comparable a b) : lt a b = .ok (decide (ord a < ord b)) := by
  obtain ⟨o, ho⟩ := Option.isSome_iff_exists.mp h
  unfold lt compared
  rcases ord_of_cmp ho with ⟨rfl, hlt⟩ | ⟨rfl, heq⟩ | ⟨rfl, hgt⟩
  · simp [ho, hlt]
  · simp [ho, heq]
  · simp [ho, hgt.le]

theorem ge_of_comparable (h : Comparable a b) : ge a b = .ok (decide (ord b ≤ ord a)) := by
  obtain ⟨o, ho⟩ := Option.isSome_iff_exists.mp h
  unfold ge compared
  rcases ord_of_cmp ho with ⟨rfl, hlt⟩ | ⟨rfl, heq⟩ | ⟨rfl, hgt⟩
  · simp [ho, not_le.mpr hlt]
  · simp [ho, heq]
  · simp [ho, hgt.le]

theorem gt_of_comparable (h : Comparable a b) : gt a b = .ok (decide (ord b < ord a)) := by
  obtain ⟨o, ho⟩ := Option.isSome_iff_exists.mp h
  unfold gt compared
  rcases ord_of_cmp ho with ⟨rfl, hlt⟩ | ⟨rfl, heq⟩ | ⟨rfl, hgt⟩
  · simp [ho, hlt.le]
  · simp [ho, heq]
  · simp [ho, hgt]

theorem isSome_number (hnumber : a.isNumber = true) (h : eq a a = true) :
    a.number?.isSome = true := by
  rcases eq_cases h with ⟨rfl, _⟩ | ⟨s, rfl, _⟩ | ⟨as, _, rfl, _⟩ | ⟨x, hx, _⟩
  · cases hnumber
  · cases hnumber
  · cases hnumber
  · rw [hx]
    rfl

theorem unordered_cases (a b : Value) : (∃ as bs, a = .tuple as ∧ b = .tuple bs) ∨
    unordered a b = (a.isNumber && b.isNumber && (a.number?.isNone || b.number?.isNone)) := by
  cases a <;> cases b <;> simp [unordered]

mutual

/-- Only a NaN makes two values unordered. -/
theorem unordered_eq_false : ∀ {a b : Value}, eq a a = true → eq b b = true →
    unordered a b = false
  | a, b, ha, hb => by
      rcases unordered_cases a b with ⟨as, bs, rfl, rfl⟩ | h
      · simp only [eq] at ha hb
        simpa only [unordered] using unorderedItems_eq_false ha hb
      · rw [h]
        cases hna : a.isNumber with
        | false => rfl
        | true =>
            cases hnb : b.isNumber with
            | false => rfl
            | true => simp [isSome_number hna ha, isSome_number hnb hb]

theorem unorderedItems_eq_false : ∀ {as bs : List Value}, eqItems as as = true →
    eqItems bs bs = true → unorderedItems as bs = false
  | [], _, _, _ => by simp [unorderedItems]
  | _ :: _, [], _, _ => by simp [unorderedItems]
  | a :: as, b :: bs, ha, hb => by
      simp only [eqItems, Bool.and_eq_true] at ha hb
      simp only [unorderedItems, unordered_eq_false ha.1 hb.1, unorderedItems_eq_false ha.2 hb.2,
        ite_self]

end

/-- A comparison that does not raise is one of values that can be ordered, or meets a NaN. -/
theorem comparable_of_compared {symbol : String} {result : Bool} (ha : eq a a = true)
    (hb : eq b b = true) (h : compared symbol holds a b = .ok result) : Comparable a b := by
  by_contra hnot
  have hnone : cmp a b = none := by
    simpa [Comparable] using hnot
  simp [compared, hnone, unordered_eq_false ha hb] at h

/-! ## Values that are `==` compare alike -/

theorem eq_congr (c : Value) (h : eq a b = true) : eq a c = eq b c := by
  rw [Bool.eq_iff_iff]
  constructor
  · intro hac
    exact eq_trans (eq_swap a b h) hac
  · intro hbc
    exact eq_trans h hbc

mutual

/-- Values that are `==` compare alike with every value. -/
theorem cmp_congr : ∀ {a b : Value} (c : Value), eq a b = true → cmp a c = cmp b c
  | a, b, c, h => by
      rcases eq_cases h with ⟨rfl, rfl⟩ | ⟨s, rfl, rfl⟩ | ⟨as, bs, rfl, rfl, hs⟩ | ⟨x, ha, hb⟩
      · rfl
      · rfl
      · cases c with
        | tuple cs =>
            simp only [cmp]
            exact cmpItems_congr cs hs
        | _ => simp [cmp, number?]
      · cases hc : c.number? with
        | some y => rw [cmp_number ha hc, cmp_number hb hc]
        | none => rw [cmp_number_none ha hc, cmp_number_none hb hc]

theorem cmpItems_congr : ∀ {as bs : List Value} (cs : List Value), eqItems as bs = true →
    cmpItems as cs = cmpItems bs cs
  | [], [], _, _ => rfl
  | [], _ :: _, _, h => by simp [eqItems] at h
  | _ :: _, [], _, h => by simp [eqItems] at h
  | _ :: _, _ :: _, [], _ => by simp [cmpItems]
  | a :: as, b :: bs, c :: cs, h => by
      simp only [eqItems, Bool.and_eq_true] at h
      simp only [cmpItems, eq_congr c h.1, cmp_congr c h.1, cmpItems_congr cs h.2]

end

theorem cmp_congr_right (c : Value) (h : eq a b = true) : cmp c a = cmp c b := by
  have hleft := cmp_congr c h
  cases hb : cmp b c with
  | some o => rw [cmp_swap b c o hb, cmp_swap a c o (hleft.trans hb)]
  | none =>
      have ha := hleft.trans hb
      cases hca : cmp c a with
      | some o =>
          rw [cmp_swap c a o hca] at ha
          cases ha
      | none =>
          cases hcb : cmp c b with
          | some o =>
              rw [cmp_swap c b o hcb] at hb
              cases hb
          | none => rfl

theorem isNumber_of_number (h : a.number? = some x) : a.isNumber = true := by
  cases a <;> simp_all [number?, isNumber]

theorem unordered_number {c : Value} (h : a.number? = some x) :
    unordered a c = (c.isNumber && c.number?.isNone) := by
  rcases unordered_cases a c with ⟨as, cs, rfl, rfl⟩ | hcases
  · cases h
  · simp [hcases, isNumber_of_number h, h]

mutual

theorem unordered_congr : ∀ {a b : Value} (c : Value), eq a b = true →
    unordered a c = unordered b c
  | a, b, c, h => by
      rcases eq_cases h with ⟨rfl, rfl⟩ | ⟨s, rfl, rfl⟩ | ⟨as, bs, rfl, rfl, hs⟩ | ⟨x, ha, hb⟩
      · rfl
      · rfl
      · cases c with
        | tuple cs =>
            simp only [unordered]
            exact unorderedItems_congr cs hs
        | _ => simp [unordered, isNumber]
      · rw [unordered_number ha, unordered_number hb]

theorem unorderedItems_congr : ∀ {as bs : List Value} (cs : List Value), eqItems as bs = true →
    unorderedItems as cs = unorderedItems bs cs
  | [], [], _, _ => rfl
  | [], _ :: _, _, h => by simp [eqItems] at h
  | _ :: _, [], _, h => by simp [eqItems] at h
  | _ :: _, _ :: _, [], _ => by simp [unorderedItems]
  | a :: as, b :: bs, c :: cs, h => by
      simp only [eqItems, Bool.and_eq_true] at h
      simp only [unorderedItems, eq_congr c h.1, unordered_congr c h.1,
        unorderedItems_congr cs h.2]

end

mutual

theorem unordered_comm : ∀ a b : Value, unordered a b = unordered b a
  | a, b => by
      rcases unordered_cases a b with ⟨as, bs, rfl, rfl⟩ | h
      · simp only [unordered]
        exact unorderedItems_comm as bs
      · rcases unordered_cases b a with ⟨bs, as, rfl, rfl⟩ | h'
        · simp only [unordered]
          exact unorderedItems_comm as bs
        · rw [h, h', Bool.and_comm a.isNumber, Bool.or_comm a.number?.isNone]

theorem unorderedItems_comm : ∀ as bs : List Value, unorderedItems as bs = unorderedItems bs as
  | [], [] => rfl
  | [], _ :: _ => by simp [unorderedItems]
  | _ :: _, [] => by simp [unorderedItems]
  | a :: as, b :: bs => by
      simp only [unorderedItems, eq_comm a b, unordered_comm a b, unorderedItems_comm as bs]

end

/-- Values that are `==` compare alike with every value, on either side. -/
theorem compared_congr (symbol : String) (holds : Ordering → Bool) (c : Value) (h : eq a b = true) :
    compared symbol holds a c = compared symbol holds b c ∧
      compared symbol holds c a = compared symbol holds c b := by
  simp only [compared, cmp_congr c h, cmp_congr_right c h, unordered_congr c h,
    unordered_comm c a, unordered_comm c b, and_self]

/-- Whether a comparison raises depends neither on its operator nor on its sides. -/
theorem compared_swap {symbol : String} {result : Bool} (h : compared symbol holds a b = .ok result)
    (symbol' : String) (holds' : Ordering → Bool) :
    ∃ result', compared symbol' holds' b a = .ok result' := by
  unfold compared at h ⊢
  cases hab : cmp a b with
  | some o => exact ⟨_, by rw [cmp_swap a b o hab]⟩
  | none =>
      rw [hab] at h
      cases hba : cmp b a with
      | some o => exact ⟨_, rfl⟩
      | none =>
          rw [unordered_comm b a]
          cases hun : unordered a b with
          | true => exact ⟨false, rfl⟩
          | false => simp [hun] at h

/-- The same value, or one that is `==` to it: no comparison tells the two apart. -/
def Same (a b : Value) : Prop := a = b ∨ eq a b = true

namespace Same

variable {a b c : Value}

theorem refl (a : Value) : Same a a := Or.inl rfl

theorem symm (h : Same a b) : Same b a := h.imp Eq.symm (eq_swap a b)

theorem trans (h : Same a b) (h' : Same b c) : Same a c := by
  rcases h with rfl | h
  · exact h'
  · rcases h' with rfl | h'
    · exact Or.inr h
    · exact Or.inr (eq_trans h h')

theorem ord_eq (h : Same a b) : ord a = ord b := by
  rcases h with rfl | h
  · rfl
  · exact ord_eq_of_eq a b h

theorem null_iff (h : Same a b) : a = .null ↔ b = .null := by
  rcases h with rfl | h
  · rfl
  · constructor
    · rintro rfl
      exact null_of_eq h
    · rintro rfl
      exact null_of_eq (eq_swap a .null h)

theorem compared (h : Same a b) (symbol : String) (holds : Ordering → Bool) (c : Value) :
    Value.compared symbol holds a c = Value.compared symbol holds b c ∧
      Value.compared symbol holds c a = Value.compared symbol holds c b := by
  rcases h with rfl | h
  · exact ⟨rfl, rfl⟩
  · exact compared_congr symbol holds c h

end Same
end Value
end SoupDB
