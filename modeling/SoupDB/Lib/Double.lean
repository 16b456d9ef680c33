import Mathlib.Algebra.Order.Field.Rat

/-!
# Doubles

A double is its 64 bits.  `Double.number` is the number the bits stand for, an exact rational
or an infinity; a NaN stands for none.  Sums and quotients are those of the exact numbers.
-/

namespace Double

/-- The rationals and the two infinities. -/
abbrev Number := WithBot (WithTop ℚ)

/-- A rational as a number. -/
def finite (q : ℚ) : Number := ((q : WithTop ℚ) : WithBot (WithTop ℚ))

theorem finite_lt {q r : ℚ} : finite q < finite r ↔ q < r := by
  rw [finite, finite, WithBot.coe_lt_coe, WithTop.coe_lt_coe]

theorem finite_inj {q r : ℚ} : finite q = finite r ↔ q = r := by
  rw [finite, finite, WithBot.coe_inj, WithTop.coe_inj]

/-! ## The fields of the bits -/

def negative (bits : UInt64) : Bool := 2 ^ 63 ≤ bits.toNat

def exponent (bits : UInt64) : Nat := bits.toNat / 2 ^ 52 % 2 ^ 11

def mantissa (bits : UInt64) : Nat := bits.toNat % 2 ^ 52

/-- A finite double is this many times the smallest positive one, its sign apart. -/
def magnitude (bits : UInt64) : Nat :=
  if exponent bits = 0 then mantissa bits
  else (2 ^ 52 + mantissa bits) * 2 ^ (exponent bits - 1)

/-- `math.isfinite(x)`. -/
def isFinite (bits : UInt64) : Bool := exponent bits ≠ 2 ^ 11 - 1

/-- `int(x)` of a finite double. -/
def truncate (bits : UInt64) : Int :=
  let size : Int := magnitude bits / 2 ^ 1074
  if negative bits then -size else size

/-- The rational a finite double stands for. -/
@[irreducible]
def rational (bits : UInt64) : ℚ :=
  mkRat (if negative bits then -magnitude bits else magnitude bits) (2 ^ 1074)

/-- The number a double stands for. -/
def number (bits : UInt64) : Option Number :=
  if isFinite bits then some (finite (rational bits))
  else if mantissa bits = 0 then some (if negative bits then ⊥ else ⊤)
  else none

example : number 0xC004000000000000 = some (finite (-5 / 2)) ∧
    number 0x7FF8000000000000 = none := by decide +kernel

theorem number_finite {bits : UInt64} (h : isFinite bits = true) :
    number bits = some (finite (rational bits)) :=
  if_pos h

/-! ## Rounding -/

/-- A non-negative rational rounded to an integer, a half to the even one. -/
def roundHalfEven (q : ℚ) : Nat :=
  let n := q.floor.toNat
  if 2 * (q - n) < 1 ∨ 2 * (q - n) = 1 ∧ n % 2 = 0 then n else n + 1

/-- The double nearest to a non-negative rational; an infinity above the largest. -/
def nearest (q : ℚ) : UInt64 :=
  let scaled := q * 2 ^ 1074
  let shift := scaled.floor.toNat.log2 - 52
  -- the highest of the 53 bits of a mantissa carries into the exponent
  let bits := shift * 2 ^ 52 + roundHalfEven (scaled / 2 ^ shift)
  .ofNat (min bits (2047 * 2 ^ 52))

example : nearest (1 / 10) = 0x3FB999999999999A ∧ nearest (10 ^ 400) = 0x7FF0000000000000 := by
  decide +kernel

/-! ## Exact sums and quotients -/

/-- The sum of two numbers; infinities of different signs have none. -/
def add (x y : Option Number) : Option Number := do
  let x ← x
  let y ← y
  if (x = ⊥ ∧ y = ⊤) ∨ (x = ⊤ ∧ y = ⊥) then none else some (x + y)

/-- A number divided by a positive integer. -/
def quotient (x : Option Number) (n : Nat) : Option Number :=
  x.map (WithBot.map (WithTop.map (fun q => q / n)))

end Double
