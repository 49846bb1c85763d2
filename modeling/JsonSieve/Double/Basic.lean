/-
Double-precision numbers as their 64 bits: the sign, the magnitude, the classes of finite and
not-a-number patterns, the exact value `m · 2^q` of a finite one, numeric equality, and the double
nearest to a decimal: of two equally near ones the one with an even significand, infinity beyond the
largest, in exact arithmetic throughout.
-/

namespace JsonSieve

/-- A double-precision number, given by its bits. -/
structure Double where
  bits : UInt64
  deriving DecidableEq, Repr

namespace Double

/-- The weight of the sign bit. -/
def signWeight : Nat := 0x8000000000000000

/-- The weight of the lowest exponent bit, and of the leading bit that normal numbers leave out. -/
def exponentWeight : Nat := 0x10000000000000

/-- The bits below the sign bit. -/
def magnitude (x : Double) : Nat :=
  x.bits.toNat % signWeight

/-- Whether the sign bit is set. -/
def negative (x : Double) : Bool :=
  signWeight ≤ x.bits.toNat

/-- The magnitude of the infinities: all exponent bits set, no fraction bit. -/
def infinityMagnitude : Nat :=
  0x7FF * exponentWeight

/-- Whether a number is neither infinite nor not-a-number. -/
def isFinite (x : Double) : Bool :=
  x.magnitude < infinityMagnitude

/-- Whether the pattern stands for no number. -/
def isNaN (x : Double) : Bool :=
  infinityMagnitude < x.magnitude

/-- The double with a sign and a magnitude. -/
def ofMagnitude (negative : Bool) (magnitude : Nat) : Double :=
  ⟨.ofNat (if negative then signWeight + magnitude else magnitude)⟩

/-- Infinity, with a sign. -/
def infinity (negative : Bool) : Double :=
  ofMagnitude negative infinityMagnitude

/-- A pattern that stands for no number. -/
def nan : Double :=
  ⟨0x7FF8000000000000⟩

/-- The whole number `m` of the absolute value `m · 2^q` of a finite double. -/
def significand (x : Double) : Nat :=
  if x.magnitude < exponentWeight then x.magnitude
  else exponentWeight + x.magnitude % exponentWeight

/-- The exponent `q` of the absolute value `m · 2^q` of a finite double. -/
def exponent (x : Double) : Int :=
  if x.magnitude < exponentWeight then -1074
  else (x.magnitude / exponentWeight : Nat) - 1075

/-- Numeric equality: no pattern that stands for no number equals anything, and the two zeros are
equal. -/
def numericallyEqual (x y : Double) : Bool :=
  !x.isNaN && !y.isNaN && (x == y || (x.magnitude == 0 && y.magnitude == 0))

/-! ## Rounding -/

/-- The quotient of two whole numbers rounded to the nearest whole number, a half going to the even
neighbour. -/
def roundDiv (num den : Nat) : Nat :=
  let q := num / den
  let twice := 2 * (num % den)
  if twice < den then q
  else if den < twice then q + 1
  else if q % 2 = 0 then q else q + 1

/-- The greatest `e` with `2^e · den ≤ num`, for positive `num` and `den`. -/
def binaryExponent (num den : Nat) : Int :=
  let e : Int := (num.log2 : Int) - den.log2
  if den * Nat.pow 2 e.toNat ≤ num * Nat.pow 2 (-e).toNat then e else e - 1

/-- The magnitude of the double nearest to the positive quotient `num / den`. The significand is
the quotient in units of `2^unit`; adding it to the scaled unit carries into the exponent just when
rounding reaches the next power of two. -/
def quotientMagnitude (num den : Nat) : Nat :=
  let unit := max (binaryExponent num den - 52) (-1074)
  let significand := roundDiv (num * Nat.pow 2 (-unit).toNat) (den * Nat.pow 2 unit.toNat)
  min ((unit + 1074).toNat * exponentWeight + significand) infinityMagnitude

/-- The magnitude of the double nearest to `digits · 10^exp`. The first two tests settle values
below half the least double and beyond the largest without computing the power of ten. -/
def decimalMagnitude (digits : Nat) (exp : Int) : Nat :=
  if digits = 0 ∨ (digits.log2 : Int) + 1 + 3 * exp < -1080 ∧ exp < 0 then 0
  else if 1024 < (digits.log2 : Int) + 3 * exp ∧ 0 < exp then infinityMagnitude
  else quotientMagnitude (digits * Nat.pow 10 exp.toNat) (Nat.pow 10 (-exp).toNat)

/-- The double nearest to `± digits · 10^exp`. -/
def ofDecimal (negative : Bool) (digits : Nat) (exp : Int) : Double :=
  ofMagnitude negative (decimalMagnitude digits exp)

end Double

end JsonSieve
