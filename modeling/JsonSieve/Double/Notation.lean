/-
The text of a double: the shortest decimal that rounds to it, how the digits of a decimal are laid
out, and which texts are read as numbers.
-/
import JsonSieve.Double.Basic
import JsonSieve.Text.Numeral

namespace JsonSieve.Double

/-! ## The shortest decimal -/

/-- A decimal `digits · 10^exp`. -/
structure Decimal where
  digits : Nat
  exp : Int
  deriving DecidableEq, Repr

/-- Whether a decimal rounds to the absolute value of a double. -/
def Decimal.roundsTo (d : Decimal) (x : Double) : Bool :=
  decimalMagnitude d.digits d.exp == x.magnitude

/-- The absolute value of a finite double as a quotient. -/
def quotient (x : Double) : Nat × Nat :=
  (x.significand * Nat.pow 2 x.exponent.toNat, Nat.pow 2 (-x.exponent).toNat)

/-- The least `k` with `|x| < 10^k`, for a finite `x` other than zero: the length of the whole part
of `10^400 · |x|`, which is no less than one for every such `x`. -/
def decimalExponent (x : Double) : Int :=
  let (num, den) := x.quotient
  ((Nat.toDigits 10 (num * Nat.pow 10 400 / den)).length : Int) - 400

/-- The decimal on the grid `10^exp` that rounds to `|x|`, if one does: the nearer of the two grid
points around `|x|`, the even one of two equally near, or else the other one. -/
def onGrid? (x : Double) (exp : Int) : Option Decimal :=
  let (num, den) := x.quotient
  let num := num * Nat.pow 10 (-exp).toNat
  let den := den * Nat.pow 10 exp.toNat
  let below := num / den
  let twice := 2 * (num % den)
  let nearerBelow := twice < den || (twice == den && below % 2 == 0)
  let near : Decimal := ⟨if nearerBelow then below else below + 1, exp⟩
  let far : Decimal := ⟨if nearerBelow then below + 1 else below, exp⟩
  if near.roundsTo x then some near
  else if far.roundsTo x then some far
  else none

/-- The exact value of a finite double as a decimal. -/
def exactDecimal (x : Double) : Decimal :=
  if 0 ≤ x.exponent then ⟨x.significand * Nat.pow 2 x.exponent.toNat, 0⟩
  else ⟨x.significand * Nat.pow 5 (-x.exponent).toNat, x.exponent⟩

/-- The shortest decimal that rounds to the absolute value of a finite double other than zero; the
grids are tried from one digit to seventeen, which always suffice. -/
def shortest (x : Double) : Decimal :=
  let k := x.decimalExponent
  ((List.range 17).findSome? fun (n : Nat) => x.onGrid? (k - 1 - (n : Int))).getD x.exactDecimal

/-! ## Writing -/

/-- A decimal without zeros at its end: the digits as text, and the exponent of the first one. The
digit zero alone stands for zero. -/
def Decimal.leading (d : Decimal) : Text × Int :=
  let digits := Text.ofNat d.digits
  let stripped := (digits.reverse.dropWhile (· == '0')).reverse
  (if stripped.isEmpty then ['0'] else stripped, d.exp + (digits.length : Int) - 1)

/-- The least exponent of a first digit that is written without an exponent. -/
def plainFrom : Int := -5

/-- The greatest exponent of a first digit that is written without an exponent. -/
def plainTo : Int := 15

/-- Digits with the point that belongs to the exponent of the first one, at least one digit on
either side. -/
def layPlain (digits : Text) (exp : Int) : Text :=
  if exp < 0 then
    '0' :: '.' :: List.replicate ((-exp).toNat - 1) '0' ++ digits
  else
    let whole := exp.toNat + 1
    let fraction := digits.drop whole
    digits.take whole ++ List.replicate (whole - digits.length) '0' ++
      '.' :: if fraction.isEmpty then ['0'] else fraction

/-- Digits with a point after the first one, if more follow, and a signed exponent. -/
def layScientific (digits : Text) (exp : Int) : Text :=
  digits.take 1 ++ (if digits.length ≤ 1 then [] else '.' :: digits.drop 1) ++
    'e' :: (if exp < 0 then '-' else '+') :: Text.ofNat exp.natAbs

/-- The text of the absolute value of a finite double. -/
def magnitudeText (x : Double) : Text :=
  if x.magnitude = 0 then ['0', '.', '0']
  else
    let (digits, exp) := x.shortest.leading
    if plainFrom ≤ exp ∧ exp ≤ plainTo then layPlain digits exp else layScientific digits exp

/-- The text of a finite double, after a minus sign if its sign bit is set. -/
def text (x : Double) : Text :=
  if x.negative then '-' :: x.magnitudeText else x.magnitudeText

/-! ## Reading -/

/-- The exponent after an `e`: digits after an optional sign. -/
def exponentValue? (s : Text) : Option Int :=
  match s with
  | '-' :: digits => (Text.natural? digits).map fun n => -(n : Int)
  | '+' :: digits => (Text.natural? digits).map Int.ofNat
  | _ => (Text.natural? s).map Int.ofNat

/-- The magnitude of an unsigned decimal: digits with at most one point, at least one digit, and an
optional exponent. -/
def unsignedDecimal? (s : Text) : Option (Nat × Int) :=
  let whole := s.takeWhile Char.isDigit
  let afterWhole := s.dropWhile Char.isDigit
  let (fraction, rest) := match afterWhole with
    | '.' :: t => (t.takeWhile Char.isDigit, t.dropWhile Char.isDigit)
    | _ => ([], afterWhole)
  let digits := whole ++ fraction
  if digits.isEmpty then none
  else
    let exp := match rest with
      | [] => some 0
      | c :: t => if c = 'e' ∨ c = 'E' then exponentValue? t else none
    exp.map fun e => (Text.value digits, e - fraction.length)

/-- The magnitude that an unsigned text denotes: a decimal, or one of the words for infinity and
for no number, in any case. -/
def ofUnsignedText? (negative : Bool) (s : Text) : Option Double :=
  match unsignedDecimal? s with
  | some (digits, exp) => some (ofDecimal negative digits exp)
  | none =>
    let word := s.map Char.toLower
    if word = "inf".toList ∨ word = "infinity".toList then some (infinity negative)
    else if word = "nan".toList then some nan
    else none

/-- The double that a text denotes after an optional sign. -/
def ofText? (s : Text) : Option Double :=
  match s with
  | '-' :: rest => ofUnsignedText? true rest
  | '+' :: rest => ofUnsignedText? false rest
  | _ => ofUnsignedText? false s

end JsonSieve.Double
