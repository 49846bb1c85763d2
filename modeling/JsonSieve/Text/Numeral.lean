/-
Decimal numerals: their value, and the whole numbers of 64 bits that a text spells, unsigned or
with a sign. Leading zeros are allowed everywhere. Hexadecimal digits stand at the end.
-/
import JsonSieve.Text.Basic

namespace JsonSieve.Text

/-- The number that a row of decimal digits denotes; no digits denote zero. -/
def value (digits : Text) : Nat :=
  Nat.ofDigitChars 10 digits 0

/-- The decimal digits of a number, without leading zeros. -/
def ofNat (n : Nat) : Text :=
  Nat.toDigits 10 n

/-- The decimal digits of an integer after its minus sign, if it has one. -/
def ofInt (i : Int) : Text :=
  if i < 0 then '-' :: ofNat i.natAbs else ofNat i.natAbs

/-- The number spelled by one or more decimal digits and nothing else. -/
def natural? (s : Text) : Option Nat :=
  if !s.isEmpty && s.all Char.isDigit then some (value s) else none

/-- The unsigned 64-bit number spelled by decimal digits after an optional plus sign. -/
def unsigned? (s : Text) : Option UInt64 :=
  let digits := match s with
    | '+' :: rest => rest
    | _ => s
  match natural? digits with
  | some n => if n < UInt64.size then some (.ofNat n) else none
  | none => none

/-- The signed 64-bit number spelled by decimal digits after an optional sign. -/
def signed? (s : Text) : Option Int64 :=
  let number := match s with
    | '-' :: rest => (natural? rest).map fun n => -(n : Int)
    | '+' :: rest => (natural? rest).map Int.ofNat
    | _ => (natural? s).map Int.ofNat
  match number with
  | some i =>
    if Int64.minValue.toInt ≤ i ∧ i ≤ Int64.maxValue.toInt then some (.ofInt i) else none
  | none => none

/-! ## Hexadecimal digits -/

/-- The hexadecimal digits of a number, in lower case and without leading zeros. -/
def hex (n : Nat) : Text :=
  Nat.toDigits 16 n

/-- The value of a hexadecimal digit in either case. -/
def hexValue? (c : Char) : Option Nat :=
  if c.isDigit then some (c.toNat - '0'.toNat)
  else if 'a' ≤ c ∧ c ≤ 'f' then some (c.toNat - 'a'.toNat + 10)
  else if 'A' ≤ c ∧ c ≤ 'F' then some (c.toNat - 'A'.toNat + 10)
  else none

end JsonSieve.Text
