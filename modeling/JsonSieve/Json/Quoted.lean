/-
Quoted strings of JSON: how a string is written between double quotes and read back.
-/
import JsonSieve.Text.Numeral

namespace JsonSieve.Json

/-- How one character is written: the quote, the backslash and the controls are marked by a
backslash, five controls by a letter and the others by four hexadecimal digits. -/
def escape (c : Char) : Text :=
  match c with
  | '"' => ['\\', '"']
  | '\\' => ['\\', '\\']
  | '\x08' => ['\\', 'b']
  | '\x0c' => ['\\', 'f']
  | '\n' => ['\\', 'n']
  | '\r' => ['\\', 'r']
  | '\t' => ['\\', 't']
  | c =>
    if c.toNat < 0x20 then
      ['\\', 'u', '0', '0', Nat.digitChar (c.toNat / 16), Nat.digitChar (c.toNat % 16)]
    else [c]

/-- A string between double quotes. -/
def quote (s : Text) : Text :=
  '"' :: s.flatMap escape ++ ['"']

/-! ## Reading -/

/-- The 16-bit unit spelled by the first four characters. -/
def unit? : Text → Option (Nat × Text)
  | a :: b :: c :: d :: rest => do
    let a ← Text.hexValue? a
    let b ← Text.hexValue? b
    let c ← Text.hexValue? c
    let d ← Text.hexValue? d
    some (((a * 16 + b) * 16 + c) * 16 + d, rest)
  | _ => none

/-- Whether a unit is the first of a pair that stands for one character. -/
def isLeading (u : Nat) : Bool :=
  0xD800 ≤ u && u < 0xDC00

/-- Whether a unit is the second of a pair that stands for one character. -/
def isTrailing (u : Nat) : Bool :=
  0xDC00 ≤ u && u < 0xE000

/-- The character given by the units after a `u` mark: one unit, or a pair of them, the second one
marked as well. -/
def unitChar? (s : Text) : Option (Char × Text) := do
  let (u, rest) ← unit? s
  if isLeading u then
    match rest with
    | '\\' :: 'u' :: rest => do
      let (v, rest) ← unit? rest
      if isTrailing v then
        some (Char.ofNat (0x10000 + (u - 0xD800) * 0x400 + (v - 0xDC00)), rest)
      else none
    | _ => none
  else if isTrailing u then none
  else some (Char.ofNat u, rest)

/-- The character that starts a text, written as itself or with a mark. -/
def char? : Text → Option (Char × Text)
  | '\\' :: c :: rest =>
    match c with
    | '"' => some ('"', rest)
    | '\\' => some ('\\', rest)
    | '/' => some ('/', rest)
    | 'b' => some ('\x08', rest)
    | 'f' => some ('\x0c', rest)
    | 'n' => some ('\n', rest)
    | 'r' => some ('\r', rest)
    | 't' => some ('\t', rest)
    | 'u' => unitChar? rest
    | _ => none
  | c :: rest => if c.toNat < 0x20 ∨ c = '\\' then none else some (c, rest)
  | [] => none

/-- The characters up to the closing quote, and what follows it. The first argument bounds their
number. -/
def unquoteWithin : Nat → Text → Option (Text × Text)
  | _, '"' :: rest => some ([], rest)
  | 0, _ => none
  | fuel + 1, s => do
    let (c, rest) ← char? s
    let (cs, rest) ← unquoteWithin fuel rest
    some (c :: cs, rest)

/-- The string after an opening quote, and what follows its closing quote. -/
def unquote? (s : Text) : Option (Text × Text) :=
  unquoteWithin s.length s

end JsonSieve.Json
