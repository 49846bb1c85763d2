/-
Reading documents: one document that fills a text, and the documents that follow each other in a
stream. Whole numbers of 64 bits are read exactly; which double any other number is read as is left
open, since readers differ in how they round.
-/
import JsonSieve.Json.Basic

namespace JsonSieve.Json

/-- The white space between the parts of a document. -/
def isBlank (c : Char) : Bool :=
  c == ' ' || c == '\t' || c == '\n' || c == '\r'

/-- A text without its leading white space. -/
def skipBlanks (s : Text) : Text :=
  s.dropWhile isBlank

/-! ## Numbers -/

/-- The parts of a number: its sign and digits, and the digits after the point and the exponent
where it has them. -/
structure Numeral where
  negative : Bool
  whole : Text
  fraction : Option Text
  exponent : Option Int
  deriving DecidableEq, Repr

/-- One or more digits, and what follows them. -/
def digits? (s : Text) : Option (Text × Text) :=
  let digits := s.takeWhile Char.isDigit
  if digits.isEmpty then none else some (digits, s.dropWhile Char.isDigit)

/-- The digits before the point: no zero in front of another digit. -/
def whole? (s : Text) : Option (Text × Text) := do
  let (digits, rest) ← digits? s
  if digits.head? = some '0' ∧ 1 < digits.length then none else some (digits, rest)

/-- The digits after a point, if there is a point. -/
def fraction? : Text → Option (Option Text × Text)
  | '.' :: s => (digits? s).map fun (digits, rest) => (some digits, rest)
  | s => some (none, s)

/-- The exponent after an exponent mark, if there is one. -/
def exponent? : Text → Option (Option Int × Text)
  | [] => some (none, [])
  | c :: s =>
    if c = 'e' ∨ c = 'E' then
      let (negative, s) := match s with
        | '-' :: t => (true, t)
        | '+' :: t => (false, t)
        | _ => (false, s)
      (digits? s).map fun (digits, rest) =>
        let n : Int := Text.value digits
        (some (if negative then -n else n), rest)
    else some (none, c :: s)

/-- The parts of the number that starts a text. -/
def numeral? (s : Text) : Option (Numeral × Text) := do
  let (negative, s) := match s with
    | '-' :: t => (true, t)
    | _ => (false, s)
  let (whole, s) ← whole? s
  let (fraction, s) ← fraction? s
  let (exponent, s) ← exponent? s
  some (⟨negative, whole, fraction, exponent⟩, s)

/-- Decides as which double a number is read that is no whole number of 64 bits. One that is not
finite says that the number is too large. -/
abbrev Rounding := Numeral → Double

/-- Numbers are read as the double nearest to them. -/
def Rounding.nearest : Rounding := fun n =>
  let fraction := n.fraction.getD []
  .ofDecimal n.negative (Text.value (n.whole ++ fraction)) (n.exponent.getD 0 - fraction.length)

section

variable (rounding : Rounding)

/-- The double that a number is read as, unless the number is too large. -/
def Numeral.float? (n : Numeral) : Option Number :=
  let x := rounding n
  if x.isFinite then some (.float x) else none

/-- The number of a document: a whole number of 64 bits where it is one, and otherwise a double;
zero with a minus sign is a double. A size of 64 bits is converted to the double nearest to it. -/
def Numeral.number? (n : Numeral) : Option Number :=
  match n.fraction, n.exponent with
  | none, none =>
    let size := Text.value n.whole
    if size < UInt64.size then
      if !n.negative then some (.natural (.ofNat size))
      else if 0 < size ∧ Int64.minValue.toInt ≤ -size then some (.negative (.ofInt (-size)))
      else some (.float (.ofDecimal true size 0))
    else n.float? rounding
  | _, _ => n.float? rounding

end

/-! ## Documents -/

/-- Parts separated by commas up to a closing mark, of which there is at least one. The first
argument bounds their number. -/
def partsWithin {α : Type} (part : Text → Option (α × Text)) (closing : Char) :
    Nat → Text → Option (List α × Text)
  | 0, _ => none
  | fuel + 1, s => do
    let (x, rest) ← part s
    match skipBlanks rest with
    | [] => none
    | c :: rest =>
      if c = closing then some ([x], rest)
      else if c = ',' then do
        let (xs, rest) ← partsWithin part closing fuel rest
        some (x :: xs, rest)
      else none

/-- Parts separated by commas up to a closing mark, or none of them. -/
def parts {α : Type} (part : Text → Option (α × Text)) (closing : Char) (s : Text) :
    Option (List α × Text) :=
  match skipBlanks s with
  | [] => none
  | c :: rest =>
    if c = closing then some ([], rest) else partsWithin part closing s.length s

/-- A quoted key, a colon and a content. -/
def member? (content : Text → Option (Json × Text)) (s : Text) :
    Option ((String × Json) × Text) :=
  match skipBlanks s with
  | '"' :: rest => do
    let (key, rest) ← unquote? rest
    match skipBlanks rest with
    | ':' :: rest => do
      let (x, rest) ← content rest
      some ((String.ofList key, x), rest)
    | _ => none
  | _ => none

/-- The greatest number of containers within each other that a document may have. -/
def depthLimit : Nat := 127

section

variable (rounding : Rounding)

/-- The document that starts a text, after white space. The first argument is the number of
containers that may still be opened within each other. -/
def readWithin : Nat → Text → Option (Json × Text)
  | depth, s =>
    match skipBlanks s with
    | '[' :: rest =>
      match depth with
      | 0 => none
      | depth + 1 => (parts (readWithin depth) ']' rest).map fun (xs, rest) => (.array xs, rest)
    | '{' :: rest =>
      match depth with
      | 0 => none
      | depth + 1 =>
        (parts (member? (readWithin depth)) '}' rest).map fun (ms, rest) =>
          (.object (Entries.ordered ms), rest)
    | '"' :: rest => (unquote? rest).map fun (s, rest) => (.string (String.ofList s), rest)
    | 'n' :: 'u' :: 'l' :: 'l' :: rest => some (.null, rest)
    | 't' :: 'r' :: 'u' :: 'e' :: rest => some (.bool true, rest)
    | 'f' :: 'a' :: 'l' :: 's' :: 'e' :: rest => some (.bool false, rest)
    | s => do
      let (numeral, rest) ← numeral? s
      let n ← numeral.number? rounding
      some (.number n, rest)

/-- The document that starts a text, and what follows it. -/
def readOne? (s : Text) : Option (Json × Text) :=
  readWithin rounding depthLimit s

/-- The document that a whole text is. -/
def parse? (s : Text) : Option Json :=
  match readOne? rounding s with
  | some (json, rest) => if (skipBlanks rest).isEmpty then some json else none
  | none => none

end

/-! ## Streams -/

/-- What a stream of documents does next. -/
inductive Next where
  /-- The stream is over. -/
  | finished
  /-- What follows is no document. -/
  | broken
  /-- A document follows, and after it the rest of the stream. -/
  | document (json : Json) (rest : Text)

/-- Whether the end of a document is plain without looking at what follows it. -/
def isDelimited (first : Char) : Bool :=
  first == '[' || first == '{' || first == '"'

/-- Whether a character may follow directly on a number or a word. -/
def mayFollow (c : Char) : Bool :=
  isBlank c || c == '"' || c == '[' || c == ']' || c == '{' || c == '}' || c == ',' || c == ':'

section

variable (rounding : Rounding)

/-- The next step of a stream. -/
def next (s : Text) : Next :=
  match skipBlanks s with
  | [] => .finished
  | first :: tail =>
    match readOne? rounding (first :: tail) with
    | none => .broken
    | some (json, rest) =>
      if isDelimited first || rest.head?.all mayFollow then .document json rest else .broken

/-- The documents of a stream up to its end or to what is no document, and whether the end was
reached. The first argument bounds their number. -/
def readAllWithin : Nat → Text → List Json × Bool
  | 0, _ => ([], true)
  | fuel + 1, s =>
    match next rounding s with
    | .finished => ([], true)
    | .broken => ([], false)
    | .document json rest =>
      let (jsons, complete) := readAllWithin fuel rest
      (json :: jsons, complete)

/-- The documents of a stream up to its end or to what is no document, and whether the end was
reached. Every document takes at least one character. -/
def readAll (s : Text) : List Json × Bool :=
  readAllWithin rounding (s.length + 1) s

end

end JsonSieve.Json
