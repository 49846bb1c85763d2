/-
Reading what follows a backslash in a pattern: a character, a set of characters, or a test of a
position.
-/
import JsonSieve.Pattern.Expr

namespace JsonSieve.Pattern

/-- The switches that change how a pattern is read. -/
structure Flags where
  ignoreCase : Bool := false
  multiLine : Bool := false
  dotAll : Bool := false
  unicode : Bool := true
  crlf : Bool := false
  ignoreBlanks : Bool := false
  swapGreed : Bool := false
  deriving DecidableEq, Repr

/-- A text after a comment's line, where the flag says that a comment is open, and after the white
space and further comments that follow. -/
def skipFrom : Bool → Text → Text
  | _, [] => []
  | true, c :: s => skipFrom (c != '\n') s
  | false, c :: s =>
    if Unicode.isBlank c then skipFrom false s
    else if c = '#' then skipFrom true s
    else c :: s

/-- A text after white space and comments, if the flags say to ignore them. -/
def skip (flags : Flags) (s : Text) : Text :=
  if flags.ignoreBlanks then skipFrom false s else s

/-- What an escape stands for. -/
inductive Atom where
  | char (c : Char)
  /-- A character given by two hexadecimal digits: a byte where characters are bytes. -/
  | byte (c : Char)
  | set (set : CharSet)
  | anchor (a : Anchor)
  deriving Repr

/-- A set that may be used under the flags: where characters are bytes, only ASCII characters can
be matched one by one. -/
def permitted? (flags : Flags) (set : CharSet) : Option CharSet :=
  if flags.unicode || set.isAscii then some set else none

/-- The variants in case of a set's members, if the flags say to ignore case. -/
def foldCase (flags : Flags) (set : CharSet) : CharSet :=
  if !flags.ignoreCase then set
  else if flags.unicode then anyCase set
  else anyAsciiCase set

/-! ## Hexadecimal characters -/

/-- The character with a code point. -/
def charOf? (n : Nat) : Option Char :=
  if n.isValidChar then some (.ofNat n) else none

/-- The number given by exactly as many hexadecimal digits as asked for. -/
def hexDigits? (flags : Flags) : Nat → Nat → Text → Option (Nat × Text)
  | 0, n, s => some (n, s)
  | count + 1, n, c :: s => do
    let d ← Text.hexValue? c
    hexDigits? flags count (16 * n + d) (skip flags s)
  | _ + 1, _, [] => none

/-- The characters up to a closing brace, blanks and comments left out where flags say so, and what
follows the brace. The first argument bounds their number. -/
def bracedWithin (flags : Flags) : Nat → Text → Option (Text × Text)
  | 0, _ => none
  | fuel + 1, s =>
    match skip flags s with
    | [] => none
    | '}' :: rest => some ([], rest)
    | c :: rest => (bracedWithin flags fuel rest).map fun (cs, rest) => (c :: cs, rest)

/-- The characters up to a closing brace, and what follows the brace. -/
def braced? (flags : Flags) (s : Text) : Option (Text × Text) :=
  bracedWithin flags (s.length + 1) s

/-- The character given by hexadecimal digits in braces, or by as many of them as asked for. -/
def hexChar? (flags : Flags) (count : Nat) (s : Text) : Option (Atom × Text) :=
  match skip flags s with
  | '\x7b' :: rest => do
    let (digits, rest) ← braced? flags rest
    if digits.isEmpty then none
    else do
      let ds ← digits.mapM Text.hexValue?
      let c ← charOf? (ds.foldl (fun n d => 16 * n + d) 0)
      some (.char c, rest)
  | s => do
    let (n, rest) ← hexDigits? flags count 0 s
    let c ← charOf? n
    some (if count = 2 then .byte c else .char c, rest)

/-! ## Sets and positions -/

/-- The set that a letter names, and its complement for the capital. -/
def letterSet (unicode : Bool) (letter : Char) : CharSet :=
  let set := match letter.toLower with
    | 'd' => if unicode then decimalSet else asciiDigit
    | 's' => if unicode then blankSet else asciiSpace
    | _ => if unicode then wordSet else asciiWord
  .negateIf letter.isUpper set

/-- The set of a property, given by one letter or by a name in braces. -/
def propertySet? (flags : Flags) (negated : Bool) (s : Text) : Option (CharSet × Text) :=
  let setUnder (name rest : Text) : Option (CharSet × Text) := do
    if !flags.unicode then none
    else do
      let found ← named? name
      let set := foldCase flags found.set
      some (.negateIf negated (.negateIf found.negated set), rest)
  match skip flags s with
  | [] => none
  | '\x7b' :: rest => do
    let (name, rest) ← braced? flags rest
    setUnder name rest
  | '\\' :: _ => none
  | c :: rest => setUnder [c] rest

/-- Whether a character may stand in the name of a kind of word boundary. -/
def isBoundaryChar (c : Char) : Bool :=
  c.isAlpha || c == '-'

/-- The name of a kind of word boundary up to a closing brace, and what follows the brace. -/
def boundaryName? (flags : Flags) : Nat → Text → Option (Text × Text)
  | 0, _ => none
  | fuel + 1, s =>
    match s with
    | '\x7d' :: rest => some ([], rest)
    | c :: rest =>
      if isBoundaryChar c then
        (boundaryName? flags fuel (skip flags rest)).map fun (cs, rest) => (c :: cs, rest)
      else none
    | [] => none

/-- A word boundary, or a special kind of it whose name follows in braces. Braces that start with
no name are left alone, as they may count repetitions. -/
def boundary? (flags : Flags) (s : Text) : Option (Atom × Text) :=
  match s with
  | '\x7b' :: rest =>
    match skip flags rest with
    | [] => none
    | c :: tail =>
      if !isBoundaryChar c then some (.anchor (.boundary flags.unicode), s)
      else do
        let (name, rest) ← boundaryName? flags (tail.length + 2) (c :: tail)
        let anchor ← match String.ofList name with
          | "start" => some (Anchor.wordStart flags.unicode)
          | "end" => some (.wordEnd flags.unicode)
          | "start-half" => some (.noWordBefore flags.unicode)
          | "end-half" => some (.noWordAfter flags.unicode)
          | _ => none
        some (.anchor anchor, rest)
  | _ => some (.anchor (.boundary flags.unicode), s)

/-- Whether a backslash in front of a character makes it stand for itself. -/
def isEscapable (c : Char) : Bool :=
  c.toNat < 0x80 && !c.isAlphanum && c != '<' && c != '>'

/-- What the text after a backslash stands for, and what follows it. -/
def escape? (flags : Flags) : Text → Option (Atom × Text)
  | [] => none
  | c :: s =>
    match c with
    | 'x' => hexChar? flags 2 s
    | 'u' => hexChar? flags 4 s
    | 'U' => hexChar? flags 8 s
    | 'p' => (propertySet? flags false s).map fun (set, rest) => (.set set, rest)
    | 'P' => (propertySet? flags true s).map fun (set, rest) => (.set set, rest)
    | 'd' | 'D' | 's' | 'S' | 'w' | 'W' =>
      (permitted? flags (letterSet flags.unicode c)).map fun set => (.set set, s)
    | 'a' => some (.char '\x07', s)
    | 'f' => some (.char '\x0c', s)
    | 't' => some (.char '\t', s)
    | 'n' => some (.char '\n', s)
    | 'r' => some (.char '\r', s)
    | 'v' => some (.char '\x0b', s)
    | 'A' => some (.anchor .textStart, s)
    | 'z' => some (.anchor .textEnd, s)
    | 'b' => boundary? flags s
    | 'B' => some (.anchor (.noBoundary flags.unicode), s)
    | '<' => some (.anchor (.wordStart flags.unicode), s)
    | '>' => some (.anchor (.wordEnd flags.unicode), s)
    | c => if isEscapable c then some (.char c, s) else none

end JsonSieve.Pattern
