/-
Reading patterns: alternatives of rows of repeated parts, in groups that may carry a name or
switches. The groups around the place that is read are kept on a stack.
-/
import JsonSieve.Error
import JsonSieve.Pattern.Automaton
import JsonSieve.Pattern.Bracket
import JsonSieve.Pattern.Simple

namespace JsonSieve.Pattern

/-- What a part of a pattern stands for, and how deeply it is nested. Groups, repetitions, rows of
several parts, several alternatives and sets in brackets each make it deeper by one. -/
structure Tree where
  expr : Expr
  depth : Nat := 0

namespace Tree

/-- The depth of the deepest of some trees, and one more if there are several. -/
def depthOf (trees : List Tree) : Nat :=
  let deepest := (trees.map Tree.depth).foldl max 0
  if trees.length < 2 then deepest else deepest + 1

/-- Trees one after the other. -/
def row (trees : List Tree) : Tree :=
  ⟨.row (trees.map Tree.expr), depthOf trees⟩

/-- Trees as alternatives. -/
def anyOf (trees : List Tree) : Tree :=
  ⟨.anyOf (trees.map Tree.expr), depthOf trees⟩

end Tree

/-- A part of a row: an expression, or a setting of switches, which cannot be repeated. -/
inductive Part where
  | tree (t : Tree)
  | setting

/-- What a part stands for. -/
def Part.toTree : Part → Tree
  | .tree t => t
  | .setting => ⟨.empty, 0⟩

/-- The alternatives that are read in one group: those that are complete and the parts of the
current one, both the last one first. -/
structure Branches where
  complete : List Tree
  parts : List Part

namespace Branches

/-- No alternative before an empty one. -/
def start : Branches := ⟨[], []⟩

/-- Adds a part to the current alternative. -/
def add (b : Branches) (t : Tree) : Branches :=
  { b with parts := .tree t :: b.parts }

/-- The current alternative. -/
def row (b : Branches) : Tree :=
  .row (b.parts.reverse.map Part.toTree)

/-- Starts another alternative. -/
def split (b : Branches) : Branches :=
  ⟨b.row :: b.complete, []⟩

/-- All alternatives together. -/
def toTree (b : Branches) : Tree :=
  if b.complete.isEmpty then b.row else .anyOf (b.row :: b.complete).reverse

/-- Repeats the last part of the current alternative. -/
def repeat? (b : Branches) (greedy : Bool) (least : Nat) (most : Option Nat) : Option Branches :=
  match b.parts with
  | .tree t :: rest =>
    some { b with parts := .tree ⟨.repeated greedy t.expr least most, t.depth + 1⟩ :: rest }
  | _ => none

end Branches

/-- A group that has been opened: its number if it is counted, and the switches in force and the
alternatives that are read around it. -/
structure OpenGroup where
  number : Option Nat
  flags : Flags
  branches : Branches

/-- What has been read of a pattern: the switches in force, the number of groups that are counted,
their names, the alternatives of the innermost open group, and the open groups from it on. -/
structure Progress where
  flags : Flags := {}
  groups : Nat := 0
  names : List Text := []
  branches : Branches := .start
  around : List OpenGroup := []

/-! ## Switches -/

/-- Sets the switch that a letter names. -/
def setFlag? (on : Bool) (flags : Flags) : Char → Option Flags
  | 'i' => some { flags with ignoreCase := on }
  | 'm' => some { flags with multiLine := on }
  | 's' => some { flags with dotAll := on }
  | 'u' => some { flags with unicode := on }
  | 'R' => some { flags with crlf := on }
  | 'x' => some { flags with ignoreBlanks := on }
  | 'U' => some { flags with swapGreed := on }
  | _ => none

/-- The switches set by letters up to a colon or a closing parenthesis, that mark, and what follows
it. No letter comes twice, a hyphen comes at most once, and a letter follows it. -/
def flags? (flags : Flags) (seen : List Char) : Text → Option (Flags × List Char × Char × Text)
  | [] => none
  | c :: s =>
    if c = ':' ∨ c = ')' then
      if seen.head? = some '-' then none else some (flags, seen, c, s)
    else if seen.contains c then none
    else if c = '-' then flags? flags (c :: seen) s
    else do
      let flags ← setFlag? (!seen.contains '-') flags c
      flags? flags (c :: seen) s

/-! ## Groups -/

/-- Whether a character may stand in the name of a group. -/
def isNameChar (first : Bool) (c : Char) : Bool :=
  c == '_' ||
    if first then Unicode.isAlphabetic c
    else c == '.' || c == '[' || c == ']' || Unicode.isAlphanumeric c

/-- The name of a group up to the closing angle bracket, and what follows it. -/
def groupName? (s : Text) : Option (Text × Text) :=
  let name := s.takeWhile (· != '>')
  match name, s.dropWhile (· != '>') with
  | c :: cs, '>' :: rest =>
    if isNameChar true c && cs.all (isNameChar false) then some (name, rest) else none
  | _, _ => none

/-- Opens a group that is not counted and in which other switches may be in force. -/
def Progress.openGroup (p : Progress) (inside : Flags) : Progress :=
  { p with flags := inside, branches := .start, around := ⟨none, p.flags, p.branches⟩ :: p.around }

/-- Opens a group that is counted. -/
def Progress.openCounted (p : Progress) : Progress :=
  let groups := p.groups + 1
  { p with groups, branches := .start, around := ⟨some groups, p.flags, p.branches⟩ :: p.around }

/-- What follows an opening parenthesis: the start of a group, plain, named or with switches, or a
setting of switches. Tests of what is ahead or behind are not known. -/
def Progress.openParen? (p : Progress) (s : Text) : Option (Progress × Text) :=
  match skip p.flags s with
  | '?' :: rest =>
    let named (s : Text) : Option (Progress × Text) := do
      let (name, rest) ← groupName? s
      if p.names.contains name then none
      else some ({ p with names := name :: p.names }.openCounted, rest)
    match rest with
    | 'P' :: '<' :: rest => named rest
    | '<' :: '=' :: _ | '<' :: '!' :: _ => none
    | '<' :: rest => named rest
    | _ => do
      let (inside, seen, mark, rest) ← flags? p.flags [] rest
      if mark = ':' then some (p.openGroup inside, rest)
      else if seen.isEmpty then none
      else
        let branches := { p.branches with parts := .setting :: p.branches.parts }
        some ({ p with flags := inside, branches }, rest)
  | s => some (p.openCounted, s)

/-- Closes the innermost group. -/
def Progress.closeParen? (p : Progress) : Option Progress :=
  match p.around with
  | [] => none
  | group :: around =>
    let inside := p.branches.toTree
    let expr := match group.number with
      | none => inside.expr
      | some number => .group number inside.expr
    let branches := group.branches.add ⟨expr, inside.depth + 1⟩
    some { p with flags := group.flags, around, branches }

/-! ## Repetitions -/

/-- The digits that start a text, blanks and comments after each left out where flags say so, and
what follows them. The first argument bounds their number. -/
def countDigits (flags : Flags) : Nat → Text → Text × Text
  | fuel + 1, c :: s =>
    if c.isDigit then
      let (digits, rest) := countDigits flags fuel (skip flags s)
      (c :: digits, rest)
    else ([], c :: s)
  | _, s => ([], s)

/-- A number of repetitions with white space around it, and what follows it. -/
def count? (flags : Flags) (s : Text) : Option (Nat × Text) :=
  let (digits, rest) := countDigits flags s.length (s.dropWhile Unicode.isBlank)
  if digits.isEmpty || UInt32.size ≤ Text.value digits then none
  else some (Text.value digits, skip flags (rest.dropWhile Unicode.isBlank))

/-- Whether a repetition tries more turns first: not so with a mark of reluctance, and the other way
round if the flags say so. The text after the mark comes with it. -/
def greed (flags : Flags) : Text → Bool × Text
  | '?' :: s => (flags.swapGreed, s)
  | s => (!flags.swapGreed, s)

/-- The least and the greatest number of repetitions after an opening brace, and what follows the
closing brace. -/
def counts? (flags : Flags) (s : Text) : Option (Nat × Option Nat × Text) := do
  let (least, rest) ← count? flags (skip flags s)
  let (most, rest) ← match rest with
    | ',' :: rest =>
      match skip flags rest with
      | '\x7d' :: rest => some (none, '\x7d' :: rest)
      | rest => (count? flags rest).map fun (most, rest) => (some most, rest)
    | rest => some (some least, rest)
  match rest with
  | '\x7d' :: rest => if most.all (least ≤ ·) then some (least, most, skip flags rest) else none
  | _ => none

/-! ## Parts -/

/-- The expression of a set. -/
def setExpr (flags : Flags) (members : CharSet) : Expr :=
  .ofSet (!flags.unicode) members

/-- The expression of a character. -/
def charExpr (flags : Flags) (c : Char) : Expr :=
  setExpr flags (foldCase flags (.single c))

/-- The expression of an atom. -/
def Atom.expr? (flags : Flags) : Atom → Option Expr
  | .char c => some (charExpr flags c)
  | .byte c => if flags.unicode || c.toNat < 0x80 then some (charExpr flags c) else none
  | .set members => some (setExpr flags members)
  | .anchor a => some (.anchor a)

/-- The characters that a point matches. -/
def dotSet (flags : Flags) : CharSet :=
  if flags.dotAll then .all
  else if flags.crlf then .negate (.union (.single '\r') (.single '\n'))
  else .negate (.single '\n')

/-- The test of a position that marks the start of a line, or of the text. -/
def startAnchor (flags : Flags) : Anchor :=
  if !flags.multiLine then .textStart else if flags.crlf then .crlfLineStart else .lineStart

/-- The test of a position that marks the end of a line, or of the text. -/
def endAnchor (flags : Flags) : Anchor :=
  if !flags.multiLine then .textEnd else if flags.crlf then .crlfLineEnd else .lineEnd

/-- A part that is no group and no repetition, and what follows it. -/
def single? (flags : Flags) : Text → Option (Tree × Text)
  | [] => none
  | '\\' :: s => do
    let (atom, rest) ← escape? flags s
    let e ← atom.expr? flags
    some (⟨e, 0⟩, rest)
  | '[' :: s =>
    (bracket? flags s).map fun (nested, rest) => (⟨setExpr flags nested.set, nested.depth⟩, rest)
  | '.' :: s =>
    (permitted? flags (dotSet flags)).map fun set => (⟨setExpr flags set, 0⟩, s)
  | '^' :: s => some (⟨.anchor (startAnchor flags), 0⟩, s)
  | '$' :: s => some (⟨.anchor (endAnchor flags), 0⟩, s)
  | c :: s => some (⟨charExpr flags c, 0⟩, s)

/-- Reads the part of a pattern that starts with a character. -/
def Progress.read? (p : Progress) (c : Char) (s : Text) : Option (Progress × Text) :=
  let again (least : Nat) (most : Option Nat) (s : Text) : Option (Progress × Text) := do
    let (greedy, rest) := greed p.flags s
    let branches ← p.branches.repeat? greedy least most
    some ({ p with branches }, rest)
  match c with
  | '(' => p.openParen? s
  | ')' => p.closeParen?.map fun p => (p, s)
  | '|' => some ({ p with branches := p.branches.split }, s)
  | '*' => again 0 none s
  | '+' => again 1 none s
  | '?' => again 0 (some 1) s
  | '\x7b' => do
    let (least, most, rest) ← counts? p.flags s
    again least most rest
  | c => do
    let (tree, rest) ← single? p.flags (c :: s)
    some ({ p with branches := p.branches.add tree }, rest)

/-- Reads a pattern to its end. The first argument bounds the number of its parts. -/
def readWithin : Nat → Progress → Text → Option Tree
  | 0, _, _ => none
  | fuel + 1, p, s =>
    match skip p.flags s with
    | [] => if p.around.isEmpty then some p.branches.toTree else none
    | c :: rest => do
      let (p, rest) ← p.read? c rest
      readWithin fuel p rest

/-- The greatest depth of a pattern. -/
def depthLimit : Nat := 250

/-- The expression of a pattern; every part of it takes at least one character. -/
def compile (s : Text) : Except Flaw Expr :=
  match readWithin (s.length + 1) {} s with
  | none => .error .malformed
  | some tree =>
    if depthLimit < tree.depth then .error .malformed
    else if tree.expr.isBounded then .ok tree.expr
    else .error .tooLarge

end JsonSieve.Pattern
