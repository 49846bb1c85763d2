/-
Reading sets of characters in brackets: single characters, ranges, named sets, sets within sets,
and the operations between them, which group from the left.
-/
import JsonSieve.Pattern.Escape

namespace JsonSieve.Pattern

/-- The operations between the parts of a set in brackets. -/
inductive SetOp where
  | inter
  | minus
  | exactlyOne
  deriving DecidableEq, Repr

/-- Combines two sets, the variants in case of their members added first. -/
def SetOp.apply (flags : Flags) (op : SetOp) (a b : CharSet) : CharSet :=
  let a := foldCase flags a
  let b := foldCase flags b
  match op with
  | .inter => .inter a b
  | .minus => .minus a b
  | .exactlyOne => .exactlyOne a b

/-- A set, and how deeply the brackets, unions and operations are nested that give it. -/
structure NestedSet where
  set : CharSet
  depth : Nat := 0

/-- A union that is being read: its members so far, how many parts gave them, and the depth of the
deepest part. -/
structure Members where
  set : CharSet := .none
  count : Nat := 0
  depth : Nat := 0

namespace Members

/-- Adds a part. -/
def add (m : Members) (part : NestedSet) : Members :=
  ⟨m.set.union part.set, m.count + 1, max m.depth part.depth⟩

/-- The union; it is nested more deeply than its parts if there are several. -/
def whole (m : Members) : NestedSet :=
  ⟨m.set, if m.count < 2 then m.depth else m.depth + 1⟩

end Members

/-- What has been read of a set in brackets: whether it is a complement, the part before the last
operation, and the union since then. -/
structure Bracket where
  negated : Bool
  left : Option (NestedSet × SetOp)
  union : Members

namespace Bracket

/-- Adds a part to the union. -/
def add (b : Bracket) (part : NestedSet) : Bracket :=
  { b with union := b.union.add part }

/-- The set so far: the union, combined with the part before the last operation. -/
def soFar (flags : Flags) (b : Bracket) : NestedSet :=
  let right := b.union.whole
  match b.left with
  | none => right
  | some (left, op) => ⟨op.apply flags left.set right.set, max left.depth right.depth + 1⟩

/-- Starts the part after an operation. -/
def operate (flags : Flags) (op : SetOp) (b : Bracket) : Bracket :=
  { b with left := some (b.soFar flags, op), union := {} }

/-- The set of closed brackets, if it may be used under the flags. -/
def close? (flags : Flags) (b : Bracket) : Option NestedSet :=
  let inside := b.soFar flags
  (permitted? flags (.negateIf b.negated (foldCase flags inside.set))).map (⟨·, inside.depth + 1⟩)

end Bracket

/-- A character or an escape in brackets, and what follows it. -/
def bracketAtom? (flags : Flags) : Text → Option (Atom × Text)
  | [] => none
  | '\\' :: s => escape? flags s
  | c :: s => some (.char c, s)

/-- The character that an end of a range is. Where characters are bytes it is an ASCII one. -/
def Atom.member? (flags : Flags) : Atom → Option Char
  | .char c | .byte c => if flags.unicode || c.toNat < 0x80 then some c else none
  | .set _ | .anchor _ => none

/-- The members that an atom adds to a set. -/
def Atom.members? (flags : Flags) : Atom → Option CharSet
  | .set members => some members
  | atom => (atom.member? flags).map CharSet.single

/-- The character after a hyphen, white space and the mark of one comment left out where the flags
say so. -/
def peekAfter (flags : Flags) (s : Text) : Option Char :=
  if !flags.ignoreBlanks then s.head?
  else
    match s.dropWhile Unicode.isBlank with
    | '#' :: t => (t.dropWhile Unicode.isBlank).head? <|> s.head?
    | [] => s.head?
    | c :: _ => some c

/-- A single member, or a range between two characters of which the first is not the greater. -/
def bracketItem? (flags : Flags) (s : Text) : Option (CharSet × Text) := do
  let (first, rest) ← bracketAtom? flags s
  match skip flags rest with
  | [] => none
  | '-' :: rest =>
    if peekAfter flags rest = some ']' ∨ peekAfter flags rest = some '-' then do
      let set ← first.members? flags
      some (set, '-' :: rest)
    else do
      let (last, rest) ← bracketAtom? flags (skip flags rest)
      let first ← first.member? flags
      let last ← last.member? flags
      if first ≤ last then some (.range first last, rest) else none
  | rest => do
    let set ← first.members? flags
    some (set, rest)

/-- A named set between colons, after its opening bracket and up to its closing one. -/
def asciiSet? (flags : Flags) : Text → Option (CharSet × Text)
  | ':' :: s =>
    let (negated, s) := match s with
      | '^' :: t => (true, t)
      | _ => (false, s)
    match s.dropWhile (· != ':') with
    | ':' :: ']' :: rest =>
      (asciiClass? (String.ofList (s.takeWhile (· != ':')))).map fun set =>
        (.negateIf negated (foldCase flags set), rest)
    | _ => none
  | _ => none

/-- The hyphens that stand for themselves at the start of brackets, and what follows them. -/
def leadingHyphens (flags : Flags) : Nat → Bracket → Text → Bracket × Text
  | fuel + 1, b, '-' :: s => leadingHyphens flags fuel (b.add ⟨.single '-', 0⟩) (skip flags s)
  | _, b, s => (b, s)

/-- What has been read after an opening bracket, its mark of a complement and the hyphens or the
closing bracket that stand for themselves there. -/
def openBracket (flags : Flags) (s : Text) : Bracket × Text :=
  let (negated, s) := match skip flags s with
    | '^' :: t => (true, skip flags t)
    | t => (false, t)
  let start : Bracket := ⟨negated, none, {}⟩
  match s with
  | ']' :: t => (start.add ⟨.single ']', 0⟩, skip flags t)
  | _ => leadingHyphens flags s.length start s

/-- The set in brackets whose inside goes on as `b` says, and what follows its closing bracket; the
sets around it are given from the innermost on. The first argument bounds the number of parts. -/
def bracketWithin (flags : Flags) : Nat → Bracket → List Bracket → Text →
    Option (NestedSet × Text)
  | 0, _, _, _ => none
  | fuel + 1, b, around, s =>
    match skip flags s with
    | [] => none
    | '[' :: rest =>
      match asciiSet? flags rest with
      | some (set, rest) => do
        let set ← permitted? flags set
        bracketWithin flags fuel (b.add ⟨set, 0⟩) around rest
      | none =>
        let (inner, rest) := openBracket flags rest
        bracketWithin flags fuel inner (b :: around) rest
    | ']' :: rest => do
      let set ← b.close? flags
      match around with
      | [] => some (set, rest)
      | outer :: around => bracketWithin flags fuel (outer.add set) around rest
    | '&' :: '&' :: rest => bracketWithin flags fuel (b.operate flags .inter) around rest
    | '-' :: '-' :: rest => bracketWithin flags fuel (b.operate flags .minus) around rest
    | '~' :: '~' :: rest => bracketWithin flags fuel (b.operate flags .exactlyOne) around rest
    | s => do
      let (set, rest) ← bracketItem? flags s
      bracketWithin flags fuel (b.add ⟨set, 0⟩) around rest

/-- The set after an opening bracket, and what follows its closing bracket. -/
def bracket? (flags : Flags) (s : Text) : Option (NestedSet × Text) :=
  let (b, rest) := openBracket flags s
  bracketWithin flags (s.length + 1) b [] rest

end JsonSieve.Pattern
