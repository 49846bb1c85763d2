/-
The size of the automata that run an expression: one that reads texts forward and one that reads
them backward. States are counted in the order in which they are made, as those of a set of wide
characters are shared as far as a memory of limited room goes. An expression is too large if one
of its automata is.
-/
import Std.Data.HashMap
import JsonSieve.Pattern.CharSet
import JsonSieve.Pattern.Expr

namespace JsonSieve.Pattern

/-- The order in which an automaton reads a text. -/
inductive Direction where
  | forward
  | backward
  deriving DecidableEq, Repr

/-- The size of an automaton: its states, and the bytes that they take beside the fixed part of
each. -/
structure Size where
  states : Nat
  extra : Nat
  deriving DecidableEq, Repr

namespace Size

/-- The bytes of an automaton: each state has a fixed part of 32 bytes. -/
def bytes (s : Size) : Nat :=
  32 * s.states + s.extra

/-- The greatest number of bytes of an automaton. -/
def limit : Nat := 10485760

/-- A size if it is within the limit. -/
def checked (s : Size) : Option Size :=
  if s.bytes ≤ limit then some s else none

/-- The sizes of two parts together. -/
def plus (a b : Size) : Size :=
  ⟨a.states + b.states, a.extra + b.extra⟩

end Size

/-- The making of an automaton, which ends when it gets too large. -/
abbrev Build := StateT Size Option

namespace Build

/-- Adds a number of states with extra bytes. -/
def addAll (size : Size) : Build Unit :=
  fun s => (s.plus size).checked.map fun s => ((), s)

/-- Adds a state with extra bytes and gives its number. -/
def add (extra : Nat) : Build Nat :=
  fun s => (s.plus ⟨1, extra⟩).checked.map fun next => (s.states, next)

/-- Adds a fork into a number of states; a way out of it takes four bytes. -/
def addFork (ways : Nat) : Build Unit :=
  addAll ⟨1, 4 * ways⟩

/-- Leads from the last state of a part to another one; a fork gets one more way out. -/
def link (fork : Bool) : Build Unit :=
  if fork then addAll ⟨0, 4⟩ else pure ()

end Build

/-! ## Sets of characters -/

/-- The states that have been made last, under the numbers that describe them. Descriptions that
share a place push each other out. -/
structure Memory where
  room : Nat
  states : Std.HashMap Nat (List Nat × Nat)

namespace Memory

/-- A memory with a number of places. -/
def empty (room : Nat) : Memory :=
  ⟨room, {}⟩

/-- The place of a description: its numbers are mixed one by one into a hash of 64 bits. -/
def place (m : Memory) (key : List Nat) : Nat :=
  (key.foldl (fun hash n => (hash ^^^ n.toUInt64) * 1099511628211)
    (14695981039346656037 : UInt64)).toNat % m.room

/-- The state under a description. -/
def find? (m : Memory) (key : List Nat) : Option Nat :=
  match m.states[m.place key]? with
  | some (found, state) => if found = key then some state else none
  | none => none

/-- The memory with one more state. -/
def insert (m : Memory) (key : List Nat) (state : Nat) : Memory :=
  { m with states := m.states.insert (m.place key) (key, state) }

end Memory

/-- The making of an automaton with a memory. -/
abbrev Recall := StateT Memory Build

/-- The state under a description, made with extra bytes if there is none. -/
def Recall.state (key : List Nat) (extra : Nat) : Recall Nat := do
  match (← get).find? key with
  | some state => return state
  | none =>
    let state ← Build.add extra
    modify (·.insert key state)
    return state

/-- A state of a set that reads forward and is not yet made: its arcs so far as numbers, each a byte
range and the state behind it, and the byte range whose state is still open. -/
structure OpenState where
  arcs : List Nat
  next : Option ByteRange

namespace OpenState

/-- The state with nothing yet. -/
def start : OpenState := ⟨[], none⟩

/-- Lets the open byte range lead to a state. -/
def close (o : OpenState) (target : Nat) : OpenState :=
  match o.next with
  | none => o
  | some (first, last) => ⟨o.arcs ++ [first, last, target], none⟩

/-- Makes the state; an arc takes eight bytes. -/
def make (o : OpenState) : Recall Nat :=
  Recall.state o.arcs (8 * (o.arcs.length / 3))

end OpenState

/-- Makes a number of open states, the innermost first, the first one leading to `target`, and lets
the state in front of them lead there. -/
def closeInner (target : Nat) : Nat → List OpenState → Recall (List OpenState)
  | _, [] => return []
  | 0, o :: outer => return o.close target :: outer
  | n + 1, o :: outer => do
    let state ← (o.close target).make
    closeInner state n outer

/-- Adds a row to the open states of a set: those are kept whose open byte ranges the row starts
with, and the row's other byte ranges get states of their own. -/
def addRow (target : Nat) (chain : List OpenState) (row : List ByteRange) :
    Recall (List OpenState) := do
  let pending := chain.reverse.filterMap OpenState.next
  let shared := ((pending.zip row).takeWhile fun (a, b) => a == b).length
  match ← closeInner target (chain.length - 1 - shared) chain with
  | [] => return []
  | o :: outer =>
    match row.drop shared with
    | [] => return o :: outer
    | range :: inner =>
      let o := { o with next := some range }
      return (inner.map fun range => ⟨[], some range⟩).reverse ++ o :: outer

/-- Adds the states that read the characters of a set forward: the ends of rows are shared. -/
def addForward (rows : List (List ByteRange)) : Build Unit := do
  let target ← Build.add 0
  let whole : Recall Unit := do
    let chain ← rows.foldlM (addRow target) [OpenState.start]
    for o in ← closeInner target (chain.length - 1) chain do
      let _ ← o.make
  let _ ← whole.run (.empty 10000)

/-- Adds the states that read the characters of a set backward: a fork into the rows, the starts of
which are shared. -/
def addBackward (rows : List (List ByteRange)) : Build Unit := do
  Build.addFork 0
  let target ← Build.add 0
  let addRow (row : List ByteRange) : Recall Unit := do
    let _ ← row.foldlM (fun state (first, last) => Recall.state [state, first, last] 0) target
    Build.link true
  let _ ← (rows.forM addRow).run (.empty 1000)

/-- Adds the states that read one member of a set: for ASCII characters a single one with an arc for
each range. -/
def addSet (direction : Direction) (members : CharSet) : Build Unit := do
  if members.isAscii then
    Build.addAll ⟨2, 8 * members.ranges.length⟩
  else
    match direction with
    | .forward => addForward members.byteRows
    | .backward => addBackward members.byteRows

/-! ## Alternative literals -/

/-- The literals of an expression whose alternatives are all literals. -/
def literals? : Expr → Option (List Text)
  | .literal s => some [s]
  | .either (.literal s) e => (s :: ·) <$> literals? e
  | _ => none

/-- Lists between those that are empty. -/
def segments : List (List Nat) → List (List (List Nat))
  | [] => [[]]
  | [] :: rest => [] :: segments rest
  | s :: rest =>
    match segments rest with
    | [] => [[s]]
    | first :: more => (s :: first) :: more

/-- The size of the states that read one of some lists of bytes, each given after what has been read
of it: a state for every segment, with arcs if it has several, and a fork into them. The first
argument bounds the length of the lists. -/
def branchSize : Nat → List (List Nat) → Size
  | 0, _ => ⟨0, 0⟩
  | fuel + 1, tails =>
    match tails.dropWhile List.isEmpty with
    | [] => ⟨0, 0⟩
    | rest =>
      let pieces := segments rest
      let ends := min (tails.takeWhile List.isEmpty).length 1 + (pieces.length - 1)
      let full := pieces.filter (!·.isEmpty)
      let own (piece : List (List Nat)) : Size :=
        let heads := (piece.filterMap List.head?).eraseDups
        let inner := heads.map fun head =>
          branchSize fuel ((piece.filter (·.head? == some head)).map List.tail)
        inner.foldl Size.plus ⟨1, if heads.length = 1 then 0 else 8 * heads.length⟩
      (full.map own).foldl Size.plus ⟨1, 4 * (full.length + ends)⟩

/-- Adds the states that read one of some literals, what they start with shared. -/
def addLiterals (direction : Direction) (literals : List Text) : Build Unit :=
  let rows := literals.map bytesOf
  let rows := match direction with
    | .forward => rows
    | .backward => rows.map List.reverse
  let longest := (rows.map List.length).foldl max 0
  Build.addAll (Size.plus ⟨1, 0⟩ (branchSize (longest + 1) rows))

/-! ## Repetitions -/

/-- Adds a part a number of times more behind a part; the result says whether the last state is a
fork. -/
def addMore (part : Build Bool) : Nat → Bool → Size → Option (Bool × Size)
  | 0, fork, size => some (fork, size)
  | n + 1, fork, size =>
    match part size with
    | none => none
    | some (next, size) =>
      match Build.link fork size with
      | none => none
      | some (_, size) => addMore part n next size

/-- Adds a part exactly a number of times. -/
def addExactly (part : Build Bool) : Nat → Build Bool
  | 0 => do
    let _ ← Build.add 0
    return false
  | n + 1 => do
    let fork ← part
    addMore part n fork

/-- Adds a part at most a number of times behind a part, a fork in front of each. -/
def addUpTo (part : Build Bool) : Nat → Bool → Size → Option (Bool × Size)
  | 0, fork, size => some (fork, size)
  | n + 1, fork, size =>
    match Build.addFork 2 size with
    | none => none
    | some (_, size) =>
      match part size with
      | none => none
      | some (next, size) =>
        match Build.link fork size with
        | none => none
        | some (_, size) => addUpTo part n next size

/-- Adds a repetition of a part; the flag says whether each match of the part has a character. -/
def addTimes (part : Build Bool) (wide : Bool) (least : Nat) (most : Option Nat) : Build Bool := do
  match least, most with
  | 0, some 1 =>
    Build.addFork 2
    Build.link (← part)
    let _ ← Build.add 0
    return false
  | 0, none =>
    if wide then
      Build.addFork 1
      Build.link (← part)
      return true
    else
      let fork ← part
      Build.addFork 2
      Build.link fork
      Build.addFork 2
      let _ ← Build.add 0
      return false
  | 1, none =>
    let fork ← part
    Build.addFork 1
    Build.link fork
    return true
  | least, none =>
    let front ← addExactly part (least - 1)
    let fork ← part
    Build.addFork 1
    Build.link front
    Build.link fork
    return true
  | least, some most =>
    let front ← addExactly part least
    if most ≤ least then return front
    else
      let _ ← Build.add 0
      let fork ← addUpTo part (most - least) front
      Build.link fork
      return false

/-! ## Expressions -/

/-- The place of an expression among alternatives. -/
inductive Place where
  /-- It is none of several. -/
  | alone
  /-- It goes on behind the first alternative; the flag says whether that ends with a fork. -/
  | second (fork : Bool)
  /-- It goes on behind further alternatives. -/
  | further

/-- Adds an alternative at its place: with the second one comes the fork into all of them and the
state behind them. -/
def Place.add (place : Place) (part : Build Bool) : Build Bool := do
  match place with
  | .alone => part
  | .second first =>
    let fork ← part
    Build.addFork 2
    let _ ← Build.add 0
    Build.link first
    Build.link fork
    return false
  | .further =>
    let fork ← part
    Build.addAll ⟨0, 4⟩
    Build.link fork
    return false

/-- Adds the states of an expression; the result says whether the last state is a fork. -/
def Expr.addTo (direction : Direction) : Expr → Place → Build Bool
  | .empty, place => place.add do
    let _ ← Build.add 0
    return false
  | .literal s, place => place.add do
    Build.addAll ⟨(bytesOf s).length, 0⟩
    return false
  | .set _ members, place => place.add do
    addSet direction members
    return false
  | .anchor _, place => place.add do
    let _ ← Build.add 0
    return false
  | .group _ e, place => place.add do
    match direction with
    | .forward =>
      let _ ← Build.add 0
      let fork ← e.addTo direction .alone
      let _ ← Build.add 0
      Build.link fork
      return false
    | .backward => e.addTo direction .alone
  | .seq a b, place => place.add do
    match direction with
    | .forward =>
      let fork ← a.addTo direction .alone
      let next ← b.addTo direction .alone
      Build.link fork
      return next
    | .backward =>
      let fork ← b.addTo direction .alone
      let next ← a.addTo direction .alone
      Build.link fork
      return next
  | .times _ e least most, place => place.add do
    addTimes (e.addTo direction .alone) (e.minLength.any (0 < ·)) least most
  | .either a b, .alone => do
    match literals? (.either a b) with
    | some literals =>
      addLiterals direction literals
      return false
    | none =>
      let fork ← a.addTo direction .alone
      b.addTo direction (.second fork)
  | .either a b, place => do
    let _ ← place.add (a.addTo direction .alone)
    b.addTo direction .further

/-- Adds the states of a whole pattern: a loop over what is in front of a match unless each match
starts where reading starts, the expression, in a group of its own if texts are read forward, and
the state that accepts. -/
def addPattern (direction : Direction) (e : Expr) : Build Unit := do
  let bound := match direction with
    | .forward => e.startsText
    | .backward => e.endsText
  if bound then
    let _ ← Build.add 0
  else
    Build.addFork 2
    Build.addAll ⟨2, 8⟩
  let fork ← (Expr.group 0 e).addTo direction .alone
  let _ ← Build.add 0
  Build.link fork

/-- Whether the automata of an expression are within the limit. -/
def Expr.isBounded (e : Expr) : Bool :=
  [Direction.forward, .backward].all fun direction =>
    ((addPattern direction e).run ⟨0, 0⟩).isSome

end JsonSieve.Pattern
