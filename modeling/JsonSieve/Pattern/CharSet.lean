/-
Sets of characters. A set is kept as the code points at which membership changes, in increasing
order: a code point is a member if the number of changes up to it is odd. A set is also given by
rows of byte ranges: a character is in it exactly if its bytes are, one by one, in the ranges of one
of the rows.
-/
import JsonSieve.Text.Basic

namespace JsonSieve.Pattern

/-- A set of characters, as the increasing code points at which membership changes. -/
structure CharSet where
  changes : List Nat
  deriving DecidableEq, Repr

namespace CharSet

/-! ## Members -/

/-- Whether a code point is a member. -/
def hasCode (s : CharSet) (n : Nat) : Bool :=
  s.changes.countP (· ≤ n) % 2 == 1

/-- Whether a character is a member. -/
def contains (s : CharSet) (c : Char) : Bool :=
  s.hasCode c.toNat

/-- The closed ranges between changes. -/
def pairUp : List Nat → List (Nat × Nat)
  | first :: stop :: rest => (first, stop - 1) :: pairUp rest
  | _ => []

/-- The members as closed ranges of code points, in increasing order. -/
def ranges (s : CharSet) : List (Nat × Nat) :=
  pairUp s.changes

/-- Whether a set has no members. -/
def isEmpty (s : CharSet) : Bool :=
  s.changes.isEmpty

/-- Whether all members are ASCII characters. -/
def isAscii (s : CharSet) : Bool :=
  s.changes.all (· ≤ 0x80)

/-- The only member. -/
def only? (s : CharSet) : Option Char :=
  match s.changes with
  | [first, stop] => if stop = first + 1 then some (.ofNat first) else none
  | _ => none

/-! ## Sets of code points -/

/-- The set without members. -/
def none : CharSet := ⟨[]⟩

/-- All characters: all code points but the surrogates. -/
def all : CharSet := ⟨[0, 0xD800, 0xE000, 0x110000]⟩

/-- The changes of a closed range and of what comes after it. -/
def consRange (range : Nat × Nat) : List Nat → List Nat
  | next :: rest =>
    if next = range.2 + 1 then range.1 :: rest else range.1 :: (range.2 + 1) :: next :: rest
  | [] => [range.1, range.2 + 1]

/-- The set of closed ranges that are in increasing order. -/
def ofRanges (ranges : List (Nat × Nat)) : CharSet :=
  ⟨ranges.foldr consRange []⟩

/-! ## Operations -/

/-- A change in front of others, unless membership is the same on its two sides. -/
def consChange (n : Nat) (before after : Bool) (rest : List Nat) : List Nat :=
  if before == after then rest else n :: rest

/-- The changes of a combination of two sets up to the change `a` of the first and from there on,
which `rest` gives; the flags say which of the sets has the code point in front. -/
def combineUpTo (op : Bool → Bool → Bool) (a : Nat) (rest : Bool → List Nat → List Nat)
    (inA : Bool) : Bool → List Nat → List Nat
  | inB, [] => consChange a (op inA inB) (op (!inA) inB) (rest inB [])
  | inB, b :: bs =>
    if b < a then
      consChange b (op inA inB) (op inA (!inB)) (combineUpTo op a rest inA (!inB) bs)
    else if a < b then consChange a (op inA inB) (op (!inA) inB) (rest inB (b :: bs))
    else consChange a (op inA inB) (op (!inA) (!inB)) (rest (!inB) bs)

/-- The changes of a combination of two sets where the first does not change any more. -/
def combineLast (op : Bool → Bool → Bool) (inA : Bool) : Bool → List Nat → List Nat
  | _, [] => []
  | inB, b :: bs => consChange b (op inA inB) (op inA (!inB)) (combineLast op inA (!inB) bs)

/-- The changes of a combination of two sets; the flags say which of the sets has the code point in
front. -/
def combineFrom (op : Bool → Bool → Bool) : List Nat → Bool → Bool → List Nat → List Nat
  | [], inA, inB, bs => combineLast op inA inB bs
  | a :: as, inA, inB, bs => combineUpTo op a (combineFrom op as (!inA)) inA inB bs

/-- The set of the code points of which an operation says so, given in which of two sets they are.
Nothing that is in neither set may be in the result. -/
def combine (op : Bool → Bool → Bool) (a b : CharSet) : CharSet :=
  ⟨combineFrom op a.changes false false b.changes⟩

/-- The members of either set. -/
def union (a b : CharSet) : CharSet := combine or a b

/-- The members of both sets. -/
def inter (a b : CharSet) : CharSet := combine and a b

/-- The members of the first set alone. -/
def minus (a b : CharSet) : CharSet := combine (fun x y => x && !y) a b

/-- The members of exactly one of the sets. -/
def exactlyOne (a b : CharSet) : CharSet := combine xor a b

/-- The characters that are no members. -/
def negate (a : CharSet) : CharSet := all.minus a

/-- A set or its complement. -/
def negateIf (negated : Bool) (a : CharSet) : CharSet :=
  if negated then a.negate else a

/-- The characters from the first to the last. -/
def range (first last : Char) : CharSet :=
  all.inter (.ofRanges [(first.toNat, last.toNat)])

/-- The set of one character. -/
def single (c : Char) : CharSet :=
  .ofRanges [(c.toNat, c.toNat)]

/-- The union of sets. -/
def unionOf (sets : List CharSet) : CharSet :=
  sets.foldr union none

end CharSet

/-- A closed range of bytes. -/
abbrev ByteRange := Nat × Nat

/-- The bytes of a code point. -/
def encode (n : Nat) : List Nat :=
  if n < 0x80 then [n]
  else if n < 0x800 then [0xC0 + n / 64, 0x80 + n % 64]
  else if n < 0x10000 then [0xE0 + n / 4096, 0x80 + n / 64 % 64, 0x80 + n % 64]
  else [0xF0 + n / 262144, 0x80 + n / 4096 % 64, 0x80 + n / 64 % 64, 0x80 + n % 64]

/-- The bytes of a text. -/
def bytesOf (s : Text) : List Nat :=
  s.flatMap fun c => encode c.toNat

/-- Where a range has to be cut that spreads over several blocks of a size: behind its first block
if that one is not full, else in front of its last one if that one is not. -/
def cutAtBlock? (first last block : Nat) : Option Nat :=
  if first / block = last / block then none
  else if first % block ≠ 0 then some ((first / block + 1) * block)
  else if last % block ≠ block - 1 then some (last / block * block)
  else none

/-- Where a range has to be cut for its parts to be rows: where the number of bytes changes, else at
the blocks that have all bytes but the last one, two or three in common. -/
def cut? (first last : Nat) : Option Nat :=
  ([0x80, 0x800, 0x10000].find? fun n => first < n && n ≤ last) <|>
    if last < 0x80 then none else [64, 4096, 262144].findSome? (cutAtBlock? first last)

/-- The rows of a range of code points without surrogates. -/
def byteRows (first last : Nat) : List (List ByteRange) :=
  match cut? first last with
  | none => [(encode first).zip (encode last)]
  | some n =>
    if first < n ∧ n ≤ last then byteRows first (n - 1) ++ byteRows n last
    else [(encode first).zip (encode last)]
termination_by last - first

/-- The rows of a set. -/
def CharSet.byteRows (s : CharSet) : List (List ByteRange) :=
  s.ranges.flatMap fun (first, last) => Pattern.byteRows first last

end JsonSieve.Pattern
