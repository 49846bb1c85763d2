/-
Patterns as expressions, and whether an expression matches somewhere in a text. A match is followed
by marking the positions of the text that it can have reached: one mark in front of each character
and one at the end.
-/
import JsonSieve.Pattern.NamedSet

namespace JsonSieve.Pattern

/-- A test of a position by the characters on its two sides. -/
inductive Anchor where
  | textStart
  | textEnd
  | lineStart
  | lineEnd
  | crlfLineStart
  | crlfLineEnd
  /-- Exactly one side is a word character; the flag says whether of all scripts. -/
  | boundary (unicode : Bool)
  | noBoundary (unicode : Bool)
  | wordStart (unicode : Bool)
  | wordEnd (unicode : Bool)
  | noWordBefore (unicode : Bool)
  | noWordAfter (unicode : Bool)
  deriving DecidableEq, Repr

/-- Whether a side of a position is a word character. -/
def isWordSide (unicode : Bool) (side : Option Char) : Bool :=
  side.any fun c => if unicode then wordSet.contains c else asciiWord.contains c

/-- Whether a position passes a test, given the characters before and after it. -/
def Anchor.holds (before after : Option Char) : Anchor → Bool
  | .textStart => before.isNone
  | .textEnd => after.isNone
  | .lineStart => before.isNone || before == some '\n'
  | .lineEnd => after.isNone || after == some '\n'
  | .crlfLineStart =>
    before.isNone || before == some '\n' || (before == some '\r' && after != some '\n')
  | .crlfLineEnd =>
    after.isNone || after == some '\r' || (after == some '\n' && before != some '\r')
  | .boundary u => isWordSide u before != isWordSide u after
  | .noBoundary u => isWordSide u before == isWordSide u after
  | .wordStart u => !isWordSide u before && isWordSide u after
  | .wordEnd u => isWordSide u before && !isWordSide u after
  | .noWordBefore u => !isWordSide u before
  | .noWordAfter u => !isWordSide u after

/-- An expression. -/
inductive Expr where
  | empty
  /-- Characters one after the other. -/
  | literal (s : Text)
  /-- One member of a set; the flag says whether characters are read as bytes. -/
  | set (bytes : Bool) (members : CharSet)
  | anchor (a : Anchor)
  /-- A group that is counted, under its number. -/
  | group (number : Nat) (e : Expr)
  | seq (a b : Expr)
  | either (a b : Expr)
  /-- At least `least` and at most `most` times in a row, without a limit if `most` is absent; the
  flag says whether more turns are tried before fewer. -/
  | times (greedy : Bool) (e : Expr) (least : Nat) (most : Option Nat)
  deriving DecidableEq, Repr

namespace Expr

/-! ## Lengths of matches -/

/-- The least number of characters of a match, absent if a part cannot be matched at all. -/
def minLength : Expr → Option Nat
  | .empty | .anchor _ => some 0
  | .literal s => some s.length
  | .set _ members => if members.isEmpty then none else some 1
  | .group _ e => e.minLength
  | .seq a b => return (← a.minLength) + (← b.minLength)
  | .either a b => return min (← a.minLength) (← b.minLength)
  | .times _ e least _ => return (← e.minLength) * least

/-- The greatest number of characters of a match, absent if there is none or if a part cannot be
matched at all. -/
def maxLength : Expr → Option Nat
  | .empty | .anchor _ => some 0
  | .literal s => some s.length
  | .set _ members => if members.isEmpty then none else some 1
  | .group _ e => e.maxLength
  | .seq a b => return (← a.maxLength) + (← b.maxLength)
  | .either a b => return max (← a.maxLength) (← b.maxLength)
  | .times _ e _ most => return (← e.maxLength) * (← most)

/-- Whether an expression matches nothing but the empty text. -/
def isZeroWidth (e : Expr) : Bool :=
  e.maxLength == some 0

/-! ## Ends of the text -/

/-- Whether every match is known to start at the start of the text. -/
def startsText : Expr → Bool
  | .anchor a => a == .textStart
  | .group _ e => e.startsText
  | .seq a b => a.startsText || (a.isZeroWidth && b.startsText)
  | .either a b => a.startsText && b.startsText
  | .times _ e least _ => 0 < least && e.startsText
  | .empty | .literal _ | .set _ _ => false

/-- Whether every match is known to end at the end of the text. -/
def endsText : Expr → Bool
  | .anchor a => a == .textEnd
  | .group _ e => e.endsText
  | .seq a b => b.endsText || (b.isZeroWidth && a.endsText)
  | .either a b => a.endsText && b.endsText
  | .times _ e least _ => 0 < least && e.endsText
  | .empty | .literal _ | .set _ _ => false

/-! ## Matching -/

/-- Marks of the positions of a text, from the first to the one behind the last character. -/
abbrev Marks := List Bool

/-- The positions that are marked in one of two ways. -/
def Marks.or (m n : Marks) : Marks :=
  List.zipWith (· || ·) m n

/-- The positions behind the characters of a text that pass a test and start at marked ones. -/
def Marks.step (s : Text) (passes : Char → Bool) (m : Marks) : Marks :=
  false :: List.zipWith (fun marked c => marked && passes c) m s

/-- The characters on the two sides of every position of a text. -/
def sides (s : Text) : List (Option Char × Option Char) :=
  List.zip (none :: s.map some) (s.map some ++ [none])

/-- Takes a step a number of times, or until it changes nothing. -/
def iterate (step : Marks → Marks) : Nat → Marks → Marks
  | 0, m => m
  | n + 1, m =>
    let next := step m
    if next == m then m else iterate step n next

/-- Marks what a step reaches in at most a number of turns. -/
def reach (step : Marks → Marks) : Nat → Marks → Marks
  | 0, m => m
  | n + 1, m =>
    let next := m.or (step m)
    if next == m then m else reach step n next

/-- The positions of a text at which matches of an expression end that start at marked ones. -/
def ends (s : Text) : Expr → Marks → Marks
  | .empty, m => m
  | .literal cs, m => cs.foldl (fun m c => m.step s (· == c)) m
  | .set _ members, m => m.step s members.contains
  | .anchor a, m =>
    List.zipWith (fun marked side => marked && a.holds side.1 side.2) m (sides s)
  | .group _ e, m => ends s e m
  | .seq a b, m => ends s b (ends s a m)
  | .either a b, m => (ends s a m).or (ends s b m)
  | .times _ e least most, m =>
    let turns := match most with
      | none => s.length + 1
      | some most => most - least
    reach (ends s e) turns (iterate (ends s e) least m)

/-- Whether an expression matches somewhere in a text. -/
def matchesIn (e : Expr) (s : Text) : Bool :=
  (ends s e (List.replicate (s.length + 1) true)).contains true

end Expr

end JsonSieve.Pattern
