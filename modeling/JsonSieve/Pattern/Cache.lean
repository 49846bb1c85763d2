/-
The patterns that have been compiled: each is kept under its own text from its first use on, never
removed and never replaced, and a text that is no pattern is not kept.
-/
import JsonSieve.Pattern.Reader

namespace JsonSieve

/-- Compiled patterns under their texts, the latest first. -/
structure PatternCache where
  entries : List (String × Pattern.Expr) := []
  deriving DecidableEq

namespace PatternCache

/-- The cache without patterns. -/
def empty : PatternCache := {}

/-- The expression that is kept for a pattern. -/
def get? (cache : PatternCache) (pattern : String) : Option Pattern.Expr :=
  Entries.get? pattern cache.entries

/-- Whether a pattern has been compiled. -/
def contains (cache : PatternCache) (pattern : String) : Bool :=
  (cache.get? pattern).isSome

/-- The number of patterns. -/
def size (cache : PatternCache) : Nat :=
  cache.entries.length

/-- Whether no pattern has been compiled. -/
def isEmpty (cache : PatternCache) : Bool :=
  cache.entries.isEmpty

/-- The cache with one more pattern. -/
def insert (cache : PatternCache) (pattern : String) (e : Pattern.Expr) : PatternCache :=
  ⟨(pattern, e) :: cache.entries⟩

end PatternCache

/-- What a computation gives on a cache can be compared where its values can. -/
instance instDecidableEqId {α : Type} [DecidableEq α] : DecidableEq (Id α) :=
  inferInstanceAs (DecidableEq α)

/-- A computation that may fail and that looks up and adds compiled patterns; the patterns that it
has added stay also when it fails. -/
abbrev Run := ExceptT Error (StateM PatternCache)

/-- The expression of a pattern, compiled and kept on its first use. -/
def Pattern.compiled (pattern : String) : Run Pattern.Expr := do
  match (← get).get? pattern with
  | some e => return e
  | none =>
    match Pattern.compile pattern.toList with
    | .error flaw => throw (.invalidPattern pattern flaw)
    | .ok e =>
      modify (·.insert pattern e)
      return e

/-- Whether a pattern matches somewhere in a text. -/
def Pattern.isMatch (pattern : String) (s : Text) : Run Bool := do
  let e ← Pattern.compiled pattern
  return e.matchesIn s

end JsonSieve
