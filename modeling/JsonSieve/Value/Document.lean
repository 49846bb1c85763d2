/-
Values and documents: every document is a value, and every value has a document, in which a double
that is not finite becomes null.
-/
import JsonSieve.Value.Basic
import JsonSieve.Json.Reader

namespace JsonSieve

/-- The whole number of 64 bits with a sign that a number is, if it is one. -/
def Json.Number.int? : Json.Number → Option Int64
  | .natural n => if n.toNat ≤ Int64.maxValue.toInt then some (.ofInt n.toNat) else none
  | .negative i => some i
  | .float _ => none

/-- The double nearest to a number. -/
def Json.Number.toDouble : Json.Number → Double
  | .natural n => .ofDecimal false n.toNat 0
  | .negative i => .ofDecimal (i.toInt < 0) i.toInt.natAbs 0
  | .float x => x

namespace Value

mutual

/-- The value of a document: a number is whole if it is a whole number of 64 bits with a sign, and
otherwise a float. -/
def ofJson : Json → Value
  | .null => .null
  | .bool b => .bool b
  | .number n =>
    match n.int? with
    | some i => .int i
    | none => .float n.toDouble
  | .string s => .string s
  | .array items => .list (ofJsonItems items)
  | .object members => .map (ofJsonMembers members)

/-- The values of the items of an array. -/
def ofJsonItems : List Json → List Value
  | [] => []
  | x :: xs => ofJson x :: ofJsonItems xs

/-- The entries of the members of an object. -/
def ofJsonMembers : List (String × Json) → List (String × Value)
  | [] => []
  | (key, x) :: rest => (key, ofJson x) :: ofJsonMembers rest

end

/-- The number of a whole number. -/
def numberOfInt (i : Int64) : Json.Number :=
  if i.toInt < 0 then .negative i else .natural (.ofNat i.toInt.toNat)

mutual

/-- The document of a value. -/
def toJson : Value → Json
  | .null => .null
  | .bool b => .bool b
  | .int i => .number (numberOfInt i)
  | .float x => if x.isFinite then .number (.float x) else .null
  | .string s => .string s
  | .list items => .array (toJsonItems items)
  | .map entries => .object (Entries.ordered (toJsonEntries entries))

/-- The documents of the items of a list. -/
def toJsonItems : List Value → List Json
  | [] => []
  | x :: xs => toJson x :: toJsonItems xs

/-- The keys of a map with the documents of their contents. -/
def toJsonEntries : List (String × Value) → List (String × Json)
  | [] => []
  | (key, x) :: rest => (key, toJson x) :: toJsonEntries rest

end

/-- The value that a text denotes, if the text is one document. -/
def parse? (rounding : Json.Rounding) (s : Text) : Option Value :=
  (Json.parse? rounding s).map ofJson

end Value

end JsonSieve
