/-
Documents: the data of a JSON text, and their compact text. Whole numbers below zero and from zero
on are kept apart from other numbers, and an object has its keys in ascending order, each once.
-/
import JsonSieve.Double.Basic
import JsonSieve.Double.Notation
import JsonSieve.Json.Quoted
import JsonSieve.Value.Entries

namespace JsonSieve

/-- A number of a document. -/
inductive Json.Number where
  | natural (n : UInt64)
  | negative (i : Int64)
  | float (x : Double)
  deriving DecidableEq, Repr

/-- A document. -/
inductive Json where
  | null
  | bool (b : Bool)
  | number (n : Json.Number)
  | string (s : String)
  | array (items : List Json)
  | object (members : List (String × Json))
  deriving Inhabited

end JsonSieve

namespace JsonSieve.Json

/-- The text of a number; a double that is not finite has none and is written as null. -/
def Number.text : Number → Text
  | .natural n => Text.ofNat n.toNat
  | .negative i => Text.ofInt i.toInt
  | .float x => if x.isFinite then x.text else "null".toList

mutual

/-- The compact text of a document: no white space, members in the order they have. -/
def compact : Json → Text
  | .null => "null".toList
  | .bool true => "true".toList
  | .bool false => "false".toList
  | .number n => n.text
  | .string s => quote s.toList
  | .array items => '[' :: Text.joinWith [','] (compactItems items) ++ [']']
  | .object members => '{' :: Text.joinWith [','] (compactMembers members) ++ ['}']

/-- The compact texts of the items of an array. -/
def compactItems : List Json → List Text
  | [] => []
  | x :: xs => compact x :: compactItems xs

/-- The compact texts of the members of an object. -/
def compactMembers : List (String × Json) → List Text
  | [] => []
  | (key, x) :: rest => (quote key.toList ++ ':' :: compact x) :: compactMembers rest

end

end JsonSieve.Json
