/-
Printing values: one recursion over the tree for the compact and the pretty text. The entries of a
map are written in ascending order of keys, whatever their visiting order is.
-/
import JsonSieve.Value.Basic
import JsonSieve.Json.Quoted
import JsonSieve.Double.Notation

namespace JsonSieve

/-- How a value is laid out: without white space, or one part a line with an indent of two spaces a
level. -/
inductive Layout where
  | compact
  | pretty
  deriving DecidableEq, Repr

namespace Layout

/-- What stands before a part at a level. -/
def lineBreak : Layout → Nat → Text
  | .compact, _ => []
  | .pretty, level => '\n' :: List.replicate (2 * level) ' '

/-- What stands between a key and its content. -/
def colon : Layout → Text
  | .compact => [':']
  | .pretty => [':', ' ']

/-- Parts between two marks, separated by commas; the marks alone if there are no parts. -/
def enclose (layout : Layout) (level : Nat) (opening closing : Char) (parts : List Text) : Text :=
  if parts.isEmpty then [opening, closing]
  else
    opening :: Text.joinWith [','] (parts.map (layout.lineBreak (level + 1) ++ ·)) ++
      layout.lineBreak level ++ [closing]

end Layout

namespace Value

mutual

/-- The text of a value at a level. A double that is not finite is written as null. -/
def write (layout : Layout) (level : Nat) : Value → Text
  | .null => "null".toList
  | .bool true => "true".toList
  | .bool false => "false".toList
  | .int i => Text.ofInt i.toInt
  | .float x => if x.isFinite then x.text else "null".toList
  | .string s => Json.quote s.toList
  | .list items => layout.enclose level '[' ']' (writeItems layout (level + 1) items)
  | .map entries =>
    layout.enclose level '{' '}' <|
      (Entries.sorted (writeEntries layout (level + 1) entries)).map fun (key, text) =>
        Json.quote key.toList ++ layout.colon ++ text

/-- The texts of the items of a list at a level. -/
def writeItems (layout : Layout) (level : Nat) : List Value → List Text
  | [] => []
  | x :: xs => write layout level x :: writeItems layout level xs

/-- The keys of a map with the texts of their contents at a level. -/
def writeEntries (layout : Layout) (level : Nat) : List (String × Value) → List (String × Text)
  | [] => []
  | (key, x) :: rest => (key, write layout level x) :: writeEntries layout level rest

end

/-- The text of a value in a layout. -/
def text (layout : Layout) (v : Value) : Text :=
  v.write layout 0

/-- The compact text of a value. -/
def compact (v : Value) : Text :=
  v.text .compact

/-- The pretty text of a value. -/
def pretty (v : Value) : Text :=
  v.text .pretty

end Value

end JsonSieve
