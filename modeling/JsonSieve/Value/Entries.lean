/-
Entries of a map: pairs of a key and a content, in the order in which they are visited. A map holds
each key once; the operations here look at the first entry of a key and keep that so.
-/

namespace JsonSieve

/-- The entries of a map, in visiting order. -/
abbrev Entries (α : Type) := List (String × α)

namespace Entries

variable {α : Type}

/-- The content under a key. -/
def get? (key : String) : Entries α → Option α
  | [] => none
  | (k, x) :: rest => if k = key then some x else get? key rest

/-- Puts a content under a key: in the place of the old one, or at the end under a new key. -/
def put (key : String) (x : α) : Entries α → Entries α
  | [] => [(key, x)]
  | (k, y) :: rest => if k = key then (k, x) :: rest else (k, y) :: put key x rest

/-- The keys, in visiting order. -/
def keys (entries : Entries α) : List String :=
  entries.map (·.1)

/-- Puts a content under a key among entries in ascending order of keys. -/
def putOrdered (key : String) (x : α) : Entries α → Entries α
  | [] => [(key, x)]
  | (k, y) :: rest =>
    if k = key then (k, x) :: rest
    else if key < k then (key, x) :: (k, y) :: rest
    else (k, y) :: putOrdered key x rest

/-- The entries in ascending order of keys, the last one of each key kept. -/
def ordered (entries : Entries α) : Entries α :=
  entries.foldl (fun sorted (k, x) => putOrdered k x sorted) []

/-- Whether the key of an entry is no greater than that of another. Keys are compared character by
character, which is also the order of their bytes. -/
def keyLe (a b : String × α) : Bool :=
  a.1 ≤ b.1

/-- The same entries in ascending order of keys. -/
def sorted (entries : Entries α) : Entries α :=
  entries.mergeSort keyLe

end Entries

end JsonSieve
