/-
Reading the value at a path, and setting it in place: lists are padded with nulls and maps gain keys
as needed, and what did not exist is built before it is attached. An attempt always leaves a value
behind, and a failed one the value that was there.
-/
import JsonSieve.Path.Basic

namespace JsonSieve

/-! ## Reading -/

/-- The value at a path. A key needs a map and an index a list; an absent one is not found. -/
def Value.get : Path → Value → Except Error Value
  | [], v => .ok v
  | .key name :: path, .map entries =>
    if name = "" then get path (.map entries)
    else
      match Entries.get? name entries with
      | some v => get path v
      | none => .error .notFound
  | .key _ :: _, _ => .error .notAStructure
  | .index i :: path, .list items =>
    match items[i.toNat]? with
    | some v => get path v
    | none => .error .notFound
  | .index _ :: _, _ => .error .notAList

/-! ## Setting -/

/-- What an attempt to change a value in place leaves behind, and the error if it failed. -/
structure Attempt where
  after : Value
  error : Option Error

/-- The result of an attempt as a value or an error. -/
def Attempt.result (attempt : Attempt) : Except Error Value :=
  match attempt.error with
  | none => .ok attempt.after
  | some e => .error e

/-- Decides whether a list that holds `held` items gets room for `extra` more. The rest of the path
after the list tells the requests of one attempt apart. -/
abbrev Reservation := (rest : Path) → (held extra : Nat) → Bool

/-- Lists get their room as long as their length fits in 32 bits. -/
def Reservation.standard : Reservation :=
  fun _ held extra => held + extra < UInt32.size

/-- The number after an index, unless it takes more than 64 bits. -/
def nextIndex? (i : UInt64) : Option UInt64 :=
  if i.toNat + 1 < UInt64.size then some (i + 1) else none

namespace Value

/-- The empty container that the first step of a path asks for. -/
def blankFor : Path → Value
  | [] => .null
  | .key _ :: _ => .map []
  | .index _ :: _ => .list []

/-- Attempts to set `new` at a path, where room for new list items is granted by `grants`. -/
def setWithin (grants : Reservation) (new : Value) : Path → Value → Attempt
  | [], _ => ⟨new, none⟩
  | .key name :: path, .map entries =>
    if name = "" then setWithin grants new path (.map entries)
    else
      match Entries.get? name entries with
      | some slot =>
        let inner := setWithin grants new path slot
        ⟨.map (Entries.put name inner.after entries), inner.error⟩
      | none =>
        let fresh := setWithin grants new path (blankFor path)
        match fresh.error with
        | some e => ⟨.map entries, some e⟩
        | none => ⟨.map (Entries.put name fresh.after entries), none⟩
  | .key _ :: _, v => ⟨v, some .notAStructure⟩
  | .index i :: path, .list items =>
    match items[i.toNat]? with
    | some slot =>
      let inner := setWithin grants new path slot
      ⟨.list (items.set i.toNat inner.after), inner.error⟩
    | none =>
      let fresh := setWithin grants new path (blankFor path)
      match fresh.error with
      | some e => ⟨.list items, some e⟩
      | none =>
        if (nextIndex? i).any fun length =>
            grants path items.length (length.toNat - items.length) then
          let padding := List.replicate (i.toNat - items.length) .null
          ⟨.list (items ++ padding ++ [fresh.after]), none⟩
        else ⟨.list items, some (.illegal (.cannotGrow i))⟩
  | .index _ :: _, v => ⟨v, some .notAList⟩

end Value

end JsonSieve
