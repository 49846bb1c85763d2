/-
Applying transforms in place. Below the top a part that does not fit is left as the attempt on it
leaves it, and the transform goes on; an error of the directive ends it at once.
-/
import JsonSieve.Path.Access
import JsonSieve.Transform.Basic

namespace JsonSieve

/-- The error of an attempt, if it lies in the directive. -/
def Attempt.fatal? (attempt : Attempt) : Option Error :=
  attempt.error.filter Error.isFatal

namespace Transform

/-- Changes items in place, one after the other, up to the first error of the directive. -/
def changeItems (change : Value → Attempt) : List Value → List Value × Option Error
  | [] => ([], none)
  | x :: xs =>
    let attempt := change x
    match attempt.fatal? with
    | some e => (attempt.after :: xs, some e)
    | none =>
      let (ys, e) := changeItems change xs
      (attempt.after :: ys, e)

/-- Changes the contents of entries in place, one after the other, up to the first error of the
directive. -/
def changeEntries (change : Value → Attempt) :
    List (String × Value) → List (String × Value) × Option Error
  | [] => ([], none)
  | (key, x) :: rest =>
    let attempt := change x
    match attempt.fatal? with
    | some e => ((key, attempt.after) :: rest, some e)
    | none =>
      let (ys, e) := changeEntries change rest
      ((key, attempt.after) :: ys, e)

section

variable (grants : Reservation)

/-- Copies the value at `src` to `dest`. -/
def copyWithin (dest src : Path) (v : Value) : Attempt :=
  match v.get src with
  | .ok w => Value.setWithin grants w dest v
  | .error e => ⟨v, some e⟩

/-- Attempts to transform a value in place. -/
def apply : Transform → Value → Attempt
  | .everyItem rest, v =>
    match v with
    | .list items =>
      let (items, e) := changeItems (apply rest) items
      ⟨.list items, e⟩
    | _ => ⟨v, some .notAList⟩
  | .everyField rest, v =>
    match v with
    | .map entries =>
      let (entries, e) := changeEntries (apply rest) entries
      ⟨.map entries, e⟩
    | _ => ⟨v, some .notAStructure⟩
  | .item i rest, v =>
    match v with
    | .list items =>
      match items[i.toNat]? with
      | some x =>
        let inner := apply rest x
        ⟨.list (items.set i.toNat inner.after), inner.fatal?⟩
      | none => ⟨v, none⟩
    | _ => ⟨v, some .notAList⟩
  | .field name rest, v =>
    match v with
    | .map entries =>
      if name = "" then
        let inner := apply rest v
        ⟨inner.after, inner.fatal?⟩
      else
        match Entries.get? name entries with
        | some x =>
          let inner := apply rest x
          ⟨.map (Entries.put name inner.after entries), inner.fatal?⟩
        | none => ⟨v, none⟩
    | _ => ⟨v, some .notAStructure⟩
  | .copy dest src, v => copyWithin grants dest src v
  | .refuse e, v => ⟨v, some e⟩

end

end Transform

/-- Attempts to transform a value in place by a directive. -/
def Value.transform (grants : Reservation) (v : Value) (directive : Text) : Attempt :=
  (Transform.parse directive).apply grants v

end JsonSieve
