/-
Transforms: what a transform directive does to a value, as a tree of operators, and the transform
of a directive.
-/
import JsonSieve.Path.Basic

namespace JsonSieve

/-- A transform. -/
inductive Transform where
  /-- Transforms every item of a list. -/
  | everyItem (rest : Transform)
  /-- Transforms the content of every entry of a map. -/
  | everyField (rest : Transform)
  /-- Transforms the item of a list at an index. -/
  | item (i : UInt64) (rest : Transform)
  /-- Transforms the content of a field of a map. The empty name stands for the map itself. -/
  | field (name : String) (rest : Transform)
  /-- Copies the value at the source to the destination. -/
  | copy (dest src : Path)
  /-- Fails on every value. -/
  | refuse (e : Error)
  deriving DecidableEq, Repr

/-- Whether a character ends a side of an assignment. -/
def endsSide (c : Char) : Bool :=
  c == '=' || c == '}'

/-- The destination and the source of an assignment that a whole text is. -/
def assignment? : Text → Option (Text × Text)
  | '{' :: s =>
    match s.dropWhile (!endsSide ·) with
    | '=' :: t =>
      match t.dropWhile (!endsSide ·) with
      | ['}'] => some (s.takeWhile (!endsSide ·), t.takeWhile (!endsSide ·))
      | _ => none
    | _ => none
  | _ => none

namespace Transform

/-- The forms that a directive can have, each with what is left to read. -/
inductive Form where
  | empty
  | everyItem (rest : Text)
  | everyField (rest : Text)
  | item (i : UInt64) (rest : Text)
  | field (name rest : Text)
  | assignment (dest src : Text)
  | unknown
  deriving DecidableEq, Repr

/-- The form of a directive that starts with no fixed operator: an index, a field or an assignment,
or else none. -/
def Form.ofOperand (d : Text) : Form :=
  match exactIndex? d with
  | some (i, rest) => .item i rest
  | none =>
    match exactField? d with
    | some (name, rest) => .field name rest
    | none =>
      match assignment? d with
      | some (dest, src) => .assignment dest src
      | none => .unknown

/-- The form of a directive. -/
def Form.of : Text → Form
  | [] => .empty
  | '[' :: ']' :: rest => .everyItem rest
  | '.' :: '(' :: ')' :: rest => .everyField rest
  | d => .ofOperand d

/-- The text that a form leaves to read as a directive. -/
def Form.rest? : Form → Option Text
  | .everyItem rest | .everyField rest | .item _ rest | .field _ rest => some rest
  | .empty | .assignment _ _ | .unknown => none

/-- What a form leaves to read is shorter than the directive. -/
theorem Form.length_of_rest? {d rest : Text} (h : (Form.of d).rest? = some rest) :
    rest.length < d.length := by
  unfold Form.of at h
  split at h
  · cases h
  · cases h; simp only [List.length_cons]; omega
  · cases h; simp only [List.length_cons]; omega
  · unfold Form.ofOperand at h
    split at h
    · rename_i i r hi
      cases h; exact length_of_exactIndex? hi
    · split at h
      · rename_i name r hf
        cases h; exact length_of_exactField? hf
      · split at h <;> cases h

/-- The transform of an assignment: both sides are explicit paths. -/
def ofSides (dest src : Text) : Transform :=
  match Path.parse dest, Path.parse src with
  | .ok dest, .ok src => .copy dest src
  | .error e, _ => .refuse e
  | _, .error e => .refuse e

/-- The transform of a directive. -/
def parse (d : Text) : Transform :=
  match _h : Form.of d with
  | .empty => .refuse (.unrecognized "")
  | .everyItem rest => .everyItem (parse rest)
  | .everyField rest => .everyField (parse rest)
  | .item i rest => .item i (parse rest)
  | .field name rest => .field (String.ofList name) (parse rest)
  | .assignment dest src => ofSides dest src
  | .unknown => .refuse (.unrecognized (String.ofList d))
termination_by d.length
decreasing_by
  all_goals
    apply Form.length_of_rest?
    simp_all [Form.rest?]

end Transform

end JsonSieve
