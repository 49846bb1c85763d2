/-
Values: trees of scalars, lists and maps. Whole numbers and floating-point numbers are kept apart,
and a map is its entries in visiting order.
-/
import JsonSieve.Double.Basic
import JsonSieve.Value.Entries

namespace JsonSieve

/-- A value. -/
inductive Value where
  | null
  | bool (b : Bool)
  | int (i : Int64)
  | float (x : Double)
  | string (s : String)
  | list (items : List Value)
  | map (entries : List (String × Value))
  deriving Inhabited

namespace Value

/-- The kinds of values. -/
inductive Kind where
  | null | bool | int | float | string | list | map
  deriving DecidableEq, Repr

/-- The name of a kind, as messages give it. -/
def Kind.name : Kind → String
  | .null => "null"
  | .bool => "bool"
  | .int => "int"
  | .float => "float"
  | .string => "string"
  | .list => "list"
  | .map => "map"

/-- The kind of a value. -/
def kind : Value → Kind
  | .null => .null
  | .bool _ => .bool
  | .int _ => .int
  | .float _ => .float
  | .string _ => .string
  | .list _ => .list
  | .map _ => .map

/-- Whether a value is a map. -/
def isMap (v : Value) : Bool :=
  v.kind == .map

/-! ## Identity -/

mutual

/-- Whether two values are the same term, floats by their bits and entries in their order. -/
def decEq (v w : Value) : Decidable (v = w) :=
  if h : v.kind = w.kind then
    match v, w, h with
    | .null, .null, _ => isTrue rfl
    | .bool a, .bool b, _ => decidable_of_iff (a = b) (by simp)
    | .int i, .int j, _ => decidable_of_iff (i = j) (by simp)
    | .float x, .float y, _ => decidable_of_iff (x = y) (by simp)
    | .string s, .string t, _ => decidable_of_iff (s = t) (by simp)
    | .list xs, .list ys, _ =>
      haveI := decEqItems xs ys
      decidable_of_iff (xs = ys) (by simp)
    | .map es, .map fs, _ =>
      haveI := decEqEntries es fs
      decidable_of_iff (es = fs) (by simp)
  else isFalse fun heq => h (congrArg kind heq)

/-- Whether two lists have the same items. -/
def decEqItems (xs ys : List Value) : Decidable (xs = ys) :=
  match xs, ys with
  | [], [] => isTrue rfl
  | x :: xs, y :: ys =>
    haveI := decEq x y
    haveI := decEqItems xs ys
    decidable_of_iff (x = y ∧ xs = ys) (by simp)
  | [], _ :: _ | _ :: _, [] => isFalse nofun

/-- Whether two maps have the same entries in the same order. -/
def decEqEntries (es fs : List (String × Value)) : Decidable (es = fs) :=
  match es, fs with
  | [], [] => isTrue rfl
  | (key, x) :: es, (key', y) :: fs =>
    haveI := decEq x y
    haveI := decEqEntries es fs
    decidable_of_iff ((key = key' ∧ x = y) ∧ es = fs) (by simp)
  | [], _ :: _ | _ :: _, [] => isFalse nofun

end

instance : DecidableEq Value := decEq

/-! ## Equality -/

mutual

/-- Equality of values: numbers of different kinds differ, floats compare as numbers, and maps are
equal when they have the same keys with equal contents, in whatever order. -/
def same : Value → Value → Bool
  | .null, .null => true
  | .bool a, .bool b => a == b
  | .int i, .int j => i == j
  | .float x, .float y => x.numericallyEqual y
  | .string s, .string t => s == t
  | .list xs, .list ys => sameItems xs ys
  | .map es, .map fs => es.length == fs.length && sameEntries es fs
  | _, _ => false

/-- Equality of lists, item by item. -/
def sameItems : List Value → List Value → Bool
  | [], [] => true
  | x :: xs, y :: ys => same x y && sameItems xs ys
  | _, _ => false

/-- Whether every entry has an equal content under its key among other entries. -/
def sameEntries : List (String × Value) → List (String × Value) → Bool
  | [], _ => true
  | (key, x) :: rest, fs =>
    (match Entries.get? key fs with
      | some y => same x y
      | none => false) && sameEntries rest fs

end

instance : BEq Value := ⟨same⟩

end Value

end JsonSieve
