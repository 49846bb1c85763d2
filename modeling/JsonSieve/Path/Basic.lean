/-
Explicit paths: rows of keys and indices that address one place in a value, their text, and how they
are read. An index stands in brackets and a field after a dot; an explicit path is a row of indices
and fields and nothing else.
-/
import JsonSieve.Error
import JsonSieve.Text.Numeral
import JsonSieve.Unicode.Property

namespace JsonSieve

/-- One step of a path. The empty key stands for the map itself. -/
inductive Step where
  | key (name : String)
  | index (i : UInt64)
  deriving DecidableEq, Repr

/-- A path; the empty path addresses the value itself. -/
abbrev Path := List Step

/-- The text of a step: a dot and the key, or the index in brackets. -/
def Step.text : Step → Text
  | .key name => '.' :: name.toList
  | .index i => '[' :: Text.ofNat i.toNat ++ [']']

/-- The text of a path: the texts of its steps in a row. -/
def Path.text (path : Path) : Text :=
  path.flatMap Step.text

/-! ## Indices and fields -/

/-- An index in brackets at the start of a text, and what follows it: one or more decimal digits
that denote a number of 64 bits. -/
def exactIndex? : Text → Option (UInt64 × Text)
  | '[' :: s =>
    let digits := s.takeWhile Char.isDigit
    match s.dropWhile Char.isDigit with
    | ']' :: rest =>
      if digits.isEmpty then none
      else if Text.value digits < UInt64.size then some (.ofNat (Text.value digits), rest)
      else none
    | _ => none
  | _ => none

/-- A field after a dot at the start of a text, and what follows it: as many letters and numbers as
there are, possibly none. -/
def exactField? : Text → Option (Text × Text)
  | '.' :: s => some (s.takeWhile Unicode.isAlphanumeric, s.dropWhile Unicode.isAlphanumeric)
  | _ => none

/-! ## Explicit paths -/

/-- What follows an index is shorter than the text. -/
theorem length_of_exactIndex? {s rest : Text} {i : UInt64} (h : exactIndex? s = some (i, rest)) :
    rest.length < s.length := by
  unfold exactIndex? at h
  split at h
  · rename_i t
    dsimp only at h
    split at h
    · rename_i r hr
      have := (List.dropWhile_sublist Char.isDigit (l := t)).length_le
      rw [hr, List.length_cons] at this
      split at h
      · cases h
      · split at h
        · cases h; rw [List.length_cons]; omega
        · cases h
    · cases h
  · cases h

/-- What follows a field is shorter than the text. -/
theorem length_of_exactField? {s field rest : Text} (h : exactField? s = some (field, rest)) :
    rest.length < s.length := by
  unfold exactField? at h
  split at h
  · rename_i t
    have := (List.dropWhile_sublist Unicode.isAlphanumeric (l := t)).length_le
    cases h; rw [List.length_cons]; omega
  · cases h

namespace Path

/-- The step that starts a text, and what follows it. -/
def step? (s : Text) : Option (Step × Text) :=
  match exactIndex? s with
  | some (i, rest) => some (.index i, rest)
  | none => (exactField? s).map fun (field, rest) => (.key (String.ofList field), rest)

/-- What follows a step is shorter than the text. -/
theorem length_of_step? {s rest : Text} {step : Step} (h : step? s = some (step, rest)) :
    rest.length < s.length := by
  unfold step? at h
  split at h
  · rename_i i r hi
    cases h; exact length_of_exactIndex? hi
  · obtain ⟨⟨field, r⟩, hf, hr⟩ := Option.map_eq_some_iff.1 h
    cases hr; exact length_of_exactField? hf

/-- The longest row of steps that starts a text, and what follows it. -/
def steps (s : Text) : Path × Text :=
  match _h : step? s with
  | none => ([], s)
  | some (step, rest) =>
    let (path, rest) := steps rest
    (step :: path, rest)
termination_by s.length
decreasing_by exact length_of_step? _h

/-- The path that a whole text is; the error names what follows the longest row of steps. -/
def parse (s : Text) : Except Error Path :=
  let (path, rest) := steps s
  if rest.isEmpty then .ok path else .error (.illegal (.notExplicit (String.ofList rest)))

end Path

end JsonSieve
