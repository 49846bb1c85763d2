/-
Text as a list of characters, and the ways the program cuts it: after a leading phrase, at every
separator, between two enclosing marks, and around a phrase that occurs in it.
-/

namespace JsonSieve

/-- Text that is read character by character. -/
abbrev Text := List Char

namespace Text

/-- The remainder of a text after a leading phrase, if the text starts with that phrase. -/
def after? : Text → Text → Option Text
  | [], s => some s
  | _ :: _, [] => none
  | p :: phrase, c :: s => if p = c then after? phrase s else none

/-- Whether a phrase occurs somewhere in a text. -/
def occursIn (phrase : Text) : Text → Bool
  | [] => phrase.isEmpty
  | c :: s => phrase.isPrefixOf (c :: s) || occursIn phrase s

/-- The pieces of a text between the occurrences of a separator; always at least one. -/
def splitOn (sep : Char) : Text → List Text
  | [] => [[]]
  | c :: s =>
    if c = sep then [] :: splitOn sep s
    else
      match splitOn sep s with
      | [] => [[c]]
      | piece :: pieces => (c :: piece) :: pieces

/-- The texts of a list with a separator between each two of them. -/
def joinWith (sep : Text) : List Text → Text
  | [] => []
  | [s] => s
  | s :: t :: rest => s ++ sep ++ joinWith sep (t :: rest)

/-- What stands between a leading and a separate trailing `mark`. -/
def enclosedBy? (mark : Char) : Text → Option Text
  | [] => none
  | c :: s => if c = mark ∧ s.getLast? = some mark then some s.dropLast else none

/-- Splits a text before and after the first occurrence of a phrase. -/
def cutAt? (phrase : Text) : Text → Option (Text × Text)
  | [] => if phrase.isEmpty then some ([], []) else none
  | c :: s =>
    match after? phrase (c :: s) with
    | some rest => some ([], rest)
    | none => (cutAt? phrase s).map fun (before, rest) => (c :: before, rest)

/-- A text without the leading and trailing characters that satisfy a test. -/
def trim (blank : Char → Bool) (s : Text) : Text :=
  ((s.dropWhile blank).reverse.dropWhile blank).reverse

end Text

/-! ## Lengths, for readers that recurse on what is left of a text -/

/-- A text is as long as its leading phrase and the remainder together. -/
theorem Text.length_of_after? {phrase s rest : Text} (h : after? phrase s = some rest) :
    s.length = phrase.length + rest.length := by
  induction phrase generalizing s with
  | nil => cases h; rw [List.length_nil, Nat.zero_add]
  | cons p phrase ih =>
    cases s with
    | nil => cases h
    | cons c s =>
      rw [after?] at h
      split at h
      · rw [List.length_cons, List.length_cons, ih h]; omega
      · cases h

/-- A text is as long as the phrase that cuts it and the two sides of the cut together. -/
theorem Text.length_of_cutAt? {phrase s before rest : Text}
    (h : cutAt? phrase s = some (before, rest)) :
    s.length = before.length + phrase.length + rest.length := by
  induction s generalizing before with
  | nil =>
    rw [cutAt?] at h
    split at h
    · rename_i hp
      cases h
      rw [List.isEmpty_iff.1 hp]; rfl
    · cases h
  | cons c s ih =>
    rw [cutAt?] at h
    split at h
    · rename_i r hr
      cases h
      rw [length_of_after? hr, List.length_nil, Nat.zero_add]
    · obtain ⟨⟨b, r⟩, hs, hb⟩ := Option.map_eq_some_iff.1 h
      cases hb
      rw [List.length_cons, List.length_cons, ih hs]; omega

end JsonSieve
