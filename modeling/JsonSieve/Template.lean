/-
Templates: plain text with placeholders in double braces, each of which is replaced by the text of
the value at its path, and by nothing if there is none. What is inserted is not read again.
-/
import JsonSieve.Path.Access
import JsonSieve.Path.Basic
import JsonSieve.Unicode.Category
import JsonSieve.Value.Printer

namespace JsonSieve.Template

/-- What opens a placeholder. -/
def opening : Text := ['\x7b', '\x7b']

/-- What closes a placeholder. -/
def closing : Text := ['\x7d', '\x7d']

/-- What comes first in the rest of a template. -/
inductive Scan where
  /-- No placeholder. -/
  | plain
  /-- A placeholder that is not closed. -/
  | unclosed
  /-- Plain text, the inside of a placeholder, and the rest after it. -/
  | placeholder (before inside rest : Text)
  deriving DecidableEq, Repr

/-- Finds the first placeholder. -/
def scan (s : Text) : Scan :=
  match Text.cutAt? opening s with
  | none => .plain
  | some (before, s) =>
    match Text.cutAt? closing s with
    | none => .unclosed
    | some (inside, rest) => .placeholder before inside rest

/-- What follows a placeholder is shorter than the text. -/
theorem length_of_scan {s before inside rest : Text}
    (h : scan s = .placeholder before inside rest) : rest.length < s.length := by
  unfold scan at h
  split at h
  · cases h
  · rename_i b t ht
    split at h
    · cases h
    · rename_i i r hr
      cases h
      have h1 := Text.length_of_cutAt? ht
      have h2 := Text.length_of_cutAt? hr
      have : opening.length = 2 := rfl
      omega

/-- The path inside a placeholder, white space around it left out; a point alone stands for the
whole value. -/
def pathOf (inside : Text) : Except Error Path :=
  let inside := Text.trim Unicode.isBlank inside
  if inside = ['.'] then .ok [] else Path.parse inside

/-- The text of the value at a path: a string as it is, anything else as compact text, and nothing
if the path leads nowhere. -/
def insertion (v : Value) (path : Path) : Text :=
  match v.get path with
  | .ok (.string s) => s.toList
  | .ok w => w.compact
  | .error _ => []

/-- The text of the rest `s` of a template. -/
def renderFrom (template : Text) (v : Value) (s : Text) : Except Error Text :=
  match _h : scan s with
  | .plain => .ok s
  | .unclosed => .error (.illegal (.unclosedPlaceholder (String.ofList template)))
  | .placeholder before inside rest => do
    let path ← pathOf inside
    let tail ← renderFrom template v rest
    .ok (before ++ insertion v path ++ tail)
termination_by s.length
decreasing_by exact length_of_scan _h

/-- The text of a template for a value. -/
def render (v : Value) (template : Text) : Except Error Text :=
  renderFrom template v template

end JsonSieve.Template
