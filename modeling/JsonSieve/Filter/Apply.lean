/-
Applying filters: a value passes, possibly pruned, or is rejected. A rejection by an error of the
data decides about one item or entry where a filter looks at several; an error of the directive
always ends the whole evaluation.
-/
import JsonSieve.Double.Notation
import JsonSieve.Filter.Basic
import JsonSieve.Path.Access
import JsonSieve.Pattern.Cache

namespace JsonSieve

namespace Literal

/-! ## Literals -/

/-- How a literal is compared with strings. -/
inductive StringTest where
  /-- The string is the text itself. -/
  | exactly (s : Text)
  /-- The pattern matches somewhere in the string. -/
  | pattern (p : Text)
  deriving DecidableEq, Repr

/-- A literal in double quotes stands for what is between them, one between slashes for a pattern,
and any other for itself. -/
def stringTest (literal : Text) : StringTest :=
  match Text.enclosedBy? '"' literal with
  | some s => .exactly s
  | none =>
    match Text.enclosedBy? '/' literal with
    | some p => .pattern p
    | none => .exactly literal

/-- Whether a literal stands for a value. Numbers are compared as numbers of the value's kind; no
literal stands for null, a truth value, a list or a map. -/
def accepts (literal : Text) : Value → Run Bool
  | .int i => return Text.signed? literal == some i
  | .float x => return (Double.ofText? literal).any (·.numericallyEqual x)
  | .string s =>
    match stringTest literal with
    | .exactly t => return s.toList == t
    | .pattern p => Pattern.isMatch (String.ofList p) s.toList
  | .null | .bool _ | .list _ | .map _ => return false

end Literal

/-! ## Cutting -/

/-- The indices that the tokens of a cut spell; the error names the first token that spells none. -/
def cutIndices : List Text → Except Error (List UInt64)
  | [] => .ok []
  | token :: tokens => do
    match Text.unsigned? token with
    | none => .error (.illegal (.cannotCutBy (String.ofList token)))
    | some i =>
      let indices ← cutIndices tokens
      .ok (i :: indices)

/-- What is left of a value: of a list the items at the named indices that exist, in the order of
the tokens, and of a map the entries under the named keys. -/
def Value.cut (tokens : List Text) : Value → Except Error Value
  | .list items => do
    let indices ← cutIndices tokens
    .ok (.list (indices.filterMap fun i => items[i.toNat]?))
  | .map entries => .ok (.map (entries.filter fun entry => tokens.contains entry.1.toList))
  | v => .error (.illegal (.cannotCut v.kind))

/-! ## Tests on several items -/

namespace Run

/-- The result of a computation, or nothing if it fails by an error of the data. -/
def absorb {α : Type} (x : Run α) : Run (Option α) :=
  tryCatch (some <$> x) fun e => if e.isFatal then throw e else return none

/-- The results of a test on the items that pass it, in order. -/
def keepPassing {α β : Type} (test : α → Run β) : List α → Run (List β)
  | [] => return []
  | x :: xs => do
    match ← absorb (test x) with
    | some y =>
      let ys ← keepPassing test xs
      return y :: ys
    | none => keepPassing test xs

/-- Whether an item passes a test; the items after the first such item are not looked at. -/
def anyPasses {α β : Type} (test : α → Run β) : List α → Run Bool
  | [] => return false
  | x :: xs => do
    match ← absorb (test x) with
    | some _ => return true
    | none => anyPasses test xs

end Run

/-! ## Filters -/

namespace Filter

/-- What stands for the root while a directive is applied to a value, given the directive's text. -/
abbrev RootChoice := Text → Value → Value

/-- The value itself, if the directive may look up a path in its root, and null otherwise. -/
def rootIfNeeded : RootChoice :=
  fun directive v =>
    if Text.occursIn ['=', '.'] directive || Text.occursIn ['=', '['] directive then v else .null

/-- The value itself, whatever the directive is. -/
def rootAlways : RootChoice :=
  fun _ v => v

/-- Applies a filter to a value. Paths after an equality sign are looked up in `root`, and in a
group in what `choose` gives for the member and the value that it is applied to. -/
def apply (choose : RootChoice) : Filter → (root : Value) → Value → Run Value
  | .pass, _, v => return v
  | .equals literal, _, v => do
    if ← Literal.accepts literal v then return v else throw .noMatch
  | .equalsAt path, root, v => do
    let other ← (root.get path : Except Error Value)
    if other == v then return v else throw .noMatch
  | .everyItem rest, root, v =>
    match v with
    | .list items => Value.list <$> Run.keepPassing (apply choose rest root) items
    | _ => throw .notAList
  | .someItem rest, root, v =>
    match v with
    | .list items => do
      if ← Run.anyPasses (apply choose rest root) items then return v else throw .noMatch
    | _ => throw .notAList
  | .everyField rest, root, v =>
    match v with
    | .map entries =>
      Value.map <$> Run.keepPassing (fun (key, x) => (key, ·) <$> apply choose rest root x) entries
    | _ => throw .notAStructure
  | .someField rest, root, v =>
    match v with
    | .map entries => do
      if ← Run.anyPasses (fun (_, x) => apply choose rest root x) entries then return v
      else throw .noMatch
    | _ => throw .notAStructure
  | .item i rest, root, v =>
    match v with
    | .list items =>
      match items[i.toNat]? with
      | some x => (fun x => .list (items.set i.toNat x)) <$> apply choose rest root x
      | none => throw .notFound
    | _ => throw .notAList
  | .field name rest, root, v =>
    match v with
    | .map entries =>
      if name = "" then apply choose rest root v
      else
        match Entries.get? name entries with
        | some x => (fun x => .map (Entries.put name x entries)) <$> apply choose rest root x
        | none => throw .notFound
    | _ => return v
  | .member text first others, root, v => do
    let v ← apply choose first (choose text v) v
    apply choose others root v
  | .cut tokens, _, v => (v.cut tokens : Except Error Value)
  | .refuse e, _, _ => throw e

end Filter

/-- Filters a value by a directive, paths being looked up in `root`. -/
def Value.filterWithRoot (v root : Value) (directive : Text) : Run Value :=
  (Filter.parse directive).apply Filter.rootIfNeeded root v

/-- Filters a value by a directive, paths being looked up in the value itself. -/
def Value.filter (v : Value) (directive : Text) : Run Value :=
  v.filterWithRoot (Filter.rootIfNeeded directive v) directive

end JsonSieve
