/-
Directives as they are given on a command line, told apart by what they start with, and chains: one
record run through directives in order. A filter or transform that does not fit the record drops it,
a directive that fits no record ends the run, and an output form ends the chain.
-/
import JsonSieve.Error
import JsonSieve.Filter.Apply
import JsonSieve.Transform.Apply

namespace JsonSieve

/-! ## Directives -/

/-- The forms of output that replace the printed value. -/
inductive Output where
  /-- A template given by its text. -/
  | template (text : String)
  /-- A template given by the name of its file. -/
  | templateFile (name : String)
  deriving DecidableEq, Repr

/-- A directive. -/
inductive Directive where
  | filter (text : String)
  | transform (text : String)
  | output (form : Output)
  deriving DecidableEq, Repr

namespace Directive

/-- What a filter starts with. -/
def filterMark : Text := "f:".toList

/-- What a transform starts with. -/
def transformMark : Text := "t:".toList

/-- What an output form with the text of a template starts with. -/
def templateMark : Text := "o:template=".toList

/-- What an output form with the file of a template starts with. -/
def templateFileMark : Text := "o:templatefile=".toList

/-- The directive that a text is. What follows the mark is not looked at. -/
def parse (s : Text) : Except Error Directive :=
  match Text.after? filterMark s with
  | some text => .ok (.filter (String.ofList text))
  | none =>
    match Text.after? transformMark s with
    | some text => .ok (.transform (String.ofList text))
    | none =>
      match Text.after? templateFileMark s with
      | some name => .ok (.output (.templateFile (String.ofList name)))
      | none =>
        match Text.after? templateMark s with
        | some text => .ok (.output (.template (String.ofList text)))
        | none => .error (.unrecognized (String.ofList s))

/-- The text of a directive. -/
def text : Directive → Text
  | .filter text => filterMark ++ text.toList
  | .transform text => transformMark ++ text.toList
  | .output (.template text) => templateMark ++ text.toList
  | .output (.templateFile name) => templateFileMark ++ name.toList

end Directive

/-! ## Chains -/

/-- What a chain makes of a record that it does not drop. -/
structure Emit where
  value : Value
  output : Option Output
  deriving DecidableEq

/-- An error of a directive in a chain, with the directive's text. -/
structure DirectiveError where
  directive : String
  cause : Error
  deriving DecidableEq, Repr

/-- The message of an error in a chain. -/
def DirectiveError.message (describe : String → Pattern.Flaw → Text) (e : DirectiveError) : Text :=
  "error with ".toList ++ Text.quoted e.directive.toList ++ ": ".toList ++ e.cause.message describe

section

variable (grants : Reservation)

/-- A directive applied to a value; an output form leaves the value as it is. -/
def Directive.apply (v : Value) : Directive → Run Value
  | .filter text => v.filter text.toList
  | .transform text => (v.transform grants text.toList).result
  | .output _ => return v

/-- What a chain makes of a record: nothing if it is dropped. -/
def Chain.run : List Directive → Value → StateM PatternCache (Except DirectiveError (Option Emit))
  | [], v => return .ok (some ⟨v, none⟩)
  | .output form :: _, v => return .ok (some ⟨v, some form⟩)
  | directive :: rest, v => do
    match ← (directive.apply grants v).run with
    | .ok w => run rest w
    | .error e =>
      if e.isFatal then return .error ⟨String.ofList directive.text, e⟩ else return .ok none

end

end JsonSieve
