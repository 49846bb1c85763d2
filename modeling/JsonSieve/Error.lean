/-
Errors of evaluation: the causes, the message of each, and the division into errors of the data,
which a different value may avoid, and errors of the directive, which no value avoids. Messages show
texts between double quotes, with the quote and the backslash marked, four controls written by a
letter, and every character without a visible form written by its code point.
-/
import JsonSieve.Text.Basic
import JsonSieve.Unicode.Property
import JsonSieve.Value.Basic

namespace JsonSieve.Text

/-- How one character is written between quotes. -/
def quotedChar (c : Char) : Text :=
  match c with
  | '"' => ['\\', '"']
  | '\\' => ['\\', '\\']
  | '\x00' => ['\\', '0']
  | '\t' => ['\\', 't']
  | '\n' => ['\\', 'n']
  | '\r' => ['\\', 'r']
  | c =>
    if Unicode.isPrintable c then [c]
    else ['\\', 'u', '\x7b'] ++ hex c.toNat ++ ['\x7d']

/-- A text between double quotes. -/
def quoted (s : Text) : Text :=
  '"' :: s.flatMap quotedChar ++ ['"']

end JsonSieve.Text

namespace JsonSieve.Pattern

/-- Why a text is no pattern. -/
inductive Flaw where
  /-- The text breaks the rules of patterns, or its parts are nested too deeply. -/
  | malformed
  /-- The automata that would run the pattern are too large. -/
  | tooLarge
  deriving DecidableEq, Repr

end JsonSieve.Pattern

namespace JsonSieve

/-- What cannot be done with a value or a text although the directive is recognized. -/
inductive Illegal where
  /-- A text used as an explicit path ends in something that is none of its steps. -/
  | notExplicit (rest : String)
  /-- No room can be had for a list up to an index. -/
  | cannotGrow (index : UInt64)
  /-- A list is cut by a token that is no index. -/
  | cannotCutBy (token : String)
  /-- A value that is neither a list nor a map is cut. -/
  | cannotCut (kind : Value.Kind)
  /-- A placeholder of a template is not closed. -/
  | unclosedPlaceholder (template : String)
  deriving DecidableEq, Repr

/-- Why an evaluation failed. -/
inductive Error where
  | notAList
  | notAStructure
  | notFound
  | noMatch
  | illegal (cause : Illegal)
  | unrecognized (directive : String)
  | invalidPattern (pattern : String) (flaw : Pattern.Flaw)
  deriving DecidableEq, Repr

/-- The description of a thing that cannot be done. -/
def Illegal.message : Illegal → Text
  | .notExplicit rest =>
    "cannot use ".toList ++ Text.quoted rest.toList ++ " in an explicit path".toList
  | .cannotGrow index => "cannot grow a list to index ".toList ++ Text.ofNat index.toNat
  | .cannotCutBy token => "cannot cut a list by ".toList ++ Text.quoted token.toList
  | .cannotCut kind => "cannot cut a ".toList ++ kind.name.toList
  | .unclosedPlaceholder template =>
    "unclosed placeholder in ".toList ++ Text.quoted template.toList

namespace Error

/-- The message of an error, where `describe` says what is wrong with a pattern. -/
def message (describe : String → Pattern.Flaw → Text) : Error → Text
  | .notAList => "not a list".toList
  | .notAStructure => "not a structure".toList
  | .notFound => "not found".toList
  | .noMatch => "values do not match".toList
  | .illegal cause => "illegal operation: ".toList ++ cause.message
  | .unrecognized directive =>
    "unrecognized operation: ".toList ++ Text.quoted directive.toList
  | .invalidPattern pattern flaw =>
    "invalid pattern ".toList ++ Text.quoted pattern.toList ++ ": ".toList ++ describe pattern flaw

/-- Whether an error lies in the directive and not in the value. -/
def isFatal : Error → Bool
  | .illegal _ | .unrecognized _ | .invalidPattern _ _ => true
  | .notAList | .notAStructure | .notFound | .noMatch => false

end Error

end JsonSieve
