/-
The arguments of the command line: directives, and options by a long or a short name. Arguments are
read from left to right; the first one that cannot be used, or that asks for help or the version,
decides.
-/
import JsonSieve.Text.Basic

namespace JsonSieve.CommandLine

/-- What a command line asks for. -/
structure Options where
  directives : List Text := []
  input : Option Text := none
  compact : Bool := false
  logLevel : Option Text := none
  deriving DecidableEq, Repr

/-- Why reading the arguments ends early. -/
inductive Stop where
  | misuse
  | help
  | version
  deriving DecidableEq, Repr

/-- The options that take a value. -/
inductive Valued where
  | input
  | logLevel
  deriving DecidableEq, Repr

/-- What has been read: the options, the one that waits for its value, and whether only directives
can follow. -/
structure Progress where
  options : Options := {}
  awaiting : Option Valued := none
  onlyDirectives : Bool := false
  deriving DecidableEq, Repr

namespace Progress

/-- Adds a directive. -/
def addDirective (p : Progress) (text : Text) : Progress :=
  { p with options.directives := p.options.directives ++ [text] }

/-- Gives an option its value; none takes a second one, and the name of a file is not empty. -/
def assign (p : Progress) (value : Text) : Valued → Except Stop Progress
  | .input =>
    if p.options.input.isSome || value.isEmpty then .error .misuse
    else .ok { p with options.input := some value, awaiting := none }
  | .logLevel =>
    if p.options.logLevel.isSome then .error .misuse
    else .ok { p with options.logLevel := some value, awaiting := none }

/-- Switches to compact output, once. -/
def setCompact (p : Progress) : Except Stop Progress :=
  if p.options.compact then .error .misuse else .ok { p with options.compact := true }

/-- Reads an option by its long name, with the value after an equality sign if there is one. -/
def readLong (p : Progress) (name : Text) (value : Option Text) : Except Stop Progress :=
  let valued (option : Valued) : Except Stop Progress :=
    match value with
    | some value => p.assign value option
    | none => .ok { p with awaiting := some option }
  match String.ofList name, value with
  | "input", _ => valued .input
  | "log-level", _ => valued .logLevel
  | "compact", none => p.setCompact
  | "help", none => .error .help
  | "version", none => .error .version
  | _, _ => .error .misuse

/-- Reads options by their short names; what follows the name of one that takes a value is its
value, an equality sign in front of it left out. -/
def readShort (p : Progress) : Text → Except Stop Progress
  | [] => .ok p
  | 'c' :: rest => do
    let p ← p.setCompact
    readShort p rest
  | 'i' :: [] => .ok { p with awaiting := some .input }
  | 'i' :: '=' :: value => p.assign value .input
  | 'i' :: value => p.assign value .input
  | 'h' :: _ => .error .help
  | 'V' :: _ => .error .version
  | _ => .error .misuse

/-- Reads one argument. -/
def read (p : Progress) (arg : Text) : Except Stop Progress :=
  if p.onlyDirectives then .ok (p.addDirective arg)
  else
    match p.awaiting, arg with
    | some option, ['-'] => p.assign ['-'] option
    | some _, '-' :: _ => .error .misuse
    | some option, value => p.assign value option
    | none, ['-', '-'] => .ok { p with onlyDirectives := true }
    | none, '-' :: '-' :: long =>
      match Text.cutAt? ['='] long with
      | some (name, value) => p.readLong name (some value)
      | none => p.readLong long none
    | none, ['-'] => .ok (p.addDirective ['-'])
    | none, '-' :: short => p.readShort short
    | none, text => .ok (p.addDirective text)

end Progress

/-- The options of a command line. -/
def Options.parse (args : List Text) : Except Stop Options := do
  let p ← args.foldlM Progress.read {}
  if p.awaiting.isSome then .error .misuse else .ok p.options

end JsonSieve.CommandLine
