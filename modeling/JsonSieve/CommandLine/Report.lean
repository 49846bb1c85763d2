/-
A run of the program as a function of its arguments, its files and its standard input: what it
writes, with which code it exits, and why it fails. Records are run one after the other, and a
failing one leaves the output of those before it. The text of help and what systems say of files
that cannot be read are left out.
-/
import JsonSieve.Chain
import JsonSieve.CommandLine.Options
import JsonSieve.Template
import JsonSieve.Value.Document

namespace JsonSieve.CommandLine

/-- What a run finds around it. -/
structure Host where
  /-- How lists get room. -/
  grants : Reservation
  /-- As which doubles numbers are read. -/
  rounding : Json.Rounding

/-- Why a file has no text. -/
inductive Unread where
  /-- It cannot be opened. -/
  | missing
  /-- It can be opened but not be read, as a folder. -/
  | unreadable
  deriving DecidableEq, Repr

/-- What is found under the name of a file. -/
inductive Entry where
  | absent (cause : Unread)
  | file (text : Text)
  deriving DecidableEq, Repr

/-- What is found under the names of files. -/
abbrev Files := Text → Entry

/-- Why an input gives no further record. -/
inductive InputFlaw where
  /-- It cannot be read. -/
  | unreadable
  /-- It goes on with what is no document. -/
  | malformed
  deriving DecidableEq, Repr

/-- Why a run fails, each time with the cause. -/
inductive Failure where
  /-- A text is no directive. -/
  | badDirective (text : Text) (cause : Error)
  /-- The file of a template cannot be read. -/
  | noTemplate (name : String) (cause : Unread)
  /-- The input file cannot be opened. -/
  | noInput (name : Text)
  /-- The input gives no further record. -/
  | badInput (cause : InputFlaw)
  /-- A directive fits no record. -/
  | directive (e : DirectiveError)
  /-- A template has not been loaded. -/
  | notLoaded (name : String)
  /-- A template cannot be rendered. -/
  | rendering (cause : Error)
  deriving DecidableEq, Repr

namespace Failure

/-- The message of a failure, where `describe` says what is wrong with a pattern. -/
def message (describe : String → Pattern.Flaw → Text) : Failure → Text
  | .badDirective text _ => "error with ".toList ++ Text.quoted text
  | .noTemplate name _ => "cannot read template ".toList ++ name.toList
  | .noInput name => "cannot open ".toList ++ name
  | .badInput _ => "error reading input".toList
  | .directive e => e.message describe
  | .notLoaded name => "template ".toList ++ name.toList ++ " was not loaded".toList
  | .rendering _ => "error rendering template".toList

/-- The error of evaluation that a failure comes from, if it comes from one. -/
def cause? : Failure → Option Error
  | .badDirective _ e | .rendering e => some e
  | .directive e => some e.cause
  | .noTemplate _ _ | .noInput _ | .badInput _ | .notLoaded _ => none

end Failure

/-- What a run of the program shows. -/
structure Report where
  exitCode : Nat
  stdout : Text
  failure : Option Failure
  deriving DecidableEq, Repr

/-! ## Before the first record -/

/-- The directives of texts; the failure names the first that is none. -/
def readDirectives : List Text → Except Failure (List Directive)
  | [] => .ok []
  | text :: texts =>
    match Directive.parse text with
    | .error e => .error (.badDirective text e)
    | .ok directive => (directive :: ·) <$> readDirectives texts

/-- The texts of the template files that directives name; the failure names the first that cannot
be read. -/
def loadTemplates (files : Files) : List Directive → Except Failure (Entries Text)
  | [] => .ok []
  | .output (.templateFile name) :: rest =>
    match files name.toList with
    | .file text => ((name, text) :: ·) <$> loadTemplates files rest
    | .absent cause => .error (.noTemplate name cause)
  | _ :: rest => loadTemplates files rest

/-- The text of the input: of the file that is named, or of the standard input. -/
def openInput (files : Files) (stdin : Text) : Option Text → Except Failure Text
  | none => .ok stdin
  | some name =>
    match files name with
    | .file text => .ok text
    | .absent .missing => .error (.noInput name)
    | .absent .unreadable => .error (.badInput .unreadable)

/-! ## Records -/

/-- What is the same for all records of a run. -/
structure Setup where
  host : Host
  chain : List Directive
  templates : Entries Text
  layout : Layout

/-- What is written for a record that is not dropped: the value on lines of its own, or the text of
a template as it is. -/
def emitText (setup : Setup) (emit : Emit) : Except Failure Text :=
  let rendered (template : Text) : Except Failure Text :=
    (Template.render emit.value template).mapError .rendering
  match emit.output with
  | none => .ok (emit.value.text setup.layout ++ ['\n'])
  | some (.template text) => rendered text.toList
  | some (.templateFile name) =>
    match Entries.get? name setup.templates with
    | some text => rendered text
    | none => .error (.notLoaded name)

/-- What is written for a record, if it is dropped nothing. -/
def recordText (setup : Setup) (v : Value) : StateM PatternCache (Except Failure Text) := do
  match ← Chain.run setup.host.grants setup.chain v with
  | .error e => return .error (.directive e)
  | .ok none => return .ok []
  | .ok (some emit) => return emitText setup emit

/-- What is written for records up to the first that fails, and the failure; `ending` is what comes
after the last record. -/
def recordsText (setup : Setup) (ending : Option Failure) :
    List Value → StateM PatternCache (Text × Option Failure)
  | [] => return ([], ending)
  | v :: vs => do
    match ← recordText setup v with
    | .error failure => return ([], some failure)
    | .ok text =>
      let (texts, failure) ← recordsText setup ending vs
      return (text ++ texts, failure)

/-- What is written for an input, and the failure if there is one. -/
def inputText (setup : Setup) (input : Text) : Text × Option Failure :=
  let (jsons, complete) := Json.readAll setup.host.rounding input
  let ending := if complete then none else some (.badInput .malformed)
  ((recordsText setup ending (jsons.map Value.ofJson)).run .empty).1

/-! ## The whole run -/

/-- The setup of a run and its input. -/
def prepare (host : Host) (options : Options) (files : Files) (stdin : Text) :
    Except Failure (Setup × Text) := do
  let chain ← readDirectives options.directives
  let templates ← loadTemplates files chain
  let input ← openInput files stdin options.input
  .ok (⟨host, chain, templates, if options.compact then .compact else .pretty⟩, input)

/-- The report of a run with options: the exit code is one if it fails. -/
def runOptions (host : Host) (options : Options) (files : Files) (stdin : Text) : Report :=
  let (stdout, failure) := match prepare host options files stdin with
    | .error failure => ([], some failure)
    | .ok (setup, input) => inputText setup input
  match failure with
  | none => ⟨0, stdout, none⟩
  | some failure => ⟨1, stdout, some failure⟩

/-- What a run shows, or why it ends with its arguments. -/
def run (host : Host) (args : List Text) (files : Files) (stdin : Text) : Except Stop Report :=
  match Options.parse args with
  | .ok options => .ok (runOptions host options files stdin)
  | .error stop => .error stop

/-- The exit code of a run that ends with its arguments. -/
def Stop.exitCode : Stop → Nat
  | .misuse => 2
  | .help | .version => 0

/-- The name and the version of the program, on a line. -/
def versionText : Text :=
  "dft 0.1.0\n".toList

end JsonSieve.CommandLine
