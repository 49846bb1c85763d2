/-
The program: collects its arguments, the files it may read and the standard input, and writes what
the report of the run says.
-/
import JsonSieve.CommandLine.Report

namespace JsonSieve

/-- The characters that bytes encode from a place on, after those before it. The first byte that
starts no character gives the control zero, which stands in no document, and ends the text. -/
def textFrom (bytes : ByteArray) (i : Nat) (before : Array Char) : Text :=
  if _h : i < bytes.size then
    match bytes.utf8DecodeChar? i with
    | some c => textFrom bytes (i + c.utf8Size) (before.push c)
    | none => (before.push '\x00').toList
  else before.toList
termination_by bytes.size - i
decreasing_by
  have := c.utf8Size_pos
  omega

/-- The text of an input. -/
def inputOfBytes (bytes : ByteArray) : Option Text :=
  some (textFrom bytes 0 #[])

/-- The text of a template, if all of it is text. -/
def templateOfBytes (bytes : ByteArray) : Option Text :=
  (String.fromUTF8? bytes).map String.toList

/-- What is found under the name of a file that is read by `read?`. -/
def readEntry (read? : ByteArray → Option Text) (name : Text) : IO CommandLine.Entry := do
  match ← (IO.FS.Handle.mk (String.ofList name) .read).toBaseIO with
  | .error _ => return .absent .missing
  | .ok handle =>
    match ← handle.readBinToEnd.toBaseIO with
    | .error _ => return .absent .unreadable
    | .ok bytes =>
      match read? bytes with
      | some text => return .file text
      | none => return .absent .unreadable

/-- What a run with options finds under the names of files, and its standard input. Templates come
first, since a run opens its input after them. -/
def readWorld (options : CommandLine.Options) : IO (List (Text × CommandLine.Entry) × Text) := do
  let names := options.directives.filterMap (Text.after? Directive.templateFileMark)
  let templates ← names.mapM fun name => return (name, ← readEntry templateOfBytes name)
  match options.input with
  | some name => return (templates ++ [(name, ← readEntry inputOfBytes name)], [])
  | none =>
    let bytes ← (← IO.getStdin).readBinToEnd
    return (templates, textFrom bytes 0 #[])

/-- What is wrong with a pattern, in a word. -/
def describe (_pattern : String) : Pattern.Flaw → Text
  | .malformed => "malformed".toList
  | .tooLarge => "too large".toList

/-- Lists get room up to 32 bits, and numbers are read as the double nearest to them. -/
def host : CommandLine.Host :=
  ⟨.standard, .nearest⟩

end JsonSieve

open JsonSieve CommandLine in
/-- Runs the program and returns its exit code. -/
def main (args : List String) : IO UInt32 := do
  let args := args.map String.toList
  let world ← match Options.parse args with
    | .ok options => readWorld options
    | .error _ => pure ([], [])
  match run host args (fun name => (world.1.lookup name).getD (.absent .missing)) world.2 with
  | .error stop =>
    if stop = .version then IO.print (String.ofList versionText)
    return .ofNat stop.exitCode
  | .ok report =>
    IO.print (String.ofList report.stdout)
    if let some failure := report.failure then
      IO.eprintln ("Error: " ++ String.ofList (failure.message describe))
      if let some e := failure.cause? then
        IO.eprintln ("\nCaused by:\n    " ++ String.ofList (e.message describe))
    return .ofNat report.exitCode
