import Logo.CommandLine.Run

/-!
# The program

Runs the program that the arguments name and shows its output and its value.
-/

namespace Logo.CommandLine

/-- How the program is used. -/
def usage : String :=
  "Usage: logo [OPTIONS]\n\n" ++
  "Options:\n" ++
  "  -s, --src-filepath <PATH>     The program to run; standard input without one\n" ++
  "  -m, --max-call-depth <DEPTH>  Limit on nested procedure calls [default: 10000]\n" ++
  "  -p, --pretty                  Show the parse tree instead of running the program\n" ++
  "  -v, --verbose                 Report every procedure call\n" ++
  "  -h, --help                    Show this help\n" ++
  "  -V, --version                 Show the version\n"

/-- What the user is told about bad arguments. -/
def UsageError.message : UsageError → String
  | unknownArgument => "unexpected argument"
  | missingValue => "an option needs a value"
  | invalidNumber => "the limit is not a number"
  | unneededValue => "a switch takes no value"
  | repeatedOption => "an option is given twice"
  | help => usage
  | version => "logo 0.1.0"

/-- A line of the journal. -/
def eventText : Event → String
  | .entered d =>
    "enter " ++ d.procedure ++ " inputs=" ++ toString d.inputs ++ " depth=" ++ toString d.callDepth
  | .refused d =>
    "refuse " ++ d.procedure ++ " inputs=" ++ toString d.inputs ++ " depth=" ++ toString d.callDepth

/-- The contents of a file. -/
def readFile (path : String) : IO (Except RunError ByteArray) := do
  try
    return .ok (← IO.FS.readBinFile path)
  catch
    | .noFileOrDirectory .. => return .error .fileNotFound
    | _ => return .error .fileNotReadable

/-- Reads a program, runs it and shows what it gives. -/
def perform (options : Options) : IO UInt32 := do
  let file ← match options.sourcePath with
    | some path => readFile path
    | none => pure (.error .fileNotFound)
  let stdin ← (← IO.getStdin).readBinToEnd
  let report := run options file stdin
  for event in report.journal do
    IO.eprintln (eventText event)
  for piece in report.output do
    IO.print piece
  match report.result with
  | .ok (some text) => IO.println text; return 0
  | .ok none => return 0
  | .error e => IO.eprintln e.message; return 1

end Logo.CommandLine

/-- The entry point. -/
def main (arguments : List String) : IO UInt32 := do
  match Logo.CommandLine.Options.ofArguments arguments with
  | .ok options => Logo.CommandLine.perform options
  | .error .help => IO.print Logo.CommandLine.UsageError.help.message; return 0
  | .error .version => IO.println Logo.CommandLine.UsageError.version.message; return 0
  | .error e =>
    IO.eprintln ("error: " ++ e.message)
    return 2
