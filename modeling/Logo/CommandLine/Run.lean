import Logo.CommandLine.Options
import Logo.Interpreter

/-!
# Running a program from the command line

The program comes from a file or from standard input.  In the first case standard input is left for
the program to read, line by line; in the second there is nothing left to read.
-/

namespace Logo.CommandLine

/-- Why a run gives no result. -/
inductive RunError where
  | fileNotFound
  | fileNotReadable
  /-- The program is not valid text. -/
  | notText
  | eval (error : EvalError)
  | interrupted (cause : Interrupt)
deriving DecidableEq, Repr

/-- The message shown to the user. -/
def RunError.message : RunError → String
  | fileNotFound => "Input file error: No such file or directory (os error 2)"
  | fileNotReadable => "Input file error: the file cannot be read"
  | notText => "Input file error: stream did not contain valid UTF-8"
  | eval error => "Evaluation error: " ++ error.message
  | interrupted _ => "Evaluation error: the evaluation was cut short"

/-- The outcome of a run and what the program has written. -/
structure Report where
  /-- The text to show behind the output of the program, if there is any. -/
  result : Except RunError (Option String)
  output : List String
  /-- What was dispatched, in order, if it was recorded. -/
  journal : List Event

/-- Cuts bytes behind every line feed.  `line` is what has been read of the current line, the last
byte first. -/
def splitLines (line : List UInt8) : List UInt8 → List (List UInt8)
  | [] => if line.isEmpty then [] else [line.reverse]
  | b :: bs =>
    if b == 10 then (b :: line).reverse :: splitLines [] bs else splitLines (b :: line) bs

/-- The text of a line without the characters that end it; a line that is not valid text is
empty. -/
def lineText (line : List UInt8) : String :=
  match String.fromUTF8? ⟨line.toArray⟩ with
  | some text =>
    String.ofList (text.toList.reverse.dropWhile fun c => c == '\r' || c == '\n').reverse
  | none => ""

/-- The lines of standard input. -/
def inputLines (bytes : ByteArray) : List String :=
  (splitLines [] bytes.toList).map lineText

/-- The text that shows a final value; `nil` and `none` show nothing. -/
def resultText : Node → Option String
  | .nil => none
  | .none => none
  | other => some other.display

/-- What the options ask to be done with a program text. -/
def task (options : Options) (program : String) : Action (Option String) :=
  if options.pretty then do return some (← Interpreter.pretty program)
  else do return resultText (← Interpreter.eval program)

/-- Runs a program text on lines of input. -/
def runText (options : Options) (program : String) (input : List String) : Report :=
  let initial := { Interpreter.standard input with
    limit := options.limit
    journal := if options.verbose then some [] else none }
  match task options program initial with
  | .value result s => ⟨.ok result, s.output, (s.journal.getD []).reverse⟩
  | .failure e s => ⟨.error (.eval e), s.output, (s.journal.getD []).reverse⟩
  | .interrupted cause => ⟨.error (.interrupted cause), [], []⟩

/-- Runs what the options ask for.  `file` is what the file that they name holds. -/
def run (options : Options) (file : Except RunError ByteArray) (stdin : ByteArray) : Report :=
  let source := if options.sourcePath.isSome then file else .ok stdin
  let input := if options.sourcePath.isSome then inputLines stdin else []
  match source with
  | .error e => ⟨.error e, [], []⟩
  | .ok bytes =>
    match String.fromUTF8? bytes with
    | some program => runText options program input
    | none => ⟨.error .notText, [], []⟩

end Logo.CommandLine
