import Logo.Interpreter.State

/-!
# Command line options

Options have a long and a short form; short ones can be written together, and a value follows its
option after an equals sign, in the same argument or in the next one.  A value in the next argument
is looked at only when another option follows or the arguments end, so an argument that no option
explains is reported before a bad value in front of it.
-/

namespace Logo.CommandLine

/-- What the user asks for. -/
structure Options where
  /-- The file with the program; standard input without one. -/
  sourcePath : Option String := none
  /-- The limit on nested calls. -/
  limit : Nat := Interpreter.defaultLimit
  /-- Whether the program is shown as a tree instead of being run. -/
  pretty : Bool := false
  /-- Whether a journal is shown. -/
  verbose : Bool := false
deriving DecidableEq, Repr

/-- Why the arguments give no options. -/
inductive UsageError where
  | unknownArgument
  | missingValue
  | invalidNumber
  /-- A switch was given a value. -/
  | unneededValue
  | repeatedOption
  /-- The user asks for help. -/
  | help
  /-- The user asks for the version. -/
  | version
deriving DecidableEq, Repr

/-- An option without a value. -/
inductive Switch where
  | pretty
  | verbose
  | help
  | version
deriving DecidableEq, Repr

/-- An option with a value. -/
inductive Setting where
  | source
  | limit
deriving DecidableEq, Repr

/-- An option by name. -/
inductive OptionName where
  | switch (switch : Switch)
  | setting (setting : Setting)
deriving DecidableEq, Repr

/-- The option with a long name. -/
def OptionName.ofLong? : String → Option OptionName
  | "src-filepath" => some (.setting .source)
  | "max-call-depth" => some (.setting .limit)
  | "pretty" => some (.switch .pretty)
  | "verbose" => some (.switch .verbose)
  | "help" => some (.switch .help)
  | "version" => some (.switch .version)
  | _ => none

/-- The option with a short name. -/
def OptionName.ofShort? : Char → Option OptionName
  | 's' => some (.setting .source)
  | 'm' => some (.setting .limit)
  | 'p' => some (.switch .pretty)
  | 'v' => some (.switch .verbose)
  | 'h' => some (.switch .help)
  | 'V' => some (.switch .version)
  | _ => none

/-- What has been read of the arguments. -/
structure Progress where
  source : Option String := none
  limit : Option Nat := none
  pretty : Bool := false
  verbose : Bool := false
  /-- The last setting that was given without a value, and its value once it has been seen. -/
  pending : Option (Setting × Option String) := none

/-- Reads a limit: digits, perhaps after a plus sign, within 64 bits. -/
def readLimit? (value : String) : Option Nat :=
  let digits := match value.toList with
    | '+' :: cs => cs
    | cs => cs
  if !digits.isEmpty && digits.all Char.isDigit then
    let n := digits.foldl (fun n c => 10 * n + (c.toNat - '0'.toNat)) 0
    if n < UInt64.size then some n else none
  else
    none

namespace Progress

/-- Accepts the value of a setting. -/
def accept (p : Progress) (setting : Setting) (value : String) : Except UsageError Progress :=
  match setting with
  | .source => if p.source.isSome then throw .repeatedOption else return { p with source := value }
  | .limit =>
    if p.limit.isSome then throw .repeatedOption
    else
      match readLimit? value with
      | some n => return { p with limit := n }
      | none => throw .invalidNumber

/-- Deals with a pending setting. -/
def settle (p : Progress) : Except UsageError Progress :=
  match p.pending with
  | none => return p
  | some (_, none) => throw .missingValue
  | some (setting, some value) => { p with pending := none }.accept setting value

/-- Turns a switch on. -/
def turnOn (p : Progress) (switch : Switch) : Except UsageError Progress := do
  let p ← p.settle
  match switch with
  | .pretty => if p.pretty then throw .repeatedOption else return { p with pretty := true }
  | .verbose => if p.verbose then throw .repeatedOption else return { p with verbose := true }
  | .help => throw .help
  | .version => throw .version

/-- Meets a setting, with the value that stands in the same argument, if there is one. -/
def meet (p : Progress) (setting : Setting) (value : Option String) :
    Except UsageError Progress := do
  let p ← p.settle
  match value with
  | some value => p.accept setting value
  | none => return { p with pending := some (setting, none) }

/-- Reads the text behind two hyphens. -/
def long (p : Progress) (text : List Char) : Except UsageError Progress :=
  let name := String.ofList (text.takeWhile (· != '='))
  let value := match text.dropWhile (· != '=') with
    | _ :: cs => some (String.ofList cs)
    | [] => none
  match OptionName.ofLong? name, value with
  | some (.setting setting), value => p.meet setting value
  | some (.switch switch), none => p.turnOn switch
  | some (.switch _), some _ => throw .unneededValue
  | none, _ => throw .unknownArgument

/-- Reads the letters behind one hyphen. -/
def short (p : Progress) : List Char → Except UsageError Progress
  | [] => return p
  | c :: cs =>
    match OptionName.ofShort? c with
    | some (.switch switch) => do (← p.turnOn switch).short cs
    | some (.setting setting) =>
      match cs with
      | [] => p.meet setting none
      | '=' :: value => p.meet setting (some (String.ofList value))
      | value => p.meet setting (some (String.ofList value))
    | none => throw .unknownArgument

/-- Reads an argument that is no option: it can only be the value of a setting before it. -/
def plain (p : Progress) (text : String) : Except UsageError Progress :=
  match p.pending with
  | some (setting, none) => return { p with pending := some (setting, some text) }
  | _ => throw .unknownArgument

/-- Reads the arguments from left to right.  Behind two hyphens alone there are no options. -/
def arguments (p : Progress) : List String → Except UsageError Progress
  | [] => p.settle
  | text :: rest =>
    match text.toList with
    | ['-', '-'] => if rest.isEmpty then p.settle else throw .unknownArgument
    | '-' :: '-' :: cs => do (← p.long cs).arguments rest
    | '-' :: c :: cs => do (← p.short (c :: cs)).arguments rest
    | _ => do (← p.plain text).arguments rest

end Progress

/-- The options that the arguments give. -/
def Options.ofArguments (arguments : List String) : Except UsageError Options := do
  let p ← ({} : Progress).arguments arguments
  return {
    sourcePath := p.source
    limit := p.limit.getD Interpreter.defaultLimit
    pretty := p.pretty
    verbose := p.verbose }

end Logo.CommandLine
