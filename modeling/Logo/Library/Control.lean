import Logo.Interpreter.Action
import Logo.Library.Data
import Logo.Library.Logic

/-!
# Variables and control

The operations that read or change the interpreter, and those that run blocks.  How a block is run
is a parameter, because it is the evaluator that runs it.
-/

namespace Logo.Library

/-- The name that a word gives. -/
def toName (node : Node) : Except EvalError String :=
  match node.wordText? with
  | some name => .ok name
  | none => .error (.mismatch node [.symbol, .quote])

/-- Gives a procedure a second name. -/
def addAlias (name newName : Node) : Action Node := do
  let name ← .ofExcept (toName name)
  let newName ← .ofExcept (toName newName)
  .addAlias name newName
  return .nil

/-- The value of the variable that a word names. -/
def thing (name : Node) : Action Node := do
  let name ← .ofExcept (toName name)
  .view (·.scopes.resolve name)

/-- Assigns a variable and gives its value. -/
def make (name value : Node) : Action Node := do
  let name ← .ofExcept (toName name)
  .modify (·.make name value)
  return value

/-- Shadows a variable. -/
def declare (name : Node) : Action Node := do
  let name ← .ofExcept (toName name)
  .modify (·.declare name)
  return .nil

/-- Shadows a variable, assigns it and gives its value. -/
def declareMake (name value : Node) : Action Node := do
  let name ← .ofExcept (toName name)
  .modify fun s => (s.declare name).make name value
  return value

/-- Asks the running body to exit with a value. -/
def output (value : Node) : Action Node := do
  .modify (·.requestExit)
  return value

/-- A random number below a limit. -/
def random (limit : Node) : Action Node := do
  let limit ← .ofExcept (randomLimit limit)
  let value ← .update (·.randomBelow limit)
  return .integer (Int64.ofNat value)

section Blocks

variable (runBlock : Node → Action Node)

/-- The value of a condition or a count: a list is run, any other node stands for itself. -/
def valueOf : Node → Action Node
  | .list items => runBlock (.list items)
  | other => pure other

/-- The integer that controls a repetition.  A word may write it. -/
def controlInteger (control : Node) : Action Int64 := do
  let value ← valueOf runBlock <|
    match control.wordText?.bind Decimal.readInt64? with
    | some count => .integer count
    | none => control
  match value with
  | .integer count => return count
  | other => .fail (.mismatch other [.integer])

/-- How often a repetition is to run, which is not at all for a negative integer. -/
def repetitionCount (control : Node) : Action Nat := do
  return (← controlInteger runBlock control).toInt.toNat

/-- Runs a block a number of times, until an exit is requested.  `result` is the value of the last
run. -/
def repeatBlock (block : Node) : Nat → Node → Action Node
  | 0, result => pure result
  | n + 1, _ => do
    let result ← runBlock block
    if ← .view (·.exitRequested) then return result
    repeatBlock block n result

/-- Runs a block as often as a control says. -/
def repetition (control block : Node) : Action Node := do
  let count ← repetitionCount runBlock control
  let _ ← .ofExcept (toItems block)
  repeatBlock runBlock block count .nil

/-- The truth value of a condition. -/
def condition (node : Node) : Action Bool := do
  .ofExcept (toBool (← valueOf runBlock node))

/-- Runs a block if a condition holds. -/
def when (test block : Node) : Action Node := do
  if ← condition runBlock test then runBlock block else return .nil

/-- Runs one of two blocks. -/
def choose (test block otherwise : Node) : Action Node := do
  if ← condition runBlock test then runBlock block else runBlock otherwise

end Blocks

end Logo.Library
