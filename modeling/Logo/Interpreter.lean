import Logo.Interpreter.Evaluate
import Logo.Node.Tree

/-!
# Using an interpreter

What a host does with an interpreter, each as an action on its state.
-/

namespace Logo.Interpreter

/-- A bound on nested applications that no run can reach. -/
def depthBound : Nat := 0x1000000000000000

/-- Applies the procedure with a name to values. -/
def apply (name : String) (inputs : List Node) : Action Node :=
  Evaluate.apply depthBound name inputs

/-- Evaluates a node. -/
def evaluate (node : Node) : Action Node :=
  Evaluate.node apply node

/-- Evaluates a program text.  The value is that of its last statement, `none` without one. -/
def eval (text : String) : Action Node :=
  Evaluate.text apply text

/-- Runs a block. -/
def runBlock (block : Node) : Action Node :=
  Evaluate.block apply block

/-- The tree print-out of a program text.  Its definitions are entered, but nothing is evaluated. -/
def pretty (text : String) : Action String := do
  let nodes ← Evaluate.read true text
  return String.join (nodes.map Node.tree)

/-- An interpreter with the whole library and the given lines of input. -/
def standard (input : List String) : Interpreter :=
  { initial.load Library.standard with input }

end Logo.Interpreter
