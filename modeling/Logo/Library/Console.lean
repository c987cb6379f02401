import Logo.Interpreter.Action
import Logo.Reader.Program

/-!
# The console
-/

namespace Logo.Library

/-- The texts of a node without the outer brackets of a list. -/
def openTexts : Node → List String
  | .list items => Node.displayEach items
  | other => [other.display]

/-- The inputs between single spaces, lists without their outer brackets. -/
def openForm (inputs : List Node) : String :=
  spaced (inputs.flatMap openTexts)

/-- The print forms of the inputs between single spaces. -/
def closedForm (inputs : List Node) : String :=
  spaced (Node.displayEach inputs)

/-- Writes a text. -/
def write (text : String) : Action Node := do
  .modify (·.write text)
  return .nil

/-- Reads a line as a word. -/
def readWord : Action Node := do
  return .quoted (← .update (·.readLine))

/-- Reads a line as a list. -/
def readList : Action Node := do
  let line ← .update (·.readLine)
  match Reader.readList line with
  | .ok node => return node
  | .error e => .fail (.parse e)

end Logo.Library
