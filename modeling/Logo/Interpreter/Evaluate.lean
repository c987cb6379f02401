import Logo.Library

/-!
# Evaluation

A call evaluates its inputs in the frame of the caller, one after the other, and assigns each to the
parameter of the procedure before the next one is evaluated.  Applying the procedure then opens its
frame.  A block is run by writing it out and reading the text again.

All the recursion of evaluation goes through one place: `apply`, whose first argument bounds how
deep applications may be nested.  Everything else is said for any way to apply a procedure, so a
property of evaluation follows from what one step (`applyStep`) keeps.
-/

namespace Logo

namespace Evaluate

section Step

variable (apply : String → List Node → Action Node)

/-- Assigns the value of an input to the parameter it belongs to, if there is one. -/
def bindParam (param : Option String) (value : Node) : Action Unit :=
  match param with
  | some name => .modify (·.make name value)
  | none => pure ()

mutual

/-- Evaluates a node.  Words and lists stand for themselves. -/
def node : Node → Action Node
  | .reference name => .view (·.scopes.resolve name)
  | .call name _ inputs _ => do
    let procedure ← .lookup name
    let values ← inputsFor procedure.params inputs
    apply name values
  | .procedure _ => pure .none
  | other => pure other

/-- Evaluates inputs from left to right, assigning them to parameters. -/
def inputsFor (params : List String) : List Node → Action (List Node)
  | [] => pure []
  | input :: inputs => do
    let value ← node input
    bindParam params.head? value
    let values ← inputsFor params.tail inputs
    return value :: values

end

/-- Evaluates statements until one requests an exit.  `result` is the value of the last one. -/
def statements : List Node → Node → Action Node
  | [], result => pure result
  | statement :: rest, _ => do
    let result ← node apply statement
    if ← .view (·.exitRequested) then return result
    statements rest result

/-- Evaluates the statements of a body, which have to be calls.  The body ends behind a call of
`output` or `stop`, or when an exit has been requested. -/
def bodyStatements : List Node → Node → Action Node
  | [], result => pure result
  | .call name arity inputs parenthesized :: rest, _ => do
    let result ← node apply (.call name arity inputs parenthesized)
    if name == "output" || name == "stop" then return result
    if ← .view (·.exitRequested) then return result
    bodyStatements rest result
  | other :: _, _ => .fail (.mismatch other [.call])

/-- Reads the statements of a text.  Definitions are entered in the procedure table. -/
def read (keep : Bool) (text : String) : Action (List Node) := fun s =>
  match Reader.readText keep s.procedures text with
  | (.ok nodes, procedures) => .value nodes { s with procedures }
  | (.error e, procedures) => .failure (.parse e) { s with procedures }

/-- Reads a text and evaluates its statements. -/
def text (source : String) : Action Node := do
  let nodes ← read false source
  statements apply nodes .none

/-- Runs a block. -/
def block : Node → Action Node
  | .list items => text apply (Node.renderBlock items)
  | other => .fail (.mismatch other [.list])

/-- Runs the body of a procedure on its inputs. -/
def dispatch (procedure : Procedure) (inputs : List Node) : Action Node :=
  match procedure.body with
  | .host _ function => do
    .enter procedure.name inputs.length
    Library.perform (block apply) function.primitive inputs
  | .user nodes => .asBody do
    .enter procedure.name inputs.length
    bodyStatements apply nodes .nil

/-- Applies the procedure with a name to evaluated inputs.  Unless it is inline it runs in a new
frame, within the limit on nesting. -/
def applyStep (name : String) (inputs : List Node) : Action Node := do
  let procedure ← .lookup name
  if inputs.length < procedure.arity then
    .fail (.notEnoughInputs procedure.name procedure.arity inputs.length)
  else if procedure.isInline then
    dispatch apply procedure inputs
  else if ← .view fun s => decide (s.limit ≤ s.callDepth) then
    .refuse procedure.name inputs.length
    .fail (.stackExhausted (← .view (·.limit)))
  else
    .inFrame procedure.name (dispatch apply procedure inputs)

end Step

/-- Computes a value on a stack of its own. -/
def onFreshStack {α : Type} (x : Unit → α) : α :=
  (Task.spawn x .dedicated).get

@[simp] theorem onFreshStack_eq {α : Type} (x : Unit → α) : onFreshStack x = x () := rfl

/-- Applies a procedure, with applications nested at most as deep as the bound.  Now and then the
work moves to a fresh stack, so that the interpreter limits nesting and not the machine. -/
def apply : Nat → String → List Node → Action Node
  | 0, _, _ => .interrupt .depthBound
  | n + 1, name, inputs => fun s =>
    if n % 4096 = 0 then onFreshStack fun _ => applyStep (apply n) name inputs s
    else applyStep (apply n) name inputs s

@[simp] theorem apply_zero (name : String) (inputs : List Node) :
    apply 0 name inputs = .interrupt .depthBound := rfl

/-- One more level of nesting is one more step. -/
@[simp] theorem apply_succ (n : Nat) (name : String) (inputs : List Node) :
    apply (n + 1) name inputs = applyStep (apply n) name inputs := by
  funext s
  simp [apply]

end Evaluate

end Logo
