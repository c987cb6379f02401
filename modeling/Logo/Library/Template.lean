import Logo.Library.Control

/-!
# Templates

A template is a block in which a question mark stands for a value.  It is run once for each item of
a list or each character of a quoted word.
-/

namespace Logo.Library

mutual

/-- The template with a value in place of every slot, inside nested lists too. -/
def fill (value : Node) : Node → Node
  | .symbol text => if text == "?" then value else .symbol text
  | .list items => .list (fillEach value items)
  | other => other

/-- The items of a template with their slots filled. -/
def fillEach (value : Node) : List Node → List Node
  | [] => []
  | n :: ns => fill value n :: fillEach value ns

end

/-- Reads the inputs of an iteration: the template, which has to be a list, and the values. -/
def templateInputs (template values : Node) : Except EvalError Sequence := do
  let _ ← toItems template
  match values with
  | .list nodes => return .items nodes
  | .quoted text => return .characters text.toList
  | other => throw (.mismatch other [.list, .quote])

section Blocks

variable (runBlock : Node → Action Node)

/-- Runs a template on a value. -/
def runTemplate (template value : Node) : Action Node :=
  runBlock (fill value template)

/-- Runs a template on a value for a truth value. -/
def holds (template value : Node) : Action Bool := do
  .ofExcept (toBool (← runTemplate runBlock template value))

/-- The print forms of a template's results, one for each value. -/
def resultTexts (template : Node) : List Node → Action (List String)
  | [] => pure []
  | value :: values => do
    let result ← runTemplate runBlock template value
    let texts ← resultTexts template values
    return result.display :: texts

/-- The values for which a template holds. -/
def selected (template : Node) : List Node → Action (List Node)
  | [] => pure []
  | value :: values => do
    let keep ← holds runBlock template value
    let kept ← selected template values
    return if keep then value :: kept else kept

/-- The first value for which a template holds. -/
def firstSelected (template : Node) : List Node → Action (Option Node)
  | [] => pure none
  | value :: values => do
    if ← holds runBlock template value then return some value
    firstSelected template values

/-- The results of a template: a list of words for a list, one word for a word. -/
def map (template values : Node) : Action Node := do
  let sequence ← .ofExcept (templateInputs template values)
  let texts ← resultTexts runBlock template sequence.toList
  match sequence with
  | .items _ => return .list (texts.map .symbol)
  | .characters _ => return .quoted (String.join texts)

/-- The values for which a template holds, in a sequence of the same sort. -/
def filter (template values : Node) : Action Node := do
  let sequence ← .ofExcept (templateInputs template values)
  let kept ← selected runBlock template sequence.toList
  match sequence with
  | .items _ => return .list kept
  | .characters _ => return .quoted (String.join (kept.map Node.display))

/-- The first value for which a template holds, `nil` if there is none. -/
def find (template values : Node) : Action Node := do
  let sequence ← .ofExcept (templateInputs template values)
  return (← firstSelected runBlock template sequence.toList).getD .nil

end Blocks

end Logo.Library
