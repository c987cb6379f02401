import Logo.Library.Arithmetic

/-!
# Words and lists

Selectors treat a list as the sequence of its items and a word as the sequence of its characters.
Numbers and truth values count as words.  Beyond the end there is `nil`.
-/

namespace Logo.Library

/-- The text of a word. -/
def wordText : Node → Except EvalError String
  | .quoted text => .ok text
  | .symbol text => .ok text
  | .integer value => .ok (Node.integer value).display
  | .float value => .ok (Node.float value).display
  | .boolean value => .ok (Node.boolean value).display
  | other => .error (.mismatch other [.quote, .symbol])

/-- What selectors work on. -/
inductive Sequence where
  | items (nodes : List Node)
  | characters (chars : List Char)

namespace Sequence

/-- The items of a list or the characters of a word. -/
def ofNode : Node → Except EvalError Sequence
  | .list nodes => .ok (items nodes)
  | other => do return characters (← wordText other).toList

/-- The word of one character. -/
def charNode (c : Char) : Node :=
  .quoted (String.singleton c)

/-- The elements as nodes. -/
def toList : Sequence → List Node
  | items nodes => nodes
  | characters chars => chars.map charNode

/-- The sequence without its first element. -/
def tail : Sequence → Sequence
  | items nodes => items nodes.tail
  | characters chars => characters chars.tail

/-- The sequence without its last element. -/
def dropLast : Sequence → Sequence
  | items nodes => items nodes.dropLast
  | characters chars => characters chars.dropLast

/-- The number of elements. -/
def length : Sequence → Nat
  | items nodes => nodes.length
  | characters chars => chars.length

/-- The list or the quoted word of a sequence. -/
def toNode : Sequence → Node
  | items nodes => .list nodes
  | characters chars => .quoted (String.ofList chars)

end Sequence

/-- Reads an input as a list. -/
def toItems : Node → Except EvalError (List Node)
  | .list nodes => .ok nodes
  | other => .error (.mismatch other [.list])

mutual

/-- The words of a node, whatever lists they lie in. -/
def flatten : Node → List Node
  | .list nodes => flattenEach nodes
  | other => [other]

/-- The words of a sequence of nodes. -/
def flattenEach : List Node → List Node
  | [] => []
  | n :: ns => flatten n ++ flattenEach ns

end

/-- The list of all words of the inputs. -/
def sentence (inputs : List Node) : Node :=
  .list (flattenEach inputs)

/-- The first element. -/
def first (thing : Node) : Except EvalError Node := do
  return (← Sequence.ofNode thing).toList.head?.getD .nil

/-- The last element. -/
def last (thing : Node) : Except EvalError Node := do
  return (← Sequence.ofNode thing).toList.getLast?.getD .nil

/-- All but the first element. -/
def butFirst (thing : Node) : Except EvalError Node := do
  return (← Sequence.ofNode thing).tail.toNode

/-- All but the last element. -/
def butLast (thing : Node) : Except EvalError Node := do
  return (← Sequence.ofNode thing).dropLast.toNode

/-- The number of elements. -/
def count (thing : Node) : Except EvalError Node := do
  return .integer (Int64.ofNat (← Sequence.ofNode thing).length)

/-- The element with a position counted from one.  A position below one is answered before the
sequence is looked at. -/
def item (index thing : Node) : Except EvalError Node := do
  match ← toNumber index with
  | .integer position =>
    if 1 ≤ position.toInt then
      return (← Sequence.ofNode thing).toList[position.toInt.toNat - 1]?.getD .nil
    else
      return .nil
  | .float _ => throw (.mismatch index [.integer])

/-- The list with a node in front. -/
def fput (thing list : Node) : Except EvalError Node := do
  return .list (thing :: (← toItems list))

/-- The list with a node at its end. -/
def lput (thing list : Node) : Except EvalError Node := do
  return .list ((← toItems list) ++ [thing])

/-- The word made of the texts of all inputs. -/
def word (inputs : List Node) : Except EvalError Node := do
  return .quoted (String.join (← inputs.mapM wordText))

/-- Whether there is nothing in an input. -/
def isEmpty : Node → Except EvalError Node
  | .list nodes => .ok (.boolean nodes.isEmpty)
  | .nil => .ok (.boolean true)
  | .none => .ok (.boolean true)
  | other => do return .boolean (← wordText other).isEmpty

/-- The word in upper case. -/
def uppercase (word : Node) : Except EvalError Node := do
  return .quoted (Text.toUpper (← wordText word))

/-- The word in lower case. -/
def lowercase (word : Node) : Except EvalError Node := do
  return .quoted (Text.toLower (← wordText word))

end Logo.Library
