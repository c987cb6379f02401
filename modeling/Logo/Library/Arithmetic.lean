import Logo.Interpreter.Error
import Logo.Node.Alike

/-!
# Arithmetic

Inputs are numbers or words that write numbers.
-/

namespace Logo.Library

/-- The node of a number. -/
def numberNode : Number → Node
  | .integer value => .integer value
  | .float value => .float value

/-- Reads an input as a number. -/
def toNumber (node : Node) : Except EvalError Number :=
  match node.toNumber? with
  | some number => .ok number
  | none => .error (.mismatch node [.integer, .float])

/-- Combines a first number with all the others, from left to right. -/
def foldNumbers (f : Number → Number → Number) (total : Number) :
    List Node → Except EvalError Number
  | [] => .ok total
  | node :: nodes => do foldNumbers f (f total (← toNumber node)) nodes

/-- The sum of all inputs. -/
def add (first : Node) (others : List Node) : Except EvalError Node := do
  return numberNode (← foldNumbers .add (← toNumber first) others)

/-- The product of all inputs. -/
def mul (first : Node) (others : List Node) : Except EvalError Node := do
  return numberNode (← foldNumbers .mul (← toNumber first) others)

/-- The difference. -/
def sub (a b : Node) : Except EvalError Node := do
  let x ← toNumber a
  let y ← toNumber b
  return numberNode (x.sub y)

/-- A result that needs a divisor other than zero. -/
def divided (f : Number → Number → Option Number) (a b : Node) : Except EvalError Node := do
  let x ← toNumber a
  let y ← toNumber b
  match f x y with
  | some result => return numberNode result
  | none => throw .divisionByZero

/-- The quotient. -/
def div (a b : Node) : Except EvalError Node :=
  divided Number.div? a b

/-- The remainder, with the sign of the dividend. -/
def mod (a b : Node) : Except EvalError Node :=
  divided Number.mod? a b

/-- The number with the other sign. -/
def minus (a : Node) : Except EvalError Node := do
  return numberNode (← toNumber a).neg

/-- The number without its sign. -/
def abs (a : Node) : Except EvalError Node := do
  return numberNode (← toNumber a).abs

/-- The upper limit of a random number: a positive integer. -/
def randomLimit (node : Node) : Except EvalError Nat := do
  match ← toNumber node with
  | .integer limit =>
    if 0 < limit.toInt then return limit.toInt.toNat else throw (.mismatch node [.integer])
  | .float _ => throw (.mismatch node [.integer])

end Logo.Library
