import Logo.Library.Arithmetic

/-!
# Comparisons and connectives
-/

namespace Logo.Library

/-- Compares two inputs as floating-point numbers. -/
def compare (holds : Float → Float → Bool) (a b : Node) : Except EvalError Node := do
  let x ← toNumber a
  let y ← toNumber b
  return .boolean (holds x.toFloat y.toFloat)

/-- Whether the first number is the smaller one. -/
def less : Node → Node → Except EvalError Node :=
  compare fun x y => x < y

/-- Whether the first number is the greater one. -/
def greater : Node → Node → Except EvalError Node :=
  compare fun x y => y < x

/-- Whether the first number is at most the second. -/
def lessEqual : Node → Node → Except EvalError Node :=
  compare fun x y => x ≤ y

/-- Whether the first number is at least the second. -/
def greaterEqual : Node → Node → Except EvalError Node :=
  compare fun x y => y ≤ x

/-- Reads an input as a truth value. -/
def toBool : Node → Except EvalError Bool
  | .boolean flag => .ok flag
  | other => .error (.mismatch other [.boolean])

/-- Whether all inputs are true. -/
def and (inputs : List Node) : Except EvalError Node := do
  return .boolean ((← inputs.mapM toBool).all id)

/-- Whether some input is true. -/
def or (inputs : List Node) : Except EvalError Node := do
  return .boolean ((← inputs.mapM toBool).any id)

/-- The other truth value. -/
def not (a : Node) : Except EvalError Node := do
  return .boolean (!(← toBool a))

end Logo.Library
