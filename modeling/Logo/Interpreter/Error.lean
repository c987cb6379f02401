import Logo.Node.Print
import Logo.Reader.Error

/-!
# Why evaluation fails
-/

namespace Logo

/-- The causes for which evaluation fails. -/
inductive EvalError where
  /-- No procedure has the name. -/
  | unknownProcedure (name : String)
  /-- A node of another type was needed; `source` is its source form. -/
  | typeMismatch (source : String) (found : NodeType) (expected : List NodeType)
  | notEnoughInputs (procedure : String) (expected found : Nat)
  | divisionByZero
  /-- More calls are nested than the limit allows. -/
  | stackExhausted (limit : Nat)
  /-- A text could not be read. -/
  | parse (error : ParseError)
deriving DecidableEq, Repr

namespace EvalError

/-- The error for a node that has none of the types needed. -/
def mismatch (node : Node) (expected : List NodeType) : EvalError :=
  typeMismatch node.toSource node.type expected

/-- The message shown to the user. -/
def message : EvalError → String
  | unknownProcedure name => unknownProcedureMessage name
  | typeMismatch source found expected =>
    "Type mismatch for " ++ source ++ ". Expected one of [" ++
      ", ".intercalate (expected.map NodeType.name) ++ "], found: " ++ found.name ++ "."
  | notEnoughInputs procedure expected found =>
    "Not enough inputs to " ++ procedure ++ ". Expected: " ++ toString expected ++
      ", found: " ++ toString found ++ "."
  | divisionByZero => "Division by zero."
  | stackExhausted limit =>
    "Stack exhausted: more than " ++ toString limit ++ " nested procedure calls."
  | parse error => error.message

end EvalError

end Logo
