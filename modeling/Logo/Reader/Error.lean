import Logo.Text.Quoted
import Logo.Token

/-!
# Why a text cannot be read
-/

namespace Logo

/-- The causes for which reading a program fails. -/
inductive ParseError where
  /-- A token of one kind had to stand where another one was found. -/
  | unexpectedClass (expected found : TokenClass) (position : Position)
  /-- No expression starts with the token. -/
  | unexpectedToken (token : Token)
  /-- A definition has no end. -/
  | unterminatedBody (name : String) (line : Nat)
  /-- An alias is to be made for a procedure that does not exist. -/
  | unknownProcedure (name : String)
deriving DecidableEq, Repr

/-- The message for an unknown procedure, shared with evaluation. -/
def unknownProcedureMessage (name : String) : String :=
  "I don't know how to " ++ name

namespace ParseError

/-- Where something was found. -/
def place (position : Position) : String :=
  "at line " ++ toString position.line ++ ", column " ++ toString position.column ++ "."

/-- The message shown to the user. -/
def message : ParseError → String
  | unexpectedClass expected found position =>
    "Unexpected token class " ++ place position ++ " Expected: " ++ expected.name ++
      ", found: " ++ found.name ++ "."
  | unexpectedToken token =>
    "Unexpected token " ++ Text.quoted token.text ++ " (" ++ token.kind.name ++ ") " ++
      place token.position
  | unterminatedBody name line =>
    "Procedure " ++ name ++ " defined at line " ++ toString line ++
      " is missing its closing end."
  | unknownProcedure name => unknownProcedureMessage name

end ParseError

end Logo
