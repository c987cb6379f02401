import Logo.Primitive
import Logo.Text.Case

/-!
# Nodes

A node is both a piece of program and a value: evaluating a word or a list gives it back, so a list
serves as data and as a block to be run later.  Procedures are nodes too, because a parsed program
may keep its definitions among its statements.
-/

namespace Logo

mutual

/-- A word, a list, a call or a definition. -/
inductive Node where
  | integer (value : Int64)
  | float (value : Float)
  | boolean (value : Bool)
  | nil
  | none
  /-- A quoted word. -/
  | quoted (text : String)
  /-- A bare word. -/
  | symbol (text : String)
  /-- The value of a variable. -/
  | reference (name : String)
  | list (items : List Node)
  /-- A procedure call: the name in lower case, the number of inputs that the procedure declared
  when the call was read, the inputs, and whether the call was written in parentheses. -/
  | call (name : String) (arity : Nat) (inputs : List Node) (parenthesized : Bool)
  | procedure (definition : Procedure)

/-- An entry of the procedure table. -/
structure Procedure where
  name : String
  params : List String
  body : Body
  /-- The text of the definition, once it is complete. -/
  source : Option String
  /-- The line where the definition starts. -/
  line : Option Nat

/-- What a procedure does. -/
inductive Body where
  | host (kind : HostKind) (function : HostFunction)
  | user (statements : List Node)

end

instance : Inhabited Node := ⟨.nil⟩

/-- The types of nodes, as messages name them. -/
inductive NodeType where
  | integer
  | float
  | boolean
  | nil
  | none
  | quote
  | symbol
  | reference
  | list
  | call
  | procedure
deriving DecidableEq, Repr

/-- The name by which messages call a type of node. -/
def NodeType.name : NodeType → String
  | integer => "Integer"
  | float => "Float"
  | boolean => "Boolean"
  | nil => "Nil"
  | none => "None"
  | quote => "Quote"
  | symbol => "Symbol"
  | reference => "Reference"
  | list => "List"
  | call => "Call"
  | procedure => "Procedure"

namespace Node

/-- The type of a node. -/
def type : Node → NodeType
  | integer _ => .integer
  | float _ => .float
  | boolean _ => .boolean
  | nil => .nil
  | none => .none
  | quoted _ => .quote
  | symbol _ => .symbol
  | reference _ => .reference
  | list _ => .list
  | call .. => .call
  | procedure _ => .procedure

/-- A call written without parentheses; names of calls are in lower case. -/
def plainCall (name : String) (arity : Nat) (inputs : List Node) : Node :=
  call (Text.toLower name) arity inputs false

/-- A call written in parentheses. -/
def parenCall (name : String) (arity : Nat) (inputs : List Node) : Node :=
  call (Text.toLower name) arity inputs true

/-- The text of a word that can name a variable or a procedure. -/
def wordText? : Node → Option String
  | quoted text => some text
  | symbol text => some text
  | _ => Option.none

end Node

namespace Procedure

/-- A procedure of the host. -/
def ofHost (name : String) (params : List String) (kind : HostKind) (function : HostFunction) :
    Procedure where
  name := Text.toLower name
  params := params
  body := .host kind function
  source := none
  line := none

/-- A procedure whose header has been read and whose body has not. -/
def ofHeader (name : String) (params : List String) (line : Nat) : Procedure where
  name := Text.toLower name
  params := params
  body := .user []
  source := none
  line := some line

/-- The number of inputs that the procedure declares. -/
def arity (p : Procedure) : Nat :=
  p.params.length

/-- Whether the procedure runs in the frame of its caller. -/
def isInline (p : Procedure) : Bool :=
  match p.body with
  | .host .inline _ => true
  | _ => false

/-- Whether the host supplies the procedure. -/
def isHost (p : Procedure) : Bool :=
  match p.body with
  | .host .. => true
  | .user _ => false

/-- The line that starts a definition of the procedure. -/
def header (p : Procedure) : String :=
  "to " ++ p.name ++ String.join (p.params.map (" :" ++ ·))

end Procedure

end Logo
