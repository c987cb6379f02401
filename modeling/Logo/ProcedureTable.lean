import Logo.Dict
import Logo.Node

/-!
# The procedure table

Every procedure that an interpreter knows, under its name in lower case.  An alias is a second key
for the same entry, so a procedure's own name may differ from the key it is found under.
-/

namespace Logo

/-- The procedures by key. -/
structure ProcedureTable where
  entries : Dict Procedure

namespace ProcedureTable

/-- The table without procedures. -/
def empty : ProcedureTable := ⟨.empty⟩

instance : Inhabited ProcedureTable := ⟨empty⟩

/-- The procedure with a name, in any mixture of cases. -/
def lookup? (table : ProcedureTable) (name : String) : Option Procedure :=
  table.entries.get? (Text.toLower name)

/-- Whether a name is taken. -/
def defines (table : ProcedureTable) (name : String) : Bool :=
  (table.lookup? name).isSome

/-- The number of inputs of the procedure with a name. -/
def arity? (table : ProcedureTable) (name : String) : Option Nat :=
  (table.lookup? name).map Procedure.arity

/-- Stores a procedure under its own name. -/
def define (table : ProcedureTable) (p : Procedure) : ProcedureTable :=
  ⟨table.entries.insert (Text.toLower p.name) p⟩

/-- Makes `newName` a second key for the procedure `name`, if there is one. -/
def addAlias? (table : ProcedureTable) (name newName : String) : Option ProcedureTable :=
  (table.lookup? name).map fun p => ⟨table.entries.insert (Text.toLower newName) p⟩

/-- The keys in increasing order. -/
def keys (table : ProcedureTable) : List String :=
  table.entries.keys

/-- A stored procedure is found under its own name, and every other one as before. -/
theorem lookup?_define {table : ProcedureTable} {p : Procedure} {name : String} :
    (table.define p).lookup? name =
      if Text.toLower name = Text.toLower p.name then some p else table.lookup? name :=
  Dict.get?_insert

end ProcedureTable

end Logo
