import Logo.Node.Print

/-!
# The tree print-out

One line for each node of a statement, indented by two spaces for each level.  A call shows its name
and arity above its inputs, a definition stands between its header and a closing line, and every
other node is one line in source form.
-/

namespace Logo.Node

/-- The indentation of a level. -/
def indent (depth : Nat) : String :=
  String.ofList (List.replicate (2 * depth) ' ')

/-- One indented line. -/
def treeLine (depth : Nat) (text : String) : String :=
  indent depth ++ text ++ "\n"

mutual

/-- The tree of a node at a level. -/
def treeAt (depth : Nat) : Node → String
  | call name arity inputs _ =>
    treeLine depth (name ++ "/" ++ toString arity ++ " =>") ++ treeEachAt (depth + 1) inputs
  | procedure ⟨name, params, .user statements, source, line⟩ =>
    treeLine depth (Procedure.header ⟨name, params, .user [], source, line⟩) ++
      treeEachAt (depth + 1) statements ++ treeLine depth "end"
  | procedure ⟨name, params, .host kind function, source, line⟩ =>
    treeLine depth (Procedure.header ⟨name, params, .host kind function, source, line⟩) ++
      treeLine depth "end"
  | other => treeLine depth other.toSource

/-- The trees of a sequence of nodes at a level. -/
def treeEachAt (depth : Nat) : List Node → String
  | [] => ""
  | n :: ns => treeAt depth n ++ treeEachAt depth ns

end

/-- The tree of a statement. -/
def tree (n : Node) : String :=
  treeAt 0 n

end Logo.Node
