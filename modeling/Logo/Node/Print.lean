import Logo.Decimal.Print
import Logo.Node

/-!
# The two texts of a node

The print form is what a program shows; the source form is what the reader takes back.  They differ
in the marks of quoted words, which only the source form keeps, also inside lists.
-/

namespace Logo

/-- Texts between single spaces. -/
def spaced (texts : List String) : String :=
  " ".intercalate texts

namespace Node

/-- A call between the parentheses it was written in. -/
def inParens (parenthesized : Bool) (text : String) : String :=
  if parenthesized then "(" ++ text ++ ")" else text

mutual

/-- The print form. -/
def display : Node → String
  | integer value => toString value.toInt
  | float value => Decimal.floatText value
  | boolean value => if value then "true" else "false"
  | nil => "nil"
  | none => "none"
  | quoted text => text
  | symbol text => text
  | reference name => ":" ++ name
  | list items => "[" ++ spaced (displayEach items) ++ "]"
  | call name _ inputs parenthesized =>
    inParens parenthesized (spaced (name :: displayEach inputs))
  | procedure definition => definition.header

/-- The print forms of a sequence of nodes. -/
def displayEach : List Node → List String
  | [] => []
  | n :: ns => n.display :: displayEach ns

end

mutual

/-- The source form. -/
def toSource : Node → String
  | quoted text => "\"" ++ text
  | list items => "[" ++ spaced (sourceEach items) ++ "]"
  | procedure definition => definition.name
  | other => other.display

/-- The source forms of a sequence of nodes. -/
def sourceEach : List Node → List String
  | [] => []
  | n :: ns => n.toSource :: sourceEach ns

end

/-- The text of a block, without its brackets. -/
def renderBlock (items : List Node) : String :=
  spaced (sourceEach items)

theorem displayEach_eq_map (ns : List Node) : displayEach ns = ns.map display := by
  induction ns with
  | nil => rfl
  | cons n ns ih => rw [displayEach, ih, List.map_cons]

theorem sourceEach_eq_map (ns : List Node) : sourceEach ns = ns.map toSource := by
  induction ns with
  | nil => rfl
  | cons n ns ih => rw [sourceEach, ih, List.map_cons]

end Node

end Logo
