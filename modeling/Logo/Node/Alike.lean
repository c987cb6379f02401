import Logo.Node.Print
import Logo.Number

/-!
# Equality as programs see it

Lists are alike item by item.  Two other nodes are compared as numbers if both can be read as
numbers, and otherwise by their print forms in lower case.
-/

namespace Logo.Node

/-- The number that a node stands for: a number itself, or a word that writes one. -/
def toNumber? : Node → Option Number
  | integer value => some (.integer value)
  | float value => some (.float value)
  | quoted text => Number.ofText? text
  | symbol text => Number.ofText? text
  | _ => Option.none

/-- Whether two nodes that are not both lists are alike. -/
def alikeWords (a b : Node) : Bool :=
  match a.toNumber?, b.toNumber? with
  | some x, some y => x.toFloat == y.toFloat
  | _, _ => Text.toLower a.display == Text.toLower b.display

mutual

/-- Whether a program takes two nodes for equal. -/
def alike : Node → Node → Bool
  | list as, list bs => alikeEach as bs
  | list _, _ => false
  | _, list _ => false
  | a, b => alikeWords a b

/-- Whether two sequences of nodes are alike item by item. -/
def alikeEach : List Node → List Node → Bool
  | [], [] => true
  | a :: as, b :: bs => a.alike b && alikeEach as bs
  | _, _ => false

end

end Logo.Node
