import Logo.Library.Console
import Logo.Library.Template

/-!
# The library

What every primitive does, and the procedures under which programs know the primitives.  A primitive
takes its inputs from the front of the list it is given; some take all of them, the others ignore
what is left over.
-/

namespace Logo

namespace Library

/-- What a probe reports. -/
def probe (inputs : List Node) : Probe → Action Node
  | .scope => .view fun s =>
    .list [.quoted s.scopes.top.name, .integer (Int64.ofNat s.callDepth),
      .boolean s.exitRequested]
  | .inputs => pure (.list inputs)
  | .fail => .fail .divisionByZero
  | .exit => do
    .modify (·.requestExit)
    .view fun s => .boolean s.exitRequested

/-- Performs a primitive. -/
def perform (runBlock : Node → Action Node) (primitive : Primitive) (inputs : List Node) :
    Action Node :=
  match primitive, inputs with
  | .addAlias, name :: newName :: _ => addAlias name newName
  | .thing, name :: _ => thing name
  | .make, name :: value :: _ => make name value
  | .declare, name :: _ => declare name
  | .declareMake, name :: value :: _ => declareMake name value
  | .repetition, control :: block :: _ => repetition runBlock control block
  | .run, block :: _ => runBlock block
  | .output, value :: _ => output value
  | .stop, _ => output .nil
  | .when, test :: block :: _ => when runBlock test block
  | .choose, test :: block :: otherwise :: _ => choose runBlock test block otherwise
  | .add, first :: others => .ofExcept (add first others)
  | .sub, a :: b :: _ => .ofExcept (sub a b)
  | .mul, first :: others => .ofExcept (mul first others)
  | .div, a :: b :: _ => .ofExcept (div a b)
  | .mod, a :: b :: _ => .ofExcept (mod a b)
  | .random, limit :: _ => random limit
  | .minus, a :: _ => .ofExcept (minus a)
  | .abs, a :: _ => .ofExcept (abs a)
  | .equal, a :: b :: _ => pure (.boolean (a.alike b))
  | .notEqual, a :: b :: _ => pure (.boolean (!a.alike b))
  | .less, a :: b :: _ => .ofExcept (less a b)
  | .greater, a :: b :: _ => .ofExcept (greater a b)
  | .lessEqual, a :: b :: _ => .ofExcept (lessEqual a b)
  | .greaterEqual, a :: b :: _ => .ofExcept (greaterEqual a b)
  | .and, inputs => .ofExcept (and inputs)
  | .or, inputs => .ofExcept (or inputs)
  | .not, a :: _ => .ofExcept (not a)
  | .list, inputs => pure (.list inputs)
  | .sentence, inputs => pure (sentence inputs)
  | .first, a :: _ => .ofExcept (first a)
  | .last, a :: _ => .ofExcept (last a)
  | .butFirst, a :: _ => .ofExcept (butFirst a)
  | .butLast, a :: _ => .ofExcept (butLast a)
  | .count, a :: _ => .ofExcept (count a)
  | .item, index :: a :: _ => .ofExcept (item index a)
  | .fput, a :: list :: _ => .ofExcept (fput a list)
  | .lput, a :: list :: _ => .ofExcept (lput a list)
  | .word, inputs => .ofExcept (word inputs)
  | .isEmpty, a :: _ => .ofExcept (isEmpty a)
  | .uppercase, a :: _ => .ofExcept (uppercase a)
  | .lowercase, a :: _ => .ofExcept (lowercase a)
  | .map, template :: values :: _ => map runBlock template values
  | .filter, template :: values :: _ => filter runBlock template values
  | .find, template :: values :: _ => find runBlock template values
  | .print, inputs => write (openForm inputs ++ "\n")
  | .display, inputs => write (closedForm inputs ++ "\n")
  | .type, inputs => write (openForm inputs)
  | .readWord, _ => readWord
  | .readList, _ => readList
  | .probe what, inputs => probe inputs what
  | primitive, _ => .interrupt (.missingInput primitive)

/-- A library procedure in a frame of its own. -/
def native (name : String) (params : List String) (primitive : Primitive) : Procedure :=
  .ofHost name params .native ⟨primitive, 0⟩

/-- A library procedure in the frame of its caller. -/
def inline (name : String) (params : List String) (primitive : Primitive) : Procedure :=
  .ofHost name params .inline ⟨primitive, 0⟩

/-- Every procedure but those of the console. -/
def core : List Procedure := [
  native "alias" ["original", "alias"] .addAlias,
  native "thing" ["name"] .thing,
  inline "make" ["name", "value"] .make,
  inline "local" ["name"] .declare,
  inline "localmake" ["name", "value"] .declareMake,
  inline "repeat" ["control", "block"] .repetition,
  inline "run" ["block"] .run,
  native "output" ["value"] .output,
  native "stop" [] .stop,
  inline "if" ["condition", "iftrue"] .when,
  inline "ifelse" ["condition", "iftrue", "iffalse"] .choose,
  native "add" ["a", "b"] .add,
  native "sub" ["a", "b"] .sub,
  native "mul" ["a", "b"] .mul,
  native "div" ["a", "b"] .div,
  native "mod" ["a", "b"] .mod,
  native "random" ["limit"] .random,
  native "minus" ["a"] .minus,
  native "abs" ["a"] .abs,
  native "equal?" ["a", "b"] .equal,
  native "notequal?" ["a", "b"] .notEqual,
  native "less?" ["a", "b"] .less,
  native "greater?" ["a", "b"] .greater,
  native "lessequal?" ["a", "b"] .lessEqual,
  native "greaterequal?" ["a", "b"] .greaterEqual,
  native "and" ["a", "b"] .and,
  native "or" ["a", "b"] .or,
  native "not" ["a"] .not,
  native "list" ["a", "b"] .list,
  native "sentence" ["a", "b"] .sentence,
  native "first" ["thing"] .first,
  native "last" ["thing"] .last,
  native "butfirst" ["thing"] .butFirst,
  native "butlast" ["thing"] .butLast,
  native "count" ["thing"] .count,
  native "item" ["index", "thing"] .item,
  native "fput" ["thing", "list"] .fput,
  native "lput" ["thing", "list"] .lput,
  native "word" ["a", "b"] .word,
  native "empty?" ["thing"] .isEmpty,
  native "uppercase" ["word"] .uppercase,
  native "lowercase" ["word"] .lowercase,
  native "map" ["template", "values"] .map,
  native "filter" ["template", "values"] .filter,
  native "find" ["template", "values"] .find]

/-- The procedures of the console. -/
def console : List Procedure := [
  native "print" ["output"] .print,
  native "show" ["output"] .display,
  native "type" ["output"] .type,
  native "readword" [] .readWord,
  native "readlist" [] .readList]

/-- Every procedure of the library. -/
def standard : List Procedure :=
  core ++ console

end Library

/-- Adds procedures to an interpreter. -/
def Interpreter.load (s : Interpreter) (procedures : List Procedure) : Interpreter :=
  procedures.foldl .define s

end Logo
