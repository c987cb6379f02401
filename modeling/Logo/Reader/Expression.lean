import Logo.ProcedureTable
import Logo.Number
import Logo.Reader.Lexeme

/-!
# Expressions

Nothing marks where the inputs of a call end: the procedure table says how many there are.  The
grammar is built from small readers, each of which takes lexemes from the front and gives back the
rest; only `expression` is recursive, through the bound on the depth of nesting that it carries.  A
reader that succeeds has taken at least one lexeme, so a bound of as many levels as there are
lexemes is never reached.
-/

namespace Logo

/-- Takes a value from the front of the lexemes. -/
abbrev Parse (α : Type) := List Lexeme → Except ParseError (α × List Lexeme)

namespace Reader

/-- The token ahead; behind the last one it is a closing token. -/
def ahead : List Lexeme → Token
  | [] => Token.closing []
  | l :: _ => l.token

/-- Takes a token of the given kind. -/
def expect (kind : TokenClass) : Parse Token := fun ls =>
  let token := ahead ls
  if token.kind = kind then .ok (token, ls.tail)
  else .error (.unexpectedClass kind token.kind token.position)

/-- Takes as many values as asked for. -/
def times {α : Type} (p : Parse α) : Nat → Parse (List α)
  | 0 => fun ls => .ok ([], ls)
  | n + 1 => fun ls => do
    let (x, ls) ← p ls
    let (xs, ls) ← times p n ls
    return (x :: xs, ls)

/-! ## Lists -/

/-- Takes the rest of a list.  `items` are the items read so far, the last first; `outer` are those
of the lists around it. -/
def listItems (outer : List (List Node)) (items : List Node) : Parse Node
  | [] => .error (.unexpectedClass .rightBracket .eof (ahead []).position)
  | l :: ls =>
    match l.kind with
    | .rightBracket =>
      match outer with
      | [] => .ok (.list items.reverse, ls)
      | around :: outer => listItems outer (.list items.reverse :: around) ls
    | .leftBracket => listItems (items :: outer) [] ls
    | .newline | .blank | .comment => listItems outer items ls
    | .eof => .error (.unexpectedClass .rightBracket .eof l.token.position)
    | _ => listItems outer (.symbol l.token.text :: items) ls

/-- Takes a list.  Its items are raw words and lists. -/
def list : Parse Node := fun ls => do
  let (_, ls) ← expect .leftBracket ls
  listItems [] [] ls

/-! ## Operators -/

/-- The operators of one level of precedence, with the procedures they call. -/
abbrev Operators := TokenClass → Option String

/-- The loosest operators. -/
def equality : Operators
  | .equal | .equalEqual => some "equal?"
  | .bangEqual => some "notequal?"
  | _ => none

/-- The comparisons. -/
def comparison : Operators
  | .less => some "less?"
  | .greater => some "greater?"
  | .lessEqual => some "lessequal?"
  | .greaterEqual => some "greaterequal?"
  | _ => none

/-- Sums and differences. -/
def additive : Operators
  | .plus => some "add"
  | .minus => some "sub"
  | _ => none

/-- The tightest operators. -/
def multiplicative : Operators
  | .star => some "mul"
  | .slash => some "div"
  | _ => none

/-- The operator ahead; the sign of a number is none. -/
def operator? (operators : Operators) : List Lexeme → Option String
  | [] => none
  | l :: _ => if l.isSign then none else operators l.kind

/-- Takes further operands and folds them to the left. -/
def chain (operators : Operators) (operand : Parse Node) : Nat → Node → Parse Node
  | 0, left => fun ls => .ok (left, ls)
  | n + 1, left => fun ls =>
    match operator? operators ls with
    | none => .ok (left, ls)
    | some name => do
      let (right, ls) ← operand ls.tail
      chain operators operand n (.plainCall name 2 [left, right]) ls

/-- Takes operands between operators of one level. -/
def binary (bound : Nat) (operators : Operators) (operand : Parse Node) : Parse Node := fun ls => do
  let (left, ls) ← operand ls
  chain operators operand bound left ls

/-! ## Primary expressions -/

/-- The number that a token writes.  A text with a point is not tried as a whole number. -/
def number (token : Token) (text : String) : Except ParseError Node :=
  match if '.' ∈ text.toList then none else Decimal.readInt64? text with
  | some value => .ok (.integer value)
  | none =>
    match Decimal.readFloat? text with
    | some value => .ok (.float value)
    | none => .error (.unexpectedToken token)

/-- Takes the inputs of a call in parentheses, up to the closing one.  `inputs` are those read so
far, the last first. -/
def inputsToParen (expression : Parse Node) : Nat → List Node → Parse (List Node)
  | 0, inputs => fun ls => .ok (inputs.reverse, ls)
  | n + 1, inputs => fun ls =>
    match (ahead ls).kind with
    | .newline => inputsToParen expression n inputs ls.tail
    | .rightParen | .eof => .ok (inputs.reverse, ls)
    | _ => do
      let (input, ls) ← expression ls
      inputsToParen expression n (input :: inputs) ls

/-- Takes what follows an opening parenthesis: a call with any number of inputs, or a grouped
expression. -/
def parenthesis (table : ProcedureTable) (bound : Nat) (expression : Parse Node) : Parse Node :=
  fun ls =>
    let head := ahead ls
    match if head.kind = .symbol then table.arity? head.text else none with
    | some arity => do
      let (inputs, ls) ← inputsToParen expression bound [] ls.tail
      let (_, ls) ← expect .rightParen ls
      return (.parenCall head.text arity inputs, ls)
    | none => do
      let (inner, ls) ← expression ls
      let (_, ls) ← expect .rightParen ls
      return (inner, ls)

/-- Takes a literal, a signed number, a call, a word, a list or something in parentheses. -/
def primary (table : ProcedureTable) (bound : Nat) (expression : Parse Node) : Parse Node
  | [] => .error (.unexpectedToken (ahead []))
  | l :: ls =>
    match l.kind with
    | .trueWord => .ok (.boolean true, ls)
    | .falseWord => .ok (.boolean false, ls)
    | .nilWord => .ok (.nil, ls)
    | .number => do return (← number l.token l.token.text, ls)
    | .minus => do
      let (token, ls) ← expect .number ls
      return (← number token ("-" ++ token.text), ls)
    | .quote => .ok (.quoted l.token.unmarked, ls)
    | .reference => .ok (.reference l.token.unmarked, ls)
    | .symbol =>
      match table.arity? l.token.text with
      | some arity => do
        let (inputs, ls) ← times expression arity ls
        return (.plainCall l.token.text arity inputs, ls)
      | none => .ok (.symbol l.token.text, ls)
    | .leftBracket => listItems [] [] ls
    | .leftParen => parenthesis table bound expression ls
    | _ => .error (.unexpectedToken l.token)

/-- Takes an expression with at most `bound` lexemes ahead. -/
def expression (table : ProcedureTable) : Nat → Parse Node
  | 0 => fun ls => .error (.unexpectedToken (ahead ls))
  | n + 1 =>
    binary n equality <| binary n comparison <| binary n additive <| binary n multiplicative <|
      primary table n (expression table n)

end Reader

end Logo
