import Logo.Reader.Expression

/-!
# Programs

A program is read in three passes.  The first enters the headers of all definitions into the
procedure table, so that calls may stand before the definition of the procedure; the second carries
out the aliases that are written out; the third reads the statements, and enters each definition
once it is complete.  What was entered stays in the table, whether reading succeeds or not.
-/

namespace Logo

/-- A statement as it stands in a program. -/
inductive Statement where
  /-- An empty line. -/
  | blank
  | definition (procedure : Procedure)
  | expression (node : Node)

/-- The first line of a definition. -/
structure Header where
  name : String
  params : List String

/-- A result, and the table that reading has left. -/
abbrev Reading (α : Type) := Except ParseError α × ProcedureTable

namespace Reader

/-! ## The passes over headers and aliases -/

/-- Takes the name and the parameters behind the word that opens a definition. -/
def header : Parse Header := fun ls => do
  let (token, ls) ← expect .symbol ls
  let isParam := fun l : Lexeme => l.kind == .reference
  return (⟨token.text, (ls.takeWhile isParam).map (·.token.unmarked)⟩, ls.dropWhile isParam)

/-- Enters the header of every definition. -/
def enterHeaders (table : ProcedureTable) : List Lexeme → Reading Unit
  | [] => (.ok (), table)
  | l :: ls =>
    if l.kind = .toWord then
      match header ls with
      | .ok (h, _) =>
        enterHeaders (table.define (.ofHeader h.name h.params l.token.position.line)) ls
      | .error e => (.error e, table)
    else
      enterHeaders table ls

/-- The names in an alias directive ahead: a word `alias` before two quoted words. -/
def aliasDirective? : List Lexeme → Option (String × String)
  | directive :: name :: newName :: _ =>
    if directive.kind = .symbol ∧ directive.token.text.toList.map Char.toLower = "alias".toList ∧
        name.kind = .quote ∧ newName.kind = .quote then
      some (name.token.unmarked, newName.token.unmarked)
    else
      none
  | _ => none

/-- Carries out every alias directive. -/
def enterAliases (table : ProcedureTable) : List Lexeme → Reading Unit
  | [] => (.ok (), table)
  | l :: ls =>
    match aliasDirective? (l :: ls) with
    | some (name, newName) =>
      match table.addAlias? name newName with
      | some table => enterAliases table ls
      | none => (.error (.unknownProcedure name), table)
    | none => enterAliases table ls

/-! ## Statements -/

/-- The text of a definition, from its lexemes: one space between tokens, none at the start of a
line. -/
def definitionText (atLineStart : Bool) : List Lexeme → String
  | [] => ""
  | l :: ls =>
    if l.kind = .newline then "\n" ++ definitionText true ls
    else (if atLineStart then "" else " ") ++ l.token.text ++ definitionText false ls

/-- Takes the statements of a body and the word that ends it.  Only expressions count; definitions
inside a body are entered in the table.  `body` are the statements read so far, the last first. -/
def body (unterminated : ParseError)
    (statement : ProcedureTable → List Lexeme → Reading (Statement × List Lexeme)) :
    Nat → List Node → ProcedureTable → List Lexeme → Reading (List Node × List Lexeme)
  | 0, _, table, _ => (.error unterminated, table)
  | n + 1, nodes, table, ls =>
    match (ahead ls).kind with
    | .endWord => (.ok (nodes.reverse, ls.tail), table)
    | .eof => (.error unterminated, table)
    | _ =>
      match statement table ls with
      | (.error e, table) => (.error e, table)
      | (.ok (.expression node, ls), table) =>
        body unterminated statement n (node :: nodes) table ls
      | (.ok (_, ls), table) => body unterminated statement n nodes table ls

/-- Takes the header of a definition, from the opening word to the end of the line. -/
def headerLine : Parse (Header × Nat) := fun ls => do
  let (opening, ls) ← expect .toWord ls
  let line := opening.position.line
  let (h, ls) ← header ls
  if (ahead ls).kind = .eof then
    throw (.unterminatedBody (Text.toLower h.name) line)
  let (_, ls) ← expect .newline ls
  return ((h, line), ls)

/-- Takes a definition.  Its header is entered before its body is read, the complete procedure
after. -/
def definition (bound : Nat)
    (statement : ProcedureTable → List Lexeme → Reading (Statement × List Lexeme))
    (table : ProcedureTable) (ls : List Lexeme) : Reading (Statement × List Lexeme) :=
  match headerLine ls with
  | .error e => (.error e, table)
  | .ok ((h, line), rest) =>
    let opened := Procedure.ofHeader h.name h.params line
    let unterminated := ParseError.unterminatedBody opened.name line
    match body unterminated statement bound [] (table.define opened) rest with
    | (.error e, table) => (.error e, table)
    | (.ok (nodes, rest), table) =>
      let text := definitionText true (ls.take (ls.length - rest.length))
      let closed := { opened with body := .user nodes, source := some text }
      (.ok (.definition closed, rest), table.define closed)

/-- Takes a statement with at most `bound` lexemes ahead. -/
def statement : Nat → ProcedureTable → List Lexeme → Reading (Statement × List Lexeme)
  | 0, table, ls => (.error (.unexpectedToken (ahead ls)), table)
  | n + 1, table, ls =>
    match (ahead ls).kind with
    | .newline => (.ok (.blank, ls.tail), table)
    | .toWord => definition n (statement n) table ls
    | _ =>
      match expression table (n + 1) ls with
      | .ok (node, rest) => (.ok (.expression node, rest), table)
      | .error e => (.error e, table)

/-- Takes all statements, up to the closing token.  `nodes` are those read so far, the last first;
definitions are among them only if they are to be kept. -/
def statements (keep : Bool) :
    Nat → List Node → ProcedureTable → List Lexeme → Reading (List Node)
  | 0, nodes, table, _ => (.ok nodes.reverse, table)
  | n + 1, nodes, table, ls =>
    if (ahead ls).kind = .eof then
      (.ok nodes.reverse, table)
    else
      match statement (n + 1) table ls with
      | (.error e, table) => (.error e, table)
      | (.ok (.blank, ls), table) => statements keep n nodes table ls
      | (.ok (.definition p, ls), table) =>
        statements keep n (if keep then .procedure p :: nodes else nodes) table ls
      | (.ok (.expression node, ls), table) => statements keep n (node :: nodes) table ls

/-- Reads a program from its lexemes. -/
def program (keep : Bool) (table : ProcedureTable) (ls : List Lexeme) : Reading (List Node) :=
  match enterHeaders table ls with
  | (.error e, table) => (.error e, table)
  | (.ok (), table) =>
    match enterAliases table ls with
    | (.error e, table) => (.error e, table)
    | (.ok (), table) => statements keep ls.length [] table ls

/-- Reads the statements of a text; with `keep`, definitions are among them. -/
def readText (keep : Bool) (table : ProcedureTable) (text : String) : Reading (List Node) :=
  program keep table (Lexeme.ofText text)

/-- Reads a line as the inside of a list. -/
def readList (text : String) : Except ParseError Node :=
  (list (Lexeme.ofText ("[" ++ text ++ "]"))).map (·.1)

end Reader

end Logo
