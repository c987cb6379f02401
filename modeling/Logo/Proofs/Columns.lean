import Logo.Reader.Program

/-!
# Reading without columns

Once it is decided which minus signs belong to numbers, the columns of the lexemes serve nothing but
messages.  Moving every lexeme to the start of its line commutes with each of the readers: the
result is the same, the lexemes left over and the place in an error are moved, too (`Reader.Blind`).

So a program may be read from its lexemes at the starts of their lines (`program_map`).  Lines do
count: they are kept in the procedures that a program defines.
-/

namespace Logo

/-- The start of the same line. -/
def Position.lineStart (p : Position) : Position := ⟨p.line, 0⟩

/-- The token at the start of its line. -/
def Token.atLineStart (t : Token) : Token := { t with position := t.position.lineStart }

/-- The lexeme at the start of its line. -/
def Lexeme.atLineStart (l : Lexeme) : Lexeme := { l with token := l.token.atLineStart }

/-- The error without its column. -/
def ParseError.atLineStart : ParseError → ParseError
  | unexpectedClass expected found position => unexpectedClass expected found position.lineStart
  | unexpectedToken token => unexpectedToken token.atLineStart
  | unterminatedBody name line => unterminatedBody name line
  | unknownProcedure name => unknownProcedure name

@[simp] theorem Lexeme.kind_atLineStart (l : Lexeme) : l.atLineStart.kind = l.kind := rfl

@[simp] theorem Lexeme.text_atLineStart (l : Lexeme) :
    l.atLineStart.token.text = l.token.text := rfl

@[simp] theorem Lexeme.unmarked_atLineStart (l : Lexeme) :
    l.atLineStart.token.unmarked = l.token.unmarked := rfl

namespace Reader

variable {α β : Type}

/-! ## Readers of lexemes -/

/-- A result at the starts of lines. -/
def columnless (view : α → α) :
    Except ParseError (α × List Lexeme) → Except ParseError (α × List Lexeme)
  | .ok (a, rest) => .ok (view a, rest.map Lexeme.atLineStart)
  | .error e => .error e.atLineStart

/-- The reader does not look at columns; `view` is what becomes of its value. -/
def Blind (view : α → α) (p : Parse α) : Prop :=
  ∀ ls, p (ls.map Lexeme.atLineStart) = columnless view (p ls)

/-- A reader that goes on behind a blind one is blind if it goes on alike. -/
theorem columnless_bind {view : α → α} {view' : β → β} {x : Except ParseError (α × List Lexeme)}
    {k : α × List Lexeme → Except ParseError (β × List Lexeme)}
    (hk : ∀ a rest, k (view a, rest.map Lexeme.atLineStart) = columnless view' (k (a, rest))) :
    (columnless view x >>= k) = columnless view' (x >>= k) := by
  obtain e | ⟨a, rest⟩ := x
  · rfl
  · exact hk a rest

@[simp] theorem ahead_map (ls : List Lexeme) :
    ahead (ls.map Lexeme.atLineStart) = (ahead ls).atLineStart := by
  cases ls <;> rfl

@[simp] theorem kind_atLineStart (t : Token) : t.atLineStart.kind = t.kind := rfl

/-- A reader that expects a class of tokens looks at the class, and reports the place. -/
theorem expect_blind (kind : TokenClass) : Blind Token.atLineStart (expect kind) := by
  intro ls
  simp only [expect, ahead_map, kind_atLineStart]
  split
  · rw [← List.map_tail]
    rfl
  · rfl

theorem times_blind {p : Parse α} (hp : Blind id p) (n : Nat) : Blind id (times p n) := by
  induction n with
  | zero => exact fun ls => rfl
  | succ n ih =>
    intro ls
    simp only [times, hp ls]
    refine columnless_bind fun x rest => ?_
    simp only [id, ih rest]
    exact columnless_bind fun xs rest => rfl

/-- The items of a list are blind to columns, however deep the list is. -/
theorem listItems_blind (outer : List (List Node)) (items : List Node) :
    Blind id (listItems outer items) := by
  intro ls
  induction ls generalizing outer items with
  | nil => rfl
  | cons l ls ih =>
    simp only [List.map_cons, listItems, Lexeme.kind_atLineStart]
    cases l.kind with
    | rightBracket =>
      cases outer with
      | nil => rfl
      | cons around outer => exact ih _ _
    | eof => rfl
    | _ => exact ih _ _

theorem list_blind : Blind id list := by
  intro ls
  simp only [list, expect_blind .leftBracket ls]
  exact columnless_bind fun token rest => listItems_blind [] [] rest

theorem operator?_map (operators : Operators) (ls : List Lexeme) :
    operator? operators (ls.map Lexeme.atLineStart) = operator? operators ls := by
  cases ls <;> rfl

section Levels

variable {operand : Parse Node} (hoperand : Blind id operand)

include hoperand

/-- A chain of operators is blind if its operands are, by induction on the operators that may
follow. -/
theorem chain_blind (operators : Operators) (n : Nat) (left : Node) :
    Blind id (chain operators operand n left) := by
  induction n generalizing left with
  | zero => exact fun ls => rfl
  | succ n ih =>
    intro ls
    simp only [chain, operator?_map]
    cases operator? operators ls with
    | none => rfl
    | some name =>
      simp only [← List.map_tail, hoperand ls.tail]
      exact columnless_bind fun right rest => ih _ rest

theorem binary_blind (n : Nat) (operators : Operators) : Blind id (binary n operators operand) := by
  intro ls
  rw [binary, hoperand]
  exact columnless_bind fun left rest => chain_blind hoperand operators n left rest

end Levels

/-- A number is read from its text; a token that is none is reported with its place. -/
theorem number_atLineStart (token : Token) (text : String) :
    number token.atLineStart text =
      match number token text with
      | .ok value => .ok value
      | .error e => .error e.atLineStart := by
  unfold number
  split
  · rfl
  · cases Decimal.readFloat? text <;> rfl

section Expression

variable {inner : Parse Node} (hinner : Blind id inner)

include hinner

/-- Inputs up to a closing parenthesis are blind if expressions are. -/
theorem inputsToParen_blind (n : Nat) (inputs : List Node) :
    Blind id (inputsToParen inner n inputs) := by
  induction n generalizing inputs with
  | zero => exact fun ls => rfl
  | succ n ih =>
    intro ls
    -- What starts an input is taken as one, whatever its kind.
    have hgoOn :
        (inner (ls.map Lexeme.atLineStart) >>= fun x => inputsToParen inner n (x.1 :: inputs) x.2) =
        columnless id (inner ls >>= fun x => inputsToParen inner n (x.1 :: inputs) x.2) := by
      rw [hinner]
      exact columnless_bind fun input rest => ih _ rest
    simp only [inputsToParen, ahead_map, kind_atLineStart]
    cases (ahead ls).kind with
    | newline =>
      simp only [← List.map_tail]
      exact ih inputs ls.tail
    | rightParen => rfl
    | eof => rfl
    | _ => exact hgoOn

/-- An expression in parentheses, or a call with any number of inputs, is blind. -/
theorem parenthesis_blind (table : ProcedureTable) (bound : Nat) :
    Blind id (parenthesis table bound inner) := by
  intro ls
  have htext : (ahead ls).atLineStart.text = (ahead ls).text := rfl
  simp only [parenthesis, ahead_map, kind_atLineStart, htext]
  cases (if (ahead ls).kind = .symbol then table.arity? (ahead ls).text else none) with
  | some arity =>
    simp only [← List.map_tail, inputsToParen_blind hinner bound [] ls.tail]
    refine columnless_bind fun inputs rest => ?_
    simp only [id, expect_blind .rightParen rest]
    exact columnless_bind fun token rest => rfl
  | none =>
    simp only [hinner ls]
    refine columnless_bind fun node rest => ?_
    simp only [id, expect_blind .rightParen rest]
    exact columnless_bind fun token rest => rfl

/-- An operand is blind, as the readers of what is inside of it are. -/
theorem primary_blind (table : ProcedureTable) (bound : Nat) :
    Blind id (primary table bound inner) := by
  intro ls
  cases ls with
  | nil => rfl
  | cons l ls =>
    rw [List.map_cons, primary, primary, Lexeme.kind_atLineStart, Lexeme.text_atLineStart,
      Lexeme.unmarked_atLineStart]
    cases l.kind with
    | number =>
      have hnumber := number_atLineStart l.token l.token.text
      simp only [Lexeme.atLineStart, hnumber]
      cases number l.token l.token.text <;> rfl
    | minus =>
      simp only [expect_blind .number ls]
      refine columnless_bind fun token rest => ?_
      have hnumber := number_atLineStart token ("-" ++ token.text)
      have htext : token.atLineStart.text = token.text := rfl
      simp only [htext, hnumber]
      cases number token ("-" ++ token.text) <;> rfl
    | symbol =>
      cases table.arity? l.token.text with
      | none => rfl
      | some arity =>
        simp only [times_blind hinner arity ls]
        exact columnless_bind fun inputs rest => rfl
    | leftBracket => exact listItems_blind [] [] ls
    | leftParen => exact parenthesis_blind hinner table bound ls
    | _ => rfl

end Expression

/-- An expression is blind to columns at every depth. -/
theorem expression_blind (table : ProcedureTable) (n : Nat) : Blind id (expression table n) := by
  induction n with
  | zero =>
    intro ls
    simp only [expression, ahead_map]
    rfl
  | succ n ih =>
    have hproduct := binary_blind (primary_blind ih table n) n multiplicative
    exact binary_blind (binary_blind (binary_blind hproduct n additive) n comparison) n equality

/-! ## The passes over headers and aliases -/

/-- A reading with its error moved to the start of the line. -/
def withoutColumns (r : Reading α) : Reading α :=
  (r.1.mapError ParseError.atLineStart, r.2)

theorem withoutColumns_ok (a : α) (table : ProcedureTable) :
    withoutColumns (.ok a, table) = (.ok a, table) := rfl

/-- The header of a definition keeps the line, but no column. -/
theorem header_blind : Blind id header := by
  intro ls
  simp only [header, expect_blind .symbol ls]
  refine columnless_bind fun token rest => ?_
  have hkinds : (fun l : Lexeme => l.kind == .reference) ∘ Lexeme.atLineStart =
      fun l : Lexeme => l.kind == .reference := rfl
  simp only [List.takeWhile_map, List.dropWhile_map, hkinds, List.map_map]
  rfl

/-- The first pass enters the same headers, and stops at the same one. -/
theorem enterHeaders_map (table : ProcedureTable) (ls : List Lexeme) :
    enterHeaders table (ls.map Lexeme.atLineStart) = withoutColumns (enterHeaders table ls) := by
  induction ls generalizing table with
  | nil => rfl
  | cons l ls ih =>
    by_cases hto : l.kind = .toWord
    · have hto' : l.atLineStart.kind = .toWord := hto
      rw [List.map_cons, enterHeaders, enterHeaders, if_pos hto, if_pos hto', header_blind ls]
      cases header ls with
      | error e => rfl
      | ok h => exact ih _
    · have hto' : l.atLineStart.kind ≠ .toWord := hto
      rw [List.map_cons, enterHeaders, enterHeaders, if_neg hto, if_neg hto']
      exact ih _

theorem aliasDirective?_map (ls : List Lexeme) :
    aliasDirective? (ls.map Lexeme.atLineStart) = aliasDirective? ls := by
  match ls with
  | [] | [_] | [_, _] | _ :: _ :: _ :: _ => rfl

/-- The alias pass makes the same aliases, and fails at the same one. -/
theorem enterAliases_map (table : ProcedureTable) (ls : List Lexeme) :
    enterAliases table (ls.map Lexeme.atLineStart) = withoutColumns (enterAliases table ls) := by
  induction ls generalizing table with
  | nil => rfl
  | cons l ls ih =>
    have hdirective := aliasDirective?_map (l :: ls)
    rw [List.map_cons] at hdirective
    simp only [List.map_cons, enterAliases, hdirective]
    cases aliasDirective? (l :: ls) with
    | none => exact ih _
    | some names =>
      obtain ⟨name, newName⟩ := names
      cases hadd : table.addAlias? name newName with
      | none =>
        simp only [hadd]
        rfl
      | some table =>
        simp only [hadd]
        exact ih _

/-! ## Statements -/

/-- The text of a definition has one space between tokens, whatever their columns. -/
theorem definitionText_map (atLineStart : Bool) (ls : List Lexeme) :
    definitionText atLineStart (ls.map Lexeme.atLineStart) = definitionText atLineStart ls := by
  induction ls generalizing atLineStart with
  | nil => rfl
  | cons l ls ih =>
    simp only [List.map_cons, definitionText, Lexeme.kind_atLineStart, Lexeme.text_atLineStart, ih]

theorem headerLine_blind : Blind id headerLine := by
  intro ls
  simp only [headerLine, expect_blind .toWord ls]
  refine columnless_bind fun opening rest => ?_
  simp only [header_blind rest]
  refine columnless_bind fun h rest => ?_
  simp only [ahead_map, kind_atLineStart]
  split
  · rfl
  · simp only [expect_blind .newline rest]
    exact columnless_bind fun token rest => rfl

/-- What reads a statement does not look at columns. -/
def BlindStatement
    (statement : ProcedureTable → List Lexeme → Reading (Statement × List Lexeme)) : Prop :=
  ∀ table ls, statement table (ls.map Lexeme.atLineStart) =
    (columnless id (statement table ls).1, (statement table ls).2)

section Definition

variable {statement : ProcedureTable → List Lexeme → Reading (Statement × List Lexeme)}
  (hstatement : BlindStatement statement)

include hstatement

/-- Reading a body is blind if reading a statement is; the error for a missing end names a line. -/
theorem body_map (name : String) (line n : Nat) (nodes : List Node) (table : ProcedureTable)
    (ls : List Lexeme) :
    body (.unterminatedBody name line) statement n nodes table (ls.map Lexeme.atLineStart) =
      (columnless id (body (.unterminatedBody name line) statement n nodes table ls).1,
        (body (.unterminatedBody name line) statement n nodes table ls).2) := by
  induction n generalizing nodes table ls with
  | zero => rfl
  | succ n ih =>
    simp only [body, ahead_map, kind_atLineStart]
    cases (ahead ls).kind with
    | endWord =>
      simp only [← List.map_tail]
      rfl
    | eof => rfl
    | _ =>
      simp only [hstatement table ls]
      generalize statement table ls = r
      obtain ⟨e | ⟨s, rest⟩, table⟩ := r
      · rfl
      · cases s <;> exact ih _ _ _

/-- A definition is stored the same way, as the line of its header and its text are the same. -/
theorem definition_map (bound : Nat) (table : ProcedureTable) (ls : List Lexeme) :
    definition bound statement table (ls.map Lexeme.atLineStart) =
      (columnless id (definition bound statement table ls).1,
        (definition bound statement table ls).2) := by
  simp only [definition, headerLine_blind ls]
  cases headerLine ls with
  | error e => rfl
  | ok opened =>
    obtain ⟨⟨h, line⟩, rest⟩ := opened
    simp only [columnless, id, body_map hstatement]
    generalize body _ statement bound [] _ rest = r
    obtain ⟨e | ⟨nodes, rest⟩, table⟩ := r
    · rfl
    · simp only [List.length_map, ← List.map_take, definitionText_map]

end Definition

/-- A statement is read the same way at every depth of definitions. -/
theorem statement_blind (n : Nat) : BlindStatement (statement n) := by
  induction n with
  | zero =>
    intro table ls
    simp only [statement, ahead_map]
    rfl
  | succ n ih =>
    intro table ls
    simp only [statement, ahead_map, kind_atLineStart]
    cases (ahead ls).kind with
    | newline =>
      simp only [← List.map_tail]
      rfl
    | toWord => exact definition_map ih n table ls
    | _ =>
      simp only [expression_blind table (n + 1) ls]
      obtain e | ⟨node, rest⟩ := expression table (n + 1) ls <;> rfl

/-- The statements of a program are the same, whether they are kept or not. -/
theorem statements_map (keep : Bool) (n : Nat) (nodes : List Node) (table : ProcedureTable)
    (ls : List Lexeme) :
    statements keep n nodes table (ls.map Lexeme.atLineStart) =
      withoutColumns (statements keep n nodes table ls) := by
  induction n generalizing nodes table ls with
  | zero => rfl
  | succ n ih =>
    simp only [statements, ahead_map, kind_atLineStart]
    split
    · rfl
    · simp only [statement_blind (n + 1) table ls]
      generalize statement (n + 1) table ls = r
      obtain ⟨e | ⟨s, rest⟩, table⟩ := r
      · rfl
      · cases s <;> exact ih _ _ _

/-- Moving the lexemes of a program to the starts of their lines moves its error, and changes
nothing else. -/
theorem program_map (keep : Bool) (table : ProcedureTable) (ls : List Lexeme) :
    program keep table (ls.map Lexeme.atLineStart) = withoutColumns (program keep table ls) := by
  simp only [program, enterHeaders_map]
  generalize enterHeaders table ls = headers
  obtain ⟨e | _, table⟩ := headers
  · rfl
  · simp only [withoutColumns_ok, enterAliases_map]
    generalize enterAliases table ls = aliases
    obtain ⟨e | _, table⟩ := aliases
    · rfl
    · simp only [withoutColumns_ok, List.length_map, statements_map]

end Reader

end Logo
