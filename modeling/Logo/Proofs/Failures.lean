import Logo.Proofs.Boundaries

/-!
# Where reading fails

The grammar says what is read; this is its other half.  `Fails table phrase ls error` says that no
phrase can be taken from the front of the lexemes and where the reader gives up, and `Stops` says
the same of statements.  Like `Reads` and `Run` they have no bound on the depth of nesting: a
derivation is the finite course of the readers.

With any bound that the lexemes ahead do not exceed, the readers end with the error (`Fails.found`,
`Stops.found`).
-/

namespace Logo.Reader

/-- The error for a token of another kind than the one that had to stand there. -/
def misplaced (kind : TokenClass) (token : Token) : ParseError :=
  .unexpectedClass kind token.kind token.position

/-- Reading the phrase from the front of the lexemes ends with the error. -/
inductive Fails (table : ProcedureTable) : Phrase → List Lexeme → ParseError → Prop
  | unopened {l : Lexeme} {ls : List Lexeme} (no_operand : opensOperand l.kind = false) :
      Fails table (.operand []) (l :: ls) (.unexpectedToken l.token)
  | number {l : Lexeme} {ls : List Lexeme} {e : ParseError} (digits : l.kind = .number)
      (value : Reader.number l.token l.token.text = .error e) :
      Fails table (.operand []) (l :: ls) e
  | unsigned {l m : Lexeme} {ls : List Lexeme} (minus : l.kind = .minus)
      (no_digits : m.kind ≠ .number) :
      Fails table (.operand []) (l :: m :: ls) (misplaced .number m.token)
  | signed {l m : Lexeme} {ls : List Lexeme} {e : ParseError} (minus : l.kind = .minus)
      (digits : m.kind = .number) (value : Reader.number m.token ("-" ++ m.token.text) = .error e) :
      Fails table (.operand []) (l :: m :: ls) e
  | list {l : Lexeme} {ls : List Lexeme} {e : ParseError} (bracket : l.kind = .leftBracket)
      (items : listItems [] [] ls = .error e) : Fails table (.operand []) (l :: ls) e
  | call {l : Lexeme} {ls : List Lexeme} {arity : Nat} {e : ParseError} (name : l.kind = .symbol)
      (defined : table.arity? l.token.text = some arity)
      (inputs : Fails table (.inputs arity) ls e) : Fails table (.operand []) (l :: ls) e
  | parenCall {l m : Lexeme} {ls : List Lexeme} {arity : Nat} {e : ParseError}
      (left : l.kind = .leftParen) (name : m.kind = .symbol)
      (defined : table.arity? m.token.text = some arity)
      (inputs : Fails table .inputsToParen ls e) : Fails table (.operand []) (l :: m :: ls) e
  | group {l : Lexeme} {ls : List Lexeme} {e : ParseError} (left : l.kind = .leftParen)
      (no_callee : callee? table ls = none) (inner : Fails table (.operand precedence) ls e) :
      Fails table (.operand []) (l :: ls) e
  | unclosed {l r : Lexeme} {ls rest : List Lexeme} {node : Node} (left : l.kind = .leftParen)
      (no_callee : callee? table ls = none)
      (inner : Reads table (.operand precedence) ls [node] (r :: rest))
      (no_right : r.kind ≠ .rightParen) :
      Fails table (.operand []) (l :: ls) (misplaced .rightParen r.token)
  | first {operators : Operators} {levels : List Operators} {ls : List Lexeme} {e : ParseError}
      (first : Fails table (.operand levels) ls e) :
      Fails table (.operand (operators :: levels)) ls e
  | others {operators : Operators} {levels : List Operators} {ls mid : List Lexeme} {left : Node}
      {e : ParseError} (first : Reads table (.operand levels) ls [left] mid)
      (others : Fails table (.chain operators levels left) mid e) :
      Fails table (.operand (operators :: levels)) ls e
  | chainNext {operators : Operators} {levels : List Operators} {l : Lexeme} {ls : List Lexeme}
      {left : Node} {name : String} {e : ParseError}
      (operator : operator? operators (l :: ls) = some name)
      (next : Fails table (.operand levels) ls e) :
      Fails table (.chain operators levels left) (l :: ls) e
  | chainOthers {operators : Operators} {levels : List Operators} {l : Lexeme}
      {ls mid : List Lexeme} {left right : Node} {name : String} {e : ParseError}
      (operator : operator? operators (l :: ls) = some name)
      (next : Reads table (.operand levels) ls [right] mid)
      (others : Fails table (.chain operators levels (.plainCall name 2 [left, right])) mid e) :
      Fails table (.chain operators levels left) (l :: ls) e
  | input {count : Nat} {ls : List Lexeme} {e : ParseError}
      (first : Fails table (.operand precedence) ls e) : Fails table (.inputs (count + 1)) ls e
  | inputs {count : Nat} {ls mid : List Lexeme} {node : Node} {e : ParseError}
      (first : Reads table (.operand precedence) ls [node] mid)
      (others : Fails table (.inputs count) mid e) : Fails table (.inputs (count + 1)) ls e
  | parenEnd {l : Lexeme} {ls : List Lexeme} (eof : l.kind = .eof) :
      Fails table .inputsToParen (l :: ls) (misplaced .rightParen l.token)
  | parenLine {l : Lexeme} {ls : List Lexeme} {e : ParseError} (newline : l.kind = .newline)
      (others : Fails table .inputsToParen ls e) : Fails table .inputsToParen (l :: ls) e
  | parenInput {l : Lexeme} {ls : List Lexeme} {e : ParseError}
      (input : l.kind ≠ .newline ∧ l.kind ≠ .rightParen ∧ l.kind ≠ .eof)
      (first : Fails table (.operand precedence) (l :: ls) e) :
      Fails table .inputsToParen (l :: ls) e
  | parenInputs {ls mid : List Lexeme} {node : Node} {e : ParseError}
      (first : Reads table (.operand precedence) ls [node] mid)
      (others : Fails table .inputsToParen mid e) : Fails table .inputsToParen ls e

variable {table table₁ table' : ProcedureTable} {phrase : Phrase} {ls mid : List Lexeme}
  {l : Lexeme} {steps log : List Step} {e : ParseError} {n bound : Nat}

/-! ## From failures to the readers -/

/-- There is a lexeme at which the reader gives up. -/
theorem Fails.length_pos (h : Fails table phrase ls e) : 0 < ls.length := by
  induction h with
  | first _ ih | input _ ih => exact ih
  | others first _ | inputs first _ | parenInputs first _ => exact Nat.zero_lt_of_lt first.length_lt
  | _ => exact Nat.zero_lt_succ _

theorem expect_of_ne {kind : TokenClass} (h : l.kind ≠ kind) (ls : List Lexeme) :
    expect kind (l :: ls) = .error (misplaced kind l.token) :=
  if_neg h

/-- The reader of the phrase ends with the error.  Whether a parenthesis closes the inputs of a call
is seen behind them. -/
def Phrase.Failed (table : ProcedureTable) (ls : List Lexeme) (e : ParseError) : Phrase → Prop
  | .operand levels => ∀ bound, ls.length ≤ bound + 1 →
      operandReader table bound levels ls = .error e
  | .chain operators levels left => ∀ bound n, ls.length ≤ bound → ls.length ≤ n →
      Reader.chain operators (operandReader table bound levels) n left ls = .error e
  | .inputs count => ∀ bound, ls.length ≤ bound → times (expression table bound) count ls = .error e
  | .inputsToParen => ∀ bound n taken, ls.length ≤ bound → ls.length ≤ n →
      (Reader.inputsToParen (expression table bound) n taken ls >>= fun r =>
        expect .rightParen r.2) = .error e

theorem primary_of_not_opensOperand (h : opensOperand l.kind = false) (inner : Parse Node)
    (ls : List Lexeme) :
    primary table bound inner (l :: ls) = .error (.unexpectedToken l.token) := by
  simp only [primary]
  cases hkind : l.kind with
  | trueWord | falseWord | nilWord | number | minus | quote | reference | symbol | leftBracket
  | leftParen =>
    rw [hkind] at h
    cases h
  | _ => rfl

theorem parenthesis_of_callee {m : Lexeme} {arity : Nat} (name : m.kind = .symbol)
    (defined : table.arity? m.token.text = some arity)
    (hinputs : (inputsToParen (expression table bound) bound [] ls >>= fun r =>
      expect .rightParen r.2) = .error e) :
    parenthesis table bound (expression table bound) (m :: ls) = .error e := by
  have hhead : ahead (m :: ls) = m.token := rfl
  have hsymbol : m.token.kind = .symbol := name
  simp only [parenthesis, hhead, hsymbol, if_true, defined, List.tail_cons]
  cases hread : inputsToParen (expression table bound) bound [] ls with
  | error e' =>
    rw [hread] at hinputs
    cases hinputs
    rfl
  | ok r =>
    rw [hread] at hinputs
    have hparen : expect .rightParen r.2 = .error e := hinputs
    simp only [bind, Except.bind, hparen]

/-- What ends no inputs starts an input. -/
theorem inputsToParen_succ {inner : Parse Node} {taken : List Node}
    (h : l.kind ≠ .newline ∧ l.kind ≠ .rightParen ∧ l.kind ≠ .eof) (ls : List Lexeme) :
    inputsToParen inner (n + 1) taken (l :: ls) =
      (inner (l :: ls) >>= fun r => inputsToParen inner n (r.1 :: taken) r.2) := by
  have hhead : (ahead (l :: ls)).kind = l.kind := rfl
  simp only [inputsToParen, hhead]
  split
  · next hkind => exact absurd hkind h.1
  · next hkind => exact absurd hkind h.2.1
  · next hkind => exact absurd hkind h.2.2
  · rfl

theorem ne_of_opensOperand {kind : TokenClass} (h : opensOperand kind = true) :
    kind ≠ .newline ∧ kind ≠ .rightParen ∧ kind ≠ .eof := by
  refine ⟨?_, ?_, ?_⟩ <;> rintro rfl <;> cases h

/-- The readers end with the error, given a bound. -/
theorem Fails.found (h : Fails table phrase ls e) : phrase.Failed table ls e := by
  induction h with
  | unopened no_operand => exact fun bound _ => primary_of_not_opensOperand no_operand _ _
  | number digits value =>
    intro bound _
    simp only [operandReader_nil, primary, digits, value, bind, Except.bind]
  | unsigned minus no_digits =>
    intro bound _
    simp only [operandReader_nil, primary, minus, expect_of_ne no_digits, bind, Except.bind]
  | signed minus digits value =>
    intro bound _
    simp only [operandReader_nil, primary, minus, expect_cons digits, value, bind, Except.bind]
  | list bracket items =>
    intro bound _
    simp only [operandReader_nil, primary, bracket, items]
  | call name defined _ ih =>
    intro bound hlength
    simp only [operandReader_nil, primary, name, defined]
    rw [ih bound (Nat.le_of_succ_le_succ hlength)]
    rfl
  | parenCall left name defined _ ih =>
    intro bound hlength
    simp only [List.length_cons] at hlength
    simp only [operandReader_nil, primary, left]
    exact parenthesis_of_callee name defined (ih bound bound [] (by omega) (by omega))
  | group left no_callee inner ih =>
    intro bound hlength
    have hpos := inner.length_pos
    rw [List.length_cons] at hlength
    obtain ⟨bound, rfl⟩ : ∃ k, bound = k + 1 := ⟨bound - 1, by omega⟩
    rw [callee?] at no_callee
    simp only [operandReader_nil, primary, left, parenthesis, no_callee, expression_succ,
      ih bound (by omega), bind, Except.bind]
  | unclosed left no_callee inner no_right =>
    intro bound hlength
    have hpos := inner.length_lt
    rw [List.length_cons] at hlength
    obtain ⟨bound, rfl⟩ : ∃ k, bound = k + 1 := ⟨bound - 1, by omega⟩
    rw [callee?] at no_callee
    simp only [operandReader_nil, primary, left, parenthesis, no_callee, expression_succ,
      inner.found _ bound rfl (by omega), expect_of_ne no_right, bind, Except.bind]
  | first _ ih =>
    intro bound hlength
    rw [operandReader_cons, binary, ih bound hlength]
    rfl
  | others first _ ih =>
    intro bound hlength
    have hmid := first.length_lt
    rw [operandReader_cons, binary, first.found _ bound rfl hlength]
    exact ih bound bound (by omega) (by omega)
  | chainNext operator _ ih =>
    intro bound n hlength hn
    rw [List.length_cons] at hlength hn
    obtain ⟨n, rfl⟩ : ∃ k, n = k + 1 := ⟨n - 1, by omega⟩
    simp only [chain, operator, List.tail_cons, ih bound (by omega), bind, Except.bind]
  | chainOthers operator next _ ih =>
    intro bound n hlength hn
    have hmid := next.length_lt
    rw [List.length_cons] at hlength hn
    obtain ⟨n, rfl⟩ : ∃ k, n = k + 1 := ⟨n - 1, by omega⟩
    simp only [chain, operator, List.tail_cons, next.found _ bound rfl (by omega), bind,
      Except.bind]
    exact ih bound n (by omega) (by omega)
  | input first ih =>
    intro bound hlength
    have hpos := first.length_pos
    obtain ⟨bound, rfl⟩ : ∃ k, bound = k + 1 := ⟨bound - 1, by omega⟩
    rw [expression_succ]
    simp only [times, ih bound hlength, bind, Except.bind]
  | inputs first _ ih =>
    intro bound hlength
    have hmid := first.length_lt
    simp only [times, first.expression_eq hlength, ih bound (by omega), bind, Except.bind]
  | parenEnd eof =>
    intro bound n taken hlength hn
    obtain ⟨n, rfl⟩ : ∃ k, n = k + 1 := ⟨n - 1, by rw [List.length_cons] at hn; omega⟩
    simp only [inputsToParen, ahead, show (Lexeme.token _).kind = .eof from eof]
    exact expect_of_ne (by rw [eof]; decide) _
  | parenLine newline _ ih =>
    intro bound n taken hlength hn
    rw [List.length_cons] at hlength hn
    obtain ⟨n, rfl⟩ : ∃ k, n = k + 1 := ⟨n - 1, by omega⟩
    simp only [inputsToParen, ahead, show (Lexeme.token _).kind = .newline from newline,
      List.tail_cons]
    exact ih bound n taken (by omega) (by omega)
  | parenInput input first ih =>
    intro bound n taken hlength hn
    have hpos := first.length_pos
    obtain ⟨bound, rfl⟩ : ∃ k, bound = k + 1 := ⟨bound - 1, by omega⟩
    obtain ⟨n, rfl⟩ : ∃ k, n = k + 1 := ⟨n - 1, by omega⟩
    rw [inputsToParen_succ input, expression_succ, ih bound hlength]
    rfl
  | parenInputs first _ ih =>
    intro bound n taken hlength hn
    have hmid := first.length_lt
    obtain ⟨n, rfl⟩ : ∃ k, n = k + 1 := ⟨n - 1, by omega⟩
    obtain ⟨l, more, rfl, hopens⟩ := first.exists_opening rfl
    rw [inputsToParen_succ (ne_of_opensOperand hopens), first.expression_eq hlength]
    exact ih bound n _ (by omega) (by omega)

/-- An expression that cannot be read ends with the error. -/
theorem Fails.expression_eq (h : Fails table (.operand precedence) ls e)
    (hlength : ls.length ≤ bound) : expression table bound ls = .error e := by
  have hpos := h.length_pos
  obtain ⟨bound, rfl⟩ : ∃ k, bound = k + 1 := ⟨bound - 1, by omega⟩
  exact h.found bound hlength

/-! ## Statements -/

/-- The kinds of lexemes at which a body goes on. -/
def inBody (kind : TokenClass) : Bool :=
  kind != .endWord && kind != .eof

/-- Reading the statement at the front of the lexemes ends with the error and leaves the table. -/
inductive Stops : ProcedureTable → List Lexeme → ParseError → ProcedureTable → Prop
  | expression {table : ProcedureTable} {ls : List Lexeme} {e : ParseError}
      (no_other : (ahead ls).kind ≠ .newline ∧ (ahead ls).kind ≠ .toWord)
      (failure : Fails table (.operand precedence) ls e) : Stops table ls e table
  | header {table : ProcedureTable} {ls : List Lexeme} {e : ParseError}
      (opening : (ahead ls).kind = .toWord) (failure : headerLine ls = .error e) :
      Stops table ls e table
  | endless {table table₁ : ProcedureTable} {ls inner : List Lexeme} {h : Header} {line : Nat}
      {l : Lexeme} {rest : List Lexeme} {steps log : List Step}
      (opening : headerLine ls = .ok ((h, line), inner))
      (body : Run (table.define (.ofHeader h.name h.params line)) inner steps log
        table₁ (l :: rest))
      (eof : l.kind = .eof) :
      Stops table ls (.unterminatedBody (Procedure.ofHeader h.name h.params line).name line) table₁
  | body {table table₁ table' : ProcedureTable} {ls inner mid : List Lexeme} {h : Header}
      {line : Nat} {steps log : List Step} {e : ParseError}
      (opening : headerLine ls = .ok ((h, line), inner))
      (body : Run (table.define (.ofHeader h.name h.params line)) inner steps log table₁ mid)
      (statement : inBody (ahead mid).kind = true) (failure : Stops table₁ mid e table') :
      Stops table ls e table'

theorem Stops.length_pos (h : Stops table ls e table') : 0 < ls.length := by
  cases h with
  | expression _ failure => exact failure.length_pos
  | header opening _ =>
    cases ls with
    | nil => cases opening
    | cons => exact Nat.zero_lt_succ _
  | endless opening | body opening => exact Nat.zero_lt_of_lt (suffix_of_headerLine opening).2

theorem statement_of_opening (hopening : (ahead ls).kind = .toWord) :
    statement (bound + 1) table ls = definition bound (statement bound) table ls := by
  simp only [statement, hopening]

/-- A definition whose body cannot be read ends with the error. -/
theorem definition_of_body {h : Header} {line : Nat} {inner : List Lexeme}
    {unterminated : ParseError} (hopening : headerLine ls = .ok ((h, line), inner))
    (hunterminated :
      unterminated = .unterminatedBody (Procedure.ofHeader h.name h.params line).name line)
    (hbody : body unterminated (statement bound) bound []
        (table.define (.ofHeader h.name h.params line)) inner = (.error e, table')) :
    statement (bound + 1) table ls = (.error e, table') := by
  subst hunterminated
  rw [statement_of_opening (kind_of_headerLine hopening)]
  simp only [definition, hopening, hbody]

/-- The reader of statements ends with the error, given a bound. -/
theorem Stops.found (h : Stops table ls e table') :
    ∀ bound, ls.length ≤ bound → statement bound table ls = (.error e, table') := by
  induction h with
  | expression no_other failure =>
    intro bound hbound
    have hpos := failure.length_pos
    obtain ⟨bound, rfl⟩ : ∃ k, bound = k + 1 := ⟨bound - 1, by omega⟩
    simp only [statement]
    split
    · next hkind => exact absurd hkind no_other.1
    · next hkind => exact absurd hkind no_other.2
    · rw [failure.expression_eq hbound]
  | @header table ls e opening failure =>
    intro bound hbound
    have hstops : Stops table ls e table := .header opening failure
    have hpos := hstops.length_pos
    obtain ⟨bound, rfl⟩ : ∃ k, bound = k + 1 := ⟨bound - 1, by omega⟩
    rw [statement_of_opening opening]
    simp only [definition, failure]
  | @endless table table₁ ls inner h line l rest steps log opening run eof =>
    intro bound hbound
    have hinner := (suffix_of_headerLine opening).2
    obtain ⟨bound, rfl⟩ : ∃ k, bound = k + 1 := ⟨bound - 1, by omega⟩
    refine definition_of_body opening rfl ?_
    obtain ⟨n, hn, heq⟩ :=
      run.passed.body (.unterminatedBody (Procedure.ofHeader h.name h.params line).name line)
      bound bound [] (by omega) (by omega)
    rw [List.length_cons] at hn
    obtain ⟨n, rfl⟩ : ∃ k, n = k + 1 := ⟨n - 1, by omega⟩
    have hhead : (ahead (l :: rest)).kind = .eof := eof
    rw [heq]
    simp only [Reader.body, hhead]
  | @body table table₁ table' ls inner mid h line steps log e opening run inside failure ih =>
    intro bound hbound
    have hinner := (suffix_of_headerLine opening).2
    have hmid := run.suffix.length_le
    have hpos := failure.length_pos
    obtain ⟨bound, rfl⟩ : ∃ k, bound = k + 1 := ⟨bound - 1, by omega⟩
    refine definition_of_body opening rfl ?_
    obtain ⟨n, hn, heq⟩ :=
      run.passed.body (.unterminatedBody (Procedure.ofHeader h.name h.params line).name line)
      bound bound [] (by omega) (by omega)
    obtain ⟨n, rfl⟩ : ∃ k, n = k + 1 := ⟨n - 1, by omega⟩
    rw [heq]
    simp only [Reader.body]
    split
    · next hkind => simp [hkind, inBody] at inside
    · next hkind => simp [hkind, inBody] at inside
    · rw [ih bound (by omega)]

/-- A program that comes to such a statement ends with the error. -/
theorem Run.statements_of_stops {keep : Bool} {taken : List Node}
    (h : Run table ls steps log table₁ mid) (heof : (ahead mid).kind ≠ .eof)
    (hstops : Stops table₁ mid e table') (hn : ls.length ≤ n) :
    statements keep n taken table ls = (.error e, table') := by
  obtain ⟨n', hn', heq⟩ := h.passed.program keep n taken hn
  have hpos := hstops.length_pos
  obtain ⟨n', rfl⟩ : ∃ k, n' = k + 1 := ⟨n' - 1, by omega⟩
  rw [heq]
  simp only [statements, if_neg heof, hstops.found _ hn']

end Logo.Reader
