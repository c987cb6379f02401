import Logo.Proofs.Termination

/-!
# The rules of the grammar

Ten rules read parts of a program.  Each starts at a place among the lexemes and gives back what it
has read and the place behind it, or an error; rules that read statements may also leave another
procedure table.  `Rule.Ends` says how a rule ends, by a derivation without bound, and `Rule.read`
is the reader of the rule for a given bound.

Started anywhere among lexemes with a closing one at their end, a rule ends, and its reader gives
just that outcome for every bound from the number of lexemes on (`rules_terminate`).
-/

namespace Logo.Reader

/-- The outcome of a rule: what was read and the lexemes that are left, or an error. -/
abbrev Outcome := Except ParseError (Statement × List Lexeme)

/-- The rules that read parts of a program. -/
inductive Rule where
  | expression
  | comparison
  | additive
  | multiplicative
  | primary
  | call
  | parenthesis
  | list
  | definition
  | statement
deriving DecidableEq

/-- Takes a call in prefix form. -/
def call (table : ProcedureTable) (bound : Nat) : Parse Node := fun ls => do
  let (name, ls) ← expect .symbol ls
  match table.arity? name.text with
  | none => .error (.unknownProcedure name.text)
  | some arity =>
    let (inputs, ls) ← times (expression table bound) arity ls
    return (.plainCall name.text arity inputs, ls)

/-- Takes something in parentheses. -/
def parenthesized (table : ProcedureTable) (bound : Nat) : Parse Node := fun ls => do
  let (_, ls) ← expect .leftParen ls
  parenthesis table bound (expression table bound) ls

/-- An expression as a statement, which leaves the table as it is. -/
def asStatement (table : ProcedureTable) (read : Except ParseError (Node × List Lexeme)) :
    Outcome × ProcedureTable :=
  (read.map fun (node, rest) => (.expression node, rest), table)

namespace Rule

/-- The kind of lexeme that the rule insists on at its start. -/
def entry? : Rule → Option TokenClass
  | call => some .symbol
  | parenthesis => some .leftParen
  | list => some .leftBracket
  | definition => some .toWord
  | _ => none

/-- The levels of the operands that the rule reads, if it reads an expression. -/
def levels? : Rule → Option (List Operators)
  | expression => some precedence
  | comparison => some [Reader.comparison, Reader.additive, Reader.multiplicative]
  | additive => some [Reader.additive, Reader.multiplicative]
  | multiplicative => some [Reader.multiplicative]
  | primary | call | parenthesis | list => some []
  | definition | statement => none

/-- The rule goes on behind its first lexeme. -/
def Admits (rule : Rule) (table : ProcedureTable) (l : Lexeme) : Prop :=
  (∀ kind ∈ rule.entry?, l.kind = kind) ∧ (rule = call → (table.arity? l.token.text).isSome)

/-- The reader of the rule, with a bound on the depth of nesting. -/
def read (rule : Rule) (bound : Nat) (table : ProcedureTable) (ls : List Lexeme) :
    Outcome × ProcedureTable :=
  match rule with
  | expression => asStatement table (Reader.expression table (bound + 1) ls)
  | comparison =>
    asStatement table
      (operandReader table bound [Reader.comparison, Reader.additive, Reader.multiplicative] ls)
  | additive =>
    asStatement table (operandReader table bound [Reader.additive, Reader.multiplicative] ls)
  | multiplicative => asStatement table (operandReader table bound [Reader.multiplicative] ls)
  | primary => asStatement table (Reader.primary table bound (Reader.expression table bound) ls)
  | call => asStatement table (Reader.call table bound ls)
  | parenthesis => asStatement table (parenthesized table bound ls)
  | list => asStatement table (Reader.list ls)
  | definition => Reader.definition bound (Reader.statement bound) table ls
  | statement => Reader.statement (bound + 1) table ls

/-- The rule, started at the lexemes, comes to an end with the outcome and leaves the table. -/
inductive Ends (table : ProcedureTable) : Rule → List Lexeme → Outcome → ProcedureTable → Prop
  | refused {rule : Rule} {kind : TokenClass} {l : Lexeme} {ls : List Lexeme}
      (entry : rule.entry? = some kind) (other : l.kind ≠ kind) :
      Ends table rule (l :: ls) (.error (misplaced kind l.token)) table
  | unknown {l : Lexeme} {ls : List Lexeme} (name : l.kind = .symbol)
      (undefined : table.arity? l.token.text = none) :
      Ends table .call (l :: ls) (.error (.unknownProcedure l.token.text)) table
  | node {rule : Rule} {levels : List Operators} {l : Lexeme} {ls rest : List Lexeme} {node : Node}
      (levels_eq : rule.levels? = some levels) (admitted : rule.Admits table l)
      (reads : Reads table (.operand levels) (l :: ls) [node] rest) :
      Ends table rule (l :: ls) (.ok (.expression node, rest)) table
  | failure {rule : Rule} {levels : List Operators} {l : Lexeme} {ls : List Lexeme} {e : ParseError}
      (levels_eq : rule.levels? = some levels) (admitted : rule.Admits table l)
      (fails : Fails table (.operand levels) (l :: ls) e) :
      Ends table rule (l :: ls) (.error e) table
  | step {rule : Rule} {l : Lexeme} {ls rest : List Lexeme} {s : Statement} {log : List Step}
      {table' : ProcedureTable} (levels_eq : rule.levels? = none) (admitted : rule.Admits table l)
      (run : Run table (l :: ls) [⟨l :: ls, s, rest⟩] log table' rest) :
      Ends table rule (l :: ls) (.ok (s, rest)) table'
  | stop {rule : Rule} {l : Lexeme} {ls : List Lexeme} {e : ParseError} {table' : ProcedureTable}
      (levels_eq : rule.levels? = none) (admitted : rule.Admits table l)
      (stops : Stops table (l :: ls) e table') : Ends table rule (l :: ls) (.error e) table'

end Rule

variable {table table' : ProcedureTable} {ls rest : List Lexeme} {l : Lexeme} {rule : Rule}
  {result : Outcome} {levels : List Operators} {bound : Nat}

/-! ## From rules to their readers -/

/-- A name that calls a procedure is read as a call. -/
theorem call_eq_primary {arity : Nat} (hname : l.kind = .symbol)
    (harity : table.arity? l.token.text = some arity) (ls : List Lexeme) :
    call table bound (l :: ls) = primary table bound (expression table bound) (l :: ls) := by
  simp only [call, expect_cons hname, bind, Except.bind, primary, hname, harity]

theorem parenthesized_eq_primary (hleft : l.kind = .leftParen) (ls : List Lexeme) :
    parenthesized table bound (l :: ls) =
      primary table bound (expression table bound) (l :: ls) := by
  simp only [parenthesized, expect_cons hleft, bind, Except.bind, primary, hleft]

theorem list_eq_primary (hleft : l.kind = .leftBracket) (ls : List Lexeme) :
    list (l :: ls) = primary table bound (expression table bound) (l :: ls) := by
  simp only [list, expect_cons hleft, bind, Except.bind, primary, hleft]

/-- Behind the first lexeme the rules for calls, parentheses and lists are those for primary
expressions. -/
theorem Rule.read_of_admits (hlevels : rule.levels? = some levels) (hadmits : rule.Admits table l) :
    rule.read bound table (l :: ls) =
      asStatement table (operandReader table bound levels (l :: ls)) := by
  obtain ⟨hentry, hdefined⟩ := hadmits
  cases rule with
  | expression | comparison | additive | multiplicative | primary =>
    cases hlevels
    rfl
  | definition | statement => cases hlevels
  | call =>
    cases hlevels
    obtain ⟨arity, harity⟩ := Option.isSome_iff_exists.1 (hdefined rfl)
    exact congrArg (asStatement table) (call_eq_primary (hentry _ rfl) harity ls)
  | parenthesis =>
    cases hlevels
    exact congrArg (asStatement table) (parenthesized_eq_primary (hentry _ rfl) ls)
  | list =>
    cases hlevels
    exact congrArg (asStatement table) (list_eq_primary (hentry _ rfl) ls)

theorem Rule.read_of_refused {kind : TokenClass} (hentry : rule.entry? = some kind)
    (hl : l.kind ≠ kind) :
    rule.read bound table (l :: ls) = (.error (misplaced kind l.token), table) := by
  have hexpect := expect_of_ne hl ls
  cases rule with
  | expression | comparison | additive | multiplicative | primary | statement => cases hentry
  | call | parenthesis | list =>
    cases hentry
    simp only [Rule.read, Reader.call, parenthesized, Reader.list, hexpect, bind, Except.bind]
    rfl
  | definition =>
    cases hentry
    have hheader : headerLine (l :: ls) = .error (misplaced .toWord l.token) := by
      rw [headerLine, hexpect]
      rfl
    simp only [Rule.read, Reader.definition, hheader]

/-- A definition is read as a statement. -/
theorem Rule.read_of_levels_none (hlevels : rule.levels? = none) (hadmits : rule.Admits table l) :
    rule.read bound table (l :: ls) = Reader.statement (bound + 1) table (l :: ls) := by
  cases rule with
  | statement => rfl
  | definition =>
    have hopening : (ahead (l :: ls)).kind = .toWord := hadmits.1 _ rfl
    exact (statement_of_opening hopening).symm
  | _ => cases hlevels

/-- The reader of a rule finds how it ends, given a bound. -/
theorem Rule.Ends.read_eq (h : rule.Ends table ls result table') (hbound : ls.length ≤ bound) :
    rule.read bound table ls = (result, table') := by
  cases h with
  | refused entry other => exact Rule.read_of_refused entry other
  | unknown name undefined =>
    simp only [Rule.read, Reader.call, expect_cons name, bind, Except.bind, undefined]
    rfl
  | node levels_eq admitted reads =>
    rw [Rule.read_of_admits levels_eq admitted, reads.found _ bound rfl (Nat.le_succ_of_le hbound)]
    rfl
  | failure levels_eq admitted fails =>
    rw [Rule.read_of_admits levels_eq admitted, fails.found bound (Nat.le_succ_of_le hbound)]
    rfl
  | step levels_eq admitted run =>
    rw [Rule.read_of_levels_none levels_eq admitted]
    exact run.standsAhead.2.2 (bound + 1) (Nat.le_succ_of_le hbound)
  | stop levels_eq admitted stops =>
    rw [Rule.read_of_levels_none levels_eq admitted]
    exact stops.found (bound + 1) (Nat.le_succ_of_le hbound)

/-! ## Every rule ends -/

/-- The outcome when more lexemes follow those that are left. -/
def Outcome.before (more : List Lexeme) (result : Outcome) : Outcome :=
  result.map fun (s, rest) => (s, rest ++ more)

/-- The outcome leaves fewer lexemes, the closing one among them. -/
def Outcome.Within (ls : List Lexeme) (result : Outcome) : Prop :=
  ∀ s rest, result = .ok (s, rest) → Ended rest ∧ rest <:+ ls ∧ rest.length < ls.length

theorem levels_subset (h : rule.levels? = some levels) : levels ⊆ precedence := by
  cases rule <;> cases h <;> simp [precedence]

theorem Rule.ends_of_admits (h : Ended (l :: ls)) (hadmits : rule.Admits table l) :
    ∃ result table', Outcome.Within (l :: ls) result ∧
      ∀ more, rule.Ends table (l :: ls ++ more) (Outcome.before more result) table' := by
  cases hlevels : rule.levels? with
  | some levels =>
    have hsettles : Settles table (.operand levels) (l :: ls) := settles h (levels_subset hlevels)
    rcases hsettles.cases_operand with ⟨node, rest, hrest, hlength, hreads⟩ | ⟨e, hfails⟩
    · refine ⟨.ok (.expression node, rest), table, ?_, fun more =>
        .node hlevels hadmits (hreads more)⟩
      rintro _ _ ⟨⟩
      obtain ⟨used, hused, -⟩ := (hreads []).exists_used
      rw [List.append_nil, List.append_nil] at hused
      exact ⟨hrest, ⟨used, hused.symm⟩, hlength⟩
    · exact ⟨.error e, table, nofun, fun more => .failure hlevels hadmits (hfails more)⟩
  | none =>
    rcases concludes h table with ⟨s, rest, log, table', hrest, hrun⟩ | ⟨e, table', hstops⟩
    · refine ⟨.ok (s, rest), table', ?_, fun more => ?_⟩
      · rintro _ _ ⟨⟩
        exact ⟨hrest, hrun.suffix, (hrun.mem_log _ (hrun.steps_subset _ List.mem_cons_self)).2.2⟩
      · obtain ⟨steps, log', hrun', hsteps⟩ := hrun.append_more hrest more
        obtain ⟨step, rfl, rfl⟩ := List.map_eq_singleton_iff.1 hsteps
        obtain ⟨hstart, hend, -⟩ := hrun'.standsAhead
        obtain ⟨start, s, rest⟩ := step
        subst hstart hend
        exact .step hlevels hadmits hrun'
    · exact ⟨.error e, table', nofun, fun more => .stop hlevels hadmits (hstops more)⟩

/-- Every rule ends, wherever it starts. -/
theorem Rule.ends (h : Ended ls) (rule : Rule) (table : ProcedureTable) :
    ∃ result table', Outcome.Within ls result ∧
      ∀ more, rule.Ends table (ls ++ more) (Outcome.before more result) table' := by
  obtain ⟨l, ls, rfl⟩ := h.exists_cons
  by_cases hentry : ∀ kind ∈ rule.entry?, l.kind = kind
  · by_cases hcall : rule = .call
    · subst hcall
      cases harity : table.arity? l.token.text with
      | none =>
        exact ⟨.error (.unknownProcedure l.token.text), table, nofun, fun _ =>
          .unknown (hentry _ rfl) harity⟩
      | some arity => exact Rule.ends_of_admits h ⟨hentry, fun _ => by rw [harity]; rfl⟩
    · exact Rule.ends_of_admits h ⟨hentry, fun hrule => absurd hrule hcall⟩
  · cases hkind : rule.entry? with
    | none =>
      rw [hkind] at hentry
      exact absurd nofun hentry
    | some kind =>
      have hother : l.kind ≠ kind := fun hl => hentry fun other hmem => by
        rw [hkind] at hmem
        exact hl.trans (Option.some.inj hmem)
      exact ⟨.error (misplaced kind l.token), table, nofun, fun _ => .refused hkind hother⟩

/-! ## The passes -/

/-- The pass over headers does not look behind the closing lexeme. -/
theorem enterHeaders_append (h : Ended ls) (table : ProcedureTable) (more : List Lexeme) :
    enterHeaders table (ls ++ more) =
      match enterHeaders table ls with
      | (.ok (), t) => enterHeaders t more
      | (.error e, t) => (.error e, t) := by
  induction h generalizing table with
  | @last l eof =>
    have hto : l.kind ≠ .toWord := by rw [eof]; decide
    simp only [List.singleton_append, enterHeaders, if_neg hto]
  | @cons l ls not_eof others ih =>
    by_cases hto : l.kind = .toWord
    · simp only [List.cons_append, enterHeaders, if_pos hto]
      rcases header_settles others with ⟨hd, back, -, hheader⟩ | ⟨e, hfails⟩
      · have hshort := hheader []
        rw [List.append_nil] at hshort
        rw [hheader, hshort]
        exact ih _
      · have hshort := hfails []
        rw [List.append_nil] at hshort
        rw [hfails, hshort]
    · simp only [List.cons_append, enterHeaders, if_neg hto]
      exact ih table

/-- No directive goes on behind the closing lexeme. -/
theorem aliasDirective?_append (h : Ended ls) (more : List Lexeme) :
    aliasDirective? (ls ++ more) = aliasDirective? ls := by
  cases h with
  | @last l eof =>
    have hsymbol : l.kind = .symbol → isAliasWord l.token.text = false := fun hsymbol => by
      cases hsymbol.symm.trans eof
    rw [List.singleton_append, aliasDirective?_of_head hsymbol, aliasDirective?_of_head hsymbol]
  | @cons l _ _ others =>
    cases others with
    | @last m eof =>
      have hquote : m.kind ≠ .quote := by rw [eof]; decide
      rw [List.cons_append, List.singleton_append, aliasDirective?_of_second hquote,
        aliasDirective?_of_second hquote]
    | cons _ others =>
      obtain ⟨n, ns, rfl⟩ := others.exists_cons
      rfl

/-- The pass over aliases does not look behind the closing lexeme. -/
theorem enterAliases_append (h : Ended ls) (table : ProcedureTable) (more : List Lexeme) :
    enterAliases table (ls ++ more) =
      match enterAliases table ls with
      | (.ok (), t) => enterAliases t more
      | (.error e, t) => (.error e, t) := by
  induction h generalizing table with
  | @last l eof =>
    have hdirective := aliasDirective?_append (.last eof) more
    have hnone : aliasDirective? [l] = none := rfl
    simp only [List.singleton_append] at hdirective ⊢
    simp only [enterAliases, hdirective, hnone]
  | @cons l ls not_eof others ih =>
    have hdirective := aliasDirective?_append (.cons not_eof others) more
    simp only [List.cons_append] at hdirective ⊢
    simp only [enterAliases, hdirective]
    split
    · split
      · exact ih _
      · rfl
    · exact ih table

/-- The last pass over a program, started with the table, comes to an end with the result and leaves
the other table. -/
inductive Finishes (keep : Bool) (table : ProcedureTable) (ls : List Lexeme) :
    Except ParseError (List Node) → ProcedureTable → Prop
  | done {table' : ProcedureTable} {rest : List Lexeme} {steps log : List Step}
      (run : Run table ls steps log table' rest) (eof : (ahead rest).kind = .eof) :
      Finishes keep table ls (.ok (steps.filterMap (Step.node? keep))) table'
  | stopped {table₁ table' : ProcedureTable} {mid : List Lexeme} {steps log : List Step}
      {e : ParseError} (run : Run table ls steps log table₁ mid) (not_eof : (ahead mid).kind ≠ .eof)
      (stops : Stops table₁ mid e table') : Finishes keep table ls (.error e) table'

theorem Finishes.statements_eq {keep : Bool} {nodes : Except ParseError (List Node)}
    (h : Finishes keep table ls nodes table') (hbound : ls.length ≤ bound) :
    statements keep bound [] table ls = (nodes, table') := by
  cases h with
  | done run eof => exact run.found.program eof keep bound [] hbound
  | stopped run not_eof stops => exact run.statements_of_stops not_eof stops hbound

/-- The last pass ends, and does not look behind the closing lexeme. -/
theorem finishes (h : Ended ls) (keep : Bool) (table : ProcedureTable) :
    ∃ nodes table', ∀ more, Finishes keep table (ls ++ more) nodes table' := by
  obtain ⟨steps, log, table₁, mid, hrun, hmid, hend⟩ :=
    exists_run (fun ms _ hms table => concludes hms table) h table (· == .eof)
  obtain ⟨l, others, rfl⟩ := hmid.exists_cons
  rcases hend with heof | ⟨heof, e, table', hstops⟩
  · refine ⟨.ok (steps.filterMap (Step.node? keep)), table₁, fun more => ?_⟩
    obtain ⟨steps', log', hrun', hsteps⟩ := hrun.append_more hmid more
    rw [← filterMap_of_statement (fun _ _ => Step.node?_of_statement keep) hsteps]
    exact .done hrun' (beq_iff_eq.1 heof)
  · refine ⟨.error e, table', fun more => ?_⟩
    obtain ⟨steps', log', hrun', -⟩ := hrun.append_more hmid more
    exact .stopped hrun' (beq_eq_false_iff_ne.1 heof) (hstops more)

/-- A program is read to its end once its headers and aliases are entered. -/
theorem program_finishes (h : Ended ls) (keep : Bool) (table : ProcedureTable) :
    (∃ entered, Entered table ls entered ∧
      Finishes keep entered ls (program keep table ls).1 (program keep table ls).2) ∨
      (∃ e, (program keep table ls).1 = .error e) ∧ ∀ entered, ¬ Entered table ls entered := by
  simp only [entered_iff]
  rcases hheaders : enterHeaders table ls with ⟨e | _, opened⟩
  · refine .inr ⟨⟨e, by rw [program, hheaders]⟩, ?_⟩
    rintro entered ⟨_, hok, -⟩
    cases hok
  · rcases haliases : enterAliases opened ls with ⟨e | _, entered⟩
    · refine .inr ⟨⟨e, by simp only [program, hheaders, haliases]⟩, ?_⟩
      rintro entered ⟨_, hok, hdone⟩
      cases hok
      cases haliases.symm.trans hdone
    · obtain ⟨nodes, table', hfinishes⟩ := finishes h keep entered
      have hfinish := hfinishes []
      rw [List.append_nil] at hfinish
      have hprogram : program keep table ls = (nodes, table') := by
        simp only [program, hheaders, haliases]
        exact hfinish.statements_eq (Nat.le_refl _)
      rw [hprogram]
      exact .inl ⟨entered, ⟨opened, rfl, haliases⟩, hfinish⟩

/-! ## Token vectors -/

theorem kind_ofTokens (tokens : List Token) :
    (Lexeme.ofTokens tokens).map Lexeme.kind = tokens.map (·.kind) := by
  have htokens : (Lexeme.ofTokens tokens).map (·.token) = tokens :=
    Lexeme.map_token_ofTokensAfter none tokens
  calc (Lexeme.ofTokens tokens).map Lexeme.kind
      = ((Lexeme.ofTokens tokens).map (·.token)).map (·.kind) := by rw [List.map_map]; rfl
    _ = tokens.map (·.kind) := by rw [htokens]

theorem ended_of_map_kind {kinds : List TokenClass} (h : ls.map Lexeme.kind = kinds ++ [.eof])
    (hkinds : .eof ∉ kinds) : Ended ls := by
  induction kinds generalizing ls with
  | nil =>
    obtain ⟨l, rfl, hl⟩ := List.map_eq_singleton_iff.1 h
    exact .last hl
  | cons kind kinds ih =>
    obtain ⟨l, ls, rfl, hl, hls⟩ := List.map_eq_cons_iff.1 h
    rw [List.mem_cons, not_or] at hkinds
    exact .cons (hl ▸ Ne.symm hkinds.1) (ih hls hkinds.2)

theorem Ended.ne_nil (h : Ended ls) : ls ≠ [] := by
  obtain ⟨l, others, rfl⟩ := h.exists_cons
  exact List.cons_ne_nil l others

theorem Ended.drop (h : Ended ls) {i : Nat} (hi : i < ls.length) : Ended (ls.drop i) := by
  induction h generalizing i with
  | last eof =>
    obtain rfl : i = 0 := Nat.lt_one_iff.1 hi
    exact .last eof
  | cons not_eof others ih =>
    cases i with
    | zero => exact .cons not_eof others
    | succ i => exact ih (Nat.lt_of_succ_lt_succ hi)

/-- What is left behind a place is found at a later place. -/
theorem exists_drop_of_suffix {i : Nat} (hrest : Ended rest) (hsuffix : rest <:+ ls.drop i)
    (hshorter : rest.length < (ls.drop i).length) :
    ∃ j, i < j ∧ j < ls.length ∧ rest = ls.drop j := by
  obtain ⟨used, hused⟩ := hsuffix
  have hpos : 0 < rest.length := List.length_pos_of_ne_nil hrest.ne_nil
  have hlength := congrArg List.length hused
  rw [List.length_append] at hlength
  rw [List.length_drop] at hlength hshorter
  refine ⟨i + used.length, by omega, by omega, ?_⟩
  rw [← List.drop_drop, ← hused, List.drop_left]

/-- Every rule of the grammar, started at any token of a vector that ends with its only closing
token, comes to an end, and so do the passes over the vector.  A rule that succeeds goes on at a
later token, at the latest at the closing one.  None of them depends on anything behind the
vector. -/
theorem rules_terminate {tokens front : List Token} {last : Token}
    (htokens : tokens = front ++ [last]) (hlast : last.kind = .eof)
    (hfront : ∀ t ∈ front, t.kind ≠ .eof) (table : ProcedureTable) :
    let ls := Lexeme.ofTokens tokens
    (∀ (rule : Rule) (i : Nat), i ≤ front.length → ∃ (result : Outcome) (table' : ProcedureTable),
      (∀ more, rule.Ends table (ls.drop i ++ more) (Outcome.before more result) table' ∧
        ∀ bound, (ls.drop i ++ more).length ≤ bound →
          rule.read bound table (ls.drop i ++ more) = (Outcome.before more result, table')) ∧
      ∀ s rest, result = .ok (s, rest) → ∃ j, i < j ∧ j ≤ front.length ∧ rest = ls.drop j) ∧
    (∀ more, enterHeaders table (ls ++ more) =
      match enterHeaders table ls with
      | (.ok (), t) => enterHeaders t more
      | (.error e, t) => (.error e, t)) ∧
    (∀ more, enterAliases table (ls ++ more) =
      match enterAliases table ls with
      | (.ok (), t) => enterAliases t more
      | (.error e, t) => (.error e, t)) ∧
    ∀ keep,
      (∃ nodes table', ∀ more, Finishes keep table (ls ++ more) nodes table' ∧
        ∀ bound, (ls ++ more).length ≤ bound →
        statements keep bound [] table (ls ++ more) = (nodes, table')) ∧
      ((∃ entered, Entered table ls entered ∧
        Finishes keep entered ls (program keep table ls).1 (program keep table ls).2) ∨
        (∃ e, (program keep table ls).1 = .error e) ∧ ∀ entered, ¬ Entered table ls entered) := by
  intro ls
  have hkinds : ls.map Lexeme.kind = front.map (·.kind) ++ [.eof] := by
    rw [kind_ofTokens, htokens, List.map_append, List.map_singleton, hlast]
  have hended : Ended ls := ended_of_map_kind hkinds (by simpa using hfront)
  have hlength : ls.length = front.length + 1 := by
    simpa using congrArg List.length hkinds
  refine ⟨fun rule i hi => ?_, enterHeaders_append hended table, enterAliases_append hended table,
    fun keep => ⟨?_, ?_⟩⟩
  · have hstart : i < ls.length := hlength ▸ Nat.lt_succ_of_le hi
    obtain ⟨result, table', hwithin, hends⟩ := Rule.ends (hended.drop hstart) rule table
    refine ⟨result, table', fun more =>
      ⟨hends more, fun bound hbound => (hends more).read_eq hbound⟩, ?_⟩
    intro s rest hok
    obtain ⟨hrest, hsuffix, hshorter⟩ := hwithin s rest hok
    obtain ⟨j, hj, hbehind, rfl⟩ := exists_drop_of_suffix hrest hsuffix hshorter
    exact ⟨j, hj, by rw [hlength] at hbehind; exact Nat.le_of_lt_succ hbehind, rfl⟩
  · obtain ⟨nodes, table', hfinishes⟩ := finishes hended keep table
    exact ⟨nodes, table', fun more =>
      ⟨hfinishes more, fun bound hbound => (hfinishes more).statements_eq hbound⟩⟩
  · exact program_finishes hended keep table

/-- The tokens of `(1) (`, without the closing one. -/
def unclosedTokens : List Token :=
  [⟨.leftParen, "(", ⟨1, 0⟩⟩, ⟨.number, "1", ⟨1, 1⟩⟩, ⟨.rightParen, ")", ⟨1, 2⟩⟩,
    ⟨.leftParen, "(", ⟨1, 4⟩⟩]

/-- The closing token behind them. -/
def unclosedEnd : Token :=
  ⟨.eof, "", ⟨1, 5⟩⟩

theorem rules_terminate_unclosed :
    let ls := Lexeme.ofTokens (unclosedTokens ++ [unclosedEnd])
    (∃ s j table', Rule.Ends .empty .parenthesis ls (.ok (s, ls.drop j)) table' ∧
      0 < j ∧ j ≤ unclosedTokens.length) ∧
      ∃ e table', Rule.Ends .empty .parenthesis (ls.drop 3) (.error e) table' := by
  intro ls
  have hrules :=
    (rules_terminate (rfl : _ = unclosedTokens ++ [unclosedEnd]) rfl (by decide) .empty).1
  constructor
  · obtain ⟨result, table', hends, hplace⟩ := hrules .parenthesis 0 (by decide)
    obtain ⟨hend, hread⟩ := hends []
    have hfst : _ = Outcome.before [] result := congrArg Prod.fst (hread 5 (by decide))
    have hok : (Outcome.before [] result).isOk = true := by
      rw [← hfst]
      decide +kernel
    cases result with
    | error => cases hok
    | ok read =>
      obtain ⟨j, hj, hbehind, hrest⟩ := hplace read.1 read.2 rfl
      refine ⟨read.1, j, table', ?_, hj, hbehind⟩
      simpa [Outcome.before, Except.map, hrest] using hend
  · obtain ⟨result, table', hends, -⟩ := hrules .parenthesis 3 (by decide)
    obtain ⟨hend, hread⟩ := hends []
    have hfst : _ = Outcome.before [] result := congrArg Prod.fst (hread 5 (by decide))
    have hfails : (Outcome.before [] result).isOk = false := by
      rw [← hfst]
      decide +kernel
    cases result with
    | error e => exact ⟨e, table', by simpa [Outcome.before, Except.map] using hend⟩
    | ok => cases hfails

end Logo.Reader
