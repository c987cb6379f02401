import Logo.Proofs.Failures
import Logo.Proofs.Joining

/-!
# Reading comes to an end

Lexemes that end with a closing one, and have no other, leave no rule of the grammar without an
outcome: a phrase is read, or reading fails, and either way by a finite derivation (`settles`).
What carries the induction is that an operand takes at least one lexeme.  The rules of the five
levels that call each other at one place do so in a fixed order, from the inputs of a call down to a
primary expression.

No rule looks behind the closing lexeme.  The outcome is the same whatever follows it (`Settles`),
and what is left always starts at or before it.  So it is with statements (`Concludes`), with the
passes over headers and aliases and with whole programs.
-/

namespace Logo.Reader

/-- The last lexeme closes the program, and no other one does. -/
inductive Ended : List Lexeme → Prop
  | last {l : Lexeme} (eof : l.kind = .eof) : Ended [l]
  | cons {l : Lexeme} {ls : List Lexeme} (not_eof : l.kind ≠ .eof) (others : Ended ls) :
      Ended (l :: ls)

variable {table table' : ProcedureTable} {phrase : Phrase} {levels : List Operators}
  {operators : Operators} {ls rest : List Lexeme} {l : Lexeme} {left : Node} {nodes : List Node}
  {steps log : List Step}

theorem Ended.exists_cons (h : Ended ls) : ∃ l others, ls = l :: others := by
  cases h with
  | last | cons => exact ⟨_, _, rfl⟩

theorem Ended.tail (h : Ended (l :: ls)) (hl : l.kind ≠ .eof) : Ended ls := by
  cases h with
  | last eof => exact absurd eof hl
  | cons _ others => exact others

theorem Ended.tail_of_kind {kind : TokenClass} (h : Ended (l :: ls)) (hl : l.kind = kind)
    (hkind : kind ≠ .eof) : Ended ls :=
  h.tail (hl ▸ hkind)

/-! ## Phrases -/

/-- Whatever follows the lexemes, the phrase is read up to the same rest, or fails with the same
error. -/
def Settles (table : ProcedureTable) (phrase : Phrase) (ls : List Lexeme) : Prop :=
  (∃ nodes rest, Ended rest ∧ ∀ more, Reads table phrase (ls ++ more) nodes (rest ++ more)) ∨
    ∃ e, ∀ more, Fails table phrase (ls ++ more) e

/-- A list is read up to its bracket, or the program closes before it. -/
theorem listItems_settles (h : Ended ls) (outer : List (List Node)) (items : List Node) :
    (∃ node rest, Ended rest ∧ ∀ more,
      listItems outer items (ls ++ more) = .ok (node, rest ++ more)) ∨
      ∃ e, ∀ more, listItems outer items (ls ++ more) = .error e := by
  induction h generalizing outer items with
  | @last l eof =>
    refine .inr ⟨misplaced .rightBracket l.token, fun more => ?_⟩
    have hkind : l.token.kind = .eof := eof
    simp only [List.singleton_append, listItems, eof, misplaced, hkind]
  | @cons l ls not_eof others ih =>
    simp only [List.cons_append, listItems]
    cases hkind : l.kind with
    | rightBracket =>
      cases outer with
      | nil => exact .inl ⟨_, ls, others, fun _ => rfl⟩
      | cons around outer => exact ih outer _
    | eof => exact absurd hkind not_eof
    | _ => exact ih _ _

theorem Reads.eq_singleton (h : Reads table (.operand levels) ls nodes rest) :
    ∃ node, nodes = [node] := by
  cases h <;> exact ⟨_, rfl⟩

theorem Reads.eq_singleton_chain (h : Reads table (.chain operators levels left) ls nodes rest) :
    ∃ node, nodes = [node] := by
  cases h <;> exact ⟨_, rfl⟩

theorem operator?_append (h : Ended ls) (operators : Operators) (more : List Lexeme) :
    operator? operators (ls ++ more) = operator? operators ls := by
  obtain ⟨l, others, rfl⟩ := h.exists_cons
  rfl

theorem callee?_append (h : Ended ls) (table : ProcedureTable) (more : List Lexeme) :
    callee? table (ls ++ more) = callee? table ls := by
  obtain ⟨l, others, rfl⟩ := h.exists_cons
  rfl

/-- Inputs are read up to a closing parenthesis. -/
theorem Reads.exists_rightParen (h : Reads table phrase ls nodes rest) :
    phrase = .inputsToParen → ∃ r others, rest = r :: others ∧ r.kind = .rightParen := by
  induction h with
  | parenEnd right => exact fun _ => ⟨_, _, rfl, right⟩
  | parenLine _ _ ih | parenInput _ _ _ ih => exact ih
  | _ => exact nofun

/-- An operand that is read takes at least one lexeme. -/
theorem Settles.cases_operand (h : Settles table (.operand levels) ls) :
    (∃ node mid, Ended mid ∧ mid.length < ls.length ∧
      ∀ more, Reads table (.operand levels) (ls ++ more) [node] (mid ++ more)) ∨
      ∃ e, ∀ more, Fails table (.operand levels) (ls ++ more) e := by
  refine h.imp_left ?_
  rintro ⟨nodes, mid, hmid, hreads⟩
  obtain ⟨node, rfl⟩ := (hreads []).eq_singleton
  have hlength := (hreads []).length_lt
  rw [List.append_nil, List.append_nil] at hlength
  exact ⟨node, mid, hmid, hlength, hreads⟩

/-- A minus ahead settles: it negates an operand, and what is behind it is shorter. -/
theorem settles_minus {ms : List Lexeme} (hl : l.kind = .minus) (h : Ended ms) :
    Settles table (.operand []) (l :: ms) := by
  obtain ⟨m, ns, rfl⟩ := h.exists_cons
  by_cases hm : m.kind = .number
  · cases hvalue : number m.token ("-" ++ m.token.text) with
    | ok node => exact .inl ⟨_, ns, h.tail_of_kind hm (by decide), fun more => .signed hl hm hvalue⟩
    | error e => exact .inr ⟨e, fun more => .signed hl hm hvalue⟩
  · exact .inr ⟨_, fun more => .unsigned hl hm⟩

section Shorter

variable (hshorter : ∀ ms, ms.length < ls.length → Ended ms →
  ∀ phrase : Phrase, phrase.levels ⊆ precedence → Settles table phrase ms)

include hshorter

/-- A parenthesis ahead settles: it opens a call with any number of inputs or a grouped
expression. -/
theorem settles_parenthesis {ms : List Lexeme} (hls : ls = l :: ms) (hl : l.kind = .leftParen)
    (h : Ended ms) : Settles table (.operand []) ls := by
  subst hls
  cases hcallee : callee? table ms with
  | none =>
    have hnone : ∀ more, callee? table (ms ++ more) = none :=
      fun more => by rw [callee?_append h, hcallee]
    rcases (hshorter ms (Nat.lt_succ_self _) h (.operand precedence)
      (List.Subset.refl _)).cases_operand with ⟨node, rest, hrest, -, hreads⟩ | ⟨e, hfails⟩
    · obtain ⟨r, others, rfl⟩ := hrest.exists_cons
      by_cases hr : r.kind = .rightParen
      · exact .inl ⟨_, others, hrest.tail_of_kind hr (by decide),
          fun more => .group hl (hnone more) (hreads more) hr⟩
      · exact .inr ⟨_, fun more => .unclosed hl (hnone more) (hreads more) hr⟩
    · exact .inr ⟨e, fun more => .group hl (hnone more) (hfails more)⟩
  | some arity =>
    obtain ⟨m, ns, rfl⟩ := h.exists_cons
    obtain ⟨hname, hdefined⟩ : m.kind = .symbol ∧ table.arity? m.token.text = some arity := by
      rw [callee?] at hcallee
      split at hcallee
      · next hname => exact ⟨hname, hcallee⟩
      · cases hcallee
    have hinside := h.tail_of_kind hname (by decide)
    rcases hshorter ns (by simp only [List.length_cons]; omega) hinside .inputsToParen
      (List.nil_subset _) with ⟨nodes, rest, hrest, hreads⟩ | ⟨e, hfails⟩
    · obtain ⟨r, others, rfl, hr⟩ : ∃ r others, rest = r :: others ∧ r.kind = .rightParen := by
        obtain ⟨r, others, hparen, hr⟩ := (hreads []).exists_rightParen rfl
        rw [List.append_nil] at hparen
        exact ⟨r, others, hparen, hr⟩
      exact .inl ⟨_, others, hrest.tail_of_kind hr (by decide),
        fun more => .parenCall hl hname hdefined (hreads more) hr⟩
    · exact .inr ⟨e, fun more => .parenCall hl hname hdefined (hfails more)⟩

/-- A name ahead settles: its inputs are behind it. -/
theorem settles_name {ms : List Lexeme} (hls : ls = l :: ms) (hl : l.kind = .symbol)
    (h : Ended ms) : Settles table (.operand []) ls := by
  subst hls
  cases harity : table.arity? l.token.text with
  | none => exact .inl ⟨_, ms, h, fun more => .symbol hl harity⟩
  | some arity =>
    rcases hshorter ms (Nat.lt_succ_self _) h (.inputs arity) (List.nil_subset _) with
      ⟨nodes, rest, hrest, hreads⟩ | ⟨e, hfails⟩
    · exact .inl ⟨_, rest, hrest, fun more => .call hl harity (hreads more)⟩
    · exact .inr ⟨e, fun more => .call hl harity (hfails more)⟩

theorem settles_primary (h : Ended ls) : Settles table (.operand []) ls := by
  obtain ⟨l, ms, hls⟩ := h.exists_cons
  have hwords : ∀ node, literal? l = some node → l.kind ≠ .eof →
      Settles table (.operand []) ls := by
    rintro node hnode hkind
    subst hls
    exact .inl ⟨_, ms, h.tail hkind, fun more => .literal hnode⟩
  have hother : opensOperand l.kind = false → Settles table (.operand []) ls := by
    subst hls
    exact fun hopens => .inr ⟨_, fun more => .unopened hopens⟩
  have htail : ∀ kind, l.kind = kind → kind ≠ .eof → Ended ms := by
    subst hls
    exact fun kind hl hkind => h.tail_of_kind hl hkind
  cases hkind : l.kind with
  | trueWord | falseWord | nilWord | quote | reference =>
    exact hwords _ (by rw [literal?, hkind]) (by rw [hkind]; decide)
  | number =>
    cases hvalue : number l.token l.token.text with
    | ok node =>
      exact hwords node (by simp only [literal?, hkind, hvalue, Except.toOption])
        (by rw [hkind]; decide)
    | error e =>
      subst hls
      exact .inr ⟨e, fun more => .number hkind hvalue⟩
  | minus => exact hls ▸ settles_minus hkind (htail _ hkind (by decide))
  | symbol => exact settles_name hshorter hls hkind (htail _ hkind (by decide))
  | leftParen => exact settles_parenthesis hshorter hls hkind (htail _ hkind (by decide))
  | leftBracket =>
    rcases listItems_settles (htail _ hkind (by decide)) [] [] with
      ⟨node, rest, hrest, hitems⟩ | ⟨e, hitems⟩
    · subst hls
      exact .inl ⟨_, rest, hrest, fun more => .list hkind (hitems more)⟩
    · subst hls
      exact .inr ⟨e, fun more => .list hkind (hitems more)⟩
  | _ => exact hother (by rw [hkind]; rfl)

/-- A chain of operators settles, as every further operand is read from fewer lexemes. -/
theorem settles_chain (h : Ended ls) (hlevels : operators :: levels ⊆ precedence) (left : Node) :
    Settles table (.chain operators levels left) ls := by
  cases hoperator : operator? operators ls with
  | none =>
    refine .inl ⟨_, ls, h, fun more => .chainEnd ?_⟩
    rw [operator?_append h, hoperator]
  | some name =>
    obtain ⟨l, ms, rfl⟩ := h.exists_cons
    have hname : ∀ more, operator? operators (l :: (ms ++ more)) = some name := fun _ => hoperator
    have hms : Ended ms := by
      refine h.tail fun heof => ?_
      have hinfix := (infix_of_operator? (hlevels List.mem_cons_self) hoperator).1
      rw [heof] at hinfix
      cases hinfix
    rcases (hshorter ms (Nat.lt_succ_self _) hms (.operand levels)
      (List.subset_of_cons_subset hlevels)).cases_operand with
        ⟨right, mid, hmid, hlength, hnext⟩ | ⟨e, hfails⟩
    · have hmore : Settles table (.chain operators levels (.plainCall name 2 [left, right])) mid :=
        hshorter mid (Nat.lt_succ_of_lt hlength) hmid _ hlevels
      rcases hmore with ⟨nodes, rest, hrest, hothers⟩ | ⟨e, hfails⟩
      · obtain ⟨node, rfl⟩ := (hothers []).eq_singleton_chain
        exact .inl ⟨_, rest, hrest, fun more => .chainStep (hname more) (hnext more) (hothers more)⟩
      · exact .inr ⟨e, fun more => .chainOthers (hname more) (hnext more) (hfails more)⟩
    · exact .inr ⟨e, fun more => .chainNext (hname more) (hfails more)⟩

theorem settles_operand (h : Ended ls) (hlevels : levels ⊆ precedence) :
    Settles table (.operand levels) ls := by
  induction levels with
  | nil => exact settles_primary hshorter h
  | cons operators levels ih =>
    rcases (ih (List.subset_of_cons_subset hlevels)).cases_operand with
      ⟨left, mid, hmid, hlength, hfirst⟩ | ⟨e, hfails⟩
    · rcases hshorter mid hlength hmid (.chain operators levels left) hlevels with
        ⟨nodes, rest, hrest, hothers⟩ | ⟨e, hfails⟩
      · obtain ⟨node, rfl⟩ := (hothers []).eq_singleton_chain
        exact .inl ⟨_, rest, hrest, fun more => .level (hfirst more) (hothers more)⟩
      · exact .inr ⟨e, fun more => .others (hfirst more) (hfails more)⟩
    · exact .inr ⟨e, fun more => .first (hfails more)⟩

/-- A fixed number of inputs settles, as each of them takes at least one lexeme. -/
theorem settles_inputs (h : Ended ls) (count : Nat) : Settles table (.inputs count) ls := by
  cases count with
  | zero => exact .inl ⟨_, ls, h, fun _ => .noInput⟩
  | succ count =>
    rcases (settles_operand hshorter h (List.Subset.refl _)).cases_operand with
      ⟨node, mid, hmid, hlength, hfirst⟩ | ⟨e, hfails⟩
    · rcases hshorter mid hlength hmid (.inputs count) (List.nil_subset _) with
        ⟨nodes, rest, hrest, hothers⟩ | ⟨e, hfails⟩
      · exact .inl ⟨_, rest, hrest, fun more => .input (hfirst more) (hothers more)⟩
      · exact .inr ⟨e, fun more => .inputs (hfirst more) (hfails more)⟩
    · exact .inr ⟨e, fun more => .input (hfails more)⟩

/-- Inputs up to a closing parenthesis settle, as they end with the program at the latest. -/
theorem settles_inputsToParen (h : Ended ls) : Settles table .inputsToParen ls := by
  obtain ⟨l, ms, rfl⟩ := h.exists_cons
  by_cases hnewline : l.kind = .newline
  · rcases hshorter ms (Nat.lt_succ_self _) (h.tail_of_kind hnewline (by decide)) .inputsToParen
      (List.nil_subset _) with ⟨nodes, rest, hrest, hothers⟩ | ⟨e, hfails⟩
    · exact .inl ⟨_, rest, hrest, fun more => .parenLine hnewline (hothers more)⟩
    · exact .inr ⟨e, fun more => .parenLine hnewline (hfails more)⟩
  by_cases hright : l.kind = .rightParen
  · exact .inl ⟨_, l :: ms, h, fun _ => .parenEnd hright⟩
  by_cases heof : l.kind = .eof
  · exact .inr ⟨_, fun _ => .parenEnd heof⟩
  rcases (settles_operand hshorter h (List.Subset.refl _)).cases_operand with
    ⟨node, mid, hmid, hlength, hfirst⟩ | ⟨e, hfails⟩
  · rcases hshorter mid hlength hmid .inputsToParen (List.nil_subset _) with
      ⟨nodes, rest, hrest, hothers⟩ | ⟨e, hfails⟩
    · exact .inl ⟨_, rest, hrest, fun more => .parenInput (hfirst more) (hothers more)⟩
    · exact .inr ⟨e, fun more => .parenInputs (hfirst more) (hfails more)⟩
  · exact .inr ⟨e, fun more => .parenInput ⟨hnewline, hright, heof⟩ (hfails more)⟩

end Shorter

/-- Every phrase is read or fails. -/
theorem settles (h : Ended ls) (hlevels : phrase.levels ⊆ precedence) :
    Settles table phrase ls := by
  -- On lexemes of one length the phrases follow in the order in which they call each other.
  induction hlen : ls.length using Nat.strongRecOn generalizing ls phrase with
  | ind len ih =>
    subst hlen
    have hshorter : ∀ ms, ms.length < ls.length → Ended ms →
        ∀ phrase : Phrase, phrase.levels ⊆ precedence → Settles table phrase ms :=
      fun ms hlength hms phrase hlevels => ih _ hlength hms hlevels rfl
    cases phrase with
    | operand levels => exact settles_operand hshorter h hlevels
    | chain operators levels left => exact settles_chain hshorter h hlevels left
    | inputs count => exact settles_inputs hshorter h count
    | inputsToParen => exact settles_inputsToParen hshorter h

/-! ## Statements -/

/-- What follows the program does not end a phrase earlier or later. -/
theorem Ended.stopsAlike (h : Ended rest) (more : List Lexeme) :
    StopsAlike rest (rest ++ more) := by
  obtain ⟨l, others, rfl⟩ := h.exists_cons
  exact .cons rfl

/-- Whatever follows the lexemes, the same statements are read from them. -/
theorem Run.append_more (h : Run table ls steps log table' rest) (hrest : Ended rest)
    (more : List Lexeme) :
    ∃ steps' log', Run table (ls ++ more) steps' log' table' (rest ++ more) ∧
      steps'.map Step.statement = steps.map Step.statement := by
  obtain ⟨used, rfl, hextend⟩ := h.extend
  rw [List.append_assoc]
  exact hextend _ (hrest.stopsAlike more)

theorem Run.standsAhead {step : Step} (h : Run table ls [step] log table' rest) :
    step.start = ls ∧ step.rest = rest ∧ StandsAhead table step table' := by
  cases h with
  | blank newline others =>
    cases others
    exact ⟨rfl, rfl, standsAhead_blank newline⟩
  | expression first others =>
    cases others
    exact ⟨rfl, rfl, standsAhead_expression first⟩
  | definition opening body closing complete_eq others =>
    cases others
    subst complete_eq
    exact ⟨rfl, rfl, standsAhead_definition opening fun unterminated bound hbound =>
      body.found.body _ _ rfl closing unterminated bound bound [] hbound hbound⟩

/-- A statement is read, or reading it fails in the same way whatever follows the lexemes. -/
def Concludes (table : ProcedureTable) (ls : List Lexeme) : Prop :=
  (∃ s rest log table', Ended rest ∧ Run table ls [⟨ls, s, rest⟩] log table' rest) ∨
    ∃ e table', ∀ more, Stops table (ls ++ more) e table'

theorem Ended.exists_references (h : Ended ls) : ∃ params back, ls = params ++ back ∧
    (∀ p ∈ params, p.kind = .reference) ∧ Ended back ∧ (ahead back).kind ≠ .reference := by
  induction h with
  | @last l eof =>
    have hkind : (ahead [l]).kind = .eof := eof
    exact ⟨[], [l], rfl, nofun, .last eof, by rw [hkind]; decide⟩
  | @cons l ls not_eof others ih =>
    by_cases hl : l.kind = .reference
    · obtain ⟨params, back, rfl, hparams, hback, hahead⟩ := ih
      exact ⟨l :: params, back, rfl, List.forall_mem_cons.2 ⟨hl, hparams⟩, hback, hahead⟩
    · exact ⟨[], l :: ls, rfl, nofun, .cons not_eof others, hl⟩

/-- A header is read, or it fails with one error whatever follows the program. -/
theorem header_settles (h : Ended ls) :
    (∃ hd back, Ended back ∧ ∀ more, header (ls ++ more) = .ok (hd, back ++ more)) ∨
      ∃ e, ∀ more, header (ls ++ more) = .error e := by
  obtain ⟨name, ns, rfl⟩ := h.exists_cons
  by_cases hname : name.kind = .symbol
  · obtain ⟨params, back, rfl, hparams, hback, hahead⟩ :=
      (h.tail_of_kind hname (by decide)).exists_references
    refine .inl ⟨⟨name.token.text, params.map (·.token.unmarked)⟩, back, hback, fun more => ?_⟩
    refine header_eq_ok_iff.2 ⟨name, params, by simp, hname, hparams, ?_, rfl⟩
    obtain ⟨l, others, rfl⟩ := hback.exists_cons
    exact hahead
  · refine .inr ⟨misplaced .symbol name.token, fun more => ?_⟩
    rw [header, List.cons_append, expect_of_ne hname]
    rfl

theorem headerLine_settles (h : Ended ls) :
    (∃ hd line inner, Ended inner ∧ ∀ more,
      headerLine (ls ++ more) = .ok ((hd, line), inner ++ more)) ∨
      ∃ e, ∀ more, headerLine (ls ++ more) = .error e := by
  obtain ⟨o, ms, rfl⟩ := h.exists_cons
  by_cases hto : o.kind = .toWord
  swap
  · refine .inr ⟨misplaced .toWord o.token, fun more => ?_⟩
    rw [headerLine, List.cons_append, expect_of_ne hto]
    rfl
  rcases header_settles (h.tail_of_kind hto (by decide)) with
    ⟨hd, back, hback, hheader⟩ | ⟨e, hfails⟩
  swap
  · refine .inr ⟨e, fun more => ?_⟩
    simp only [headerLine, List.cons_append, expect_cons hto, hfails, bind, Except.bind]
  -- Behind the parameters the line has to end.
  obtain ⟨l, inner, rfl⟩ := hback.exists_cons
  have hhead : ∀ more, (ahead (l :: (inner ++ more))).kind = l.kind := fun _ => rfl
  by_cases heof : l.kind = .eof
  · refine .inr ⟨.unterminatedBody (Text.toLower hd.name) o.token.position.line, fun more => ?_⟩
    simp only [headerLine, List.cons_append, expect_cons hto, hheader, bind, Except.bind]
    rw [if_pos ((hhead more).trans heof)]
    rfl
  by_cases hnewline : l.kind = .newline
  · refine .inl ⟨hd, o.token.position.line, inner, hback.tail heof, fun more => ?_⟩
    simp only [headerLine, List.cons_append, expect_cons hto, hheader, bind, Except.bind]
    rw [if_neg (fun h => heof ((hhead more).symm.trans h)), expect_cons hnewline]
    rfl
  · refine .inr ⟨misplaced .newline l.token, fun more => ?_⟩
    simp only [headerLine, List.cons_append, expect_cons hto, hheader, bind, Except.bind]
    rw [if_neg (fun h => heof ((hhead more).symm.trans h)), expect_of_ne hnewline]

/-- Statements are read up to a lexeme at which reading is to stop, or to one that cannot be
read. -/
theorem exists_run (hall : ∀ ms, ms.length ≤ ls.length → Ended ms → ∀ table, Concludes table ms)
    (h : Ended ls) (table : ProcedureTable) (stop : TokenClass → Bool) :
    ∃ steps log table₁ mid, Run table ls steps log table₁ mid ∧ Ended mid ∧
      (stop (ahead mid).kind = true ∨
        stop (ahead mid).kind = false ∧ ∃ e table', ∀ more,
        Stops table₁ (mid ++ more) e table') := by
  induction hlen : ls.length using Nat.strongRecOn generalizing ls table with
  | ind len ih =>
    cases hstop : stop (ahead ls).kind with
    | true => exact ⟨[], [], table, ls, .done, h, .inl hstop⟩
    | false =>
      rcases hall ls (Nat.le_refl _) h table with
        ⟨s, rest, log, table₁, hrest, hrun⟩ | ⟨e, table', hstops⟩
      · have hlength : rest.length < ls.length :=
          (hrun.mem_log _ (hrun.steps_subset _ List.mem_cons_self)).2.2
        have hothers : ∀ ms : List Lexeme, ms.length ≤ rest.length → Ended ms → ∀ table,
            Concludes table ms :=
          fun ms hms => hall ms (Nat.le_trans hms (Nat.le_of_lt hlength))
        obtain ⟨steps, log', table₂, mid, hruns, hmid, hend⟩ :=
          ih rest.length (hlen ▸ hlength) hothers hrest table₁ rfl
        exact ⟨_, _, table₂, mid, hrun.append hruns, hmid, hend⟩
      · exact ⟨[], [], table, ls, .done, h, .inr ⟨hstop, e, table', hstops⟩⟩

/-- A definition is read if all statements in shorter programs are. -/
theorem concludes_definition
    (hshorter : ∀ ms, ms.length < ls.length → Ended ms → ∀ table, Concludes table ms) (h : Ended ls)
    (hto : (ahead ls).kind = .toWord) (table : ProcedureTable) : Concludes table ls := by
  have hahead : ∀ more, (ahead (ls ++ more)).kind = .toWord := by
    obtain ⟨l, others, rfl⟩ := h.exists_cons
    exact fun _ => hto
  rcases headerLine_settles h with ⟨hd, line, inner, hinner, hopening⟩ | ⟨e, hfails⟩
  swap
  · exact .inr ⟨e, table, fun more => .header (hahead more) (hfails more)⟩
  have hopen : headerLine ls = .ok ((hd, line), inner) := by
    have hopen := hopening []
    rwa [List.append_nil, List.append_nil] at hopen
  have hlength := (suffix_of_headerLine hopen).2
  obtain ⟨steps, log, table₁, mid, hrun, hmid, hend⟩ :=
    exists_run (fun ms hms => hshorter ms (Nat.lt_of_le_of_lt hms hlength)) hinner
      (table.define (.ofHeader hd.name hd.params line)) fun kind => !inBody kind
  obtain ⟨l, rest, rfl⟩ := hmid.exists_cons
  have hkind : (ahead (l :: rest)).kind = l.kind := rfl
  rw [hkind] at hend
  rcases hend with hend | ⟨hend, e, table', hstops⟩
  · by_cases heof : l.kind = .eof
    · refine .inr ⟨.unterminatedBody (Procedure.ofHeader hd.name hd.params line).name line, table₁,
        fun more => ?_⟩
      obtain ⟨steps', log', hrun', -⟩ := hrun.append_more hmid more
      exact .endless (hopening more) hrun' heof
    · have hendWord : l.kind = .endWord := by
        simp only [inBody, Bool.not_eq_true', Bool.and_eq_false_iff, bne_eq_false_iff_eq] at hend
        exact hend.resolve_right heof
      exact .inl ⟨_, rest, _, _, hmid.tail heof, .definition hopen hrun hendWord rfl .done⟩
  · refine .inr ⟨e, table', fun more => ?_⟩
    obtain ⟨steps', log', hrun', -⟩ := hrun.append_more hmid more
    refine .body (hopening more) hrun' ?_ (hstops more)
    rw [Bool.not_eq_false'] at hend
    exact hend

/-- Every statement is read or fails. -/
theorem concludes (h : Ended ls) (table : ProcedureTable) : Concludes table ls := by
  induction hlen : ls.length using Nat.strongRecOn generalizing ls table with
  | ind len ih =>
    subst hlen
    obtain ⟨l, ms, rfl⟩ := h.exists_cons
    by_cases hnewline : l.kind = .newline
    · exact .inl ⟨_, ms, _, table, h.tail_of_kind hnewline (by decide), .blank hnewline .done⟩
    by_cases hto : l.kind = .toWord
    · exact concludes_definition (fun ms hms hended table => ih _ hms hended table rfl) h hto table
    have hsettles : Settles table (.operand precedence) (l :: ms) := settles h (List.Subset.refl _)
    rcases hsettles.cases_operand with ⟨node, mid, hmid, -, hreads⟩ | ⟨e, hfails⟩
    · have hread := hreads []
      rw [List.append_nil, List.append_nil] at hread
      exact .inl ⟨_, mid, _, table, hmid, .expression hread .done⟩
    · exact .inr ⟨e, table, fun more => .expression ⟨hnewline, hto⟩ (hfails more)⟩

end Logo.Reader
