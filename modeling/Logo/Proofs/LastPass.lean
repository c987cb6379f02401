import Logo.Proofs.EntryPasses
import Logo.Proofs.Grammar

/-!
# The last pass over a program

`Run table ls steps log table' rest` says that statements are read from the lexemes `ls`, that this
takes the procedure table from `table` to `table'`, and that `rest` is left behind them.  A step is
a statement with the place where it stands.  The `steps` are the statements read; the `log` lists
them together with the statements inside of the definitions among them, in the order in which they
are complete.

A program is read without an error just when its headers and aliases can be entered and a run leads
from there to the closing lexeme (`program_eq_ok_iff`).  All that a run does to the table is to
store the procedures of the log, one after the other (`Run.table_eq`).
-/

namespace Logo.Reader

/-- A statement, the lexemes from its first one on, and the lexemes behind it. -/
structure Step where
  start : List Lexeme
  statement : Statement
  rest : List Lexeme

namespace Step

/-- The expression that is the statement. -/
def expression? (step : Step) : Option Node :=
  match step.statement with
  | .expression node => some node
  | _ => none

/-- The procedure that the statement defines. -/
def procedure? (step : Step) : Option Procedure :=
  match step.statement with
  | .definition p => some p
  | _ => none

/-- The node that stands for the statement in a program. -/
def node? (keep : Bool) (step : Step) : Option Node :=
  match step.statement with
  | .blank => none
  | .definition p => if keep then some (.procedure p) else none
  | .expression node => some node

end Step

/-- The procedure of a definition that starts with `ls` and ends before `rest`. -/
def complete (h : Header) (line : Nat) (nodes : List Node) (ls rest : List Lexeme) : Procedure :=
  { Procedure.ofHeader h.name h.params line with
    body := .user nodes
    source := some (definitionText true (ls.take (ls.length - rest.length))) }

/-- Statements are read one after the other. -/
inductive Run :
    ProcedureTable → List Lexeme → List Step → List Step → ProcedureTable → List Lexeme → Prop
  | done {table : ProcedureTable} {ls : List Lexeme} : Run table ls [] [] table ls
  | blank {table table' : ProcedureTable} {l : Lexeme} {ls rest : List Lexeme}
      {steps log : List Step} (newline : l.kind = .newline)
      (others : Run table ls steps log table' rest) :
      Run table (l :: ls) (⟨l :: ls, .blank, ls⟩ :: steps) (⟨l :: ls, .blank, ls⟩ :: log)
        table' rest
  | expression {table table' : ProcedureTable} {ls mid rest : List Lexeme} {node : Node}
      {steps log : List Step} (first : Reads table (.operand precedence) ls [node] mid)
      (others : Run table mid steps log table' rest) :
      Run table ls (⟨ls, .expression node, mid⟩ :: steps) (⟨ls, .expression node, mid⟩ :: log)
        table' rest
  | definition {table table₁ table' : ProcedureTable} {e : Lexeme} {ls inner mid rest : List Lexeme}
      {h : Header} {line : Nat} {p : Procedure} {bodySteps bodyLog steps log : List Step}
      (opening : headerLine ls = .ok ((h, line), inner))
      (body : Run (table.define (.ofHeader h.name h.params line)) inner bodySteps bodyLog
        table₁ (e :: mid))
      (closing : e.kind = .endWord)
      (complete_eq : p = complete h line (bodySteps.filterMap Step.expression?) ls mid)
      (others : Run (table₁.define p) mid steps log table' rest) :
      Run table ls (⟨ls, .definition p, mid⟩ :: steps) (bodyLog ++ ⟨ls, .definition p, mid⟩ :: log)
        table' rest

variable {table table₁ table₂ table' : ProcedureTable} {ls mid rest : List Lexeme} {node : Node}
  {nodes : List Node} {steps steps₁ steps₂ log log₁ log₂ : List Step} {n bound : Nat}

/-! ## Headers -/

/-- The name and the parameters of a definition, lexeme by lexeme. -/
theorem header_eq_ok_iff {h : Header} : header ls = .ok (h, rest) ↔
    ∃ name params, ls = name :: (params ++ rest) ∧ name.kind = .symbol ∧
      (∀ p ∈ params, p.kind = .reference) ∧ (ahead rest).kind ≠ .reference ∧
      h = ⟨name.token.text, params.map (·.token.unmarked)⟩ := by
  constructor
  · intro hread
    obtain ⟨⟨token, after⟩, hname, hread⟩ := bind_eq_ok_iff.1 hread
    obtain ⟨name, rfl, hkind, rfl⟩ := exists_of_expect (by decide) hname
    cases hread
    refine ⟨name, after.takeWhile (·.kind == .reference), ?_, hkind, ?_, ?_, rfl⟩
    · rw [List.takeWhile_append_dropWhile]
    · exact fun p hp => beq_iff_eq.1 (List.all_eq_true.1 List.all_takeWhile p hp)
    · have hnot := List.head?_dropWhile_not (fun l : Lexeme => l.kind == .reference) after
      cases hrest : after.dropWhile (fun l : Lexeme => l.kind == .reference) with
      | nil => exact nofun
      | cons l more =>
        rw [hrest] at hnot
        exact beq_eq_false_iff_ne.1 hnot
  · rintro ⟨name, params, rfl, hkind, hparams, hrest, rfl⟩
    have htake : (params ++ rest).takeWhile (fun l : Lexeme => l.kind == .reference) = params := by
      rw [List.takeWhile_append_of_pos fun p hp => beq_iff_eq.2 (hparams p hp)]
      cases rest with
      | nil => simp
      | cons l more =>
        have hl : (l.kind == .reference) = false := beq_eq_false_iff_ne.2 hrest
        simp [hl]
    have hdrop : (params ++ rest).dropWhile (fun l : Lexeme => l.kind == .reference) = rest := by
      rw [List.dropWhile_append_of_pos fun p hp => beq_iff_eq.2 (hparams p hp)]
      cases rest with
      | nil => rfl
      | cons l more =>
        have hl : (l.kind == .reference) = false := beq_eq_false_iff_ne.2 hrest
        simp [hl]
    simp only [header, expect_cons hkind, bind, Except.bind, htake, hdrop]
    rfl

/-- The first line of a definition, lexeme by lexeme. -/
theorem headerLine_eq_ok_iff {h : Header} {line : Nat} {inner : List Lexeme} :
    headerLine ls = .ok ((h, line), inner) ↔
      ∃ opening name params newline, ls = opening :: name :: (params ++ newline :: inner) ∧
        opening.kind = .toWord ∧ name.kind = .symbol ∧ (∀ p ∈ params, p.kind = .reference) ∧
        newline.kind = .newline ∧ h = ⟨name.token.text, params.map (·.token.unmarked)⟩ ∧
        line = opening.token.position.line := by
  constructor
  · intro hread
    obtain ⟨⟨token, after⟩, hopening, hread⟩ := bind_eq_ok_iff.1 hread
    obtain ⟨opening, rfl, hto, rfl⟩ := exists_of_expect (by decide) hopening
    obtain ⟨⟨hd, after⟩, hheader, hread⟩ := bind_eq_ok_iff.1 hread
    obtain ⟨name, params, rfl, hname, hparams, -, rfl⟩ := header_eq_ok_iff.1 hheader
    by_cases heof : (ahead after).kind = .eof
    · simp only [heof, if_true] at hread
      cases hread
    · simp only [heof, if_false] at hread
      obtain ⟨⟨token, after⟩, hnewline, hread⟩ := bind_eq_ok_iff.1 hread
      obtain ⟨newline, rfl, hkind, rfl⟩ := exists_of_expect (by decide) hnewline
      cases hread
      exact ⟨opening, name, params, newline, rfl, hto, hname, hparams, hkind, rfl, rfl⟩
  · rintro ⟨opening, name, params, newline, rfl, hto, hname, hparams, hkind, rfl, rfl⟩
    have hahead : (ahead (newline :: inner)).kind = .newline := hkind
    have hheader := header_eq_ok_iff.2
      ⟨name, params, rfl, hname, hparams, by rw [hahead]; decide, rfl⟩
    simp only [headerLine, expect_cons hto, bind, Except.bind, hheader, hahead, expect_cons hkind]
    rfl

theorem suffix_of_headerLine {h : Header} {line : Nat} {inner : List Lexeme}
    (hread : headerLine ls = .ok ((h, line), inner)) : inner <:+ ls ∧ inner.length < ls.length := by
  obtain ⟨opening, name, params, newline, rfl, -⟩ := headerLine_eq_ok_iff.1 hread
  refine ⟨⟨opening :: name :: (params ++ [newline]), by simp⟩, ?_⟩
  simp only [List.length_cons, List.length_append]
  omega

/-! ## Runs -/

/-- A run behind a run is a run of all the statements. -/
theorem Run.append (h₁ : Run table ls steps₁ log₁ table₁ mid)
    (h₂ : Run table₁ mid steps₂ log₂ table₂ rest) :
    Run table ls (steps₁ ++ steps₂) (log₁ ++ log₂) table₂ rest := by
  induction h₁ with
  | done => exact h₂
  | blank newline _ ih => exact .blank newline (ih h₂)
  | expression first _ ih => exact .expression first (ih h₂)
  | definition opening body closing complete_eq _ _ ih =>
    rw [List.append_assoc]
    exact .definition opening body closing complete_eq (ih h₂)

/-- A run leaves an end of the lexemes. -/
theorem Run.suffix (h : Run table ls steps log table' rest) : rest <:+ ls := by
  induction h with
  | done => exact List.suffix_rfl
  | blank _ _ ih => exact ih.trans (List.suffix_cons _ _)
  | expression first _ ih =>
    obtain ⟨used, rfl, -⟩ := first.exists_used
    exact ih.trans (List.suffix_append _ _)
  | definition opening _ _ _ _ ihBody ih =>
    have hmid := (List.suffix_cons _ _).trans ihBody
    exact (ih.trans hmid).trans (suffix_of_headerLine opening).1

/-- The steps of the log lie between the start and the end of a run. -/
theorem Run.mem_log (h : Run table ls steps log table' rest) :
    ∀ step ∈ log, step.start <:+ ls ∧ rest <:+ step.rest ∧
      step.rest.length < step.start.length := by
  induction h with
  | done => exact fun step hstep => absurd hstep List.not_mem_nil
  | blank _ others ih =>
    refine List.forall_mem_cons.2 ⟨⟨List.suffix_rfl, others.suffix, Nat.lt_succ_self _⟩, ?_⟩
    intro step hstep
    obtain ⟨hstart, hrest⟩ := ih step hstep
    exact ⟨hstart.trans (List.suffix_cons _ _), hrest⟩
  | expression first others ih =>
    refine List.forall_mem_cons.2 ⟨⟨List.suffix_rfl, others.suffix, first.length_lt⟩, ?_⟩
    intro step hstep
    obtain ⟨hstart, hrest⟩ := ih step hstep
    obtain ⟨used, rfl, -⟩ := first.exists_used
    exact ⟨hstart.trans (List.suffix_append _ _), hrest⟩
  | definition opening body _ _ others ihBody ih =>
    obtain ⟨hinner, hlength⟩ := suffix_of_headerLine opening
    have hmid := (List.suffix_cons _ _).trans body.suffix
    intro step hstep
    rcases List.mem_append.1 hstep with hstep | hstep
    · obtain ⟨hstart, hrest, hlt⟩ := ihBody step hstep
      exact ⟨hstart.trans hinner, (others.suffix.trans (List.suffix_cons _ _)).trans hrest, hlt⟩
    · rcases List.mem_cons.1 hstep with rfl | hstep
      · exact ⟨List.suffix_rfl, others.suffix, Nat.lt_of_le_of_lt hmid.length_le hlength⟩
      · obtain ⟨hstart, hrest⟩ := ih step hstep
        exact ⟨hstart.trans (hmid.trans hinner), hrest⟩

/-- The log is in the order in which the statements end. -/
theorem Run.log_pairwise (h : Run table ls steps log table' rest) :
    log.Pairwise fun earlier later => later.rest.length < earlier.rest.length := by
  induction h with
  | done => exact .nil
  | blank _ others ih | expression _ others ih =>
    refine List.pairwise_cons.2 ⟨fun step hstep => ?_, ih⟩
    obtain ⟨hstart, -, hlt⟩ := others.mem_log step hstep
    exact Nat.lt_of_lt_of_le hlt hstart.length_le
  | definition opening body _ _ others ihBody ih =>
    refine List.pairwise_append.2 ⟨ihBody, List.pairwise_cons.2 ⟨fun step hstep => ?_, ih⟩, ?_⟩
    · obtain ⟨hstart, -, hlt⟩ := others.mem_log step hstep
      exact Nat.lt_of_lt_of_le hlt hstart.length_le
    · intro inside hinside step hstep
      have hend := (body.mem_log inside hinside).2.1.length_le
      rw [List.length_cons] at hend
      rcases List.mem_cons.1 hstep with rfl | hstep
      · exact hend
      · obtain ⟨hstart, -, hlt⟩ := others.mem_log step hstep
        have := hstart.length_le
        omega

/-- The statements of a run are in its log, with those of the bodies in between. -/
theorem Run.steps_subset (h : Run table ls steps log table' rest) : ∀ step ∈ steps, step ∈ log := by
  induction h with
  | done => exact fun step hstep => hstep
  | blank _ _ ih | expression _ _ ih => exact fun step hstep => List.cons_subset_cons _ ih hstep
  | definition _ _ _ _ _ _ ih =>
    exact fun step hstep => List.mem_append_right _ (List.cons_subset_cons _ ih hstep)

/-- A run stores the procedures of its log. -/
theorem Run.table_eq (h : Run table ls steps log table' rest) :
    table' = table.defineAll (log.filterMap Step.procedure?) := by
  induction h with
  | done => rfl
  | blank _ _ ih | expression _ _ ih => exact ih
  | @definition table table₁ table' e ls inner mid rest h line p bodySteps bodyLog steps log _ _ _
      complete_eq _ ihBody ih =>
    have hkey : (Procedure.ofHeader h.name h.params line).key = p.key := by
      rw [complete_eq]
      rfl
    rw [ih, ihBody, ProcedureTable.define_defineAll_define hkey, List.filterMap_append,
      ProcedureTable.defineAll_append]
    rfl

/-! ## From the readers to runs -/

/-- A reader of statements that makes a run of one step from at most `bound` lexemes. -/
def MakesRuns (bound : Nat)
    (read : ProcedureTable → List Lexeme → Reading (Statement × List Lexeme)) : Prop :=
  ∀ table ls s rest table', ls.length ≤ bound → read table ls = (.ok (s, rest), table') →
    ∃ log, Run table ls [⟨ls, s, rest⟩] log table' rest

section Body

variable {read : ProcedureTable → List Lexeme → Reading (Statement × List Lexeme)}
  (hread : MakesRuns bound read) {unterminated : ParseError}

include hread

/-- A body that is read is a run up to the word that ends it, with the expressions as its nodes. -/
theorem run_of_body {taken : List Node} (hlength : ls.length ≤ bound)
    (h : body unterminated read n taken table ls = (.ok (nodes, rest), table')) :
    ∃ steps log e, Run table ls steps log table' (e :: rest) ∧ e.kind = .endWord ∧
      nodes = taken.reverse ++ steps.filterMap Step.expression? := by
  induction n generalizing taken table ls with
  | zero => cases h
  | succ n ih =>
    cases ls with
    | nil => cases h
    | cons l ls =>
      have hhead : (ahead (l :: ls)).kind = l.kind := rfl
      simp only [body, hhead] at h
      split at h
      · next hend =>
        cases h
        exact ⟨[], [], l, .done, hend, (List.append_nil _).symm⟩
      · cases h
      · -- The statement ahead is a run of one step, before that of the others.
        have hstep : ∀ s mid table₁, read table (l :: ls) = (.ok (s, mid), table₁) →
            body unterminated read n
              ((Step.expression? ⟨l :: ls, s, mid⟩).toList ++ taken) table₁ mid =
              (.ok (nodes, rest), table') →
            ∃ steps log e, Run table (l :: ls) steps log table' (e :: rest) ∧ e.kind = .endWord ∧
              nodes = taken.reverse ++ steps.filterMap Step.expression? := by
          intro s mid table₁ hs hothers
          obtain ⟨log₁, hrun⟩ := hread _ _ _ _ _ hlength hs
          have hmid := hrun.suffix.length_le
          obtain ⟨steps, log, e, hruns, hend, rfl⟩ := ih (Nat.le_trans hmid hlength) hothers
          refine ⟨_, _, e, hrun.append hruns, hend, ?_⟩
          cases hnode : Step.expression? ⟨l :: ls, s, mid⟩ <;> simp [hnode]
        split at h
        · cases h
        · next node mid table₁ hs => exact hstep _ _ _ hs h
        · next s mid table₁ hother hs =>
          refine hstep _ _ _ hs ?_
          cases s with
          | expression node => exact absurd rfl (hother node)
          | blank | definition => exact h

/-- A definition that is read is a run of one statement. -/
theorem run_of_definition {s : Statement} (hlength : ls.length ≤ bound + 1)
    (h : definition bound read table ls = (.ok (s, rest), table')) :
    ∃ log, Run table ls [⟨ls, s, rest⟩] log table' rest := by
  simp only [definition] at h
  split at h
  · cases h
  · next hd line inner hopening =>
    have hinner := (suffix_of_headerLine hopening).2
    split at h
    · cases h
    · next nodes rest table₁ hbody =>
      cases h
      obtain ⟨steps, log, e, hrun, hend, rfl⟩ := run_of_body hread (by omega) hbody
      exact ⟨log ++ [_], .definition hopening hrun hend rfl .done⟩

end Body

/-- Whatever `statement` reads is a run of one statement, at every bound. -/
theorem makesRuns_statement (bound : Nat) : MakesRuns bound (statement bound) := by
  induction bound with
  | zero =>
    intro table ls s rest table' _ h
    cases congrArg Prod.fst h
  | succ bound ih =>
    intro table ls s rest table' hlength h
    simp only [statement] at h
    split at h
    · next hnewline =>
      cases ls with
      | nil => cases hnewline
      | cons l ls =>
        cases h
        exact ⟨_, .blank hnewline .done⟩
    · exact run_of_definition ih hlength h
    · split at h
      · next node mid hnode =>
        cases h
        exact ⟨_, .expression (obeys_expression table _ _ _ _ hlength hnode) .done⟩
      · cases h

/-- A program that is read is a run up to its end, with the nodes to keep. -/
theorem run_of_statements {keep : Bool} {taken : List Node} (hlength : ls.length ≤ n)
    (h : statements keep n taken table ls = (.ok nodes, table')) :
    ∃ steps log rest, Run table ls steps log table' rest ∧ (ahead rest).kind = .eof ∧
      nodes = taken.reverse ++ steps.filterMap (Step.node? keep) := by
  induction n generalizing taken table ls with
  | zero =>
    cases h
    have hnil : ls = [] := List.length_eq_zero_iff.1 (Nat.le_zero.1 hlength)
    exact ⟨[], [], ls, .done, by rw [hnil]; rfl, (List.append_nil _).symm⟩
  | succ n ih =>
    simp only [statements] at h
    split at h
    · next heof =>
      cases h
      exact ⟨[], [], ls, .done, heof, (List.append_nil _).symm⟩
    · have hstep : ∀ s mid table₁, statement (n + 1) table ls = (.ok (s, mid), table₁) →
          statements keep n ((Step.node? keep ⟨ls, s, mid⟩).toList ++ taken) table₁ mid =
            (.ok nodes, table') →
          ∃ steps log rest, Run table ls steps log table' rest ∧ (ahead rest).kind = .eof ∧
            nodes = taken.reverse ++ steps.filterMap (Step.node? keep) := by
        intro s mid table₁ hs hothers
        obtain ⟨log₁, hrun⟩ := makesRuns_statement _ _ _ _ _ _ hlength hs
        have hmid := (hrun.mem_log _ (hrun.steps_subset _ List.mem_cons_self)).2.2
        dsimp only at hmid
        obtain ⟨steps, log, rest, hruns, heof, rfl⟩ := ih (by omega) hothers
        refine ⟨_, _, rest, hrun.append hruns, heof, ?_⟩
        cases hnode : Step.node? keep ⟨ls, s, mid⟩ <;> simp [hnode]
      split at h
      · cases h
      · next mid table₁ hs => exact hstep _ _ _ hs h
      · next p mid table₁ hs =>
        refine hstep _ _ _ hs ?_
        cases keep <;> exact h
      · next node mid table₁ hs => exact hstep _ _ _ hs h

/-! ## From runs to the readers -/

/-- With any sufficient bound, the statement is read from the front of the lexemes. -/
def StandsAhead (table : ProcedureTable) (step : Step) (table' : ProcedureTable) : Prop :=
  ∀ bound, step.start.length ≤ bound →
    statement bound table step.start = (.ok (step.statement, step.rest), table')

/-- The kinds of lexemes that statements start with. -/
def opensStatement (kind : TokenClass) : Bool :=
  opensOperand kind || kind == .newline || kind == .toWord

theorem standsAhead_blank {l : Lexeme} (hl : l.kind = .newline) :
    StandsAhead table ⟨l :: ls, .blank, ls⟩ table := by
  intro bound hbound
  obtain ⟨bound, rfl⟩ : ∃ k, bound = k + 1 :=
    ⟨bound - 1, (Nat.sub_add_cancel (Nat.one_le_of_lt hbound)).symm⟩
  have hhead : (ahead (l :: ls)).kind = .newline := hl
  simp only [statement, hhead, List.tail_cons]

theorem standsAhead_expression (h : Reads table (.operand precedence) ls [node] mid) :
    StandsAhead table ⟨ls, .expression node, mid⟩ table := by
  intro bound hbound
  have hlength := h.length_lt
  dsimp only at hbound
  obtain ⟨bound, rfl⟩ : ∃ k, bound = k + 1 := ⟨bound - 1, by omega⟩
  obtain ⟨l, more, rfl, hopens⟩ := h.exists_opening rfl
  have hhead : (ahead (l :: more)).kind = l.kind := rfl
  have hread := h.expression_eq hbound
  simp only [statement, hhead]
  split
  · next hnewline => simp [hnewline, opensOperand] at hopens
  · next hto => simp [hto, opensOperand] at hopens
  · rw [hread]

/-- A definition stands ahead where its header does and its body is read behind it. -/
theorem standsAhead_definition {h : Header} {line : Nat} {inner : List Lexeme}
    (hopening : headerLine ls = .ok ((h, line), inner))
    (hbody : ∀ unterminated bound, inner.length ≤ bound → body unterminated (statement bound) bound
        [] (table.define (.ofHeader h.name h.params line)) inner = (.ok (nodes, mid), table₁)) :
    StandsAhead table ⟨ls, .definition (complete h line nodes ls mid), mid⟩
      (table₁.define (complete h line nodes ls mid)) := by
  intro bound hbound
  have hinner := (suffix_of_headerLine hopening).2
  dsimp only at hbound
  obtain ⟨bound, rfl⟩ : ∃ k, bound = k + 1 := ⟨bound - 1, by omega⟩
  have hhead : (ahead ls).kind = .toWord := by
    obtain ⟨opening, name, params, newline, rfl, hto, -⟩ := headerLine_eq_ok_iff.1 hopening
    exact hto
  simp only [statement, hhead, definition, hopening, hbody _ bound (by omega)]
  rfl

/-- A body begins with a statement that stands ahead. -/
theorem body_of_standsAhead {step : Step} {unterminated : ParseError} {taken : List Node}
    (hstep : StandsAhead table step table₁) (hopens : opensStatement (ahead step.start).kind = true)
    (hbound : step.start.length ≤ bound) :
    body unterminated (statement bound) (n + 1) taken table step.start =
      body unterminated (statement bound) n (step.expression?.toList ++ taken) table₁
        step.rest := by
  obtain ⟨start, s, rest⟩ := step
  simp only [body]
  split
  · next hend => simp [hend, opensStatement, opensOperand] at hopens
  · next heof => simp [heof, opensStatement, opensOperand] at hopens
  · rw [hstep bound hbound]
    cases s <;> rfl

/-- Reading statements goes past one that stands ahead, and stores what it defines. -/
theorem statements_of_standsAhead {step : Step} {keep : Bool} {taken : List Node}
    (hstep : StandsAhead table step table₁) (hopens : opensStatement (ahead step.start).kind = true)
    (hbound : step.start.length ≤ n + 1) :
    statements keep (n + 1) taken table step.start =
      statements keep n ((step.node? keep).toList ++ taken) table₁ step.rest := by
  obtain ⟨start, s, rest⟩ := step
  have heof : (ahead start).kind ≠ .eof := by
    intro heof
    simp [heof, opensStatement, opensOperand] at hopens
  simp only [statements, if_neg heof, hstep (n + 1) hbound]
  cases s with
  | blank | expression => rfl
  | definition p => cases keep <;> rfl

/-- The readers of a body and of a program come through the statements to what is left. -/
structure Passed (table : ProcedureTable) (ls : List Lexeme) (steps : List Step)
    (table' : ProcedureTable) (rest : List Lexeme) : Prop where
  body : ∀ unterminated bound n taken, ls.length ≤ bound → ls.length ≤ n → ∃ n', rest.length ≤ n' ∧
    body unterminated (statement bound) n taken table ls =
      body unterminated (statement bound) n'
        ((steps.filterMap Step.expression?).reverse ++ taken) table' rest
  program : ∀ keep n taken, ls.length ≤ n → ∃ n', rest.length ≤ n' ∧
    statements keep n taken table ls =
      statements keep n' ((steps.filterMap (Step.node? keep)).reverse ++ taken) table' rest

theorem Passed.cons {step : Step} (hstep : StandsAhead table step table₁)
    (hopens : opensStatement (ahead step.start).kind = true)
    (hlength : step.rest.length < step.start.length)
    (h : Passed table₁ step.rest steps table' rest) :
    Passed table step.start (step :: steps) table' rest where
  body unterminated bound n taken hbound hn := by
    obtain ⟨n, rfl⟩ : ∃ k, n = k + 1 := ⟨n - 1, by omega⟩
    obtain ⟨n', hrest, heq⟩ :=
      h.body unterminated bound n (step.expression?.toList ++ taken) (by omega) (by omega)
    refine ⟨n', hrest, ?_⟩
    rw [body_of_standsAhead hstep hopens hbound, heq]
    cases hnode : step.expression? <;> simp [hnode]
  program keep n taken hn := by
    obtain ⟨n, rfl⟩ : ∃ k, n = k + 1 := ⟨n - 1, by omega⟩
    obtain ⟨n', hrest, heq⟩ := h.program keep n ((step.node? keep).toList ++ taken) (by omega)
    refine ⟨n', hrest, ?_⟩
    rw [statements_of_standsAhead hstep hopens hn, heq]
    cases hnode : step.node? keep <;> simp [hnode]

/-- The readers find the statements, in a body and in a program. -/
structure Found (table : ProcedureTable) (ls : List Lexeme) (steps : List Step)
    (table' : ProcedureTable) (rest : List Lexeme) : Prop where
  body : ∀ e after, rest = e :: after → e.kind = .endWord → ∀ unterminated bound n taken,
    ls.length ≤ bound → ls.length ≤ n →
    body unterminated (statement bound) n taken table ls =
      (.ok (taken.reverse ++ steps.filterMap Step.expression?, after), table')
  program : (ahead rest).kind = .eof → ∀ keep n taken, ls.length ≤ n →
    statements keep n taken table ls =
      (.ok (taken.reverse ++ steps.filterMap (Step.node? keep)), table')

theorem Passed.found (h : Passed table ls steps table' rest) :
    Found table ls steps table' rest where
  body := by
    rintro e after rfl hend unterminated bound n taken hbound hn
    obtain ⟨n', hn', heq⟩ := h.body unterminated bound n taken hbound hn
    obtain ⟨n', rfl⟩ : ∃ k, n' = k + 1 := ⟨n' - 1, by rw [List.length_cons] at hn'; omega⟩
    have hhead : (ahead (e :: after)).kind = .endWord := hend
    rw [heq]
    simp [Reader.body, hhead]
  program heof keep n taken hn := by
    obtain ⟨n', -, heq⟩ := h.program keep n taken hn
    rw [heq]
    cases n' with
    | zero => simp [statements]
    | succ n' => simp [statements, heof]

/-- Every run is passed by the readers, in a body as in a program. -/
theorem Run.passed (h : Run table ls steps log table' rest) :
    Passed table ls steps table' rest := by
  induction h with
  | done => exact ⟨fun _ _ n _ _ hn => ⟨n, hn, rfl⟩, fun _ n _ hn => ⟨n, hn, rfl⟩⟩
  | blank newline _ ih =>
    refine ih.cons (standsAhead_blank newline) ?_ (Nat.lt_succ_self _)
    show opensStatement (Lexeme.kind _) = true
    rw [newline]
    rfl
  | expression first _ ih =>
    refine ih.cons (standsAhead_expression first) ?_ first.length_lt
    obtain ⟨l, more, rfl, hopens⟩ := first.exists_opening rfl
    exact Bool.or_eq_true_iff.2 (.inl (Bool.or_eq_true_iff.2 (.inl hopens)))
  | definition opening body closing complete_eq _ ihBody ih =>
    subst complete_eq
    have hbody := fun unterminated bound hbound =>
      ihBody.found.body _ _ rfl closing unterminated bound bound [] hbound hbound
    have hlength := (suffix_of_headerLine opening).2
    have hmid := body.suffix.length_le
    rw [List.length_cons] at hmid
    refine ih.cons (standsAhead_definition opening hbody) ?_ (by dsimp only; omega)
    obtain ⟨o, name, params, newline, rfl, hto, -⟩ := headerLine_eq_ok_iff.1 opening
    show opensStatement o.kind = true
    rw [hto]
    rfl

theorem Run.found (h : Run table ls steps log table' rest) : Found table ls steps table' rest :=
  h.passed.found

/-! ## Programs -/

theorem exists_of_isOk {α : Type} {r : Reading α} (h : r.1.isOk = true) :
    ∃ a table, r = (.ok a, table) := by
  obtain ⟨e | a, table⟩ := r
  · cases h
  · exact ⟨a, table, rfl⟩

/-- The course of reading a program without an error. -/
theorem program_eq_ok_iff {keep : Bool} : program keep table ls = (.ok nodes, table') ↔
    ∃ entered steps log rest, Entered table ls entered ∧ Run entered ls steps log table' rest ∧
      (ahead rest).kind = .eof ∧ nodes = steps.filterMap (Step.node? keep) := by
  simp only [entered_iff]
  constructor
  · intro h
    simp only [program] at h
    split at h
    · cases h
    · next opened hopened =>
      split at h
      · cases h
      · next entered hentered =>
        obtain ⟨steps, log, rest, hrun, heof, rfl⟩ := run_of_statements (Nat.le_refl _) h
        exact ⟨entered, steps, log, rest, ⟨opened, hopened, hentered⟩, hrun, heof, rfl⟩
  · rintro ⟨entered, steps, log, rest, ⟨opened, hopened, hentered⟩, hrun, heof, rfl⟩
    simp only [program, hopened, hentered]
    exact hrun.found.program heof keep ls.length [] (Nat.le_refl _)

end Logo.Reader
